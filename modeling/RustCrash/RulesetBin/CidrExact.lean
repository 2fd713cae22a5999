import RustCrash.Lib.AlignedBlocks
import RustCrash.Lib.Checked
import RustCrash.RulesetBin.CidrRange

/-
  `ip_range_to_cidrs` in the machine's arithmetic, and its result as a greedy split of the
  range into aligned blocks.

  `cidrTurn` is one turn of the loop with every `u128` and `u32` operation checked. No check
  fails, and a turn takes the largest block that starts at the cursor and fits.
-/

namespace RustCrash.RulesetBin

open Lib Lib.Net Lib.AlignedBlocks

/-! ## The loop in machine arithmetic -/

/-- The exponent of the largest power of two in a span. -/
def fitChecked (span : Nat) : Option Nat :=
  if span = 2 ^ 128 - 1 then some 128
  else if span = 0 then some 0
  else (addChecked 128 span 1).bind fun n => subChecked 127 (leadingZeros128 n)

/-- One turn of the loop: the text of a prefix, and the next cursor if the loop goes on.
    `none` when an operation overflows. -/
def cidrTurn (cur hi bits : Nat) : Option (Str × Option Nat) := do
  let span ← subChecked hi cur
  let k ← fitChecked span
  let tz := if cur = 0 then bits else min (trailingZeros128 cur) bits
  let k := min k tz
  let plen ← subChecked bits k
  let addr : IpAddr := if bits = 32 then .v4 (BitVec.ofNat 32 cur) else .v6 (BitVec.ofNat 128 cur)
  let text := ipText addr ++ '/' :: Str.decimal plen
  if 128 ≤ k then some (text, none)
  else (shlChecked 128 1 k).map fun block => (text, addChecked 128 cur block)

theorem cidrTurn_next {cur hi bits next : Nat} {text : Str}
    (h : cidrTurn cur hi bits = some (text, some next)) : cur < next := by
  unfold cidrTurn at h
  simp only [Option.bind_eq_bind, Option.bind_eq_some_iff] at h
  obtain ⟨span, -, k, -, plen, -, h⟩ := h
  generalize min k (if cur = 0 then bits else min (trailingZeros128 cur) bits) = k' at h
  by_cases hk : 128 ≤ k'
  · rw [if_pos hk] at h
    cases h
  rw [if_neg hk] at h
  obtain ⟨block, hblock, h⟩ := Option.map_eq_some_iff.mp h
  rw [Prod.mk.injEq] at h
  have hadd := h.2
  rw [shlChecked_one (by omega), Option.some.injEq] at hblock
  unfold addChecked at hadd
  have hpos := Nat.two_pow_pos k'
  split_ifs at hadd with hfit
  rw [Option.some.injEq] at hadd
  omega

/-- The loop, `none` when an operation of some turn overflows. -/
def cidrLoopChecked (hi bits cur : Nat) : Option (List Str) :=
  if cur ≤ hi then
    match _h : cidrTurn cur hi bits with
    | none => none
    | some (text, none) => some [text]
    | some (text, some next) => (cidrLoopChecked hi bits next).map (text :: ·)
  else some []
termination_by hi + 1 - cur
decreasing_by
  have := cidrTurn_next _h
  omega

theorem fitChecked_eq {span : Nat} (h : span < 2 ^ 128) :
    fitChecked span = some (if span = 2 ^ 128 - 1 then 128 else if span = 0 then 0
      else 127 - leadingZeros128 (span + 1)) := by
  unfold fitChecked
  split_ifs with hmax hzero
  · rfl
  · rfl
  · have hle : leadingZeros128 (span + 1) ≤ 127 := by
      unfold leadingZeros128
      rw [if_neg (Nat.succ_ne_zero span)]
      omega
    rw [addChecked_of_lt (by omega), Option.bind_some, subChecked_of_le hle]

/-- No operation of a turn overflows. -/
theorem cidrTurn_eq {cur hi bits : Nat} (hle : cur ≤ hi) (hhi : hi < 2 ^ 128) :
    cidrTurn cur hi bits = some (cidrText cur bits (blockBits cur hi bits),
      if 128 ≤ blockBits cur hi bits then none
      else if cur + 2 ^ blockBits cur hi bits < 2 ^ 128 then
        some (cur + 2 ^ blockBits cur hi bits)
      else none) := by
  have hk : blockBits cur hi bits ≤ bits := (blockBits_spec hle hhi).2.1
  have hmin : min (if hi - cur = 2 ^ 128 - 1 then 128 else if hi - cur = 0 then 0
      else 127 - leadingZeros128 (hi - cur + 1))
      (if cur = 0 then bits else min (trailingZeros128 cur) bits) = blockBits cur hi bits := rfl
  unfold cidrTurn
  simp only [Option.bind_eq_bind, subChecked_of_le hle, Option.bind_some,
    fitChecked_eq (by omega : hi - cur < 2 ^ 128), hmin, subChecked_of_le hk]
  by_cases h128 : 128 ≤ blockBits cur hi bits
  · rw [if_pos h128, if_pos h128]
    rfl
  · rw [if_neg h128, if_neg h128, shlChecked_one (Nat.not_le.mp h128)]
    rfl

theorem cidrLoopChecked_last {hi bits cur : Nat} {text : Str} (hle : cur ≤ hi)
    (h : cidrTurn cur hi bits = some (text, none)) :
    cidrLoopChecked hi bits cur = some [text] := by
  rw [cidrLoopChecked, if_pos hle]
  split
  · next hnone => rw [h] at hnone; cases hnone
  · next hsome => rw [h] at hsome; cases hsome; rfl
  · next hsome => rw [h] at hsome; cases hsome

theorem cidrLoopChecked_next {hi bits cur next : Nat} {text : Str} (hle : cur ≤ hi)
    (h : cidrTurn cur hi bits = some (text, some next)) :
    cidrLoopChecked hi bits cur = (cidrLoopChecked hi bits next).map (text :: ·) := by
  rw [cidrLoopChecked, if_pos hle]
  split
  · next hnone => rw [h] at hnone; cases hnone
  · next hsome => rw [h] at hsome; cases hsome
  · next hsome => rw [h] at hsome; cases hsome; rfl

/-- The checks of the loop all succeed. -/
theorem cidrLoopChecked_eq {hi bits : Nat} (hhi : hi < 2 ^ 128) (n : Nat) {cur : Nat}
    (hn : hi + 1 - cur ≤ n) : cidrLoopChecked hi bits cur = some (cidrLoop hi bits cur) := by
  induction n generalizing cur with
  | zero => rw [cidrLoopChecked, cidrLoop, if_neg (by omega), if_neg (by omega)]
  | succ n ih =>
    by_cases hle : cur ≤ hi
    · have hturn := @cidrTurn_eq cur hi bits hle hhi
      have hpos := Nat.two_pow_pos (blockBits cur hi bits)
      rw [cidrLoop, if_pos hle]
      dsimp only
      by_cases h128 : 128 ≤ blockBits cur hi bits
      · rw [if_pos h128] at hturn ⊢
        exact cidrLoopChecked_last hle hturn
      rw [if_neg h128] at hturn ⊢
      by_cases hfit : cur + 2 ^ blockBits cur hi bits < 2 ^ 128
      · rw [if_pos hfit] at hturn ⊢
        rw [cidrLoopChecked_next hle hturn, ih (by omega)]
        rfl
      · rw [if_neg hfit] at hturn ⊢
        exact cidrLoopChecked_last hle hturn
    · rw [cidrLoopChecked, cidrLoop, if_neg hle, if_neg hle]

/-! ## A turn takes the largest block -/

theorem le_trailingZeros128 {n k : Nat} (hn : 0 < n) (hlt : n < 2 ^ 128) (h : 2 ^ k ∣ n) :
    k ≤ trailingZeros128 n := by
  have hlow : ∀ j < k, n.testBit j = false := by
    intro j hj
    obtain ⟨m, rfl⟩ := h
    rw [Nat.testBit_two_pow_mul, decide_eq_false (by omega : ¬ k ≤ j), Bool.false_and]
  have hk : k < 128 := by
    have := Nat.le_of_dvd hn h
    exact (Nat.pow_lt_pow_iff_right (by decide)).mp (Nat.lt_of_le_of_lt this hlt)
  unfold trailingZeros128
  cases hf : (List.range 128).find? n.testBit with
  | none => exact Nat.le_of_lt hk
  | some i =>
    have hbit := (List.find?_range_eq_some.mp hf).1
    by_contra hlt
    have hfalse := hlow i (by simpa using hlt)
    rw [hfalse] at hbit
    cases hbit

theorem blockBits_largest {cur hi bits k : Nat} (hle : cur ≤ hi) (hhi : hi < 2 ^ bits)
    (hbits : bits ≤ 128) (hdvd : 2 ^ k ∣ cur) (hfit : cur + 2 ^ k ≤ hi + 1) :
    k ≤ blockBits cur hi bits := by
  have htop : hi < 2 ^ 128 :=
    Nat.lt_of_lt_of_le hhi (Nat.pow_le_pow_right (by decide) hbits)
  have hkbits : k ≤ bits := by
    have hpow : 2 ^ k ≤ 2 ^ bits := by omega
    exact (Nat.pow_le_pow_iff_right (by decide)).mp hpow
  unfold blockBits
  dsimp only
  refine Nat.le_min.mpr ⟨?_, ?_⟩
  · -- it fits under the end
    by_cases hmax : hi - cur = 2 ^ 128 - 1
    · rw [if_pos hmax]
      omega
    rw [if_neg hmax]
    by_cases hzero : hi - cur = 0
    · rw [if_pos hzero]
      have hone : 2 ^ k ≤ 2 ^ 0 := by
        rw [Nat.pow_zero]
        omega
      exact (Nat.pow_le_pow_iff_right (by decide)).mp hone
    rw [if_neg hzero]
    have hne : hi - cur + 1 ≠ 0 := by omega
    have hlog : k ≤ (hi - cur + 1).log2 := (Nat.le_log2 hne).mpr (by omega)
    have hlog' : (hi - cur + 1).log2 < 128 := (Nat.log2_lt hne).mpr (by omega)
    unfold leadingZeros128
    rw [if_neg hne]
    omega
  · -- it starts at the cursor
    by_cases h0 : cur = 0
    · rw [if_pos h0]
      exact hkbits
    · rw [if_neg h0]
      exact Nat.le_min.mpr ⟨le_trailingZeros128 (by omega) (by omega) hdvd, hkbits⟩

/-- The texts of a range are those of its greedy split. -/
theorem cidrLoop_greedy {hi bits : Nat} (hbits : bits ≤ 128) (hhi : hi < 2 ^ bits) (n : Nat)
    {cur : Nat} (hn : hi + 1 - cur ≤ n) :
    ∃ bs, Greedy (hi + 1) cur bs ∧ (∀ b ∈ bs, b.log ≤ bits ∧ b.stop ≤ hi + 1) ∧
      cidrLoop hi bits cur = bs.map fun b => cidrText b.start bits b.log := by
  have htop : hi < 2 ^ 128 :=
    Nat.lt_of_lt_of_le hhi (Nat.pow_le_pow_right (by decide) hbits)
  induction n generalizing cur with
  | zero => exact ⟨[], .nil (by omega), by simp, by rw [cidrLoop, if_neg (by omega)]; rfl⟩
  | succ n ih =>
    by_cases hle : cur ≤ hi
    · obtain ⟨hdvd, hk, hfit⟩ := @blockBits_spec cur hi bits hle htop
      have hpos := Nat.two_pow_pos (blockBits cur hi bits)
      let b : Block := ⟨cur, blockBits cur hi bits, hdvd⟩
      have hlargest : Largest cur (hi + 1) b := by
        refine ⟨rfl, hfit, fun c hstart hstop => ?_⟩
        have hc := c.aligned
        unfold Block.stop at hstop
        rw [hstart] at hc hstop
        exact blockBits_largest hle hhi hbits hc hstop
      have hrest : ∃ bs, Greedy (hi + 1) b.stop bs ∧
          (∀ c ∈ bs, c.log ≤ bits ∧ c.stop ≤ hi + 1) ∧
          cidrLoop hi bits cur = cidrText cur bits (blockBits cur hi bits) ::
            bs.map fun c => cidrText c.start bits c.log := by
        rw [cidrLoop, if_pos hle]
        dsimp only
        by_cases hgo : blockBits cur hi bits < 128 ∧ cur + 2 ^ blockBits cur hi bits < 2 ^ 128
        · rw [if_neg (by omega), if_pos hgo.2]
          obtain ⟨bs, hgreedy, hall, heq⟩ := @ih (cur + 2 ^ blockBits cur hi bits) (by omega)
          exact ⟨bs, hgreedy, hall, by rw [heq]⟩
        · -- the block reaches the top of the address space
          have hend : hi + 1 ≤ b.stop := by
            show hi + 1 ≤ cur + 2 ^ blockBits cur hi bits
            by_cases h128 : 128 ≤ blockBits cur hi bits
            · have : 2 ^ 128 ≤ 2 ^ blockBits cur hi bits :=
                Nat.pow_le_pow_right (by decide) h128
              omega
            · omega
          refine ⟨[], .nil hend, by simp, ?_⟩
          by_cases h128 : 128 ≤ blockBits cur hi bits
          · rw [if_pos h128]
            rfl
          · rw [if_neg h128, if_neg (by omega)]
            rfl
      obtain ⟨bs, hgreedy, hall, heq⟩ := hrest
      refine ⟨b :: bs, .cons hlargest hgreedy, ?_, heq⟩
      intro c hc
      rcases List.mem_cons.mp hc with rfl | hc
      · exact ⟨hk, hfit⟩
      · exact hall c hc
    · exact ⟨[], .nil (by omega), by simp, by rw [cidrLoop, if_neg hle]; rfl⟩

/-! ## Texts as blocks -/

/-- The texts hold exactly the addresses of a range. -/
def Covers (texts : List Str) (v6 : Bool) (lo hi : Nat) : Prop :=
  ∀ f x, (∃ s ∈ texts, InCidr s f x) ↔ f = v6 ∧ lo ≤ x ∧ x ≤ hi

/-- A CIDR text is a block of its family, or holds nothing of a family. -/
theorem inCidr_block (s : Str) (v6 : Bool) : (∃ b : Block, ∀ x, InCidr s v6 x ↔ x ∈ b.toSet) ∨
    ∀ x, ¬ InCidr s v6 x := by
  by_cases h : ∃ r, parseCidrRange s = .ok r ∧ r.v6 = v6
  · left
    obtain ⟨r, hr, rfl⟩ := h
    obtain ⟨addr, plenText, plen, a, -, -, -, -, hblock⟩ := parseCidrRange_eq_ok.mp hr
    refine ⟨⟨r.lo, familyBits r.v6 - plen, ?_⟩, fun x => ?_⟩
    · rw [hblock]
      exact Nat.dvd_mul_left _ _
    · have hpos := Nat.two_pow_pos (familyBits r.v6 - plen)
      have hhi : r.hi + 1 = r.lo + 2 ^ (familyBits r.v6 - plen) := by
        rw [hblock] at hpos ⊢
        unfold blockOf at hpos ⊢
        dsimp only at hpos ⊢
        omega
      unfold InCidr
      rw [Block.mem_toSet]
      unfold Block.stop
      dsimp only
      rw [← hhi, Nat.lt_succ_iff]
      constructor
      · rintro ⟨r', hr', -, hx⟩
        rw [hr, Except.ok.injEq] at hr'
        rw [hr']
        exact hx
      · exact fun hx => ⟨r, hr, rfl, hx⟩
  · right
    rintro x ⟨r, hr, hv6, -⟩
    exact h ⟨r, hr, hv6⟩

/-- The texts of a family as blocks, no more of them. -/
theorem blocks_of_texts (texts : List Str) (v6 : Bool) : ∃ bs : List Block,
    bs.length ≤ texts.length ∧ ∀ x, x ∈ cover bs ↔ ∃ s ∈ texts, InCidr s v6 x := by
  induction texts with
  | nil => exact ⟨[], Nat.le_refl _, fun x => by simp [mem_cover]⟩
  | cons s texts ih =>
    obtain ⟨bs, hlen, hcover⟩ := ih
    rcases inCidr_block s v6 with ⟨b, hb⟩ | hnone
    · refine ⟨b :: bs, Nat.succ_le_succ hlen, fun x => ?_⟩
      rw [cover_cons, Set.mem_union, ← hb, hcover, List.exists_mem_cons_iff]
    · refine ⟨bs, Nat.le_succ_of_le hlen, fun x => ?_⟩
      rw [hcover, List.exists_mem_cons_iff]
      simp [hnone]

/-! ## The result -/

/-- The CIDR texts of a range: aligned prefixes of its family, in order and disjoint, that
    make up the range, and no fewer texts do. -/
structure ExactCidrs (out : List Str) (v6 : Bool) (lo hi : Nat) : Prop where
  aligned : ∀ s ∈ out, ∃ cur k, 2 ^ k ∣ cur ∧ k ≤ familyBits v6 ∧
    s = cidrText cur (familyBits v6) k ∧ parseCidrRange s = .ok ⟨v6, cur, cur + (2 ^ k - 1)⟩
  ordered : out.Pairwise fun s t => ∀ r r', parseCidrRange s = .ok r →
    parseCidrRange t = .ok r' → r.hi < r'.lo
  covers : Covers out v6 lo hi
  shortest : ∀ texts, Covers texts v6 lo hi → out.length ≤ texts.length

theorem cidrLoop_exact {v6 : Bool} {lo hi : Nat} (hhi : hi < 2 ^ familyBits v6) :
    ExactCidrs (cidrLoop hi (familyBits v6) lo) v6 lo hi := by
  have hbits : familyBits v6 ≤ 128 := by cases v6 <;> decide
  obtain ⟨bs, hgreedy, hall, heq⟩ := cidrLoop_greedy hbits hhi (hi + 1 - lo) (Nat.le_refl _)
  have hparse : ∀ b ∈ bs, parseCidrRange (cidrText b.start (familyBits v6) b.log) =
      .ok ⟨v6, b.start, b.start + (2 ^ b.log - 1)⟩ := by
    intro b hb
    have hlt := b.start_lt_stop
    have hstop := (hall b hb).2
    exact parseCidrRange_cidrText v6 (by omega) (hall b hb).1 b.aligned
  refine ⟨?_, ?_, ?_, ?_⟩
  · intro s hs
    rw [heq] at hs
    obtain ⟨b, hb, rfl⟩ := List.mem_map.mp hs
    exact ⟨b.start, b.log, b.aligned, (hall b hb).1, rfl, hparse b hb⟩
  · rw [heq, List.pairwise_map]
    refine hgreedy.ordered.imp_of_mem ?_
    intro b c hb hc hle r r' hr hr'
    rw [hparse b hb, Except.ok.injEq] at hr
    rw [hparse c hc, Except.ok.injEq] at hr'
    have hpos := Nat.two_pow_pos b.log
    rw [← hr, ← hr']
    show b.start + (2 ^ b.log - 1) < c.start
    unfold Block.stop at hle
    omega
  · exact fun f x => inCidr_cidrLoop f x _ (Nat.le_refl _) hhi
  · intro texts htexts
    obtain ⟨cs, hlen, hcover⟩ := blocks_of_texts texts v6
    have hset : cover cs = Set.Ico lo (hi + 1) := by
      ext x
      rw [hcover, htexts v6 x, Set.mem_Ico, Nat.lt_succ_iff]
      simp
    rw [heq, List.length_map]
    exact Nat.le_trans (hgreedy.length_le hset) hlen

/-- `ip_range_to_cidrs` of two addresses of one family in order: the loop ends without an
    overflow, and its texts are the shortest exact cover of the range. -/
theorem ipRangeToCidrs_exact (fromAddr toAddr : IpAddr)
    (hfamily : (addrParts fromAddr).1 = (addrParts toAddr).1)
    (hle : (addrParts fromAddr).2 ≤ (addrParts toAddr).2) :
    ∃ out, ipRangeToCidrs fromAddr toAddr = .ok out ∧
      cidrLoopChecked (addrParts toAddr).2 (familyBits (addrParts toAddr).1)
        (addrParts fromAddr).2 = some out ∧
      ExactCidrs out (addrParts toAddr).1 (addrParts fromAddr).2 (addrParts toAddr).2 := by
  have hhi := addrParts_lt toAddr
  have hbits : familyBits (addrParts toAddr).1 ≤ 128 := by
    cases (addrParts toAddr).1 <;> decide
  have htop : (addrParts toAddr).2 < 2 ^ 128 :=
    Nat.lt_of_lt_of_le hhi (Nat.pow_le_pow_right (by decide) hbits)
  refine ⟨_, ?_, cidrLoopChecked_eq htop _ (Nat.le_refl _), cidrLoop_exact hhi⟩
  cases fromAddr with
  | v4 a =>
    cases toAddr with
    | v4 b => exact if_neg (Nat.not_lt.mpr hle)
    | v6 b => cases hfamily
  | v6 a =>
    cases toAddr with
    | v4 b => cases hfamily
    | v6 b => exact if_neg (Nat.not_lt.mpr hle)

theorem ipRangeToCidrs_exact_whole :
    ∃ out, ipRangeToCidrs (.v6 0) (.v6 (BitVec.allOnes 128)) = .ok out ∧
      cidrLoopChecked (2 ^ 128 - 1) 128 0 = some out ∧ ExactCidrs out true 0 (2 ^ 128 - 1) :=
  ipRangeToCidrs_exact (.v6 0) (.v6 (BitVec.allOnes 128)) rfl (by decide)

end RustCrash.RulesetBin
