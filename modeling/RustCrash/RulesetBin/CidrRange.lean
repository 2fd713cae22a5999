import RustCrash.Lib.Intervals
import RustCrash.Lib.NetText
import RustCrash.RulesetBin.Cidr

/-
  The address sets behind the range functions. A parsed CIDR is an aligned block of its
  family, merging keeps each family's set of addresses and leaves
  gaps between its ranges (`family_mergeRanges`), and the CIDR texts written for a range
  parse to blocks that make up that range.
-/

namespace RustCrash.RulesetBin

open Lib Lib.Net Lib.Intervals

/-! ## Masks -/

section

variable {w plen : Nat}

theorem prefixMask_eq (h : plen ≤ w) : prefixMask w plen = BitVec.allOnes w <<< (w - plen) := by
  unfold prefixMask
  split_ifs with h0
  · subst h0
    rw [Nat.sub_zero]
    apply BitVec.eq_of_getLsbD_eq
    intro i hi
    simp [hi]
  · rfl

theorem and_prefixMask (a : BitVec w) (h : plen ≤ w) :
    a &&& prefixMask w plen = (a >>> (w - plen)) <<< (w - plen) := by
  rw [prefixMask_eq h]
  apply BitVec.eq_of_getLsbD_eq
  intro i hi
  simp only [BitVec.getLsbD_and, BitVec.getLsbD_shiftLeft, BitVec.getLsbD_allOnes,
    BitVec.getLsbD_ushiftRight]
  by_cases hlt : i < w - plen
  · simp [hlt]
  · rw [Nat.add_sub_of_le (by omega)]
    simp [hi, hlt]
    omega

theorem toNat_and_prefixMask (a : BitVec w) (h : plen ≤ w) :
    (a &&& prefixMask w plen).toNat = a.toNat / 2 ^ (w - plen) * 2 ^ (w - plen) := by
  have hle : a.toNat / 2 ^ (w - plen) * 2 ^ (w - plen) ≤ a.toNat := Nat.div_mul_le_self _ _
  rw [and_prefixMask a h, BitVec.toNat_shiftLeft, BitVec.toNat_ushiftRight, Nat.shiftRight_eq_div_pow,
    Nat.shiftLeft_eq, Nat.mod_eq_of_lt (Nat.lt_of_le_of_lt hle a.isLt)]

theorem toNat_not_prefixMask (h : plen ≤ w) : (~~~ prefixMask w plen).toNat = 2 ^ (w - plen) - 1 := by
  rw [prefixMask_eq h]
  apply Nat.eq_of_testBit_eq
  intro i
  rw [Nat.testBit_two_pow_sub_one, BitVec.testBit_toNat, BitVec.getLsbD_not, BitVec.getLsbD_shiftLeft,
    BitVec.getLsbD_allOnes]
  by_cases hi : i < w - plen
  · simp [hi]
    omega
  · simp [hi]
    omega

/-- The last address of a block. -/
theorem toNat_or_not_prefixMask (a : BitVec w) (h : plen ≤ w) :
    ((a &&& prefixMask w plen) ||| ~~~ prefixMask w plen).toNat =
      a.toNat / 2 ^ (w - plen) * 2 ^ (w - plen) + (2 ^ (w - plen) - 1) := by
  have hpos := Nat.two_pow_pos (w - plen)
  rw [BitVec.toNat_or, toNat_and_prefixMask a h, toNat_not_prefixMask h, ← Nat.shiftLeft_eq,
    Nat.shiftLeft_add_eq_or_of_lt (by omega)]

end

/-! ## CIDR text -/

def familyBits (v6 : Bool) : Nat := if v6 then 128 else 32

/-- A range of addresses of its family. -/
structure IpRange.Valid (r : IpRange) : Prop where
  le : r.lo ≤ r.hi
  lt : r.hi < 2 ^ familyBits r.v6

/-- The block of a prefix length around an address. -/
def blockOf (v6 : Bool) (a plen : Nat) : IpRange where
  v6 := v6
  lo := a / 2 ^ (familyBits v6 - plen) * 2 ^ (familyBits v6 - plen)
  hi := a / 2 ^ (familyBits v6 - plen) * 2 ^ (familyBits v6 - plen) +
    (2 ^ (familyBits v6 - plen) - 1)

theorem blockOf_valid (v6 : Bool) {a plen : Nat} (ha : a < 2 ^ familyBits v6)
    (hp : plen ≤ familyBits v6) : (blockOf v6 a plen).Valid := by
  refine ⟨Nat.le_add_right _ _, ?_⟩
  unfold blockOf
  dsimp only
  have hsplit : 2 ^ familyBits v6 = 2 ^ plen * 2 ^ (familyBits v6 - plen) := by
    rw [← Nat.pow_add, Nat.add_sub_of_le hp]
  have hpos := Nat.two_pow_pos (familyBits v6 - plen)
  rw [hsplit] at ha ⊢
  have hdiv : a / 2 ^ (familyBits v6 - plen) < 2 ^ plen := by
    rw [Nat.div_lt_iff_lt_mul hpos]
    exact ha
  have hmul : (a / 2 ^ (familyBits v6 - plen) + 1) * 2 ^ (familyBits v6 - plen) ≤
      2 ^ plen * 2 ^ (familyBits v6 - plen) := Nat.mul_le_mul_right _ hdiv
  rw [Nat.add_mul, Nat.one_mul] at hmul
  omega

def addrParts : IpAddr → Bool × Nat
  | .v4 a => (false, a.toNat)
  | .v6 a => (true, a.toNat)

theorem addrParts_lt (a : IpAddr) : (addrParts a).2 < 2 ^ familyBits (addrParts a).1 := by
  cases a with
  | v4 a => exact a.isLt
  | v6 a => exact a.isLt

variable {r : IpRange} {rs : List IpRange}

/-- A CIDR text is an address and a prefix length, and stands for their block. -/
theorem parseCidrRange_eq_ok {s : Str} : parseCidrRange s = .ok r ↔
    ∃ addr plenText plen a, Str.splitOnce '/' s = some (addr, plenText) ∧
      Str.parseUint (2 ^ 32 - 1) plenText = some plen ∧ parseIpAddr addr = some a ∧
      plen ≤ familyBits (addrParts a).1 ∧ r = blockOf (addrParts a).1 (addrParts a).2 plen := by
  unfold parseCidrRange
  rw [bind_eq_ok]
  constructor
  · rintro ⟨⟨addr, plenText⟩, hsplit, h⟩
    rw [bind_eq_ok] at h
    obtain ⟨plen, hplen, h⟩ := h
    rw [okOr_eq_ok] at hsplit hplen
    refine ⟨addr, plenText, plen, ?_⟩
    cases ha : parseIpAddr addr with
    | none => rw [ha] at h; cases h
    | some a =>
      rw [ha] at h
      cases a with
      | v4 a =>
        dsimp only at h
        split_ifs at h with hle
        rw [Except.ok.injEq, toNat_or_not_prefixMask a (by omega), toNat_and_prefixMask a (by omega)] at h
        exact ⟨.v4 a, hsplit, hplen, rfl, Nat.not_lt.mp hle, h.symm⟩
      | v6 a =>
        dsimp only at h
        split_ifs at h with hle
        rw [Except.ok.injEq, toNat_or_not_prefixMask a (by omega), toNat_and_prefixMask a (by omega)] at h
        exact ⟨.v6 a, hsplit, hplen, rfl, Nat.not_lt.mp hle, h.symm⟩
  · rintro ⟨addr, plenText, plen, a, hsplit, hplen, ha, hle, rfl⟩
    refine ⟨(addr, plenText), by rw [hsplit, okOr_some], ?_⟩
    dsimp only
    rw [hplen, okOr_some, bind_ok, ha]
    cases a with
    | v4 a =>
      have hle : plen ≤ 32 := hle
      dsimp only
      rw [if_neg (by omega), toNat_or_not_prefixMask a hle, toNat_and_prefixMask a hle]
      rfl
    | v6 a =>
      have hle : plen ≤ 128 := hle
      dsimp only
      rw [if_neg (by omega), toNat_or_not_prefixMask a hle, toNat_and_prefixMask a hle]
      rfl

theorem parseCidrRange_valid {s : Str} (h : parseCidrRange s = .ok r) : r.Valid := by
  obtain ⟨addr, plenText, plen, a, -, -, -, hle, rfl⟩ := parseCidrRange_eq_ok.mp h
  exact blockOf_valid _ (addrParts_lt a) hle

/-- The text of an aligned block parses to it. -/
theorem parseCidrRange_cidrText (v6 : Bool) {cur k : Nat} (hcur : cur < 2 ^ familyBits v6)
    (hk : k ≤ familyBits v6) (hdvd : 2 ^ k ∣ cur) :
    parseCidrRange (cidrText cur (familyBits v6) k) = .ok ⟨v6, cur, cur + (2 ^ k - 1)⟩ := by
  have hbits : familyBits v6 ≤ 128 := by
    cases v6 <;> decide
  have hblock : blockOf v6 cur (familyBits v6 - k) = ⟨v6, cur, cur + (2 ^ k - 1)⟩ := by
    unfold blockOf
    rw [Nat.sub_sub_self hk, Nat.div_mul_cancel hdvd]
  rw [parseCidrRange_eq_ok, ← hblock]
  refine ⟨_, _, familyBits v6 - k,
    (if familyBits v6 = 32 then .v4 (BitVec.ofNat 32 cur) else .v6 (BitVec.ofNat 128 cur)),
    Str.splitOnce_append (slash_not_mem_ipText _), Str.parseUint_decimal (by omega),
    parseIpAddr_ipText _, ?_⟩
  cases v6 with
  | false =>
    have hcur : cur < 2 ^ 32 := hcur
    have hnat : (BitVec.ofNat 32 cur).toNat = cur := by
      rw [BitVec.toNat_ofNat, Nat.mod_eq_of_lt hcur]
    refine ⟨Nat.sub_le _ _, ?_⟩
    show _ = blockOf false (BitVec.ofNat 32 cur).toNat _
    rw [hnat]
  | true =>
    have hcur : cur < 2 ^ 128 := hcur
    have hnat : (BitVec.ofNat 128 cur).toNat = cur := by
      rw [BitVec.toNat_ofNat, Nat.mod_eq_of_lt hcur]
    refine ⟨Nat.sub_le _ _, ?_⟩
    show _ = blockOf true (BitVec.ofNat 128 cur).toNat _
    rw [hnat]

/-! ## Merging -/

/-- A range of one family as an interval. -/
def IpRange.interval? (v6 : Bool) (r : IpRange) : Option Interval :=
  if h : r.v6 = v6 ∧ r.lo ≤ r.hi then some ⟨r.lo, r.hi, h.2⟩ else none

/-- The ranges of one family. -/
def family (v6 : Bool) (rs : List IpRange) : List Interval := rs.filterMap (IpRange.interval? v6)

theorem family_cons_of_eq (hle : r.lo ≤ r.hi) (rs : List IpRange) :
    family r.v6 (r :: rs) = ⟨r.lo, r.hi, hle⟩ :: family r.v6 rs := by
  unfold family IpRange.interval?
  rw [List.filterMap_cons_some (dif_pos ⟨rfl, hle⟩)]

theorem family_cons_of_ne {v6 : Bool} (h : r.v6 ≠ v6) (rs : List IpRange) :
    family v6 (r :: rs) = family v6 rs := by
  unfold family IpRange.interval?
  rw [List.filterMap_cons_none (dif_neg fun hh => h hh.1)]

theorem mem_union_family {v6 : Bool} {x : Nat} :
    x ∈ union (family v6 rs) ↔ ∃ r ∈ rs, r.v6 = v6 ∧ r.lo ≤ x ∧ x ≤ r.hi := by
  rw [mem_union]
  unfold family IpRange.interval?
  constructor
  · rintro ⟨i, hi, hx⟩
    obtain ⟨r, hr, hi⟩ := List.mem_filterMap.mp hi
    split_ifs at hi with h
    obtain rfl := Option.some.inj hi
    exact ⟨r, hr, h.1, hx⟩
  · rintro ⟨r, hr, hv, hx⟩
    have hle : r.lo ≤ r.hi := by omega
    exact ⟨⟨r.lo, r.hi, hle⟩, List.mem_filterMap.mpr ⟨r, hr, dif_pos ⟨hv, hle⟩⟩, hx⟩

theorem rangeLe_iff {r s : IpRange} : rangeLe r s = true ↔
    (r.v6 = false ∧ s.v6 = true) ∨
      (r.v6 = s.v6 ∧ (r.lo < s.lo ∨ (r.lo = s.lo ∧ r.hi ≤ s.hi))) := by
  simp [rangeLe]

theorem rangeLe_trans (a b c : IpRange) (hab : rangeLe a b = true) (hbc : rangeLe b c = true) :
    rangeLe a c = true := by
  rw [rangeLe_iff] at hab hbc ⊢
  rcases hab with ⟨ha, hb⟩ | ⟨hab, hle⟩
  · rcases hbc with ⟨hb', -⟩ | ⟨hbc, -⟩
    · rw [hb] at hb'
      cases hb'
    · exact Or.inl ⟨ha, by rw [← hbc, hb]⟩
  · rcases hbc with ⟨hb, hc⟩ | ⟨hbc, hle'⟩
    · exact Or.inl ⟨by rw [hab, hb], hc⟩
    · exact Or.inr ⟨by rw [hab, hbc], by omega⟩

theorem rangeLe_total (a b : IpRange) : (rangeLe a b || rangeLe b a) = true := by
  rw [Bool.or_eq_true, rangeLe_iff, rangeLe_iff]
  cases ha : a.v6 <;> cases hb : b.v6 <;> simp
  · omega
  · omega

/-- Earlier family, or the same one and no larger lower end. -/
def Before (r s : IpRange) : Prop := (r.v6 = false ∧ s.v6 = true) ∨ (r.v6 = s.v6 ∧ r.lo ≤ s.lo)

def SortedRanges (rs : List IpRange) : Prop := rs.Pairwise Before

theorem sortedByLo_family (v6 : Bool) (h : SortedRanges rs) : SortedByLo (family v6 rs) := by
  unfold SortedByLo family IpRange.interval?
  refine List.Pairwise.filterMap _ ?_ h
  intro r s hle i hi j hj
  split_ifs at hi hj with hr hs
  obtain rfl := Option.some.inj hi
  obtain rfl := Option.some.inj hj
  rcases hle with ⟨h1, h2⟩ | ⟨-, hlo⟩
  · rw [← hs.1, h2, h1] at hr
    exact absurd hr.1 (by decide)
  · exact hlo

/-- Merging sorted ranges coalesces each family on its own. -/
theorem family_coalesce (v6 : Bool) {last : IpRange} (hs : SortedRanges (last :: rs))
    (hv : ∀ r ∈ last :: rs, r.Valid) :
    family v6 (coalesce last rs) = Intervals.coalesce (family v6 (last :: rs)) := by
  induction rs generalizing last with
  | nil =>
    have hle := (hv last List.mem_cons_self).le
    unfold coalesce
    by_cases hf : last.v6 = v6
    · subst hf
      rw [family_cons_of_eq hle]
      rfl
    · rw [family_cons_of_ne hf]
      rfl
  | cons r rs ih =>
    obtain ⟨hlast, hrest⟩ := List.pairwise_cons.mp hs
    have hvl := hv last List.mem_cons_self
    have hvr := hv r (List.mem_cons_of_mem _ List.mem_cons_self)
    have hle := hvl.le
    have hle' := hvr.le
    have hcap : r.hi < 2 ^ 128 := Nat.lt_of_lt_of_le hvr.lt
      (Nat.pow_le_pow_right (by decide) (by unfold familyBits; split_ifs <;> decide))
    unfold coalesce
    split_ifs with htouch
    · -- one family: both sides extend the interval, or both skip the two ranges
      obtain ⟨hfam, htouch⟩ := htouch
      have hsorted : SortedRanges ({ last with hi := max last.hi r.hi } :: rs) :=
        List.pairwise_cons.mpr ⟨fun s hsr => hlast s (List.mem_cons_of_mem _ hsr),
          (List.pairwise_cons.mp hrest).2⟩
      have hext : last.lo ≤ max last.hi r.hi := Nat.le_trans hle (Nat.le_max_left _ _)
      have hvalid : ∀ s ∈ { last with hi := max last.hi r.hi } :: rs, s.Valid := by
        intro s hs'
        rcases List.mem_cons.mp hs' with rfl | hs'
        · refine ⟨hext, Nat.max_lt.mpr ⟨hvl.lt, ?_⟩⟩
          show r.hi < 2 ^ familyBits last.v6
          rw [hfam]
          exact hvr.lt
        · exact hv s (List.mem_cons_of_mem _ (List.mem_cons_of_mem _ hs'))
      rw [ih hsorted hvalid]
      by_cases hf : last.v6 = v6
      · subst hf
        have hr := family_cons_of_eq hle' rs
        rw [← hfam] at hr
        rw [family_cons_of_eq hle, hr]
        have hl := family_cons_of_eq (r := { last with hi := max last.hi r.hi }) hext rs
        dsimp only at hl
        rw [hl, coalesce_touch (Nat.le_trans htouch (Nat.min_le_left _ _))]
        rfl
      · have hr : r.v6 ≠ v6 := by
          rw [← hfam]
          exact hf
        rw [family_cons_of_ne hf, family_cons_of_ne hr, family_cons_of_ne (by exact hf)]
    · have hih := ih hrest fun s hs' => hv s (List.mem_cons_of_mem _ hs')
      by_cases hf : last.v6 = v6
      · subst hf
        rw [family_cons_of_eq hle, family_cons_of_eq hle, hih]
        by_cases hfam : last.v6 = r.v6
        · have hr := family_cons_of_eq hle' rs
          rw [← hfam] at hr
          have hgap : ¬ r.lo ≤ last.hi + 1 := by
            rw [not_and] at htouch
            have := htouch hfam
            omega
          rw [hr, coalesce_gap hgap]
        · -- the other family follows, and nothing of this one
          have hnone : family last.v6 (r :: rs) = [] := by
            unfold family
            rw [List.filterMap_eq_nil_iff]
            intro s hs'
            refine dif_neg fun h => ?_
            have hfirst : last.v6 = false ∧ r.v6 = true :=
              (hlast r List.mem_cons_self).resolve_right fun h1 => hfam h1.1
            have hsecond : s.v6 = true := by
              rcases List.mem_cons.mp hs' with rfl | hs'
              · exact hfirst.2
              · rcases (List.pairwise_cons.mp hrest).1 s hs' with h1 | h1
                · exact h1.2
                · rw [← h1.1, hfirst.2]
            rw [hsecond, hfirst.1] at h
            exact absurd h.1 (by decide)
          rw [hnone]
          rfl
      · rw [family_cons_of_ne hf, family_cons_of_ne hf, hih]

theorem valid_coalesce {last : IpRange} (hv : ∀ r ∈ last :: rs, r.Valid) :
    ∀ r ∈ coalesce last rs, r.Valid := by
  induction rs generalizing last with
  | nil => exact hv
  | cons r rs ih =>
    have hvl := hv last List.mem_cons_self
    have hvr := hv r (List.mem_cons_of_mem _ List.mem_cons_self)
    unfold coalesce
    split_ifs with htouch
    · apply ih
      intro s hs
      rcases List.mem_cons.mp hs with rfl | hs
      · refine ⟨Nat.le_trans hvl.le (Nat.le_max_left _ _), Nat.max_lt.mpr ⟨hvl.lt, ?_⟩⟩
        show r.hi < 2 ^ familyBits last.v6
        rw [htouch.1]
        exact hvr.lt
      · exact hv s (List.mem_cons_of_mem _ (List.mem_cons_of_mem _ hs))
    · intro s hs
      rcases List.mem_cons.mp hs with rfl | hs
      · exact hvl
      · exact ih (fun t ht => hv t (List.mem_cons_of_mem _ ht)) s hs

theorem length_coalesce_le (last : IpRange) (rs : List IpRange) :
    (coalesce last rs).length ≤ rs.length + 1 := by
  induction rs generalizing last with
  | nil => exact Nat.le_refl _
  | cons r rs ih =>
    unfold coalesce
    rw [List.length_cons]
    split_ifs
    · exact Nat.le_succ_of_le (ih _)
    · rw [List.length_cons]
      exact Nat.succ_le_succ (ih r)

theorem length_mergeRanges_le (rs : List IpRange) : (mergeRanges rs).length ≤ rs.length := by
  have hlen : (rs.mergeSort rangeLe).length = rs.length := List.length_mergeSort rs
  unfold mergeRanges
  generalize rs.mergeSort rangeLe = ss at hlen
  rw [← hlen]
  cases ss with
  | nil => exact Nat.le_refl _
  | cons r ss => exact length_coalesce_le r ss

section

variable {rs : List IpRange} (hv : ∀ r ∈ rs, r.Valid)

include hv

theorem family_mergeRanges (v6 : Bool) :
    Separated (family v6 (mergeRanges rs)) ∧
      union (family v6 (mergeRanges rs)) = union (family v6 rs) := by
  have hmem : ∀ r, r ∈ rs.mergeSort rangeLe ↔ r ∈ rs := fun r => List.mem_mergeSort
  have hsorted : SortedRanges (rs.mergeSort rangeLe) := by
    refine (List.pairwise_mergeSort rangeLe_trans rangeLe_total rs).imp ?_
    intro r s h
    rcases rangeLe_iff.mp h with h | ⟨h1, h2⟩
    · exact Or.inl h
    · exact Or.inr ⟨h1, by omega⟩
  have hunion : union (family v6 (rs.mergeSort rangeLe)) = union (family v6 rs) := by
    ext x
    simp only [mem_union_family, hmem]
  have hvalid : ∀ r ∈ rs.mergeSort rangeLe, r.Valid := fun r hr => hv r ((hmem r).mp hr)
  rw [← hunion]
  unfold mergeRanges
  generalize rs.mergeSort rangeLe = ss at hsorted hvalid
  cases ss with
  | nil => exact ⟨List.Pairwise.nil, rfl⟩
  | cons r ss =>
    have hlo := sortedByLo_family v6 hsorted
    dsimp only
    rw [family_coalesce v6 hsorted hvalid]
    exact ⟨separated_coalesce hlo, union_coalesce hlo⟩

theorem valid_mergeRanges : ∀ r ∈ mergeRanges rs, r.Valid := by
  have hvalid : ∀ r ∈ rs.mergeSort rangeLe, r.Valid := fun r hr => hv r (List.mem_mergeSort.mp hr)
  unfold mergeRanges
  generalize rs.mergeSort rangeLe = ss at hvalid
  cases ss with
  | nil => exact fun r hr => absurd hr List.not_mem_nil
  | cons r ss => exact valid_coalesce hvalid

end

/-! ## Ranges to CIDR text -/

/-- The address `x` of a family lies in a CIDR text. -/
def InCidr (s : Str) (v6 : Bool) (x : Nat) : Prop :=
  ∃ r, parseCidrRange s = .ok r ∧ r.v6 = v6 ∧ r.lo ≤ x ∧ x ≤ r.hi

theorem pow_trailingZeros_dvd (n : Nat) : 2 ^ trailingZeros128 n ∣ n := by
  have hlow : ∀ t, (∀ j < t, n.testBit j = false) → 2 ^ t ∣ n := by
    intro t hz
    apply Nat.dvd_of_mod_eq_zero
    apply Nat.eq_of_testBit_eq
    intro j
    rw [Nat.testBit_mod_two_pow, Nat.zero_testBit]
    by_cases hj : j < t
    · rw [hz j hj, Bool.and_false]
    · rw [decide_eq_false hj, Bool.false_and]
  apply hlow
  unfold trailingZeros128
  intro j hj
  cases hf : (List.range 128).find? n.testBit with
  | none =>
    rw [hf] at hj
    have := List.find?_eq_none.mp hf j (List.mem_range.mpr hj)
    simpa using this
  | some i =>
    rw [hf] at hj
    have := (List.find?_range_eq_some.mp hf).2.2 j hj
    simpa using this

theorem blockBits_spec {cur hi bits : Nat} (hle : cur ≤ hi) (hhi : hi < 2 ^ 128) :
    2 ^ blockBits cur hi bits ∣ cur ∧ blockBits cur hi bits ≤ bits ∧
      cur + 2 ^ blockBits cur hi bits ≤ hi + 1 := by
  unfold blockBits
  dsimp only
  generalize htz : (if cur = 0 then bits else min (trailingZeros128 cur) bits) = tz
  have htz' : 2 ^ tz ∣ cur ∧ tz ≤ bits := by
    rw [← htz]
    split_ifs with h0
    · rw [h0]
      exact ⟨Nat.dvd_zero _, Nat.le_refl _⟩
    · exact ⟨Nat.dvd_trans (Nat.pow_dvd_pow 2 (Nat.min_le_left _ _))
        (pow_trailingZeros_dvd cur), Nat.min_le_right _ _⟩
  generalize hfit : (if hi - cur = 2 ^ 128 - 1 then 128 else if hi - cur = 0 then 0
    else 127 - leadingZeros128 (hi - cur + 1)) = fit
  have hfit' : 2 ^ fit ≤ hi - cur + 1 := by
    rw [← hfit]
    split_ifs with h1 h2
    · omega
    · omega
    · have hne : hi - cur + 1 ≠ 0 := by omega
      have hlog : (hi - cur + 1).log2 ≤ 127 := by
        have := (Nat.log2_lt hne (k := 128)).mpr (by omega)
        omega
      unfold leadingZeros128
      rw [if_neg hne, Nat.sub_sub_self hlog]
      exact Nat.log2_self_le hne
  refine ⟨Nat.dvd_trans (Nat.pow_dvd_pow 2 (Nat.min_le_right _ _)) htz'.1,
    Nat.le_trans (Nat.min_le_right _ _) htz'.2, ?_⟩
  have : 2 ^ min fit tz ≤ 2 ^ fit := Nat.pow_le_pow_right (by decide) (Nat.min_le_left _ _)
  omega

/-- The CIDR texts of a range hold exactly its addresses. -/
theorem inCidr_cidrLoop (f : Bool) (x n : Nat) {v6 : Bool} {hi cur : Nat} (hn : hi + 1 - cur ≤ n)
    (hhi : hi < 2 ^ familyBits v6) :
    (∃ s ∈ cidrLoop hi (familyBits v6) cur, InCidr s f x) ↔ f = v6 ∧ cur ≤ x ∧ x ≤ hi := by
  have hbits : familyBits v6 ≤ 128 := by cases v6 <;> decide
  have hhi' : hi < 2 ^ 128 := Nat.lt_of_lt_of_le hhi (Nat.pow_le_pow_right (by decide) hbits)
  induction n generalizing cur with
  | zero =>
    rw [cidrLoop, if_neg (by omega)]
    constructor
    · rintro ⟨s, hs, -⟩
      exact absurd hs List.not_mem_nil
    · omega
  | succ n ih =>
    rw [cidrLoop]
    by_cases hle : cur ≤ hi
    · have hspec : 2 ^ blockBits cur hi (familyBits v6) ∣ cur ∧
          blockBits cur hi (familyBits v6) ≤ familyBits v6 ∧
          cur + 2 ^ blockBits cur hi (familyBits v6) ≤ hi + 1 := blockBits_spec hle hhi'
      obtain ⟨hdvd, hkbits, hfit⟩ := hspec
      generalize blockBits cur hi (familyBits v6) = k at hdvd hkbits hfit
      have hpos := Nat.two_pow_pos k
      have hhead : InCidr (cidrText cur (familyBits v6) k) f x ↔
          f = v6 ∧ cur ≤ x ∧ x ≤ cur + (2 ^ k - 1) := by
        have hparse := parseCidrRange_cidrText v6 (Nat.lt_of_le_of_lt hle hhi) hkbits hdvd
        unfold InCidr
        rw [hparse]
        constructor
        · rintro ⟨r, hr, hf, hx⟩
          obtain rfl := Except.ok.inj hr
          exact ⟨hf.symm, hx⟩
        · rintro ⟨rfl, hx⟩
          exact ⟨_, rfl, rfl, hx⟩
      rw [if_pos hle]
      dsimp only
      rw [List.exists_mem_cons_iff, hhead]
      split_ifs with h128 hnext
      · -- the whole space in one block
        have hpow : 2 ^ 128 ≤ 2 ^ k := Nat.pow_le_pow_right (by decide) h128
        simp only [List.not_mem_nil, false_and, exists_false, or_false]
        refine and_congr_right fun _ => ?_
        omega
      · have hrest : (∃ s ∈ cidrLoop hi (familyBits v6) (cur + 2 ^ k), InCidr s f x) ↔
            f = v6 ∧ cur + 2 ^ k ≤ x ∧ x ≤ hi := ih (by omega)
        rw [hrest, ← and_or_left]
        refine and_congr_right fun _ => ?_
        omega
      · -- the block ends at the top of the space
        simp only [List.not_mem_nil, false_and, exists_false, or_false]
        refine and_congr_right fun _ => ?_
        omega
    · rw [if_neg hle]
      constructor
      · rintro ⟨s, hs, -⟩
        exact absurd hs List.not_mem_nil
      · omega

end RustCrash.RulesetBin
