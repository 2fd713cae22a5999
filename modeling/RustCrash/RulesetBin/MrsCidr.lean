import RustCrash.RulesetBin.CidrRange
import RustCrash.RulesetBin.Mrs

/-
  CIDR rule sets written and read back. The writer's 16-byte form maps IPv4 into
  `::ffff:0:0/96` and leaves IPv6 as it is, and the reader unmaps that block. So an IPv6
  range is read back unless one of its ends lies in the block.
-/

namespace RustCrash.RulesetBin

open Lib Lib.Net Lib.Intervals

/-! ## The 16-byte form -/

/-- `::ffff:0:0/96`. -/
def Mapped (x : Nat) : Prop := x / 2 ^ 32 = 0xFFFF

instance (x : Nat) : Decidable (Mapped x) := inferInstanceAs (Decidable (x / 2 ^ 32 = 0xFFFF))

theorem mapped_iff {x : Nat} : Mapped x ↔ 0xFFFF00000000 ≤ x ∧ x ≤ 0xFFFFFFFFFFFF := by
  unfold Mapped
  omega

/-- What the reader makes of the endpoints the writer stores. -/
def decodeRange (r : IpRange) : Result (List Str) := do
  let fromAddr ← addrFrom16 (addrAs16Prod r.lo r.v6)
  let toAddr ← addrFrom16 (addrAs16Prod r.hi r.v6)
  ipRangeToCidrs fromAddr toAddr

theorem length_addrAs16Prod (v : Nat) (v6 : Bool) : (addrAs16Prod v v6).length = 16 := by
  cases v6 <;> simp [addrAs16Prod]

theorem toBE_add (a b n : Nat) : toBE (a + b) n = toBE a (n / 256 ^ b) ++ toBE b n := by
  induction a with
  | zero => simp [toBE]
  | succ a ih =>
    rw [Nat.add_right_comm, toBE, ih, toBE, List.cons_append, Nat.div_div_eq_div_mul, ← Nat.pow_add,
      Nat.add_comm b a]

theorem toBE_mapped : toBE 12 0xFFFF = List.replicate 10 0 ++ [0xff, 0xff] := by decide

theorem toBE_mod (k n : Nat) : toBE k (n % 256 ^ k) = toBE k n := by
  have h := toBE_ofBE (toBE k n)
  rwa [length_toBE, ofBE_toBE] at h

theorem toBE_inj {k m n : Nat} (hm : m < 256 ^ k) (hn : n < 256 ^ k) (h : toBE k m = toBE k n) :
    m = n := by
  rw [← ofBE_toBE_of_lt hm, h, ofBE_toBE_of_lt hn]

/-- The reader's test for the mapped form, on the first twelve bytes. -/
theorem mapped_test {arr : Bytes} (h : arr.length = 16) :
    (arr.take 10 = List.replicate 10 0 ∧ arr[10]? = some 0xff ∧ arr[11]? = some 0xff) ↔
      arr.take 12 = List.replicate 10 0 ++ [0xff, 0xff] := by
  obtain ⟨x, y, rest, hdrop⟩ : ∃ x y rest, arr.drop 10 = x :: y :: rest := by
    have hlen := congrArg (· - 10) h
    rw [← List.length_drop] at hlen
    match hd : arr.drop 10 with
    | x :: y :: rest => exact ⟨x, y, rest, rfl⟩
    | [x] => rw [hd] at hlen; simp at hlen
    | [] => rw [hd] at hlen; simp at hlen
  have hlen10 : (arr.take 10).length = 10 := by
    rw [List.length_take, h]
    rfl
  have hsplit := List.take_append_drop 10 arr
  rw [hdrop] at hsplit
  generalize arr.take 10 = a at hlen10 hsplit
  subst hsplit
  rw [List.getElem?_append_right (by omega), List.getElem?_append_right (by omega), hlen10,
    show 12 = a.length + 2 by omega, List.take_length_add_append]
  constructor
  · rintro ⟨rfl, hx, hy⟩
    have hx : x = 0xff := by simpa using hx
    have hy : y = 0xff := by simpa using hy
    rw [hx, hy]
    rfl
  · intro he
    obtain ⟨rfl, hxy⟩ := List.append_inj he (by simpa using hlen10)
    obtain ⟨rfl, rfl⟩ : x = 0xff ∧ y = 0xff := by simpa using hxy
    exact ⟨rfl, rfl, rfl⟩

theorem addrFrom16_toBE {v : Nat} (hv : v < 2 ^ 128) : addrFrom16 (toBE 16 v) =
    .ok (if Mapped v then .v4 (BitVec.ofNat 32 v) else .v6 (BitVec.ofNat 128 v)) := by
  have hsplit : toBE 16 v = toBE 12 (v / 2 ^ 32) ++ toBE 4 v := toBE_add 12 4 v
  have htest : (toBE 16 v).take 12 = List.replicate 10 0 ++ [0xff, 0xff] ↔ Mapped v := by
    rw [hsplit, List.take_left' (length_toBE _ _), ← toBE_mapped]
    exact ⟨fun h => toBE_inj (by norm_num; omega) (by norm_num) h, fun h => by rw [show v / 2 ^ 32 = _ from h]⟩
  have hwhole : ofOctets6 (toBE 16 v) = BitVec.ofNat 128 v := by
    unfold ofOctets6
    rw [ofBE_toBE_of_lt (by norm_num; omega)]
  have hlow : ofOctets4 ((toBE 16 v).drop 12) = BitVec.ofNat 32 v := by
    rw [hsplit, List.drop_left' (length_toBE _ _)]
    unfold ofOctets4
    rw [ofBE_toBE]
    apply BitVec.eq_of_toNat_eq
    simp
  unfold addrFrom16
  rw [if_neg (by rw [length_toBE]; decide)]
  by_cases hm : Mapped v
  · rw [if_pos ((mapped_test (length_toBE 16 v)).mpr (htest.mpr hm)), if_pos hm, hlow]
  · rw [if_neg (fun h => hm (htest.mp ((mapped_test (length_toBE 16 v)).mp h))), if_neg hm, hwhole]

/-- IPv4 is read back as itself. -/
theorem addrFrom16_v4 {v : Nat} (hv : v < 2 ^ 32) :
    addrFrom16 (addrAs16Prod v false) = .ok (.v4 (BitVec.ofNat 32 v)) := by
  have hform : addrAs16Prod v false = toBE 16 (0xFFFF * 2 ^ 32 + v) := by
    have hdiv : (0xFFFF * 2 ^ 32 + v) / 256 ^ 4 = 0xFFFF := by
      norm_num
      omega
    have hlow : toBE 4 (0xFFFF * 2 ^ 32 + v) = toBE 4 v := by
      rw [← toBE_mod, show (0xFFFF * 2 ^ 32 + v) % 256 ^ 4 = v by norm_num; omega]
    rw [show 16 = 12 + 4 from rfl, toBE_add, hdiv, toBE_mapped, hlow]
    rfl
  have hm : Mapped (0xFFFF * 2 ^ 32 + v) := by
    unfold Mapped
    omega
  rw [hform, addrFrom16_toBE (by omega), if_pos hm]
  congr 2
  apply BitVec.eq_of_toNat_eq
  rw [BitVec.toNat_ofNat, BitVec.toNat_ofNat]
  omega

/-! ## One range -/

/-- Not an IPv6 range with an end in the mapped block. -/
def Clean (r : IpRange) : Prop := r.v6 = true → ¬ Mapped r.lo ∧ ¬ Mapped r.hi

theorem toNat_ofNat32 {v : Nat} (h : v < 2 ^ 32) : (BitVec.ofNat 32 v).toNat = v := by
  rw [BitVec.toNat_ofNat, Nat.mod_eq_of_lt h]

theorem toNat_ofNat128 {v : Nat} (h : v < 2 ^ 128) : (BitVec.ofNat 128 v).toNat = v := by
  rw [BitVec.toNat_ofNat, Nat.mod_eq_of_lt h]

/-- A clean range is read back with its family and ends. -/
theorem decodeRange_clean {r : IpRange} (hv : r.Valid) (hc : Clean r) :
    decodeRange r = .ok (cidrLoop r.hi (familyBits r.v6) r.lo) := by
  obtain ⟨v6, lo, hi⟩ := r
  have hle : lo ≤ hi := hv.le
  cases v6 with
  | false =>
    have hlt : hi < 2 ^ 32 := hv.lt
    have hlt' : lo < 2 ^ 32 := by omega
    unfold decodeRange
    dsimp only
    rw [addrFrom16_v4 hlt', bind_ok, addrFrom16_v4 hlt, bind_ok]
    unfold ipRangeToCidrs
    dsimp only
    rw [toNat_ofNat32 hlt', toNat_ofNat32 hlt, if_neg (by omega)]
    rfl
  | true =>
    have hlt : hi < 2 ^ 128 := hv.lt
    have hlt' : lo < 2 ^ 128 := by omega
    obtain ⟨hlo, hhi⟩ : ¬ Mapped lo ∧ ¬ Mapped hi := hc rfl
    unfold decodeRange addrAs16Prod
    dsimp only
    rw [if_pos rfl, if_pos rfl, addrFrom16_toBE hlt', bind_ok, addrFrom16_toBE hlt, bind_ok,
      if_neg hlo, if_neg hhi]
    unfold ipRangeToCidrs
    dsimp only
    rw [toNat_ofNat128 hlt', toNat_ofNat128 hlt, if_neg (by omega)]
    rfl

/-- Any other range is read as IPv4 or not at all. -/
theorem decodeRange_dirty {r : IpRange} (hv : r.Valid) (hc : ¬ Clean r) :
    (∃ e, decodeRange r = .error e) ∨
      ∃ cs, decodeRange r = .ok cs ∧ ∀ x, ¬ ∃ s ∈ cs, InCidr s true x := by
  obtain ⟨v6, lo, hi⟩ := r
  have hle : lo ≤ hi := hv.le
  unfold Clean at hc
  rw [Classical.not_imp] at hc
  obtain ⟨h6, hends⟩ := hc
  have h6 : v6 = true := h6
  subst h6
  have hends : ¬ (¬ Mapped lo ∧ ¬ Mapped hi) := hends
  have hlt : hi < 2 ^ 128 := hv.lt
  unfold decodeRange addrAs16Prod
  dsimp only
  rw [if_pos rfl, if_pos rfl, addrFrom16_toBE (by omega), bind_ok, addrFrom16_toBE hlt, bind_ok]
  by_cases hlo : Mapped lo
  · by_cases hhi : Mapped hi
    · right
      rw [if_pos hlo, if_pos hhi]
      unfold ipRangeToCidrs
      dsimp only
      rw [if_neg (by
        rw [BitVec.toNat_ofNat, BitVec.toNat_ofNat]
        unfold Mapped at hlo hhi
        omega)]
      refine ⟨_, rfl, ?_⟩
      intro x hx
      have hlt4 : (BitVec.ofNat 32 hi).toNat < 2 ^ familyBits false := BitVec.isLt _
      have h := (inCidr_cidrLoop true x _ (Nat.le_refl _) hlt4).mp hx
      exact absurd h.1 (by decide)
    · left
      rw [if_pos hlo, if_neg hhi]
      exact ⟨_, rfl⟩
  · left
    have hhi : Mapped hi := by
      by_contra hhi
      exact hends ⟨hlo, hhi⟩
    rw [if_neg hlo, if_pos hhi]
    exact ⟨_, rfl⟩

/-! ## All ranges -/

/-- The stored endpoints of ranges. -/
def storedRanges (rs : List IpRange) : Bytes :=
  rs.flatMap fun r => addrAs16Prod r.lo r.v6 ++ addrAs16Prod r.hi r.v6

theorem readMrsRanges_cons (r : IpRange) (rs : List IpRange) :
    readMrsRanges (r :: rs).length (storedRanges (r :: rs)) = (do
      let cidrs ← decodeRange r
      let more ← readMrsRanges rs.length (storedRanges rs)
      return cidrs ++ more) := by
  unfold storedRanges decodeRange
  rw [List.length_cons, List.flatMap_cons, List.append_assoc]
  conv => lhs; unfold readMrsRanges
  rw [bytes_append (length_addrAs16Prod _ _), okOr_some, bind_ok]
  dsimp only
  cases addrFrom16 (addrAs16Prod r.lo r.v6) with
  | error e => rfl
  | ok a =>
    rw [bind_ok, bind_ok, bytes_append (length_addrAs16Prod _ _), okOr_some, bind_ok]
    dsimp only
    cases addrFrom16 (addrAs16Prod r.hi r.v6) with
    | error e => rfl
    | ok b => rfl

/-- Ranges that are all decoded are read. -/
theorem readMrsRanges_ok {rs : List IpRange} (h : ∀ r ∈ rs, ∃ cs, decodeRange r = .ok cs) :
    ∃ out, readMrsRanges rs.length (storedRanges rs) = .ok out ∧
      ∀ s, s ∈ out ↔ ∃ r ∈ rs, ∃ cs, decodeRange r = .ok cs ∧ s ∈ cs := by
  induction rs with
  | nil => exact ⟨[], rfl, by simp⟩
  | cons r rs ih =>
    obtain ⟨cs, hcs⟩ := h r List.mem_cons_self
    obtain ⟨out, hout, hmem⟩ := ih fun s hs => h s (List.mem_cons_of_mem _ hs)
    refine ⟨cs ++ out, by rw [readMrsRanges_cons, hcs, bind_ok, hout, bind_ok]; rfl, ?_⟩
    intro s
    have hhead : s ∈ cs ↔ ∃ cs', decodeRange r = .ok cs' ∧ s ∈ cs' := by
      rw [hcs]
      constructor
      · exact fun hs => ⟨cs, rfl, hs⟩
      · rintro ⟨cs', hcs', hs⟩
        rwa [Except.ok.inj hcs']
    rw [List.mem_append, List.exists_mem_cons_iff, hmem, hhead]

/-- One range that is not decoded makes the reader fail. -/
theorem readMrsRanges_error {rs : List IpRange} {r : IpRange} (hr : r ∈ rs)
    (hbad : ∃ e, decodeRange r = .error e) :
    ∃ e, readMrsRanges rs.length (storedRanges rs) = .error e := by
  induction rs with
  | nil => exact absurd hr List.not_mem_nil
  | cons s rs ih =>
    rw [readMrsRanges_cons]
    cases hs : decodeRange s with
    | error e => exact ⟨e, rfl⟩
    | ok cs =>
      rcases List.mem_cons.mp hr with rfl | hr
      · obtain ⟨e, he⟩ := hbad
        rw [hs] at he
        cases he
      · obtain ⟨e, he⟩ := ih hr
        exact ⟨e, by rw [bind_ok, he, bind_error]⟩

/-! ## The file -/

/-- An address lies in a CIDR text. -/
def Contains (s : Str) (a : IpAddr) : Prop := InCidr s (addrParts a).1 (addrParts a).2

/-- The same addresses, in each family. -/
def SameAddresses (cidrs cidrs' : List Str) : Prop :=
  ∀ a, (∃ s ∈ cidrs, Contains s a) ↔ ∃ s ∈ cidrs', Contains s a

/-- The IPv6 addresses miss `::ffff:0:0/96`, or contain it with the addresses before and
    after it. -/
def MappedSafe (rules : List Str) : Prop :=
  (∀ a : Ipv6Addr, Mapped a.toNat → ¬ ∃ s ∈ rules, Contains s (.v6 a)) ∨
    ∀ a : Ipv6Addr, 0xFFFEFFFFFFFF ≤ a.toNat → a.toNat ≤ 0x1000000000000 →
      ∃ s ∈ rules, Contains s (.v6 a)

section

variable {rules : List Str}

/-- The ranges of the accepted rules. -/
def rangesOf (rules : List Str) : List IpRange := rules.filterMap acceptCidr

theorem acceptCidr_eq_some {s : Str} {r : IpRange} :
    acceptCidr s = some r ↔ parseCidrRange s = .ok r := by
  unfold acceptCidr
  cases parseCidrRange s <;> simp [Except.toOption]

theorem valid_rangesOf : ∀ r ∈ rangesOf rules, r.Valid := by
  intro r hr
  obtain ⟨s, -, hs⟩ := List.mem_filterMap.mp hr
  exact parseCidrRange_valid (acceptCidr_eq_some.mp hs)

/-- The addresses of the accepted rules are those of the merged ranges. -/
theorem inCidr_iff_merged {v6 : Bool} {x : Nat} : (∃ s ∈ rules, InCidr s v6 x) ↔
    x ∈ union (family v6 (mergeRanges (rangesOf rules))) := by
  rw [(family_mergeRanges valid_rangesOf v6).2, mem_union_family]
  constructor
  · rintro ⟨s, hs, r, hr, hx⟩
    exact ⟨r, List.mem_filterMap.mpr ⟨s, hs, acceptCidr_eq_some.mpr hr⟩, hx⟩
  · rintro ⟨r, hr, hx⟩
    obtain ⟨s, hs, hacc⟩ := List.mem_filterMap.mp hr
    exact ⟨s, hs, r, acceptCidr_eq_some.mp hacc, hx⟩

/-- The merged ranges are clean exactly if the rules are safe. -/
theorem clean_iff_mappedSafe :
    (∀ r ∈ mergeRanges (rangesOf rules), Clean r) ↔ MappedSafe rules := by
  have hvalid : ∀ r ∈ mergeRanges (rangesOf rules), r.Valid := valid_mergeRanges valid_rangesOf
  have hclean : (∀ r ∈ mergeRanges (rangesOf rules), Clean r) ↔
      ∀ i ∈ family true (mergeRanges (rangesOf rules)), ¬ Mapped i.lo ∧ ¬ Mapped i.hi := by
    unfold family IpRange.interval?
    constructor
    · intro h i hi
      obtain ⟨r, hr, hi⟩ := List.mem_filterMap.mp hi
      split_ifs at hi with hf
      obtain rfl := Option.some.inj hi
      exact h r hr hf.1
    · intro h r hr h6
      exact h ⟨r.lo, r.hi, (hvalid r hr).le⟩ (List.mem_filterMap.mpr
        ⟨r, hr, dif_pos ⟨h6, (hvalid r hr).le⟩⟩)
  have hsep : Separated (family true (mergeRanges (rangesOf rules))) :=
    (family_mergeRanges valid_rangesOf true).1
  have hends := ends_outside_iff hsep (a := 0xFFFF00000000) (b := 0xFFFFFFFFFFFF) (by decide)
  have htoNat : ∀ x, x < 2 ^ 128 → ∃ a : Ipv6Addr, a.toNat = x := fun x hx =>
    ⟨BitVec.ofNat 128 x, toNat_ofNat128 hx⟩
  rw [hclean]
  simp only [mapped_iff]
  rw [hends]
  unfold MappedSafe Contains addrParts
  simp only [inCidr_iff_merged, mapped_iff]
  refine or_congr ⟨fun h a ha => h _ ha.1 ha.2, ?_⟩ ⟨fun h a h1 h2 => h _ h1 h2, ?_⟩
  · intro h x h1 h2
    obtain ⟨a, rfl⟩ := htoNat x (by omega)
    exact h a ⟨h1, h2⟩
  · intro h x h1 h2
    obtain ⟨a, rfl⟩ := htoNat x (by omega)
    exact h a h1 h2

theorem readMrsIpcidrPayload_written {rs : List IpRange} (hne : rs ≠ []) (hlen : rs.length < 2 ^ 63) :
    readMrsIpcidrPayload (mrsIpcidrPayloadFromRanges rs) = (do
      let out ← readMrsRanges rs.length (storedRanges rs)
      return ⟨[], [], out⟩) := by
  have hpos := List.length_pos_iff.mpr hne
  unfold readMrsIpcidrPayload mrsIpcidrPayloadFromRanges
  rw [List.append_assoc, List.singleton_append, byte_cons, okOr_some, bind_ok]
  dsimp only
  rw [ensure_of rfl, bind_ok, beI64_append hlen, okOr_some, bind_ok]
  dsimp only
  rw [ensure_of (by omega), bind_ok, Int.toNat_natCast]
  rfl

/-- A written CIDR file is read as its merged ranges are. -/
theorem parseMrs_written_cidr {zstd : Bytes → Except String Bytes} (hz : Decodes zstd)
    (hlen : rules.length < 2 ^ 58) {toLowercase : Str → Str} {file : Bytes}
    (hw : writeMrs toLowercase .ipCidr rules = some (.ok file)) :
    parseMrs zstd file = (do
      let out ← readMrsRanges (mergeRanges (rangesOf rules)).length
        (storedRanges (mergeRanges (rangesOf rules)))
      return ⟨[], [], out⟩) := by
  unfold writeMrs at hw
  dsimp only at hw
  split_ifs at hw with hcount
  · cases Option.some.inj hw
  · have hne : mergeRanges (rangesOf rules) ≠ [] := by
      obtain ⟨r, hr⟩ := List.exists_mem_of_length_pos (Nat.pos_of_ne_zero hcount)
      have hmem : r.lo ∈ union (family r.v6 (rangesOf rules)) :=
        mem_union_family.mpr ⟨r, hr, rfl, Nat.le_refl _, (valid_rangesOf r hr).le⟩
      rw [← (family_mergeRanges valid_rangesOf r.v6).2, mem_union_family] at hmem
      obtain ⟨s, hs, -⟩ := hmem
      exact List.ne_nil_of_mem hs
    have hle : (mergeRanges (rangesOf rules)).length ≤ rules.length :=
      Nat.le_trans (length_mergeRanges_le _) (List.length_filterMap_le _ _)
    have hsize : (mrsIpcidrPayloadFromRanges (mergeRanges (rangesOf rules))).length =
        9 + 32 * (mergeRanges (rangesOf rules)).length := by
      unfold mrsIpcidrPayloadFromRanges
      rw [List.length_append, List.length_append, length_be64, List.length_flatMap]
      simp [length_addrAs16Prod, Nat.mul_comm]
    have hfile : mrsFile mrsBehaviorIpcidr (rules.filterMap acceptCidr).length
        (mrsIpcidrPayloadFromRanges (mergeRanges (rangesOf rules))) = file :=
      Except.ok.inj (Option.some.inj hw)
    rw [← hfile, parseMrs_mrsFile hz (Nat.lt_of_le_of_lt (List.length_filterMap_le _ _) (by omega)) _
      (by omega)]
    show readMrsIpcidrPayload _ = _
    rw [readMrsIpcidrPayload_written hne (by omega)]

/-- An interval of a family that shares an address with a clean range is clean itself. -/
theorem clean_of_shared {r s : IpRange} (hr : r ∈ mergeRanges (rangesOf rules))
    (hs : s ∈ mergeRanges (rangesOf rules)) (hfam : s.v6 = r.v6) {x : Nat}
    (hxr : r.lo ≤ x ∧ x ≤ r.hi) (hxs : s.lo ≤ x ∧ x ≤ s.hi) (hc : Clean s) : Clean r := by
  have hvalid : ∀ r ∈ mergeRanges (rangesOf rules), r.Valid := valid_mergeRanges valid_rangesOf
  have hmem : ∀ t (ht : t ∈ mergeRanges (rangesOf rules)), t.v6 = r.v6 →
      ⟨t.lo, t.hi, (hvalid t ht).le⟩ ∈ family r.v6 (mergeRanges (rangesOf rules)) :=
    fun t ht h => List.mem_filterMap.mpr ⟨t, ht, dif_pos ⟨h, (hvalid t ht).le⟩⟩
  have hsep : Separated (family r.v6 (mergeRanges (rangesOf rules))) :=
    (family_mergeRanges valid_rangesOf r.v6).1
  have heq := hsep.eq_of_touch (hmem r hr rfl) (hmem s hs hfam) hxr hxs (Nat.le_succ _) (Nat.le_succ _)
  obtain ⟨hlo, hhi⟩ : r.lo = s.lo ∧ r.hi = s.hi := by simpa using heq
  intro h6
  rw [hlo, hhi]
  exact hc (by rw [hfam, h6])

/-- The texts of ranges that were decoded without the mapped block getting in the way. -/
theorem exists_inCidr_iff {out : List Str} {a : Bool} {x : Nat}
    (hmem : ∀ s, s ∈ out ↔ ∃ r ∈ mergeRanges (rangesOf rules), ∃ cs, decodeRange r = .ok cs ∧ s ∈ cs)
    (hclean : ∀ r ∈ mergeRanges (rangesOf rules), Clean r) :
    (∃ s ∈ out, InCidr s a x) ↔ ∃ s ∈ rules, InCidr s a x := by
  have hvalid : ∀ r ∈ mergeRanges (rangesOf rules), r.Valid := valid_mergeRanges valid_rangesOf
  refine Iff.trans ?_ inCidr_iff_merged.symm
  rw [mem_union_family]
  constructor
  · rintro ⟨s, hs, hx⟩
    obtain ⟨r, hr, cs, hcs, hs⟩ := (hmem s).mp hs
    rw [decodeRange_clean (hvalid r hr) (hclean r hr)] at hcs
    obtain rfl := Except.ok.inj hcs
    obtain ⟨hf, hx⟩ := (inCidr_cidrLoop a x _ (Nat.le_refl _) (hvalid r hr).lt).mp ⟨s, hs, hx⟩
    exact ⟨r, hr, hf.symm, hx⟩
  · rintro ⟨r, hr, hf, hx⟩
    obtain ⟨s, hs, hx⟩ := (inCidr_cidrLoop a x _ (Nat.le_refl _) (hvalid r hr).lt).mpr ⟨hf.symm, hx⟩
    exact ⟨s, (hmem s).mpr ⟨r, hr, _, decodeRange_clean (hvalid r hr) (hclean r hr), hs⟩, hx⟩

/-- A range that is not clean loses its first address. -/
theorem clean_of_sameAddresses {out : List Str}
    (hout : readMrsRanges (mergeRanges (rangesOf rules)).length
      (storedRanges (mergeRanges (rangesOf rules))) = .ok out)
    (hsame : SameAddresses out rules) : ∀ r ∈ mergeRanges (rangesOf rules), Clean r := by
  have hvalid : ∀ r ∈ mergeRanges (rangesOf rules), r.Valid := valid_mergeRanges valid_rangesOf
  have hdecode : ∀ r ∈ mergeRanges (rangesOf rules), ∃ cs, decodeRange r = .ok cs := by
    intro r hr
    cases hd : decodeRange r with
    | ok cs => exact ⟨cs, rfl⟩
    | error e =>
      obtain ⟨e', he⟩ := readMrsRanges_error hr ⟨e, hd⟩
      rw [hout] at he
      cases he
  obtain ⟨out', hout', hmem⟩ := readMrsRanges_ok hdecode
  rw [hout] at hout'
  obtain rfl := Except.ok.inj hout'
  intro r hr
  by_cases h6 : r.v6 = true
  · have hle := (hvalid r hr).le
    have hlt : r.lo < 2 ^ 128 := by
      have := (hvalid r hr).lt
      rw [h6] at this
      exact Nat.lt_of_le_of_lt hle this
    have hin : ∃ s ∈ rules, InCidr s true r.lo :=
      inCidr_iff_merged.mpr (mem_union_family.mpr ⟨r, hr, h6, Nat.le_refl _, hle⟩)
    have hback := (hsame (.v6 (BitVec.ofNat 128 r.lo))).mpr
    unfold Contains addrParts at hback
    dsimp only at hback
    rw [toNat_ofNat128 hlt] at hback
    obtain ⟨s, hs, hx⟩ := hback hin
    obtain ⟨t, ht, cs, hcs, hsc⟩ := (hmem s).mp hs
    have htc : Clean t := by
      by_contra hdirty
      rcases decodeRange_dirty (hvalid t ht) hdirty with ⟨e, he⟩ | ⟨cs', hcs', hnone⟩
      · rw [he] at hcs
        cases hcs
      · rw [hcs'] at hcs
        obtain rfl := Except.ok.inj hcs
        exact hnone r.lo ⟨s, hsc, hx⟩
    rw [decodeRange_clean (hvalid t ht) htc] at hcs
    obtain rfl := Except.ok.inj hcs
    obtain ⟨hf, hxt⟩ :=
      (inCidr_cidrLoop true r.lo _ (Nat.le_refl _) (hvalid t ht).lt).mp ⟨s, hsc, hx⟩
    exact clean_of_shared hr ht (by rw [← hf, h6]) ⟨Nat.le_refl _, hle⟩ hxt htc
  · exact fun h => absurd h h6

theorem readBack_iff {zstd : Bytes → Except String Bytes} (hz : Decodes zstd)
    (hlen : rules.length < 2 ^ 58) {toLowercase : Str → Str} {file : Bytes}
    (hw : writeMrs toLowercase .ipCidr rules = some (.ok file)) :
    (∃ set, parseMrs zstd file = .ok set ∧ SameAddresses set.ipCidrs rules) ↔ MappedSafe rules := by
  have hvalid : ∀ r ∈ mergeRanges (rangesOf rules), r.Valid := valid_mergeRanges valid_rangesOf
  rw [parseMrs_written_cidr hz hlen hw, ← clean_iff_mappedSafe]
  constructor
  · rintro ⟨set, hset, hsame⟩
    obtain ⟨out, hout, hset⟩ := bind_eq_ok.mp hset
    obtain rfl := Except.ok.inj hset
    exact clean_of_sameAddresses hout hsame
  · intro hclean
    obtain ⟨out, hout, hmem⟩ := readMrsRanges_ok fun r hr =>
      ⟨_, decodeRange_clean (hvalid r hr) (hclean r hr)⟩
    refine ⟨⟨[], [], out⟩, by rw [hout, bind_ok]; rfl, ?_⟩
    exact fun a => exists_inCidr_iff hmem hclean

theorem writeMrs_ipCidr_ok (toLowercase : Str → Str) (rules : List Str) (h : rangesOf rules ≠ []) :
    ∃ file, writeMrs toLowercase .ipCidr rules = some (.ok file) := by
  have hcount : ¬ (rules.filterMap acceptCidr).length = 0 := by
    rw [List.length_eq_zero_iff]
    exact h
  unfold writeMrs
  dsimp only
  rw [if_neg hcount]
  exact ⟨_, rfl⟩

/-- A written CIDR file is read back with the same addresses in each family exactly if its
    IPv6 addresses stay clear of the mapped block or contain it with its neighbours. The
    payload takes 32 bytes a range and has to fit in memory. -/
theorem mrs_ipcidr_roundtrip {zstd : Bytes → Except String Bytes} (hz : Decodes zstd)
    (hlen : rules.length < 2 ^ 58) {toLowercase : Str → Str} {file : Bytes}
    (hw : writeMrs toLowercase .ipCidr rules = some (.ok file)) :
    (∃ set, parseMrs zstd file = .ok set ∧ SameAddresses set.ipCidrs rules) ↔ MappedSafe rules :=
  readBack_iff hz hlen hw

end

/-- `10.0.0.0/8` and `2001:db8::/32`. -/
def sampleCidrs : List Str := ["10.0.0.0/8".toList, "2001:db8::/32".toList]

theorem rangesOf_sampleCidrs : rangesOf sampleCidrs =
    [⟨false, 0x0A000000, 0x0AFFFFFF⟩,
      ⟨true, 0x20010DB8 * 2 ^ 96, 0x20010DB8 * 2 ^ 96 + (2 ^ 96 - 1)⟩] := by
  decide +kernel

theorem mappedSafe_sampleCidrs : MappedSafe sampleCidrs := by
  left
  rintro a hm ⟨s, hs, r, hr, h6, hlo, -⟩
  have hmem : r ∈ rangesOf sampleCidrs := List.mem_filterMap.mpr ⟨s, hs, acceptCidr_eq_some.mpr hr⟩
  rw [rangesOf_sampleCidrs] at hmem
  have h6 : r.v6 = true := h6
  have hlo : r.lo ≤ a.toNat := hlo
  rw [mapped_iff] at hm
  rcases List.mem_cons.mp hmem with rfl | hmem
  · cases h6
  · have hr : r.lo = 0x20010DB8 * 2 ^ 96 := by rw [List.mem_singleton.mp hmem]
    omega

theorem mrs_ipcidr_roundtrip_sample : ∃ file set,
    writeMrs Str.asciiLower .ipCidr sampleCidrs = some (.ok file) ∧
      parseMrs rawDecoder file = .ok set ∧ SameAddresses set.ipCidrs sampleCidrs := by
  obtain ⟨file, hw⟩ := writeMrs_ipCidr_ok Str.asciiLower sampleCidrs (by
    rw [rangesOf_sampleCidrs]
    exact List.cons_ne_nil _ _)
  obtain ⟨set, hset, hsame⟩ :=
    (mrs_ipcidr_roundtrip decodes_rawDecoder (by decide) hw).mpr mappedSafe_sampleCidrs
  exact ⟨file, set, hw, hset, hsame⟩

/-- `::ffff:1.2.3.0/120`. -/
def mappedCidr : Str := "::ffff:102:300/120".toList

theorem parseCidrRange_mappedCidr :
    parseCidrRange mappedCidr = .ok ⟨true, 0xFFFF01020300, 0xFFFF010203FF⟩ := by
  decide +kernel

/-- The IPv6 block is read back as the IPv4 block `1.2.3.0/24`. -/
theorem mapped_cidr_changes_family : ∃ file set,
    writeMrs Str.asciiLower .ipCidr [mappedCidr] = some (.ok file) ∧
      parseMrs rawDecoder file = .ok set ∧ set.ipCidrs = ["1.2.3.0/24".toList] ∧
      ¬ SameAddresses set.ipCidrs [mappedCidr] := by
  have hranges : rangesOf [mappedCidr] = [⟨true, 0xFFFF01020300, 0xFFFF010203FF⟩] := by
    decide +kernel
  obtain ⟨file, hw⟩ := writeMrs_ipCidr_ok Str.asciiLower [mappedCidr] (by
    rw [hranges]
    exact List.cons_ne_nil _ _)
  have hread : readMrsRanges 1 (storedRanges [⟨true, 0xFFFF01020300, 0xFFFF010203FF⟩]) =
      .ok ["1.2.3.0/24".toList] := by
    decide +kernel
  refine ⟨file, ⟨[], [], ["1.2.3.0/24".toList]⟩, hw, ?_, rfl, ?_⟩
  · rw [parseMrs_written_cidr decodes_rawDecoder (by decide) hw, hranges]
    have hmerge : mergeRanges [⟨true, 0xFFFF01020300, 0xFFFF010203FF⟩] =
        [⟨true, 0xFFFF01020300, 0xFFFF010203FF⟩] := by
      unfold mergeRanges
      rw [List.mergeSort_singleton]
      rfl
    rw [hmerge, List.length_singleton, hread, bind_ok]
    rfl
  · intro hsame
    have h4 : ∃ s ∈ ["1.2.3.0/24".toList], Contains s (.v4 0x01020300) :=
      ⟨_, List.mem_singleton_self _, ⟨false, 0x01020300, 0x010203FF⟩, by decide +kernel, rfl,
        by decide, by decide⟩
    obtain ⟨s, hs, r, hr, hf, -⟩ := (hsame (.v4 0x01020300)).mp h4
    rw [List.mem_singleton.mp hs, parseCidrRange_mappedCidr] at hr
    rw [← Except.ok.inj hr] at hf
    exact absurd hf (by decide)

end RustCrash.RulesetBin
