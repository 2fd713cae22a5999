import RustCrash.Dns.FakeIpRun
import RustCrash.RulesetBin.CidrRange

/-
  The addresses of the fake-IP pool against its range. An allocation takes one of
  `base + 1 … base + size` and every one of them can be reached (`handsOut_iff`).
  `contains` accepts `base + 1 + size` as well, the broadcast address of the network, and
  three ranges are too short or too high for their own addresses: a /32 hands out the
  address behind it, and with `255.255.255.254/31` or a /32 from there on the sums no
  longer fit `u32`.
-/

namespace RustCrash.Dns

open Lib

/-! ## Calls on a running pool -/

/-- A call on the pool of a running engine. -/
inductive PoolCall where
  | lookupOrAlloc (domain : Str)
  | reverse (ip : IpAddr)
  | flush

/-- What a call returns. -/
inductive PoolAnswer where
  | address (r : Result IpAddr)
  | domain (d : Option Str)
  | flushed

namespace FakeIpPool

def call (pool : FakeIpPool) : PoolCall → PoolAnswer × FakeIpPool
  | .lookupOrAlloc d => (.address (pool.lookupOrAlloc d).1, (pool.lookupOrAlloc d).2)
  | .reverse ip => (.domain (pool.reverse ip).1, (pool.reverse ip).2)
  | .flush => (.flushed, pool.flush)

/-- The pool after a list of calls. -/
def after (pool : FakeIpPool) (calls : List PoolCall) : FakeIpPool :=
  calls.foldl (fun pool c => (pool.call c).2) pool

end FakeIpPool

/-- Some calls on the pool end with a lookup that returns the address. -/
def HandsOut (pool : FakeIpPool) (ip : IpAddr) : Prop :=
  ∃ calls d, ((pool.after calls).lookupOrAlloc d).1 = .ok ip

/-! ## The range of a new pool -/

/-- What `parse_range` says of a range. -/
structure Ranged (pool : FakeIpPool) : Prop where
  two_le : 2 ≤ pool.prefixLen
  le : pool.prefixLen ≤ 32
  size : pool.size.toNat = max (2 ^ (32 - pool.prefixLen) - 2) 1
  aligned : 2 ^ (32 - pool.prefixLen) ∣ pool.base.toNat

theorem toNat_and_maskOf (a : U32) {p : Nat} (h : p ≤ 32) :
    (a &&& maskOf p).toNat = a.toNat / 2 ^ (32 - p) * 2 ^ (32 - p) :=
  RulesetBin.toNat_and_prefixMask a h

theorem parseRange_eq_ok {cidr : Str} {base size : U32} {p : Nat}
    (h : parseRange cidr = .ok (base, p, size)) : Ranged ⟨base, p, size, Inner.empty⟩ := by
  unfold parseRange at h
  simp only [bind_eq_ok, okOr_eq_ok] at h
  obtain ⟨⟨addr, plen⟩, -, a, -, n, -, hr⟩ := h
  split_ifs at hr with hn
  · simp only [pure_eq, Except.ok.injEq, Prod.mk.injEq] at hr
    obtain ⟨rfl, rfl, rfl⟩ := hr
    have hpow : 2 ^ (32 - n) ≤ 2 ^ 30 := Nat.pow_le_pow_right (by decide) (by omega)
    refine ⟨hn.1, hn.2, ?_, ?_⟩
    · rw [BitVec.toNat_ofNat]
      exact Nat.mod_eq_of_lt (by omega)
    · rw [toNat_and_maskOf a hn.2]
      exact Nat.dvd_mul_left _ _
  · simp at hr

theorem new_ranged {cidr : Str} {pool : FakeIpPool} (h : FakeIpPool.new cidr = .ok pool) :
    Ranged pool := by
  unfold FakeIpPool.new at h
  rw [bind_eq_ok] at h
  obtain ⟨⟨base, p, size⟩, hr, hp⟩ := h
  have hranged := parseRange_eq_ok hr
  simp only [pure_eq, Except.ok.injEq] at hp
  rw [← hp]
  exact hranged

namespace Ranged

variable {pool : FakeIpPool}

theorem sized (h : Ranged pool) : Sized pool := by
  have hpow : 2 ^ (32 - pool.prefixLen) ≤ 2 ^ 30 :=
    Nat.pow_le_pow_right (by decide) (by have := h.two_le; omega)
  unfold Sized
  rw [h.size]
  omega

/-- Up to /30 the range is the network, its `size` addresses and the broadcast address. -/
theorem size_add_two (h : Ranged pool) (hp : pool.prefixLen ≤ 30) :
    pool.size.toNat + 2 = 2 ^ (32 - pool.prefixLen) := by
  have hpow : 2 ^ 2 ≤ 2 ^ (32 - pool.prefixLen) := Nat.pow_le_pow_right (by decide) (by omega)
  rw [h.size]
  omega

theorem size_eq_one (h : Ranged pool) (hp : 31 ≤ pool.prefixLen) : pool.size.toNat = 1 := by
  have hle := h.le
  have hpow : 2 ^ (32 - pool.prefixLen) ≤ 2 ^ 1 := Nat.pow_le_pow_right (by decide) (by omega)
  rw [h.size]
  omega

theorem two_pow_cases (h : Ranged pool) (hp : 31 ≤ pool.prefixLen) :
    (pool.prefixLen = 31 ∧ 2 ^ (32 - pool.prefixLen) = 2) ∨
      (pool.prefixLen = 32 ∧ 2 ^ (32 - pool.prefixLen) = 1) := by
  have hle := h.le
  have hcases : pool.prefixLen = 31 ∨ pool.prefixLen = 32 := by omega
  rcases hcases with hp | hp
  · exact Or.inl ⟨hp, by rw [hp]; rfl⟩
  · exact Or.inr ⟨hp, by rw [hp]; rfl⟩

/-- The whole range fits the address space. -/
theorem base_add_le (h : Ranged pool) :
    pool.base.toNat + 2 ^ (32 - pool.prefixLen) ≤ 2 ^ 32 := by
  obtain ⟨k, hk⟩ := h.aligned
  have hsplit : 2 ^ 32 = 2 ^ (32 - pool.prefixLen) * 2 ^ pool.prefixLen := by
    rw [← Nat.pow_add]
    congr 1
    have := h.le
    omega
  have hlt : pool.base.toNat < 2 ^ 32 := pool.base.isLt
  rw [hk, hsplit] at hlt ⊢
  have hk' : k < 2 ^ pool.prefixLen := Nat.lt_of_mul_lt_mul_left hlt
  calc 2 ^ (32 - pool.prefixLen) * k + 2 ^ (32 - pool.prefixLen)
      = 2 ^ (32 - pool.prefixLen) * (k + 1) := by ring
    _ ≤ 2 ^ (32 - pool.prefixLen) * 2 ^ pool.prefixLen := Nat.mul_le_mul_left _ hk'

end Ranged

/-! ## Every answer is a slot -/

/-- The address is one of the `size` slots of the pool. -/
def IsSlot (pool : FakeIpPool) (ip : IpAddr) : Prop :=
  ∃ k < pool.size.toNat, ip = .v4 (pool.base + 1 + BitVec.ofNat 32 k)

variable {pool : FakeIpPool}

theorem candidate_isSlot (h : 0 < pool.size.toNat) (cursor : U32) :
    IsSlot pool (candidate pool.base pool.size cursor) := by
  refine ⟨(cursor % pool.size).toNat, ?_, ?_⟩
  · rw [BitVec.toNat_umod]
    exact Nat.mod_lt _ h
  · rw [BitVec.ofNat_toNat, BitVec.setWidth_eq]
    rfl

theorem chosen_isSlot (h : 0 < pool.size.toNat) : IsSlot pool (chosen pool) := by
  unfold chosen
  dsimp only
  rcases findFree_spec pool.base pool.size (evict pool.size pool.inner).byIp pool.size.toNat
      (evict pool.size pool.inner).cursor with ⟨i, -, he, -, -⟩ | ⟨he, -⟩
  · rw [he]
    exact candidate_isSlot h _
  · rw [he]
    exact candidate_isSlot h _

/-- A lookup returns an error, the address it has, or the slot it takes. -/
theorem lookupOrAlloc_answer {d : Str} {ip : IpAddr} (h : (pool.lookupOrAlloc d).1 = .ok ip) :
    pool.inner.byDomain.lookup d = some ip ∨ ip = chosen pool := by
  unfold FakeIpPool.lookupOrAlloc FakeIpPool.lookupOrAllocFlagged at h
  by_cases hl : (utf8 d).length > 255
  · rw [if_pos hl] at h
    simp [Except.map] at h
  · rw [if_neg hl] at h
    cases hd : pool.inner.byDomain.lookup d with
    | some ip' =>
      rw [hd] at h
      left
      simpa [Except.map] using h
    | none =>
      rw [hd] at h
      right
      exact (Except.ok.inj h).symm

theorem lookup_evict {d : Str} {ip : IpAddr}
    (h : (evict pool.size pool.inner).byDomain.lookup d = some ip) :
    pool.inner.byDomain.lookup d = some ip := by
  unfold evict at h
  split_ifs at h
  · split at h
    · exact h
    · next victim order hord =>
      split at h
      · dsimp only at h
        by_cases hv : d = victim
        · rw [hv, AList.lookup_erase] at h
          simp at h
        · rwa [AList.lookup_erase_ne hv] at h
      · exact h
  · exact h

/-- Every live domain of the pool has a slot of the range. -/
structure Carved (base size : U32) (pool : FakeIpPool) : Prop where
  base_eq : pool.base = base
  size_eq : pool.size = size
  slots : ∀ d ip, pool.inner.byDomain.lookup d = some ip → IsSlot pool ip

theorem Carved.lookupOrAlloc {base size : U32} (h : Carved base size pool) (hs : 0 < size.toNat)
    (d : Str) : Carved base size (pool.lookupOrAlloc d).2 := by
  refine ⟨(lookup_base pool d).trans h.base_eq, (lookup_size pool d).trans h.size_eq, ?_⟩
  intro x ip hx
  unfold IsSlot
  rw [lookup_base, lookup_size]
  rcases lookupOrAlloc_cases pool d with ⟨-, he⟩ | ⟨-, -, he⟩ | ⟨-, -, cursor, he⟩
  · rw [he] at hx
    exact h.slots x ip hx
  · rw [he] at hx
    exact h.slots x ip hx
  · rw [he] at hx
    dsimp only at hx
    by_cases hd : x = d
    · rw [hd, AList.lookup_insert, Option.some.injEq] at hx
      rw [← hx]
      exact chosen_isSlot (by rw [h.size_eq]; exact hs)
    · rw [AList.lookup_insert_ne hd] at hx
      exact h.slots x ip (lookup_evict hx)

theorem Carved.call {base size : U32} (h : Carved base size pool) (hs : 0 < size.toNat)
    (c : PoolCall) : Carved base size (pool.call c).2 := by
  cases c with
  | lookupOrAlloc d => exact h.lookupOrAlloc hs d
  | reverse ip =>
    unfold FakeIpPool.call FakeIpPool.reverse
    dsimp only
    split
    · exact h
    · exact ⟨h.base_eq, h.size_eq, h.slots⟩
  | flush =>
    refine ⟨h.base_eq, h.size_eq, ?_⟩
    intro d ip hd
    simp [FakeIpPool.call, FakeIpPool.flush, Inner.empty] at hd

theorem Carved.after {base size : U32} (h : Carved base size pool) (hs : 0 < size.toNat)
    (calls : List PoolCall) : Carved base size (pool.after calls) := by
  induction calls generalizing pool with
  | nil => exact h
  | cons c calls ih => exact ih (h.call hs c)

theorem isSlot_of_handsOut {ip : IpAddr} (hs : Sized pool) (hi : pool.inner = Inner.empty)
    (h : HandsOut pool ip) : IsSlot pool ip := by
  obtain ⟨calls, d, hd⟩ := h
  have hstart : Carved pool.base pool.size pool :=
    ⟨rfl, rfl, fun d ip hl => by simp [hi, Inner.empty] at hl⟩
  have hc := hstart.after hs.1 calls
  have hslot : IsSlot (pool.after calls) ip := by
    rcases lookupOrAlloc_answer hd with hl | rfl
    · exact hc.slots d ip hl
    · exact chosen_isSlot (by rw [hc.size_eq]; exact hs.1)
  unfold IsSlot at hslot ⊢
  rwa [hc.base_eq, hc.size_eq] at hslot

/-! ## Every slot is an answer -/

theorem decimal_inj {i j : Nat} (h : Str.decimal i = Str.decimal j) : i = j := by
  have hi : Str.parseUint (max i j) (Str.decimal i) = some i :=
    Str.parseUint_decimal (Nat.le_max_left i j)
  have hj : Str.parseUint (max i j) (Str.decimal j) = some j :=
    Str.parseUint_decimal (Nat.le_max_right i j)
  rw [h, hj] at hi
  exact (Option.some.inj hi).symm

theorem length_utf8_le (s : Str) : (utf8 s).length ≤ 4 * s.length := by
  induction s with
  | nil => simp
  | cons c s ih =>
    have hc : (String.utf8EncodeChar c).length ≤ 4 := by
      rw [String.length_utf8EncodeChar]
      exact Char.utf8Size_le_four c
    simp only [utf8_cons, List.length_append, List.length_cons]
    omega

theorem length_utf8_decimal {n : Nat} (h : n < 2 ^ 30) :
    (utf8 (Str.decimal n)).length ≤ 255 := by
  have hdigits : (Str.decimal n).length ≤ 10 :=
    Nat.toDigits_length 10 n 10 (by decide) (by omega)
  have := length_utf8_le (Str.decimal n)
  omega

/-- The pool after the names `0 … n - 1` have been looked up in turn. -/
structure Filled (base size : U32) (n : Nat) (pool : FakeIpPool) : Prop where
  base_eq : pool.base = base
  size_eq : pool.size = size
  cursor : pool.inner.cursor = BitVec.ofNat 32 n
  slots : ∀ i < n, pool.inner.byDomain.lookup (Str.decimal i) =
    some (candidate base size (BitVec.ofNat 32 i))
  names : ∀ d ∈ pool.inner.byDomain, ∃ i < n, d = Str.decimal i
  len : pool.len = n
  consistent : Consistent pool

section

variable {base size : U32} {n : Nat} {pool : FakeIpPool}

theorem Filled.allocates (h : Filled base size n pool) (hn : n < 2 ^ 30) :
    Allocates pool (Str.decimal n) := by
  refine ⟨length_utf8_decimal hn, AList.lookup_eq_none.mpr fun hm => ?_⟩
  obtain ⟨i, hi, he⟩ := h.names _ hm
  exact absurd (decimal_inj he) (by omega)

/-- While there is room the slot at the cursor is free. -/
theorem Filled.next_free (h : Filled base size n pool) (hn : n < size.toNat) :
    pool.inner.byIp.lookup (candidate base size (BitVec.ofNat 32 n)) = none := by
  by_contra hne
  obtain ⟨d, hd⟩ := Option.ne_none_iff_exists'.mp hne
  have hf := (h.consistent.inverse _ _).mpr hd
  obtain ⟨i, hi, rfl⟩ := h.names d (AList.lookup_isSome.mp (by rw [hf]; rfl))
  rw [h.slots i hi, Option.some.injEq] at hf
  have hsize : size.toNat < 2 ^ 32 := size.isLt
  have hin : i = n := by
    refine @candidate_inj base size 0 i n (by omega) hn (Or.inl ?_) ?_
    · have hzero : (0 : U32).toNat = 0 := rfl
      omega
    · simpa using hf
  omega

theorem Filled.step (h : Filled base size n pool) (hs : Sized pool) (hn : n < size.toNat) :
    Filled base size (n + 1) (pool.lookupOrAlloc (Str.decimal n)).2 := by
  have hlt : size.toNat < 2 ^ 30 := by
    rw [← h.size_eq]
    exact hs.2
  have hevict : evict pool.size pool.inner = pool.inner := by
    rcases evict_cases h.consistent hs with ⟨-, he⟩ | ⟨hfull, -⟩
    · exact he
    · rw [h.len, h.size_eq] at hfull
      omega
  have hfree := h.next_free hn
  have halloc := h.allocates (by omega)
  have hslot : candidate pool.base pool.size (evict pool.size pool.inner).cursor =
      candidate base size (BitVec.ofNat 32 n) := by
    rw [hevict, h.cursor, h.base_eq, h.size_eq]
  have hinner := lookup_at_cursor halloc hs (by rw [hslot, hevict]; exact hfree)
  rw [hslot, hevict] at hinner
  have hnone : pool.inner.byDomain.lookup (Str.decimal n) = none := halloc.2
  refine ⟨(lookup_base _ _).trans h.base_eq, (lookup_size _ _).trans h.size_eq, ?_, ?_, ?_, ?_, ?_⟩
  · rw [hinner, BitVec.ofNat_add]
    dsimp only
    rw [h.cursor]
    rfl
  · intro i hi
    rw [hinner]
    dsimp only
    by_cases hin : i = n
    · rw [hin, AList.lookup_insert]
    · rw [AList.lookup_insert_ne (fun he => hin (decimal_inj he))]
      exact h.slots i (by omega)
  · intro d hd
    rw [hinner] at hd
    dsimp only at hd
    rw [AList.mem_insert] at hd
    rcases hd with rfl | hd
    · exact ⟨n, by omega, rfl⟩
    · obtain ⟨i, hi, he⟩ := h.names d hd
      exact ⟨i, by omega, he⟩
  · unfold FakeIpPool.len
    rw [hinner]
    dsimp only
    rw [length_keys_insert hnone]
    exact congrArg (· + 1) h.len
  · refine (alloc_consistent_iff h.consistent hs halloc).mpr ⟨0, Nat.zero_le _, ?_⟩
    rw [show (evict pool.size pool.inner).cursor + BitVec.ofNat 32 0 =
      (evict pool.size pool.inner).cursor by simp, hslot, hevict]
    exact hfree

end

/-- Look up the names `0 … n - 1`. -/
def nameCalls (n : Nat) : List PoolCall :=
  (List.range n).map fun i => .lookupOrAlloc (Str.decimal i)

variable {pool : FakeIpPool}

theorem filled_after (hs : Sized pool) (hi : pool.inner = Inner.empty) {n : Nat}
    (hn : n ≤ pool.size.toNat) : Filled pool.base pool.size n (pool.after (nameCalls n)) := by
  induction n with
  | zero =>
    have hc : Consistent pool := by
      obtain ⟨base, p, size, inner⟩ := pool
      simp only at hi
      rw [hi]
      exact consistent_empty base p size
    refine ⟨rfl, rfl, ?_, fun i hi => absurd hi (Nat.not_lt_zero i), ?_, ?_, hc⟩
    · show pool.inner.cursor = _
      rw [hi]
      rfl
    · intro d hd
      have hd' : d ∈ pool.inner.byDomain := hd
      rw [hi] at hd'
      simp [Inner.empty] at hd'
    · show pool.inner.byDomain.keys.length = 0
      rw [hi]
      rfl
  | succ n ih =>
    have h := ih (by omega)
    have hsized : Sized (pool.after (nameCalls n)) := by
      unfold Sized
      rw [h.size_eq]
      exact hs
    have hnext := h.step hsized (by omega)
    have hcalls : pool.after (nameCalls (n + 1)) =
        ((pool.after (nameCalls n)).lookupOrAlloc (Str.decimal n)).2 := by
      unfold FakeIpPool.after nameCalls
      rw [List.range_succ, List.map_append, List.foldl_append]
      rfl
    rw [hcalls]
    exact hnext

theorem lookupOrAlloc_hit {d : Str} {ip : IpAddr} (hl : (utf8 d).length ≤ 255)
    (hd : pool.inner.byDomain.lookup d = some ip) : (pool.lookupOrAlloc d).1 = .ok ip := by
  unfold FakeIpPool.lookupOrAlloc FakeIpPool.lookupOrAllocFlagged
  rw [if_neg (by omega), hd]
  rfl

theorem candidate_of_lt {base size : U32} {k : Nat} (hk : k < size.toNat) :
    candidate base size (BitVec.ofNat 32 k) = .v4 (base + 1 + BitVec.ofNat 32 k) := by
  have hsize : size.toNat < 2 ^ 32 := size.isLt
  have hmod : BitVec.ofNat 32 k % size = BitVec.ofNat 32 k := by
    apply BitVec.eq_of_toNat_eq
    rw [BitVec.toNat_umod, BitVec.toNat_ofNat, Nat.mod_eq_of_lt (by omega : k < 2 ^ 32),
      Nat.mod_eq_of_lt hk]
  unfold candidate
  rw [hmod]

/-- The addresses a new pool hands out are its slots. -/
theorem handsOut_iff (hs : Sized pool) (hi : pool.inner = Inner.empty) (ip : IpAddr) :
    HandsOut pool ip ↔ IsSlot pool ip := by
  constructor
  · exact isSlot_of_handsOut hs hi
  · rintro ⟨k, hk, rfl⟩
    have hlt := hs.2
    have h := filled_after hs hi (by omega : k + 1 ≤ pool.size.toNat)
    refine ⟨nameCalls (k + 1), Str.decimal k, ?_⟩
    rw [← candidate_of_lt hk]
    exact lookupOrAlloc_hit (length_utf8_decimal (by omega)) (h.slots k (by omega))

/-! ## Membership and the network -/

/-- The address lies in the configured network. -/
def InNetwork (pool : FakeIpPool) (a : Ipv4Addr) : Prop := a &&& maskOf pool.prefixLen = pool.base

/-- The last address of the network. -/
def broadcast (pool : FakeIpPool) : Ipv4Addr := pool.base ||| ~~~ maskOf pool.prefixLen

/-- No `u32` sum overflows: that of `contains`, which is formed for an address above the
    base, and the candidates of the scan. -/
def SumsFit (pool : FakeIpPool) (a : Ipv4Addr) : Prop :=
  (pool.base < a → pool.base.toNat + 1 + pool.size.toNat < 2 ^ 32) ∧
    ∀ cursor : U32, pool.base.toNat + 1 + (cursor % pool.size).toNat < 2 ^ 32

/-- Membership agrees with allocation at an address, and allocation with the network. -/
structure Agrees (pool : FakeIpPool) (a : Ipv4Addr) : Prop where
  member : pool.contains (.v4 a) = true ↔ HandsOut pool (.v4 a)
  inside : HandsOut pool (.v4 a) →
    InNetwork pool a ∧ (pool.prefixLen ≤ 30 → a ≠ pool.base ∧ a ≠ broadcast pool)
  fits : SumsFit pool a

theorem inNetwork_iff (h : Ranged pool) (a : Ipv4Addr) :
    InNetwork pool a ↔ pool.base.toNat ≤ a.toNat ∧
      a.toNat < pool.base.toNat + 2 ^ (32 - pool.prefixLen) := by
  obtain ⟨k, hk⟩ := h.aligned
  have hpos := Nat.two_pow_pos (32 - pool.prefixLen)
  unfold InNetwork
  rw [← BitVec.toNat_inj, toNat_and_maskOf a h.le, hk, Nat.mul_comm _ k,
    Nat.mul_left_inj (Nat.ne_of_gt hpos), Nat.div_eq_iff hpos]
  omega

theorem toNat_broadcast (h : Ranged pool) :
    (broadcast pool).toNat = pool.base.toNat + (2 ^ (32 - pool.prefixLen) - 1) := by
  have hbase : pool.base &&& maskOf pool.prefixLen = pool.base :=
    (inNetwork_iff h pool.base).mpr ⟨Nat.le_refl _, Nat.lt_add_of_pos_right (Nat.two_pow_pos _)⟩
  have hlast : ((pool.base &&& maskOf pool.prefixLen) ||| ~~~ maskOf pool.prefixLen).toNat = _ :=
    RulesetBin.toNat_or_not_prefixMask pool.base h.le
  rw [hbase, Nat.div_mul_cancel h.aligned] at hlast
  exact hlast

theorem sumsFit_iff (hs : Sized pool) (a : Ipv4Addr) :
    SumsFit pool a ↔
      (pool.base.toNat < a.toNat → pool.base.toNat + 1 + pool.size.toNat < 2 ^ 32) ∧
        pool.base.toNat + pool.size.toNat < 2 ^ 32 := by
  have hpos := hs.1
  have hsize := hs.2
  refine and_congr Iff.rfl ⟨fun h => ?_, fun h cursor => ?_⟩
  · -- the last slot is the largest candidate
    have hlast := h (BitVec.ofNat 32 (pool.size.toNat - 1))
    rw [BitVec.toNat_umod, BitVec.toNat_ofNat,
      Nat.mod_eq_of_lt (by omega : pool.size.toNat - 1 < 2 ^ 32),
      Nat.mod_eq_of_lt (by omega : pool.size.toNat - 1 < pool.size.toNat)] at hlast
    omega
  · have hmod : (cursor % pool.size).toNat < pool.size.toNat := by
      rw [BitVec.toNat_umod]
      exact Nat.mod_lt _ hpos
    omega

theorem isSlot_iff (h : pool.base.toNat + pool.size.toNat < 2 ^ 32) (a : Ipv4Addr) :
    IsSlot pool (.v4 a) ↔
      pool.base.toNat < a.toNat ∧ a.toNat ≤ pool.base.toNat + pool.size.toNat := by
  have hone : (1 : U32).toNat = 1 := rfl
  unfold IsSlot
  constructor
  · rintro ⟨k, hk, he⟩
    rw [IpAddr.v4.injEq] at he
    rw [he, BitVec.toNat_add, BitVec.toNat_add, BitVec.toNat_ofNat, hone]
    omega
  · rintro ⟨hlo, hhi⟩
    refine ⟨a.toNat - pool.base.toNat - 1, by omega, ?_⟩
    rw [IpAddr.v4.injEq]
    apply BitVec.eq_of_toNat_eq
    have ha := a.isLt
    rw [BitVec.toNat_add, BitVec.toNat_add, BitVec.toNat_ofNat, hone]
    omega

theorem contains_iff (h : pool.base.toNat + 1 + pool.size.toNat < 2 ^ 32) (a : Ipv4Addr) :
    pool.contains (.v4 a) = true ↔
      pool.base.toNat < a.toNat ∧ a.toNat ≤ pool.base.toNat + 1 + pool.size.toNat := by
  have hone : (1 : U32).toNat = 1 := rfl
  simp only [FakeIpPool.contains, Bool.and_eq_true, decide_eq_true_eq, BitVec.lt_def,
    BitVec.le_def, BitVec.toNat_add]
  rw [hone, Nat.mod_eq_of_lt (by omega : pool.base.toNat + 1 < 2 ^ 32), Nat.mod_eq_of_lt h]

/-- Where the sum of `contains` wraps, it accepts nothing. -/
theorem contains_wrapped (hs : pool.size.toNat = 1)
    (h : 2 ^ 32 ≤ pool.base.toNat + 1 + pool.size.toNat) (a : Ipv4Addr) :
    pool.contains (.v4 a) = false := by
  have hone : (1 : U32).toNat = 1 := rfl
  have hb := pool.base.isLt
  have ha := a.isLt
  simp only [FakeIpPool.contains, Bool.and_eq_false_iff, decide_eq_false_iff_not, BitVec.lt_def,
    BitVec.le_def, BitVec.toNat_add]
  rw [hone, hs]
  rw [hs] at h
  omega

/-- The addresses where `contains` agrees with the allocation: not the one behind the last
    slot; not the only slot of a /32, which lies outside the network; and nothing above the
    base where the range ends at the top of the address space. -/
theorem contains_agrees_iff (cidr : Str) (pool : FakeIpPool)
    (h : FakeIpPool.new cidr = .ok pool) (a : Ipv4Addr) :
    Agrees pool a ↔ a.toNat ≠ pool.base.toNat + 1 + pool.size.toNat ∧
      (pool.prefixLen = 32 → pool.base.toNat + 1 < 2 ^ 32 ∧ a.toNat ≠ pool.base.toNat + 1) ∧
      (2 ^ 32 ≤ pool.base.toNat + 1 + pool.size.toNat → a.toNat ≤ pool.base.toNat) := by
  have hr := new_ranged h
  have hs := hr.sized
  have hsplit : Agrees pool a ↔ (pool.contains (.v4 a) = true ↔ HandsOut pool (.v4 a)) ∧
      (HandsOut pool (.v4 a) →
        InNetwork pool a ∧ (pool.prefixLen ≤ 30 → a ≠ pool.base ∧ a ≠ broadcast pool)) ∧
      SumsFit pool a :=
    ⟨fun hg => ⟨hg.member, hg.inside, hg.fits⟩, fun hg => ⟨hg.1, hg.2.1, hg.2.2⟩⟩
  rw [hsplit, handsOut_iff hs (new_eq_ok h).1, inNetwork_iff hr, sumsFit_iff hs, Ne, Ne,
    ← BitVec.toNat_inj, ← BitVec.toNat_inj, toNat_broadcast hr]
  have hfit := hr.base_add_le
  have hle := hr.le
  by_cases hslots : pool.base.toNat + pool.size.toNat < 2 ^ 32
  · rw [isSlot_iff hslots]
    by_cases hroom : pool.base.toNat + 1 + pool.size.toNat < 2 ^ 32
    · rw [contains_iff hroom]
      rcases Nat.lt_or_ge 30 pool.prefixLen with hlong | hshort
      · have hone := hr.size_eq_one hlong
        rcases hr.two_pow_cases hlong with ⟨hp, hpow⟩ | ⟨hp, hpow⟩
        · omega
        · omega
      · have hsize := hr.size_add_two hshort
        omega
    · have hlong : 31 ≤ pool.prefixLen := by
        by_contra hshort
        have hsize := hr.size_add_two (by omega)
        omega
      have hone := hr.size_eq_one hlong
      rw [contains_wrapped hone (by omega)]
      simp only [Bool.false_eq_true, false_iff]
      rcases hr.two_pow_cases hlong with ⟨hp, hpow⟩ | ⟨hp, hpow⟩
      · omega
      · omega
  · -- the only range without room for its slot is 255.255.255.255/32
    have hlong : 31 ≤ pool.prefixLen := by
      by_contra hshort
      have hsize := hr.size_add_two (by omega)
      omega
    have hone := hr.size_eq_one hlong
    have hp : pool.prefixLen = 32 := by
      rcases hr.two_pow_cases hlong with ⟨-, hpow⟩ | ⟨hp, -⟩
      · omega
      · exact hp
    constructor
    · intro hg
      exact absurd hg.2.2.2 hslots
    · intro hg
      have := hg.2.1 hp
      omega

theorem contains_agrees_iff_slot : Agrees smallPool 0x0a000003 :=
  (contains_agrees_iff "10.0.0.0/29".toList smallPool new_smallPool 0x0a000003).mpr (by decide)

/-- In `10.0.0.0/29` the broadcast address counts as a fake address, and no lookup returns
    it. -/
theorem broadcast_contained : FakeIpPool.new "10.0.0.0/29".toList = .ok smallPool ∧
    smallPool.contains (.v4 0x0a000007) = true ∧ broadcast smallPool = 0x0a000007 ∧
    ¬ HandsOut smallPool (.v4 0x0a000007) := by
  refine ⟨new_smallPool, by decide, by decide, ?_⟩
  rw [handsOut_iff (by unfold Sized; decide) rfl, isSlot_iff (by decide)]
  decide

end RustCrash.Dns
