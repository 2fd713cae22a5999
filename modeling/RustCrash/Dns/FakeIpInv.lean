import RustCrash.Lib.Maps
import RustCrash.Dns.FakeIp

/-
  The invariant of the fake-IP pool over whole runs (`Consistent`): the two maps are
  inverses, the LRU list holds every domain once, and the pool is within its size.

  Every operation keeps it except one branch of the allocation. Across the wrap of the `u32`
  cursor the scan need not look at `size` different slots, and when none of them is free the code
  takes the next one, in use or not. `FreshSlot` says that this does not happen.
-/

namespace RustCrash.Dns

open Lib

/-- The pool's data agree with each other. -/
structure Consistent (pool : FakeIpPool) : Prop where
  inverse : Inverse pool.inner.byDomain pool.inner.byIp
  nodup_order : pool.inner.order.Nodup
  mem_order : ∀ d, d ∈ pool.inner.order ↔ d ∈ pool.inner.byDomain
  len_le : pool.len ≤ pool.size.toNat

/-- What `parse_range` says of a size. -/
def Sized (pool : FakeIpPool) : Prop := 0 < pool.size.toNat ∧ pool.size.toNat < 2 ^ 30

/-! ## New and flushed pools -/

theorem consistent_empty (base : U32) (p : Nat) (size : U32) :
    Consistent ⟨base, p, size, Inner.empty⟩ where
  inverse := Inverse.empty
  nodup_order := List.nodup_nil
  mem_order d := by simp [Inner.empty]
  len_le := by simp [FakeIpPool.len, Inner.empty]

theorem size_of_prefix {p : Nat} (h : 2 ≤ p ∧ p ≤ 32) :
    0 < (BitVec.ofNat 32 (max (2 ^ (32 - p) - 2) 1)).toNat ∧
      (BitVec.ofNat 32 (max (2 ^ (32 - p) - 2) 1)).toNat < 2 ^ 30 := by
  have hpow : 2 ^ (32 - p) ≤ 2 ^ 30 := Nat.pow_le_pow_right (by decide) (by omega)
  rw [BitVec.toNat_ofNat, Nat.mod_eq_of_lt (by omega)]
  omega

variable {pool : FakeIpPool} {inner inner' : Inner}

theorem new_eq_ok {cidr : Str} (h : FakeIpPool.new cidr = .ok pool) :
    pool.inner = Inner.empty ∧ Sized pool := by
  unfold FakeIpPool.new parseRange at h
  simp only [bind_eq_ok, okOr_eq_ok] at h
  obtain ⟨⟨base, p, size⟩, ⟨⟨addr, plen⟩, -, a, -, n, -, hr⟩, hp⟩ := h
  split_ifs at hr with hn
  · simp only [pure_eq, Except.ok.injEq, Prod.mk.injEq] at hr hp
    obtain ⟨-, -, rfl⟩ := hr
    subst hp
    exact ⟨rfl, size_of_prefix hn⟩
  · simp at hr

theorem new_consistent {cidr : Str} (h : FakeIpPool.new cidr = .ok pool) : Consistent pool := by
  have hi := (new_eq_ok h).1
  obtain ⟨base, p, size, inner⟩ := pool
  simp only at hi
  rw [hi]
  exact consistent_empty base p size

theorem flush_consistent (pool : FakeIpPool) : Consistent pool.flush :=
  consistent_empty pool.base pool.prefixLen pool.size

/-! ## Touching -/

theorem mem_touch {order : List Str} {d x : Str} : x ∈ touch order d ↔ x ∈ order := by
  unfold touch
  split_ifs with h
  · rw [List.mem_append, List.mem_singleton]
    by_cases hx : x = d
    · simp [hx, h]
    · simp [hx, List.mem_erase_of_ne hx]
  · rfl

theorem nodup_touch {order : List Str} {d : Str} (h : order.Nodup) : (touch order d).Nodup := by
  unfold touch
  split_ifs with hd
  · rw [List.nodup_append]
    refine ⟨h.erase d, List.nodup_singleton d, ?_⟩
    intro a ha b hb
    rw [List.mem_singleton.mp hb]
    rintro rfl
    exact (List.Nodup.mem_erase_iff h).mp ha |>.1 rfl
  · exact h

theorem touch_consistent (h : Consistent pool) (d : Str) :
    Consistent { pool with inner := { pool.inner with order := touch pool.inner.order d } } where
  inverse := h.inverse
  nodup_order := nodup_touch h.nodup_order
  mem_order x := mem_touch.trans (h.mem_order x)
  len_le := h.len_le

theorem reverse_consistent (h : Consistent pool) (ip : IpAddr) :
    Consistent (pool.reverse ip).2 := by
  unfold FakeIpPool.reverse
  split
  · exact h
  · exact touch_consistent h _

/-! ## Evicting -/

theorem length_order (h : Consistent pool) : pool.inner.order.length = pool.len := by
  have hp : pool.inner.order.Perm pool.inner.byDomain.keys := by
    rw [List.perm_ext_iff_of_nodup h.nodup_order pool.inner.byDomain.keys_nodup]
    intro d
    rw [h.mem_order d, AList.mem_keys]
  exact hp.length_eq

/-- `evict` does one of two things: nothing, with room left, or it drops the front of the
    LRU list. -/
theorem evict_cases (h : Consistent pool) (hs : Sized pool) :
    (pool.len < pool.size.toNat ∧ evict pool.size pool.inner = pool.inner) ∨
    (pool.len = pool.size.toNat ∧ ∃ victim order ip,
      pool.inner.order = victim :: order ∧ pool.inner.byDomain.lookup victim = some ip ∧
      evict pool.size pool.inner = { pool.inner with
        byDomain := pool.inner.byDomain.erase victim, byIp := pool.inner.byIp.erase ip,
        order := order }) := by
  have hlen := h.len_le
  have hlt := hs.2
  have hnat : (BitVec.ofNat 32 pool.inner.byDomain.keys.length).toNat = pool.len := by
    rw [BitVec.toNat_ofNat]
    exact Nat.mod_eq_of_lt (by unfold FakeIpPool.len at hlen; omega)
  have hle : pool.size ≤ BitVec.ofNat 32 pool.inner.byDomain.keys.length ↔
      pool.size.toNat ≤ pool.len := by rw [BitVec.le_def, hnat]
  unfold evict
  by_cases hfull : pool.size.toNat ≤ pool.len
  · right
    rw [if_pos (hle.mpr hfull)]
    have ho := length_order h
    refine ⟨by omega, ?_⟩
    cases horder : pool.inner.order with
    | nil =>
      have := hs.1
      rw [horder, List.length_nil] at ho
      omega
    | cons victim order =>
      have hm : victim ∈ pool.inner.byDomain := (h.mem_order victim).mp (by simp [horder])
      obtain ⟨ip, hip⟩ := Option.isSome_iff_exists.mp (AList.lookup_isSome.mpr hm)
      exact ⟨victim, order, ip, rfl, hip, by simp [hip]⟩
  · left
    rw [if_neg (fun hc => hfull (hle.mp hc))]
    exact ⟨by omega, rfl⟩

/-- After eviction the pool is consistent and has room, and no domain is new. -/
theorem evict_consistent (h : Consistent pool) (hs : Sized pool) :
    Consistent { pool with inner := evict pool.size pool.inner } ∧
      (evict pool.size pool.inner).byDomain.keys.length < pool.size.toNat ∧
      ∀ d, pool.inner.byDomain.lookup d = none →
        (evict pool.size pool.inner).byDomain.lookup d = none := by
  rcases evict_cases h hs with ⟨hroom, he⟩ | ⟨hfull, victim, order, ip, ho, hv, he⟩
  · rw [he]
    exact ⟨h, hroom, fun d hd => hd⟩
  · rw [he]
    have hnd := h.nodup_order
    rw [ho, List.nodup_cons] at hnd
    have hkeys : (pool.inner.byDomain.erase victim).keys.length + 1 = pool.len :=
      length_keys_erase hv
    refine ⟨?_, by dsimp only; omega, ?_⟩
    · refine ⟨h.inverse.erase hv, hnd.2, ?_, ?_⟩
      · intro d
        dsimp only
        rw [AList.mem_erase, ← h.mem_order, ho, List.mem_cons]
        constructor
        · intro hd
          refine ⟨?_, Or.inr hd⟩
          rintro rfl
          exact hnd.1 hd
        · rintro ⟨hne, hd⟩
          exact hd.resolve_left hne
      · show (pool.inner.byDomain.erase victim).keys.length ≤ pool.size.toNat
        omega
    · intro d hd
      have hne : d ≠ victim := by
        rintro rfl
        rw [hv] at hd
        exact absurd hd (by simp)
      rw [AList.lookup_erase_ne hne, hd]

/-! ## Scanning for a free slot -/

theorem findFree_spec (base size : U32) (byIp : IpMap) (n : Nat) (cursor : U32) :
    (∃ i < n, findFree base size byIp n cursor =
        (some (candidate base size (cursor + BitVec.ofNat 32 i)), cursor + BitVec.ofNat 32 (i + 1)) ∧
      byIp.lookup (candidate base size (cursor + BitVec.ofNat 32 i)) = none ∧
      ∀ j < i, byIp.lookup (candidate base size (cursor + BitVec.ofNat 32 j)) ≠ none) ∨
    (findFree base size byIp n cursor = (none, cursor + BitVec.ofNat 32 n) ∧
      ∀ i < n, byIp.lookup (candidate base size (cursor + BitVec.ofNat 32 i)) ≠ none) := by
  induction n generalizing cursor with
  | zero => right; simp [findFree]
  | succ n ih =>
    have hshift : ∀ i, cursor + 1 + BitVec.ofNat 32 i = cursor + BitVec.ofNat 32 (i + 1) := by
      intro i
      rw [BitVec.ofNat_add, BitVec.add_assoc, BitVec.add_comm (BitVec.ofNat 32 i)]
      rfl
    have h0 : cursor + BitVec.ofNat 32 0 = cursor := by simp
    unfold findFree
    dsimp only
    cases hb : byIp.lookup (candidate base size cursor) with
    | none =>
      left
      refine ⟨0, by omega, ?_, ?_, by simp⟩
      · rw [if_pos (by rfl), h0]
        rfl
      · rw [h0, hb]
    | some d =>
      rw [if_neg (by simp)]
      have hfirst : byIp.lookup (candidate base size (cursor + BitVec.ofNat 32 0)) ≠ none := by
        rw [h0, hb]; simp
      rcases ih (cursor + 1) with ⟨i, hi, he, hfree, hall⟩ | ⟨he, hall⟩
      · left
        rw [hshift] at he hfree
        rw [hshift] at he
        refine ⟨i + 1, by omega, he, hfree, ?_⟩
        intro j hj
        cases j with
        | zero => exact hfirst
        | succ j => rw [← hshift]; exact hall j (by omega)
      · right
        rw [hshift] at he
        refine ⟨he, ?_⟩
        intro i hi
        cases i with
        | zero => exact hfirst
        | succ i => rw [← hshift]; exact hall i (by omega)

/-- The slot an allocation takes. -/
def chosen (pool : FakeIpPool) : IpAddr :=
  let inner := evict pool.size pool.inner
  let (found, cursor) := findFree pool.base pool.size inner.byIp pool.size.toNat inner.cursor
  found.getD (candidate pool.base pool.size cursor)

/-- After the eviction one of the cursor values an allocation can end at (the `size`
    values of the scan, and the next one, which it falls back to) is a free slot. -/
def FreshSlot (pool : FakeIpPool) : Prop :=
  ∃ i ≤ pool.size.toNat, (evict pool.size pool.inner).byIp.lookup
    (candidate pool.base pool.size
      ((evict pool.size pool.inner).cursor + BitVec.ofNat 32 i)) = none

theorem chosen_free_iff (pool : FakeIpPool) :
    (evict pool.size pool.inner).byIp.lookup (chosen pool) = none ↔ FreshSlot pool := by
  unfold chosen FreshSlot
  dsimp only
  rcases findFree_spec pool.base pool.size (evict pool.size pool.inner).byIp pool.size.toNat
      (evict pool.size pool.inner).cursor with ⟨i, hi, he, hfree, -⟩ | ⟨he, hall⟩
  · rw [he]
    exact ⟨fun _ => ⟨i, by omega, hfree⟩, fun _ => hfree⟩
  · rw [he]
    constructor
    · intro hfree
      exact ⟨pool.size.toNat, Nat.le_refl _, hfree⟩
    · rintro ⟨i, hi, hfree⟩
      rcases Nat.lt_or_eq_of_le hi with hlt | rfl
      · exact absurd hfree (hall i hlt)
      · exact hfree

/-! ## Allocating -/

/-- What a lookup does to the pool, by case. -/
theorem lookupOrAlloc_cases (pool : FakeIpPool) (d : Str) :
    (255 < (utf8 d).length ∧ (pool.lookupOrAlloc d).2 = pool) ∨
    ((utf8 d).length ≤ 255 ∧ (∃ ip, pool.inner.byDomain.lookup d = some ip) ∧
      (pool.lookupOrAlloc d).2 =
        { pool with inner := { pool.inner with order := touch pool.inner.order d } }) ∨
    ((utf8 d).length ≤ 255 ∧ pool.inner.byDomain.lookup d = none ∧ ∃ cursor,
      (pool.lookupOrAlloc d).2 = { pool with
        inner :=
          { cursor := cursor
            byDomain := (evict pool.size pool.inner).byDomain.insert d (chosen pool)
            byIp := (evict pool.size pool.inner).byIp.insert (chosen pool) d
            order := (evict pool.size pool.inner).order ++ [d] } }) := by
  unfold FakeIpPool.lookupOrAlloc FakeIpPool.lookupOrAllocFlagged
  by_cases hl : (utf8 d).length > 255
  · left
    rw [if_pos hl]
    exact ⟨hl, rfl⟩
  · right
    rw [if_neg hl]
    cases hd : pool.inner.byDomain.lookup d with
    | some ip => exact Or.inl ⟨by omega, ⟨ip, rfl⟩, rfl⟩
    | none => exact Or.inr ⟨by omega, rfl, _, rfl⟩

/-- A lookup that allocates. -/
def Allocates (pool : FakeIpPool) (d : Str) : Prop :=
  (utf8 d).length ≤ 255 ∧ pool.inner.byDomain.lookup d = none

/-- An allocation keeps the pool consistent exactly when the slot it takes is free. -/
theorem alloc_consistent_iff (h : Consistent pool) (hs : Sized pool) {d : Str}
    (ha : Allocates pool d) : Consistent (pool.lookupOrAlloc d).2 ↔ FreshSlot pool := by
  obtain ⟨hc, hroom, hnew⟩ := evict_consistent h hs
  have hd := hnew d ha.2
  rcases lookupOrAlloc_cases pool d with ⟨hl, -⟩ | ⟨-, ⟨ip, hip⟩, -⟩ | ⟨-, -, cursor, he⟩
  · exact absurd ha.1 (by omega)
  · rw [ha.2] at hip
    exact absurd hip (by simp)
  · rw [he, ← chosen_free_iff]
    constructor
    · intro hcons
      exact (hc.inverse.insert_iff hd).mp hcons.inverse
    · intro hfree
      have hnm : d ∉ (evict pool.size pool.inner).byDomain := AList.lookup_eq_none.mp hd
      have hno : d ∉ (evict pool.size pool.inner).order := fun hm => hnm ((hc.mem_order d).mp hm)
      refine ⟨(hc.inverse.insert_iff hd).mpr hfree, ?_, ?_, ?_⟩
      · dsimp only
        rw [List.nodup_append]
        refine ⟨hc.nodup_order, List.nodup_singleton d, ?_⟩
        intro x hx b hb
        rw [List.mem_singleton.mp hb]
        rintro rfl
        exact hno hx
      · intro x
        have := hc.mem_order x
        dsimp only at this ⊢
        rw [List.mem_append, List.mem_singleton, AList.mem_insert, this]
        tauto
      · show ((evict pool.size pool.inner).byDomain.insert d (chosen pool)).keys.length ≤ _
        rw [length_keys_insert hd]
        exact hroom

theorem lookup_consistent_of_not_allocates (h : Consistent pool) {d : Str} (ha : ¬ Allocates pool d) :
    Consistent (pool.lookupOrAlloc d).2 := by
  rcases lookupOrAlloc_cases pool d with ⟨-, he⟩ | ⟨-, -, he⟩ | ⟨hl, hn, -⟩
  · rw [he]; exact h
  · rw [he]; exact touch_consistent h d
  · exact absurd ⟨hl, hn⟩ ha

/-! ## When the scan does not cross the wrap -/

theorem candidate_inj {base size c : U32} {i j : Nat} (hi : i < size.toNat) (hj : j < size.toNat)
    (hw : c.toNat + size.toNat ≤ 2 ^ 32 ∨ size.toNat ∣ 2 ^ 32)
    (h : candidate base size (c + BitVec.ofNat 32 i) = candidate base size (c + BitVec.ofNat 32 j)) :
    i = j := by
  have hsz : size.toNat < 2 ^ 32 := size.isLt
  unfold candidate at h
  rw [IpAddr.v4.injEq, BitVec.add_right_inj] at h
  have hn := congrArg BitVec.toNat h
  simp only [BitVec.toNat_umod, BitVec.toNat_add, BitVec.toNat_ofNat] at hn
  rw [Nat.mod_eq_of_lt (by omega : i < 2 ^ 32), Nat.mod_eq_of_lt (by omega : j < 2 ^ 32)] at hn
  exact ring_inj hw hi hj hn

/-- With no wrap in sight, or with a size that divides the cursor's range, the scan sees
    every slot, and after the eviction one of them is free. -/
theorem freshSlot_of_no_wrap (h : Consistent pool) (hs : Sized pool)
    (hw : pool.inner.cursor.toNat + pool.size.toNat ≤ 2 ^ 32 ∨ pool.size.toNat ∣ 2 ^ 32) :
    FreshSlot pool := by
  obtain ⟨hc, hroom, -⟩ := evict_consistent h hs
  have hcur : (evict pool.size pool.inner).cursor = pool.inner.cursor := by
    rcases evict_cases h hs with ⟨-, he⟩ | ⟨-, _, _, _, -, -, he⟩ <;> rw [he]
  by_contra hno
  -- otherwise `size` different addresses are in use
  have hall : ∀ i < pool.size.toNat, candidate pool.base pool.size
      ((evict pool.size pool.inner).cursor + BitVec.ofNat 32 i) ∈
        (evict pool.size pool.inner).byIp.keys := by
    intro i hi
    by_contra hm
    exact hno ⟨i, by omega, AList.lookup_eq_none.mpr fun hk => hm (AList.mem_keys.mp hk)⟩
  have hnodup : ((List.range pool.size.toNat).map fun i => candidate pool.base pool.size
      ((evict pool.size pool.inner).cursor + BitVec.ofNat 32 i)).Nodup := by
    refine List.Nodup.map_on ?_ (List.nodup_range)
    intro i hi j hj he
    rw [hcur] at he
    exact candidate_inj (List.mem_range.mp hi) (List.mem_range.mp hj) hw he
  have hsub : ((List.range pool.size.toNat).map fun i => candidate pool.base pool.size
      ((evict pool.size pool.inner).cursor + BitVec.ofNat 32 i)) ⊆
        (evict pool.size pool.inner).byIp.keys := by
    intro ip hip
    obtain ⟨i, hi, rfl⟩ := List.mem_map.mp hip
    exact hall i (List.mem_range.mp hi)
  have hle := (List.subperm_of_subset hnodup hsub).length_le
  rw [List.length_map, List.length_range, ← hc.inverse.length_keys] at hle
  exact absurd hroom (Nat.not_lt.mpr hle)

/-! ## Loading -/

/-- The invariant of the loop that loads `n` mappings. -/
structure Loaded (pool : FakeIpPool) (n : Nat) (inner : Inner) : Prop where
  inverse : Inverse inner.byDomain inner.byIp
  nodup_order : inner.order.Nodup
  mem_order : ∀ d, d ∈ inner.order ↔ d ∈ inner.byDomain
  length_keys : inner.byDomain.keys.length = n
  contains : ∀ ip ∈ inner.byIp.keys, pool.contains ip = true

theorem loadMapping_ok {path : Str} {m : Str × Str} (h : pool.loadMapping path inner m = .ok inner') :
    ∃ ip, pool.contains ip = true ∧ inner.byDomain.lookup m.1 = none ∧
      inner.byIp.lookup ip = none ∧ inner' = { inner with
        byDomain := inner.byDomain.insert m.1 ip, byIp := inner.byIp.insert ip m.1,
        order := inner.order ++ [m.1] } := by
  obtain ⟨d, text⟩ := m
  unfold FakeIpPool.loadMapping at h
  simp only [bind_eq_ok, okOr_eq_ok] at h
  obtain ⟨ip, -, h⟩ := h
  split_ifs at h with h1 h2
  · simp at h
  · rw [pure_eq, Except.ok.injEq] at h
    rw [not_or] at h2
    exact ⟨ip, h1, by simpa using h2.1, by simpa using h2.2, h.symm⟩
  · simp at h
  · simp at h

theorem loaded_step {path : Str} {n : Nat} {m : Str × Str} (hl : Loaded pool n inner)
    (h : pool.loadMapping path inner m = .ok inner') : Loaded pool (n + 1) inner' := by
  obtain ⟨ip, hcon, hd, hip, rfl⟩ := loadMapping_ok h
  have hnm : m.1 ∉ inner.byDomain := AList.lookup_eq_none.mp hd
  refine ⟨hl.inverse.insert hd hip, ?_, ?_, ?_, ?_⟩
  · rw [List.nodup_append]
    refine ⟨hl.nodup_order, List.nodup_singleton _, ?_⟩
    intro a ha b hb
    rw [List.mem_singleton.mp hb]
    rintro rfl
    exact hnm ((hl.mem_order _).mp ha)
  · intro x
    rw [List.mem_append, List.mem_singleton, AList.mem_insert, hl.mem_order x]
    tauto
  · rw [length_keys_insert hd, hl.length_keys]
  · intro ip' hm
    rw [← AList.mem_keys, AList.mem_insert] at hm
    rcases hm with rfl | hm
    · exact hcon
    · exact hl.contains ip' (AList.mem_keys.mp hm)

theorem loaded_fold {path : Str} {ms : List (Str × Str)} {n : Nat} (hl : Loaded pool n inner)
    (h : ms.foldlM (pool.loadMapping path) inner = .ok inner') :
    Loaded pool (n + ms.length) inner' := by
  induction ms generalizing n inner with
  | nil =>
    rw [List.foldlM_nil, pure_eq, Except.ok.injEq] at h
    rw [← h]
    exact hl
  | cons m ms ih =>
    rw [List.foldlM_cons, bind_eq_ok] at h
    obtain ⟨mid, hm, h⟩ := h
    have := ih (loaded_step hl hm) h
    rwa [Nat.add_assoc, Nat.add_comm 1, ← List.length_cons (a := m)] at this

/-- The number of an IPv4 address. -/
def valueOf : IpAddr → Nat
  | .v4 a => a.toNat
  | .v6 _ => 0

/-- A range holds at most `size + 1` of the addresses `contains` accepts. -/
theorem length_contains_le {ips : List IpAddr} (hn : ips.Nodup)
    (h : ∀ ip ∈ ips, pool.contains ip = true) : ips.length ≤ pool.size.toNat + 1 := by
  have hv : ∀ ip ∈ ips, ∃ a, ip = .v4 a ∧ pool.base.toNat < a.toNat ∧
      a.toNat ≤ pool.base.toNat + 1 + pool.size.toNat := by
    intro ip hip
    cases ip with
    | v6 a => exact absurd (h _ hip) (by simp [FakeIpPool.contains])
    | v4 a =>
      have hc := h _ hip
      simp only [FakeIpPool.contains, Bool.and_eq_true, decide_eq_true_eq, BitVec.lt_def,
        BitVec.le_def, BitVec.toNat_add] at hc
      refine ⟨a, rfl, hc.1, hc.2.trans ?_⟩
      have h1 := Nat.mod_le (pool.base.toNat + (1 : U32).toNat) (2 ^ 32)
      have h2 := Nat.mod_le ((pool.base.toNat + (1 : U32).toNat) % 2 ^ 32 + pool.size.toNat) (2 ^ 32)
      have h3 : (1 : U32).toNat = 1 := rfl
      omega
  have hinj : ∀ x ∈ ips, ∀ y ∈ ips, valueOf x = valueOf y → x = y := by
    intro x hx y hy he
    obtain ⟨a, rfl, -⟩ := hv x hx
    obtain ⟨b, rfl, -⟩ := hv y hy
    exact congrArg _ (BitVec.eq_of_toNat_eq he)
  have hsub : ips.map valueOf ⊆ List.range' (pool.base.toNat + 1) (pool.size.toNat + 1) := by
    intro n hm
    obtain ⟨ip, hip, rfl⟩ := List.mem_map.mp hm
    obtain ⟨a, rfl, h1, h2⟩ := hv ip hip
    rw [List.mem_range'_1]
    show _ ≤ a.toNat ∧ a.toNat < _
    omega
  have := (List.subperm_of_subset (List.Nodup.map_on hinj hn) hsub).length_le
  simpa using this

/-- A successful load gives a new pool, or one filled from the file. -/
theorem loadFrom_eq_ok {codec : StoreCodec} {cidr path : Str} {raw : Option Bytes}
    (h : FakeIpPool.loadFrom codec cidr path raw = .ok pool) :
    ∃ fresh, FakeIpPool.new cidr = .ok fresh ∧ (pool = fresh ∨
      ∃ inner cursor, Loaded fresh inner.byDomain.keys.length inner ∧
        inner.byDomain.keys.length ≤ fresh.size.toNat ∧
        pool = { fresh with inner := { inner with cursor := cursor } }) := by
  unfold FakeIpPool.loadFrom at h
  rw [bind_eq_ok] at h
  obtain ⟨fresh, hnew, h⟩ := h
  refine ⟨fresh, hnew, ?_⟩
  obtain ⟨hi, hs⟩ := new_eq_ok hnew
  cases raw with
  | none =>
    rw [pure_eq, Except.ok.injEq] at h
    exact Or.inl h.symm
  | some raw =>
    dsimp only at h
    cases hdec : codec.decode raw with
    | error e => simp [hdec] at h
    | ok store =>
      simp only [hdec] at h
      split_ifs at h with h1 h2 h3
      · rw [pure_eq, Except.ok.injEq] at h
        exact Or.inl h.symm
      · rw [bind_eq_ok] at h
        obtain ⟨inner, hf, h⟩ := h
        rw [pure_eq, Except.ok.injEq] at h
        have hl0 : Loaded fresh 0 fresh.inner := by
          rw [hi]
          exact ⟨Inverse.empty, List.nodup_nil, fun d => by simp [Inner.empty], rfl,
            fun ip hm => by simp [Inner.empty] at hm⟩
        have hl := loaded_fold hl0 hf
        rw [Nat.zero_add] at hl
        -- no more mappings than addresses, so the length is not cut by the cast to u32
        have hle := length_contains_le inner.byIp.keys_nodup hl.contains
        rw [← hl.inverse.length_keys, hl.length_keys] at hle
        have hlt := hs.2
        rw [BitVec.lt_def, BitVec.toNat_ofNat, Nat.mod_eq_of_lt (by omega)] at h3
        have hlen := hl.length_keys
        refine Or.inr ⟨inner, _, ?_, ?_, h.symm⟩
        · rw [hlen]
          exact hl
        · omega

theorem loadFrom_consistent {codec : StoreCodec} {cidr path : Str} {raw : Option Bytes}
    (h : FakeIpPool.loadFrom codec cidr path raw = .ok pool) : Consistent pool ∧ Sized pool := by
  obtain ⟨fresh, hnew, rfl | ⟨inner, cursor, hl, hle, rfl⟩⟩ := loadFrom_eq_ok h
  · exact ⟨new_consistent hnew, (new_eq_ok hnew).2⟩
  · exact ⟨⟨hl.inverse, hl.nodup_order, hl.mem_order, hle⟩, (new_eq_ok hnew).2⟩

end RustCrash.Dns
