import RustCrash.Dns.FakeIpRange

/-
  A restart of the fake-IP pool: `load_from` over the file that `persist_to` wrote. It gives back
  the domains, addresses and LRU order of a consistent pool whose addresses are all in range, and
  the cursor modulo the size.

  From there the reloaded pool is a `Twin` of the one that kept running.
-/

namespace RustCrash.Dns

open Lib Lib.Machine

/-- The answers to a list of calls. -/
def FakeIpPool.answers (pool : FakeIpPool) : List PoolCall → List PoolAnswer
  | [] => []
  | c :: calls => (pool.call c).1 :: (pool.call c).2.answers calls

/-! ## Loading what was written -/

/-- Every address of the pool passes `contains`. -/
def Covered (pool : FakeIpPool) : Prop :=
  ∀ d ip, pool.inner.byDomain.lookup d = some ip → pool.contains ip = true

/-- The first domains of the LRU order have been loaded. -/
structure Restored (pool : FakeIpPool) (loaded : List Str) (inner : Inner) : Prop where
  order : inner.order = loaded
  byDomain : ∀ d, inner.byDomain.lookup d =
    if d ∈ loaded then pool.inner.byDomain.lookup d else none
  byIp : ∀ ip, inner.byIp.lookup ip = (pool.inner.byIp.lookup ip).filter (· ∈ loaded)

/-- One mapping of `persist_to`. -/
def mappingOf (pool : FakeIpPool) (d : Str) : Option (Str × Str) :=
  (pool.inner.byDomain.lookup d).map fun ip => (d, Net.ipText ip)

theorem Restored.loadMapping {pool fresh : FakeIpPool} {path : Str} {loaded : List Str}
    {inner : Inner} {d : Str} {ip : IpAddr} (h : Restored pool loaded inner)
    (hc : Consistent pool) (hd : pool.inner.byDomain.lookup d = some ip) (hnew : d ∉ loaded)
    (hcontains : fresh.contains ip = true) :
    fresh.loadMapping path inner (d, Net.ipText ip) = .ok { inner with
        byDomain := inner.byDomain.insert d ip
        byIp := inner.byIp.insert ip d
        order := inner.order ++ [d] } ∧
      Restored pool (loaded ++ [d]) { inner with
        byDomain := inner.byDomain.insert d ip
        byIp := inner.byIp.insert ip d
        order := inner.order ++ [d] } := by
  have hback := (hc.inverse d ip).mp hd
  have hdnone : inner.byDomain.lookup d = none := by
    rw [h.byDomain, if_neg hnew]
  have hipnone : inner.byIp.lookup ip = none := by
    rw [h.byIp, hback]
    simp [Option.filter, hnew]
  refine ⟨?_, ?_, ?_, ?_⟩
  · unfold FakeIpPool.loadMapping
    simp [Net.parseIpAddr_ipText, hcontains, hdnone, hipnone]
  · simp only [h.order]
  · intro x
    dsimp only
    by_cases hx : x = d
    · rw [hx, AList.lookup_insert, if_pos (by simp), hd]
    · rw [AList.lookup_insert_ne hx, h.byDomain]
      simp [hx]
  · intro x
    dsimp only
    by_cases hx : x = ip
    · rw [hx, AList.lookup_insert, hback]
      simp [Option.filter]
    · rw [AList.lookup_insert_ne hx, h.byIp]
      cases hb : pool.inner.byIp.lookup x with
      | none => rfl
      | some y =>
        have hy : y ≠ d := by
          rintro rfl
          rw [(hc.inverse y x).mpr hb, Option.some.injEq] at hd
          exact hx hd
        simp [Option.filter, hy]

theorem Restored.fold {pool fresh : FakeIpPool} {path : Str} {loaded todo : List Str}
    {inner : Inner} (h : Restored pool loaded inner) (hc : Consistent pool)
    (hcov : ∀ d ip, pool.inner.byDomain.lookup d = some ip → fresh.contains ip = true)
    (hsplit : loaded ++ todo = pool.inner.order) :
    ∃ inner', (todo.filterMap (mappingOf pool)).foldlM (fresh.loadMapping path) inner =
        .ok inner' ∧ Restored pool pool.inner.order inner' := by
  induction todo generalizing loaded inner with
  | nil =>
    rw [List.append_nil] at hsplit
    rw [← hsplit]
    exact ⟨inner, rfl, h⟩
  | cons d todo ih =>
    have hd : d ∈ pool.inner.byDomain := by
      rw [← hc.mem_order, ← hsplit]
      simp
    obtain ⟨ip, hip⟩ := Option.isSome_iff_exists.mp (AList.lookup_isSome.mpr hd)
    have hnew : d ∉ loaded := by
      have hnodup := hc.nodup_order
      rw [← hsplit, List.nodup_append] at hnodup
      intro hm
      exact hnodup.2.2 d hm d List.mem_cons_self rfl
    obtain ⟨hload, hnext⟩ := @Restored.loadMapping pool fresh path loaded inner d ip h hc hip hnew
      (hcov d ip hip)
    obtain ⟨inner', hrest, hdone⟩ := ih hnext (by rw [← hsplit, List.append_assoc]; rfl)
    refine ⟨inner', ?_, hdone⟩
    have hmap : mappingOf pool d = some (d, Net.ipText ip) := by
      unfold mappingOf
      rw [hip]
      rfl
    rw [List.filterMap_cons_some hmap, List.foldlM_cons, hload]
    exact hrest

theorem restored_empty (pool : FakeIpPool) : Restored pool [] Inner.empty where
  order := rfl
  byDomain d := by simp [Inner.empty]
  byIp ip := by
    cases pool.inner.byIp.lookup ip <;> simp [Inner.empty, Option.filter]

/-- The pool has the same domains, addresses and LRU order. -/
structure SameMap (pool pool' : FakeIpPool) : Prop where
  base : pool'.base = pool.base
  prefixLen : pool'.prefixLen = pool.prefixLen
  size : pool'.size = pool.size
  byDomain : ∀ d, pool'.inner.byDomain.lookup d = pool.inner.byDomain.lookup d
  byIp : ∀ ip, pool'.inner.byIp.lookup ip = pool.inner.byIp.lookup ip
  order : pool'.inner.order = pool.inner.order

theorem Restored.sameMap {pool : FakeIpPool} {inner : Inner} (hc : Consistent pool)
    (h : Restored pool pool.inner.order inner) (cursor : U32) :
    SameMap pool { pool with inner := { inner with cursor := cursor } } where
  base := rfl
  prefixLen := rfl
  size := rfl
  byDomain d := by
    dsimp only
    rw [h.byDomain]
    by_cases hd : d ∈ pool.inner.order
    · rw [if_pos hd]
    · rw [if_neg hd]
      rw [hc.mem_order] at hd
      exact (AList.lookup_eq_none.mpr hd).symm
  byIp ip := by
    dsimp only
    rw [h.byIp]
    cases hip : pool.inner.byIp.lookup ip with
    | none => rfl
    | some d =>
      have hd : d ∈ pool.inner.order := by
        rw [hc.mem_order, ← AList.lookup_isSome, (hc.inverse d ip).mpr hip]
        rfl
      simp [Option.filter, hd]
  order := h.order

/-- A consistent pool with its addresses in range loads again from its own file. -/
theorem loadFrom_store {codec : StoreCodec} {cidr path : Str} {pool : FakeIpPool}
    (hc : Consistent pool) (hs : Sized pool) (hcov : Covered pool)
    (hcodec : codec.decode (codec.encode pool.store) = .ok pool.store)
    (hrange : parseRange cidr = .ok (pool.base, pool.prefixLen, pool.size)) :
    ∃ pool', FakeIpPool.loadFrom codec cidr path (some (codec.encode pool.store)) = .ok pool' ∧
      SameMap pool pool' ∧ pool'.inner.cursor = pool.inner.cursor % pool.size := by
  have hnew : FakeIpPool.new cidr =
      .ok ⟨pool.base, pool.prefixLen, pool.size, Inner.empty⟩ := by
    unfold FakeIpPool.new
    rw [hrange]
    rfl
  have hmappings : pool.store.mappings = pool.inner.order.filterMap (mappingOf pool) := rfl
  have hlen : ¬ pool.size < BitVec.ofNat 32 pool.store.mappings.length := by
    have hle : pool.store.mappings.length ≤ pool.len := by
      rw [hmappings, ← length_order hc]
      exact List.length_filterMap_le _ _
    have hroom := hc.len_le
    have hlt := hs.2
    rw [BitVec.lt_def, BitVec.toNat_ofNat, Nat.mod_eq_of_lt (by omega)]
    omega
  obtain ⟨inner, hfold, hdone⟩ := @Restored.fold pool
    ⟨pool.base, pool.prefixLen, pool.size, Inner.empty⟩ path [] pool.inner.order Inner.empty
    (restored_empty pool) hc hcov rfl
  refine ⟨_, ?_, hdone.sameMap hc (pool.inner.cursor % pool.size), rfl⟩
  unfold FakeIpPool.loadFrom
  rw [hnew]
  simp only [bind_ok, hcodec]
  rw [if_neg (by simp [FakeIpPool.store]),
    if_neg (by simp [FakeIpPool.store, FakeIpPool.canonicalRange]), if_neg hlen, hmappings, hfold]
  rfl

/-! ## Running on side by side -/

/-- The two pools agree up to the cursor. The cursors reach the same slots: they are equal
    modulo the size, and the second wraps no earlier than the first unless the size divides
    the range of the cursor. -/
structure Twin (pool pool' : FakeIpPool) : Prop extends SameMap pool pool' where
  cursor_mod : pool'.inner.cursor.toNat % pool.size.toNat =
    pool.inner.cursor.toNat % pool.size.toNat
  cursor_le : pool'.inner.cursor.toNat ≤ pool.inner.cursor.toNat ∨ pool.size.toNat ∣ 2 ^ 32

/-- A scan from the cursor does not reach its wrap, or the wrap does not matter. -/
def Unwrapped (size cursor : U32) : Prop :=
  cursor.toNat + size.toNat < 2 ^ 32 ∨ size.toNat ∣ 2 ^ 32

/-- What a call needs of the pool that kept running. -/
def Roomy (pool : FakeIpPool) : PoolCall → Prop
  | .lookupOrAlloc d => Allocates pool d → Unwrapped pool.size pool.inner.cursor
  | _ => True

/-- Every call of the list meets its need. -/
def RoomyRun (pool : FakeIpPool) : List PoolCall → Prop
  | [] => True
  | c :: calls => Roomy pool c ∧ RoomyRun (pool.call c).2 calls

/-- Two cursors that reach the same slots, now and after `n` more steps. -/
def Aligned (size c c' : U32) : Prop :=
  c'.toNat % size.toNat = c.toNat % size.toNat ∧ (c'.toNat ≤ c.toNat ∨ size.toNat ∣ 2 ^ 32)

theorem Aligned.add {size c c' : U32} (h : Aligned size c c') (hw : Unwrapped size c) {i : Nat}
    (hi : i ≤ size.toNat) : Aligned size (c + BitVec.ofNat 32 i) (c' + BitVec.ofNat 32 i) := by
  have hsize := size.isLt
  have hmod : (c'.toNat + i) % size.toNat = (c.toNat + i) % size.toNat := by
    rw [Nat.add_mod, h.1, ← Nat.add_mod]
  unfold Aligned
  rw [BitVec.toNat_add, BitVec.toNat_add, BitVec.toNat_ofNat,
    Nat.mod_eq_of_lt (by omega : i < 2 ^ 32)]
  by_cases hdvd : size.toNat ∣ 2 ^ 32
  · rw [Nat.mod_mod_of_dvd _ hdvd, Nat.mod_mod_of_dvd _ hdvd]
    exact ⟨hmod, Or.inr hdvd⟩
  · have hroom : c.toNat + size.toNat < 2 ^ 32 := hw.resolve_right hdvd
    have hle : c'.toNat ≤ c.toNat := h.2.resolve_right hdvd
    rw [Nat.mod_eq_of_lt (by omega : c.toNat + i < 2 ^ 32),
      Nat.mod_eq_of_lt (by omega : c'.toNat + i < 2 ^ 32)]
    exact ⟨hmod, Or.inl (by omega)⟩

theorem Aligned.candidate {base size c c' : U32} (h : Aligned size c c') :
    candidate base size c' = candidate base size c := by
  have hmod : c' % size = c % size := by
    apply BitVec.eq_of_toNat_eq
    rw [BitVec.toNat_umod, BitVec.toNat_umod, h.1]
  unfold Dns.candidate
  rw [hmod]

/-- The two scans end at the same slot, after the same number of steps. -/
theorem findFree_aligned (base : U32) {size c c' : U32} {byIp byIp' : IpMap}
    (hips : ∀ ip, byIp'.lookup ip = byIp.lookup ip) (n : Nat)
    (h : ∀ i < n, candidate base size (c' + BitVec.ofNat 32 i) =
      candidate base size (c + BitVec.ofNat 32 i)) :
    ∃ found, ∃ i ≤ n, findFree base size byIp n c = (found, c + BitVec.ofNat 32 i) ∧
      findFree base size byIp' n c' = (found, c' + BitVec.ofNat 32 i) := by
  rcases findFree_spec base size byIp n c with ⟨i, hi, he, hfree, hused⟩ | ⟨he, hused⟩
  · refine ⟨_, i + 1, hi, he, ?_⟩
    rcases findFree_spec base size byIp' n c' with ⟨j, hj, he', hfree', hused'⟩ | ⟨-, hused'⟩
    · rw [hips, h j hj] at hfree'
      -- each scan stops at its first free slot
      rcases Nat.lt_trichotomy i j with hij | rfl | hij
      · exact absurd (by rw [hips, h i hi, hfree]) (hused' i hij)
      · rw [he', h i hi]
      · exact absurd hfree' (hused j hij)
    · exact absurd (by rw [hips, h i hi, hfree]) (hused' i hi)
  · refine ⟨none, n, Nat.le_refl n, he, ?_⟩
    rcases findFree_spec base size byIp' n c' with ⟨j, hj, -, hfree', -⟩ | ⟨he', -⟩
    · rw [hips, h j hj] at hfree'
      exact absurd hfree' (hused j hj)
    · exact he'

theorem lookup_erase_eq {K V : Type} [DecidableEq K] {f g : AList fun _ : K => V}
    (h : ∀ k, g.lookup k = f.lookup k) (k x : K) : (g.erase k).lookup x = (f.erase k).lookup x := by
  by_cases hx : x = k
  · rw [hx, AList.lookup_erase, AList.lookup_erase]
  · rw [AList.lookup_erase_ne hx, AList.lookup_erase_ne hx, h]

theorem lookup_insert_eq {K V : Type} [DecidableEq K] {f g : AList fun _ : K => V}
    (h : ∀ k, g.lookup k = f.lookup k) (k x : K) (v : V) :
    (g.insert k v).lookup x = (f.insert k v).lookup x := by
  by_cases hx : x = k
  · rw [hx, AList.lookup_insert, AList.lookup_insert]
  · rw [AList.lookup_insert_ne hx, AList.lookup_insert_ne hx, h]

theorem evict_cursor (size : U32) (inner : Inner) : (evict size inner).cursor = inner.cursor := by
  unfold evict
  split_ifs
  · split
    · rfl
    · split <;> rfl
  · rfl

namespace Twin

variable {pool pool' : FakeIpPool}

theorem aligned (h : Twin pool pool') :
    Aligned pool.size pool.inner.cursor pool'.inner.cursor := ⟨h.cursor_mod, h.cursor_le⟩

theorem length_keys (h : Twin pool pool') :
    pool'.inner.byDomain.keys.length = pool.inner.byDomain.keys.length := by
  have hperm : pool'.inner.byDomain.keys.Perm pool.inner.byDomain.keys := by
    rw [List.perm_ext_iff_of_nodup pool'.inner.byDomain.keys_nodup pool.inner.byDomain.keys_nodup]
    intro d
    rw [← AList.mem_keys, ← AList.mem_keys, ← AList.lookup_isSome, ← AList.lookup_isSome,
      h.byDomain]
  exact hperm.length_eq

theorem touched (h : Twin pool pool') (d : Str) :
    Twin { pool with inner := { pool.inner with order := touch pool.inner.order d } }
      { pool' with inner := { pool'.inner with order := touch pool'.inner.order d } } where
  base := h.base
  prefixLen := h.prefixLen
  size := h.size
  byDomain := h.byDomain
  byIp := h.byIp
  order := by
    dsimp only
    rw [h.order]
  cursor_mod := h.cursor_mod
  cursor_le := h.cursor_le

/-- Both pools evict the same domain. -/
theorem evicted (h : Twin pool pool') :
    Twin { pool with inner := evict pool.size pool.inner }
      { pool' with inner := evict pool'.size pool'.inner } := by
  unfold evict
  rw [h.size, h.length_keys, h.order]
  split_ifs with hfull
  · cases hord : pool.inner.order with
    | nil =>
      have horder : pool'.inner.order = pool.inner.order := h.order
      exact ⟨⟨h.base, h.prefixLen, rfl, h.byDomain, h.byIp, horder⟩, h.cursor_mod, h.cursor_le⟩
    | cons victim order =>
      dsimp only
      rw [h.byDomain]
      cases hv : pool.inner.byDomain.lookup victim with
      | none =>
        exact ⟨⟨h.base, h.prefixLen, rfl, h.byDomain, h.byIp, rfl⟩, h.cursor_mod, h.cursor_le⟩
      | some ip =>
        exact ⟨⟨h.base, h.prefixLen, rfl, lookup_erase_eq h.byDomain victim,
          lookup_erase_eq h.byIp ip, rfl⟩, h.cursor_mod, h.cursor_le⟩
  · exact ⟨⟨h.base, h.prefixLen, rfl, h.byDomain, h.byIp, h.order⟩, h.cursor_mod, h.cursor_le⟩

theorem lookupOrAlloc (h : Twin pool pool') {d : Str} (hr : Roomy pool (.lookupOrAlloc d)) :
    (pool'.lookupOrAlloc d).1 = (pool.lookupOrAlloc d).1 ∧
      Twin (pool.lookupOrAlloc d).2 (pool'.lookupOrAlloc d).2 := by
  unfold FakeIpPool.lookupOrAlloc FakeIpPool.lookupOrAllocFlagged
  by_cases hl : (utf8 d).length > 255
  · rw [if_pos hl, if_pos hl]
    exact ⟨rfl, h⟩
  rw [if_neg hl, if_neg hl, h.byDomain]
  cases hd : pool.inner.byDomain.lookup d with
  | some ip => exact ⟨rfl, h.touched d⟩
  | none =>
    have he := h.evicted
    have hw : Unwrapped pool.size (evict pool.size pool.inner).cursor := by
      rw [evict_cursor]
      exact hr ⟨by omega, hd⟩
    have hadd : ∀ i ≤ pool.size.toNat, Aligned pool.size
        ((evict pool.size pool.inner).cursor + BitVec.ofNat 32 i)
        ((evict pool'.size pool'.inner).cursor + BitVec.ofNat 32 i) :=
      fun i hi => he.aligned.add hw hi
    obtain ⟨found, i, hi, hscan, hscan'⟩ := findFree_aligned pool.base he.byIp pool.size.toNat
      (fun i hi => (hadd i (by omega)).candidate)
    dsimp only at hscan hscan' ⊢
    rw [h.size] at hscan' hadd he
    rw [h.base, h.size, hscan, hscan']
    dsimp only
    rw [(hadd i hi).candidate]
    refine ⟨rfl, ⟨rfl, h.prefixLen, rfl, ?_, ?_, ?_⟩, (hadd i hi).1, (hadd i hi).2⟩
    · exact fun x => lookup_insert_eq he.byDomain d x _
    · exact fun x => lookup_insert_eq he.byIp _ x d
    · exact congrArg (· ++ [d]) he.order

theorem reverse (h : Twin pool pool') (ip : IpAddr) :
    (pool'.reverse ip).1 = (pool.reverse ip).1 ∧ Twin (pool.reverse ip).2 (pool'.reverse ip).2 := by
  unfold FakeIpPool.reverse
  rw [h.byIp]
  cases pool.inner.byIp.lookup ip with
  | none => exact ⟨rfl, h⟩
  | some d => exact ⟨rfl, h.touched d⟩

theorem flushed (h : Twin pool pool') : Twin pool.flush pool'.flush where
  base := h.base
  prefixLen := h.prefixLen
  size := h.size
  byDomain _ := rfl
  byIp _ := rfl
  order := rfl
  cursor_mod := rfl
  cursor_le := Or.inl (Nat.le_refl _)

theorem call (h : Twin pool pool') {c : PoolCall} (hr : Roomy pool c) :
    (pool'.call c).1 = (pool.call c).1 ∧ Twin (pool.call c).2 (pool'.call c).2 := by
  cases c with
  | lookupOrAlloc d =>
    obtain ⟨hanswer, hnext⟩ := h.lookupOrAlloc hr
    exact ⟨congrArg PoolAnswer.address hanswer, hnext⟩
  | reverse ip =>
    obtain ⟨hanswer, hnext⟩ := h.reverse ip
    exact ⟨congrArg PoolAnswer.domain hanswer, hnext⟩
  | flush => exact ⟨rfl, h.flushed⟩

theorem answers (h : Twin pool pool') {calls : List PoolCall} (hr : RoomyRun pool calls) :
    pool'.answers calls = pool.answers calls := by
  induction calls generalizing pool pool' with
  | nil => rfl
  | cons c calls ih =>
    obtain ⟨hanswer, hnext⟩ := h.call hr.1
    have hrest : (pool'.call c).2.answers calls = (pool.call c).2.answers calls := ih hnext hr.2
    unfold FakeIpPool.answers
    rw [hanswer, hrest]

end Twin

/-! ## Addresses in range -/

/-- The sum that bounds `contains` does not wrap. -/
def TopFits (pool : FakeIpPool) : Prop := pool.base.toNat + 1 + pool.size.toNat < 2 ^ 32

theorem isSlot_contains {pool : FakeIpPool} (h : TopFits pool) {ip : IpAddr}
    (hip : IsSlot pool ip) : pool.contains ip = true := by
  unfold TopFits at h
  obtain ⟨k, hk, rfl⟩ := hip
  rw [contains_iff h]
  have hslot : IsSlot pool (.v4 (pool.base + 1 + BitVec.ofNat 32 k)) := ⟨k, hk, rfl⟩
  rw [isSlot_iff (by omega)] at hslot
  omega

/-- A pool whose range leaves room for the bound has only addresses that pass it. -/
def InRange (pool : FakeIpPool) : Prop := Sized pool ∧ (TopFits pool → Covered pool)

theorem covered_of_empty {pool : FakeIpPool} (h : pool.inner = Inner.empty) : Covered pool := by
  intro d ip hd
  simp [h, Inner.empty] at hd

theorem new_inRange {cidr : Str} {pool : FakeIpPool} (h : FakeIpPool.new cidr = .ok pool) :
    InRange pool :=
  ⟨(new_eq_ok h).2, fun _ => covered_of_empty (new_eq_ok h).1⟩

theorem InRange.lookupOrAlloc {pool : FakeIpPool} (h : InRange pool) (d : Str) :
    InRange (pool.lookupOrAlloc d).2 := by
  refine ⟨⟨by rw [lookup_size]; exact h.1.1, by rw [lookup_size]; exact h.1.2⟩, fun htop => ?_⟩
  have htop' : TopFits pool := by
    unfold TopFits at htop ⊢
    rwa [lookup_base, lookup_size] at htop
  have hcov := h.2 htop'
  have hcontains : (pool.lookupOrAlloc d).2.contains = pool.contains := by
    funext ip
    cases ip <;> simp only [FakeIpPool.contains, lookup_base, lookup_size]
  intro x ip hx
  rw [hcontains]
  rcases lookupOrAlloc_cases pool d with ⟨-, he⟩ | ⟨-, -, he⟩ | ⟨-, -, cursor, he⟩
  · rw [he] at hx
    exact hcov x ip hx
  · rw [he] at hx
    exact hcov x ip hx
  · rw [he] at hx
    dsimp only at hx
    by_cases hd : x = d
    · rw [hd, AList.lookup_insert, Option.some.injEq] at hx
      rw [← hx]
      exact isSlot_contains htop' (chosen_isSlot h.1.1)
    · rw [AList.lookup_insert_ne hd] at hx
      exact hcov x ip (lookup_evict hx)

theorem InRange.step {codec : StoreCodec} {path : Str} {s : Sys} (h : InRange s.pool) (op : Op) :
    InRange (step codec path s op).pool := by
  cases op with
  | lookupOrAlloc d => exact h.lookupOrAlloc d
  | reverse ip =>
    unfold Dns.step FakeIpPool.reverse
    dsimp only
    split
    · exact h
    · exact ⟨h.1, h.2⟩
  | flush => exact ⟨h.1, fun _ => covered_of_empty rfl⟩
  | persistTo => exact h
  | overwriteFile raw => exact h
  | loadFrom cidr =>
    unfold Dns.step
    dsimp only
    cases hl : FakeIpPool.loadFrom codec cidr path s.file with
    | error e => exact h
    | ok pool =>
      obtain ⟨fresh, hnew, rfl | ⟨inner, cursor, hloaded, -, rfl⟩⟩ := loadFrom_eq_ok hl
      · exact new_inRange hnew
      · refine ⟨(new_eq_ok hnew).2, fun _ d ip hd => ?_⟩
        have hback := (hloaded.inverse d ip).mp hd
        have hm : ip ∈ inner.byIp := AList.lookup_isSome.mp (by rw [hback]; rfl)
        exact hloaded.contains ip (AList.mem_keys.mp hm)

/-! ## The result -/

/-- The pool survives a restart: its own file loads, into the same map and order, and the
    reloaded pool answers every list of calls like the pool that kept running. -/
def Reloads (codec : StoreCodec) (cidr path : Str) (pool : FakeIpPool) : Prop :=
  ∃ pool', FakeIpPool.loadFrom codec cidr path (some (codec.encode pool.store)) = .ok pool' ∧
    SameMap pool pool' ∧
    ∀ calls, RoomyRun pool calls → pool'.answers calls = pool.answers calls

/-- Every pool of a run whose allocations end at free slots survives a restart, if the sum
    in `contains` fits. -/
theorem run_reloads (codec : StoreCodec) (cidr path : Str) (pool : FakeIpPool)
    (h : FakeIpPool.new cidr = .ok pool) (file : Option Bytes) (ops : List Op)
    (hsafe : ∀ p ∈ steps (step codec path) ⟨pool, file⟩ ops, SafeStep p.1 p.2)
    (s : Sys) (hs : s ∈ states (step codec path) ⟨pool, file⟩ ops) (htop : TopFits s.pool)
    (hcodec : codec.decode (codec.encode s.pool.store) = .ok s.pool.store) (cidr' : Str)
    (hrange : parseRange cidr' = .ok (s.pool.base, s.pool.prefixLen, s.pool.size)) :
    Reloads codec cidr' path s.pool := by
  have hcons : ConsistentRun codec path ⟨pool, file⟩ ops :=
    (consistentRun_iff (new_consistent h) (new_eq_ok h).2 ops).mpr hsafe
  have hin : InRange s.pool :=
    inv_of_step (fun s => InRange s.pool) (fun _ op hi => InRange.step hi op) (new_inRange h)
      ops s hs
  obtain ⟨pool', hload, hsame, hcursor⟩ :=
    loadFrom_store (hcons s hs) hin.1 (hin.2 htop) hcodec hrange
  refine ⟨pool', hload, hsame, ?_⟩
  intro calls hr
  have htwin : Twin s.pool pool' := by
    refine ⟨hsame, ?_, Or.inl ?_⟩
    · rw [hcursor, BitVec.toNat_umod, Nat.mod_mod]
    · rw [hcursor, BitVec.toNat_umod]
      exact Nat.mod_le _ _
  exact htwin.answers hr

/-- The JSON text of a store file whose texts need no escapes. -/
def storeText (file : StoreFile) : Str :=
  let pairText := fun m : Str × Str =>
    "[\"".toList ++ m.1 ++ "\",\"".toList ++ m.2 ++ "\"]".toList
  "\x7b\"version\":".toList ++ Str.decimal file.version.toNat ++ ",\"range\":\"".toList ++
    file.range ++ "\",\"next\":".toList ++ Str.decimal file.next.toNat ++
    ",\"mappings\":[".toList ++ Str.join ',' (file.mappings.map pairText) ++ "]\x7d".toList

/-- The codec at one store file: it writes the text and reads that text back. -/
def codecAt (file : StoreFile) : StoreCodec where
  encode file := utf8 (storeText file)
  decode raw := if raw = utf8 (storeText file) then .ok file else .error "corrupt"

theorem codecAt_faithful (file : StoreFile) :
    (codecAt file).decode ((codecAt file).encode file) = .ok file := by
  simp only [codecAt, if_true]

theorem run_reloads_small :
    let pool := (smallPool.lookupOrAlloc "a.b".toList).2
    Reloads (codecAt pool.store) "10.0.0.0/29".toList [] pool :=
  run_reloads (codecAt (smallPool.lookupOrAlloc "a.b".toList).2.store) "10.0.0.0/29".toList []
    smallPool new_smallPool none [.lookupOrAlloc "a.b".toList]
    (by
      intro p hp
      rw [steps, steps, List.mem_singleton] at hp
      rw [hp]
      exact fun ha => freshSlot_of_no_wrap (consistent_empty _ _ _) (by unfold Sized; decide)
        (Or.inl (by decide)))
    ⟨(smallPool.lookupOrAlloc "a.b".toList).2, none⟩ (foldl_mem_states _ _)
    (by unfold TopFits; decide) (codecAt_faithful _) "10.0.0.0/29".toList (by decide)

/-- `255.255.255.254/31` after one lookup. -/
def topPool : FakeIpPool :=
  ((⟨0xfffffffe, 31, 1, Inner.empty⟩ : FakeIpPool).lookupOrAlloc "a".toList).2

theorem top_not_reloaded :
    FakeIpPool.new "255.255.255.254/31".toList = .ok ⟨0xfffffffe, 31, 1, Inner.empty⟩ ∧
      topPool.inner.byDomain.lookup "a".toList = some (.v4 0xffffffff) ∧
      (codecAt topPool.store).decode ((codecAt topPool.store).encode topPool.store) =
        .ok topPool.store ∧
      ¬ Reloads (codecAt topPool.store) "255.255.255.254/31".toList [] topPool := by
  refine ⟨rfl, by decide, codecAt_faithful _, ?_⟩
  rintro ⟨pool', hload, -⟩
  have herror : (FakeIpPool.loadFrom (codecAt topPool.store) "255.255.255.254/31".toList []
      (some ((codecAt topPool.store).encode topPool.store))).toOption = none := by
    decide
  rw [hload] at herror
  simp [Except.toOption] at herror

end RustCrash.Dns
