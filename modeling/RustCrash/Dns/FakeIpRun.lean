import RustCrash.Lib.Machine
import RustCrash.Dns.FakeIpInv

/-
  Whole runs of the fake-IP pool. The pool stays consistent in every state of a run exactly when no
  allocation of the run falls back to a slot in use, in particular when no scan crosses the wrap of
  the cursor.

  The fallback does happen.
-/

namespace RustCrash.Dns

open Lib Lib.Machine

/-! ## One step -/

/-- What a step needs: an allocation ends at a free slot. -/
def SafeStep (s : Sys) : Op → Prop
  | .lookupOrAlloc d => Allocates s.pool d → FreshSlot s.pool
  | _ => True

/-- The scan of an allocation stays on one side of the wrap, or the wrap does not matter. -/
def NoWrap (s : Sys) : Op → Prop
  | .lookupOrAlloc d => Allocates s.pool d →
      s.pool.inner.cursor.toNat + s.pool.size.toNat ≤ 2 ^ 32 ∨ s.pool.size.toNat ∣ 2 ^ 32
  | _ => True

theorem lookup_size (pool : FakeIpPool) (d : Str) : (pool.lookupOrAlloc d).2.size = pool.size := by
  rcases lookupOrAlloc_cases pool d with ⟨-, he⟩ | ⟨-, -, he⟩ | ⟨-, -, _, he⟩ <;> rw [he]

theorem lookup_base (pool : FakeIpPool) (d : Str) : (pool.lookupOrAlloc d).2.base = pool.base := by
  rcases lookupOrAlloc_cases pool d with ⟨-, he⟩ | ⟨-, -, he⟩ | ⟨-, -, _, he⟩ <;> rw [he]

theorem reverse_size (pool : FakeIpPool) (ip : IpAddr) : (pool.reverse ip).2.size = pool.size := by
  unfold FakeIpPool.reverse
  split <;> rfl

theorem step_sized (codec : StoreCodec) (path : Str) (s : Sys) (op : Op) (hs : Sized s.pool) :
    Sized (step codec path s op).pool := by
  cases op with
  | lookupOrAlloc d =>
    unfold Sized step
    rw [lookup_size]
    exact hs
  | reverse ip =>
    unfold Sized step
    rw [reverse_size]
    exact hs
  | flush => exact hs
  | persistTo => exact hs
  | overwriteFile raw => exact hs
  | loadFrom cidr =>
    unfold step
    dsimp only
    cases hl : FakeIpPool.loadFrom codec cidr path s.file with
    | ok pool => exact (loadFrom_consistent hl).2
    | error e => exact hs

/-- One operation keeps the pool consistent exactly when it is safe. -/
theorem step_consistent_iff (codec : StoreCodec) (path : Str) (s : Sys) (op : Op)
    (hc : Consistent s.pool) (hs : Sized s.pool) :
    Consistent (step codec path s op).pool ↔ SafeStep s op := by
  cases op with
  | lookupOrAlloc d =>
    unfold SafeStep step
    by_cases ha : Allocates s.pool d
    · have := alloc_consistent_iff hc hs ha
      exact ⟨fun hx _ => this.mp hx, fun hf => this.mpr (hf ha)⟩
    · have := lookup_consistent_of_not_allocates hc ha
      exact ⟨fun _ hx => absurd hx ha, fun _ => this⟩
  | reverse ip => exact ⟨fun _ => trivial, fun _ => reverse_consistent hc ip⟩
  | flush => exact ⟨fun _ => trivial, fun _ => flush_consistent s.pool⟩
  | persistTo => exact ⟨fun _ => trivial, fun _ => hc⟩
  | overwriteFile raw => exact ⟨fun _ => trivial, fun _ => hc⟩
  | loadFrom cidr =>
    refine ⟨fun _ => trivial, fun _ => ?_⟩
    unfold step
    dsimp only
    cases hl : FakeIpPool.loadFrom codec cidr path s.file with
    | ok pool => exact (loadFrom_consistent hl).1
    | error e => exact hc

theorem safeStep_of_noWrap {s : Sys} (h : Consistent s.pool ∧ Sized s.pool) {op : Op}
    (hw : NoWrap s op) : SafeStep s op := by
  cases op with
  | lookupOrAlloc d => exact fun ha => freshSlot_of_no_wrap h.1 h.2 (hw ha)
  | _ => trivial

/-! ## Whole runs -/

/-- The pool is consistent in every state of a run. -/
def ConsistentRun (codec : StoreCodec) (path : Str) (s : Sys) (ops : List Op) : Prop :=
  ∀ t ∈ states (step codec path) s ops, Consistent t.pool

variable {codec : StoreCodec} {n : Nat} {pool : FakeIpPool}

theorem sized_run {path : Str} {s : Sys} (hs : Sized s.pool) (ops : List Op) :
    ∀ t ∈ states (step codec path) s ops, Sized t.pool :=
  inv_of_good (fun s => Sized s.pool) (fun _ _ => True)
    (fun s op h _ => step_sized codec path s op h) hs (fun _ _ => trivial)

theorem consistentRun_iff {path : Str} {s : Sys} (hc : Consistent s.pool) (hs : Sized s.pool)
    (ops : List Op) :
    ConsistentRun codec path s ops ↔ ∀ p ∈ steps (step codec path) s ops, SafeStep p.1 p.2 := by
  have hstep : ∀ s op, Consistent s.pool ∧ Sized s.pool →
      (Consistent (step codec path s op).pool ∧ Sized (step codec path s op).pool ↔
        SafeStep s op) := by
    intro s op h
    rw [step_consistent_iff codec path s op h.1 h.2]
    exact and_iff_left (step_sized codec path s op h.2)
  rw [← inv_iff (fun s => Consistent s.pool ∧ Sized s.pool) SafeStep hstep ⟨hc, hs⟩ ops]
  have hsz : ∀ t ∈ states (step codec path) s ops, Sized t.pool := sized_run hs ops
  exact ⟨fun h t ht => ⟨h t ht, hsz t ht⟩, fun h t ht => (h t ht).1⟩

theorem consistentRun_of_noWrap {path : Str} {s : Sys} (hc : Consistent s.pool) (hs : Sized s.pool)
    {ops : List Op} (hw : ∀ p ∈ steps (step codec path) s ops, NoWrap p.1 p.2) :
    ConsistentRun codec path s ops := by
  have hstep : ∀ s op, Consistent s.pool ∧ Sized s.pool → NoWrap s op →
      Consistent (step codec path s op).pool ∧ Sized (step codec path s op).pool := by
    intro s op h hg
    exact ⟨(step_consistent_iff codec path s op h.1 h.2).mpr (safeStep_of_noWrap h hg),
      step_sized codec path s op h.2⟩
  intro t ht
  exact (inv_of_good _ NoWrap hstep ⟨hc, hs⟩ hw t ht).1

/-! ## Filling a small pool in turn -/

/-- Seven names, used in turn. -/
def nameOf (n : Nat) : Str := [Char.ofNat (97 + n % 7)]

/-- Look up the names of `0 … n - 1`. -/
def lookups (n : Nat) : List Op := (List.range n).map fun i => .lookupOrAlloc (nameOf i)

def smallPool : FakeIpPool := ⟨0x0a000000, 29, 6, Inner.empty⟩

theorem new_smallPool : FakeIpPool.new "10.0.0.0/29".toList = .ok smallPool := by
  rfl

theorem nameOf_inj {i j : Nat} : nameOf i = nameOf j ↔ i % 7 = j % 7 := by
  have hsmall : ∀ a < 7, ∀ b < 7,
      ([Char.ofNat (97 + a)] : Str) = [Char.ofNat (97 + b)] → a = b := by decide
  constructor
  · exact hsmall _ (Nat.mod_lt _ (by decide)) _ (Nat.mod_lt _ (by decide))
  · intro h
    unfold nameOf
    rw [h]

theorem length_utf8_nameOf (n : Nat) : (utf8 (nameOf n)).length = 1 := by
  have hsmall : ∀ a < 7, (utf8 [Char.ofNat (97 + a)]).length = 1 := by decide
  exact hsmall _ (Nat.mod_lt _ (by decide))

/-- The slot of the `n`-th allocation. -/
def slotOf (n : Nat) : IpAddr := candidate 0x0a000000 6 (BitVec.ofNat 32 n)

theorem slotOf_eq_iff {i j : Nat} : slotOf i = slotOf j ↔ i % 2 ^ 32 % 6 = j % 2 ^ 32 % 6 := by
  unfold slotOf candidate
  rw [IpAddr.v4.injEq, BitVec.add_right_inj, ← BitVec.toNat_inj]
  simp

/-- The domains, slots and LRU list of the `m` lookups before the `n`-th. -/
structure Recent (m n : Nat) (inner : Inner) : Prop where
  cursor : inner.cursor = BitVec.ofNat 32 n
  order : inner.order = (List.range' (n - m) (n - (n - m))).map nameOf
  slots : ∀ i, n - m ≤ i → i < n → inner.byDomain.lookup (nameOf i) = some (slotOf i)

/-- A small pool after `n` lookups in turn: the last six names hold the last six slots. -/
structure Fifo (n : Nat) (pool : FakeIpPool) : Prop extends Recent 6 n pool.inner where
  base : pool.base = 0x0a000000
  size : pool.size = 6
  consistent : Consistent pool

theorem Fifo.sized (h : Fifo n pool) : Sized pool := by
  unfold Sized
  rw [h.size]
  decide

theorem fifo_zero : Fifo 0 smallPool where
  cursor := rfl
  order := rfl
  slots i _ hi := absurd hi (Nat.not_lt_zero i)
  base := rfl
  size := rfl
  consistent := consistent_empty _ _ _

theorem mem_recent {m n : Nat} {inner : Inner} (h : Recent m n inner) {d : Str}
    (hd : d ∈ inner.order) : ∃ i, n - m ≤ i ∧ i < n ∧ d = nameOf i := by
  rw [h.order, List.mem_map] at hd
  obtain ⟨i, hi, rfl⟩ := hd
  rw [List.mem_range'_1] at hi
  exact ⟨i, hi.1, by omega, rfl⟩

theorem Fifo.allocates (h : Fifo n pool) : Allocates pool (nameOf n) := by
  refine ⟨by rw [length_utf8_nameOf]; omega, AList.lookup_eq_none.mpr fun hm => ?_⟩
  obtain ⟨i, hlo, hhi, he⟩ := mem_recent h.toRecent ((h.consistent.mem_order _).mpr hm)
  rw [nameOf_inj] at he
  omega

/-- Eviction leaves the last five. -/
theorem Fifo.after_evict (h : Fifo n pool) : Recent 5 n (evict pool.size pool.inner) := by
  have hlen := length_order h.consistent
  rw [h.order, List.length_map, List.length_range'] at hlen
  have hsize : pool.size.toNat = 6 := by rw [h.size]; rfl
  rcases evict_cases h.consistent h.sized with ⟨hroom, he⟩ | ⟨hfull, victim, order, ip, ho, -, he⟩
  · rw [he]
    have hn : n - 6 = n - 5 := by omega
    refine ⟨h.cursor, ?_, ?_⟩
    · rw [h.order, hn]
    · rw [← hn]
      exact h.slots
  · rw [he]
    have hcons : List.range' (n - 6) (n - (n - 6)) =
        (n - 6) :: List.range' (n - 5) (n - (n - 5)) := by
      rw [show n - (n - 6) = (n - (n - 5)) + 1 by omega, List.range'_succ,
        show n - 6 + 1 = n - 5 by omega]
    have horder := h.order
    rw [ho, hcons, List.map_cons, List.cons.injEq] at horder
    refine ⟨h.cursor, horder.2, ?_⟩
    intro i hlo hhi
    have hne : nameOf i ≠ victim := by
      rw [horder.1, Ne, nameOf_inj]
      omega
    rw [AList.lookup_erase_ne hne]
    exact h.slots i (by omega) hhi

/-- The slot of the next lookup is then free. -/
theorem Fifo.next_free (h : Fifo n pool) (hn : n < 2 ^ 32) :
    (evict pool.size pool.inner).byIp.lookup (slotOf n) = none := by
  obtain ⟨hc, -, -⟩ := evict_consistent h.consistent h.sized
  cases hb : (evict pool.size pool.inner).byIp.lookup (slotOf n) with
  | none => rfl
  | some d =>
    have hd := (hc.inverse d (slotOf n)).mpr hb
    have hm : d ∈ (evict pool.size pool.inner).order :=
      (hc.mem_order d).mpr (AList.lookup_isSome.mp (by dsimp only at hd; rw [hd]; rfl))
    obtain ⟨i, hlo, hhi, rfl⟩ := mem_recent h.after_evict hm
    have hs := h.after_evict.slots i hlo hhi
    dsimp only at hd
    rw [hs, Option.some.injEq, slotOf_eq_iff, Nat.mod_eq_of_lt hn,
      Nat.mod_eq_of_lt (hhi.trans hn)] at hd
    omega

/-- An allocation whose first candidate is free takes it. -/
theorem lookup_at_cursor {d : Str} (ha : Allocates pool d) (hs : Sized pool)
    (hfree : (evict pool.size pool.inner).byIp.lookup
      (candidate pool.base pool.size (evict pool.size pool.inner).cursor) = none) :
    (pool.lookupOrAlloc d).2.inner =
      { cursor := (evict pool.size pool.inner).cursor + 1
        byDomain := (evict pool.size pool.inner).byDomain.insert d
          (candidate pool.base pool.size (evict pool.size pool.inner).cursor)
        byIp := (evict pool.size pool.inner).byIp.insert
          (candidate pool.base pool.size (evict pool.size pool.inner).cursor) d
        order := (evict pool.size pool.inner).order ++ [d] } := by
  obtain ⟨k, hk⟩ : ∃ k, pool.size.toNat = k + 1 := ⟨pool.size.toNat - 1, by have := hs.1; omega⟩
  unfold FakeIpPool.lookupOrAlloc FakeIpPool.lookupOrAllocFlagged
  rw [if_neg (by have := ha.1; omega), ha.2]
  dsimp only
  rw [hk]
  unfold findFree
  simp [hfree]

theorem fifo_step (h : Fifo n pool) (hn : n < 2 ^ 32) :
    Fifo (n + 1) (pool.lookupOrAlloc (nameOf n)).2 := by
  have hslot : candidate pool.base pool.size (evict pool.size pool.inner).cursor = slotOf n := by
    rw [h.after_evict.cursor, h.base, h.size]
    rfl
  have hfree := h.next_free hn
  have hinner := lookup_at_cursor h.allocates h.sized (by rw [hslot]; exact hfree)
  rw [hslot] at hinner
  have hfresh : FreshSlot pool := by
    refine ⟨0, Nat.zero_le _, ?_⟩
    rw [show (evict pool.size pool.inner).cursor + BitVec.ofNat 32 0 =
      (evict pool.size pool.inner).cursor by simp, hslot]
    exact hfree
  constructor
  · constructor
    · rw [hinner, BitVec.ofNat_add]
      dsimp only
      rw [h.after_evict.cursor]
      rfl
    · rw [hinner]
      dsimp only
      rw [h.after_evict.order, show n + 1 - 6 = n - 5 by omega,
        show n + 1 - (n - 5) = (n - (n - 5)) + 1 by omega, List.range'_concat, List.map_append,
        show n - 5 + 1 * (n - (n - 5)) = n by omega]
      rfl
    · intro i hlo hhi
      rw [hinner]
      dsimp only
      rcases Nat.lt_or_eq_of_le (Nat.lt_succ_iff.mp hhi) with hlt | rfl
      · have hne : nameOf i ≠ nameOf n := by
          rw [Ne, nameOf_inj]
          omega
        rw [AList.lookup_insert_ne hne]
        exact h.after_evict.slots i (by omega) hlt
      · rw [AList.lookup_insert]
  · rw [lookup_base]
    exact h.base
  · rw [lookup_size]
    exact h.size
  · exact (alloc_consistent_iff h.consistent h.sized h.allocates).mpr hfresh

theorem fifo_run (codec : StoreCodec) (path : Str) (hn : n < 2 ^ 32) :
    Fifo n (run codec path ⟨smallPool, none⟩ (lookups n)).pool := by
  induction n with
  | zero => exact fifo_zero
  | succ n ih =>
    have h := fifo_step (ih (by omega)) (by omega : n < 2 ^ 32)
    unfold run lookups at h ⊢
    rw [List.range_succ, List.map_append, List.foldl_append]
    exact h

/-! ## Overwriting a slot across the wrap -/

def FakeIpPool.withOrder (pool : FakeIpPool) (order : List Str) : FakeIpPool :=
  { pool with inner := { pool.inner with order := order } }

theorem Consistent.withOrder (h : Consistent pool) {order : List Str}
    (hp : order.Perm pool.inner.order) : Consistent (pool.withOrder order) where
  inverse := h.inverse
  nodup_order := hp.nodup_iff.mpr h.nodup_order
  mem_order d := (hp.mem_iff).trans (h.mem_order d)
  len_le := h.len_le

/-- Looking up the oldest name again moves it to the back. -/
theorem lookup_front {i : Nat} {order : List Str} {ip : IpAddr}
    (hd : pool.inner.byDomain.lookup (nameOf i) = some ip) :
    ((pool.withOrder (nameOf i :: order)).lookupOrAlloc (nameOf i)).2 =
      pool.withOrder (order ++ [nameOf i]) := by
  have ht : touch (nameOf i :: order) (nameOf i) = order ++ [nameOf i] := by simp [touch]
  unfold FakeIpPool.lookupOrAlloc FakeIpPool.lookupOrAllocFlagged
  rw [if_neg (by rw [length_utf8_nameOf]; omega)]
  unfold FakeIpPool.withOrder
  dsimp only
  rw [hd]
  dsimp only
  rw [ht]

/-- The LRU list after the three oldest names have been used again. -/
def rotated (n : Nat) : List Str :=
  [nameOf (n - 3), nameOf (n - 2), nameOf (n - 1), nameOf (n - 6), nameOf (n - 5), nameOf (n - 4)]

theorem Fifo.order_eq (h : Fifo n pool) (hn : 6 ≤ n) :
    pool.inner.order = [nameOf (n - 6), nameOf (n - 5), nameOf (n - 4), nameOf (n - 3),
      nameOf (n - 2), nameOf (n - 1)] := by
  rw [h.order, show n - (n - 6) = 6 by omega]
  simp only [List.range', List.map_cons, List.map_nil]
  rw [show n - 6 + 1 = n - 5 by omega, show n - 5 + 1 = n - 4 by omega,
    show n - 4 + 1 = n - 3 by omega, show n - 3 + 1 = n - 2 by omega,
    show n - 2 + 1 = n - 1 by omega]

theorem Fifo.rotate (h : Fifo n pool) (hn : 6 ≤ n) :
    (((pool.lookupOrAlloc (nameOf (n - 6))).2.lookupOrAlloc (nameOf (n - 5))).2.lookupOrAlloc
      (nameOf (n - 4))).2 = pool.withOrder (rotated n) := by
  have hpool : pool = pool.withOrder [nameOf (n - 6), nameOf (n - 5), nameOf (n - 4),
      nameOf (n - 3), nameOf (n - 2), nameOf (n - 1)] := by
    rw [← h.order_eq hn]
    rfl
  rw [hpool, lookup_front (h.slots (n - 6) (by omega) (by omega)), List.cons_append,
    lookup_front (h.slots (n - 5) (by omega) (by omega)), List.cons_append,
    List.cons_append, lookup_front (h.slots (n - 4) (by omega) (by omega))]
  rfl

theorem Fifo.rotated_consistent (h : Fifo n pool) (hn : 6 ≤ n) :
    Consistent (pool.withOrder (rotated n)) := by
  refine h.consistent.withOrder ?_
  rw [h.order_eq hn]
  exact @List.perm_append_comm _ [nameOf (n - 3), nameOf (n - 2), nameOf (n - 1)]
    [nameOf (n - 6), nameOf (n - 5), nameOf (n - 4)]

theorem slot_ne_victim {n i : Nat} (hn : n = 2 ^ 32 - 2) (hlo : n - 6 ≤ i) (hhi : i < n)
    (hne : i ≠ n - 3) : slotOf i ≠ slotOf (n - 3) := by
  rw [Ne, slotOf_eq_iff, Nat.mod_eq_of_lt (by omega : i < 2 ^ 32),
    Nat.mod_eq_of_lt (by omega : n - 3 < 2 ^ 32)]
  omega

/-- The slots of the cursor values from `2 ^ 32 - 2` on, by an earlier lookup that took them. -/
theorem slot_across_wrap {n i : Nat} (hn : n = 2 ^ 32 - 2) (hi : i ≤ 6) :
    ∃ j, n - 6 ≤ j ∧ j < n ∧ j ≠ n - 3 ∧ slotOf (n + i) = slotOf j := by
  simp only [slotOf_eq_iff]
  rw [hn]
  interval_cases i
  · exact ⟨2 ^ 32 - 8, by norm_num⟩
  · exact ⟨2 ^ 32 - 7, by norm_num⟩
  · exact ⟨2 ^ 32 - 4, by norm_num⟩
  · exact ⟨2 ^ 32 - 3, by norm_num⟩
  · exact ⟨2 ^ 32 - 8, by norm_num⟩
  · exact ⟨2 ^ 32 - 7, by norm_num⟩
  · exact ⟨2 ^ 32 - 6, by norm_num⟩

/-- At the wrap the scan then meets the slots 2, 3, 0, 1, 2, 3 and 4, all in use. -/
theorem Fifo.not_freshSlot (h : Fifo n pool) (hn : n = 2 ^ 32 - 2) :
    ¬ FreshSlot (pool.withOrder (rotated n)) := by
  have hc := h.rotated_consistent (by omega)
  have hsized : Sized (pool.withOrder (rotated n)) := h.sized
  have hsize : pool.size.toNat = 6 := by rw [h.size]; rfl
  have hlen := length_order hc
  -- the victim is the domain in slot 5
  have hevict : evict pool.size (pool.withOrder (rotated n)).inner =
      { (pool.withOrder (rotated n)).inner with
        byDomain := pool.inner.byDomain.erase (nameOf (n - 3))
        byIp := pool.inner.byIp.erase (slotOf (n - 3))
        order := (rotated n).tail } := by
    rcases evict_cases hc hsized with ⟨hroom, -⟩ | ⟨-, victim, order, ip, ho, hv, he⟩
    · rw [← hlen] at hroom
      exact absurd hroom (by show ¬ 6 < pool.size.toNat; omega)
    · obtain ⟨rfl, rfl⟩ : nameOf (n - 3) = victim ∧ (rotated n).tail = order :=
        List.cons.inj ho
      have hslot : some (slotOf (n - 3)) = some ip :=
        (h.slots (n - 3) (by omega) (by omega)).symm.trans hv
      rw [Option.some.inj hslot]
      exact he
  -- a slot of another live name is in use
  have hused : ∀ i, n - 6 ≤ i → i < n → i ≠ n - 3 →
      (pool.inner.byIp.erase (slotOf (n - 3))).lookup (slotOf i) ≠ none := by
    intro i hlo hhi hne
    rw [AList.lookup_erase_ne (slot_ne_victim hn hlo hhi hne), (h.consistent.inverse _ _).mp (h.slots i hlo hhi)]
    simp
  rintro ⟨i, hi, hfree⟩
  have hcand : candidate pool.base pool.size
      (BitVec.ofNat 32 n + BitVec.ofNat 32 i) = slotOf (n + i) := by
    rw [h.base, h.size, ← BitVec.ofNat_add]
    rfl
  change (evict pool.size (pool.withOrder (rotated n)).inner).byIp.lookup
    (candidate pool.base pool.size
      ((evict pool.size (pool.withOrder (rotated n)).inner).cursor + BitVec.ofNat 32 i)) = none
    at hfree
  rw [hevict] at hfree
  change (pool.inner.byIp.erase (slotOf (n - 3))).lookup (candidate pool.base pool.size
    (pool.inner.cursor + BitVec.ofNat 32 i)) = none at hfree
  rw [h.cursor, hcand] at hfree
  obtain ⟨j, hlo, hhi, hne, he⟩ := slot_across_wrap hn (hsize ▸ hi : i ≤ 6)
  rw [he] at hfree
  exact hused j hlo hhi hne hfree

/-- Fill up to the wrap, use the three oldest names again, then look up one more. -/
def overwriteOps (n : Nat) : List Op :=
  lookups n ++ [.lookupOrAlloc (nameOf (n - 6)), .lookupOrAlloc (nameOf (n - 5)),
    .lookupOrAlloc (nameOf (n - 4)), .lookupOrAlloc (nameOf n)]

theorem not_consistent_overwrite (codec : StoreCodec) (path : Str) (hn : n = 2 ^ 32 - 2) :
    ¬ Consistent (run codec path ⟨smallPool, none⟩ (overwriteOps n)).pool := by
  have h := fifo_run codec path (by omega : n < 2 ^ 32)
  have hrun : (run codec path ⟨smallPool, none⟩ (overwriteOps n)).pool =
      (((run codec path ⟨smallPool, none⟩ (lookups n)).pool.withOrder (rotated n)).lookupOrAlloc
        (nameOf n)).2 := by
    rw [← h.rotate (by omega)]
    unfold run overwriteOps
    rw [List.foldl_append]
    simp only [List.foldl_cons, List.foldl_nil, step]
  rw [hrun, alloc_consistent_iff (h.rotated_consistent (by omega)) h.sized h.allocates]
  exact h.not_freshSlot hn

/-! ## The result -/

/-- The maps of a pool stay inverses, the LRU list stays their key list and the pool stays
    within its size, over every run from a new pool, exactly when every allocation of the run
    ends at a free slot. Runs that never scan across the wrap of the cursor qualify. -/
theorem pool_bijection (codec : StoreCodec) (cidr path : Str) (pool : FakeIpPool)
    (h : FakeIpPool.new cidr = .ok pool) (file : Option Bytes) (ops : List Op) :
    (ConsistentRun codec path ⟨pool, file⟩ ops ↔
      ∀ p ∈ steps (step codec path) ⟨pool, file⟩ ops, SafeStep p.1 p.2) ∧
    ((∀ p ∈ steps (step codec path) ⟨pool, file⟩ ops, NoWrap p.1 p.2) →
      ConsistentRun codec path ⟨pool, file⟩ ops) :=
  ⟨consistentRun_iff (new_consistent h) (new_eq_ok h).2 ops,
    consistentRun_of_noWrap (new_consistent h) (new_eq_ok h).2⟩

/-- A codec that is never asked. -/
def noCodec : StoreCodec := ⟨fun _ => [], fun _ => .error ""⟩

theorem pool_bijection_short_run : ConsistentRun noCodec [] ⟨smallPool, none⟩
    [.lookupOrAlloc "a.b".toList, .reverse (slotOf 0), .persistTo, .flush] :=
  (pool_bijection noCodec "10.0.0.0/29".toList [] smallPool new_smallPool none _).2 (by
    intro p hp
    simp only [steps, List.mem_cons, List.not_mem_nil, or_false] at hp
    rcases hp with rfl | rfl | rfl | rfl
    · exact fun _ => Or.inl (by decide)
    · trivial
    · trivial
    · trivial)

/-- Across the wrap a live domain loses its slot to another. -/
theorem overwrite_inconsistent : FakeIpPool.new "10.0.0.0/29".toList = .ok smallPool ∧
    ¬ ConsistentRun noCodec [] ⟨smallPool, none⟩ (overwriteOps (2 ^ 32 - 2)) :=
  ⟨new_smallPool, fun h => not_consistent_overwrite noCodec [] rfl
    (h _ (foldl_mem_states _ _))⟩

end RustCrash.Dns
