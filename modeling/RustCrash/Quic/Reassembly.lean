import RustCrash.Quic.Hy2Connection

/-
  UDP reassembly on the two QUIC servers, over every sequence of datagrams of a connection.

  A set stays in the table when its packet has been delivered, with no slot left. The next
  fragment of it is out of bounds, a panic of the connection's task; so is none other
  (`reassembly_when_spared`). Assembled sets also count towards the 64 a table may hold.
-/

namespace RustCrash.Quic

open Lib Routing Proto

namespace TuicServer

/-- The items of a sequence of datagrams. -/
abbrev items (dgs : List Bytes) := dgs.map item

/-- No fragment comes for a set that is assembled and still in the table. -/
def Spared (dgs : List Bytes) : Prop :=
  FragSets.NeverToAssembled maxFragSets none keepAddr ∅ (items dgs)

/-- What is delivered with a fragment is made of the fragments received so far for its session,
    packet id and total, in their order. -/
def Exact (dgs : List Bytes) (outs : List (Option TuicDelivery)) : Prop :=
  ∀ i f emit d, (items dgs)[i]? = some (.fragment f emit) → outs[i]? = some (some d) →
    d.sessionId = f.key.1 ∧
      FragSets.WholeOf (FragSets.fragments ((items dgs).take (i + 1))) f.key f.total d.data

/-- A packet `ds` for `target` is delivered when its fragments come in, `first` being one that
    carries the address, with its session and packet id used for nothing else meanwhile and
    less than 64 sets in the table. -/
def DeliversWhole (sets : Frags) (dgs : List Bytes) (outs : List (Option TuicDelivery)) : Prop :=
  ∀ (key : UInt16 × UInt16) (ds : List Bytes) (target : NetAddr) (first : Nat),
    first < ds.length → (∀ s, sets.lookup key = some s → s.total ≠ ds.length) →
    (∀ f ∈ FragSets.fragments (items dgs), f.key = key →
      f.total = ds.length ∧ ds[f.fragId]? = some f.data ∧ (f.head = none ∨ f.head = some target) ∧
        (f.fragId = first → f.head = some target)) →
    (∀ i < ds.length, ∃ f ∈ FragSets.fragments (items dgs), f.key = key ∧ f.fragId = i) →
    FragSets.Roomy maxFragSets none keepAddr sets (items dgs) →
    some ⟨key.1, target, ds.flatten⟩ ∈ outs

theorem run_isSome_iff (dgs : List Bytes) : (handleDatagrams ∅ dgs).isSome ↔ Spared dgs := by
  rw [handleDatagrams_eq]
  exact FragSets.run_isSome_iff (FragSets.holds_empty []) (items dgs)

theorem run_exact {dgs : List Bytes} {t : Frags} {outs : List (Option TuicDelivery)}
    (h : handleDatagrams ∅ dgs = some (t, outs)) : Exact dgs outs := by
  intro i f emit d hi ho
  rw [handleDatagrams_eq] at h
  obtain ⟨head, data, hw, he⟩ := FragSets.run_exact (FragSets.holds_empty []) h hi ho
  obtain ⟨dg, -, hdg⟩ := List.mem_map.mp (List.mem_of_getElem? hi)
  rw [emit_of_item hdg] at he
  obtain ⟨target, -, rfl⟩ := Option.map_eq_some_iff.mp he
  exact ⟨rfl, by simpa using hw⟩

/-- The first address of several that are missing or `target`. -/
theorem foldl_keepAddr {target : NetAddr} {addrs : List (Option NetAddr)}
    (h : ∀ a ∈ addrs, a = none ∨ a = some target) (hmem : some target ∈ addrs) :
    addrs.foldl keepAddr none = some target := by
  have keep : ∀ l : List (Option NetAddr), l.foldl keepAddr (some target) = some target := by
    intro l
    induction l with
    | nil => rfl
    | cons a l ih => exact ih
  induction addrs with
  | nil => cases hmem
  | cons a addrs ih =>
    rcases h a List.mem_cons_self with rfl | rfl
    · refine ih (fun b hb => h b (List.mem_cons_of_mem _ hb)) ?_
      simpa using hmem
    · exact keep addrs

theorem run_whole {sets t : Frags} {dgs : List Bytes} {outs : List (Option TuicDelivery)}
    (hr : handleDatagrams sets dgs = some (t, outs)) : DeliversWhole sets dgs outs := by
  intro key ds target first hfirst hfresh hown hall hroom
  rw [handleDatagrams_eq] at hr
  obtain ⟨n, f, emit, hn, hk, hcov, ho⟩ := @FragSets.run_whole (UInt16 × UInt16) _ _ _ _ _
    _ _ _ _ _ _ _ ds ([] : List (Fragment (UInt16 × UInt16) (Option NetAddr) UInt8)) key
    (Or.inl ⟨hfresh, rfl⟩) ⟨first, hfirst, List.not_mem_nil⟩
    (fun f hf hk => ⟨(hown f hf hk).1, (hown f hf hk).2.1⟩)
    (fun i hi => by
      obtain ⟨f, hf, hk, hid⟩ := hall i hi
      exact List.mem_map.mpr ⟨f, List.mem_filter.mpr ⟨hf, by simpa using hk⟩, hid⟩) hroom hr
  rw [List.nil_append] at hcov ho
  obtain ⟨dg, -, hdg⟩ := List.mem_map.mp (List.mem_of_getElem? hn)
  have hsub : ∀ g ∈ FragSets.ofKey key (FragSets.fragments ((items dgs).take (n + 1))),
      g ∈ FragSets.fragments (items dgs) ∧ g.key = key := by
    intro g hg
    obtain ⟨hmem, hkey⟩ := List.mem_filter.mp hg
    exact ⟨FragSets.mem_of_mem_take hmem, by simpa using hkey⟩
  have hhead : ((FragSets.ofKey key (FragSets.fragments ((items dgs).take (n + 1)))).map
      (·.head)).foldl keepAddr none = some target := by
    refine foldl_keepAddr ?_ ?_
    · intro a ha
      obtain ⟨g, hg, rfl⟩ := List.mem_map.mp ha
      exact (hown g (hsub g hg).1 (hsub g hg).2).2.2.1
    · obtain ⟨g, hg, hid⟩ := List.mem_map.mp (hcov first hfirst)
      exact List.mem_map.mpr ⟨g, hg, (hown g (hsub g hg).1 (hsub g hg).2).2.2.2 hid⟩
  rw [hhead, emit_of_item hdg, hk] at ho
  exact List.mem_of_getElem? ho

end TuicServer

namespace Hy2Server

abbrev items (dgs : List (Bool × Bytes)) := dgs.map item

/-- No fragment comes for a set that is assembled and still in the table. -/
def Spared (dgs : List (Bool × Bytes)) : Prop :=
  FragSets.NeverToAssembled maxFragSets () keepNothing ∅ (items dgs)

def Exact (dgs : List (Bool × Bytes)) (outs : List (Option Hy2Delivery)) : Prop :=
  ∀ i f emit d, (items dgs)[i]? = some (.fragment f emit) → outs[i]? = some (some d) →
    d.sessionId = f.key.1 ∧
      FragSets.WholeOf (FragSets.fragments ((items dgs).take (i + 1))) f.key f.total d.data

def DeliversWhole (sets : Frags) (dgs : List (Bool × Bytes))
    (outs : List (Option Hy2Delivery)) : Prop :=
  ∀ (key : UInt32 × UInt16) (ds : List Bytes) (target : NetAddr),
    0 < ds.length → (∀ s, sets.lookup key = some s → s.total ≠ ds.length) →
    (∀ f ∈ FragSets.fragments (items dgs), f.key = key →
      f.total = ds.length ∧ ds[f.fragId]? = some f.data ∧ f.head = target) →
    (∀ i < ds.length, ∃ f ∈ FragSets.fragments (items dgs), f.key = key ∧ f.fragId = i) →
    FragSets.Roomy maxFragSets () keepNothing sets (items dgs) →
    some ⟨key.1, target, ds.flatten⟩ ∈ outs

theorem run_isSome_iff (dgs : List (Bool × Bytes)) :
    (handleDatagrams ∅ dgs).isSome ↔ Spared dgs := by
  rw [handleDatagrams_eq]
  exact FragSets.run_isSome_iff (FragSets.holds_empty []) (items dgs)

theorem run_exact {dgs : List (Bool × Bytes)} {t : Frags} {outs : List (Option Hy2Delivery)}
    (h : handleDatagrams ∅ dgs = some (t, outs)) : Exact dgs outs := by
  intro i f emit d hi ho
  rw [handleDatagrams_eq] at h
  obtain ⟨head, data, hw, he⟩ := FragSets.run_exact (FragSets.holds_empty []) h hi ho
  obtain ⟨dg, -, hdg⟩ := List.mem_map.mp (List.mem_of_getElem? hi)
  rw [emit_of_item hdg] at he
  cases he
  exact ⟨rfl, by simpa using hw⟩

theorem run_whole {sets t : Frags} {dgs : List (Bool × Bytes)} {outs : List (Option Hy2Delivery)}
    (hr : handleDatagrams sets dgs = some (t, outs)) : DeliversWhole sets dgs outs := by
  intro key ds target hne hfresh hown hall hroom
  rw [handleDatagrams_eq] at hr
  obtain ⟨n, f, emit, hn, hk, -, ho⟩ := @FragSets.run_whole (UInt32 × UInt16) _ _ _ _ _
    _ _ _ _ _ _ _ ds ([] : List (Fragment (UInt32 × UInt16) NetAddr UInt8)) key
    (Or.inl ⟨hfresh, rfl⟩) ⟨0, hne, List.not_mem_nil⟩
    (fun f hf hk => ⟨(hown f hf hk).1, (hown f hf hk).2.1⟩)
    (fun i hi => by
      obtain ⟨f, hf, hk, hid⟩ := hall i hi
      exact List.mem_map.mpr ⟨f, List.mem_filter.mpr ⟨hf, by simpa using hk⟩, hid⟩) hroom hr
  obtain ⟨dg, -, hdg⟩ := List.mem_map.mp (List.mem_of_getElem? hn)
  have hf := FragSets.mem_fragments (List.mem_of_getElem? hn)
  rw [emit_of_item hdg, hk, (hown f hf hk).2.2] at ho
  exact List.mem_of_getElem? ho

end Hy2Server

/-- Both servers: a run of datagrams ends without a panic exactly when no fragment comes for a
    set that is assembled and still in the table; what it delivers is exact, and packets that
    find room are delivered whole. -/
theorem reassembly_when_spared (sets : TuicServer.Frags) (dgs : List Bytes)
    (hySets : Hy2Server.Frags) (hyDgs : List (Bool × Bytes)) :
    ((TuicServer.handleDatagrams ∅ dgs).isSome ↔ TuicServer.Spared dgs) ∧
    (∀ t outs, TuicServer.handleDatagrams ∅ dgs = some (t, outs) → TuicServer.Exact dgs outs) ∧
    (∀ t outs, TuicServer.handleDatagrams sets dgs = some (t, outs) →
      TuicServer.DeliversWhole sets dgs outs) ∧
    ((Hy2Server.handleDatagrams ∅ hyDgs).isSome ↔ Hy2Server.Spared hyDgs) ∧
    (∀ t outs, Hy2Server.handleDatagrams ∅ hyDgs = some (t, outs) →
      Hy2Server.Exact hyDgs outs) ∧
    (∀ t outs, Hy2Server.handleDatagrams hySets hyDgs = some (t, outs) →
      Hy2Server.DeliversWhole hySets hyDgs outs) :=
  ⟨TuicServer.run_isSome_iff dgs, fun _ _ => TuicServer.run_exact,
    fun _ _ => TuicServer.run_whole, Hy2Server.run_isSome_iff hyDgs,
    fun _ _ => Hy2Server.run_exact, fun _ _ => Hy2Server.run_whole⟩

/-- The two fragments of one packet, and the second once more. -/
def tuicRepeat : List Bytes :=
  let addr : NetAddr := ⟨.ip (.v4 0x01010101), 53⟩
  [encodePacketFrame 1 7 0 2 (some addr) [0x61], encodePacketFrame 1 7 1 2 none [0x62],
    encodePacketFrame 1 7 1 2 none [0x62]]

def hy2Repeat : List (Bool × Bytes) :=
  let addr := "1.1.1.1:53".toList
  [(true, udpMessageHeader 1 7 0 2 addr ++ [0x61]), (true, udpMessageHeader 1 7 1 2 addr ++ [0x62]),
    (true, udpMessageHeader 1 7 1 2 addr ++ [0x62])]

theorem reassembly_repeat_panics :
    (TuicServer.handleDatagrams ∅ tuicRepeat).isSome = false ∧
      (Hy2Server.handleDatagrams ∅ hy2Repeat).isSome = false := by
  decide +kernel

/-- Without the repetition both packets are delivered. -/
theorem reassembly_pair_delivers :
    (TuicServer.Spared (tuicRepeat.take 2) ∧
      ∃ t outs, TuicServer.handleDatagrams ∅ (tuicRepeat.take 2) = some (t, outs) ∧
        TuicServer.Exact (tuicRepeat.take 2) outs ∧
        TuicServer.DeliversWhole ∅ (tuicRepeat.take 2) outs) ∧
    Hy2Server.Spared (hy2Repeat.take 2) ∧
      ∃ t outs, Hy2Server.handleDatagrams ∅ (hy2Repeat.take 2) = some (t, outs) ∧
        Hy2Server.Exact (hy2Repeat.take 2) outs ∧
        Hy2Server.DeliversWhole ∅ (hy2Repeat.take 2) outs := by
  obtain ⟨tuic, tuicExact, tuicWhole, hy2, hy2Exact, hy2Whole⟩ :=
    reassembly_when_spared ∅ (tuicRepeat.take 2) ∅ (hy2Repeat.take 2)
  have ht : (TuicServer.handleDatagrams ∅ (tuicRepeat.take 2)).isSome := by decide +kernel
  have hh : (Hy2Server.handleDatagrams ∅ (hy2Repeat.take 2)).isSome := by decide +kernel
  obtain ⟨⟨t, outs⟩, hr⟩ := Option.isSome_iff_exists.mp ht
  obtain ⟨⟨u, outs'⟩, hr'⟩ := Option.isSome_iff_exists.mp hh
  exact ⟨⟨tuic.mp ht, t, outs, hr, tuicExact _ _ hr, tuicWhole _ _ hr⟩,
    hy2.mp hh, u, outs', hr', hy2Exact _ _ hr', hy2Whole _ _ hr'⟩

end RustCrash.Quic
