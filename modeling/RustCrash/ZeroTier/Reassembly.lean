import RustCrash.ZeroTier.Stack

/-
  The fragment queue puts the pieces of a packet together in whatever order they come
  (`FragmentAssembler::ingest` in `proto/zerotier.rs`).

  While pieces are missing, the entry of a packet is a function of the set of pieces that are
  there (`holding`), and a datagram of another packet does nothing to it.
-/

namespace RustCrash.ZeroTier

open Lib

/-! ## Pieces -/

/-- The id of the packet a datagram belongs to. -/
def idOf (datagram : Bytes) : UInt64 := ofBE64 (slice datagram 0 8)

/-- The datagrams of one packet, the head first. -/
structure Pieces (id : UInt64) (total : Nat) (piece : Nat → Bytes) : Prop where
  some : 0 < total
  few : total ≤ 15
  id : ∀ i < total, idOf (piece i) = id
  head_length : packetHeaderLen ≤ (piece 0).length
  head : (piece 0).getD fragmentIdxIndicator 0 ≠ fragmentIndicator
  flag : (piece 0).getD packetIdxFlags 0 &&& flagFragmented = 0 ↔ total = 1
  length : ∀ i < total, i ≠ 0 → fragmentHeaderLen ≤ (piece i).length
  indicator : ∀ i < total, i ≠ 0 → (piece i).getD fragmentIdxIndicator 0 = fragmentIndicator
  packed : ∀ i < total, i ≠ 0 → (piece i).getD 14 0 =
    ((UInt8.ofNat total &&& 0x0f) <<< (4 : UInt8)) ||| (UInt8.ofNat i &&& 0x0f)

/-- The packet the pieces are of. -/
def whole (piece : Nat → Bytes) (total : Nat) : Bytes :=
  piece 0 ++ (List.range (total - 1)).flatMap fun j => (piece (j + 1)).drop fragmentHeaderLen

/-- The entry of a packet when the pieces of a set are there. -/
def holding (piece : Nat → Bytes) (total : Nat) (there : Finset Nat) (since : Nat) :
    FragAssembly where
  total := if there ⊆ {0} then 0 else total
  held := there
  head := if 0 ∈ there then some (piece 0) else none
  frags := (List.range 15).map fun j =>
    if j + 1 ∈ there then some ((piece (j + 1)).drop fragmentHeaderLen) else none
  since := since

/-- The queue when the pieces of a set are there. -/
def FragmentAssembler.Holds (a : FragmentAssembler) (id : UInt64) (piece : Nat → Bytes)
    (total : Nat) (there : Finset Nat) (since : Nat) : Prop :=
  a.entries id = if there = ∅ then none else some (holding piece total there since)

variable {id : UInt64} {total : Nat} {piece : Nat → Bytes} {there : Finset Nat}
  {since now i : Nat} {a : FragmentAssembler}

theorem holding_empty (piece : Nat → Bytes) (total now : Nat) :
    holding piece total ∅ now = .new now := by
  simp [holding, FragAssembly.new, List.map_const']

/-- Since when there are pieces, when another one comes. -/
def sinceNow (there : Finset Nat) (since now : Nat) : Nat := if there = ∅ then now else since

theorem FragmentAssembler.Holds.entry (h : a.Holds id piece total there since) (now : Nat) :
    a.entry id now = holding piece total there (sinceNow there since now) := by
  unfold FragmentAssembler.entry sinceNow
  rw [h]
  split_ifs with hempty
  · rw [hempty, holding_empty]
    rfl
  · rfl

/-- The fragments of all pieces but the head, joined. -/
theorem assembled_holding (since : Nat) (htotal : 2 ≤ total) (hfew : total ≤ 15) :
    (holding piece total (Finset.range total) since).assembled (piece 0) = whole piece total := by
  have hsub : ¬ Finset.range total ⊆ {0} := fun h => by
    have h1 := h (Finset.mem_range.mpr (show 1 < total from htotal))
    simp at h1
  have hmin : min (total - 1) 15 = total - 1 := by omega
  unfold FragAssembly.assembled whole holding
  dsimp only
  rw [if_neg hsub, ← List.map_take, List.take_range, hmin, List.flatMap_map]
  congr 1
  refine List.flatMap_congr fun j hj => ?_
  rw [List.mem_range] at hj
  have hmem : j + 1 < total := by omega
  simp only [Finset.mem_range, hmem, if_true]
  rfl

/-- An entry settles when all pieces are there. -/
theorem settle_full (a : FragmentAssembler) (id : UInt64) (since : Nat) (htotal : 2 ≤ total)
    (hfew : total ≤ 15) :
    a.settle id (holding piece total (Finset.range total) since) =
      (a.remove id, some (whole piece total)) := by
  have hsub : ¬ Finset.range total ⊆ {0} := fun h => by
    have h1 := h (Finset.mem_range.mpr (show 1 < total from htotal))
    simp at h1
  have hhead : (holding piece total (Finset.range total) since).head = some (piece 0) :=
    if_pos (Finset.mem_range.mpr (by omega))
  have hcard : (holding piece total (Finset.range total) since).held.card =
      (holding piece total (Finset.range total) since).total := by
    simp [holding, hsub]
  unfold FragmentAssembler.settle
  rw [hhead]
  dsimp only
  rw [if_pos hcard, assembled_holding since htotal hfew]

/-- An entry that holds fewer pieces than there are waits. -/
theorem settle_waits (a : FragmentAssembler) (id : UInt64) {entry : FragAssembly}
    (h : entry.head ≠ none → entry.held.card ≠ entry.total) :
    a.settle id entry = (a.put id entry, none) := by
  unfold FragmentAssembler.settle
  cases hhead : entry.head with
  | none => rfl
  | some head =>
    dsimp only
    rw [if_neg (h (by simp [hhead]))]

/-- It waits while one is missing. -/
theorem settle_missing (a : FragmentAssembler) (id : UInt64) (since : Nat)
    (hthere : there ⊆ Finset.range total) (hmissing : there ≠ Finset.range total) :
    a.settle id (holding piece total there since) =
      (a.put id (holding piece total there since), none) := by
  refine settle_waits a id fun hhead => ?_
  have h0 : 0 ∈ there := by
    by_contra h0
    exact hhead (if_neg h0)
  unfold holding
  dsimp only
  split_ifs with hsub
  · exact Finset.card_ne_zero_of_mem h0
  · intro hcard
    refine hmissing (Finset.eq_of_subset_of_card_le hthere ?_)
    rw [Finset.card_range, hcard]

/-! ## One more piece -/

theorem Pieces.number (h : Pieces id total piece) (hi : i < total) (hi0 : i ≠ 0) :
    (((piece i).getD 14 0 >>> (4 : UInt8)) &&& 0x0f).toNat = total ∧
      ((piece i).getD 14 0 &&& 0x0f).toNat = i := by
  have hfew := h.few
  have hlt : i < 15 := by omega
  rw [h.packed i hi hi0]
  revert hi hi0 hfew
  have hall : ∀ t < 16, ∀ j < 16,
      (((((UInt8.ofNat t &&& 0x0f) <<< (4 : UInt8)) ||| (UInt8.ofNat j &&& 0x0f)) >>>
        (4 : UInt8)) &&& 0x0f).toNat = t ∧
      ((((UInt8.ofNat t &&& 0x0f) <<< (4 : UInt8)) ||| (UInt8.ofNat j &&& 0x0f)) &&&
        0x0f).toNat = j := by
    decide +kernel
  intro _ _ hfew
  exact hall total (by omega) i (by omega)

/-- A fragment in its place among those that are there. -/
theorem holding_insert_fragment (since : Nat) (hi0 : i ≠ 0) :
    { holding piece total there since with
      total := total
      frags := (holding piece total there since).frags.set (i - 1)
        (some ((piece i).drop fragmentHeaderLen))
      held := insert i (holding piece total there since).held } =
      holding piece total (insert i there) since := by
  have hsub : ¬ insert i there ⊆ {0} := fun h =>
    hi0 (Finset.mem_singleton.mp (h (Finset.mem_insert_self i there)))
  have hhead : 0 ∈ insert i there ↔ 0 ∈ there := by
    rw [Finset.mem_insert, or_iff_right (Ne.symm hi0)]
  unfold holding
  simp only [FragAssembly.mk.injEq, hsub, hhead, if_false, true_and, and_true]
  refine List.ext_getElem (by simp) fun j hj hj' => ?_
  rw [List.getElem_set]
  by_cases hji : i - 1 = j
  · simp [hji, show j + 1 = i by omega]
  · simp [hji, show j + 1 ≠ i by omega]

/-- The head among those that are there. -/
theorem holding_insert_head (since : Nat) :
    { holding piece total there since with
      held := insert 0 (holding piece total there since).held
      head := some (piece 0) } = holding piece total (insert 0 there) since := by
  have hsub : insert 0 there ⊆ {0} ↔ there ⊆ {0} := by
    rw [Finset.insert_subset_iff, and_iff_right (Finset.mem_singleton_self 0)]
  have hfrag (j : Nat) : j + 1 ∈ insert 0 there ↔ j + 1 ∈ there := by
    rw [Finset.mem_insert, or_iff_right (Nat.succ_ne_zero j)]
  simp [holding, hsub, hfrag]

@[simp] theorem entries_remove (a : FragmentAssembler) (id : UInt64) :
    (a.remove id).entries id = none := Function.update_self _ _ _

@[simp] theorem entries_put (a : FragmentAssembler) (id : UInt64) (entry : FragAssembly) :
    (a.put id entry).entries id = some entry := Function.update_self _ _ _

/-- A packet's entry with one more piece settles, or is put back. -/
theorem settle_holding (a : FragmentAssembler) (id : UInt64) (piece : Nat → Bytes)
    (since : Nat) (htotal : 2 ≤ total) (hfew : total ≤ 15)
    (hthere : there ⊆ Finset.range total) (hne : there.Nonempty) :
    (there = Finset.range total →
        (a.settle id (holding piece total there since)).2 = some (whole piece total) ∧
          (a.settle id (holding piece total there since)).1.entries id = none) ∧
      (there ≠ Finset.range total →
        (a.settle id (holding piece total there since)).2 = none ∧
          (a.settle id (holding piece total there since)).1.Holds id piece total there since) := by
  refine ⟨fun hfull => ?_, fun hmissing => ?_⟩
  · rw [hfull, settle_full a id since htotal hfew]
    exact ⟨rfl, entries_remove a id⟩
  · rw [settle_missing a id since hthere hmissing]
    refine ⟨rfl, ?_⟩
    rw [FragmentAssembler.Holds, entries_put, if_neg hne.ne_empty]

theorem ingest_fragment (h : Pieces id total piece) (ha : a.Holds id piece total there since)
    (hi : i < total) (hi0 : i ≠ 0) (hnew : i ∉ there) (now : Nat) :
    a.ingest now (piece i) =
      a.settle id (holding piece total (insert i there) (sinceNow there since now)) := by
  obtain ⟨htotal, hnumber⟩ := h.number hi hi0
  have hfew := h.few
  have hheld : i ∉ (holding piece total there (sinceNow there since now)).held := hnew
  have hid : ofBE64 (slice (piece i) 0 8) = id := h.id i hi
  unfold FragmentAssembler.ingest FragmentAssembler.ingestFragment
  rw [if_neg (Nat.not_lt.mpr (h.length i hi hi0)), if_pos (h.indicator i hi hi0)]
  simp only [htotal, hnumber, hid, ha.entry now]
  rw [if_neg (by omega), if_neg hheld, holding_insert_fragment _ hi0]

theorem ingest_head (h : Pieces id total piece) (ha : a.Holds id piece total there since)
    (htotal : total ≠ 1) (hnew : 0 ∉ there) (now : Nat) :
    a.ingest now (piece 0) =
      if there ⊆ {0} then
        (a.put id (holding piece total (insert 0 there) (sinceNow there since now)), none)
      else a.settle id (holding piece total (insert 0 there) (sinceNow there since now)) := by
  have hid : ofBE64 (slice (piece 0) 0 8) = id := h.id 0 h.some
  have hlen : ¬ (piece 0).length < fragmentHeaderLen :=
    Nat.not_lt.mpr (Nat.le_trans (by decide) h.head_length)
  have hflag : ¬ (piece 0).getD packetIdxFlags 0 &&& flagFragmented = 0 := fun hz =>
    htotal (h.flag.mp hz)
  have hheld : 0 ∉ (holding piece total there (sinceNow there since now)).held := hnew
  have htot : (holding piece total there (sinceNow there since now)).total ≤ 1 ↔
      there ⊆ {0} := by
    have hpos := h.some
    unfold holding
    dsimp only
    split_ifs with hsub
    · exact iff_of_true (Nat.zero_le 1) hsub
    · exact iff_of_false (by omega) hsub
  unfold FragmentAssembler.ingest FragmentAssembler.ingestHead
  rw [if_neg hlen, if_neg h.head, if_neg (Nat.not_lt.mpr h.head_length), if_neg hflag]
  simp only [hid, ha.entry now]
  rw [if_neg hheld, holding_insert_head]
  simp only [htot]

/-- One more piece: it completes the packet, or it is kept. -/
theorem ingest_piece (h : Pieces id total piece) (ha : a.Holds id piece total there since)
    (hthere : there ⊆ Finset.range total) (hi : i < total) (hnew : i ∉ there) (now : Nat) :
    (insert i there = Finset.range total →
        (a.ingest now (piece i)).2 = some (whole piece total) ∧
          (a.ingest now (piece i)).1.entries id = none) ∧
      (insert i there ≠ Finset.range total →
        (a.ingest now (piece i)).2 = none ∧
          (a.ingest now (piece i)).1.Holds id piece total (insert i there)
            (sinceNow there since now)) := by
  have hfew := h.few
  have hpos := h.some
  have hsub : insert i there ⊆ Finset.range total :=
    Finset.insert_subset (Finset.mem_range.mpr hi) hthere
  by_cases hone : total = 1
  · -- a packet in one datagram does not come near the entries
    obtain rfl : i = 0 := by omega
    have hempty : there = ∅ := by
      rw [hone, Finset.range_one, Finset.subset_singleton_iff] at hthere
      exact hthere.resolve_right fun h0 => hnew (h0 ▸ Finset.mem_singleton_self 0)
    have hlen : ¬ (piece 0).length < fragmentHeaderLen :=
      Nat.not_lt.mpr (Nat.le_trans (by decide) h.head_length)
    have hin : a.ingest now (piece 0) = (a, some (piece 0)) := by
      unfold FragmentAssembler.ingest FragmentAssembler.ingestHead
      rw [if_neg hlen, if_neg h.head, if_neg (Nat.not_lt.mpr h.head_length)]
      simp only [h.flag.mpr hone, if_true]
    have hwhole : whole piece total = piece 0 := by
      rw [hone]
      exact List.append_nil _
    rw [hin, hwhole]
    refine ⟨fun _ => ⟨rfl, ?_⟩, fun hne => absurd ?_ hne⟩
    · rw [ha, if_pos hempty]
    · rw [hempty, hone]
      rfl
  · have hsettle := settle_holding a id piece (sinceNow there since now)
      (by omega : 2 ≤ total) hfew hsub (Finset.insert_nonempty i there)
    by_cases hi0 : i = 0
    · subst hi0
      rw [ingest_head h ha hone hnew now]
      split_ifs with hhead
      · -- the head is the first to come
        have hne : insert 0 there ≠ Finset.range total := fun heq => by
          have h1 : 1 ∈ insert 0 there := heq ▸ Finset.mem_range.mpr (by omega)
          rw [Finset.mem_insert, or_iff_right one_ne_zero] at h1
          exact absurd (Finset.mem_singleton.mp (hhead h1)) one_ne_zero
        refine ⟨fun heq => absurd heq hne, fun _ => ⟨rfl, ?_⟩⟩
        rw [FragmentAssembler.Holds, entries_put, if_neg (Finset.insert_ne_empty 0 there)]
      · exact hsettle
    · rw [ingest_fragment h ha hi hi0 hnew now]
      exact hsettle

/-! ## Other packets -/

/-- A head that stands in the entry of its own packet. -/
def OwnHead (id : UInt64) (entry : FragAssembly) : Prop :=
  ∀ head, entry.head = some head → idOf head = id ∧ packetHeaderLen ≤ head.length

def FragmentAssembler.Keyed (a : FragmentAssembler) : Prop :=
  ∀ id entry, a.entries id = some entry → OwnHead id entry

theorem FragmentAssembler.keyed_empty : FragmentAssembler.empty.Keyed := nofun

theorem FragmentAssembler.Keyed.expire (h : a.Keyed) (now : Nat) : (a.expire now).Keyed :=
  fun id entry he => h id entry (Option.filter_eq_some_iff.mp he).1

theorem FragmentAssembler.Keyed.entry (h : a.Keyed) (id : UInt64) (now : Nat) :
    OwnHead id (a.entry id now) := by
  unfold FragmentAssembler.entry
  cases he : a.entries id with
  | none => exact nofun
  | some entry => exact h id entry he

theorem OwnHead.assembled {entry : FragAssembly} {head : Bytes} (h : OwnHead id entry)
    (hhead : entry.head = some head) : idOf (entry.assembled head) = id := by
  obtain ⟨hid, hlen⟩ := h head hhead
  rw [packetHeaderLen, packetIdxPayload] at hlen
  rw [← hid, idOf, idOf, FragAssembly.assembled, slice, slice, List.drop_zero, List.drop_zero,
    List.take_append_of_le_length (by omega)]

/-- What a datagram does to the queue: it stays within its own entry, and completes nothing but
    its own packet. -/
structure StaysIn (a : FragmentAssembler) (id : UInt64)
    (result : FragmentAssembler × Option Bytes) : Prop where
  keyed : result.1.Keyed
  others : ∀ other, other ≠ id → result.1.entries other = a.entries other
  packet : ∀ packet, result.2 = some packet → idOf packet = id

theorem StaysIn.unchanged (h : a.Keyed) (id : UInt64) : StaysIn a id (a, none) :=
  ⟨h, fun _ _ => rfl, nofun⟩

theorem StaysIn.put (h : a.Keyed) {entry : FragAssembly} (hown : OwnHead id entry) :
    StaysIn a id (a.put id entry, none) := by
  refine ⟨fun other e he => ?_, fun other hne => Function.update_of_ne hne _ _, nofun⟩
  by_cases hid : other = id
  · subst hid
    rw [entries_put, Option.some_inj] at he
    exact he ▸ hown
  · exact h other e ((Function.update_of_ne hid _ _).symm.trans he)

theorem StaysIn.settle (h : a.Keyed) {entry : FragAssembly} (hown : OwnHead id entry) :
    StaysIn a id (a.settle id entry) := by
  unfold FragmentAssembler.settle
  cases hhead : entry.head with
  | none => exact .put h hown
  | some head =>
    dsimp only
    split_ifs
    · refine ⟨fun other e he => ?_, fun other hne => Function.update_of_ne hne _ _, ?_⟩
      · by_cases hid : other = id
        · rw [hid, entries_remove] at he
          cases he
        · exact h other e ((Function.update_of_ne hid _ _).symm.trans he)
      · rintro packet heq
        rw [← Option.some.inj heq]
        exact hown.assembled hhead
    · exact .put h hown

/-- `ingest` stays within the entry of the datagram's packet. -/
theorem ingest_frame (h : a.Keyed) (now : Nat) (datagram : Bytes) :
    StaysIn a (idOf datagram) (a.ingest now datagram) := by
  unfold FragmentAssembler.ingest
  split_ifs with hlen hind
  · exact .unchanged h _
  · unfold FragmentAssembler.ingestFragment
    dsimp only
    split_ifs with hbad hheld
    · exact .unchanged h _
    · exact .unchanged h _
    · exact .settle h (h.entry _ now)
  · have hown (entry : FragAssembly) (hlen : packetHeaderLen ≤ datagram.length)
        (hhead : entry.head = some datagram) : OwnHead (idOf datagram) entry := fun head heq => by
      rw [hhead, Option.some_inj] at heq
      rw [← heq]
      exact ⟨rfl, hlen⟩
    unfold FragmentAssembler.ingestHead
    dsimp only
    split_ifs with hshort hflag hheld
    · exact .unchanged h _
    · exact ⟨h, fun _ _ => rfl, fun packet heq => by rw [← Option.some.inj heq]⟩
    · exact .unchanged h _
    · exact .put h (hown _ (Nat.not_lt.mp hshort) rfl)
    · exact .settle h (hown _ (Nat.not_lt.mp hshort) rfl)

/-! ## A piece that never comes -/

/-- An entry without one of the pieces. -/
def LacksPiece (total last : Nat) (entry : FragAssembly) : Prop :=
  entry.held ⊆ (Finset.range total).erase last ∧ (entry.total = 0 ∨ entry.total = total)

def FragmentAssembler.Lacks (a : FragmentAssembler) (id : UInt64) (total last : Nat) : Prop :=
  ∀ entry, a.entries id = some entry → LacksPiece total last entry

variable {last : Nat}

theorem FragmentAssembler.Lacks.entry (h : a.Lacks id total last) (now : Nat) :
    LacksPiece total last (a.entry id now) := by
  unfold FragmentAssembler.entry
  cases he : a.entries id with
  | none => exact ⟨Finset.empty_subset _, .inl rfl⟩
  | some entry => exact h entry he

theorem FragmentAssembler.Lacks.expire (h : a.Lacks id total last) (now : Nat) :
    (a.expire now).Lacks id total last :=
  fun entry he => h entry (Option.filter_eq_some_iff.mp he).1

theorem FragmentAssembler.Lacks.put {entry : FragAssembly} (h : LacksPiece total last entry) :
    (a.put id entry).Lacks id total last := by
  intro e he
  rw [entries_put, Option.some_inj] at he
  exact he ▸ h

/-- Without the last piece no other piece completes the packet. -/
theorem settle_lacks {entry : FragAssembly} (hlast : last < total)
    (h : LacksPiece total last entry) (htotal : entry.total = total) :
    (a.settle id entry).2 = none ∧ (a.settle id entry).1.Lacks id total last := by
  rw [settle_waits a id fun _ => ?_]
  · exact ⟨rfl, .put h⟩
  have hcard := Finset.card_le_card h.1
  rw [Finset.card_erase_of_mem (Finset.mem_range.mpr hlast), Finset.card_range] at hcard
  omega

theorem ingest_lacks (h : Pieces id total piece) (ha : a.Lacks id total last)
    (htotal : 2 ≤ total) (hlast : last < total) (hi : i < total) (hne : i ≠ last) (now : Nat) :
    (a.ingest now (piece i)).2 = none ∧ (a.ingest now (piece i)).1.Lacks id total last := by
  have hentry := ha.entry now
  have hinsert : insert i (a.entry id now).held ⊆ (Finset.range total).erase last :=
    Finset.insert_subset (Finset.mem_erase.mpr ⟨hne, Finset.mem_range.mpr hi⟩) hentry.1
  have hid : ofBE64 (slice (piece i) 0 8) = id := h.id i hi
  unfold FragmentAssembler.ingest
  by_cases hi0 : i = 0
  · subst hi0
    have hlen : ¬ (piece 0).length < fragmentHeaderLen :=
      Nat.not_lt.mpr (Nat.le_trans (by decide) h.head_length)
    have hflag : ¬ (piece 0).getD packetIdxFlags 0 &&& flagFragmented = 0 := fun hz => by
      have := h.flag.mp hz
      omega
    rw [if_neg hlen, if_neg h.head]
    unfold FragmentAssembler.ingestHead
    rw [if_neg (Nat.not_lt.mpr h.head_length), if_neg hflag]
    simp only [hid]
    split_ifs with hheld hfirst
    · exact ⟨rfl, ha⟩
    · exact ⟨rfl, .put ⟨hinsert, hentry.2⟩⟩
    · refine settle_lacks hlast ⟨hinsert, hentry.2⟩ (hentry.2.resolve_left fun hzero => ?_)
      exact hfirst (hzero.trans_le (Nat.zero_le 1))
  · obtain ⟨htot, hnumber⟩ := h.number hi hi0
    have hfew := h.few
    rw [if_neg (Nat.not_lt.mpr (h.length i hi hi0)), if_pos (h.indicator i hi hi0)]
    unfold FragmentAssembler.ingestFragment
    simp only [htot, hnumber, hid]
    rw [if_neg (by omega)]
    split_ifs with hheld
    · exact ⟨rfl, ha⟩
    · exact settle_lacks hlast ⟨hinsert, .inr rfl⟩ rfl

end RustCrash.ZeroTier
