import RustCrash.Lib.Windows

/-
  The replay window of the control channel, `RecReplay`: 64 slots with the times at which packet
  ids were accepted, for the latest timestamp of the sender.

  A slot that is not zero is never made zero again while the timestamp stays, so an id that was
  accepted is never accepted again unless the clock reads zero.
-/

namespace RustCrash.OpenVpn

open Lib

def controlReplayWindow : Nat := 64

/-- In nanoseconds, as all times here. -/
def controlReplayTimeBacktrack : Nat := 15 * 1000000000

structure RecReplay where
  time : UInt32
  highId : UInt32
  /-- When an id was accepted: 0 is unseen, and 1 expired. -/
  slots : List Int64
  seen : Bool

namespace RecReplay

def noSlots : List Int64 := List.replicate controlReplayWindow 0

def new : RecReplay := ⟨0, 0, noSlots, false⟩

/-- `as_nanos() as i64`. -/
def stamp (now : Nat) : Int64 := Int64.ofNat now

def reapSlots (now : Nat) : Bool → List Int64 → List Int64
  | _, [] => []
  | expire, slot :: slots =>
    if slot = 1 then slot :: slots
    else
      let expire := expire ||
        (1 < slot && slot.toUInt64.toNat + controlReplayTimeBacktrack < now)
      (if expire then 1 else slot) :: reapSlots now expire slots

def reap (r : RecReplay) (now : Nat) : RecReplay := { r with slots := reapSlots now false r.slots }

/-- The slots after a higher id: `shift` slots are empty again. -/
def shifted (slots : List Int64) (shift : Nat) : List Int64 :=
  if controlReplayWindow ≤ shift then noSlots
  else List.replicate shift 0 ++ slots.take (controlReplayWindow - shift)

/-- `check`, from where the timestamp is known to be the present one. -/
def accept (r : RecReplay) (now : Nat) (packetId : UInt32) : RecReplay × Bool :=
  if r.highId < packetId then
    let slots := shifted r.slots (packetId - r.highId).toNat
    ({ r with highId := packetId, slots := slots.set 0 (stamp now) }, true)
  else
    let diff := (r.highId - packetId).toNat
    if controlReplayWindow ≤ diff ∨ r.slots.getD diff 0 ≠ 0 then (r, false)
    else ({ r with slots := r.slots.set diff (stamp now) }, true)

def check (r : RecReplay) (now : Nat) (packetId unixTime : UInt32) : RecReplay × Bool :=
  if packetId = 0 then (r, false)
  else if r.seen = false ∨ r.time < unixTime then
    (⟨unixTime, packetId, noSlots.set 0 (stamp now), true⟩, true)
  else if unixTime < r.time then (r, false)
  else (r.reap now).accept now packetId

/-! ## What is remembered -/

/-- The ids that were accepted under the present timestamp. -/
def current (r : RecReplay) (accepted : List (UInt32 × UInt32)) : Set Nat :=
  {x | ∃ id : UInt32, (r.time, id) ∈ accepted ∧ id.toNat = x}

def Marked (r : RecReplay) (i : Nat) : Prop := r.slots.getD i 0 ≠ 0

/-- The window knows every time and id that was accepted. -/
structure Remembers (r : RecReplay) (accepted : List (UInt32 × UInt32)) : Prop where
  length : r.slots.length = controlReplayWindow
  seen : accepted ≠ [] → r.seen = true
  times : ∀ p ∈ accepted, p.1 ≤ r.time
  covers : ShiftWindow.Covers controlReplayWindow (r.current accepted) r.highId.toNat r.Marked

theorem remembers_new : Remembers new [] where
  length := List.length_replicate
  seen h := absurd rfl h
  times := nofun
  covers := by
    rintro x ⟨id, hmem, -⟩
    exact absurd hmem List.not_mem_nil

theorem length_reapSlots (now : Nat) (expire : Bool) (slots : List Int64) :
    (reapSlots now expire slots).length = slots.length := by
  induction slots generalizing expire with
  | nil => rfl
  | cons slot slots ih =>
    unfold reapSlots
    split_ifs
    · rfl
    · rw [List.length_cons, ih, List.length_cons]

/-- A slot is never emptied by time. -/
theorem reapSlots_keeps (now : Nat) (expire : Bool) (slots : List Int64) (i : Nat)
    (h : slots.getD i 0 ≠ 0) : (reapSlots now expire slots).getD i 0 ≠ 0 := by
  induction slots generalizing expire i with
  | nil => exact h
  | cons slot slots ih =>
    unfold reapSlots
    by_cases hone : slot = 1
    · rw [if_pos hone]
      exact h
    rw [if_neg hone]
    cases i with
    | zero =>
      rw [List.getD_cons_zero] at h ⊢
      split_ifs
      · decide
      · exact h
    | succ i =>
      rw [List.getD_cons_succ] at h ⊢
      exact ih _ i h

variable {accepted : List (UInt32 × UInt32)} {slots : List Int64}

theorem Remembers.reap {r : RecReplay} (h : r.Remembers accepted) (now : Nat) :
    (r.reap now).Remembers accepted where
  length := (length_reapSlots now false r.slots).trans h.length
  seen := h.seen
  times := h.times
  covers := ShiftWindow.covers_mono h.covers (reapSlots_keeps now false r.slots)

theorem getD_set {i j : Nat} {x : Int64} (hi : i < slots.length) :
    (slots.set i x).getD j 0 = if j = i then x else slots.getD j 0 := by
  rw [List.getD_eq_getElem?_getD, List.getD_eq_getElem?_getD, List.getElem?_set]
  by_cases hij : i = j
  · rw [if_pos hij, if_pos hi, if_pos hij.symm]
    rfl
  · rw [if_neg hij, if_neg (Ne.symm hij)]

theorem length_shifted (h : slots.length = controlReplayWindow) (shift : Nat) :
    (shifted slots shift).length = controlReplayWindow := by
  unfold shifted
  split_ifs
  · exact List.length_replicate
  · rw [List.length_append, List.length_replicate, List.length_take, h]
    omega

theorem getD_shifted {shift i : Nat} (hi : i < controlReplayWindow) (hle : shift ≤ i) :
    (shifted slots shift).getD i 0 = slots.getD (i - shift) 0 := by
  unfold shifted
  rw [if_neg (by omega), List.getD_eq_getElem?_getD, List.getD_eq_getElem?_getD,
    List.getElem?_append_right (by rw [List.length_replicate]; exact hle), List.length_replicate,
    List.getElem?_take_of_lt (by omega)]

theorem current_cons (r : RecReplay) (accepted : List (UInt32 × UInt32)) (id : UInt32) :
    r.current ((r.time, id) :: accepted) = insert id.toNat (r.current accepted) := by
  ext x
  unfold current
  rw [Set.mem_insert_iff, Set.mem_ofPred_eq, Set.mem_ofPred_eq]
  constructor
  · rintro ⟨i, hmem, rfl⟩
    rcases List.mem_cons.mp hmem with heq | hmem
    · rw [Prod.mk.injEq] at heq
      exact .inl (congrArg UInt32.toNat heq.2)
    · exact .inr ⟨i, hmem, rfl⟩
  · rintro (rfl | ⟨i, hmem, rfl⟩)
    · exact ⟨id, List.mem_cons_self, rfl⟩
    · exact ⟨i, List.mem_cons_of_mem _ hmem, rfl⟩

theorem Remembers.fresh_time {r : RecReplay} (h : r.Remembers accepted) {unixTime packetId : UInt32}
    (hnew : r.seen = false ∨ r.time < unixTime) : (unixTime, packetId) ∉ accepted := by
  intro hmem
  rcases hnew with hseen | hlt
  · rw [h.seen (List.ne_nil_of_mem hmem)] at hseen
    cases hseen
  · exact absurd (h.times _ hmem) (UInt32.not_le.mpr hlt)

theorem toNat_sub_of_lt {a b : UInt32} (h : a < b) : (b - a).toNat = b.toNat - a.toNat :=
  UInt32.toNat_sub_of_le _ _ (UInt32.le_of_lt h)

theorem Remembers.accept {r r' : RecReplay} {now : Nat} {packetId : UInt32}
    (h : r.Remembers accepted) (hseen : r.seen = true) (hnow : stamp now ≠ 0)
    (haccept : r.accept now packetId = (r', true)) :
    (r.time, packetId) ∉ accepted ∧ r'.Remembers ((r.time, packetId) :: accepted) := by
  have htimes : ∀ p ∈ (r.time, packetId) :: accepted, p.1 ≤ r.time := by
    intro p hp
    rcases List.mem_cons.mp hp with rfl | hp
    · exact UInt32.le_refl _
    · exact h.times p hp
  have hfresh : packetId.toNat ∉ r.current accepted → (r.time, packetId) ∉ accepted :=
    fun hnot hmem => hnot ⟨packetId, hmem, rfl⟩
  unfold RecReplay.accept at haccept
  by_cases hlt : r.highId < packetId
  · rw [if_pos hlt] at haccept
    cases haccept
    have hlt' := UInt32.lt_iff_toNat_lt.mp hlt
    have hlen := length_shifted h.length (packetId - r.highId).toNat
    have hpos : 0 < controlReplayWindow := by decide
    refine ⟨hfresh (ShiftWindow.fresh_above h.covers hlt'), ?_, fun _ => hseen, htimes, ?_⟩
    · exact List.length_set.trans hlen
    · rw [current_cons { r with highId := packetId, slots := _ }]
      refine ShiftWindow.covers_shift h.covers hlt' ?_ ?_
      · unfold Marked
        rw [getD_set (by omega), if_pos rfl]
        exact hnow
      · intro i hi hle hmark
        unfold Marked
        rw [getD_set (by omega), if_neg (by omega), getD_shifted hi (by
          rw [toNat_sub_of_lt hlt]
          exact hle), toNat_sub_of_lt hlt]
        exact hmark
  · rw [if_neg hlt] at haccept
    have hle : packetId ≤ r.highId := UInt32.not_lt.mp hlt
    have hdiff : (r.highId - packetId).toNat = r.highId.toNat - packetId.toNat :=
      UInt32.toNat_sub_of_le _ _ hle
    rw [hdiff] at haccept
    by_cases hrefused : controlReplayWindow ≤ r.highId.toNat - packetId.toNat ∨
        r.slots.getD (r.highId.toNat - packetId.toNat) 0 ≠ 0
    · rw [if_pos hrefused] at haccept
      cases haccept
    rw [if_neg hrefused] at haccept
    cases haccept
    obtain ⟨hsize, hmark⟩ := not_or.mp hrefused
    have hle' := UInt32.le_iff_toNat_le.mp hle
    have hlen := h.length
    refine ⟨hfresh (ShiftWindow.fresh_inside h.covers (by omega) hmark), ?_, fun _ => hseen,
      htimes, ?_⟩
    · exact List.length_set.trans hlen
    · rw [current_cons { r with slots := _ }]
      refine ShiftWindow.covers_mark h.covers hle' ?_ ?_
      · unfold Marked
        rw [getD_set (by omega), if_pos rfl]
        exact hnow
      · intro i hi
        unfold Marked
        rw [getD_set (by omega)]
        split_ifs
        · exact hnow
        · exact hi

/-- An accepted time and id was not accepted before, and from now on the window knows it. -/
theorem Remembers.check {r r' : RecReplay} {now : Nat} {packetId unixTime : UInt32}
    (h : r.Remembers accepted) (hnow : stamp now ≠ 0)
    (hcheck : r.check now packetId unixTime = (r', true)) :
    (unixTime, packetId) ∉ accepted ∧ r'.Remembers ((unixTime, packetId) :: accepted) := by
  unfold RecReplay.check at hcheck
  by_cases hzero : packetId = 0
  · rw [if_pos hzero] at hcheck
    cases hcheck
  rw [if_neg hzero] at hcheck
  by_cases hnew : r.seen = false ∨ r.time < unixTime
  · rw [if_pos hnew] at hcheck
    cases hcheck
    have hfresh : ∀ id, (unixTime, id) ∉ accepted := fun id => h.fresh_time hnew
    refine ⟨hfresh packetId, List.length_set, fun _ => rfl, ?_, ?_⟩
    · intro p hp
      rcases List.mem_cons.mp hp with rfl | hp
      · exact UInt32.le_refl _
      · rcases hnew with hseen | hlt
        · rw [h.seen (List.ne_nil_of_mem hp)] at hseen
          cases hseen
        · exact UInt32.le_trans (h.times p hp) (UInt32.le_of_lt hlt)
    · rw [current_cons ⟨unixTime, packetId, noSlots.set 0 (stamp now), true⟩]
      intro x hx
      rcases Set.mem_insert_iff.mp hx with rfl | ⟨id, hmem, -⟩
      · exact ShiftWindow.covers_single hnow _ rfl
      · exact absurd hmem (hfresh id)
  rw [if_neg hnew] at hcheck
  by_cases hback : unixTime < r.time
  · rw [if_pos hback] at hcheck
    cases hcheck
  rw [if_neg hback] at hcheck
  obtain ⟨hseen, hle⟩ := not_or.mp hnew
  obtain rfl : unixTime = r.time :=
    UInt32.le_antisymm (UInt32.not_lt.mp hle) (UInt32.not_lt.mp hback)
  exact (h.reap now).accept (Bool.not_eq_false _ ▸ hseen) hnow hcheck

/-- A refused one changes nothing that is remembered. -/
theorem Remembers.check_refused {r r' : RecReplay} {now : Nat} {packetId unixTime : UInt32}
    (h : r.Remembers accepted) (hcheck : r.check now packetId unixTime = (r', false)) :
    r'.Remembers accepted := by
  unfold RecReplay.check at hcheck
  split_ifs at hcheck
  · cases hcheck
    exact h
  · cases hcheck
  · cases hcheck
    exact h
  · unfold RecReplay.accept at hcheck
    dsimp only at hcheck
    split_ifs at hcheck
    · cases hcheck
    · cases hcheck
      exact h.reap now
    · cases hcheck

end RecReplay

end RustCrash.OpenVpn
