import RustCrash.Lib.Bits
import RustCrash.Lib.Windows

/-
  `proto/easytier.rs`: what a secure session remembers of the packets it accepted. For each
  direction there are two slots, each with an epoch and a sliding window of 256 sequence numbers:
  slot 0 for the latest epoch and slot 1 for the one before.

  `DirSlots.Remembers` says that the slots are in order and know every number of a set.
-/

namespace RustCrash.EasyTier

open Lib

/-- `SecureDirection`. -/
inductive SecureDirection where
  | aToB
  | bToA
  deriving DecidableEq

namespace SecureDirection

def idx : SecureDirection → Nat
  | aToB => 0
  | bToA => 1

end SecureDirection

/-! ## The window -/

structure ReplayWindow256 where
  maxSeq : UInt64
  bitmap : ByteVec 32
  valid : Bool
  deriving DecidableEq

namespace ReplayWindow256

/-- `default`. -/
def empty : ReplayWindow256 := ⟨0, ByteVec.zero 32, false⟩

def testBit (w : ReplayWindow256) (idx : Nat) : Bool := ByteBits.testBit w.bitmap.val idx

def setBit (w : ReplayWindow256) (idx : Nat) : ReplayWindow256 :=
  { w with bitmap := ⟨ByteBits.setBit w.bitmap.val idx,
    (ByteBits.length_setBit _ _).trans w.bitmap.property⟩ }

/-- `shift_right`. -/
def shiftRight (w : ReplayWindow256) (shift : Nat) : ReplayWindow256 :=
  { w with bitmap := ⟨ByteBits.shiftUp w.bitmap.val shift,
    (ByteBits.length_shiftUp _ _).trans w.bitmap.property⟩ }

def accept (w : ReplayWindow256) (seq : UInt64) : ReplayWindow256 × Bool :=
  if w.valid = false then ({ w with valid := true, maxSeq := seq }.setBit 0, true)
  else if w.maxSeq < seq then
    let shift := (seq - w.maxSeq).toNat
    ({ w.shiftRight shift with maxSeq := seq }.setBit 0, true)
  else
    let delta := (w.maxSeq - seq).toNat
    if 256 ≤ delta ∨ w.testBit delta then (w, false) else (w.setBit delta, true)

def canAccept (w : ReplayWindow256) (seq : UInt64) : Bool :=
  if w.valid = false ∨ w.maxSeq < seq then true
  else
    let delta := (w.maxSeq - seq).toNat
    delta < 256 && !w.testBit delta

/-- Bit `i` is set. -/
def Marked (w : ReplayWindow256) (i : Nat) : Prop := ByteBits.bitAt w.bitmap.val i = true

/-- The window knows every number of `A`. -/
structure Remembers (w : ReplayWindow256) (A : Set Nat) : Prop where
  empty : w.valid = false → A = ∅
  covers : w.valid = true → ShiftWindow.Covers 256 A w.maxSeq.toNat w.Marked

theorem Remembers.of_empty (w : ReplayWindow256) : w.Remembers ∅ where
  empty _ := rfl
  covers _ := fun _ hx => absurd hx (Set.notMem_empty _)

theorem canAccept_empty (seq : UInt64) : empty.canAccept seq = true := rfl

variable {w : ReplayWindow256} {A : Set Nat} {seq : UInt64}

theorem marked_setBit {i : Nat} (hi : i < 256) (j : Nat) :
    (w.setBit i).Marked j ↔ w.Marked j ∨ j = i := by
  unfold Marked setBit
  have hlen : i < 8 * w.bitmap.val.length := by
    rw [w.bitmap.property]
    exact hi
  rw [ByteBits.bitAt_setBit hlen, Bool.or_eq_true, decide_eq_true_iff]

theorem marked_shiftRight {shift j : Nat} (hj : j < 256) (hle : shift ≤ j) :
    (w.shiftRight shift).Marked j ↔ w.Marked (j - shift) := by
  unfold Marked shiftRight
  have hlen : j < 8 * w.bitmap.val.length := by
    rw [w.bitmap.property]
    exact hj
  rw [ByteBits.bitAt_shiftUp hlen hle]

theorem testBit_iff (w : ReplayWindow256) (i : Nat) : w.testBit i = true ↔ w.Marked i := by
  unfold testBit Marked
  rw [ByteBits.testBit_eq]

theorem delta_eq {a b : UInt64} (h : ¬ a < b) : (a - b).toNat = a.toNat - b.toNat :=
  UInt64.toNat_sub_of_le _ _ (UInt64.not_lt.mp h)

/-- A number that is known is not accepted. -/
theorem Remembers.fresh (h : w.Remembers A) (hcan : w.canAccept seq = true) : seq.toNat ∉ A := by
  unfold canAccept at hcan
  by_cases hvalid : w.valid = false
  · rw [h.empty hvalid]
    exact Set.notMem_empty _
  have hcovers := h.covers (Bool.eq_true_of_not_eq_false hvalid)
  by_cases hlt : w.maxSeq < seq
  · exact ShiftWindow.fresh_above hcovers (UInt64.lt_iff_toNat_lt.mp hlt)
  · rw [if_neg (not_or.mpr ⟨hvalid, hlt⟩), delta_eq hlt, Bool.and_eq_true, decide_eq_true_iff,
      Bool.not_eq_true', ← Bool.not_eq_true, testBit_iff] at hcan
    exact ShiftWindow.fresh_inside hcovers hcan.1 hcan.2

/-- `accept` does what `can_accept` says. -/
theorem accept_snd (w : ReplayWindow256) (seq : UInt64) : (w.accept seq).2 = w.canAccept seq := by
  unfold accept canAccept
  by_cases hvalid : w.valid = false
  · rw [if_pos hvalid, if_pos (.inl hvalid)]
  by_cases hlt : w.maxSeq < seq
  · rw [if_neg hvalid, if_pos hlt, if_pos (.inr hlt)]
  rw [if_neg hvalid, if_neg hlt, if_neg (not_or.mpr ⟨hvalid, hlt⟩)]
  dsimp only
  generalize (w.maxSeq - seq).toNat = delta
  by_cases hfar : 256 ≤ delta
  · simp [hfar, Nat.not_lt.mpr hfar]
  · simp only [hfar, Nat.not_le.mp hfar, false_or, decide_true, Bool.true_and]
    cases w.testBit delta <;> rfl

theorem Remembers.accept (h : w.Remembers A) (seq : UInt64) :
    (w.accept seq).1.Remembers (if w.canAccept seq then insert seq.toNat A else A) := by
  rw [← accept_snd]
  unfold ReplayWindow256.accept
  by_cases hvalid : w.valid = false
  · rw [if_pos hvalid, if_pos rfl, h.empty hvalid]
    refine ⟨fun hno => Bool.noConfusion hno, fun _ => ?_⟩
    rw [insert_empty_eq]
    exact ShiftWindow.covers_single ((marked_setBit (by decide) 0).mpr (.inr rfl))
  rw [if_neg hvalid]
  have hcovers := h.covers (Bool.eq_true_of_not_eq_false hvalid)
  by_cases hlt : w.maxSeq < seq
  · rw [if_pos hlt, if_pos rfl]
    have hlt' := UInt64.lt_iff_toNat_lt.mp hlt
    have hshift : (seq - w.maxSeq).toNat = seq.toNat - w.maxSeq.toNat :=
      UInt64.toNat_sub_of_le _ _ (UInt64.le_of_lt hlt)
    refine ⟨fun hno => absurd hno hvalid, fun _ => ?_⟩
    refine ShiftWindow.covers_shift hcovers hlt' ((marked_setBit (by decide) 0).mpr (.inr rfl)) ?_
    intro i hi hle hmark
    rw [marked_setBit (by decide)]
    rw [← hshift] at hle hmark
    exact .inl ((marked_shiftRight hi hle).mpr hmark)
  · rw [if_neg hlt]
    dsimp only
    rw [delta_eq hlt]
    by_cases hrefused : 256 ≤ w.maxSeq.toNat - seq.toNat ∨
        w.testBit (w.maxSeq.toNat - seq.toNat) = true
    · rw [if_pos hrefused, if_neg Bool.false_ne_true]
      exact h
    · rw [if_neg hrefused, if_pos rfl]
      have hdelta : w.maxSeq.toNat - seq.toNat < 256 := Nat.not_le.mp (not_or.mp hrefused).1
      refine ⟨fun hno => absurd hno hvalid, fun _ => ?_⟩
      refine ShiftWindow.covers_mark hcovers
        (UInt64.le_iff_toNat_le.mp (UInt64.not_lt.mp hlt)) ?_ fun i hmark => ?_
      · exact (marked_setBit hdelta _).mpr (.inr rfl)
      · exact (marked_setBit hdelta _).mpr (.inl hmark)

end ReplayWindow256

/-! ## Slots -/

/-- Times are in milliseconds of the system clock. -/
structure EpochRxSlot where
  epoch : UInt32
  window : ReplayWindow256
  lastRxMs : Nat
  valid : Bool
  deriving DecidableEq

def rxSlotEvictAfterMs : Nat := 30000

def maxAcceptedRxEpochAhead : Nat := 3

namespace EpochRxSlot

/-- `default`. -/
def empty : EpochRxSlot := ⟨0, .empty, 0, false⟩

/-- A slot that had no packet for too long. -/
def overdue (slot : EpochRxSlot) (nowMs : Nat) : Bool :=
  slot.valid && slot.lastRxMs ≠ 0 && rxSlotEvictAfterMs < nowMs - slot.lastRxMs

def evict (slot : EpochRxSlot) (nowMs : Nat) : EpochRxSlot :=
  if slot.overdue nowMs then empty else slot

/-- `slot.last_rx_ms = now_ms` and `slot.window.accept(seq)`. -/
def receive (slot : EpochRxSlot) (seq : UInt64) (nowMs : Nat) : EpochRxSlot × Bool :=
  let (window, accepted) := slot.window.accept seq
  ({ slot with lastRxMs := nowMs, window := window }, accepted)

/-- A slot for a new epoch. -/
def fresh (epoch : UInt32) (nowMs : Nat) : EpochRxSlot := ⟨epoch, .empty, nowMs, true⟩

@[simp] theorem receive_epoch (slot : EpochRxSlot) (seq : UInt64) (nowMs : Nat) :
    (slot.receive seq nowMs).1.epoch = slot.epoch := rfl

@[simp] theorem receive_valid (slot : EpochRxSlot) (seq : UInt64) (nowMs : Nat) :
    (slot.receive seq nowMs).1.valid = slot.valid := rfl

@[simp] theorem receive_slot_window (slot : EpochRxSlot) (seq : UInt64) (nowMs : Nat) :
    (slot.receive seq nowMs).1.window = (slot.window.accept seq).1 := rfl

@[simp] theorem receive_snd (slot : EpochRxSlot) (seq : UInt64) (nowMs : Nat) :
    (slot.receive seq nowMs).2 = slot.window.canAccept seq := slot.window.accept_snd seq

@[simp] theorem canAccept_fresh (epoch : UInt32) (seq : UInt64) (nowMs : Nat) :
    (fresh epoch nowMs).window.canAccept seq = true := rfl

theorem evict_cases (slot : EpochRxSlot) (nowMs : Nat) :
    slot.evict nowMs = slot ∨ slot.evict nowMs = empty := by
  unfold evict
  split_ifs
  · exact .inr rfl
  · exact .inl rfl

end EpochRxSlot

/-- The slots of one direction. -/
structure DirSlots where
  slot0 : EpochRxSlot
  slot1 : EpochRxSlot
  deriving DecidableEq

abbrev RxSlots := SecureDirection → DirSlots

namespace DirSlots

def empty : DirSlots := ⟨.empty, .empty⟩

def evict (d : DirSlots) (nowMs : Nat) : DirSlots := ⟨d.slot0.evict nowMs, d.slot1.evict nowMs⟩

def epochInSlots (d : DirSlots) (epoch : UInt32) : Bool :=
  d.slot0.valid && d.slot0.epoch = epoch || d.slot1.valid && d.slot1.epoch = epoch

/-- The highest epoch that may follow. -/
def maxAllowedEpoch (d : DirSlots) (sendEpoch : UInt32) : Nat :=
  let baselineEpoch := sendEpoch.toNat
  let baselineEpoch := if d.slot0.valid then max baselineEpoch d.slot0.epoch.toNat else baselineEpoch
  let baselineEpoch := if d.slot1.valid then max baselineEpoch d.slot1.epoch.toNat else baselineEpoch
  min (baselineEpoch + maxAcceptedRxEpochAhead) (2 ^ 32 - 1)

/-- `precheck_replay`, when the grace copy does not have the epoch. -/
def precheck (d : DirSlots) (sendEpoch epoch : UInt32) (seq : UInt64) : Bool :=
  if d.slot0.valid = false then true
  else if epoch = d.slot0.epoch then d.slot0.window.canAccept seq
  else if d.slot1.valid ∧ epoch = d.slot1.epoch then d.slot1.window.canAccept seq
  else if d.slot0.epoch < epoch then epoch.toNat ≤ d.maxAllowedEpoch sendEpoch
  else false

/-- `commit_replay`, when the grace copy does not have the epoch. -/
def commit (d : DirSlots) (sendEpoch epoch : UInt32) (seq : UInt64) (nowMs : Nat) :
    DirSlots × Bool :=
  if d.slot0.valid = false then
    let (slot, accepted) := (EpochRxSlot.fresh epoch nowMs).receive seq nowMs
    ({ d with slot0 := slot }, accepted)
  else if epoch = d.slot0.epoch then
    let (slot, accepted) := d.slot0.receive seq nowMs
    ({ d with slot0 := slot }, accepted)
  else if d.slot1.valid ∧ epoch = d.slot1.epoch then
    let (slot, accepted) := d.slot1.receive seq nowMs
    ({ d with slot1 := slot }, accepted)
  else if d.slot0.epoch < epoch then
    if d.maxAllowedEpoch sendEpoch < epoch.toNat then (d, false)
    else
      let (slot, accepted) := (EpochRxSlot.fresh epoch nowMs).receive seq nowMs
      (⟨slot, d.slot0⟩, accepted)
  else (d, false)

/-- `can_accept` of the slot that has the epoch. -/
def canAcceptIn (d : DirSlots) (epoch : UInt32) (seq : UInt64) : Bool :=
  if d.slot0.valid ∧ d.slot0.epoch = epoch then d.slot0.window.canAccept seq
  else d.slot1.window.canAccept seq

/-- `accept` of the slot that has the epoch. -/
def acceptIn (d : DirSlots) (epoch : UInt32) (seq : UInt64) (nowMs : Nat) : DirSlots × Bool :=
  if d.slot0.valid ∧ d.slot0.epoch = epoch then
    let (slot, accepted) := d.slot0.receive seq nowMs
    ({ d with slot0 := slot }, accepted)
  else
    let (slot, accepted) := d.slot1.receive seq nowMs
    ({ d with slot1 := slot }, accepted)

/-! ### What the slots remember -/

/-- The sequence numbers of an epoch. -/
def seqsOf (A : Set (UInt32 × UInt64)) (epoch : UInt32) : Set Nat :=
  {n | ∃ seq : UInt64, (epoch, seq) ∈ A ∧ seq.toNat = n}

theorem seqsOf_empty (epoch : UInt32) : seqsOf ∅ epoch = ∅ :=
  Set.eq_empty_of_forall_notMem fun _ hn => hn.elim fun _ hseq => Set.notMem_empty _ hseq.1

theorem mem_seqsOf {A : Set (UInt32 × UInt64)} {epoch : UInt32} {seq : UInt64} :
    seq.toNat ∈ seqsOf A epoch ↔ (epoch, seq) ∈ A := by
  constructor
  · rintro ⟨seq', hmem, heq⟩
    rwa [UInt64.toNat_inj.mp heq] at hmem
  · exact fun hmem => ⟨seq, hmem, rfl⟩

theorem seqsOf_insert_self (A : Set (UInt32 × UInt64)) (epoch : UInt32) (seq : UInt64) :
    seqsOf (insert (epoch, seq) A) epoch = insert seq.toNat (seqsOf A epoch) := by
  ext n
  constructor
  · rintro ⟨q, hq, rfl⟩
    rcases Set.mem_insert_iff.mp hq with heq | hq
    · exact .inl (congrArg (fun x => x.2.toNat) heq)
    · exact .inr ⟨q, hq, rfl⟩
  · rintro (rfl | ⟨q, hq, rfl⟩)
    · exact ⟨seq, Set.mem_insert _ _, rfl⟩
    · exact ⟨q, Set.mem_insert_of_mem _ hq, rfl⟩

theorem seqsOf_insert_of_ne (A : Set (UInt32 × UInt64)) {epoch epoch' : UInt32} (seq : UInt64)
    (hne : epoch' ≠ epoch) : seqsOf (insert (epoch, seq) A) epoch' = seqsOf A epoch' := by
  ext n
  refine exists_congr fun q => and_congr_left fun _ => ?_
  rw [Set.mem_insert_iff, Prod.mk.injEq]
  exact or_iff_right fun h => hne h.1

/-- Slot 1 is the one before slot 0. -/
def Ordered (d : DirSlots) : Prop :=
  d.slot1.valid = true → d.slot0.valid = true ∧ d.slot1.epoch < d.slot0.epoch

instance (d : DirSlots) : Decidable d.Ordered := inferInstanceAs (Decidable (_ → _))

/-- The slots know every packet of `A`. -/
structure Remembers (d : DirSlots) (A : Set (UInt32 × UInt64)) : Prop where
  ordered : d.Ordered
  latest : ∀ p ∈ A, d.slot0.valid = true ∧ p.1 ≤ d.slot0.epoch
  window0 : d.slot0.window.Remembers (seqsOf A d.slot0.epoch)
  window1 : d.slot1.valid = true → d.slot1.window.Remembers (seqsOf A d.slot1.epoch)

variable {d : DirSlots} {A : Set (UInt32 × UInt64)} {sendEpoch epoch : UInt32} {seq : UInt64}

theorem Remembers.of_ordered (h : d.Ordered) : d.Remembers ∅ where
  ordered := h
  latest p hp := absurd hp (Set.notMem_empty p)
  window0 := by
    rw [seqsOf_empty]
    exact .of_empty _
  window1 _ := by
    rw [seqsOf_empty]
    exact .of_empty _

/-- What is remembered is refused. -/
theorem Remembers.fresh (h : d.Remembers A) (hpre : d.precheck sendEpoch epoch seq = true) :
    (epoch, seq) ∉ A := by
  intro hmem
  obtain ⟨hvalid, hle⟩ := h.latest _ hmem
  unfold precheck at hpre
  rw [if_neg (by simp [hvalid])] at hpre
  by_cases h0 : epoch = d.slot0.epoch
  · rw [if_pos h0] at hpre
    exact h.window0.fresh hpre (mem_seqsOf.mpr (h0 ▸ hmem))
  rw [if_neg h0] at hpre
  by_cases h1 : d.slot1.valid = true ∧ epoch = d.slot1.epoch
  · rw [if_pos h1] at hpre
    exact (h.window1 h1.1).fresh hpre (mem_seqsOf.mpr (h1.2 ▸ hmem))
  rw [if_neg h1, if_neg (UInt32.not_lt.mpr hle)] at hpre
  exact absurd hpre Bool.false_ne_true

/-- A packet that passes the check is committed. -/
theorem commit_snd (d : DirSlots) (sendEpoch epoch : UInt32) (seq : UInt64) (nowMs : Nat) :
    (d.commit sendEpoch epoch seq nowMs).2 = d.precheck sendEpoch epoch seq := by
  unfold commit precheck
  by_cases hvalid : d.slot0.valid = false
  · rw [if_pos hvalid, if_pos hvalid]
    exact EpochRxSlot.receive_snd (.fresh epoch nowMs) seq nowMs
  rw [if_neg hvalid, if_neg hvalid]
  by_cases h0 : epoch = d.slot0.epoch
  · rw [if_pos h0, if_pos h0]
    exact EpochRxSlot.receive_snd d.slot0 seq nowMs
  rw [if_neg h0, if_neg h0]
  by_cases h1 : d.slot1.valid = true ∧ epoch = d.slot1.epoch
  · rw [if_pos h1, if_pos h1]
    exact EpochRxSlot.receive_snd d.slot1 seq nowMs
  rw [if_neg h1, if_neg h1]
  by_cases hlt : d.slot0.epoch < epoch
  · rw [if_pos hlt, if_pos hlt]
    by_cases hfar : d.maxAllowedEpoch sendEpoch < epoch.toNat
    · simp [hfar]
    · rw [if_neg hfar, decide_eq_true (Nat.not_lt.mp hfar)]
      exact EpochRxSlot.receive_snd (.fresh epoch nowMs) seq nowMs
  · rw [if_neg hlt, if_neg hlt]

/-- A slot for an epoch above all that were accepted. -/
theorem Remembers.fresh_window (h : ∀ p ∈ A, p.1 < epoch) (nowMs : Nat) :
    ((EpochRxSlot.fresh epoch nowMs).receive seq nowMs).1.window.Remembers
      (seqsOf (insert (epoch, seq) A) epoch) := by
  have hnone : seqsOf A epoch = ∅ :=
    Set.eq_empty_of_forall_notMem fun n hn => hn.elim fun q hq => absurd (h _ hq.1) (UInt32.lt_irrefl _)
  have hwindow := (ReplayWindow256.Remembers.of_empty .empty).accept seq
  rw [if_pos (ReplayWindow256.canAccept_empty seq)] at hwindow
  rw [seqsOf_insert_self, hnone]
  exact hwindow

/-- A packet that is committed is remembered with the others. -/
theorem Remembers.commit (h : d.Remembers A) (hpre : d.precheck sendEpoch epoch seq = true)
    (nowMs : Nat) : (d.commit sendEpoch epoch seq nowMs).1.Remembers (insert (epoch, seq) A) := by
  unfold DirSlots.commit
  unfold precheck at hpre
  by_cases hvalid : d.slot0.valid = false
  · rw [if_pos hvalid]
    have hnone : ∀ p ∈ A, p.1 < epoch := fun p hp => by simp [(h.latest p hp).1] at hvalid
    have hslot1 : d.slot1.valid ≠ true := fun h1 => by simp [(h.ordered h1).1] at hvalid
    refine ⟨fun h1 => absurd h1 hslot1, ?_, fresh_window hnone nowMs, fun h1 => absurd h1 hslot1⟩
    intro p hp
    rcases Set.mem_insert_iff.mp hp with rfl | hp
    · exact ⟨rfl, UInt32.le_refl _⟩
    · exact ⟨rfl, UInt32.le_of_lt (hnone p hp)⟩
  rw [if_neg hvalid] at hpre ⊢
  have hvalid' := Bool.eq_true_of_not_eq_false hvalid
  by_cases h0 : epoch = d.slot0.epoch
  · subst h0
    rw [if_pos rfl] at hpre ⊢
    refine ⟨h.ordered, ?_, ?_, ?_⟩
    · intro p hp
      rcases Set.mem_insert_iff.mp hp with rfl | hp
      · exact ⟨hvalid', UInt32.le_refl _⟩
      · exact h.latest p hp
    · have hwindow := h.window0.accept seq
      rw [if_pos hpre] at hwindow
      dsimp only
      rw [EpochRxSlot.receive_epoch, seqsOf_insert_self]
      exact hwindow
    · intro h1
      rw [seqsOf_insert_of_ne A seq (UInt32.ne_of_lt (h.ordered h1).2)]
      exact h.window1 h1
  rw [if_neg h0] at hpre ⊢
  by_cases h1 : d.slot1.valid = true ∧ epoch = d.slot1.epoch
  · obtain ⟨h1, rfl⟩ := h1
    rw [if_pos ⟨h1, rfl⟩] at hpre ⊢
    refine ⟨h.ordered, ?_, ?_, ?_⟩
    · intro p hp
      rcases Set.mem_insert_iff.mp hp with rfl | hp
      · exact ⟨hvalid', UInt32.le_of_lt (h.ordered h1).2⟩
      · exact h.latest p hp
    · rw [seqsOf_insert_of_ne A seq (Ne.symm h0)]
      exact h.window0
    · intro _
      have hwindow := (h.window1 h1).accept seq
      rw [if_pos hpre] at hwindow
      dsimp only
      rw [EpochRxSlot.receive_epoch, seqsOf_insert_self]
      exact hwindow
  rw [if_neg h1] at hpre ⊢
  by_cases hlt : d.slot0.epoch < epoch
  · rw [if_pos hlt, decide_eq_true_iff] at hpre
    rw [if_pos hlt, if_neg (Nat.not_lt.mpr hpre)]
    have hbelow : ∀ p ∈ A, p.1 < epoch := fun p hp => UInt32.lt_of_le_of_lt (h.latest p hp).2 hlt
    refine ⟨fun _ => ⟨rfl, hlt⟩, ?_, fresh_window hbelow nowMs, fun _ => ?_⟩
    · intro p hp
      rcases Set.mem_insert_iff.mp hp with rfl | hp
      · exact ⟨rfl, UInt32.le_refl _⟩
      · exact ⟨rfl, UInt32.le_of_lt (hbelow p hp)⟩
    · rw [seqsOf_insert_of_ne A seq (UInt32.ne_of_lt hlt)]
      exact h.window0
  · rw [if_neg hlt] at hpre
    exact absurd hpre Bool.false_ne_true

/-- Losing slot 1 loses nothing. -/
theorem Remembers.evict (h : d.Remembers A) {nowMs : Nat} (hkept : d.slot0.overdue nowMs = false) :
    (d.evict nowMs).Remembers A := by
  have h0 : (d.evict nowMs).slot0 = d.slot0 := if_neg (by simp [hkept])
  rcases d.slot1.evict_cases nowMs with h1 | h1
  · have hsame : d.evict nowMs = d := congrArg₂ DirSlots.mk h0 h1
    rw [hsame]
    exact h
  · have h1' : (d.evict nowMs).slot1 = EpochRxSlot.empty := h1
    refine ⟨fun hv => ?_, fun p hp => ?_, ?_, fun hv => ?_⟩
    · rw [h1'] at hv
      exact Bool.noConfusion hv
    · rw [h0]
      exact h.latest p hp
    · rw [h0]
      exact h.window0
    · rw [h1'] at hv
      exact Bool.noConfusion hv

end DirSlots

end RustCrash.EasyTier
