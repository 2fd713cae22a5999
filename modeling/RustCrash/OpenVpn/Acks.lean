import RustCrash.Lib.SeenPool
import RustCrash.OpenVpn.Reliable

/-
  The acks of a key epoch: `append_ack` adds the id of a packet to those that are pending, and
  `take_acks` takes some from the front and returns the most recently taken.

  The swaps of `take_acks` are a move to the front of a bounded list. Since each call takes at least
  four, an id that is pending is returned after a number of calls that its place fixes.
-/

namespace RustCrash.OpenVpn

open Lib

/-- How many ids `take_acks` is asked for. -/
inductive AckMax where
  /-- `CONTROL_SEND_ACK_MAX`. -/
  | controlSend
  /-- `RELIABLE_ACK_SIZE`, in the dedicated acks of a protected channel. -/
  | reliable

def AckMax.val : AckMax → Nat
  | controlSend => controlSendAckMax
  | reliable => reliableAckSize

theorem AckMax.four_le (max : AckMax) : 4 ≤ max.val := by cases max <;> decide

theorem AckMax.le_size (max : AckMax) : max.val ≤ reliableAckSize := by cases max <;> decide

inductive AckCall where
  | append (ack : UInt32)
  | take (max : AckMax)

namespace Reliable

def ackStep (r : Reliable) : AckCall → Reliable
  | .append ack => { r with ackPending := appendAck r.ackPending ack }
  | .take max => (r.takeAcks max.val).1

/-- The lists that a sequence of calls returns. -/
def returns (r : Reliable) (calls : List AckCall) : List (List UInt32) :=
  (Machine.steps ackStep r calls).filterMap fun x =>
    match x.2 with
    | .append _ => none
    | .take max => some (x.1.takeAcks max.val).2

def takes (calls : List AckCall) : Nat :=
  calls.countP fun | .append _ => false | .take _ => true

/-! ## The move to the front -/

theorem moveFront_mem {id : UInt32} (moving : UInt32) {slots : List UInt32} (h : id ∈ slots) :
    moveFront id moving slots = (moving :: slots.erase id, none) := by
  induction slots generalizing moving with
  | nil => cases h
  | cons slot slots ih =>
    unfold moveFront
    by_cases hslot : slot = id
    · rw [if_pos hslot, hslot, List.erase_cons_head]
    · have hmem : id ∈ slots := (List.mem_cons.mp h).resolve_left (Ne.symm hslot)
      rw [if_neg hslot, ih slot hmem, List.erase_cons_tail (by simpa using hslot)]

theorem moveFront_not_mem {id : UInt32} (moving : UInt32) {slots : List UInt32}
    (h : id ∉ slots) :
    ∃ init last, moveFront id moving slots = (init, some last) ∧
      init ++ [last] = moving :: slots := by
  induction slots generalizing moving with
  | nil => exact ⟨[], moving, rfl, rfl⟩
  | cons slot slots ih =>
    obtain ⟨hslot, hrest⟩ := not_or.mp (mt List.mem_cons.mpr h)
    obtain ⟨init, last, hmove, heq⟩ := ih slot hrest
    refine ⟨moving :: init, last, ?_, by rw [List.cons_append, heq]⟩
    unfold moveFront
    rw [if_neg (Ne.symm hslot), hmove]

theorem touch_eq {lru : List UInt32} (h : lru.length ≤ reliableAckSize) (id : UInt32) :
    touch lru id = Recent.touch reliableAckSize lru id := by
  unfold touch Recent.touch
  by_cases hmem : id ∈ lru
  · have hpos := List.length_pos_of_mem hmem
    rw [moveFront_mem id hmem, List.take_of_length_le]
    rw [List.length_cons, List.length_erase_of_mem hmem]
    omega
  · obtain ⟨init, last, hmove, heq⟩ := moveFront_not_mem id hmem
    have hlen : init.length = lru.length := by
      have hlens := congrArg List.length heq
      rwa [List.length_append, List.length_singleton, List.length_cons, Nat.add_right_cancel_iff]
        at hlens
    rw [hmove, List.erase_of_not_mem hmem, ← heq]
    dsimp only
    split
    · rename_i hroom
      rw [List.take_of_length_le]
      rw [List.length_append, List.length_singleton]
      omega
    · -- the list is full, and the last is dropped
      have hfull : init.length = reliableAckSize := by omega
      rw [← hfull, List.take_left]

theorem foldl_touch_eq {lru : List UInt32} (h : lru.length ≤ reliableAckSize)
    (ids : List UInt32) :
    ids.reverse.foldl touch lru =
      ids.foldr (fun id lru => Recent.touch reliableAckSize lru id) lru := by
  rw [List.foldl_reverse]
  induction ids with
  | nil => rfl
  | cons id ids ih =>
    rw [List.foldr_cons, List.foldr_cons, ih]
    exact touch_eq (Recent.length_foldr_touch_le h ids) id

/-! ## One call -/

/-- What holds of the two lists of acks between calls. -/
structure Acked (r : Reliable) : Prop where
  pending : r.ackPending.Nodup
  lru : r.lruAcks.Nodup
  bounded : r.lruAcks.length ≤ reliableAckSize

theorem acked_beginEpoch (r : Reliable) (keyId : UInt8) : (r.beginEpoch keyId).Acked :=
  ⟨List.nodup_nil, List.nodup_nil, Nat.zero_le _⟩

theorem nodup_appendAck {acks : List UInt32} (h : acks.Nodup) (ack : UInt32) :
    (appendAck acks ack).Nodup := by
  unfold appendAck
  split
  · exact h
  · rename_i hnew
    exact List.nodup_append'.mpr ⟨h, List.nodup_singleton ack, List.disjoint_singleton.mpr hnew⟩

theorem prefix_appendAck (acks : List UInt32) (ack : UInt32) : acks <+: appendAck acks ack := by
  unfold appendAck
  split
  · exact List.prefix_refl acks
  · exact List.prefix_append _ _

theorem mem_appendAck_self (acks : List UInt32) (ack : UInt32) : ack ∈ appendAck acks ack := by
  unfold appendAck
  split
  · assumption
  · exact List.mem_append_right _ (List.mem_singleton_self ack)

theorem Acked.takeAcks_lru {r : Reliable} (h : r.Acked) (max : Nat) :
    (r.takeAcks max).1.lruAcks = (r.ackPending.take max).foldr
      (fun id lru => Recent.touch reliableAckSize lru id) r.lruAcks := by
  have htake : r.ackPending.take (min r.ackPending.length max) = r.ackPending.take max := by
    rw [Nat.min_comm]
    exact List.take_eq_take_min.symm
  unfold Reliable.takeAcks
  dsimp only
  rw [htake, foldl_touch_eq h.bounded]
  exact List.take_of_length_le (Recent.length_foldr_touch_le h.bounded _)

theorem takeAcks_ackPending (r : Reliable) (max : Nat) :
    (r.takeAcks max).1.ackPending = r.ackPending.drop max := by
  unfold Reliable.takeAcks
  dsimp only
  by_cases hle : max ≤ r.ackPending.length
  · rw [Nat.min_eq_right hle]
  · rw [Nat.min_eq_left (by omega), List.drop_length, List.drop_eq_nil_of_le (by omega)]

theorem Acked.step {r : Reliable} (h : r.Acked) (call : AckCall) : (r.ackStep call).Acked := by
  cases call with
  | append ack => exact ⟨nodup_appendAck h.pending ack, h.lru, h.bounded⟩
  | take max =>
    refine ⟨?_, ?_, ?_⟩
    · have hdrop := takeAcks_ackPending r max.val
      unfold ackStep
      rw [hdrop]
      exact h.pending.sublist (List.drop_sublist _ _)
    · unfold ackStep
      rw [h.takeAcks_lru]
      exact Recent.nodup_foldr_touch h.lru _
    · unfold ackStep
      rw [h.takeAcks_lru]
      exact Recent.length_foldr_touch_le h.bounded _

theorem Acked.run {r : Reliable} (h : r.Acked) (calls : List AckCall) :
    (calls.foldl ackStep r).Acked :=
  Machine.inv_of_step Acked (fun _ call hr => hr.step call) h calls _
    (Machine.foldl_mem_states r calls)

theorem Acked.takeAcks {r : Reliable} (h : r.Acked) (max : AckMax) :
    (r.takeAcks max.val).2.length ≤ max.val ∧ (r.takeAcks max.val).2.Nodup ∧
      r.ackPending.take (min max.val r.ackPending.length) <+: (r.takeAcks max.val).2 := by
  have hacks : (r.takeAcks max.val).2 = (r.takeAcks max.val).1.lruAcks.take max.val := rfl
  have hlen : (r.ackPending.take max.val).length ≤ max.val := List.length_take_le _ _
  rw [hacks]
  refine ⟨List.length_take_le _ _, (h.step (.take max)).lru.sublist (List.take_sublist _ _), ?_⟩
  rw [← List.take_eq_take_min, h.takeAcks_lru]
  have hfront := Recent.prefix_foldr_touch r.lruAcks (h.pending.sublist (List.take_sublist _ _))
    (hlen.trans max.le_size)
  exact List.prefix_take_iff.mpr ⟨hfront, hlen⟩

/-! ## Many calls -/

/-- A pending id is returned, by a call that its place fixes. -/
theorem returned {r : Reliable} (h : r.Acked) {id : UInt32} {i : Nat}
    (hid : r.ackPending[i]? = some id) {calls : List AckCall} (hcalls : i < 4 * takes calls) :
    ∃ acks ∈ r.returns calls, id ∈ acks := by
  induction calls generalizing r i with
  | nil => exact absurd hcalls (Nat.not_lt_zero i)
  | cons call calls ih =>
    have hlen : i < r.ackPending.length := (List.getElem?_eq_some_iff.mp hid).1
    cases call with
    | append ack =>
      have hsame : (r.ackStep (.append ack)).ackPending[i]? = some id := by
        obtain ⟨rest, hrest⟩ := prefix_appendAck r.ackPending ack
        unfold ackStep
        dsimp only
        rw [← hrest, List.getElem?_append_left hlen, hid]
      exact ih (h.step (.append ack)) hsame hcalls
    | take max =>
      have hfour := max.four_le
      have hcount : takes (.take max :: calls) = takes calls + 1 := List.countP_cons_of_pos rfl
      have hcons : r.returns (.take max :: calls) =
          (r.takeAcks max.val).2 :: (r.ackStep (.take max)).returns calls := rfl
      rw [hcons]
      by_cases hfront : i < max.val
      · have hmem : id ∈ r.ackPending.take (min max.val r.ackPending.length) :=
          List.mem_iff_getElem?.mpr ⟨i, by
            rw [List.getElem?_take_of_lt (Nat.lt_min.mpr ⟨hfront, hlen⟩), hid]⟩
        exact ⟨_, List.mem_cons_self, (h.takeAcks max).2.2.subset hmem⟩
      · have hnext : (r.ackStep (.take max)).ackPending[i - max.val]? = some id := by
          have hdrop := takeAcks_ackPending r max.val
          unfold ackStep
          rw [hdrop, List.getElem?_drop, Nat.add_sub_of_le (by omega), hid]
        obtain ⟨acks, hacks, hid⟩ := ih (h.step (.take max)) hnext (by omega)
        exact ⟨acks, List.mem_cons_of_mem _ hacks, hid⟩

/-- The acks of an epoch. -/
theorem acks_of_epoch (r : Reliable) (keyId : UInt8) (calls : List AckCall) :
    let s := calls.foldl ackStep (r.beginEpoch keyId)
    (s.lruAcks.Nodup ∧ s.lruAcks.length ≤ 8) ∧
    (∀ max : AckMax, (s.takeAcks max.val).2.length ≤ max.val ∧ (s.takeAcks max.val).2.Nodup ∧
      s.ackPending.take (min max.val s.ackPending.length) <+: (s.takeAcks max.val).2) ∧
    ∀ (ack : UInt32), ∃ enough, ∀ later, enough ≤ takes later →
      ∃ acks ∈ (s.ackStep (.append ack)).returns later, ack ∈ acks := by
  intro s
  have hacked : s.Acked := (acked_beginEpoch r keyId).run calls
  refine ⟨⟨hacked.lru, hacked.bounded⟩, hacked.takeAcks, fun ack => ?_⟩
  obtain ⟨i, hi⟩ := List.mem_iff_getElem?.mp (mem_appendAck_self s.ackPending ack)
  refine ⟨i + 1, fun later hlater => ?_⟩
  exact returned (hacked.step (.append ack)) hi (by omega)

end Reliable

end RustCrash.OpenVpn
