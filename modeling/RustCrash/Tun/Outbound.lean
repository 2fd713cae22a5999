import RustCrash.Tun.Flow

/-
  From the relay to the socket.

  What the writes accepted is what was handed to the socket, then the queue (`Handing`). The FIN
  goes out behind the last byte, and a pass hands over as much as the socket has room for. A
  drop turns the next pass into an abort, also after a shutdown: what the socket has no room for
  in that pass is never handed over. `outbound_stream` has the condition (`HasRoom`).
-/

namespace RustCrash.Tun

open Lib

namespace Flow

section

variable {Sock Net : Type} {a : TcpApi Sock Net} {f : Flow Sock}

/-- The peer is alive: a poll does not close a socket whose FIN is not out. -/
def Alive (a : TcpApi Sock Net) (f : Flow Sock) : Event Net → Prop
  | .poll net => f.gone = false → f.conn.finSent = false →
      (a.state f.conn.sock).sends = true → (a.state (a.poll f.conn.sock net)).sends = true
  | _ => True

/-- What holds of the way out, whatever the relay does. -/
structure Handing (a : TcpApi Sock Net) (f : Flow Sock) : Prop where
  order : f.handed ++ f.conn.bufs.toStack = f.accepted
  finLast : f.conn.finSent = true → f.conn.bufs.toStack = []
  finClosed : f.conn.finSent = true → f.conn.bufs.writeClosed = true
  sends : f.gone = false → f.conn.finSent = false → (a.state f.conn.sock).sends = true
  aborted : f.conn.bufs.aborted = f.dropped
  shut : f.dropped = false → f.conn.bufs.writeClosed = f.shut
  closed : f.dropped = true → f.conn.bufs.writeClosed = true
  removed : f.gone = true → f.conn.finSent = true ∨ f.dropped = true

theorem handing_start {sock : Sock} (h : a.state sock = .established) :
    Handing a (start a sock) where
  order := rfl
  finLast := nofun
  finClosed := nofun
  sends _ _ := by
    show (a.state sock).sends = true
    rw [h]
    rfl
  aborted := rfl
  shut _ := rfl
  closed := nofun
  removed := nofun

/-- A pass hands over the front of the queue. -/
theorem pass_handed (hl : a.Lawful) (f : Flow Sock) :
    (f.pass a).handed = f.handed ++ f.conn.bufs.toStack.take (a.sendRoom f.conn.sock) := by
  have hs := (serviced hl f.conn).toStack
  show f.handed ++ f.conn.bufs.toStack.take (f.conn.bufs.toStack.length -
    (serviceConn a f.conn).1.bufs.toStack.length) = _
  rw [hs, List.length_drop]
  congr 1
  rcases Nat.le_total (a.sendRoom f.conn.sock) f.conn.bufs.toStack.length with h | h
  · rw [Nat.sub_sub_self h]
  · rw [Nat.sub_eq_zero_of_le h, Nat.sub_zero, List.take_length, List.take_of_length_le h]

/-- Behind a pass that sent the FIN the queue is empty. -/
theorem pass_finLast (hl : a.Lawful) (h : Handing a f) (hfin : (f.pass a).conn.finSent = true) :
    (f.pass a).conn.bufs.toStack = [] := by
  have hs := serviced hl f.conn
  rcases Bool.or_eq_true_iff.mp (hs.finSent.symm.trans hfin) with hold | hnew
  · show (serviceConn a f.conn).1.bufs.toStack = []
    rw [hs.toStack, h.finLast hold, List.drop_nil]
  · rw [Bool.and_eq_true] at hnew
    exact List.isEmpty_iff.mp hnew.2

/-- A pass over a stream that is not dropped leaves the socket sending as long as the FIN is not
    out. -/
theorem pass_sends (hl : a.Lawful) (h : Handing a f) (hlive : f.gone = false)
    (hheld : f.dropped = false) (hfin : (f.pass a).conn.finSent = false) :
    (a.state (f.pass a).conn.sock).sends = true := by
  have hs := serviced hl f.conn
  have hold : f.conn.finSent = false := by
    have heq := hs.finSent.symm.trans hfin
    rw [Bool.or_eq_false_iff] at heq
    exact heq.1
  rcases hs.state_or (h.aborted.trans hheld) with hst | ⟨hnew, -⟩
  · show (a.state (serviceConn a f.conn).1.sock).sends = true
    rw [hst]
    exact h.sends hlive hold
  · have hfin' : (serviceConn a f.conn).1.finSent = false := hfin
    rw [hfin'] at hnew
    cases hnew

theorem handing_pass (hl : a.Lawful) (h : Handing a f) (hlive : f.gone = false) :
    Handing a (f.pass a) := by
  have hs := serviced hl f.conn
  have hsplit : (f.pass a).conn.bufs.toStack = f.conn.bufs.toStack.drop (a.sendRoom f.conn.sock) :=
    hs.toStack
  refine
    { order := ?_
      finLast := pass_finLast hl h
      finClosed := fun hfin => ?_
      sends := fun hgone hfin => ?_
      aborted := hs.aborted.trans h.aborted
      shut := fun hheld => hs.writeClosed.trans (h.shut hheld)
      closed := fun hdrop => hs.writeClosed.trans (h.closed hdrop)
      removed := fun hgone => ?_ }
  · rw [pass_handed hl, hsplit, List.append_assoc, List.take_append_drop]
    exact h.order
  · show (serviceConn a f.conn).1.bufs.writeClosed = true
    rw [hs.writeClosed]
    rcases Bool.or_eq_true_iff.mp (hs.finSent.symm.trans hfin) with hold | hnew
    · exact h.finClosed hold
    · rw [Bool.and_eq_true] at hnew
      exact hnew.1
  · cases hheld : f.dropped with
    | false => exact pass_sends hl h hlive hheld hfin
    | true =>
      have hclosed := hs.stateAborted (h.aborted.trans hheld)
      have hgone' : decide (a.state (serviceConn a f.conn).1.sock = .closed) = false :=
        hs.removed.symm.trans hgone
      rw [hclosed] at hgone'
      cases hgone'
  · by_contra hno
    rw [not_or] at hno
    have hheld : f.dropped = false := Bool.eq_false_of_not_eq_true hno.2
    have hsends := pass_sends hl h hlive hheld (Bool.eq_false_of_not_eq_true hno.1)
    have hclosed : a.state (serviceConn a f.conn).1.sock = .closed :=
      of_decide_eq_true (hs.removed.symm.trans hgone)
    rw [show (f.pass a).conn.sock = (serviceConn a f.conn).1.sock from rfl, hclosed] at hsends
    cases hsends

theorem handing_write (h : Handing a f) (buf : Bytes) : Handing a (f.write buf) := by
  obtain ⟨writeWaker, hbufs, hrefuse⟩ := f.conn.bufs.pollWrite_spec buf
  unfold write
  dsimp only
  rw [hbufs]
  refine
    { order := ?_
      finLast := fun hfin => ?_
      finClosed := h.finClosed
      sends := h.sends
      aborted := h.aborted
      shut := h.shut
      closed := h.closed
      removed := h.removed }
  · show f.handed ++ (f.conn.bufs.toStack ++ (f.conn.bufs.pollWrite buf).2.accepted buf) =
      f.accepted ++ (f.conn.bufs.pollWrite buf).2.accepted buf
    rw [← List.append_assoc, h.order]
  · show f.conn.bufs.toStack ++ (f.conn.bufs.pollWrite buf).2.accepted buf = []
    rw [h.finLast hfin, hrefuse (h.finClosed hfin), List.append_nil]

theorem handing_step (hl : a.Lawful) (h : Handing a f) {e : Event Net} (he : Alive a f e) :
    Handing a (f.step a e) := by
  cases e with
  | poll net =>
    unfold step
    dsimp only
    split_ifs with hgone
    · exact h
    · have hlive : f.gone = false := by simpa using hgone
      exact ⟨h.order, h.finLast, h.finClosed, fun _ hfin => he hlive hfin (h.sends hlive hfin),
        h.aborted, h.shut, h.closed, h.removed⟩
  | pass =>
    unfold step
    dsimp only
    split_ifs with hgone
    · exact h
    · exact handing_pass hl h (by simpa using hgone)
  | read remaining =>
    unfold step
    dsimp only
    split_ifs
    · exact h
    · obtain ⟨toProxy, readWaker, hbufs, -⟩ := f.conn.bufs.pollRead_spec remaining
      unfold read
      dsimp only
      rw [hbufs]
      exact ⟨h.order, h.finLast, h.finClosed, h.sends, h.aborted, h.shut, h.closed, h.removed⟩
  | write buf =>
    unfold step
    dsimp only
    split_ifs
    · exact h
    · exact handing_write h buf
  | shutdown =>
    unfold step
    dsimp only
    split_ifs
    · exact h
    · exact ⟨h.order, h.finLast, fun _ => rfl, h.sends, h.aborted, fun _ => rfl, fun _ => rfl,
        h.removed⟩
  | drop =>
    unfold step
    dsimp only
    split_ifs
    · exact h
    · exact ⟨h.order, h.finLast, fun _ => rfl, h.sends, rfl, nofun, fun _ => rfl,
        fun _ => Or.inr rfl⟩

/-! ## What a removed connection leaves behind -/

/-- After a shutdown the connection is not removed before every byte is handed over. -/
def Delivered (f : Flow Sock) : Prop :=
  f.shut = true → f.gone = true → f.handed = f.accepted

theorem handing_delivered_iff (h : Handing a f) :
    Delivered f ↔ (f.shut = true → f.gone = true → f.conn.bufs.toStack = []) := by
  unfold Delivered
  rw [← h.order]
  simp

/-- The pass after a drop has room for the whole queue, if the stream was shut down before. -/
def HasRoom (a : TcpApi Sock Net) (f : Flow Sock) : Event Net → Prop
  | .pass => f.gone = false → f.shut = true → f.dropped = true →
      f.conn.bufs.toStack.length ≤ a.sendRoom f.conn.sock
  | _ => True

theorem delivered_pass (hl : a.Lawful) (h : Handing a f) (hlive : f.gone = false) :
    Delivered (f.pass a) ↔ HasRoom a f (.pass : Event Net) := by
  have hs := serviced hl f.conn
  have hrest : (f.pass a).conn.bufs.toStack = f.conn.bufs.toStack.drop (a.sendRoom f.conn.sock) :=
    hs.toStack
  rw [handing_delivered_iff (handing_pass hl h hlive), hrest, List.drop_eq_nil_iff]
  constructor
  · intro hdone _ hshut hdrop
    refine hdone hshut ?_
    show (serviceConn a f.conn).2 = true
    rw [hs.removed, hs.stateAborted (h.aborted.trans hdrop)]
    rfl
  · intro hroom hshut hgone
    cases hheld : f.dropped with
    | true => exact hroom hlive hshut hheld
    | false =>
      rw [← List.drop_eq_nil_iff, ← hrest]
      rcases (handing_pass hl h hlive).removed hgone with hfin | hdrop
      · exact pass_finLast hl h hfin
      · rw [show (f.pass a).dropped = f.dropped from rfl, hheld] at hdrop
        cases hdrop

theorem delivered_step (hl : a.Lawful) (h : Handing a f) (hd : Delivered f) {e : Event Net}
    (he : Alive a f e) : Delivered (f.step a e) ↔ HasRoom a f e := by
  have hnext := handing_step hl h he
  have hd' := (handing_delivered_iff h).mp hd
  cases e with
  | pass =>
    unfold step
    dsimp only
    split_ifs with hgone
    · exact ⟨fun _ hlive => absurd hgone (by rw [hlive]; decide), fun _ => hd⟩
    · exact delivered_pass hl h (by simpa using hgone)
  | poll net =>
    refine iff_of_true ?_ trivial
    unfold step
    dsimp only
    split_ifs <;> exact hd
  | read remaining =>
    refine iff_of_true ?_ trivial
    unfold step
    dsimp only
    split_ifs <;> exact hd
  | write buf =>
    refine iff_of_true ?_ trivial
    rw [handing_delivered_iff hnext]
    unfold step
    dsimp only
    split_ifs with hheld
    · exact hd'
    · intro hshut hgone
      have hopen : f.dropped = false := by simpa using hheld
      obtain ⟨writeWaker, hbufs, hrefuse⟩ := f.conn.bufs.pollWrite_spec buf
      show (f.conn.bufs.pollWrite buf).1.toStack = []
      rw [hbufs]
      show f.conn.bufs.toStack ++ (f.conn.bufs.pollWrite buf).2.accepted buf = []
      rw [hd' hshut hgone, hrefuse ((h.shut hopen).trans hshut), List.append_nil]
  | shutdown =>
    refine iff_of_true ?_ trivial
    rw [handing_delivered_iff hnext]
    unfold step
    dsimp only
    split_ifs with hheld
    · exact hd'
    · intro _ hgone
      rcases h.removed hgone with hfin | hdrop
      · exact h.finLast hfin
      · exact absurd hdrop hheld
  | drop =>
    refine iff_of_true ?_ trivial
    unfold step
    dsimp only
    split_ifs <;> exact hd

/-! ## Whole runs -/

/-- What the writes of a run may rely on in a state of it. -/
structure Faithful (a : TcpApi Sock Net) (f : Flow Sock) : Prop where
  /-- In order, exactly once. -/
  order : f.handed ++ f.conn.bufs.toStack = f.accepted
  /-- All bytes go before the FIN. -/
  finLast : f.conn.finSent = true → f.handed = f.accepted
  /-- Until the FIN is out, only the send buffer of the socket holds bytes back. -/
  progress : f.gone = false → (f.pass a).handed =
    f.handed ++ f.conn.bufs.toStack.take (a.sendRoom f.conn.sock)
  sends : f.gone = false → f.conn.finSent = false →
    a.sendRoom f.conn.sock = a.txRoom f.conn.sock
  fin : f.gone = false → f.conn.bufs.writeClosed = true →
    f.conn.bufs.toStack.length ≤ a.sendRoom f.conn.sock → (f.pass a).conn.finSent = true

theorem Handing.faithful (hl : a.Lawful) (h : Handing a f) : Faithful a f where
  order := h.order
  finLast hfin := by rw [← h.order, h.finLast hfin, List.append_nil]
  progress _ := pass_handed hl f
  sends hlive hfin := if_pos (h.sends hlive hfin)
  fin _ hclosed hroom := by
    have hs := serviced hl f.conn
    show (serviceConn a f.conn).1.finSent = true
    rw [hs.finSent, hs.toStack, List.drop_eq_nil_of_le hroom, hclosed]
    simp

/-- In every run with a live peer the bytes go out in order and before the FIN; and none is left
    behind after a shutdown exactly if the pass after a drop has room for all. -/
theorem outbound_stream (hl : a.Lawful) {sock : Sock} (hs : a.state sock = .established)
    {es : List (Event Net)}
    (halive : ∀ x ∈ Machine.steps (step a) (start a sock) es, Alive a x.1 x.2) :
    (∀ t ∈ Machine.states (step a) (start a sock) es, Faithful a t) ∧
      ((∀ t ∈ Machine.states (step a) (start a sock) es, Delivered t) ↔
        ∀ x ∈ Machine.steps (step a) (start a sock) es, HasRoom a x.1 x.2) := by
  have hall : ∀ t ∈ Machine.states (step a) (start a sock) es, Handing a t :=
    Machine.inv_of_good (Handing a) (Alive a) (fun t e ht he => handing_step hl ht he)
      (handing_start hs) halive
  refine ⟨fun t ht => (hall t ht).faithful hl, ?_⟩
  rw [← Machine.inv_iff_under (fun t => Handing a t ∧ Delivered t) (Alive a) (HasRoom a)
    (fun t e he ht => ?_) ⟨handing_start hs, nofun⟩ halive]
  · exact ⟨fun h t ht => ⟨hall t ht, h t ht⟩, fun h t ht => (h t ht).2⟩
  · rw [← delivered_step hl ht.1 ht.2 he]
    exact and_iff_right (handing_step hl ht.1 he)

theorem outbound_stream_sample :
    (∀ t ∈ Machine.states (step sampleApi) (start sampleApi .fresh) [.write [1, 2], .pass],
        Faithful sampleApi t) ∧
      ((∀ t ∈ Machine.states (step sampleApi) (start sampleApi .fresh) [.write [1, 2], .pass],
          Delivered t) ↔
        ∀ x ∈ Machine.steps (step sampleApi) (start sampleApi .fresh) [.write [1, 2], .pass],
          HasRoom sampleApi x.1 x.2) :=
  outbound_stream sampleApi_lawful rfl (by simp [Machine.steps, Alive])

end

/-! ## A drop after a shutdown -/

/-- One write of more than the send buffer holds, a shutdown, and the drop of the stream. -/
def droppedRun (buf : Bytes) : List (Event SampleNet) := [.write buf, .shutdown, .drop, .pass]

theorem droppedRun_alive (buf : Bytes) :
    ∀ x ∈ Machine.steps (step sampleApi) (start sampleApi .fresh) (droppedRun buf),
      Alive sampleApi x.1 x.2 := by
  simp [droppedRun, Machine.steps, Alive]

theorem droppedRun_truncates {buf : Bytes} (hfits : buf.length ≤ streamQueueMax)
    (hlong : tcpTxBytes < buf.length) :
    ((droppedRun buf).foldl (step sampleApi) (start sampleApi .fresh)).shut = true ∧
      ((droppedRun buf).foldl (step sampleApi) (start sampleApi .fresh)).gone = true ∧
      ((droppedRun buf).foldl (step sampleApi) (start sampleApi .fresh)).handed ≠
        ((droppedRun buf).foldl (step sampleApi) (start sampleApi .fresh)).accepted := by
  have hl := sampleApi_lawful
  let f := (((start sampleApi .fresh).write buf).shutdown).drop
  have hrun : (droppedRun buf).foldl (step sampleApi) (start sampleApi .fresh) =
      f.pass sampleApi := rfl
  have hqueue : f.conn.bufs.toStack = buf := by
    show (StreamBufs.new.pollWrite buf).1.toStack = buf
    unfold StreamBufs.pollWrite
    rw [if_neg (show ¬ (StreamBufs.new.aborted || StreamBufs.new.writeClosed) = true by decide)]
    dsimp only
    rw [if_neg (show ¬ streamQueueMax - StreamBufs.new.toStack.length = 0 by decide)]
    show [] ++ buf.take (min (streamQueueMax - 0) buf.length) = buf
    rw [List.nil_append, Nat.sub_zero, Nat.min_eq_right hfits, List.take_length]
  have hhand : Handing sampleApi f :=
    handing_step hl (handing_step hl (handing_write (handing_start rfl) buf)
      (e := .shutdown) trivial) (e := .drop) trivial
  have hs := serviced hl f.conn
  have hgone : (f.pass sampleApi).gone = true := by
    show (serviceConn sampleApi f.conn).2 = true
    rw [hs.removed, hs.stateAborted rfl]
    rfl
  have hhand' := handing_pass hl hhand rfl
  rw [hrun]
  refine ⟨rfl, hgone, fun hdone => ?_⟩
  have hempty := (handing_delivered_iff hhand').mp (fun _ _ => hdone) rfl hgone
  rw [show (f.pass sampleApi).conn.bufs.toStack = f.conn.bufs.toStack.drop (sampleApi.sendRoom
    f.conn.sock) from hs.toStack, hqueue, List.drop_eq_nil_iff] at hempty
  have hroom : sampleApi.sendRoom f.conn.sock = tcpTxBytes := rfl
  omega

/-- The peer is alive, and the last byte before the shutdown is never handed over. -/
theorem last_byte_dropped : ∃ buf : Bytes, buf.length = tcpTxBytes + 1 ∧
    (∀ x ∈ Machine.steps (step sampleApi) (start sampleApi .fresh) (droppedRun buf),
      Alive sampleApi x.1 x.2) ∧
    ((droppedRun buf).foldl (step sampleApi) (start sampleApi .fresh)).shut = true ∧
    ((droppedRun buf).foldl (step sampleApi) (start sampleApi .fresh)).gone = true ∧
    ((droppedRun buf).foldl (step sampleApi) (start sampleApi .fresh)).handed ≠
      ((droppedRun buf).foldl (step sampleApi) (start sampleApi .fresh)).accepted := by
  have hlen : (List.replicate (tcpTxBytes + 1) (0 : UInt8)).length = tcpTxBytes + 1 :=
    List.length_replicate
  exact ⟨List.replicate (tcpTxBytes + 1) 0, hlen, droppedRun_alive _,
    droppedRun_truncates (by rw [hlen]; decide) (by omega)⟩

end Flow

end RustCrash.Tun
