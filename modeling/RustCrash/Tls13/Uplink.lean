import RustCrash.Lib.Machine
import RustCrash.Tls13.Peer

/-
  The writing half of a TLS 1.3 connection over a whole run of `poll_write`, `poll_read`,
  `poll_flush` and `poll_shutdown`.

  A run keeps what the transport has taken, what `poll_write` has reported, and the buffer of a
  `poll_write` that is not ready. The peer opens what was taken when it is followed by what is
  unsent, first `out` and then `ctl` (`Delivers`).

  That holds as long as the two buffers leave in the order in which they were sealed (`InOrder`):
  a control record is sent while no record of a write is unfinished, and no new record is sealed
  while a control record is unsent. The source keeps to neither.
-/

namespace RustCrash.Tls13

open Lib Proto

structure Uplink (suite : CipherSuite) where
  stream : Tls13Stream suite
  wire : Bytes
  reported : Bytes
  writing : Option Bytes

/-- A call, with what the transport answers in it. -/
inductive UplinkCall where
  | write (buf : Bytes) (grants : List Grant)
  | read (cap : Nat) (script : List Arrival) (grants : List Grant)
  | flush (grants : List Grant) (outer : Poll (IoResult Unit))
  | shutdown (grants : List Grant) (outer : Poll (IoResult Unit))

/-- What a write reports of its buffer. -/
def reportedOf (buf : Bytes) : Poll (IoResult Nat) → Bytes
  | .ready (.ok n) => buf.take n
  | _ => []

namespace Uplink

variable (K : Hkdf) {suite : CipherSuite}

def start (readSecret writeSecret : Secret suite) (peerCcs : Nat) : Uplink suite :=
  ⟨.start K readSecret writeSecret peerCcs, [], [], none⟩

def step (u : Uplink suite) : UplinkCall → Uplink suite
  | .write buf grants =>
    let c := u.stream.toWriteHalf.pollWrite buf grants
    { stream := { u.stream with toWriteHalf := c.half }
      wire := u.wire ++ c.sent
      reported := u.reported ++ reportedOf buf c.res
      writing := if c.res = .pending then some buf else none }
  | .read cap script grants =>
    let c := u.stream.pollRead K cap script grants
    { u with
      stream := c.stream
      wire := u.wire ++ c.sent }
  | .flush grants outer =>
    let c := u.stream.toWriteHalf.pollFlush grants outer
    { u with
      stream := { u.stream with toWriteHalf := c.half }
      wire := u.wire ++ c.sent }
  | .shutdown grants outer =>
    let c := u.stream.toWriteHalf.pollShutdown u.stream.readSpliced grants outer
    { u with
      stream := { u.stream with toWriteHalf := c.half }
      wire := u.wire ++ c.sent }

/-- A write that is not ready is polled with the same buffer again, and nothing but itself follows
    the shutdown. The transport takes parts, or nothing for now. -/
def Allowed (u : Uplink suite) : UplinkCall → Prop
  | .write buf grants => u.stream.closeNotifySent = false ∧
      (u.writing = none ∨ u.writing = some buf) ∧ Smooth grants
  | .read _ _ grants => u.stream.closeNotifySent = false ∧ Smooth grants
  | .flush grants _ => u.stream.closeNotifySent = false ∧ Smooth grants
  | .shutdown grants _ => Smooth grants

/-- A write begins a record when no control record is unsent. In the other calls, which send
    control records, no record of a write is unfinished, or the transport takes nothing. -/
def InOrder (u : Uplink suite) : UplinkCall → Prop
  | .write buf _ => buf = [] ∨ u.stream.out ≠ [] ∨ u.stream.ctl = []
  | .read _ _ grants => u.stream.out = [] ∨ TakesNothing grants
  | .flush grants _ => u.stream.out = [] ∨ TakesNothing grants
  | .shutdown grants _ => (u.stream.out = [] ∨ TakesNothing grants) ∧
      (u.stream.closeNotifySent = true ∨ u.stream.writeKey.seq ≠ 0xffffffffffffffff)

instance (u : Uplink suite) : (call : UplinkCall) → Decidable (u.Allowed call)
  | .write _ _ => inferInstanceAs (Decidable (_ ∧ _ ∧ _))
  | .read _ _ _ => inferInstanceAs (Decidable (_ ∧ _))
  | .flush _ _ => inferInstanceAs (Decidable (_ ∧ _))
  | .shutdown grants _ => inferInstanceAs (Decidable (Smooth grants))

instance (u : Uplink suite) : (call : UplinkCall) → Decidable (u.InOrder call)
  | .write _ _ => inferInstanceAs (Decidable (_ ∨ _ ∨ _))
  | .read _ _ _ => inferInstanceAs (Decidable (_ ∨ _))
  | .flush _ _ => inferInstanceAs (Decidable (_ ∨ _))
  | .shutdown _ _ => inferInstanceAs (Decidable (_ ∧ _))

/-- What the record in `out` carries. -/
def inflight (u : Uplink suite) : Bytes :=
  ((u.writing.map fun buf => buf.take u.stream.outPlain).getD [])

/-- One close_notify at the end of a stream that is closed, and none before. -/
def Closed (closing : Bool) (events : List Event) : Prop :=
  if closing then ∃ before, events = before ++ [.closeNotify] ∧ .closeNotify ∉ before
  else .closeNotify ∉ events

/-- What was handed over and what is unsent opens for the peer, which then has the keys of the
    writing half. It carries what was reported and the record of the write that is not ready.
    Behind a close_notify that is sent nothing is unsent. -/
structure Delivers (peer : Peer suite) (u : Uplink suite) : Prop where
  opens : ∃ events, peer.openAll K (u.wire ++ (u.stream.out ++ u.stream.ctl)) =
      some (events, ⟨u.stream.writeKey, u.stream.writeSecret⟩) ∧
    appData events = u.reported ++ u.inflight ∧ Closed u.stream.closeNotifySent events
  idle : u.stream.out = [] ↔ u.writing = none
  finished : u.stream.closeNotifySent = true → u.stream.ctl = [] → u.stream.out = []

/-! ## One step -/

/-- The record layer is not abandoned, and a write that is not ready has something to write. -/
structure Inv (peer : Peer suite) (u : Uplink suite) : Prop extends Delivers K peer u where
  reads : u.stream.readSpliced = false
  writes : u.stream.writeSpliced = false
  busy : u.writing ≠ some []

variable {K} {peer : Peer suite} {u u' : Uplink suite} {w : WriteHalf suite}

theorem closed_append {closing : Bool} {events : List Event} {e : Event}
    (h : Closed false events) (he : e = .closeNotify ↔ closing = true) :
    Closed closing (events ++ [e]) := by
  unfold Closed at h ⊢
  by_cases hclosing : closing = true
  · rw [if_pos hclosing]
    exact ⟨events, by rw [he.mpr hclosing], h⟩
  · rw [if_neg hclosing]
    intro hmem
    rcases List.mem_append.mp hmem with hmem | hmem
    · exact h hmem
    · exact hclosing (he.mp (List.mem_singleton.mp hmem).symm)

/-- What the invariant speaks of. -/
theorem Inv.congr (h : Inv K peer u) (hhalf : u'.stream.toWriteHalf = u.stream.toWriteHalf)
    (hreads : u'.stream.readSpliced = false) (hwire : u'.wire = u.wire)
    (hreported : u'.reported = u.reported) (hwriting : u'.writing = u.writing) :
    Inv K peer u' := by
  obtain ⟨⟨hopens, hidle, hfinished⟩, -, hwrites, hbusy⟩ := h
  have hinflight : u'.inflight = u.inflight := by
    unfold inflight
    rw [hwriting, hhalf]
  refine ⟨⟨?_, ?_, ?_⟩, hreads, ?_, ?_⟩
  · rw [hwire, hreported, hinflight, hhalf]
    exact hopens
  · rw [hwriting, hhalf]
    exact hidle
  · rw [hhalf]
    exact hfinished
  · rw [hhalf]
    exact hwrites
  · rw [hwriting]
    exact hbusy

/-- The state after the transport took some bytes. -/
def moved (u : Uplink suite) (w : WriteHalf suite) (sent : Bytes) : Uplink suite :=
  { u with
    stream := { u.stream with toWriteHalf := w }
    wire := u.wire ++ sent }

/-- Control records leave when nothing is in front of them. -/
theorem Inv.flushCtl {grants : List Grant} (h : Inv K peer u)
    (hout : u.stream.out = [] ∨ TakesNothing grants) :
    Inv K peer (u.moved (u.stream.toWriteHalf.pollFlushCtl grants).half
      (u.stream.toWriteHalf.pollFlushCtl grants).sent) := by
  obtain ⟨⟨⟨events, hopens, hdata, hclosed⟩, hidle, hfinished⟩, hreads, hwrites, hbusy⟩ := h
  have hbytes : u.wire ++ (writeOut writeZero grants u.stream.ctl).sent ++
      (u.stream.out ++ (writeOut writeZero grants u.stream.ctl).left) =
      u.wire ++ (u.stream.out ++ u.stream.ctl) := by
    rcases hout with hnil | hnothing
    · rw [hnil, List.nil_append, List.nil_append, List.append_assoc, writeOut_split]
    · obtain ⟨hleft, hsent⟩ := @TakesNothing.left writeZero grants u.stream.ctl hnothing
      rw [hleft, hsent, List.append_nil]
  refine ⟨⟨⟨events, ?_, hdata, hclosed⟩, hidle, fun hclosing hctl => ?_⟩, hreads, hwrites, hbusy⟩
  · exact hbytes ▸ hopens
  · rcases hout with hnil | hnothing
    · exact hnil
    · exact hfinished hclosing
        ((@TakesNothing.left writeZero grants u.stream.ctl hnothing).1.symm.trans hctl)

/-- A control record is put behind what is unsent. -/
theorem Inv.control {key : RecordProtector} {innerType : UInt8} {data record : Bytes}
    {e : Event} {q : Peer suite} (h : Inv K peer u) (closing : Bool)
    (hlive : u.stream.closeNotifySent = false) (htype : innerType ≠ 0)
    (hseal : u.stream.writeKey.sealRecord innerType data = (key, .ok record))
    (hevent : Peer.event K ⟨key, u.stream.writeSecret⟩ innerType data = some (e, q))
    (hdata : e.data = []) (he : e = .closeNotify ↔ closing = true) :
    Inv K peer { u with stream := { u.stream with
      writeKey := q.key
      writeSecret := q.secret
      ctl := u.stream.ctl ++ record
      closeNotifySent := closing } } := by
  obtain ⟨⟨⟨events, hopens, happ, hclosed⟩, hidle, -⟩, hreads, hwrites, hbusy⟩ := h
  rw [hlive] at hclosed
  have hrecord := Peer.openOne_sealRecord (p := ⟨u.stream.writeKey, u.stream.writeSecret⟩)
    htype hseal hevent
  refine ⟨⟨⟨events ++ [e], ?_, ?_, closed_append hclosed he⟩, hidle, fun _ hctl => ?_⟩, hreads,
    hwrites, hbusy⟩
  · have hall := Peer.openAll_append hopens hrecord
    rw [List.append_assoc, List.append_assoc] at hall
    exact hall
  · rw [appData_append, happ]
    show _ ++ (e.data ++ []) = _
    rw [hdata, List.append_nil, List.append_nil]
    rfl
  · have hlen := RecordProtector.length_sealInner (RecordProtector.sealRecord_eq_ok hseal).2
    rw [(List.append_eq_nil_iff.mp hctl).2] at hlen
    cases hlen

/-- The state after a change of the writing half alone. -/
def withHalf (u : Uplink suite) (w : WriteHalf suite) : Uplink suite :=
  { u with stream := { u.stream with toWriteHalf := w } }

theorem Inv.reply (h : Inv K peer u) (hlive : u.stream.closeNotifySent = false) :
    Inv K peer (u.withHalf (u.stream.toWriteHalf.queueKeyUpdateReply K).1) := by
  have hshort : (hsMessage hsKeyUpdate [0]).length ≤ maxPlaintext := by decide
  unfold WriteHalf.queueKeyUpdateReply
  rcases u.stream.writeKey.sealRecord_cases recordHandshake hshort with
    ⟨key, record, hseal⟩ | ⟨-, hseal⟩
  · rw [hseal]
    exact h.control u.stream.closeNotifySent hlive (by decide) hseal rfl rfl
      (by rw [hlive]; simp)
  · rw [hseal]
    exact h.congr rfl h.reads rfl rfl rfl

theorem Inv.queueCloseNotify (h : Inv K peer u) (hlive : u.stream.closeNotifySent = false)
    (hseq : u.stream.writeKey.seq ≠ 0xffffffffffffffff) :
    Inv K peer (u.withHalf u.stream.toWriteHalf.queueCloseNotify) := by
  have hshort : ([1, 0] : Bytes).length ≤ maxPlaintext := by decide
  unfold WriteHalf.queueCloseNotify
  rcases u.stream.writeKey.sealRecord_cases recordAlert hshort with
    ⟨key, record, hseal⟩ | ⟨hmax, -⟩
  · rw [hseal]
    exact h.control true hlive (by decide) hseal rfl rfl (by simp)
  · exact absurd hmax hseq

theorem out_queueCloseNotify (w : WriteHalf suite) : w.queueCloseNotify.out = w.out := by
  unfold WriteHalf.queueCloseNotify
  rcases w.writeKey.sealRecord recordAlert [1, 0] with ⟨key, e | record⟩ <;> rfl

theorem Inv.shutdown {grants : List Grant} {outer : Poll (IoResult Unit)} (h : Inv K peer u)
    (horder : u.InOrder (.shutdown grants outer)) :
    Inv K peer (u.step K (.shutdown grants outer)) := by
  obtain ⟨hout, hclosing⟩ := horder
  unfold step
  dsimp only [WriteHalf.pollShutdown]
  by_cases hsent : u.stream.closeNotifySent = true
  · rw [if_neg (fun hand => by rw [hsent] at hand; exact Bool.noConfusion hand.1)]
    exact h.flushCtl hout
  · have hlive : u.stream.closeNotifySent = false := by simpa using hsent
    rw [if_pos ⟨hlive, h.reads, h.writes⟩]
    have hclosed := h.queueCloseNotify hlive (hclosing.resolve_left hsent)
    refine hclosed.flushCtl ?_
    show (u.stream.toWriteHalf.queueCloseNotify).out = [] ∨ _
    rw [out_queueCloseNotify]
    exact hout

/-! ### Writing -/

/-- The record of a write leaves, and when all of it has, the write reports what it carries. -/
theorem Inv.drainOut {buf : Bytes} {grants : List Grant} (h : Inv K peer u)
    (hsmooth : Smooth grants) (hwriting : u.writing = some buf) (hbuf : buf ≠ []) :
    Inv K peer
      { stream := { u.stream with toWriteHalf := (u.stream.toWriteHalf.drainOut grants).half }
        wire := u.wire ++ (u.stream.toWriteHalf.drainOut grants).sent
        reported := u.reported ++ reportedOf buf (u.stream.toWriteHalf.drainOut grants).res
        writing := if (u.stream.toWriteHalf.drainOut grants).res = .pending then some buf
          else none } := by
  obtain ⟨⟨⟨events, hopens, hdata, hclosed⟩, -, hfinished⟩, hreads, hwrites, -⟩ := h
  have hflying : u.inflight = buf.take u.stream.outPlain := by
    unfold inflight
    rw [hwriting]
    rfl
  rw [hflying] at hdata
  rcases @Smooth.writeOut_cases writeZero grants u.stream.out hsmooth with hres | ⟨hres, hleft⟩
  · rw [WriteHalf.drainOut_ready hres]
    refine ⟨⟨⟨events, ?_, ?_, hclosed⟩, ?_, fun _ _ => rfl⟩, hreads, hwrites,
      fun hsome => by cases hsome⟩
    · rw [← List.append_assoc] at hopens
      exact hopens
    · rw [hdata]
      exact (List.append_nil _).symm
    · exact ⟨fun _ => rfl, fun _ => rfl⟩
  · have hbytes : u.wire ++ (writeOut writeZero grants u.stream.out).sent ++
        ((writeOut writeZero grants u.stream.out).left ++ u.stream.ctl) =
        u.wire ++ (u.stream.out ++ u.stream.ctl) := by
      rw [List.append_assoc, ← List.append_assoc _ _ u.stream.ctl, writeOut_split]
    rw [WriteHalf.drainOut_pending hres]
    refine ⟨⟨⟨events, ?_, ?_, hclosed⟩, ?_, ?_⟩, hreads, hwrites,
      fun hsome => hbuf (Option.some.inj hsome)⟩
    · exact hbytes ▸ hopens
    · rw [hdata]
      show _ = u.reported ++ [] ++ buf.take u.stream.outPlain
      rw [List.append_nil]
    · exact ⟨fun hnil => absurd hnil hleft, fun hnone => by cases hnone⟩
    · intro hclosing hctl
      have hnil := hfinished hclosing hctl
      rw [hnil, writeOut_nil] at hleft
      exact absurd rfl hleft

/-- A record is begun when nothing is unsent. -/
theorem Inv.begin {buf record : Bytes} {take : Nat} {key : RecordProtector} (h : Inv K peer u)
    (hlive : u.stream.closeNotifySent = false) (hout : u.stream.out = [])
    (hctl : u.stream.ctl = []) (hbuf : buf ≠ [])
    (hseal : u.stream.writeKey.sealRecord recordApp (buf.take take) = (key, .ok record)) :
    Inv K peer
      { u with
        stream := { u.stream with
          writeKey := key
          out := record
          outPlain := take }
        writing := some buf } := by
  obtain ⟨⟨⟨events, hopens, hdata, hclosed⟩, hidle, -⟩, hreads, hwrites, -⟩ := h
  rw [hlive] at hclosed
  have hrecord := Peer.openOne_sealRecord (p := ⟨u.stream.writeKey, u.stream.writeSecret⟩)
    (K := K) (by decide) hseal rfl
  have hne : record ≠ [] := by
    rintro rfl
    have hlen := RecordProtector.length_sealInner (RecordProtector.sealRecord_eq_ok hseal).2
    cases hlen
  have hflying : u.inflight = [] := by
    unfold inflight
    rw [hidle.mp hout]
    rfl
  refine ⟨⟨⟨events ++ [.appData (buf.take take)], ?_, ?_, ?_⟩, ?_, ?_⟩, hreads, hwrites,
    fun hsome => hbuf (Option.some.inj hsome)⟩
  · rw [hout, hctl, List.append_nil] at hopens
    have hall := Peer.openAll_append hopens hrecord
    show peer.openAll K (u.wire ++ (record ++ u.stream.ctl)) = _
    rw [hctl, List.append_nil, ← List.append_nil u.wire]
    exact hall
  · rw [appData_append, hdata, hflying, List.append_nil]
    exact congrArg (u.reported ++ ·) (List.append_nil _)
  · exact closed_append hclosed (by
      show _ ↔ u.stream.closeNotifySent = true
      rw [hlive]
      simp)
  · exact ⟨fun hnil => absurd hnil hne, fun hnone => by cases hnone⟩
  · intro hclosing
    rw [hlive] at hclosing
    cases hclosing

theorem Inv.write {buf : Bytes} {grants : List Grant} (h : Inv K peer u)
    (hallowed : u.Allowed (.write buf grants)) (horder : u.InOrder (.write buf grants)) :
    Inv K peer (u.step K (.write buf grants)) := by
  obtain ⟨hlive, hbuf, hsmooth⟩ := hallowed
  unfold step
  dsimp only [WriteHalf.pollWrite]
  by_cases hnil : buf = []
  · subst hnil
    rw [if_pos rfl]
    have hnone : u.writing = none := hbuf.resolve_right h.busy
    exact h.congr rfl h.reads (List.append_nil _) (List.append_nil _) hnone.symm
  · rw [if_neg hnil]
    rw [if_neg (by rw [h.writes]; exact Bool.false_ne_true)]
    by_cases hout : u.stream.out = []
    · rw [if_neg (not_not.mpr hout)]
      have hctl : u.stream.ctl = [] := (horder.resolve_left hnil).resolve_left (not_not.mpr hout)
      have hshort : (buf.take (min buf.length maxPlaintext)).length ≤ maxPlaintext := by
        rw [List.length_take]
        omega
      rcases u.stream.writeKey.sealRecord_cases recordApp hshort with
        ⟨key, record, hseal⟩ | ⟨-, hseal⟩
      · rw [hseal]
        exact (h.begin hlive hout hctl hnil hseal).drainOut hsmooth rfl hnil
      · rw [hseal]
        exact h.congr rfl h.reads (List.append_nil _) (List.append_nil _) (h.idle.mp hout).symm
    · rw [if_pos hout]
      have hwriting : u.writing = some buf := by
        rcases hbuf with hnone | hsome
        · exact absurd (h.idle.mpr hnone) hout
        · exact hsome
      exact h.drainOut hsmooth hwriting hnil

/-! ### Reading -/

/-- What reading does to the writing half beside sending what is in `ctl`: it queues replies. -/
inductive Replies (K : Hkdf) : WriteHalf suite → WriteHalf suite → Prop
  | refl (w : WriteHalf suite) : Replies K w w
  | reply {w w' : WriteHalf suite} (h : Replies K (w.queueKeyUpdateReply K).1 w') :
    Replies K w w'

theorem out_queueKeyUpdateReply (w : WriteHalf suite) :
    (w.queueKeyUpdateReply K).1.out = w.out ∧
      (w.queueKeyUpdateReply K).1.closeNotifySent = w.closeNotifySent := by
  unfold WriteHalf.queueKeyUpdateReply
  rcases w.writeKey.sealRecord recordHandshake (hsMessage hsKeyUpdate [0]) with ⟨key, e | record⟩
  · exact ⟨rfl, rfl⟩
  · exact ⟨rfl, rfl⟩

theorem Replies.out {w w' : WriteHalf suite} (h : Replies K w w') :
    w'.out = w.out ∧ w'.closeNotifySent = w.closeNotifySent := by
  induction h with
  | refl w => exact ⟨rfl, rfl⟩
  | @reply w w' _ ih =>
    obtain ⟨hout, hclose⟩ := out_queueKeyUpdateReply (K := K) w
    exact ⟨ih.1.trans hout, ih.2.trans hclose⟩

theorem Inv.replies {w' : WriteHalf suite} (h : Inv K peer u)
    (hlive : u.stream.closeNotifySent = false) (hr : Replies K u.stream.toWriteHalf w') :
    Inv K peer (u.withHalf w') := by
  generalize hw : u.stream.toWriteHalf = w at hr
  induction hr generalizing u with
  | refl w =>
    rw [← hw]
    exact h
  | @reply w w' _ ih =>
    subst hw
    refine ih (u := u.withHalf (u.stream.toWriteHalf.queueKeyUpdateReply K).1) (h.reply hlive)
      ?_ rfl
    exact (out_queueKeyUpdateReply (K := K) u.stream.toWriteHalf).2.trans hlive

theorem handleHandshake_replies (rounds : Nat) {s : Tls13Stream suite} (data : Bytes)
    {spliced : Bool} (hw : s.toWriteHalf = w) (hs : s.readSpliced = spliced) :
    Replies K w (s.handleHandshake K rounds data).1.toWriteHalf ∧
      (s.handleHandshake K rounds data).1.readSpliced = spliced := by
  induction rounds generalizing s w data with
  | zero => exact ⟨hw ▸ .refl _, hs⟩
  | succ rounds ih =>
    unfold Tls13Stream.handleHandshake
    rcases takeHandshake data with _ | ⟨typ, raw, rest⟩
    · exact ⟨hw ▸ .refl _, hs⟩
    · dsimp only
      split_ifs
      · exact ih rest hw hs
      · exact ⟨hw ▸ .refl _, hs⟩
      · rcases hr : s.toWriteHalf.queueKeyUpdateReply K with ⟨w', e | u⟩
        · have hw' : (w.queueKeyUpdateReply K).1 = w' := by rw [← hw, hr]
          exact ⟨.reply (hw' ▸ .refl _), hs⟩
        · have hw' : (w.queueKeyUpdateReply K).1 = w' := by rw [← hw, hr]
          dsimp only
          constructor
          · refine .reply ?_
            rw [hw']
            refine (ih rest ?_ ?_).1
            · rfl
            · exact hs
          · refine (ih (w := w') rest ?_ ?_).2
            · rfl
            · exact hs
      · exact ih rest hw hs
      · exact ⟨hw ▸ .refl _, hs⟩

theorem handleRecord_replies {s : Tls13Stream suite} (record : Bytes) {spliced : Bool}
    (hw : s.toWriteHalf = w) (hs : s.readSpliced = spliced) :
    Replies K w (s.handleRecord K record).1.toWriteHalf ∧
      (s.handleRecord K record).1.readSpliced = spliced := by
  have hsame : Replies K w s.toWriteHalf := hw ▸ .refl _
  unfold Tls13Stream.handleRecord
  dsimp only
  split_ifs
  · exact ⟨hsame, hs⟩
  · exact ⟨hsame, hs⟩
  · exact ⟨hsame, hs⟩
  · rcases s.readKey.openRecord record with ⟨key, e | ⟨innerType, data⟩⟩
    · exact ⟨hsame, hs⟩
    · dsimp only [Tls13Stream.handleInner]
      split_ifs
      · exact ⟨hsame, hs⟩
      · exact handleHandshake_replies _ data hw hs
      · exact ⟨hsame, hs⟩
      · exact ⟨hsame, hs⟩
      · exact ⟨hsame, hs⟩
  · exact ⟨hsame, hs⟩

/-- The state after a call of the reader. -/
def afterRead (u : Uplink suite) (c : Tls13Stream.ReadCall suite) : Uplink suite :=
  { u with
    stream := c.stream
    wire := u.wire ++ c.sent }

theorem Inv.readLoop {cap rounds : Nat} {script : List Arrival} {grants : List Grant}
    (h : Inv K peer u) (hlive : u.stream.closeNotifySent = false)
    (hout : u.stream.out = [] ∨ TakesNothing grants) :
    Inv K peer (u.afterRead (u.stream.readLoop K cap rounds script grants)) := by
  induction rounds generalizing u script grants with
  | zero => exact h.congr rfl h.reads (List.append_nil _) rfl rfl
  | succ rounds ih =>
    unfold Tls13Stream.readLoop
    rw [if_neg (by rw [h.reads]; exact Bool.false_ne_true)]
    by_cases hplain : u.stream.plain ≠ []
    · rw [if_pos hplain]
      exact h.congr rfl h.reads (List.append_nil _) rfl rfl
    rw [if_neg hplain]
    by_cases heof : u.stream.eof = true
    · rw [if_pos heof]
      exact h.congr rfl h.reads (List.append_nil _) rfl rfl
    rw [if_neg heof]
    have hflushed := h.flushCtl hout
    dsimp only
    rcases Tls13Stream.pollRecord script u.stream.recBuf with ⟨script', buf, _ | ⟨e | b⟩⟩
    · exact hflushed.congr rfl h.reads rfl rfl rfl
    · exact hflushed.congr rfl h.reads rfl rfl rfl
    · cases b with
      | false => exact hflushed.congr rfl h.reads rfl rfl rfl
      | true =>
        dsimp only
        have hflushedHalf := @handleRecord_replies K suite
          (u.stream.toWriteHalf.pollFlushCtl grants).half
          { u.stream with
            toWriteHalf := (u.stream.toWriteHalf.pollFlushCtl grants).half
            recBuf := buf.drop (5 + recordLen buf) } (buf.take (5 + recordLen buf)) false rfl
          h.reads
        obtain ⟨hreplies, hspliced⟩ := hflushedHalf
        obtain ⟨hout', hlive'⟩ := hreplies.out
        have hreplied := hflushed.replies hlive hreplies
        rcases hrecord : Tls13Stream.handleRecord K
          { u.stream with
            toWriteHalf := (u.stream.toWriteHalf.pollFlushCtl grants).half
            recBuf := buf.drop (5 + recordLen buf) } (buf.take (5 + recordLen buf)) with
          ⟨s, e | ⟨⟩⟩
        · rw [hrecord] at hreplied hspliced
          exact hreplied.congr rfl hspliced rfl rfl rfl
        · rw [hrecord] at hreplied hspliced hout' hlive'
          have hnext : Inv K peer { u with
              stream := s
              wire := u.wire ++ (u.stream.toWriteHalf.pollFlushCtl grants).sent } :=
            hreplied.congr rfl hspliced rfl rfl rfl
          have hdone := @ih { u with
            stream := s
            wire := u.wire ++ (u.stream.toWriteHalf.pollFlushCtl grants).sent }
            script' (u.stream.toWriteHalf.pollFlushCtl grants).grants hnext (hlive'.trans hlive)
            (hout.imp (fun hnil => hout'.trans hnil) (fun hnothing => hnothing.rest))
          dsimp only
          refine hdone.congr rfl hdone.reads ?_ rfl rfl
          exact (List.append_assoc _ _ _).symm

theorem Inv.step {call : UplinkCall} (h : Inv K peer u) (hallowed : u.Allowed call)
    (horder : u.InOrder call) : Inv K peer (u.step K call) := by
  cases call with
  | write buf grants => exact h.write hallowed horder
  | read cap script grants => exact h.readLoop hallowed.1 horder
  | flush grants outer => exact h.flushCtl horder
  | shutdown grants outer => exact h.shutdown horder

/-! ## A run -/

theorem inv_start (K : Hkdf) (readSecret writeSecret : Secret suite) (peerCcs : Nat) :
    Inv K (.start K writeSecret) (start K readSecret writeSecret peerCcs) where
  opens := ⟨[], rfl, rfl, List.not_mem_nil⟩
  idle := ⟨fun _ => rfl, fun _ => rfl⟩
  finished := fun hclosing => by cases hclosing
  reads := rfl
  writes := rfl
  busy := fun hsome => by cases hsome

/-- As long as the buffers leave in the order in which they were sealed, the wire is what the peer
    opens. -/
theorem delivers_of_inOrder (K : Hkdf) (readSecret writeSecret : Secret suite) (peerCcs : Nat)
    (calls : List UplinkCall)
    (hcalls : ∀ p ∈ Machine.steps (step K) (start K readSecret writeSecret peerCcs) calls,
      p.1.Allowed p.2 ∧ p.1.InOrder p.2) :
    ∀ u ∈ Machine.states (step K) (start K readSecret writeSecret peerCcs) calls,
      Delivers K (.start K writeSecret) u := fun u hu =>
  (Machine.inv_of_good (Inv K (.start K writeSecret))
    (fun u call => u.Allowed call ∧ u.InOrder call) (fun _ _ h hg => h.step hg.1 hg.2)
    (inv_start K readSecret writeSecret peerCcs) hcalls u hu).toDelivers

/-- A write is blocked after three bytes, a KeyUpdate comes while the transport is still blocked,
    and the write is through before the reply is flushed and the stream is closed. -/
theorem delivers_of_inOrder_blocked :
    let K : Hkdf := ⟨fun _ _ _ n => .zero n⟩
    let secret : Secret .chacha20Poly1305Sha256 := .zero 32
    let request := ((RecordProtector.new K secret).sealRecord recordHandshake
      (hsMessage hsKeyUpdate [1])).2.toOption.getD []
    let calls : List UplinkCall := [.write [7] [.ready (.ok 3)],
      .read 10 [.data request] [.pending],
      .write [7] [.ready (.ok 20)], .flush [.ready (.ok 27)] (.ready (.ok ())),
      .shutdown [.ready (.ok 24)] (.ready (.ok ()))]
    Delivers K (.start K secret) (calls.foldl (step K) (start K secret secret 1)) :=
  delivers_of_inOrder _ _ _ _ _ (by decide +kernel) _ (Machine.foldl_mem_states _ _)

/-- The reply to a KeyUpdate is put into the middle of a record: every write has been reported,
    nothing is unsent, and the peer cannot open what it got. -/
theorem reply_inside_record :
    let K : Hkdf := ⟨fun _ _ _ n => .zero n⟩
    let secret : Secret .chacha20Poly1305Sha256 := .zero 32
    let request := ((RecordProtector.new K secret).sealRecord recordHandshake
      (hsMessage hsKeyUpdate [1])).2.toOption.getD []
    let calls : List UplinkCall := [.write [7] [.ready (.ok 3)],
      .read 10 [.data request] [.ready (.ok 27)], .write [7] [.ready (.ok 20)],
      .shutdown [.ready (.ok 24)] (.ready (.ok ()))]
    let u := calls.foldl (step K) (start K secret secret 1)
    (∀ p ∈ Machine.steps (step K) (start K secret secret 1) calls, p.1.Allowed p.2) ∧
      u.reported = [7] ∧ u.writing = none ∧ u.stream.out = [] ∧ u.stream.ctl = [] ∧
      (Peer.start K secret).openAll K u.wire = none := by
  decide +kernel

end Uplink

end RustCrash.Tls13
