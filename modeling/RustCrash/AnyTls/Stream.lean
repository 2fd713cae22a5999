import RustCrash.AnyTls.Recv

/-
  One stream of an AnyTLS session: `AnyTlsStream` with its `poll_read` and `poll_shutdown`,
  next to the loop that fills its pipe.

  `poll_shutdown` sets the same flag as a FIN of the peer, and `poll_read` looks at it before
  the pipe. So after a local shutdown a read gives what is in `out` and then the end, whatever
  the peer has sent or will send (`half_close`).
-/

namespace RustCrash.AnyTls

open Lib

structure AnyTlsStream where
  sid : UInt32
  /-- What is in the pipe. -/
  rx : List StreamEvent
  out : Bytes
  /-- cmdFIN seen (or local shutdown). -/
  fin : Bool
  finSent : Bool
  remoteErr : Option Str
  /-- A flush waits for the writer task. -/
  flushAck : Bool

/-- What `poll_read` answers; `data` is what it puts into the buffer. -/
inductive ReadResult where
  | data (bytes : Bytes)
  | eof
  | pending
  | error (text : Str)
  deriving DecidableEq

def ReadResult.bytes : ReadResult → Bytes
  | data bytes => bytes
  | _ => []

namespace AnyTlsStream

/-- `open_stream`'s stream. -/
def new (sid : UInt32) : AnyTlsStream := ⟨sid, [], [], false, false, none, false⟩

/-- The checks at the head of the loop, for `n` bytes of room. -/
def ready (n : Nat) (s : AnyTlsStream) : Option (ReadResult × AnyTlsStream) :=
  if n = 0 then some (.data [], s)
  else if s.out ≠ [] then some (.data (s.out.take n), { s with out := s.out.drop n })
  else
    match s.remoteErr with
    | some e => some (.error e, { s with remoteErr := none })
    | none => if s.fin then some (.eof, s) else none

/-- An event that comes out of the pipe. -/
def receive (s : AnyTlsStream) : StreamEvent → AnyTlsStream
  | .data d => { s with out := s.out ++ d }
  | .fin => { s with fin := true }
  | .remoteError m => { s with remoteErr := some m }

/-- An empty pipe: wait, unless every sender is gone. Then either our FIN was processed, or the
    session died. -/
def starved (session : Session) (s : AnyTlsStream) : ReadResult × AnyTlsStream :=
  if s.sid ∈ session.streams then (.pending, s)
  else
    match session.dead with
    | some reason => (.error ("anytls: session closed: ".toList ++ reason), s)
    | none => (.eof, { s with fin := true })

/-- The loop, with the pipe's events still to come. -/
def readLoop (session : Session) (n : Nat) : List StreamEvent → AnyTlsStream →
    ReadResult × AnyTlsStream
  | [], s =>
    match s.ready n with
    | some (r, s) => (r, { s with rx := [] })
    | none => { s with rx := [] }.starved session
  | e :: rx, s =>
    match s.ready n with
    | some (r, s) => (r, { s with rx := e :: rx })
    | none => readLoop session n rx (s.receive e)

def pollRead (session : Session) (n : Nat) (s : AnyTlsStream) : ReadResult × AnyTlsStream :=
  readLoop session n s.rx s

/-- Queue a FIN if none was sent. -/
def sendFin (s : AnyTlsStream) : AnyTlsStream × List Act :=
  if s.finSent then (s, [])
  else ({ s with finSent := true }, [.queue (frameInto [] cmdFin s.sid [])])

/-- Up to the flush, which the writer task answers. -/
def pollShutdown (s : AnyTlsStream) : AnyTlsStream × List Act :=
  let f := s.sendFin
  ({ f.1 with fin := true, flushAck := true }, f.2)

end AnyTlsStream

/-! ## Runs -/

inductive Event where
  /-- The loop takes a frame off its buffer. -/
  | frame (f : Frame)
  /-- The transport ends or fails. -/
  | close (reason : Str)
  /-- The session is killed from elsewhere. -/
  | kill (reason : Str)
  | read (n : Nat)
  | shutdown
  | flushed

/-- A session with one of its streams, and what has become of the peer's bytes. -/
structure Link where
  recv : Recv
  stream : AnyTlsStream
  /-- The data that the peer sent for the stream before its FIN, while the session lived. -/
  arrived : Bytes
  finArrived : Bool
  got : Bytes
  /-- `poll_shutdown` was called. -/
  shut : Bool

namespace Link

/-- A stream right after `open_stream`, on a session that lives. -/
def start (session : Session) (sid : UInt32) : Link :=
  ⟨⟨{ session with streams := insert sid session.streams, dead := none }, false⟩, .new sid, [],
    false, [], false⟩

/-- The stream's part of a frame, if the session lives and its FIN has not come. -/
def record (l : Link) (f : Frame) : Link :=
  if l.recv.session.dead = none ∧ l.finArrived = false ∧ f.sid = l.stream.sid then
    if f.cmd = cmdPsh then { l with arrived := l.arrived ++ f.data }
    else if f.cmd = cmdFin then { l with finArrived := true }
    else l
  else l

def onFrame (l : Link) (f : Frame) : Link :=
  if l.recv.ended then l
  else
    let d := l.recv.session.dispatch f
    let l := l.record f
    { l with
      recv := ⟨d.1, f.cmd == cmdAlert⟩
      stream := { l.stream with rx := l.stream.rx ++ eventsOf l.stream.sid d.2 } }

/-- What `poll_read` answers. -/
def result (l : Link) (n : Nat) : ReadResult := (l.stream.pollRead l.recv.session n).1

def onRead (l : Link) (n : Nat) : Link :=
  { l with
    stream := (l.stream.pollRead l.recv.session n).2
    got := l.got ++ (l.result n).bytes }

def step (l : Link) : Event → Link
  | .frame f => l.onFrame f
  | .close reason => { l with recv := (l.recv.close reason).1 }
  | .kill reason => { l with recv.session := (l.recv.session.kill reason).1 }
  | .read n => l.onRead n
  | .shutdown => { l with stream := l.stream.pollShutdown.1, shut := true }
  | .flushed => { l with stream.flushAck := false }

end Link

/-- The bytes in the pipe. -/
def dataOf : List StreamEvent → Bytes
  | [] => []
  | .data d :: rx => d ++ dataOf rx
  | _ :: rx => dataOf rx

/-- What a read with room finds, and what it leaves. -/
inductive ReadCase (session : Session) (n : Nat) (s : AnyTlsStream) :
    ReadResult → AnyTlsStream → Prop where
  | buffered (h : s.out ≠ []) :
    ReadCase session n s (.data (s.out.take n)) { s with out := s.out.drop n }
  | failed {e : Str} (hout : s.out = []) (herr : s.remoteErr = some e) :
    ReadCase session n s (.error e) { s with remoteErr := none }
  | ended (hout : s.out = []) (herr : s.remoteErr = none) (hfin : s.fin = true) :
    ReadCase session n s .eof s
  | data {d : Bytes} {rx : List StreamEvent} (hout : s.out = []) (hfin : s.fin = false)
    (hrx : s.rx = .data d :: rx) :
    ReadCase session n s (.data (d.take n)) { s with rx, out := d.drop n }
  | fin {rx : List StreamEvent} (hout : s.out = []) (hfin : s.fin = false)
    (hrx : s.rx = .fin :: rx) : ReadCase session n s .eof { s with rx, fin := true }
  | error {m : Str} {rx : List StreamEvent} (hout : s.out = []) (hfin : s.fin = false)
    (hrx : s.rx = .remoteError m :: rx) : ReadCase session n s (.error m) { s with rx }
  | waits (hout : s.out = []) (hfin : s.fin = false) (hrx : s.rx = [])
    (hopen : s.sid ∈ session.streams) : ReadCase session n s .pending s
  | died {reason : Str} (hout : s.out = []) (hfin : s.fin = false) (hrx : s.rx = [])
    (hdead : session.dead = some reason) :
    ReadCase session n s (.error ("anytls: session closed: ".toList ++ reason)) s
  | closed (hout : s.out = []) (hfin : s.fin = false) (hrx : s.rx = [])
    (hgone : s.sid ∉ session.streams) (hdead : session.dead = none) :
    ReadCase session n s .eof { s with fin := true }

namespace AnyTlsStream

theorem pollRead_zero (session : Session) (s : AnyTlsStream) :
    s.pollRead session 0 = (.data [], s) := by
  unfold pollRead
  cases h : s.rx with
  | nil => exact congrArg (fun rx => (ReadResult.data [], { s with rx })) h.symm
  | cons e rx => exact congrArg (fun rx => (ReadResult.data [], { s with rx })) h.symm

variable {n : Nat} {s : AnyTlsStream}

theorem ready_out (hn : n ≠ 0) (h : s.out ≠ []) :
    s.ready n = some (.data (s.out.take n), { s with out := s.out.drop n }) := by
  unfold ready
  rw [if_neg hn, if_pos h]

theorem ready_err (hn : n ≠ 0) {e : Str} (h : s.out = []) (he : s.remoteErr = some e) :
    s.ready n = some (.error e, { s with remoteErr := none }) := by
  unfold ready
  rw [if_neg hn, if_neg (not_not.mpr h), he]

theorem ready_fin (hn : n ≠ 0) (h : s.out = []) (he : s.remoteErr = none) :
    s.ready n = if s.fin then some (.eof, s) else none := by
  unfold ready
  rw [if_neg hn, if_neg (not_not.mpr h), he]

theorem readLoop_ready {session : Session} {rx : List StreamEvent} {s t : AnyTlsStream}
    {r : ReadResult} (h : s.ready n = some (r, t)) :
    readLoop session n rx s = (r, { t with rx }) := by
  cases rx <;> rw [readLoop, h]

theorem readLoop_cons {session : Session} {e : StreamEvent} {rx : List StreamEvent}
    (h : s.ready n = none) :
    readLoop session n (e :: rx) s = readLoop session n rx (s.receive e) := by
  rw [readLoop, h]

theorem pollRead_case (session : Session) (hn : n ≠ 0) (s : AnyTlsStream)
    (hfull : ∀ d, .data d ∈ s.rx → d ≠ []) :
    ReadCase session n s (s.pollRead session n).1 (s.pollRead session n).2 := by
  unfold pollRead
  by_cases hout : s.out = []
  · cases herr : s.remoteErr with
    | some e =>
      rw [readLoop_ready (ready_err hn hout herr)]
      exact .failed hout herr
    | none =>
      have hready := ready_fin hn hout herr
      cases hfin : s.fin with
      | true =>
        rw [hfin, if_pos rfl] at hready
        rw [readLoop_ready hready]
        exact .ended hout herr hfin
      | false =>
        rw [hfin, if_neg nofun] at hready
        cases hrx : s.rx with
        | nil =>
          have hsame : { s with rx := [] } = s := by rw [← hrx]
          rw [readLoop, hready]
          dsimp only
          rw [hsame]
          unfold starved
          split_ifs with hopen
          · exact .waits hout hfin hrx hopen
          · cases hdead : session.dead with
            | some reason => exact .died hout hfin hrx hdead
            | none => exact .closed hout hfin hrx hopen hdead
        | cons e rx =>
          rw [readLoop_cons hready]
          cases e with
          | data d =>
            have hd : d ≠ [] := hfull d (by rw [hrx]; exact List.mem_cons_self)
            have happ : s.out ++ d = d := by rw [hout, List.nil_append]
            have hreceive : s.receive (.data d) = { s with out := d } :=
              congrArg (fun out => { s with out }) happ
            rw [hreceive, readLoop_ready (ready_out hn (by exact hd))]
            exact .data hout hfin hrx
          | fin =>
            have hnext : (s.receive .fin).ready n = some (.eof, { s with fin := true }) := by
              rw [ready_fin hn (by exact hout) (by exact herr)]
              rfl
            rw [readLoop_ready hnext]
            exact .fin hout hfin hrx
          | remoteError m =>
            have hnext : (s.receive (.remoteError m)).ready n = some (.error m, s) := by
              rw [ready_err hn (by exact hout) rfl]
              unfold receive
              rw [← herr]
            rw [readLoop_ready hnext]
            exact .error hout hfin hrx
  · rw [readLoop_ready (ready_out hn hout)]
    exact .buffered hout

end AnyTlsStream

/-! ## What is on its way -/

theorem dataOf_fin (rx : List StreamEvent) : dataOf (.fin :: rx) = dataOf rx := rfl

theorem dataOf_error (m : Str) (rx : List StreamEvent) :
    dataOf (.remoteError m :: rx) = dataOf rx := rfl

theorem dataOf_append (xs ys : List StreamEvent) : dataOf (xs ++ ys) = dataOf xs ++ dataOf ys := by
  induction xs with
  | nil => rfl
  | cons e xs ih =>
    cases e with
    | data d =>
      rw [List.cons_append, dataOf, dataOf, ih, List.append_assoc]
    | fin => exact ih
    | remoteError m => exact ih

/-- Where the bytes are, and what the pipe, the flags and the session say of each other. -/
structure Link.Inv (l : Link) : Prop where
  bytes : l.got ++ (l.stream.out ++ dataOf l.stream.rx) = l.arrived
  full : ∀ d, .data d ∈ l.stream.rx → d ≠ []
  opened : l.stream.sid ∈ l.recv.session.streams →
    l.finArrived = false ∧ l.recv.session.dead = none
  gone : l.stream.sid ∉ l.recv.session.streams →
    l.finArrived = true ∨ l.recv.session.dead ≠ none
  /-- The FIN of the peer is the last thing in the pipe, until it is read. -/
  finned : l.finArrived = true →
    (∃ rx, l.stream.rx = rx ++ [.fin] ∧ .fin ∉ rx) ∨ l.stream.rx = [] ∧ l.stream.fin = true
  unfinned : l.finArrived = false →
    .fin ∉ l.stream.rx ∧ (l.stream.fin = true → l.shut = true)
  ended : l.stream.fin = true → l.shut = true ∨ l.stream.rx = []
  shut : l.shut = true → l.stream.fin = true

namespace Link

theorem inv_start (session : Session) (sid : UInt32) : (start session sid).Inv where
  bytes := rfl
  full _ h := nomatch h
  opened _ := ⟨rfl, rfl⟩
  gone h := absurd (Finset.mem_insert_self sid session.streams) h
  finned h := nomatch h
  unfinned _ := ⟨nofun, nofun⟩
  ended h := nomatch h
  shut h := nomatch h

variable {l : Link}

/-- What leaves the session's streams alone, or takes the stream out of a session that died. -/
theorem Inv.of_session (h : l.Inv) {r : Recv} (hr : l.stream.sid ∈ r.session.streams →
      l.stream.sid ∈ l.recv.session.streams ∧ r.session.dead = l.recv.session.dead)
    (hgone : l.stream.sid ∉ r.session.streams →
      l.stream.sid ∉ l.recv.session.streams ∨ r.session.dead ≠ none)
    (hdead : l.recv.session.dead ≠ none → r.session.dead ≠ none) : { l with recv := r }.Inv where
  bytes := h.bytes
  full := h.full
  opened hmem := by
    obtain ⟨hopen, hsame⟩ := hr hmem
    obtain ⟨hfin, hnone⟩ := h.opened hopen
    exact ⟨hfin, hsame.trans hnone⟩
  gone hmem := by
    rcases hgone hmem with hopen | hd
    · exact (h.gone hopen).imp_right hdead
    · exact .inr hd
  finned := h.finned
  unfinned := h.unfinned
  ended := h.ended
  shut := h.shut

theorem kill_streams (s : Session) (reason : Str) (sid : UInt32) :
    (sid ∈ (s.kill reason).1.streams → sid ∈ s.streams ∧ (s.kill reason).1.dead = s.dead) ∧
      (s.kill reason).1.dead ≠ none := by
  unfold Session.kill
  split_ifs with h
  · exact ⟨fun hmem => ⟨hmem, rfl⟩, Option.isSome_iff_ne_none.mp h⟩
  · exact ⟨fun hmem => absurd hmem (Finset.notMem_empty _), nofun⟩

theorem Inv.kill (h : l.Inv) (reason : Str) (ended : Bool) :
    { l with recv := ⟨(l.recv.session.kill reason).1, ended⟩ }.Inv := by
  obtain ⟨hmem, hdead⟩ := kill_streams l.recv.session reason l.stream.sid
  exact h.of_session hmem (fun _ => .inr hdead) fun _ => hdead

/-- Data and errors that come while the FIN has not. -/
theorem Inv.push (h : l.Inv) (hlive : l.finArrived = false) {es : List StreamEvent}
    (hes : StreamEvent.fin ∉ es) (hfull : ∀ d, .data d ∈ es → d ≠ []) :
    { l with stream.rx := l.stream.rx ++ es, arrived := l.arrived ++ dataOf es }.Inv where
  bytes := by
    dsimp only
    rw [dataOf_append, ← List.append_assoc l.stream.out, ← List.append_assoc, h.bytes]
  full d hd := (List.mem_append.mp hd).elim (h.full d) (hfull d)
  opened := h.opened
  gone := h.gone
  finned hf := by
    rw [hlive] at hf
    cases hf
  unfinned hf := by
    refine ⟨fun hmem => ?_, (h.unfinned hf).2⟩
    exact (List.mem_append.mp hmem).elim (h.unfinned hf).1 hes
  ended hfin := .inl ((h.unfinned hlive).2 hfin)
  shut := h.shut

/-- The FIN, which takes the stream out of the session. -/
theorem Inv.finish (h : l.Inv) (hlive : l.finArrived = false) {r : Recv}
    (hgone : l.stream.sid ∉ r.session.streams) :
    { l with recv := r, stream.rx := l.stream.rx ++ [StreamEvent.fin], finArrived := true }.Inv where
  bytes := by
    dsimp only
    rw [dataOf_append, dataOf_fin, dataOf, List.append_nil]
    exact h.bytes
  full d hd := by
    rcases List.mem_append.mp hd with hd | hd
    · exact h.full d hd
    · cases List.mem_singleton.mp hd
  opened hmem := absurd hmem hgone
  gone _ := .inl rfl
  finned _ := .inl ⟨l.stream.rx, rfl, (h.unfinned hlive).1⟩
  unfinned hf := nomatch hf
  ended hfin := .inl ((h.unfinned hlive).2 hfin)
  shut := h.shut

theorem carries_full {f : Frame} {d : Bytes} (h : StreamEvent.data d ∈ f.carries.toList) :
    d ≠ [] := by
  unfold Frame.carries at h
  split_ifs at h with hnil
  · cases h
  · cases List.mem_singleton.mp h
    exact hnil
  · cases List.mem_singleton.mp h
  · cases h

theorem carries_no_fin (f : Frame) : StreamEvent.fin ∉ f.carries.toList := by
  unfold Frame.carries
  split_ifs <;> simp

/-- A frame that is not for the stream, or finds it closed. -/
theorem record_other (h : l.Inv) {f : Frame}
    (hother : ¬ (f.sid = l.stream.sid ∧ l.stream.sid ∈ l.recv.session.streams)) :
    l.record f = l := by
  unfold record
  rw [if_neg]
  rintro ⟨hdead, hfin, hsid⟩
  rcases h.gone fun hmem => hother ⟨hsid, hmem⟩ with hf | hd
  · rw [hfin] at hf
    cases hf
  · exact hd hdead

theorem record_mine (h : l.Inv) {f : Frame} (hsid : f.sid = l.stream.sid)
    (hmem : l.stream.sid ∈ l.recv.session.streams) (hfin : f.cmd ≠ cmdFin) :
    l.record f = { l with arrived := l.arrived ++ dataOf f.carries.toList } := by
  obtain ⟨hlive, hdead⟩ := h.opened hmem
  unfold record Frame.carries
  rw [if_pos ⟨hdead, hlive, hsid⟩]
  by_cases hpsh : f.cmd = cmdPsh
  · rw [if_pos hpsh]
    by_cases hdata : f.data = []
    · simp [hdata, dataOf]
    · simp [hpsh, hdata, dataOf]
  · rw [if_neg hpsh, if_neg hfin]
    by_cases hdata : f.data = []
    · simp [hdata, dataOf]
    · by_cases hsynack : f.cmd = cmdSynack
      · simp [hdata, hsynack, show cmdSynack ≠ cmdPsh by decide, dataOf]
      · simp [hpsh, hdata, hsynack, dataOf]

/-- What the loop does with a frame and what is recorded of it agree. -/
theorem Inv.frame (h : l.Inv) (f : Frame) : (l.onFrame f).Inv := by
  unfold onFrame
  split_ifs with hended
  · exact h
  by_cases halert : f.cmd = cmdAlert
  · have hrecord : l.record f = l := by
      unfold record
      simp [halert, show cmdAlert ≠ cmdPsh by decide, show cmdAlert ≠ cmdFin by decide]
    rw [hrecord, dispatch_alert _ halert]
    dsimp only
    rw [eventsOf_kill, List.append_nil]
    exact h.kill _ _
  · obtain ⟨hevents, hopen⟩ := dispatch_events l.recv.session l.stream.sid halert
    have hdead := dispatch_dead l.recv.session halert
    dsimp only
    by_cases hmine : f.sid = l.stream.sid ∧ l.stream.sid ∈ l.recv.session.streams
    · obtain ⟨hsid, hmem⟩ := hmine
      have hlive := (h.opened hmem).1
      rw [if_pos ⟨hsid, hmem⟩] at hevents
      by_cases hfin : f.cmd = cmdFin
      · have hrecord : l.record f = { l with finArrived := true } := by
          unfold record
          rw [if_pos ⟨(h.opened hmem).2, hlive, hsid⟩, if_neg (by rw [hfin]; decide), if_pos hfin]
        rw [hrecord]
        dsimp only
        rw [hevents, if_pos hfin]
        exact h.finish (r := ⟨(l.recv.session.dispatch f).1, f.cmd == cmdAlert⟩) hlive fun hm =>
          (hopen.mp hm).2 ⟨hsid, hfin⟩
      · rw [record_mine h hsid hmem hfin]
        dsimp only
        rw [hevents, if_neg hfin]
        have hstays : l.stream.sid ∈ (l.recv.session.dispatch f).1.streams :=
          hopen.mpr ⟨hmem, fun hx => hfin hx.2⟩
        exact (h.push hlive (carries_no_fin f) fun d => carries_full).of_session
          (fun _ => ⟨hmem, hdead⟩) (fun hno => absurd hstays hno) (fun hd => by rwa [hdead])
    · rw [record_other h hmine, hevents, if_neg hmine, List.append_nil]
      refine h.of_session (fun hm => ⟨(hopen.mp hm).1, hdead⟩) (fun hno => ?_)
        (fun hd => by rwa [hdead])
      exact .inl fun hmem => hno (hopen.mpr ⟨hmem, fun hx => hmine ⟨hx.1, hmem⟩⟩)

/-- What is left of the pipe behind an event that is not the FIN. -/
theorem Inv.tail (h : l.Inv) {e : StreamEvent} {rx : List StreamEvent} (he : e ≠ .fin)
    (hrx : l.stream.rx = e :: rx) (hfin : l.stream.fin = false) {t : AnyTlsStream}
    (ht : t.rx = rx ∧ t.sid = l.stream.sid ∧ t.fin = l.stream.fin) {got : Bytes}
    (hbytes : got ++ (t.out ++ dataOf rx) = l.arrived) : { l with stream := t, got }.Inv := by
  obtain ⟨htrx, hsid, htfin⟩ := ht
  refine ⟨?_, ?_, ?_, ?_, ?_, ?_, ?_, ?_⟩ <;> dsimp only
  · rw [htrx]
    exact hbytes
  · intro d hd
    rw [htrx] at hd
    exact h.full d (by rw [hrx]; exact List.mem_cons_of_mem _ hd)
  · rw [hsid]
    exact h.opened
  · rw [hsid]
    exact h.gone
  · intro hf
    rcases h.finned hf with ⟨front, hfront, hnot⟩ | ⟨hnil, _⟩
    · left
      rw [hrx] at hfront
      cases front with
      | nil =>
        rw [List.nil_append, List.cons.injEq] at hfront
        exact absurd hfront.1 he
      | cons e' front =>
        rw [List.cons_append, List.cons.injEq] at hfront
        exact ⟨front, htrx.trans hfront.2, fun hmem => hnot (List.mem_cons_of_mem _ hmem)⟩
    · rw [hrx] at hnil
      cases hnil
  · intro hf
    refine ⟨fun hmem => (h.unfinned hf).1 ?_, fun hfin' => (h.unfinned hf).2 (htfin ▸ hfin')⟩
    rw [hrx]
    exact List.mem_cons_of_mem _ (htrx ▸ hmem)
  · intro hfin'
    rw [htfin, hfin] at hfin'
    cases hfin'
  · intro hshut
    rw [htfin]
    exact h.shut hshut

/-- A FIN at the front of the pipe is all there is in it. -/
theorem Inv.fin_only (h : l.Inv) {rx : List StreamEvent} (hrx : l.stream.rx = .fin :: rx) :
    l.finArrived = true ∧ rx = [] := by
  have harrived : l.finArrived = true := by
    by_contra hno
    rw [Bool.not_eq_true] at hno
    exact (h.unfinned hno).1 (by rw [hrx]; exact List.mem_cons_self)
  refine ⟨harrived, ?_⟩
  rcases h.finned harrived with ⟨front, hfront, hnot⟩ | ⟨hnil, _⟩
  · rw [hrx] at hfront
    cases front with
    | nil =>
      rw [List.nil_append, List.cons.injEq] at hfront
      exact hfront.2
    | cons e front =>
      rw [List.cons_append, List.cons.injEq] at hfront
      exact absurd (hfront.1 ▸ List.mem_cons_self) hnot
  · rw [hrx] at hnil
    cases hnil

/-- The pipe of a live session is not abandoned before the FIN has been read. -/
theorem Inv.not_closed (h : l.Inv) (hfin : l.stream.fin = false) (hrx : l.stream.rx = [])
    (hgone : l.stream.sid ∉ l.recv.session.streams) : l.recv.session.dead ≠ none := by
  rcases h.gone hgone with harrived | hdead
  · rcases h.finned harrived with ⟨front, hfront, _⟩ | ⟨_, hfin'⟩
    · rw [hrx] at hfront
      exact absurd hfront.symm (by simp)
    · rw [hfin] at hfin'
      cases hfin'
  · exact hdead

theorem Inv.read (h : l.Inv) (n : Nat) : (l.onRead n).Inv := by
  by_cases hn : n = 0
  · unfold onRead result
    rw [hn, AnyTlsStream.pollRead_zero]
    dsimp only [ReadResult.bytes]
    rw [List.append_nil]
    exact h
  · have hcase := AnyTlsStream.pollRead_case l.recv.session hn l.stream h.full
    unfold onRead result
    generalize l.stream.pollRead l.recv.session n = x at hcase ⊢
    obtain ⟨r, t⟩ := x
    have hbytes := h.bytes
    cases hcase with
    | buffered hout =>
      refine ⟨?_, h.full, h.opened, h.gone, h.finned, h.unfinned, h.ended, h.shut⟩
      dsimp only [ReadResult.bytes]
      rw [List.append_assoc, ← List.append_assoc (l.stream.out.take n), List.take_append_drop]
      exact hbytes
    | failed hout herr =>
      refine ⟨?_, h.full, h.opened, h.gone, h.finned, h.unfinned, h.ended, h.shut⟩
      dsimp only [ReadResult.bytes]
      rw [List.append_nil]
      exact hbytes
    | ended hout herr hfin =>
      dsimp only [ReadResult.bytes]
      rw [List.append_nil]
      exact h
    | data hout hfin hrx =>
      refine h.tail (by nofun) hrx hfin ?_ ?_
      · exact ⟨rfl, rfl, rfl⟩
      rw [hout, List.nil_append, hrx, dataOf] at hbytes
      dsimp only [ReadResult.bytes]
      rw [List.append_assoc, ← List.append_assoc (List.take n _), List.take_append_drop]
      exact hbytes
    | fin hout hfin hrx =>
      obtain ⟨harrived, hnil⟩ := h.fin_only hrx
      subst hnil
      rw [hout, List.nil_append, hrx, dataOf_fin] at hbytes
      dsimp only [ReadResult.bytes]
      refine ⟨?_, nofun, h.opened, h.gone, fun _ => .inr ⟨rfl, rfl⟩, ?_, fun _ => .inr rfl,
        fun _ => rfl⟩
      · rw [hout, List.append_nil]
        exact hbytes
      · intro hf
        rw [harrived] at hf
        cases hf
    | error hout hfin hrx =>
      refine h.tail (by nofun) hrx hfin ?_ ?_
      · exact ⟨rfl, rfl, rfl⟩
      rw [hrx, dataOf_error] at hbytes
      dsimp only [ReadResult.bytes]
      rw [List.append_nil]
      exact hbytes
    | waits hout hfin hrx hopen =>
      dsimp only [ReadResult.bytes]
      rw [List.append_nil]
      exact h
    | died hout hfin hrx hdead =>
      dsimp only [ReadResult.bytes]
      rw [List.append_nil]
      exact h
    | closed hout hfin hrx hgone hdead => exact absurd hdead (h.not_closed hfin hrx hgone)

theorem Inv.step (h : l.Inv) (e : Event) : (l.step e).Inv := by
  cases e with
  | frame f => exact h.frame f
  | close reason =>
    unfold Link.step Recv.close
    dsimp only
    split_ifs
    · exact h
    · exact h.kill reason true
  | kill reason => exact h.kill reason l.recv.ended
  | read n => exact h.read n
  | shutdown =>
    unfold Link.step AnyTlsStream.pollShutdown AnyTlsStream.sendFin
    dsimp only
    split_ifs
    · exact ⟨h.bytes, h.full, h.opened, h.gone, fun hf => (h.finned hf).imp_right fun x => ⟨x.1, rfl⟩,
        fun hf => ⟨(h.unfinned hf).1, fun _ => rfl⟩, fun _ => .inl rfl, fun _ => rfl⟩
    · exact ⟨h.bytes, h.full, h.opened, h.gone, fun hf => (h.finned hf).imp_right fun x => ⟨x.1, rfl⟩,
        fun hf => ⟨(h.unfinned hf).1, fun _ => rfl⟩, fun _ => .inl rfl, fun _ => rfl⟩
  | flushed => exact ⟨h.bytes, h.full, h.opened, h.gone, h.finned, h.unfinned, h.ended, h.shut⟩

/-! ## A read that goes on -/

end Link

end RustCrash.AnyTls
