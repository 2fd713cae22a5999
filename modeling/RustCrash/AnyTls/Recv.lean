import RustCrash.AnyTls.Padding

/-
  The receiving side of an AnyTLS session: `recv_loop`, which takes the frames off what the
  transport has read and hands each to its stream.

  An alert ends the session. Up to there, what a stream is handed is what the frames of its
  own carry (`streamEvents`), however the bytes were cut into reads (`demux`).

  A session that is killed from elsewhere while the loop waits for bytes ends there; a killed
  session has no streams.
-/

namespace RustCrash.AnyTls

open Lib

/-- One inbound event for a stream. -/
inductive StreamEvent where
  | data (bytes : Bytes)
  | fin
  | remoteError (text : Str)
  deriving DecidableEq

/-- What the loop does besides its own state. -/
inductive Act where
  /-- An event is sent into the pipe of a stream. -/
  | event (sid : UInt32) (e : StreamEvent)
  /-- `WriteCmd::Bytes`, `WriteCmd::Shutdown`. -/
  | queue (frames : Bytes)
  | shutdown

/-- What the loop uses of `SessionCore`. -/
structure Session where
  /-- The stream ids with an event pipe. -/
  streams : Finset UInt32
  padding : PaddingFactory
  peerVersion : UInt32
  /-- The reason, once the session is dead. -/
  dead : Option Str

namespace Session

/-- Every stream is closed locally and the transport shuts down; a dead session stays dead. -/
def kill (s : Session) (reason : Str) : Session × List Act :=
  if s.dead.isSome then (s, [])
  else ({ s with dead := some reason, streams := ∅ }, [.shutdown])

/-- Into the pipe of a stream, if there is one. -/
def send (s : Session) (sid : UInt32) (e : StreamEvent) : List Act :=
  if sid ∈ s.streams then [.event sid e] else []

/-- `v=` of the server settings. -/
def settingsVersion (data : Bytes) : Option Nat :=
  (((fromUtf8Lossy data).splitOn '\n').findSome? fun l => l.dropPrefix? ['v', '=']).bind fun v =>
    Str.parseUint (2 ^ 32 - 1) (Str.trim v)

/-- The `match cmd` of the loop. -/
def dispatch (s : Session) (f : Frame) : Session × List Act :=
  if f.cmd = cmdPsh then (s, if f.data = [] then [] else s.send f.sid (.data f.data))
  else if f.cmd = cmdFin then ({ s with streams := s.streams.erase f.sid }, s.send f.sid .fin)
  else if f.cmd = cmdSynack then
    (s, if f.data = [] then []
      else s.send f.sid (.remoteError ("anytls: remote: ".toList ++ fromUtf8Lossy f.data)))
  else if f.cmd = cmdAlert then s.kill "anytls: server alert".toList
  else if f.cmd = cmdUpdatePadding then
    (match PaddingFactory.new f.data with
      | some p => { s with padding := p }
      | none => s, [])
  else if f.cmd = cmdHeartRequest then (s, [.queue (frameInto [] cmdHeartResponse f.sid [])])
  else if f.cmd = cmdServerSettings then
    (match settingsVersion f.data with
      | some v => { s with peerVersion := UInt32.ofNat v }
      | none => s, [])
  else (s, [])

end Session

/-- The loop; `ended` once it has left `'session`. -/
structure Recv where
  session : Session
  ended : Bool

/-- What the loop does with what its buffer holds. -/
def recvLoop : Chunked Recv UInt8 Act where
  step r buf :=
    if r.ended then none
    else (nextFrame buf).map fun x =>
      let d := r.session.dispatch x.1
      (⟨d.1, x.1.cmd == cmdAlert⟩, x.2, d.2)
  size _ buf := buf.length
  shrinks h := by
    split_ifs at h
    obtain ⟨⟨f, rest⟩, hf, hx⟩ := Option.map_eq_some_iff.mp h
    cases hx
    exact nextFrame_shrinks hf
  stable more h := by
    split_ifs at h ⊢
    obtain ⟨⟨f, rest⟩, hf, hx⟩ := Option.map_eq_some_iff.mp h
    cases hx
    rw [nextFrame_stable more hf]
    rfl

theorem recvLoop_step (s : Session) (buf : Bytes) :
    recvLoop.step ⟨s, false⟩ buf = (nextFrame buf).map fun x =>
      (⟨(s.dispatch x.1).1, x.1.cmd == cmdAlert⟩, x.2, (s.dispatch x.1).2) := rfl

/-- The transport is at its end, or fails. -/
def Recv.close (r : Recv) (reason : Str) : Recv × List Act :=
  if r.ended then (r, [])
  else
    let k := r.session.kill reason
    (⟨k.1, true⟩, k.2)

/-! ## What a stream is handed -/

/-- The events for one stream. -/
def eventsOf (sid : UInt32) (acts : List Act) : List StreamEvent :=
  acts.filterMap fun
    | .event i e => if i = sid then some e else none
    | _ => none

/-- The event that a frame with data is for its stream. -/
def Frame.carries (f : Frame) : Option StreamEvent :=
  if f.data = [] then none
  else if f.cmd = cmdPsh then some (.data f.data)
  else if f.cmd = cmdSynack then
    some (.remoteError ("anytls: remote: ".toList ++ fromUtf8Lossy f.data))
  else none

/-- What the frames hold for a stream: its data and errors, in wire order, up to and including
    its first FIN, of what comes before an alert. -/
def streamEvents (sid : UInt32) : List Frame → List StreamEvent
  | [] => []
  | f :: fs =>
    if f.cmd = cmdAlert then []
    else if f.sid ≠ sid then streamEvents sid fs
    else if f.cmd = cmdFin then [.fin]
    else f.carries.toList ++ streamEvents sid fs

/-- The loop over whole frames. -/
def Session.dispatchAll : Session → List Frame → List Act
  | _, [] => []
  | s, f :: fs =>
    (s.dispatch f).2 ++ if f.cmd = cmdAlert then [] else dispatchAll (s.dispatch f).1 fs

theorem recvLoop_frames (s : Session) (buf : Bytes) :
    (recvLoop.drain ⟨s, false⟩ buf).2.2 = s.dispatchAll (parseFrames buf).2 := by
  induction hk : buf.length using Nat.strong_induction_on generalizing s buf with
  | _ k ih =>
    cases h : nextFrame buf with
    | none =>
      have hstep : recvLoop.step ⟨s, false⟩ buf = none := by
        rw [recvLoop_step, h]
        rfl
      rw [Chunked.drain_none hstep, parseFrames_short h]
      rfl
    | some x =>
      obtain ⟨f, rest⟩ := x
      have hstep : recvLoop.step ⟨s, false⟩ buf =
          some (⟨(s.dispatch f).1, f.cmd == cmdAlert⟩, rest, (s.dispatch f).2) := by
        rw [recvLoop_step, h]
        rfl
      rw [Chunked.drain_some hstep, parseFrames_cons h]
      dsimp only
      rw [Session.dispatchAll]
      by_cases halert : f.cmd = cmdAlert
      · have hend : recvLoop.step ⟨(s.dispatch f).1, f.cmd == cmdAlert⟩ rest = none := by
          rw [halert]
          rfl
        rw [Chunked.drain_none hend, if_pos halert]
      · have hgo : (f.cmd == cmdAlert) = false := beq_eq_false_iff_ne.mpr halert
        rw [hgo, if_neg halert, ih _ (hk ▸ nextFrame_shrinks h) _ rest rfl]

theorem eventsOf_append (sid : UInt32) (xs ys : List Act) :
    eventsOf sid (xs ++ ys) = eventsOf sid xs ++ eventsOf sid ys := List.filterMap_append

theorem eventsOf_send (s : Session) (sid i : UInt32) (e : StreamEvent) :
    eventsOf sid (s.send i e) = if i = sid ∧ sid ∈ s.streams then [e] else [] := by
  unfold Session.send eventsOf
  by_cases hi : i = sid
  · subst hi
    by_cases hmem : i ∈ s.streams
    · simp [hmem]
    · simp [hmem]
  · by_cases hmem : i ∈ s.streams
    · simp [hi, hmem]
    · simp [hi, hmem]

theorem eventsOf_nil (sid : UInt32) : eventsOf sid [] = [] := rfl

theorem carries_none {f : Frame} (hpsh : f.cmd ≠ cmdPsh) (hsynack : f.cmd ≠ cmdSynack) :
    f.carries = none := by
  unfold Frame.carries
  rw [if_neg hpsh, if_neg hsynack, ite_self]

/-- What one frame is for a stream that is open or not, and whether it stays open. -/
theorem dispatch_events (s : Session) (sid : UInt32) {f : Frame} (halert : f.cmd ≠ cmdAlert) :
    eventsOf sid (s.dispatch f).2 = (if f.sid = sid ∧ sid ∈ s.streams then
        if f.cmd = cmdFin then [.fin] else f.carries.toList
      else []) ∧
      (sid ∈ (s.dispatch f).1.streams ↔
        sid ∈ s.streams ∧ ¬ (f.sid = sid ∧ f.cmd = cmdFin)) := by
  by_cases hpsh : f.cmd = cmdPsh
  · have hfin : f.cmd ≠ cmdFin := by rw [hpsh]; decide
    unfold Session.dispatch Frame.carries
    by_cases hdata : f.data = []
    · simp [hpsh, hdata, eventsOf_nil, show cmdPsh ≠ cmdFin by decide]
    · simp [hpsh, hdata, eventsOf_send, show cmdPsh ≠ cmdFin by decide]
  · by_cases hfin : f.cmd = cmdFin
    · unfold Session.dispatch
      rw [if_neg hpsh, if_pos hfin]
      dsimp only
      rw [eventsOf_send, Finset.mem_erase]
      constructor
      · simp [hfin]
      · simp [hfin, and_comm, eq_comm]
    · by_cases hsynack : f.cmd = cmdSynack
      · unfold Session.dispatch Frame.carries
        by_cases hdata : f.data = []
        · simp [hsynack, hdata, eventsOf_nil, show cmdSynack ≠ cmdFin by decide,
            show cmdSynack ≠ cmdPsh by decide]
        · simp [hsynack, hdata, eventsOf_send, show cmdSynack ≠ cmdFin by decide,
            show cmdSynack ≠ cmdPsh by decide]
      · have hquiet : eventsOf sid (s.dispatch f).2 = [] ∧
            (s.dispatch f).1.streams = s.streams := by
          unfold Session.dispatch
          simp only [hpsh, hfin, hsynack, halert, if_false]
          split_ifs
          · exact ⟨rfl, by split <;> rfl⟩
          · exact ⟨rfl, rfl⟩
          · exact ⟨rfl, by split <;> rfl⟩
          · exact ⟨rfl, rfl⟩
        rw [hquiet.1, hquiet.2, carries_none hpsh hsynack]
        simp [hfin]

theorem dispatch_alert (s : Session) {f : Frame} (halert : f.cmd = cmdAlert) :
    s.dispatch f = s.kill "anytls: server alert".toList := by
  unfold Session.dispatch
  simp [halert, show cmdAlert ≠ cmdPsh by decide, show cmdAlert ≠ cmdFin by decide,
    show cmdAlert ≠ cmdSynack by decide]

theorem eventsOf_kill (s : Session) (sid : UInt32) (reason : Str) :
    eventsOf sid (s.kill reason).2 = [] := by
  unfold Session.kill
  split_ifs <;> rfl

/-- Only an alert ends a session. -/
theorem dispatch_dead (s : Session) {f : Frame} (halert : f.cmd ≠ cmdAlert) :
    (s.dispatch f).1.dead = s.dead := by
  unfold Session.dispatch
  rw [if_neg halert]
  split_ifs <;> first | rfl | (split <;> rfl)

theorem dispatchAll_events (s : Session) (sid : UInt32) (fs : List Frame) :
    eventsOf sid (s.dispatchAll fs) = if sid ∈ s.streams then streamEvents sid fs else [] := by
  induction fs generalizing s with
  | nil => split_ifs <;> rfl
  | cons f fs ih =>
    unfold Session.dispatchAll streamEvents
    by_cases halert : f.cmd = cmdAlert
    · have hnone : eventsOf sid (s.dispatch f).2 = [] := by
        rw [dispatch_alert s halert, eventsOf_kill]
      rw [if_pos halert, if_pos halert, List.append_nil, hnone, ite_self]
    · obtain ⟨hevents, hopen⟩ := dispatch_events s sid halert
      rw [if_neg halert, if_neg halert, eventsOf_append, ih, hevents]
      by_cases hmem : sid ∈ s.streams
      · by_cases hsid : f.sid = sid
        · by_cases hfin : f.cmd = cmdFin
          · have hgone : sid ∉ (s.dispatch f).1.streams := fun h => (hopen.mp h).2 ⟨hsid, hfin⟩
            simp [hmem, hsid, hfin, hgone]
          · have hstays : sid ∈ (s.dispatch f).1.streams := hopen.mpr ⟨hmem, fun h => hfin h.2⟩
            simp [hmem, hsid, hfin, hstays]
        · have hstays : sid ∈ (s.dispatch f).1.streams := hopen.mpr ⟨hmem, fun h => hsid h.1⟩
          simp [hmem, hsid, hstays]
      · have hgone : sid ∉ (s.dispatch f).1.streams := fun h => hmem (hopen.mp h).1
        simp [hmem, hgone]

/-- The frames that say something to a stream, or end the session. -/
def Frame.concerns (sid : UInt32) (f : Frame) : Bool :=
  f.cmd = cmdAlert ∨ f.sid = sid ∧ (f.cmd = cmdFin ∨ f.cmd = cmdPsh ∨ f.cmd = cmdSynack)

/-- All other frames might as well not be there. -/
theorem streamEvents_filter (sid : UInt32) (fs : List Frame) :
    streamEvents sid (fs.filter (Frame.concerns sid)) = streamEvents sid fs := by
  induction fs with
  | nil => rfl
  | cons f fs ih =>
    by_cases hconcerns : f.concerns sid = true
    · rw [List.filter_cons_of_pos hconcerns]
      unfold streamEvents
      rw [ih]
    · rw [List.filter_cons_of_neg hconcerns, ih]
      unfold Frame.concerns at hconcerns
      rw [decide_eq_true_iff, not_or, not_and, not_or, not_or] at hconcerns
      obtain ⟨halert, hcmd⟩ := hconcerns
      rw [streamEvents, if_neg halert]
      by_cases hsid : f.sid = sid
      · obtain ⟨hfin, hpsh, hsynack⟩ := hcmd hsid
        rw [if_neg (not_not.mpr hsid), if_neg hfin, carries_none hpsh hsynack]
        rfl
      · rw [if_pos hsid]

/-- The events of a stream are those of the whole byte stream, for every way to cut it. -/
theorem demux (s : Session) (sid : UInt32) (reads : List Bytes) :
    eventsOf sid (recvLoop.feedAll ⟨s, false⟩ reads).2.2 =
        (if sid ∈ s.streams then streamEvents sid (parseFrames reads.flatten).2 else []) ∧
      streamEvents sid (parseFrames reads.flatten).2 =
        streamEvents sid ((parseFrames reads.flatten).2.filter (Frame.concerns sid)) := by
  have hidle : recvLoop.step ⟨s, false⟩ [] = none := rfl
  rw [Chunked.feedAll_eq hidle, recvLoop_frames, dispatchAll_events, streamEvents_filter]
  exact ⟨rfl, rfl⟩

/-! ### Behind an alert -/

/-- What the frames hold for a stream if an alert is a frame like another. -/
def streamEventsThrough (sid : UInt32) (fs : List Frame) : List StreamEvent :=
  streamEvents sid (fs.filter fun f => f.cmd ≠ cmdAlert)

def alertThenData : List Frame :=
  [⟨cmdAlert, 0, [], Nat.zero_le _⟩, ⟨cmdPsh, 1, [7], by decide⟩]

/-- Data that comes behind an alert is not delivered. -/
theorem alert_drops_data : ∃ s : Session, 1 ∈ s.streams ∧
    eventsOf 1 (recvLoop.feedAll ⟨s, false⟩ [alertThenData.flatMap Frame.encode]).2.2 ≠
      streamEventsThrough 1 alertThenData := by
  refine ⟨⟨{1}, ⟨[], 0⟩, 0, none⟩, Finset.mem_singleton_self 1, ?_⟩
  decide +kernel

/-! ### Streams side by side -/

/-- What an end of a stream does: it writes data, or finishes. -/
abbrev Writes := List (UInt32 × Option Bytes)

/-- The frames of the calls, in the order in which they were made. -/
def Writes.frames (ws : Writes) : List Frame :=
  ws.flatMap fun w =>
    match w.2 with
    | some data => pshFrames w.1 data
    | none => [⟨cmdFin, w.1, [], Nat.zero_le _⟩]

/-- The calls on one stream. -/
def Writes.of (sid : UInt32) (ws : Writes) : List (Option Bytes) :=
  (ws.filter fun w => w.1 = sid).map (·.2)

theorem Writes.of_cons (sid i : UInt32) (call : Option Bytes) (ws : Writes) :
    Writes.of sid ((i, call) :: ws) = if i = sid then call :: ws.of sid else ws.of sid := by
  unfold Writes.of
  split_ifs with hi <;> simp [hi]

theorem pshFrames_mem {sid : UInt32} {data : Bytes} {f : Frame} (h : f ∈ pshFrames sid data) :
    f.cmd = cmdPsh ∧ f.sid = sid ∧ f.data ≠ [] := by
  unfold pshFrames at h
  generalize data.length = n at h
  induction n generalizing data with
  | zero => cases h
  | succ n ih =>
    unfold pshFramesFor at h
    split_ifs at h with hnil
    · cases h
    · rcases List.mem_cons.mp h with rfl | h
      · exact ⟨rfl, rfl, by simp [maxFrameData, hnil]⟩
      · exact ih h

theorem streamEvents_psh (sid i : UInt32) (fs rest : List Frame)
    (h : ∀ f ∈ fs, f.cmd = cmdPsh ∧ f.sid = i ∧ f.data ≠ []) :
    streamEvents sid (fs ++ rest) =
      (if i = sid then fs.map fun f => .data f.data else []) ++ streamEvents sid rest := by
  induction fs with
  | nil => simp
  | cons f fs ih =>
    obtain ⟨⟨hcmd, hsid, hdata⟩, hfs⟩ := List.forall_mem_cons.mp h
    rw [List.cons_append, streamEvents, ih hfs, hcmd, if_neg (by decide), hsid, Frame.carries,
      if_neg hdata, if_pos hcmd]
    split_ifs <;> simp_all [cmdPsh, cmdFin]

/-- However the streams take turns and the reads are cut, each hands over the bytes that its
    other end wrote, in order, and ends where that finished. -/
theorem streams_apart (s : Session) {sid : UInt32} (hopen : sid ∈ s.streams) (ws : Writes)
    {reads : List Bytes} (hreads : reads.flatten = ws.frames.flatMap Frame.encode) :
    ∃ chunks : List Bytes,
      eventsOf sid (recvLoop.feedAll ⟨s, false⟩ reads).2.2 =
        chunks.map .data ++ (if none ∈ ws.of sid then [.fin] else []) ∧
      chunks.flatten = ((ws.of sid).takeWhile Option.isSome).flatMap fun data => data.getD [] := by
  rw [Chunked.feedAll_eq rfl, recvLoop_frames, dispatchAll_events, if_pos hopen, hreads,
    parseFrames_encode]
  clear hreads
  dsimp only
  induction ws with
  | nil => exact ⟨[], rfl, rfl⟩
  | cons w ws ih =>
    obtain ⟨i, call⟩ := w
    obtain ⟨chunks, hevents, hbytes⟩ := ih
    rw [Writes.of_cons]
    cases call with
    | none =>
      have hframes : Writes.frames ((i, none) :: ws) =
        ⟨cmdFin, i, [], Nat.zero_le _⟩ :: Writes.frames ws := rfl
      rw [hframes, streamEvents, if_neg (show cmdFin ≠ cmdAlert by decide)]
      by_cases hi : i = sid
      · rw [if_neg (not_not.mpr hi), if_pos rfl, if_pos hi]
        exact ⟨[], by simp, by simp⟩
      · rw [if_pos hi, if_neg hi]
        exact ⟨chunks, hevents, hbytes⟩
    | some data =>
      have hframes : Writes.frames ((i, some data) :: ws) =
        pshFrames i data ++ Writes.frames ws := rfl
      rw [hframes, streamEvents_psh sid i _ _ fun f => pshFrames_mem, hevents]
      by_cases hi : i = sid
      · refine ⟨(pshFrames i data).map Frame.data ++ chunks, by simp [hi], ?_⟩
        have hdata := pshFrames_data sid data
        rw [List.flatMap_def] at hdata
        simp [hi, hbytes, hdata]
      · rw [if_neg hi, if_neg hi]
        exact ⟨chunks, rfl, hbytes⟩

theorem streams_apart_two : ∃ chunks : List Bytes,
    eventsOf 1 (recvLoop.feedAll ⟨⟨{1, 2}, ⟨[], 0⟩, 0, none⟩, false⟩
        [Writes.frames [(1, some [7]), (2, some [8]), (1, none)] |>.flatMap Frame.encode]).2.2 =
      chunks.map .data ++ [.fin] ∧ chunks.flatten = [7] :=
  streams_apart ⟨{1, 2}, ⟨[], 0⟩, 0, none⟩ (by decide) [(1, some [7]), (2, some [8]), (1, none)]
    (by rw [List.flatten_singleton])

end RustCrash.AnyTls
