import RustCrash.Vision.ReadLoop

/-
  Two ends of a Vision connection: what one of them has written is what the other one reads.

  Each end writes, flushes and reads in any order. Its reads and its writes share the detector and
  nothing else (`SameWriter`, `SameReader`), so that one direction may be followed without the
  other (`Session.emitted`, `Session.reads`).
-/

namespace RustCrash.Vision

open Lib VisionConn

/-! ## Both halves of a connection -/

/-- The fields that writing goes by. -/
structure SameWriter (c c' : VisionConn) : Prop where
  onceUuid : c'.onceUuid = c.onceUuid
  padding : c'.padding = c.padding
  pending : c'.pending = c.pending

theorem SameWriter.rfl {c : VisionConn} : SameWriter c c := ⟨Eq.refl _, Eq.refl _, Eq.refl _⟩

theorem SameWriter.trans {a b c : VisionConn} (h : SameWriter a b) (h' : SameWriter b c) :
    SameWriter a c :=
  ⟨h'.onceUuid.trans h.onceUuid, h'.padding.trans h.padding, h'.pending.trans h.pending⟩

/-- The connection that a pass of the loop leaves. -/
def VisionConn.Turn.conn (c : VisionConn) : Turn → VisionConn
  | .again c' => c'
  | .gives c' _ => c'
  | .fails c' _ => c'
  | .through => c
  | .wants => c

theorem sameWriter_enterFrame (c : VisionConn) (command : FrameCommand) (contentLen pad : Nat) :
    SameWriter c (c.enterFrame command contentLen pad) := by
  unfold enterFrame
  dsimp only
  split_ifs <;> exact ⟨rfl, rfl, rfl⟩

theorem sameWriter_turn (c : VisionConn) (cap : Nat) : SameWriter c ((c.turn cap).conn c) := by
  unfold VisionConn.turn
  cases c.phase <;> dsimp only
  · unfold turnInit
    split_ifs <;> exact ⟨rfl, rfl, rfl⟩
  · unfold turnHeader
    split_ifs
    · exact .rfl
    dsimp only
    cases FrameCommand.fromByte (c.inBuf.getD 0 0) with
    | none => exact ⟨rfl, rfl, rfl⟩
    | some command =>
      exact SameWriter.trans (b := { c with inBuf := c.inBuf.drop 5 }) ⟨rfl, rfl, rfl⟩
        (sameWriter_enterFrame _ _ _ _)
  · unfold turnContent
    dsimp only
    split_ifs <;> exact ⟨rfl, rfl, rfl⟩
  · unfold turnPadding
    dsimp only
    split_ifs <;> exact ⟨rfl, rfl, rfl⟩
  all_goals
    unfold turnRaw
    split_ifs <;> exact ⟨rfl, rfl, rfl⟩

theorem sameWriter_turnEof (c : VisionConn) : SameWriter c (c.turnEof.conn c) := by
  unfold VisionConn.turnEof
  cases c.phase <;> dsimp only
  · split_ifs <;> exact ⟨rfl, rfl, rfl⟩
  all_goals exact .rfl

theorem sameWriter_pollFill (c : VisionConn) (script : List Arrival) :
    SameWriter c (c.pollFill script).1 := by
  unfold VisionConn.pollFill
  generalize pollOuter xrayChunkSize script = r
  obtain ⟨script', _ | bs⟩ := r
  · exact .rfl
  · dsimp only
    split_ifs <;> exact ⟨rfl, rfl, rfl⟩

theorem conn_readThrough (c : VisionConn) (cap : Nat) (script : List Arrival) :
    (c.readThrough cap script).conn = c := by
  unfold VisionConn.readThrough
  generalize pollOuter cap script = r
  obtain ⟨script', _ | bs⟩ := r <;> rfl

theorem sameWriter_readFor (c : VisionConn) (cap n : Nat) (script : List Arrival) :
    SameWriter c (readFor cap n script c).conn := by
  induction n generalizing c script with
  | zero => exact .rfl
  | succ n ih =>
    have hturn := sameWriter_turn c cap
    rw [VisionConn.readFor]
    cases ht : c.turn cap with
    | again c' =>
      rw [ht] at hturn
      exact hturn.trans (ih c' script)
    | gives c' out =>
      rw [ht] at hturn
      exact hturn
    | fails c' e =>
      rw [ht] at hturn
      exact hturn
    | through =>
      dsimp only
      rw [conn_readThrough]
      exact .rfl
    | wants =>
      dsimp only
      split_ifs
      · have heof := sameWriter_turnEof c
        cases he : c.turnEof with
        | again c' =>
          rw [he] at heof
          exact heof.trans (ih c' script)
        | gives c' out =>
          rw [he] at heof
          exact heof
        | fails c' e =>
          rw [he] at heof
          exact heof
        | through => exact .rfl
        | wants => exact .rfl
      · have hfill := sameWriter_pollFill c script
        generalize c.pollFill script = r at hfill
        obtain ⟨c', script', _ | _⟩ := r
        · exact hfill
        · exact hfill.trans (ih c' script')

theorem sameReader_framePieces (draw : Nat → Nat) (pieces : List Bytes) (i : Nat)
    (c : VisionConn) : SameReader c (framePieces draw i c pieces) := by
  induction pieces generalizing i c with
  | nil => exact ⟨rfl, rfl, rfl, rfl, rfl, rfl, rfl⟩
  | cons piece pieces ih =>
    have hpiece : SameReader c (c.framePiece (draw i) piece) := by
      unfold framePiece
      split_ifs <;> exact ⟨rfl, rfl, rfl, rfl, rfl, rfl, rfl⟩
    have hrest := ih (i + 1) (c.framePiece (draw i) piece)
    exact ⟨hrest.uuid.trans hpiece.uuid, hrest.inBuf.trans hpiece.inBuf,
      hrest.phase.trans hpiece.phase, hrest.remainingContent.trans hpiece.remainingContent,
      hrest.remainingPadding.trans hpiece.remainingPadding,
      hrest.currentCommand.trans hpiece.currentCommand, hrest.eof.trans hpiece.eof⟩

theorem conn_writeThrough (c : VisionConn) (data : Bytes) (grants : List Grant) :
    (c.writeThrough data grants).conn = c := by
  rcases grants with _ | ⟨_ | ⟨e | n⟩, grants⟩ <;> rfl

theorem sameReader_pollWrite (c : VisionConn) (draw : Nat → Nat) (data : Bytes)
    (grants : List Grant) : SameReader c (c.pollWrite draw data grants).conn := by
  unfold VisionConn.pollWrite
  dsimp only
  split_ifs
  · rw [conn_writeThrough]
    exact ⟨rfl, rfl, rfl, rfl, rfl, rfl, rfl⟩
  · exact ⟨rfl, rfl, rfl, rfl, rfl, rfl, rfl⟩
  · have h := sameReader_framePieces draw (reshape data) 0
      { c with pending := (drain grants c.pending).left, filter := c.filter.observe data }
    exact ⟨h.uuid, h.inBuf, h.phase, h.remainingContent, h.remainingPadding, h.currentCommand,
      h.eof⟩
  · exact ⟨rfl, rfl, rfl, rfl, rfl, rfl, rfl⟩

theorem sameReader_hideVlessHeader (c : VisionConn) (draw : Nat) :
    SameReader c (c.hideVlessHeader draw).1 := by
  unfold VisionConn.hideVlessHeader
  split_ifs
  · exact ⟨rfl, rfl, rfl, rfl, rfl, rfl, rfl⟩
  · cases c.onceUuid <;> exact ⟨rfl, rfl, rfl, rfl, rfl, rfl, rfl⟩

/-! ## Runs -/

/-- One end: its stream, what it has sent and accepted, and what its reads gave. -/
structure Session where
  conn : VisionConn
  script : List Arrival
  sent : Bytes
  plain : Bytes
  results : List (Poll (IoResult Bytes))

inductive Call where
  | write (draw : Nat → Nat) (data : Bytes) (grants : List Grant)
  | flush (grants : List Grant) (outer : Poll (IoResult Unit))
  | hide (draw : Nat)
  | read (cap : Nat)

/-- A read into a buffer that has room. -/
def Call.hasRoom : Call → Bool
  | .read cap => 0 < cap
  | _ => false

theorem Call.eq_read {call : Call} (h : call.hasRoom = true) :
    ∃ cap, call = .read cap ∧ 0 < cap := by
  cases call with
  | read cap => exact ⟨cap, rfl, of_decide_eq_true h⟩
  | write | flush | hide => cases h

namespace Session

def start (uuid : ByteVec 16) (requireCompleteRecords : Bool) (script : List Arrival) : Session :=
  ⟨.new uuid requireCompleteRecords, script, [], [], []⟩

def call (s : Session) : Call → Session
  | .write draw data grants =>
    let p := s.conn.pollWrite draw data grants
    { s with conn := p.conn, sent := s.sent ++ p.sent, plain := s.plain ++ accepted data p.res }
  | .flush grants outer =>
    let p := s.conn.pollFlush grants outer
    { s with conn := p.conn, sent := s.sent ++ p.sent }
  | .hide draw => { s with conn := (s.conn.hideVlessHeader draw).1 }
  | .read cap =>
    let p := s.conn.pollRead cap s.script
    { s with conn := p.conn, script := p.script, results := s.results ++ [p.res] }

def run (s : Session) (calls : List Call) : Session := calls.foldl call s

/-- All that the reads of an end gave. -/
def output (s : Session) : Bytes := s.results.flatMap given

/-- The writer's side of a call. -/
theorem emitted_call {uuid : ByteVec 16} {s : Session} (h : Emitted uuid s.conn s.sent s.plain)
    (call : Call) : Emitted uuid (s.call call).conn (s.call call).sent (s.call call).plain := by
  cases call with
  | write draw data grants => exact h.pollWrite draw data grants
  | flush grants outer => exact h.pollFlush grants outer
  | hide draw => exact h.hideVlessHeader draw
  | read cap =>
    have hsame := sameWriter_readFor s.conn cap (passes s.script s.conn) s.script
    refine h.congr hsame.onceUuid hsame.padding ?_
    exact congrArg (s.sent ++ ·) hsame.pending

/-- What an end has queued carries what it has accepted. -/
theorem emitted {uuid : ByteVec 16} {s : Session} (h : Emitted uuid s.conn s.sent s.plain)
    (calls : List Call) :
    Emitted uuid (s.run calls).conn (s.run calls).sent (s.run calls).plain := by
  induction calls generalizing s with
  | nil => exact h
  | cons call calls ih => exact ih (emitted_call h call)

/-- An end that has read a part of `bs`; it fails only when it has read all of it. -/
structure Reads (closing : Bool) (later bs : Bytes) (s : Session) (rest : Bytes) : Prop where
  holds : Holds closing later s.conn s.script rest
  split : bs = s.output ++ rest
  fails : ∀ e, .ready (.error e) ∈ s.results → closing = true ∧ rest = []

theorem output_read (s : Session) (cap : Nat) :
    (s.call (.read cap)).output = s.output ++ given (s.conn.pollRead cap s.script).res := by
  unfold output call
  dsimp only
  rw [List.flatMap_append, List.flatMap_singleton]

/-- The reader's side of a call. -/
theorem reads_call {closing : Bool} {later bs rest : Bytes} {s : Session}
    (h : s.Reads closing later bs rest) (call : Call) :
    ∃ rest', (s.call call).Reads closing later bs rest' ∧
      weight (s.call call).script ≤ weight s.script ∧ rest'.length ≤ rest.length ∧
      ∀ cap, call = .read cap → 0 < cap → rest'.length < rest.length ∨
        weight (s.call call).script < weight s.script ∨ (later = [] → rest' = []) := by
  have hkeeps : ∀ c', SameReader s.conn c' → Holds closing later c' s.script rest := by
    intro c' hsame
    have hholds := h.holds
    refine ⟨hholds.carries.congr hsame, hholds.ends, hholds.closed, fun heof => ?_⟩
    exact hholds.eof (hsame.eof ▸ heof)
  cases call with
  | write draw data grants =>
    exact ⟨rest, ⟨hkeeps _ (sameReader_pollWrite _ _ _ _), h.split, h.fails⟩, Nat.le_refl _,
      Nat.le_refl _, nofun⟩
  | flush grants outer =>
    exact ⟨rest, ⟨hkeeps _ ⟨rfl, rfl, rfl, rfl, rfl, rfl, rfl⟩, h.split, h.fails⟩, Nat.le_refl _,
      Nat.le_refl _, nofun⟩
  | hide draw =>
    exact ⟨rest, ⟨hkeeps _ (sameReader_hideVlessHeader _ _), h.split, h.fails⟩, Nat.le_refl _,
      Nat.le_refl _, nofun⟩
  | read cap =>
    have hread : Gives closing later cap s.script rest (s.conn.pollRead cap s.script) :=
      h.holds.pollRead
    obtain ⟨rest', hholds, hsplit, hmoves⟩ := hread.gives
    have hlen := congrArg List.length hsplit
    rw [List.length_append] at hlen
    refine ⟨rest', ⟨hholds, ?_, fun e he => ?_⟩, hread.shrinks, by omega, fun cap' hcap hpos => ?_⟩
    · rw [output_read, List.append_assoc, ← hsplit]
      exact h.split
    · rcases List.mem_append.mp he with he | he
      · obtain ⟨hclosing, hnil⟩ := h.fails e he
        rw [hnil] at hsplit
        exact ⟨hclosing, (List.append_eq_nil_iff.mp hsplit.symm).2⟩
      · obtain ⟨hclosing, hnil⟩ := hread.fails e (List.mem_singleton.mp he).symm
        rw [hnil] at hsplit
        exact ⟨hclosing, (List.append_eq_nil_iff.mp hsplit.symm).2⟩
    · cases hcap
      rcases hmoves hpos with hne | hless | hend
      · have := List.length_pos_of_ne_nil hne
        exact .inl (by omega)
      · exact .inr (.inl hless)
      · exact .inr (.inr hend)

/-- The reads of some calls that have room for a byte. -/
def readsOf (calls : List Call) : Nat := calls.countP Call.hasRoom

/-- An end reads in order, and with enough reads it reads everything. -/
theorem reads {closing : Bool} {later bs rest : Bytes} {s : Session}
    (h : s.Reads closing later bs rest) (calls : List Call) :
    ∃ rest', (s.run calls).Reads closing later bs rest' ∧ rest'.length ≤ rest.length ∧
      (later = [] → weight s.script + rest.length ≤ readsOf calls → rest' = []) := by
  induction calls generalizing s rest with
  | nil =>
    refine ⟨rest, h, Nat.le_refl _, fun _ hle => List.eq_nil_of_length_eq_zero ?_⟩
    have hnone : readsOf [] = 0 := rfl
    omega
  | cons call calls ih =>
    obtain ⟨mid, hmid, hweight, hlen, hmoves⟩ := reads_call h call
    obtain ⟨rest', hrest, hlen', hall⟩ := ih hmid
    refine ⟨rest', hrest, Nat.le_trans hlen' hlen, fun hlater hle => ?_⟩
    unfold readsOf at hle
    rw [List.countP_cons] at hle
    by_cases hroom : call.hasRoom = true
    · obtain ⟨cap, hread, hcap⟩ := Call.eq_read hroom
      rw [if_pos hroom] at hle
      rcases hmoves cap hread hcap with hless | hless | hend
      · exact hall hlater (by unfold readsOf; omega)
      · exact hall hlater (by unfold readsOf; omega)
      · rw [hend hlater] at hlen'
        exact List.eq_nil_of_length_eq_zero (Nat.le_zero.mp hlen')
    · rw [if_neg hroom] at hle
      exact hall hlater (by unfold readsOf; omega)

theorem reads_start (uuid : ByteVec 16) (requireCompleteRecords closing : Bool)
    {script : List Arrival} {later wire bs : Bytes} (hend : Endless script)
    (hwire : arrived script ++ later = wire) (hclosing : closing = true → later = [])
    (hcarries : wire = [] ∧ bs = [] ∨ ∃ padding frames, frames ≠ [] ∧
      wire = uuid.val ++ frames ∧ Framed padding frames bs) :
    (start uuid requireCompleteRecords
      (script ++ if closing then [.data []] else [])).Reads closing later bs bs := by
  have harrived : arrived (script ++ if closing then [.data []] else []) = arrived script := by
    rw [arrived_append]
    cases closing <;> exact List.append_nil _
  refine ⟨⟨?_, ⟨script, hend, rfl⟩, hclosing, nofun⟩, rfl, nofun⟩
  change VisionConn.Carries _ (arrived (script ++ if closing then [.data []] else []) ++ later) bs
  rw [harrived, hwire]
  exact hcarries

/-- All that was queued, seen from the other end. -/
theorem carries_emitted {uuid : ByteVec 16} {c : VisionConn} {sent plain : Bytes}
    (h : Emitted uuid c sent plain) :
    sent ++ c.pending = [] ∧ plain = [] ∨ ∃ padding frames, frames ≠ [] ∧
      sent ++ c.pending = uuid.val ++ frames ∧ Framed padding frames plain := by
  rcases h with ⟨-, -, hall, hplain⟩ | ⟨-, frames, hne, hall, hframed⟩
  · exact .inl ⟨hall, hplain⟩
  · exact .inr ⟨c.padding, frames, hne, hall, hframed⟩

end Session

/-- The framing is transparent. Whatever an end writes and however the outer stream takes it, the
    other end reads a beginning of what was written, without an error; behind a flush it reads all
    of it, however its stream is cut and into buffers of any size, and if the stream ends there it
    may say so with an error only after the last byte. -/
theorem framing_transparent (uuid : ByteVec 16) (complete complete' : Bool) (script₀ : List Arrival)
    (calls : List Call) :
    let s := (Session.start uuid complete script₀).run calls
    (∀ (script : List Arrival) (peerCalls : List Call), Endless script →
      arrived script <+: s.sent →
      let t := (Session.start uuid complete' script).run peerCalls
      t.output <+: s.plain ∧ ∀ e, .ready (.error e) ∉ t.results) ∧
    ∀ (grants : List Grant) (outer : Poll (IoResult Unit)),
      (s.conn.pollFlush grants outer).res = .ready (.ok ()) →
      ∀ (script : List Arrival) (closing : Bool), Endless script →
        arrived script = (s.call (.flush grants outer)).sent →
        ∃ n, ∀ peerCalls : List Call,
          let t := (Session.start uuid complete'
            (script ++ if closing then [.data []] else [])).run peerCalls
          t.output <+: s.plain ∧ (n ≤ Session.readsOf peerCalls → t.output = s.plain) ∧
            ∀ e, .ready (.error e) ∈ t.results → closing = true ∧ t.output = s.plain := by
  intro s
  have hemitted : Emitted uuid s.conn s.sent s.plain :=
    Session.emitted (Emitted.new uuid complete) calls
  constructor
  · intro script peerCalls hend hprefix t
    obtain ⟨unsent, hunsent⟩ := hprefix
    have hcarries := Session.carries_emitted hemitted
    rw [← hunsent, List.append_assoc] at hcarries
    have hstart := Session.reads_start uuid complete' false hend rfl nofun hcarries
    rw [if_neg Bool.false_ne_true, List.append_nil] at hstart
    obtain ⟨rest, hreads, -⟩ := Session.reads hstart peerCalls
    exact ⟨⟨rest, hreads.split.symm⟩, fun e he => absurd (hreads.fails e he).1 nofun⟩
  · intro grants outer hflush script closing hend harrived
    have hflushed := Session.emitted_call hemitted (.flush grants outer)
    have hpending : (s.call (.flush grants outer)).conn.pending = [] := by
      refine left_drain ?_
      unfold VisionConn.pollFlush at hflush
      dsimp only at hflush
      split_ifs at hflush with hdone
      · exact hdone
      · exact absurd hflush hdone
    have hcarries := Session.carries_emitted hflushed
    rw [hpending, ← harrived] at hcarries
    have hstart := Session.reads_start uuid complete' closing hend rfl (fun _ => rfl) hcarries
    refine ⟨weight (script ++ if closing then [.data []] else []) + s.plain.length,
      fun peerCalls => ?_⟩
    obtain ⟨rest, hreads, -, hall⟩ := Session.reads hstart peerCalls
    have hsplit := hreads.split
    have hrest : rest = [] → ((Session.start uuid complete'
        (script ++ if closing then [.data []] else [])).run peerCalls).output = s.plain := by
      rintro rfl
      rw [List.append_nil] at hsplit
      exact hsplit.symm
    exact ⟨⟨rest, hreads.split.symm⟩, fun hn => hrest (hall rfl hn),
      fun e he => ⟨(hreads.fails e he).1, hrest (hreads.fails e he).2⟩⟩

/-! ## A connection -/

def sampleUuid : ByteVec 16 := ByteVec.zero 16

/-- A client hello, which the stream takes in two pieces, and a record behind it. -/
def sampleCalls : List Call :=
  [.write (fun _ => 7) [0x16, 3, 1, 0, 1, 1] [.ready (.ok 20), .pending],
    .write (fun _ => 9) [0x17, 3, 3, 0, 1, 5] [.ready (.ok 5000)],
    .write (fun _ => 0) [1, 2, 3] [.ready (.ok 5000), .ready (.ok 2)]]

def sampleSession : Session := (Session.start sampleUuid false []).run sampleCalls

theorem sampleSession_plain :
    sampleSession.plain = [0x16, 3, 1, 0, 1, 1, 0x17, 3, 3, 0, 1, 5, 1, 2] ∧
      sampleSession.conn.pending = [] ∧ sampleSession.sent ≠ [] := by
  decide +kernel

theorem sampleSession_flushed :
    (sampleSession.conn.pollFlush [] (.ready (.ok ()))).res = .ready (.ok ()) ∧
      (sampleSession.call (.flush [] (.ready (.ok ())))).sent = sampleSession.sent := by
  unfold Session.call VisionConn.pollFlush
  rw [sampleSession_plain.2.1]
  exact ⟨rfl, List.append_nil _⟩

theorem framing_transparent_sample : ∃ n, ∀ peerCalls : List Call, n ≤ Session.readsOf peerCalls →
    ((Session.start sampleUuid true
      ([.data sampleSession.sent] ++ if true then [.data []] else [])).run peerCalls).output =
      sampleSession.plain := by
  obtain ⟨hflush, hsame⟩ := sampleSession_flushed
  have hend : Endless [.data sampleSession.sent] := fun hmem =>
    sampleSession_plain.2.2 (Arrival.data.inj (List.mem_singleton.mp hmem)).symm
  have harrived : arrived [.data sampleSession.sent] =
      (sampleSession.call (.flush [] (.ready (.ok ())))).sent := by
    rw [hsame]
    exact List.append_nil _
  obtain ⟨n, hn⟩ := (framing_transparent sampleUuid false true [] sampleCalls).2 [] (.ready (.ok ()))
    hflush [.data sampleSession.sent] true hend harrived
  exact ⟨n, fun peerCalls hle => (hn peerCalls).2.1 hle⟩

end RustCrash.Vision
