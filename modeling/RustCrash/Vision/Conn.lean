import RustCrash.Lib.PollIo
import RustCrash.Error
import RustCrash.Vision.Frame

/-
  A Vision connection over a stream that does not tell what it is, `VisionConn::connect`: the
  writer frames what it is given until its padding ends, and the reader takes frames apart.

  Such a stream cannot be spliced, so that neither side sends the command `direct`, and the switch
  to the transport below it is left out.
-/

namespace RustCrash.Vision

open Lib

inductive ReadPhase where
  | init
  | header
  | content
  | padding
  | unframed
  | raw
  | rawDirect
  deriving DecidableEq

def ReadPhase.afterBlock : FrameCommand → ReadPhase
  | .continue => .header
  | .end => .raw
  | .direct => .rawDirect

structure VisionConn where
  uuid : ByteVec 16
  requireCompleteRecords : Bool
  filter : TlsFilter
  padding : Bool
  onceUuid : Option (ByteVec 16)
  pending : Bytes
  inBuf : Bytes
  phase : ReadPhase
  remainingContent : Nat
  remainingPadding : Nat
  currentCommand : FrameCommand
  directReceived : Bool
  eof : Bool

/-- What the outer stream says to one write, or to a flush. -/
abbrev Grant := Poll (IoResult Nat)

namespace VisionConn

/-- `with_outer`, before the frame that `initial_padding` asks for. -/
def new (uuid : ByteVec 16) (requireCompleteRecords : Bool) : VisionConn where
  uuid := uuid
  requireCompleteRecords := requireCompleteRecords
  filter := .new
  padding := true
  onceUuid := some uuid
  pending := []
  inBuf := []
  phase := .init
  remainingContent := 0
  remainingPadding := 0
  currentCommand := .continue
  directReceived := false
  eof := false

/-! ## Writing -/

def decide (c : VisionConn) (content : Bytes) : FrameCommand × Bool :=
  match transitionCommand c.filter content c.requireCompleteRecords with
  | some command => (command, true)
  | none => (.continue, c.filter.isTls)

/-- One piece of a buffer. -/
def framePiece (c : VisionConn) (draw : Nat) (piece : Bytes) : VisionConn :=
  if c.padding then
    let (command, longPadding) := c.decide piece
    let pad := paddingLen piece.length longPadding draw
    { c with
      pending := c.pending ++ frame command piece pad c.onceUuid
      onceUuid := none
      padding := command == FrameCommand.continue }
  else { c with pending := c.pending ++ piece }

/-- The pieces, with a draw of the random source for each. -/
def framePieces (draw : Nat → Nat) : Nat → VisionConn → List Bytes → VisionConn
  | _, c, [] => c
  | i, c, piece :: pieces => framePieces draw (i + 1) (c.framePiece (draw i) piece) pieces

def frameIntoPending (c : VisionConn) (draw : Nat → Nat) (data : Bytes) : VisionConn :=
  framePieces draw 0 { c with filter := c.filter.observe data } (reshape data)

def writeZero : IoError := ⟨.writeZero, "vision: transport accepted zero bytes"⟩

/-- What `poll_drain` leaves of the queue, what the stream has taken and what it has yet to say. -/
structure Drained where
  left : Bytes
  sent : Bytes
  grants : List Grant
  res : Poll (IoResult Unit)

def drain : List Grant → Bytes → Drained
  | grants, [] => ⟨[], [], grants, .ready (.ok ())⟩
  | [], pending => ⟨pending, [], [], .pending⟩
  | .pending :: grants, pending => ⟨pending, [], grants, .pending⟩
  | .ready (.error e) :: grants, pending => ⟨pending, [], grants, .ready (.error e)⟩
  | .ready (.ok 0) :: grants, pending => ⟨pending, [], grants, .ready (.error writeZero)⟩
  | .ready (.ok (n + 1)) :: grants, pending =>
    let d := drain grants (pending.drop (n + 1))
    { d with sent := pending.take (n + 1) ++ d.sent }

/-- A call of the writer: the bytes that went to the outer stream, and the result. -/
structure WritePoll (α : Type) where
  conn : VisionConn
  sent : Bytes
  res : Poll (IoResult α)

/-- `poll_write` when there is nothing of the framing left: the outer stream may take a part. -/
def writeThrough (c : VisionConn) (data : Bytes) : List Grant → WritePoll Nat
  | [] => ⟨c, [], .pending⟩
  | .pending :: _ => ⟨c, [], .pending⟩
  | .ready (.error e) :: _ => ⟨c, [], .ready (.error e)⟩
  | .ready (.ok n) :: _ => ⟨c, data.take n, .ready (.ok (min n data.length))⟩

def pollWrite (c : VisionConn) (draw : Nat → Nat) (data : Bytes) (grants : List Grant) :
    WritePoll Nat :=
  let first := drain grants c.pending
  let c := { c with pending := first.left }
  if c.padding = false ∧ c.pending = [] then
    let p := c.writeThrough data first.grants
    { p with sent := first.sent ++ p.sent }
  else if data = [] then ⟨c, first.sent, .ready (.ok 0)⟩
  else
    let c :=
      if c.padding then c.frameIntoPending draw data
      else { c with pending := c.pending ++ data }
    let second := drain first.grants c.pending
    ⟨{ c with pending := second.left }, first.sent ++ second.sent, .ready (.ok data.length)⟩

/-- The outer stream is flushed when the queue is empty. -/
def pollFlush (c : VisionConn) (grants : List Grant) (outer : Poll (IoResult Unit)) :
    WritePoll Unit :=
  let d := drain grants c.pending
  let c := { c with pending := d.left }
  ⟨c, d.sent, if d.res = .ready (.ok ()) then outer else d.res⟩

/-- The frame without content, which goes out with the flushes that follow. -/
def hideVlessHeader (c : VisionConn) (draw : Nat) : VisionConn × Result Unit :=
  if c.padding = false then
    (c, .error (.protocol "vision: hide_vless_header called after the padding phase ended"))
  else
    match c.onceUuid with
    | none =>
      (c, .error (.protocol "vision: hide_vless_header called after the first frame was sent"))
    | some uuid =>
      ({ c with
          onceUuid := none
          pending := c.pending ++ frame .continue [] (paddingLen 0 true draw) (some uuid) },
        .ok ())

/-! ## Reading -/

/-- What one pass of the loop of `poll_read_inner` comes to. -/
inductive Turn where
  /-- Once more. -/
  | again (c : VisionConn)
  /-- Bytes for the caller. -/
  | gives (c : VisionConn) (out : Bytes)
  | fails (c : VisionConn) (e : IoError)
  /-- The outer stream reads into the buffer of the caller. -/
  | through
  /-- The outer stream has to read into the buffer of the connection. -/
  | wants

def unknownCommand (command : UInt8) : IoError :=
  ⟨.invalidData, s!"vision: server sent unknown command {command.toNat}"⟩

def truncated : IoError := ⟨.unexpectedEof, "vision: truncated padded downlink"⟩

def enterAfterBlock (c : VisionConn) : VisionConn :=
  { c with phase := .afterBlock c.currentCommand }

def turnInit (c : VisionConn) : Turn :=
  if c.inBuf.length < 16 then .wants
  else if c.inBuf.take 16 = c.uuid.val then
    if c.inBuf.length < paddingHeaderLen then .wants
    else .again { c with inBuf := c.inBuf.drop 16, phase := .header }
  else .again { c with phase := .unframed }

/-- A header that was taken off the buffer. -/
def enterFrame (c : VisionConn) (command : FrameCommand) (contentLen paddingLen : Nat) :
    VisionConn :=
  let c :=
    { c with
      directReceived := c.directReceived || command == FrameCommand.direct
      currentCommand := command
      remainingContent := contentLen
      remainingPadding := paddingLen }
  if 0 < contentLen then { c with phase := .content }
  else if 0 < paddingLen then { c with phase := .padding }
  else c.enterAfterBlock

def turnHeader (c : VisionConn) : Turn :=
  if c.inBuf.length < 5 then .wants
  else
    let past := { c with inBuf := c.inBuf.drop 5 }
    let byte := c.inBuf.getD 0 0
    let contentLen := (ofBE16 ((c.inBuf.drop 1).take 2)).toNat
    let paddingLen := (ofBE16 ((c.inBuf.drop 3).take 2)).toNat
    match FrameCommand.fromByte byte with
    | none => .fails past (unknownCommand byte)
    | some command => .again (past.enterFrame command contentLen paddingLen)

def turnContent (c : VisionConn) (cap : Nat) : Turn :=
  if c.inBuf = [] then .wants
  else
    let n := min (min c.inBuf.length c.remainingContent) cap
    if n = 0 then .gives c []
    else
      let chunk := c.inBuf.take n
      let c :=
        { c with
          inBuf := c.inBuf.drop n
          filter := c.filter.observe chunk
          remainingContent := c.remainingContent - n }
      if 0 < c.remainingContent then .gives c chunk
      else if 0 < c.remainingPadding then .gives { c with phase := .padding } chunk
      else .gives c.enterAfterBlock chunk

def turnPadding (c : VisionConn) : Turn :=
  if c.inBuf = [] then .wants
  else
    let n := min c.inBuf.length c.remainingPadding
    let c := { c with inBuf := c.inBuf.drop n, remainingPadding := c.remainingPadding - n }
    if 0 < c.remainingPadding then .again c else .again c.enterAfterBlock

def turnRaw (c : VisionConn) (cap : Nat) : Turn :=
  if c.inBuf = [] then .through
  else
    let chunk := c.inBuf.take cap
    .gives
      { c with
        inBuf := c.inBuf.drop cap
        filter := if c.phase = .rawDirect then c.filter else c.filter.observe chunk }
      chunk

def turn (c : VisionConn) (cap : Nat) : Turn :=
  match c.phase with
  | .init => c.turnInit
  | .header => c.turnHeader
  | .content => c.turnContent cap
  | .padding => c.turnPadding
  | .unframed => c.turnRaw cap
  | .raw => c.turnRaw cap
  | .rawDirect => c.turnRaw cap

/-- The phase wants bytes and there are none left. -/
def turnEof (c : VisionConn) : Turn :=
  match c.phase with
  | .init => if c.inBuf = [] then .gives c [] else .again { c with phase := .unframed }
  | .unframed => .gives c []
  | .raw => .gives c []
  | .rawDirect => .gives c []
  | _ => .fails c truncated

/-- The outer stream reads up to `cap` bytes. What is left of a piece stays, and so does the
    end. -/
def pollOuter (cap : Nat) : List Arrival → List Arrival × Poll Bytes
  | [] => ([], .pending)
  | .pending :: script => (script, .pending)
  | .data bs :: script =>
    if bs = [] then (.data bs :: script, .ready [])
    else (if bs.drop cap = [] then script else .data (bs.drop cap) :: script, .ready (bs.take cap))

structure ReadPoll where
  conn : VisionConn
  script : List Arrival
  res : Poll (IoResult Bytes)

def readThrough (c : VisionConn) (cap : Nat) (script : List Arrival) : ReadPoll :=
  match pollOuter cap script with
  | (script, .pending) => ⟨c, script, .pending⟩
  | (script, .ready bs) => ⟨c, script, .ready (.ok bs)⟩

def pollFill (c : VisionConn) (script : List Arrival) : VisionConn × List Arrival × Poll Unit :=
  match pollOuter xrayChunkSize script with
  | (script, .pending) => (c, script, .pending)
  | (script, .ready bs) =>
    if bs = [] then ({ c with eof := true }, script, .ready ())
    else ({ c with inBuf := c.inBuf ++ bs }, script, .ready ())

/-- The loop of `poll_read_inner`, into a buffer of `cap` bytes. -/
def readFor (cap : Nat) : Nat → List Arrival → VisionConn → ReadPoll
  | 0, script, c => ⟨c, script, .pending⟩
  | n + 1, script, c =>
    match c.turn cap with
    | .again c => readFor cap n script c
    | .gives c out => ⟨c, script, .ready (.ok out)⟩
    | .fails c e => ⟨c, script, .ready (.error e)⟩
    | .through => c.readThrough cap script
    | .wants =>
      if c.eof then
        match c.turnEof with
        | .again c => readFor cap n script c
        | .gives c out => ⟨c, script, .ready (.ok out)⟩
        | .fails c e => ⟨c, script, .ready (.error e)⟩
        | _ => ⟨c, script, .pending⟩
      else
        match c.pollFill script with
        | (c, script, .pending) => ⟨c, script, .pending⟩
        | (c, script, .ready ()) => readFor cap n script c

/-- The bytes and the pauses that a stream has left. -/
def weight (script : List Arrival) : Nat := (arrived script).length + script.length

/-- More than the passes that a read can make. -/
def passes (script : List Arrival) (c : VisionConn) : Nat :=
  3 * weight script + 2 * c.inBuf.length + (if c.eof then 0 else 1) +
    (if c.phase = .init then 1 else 0) + 1

def pollRead (c : VisionConn) (cap : Nat) (script : List Arrival) : ReadPoll :=
  readFor cap (passes script c) script c

end VisionConn

end RustCrash.Vision
