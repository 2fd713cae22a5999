import RustCrash.Lib.PollIo
import RustCrash.Proto.Aead

/-
  The record layer of Sudoku, `RecordConn`: a writer that cuts what it is given into records of
  numbered positions, and a reader that checks these positions.

  The cipher of an epoch is a function of the base key and the epoch, so that it is not kept here.
-/

namespace RustCrash.Sudoku

open Lib Proto

def recordHeaderSize : Nat := 12
def maxFrameBodySize : Nat := 65535
def keyUpdateAfterBytes : Nat := 32 * 2 ^ 20
def maxPlain : Nat := maxFrameBodySize - recordHeaderSize - 16

inductive RecordMethod where
  | none
  | aes128Gcm
  | chacha20Poly1305
  deriving DecidableEq

namespace RecordMethod

def label : RecordMethod → String
  | none => "none"
  | aes128Gcm => "aes-128-gcm"
  | chacha20Poly1305 => "chacha20-poly1305"

def kind : RecordMethod → AeadKind
  | aes128Gcm => .aes128Gcm
  | _ => .chacha20Poly1305

end RecordMethod

def ioInvalid (e : Error) : IoError := ⟨.invalidData, e.display⟩

/-- The epoch and the number of a record, which are its nonce too. -/
def recordHeader (epoch : UInt32) (seq : UInt64) : ByteVec 12 :=
  ⟨be32 epoch ++ be64 seq, by rw [List.length_append, length_be32, length_be64]⟩

section

variable (hmacSha256 : Bytes → Bytes → ByteVec 32)

def deriveEpochKey (base : ByteVec 32) (epoch : UInt32) (method : String) : ByteVec 32 :=
  hmacSha256 base.val (utf8 "sudoku-record:".toList ++ utf8 method.toList ++ be32 epoch)

/-- For a method other than `None`. -/
def aeadFor (method : RecordMethod) (base : ByteVec 32) (epoch : UInt32) : Result Aead :=
  let key := deriveEpochKey hmacSha256 base epoch method.label
  match Aead.new method.kind (key.val.take method.kind.keyLen) with
  | .ok aead => .ok aead
  | .error _ => .error (.crypto "sudoku: epoch key derivation")

theorem aeadFor_ok (method : RecordMethod) (base : ByteVec 32) (epoch : UInt32) :
    ∃ aead, aeadFor hmacSha256 method base epoch = .ok aead := by
  have hlen : ((deriveEpochKey hmacSha256 base epoch method.label).val.take
      method.kind.keyLen).length = method.kind.keyLen := by
    rw [List.length_take, ByteVec.length_val]
    apply Nat.min_eq_left
    cases method.kind <;> decide
  unfold aeadFor
  dsimp only
  rw [Aead.new_eq_ok hlen]
  exact ⟨_, rfl⟩

/-! ## Writing -/

/-- A record as it was sealed. -/
structure Record where
  epoch : UInt32
  seq : UInt64
  plain : Bytes
  wire : Bytes

structure RecordWriter where
  method : RecordMethod
  base : ByteVec 32
  epoch : UInt32
  seq : UInt64
  bytes : Nat
  epochUpdates : Nat
  wbuf : Bytes
  pendingPlain : Nat

/-- What the transport says to one write of the writer. -/
inductive Grant where
  | wrote (n : Nat)
  | pending
  | failed (e : IoError)

/-- A call of `poll_write`: the bytes that went to the transport, and the records that were
    sealed. -/
structure WritePoll where
  writer : RecordWriter
  sent : Bytes
  records : List Record
  res : Poll (IoResult Nat)

/-- What is left of the buffer and what the transport has taken. -/
def drain : List Grant → Bytes → Bytes × Bytes × Poll (IoResult Unit)
  | _, [] => ([], [], .ready (.ok ()))
  | [], wbuf => (wbuf, [], .pending)
  | .pending :: _, wbuf => (wbuf, [], .pending)
  | .failed e :: _, wbuf => (wbuf, [], .ready (.error e))
  | .wrote 0 :: _, wbuf =>
    (wbuf, [], .ready (.error ⟨.writeZero, "sudoku: transport accepted zero bytes"⟩))
  | .wrote (n + 1) :: grants, wbuf =>
    let (left, sent, res) := drain grants (wbuf.drop (n + 1))
    (left, wbuf.take (n + 1) ++ sent, res)

/-- The chunks of a buffer. -/
def chunksFor : Nat → Bytes → List Bytes
  | 0, _ => []
  | _, [] => []
  | n + 1, buf => buf.take maxPlain :: chunksFor n (buf.drop maxPlain)

def frameTooLarge : IoError := ⟨.invalidData, "sudoku: frame too large"⟩

namespace RecordWriter

-- What `random_non_zero_u64` draws for each epoch.
variable (draw : Nat → UInt64)

def maybeBumpSendEpoch (w : RecordWriter) (addedPlain : Nat) : RecordWriter :=
  let bytes := w.bytes + addedPlain
  if bytes < keyUpdateAfterBytes * (w.epochUpdates + 1) then { w with bytes }
  else
    { w with
      bytes
      epoch := w.epoch + 1
      epochUpdates := w.epochUpdates + 1
      seq := draw w.epochUpdates }

def sealChunk (w : RecordWriter) (chunk : Bytes) : RecordWriter × IoResult Record :=
  match aeadFor hmacSha256 w.method w.base w.epoch with
  | .error e => (w, .error (ioInvalid e))
  | .ok aead =>
    let header := recordHeader w.epoch w.seq
    let past := { w with seq := w.seq + 1 }
    let bodyLen := recordHeaderSize + chunk.length + 16
    if maxFrameBodySize < bodyLen then (past, .error frameTooLarge)
    else
      match aead.sealed header header.val chunk with
      | .error e => (past, .error (ioInvalid e))
      | .ok ct =>
        (past.maybeBumpSendEpoch draw chunk.length,
          .ok ⟨w.epoch, w.seq, chunk, be16 (UInt16.ofNat bodyLen) ++ header.val ++ ct⟩)

/-- The records of the chunks, as far as there is no error. -/
def sealAll : RecordWriter → List Bytes → RecordWriter × List Record × Option IoError
  | w, [] => (w, [], none)
  | w, chunk :: chunks =>
    match w.sealChunk hmacSha256 draw chunk with
    | (w, .error e) => (w, [], some e)
    | (w, .ok record) =>
      let (w, records, e) := sealAll w chunks
      (w, record :: records, e)

/-- What is staged goes to the transport. -/
def flush (w : RecordWriter) (wbuf : Bytes) (records : List Record) (grants : List Grant) :
    WritePoll :=
  match drain grants wbuf with
  | (left, sent, .pending) => ⟨{ w with wbuf := left }, sent, records, .pending⟩
  | (left, sent, .ready (.error e)) => ⟨{ w with wbuf := left }, sent, records, .ready (.error e)⟩
  | (_, sent, .ready (.ok ())) =>
    ⟨{ w with wbuf := [] }, sent, records, .ready (.ok w.pendingPlain)⟩

def pollWrite (w : RecordWriter) (buf : Bytes) (grants : List Grant) : WritePoll :=
  if buf = [] then ⟨w, [], [], .ready (.ok 0)⟩
  else if w.method = .none then
    match grants with
    | .wrote n :: _ => ⟨w, buf.take n, [], .ready (.ok (min n buf.length))⟩
    | .failed e :: _ => ⟨w, [], [], .ready (.error e)⟩
    | _ => ⟨w, [], [], .pending⟩
  else if w.wbuf = [] then
    let w := { w with pendingPlain := buf.length }
    match w.sealAll hmacSha256 draw (chunksFor buf.length buf) with
    | (w, records, some e) =>
      let kept := if e = frameTooLarge then records.flatMap Record.wire else []
      ⟨{ w with wbuf := kept }, [], [], .ready (.error e)⟩
    | (w, records, none) => w.flush (records.flatMap Record.wire) records grants
  else w.flush w.wbuf [] grants

end RecordWriter

/-! ## Reading -/

structure RecordReader where
  method : RecordMethod
  base : ByteVec 32
  epoch : UInt32
  seq : UInt64
  initialized : Bool
  rbuf : Bytes
  out : Bytes
  eof : Bool

namespace RecordReader

def validateRecvPosition (r : RecordReader) (epoch : UInt32) (seq : UInt64) : Result Unit :=
  if r.initialized = false then .ok ()
  else if epoch < r.epoch then
    .error (.protocol s!"sudoku: replayed epoch: got {epoch.toNat} want >={r.epoch.toNat}")
  else if epoch = r.epoch ∧ seq ≠ r.seq then
    .error (.protocol
      s!"sudoku: out of order: epoch={epoch.toNat} got={seq.toNat} want={r.seq.toNat}")
  else if r.epoch < epoch ∧ 8 < epoch - r.epoch then
    .error (.protocol
      s!"sudoku: epoch jump too large: got {epoch.toNat} want<={(r.epoch + 8).toNat}")
  else .ok ()

/-- Where the reader is behind a record. -/
def past (r : RecordReader) (epoch : UInt32) (seq : UInt64) : RecordReader :=
  { r with epoch, seq := seq + 1, initialized := true }

/-- The first twelve bytes of a body, which has as many. -/
def bodyHeader (body : Bytes) : ByteVec 12 :=
  ⟨(body ++ List.replicate recordHeaderSize 0).take recordHeaderSize, by
    simp only [List.length_take, List.length_append, List.length_replicate, recordHeaderSize]
    omega⟩

/-- The body of a frame, which was taken off the buffer. -/
def openBody (r : RecordReader) (body : Bytes) : RecordReader × Result Bool :=
  let header := bodyHeader body
  let epoch := ofBE32 (header.val.take 4)
  let seq := ofBE64 (header.val.drop 4)
  match r.validateRecvPosition epoch seq with
  | .error e => (r, .error e)
  | .ok () =>
    match aeadFor hmacSha256 r.method r.base epoch with
    | .error e => (r, .error e)
    | .ok aead =>
      match aead.openCt header header.val (body.drop recordHeaderSize) with
      | .error e => (r, .error e)
      | .ok plain => ({ r.past epoch seq with out := r.out ++ plain }, .ok true)

def tryParse (r : RecordReader) : RecordReader × Result Bool :=
  if r.method = .none then
    if r.rbuf = [] then (r, .ok false)
    else ({ r with out := r.out ++ r.rbuf, rbuf := [] }, .ok true)
  else if r.rbuf.length < 2 then (r, .ok false)
  else
    let bodyLen := (ofBE16 (r.rbuf.take 2)).toNat
    if bodyLen < recordHeaderSize then (r, .error (.protocol "sudoku: frame too short"))
    else if maxFrameBodySize < bodyLen then (r, .error (.protocol "sudoku: frame too large"))
    else if r.rbuf.length < 2 + bodyLen then (r, .ok false)
    else
      { r with rbuf := r.rbuf.drop (2 + bodyLen) }.openBody hmacSha256 (slice r.rbuf 2 bodyLen)

/-- Frames, until one of them gives something. -/
def parseFor : Nat → RecordReader → RecordReader × Result Bool
  | 0, r => (r, .ok false)
  | n + 1, r =>
    match r.tryParse hmacSha256 with
    | (r, .error e) => (r, .error e)
    | (r, .ok false) => (r, .ok false)
    | (r, .ok true) => if r.out ≠ [] then (r, .ok true) else parseFor n r

structure ReadPoll where
  reader : RecordReader
  script : List Arrival
  res : Poll (IoResult Bytes)

def give (cap : Nat) (script : List Arrival) (r : RecordReader) : ReadPoll :=
  ⟨{ r with out := r.out.drop cap }, script, .ready (.ok (r.out.take cap))⟩

/-- `poll_read` into a buffer of `cap` bytes: the bytes that were put there. -/
def pollRead (cap : Nat) (script : List Arrival) (r : RecordReader) : ReadPoll :=
  if r.out ≠ [] then r.give cap script
  else if r.eof then ⟨r, script, .ready (.ok [])⟩
  else
    match r.parseFor hmacSha256 (r.rbuf.length + 1) with
    | (r, .error e) => ⟨r, script, .ready (.error (ioInvalid e))⟩
    | (r, .ok true) => r.give cap script
    | (r, .ok false) =>
      match script with
      | [] => ⟨r, [], .pending⟩
      | .pending :: script => ⟨r, script, .pending⟩
      | .data [] :: script => ⟨{ r with eof := true }, script, .ready (.ok [])⟩
      | .data bs :: script => pollRead cap script { r with rbuf := r.rbuf ++ bs }

end RecordReader

end

end RustCrash.Sudoku
