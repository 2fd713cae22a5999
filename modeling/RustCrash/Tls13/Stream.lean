import RustCrash.Lib.PollIo
import RustCrash.Tls13.Record

/-
  `proto/reality/tls13.rs`: a TLS 1.3 connection, `Tls13Stream`.

  The reading half is what the transport has brought and what was decrypted. The writing half is
  two buffers of sealed bytes: `out` is the record of a `poll_write`, and `ctl` holds the records
  that no caller asked for, the replies to KeyUpdate and close_notify.

  In a call the transport answers each question with the next item of a script: of arrivals when it
  is read, of grants when it is written.
-/

namespace RustCrash.Tls13

open Lib Proto

structure ReadHalf (suite : CipherSuite) where
  readKey : RecordProtector
  readSecret : Secret suite
  plain : Bytes
  /-- `rec`. -/
  recBuf : Bytes
  peerCcs : Nat
  keyUpdates : Nat
  eof : Bool
  readSpliced : Bool
  splicePrefix : Bytes

structure WriteHalf (suite : CipherSuite) where
  writeKey : RecordProtector
  writeSecret : Secret suite
  out : Bytes
  outPlain : Nat
  ctl : Bytes
  closeNotifySent : Bool
  writeSpliced : Bool

structure Tls13Stream (suite : CipherSuite) extends ReadHalf suite, WriteHalf suite

def ioFrom (err : Error) : IoError := ⟨.invalidData, err.display⟩

def writeZero : IoError := ⟨.writeZero, "tls13: transport accepted zero bytes"⟩

section

variable (K : Hkdf) {suite : CipherSuite}

/-! ## The writing half -/

namespace WriteHalf

def start (writeSecret : Secret suite) : WriteHalf suite where
  writeKey := .new K writeSecret
  writeSecret := writeSecret
  out := []
  outPlain := 0
  ctl := []
  closeNotifySent := false
  writeSpliced := false

/-- The reply is sealed under the key that ends with it. -/
def queueKeyUpdateReply (w : WriteHalf suite) : WriteHalf suite × Result Unit :=
  match w.writeKey.sealRecord recordHandshake (hsMessage hsKeyUpdate [0]) with
  | (key, .error e) => ({ w with writeKey := key }, .error e)
  | (_, .ok record) =>
    let secret := nextTrafficSecret K w.writeSecret
    ({ w with
      ctl := w.ctl ++ record
      writeSecret := secret
      writeKey := .new K secret }, .ok ())

/-- A call of the writer: what the transport took, and the result. -/
structure Call (suite : CipherSuite) (A : Type) where
  half : WriteHalf suite
  sent : Bytes
  grants : List Grant
  res : Poll (IoResult A)

def pollFlushCtl (w : WriteHalf suite) (grants : List Grant) : Call suite Unit :=
  let f := writeOut writeZero grants w.ctl
  ⟨{ w with ctl := f.left }, f.sent, f.grants, f.res⟩

/-- A writer of the transport itself. -/
def pollWriteRaw (w : WriteHalf suite) (buf : Bytes) : List Grant → Call suite Nat
  | [] => ⟨w, [], [], .pending⟩
  | .pending :: grants => ⟨w, [], grants, .pending⟩
  | .ready (.error e) :: grants => ⟨w, [], grants, .ready (.error e)⟩
  | .ready (.ok n) :: grants => ⟨w, buf.take n, grants, .ready (.ok (min n buf.length))⟩

/-- `poll_write` behind the sealing: `out` goes to the transport. -/
def drainOut (w : WriteHalf suite) (grants : List Grant) : Call suite Nat :=
  let f := writeOut writeZero grants w.out
  let w := { w with out := f.left }
  match f.res with
  | .pending => ⟨w, f.sent, f.grants, .pending⟩
  | .ready (.error e) => ⟨w, f.sent, f.grants, .ready (.error e)⟩
  | .ready (.ok ()) => ⟨{ w with outPlain := 0 }, f.sent, f.grants, .ready (.ok w.outPlain)⟩

def pollWrite (w : WriteHalf suite) (buf : Bytes) (grants : List Grant) : Call suite Nat :=
  if buf = [] then ⟨w, [], grants, .ready (.ok 0)⟩
  else if w.writeSpliced then
    let c := w.drainOut grants
    match c.res with
    | .pending => c
    | .ready (.error e) => { c with res := .ready (.error e) }
    | .ready (.ok _) =>
      let c' := c.half.pollWriteRaw buf c.grants
      { c' with sent := c.sent ++ c'.sent }
  else if w.out ≠ [] then w.drainOut grants
  else
    let take := min buf.length maxPlaintext
    match w.writeKey.sealRecord recordApp (buf.take take) with
    | (key, .error e) => ⟨{ w with writeKey := key }, [], grants, .ready (.error (ioFrom e))⟩
    | (key, .ok record) =>
      drainOut
        { w with
          writeKey := key
          out := record
          outPlain := take } grants

/-- `outer` is what the transport says when it is flushed itself. -/
def pollFlush (w : WriteHalf suite) (grants : List Grant) (outer : Poll (IoResult Unit)) :
    Call suite Unit :=
  let c := w.pollFlushCtl grants
  { c with res := if c.res = .ready (.ok ()) then outer else c.res }

/-- close_notify is put behind what is queued. -/
def queueCloseNotify (w : WriteHalf suite) : WriteHalf suite :=
  match w.writeKey.sealRecord recordAlert [1, 0] with
  | (key, .error _) =>
    { w with
      closeNotifySent := true
      writeKey := key }
  | (key, .ok record) =>
    { w with
      closeNotifySent := true
      writeKey := key
      ctl := w.ctl ++ record }

/-- `outer` is what the transport says when it is shut down itself. -/
def pollShutdown (w : WriteHalf suite) (readSpliced : Bool) (grants : List Grant)
    (outer : Poll (IoResult Unit)) : Call suite Unit :=
  let w :=
    if w.closeNotifySent = false ∧ readSpliced = false ∧ w.writeSpliced = false then
      w.queueCloseNotify
    else w
  let c := w.pollFlushCtl grants
  { c with res := if c.res = .ready (.ok ()) then outer else c.res }

/-- `out` is through. -/
theorem drainOut_ready {w : WriteHalf suite} {grants : List Grant}
    (h : (writeOut writeZero grants w.out).res = .ready (.ok ())) :
    w.drainOut grants = ⟨{ w with
      out := []
      outPlain := 0 }, w.out, (writeOut writeZero grants w.out).grants,
      .ready (.ok w.outPlain)⟩ := by
  unfold drainOut
  dsimp only
  rw [h, left_writeOut h, sent_writeOut (left_writeOut h)]

theorem drainOut_pending {w : WriteHalf suite} {grants : List Grant}
    (h : (writeOut writeZero grants w.out).res = .pending) :
    w.drainOut grants = ⟨{ w with out := (writeOut writeZero grants w.out).left },
      (writeOut writeZero grants w.out).sent, (writeOut writeZero grants w.out).grants,
      .pending⟩ := by
  unfold drainOut
  dsimp only
  rw [h]

end WriteHalf

/-! ## Reading -/

namespace ReadHalf

def start (readSecret : Secret suite) (peerCcs : Nat) : ReadHalf suite where
  readKey := .new K readSecret
  readSecret := readSecret
  plain := []
  recBuf := []
  peerCcs := peerCcs
  keyUpdates := 0
  eof := false
  readSpliced := false
  splicePrefix := []

def updateReadKey (r : ReadHalf suite) : ReadHalf suite :=
  let secret := nextTrafficSecret K r.readSecret
  { r with
    readSecret := secret
    readKey := .new K secret }

end ReadHalf

namespace Tls13Stream

/-- Post-handshake messages that lie whole in one record; every message takes bytes, so there are
    no more of them than bytes. -/
def handleHandshake : (rounds : Nat) → Tls13Stream suite → Bytes → Tls13Stream suite × Result Unit
  | 0, s, _ => (s, .ok ())
  | rounds + 1, s, data =>
    match takeHandshake data with
    | none => (s, .ok ())
    | some (typ, raw, data) =>
      if typ = hsNewSessionTicket then handleHandshake rounds s data
      else if typ = hsKeyUpdate then
        let request := raw.getD 4 0
        if maxKeyUpdates ≤ s.keyUpdates then
          (s, .error (.protocol "tls13: peer sent too many KeyUpdate messages"))
        else
          let r := { s.toReadHalf with keyUpdates := s.keyUpdates + 1 }
          let s := { s with toReadHalf := r.updateReadKey K }
          if request = 1 then
            match s.toWriteHalf.queueKeyUpdateReply K with
            | (w, .error e) => ({ s with toWriteHalf := w }, .error e)
            | (w, .ok ()) => handleHandshake rounds { s with toWriteHalf := w } data
          else handleHandshake rounds s data
      else (s, .error (.protocol s!"tls13: unexpected post-handshake message {typ.toNat}"))

/-- What is done with the content of a record that opened. -/
def handleInner (s : Tls13Stream suite) (innerType : UInt8) (data : Bytes) :
    Tls13Stream suite × Result Unit :=
  if innerType = recordApp then
    ({ s with plain := s.plain ++ data }, .ok ())
  else if innerType = recordHandshake then handleHandshake K data.length s data
  else if innerType = recordAlert then
    if data[0]? = some 0 ∨ data[1]? = some 0 then
      ({ s with eof := true }, .ok ())
    else (s, .error (alertError (List.replicate 4 0 ++ data)))
  else (s, .error (.protocol s!"tls13: unexpected inner content type {innerType.toNat}"))

def handleRecord (s : Tls13Stream suite) (record : Bytes) : Tls13Stream suite × Result Unit :=
  let type := record.headD 0
  if type = recordCcs then
    let s := { s with peerCcs := s.peerCcs + 1 }
    if 4 < s.peerCcs then
      (s, .error (.protocol "tls13: too many ChangeCipherSpec records"))
    else (s, .ok ())
  else if type = recordAlert then (s, .error (alertError record))
  else if type = recordApp then
    match s.readKey.openRecord record with
    | (key, .error e) => ({ s with readKey := key }, .error e)
    | (key, .ok (innerType, data)) => handleInner K { s with readKey := key } innerType data
  else (s, .error (.protocol s!"tls13: unexpected record type {type.toNat}"))

def tooLarge : IoError := ⟨.invalidData, "tls13: record too large"⟩

/-- Read until the buffer begins with a whole record; false is the end of the transport. -/
def pollRecord : List Arrival → Bytes → List Arrival × Bytes × Poll (IoResult Bool)
  | script, buf =>
    if 5 ≤ buf.length ∧ maxCiphertext < recordLen buf then
      (script, buf, .ready (.error tooLarge))
    else if Whole buf then (script, buf, .ready (.ok true))
    else
      match script with
      | [] => ([], buf, .pending)
      | .pending :: script => (script, buf, .pending)
      | .data bs :: script =>
        if bs = [] then (script, buf, .ready (.ok false)) else pollRecord script (buf ++ bs)

/-- A call of the reader: what the transport took, what it has yet to say, and the result. -/
structure ReadCall (suite : CipherSuite) where
  stream : Tls13Stream suite
  sent : Bytes
  script : List Arrival
  res : Poll (IoResult Bytes)

/-- A reader of the transport itself; what does not fit comes next. -/
def pollReadRaw (s : Tls13Stream suite) (cap : Nat) : List Arrival → ReadCall suite
  | [] => ⟨s, [], [], .pending⟩
  | .pending :: script => ⟨s, [], script, .pending⟩
  | .data bs :: script =>
    if bs.length ≤ cap then ⟨s, [], script, .ready (.ok bs)⟩
    else ⟨s, [], .data (bs.drop cap) :: script, .ready (.ok (bs.take cap))⟩

/-- The loop of `poll_read`; every round but the last takes a record off the buffer. -/
def readLoop (cap : Nat) : (rounds : Nat) → Tls13Stream suite → List Arrival → List Grant →
    ReadCall suite
  | 0, s, script, _ => ⟨s, [], script, .pending⟩
  | rounds + 1, s, script, grants =>
    if s.readSpliced then
      if s.splicePrefix ≠ [] then
        ⟨{ s with splicePrefix := s.splicePrefix.drop cap }, [], script,
          .ready (.ok (s.splicePrefix.take cap))⟩
      else s.pollReadRaw cap script
    else if s.plain ≠ [] then
      ⟨{ s with plain := s.plain.drop cap }, [], script, .ready (.ok (s.plain.take cap))⟩
    else if s.eof then ⟨s, [], script, .ready (.ok [])⟩
    else
      let f := s.toWriteHalf.pollFlushCtl grants
      let s := { s with toWriteHalf := f.half }
      match pollRecord script s.recBuf with
      | (script, buf, .pending) => ⟨{ s with recBuf := buf }, f.sent, script, .pending⟩
      | (script, buf, .ready (.error e)) =>
        ⟨{ s with recBuf := buf }, f.sent, script, .ready (.error e)⟩
      | (script, buf, .ready (.ok false)) =>
        ⟨{ s with
          recBuf := buf
          eof := true }, f.sent, script, .ready (.ok [])⟩
      | (script, buf, .ready (.ok true)) =>
        let len := 5 + recordLen buf
        match handleRecord K { s with recBuf := buf.drop len } (buf.take len) with
        | (s, .error e) => ⟨s, f.sent, script, .ready (.error (ioFrom e))⟩
        | (s, .ok ()) =>
          let c := readLoop cap rounds s script f.grants
          { c with sent := f.sent ++ c.sent }

/-- The rounds of a call: no more records than bytes, and one round to return. -/
def rounds (s : Tls13Stream suite) (script : List Arrival) : Nat :=
  (s.recBuf ++ arrived script).length + 1

def pollRead (s : Tls13Stream suite) (cap : Nat) (script : List Arrival) (grants : List Grant) :
    ReadCall suite := readLoop K cap (s.rounds script) s script grants

def start (readSecret writeSecret : Secret suite) (peerCcs : Nat) : Tls13Stream suite :=
  ⟨.start K readSecret peerCcs, .start K writeSecret⟩

end Tls13Stream

end

end RustCrash.Tls13
