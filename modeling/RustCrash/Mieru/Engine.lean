import Mathlib.Data.List.AList
import RustCrash.Mieru.Blocks

/-
  `PacketEngine`, the session over the packet transport.

  One step is one turn of `run`: something comes from the application or the socket, or a timer
  fires, and then `run_output_once_packet` sends what is due. The clock is read once in a step.
  A datagram that is sent is recorded by the fields of its metadata and its payload.

  The floating-point operations of the timers and the window (`RttStats`, `Cubic`) are left open
  (`Floats`): nothing that is proved of the engine depends on what they give. Durations and
  instants are numbers of nanoseconds.

  `History` is beside the program: what went in and out so far, for the statements.
-/

namespace RustCrash.Mieru

/-! ## The timers and the window -/

def milliseconds (n : Nat) : Nat := n * 1000000
def seconds (n : Nat) : Nat := n * 1000000000

def minWindow : UInt32 := 16
def segmentTreeCapacity : Nat := 4096
def packetAckDelay : Nat := milliseconds 1
def txTimeoutBackoff : Rat := 3 / 2
def maxBackoff : Nat := seconds 10

/-- What the code computes with `f64`; `F` are the readings of the clock in seconds. -/
structure Floats (F : Type) where
  /-- `Duration::mul_f64`. -/
  mulF64 : Nat → Rat → Nat
  /-- The cubic curve over the window before the last reduction, at `now` with the last
      reduction at a given time, as `u32`. -/
  curve : UInt32 → Option F → F → UInt32
  /-- `(f64::from(window) * 0.7) as u32`. -/
  shrink : UInt32 → UInt32

/-- `Duration::saturating_add` and `saturating_mul` stop here: `u64` seconds. -/
def durationMax : Nat := 2 ^ 64 * seconds 1 - 1

structure RttStats where
  hasMeasurement : Bool
  srtt : Nat
  meanDeviation : Nat
  maxAckDelay : Nat
  rtoMultiplier : Rat

namespace RttStats

def new : RttStats := ⟨false, 0, 0, packetAckDelay, txTimeoutBackoff⟩

variable {F : Type} (fl : Floats F)

def rto (r : RttStats) : Nat :=
  if r.srtt = 0 then seconds 2
  else
    let floor := max (min (r.meanDeviation * 4) durationMax) (milliseconds 10)
    fl.mulF64 (r.srtt + floor + r.maxAckDelay) r.rtoMultiplier

def update (r : RttStats) (sample : Nat) : RttStats :=
  if sample = 0 then r
  else if r.hasMeasurement = false then
    { r with hasMeasurement := true, srtt := sample, meanDeviation := sample / 2 }
  else
    let dev := max r.srtt sample - min r.srtt sample
    { r with
      meanDeviation := min (fl.mulF64 r.meanDeviation (3 / 4) + fl.mulF64 dev (1 / 4)) durationMax
      srtt := min (fl.mulF64 r.srtt (7 / 8) + fl.mulF64 sample (1 / 8)) durationMax }

end RttStats

structure Cubic (F : Type) where
  minWindow : UInt32
  maxWindow : UInt32
  slowStart : Bool
  congestionWindow : UInt32
  windowBeforeLastReduction : UInt32
  lastReductionTime : Option F
  accumulatedAcks : UInt32

namespace Cubic

variable {F : Type} (fl : Floats F)

def new : Cubic F := ⟨Mieru.minWindow, 4096, true, Mieru.minWindow, 0, none, 0⟩

def congestionWindowSize (c : Cubic F) : UInt32 := c.congestionWindow

def inRange (c : Cubic F) : Cubic F :=
  { c with congestionWindow := max c.minWindow (min c.congestionWindow c.maxWindow) }

/-- `now_seconds()` is `now`. -/
def onAck (c : Cubic F) (now : F) : Cubic F :=
  if c.slowStart then { c with congestionWindow := c.congestionWindow + 1 }.inRange
  else
    let acks := c.accumulatedAcks + 1
    let w := fl.curve c.windowBeforeLastReduction c.lastReductionTime now
    let sum := UInt32.ofNat (min (w.toNat + (acks / 16).toNat) (2 ^ 32 - 1))
    { c with accumulatedAcks := acks, congestionWindow := sum }.inRange

def onLoss (c : Cubic F) (now : F) : Cubic F :=
  { c with
    slowStart := false, lastReductionTime := some now
    windowBeforeLastReduction := c.congestionWindow, accumulatedAcks := 0
    congestionWindow := fl.shrink c.congestionWindow }.inRange

def onTimeout (c : Cubic F) : Cubic F :=
  { c with
    slowStart := true, congestionWindow := c.minWindow, windowBeforeLastReduction := 0
    lastReductionTime := none, accumulatedAcks := 0 }

end Cubic

/-! ## The session -/

open Lib

def maxPdu : Nat := 32 * 1024
def packetOverhead : Nat := nonceSize + metadataLength + tagSize * 2
def packetNonHeaderPosition : Nat := nonceSize + metadataLength + tagSize
def defaultMtu : Nat := 1400
def maxFragment : Nat := defaultMtu - packetOverhead
def sessionHeartbeat : Nat := seconds 5
def retransmissionCheckDelay : Nat := milliseconds 10
def earlyRetransmission : UInt32 := 3
def earlyRetransmissionLimit : UInt32 := 1
def txCountLimit : UInt32 := 20
def idleSessionTimeout : Nat := seconds 60

/-- `slice::chunks`. -/
def chunksFor (k : Nat) : Nat → Bytes → List Bytes
  | 0, _ => []
  | n + 1, bs => if bs = [] then [] else bs.take k :: chunksFor k n (bs.drop k)

def chunks (k : Nat) (bs : Bytes) : List Bytes := chunksFor k bs.length bs

structure OutSeg where
  seq : UInt32
  protocol : UInt8
  fragment : UInt8
  payload : Bytes
  ackCount : UInt32
  txCount : UInt32
  txTime : Nat
  txTimeout : Nat

/-- What a retransmission does not change. -/
structure Core where
  seq : UInt32
  protocol : UInt8
  fragment : UInt8
  payload : Bytes

def OutSeg.core (seg : OutSeg) : Core := ⟨seg.seq, seg.protocol, seg.fragment, seg.payload⟩

/-- A datagram handed to the socket. A session segment has no `un_ack` and no `window`. -/
structure SentDgram where
  core : Core
  unAck : UInt32
  window : UInt16

structure History where
  /-- The bytes that `session_write` accepted. -/
  accepted : Bytes
  /-- The segments that were queued. -/
  made : List Core
  /-- The highest acknowledgement. -/
  acked : Nat
  /-- A segment reached its transmission limit. -/
  aborted : Bool
  /-- The peer closed the session. -/
  peerClosed : Bool

structure PacketEngine (F : Type) where
  key : ByteVec 32
  /-- What has been written to the application. -/
  app : Bytes
  sessionId : UInt32
  nextSend : UInt32
  nextRecv : UInt32
  sendQueue : List OutSeg
  sendBuf : List OutSeg
  recvBuf : AList fun _ : UInt32 => Bytes
  openSent : Bool
  established : Bool
  closeSent : Bool
  closed : Bool
  appEof : Bool
  remoteWindow : UInt32
  rtt : RttStats
  cubic : Cubic F
  ackPending : Bool
  ackDeadline : Nat
  lastTx : Nat
  lastRx : Nat
  heartbeatJitter : Nat
  nextRetxCheck : Nat
  /-- What has been handed to the socket. -/
  sent : List SentDgram
  /-- `run` has returned. -/
  ended : Bool
  history : History

/-- What a step finds around it. -/
structure Env (F : Type) where
  now : Nat
  /-- `now_seconds()`. -/
  clock : F
  /-- `timestamp_minutes()`. -/
  minutes : UInt32
  /-- The socket takes a datagram with this segment. -/
  accepts : UInt32 → Bool
  acceptsAck : Bool
  /-- `random_heartbeat_jitter()`. -/
  jitter : Nat
  /-- How many bytes the application still takes before it is gone, if it goes. -/
  room : Option Nat

namespace PacketEngine

variable {F : Type} (fl : Floats F)

def new (key : ByteVec 32) (sessionId : UInt32) (e : Env F) : PacketEngine F where
  key := key
  app := []
  sessionId := sessionId
  nextSend := 0
  nextRecv := 0
  sendQueue := []
  sendBuf := []
  recvBuf := ∅
  openSent := false
  established := false
  closeSent := false
  closed := false
  appEof := false
  remoteWindow := minWindow
  rtt := RttStats.new
  cubic := Cubic.new
  ackPending := false
  ackDeadline := e.now
  lastTx := e.now
  lastRx := e.now
  heartbeatJitter := e.jitter
  nextRetxCheck := e.now
  sent := []
  ended := false
  history := ⟨[], [], 0, false, false⟩

def opening (s : PacketEngine F) : Bool := !s.established && !s.closed

def sendWindowSize (s : PacketEngine F) : Nat :=
  min (s.cubic.congestionWindowSize.toNat - s.sendBuf.length % 2 ^ 32) s.remoteWindow.toNat

def receiveWindowSize (s : PacketEngine F) : Nat := segmentTreeCapacity - s.recvBuf.keys.length

def requestAck (s : PacketEngine F) (now : Nat) : PacketEngine F :=
  if s.ackPending then s else { s with ackDeadline := now + packetAckDelay, ackPending := true }

def idleExpired (s : PacketEngine F) (now : Nat) : Bool :=
  !s.closed && decide (s.lastRx + idleSessionTimeout < now)

/-! ## From the application -/

/-- `alloc_seq` and `send_queue.push_back`. -/
def pushSeg (s : PacketEngine F) (now : Nat) (protocol fragment : UInt8) (payload : Bytes) :
    PacketEngine F :=
  let seg : OutSeg := ⟨s.nextSend, protocol, fragment, payload, 0, 0, now, 0⟩
  { s with
    nextSend := s.nextSend + 1, sendQueue := s.sendQueue ++ [seg]
    history := { s.history with made := s.history.made ++ [seg.core] } }

/-- The fragments of a chunk, `n` in all, the fragment index counting down. -/
def pushFragments (s : PacketEngine F) (now n : Nat) : Nat → List Bytes → PacketEngine F
  | _, [] => s
  | idx, part :: parts =>
    (s.pushSeg now dataClientToServer (UInt8.ofNat (n - 1 - idx)) part).pushFragments now n
      (idx + 1) parts

def pushChunks (s : PacketEngine F) (now : Nat) : List Bytes → PacketEngine F
  | [] => s
  | chunk :: rest =>
    let nFragment := max ((chunk.length + maxFragment - 1) / maxFragment) 1
    (s.pushFragments now nFragment 0 (chunks maxFragment chunk)).pushChunks now rest

/-- The history of a write that is accepted. -/
def accepting (s : PacketEngine F) (b : Bytes) : PacketEngine F :=
  { s with history := { s.history with accepted := s.history.accepted ++ b } }

def markOpen (s : PacketEngine F) : PacketEngine F := { s with openSent := true }

def sessionWrite (s : PacketEngine F) (now : Nat) (b : Bytes) : PacketEngine F :=
  if s.closeSent || s.closed then s
  else if s.openSent then (s.accepting b).pushChunks now (chunks maxPdu b)
  else if b.length ≤ maxSessionOpenPayload then
    (s.accepting b).markOpen.pushSeg now openSessionRequest 0 b
  else
    ((s.accepting b).markOpen.pushSeg now openSessionRequest 0 []).pushChunks now
      (chunks maxPdu b)

def queueClose (s : PacketEngine F) (now : Nat) : PacketEngine F :=
  if s.closeSent then s
  else { s with closeSent := true : PacketEngine F }.pushSeg now closeSessionRequest 0 []

/-! ## To the socket -/

def txTimeout (s : PacketEngine F) (txCount : UInt32) : Nat :=
  min (fl.mulF64 (s.rtt.rto fl) (txTimeoutBackoff ^ txCount.toNat)) maxBackoff

/-- The datagram, and whether the socket took it. -/
def sendSeg (s : PacketEngine F) (e : Env F) (seg : OutSeg) : PacketEngine F × Bool :=
  let dgram : SentDgram :=
    if isSessionProtocol seg.protocol then ⟨seg.core, 0, 0⟩
    else ⟨seg.core, s.nextRecv, UInt16.ofNat (min s.receiveWindowSize (2 ^ 16 - 1))⟩
  if e.accepts seg.seq then ({ s with sent := s.sent ++ [dgram], lastTx := e.now }, true)
  else (s, false)

/-- What the retransmission pass finds in the buffer. -/
structure Sweep where
  segs : List OutSeg
  resend : List OutSeg
  hasLoss : Bool
  hasTimeout : Bool
  fatal : Bool
  nextTx : Option Nat

def earliest (t : Nat) : Option Nat → Option Nat
  | none => some t
  | some u => some (min u t)

/-- `early || now.duration_since(seg.tx_time) >= seg.tx_timeout`. -/
def isEarly (seg : OutSeg) : Bool :=
  decide (earlyRetransmission ≤ seg.ackCount) && decide (seg.txCount ≤ earlyRetransmissionLimit)

def sweep (s : PacketEngine F) (now : Nat) : List OutSeg → Option Nat → Sweep
  | [], nextTx => ⟨[], [], false, false, false, nextTx⟩
  | seg :: segs, nextTx =>
    if txCountLimit ≤ seg.txCount then ⟨seg :: segs, [], false, false, true, nextTx⟩
    else if isEarly seg ∨ seg.txTimeout ≤ now - seg.txTime then
      let seg' : OutSeg :=
        { seg with
          ackCount := 0, txCount := seg.txCount + 1, txTime := now
          txTimeout := s.txTimeout fl (seg.txCount + 1) }
      let w := s.sweep now segs (earliest (seg'.txTime + seg'.txTimeout) nextTx)
      { w with
        segs := seg' :: w.segs, resend := seg' :: w.resend, hasLoss := isEarly seg || w.hasLoss
        hasTimeout := !isEarly seg || w.hasTimeout }
    else
      let w := s.sweep now segs (earliest (seg.txTime + seg.txTimeout) nextTx)
      { w with segs := seg :: w.segs }

/-- The count of datagrams sent, and whether the socket took all. -/
def resendAll (s : PacketEngine F) (e : Env F) (total : Nat) :
    List OutSeg → PacketEngine F × Nat × Bool
  | [] => (s, total, true)
  | seg :: segs =>
    match s.sendSeg e seg with
    | (s, false) => (s, total, false)
    | (s, true) => s.resendAll e (total + 1) segs

/-- The retransmission pass. Without a count the session has been given up. -/
def retransmit (s : PacketEngine F) (e : Env F) : PacketEngine F × Option Nat :=
  if s.sendBuf ≠ [] ∧ s.nextRetxCheck ≤ e.now then
    let w := s.sweep fl e.now s.sendBuf none
    let r := { s with sendBuf := w.segs : PacketEngine F }.resendAll e 0 w.resend
    let s := { r.1 with nextRetxCheck := w.nextTx.getD r.1.nextRetxCheck }
    if w.fatal ∨ r.2.2 = false then
      ({ s with
          sendQueue := [], sendBuf := [], closed := true
          history := { s.history with aborted := s.history.aborted || w.fatal } }, none)
    else if w.hasTimeout then ({ s with cubic := s.cubic.onTimeout }, some r.2.1)
    else if w.hasLoss then ({ s with cubic := s.cubic.onLoss fl e.clock }, some r.2.1)
    else (s, some r.2.1)
  else (s, some 0)

/-- The loop stops before `seg`, the head of the queue. -/
def holdsBack (s : PacketEngine F) (seg : OutSeg) (total : Nat) : Bool :=
  decide (s.sendWindowSize = 0) || decide (segmentTreeCapacity ≤ s.sendBuf.length + 1) ||
    (s.opening && seg.protocol == dataClientToServer) || decide (s.sendWindowSize ≤ total)

/-- `seg` as it is sent for the first time. -/
def firstTx (s : PacketEngine F) (e : Env F) (seg : OutSeg) : OutSeg :=
  { seg with txCount := 1, txTime := e.now, txTimeout := s.txTimeout fl 1 }

/-- `seg` leaves the queue, and `rest` stays. -/
def popSeg (s : PacketEngine F) (e : Env F) (seg : OutSeg) (rest : List OutSeg) :
    PacketEngine F :=
  let deadline := seg.txTime + seg.txTimeout
  { s with
    sendQueue := rest
    nextRetxCheck :=
      if s.sendBuf = [] then min deadline (e.now + retransmissionCheckDelay)
      else if deadline < s.nextRetxCheck then deadline
      else s.nextRetxCheck }

/-- `while !send_queue.is_empty() && send_window_size() > 0`; whether the socket took all. -/
def transmit (e : Env F) : Nat → PacketEngine F → Nat → PacketEngine F × Bool
  | 0, s, _ => (s, true)
  | n + 1, s, total =>
    match s.sendQueue with
    | [] => (s, true)
    | seg :: rest =>
      if s.holdsBack seg total then (s, true)
      else
        let seg := s.firstTx fl e seg
        match (s.popSeg e seg rest).sendSeg e seg with
        | (s, false) => ({ s with closed := true }, false)
        | (s, true) => transmit e n { s with sendBuf := s.sendBuf ++ [seg] } (total + 1)

/-- A delayed ACK or a heartbeat. -/
def acknowledge (s : PacketEngine F) (e : Env F) : PacketEngine F :=
  let ackDue := s.ackPending && decide (s.ackDeadline ≤ e.now)
  let heartbeatDue := decide (sessionHeartbeat + s.heartbeatJitter < e.now - s.lastTx)
  if s.opening = false ∧ s.closed = false ∧ (ackDue ∨ heartbeatDue) then
    let s := { s with ackPending := false }
    if e.acceptsAck then
      let seq := if s.nextSend = 0 then 0 else s.nextSend - 1
      let dgram : SentDgram :=
        ⟨⟨seq, ackClientToServer, 0, []⟩, s.nextRecv,
          UInt16.ofNat (min s.receiveWindowSize (2 ^ 16 - 1))⟩
      { s with sent := s.sent ++ [dgram], lastTx := e.now, heartbeatJitter := e.jitter }
    else s
  else s

def runOutputOncePacket (s : PacketEngine F) (e : Env F) : PacketEngine F :=
  match s.retransmit fl e with
  | (s, none) => s
  | (s, some total) =>
    match transmit fl e s.sendQueue.length s total with
    | (s, false) => s
    | (s, true) => s.acknowledge e

/-! ## From the socket -/

def pruneFor (e : Env F) (unAck : UInt32) : List OutSeg → PacketEngine F → PacketEngine F
  | [], s => { s with sendBuf := [] }
  | seg :: segs, s =>
    if seg.seq < unAck then
      pruneFor e unAck segs
        { s with rtt := s.rtt.update fl (e.now - seg.txTime), cubic := s.cubic.onAck fl e.clock }
    else { s with sendBuf := seg :: segs }

def pruneAcked (s : PacketEngine F) (e : Env F) (unAck : UInt32) : PacketEngine F :=
  pruneFor fl e unAck s.sendBuf
    { s with history := { s.history with acked := max s.history.acked unAck.toNat } }

/-- The acknowledgement that data and ACK segments carry. -/
def takeAck (s : PacketEngine F) (e : Env F) (m : InboundMeta) : PacketEngine F :=
  { s.pruneAcked fl e m.unAck with remoteWindow := m.window.toUInt32 }

/-- A duplicate ACK for the segment that the peer waits for. -/
def countAck (unAck : UInt32) : List OutSeg → List OutSeg
  | [] => []
  | seg :: segs =>
    if unAck < seg.seq then seg :: segs
    else (if seg.seq = unAck then { seg with ackCount := seg.ackCount + 1 } else seg) ::
      countAck unAck segs

/-- `app.write_all`: how much room is left, or that the application is gone. -/
def writeAll (s : PacketEngine F) (room : Option Nat) (payload : Bytes) :
    PacketEngine F × Option (Option Nat) :=
  match room with
  | none => ({ s with app := s.app ++ payload }, some none)
  | some k =>
    if payload.length ≤ k then
      ({ s with app := s.app ++ payload }, some (some (k - payload.length)))
    else ({ s with app := s.app ++ payload.take k }, none)

/-- Every round takes an entry out of the map. -/
def deliverFor : Nat → Option Nat → PacketEngine F → PacketEngine F
  | 0, _, s => s
  | n + 1, room, s =>
    match s.recvBuf.lookup s.nextRecv with
    | none => s
    | some payload =>
      let s := { s with recvBuf := s.recvBuf.erase s.nextRecv, nextRecv := s.nextRecv + 1 }
      if payload = [] then deliverFor n room s
      else
        match s.writeAll room payload with
        | (s, none) => { s with closed := true }
        | (s, some room) => deliverFor n room s

def deliverInOrder (s : PacketEngine F) (e : Env F) : PacketEngine F :=
  deliverFor s.recvBuf.keys.length e.room s

/-- The payload of a data segment, when the lengths are right and it opens. -/
def openPayload (s : PacketEngine F) (m : InboundMeta) (nonce : ByteVec 24) (rest : Bytes) :
    Option Bytes :=
  let want := m.payloadLen.toNat + tagSize
  if rest.length = want + m.suffixLen.toNat then
    ChaChaPoly.xdecrypt s.key nonce (rest.take want) []
  else none

/-- The end of the data arm. -/
def takeSegment (s : PacketEngine F) (e : Env F) (m : InboundMeta) (payload : Bytes) :
    PacketEngine F :=
  if s.receiveWindowSize = 0 then s
  else
    let s := { s with recvBuf := s.recvBuf.insert m.seq payload : PacketEngine F }.deliverInOrder e
    let s := s.requestAck e.now
    if m.protocol = openSessionResponse then { s with established := true } else s

def ingestData (s : PacketEngine F) (e : Env F) (m : InboundMeta) (nonce : ByteVec 24)
    (rest : Bytes) : PacketEngine F :=
  match s.openPayload m nonce rest with
  | none => s
  | some payload => s.takeSegment e m payload

def ingest (s : PacketEngine F) (e : Env F) (m : InboundMeta) (nonce : ByteVec 24)
    (rest : Bytes) : PacketEngine F :=
  if m.protocol = openSessionResponse then s.ingestData e m nonce rest
  else if m.protocol = dataServerToClient then
    if rest.length < m.prefixLen.toNat then s
    else
      (s.takeAck fl e m).ingestData e m nonce (rest.drop m.prefixLen.toNat)
  else if m.protocol = ackServerToClient then
    let s := s.takeAck fl e m
    { s with sendBuf := countAck m.unAck s.sendBuf }
  else if m.protocol = closeSessionRequest then
    if rest.length = m.payloadLen.toNat + tagSize + m.suffixLen.toNat then
      let dgram : SentDgram := ⟨⟨s.nextSend, closeSessionResponse, 0, []⟩, 0, 0⟩
      { s with
        nextSend := s.nextSend + 1
        sent := if e.accepts s.nextSend then s.sent ++ [dgram] else s.sent
        closed := true, sendQueue := [], sendBuf := []
        history := { s.history with peerClosed := true } }
    else s
  else if m.protocol = closeSessionResponse then
    { s with
      closed := true, sendQueue := [], sendBuf := []
      history := { s.history with peerClosed := true } }
  else s

theorem nonce_in_datagram {dgram : Bytes} (h : packetNonHeaderPosition ≤ dgram.length) :
    0 + 24 ≤ dgram.length := Nat.le_trans (by decide) h

/-- `StatelessCipher::decrypt` of the metadata. -/
def parseDatagramWith (key : ByteVec 32) (minutes : UInt32) (dgram : Bytes) :
    Option (InboundMeta × ByteVec 24) :=
  if h : packetNonHeaderPosition ≤ dgram.length then
    let nonce := sliceVec dgram 0 24 (nonce_in_datagram h)
    match ChaChaPoly.xdecrypt key nonce (slice dgram nonceSize (metadataLength + tagSize)) [] with
    | none => none
    | some plain =>
      match parseMetadata minutes plain with
      | .error _ => none
      | .ok m => some (m, nonce)
  else none

/-- Metadata that was sealed with the key is read. -/
theorem parseDatagramWith_sealed {key : ByteVec 32} {minutes : UInt32} {nonce : ByteVec 24}
    {plain ct : Bytes} {m : InboundMeta} (hparse : parseMetadata minutes plain = .ok m)
    (hseal : ChaChaPoly.xencrypt key nonce plain [] = some ct) (rest : Bytes) :
    parseDatagramWith key minutes (nonce.val ++ ct ++ rest) = some (m, nonce) := by
  have hplain : plain.length = metadataLength := (parseMetadata_eq_ok.mp hparse).1
  have hct : ct.length = metadataLength + tagSize := by
    rw [StatefulCipher.xencrypt_length hseal, hplain]
  have hfits : packetNonHeaderPosition ≤ (nonce.val ++ ct ++ rest).length := by
    rw [List.length_append, List.length_append, ByteVec.length_val, hct]
    exact Nat.le_add_right _ _
  have hnonce : sliceVec (nonce.val ++ ct ++ rest) 0 24 (nonce_in_datagram hfits) = nonce := by
    apply Subtype.ext
    unfold sliceVec
    dsimp only
    rw [List.append_assoc]
    exact slice_here (ByteVec.length_val nonce)
  have hbody : slice (nonce.val ++ ct ++ rest) nonceSize (metadataLength + tagSize) = ct := by
    rw [List.append_assoc, show nonceSize = 0 + 24 from rfl, slice_skip (ByteVec.length_val nonce)]
    exact slice_here hct
  unfold parseDatagramWith
  rw [dif_pos hfits]
  dsimp only
  rw [hnonce, hbody, ChaChaPoly.xopen_seal hseal]
  dsimp only
  rw [hparse]

/-- `last_rx = Instant::now()`. -/
def heard (s : PacketEngine F) (e : Env F) : PacketEngine F := { s with lastRx := e.now }

def onDatagram (s : PacketEngine F) (e : Env F) (dgram : Bytes) : PacketEngine F :=
  let s := s.heard e
  match parseDatagramWith s.key e.minutes dgram with
  | none => s
  | some (m, nonce) =>
    if m.sessionId = s.sessionId then
      s.ingest fl e m nonce (dgram.drop packetNonHeaderPosition)
    else s

end PacketEngine

/-! ## The loop -/

inductive EngineEvent where
  | app (bytes : Bytes)
  | appEof
  | dgram (bytes : Bytes)
  | demuxed (m : InboundMeta) (nonce : ByteVec 24) (rest : Bytes)
  | sockErr
  | timer

namespace PacketEngine

variable {F : Type} (fl : Floats F)

/-- The end of a turn of the loop. -/
def finishTurn (s : PacketEngine F) (e : Env F) : PacketEngine F :=
  let s := s.runOutputOncePacket fl e
  { s with ended := (s.closed && s.sendBuf.isEmpty) || s.idleExpired e.now }

/-- One turn. The application is not polled after its end. -/
def step (s : PacketEngine F) (a : Env F × EngineEvent) : PacketEngine F :=
  let e := a.1
  if s.ended then s
  else
    match a.2 with
    | .app bytes => if s.appEof then s else (s.sessionWrite e.now bytes).finishTurn fl e
    | .appEof =>
      if s.appEof then s
      else ({ s with appEof := true : PacketEngine F }.queueClose e.now).finishTurn fl e
    | .dgram bytes => (s.onDatagram fl e bytes).finishTurn fl e
    | .demuxed m nonce rest => ((s.heard e).ingest fl e m nonce rest).finishTurn fl e
    | .sockErr => { s with ended := true }
    | .timer => s.finishTurn fl e

end PacketEngine

end RustCrash.Mieru
