import RustCrash.Lib.Machine
import RustCrash.Wireguard.Handshake

/-
  The WireGuard client's tunnel task: the handshake side of `Stack` in `proto/wireguard.rs`.

  One task owns the state, so a run is a list of events, each handled to its end: a command,
  a datagram, a timer tick, or the packets the netstack wants sent. A handler reads the clock
  more than once; the readings only grow (`Clock`), and an event brings the time that passed
  before each of them. What is drawn at random comes with the event too.

  The smoltcp interface with its sockets and the stream queues are not part of this state: the
  handlers modelled here never read them, and what the interface emits is an event.
-/

namespace RustCrash.Wireguard

open Lib

/-! ## State -/

def preSessionQueueMax : Nat := 512

def maxUdpSockets : Nat := 64

structure Stack where
  statics : StaticKeys
  peerPk : ByteVec 32
  psk : ByteVec 32
  reserved : ByteVec 3
  udpEnabled : Bool
  endpoint : SocketAddr
  /-- Outgoing handshake awaiting a response. -/
  pendingHs : Option InitiationPending
  hsRetryAt : Option Nat
  lastInitiation : Option Nat
  cookie : Option (ByteVec 16 × Nat)
  session : Option Session
  localIndex : UInt32
  /-- The ids of the open UDP sockets. -/
  udp : List UInt32
  nextUdpId : UInt32
  preSessionTx : List Bytes

/-- What a handler does besides changing the state. -/
inductive Effect where
  /-- A datagram to an address. -/
  | send (dst : SocketAddr) (msg : Bytes)
  /-- A decrypted packet handed to the netstack. -/
  | stage (pkt : Bytes)
  deriving DecidableEq

/-- Three readings of the clock, in the order the handler takes them. -/
structure Clock where
  t0 : Nat
  t1 : Nat
  t2 : Nat
  h01 : t0 ≤ t1
  h12 : t1 ≤ t2

/-- The commands of the public API. -/
inductive Cmd where
  | connect
  | udpOpen
  | udpSend (id : UInt32)
  | udpClose (id : UInt32)

namespace Stack

def new (statics : StaticKeys) (peerPk psk : ByteVec 32) (reserved : ByteVec 3)
    (udpEnabled : Bool) (endpoint : SocketAddr) (localIndex : UInt32) : Stack where
  statics := statics
  peerPk := peerPk
  psk := psk
  reserved := reserved
  udpEnabled := udpEnabled
  endpoint := endpoint
  pendingHs := none
  hsRetryAt := none
  lastInitiation := none
  cookie := none
  session := none
  localIndex := localIndex
  udp := []
  nextUdpId := 1
  preSessionTx := []

/-! ## Handshake -/

/-- Raw datagram out with the reserved-byte rewrite. -/
def sendRaw (s : Stack) (msg : Bytes) : Effect := .send s.endpoint (applyReserved msg s.reserved)

/-- Within REKEY_TIMEOUT of the last initiation. -/
def rateLimited (s : Stack) (now : Nat) : Bool :=
  s.lastInitiation.any fun last => now - last < rekeyTimeout

/-- The pending handshake used up its attempts. -/
def gaveUp (s : Stack) : Bool := s.pendingHs.any fun p => maxHandshakeAttempts ≤ p.attempts

section

variable (c : Crates)

/-- Start (or restart) a handshake, honouring the rate limit unless forced. -/
def initiate (s : Stack) (force : Bool) (now : Nat) (d : Draw) : Stack × List Effect :=
  if !force && s.rateLimited now then (s, [])
  else if s.gaveUp then (s, [])
  else
    let s := { s with
      pendingHs := s.pendingHs.map fun p => { p with attempts := p.attempts + 1 }
      lastInitiation := some now }
    let cookie := (s.cookie.filter fun ck => now - ck.2 < cookieRefreshTime).map Prod.fst
    match buildInitiation c s.statics s.peerPk cookie s.localIndex d with
    | .ok (msg, pending) =>
      let attempts := (s.pendingHs.map InitiationPending.attempts).getD pending.attempts
      ({ s with
          pendingHs := some { pending with attempts := attempts }
          hsRetryAt := some (now + rekeyTimeout) },
        [s.sendRaw msg])
    | .error _ => (s, [])

/-- Encrypt and send one inner IP packet if a live session exists; otherwise queue it. -/
def sendInner (s : Stack) (pkt : Bytes) (now : Nat) : Stack × List Effect :=
  match s.session with
  | some sess =>
    let (sess, sealed) := sess.sealTransport c pkt now
    let s := { s with session := some sess }
    match sealed with
    | .ok msg => (s, [s.sendRaw msg])
    | .error _ => (s, [])
  | none =>
    if s.preSessionTx.length < preSessionQueueMax then
      ({ s with preSessionTx := s.preSessionTx ++ [pkt] }, [])
    else (s, [])

/-- `send_inner` for each packet. -/
def sendAll (s : Stack) : List Bytes → Nat → Stack × List Effect
  | [], _ => (s, [])
  | pkt :: pkts, now =>
    let (s, sent) := s.sendInner c pkt now
    let (s, rest) := s.sendAll pkts now
    (s, sent ++ rest)

/-- An empty transport message, if a session can seal one. -/
def sendEmpty (s : Stack) (now : Nat) : Stack × List Effect :=
  match s.session with
  | some sess =>
    let (sess, sealed) := sess.sealTransport c [] now
    let s := { s with session := some sess }
    match sealed with
    | .ok msg => (s, [s.sendRaw msg])
    | .error _ => (s, [])
  | none => (s, [])

/-- The session is there; `localIndex` is drawn for the next handshake. What was queued goes
    out, and the key confirmation after it. -/
def onHandshakeDone (s : Stack) (done : HandshakeDone) (t : Clock) (localIndex : UInt32) :
    Stack × List Effect :=
  let queued := s.preSessionTx
  let s := { s with
    session := some (.fromHandshake done t.t0)
    pendingHs := none
    hsRetryAt := none
    localIndex := localIndex
    preSessionTx := [] }
  let (s, flushed) := s.sendAll c queued t.t1
  let (s, confirm) := s.sendEmpty c t.t2
  (s, flushed ++ confirm)

/-! ## Inbound datagram -/

/-- The arms of `on_datagram`. -/
def onTransport (s : Stack) (receiver : UInt32) (counter : UInt64) (data : Bytes)
    (now : Nat) : Stack × List Effect :=
  match s.session with
  | none => (s, [])
  | some sess =>
    if sess.localIndex ≠ receiver then (s, [])
    else
      let (sess, opened) := sess.openTransport c counter data
      match opened with
      | .ok inner =>
        let s := { s with session := some { sess with lastRx := now } }
        if inner = [] then (s, []) else (s, [.stage (trimIpPacket inner)])
      | .error _ => ({ s with session := some sess }, [])

def onResponse (s : Stack) (msg : WgMsg) (t : Clock) (localIndex : UInt32) :
    Stack × List Effect :=
  match s.pendingHs with
  | none => (s, [])
  | some pending =>
    let s := { s with pendingHs := none }
    match consumeResponse c s.statics pending msg s.psk with
    | .ok (done, _) => s.onHandshakeDone c done t localIndex
    | .error _ => (s, [])

def onCookie (s : Stack) (msg : WgMsg) (t : Clock) (d : Draw) : Stack × List Effect :=
  match s.pendingHs with
  | none => (s, [])
  | some pending =>
    match consumeCookieReply c s.peerPk pending msg with
    | .ok cookie => { s with cookie := some (cookie, t.t0) }.initiate c true t.t1 d
    | .error _ => (s, [])

def onDatagram (s : Stack) (raw : Bytes) (t : Clock) (d : Draw) (localIndex : UInt32) :
    Stack × List Effect :=
  match parseWgMsg (stripReserved raw) with
  | none => (s, [])
  | some (.transport receiver counter data) => s.onTransport c receiver counter data t.t0
  | some (.response sender receiver ephemeral encNothing mac1 mac2) =>
    s.onResponse c (.response sender receiver ephemeral encNothing mac1 mac2) t localIndex
  | some (.cookie receiver nonce encCookie) => s.onCookie c (.cookie receiver nonce encCookie) t d
  | some (.initiation ..) => (s, [])

/-! ## Commands and timers -/

/-- A session that is too old is dropped. -/
def dropExpired (s : Stack) (now : Nat) : Stack :=
  let expired := s.session.any fun sess => sessionExpired sess.created now
  if expired then { s with session := none } else s

/-- Make sure a handshake is in flight whenever there is traffic to send and no live
    session. -/
def ensureSession (s : Stack) (t : Clock) (d : Draw) : Stack × List Effect :=
  let s := s.dropExpired t.t0
  if s.session.isNone && s.pendingHs.isNone then s.initiate c false t.t1 d else (s, [])

def onCmd (s : Stack) (cmd : Cmd) (t : Clock) (d : Draw) : Stack × List Effect :=
  match cmd with
  | .connect => s.ensureSession c t d
  | .udpOpen =>
    if !s.udpEnabled then (s, [])
    else if maxUdpSockets ≤ s.udp.length then (s, [])
    else
      let (s, sent) := s.ensureSession c t d
      ({ s with udp := s.udp ++ [s.nextUdpId], nextUdpId := s.nextUdpId + 1 }, sent)
  | .udpSend id => if id ∈ s.udp then s.ensureSession c t d else (s, [])
  | .udpClose id => ({ s with udp := s.udp.erase id }, [])

/-- What the age of the session calls for. -/
def sessionTimer (s : Stack) (t : Clock) (d : Draw) : Stack × List Effect :=
  match s.session with
  | none => (s, [])
  | some sess =>
    if sessionExpired sess.created t.t0 then ({ s with session := none }, [])
    else if shouldRekey sess.created sess.sent t.t0 then s.initiate c false t.t1 d
    else if needsKeepalive sess.lastTx t.t0 then s.sendEmpty c t.t1
    else (s, [])

/-- The retry that is due. -/
def retryTimer (s : Stack) (t : Clock) (d : Draw) : Stack × List Effect :=
  match s.hsRetryAt with
  | none => (s, [])
  | some retryAt =>
    if retryAt ≤ t.t0 then { s with hsRetryAt := none }.initiate c false t.t2 d else (s, [])

/-- One tick; `d` and `d'` are for a rekey and for the retry. -/
def onTimer (s : Stack) (t : Clock) (d d' : Draw) : Stack × List Effect :=
  let (s, sent) := s.sessionTimer c t d
  let (s, retried) := s.retryTimer c t d'
  (s, sent ++ retried)

end

end Stack

/-! ## Runs -/

/-- The time that passes before each of three readings. -/
structure Elapsed where
  d0 : Nat
  d1 : Nat
  d2 : Nat

def Elapsed.clock (e : Elapsed) (now : Nat) : Clock where
  t0 := now + e.d0
  t1 := now + e.d0 + e.d1
  t2 := now + e.d0 + e.d1 + e.d2
  h01 := Nat.le_add_right _ _
  h12 := Nat.le_add_right _ _

inductive Event where
  | cmd (cmd : Cmd) (e : Elapsed) (d : Draw)
  | recv (source : SocketAddr) (raw : Bytes) (e : Elapsed) (d : Draw) (localIndex : UInt32)
  | timer (e : Elapsed) (d d' : Draw)
  /-- What the netstack emits in one pass. -/
  | egress (pkts : List Bytes) (e : Elapsed)

def Event.elapsed : Event → Elapsed
  | .cmd _ e _ => e
  | .recv _ _ e _ _ => e
  | .timer e _ _ => e
  | .egress _ e => e

/-- The task between two events, and the last reading of its clock. -/
structure Tunnel where
  stack : Stack
  now : Nat

namespace Tunnel

variable (c : Crates)

/-- The readings of the next event. -/
def clock (x : Tunnel) (e : Event) : Clock := e.elapsed.clock x.now

/-- One turn of `run_stack`. -/
def handle (x : Tunnel) (e : Event) : Stack × List Effect :=
  match e with
  | .cmd cmd _ d => x.stack.onCmd c cmd (x.clock e) d
  | .recv source raw _ d localIndex =>
    if source = x.stack.endpoint then x.stack.onDatagram c raw (x.clock e) d localIndex
    else (x.stack, [])
  | .timer _ d d' => x.stack.onTimer c (x.clock e) d d'
  | .egress pkts _ => x.stack.sendAll c pkts (x.clock e).t0

def step (x : Tunnel) (e : Event) : Tunnel := ⟨(x.handle c e).1, (x.clock e).t2⟩

end Tunnel

end RustCrash.Wireguard

/-! ## What the handlers do

What the handlers of the WireGuard client do to its handshake state.

Sending packets and opening transport messages leave all of it alone (`Quiet`). An
initiation is either held back, by the rate limit or by the attempts used up, or it arms
the retry five seconds later (`initiate_built`). -/

namespace RustCrash.Wireguard

open Lib

/-- The handshake state is the same; the session may have moved its counters. -/
structure Quiet (s s' : Stack) : Prop where
  statics : s'.statics = s.statics
  peerPk : s'.peerPk = s.peerPk
  psk : s'.psk = s.psk
  pendingHs : s'.pendingHs = s.pendingHs
  hsRetryAt : s'.hsRetryAt = s.hsRetryAt
  lastInitiation : s'.lastInitiation = s.lastInitiation
  session : s'.session.map Session.created = s.session.map Session.created

namespace Quiet

theorem refl (s : Stack) : Quiet s s := ⟨rfl, rfl, rfl, rfl, rfl, rfl, rfl⟩

theorem trans {s t u : Stack} (h : Quiet s t) (h' : Quiet t u) : Quiet s u :=
  ⟨h'.statics.trans h.statics, h'.peerPk.trans h.peerPk, h'.psk.trans h.psk,
    h'.pendingHs.trans h.pendingHs, h'.hsRetryAt.trans h.hsRetryAt,
    h'.lastInitiation.trans h.lastInitiation, h'.session.trans h.session⟩

theorem setSession {s : Stack} {sess sess' : Session} (hs : s.session = some sess)
    (hc : sess'.created = sess.created) : Quiet s { s with session := some sess' } := by
  refine ⟨rfl, rfl, rfl, rfl, rfl, rfl, ?_⟩
  rw [hs, Option.map_some, Option.map_some, hc]

end Quiet

section

variable (c : Crates)

theorem quiet_sendInner (s : Stack) (pkt : Bytes) (now : Nat) :
    Quiet s (s.sendInner c pkt now).1 := by
  unfold Stack.sendInner
  cases hs : s.session with
  | none =>
    dsimp only
    split_ifs
    · exact ⟨rfl, rfl, rfl, rfl, rfl, rfl, by rw [hs]⟩
    · exact Quiet.refl s
  | some sess =>
    dsimp only
    split <;> exact Quiet.setSession hs (sess.sealTransport_created c pkt now)

theorem quiet_sendAll (s : Stack) (pkts : List Bytes) (now : Nat) :
    Quiet s (s.sendAll c pkts now).1 := by
  induction pkts generalizing s with
  | nil => exact Quiet.refl s
  | cons pkt pkts ih => exact (quiet_sendInner c s pkt now).trans (ih _)

theorem quiet_sendEmpty (s : Stack) (now : Nat) : Quiet s (s.sendEmpty c now).1 := by
  unfold Stack.sendEmpty
  cases hs : s.session with
  | none => exact Quiet.refl s
  | some sess =>
    dsimp only
    split <;> exact Quiet.setSession hs (sess.sealTransport_created c [] now)

theorem quiet_onTransport (s : Stack) (receiver : UInt32) (counter : UInt64) (data : Bytes)
    (now : Nat) : Quiet s (s.onTransport c receiver counter data now).1 := by
  unfold Stack.onTransport
  cases hs : s.session with
  | none => exact Quiet.refl s
  | some sess =>
    dsimp only
    have hcreated := sess.openTransport_created c counter data
    split_ifs
    · exact Quiet.refl s
    · split
      · split_ifs <;> exact Quiet.setSession hs hcreated
      · exact Quiet.setSession hs hcreated

/-- After the handshake the session is new and nothing of the handshake is left. -/
theorem onHandshakeDone_spec (s : Stack) (done : HandshakeDone) (t : Clock)
    (localIndex : UInt32) :
    let s' := (s.onHandshakeDone c done t localIndex).1
    s'.pendingHs = none ∧ s'.hsRetryAt = none ∧ s'.lastInitiation = s.lastInitiation ∧
      s'.session.map Session.created = some t.t0 := by
  let fresh : Stack := { s with
    session := some (.fromHandshake done t.t0)
    pendingHs := none
    hsRetryAt := none
    localIndex := localIndex
    preSessionTx := [] }
  have hq := (quiet_sendAll c fresh s.preSessionTx t.t1).trans (quiet_sendEmpty c _ t.t2)
  exact ⟨hq.pendingHs, hq.hsRetryAt, hq.lastInitiation, hq.session⟩

/-! ## Initiations -/

/-- Neither Diffie-Hellman of the next initiation gives the zero secret. -/
def Buildable (s : Stack) (d : Draw) : Prop :=
  c.mulClamped s.peerPk d.ephemeral ≠ ByteVec.zero 32 ∧
    c.mulClamped s.peerPk s.statics.sk ≠ ByteVec.zero 32

variable {c}

theorem Buildable.of_quiet {s s' : Stack} {d : Draw} (hq : Quiet s s') (h : Buildable c s d) :
    Buildable c s' d := by
  unfold Buildable at h ⊢
  rw [hq.peerPk, hq.statics]
  exact h

/-- An initiation that nothing holds back is sent, and the retry is armed. -/
theorem initiate_built (hc : c.Lawful) {s : Stack} {force : Bool} {now : Nat} {d : Draw}
    (hd : Buildable c s d) (hlimit : (!force && s.rateLimited now) = false)
    (hgave : s.gaveUp = false) :
    ∃ msg pending,
      buildInitiation c s.statics s.peerPk
        ((s.cookie.filter fun ck => now - ck.2 < cookieRefreshTime).map Prod.fst) s.localIndex d =
          .ok (msg, pending) ∧
      s.initiate c force now d =
        ({ s with
            lastInitiation := some now
            pendingHs := some { pending with
              attempts := (s.pendingHs.map fun p => p.attempts + 1).getD 1 }
            hsRetryAt := some (now + rekeyTimeout) },
          [s.sendRaw msg]) := by
  obtain ⟨msg, pending, hbuild, hone⟩ := build_ok hc s.statics s.peerPk
    ((s.cookie.filter fun ck => now - ck.2 < cookieRefreshTime).map Prod.fst) s.localIndex d
    hd.1 hd.2
  refine ⟨msg, pending, hbuild, ?_⟩
  unfold Stack.initiate
  rw [if_neg (by rw [hlimit]; decide), if_neg (by rw [hgave]; decide)]
  dsimp only
  rw [hbuild]
  dsimp only
  rw [Option.map_map, hone]
  rfl

/-- What an initiation does, held back or not. -/
theorem initiate_cases (hc : c.Lawful) {s : Stack} (force : Bool) (now : Nat) {d : Draw}
    (hd : Buildable c s d) :
    (s.initiate c force now d = (s, []) ∧
      ((!force && s.rateLimited now) = true ∨ s.gaveUp = true)) ∨
    ∃ pending sent, s.initiate c force now d =
      ({ s with
          lastInitiation := some now
          pendingHs := some pending
          hsRetryAt := some (now + rekeyTimeout) }, sent) := by
  cases hlimit : (!force && s.rateLimited now) with
  | true =>
    refine Or.inl ⟨?_, Or.inl rfl⟩
    unfold Stack.initiate
    rw [if_pos hlimit]
  | false =>
    cases hgave : s.gaveUp with
    | true =>
      refine Or.inl ⟨?_, Or.inr rfl⟩
      unfold Stack.initiate
      rw [if_neg (by rw [hlimit]; decide), if_pos hgave]
    | false =>
      obtain ⟨msg, pending, -, heq⟩ := initiate_built hc hd hlimit hgave
      exact Or.inr ⟨_, _, heq⟩

end

/-! ## A client with one of four keys -/

/-- A client before its first command. -/
def sampleStack : Stack :=
  Stack.new (.fromSecret sampleCrates (sampleSecret 1))
    (StaticKeys.fromSecret sampleCrates (sampleSecret 2)).pk (ByteVec.zero 32) (ByteVec.zero 3)
    true (.v4 0x0A000001 51820) 7

def sampleClock : Clock := ⟨0, 0, 0, le_refl 0, le_refl 0⟩

def sampleDraw : Draw := ⟨sampleSecret 3, 1700000000, 5⟩

theorem sample_buildable : Buildable sampleCrates sampleStack sampleDraw :=
  ⟨by decide +kernel, by decide +kernel⟩

end RustCrash.Wireguard
