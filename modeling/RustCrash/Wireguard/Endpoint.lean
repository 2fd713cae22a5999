import RustCrash.Lib.Maps
import RustCrash.Wireguard.Stack

/-
  The WireGuard endpoint (server): `Endpoint` of `proto/wireguard.rs`, from its configuration
  to the handling of datagrams, timer ticks and outgoing packets.

  A handler reads the clock once here; in the source the seal of a message reads it again,
  which only shows in `lastTx`. What is drawn at random comes with the event: the indexes tried
  for a session, the ephemeral secret, the cookie secret and the nonce of a cookie reply.
-/

namespace RustCrash.Wireguard

open Lib

/-! ## Configuration -/

structure WgEndpointPeer where
  publicKey : Str
  preSharedKey : Option Str
  allowedIps : List (IpAddr × Nat)
  persistentKeepalive : Option Nat

/-- The fields `Endpoint::new` reads. -/
structure WgEndpointCfg where
  privateKey : Str
  peers : List WgEndpointPeer

section

variable (c : Crates)

/-- Decode a base64 WireGuard key (standard or unpadded) into 32 bytes. -/
def b64key (s : Str) (what : String) : Result (ByteVec 32) := do
  let trimmed := Str.trim s
  let decoded ← okOr ((c.base64Standard trimmed).or (c.base64NoPad trimmed))
    (.config s!"wg: {what} is not valid base64")
  okOr (ByteVec.ofBytes? 32 decoded) (.config s!"wg: {what} must decode to exactly 32 bytes")

/-- The check of the prefix lengths of peer `i`. -/
def checkPrefixes (i : Nat) : List (IpAddr × Nat) → Result Unit
  | [] => .ok ()
  | (net, plen) :: rest => do
    ensure (plen ≤ Routing.maxPrefixLen net) (.config
      s!"wg endpoint: peers[{i}] allowed-ip {txt (Net.ipText net)}/{plen} is not a valid prefix")
    checkPrefixes i rest

def peerPsk : Option Str → Result (ByteVec 32)
  | none | some [] => .ok (ByteVec.zero 32)
  | some s => b64key c s "peers[].pre-shared-key"

/-- The loop over the configured peers, from peer `i` on. -/
def buildPeers : Nat → List (ByteVec 32) → List WgEndpointPeer → Result (List EpPeer)
  | _, _, [] => .ok []
  | i, seen, p :: ps => do
    let pk ← b64key c p.publicKey "peers[].public-key"
    ensure (pk ∉ seen) (.config s!"wg endpoint: peers[{i}] repeats a public key")
    let psk ← peerPsk c p.preSharedKey
    checkPrefixes i p.allowedIps
    ensure (p.allowedIps ≠ []) (.config
      s!"wg endpoint: peers[{i}] has no allowed_ips (its packets could not be routed back)")
    let peer : EpPeer :=
      { staticPk := pk, psk := psk, allowed := p.allowedIps,
        persistentKeepalive := (p.persistentKeepalive.filter fun s => 0 < s).map seconds,
        lastTimestamp := none, endpoint := none, session := none, nextPersistent := none }
    let rest ← buildPeers (i + 1) (pk :: seen) ps
    .ok (peer :: rest)

/-! ## State -/

def epCookieRefresh : Nat := seconds 120

def epCookieLoad : Nat := 64

/-- One-second initiation counter. -/
structure HandshakeLoad where
  windowStart : Option Nat
  count : Nat

namespace HandshakeLoad

def bump (l : HandshakeLoad) (now : Nat) : HandshakeLoad :=
  match l.windowStart with
  | some t => if now - t < seconds 1 then { l with count := l.count + 1 } else ⟨some now, 1⟩
  | none => ⟨some now, 1⟩

def underLoad (l : HandshakeLoad) : Bool := epCookieLoad < l.count

end HandshakeLoad

structure Endpoint where
  statics : StaticKeys
  peers : List EpPeer
  /-- Transport receiver-index -> peer. -/
  byIndex : AList fun _ : UInt32 => Nat
  cookie : ByteVec 16 × Nat
  load : HandshakeLoad

/-- The random draws of one event. -/
structure EpDraw where
  indices : List UInt32
  ephemeral : ByteVec 32
  cookieSecret : ByteVec 16
  cookieNonce : ByteVec 24

/-- The cookie for an initiator endpoint. -/
def makeCookie (secret : ByteVec 16) (source : SocketAddr) : ByteVec 16 :=
  blake2sMac secret.val (utf8 source.text)

namespace Endpoint

def new (cfg : WgEndpointCfg) (secret : ByteVec 16) (now : Nat) : Result Endpoint := do
  let sk ← b64key c cfg.privateKey "private-key"
  let statics := StaticKeys.fromSecret c sk
  ensure (cfg.peers ≠ [])
    (.config "wg endpoint: at least one peer is required (who may connect?)")
  let peers ← buildPeers c 0 [] cfg.peers
  .ok ⟨statics, peers, ∅, (secret, now), ⟨none, 0⟩⟩

def peerByPk (s : Endpoint) (pk : ByteVec 32) : Option Nat :=
  s.peers.findIdx? fun p => p.staticPk = pk

/-- The loop of `fresh_index` over its draws; `none` while it has found none. -/
def freshIndex (s : Endpoint) (draws : List UInt32) : Option UInt32 :=
  draws.find? fun idx => (s.byIndex.lookup idx).isNone && idx != 0

def cookieFor (s : Endpoint) (now : Nat) (secret : ByteVec 16) : Endpoint :=
  if epCookieRefresh ≤ now - s.cookie.2 then { s with cookie := (secret, now) } else s

/-- `peers[pi]` changed in place. -/
def modifyPeer (s : Endpoint) (pi : Nat) (f : EpPeer → EpPeer) : Endpoint :=
  { s with peers := s.peers.modify pi f }

/-- `a <= b` on `[u8; 12]`: the order of the bytes, which for equal lengths is the order of
    the big-endian values. -/
def timestampLe (a b : ByteVec 12) : Bool := ofBE a.val ≤ ofBE b.val

/-! ## Inbound datagrams -/

/-- An initiation that was let in: the peer it is from, its new index, and the reply. -/
structure Admitted where
  peer : Nat
  timestamp : ByteVec 12
  index : UInt32
  resp : Bytes
  keys : ServerKeys

/-- The checks an initiation passes, in order: it opens, the peer is known, the timestamp is
    strictly newer, and the response can be built. -/
def acceptInitiation (s : Endpoint) (msg : WgMsg) (draws : EpDraw) : Option Admitted := do
  let o ← (openInitiation c s.statics msg).toOption
  let pi ← s.peerByPk o.clientStatic
  let peer ← s.peers[pi]?
  guard !(peer.lastTimestamp.any fun t => timestampLe o.timestamp t)
  let index ← s.freshIndex draws.indices
  let (resp, keys) ← (respondInitiation c o peer.psk index draws.ephemeral).toOption
  some ⟨pi, o.timestamp, index, resp, keys⟩

/-- The index of a peer's session. -/
def sessionIndex (s : Endpoint) (p : Nat) : Option UInt32 :=
  (s.peers[p]?.bind EpPeer.session).map Session.localIndex

/-- The old receiver index of a peer leaves the map, and the new one enters it. -/
def reindex (s : Endpoint) (p : Nat) (index : UInt32) : Endpoint :=
  { s with byIndex := (eraseKey s.byIndex (s.sessionIndex p)).insert index p }

/-- Replace the peer's session; the old receiver index dies with it. -/
def install (s : Endpoint) (a : Admitted) (source : SocketAddr) (now : Nat) : Endpoint :=
  (s.reindex a.peer a.index).modifyPeer a.peer fun peer => { peer with
    lastTimestamp := some a.timestamp
    session := some (.fromResponder a.index a.keys.peerIndex a.keys.clientSend a.keys.clientRecv
      now)
    endpoint := some source
    nextPersistent := peer.persistentKeepalive.map (now + ·) }

def onInitiation (s : Endpoint) (source : SocketAddr) (sender : UInt32) (mac1 : ByteVec 16)
    (msg : WgMsg) (now : Nat) (draws : EpDraw) : Endpoint × List Effect :=
  let s := { s with load := s.load.bump now }
  if s.load.underLoad then
    let s := s.cookieFor now draws.cookieSecret
    let cookie := makeCookie s.cookie.1 source
    match buildCookieReply c s.statics.pk sender mac1 cookie draws.cookieNonce with
    | .ok reply => (s, [.send source reply])
    | .error _ => (s, [])
  else
    match s.acceptInitiation c msg draws with
    | some a => (s.install a source now, [.send source a.resp])
    | none => (s, [])

def onTransport (s : Endpoint) (source : SocketAddr) (receiver : UInt32) (counter : UInt64)
    (data : Bytes) (now : Nat) : Endpoint × List Effect :=
  match s.byIndex.lookup receiver with
  | none => (s, [])
  | some pi =>
    match s.peers[pi]?.bind EpPeer.session with
    | none => (s, [])
    | some sess =>
      if sess.localIndex ≠ receiver then (s, [])
      else if sessionExpired sess.created now then
        ({ s with byIndex := s.byIndex.erase receiver }.modifyPeer pi fun peer =>
          { peer with session := none }, [])
      else
        let (sess, opened) := sess.openTransport c counter data
        match opened with
        | .error _ => (s.modifyPeer pi fun peer => { peer with session := some sess }, [])
        | .ok inner =>
          let s := s.modifyPeer pi fun peer =>
            { peer with session := some { sess with lastRx := now }, endpoint := some source }
          if inner = [] then (s, [])
          else
            let inner := trimIpPacket inner
            let srcOk := (srcIpOf inner).any fun src =>
              s.peers[pi]?.any fun peer => sourceAllowed peer src
            if srcOk then (s, [.stage inner]) else (s, [])

/-- One datagram from the network. -/
def onDatagram (s : Endpoint) (source : SocketAddr) (raw : Bytes) (now : Nat) (draws : EpDraw) :
    Endpoint × List Effect :=
  match parseWgMsg (stripReserved raw) with
  | some (.initiation sender ephemeral encStatic encTimestamp mac1 mac2) =>
    s.onInitiation c source sender mac1
      (.initiation sender ephemeral encStatic encTimestamp mac1 mac2) now draws
  | some (.transport receiver counter data) => s.onTransport c source receiver counter data now
  | _ => (s, [])

/-! ## Timer and egress -/

/-- Seal a packet to a peer and send it to its current endpoint. -/
def sealTo (s : Endpoint) (pi : Nat) (pkt : Bytes) (now : Nat) : Endpoint × List Effect :=
  match s.peers[pi]?, s.peers[pi]?.bind EpPeer.session with
  | some peer, some sess =>
    let (sess, sealed) := sess.sealTransport c pkt now
    let s := s.modifyPeer pi fun peer => { peer with session := some sess }
    match peer.endpoint, sealed with
    | some dst, .ok msg => (s, [.send dst msg])
    | _, _ => (s, [])
  | _, _ => (s, [])

/-- An empty message when the session was quiet or the configured interval is over. -/
def keepalive (s : Endpoint) (peer : EpPeer) (pi now : Nat) (wantKeepalive : Bool) :
    Endpoint × List Effect :=
  let duePersistent := peer.nextPersistent.any fun due => due ≤ now
  if wantKeepalive || duePersistent then
    let (s, sent) := s.sealTo c pi [] now
    if duePersistent then
      match peer.persistentKeepalive with
      | some iv =>
        (s.modifyPeer pi fun peer => { peer with nextPersistent := some (now + iv) }, sent)
      | none => (s, sent)
    else (s, sent)
  else (s, [])

/-- The body of the loop over the peers. -/
def timerPeer (s : Endpoint) (pi : Nat) (now : Nat) : Endpoint × List Effect :=
  match s.peers[pi]? with
  | none => (s, [])
  | some peer =>
    match peer.session with
    | some sess =>
      if sessionExpired sess.created now then
        ({ s with byIndex := s.byIndex.erase sess.localIndex }.modifyPeer pi fun peer =>
          { peer with session := none }, [])
      else s.keepalive c peer pi now (needsKeepalive sess.lastTx now)
    | none => s.keepalive c peer pi now false

/-- The loop over the peers. -/
def timerPeers (s : Endpoint) (now : Nat) : List Nat → Endpoint × List Effect
  | [] => (s, [])
  | pi :: rest =>
    let (s, sent) := s.timerPeer c pi now
    let (s, more) := s.timerPeers now rest
    (s, sent ++ more)

def onTimer (s : Endpoint) (now : Nat) : Endpoint × List Effect :=
  s.timerPeers c now (List.range s.peers.length)

/-- Encrypt one egress packet to the owning peer (cryptokey routing). -/
def sendInner (s : Endpoint) (pkt : Bytes) (now : Nat) : Endpoint × List Effect :=
  match dstIpOf pkt with
  | none => (s, [])
  | some dst =>
    match routePeer s.peers dst with
    | none => (s, [])
    | some (pi, _) => s.sealTo c pi pkt now

end Endpoint

/-! ## Runs -/

inductive EpEvent where
  | recv (source : SocketAddr) (raw : Bytes) (now : Nat) (draws : EpDraw)
  | timer (now : Nat)
  | egress (pkt : Bytes) (now : Nat)

namespace Endpoint

def handle (s : Endpoint) : EpEvent → Endpoint × List Effect
  | .recv source raw now draws => s.onDatagram c source raw now draws
  | .timer now => s.onTimer c now
  | .egress pkt now => s.sendInner c pkt now

def step (s : Endpoint) (e : EpEvent) : Endpoint := (s.handle c e).1

end Endpoint

end

end RustCrash.Wireguard
