import RustCrash.Lib.FirstMax
import RustCrash.Routing.Matcher
import RustCrash.Wireguard.AntiReplay
import RustCrash.Wireguard.Noise

/-
  Cryptokey routing of the WireGuard endpoint: the peers with their allowed addresses, the
  peer an address is routed to, and the addresses a peer may send from.

  `route_peer` is a scan for the longest prefix over the prefixes of all peers, in order
  (`routePeer_eq`). So an address goes to a peer exactly when that peer's longest prefix beats
  those of all others (`routePeer_iff`). `source_allowed` looks at one peer only.
-/

/-! ## Sessions

An established transport session: `Session` of `proto/wireguard.rs`, and the decisions
about its age. An instant is a number of nanoseconds, and `duration_since` is 0 for an
earlier instant, as the natural subtraction is.

A cipher is determined by its key, so the two halves of a session hold their keys. -/

namespace RustCrash.Wireguard

open Lib

def seconds (n : Nat) : Nat := n * 1000000000

def rekeyAfterMessages : UInt64 := (1 : UInt64) <<< 60

def rekeyAfterTime : Nat := seconds 120

def rejectAfterTime : Nat := seconds 180

/-- Handshake initiation retry interval and rate limit. -/
def rekeyTimeout : Nat := seconds 5

def keepaliveTimeout : Nat := seconds 10

/-- A received cookie is valid for two minutes. -/
def cookieRefreshTime : Nat := seconds 120

def maxHandshakeAttempts : UInt32 := 18

def paddingMultiple : Nat := 16

structure SendHalf where
  cipher : ByteVec 32
  next : UInt64

structure RecvHalf where
  cipher : ByteVec 32
  replay : AntiReplay

structure Session where
  localIndex : UInt32
  peerIndex : UInt32
  created : Nat
  lastTx : Nat
  lastRx : Nat
  send : SendHalf
  recv : RecvHalf

namespace Session

/-- The initiator's session. -/
def fromHandshake (done : HandshakeDone) (now : Nat) : Session :=
  { localIndex := done.localIndex, peerIndex := done.peerIndex,
    created := now, lastTx := now, lastRx := now,
    send := ⟨done.sendKey, 0⟩, recv := ⟨done.recvKey, AntiReplay.new⟩ }

/-- The responder's session: it sends with the initiator's receive key. -/
def fromResponder (localIndex peerIndex : UInt32) (kPeerSend kPeerRecv : ByteVec 32)
    (now : Nat) : Session :=
  { localIndex := localIndex, peerIndex := peerIndex,
    created := now, lastTx := now, lastRx := now,
    send := ⟨kPeerRecv, 0⟩, recv := ⟨kPeerSend, AntiReplay.new⟩ }

variable (c : Crates)

/-- The payload, zero-padded to a multiple of 16. -/
def padded (inner : Bytes) : Bytes :=
  inner ++ List.replicate ((paddingMultiple - inner.length % paddingMultiple) % paddingMultiple) 0

/-- Encrypt one inner IP packet into a full transport datagram. The counter is claimed even
    when the seal then fails. -/
def sealTransport (s : Session) (inner : Bytes) (now : Nat) : Session × Result Bytes :=
  if rejectAfterMessages ≤ s.send.next then
    (s, .error (.protocol "wg: session counter exhausted (reject-after)"))
  else
    let counter := s.send.next
    let s := { s with send := { s.send with next := counter + 1 } }
    match c.encrypt s.send.cipher (aeadNonce counter) (padded inner) [] with
    | some ct =>
      ({ s with lastTx := now }, .ok (le32 4 ++ le32 s.peerIndex ++ le64 counter ++ ct))
    | none => (s, .error (.crypto "wg: transport seal failed"))

/-- Decrypt a transport payload: tag first, then the replay window. -/
def openTransport (s : Session) (counter : UInt64) (data : Bytes) : Session × Result Bytes :=
  match c.decrypt s.recv.cipher (aeadNonce counter) data [] with
  | none => (s, .error (.crypto "wg: transport open failed"))
  | some plain =>
    let (accepted, replay) := s.recv.replay.accept counter
    let s := { s with recv := { s.recv with replay := replay } }
    if accepted then (s, .ok plain)
    else (s, .error (.protocol "wg: replayed or too-old transport counter"))

def sent (s : Session) : UInt64 := s.send.next

end Session

/-- Trim AEAD padding off a decrypted inner packet by the IPv4 total-length field. -/
def trimIpPacket (pkt : Bytes) : Bytes :=
  if 20 ≤ pkt.length ∧ (pkt.headD 0) >>> 4 = 4 then
    let total := ofBE (slice pkt 2 2)
    if 20 ≤ total ∧ total ≤ pkt.length then pkt.take total else pkt
  else pkt

/-- Initiator-side rekey trigger. -/
def shouldRekey (created : Nat) (sent : UInt64) (now : Nat) : Bool :=
  rekeyAfterTime ≤ now - created || rekeyAfterMessages ≤ sent

/-- Keys older than this are dead. -/
def sessionExpired (created now : Nat) : Bool := rejectAfterTime ≤ now - created

/-- Transmit silence after a received packet. -/
def needsKeepalive (lastTx now : Nat) : Bool := keepaliveTimeout ≤ now - lastTx

/-! ## What sealing and opening leave alone -/

namespace Session

variable (c : Crates)

@[simp] theorem sealTransport_localIndex (s : Session) (inner : Bytes) (now : Nat) :
    (s.sealTransport c inner now).1.localIndex = s.localIndex := by
  unfold sealTransport
  split_ifs
  · rfl
  · dsimp only
    split <;> rfl

@[simp] theorem sealTransport_created (s : Session) (inner : Bytes) (now : Nat) :
    (s.sealTransport c inner now).1.created = s.created := by
  unfold sealTransport
  split_ifs
  · rfl
  · dsimp only
    split <;> rfl

@[simp] theorem openTransport_localIndex (s : Session) (counter : UInt64) (data : Bytes) :
    (s.openTransport c counter data).1.localIndex = s.localIndex := by
  unfold openTransport
  split
  · rfl
  · dsimp only
    split_ifs <;> rfl

@[simp] theorem openTransport_created (s : Session) (counter : UInt64) (data : Bytes) :
    (s.openTransport c counter data).1.created = s.created := by
  unfold openTransport
  split
  · rfl
  · dsimp only
    split_ifs <;> rfl

end Session

end RustCrash.Wireguard

/-! ## Cryptokey routing -/

namespace RustCrash.Wireguard

open Lib RulesetBin

/-- Runtime state of one configured peer. -/
structure EpPeer where
  staticPk : ByteVec 32
  psk : ByteVec 32
  allowed : List (IpAddr × Nat)
  persistentKeepalive : Option Nat
  /-- The strictly-greatest TAI64N accepted from this peer. -/
  lastTimestamp : Option (ByteVec 12)
  /-- Roaming endpoint, updated by every authenticated packet. -/
  endpoint : Option SocketAddr
  session : Option Session
  nextPersistent : Option Nat

/-- Does `ip` fall inside `net / plen`? Family must match. -/
def prefixContains (net : IpAddr) (plen : Nat) (ip : IpAddr) : Bool :=
  match net, ip with
  | .v4 n, .v4 i =>
    if 32 < plen then false else n &&& prefixMask 32 plen == i &&& prefixMask 32 plen
  | .v6 n, .v6 i =>
    if 128 < plen then false else n &&& prefixMask 128 plen == i &&& prefixMask 128 plen
  | _, _ => false

/-- The body of the inner loop of `route_peer`. -/
def routeStep (ip : IpAddr) (i : Nat) (best : Option (Nat × Nat)) (entry : IpAddr × Nat) :
    Option (Nat × Nat) :=
  if prefixContains entry.1 entry.2 ip then
    let better := best.all fun b => b.2 < entry.2
    if better then some (i, entry.2) else best
  else best

/-- The peer whose allowed addresses contain `ip` with the longest prefix. -/
def routePeer (peers : List EpPeer) (ip : IpAddr) : Option (Nat × Nat) :=
  peers.zipIdx.foldl (fun best p => p.1.allowed.foldl (routeStep ip p.2) best) none

/-- Is `ip` an allowed *source* for `peer`? -/
def sourceAllowed (peer : EpPeer) (ip : IpAddr) : Bool :=
  peer.allowed.any fun entry => prefixContains entry.1 entry.2 ip

/-- Bytes `from..from + 16` of an IPv6 packet as an address. -/
def v6Addr (pkt : Bytes) (start : Nat) : Ipv6Addr := Net.ofOctets6 (slice pkt start 16)

/-- The destination address of an IP packet, either family. -/
def dstIpOf (pkt : Bytes) : Option IpAddr := do
  let first ← pkt.head?
  if first >>> 4 = 4 ∧ 20 ≤ pkt.length then some (.v4 (Net.ofOctets4 (slice pkt 16 4)))
  else if first >>> 4 = 6 ∧ 40 ≤ pkt.length then some (.v6 (v6Addr pkt 24))
  else none

/-- The source address of an IP packet, either family. -/
def srcIpOf (pkt : Bytes) : Option IpAddr := do
  let first ← pkt.head?
  if first >>> 4 = 4 ∧ 20 ≤ pkt.length then some (.v4 (Net.ofOctets4 (slice pkt 12 4)))
  else if first >>> 4 = 6 ∧ 40 ≤ pkt.length then some (.v6 (v6Addr pkt 8))
  else none

/-! ## The scan -/

/-- The prefixes that contain `ip`, each with its peer, in the order of the scan. -/
def covering (peers : List EpPeer) (ip : IpAddr) : List (Nat × Nat) :=
  peers.zipIdx.flatMap fun p =>
    (p.1.allowed.filter fun entry => prefixContains entry.1 entry.2 ip).map fun entry =>
      (p.2, entry.2)

theorem foldl_routeStep (ip : IpAddr) (i : Nat) (allowed : List (IpAddr × Nat))
    (best : Option (Nat × Nat)) :
    allowed.foldl (routeStep ip i) best =
      ((allowed.filter fun entry => prefixContains entry.1 entry.2 ip).map fun entry =>
        (i, entry.2)).foldl (FirstMax.keep Prod.snd) best := by
  induction allowed generalizing best with
  | nil => rfl
  | cons entry allowed ih =>
    rw [List.foldl_cons, ih, List.filter_cons]
    unfold routeStep
    split_ifs with hc <;> rfl

theorem routePeer_eq (peers : List EpPeer) (ip : IpAddr) :
    routePeer peers ip = FirstMax.firstMax Prod.snd (covering peers ip) := by
  unfold routePeer FirstMax.firstMax covering
  rw [List.foldl_flatMap]
  congr 1
  funext best p
  exact foldl_routeStep ip p.2 p.1.allowed best

theorem mem_covering {peers : List EpPeer} {ip : IpAddr} {q plen : Nat} :
    (q, plen) ∈ covering peers ip ↔ ∃ peer net, peers[q]? = some peer ∧
      (net, plen) ∈ peer.allowed ∧ prefixContains net plen ip = true := by
  unfold covering
  simp only [List.mem_flatMap, List.mem_map, List.mem_filter, Prod.exists, Prod.mk.injEq,
    List.mk_mem_zipIdx_iff_getElem?]
  constructor
  · intro ⟨peer, i, hpeer, net, len, ⟨hmem, hin⟩, hi, hlen⟩
    rw [← hi, ← hlen]
    exact ⟨peer, net, hpeer, hmem, hin⟩
  · intro ⟨peer, net, hpeer, hmem, hin⟩
    exact ⟨peer, q, hpeer, net, plen, ⟨hmem, hin⟩, rfl, rfl⟩

/-- The scan takes the peers in order. -/
theorem covering_sorted (peers : List EpPeer) (ip : IpAddr) :
    (covering peers ip).Pairwise fun x y => x.1 ≤ y.1 := by
  unfold covering
  rw [List.pairwise_flatMap]
  constructor
  · intro p _
    rw [List.pairwise_map]
    exact List.pairwise_of_forall (fun _ _ => le_refl _)
  · have hidx : peers.zipIdx.Pairwise fun p q => p.2 < q.2 := by
      rw [← List.pairwise_map (f := Prod.snd), List.zipIdx_map_snd]
      exact List.pairwise_lt_range'
    refine hidx.imp fun hlt x hx y hy => ?_
    obtain ⟨_, _, rfl⟩ := List.mem_map.mp hx
    obtain ⟨_, _, rfl⟩ := List.mem_map.mp hy
    exact hlt.le

/-! ## Who an address belongs to -/

/-- Another peer has a prefix that contains `ip` and is longer than all of `p`'s that do, or
    as long as the longest and of an earlier peer. -/
def Shadowed (peers : List EpPeer) (p : Nat) (ip : IpAddr) : Prop :=
  ∃ q plen, q ≠ p ∧ (q, plen) ∈ covering peers ip ∧
    ∀ len, (p, len) ∈ covering peers ip → len < plen ∨ len = plen ∧ q < p

/-- For a peer that may send from `ip`: packets to `ip` go to it exactly when no other peer
    shadows it there. -/
theorem routePeer_iff {peers : List EpPeer} {p : Nat} {ip : IpAddr} {peer : EpPeer}
    (hp : peers[p]? = some peer) (hallowed : sourceAllowed peer ip = true) :
    (routePeer peers ip).map Prod.fst = some p ↔ ¬ Shadowed peers p ip := by
  obtain ⟨⟨net, len⟩, hmem, hin⟩ := List.any_eq_true.mp hallowed
  have hown : (p, len) ∈ covering peers ip := mem_covering.mpr ⟨peer, net, hp, hmem, hin⟩
  obtain ⟨⟨a, best⟩, hbest⟩ : ∃ a, FirstMax.firstMax Prod.snd (covering peers ip) = some a :=
    FirstMax.firstMax_isSome (List.ne_nil_of_mem hown)
  have hbeats := fun {x : Nat × Nat} (hx : x ∈ covering peers ip) =>
    FirstMax.firstMax_beats (covering_sorted peers ip) hbest hx
  have hwin := FirstMax.firstMax_mem hbest
  rw [routePeer_eq, hbest, Option.map_some, Option.some.injEq]
  constructor
  · intro hap ⟨q, plen, hqp, hq, hall⟩
    dsimp only at hap
    subst hap
    rcases hbeats hq hqp with hlt | ⟨heq, hlt⟩
    · rcases hall best hwin with h | h
      · exact absurd hlt (by dsimp only; omega)
      · dsimp only at hlt
        omega
    · dsimp only at heq hlt
      rcases hall best hwin with h | h <;> omega
  · intro hno
    by_contra hne
    refine hno ⟨a, best, hne, hwin, fun l hl => ?_⟩
    rcases hbeats hl (fun h => hne h.symm) with hlt | ⟨heq, hlt⟩
    · exact Or.inl hlt
    · exact Or.inr ⟨heq, hlt⟩

end RustCrash.Wireguard
