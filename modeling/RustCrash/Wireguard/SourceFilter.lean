import RustCrash.Wireguard.EndpointRun

/-
  The source filter of the endpoint against its routing.

  A packet that the endpoint stages came over the session of some peer, from an address of that
  peer (`staged`). Nothing ever changes the allowed addresses, so replies to the source go to
  that peer in every later state exactly if no other peer shadows it there. The
  filter does not ask for that.
-/

namespace RustCrash.Wireguard

open Lib RulesetBin

namespace Endpoint

section

variable {c : Crates} {s : Endpoint}

/-! ## Who stages -/

theorem sealTo_sends (s : Endpoint) (pi : Nat) (pkt inner : Bytes) (now : Nat) :
    Effect.stage inner ∉ (s.sealTo c pi pkt now).2 := by
  unfold sealTo
  split
  · dsimp only
    split <;> simp
  · simp

theorem keepalive_sends (s : Endpoint) (peer : EpPeer) (pi now : Nat) (want : Bool)
    (inner : Bytes) : Effect.stage inner ∉ (s.keepalive c peer pi now want).2 := by
  have hseal := sealTo_sends (c := c) s pi [] inner now
  unfold keepalive
  dsimp only
  split_ifs
  · split <;> exact hseal
  · exact hseal
  · simp

theorem timerPeer_sends (s : Endpoint) (pi now : Nat) (inner : Bytes) :
    Effect.stage inner ∉ (s.timerPeer c pi now).2 := by
  unfold timerPeer
  cases s.peers[pi]? with
  | none => simp
  | some peer =>
    dsimp only
    cases peer.session with
    | none => exact keepalive_sends s peer pi now false inner
    | some sess =>
      dsimp only
      split_ifs
      · simp
      · exact keepalive_sends s peer pi now _ inner

theorem timerPeers_sends (s : Endpoint) (now : Nat) (ps : List Nat) (inner : Bytes) :
    Effect.stage inner ∉ (s.timerPeers c now ps).2 := by
  induction ps generalizing s with
  | nil => simp [timerPeers]
  | cons pi ps ih =>
    intro hmem
    rcases List.mem_append.mp hmem with h | h
    · exact timerPeer_sends s pi now inner h
    · exact ih _ h

theorem sendInner_sends (s : Endpoint) (pkt inner : Bytes) (now : Nat) :
    Effect.stage inner ∉ (s.sendInner c pkt now).2 := by
  unfold sendInner
  split
  · simp
  · split
    · simp
    · exact sealTo_sends s _ pkt inner now

theorem onInitiation_sends (s : Endpoint) (source : SocketAddr) (sender : UInt32)
    (mac1 : ByteVec 16) (msg : WgMsg) (now : Nat) (draws : EpDraw) (inner : Bytes) :
    Effect.stage inner ∉ (s.onInitiation c source sender mac1 msg now draws).2 := by
  unfold onInitiation
  dsimp only
  split_ifs <;> split <;> simp

/-- A packet that is staged was the content of a transport message, and its source is among
    the addresses of the peer the message is from. -/
theorem staged {e : EpEvent} {pkt : Bytes} (h : Effect.stage pkt ∈ (s.handle c e).2) :
    ∃ source raw now draws receiver counter data p peer src,
      e = .recv source raw now draws ∧
      parseWgMsg (stripReserved raw) = some (.transport receiver counter data) ∧
      s.byIndex.lookup receiver = some p ∧ s.peers[p]? = some peer ∧
      srcIpOf pkt = some src ∧ sourceAllowed peer src = true := by
  cases e with
  | timer now => exact absurd h (timerPeers_sends s now _ pkt)
  | egress out now => exact absurd h (sendInner_sends s out pkt now)
  | recv source raw now draws =>
    unfold handle at h
    dsimp only at h
    unfold onDatagram at h
    split at h
    · exact absurd h (onInitiation_sends s source _ _ _ now draws pkt)
    · next receiver counter data hparse =>
      rcases onTransport_cases s source receiver counter data now with
        ⟨hnone, -, -⟩ | ⟨p, peer, sess, inner, t, hopened, -, -, hstage⟩
      · rw [hnone] at h
        cases h
      · obtain ⟨src, hsrc, hallowed⟩ := hstage pkt h
        exact ⟨source, raw, now, draws, receiver, counter, data, p, peer, src, rfl, hparse,
          hopened.index, hopened.known, hsrc, hallowed⟩
    · cases h

/-! ## What the filter lets in -/

theorem acceptInitiation_first (hc : c.Lawful) {i r ephemeral : ByteVec 32} {d : Draw} {index : UInt32}
    {p : Nat} {peer : EpPeer} (hstatics : s.statics = .fromSecret c r)
    (hpk : s.peerByPk (c.mulBaseClamped i) = some p) (hp : s.peers[p]? = some peer)
    (hlast : peer.lastTimestamp = none) (hfree : s.byIndex.lookup index = none)
    (hindex : index ≠ 0)
    (hes : c.mulClamped (c.mulBaseClamped r) d.ephemeral ≠ ByteVec.zero 32)
    (hss : c.mulClamped (c.mulBaseClamped r) i ≠ ByteVec.zero 32)
    (hee : c.mulClamped (c.mulBaseClamped ephemeral) d.ephemeral ≠ ByteVec.zero 32)
    (hse : c.mulClamped (c.mulBaseClamped ephemeral) i ≠ ByteVec.zero 32) :
    ∃ msg w timestamp resp keys, stripReserved msg = msg ∧ parseWgMsg msg = some w ∧
      s.acceptInitiation c w ⟨[index], ephemeral, ByteVec.zero 16, ByteVec.zero 24⟩ =
        some ⟨p, timestamp, index, resp, keys⟩ := by
  obtain ⟨msg, pending, w, o, -, hstrip, hparse, hopen, hm, -, -, hpriv⟩ :=
    build_open hc i r none 1 d hes hss
  rw [← hpriv] at hee
  obtain ⟨resp, w', sendKey, recvKey, hrespond, -⟩ :=
    respond_consume hc hm peer.psk index ephemeral hee hse
  refine ⟨msg, w, o.timestamp, resp, ⟨index, pending.localIndex, sendKey, recvKey⟩, hstrip,
    hparse, ?_⟩
  have hdraw : s.freshIndex [index] = some index := by
    unfold freshIndex
    rw [List.find?_cons_of_pos (by simp [hfree, hindex])]
  unfold acceptInitiation
  rw [hstatics, hopen]
  show (s.peerByPk o.clientStatic).bind _ = _
  rw [hm.clientStatic, hpk, Option.bind_some, hp, Option.bind_eq_bind, Option.bind_some, hlast,
    hdraw]
  show (respondInitiation c o peer.psk index ephemeral).toOption.bind _ = _
  rw [hrespond]
  rfl

/-- What opens under a live session and has an allowed source is staged. -/
theorem onTransport_stages {receiver : UInt32} {counter : UInt64} {data : Bytes} {p : Nat}
    {peer : EpPeer} {sess : Session} {inner : Bytes} {src : IpAddr} (source : SocketAddr)
    {now : Nat} (h : Opened c s receiver counter data p peer sess inner)
    (hlive : sessionExpired sess.created now = false) (hne : inner ≠ [])
    (hsrc : srcIpOf (trimIpPacket inner) = some src) (hallowed : sourceAllowed peer src = true) :
    Effect.stage (trimIpPacket inner) ∈
      (s.onTransport c source receiver counter data now).2 := by
  unfold onTransport
  rw [h.index]
  dsimp only
  rw [h.known, Option.bind_some, h.session]
  dsimp only
  rw [if_neg (not_not.mpr h.localIndex), hlive, if_neg Bool.false_ne_true, h.opened]
  dsimp only
  rw [if_neg hne, hsrc, peers_modifyPeer, if_pos rfl, h.known]
  have hok : ((some src).any fun src => ((some peer).map fun peer => ({ peer with
      session := some { (sess.openTransport c counter data).1 with lastRx := now }
      endpoint := some source } : EpPeer)).any fun peer => sourceAllowed peer src) = true :=
    hallowed
  rw [if_pos hok]
  exact List.mem_singleton_self _

/-- A new session opens the first message the other end seals. -/
theorem openTransport_first (hc : c.Lawful) {index peerIndex : UInt32}
    {kPeerSend kPeerRecv : ByteVec 32} {now : Nat} {inner data : Bytes}
    (h : c.encrypt kPeerSend (aeadNonce 0) inner [] = some data) :
    ((Session.fromResponder index peerIndex kPeerSend kPeerRecv now).openTransport c 0 data).2 =
      .ok inner := by
  unfold Session.openTransport
  have hopen : c.decrypt (Session.fromResponder index peerIndex kPeerSend kPeerRecv
      now).recv.cipher (aeadNonce 0) data [] = some inner := hc.open_seal _ _ _ _ _ h
  have hnew : (AntiReplay.new.accept 0).1 = true := by decide +kernel
  have hfirst : ((Session.fromResponder index peerIndex kPeerSend kPeerRecv
      now).recv.replay.accept 0).1 = true := hnew
  rw [hopen]
  dsimp only
  rw [if_pos hfirst]

/-- A peer completes its first handshake and sends a packet from an allowed address: it is
    staged, whatever the rest of the table says about the address. -/
theorem stages_allowed (hc : c.Lawful) {i r ephemeral : ByteVec 32} {d : Draw} {index : UInt32}
    {p : Nat} {peer : EpPeer} {pkt : Bytes} {src : IpAddr} (source : SocketAddr)
    (hstatics : s.statics = .fromSecret c r)
    (hpk : s.peerByPk (c.mulBaseClamped i) = some p) (hp : s.peers[p]? = some peer)
    (hlast : peer.lastTimestamp = none) (hfree : s.byIndex.lookup index = none)
    (hindex : index ≠ 0) (hquiet : s.load.windowStart = none)
    (hes : c.mulClamped (c.mulBaseClamped r) d.ephemeral ≠ ByteVec.zero 32)
    (hss : c.mulClamped (c.mulBaseClamped r) i ≠ ByteVec.zero 32)
    (hee : c.mulClamped (c.mulBaseClamped ephemeral) d.ephemeral ≠ ByteVec.zero 32)
    (hse : c.mulClamped (c.mulBaseClamped ephemeral) i ≠ ByteVec.zero 32)
    (hlen : (Session.padded pkt).length / 64 < 2 ^ 32 - 1)
    (htrim : trimIpPacket (Session.padded pkt) = pkt) (hsrc : srcIpOf pkt = some src)
    (hallowed : sourceAllowed peer src = true) :
    ∃ msg raw draws data, parseWgMsg (stripReserved raw) = some (.transport index 0 data) ∧
      (s.step c (.recv source msg 0 draws)).byIndex.lookup index = some p ∧
      Effect.stage pkt ∈
        ((s.step c (.recv source msg 0 draws)).handle c (.recv source raw 0 draws)).2 := by
  obtain ⟨msg, w, timestamp, resp, keys, hstrip, hparse, haccept⟩ :=
    acceptInitiation_first hc hstatics hpk hp hlast hfree hindex hes hss hee hse
  let draws : EpDraw := ⟨[index], ephemeral, ByteVec.zero 16, ByteVec.zero 24⟩
  let a : Admitted := ⟨p, timestamp, index, resp, keys⟩
  have ha : admitted c s (.recv source msg 0 draws) = some a := by
    unfold admitted
    dsimp only
    have hload : ¬ (s.load.bump 0).underLoad = true := by
      unfold HandshakeLoad.bump
      rw [hquiet]
      exact Bool.false_ne_true
    rw [hstrip, hparse]
    cases w with
    | initiation =>
      dsimp only
      rw [if_neg hload, haccept]
    | response => cases haccept
    | cookie => cases haccept
    | transport => cases haccept
  obtain ⟨_, _, _, _, _, _, _, hevent, -, -, hstep⟩ := step_admitted ha
  obtain ⟨rfl, rfl, rfl, rfl⟩ := EpEvent.recv.inj hevent
  obtain ⟨data, hseal⟩ := hc.seal_short keys.clientSend (aeadNonce 0) (Session.padded pkt) [] hlen
  have hdata : 16 ≤ data.length := by
    rw [hc.length_seal _ _ _ _ _ hseal]
    omega
  have hwire : parseWgMsg (stripReserved (le32 4 ++ le32 index ++ le64 0 ++ data)) =
      some (.transport index 0 data) := by
    rw [stripReserved_transport, parseWgMsg_transport index 0 hdata]
  have hlookup : (s.step c (.recv source msg 0 draws)).byIndex.lookup index = some p := by
    rw [hstep]
    exact AList.lookup_insert _
  refine ⟨msg, le32 4 ++ le32 index ++ le64 0 ++ data, draws, data, hwire, hlookup, ?_⟩
  -- the session the initiation left behind opens the message
  have hknown : (s.step c (.recv source msg 0 draws)).peers[p]? = some { peer with
      lastTimestamp := some timestamp
      session := some (.fromResponder index keys.peerIndex keys.clientSend keys.clientRecv 0)
      endpoint := some source
      nextPersistent := peer.persistentKeepalive.map (0 + ·) } := by
    have hp' : (({ s with load := s.load.bump 0 } : Endpoint).reindex p index).peers[p]? =
        some peer := hp
    rw [hstep]
    unfold install
    rw [peers_modifyPeer, if_pos rfl, hp']
    rfl
  have hopened : Opened c (s.step c (.recv source msg 0 draws)) index 0 data p _ _
      (Session.padded pkt) :=
    ⟨hlookup, hknown, rfl, rfl, openTransport_first hc hseal⟩
  have hne : Session.padded pkt ≠ [] := by
    intro h
    rw [h] at htrim
    rw [← htrim] at hsrc
    cases hsrc
  have hstaged : Effect.stage (trimIpPacket (Session.padded pkt)) ∈
      ((s.step c (.recv source msg 0 draws)).onTransport c source index 0 data 0).2 :=
    onTransport_stages source hopened rfl hne (by rw [htrim]; exact hsrc) hallowed
  rw [htrim] at hstaged
  unfold handle
  dsimp only
  unfold onDatagram
  rw [hwire]
  exact hstaged

/-! ## The table never changes -/

theorem covering_congr {peers peers' : List EpPeer}
    (h : peers.map EpPeer.allowed = peers'.map EpPeer.allowed) (ip : IpAddr) :
    covering peers ip = covering peers' ip := by
  have hflat : ∀ ps : List EpPeer, covering ps ip =
      (ps.map EpPeer.allowed).zipIdx.flatMap fun p =>
        (p.1.filter fun entry => prefixContains entry.1 entry.2 ip).map fun entry =>
          (p.2, entry.2) := by
    intro ps
    unfold covering
    rw [List.zipIdx_map, List.flatMap_map]
    rfl
  rw [hflat, hflat, h]

theorem allowed_step (s : Endpoint) (e : EpEvent) :
    (s.step c e).peers.map EpPeer.allowed = s.peers.map EpPeer.allowed := by
  have hsteady : ∀ {s'}, Steady s s' → s'.peers.map EpPeer.allowed = s.peers.map EpPeer.allowed := by
    intro s' h
    have heq := congrArg (List.map Standing.allowed) h.peers
    rw [List.map_map, List.map_map] at heq
    exact heq
  have hmodify : ∀ (t : Endpoint) (pi : Nat) (f : EpPeer → EpPeer), (∀ p, (f p).allowed = p.allowed) →
      (t.modifyPeer pi f).peers.map EpPeer.allowed = t.peers.map EpPeer.allowed := by
    intro t pi f hf
    apply List.ext_getElem?
    intro p
    rw [List.getElem?_map, List.getElem?_map, peers_modifyPeer]
    split_ifs
    · rw [Option.map_map]
      congr 1
      funext peer
      exact hf peer
    · rfl
  cases ha : admitted c s e with
  | some a =>
    obtain ⟨source, raw, now, draws, w, peer, o, -, -, -, heq⟩ := step_admitted ha
    rw [heq]
    exact hmodify _ _ _ fun _ => rfl
  | none =>
    rcases step_not_admitted ha with ⟨h, -⟩ |
      ⟨source, raw, now, draws, receiver, counter, data, pi, peer, sess, inner, t, -, -, -, -, heq⟩
    · exact hsteady h
    · rw [heq]
      exact hmodify _ _ _ fun _ => rfl

theorem allowed_run (s : Endpoint) (es : List EpEvent) :
    (es.foldl (step c) s).peers.map EpPeer.allowed = s.peers.map EpPeer.allowed := by
  induction es generalizing s with
  | nil => rfl
  | cons e es ih => exact (ih (s.step c e)).trans (allowed_step s e)

/-! ## Replies -/

/-- The source belongs to the peer in the table, and from now on every packet to it is sealed
    to that peer. -/
structure RoutedBack (c : Crates) (s : Endpoint) (p : Nat) (src : IpAddr) : Prop where
  selected : (routePeer s.peers src).map Prod.fst = some p
  replies : ∀ (later : List EpEvent) reply now, dstIpOf reply = some src →
    (later.foldl (step c) s).sendInner c reply now = (later.foldl (step c) s).sealTo c p reply now

/-- Whatever the table and the run, a packet that is staged comes from a peer that replies to
    its source go back to, exactly if no other peer shadows that peer at the source. -/
theorem staged_routed_back (ep : Endpoint) (before : List EpEvent) (e : EpEvent) (pkt : Bytes)
    (hpkt : Effect.stage pkt ∈ ((before.foldl (step c) ep).handle c e).2) :
    ∃ source raw now draws receiver counter data p src,
      e = .recv source raw now draws ∧
      parseWgMsg (stripReserved raw) = some (.transport receiver counter data) ∧
      (before.foldl (step c) ep).byIndex.lookup receiver = some p ∧ srcIpOf pkt = some src ∧
      (RoutedBack c ((before.foldl (step c) ep).step c e) p src ↔
        ¬ Shadowed ep.peers p src) := by
  obtain ⟨source, raw, now, draws, receiver, counter, data, p, peer, src, he, hparse, hindex, hp,
    hsrc, hallowed⟩ := staged hpkt
  refine ⟨source, raw, now, draws, receiver, counter, data, p, src, he, hparse, hindex, hsrc, ?_⟩
  -- every state of the run has the table of the new endpoint
  have htable : ∀ es : List EpEvent, routePeer (es.foldl (step c) ep).peers src = routePeer ep.peers src := by
    intro es
    rw [routePeer_eq, routePeer_eq, covering_congr (allowed_run ep es)]
  have hown := congrArg (·[p]?) (allowed_run (c := c) ep before)
  simp only [List.getElem?_map, hp, Option.map_some] at hown
  obtain ⟨peer0, hp0, hsame⟩ := Option.map_eq_some_iff.mp hown.symm
  have hallowed0 : sourceAllowed peer0 src = true := by
    unfold sourceAllowed
    rw [hsame]
    exact hallowed
  rw [← routePeer_iff hp0 hallowed0]
  have hnow : (before.foldl (step c) ep).step c e = (before ++ [e]).foldl (step c) ep := by
    rw [List.foldl_append]
    rfl
  constructor
  · intro h
    rw [← htable (before ++ [e]), ← hnow]
    exact h.selected
  · intro hsel
    rw [hnow]
    refine ⟨by rw [htable, hsel], fun later reply now hreply => ?_⟩
    obtain ⟨⟨q, len⟩, hroute, rfl⟩ := Option.map_eq_some_iff.mp hsel
    rw [← List.foldl_append]
    unfold sendInner
    rw [hreply]
    dsimp only
    rw [htable, hroute]

end

/-! ## A packet from inside the other peer's prefix -/

/-- A bare IPv4 header from 10.1.2.3 to 10.0.0.1. -/
def samplePacket : Bytes :=
  [0x45, 0, 0, 20, 0, 0, 0, 0, 64, 17, 0, 0, 10, 1, 2, 3, 10, 0, 0, 1]

/-- The first peer shakes hands and sends the packet. -/
theorem samplePacket_staged : ∃ first source raw now draws receiver counter data,
    parseWgMsg (stripReserved raw) = some (.transport receiver counter data) ∧
    (sampleEndpoint.step sampleCrates first).byIndex.lookup receiver = some 0 ∧
    Effect.stage samplePacket ∈ ((sampleEndpoint.step sampleCrates first).handle sampleCrates
      (.recv source raw now draws)).2 := by
  obtain ⟨msg, raw, draws, data, hparse, hindex, hstaged⟩ :=
    @stages_allowed sampleCrates sampleEndpoint sampleCrates_lawful (sampleSecret 1)
      (sampleSecret 2) (sampleSecret 4) ⟨sampleSecret 3, ⟨1700000000, 5⟩⟩ 7 0
      (samplePeer 0 0x0a000000 8) samplePacket (.v4 0x0a010203) (.v4 0xc0000201 51820) rfl
      (by decide +kernel) rfl rfl rfl (by decide) rfl (by decide +kernel) (by decide +kernel)
      (by decide +kernel) (by decide +kernel) (by decide +kernel) (by decide +kernel)
      (by decide +kernel) (by decide +kernel)
  exact ⟨_, _, raw, 0, draws, 7, 0, data, hparse, hindex, hstaged⟩

theorem staged_routed_back_sample : ∃ first e source raw now draws receiver counter data p src,
    e = .recv source raw now draws ∧
    parseWgMsg (stripReserved raw) = some (.transport receiver counter data) ∧
    (sampleEndpoint.step sampleCrates first).byIndex.lookup receiver = some p ∧
    srcIpOf samplePacket = some src ∧
    (RoutedBack sampleCrates ((sampleEndpoint.step sampleCrates first).step sampleCrates e) p
      src ↔ ¬ Shadowed sampleEndpoint.peers p src) := by
  obtain ⟨first, source, raw, now, draws, receiver, counter, data, -, -, hstaged⟩ :=
    samplePacket_staged
  exact ⟨first, _, staged_routed_back sampleEndpoint [first] (.recv source raw now draws)
    samplePacket hstaged⟩

/-- The first peer sends from an address that packets to go to the second one. -/
theorem shadowed_packet_staged : ∃ first source raw now draws receiver counter data,
    Endpoint.new sampleCrates sampleCfg (ByteVec.zero 16) 0 = .ok sampleEndpoint ∧
    parseWgMsg (stripReserved raw) = some (.transport receiver counter data) ∧
    (sampleEndpoint.step sampleCrates first).byIndex.lookup receiver = some 0 ∧
    Effect.stage samplePacket ∈ ((sampleEndpoint.step sampleCrates first).handle sampleCrates
      (.recv source raw now draws)).2 ∧
    srcIpOf samplePacket = some (.v4 0x0a010203) ∧
    (routePeer sampleEndpoint.peers (.v4 0x0a010203)).map Prod.fst = some 1 := by
  obtain ⟨first, source, raw, now, draws, receiver, counter, data, hparse, hindex, hstaged⟩ :=
    samplePacket_staged
  exact ⟨first, source, raw, now, draws, receiver, counter, data, sampleEndpoint_new, hparse,
    hindex, hstaged, by decide +kernel, by decide +kernel⟩

end Endpoint

end RustCrash.Wireguard
