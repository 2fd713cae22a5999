import RustCrash.Wireguard.Endpoint

/-
  The WireGuard endpoint over whole runs.

  The map from receiver indexes to peers has exactly the indexes of the peers' sessions: it is
  an `Indexes` in every state (`Indexed`). Everything but a datagram leaves its keys, addresses, last timestamp and endpoint
  address as they were (`Steady`); a transport message that opens moves the endpoint address;
  an initiation that is admitted sets it and the timestamp.
-/

namespace RustCrash.Wireguard

open Lib

namespace Endpoint

/-! ## What there is to know about a peer -/

/-- The map finds a peer by the index of its session, and nothing else. -/
def Indexed (s : Endpoint) : Prop := Indexes s.sessionIndex s.byIndex

/-- A peer without its session and its keepalive. -/
structure Standing where
  staticPk : ByteVec 32
  psk : ByteVec 32
  allowed : List (IpAddr × Nat)
  lastTimestamp : Option (ByteVec 12)
  endpoint : Option SocketAddr

def standing (p : EpPeer) : Standing :=
  ⟨p.staticPk, p.psk, p.allowed, p.lastTimestamp, p.endpoint⟩

/-- Nothing changed but sessions and keepalives. -/
structure Steady (s s' : Endpoint) : Prop where
  statics : s'.statics = s.statics
  peers : s'.peers.map standing = s.peers.map standing

theorem Steady.refl (s : Endpoint) : Steady s s := ⟨rfl, rfl⟩

theorem Steady.trans {s t u : Endpoint} (h : Steady s t) (h' : Steady t u) : Steady s u :=
  ⟨h'.statics.trans h.statics, h'.peers.trans h.peers⟩

theorem Steady.standing_eq {s s' : Endpoint} (h : Steady s s') {p : Nat} {peer peer' : EpPeer}
    (hp : s.peers[p]? = some peer) (hp' : s'.peers[p]? = some peer') :
    standing peer' = standing peer := by
  have heq := congrArg (·[p]?) h.peers
  simp only [List.getElem?_map, hp, hp', Option.map_some, Option.some.injEq] at heq
  exact heq

/-! ## Changing one peer -/

theorem peers_modifyPeer (s : Endpoint) (pi p : Nat) (f : EpPeer → EpPeer) :
    (s.modifyPeer pi f).peers[p]? = if pi = p then (s.peers[p]?).map f else s.peers[p]? := by
  unfold modifyPeer
  dsimp only
  rw [List.getElem?_modify]
  split_ifs
  · rfl
  · cases s.peers[p]? <;> rfl

theorem steady_modifyPeer (s : Endpoint) (pi : Nat) {f : EpPeer → EpPeer}
    (hf : ∀ peer, standing (f peer) = standing peer) : Steady s (s.modifyPeer pi f) := by
  refine ⟨rfl, ?_⟩
  apply List.ext_getElem?
  intro p
  rw [List.getElem?_map, List.getElem?_map, peers_modifyPeer]
  split_ifs
  · rw [Option.map_map]
    congr 1
    funext peer
    exact hf peer
  · rfl

/-- A change that keeps the index of the peer's session. -/
theorem sessionIndex_modifyPeer (s : Endpoint) (pi : Nat) {f : EpPeer → EpPeer}
    (hf : ∀ peer, s.peers[pi]? = some peer →
      (f peer).session.map Session.localIndex = peer.session.map Session.localIndex) :
    (s.modifyPeer pi f).sessionIndex = s.sessionIndex := by
  funext p
  unfold sessionIndex
  rw [peers_modifyPeer]
  split_ifs with h
  · subst h
    cases hp : s.peers[pi]? with
    | none => rfl
    | some peer => exact hf peer hp
  · rfl

/-- A change that gives the peer's session another index, or ends it. -/
theorem sessionIndex_modifyPeer_set (s : Endpoint) (pi : Nat) {f : EpPeer → EpPeer}
    {peer : EpPeer} (hp : s.peers[pi]? = some peer) :
    (s.modifyPeer pi f).sessionIndex =
      Function.update s.sessionIndex pi ((f peer).session.map Session.localIndex) := by
  funext p
  by_cases h : p = pi
  · subst h
    rw [Function.update_self]
    unfold sessionIndex
    rw [peers_modifyPeer, if_pos rfl, hp]
    rfl
  · rw [Function.update_of_ne h]
    unfold sessionIndex
    rw [peers_modifyPeer, if_neg (Ne.symm h)]

theorem Indexed.keep {s s' : Endpoint} (h : Indexed s) (hi : s'.sessionIndex = s.sessionIndex)
    (hm : s'.byIndex = s.byIndex) : Indexed s' := by
  unfold Indexed
  rw [hi, hm]
  exact h

/-- A session ends and its index leaves the map. -/
theorem Indexed.drop {s : Endpoint} (h : Indexed s) {pi : Nat} {peer : EpPeer} {sess : Session}
    (hp : s.peers[pi]? = some peer) (hs : peer.session = some sess) :
    Indexed ({ s with byIndex := s.byIndex.erase sess.localIndex }.modifyPeer pi fun peer =>
      { peer with session := none }) := by
  have hkey : s.sessionIndex pi = some sess.localIndex := by
    unfold sessionIndex
    rw [hp, Option.bind_some, hs, Option.map_some]
  have hrel := indexes_release h pi
  rw [hkey] at hrel
  unfold Indexed
  rw [sessionIndex_modifyPeer_set (s := { s with byIndex := s.byIndex.erase sess.localIndex })
    pi hp]
  exact hrel

end Endpoint

/-! ## What each handler does -/

namespace Endpoint

section

variable {c : Crates} {s : Endpoint}

theorem steady_sealTo (s : Endpoint) (pi : Nat) (pkt : Bytes) (now : Nat) :
    Steady s (s.sealTo c pi pkt now).1 := by
  unfold sealTo
  split
  · dsimp only
    split <;> exact steady_modifyPeer s pi fun _ => rfl
  · exact Steady.refl s

theorem indexed_sealTo (h : Indexed s) (pi : Nat) (pkt : Bytes) (now : Nat) :
    Indexed (s.sealTo c pi pkt now).1 := by
  unfold sealTo
  split
  · next peer sess hp hs =>
    have hkeep : Indexed (s.modifyPeer pi fun peer =>
        { peer with session := some (sess.sealTransport c pkt now).1 }) := by
      refine h.keep (sessionIndex_modifyPeer s pi fun peer' hp' => ?_) rfl
      rw [hp', Option.bind_some] at hs
      rw [hs, Option.map_some, Option.map_some, Session.sealTransport_localIndex]
    dsimp only
    split <;> exact hkeep
  · exact h

theorem keepalive_spec (s : Endpoint) (peer : EpPeer) (pi now : Nat) (want : Bool) :
    Steady s (s.keepalive c peer pi now want).1 ∧
      (Indexed s → Indexed (s.keepalive c peer pi now want).1) := by
  have hseal := steady_sealTo (c := c) s pi [] now
  unfold keepalive
  dsimp only
  split_ifs
  · split
    · next iv _ =>
      refine ⟨hseal.trans (steady_modifyPeer _ pi fun _ => rfl), fun h => ?_⟩
      exact (indexed_sealTo h pi [] now).keep (sessionIndex_modifyPeer _ pi fun _ _ => rfl) rfl
    · exact ⟨hseal, fun h => indexed_sealTo h pi [] now⟩
  · exact ⟨hseal, fun h => indexed_sealTo h pi [] now⟩
  · exact ⟨Steady.refl s, id⟩

theorem timerPeer_spec (s : Endpoint) (pi now : Nat) :
    Steady s (s.timerPeer c pi now).1 ∧ (Indexed s → Indexed (s.timerPeer c pi now).1) := by
  unfold timerPeer
  cases hp : s.peers[pi]? with
  | none => exact ⟨Steady.refl s, id⟩
  | some peer =>
    dsimp only
    cases hs : peer.session with
    | none => exact keepalive_spec s peer pi now false
    | some sess =>
      dsimp only
      split_ifs
      · have hmap : Steady s { s with byIndex := s.byIndex.erase sess.localIndex } := ⟨rfl, rfl⟩
        exact ⟨hmap.trans (steady_modifyPeer _ pi fun _ => rfl), fun h => h.drop hp hs⟩
      · exact keepalive_spec s peer pi now _

theorem timerPeers_spec (s : Endpoint) (now : Nat) (ps : List Nat) :
    Steady s (s.timerPeers c now ps).1 ∧ (Indexed s → Indexed (s.timerPeers c now ps).1) := by
  induction ps generalizing s with
  | nil => exact ⟨Steady.refl s, id⟩
  | cons pi ps ih =>
    have hone := timerPeer_spec (c := c) s pi now
    have hrest := ih (s.timerPeer c pi now).1
    exact ⟨hone.1.trans hrest.1, fun h => hrest.2 (hone.2 h)⟩

theorem sendInner_spec (s : Endpoint) (pkt : Bytes) (now : Nat) :
    Steady s (s.sendInner c pkt now).1 ∧ (Indexed s → Indexed (s.sendInner c pkt now).1) := by
  unfold sendInner
  split
  · exact ⟨Steady.refl s, id⟩
  · split
    · exact ⟨Steady.refl s, id⟩
    · next pi _ _ => exact ⟨steady_sealTo s pi pkt now, fun h => indexed_sealTo h pi pkt now⟩

/-- The state after a transport message opened. -/
def received (s : Endpoint) (pi : Nat) (t : Session) (source : SocketAddr) : Endpoint :=
  s.modifyPeer pi fun peer => { peer with session := some t, endpoint := some source }

/-- A transport message opened under the session of the peer it is for. -/
structure Opened (c : Crates) (s : Endpoint) (receiver : UInt32) (counter : UInt64)
    (data : Bytes) (pi : Nat) (peer : EpPeer) (sess : Session) (inner : Bytes) : Prop where
  index : s.byIndex.lookup receiver = some pi
  known : s.peers[pi]? = some peer
  session : peer.session = some sess
  localIndex : sess.localIndex = receiver
  opened : (sess.openTransport c counter data).2 = .ok inner

/-- Either nothing but sessions changed, or the message opened, and the endpoint address of
    its peer is its source. -/
theorem onTransport_cases (s : Endpoint) (source : SocketAddr) (receiver : UInt32)
    (counter : UInt64) (data : Bytes) (now : Nat) :
    ((s.onTransport c source receiver counter data now).2 = [] ∧
      Steady s (s.onTransport c source receiver counter data now).1 ∧
      (Indexed s → Indexed (s.onTransport c source receiver counter data now).1)) ∨
    ∃ pi peer sess inner t, Opened c s receiver counter data pi peer sess inner ∧
      t.localIndex = sess.localIndex ∧
      (s.onTransport c source receiver counter data now).1 = s.received pi t source ∧
      ∀ pkt, Effect.stage pkt ∈ (s.onTransport c source receiver counter data now).2 →
        ∃ src, srcIpOf pkt = some src ∧ sourceAllowed peer src = true := by
  unfold onTransport
  cases hi : s.byIndex.lookup receiver with
  | none => exact Or.inl ⟨rfl, Steady.refl s, id⟩
  | some pi =>
    dsimp only
    cases hps : s.peers[pi]?.bind EpPeer.session with
    | none => exact Or.inl ⟨rfl, Steady.refl s, id⟩
    | some sess =>
      dsimp only
      obtain ⟨peer, hp, hs⟩ := Option.bind_eq_some_iff.mp hps
      split_ifs with hstale hdead
      · exact Or.inl ⟨rfl, Steady.refl s, id⟩
      · have hmap : Steady s { s with byIndex := s.byIndex.erase receiver } := ⟨rfl, rfl⟩
        refine Or.inl ⟨rfl, hmap.trans (steady_modifyPeer _ pi fun _ => rfl), fun h => ?_⟩
        rw [← not_not.mp hstale]
        exact h.drop hp hs
      · have hlocal := sess.openTransport_localIndex c counter data
        cases hopen : (sess.openTransport c counter data).2 with
        | error e =>
          refine Or.inl ⟨rfl, steady_modifyPeer s pi fun _ => rfl, fun h => ?_⟩
          refine h.keep (sessionIndex_modifyPeer s pi fun peer' hp' => ?_) rfl
          rw [hp] at hp'
          cases hp'
          rw [hs, Option.map_some, Option.map_some, hlocal]
        | ok inner =>
          refine Or.inr ⟨pi, peer, sess, inner,
            { (sess.openTransport c counter data).1 with lastRx := now },
            ⟨hi, hp, hs, not_not.mp hstale, hopen⟩, hlocal, ?_, ?_⟩
          · dsimp only
            split_ifs <;> rfl
          · intro pkt hpkt
            dsimp only at hpkt
            split_ifs at hpkt with hempty hsrc
            · cases hpkt
            · obtain rfl : pkt = trimIpPacket inner := by simpa using hpkt
              rw [peers_modifyPeer, if_pos rfl, hp] at hsrc
              cases hsrcip : srcIpOf (trimIpPacket inner) with
              | none =>
                rw [hsrcip] at hsrc
                cases hsrc
              | some src =>
                rw [hsrcip] at hsrc
                exact ⟨src, rfl, hsrc⟩
            · cases hpkt

theorem indexed_received {pi : Nat} {peer : EpPeer} {sess t : Session} {source : SocketAddr}
    (h : Indexed s) (hp : s.peers[pi]? = some peer) (hs : peer.session = some sess)
    (ht : t.localIndex = sess.localIndex) : Indexed (s.received pi t source) := by
  refine h.keep (sessionIndex_modifyPeer s pi fun peer' hp' => ?_) rfl
  rw [hp] at hp'
  cases hp'
  rw [hs, Option.map_some, Option.map_some, ht]

/-! ## Initiations -/

/-- The initiation an event brings and the endpoint lets in. -/
def admitted (c : Crates) (s : Endpoint) : EpEvent → Option Admitted
  | .recv _ raw now draws =>
    match parseWgMsg (stripReserved raw) with
    | some (.initiation sender ephemeral encStatic encTimestamp mac1 mac2) =>
      if (s.load.bump now).underLoad then none
      else s.acceptInitiation c (.initiation sender ephemeral encStatic encTimestamp mac1 mac2) draws
    | _ => none
  | _ => none

/-- What an admitted initiation has passed. -/
structure Passed (c : Crates) (s : Endpoint) (msg : WgMsg) (a : Admitted) (peer : EpPeer)
    (o : OpenInitiation) : Prop where
  opened : openInitiation c s.statics msg = .ok o
  known : s.peers[a.peer]? = some peer
  static : o.clientStatic = peer.staticPk
  timestamp : a.timestamp = o.timestamp
  newer : ∀ t, peer.lastTimestamp = some t → ofBE t.val < ofBE a.timestamp.val
  fresh : s.byIndex.lookup a.index = none

theorem acceptInitiation_spec {msg : WgMsg} {draws : EpDraw} {a : Admitted}
    (h : s.acceptInitiation c msg draws = some a) : ∃ peer o, Passed c s msg a peer o := by
  unfold acceptInitiation at h
  simp only [Option.bind_eq_bind, Option.bind_eq_some_iff, Option.guard_eq_some'] at h
  obtain ⟨o, ho, pi, hpi, peer, hp, ⟨⟩, hnewer, index, hindex, ⟨resp, keys⟩, hresp, heq⟩ := h
  cases heq
  have hopen : openInitiation c s.statics msg = .ok o := by
    cases hres : openInitiation c s.statics msg with
    | error e =>
      rw [hres] at ho
      cases ho
    | ok o' =>
      rw [hres] at ho
      cases ho
      rfl
  refine ⟨peer, o, hopen, hp, ?_, rfl, fun t ht => ?_, ?_⟩
  · unfold peerByPk at hpi
    obtain ⟨hlt, hpk, -⟩ := List.findIdx?_eq_some_iff_getElem.mp hpi
    rw [List.getElem?_eq_getElem hlt, Option.some.injEq] at hp
    rw [hp] at hpk
    exact (of_decide_eq_true hpk).symm
  · rw [ht, Option.any_some] at hnewer
    unfold timestampLe at hnewer
    simpa using hnewer
  · have hfree := List.find?_some hindex
    rw [Bool.and_eq_true] at hfree
    exact Option.isNone_iff_eq_none.mp hfree.1

/-- An admitted initiation gives its peer a new session, and a new index to the map. -/
theorem indexed_install {msg : WgMsg} {a : Admitted} {peer : EpPeer} {o : OpenInitiation}
    (h : Indexed s) (hp : Passed c s msg a peer o) (source : SocketAddr) (now : Nat) :
    Indexed (s.install a source now) := by
  have hrel := indexes_release h a.peer
  have hnew := indexes_assign hrel (i := a.peer) (k := a.index) (Function.update_self _ _ _)
    (lookup_eraseKey_none hp.fresh _)
  rw [Function.update_idem] at hnew
  have hpeer : (s.reindex a.peer a.index).peers[a.peer]? = some peer := hp.known
  unfold Indexed install
  rw [sessionIndex_modifyPeer_set (s.reindex a.peer a.index) a.peer hpeer]
  exact hnew

/-! ## One event -/

/-- An event that admits an initiation installs it. -/
theorem step_admitted {e : EpEvent} {a : Admitted} (h : admitted c s e = some a) :
    ∃ source raw now draws w peer o, e = .recv source raw now draws ∧
      parseWgMsg (stripReserved raw) = some w ∧ Passed c s w a peer o ∧
      s.step c e = { s with load := s.load.bump now }.install a source now := by
  cases e with
  | timer now => cases h
  | egress pkt now => cases h
  | recv source raw now draws =>
    unfold admitted at h
    dsimp only at h
    split at h
    · next sender ephemeral encStatic encTimestamp mac1 mac2 hparse =>
      split_ifs at h with hload
      obtain ⟨peer, o, hpassed⟩ := acceptInitiation_spec h
      refine ⟨source, raw, now, draws, _, peer, o, rfl, hparse, hpassed, ?_⟩
      unfold step handle
      dsimp only
      unfold onDatagram
      rw [hparse]
      dsimp only
      unfold onInitiation
      dsimp only
      have hload' : ¬ (({ s with load := s.load.bump now } : Endpoint).load.underLoad = true) :=
        hload
      rw [if_neg hload']
      have haccept : ({ s with load := s.load.bump now } : Endpoint).acceptInitiation c
          (.initiation sender ephemeral encStatic encTimestamp mac1 mac2) draws = some a := h
      rw [haccept]
    · cases h

/-- Any other event leaves the peers' standing alone, or is a transport message that opened. -/
theorem step_not_admitted {e : EpEvent} (h : admitted c s e = none) :
    (Steady s (s.step c e) ∧ (Indexed s → Indexed (s.step c e))) ∨
    ∃ source raw now draws receiver counter data pi peer sess inner t,
      e = .recv source raw now draws ∧
      parseWgMsg (stripReserved raw) = some (.transport receiver counter data) ∧
      Opened c s receiver counter data pi peer sess inner ∧ t.localIndex = sess.localIndex ∧
      s.step c e = s.received pi t source := by
  cases e with
  | timer now => exact Or.inl (timerPeers_spec s now _)
  | egress pkt now => exact Or.inl (sendInner_spec s pkt now)
  | recv source raw now draws =>
    unfold step handle
    dsimp only
    unfold onDatagram
    unfold admitted at h
    dsimp only at h
    split
    · next sender ephemeral encStatic encTimestamp mac1 mac2 hparse =>
      rw [hparse] at h
      dsimp only at h
      refine Or.inl ?_
      unfold onInitiation
      dsimp only
      split_ifs with hload
      · have hcookie : Steady s (({ s with load := s.load.bump now } : Endpoint).cookieFor now
            draws.cookieSecret) ∧ (Indexed s → Indexed
            (({ s with load := s.load.bump now } : Endpoint).cookieFor now draws.cookieSecret)) := by
          unfold cookieFor
          split_ifs <;> exact ⟨⟨rfl, rfl⟩, fun hi => hi⟩
        split <;> exact hcookie
      · rw [if_neg hload] at h
        have haccept : ({ s with load := s.load.bump now } : Endpoint).acceptInitiation c
            (.initiation sender ephemeral encStatic encTimestamp mac1 mac2) draws = none := h
        rw [haccept]
        exact ⟨⟨rfl, rfl⟩, fun hi => hi⟩
    · next receiver counter data hparse =>
      rcases onTransport_cases s source receiver counter data now with
        ⟨-, hsteady, hindexed⟩ | ⟨pi, peer, sess, inner, t, hopened, ht, heq, -⟩
      · exact Or.inl ⟨hsteady, hindexed⟩
      · exact Or.inr ⟨source, raw, now, draws, receiver, counter, data, pi, peer, sess, inner, t,
          rfl, hparse, hopened, ht, heq⟩
    · exact Or.inl ⟨Steady.refl s, id⟩

theorem indexed_step (h : Indexed s) (e : EpEvent) : Indexed (s.step c e) := by
  cases ha : admitted c s e with
  | some a =>
    obtain ⟨source, raw, now, draws, w, peer, o, -, -, hpassed, heq⟩ := step_admitted ha
    rw [heq]
    exact indexed_install (s := { s with load := s.load.bump now }) h
      ⟨hpassed.opened, hpassed.known, hpassed.static, hpassed.timestamp, hpassed.newer,
        hpassed.fresh⟩ source now
  | none =>
    rcases step_not_admitted ha with ⟨-, hi⟩ |
      ⟨source, raw, now, draws, receiver, counter, data, pi, peer, sess, inner, t, -, -, hopened,
        ht, heq⟩
    · exact hi h
    · rw [heq]
      exact indexed_received h hopened.known hopened.session ht

/-! ## Timestamps -/

/-- The last timestamp accepted from a peer. -/
def lastOf (s : Endpoint) (p : Nat) : Option (ByteVec 12) := s.peers[p]?.bind EpPeer.lastTimestamp

theorem lastOf_steady {s s' : Endpoint} (h : Steady s s') (p : Nat) : s'.lastOf p = s.lastOf p := by
  have heq := congrArg (·[p]?) h.peers
  simp only [List.getElem?_map] at heq
  unfold lastOf
  cases hp : s.peers[p]? with
  | none =>
    rw [hp] at heq
    rw [Option.map_eq_none_iff.mp heq]
  | some peer =>
    rw [hp, Option.map_some] at heq
    obtain ⟨peer', hp', hst⟩ := Option.map_eq_some_iff.mp heq
    rw [hp', Option.bind_some, Option.bind_some]
    exact congrArg Standing.lastTimestamp hst

/-- The timestamp an event makes a peer accept. -/
def acceptedAt (c : Crates) (s : Endpoint) (e : EpEvent) (p : Nat) : Option (ByteVec 12) :=
  ((admitted c s e).filter fun a => a.peer = p).map Admitted.timestamp

/-- After an accepted timestamp it is the last one; otherwise the last one stays. -/
theorem lastOf_step (s : Endpoint) (e : EpEvent) (p : Nat) :
    (∀ t, acceptedAt c s e p = some t → (s.step c e).lastOf p = some t ∧
      ∀ t', s.lastOf p = some t' → ofBE t'.val < ofBE t.val) ∧
    (acceptedAt c s e p = none → (s.step c e).lastOf p = s.lastOf p) := by
  unfold acceptedAt
  cases ha : admitted c s e with
  | none =>
    refine ⟨nofun, fun _ => ?_⟩
    rcases step_not_admitted ha with ⟨hsteady, -⟩ |
      ⟨source, raw, now, draws, receiver, counter, data, pi, peer, sess, inner, t, -, -, hopened,
        ht, heq⟩
    · exact lastOf_steady hsteady p
    · rw [heq]
      unfold lastOf received
      rw [peers_modifyPeer]
      split_ifs
      · cases s.peers[p]? <;> rfl
      · rfl
  | some a =>
    obtain ⟨source, raw, now, draws, w, peer, o, -, -, hpassed, heq⟩ := step_admitted ha
    rw [heq]
    unfold lastOf install
    rw [peers_modifyPeer]
    by_cases hpa : a.peer = p
    · rw [if_pos hpa, Option.filter_some, if_pos (decide_eq_true hpa), Option.map_some]
      refine ⟨fun t ht => ?_, nofun⟩
      cases ht
      have hp : s.peers[p]? = some peer := by
        rw [← hpa]
        exact hpassed.known
      have hp' : (({ s with load := s.load.bump now } : Endpoint).reindex a.peer a.index).peers[p]? =
          some peer := hp
      rw [hp', hp]
      exact ⟨rfl, hpassed.newer⟩
    · rw [if_neg hpa, Option.filter_some, if_neg (by simpa using hpa)]
      exact ⟨nofun, fun _ => rfl⟩

/-- The timestamps a run makes a peer accept, in order. -/
def acceptedTimes (c : Crates) (p : Nat) : Endpoint → List EpEvent → List (ByteVec 12)
  | _, [] => []
  | s, e :: es => (acceptedAt c s e p).toList ++ acceptedTimes c p (s.step c e) es

theorem acceptedTimes_increasing (s : Endpoint) (es : List EpEvent) (p : Nat) :
    (acceptedTimes c p s es).Pairwise (fun a b => ofBE a.val < ofBE b.val) ∧
      ∀ t ∈ acceptedTimes c p s es, ∀ t', s.lastOf p = some t' → ofBE t'.val < ofBE t.val := by
  induction es generalizing s with
  | nil => exact ⟨List.Pairwise.nil, nofun⟩
  | cons e es ih =>
    obtain ⟨hpair, hlater⟩ := ih (s.step c e)
    obtain ⟨hsome, hnone⟩ := lastOf_step (c := c) s e p
    unfold acceptedTimes
    cases ha : acceptedAt c s e p with
    | none =>
      rw [hnone ha] at hlater
      exact ⟨hpair, hlater⟩
    | some t =>
      obtain ⟨hlast, hnewer⟩ := hsome t ha
      have hrest : ∀ u ∈ acceptedTimes c p (s.step c e) es, ofBE t.val < ofBE u.val :=
        fun u hu => hlater u hu t hlast
      refine ⟨List.Pairwise.cons hrest hpair, fun u hu t' ht' => ?_⟩
      rcases List.mem_cons.mp hu with rfl | hu
      · exact hnewer t' ht'
      · exact (hnewer t' ht').trans (hrest u hu)

/-! ## Roaming -/

/-- A datagram that authenticated under the keys of peer `p`: an initiation that opens to the
    peer's static key, or a transport message that opens under its session. -/
def Authentic (c : Crates) (s : Endpoint) (p : Nat) (raw : Bytes) : Prop :=
  ∃ w peer, parseWgMsg (stripReserved raw) = some w ∧ s.peers[p]? = some peer ∧
    ((∃ o, openInitiation c s.statics w = .ok o ∧ o.clientStatic = peer.staticPk) ∨
      ∃ receiver counter data sess inner, w = .transport receiver counter data ∧
        peer.session = some sess ∧ (sess.openTransport c counter data).2 = .ok inner)

theorem endpoint_moves {e : EpEvent} {p : Nat} {peer peer' : EpPeer}
    (hp : s.peers[p]? = some peer) (hp' : (s.step c e).peers[p]? = some peer')
    (hne : peer'.endpoint ≠ peer.endpoint) :
    ∃ source raw now draws, e = .recv source raw now draws ∧ peer'.endpoint = some source ∧
      Authentic c s p raw := by
  cases ha : admitted c s e with
  | some a =>
    obtain ⟨source, raw, now, draws, w, peer0, o, he, hparse, hpassed, heq⟩ := step_admitted ha
    rw [heq] at hp'
    unfold install at hp'
    rw [peers_modifyPeer] at hp'
    have hsame : (({ s with load := s.load.bump now } : Endpoint).reindex a.peer
        a.index).peers[p]? = some peer := hp
    rw [hsame] at hp'
    split_ifs at hp' with hpa
    · subst hpa
      have hknown := hpassed.known
      rw [hp] at hknown
      cases hknown
      cases hp'
      exact ⟨source, raw, now, draws, he, rfl, w, peer, hparse, hp,
        Or.inl ⟨o, hpassed.opened, hpassed.static⟩⟩
    · cases hp'
      exact absurd rfl hne
  | none =>
    rcases step_not_admitted ha with ⟨hsteady, -⟩ |
      ⟨source, raw, now, draws, receiver, counter, data, pi, peer0, sess, inner, t, he, hparse,
        hopened, ht, heq⟩
    · exact absurd (congrArg Standing.endpoint (hsteady.standing_eq hp hp')) hne
    · rw [heq] at hp'
      unfold received at hp'
      rw [peers_modifyPeer, hp] at hp'
      split_ifs at hp' with hpi
      · subst hpi
        have hknown := hopened.known
        rw [hp] at hknown
        cases hknown
        cases hp'
        exact ⟨source, raw, now, draws, he, rfl, .transport receiver counter data, peer, hparse,
          hp, Or.inr ⟨receiver, counter, data, sess, inner, rfl, hopened.session,
            hopened.opened⟩⟩
      · cases hp'
        exact absurd rfl hne

/-! ## Whole runs -/

theorem buildPeers_idle {i : Nat} {seen : List (ByteVec 32)} {ps : List WgEndpointPeer}
    {peers : List EpPeer} (h : buildPeers c i seen ps = .ok peers) :
    ∀ peer ∈ peers, peer.session = none := by
  induction ps generalizing i seen peers with
  | nil =>
    unfold buildPeers at h
    cases h
    exact nofun
  | cons p ps ih =>
    unfold buildPeers at h
    obtain ⟨pk, -, h⟩ := bind_eq_ok.mp h
    obtain ⟨-, -, h⟩ := bind_eq_ok.mp h
    obtain ⟨psk, -, h⟩ := bind_eq_ok.mp h
    obtain ⟨-, -, h⟩ := bind_eq_ok.mp h
    obtain ⟨-, -, h⟩ := bind_eq_ok.mp h
    obtain ⟨rest, hrest, h⟩ := bind_eq_ok.mp h
    cases h
    intro peer hpeer
    rcases List.mem_cons.mp hpeer with rfl | hpeer
    · rfl
    · exact ih hrest peer hpeer

/-- A new endpoint has no session and no index. -/
theorem new_indexed {cfg : WgEndpointCfg} {secret : ByteVec 16} {now : Nat}
    (h : Endpoint.new c cfg secret now = .ok s) : Indexed s := by
  unfold Endpoint.new at h
  obtain ⟨sk, -, h⟩ := bind_eq_ok.mp h
  obtain ⟨-, -, h⟩ := bind_eq_ok.mp h
  obtain ⟨peers, hpeers, h⟩ := bind_eq_ok.mp h
  cases h
  have hidle := buildPeers_idle hpeers
  have hnone : Endpoint.sessionIndex ⟨StaticKeys.fromSecret c sk, peers, ∅, (secret, now), ⟨none, 0⟩⟩ =
      fun _ => none := by
    funext p
    unfold sessionIndex
    dsimp only
    cases hp : peers[p]? with
    | none => rfl
    | some peer =>
      rw [Option.bind_some, hidle peer (List.mem_of_getElem? hp)]
      rfl
  unfold Indexed
  rw [hnone]
  exact indexes_empty

/-- What the endpoint keeps to over a run from `s` with the events `es`. -/
structure SessionIndex (c : Crates) (s : Endpoint) (es : List EpEvent) : Prop where
  /-- The map has index `i` for `p` exactly when `i` is the index of the session of `p`. -/
  index : ∀ t ∈ Machine.states (step c) s es, ∀ i p, t.byIndex.lookup i = some p ↔
    ∃ peer sess, t.peers[p]? = some peer ∧ peer.session = some sess ∧ sess.localIndex = i
  unshared : ∀ t ∈ Machine.states (step c) s es, ∀ i p q,
    t.sessionIndex p = some i → t.sessionIndex q = some i → p = q
  increasing : ∀ p, (acceptedTimes c p s es).Pairwise fun a b => ofBE a.val < ofBE b.val
  /-- The last timestamp of a peer is the one an event just made it accept. -/
  accepted : ∀ x ∈ Machine.steps (step c) s es, ∀ p,
    (x.1.step c x.2).lastOf p = (acceptedAt c x.1 x.2 p).or (x.1.lastOf p)
  roaming : ∀ x ∈ Machine.steps (step c) s es, ∀ p peer peer', x.1.peers[p]? = some peer →
    (x.1.step c x.2).peers[p]? = some peer' → peer'.endpoint ≠ peer.endpoint →
    ∃ source raw now draws, x.2 = .recv source raw now draws ∧
      peer'.endpoint = some source ∧ Authentic c x.1 p raw

theorem sessionIndex_some {p : Nat} {i : UInt32} : s.sessionIndex p = some i ↔
    ∃ peer sess, s.peers[p]? = some peer ∧ peer.session = some sess ∧ sess.localIndex = i := by
  unfold sessionIndex
  simp only [Option.map_eq_some_iff, Option.bind_eq_some_iff]
  constructor
  · intro ⟨sess, ⟨peer, hp, hs⟩, hi⟩
    exact ⟨peer, sess, hp, hs, hi⟩
  · intro ⟨peer, sess, hp, hs, hi⟩
    exact ⟨sess, ⟨peer, hp, hs⟩, hi⟩

theorem lastOf_accepted (s : Endpoint) (e : EpEvent) (p : Nat) :
    (s.step c e).lastOf p = (acceptedAt c s e p).or (s.lastOf p) := by
  obtain ⟨hsome, hnone⟩ := lastOf_step (c := c) s e p
  cases ha : acceptedAt c s e p with
  | none => exact hnone ha
  | some t => exact (hsome t ha).1

/-- The session index of an endpoint, over every run. -/
theorem session_index {cfg : WgEndpointCfg} {secret : ByteVec 16} {now : Nat}
    (h : Endpoint.new c cfg secret now = .ok s) (es : List EpEvent) : SessionIndex c s es := by
  have hall : ∀ t ∈ Machine.states (step c) s es, Indexed t :=
    Machine.inv_of_good Indexed (fun _ _ => True) (fun t e ht _ => indexed_step ht e)
      (new_indexed h) fun _ _ => trivial
  exact
    { index := fun t ht i p => (hall t ht i p).trans sessionIndex_some
      unshared := fun t ht i p q hp hq => indexes_inj (hall t ht) hp hq
      increasing := fun p => (acceptedTimes_increasing s es p).1
      accepted := fun x _ p => lastOf_accepted x.1 x.2 p
      roaming := fun x _ p peer peer' hp hp' hne => endpoint_moves hp hp' hne }

end

/-! ## Two peers, one inside the other

The first peer may send from 10.0.0.0/8, the second owns 10.1.0.0/16. -/

def sampleCfg : WgEndpointCfg :=
  { privateKey := "AgICAgICAgICAgICAgICAgICAgICAgICAgICAgICAgI=".toList
    peers := [
      { publicKey := "pOCSkrZRwni5dyxWn1+puxPZBrRqtoyd+dwrRAn4ogk=".toList
        preSharedKey := none
        allowedIps := [(.v4 0x0a000000, 8)]
        persistentKeepalive := none },
      { publicKey := "Xf7dO2vUf2+ijuFdlp1bsOpTd01Ii9r53xxuASSz7yI=".toList
        preSharedKey := none
        allowedIps := [(.v4 0x0a010000, 16)]
        persistentKeepalive := none }] }

def samplePeer (point : Nat) (net : Ipv4Addr) (plen : Nat) : EpPeer :=
  ⟨samplePoints.getD point (ByteVec.zero 32), ByteVec.zero 32, [(.v4 net, plen)], none, none, none,
    none, none⟩

def sampleEndpoint : Endpoint :=
  ⟨.fromSecret sampleCrates (sampleSecret 2),
    [samplePeer 0 0x0a000000 8, samplePeer 2 0x0a010000 16], ∅, (ByteVec.zero 16, 0), ⟨none, 0⟩⟩

theorem sampleEndpoint_new :
    Endpoint.new sampleCrates sampleCfg (ByteVec.zero 16) 0 = .ok sampleEndpoint := by
  have hsk : b64key sampleCrates sampleCfg.privateKey "private-key" = .ok (sampleSecret 2) := by
    decide +kernel
  have hkeys : (sampleCfg.peers.map fun p => b64key sampleCrates p.publicKey
      "peers[].public-key") = [.ok (samplePoints.getD 0 (ByteVec.zero 32)),
        .ok (samplePoints.getD 2 (ByteVec.zero 32))] := by
    decide +kernel
  have hother : samplePoints.getD 2 (ByteVec.zero 32) ∉
      [samplePoints.getD 0 (ByteVec.zero 32)] := by
    decide +kernel
  obtain ⟨hfirst, hrest⟩ := List.cons_eq_cons.mp hkeys
  have hsecond := (List.cons_eq_cons.mp hrest).1
  have hpeers : buildPeers sampleCrates 0 [] sampleCfg.peers = .ok sampleEndpoint.peers := by
    unfold buildPeers sampleCfg
    dsimp only
    rw [show b64key sampleCrates _ _ = _ from hfirst, bind_ok, ensure_of (by simp), bind_ok]
    unfold buildPeers
    rw [show b64key sampleCrates _ _ = _ from hsecond, bind_ok, ensure_of hother, bind_ok]
    rfl
  unfold Endpoint.new
  rw [hsk, bind_ok]
  dsimp only
  rw [ensure_of (by decide), bind_ok, hpeers, bind_ok]
  rfl

theorem session_index_sample :
    SessionIndex sampleCrates sampleEndpoint [.timer 5, .egress [0x45, 0, 0] 6] :=
  session_index sampleEndpoint_new [.timer 5, .egress [0x45, 0, 0] 6]

end Endpoint

end RustCrash.Wireguard
