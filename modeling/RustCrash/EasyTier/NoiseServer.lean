import RustCrash.EasyTier.NoiseMessages
import RustCrash.EasyTier.NoiseXx

/-
  `proto/easytier.rs`: the responder of the Noise_XX handshake, `noise_handshake_as_server`.

  The table of sessions is asked before the initiator has shown anything, by the network name and
  the peer id that it gives itself.

  An existing session keeps its root key, its generation and its validity, and a pinned static key
  stays (`noiseHandshakeAsServer_harmless`). But message 2 carries its root key to whoever gives
  another generation than its own, and the first static key that a message 3 shows is pinned before
  it is known to be the peer's.
-/

namespace RustCrash.EasyTier

open Lib Proto

def peerManagerHeaderSize : Nat := 16
def tcpMtuBytes : Nat := 2000
def noiseHandshakeMsg2 : UInt8 := 14
def noiseHandshakeMsg3 : UInt8 := 15

/-! ## The node -/

inductive SecureAuthLevel where
  | none
  | encryptedUnauthenticated
  | peerVerified
  | networkSecretConfirmed
  deriving DecidableEq

/-- `SecureModeCtx`, without the table of sessions. -/
structure SecureModeCtx where
  networkName : Str
  networkSecret : Option Str
  staticKeys : SecureStaticKeys
  algorithm : Str
  pinnedPeerPubkey : Option (ByteVec 32)

namespace SecureModeCtx

variable (H : Hashes)

def hasNetworkSecret (ctx : SecureModeCtx) : Bool := ctx.networkSecret.isSome

def proof (ctx : SecureModeCtx) (challenge : Bytes) : Option (ByteVec 32) :=
  ctx.networkSecret.map fun secret => secretProof H secret challenge

def verifyRemoteAuth (ctx : SecureModeCtx) (proof : Option Bytes) (handshakeHash : Bytes)
    (remotePubkey : ByteVec 32) (isInitiator : Bool) : Result SecureAuthLevel :=
  if proof.isSome ∧ (ctx.proof H handshakeHash).map Subtype.val = proof then
    .ok .networkSecretConfirmed
  else
    match ctx.pinnedPeerPubkey, isInitiator with
    | some pinned, true =>
      if pinned ≠ remotePubkey then
        .error (.protocol "easytier: pinned remote static pubkey mismatch")
      else .ok .peerVerified
    | _, _ =>
      if isInitiator ∧ ctx.hasNetworkSecret = false then .ok .encryptedUnauthenticated
      else
        .error
          (.protocol "easytier: authentication failed: invalid proof and unknown credential")

/-- The node's own names fit into a message. -/
def Short (ctx : SecureModeCtx) : Prop :=
  (utf8 ctx.networkName).length + (utf8 ctx.algorithm).length < 2 ^ 32

end SecureModeCtx

/-! ## The link -/

def PeerPacket.new (sender receiver : PeerId) (packetType : UInt8) (payload : Bytes) :
    PeerPacket :=
  ⟨⟨sender, receiver, packetType, 0, 1, 0, .ofNat payload.length⟩, payload⟩

/-- What the connection does after message 1: whether message 2 is written, the frames that come,
    and how the reading ends behind them (a closed or failing connection, a frame that is not one,
    or the end of the five seconds). -/
structure Link where
  written : Result Unit
  frames : List PeerPacket
  ending : Error

/-- The packet is handed to the writer when it fits into a frame. -/
def sendNoiseMsg (written : Result Unit) (packet : PeerPacket) : List PeerPacket × Result Unit :=
  let tcpLen := peerManagerHeaderSize + packet.payload.length
  if tcpMtuBytes < tcpLen then
    ([], .error (.protocol
      s!"easytier: packet exceeds TCP tunnel MTU. max: {tcpMtuBytes}, input: {tcpLen}"))
  else ([packet], written)

def recvNoiseFrame (link : Link) (expected : UInt8) : Result PeerPacket :=
  okOr (link.frames.find? fun packet => packet.hdr.packetType = expected) link.ending

/-! ## The handshake -/

structure PeerInfo where
  peerId : PeerId
  networkName : Str
  networkSecretDigest : ByteVec 32
  features : List Str
  version : UInt32
  deriving DecidableEq

/-- `NoiseHandshakeOutcome`, without the session, which the table has. -/
structure NoiseHandshakeOutcome where
  peer : PeerInfo
  authLevel : SecureAuthLevel
  deriving DecidableEq

/-- What the responder draws: its ephemeral secret, the root key of a new session and its
    connection id. -/
structure Draw where
  ephemeral : ByteVec 32
  rootKey : ByteVec 32
  bConnId : Uuid

structure Run where
  store : SecureSessionMap
  sent : List (NoiseMsg2 × PeerPacket)
  received : Option NoiseMsg3
  ended : Except Stop NoiseHandshakeOutcome

section

variable (C : Curve) (H : Hashes) (ctx : SecureModeCtx)

def openMsg1 (firstMsg1 : PeerPacket) : Result (NoiseXxHandshake × NoiseMsg1) := do
  ensure (firstMsg1.hdr.fromPeerId ≠ 0) (.protocol "easytier: noise msg1 must have src peer id")
  let (hs, payload1) ← (NoiseXxHandshake.new H ctx.staticKeys).readMsg1 H firstMsg1.payload
  let msg1 ← NoiseMsg1.decode payload1
  .ok (hs, msg1)

/-- 1 is the node's own network, which gets a proof, and 2 a foreign one. -/
def roleHint (hs : NoiseXxHandshake) (msg1 : NoiseMsg1) : UInt32 × Option Bytes :=
  if msg1.aNetworkName = ctx.networkName then
    (1, (ctx.proof H hs.handshakeHash.val).map Subtype.val)
  else (2, none)

def answer (hs : NoiseXxHandshake) (msg1 : NoiseMsg1) (upsert : UpsertResponderSessionReturn)
    (bConnId : Uuid) : NoiseMsg2 where
  bNetworkName := ctx.networkName
  roleHint := (roleHint H ctx hs msg1).1
  action := upsert.action
  bSessionGeneration := upsert.sessionGeneration
  rootKey32 := upsert.rootKey
  initialEpoch := upsert.initialEpoch
  bConnId := bConnId
  aConnIdEcho := some msg1.aConnId
  secretProof32 := (roleHint H ctx hs msg1).2
  serverEncryptionAlgorithm := ctx.algorithm

/-- The message 3 that echoes both connection ids. -/
def recvMsg3 (hs : NoiseXxHandshake) (msg1 : NoiseMsg1) (bConnId : Uuid) (link : Link) :
    Except Stop (NoiseXxHandshake × NoiseMsg3) := do
  let packet ← propagate (recvNoiseFrame link noiseHandshakeMsg3)
  let (hs, payload3) ← hs.readMsg3 C H packet.payload
  let msg3 ← propagate (NoiseMsg3.decode payload3)
  propagate (ensure (msg3.aConnIdEcho = msg1.aConnId)
    (.protocol "easytier: noise msg3 a_conn_id mismatch"))
  propagate (ensure (msg3.bConnIdEcho = bConnId)
    (.protocol "easytier: noise msg3 b_conn_id mismatch"))
  .ok (hs, msg3)

/-- The session that the responder holds pins the initiator's static key. -/
def pinSession (m : SecureSessionMap) (key : SessionKey) (pubkey : Option (ByteVec 32)) :
    SecureSessionMap × Result Unit :=
  match m key with
  | none => (m, .ok ())
  | some session =>
    match session.checkOrSetPeerStaticPubkey pubkey with
    | .error e => (m, .error e)
    | .ok session => (Function.update m key (some session), .ok ())

/-- A foreign network's initiator is let in as it is. The proof is for the hash as of message 2. -/
def authLevel (hs : NoiseXxHandshake) (handshakeHashForProof : ByteVec 32) (msg1 : NoiseMsg1)
    (msg3 : NoiseMsg3) : Result SecureAuthLevel :=
  if msg1.aNetworkName = ctx.networkName then
    ctx.verifyRemoteAuth H msg3.secretProof32 handshakeHashForProof.val
      (hs.remoteStatic.getD (.zero 32)) false
  else .ok .encryptedUnauthenticated

def outcome (hs : NoiseXxHandshake) (handshakeHashForProof : ByteVec 32) (remotePeerId : PeerId)
    (msg1 : NoiseMsg1) (msg3 : NoiseMsg3) : Except Stop NoiseHandshakeOutcome := do
  let level ← propagate (authLevel H ctx hs handshakeHashForProof msg1 msg3)
  let digest ← expect (ByteVec.ofBytes? 32 msg3.secretDigest)
  .ok ⟨⟨remotePeerId, msg1.aNetworkName, digest, [], msg1.version⟩, level⟩

/-- What follows message 2. -/
def confirm (hs : NoiseXxHandshake) (store : SecureSessionMap) (remotePeerId : PeerId)
    (msg1 : NoiseMsg1) (bConnId : Uuid) (link : Link) (sent : List (NoiseMsg2 × PeerPacket)) :
    Run :=
  match recvMsg3 C H hs msg1 bConnId link with
  | .error stop => ⟨store, sent, none, .error stop⟩
  | .ok (hs3, msg3) =>
    match pinSession store (msg1.aNetworkName, remotePeerId) hs3.remoteStatic with
    | (store, .error e) => ⟨store, sent, some msg3, .error (.err e)⟩
    | (store, .ok ()) =>
      ⟨store, sent, some msg3, outcome H ctx hs3 hs.handshakeHash remotePeerId msg1 msg3⟩

def noiseHandshakeAsServer (store : SecureSessionMap) (myPeerId : PeerId) (firstMsg1 : PeerPacket)
    (draw : Draw) (link : Link) (nowMs : Nat) : Run :=
  match openMsg1 H ctx firstMsg1 with
  | .error e => ⟨store, [], none, .error (.err e)⟩
  | .ok (hs, msg1) =>
    match store.upsertResponderSession (msg1.aNetworkName, firstMsg1.hdr.fromPeerId)
      msg1.aSessionGeneration ctx.algorithm msg1.clientEncryptionAlgorithm none draw.rootKey
      nowMs with
    | (store, .error e) => ⟨store, [], none, .error (.err e)⟩
    | (store, .ok upsert) =>
      let msg2 := answer H ctx hs msg1 upsert draw.bConnId
      match hs.writeMsg2 C H draw.ephemeral msg2.encode with
      | .error stop => ⟨store, [], none, .error stop⟩
      | .ok (hs, wire2) =>
        let (sent, r) := sendNoiseMsg link.written
          (.new myPeerId firstMsg1.hdr.fromPeerId noiseHandshakeMsg2 wire2)
        let sent := sent.map fun packet => (msg2, packet)
        match r with
        | .error e => ⟨store, sent, none, .error (.err e)⟩
        | .ok () =>
          confirm C H ctx hs store firstMsg1.hdr.fromPeerId msg1 draw.bConnId link sent

end

/-! ## The table -/

section

variable {m : SecureSessionMap} {key key' : SessionKey} {s s' : PeerSecureSession}
  {aGen : Option UInt32} {send recv : Str} {newRootKey : ByteVec 32} {nowMs : Nat}

/-- Without a static key the responder's table keeps every session that is valid. -/
theorem upsertResponderSession_kept (h : m key' = some s) (hvalid : s.isValid = true) :
    (m.upsertResponderSession key aGen send recv none newRootKey nowMs).1 key' = some s := by
  unfold SecureSessionMap.upsertResponderSession
  cases hget : (m.get key).2 with
  | none =>
    have hne : key' ≠ key := by
      rintro rfl
      unfold SecureSessionMap.get at hget
      rw [h] at hget
      dsimp only at hget
      rw [if_pos hvalid] at hget
      cases hget
    have hsame : (m.get key).1 key' = some s := by
      unfold SecureSessionMap.get
      cases m key with
      | none => exact h
      | some t =>
        dsimp only
        split_ifs
        · exact h
        · exact (Function.update_of_ne hne none m).trans h
    dsimp only
    rw [hget]
    dsimp only
    rw [Function.update_of_ne hne]
    exact hsame
  | some t =>
    obtain ⟨ht, -, hsame⟩ := SecureSessionMap.get_some hget
    have hupdate : Function.update m key (some t) = m := by
      rw [← ht]
      exact Function.update_eq_self key m
    dsimp only
    rw [hget, hsame]
    dsimp only
    cases t.datagram.checkEncryptAlgoSame send recv with
    | error e => exact h
    | ok =>
      dsimp only [PeerSecureSession.checkOrSetPeerStaticPubkey]
      rw [hupdate]
      split_ifs
      · exact h
      · exact h

/-- A root key that is told is a new one, or that of the session under the key, which is of
    another generation than the initiator's. -/
theorem upsertResponderSession_rootKey {u : UpsertResponderSessionReturn} {k : ByteVec 32}
    (h : (m.upsertResponderSession key aGen send recv none newRootKey nowMs).2 = .ok u)
    (hk : u.rootKey = some k) :
    k = newRootKey ∨
      ∃ s, m key = some s ∧ s.isValid = true ∧ s.rootKey = k ∧ aGen ≠ some s.sessionGeneration := by
  unfold SecureSessionMap.upsertResponderSession at h
  cases hget : (m.get key).2 with
  | none =>
    dsimp only at h
    rw [hget] at h
    cases h
    exact .inl (Option.some.inj hk).symm
  | some t =>
    obtain ⟨ht, hvalid, -⟩ := SecureSessionMap.get_some hget
    dsimp only at h
    rw [hget] at h
    dsimp only at h
    cases hcheck : t.datagram.checkEncryptAlgoSame send recv with
    | error e =>
      rw [hcheck] at h
      cases h
    | ok =>
      rw [hcheck] at h
      dsimp only [PeerSecureSession.checkOrSetPeerStaticPubkey] at h
      split_ifs at h with hgen
      · cases h
        cases hk
      · cases h
        exact .inr ⟨t, ht, hvalid, Option.some.inj hk, hgen⟩

theorem pinSession_kept {pubkey : Option (ByteVec 32)} (h : m key' = some s) :
    ∃ s', (pinSession m key pubkey).1 key' = some s' ∧ s'.datagram = s.datagram ∧
      (s'.peerStaticPubkey = s.peerStaticPubkey ∨ s.peerStaticPubkey = none ∧ key' = key) := by
  unfold pinSession
  cases hm : m key with
  | none => exact ⟨s, h, rfl, .inl rfl⟩
  | some t =>
    dsimp only
    cases hpin : t.checkOrSetPeerStaticPubkey pubkey with
    | error e => exact ⟨s, h, rfl, .inl rfl⟩
    | ok t' =>
      dsimp only
      by_cases hkey : key' = key
      · subst hkey
        cases h.symm.trans hm
        refine ⟨t', Function.update_self _ _ _, PeerSecureSession.checkOrSet_datagram hpin, ?_⟩
        by_cases hnone : s.peerStaticPubkey = none
        · exact .inr ⟨hnone, rfl⟩
        · exact .inl (PeerSecureSession.checkOrSet_pinned hpin hnone)
      · refine ⟨s, ?_, rfl, .inl rfl⟩
        rw [Function.update_of_ne hkey]
        exact h

end

/-! ## What a run does -/

section

variable {C : Curve} {H : Hashes} {ctx : SecureModeCtx} {store : SecureSessionMap}
  {myPeerId : PeerId} {firstMsg1 : PeerPacket} {draw : Draw} {link : Link} {nowMs : Nat}

/-- The end of a run behind message 2: message 3 did not come or open, or it came and the session
    pins what it shows. -/
theorem confirm_cases (C : Curve) (H : Hashes) (ctx : SecureModeCtx) (store : SecureSessionMap)
    (link : Link) (hs : NoiseXxHandshake) (remotePeerId : PeerId) (msg1 : NoiseMsg1)
    (bConnId : Uuid) (sent : List (NoiseMsg2 × PeerPacket)) :
    (∃ stop, recvMsg3 C H hs msg1 bConnId link = .error stop ∧
      confirm C H ctx hs store remotePeerId msg1 bConnId link sent =
        ⟨store, sent, none, .error stop⟩) ∨
    ∃ hs3 msg3, recvMsg3 C H hs msg1 bConnId link = .ok (hs3, msg3) ∧
      ∃ ended, confirm C H ctx hs store remotePeerId msg1 bConnId link sent =
        ⟨(pinSession store (msg1.aNetworkName, remotePeerId) hs3.remoteStatic).1, sent, some msg3,
          ended⟩ ∧
        ((∃ e, ended = .error (.err e)) ∨
          ended = outcome H ctx hs3 hs.handshakeHash remotePeerId msg1 msg3) := by
  unfold confirm
  cases recvMsg3 C H hs msg1 bConnId link with
  | error stop => exact .inl ⟨stop, rfl, rfl⟩
  | ok r =>
    obtain ⟨hs3, msg3⟩ := r
    refine .inr ⟨hs3, msg3, rfl, ?_⟩
    dsimp only
    rcases hpin : pinSession store (msg1.aNetworkName, remotePeerId) hs3.remoteStatic with
      ⟨store', e | u⟩
    · exact ⟨_, rfl, .inl ⟨e, rfl⟩⟩
    · exact ⟨_, rfl, .inr rfl⟩

theorem mem_sendNoiseMsg {written : Result Unit} {packet p : PeerPacket}
    (h : p ∈ (sendNoiseMsg written packet).1) : p = packet := by
  unfold sendNoiseMsg at h
  dsimp only at h
  split_ifs at h
  · cases h
  · exact List.mem_singleton.mp h

/-- How far a run gets: message 1 does not open, the table refuses it, message 2 is not written,
    it is not sent, or message 3 is waited for. -/
theorem noiseHandshakeAsServer_cases (C : Curve) (H : Hashes) (ctx : SecureModeCtx)
    (store : SecureSessionMap) (myPeerId : PeerId) (firstMsg1 : PeerPacket) (draw : Draw)
    (link : Link) (nowMs : Nat) {run : Run}
    (hrun : noiseHandshakeAsServer C H ctx store myPeerId firstMsg1 draw link nowMs = run) :
    (∃ e, run = ⟨store, [], none, .error (.err e)⟩) ∨
    ∃ hs msg1 store' r, openMsg1 H ctx firstMsg1 = .ok (hs, msg1) ∧
      store.upsertResponderSession (msg1.aNetworkName, firstMsg1.hdr.fromPeerId)
        msg1.aSessionGeneration ctx.algorithm msg1.clientEncryptionAlgorithm none draw.rootKey
        nowMs = (store', r) ∧
      ((∃ e, run = ⟨store', [], none, .error (.err e)⟩) ∨
      ∃ upsert, r = .ok upsert ∧
        ((∃ stop,
          hs.writeMsg2 C H draw.ephemeral (answer H ctx hs msg1 upsert draw.bConnId).encode =
            .error stop ∧ run = ⟨store', [], none, .error stop⟩) ∨
        ∃ hs2 wire2 sent,
          hs.writeMsg2 C H draw.ephemeral (answer H ctx hs msg1 upsert draw.bConnId).encode =
            .ok (hs2, wire2) ∧
          (∀ p ∈ sent, p.1 = answer H ctx hs msg1 upsert draw.bConnId ∧ p.2.payload = wire2) ∧
          ((∃ e, run = ⟨store', sent, none, .error (.err e)⟩) ∨
            run = confirm C H ctx hs2 store' firstMsg1.hdr.fromPeerId msg1 draw.bConnId link
              sent))) := by
  unfold noiseHandshakeAsServer at hrun
  cases hopen : openMsg1 H ctx firstMsg1 with
  | error e =>
    rw [hopen] at hrun
    exact .inl ⟨e, hrun.symm⟩
  | ok r =>
    obtain ⟨hs, msg1⟩ := r
    right
    rw [hopen] at hrun
    dsimp only at hrun
    rcases hupsert : store.upsertResponderSession (msg1.aNetworkName, firstMsg1.hdr.fromPeerId)
      msg1.aSessionGeneration ctx.algorithm msg1.clientEncryptionAlgorithm none draw.rootKey
      nowMs with ⟨store', e | upsert⟩
    · rw [hupsert] at hrun
      exact ⟨hs, msg1, store', _, rfl, hupsert, .inl ⟨e, hrun.symm⟩⟩
    · rw [hupsert] at hrun
      dsimp only at hrun
      refine ⟨hs, msg1, store', _, rfl, hupsert, .inr ⟨upsert, rfl, ?_⟩⟩
      cases hwrite : hs.writeMsg2 C H draw.ephemeral
          (answer H ctx hs msg1 upsert draw.bConnId).encode with
      | error stop =>
        rw [hwrite] at hrun
        exact .inl ⟨stop, rfl, hrun.symm⟩
      | ok w =>
        obtain ⟨hs2, wire2⟩ := w
        right
        rw [hwrite] at hrun
        dsimp only at hrun
        rcases hsend : sendNoiseMsg link.written
          (.new myPeerId firstMsg1.hdr.fromPeerId noiseHandshakeMsg2 wire2) with ⟨packets, r⟩
        rw [hsend] at hrun
        refine ⟨hs2, wire2, packets.map fun packet =>
          (answer H ctx hs msg1 upsert draw.bConnId, packet), rfl, ?_, ?_⟩
        · intro p hp
          obtain ⟨packet, hpacket, rfl⟩ := List.mem_map.mp hp
          have hfst := congrArg Prod.fst hsend
          dsimp only at hfst
          rw [← hfst] at hpacket
          exact ⟨rfl, congrArg PeerPacket.payload (mem_sendNoiseMsg hpacket)⟩
        · cases r with
          | error e => exact .inl ⟨e, hrun.symm⟩
          | ok => exact .inr hrun.symm

/-! ### Where it can panic -/

theorem openMsg1_eq_ok {hs : NoiseXxHandshake} {msg1 : NoiseMsg1}
    (h : openMsg1 H ctx firstMsg1 = .ok (hs, msg1)) :
    hs.s = ctx.staticKeys ∧ ∃ re, hs.re = some re ∧ re.val = firstMsg1.payload.take 32 := by
  obtain ⟨-, -, h⟩ := bind_eq_ok.mp h
  obtain ⟨⟨hs', payload1⟩, hread, h⟩ := bind_eq_ok.mp h
  obtain ⟨msg1', -, h⟩ := bind_eq_ok.mp h
  cases h
  exact NoiseXxHandshake.readMsg1_eq_ok hread

theorem recvMsg3_ne_panic {hs : NoiseXxHandshake} {e : SecureStaticKeys} {msg1 : NoiseMsg1}
    {bConnId : Uuid} (he : hs.e = some e) :
    recvMsg3 C H hs msg1 bConnId link ≠ .error .panic := by
  intro h
  unfold recvMsg3 at h
  rcases bind_eq_panic.mp h with hp | ⟨packet, -, hread⟩
  · exact propagate_ne_panic _ hp
  rcases bind_eq_panic.mp hread with hp | ⟨⟨hs3, payload3⟩, -, hdecode⟩
  · exact NoiseXxHandshake.readMsg3_ne_panic he hp
  rcases bind_eq_panic.mp hdecode with hp | ⟨msg3, -, haConn⟩
  · exact propagate_ne_panic _ hp
  rcases bind_eq_panic.mp haConn with hp | ⟨u, -, hbConn⟩
  · exact propagate_ne_panic _ hp
  rcases bind_eq_panic.mp hbConn with hp | ⟨u', -, hdone⟩
  · exact propagate_ne_panic _ hp
  · cases hdone

theorem outcome_panic {hs : NoiseXxHandshake} {hash : ByteVec 32} {remotePeerId : PeerId}
    {msg1 : NoiseMsg1} {msg3 : NoiseMsg3}
    (h : outcome H ctx hs hash remotePeerId msg1 msg3 = .error .panic) :
    msg3.secretDigest.length ≠ 32 := by
  intro hlen
  unfold outcome at h
  rw [show ByteVec.ofBytes? 32 msg3.secretDigest = some ⟨msg3.secretDigest, hlen⟩ from dif_pos hlen,
    expect_eq_ok.mpr rfl] at h
  rcases bind_eq_panic.mp h with hp | ⟨level, -, hdone⟩
  · exact propagate_ne_panic _ hp
  · cases hdone

theorem length_answer (H : Hashes) (ctx : SecureModeCtx) (hs : NoiseXxHandshake) (msg1 : NoiseMsg1)
    (upsert : UpsertResponderSessionReturn) (bConnId : Uuid) :
    (answer H ctx hs msg1 upsert bConnId).encode.length ≤
      500 + (utf8 ctx.networkName).length + (utf8 ctx.algorithm).length := by
  apply NoiseMsg2.length_encode
  intro proof hproof
  have hrole : (roleHint H ctx hs msg1).2 = some proof := hproof
  unfold roleHint at hrole
  split_ifs at hrole
  obtain ⟨v, -, rfl⟩ := Option.map_eq_some_iff.mp hrole
  exact ByteVec.length_val v

end

/-! ## What an initiator can do -/

section

variable (C : Curve) (H : Hashes) (ctx : SecureModeCtx) (store : SecureSessionMap)
  (firstMsg1 : PeerPacket) (draw : Draw)

/-- The curve takes the initiator's ephemeral to zero. -/
def LowOrder : Prop :=
  ∃ re : ByteVec 32, re.val = firstMsg1.payload.take 32 ∧
    (C.mulClamped re draw.ephemeral = .zero 32 ∨ C.mulClamped re ctx.staticKeys.sk = .zero 32)

/-- Message 1 is for this session, and claims this generation of it. -/
def Claims (key : SessionKey) (aSessionGeneration : Option UInt32) : Prop :=
  ∃ hs msg1, openMsg1 H ctx firstMsg1 = .ok (hs, msg1) ∧
    key = (msg1.aNetworkName, firstMsg1.hdr.fromPeerId) ∧
    aSessionGeneration = msg1.aSessionGeneration

structure Harmless (run : Run) : Prop where
  panics : run.ended = .error .panic → LowOrder C ctx firstMsg1 draw ∨ ¬ ctx.Short ∨
    ∃ msg3, run.received = some msg3 ∧ msg3.secretDigest.length ≠ 32
  kept : ∀ key s, store key = some s → s.isValid = true → ∃ s', run.store key = some s' ∧
    s'.rootKey = s.rootKey ∧ s'.sessionGeneration = s.sessionGeneration ∧ s'.isValid = true ∧
    (s'.peerStaticPubkey = s.peerStaticPubkey ∨
      s.peerStaticPubkey = none ∧ (∃ aGen, Claims H ctx firstMsg1 key aGen) ∧
        run.received.isSome)
  told : ∀ p ∈ run.sent, ∀ k, p.1.rootKey32 = some k → k = draw.rootKey ∨
    ∃ key s aGen, Claims H ctx firstMsg1 key aGen ∧ store key = some s ∧ s.isValid = true ∧
      s.rootKey = k ∧ aGen ≠ some s.sessionGeneration

end

section

variable {C : Curve} {H : Hashes} {ctx : SecureModeCtx} {store : SecureSessionMap}
  {myPeerId : PeerId} {firstMsg1 : PeerPacket} {draw : Draw} {link : Link} {nowMs : Nat}

theorem run_panics
    (h : (noiseHandshakeAsServer C H ctx store myPeerId firstMsg1 draw link nowMs).ended =
      .error .panic) :
    LowOrder C ctx firstMsg1 draw ∨ ¬ ctx.Short ∨ ∃ msg3,
      (noiseHandshakeAsServer C H ctx store myPeerId firstMsg1 draw link nowMs).received =
        some msg3 ∧ msg3.secretDigest.length ≠ 32 := by
  generalize hrun : noiseHandshakeAsServer C H ctx store myPeerId firstMsg1 draw link nowMs = run
    at h ⊢
  rcases noiseHandshakeAsServer_cases C H ctx store myPeerId firstMsg1 draw link nowMs hrun with
    ⟨e, rfl⟩ | ⟨hs, msg1, store', r, hopen, -, ⟨e, rfl⟩ | ⟨upsert, -, hwrite⟩⟩
  · cases h
  · cases h
  obtain ⟨hs_s, re, hre, hre_val⟩ := openMsg1_eq_ok hopen
  rcases hwrite with ⟨stop, hstop, rfl⟩ | ⟨hs2, wire2, sent, hok, -, ⟨e, rfl⟩ | hconfirm⟩
  · -- message 2 could not be written
    cases h
    rcases NoiseXxHandshake.writeMsg2_panic hre hstop with hee | hse | hlong
    · exact .inl ⟨re, hre_val, .inl hee⟩
    · rw [hs_s] at hse
      exact .inl ⟨re, hre_val, .inr hse⟩
    · refine .inr (.inl fun hshort => ?_)
      have hlen := length_answer H ctx hs msg1 upsert draw.bConnId
      unfold SecureModeCtx.Short at hshort
      omega
  · cases h
  · have he := NoiseXxHandshake.writeMsg2_e hok
    rcases confirm_cases C H ctx store' link hs2
      firstMsg1.hdr.fromPeerId msg1 draw.bConnId sent with
      ⟨stop, hrecv, heq⟩ | ⟨hs3, msg3, -, ended, heq, ⟨e, rfl⟩ | rfl⟩
    · rw [hconfirm, heq] at h
      cases h
      exact absurd hrecv (recvMsg3_ne_panic he)
    · rw [hconfirm, heq] at h
      cases h
    · rw [hconfirm, heq] at h ⊢
      exact .inr (.inr ⟨msg3, rfl, outcome_panic h⟩)

theorem run_kept {key : SessionKey} {s : PeerSecureSession} (h : store key = some s)
    (hvalid : s.isValid = true) :
    ∃ s', (noiseHandshakeAsServer C H ctx store myPeerId firstMsg1 draw link nowMs).store key =
        some s' ∧ s'.datagram = s.datagram ∧
      (s'.peerStaticPubkey = s.peerStaticPubkey ∨
        s.peerStaticPubkey = none ∧ (∃ aGen, Claims H ctx firstMsg1 key aGen) ∧
          (noiseHandshakeAsServer C H ctx store myPeerId firstMsg1 draw link
            nowMs).received.isSome) := by
  generalize hrun : noiseHandshakeAsServer C H ctx store myPeerId firstMsg1 draw link nowMs = run
  rcases noiseHandshakeAsServer_cases C H ctx store myPeerId firstMsg1 draw link nowMs hrun with
    ⟨e, rfl⟩ | ⟨hs, msg1, store', r, hopen, hupsert, hrest⟩
  · exact ⟨s, h, rfl, .inl rfl⟩
  have hkept : store' key = some s := by
    have hfst := congrArg Prod.fst hupsert
    dsimp only at hfst
    rw [← hfst]
    exact upsertResponderSession_kept h hvalid
  rcases hrest with ⟨e, rfl⟩ | ⟨upsert, -, ⟨stop, -, rfl⟩ |
    ⟨hs2, wire2, sent, -, -, ⟨e, rfl⟩ | hconfirm⟩⟩
  · exact ⟨s, hkept, rfl, .inl rfl⟩
  · exact ⟨s, hkept, rfl, .inl rfl⟩
  · exact ⟨s, hkept, rfl, .inl rfl⟩
  rcases confirm_cases C H ctx store' link hs2
    firstMsg1.hdr.fromPeerId msg1 draw.bConnId sent with
    ⟨stop, -, heq⟩ | ⟨hs3, msg3, -, ended, heq, -⟩
  · rw [hconfirm, heq]
    exact ⟨s, hkept, rfl, .inl rfl⟩
  · rw [hconfirm, heq]
    obtain ⟨s', hs', hdata, hpin⟩ := pinSession_kept hkept
    refine ⟨s', hs', hdata, ?_⟩
    rcases hpin with hsame | ⟨hnone, hkey⟩
    · exact .inl hsame
    · exact .inr ⟨hnone, ⟨_, hs, msg1, hopen, hkey, rfl⟩, rfl⟩

/-- What is handed to the writer is the answer that the table's verdict makes, sealed. -/
theorem run_sent {p : NoiseMsg2 × PeerPacket}
    (hp : p ∈ (noiseHandshakeAsServer C H ctx store myPeerId firstMsg1 draw link nowMs).sent) :
    ∃ hs msg1 hs2 upsert, openMsg1 H ctx firstMsg1 = .ok (hs, msg1) ∧
      (store.upsertResponderSession (msg1.aNetworkName, firstMsg1.hdr.fromPeerId)
        msg1.aSessionGeneration ctx.algorithm msg1.clientEncryptionAlgorithm none draw.rootKey
        nowMs).2 = .ok upsert ∧
      p.1 = answer H ctx hs msg1 upsert draw.bConnId ∧
      hs.writeMsg2 C H draw.ephemeral p.1.encode = .ok (hs2, p.2.payload) := by
  generalize hrun : noiseHandshakeAsServer C H ctx store myPeerId firstMsg1 draw link nowMs = run
    at hp
  rcases noiseHandshakeAsServer_cases C H ctx store myPeerId firstMsg1 draw link nowMs hrun with
    ⟨e, rfl⟩ | ⟨hs, msg1, store', r, hopen, hupsert, ⟨e, rfl⟩ | ⟨upsert, rfl, ⟨stop, -, rfl⟩ |
      ⟨hs2, wire2, sent, hwrite, hsent, hend⟩⟩⟩
  · cases hp
  · cases hp
  · cases hp
  have hmem : p ∈ sent := by
    rcases hend with ⟨e, rfl⟩ | hconfirm
    · exact hp
    · rw [hconfirm] at hp
      rcases confirm_cases C H ctx store' link hs2 firstMsg1.hdr.fromPeerId msg1 draw.bConnId sent
        with ⟨stop, -, heq⟩ | ⟨hs3, msg3, -, ended, heq, -⟩
      · rw [heq] at hp
        exact hp
      · rw [heq] at hp
        exact hp
  obtain ⟨hmsg2, hwire⟩ := hsent p hmem
  refine ⟨hs, msg1, hs2, upsert, hopen, by rw [hupsert], hmsg2, ?_⟩
  rw [hmsg2, hwire]
  exact hwrite

theorem run_told {p : NoiseMsg2 × PeerPacket} {k : ByteVec 32}
    (hp : p ∈ (noiseHandshakeAsServer C H ctx store myPeerId firstMsg1 draw link nowMs).sent)
    (hk : p.1.rootKey32 = some k) :
    k = draw.rootKey ∨ ∃ key s aGen, Claims H ctx firstMsg1 key aGen ∧ store key = some s ∧
      s.isValid = true ∧ s.rootKey = k ∧ aGen ≠ some s.sessionGeneration := by
  obtain ⟨hs, msg1, hs2, upsert, hopen, hupsert, hmsg2, -⟩ := run_sent hp
  rw [hmsg2] at hk
  rcases upsertResponderSession_rootKey hupsert hk with hnew | ⟨s, hs', hvalid, hroot, hgen⟩
  · exact .inl hnew
  · exact .inr ⟨_, s, _, ⟨hs, msg1, hopen, rfl, rfl⟩, hs', hvalid, hroot, hgen⟩

end

/-- Whoever dials, an existing session keeps its root key, its generation and its validity. A pinned
    key stays, and one is pinned at most in the session that message 1 claims. A root key that is
    told is new, or it is that of the claimed session when its generation is not claimed. -/
theorem noiseHandshakeAsServer_harmless (C : Curve) (H : Hashes) (ctx : SecureModeCtx)
    (store : SecureSessionMap) (myPeerId : PeerId) (firstMsg1 : PeerPacket) (draw : Draw)
    (link : Link) (nowMs : Nat) :
    Harmless C H ctx store firstMsg1 draw
      (noiseHandshakeAsServer C H ctx store myPeerId firstMsg1 draw link nowMs) where
  panics := run_panics
  kept := by
    intro key s h hvalid
    obtain ⟨s', hs', hdata, hpin⟩ :=
      @run_kept C H ctx store myPeerId firstMsg1 draw link nowMs key s h hvalid
    refine ⟨s', hs', ?_, ?_, ?_, hpin⟩
    · unfold PeerSecureSession.rootKey
      rw [hdata]
    · unfold PeerSecureSession.sessionGeneration
      rw [hdata]
    · unfold PeerSecureSession.isValid
      rw [hdata]
      exact hvalid
  told := fun _ hp _ hk => run_told hp hk

/-- An initiator without the secret names a session that the node holds. When it claims no
    generation it is sent the root key, and when it claims the right one its own static key is
    pinned before its proof is refused. -/
theorem told_and_pinned :
    let C : Curve := ⟨id, fun p s => ⟨p.val.zipWith (· ^^^ ·) s.val, by simp⟩⟩
    let H : Hashes := ⟨fun _ => .zero 16, fun _ => .zero 32, fun _ _ => .zero 20,
      fun _ _ => .zero 32, fun _ _ => .zero 32, fun _ => 0⟩
    let filled : UInt8 → ByteVec 32 := fun b => ⟨List.replicate 32 b, List.length_replicate⟩
    let name := "net".toList
    let algorithm := "aes-gcm".toList
    let ctx : SecureModeCtx :=
      ⟨name, some "secret".toList, .fromSecret C (filled 1), algorithm, none⟩
    let store : SecureSessionMap := fun key =>
      if key = (name, 7) then some (.new (filled 5) 1 0 algorithm algorithm none 0) else none
    let draw : Draw := ⟨filled 2, filled 6, ⟨1, 0x4000, 0x80000000, 0⟩⟩
    let msg1 := protoPutLenField 2 (utf8 name) ++ protoPutLenField 5 (utf8 algorithm)
    let first : Bytes → PeerPacket := fun payload => .new 7 0 13 ((filled 3).val ++ payload)
    let msg3 := protoPutMessageField 1 Uuid.nil.protoEncode ++
      protoPutMessageField 2 draw.bConnId.protoEncode ++ protoPutLenField 3 (filled 0xff).val ++
      protoPutLenField 4 (filled 0).val
    let sealedMsg3 := do
      let s ← ChaChaPoly.encrypt (.zero 32) (noiseNonce 1) (filled 4).val (filled 0).val
      let payload ← ChaChaPoly.encrypt (.zero 32) (noiseNonce 0) msg3 (filled 0).val
      some (s ++ payload)
    let closed : Error := .network "easytier: conn closed during noise handshake"
    let run1 := noiseHandshakeAsServer C H ctx store 9 (first msg1) draw ⟨.ok (), [], closed⟩ 0
    let run2 := noiseHandshakeAsServer C H ctx store 9 (first (msg1 ++ protoPutU32Field 3 1)) draw
      ⟨.ok (), [.new 7 9 15 (sealedMsg3.getD [])], closed⟩ 0
    (store (name, 7)).map (fun s => s.rootKey) = some (filled 5) ∧
      (store (name, 7)).map (fun s => s.peerStaticPubkey) = some none ∧
      (run1.sent.map fun p => p.1.rootKey32) = [some (filled 5)] ∧
      run1.ended = .error (.err closed) ∧
      (run2.store (name, 7)).map (fun s => s.peerStaticPubkey) = some (some (filled 4)) ∧
      run2.ended = .error (.err
        (.protocol "easytier: authentication failed: invalid proof and unknown credential")) := by
  decide +kernel

end RustCrash.EasyTier
