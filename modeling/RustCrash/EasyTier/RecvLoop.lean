import RustCrash.EasyTier.SessionStore
import RustCrash.Lib.Machine

/-
  `proto/easytier.rs`: the loop that reads the frames of one peer, `run_recv_loop`.

  Whoever is on the link chooses the frames, each with its header, its type and its bytes. Between
  frames the session seals packets of its own, gets another root key or is invalidated. An end
  of the stream or an error in `read_frame` ends the run.

  That the cipher cannot be forged is a statement about a run (`Unforged`): what opens under the
  session's key is a payload that the peer sealed under that key.
-/

namespace RustCrash.EasyTier

open Lib Proto

/-- A channel is the list of what was sent into it. `ended` is the end of the loop. -/
structure ConnState where
  myPeerId : PeerId
  peerId : PeerId
  encryptor : PacketEncryptor
  secure : Option SecureDatagramSession
  sink : List PeerPacket
  pongTx : List PeerPacket
  dataTx : List Bytes
  ctrlTx : List PeerPacket
  rxPackets : Nat
  ended : Bool

namespace ConnState

def IsPayload (packetType : UInt8) : Prop :=
  packetType = PacketType.data ∨ packetType = PacketType.rpcReq ∨ packetType = PacketType.rpcResp

instance (packetType : UInt8) : Decidable (IsPayload packetType) :=
  inferInstanceAs (Decidable (_ ∨ _ ∨ _))

/-- The direction of what the peer seals. -/
def inbound (c : ConnState) : SecureDirection := dirForSender c.peerId c.myPeerId

variable (H : Hashes)

def decrypt (c : ConnState) (nowMs : Nat) (packet : PeerPacket) :
    ConnState × Result (PeerManagerHeader × Bytes) :=
  match c.secure with
  | some session =>
    let (session, r) := session.decryptPayload H c.inbound nowMs packet.hdr packet.payload
    ({ c with secure := some session }, r)
  | none => (c, c.encryptor.decryptPacket packet.hdr packet.payload)

/-- `taken` is false when the other end of the channel is gone. -/
def deliver (c : ConnState) (taken : Bool) (packet : PeerPacket) : ConnState :=
  if taken = false then { c with ended := true }
  else if packet.hdr.packetType = PacketType.data then
    { c with dataTx := c.dataTx ++ [packet.payload] }
  else { c with ctrlTx := c.ctrlTx ++ [packet] }

/-- One turn of `run_recv_loop`. -/
def recvFrame (c : ConnState) (nowMs : Nat) (taken : Bool) (packet : PeerPacket) : ConnState :=
  let c := { c with rxPackets := c.rxPackets + 1 }
  if packet.hdr.packetType = PacketType.ping then
    { c with sink := c.sink ++ [{ packet with hdr := { packet.hdr with
      packetType := PacketType.pong } }] }
  else if packet.hdr.packetType = PacketType.pong then { c with pongTx := c.pongTx ++ [packet] }
  else if IsPayload packet.hdr.packetType then
    if packet.hdr.fromPeerId ≠ c.peerId ∨ packet.hdr.toPeerId ≠ c.myPeerId then c
    else
      match c.decrypt H nowMs packet with
      | (c, .error _) =>
        if c.secure.any fun session => !session.isValid then { c with ended := true } else c
      | (c, .ok (hdr, payload)) => c.deliver taken ⟨hdr, payload⟩
  else c.deliver taken packet

end ConnState

/-! ## A link -/

inductive LinkEvent where
  | frame (nowMs : Nat) (taken : Bool) (packet : PeerPacket)
  | sealOutgoing (nowMs : Nat) (hdr : PeerManagerHeader) (payload : Bytes)
  | sync (rootKey : ByteVec 32) (sessionGeneration initialEpoch : UInt32) (preserveRxGrace : Bool)
    (nowMs : Nat)
  | invalidate

/-- A call of `encrypt_payload` at the other end. -/
structure SealCall where
  session : SecureDatagramSession
  dir : SecureDirection
  nowMs : Nat
  hdr : PeerManagerHeader
  payload : Bytes

def SealCall.result (H : Hashes) (call : SealCall) : Result (PeerManagerHeader × Bytes) :=
  (call.session.encryptPayload H call.dir call.nowMs call.hdr call.payload).2

namespace ConnState

variable (H : Hashes)

def onLink (c : ConnState) : LinkEvent → ConnState
  | .frame nowMs taken packet => if c.ended then c else c.recvFrame H nowMs taken packet
  | .sealOutgoing nowMs hdr payload =>
    { c with secure := c.secure.map fun session =>
        (session.encryptPayload H (dirForSender c.myPeerId c.peerId) nowMs hdr payload).1 }
  | .sync rootKey sessionGeneration initialEpoch preserveRxGrace nowMs =>
    { c with secure := c.secure.map fun session =>
        session.syncRootKey rootKey sessionGeneration initialEpoch preserveRxGrace nowMs }
  | .invalidate => { c with secure := c.secure.map SecureDatagramSession.invalidate }

/-- The payloads that went to `data_tx` and, in packets of the two RPC types, to `ctrl_tx`. -/
def newPayloads (c c' : ConnState) : List Bytes :=
  c'.dataTx.drop c.dataTx.length ++
    ((c'.ctrlTx.drop c.ctrlTx.length).filter fun p => IsPayload p.hdr.packetType).map (·.payload)

def handedOver (c : ConnState) (e : LinkEvent) : List Bytes := newPayloads c (c.onLink H e)

variable (calls : List SealCall)

/-- The peer sealed these bytes under the session's root key and for this direction. -/
def Sealed (session : SecureDatagramSession) (dir : SecureDirection) (payload wire : Bytes) :
    Prop :=
  ∃ call ∈ calls, call.session.rootKey = session.rootKey ∧ call.dir = dir ∧
    call.payload = payload ∧ ∃ hdr, call.result H = .ok (hdr, wire)

/-- What opens under the session's key was sealed by the peer. -/
def Unforged (c : ConnState) : LinkEvent → Prop
  | .frame _ _ packet => packet.hdr.isEncrypted = true → ∀ session ∈ c.secure, ∀ a : Aead, ∀ text,
      session.getOrCreateCipher H (nonceEpoch (PacketEncryptor.tailNonce packet.payload)) c.inbound
        false = .ok ⟨.aead a⟩ →
      a.decrypt (PacketEncryptor.tailNonce packet.payload)
        (packet.payload.take (packet.payload.length - 12)) [] = some text →
      Sealed H calls session c.inbound text packet.payload
  | _ => True

/-- The frame gets to the replay state. -/
def Presents (c : ConnState) (packet : PeerPacket) (session : SecureDatagramSession) : Prop :=
  c.ended = false ∧ c.secure = some session ∧ IsPayload packet.hdr.packetType ∧
    packet.hdr.fromPeerId = c.peerId ∧ packet.hdr.toPeerId = c.myPeerId ∧
    session.Reaches packet.payload

/-- No slot had no packet for too long. -/
def NoneOverdue (rx : RxSlots) (nowMs : Nat) : Prop :=
  ∀ dir, (rx dir).slot0.overdue nowMs = false ∧ (rx dir).slot1.overdue nowMs = false

/-- A frame that passes the replay check has the flag, and one that the peer did not seal does not
    come when a slot is overdue. -/
def Flagged (c : ConnState) : LinkEvent → Prop
  | .frame nowMs _ packet => ∀ session, c.Presents packet session →
      ((session.precheckReplay (nonceEpoch (PacketEncryptor.tailNonce packet.payload))
          (nonceSeq (PacketEncryptor.tailNonce packet.payload)) c.inbound nowMs).2 = true →
        packet.hdr.isEncrypted = true) ∧
      ((∃ text, Sealed H calls session c.inbound text packet.payload) ∨
        NoneOverdue session.rxSlots nowMs)
  | _ => True

/-- What is handed over was sealed by the peer, and a frame that was not sealed by the peer leaves
    the slots alone. -/
def Authentic (c : ConnState) (e : LinkEvent) : Prop :=
  ∀ session, c.secure = some session →
    (∀ payload ∈ c.handedOver H e, ∃ wire, Sealed H calls session c.inbound payload wire) ∧
    ∀ nowMs taken packet, e = .frame nowMs taken packet →
      (∃ text, Sealed H calls session c.inbound text packet.payload) ∨
        ∃ session', (c.onLink H e).secure = some session' ∧ session'.rxSlots = session.rxSlots

/-! ### One step -/

variable {H calls} {c c' : ConnState} {session : SecureDatagramSession}

theorem newPayloads_same (hdata : c'.dataTx = c.dataTx) (hctrl : c'.ctrlTx = c.ctrlTx) :
    newPayloads c c' = [] := by
  unfold newPayloads
  rw [hdata, hctrl, List.drop_length, List.drop_length]
  rfl

theorem newPayloads_deliver (hdata : c'.dataTx = c.dataTx) (hctrl : c'.ctrlTx = c.ctrlTx)
    (taken : Bool) (p : PeerPacket) :
    ∀ payload ∈ newPayloads c (c'.deliver taken p),
      IsPayload p.hdr.packetType ∧ payload = p.payload := by
  intro payload hmem
  unfold newPayloads deliver at hmem
  by_cases htaken : taken = false
  · rw [if_pos htaken] at hmem
    simp [hdata, hctrl] at hmem
  rw [if_neg htaken] at hmem
  by_cases htype : p.hdr.packetType = PacketType.data
  · rw [if_pos htype] at hmem
    simp only [hdata, hctrl, List.drop_left, List.drop_length, List.filter_nil, List.map_nil,
      List.append_nil, List.mem_singleton] at hmem
    exact ⟨.inl htype, hmem⟩
  · rw [if_neg htype] at hmem
    simp only [hdata, hctrl, List.drop_left, List.drop_length, List.nil_append, List.mem_map,
      List.mem_filter, List.mem_singleton, decide_eq_true_iff] at hmem
    obtain ⟨q, ⟨rfl, hq⟩, rfl⟩ := hmem
    exact ⟨hq, rfl⟩

theorem secure_deliver (c : ConnState) (taken : Bool) (p : PeerPacket) :
    (c.deliver taken p).secure = c.secure := by
  unfold deliver
  split_ifs <;> rfl

variable {nowMs : Nat} {packet : PeerPacket}

theorem evict_noneOverdue {rx : RxSlots} (h : NoneOverdue rx nowMs) :
    evictOldRxSlots rx nowMs = rx := by
  funext dir
  obtain ⟨h0, h1⟩ := h dir
  unfold evictOldRxSlots DirSlots.evict EpochRxSlot.evict
  rw [h0, h1]
  rfl

/-- The cipher is not the one that has no tag. -/
def UsesAead (c : ConnState) : Prop :=
  ∀ session, c.secure = some session →
    EncryptionAlgorithm.fromStr session.recvCipherAlgorithm ≠ some .xor

theorem cipher_aead {epoch : UInt32} {dir : SecureDirection} {cipher : PacketEncryptor}
    (hxor : EncryptionAlgorithm.fromStr session.recvCipherAlgorithm ≠ some .xor)
    (h : session.getOrCreateCipher H epoch dir false = .ok cipher) :
    ∃ a, cipher = ⟨.aead a⟩ := by
  unfold SecureDatagramSession.getOrCreateCipher at h
  obtain ⟨send, -, h⟩ := bind_eq_ok.mp h
  obtain ⟨recv, hrecv, h⟩ := bind_eq_ok.mp h
  rw [pure_eq, Except.ok.injEq] at h
  subst h
  unfold cipherFor at hrecv
  cases halg : EncryptionAlgorithm.fromStr session.recvCipherAlgorithm with
  | none =>
    rw [halg] at hrecv
    cases hrecv
  | some algorithm =>
    rw [halg] at hrecv
    cases algorithm with
    | xor => exact absurd halg hxor
    | aesGcm => exact ⟨_, (Except.ok.inj hrecv).symm⟩
    | aes256Gcm => exact ⟨_, (Except.ok.inj hrecv).symm⟩
    | chaCha20 => exact ⟨_, (Except.ok.inj hrecv).symm⟩

/-- A packet with the flag that opens was sealed by the peer. -/
theorem sealed_of_opens {taken : Bool} {opened : PeerManagerHeader × Bytes} (haead : c.UsesAead)
    (hsecure : c.secure = some session) (hunforged : c.Unforged H calls (.frame nowMs taken packet))
    (hflag : packet.hdr.isEncrypted = true)
    (hopens : session.Opens H c.inbound nowMs packet.hdr packet.payload opened) :
    Sealed H calls session c.inbound opened.2 packet.payload := by
  obtain ⟨cipher, hcipher, hopened⟩ := hopens.cipher
  obtain ⟨a, rfl⟩ := cipher_aead (haead session hsecure) hcipher
  obtain ⟨-, htext, -⟩ := (PacketEncryptor.decryptPacket_aead hflag).mp hopened
  exact hunforged hflag session hsecure a opened.2 hcipher htext

theorem decrypt_secure (H : Hashes) (hsecure : c.secure = some session) (nowMs : Nat)
    (packet : PeerPacket) :
    c.decrypt H nowMs packet =
      ({ c with
          secure := some (session.decryptPayload H c.inbound nowMs packet.hdr packet.payload).1 },
        (session.decryptPayload H c.inbound nowMs packet.hdr packet.payload).2) := by
  unfold decrypt
  rw [hsecure]

/-- What a frame does, when no payload is handed over that the peer did not seal. -/
structure FrameOk (H : Hashes) (calls : List SealCall) (c : ConnState)
    (session : SecureDatagramSession) (packet : PeerPacket) (c' : ConnState) : Prop where
  payloads : ∀ payload ∈ newPayloads c c', ∃ wire, Sealed H calls session c.inbound payload wire
  slots : (∃ text, Sealed H calls session c.inbound text packet.payload) ∨
    ∃ session', c'.secure = some session' ∧ session'.rxSlots = session.rxSlots

theorem FrameOk.of_same (hsecure : c.secure = some session) (hdata : c'.dataTx = c.dataTx)
    (hctrl : c'.ctrlTx = c.ctrlTx) (hsame : c'.secure = c.secure) :
    FrameOk H calls c session packet c' where
  payloads payload hmem := by
    rw [newPayloads_same hdata hctrl] at hmem
    exact absurd hmem List.not_mem_nil
  slots := .inr ⟨session, hsame.trans hsecure, rfl⟩

theorem FrameOk.opened {taken : Bool} (haead : c.UsesAead) (hsecure : c.secure = some session)
    (hended : c.ended = false) (hunforged : c.Unforged H calls (.frame nowMs taken packet))
    (hflagged : c.Flagged H calls (.frame nowMs taken packet))
    (htype : IsPayload packet.hdr.packetType) (hfrom : packet.hdr.fromPeerId = c.peerId)
    (hto : packet.hdr.toPeerId = c.myPeerId) :
    FrameOk H calls c session packet (c.recvFrame H nowMs taken packet) := by
  have hping : packet.hdr.packetType ≠ PacketType.ping := by
    rintro h
    rw [h] at htype
    exact absurd htype (by decide)
  have hpong : packet.hdr.packetType ≠ PacketType.pong := by
    rintro h
    rw [h] at htype
    exact absurd htype (by decide)
  unfold recvFrame
  dsimp only
  rw [if_neg hping, if_neg hpong, if_pos htype, if_neg (by rw [hfrom, hto]; tauto)]
  have hdecrypt := @decrypt_secure { c with rxPackets := c.rxPackets + 1 } session H hsecure nowMs
    packet
  rw [hdecrypt, show ({ c with rxPackets := c.rxPackets + 1 } : ConnState).inbound = c.inbound
    from rfl]
  have hpresents : session.Reaches packet.payload → c.Presents packet session :=
    fun hreach => ⟨hended, hsecure, htype, hfrom, hto, hreach⟩
  rcases session.decryptPayload_cases H c.inbound nowMs packet.hdr packet.payload with
    ⟨opened, hopens, heq⟩ | ⟨session', e, hrefused, heq⟩
  · have hsealed := sealed_of_opens haead hsecure hunforged
      ((hflagged session (hpresents hopens.reaches)).1 hopens.passed) hopens
    obtain ⟨hdr, text⟩ := opened
    rw [heq]
    dsimp only
    refine ⟨fun payload hmem => ?_, .inl ⟨text, hsealed⟩⟩
    obtain ⟨-, rfl⟩ := newPayloads_deliver (by rfl) (by rfl) taken _ payload hmem
    exact ⟨packet.payload, hsealed⟩
  · rw [heq]
    dsimp only
    have hslots : (∃ text, Sealed H calls session c.inbound text packet.payload) ∨
        session'.rxSlots = session.rxSlots := by
      cases hrefused with
      | early => exact .inr rfl
      | checked fails invalidated hreach =>
        refine (hflagged session (hpresents hreach)).2.imp id fun hnone => ?_
        exact (session.startReplay_rxSlots nowMs).trans (evict_noneOverdue hnone)
    split_ifs
    all_goals
      refine ⟨fun payload hmem => ?_, hslots.imp id fun heq => ⟨session', rfl, heq⟩⟩
      rw [newPayloads_same (by rfl) (by rfl)] at hmem
      exact absurd hmem List.not_mem_nil

theorem FrameOk.frame {taken : Bool} (haead : c.UsesAead) (hsecure : c.secure = some session)
    (hended : c.ended = false) (hunforged : c.Unforged H calls (.frame nowMs taken packet))
    (hflagged : c.Flagged H calls (.frame nowMs taken packet)) :
    FrameOk H calls c session packet (c.recvFrame H nowMs taken packet) := by
  by_cases htype : IsPayload packet.hdr.packetType
  · by_cases hids : packet.hdr.fromPeerId ≠ c.peerId ∨ packet.hdr.toPeerId ≠ c.myPeerId
    · unfold recvFrame
      dsimp only
      split_ifs
      all_goals exact .of_same hsecure rfl rfl rfl
    · rw [not_or, not_not, not_not] at hids
      exact .opened haead hsecure hended hunforged hflagged htype hids.1 hids.2
  · unfold recvFrame
    dsimp only
    split_ifs
    · exact .of_same hsecure rfl rfl rfl
    · exact .of_same hsecure rfl rfl rfl
    · refine ⟨fun payload hmem => ?_, .inr ⟨session, (secure_deliver _ _ _).trans hsecure, rfl⟩⟩
      exact absurd (newPayloads_deliver (by rfl) (by rfl) taken packet payload hmem).1 htype

theorem handedOver_same {e : LinkEvent} (hdata : (c.onLink H e).dataTx = c.dataTx)
    (hctrl : (c.onLink H e).ctrlTx = c.ctrlTx) {P : Bytes → Prop} :
    ∀ payload ∈ c.handedOver H e, P payload := by
  intro payload hmem
  unfold handedOver at hmem
  rw [newPayloads_same hdata hctrl] at hmem
  exact absurd hmem List.not_mem_nil

theorem Authentic.step {e : LinkEvent} (haead : c.UsesAead) (hunforged : c.Unforged H calls e)
    (hflagged : c.Flagged H calls e) : c.Authentic H calls e := by
  intro session hsecure
  cases e with
  | frame nowMs taken packet =>
    have hframe : FrameOk H calls c session packet
        (c.onLink H (.frame nowMs taken packet)) := by
      unfold onLink
      dsimp only
      by_cases hended : c.ended = true
      · rw [if_pos hended]
        exact .of_same hsecure rfl rfl rfl
      · rw [if_neg hended]
        exact .frame haead hsecure (Bool.eq_false_of_not_eq_true hended) hunforged hflagged
    refine ⟨hframe.payloads, fun nowMs' taken' packet' heq => ?_⟩
    cases heq
    exact hframe.slots
  | sealOutgoing nowMs hdr payload =>
    exact ⟨handedOver_same rfl rfl, fun _ _ _ heq => LinkEvent.noConfusion heq⟩
  | sync rootKey sessionGeneration initialEpoch preserveRxGrace nowMs =>
    exact ⟨handedOver_same rfl rfl, fun _ _ _ heq => LinkEvent.noConfusion heq⟩
  | invalidate =>
    exact ⟨handedOver_same rfl rfl, fun _ _ _ heq => LinkEvent.noConfusion heq⟩

/-! ### Runs -/

theorem UsesAead.map (h : c.UsesAead) (hsecure : ∀ session', c'.secure = some session' →
    ∃ session, c.secure = some session ∧
      session'.recvCipherAlgorithm = session.recvCipherAlgorithm) : c'.UsesAead := by
  intro session' hsession'
  obtain ⟨session, hsession, heq⟩ := hsecure session' hsession'
  rw [heq]
  exact h session hsession

theorem UsesAead.of_same (h : c.UsesAead) (hsame : c'.secure = c.secure) : c'.UsesAead :=
  h.map fun session' hsession' => ⟨session', hsame.symm.trans hsession', rfl⟩

theorem UsesAead.decrypt (H : Hashes) (h : c.UsesAead) (nowMs : Nat) (packet : PeerPacket) :
    (c.decrypt H nowMs packet).1.UsesAead := by
  cases hsecure : c.secure with
  | none =>
    unfold ConnState.decrypt
    rw [hsecure]
    exact h
  | some session =>
    rw [decrypt_secure H hsecure]
    refine h.map fun session' hsession' => ⟨session, hsecure, ?_⟩
    cases hsession'
    obtain ⟨_, _, _, _, _, heq⟩ := session.decryptPayload_frame H c.inbound nowMs packet.hdr
      packet.payload
    rw [heq]

theorem UsesAead.recvFrame (H : Hashes) (h : c.UsesAead) (nowMs : Nat) (taken : Bool) (packet : PeerPacket) :
    (c.recvFrame H nowMs taken packet).UsesAead := by
  have hread : ({ c with rxPackets := c.rxPackets + 1 } : ConnState).UsesAead := h
  have hdecrypt := hread.decrypt H nowMs packet
  unfold ConnState.recvFrame
  dsimp only
  split_ifs
  · exact h
  · exact h
  · exact h
  · generalize ({ c with rxPackets := c.rxPackets + 1 } : ConnState).decrypt H nowMs packet = r
      at hdecrypt
    obtain ⟨c', r⟩ := r
    cases r with
    | error e =>
      dsimp only
      split_ifs
      · exact hdecrypt
      · exact hdecrypt
    | ok opened => exact hdecrypt.of_same (secure_deliver c' taken _)
  · exact h.of_same (secure_deliver _ taken packet)

theorem UsesAead.onLink (H : Hashes) (h : c.UsesAead) (e : LinkEvent) : (c.onLink H e).UsesAead := by
  cases e with
  | frame nowMs taken packet =>
    unfold ConnState.onLink
    dsimp only
    split_ifs
    · exact h
    · exact h.recvFrame H nowMs taken packet
  | sealOutgoing nowMs hdr payload =>
    refine h.map fun session' hsession' => ?_
    obtain ⟨session, hsession, rfl⟩ := Option.map_eq_some_iff.mp hsession'
    obtain ⟨_, _, _, _, heq⟩ := session.encryptPayload_frame H (dirForSender c.myPeerId c.peerId)
      nowMs hdr payload
    exact ⟨session, hsession, by rw [heq]⟩
  | sync rootKey sessionGeneration initialEpoch preserveRxGrace nowMs =>
    refine h.map fun session' hsession' => ?_
    obtain ⟨session, hsession, rfl⟩ := Option.map_eq_some_iff.mp hsession'
    exact ⟨session, hsession, rfl⟩
  | invalidate =>
    refine h.map fun session' hsession' => ?_
    obtain ⟨session, hsession, rfl⟩ := Option.map_eq_some_iff.mp hsession'
    exact ⟨session, hsession, rfl⟩

/-- In a run whose frames have the flag when they pass the replay check, only payloads that the
    peer sealed are handed over. -/
theorem handedOver_authentic (H : Hashes) (calls : List SealCall) (c : ConnState)
    (events : List LinkEvent) (haead : c.UsesAead)
    (hunforged : ∀ p ∈ Machine.steps (onLink H) c events, p.1.Unforged H calls p.2)
    (hflagged : ∀ p ∈ Machine.steps (onLink H) c events, p.1.Flagged H calls p.2) :
    ∀ p ∈ Machine.steps (onLink H) c events, p.1.Authentic H calls p.2 := by
  intro p hp
  have hall := Machine.inv_of_step UsesAead (fun c e h => h.onLink H e) haead events
  exact .step (hall _ (Machine.steps_mem_states hp)) (hunforged p hp) (hflagged p hp)

/-- One frame, which the peer sealed. -/
theorem handedOver_authentic_sealed :
    ∃ (H : Hashes) (sealed : PeerManagerHeader × Bytes),
      let s := SecureDatagramSession.new (.zero 32) 1 0 "aes-gcm".toList "aes-gcm".toList 0
      let c : ConnState := ⟨2, 1, ⟨.null⟩, some s, [], [], [], [], 0, false⟩
      let call : SealCall := ⟨s, .aToB, 500, ⟨1, 2, PacketType.data, 0, 0, 0, 1⟩, [7]⟩
      let e := LinkEvent.frame 1000 true ⟨sealed.1, sealed.2⟩
      call.result H = .ok sealed ∧
        ∀ p ∈ Machine.steps (onLink H) c [e], p.1.Authentic H [call] p.2 := by
  let H : Hashes := ⟨fun _ => .zero 16, fun _ => .zero 32, fun _ _ => .zero 20,
    fun _ _ => .zero 32, fun _ _ => .zero 32, fun _ => 0⟩
  let s := SecureDatagramSession.new (.zero 32) 1 0 "aes-gcm".toList "aes-gcm".toList 0
  let c : ConnState := ⟨2, 1, ⟨.null⟩, some s, [], [], [], [], 0, false⟩
  let hdr : PeerManagerHeader := ⟨1, 2, PacketType.data, 0, 0, 0, 1⟩
  let call : SealCall := ⟨s, .aToB, 500, hdr, [7]⟩
  let a : Aead := ⟨.aes128Gcm, (key128 (.zero 32)).val, (key128 (.zero 32)).property⟩
  obtain ⟨ct, hct⟩ := a.sealed_short (packetNonce 0 0) (by decide : ([7] : Bytes).length < _)
    (by decide : ([] : Bytes).length < _)
  have hct := okOr_eq_ok.mp hct
  have hflag : hdr.isEncrypted = false := by decide
  have hnonce : s.nextNonce .aToB 500 = ((s.nextNonce .aToB 500).1, 0, 0) := by
    unfold SecureDatagramSession.nextNonce SecureDatagramSession.maybeRotateEpoch
    rw [if_pos (by decide)]
    rfl
  have hcipher : (s.nextNonce .aToB 500).1.getOrCreateCipher H 0 .aToB true = .ok ⟨.aead a⟩ := by
    unfold SecureDatagramSession.nextNonce SecureDatagramSession.maybeRotateEpoch
    rw [if_pos (by decide)]
    rfl
  let sealed := (hdr.setEncrypted true, ct ++ (packetNonce 0 0).val)
  have hresult : call.result H = .ok sealed := congrArg Prod.snd
    (SecureDatagramSession.encryptPayload_sealed rfl hnonce hcipher hflag hct)
  have hsealed : Sealed H [call] s .aToB [7] sealed.2 :=
    ⟨call, List.mem_singleton_self _, rfl, rfl, rfl, sealed.1, hresult⟩
  have hopen := (PacketEncryptor.decryptPacket_aead
    (PeerManagerHeader.isEncrypted_setEncrypted hdr true)).mp
      (PacketEncryptor.decryptPacket_encrypted hflag
        ((PacketEncryptor.encryptPacket_aead hflag).mpr ⟨ct, hct, rfl, rfl⟩))
  refine ⟨H, sealed, hresult, ?_⟩
  refine handedOver_authentic H [call] c _ (fun session hsession => ?_) (fun p hp => ?_)
    (fun p hp => ?_)
  · cases hsession
    decide
  · rw [List.mem_singleton.mp hp]
    intro _ session hsession a' text hcipher' htext
    cases hsession
    rw [PacketEncryptor.tailNonce_append, nonceEpoch_packetNonce] at hcipher'
    have hsame : (⟨.aead a⟩ : PacketEncryptor) = ⟨.aead a'⟩ := Except.ok.inj hcipher'
    cases hsame
    rw [hopen.2.1] at htext
    cases htext
    exact hsealed
  · rw [List.mem_singleton.mp hp]
    intro session hpresents
    cases hpresents.2.1
    exact ⟨fun _ => PeerManagerHeader.isEncrypted_setEncrypted hdr true, .inl ⟨_, hsealed⟩⟩

/-- 28 bytes that nobody sealed, in a frame without the flag, are handed over. -/
theorem handedOver_unflagged :
    let H : Hashes := ⟨fun _ => .zero 16, fun _ => .zero 32, fun _ _ => .zero 20,
      fun _ _ => .zero 32, fun _ _ => .zero 32, fun _ => 0⟩
    let s := SecureDatagramSession.new (.zero 32) 1 0 "aes-gcm".toList "aes-gcm".toList 0
    let c : ConnState := ⟨2, 1, ⟨.null⟩, some s, [], [], [], [], 0, false⟩
    let e := LinkEvent.frame 1000 true
      ⟨⟨1, 2, PacketType.data, 0, 0, 0, 28⟩, List.replicate 28 0⟩
    c.UsesAead ∧ (∀ p ∈ Machine.steps (onLink H) c [e], p.1.Unforged H [] p.2) ∧
      ¬ ∀ p ∈ Machine.steps (onLink H) c [e], p.1.Authentic H [] p.2 := by
  intro H s c e
  refine ⟨fun session hsession => ?_, fun p hp => ?_, fun hall => ?_⟩
  · cases hsession
    decide
  · rw [List.mem_singleton.mp hp]
    exact fun hflag => absurd hflag (by decide)
  · have hover : c.handedOver H e = [List.replicate 28 0] := by decide +kernel
    have hauth := (hall (c, e) (List.mem_singleton_self _) s rfl).1
    rw [hover] at hauth
    obtain ⟨-, call, hcall, -⟩ := hauth _ (List.mem_singleton_self _)
    exact List.not_mem_nil hcall

end ConnState

end RustCrash.EasyTier
