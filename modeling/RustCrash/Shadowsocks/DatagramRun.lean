import RustCrash.Lib.PacketIds
import RustCrash.Shadowsocks.Datagram

/-
  A client and a server with one user that exchange datagrams, in both directions.

  Every datagram is read back, and no two 2022 packets of a session have one nonce, where the
  clocks are near and the counters do not run out. The parser of the client is another matter: it
  panics on a padding that overruns, and only there (`datagrams_iff`).
-/

namespace RustCrash.Shadowsocks

open Lib Proto

variable {method : SsMethod}

/-! ## Runs -/

/-- The client, and what the server has of it. -/
structure Link (method : SsMethod) where
  client : SsUdp method
  crypto : UdpCrypto

def Link.start (key : ByteVec method.keyLen) (session drawn : UInt64) : Link method :=
  ⟨SsUdp.bind key session, UdpCrypto.new drawn⟩

/-- A datagram, with what the two ends draw for it and the seconds on their clocks. -/
inductive Exchange (method : SsMethod) where
  | up (target : NetAddr) (payload : Bytes) (salt : ByteVec method.keyLen)
      (sentAt openedAt drawn redrawn : UInt64)
  | down (origin : NetAddr) (payload : Bytes) (salt : ByteVec method.keyLen) (sealedAt : UInt64)

def Exchange.isUp : Exchange method → Bool
  | up .. => true
  | down .. => false

section Runs

variable (H : Hashes) (blake3 : Bytes → ByteVec 32) (s : SsUdpServer method)

namespace Link

def step (l : Link method) : Exchange method → Link method
  | .up target payload salt sentAt openedAt drawn redrawn =>
    let (client, packet) := l.client.send H salt sentAt target payload
    match packet with
    | .error _ => ⟨client, l.crypto⟩
    | .ok packet => ⟨client, (s.openDatagram H blake3 l.crypto packet openedAt drawn redrawn).1⟩
  | .down origin payload salt sealedAt =>
    ⟨l.client, (s.sealDatagram H l.crypto salt sealedAt origin payload).1⟩

/-- The datagram is made, and the other end reads what it was made of. -/
def RoundTrips (l : Link method) : Exchange method → Prop
  | .up target payload salt sentAt openedAt drawn redrawn =>
    ∃ packet, (l.client.send H salt sentAt target payload).2 = .ok packet ∧
      (s.openDatagram H blake3 l.crypto packet openedAt drawn redrawn).2 = .ok (target, payload)
  | .down origin payload salt sealedAt =>
    ∃ packet, (s.sealDatagram H l.crypto salt sealedAt origin payload).2 = .ok packet ∧
      l.client.recvDatagram H packet = some (some (origin, payload))

/-- The session and the AEAD nonce of a 2022 packet. -/
def nonce (l : Link method) : Exchange method → Option (UInt64 × ByteVec 12)
  | .up .. =>
    if method.is2022 then
      let (client, _, plain) := l.client.separateHeader
      some (client.sessionId, headerNonce plain)
    else none
  | .down .. =>
    if method.is2022 then
      let c := SsUdpServer.nextPacket l.crypto
      (s.sealing H c).toOption.map fun (_, _, nonce) => (c.serverSessionId, nonce)
    else none

/-- An address that the wire form holds, a body that the AEAD takes, and for a packet of a 2022
    client near clocks and a packet id that is left. -/
def Regular (l : Link method) : Exchange method → Prop
  | .up target payload _ sentAt openedAt _ _ =>
    HostForm.Wirable target.host ∧
      (if method.is2022 then 11 else 0) + (addressed target payload).length ≤ method.kind.maxPlain ∧
      (method.is2022 = true → UdpCrypto.absDiff openedAt sentAt ≤ UdpCrypto.udpTsWindow ∧
        l.client.packetId.toNat + 1 < 2 ^ 64)
  | .down origin payload _ _ =>
    HostForm.Wirable origin.host ∧
      (if method.is2022 then 19 else 0) + (addressed origin payload).length ≤ method.kind.maxPlain

end Link

/-- What a run finds at each exchange. -/
def exchanges (l : Link method) (run : List (Exchange method)) :
    List (Link method × Exchange method) :=
  Machine.steps (Link.step H blake3 s) l run

def FreshNonces (l : Link method) (run : List (Exchange method)) : Prop :=
  ((exchanges H blake3 s l run).filterMap fun x => x.1.nonce H s x.2).Nodup

/-- Replies are no more than there are packet ids, and none is sealed in the session of the
    client, if that sends anything. -/
def Separate (l : Link method) (run : List (Exchange method)) : Prop :=
  (run.filter (!·.isUp)).length ≤ 2 ^ 64 ∧
    ((∃ x ∈ run, x.isUp = true) → ∀ x ∈ exchanges H blake3 s l run,
      x.2.isUp = false → x.1.crypto.serverSessionId ≠ x.1.client.sessionId)

end Runs

/-! ## The replay window -/

/-- The last packet id, and the highest, is `id`. -/
def ReplayWindow.Ends (w : ReplayWindow) (id : UInt64) : Prop :=
  w.started = false ∧ w.seen = [] ∧ id = 0 ∨
    w.started = true ∧ w.highest = id ∧ ∀ x ∈ w.seen, x ≤ id

theorem ReplayWindow.Ends.accept {w : ReplayWindow} {id : UInt64} (h : w.Ends id) :
    ((w.accept (id + 1)).2 = true ↔ id.toNat + 1 < 2 ^ 64) ∧
      (id.toNat + 1 < 2 ^ 64 → (w.accept (id + 1)).1.Ends (id + 1)) := by
  have hone : (1 : UInt64).toNat = 1 := rfl
  unfold ReplayWindow.accept
  rcases h with ⟨hstarted, hseen, rfl⟩ | ⟨hstarted, hhighest, hseen⟩
  · rw [if_pos hstarted, hseen]
    have hzero : (0 : UInt64).toNat + 1 < 2 ^ 64 := by
      rw [UInt64.toNat_zero]
      omega
    refine ⟨iff_of_true rfl hzero, fun _ => .inr ⟨rfl, rfl, fun x hx => ?_⟩⟩
    rw [List.mem_singleton.mp hx]
    exact UInt64.le_refl _
  · have hid := id.toNat_lt
    have hnext := UInt64.toNat_add id 1
    rw [hone] at hnext
    rw [if_neg (by rw [hstarted]; decide), hhighest]
    by_cases hleft : id.toNat + 1 < 2 ^ 64
    · rw [Nat.mod_eq_of_lt hleft] at hnext
      have hlt : id < id + 1 := UInt64.lt_iff_toNat_lt.mpr (by omega)
      have hnot : id + 1 ∉ w.seen := fun hmem =>
        absurd hlt (UInt64.not_lt.mpr (hseen _ hmem))
      rw [if_neg (by omega), if_neg hnot]
      dsimp only
      rw [if_pos hlt]
      refine ⟨iff_of_true rfl hleft, fun _ => .inr ⟨rfl, rfl, fun x hx => ?_⟩⟩
      dsimp only at hx
      have hmem := List.mem_of_mem_filter hx
      rcases List.mem_cons.mp hmem with rfl | hx
      · exact UInt64.le_refl _
      · exact UInt64.le_trans (hseen x hx) (UInt64.le_of_lt hlt)
    · -- after the last id comes zero, which is too old
      have hzero : (id.toNat + 1) % 2 ^ 64 = 0 := by omega
      have hold : (id + 1).toNat < id.toNat - ReplayWindow.size := by
        unfold ReplayWindow.size
        omega
      rw [if_pos hold]
      exact ⟨iff_of_false Bool.false_ne_true hleft, fun h => absurd h hleft⟩

/-! ## One exchange -/

section Steps

variable {H : Hashes} {blake3 : Bytes → ByteVec 32} {s : SsUdpServer method} {session : UInt64}
  {l : Link method} {x : Exchange method}

/-- A server without a table of users. -/
structure SingleUser (s : SsUdpServer method) : Prop where
  users : s.users = none
  block : s.block = if method.is2022 then some ⟨s.key.val⟩ else none

theorem singleUser_of_bind {key : ByteVec method.keyLen}
    (h : SsUdpServer.bind ⟨method, key, none⟩ = .ok s) : SingleUser s ∧ s.key = key := by
  unfold SsUdpServer.bind at h
  obtain ⟨block, hblock, h⟩ := bind_eq_ok.mp h
  obtain rfl := Except.ok.inj h
  refine ⟨⟨rfl, ?_⟩, rfl⟩
  unfold SsUdpServer.headerCipher at hblock
  dsimp only at hblock ⊢
  by_cases h2022 : method.is2022 = true
  · rw [if_pos h2022] at hblock ⊢
    obtain ⟨cipher, hcipher, hblock⟩ := bind_eq_ok.mp hblock
    rw [← BlockCipher.eq_of_new hcipher]
    exact (Except.ok.inj hblock).symm
  · rw [if_neg h2022] at hblock ⊢
    exact (Except.ok.inj hblock).symm

theorem SingleUser.cipher (h : SingleUser s) (h2022 : method.is2022 = true) :
    s.block = some ⟨s.key.val⟩ := by rw [h.block, if_pos h2022]

theorem SingleUser.replyKey (h : SingleUser s) (c : UdpCrypto) : replyKey s c = s.key := by
  unfold Shadowsocks.replyKey
  rw [h.users]
  rfl

/-- The client's key and cipher are the server's, the server has seen its packets so far, and it
    has no scheme for it but that of the specification. -/
structure Paired (s : SsUdpServer method) (session : UInt64) (l : Link method) : Prop where
  key : l.client.key = s.key
  aesBlock : l.client.aesBlock = s.block
  session : l.client.sessionId = session
  scheme : l.crypto.scheme ≠ some .engineClient
  window : l.crypto.replay.Ends l.client.packetId

theorem paired_start (hs : SingleUser s) (session drawn : UInt64) :
    Paired s session (Link.start s.key session drawn) where
  key := rfl
  aesBlock := hs.block.symm
  session := rfl
  scheme := nofun
  window := .inl ⟨rfl, rfl, rfl⟩

/-- The header of the client's next packet. -/
def Link.header (l : Link method) : Aes.Block :=
  plainHeader l.client.sessionId (l.client.packetId + 1)

variable {salt : ByteVec method.keyLen}

/-- What the server does with a packet of a 2022 client. -/
theorem Paired.open_up (h : Paired s session l) (hs : SingleUser s) (h2022 : method.is2022 = true)
    {sentAt : UInt64} {target : NetAddr} {payload packet : Bytes}
    (hpacket : (l.client.send H salt sentAt target payload).2 = .ok packet)
    (openedAt drawn redrawn : UInt64) :
    s.openDatagram H blake3 l.crypto packet openedAt drawn redrawn =
      l.crypto.admitted .spec l.header redrawn openedAt (clientBody sentAt target payload) := by
  have hblock := h.aesBlock.trans (hs.cipher h2022)
  obtain ⟨ct, hct, rfl⟩ := ((send_2022 h2022 hblock salt sentAt target payload).2 packet).mp hpacket
  unfold SsUdpServer.openDatagram
  rw [if_pos h2022]
  rw [h.key] at hct
  exact open2022_seals h2022 hs.users (hs.cipher h2022) h.scheme hct openedAt drawn redrawn

theorem length_clientBody (now : UInt64) (target : NetAddr) (data : Bytes) :
    (clientBody now target data).length = 11 + (addressed target data).length := by
  unfold clientBody
  rw [List.length_append, List.length_append, List.length_cons, length_be64, length_be16]

theorem length_serverBody (c : UdpCrypto) (now : UInt64) (target : NetAddr) (payload : Bytes) :
    (SsUdpServer.serverBody c now target payload).length =
      19 + (addressed target payload).length := by
  unfold SsUdpServer.serverBody
  rw [List.length_append, List.length_append, List.length_append, List.length_cons, length_be64,
    length_be64, length_be16]

/-- A packet is made if the AEAD takes its plaintext, and what is read from it is the same for
    every such packet. -/
theorem made_and_read {aead : Aead} {nonce : ByteVec 12} {plain wire : Bytes}
    {made read : Bytes → Prop} {good : Prop}
    (hmade : ∀ packet, made packet ↔
      ∃ ct, aead.sealed nonce [] plain = .ok ct ∧ packet = wire ++ ct)
    (hread : ∀ ct, aead.sealed nonce [] plain = .ok ct → (read (wire ++ ct) ↔ good)) :
    (∃ packet, made packet ∧ read packet) ↔ good ∧ plain.length ≤ aead.kind.maxPlain := by
  rw [← Aead.sealed_iff aead nonce]
  constructor
  · rintro ⟨packet, hpacket, hgood⟩
    obtain ⟨ct, hct, rfl⟩ := (hmade packet).mp hpacket
    exact ⟨(hread ct hct).mp hgood, ct, hct⟩
  · rintro ⟨hgood, ct, hct⟩
    exact ⟨_, (hmade _).mpr ⟨ct, hct, rfl⟩, (hread ct hct).mpr hgood⟩

theorem Paired.roundTrips_up (h : Paired s session l) (hs : SingleUser s) {target : NetAddr}
    {payload : Bytes} {sentAt openedAt drawn redrawn : UInt64} :
    l.RoundTrips H blake3 s (.up target payload salt sentAt openedAt drawn redrawn) ↔
      l.Regular (.up target payload salt sentAt openedAt drawn redrawn) := by
  unfold Link.RoundTrips Link.Regular
  dsimp only
  by_cases h2022 : method.is2022 = true
  · have hblock := h.aesBlock.trans (hs.cipher h2022)
    have hsent := (send_2022 (H := H) h2022 hblock salt sentAt target payload).2
    have hopens : ∀ ct, Seals H l.client.key l.client.sessionId (l.client.packetId + 1)
        (clientBody sentAt target payload) ct →
        ((s.openDatagram H blake3 l.crypto ((BlockCipher.encrypt ⟨s.key.val⟩ (plainHeader
          l.client.sessionId (l.client.packetId + 1))).val ++ ct) openedAt drawn redrawn).2 =
            .ok (target, payload) ↔
          l.client.packetId.toNat + 1 < 2 ^ 64 ∧
            UdpCrypto.absDiff openedAt sentAt ≤ UdpCrypto.udpTsWindow ∧
              HostForm.Wirable target.host) := by
      intro ct hct
      rw [h.open_up hs h2022 ((hsent _).mpr ⟨ct, hct, rfl⟩)]
      unfold UdpCrypto.admitted Link.header
      dsimp only
      rw [drop_plainHeader, ofBE64_be64, ← parse2022Body_clientBody openedAt sentAt target payload,
        ← h.window.accept.1]
      split_ifs with hnew
      · exact (and_iff_right hnew).symm
      · exact iff_of_false nofun fun hboth => hnew hboth.1
    refine Iff.trans (made_and_read hsent hopens) ?_
    rw [length_clientBody, if_pos h2022]
    constructor
    · rintro ⟨⟨hleft, hdrift, hwirable⟩, hfits⟩
      exact ⟨hwirable, hfits, fun _ => ⟨hdrift, hleft⟩⟩
    · rintro ⟨hwirable, hfits, hnear⟩
      obtain ⟨hdrift, hleft⟩ := hnear h2022
      exact ⟨⟨hleft, hdrift, hwirable⟩, hfits⟩
  · have hsent := (send_legacy (H := H) (c := l.client) h2022 salt sentAt target payload).2
    have hopens : ∀ ct, SealsLegacy H l.client.key salt (addressed target payload) ct →
        ((s.openDatagram H blake3 l.crypto (salt.val ++ ct) openedAt drawn redrawn).2 =
          .ok (target, payload) ↔ HostForm.Wirable target.host) := by
      intro ct hct
      rw [h.key] at hct
      unfold SsUdpServer.openDatagram
      rw [if_neg h2022, ← split_addressed target payload]
      dsimp only
      rw [openLegacy_seals h2022 hct]
    refine Iff.trans (made_and_read hsent hopens) ?_
    rw [if_neg h2022, Nat.zero_add]
    constructor
    · rintro ⟨hwirable, hfits⟩
      exact ⟨hwirable, hfits, fun hm => absurd hm h2022⟩
    · rintro ⟨hwirable, hfits, -⟩
      exact ⟨hwirable, hfits⟩

theorem parseUdpFrame_addressed {addr : NetAddr} {data : Bytes} :
    parseUdpFrame (addressed addr data) = some (some (addr, data)) ↔
      HostForm.Wirable addr.host := by
  rw [parseUdpFrame_eq, ← split_addressed addr data]
  cases UdpCrypto.splitSocksPayload (addressed addr data) with
  | error e => exact iff_of_false nofun nofun
  | ok r =>
    constructor
    · intro h
      exact congrArg Except.ok (Option.some.inj (Option.some.inj h))
    · intro h
      rw [Except.ok.inj h]
      rfl

theorem Paired.roundTrips_down (h : Paired s session l) (hs : SingleUser s) {origin : NetAddr}
    {payload : Bytes} {sealedAt : UInt64} :
    l.RoundTrips H blake3 s (.down origin payload salt sealedAt) ↔
      l.Regular (.down origin payload salt sealedAt) := by
  unfold Link.RoundTrips Link.Regular SsUdpServer.sealDatagram
  dsimp only
  by_cases h2022 : method.is2022 = true
  · have hblock := h.aesBlock.trans (hs.cipher h2022)
    have hsealed := seal2022_ok (H := H) h2022 (hs.cipher h2022) h.scheme sealedAt origin payload
    rw [hs.replyKey, ← h.key] at hsealed
    have hreads : ∀ ct, Seals H l.client.key l.crypto.serverSessionId (l.crypto.serverPacketId + 1)
        (SsUdpServer.serverBody l.crypto sealedAt origin payload) ct →
        (l.client.recvDatagram H ((BlockCipher.encrypt ⟨l.client.key.val⟩ (plainHeader
          l.crypto.serverSessionId (l.crypto.serverPacketId + 1))).val ++ ct) =
            some (some (origin, payload)) ↔ HostForm.Wirable origin.host) := by
      intro ct hct
      rw [← h.key] at hblock
      rw [recvDatagram_seals h2022 hblock hct, parseServerFrame_serverBody]
      exact parseUdpFrame_addressed
    rw [if_pos h2022, if_pos h2022, ← length_serverBody l.crypto sealedAt]
    exact made_and_read hsealed hreads
  · have hsealed := sealLegacy_ok (H := H) (s := s) h2022 salt origin payload
    have hreads : ∀ ct, SealsLegacy H s.key salt (addressed origin payload) ct →
        (l.client.recvDatagram H (salt.val ++ ct) = some (some (origin, payload)) ↔
          HostForm.Wirable origin.host) := by
      intro ct hct
      rw [← h.key] at hct
      rw [recvDatagram_sealsLegacy h2022 hct]
      exact parseUdpFrame_addressed
    rw [if_neg h2022, if_neg h2022, Nat.zero_add]
    exact made_and_read hsealed hreads

theorem Paired.roundTrips_iff (h : Paired s session l) (hs : SingleUser s) :
    l.RoundTrips H blake3 s x ↔ l.Regular x := by
  cases x with
  | up target payload salt sentAt openedAt drawn redrawn => exact h.roundTrips_up hs
  | down origin payload salt sealedAt => exact h.roundTrips_down hs

theorem Paired.step_up (h : Paired s session l) (hs : SingleUser s) (h2022 : method.is2022 = true)
    {target : NetAddr} {payload : Bytes} {sentAt openedAt drawn redrawn : UInt64}
    (hregular : l.Regular (.up target payload salt sentAt openedAt drawn redrawn)) :
    l.step H blake3 s (.up target payload salt sentAt openedAt drawn redrawn) =
      ⟨{ l.client with packetId := l.client.packetId + 1 },
        (l.crypto.admitted .spec l.header redrawn openedAt (clientBody sentAt target payload)).1⟩ := by
  have hround : l.RoundTrips H blake3 s
      (.up target payload salt sentAt openedAt drawn redrawn) := (h.roundTrips_up hs).mpr hregular
  obtain ⟨packet, hpacket, -⟩ := hround
  have hblock := h.aesBlock.trans (hs.cipher h2022)
  have hclient := (send_2022 (H := H) h2022 hblock salt sentAt target payload).1
  have hsend : l.client.send H salt sentAt target payload =
      ({ l.client with packetId := l.client.packetId + 1 }, .ok packet) :=
    Prod.ext hclient hpacket
  unfold Link.step
  dsimp only
  rw [hsend]
  dsimp only
  rw [h.open_up hs h2022 hpacket]

theorem step_down (h2022 : method.is2022 = true) (origin : NetAddr) (payload : Bytes)
    (salt : ByteVec method.keyLen) (sealedAt : UInt64) :
    l.step H blake3 s (.down origin payload salt sealedAt) =
      ⟨l.client, SsUdpServer.nextPacket l.crypto⟩ := by
  unfold Link.step SsUdpServer.sealDatagram
  dsimp only
  rw [if_pos h2022]
  rfl

/-- Legacy datagrams leave nothing behind. -/
theorem step_legacy (hlegacy : ¬ method.is2022 = true) (x : Exchange method) :
    l.step H blake3 s x = l := by
  unfold Link.step SsUdpServer.openDatagram SsUdpServer.sealDatagram
  cases x with
  | up target payload salt sentAt openedAt drawn redrawn =>
    have hclient := (send_legacy (H := H) (c := l.client) hlegacy salt sentAt target payload).1
    rcases hsend : l.client.send H salt sentAt target payload with ⟨client, packet⟩
    rw [hsend] at hclient
    obtain rfl := hclient
    dsimp only
    rw [hsend]
    cases packet with
    | error e => rfl
    | ok packet =>
      dsimp only
      rw [if_neg hlegacy]
  | down origin payload salt sealedAt =>
    dsimp only
    rw [if_neg hlegacy]

theorem Paired.step (h : Paired s session l) (hs : SingleUser s) (hregular : l.Regular x) :
    Paired s session (l.step H blake3 s x) := by
  by_cases h2022 : method.is2022 = true
  · cases x with
    | up target payload salt sentAt openedAt drawn redrawn =>
      obtain ⟨-, -, hnear⟩ := id hregular
      rw [h.step_up hs h2022 hregular]
      refine ⟨h.key, h.aesBlock, h.session, nofun, ?_⟩
      have hwindow := h.window.accept.2 (hnear h2022).2
      unfold UdpCrypto.admitted Link.header
      dsimp only
      rwa [drop_plainHeader, ofBE64_be64]
    | down origin payload salt sealedAt =>
      rw [step_down h2022]
      exact ⟨h.key, h.aesBlock, h.session, h.scheme, h.window⟩
  · rw [step_legacy h2022]
    exact h

/-! ## Nonces -/

/-- The session of the next packet. -/
def Link.sessionOf (l : Link method) : Exchange method → UInt64
  | .up .. => l.client.sessionId
  | .down .. => l.crypto.serverSessionId

/-- The packets before it. -/
def Link.countOf (l : Link method) : Exchange method → UInt64
  | .up .. => l.client.packetId
  | .down .. => l.crypto.serverPacketId

theorem sessionOf_up (h : x.isUp = true) : l.sessionOf x = l.client.sessionId := by
  cases x with
  | up target payload salt sentAt openedAt drawn redrawn => rfl
  | down origin payload salt sealedAt => cases h

theorem sessionOf_down (h : (!x.isUp) = true) : l.sessionOf x = l.crypto.serverSessionId := by
  cases x with
  | up target payload salt sentAt openedAt drawn redrawn => cases h
  | down origin payload salt sealedAt => rfl

theorem countOf_up (h : x.isUp = true) : l.countOf x = l.client.packetId := by
  cases x with
  | up target payload salt sentAt openedAt drawn redrawn => rfl
  | down origin payload salt sealedAt => cases h

theorem countOf_down (h : (!x.isUp) = true) : l.countOf x = l.crypto.serverPacketId := by
  cases x with
  | up target payload salt sentAt openedAt drawn redrawn => cases h
  | down origin payload salt sealedAt => rfl

theorem Paired.nonce_eq (h : Paired s session l) (hs : SingleUser s)
    (h2022 : method.is2022 = true) (x : Exchange method) :
    l.nonce H s x =
      some (l.sessionOf x, headerNonce (plainHeader (l.sessionOf x) (l.countOf x + 1))) := by
  unfold Link.nonce Link.sessionOf Link.countOf
  cases x with
  | up target payload salt sentAt openedAt drawn redrawn =>
    dsimp only
    rw [if_pos h2022]
    rfl
  | down origin payload salt sealedAt =>
    have hscheme : (SsUdpServer.nextPacket l.crypto).scheme ≠ some .engineClient := h.scheme
    dsimp only
    rw [if_pos h2022, sealing_eq h2022 (hs.cipher h2022) hscheme]
    rfl

theorem nonce_injective : Function.Injective fun id : UInt64 × UInt64 =>
    (id.1, headerNonce (plainHeader id.1 (id.2 + 1))) := by
  have hpacket : ∀ a b : UInt64, (headerNonce (plainHeader a b)).val.drop 4 = be64 b := by
    intro a b
    show (slice (plainHeader a b).val 4 12).drop 4 = be64 b
    unfold slice
    rw [List.drop_take, List.drop_drop, drop_plainHeader,
      List.take_of_length_le (by rw [length_be64])]
  rintro ⟨a, b⟩ ⟨a', b'⟩ heq
  obtain ⟨rfl, hnonce⟩ := Prod.mk.inj heq
  have hbytes := congrArg (fun v : ByteVec 12 => v.val.drop 4) hnonce
  dsimp only at hbytes
  rw [hpacket, hpacket] at hbytes
  have hcount := congrArg ofBE64 hbytes
  rw [ofBE64_be64, ofBE64_be64] at hcount
  exact congrArg (Prod.mk a) ((UInt64.add_left_inj 1).mp hcount)

/-- The client counts its packets, and nobody else. -/
theorem Paired.counts_up (h : Paired s session l) (hs : SingleUser s)
    (h2022 : method.is2022 = true) (hregular : l.Regular x) :
    (l.step H blake3 s x).client.packetId =
      if x.isUp = true then l.client.packetId + 1 else l.client.packetId := by
  cases x with
  | up target payload salt sentAt openedAt drawn redrawn =>
    rw [h.step_up hs h2022 hregular]
    rfl
  | down origin payload salt sealedAt =>
    rw [step_down h2022]
    rfl

theorem Paired.counts_down (h : Paired s session l) (hs : SingleUser s)
    (h2022 : method.is2022 = true) (hregular : l.Regular x) :
    (l.step H blake3 s x).crypto.serverPacketId =
      if (!x.isUp) = true then l.crypto.serverPacketId + 1 else l.crypto.serverPacketId := by
  cases x with
  | up target payload salt sentAt openedAt drawn redrawn =>
    rw [h.step_up hs h2022 hregular]
    rfl
  | down origin payload salt sealedAt =>
    rw [step_down h2022]
    rfl

/-- The server leaves the session of the client, and no other. -/
theorem Paired.session_kept (h : Paired s session l) (hs : SingleUser s)
    (h2022 : method.is2022 = true) (hregular : l.Regular x)
    (hother : x.isUp = true → l.crypto.serverSessionId ≠ session) :
    (l.step H blake3 s x).crypto.serverSessionId = l.crypto.serverSessionId := by
  cases x with
  | up target payload salt sentAt openedAt drawn redrawn =>
    rw [h.step_up hs h2022 hregular]
    unfold UdpCrypto.admitted Link.header
    dsimp only
    rw [take_plainHeader, ofBE64_be64, h.session, if_neg (hother rfl)]
  | down origin payload salt sealedAt =>
    rw [step_down h2022]
    rfl

end Steps

/-! ## Runs -/

section Main

variable {H : Hashes} {blake3 : Bytes → ByteVec 32} {s : SsUdpServer method} {session : UInt64}
  {l : Link method} {run : List (Exchange method)}

/-- At every exchange of a regular run the two ends are paired. -/
theorem paired_exchanges (hs : SingleUser s) (hl : Paired s session l)
    (hregular : ∀ x ∈ exchanges H blake3 s l run, x.1.Regular x.2) :
    ∀ x ∈ exchanges H blake3 s l run, Paired s session x.1 := by
  intro x hx
  exact Machine.inv_of_good (Paired s session) Link.Regular
    (fun l x h hreg => h.step hs hreg) hl hregular x.1 (Machine.steps_mem_states hx)

theorem roundTrips_run (hs : SingleUser s) (hl : Paired s session l) :
    (∀ x ∈ exchanges H blake3 s l run, x.1.RoundTrips H blake3 s x.2) ↔
      ∀ x ∈ exchanges H blake3 s l run, x.1.Regular x.2 :=
  Machine.steps_iff_of_good (Paired s session) (fun _ _ h hregular => h.step hs hregular)
    (fun _ _ h => h.roundTrips_iff hs) hl run

theorem freshNonces_iff (hs : SingleUser s) (h2022 : method.is2022 = true)
    (hpaired : ∀ x ∈ exchanges H blake3 s l run, Paired s session x.1) :
    FreshNonces H blake3 s l run ↔
      ((exchanges H blake3 s l run).map fun x => (x.1.sessionOf x.2, x.1.countOf x.2)).Nodup := by
  unfold FreshNonces
  have hnonces : ((exchanges H blake3 s l run).filterMap fun x => x.1.nonce H s x.2) =
      ((exchanges H blake3 s l run).map fun x => (x.1.sessionOf x.2, x.1.countOf x.2)).map
        fun id => (id.1, headerNonce (plainHeader id.1 (id.2 + 1))) := by
    rw [List.map_map, ← List.filterMap_eq_map]
    refine List.filterMap_congr fun x hx => ?_
    rw [(hpaired x hx).nonce_eq hs h2022]
    rfl
  rw [hnonces]
  exact List.nodup_map_iff nonce_injective

/-- The packets of a regular run are those of two ends that count. -/
theorem twoEnds (hs : SingleUser s) (h2022 : method.is2022 = true)
    (hpaired : ∀ x ∈ exchanges H blake3 s l run, Paired s session x.1)
    (hregular : ∀ x ∈ exchanges H blake3 s l run, x.1.Regular x.2)
    (hup : l.client.packetId = 0) (hdown : l.crypto.serverPacketId = 0) :
    TwoEnds (exchanges H blake3 s l run) (·.2.isUp) (fun x => x.1.sessionOf x.2)
      (fun x => x.1.countOf x.2) session 0 where
  session_mine := by
    intro x hx
    obtain ⟨hmem, hmine⟩ := List.mem_filter.mp hx
    exact (sessionOf_up hmine).trans (hpaired x hmem).session
  count_mine := by
    have hcounts := Machine.counts (fun l : Link method => l.client.packetId) Exchange.isUp
      fun x hx => (hpaired x hx).counts_up hs h2022 (hregular x hx)
    rw [hup] at hcounts
    exact (List.map_congr_left fun x hx => countOf_up (List.mem_filter.mp hx).2).trans hcounts
  count_other := by
    have hcounts := Machine.counts (fun l : Link method => l.crypto.serverPacketId)
      (fun x => !Exchange.isUp x) fun x hx => (hpaired x hx).counts_down hs h2022 (hregular x hx)
    rw [hdown] at hcounts
    exact (List.map_congr_left fun x hx => countOf_down (List.mem_filter.mp hx).2).trans hcounts
  settled := by
    have hsettles := Machine.settles (fun l : Link method => l.crypto.serverSessionId)
      (fun l => l.crypto.serverSessionId ≠ session) fun x hx hother => by
        have hkept : (x.1.step H blake3 s x.2).crypto.serverSessionId =
            x.1.crypto.serverSessionId :=
          (hpaired x hx).session_kept hs h2022 (hregular x hx) fun _ => hother
        exact ⟨hkept ▸ hother, hkept⟩
    refine (hsettles.filter _).imp_of_mem fun {x y} hx hy hkept => ?_
    rw [sessionOf_down (List.mem_filter.mp hx).2, sessionOf_down (List.mem_filter.mp hy).2]
    exact hkept
  alone := by
    intro hnone
    have hdowns : ∀ x ∈ exchanges H blake3 s l run, (!x.2.isUp) = true := by
      intro x hx
      rw [Bool.eq_false_of_not_eq_true (List.filter_eq_nil_iff.mp hnone x hx)]
      rfl
    have hkept : ∀ x ∈ exchanges H blake3 s l run,
        (x.1.step H blake3 s x.2).crypto.serverSessionId = x.1.crypto.serverSessionId := by
      intro x hx
      refine (hpaired x hx).session_kept hs h2022 (hregular x hx) fun hmine => ?_
      have hdown := hdowns x hx
      rw [hmine] at hdown
      cases hdown
    have hsettles := Machine.settles (fun l : Link method => l.crypto.serverSessionId)
      (fun _ => True) fun x hx _ => ⟨trivial, hkept x hx⟩
    have hsame : (exchanges H blake3 s l run).Pairwise fun x y =>
        y.1.sessionOf y.2 = x.1.sessionOf x.2 := by
      refine hsettles.imp_of_mem fun {x y} hx hy hkept => ?_
      rw [sessionOf_down (hdowns x hx), sessionOf_down (hdowns y hy)]
      exact hkept trivial
    exact hsame.forall_of_forall_of_flip (fun _ _ => rfl) (hsame.imp Eq.symm)

/-- A run has as many exchanges of a kind as it has steps of them. -/
theorem length_filter_exchanges (p : Exchange method → Bool) :
    ((exchanges H blake3 s l run).filter fun x => p x.2).length = (run.filter p).length := by
  unfold exchanges
  induction run generalizing l with
  | nil => rfl
  | cons x run ih =>
    unfold Machine.steps
    by_cases hp : p x = true
    · rw [List.filter_cons_of_pos (by exact hp), List.filter_cons_of_pos hp, List.length_cons,
        List.length_cons, ih]
    · rw [List.filter_cons_of_neg (by exact hp), List.filter_cons_of_neg hp, ih]

/-- No nonce is used twice in a regular run, exactly if the two ends keep apart. -/
theorem freshNonces_iff_separate (hs : SingleUser s) (h2022 : method.is2022 = true)
    (hl : Paired s session l) (hup : l.client.packetId = 0) (hdown : l.crypto.serverPacketId = 0)
    (hregular : ∀ x ∈ exchanges H blake3 s l run, x.1.Regular x.2) :
    FreshNonces H blake3 s l run ↔ Separate H blake3 s l run := by
  have hpaired := paired_exchanges hs hl hregular
  have hends := twoEnds hs h2022 hpaired hregular hup hdown
  -- each packet of the client leaves a packet id
  have hups : ((exchanges H blake3 s l run).filter (·.2.isUp)).length ≤ 2 ^ 64 := by
    by_contra hmany
    have hlast : UInt64.ofNat (2 ^ 64 - 1) ∈
        ((exchanges H blake3 s l run).filter (·.2.isUp)).map fun x => x.1.countOf x.2 := by
      rw [hends.count_mine]
      refine List.mem_map.mpr ⟨2 ^ 64 - 1, List.mem_range.mpr (by omega), UInt64.zero_add _⟩
    obtain ⟨⟨l', x⟩, hx, hcount⟩ := List.mem_map.mp hlast
    obtain ⟨hmem, hmine⟩ := List.mem_filter.mp hx
    rw [countOf_up hmine] at hcount
    cases x with
    | up target payload salt sentAt openedAt drawn redrawn =>
      obtain ⟨-, -, hnear⟩ := hregular _ hmem
      have hleft := (hnear h2022).2
      dsimp only at hcount hleft
      rw [hcount, UInt64.toNat_ofNat'] at hleft
      omega
    | down origin payload salt sealedAt => cases hmine
  rw [freshNonces_iff hs h2022 hpaired, hends.nodup_iff hups, length_filter_exchanges fun x => !x.isUp]
  unfold Separate
  refine and_congr_right fun _ => imp_congr ?_ (forall_congr' fun x => ?_)
  · rw [← List.length_pos_iff_ne_nil, length_filter_exchanges, List.length_pos_iff_exists_mem]
    exact exists_congr fun _ => List.mem_filter
  · rw [List.mem_filter, and_imp]
    refine forall_congr' fun hmem => ?_
    have hflag : (!x.2.isUp) = true ↔ x.2.isUp = false := by
      cases x.2.isUp <;> decide
    rw [hflag, (hpaired x hmem).session]
    refine forall_congr' fun hother => ?_
    rw [sessionOf_down (hflag.mpr hother)]

theorem freshNonces_legacy (hlegacy : ¬ method.is2022 = true) : FreshNonces H blake3 s l run := by
  have hnone : ((exchanges H blake3 s l run).filterMap fun x => x.1.nonce H s x.2) = [] := by
    refine List.filterMap_eq_nil_iff.mpr fun x _ => ?_
    unfold Link.nonce
    cases x.2 with
    | up target payload salt sentAt openedAt drawn redrawn =>
      dsimp only
      rw [if_neg hlegacy]
    | down origin payload salt sealedAt =>
      dsimp only
      rw [if_neg hlegacy]
  unfold FreshNonces
  rw [hnone]
  exact List.nodup_nil

end Main

/-- Every datagram of a run comes back, no nonce is used twice, and the client's parser stays
    within the bounds of a body, exactly if the run is regular, the ends of a 2022 run keep apart,
    and the padding of the body does not overrun. -/
theorem datagrams_iff (H : Hashes) (blake3 : Bytes → ByteVec 32) {key : ByteVec method.keyLen}
    {s : SsUdpServer method} (hbind : SsUdpServer.bind ⟨method, key, none⟩ = .ok s)
    (session drawn : UInt64) (run : List (Exchange method)) (body : Bytes) :
    (∀ x ∈ exchanges H blake3 s (Link.start key session drawn) run,
        x.1.RoundTrips H blake3 s x.2) ∧
      FreshNonces H blake3 s (Link.start key session drawn) run ∧ parseServerFrame body ≠ none ↔
    (∀ x ∈ exchanges H blake3 s (Link.start key session drawn) run, x.1.Regular x.2) ∧
      (method.is2022 = true → Separate H blake3 s (Link.start key session drawn) run) ∧
      ¬ Overruns body := by
  obtain ⟨hs, rfl⟩ := singleUser_of_bind hbind
  have hstart := paired_start hs session drawn
  rw [roundTrips_run hs hstart, Ne, parseServerFrame_panics]
  refine and_congr_right fun hregular => and_congr_left fun _ => ?_
  by_cases h2022 : method.is2022 = true
  · rw [freshNonces_iff_separate hs h2022 hstart rfl rfl hregular]
    exact ⟨fun hseparate _ => hseparate, fun hseparate => hseparate h2022⟩
  · exact iff_of_true (freshNonces_legacy h2022) fun h => absurd h h2022

/-- A server with a key of zeros. -/
def zeroServer : SsUdpServer .blake3Aes128Gcm :=
  ⟨.zero 16, none, some ⟨(ByteVec.zero 16).val⟩⟩

/-- A reply, and then a packet of the client. -/
def sampleRun : List (Exchange .blake3Aes128Gcm) :=
  [.down ⟨.domain ['a'], 53⟩ [7] (.zero 16) 1000,
    .up ⟨.domain ['b'], 53⟩ [8] (.zero 16) 1000 1030 1 2]

theorem datagrams_iff_sample :
    (∀ x ∈ exchanges zeroHashes (fun _ => .zero 32) zeroServer (Link.start (.zero 16) 3 5)
        sampleRun, x.1.RoundTrips zeroHashes (fun _ => .zero 32) zeroServer x.2) ∧
      FreshNonces zeroHashes (fun _ => .zero 32) zeroServer (Link.start (.zero 16) 3 5)
        sampleRun ∧ parseServerFrame (1 :: List.replicate 18 0) ≠ none := by
  have hbind : SsUdpServer.bind ⟨.blake3Aes128Gcm, .zero 16, none⟩ = .ok zeroServer := rfl
  refine (datagrams_iff zeroHashes (fun _ => .zero 32) hbind 3 5 sampleRun
    (1 :: List.replicate 18 0)).mpr ⟨?_, fun _ => ⟨?_, fun _ => ?_⟩, ?_⟩
  · refine List.forall_mem_cons.mpr ⟨?_, List.forall_mem_singleton.mpr ?_⟩
    · exact ⟨⟨by decide, rfl⟩, by decide⟩
    · exact ⟨⟨by decide, rfl⟩, by decide, fun _ => by decide⟩
  · decide
  · refine List.forall_mem_cons.mpr ⟨fun _ => ?_, List.forall_mem_singleton.mpr nofun⟩
    decide
  · unfold Overruns
    decide

/-- A body of nineteen bytes that announces one byte of padding, and a datagram that carries it. -/
theorem padding_panics : parseServerFrame (1 :: List.replicate 16 0 ++ [0, 1]) = none ∧
    ∃ ct, (SsUdp.bind (.zero 16) 3 : SsUdp .blake3Aes128Gcm).recvDatagram zeroHashes
      ((BlockCipher.encrypt ⟨(ByteVec.zero 16).val⟩ (plainHeader 5 1)).val ++ ct) = none := by
  have hpanics : parseServerFrame (1 :: List.replicate 16 0 ++ [0, 1]) = none := by decide
  have hsealed : ∃ ct, Seals zeroHashes zeroServer.key 5 1
      (1 :: List.replicate 16 0 ++ [0, 1]) ct :=
    Aead.sealed_short _ _ (by decide) (by decide)
  obtain ⟨ct, hct⟩ := hsealed
  refine ⟨hpanics, ct, ?_⟩
  rw [recvDatagram_seals rfl rfl hct]
  exact hpanics

end RustCrash.Shadowsocks
