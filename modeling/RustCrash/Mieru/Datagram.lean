import RustCrash.Mieru.Receive

/-
  The datagrams of the packet transport: the sealed metadata in front, and behind it the sealed
  payload among its paddings.

  The paddings never make a datagram longer than the MTU, and its metadata is read as it was laid
  out. `ingest` wants a sealed block behind the metadata whatever the length of the payload, and
  for an empty payload the writer puts none there.
-/

namespace RustCrash.Mieru

open Lib

/-! ## The cipher -/

/-- `StatelessCipher`: every datagram has a nonce of its own. -/
structure StatelessCipher where
  key : ByteVec 32
  username : Bytes

-- SHA-256
variable (sha256 : Bytes → ByteVec 32)

namespace StatelessCipher

/-- `encrypt_with_nonce`. -/
def encryptWithNonce (c : StatelessCipher) (nonce : ByteVec 24) (plaintext : Bytes) :
    Result Bytes :=
  okOr (ChaChaPoly.xencrypt c.key nonce plaintext []) (.crypto "mieru: encryption failed")

/-- `new_nonce`; `rng` is what the random generator gives. -/
def newNonce (c : StatelessCipher) (rng : ByteVec 24) : ByteVec 24 :=
  applyUserHint sha256 c.username rng

/-- `encrypt`, with the nonce that stands in front of its result. -/
def encrypt (c : StatelessCipher) (rng : ByteVec 24) (plaintext : Bytes) :
    Result (ByteVec 24 × Bytes) := do
  let nonce := c.newNonce sha256 rng
  let ct ← c.encryptWithNonce nonce plaintext
  return (nonce, nonce.val ++ ct)

end StatelessCipher

/-! ## Padding -/

def packetMaxPadding (payloadLen existing : Nat) : Nat :=
  let res : Int := (defaultMtu : Int) - payloadLen - packetOverhead - existing
  (max 0 (min res 255)).toNat

def packetSessionPaddingLen (username : Bytes) (limit : Nat) : Nat :=
  let digest := (sha256 username).val
  let least := 24 + (digest.getD 0 0).toNat % 17
  if limit < least then 0 else least + (digest.getD 1 0).toNat % (limit - least + 1)

/-- `draw` is the random byte. -/
def packetDataPaddingLen (draw : UInt8) (limit : Nat) : Nat :=
  if limit = 0 then 0 else draw.toNat % (limit + 1)

/-- The random numbers that go into a datagram. -/
structure PacketDraws where
  nonce : ByteVec 24
  prefixDraw : UInt8
  suffixDraw : UInt8
  prefixBytes : (n : Nat) → ByteVec n
  suffixBytes : (n : Nat) → ByteVec n

/-! ## The two layouts -/

/-- The sealed payload; an empty one has none. -/
def sealedBody (c : StatelessCipher) (nonce : ByteVec 24) (payload : Bytes) : Result Bytes :=
  if payload ≠ [] then c.encryptWithNonce nonce payload else .ok []

/-- `ts` is the time in minutes. -/
def buildSessionWire (c : StatelessCipher) (sessionId ts : UInt32) (d : PacketDraws)
    (protocol : UInt8) (seq : UInt32) (status : UInt8) (payload : Bytes) : Result Bytes := do
  let maxPad := packetMaxPadding payload.length 0
  let suffix := packetSessionPaddingLen sha256 c.username maxPad
  let block := sessionStruct ts protocol sessionId seq status (UInt16.ofNat payload.length)
    (UInt8.ofNat suffix)
  let (nonce, wire) ← c.encrypt sha256 d.nonce block
  let body ← sealedBody c nonce payload
  return wire ++ body ++ (d.suffixBytes suffix).val

def buildDataWire (c : StatelessCipher) (sessionId ts : UInt32) (d : PacketDraws)
    (protocol : UInt8) (seq unAck : UInt32) (window : UInt16) (fragment : UInt8)
    (payload : Bytes) : Result Bytes := do
  let before := packetDataPaddingLen d.prefixDraw (packetMaxPadding payload.length 0)
  let suffix := packetDataPaddingLen d.suffixDraw (packetMaxPadding payload.length before)
  let block := dataAckStruct ts protocol sessionId seq unAck window fragment (UInt8.ofNat before)
    (UInt16.ofNat payload.length) (UInt8.ofNat suffix)
  let (nonce, wire) ← c.encrypt sha256 d.nonce block
  let body ← sealedBody c nonce payload
  return wire ++ (d.prefixBytes before).val ++ body ++ (d.suffixBytes suffix).val

/-! ## Segments -/

/-- A segment of one of the layouts. -/
inductive PacketSeg where
  | session (protocol : UInt8) (seq : UInt32) (status : UInt8) (payload : Bytes)
  | data (protocol : UInt8) (seq unAck : UInt32) (window : UInt16) (fragment : UInt8)
    (payload : Bytes)

namespace PacketSeg

def protocol : PacketSeg → UInt8
  | session p _ _ _ => p
  | data p _ _ _ _ _ => p

def payload : PacketSeg → Bytes
  | session _ _ _ p => p
  | data _ _ _ _ _ p => p

/-- A segment of the server, of a length that the writer makes. -/
def FromServer : PacketSeg → Prop
  | session p _ _ payload =>
    (p = openSessionResponse ∨ p = closeSessionRequest ∨ p = closeSessionResponse) ∧
      payload.length ≤ maxSessionOpenPayload
  | data p _ _ _ _ payload =>
    (p = dataServerToClient ∨ p = ackServerToClient) ∧ payload.length ≤ maxFragment

def build (c : StatelessCipher) (sessionId ts : UInt32) (d : PacketDraws) :
    PacketSeg → Result Bytes
  | session p seq status payload => buildSessionWire sha256 c sessionId ts d p seq status payload
  | data p seq unAck window fragment payload =>
    buildDataWire sha256 c sessionId ts d p seq unAck window fragment payload

/-- The metadata of the segment, as the reader has it; the byte of the status is the first of the
    acknowledgement in a data segment. -/
def metadata (c : StatelessCipher) (sessionId : UInt32) (d : PacketDraws) :
    PacketSeg → InboundMeta
  | session p seq status payload =>
    { protocol := p, sessionId, seq, status, payloadLen := UInt16.ofNat payload.length
      suffixLen := UInt8.ofNat (packetSessionPaddingLen sha256 c.username
        (packetMaxPadding payload.length 0))
      prefixLen := 0, unAck := 0, window := 0 }
  | data p seq unAck window _ payload =>
    let before := packetDataPaddingLen d.prefixDraw (packetMaxPadding payload.length 0)
    { protocol := p, sessionId, seq, status := (be32 unAck).getD 0 0
      payloadLen := UInt16.ofNat payload.length
      suffixLen := UInt8.ofNat (packetDataPaddingLen d.suffixDraw
        (packetMaxPadding payload.length before))
      prefixLen := UInt8.ofNat before, unAck, window }

end PacketSeg

namespace PacketEngine

variable {F : Type}

/-- What `ingest` makes of the body: the payload of an open response or of data comes out as it
    was, a close request has the right length, and nothing looks at the others. -/
def Accepts (s : PacketEngine F) (m : InboundMeta) (nonce : ByteVec 24) (rest payload : Bytes) :
    Prop :=
  if m.protocol = openSessionResponse ∨ m.protocol = dataServerToClient then
    s.dataIn m nonce rest = some (m.seq, payload)
  else if m.protocol = closeSessionRequest then
    rest.length = m.payloadLen.toNat + tagSize + m.suffixLen.toNat
  else True

end PacketEngine

/-- The datagram of `seg` fits the MTU, its metadata is read as it was, and `ingest` accepts its
    body. -/
def Carried {F : Type} (s : PacketEngine F) (c : StatelessCipher) (sessionId ts now : UInt32)
    (d : PacketDraws) (seg : PacketSeg) : Prop :=
  ∃ wire nonce, seg.build sha256 c sessionId ts d = .ok wire ∧ wire.length ≤ 1400 ∧
    PacketEngine.parseDatagramWith c.key now wire =
      some (seg.metadata sha256 c sessionId d, nonce) ∧
    s.Accepts (seg.metadata sha256 c sessionId d) nonce (wire.drop packetNonHeaderPosition)
      seg.payload

/-! ## Lengths -/

theorem packetMaxPadding_le (payloadLen existing : Nat) :
    packetMaxPadding payloadLen existing ≤ 255 ∧
      packetMaxPadding payloadLen existing ≤ maxFragment - payloadLen - existing := by
  unfold packetMaxPadding maxFragment
  simp only [defaultMtu, packetOverhead, nonceSize, metadataLength, tagSize]
  omega

theorem packetSessionPaddingLen_le (username : Bytes) (limit : Nat) :
    packetSessionPaddingLen sha256 username limit ≤ limit := by
  unfold packetSessionPaddingLen
  dsimp only
  split_ifs with h
  · exact Nat.zero_le _
  · generalize 24 + ((sha256 username).val.getD 0 0).toNat % 17 = least at h ⊢
    have hdraw : ((sha256 username).val.getD 1 0).toNat % (limit - least + 1) < limit - least + 1 :=
      Nat.mod_lt _ (Nat.succ_pos _)
    omega

theorem packetDataPaddingLen_le (draw : UInt8) (limit : Nat) :
    packetDataPaddingLen draw limit ≤ limit := by
  unfold packetDataPaddingLen
  split_ifs
  · exact Nat.zero_le _
  · exact Nat.le_of_lt_succ (Nat.mod_lt _ (Nat.succ_pos limit))

/-! ## The body -/

variable {c : StatelessCipher} {nonce : ByteVec 24}

theorem sealedBody_short {payload : Bytes} (h : payload.length < 2 ^ 16) (nonce : ByteVec 24) :
    ∃ body, sealedBody c nonce payload = .ok body ∧
      body.length = if payload = [] then 0 else payload.length + tagSize := by
  unfold sealedBody
  by_cases hempty : payload = []
  · rw [if_neg (not_not.mpr hempty), if_pos hempty]
    exact ⟨[], rfl, rfl⟩
  · obtain ⟨ct, hct⟩ : ∃ ct, ChaChaPoly.xencrypt c.key nonce payload [] = some ct :=
      ChaChaPoly.encrypt_short _ _ [] (by omega)
    rw [if_pos hempty, if_neg hempty, StatelessCipher.encryptWithNonce, hct]
    exact ⟨ct, rfl, StatefulCipher.xencrypt_length hct⟩

/-- A block is wanted even for an empty payload, for which none is sealed. -/
theorem openPayload_iff {F : Type} {s : PacketEngine F} (hkey : s.key = c.key) {m : InboundMeta}
    {payload body suffix : Bytes} (hbody : sealedBody c nonce payload = .ok body)
    (hlen : m.payloadLen.toNat = payload.length) (hsuffix : suffix.length = m.suffixLen.toNat) :
    s.openPayload m nonce (body ++ suffix) = some payload ↔ payload ≠ [] := by
  unfold PacketEngine.openPayload
  unfold sealedBody at hbody
  dsimp only
  by_cases hempty : payload = []
  · rw [if_neg (not_not.mpr hempty)] at hbody
    obtain rfl := Except.ok.inj hbody
    rw [hlen, hempty, List.nil_append, hsuffix, if_neg]
    · exact iff_of_false nofun (not_not.mpr rfl)
    · simp only [List.length_nil, tagSize]
      omega
  · rw [if_pos hempty] at hbody
    have hseal := okOr_eq_ok.mp hbody
    have hct := StatefulCipher.xencrypt_length hseal
    rw [List.length_append, hct, hlen, hsuffix, if_pos rfl, List.take_left' hct, hkey,
      ChaChaPoly.xopen_seal hseal]
    exact iff_of_true rfl hempty

/-- The protocols of the server's segments. -/
inductive ServerProtocol : UInt8 → Bool → Prop where
  | opened : ServerProtocol openSessionResponse true
  | closing : ServerProtocol closeSessionRequest true
  | closed : ServerProtocol closeSessionResponse true
  | data : ServerProtocol dataServerToClient false
  | ack : ServerProtocol ackServerToClient false

theorem accepts_iff {F : Type} {s : PacketEngine F} (hkey : s.key = c.key) {m : InboundMeta}
    {payload body before suffix : Bytes} {session : Bool}
    (hbody : sealedBody c nonce payload = .ok body) (hlen : m.payloadLen.toNat = payload.length)
    (hshort : payload.length < 2 ^ 16) (hbefore : before.length = m.prefixLen.toNat)
    (hsuffix : suffix.length = m.suffixLen.toNat) (hm : ServerProtocol m.protocol session)
    (hsession : session = true → before = []) :
    s.Accepts m nonce (before ++ (body ++ suffix)) payload ↔
      payload ≠ [] ∨ m.protocol = ackServerToClient ∨ m.protocol = closeSessionResponse := by
  have hopen := openPayload_iff hkey hbody hlen hsuffix
  have hmap : (s.openPayload m nonce (body ++ suffix)).map (m.seq, ·) = some (m.seq, payload) ↔
      payload ≠ [] := by
    rw [← hopen, Option.map_eq_some_iff]
    constructor
    · rintro ⟨p, hp, heq⟩
      rw [hp, (Prod.mk.inj heq).2]
    · intro h
      exact ⟨payload, h, rfl⟩
  obtain ⟨body', hbody', hbodyLen⟩ := sealedBody_short hshort nonce
  obtain rfl : body = body' := Except.ok.inj (hbody.symm.trans hbody')
  generalize hp : m.protocol = p at hm
  unfold PacketEngine.Accepts PacketEngine.dataIn
  rw [hp]
  cases hm with
  | opened =>
    rw [hsession rfl, List.nil_append, if_pos (.inl rfl), if_pos rfl, hmap]
    exact (or_iff_left (by decide)).symm
  | closing =>
    rw [hsession rfl, List.nil_append, if_neg (by decide), if_pos rfl, List.length_append, hsuffix,
      hlen, hbodyLen, or_iff_left (by decide)]
    by_cases hempty : payload = []
    · rw [if_pos hempty, hempty]
      refine iff_of_false ?_ (not_not.mpr rfl)
      simp only [List.length_nil, tagSize]
      omega
    · rw [if_neg hempty]
      exact iff_of_true rfl hempty
  | closed =>
    rw [if_neg (by decide), if_neg (by decide)]
    exact iff_of_true trivial (.inr (.inr rfl))
  | data =>
    have hfits : m.prefixLen.toNat ≤ (before ++ (body ++ suffix)).length := by
      rw [List.length_append, hbefore]
      exact Nat.le_add_right _ _
    rw [if_pos (.inr rfl), if_neg (by decide), if_pos ⟨rfl, hfits⟩, List.drop_left' hbefore, hmap]
    exact (or_iff_left (by decide)).symm
  | ack =>
    rw [if_neg (by decide), if_neg (by decide)]
    exact iff_of_true trivial (.inr (.inl rfl))

/-! ## The whole datagram -/

/-- Either layout, once its parts are known: the metadata, and a body of the lengths it gives. -/
theorem layout_iff {F : Type} {s : PacketEngine F} (hkey : s.key = c.key) {now : UInt32}
    {m : InboundMeta} {plain ct payload body : Bytes} (before suffix : Bytes) {session : Bool}
    (hparse : parseMetadata now plain = .ok m)
    (hct : ChaChaPoly.xencrypt c.key nonce plain [] = some ct)
    (hbody : sealedBody c nonce payload = .ok body) (hlen : m.payloadLen.toNat = payload.length)
    (hbefore : before.length = m.prefixLen.toNat) (hsuffix : suffix.length = m.suffixLen.toNat)
    (hroom : payload.length + before.length + suffix.length ≤ maxFragment)
    (hm : ServerProtocol m.protocol session) (hsession : session = true → before = []) :
    (nonce.val ++ ct ++ (before ++ (body ++ suffix))).length ≤ 1400 ∧
      PacketEngine.parseDatagramWith c.key now (nonce.val ++ ct ++ (before ++ (body ++ suffix))) =
        some (m, nonce) ∧
      (s.Accepts m nonce ((nonce.val ++ ct ++ (before ++ (body ++ suffix))).drop
        packetNonHeaderPosition) payload ↔
          payload ≠ [] ∨ m.protocol = ackServerToClient ∨ m.protocol = closeSessionResponse) := by
  have hroom' : payload.length + before.length + suffix.length ≤ 1312 := hroom
  have hfront : (nonce.val ++ ct).length = packetNonHeaderPosition := by
    rw [List.length_append, ByteVec.length_val, StatefulCipher.xencrypt_length hct,
      (parseMetadata_eq_ok.mp hparse).1]
    rfl
  obtain ⟨body', hbody', hbodyLen⟩ :=
    sealedBody_short (show payload.length < 2 ^ 16 by omega) nonce
  obtain rfl : body = body' := Except.ok.inj (hbody.symm.trans hbody')
  refine ⟨?_, PacketEngine.parseDatagramWith_sealed hparse hct _, ?_⟩
  · have hle : body.length ≤ payload.length + 16 := by
      rw [hbodyLen]
      split_ifs
      · exact Nat.zero_le _
      · exact Nat.le_refl _
    rw [List.length_append, hfront, List.length_append, List.length_append]
    simp only [packetNonHeaderPosition, nonceSize, metadataLength, tagSize]
    omega
  · rw [List.drop_left' hfront]
    exact accepts_iff hkey hbody hlen (by omega) hbefore hsuffix hm hsession

theorem status_metadataFields (b : Bytes) : (metadataFields b).status = b.getD 14 0 := by
  unfold metadataFields
  dsimp only
  split_ifs <;> rfl

/-- The whole of a data block, the byte of the status included. -/
theorem parse_dataAckStruct_all {now ts : UInt32} {protocol : UInt8}
    {sessionId seq unAck : UInt32} {window : UInt16} {fragment prefixLen : UInt8}
    {payloadLen : UInt16} {suffixLen : UInt8} (hp : ¬ isSessionProtocol protocol)
    (hts : timestampOk now ts) :
    parseMetadata now (dataAckStruct ts protocol sessionId seq unAck window fragment prefixLen
      payloadLen suffixLen) =
      .ok ⟨protocol, sessionId, seq, (be32 unAck).getD 0 0, payloadLen, suffixLen, prefixLen,
        unAck, window⟩ := by
  obtain ⟨status, hparse⟩ := @parse_dataAckStruct now ts protocol sessionId seq unAck window
    fragment prefixLen payloadLen suffixLen hp hts
  have hfields := (parseMetadata_eq_ok.mp hparse).2.2.2
  have hstatus : status = (be32 unAck).getD 0 0 := by
    have h := congrArg InboundMeta.status hfields
    rw [status_metadataFields] at h
    exact h
  rw [hparse, hstatus]

theorem toNat_length {n : Nat} (h : n < 2 ^ 16) : (UInt16.ofNat n).toNat = n := by
  rw [UInt16.toNat_ofNat', Nat.mod_eq_of_lt h]

theorem toNat_padding {n : Nat} (h : n ≤ 255) : (UInt8.ofNat n).toNat = n := by
  rw [UInt8.toNat_ofNat', Nat.mod_eq_of_lt (by omega)]

variable {sha256}

theorem encrypt_metadata (sha256 : Bytes → ByteVec 32) (c : StatelessCipher) (rng : ByteVec 24) {plain : Bytes}
    (h : plain.length = metadataLength) :
    ∃ ct, ChaChaPoly.xencrypt c.key (c.newNonce sha256 rng) plain [] = some ct ∧
      c.encrypt sha256 rng plain =
        .ok (c.newNonce sha256 rng, (c.newNonce sha256 rng).val ++ ct) := by
  obtain ⟨ct, hct⟩ : ∃ ct, ChaChaPoly.xencrypt c.key (c.newNonce sha256 rng) plain [] = some ct :=
    ChaChaPoly.encrypt_short _ _ [] (by rw [h]; decide)
  refine ⟨ct, hct, ?_⟩
  unfold StatelessCipher.encrypt StatelessCipher.encryptWithNonce
  dsimp only
  rw [hct]
  rfl

/-- A datagram of the writer, and what the reader makes of it. -/
def ReadBack {F : Type} (s : PacketEngine F) (c : StatelessCipher) (now : UInt32)
    (m : InboundMeta) (payload wire : Bytes) : Prop :=
  wire.length ≤ 1400 ∧ ∃ nonce, PacketEngine.parseDatagramWith c.key now wire = some (m, nonce) ∧
    (s.Accepts m nonce (wire.drop packetNonHeaderPosition) payload ↔
      payload ≠ [] ∨ m.protocol = ackServerToClient ∨ m.protocol = closeSessionResponse)

variable {c : StatelessCipher}

theorem session_readBack {F : Type} {s : PacketEngine F} (hkey : s.key = c.key)
    {sessionId ts now : UInt32} (hts : timestampOk now ts) (d : PacketDraws) {p : UInt8}
    (seq : UInt32) (status : UInt8) {payload : Bytes}
    (h : (PacketSeg.session p seq status payload).FromServer) :
    ∃ wire, buildSessionWire sha256 c sessionId ts d p seq status payload = .ok wire ∧
      ReadBack s c now ((PacketSeg.session p seq status payload).metadata sha256 c sessionId d)
        payload wire := by
  obtain ⟨hp, hlen⟩ := h
  have hlen' : payload.length ≤ 1024 := hlen
  have hm : ServerProtocol p true := by
    rcases hp with rfl | rfl | rfl
    · exact .opened
    · exact .closing
    · exact .closed
  have hsession : isSessionProtocol p = true := by
    rcases hp with rfl | rfl | rfl <;> decide
  have hpad := packetMaxPadding_le payload.length 0
  have hsuffix := packetSessionPaddingLen_le sha256 c.username (packetMaxPadding payload.length 0)
  have hcount := toNat_length (show payload.length < 2 ^ 16 by omega)
  unfold PacketSeg.metadata buildSessionWire
  dsimp only
  generalize packetSessionPaddingLen sha256 c.username
    (packetMaxPadding payload.length 0) = suffix at hsuffix ⊢
  have hsmall := toNat_padding (show suffix ≤ 255 by omega)
  obtain ⟨ct, hct, hencrypt⟩ := encrypt_metadata sha256 c d.nonce
    (length_sessionStruct ts p sessionId seq status (UInt16.ofNat payload.length)
      (UInt8.ofNat suffix))
  obtain ⟨body, hbody, -⟩ := sealedBody_short (c := c) (show payload.length < 2 ^ 16 by omega)
    (c.newNonce sha256 d.nonce)
  have hparse := @parse_sessionStruct now ts p sessionId seq status (UInt16.ofNat payload.length)
    (UInt8.ofNat suffix) hsession hts (by rw [hcount]; exact hlen)
  obtain ⟨hmtu, hread, haccepts⟩ := layout_iff hkey [] (d.suffixBytes suffix).val hparse hct
    hbody hcount rfl (by rw [ByteVec.length_val, hsmall])
    (by
      rw [ByteVec.length_val, List.length_nil]
      simp only [maxFragment, defaultMtu, packetOverhead, nonceSize, metadataLength, tagSize]
        at hpad ⊢
      omega) hm fun _ => rfl
  refine ⟨_, ?_, hmtu, _, hread, haccepts⟩
  rw [hencrypt, bind_ok]
  dsimp only
  rw [hbody, bind_ok, List.nil_append, List.append_assoc _ body]
  rfl

theorem data_readBack {F : Type} {s : PacketEngine F} (hkey : s.key = c.key)
    {sessionId ts now : UInt32} (hts : timestampOk now ts) (d : PacketDraws) {p : UInt8}
    (seq unAck : UInt32) (window : UInt16) (fragment : UInt8) {payload : Bytes}
    (h : (PacketSeg.data p seq unAck window fragment payload).FromServer) :
    ∃ wire, buildDataWire sha256 c sessionId ts d p seq unAck window fragment payload = .ok wire ∧
      ReadBack s c now ((PacketSeg.data p seq unAck window fragment payload).metadata sha256 c
        sessionId d) payload wire := by
  obtain ⟨hp, hlen⟩ := h
  have hlen' : payload.length ≤ 1312 := hlen
  have hm : ServerProtocol p false := by
    rcases hp with rfl | rfl
    · exact .data
    · exact .ack
  have hsession : ¬ isSessionProtocol p = true := by
    rcases hp with rfl | rfl <;> decide
  have hpad := packetMaxPadding_le payload.length 0
  have hbefore := packetDataPaddingLen_le d.prefixDraw (packetMaxPadding payload.length 0)
  have hcount := toNat_length (show payload.length < 2 ^ 16 by omega)
  unfold PacketSeg.metadata buildDataWire
  dsimp only
  generalize packetDataPaddingLen d.prefixDraw
    (packetMaxPadding payload.length 0) = before at hbefore ⊢
  have hpad' := packetMaxPadding_le payload.length before
  have hsuffix := packetDataPaddingLen_le d.suffixDraw (packetMaxPadding payload.length before)
  generalize packetDataPaddingLen d.suffixDraw
    (packetMaxPadding payload.length before) = suffix at hsuffix ⊢
  have hsmall := toNat_padding (show before ≤ 255 by omega)
  have hsmall' := toNat_padding (show suffix ≤ 255 by omega)
  obtain ⟨ct, hct, hencrypt⟩ := encrypt_metadata sha256 c d.nonce
    (length_dataAckStruct ts p sessionId seq unAck window fragment (UInt8.ofNat before)
      (UInt16.ofNat payload.length) (UInt8.ofNat suffix))
  obtain ⟨body, hbody, -⟩ := sealedBody_short (c := c) (show payload.length < 2 ^ 16 by omega)
    (c.newNonce sha256 d.nonce)
  have hparse := @parse_dataAckStruct_all now ts p sessionId seq unAck window fragment
    (UInt8.ofNat before) (UInt16.ofNat payload.length) (UInt8.ofNat suffix) hsession hts
  obtain ⟨hmtu, hread, haccepts⟩ := layout_iff hkey (d.prefixBytes before).val
    (d.suffixBytes suffix).val hparse hct hbody hcount (by rw [ByteVec.length_val, hsmall])
    (by rw [ByteVec.length_val, hsmall'])
    (by
      rw [ByteVec.length_val, ByteVec.length_val]
      simp only [maxFragment, defaultMtu, packetOverhead, nonceSize, metadataLength, tagSize]
        at hpad hpad' ⊢
      omega) hm fun h => by cases h
  refine ⟨_, ?_, hmtu, _, hread, haccepts⟩
  rw [hencrypt, bind_ok]
  dsimp only
  rw [hbody, bind_ok, List.append_assoc _ (d.prefixBytes before).val,
    List.append_assoc _ (_ ++ body), List.append_assoc _ body]
  rfl

theorem build_readBack (sha256 : Bytes → ByteVec 32) {F : Type} {s : PacketEngine F}
    (hkey : s.key = c.key) (sessionId : UInt32) {ts now : UInt32} (hts : timestampOk now ts)
    (d : PacketDraws) {seg : PacketSeg} (h : seg.FromServer) :
    ∃ wire, seg.build sha256 c sessionId ts d = .ok wire ∧
      ReadBack s c now (seg.metadata sha256 c sessionId d) seg.payload wire := by
  cases seg with
  | session p seq status payload => exact session_readBack hkey hts d seq status h
  | data p seq unAck window fragment payload =>
    exact data_readBack hkey hts d seq unAck window fragment h

/-- A segment of the server is carried exactly if its payload is not empty, or nothing looks at
    its body. -/
theorem carried_iff {F : Type} {s : PacketEngine F} {c : StatelessCipher} (hkey : s.key = c.key)
    (sessionId : UInt32) {ts now : UInt32} (hts : timestampOk now ts) (d : PacketDraws)
    {seg : PacketSeg} (h : seg.FromServer) :
    Carried sha256 s c sessionId ts now d seg ↔
      seg.payload ≠ [] ∨ seg.protocol = ackServerToClient ∨
        seg.protocol = closeSessionResponse := by
  obtain ⟨wire, hbuild, hmtu, nonce, hread, haccepts⟩ := build_readBack sha256 hkey sessionId
    hts d h
  have hprotocol : (seg.metadata sha256 c sessionId d).protocol = seg.protocol := by
    cases seg <;> rfl
  rw [hprotocol] at haccepts
  rw [← haccepts]
  constructor
  · rintro ⟨wire', nonce', hbuild', -, hread', haccept⟩
    obtain rfl : wire = wire' := Except.ok.inj (hbuild.symm.trans hbuild')
    obtain rfl : nonce = nonce' := (Prod.mk.inj (Option.some.inj (hread.symm.trans hread'))).2
    exact haccept
  · intro haccept
    exact ⟨wire, nonce, hbuild, hmtu, hread, haccept⟩

/-- An engine of that key. -/
def atRest (key : ByteVec 32) : PacketEngine Unit := PacketEngine.new key 0 PacketEngine.calm

/-- Nothing random. -/
def plainDraws : PacketDraws where
  nonce := ByteVec.zero 24
  prefixDraw := 0
  suffixDraw := 0
  prefixBytes := ByteVec.zero
  suffixBytes := ByteVec.zero

theorem carried_iff_sample :
    Carried (fun _ => ByteVec.zero 32) (atRest (ByteVec.zero 32)) ⟨ByteVec.zero 32, []⟩ 7 0 0
      plainDraws (.data dataServerToClient 1 0 0 0 [1]) :=
  (carried_iff rfl 7 (by decide) plainDraws
    (show (PacketSeg.data dataServerToClient 1 0 0 0 [1]).FromServer from
      ⟨.inl rfl, by decide⟩)).mpr (.inl (List.cons_ne_nil 1 []))

/-- Data without a payload. -/
theorem empty_data_dropped :
    ¬ Carried (fun _ => ByteVec.zero 32) (atRest (ByteVec.zero 32)) ⟨ByteVec.zero 32, []⟩ 7 0 0
      plainDraws (.data dataServerToClient 1 0 0 0 []) := by
  have hts : timestampOk 0 0 := by decide
  obtain ⟨wire, hbuild, -, nonce, hread, haccepts⟩ := build_readBack (fun _ => ByteVec.zero 32)
    (s := atRest (ByteVec.zero 32)) (c := ⟨ByteVec.zero 32, []⟩) rfl 7 hts plainDraws
    (show (PacketSeg.data dataServerToClient 1 0 0 0 []).FromServer from ⟨.inl rfl, by decide⟩)
  rintro ⟨wire', nonce', hbuild', -, hread', haccept⟩
  obtain rfl : wire = wire' := Except.ok.inj (hbuild.symm.trans hbuild')
  obtain rfl : nonce = nonce' := (Prod.mk.inj (Option.some.inj (hread.symm.trans hread'))).2
  rcases haccepts.mp haccept with hne | hack | hclosed
  · exact hne rfl
  · exact absurd hack (by decide)
  · exact absurd hclosed (by decide)

end RustCrash.Mieru
