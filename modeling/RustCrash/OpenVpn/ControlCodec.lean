import RustCrash.Lib.Checked
import RustCrash.OpenVpn.Reliable

/-
  The codec of the control packets, from the settings to the wire and back: `ControlCrypt::new`,
  the bytes of `write_control_packet` and `decode_packet`.

  A packet that the other end writes is decoded again (`decode_encodePacket`), whatever protects
  it. `decode_packet` is written out once more with each index and slice checked, and is the same
  function (`decodePacketChecked_eq`).
-/

namespace RustCrash.OpenVpn

open Lib

/-! ## The keys -/

/-- What `ControlCrypt::new` reads of the settings. -/
structure ControlSettings where
  tlsCryptV2Key : Option (ByteVec 256)
  tlsCryptV2Wrapped : Option Bytes
  tlsCryptKey : Option (ByteVec 256)
  tlsAuthKey : Option (ByteVec 256)
  auth : String
  keyDirection : String

/-- One half of a static key: 64 bytes for the cipher and 64 for the HMAC. -/
def keySlot (bytes : ByteVec 128) : TlsCryptKeys where
  cipherKey := sliceVec bytes.val 0 32 (by rw [bytes.property]; omega)
  hmacKey := sliceVec bytes.val 64 32 (by rw [bytes.property]; omega)

def key0 (staticKey : ByteVec 256) : ByteVec 128 :=
  sliceVec staticKey.val 0 128 (by rw [staticKey.property]; omega)

def key1 (staticKey : ByteVec 256) : ByteVec 128 :=
  sliceVec staticKey.val 128 128 (Nat.le_of_eq staticKey.property.symm)

def tlsCryptSlots (staticKey : ByteVec 256) (client : Bool) : TlsCryptKeys × TlsCryptKeys :=
  let slot0 := keySlot (key0 staticKey)
  let slot1 := keySlot (key1 staticKey)
  if client then (slot1, slot0) else (slot0, slot1)

/-- The halves that encrypt and decrypt under tls-auth. -/
def tlsAuthHalves (key : ByteVec 256) (keyDirection : String) : ByteVec 128 × ByteVec 128 :=
  if keyDirection = "1" then (key1 key, key0 key)
  else if keyDirection = "0" then (key0 key, key1 key)
  else (key0 key, key0 key)

namespace ControlCrypt

def new (settings : ControlSettings) : Result (Option ControlCrypt) :=
  match settings.tlsCryptV2Key, settings.tlsCryptKey, settings.tlsAuthKey with
  | some material, _, _ =>
    match settings.tlsCryptV2Wrapped with
    | none => .error (.config "missing wrapped tls-crypt-v2 client key")
    | some wrapped =>
      let (encrypt, decrypt) := tlsCryptSlots material true
      .ok (some (tlsCryptV2 encrypt decrypt wrapped))
  | none, some key, _ =>
    let (encrypt, decrypt) := tlsCryptSlots key true
    .ok (some (tlsCrypt encrypt decrypt))
  | none, none, some key =>
    match AuthDigest.parse settings.auth with
    | .error e => .error e
    | .ok digest =>
      let (encrypt, decrypt) := tlsAuthHalves key settings.keyDirection
      .ok (some (tlsAuth digest (slice encrypt.val 64 digest.size)
        (slice decrypt.val 64 digest.size)))
  | none, none, none => .ok none

def isV2 : ControlCrypt → Bool
  | tlsCryptV2 _ _ _ => true
  | _ => false

def wrappedClientKey : ControlCrypt → Bytes
  | tlsCryptV2 _ _ wrapped => wrapped
  | _ => []

theorem isV2_mirror (crypt : ControlCrypt) : crypt.mirror.isV2 = crypt.isV2 := by
  cases crypt <;> rfl

end ControlCrypt

/-- A header of its length is wrapped. -/
theorem ControlCrypt.wrap_header (hmac : Hmac) (crypt : ControlCrypt) {header : Bytes}
    (h : header.length = tlsCryptHeaderSize) (packetId unixTime : UInt32) (plaintext : Bytes) :
    ∃ raw, crypt.wrap hmac header packetId unixTime plaintext = .ok raw := by
  unfold wrap
  rw [if_neg (not_not.mpr h)]
  cases crypt <;> exact ⟨_, rfl⟩

/-- Nothing but tls-crypt-v2 has a client key to append. -/
theorem ControlCrypt.isV2_of_new {settings : ControlSettings} {crypt : ControlCrypt}
    (h : ControlCrypt.new settings = .ok (some crypt)) (hv2 : settings.tlsCryptV2Key = none) :
    crypt.isV2 = false := by
  unfold ControlCrypt.new at h
  rw [hv2] at h
  cases hkey : settings.tlsCryptKey with
  | some key =>
    rw [hkey] at h
    cases h
    rfl
  | none =>
    rw [hkey] at h
    cases hauth : settings.tlsAuthKey with
    | none =>
      rw [hauth] at h
      cases h
    | some key =>
      rw [hauth] at h
      dsimp only at h
      cases hdigest : AuthDigest.parse settings.auth with
      | error e =>
        rw [hdigest] at h
        cases h
      | ok digest =>
        rw [hdigest] at h
        cases h
        rfl

/-! ## What is written -/

variable (hmac : Hmac)

def packetHeader (packet : ControlPacket) : Bytes :=
  opcodeKeyId packet.opcode packet.keyId :: packet.localSession.val

/-- The wrapped client key behind the first V3 reset. -/
def appendedKey (crypt : Option ControlCrypt) (packet : ControlPacket) : Bytes :=
  match crypt with
  | none => []
  | some crypt =>
    if crypt.isV2 ∧ packet.opcode = pControlHardResetClientV3 ∧ packet.messageId = 0 then
      crypt.wrappedClientKey
    else []

/-- The bytes that `write_control_packet` gives to the link. -/
def encodePacket (crypt : Option ControlCrypt) (packet : ControlPacket)
    (packetId unixTime : UInt32) : Result Bytes := do
  let plain ← controlEncodePlain packet
  let encoded ← match crypt with
    | none => .ok (packetHeader packet ++ plain)
    | some crypt => crypt.wrap hmac (packetHeader packet) packetId unixTime plain
  return encoded ++ appendedKey crypt packet

/-! ## What is read again -/

/-- What the wire can carry: the key id has three bits, an ack has neither message id nor
    payload, and without acks there is no session that they are for. -/
structure ControlPacket.Fits (packet : ControlPacket) : Prop where
  control : opcodeIsControl packet.opcode = true
  keyId : packet.keyId ≤ keyIdMask
  acks : packet.ackIds.length ≤ reliableAckSize
  remote : packet.ackIds = [] → packet.ackRemoteSession = ByteVec.zero 8
  message : opcodeHasMessageId packet.opcode = false → packet.messageId = 0 ∧ packet.payload = []

theorem length_packetHeader (packet : ControlPacket) :
    (packetHeader packet).length = tlsCryptHeaderSize := by
  unfold packetHeader
  rw [List.length_cons, ByteVec.length_val]
  rfl

/-- Every control opcode is below 16, so the shift keeps it. -/
theorem opcode_lt {opcode : UInt8} (h : opcodeIsControl opcode = true) : opcode < 16 := by
  revert h
  exact Aes.forall_byte (P := fun opcode => opcodeIsControl opcode = true → opcode < 16)
    (by decide +kernel) opcode

theorem keyId_mask {keyId : UInt8} (h : keyId ≤ keyIdMask) : keyId &&& keyIdMask = keyId := by
  revert h
  exact Aes.forall_byte (P := fun keyId => keyId ≤ keyIdMask → keyId &&& keyIdMask = keyId)
    (by decide +kernel) keyId

theorem parseOpcodeKeyId_opcodeKeyId {opcode keyId : UInt8} (hop : opcode < 16) :
    parseOpcodeKeyId (opcodeKeyId opcode keyId) = (opcode, keyId &&& keyIdMask) := by
  have hall : ∀ keyId : UInt8, ∀ n < 16, parseOpcodeKeyId (opcodeKeyId (UInt8.ofNat n) keyId) =
      (UInt8.ofNat n, keyId &&& keyIdMask) := Aes.forall_byte (by decide +kernel)
  have h := hall keyId opcode.toNat hop
  rwa [UInt8.ofNat_toNat] at h

variable {packet : ControlPacket} {plain : Bytes}

theorem controlEncodePlain_fits (h : packet.Fits) :
    ∃ plain, controlEncodePlain packet = .ok plain ∧ plain ≠ [] := by
  unfold controlEncodePlain
  rw [if_neg (by rw [h.control]; decide), if_neg (Nat.not_lt.mpr h.acks)]
  exact ⟨_, rfl, List.cons_ne_nil _ _⟩

/-- The header, and the plaintext that was encoded. -/
theorem decodeControl_encode (h : packet.Fits) (hplain : controlEncodePlain packet = .ok plain)
    (packetId unixTime : UInt32) :
    Reliable.decodeControl (packetHeader packet) plain packetId unixTime =
      .ok (packet, packetId, unixTime) := by
  unfold Reliable.decodeControl packetHeader
  dsimp only
  rw [parseOpcodeKeyId_opcodeKeyId (opcode_lt h.control), keyId_mask h.keyId]
  dsimp only
  rw [if_neg (by rw [h.control]; decide), ByteVec.ofBytes?_val]
  dsimp only
  rw [controlDecodePlain_encode hplain h.message h.remote]
  rfl

/-- What the other end writes is decoded: the packet as it is, and its packet id and time where
    there is a cryptor. -/
theorem decode_encodePacket {crypt : Option ControlCrypt} (h : packet.Fits)
    (hkey : appendedKey (crypt.map ControlCrypt.mirror) packet = []) (packetId unixTime : UInt32) :
    ∃ raw, encodePacket hmac (crypt.map ControlCrypt.mirror) packet packetId unixTime = .ok raw ∧
      Reliable.decodePacket hmac crypt raw =
        .ok (packet, if crypt.isSome then (packetId, unixTime) else (0, 0)) := by
  obtain ⟨plain, hplain, hne⟩ := controlEncodePlain_fits h
  have hheader := length_packetHeader packet
  unfold encodePacket
  rw [hplain]
  cases crypt with
  | none =>
    refine ⟨packetHeader packet ++ plain, ?_, ?_⟩
    · exact congrArg Except.ok (List.append_nil _)
    · have hpos := List.length_pos_of_ne_nil hne
      unfold Reliable.decodePacket
      dsimp only
      rw [if_neg (by rw [List.length_append, hheader]; omega), List.take_left' hheader,
        List.drop_left' hheader]
      exact decodeControl_encode h hplain 0 0
  | some crypt =>
    obtain ⟨raw, hraw⟩ := ControlCrypt.wrap_header hmac crypt.mirror hheader packetId
      unixTime plain
    refine ⟨raw, ?_, ?_⟩
    · change (do
        let encoded ← crypt.mirror.wrap hmac (packetHeader packet) packetId unixTime plain
        return encoded ++ appendedKey (some crypt.mirror) packet : Result Bytes) = .ok raw
      rw [hraw, show appendedKey (some crypt.mirror) packet = [] from hkey]
      exact congrArg Except.ok (List.append_nil raw)
    · unfold Reliable.decodePacket
      dsimp only
      rw [ControlCrypt.unwrap_wrap hraw hne]
      exact decodeControl_encode h hplain packetId unixTime

/-! ## Reads in bounds -/

/-- `u32::from_be_bytes` of the four bytes at an offset. -/
def idChecked (plain : Bytes) (offset : Nat) : Option UInt32 := do
  let word ← sliceChecked plain offset (offset + 4)
  return ofBE32 word

def idsChecked (plain : Bytes) : Nat → Nat → Option (List UInt32)
  | 0, _ => some []
  | n + 1, offset => do
    let id ← idChecked plain offset
    let ids ← idsChecked plain n (offset + 4)
    return id :: ids

/-- `copy_from_slice`, into a session. -/
def sessionChecked (plain : Bytes) (offset : Nat) : Option Session := do
  let bytes ← sliceChecked plain offset (offset + sessionIdSize)
  ByteVec.ofBytes? 8 bytes

/-- `control_decode_plain` behind the acks. -/
def messageChecked (opcode : UInt8) (plain : Bytes) (ackIds : List UInt32) (ackRemote : Session)
    (offset : Nat) : Option (Result PlainControl) :=
  if opcodeHasMessageId opcode then
    if plain.length < offset + 4 then some (.error (.protocol "control message id truncated"))
    else do
      let messageId ← idChecked plain offset
      let payload ← sliceChecked plain (offset + 4) plain.length
      return .ok (ackIds, ackRemote, messageId, payload)
  else if plain.length ≠ offset then
    some (.error (.protocol "ack packet has trailing payload"))
  else some (.ok (ackIds, ackRemote, 0, []))

/-- `control_decode_plain`; `none` when an access is out of bounds. -/
def controlDecodePlainChecked (opcode : UInt8) (plain : Bytes) : Option (Result PlainControl) :=
  if plain = [] then some (.error (.protocol "control payload too short"))
  else do
    let len ← plain[0]?
    let ackLen := len.toNat
    if reliableAckSize < ackLen then
      some (.error (.protocol s!"control ack array exceeds {reliableAckSize} entries"))
    else if plain.length < 1 + ackLen * 4 then
      some (.error (.protocol "control ack array truncated"))
    else do
      let ackIds ← idsChecked plain ackLen 1
      let offset := 1 + ackLen * 4
      if 0 < ackLen then
        if plain.length < offset + sessionIdSize then
          some (.error (.protocol "control ack remote session truncated"))
        else do
          let ackRemote ← sessionChecked plain offset
          messageChecked opcode plain ackIds ackRemote (offset + sessionIdSize)
      else messageChecked opcode plain ackIds (ByteVec.zero 8) offset

/-- `tls_crypt_unwrap`. -/
def tlsCryptUnwrapChecked (keys : TlsCryptKeys) (packet : Bytes) : Option (Result Unwrapped) :=
  if packet.length < tlsCryptHeaderSize + 8 + 32 then
    some (.error (.protocol "tls-crypt packet too short"))
  else do
    let adEnd := tlsCryptHeaderSize + 8
    let tagEnd := adEnd + 32
    let ad ← sliceChecked packet 0 adEnd
    let tag ← sliceChecked packet adEnd tagEnd
    let ciphertext ← sliceChecked packet tagEnd packet.length
    let iv ← sliceChecked tag 0 16
    let plaintext := aes256Ctr keys.cipherKey iv ciphertext
    if tag ≠ (tlsCryptTag hmac keys ad plaintext).val then
      some (.error (.protocol "tls-crypt authentication failed"))
    else do
      let packetId ← idChecked ad 9
      let unixTime ← idChecked ad 13
      let header ← sliceChecked ad 0 tlsCryptHeaderSize
      return .ok (header, packetId, unixTime, plaintext)

/-- `unwrap` under tls-auth. -/
def tlsAuthUnwrapChecked (digest : AuthDigest) (decryptKey packet : Bytes) :
    Option (Result Unwrapped) :=
  if packet.length < tlsCryptHeaderSize + digest.size + 8 + 1 then
    some (.error (.protocol "tls-auth packet too short"))
  else do
    let headerEnd := tlsCryptHeaderSize
    let tagEnd := headerEnd + digest.size
    let pidEnd := tagEnd + 8
    let header ← sliceChecked packet 0 headerEnd
    let tag ← sliceChecked packet headerEnd tagEnd
    let pid ← sliceChecked packet tagEnd pidEnd
    let plaintext ← sliceChecked packet pidEnd packet.length
    if tag ≠ (digest.mac hmac decryptKey [pid, header, plaintext]).val then
      some (.error (.protocol "tls-auth authentication failed"))
    else do
      let packetId ← idChecked pid 0
      let unixTime ← idChecked pid 4
      return .ok (header, packetId, unixTime, plaintext)

def ControlCrypt.unwrapChecked (crypt : ControlCrypt) (packet : Bytes) :
    Option (Result Unwrapped) :=
  match crypt with
  | tlsAuth digest _ decryptKey => tlsAuthUnwrapChecked hmac digest decryptKey packet
  | tlsCrypt _ decrypt => tlsCryptUnwrapChecked hmac decrypt packet
  | tlsCryptV2 _ decrypt _ => tlsCryptUnwrapChecked hmac decrypt packet

/-- `decode_packet` from where it has a header, the plaintext behind it, and the packet id and
    time. -/
def decodeControlChecked (header plain : Bytes) (packetId unixTime : UInt32) :
    Option (Result (ControlPacket × UInt32 × UInt32)) := do
  let first ← header[0]?
  let (opcode, keyId) := parseOpcodeKeyId first
  if opcodeIsControl opcode = false then
    some (.error (.protocol s!"opcode {opcode.toNat} is not a control opcode"))
  else do
    let localSession ← sessionChecked header 1
    let decoded ← controlDecodePlainChecked opcode plain
    return decoded.map fun (ackIds, ackRemote, messageId, payload) =>
      (⟨opcode, keyId, localSession, ackIds, ackRemote, messageId, payload⟩, packetId, unixTime)

/-- `decode_packet`; `none` when an access is out of bounds. -/
def decodePacketChecked (crypt : Option ControlCrypt) (raw : Bytes) :
    Option (Result (ControlPacket × UInt32 × UInt32)) :=
  match crypt with
  | none =>
    if raw.length < tlsCryptHeaderSize + 1 then
      some (.error (.protocol "control packet too short"))
    else do
      let header ← sliceChecked raw 0 tlsCryptHeaderSize
      let plain ← sliceChecked raw tlsCryptHeaderSize raw.length
      decodeControlChecked header plain 0 0
  | some crypt => do
    let unwrapped ← crypt.unwrapChecked hmac raw
    match unwrapped with
    | .error e => return .error e
    | .ok (header, packetId, unixTime, plain) =>
      if header.length ≠ tlsCryptHeaderSize then
        some (.error (.protocol s!"invalid control header length {header.length}"))
      else decodeControlChecked header plain packetId unixTime

theorem sliceChecked_slice {raw : Bytes} {a n b : Nat} (hb : b = a + n) (h : b ≤ raw.length) :
    sliceChecked raw a b = some (slice raw a n) := by
  subst hb
  exact sliceChecked_of_le h

theorem sliceChecked_rest {raw : Bytes} {a : Nat} (h : a ≤ raw.length) :
    sliceChecked raw a raw.length = some (raw.drop a) := by
  rw [sliceChecked_of_le_of_le h le_rfl, List.take_of_length_le (by rw [List.length_drop])]

theorem idChecked_eq {offset : Nat} (h : offset + 4 ≤ plain.length) :
    idChecked plain offset = some (ofBE32 (slice plain offset 4)) := by
  unfold idChecked
  rw [sliceChecked_of_le h]
  rfl

theorem idsChecked_eq {n offset : Nat} (h : offset + n * 4 ≤ plain.length) :
    idsChecked plain n offset =
      some ((List.range n).map fun i => ofBE32 (slice (plain.drop offset) (i * 4) 4)) := by
  induction n generalizing offset with
  | zero => rfl
  | succ n ih =>
    unfold idsChecked
    rw [idChecked_eq (by omega), ih (by omega), List.range_succ_eq_map, List.map_cons,
      List.map_map]
    dsimp only [Option.bind_eq_bind, Option.bind_some]
    have hfirst : slice (plain.drop offset) (0 * 4) 4 = slice plain offset 4 := by
      unfold slice
      rw [Nat.zero_mul, List.drop_zero]
    have hrest : ∀ i, slice (plain.drop offset) ((i + 1) * 4) 4 =
        slice (plain.drop (offset + 4)) (i * 4) 4 := by
      intro i
      unfold slice
      rw [List.drop_drop, List.drop_drop]
      congr 2
      omega
    rw [hfirst]
    congr 2
    apply List.map_congr_left
    intro i _
    exact congrArg ofBE32 (hrest i).symm

theorem sessionChecked_eq (plain : Bytes) (offset : Nat)
    (h : offset + sessionIdSize ≤ plain.length) :
    ∃ session, sessionChecked plain offset = some session ∧
      takeSession (plain.drop offset) = some (session, plain.drop (offset + sessionIdSize)) := by
  have hlen : ((plain.drop offset).take sessionIdSize).length = 8 := by
    rw [List.length_take, List.length_drop]
    unfold sessionIdSize at h ⊢
    omega
  refine ⟨⟨(plain.drop offset).take sessionIdSize, hlen⟩, ?_, ?_⟩
  · unfold sessionChecked
    rw [sliceChecked_of_le h]
    exact dif_pos hlen
  · unfold takeSession ByteVec.ofBytes?
    rw [dif_pos hlen, List.drop_drop]
    rfl

theorem messageChecked_eq (opcode : UInt8) (ackIds : List UInt32) (ackRemote : Session)
    {offset : Nat} (h : offset ≤ plain.length) :
    messageChecked opcode plain ackIds ackRemote offset =
      some (decodeMessage opcode ackIds ackRemote (plain.drop offset)) := by
  unfold messageChecked decodeMessage
  by_cases hop : opcodeHasMessageId opcode = true
  · rw [if_pos hop, if_pos hop, List.length_drop]
    by_cases hlen : plain.length < offset + 4
    · rw [if_pos hlen, if_pos (by omega)]
    · rw [if_neg hlen, if_neg (by omega), idChecked_eq (by omega), sliceChecked_rest (by omega),
        List.drop_drop]
      rfl
  · rw [if_neg hop, if_neg hop]
    by_cases hlen : plain.length = offset
    · rw [if_neg (not_not.mpr hlen), if_neg (by rw [List.drop_of_length_le (by omega)]; simp)]
    · rw [if_pos hlen, if_pos (by rw [ne_eq, List.drop_eq_nil_iff]; omega)]

theorem controlDecodePlainChecked_eq (opcode : UInt8) (plain : Bytes) :
    controlDecodePlainChecked opcode plain = some (controlDecodePlain opcode plain) := by
  unfold controlDecodePlainChecked controlDecodePlain
  match plain with
  | [] => rfl
  | len :: rest =>
    rw [if_neg (List.cons_ne_nil len rest)]
    dsimp only [List.getElem?_cons_zero, Option.bind_eq_bind, Option.bind_some]
    by_cases hcount : reliableAckSize < len.toNat
    · rw [if_pos hcount, if_pos hcount]
    rw [if_neg hcount, if_neg hcount, List.length_cons]
    by_cases hids : rest.length < len.toNat * 4
    · rw [if_pos hids, if_pos (by omega)]
    rw [if_neg hids, if_neg (by omega), idsChecked_eq (by rw [List.length_cons]; omega)]
    dsimp only [Option.bind_some]
    have hdrop : ∀ k, (len :: rest).drop (1 + k) = rest.drop k := by
      intro k
      rw [Nat.add_comm, List.drop_succ_cons]
    rw [show (len :: rest).drop 1 = rest from rfl]
    by_cases hnone : 0 < len.toNat
    · rw [if_pos hnone, if_pos hnone]
      by_cases hsession : rest.length + 1 < 1 + len.toNat * 4 + sessionIdSize
      · rw [if_pos hsession]
        unfold takeSession ByteVec.ofBytes?
        rw [dif_neg]
        · rfl
        · rw [List.length_take, List.length_drop]
          unfold sessionIdSize at hsession ⊢
          omega
      · obtain ⟨session, hchecked, htake⟩ :=
          sessionChecked_eq (len :: rest) (1 + len.toNat * 4)
            (by rw [List.length_cons]; omega)
        rw [hdrop] at htake
        rw [if_neg hsession, hchecked, htake]
        exact messageChecked_eq opcode _ session (by rw [List.length_cons]; omega)
    · rw [if_neg hnone, if_neg hnone, ← hdrop]
      exact messageChecked_eq opcode _ _ (by rw [List.length_cons]; omega)

theorem tlsCryptUnwrapChecked_eq (keys : TlsCryptKeys) (packet : Bytes) :
    tlsCryptUnwrapChecked hmac keys packet = some (tlsCryptUnwrap hmac keys packet) := by
  unfold tlsCryptUnwrapChecked tlsCryptUnwrap
  by_cases hlen : packet.length < tlsCryptHeaderSize + 8 + 32
  · rw [if_pos hlen, if_pos hlen]
  have hle := Nat.le_of_not_lt hlen
  have htag : (slice packet (tlsCryptHeaderSize + 8) 32).length = 32 := length_slice hle
  have had : (packet.take (tlsCryptHeaderSize + 8)).length = 17 :=
    List.length_take_of_le (Nat.le_trans (Nat.le_add_right _ 32) hle)
  rw [if_neg hlen, if_neg hlen]
  dsimp only
  rw [sliceChecked_slice (Nat.zero_add _).symm (by omega), sliceChecked_slice rfl hle,
    sliceChecked_rest hle]
  dsimp only [Option.bind_eq_bind, Option.bind_some]
  rw [sliceChecked_slice (Nat.zero_add 16).symm (by rw [htag]; decide)]
  dsimp only [Option.bind_some]
  have hzero : ∀ (bs : Bytes) (n : Nat), slice bs 0 n = bs.take n := fun bs n => rfl
  rw [hzero, hzero]
  by_cases hmatch : slice packet (tlsCryptHeaderSize + 8) 32 =
      (tlsCryptTag hmac keys (packet.take (tlsCryptHeaderSize + 8)) (aes256Ctr keys.cipherKey
        ((slice packet (tlsCryptHeaderSize + 8) 32).take 16)
        (packet.drop (tlsCryptHeaderSize + 8 + 32)))).val
  · rw [if_neg (not_not.mpr hmatch), if_neg (not_not.mpr hmatch), idChecked_eq (by omega),
      idChecked_eq (by omega), sliceChecked_slice (Nat.zero_add _).symm (by rw [had]; decide)]
    rfl
  · rw [if_pos hmatch, if_pos hmatch]

theorem tlsAuthUnwrapChecked_eq (digest : AuthDigest) (encryptKey decryptKey packet : Bytes) :
    tlsAuthUnwrapChecked hmac digest decryptKey packet =
      some ((ControlCrypt.tlsAuth digest encryptKey decryptKey).unwrap hmac packet) := by
  unfold tlsAuthUnwrapChecked ControlCrypt.unwrap
  dsimp only
  by_cases hlen : packet.length < tlsCryptHeaderSize + digest.size + 8 + 1
  · rw [if_pos hlen, if_pos hlen]
  have hpid : (slice packet (tlsCryptHeaderSize + digest.size) 8).length = 8 :=
    length_slice (by omega)
  rw [if_neg hlen, if_neg hlen, sliceChecked_slice (Nat.zero_add _).symm (by omega),
    sliceChecked_slice rfl (by omega), sliceChecked_slice rfl (by omega),
    sliceChecked_rest (by omega)]
  dsimp only [Option.bind_eq_bind, Option.bind_some]
  have hzero : slice packet 0 tlsCryptHeaderSize = packet.take tlsCryptHeaderSize := rfl
  rw [hzero]
  by_cases hmatch : slice packet tlsCryptHeaderSize digest.size =
      (digest.mac hmac decryptKey [slice packet (tlsCryptHeaderSize + digest.size) 8,
        packet.take tlsCryptHeaderSize,
        packet.drop (tlsCryptHeaderSize + digest.size + 8)]).val
  · rw [if_neg (not_not.mpr hmatch), if_neg (not_not.mpr hmatch), idChecked_eq (by omega),
      idChecked_eq (by omega)]
    rfl
  · rw [if_pos hmatch, if_pos hmatch]

theorem ControlCrypt.unwrapChecked_eq (crypt : ControlCrypt) (packet : Bytes) :
    crypt.unwrapChecked hmac packet = some (crypt.unwrap hmac packet) := by
  cases crypt with
  | tlsAuth digest encryptKey decryptKey =>
    exact tlsAuthUnwrapChecked_eq hmac digest encryptKey decryptKey packet
  | tlsCrypt encrypt decrypt => exact tlsCryptUnwrapChecked_eq hmac decrypt packet
  | tlsCryptV2 encrypt decrypt wrapped => exact tlsCryptUnwrapChecked_eq hmac decrypt packet

/-- What is unwrapped has a whole header. -/
theorem ControlCrypt.length_header {hmac : Hmac} {crypt : ControlCrypt}
    {packet header plain : Bytes} {packetId unixTime : UInt32}
    (h : crypt.unwrap hmac packet = .ok (header, packetId, unixTime, plain)) :
    header.length = tlsCryptHeaderSize := by
  have hcrypt : ∀ keys, tlsCryptUnwrap hmac keys packet =
      .ok (header, packetId, unixTime, plain) → header.length = tlsCryptHeaderSize := by
    intro keys h
    unfold tlsCryptUnwrap at h
    dsimp only at h
    split_ifs at h with hlen
    cases h
    rw [List.take_take]
    exact List.length_take_of_le (by omega)
  cases crypt with
  | tlsCrypt encrypt decrypt => exact hcrypt decrypt h
  | tlsCryptV2 encrypt decrypt wrapped => exact hcrypt decrypt h
  | tlsAuth digest encryptKey decryptKey =>
    unfold unwrap at h
    dsimp only at h
    split_ifs at h with hlen
    cases h
    exact List.length_take_of_le (by omega)

theorem decodeControlChecked_eq {header : Bytes} (hheader : header.length = tlsCryptHeaderSize)
    (plain : Bytes) (packetId unixTime : UInt32) :
    decodeControlChecked header plain packetId unixTime =
      some (Reliable.decodeControl header plain packetId unixTime) := by
  unfold decodeControlChecked Reliable.decodeControl
  match header with
  | first :: session =>
    have hsession : session.length = 8 := Nat.succ.inj hheader
    have hchecked : sessionChecked (first :: session) 1 = some ⟨session, hsession⟩ := by
      have hle : 1 + sessionIdSize ≤ (first :: session).length := Nat.le_of_eq hheader.symm
      have htake : session.take sessionIdSize = session :=
        List.take_of_length_le (Nat.le_of_eq hsession)
      unfold sessionChecked
      rw [sliceChecked_of_le hle, List.drop_succ_cons, List.drop_zero, htake]
      exact ByteVec.ofBytes?_val ⟨session, hsession⟩
    dsimp only [List.getElem?_cons_zero, Option.bind_eq_bind, Option.bind_some]
    by_cases hop : opcodeIsControl (parseOpcodeKeyId first).1 = false
    · rw [if_pos hop, if_pos hop]
    · rw [if_neg hop, if_neg hop, hchecked, controlDecodePlainChecked_eq,
        show ByteVec.ofBytes? 8 session = some ⟨session, hsession⟩ from
          ByteVec.ofBytes?_val ⟨session, hsession⟩]
      cases controlDecodePlain (parseOpcodeKeyId first).1 plain <;> rfl

/-- No access of `decode_packet` is out of bounds. -/
theorem decodePacketChecked_eq (crypt : Option ControlCrypt) (raw : Bytes) :
    decodePacketChecked hmac crypt raw = some (Reliable.decodePacket hmac crypt raw) := by
  unfold decodePacketChecked Reliable.decodePacket
  match crypt with
  | none =>
    dsimp only
    by_cases hlen : raw.length < tlsCryptHeaderSize + 1
    · rw [if_pos hlen, if_pos hlen]
    · rw [if_neg hlen, if_neg hlen, sliceChecked_slice (Nat.zero_add _).symm (by omega),
        sliceChecked_rest (by omega)]
      exact decodeControlChecked_eq (length_slice (by omega)) _ 0 0
  | some crypt =>
    dsimp only
    rw [crypt.unwrapChecked_eq hmac raw]
    cases hunwrap : crypt.unwrap hmac raw with
    | error e => rfl
    | ok unwrapped =>
      obtain ⟨header, packetId, unixTime, plain⟩ := unwrapped
      have hheader := ControlCrypt.length_header hunwrap
      dsimp only [Option.bind_eq_bind, Option.bind_some]
      rw [if_neg (not_not.mpr hheader)]
      exact decodeControlChecked_eq hheader plain packetId unixTime

/-! ## The codec -/

theorem appendedKey_of_new {settings : ControlSettings} {crypt : Option ControlCrypt}
    (h : ControlCrypt.new settings = .ok crypt) (hv2 : settings.tlsCryptV2Key = none)
    (packet : ControlPacket) : appendedKey (crypt.map ControlCrypt.mirror) packet = [] := by
  cases crypt with
  | none => rfl
  | some crypt =>
    have hno : crypt.mirror.isV2 = false := by
      rw [crypt.isV2_mirror, ControlCrypt.isV2_of_new h hv2]
    apply if_neg
    rw [hno]
    exact fun hkey => Bool.false_ne_true hkey.1

/-- Plain, under tls-auth with any key direction or under tls-crypt: every packet that the wire can
    carry is decoded as the other end wrote it, with its packet id and time where there is a
    cryptor. And no bytes make `decode_packet` leave its bounds. -/
theorem written_decoded :
    (∀ (settings : ControlSettings) (crypt : Option ControlCrypt),
      ControlCrypt.new settings = .ok crypt → settings.tlsCryptV2Key = none →
      ∀ (packet : ControlPacket) (packetId unixTime : UInt32), packet.Fits →
        ∃ raw, encodePacket hmac (crypt.map ControlCrypt.mirror) packet packetId unixTime =
            .ok raw ∧
          Reliable.decodePacket hmac crypt raw =
            .ok (packet, if crypt.isSome then (packetId, unixTime) else (0, 0))) ∧
      ∀ (crypt : Option ControlCrypt) (raw : Bytes),
        decodePacketChecked hmac crypt raw = some (Reliable.decodePacket hmac crypt raw) := by
  refine ⟨?_, decodePacketChecked_eq hmac⟩
  intro settings crypt hnew hv2 packet packetId unixTime hfits
  exact decode_encodePacket hmac hfits (appendedKey_of_new hnew hv2 packet) packetId unixTime

def authSettings : ControlSettings :=
  ⟨none, none, none, some (ByteVec.zero 256), "SHA1", "1"⟩

def sampleAck : ControlPacket := ⟨pAckV1, 3, sampleSession, [5, 6], sampleSession, 0, []⟩

theorem written_decoded_sample :
    ∃ crypt raw, ControlCrypt.new authSettings = .ok (some crypt) ∧
      encodePacket plainHmac (some crypt.mirror) sampleAck 7 9 = .ok raw ∧
      Reliable.decodePacket plainHmac (some crypt) raw = .ok (sampleAck, 7, 9) := by
  have hfits : sampleAck.Fits := ⟨rfl, by decide, by decide, by decide, fun _ => ⟨rfl, rfl⟩⟩
  obtain ⟨raw, hraw, hdecode⟩ :=
    (written_decoded plainHmac).1 authSettings _ rfl rfl sampleAck 7 9 hfits
  exact ⟨_, raw, rfl, hraw, hdecode⟩

/-! ## A key id of four bits -/

def plainSettings : ControlSettings := ⟨none, none, none, none, "SHA1", "1"⟩

def eighthKey : ControlPacket := ⟨pControlV1, 8, sampleSession, [], ByteVec.zero 8, 0, [7]⟩

/-- The fourth bit is not written. -/
theorem eighthKey_masked :
    ControlCrypt.new plainSettings = .ok none ∧ opcodeIsControl eighthKey.opcode = true ∧
      eighthKey.ackIds = [] ∧ eighthKey.ackRemoteSession = ByteVec.zero 8 ∧
      opcodeHasMessageId eighthKey.opcode = true ∧
      ∃ raw, encodePacket plainHmac none eighthKey 0 0 = .ok raw ∧
        Reliable.decodePacket plainHmac none raw = .ok ({ eighthKey with keyId := 0 }, 0, 0) ∧
        Reliable.decodePacket plainHmac none raw ≠ .ok (eighthKey, 0, 0) := by
  refine ⟨rfl, rfl, rfl, rfl, rfl, _, rfl, rfl, ?_⟩
  decide

end RustCrash.OpenVpn
