import RustCrash.Error
import RustCrash.Lib.AesGcm

/-
  The control packets of OpenVPN and the three ways in which they are protected: tls-auth,
  tls-crypt and tls-crypt-v2. What one end encodes and wraps the other unwraps and decodes
  (`controlDecodePlain_encode`, `unwrap_wrap`).
-/

namespace RustCrash.OpenVpn

open Lib

/-! ## Opcodes -/

def keyIdMask : UInt8 := 0x07
def opcodeShift : UInt8 := 3

def pControlHardResetServerV1 : UInt8 := 2
def pControlSoftResetV1 : UInt8 := 3
def pControlV1 : UInt8 := 4
def pAckV1 : UInt8 := 5
def pDataV1 : UInt8 := 6
def pControlHardResetClientV2 : UInt8 := 7
def pControlHardResetServerV2 : UInt8 := 8
def pDataV2 : UInt8 := 9
def pControlHardResetClientV3 : UInt8 := 10

def peerIdUnset : UInt32 := 0x00ffffff

def sessionIdSize : Nat := 8

/-- The opcode and the session. -/
def tlsCryptHeaderSize : Nat := 1 + sessionIdSize

abbrev Session := ByteVec 8

def opcodeIsControl (opcode : UInt8) : Bool :=
  [1, pControlHardResetServerV1, pControlSoftResetV1, pControlV1, pAckV1,
    pControlHardResetClientV2, pControlHardResetServerV2, pControlHardResetClientV3, 11].contains
    opcode

def opcodeHasMessageId (opcode : UInt8) : Bool := opcodeIsControl opcode && opcode != pAckV1

def opcodeKeyId (opcode keyId : UInt8) : UInt8 :=
  (opcode <<< opcodeShift) ||| (keyId &&& keyIdMask)

def parseOpcodeKeyId (b : UInt8) : UInt8 × UInt8 := (b >>> opcodeShift, b &&& keyIdMask)

/-! ## Control packets -/

structure ControlPacket where
  opcode : UInt8
  keyId : UInt8
  localSession : Session
  ackIds : List UInt32
  ackRemoteSession : Session
  messageId : UInt32
  payload : Bytes
  deriving DecidableEq

def reliableAckSize : Nat := 8

def controlEncodePlain (p : ControlPacket) : Result Bytes :=
  if opcodeIsControl p.opcode = false then
    .error (.protocol s!"opcode {p.opcode.toNat} is not a control opcode")
  else if reliableAckSize < p.ackIds.length then
    .error (.protocol s!"too many ack ids: {p.ackIds.length}")
  else .ok (UInt8.ofNat p.ackIds.length :: (p.ackIds.flatMap be32 ++
    ((if p.ackIds ≠ [] then p.ackRemoteSession.val else []) ++
      if opcodeHasMessageId p.opcode then be32 p.messageId ++ p.payload else [])))

/-- The acks, the session that they are for, the message and its payload. -/
abbrev PlainControl := List UInt32 × Session × UInt32 × Bytes

/-- What is behind the acks. -/
def decodeMessage (opcode : UInt8) (ackIds : List UInt32) (ackRemote : Session) (rest : Bytes) :
    Result PlainControl :=
  if opcodeHasMessageId opcode then
    if rest.length < 4 then .error (.protocol "control message id truncated")
    else .ok (ackIds, ackRemote, ofBE32 (rest.take 4), rest.drop 4)
  else if rest ≠ [] then .error (.protocol "ack packet has trailing payload")
  else .ok (ackIds, ackRemote, 0, [])

/-- The session, and what is behind it. -/
def takeSession (bs : Bytes) : Option (Session × Bytes) :=
  (ByteVec.ofBytes? 8 (bs.take sessionIdSize)).map fun session => (session, bs.drop sessionIdSize)

def controlDecodePlain (opcode : UInt8) (plain : Bytes) : Result PlainControl :=
  match plain with
  | [] => .error (.protocol "control payload too short")
  | len :: rest =>
    let ackLen := len.toNat
    if reliableAckSize < ackLen then
      .error (.protocol s!"control ack array exceeds {reliableAckSize} entries")
    else if rest.length < ackLen * 4 then .error (.protocol "control ack array truncated")
    else
      let ackIds := (List.range ackLen).map fun i => ofBE32 (slice rest (i * 4) 4)
      let rest := rest.drop (ackLen * 4)
      if 0 < ackLen then
        match takeSession rest with
        | none => .error (.protocol "control ack remote session truncated")
        | some (ackRemote, rest) => decodeMessage opcode ackIds ackRemote rest
      else decodeMessage opcode ackIds (ByteVec.zero 8) rest

theorem takeSession_append (session : Session) (rest : Bytes) :
    takeSession (session.val ++ rest) = some (session, rest) := by
  unfold takeSession
  have hlen : session.val.length = sessionIdSize := session.property
  rw [List.take_left' hlen, List.drop_left' hlen, ByteVec.ofBytes?_val]
  rfl

theorem length_flatMap_be32 (ids : List UInt32) : (ids.flatMap be32).length = ids.length * 4 := by
  induction ids with
  | nil => rfl
  | cons id ids ih =>
    rw [List.flatMap_cons, List.length_append, ih, length_be32, List.length_cons]
    omega

theorem ids_flatMap_be32 (ids : List UInt32) (rest : Bytes) :
    ((List.range ids.length).map fun i => ofBE32 (slice (ids.flatMap be32 ++ rest) (i * 4) 4)) =
      ids := by
  induction ids with
  | nil => rfl
  | cons id ids ih =>
    rw [List.length_cons, List.range_succ_eq_map, List.map_cons, List.map_map, List.flatMap_cons,
      List.append_assoc, Nat.zero_mul, slice_here (length_be32 id), ofBE32_be32]
    congr 1
    have hskip : ∀ i, slice (be32 id ++ (ids.flatMap be32 ++ rest)) ((i + 1) * 4) 4 =
        slice (ids.flatMap be32 ++ rest) (i * 4) 4 := by
      intro i
      rw [Nat.succ_mul, slice_skip (length_be32 id)]
    refine Eq.trans (List.map_congr_left ?_) ih
    intro i _
    exact congrArg ofBE32 (hskip i)

theorem decodeMessage_encode {opcode : UInt8} (ids : List UInt32) (remote : Session)
    (messageId : UInt32) (payload : Bytes)
    (hack : opcodeHasMessageId opcode = false → messageId = 0 ∧ payload = []) :
    decodeMessage opcode ids remote
      (if opcodeHasMessageId opcode then be32 messageId ++ payload else []) =
        .ok (ids, remote, messageId, payload) := by
  unfold decodeMessage
  by_cases hop : opcodeHasMessageId opcode = true
  · have hlen : ¬ (be32 messageId ++ payload).length < 4 := by
      rw [List.length_append, length_be32]
      omega
    rw [if_pos hop, if_pos hop, if_neg hlen, ← length_be32 messageId, List.take_left,
      List.drop_left, ofBE32_be32]
  · obtain ⟨rfl, rfl⟩ := hack (Bool.eq_false_iff.mpr hop)
    rw [if_neg hop, if_neg hop, if_neg (not_not.mpr rfl)]

/-- The other end decodes what was encoded; an ack has no message, and without acks there is no
    session that they are for. -/
theorem controlDecodePlain_encode {p : ControlPacket} {plain : Bytes}
    (h : controlEncodePlain p = .ok plain)
    (hack : opcodeHasMessageId p.opcode = false → p.messageId = 0 ∧ p.payload = [])
    (hnone : p.ackIds = [] → p.ackRemoteSession = ByteVec.zero 8) :
    controlDecodePlain p.opcode plain =
      .ok (p.ackIds, p.ackRemoteSession, p.messageId, p.payload) := by
  unfold controlEncodePlain at h
  generalize hrest : (if opcodeHasMessageId p.opcode then be32 p.messageId ++ p.payload else []) =
    rest at h
  have hdecode : ∀ remote, decodeMessage p.opcode p.ackIds remote rest =
      .ok (p.ackIds, remote, p.messageId, p.payload) := by
    intro remote
    rw [← hrest]
    exact decodeMessage_encode p.ackIds remote p.messageId p.payload hack
  by_cases hop : opcodeIsControl p.opcode = false
  · rw [if_pos hop] at h
    cases h
  by_cases hlen : reliableAckSize < p.ackIds.length
  · rw [if_neg hop, if_pos hlen] at h
    cases h
  rw [if_neg hop, if_neg hlen] at h
  cases h
  have hsize : (UInt8.ofNat p.ackIds.length).toNat = p.ackIds.length := by
    apply UInt8.toNat_ofNat_of_lt'
    exact Nat.lt_of_le_of_lt (Nat.le_of_not_lt hlen) (by decide)
  unfold controlDecodePlain
  dsimp only
  rw [hsize, if_neg hlen, if_neg (by rw [List.length_append, length_flatMap_be32]; omega),
    ids_flatMap_be32, ← length_flatMap_be32, List.drop_left]
  by_cases hids : p.ackIds = []
  · rw [if_neg (by rw [hids]; exact Nat.lt_irrefl 0), if_neg (not_not.mpr hids), List.nil_append,
      ← hnone hids]
    exact hdecode p.ackRemoteSession
  · rw [if_pos (List.length_pos_of_ne_nil hids), if_pos hids, takeSession_append]
    exact hdecode p.ackRemoteSession

/-! ## Digests -/

inductive AuthDigest where
  | md5
  | sha1
  | sha256
  | sha384
  | sha512
  deriving DecidableEq

namespace AuthDigest

def parse (name : String) : Result AuthDigest :=
  if name = "MD5" then .ok .md5
  else if name = "SHA1" then .ok .sha1
  else if name = "SHA256" then .ok .sha256
  else if name = "SHA384" then .ok .sha384
  else if name = "SHA512" then .ok .sha512
  else .error (.config s!"unsupported openvpn auth {name.quote}")

def size : AuthDigest → Nat
  | md5 => 16
  | sha1 => 20
  | sha256 => 32
  | sha384 => 48
  | sha512 => 64

end AuthDigest

/-- `Hmac<D>` of the crates `hmac`, `md-5`, `sha1` and `sha2`: the key and the message. -/
abbrev Hmac := (d : AuthDigest) → Bytes → Bytes → ByteVec d.size

variable (hmac : Hmac)

/-- `mac`, over the parts one after the other. -/
def AuthDigest.mac (d : AuthDigest) (key : Bytes) (parts : List Bytes) : ByteVec d.size :=
  hmac d key parts.flatten

/-! ## The layers around the control packets -/

/-- The counter wraps at 16 bytes. -/
def ctrStream (key : Bytes) : Nat → Nat → Bytes
  | _, 0 => []
  | counter, n + 1 =>
    (Aes.encryptBlock key ⟨toBE 16 counter, length_toBE _ _⟩).val ++ ctrStream key (counter + 1) n

/-- `iv` is 16 bytes. -/
def aes256Ctr (key : ByteVec 32) (iv data : Bytes) : Bytes :=
  data.zipWith (· ^^^ ·) (ctrStream key.val (ofBE iv) ((data.length + 15) / 16))

structure TlsCryptKeys where
  cipherKey : ByteVec 32
  hmacKey : ByteVec 32

inductive ControlCrypt where
  | tlsAuth (digest : AuthDigest) (encryptKey decryptKey : Bytes)
  | tlsCrypt (encrypt decrypt : TlsCryptKeys)
  /-- As `tlsCrypt`, and the wrapped client key behind the first reset. -/
  | tlsCryptV2 (encrypt decrypt : TlsCryptKeys) (wrappedClientKey : Bytes)

def tlsCryptTag (keys : TlsCryptKeys) (ad plaintext : Bytes) : ByteVec 32 :=
  AuthDigest.sha256.mac hmac keys.hmacKey.val [ad, plaintext]

def tlsCryptWrap (keys : TlsCryptKeys) (header : Bytes) (packetId unixTime : UInt32)
    (plaintext : Bytes) : Bytes :=
  let ad := header ++ be32 packetId ++ be32 unixTime
  let tag := (tlsCryptTag hmac keys ad plaintext).val
  ad ++ tag ++ aes256Ctr keys.cipherKey (tag.take 16) plaintext

/-- The header, the packet id, the time and the plaintext. -/
abbrev Unwrapped := Bytes × UInt32 × UInt32 × Bytes

def tlsCryptUnwrap (keys : TlsCryptKeys) (packet : Bytes) : Result Unwrapped :=
  if packet.length < tlsCryptHeaderSize + 8 + 32 then
    .error (.protocol "tls-crypt packet too short")
  else
    let ad := packet.take (tlsCryptHeaderSize + 8)
    let tag := slice packet (tlsCryptHeaderSize + 8) 32
    let ciphertext := packet.drop (tlsCryptHeaderSize + 8 + 32)
    let plaintext := aes256Ctr keys.cipherKey (tag.take 16) ciphertext
    if tag ≠ (tlsCryptTag hmac keys ad plaintext).val then
      .error (.protocol "tls-crypt authentication failed")
    else .ok (ad.take tlsCryptHeaderSize, ofBE32 (slice ad 9 4), ofBE32 (slice ad 13 4), plaintext)

namespace ControlCrypt

def wrap (crypt : ControlCrypt) (header : Bytes) (packetId unixTime : UInt32)
    (plaintext : Bytes) : Result Bytes :=
  if header.length ≠ tlsCryptHeaderSize then
    .error (.protocol
      s!"invalid tls-auth header length {header.length}, expected {tlsCryptHeaderSize}")
  else
    match crypt with
    | tlsAuth digest encryptKey _ =>
      let pid := be32 packetId ++ be32 unixTime
      .ok (header ++ (digest.mac hmac encryptKey [pid, header, plaintext]).val ++ pid ++ plaintext)
    | tlsCrypt encrypt _ => .ok (tlsCryptWrap hmac encrypt header packetId unixTime plaintext)
    | tlsCryptV2 encrypt _ _ => .ok (tlsCryptWrap hmac encrypt header packetId unixTime plaintext)

def unwrap (crypt : ControlCrypt) (packet : Bytes) : Result Unwrapped :=
  match crypt with
  | tlsAuth digest _ decryptKey =>
    if packet.length < tlsCryptHeaderSize + digest.size + 8 + 1 then
      .error (.protocol "tls-auth packet too short")
    else
      let header := packet.take tlsCryptHeaderSize
      let tag := slice packet tlsCryptHeaderSize digest.size
      let pid := slice packet (tlsCryptHeaderSize + digest.size) 8
      let plaintext := packet.drop (tlsCryptHeaderSize + digest.size + 8)
      if tag ≠ (digest.mac hmac decryptKey [pid, header, plaintext]).val then
        .error (.protocol "tls-auth authentication failed")
      else .ok (header, ofBE32 (slice pid 0 4), ofBE32 (slice pid 4 4), plaintext)
  | tlsCrypt _ decrypt => tlsCryptUnwrap hmac decrypt packet
  | tlsCryptV2 _ decrypt _ => tlsCryptUnwrap hmac decrypt packet

/-- What the other end has: the keys change places. -/
def mirror : ControlCrypt → ControlCrypt
  | tlsAuth digest encryptKey decryptKey => tlsAuth digest decryptKey encryptKey
  | tlsCrypt encrypt decrypt => tlsCrypt decrypt encrypt
  | tlsCryptV2 encrypt decrypt wrapped => tlsCryptV2 decrypt encrypt wrapped

end ControlCrypt

theorem length_ctrStream (key : Bytes) (counter n : Nat) :
    (ctrStream key counter n).length = 16 * n := by
  induction n generalizing counter with
  | zero => rfl
  | succ n ih =>
    rw [ctrStream, List.length_append, ih, ByteVec.length_val]
    omega

theorem length_aes256Ctr (key : ByteVec 32) (iv data : Bytes) :
    (aes256Ctr key iv data).length = data.length := by
  unfold aes256Ctr
  rw [List.length_zipWith, length_ctrStream]
  omega

theorem aes256Ctr_twice (key : ByteVec 32) (iv data : Bytes) :
    aes256Ctr key iv (aes256Ctr key iv data) = data := by
  have hlen := length_aes256Ctr key iv data
  rw [aes256Ctr, hlen]
  unfold aes256Ctr
  apply zipWith_xor_twice
  rw [length_ctrStream]
  omega

variable {hmac}

theorem tlsCryptUnwrap_wrap (keys : TlsCryptKeys) {header : Bytes} (packetId unixTime : UInt32)
    (plaintext : Bytes) (hheader : header.length = tlsCryptHeaderSize) :
    tlsCryptUnwrap hmac keys (tlsCryptWrap hmac keys header packetId unixTime plaintext) =
      .ok (header, packetId, unixTime, plaintext) := by
  have had : (header ++ be32 packetId ++ be32 unixTime).length = tlsCryptHeaderSize + 8 := by
    rw [List.length_append, List.length_append, hheader, length_be32, length_be32]
  unfold tlsCryptWrap
  dsimp only
  obtain ⟨tag, htag⟩ : ∃ tag, tag =
      (tlsCryptTag hmac keys (header ++ be32 packetId ++ be32 unixTime) plaintext).val := ⟨_, rfl⟩
  have htaglen : tag.length = 32 := by
    rw [htag, ByteVec.length_val]
  rw [← htag]
  have hpid : slice (header ++ be32 packetId ++ be32 unixTime) 9 4 = be32 packetId := by
    rw [List.append_assoc, ← Nat.zero_add 9, slice_skip (k := 9) hheader,
      slice_here (length_be32 _)]
  have htime : slice (header ++ be32 packetId ++ be32 unixTime) 13 4 = be32 unixTime := by
    rw [← Nat.zero_add 13, slice_skip (k := 13)
      (by rw [List.length_append, hheader, length_be32]; rfl), slice_all (length_be32 _)]
  have hhead : (header ++ be32 packetId ++ be32 unixTime).take tlsCryptHeaderSize = header := by
    rw [List.append_assoc, List.take_left' hheader]
  generalize header ++ be32 packetId ++ be32 unixTime = ad at had hpid htime hhead htag ⊢
  have hslice : slice (ad ++ tag ++ aes256Ctr keys.cipherKey (tag.take 16) plaintext)
      (tlsCryptHeaderSize + 8) 32 = tag := by
    rw [List.append_assoc, ← Nat.zero_add (tlsCryptHeaderSize + 8), slice_skip had,
      slice_here htaglen]
  have hdrop : ∀ rest, (ad ++ tag ++ rest).drop (tlsCryptHeaderSize + 8 + 32) = rest := by
    intro rest
    rw [List.drop_left' (by rw [List.length_append, had, htaglen])]
  have htake : ∀ rest, (ad ++ tag ++ rest).take (tlsCryptHeaderSize + 8) = ad := by
    intro rest
    rw [List.append_assoc, List.take_left' had]
  unfold tlsCryptUnwrap
  rw [if_neg (by
    rw [List.length_append, List.length_append, had, htaglen]
    omega)]
  dsimp only
  rw [hslice, hdrop, htake, aes256Ctr_twice, if_neg (not_not.mpr htag), hhead, hpid, htime,
    ofBE32_be32, ofBE32_be32]

/-- What the other end wraps is unwrapped. A control plaintext is never empty. -/
theorem ControlCrypt.unwrap_wrap {crypt : ControlCrypt} {header plaintext wrapped : Bytes}
    {packetId unixTime : UInt32} (h : crypt.mirror.wrap hmac header packetId unixTime plaintext =
      .ok wrapped) (hplain : plaintext ≠ []) :
    crypt.unwrap hmac wrapped = .ok (header, packetId, unixTime, plaintext) := by
  unfold wrap at h
  split_ifs at h with hheader
  rw [not_not] at hheader
  cases crypt with
  | tlsCrypt encrypt decrypt => cases h; exact tlsCryptUnwrap_wrap _ _ _ _ hheader
  | tlsCryptV2 encrypt decrypt key => cases h; exact tlsCryptUnwrap_wrap _ _ _ _ hheader
  | tlsAuth digest encryptKey decryptKey =>
    cases h
    have hpos := List.length_pos_of_ne_nil hplain
    have hpid : (be32 packetId ++ be32 unixTime).length = 8 := by
      rw [List.length_append, length_be32, length_be32]
    have hfirst : slice (be32 packetId ++ be32 unixTime) 0 4 = be32 packetId :=
      slice_here (length_be32 _)
    have hsecond : slice (be32 packetId ++ be32 unixTime) 4 4 = be32 unixTime := by
      rw [← Nat.zero_add 4, slice_skip (k := 4) (length_be32 _), slice_all (length_be32 _)]
    generalize be32 packetId ++ be32 unixTime = pid at hpid hfirst hsecond ⊢
    generalize htag : digest.mac hmac decryptKey [pid, header, plaintext] = tag
    have htaglen := tag.property
    unfold unwrap
    dsimp only
    rw [if_neg (by
      rw [List.length_append, List.length_append, List.length_append, hheader, htaglen, hpid]
      omega)]
    have hh : (header ++ tag.val ++ pid ++ plaintext).take tlsCryptHeaderSize = header := by
      rw [List.append_assoc, List.append_assoc, List.take_left' hheader]
    have ht : slice (header ++ tag.val ++ pid ++ plaintext) tlsCryptHeaderSize digest.size =
        tag.val := by
      rw [List.append_assoc, List.append_assoc, ← Nat.zero_add tlsCryptHeaderSize,
        slice_skip hheader, slice_here htaglen]
    have hlen : (header ++ tag.val).length = tlsCryptHeaderSize + digest.size := by
      rw [List.length_append, hheader, htaglen]
    have hp : slice (header ++ tag.val ++ pid ++ plaintext) (tlsCryptHeaderSize + digest.size) 8 =
        pid := by
      rw [List.append_assoc, ← Nat.zero_add (tlsCryptHeaderSize + digest.size), slice_skip hlen,
        slice_here hpid]
    have hr : (header ++ tag.val ++ pid ++ plaintext).drop
        (tlsCryptHeaderSize + digest.size + 8) = plaintext := by
      rw [List.drop_left' (by rw [List.length_append, hlen, hpid])]
    rw [hh, ht, hp, hr, htag, if_neg (not_not.mpr rfl), hfirst, hsecond, ofBE32_be32, ofBE32_be32]

/-! ## For the examples -/

def plainHmac : Hmac := fun d _ _ => ByteVec.zero d.size

def sampleSession : Session := ⟨[1, 2, 3, 4, 5, 6, 7, 8], rfl⟩

end RustCrash.OpenVpn
