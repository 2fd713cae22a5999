import RustCrash.Proto.Aead

/-
  `proto/easytier.rs`: the peer manager header, and the ciphers that payloads cross.

  A sealed payload is the ciphertext, the tag and the nonce, and its header has the flag
  `ENCRYPTED`. What was sealed opens (`PacketEncryptor.decryptPacket_encrypted`).
-/

namespace RustCrash.EasyTier

open Lib Proto

abbrev PeerId := UInt32

namespace PacketType

def data : UInt8 := 1
def ping : UInt8 := 4
def pong : UInt8 := 5
def rpcReq : UInt8 := 8
def rpcResp : UInt8 := 9

end PacketType

namespace PmFlag

def encrypted : UInt8 := 1

end PmFlag

structure PeerManagerHeader where
  fromPeerId : PeerId
  toPeerId : PeerId
  packetType : UInt8
  flags : UInt8
  forwardCounter : UInt8
  reserved : UInt8
  len : UInt32
  deriving DecidableEq

namespace PeerManagerHeader

def isEncrypted (hdr : PeerManagerHeader) : Bool := hdr.flags &&& PmFlag.encrypted ≠ 0

def setEncrypted (hdr : PeerManagerHeader) (encrypted : Bool) : PeerManagerHeader :=
  if encrypted then { hdr with flags := hdr.flags ||| PmFlag.encrypted }
  else { hdr with flags := hdr.flags &&& ~~~PmFlag.encrypted }

@[simp] theorem isEncrypted_setEncrypted (hdr : PeerManagerHeader) (b : Bool) :
    (hdr.setEncrypted b).isEncrypted = b := by
  unfold isEncrypted setEncrypted PmFlag.encrypted
  cases b
  · simp [UInt8.and_assoc]
  · have hodd : (hdr.flags.toNat ||| 1) % 2 = 1 := by simp [Nat.or_mod_two_eq_one]
    simp [← UInt8.toNat_inj, Nat.and_one_is_mod, hodd]

end PeerManagerHeader

structure PeerPacket where
  hdr : PeerManagerHeader
  payload : Bytes
  deriving DecidableEq

/-! ## Ciphers -/

inductive EncryptionAlgorithm where
  | xor
  | aesGcm
  | aes256Gcm
  | chaCha20
  deriving DecidableEq

/-- `from_str`. -/
def EncryptionAlgorithm.fromStr (value : Str) : Option EncryptionAlgorithm :=
  let value := value.asciiLower
  if value = "xor".toList then some xor
  else if value = "aes-gcm".toList ∨ value = "openssl-aes-gcm".toList then some aesGcm
  else if value = "aes-256-gcm".toList ∨ value = "openssl-aes-256-gcm".toList then some aes256Gcm
  else if value = "chacha20".toList ∨ value = "chacha20-poly1305".toList ∨
      value = "openssl-chacha20".toList then some chaCha20
  else none

inductive Cipher where
  | null
  | xor (key : ByteVec 16)
  | aead (aead : Aead)

/-- `PacketEncryptor`. -/
structure PacketEncryptor where
  cipher : Cipher

def aeadTailSize : Nat := 28

/-- `key[..16]`. -/
def key128 (key : ByteVec 32) : ByteVec 16 :=
  ⟨key.val.take 16, by rw [List.length_take, ByteVec.length_val]; rfl⟩

/-- The choice of a cipher, by the name of the algorithm. -/
def cipherFor (algorithm : Str) (key : ByteVec 32) : Result PacketEncryptor :=
  match EncryptionAlgorithm.fromStr algorithm with
  | none =>
    .error (.config s!"easytier: invalid encryption algorithm: {String.ofList algorithm}")
  | some .xor => .ok ⟨.xor (key128 key)⟩
  | some .aesGcm => .ok ⟨.aead ⟨.aes128Gcm, (key128 key).val, (key128 key).property⟩⟩
  | some .aes256Gcm => .ok ⟨.aead ⟨.aes256Gcm, key.val, key.property⟩⟩
  | some .chaCha20 => .ok ⟨.aead ⟨.chacha20Poly1305, key.val, key.property⟩⟩

namespace PacketEncryptor

/-- `byte ^= key[i % key.len()]`. -/
def xorWith (key : ByteVec 16) (payload : Bytes) : Bytes :=
  payload.mapIdx fun i byte => byte ^^^ key.val.getD (i % 16) 0

def encryptPacketWithNonce (e : PacketEncryptor) (hdr : PeerManagerHeader) (payload : Bytes)
    (nonce : ByteVec 12) : Result (PeerManagerHeader × Bytes) :=
  if hdr.isEncrypted then .ok (hdr, payload)
  else
    match e.cipher with
    | .null => .ok (hdr, payload)
    | .xor key => .ok (hdr.setEncrypted true, xorWith key payload)
    | .aead a =>
      match a.encrypt nonce payload [] with
      | none => .error (.crypto "easytier: encryption failed")
      | some textAndTag => .ok (hdr.setEncrypted true, textAndTag ++ nonce.val)

/-- The last 12 bytes. -/
def tailNonce (payload : Bytes) : ByteVec 12 :=
  ⟨(List.replicate 12 0 ++ payload).drop payload.length, by
    rw [List.length_drop, List.length_append, List.length_replicate]
    omega⟩

def decryptPacket (e : PacketEncryptor) (hdr : PeerManagerHeader) (payload : Bytes) :
    Result (PeerManagerHeader × Bytes) :=
  if hdr.isEncrypted = false then .ok (hdr, payload)
  else
    match e.cipher with
    | .null => .error (.crypto "easytier: decryption failed")
    | .xor key => .ok (hdr.setEncrypted false, xorWith key payload)
    | .aead a =>
      if payload.length < aeadTailSize then
        .error (.crypto s!"easytier: packet is too short. len: {payload.length}")
      else
        match a.decrypt (tailNonce payload) (payload.take (payload.length - 12)) [] with
        | none => .error (.crypto "easytier: decryption failed")
        | some text => .ok (hdr.setEncrypted false, text)

theorem tailNonce_append (bs : Bytes) (nonce : ByteVec 12) : tailNonce (bs ++ nonce.val) = nonce := by
  apply Subtype.ext
  unfold tailNonce
  show (List.replicate 12 0 ++ (bs ++ nonce.val)).drop (bs ++ nonce.val).length = nonce.val
  rw [← List.append_assoc]
  apply List.drop_left'
  rw [List.length_append, List.length_append, List.length_replicate, ByteVec.length_val,
    Nat.add_comm]

variable {a : Aead} {hdr hdr' : PeerManagerHeader} {payload payload' : Bytes} {nonce : ByteVec 12}

theorem encryptPacket_aead (hflag : hdr.isEncrypted = false) :
    (⟨.aead a⟩ : PacketEncryptor).encryptPacketWithNonce hdr payload nonce = .ok (hdr', payload') ↔
      ∃ ct, a.encrypt nonce payload [] = some ct ∧ hdr' = hdr.setEncrypted true ∧
        payload' = ct ++ nonce.val := by
  unfold encryptPacketWithNonce
  rw [if_neg (by rw [hflag]; exact Bool.false_ne_true)]
  dsimp only
  cases a.encrypt nonce payload [] with
  | none => simp
  | some ct => simp [eq_comm]

theorem decryptPacket_aead (hflag : hdr.isEncrypted = true) :
    (⟨.aead a⟩ : PacketEncryptor).decryptPacket hdr payload = .ok (hdr', payload') ↔
      aeadTailSize ≤ payload.length ∧
        a.decrypt (tailNonce payload) (payload.take (payload.length - 12)) [] = some payload' ∧
        hdr' = hdr.setEncrypted false := by
  unfold decryptPacket
  rw [if_neg (by rw [hflag]; exact fun h => Bool.noConfusion h)]
  dsimp only
  by_cases hlen : payload.length < aeadTailSize
  · rw [if_pos hlen]
    simp [Nat.not_le.mpr hlen]
  · rw [if_neg hlen]
    cases a.decrypt (tailNonce payload) (payload.take (payload.length - 12)) [] with
    | none => simp
    | some text => simp [Nat.not_lt.mp hlen, and_comm, eq_comm]

/-- What one end seals the other opens. -/
theorem decryptPacket_encrypted (hflag : hdr.isEncrypted = false)
    (h : (⟨.aead a⟩ : PacketEncryptor).encryptPacketWithNonce hdr payload nonce =
      .ok (hdr', payload')) :
    (⟨.aead a⟩ : PacketEncryptor).decryptPacket hdr' payload' =
      .ok (hdr'.setEncrypted false, payload) := by
  obtain ⟨ct, hct, rfl, rfl⟩ := (encryptPacket_aead hflag).mp h
  have hlen := Aead.length_encrypt hct
  rw [decryptPacket_aead (PeerManagerHeader.isEncrypted_setEncrypted hdr true), tailNonce_append]
  have htake : (ct ++ nonce.val).take ((ct ++ nonce.val).length - 12) = ct := by
    rw [List.length_append, ByteVec.length_val, Nat.add_sub_cancel, List.take_left]
  rw [htake]
  refine ⟨?_, Aead.decrypt_encrypt hct, rfl⟩
  rw [List.length_append, ByteVec.length_val, hlen]
  unfold aeadTailSize tagSize
  omega

end PacketEncryptor

end RustCrash.EasyTier
