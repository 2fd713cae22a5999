import RustCrash.Lib.ChaChaPoly
import RustCrash.OpenVpn.Packet

/-
  The data channel of OpenVPN, `DataChannel`: the ciphers with a tag, and CBC with an HMAC.

  What one end seals under a packet id the other opens to that id and the plaintext
  (`openPacket_seal`), whatever the cipher and the form of the header.
-/

namespace RustCrash.OpenVpn

open Lib

def dataChannelTagSize : Nat := 16
def dataChannelReplayWindow : Nat := 64

/-! ## The ciphers -/

/-- The length of the key says which AES it is. -/
abbrev AesBlock := Bytes

inductive DataAead where
  | a128 (key : ByteVec 16)
  | a192 (key : ByteVec 24)
  | a256 (key : ByteVec 32)
  | chacha (key : ByteVec 32)

namespace DataAead

/-- Nothing where the source panics: for a plaintext that the cipher has no room for. -/
def sealed (a : DataAead) (nonce : ByteVec 12) (msg aad : Bytes) : Option Bytes :=
  match a with
  | a128 key => AesGcm.encrypt key.val nonce msg aad
  | a192 key => AesGcm.encrypt key.val nonce msg aad
  | a256 key => AesGcm.encrypt key.val nonce msg aad
  | chacha key => ChaChaPoly.encrypt key nonce msg aad

def openCt (a : DataAead) (nonce : ByteVec 12) (ct aad : Bytes) : Result Bytes :=
  okOr (match a with
    | a128 key => AesGcm.decrypt key.val nonce ct aad
    | a192 key => AesGcm.decrypt key.val nonce ct aad
    | a256 key => AesGcm.decrypt key.val nonce ct aad
    | chacha key => ChaChaPoly.decrypt key nonce ct aad)
    (.crypto "openvpn data packet authentication failed")

theorem openCt_sealed {a : DataAead} {nonce : ByteVec 12} {msg aad ct : Bytes}
    (h : a.sealed nonce msg aad = some ct) : a.openCt nonce ct aad = .ok msg := by
  unfold openCt
  apply okOr_eq_ok.mpr
  cases a with
  | a128 key => exact AesGcm.open_seal h
  | a192 key => exact AesGcm.open_seal h
  | a256 key => exact AesGcm.open_seal h
  | chacha key => exact ChaChaPoly.open_seal h

theorem length_sealed {a : DataAead} {nonce : ByteVec 12} {msg aad ct : Bytes}
    (h : a.sealed nonce msg aad = some ct) : ct.length = msg.length + dataChannelTagSize := by
  cases a with
  | a128 key => exact AesGcm.length_encrypt h
  | a192 key => exact AesGcm.length_encrypt h
  | a256 key => exact AesGcm.length_encrypt h
  | chacha key => exact ChaChaPoly.length_encrypt h

end DataAead

inductive DataCipher where
  | aead (a : DataAead)
  | cbc (block : AesBlock) (mac : AuthDigest)

structure DataDirection where
  cipher : DataCipher
  hmacKey : Bytes
  implicitIv : ByteVec 12

def toBlock (bs : Bytes) : Aes.Block := Aes.block fun i => bs.getD i 0

/-- `n` blocks. -/
def cbcEncryptBlocks (key : AesBlock) : Nat → Aes.Block → Bytes → Bytes
  | 0, _, _ => []
  | n + 1, prev, data =>
    let c := Aes.encryptBlock key (Aes.addRoundKey (toBlock (data.take 16)) prev)
    c.val ++ cbcEncryptBlocks key n c (data.drop 16)

def cbcDecryptBlocks (key : AesBlock) : Nat → Aes.Block → Bytes → Bytes
  | 0, _, _ => []
  | n + 1, prev, data =>
    let c := toBlock (data.take 16)
    (Aes.addRoundKey (Aes.decryptBlock key c) prev).val ++
      cbcDecryptBlocks key n c (data.drop 16)

theorem toBlock_val (b : Aes.Block) : toBlock b.val = b := Aes.block_byteAt b

theorem val_toBlock {bs : Bytes} (h : bs.length = 16) : (toBlock bs).val = bs :=
  congrArg Subtype.val (toBlock_val ⟨bs, h⟩)

theorem length_cbcEncryptBlocks (key : AesBlock) (n : Nat) (prev : Aes.Block) (data : Bytes) :
    (cbcEncryptBlocks key n prev data).length = 16 * n := by
  induction n generalizing prev data with
  | zero => rfl
  | succ n ih =>
    rw [cbcEncryptBlocks, List.length_append, ih, ByteVec.length_val]
    omega

theorem cbcDecrypt_encrypt (key : AesBlock) {n : Nat} (prev : Aes.Block) {data : Bytes}
    (h : data.length = 16 * n) :
    cbcDecryptBlocks key n prev (cbcEncryptBlocks key n prev data) = data := by
  induction n generalizing prev data with
  | zero => exact (List.eq_nil_of_length_eq_zero h).symm
  | succ n ih =>
    have htake : (data.take 16).length = 16 := by
      rw [List.length_take]
      omega
    unfold cbcEncryptBlocks
    dsimp only
    generalize hc : Aes.encryptBlock key (Aes.addRoundKey (toBlock (data.take 16)) prev) = c
    have hlen := ByteVec.length_val c
    unfold cbcDecryptBlocks
    dsimp only
    rw [List.take_left' hlen, List.drop_left' hlen, toBlock_val,
      ih c (by rw [List.length_drop]; omega), ← hc, Aes.decryptBlock_encryptBlock,
      Aes.addRoundKey_twice, val_toBlock htake, List.take_append_drop]

/-! ## Packets -/

/-- The packet id is mixed into the first four bytes. -/
def nonceOf (packetId : UInt32) (implicit : ByteVec 12) : ByteVec 12 :=
  ⟨be32 (ofBE32 (implicit.val.take 4) ^^^ packetId) ++ implicit.val.drop 4, by
    rw [List.length_append, length_be32, List.length_drop, implicit.property]⟩

def aeadAdditionalData (header packetId : Bytes) : Bytes :=
  (match header with
    | first :: _ => if (parseOpcodeKeyId first).1 = pDataV2 then header else []
    | [] => []) ++ packetId

def dataHeader (peerId : UInt32) (keyId : UInt8) : Bytes :=
  if peerId ≠ peerIdUnset then
    [opcodeKeyId pDataV2 keyId, (peerId >>> 16).toUInt8, (peerId >>> 8).toUInt8, peerId.toUInt8]
  else [opcodeKeyId pDataV1 keyId]

variable (hmac : Hmac)

/-- The plaintext, with its padding. -/
def cbcPlain (packetId : UInt32) (packet : Bytes) : Bytes :=
  let padding := 16 - (4 + packet.length) % 16
  be32 packetId ++ packet ++ List.replicate padding (UInt8.ofNat padding)

/-- `encrypt` behind `next_packet_id`; `iv` is what the system's generator draws. -/
def sealPacket (d : DataDirection) (header : Bytes) (packetId : UInt32) (iv : Aes.Block)
    (packet : Bytes) : Option Bytes :=
  match d.cipher with
  | .aead a => do
    let out ← a.sealed (nonceOf packetId d.implicitIv) packet
      (aeadAdditionalData header (be32 packetId))
    let (ct, tag) := out.splitAt (out.length - dataChannelTagSize)
    return header ++ be32 packetId ++ tag ++ ct
  | .cbc block mac =>
    let plain := cbcPlain packetId packet
    let authenticated := iv.val ++ cbcEncryptBlocks block (plain.length / 16) iv plain
    some (header ++ (mac.mac hmac d.hmacKey [authenticated]).val ++ authenticated)

/-- `dataPacketHeaderSize`. -/
def headerSize (packet : Bytes) : Result Nat :=
  match packet with
  | [] => .error (.protocol "empty openvpn data packet")
  | first :: _ =>
    let opcode := (parseOpcodeKeyId first).1
    if opcode = pDataV1 then .ok 1
    else if opcode = pDataV2 then
      if packet.length < 4 then .error (.protocol "openvpn P_DATA_V2 packet missing peer id")
      else .ok 4
    else .error (.protocol s!"not an openvpn data packet: {opcode.toNat}")

/-- The packet id and the plaintext out of the decrypted blocks. -/
def unpad (buf : Bytes) : Result (UInt32 × Bytes) :=
  let padding := (buf.getLastD 0).toNat
  if padding = 0 ∨ 16 < padding ∨ buf.length < padding then
    .error (.protocol "invalid openvpn CBC padding")
  else if (buf.drop (buf.length - padding)).any (·.toNat != padding) then
    .error (.protocol "invalid openvpn CBC padding")
  else
    let plain := buf.take (buf.length - padding)
    if plain.length < 4 then .error (.protocol "openvpn CBC plaintext missing packet id")
    else .ok (ofBE32 (plain.take 4), plain.drop 4)

/-- `decrypt` in front of `accept_packet_id`. -/
def openPacket (d : DataDirection) (packet : Bytes) : Result (UInt32 × Bytes) := do
  let headerSize ← headerSize packet
  let header := packet.take headerSize
  let body := packet.drop headerSize
  match d.cipher with
  | .aead a =>
    if packet.length < headerSize + 4 + dataChannelTagSize + 1 then
      .error (.protocol "openvpn data packet too short")
    else
      let pidBytes := body.take 4
      let packetId := ofBE32 pidBytes
      let tag := slice body 4 dataChannelTagSize
      let ciphertext := body.drop (4 + dataChannelTagSize)
      let plain ← a.openCt (nonceOf packetId d.implicitIv) (ciphertext ++ tag)
        (aeadAdditionalData header pidBytes)
      return (packetId, plain)
  | .cbc block mac =>
    if packet.length < headerSize + mac.size + 16 + 16 then
      .error (.protocol "openvpn CBC data packet too short")
    else
      let tag := body.take mac.size
      let authenticated := body.drop mac.size
      if tag ≠ (mac.mac hmac d.hmacKey [authenticated]).val then
        .error (.protocol "openvpn CBC data packet HMAC authentication failed")
      else
        let iv := authenticated.take 16
        let ciphertext := authenticated.drop 16
        if ciphertext = [] ∨ ciphertext.length % 16 ≠ 0 then
          .error (.protocol "invalid openvpn CBC ciphertext length")
        else unpad (cbcDecryptBlocks block (ciphertext.length / 16) (toBlock iv) ciphertext)

/-! ## What was sealed opens -/

variable {hmac}

theorem headerSize_dataHeader (peerId : UInt32) (keyId : UInt8) (rest : Bytes) :
    headerSize (dataHeader peerId keyId ++ rest) = .ok (dataHeader peerId keyId).length := by
  have hv1 : (parseOpcodeKeyId (opcodeKeyId pDataV1 keyId)).1 = pDataV1 :=
    Aes.forall_byte (P := fun k => (parseOpcodeKeyId (opcodeKeyId pDataV1 k)).1 = pDataV1)
      (by decide +kernel) keyId
  have hv2 : (parseOpcodeKeyId (opcodeKeyId pDataV2 keyId)).1 = pDataV2 :=
    Aes.forall_byte (P := fun k => (parseOpcodeKeyId (opcodeKeyId pDataV2 k)).1 = pDataV2)
      (by decide +kernel) keyId
  unfold dataHeader headerSize
  by_cases hpeer : peerId ≠ peerIdUnset
  · rw [if_pos hpeer]
    simp only [List.cons_append, List.nil_append, hv2, List.length_cons, List.length_nil]
    rw [if_neg (by decide), if_pos trivial, if_neg (by omega)]
  · rw [if_neg hpeer]
    simp only [List.cons_append, List.nil_append, hv1, List.length_cons, List.length_nil]
    rw [if_pos trivial]

theorem length_cbcPlain (packetId : UInt32) (packet : Bytes) :
    (cbcPlain packetId packet).length = 16 * ((4 + packet.length) / 16 + 1) := by
  unfold cbcPlain
  dsimp only
  rw [List.length_append, List.length_append, length_be32, List.length_replicate]
  omega

theorem unpad_cbcPlain (packetId : UInt32) (packet : Bytes) :
    unpad (cbcPlain packetId packet) = .ok (packetId, packet) := by
  unfold cbcPlain
  dsimp only
  obtain ⟨n, hn⟩ : ∃ n, 16 - (4 + packet.length) % 16 = n + 1 :=
    ⟨15 - (4 + packet.length) % 16, by omega⟩
  have hle : n + 1 ≤ 16 := by omega
  rw [hn]
  have hbyte : (UInt8.ofNat (n + 1)).toNat = n + 1 := UInt8.toNat_ofNat_of_lt' (by
    unfold UInt8.size
    omega)
  have hlast : (be32 packetId ++ packet ++ List.replicate (n + 1) (UInt8.ofNat (n + 1))).getLastD 0 =
      UInt8.ofNat (n + 1) := by
    rw [List.replicate_succ', ← List.append_assoc, List.getLastD_concat]
  have hlen : (be32 packetId ++ packet).length = 4 + packet.length := by
    rw [List.length_append, length_be32]
  have htotal : (be32 packetId ++ packet ++
      List.replicate (n + 1) (UInt8.ofNat (n + 1))).length = 4 + packet.length + (n + 1) := by
    rw [List.length_append, hlen, List.length_replicate]
  have hall : (List.replicate (n + 1) (UInt8.ofNat (n + 1))).any (·.toNat != n + 1) = false := by
    rw [List.any_eq_false]
    intro b hb
    rw [List.eq_of_mem_replicate hb, hbyte, bne_self_eq_false]
    exact Bool.false_ne_true
  unfold unpad
  rw [hlast, hbyte]
  dsimp only
  rw [htotal, Nat.add_sub_cancel, ← hlen, List.drop_left, List.take_left, hall, hlen,
    if_neg (by omega), if_neg Bool.false_ne_true, if_neg (by omega),
    List.take_left' (length_be32 packetId), List.drop_left' (length_be32 packetId), ofBE32_be32]

/-- What one end seals the other opens. -/
theorem openPacket_seal {d : DataDirection} {peerId : UInt32} {keyId : UInt8} {packetId : UInt32}
    {iv : Aes.Block} {packet wire : Bytes} (hne : packet ≠ [])
    (h : sealPacket hmac d (dataHeader peerId keyId) packetId iv packet = some wire) :
    openPacket hmac d wire = .ok (packetId, packet) := by
  have hheader := headerSize_dataHeader peerId keyId
  generalize dataHeader peerId keyId = header at h hheader
  unfold sealPacket at h
  unfold openPacket
  cases hcipher : d.cipher with
  | aead a =>
    rw [hcipher] at h
    dsimp only at h
    obtain ⟨sealed, hsealed, h⟩ := Option.bind_eq_some_iff.mp h
    have hlen := DataAead.length_sealed hsealed
    have hpos := List.length_pos_of_ne_nil hne
    rw [List.splitAt_eq] at h
    cases h
    have hsplit := List.take_append_drop (sealed.length - dataChannelTagSize) sealed
    have htag : (sealed.drop (sealed.length - dataChannelTagSize)).length = dataChannelTagSize := by
      rw [List.length_drop]
      omega
    have hct : (sealed.take (sealed.length - dataChannelTagSize)).length = packet.length := by
      rw [List.length_take]
      omega
    generalize sealed.take (sealed.length - dataChannelTagSize) = ct at hsplit hct
    generalize sealed.drop (sealed.length - dataChannelTagSize) = tag at hsplit htag
    rw [List.append_assoc, List.append_assoc, hheader]
    dsimp only [bind, Except.bind]
    rw [List.take_left, List.drop_left, if_neg (by
      simp only [List.length_append, length_be32, htag, hct]
      omega), List.take_left' (length_be32 packetId), ofBE32_be32,
      ← Nat.zero_add 4, slice_skip (k := 4) (length_be32 packetId), slice_here htag]
    have hrest : (be32 packetId ++ (tag ++ ct)).drop (0 + 4 + dataChannelTagSize) = ct := by
      rw [← List.append_assoc, List.drop_left' (by rw [List.length_append, length_be32, htag])]
    rw [hrest, hsplit, DataAead.openCt_sealed hsealed]
    rfl
  | cbc block mac =>
    rw [hcipher] at h
    dsimp only at h
    cases h
    have hplain := length_cbcPlain packetId packet
    have hct := length_cbcEncryptBlocks block ((cbcPlain packetId packet).length / 16) iv
      (cbcPlain packetId packet)
    have hblocked : (cbcPlain packetId packet).length =
        16 * ((cbcPlain packetId packet).length / 16) := by omega
    have hround := cbcDecrypt_encrypt block iv hblocked
    generalize cbcEncryptBlocks block ((cbcPlain packetId packet).length / 16) iv
      (cbcPlain packetId packet) = ct at hct hround
    obtain ⟨tag, htag⟩ : ∃ tag, tag = (mac.mac hmac d.hmacKey [iv.val ++ ct]).val := ⟨_, rfl⟩
    have htaglen : tag.length = mac.size := by rw [htag, ByteVec.length_val]
    have hiv := ByteVec.length_val iv
    have hctne : ¬ (ct = [] ∨ ct.length % 16 ≠ 0) := by
      rintro (hnil | hmod)
      · rw [hnil, List.length_nil] at hct
        omega
      · omega
    have hblocks : ct.length / 16 = (cbcPlain packetId packet).length / 16 := by omega
    rw [← htag, List.append_assoc, hheader]
    dsimp only [bind, Except.bind]
    rw [List.drop_left, if_neg (by
      simp only [List.length_append, htaglen, hiv]
      omega), List.take_left' htaglen, List.drop_left' htaglen, if_neg (not_not.mpr htag),
      List.drop_left' hiv, List.take_left' hiv, if_neg hctne, toBlock_val, hblocks, hround,
      unpad_cbcPlain]

end RustCrash.OpenVpn
