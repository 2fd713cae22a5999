import RustCrash.Error
import RustCrash.Lib.ChaChaPoly

/-
  What every mieru segment is made of: a block of metadata, and what the cipher makes of it.
-/

/-! ## Metadata

The 32-byte metadata block in front of every mieru segment. The four session protocols share
one layout and all others another; `parse_metadata` reads both into `InboundMeta`, and what
`session_struct` and `data_ack_struct` write it reads back. -/

namespace RustCrash.Mieru

open Lib

def metadataLength : Nat := 32
def maxSessionOpenPayload : Nat := 1024

def openSessionRequest : UInt8 := 2
def openSessionResponse : UInt8 := 3
def closeSessionRequest : UInt8 := 4
def closeSessionResponse : UInt8 := 5
def dataClientToServer : UInt8 := 6
def dataServerToClient : UInt8 := 7
def ackClientToServer : UInt8 := 8
def ackServerToClient : UInt8 := 9

structure InboundMeta where
  protocol : UInt8
  sessionId : UInt32
  seq : UInt32
  status : UInt8
  payloadLen : UInt16
  suffixLen : UInt8
  prefixLen : UInt8
  unAck : UInt32
  window : UInt16
  deriving DecidableEq

def isSessionProtocol (p : UInt8) : Bool :=
  p == openSessionRequest || p == openSessionResponse || p == closeSessionRequest ||
    p == closeSessionResponse

/-- `now` is the current time in minutes. -/
def timestampOk (now ts : UInt32) : Bool := ts == now || ts == now + 1 || ts == now - 1

/-- The fields of a block of either layout. -/
def metadataFields (b : Bytes) : InboundMeta :=
  let protocol := b.getD 0 0
  let common : InboundMeta :=
    { protocol, sessionId := ofBE32 (slice b 6 4), seq := ofBE32 (slice b 10 4)
      status := b.getD 14 0, payloadLen := 0, suffixLen := 0, prefixLen := 0, unAck := 0
      window := 0 }
  if isSessionProtocol protocol then
    { common with payloadLen := ofBE16 (slice b 15 2), suffixLen := b.getD 17 0 }
  else
    { common with
      payloadLen := ofBE16 (slice b 22 2), suffixLen := b.getD 24 0, prefixLen := b.getD 21 0
      unAck := ofBE32 (slice b 14 4), window := ofBE16 (slice b 18 2) }

def parseMetadata (now : UInt32) (b : Bytes) : Result InboundMeta := do
  ensure (b.length = metadataLength)
    (.protocol s!"mieru: metadata length {b.length} != {metadataLength}")
  let ts := ofBE32 (slice b 2 4)
  ensure (timestampOk now ts) (.protocol s!"mieru: invalid timestamp {ts.toNat * 60}")
  let m := metadataFields b
  ensure (¬ (isSessionProtocol m.protocol ∧ maxSessionOpenPayload < m.payloadLen.toNat))
    (.protocol s!"mieru: session payload {m.payloadLen.toNat} exceeds {maxSessionOpenPayload}")
  return m

theorem parseMetadata_eq_ok {now : UInt32} {b : Bytes} {m : InboundMeta} :
    parseMetadata now b = .ok m ↔ b.length = metadataLength ∧
      timestampOk now (ofBE32 (slice b 2 4)) ∧
      ¬ (isSessionProtocol m.protocol ∧ maxSessionOpenPayload < m.payloadLen.toNat) ∧
      m = metadataFields b := by
  unfold parseMetadata
  simp only [bind_eq_ok, ensure_eq_ok, exists_const, pure_eq, Except.ok.injEq]
  constructor
  · rintro ⟨hlen, hts, hcap, rfl⟩
    exact ⟨hlen, hts, hcap, rfl⟩
  · rintro ⟨hlen, hts, hcap, rfl⟩
    exact ⟨hlen, hts, hcap, rfl⟩

/-- A session segment has no prefix padding. -/
theorem prefixLen_session {b : Bytes} (h : isSessionProtocol (metadataFields b).protocol) :
    (metadataFields b).prefixLen = 0 := by
  unfold metadataFields at h ⊢
  dsimp only at h ⊢
  split_ifs with hs
  · rfl
  · rw [if_neg hs] at h
    exact absurd h hs

/-! ## Writing -/

def sessionStruct (now : UInt32) (protocol : UInt8) (sessionId seq : UInt32) (status : UInt8)
    (payloadLen : UInt16) (suffixLen : UInt8) : Bytes :=
  [protocol, 0] ++ be32 now ++ be32 sessionId ++ be32 seq ++ [status] ++ be16 payloadLen ++
    [suffixLen] ++ List.replicate 14 0

def dataAckStruct (now : UInt32) (protocol : UInt8) (sessionId seq unAckSeq : UInt32)
    (window : UInt16) (fragment prefixLen : UInt8) (payloadLen : UInt16) (suffixLen : UInt8) :
    Bytes :=
  [protocol, 0] ++ be32 now ++ be32 sessionId ++ be32 seq ++ be32 unAckSeq ++ be16 window ++
    [fragment, prefixLen] ++ be16 payloadLen ++ [suffixLen] ++ List.replicate 7 0

theorem length_sessionStruct (now : UInt32) (protocol : UInt8) (sessionId seq : UInt32)
    (status : UInt8) (payloadLen : UInt16) (suffixLen : UInt8) :
    (sessionStruct now protocol sessionId seq status payloadLen suffixLen).length =
      metadataLength := by
  simp [sessionStruct, metadataLength]

theorem length_dataAckStruct (now : UInt32) (protocol : UInt8) (sessionId seq unAckSeq : UInt32)
    (window : UInt16) (fragment prefixLen : UInt8) (payloadLen : UInt16) (suffixLen : UInt8) :
    (dataAckStruct now protocol sessionId seq unAckSeq window fragment prefixLen payloadLen
      suffixLen).length = metadataLength := by
  simp [dataAckStruct, metadataLength]

/-- A session block reads back as it was written. -/
theorem parse_sessionStruct {now ts : UInt32} {protocol : UInt8} {sessionId seq : UInt32}
    {status : UInt8} {payloadLen : UInt16} {suffixLen : UInt8}
    (hp : isSessionProtocol protocol) (hts : timestampOk now ts)
    (hcap : payloadLen.toNat ≤ maxSessionOpenPayload) :
    parseMetadata now (sessionStruct ts protocol sessionId seq status payloadLen suffixLen) =
      .ok ⟨protocol, sessionId, seq, status, payloadLen, suffixLen, 0, 0, 0⟩ := by
  have hfields : metadataFields (sessionStruct ts protocol sessionId seq status payloadLen
      suffixLen) = ⟨protocol, sessionId, seq, status, payloadLen, suffixLen, 0, 0, 0⟩ := by
    have hsid : slice (sessionStruct ts protocol sessionId seq status payloadLen suffixLen) 6 4 =
        be32 sessionId := rfl
    have hseq : slice (sessionStruct ts protocol sessionId seq status payloadLen suffixLen) 10 4 =
        be32 seq := rfl
    have hlen : slice (sessionStruct ts protocol sessionId seq status payloadLen suffixLen) 15 2 =
        be16 payloadLen := rfl
    unfold metadataFields
    rw [hsid, hseq, hlen, ofBE32_be32, ofBE32_be32, ofBE16_be16]
    exact if_pos hp
  refine parseMetadata_eq_ok.mpr ⟨length_sessionStruct _ _ _ _ _ _ _, ?_, ?_, hfields.symm⟩
  · have hslice : slice (sessionStruct ts protocol sessionId seq status payloadLen suffixLen) 2 4 =
        be32 ts := rfl
    rw [hslice, ofBE32_be32]
    exact hts
  · exact fun h => Nat.not_lt.mpr hcap h.2

/-- A data block reads back as it was written. -/
theorem parse_dataAckStruct {now ts : UInt32} {protocol : UInt8} {sessionId seq unAckSeq : UInt32}
    {window : UInt16} {fragment prefixLen : UInt8} {payloadLen : UInt16} {suffixLen : UInt8}
    (hp : ¬ isSessionProtocol protocol) (hts : timestampOk now ts) :
    ∃ status, parseMetadata now (dataAckStruct ts protocol sessionId seq unAckSeq window fragment
        prefixLen payloadLen suffixLen) =
      .ok ⟨protocol, sessionId, seq, status, payloadLen, suffixLen, prefixLen, unAckSeq,
        window⟩ := by
  generalize hb : dataAckStruct ts protocol sessionId seq unAckSeq window fragment prefixLen
    payloadLen suffixLen = b
  have hlen : b.length = metadataLength := by
    rw [← hb]
    exact length_dataAckStruct _ _ _ _ _ _ _ _ _ _
  have hslices : slice b 2 4 = be32 ts ∧ slice b 6 4 = be32 sessionId ∧ slice b 10 4 = be32 seq ∧
      slice b 14 4 = be32 unAckSeq ∧ slice b 18 2 = be16 window ∧
      slice b 22 2 = be16 payloadLen := by
    rw [← hb]
    exact ⟨rfl, rfl, rfl, rfl, rfl, rfl⟩
  have hbytes : b.getD 0 0 = protocol ∧ b.getD 21 0 = prefixLen ∧ b.getD 24 0 = suffixLen := by
    rw [← hb]
    exact ⟨rfl, rfl, rfl⟩
  obtain ⟨hnow, hsid, hseq, hack, hwin, hplen⟩ := hslices
  obtain ⟨hproto, hpre, hsuf⟩ := hbytes
  refine ⟨b.getD 14 0, parseMetadata_eq_ok.mpr ⟨hlen, ?_, fun h => hp h.1, ?_⟩⟩
  · rw [hnow, ofBE32_be32]
    exact hts
  · unfold metadataFields
    rw [hsid, hseq, hack, hwin, hplen, hproto, hpre, hsuf, ofBE32_be32, ofBE32_be32, ofBE32_be32,
      ofBE16_be16, ofBE16_be16]
    exact (if_neg hp).symm

end RustCrash.Mieru

/-! ## The cipher

The mieru cipher in implicit-nonce mode (`StatefulCipher`).

The first message of a direction carries the nonce in front, and every later one uses the
nonce of the one before it, incremented. Both ends count alike: what one end seals the other
opens, provided it opens every block once and in order (`decrypt_sealed`). -/

namespace RustCrash.Mieru

open Lib ChaChaPoly

def nonceSize : Nat := 24
def tagSize : Nat := 16
def hintPrefixLen : Nat := 16
def hintSuffixLen : Nat := 4

-- SHA-256
variable (sha256 : Bytes → ByteVec 32)

def userHintDigest (username front : Bytes) : ByteVec 32 := sha256 (username ++ front)

/-- `nonce` with the digest written over its tail. -/
def stamped (nonce : ByteVec 24) (digest : ByteVec 32) : Bytes :=
  setBytes nonce.val (nonceSize - hintSuffixLen) (digest.val.take hintSuffixLen)

theorem length_stamped (nonce : ByteVec 24) (digest : ByteVec 32) :
    (stamped nonce digest).length = 24 := by
  have hdigest : (digest.val.take hintSuffixLen).length = 4 := by
    rw [List.length_take, digest.property]
    rfl
  unfold stamped
  rw [length_setBytes (by rw [hdigest, nonce.property]; decide), nonce.property]

def applyUserHint (username : Bytes) (nonce : ByteVec 24) : ByteVec 24 :=
  ⟨stamped nonce (userHintDigest sha256 username (nonce.val.take hintPrefixLen)),
    length_stamped _ _⟩

/-- Add one at the front and carry. -/
def carry : Bytes → Bytes
  | [] => []
  | b :: bs => if b = 255 then 0 :: carry bs else (b + 1) :: bs

theorem length_carry (bs : Bytes) : (carry bs).length = bs.length := by
  induction bs with
  | nil => rfl
  | cons b bs ih =>
    unfold carry
    split_ifs
    · rw [List.length_cons, ih, List.length_cons]
    · rfl

theorem length_incremented (nonce : ByteVec 24) :
    (carry nonce.val.reverse).reverse.length = 24 := by
  rw [List.length_reverse, length_carry, List.length_reverse, nonce.property]

def incrementNonce (nonce : ByteVec 24) : ByteVec 24 :=
  ⟨(carry nonce.val.reverse).reverse, length_incremented nonce⟩

structure StatefulCipher where
  key : ByteVec 32
  nonce : Option (ByteVec 24)
  nonceSent : Bool
  username : Bytes

theorem nonce_fits {ciphertext : Bytes} (h : nonceSize + tagSize ≤ ciphertext.length) :
    0 + 24 ≤ ciphertext.length := by
  simp only [nonceSize, tagSize] at h
  omega

namespace StatefulCipher

def new (key : ByteVec 32) (username : Bytes) : StatefulCipher := ⟨key, none, false, username⟩

/-- The nonce of the next block; `rng` is what the random generator gives for the first. -/
def sealNonce (rng : ByteVec 24) (c : StatefulCipher) : ByteVec 24 :=
  match c.nonce with
  | none => applyUserHint sha256 c.username rng
  | some n => incrementNonce n

def encrypt (rng : ByteVec 24) (c : StatefulCipher) (plaintext : Bytes) :
    StatefulCipher × Result Bytes :=
  let nonce := c.sealNonce sha256 rng
  let c := { c with nonce := some nonce }
  match xencrypt c.key nonce plaintext [] with
  | none => (c, .error (.crypto "mieru: encryption failed"))
  | some ct =>
    if c.nonceSent then (c, .ok ct)
    else ({ c with nonceSent := true }, .ok (nonce.val ++ ct))

def openWith (c : StatefulCipher) (nonce : ByteVec 24) (body : Bytes) :
    StatefulCipher × Result Bytes :=
  ({ c with nonce := some nonce }, okOr (xdecrypt c.key nonce body [])
    (.crypto "mieru: decryption failed (wrong key or corrupted data)"))

def decrypt (c : StatefulCipher) (ciphertext : Bytes) : StatefulCipher × Result Bytes :=
  match c.nonce with
  | none =>
    if h : nonceSize + tagSize ≤ ciphertext.length then
      c.openWith (sliceVec ciphertext 0 24 (nonce_fits h)) (ciphertext.drop nonceSize)
    else (c, .error (.protocol "mieru: ciphertext shorter than nonce"))
  | some n => c.openWith (incrementNonce n) ciphertext

/-! ## The two ends of one direction -/

/-- The end that seals and the end that opens have counted the same blocks. -/
structure InStep (tx rx : StatefulCipher) : Prop where
  key : tx.key = rx.key
  nonce : tx.nonce = rx.nonce
  sent : tx.nonceSent = tx.nonce.isSome

theorem new_inStep (key : ByteVec 32) (user user' : Bytes) :
    InStep (new key user) (new key user') := ⟨rfl, rfl, rfl⟩

/-- The bytes in front of the next block. -/
def nonceLen (c : StatefulCipher) : Nat := if c.nonce.isNone then nonceSize else 0

variable {sha256} {rng : ByteVec 24} {tx tx' rx : StatefulCipher} {plain block : Bytes}

theorem xencrypt_length {key : ByteVec 32} {nonce : ByteVec 24} {ct : Bytes}
    (h : xencrypt key nonce plain [] = some ct) : ct.length = plain.length + tagSize :=
  length_encrypt h

/-- A block that was sealed, by what `encrypt` does. -/
theorem encrypt_ok (h : tx.encrypt sha256 rng plain = (tx', .ok block)) :
    ∃ ct, xencrypt tx.key (tx.sealNonce sha256 rng) plain [] = some ct ∧
      tx' = { tx with nonce := some (tx.sealNonce sha256 rng), nonceSent := true } ∧
      block = if tx.nonceSent then ct else (tx.sealNonce sha256 rng).val ++ ct := by
  unfold encrypt at h
  dsimp only at h
  cases hct : xencrypt tx.key (tx.sealNonce sha256 rng) plain [] with
  | none =>
    rw [hct] at h
    exact absurd (congrArg Prod.snd h) nofun
  | some ct =>
    rw [hct] at h
    refine ⟨ct, rfl, ?_⟩
    cases hsent : tx.nonceSent with
    | false =>
      simp only [hsent, Bool.false_eq_true, if_false, Prod.mk.injEq, Except.ok.injEq] at h
      exact ⟨h.1.symm, h.2.symm⟩
    | true =>
      simp only [hsent, if_true, Prod.mk.injEq, Except.ok.injEq] at h
      refine ⟨?_, h.2.symm⟩
      rw [← h.1]

theorem length_sealed (hstep : InStep tx rx) (h : tx.encrypt sha256 rng plain = (tx', .ok block)) :
    block.length = rx.nonceLen + plain.length + tagSize := by
  obtain ⟨ct, hct, _, rfl⟩ := encrypt_ok h
  have hlen := xencrypt_length hct
  unfold nonceLen
  rw [hstep.sent, ← hstep.nonce]
  cases tx.nonce with
  | none =>
    simp only [Option.isSome_none, Bool.false_eq_true, if_false, Option.isNone_none, if_true,
      List.length_append, ByteVec.length_val, nonceSize]
    omega
  | some n =>
    simp only [Option.isSome_some, if_true, Option.isNone_some, Bool.false_eq_true, if_false]
    omega

theorem sealed_ne_nil (h : tx.encrypt sha256 rng plain = (tx', .ok block)) : block ≠ [] := by
  obtain ⟨ct, hct, _, rfl⟩ := encrypt_ok h
  have hlen := xencrypt_length hct
  have hpos : ct ≠ [] := by
    apply List.ne_nil_of_length_pos
    rw [hlen]
    exact Nat.add_pos_right _ (by decide)
  split_ifs
  · exact hpos
  · exact List.append_ne_nil_of_right_ne_nil _ hpos

/-- What was sealed opens, and the two ends stay in step. -/
theorem decrypt_sealed (hstep : InStep tx rx)
    (h : tx.encrypt sha256 rng plain = (tx', .ok block)) :
    ∃ rx', rx.decrypt block = (rx', .ok plain) ∧ InStep tx' rx' ∧ rx'.nonceLen = 0 := by
  obtain ⟨ct, hct, rfl, rfl⟩ := encrypt_ok h
  have hopen := xopen_seal hct
  have hlen := xencrypt_length hct
  have hnonce := hstep.nonce
  refine ⟨{ rx with nonce := some (tx.sealNonce sha256 rng) }, ?_,
    ⟨hstep.key, rfl, rfl⟩, rfl⟩
  rw [hstep.sent]
  unfold decrypt openWith
  cases htx : tx.nonce with
  | none =>
    rw [htx] at hnonce
    rw [← hnonce]
    simp only [Option.isSome_none, Bool.false_eq_true, if_false]
    have hfits : nonceSize + tagSize ≤ ((tx.sealNonce sha256 rng).val ++ ct).length := by
      rw [List.length_append, ByteVec.length_val, hlen]
      simp only [nonceSize]
      omega
    have hslice : sliceVec ((tx.sealNonce sha256 rng).val ++ ct) 0 24 (nonce_fits hfits) =
        tx.sealNonce sha256 rng := Subtype.ext (slice_here (ByteVec.length_val _))
    have hdrop : ((tx.sealNonce sha256 rng).val ++ ct).drop nonceSize = ct :=
      List.drop_left' (ByteVec.length_val _)
    rw [dif_pos hfits, hslice, hdrop, ← hstep.key, hopen]
    rfl
  | some n =>
    rw [htx] at hnonce
    rw [← hnonce]
    have hnext : tx.sealNonce sha256 rng = incrementNonce n := by
      unfold sealNonce
      rw [htx]
    simp only [Option.isSome_some, if_true]
    rw [hnext] at hopen ⊢
    rw [← hstep.key, hopen]
    rfl

/-- Nothing that a segment can carry is too long to seal. -/
theorem encrypt_short (hshort : plain.length < 2 ^ 17) :
    ∃ tx' block, tx.encrypt sha256 rng plain = (tx', .ok block) := by
  obtain ⟨ct, hct⟩ : ∃ ct, xencrypt tx.key (tx.sealNonce sha256 rng) plain [] = some ct :=
    ChaChaPoly.encrypt_short _ _ [] (by omega)
  unfold encrypt
  dsimp only
  rw [hct]
  cases tx.nonceSent with
  | false => exact ⟨_, _, rfl⟩
  | true => exact ⟨_, _, rfl⟩

end StatefulCipher

end RustCrash.Mieru
