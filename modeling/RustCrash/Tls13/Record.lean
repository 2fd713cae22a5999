import RustCrash.Proto.Aead

/-
  `proto/reality/tls13.rs`: the record layer of TLS 1.3 and its traffic keys.

  A direction is a secret, the keys made from it, and a count of the records under them. The HKDF
  crate is a parameter, `Hkdf`. Secrets and keys have their lengths in their types, so what the
  source checks of them always holds.
-/

namespace RustCrash.Tls13

open Lib Proto

def recordCcs : UInt8 := 20
def recordAlert : UInt8 := 21
def recordHandshake : UInt8 := 22
def recordApp : UInt8 := 23
def versionTls12 : UInt16 := 0x0303
def hsNewSessionTicket : UInt8 := 4
def hsKeyUpdate : UInt8 := 24
def maxPlaintext : Nat := 16384
def maxCiphertext : Nat := maxPlaintext + 1 + 16
def maxKeyUpdates : Nat := 8

/-! ## Suites and keys -/

inductive HashKind where
  | sha256
  | sha384
  deriving DecidableEq

def HashKind.digestLen : HashKind → Nat
  | sha256 => 32
  | sha384 => 48

inductive CipherSuite where
  | aes128GcmSha256
  | aes256GcmSha384
  | chacha20Poly1305Sha256
  deriving DecidableEq

namespace CipherSuite

def hash : CipherSuite → HashKind
  | aes128GcmSha256 => .sha256
  | aes256GcmSha384 => .sha384
  | chacha20Poly1305Sha256 => .sha256

def aeadKind : CipherSuite → AeadKind
  | aes128GcmSha256 => .aes128Gcm
  | aes256GcmSha384 => .aes256Gcm
  | chacha20Poly1305Sha256 => .chacha20Poly1305

def keyLen (suite : CipherSuite) : Nat := suite.aeadKind.keyLen

end CipherSuite

/-- The crate `hkdf`: the pseudo-random key, the info and the number of bytes. -/
structure Hkdf where
  expand : HashKind → Bytes → Bytes → (n : Nat) → ByteVec n

def hkdfExpandLabel (K : Hkdf) (hash : HashKind) (secret : Bytes) (label : String) (n : Nat) :
    ByteVec n :=
  let full := utf8 ("tls13 " ++ label).toList
  K.expand hash secret (be16 (.ofNat n) ++ [.ofNat full.length] ++ full ++ [0]) n

abbrev Secret (suite : CipherSuite) := ByteVec suite.hash.digestLen

/-- One direction of the TLS 1.3 record layer. -/
structure RecordProtector where
  aead : Aead
  iv : ByteVec 12
  seq : UInt64

section

variable (K : Hkdf) {suite : CipherSuite}

def nextTrafficSecret (secret : Secret suite) : Secret suite :=
  hkdfExpandLabel K suite.hash secret.val "traffic upd" suite.hash.digestLen

/-- `RecordProtector::new` of `traffic_keys`. -/
def RecordProtector.new (secret : Secret suite) : RecordProtector :=
  let key := hkdfExpandLabel K suite.hash secret.val "key" suite.keyLen
  ⟨⟨suite.aeadKind, key.val, key.property⟩, hkdfExpandLabel K suite.hash secret.val "iv" 12, 0⟩

end

/-! ## Sealing and opening -/

namespace RecordProtector

/-- The static IV XORed with the sequence number. -/
def nonce (p : RecordProtector) : ByteVec 12 :=
  ⟨p.iv.val.zipWith (· ^^^ ·) (List.replicate 4 0 ++ be64 p.seq), by simp⟩

def header (ctLen : Nat) : Bytes := recordApp :: be16 versionTls12 ++ be16 (.ofNat ctLen)

def overflow : Error := .crypto "tls13: record sequence overflow"

/-- `seal` of the plaintext with its type and whatever is behind it. -/
def sealInner (p : RecordProtector) (inner : Bytes) : RecordProtector × Result Bytes :=
  if p.seq = 0xffffffffffffffff then (p, .error overflow)
  else
    let header := header (inner.length + 16)
    ({ p with seq := p.seq + 1 }, do
      let ct ← p.aead.sealed p.nonce header inner
      .ok (header ++ ct))

/-- `seal`. -/
def sealRecord (p : RecordProtector) (innerType : UInt8) (plaintext : Bytes) :
    RecordProtector × Result Bytes :=
  if maxPlaintext < plaintext.length then
    (p, .error (.crypto "tls13: record plaintext too large"))
  else p.sealInner (plaintext ++ [innerType])

/-- The type is the last byte that is not zero. -/
def splitInner (inner : Bytes) : Result (UInt8 × Bytes) :=
  let trimmed := inner.rdropWhile (· == 0)
  match trimmed.getLast? with
  | none => .error (.protocol "tls13: all-zero inner plaintext")
  | some innerType => .ok (innerType, trimmed.dropLast)

/-- `open`. -/
def openRecord (p : RecordProtector) (record : Bytes) :
    RecordProtector × Result (UInt8 × Bytes) :=
  if record.length < 5 + 16 + 1 ∨ record.headD 0 ≠ recordApp then
    (p, .error (.protocol "tls13: malformed encrypted record"))
  else if p.seq = 0xffffffffffffffff then (p, .error overflow)
  else
    ({ p with seq := p.seq + 1 }, do
      let inner ← p.aead.openCt p.nonce (record.take 5) (record.drop 5)
      splitInner inner)

theorem rdropWhile_zeros (xs : Bytes) (pad : Nat) :
    (xs ++ List.replicate pad 0).rdropWhile (· == 0) = xs.rdropWhile (· == 0) := by
  induction pad with
  | zero => rw [List.replicate_zero, List.append_nil]
  | succ pad ih =>
    rw [List.replicate_succ', ← List.append_assoc, List.rdropWhile_concat, if_pos (by rfl), ih]

theorem splitInner_padded {innerType : UInt8} (h : innerType ≠ 0) (plaintext : Bytes)
    (pad : Nat) :
    splitInner (plaintext ++ [innerType] ++ List.replicate pad 0) = .ok (innerType, plaintext) := by
  unfold splitInner
  rw [rdropWhile_zeros, List.rdropWhile_concat,
    if_neg (by rw [beq_iff_eq]; exact h)]
  dsimp only
  rw [List.getLast?_concat, List.dropLast_concat]

@[simp] theorem length_header (ctLen : Nat) : (header ctLen).length = 5 := by
  unfold header
  simp

variable {p p' : RecordProtector} {inner plaintext record : Bytes} {innerType : UInt8}

theorem sealInner_eq_ok (h : p.sealInner inner = (p', .ok record)) :
    p.seq ≠ 0xffffffffffffffff ∧ p' = { p with seq := p.seq + 1 } ∧
      ∃ ct, p.aead.sealed p.nonce (header (inner.length + 16)) inner = .ok ct ∧
        record = header (inner.length + 16) ++ ct := by
  unfold sealInner at h
  split_ifs at h with hseq
  · cases h
  · rw [Prod.mk.injEq] at h
    obtain ⟨rfl, h⟩ := h
    obtain ⟨ct, hct, h⟩ := bind_eq_ok.mp h
    cases h
    exact ⟨hseq, rfl, ct, hct, rfl⟩

/-- What is not too long is sealed, unless the numbers have run out. -/
theorem sealInner_short (hseq : p.seq ≠ 0xffffffffffffffff) (h : inner.length < 2 ^ 32) :
    ∃ record, p.sealInner inner = ({ p with seq := p.seq + 1 }, .ok record) := by
  have haad : (header (inner.length + 16)).length < 2 ^ 32 := by
    rw [length_header]
    decide
  obtain ⟨ct, hct⟩ := p.aead.sealed_short p.nonce h haad
  refine ⟨header (inner.length + 16) ++ ct, ?_⟩
  unfold sealInner
  rw [if_neg hseq]
  dsimp only
  rw [hct]
  rfl

theorem length_sealInner (h : p.sealInner inner = (p', .ok record)) :
    record.length = 5 + (inner.length + 16) := by
  obtain ⟨-, -, ct, hct, rfl⟩ := sealInner_eq_ok h
  rw [List.length_append, length_header, Aead.length_sealed hct]
  rfl

theorem openRecord_sealInner (h : p.sealInner inner = (p', .ok record)) (hne : inner ≠ []) :
    p.openRecord record = (p', splitInner inner) := by
  have hlen := length_sealInner h
  have hpos := List.length_pos_of_ne_nil hne
  obtain ⟨hseq, rfl, ct, hct, rfl⟩ := sealInner_eq_ok h
  have hhead : (header (inner.length + 16) ++ ct).headD 0 = recordApp := rfl
  unfold openRecord
  rw [if_neg (by
    rw [not_or, not_not, Nat.not_lt]
    exact ⟨by omega, hhead⟩), if_neg hseq, List.take_left' (length_header _),
    List.drop_left' (length_header _), Aead.openCt_sealed hct]
  rfl

/-- A padded record opens to what is in front of its type. -/
theorem openRecord_padded {pad : Nat} (htype : innerType ≠ 0)
    (h : p.sealInner (plaintext ++ [innerType] ++ List.replicate pad 0) = (p', .ok record)) :
    p.openRecord record = (p', .ok (innerType, plaintext)) := by
  rw [openRecord_sealInner h (by simp), splitInner_padded htype]

theorem sealRecord_eq_ok (h : p.sealRecord innerType plaintext = (p', .ok record)) :
    plaintext.length ≤ maxPlaintext ∧
      p.sealInner (plaintext ++ [innerType] ++ List.replicate 0 0) = (p', .ok record) := by
  unfold sealRecord at h
  split_ifs at h with hlong
  · cases h
  · exact ⟨Nat.not_lt.mp hlong, by rw [List.replicate_zero, List.append_nil]; exact h⟩

/-- Nothing else than the count keeps a plaintext of the right size from being sealed. -/
theorem sealRecord_cases (p : RecordProtector) (innerType : UInt8) {plaintext : Bytes}
    (h : plaintext.length ≤ maxPlaintext) :
    (∃ key record, p.sealRecord innerType plaintext = (key, .ok record)) ∨
      p.seq = 0xffffffffffffffff ∧ p.sealRecord innerType plaintext = (p, .error overflow) := by
  unfold sealRecord
  rw [if_neg (Nat.not_lt.mpr h)]
  by_cases hseq : p.seq = 0xffffffffffffffff
  · refine .inr ⟨hseq, ?_⟩
    unfold sealInner
    rw [if_pos hseq]
  · have hlen : (plaintext ++ [innerType]).length < 2 ^ 32 := by
      rw [List.length_append]
      unfold maxPlaintext at h
      exact Nat.lt_of_le_of_lt (Nat.add_le_add_right h 1) (by decide)
    obtain ⟨record, hrecord⟩ := sealInner_short hseq hlen
    exact .inl ⟨_, record, hrecord⟩

theorem openRecord_sealRecord (htype : innerType ≠ 0)
    (h : p.sealRecord innerType plaintext = (p', .ok record)) :
    p.openRecord record = (p', .ok (innerType, plaintext)) :=
  openRecord_padded htype (sealRecord_eq_ok h).2

end RecordProtector

/-! ## Where a record ends -/

/-- The length that the header of a record gives. -/
def recordLen (buf : Bytes) : Nat := (ofBE16 (slice buf 3 2)).toNat

/-- The buffer begins with a whole record. -/
def Whole (buf : Bytes) : Prop := 5 ≤ buf.length ∧ 5 + recordLen buf ≤ buf.length

instance (buf : Bytes) : Decidable (Whole buf) := inferInstanceAs (Decidable (_ ∧ _))

theorem recordLen_append {record : Bytes} (h : 5 ≤ record.length) (rest : Bytes) :
    recordLen (record ++ rest) = recordLen record := by
  unfold recordLen slice
  rw [List.drop_append_of_le_length (by omega), List.take_append_of_le_length (by
    rw [List.length_drop]
    omega)]

namespace RecordProtector

variable {p p' : RecordProtector} {inner record : Bytes}

theorem recordLen_sealInner (h : p.sealInner inner = (p', .ok record))
    (hshort : inner.length + 16 < 2 ^ 16) : recordLen record = inner.length + 16 := by
  obtain ⟨-, -, ct, -, rfl⟩ := sealInner_eq_ok h
  rw [recordLen_append (by rw [length_header])]
  unfold recordLen header
  have hslice : slice (recordApp :: be16 versionTls12 ++ be16 (.ofNat (inner.length + 16))) 3 2 =
      be16 (.ofNat (inner.length + 16)) := by
    have hfront : (recordApp :: be16 versionTls12).length = 3 := by simp
    have hskip := @slice_skip (recordApp :: be16 versionTls12)
      (be16 (.ofNat (inner.length + 16))) 3 0 2 hfront
    rw [Nat.zero_add] at hskip
    rw [hskip]
    exact slice_all (length_be16 _)
  rw [hslice, ofBE16_be16, UInt16.toNat_ofNat', Nat.mod_eq_of_lt hshort]

end RecordProtector

/-! ## Handshake messages -/

def hsMessage (typ : UInt8) (body : Bytes) : Bytes := typ :: toBE 3 body.length ++ body

/-- The type, the message with its header, and what is left. -/
def takeHandshake (buf : Bytes) : Option (UInt8 × Bytes × Bytes) :=
  if buf.length < 4 then none
  else
    let len := ofBE (slice buf 1 3)
    if buf.length < 4 + len then none
    else some (buf.headD 0, buf.take (4 + len), buf.drop (4 + len))

/-- The level and the description are behind the header of the record. -/
def alertError (record : Bytes) : Error :=
  let desc := record.getD 6 0
  let level := record.getD 5 0
  .protocol s!"tls13: server sent alert level={level.toNat} description={desc.toNat}"

end RustCrash.Tls13
