import RustCrash.Error
import RustCrash.Lib.AesGcm
import RustCrash.Lib.ChaChaPoly

/-
  `proto/aead.rs`: a keyed AEAD of one of three kinds, and the counting nonce of Shadowsocks and
  Snell.

  A direction of a connection is a key and a count. Both ends count every block, so what one end
  seals the other opens under the same nonce (`SsCrypto.openNext_sealed`).

  The hash functions of the crates are any functions with results of their lengths (`Hashes`).
-/

namespace RustCrash.Proto

open Lib

inductive AeadKind where
  | aes128Gcm
  | aes256Gcm
  | chacha20Poly1305
  deriving DecidableEq

namespace AeadKind

def keyLen : AeadKind → Nat
  | aes128Gcm => 16
  | aes256Gcm => 32
  | chacha20Poly1305 => 32

def debug : AeadKind → String
  | aes128Gcm => "Aes128Gcm"
  | aes256Gcm => "Aes256Gcm"
  | chacha20Poly1305 => "Chacha20Poly1305"

/-- The longest plaintext that is sealed. -/
def maxPlain : AeadKind → Nat
  | aes128Gcm | aes256Gcm => AesGcm.maxLen
  | chacha20Poly1305 => 64 * (2 ^ 32 - 1) - 1

end AeadKind

def tagSize : Nat := 16

/-- An AEAD with a key of the right length. -/
structure Aead where
  kind : AeadKind
  key : Bytes
  keyLen : key.length = kind.keyLen

namespace Aead

def new (kind : AeadKind) (key : Bytes) : Result Aead :=
  if h : key.length = kind.keyLen then .ok ⟨kind, key, h⟩
  else .error (.crypto s!"aead key length {key.length} != {kind.keyLen} for {kind.debug}")

theorem new_eq_ok {kind : AeadKind} {key : Bytes} (h : key.length = kind.keyLen) :
    new kind key = .ok ⟨kind, key, h⟩ := dif_pos h

/-- The key of the ChaCha20 crate, which has its length in the type. -/
def key32 (a : Aead) : ByteVec 32 :=
  ⟨(a.key ++ List.replicate 32 0).take 32, by
    rw [List.length_take, List.length_append, List.length_replicate]
    omega⟩

def encrypt (a : Aead) (nonce : ByteVec 12) (plain aad : Bytes) : Option Bytes :=
  match a.kind with
  | .aes128Gcm => AesGcm.encrypt a.key nonce plain aad
  | .aes256Gcm => AesGcm.encrypt a.key nonce plain aad
  | .chacha20Poly1305 => ChaChaPoly.encrypt a.key32 nonce plain aad

def decrypt (a : Aead) (nonce : ByteVec 12) (ct aad : Bytes) : Option Bytes :=
  match a.kind with
  | .aes128Gcm => AesGcm.decrypt a.key nonce ct aad
  | .aes256Gcm => AesGcm.decrypt a.key nonce ct aad
  | .chacha20Poly1305 => ChaChaPoly.decrypt a.key32 nonce ct aad

/-- The bytes that are appended to `out`. -/
def sealed (a : Aead) (nonce : ByteVec 12) (aad plain : Bytes) : Result Bytes :=
  okOr (a.encrypt nonce plain aad) (.crypto "aead seal failed")

/-- `open`. -/
def openCt (a : Aead) (nonce : ByteVec 12) (aad ct : Bytes) : Result Bytes :=
  okOr (a.decrypt nonce ct aad)
    (.crypto "aead open failed (wrong key, corrupted stream, or replayed salt")

variable {a : Aead} {nonce : ByteVec 12} {aad plain ct : Bytes}

theorem decrypt_encrypt {plain aad ct : Bytes} (h : a.encrypt nonce plain aad = some ct) :
    a.decrypt nonce ct aad = some plain := by
  unfold encrypt at h
  unfold decrypt
  cases hk : a.kind with
  | aes128Gcm =>
    rw [hk] at h
    exact AesGcm.open_seal h
  | aes256Gcm =>
    rw [hk] at h
    exact AesGcm.open_seal h
  | chacha20Poly1305 =>
    rw [hk] at h
    exact ChaChaPoly.open_seal h

/-- What opens is what was sealed. -/
theorem encrypt_decrypt {plain aad ct : Bytes} (h : a.decrypt nonce ct aad = some plain)
    (hplain : plain.length < 2 ^ 32) : a.encrypt nonce plain aad = some ct := by
  have hshort : plain.length ≤ AesGcm.maxLen := by
    unfold AesGcm.maxLen
    omega
  unfold decrypt at h
  unfold encrypt
  cases hk : a.kind with
  | aes128Gcm =>
    rw [hk] at h
    exact AesGcm.seal_open h hshort
  | aes256Gcm =>
    rw [hk] at h
    exact AesGcm.seal_open h hshort
  | chacha20Poly1305 =>
    rw [hk] at h
    exact ChaChaPoly.seal_open h

theorem length_encrypt {plain aad ct : Bytes} (h : a.encrypt nonce plain aad = some ct) :
    ct.length = plain.length + tagSize := by
  unfold encrypt at h
  cases hk : a.kind with
  | aes128Gcm =>
    rw [hk] at h
    exact AesGcm.length_encrypt h
  | aes256Gcm =>
    rw [hk] at h
    exact AesGcm.length_encrypt h
  | chacha20Poly1305 =>
    rw [hk] at h
    exact ChaChaPoly.length_encrypt h

theorem openCt_sealed (h : a.sealed nonce aad plain = .ok ct) :
    a.openCt nonce aad ct = .ok plain := by
  unfold openCt
  rw [decrypt_encrypt (okOr_eq_ok.mp h)]
  rfl

theorem sealed_openCt (h : a.openCt nonce aad ct = .ok plain) (hplain : plain.length < 2 ^ 32) :
    a.sealed nonce aad plain = .ok ct :=
  okOr_eq_ok.mpr (encrypt_decrypt (okOr_eq_ok.mp h) hplain)

theorem length_sealed (h : a.sealed nonce aad plain = .ok ct) :
    ct.length = plain.length + tagSize :=
  length_encrypt (okOr_eq_ok.mp h)

theorem sealed_ne_nil (h : a.sealed nonce aad plain = .ok ct) : ct ≠ [] := by
  apply List.ne_nil_of_length_pos
  rw [length_sealed h]
  exact Nat.add_pos_right _ (by decide)

/-- Nothing that a frame can carry is too long to seal. -/
theorem sealed_short (a : Aead) (nonce : ByteVec 12) {aad plain : Bytes}
    (hplain : plain.length < 2 ^ 32) (haad : aad.length < 2 ^ 32) :
    ∃ ct, a.sealed nonce aad plain = .ok ct := by
  have hgcm : plain.length ≤ AesGcm.maxLen ∧ aad.length ≤ AesGcm.maxLen := by
    unfold AesGcm.maxLen
    omega
  have hsome : ∃ ct, a.encrypt nonce plain aad = some ct := by
    unfold encrypt
    cases a.kind with
    | aes128Gcm => exact ⟨_, if_pos hgcm⟩
    | aes256Gcm => exact ⟨_, if_pos hgcm⟩
    | chacha20Poly1305 => exact ChaChaPoly.encrypt_short _ _ aad (by omega)
  obtain ⟨ct, hct⟩ := hsome
  exact ⟨ct, okOr_eq_ok.mpr hct⟩

theorem sealed_iff (a : Aead) (nonce : ByteVec 12) {plain : Bytes} :
    (∃ ct, a.sealed nonce [] plain = .ok ct) ↔ plain.length ≤ a.kind.maxPlain := by
  have hseal : (∃ ct, a.sealed nonce [] plain = .ok ct) ↔
      ∃ ct, a.encrypt nonce plain [] = some ct := exists_congr fun _ => okOr_eq_ok
  have hgcm : (∃ ct, AesGcm.encrypt a.key nonce plain [] = some ct) ↔
      plain.length ≤ AesGcm.maxLen := by
    unfold AesGcm.encrypt
    split_ifs with hlen
    · exact iff_of_true ⟨_, rfl⟩ hlen.1
    · exact iff_of_false nofun fun h => hlen ⟨h, Nat.zero_le _⟩
  rw [hseal]
  unfold encrypt
  cases a.kind with
  | aes128Gcm => exact hgcm
  | aes256Gcm => exact hgcm
  | chacha20Poly1305 =>
    dsimp only
    unfold ChaChaPoly.encrypt AeadKind.maxPlain
    dsimp only
    split_ifs with hlen
    · exact iff_of_true ⟨_, rfl⟩ (by omega)
    · exact iff_of_false nofun (by omega)

end Aead

/-! ## The counting nonce -/

/-- `SsNonce`: the count, and the nonce that `advance` gives for it. -/
def ssNonce (count : UInt64) : ByteVec 12 :=
  ⟨toLE 8 count.toNat ++ [0, 0, 0, 0], by rw [List.length_append, length_toLE]; rfl⟩

/-- One direction of a connection. `blocks`, the blocks that were sealed or opened, each with its
    count, is beside the program. -/
structure SsCrypto where
  aead : Aead
  nonce : UInt64
  blocks : List (UInt64 × Bytes)

namespace SsCrypto

def new (aead : Aead) : SsCrypto := ⟨aead, 0, []⟩

/-- After a block with the count `advance` gave. -/
def past (c : SsCrypto) (ct : Bytes) : SsCrypto :=
  { c with nonce := c.nonce + 1, blocks := c.blocks ++ [(c.nonce, ct)] }

/-- `seal(&nonce.advance(), ..)`. -/
def sealNext (c : SsCrypto) (plain : Bytes) : Result (SsCrypto × Bytes) := do
  let ct ← c.aead.sealed (ssNonce c.nonce) [] plain
  return (c.past ct, ct)

/-- `open(&nonce.advance(), ..)`. -/
def openNext (c : SsCrypto) (ct : Bytes) : SsCrypto × Result Bytes :=
  (c.past ct, c.aead.openCt (ssNonce c.nonce) [] ct)

variable {c c' : SsCrypto} {plain ct : Bytes}

theorem sealNext_eq_ok : c.sealNext plain = .ok (c', ct) ↔
    c.aead.sealed (ssNonce c.nonce) [] plain = .ok ct ∧ c' = c.past ct := by
  unfold sealNext
  rw [bind_eq_ok]
  simp only [pure_eq, Except.ok.injEq, Prod.mk.injEq]
  constructor
  · rintro ⟨ct, h, rfl, rfl⟩
    exact ⟨h, rfl⟩
  · rintro ⟨h, rfl⟩
    exact ⟨ct, h, rfl, rfl⟩

/-- The end that opens a block is where the end that sealed it is. -/
theorem openNext_sealed (h : c.sealNext plain = .ok (c', ct)) :
    c.openNext ct = (c', .ok plain) := by
  obtain ⟨hct, rfl⟩ := sealNext_eq_ok.mp h
  unfold openNext
  rw [Aead.openCt_sealed hct]

theorem length_sealed (h : c.sealNext plain = .ok (c', ct)) :
    ct.length = plain.length + tagSize := Aead.length_sealed (sealNext_eq_ok.mp h).1

theorem sealed_ne_nil (h : c.sealNext plain = .ok (c', ct)) : ct ≠ [] :=
  Aead.sealed_ne_nil (sealNext_eq_ok.mp h).1

theorem sealNext_short (c : SsCrypto) {plain : Bytes} (h : plain.length < 2 ^ 32) :
    ∃ c' ct, c.sealNext plain = .ok (c', ct) := by
  obtain ⟨ct, hct⟩ := c.aead.sealed_short (ssNonce c.nonce) h (by decide : ([] : Bytes).length < _)
  exact ⟨c.past ct, ct, sealNext_eq_ok.mpr ⟨hct, rfl⟩⟩

end SsCrypto

/-! ## Hash functions -/

/-- The crates `md-5`, `sha1`, `sha2`, `hmac`, `blake3` and `crc32fast`. -/
structure Hashes where
  md5 : Bytes → ByteVec 16
  sha256 : Bytes → ByteVec 32
  /-- The key and the message. -/
  hmacSha1 : Bytes → Bytes → ByteVec 20
  hmacSha256 : Bytes → Bytes → ByteVec 32
  /-- `blake3::derive_key`: the context and the key material. -/
  blake3DeriveKey : String → Bytes → ByteVec 32
  crc32 : Bytes → UInt32

/-! ## The parts of a sealed stream -/

/-- Shadowsocks and VMess both have a head, and then chunks of a length and a payload. -/
inductive Part where
  | salt
  | header
  /-- The length field of a chunk. -/
  | length
  | payload
  deriving DecidableEq

end RustCrash.Proto
