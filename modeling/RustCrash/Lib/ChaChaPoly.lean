import RustCrash.Lib.ByteVec

/-
  ChaCha20-Poly1305 and XChaCha20-Poly1305, as RFC 8439 and its extended-nonce draft define
  them.

  A message is masked with a key stream, so masking it again gives it back (`mask_mask`), and
  the tag is computed from the masked bytes. So what was sealed opens (`open_seal`).
-/

namespace RustCrash.Lib.ChaChaPoly

/-! ## ChaCha20 -/

def rotateLeft (x n : UInt32) : UInt32 := (x <<< n) ||| (x >>> (32 - n))

local instance neZeroSixteen : NeZero 16 := ⟨by decide⟩

def quarterRound {n : Nat} (v : Vector UInt32 n) (a b c d : Fin n) : Vector UInt32 n :=
  let v := v.set a (v[a] + v[b])
  let v := v.set d (rotateLeft (v[d] ^^^ v[a]) 16)
  let v := v.set c (v[c] + v[d])
  let v := v.set b (rotateLeft (v[b] ^^^ v[c]) 12)
  let v := v.set a (v[a] + v[b])
  let v := v.set d (rotateLeft (v[d] ^^^ v[a]) 8)
  let v := v.set c (v[c] + v[d])
  v.set b (rotateLeft (v[b] ^^^ v[c]) 7)

def doubleRound (v : Vector UInt32 16) : Vector UInt32 16 :=
  let v := quarterRound v 0 4 8 12
  let v := quarterRound v 1 5 9 13
  let v := quarterRound v 2 6 10 14
  let v := quarterRound v 3 7 11 15
  let v := quarterRound v 0 5 10 15
  let v := quarterRound v 1 6 11 12
  let v := quarterRound v 2 7 8 13
  quarterRound v 3 4 9 14

/-- The constants, the key and four words of counter and nonce. -/
def initState (key : ByteVec 32) (tail : Bytes) : Vector UInt32 16 :=
  let sigma₀ : Vector UInt32 2 := #v[0x61707865, 0x3320646e]
  let sigma₁ : Vector UInt32 2 := #v[0x79622d32, 0x6b206574]
  let words : Vector UInt32 12 :=
    Vector.ofFn fun i => ofLE32 (slice (key.val ++ tail) (4 * i.val) 4)
  sigma₀ ++ sigma₁ ++ words

def rounds (v : Vector UInt32 16) : Vector UInt32 16 := Nat.repeat doubleRound 10 v

def block (key : ByteVec 32) (nonce : ByteVec 12) (counter : Nat) : Bytes :=
  let v := initState key (toLE 4 counter ++ nonce.val)
  let w := rounds v
  (w.zipWith (· + ·) v).toList.flatMap le32

/-- `n` blocks of key stream from a counter on. -/
def keyStream (key : ByteVec 32) (nonce : ByteVec 12) : Nat → Nat → Bytes
  | _, 0 => []
  | counter, n + 1 => block key nonce counter ++ keyStream key nonce (counter + 1) n

def mask (key : ByteVec 32) (nonce : ByteVec 12) (msg : Bytes) : Bytes :=
  msg.zipWith (· ^^^ ·) (keyStream key nonce 1 ((msg.length + 63) / 64))

/-! ## Poly1305 -/

/-- The accumulator over 16-byte pieces, each with a one byte on top. -/
def polyBlocks (r : Nat) : Nat → Nat → Bytes → Nat
  | 0, acc, _ => acc
  | n + 1, acc, msg =>
    polyBlocks r n ((acc + ofLE (msg.take 16 ++ [1])) * r % (2 ^ 130 - 5)) (msg.drop 16)

def poly1305 (otk msg : Bytes) : Bytes :=
  let r := ofLE (otk.take 16) &&& 0x0ffffffc0ffffffc0ffffffc0fffffff
  toLE 16 (polyBlocks r ((msg.length + 15) / 16) 0 msg + ofLE (slice otk 16 16))

def pad16 (bs : Bytes) : Bytes := bs ++ List.replicate ((16 - bs.length % 16) % 16) 0

def tag (key : ByteVec 32) (nonce : ByteVec 12) (ct aad : Bytes) : Bytes :=
  poly1305 ((block key nonce 0).take 32)
    (pad16 aad ++ pad16 ct ++ toLE 8 aad.length ++ toLE 8 ct.length)

/-! ## The AEAD -/

/-- Sealing is refused when the block counter would run out. -/
def encrypt (key : ByteVec 32) (nonce : ByteVec 12) (msg aad : Bytes) : Option Bytes :=
  if msg.length / 64 < 2 ^ 32 - 1 then
    let ct := mask key nonce msg
    some (ct ++ tag key nonce ct aad)
  else none

def decrypt (key : ByteVec 32) (nonce : ByteVec 12) (ct aad : Bytes) : Option Bytes :=
  let body := ct.take (ct.length - 16)
  if 16 ≤ ct.length ∧ body.length / 64 < 2 ^ 32 - 1 ∧
      ct.drop (ct.length - 16) = tag key nonce body aad then
    some (mask key nonce body)
  else none

def hchacha20 (key : ByteVec 32) (nonce : Bytes) : Bytes :=
  let w := (rounds (initState key nonce)).toList
  (w.take 4 ++ w.drop 12).flatMap le32

theorem length_hchacha20 (key : ByteVec 32) (nonce : Bytes) :
    (hchacha20 key nonce).length = 32 := by
  unfold hchacha20
  rw [length_flatMap_le32, List.length_append, List.length_take, List.length_drop, Vector.length_toList]
  rfl

/-- The subkey and the shorter nonce of an extended nonce. -/
def extended (key : ByteVec 32) (nonce : ByteVec 24) : ByteVec 32 × ByteVec 12 :=
  (⟨hchacha20 key (nonce.val.take 16), length_hchacha20 _ _⟩,
    ⟨List.replicate 4 0 ++ nonce.val.drop 16, by
      rw [List.length_append, List.length_replicate, List.length_drop, nonce.property]⟩)

def xencrypt (key : ByteVec 32) (nonce : ByteVec 24) (msg aad : Bytes) : Option Bytes :=
  encrypt (extended key nonce).1 (extended key nonce).2 msg aad

def xdecrypt (key : ByteVec 32) (nonce : ByteVec 24) (ct aad : Bytes) : Option Bytes :=
  decrypt (extended key nonce).1 (extended key nonce).2 ct aad

/-! ## Lengths -/

theorem length_block (key : ByteVec 32) (nonce : ByteVec 12) (counter : Nat) :
    (block key nonce counter).length = 64 := by
  unfold block
  rw [length_flatMap_le32, Vector.length_toList]

theorem length_keyStream (key : ByteVec 32) (nonce : ByteVec 12) (counter n : Nat) :
    (keyStream key nonce counter n).length = 64 * n := by
  induction n generalizing counter with
  | zero => rfl
  | succ n ih =>
    rw [keyStream, List.length_append, length_block, ih]
    omega

theorem length_mask (key : ByteVec 32) (nonce : ByteVec 12) (msg : Bytes) :
    (mask key nonce msg).length = msg.length := by
  unfold mask
  rw [List.length_zipWith, length_keyStream]
  omega

theorem length_tag (key : ByteVec 32) (nonce : ByteVec 12) (ct aad : Bytes) :
    (tag key nonce ct aad).length = 16 := length_toLE _ _

variable {key : ByteVec 32} {nonce : ByteVec 12} {msg aad ct : Bytes}

theorem length_encrypt (h : encrypt key nonce msg aad = some ct) : ct.length = msg.length + 16 := by
  unfold encrypt at h
  split_ifs at h
  cases h
  rw [List.length_append, length_mask, length_tag]

theorem encrypt_short (key : ByteVec 32) (nonce : ByteVec 12) {msg : Bytes} (aad : Bytes)
    (h : msg.length / 64 < 2 ^ 32 - 1) : ∃ ct, encrypt key nonce msg aad = some ct :=
  ⟨_, if_pos h⟩

/-! ## What was sealed opens -/

theorem mask_mask (key : ByteVec 32) (nonce : ByteVec 12) (msg : Bytes) :
    mask key nonce (mask key nonce msg) = msg := by
  have hlen := length_mask key nonce msg
  have hstream : msg.length ≤ (keyStream key nonce 1 ((msg.length + 63) / 64)).length := by
    rw [length_keyStream]
    omega
  conv =>
    lhs
    unfold mask
    rw [show (List.zipWith (fun x1 x2 => x1 ^^^ x2) msg
      (keyStream key nonce 1 ((msg.length + 63) / 64))) = mask key nonce msg from rfl, hlen]
  exact zipWith_xor_twice hstream

theorem open_seal (h : encrypt key nonce msg aad = some ct) :
    decrypt key nonce ct aad = some msg := by
  have hlen := length_encrypt h
  unfold encrypt at h
  split_ifs at h with hshort
  cases h
  have hmask := length_mask key nonce msg
  have htag := length_tag key nonce (mask key nonce msg) aad
  have hsub : (mask key nonce msg ++ tag key nonce (mask key nonce msg) aad).length - 16 =
      (mask key nonce msg).length := by
    rw [List.length_append, htag]
    omega
  unfold decrypt
  dsimp only
  rw [hsub, List.take_left, List.drop_left, if_pos ⟨by omega, by omega, rfl⟩, mask_mask]

/-- What opens is what was sealed. -/
theorem seal_open (h : decrypt key nonce ct aad = some msg) :
    encrypt key nonce msg aad = some ct := by
  unfold decrypt at h
  dsimp only at h
  split_ifs at h with hopen
  obtain ⟨-, hshort, htag⟩ := hopen
  cases h
  unfold encrypt
  rw [length_mask, if_pos hshort]
  dsimp only
  rw [mask_mask, ← htag, List.take_append_drop]

theorem xopen_seal {nonce : ByteVec 24} (h : xencrypt key nonce msg aad = some ct) :
    xdecrypt key nonce ct aad = some msg :=
  open_seal h

end RustCrash.Lib.ChaChaPoly
