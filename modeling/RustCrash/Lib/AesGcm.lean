import RustCrash.Lib.ByteVec

/-
  AES in Galois/counter mode with nonces of 12 bytes (NIST SP 800-38D).

  The message is masked with a key stream, and the tag is computed from the masked bytes. So what
  was sealed opens (`open_seal`).
-/

/-! ## The block cipher

AES (FIPS 197) with keys of 16 and 32 bytes, as a map of 16-byte blocks.

Each of the four steps of a round has an inverse. Three of them are permutations or tables;
that of `mixColumn` is linear in each byte, so it is checked byte by byte (`unmix_mix`). So a
block that was encrypted decrypts to itself (`decryptBlock_encryptBlock`). -/

namespace RustCrash.Lib.Aes

/-! ## Bytes -/

def sbox : List (List UInt8) :=
  [[0x63, 0x7c, 0x77, 0x7b, 0xf2, 0x6b, 0x6f, 0xc5, 0x30, 0x01, 0x67, 0x2b, 0xfe, 0xd7, 0xab, 0x76],
    [0xca, 0x82, 0xc9, 0x7d, 0xfa, 0x59, 0x47, 0xf0, 0xad, 0xd4, 0xa2, 0xaf, 0x9c, 0xa4, 0x72, 0xc0],
    [0xb7, 0xfd, 0x93, 0x26, 0x36, 0x3f, 0xf7, 0xcc, 0x34, 0xa5, 0xe5, 0xf1, 0x71, 0xd8, 0x31, 0x15],
    [0x04, 0xc7, 0x23, 0xc3, 0x18, 0x96, 0x05, 0x9a, 0x07, 0x12, 0x80, 0xe2, 0xeb, 0x27, 0xb2, 0x75],
    [0x09, 0x83, 0x2c, 0x1a, 0x1b, 0x6e, 0x5a, 0xa0, 0x52, 0x3b, 0xd6, 0xb3, 0x29, 0xe3, 0x2f, 0x84],
    [0x53, 0xd1, 0x00, 0xed, 0x20, 0xfc, 0xb1, 0x5b, 0x6a, 0xcb, 0xbe, 0x39, 0x4a, 0x4c, 0x58, 0xcf],
    [0xd0, 0xef, 0xaa, 0xfb, 0x43, 0x4d, 0x33, 0x85, 0x45, 0xf9, 0x02, 0x7f, 0x50, 0x3c, 0x9f, 0xa8],
    [0x51, 0xa3, 0x40, 0x8f, 0x92, 0x9d, 0x38, 0xf5, 0xbc, 0xb6, 0xda, 0x21, 0x10, 0xff, 0xf3, 0xd2],
    [0xcd, 0x0c, 0x13, 0xec, 0x5f, 0x97, 0x44, 0x17, 0xc4, 0xa7, 0x7e, 0x3d, 0x64, 0x5d, 0x19, 0x73],
    [0x60, 0x81, 0x4f, 0xdc, 0x22, 0x2a, 0x90, 0x88, 0x46, 0xee, 0xb8, 0x14, 0xde, 0x5e, 0x0b, 0xdb],
    [0xe0, 0x32, 0x3a, 0x0a, 0x49, 0x06, 0x24, 0x5c, 0xc2, 0xd3, 0xac, 0x62, 0x91, 0x95, 0xe4, 0x79],
    [0xe7, 0xc8, 0x37, 0x6d, 0x8d, 0xd5, 0x4e, 0xa9, 0x6c, 0x56, 0xf4, 0xea, 0x65, 0x7a, 0xae, 0x08],
    [0xba, 0x78, 0x25, 0x2e, 0x1c, 0xa6, 0xb4, 0xc6, 0xe8, 0xdd, 0x74, 0x1f, 0x4b, 0xbd, 0x8b, 0x8a],
    [0x70, 0x3e, 0xb5, 0x66, 0x48, 0x03, 0xf6, 0x0e, 0x61, 0x35, 0x57, 0xb9, 0x86, 0xc1, 0x1d, 0x9e],
    [0xe1, 0xf8, 0x98, 0x11, 0x69, 0xd9, 0x8e, 0x94, 0x9b, 0x1e, 0x87, 0xe9, 0xce, 0x55, 0x28, 0xdf],
    [0x8c, 0xa1, 0x89, 0x0d, 0xbf, 0xe6, 0x42, 0x68, 0x41, 0x99, 0x2d, 0x0f, 0xb0, 0x54, 0xbb, 0x16]]

def sboxInv : List (List UInt8) :=
  [[0x52, 0x09, 0x6a, 0xd5, 0x30, 0x36, 0xa5, 0x38, 0xbf, 0x40, 0xa3, 0x9e, 0x81, 0xf3, 0xd7, 0xfb],
    [0x7c, 0xe3, 0x39, 0x82, 0x9b, 0x2f, 0xff, 0x87, 0x34, 0x8e, 0x43, 0x44, 0xc4, 0xde, 0xe9, 0xcb],
    [0x54, 0x7b, 0x94, 0x32, 0xa6, 0xc2, 0x23, 0x3d, 0xee, 0x4c, 0x95, 0x0b, 0x42, 0xfa, 0xc3, 0x4e],
    [0x08, 0x2e, 0xa1, 0x66, 0x28, 0xd9, 0x24, 0xb2, 0x76, 0x5b, 0xa2, 0x49, 0x6d, 0x8b, 0xd1, 0x25],
    [0x72, 0xf8, 0xf6, 0x64, 0x86, 0x68, 0x98, 0x16, 0xd4, 0xa4, 0x5c, 0xcc, 0x5d, 0x65, 0xb6, 0x92],
    [0x6c, 0x70, 0x48, 0x50, 0xfd, 0xed, 0xb9, 0xda, 0x5e, 0x15, 0x46, 0x57, 0xa7, 0x8d, 0x9d, 0x84],
    [0x90, 0xd8, 0xab, 0x00, 0x8c, 0xbc, 0xd3, 0x0a, 0xf7, 0xe4, 0x58, 0x05, 0xb8, 0xb3, 0x45, 0x06],
    [0xd0, 0x2c, 0x1e, 0x8f, 0xca, 0x3f, 0x0f, 0x02, 0xc1, 0xaf, 0xbd, 0x03, 0x01, 0x13, 0x8a, 0x6b],
    [0x3a, 0x91, 0x11, 0x41, 0x4f, 0x67, 0xdc, 0xea, 0x97, 0xf2, 0xcf, 0xce, 0xf0, 0xb4, 0xe6, 0x73],
    [0x96, 0xac, 0x74, 0x22, 0xe7, 0xad, 0x35, 0x85, 0xe2, 0xf9, 0x37, 0xe8, 0x1c, 0x75, 0xdf, 0x6e],
    [0x47, 0xf1, 0x1a, 0x71, 0x1d, 0x29, 0xc5, 0x89, 0x6f, 0xb7, 0x62, 0x0e, 0xaa, 0x18, 0xbe, 0x1b],
    [0xfc, 0x56, 0x3e, 0x4b, 0xc6, 0xd2, 0x79, 0x20, 0x9a, 0xdb, 0xc0, 0xfe, 0x78, 0xcd, 0x5a, 0xf4],
    [0x1f, 0xdd, 0xa8, 0x33, 0x88, 0x07, 0xc7, 0x31, 0xb1, 0x12, 0x10, 0x59, 0x27, 0x80, 0xec, 0x5f],
    [0x60, 0x51, 0x7f, 0xa9, 0x19, 0xb5, 0x4a, 0x0d, 0x2d, 0xe5, 0x7a, 0x9f, 0x93, 0xc9, 0x9c, 0xef],
    [0xa0, 0xe0, 0x3b, 0x4d, 0xae, 0x2a, 0xf5, 0xb0, 0xc8, 0xeb, 0xbb, 0x3c, 0x83, 0x53, 0x99, 0x61],
    [0x17, 0x2b, 0x04, 0x7e, 0xba, 0x77, 0xd6, 0x26, 0xe1, 0x69, 0x14, 0x63, 0x55, 0x21, 0x0c, 0x7d]]

def lookup (table : List (List UInt8)) (b : UInt8) : UInt8 :=
  (table.getD (b.toNat / 16) []).getD (b.toNat % 16) 0

def sub (b : UInt8) : UInt8 := lookup sbox b

def subInv (b : UInt8) : UInt8 := lookup sboxInv b

/-- Twice `b` in the field. -/
def xtime (b : UInt8) : UInt8 := (b <<< 1) ^^^ ((b >>> 7) * 0x1b)

def times9 (b : UInt8) : UInt8 := xtime (xtime (xtime b)) ^^^ b

def times11 (b : UInt8) : UInt8 := xtime (xtime (xtime b)) ^^^ xtime b ^^^ b

def times13 (b : UInt8) : UInt8 := xtime (xtime (xtime b)) ^^^ xtime (xtime b) ^^^ b

def times14 (b : UInt8) : UInt8 := xtime (xtime (xtime b)) ^^^ xtime (xtime b) ^^^ xtime b

theorem forall_byte {P : UInt8 → Prop} (h : ∀ n < 256, P (UInt8.ofNat n)) (b : UInt8) : P b := by
  have hb := h b.toNat b.toNat_lt
  rwa [UInt8.ofNat_toNat] at hb

theorem subInv_sub : ∀ b : UInt8, subInv (sub b) = b := forall_byte (by decide +kernel)

theorem xtime_xor (x y : UInt8) : xtime (x ^^^ y) = xtime x ^^^ xtime y := by
  have hbit : ∀ b : UInt8, b >>> 7 = 0 ∨ b >>> 7 = 1 := forall_byte (by decide +kernel)
  have hmul : ((x ^^^ y) >>> 7) * (0x1b : UInt8) =
      (x >>> 7) * (0x1b : UInt8) ^^^ (y >>> 7) * (0x1b : UInt8) := by
    rw [UInt8.shiftRight_xor]
    rcases hbit x with hx | hx <;> rcases hbit y with hy | hy <;> rw [hx, hy] <;> rfl
  unfold xtime
  rw [hmul, UInt8.shiftLeft_xor]
  ac_rfl

theorem times9_xor (x y : UInt8) : times9 (x ^^^ y) = times9 x ^^^ times9 y := by
  simp only [times9, xtime_xor]
  ac_rfl

theorem times11_xor (x y : UInt8) : times11 (x ^^^ y) = times11 x ^^^ times11 y := by
  simp only [times11, xtime_xor]
  ac_rfl

theorem times13_xor (x y : UInt8) : times13 (x ^^^ y) = times13 x ^^^ times13 y := by
  simp only [times13, xtime_xor]
  ac_rfl

theorem times14_xor (x y : UInt8) : times14 (x ^^^ y) = times14 x ^^^ times14 y := by
  simp only [times14, xtime_xor]
  ac_rfl

/-- A byte of a column after `MixColumns`, from that byte on. -/
def mix (a b c d : UInt8) : UInt8 := xtime a ^^^ xtime b ^^^ b ^^^ c ^^^ d

def unmix (a b c d : UInt8) : UInt8 := times14 a ^^^ times11 b ^^^ times13 c ^^^ times9 d

/-- What becomes of each byte of the column by itself. -/
theorem unmix_parts : ∀ a : UInt8,
    times14 (xtime a) ^^^ times11 a ^^^ times13 a ^^^ times9 (xtime a ^^^ a) = a ∧
    times14 (xtime a ^^^ a) ^^^ times11 (xtime a) ^^^ times13 a ^^^ times9 a = 0 ∧
    times14 a ^^^ times11 (xtime a ^^^ a) ^^^ times13 (xtime a) ^^^ times9 a = 0 ∧
    times14 a ^^^ times11 a ^^^ times13 (xtime a ^^^ a) ^^^ times9 (xtime a) = 0 :=
  forall_byte (by decide +kernel)

theorem unmix_mix (a b c d : UInt8) :
    unmix (mix a b c d) (mix b c d a) (mix c d a b) (mix d a b c) = a := by
  have hparts : unmix (mix a b c d) (mix b c d a) (mix c d a b) (mix d a b c) =
      (times14 (xtime a) ^^^ times11 a ^^^ times13 a ^^^ times9 (xtime a ^^^ a)) ^^^
      (times14 (xtime b ^^^ b) ^^^ times11 (xtime b) ^^^ times13 b ^^^ times9 b) ^^^
      (times14 c ^^^ times11 (xtime c ^^^ c) ^^^ times13 (xtime c) ^^^ times9 c) ^^^
      (times14 d ^^^ times11 d ^^^ times13 (xtime d ^^^ d) ^^^ times9 (xtime d)) := by
    simp only [unmix, mix, times9_xor, times11_xor, times13_xor, times14_xor]
    ac_rfl
  rw [hparts, (unmix_parts a).1, (unmix_parts b).2.1, (unmix_parts c).2.2.1,
    (unmix_parts d).2.2.2, UInt8.xor_zero, UInt8.xor_zero, UInt8.xor_zero]

/-! ## Blocks -/

abbrev Block := ByteVec 16

def block (f : Nat → UInt8) : Block := ⟨(List.range 16).map f, by simp⟩

def byteAt (s : Block) (i : Nat) : UInt8 := s.val.getD i 0

theorem byteAt_block (f : Nat → UInt8) {i : Nat} (hi : i < 16) : byteAt (block f) i = f i := by
  unfold byteAt block
  rw [List.getD_eq_getElem?_getD, List.getElem?_map, List.getElem?_range hi]
  rfl

theorem block_byteAt (s : Block) : block (byteAt s) = s := by
  apply Subtype.ext
  show (List.range 16).map (byteAt s) = s.val
  apply List.ext_getElem
  · rw [List.length_map, List.length_range, ByteVec.length_val]
  · intro i h1 h2
    rw [List.getElem_map, List.getElem_range]
    unfold byteAt
    rw [List.getD_eq_getElem?_getD, List.getElem?_eq_getElem h2]
    rfl

/-- Blocks are made byte by byte. -/
theorem block_congr {f : Nat → UInt8} {s : Block} (h : ∀ i < 16, f i = byteAt s i) :
    block f = s := by
  rw [← block_byteAt s]
  apply Subtype.ext
  exact List.map_congr_left fun i hi => h i (List.mem_range.mp hi)

/-! ## The steps of a round -/

def addRoundKey (s k : Block) : Block := block fun i => byteAt s i ^^^ byteAt k i

def subBytes (s : Block) : Block := block fun i => sub (byteAt s i)

def subBytesInv (s : Block) : Block := block fun i => subInv (byteAt s i)

/-- The block is written column by column, and row `i % 4` moves by as much. -/
def shiftRows (s : Block) : Block := block fun i => byteAt s (5 * i % 16)

def shiftRowsInv (s : Block) : Block := block fun i => byteAt s (13 * i % 16)

/-- `j` places on in the column of `i`. -/
def down (i j : Nat) : Nat := i - i % 4 + (i % 4 + j) % 4

def mixColumns (s : Block) : Block :=
  block fun i => mix (byteAt s i) (byteAt s (down i 1)) (byteAt s (down i 2)) (byteAt s (down i 3))

def mixColumnsInv (s : Block) : Block :=
  block fun i =>
    unmix (byteAt s i) (byteAt s (down i 1)) (byteAt s (down i 2)) (byteAt s (down i 3))

theorem addRoundKey_twice (s k : Block) : addRoundKey (addRoundKey s k) k = s := by
  refine block_congr fun i hi => ?_
  rw [addRoundKey, byteAt_block _ hi, UInt8.xor_assoc, UInt8.xor_self, UInt8.xor_zero]

theorem subBytesInv_subBytes (s : Block) : subBytesInv (subBytes s) = s := by
  refine block_congr fun i hi => ?_
  rw [subBytes, byteAt_block _ hi, subInv_sub]

theorem shiftRowsInv_shiftRows (s : Block) : shiftRowsInv (shiftRows s) = s := by
  refine block_congr fun i hi => ?_
  rw [shiftRows, byteAt_block _ (Nat.mod_lt _ (by decide))]
  congr 1
  omega

theorem mixColumnsInv_mixColumns (s : Block) : mixColumnsInv (mixColumns s) = s := by
  refine block_congr fun i hi => ?_
  have hdown : ∀ j, down i j < 16 := by
    intro j
    unfold down
    omega
  have hback : ∀ j k, down (down i j) k = down i (j + k) := by
    intro j k
    unfold down
    omega
  have hfull : down i 4 = i ∧ down i 5 = down i 1 ∧ down i 6 = down i 2 := by
    unfold down
    omega
  rw [mixColumns, byteAt_block _ hi, byteAt_block _ (hdown 1), byteAt_block _ (hdown 2),
    byteAt_block _ (hdown 3)]
  simp only [hback, Nat.reduceAdd, hfull]
  exact unmix_mix _ _ _ _

/-! ## The cipher -/

/-- The rounds, with the key of each. -/
def encryptRounds : List Block → Block → Block
  | [], s => s
  | [k], s => addRoundKey (shiftRows (subBytes s)) k
  | k :: ks, s => encryptRounds ks (addRoundKey (mixColumns (shiftRows (subBytes s))) k)

def decryptRounds : List Block → Block → Block
  | [], s => s
  | [k], s => subBytesInv (shiftRowsInv (addRoundKey s k))
  | k :: ks, s =>
    subBytesInv (shiftRowsInv (mixColumnsInv (addRoundKey (decryptRounds ks s) k)))

/-- One more word of the key from the one before; the fifth of a `long` key is looked up. -/
def extend (long : Bool) : Nat → Bytes → List Bytes → List Bytes
  | _, _, [] => []
  | i, t, w :: ws =>
    let t := w.zipWith (· ^^^ ·) (if long ∧ i = 4 then t.map sub else t)
    t :: extend long (i + 1) t ws

/-- As many words again, with the last one rotated and looked up to start from. -/
def nextWords (rcon : UInt8) (ws : List Bytes) : List Bytes :=
  let last := ws.getLastD []
  let start := (last.drop 1 ++ last.take 1).map sub
  extend (6 < ws.length) 0 (start.zipWith (· ^^^ ·) [rcon, 0, 0, 0]) ws

def keyWords : Nat → UInt8 → List Bytes → List Bytes
  | 0, _, ws => ws
  | n + 1, rcon, ws => ws ++ keyWords n (xtime rcon) (nextWords rcon ws)

def expandKey (key : Bytes) : Bytes :=
  let words := (List.range (key.length / 4)).map fun i => slice key (4 * i) 4
  (keyWords 10 1 words).flatten

def roundKey (expanded : Bytes) (r : Nat) : Block := block fun i => expanded.getD (16 * r + i) 0

/-- The keys of the rounds; another one is added before them. -/
def roundKeys (key expanded : Bytes) : List Block :=
  (List.range (key.length / 4 + 6)).map fun r => roundKey expanded (r + 1)

def encryptBlock (key : Bytes) (s : Block) : Block :=
  encryptRounds (roundKeys key (expandKey key)) (addRoundKey s (roundKey (expandKey key) 0))

def decryptBlock (key : Bytes) (s : Block) : Block :=
  addRoundKey (decryptRounds (roundKeys key (expandKey key)) s) (roundKey (expandKey key) 0)

theorem decryptRounds_encryptRounds (ks : List Block) (s : Block) :
    decryptRounds ks (encryptRounds ks s) = s := by
  fun_induction encryptRounds ks s with
  | case1 s => rfl
  | case2 k s =>
    rw [decryptRounds, addRoundKey_twice, shiftRowsInv_shiftRows, subBytesInv_subBytes]
  | case3 k ks s hks ih =>
    rw [decryptRounds.eq_3 _ _ _ hks, ih, addRoundKey_twice, mixColumnsInv_mixColumns,
      shiftRowsInv_shiftRows, subBytesInv_subBytes]

theorem decryptBlock_encryptBlock (key : Bytes) (s : Block) :
    decryptBlock key (encryptBlock key s) = s := by
  unfold decryptBlock encryptBlock
  rw [decryptRounds_encryptRounds, addRoundKey_twice]

example : (encryptBlock ((List.range 16).map UInt8.ofNat) (block fun i => UInt8.ofNat (17 * i))).val =
    [0x69, 0xc4, 0xe0, 0xd8, 0x6a, 0x7b, 0x04, 0x30, 0xd8, 0xcd, 0xb7, 0x80, 0x70, 0xb4, 0xc5,
      0x5a] := by
  decide +kernel

example : (encryptBlock ((List.range 24).map UInt8.ofNat) (block fun i => UInt8.ofNat (17 * i))).val =
    [0xdd, 0xa9, 0x7c, 0xa4, 0x86, 0x4c, 0xdf, 0xe0, 0x6e, 0xaf, 0x70, 0xa0, 0xec, 0x0d, 0x71,
      0x91] := by
  decide +kernel

end RustCrash.Lib.Aes

/-! ## Galois/counter mode -/

namespace RustCrash.Lib.AesGcm

open Aes

/-! ## Counter mode -/

/-- The key stream of `n` blocks from a counter on. -/
def keyStream (key : Bytes) (nonce : ByteVec 12) : Nat → Nat → Bytes
  | _, 0 => []
  | counter, n + 1 =>
    let input := nonce.val ++ toBE 4 counter
    (encryptBlock key (block fun i => input.getD i 0)).val ++ keyStream key nonce (counter + 1) n

def mask (key : Bytes) (nonce : ByteVec 12) (msg : Bytes) : Bytes :=
  msg.zipWith (· ^^^ ·) (keyStream key nonce 2 ((msg.length + 15) / 16))

/-! ## The hash -/

/-- The product of `x` and `v` in the field, bit `n - 1` of `x` and those below it being left. -/
def gmulFor : Nat → Nat → Nat → Nat → Nat
  | 0, _, _, z => z
  | n + 1, x, v, z =>
    let half := if v % 2 = 0 then v / 2 else (v / 2) ^^^ (0xe1 <<< 120)
    gmulFor n x half (if x.testBit n then z ^^^ v else z)

def gmul (x y : Nat) : Nat := gmulFor 128 x y 0

/-- The next `n` blocks. -/
def ghashFor (h : Nat) : Nat → Nat → Bytes → Nat
  | 0, y, _ => y
  | n + 1, y, bs => ghashFor h n (gmul (y ^^^ ofBE (bs.take 16)) h) (bs.drop 16)

def ghash (h : Nat) (bs : Bytes) : Nat := ghashFor h (bs.length / 16) 0 bs

def pad16 (bs : Bytes) : Bytes := bs ++ List.replicate ((16 - bs.length % 16) % 16) 0

def tag (key : Bytes) (nonce : ByteVec 12) (ct aad : Bytes) : Bytes :=
  let h := ofBE (encryptBlock key (block fun _ => 0)).val
  let lengths := toBE 8 (8 * aad.length) ++ toBE 8 (8 * ct.length)
  let s := ghash h (pad16 aad ++ pad16 ct ++ lengths)
  (toBE 16 s).zipWith (· ^^^ ·) (keyStream key nonce 1 1)

/-! ## The AEAD -/

/-- The longest message and the longest associated data. -/
def maxLen : Nat := 2 ^ 36

def encrypt (key : Bytes) (nonce : ByteVec 12) (msg aad : Bytes) : Option Bytes :=
  if msg.length ≤ maxLen ∧ aad.length ≤ maxLen then
    let ct := mask key nonce msg
    some (ct ++ tag key nonce ct aad)
  else none

def decrypt (key : Bytes) (nonce : ByteVec 12) (ct aad : Bytes) : Option Bytes :=
  let body := ct.take (ct.length - 16)
  if 16 ≤ ct.length ∧ body.length ≤ maxLen + 16 ∧ aad.length ≤ maxLen ∧
      ct.drop (ct.length - 16) = tag key nonce body aad then
    some (mask key nonce body)
  else none

theorem length_keyStream (key : Bytes) (nonce : ByteVec 12) (counter n : Nat) :
    (keyStream key nonce counter n).length = 16 * n := by
  induction n generalizing counter with
  | zero => rfl
  | succ n ih =>
    rw [keyStream, List.length_append, ByteVec.length_val, ih]
    omega

theorem length_mask (key : Bytes) (nonce : ByteVec 12) (msg : Bytes) :
    (mask key nonce msg).length = msg.length := by
  unfold mask
  rw [List.length_zipWith, length_keyStream]
  omega

theorem length_tag (key : Bytes) (nonce : ByteVec 12) (ct aad : Bytes) :
    (tag key nonce ct aad).length = 16 := by
  unfold tag
  rw [List.length_zipWith, length_toBE, length_keyStream]
  rfl

variable {nonce : ByteVec 12} {msg aad ct : Bytes}

theorem length_encrypt {key : Bytes} (h : encrypt key nonce msg aad = some ct) :
    ct.length = msg.length + 16 := by
  unfold encrypt at h
  split_ifs at h
  cases h
  rw [List.length_append, length_mask, length_tag]

theorem mask_mask (key : Bytes) (nonce : ByteVec 12) (msg : Bytes) :
    mask key nonce (mask key nonce msg) = msg := by
  have hstream : msg.length ≤ (keyStream key nonce 2 ((msg.length + 15) / 16)).length := by
    rw [length_keyStream]
    omega
  have hmask : mask key nonce msg =
      msg.zipWith (· ^^^ ·) (keyStream key nonce 2 ((msg.length + 15) / 16)) := rfl
  rw [mask, length_mask, hmask]
  exact zipWith_xor_twice hstream

theorem open_seal {key : Bytes} (h : encrypt key nonce msg aad = some ct) :
    decrypt key nonce ct aad = some msg := by
  have hlen := length_encrypt h
  unfold encrypt at h
  split_ifs at h with hshort
  cases h
  have hmask := length_mask key nonce msg
  have htag := length_tag key nonce (mask key nonce msg) aad
  have hsub : (mask key nonce msg ++ tag key nonce (mask key nonce msg) aad).length - 16 =
      (mask key nonce msg).length := by
    rw [List.length_append, htag]
    omega
  unfold decrypt
  dsimp only
  rw [hsub, List.take_left, List.drop_left, if_pos ⟨by omega, by omega, hshort.2, rfl⟩, mask_mask]

/-- What opens is what was sealed. -/
theorem seal_open {key : Bytes} (h : decrypt key nonce ct aad = some msg)
    (hmsg : msg.length ≤ maxLen) : encrypt key nonce msg aad = some ct := by
  unfold decrypt at h
  dsimp only at h
  split_ifs at h with hopen
  obtain ⟨-, -, haad, htag⟩ := hopen
  cases h
  unfold encrypt
  rw [if_pos ⟨hmsg, haad⟩]
  dsimp only
  rw [mask_mask, ← htag, List.take_append_drop]

end RustCrash.Lib.AesGcm
