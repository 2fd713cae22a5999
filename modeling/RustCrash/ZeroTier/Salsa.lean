import RustCrash.Lib.ByteVec

/-
  Salsa20 as `proto/zerotier.rs` has it: 12 rounds for the packet armor and 20 for the hashcash
  of an address, under a 32-byte key.

  A key stream keeps a block counter. A call that ends inside a block drops the rest of it, so
  the next call goes on at the next block.

  Poly1305 is written out there too: five 26-bit limbs in 32-bit words, products in 64-bit words,
  and the carries folded back by 5.
-/

namespace RustCrash.ZeroTier

open Lib

/-- Salsa20 "expand 32-byte k" constants. -/
def salsaSigma : Vector UInt32 4 := #v[0x61707865, 0x3320646e, 0x79622d32, 0x6b206574]

/-- Salsa20 "expand 16-byte k" constants. -/
def salsaTau : Vector UInt32 4 := #v[0x61707865, 0x3120646e, 0x79622d36, 0x6b206574]

def rotateLeft (x n : UInt32) : UInt32 := (x <<< n) ||| (x >>> (32 - n))

def salsaQr (x : Vector UInt32 16) (a b c d : Fin 16) : Vector UInt32 16 :=
  let x := x.set b (x[b] ^^^ rotateLeft (x[a] + x[d]) 7)
  let x := x.set c (x[c] ^^^ rotateLeft (x[b] + x[a]) 9)
  let x := x.set d (x[d] ^^^ rotateLeft (x[c] + x[b]) 13)
  x.set a (x[a] ^^^ rotateLeft (x[d] + x[c]) 18)

def salsa20Doubleround (x : Vector UInt32 16) : Vector UInt32 16 :=
  -- column round
  let x := salsaQr x 0 4 8 12
  let x := salsaQr x 5 9 13 1
  let x := salsaQr x 10 14 2 6
  let x := salsaQr x 15 3 7 11
  -- row round
  let x := salsaQr x 0 1 2 3
  let x := salsaQr x 5 6 7 4
  let x := salsaQr x 10 11 8 9
  salsaQr x 15 12 13 14

/-- `rounds` rounds, then the input added back, in little-endian. -/
def salsa20Hash (input : Vector UInt32 16) (rounds : Nat) : Bytes :=
  let x := Nat.repeat salsa20Doubleround (rounds / 2) input
  (Vector.ofFn fun i : Fin 16 => x[i] + input[i]).toList.flatMap le32

theorem length_salsa20Hash (input : Vector UInt32 16) (rounds : Nat) :
    (salsa20Hash input rounds).length = 64 := by
  simp [salsa20Hash]

/-- The constants, the key, the IV and the 64-bit block counter. -/
def salsa20State (key iv : Bytes) (counter : UInt64) : Vector UInt32 16 :=
  let word := fun (b : Bytes) (i : Nat) => ofLE32 (slice b i 4)
  let k := fun i => word key (4 * i)
  let constants := if key.length = 32 then salsaSigma else salsaTau
  let hi := fun i => if key.length = 32 then word key (16 + 4 * i) else k i
  #v[constants[0], k 0, k 1, k 2, k 3, constants[1], word iv 0, word iv 4, counter.toUInt32,
    (counter >>> 32).toUInt32, constants[2], hi 0, hi 1, hi 2, hi 3, constants[3]]

/-- A key stream that drops the rest of a block a call ends in. -/
structure SalsaStream where
  key : Bytes
  iv : Bytes
  counter : UInt64
  rounds : Nat
  deriving DecidableEq

namespace SalsaStream

def new (key iv : Bytes) (rounds : Nat) : SalsaStream := ⟨key, iv, 0, rounds⟩

/-- The block at the counter. -/
def block (s : SalsaStream) : Bytes := salsa20Hash (salsa20State s.key s.iv s.counter) s.rounds

def next (s : SalsaStream) : SalsaStream :=
  { s with
    counter := s.counter + 1 }

/-- The loop of `xor`, over the blocks that the data takes. -/
def xorLoop : Nat → SalsaStream → Bytes → SalsaStream × Bytes
  | 0, s, _ => (s, [])
  | n + 1, s, data =>
    let (s', rest) := xorLoop n s.next (data.drop 64)
    (s', (data.take 64).zipWith (· ^^^ ·) s.block ++ rest)

/-- XOR with the next key stream bytes. -/
def xor (s : SalsaStream) (data : Bytes) : SalsaStream × Bytes :=
  xorLoop ((data.length + 63) / 64) s data

/-- The blocks of the key stream. -/
def blocks : Nat → SalsaStream → Bytes
  | 0, _ => []
  | n + 1, s => s.block ++ blocks n s.next

theorem length_block (s : SalsaStream) : s.block.length = 64 := length_salsa20Hash _ _

theorem length_blocks (n : Nat) (s : SalsaStream) : (blocks n s).length = 64 * n := by
  induction n generalizing s with
  | zero => rfl
  | succ n ih =>
    rw [blocks, List.length_append, length_block, ih]
    omega

/-- The loop masks its data with the key stream. -/
theorem xorLoop_eq {n : Nat} {s : SalsaStream} {data : Bytes} (h : data.length ≤ 64 * n) :
    (xorLoop n s data).2 = data.zipWith (· ^^^ ·) (blocks n s) := by
  induction n generalizing s data with
  | zero =>
    rw [Nat.mul_zero, Nat.le_zero, List.length_eq_zero_iff] at h
    rw [h]
    rfl
  | succ n ih =>
    have hrest : (data.drop 64).length ≤ 64 * n := by
      rw [List.length_drop]
      omega
    change (data.take 64).zipWith (· ^^^ ·) s.block ++ (xorLoop n s.next (data.drop 64)).2 = _
    rw [ih hrest, blocks]
    by_cases hlong : 64 ≤ data.length
    · rw [← List.zipWith_append (by rw [length_block, List.length_take, Nat.min_eq_left hlong]),
        List.take_append_drop]
    · have hle : data.length ≤ s.block.length := by
        rw [length_block]
        omega
      rw [List.drop_of_length_le (by omega), List.take_of_length_le (by omega),
        List.zipWith_nil_left, List.append_nil, zipWith_xor_append _ hle]

theorem xor_eq (s : SalsaStream) (data : Bytes) :
    (s.xor data).2 = data.zipWith (· ^^^ ·) (blocks ((data.length + 63) / 64) s) :=
  xorLoop_eq (by omega)

@[simp] theorem length_xor (s : SalsaStream) (data : Bytes) :
    (s.xor data).2.length = data.length := by
  rw [xor_eq, List.length_zipWith, length_blocks]
  omega

/-- The same key stream put on twice. -/
theorem xor_xor (s : SalsaStream) (data : Bytes) : (s.xor (s.xor data).2).2 = data := by
  rw [xor_eq s (s.xor data).2, length_xor, xor_eq, zipWith_xor_twice]
  rw [length_blocks]
  omega

end SalsaStream

/-! ## Poly1305 -/

/-- Five 26-bit limbs, the low one first. -/
structure Limbs where
  l0 : UInt32
  l1 : UInt32
  l2 : UInt32
  l3 : UInt32
  l4 : UInt32
  deriving DecidableEq, Repr

def limbMask : UInt32 := 0x03ffffff

/-- `u32::from_le_bytes` of the four bytes at an offset. -/
def leAt (b : Bytes) (i : Nat) : UInt32 := ofLE32 (slice b i 4)

/-- The clamped `r` in limbs. -/
def polyR (key : Bytes) : Limbs :=
  let rbytes := le32 (leAt key 0 &&& 0x0fffffff) ++ le32 (leAt key 4 &&& 0x0ffffffc) ++
    le32 (leAt key 8 &&& 0x0ffffffc) ++ le32 (leAt key 12 &&& 0x0ffffffc)
  let rFull := ofLE rbytes
  let limb := fun k => UInt32.ofNat (rFull >>> k &&& 0x03ffffff)
  ⟨limb 0, limb 26, limb 52, limb 78, limb 104⟩

/-- One 16-byte block: the accumulator plus the block, times `r`. -/
def polyBlock (r : Limbs) (hibit : UInt32) (h : Limbs) (block : Bytes) : Limbs :=
  let s1 := r.l1 * 5
  let s2 := r.l2 * 5
  let s3 := r.l3 * 5
  let s4 := r.l4 * 5
  let t0 := leAt block 0
  let t1 := leAt block 4
  let t2 := leAt block 8
  let t3 := leAt block 12
  let h0 := h.l0 + (t0 &&& limbMask)
  let h1 := h.l1 + (((t0 >>> 26) ||| (t1 <<< 6)) &&& limbMask)
  let h2 := h.l2 + (((t1 >>> 20) ||| (t2 <<< 12)) &&& limbMask)
  let h3 := h.l3 + (((t2 >>> 14) ||| (t3 <<< 18)) &&& limbMask)
  let h4 := h.l4 + ((t3 >>> 8) ||| hibit)
  let mul := fun (a b : UInt32) => a.toUInt64 * b.toUInt64
  let d0 := mul h0 r.l0 + mul h1 s4 + mul h2 s3 + mul h3 s2 + mul h4 s1
  let d1 := mul h0 r.l1 + mul h1 r.l0 + mul h2 s4 + mul h3 s3 + mul h4 s2
  let d2 := mul h0 r.l2 + mul h1 r.l1 + mul h2 r.l0 + mul h3 s4 + mul h4 s3
  let d3 := mul h0 r.l3 + mul h1 r.l2 + mul h2 r.l1 + mul h3 r.l0 + mul h4 s4
  let d4 := mul h0 r.l4 + mul h1 r.l3 + mul h2 r.l2 + mul h3 r.l1 + mul h4 r.l0
  let c := (d0 >>> 26).toUInt32
  let h0 := d0.toUInt32 &&& limbMask
  let d1 := d1 + c.toUInt64
  let c := (d1 >>> 26).toUInt32
  let h1 := d1.toUInt32 &&& limbMask
  let d2 := d2 + c.toUInt64
  let c := (d2 >>> 26).toUInt32
  let h2 := d2.toUInt32 &&& limbMask
  let d3 := d3 + c.toUInt64
  let c := (d3 >>> 26).toUInt32
  let h3 := d3.toUInt32 &&& limbMask
  let d4 := d4 + c.toUInt64
  let c := (d4 >>> 26).toUInt32
  let h4 := d4.toUInt32 &&& limbMask
  -- 2^130 ≡ 5 (mod 2^130-5): fold the carry back in
  let h0 := h0 + c * 5
  let c := h0 >>> 26
  ⟨h0 &&& limbMask, h1 + c, h2, h3, h4⟩

/-- The whole 16-byte blocks of a message. -/
def polyFull (r : Limbs) : Nat → Limbs → Bytes → Limbs
  | 0, h, _ => h
  | n + 1, h, m => polyFull r n (polyBlock r ((1 : UInt32) <<< 24) h (m.take 16)) (m.drop 16)

/-- Fully carry, compare with the modulus, and select. -/
def polyReduce (h : Limbs) : Limbs :=
  let c := h.l1 >>> 26
  let h1 := h.l1 &&& limbMask
  let h2 := h.l2 + c
  let c := h2 >>> 26
  let h2 := h2 &&& limbMask
  let h3 := h.l3 + c
  let c := h3 >>> 26
  let h3 := h3 &&& limbMask
  let h4 := h.l4 + c
  let c := h4 >>> 26
  let h4 := h4 &&& limbMask
  let h0 := h.l0 + c
  let c := h0 >>> 26
  let h0 := h0 &&& limbMask
  let h1 := h1 + c
  let g0 := h0 + 5
  let c := g0 >>> 26
  let g0 := g0 &&& limbMask
  let g1 := h1 + c
  let c := g1 >>> 26
  let g1 := g1 &&& limbMask
  let g2 := h2 + c
  let c := g2 >>> 26
  let g2 := g2 &&& limbMask
  let g3 := h3 + c
  let c := g3 >>> 26
  let g3 := g3 &&& limbMask
  let g4 := h4 + c - ((1 : UInt32) <<< 26)
  let mask := (g4 >>> 31) - 1
  let select := fun (h g : UInt32) => (h &&& ~~~mask) ||| (g &&& mask)
  ⟨select h0 g0, select h1 g1, select h2 g2, select h3 g3, select h4 g4⟩

/-- The four words of the reduced accumulator, plus the pad. -/
def polyTag (key : Bytes) (hh : Limbs) : Bytes :=
  let word := fun (x : UInt64) => x.toUInt32.toUInt64
  let w0 := word (hh.l0.toUInt64 ||| (hh.l1.toUInt64 <<< 26))
  let w1 := word ((hh.l1 >>> 6).toUInt64 ||| (hh.l2.toUInt64 <<< 20))
  let w2 := word ((hh.l2 >>> 12).toUInt64 ||| (hh.l3.toUInt64 <<< 14))
  let w3 := word ((hh.l3 >>> 18).toUInt64 ||| (hh.l4.toUInt64 <<< 8))
  let f0 := w0 + (leAt key 16).toUInt64
  let f1 := w1 + (leAt key 20).toUInt64 + (f0 >>> 32)
  let f2 := w2 + (leAt key 24).toUInt64 + (f1 >>> 32)
  let f3 := w3 + (leAt key 28).toUInt64 + (f2 >>> 32)
  le32 f0.toUInt32 ++ le32 f1.toUInt32 ++ le32 f2.toUInt32 ++ le32 f3.toUInt32

def poly1305 (key : ByteVec 32) (msg : Bytes) : Bytes :=
  let r := polyR key.val
  let full := msg.length / 16
  let h := polyFull r full ⟨0, 0, 0, 0, 0⟩ msg
  let tail := msg.drop (16 * full)
  let h := if tail = [] then h
    else polyBlock r 0 h (tail ++ 1 :: List.replicate (15 - tail.length) 0)
  polyTag key.val (polyReduce h)

theorem length_poly1305 (key : ByteVec 32) (msg : Bytes) : (poly1305 key msg).length = 16 := by
  simp [poly1305, polyTag]

/-- Byte equality with an accumulator. -/
def ctEq (a b : Bytes) : Bool :=
  if a.length ≠ b.length then false
  else (a.zipWith (· ^^^ ·) b).foldl (· ||| ·) 0 == 0

end RustCrash.ZeroTier
