import Mathlib.Data.Nat.Bitwise
import RustCrash.Lib.ByteVec

/-
  Bitmaps, lowest bit first, in 64-bit words and in bytes.

  `bitsOf` is the list of bits a bitmap of words holds. Setting a bit, testing one, counting the
  ones before a position and listing the positions of the ones are done on words by shifts and
  masks; each is related here to the list of bits.

  In bytes, bit `i` is bit `i % 8` of byte `i / 8`, and bits past the end are 0. Setting a bit and
  moving all bits up (whole bytes first, then the rest of the way with a carry from byte to byte)
  are done on bytes.
-/

namespace RustCrash.Lib

/-- The bits of a word, lowest first. -/
def wordBits (w : UInt64) : List Bool := (List.range 64).map w.toNat.testBit

def bitsOf (ws : List UInt64) : List Bool := ws.flatMap wordBits

/-- `count_ones`. -/
def countOnes (w : UInt64) : Nat := (wordBits w).count true

/-- `leading_zeros`. -/
def leadingZeros (w : UInt64) : Nat := if w = 0 then 64 else 63 - w.toNat.log2

/-- A word with one bit set. -/
def oneBit (i : Nat) : UInt64 := 1 <<< UInt64.ofNat i

/-- Set a bit, growing the bitmap with zero words. -/
def setBit (ws : List UInt64) (i : Nat) : List UInt64 :=
  (ws ++ List.replicate (i / 64 + 1 - ws.length) 0).modify (i / 64) (· ||| oneBit (i % 64))

/-! ## Words and bits -/

@[simp] theorem length_wordBits (w : UInt64) : (wordBits w).length = 64 := by
  simp [wordBits]

@[simp] theorem length_bitsOf (ws : List UInt64) : (bitsOf ws).length = 64 * ws.length := by
  induction ws with
  | nil => rfl
  | cons w ws ih =>
    unfold bitsOf at ih ⊢
    rw [List.flatMap_cons, List.length_append, ih, length_wordBits, List.length_cons]
    omega

theorem bitsOf_append (ws vs : List UInt64) : bitsOf (ws ++ vs) = bitsOf ws ++ bitsOf vs :=
  List.flatMap_append

theorem bitsOf_cons (w : UInt64) (ws : List UInt64) : bitsOf (w :: ws) = wordBits w ++ bitsOf ws :=
  List.flatMap_cons

theorem wordBits_getElem? (w : UInt64) (i : Nat) :
    (wordBits w)[i]? = if i < 64 then some (w.toNat.testBit i) else none := by
  unfold wordBits
  rw [List.getElem?_map]
  split_ifs with h
  · simp [h]
  · simp [List.getElem?_eq_none (by simpa using h : (List.range 64).length ≤ i)]

/-- Bit `i` is bit `i % 64` of word `i / 64`. -/
theorem bitsOf_getElem? (ws : List UInt64) (i : Nat) :
    (bitsOf ws)[i]? = ws[i / 64]?.map fun w => w.toNat.testBit (i % 64) := by
  induction ws generalizing i with
  | nil => rfl
  | cons w ws ih =>
    rw [bitsOf_cons]
    by_cases h : i < 64
    · rw [List.getElem?_append_left (by simpa using h), wordBits_getElem?, if_pos h,
        Nat.div_eq_of_lt h, Nat.mod_eq_of_lt h]
      rfl
    · obtain ⟨j, rfl⟩ : ∃ j, i = j + 64 := ⟨i - 64, by omega⟩
      rw [List.getElem?_append_right (by simp), length_wordBits, Nat.add_sub_cancel, ih j,
        show (j + 64) / 64 = j / 64 + 1 by omega, show (j + 64) % 64 = j % 64 by omega,
        List.getElem?_cons_succ]

theorem toNat_oneBit {i : Nat} (h : i < 64) : (oneBit i).toNat = 2 ^ i := by
  have hp : 2 ^ i < 2 ^ 64 := Nat.pow_lt_pow_right (by decide) h
  have hi : (UInt64.ofNat i).toNat = i := by
    rw [UInt64.toNat_ofNat']
    omega
  unfold oneBit
  rw [UInt64.toNat_shiftLeft, hi, Nat.mod_eq_of_lt h, UInt64.toNat_one, Nat.shiftLeft_eq,
    Nat.one_mul, Nat.mod_eq_of_lt hp]

/-- `(w >> i) & 1`. -/
theorem shift_and_one (w : UInt64) {i : Nat} (h : i < 64) :
    ((w >>> UInt64.ofNat i) &&& 1 = 1) ↔ w.toNat.testBit i = true := by
  have hi : (UInt64.ofNat i).toNat = i := by
    rw [UInt64.toNat_ofNat']
    omega
  rw [← UInt64.toNat_inj, UInt64.toNat_and, UInt64.toNat_shiftRight, hi, Nat.mod_eq_of_lt h,
    UInt64.toNat_one, Nat.and_one_is_mod, Nat.testBit_eq_decide_div_mod_eq, Nat.shiftRight_eq_div_pow,
    decide_eq_true_iff]

/-- `w & (1 << i) != 0`. -/
theorem and_oneBit (w : UInt64) {i : Nat} (h : i < 64) :
    w &&& oneBit i ≠ 0 ↔ w.toNat.testBit i = true := by
  rw [Ne, ← UInt64.toNat_inj, UInt64.toNat_and, toNat_oneBit h, Nat.and_two_pow, UInt64.toNat_zero]
  have hp : 0 < 2 ^ i := Nat.two_pow_pos i
  cases w.toNat.testBit i
  · simp
  · simp

/-! ## Setting a bit -/

/-- Bit `i` of a bitmap; the bits past its end are 0. -/
def bitAt (ws : List UInt64) (i : Nat) : Bool := (bitsOf ws)[i]?.getD false

theorem bitAt_append_zeros (ws : List UInt64) (n i : Nat) :
    bitAt (ws ++ List.replicate n 0) i = bitAt ws i := by
  unfold bitAt
  rw [bitsOf_getElem?, bitsOf_getElem?]
  by_cases h : i / 64 < ws.length
  · rw [List.getElem?_append_left h]
  · rw [List.getElem?_append_right (by omega), List.getElem?_eq_none (by omega : ws.length ≤ i / 64),
      List.getElem?_replicate]
    split_ifs <;> simp

theorem length_setBit (ws : List UInt64) (i : Nat) :
    (setBit ws i).length = max ws.length (i / 64 + 1) := by
  unfold setBit
  rw [List.length_modify, List.length_append, List.length_replicate]
  omega

theorem bitAt_setBit (ws : List UInt64) (i j : Nat) :
    bitAt (setBit ws i) j = (bitAt ws j || decide (i = j)) := by
  rw [← bitAt_append_zeros ws (i / 64 + 1 - ws.length) j]
  unfold setBit
  have hlen : i / 64 < (ws ++ List.replicate (i / 64 + 1 - ws.length) (0 : UInt64)).length := by
    rw [List.length_append, List.length_replicate]
    omega
  generalize ws ++ List.replicate (i / 64 + 1 - ws.length) (0 : UInt64) = vs at hlen
  unfold bitAt
  rw [bitsOf_getElem?, bitsOf_getElem?, List.getElem?_modify, Option.map_eq_map, Option.map_map]
  by_cases hw : i / 64 = j / 64
  · rw [← hw, List.getElem?_eq_getElem hlen]
    simp only [Option.map_some, Option.getD_some, Function.comp_apply, if_true, UInt64.toNat_or,
      Nat.testBit_or, toNat_oneBit (Nat.mod_lt i (by decide : 64 > 0)), Nat.testBit_two_pow]
    congr 1
    rw [decide_eq_decide]
    omega
  · have hne : i ≠ j := fun h => hw (by rw [h])
    simp [hne, hw, Function.comp_def]

/-! ## Ones before a position -/

theorem count_map_range (f : Nat → Bool) (n : Nat) :
    ((List.range n).map f).count true = ((List.range n).filter f).length := by
  rw [List.count_eq_countP, List.countP_map, ← List.countP_eq_length_filter]
  congr 1
  funext i
  simp

theorem take_wordBits (w : UInt64) {off : Nat} (h : off ≤ 64) :
    (wordBits w).take off = (List.range off).map w.toNat.testBit := by
  unfold wordBits
  rw [← List.map_take, List.take_range, Nat.min_eq_left h]

/-- The ones of a word below bit `off`. -/
theorem countOnes_mask (w : UInt64) {off : Nat} (h : off < 64) :
    countOnes (w &&& (oneBit off - 1)) = ((wordBits w).take off).count true := by
  have hone : (1 : UInt64) ≤ oneBit off := by
    rw [UInt64.le_iff_toNat_le, toNat_oneBit h, UInt64.toNat_one]
    exact Nat.one_le_two_pow
  have hmask : (w &&& (oneBit off - 1)).toNat = w.toNat % 2 ^ off := by
    rw [UInt64.toNat_and, UInt64.toNat_sub_of_le _ _ hone, toNat_oneBit h, UInt64.toNat_one,
      Nat.and_two_pow_sub_one_eq_mod]
  rw [take_wordBits w (Nat.le_of_lt h), count_map_range]
  unfold countOnes wordBits
  rw [hmask, count_map_range, show 64 = off + (64 - off) by omega, List.range_add,
    List.filter_append]
  have hlow : (List.range off).filter (w.toNat % 2 ^ off).testBit =
      (List.range off).filter w.toNat.testBit := by
    refine List.filter_congr fun i hi => ?_
    rw [Nat.testBit_mod_two_pow, decide_eq_true (List.mem_range.mp hi), Bool.true_and]
  have hhigh : ((List.range (64 - off)).map (off + ·)).filter (w.toNat % 2 ^ off).testBit = [] := by
    rw [List.filter_eq_nil_iff]
    intro i hi
    obtain ⟨k, -, rfl⟩ := List.mem_map.mp hi
    rw [Nat.testBit_mod_two_pow]
    simp
  rw [hlow, hhigh, List.append_nil]

/-! ## Positions of the ones -/

/-- The positions of the ones in a list of bits whose first position is `n`. -/
def truePositions : Nat → List Bool → List Nat
  | _, [] => []
  | n, b :: bs => if b then n :: truePositions (n + 1) bs else truePositions (n + 1) bs

theorem truePositions_append (n : Nat) (a b : List Bool) :
    truePositions n (a ++ b) = truePositions n a ++ truePositions (n + a.length) b := by
  induction a generalizing n with
  | nil => rfl
  | cons x xs ih =>
    rw [List.cons_append, truePositions, truePositions, ih, List.length_cons,
      show n + (xs.length + 1) = n + 1 + xs.length by omega]
    split_ifs <;> rfl

theorem truePositions_replicate_false (n k : Nat) : truePositions n (List.replicate k false) = [] := by
  induction k generalizing n with
  | zero => rfl
  | succ k ih =>
    rw [List.replicate_succ, truePositions, ih]
    rfl

theorem truePositions_map_range (f : Nat → Bool) (n k : Nat) :
    truePositions n ((List.range k).map f) = ((List.range k).filter f).map (n + ·) := by
  induction k with
  | zero => rfl
  | succ k ih =>
    rw [List.range_succ, List.map_append, truePositions_append, ih, List.filter_append,
      List.map_append, List.length_map, List.length_range]
    cases hf : f k <;> simp [truePositions, hf]

theorem length_truePositions (n : Nat) (bs : List Bool) :
    (truePositions n bs).length = bs.count true := by
  induction bs generalizing n with
  | nil => rfl
  | cons b bs ih => cases b <;> simp [truePositions, ih]

end RustCrash.Lib

/-! ## Bitmaps in bytes -/

namespace RustCrash.Lib.ByteBits

/-- Bit `i`. -/
def bitAt (bs : Bytes) (i : Nat) : Bool := (bs.getD (i / 8) 0).toNat.testBit (i % 8)

/-- `(bs[i / 8] >> (i % 8)) & 1 == 1`. -/
def testBit (bs : Bytes) (i : Nat) : Bool :=
  (bs.getD (i / 8) 0 >>> UInt8.ofNat (i % 8)) &&& 1 = 1

/-- `bs[i / 8] |= 1 << (i % 8)`. -/
def setBit (bs : Bytes) (i : Nat) : Bytes :=
  bs.modify (i / 8) (· ||| (1 <<< UInt8.ofNat (i % 8)))

/-- Every byte moved up by `s` bits, with the bits that leave the byte below. -/
def carryUp (s : Nat) : UInt8 → Bytes → Bytes
  | _, [] => []
  | carry, b :: bs =>
    ((b <<< UInt8.ofNat s) ||| carry) :: carryUp s (b >>> UInt8.ofNat (8 - s)) bs

/-- Every byte moved up by `k` bytes. -/
def bytesUp (bs : Bytes) (k : Nat) : Bytes :=
  if 0 < k then List.replicate k 0 ++ bs.take (bs.length - k) else bs

/-- Every bit moved up by `shift`. -/
def shiftUp (bs : Bytes) (shift : Nat) : Bytes :=
  if shift = 0 then bs
  else if 8 * bs.length ≤ shift then List.replicate bs.length 0
  else if 0 < shift % 8 then carryUp (shift % 8) 0 (bytesUp bs (shift / 8))
  else bytesUp bs (shift / 8)

/-! ## Lengths -/

@[simp] theorem length_setBit (bs : Bytes) (i : Nat) : (setBit bs i).length = bs.length :=
  List.length_modify ..

@[simp] theorem length_carryUp (s : Nat) (carry : UInt8) (bs : Bytes) :
    (carryUp s carry bs).length = bs.length := by
  induction bs generalizing carry with
  | nil => rfl
  | cons b bs ih => rw [carryUp, List.length_cons, List.length_cons, ih]

theorem length_bytesUp {bs : Bytes} {k : Nat} (h : k ≤ bs.length) :
    (bytesUp bs k).length = bs.length := by
  unfold bytesUp
  split_ifs
  · rw [List.length_append, List.length_replicate, List.length_take]
    omega
  · rfl

@[simp] theorem length_shiftUp (bs : Bytes) (shift : Nat) :
    (shiftUp bs shift).length = bs.length := by
  unfold shiftUp
  split_ifs
  · rfl
  · exact List.length_replicate
  · rw [length_carryUp, length_bytesUp (by omega)]
  · exact length_bytesUp (by omega)

/-! ## Bits of one byte -/

theorem toNat_ofNat_lt {s : Nat} (h : s < 256) : (UInt8.ofNat s).toNat = s := by
  rw [UInt8.toNat_ofNat', Nat.mod_eq_of_lt (by omega)]

theorem testBit_shiftLeft {b : UInt8} {s i : Nat} (hs : s < 8) (hi : i < 8) :
    (b <<< UInt8.ofNat s).toNat.testBit i = (decide (s ≤ i) && b.toNat.testBit (i - s)) := by
  rw [UInt8.toNat_shiftLeft, toNat_ofNat_lt (by omega), Nat.mod_eq_of_lt hs, Nat.testBit_mod_two_pow,
    Nat.testBit_shiftLeft]
  simp [hi]

theorem testBit_shiftRight {b : UInt8} {s i : Nat} (hs : s < 8) :
    (b >>> UInt8.ofNat s).toNat.testBit i = b.toNat.testBit (s + i) := by
  rw [UInt8.toNat_shiftRight, toNat_ofNat_lt (by omega), Nat.mod_eq_of_lt hs,
    Nat.testBit_shiftRight]

/-! ## Testing and setting -/

theorem testBit_eq (bs : Bytes) (i : Nat) : testBit bs i = bitAt bs i := by
  unfold testBit bitAt
  have hmod : i % 8 < 8 := Nat.mod_lt _ (by decide)
  rw [Bool.eq_iff_iff, decide_eq_true_iff, ← UInt8.toNat_inj, UInt8.toNat_and,
    UInt8.toNat_shiftRight, toNat_ofNat_lt (by omega), Nat.mod_eq_of_lt hmod, UInt8.toNat_one,
    Nat.and_one_is_mod, Nat.testBit_eq_decide_div_mod_eq, Nat.shiftRight_eq_div_pow,
    decide_eq_true_iff]

theorem bitAt_cons (b : UInt8) (bs : Bytes) (i : Nat) :
    bitAt (b :: bs) i = if i < 8 then b.toNat.testBit i else bitAt bs (i - 8) := by
  unfold bitAt
  split_ifs with h
  · rw [Nat.div_eq_of_lt h, Nat.mod_eq_of_lt h, List.getD_cons_zero]
  · rw [show i / 8 = (i - 8) / 8 + 1 by omega, List.getD_cons_succ,
      show i % 8 = (i - 8) % 8 by omega]

theorem bitAt_setBit {bs : Bytes} {i : Nat} (hi : i < 8 * bs.length) (j : Nat) :
    bitAt (setBit bs i) j = (bitAt bs j || decide (j = i)) := by
  unfold bitAt setBit
  rw [List.getD_eq_getElem?_getD, List.getD_eq_getElem?_getD, List.getElem?_modify]
  by_cases hbyte : i / 8 = j / 8
  · rw [← hbyte, List.getElem?_eq_getElem (by omega)]
    have hbit : (1 <<< UInt8.ofNat (i % 8) : UInt8).toNat.testBit (j % 8) = decide (j = i) := by
      rw [testBit_shiftLeft (Nat.mod_lt _ (by decide)) (Nat.mod_lt _ (by decide)),
        UInt8.toNat_one, ← Nat.pow_zero 2, Nat.testBit_two_pow, Bool.eq_iff_iff]
      simp only [Bool.and_eq_true, decide_eq_true_iff]
      omega
    simp only [if_true, Option.map_eq_map, Option.map_some, Option.getD_some, UInt8.toNat_or,
      Nat.testBit_or, hbit]
  · have hne : ¬ j = i := fun h => hbyte (by rw [h])
    simp [hbyte, hne]

/-! ## Moving up -/

theorem bitAt_carryUp {s : Nat} (hs : 0 < s) (hs' : s < 8) {bs : Bytes} :
    ∀ {carry : UInt8}, carry.toNat < 2 ^ s → ∀ j < 8 * bs.length,
      bitAt (carryUp s carry bs) j =
        if j < s then carry.toNat.testBit j else bitAt bs (j - s) := by
  induction bs with
  | nil =>
    intro carry _ j hj
    simp at hj
  | cons b bs ih =>
    intro carry hcarry j hj
    have hhigh : ∀ k, s ≤ k → carry.toNat.testBit k = false := fun k hk =>
      Nat.testBit_lt_two_pow (Nat.lt_of_lt_of_le hcarry (Nat.pow_le_pow_right (by decide) hk))
    rw [carryUp, bitAt_cons]
    by_cases hbyte : j < 8
    · rw [if_pos hbyte, UInt8.toNat_or, Nat.testBit_or, testBit_shiftLeft hs' hbyte]
      by_cases hlow : j < s
      · simp [hlow, Nat.not_le.mpr hlow]
      · rw [if_neg hlow, hhigh j (Nat.not_lt.mp hlow), bitAt_cons, if_pos (by omega)]
        simp [Nat.not_lt.mp hlow]
    · have hnext : (b >>> UInt8.ofNat (8 - s)).toNat < 2 ^ s := by
        rw [UInt8.toNat_shiftRight, toNat_ofNat_lt (by omega), Nat.mod_eq_of_lt (by omega),
          Nat.shiftRight_eq_div_pow, Nat.div_lt_iff_lt_mul (Nat.two_pow_pos _), ← pow_add,
          show s + (8 - s) = 8 by omega]
        exact UInt8.toNat_lt b
      rw [List.length_cons] at hj
      rw [if_neg hbyte, ih hnext (j - 8) (by omega), if_neg (show ¬ j < s by omega), bitAt_cons]
      by_cases hlow : j - 8 < s
      · rw [if_pos hlow, testBit_shiftRight (by omega), if_pos (by omega),
          show 8 - s + (j - 8) = j - s by omega]
      · rw [if_neg hlow, if_neg (by omega), show j - s - 8 = j - 8 - s by omega]

theorem bitAt_bytesUp (bs : Bytes) (k : Nat) {j : Nat} (hj : j < 8 * bs.length) (hle : 8 * k ≤ j) :
    bitAt (bytesUp bs k) j = bitAt bs (j - 8 * k) := by
  unfold bytesUp
  by_cases hk : 0 < k
  · rw [if_pos hk]
    unfold bitAt
    rw [List.getD_eq_getElem?_getD, List.getD_eq_getElem?_getD,
      List.getElem?_append_right (by rw [List.length_replicate]; omega), List.length_replicate,
      List.getElem?_take_of_lt (by omega), show (j - 8 * k) / 8 = j / 8 - k by omega,
      show (j - 8 * k) % 8 = j % 8 by omega]
  · rw [if_neg hk, show k = 0 by omega, Nat.mul_zero, Nat.sub_zero]

/-- Bit `j` was bit `j - shift`. -/
theorem bitAt_shiftUp {bs : Bytes} {shift j : Nat} (hj : j < 8 * bs.length) (hle : shift ≤ j) :
    bitAt (shiftUp bs shift) j = bitAt bs (j - shift) := by
  unfold shiftUp
  by_cases hzero : shift = 0
  · rw [if_pos hzero, hzero, Nat.sub_zero]
  rw [if_neg hzero, if_neg (by omega)]
  by_cases hbit : 0 < shift % 8
  · have hcarry : (0 : UInt8).toNat < 2 ^ (shift % 8) := Nat.two_pow_pos _
    have hlen := length_bytesUp (show shift / 8 ≤ bs.length by omega)
    rw [if_pos hbit, bitAt_carryUp hbit (Nat.mod_lt _ (by decide)) hcarry j (by omega),
      if_neg (by omega), bitAt_bytesUp bs _ (by omega) (by omega),
      show j - shift % 8 - 8 * (shift / 8) = j - shift by omega]
  · rw [if_neg hbit, bitAt_bytesUp bs _ hj (by omega), show 8 * (shift / 8) = shift by omega]

end RustCrash.Lib.ByteBits
