import Mathlib.Data.List.ModifyLast
import Mathlib.Tactic

/-
  Byte strings and fixed-width integers. `toBE k n` is the `k`-byte big-endian form of
  `n`, `toLE k n` the little-endian one; both drop the bits above `256^k`, as an integer
  cast to that width does. The round trips `ofBE_toBE` and `ofLE_toLE` are the only facts
  the framing proofs need, together with the lengths.
-/

namespace RustCrash.Lib

abbrev Bytes := List UInt8

/-- The longest slice the language allows: no object is larger than `isize::MAX` bytes. -/
def isizeMax : Nat := 2 ^ 63 - 1

/-! ## Big-endian and little-endian integers -/

def toBE : Nat → Nat → Bytes
  | 0, _ => []
  | k + 1, n => UInt8.ofNat (n / 256 ^ k) :: toBE k n

def ofBE : Bytes → Nat
  | [] => 0
  | b :: bs => b.toNat * 256 ^ bs.length + ofBE bs

def toLE (k n : Nat) : Bytes := (toBE k n).reverse

def ofLE (bs : Bytes) : Nat := ofBE bs.reverse

@[simp] theorem length_toBE (k n : Nat) : (toBE k n).length = k := by
  induction k with
  | zero => rfl
  | succ k ih => simp [toBE, ih]

@[simp] theorem length_toLE (k n : Nat) : (toLE k n).length = k := by
  simp [toLE]

theorem ofBE_lt (bs : Bytes) : ofBE bs < 256 ^ bs.length := by
  induction bs with
  | nil => simp [ofBE]
  | cons b bs ih =>
    have hb : b.toNat < 256 := UInt8.toNat_lt b
    have hm : b.toNat * 256 ^ bs.length ≤ 255 * 256 ^ bs.length :=
      Nat.mul_le_mul_right _ (by omega)
    simp only [ofBE, List.length_cons, Nat.pow_succ]
    omega

theorem ofBE_toBE (k n : Nat) : ofBE (toBE k n) = n % 256 ^ k := by
  induction k with
  | zero => simp [toBE, ofBE, Nat.mod_one]
  | succ k ih =>
    have hb : (UInt8.ofNat (n / 256 ^ k)).toNat = n / 256 ^ k % 256 := by simp
    simp only [toBE, ofBE, length_toBE, ih, hb]
    rw [Nat.pow_succ, Nat.mod_mul, Nat.mul_comm (n / 256 ^ k % 256), Nat.add_comm]

theorem ofBE_toBE_of_lt {k n : Nat} (h : n < 256 ^ k) : ofBE (toBE k n) = n := by
  rw [ofBE_toBE, Nat.mod_eq_of_lt h]

theorem ofLE_toLE (k n : Nat) : ofLE (toLE k n) = n % 256 ^ k := by
  simp [ofLE, toLE, ofBE_toBE]

theorem toBE_ofBE (bs : Bytes) : toBE bs.length (ofBE bs) = bs := by
  have key : ∀ (bs : Bytes) (c : Nat),
      toBE bs.length (c * 256 ^ bs.length + ofBE bs) = bs := by
    intro bs
    induction bs with
    | nil => intro c; rfl
    | cons b bs ih =>
      intro c
      have hlt := ofBE_lt bs
      have hpos : 0 < 256 ^ bs.length := Nat.pow_pos (by decide)
      have hn : c * 256 ^ (bs.length + 1) + (b.toNat * 256 ^ bs.length + ofBE bs) =
          (c * 256 + b.toNat) * 256 ^ bs.length + ofBE bs := by
        rw [Nat.pow_succ, Nat.add_mul, Nat.add_assoc, Nat.mul_assoc, Nat.mul_comm 256]
      have hd : ((c * 256 + b.toNat) * 256 ^ bs.length + ofBE bs) / 256 ^ bs.length =
          c * 256 + b.toNat := by
        rw [Nat.add_comm, Nat.add_mul_div_right _ _ hpos, Nat.div_eq_of_lt hlt, Nat.zero_add]
      simp only [List.length_cons, ofBE, toBE]
      rw [hn, ih (c * 256 + b.toNat), hd]
      congr 1
      apply UInt8.toNat_inj.mp
      simp
  simpa using key bs 0

/-! ## Typed integers

`from_be_bytes` and `to_be_bytes` at the widths the formats use. -/

def be16 (x : UInt16) : Bytes := toBE 2 x.toNat
def be32 (x : UInt32) : Bytes := toBE 4 x.toNat
def be64 (x : UInt64) : Bytes := toBE 8 x.toNat
def le64 (x : UInt64) : Bytes := toLE 8 x.toNat

@[simp] theorem length_be16 (x : UInt16) : (be16 x).length = 2 := length_toBE _ _
@[simp] theorem length_be32 (x : UInt32) : (be32 x).length = 4 := length_toBE _ _
@[simp] theorem length_be64 (x : UInt64) : (be64 x).length = 8 := length_toBE _ _

def ofBE16 (bs : Bytes) : UInt16 := UInt16.ofNat (ofBE bs)
def ofBE32 (bs : Bytes) : UInt32 := UInt32.ofNat (ofBE bs)
def ofBE64 (bs : Bytes) : UInt64 := UInt64.ofNat (ofBE bs)

@[simp] theorem ofBE16_be16 (x : UInt16) : ofBE16 (be16 x) = x := by
  unfold ofBE16 be16
  rw [ofBE_toBE_of_lt (by simpa using x.toNat_lt), UInt16.ofNat_toNat]

@[simp] theorem ofBE32_be32 (x : UInt32) : ofBE32 (be32 x) = x := by
  unfold ofBE32 be32
  rw [ofBE_toBE_of_lt (by simpa using x.toNat_lt), UInt32.ofNat_toNat]

@[simp] theorem ofBE64_be64 (x : UInt64) : ofBE64 (be64 x) = x := by
  unfold ofBE64 be64
  rw [ofBE_toBE_of_lt (by simpa using x.toNat_lt), UInt64.ofNat_toNat]

theorem be16_ofBE16 {bs : Bytes} (h : bs.length = 2) : be16 (ofBE16 bs) = bs := by
  have hlt := ofBE_lt bs
  rw [h] at hlt
  unfold be16 ofBE16
  rw [UInt16.toNat_ofNat_of_lt' hlt, ← h, toBE_ofBE]

theorem be32_ofBE32 {bs : Bytes} (h : bs.length = 4) : be32 (ofBE32 bs) = bs := by
  have hlt := ofBE_lt bs
  rw [h] at hlt
  unfold be32 ofBE32
  rw [UInt32.toNat_ofNat_of_lt' hlt, ← h, toBE_ofBE]

/-! ## Writing in place -/

/-- `raw[off..off + bs.len()].copy_from_slice(bs)`, for a range inside `raw`. -/
def setBytes (raw : Bytes) (off : Nat) (bs : Bytes) : Bytes :=
  raw.take off ++ bs ++ raw.drop (off + bs.length)

theorem setBytes_middle {x y z bs : Bytes} (h : bs.length = y.length) :
    setBytes (x ++ (y ++ z)) x.length bs = x ++ (bs ++ z) := by
  unfold setBytes
  rw [List.take_left' rfl, h, ← List.append_assoc x y z, List.drop_left' (by simp),
    List.append_assoc]

theorem setBytes_append {x bs : Bytes} {off : Nat} (h : off + bs.length ≤ x.length) (m : Bytes) :
    setBytes (x ++ m) off bs = setBytes x off bs ++ m := by
  unfold setBytes
  rw [List.take_append_of_le_length (by omega), List.drop_append_of_le_length h, List.append_assoc,
    List.append_assoc, List.append_assoc]

theorem length_setBytes {raw bs : Bytes} {off : Nat} (h : off + bs.length ≤ raw.length) :
    (setBytes raw off bs).length = raw.length := by
  unfold setBytes
  rw [List.length_append, List.length_append, List.length_take, List.length_drop]
  omega

theorem take_setBytes {raw bs : Bytes} {off p : Nat} (h : off + bs.length ≤ raw.length)
    (hp : p ≤ off) : (setBytes raw off bs).take p = raw.take p := by
  unfold setBytes
  rw [List.append_assoc, List.take_append_of_le_length (by rw [List.length_take]; omega),
    List.take_take, Nat.min_eq_left hp]

theorem drop_setBytes {raw bs : Bytes} {off p : Nat} (h : off + bs.length ≤ raw.length)
    (hp : off + bs.length ≤ p) : (setBytes raw off bs).drop p = raw.drop p := by
  have hlen : (raw.take off ++ bs).length = off + bs.length := by
    rw [List.length_append, List.length_take, Nat.min_eq_left (by omega)]
  unfold setBytes
  rw [List.drop_append, List.drop_eq_nil_of_le (by omega), List.nil_append, List.drop_drop, hlen]
  congr 1
  omega

/-! ## Big-endian numbers cut at a bit -/

theorem ofBE_append (xs ys : Bytes) : ofBE (xs ++ ys) = ofBE xs * 256 ^ ys.length + ofBE ys := by
  induction xs with
  | nil => simp [ofBE]
  | cons x xs ih =>
    rw [List.cons_append, ofBE, ofBE, ih, List.length_append, Nat.pow_add]
    ring

theorem ofBE_zeros (n : Nat) : ofBE (List.replicate n 0) = 0 := by
  induction n with
  | zero => rfl
  | succ n ih => simp [List.replicate_succ, ofBE, ih]

/-- The first `bits` bits, in whole bytes, the rest of the last byte being zero. -/
def truncateBits (bits : Nat) (bs : Bytes) : Bytes :=
  let bytes := bs.take ((bits + 7) / 8)
  if bits % 8 ≠ 0 then bytes.modifyLast (· &&& (0xff <<< UInt8.ofNat (8 - bits % 8))) else bytes

/-- The first `n` bytes, or all and zeros behind them. -/
def padTo (n : Nat) (bs : Bytes) : Bytes := bs.take n ++ List.replicate (n - bs.length) 0

/-- The bits of a byte behind the first `k`. -/
theorem toNat_and_high {k : Nat} (hk : 0 < k) (hk' : k < 8) (b : UInt8) :
    (b &&& (0xff <<< UInt8.ofNat (8 - k))).toNat = b.toNat / 2 ^ (8 - k) * 2 ^ (8 - k) := by
  obtain ⟨⟨b⟩⟩ := b
  interval_cases k <;> revert b <;> decide +kernel

/-- A number above a place is what is left of it when the rest is cut off. -/
theorem cut_of_lt {n a p low : Nat} (hn : n = a * p + low) (hlow : low < p) : n / p * p = a * p := by
  rw [hn, Nat.mul_comm a p, Nat.mul_add_div (by omega), Nat.div_eq_of_lt hlow, Nat.add_zero,
    Nat.mul_comm]

theorem pow_256 (n : Nat) : (256 : Nat) ^ n = 2 ^ (8 * n) := by rw [Nat.pow_mul]

theorem length_truncateBits_le (bits : Nat) (bs : Bytes) :
    (truncateBits bits bs).length ≤ bs.length := by
  have hmod : ∀ (l : Bytes) (f : UInt8 → UInt8), (l.modifyLast f).length = l.length := by
    intro l f
    rcases List.eq_nil_or_concat l with rfl | ⟨l', b, rfl⟩
    · rfl
    · simp [List.modifyLast_concat]
  unfold truncateBits
  dsimp only
  split_ifs <;> simp [hmod]

theorem ofBE_padTo_truncateBits {bits : Nat} {bs : Bytes} (h : bits ≤ 8 * bs.length) :
    ofBE (padTo bs.length (truncateBits bits bs)) =
      ofBE bs / 2 ^ (8 * bs.length - bits) * 2 ^ (8 * bs.length - bits) := by
  by_cases hrem : bits % 8 = 0
  · -- whole bytes
    have hlow : 8 * bs.length - bits = 8 * (bs.length - bits / 8) := by omega
    have hsplit := ofBE_append (bs.take (bits / 8)) (bs.drop (bits / 8))
    have hlt := ofBE_lt (bs.drop (bits / 8))
    rw [List.take_append_drop, List.length_drop, pow_256] at hsplit
    rw [List.length_drop, pow_256] at hlt
    have htrunc : truncateBits bits bs = bs.take (bits / 8) := by
      simp [truncateBits, hrem, show (bits + 7) / 8 = bits / 8 by omega]
    rw [hlow, cut_of_lt hsplit hlt, htrunc, padTo, ofBE_append, ofBE_zeros,
      List.take_of_length_le (by simp), List.length_replicate, List.length_take,
      Nat.min_eq_left (by omega), pow_256, Nat.add_zero]
  · -- the last byte is cut
    have hq : bits / 8 < bs.length := by omega
    have hcut : bs = bs.take (bits / 8) ++ (bs[bits / 8] :: bs.drop (bits / 8 + 1)) := by
      rw [← List.drop_eq_getElem_cons hq, List.take_append_drop]
    have htrunc : truncateBits bits bs = bs.take (bits / 8) ++
        [bs[bits / 8] &&& (0xff <<< UInt8.ofNat (8 - bits % 8))] := by
      have htake : bs.take ((bits + 7) / 8) = bs.take (bits / 8) ++ [bs[bits / 8]] := by
        rw [show (bits + 7) / 8 = bits / 8 + 1 by omega, List.take_succ_eq_append_getElem hq]
      unfold truncateBits
      dsimp only
      rw [if_pos hrem, htake, List.modifyLast_concat]
    have hvalue := congrArg ofBE hcut
    have hlt := ofBE_lt (bs.drop (bits / 8 + 1))
    rw [ofBE_append, List.length_cons, List.length_drop, ofBE, List.length_drop, pow_256,
      pow_256] at hvalue
    rw [List.length_drop, pow_256] at hlt
    have hbyte := toNat_and_high (Nat.pos_of_ne_zero hrem) (Nat.mod_lt bits (by decide)) bs[bits / 8]
    have hmod := Nat.div_add_mod bs[bits / 8].toNat (2 ^ (8 - bits % 8))
    have hmodlt := Nat.mod_lt bs[bits / 8].toNat (Nat.two_pow_pos (8 - bits % 8))
    have hwhole : 2 ^ (8 * (bs.length - (bits / 8 + 1) + 1)) =
        2 ^ (bits % 8) * 2 ^ (8 - bits % 8) * 2 ^ (8 * (bs.length - (bits / 8 + 1))) := by
      rw [← Nat.pow_add, ← Nat.pow_add]
      congr 1
      omega
    have hpart : 2 ^ (8 * bs.length - bits) =
        2 ^ (8 - bits % 8) * 2 ^ (8 * (bs.length - (bits / 8 + 1))) := by
      rw [← Nat.pow_add]
      congr 1
      omega
    have h256 : 256 = 2 ^ (bits % 8) * 2 ^ (8 - bits % 8) := by
      rw [← Nat.pow_add, Nat.add_sub_cancel' (Nat.mod_lt bits (by decide)).le]
    rw [htrunc, padTo, ofBE_append, ofBE_zeros, List.take_of_length_le (by simp; omega),
      List.length_replicate, ofBE_append, hpart]
    simp only [List.length_append, List.length_take, List.length_cons, List.length_nil,
      Nat.min_eq_left hq.le, ofBE, hbyte, pow_256, Nat.zero_add, Nat.pow_zero, Nat.mul_one,
      Nat.add_zero]
    rw [hwhole] at hvalue
    generalize 2 ^ (8 * (bs.length - (bits / 8 + 1))) = P at *
    generalize 2 ^ (8 - bits % 8) = E at *
    generalize 2 ^ (bits % 8) = R at *
    generalize ofBE (bs.take (bits / 8)) = T at *
    generalize bs[bits / 8].toNat = b at *
    generalize ofBE (bs.drop (bits / 8 + 1)) = L at *
    have hsum : ofBE bs = (T * R + b / E) * (E * P) + (b % E * P + L) := by
      rw [hvalue]
      conv => lhs; rw [← hmod]
      ring
    have hsmall : b % E * P + L < E * P := by
      have := Nat.mul_le_mul_right P (Nat.succ_le_of_lt hmodlt)
      rw [Nat.succ_mul] at this
      omega
    rw [cut_of_lt hsum hsmall]
    have h256' : 2 ^ (8 * 1) = R * E := h256
    rw [h256']
    ring

end RustCrash.Lib
