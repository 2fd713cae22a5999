import RustCrash.Lib.ByteVec

/-
  The internet checksum: the one's complement of the one's complement sum of 16-bit words.

  `addWords` and `foldCarry` are the machine operations, on 32 bits. `wordSum` is the sum as a
  number, and a message verifies (`Verifies`) when its sum folds to 0xFFFF. `verifies_complement`
  says that the complement, put where two zero bytes were, makes a message verify; as long as the
  sum fits 32 bits.
-/

namespace RustCrash.Lib.OnesComplement

/-! ## The machine operations -/

/-- The big-endian words of a part added up; an odd byte at the end is a high byte. -/
def addWords (sum : UInt32) : Bytes → UInt32
  | a :: b :: rest => addWords (sum + (a.toUInt32 <<< 8 ||| b.toUInt32)) rest
  | [a] => sum + a.toUInt32 <<< 8
  | [] => sum

theorem carry_lt {n : Nat} (h : n / 65536 ≠ 0) : n % 65536 + n / 65536 < n := by omega

theorem toNat_carry (sum : UInt32) :
    ((sum &&& (0xffff : UInt32)) + (sum >>> 16)).toNat = sum.toNat % 65536 + sum.toNat / 65536 := by
  have hlow : (sum &&& (0xffff : UInt32)).toNat = sum.toNat % 65536 := by
    rw [UInt32.toNat_and]
    exact Nat.and_two_pow_sub_one_eq_mod sum.toNat 16
  have hhigh : (sum >>> 16).toNat = sum.toNat / 65536 := by
    rw [UInt32.toNat_shiftRight]
    exact Nat.shiftRight_eq_div_pow sum.toNat 16
  have hlt := sum.toNat_lt
  rw [UInt32.toNat_add, hlow, hhigh, Nat.mod_eq_of_lt (by omega)]

theorem shift_ne_zero (sum : UInt32) : sum >>> 16 ≠ 0 ↔ sum.toNat / 65536 ≠ 0 := by
  have hhigh : (sum >>> 16).toNat = sum.toNat / 65536 := by
    rw [UInt32.toNat_shiftRight]
    exact Nat.shiftRight_eq_div_pow sum.toNat 16
  rw [← hhigh, ne_eq, ne_eq, ← UInt32.toNat_inj]
  rfl

/-- `while sum >> 16 != 0`: the carries added back. -/
def foldCarry (sum : UInt32) : UInt32 :=
  if sum >>> 16 ≠ 0 then foldCarry ((sum &&& (0xffff : UInt32)) + (sum >>> 16)) else sum
termination_by sum.toNat
decreasing_by
  rename_i h
  rw [toNat_carry]
  exact carry_lt ((shift_ne_zero sum).mp h)

/-! ## Sums as numbers -/

def wordSum : Bytes → Nat
  | a :: b :: rest => a.toNat * 256 + b.toNat + wordSum rest
  | [a] => a.toNat * 256
  | [] => 0

/-- The carries of a number added back until 16 bits are left. -/
def fold (n : Nat) : Nat := if n / 65536 ≠ 0 then fold (n % 65536 + n / 65536) else n
termination_by n
decreasing_by
  rename_i h
  exact carry_lt h

/-- A message with its checksum in it: the sum folds to 0xFFFF. -/
def Verifies (bs : Bytes) : Prop := fold (wordSum bs) = 0xFFFF

theorem toNat_foldCarry (sum : UInt32) : (foldCarry sum).toNat = fold sum.toNat := by
  induction sum using foldCarry.induct with
  | case1 sum h ih =>
    rw [foldCarry, if_pos h, ih, toNat_carry]
    conv => rhs; rw [fold, if_pos ((shift_ne_zero sum).mp h)]
  | case2 sum h =>
    rw [foldCarry, if_neg h, fold, if_neg (fun hne => h ((shift_ne_zero sum).mpr hne))]

/-- Folding keeps the number modulo 65535, and 0 is folded from 0 only. -/
theorem fold_spec (n : Nat) : fold n ≤ 65535 ∧ fold n % 65535 = n % 65535 ∧ (fold n = 0 → n = 0) := by
  induction n using fold.induct with
  | case1 n h ih =>
    rw [fold, if_pos h]
    obtain ⟨hle, hmod, hzero⟩ := ih
    exact ⟨hle, by omega, fun h0 => by have := hzero h0; omega⟩
  | case2 n h =>
    rw [fold, if_neg h]
    exact ⟨by omega, rfl, id⟩

theorem fold_eq_max_iff (n : Nat) : fold n = 65535 ↔ 0 < n ∧ 65535 ∣ n := by
  obtain ⟨hle, hmod, hzero⟩ := fold_spec n
  constructor
  · intro h
    rw [h] at hmod
    refine ⟨Nat.pos_of_ne_zero ?_, Nat.dvd_of_mod_eq_zero (by omega)⟩
    rintro rfl
    simp [fold] at h
  · rintro ⟨hpos, hdvd⟩
    have hne : fold n ≠ 0 := fun h0 => by have := hzero h0; omega
    have := Nat.mod_eq_zero_of_dvd hdvd
    omega

theorem verifies_iff (bs : Bytes) : Verifies bs ↔ 0 < wordSum bs ∧ 65535 ∣ wordSum bs :=
  fold_eq_max_iff _

/-- A number and the complement of what it folds to. -/
theorem fold_add_complement (n : Nat) : fold (n + (65535 - fold n)) = 65535 := by
  rw [fold_eq_max_iff]
  obtain ⟨hle, hmod, hzero⟩ := fold_spec n
  constructor
  · by_cases h : n = 0
    · subst h
      simp [fold]
    · omega
  · exact Nat.dvd_of_mod_eq_zero (by omega)

/-! ## Sums of messages -/

theorem wordSum_append {xs ys : Bytes} (h : 2 ∣ xs.length) :
    wordSum (xs ++ ys) = wordSum xs + wordSum ys := by
  induction xs using wordSum.induct with
  | case1 a b rest ih =>
    have hrest : 2 ∣ rest.length := by
      simp only [List.length_cons] at h
      omega
    simp only [List.cons_append, wordSum]
    rw [ih hrest, Nat.add_assoc (a.toNat * 256 + b.toNat)]
  | case2 a => simp at h
  | case3 => simp [wordSum]

/-- A word is less than 2^16. -/
theorem wordSum_le (bs : Bytes) : 2 * wordSum bs ≤ 65535 * (bs.length + 1) := by
  induction bs using wordSum.induct with
  | case1 a b rest ih =>
    have ha := a.toNat_lt
    have hb := b.toNat_lt
    simp only [wordSum, List.length_cons]
    omega
  | case2 a =>
    have ha := a.toNat_lt
    simp only [wordSum, List.length_cons, List.length_nil]
    omega
  | case3 => simp [wordSum]

theorem wordSum_be16 (x : UInt16) : wordSum (be16 x) = x.toNat := by
  have hlt := x.toNat_lt
  simp only [be16, toBE, wordSum, UInt8.toNat_ofNat']
  omega

theorem toNat_word (a b : UInt8) :
    (a.toUInt32 <<< 8 ||| b.toUInt32).toNat = a.toNat * 256 + b.toNat := by
  have ha := a.toNat_lt
  have hb := b.toNat_lt
  have hshift : (a.toUInt32 <<< 8).toNat = a.toNat <<< 8 := by
    rw [UInt32.toNat_shiftLeft, UInt8.toNat_toUInt32]
    have h8 : (8 : UInt32).toNat % 32 = 8 := rfl
    rw [h8, Nat.shiftLeft_eq, Nat.mod_eq_of_lt (by omega)]
  have hor : a.toNat <<< 8 ||| b.toNat = a.toNat <<< 8 + b.toNat :=
    (Nat.shiftLeft_add_eq_or_of_lt hb _).symm
  rw [UInt32.toNat_or, hshift, UInt8.toNat_toUInt32, hor, Nat.shiftLeft_eq]

theorem toNat_add_of_lt {a b : UInt32} (h : a.toNat + b.toNat < 2 ^ 32) :
    (a + b).toNat = a.toNat + b.toNat := by
  rw [UInt32.toNat_add]
  exact Nat.mod_eq_of_lt h

theorem wordSum_cons (a : UInt8) (rest : Bytes) :
    wordSum (a :: rest) = a.toNat * 256 + wordSum (0 :: rest) := by
  cases rest with
  | nil => simp [wordSum]
  | cons b rest =>
    have hzero : (0 : UInt8).toNat = 0 := rfl
    simp only [wordSum, hzero, Nat.zero_mul, Nat.zero_add, Nat.add_assoc]

/-- What is behind an odd place starts with a low byte. -/
def behind (k : Nat) (bs : Bytes) : Bytes := if k % 2 = 0 then bs.drop k else 0 :: bs.drop k

theorem wordSum_behind_of_le {k : Nat} {bs : Bytes} (h : bs.length ≤ k) :
    wordSum (behind k bs) = 0 := by
  unfold behind
  rw [List.drop_eq_nil_of_le h]
  split_ifs <;> simp [wordSum]

theorem wordSum_behind_nil (k : Nat) : wordSum (behind k []) = 0 :=
  wordSum_behind_of_le (Nat.zero_le k)

theorem wordSum_cut : ∀ (k : Nat) (bs : Bytes),
    wordSum bs = wordSum (bs.take k) + wordSum (behind k bs)
  | 0, bs => by simp [wordSum, behind]
  | 1, [] => rfl
  | 1, a :: rest => wordSum_cons a rest
  | k + 2, [] => by simp [wordSum_behind_nil, wordSum]
  | k + 2, [a] => by
    have hbehind : behind (k + 2) [a] = behind k [] := by
      unfold behind
      rw [Nat.add_mod_right]
      simp
    rw [hbehind, wordSum_behind_nil]
    simp
  | k + 2, a :: b :: rest => by
    have hrest := wordSum_cut k rest
    have hbehind : behind (k + 2) (a :: b :: rest) = behind k rest := by
      unfold behind
      rw [Nat.add_mod_right, List.drop_succ_cons, List.drop_succ_cons]
    rw [hbehind, List.take_succ_cons, List.take_succ_cons, wordSum, wordSum]
    omega

theorem wordSum_be32 {n : Nat} (h : n < 65536) : wordSum (be32 (UInt32.ofNat n)) = n := by
  have hn : (UInt32.ofNat n).toNat = n := by
    rw [UInt32.toNat_ofNat']
    exact Nat.mod_eq_of_lt (by omega)
  simp only [be32, hn, toBE, wordSum, UInt8.toNat_ofNat']
  omega

/-- The pseudo-header of IPv6: both addresses, the length of the message, its protocol. -/
def pseudoHeader (src dst : Bytes) (len : Nat) (proto : UInt8) : Bytes :=
  src ++ dst ++ be32 (UInt32.ofNat len) ++ [0, 0, 0, proto]

theorem length_pseudoHeader {src dst : Bytes} (hs : src.length = 16) (hd : dst.length = 16)
    (len : Nat) (proto : UInt8) : (pseudoHeader src dst len proto).length = 40 := by
  simp [pseudoHeader, hs, hd]

theorem wordSum_pseudoHeader {src dst : Bytes} {len : Nat} (hs : src.length = 16)
    (hd : dst.length = 16) (hlen : len < 65536) (proto : UInt8) :
    wordSum (pseudoHeader src dst len proto) =
      wordSum src + wordSum dst + len + proto.toNat := by
  unfold pseudoHeader
  rw [wordSum_append (by simp [hs, hd]), wordSum_append (by simp [hs, hd]),
    wordSum_append (by simp [hs]), wordSum_be32 hlen]
  simp [wordSum]

/-- A sum that fits 32 bits is the sum. -/
theorem toNat_addWords {sum : UInt32} {bs : Bytes} (h : sum.toNat + wordSum bs < 2 ^ 32) :
    (addWords sum bs).toNat = sum.toNat + wordSum bs := by
  induction sum, bs using addWords.induct with
  | case1 sum a b rest ih =>
    simp only [wordSum] at h
    have hsum : (sum + (a.toUInt32 <<< 8 ||| b.toUInt32)).toNat =
        sum.toNat + (a.toNat * 256 + b.toNat) := by
      rw [toNat_add_of_lt, toNat_word]
      rw [toNat_word]
      exact Nat.lt_of_le_of_lt (Nat.add_le_add_left (Nat.le_add_right _ _) _) h
    rw [addWords, ih (by rw [hsum]; omega), hsum, wordSum]
    omega
  | case2 sum a =>
    simp only [wordSum] at h
    have ha : (a.toUInt32 <<< 8).toNat = a.toNat * 256 := by
      have := toNat_word a 0
      simpa using this
    have hsum : (sum + a.toUInt32 <<< 8).toNat = sum.toNat + a.toNat * 256 := by
      rw [toNat_add_of_lt, ha]
      rw [ha]
      omega
    exact hsum
  | case3 sum => simp [addWords, wordSum]

/-! ## The complement -/

/-- The checksum: the complement of the folded sum. -/
def complement (sum : UInt32) : UInt16 := ~~~(foldCarry sum).toUInt16

theorem toNat_complement (sum : UInt32) : (complement sum).toNat = 65535 - fold sum.toNat := by
  obtain ⟨hle, -, -⟩ := fold_spec sum.toNat
  have hlow : ((foldCarry sum).toUInt16).toNat = fold sum.toNat := by
    rw [UInt32.toNat_toUInt16, toNat_foldCarry, Nat.mod_eq_of_lt (by omega)]
  unfold complement
  rw [UInt16.toNat_not, hlow]
  rfl

/-- Two zero bytes at an even place overwritten with a word. -/
theorem wordSum_setBytes {bs : Bytes} {k : Nat} {x : UInt16} (hk : 2 ∣ k) (hlen : k + 2 ≤ bs.length)
    (hzero : slice bs k 2 = [0, 0]) : wordSum (setBytes bs k (be16 x)) = wordSum bs + x.toNat := by
  have hhead : 2 ∣ (bs.take k).length := by rwa [List.length_take, Nat.min_eq_left (by omega)]
  have hsplit : bs = bs.take k ++ ([0, 0] ++ bs.drop (k + 2)) := by
    rw [← hzero, slice, ← List.drop_drop, List.take_append_drop, List.take_append_drop]
  have hset : setBytes bs k (be16 x) = bs.take k ++ (be16 x ++ bs.drop (k + 2)) := by
    rw [setBytes, length_be16, List.append_assoc]
  conv => rhs; rw [hsplit]
  rw [hset, wordSum_append hhead, wordSum_append (by simp), wordSum_append hhead,
    wordSum_append (by simp), wordSum_be16]
  simp [wordSum]
  omega

/-- The checksum of a message behind an even part, put into the message. -/
theorem verifies_complement {front bs : Bytes} {sum : UInt32} {k : Nat} (hfront : 2 ∣ front.length)
    (hk : 2 ∣ k) (hlen : k + 2 ≤ bs.length) (hzero : slice bs k 2 = [0, 0])
    (hsum : sum.toNat = wordSum front + wordSum bs) :
    Verifies (front ++ setBytes bs k (be16 (complement sum))) := by
  unfold Verifies
  rw [wordSum_append hfront, wordSum_setBytes hk hlen hzero, toNat_complement, ← Nat.add_assoc, ← hsum]
  exact fold_add_complement sum.toNat

/-- A message that verifies, cut and with the length of what is left: it verifies when the lengths
    and the words that are gone do not change the sum. -/
theorem verifies_cut_iff {src dst m : Bytes} {len cut : Nat} {proto : UInt8} (hs : src.length = 16)
    (hd : dst.length = 16) (hlen : len < 65536) (hcut : cut ≤ len) (hproto : 0 < proto.toNat)
    (h : Verifies (pseudoHeader src dst len proto ++ m)) :
    Verifies (pseudoHeader src dst cut proto ++ m.take cut) ↔
      65535 ∣ len - cut + wordSum (behind cut m) := by
  have heven (n : Nat) : 2 ∣ (pseudoHeader src dst n proto).length := by
    rw [length_pseudoHeader hs hd]
    omega
  have hm := wordSum_cut cut m
  rw [verifies_iff, wordSum_append (heven len), wordSum_pseudoHeader hs hd hlen] at h
  rw [verifies_iff, wordSum_append (heven cut), wordSum_pseudoHeader hs hd (by omega)]
  have hsum : wordSum src + wordSum dst + len + proto.toNat + wordSum m =
      wordSum src + wordSum dst + cut + proto.toNat + wordSum (m.take cut) +
        (len - cut + wordSum (behind cut m)) := by omega
  rw [hsum] at h
  constructor
  · exact fun hcutsum => (Nat.dvd_add_right hcutsum.2).mp h.2
  · exact fun hgone => ⟨by omega, (Nat.dvd_add_left hgone).mp h.2⟩

end RustCrash.Lib.OnesComplement
