import RustCrash.Lib.ByteVec

/-
  QUIC varints (`quic/mod.rs`; RFC 9000 section 16): the two top bits of the first byte give
  the length. A number of 2^62 or more does not fit the eight bytes: `write_varint` keeps its
  low 62 bits (`readVarint_writeVarint`). Also the range reads of the frame decoders.
-/

namespace RustCrash.Quic

open Lib

/-- `(v >> 8 * k) as u8`. -/
def byteAt (v k : Nat) : UInt8 := UInt8.ofNat (v / 256 ^ k)

def writeVarint (v : Nat) : Bytes :=
  if v ≤ 0x3f then [byteAt v 0]
  else if v ≤ 0x3fff then [byteAt v 1 ||| 0x40, byteAt v 0]
  else if v ≤ 0x3fffffff then [byteAt v 3 ||| 0x80, byteAt v 2, byteAt v 1, byteAt v 0]
  else [byteAt v 7 ||| 0xc0, byteAt v 6, byteAt v 5, byteAt v 4, byteAt v 3, byteAt v 2,
    byteAt v 1, byteAt v 0]

def varintLen (v : Nat) : Nat :=
  if v ≤ 0x3f then 1 else if v ≤ 0x3fff then 2 else if v ≤ 0x3fffffff then 4 else 8

/-- The number and its length; each byte behind the first is shifted in. -/
def readVarint (data : Bytes) : Option (Nat × Nat) :=
  data.head?.bind fun first =>
    let len := 2 ^ (first.toNat / 64)
    if data.length < len then none
    else some (((data.drop 1).take (len - 1)).foldl (fun v b => v * 256 + b.toNat)
      (first &&& 0x3f).toNat, len)

theorem toNat_byteAt (v k : Nat) : (byteAt v k).toNat = v / 256 ^ k % 256 := by
  simp [byteAt]

@[simp] theorem length_writeVarint (v : Nat) : (writeVarint v).length = varintLen v := by
  unfold writeVarint varintLen
  split_ifs <;> rfl

/-- The first byte of a number of each length. -/
theorem tag_first (b : UInt8) :
    (b.toNat < 64 → b.toNat / 64 = 0 ∧ (b &&& 0x3f).toNat = b.toNat) ∧
    (b.toNat < 64 → (b ||| 0x40).toNat / 64 = 1 ∧ ((b ||| 0x40) &&& 0x3f).toNat = b.toNat) ∧
    (b.toNat < 64 → (b ||| 0x80).toNat / 64 = 2 ∧ ((b ||| 0x80) &&& 0x3f).toNat = b.toNat) ∧
    (b ||| 0xc0).toNat / 64 = 3 ∧ ((b ||| 0xc0) &&& 0x3f).toNat = b.toNat % 64 := by
  have key : ∀ n : Fin 256,
      (n.val < 64 → (UInt8.ofNat n.val).toNat / 64 = 0 ∧
        (UInt8.ofNat n.val &&& 0x3f).toNat = n.val) ∧
      (n.val < 64 → (UInt8.ofNat n.val ||| 0x40).toNat / 64 = 1 ∧
        ((UInt8.ofNat n.val ||| 0x40) &&& 0x3f).toNat = n.val) ∧
      (n.val < 64 → (UInt8.ofNat n.val ||| 0x80).toNat / 64 = 2 ∧
        ((UInt8.ofNat n.val ||| 0x80) &&& 0x3f).toNat = n.val) ∧
      (UInt8.ofNat n.val ||| 0xc0).toNat / 64 = 3 ∧
        ((UInt8.ofNat n.val ||| 0xc0) &&& 0x3f).toNat = n.val % 64 := by decide +kernel
  have h := key ⟨b.toNat, UInt8.toNat_lt b⟩
  simpa only [UInt8.ofNat_toNat] using h

theorem readVarint_cons {first : UInt8} {tail : Bytes} (rest : Bytes)
    (h : 2 ^ (first.toNat / 64) = tail.length + 1) :
    readVarint (first :: tail ++ rest) =
      some (tail.foldl (fun v b => v * 256 + b.toNat) (first &&& 0x3f).toNat,
        tail.length + 1) := by
  unfold readVarint
  rw [List.cons_append, List.head?_cons, Option.bind_some, h, List.drop_one, List.tail_cons]
  dsimp only
  rw [Nat.add_sub_cancel, List.take_left' rfl, if_neg]
  rw [List.length_cons, List.length_append]
  omega

/-- What is written is read back, up to its low 62 bits. -/
theorem readVarint_writeVarint (v : Nat) (rest : Bytes) :
    readVarint (writeVarint v ++ rest) = some (v % 2 ^ 62, varintLen v) := by
  unfold writeVarint varintLen
  have hb := toNat_byteAt v
  split_ifs with h1 h2 h3
  · have h0 : (byteAt v 0).toNat = v := by rw [hb]; omega
    obtain ⟨ht, hm⟩ := (tag_first (byteAt v 0)).1 (by omega)
    rw [readVarint_cons rest (by rw [ht]; rfl), hm]
    simp only [List.foldl_nil, List.length_nil, h0]
    rw [Nat.mod_eq_of_lt (by omega)]
  · have htop : (byteAt v 1).toNat = v / 256 := by rw [hb]; omega
    obtain ⟨ht, hm⟩ := (tag_first (byteAt v 1)).2.1 (by omega)
    rw [readVarint_cons rest (by rw [ht]; rfl), hm]
    simp only [List.foldl_cons, List.foldl_nil, List.length_cons, List.length_nil, hb]
    congr 2
    omega
  · have htop : (byteAt v 3).toNat = v / 256 ^ 3 := by rw [hb]; omega
    obtain ⟨ht, hm⟩ := (tag_first (byteAt v 3)).2.2.1 (by omega)
    rw [readVarint_cons rest (by rw [ht]; rfl), hm]
    simp only [List.foldl_cons, List.foldl_nil, List.length_cons, List.length_nil, hb]
    congr 2
    omega
  · obtain ⟨ht, hm⟩ := (tag_first (byteAt v 7)).2.2.2
    rw [readVarint_cons rest (by rw [ht]; rfl), hm]
    simp only [List.foldl_cons, List.foldl_nil, List.length_cons, List.length_nil, hb]
    congr 2
    omega

/-! ## Ranges -/

/-- `data.get(a..a + n)`. -/
def getRange (data : Bytes) (a n : Nat) : Option Bytes :=
  if a + n ≤ data.length then some (slice data a n) else none

theorem getRange_cons (b : UInt8) (bs : Bytes) (a n : Nat) :
    getRange (b :: bs) (a + 1) n = getRange bs a n := by
  unfold getRange slice
  rw [List.length_cons, List.drop_succ_cons]
  refine if_congr ?_ rfl rfl
  omega

theorem getRange_append (x rest : Bytes) (a n : Nat) :
    getRange (x ++ rest) (x.length + a) n = getRange rest a n := by
  unfold getRange
  rw [List.length_append, Nat.add_comm x.length a, slice_skip rfl]
  refine if_congr ?_ rfl rfl
  omega

theorem getRange_here (x rest : Bytes) : getRange (x ++ rest) 0 x.length = some x := by
  unfold getRange
  rw [if_pos (by rw [List.length_append]; omega), slice_here rfl]

theorem getRange_behind (x data : Bytes) :
    getRange (x ++ data) x.length data.length = some data := by
  have h := getRange_append x data 0 data.length
  have hall := getRange_here data []
  rw [List.append_nil] at hall
  rwa [Nat.add_zero, hall] at h

/-! ## Two bytes -/

theorem be16_pair (x : UInt16) : ∃ a b, be16 x = [a, b] ∧ ofBE16 [a, b] = x := by
  have hx : be16 x = [UInt8.ofNat (x.toNat / 256), UInt8.ofNat (x.toNat / 1)] := rfl
  exact ⟨_, _, hx, by rw [← hx, ofBE16_be16]⟩

end RustCrash.Quic
