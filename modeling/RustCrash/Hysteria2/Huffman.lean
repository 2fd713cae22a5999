import RustCrash.Lib.PrefixCode

/-
  The Huffman code of HPACK and QPACK (`proto/hysteria2.rs`). The source looks codes up in a map
  made from the table; here the table is searched.

  A state of the decoder is a reading of a prefix code (`huffmanBit_stateOf`): the code and its
  length stand for the bits since the last symbol.
-/

namespace RustCrash.Hysteria2

open Lib Lib.PrefixCode

/-- `(code, bit-length)` for symbols `0..=256`; entry 256 is EOS. -/
def huffmanCodes : List (Nat × Nat) :=
  [(0x1ff8, 13), (0x7fffd8, 23), (0xfffffe2, 28), (0xfffffe3, 28), (0xfffffe4, 28),
   (0xfffffe5, 28), (0xfffffe6, 28), (0xfffffe7, 28), (0xfffffe8, 28), (0xffffea, 24),
   (0x3ffffffc, 30), (0xfffffe9, 28), (0xfffffea, 28), (0x3ffffffd, 30), (0xfffffeb, 28),
   (0xfffffec, 28), (0xfffffed, 28), (0xfffffee, 28), (0xfffffef, 28), (0xffffff0, 28),
   (0xffffff1, 28), (0xffffff2, 28), (0x3ffffffe, 30), (0xffffff3, 28), (0xffffff4, 28),
   (0xffffff5, 28), (0xffffff6, 28), (0xffffff7, 28), (0xffffff8, 28), (0xffffff9, 28),
   (0xffffffa, 28), (0xffffffb, 28), (0x14, 6), (0x3f8, 10), (0x3f9, 10), (0xffa, 12),
   (0x1ff9, 13), (0x15, 6), (0xf8, 8), (0x7fa, 11), (0x3fa, 10), (0x3fb, 10), (0xf9, 8),
   (0x7fb, 11), (0xfa, 8), (0x16, 6), (0x17, 6), (0x18, 6), (0x0, 5), (0x1, 5), (0x2, 5),
   (0x19, 6), (0x1a, 6), (0x1b, 6), (0x1c, 6), (0x1d, 6), (0x1e, 6), (0x1f, 6), (0x5c, 7),
   (0xfb, 8), (0x7ffc, 15), (0x20, 6), (0xffb, 12), (0x3fc, 10), (0x1ffa, 13), (0x21, 6),
   (0x5d, 7), (0x5e, 7), (0x5f, 7), (0x60, 7), (0x61, 7), (0x62, 7), (0x63, 7), (0x64, 7),
   (0x65, 7), (0x66, 7), (0x67, 7), (0x68, 7), (0x69, 7), (0x6a, 7), (0x6b, 7), (0x6c, 7),
   (0x6d, 7), (0x6e, 7), (0x6f, 7), (0x70, 7), (0x71, 7), (0x72, 7), (0xfc, 8), (0x73, 7),
   (0xfd, 8), (0x1ffb, 13), (0x7fff0, 19), (0x1ffc, 13), (0x3ffc, 14), (0x22, 6), (0x7ffd, 15),
   (0x3, 5), (0x23, 6), (0x4, 5), (0x24, 6), (0x5, 5), (0x25, 6), (0x26, 6), (0x27, 6), (0x6, 5),
   (0x74, 7), (0x75, 7), (0x28, 6), (0x29, 6), (0x2a, 6), (0x7, 5), (0x2b, 6), (0x76, 7),
   (0x2c, 6), (0x8, 5), (0x9, 5), (0x2d, 6), (0x77, 7), (0x78, 7), (0x79, 7), (0x7a, 7),
   (0x7b, 7), (0x7ffe, 15), (0x7fc, 11), (0x3ffd, 14), (0x1ffd, 13), (0xffffffc, 28),
   (0xfffe6, 20), (0x3fffd2, 22), (0xfffe7, 20), (0xfffe8, 20), (0x3fffd3, 22), (0x3fffd4, 22),
   (0x3fffd5, 22), (0x7fffd9, 23), (0x3fffd6, 22), (0x7fffda, 23), (0x7fffdb, 23), (0x7fffdc, 23),
   (0x7fffdd, 23), (0x7fffde, 23), (0xffffeb, 24), (0x7fffdf, 23), (0xffffec, 24), (0xffffed, 24),
   (0x3fffd7, 22), (0x7fffe0, 23), (0xffffee, 24), (0x7fffe1, 23), (0x7fffe2, 23), (0x7fffe3, 23),
   (0x7fffe4, 23), (0x1fffdc, 21), (0x3fffd8, 22), (0x7fffe5, 23), (0x3fffd9, 22), (0x7fffe6, 23),
   (0x7fffe7, 23), (0xffffef, 24), (0x3fffda, 22), (0x1fffdd, 21), (0xfffe9, 20), (0x3fffdb, 22),
   (0x3fffdc, 22), (0x7fffe8, 23), (0x7fffe9, 23), (0x1fffde, 21), (0x7fffea, 23), (0x3fffdd, 22),
   (0x3fffde, 22), (0xfffff0, 24), (0x1fffdf, 21), (0x3fffdf, 22), (0x7fffeb, 23), (0x7fffec, 23),
   (0x1fffe0, 21), (0x1fffe1, 21), (0x3fffe0, 22), (0x1fffe2, 21), (0x7fffed, 23), (0x3fffe1, 22),
   (0x7fffee, 23), (0x7fffef, 23), (0xfffea, 20), (0x3fffe2, 22), (0x3fffe3, 22), (0x3fffe4, 22),
   (0x7ffff0, 23), (0x3fffe5, 22), (0x3fffe6, 22), (0x7ffff1, 23), (0x3ffffe0, 26),
   (0x3ffffe1, 26), (0xfffeb, 20), (0x7fff1, 19), (0x3fffe7, 22), (0x7ffff2, 23), (0x3fffe8, 22),
   (0x1ffffec, 25), (0x3ffffe2, 26), (0x3ffffe3, 26), (0x3ffffe4, 26), (0x7ffffde, 27),
   (0x7ffffdf, 27), (0x3ffffe5, 26), (0xfffff1, 24), (0x1ffffed, 25), (0x7fff2, 19),
   (0x1fffe3, 21), (0x3ffffe6, 26), (0x7ffffe0, 27), (0x7ffffe1, 27), (0x3ffffe7, 26),
   (0x7ffffe2, 27), (0xfffff2, 24), (0x1fffe4, 21), (0x1fffe5, 21), (0x3ffffe8, 26),
   (0x3ffffe9, 26), (0xffffffd, 28), (0x7ffffe3, 27), (0x7ffffe4, 27), (0x7ffffe5, 27),
   (0xfffec, 20), (0xfffff3, 24), (0xfffed, 20), (0x1fffe6, 21), (0x3fffe9, 22), (0x1fffe7, 21),
   (0x1fffe8, 21), (0x7ffff3, 23), (0x3fffea, 22), (0x3fffeb, 22), (0x1ffffee, 25),
   (0x1ffffef, 25), (0xfffff4, 24), (0xfffff5, 24), (0x3ffffea, 26), (0x7ffff4, 23),
   (0x3ffffeb, 26), (0x7ffffe6, 27), (0x3ffffec, 26), (0x3ffffed, 26), (0x7ffffe7, 27),
   (0x7ffffe8, 27), (0x7ffffe9, 27), (0x7ffffea, 27), (0x7ffffeb, 27), (0xffffffe, 28),
   (0x7ffffec, 27), (0x7ffffed, 27), (0x7ffffee, 27), (0x7ffffef, 27), (0x7fffff0, 27),
   (0x3ffffee, 26), (0x3fffffff, 30)]

/-- `huffman_map().get`: of equal keys the map would keep the last. The symbol 256 is not in it. -/
def huffmanSymbol (code : UInt64) (len : UInt8) : Option UInt8 :=
  ((huffmanCodes.take 256).reverse.idxOf? (code.toNat, len.toNat)).map fun i =>
    UInt8.ofNat (255 - i)

structure HuffmanState where
  out : Bytes
  code : UInt64
  len : UInt8

def huffmanBit (s : HuffmanState) (bit : UInt8) : Option HuffmanState :=
  let code := s.code <<< 1 ||| bit.toUInt64
  let len := s.len + 1
  if 30 < len then none
  else
    match huffmanSymbol code len with
    | some sym => some ⟨s.out ++ [sym], 0, 0⟩
    | none => some ⟨s.out, code, len⟩

/-- The bits of a byte, the highest first. -/
def huffmanByte (s : HuffmanState) (byte : UInt8) : Option HuffmanState :=
  ([7, 6, 5, 4, 3, 2, 1, 0] : List UInt8).foldlM (fun s k => huffmanBit s (byte >>> k &&& 1)) s

/-- The padding at the end is shorter than a byte and all ones. -/
def huffmanDecode (data : Bytes) : Option Bytes :=
  (data.foldlM huffmanByte ⟨[], 0, 0⟩).bind fun s =>
    if 7 < s.len then none
    else if 0 < s.len ∧ s.code ≠ (1 <<< s.len.toUInt64) - 1 then none
    else some s.out

/-! ## The code -/

/-- The word of a symbol, or of EOS. -/
def huffmanWord (sym : Nat) : List Bool :=
  let e := huffmanCodes.getD sym (0, 0)
  toBits e.2 e.1

/-- HPACK's encoding: the words, and ones up to the end of the byte. -/
def huffmanEncode (s : Bytes) : Bytes :=
  let bits := s.flatMap fun b => huffmanWord b.toNat
  packBits (bits ++ List.replicate ((8 - bits.length % 8) % 8) true)

/-- `"233"`. -/
example : huffmanEncode [0x32, 0x33, 0x33] = [0x13, 0x2c, 0xff] := by decide +kernel

/-- All words, each inserted once. -/
def huffmanTree : BitTree Nat :=
  huffmanCodes.zipIdx.foldl (fun t e => t.insert e.2 (toBits e.1.2 e.1.1)) .empty

/-- No word is inserted over another. -/
theorem huffmanTree_find : ∀ sym < 257, huffmanTree.find (huffmanWord sym) = some sym := by
  decide +kernel

theorem huffmanCodes_bounds : ∀ e ∈ huffmanCodes, e.1 < 2 ^ e.2 ∧ 0 < e.2 ∧ e.2 ≤ 30 := by
  decide +kernel

theorem length_huffmanCodes : huffmanCodes.length = 257 := by decide +kernel

theorem huffmanWord_inj {i j : Nat} (hi : i < 257) (hj : j < 257)
    (h : huffmanWord i <+: huffmanWord j) : i = j :=
  BitTree.find_unique (huffmanTree_find i hi) (huffmanTree_find j hj) h

theorem huffmanWord_entry {i : Nat} (hi : i < 257) :
    ∃ e ∈ huffmanCodes, huffmanCodes[i]? = some e ∧ huffmanWord i = toBits e.2 e.1 := by
  have he := List.getElem?_eq_getElem (length_huffmanCodes ▸ hi : i < huffmanCodes.length)
  refine ⟨_, List.mem_of_getElem? he, he, ?_⟩
  unfold huffmanWord
  rw [List.getD_eq_getElem?_getD, he, Option.getD_some]

/-- A word as its number and its length. -/
theorem huffmanWord_eq_iff {i : Nat} (hi : i < 257) (bits : List Bool) :
    huffmanWord i = bits ↔ huffmanCodes[i]? = some (ofBits bits, bits.length) := by
  obtain ⟨e, hmem, he, hword⟩ := huffmanWord_entry hi
  rw [hword, he, Option.some_inj]
  constructor
  · rintro rfl
    rw [ofBits_toBits (huffmanCodes_bounds e hmem).1, length_toBits]
  · rintro rfl
    exact toBits_ofBits bits

theorem huffmanSymbol_entry {code : UInt64} {len sym : UInt8}
    (h : huffmanSymbol code len = some sym) :
    huffmanCodes[sym.toNat]? = some (code.toNat, len.toNat) := by
  obtain ⟨i, hi, rfl⟩ := Option.map_eq_some_iff.mp h
  obtain ⟨hlt, hget, -⟩ := List.idxOf?_eq_some_iff.mp hi
  have hlen : (huffmanCodes.take 256).length = 256 := by
    rw [List.length_take, length_huffmanCodes]
    rfl
  rw [List.length_reverse, hlen] at hlt
  rw [List.getElem_reverse, List.getElem_take] at hget
  rw [UInt8.toNat_ofNat_of_lt' (by show 255 - i < 256; omega)]
  have hidx : (huffmanCodes.take 256).length - 1 - i = 255 - i := by omega
  rw [List.getElem?_eq_getElem (by rw [length_huffmanCodes]; omega), ← hget]
  simp only [hidx]

/-- An entry is found, whichever of the equal ones it is: no two are. -/
theorem huffmanSymbol_eq_some_iff (code : UInt64) (len sym : UInt8) :
    huffmanSymbol code len = some sym ↔
      huffmanCodes[sym.toNat]? = some (code.toNat, len.toNat) := by
  refine ⟨huffmanSymbol_entry, fun h => ?_⟩
  have hlt : sym.toNat < 256 := sym.toNat_lt
  have hmem : (code.toNat, len.toNat) ∈ (huffmanCodes.take 256).reverse := by
    rw [List.mem_reverse]
    refine List.mem_of_getElem? (i := sym.toNat) ?_
    rw [List.getElem?_take_of_lt hlt, h]
  cases hfound : huffmanSymbol code len with
  | none =>
    rw [huffmanSymbol, Option.map_eq_none_iff, List.idxOf?_eq_none_iff] at hfound
    exact absurd hmem hfound
  | some sym' =>
    have hlt' : sym'.toNat < 256 := sym'.toNat_lt
    have h' := huffmanSymbol_entry hfound
    obtain ⟨e, -, he, hword⟩ := huffmanWord_entry (Nat.lt_succ_of_lt hlt)
    obtain ⟨e', -, he', hword'⟩ := huffmanWord_entry (Nat.lt_succ_of_lt hlt')
    rw [h, Option.some_inj] at he
    rw [h', Option.some_inj] at he'
    have hsame : huffmanWord sym'.toNat = huffmanWord sym.toNat := by
      rw [hword, hword', ← he, ← he']
    have hsym := huffmanWord_inj (Nat.lt_succ_of_lt hlt') (Nat.lt_succ_of_lt hlt)
      (hsame ▸ List.prefix_refl _)
    rw [UInt8.toNat_inj.mp hsym]

/-! ## The decoder as a reader of words -/

def huffmanLookup (bits : List Bool) : Option UInt8 :=
  huffmanSymbol (UInt64.ofNat (ofBits bits)) (UInt8.ofNat bits.length)

/-- The state that a reading stands for. -/
def stateOf (r : Reading UInt8) : HuffmanState :=
  ⟨r.out, UInt64.ofNat (ofBits r.pending), UInt8.ofNat r.pending.length⟩

theorem huffman_reads : Reads (fun sym : UInt8 => huffmanWord sym.toNat) huffmanLookup 30 where
  prefixFree := by
    intro a b h
    exact UInt8.toNat_inj.mp
      (huffmanWord_inj (Nat.lt_succ_of_lt a.toNat_lt) (Nat.lt_succ_of_lt b.toNat_lt) h)
  lookup_iff := by
    intro bits sym hmax
    have hcode : ofBits bits < 2 ^ 30 :=
      (ofBits_lt bits).trans_le (Nat.pow_le_pow_right (by decide) hmax)
    unfold huffmanLookup
    rw [huffmanSymbol_eq_some_iff, huffmanWord_eq_iff (Nat.lt_succ_of_lt sym.toNat_lt),
      UInt64.toNat_ofNat_of_lt' (by show ofBits bits < 2 ^ 64; omega),
      UInt8.toNat_ofNat_of_lt' (by show bits.length < 2 ^ 8; omega)]
  ne_nil := by
    intro sym h
    obtain ⟨e, hmem, -, hword⟩ := huffmanWord_entry (Nat.lt_succ_of_lt sym.toNat_lt)
    have hpos := (huffmanCodes_bounds e hmem).2.1
    rw [← length_toBits e.2 e.1, ← hword, h] at hpos
    exact absurd hpos (Nat.lt_irrefl 0)
  le_max := by
    intro sym
    obtain ⟨e, hmem, -, hword⟩ := huffmanWord_entry (Nat.lt_succ_of_lt sym.toNat_lt)
    rw [hword, length_toBits]
    exact (huffmanCodes_bounds e hmem).2.2

theorem shift_bit {n : Nat} (h : n < 2 ^ 30) (b : Bool) :
    UInt64.ofNat n <<< 1 ||| (UInt8.ofNat b.toNat).toUInt64 = UInt64.ofNat (2 * n + b.toNat) := by
  have hb := Bool.toNat_lt b
  have hor : n <<< 1 + b.toNat = n <<< 1 ||| b.toNat := Nat.shiftLeft_add_eq_or_of_lt hb n
  have hn : (UInt64.ofNat n).toNat = n := UInt64.toNat_ofNat_of_lt' (by show n < 2 ^ 64; omega)
  have hbit : (UInt8.ofNat b.toNat).toNat = b.toNat :=
    UInt8.toNat_ofNat_of_lt' (by show b.toNat < 2 ^ 8; omega)
  have hone : (1 : UInt64).toNat = 1 := rfl
  apply UInt64.toNat_inj.mp
  rw [UInt64.toNat_or, UInt64.toNat_shiftLeft, hn, hone, UInt8.toNat_toUInt64, hbit,
    UInt64.toNat_ofNat_of_lt' (by show 2 * n + b.toNat < 2 ^ 64; omega)]
  rw [Nat.mod_eq_of_lt (by decide : 1 < 64), Nat.mod_eq_of_lt
    (by rw [Nat.shiftLeft_eq]; omega : n <<< 1 < 2 ^ 64), ← hor, Nat.shiftLeft_eq]
  omega

variable {r : Reading UInt8}

/-- A bit is one step of the reader. -/
theorem huffmanBit_stateOf (hr : r.pending.length ≤ 30) (b : Bool) :
    huffmanBit (stateOf r) (UInt8.ofNat b.toNat) = (r.next huffmanLookup 30 b).map stateOf := by
  have hcode : ofBits r.pending < 2 ^ 30 :=
    (ofBits_lt _).trans_le (Nat.pow_le_pow_right (by decide) hr)
  have hlen : UInt8.ofNat r.pending.length + 1 = UInt8.ofNat (r.pending ++ [b]).length := by
    rw [List.length_append, List.length_singleton, UInt8.ofNat_add]
    rfl
  have hmax : 30 < UInt8.ofNat (r.pending ++ [b]).length ↔ 30 < (r.pending ++ [b]).length := by
    have hfits : (r.pending ++ [b]).length < 256 := by
      rw [List.length_append, List.length_singleton]
      omega
    rw [UInt8.lt_iff_toNat_lt, UInt8.toNat_ofNat_of_lt' hfits]
    rfl
  unfold huffmanBit stateOf Reading.next
  dsimp only
  rw [shift_bit hcode, hlen, ← ofBits_concat]
  by_cases h : 30 < (r.pending ++ [b]).length
  · rw [if_pos (hmax.mpr h), if_pos h]
    rfl
  · rw [if_neg (fun hlt => h (hmax.mp hlt)), if_neg h]
    show (match huffmanLookup (r.pending ++ [b]) with
      | some sym => _
      | none => _) = _
    cases huffmanLookup (r.pending ++ [b]) with
    | none => rfl
    | some sym => rfl

theorem foldlM_huffmanBit (bits : List Bool) (hr : r.pending.length ≤ 30) :
    bits.foldlM (fun s b => huffmanBit s (UInt8.ofNat b.toNat)) (stateOf r) =
      (bits.foldlM (Reading.next huffmanLookup 30) r).map stateOf := by
  induction bits generalizing r with
  | nil => rfl
  | cons b bits ih =>
    rw [List.foldlM_cons, List.foldlM_cons, huffmanBit_stateOf hr]
    cases hnext : r.next huffmanLookup 30 b with
    | none => rfl
    | some r' => exact ih (Reading.length_next hnext)

theorem shiftRight_and_one (byte : UInt8) {k : Nat} (hk : k < 8) :
    byte >>> UInt8.ofNat k &&& 1 = UInt8.ofNat (byte.toNat.testBit k).toNat := by
  have hk' : (UInt8.ofNat k).toNat = k := UInt8.toNat_ofNat_of_lt' (by show k < 2 ^ 8; omega)
  have hbit := Bool.toNat_lt (byte.toNat.testBit k)
  apply UInt8.toNat_inj.mp
  rw [UInt8.toNat_and, UInt8.toNat_shiftRight, hk', Nat.mod_eq_of_lt hk, UInt8.toNat_one,
    Nat.and_one_is_mod, Nat.shiftRight_eq_div_pow,
    UInt8.toNat_ofNat_of_lt' (by show (byte.toNat.testBit k).toNat < 2 ^ 8; omega),
    Nat.toNat_testBit]

theorem huffmanByte_eq (s : HuffmanState) (byte : UInt8) :
    huffmanByte s byte =
      (toBits 8 byte.toNat).foldlM (fun s b => huffmanBit s (UInt8.ofNat b.toNat)) s := by
  have hbits : ([7, 6, 5, 4, 3, 2, 1, 0] : List UInt8).map (fun k => byte >>> k &&& 1) =
      (toBits 8 byte.toNat).map fun b => UInt8.ofNat b.toNat := by
    have h := fun (k : Nat) (hk : k < 8) => shiftRight_and_one byte hk
    simp only [toBits, List.map_cons, List.map_nil]
    rw [← h 7 (by decide), ← h 6 (by decide), ← h 5 (by decide), ← h 4 (by decide),
      ← h 3 (by decide), ← h 2 (by decide), ← h 1 (by decide), ← h 0 (by decide)]
    rfl
  calc huffmanByte s byte
      = (([7, 6, 5, 4, 3, 2, 1, 0] : List UInt8).map fun k => byte >>> k &&& 1).foldlM
          huffmanBit s := (List.foldlM_map ..).symm
    _ = _ := by rw [hbits, List.foldlM_map]

theorem foldlM_huffmanByte (data : Bytes) (s : HuffmanState) :
    data.foldlM huffmanByte s =
      (bytesToBits data).foldlM (fun s b => huffmanBit s (UInt8.ofNat b.toNat)) s := by
  induction data generalizing s with
  | nil => rfl
  | cons byte data ih =>
    rw [List.foldlM_cons, huffmanByte_eq, bytesToBits, List.flatMap_cons, List.foldlM_append]
    exact congrArg _ (funext ih)

/-- The test at the end: the bits left over are at most seven ones. -/
theorem padding_iff {bits : List Bool} (hmax : bits.length ≤ 30) :
    (¬ 7 < UInt8.ofNat bits.length ∧ ¬ (0 < UInt8.ofNat bits.length ∧
      UInt64.ofNat (ofBits bits) ≠ (1 <<< (UInt8.ofNat bits.length).toUInt64) - 1)) ↔
      bits.length ≤ 7 ∧ bits = List.replicate bits.length true := by
  have hlen : (UInt8.ofNat bits.length).toNat = bits.length :=
    UInt8.toNat_ofNat_of_lt' (by show bits.length < 2 ^ 8; omega)
  have hseven : 7 < UInt8.ofNat bits.length ↔ 7 < bits.length := by
    rw [UInt8.lt_iff_toNat_lt, hlen]
    rfl
  rw [hseven, Nat.not_lt]
  refine and_congr_right fun hle => ?_
  have hcode : ofBits bits < 2 ^ 7 :=
    (ofBits_lt bits).trans_le (Nat.pow_le_pow_right (by decide) hle)
  have hones : ((1 : UInt64) <<< (UInt8.ofNat bits.length).toUInt64 - 1).toNat =
      2 ^ bits.length - 1 := by
    have h : ∀ n ≤ 7, ((1 : UInt64) <<< (UInt8.ofNat n).toUInt64 - 1).toNat = 2 ^ n - 1 := by
      decide
    exact h _ hle
  have hiff : UInt64.ofNat (ofBits bits) = (1 <<< (UInt8.ofNat bits.length).toUInt64) - 1 ↔
      bits = List.replicate bits.length true := by
    rw [← UInt64.toNat_inj, hones, UInt64.toNat_ofNat_of_lt' (by show ofBits bits < 2 ^ 64; omega),
      ← ofBits_ones]
    exact ⟨ofBits_inj (List.length_replicate).symm, congrArg ofBits⟩
  rw [← hiff, not_and, not_not]
  constructor
  · intro h
    rcases Nat.eq_zero_or_pos bits.length with hzero | hpos
    · rw [List.length_eq_zero_iff.mp hzero]
      rfl
    · exact h (by rw [UInt8.lt_iff_toNat_lt, hlen]; exact hpos)
  · exact fun h _ => h

/-- What the decoder makes of the bits: words, and a padding of at most seven ones. -/
theorem huffmanDecode_eq_some_iff_read (data s : Bytes) :
    huffmanDecode data = some s ↔ ∃ k ≤ 7,
      (bytesToBits data).foldlM (Reading.next huffmanLookup 30) ⟨[], []⟩ =
        some ⟨s, List.replicate k true⟩ := by
  have hstart : (⟨[], 0, 0⟩ : HuffmanState) = stateOf ⟨[], []⟩ := rfl
  have hrun := @foldlM_huffmanBit ⟨[], []⟩ (bytesToBits data) (Nat.zero_le 30)
  unfold huffmanDecode
  rw [foldlM_huffmanByte, hstart, hrun]
  cases hread : (bytesToBits data).foldlM (Reading.next huffmanLookup 30) ⟨[], []⟩ with
  | none => simp
  | some r =>
    have hpad := padding_iff (length_of_read (r := ⟨[], []⟩) (Nat.zero_le 30) hread)
    have hend : (if 7 < (stateOf r).len then none
        else if 0 < (stateOf r).len ∧
          (stateOf r).code ≠ (1 <<< (stateOf r).len.toUInt64) - 1 then none
        else some (stateOf r).out) = some s ↔
        r.out = s ∧ r.pending.length ≤ 7 ∧ r.pending = List.replicate r.pending.length true := by
      rw [← hpad]
      unfold stateOf
      dsimp only
      split_ifs with hlong hcode
      · simp [hlong]
      · simp [hcode]
      · simp [hlong, hcode]
    rw [Option.map_some, Option.bind_some, hend]
    constructor
    · rintro ⟨rfl, hle, hones⟩
      exact ⟨_, hle, by rw [← hones]⟩
    · rintro ⟨k, hk, hr⟩
      cases hr
      simp [hk]

/-- A word begins with no ones only: it would begin the word of EOS. -/
theorem lookup_ones {k : Nat} (hk : k ≤ 30) : huffmanLookup (List.replicate k true) = none := by
  refine Option.eq_none_iff_forall_ne_some.mpr fun sym h => ?_
  rw [huffman_reads.lookup_iff _ _ (List.length_replicate ▸ hk)] at h
  have heos : huffmanWord 256 = List.replicate 30 true := by decide +kernel
  have hbegin : huffmanWord sym.toNat <+: huffmanWord 256 := by
    rw [h, heos]
    exact ⟨List.replicate (30 - k) true, by
      rw [List.replicate_append_replicate, Nat.add_sub_cancel' hk]⟩
  have hsym := huffmanWord_inj (Nat.lt_succ_of_lt sym.toNat_lt) (by decide) hbegin
  exact absurd sym.toNat_lt (by rw [hsym]; decide)

/-- The bits of an encoding are a whole number of bytes. -/
theorem dvd_padded (n : Nat) : 8 ∣ n + (8 - n % 8) % 8 := by omega

/-- A string is decoded exactly from its encoding. -/
theorem huffmanDecode_eq_some_iff (data s : Bytes) :
    huffmanDecode data = some s ↔ data = huffmanEncode s := by
  have hbits : (s.flatMap fun b => huffmanWord b.toNat).foldlM
      (Reading.next huffmanLookup 30) ⟨[], []⟩ = some ⟨s, []⟩ := read_words huffman_reads [] s
  rw [huffmanDecode_eq_some_iff_read]
  unfold huffmanEncode
  dsimp only
  generalize hwords : (s.flatMap fun b => huffmanWord b.toNat) = bits at hbits
  constructor
  · rintro ⟨k, hk, hread⟩
    have hsplit := words_of_read huffman_reads hread
    rw [List.flatMap_nil, List.nil_append, List.nil_append, hwords] at hsplit
    have hlen := congrArg List.length hsplit
    rw [length_bytesToBits, List.length_append, List.length_replicate] at hlen
    have hpad : (8 - bits.length % 8) % 8 = k := by omega
    rw [hpad, ← hsplit, packBits_bytesToBits]
  · rintro rfl
    refine ⟨(8 - bits.length % 8) % 8, by omega, ?_⟩
    have hdvd : 8 ∣ (bits ++ List.replicate ((8 - bits.length % 8) % 8) true).length := by
      rw [List.length_append, List.length_replicate]
      exact dvd_padded _
    rw [bytesToBits_packBits hdvd, List.foldlM_append, hbits]
    refine read_waits ?_ fun p _ hp => ?_
    · rw [List.nil_append, List.length_replicate]
      omega
    · obtain ⟨m, hm, rfl⟩ : ∃ m, m ≤ 30 ∧ p = List.replicate m true := by
        refine ⟨p.length, ?_, List.eq_replicate_iff.mpr ⟨rfl, fun b hb => ?_⟩⟩
        · have hle := hp.length_le
          rw [List.length_replicate] at hle
          omega
        · exact List.eq_of_mem_replicate (hp.subset hb)
      exact lookup_ones hm

end RustCrash.Hysteria2
