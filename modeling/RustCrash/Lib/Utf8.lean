import RustCrash.Lib.Bytes

/-
  Text as lists of Unicode scalar values, and its UTF-8 form. `utf8Chunks` reads a byte
  string the way `core::str::Utf8Chunks` does: `some c` for a well-formed character,
  `none` for each maximal ill-formed subpart. `fromUtf8` (strict) and `fromUtf8Lossy`
  (every ill-formed subpart becomes U+FFFD) are both read off it.
-/

namespace RustCrash.Lib

open String (utf8EncodeChar)

/-- Rust's `str` and `String`: a sequence of Unicode scalar values. -/
abbrev Str := List Char

instance : LawfulBEq Str := inferInstance

/-- The bytes of a string. `s.len()` is `(utf8 s).length`. -/
def utf8 (s : Str) : Bytes := s.flatMap utf8EncodeChar

/-- U+FFFD. -/
def replacementChar : Char := '\uFFFD'

/-- A continuation byte, `10xxxxxx`. -/
def isCont (b : UInt8) : Bool := 0x80 ≤ b.toNat && b.toNat ≤ 0xBF

/-- The second byte allowed after a three-byte lead (no overlong form, no surrogate). -/
def second3 (b0 b1 : UInt8) : Bool :=
  if b0.toNat = 0xE0 then 0xA0 ≤ b1.toNat && b1.toNat ≤ 0xBF
  else if b0.toNat = 0xED then 0x80 ≤ b1.toNat && b1.toNat ≤ 0x9F
  else isCont b1

/-- The second byte allowed after a four-byte lead (no overlong form, at most U+10FFFF). -/
def second4 (b0 b1 : UInt8) : Bool :=
  if b0.toNat = 0xF0 then 0x90 ≤ b1.toNat && b1.toNat ≤ 0xBF
  else if b0.toNat = 0xF4 then 0x80 ≤ b1.toNat && b1.toNat ≤ 0x8F
  else isCont b1

def char2 (b0 b1 : UInt8) : Char :=
  Char.ofNat (b0.toNat % 32 * 64 + b1.toNat % 64)

def char3 (b0 b1 b2 : UInt8) : Char :=
  Char.ofNat (b0.toNat % 16 * 4096 + b1.toNat % 64 * 64 + b2.toNat % 64)

def char4 (b0 b1 b2 b3 : UInt8) : Char :=
  Char.ofNat (b0.toNat % 8 * 262144 + b1.toNat % 64 * 4096 + b2.toNat % 64 * 64 + b3.toNat % 64)

/-- The characters and ill-formed subparts of a byte string, in order. -/
def utf8Chunks : Bytes → List (Option Char)
  | [] => []
  | b0 :: t0 =>
    if b0.toNat < 0x80 then some (Char.ofNat b0.toNat) :: utf8Chunks t0
    else if 0xC2 ≤ b0.toNat ∧ b0.toNat ≤ 0xDF then
      match t0 with
      | [] => [none]
      | b1 :: t1 =>
        if isCont b1 then some (char2 b0 b1) :: utf8Chunks t1
        else none :: utf8Chunks (b1 :: t1)
    else if 0xE0 ≤ b0.toNat ∧ b0.toNat ≤ 0xEF then
      match t0 with
      | [] => [none]
      | b1 :: t1 =>
        if second3 b0 b1 then
          match t1 with
          | [] => [none]
          | b2 :: t2 =>
            if isCont b2 then some (char3 b0 b1 b2) :: utf8Chunks t2
            else none :: utf8Chunks (b2 :: t2)
        else none :: utf8Chunks (b1 :: t1)
    else if 0xF0 ≤ b0.toNat ∧ b0.toNat ≤ 0xF4 then
      match t0 with
      | [] => [none]
      | b1 :: t1 =>
        if second4 b0 b1 then
          match t1 with
          | [] => [none]
          | b2 :: t2 =>
            if isCont b2 then
              match t2 with
              | [] => [none]
              | b3 :: t3 =>
                if isCont b3 then some (char4 b0 b1 b2 b3) :: utf8Chunks t3
                else none :: utf8Chunks (b3 :: t3)
            else none :: utf8Chunks (b2 :: t2)
        else none :: utf8Chunks (b1 :: t1)
    else none :: utf8Chunks t0

attribute [grind =] utf8Chunks.eq_def

/-- `String::from_utf8_lossy`. -/
def fromUtf8Lossy (bs : Bytes) : Str := (utf8Chunks bs).map fun c => c.getD replacementChar

/-- `String::from_utf8` and `str::from_utf8`. -/
def fromUtf8 (bs : Bytes) : Option Str := (utf8Chunks bs).mapM id

/-! ## Encoding -/

@[simp] theorem utf8_nil : utf8 [] = [] := rfl

@[simp] theorem utf8_cons (c : Char) (s : Str) : utf8 (c :: s) = utf8EncodeChar c ++ utf8 s := rfl

@[simp] theorem utf8_append (s t : Str) : utf8 (s ++ t) = utf8 s ++ utf8 t :=
  List.flatMap_append

theorem utf8_length_pos {s : Str} (h : s ≠ []) : 0 < (utf8 s).length := by
  cases s with
  | nil => exact absurd rfl h
  | cons c s =>
    have := Char.utf8Size_pos c
    simp
    omega

theorem utf8_eq_nil_iff {s : Str} : utf8 s = [] ↔ s = [] := by
  constructor
  · intro h
    by_contra hs
    have := utf8_length_pos hs
    rw [h] at this
    exact absurd this (by decide)
  · rintro rfl
    rfl

/-! ## Reading one character

One equation for each length of a character, and one for a character cut short. -/

theorem utf8Chunks_one {b0 : UInt8} (h : b0.toNat < 0x80) (t : Bytes) :
    utf8Chunks (b0 :: t) = some (Char.ofNat b0.toNat) :: utf8Chunks t := by
  rw [utf8Chunks.eq_def]
  exact if_pos h

theorem utf8Chunks_two {b0 b1 : UInt8} (h : 0xC2 ≤ b0.toNat ∧ b0.toNat ≤ 0xDF)
    (h1 : isCont b1 = true) (t : Bytes) :
    utf8Chunks (b0 :: b1 :: t) = some (char2 b0 b1) :: utf8Chunks t := by
  rw [utf8Chunks.eq_def]
  dsimp only
  rw [if_neg (by omega), if_pos h, if_pos h1]

theorem utf8Chunks_three {b0 b1 b2 : UInt8} (h : 0xE0 ≤ b0.toNat ∧ b0.toNat ≤ 0xEF)
    (h1 : second3 b0 b1 = true) (h2 : isCont b2 = true) (t : Bytes) :
    utf8Chunks (b0 :: b1 :: b2 :: t) = some (char3 b0 b1 b2) :: utf8Chunks t := by
  rw [utf8Chunks.eq_def]
  dsimp only
  rw [if_neg (by omega), if_neg (by omega), if_pos h, if_pos h1, if_pos h2]

theorem utf8Chunks_four {b0 b1 b2 b3 : UInt8} (h : 0xF0 ≤ b0.toNat ∧ b0.toNat ≤ 0xF4)
    (h1 : second4 b0 b1 = true) (h2 : isCont b2 = true) (h3 : isCont b3 = true) (t : Bytes) :
    utf8Chunks (b0 :: b1 :: b2 :: b3 :: t) = some (char4 b0 b1 b2 b3) :: utf8Chunks t := by
  rw [utf8Chunks.eq_def]
  dsimp only
  rw [if_neg (by omega), if_neg (by omega), if_neg (by omega), if_pos h, if_pos h1, if_pos h2,
    if_pos h3]

theorem utf8Chunks_cut1 {b0 : UInt8} (h : 0xC2 ≤ b0.toNat ∧ b0.toNat ≤ 0xF4) :
    utf8Chunks [b0] = [none] := by
  rw [utf8Chunks.eq_def]
  dsimp only
  rw [if_neg (by omega)]
  split_ifs <;> rfl

theorem utf8Chunks_cut2 {b0 b1 : UInt8}
    (h : (0xE0 ≤ b0.toNat ∧ b0.toNat ≤ 0xEF ∧ second3 b0 b1 = true) ∨
      (0xF0 ≤ b0.toNat ∧ b0.toNat ≤ 0xF4 ∧ second4 b0 b1 = true)) :
    utf8Chunks [b0, b1] = [none] := by
  rw [utf8Chunks.eq_def]
  dsimp only
  rcases h with ⟨h0, h0', h1⟩ | ⟨h0, h0', h1⟩
  · rw [if_neg (by omega), if_neg (by omega), if_pos ⟨h0, h0'⟩, if_pos h1]
  · rw [if_neg (by omega), if_neg (by omega), if_neg (by omega), if_pos ⟨h0, h0'⟩, if_pos h1]

theorem utf8Chunks_cut3 {b0 b1 b2 : UInt8} (h : 0xF0 ≤ b0.toNat ∧ b0.toNat ≤ 0xF4)
    (h1 : second4 b0 b1 = true) (h2 : isCont b2 = true) :
    utf8Chunks [b0, b1, b2] = [none] := by
  rw [utf8Chunks.eq_def]
  dsimp only
  rw [if_neg (by omega), if_neg (by omega), if_neg (by omega), if_pos h, if_pos h1, if_pos h2]

/-! ## Reading back what was encoded -/

private theorem char_bound (c : Char) :
    c.toNat < 0xD800 ∨ (0xE000 ≤ c.toNat ∧ c.toNat < 0x110000) := by
  have h : c.val.isValidChar := c.valid
  rcases h with h | ⟨h1, h2⟩
  · left; exact h
  · right; exact ⟨by simp only [Char.toNat]; omega, h2⟩

/-- What the bytes of a character are, by the number of them. -/
theorem utf8EncodeChar_cases (c : Char) :
    (∃ b0 : UInt8, utf8EncodeChar c = [b0] ∧ b0.toNat < 0x80 ∧ Char.ofNat b0.toNat = c) ∨
    (∃ b0 b1 : UInt8, utf8EncodeChar c = [b0, b1] ∧ (0xC2 ≤ b0.toNat ∧ b0.toNat ≤ 0xDF) ∧
      isCont b1 = true ∧ char2 b0 b1 = c) ∨
    (∃ b0 b1 b2 : UInt8, utf8EncodeChar c = [b0, b1, b2] ∧
      (0xE0 ≤ b0.toNat ∧ b0.toNat ≤ 0xEF) ∧ second3 b0 b1 = true ∧ isCont b2 = true ∧
      char3 b0 b1 b2 = c) ∨
    (∃ b0 b1 b2 b3 : UInt8, utf8EncodeChar c = [b0, b1, b2, b3] ∧
      (0xF0 ≤ b0.toNat ∧ b0.toNat ≤ 0xF4) ∧ second4 b0 b1 = true ∧ isCont b2 = true ∧
      isCont b3 = true ∧ char4 b0 b1 b2 b3 = c) := by
  have hb := char_bound c
  have hc : ∀ n, n = c.toNat → Char.ofNat n = c := by
    rintro n rfl
    exact Char.ofNat_toNat c
  have hv : c.val.toNat = c.toNat := rfl
  have low : ∀ n, n < 256 → (UInt8.ofNat n).toNat = n := by
    intro n hn
    simp [Nat.mod_eq_of_lt hn]
  have cont : ∀ n, isCont (UInt8.ofNat (n % 64 + 128)) = true := by
    intro n
    rw [isCont, low _ (by omega)]
    simp
    omega
  unfold utf8EncodeChar
  simp only [hv]
  by_cases h1 : c.toNat ≤ 127
  · rw [if_pos h1]
    refine Or.inl ⟨_, rfl, ?_, ?_⟩
    · rw [low _ (by omega)]; omega
    · rw [low _ (by omega)]; exact hc _ rfl
  by_cases h2 : c.toNat ≤ 2047
  · rw [if_neg h1, if_pos h2]
    refine Or.inr (Or.inl ⟨_, _, rfl, ?_, cont _, ?_⟩)
    · rw [low _ (by omega)]; omega
    · rw [char2, low _ (by omega), low _ (by omega)]
      exact hc _ (by omega)
  by_cases h3 : c.toNat ≤ 65535
  · rw [if_neg h1, if_neg h2, if_pos h3]
    refine Or.inr (Or.inr (Or.inl ⟨_, _, _, rfl, ?_, ?_, cont _, ?_⟩))
    · rw [low _ (by omega)]; omega
    · rw [second3, isCont, low _ (by omega), low _ (by omega)]
      split_ifs <;> simp <;> omega
    · rw [char3, low _ (by omega), low _ (by omega), low _ (by omega)]
      exact hc _ (by omega)
  · rw [if_neg h1, if_neg h2, if_neg h3]
    refine Or.inr (Or.inr (Or.inr ⟨_, _, _, _, rfl, ?_, ?_, cont _, cont _, ?_⟩))
    · rw [low _ (by omega)]; omega
    · rw [second4, isCont, low _ (by omega), low _ (by omega)]
      split_ifs <;> simp <;> omega
    · rw [char4, low _ (by omega), low _ (by omega), low _ (by omega), low _ (by omega)]
      exact hc _ (by omega)

/-- A character with an ASCII byte is that byte. -/
theorem eq_of_mem_utf8EncodeChar {c : Char} {b : UInt8} (h : b ∈ utf8EncodeChar c)
    (hb : b.toNat < 0x80) : c = Char.ofNat b.toNat := by
  have hcont : ∀ x : UInt8, isCont x = true → 0x80 ≤ x.toNat := by
    intro x hx
    simp [isCont] at hx
    omega
  have hthird : ∀ b0 x : UInt8, second3 b0 x = true → 0x80 ≤ x.toNat := by
    intro b0 x hx
    unfold second3 isCont at hx
    split_ifs at hx <;> simp at hx <;> omega
  have hfourth : ∀ b0 x : UInt8, second4 b0 x = true → 0x80 ≤ x.toNat := by
    intro b0 x hx
    unfold second4 isCont at hx
    split_ifs at hx <;> simp at hx <;> omega
  rcases utf8EncodeChar_cases c with ⟨b0, e, h0, hc⟩ | ⟨b0, b1, e, h0, h1, -⟩ |
    ⟨b0, b1, b2, e, h0, h1, h2, -⟩ | ⟨b0, b1, b2, b3, e, h0, h1, h2, h3, -⟩
  · rw [e, List.mem_singleton] at h
    rw [h]
    exact hc.symm
  · have hb1 := hcont b1 h1
    simp only [e, List.mem_cons, List.not_mem_nil, or_false] at h
    rcases h with rfl | rfl <;> omega
  · have hb1 := hthird b0 b1 h1
    have hb2 := hcont b2 h2
    simp only [e, List.mem_cons, List.not_mem_nil, or_false] at h
    rcases h with rfl | rfl | rfl <;> omega
  · have hb1 := hfourth b0 b1 h1
    have hb2 := hcont b2 h2
    have hb3 := hcont b3 h3
    simp only [e, List.mem_cons, List.not_mem_nil, or_false] at h
    rcases h with rfl | rfl | rfl | rfl <;> omega

/-- A character whose last byte is an ASCII one is that byte. -/
theorem getLast_utf8EncodeChar {c : Char} {b : UInt8} (h : (utf8EncodeChar c).getLast? = some b)
    (hb : b.toNat < 0x80) : c = Char.ofNat b.toNat :=
  eq_of_mem_utf8EncodeChar (List.mem_of_getLast? h) hb

theorem utf8Chunks_utf8EncodeChar (c : Char) (rest : Bytes) :
    utf8Chunks (utf8EncodeChar c ++ rest) = some c :: utf8Chunks rest := by
  rcases utf8EncodeChar_cases c with ⟨b0, e, h0, hc⟩ | ⟨b0, b1, e, h0, h1, hc⟩ |
    ⟨b0, b1, b2, e, h0, h1, h2, hc⟩ | ⟨b0, b1, b2, b3, e, h0, h1, h2, h3, hc⟩
  · rw [e, List.singleton_append, utf8Chunks_one h0, hc]
  · rw [e, List.cons_append, List.singleton_append, utf8Chunks_two h0 h1, hc]
  · rw [e, List.cons_append, List.cons_append, List.singleton_append,
      utf8Chunks_three h0 h1 h2, hc]
  · rw [e, List.cons_append, List.cons_append, List.cons_append, List.singleton_append,
      utf8Chunks_four h0 h1 h2 h3, hc]

/-- A character cut short is one ill-formed subpart. -/
theorem utf8Chunks_take_utf8EncodeChar (c : Char) (k : Nat) (h0 : 0 < k)
    (hk : k < (utf8EncodeChar c).length) :
    utf8Chunks ((utf8EncodeChar c).take k) = [none] := by
  rcases utf8EncodeChar_cases c with ⟨b0, e, _, _⟩ | ⟨b0, b1, e, g0, _, _⟩ |
    ⟨b0, b1, b2, e, g0, g1, _, _⟩ | ⟨b0, b1, b2, b3, e, g0, g1, g2, _, _⟩ <;>
    rw [e] at hk ⊢ <;> simp only [List.length_cons, List.length_nil] at hk
  · omega
  · obtain rfl : k = 1 := by omega
    exact utf8Chunks_cut1 (by omega)
  · rcases (by omega : k = 1 ∨ k = 2) with rfl | rfl
    · exact utf8Chunks_cut1 (by omega)
    · exact utf8Chunks_cut2 (Or.inl ⟨g0.1, g0.2, g1⟩)
  · rcases (by omega : k = 1 ∨ k = 2 ∨ k = 3) with rfl | rfl | rfl
    · exact utf8Chunks_cut1 (by omega)
    · exact utf8Chunks_cut2 (Or.inr ⟨g0.1, g0.2, g1⟩)
    · exact utf8Chunks_cut3 g0 g1 g2

theorem utf8Chunks_utf8_append (s : Str) (rest : Bytes) :
    utf8Chunks (utf8 s ++ rest) = s.map some ++ utf8Chunks rest := by
  induction s with
  | nil => simp
  | cons c s ih => simp [List.append_assoc, utf8Chunks_utf8EncodeChar, ih]

theorem utf8Chunks_utf8 (s : Str) : utf8Chunks (utf8 s) = s.map some := by
  simpa [utf8Chunks] using utf8Chunks_utf8_append s []

theorem fromUtf8Lossy_utf8 (s : Str) : fromUtf8Lossy (utf8 s) = s := by
  simp [fromUtf8Lossy, utf8Chunks_utf8]

theorem fromUtf8_utf8 (s : Str) : fromUtf8 (utf8 s) = some s := by
  rw [fromUtf8, utf8Chunks_utf8]
  induction s with
  | nil => rfl
  | cons c s ih => simp [ih]

/-! ## Text that was read

Well-formed bytes are the encoding of what is read from them. -/

theorem toNat_val_ofNat {n : Nat} (h : n < 0xD800 ∨ 0xDFFF < n ∧ n < 0x110000) :
    (Char.ofNat n).val.toNat = n := by
  unfold Char.ofNat
  rw [dif_pos h]
  rfl

theorem ofNat_eq {b : UInt8} {n : Nat} (h : n = b.toNat) : UInt8.ofNat n = b := by
  rw [h, UInt8.ofNat_toNat]

theorem isCont_iff {b : UInt8} : isCont b = true ↔ 0x80 ≤ b.toNat ∧ b.toNat ≤ 0xBF := by
  simp [isCont]

theorem utf8EncodeChar_char1 {b0 : UInt8} (h0 : b0.toNat < 0x80) :
    utf8EncodeChar (Char.ofNat b0.toNat) = [b0] := by
  unfold utf8EncodeChar
  rw [toNat_val_ofNat (by omega)]
  dsimp only
  rw [if_pos (by omega), UInt8.ofNat_toNat]

theorem utf8EncodeChar_char2 {b0 b1 : UInt8} (h0 : 0xC2 ≤ b0.toNat ∧ b0.toNat ≤ 0xDF)
    (h1 : isCont b1 = true) : utf8EncodeChar (char2 b0 b1) = [b0, b1] := by
  rw [isCont_iff] at h1
  unfold utf8EncodeChar char2
  rw [toNat_val_ofNat (by omega)]
  dsimp only
  rw [if_neg (by omega), if_pos (by omega), ofNat_eq (b := b0) (by omega),
    ofNat_eq (b := b1) (by omega)]

theorem utf8EncodeChar_char3 {b0 b1 b2 : UInt8} (h0 : 0xE0 ≤ b0.toNat ∧ b0.toNat ≤ 0xEF)
    (h1 : second3 b0 b1 = true) (h2 : isCont b2 = true) :
    utf8EncodeChar (char3 b0 b1 b2) = [b0, b1, b2] := by
  have hsecond : (0x80 ≤ b1.toNat ∧ b1.toNat ≤ 0xBF) ∧ (b0.toNat = 0xE0 → 0xA0 ≤ b1.toNat) ∧
      (b0.toNat = 0xED → b1.toNat ≤ 0x9F) := by
    unfold second3 at h1
    split_ifs at h1 <;> simp [isCont] at h1 <;> omega
  rw [isCont_iff] at h2
  unfold utf8EncodeChar char3
  rw [toNat_val_ofNat (by omega)]
  dsimp only
  rw [if_neg (by omega), if_neg (by omega), if_pos (by omega), ofNat_eq (b := b0) (by omega),
    ofNat_eq (b := b1) (by omega), ofNat_eq (b := b2) (by omega)]

theorem utf8EncodeChar_char4 {b0 b1 b2 b3 : UInt8} (h0 : 0xF0 ≤ b0.toNat ∧ b0.toNat ≤ 0xF4)
    (h1 : second4 b0 b1 = true) (h2 : isCont b2 = true) (h3 : isCont b3 = true) :
    utf8EncodeChar (char4 b0 b1 b2 b3) = [b0, b1, b2, b3] := by
  have hsecond : (0x80 ≤ b1.toNat ∧ b1.toNat ≤ 0xBF) ∧ (b0.toNat = 0xF0 → 0x90 ≤ b1.toNat) ∧
      (b0.toNat = 0xF4 → b1.toNat ≤ 0x8F) := by
    unfold second4 at h1
    split_ifs at h1 <;> simp [isCont] at h1 <;> omega
  rw [isCont_iff] at h2 h3
  unfold utf8EncodeChar char4
  rw [toNat_val_ofNat (by omega)]
  dsimp only
  rw [if_neg (by omega), if_neg (by omega), if_neg (by omega), ofNat_eq (b := b0) (by omega),
    ofNat_eq (b := b1) (by omega), ofNat_eq (b := b2) (by omega), ofNat_eq (b := b3) (by omega)]

theorem cons_map_some {c : Option Char} {xs : List (Option Char)} {s : Str}
    (h : c :: xs = s.map some) : ∃ d t, s = d :: t ∧ c = some d ∧ xs = t.map some := by
  cases s with
  | nil => cases h
  | cons d t => exact ⟨d, t, rfl, List.cons.inj h⟩

/-- Bytes without an ill-formed part are those of their text. -/
theorem utf8_of_utf8Chunks {bs : Bytes} {s : Str} (h : utf8Chunks bs = s.map some) :
    bs = utf8 s := by
  fun_induction utf8Chunks bs generalizing s with
  | case1 =>
    rw [List.map_eq_nil_iff.mp h.symm]
    rfl
  | case2 b0 t0 h0 ih =>
    obtain ⟨d, t, rfl, hd, ht⟩ := cons_map_some h
    rw [utf8_cons, ← Option.some.inj hd, utf8EncodeChar_char1 h0, ← ih ht, List.singleton_append]
  | case4 b0 _ h0 b1 t1 h1 ih =>
    obtain ⟨d, t, rfl, hd, ht⟩ := cons_map_some h
    rw [utf8_cons, ← Option.some.inj hd, utf8EncodeChar_char2 h0 h1, ← ih ht]
    rfl
  | case8 b0 _ _ h0 b1 h1 b2 t2 h2 ih =>
    obtain ⟨d, t, rfl, hd, ht⟩ := cons_map_some h
    rw [utf8_cons, ← Option.some.inj hd, utf8EncodeChar_char3 h0 h1 h2, ← ih ht]
    rfl
  | case14 b0 _ _ _ h0 b1 h1 b2 h2 b3 t3 h3 ih =>
    obtain ⟨d, t, rfl, hd, ht⟩ := cons_map_some h
    rw [utf8_cons, ← Option.some.inj hd, utf8EncodeChar_char4 h0 h1 h2 h3, ← ih ht]
    rfl
  | _ =>
    obtain ⟨_, _, _, hd, _⟩ := cons_map_some h
    cases hd

theorem map_some_of_mapM {xs : List (Option Char)} {s : Str} (h : xs.mapM id = some s) :
    xs = s.map some := by
  induction xs generalizing s with
  | nil =>
    cases h
    rfl
  | cons x xs ih =>
    rw [List.mapM_cons] at h
    obtain ⟨c, hc, h⟩ := Option.bind_eq_some_iff.mp h
    obtain ⟨t, ht, h⟩ := Option.bind_eq_some_iff.mp h
    obtain rfl : c :: t = s := Option.some.inj h
    rw [List.map_cons, ← ih ht]
    exact congrArg (· :: xs) hc

theorem fromUtf8_eq_some_iff {bs : Bytes} {s : Str} : fromUtf8 bs = some s ↔ bs = utf8 s := by
  constructor
  · intro h
    exact utf8_of_utf8Chunks (map_some_of_mapM h)
  · rintro rfl
    exact fromUtf8_utf8 s

/-! ## Text cut at a byte -/

/-- The first `n` bytes of a text end between two characters or inside one. -/
theorem take_utf8 (s : Str) (n : Nat) :
    (∃ q r, s = q ++ r ∧ (utf8 s).take n = utf8 q) ∨
    (∃ q c r k, s = q ++ c :: r ∧ 0 < k ∧ k < (utf8EncodeChar c).length ∧
      (utf8 s).take n = utf8 q ++ (utf8EncodeChar c).take k ∧ n = (utf8 q).length + k) := by
  induction s generalizing n with
  | nil => exact Or.inl ⟨[], [], rfl, by simp⟩
  | cons c s ih =>
    rcases Nat.eq_zero_or_pos n with rfl | hn
    · exact Or.inl ⟨[], c :: s, rfl, by simp⟩
    by_cases hc : n < (utf8EncodeChar c).length
    · refine Or.inr ⟨[], c, s, n, rfl, hn, hc, ?_, by simp⟩
      rw [utf8_cons, List.take_append_of_le_length (by omega)]
      rfl
    · have htake : (utf8 (c :: s)).take n =
          utf8EncodeChar c ++ (utf8 s).take (n - (utf8EncodeChar c).length) := by
        rw [utf8_cons, List.take_append, List.take_of_length_le (by omega)]
      rcases ih (n - (utf8EncodeChar c).length) with ⟨q, r, hs, ht⟩ |
        ⟨q, d, r, k, hs, h0, hk, ht, he⟩
      · refine Or.inl ⟨c :: q, r, by rw [hs]; rfl, ?_⟩
        rw [htake, ht, utf8_cons]
      · refine Or.inr ⟨c :: q, d, r, k, by rw [hs]; rfl, h0, hk, ?_, ?_⟩
        · rw [htake, ht, utf8_cons, List.append_assoc]
        · rw [utf8_cons, List.length_append]
          omega

/-- A text cut inside a character reads as the characters before it and U+FFFD. -/
theorem fromUtf8Lossy_cut (q : Str) (c : Char) (k : Nat) (h0 : 0 < k)
    (hk : k < (utf8EncodeChar c).length) :
    fromUtf8Lossy (utf8 q ++ (utf8EncodeChar c).take k) = q ++ [replacementChar] := by
  rw [fromUtf8Lossy, utf8Chunks_utf8_append, utf8Chunks_take_utf8EncodeChar c k h0 hk]
  simp

end RustCrash.Lib

namespace RustCrash.Lib.Base64

/-- The value of a character of the alphabet. -/
def sextet (ch : Char) : Option Nat :=
  if ch.isUpper then some (ch.toNat - 65)
  else if ch.isLower then some (ch.toNat - 97 + 26)
  else if ch.isDigit then some (ch.toNat - 48 + 52)
  else if ch = '+' then some 62
  else if ch = '/' then some 63
  else none

/-- `STANDARD_NO_PAD.decode`. -/
def decodeNoPad : Str → Option Bytes
  | [] => some []
  | [_] => none
  | [a, b] => do
    let x ← sextet a
    let y ← sextet b
    if y % 16 = 0 then some [UInt8.ofNat (x * 4 + y / 16)] else none
  | [a, b, d] => do
    let x ← sextet a
    let y ← sextet b
    let z ← sextet d
    if z % 4 = 0 then some (toBE 2 (x * 1024 + y * 16 + z / 4)) else none
  | a :: b :: d :: e :: rest => do
    let x ← sextet a
    let y ← sextet b
    let z ← sextet d
    let w ← sextet e
    let bs ← decodeNoPad rest
    some (toBE 3 (x * 262144 + y * 4096 + z * 64 + w) ++ bs)

/-- `STANDARD.decode`: the length is a multiple of 4, with as much padding as it takes. -/
def decodeStandard (s : Str) : Option Bytes :=
  if s.length % 4 ≠ 0 then none
  else decodeNoPad (dropPad 2 s.reverse).reverse
where
  /-- At most `n` padding characters off the front. -/
  dropPad : Nat → Str → Str
    | n + 1, '=' :: rest => dropPad n rest
    | _, s => s

end RustCrash.Lib.Base64
