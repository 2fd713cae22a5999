import Mathlib.Data.List.DropRight
import RustCrash.Lib.Utf8

/-
  The `str` methods the engine uses, on lists of characters. Splitting and joining at a
  character are `List.splitOn` and `List.intercalate`; a prefix is stripped with
  `List.dropPrefix?`. Numbers are read as `str::parse` does: an optional `+`, then
  decimal digits only, and no value above the type's largest.
-/

namespace RustCrash.Lib

namespace Str

/-- `char::is_whitespace` (the Unicode `White_Space` property). -/
def isWhitespace (c : Char) : Bool :=
  let n := c.toNat
  (0x9 ≤ n && n ≤ 0xD) || n == 0x20 || n == 0x85 || n == 0xA0 || n == 0x1680 ||
    (0x2000 ≤ n && n ≤ 0x200A) || n == 0x2028 || n == 0x2029 || n == 0x202F || n == 0x205F ||
    n == 0x3000

/-- `trim`. -/
def trim (s : Str) : Str := (s.dropWhile isWhitespace).rdropWhile isWhitespace

/-- `trim_start_matches(c)`. -/
def trimStartMatches (c : Char) (s : Str) : Str := s.dropWhile (· == c)

/-- `trim_end_matches(c)`. -/
def trimEndMatches (c : Char) (s : Str) : Str := s.rdropWhile (· == c)

/-- `split_once(c)`: the text before and after the first `c`. -/
def splitOnce (c : Char) : Str → Option (Str × Str)
  | [] => none
  | x :: xs => if x = c then some ([], xs) else (splitOnce c xs).map fun p => (x :: p.1, p.2)

/-- `join(c)`. -/
def join (c : Char) (parts : List Str) : Str := [c].intercalate parts

/-- `to_ascii_lowercase`. -/
def asciiLower (s : Str) : Str := s.map Char.toLower

/-- `to_ascii_uppercase`. -/
def asciiUpper (s : Str) : Str := s.map Char.toUpper

/-- `eq_ignore_ascii_case`. -/
def eqIgnoreAsciiCase (s t : Str) : Bool := asciiLower s == asciiLower t

/-- `contains(pat)` for a text pattern. -/
def containsStr (s pat : Str) : Bool := pat.isInfixOf_internal s

/-- `lines()`: each line loses its `\n`, and a `\r` right before it. -/
def lines (s : Str) : List Str :=
  let pieces := s.splitOn '\n'
  pieces.dropLast.map (fun l => if l.getLast? = some '\r' then l.dropLast else l) ++
    match pieces.getLast? with
    | none => []
    | some [] => []
    | some l => [l]

/-- `parse::<uN>()`, where `max` is `uN::MAX`. -/
def parseUint (max : Nat) (s : Str) : Option Nat :=
  let digits := match s with
    | '+' :: rest => rest
    | s => s
  if digits = [] then none
  else if digits.all Char.isDigit then
    let n := Nat.ofDigitChars 10 digits 0
    if n ≤ max then some n else none
  else none

/-- `parse::<i64>()`. -/
def parseI64 : Str → Option Int
  | '-' :: '+' :: _ => none
  | '-' :: digits => (parseUint (2 ^ 63) digits).map fun n => -(n : Int)
  | s => (parseUint (2 ^ 63 - 1) s).map fun n => (n : Int)

/-- A number in decimal, as `Display` writes it. -/
def decimal (n : Nat) : Str := Nat.toDigits 10 n

/-- The text of a string in an error message: `{s:?}`. Control characters, quotes and
    backslashes are escaped; the code points `Debug` also escapes beyond ASCII are kept. -/
def debug (s : Str) : String :=
  String.ofList ('"' :: s.flatMap (fun c =>
    if c = '"' then ['\\', '"']
    else if c = '\\' then ['\\', '\\']
    else if c = '\n' then ['\\', 'n']
    else if c = '\r' then ['\\', 'r']
    else if c = '\t' then ['\\', 't']
    else if c = '\x00' then ['\\', '0']
    else if c.toNat < 0x20 ∨ c.toNat = 0x7F then
      ['\\', 'u', '\x7b'] ++ Nat.toDigits 16 c.toNat ++ ['\x7d']
    else [c]) ++ ['"'])

/-! ## ASCII case -/

@[simp] theorem asciiLower_nil : asciiLower [] = [] := rfl

@[simp] theorem asciiLower_cons (c : Char) (s : Str) :
    asciiLower (c :: s) = c.toLower :: asciiLower s := rfl

@[simp] theorem asciiLower_append (s t : Str) :
    asciiLower (s ++ t) = asciiLower s ++ asciiLower t := List.map_append

@[simp] theorem asciiLower_eq_nil {s : Str} : asciiLower s = [] ↔ s = [] := List.map_eq_nil_iff

theorem isLower_iff (c : Char) :
    c.isLower = true ↔ 97 ≤ c.val.toNat ∧ c.val.toNat ≤ 122 := by
  have h : c.isLower = (decide ('a'.val ≤ c.val) && decide (c.val ≤ 'z'.val)) := rfl
  simp [h, UInt32.le_iff_toNat_le]

theorem isAlpha_iff (c : Char) : c.isAlpha = true ↔
    (65 ≤ c.val.toNat ∧ c.val.toNat ≤ 90) ∨ 97 ≤ c.val.toNat ∧ c.val.toNat ≤ 122 := by
  have h : c.isAlpha = (decide ('A'.val ≤ c.val ∧ c.val ≤ 'Z'.val) || c.isLower) := rfl
  rw [h, Bool.or_eq_true, isLower_iff]
  simp [UInt32.le_iff_toNat_le]

theorem toLower_eq_self_or (c : Char) :
    c.toLower = c ∨ c.isAlpha = true ∧ c.toLower.isLower = true := by
  rw [isAlpha_iff, isLower_iff]
  unfold Char.toLower
  split
  · rename_i hc
    right
    simp [UInt32.le_iff_toNat_le] at hc ⊢
    omega
  · exact Or.inl rfl

variable {c : Char}

theorem isAlpha_of_isLower (h : c.isLower = true) : c.isAlpha = true :=
  (isAlpha_iff c).mpr (.inr ((isLower_iff c).mp h))

/-- Lower-casing makes no character that is not a letter. -/
theorem eq_of_toLower {c x : Char} (hx : x.isAlpha = false) (h : c.toLower = x) : c = x := by
  rcases toLower_eq_self_or c with hc | ⟨-, hl⟩
  · rw [← hc, h]
  · rw [h] at hl
    simp [isAlpha_of_isLower hl] at hx

theorem toLower_eq_iff {c x : Char} (hx : x.isAlpha = false) : c.toLower = x ↔ c = x := by
  refine ⟨eq_of_toLower hx, ?_⟩
  rintro rfl
  exact (toLower_eq_self_or c).resolve_right fun h => by simp [h.1] at hx

theorem asciiLower_asciiLower (s : Str) : asciiLower (asciiLower s) = asciiLower s := by
  unfold asciiLower
  rw [List.map_map]
  refine List.map_congr_left fun c _ => ?_
  rcases toLower_eq_self_or c with h | ⟨-, h⟩
  · rw [Function.comp_apply, h, h]
  · show c.toLower.toLower = c.toLower
    generalize c.toLower = l at h
    unfold Char.toLower
    rw [dif_neg]
    rw [isLower_iff] at h
    show ¬ (65 ≤ l.val.toNat ∧ l.val.toNat ≤ 90)
    omega

theorem isWhitespace_of_isAlpha (h : c.isAlpha = true) : isWhitespace c = false := by
  have hval : c.toNat = c.val.toNat := rfl
  rw [isAlpha_iff] at h
  simp only [isWhitespace, Bool.or_eq_false_iff, Bool.and_eq_false_iff, decide_eq_false_iff_not,
    beq_eq_false_iff_ne]
  omega

theorem isWhitespace_toLower (c : Char) : isWhitespace c.toLower = isWhitespace c := by
  rcases toLower_eq_self_or c with h | ⟨hc, hl⟩
  · rw [h]
  · rw [isWhitespace_of_isAlpha hc, isWhitespace_of_isAlpha (isAlpha_of_isLower hl)]

theorem trim_asciiLower (s : Str) : trim (asciiLower s) = asciiLower (trim s) := by
  have h : isWhitespace ∘ Char.toLower = isWhitespace := funext isWhitespace_toLower
  simp only [trim, asciiLower, List.rdropWhile, List.dropWhile_map, ← List.map_reverse, h]

theorem trimStartMatches_asciiLower {x : Char} (hx : x.isAlpha = false) (s : Str) :
    trimStartMatches x (asciiLower s) = asciiLower (trimStartMatches x s) := by
  have h : (· == x) ∘ Char.toLower = (· == x) := by
    funext c
    rw [Bool.eq_iff_iff]
    simp [toLower_eq_iff hx]
  simp only [trimStartMatches, asciiLower, List.dropWhile_map, h]

theorem mem_of_mem_asciiLower {x : Char} {s : Str} (hx : x.isAlpha = false)
    (h : x ∈ asciiLower s) : x ∈ s := by
  obtain ⟨c, hc, hl⟩ := List.mem_map.mp h
  rwa [← eq_of_toLower hx hl]

theorem head?_of_head?_asciiLower {x : Char} {s : Str} (hx : x.isAlpha = false)
    (h : (asciiLower s).head? = some x) : s.head? = some x := by
  rw [asciiLower, List.head?_map, Option.map_eq_some_iff] at h
  obtain ⟨c, hc, hl⟩ := h
  rw [hc, eq_of_toLower hx hl]

/-! The bytes of a text in lower case. -/

/-- `u8::to_ascii_lowercase`. -/
def lowerByte (b : UInt8) : UInt8 := if 65 ≤ b.toNat ∧ b.toNat ≤ 90 then b + 32 else b

theorem lowerByte_of_not {b : UInt8} (h : b.toNat < 65 ∨ 90 < b.toNat) : lowerByte b = b :=
  if_neg (by omega)

theorem utf8EncodeChar_toLower (c : Char) :
    String.utf8EncodeChar c.toLower = (String.utf8EncodeChar c).map lowerByte := by
  unfold Char.toLower
  split_ifs with hupper
  · obtain ⟨hlow, hhigh⟩ : 65 ≤ c.val.toNat ∧ c.val.toNat ≤ 90 := hupper
    have hval : (c.val + ('a'.val - 'A'.val)).toNat = c.val.toNat + 32 := by
      rw [UInt32.toNat_add]
      exact Nat.mod_eq_of_lt (show c.val.toNat + 32 < 2 ^ 32 by omega)
    have hone : (UInt8.ofNat c.val.toNat).toNat = c.val.toNat := by
      rw [UInt8.toNat_ofNat', Nat.mod_eq_of_lt (by omega)]
    unfold String.utf8EncodeChar
    dsimp only
    rw [hval, if_pos (by omega), if_pos (by omega), List.map_singleton, lowerByte,
      if_pos (by omega), UInt8.ofNat_add]
    rfl
  · have hout : ¬ (65 ≤ c.val.toNat ∧ c.val.toNat ≤ 90) := hupper
    -- no byte of a longer character is in the range
    have hbyte : ∀ b ∈ String.utf8EncodeChar c, b.toNat < 65 ∨ 90 < b.toNat := by
      intro b hb
      unfold String.utf8EncodeChar at hb
      dsimp only at hb
      split_ifs at hb <;> simp only [List.mem_cons, List.not_mem_nil, or_false] at hb
      · rw [hb, UInt8.toNat_ofNat']
        omega
      · rcases hb with rfl | rfl <;> rw [UInt8.toNat_ofNat'] <;> omega
      · rcases hb with rfl | rfl | rfl <;> rw [UInt8.toNat_ofNat'] <;> omega
      · rcases hb with rfl | rfl | rfl | rfl <;> rw [UInt8.toNat_ofNat'] <;> omega
    rw [List.map_congr_left fun b hb => lowerByte_of_not (hbyte b hb), List.map_id']

theorem utf8_asciiLower (s : Str) : utf8 (Str.asciiLower s) = (utf8 s).map lowerByte := by
  induction s with
  | nil => rfl
  | cons c s ih =>
    rw [Str.asciiLower_cons, utf8_cons, utf8_cons, List.map_append, utf8EncodeChar_toLower, ih]

/-! ## Splitting and joining -/

theorem splitOnce_append {s t : Str} (h : c ∉ s) : splitOnce c (s ++ c :: t) = some (s, t) := by
  induction s with
  | nil => simp [splitOnce]
  | cons x xs ih =>
    rw [List.mem_cons, not_or] at h
    have hx : ¬ x = c := fun e => h.1 e.symm
    simp [splitOnce, hx, ih h.2]

theorem splitOnce_eq_some {s a b : Str} (h : splitOnce c s = some (a, b)) :
    s = a ++ c :: b ∧ c ∉ a := by
  induction s generalizing a with
  | nil => simp [splitOnce] at h
  | cons x xs ih =>
    by_cases hx : x = c
    · simp only [splitOnce, hx, if_true, Option.some.injEq, Prod.mk.injEq] at h
      obtain ⟨rfl, rfl⟩ := h
      simp [hx]
    · simp only [splitOnce, hx, if_false, Option.map_eq_some_iff, Prod.mk.injEq] at h
      obtain ⟨⟨a', b'⟩, hp, rfl, rfl⟩ := h
      obtain ⟨rfl, hn⟩ := ih hp
      exact ⟨rfl, by simp [hn, Ne.symm hx]⟩

theorem join_splitOn (c : Char) (s : Str) : join c (s.splitOn c) = s :=
  List.intercalate_splitOn c

theorem splitOn_join {parts : List Str} (hne : parts ≠ []) (h : ∀ p ∈ parts, c ∉ p) :
    (join c parts).splitOn c = parts :=
  List.splitOn_intercalate c h hne

@[simp] theorem join_nil (c : Char) : join c [] = [] := rfl

@[simp] theorem join_singleton (c : Char) (p : Str) : join c [p] = p := by
  simp [join, List.intercalate]

theorem join_cons_cons (c : Char) (p q : Str) (ps : List Str) :
    join c (p :: q :: ps) = p ++ c :: join c (q :: ps) := by
  simp [join, List.intercalate]

theorem not_mem_splitOn {s p : Str} (h : p ∈ s.splitOn c) : c ∉ p := by
  induction s generalizing p with
  | nil => simp at h; simp [h]
  | cons x xs ih =>
    rw [List.splitOn_cons_eq_if_modifyHead] at h
    by_cases hx : (x == c) = true
    · rw [if_pos hx, List.mem_cons] at h
      rcases h with rfl | h
      · simp
      · exact ih h
    · rw [if_neg hx] at h
      have hne := List.splitOn_ne_nil c xs
      obtain ⟨q, qs, hq⟩ := List.exists_cons_of_ne_nil hne
      rw [hq, List.modifyHead_cons, List.mem_cons] at h
      rcases h with rfl | h
      · have hcx : ¬ c = x := by simpa using fun e => hx (by simp [e])
        simp [hcx, ih (p := q) (by simp [hq])]
      · exact ih (by simp [hq, h])

theorem mem_join {c x : Char} {ps : List Str} {p : Str} (hp : p ∈ ps) (hx : x ∈ p) :
    x ∈ join c ps := by
  induction ps with
  | nil => simp at hp
  | cons q qs ih =>
    cases qs with
    | nil =>
      rw [List.mem_singleton.mp hp] at hx
      rwa [join_singleton]
    | cons q' qs =>
      rw [join_cons_cons, List.mem_append, List.mem_cons]
      rcases List.mem_cons.mp hp with rfl | hp
      · exact Or.inl hx
      · exact Or.inr (Or.inr (ih hp))

theorem mem_of_mem_join {c x : Char} {ps : List Str} (h : x ∈ join c ps) :
    x = c ∨ ∃ p ∈ ps, x ∈ p := by
  induction ps with
  | nil => simp at h
  | cons q qs ih =>
    cases qs with
    | nil =>
      rw [join_singleton] at h
      exact Or.inr ⟨q, List.mem_singleton_self q, h⟩
    | cons q' qs =>
      rw [join_cons_cons, List.mem_append, List.mem_cons] at h
      rcases h with h | rfl | h
      · exact Or.inr ⟨q, List.mem_cons_self, h⟩
      · exact Or.inl rfl
      · rcases ih h with h | ⟨p, hp, hx⟩
        · exact Or.inl h
        · exact Or.inr ⟨p, List.mem_cons_of_mem _ hp, hx⟩

theorem mem_of_mem_splitOn {c x : Char} {s p : Str} (hp : p ∈ s.splitOn c) (hx : x ∈ p) :
    x ∈ s := by
  rw [← join_splitOn c s]
  exact mem_join hp hx

theorem join_append_singleton {ps : List Str} (h : ps ≠ []) (p : Str) :
    join c (ps ++ [p]) = join c ps ++ c :: p := by
  induction ps with
  | nil => exact absurd rfl h
  | cons q qs ih =>
    cases qs with
    | nil => simp [join_cons_cons]
    | cons q' qs =>
      have hi := ih (by simp)
      rw [List.cons_append] at hi
      rw [List.cons_append, List.cons_append, join_cons_cons, hi, join_cons_cons]
      simp

/-- A text without an empty piece at its end has nothing to trim. -/
theorem trimEndMatches_eq_self {s : Str} (h : ∀ p ∈ s.splitOn c, p ≠ []) :
    trimEndMatches c s = s := by
  unfold trimEndMatches
  rw [List.rdropWhile_eq_self_iff]
  intro hne hlast
  have hs : s = s.dropLast ++ c :: [] := by
    rw [← List.dropLast_append_getLast hne]
    simp only [beq_iff_eq] at hlast
    rw [hlast]
    simp
  have hp : ([] : Str) ∈ s.splitOn c := by
    rw [hs, List.splitOn_append_cons_self]
    simp
  exact h [] hp rfl

/-- A text that loses something to `trim_end_matches` has more pieces than what is left. -/
theorem length_splitOn_trimEndMatches {s : Str} (h : trimEndMatches c s ≠ s) :
    ((trimEndMatches c s).splitOn c).length < (s.splitOn c).length := by
  have ht : trimEndMatches c s ++ s.rtakeWhile (· == c) = s :=
    List.rdropWhile_append_rtakeWhile
  cases hr : s.rtakeWhile (· == c) with
  | nil => exact absurd (by rw [hr, List.append_nil] at ht; exact ht) h
  | cons x xs =>
    have hx : (x == c) = true := List.mem_rtakeWhile_imp (p := (· == c)) (l := s) (by simp [hr])
    have hpos : 0 < (xs.splitOn c).length := List.length_pos_iff.mpr (List.splitOn_ne_nil c xs)
    have hlen : (s.splitOn c).length =
        ((trimEndMatches c s).splitOn c).length + (xs.splitOn c).length := by
      conv => lhs; rw [← ht]
      rw [hr, eq_of_beq hx, List.splitOn_append_cons_self, List.length_append]
    omega

/-! ## Trimming -/

/-- A text without whitespace at either end is left alone. -/
theorem trim_eq_self {s : Str} (hh : s.head?.any isWhitespace = false)
    (hl : s.getLast?.any isWhitespace = false) : trim s = s := by
  unfold trim
  have hdrop : s.dropWhile isWhitespace = s := by
    cases s with
    | nil => rfl
    | cons c cs => exact List.dropWhile_cons_of_neg (by simpa using hh)
  rw [hdrop, List.rdropWhile_eq_self_iff]
  intro hne hw
  rw [List.getLast?_eq_getLast_of_ne_nil hne, Option.any_some] at hl
  rw [hl] at hw
  cases hw

theorem head?_trim (s : Str) : (trim s).head?.any isWhitespace = false := by
  have hpre : trim s <+: s.dropWhile isWhitespace := List.rdropWhile_prefix _ _
  cases ht : trim s with
  | nil => rfl
  | cons c cs =>
    obtain ⟨rest, hrest⟩ := hpre
    rw [ht, List.cons_append] at hrest
    have hc := List.head?_dropWhile_not isWhitespace s
    rw [← hrest] at hc
    simpa using hc

theorem getLast?_trim (s : Str) : (trim s).getLast?.any isWhitespace = false := by
  by_cases hne : trim s = []
  · rw [hne]
    rfl
  · rw [List.getLast?_eq_getLast_of_ne_nil hne, Option.any_some]
    exact Bool.eq_false_iff.mpr (List.rdropWhile_last_not isWhitespace _ hne)

theorem trim_trim (s : Str) : trim (trim s) = trim s :=
  trim_eq_self (head?_trim s) (getLast?_trim s)

/-- Whitespace behind a text is not seen. -/
theorem trim_append_space (s : Str) {t : Str} (h : ∀ c ∈ t, isWhitespace c = true) :
    trim (s ++ t) = trim s := by
  unfold trim
  rw [List.dropWhile_append]
  split_ifs with he
  · rw [List.isEmpty_iff] at he
    rw [he, List.dropWhile_eq_nil_iff.mpr h]
  · rw [List.rdropWhile, List.reverse_append, List.dropWhile_append_of_pos, List.rdropWhile]
    intro c hc
    exact h c (List.mem_reverse.mp hc)

/-! ## Numbers -/

theorem decimal_ne_nil (n : Nat) : decimal n ≠ [] := Nat.toDigits_ne_nil

theorem isDigit_of_mem_decimal {n : Nat} (h : c ∈ decimal n) : c.isDigit = true :=
  Nat.isDigit_of_mem_toDigits (by decide) (by decide) h

theorem parseUint_decimal {max n : Nat} (h : n ≤ max) : parseUint max (decimal n) = some n := by
  have hall : (decimal n).all Char.isDigit = true :=
    List.all_eq_true.mpr fun c hc => isDigit_of_mem_decimal hc
  have hd : Nat.ofDigitChars 10 (decimal n) 0 = n := Nat.ofDigitChars_ten_toDigits
  have hplus : (match decimal n with | '+' :: rest => rest | s => s) = decimal n := by
    split
    · rename_i rest heq
      have : ('+' : Char).isDigit = true := isDigit_of_mem_decimal (n := n) (by simp [heq])
      exact absurd this (by decide)
    · rfl
  unfold parseUint
  simp only [hplus]
  rw [if_neg (decimal_ne_nil n), if_pos hall, hd, if_pos h]

end Str

end RustCrash.Lib
