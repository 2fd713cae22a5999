import RustCrash.Lib.Bytes

/-
  Prefix codes: every symbol has a word of bits, and no word is the beginning of another.

  A reader takes bit after bit and starts anew as soon as the bits since the last word are a word.
-/

namespace RustCrash.Lib.PrefixCode

/-! ## Numbers and bytes as bits, the highest first -/

def toBits : Nat → Nat → List Bool
  | 0, _ => []
  | k + 1, n => n.testBit k :: toBits k n

def ofBits (bits : List Bool) : Nat := bits.foldl (fun n b => 2 * n + b.toNat) 0

@[simp] theorem length_toBits (k n : Nat) : (toBits k n).length = k := by
  induction k with
  | zero => rfl
  | succ k ih => rw [toBits, List.length_cons, ih]

@[simp] theorem ofBits_concat (bits : List Bool) (b : Bool) :
    ofBits (bits ++ [b]) = 2 * ofBits bits + b.toNat := by
  simp [ofBits]

theorem ofBits_lt (bits : List Bool) : ofBits bits < 2 ^ bits.length := by
  induction bits using List.reverseRecOn with
  | nil => exact Nat.one_pos
  | append_singleton bits b ih =>
    rw [ofBits_concat, List.length_append, List.length_singleton, Nat.pow_succ]
    have hb := Bool.toNat_lt b
    omega

theorem toBits_succ (k n : Nat) : toBits (k + 1) n = toBits k (n / 2) ++ [n.testBit 0] := by
  induction k with
  | zero => rfl
  | succ k ih =>
    rw [toBits, ih, toBits, List.cons_append, Nat.testBit_add_one]

theorem toBits_ofBits (bits : List Bool) : toBits bits.length (ofBits bits) = bits := by
  induction bits using List.reverseRecOn with
  | nil => rfl
  | append_singleton bits b ih =>
    have hb := Bool.toNat_lt b
    have hlow : (2 * ofBits bits + b.toNat).testBit 0 = b := by
      cases b <;> simp [Nat.testBit_zero]
    rw [List.length_append, List.length_singleton, ofBits_concat, toBits_succ, hlow,
      show (2 * ofBits bits + b.toNat) / 2 = ofBits bits by omega, ih]

theorem ofBits_inj {xs ys : List Bool} (hlen : xs.length = ys.length)
    (h : ofBits xs = ofBits ys) : xs = ys := by
  rw [← toBits_ofBits xs, hlen, h, toBits_ofBits]

theorem ofBits_toBits {k n : Nat} (h : n < 2 ^ k) : ofBits (toBits k n) = n := by
  induction k generalizing n with
  | zero => simp_all [toBits, ofBits]
  | succ k ih =>
    rw [Nat.pow_succ] at h
    rw [toBits_succ, ofBits_concat, ih (by omega), Nat.testBit_zero]
    rcases Nat.mod_two_eq_zero_or_one n with hmod | hmod <;> simp [hmod] <;> omega

theorem ofBits_ones (k : Nat) : ofBits (List.replicate k true) = 2 ^ k - 1 := by
  induction k with
  | zero => rfl
  | succ k ih =>
    have hpos : 0 < 2 ^ k := Nat.two_pow_pos k
    rw [List.replicate_succ', ofBits_concat, ih, Bool.toNat_true, Nat.pow_succ]
    omega

def bytesToBits (bs : Bytes) : List Bool := bs.flatMap fun b => toBits 8 b.toNat

/-- Eight bits a byte; what is left over is dropped. -/
def packBits : List Bool → Bytes
  | a :: b :: c :: d :: e :: f :: g :: h :: rest =>
    UInt8.ofNat (ofBits [a, b, c, d, e, f, g, h]) :: packBits rest
  | _ => []

theorem length_bytesToBits (bs : Bytes) : (bytesToBits bs).length = 8 * bs.length := by
  induction bs with
  | nil => rfl
  | cons b bs ih =>
    rw [bytesToBits, List.flatMap_cons, List.length_append, length_toBits, List.length_cons]
    rw [bytesToBits] at ih
    omega

theorem packBits_append (n : Nat) (bits : List Bool) :
    packBits (toBits 8 n ++ bits) = UInt8.ofNat (ofBits (toBits 8 n)) :: packBits bits := by
  simp only [toBits, List.cons_append, List.nil_append, packBits]

theorem packBits_bytesToBits (bs : Bytes) : packBits (bytesToBits bs) = bs := by
  induction bs with
  | nil => rfl
  | cons b bs ih =>
    have hlt : b.toNat < 2 ^ 8 := UInt8.toNat_lt b
    rw [bytesToBits, List.flatMap_cons, packBits_append, ofBits_toBits hlt, UInt8.ofNat_toNat]
    exact congrArg _ ih

theorem bytesToBits_packBits {bits : List Bool} (h : 8 ∣ bits.length) :
    bytesToBits (packBits bits) = bits := by
  fun_induction packBits bits with
  | case1 a b c d e f g h' rest ih =>
    have hbyte : toBits 8 (UInt8.ofNat (ofBits [a, b, c, d, e, f, g, h'])).toNat =
        [a, b, c, d, e, f, g, h'] := by
      have hlt : ofBits [a, b, c, d, e, f, g, h'] < 2 ^ 8 := ofBits_lt [a, b, c, d, e, f, g, h']
      rw [UInt8.toNat_ofNat', Nat.mod_eq_of_lt hlt]
      exact toBits_ofBits [a, b, c, d, e, f, g, h']
    have hrest : 8 ∣ rest.length := by
      simp only [List.length_cons] at h
      omega
    rw [bytesToBits, List.flatMap_cons, hbyte]
    exact congrArg _ (ih hrest)
  | case2 bits hshort =>
    match bits, h with
    | [], _ => rfl
    | [_], h | [_, _], h | [_, _, _], h | [_, _, _, _], h | [_, _, _, _, _], h
    | [_, _, _, _, _, _], h | [_, _, _, _, _, _, _], h => exact absurd h (by simp)
    | a :: b :: c :: d :: e :: f :: g :: h' :: rest, _ =>
      exact absurd rfl (hshort a b c d e f g h' rest)

/-! ## Words -/

variable {α : Type}

def PrefixFree (word : α → List Bool) : Prop := ∀ a b, word a <+: word b → a = b

inductive BitTree (α : Type) where
  | empty
  | leaf (a : α)
  | node (zero one : BitTree α)

namespace BitTree

def find : BitTree α → List Bool → Option α
  | leaf a, [] => some a
  | node zero _, false :: bits => zero.find bits
  | node _ one, true :: bits => one.find bits
  | _, _ => none

/-- A leaf at the end of `bits`, in the place of what is there. -/
def insert (a : α) : List Bool → BitTree α → BitTree α
  | [], _ => leaf a
  | false :: bits, node zero one => node (insert a bits zero) one
  | true :: bits, node zero one => node zero (insert a bits one)
  | false :: bits, _ => node (insert a bits empty) empty
  | true :: bits, _ => node empty (insert a bits empty)

theorem find_unique {t : BitTree α} {u v : List Bool} {a b : α} (hu : t.find u = some a)
    (hv : t.find v = some b) (h : u <+: v) : a = b := by
  fun_induction find t u generalizing v with
  | case1 c =>
    cases v with
    | nil => rw [← Option.some_inj, ← hu, ← hv, find]
    | cons bit v => cases hv
  | case2 zero one bits ih =>
    obtain ⟨rest, rfl⟩ := h
    exact ih hu hv (List.prefix_append bits rest)
  | case3 zero one bits ih =>
    obtain ⟨rest, rfl⟩ := h
    exact ih hu hv (List.prefix_append bits rest)
  | case4 => cases hu

end BitTree

/-! ## Reading -/

/-- The symbols that are read, and the bits since the last of their words. -/
structure Reading (α : Type) where
  out : List α
  pending : List Bool

/-- No word is longer than `max`. -/
def Reading.next (lookup : List Bool → Option α) (max : Nat) (r : Reading α) (b : Bool) :
    Option (Reading α) :=
  let bits := r.pending ++ [b]
  if max < bits.length then none
  else
    match lookup bits with
    | some a => some ⟨r.out ++ [a], []⟩
    | none => some ⟨r.out, bits⟩

/-- The lookup knows the words, and nothing else. -/
structure Reads (word : α → List Bool) (lookup : List Bool → Option α) (max : Nat) : Prop where
  prefixFree : PrefixFree word
  lookup_iff : ∀ bits a, bits.length ≤ max → (lookup bits = some a ↔ word a = bits)
  ne_nil : ∀ a, word a ≠ []
  le_max : ∀ a, (word a).length ≤ max

variable {word : α → List Bool} {lookup : List Bool → Option α} {max : Nat} {r r' : Reading α}

theorem Reading.next_cases {b : Bool} (h : r.next lookup max b = some r') :
    (r.pending ++ [b]).length ≤ max ∧
      ((∃ a, lookup (r.pending ++ [b]) = some a ∧ r' = ⟨r.out ++ [a], []⟩) ∨
        lookup (r.pending ++ [b]) = none ∧ r' = ⟨r.out, r.pending ++ [b]⟩) := by
  unfold next at h
  dsimp only at h
  split_ifs at h with hmax
  refine ⟨Nat.le_of_not_lt hmax, ?_⟩
  split at h
  · rename_i a ha
    exact .inl ⟨a, ha, (Option.some_inj.mp h).symm⟩
  · rename_i hnone
    exact .inr ⟨hnone, (Option.some_inj.mp h).symm⟩

theorem Reading.length_next {b : Bool} (h : r.next lookup max b = some r') :
    r'.pending.length ≤ max := by
  obtain ⟨hmax, ⟨a, -, rfl⟩ | ⟨-, rfl⟩⟩ := next_cases h
  · exact Nat.zero_le _
  · exact hmax

theorem length_of_read {bits : List Bool} (hr : r.pending.length ≤ max)
    (h : bits.foldlM (Reading.next lookup max) r = some r') : r'.pending.length ≤ max := by
  induction bits generalizing r with
  | nil =>
    cases h
    exact hr
  | cons b bits ih =>
    rw [List.foldlM_cons] at h
    obtain ⟨s, hs, h⟩ := Option.bind_eq_some_iff.mp h
    exact ih (Reading.length_next hs) h

/-- What is read is words, and a rest. -/
theorem words_of_read (hw : Reads word lookup max) {bits : List Bool}
    (h : bits.foldlM (Reading.next lookup max) r = some r') :
    r.out.flatMap word ++ r.pending ++ bits = r'.out.flatMap word ++ r'.pending := by
  induction bits generalizing r with
  | nil =>
    cases h
    rw [List.append_nil]
  | cons b bits ih =>
    rw [List.foldlM_cons] at h
    obtain ⟨s, hs, h⟩ := Option.bind_eq_some_iff.mp h
    rw [← ih h]
    obtain ⟨hmax, ⟨a, ha, rfl⟩ | ⟨-, rfl⟩⟩ := Reading.next_cases hs
    · rw [hw.lookup_iff _ _ hmax] at ha
      simp [ha]
    · simp

/-- Bits that never make a word are kept. -/
theorem read_waits {bits : List Bool} (hmax : (r.pending ++ bits).length ≤ max)
    (hnone : ∀ p, p ≠ [] → p <+: bits → lookup (r.pending ++ p) = none) :
    bits.foldlM (Reading.next lookup max) r = some ⟨r.out, r.pending ++ bits⟩ := by
  induction bits generalizing r with
  | nil => simp
  | cons b bits ih =>
    have hnext : r.next lookup max b = some ⟨r.out, r.pending ++ [b]⟩ := by
      have hle : ¬ max < (r.pending ++ [b]).length := by
        simp only [List.length_append, List.length_cons, List.length_nil] at hmax ⊢
        omega
      unfold Reading.next
      simp only [if_neg hle, hnone [b] (List.cons_ne_nil b []) ⟨bits, rfl⟩]
    rw [List.foldlM_cons, hnext]
    show bits.foldlM _ _ = _
    rw [ih (by simpa using hmax)]
    · simp
    · intro p _ hp
      have hcons := hnone (b :: p) (List.cons_ne_nil b p) (List.prefix_cons_inj b |>.mpr hp)
      simpa using hcons

theorem read_word (hw : Reads word lookup max) (out : List α) (a : α) :
    (word a).foldlM (Reading.next lookup max) ⟨out, []⟩ = some ⟨out ++ [a], []⟩ := by
  obtain ⟨front, last, hsplit⟩ : ∃ front last, word a = front ++ [last] :=
    ⟨_, _, (List.dropLast_append_getLast (hw.ne_nil a)).symm⟩
  have hmax := hw.le_max a
  -- a word in front would begin the word of `a`
  have hnone : ∀ p, p ≠ [] → p <+: front → lookup ([] ++ p) = none := by
    intro p _ hp
    have hlen := hp.length_le
    have hpmax : p.length ≤ max := by
      rw [hsplit, List.length_append] at hmax
      omega
    refine Option.eq_none_iff_forall_ne_some.mpr fun c hc => ?_
    rw [List.nil_append, hw.lookup_iff p c hpmax] at hc
    have hbegin : word c <+: word a := by
      rw [hc, hsplit]
      exact hp.trans (List.prefix_append front [last])
    rw [hw.prefixFree c a hbegin, hsplit] at hc
    have := congrArg List.length hc
    rw [List.length_append, List.length_singleton] at this
    omega
  have hfront := @read_waits α lookup max ⟨out, []⟩ front
    (by rw [hsplit, List.length_append] at hmax; exact Nat.le_of_add_right_le hmax) hnone
  have hlook : lookup (front ++ [last]) = some a := by
    rw [hw.lookup_iff _ _ (by rw [← hsplit]; exact hmax), hsplit]
  rw [hsplit, List.foldlM_append, hfront]
  rw [hsplit] at hmax
  simp only [List.nil_append, Option.bind_eq_bind, Option.bind_some, List.foldlM_cons,
    List.foldlM_nil, Reading.next, if_neg (Nat.not_lt.mpr hmax), hlook]
  rfl

theorem read_words (hw : Reads word lookup max) (out s : List α) :
    (s.flatMap word).foldlM (Reading.next lookup max) ⟨out, []⟩ = some ⟨out ++ s, []⟩ := by
  induction s generalizing out with
  | nil => simp
  | cons a s ih =>
    rw [List.flatMap_cons, List.foldlM_append, read_word hw]
    show (s.flatMap word).foldlM _ _ = _
    rw [ih, List.append_assoc, List.singleton_append]

end RustCrash.Lib.PrefixCode
