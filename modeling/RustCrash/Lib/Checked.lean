import RustCrash.Lib.Bytes

/-
  Machine operations that can panic: sums, differences and shifts on an unsigned type, and
  reads and slices of a byte string. Each gives `none` where the machine operation
  overflows or leaves its bounds, and its lemma says when it does not.

  A step stops early with an error that the caller sees, or with a panic (`Stop`). A chain panics
  where one of its steps does.
-/

namespace RustCrash.Lib

/-- `a - b` on an unsigned type. -/
def subChecked (a b : Nat) : Option Nat := if b ≤ a then some (a - b) else none

/-- `a + b` on a `w`-bit type. -/
def addChecked (w a b : Nat) : Option Nat := if a + b < 2 ^ w then some (a + b) else none

/-- `a << k` on a `w`-bit type. -/
def shlChecked (w a k : Nat) : Option Nat := if k < w then some (a * 2 ^ k % 2 ^ w) else none

/-- `raw[a..b]`. -/
def sliceChecked (raw : Bytes) (a b : Nat) : Option Bytes :=
  if a ≤ b ∧ b ≤ raw.length then some ((raw.drop a).take (b - a)) else none

theorem subChecked_of_le {a b : Nat} (h : b ≤ a) : subChecked a b = some (a - b) := if_pos h

theorem addChecked_of_lt {w a b : Nat} (h : a + b < 2 ^ w) : addChecked w a b = some (a + b) :=
  if_pos h

theorem addChecked_of_le {w a b : Nat} (h : 2 ^ w ≤ a + b) : addChecked w a b = none :=
  if_neg (Nat.not_lt.mpr h)

theorem shlChecked_one {w k : Nat} (h : k < w) : shlChecked w 1 k = some (2 ^ k) := by
  unfold shlChecked
  rw [if_pos h, Nat.one_mul, Nat.mod_eq_of_lt (Nat.pow_lt_pow_right (by decide) h)]

theorem sliceChecked_of_le {raw : Bytes} {a n : Nat} (h : a + n ≤ raw.length) :
    sliceChecked raw a (a + n) = some ((raw.drop a).take n) := by
  unfold sliceChecked
  rw [if_pos ⟨Nat.le_add_right a n, h⟩, Nat.add_sub_cancel_left]

theorem sliceChecked_of_le_of_le {raw : Bytes} {a b : Nat} (hab : a ≤ b) (hb : b ≤ raw.length) :
    sliceChecked raw a b = some ((raw.drop a).take (b - a)) := if_pos ⟨hab, hb⟩

/-- `u16::from_be_bytes([raw[i], raw[i + 1]])`. -/
def wordChecked (raw : Bytes) (i : Nat) : Option UInt16 := do
  let hi ← raw[i]?
  let lo ← raw[i + 1]?
  return ofBE16 [hi, lo]

theorem getElem?_of_getD {raw : Bytes} {i : Nat} (h : i < raw.length) :
    raw[i]? = some (raw.getD i 0) := by
  rw [List.getD_eq_getElem?_getD, List.getElem?_eq_getElem h, Option.getD_some]

theorem wordChecked_of_lt {raw : Bytes} {i : Nat} (h : i + 1 < raw.length) :
    wordChecked raw i = some (ofBE16 ((raw.drop i).take 2)) := by
  have htwo : (raw.drop i).take 2 = [raw[i], raw[i + 1]] := by
    rw [List.drop_eq_getElem_cons (by omega), List.drop_eq_getElem_cons h]
    rfl
  unfold wordChecked
  rw [List.getElem?_eq_getElem (by omega), List.getElem?_eq_getElem h, htwo]
  rfl

/-! ## Steps that stop early -/

inductive Stop (ε : Type) where
  | panic
  | err (e : ε)
  deriving DecidableEq

namespace Stop

variable {ε A B : Type}

/-- `?` on a result that cannot panic. -/
def propagate (r : Except ε A) : Except (Stop ε) A := r.mapError .err

@[simp] theorem propagate_ok (a : A) : propagate (.ok a : Except ε A) = .ok a := rfl

theorem propagate_eq_ok {r : Except ε A} {a : A} : propagate r = .ok a ↔ r = .ok a := by
  cases r <;> simp [propagate, Except.mapError]

theorem propagate_ne_panic (r : Except ε A) : propagate r ≠ .error .panic := by
  cases r <;> simp [propagate, Except.mapError]

theorem bind_ne_panic {x : Except (Stop ε) A} {f : A → Except (Stop ε) B}
    (hx : x ≠ .error .panic) (hf : ∀ a, x = .ok a → f a ≠ .error .panic) :
    (x >>= f) ≠ .error .panic := by
  cases x with
  | ok a => exact hf a rfl
  | error e => simpa [bind, Except.bind] using hx

end Stop

end RustCrash.Lib
