import RustCrash.Lib.Str

/-
  The engine's error type (`error.rs`) and `Option::ok_or_else`.
-/

namespace RustCrash

open Lib

inductive Error where
  | config (msg : String)
  | network (msg : String)
  | protocol (msg : String)
  | crypto (msg : String)
  | dns (msg : String)
  | io (msg : String)
  | rejected
  deriving DecidableEq, Repr

/-- `Display`. -/
def Error.display : Error → String
  | config msg => s!"config: {msg}"
  | network msg => s!"network: {msg}"
  | protocol msg => s!"protocol: {msg}"
  | crypto msg => s!"crypto: {msg}"
  | dns msg => s!"dns: {msg}"
  | io msg => s!"io: {msg}"
  | rejected => "connection closed by rule"

abbrev Result (α : Type) := Except Error α

/-- `ok_or_else`. -/
def okOr {α : Type} (o : Option α) (e : Error) : Result α :=
  match o with
  | some a => .ok a
  | none => .error e

@[simp] theorem okOr_some {α : Type} (a : α) (e : Error) : okOr (some a) e = .ok a := rfl

@[simp] theorem okOr_none {α : Type} (e : Error) : okOr (none : Option α) e = .error e := rfl

theorem okOr_eq_ok {α : Type} {o : Option α} {e : Error} {a : α} :
    okOr o e = .ok a ↔ o = some a := by
  cases o <;> simp

/-- `if !c { return Err(e) }`. -/
def ensure (c : Prop) [Decidable c] (e : Error) : Result Unit := if c then .ok () else .error e

theorem ensure_of {c : Prop} [Decidable c] (h : c) (e : Error) : ensure c e = .ok () := if_pos h

theorem ensure_of_not {c : Prop} [Decidable c] (h : ¬ c) (e : Error) : ensure c e = .error e :=
  if_neg h

theorem ensure_eq_ok {c : Prop} [Decidable c] {e : Error} {u : Unit} : ensure c e = .ok u ↔ c := by
  unfold ensure
  split_ifs with h <;> simp [h]

/-- Text in an error message: `{s}`. -/
def txt (s : Str) : String := String.ofList s

@[simp] theorem throw_eq {α : Type} (e : Error) : (throw e : Result α) = .error e := rfl

@[simp] theorem pure_eq {ε α : Type} (a : α) : (pure a : Except ε α) = .ok a := rfl

@[simp] theorem bind_ok {ε α β : Type} (a : α) (f : α → Except ε β) :
    (Except.ok a >>= f) = f a := rfl

@[simp] theorem bind_error {ε α β : Type} (e : ε) (f : α → Except ε β) :
    (Except.error e >>= f) = .error e := rfl

/-- What a chain of fallible steps did when it succeeded. -/
theorem bind_eq_ok {ε α β : Type} {x : Except ε α} {f : α → Except ε β} {b : β} :
    (x >>= f) = .ok b ↔ ∃ a, x = .ok a ∧ f a = .ok b := by
  cases x <;> simp

end RustCrash
