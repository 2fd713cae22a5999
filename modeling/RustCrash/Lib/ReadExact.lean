import RustCrash.Lib.Staged

/-
  `read_exact`: a given number of bytes off a transport, over as many pieces and pauses as it
  takes. How the bytes arrive makes no difference (`readExact_enough`, `readExact_short`).

  And a reader at the front of some bytes, which gives what it read and how many bytes it took:
  `ReadsFront read W` says that it takes exactly the words of a format `W`, whatever stands behind
  them.
-/

namespace RustCrash.Lib

inductive Exact where
  | done (bs : Bytes) (rest : List Arrival)
  /-- The transport brings nothing more. -/
  | waiting
  /-- It has ended. -/
  | eof

def Exact.behind (bs : Bytes) : Exact → Exact
  | done more rest => .done (bs ++ more) rest
  | waiting => .waiting
  | eof => .eof

def readExact (n : Nat) (script : List Arrival) : Exact :=
  if n = 0 then .done [] script
  else
    match script with
    | [] => .waiting
    | .pending :: script => readExact n script
    | .data bs :: script =>
      if bs = [] then .eof
      else if n < bs.length then .done (bs.take n) (.data (bs.drop n) :: script)
      else (readExact (n - bs.length) script).behind bs
termination_by script.length

attribute [grind =] readExact.eq_def

theorem readExact_zero (script : List Arrival) : readExact 0 script = .done [] script := by
  rw [readExact.eq_def]
  exact if_pos rfl

theorem length_readExact {n : Nat} {script rest : List Arrival} {bs : Bytes}
    (h : readExact n script = .done bs rest) : bs.length = n := by
  induction script generalizing n bs with
  | nil =>
    rw [readExact.eq_def] at h
    split_ifs at h with hn
    cases h
    exact hn.symm
  | cons a script ih =>
    rw [readExact.eq_def] at h
    by_cases hn : n = 0
    · rw [if_pos hn] at h
      cases h
      exact hn.symm
    · rw [if_neg hn] at h
      cases a with
      | pending => exact ih h
      | data bs' =>
        dsimp only at h
        split_ifs at h with hnil hlt
        · cases h
          rw [List.length_take]
          omega
        · generalize hmore : readExact (n - bs'.length) script = more at h
          cases more with
          | waiting => cases h
          | eof => cases h
          | done bs'' rest' =>
            cases h
            rw [List.length_append, ih hmore]
            omega

theorem readExact_enough {n : Nat} {script : List Arrival} (hend : Endless script)
    (hn : n ≤ (arrived script).length) :
    ∃ rest, readExact n script = .done ((arrived script).take n) rest ∧
      arrived rest = (arrived script).drop n ∧ Endless rest := by
  by_cases h0 : n = 0
  · subst h0
    exact ⟨script, readExact_zero script, rfl, hend⟩
  induction script generalizing n with
  | nil => exact absurd (Nat.le_zero.mp hn) h0
  | cons a script ih =>
    rw [readExact.eq_def, if_neg h0]
    cases a with
    | pending => exact ih hend.tail hn h0
    | data bs =>
      have hbs : bs ≠ [] := by
        rintro rfl
        exact hend List.mem_cons_self
      rw [arrived_cons, Arrival.bytes, List.length_append] at hn
      rw [arrived_cons, Arrival.bytes]
      dsimp only
      rw [if_neg hbs]
      by_cases hlt : n < bs.length
      · rw [if_pos hlt, List.take_append_of_le_length (by omega),
          List.drop_append_of_le_length (by omega)]
        refine ⟨_, rfl, by rw [arrived_cons, Arrival.bytes], fun hmem => ?_⟩
        rcases List.mem_cons.mp hmem with heq | hmem
        · rw [Arrival.data.injEq] at heq
          have hlen := congrArg List.length heq
          rw [List.length_nil, List.length_drop] at hlen
          omega
        · exact hend.tail hmem
      · rw [if_neg hlt]
        have hle : bs.length ≤ n := Nat.le_of_not_lt hlt
        rw [List.take_append, List.take_of_length_le hle, List.drop_append,
          List.drop_of_length_le hle, List.nil_append]
        by_cases hrest : n - bs.length = 0
        · refine ⟨script, ?_, ?_, hend.tail⟩
          · rw [hrest, readExact_zero, List.take_zero]
            rfl
          · rw [hrest, List.drop_zero]
        · obtain ⟨rest, hread, harrived, hend'⟩ := ih hend.tail (by omega) hrest
          refine ⟨rest, ?_, harrived, hend'⟩
          rw [hread]
          rfl

/-- What comes first is read, and the rest is still to come. -/
theorem readExact_front {bs more : Bytes} {script : List Arrival} (hend : Endless script)
    (h : arrived script = bs ++ more) :
    ∃ rest, readExact bs.length script = .done bs rest ∧ arrived rest = more ∧ Endless rest := by
  have hn : bs.length ≤ (arrived script).length := by
    rw [h, List.length_append]
    exact Nat.le_add_right _ _
  obtain ⟨rest, hread, hrest, hend'⟩ := readExact_enough hend hn
  rw [h, List.take_left] at hread
  rw [h, List.drop_left] at hrest
  exact ⟨rest, hread, hrest, hend'⟩

theorem readExact_short {n : Nat} {script : List Arrival} (hend : Endless script)
    (hn : (arrived script).length < n) : readExact n script = .waiting := by
  induction script generalizing n with
  | nil =>
    rw [readExact.eq_def, if_neg (by omega)]
  | cons a script ih =>
    rw [readExact.eq_def, if_neg (by omega)]
    cases a with
    | pending => exact ih hend.tail hn
    | data bs =>
      have hbs : bs ≠ [] := by
        rintro rfl
        exact hend List.mem_cons_self
      rw [arrived_cons, Arrival.bytes, List.length_append] at hn
      dsimp only
      rw [if_neg hbs, if_neg (by omega), ih hend.tail (by omega)]
      rfl

/-! ## In a reader

The errors of a reader are any type: `waiting` is for a transport that brings nothing more and
`eof` for one that has ended. -/

section Reader

variable {ε : Type} (waiting eof : ε)

def readExactOr (n : Nat) (script : List Arrival) : Except ε (Bytes × List Arrival) :=
  match readExact n script with
  | .done bs rest => .ok (bs, rest)
  | .waiting => .error waiting
  | .eof => .error eof

theorem readExactOr_front {bs more : Bytes} {script : List Arrival} (hend : Endless script)
    (h : arrived script = bs ++ more) :
    ∃ rest, readExactOr waiting eof bs.length script = .ok (bs, rest) ∧ arrived rest = more ∧
      Endless rest := by
  obtain ⟨rest, hread, hrest, hend'⟩ := readExact_front hend h
  unfold readExactOr
  rw [hread]
  exact ⟨rest, rfl, hrest, hend'⟩

end Reader

/-! ## At the front of some bytes -/

section

variable {E α : Type}

def ReadsFront (read : Bytes → Except E (α × Nat)) (W : Bytes → α → Prop) : Prop :=
  ∀ bs a n, read bs = .ok (a, n) ↔ ∃ w rest, bs = w ++ rest ∧ W w a ∧ n = w.length

namespace ReadsFront

variable {read : Bytes → Except E (α × Nat)} {W : Bytes → α → Prop}

theorem append (h : ReadsFront read W) {w : Bytes} {a : α} (hw : W w a) (rest : Bytes) :
    read (w ++ rest) = .ok (a, w.length) := (h _ _ _).mpr ⟨w, rest, rfl, hw, rfl⟩

/-- What is taken is a word. -/
theorem taken (h : ReadsFront read W) {bs : Bytes} {a : α} {n : Nat} (hread : read bs = .ok (a, n)) :
    n ≤ bs.length ∧ W (bs.take n) a := by
  obtain ⟨w, rest, rfl, hw, rfl⟩ := (h _ _ _).mp hread
  rw [List.take_left, List.length_append]
  exact ⟨Nat.le_add_right _ _, hw⟩

/-- Bytes without a word in front are rejected. -/
theorem rejected (h : ReadsFront read W) {p : Bytes} (hp : ∀ v a, W v a → ¬ v <+: p) :
    ∃ e, read p = .error e := by
  cases hread : read p with
  | error e => exact ⟨e, rfl⟩
  | ok x =>
    obtain ⟨w, rest, hsplit, hw, -⟩ := (h p x.1 x.2).mp hread
    exact absurd ⟨rest, hsplit.symm⟩ (hp w x.1 hw)

end ReadsFront

end

end RustCrash.Lib
