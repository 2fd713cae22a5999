import Mathlib.Tactic

/-
  A resumable parser: input that has arrived is taken off the front of a buffer, one item
  after the other, until there is too little of it; what is left waits for the next read.

  An item is read the same way whatever comes behind it (`stable`). So the items do not depend
  on how the input is cut into reads: they are those of one pass over all of it (`feedAll_eq`).
-/

namespace RustCrash.Lib

/-- `step s buf` takes one item off `buf`, or needs more input. A state `S` is kept between the
    items, and each gives some outputs. -/
structure Chunked (S I O : Type) where
  step : S → List I → Option (S × List I × List O)
  /-- What is left to do without more input. -/
  size : S → List I → Nat
  shrinks : ∀ {s buf t rest out}, step s buf = some (t, rest, out) → size t rest < size s buf
  stable : ∀ {s buf t rest out} (more : List I), step s buf = some (t, rest, out) →
    step s (buf ++ more) = some (t, rest ++ more, out)

namespace Chunked

variable {S I O : Type} (p : Chunked S I O)

def drainFor : Nat → S → List I → S × List I × List O
  | 0, s, buf => (s, buf, [])
  | n + 1, s, buf =>
    match p.step s buf with
    | none => (s, buf, [])
    | some (t, rest, out) =>
      let d := drainFor n t rest
      (d.1, d.2.1, out ++ d.2.2)

/-- Every item that has arrived. -/
def drain (s : S) (buf : List I) : S × List I × List O := p.drainFor (p.size s buf + 1) s buf

/-- One read: what arrives is put behind what was left. -/
def feed (st : S × List I × List O) (chunk : List I) : S × List I × List O :=
  let d := p.drain st.1 (st.2.1 ++ chunk)
  (d.1, d.2.1, st.2.2 ++ d.2.2)

def feedAll (s : S) (chunks : List (List I)) : S × List I × List O :=
  chunks.foldl p.feed (s, [], [])

variable {p}

/-- More rounds than items change nothing. -/
theorem drainFor_eq {s : S} {buf : List I} {n m : Nat} (hn : p.size s buf < n)
    (hm : p.size s buf < m) : p.drainFor n s buf = p.drainFor m s buf := by
  induction n generalizing m s buf with
  | zero => omega
  | succ n ih =>
    obtain ⟨m, rfl⟩ : ∃ k, m = k + 1 := ⟨m - 1, by omega⟩
    unfold drainFor
    cases h : p.step s buf with
    | none => rfl
    | some x =>
      obtain ⟨t, rest, out⟩ := x
      have hlt := p.shrinks h
      dsimp only
      rw [ih (by omega) (by omega : p.size t rest < m)]

theorem drain_none {s : S} {buf : List I} (h : p.step s buf = none) :
    p.drain s buf = (s, buf, []) := by
  unfold drain drainFor
  rw [h]

theorem drain_some {s t : S} {buf rest : List I} {out : List O}
    (h : p.step s buf = some (t, rest, out)) :
    p.drain s buf = ((p.drain t rest).1, (p.drain t rest).2.1, out ++ (p.drain t rest).2.2) := by
  have hlt := p.shrinks h
  unfold drain
  rw [drainFor, h]
  dsimp only
  rw [drainFor_eq (by omega) (Nat.lt_succ_self (p.size t rest))]

/-- What follows the items, item by item: the way to prove something of every drain. -/
theorem drain_induct {motive : S → List I → Prop}
    (hnone : ∀ s buf, p.step s buf = none → motive s buf)
    (hsome : ∀ s buf t rest out, p.step s buf = some (t, rest, out) → motive t rest →
      motive s buf) (s : S) (buf : List I) : motive s buf := by
  induction hk : p.size s buf using Nat.strong_induction_on generalizing s buf with
  | _ k ih =>
    cases h : p.step s buf with
    | none => exact hnone s buf h
    | some x =>
      obtain ⟨t, rest, out⟩ := x
      have hlt := p.shrinks h
      exact hsome s buf t rest out h (ih _ (by omega) t rest rfl)

/-- What a drain leaves is the end of what it was given. -/
theorem drain_suffix (hstep : ∀ s buf t rest out, p.step s buf = some (t, rest, out) → rest <:+ buf)
    (s : S) (buf : List I) : (p.drain s buf).2.1 <:+ buf := by
  induction s, buf using drain_induct (p := p) with
  | hnone s buf h => simp [drain_none h]
  | hsome s buf t rest out h ih =>
    rw [drain_some h]
    exact ih.trans (hstep s buf t rest out h)

/-- What every item keeps, a drain keeps. -/
theorem drain_keeps {P : S → Prop}
    (hstep : ∀ s buf t rest out, p.step s buf = some (t, rest, out) → P s → P t) {s : S}
    (hs : P s) (buf : List I) : P (p.drain s buf).1 := by
  induction s, buf using drain_induct (p := p) with
  | hnone s buf h =>
    rw [drain_none h]
    exact hs
  | hsome s buf t rest out h ih =>
    rw [drain_some h]
    exact ih (hstep s buf t rest out h hs)

/-- Nothing more can be taken off what a drain leaves. -/
theorem drain_idle (s : S) (buf : List I) :
    p.step (p.drain s buf).1 (p.drain s buf).2.1 = none := by
  induction s, buf using drain_induct (p := p) with
  | hnone s buf h =>
    rw [drain_none h]
    exact h
  | hsome s buf t rest out h ih =>
    rw [drain_some h]
    exact ih

/-- Input that comes in two parts. -/
theorem drain_append (s : S) (buf more : List I) :
    p.drain s (buf ++ more) =
      ((p.drain (p.drain s buf).1 ((p.drain s buf).2.1 ++ more)).1,
        (p.drain (p.drain s buf).1 ((p.drain s buf).2.1 ++ more)).2.1,
        (p.drain s buf).2.2 ++ (p.drain (p.drain s buf).1 ((p.drain s buf).2.1 ++ more)).2.2) := by
  induction s, buf using drain_induct (p := p) with
  | hnone s buf h =>
    rw [drain_none h]
    rfl
  | hsome s buf t rest out h ih =>
    rw [drain_some h, drain_some (p.stable more h), ih]
    dsimp only
    rw [List.append_assoc]

theorem foldl_feed (st : S × List I × List O) (hidle : p.step st.1 st.2.1 = none)
    (chunks : List (List I)) :
    chunks.foldl p.feed st =
      ((p.drain st.1 (st.2.1 ++ chunks.flatten)).1, (p.drain st.1 (st.2.1 ++ chunks.flatten)).2.1,
        st.2.2 ++ (p.drain st.1 (st.2.1 ++ chunks.flatten)).2.2) := by
  induction chunks generalizing st with
  | nil =>
    rw [List.flatten_nil, List.append_nil, drain_none hidle, List.append_nil]
    rfl
  | cons chunk chunks ih =>
    have hidle' : p.step (p.feed st chunk).1 (p.feed st chunk).2.1 = none := drain_idle _ _
    rw [List.foldl_cons, ih _ hidle', List.flatten_cons, ← List.append_assoc,
      drain_append st.1 (st.2.1 ++ chunk)]
    unfold feed
    dsimp only
    rw [List.append_assoc]

/-- The cuts do not matter. -/
theorem feedAll_eq {s : S} (hidle : p.step s [] = none) (chunks : List (List I)) :
    p.feedAll s chunks = p.drain s chunks.flatten := by
  unfold feedAll
  rw [foldl_feed _ hidle, List.nil_append, List.nil_append]

end Chunked

end RustCrash.Lib
