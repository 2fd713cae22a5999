import Mathlib.Logic.Relation
import Mathlib.Tactic

/-
  A deterministic machine: `step s a` is the state after action `a`. `states` lists every
  state of a run and `steps` every pair of a state and the action taken there.

  The two rules reduce a statement about a whole run to one about a single step. When an
  invariant survives a step exactly if the step is good, it holds throughout a run exactly
  if every step of the run is good (`inv_iff`). When good steps keep it, a run of good
  steps keeps it (`inv_of_good`).
-/

namespace RustCrash.Lib.Machine

variable {S A : Type}

def states (step : S → A → S) : S → List A → List S
  | s, [] => [s]
  | s, a :: as => s :: states step (step s a) as

def steps (step : S → A → S) : S → List A → List (S × A)
  | _, [] => []
  | s, a :: as => (s, a) :: steps step (step s a) as

variable {step : S → A → S}

theorem start_mem_states (s : S) (as : List A) : s ∈ states step s as := by
  cases as <;> simp [states]

theorem foldl_mem_states (s : S) (as : List A) : as.foldl step s ∈ states step s as := by
  induction as generalizing s with
  | nil => simp [states]
  | cons a as ih => exact List.mem_cons_of_mem _ (ih (step s a))

theorem step_mem_states (s : S) (a : A) : step s a ∈ states step s [a] :=
  List.mem_cons_of_mem _ (List.mem_singleton_self _)

variable {s : S} {as : List A}

theorem action_mem {p : S × A} (hp : p ∈ steps step s as) : p.2 ∈ as := by
  induction as generalizing s with
  | nil => cases hp
  | cons a as ih =>
    rcases List.mem_cons.mp hp with rfl | hp
    · exact List.mem_cons_self
    · exact List.mem_cons_of_mem _ (ih hp)

theorem steps_mem_states {p : S × A} (hp : p ∈ steps step s as) : p.1 ∈ states step s as := by
  induction as generalizing s with
  | nil => cases hp
  | cons a as ih =>
    rcases List.mem_cons.mp hp with rfl | hp
    · exact start_mem_states s (a :: as)
    · exact List.mem_cons_of_mem _ (ih hp)

theorem next_mem_states {p : S × A} (hp : p ∈ steps step s as) :
    step p.1 p.2 ∈ states step s as := by
  induction as generalizing s with
  | nil => cases hp
  | cons a as ih =>
    rcases List.mem_cons.mp hp with rfl | hp
    · exact List.mem_cons_of_mem _ (start_mem_states (step s a) as)
    · exact List.mem_cons_of_mem _ (ih hp)

theorem inv_of_good (Inv : S → Prop) (Good : S → A → Prop)
    (hstep : ∀ s a, Inv s → Good s a → Inv (step s a)) (hs : Inv s)
    (hg : ∀ p ∈ steps step s as, Good p.1 p.2) : ∀ t ∈ states step s as, Inv t := by
  induction as generalizing s with
  | nil =>
    intro t ht
    rw [List.mem_singleton.mp ht]
    exact hs
  | cons a as ih =>
    intro t ht
    have hhead : Good s a := hg (s, a) List.mem_cons_self
    rcases List.mem_cons.mp ht with rfl | ht
    · exact hs
    · exact ih (hstep s a hs hhead) (fun p hp => hg p (List.mem_cons_of_mem _ hp)) t ht

theorem inv_iff (Inv : S → Prop) (Good : S → A → Prop)
    (hstep : ∀ s a, Inv s → (Inv (step s a) ↔ Good s a)) (hs : Inv s) (as : List A) :
    (∀ t ∈ states step s as, Inv t) ↔ ∀ p ∈ steps step s as, Good p.1 p.2 := by
  refine ⟨?_, inv_of_good Inv Good (fun s a h hg => (hstep s a h).mpr hg) hs⟩
  intro hall
  induction as generalizing s with
  | nil => simp [steps]
  | cons a as ih =>
    have hnext : Inv (step s a) :=
      hall _ (List.mem_cons_of_mem _ (start_mem_states (step s a) as))
    intro p hp
    rcases List.mem_cons.mp hp with rfl | hp
    · exact (hstep s a hs).mp hnext
    · exact ih hnext (fun t ht => hall t (List.mem_cons_of_mem _ ht)) p hp

theorem inv_of_step (Inv : S → Prop) (hstep : ∀ s a, Inv s → Inv (step s a)) (hs : Inv s)
    (as : List A) : ∀ t ∈ states step s as, Inv t :=
  inv_of_good Inv (fun _ _ => True) (fun s a h _ => hstep s a h) hs fun _ _ => trivial

/-- `steps_iff` where the invariant lasts as long as the steps are good. -/
theorem steps_iff_of_good (Inv : S → Prop) {P Q : S → A → Prop}
    (hstep : ∀ s a, Inv s → Q s a → Inv (step s a)) (hsame : ∀ s a, Inv s → (P s a ↔ Q s a))
    (hs : Inv s) (as : List A) :
    (∀ x ∈ steps step s as, P x.1 x.2) ↔ ∀ x ∈ steps step s as, Q x.1 x.2 := by
  induction as generalizing s with
  | nil => exact iff_of_true nofun nofun
  | cons a as ih =>
    unfold steps
    rw [List.forall_mem_cons, List.forall_mem_cons, hsame s a hs]
    exact and_congr_right fun hgood => ih (hstep s a hs hgood)

/-- `inv_iff` for runs that the environment keeps to `Assume`. -/
theorem inv_iff_under (Inv : S → Prop) (Assume Good : S → A → Prop)
    (hstep : ∀ s a, Assume s a → Inv s → (Inv (step s a) ↔ Good s a)) (hs : Inv s)
    (ha : ∀ p ∈ steps step s as, Assume p.1 p.2) :
    (∀ t ∈ states step s as, Inv t) ↔ ∀ p ∈ steps step s as, Good p.1 p.2 := by
  constructor
  · intro hall
    induction as generalizing s with
    | nil => simp [steps]
    | cons a as ih =>
      have hnext : Inv (step s a) :=
        hall _ (List.mem_cons_of_mem _ (start_mem_states (step s a) as))
      intro p hp
      rcases List.mem_cons.mp hp with rfl | hp
      · exact (hstep s a (ha _ List.mem_cons_self) hs).mp hnext
      · exact ih hnext (fun p hp => ha p (List.mem_cons_of_mem _ hp))
          (fun t ht => hall t (List.mem_cons_of_mem _ ht)) p hp
  · intro hgood
    exact inv_of_good Inv (fun s a => Assume s a ∧ Good s a)
      (fun s a h hg => (hstep s a hg.1 h).mpr hg.2) hs fun p hp => ⟨ha p hp, hgood p hp⟩

end RustCrash.Lib.Machine

/-! ## Tables of references

A table whose entries refer to other entries: `E a b` says that the entry of `a` refers
to `b`. Following references ends from everywhere if the relation is well founded. Giving
one entry new references keeps that, provided none of them leads back to the entry
(`ends_of_replace`). -/

namespace RustCrash.Lib.RefGraph

variable {K : Type}

/-- Following references ends. -/
def Ends (E : K → K → Prop) : Prop := WellFounded fun b a => E a b

/-- Following references from `a` can reach `b`. -/
def Reaches (E : K → K → Prop) : K → K → Prop := Relation.ReflTransGen E

theorem ends_of_replace {E E' : K → K → Prop} {n : K} (hwf : Ends E)
    (hE : ∀ a b, a ≠ n → E' a b → E a b) (hn : ∀ b, E' n b → ¬ Reaches E b n) : Ends E' := by
  -- entries that do not lead to `n` are as before
  have haway : ∀ m, ¬ Reaches E m n → Acc (fun b a => E' a b) m := by
    intro m
    induction m using hwf.induction with
    | _ m ih =>
      intro hm
      refine ⟨m, fun b hb => ?_⟩
      have hne : m ≠ n := by
        intro he
        rw [he] at hm
        exact hm Relation.ReflTransGen.refl
      have hedge := hE m b hne hb
      exact ih b hedge fun hreach => hm (Relation.ReflTransGen.head hedge hreach)
  have hself : Acc (fun b a => E' a b) n := ⟨n, fun b hb => haway b (hn b hb)⟩
  refine ⟨fun m => ?_⟩
  induction m using hwf.induction with
  | _ m ih =>
    by_cases hne : m = n
    · rw [hne]
      exact hself
    · exact ⟨m, fun b hb => ih b (hE m b hne hb)⟩

end RustCrash.Lib.RefGraph
