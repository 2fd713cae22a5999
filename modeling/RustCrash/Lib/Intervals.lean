import Mathlib.Data.Char
import Mathlib.Data.List.Lex
import Mathlib.Data.List.Sort
import Mathlib.Order.Interval.Set.Basic
import Mathlib.Tactic

/-
  Finite unions of intervals of natural numbers. Coalescing intervals sorted by their
  lower ends (`absorb`) keeps their union and leaves a gap between any two. In a separated
  list the intervals are the maximal ones, so whether some end lies in a block can be read
  off the union alone (`ends_outside_iff`).
-/

namespace RustCrash.Lib.Intervals

/-- A nonempty interval with both ends. -/
@[ext] structure Interval where
  lo : Nat
  hi : Nat
  le : lo ≤ hi
  deriving DecidableEq

def Interval.toSet (i : Interval) : Set Nat := Set.Icc i.lo i.hi

def union (is : List Interval) : Set Nat := {x | ∃ i ∈ is, x ∈ i.toSet}

/-- In order, with at least one number between two intervals. -/
def Separated (is : List Interval) : Prop := is.Pairwise fun i j => i.hi + 1 < j.lo

def SortedByLo (is : List Interval) : Prop := is.Pairwise fun i j => i.lo ≤ j.lo

/-- The interval with the upper end raised to that of another. -/
def Interval.extend (i j : Interval) : Interval :=
  ⟨i.lo, max i.hi j.hi, Nat.le_trans i.le (Nat.le_max_left _ _)⟩

/-- Coalesce intervals sorted by their lower ends, of which `last` comes first. -/
def absorb : Interval → List Interval → List Interval
  | last, [] => [last]
  | last, i :: is => if i.lo ≤ last.hi + 1 then absorb (last.extend i) is else last :: absorb i is

def coalesce : List Interval → List Interval
  | [] => []
  | i :: is => absorb i is

variable {i j : Interval} {is : List Interval}

theorem coalesce_touch (h : j.lo ≤ i.hi + 1) (is : List Interval) :
    coalesce (i :: j :: is) = coalesce (i.extend j :: is) := if_pos h

theorem coalesce_gap (h : ¬ j.lo ≤ i.hi + 1) (is : List Interval) :
    coalesce (i :: j :: is) = i :: coalesce (j :: is) := if_neg h

theorem mem_toSet {i : Interval} {x : Nat} : x ∈ i.toSet ↔ i.lo ≤ x ∧ x ≤ i.hi := Iff.rfl

theorem mem_union {x : Nat} :
    x ∈ union is ↔ ∃ i ∈ is, i.lo ≤ x ∧ x ≤ i.hi := Iff.rfl

theorem union_cons (i : Interval) (is : List Interval) : union (i :: is) = i.toSet ∪ union is := by
  ext x
  simp [mem_union, mem_toSet]

/-- Two sorted intervals that overlap or touch are together their extension. -/
theorem toSet_extend (hlo : i.lo ≤ j.lo) (htouch : j.lo ≤ i.hi + 1) :
    (i.extend j).toSet = i.toSet ∪ j.toSet := by
  ext x
  have hi := i.le
  have hj := j.le
  simp only [Set.mem_union, mem_toSet, Interval.extend]
  omega

theorem sortedByLo_extend {last i : Interval} (h : SortedByLo (last :: i :: is)) :
    SortedByLo (last.extend i :: is) := by
  obtain ⟨hlast, hrest⟩ := List.pairwise_cons.mp h
  exact List.pairwise_cons.mpr
    ⟨fun j hj => hlast j (List.mem_cons_of_mem _ hj), (List.pairwise_cons.mp hrest).2⟩

theorem union_absorb {last : Interval} (h : SortedByLo (last :: is)) :
    union (absorb last is) = union (last :: is) := by
  induction is generalizing last with
  | nil => rfl
  | cons i is ih =>
    obtain ⟨hlast, hrest⟩ := List.pairwise_cons.mp h
    unfold absorb
    split_ifs with htouch
    · rw [ih (sortedByLo_extend h), union_cons, toSet_extend (hlast i List.mem_cons_self) htouch, union_cons,
        union_cons, Set.union_assoc]
    · rw [union_cons, ih hrest, ← union_cons]

theorem lo_le_of_mem_absorb {last : Interval} (h : SortedByLo (last :: is)) {i : Interval}
    (hi : i ∈ absorb last is) : last.lo ≤ i.lo := by
  induction is generalizing last with
  | nil =>
    rw [List.mem_singleton.mp hi]
  | cons j is ih =>
    obtain ⟨hlast, hrest⟩ := List.pairwise_cons.mp h
    unfold absorb at hi
    split_ifs at hi with htouch
    · have hle : (last.extend j).lo ≤ i.lo := ih (sortedByLo_extend h) hi
      exact hle
    · rcases List.mem_cons.mp hi with rfl | hi
      · exact Nat.le_refl _
      · exact Nat.le_trans (hlast j List.mem_cons_self) (ih hrest hi)

theorem separated_absorb {last : Interval} (h : SortedByLo (last :: is)) :
    Separated (absorb last is) := by
  induction is generalizing last with
  | nil => exact List.pairwise_singleton _ _
  | cons i is ih =>
    obtain ⟨hlast, hrest⟩ := List.pairwise_cons.mp h
    unfold absorb
    split_ifs with htouch
    · exact ih (sortedByLo_extend h)
    · refine List.pairwise_cons.mpr ⟨?_, ih hrest⟩
      intro j hj
      have := lo_le_of_mem_absorb hrest hj
      omega

theorem union_coalesce (h : SortedByLo is) : union (coalesce is) = union is := by
  cases is with
  | nil => rfl
  | cons i is => exact union_absorb h

theorem separated_coalesce (h : SortedByLo is) : Separated (coalesce is) := by
  cases is with
  | nil => exact List.Pairwise.nil
  | cons i is => exact separated_absorb h

/-! ## Maximal intervals -/

def Apart (i j : Interval) : Prop := i.hi + 1 < j.lo ∨ j.hi + 1 < i.lo

instance : Std.Symm Apart := ⟨fun _ _ h => Or.symm h⟩

theorem Separated.apart (h : Separated is) (hi : i ∈ is) (hj : j ∈ is) (hne : i ≠ j) :
    Apart i j := by
  have hall : is.Pairwise Apart := h.imp fun hlt => Or.inl hlt
  exact hall.forall hi hj hne

/-- Intervals of a separated list with equal or neighbouring elements are one. -/
theorem Separated.eq_of_touch (h : Separated is) (hi : i ∈ is) (hj : j ∈ is) {x y : Nat}
    (hx : x ∈ i.toSet) (hy : y ∈ j.toSet) (hxy : x ≤ y + 1) (hyx : y ≤ x + 1) : i = j := by
  by_contra hne
  rw [mem_toSet] at hx hy
  have hgap := h.apart hi hj hne
  unfold Apart at hgap
  omega

/-- No end of a separated list lies in a block exactly if the union misses the block, or
    contains it with a neighbour on either side. -/
theorem ends_outside_iff (h : Separated is) {a b : Nat} (ha : 0 < a) :
    (∀ i ∈ is, ¬ (a ≤ i.lo ∧ i.lo ≤ b) ∧ ¬ (a ≤ i.hi ∧ i.hi ≤ b)) ↔
      (∀ x, a ≤ x → x ≤ b → x ∉ union is) ∨ ∀ x, a - 1 ≤ x → x ≤ b + 1 → x ∈ union is := by
  constructor
  · intro hends
    by_cases hmiss : ∀ x, a ≤ x → x ≤ b → x ∉ union is
    · exact Or.inl hmiss
    · right
      simp only [not_forall, not_not] at hmiss
      obtain ⟨x, hax, hxb, i, hi, hx⟩ := hmiss
      obtain ⟨hlo, hhi⟩ := hends i hi
      rw [mem_toSet] at hx
      intro y hay hyb
      exact ⟨i, hi, by rw [mem_toSet]; omega⟩
  · rintro (hmiss | hcover) i hi
    · have hle := i.le
      exact ⟨fun hlo => hmiss i.lo hlo.1 hlo.2 ⟨i, hi, Nat.le_refl _, hle⟩,
        fun hhi => hmiss i.hi hhi.1 hhi.2 ⟨i, hi, hle, Nat.le_refl _⟩⟩
    · have hle := i.le
      constructor
      · intro hlo
        obtain ⟨j, hj, hx⟩ := hcover (i.lo - 1) (by omega) (by omega)
        have hij := h.eq_of_touch hi hj (x := i.lo) ⟨Nat.le_refl _, hle⟩ hx (by omega) (by omega)
        rw [← hij, mem_toSet] at hx
        omega
      · intro hhi
        obtain ⟨j, hj, hx⟩ := hcover (i.hi + 1) (by omega) (by omega)
        have hij := h.eq_of_touch hi hj (x := i.hi) ⟨hle, Nat.le_refl _⟩ hx (by omega) (by omega)
        rw [← hij, mem_toSet] at hx
        omega

end RustCrash.Lib.Intervals

namespace RustCrash.Lib

variable {α : Type} [DecidableEq α]

/-- `Vec::dedup`: drop an element equal to the one before it. -/
def dedup : List α → List α
  | a :: b :: as => if a = b then dedup (b :: as) else a :: dedup (b :: as)
  | as => as

attribute [local simp] dedup
attribute [elab_as_elim] dedup.induct

theorem mem_dedup {as : List α} {x : α} : x ∈ dedup as ↔ x ∈ as := by
  induction as using dedup.induct with
  | case1 a as ih =>
    rw [dedup, if_pos rfl, ih]
    simp
  | case2 a b as hne ih =>
    rw [dedup, if_neg hne, List.mem_cons, ih, List.mem_cons (a := x) (b := a)]
  | case3 as h => rw [dedup.eq_2 _ h]

theorem dedup_sublist (as : List α) : (dedup as).Sublist as := by
  induction as using dedup.induct with
  | case1 a as ih =>
    rw [dedup, if_pos rfl]
    exact ih.cons a
  | case2 a b as hne ih =>
    rw [dedup, if_neg hne]
    exact ih.cons_cons a
  | case3 as h => rw [dedup.eq_2 _ h]

/-- `sort` and `dedup`. -/
def sortDedup [LE α] [DecidableLE α] (as : List α) : List α := dedup (as.insertionSort (· ≤ ·))

theorem mem_sortDedup [LE α] [DecidableLE α] {as : List α} {x : α} : x ∈ sortDedup as ↔ x ∈ as := by
  unfold sortDedup
  rw [mem_dedup, List.mem_insertionSort]

theorem sortDedup_singleton [LE α] [DecidableLE α] (a : α) : sortDedup [a] = [a] := by
  simp [sortDedup, dedup]

theorem nodup_of_pairwise_lt {β : Type} [LE β] [LT β] [Std.IsPreorder β] [Std.LawfulOrderLT β]
    {as : List β} (h : as.Pairwise (· < ·)) : as.Nodup :=
  h.imp fun {a b} hlt => by
    rintro rfl
    exact Std.lt_irrefl hlt

section

variable [LE α] [LT α] [Std.IsLinearOrder α] [Std.LawfulOrderLT α]

theorem pairwise_dedup {as : List α} (h : as.Pairwise (· ≤ ·)) : (dedup as).Pairwise (· < ·) := by
  induction as using dedup.induct with
  | case1 a as ih =>
    rw [dedup, if_pos rfl]
    exact ih (List.pairwise_cons.mp h).2
  | case2 a b as hne ih =>
    rw [dedup, if_neg hne]
    obtain ⟨hle, hrest⟩ := List.pairwise_cons.mp h
    refine List.pairwise_cons.mpr ⟨?_, ih hrest⟩
    intro x hx
    rw [mem_dedup] at hx
    have hab : a < b := Std.lt_of_le_of_ne (hle b List.mem_cons_self) hne
    rcases List.mem_cons.mp hx with rfl | hx
    · exact hab
    · exact Std.lt_of_lt_of_le hab ((List.pairwise_cons.mp hrest).1 x hx)
  | case3 as h' =>
    rw [dedup.eq_2 _ h']
    cases as with
    | nil => exact List.Pairwise.nil
    | cons a as =>
      cases as with
      | nil => exact List.pairwise_singleton _ _
      | cons b as => exact absurd rfl (h' a b as)

theorem pairwise_sortDedup [DecidableLE α] (as : List α) : (sortDedup as).Pairwise (· < ·) := by
  have : IsTrans α (· ≤ ·) := ⟨fun _ _ _ => Std.le_trans⟩
  have : Std.Total (· ≤ · : α → α → Prop) := ⟨fun _ _ => Std.le_total⟩
  exact pairwise_dedup (List.pairwise_insertionSort (· ≤ ·) as)

end

end RustCrash.Lib
