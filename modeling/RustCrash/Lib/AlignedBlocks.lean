import Mathlib.Order.Interval.Set.Basic
import Mathlib.Tactic
import Mathlib.Order.CompletePartialOrder

/-
  Aligned blocks of natural numbers: `2 ^ log` numbers from a multiple of `2 ^ log` on.

  A half-open interval is split greedily by taking, each time, the largest block that starts
  at the left end and fits (`Greedy`). The blocks of a greedy split are in order, disjoint
  and make up the interval, and no list of aligned blocks that makes it up is shorter
  (`Greedy.length_le`).
-/

namespace RustCrash.Lib.AlignedBlocks

/-- `2 ^ log` numbers from a multiple of `2 ^ log` on. -/
structure Block where
  start : Nat
  log : Nat
  aligned : 2 ^ log ∣ start

namespace Block

/-- The first number behind the block. -/
def stop (b : Block) : Nat := b.start + 2 ^ b.log

def toSet (b : Block) : Set Nat := Set.Ico b.start b.stop

theorem mem_toSet {b : Block} {x : Nat} : x ∈ b.toSet ↔ b.start ≤ x ∧ x < b.stop := Iff.rfl

theorem start_lt_stop (b : Block) : b.start < b.stop :=
  Nat.lt_add_of_pos_right (Nat.two_pow_pos b.log)

theorem start_mem (b : Block) : b.start ∈ b.toSet := ⟨Nat.le_refl _, b.start_lt_stop⟩

/-- Between two multiples of a number there is room for it. -/
theorem add_le_of_lt {d m n : Nat} (hm : d ∣ m) (hn : d ∣ n) (h : m < n) : m + d ≤ n := by
  obtain ⟨i, rfl⟩ := hm
  obtain ⟨j, rfl⟩ := hn
  have hij : i < j := Nat.lt_of_mul_lt_mul_left h
  calc d * i + d = d * (i + 1) := by ring
    _ ≤ d * j := Nat.mul_le_mul_left d hij

theorem smaller_nested_or_disjoint {b c : Block} (h : b.log ≤ c.log) :
    b.toSet ⊆ c.toSet ∨ Disjoint b.toSet c.toSet := by
  have hstart : 2 ^ b.log ∣ c.start := Nat.dvd_trans (Nat.pow_dvd_pow 2 h) c.aligned
  have hstop : 2 ^ b.log ∣ c.stop := Nat.dvd_add hstart (Nat.pow_dvd_pow 2 h)
  rcases Nat.lt_or_ge b.start c.start with hlt | hge
  · right
    have hle : b.stop ≤ c.start := add_le_of_lt b.aligned hstart hlt
    rw [Set.disjoint_left]
    intro x hb hc
    rw [mem_toSet] at hb hc
    omega
  rcases Nat.lt_or_ge b.start c.stop with hlt | hge'
  · left
    have hle : b.stop ≤ c.stop := add_le_of_lt b.aligned hstop hlt
    exact Set.Ico_subset_Ico hge hle
  · right
    rw [Set.disjoint_left]
    intro x hb hc
    rw [mem_toSet] at hb hc
    omega

/-- Two aligned blocks are nested or disjoint. -/
theorem nested_or_disjoint (b c : Block) :
    b.toSet ⊆ c.toSet ∨ c.toSet ⊆ b.toSet ∨ Disjoint b.toSet c.toSet := by
  rcases Nat.le_total b.log c.log with h | h
  · rcases smaller_nested_or_disjoint h with hsub | hdis
    · exact Or.inl hsub
    · exact Or.inr (Or.inr hdis)
  · rcases smaller_nested_or_disjoint h with hsub | hdis
    · exact Or.inr (Or.inl hsub)
    · exact Or.inr (Or.inr hdis.symm)

end Block

/-- The numbers in some block of the list. -/
def cover (bs : List Block) : Set Nat := {x | ∃ b ∈ bs, x ∈ b.toSet}

theorem mem_cover {bs : List Block} {x : Nat} : x ∈ cover bs ↔ ∃ b ∈ bs, x ∈ b.toSet := Iff.rfl

theorem cover_nil : cover [] = ∅ := by
  ext x
  simp [mem_cover]

theorem cover_cons (b : Block) (bs : List Block) : cover (b :: bs) = b.toSet ∪ cover bs := by
  ext x
  simp [mem_cover]

/-- The largest block that starts at `lo` and ends at or below `hi`. -/
structure Largest (lo hi : Nat) (b : Block) : Prop where
  start : b.start = lo
  stop_le : b.stop ≤ hi
  max : ∀ c : Block, c.start = lo → c.stop ≤ hi → c.log ≤ b.log

/-- The greedy split of `[lo, hi)`. -/
inductive Greedy (hi : Nat) : Nat → List Block → Prop where
  | nil {lo : Nat} (h : hi ≤ lo) : Greedy hi lo []
  | cons {lo : Nat} {b : Block} {bs : List Block} (hb : Largest lo hi b)
      (hbs : Greedy hi b.stop bs) : Greedy hi lo (b :: bs)

section

variable {lo hi : Nat} {bs cs : List Block}

/-- A block inside the interval that holds its left end lies in the largest one. -/
theorem Largest.subset {b c : Block} (h : Largest lo hi b) (hc : c.toSet ⊆ Set.Ico lo hi)
    (hlo : lo ∈ c.toSet) : c.toSet ⊆ b.toSet := by
  have hstart : c.start = lo := Nat.le_antisymm hlo.1 (hc c.start_mem).1
  have hstop : c.stop ≤ hi := by
    have hpos := c.start_lt_stop
    have hlast : c.stop - 1 ∈ c.toSet := by
      rw [Block.mem_toSet]
      omega
    have := (hc hlast).2
    omega
  have hpow : 2 ^ c.log ≤ 2 ^ b.log := Nat.pow_le_pow_right (by decide) (h.max c hstart hstop)
  refine Set.Ico_subset_Ico ?_ ?_
  · rw [h.start, hstart]
  · unfold Block.stop
    rw [h.start, hstart]
    omega

theorem Greedy.cover_eq (h : Greedy hi lo bs) : cover bs = Set.Ico lo hi := by
  induction h with
  | nil hle => rw [cover_nil, Set.Ico_eq_empty (Nat.not_lt.mpr hle)]
  | @cons lo b bs hb hbs ih =>
    rw [cover_cons, ih]
    unfold Block.toSet
    rw [hb.start]
    exact Set.Ico_union_Ico_eq_Ico (by rw [← hb.start]; exact Nat.le_of_lt b.start_lt_stop)
      hb.stop_le

theorem Greedy.start_le (h : Greedy hi lo bs) {b : Block} (hb : b ∈ bs) : lo ≤ b.start := by
  have hmem : b.start ∈ cover bs := ⟨b, hb, b.start_mem⟩
  rw [h.cover_eq] at hmem
  exact hmem.1

theorem Greedy.ordered (h : Greedy hi lo bs) : bs.Pairwise fun b c => b.stop ≤ c.start := by
  induction h with
  | nil _ => exact List.Pairwise.nil
  | cons hb hbs ih => exact List.Pairwise.cons (fun c hc => hbs.start_le hc) ih

/-- No cover of the interval by aligned blocks has fewer of them. -/
theorem Greedy.length_le (h : Greedy hi lo bs) (hc : cover cs = Set.Ico lo hi) :
    bs.length ≤ cs.length := by
  induction h generalizing cs with
  | nil _ => exact Nat.zero_le _
  | @cons lo b bs hb hbs ih =>
    have hinside : ∀ c ∈ cs, c.toSet ⊆ Set.Ico lo hi := by
      intro c hm x hx
      rw [← hc]
      exact ⟨c, hm, hx⟩
    have hlo : lo ∈ Set.Ico lo hi := by
      refine ⟨Nat.le_refl _, ?_⟩
      have := b.start_lt_stop
      have := hb.stop_le
      have := hb.start
      omega
    rw [← hc] at hlo
    obtain ⟨first, hfirst, hin⟩ := hlo
    -- the blocks outside `b` make up the rest, and `first` is not one of them
    classical
    have hrest : cover (cs.filter fun c => ¬ c.toSet ⊆ b.toSet) = Set.Ico b.stop hi := by
      ext x
      rw [mem_cover]
      constructor
      · rintro ⟨c, hm, hx⟩
        rw [List.mem_filter, decide_eq_true_iff] at hm
        have hdis : Disjoint c.toSet b.toSet := by
          rcases c.nested_or_disjoint b with hsub | hsub | hdis
          · exact absurd hsub hm.2
          · have hheld : lo ∈ c.toSet := hsub (hb.start ▸ b.start_mem)
            exact absurd (hb.subset (hinside c hm.1) hheld) hm.2
          · exact hdis
        have hlox := hinside c hm.1 hx
        refine ⟨?_, hlox.2⟩
        by_contra hlt
        refine Set.disjoint_left.mp hdis hx ⟨?_, Nat.not_le.mp hlt⟩
        rw [hb.start]
        exact hlox.1
      · intro hx
        have hxc : x ∈ cover cs := by
          rw [hc]
          refine ⟨Nat.le_trans ?_ hx.1, hx.2⟩
          rw [← hb.start]
          exact Nat.le_of_lt b.start_lt_stop
        obtain ⟨c, hm, hx'⟩ := hxc
        refine ⟨c, ?_, hx'⟩
        rw [List.mem_filter, decide_eq_true_iff]
        refine ⟨hm, fun hsub => ?_⟩
        exact absurd (hsub hx').2 (Nat.not_lt.mpr hx.1)
    have hshort : (cs.filter fun c => ¬ c.toSet ⊆ b.toSet).length < cs.length := by
      rw [List.length_filter_lt_length_iff_exists]
      refine ⟨first, hfirst, ?_⟩
      rw [decide_eq_true_iff, not_not]
      exact hb.subset (hinside first hfirst) hin
    have := ih hrest
    rw [List.length_cons]
    omega

end

end RustCrash.Lib.AlignedBlocks
