import Mathlib.Data.Set.Insert
import Mathlib.Tactic

/-
  Windows over the last `size` numbers of a set, kept in bits or as the set of the numbers.
-/

/-! ## A window that is a ring

A window over the last `size` numbers kept as a ring of bits: bit `x % size` stands for
the member `x` of the window. `Holds size A last bit` says that the ring shows which
numbers of `A` lie in the window that ends at `last`.

A number above the window shares its bit with the number `size` below it, which leaves the
window only when the window moves (`holds_test_above`). -/

namespace RustCrash.Lib.RingWindow

variable {size last : Nat} {A : Set Nat} {bit : Nat → Bool}

def Holds (size : Nat) (A : Set Nat) (last : Nat) (bit : Nat → Bool) : Prop :=
  ∀ b < size, bit b = true ↔ ∃ x ∈ A, x ≤ last ∧ last < x + size ∧ x % size = b

theorem eq_of_mod_eq {x y : Nat} (hle : x ≤ y) (hlt : y < x + size) (h : x % size = y % size) :
    x = y := by
  have hzero : (y - x) % size = 0 := Nat.sub_mod_eq_zero_of_mod_eq h.symm
  rw [Nat.mod_eq_of_lt (by omega)] at hzero
  omega

/-- Two numbers of one window with one bit are equal. -/
theorem window_inj {x y : Nat} (hx : x ≤ last) (hx' : last < x + size) (hy : y ≤ last)
    (hy' : last < y + size) (h : x % size = y % size) : x = y := by
  rcases Nat.le_total x y with hle | hle
  · exact eq_of_mod_eq hle (by omega) h
  · exact (eq_of_mod_eq hle (by omega) h.symm).symm

theorem holds_test (h : Holds size A last bit) {c : Nat} (hle : c ≤ last)
    (hlt : last < c + size) : bit (c % size) = true ↔ c ∈ A := by
  rw [h (c % size) (Nat.mod_lt _ (by omega))]
  constructor
  · intro ⟨x, hx, hxle, hxlt, hmod⟩
    rw [← window_inj hxle hxlt hle hlt hmod]
    exact hx
  · intro hc
    exact ⟨c, hc, hle, hlt, rfl⟩

/-- Above the window the bit still belongs to the number `size` below. -/
theorem holds_test_above (h : Holds size A last bit) {c : Nat} (hlt : last < c)
    (hnear : c < last + size) : bit (c % size) = true ↔ size ≤ c ∧ c - size ∈ A := by
  rw [h (c % size) (Nat.mod_lt _ (by omega))]
  constructor
  · intro ⟨x, hx, hxle, hxlt, hmod⟩
    have hsize : size ≤ c := by
      by_contra hc
      rw [Nat.mod_eq_of_lt (by omega), Nat.mod_eq_of_lt (by omega)] at hmod
      omega
    have hsub : (c - size) % size = c % size := (Nat.mod_eq_sub_mod hsize).symm
    refine ⟨hsize, ?_⟩
    rw [← window_inj hxle hxlt (by omega) (by omega) (hmod.trans hsub.symm)]
    exact hx
  · intro ⟨hsize, hc⟩
    exact ⟨c - size, hc, by omega, by omega, (Nat.mod_eq_sub_mod hsize).symm⟩

/-- The window moves up by one, and the bit of the number that leaves it is cleared. -/
theorem holds_advance (h : Holds size A last bit) (hA : ∀ x ∈ A, x ≤ last)
    {bit' : Nat → Bool}
    (hbit : ∀ b < size, bit' b = (bit b && !decide (size ≤ last + 1 ∧ b = (last + 1 - size) % size))) :
    Holds size A (last + 1) bit' := by
  intro b hb
  rw [hbit b hb, Bool.and_eq_true, h b hb, Bool.not_eq_true', decide_eq_false_iff_not]
  constructor
  · intro ⟨⟨x, hx, hxle, hxlt, hmod⟩, hkeep⟩
    refine ⟨x, hx, by omega, ?_, hmod⟩
    by_contra hout
    have hedge : last + 1 - size = x := by omega
    refine hkeep ⟨by omega, ?_⟩
    rw [hedge, hmod]
  · intro ⟨x, hx, hxle, hxlt, hmod⟩
    have hle := hA x hx
    refine ⟨⟨x, hx, hle, by omega, hmod⟩, ?_⟩
    intro ⟨hsize, hb'⟩
    have heq := window_inj hle (by omega : last < x + size) (show last + 1 - size ≤ last by omega)
      (by omega) (hmod.trans hb')
    omega

/-- A number of the window is added. -/
theorem holds_insert (h : Holds size A last bit) {c : Nat} (hle : c ≤ last)
    (hlt : last < c + size) {bit' : Nat → Bool}
    (hbit : ∀ b < size, bit' b = (bit b || decide (b = c % size))) :
    Holds size (insert c A) last bit' := by
  intro b hb
  rw [hbit b hb, Bool.or_eq_true, h b hb, decide_eq_true_iff]
  constructor
  · intro hmem
    rcases hmem with ⟨x, hx, hrest⟩ | hc
    · exact ⟨x, Set.mem_insert_of_mem c hx, hrest⟩
    · exact ⟨c, Set.mem_insert c A, hle, hlt, hc.symm⟩
  · intro ⟨x, hx, hxle, hxlt, hmod⟩
    rcases Set.mem_insert_iff.mp hx with hxc | hx
    · rw [hxc] at hmod
      exact Or.inr hmod.symm
    · exact Or.inl ⟨x, hx, hxle, hxlt, hmod⟩

/-- The window jumps past everything it held. -/
theorem holds_reset {c : Nat} (hA : ∀ x ∈ A, x + size ≤ c) : Holds size A c fun _ => false := by
  intro b _
  constructor
  · intro hfalse
    cases hfalse
  · intro ⟨x, hx, _, hlt, _⟩
    have := hA x hx
    omega

end RustCrash.Lib.RingWindow

/-! ## A window that is shifted

A window over the last `size` numbers that is shifted when a higher number comes: mark `i`
stands for the number `high - i`. `Covers` says that every number of `A` is marked while the
window holds it, which is enough to refuse it a second time (`fresh_above`, `fresh_inside`);
`Shows` says that no other number is. -/

namespace RustCrash.Lib.ShiftWindow

variable {size high : Nat} {A : Set Nat} {mark mark' : Nat → Prop}

def Covers (size : Nat) (A : Set Nat) (high : Nat) (mark : Nat → Prop) : Prop :=
  ∀ x ∈ A, x ≤ high ∧ (high - x < size → mark (high - x))

def Shows (size : Nat) (A : Set Nat) (high : Nat) (mark : Nat → Prop) : Prop :=
  (∀ x ∈ A, x ≤ high) ∧ ∀ x ≤ high, high - x < size → (mark (high - x) ↔ x ∈ A)

theorem Shows.covers (h : Shows size A high mark) : Covers size A high mark :=
  fun x hx => ⟨h.1 x hx, fun hsize => (h.2 x (h.1 x hx) hsize).mpr hx⟩

/-! ## Refusing -/

variable {c : Nat}

theorem fresh_above (h : Covers size A high mark) (hlt : high < c) : c ∉ A := by
  intro hc
  have hle := (h c hc).1
  omega

theorem fresh_inside (h : Covers size A high mark) (hsize : high - c < size)
    (hmark : ¬ mark (high - c)) : c ∉ A := fun hc => hmark ((h c hc).2 hsize)

/-! ## Moving and marking -/

theorem covers_single (hfirst : mark 0) : Covers size {c} c mark := by
  rintro x rfl
  refine ⟨Nat.le_refl x, fun _ => ?_⟩
  rw [Nat.sub_self]
  exact hfirst

theorem covers_shift (h : Covers size A high mark) (hlt : high < c) (hfirst : mark' 0)
    (hshift : ∀ i < size, c - high ≤ i → mark (i - (c - high)) → mark' i) :
    Covers size (insert c A) c mark' := by
  intro x hx
  rcases Set.mem_insert_iff.mp hx with rfl | hx
  · refine ⟨Nat.le_refl x, fun _ => ?_⟩
    rw [Nat.sub_self]
    exact hfirst
  · obtain ⟨hle, hmark⟩ := h x hx
    refine ⟨by omega, fun hsize => hshift _ hsize (by omega) ?_⟩
    have hsub : c - x - (c - high) = high - x := by omega
    rw [hsub]
    exact hmark (by omega)

theorem covers_mark (h : Covers size A high mark) (hle : c ≤ high) (hset : mark' (high - c))
    (hkeep : ∀ i, mark i → mark' i) : Covers size (insert c A) high mark' := by
  intro x hx
  rcases Set.mem_insert_iff.mp hx with rfl | hx
  · exact ⟨hle, fun _ => hset⟩
  · exact ⟨(h x hx).1, fun hsize => hkeep _ ((h x hx).2 hsize)⟩

theorem covers_mono (h : Covers size A high mark) (hkeep : ∀ i, mark i → mark' i) :
    Covers size A high mark' := fun x hx => ⟨(h x hx).1, fun hsize => hkeep _ ((h x hx).2 hsize)⟩

theorem shows_single (hmark : ∀ i < size, mark i ↔ i = 0) : Shows size {c} c mark := by
  refine ⟨fun x hx => Nat.le_of_eq hx, fun x hx hsize => ?_⟩
  rw [hmark _ hsize, Set.mem_singleton_iff]
  omega

theorem shows_shift (h : Shows size A high mark) (hlt : high < c)
    (hmark : ∀ i < size, mark' i ↔ i = 0 ∨ c - high ≤ i ∧ mark (i - (c - high))) :
    Shows size (insert c A) c mark' := by
  constructor
  · intro x hx
    rcases Set.mem_insert_iff.mp hx with rfl | hx
    · exact Nat.le_refl x
    · have := h.1 x hx
      omega
  · intro x hx hsize
    rw [hmark _ hsize, Set.mem_insert_iff]
    by_cases hxc : x = c
    · exact ⟨fun _ => .inl hxc, fun _ => .inl (by omega)⟩
    by_cases hle : x ≤ high
    · have hsub : c - x - (c - high) = high - x := by omega
      rw [hsub, h.2 x hle (by omega)]
      constructor
      · rintro (hzero | ⟨-, hx⟩)
        · omega
        · exact .inr hx
      · rintro (rfl | hx)
        · omega
        · exact .inr ⟨by omega, hx⟩
    · constructor
      · rintro (hzero | ⟨hle', -⟩) <;> omega
      · rintro (rfl | hx)
        · omega
        · exact absurd (h.1 x hx) hle

theorem shows_mark (h : Shows size A high mark) (hle : c ≤ high)
    (hmark : ∀ i < size, mark' i ↔ i = high - c ∨ mark i) : Shows size (insert c A) high mark' := by
  constructor
  · intro x hx
    rcases Set.mem_insert_iff.mp hx with rfl | hx
    · exact hle
    · exact h.1 x hx
  · intro x hx hsize
    rw [hmark _ hsize, Set.mem_insert_iff, h.2 x hx hsize]
    have hsame : high - x = high - c ↔ x = c := by omega
    rw [hsame]

end RustCrash.Lib.ShiftWindow

/-! ## A window that is a set

A window kept as the set of the numbers in it, with the highest: what falls more than `size`
below the highest is dropped. `Keeps` says that the set is the part of `A` that the window
holds, so that a number is refused exactly if it is below the window or in `A`
(`Keeps.refuses_iff`). -/

namespace RustCrash.Lib.SetWindow

variable {K : Type} {num : K → ℕ} {size : ℕ} {A seen seen' : Set K} {high high' c : K}

structure Keeps (num : K → ℕ) (size : ℕ) (A : Set K) (high : K) (seen : Set K) : Prop where
  high_mem : high ∈ A
  le_high : ∀ x ∈ A, num x ≤ num high
  seen_iff : ∀ x, x ∈ seen ↔ x ∈ A ∧ num high - size ≤ num x

theorem keeps_single (c : K) : Keeps num size {c} c {c} where
  high_mem := rfl
  le_high := by
    rintro x rfl
    exact Nat.le_refl _
  seen_iff := by
    intro x
    refine ⟨?_, And.left⟩
    rintro rfl
    exact ⟨rfl, Nat.sub_le _ _⟩

theorem Keeps.refuses_iff (h : Keeps num size A high seen) (c : K) :
    (num c < num high - size ∨ c ∈ seen) ↔ ¬ (c ∉ A ∧ num high - size ≤ num c) := by
  rw [h.seen_iff]
  constructor
  · rintro (hlow | hseen) ⟨hnew, hin⟩
    · omega
    · exact hnew hseen.1
  · intro hrefused
    by_contra hnot
    rw [not_or, not_lt] at hnot
    exact hrefused ⟨fun hc => hnot.2 ⟨hc, hnot.1⟩, hnot.1⟩

/-- One more number, and the window that ends at the highest. -/
theorem Keeps.insert (h : Keeps num size A high seen)
    (hhigh : high' = if num high < num c then c else high)
    (hseen : ∀ x, x ∈ seen' ↔ (x = c ∨ x ∈ seen) ∧ num high' - size ≤ num x) :
    Keeps num size (insert c A) high' seen' := by
  have hup : num high ≤ num high' ∧ num c ≤ num high' := by
    rw [hhigh]
    split <;> constructor <;> omega
  refine ⟨?_, ?_, fun x => ?_⟩
  · rw [hhigh]
    split
    · exact Set.mem_insert c A
    · exact Set.mem_insert_of_mem c h.high_mem
  · intro x hx
    rcases Set.mem_insert_iff.mp hx with rfl | hx
    · exact hup.2
    · exact (h.le_high x hx).trans hup.1
  · rw [hseen, h.seen_iff, Set.mem_insert_iff]
    -- what the old window had dropped is below the new one too
    refine and_congr_left fun hin => or_congr_right ⟨And.left, fun hx => ⟨hx, ?_⟩⟩
    omega

/-- The numbers of a window are at most `size + 1`. -/
theorem Keeps.length_le (h : Keeps num size A high seen) (hinj : Function.Injective num)
    {ids : List K} (hnodup : ids.Nodup) (hids : ∀ x ∈ ids, x ∈ seen) :
    ids.length ≤ size + 1 := by
  have hmap : (ids.map num).Nodup := hnodup.map hinj
  have hsub : ids.map num ⊆ List.range' (num high - size) (size + 1) := by
    intro n hn
    obtain ⟨x, hx, rfl⟩ := List.mem_map.mp hn
    obtain ⟨hxA, hin⟩ := (h.seen_iff x).mp (hids x hx)
    have hle := h.le_high x hxA
    exact List.mem_range'_1.mpr (by omega)
  have hlen := (List.subperm_of_subset hmap hsub).length_le
  rwa [List.length_map, List.length_range'] at hlen

end RustCrash.Lib.SetWindow
