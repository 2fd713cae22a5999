import Mathlib.Data.Finset.Insert
import Mathlib.Data.List.AList
import Mathlib.Logic.Function.Basic
import Mathlib.Tactic

/-
  Finite maps that are kept in step with something else: with their inverse, or with who holds
  what.
-/

/-! ## Two maps as inverses

Two finite maps kept as inverses of each other, and a counter that walks a ring of
slots. `Inverse f g` says that the maps hold the same pairs.

`ring_inj` is about the counter: it wraps at `m` and is reduced modulo `s`. A window of
`s` counts visits every slot once, unless it crosses the wrap and `s` does not divide
`m`. -/

namespace RustCrash.Lib

/-! ## Lengths -/

theorem length_keys_insert {K V : Type} [DecidableEq K] {f : AList fun _ : K => V} {k : K}
    {v : V} (hk : f.lookup k = none) :
    (f.insert k v).keys.length = f.keys.length + 1 := by
  have hm : k ∉ f := AList.lookup_eq_none.mp hk
  unfold AList.keys
  rw [AList.entries_insert_of_notMem hm]
  simp

theorem length_keys_erase {K V : Type} [DecidableEq K] {f : AList fun _ : K => V} {k : K}
    {v : V} (hk : f.lookup k = some v) :
    (f.erase k).keys.length + 1 = f.keys.length := by
  have hm : k ∈ f.keys := by
    rw [← AList.mem_keys, ← AList.lookup_isSome, hk]
    rfl
  have hpos : 0 < f.keys.length := List.length_pos_of_mem hm
  have he : (f.erase k).keys.length = f.keys.length - 1 := by
    rw [AList.keys_erase]
    exact List.length_erase_of_mem hm
  omega

/-! ## Inverse maps -/

section Bimap

variable {K V : Type} [DecidableEq K] [DecidableEq V]

/-- The two maps hold the same pairs. -/
def Inverse (f : AList fun _ : K => V) (g : AList fun _ : V => K) : Prop :=
  ∀ k v, f.lookup k = some v ↔ g.lookup v = some k

variable {f : AList fun _ : K => V} {g : AList fun _ : V => K}

namespace Inverse

theorem empty : Inverse (∅ : AList fun _ : K => V) (∅ : AList fun _ : V => K) := by
  intro k v
  simp

theorem symm (h : Inverse f g) : Inverse g f := fun v k => (h k v).symm

theorem insert {k : K} {v : V} (h : Inverse f g) (hk : f.lookup k = none)
    (hv : g.lookup v = none) : Inverse (f.insert k v) (g.insert v k) := by
  intro k' v'
  by_cases ek : k' = k
  · subst ek
    rw [AList.lookup_insert]
    by_cases ev : v' = v
    · subst ev
      simp [AList.lookup_insert]
    · rw [AList.lookup_insert_ne ev]
      constructor
      · intro e
        exact absurd (Option.some.inj e).symm ev
      · intro e
        rw [← h k' v', hk] at e
        exact absurd e (by simp)
  · rw [AList.lookup_insert_ne ek]
    by_cases ev : v' = v
    · subst ev
      rw [AList.lookup_insert, h k' v', hv]
      simp [Ne.symm ek]
    · rw [AList.lookup_insert_ne ev]
      exact h k' v'

theorem erase {k : K} {v : V} (h : Inverse f g) (hk : f.lookup k = some v) :
    Inverse (f.erase k) (g.erase v) := by
  intro k' v'
  have hgv : g.lookup v = some k := (h k v).mp hk
  by_cases ek : k' = k
  · subst ek
    rw [AList.lookup_erase]
    by_cases ev : v' = v
    · subst ev
      simp [AList.lookup_erase]
    · rw [AList.lookup_erase_ne ev, ← h k' v', hk]
      simp [Ne.symm ev]
  · rw [AList.lookup_erase_ne ek]
    by_cases ev : v' = v
    · subst ev
      rw [AList.lookup_erase, h k' v', hgv]
      simp [Ne.symm ek]
    · rw [AList.lookup_erase_ne ev]
      exact h k' v'

/-- Inserting a new key keeps the maps inverse exactly when the value was free. -/
theorem insert_iff {k : K} {v : V} (h : Inverse f g) (hk : f.lookup k = none) :
    Inverse (f.insert k v) (g.insert v k) ↔ g.lookup v = none := by
  constructor
  · intro hi
    cases hv : g.lookup v with
    | none => rfl
    | some k' =>
      -- the old key still maps to the value, which now maps back to the new key
      have hf : f.lookup k' = some v := (h k' v).mpr hv
      have hne : k' ≠ k := by
        rintro rfl
        rw [hk] at hf
        exact absurd hf (by simp)
      have h1 : (f.insert k v).lookup k' = some v := by
        rw [AList.lookup_insert_ne hne, hf]
      have h2 := (hi k' v).mp h1
      rw [AList.lookup_insert] at h2
      exact absurd (Option.some.inj h2).symm hne
  · exact h.insert hk

theorem length_keys_le (h : Inverse f g) : f.keys.length ≤ g.keys.length := by
  have hinj : ∀ k ∈ f.keys, ∀ k' ∈ f.keys, f.lookup k = f.lookup k' → k = k' := by
    intro k hk k' _ e
    obtain ⟨v, hv⟩ := Option.isSome_iff_exists.mp (AList.lookup_isSome.mpr (AList.mem_keys.mpr hk))
    have h1 := (h k v).mp hv
    have h2 := (h k' v).mp (e ▸ hv)
    rw [h1] at h2
    exact Option.some.inj h2
  have hnodup : (f.keys.map f.lookup).Nodup :=
    List.Nodup.map_on hinj f.keys_nodup
  have hsub : f.keys.map f.lookup ⊆ g.keys.map some := by
    intro o ho
    obtain ⟨k, hk, rfl⟩ := List.mem_map.mp ho
    obtain ⟨v, hv⟩ := Option.isSome_iff_exists.mp (AList.lookup_isSome.mpr (AList.mem_keys.mpr hk))
    have hg : (g.lookup v).isSome = true := by rw [(h k v).mp hv]; rfl
    rw [hv]
    exact List.mem_map.mpr ⟨v, AList.mem_keys.mp (AList.lookup_isSome.mp hg), rfl⟩
  have := (List.subperm_of_subset hnodup hsub).length_le
  simpa using this

theorem length_keys (h : Inverse f g) : f.keys.length = g.keys.length :=
  Nat.le_antisymm h.length_keys_le h.symm.length_keys_le

end Inverse

end Bimap

/-! ## A counter on a ring -/

theorem ring_inj {m s c i j : Nat} (hw : c + s ≤ m ∨ s ∣ m) (hi : i < s) (hj : j < s)
    (h : (c + i) % m % s = (c + j) % m % s) : i = j := by
  have hmod : (c + i) % s = (c + j) % s := by
    rcases hw with hw | hw
    · rwa [Nat.mod_eq_of_lt (by omega : c + i < m), Nat.mod_eq_of_lt (by omega : c + j < m)] at h
    · rwa [Nat.mod_mod_of_dvd _ hw, Nat.mod_mod_of_dvd _ hw] at h
  have hij : i ≡ j [MOD s] := Nat.ModEq.add_left_cancel' c hmod
  rw [← Nat.mod_eq_of_lt hi, ← Nat.mod_eq_of_lt hj]
  exact hij

end RustCrash.Lib

/-! ## An index over holders

An index over holders: each holder has at most one key, and a map from keys finds the holder.
`Indexes` says that the map has exactly the keys that are held. Taking a free key away from
nobody and giving a key up keep it, so no two holders ever share a key. -/

namespace RustCrash.Lib

variable {K I : Type} [DecidableEq K]

def Indexes (key : I → Option K) (m : AList fun _ : K => I) : Prop :=
  ∀ k i, m.lookup k = some i ↔ key i = some k

/-- The key of a holder leaves the map. -/
def eraseKey (m : AList fun _ : K => I) (k : Option K) : AList fun _ : K => I :=
  match k with
  | some k => m.erase k
  | none => m

variable {key : I → Option K} {m : AList fun _ : K => I}

theorem indexes_empty : Indexes (fun _ : I => (none : Option K)) ∅ := by
  intro k i
  simp

theorem indexes_inj (h : Indexes key m) {i j : I} {k : K} (hi : key i = some k)
    (hj : key j = some k) : i = j :=
  Option.some.inj (((h k i).mpr hi).symm.trans ((h k j).mpr hj))

section

variable [DecidableEq I]

theorem indexes_release (h : Indexes key m) (i : I) :
    Indexes (Function.update key i none) (eraseKey m (key i)) := by
  intro k j
  by_cases hji : j = i
  · subst hji
    rw [Function.update_self]
    cases hk : key j with
    | none =>
      rw [show eraseKey m none = m from rfl, h k j, hk]
    | some k' =>
      show (m.erase k').lookup k = some j ↔ _
      by_cases hkk : k = k'
      · rw [hkk, AList.lookup_erase]
        simp
      · rw [AList.lookup_erase_ne hkk, h k j, hk]
        simp [Ne.symm hkk]
  · rw [Function.update_of_ne hji]
    cases hk : key i with
    | none => exact h k j
    | some k' =>
      show (m.erase k').lookup k = some j ↔ _
      by_cases hkk : k = k'
      · rw [hkk, AList.lookup_erase]
        simp only [reduceCtorEq, false_iff]
        exact fun hj => hji (indexes_inj h hj hk)
      · rw [AList.lookup_erase_ne hkk, h k j]

theorem indexes_assign (h : Indexes key m) {i : I} {k : K} (hi : key i = none)
    (hk : m.lookup k = none) : Indexes (Function.update key i (some k)) (m.insert k i) := by
  intro k' j
  have hfree : ∀ j, key j ≠ some k := by
    intro j hj
    rw [(h k j).mpr hj] at hk
    cases hk
  by_cases hji : j = i
  · subst hji
    rw [Function.update_self]
    by_cases hkk : k' = k
    · rw [hkk, AList.lookup_insert]
      simp
    · rw [AList.lookup_insert_ne hkk, h k' j, hi]
      simp [Ne.symm hkk]
  · rw [Function.update_of_ne hji]
    by_cases hkk : k' = k
    · rw [hkk, AList.lookup_insert]
      constructor
      · intro e
        exact absurd (Option.some.inj e).symm hji
      · intro e
        exact absurd e (hfree j)
    · rw [AList.lookup_insert_ne hkk, h k' j]

end

/-- A key that is not in the map is not in it after another one left. -/
theorem lookup_eraseKey_none {k : K} (hk : m.lookup k = none) (old : Option K) :
    (eraseKey m old).lookup k = none := by
  cases old with
  | none => exact hk
  | some k' =>
    show (m.erase k').lookup k = none
    by_cases hkk : k = k'
    · rw [hkk, AList.lookup_erase]
    · rw [AList.lookup_erase_ne hkk, hk]

end RustCrash.Lib

/-! ## A set of held keys

A shared set of keys, each held by one party: a key is taken only while it is not in the
set, and its holder takes it out again. `Agrees held keys` says that the set is the keys
held and that no two parties hold one key. Taking (`agrees_take`) and giving back
(`agrees_give`) keep it, so an idle system has an empty set (`agrees_idle`). -/

namespace RustCrash.Lib.HeldKeys

variable {I K : Type}

structure Agrees (held : I → Option K) (keys : Finset K) : Prop where
  mem_iff : ∀ k, k ∈ keys ↔ ∃ i, held i = some k
  unique : ∀ i j k, held i = some k → held j = some k → i = j

theorem agrees_empty : Agrees (fun _ : I => (none : Option K)) ∅ :=
  ⟨fun k => by simp, fun i j k h => by cases h⟩

theorem agrees_idle {held : I → Option K} {keys : Finset K} (h : Agrees held keys)
    (hidle : ∀ i, held i = none) : keys = ∅ := by
  apply Finset.eq_empty_of_forall_notMem
  intro k hk
  obtain ⟨i, hi⟩ := (h.mem_iff k).mp hk
  rw [hidle i] at hi
  cases hi

variable [DecidableEq I] [DecidableEq K]

/-- A party that holds nothing takes a free key. -/
theorem agrees_take {held : I → Option K} {keys : Finset K} (h : Agrees held keys) {i : I}
    {k : K} (hi : held i = none) (hk : k ∉ keys) :
    Agrees (Function.update held i (some k)) (insert k keys) := by
  have hfree : ∀ j, held j ≠ some k := fun j hj => hk ((h.mem_iff k).mpr ⟨j, hj⟩)
  refine ⟨fun k' => ?_, fun a b k' ha hb => ?_⟩
  · rw [Finset.mem_insert]
    constructor
    · intro hmem
      by_cases he : k' = k
      · exact ⟨i, by rw [Function.update_self, he]⟩
      · obtain ⟨j, hj⟩ := (h.mem_iff k').mp (hmem.resolve_left he)
        have hne : j ≠ i := fun e => by rw [e, hi] at hj; cases hj
        exact ⟨j, by rw [Function.update_of_ne hne, hj]⟩
    · intro ⟨j, hj⟩
      by_cases hne : j = i
      · rw [hne, Function.update_self] at hj
        exact Or.inl (Option.some.inj hj).symm
      · rw [Function.update_of_ne hne] at hj
        exact Or.inr ((h.mem_iff k').mpr ⟨j, hj⟩)
  · by_cases ea : a = i <;> by_cases eb : b = i
    · rw [ea, eb]
    · rw [ea, Function.update_self] at ha
      rw [Function.update_of_ne eb, ← ha] at hb
      exact absurd hb (hfree b)
    · rw [eb, Function.update_self] at hb
      rw [Function.update_of_ne ea, ← hb] at ha
      exact absurd ha (hfree a)
    · rw [Function.update_of_ne ea] at ha
      rw [Function.update_of_ne eb] at hb
      exact h.unique a b k' ha hb

/-- The holder of a key gives it back. -/
theorem agrees_give {held : I → Option K} {keys : Finset K} (h : Agrees held keys) {i : I}
    {k : K} (hi : held i = some k) :
    Agrees (Function.update held i none) (keys.erase k) := by
  refine ⟨fun k' => ?_, fun a b k' ha hb => ?_⟩
  · rw [Finset.mem_erase]
    constructor
    · intro ⟨hne, hmem⟩
      obtain ⟨j, hj⟩ := (h.mem_iff k').mp hmem
      have hji : j ≠ i := fun e => hne (Option.some.inj (by rw [← hj, e, hi]))
      exact ⟨j, by rw [Function.update_of_ne hji, hj]⟩
    · intro ⟨j, hj⟩
      by_cases hji : j = i
      · rw [hji, Function.update_self] at hj
        cases hj
      · rw [Function.update_of_ne hji] at hj
        refine ⟨fun e => hji (h.unique j i k ?_ hi), (h.mem_iff k').mpr ⟨j, hj⟩⟩
        rw [hj, e]
  · have ea : a ≠ i := fun e => by rw [e, Function.update_self] at ha; cases ha
    have eb : b ≠ i := fun e => by rw [e, Function.update_self] at hb; cases hb
    rw [Function.update_of_ne ea] at ha
    rw [Function.update_of_ne eb] at hb
    exact h.unique a b k' ha hb

end RustCrash.Lib.HeldKeys
