import RustCrash.Lib.Machine

/-
  Keys that were seen, each with the time of its first use: a key is claimed once, and forgotten
  `keep` later.

  While a key is younger than that it is in the pool and cannot be claimed (`claim_seen`). Once all
  keys are older, every key can be (`claim_old`).

  Where the bound is on their number, it is the most recently used that are kept: `touch cap l a`
  puts `a` in front, takes it from where it stood before and drops what comes after the first `cap`.
-/

namespace RustCrash.Lib

abbrev SeenPool (K : Type) := List (K × Nat)

namespace SeenPool

variable {K : Type}

/-- The keys that are younger than `keep`. -/
def young (keep : Nat) (pool : SeenPool K) (now : Nat) : SeenPool K :=
  pool.filter fun x => now - x.2 < keep

/-- Claims a key: whether it is new. -/
def claim [DecidableEq K] (keep : Nat) (pool : SeenPool K) (k : K) (now : Nat) :
    SeenPool K × Bool :=
  let seen := young keep pool now
  if seen.any (·.1 = k) then (seen, false) else (seen ++ [(k, now)], true)

variable {keep now : Nat} {pool : SeenPool K} {x : K × Nat}

theorem mem_young : x ∈ young keep pool now ↔ x ∈ pool ∧ now - x.2 < keep := by
  unfold young
  rw [List.mem_filter, decide_eq_true_eq]

variable [DecidableEq K] {k : K}

/-- What is still young stays. -/
theorem mem_claim (hx : x ∈ pool) (hage : now - x.2 < keep) : x ∈ (claim keep pool k now).1 := by
  have hyoung := mem_young.mpr ⟨hx, hage⟩
  unfold claim
  dsimp only
  split
  · exact hyoung
  · exact List.mem_append_left _ hyoung

/-- All that is there was there, or is the key that was claimed. -/
theorem of_mem_claim (hx : x ∈ (claim keep pool k now).1) : x ∈ pool ∨ x = (k, now) := by
  unfold claim at hx
  dsimp only at hx
  split at hx
  · exact .inl (mem_young.mp hx).1
  · rcases List.mem_append.mp hx with hx | hx
    · exact .inl (mem_young.mp hx).1
    · exact .inr (List.mem_singleton.mp hx)

theorem claimed (h : (claim keep pool k now).2 = true) : (k, now) ∈ (claim keep pool k now).1 := by
  unfold claim at h ⊢
  dsimp only at h ⊢
  split
  · rename_i hseen
    rw [if_pos hseen] at h
    cases h
  · exact List.mem_append_right _ List.mem_cons_self

theorem claim_seen {t : Nat} (hx : (k, t) ∈ pool) (hage : now - t < keep) :
    (claim keep pool k now).2 = false := by
  have hany : (young keep pool now).any (·.1 = k) = true := by
    rw [List.any_eq_true]
    exact ⟨(k, t), mem_young.mpr ⟨hx, hage⟩, decide_eq_true rfl⟩
  unfold claim
  dsimp only
  rw [if_pos hany]

theorem claim_old (h : ∀ x ∈ pool, keep ≤ now - x.2) : (claim keep pool k now).2 = true := by
  have hnil : young keep pool now = [] := by
    refine List.filter_eq_nil_iff.mpr fun x hx => ?_
    rw [decide_eq_true_eq]
    exact Nat.not_lt.mpr (h x hx)
  unfold claim
  dsimp only
  rw [hnil]
  rfl

/-! ## Runs -/

variable {A : Type} {time : A → Nat} {step : SeenPool K → A → SeenPool K}

/-- A step claims a key at its time, or it leaves the pool alone. -/
def Claims (keep : Nat) (time : A → Nat) (step : SeenPool K → A → SeenPool K) : Prop :=
  ∀ pool a, step pool a = pool ∨ ∃ k, step pool a = (claim keep pool k (time a)).1

/-- A key is there at every step of a run that it is still young at. -/
theorem Claims.mem_steps (h : Claims keep time step) {as : List A}
    (horder : as.Pairwise fun a b => time a ≤ time b) (hx : x ∈ pool) :
    ∀ y ∈ Machine.steps step pool as, time y.2 - x.2 < keep → x ∈ y.1 := by
  induction as generalizing pool with
  | nil => exact nofun
  | cons a as ih =>
    obtain ⟨hle, horder⟩ := List.pairwise_cons.mp horder
    intro y hy hage
    rcases List.mem_cons.mp hy with rfl | hy
    · exact hx
    · refine ih horder ?_ y hy hage
      have hlater := hle y.2 (Machine.action_mem hy)
      rcases h pool a with hsame | ⟨k, hclaim⟩
      · rw [hsame]
        exact hx
      · rw [hclaim]
        exact mem_claim hx (by omega)

/-- No key is newer than the step that finds it. -/
theorem Claims.times (h : Claims keep time step) {as : List A}
    (horder : as.Pairwise fun a b => time a ≤ time b)
    (hpool : ∀ x ∈ pool, ∀ a ∈ as, x.2 ≤ time a) :
    ∀ y ∈ Machine.steps step pool as, ∀ x ∈ y.1, x.2 ≤ time y.2 := by
  induction as generalizing pool with
  | nil => exact nofun
  | cons a as ih =>
    obtain ⟨hle, horder⟩ := List.pairwise_cons.mp horder
    intro y hy
    rcases List.mem_cons.mp hy with rfl | hy
    · exact fun x hx => hpool x hx a List.mem_cons_self
    · refine ih horder (fun x hx b hb => ?_) y hy
      have hold : x ∈ pool ∨ x.2 = time a := by
        rcases h pool a with hsame | ⟨k, hclaim⟩
        · rw [hsame] at hx
          exact .inl hx
        · rw [hclaim] at hx
          exact (of_mem_claim hx).imp_right fun heq => congrArg Prod.snd heq
      rcases hold with hx | hx
      · exact hpool x hx b (List.mem_cons_of_mem _ hb)
      · rw [hx]
        exact hle b hb

end SeenPool

/-! ## The most recently used -/

namespace Recent

variable {α : Type} [DecidableEq α] {cap : ℕ}

def touch (cap : ℕ) (l : List α) (a : α) : List α := (a :: l.erase a).take cap

theorem length_touch_le (l : List α) (a : α) : (touch cap l a).length ≤ cap :=
  List.length_take_le _ _

theorem nodup_touch {l : List α} (h : l.Nodup) (a : α) : (touch cap l a).Nodup := by
  have hcons : (a :: l.erase a).Nodup := List.nodup_cons.mpr ⟨h.not_mem_erase, h.erase a⟩
  exact hcons.sublist (List.take_sublist _ _)

theorem nodup_foldr_touch {l : List α} (h : l.Nodup) (as : List α) :
    (as.foldr (fun a l => touch cap l a) l).Nodup := by
  induction as with
  | nil => exact h
  | cons a as ih => exact nodup_touch ih a

theorem length_foldr_touch_le {l : List α} (h : l.length ≤ cap) (as : List α) :
    (as.foldr (fun a l => touch cap l a) l).length ≤ cap := by
  cases as with
  | nil => exact h
  | cons a as => exact length_touch_le _ _

/-- The last touched is the first of the list, and so on back to the first touched. -/
theorem prefix_foldr_touch (l : List α) {as : List α} (hnodup : as.Nodup)
    (hlen : as.length ≤ cap) : as <+: as.foldr (fun a l => touch cap l a) l := by
  induction as with
  | nil => exact List.nil_prefix
  | cons a as ih =>
    obtain ⟨hnew, hnodup⟩ := List.nodup_cons.mp hnodup
    obtain ⟨rest, hrest⟩ := ih hnodup (Nat.le_of_succ_le hlen)
    rw [List.foldr_cons, ← hrest]
    unfold touch
    rw [List.erase_append_right _ hnew, ← List.cons_append, List.take_append,
      List.take_of_length_le hlen]
    exact List.prefix_append _ _

end Recent

end RustCrash.Lib
