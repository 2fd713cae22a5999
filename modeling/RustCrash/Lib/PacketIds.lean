import RustCrash.Lib.Machine

/-
  The packets of two ends, each with a session and the count of its packets. Counts are 64 bits
  wide and wrap.

  A count repeats after 2^64 packets (`nodup_countFrom`). Where one end keeps its session, and the
  other leaves that session at most once, no two packets have the same session and count exactly
  if the other end sends no more than 2^64 and is never in the session of the first
  (`TwoEnds.nodup_iff`).
-/

namespace RustCrash.Lib

/-- A count and those that follow. -/
def countFrom (start : UInt64) (n : Nat) : List UInt64 :=
  (List.range n).map fun i => start + UInt64.ofNat i

theorem countFrom_succ (start : UInt64) (n : Nat) :
    countFrom start (n + 1) = start :: countFrom (start + 1) n := by
  unfold countFrom
  rw [List.range_succ_eq_map, List.map_cons, List.map_map]
  refine congrArg₂ List.cons (UInt64.add_zero _) (List.map_congr_left fun i _ => ?_)
  rw [Function.comp_apply, Nat.succ_eq_add_one, UInt64.ofNat_add, UInt64.add_assoc,
    UInt64.add_comm (UInt64.ofNat i)]
  rfl

theorem nodup_countFrom {start : UInt64} {n : Nat} : (countFrom start n).Nodup ↔ n ≤ 2 ^ 64 := by
  unfold countFrom
  constructor
  · intro h
    by_contra hlong
    have hsame : start + UInt64.ofNat 0 = start + UInt64.ofNat (2 ^ 64) := rfl
    have hzero := List.inj_on_of_nodup_map h (List.mem_range.mpr (by omega))
      (List.mem_range.mpr (by omega)) hsame
    exact absurd hzero (by decide)
  · intro h
    refine List.Nodup.map_on (fun i hi j hj heq => ?_) List.nodup_range
    have hi' := List.mem_range.mp hi
    have hj' := List.mem_range.mp hj
    have hnat := congrArg UInt64.toNat ((UInt64.add_right_inj start).mp heq)
    rwa [UInt64.toNat_ofNat', UInt64.toNat_ofNat', Nat.mod_eq_of_lt (by omega),
      Nat.mod_eq_of_lt (by omega)] at hnat

section Runs

variable {S A K : Type} {step : S → A → S} {s : S} {as : List A}

/-- The counts that the counted actions of a run find. -/
theorem Machine.counts (count : S → UInt64) (p : A → Bool)
    (h : ∀ x ∈ Machine.steps step s as,
      count (step x.1 x.2) = if p x.2 then count x.1 + 1 else count x.1) :
    ((Machine.steps step s as).filter (p ·.2)).map (count ·.1) =
      countFrom (count s) ((Machine.steps step s as).filter (p ·.2)).length := by
  induction as generalizing s with
  | nil => rfl
  | cons a as ih =>
    have hhead := h (s, a) List.mem_cons_self
    have hrest := ih fun x hx => h x (List.mem_cons_of_mem _ hx)
    dsimp only at hhead
    unfold Machine.steps
    by_cases hp : p a = true
    · rw [if_pos hp] at hhead
      rw [List.filter_cons_of_pos (by exact hp), List.map_cons, List.length_cons, countFrom_succ,
        hrest, hhead]
    · rw [if_neg hp] at hhead
      rw [List.filter_cons_of_neg (by exact hp), hrest, hhead]

/-- What a run does not change any more, once `P` holds. -/
theorem Machine.settles (key : S → K) (P : S → Prop)
    (h : ∀ x ∈ Machine.steps step s as,
      P x.1 → P (step x.1 x.2) ∧ key (step x.1 x.2) = key x.1) :
    (Machine.steps step s as).Pairwise fun x y => P x.1 → key y.1 = key x.1 := by
  have hkept : ∀ (as : List A) (s : S), (∀ x ∈ Machine.steps step s as,
      P x.1 → P (step x.1 x.2) ∧ key (step x.1 x.2) = key x.1) → P s →
      ∀ y ∈ Machine.steps step s as, key y.1 = key s := by
    intro as
    induction as with
    | nil => exact fun _ _ _ => nofun
    | cons a as ih =>
      intro s h hs y hy
      obtain ⟨hnext, hkey⟩ := h (s, a) List.mem_cons_self hs
      rcases List.mem_cons.mp hy with rfl | hy
      · rfl
      · exact (ih _ (fun x hx => h x (List.mem_cons_of_mem _ hx)) hnext y hy).trans hkey
  induction as generalizing s with
  | nil => exact List.Pairwise.nil
  | cons a as ih =>
    have htail := fun x hx => h x (List.mem_cons_of_mem _ hx)
    refine List.pairwise_cons.mpr ⟨fun y hy hs => ?_, ih htail⟩
    obtain ⟨hnext, hkey⟩ := h (s, a) List.mem_cons_self hs
    exact (hkept as _ htail hnext y hy).trans hkey

end Runs

section Ends

variable {X K : Type} {xs : List X} {mine : X → Bool} {session : X → K} {count : X → UInt64}
  {own : K} {start : UInt64}

/-- Packets of the end that keeps the session `own`, and of the other. Both count from `start`. -/
structure TwoEnds (xs : List X) (mine : X → Bool) (session : X → K) (count : X → UInt64) (own : K)
    (start : UInt64) : Prop where
  session_mine : ∀ x ∈ xs.filter mine, session x = own
  count_mine : (xs.filter mine).map count = countFrom start (xs.filter mine).length
  count_other : (xs.filter (!mine ·)).map count = countFrom start (xs.filter (!mine ·)).length
  /-- The other end does not come back to the session `own`, and keeps any other. -/
  settled : (xs.filter (!mine ·)).Pairwise fun x y => session x ≠ own → session y = session x
  alone : xs.filter mine = [] → ∀ x ∈ xs, ∀ y ∈ xs, session y = session x

theorem head_count {ys : List X} {y : X}
    (h : (y :: ys).map count = countFrom start (y :: ys).length) : count y = start := by
  rw [List.length_cons, countFrom_succ] at h
  exact List.head_eq_of_cons_eq h

/-- Packets of one session are told apart by their counts. -/
theorem nodup_of_counts {ys : List X} (h : (ys.map count).Nodup) :
    (ys.map fun x => (session x, count x)).Nodup := by
  have hsnd : (ys.map fun x => (session x, count x)).map Prod.snd = ys.map count := by
    rw [List.map_map]
    rfl
  rw [← hsnd] at h
  exact h.of_map

theorem counts_of_nodup {ys : List X} {k : K} (hsame : ∀ x ∈ ys, session x = k)
    (h : (ys.map fun x => (session x, count x)).Nodup) : (ys.map count).Nodup := by
  have hpair : (ys.map fun x => (session x, count x)) = (ys.map count).map (Prod.mk k) := by
    rw [List.map_map]
    refine List.map_congr_left fun x hx => ?_
    rw [Function.comp_apply, hsame x hx]
  rw [hpair] at h
  exact h.of_map

theorem TwoEnds.nodup_iff (h : TwoEnds xs mine session count own start)
    (hmine : (xs.filter mine).length ≤ 2 ^ 64) :
    (xs.map fun x => (session x, count x)).Nodup ↔
      (xs.filter (!mine ·)).length ≤ 2 ^ 64 ∧
        (xs.filter mine ≠ [] → ∀ x ∈ xs.filter (!mine ·), session x ≠ own) := by
  have hperm := (List.filter_append_perm mine xs).map fun x => (session x, count x)
  rw [← hperm.nodup_iff, List.map_append, List.nodup_append]
  constructor
  · rintro ⟨-, hother, hdisjoint⟩
    have hleft : xs.filter mine ≠ [] → ∀ x ∈ xs.filter (!mine ·), session x ≠ own := by
      intro hsome x hx hown
      obtain ⟨z, zs, hz⟩ := List.exists_cons_of_ne_nil hsome
      obtain ⟨y, ys, hy⟩ := List.exists_cons_of_ne_nil (List.ne_nil_of_mem hx)
      -- the first packets of both have one count, and one session if the other is ever in it
      have hfirst : session y = own := by
        by_contra hne
        have hpair := h.settled
        rw [hy] at hpair hx
        rcases List.mem_cons.mp hx with rfl | hx
        · exact hne hown
        · exact hne (((List.pairwise_cons.mp hpair).1 x hx hne).symm.trans hown)
      have hcounts := h.count_mine
      have hcounts' := h.count_other
      rw [hz] at hcounts hdisjoint
      rw [hy] at hcounts' hdisjoint
      have hz' := h.session_mine z (hz ▸ List.mem_cons_self)
      refine hdisjoint (own, start) (List.mem_map.mpr ⟨z, List.mem_cons_self, ?_⟩) (own, start)
        (List.mem_map.mpr ⟨y, List.mem_cons_self, ?_⟩) rfl
      · rw [hz', head_count hcounts]
      · rw [hfirst, head_count hcounts']
    refine ⟨?_, hleft⟩
    have hsame : ∃ k, ∀ x ∈ xs.filter (!mine ·), session x = k := by
      cases hy : xs.filter (!mine ·) with
      | nil => exact ⟨own, nofun⟩
      | cons y ys =>
        refine ⟨session y, fun x hx => ?_⟩
        by_cases hnone : xs.filter mine = []
        · have hmem : ∀ z ∈ y :: ys, z ∈ xs := fun z hz =>
            (List.mem_filter.mp (hy ▸ hz)).1
          exact h.alone hnone y (hmem y List.mem_cons_self) x (hmem x hx)
        · have hpair := h.settled
          rw [hy] at hpair
          rcases List.mem_cons.mp hx with rfl | hx
          · rfl
          · exact (List.pairwise_cons.mp hpair).1 x hx
              (hleft hnone y (hy ▸ List.mem_cons_self))
    obtain ⟨k, hk⟩ := hsame
    have hcounts := counts_of_nodup hk hother
    rw [h.count_other] at hcounts
    exact nodup_countFrom.mp hcounts
  · rintro ⟨hlen, hleft⟩
    refine ⟨nodup_of_counts ?_, nodup_of_counts ?_, ?_⟩
    · rw [h.count_mine]
      exact nodup_countFrom.mpr hmine
    · rw [h.count_other]
      exact nodup_countFrom.mpr hlen
    · intro a ha b hb heq
      obtain ⟨x, hx, rfl⟩ := List.mem_map.mp ha
      obtain ⟨y, hy, rfl⟩ := List.mem_map.mp hb
      have hsession := (Prod.mk.inj heq).1
      exact hleft (List.ne_nil_of_mem hx) y hy (hsession.symm.trans (h.session_mine x hx))

end Ends

end RustCrash.Lib
