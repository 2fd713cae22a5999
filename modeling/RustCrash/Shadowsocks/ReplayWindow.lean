import RustCrash.Lib.Windows
import RustCrash.Shadowsocks.Datagram

/-
  `inbound/proxy_server/ss.rs`: the replay window over the packet ids of a 2022 client.

  The window keeps a pruned set and the highest id, and still answers as the whole history would:
  an id is accepted if it is the first, or if it was not accepted before and is not more than 1024
  below the highest (`accept_by_history`).
-/

namespace RustCrash.Shadowsocks.ReplayWindow

open Lib

/-- A window with the ids that it accepted, the last first. -/
structure Fed where
  window : ReplayWindow
  accepted : List UInt64

def Fed.step (s : Fed) (packetId : UInt64) : Fed :=
  ⟨(s.window.accept packetId).1,
    if (s.window.accept packetId).2 then packetId :: s.accepted else s.accepted⟩

/-- A new window after a sequence of ids. -/
def fed (ids : List UInt64) : Fed := ids.foldl Fed.step ⟨.new, []⟩

/-- The largest of the ids. -/
def largest (ids : List UInt64) : Nat := (ids.map UInt64.toNat).foldr max 0

theorem le_largest {ids : List UInt64} : ∀ x ∈ ids, x.toNat ≤ largest ids := by
  induction ids with
  | nil => nofun
  | cons id ids ih =>
    intro x hx
    rcases List.mem_cons.mp hx with rfl | hx
    · exact le_max_left _ _
    · exact (ih x hx).trans (le_max_right _ _)

theorem largest_le {ids : List UInt64} {n : Nat} (h : ∀ x ∈ ids, x.toNat ≤ n) :
    largest ids ≤ n := by
  induction ids with
  | nil => exact Nat.zero_le n
  | cons id ids ih =>
    rw [List.forall_mem_cons] at h
    exact max_le h.1 (ih h.2)

/-- The ids in the window are the accepted ones that are not too far below the highest. -/
structure Fed.Knows (s : Fed) : Prop where
  nodup : s.window.seen.Nodup
  history : s.window.started = false ∧ s.window.seen = [] ∧ s.accepted = [] ∨
    s.window.started = true ∧ SetWindow.Keeps UInt64.toNat size {x | x ∈ s.accepted}
      s.window.highest {x | x ∈ s.window.seen}

theorem knows_new : Fed.Knows ⟨.new, []⟩ where
  nodup := List.nodup_nil
  history := .inl ⟨rfl, rfl, rfl⟩

theorem Fed.Knows.first {s : Fed} (h : s.Knows) : s.window.started = false ↔ s.accepted = [] := by
  rcases h.history with ⟨hstarted, -, hnone⟩ | ⟨hstarted, hkeeps⟩
  · exact iff_of_true hstarted hnone
  · refine iff_of_false (by rw [hstarted]; decide) fun hnone => ?_
    have hmem := hkeeps.high_mem
    rw [hnone] at hmem
    cases hmem

/-- The highest id of a window that has accepted one. -/
theorem Fed.Knows.highest {s : Fed} (h : s.Knows) (hsome : s.accepted ≠ []) :
    s.window.highest.toNat = largest s.accepted := by
  rcases h.history with ⟨-, -, hnone⟩ | ⟨-, hkeeps⟩
  · exact absurd hnone hsome
  · exact le_antisymm (le_largest _ hkeeps.high_mem) (largest_le hkeeps.le_high)

theorem accept_new {w : ReplayWindow} (h : w.started = false) (packetId : UInt64) :
    w.accept packetId = (⟨true, packetId, packetId :: w.seen⟩, true) := if_pos h

theorem accept_refused {w : ReplayWindow} (h : w.started = true) {packetId : UInt64}
    (hrefused : packetId.toNat < w.highest.toNat - size ∨ packetId ∈ w.seen) :
    w.accept packetId = (w, false) := by
  unfold accept
  rw [if_neg (by rw [h]; decide)]
  rcases hrefused with hlow | hseen
  · exact if_pos hlow
  · rw [if_pos hseen, ite_self]

theorem accept_fresh {w : ReplayWindow} (h : w.started = true) {packetId : UInt64}
    (hfresh : ¬ (packetId.toNat < w.highest.toNat - size ∨ packetId ∈ w.seen)) :
    ∃ highest seen, w.accept packetId = (⟨true, highest, seen⟩, true) ∧
      (highest = if w.highest.toNat < packetId.toNat then packetId else w.highest) ∧
      seen.Sublist (packetId :: w.seen) ∧
      ∀ x, x ∈ seen ↔ (x = packetId ∨ x ∈ w.seen) ∧ highest.toNat - size ≤ x.toNat := by
  rw [not_or] at hfresh
  let highest := if w.highest < packetId then packetId else w.highest
  let keep := fun id : UInt64 => decide (highest.toNat - size ≤ id.toNat)
  refine ⟨highest, (packetId :: w.seen).filter keep, ?_, ?_, List.filter_sublist, fun x => ?_⟩
  · unfold accept
    rw [if_neg (by rw [h]; decide), if_neg hfresh.1, if_neg hfresh.2]
  · exact if_congr UInt64.lt_iff_toNat_lt rfl rfl
  · rw [List.mem_filter, List.mem_cons, decide_eq_true_iff]

theorem Fed.Knows.accept_iff {s : Fed} (h : s.Knows) (packetId : UInt64) :
    (s.window.accept packetId).2 = true ↔ s.accepted = [] ∨
      packetId ∉ s.accepted ∧ s.window.highest.toNat - size ≤ packetId.toNat := by
  rcases h.history with ⟨hstarted, -, hnone⟩ | ⟨hstarted, hkeeps⟩
  · rw [accept_new hstarted]
    exact iff_of_true rfl (.inl hnone)
  · have hsome : s.accepted ≠ [] := fun hnone => by
      rw [h.first.mpr hnone] at hstarted
      cases hstarted
    have hiff := hkeeps.refuses_iff packetId
    by_cases hrefused : packetId.toNat < s.window.highest.toNat - size ∨ packetId ∈ s.window.seen
    · rw [accept_refused hstarted hrefused]
      exact iff_of_false Bool.false_ne_true (not_or.mpr ⟨hsome, hiff.mp hrefused⟩)
    · obtain ⟨highest, seen, haccept, -⟩ := accept_fresh hstarted hrefused
      rw [haccept]
      exact iff_of_true rfl (.inr (not_not.mp fun hnot => hrefused (hiff.mpr hnot)))

theorem Fed.Knows.step {s : Fed} (h : s.Knows) (packetId : UInt64) : (s.step packetId).Knows := by
  unfold Fed.step
  rcases h.history with ⟨hstarted, hseen, hnone⟩ | ⟨hstarted, hkeeps⟩
  · rw [accept_new hstarted, hseen, hnone]
    refine ⟨List.nodup_singleton _, .inr ⟨rfl, ?_⟩⟩
    have hsingle : {x | x ∈ [packetId]} = ({packetId} : Set UInt64) := by
      ext x
      exact List.mem_singleton
    dsimp only
    rw [if_pos rfl, hsingle]
    exact SetWindow.keeps_single packetId
  · by_cases hrefused : packetId.toNat < s.window.highest.toNat - size ∨ packetId ∈ s.window.seen
    · rw [accept_refused hstarted hrefused]
      exact ⟨h.nodup, .inr ⟨hstarted, hkeeps⟩⟩
    · obtain ⟨highest, seen, haccept, hhighest, hsub, hseen⟩ := accept_fresh hstarted hrefused
      have hnew : packetId ∉ s.window.seen := (not_or.mp hrefused).2
      have hcons : {x | x ∈ packetId :: s.accepted} = insert packetId {x | x ∈ s.accepted} := by
        ext x
        exact List.mem_cons
      rw [haccept]
      refine ⟨(List.nodup_cons.mpr ⟨hnew, h.nodup⟩).sublist hsub, .inr ⟨rfl, ?_⟩⟩
      dsimp only
      rw [if_pos rfl, hcons]
      exact hkeeps.insert hhighest hseen

theorem knows_fed (ids : List UInt64) : (fed ids).Knows := by
  unfold fed
  induction ids using List.reverseRecOn with
  | nil => exact knows_new
  | append_singleton ids id ih =>
    rw [List.foldl_append]
    exact ih.step id

/-- Only a window that was fed nothing has accepted nothing. -/
theorem accepted_fed_nil (ids : List UInt64) : (fed ids).accepted = [] ↔ ids = [] := by
  induction ids using List.reverseRecOn with
  | nil => exact iff_of_true rfl rfl
  | append_singleton ids id ih =>
    refine iff_of_false ?_ (List.append_ne_nil_of_right_ne_nil _ (List.cons_ne_nil _ _))
    have hstep : fed (ids ++ [id]) = (fed ids).step id := List.foldl_append
    rw [hstep]
    unfold Fed.step
    split
    · exact List.cons_ne_nil _ _
    · rename_i hrefused
      intro hnone
      exact hrefused (((knows_fed ids).accept_iff id).mpr (.inl hnone))

theorem Fed.Knows.length_le {s : Fed} (h : s.Knows) : s.window.seen.length ≤ size + 1 := by
  rcases h.history with ⟨-, hseen, -⟩ | ⟨-, hkeeps⟩
  · rw [hseen]
    exact Nat.zero_le _
  · exact hkeeps.length_le (fun _ _ => UInt64.toNat_inj.mp) h.nodup fun x hx => hx

/-- What a window answers after any sequence of ids, and how much it keeps. -/
theorem accept_by_history (ids : List UInt64) (packetId : UInt64) :
    (((fed ids).window.accept packetId).2 = true ↔ ids = [] ∨
      packetId ∉ (fed ids).accepted ∧
        largest (fed ids).accepted - 1024 ≤ packetId.toNat) ∧
    (fed ids).window.seen.Nodup ∧ (fed ids).window.seen.length ≤ 1025 := by
  have hknows := knows_fed ids
  refine ⟨?_, hknows.nodup, hknows.length_le⟩
  rw [hknows.accept_iff, accepted_fed_nil]
  by_cases hnil : ids = []
  · exact iff_of_true (.inl hnil) (.inl hnil)
  · have hsome := (not_congr (accepted_fed_nil ids)).mpr hnil
    rw [hknows.highest hsome]
    rfl

end RustCrash.Shadowsocks.ReplayWindow
