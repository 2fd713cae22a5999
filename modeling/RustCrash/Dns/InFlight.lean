import RustCrash.Dns.Resolver
import RustCrash.Lib.Maps
import RustCrash.Lib.Machine

/-
  The DNS loop guard. A call holds its key from the in-flight check until its guard is dropped, on
  return, panic or cancellation.

  `effect_step` says what a step can do to the set: nothing, a call without a key takes its free
  key, or a call gives its own key back.
-/

namespace RustCrash.Dns

open Lib

variable {U : Type}

namespace DnsEngine

/-- The key call `i` holds. -/
def heldKey (s : DnsEngine U) (i : Nat) : Option Key := s.calls[i]?.bind Call.guardKey

variable {s : DnsEngine U} {call : Call U}

theorem heldKey_eq {i : Nat} (h : s.calls[i]? = some call) : s.heldKey i = call.guardKey := by
  unfold heldKey
  rw [h, Option.bind_some]

@[simp] theorem inflight_setPhase (s : DnsEngine U) (i : Nat) (call : Call U) (p : Phase U) :
    (s.setPhase i call p).inflight = s.inflight := rfl

theorem heldKey_setPhase {i : Nat} (h : s.calls[i]? = some call) (p : Phase U) :
    (s.setPhase i call p).heldKey =
      Function.update s.heldKey i ({ call with phase := p } : Call U).guardKey := by
  have hi : i < s.calls.length := (List.getElem?_eq_some_iff.mp h).1
  funext j
  unfold heldKey setPhase
  by_cases hj : j = i
  · rw [hj, Function.update_self, List.getElem?_set_self hi, Option.bind_some]
  · rw [Function.update_of_ne hj, List.getElem?_set_ne (Ne.symm hj)]

/-- A phase that holds what the call holds already. -/
theorem heldKey_setPhase_same {i : Nat} (h : s.calls[i]? = some call) {p : Phase U}
    (hp : ({ call with phase := p } : Call U).guardKey = call.guardKey) :
    (s.setPhase i call p).heldKey = s.heldKey := by
  rw [heldKey_setPhase h, hp, ← heldKey_eq h, Function.update_eq_self]

theorem heldKey_append (h : call.guardKey = none) :
    ({ s with calls := s.calls ++ [call] } : DnsEngine U).heldKey = s.heldKey := by
  funext j
  unfold heldKey
  by_cases hj : j < s.calls.length
  · rw [List.getElem?_append_left hj]
  · rw [List.getElem?_append_right (by omega), List.getElem?_eq_none (l := s.calls) (by omega)]
    cases hk : j - s.calls.length with
    | zero => simp [h]
    | succ n => simp

/-! ## One step -/

/-- What a step of call `i` can do to the in-flight set. -/
inductive Effect (s s' : DnsEngine U) (i : Nat) : Prop where
  | keeps (hset : s'.inflight = s.inflight) (hheld : s'.heldKey = s.heldKey)
  | takes (k : Key) (hfree : k ∉ s.inflight) (hnone : s.heldKey i = none)
      (hset : s'.inflight = insert k s.inflight)
      (hheld : s'.heldKey = Function.update s.heldKey i (some k))
  | gives (k : Key) (hown : s.heldKey i = some k) (hset : s'.inflight = s.inflight.erase k)
      (hheld : s'.heldKey = Function.update s.heldKey i none)

variable {cfg : DnsConfig U} {s : DnsEngine U} {i : Nat} {call : Call U}

/-- A change of phase that touches no key, whatever else changes but calls and set. -/
theorem effect_keep {s' : DnsEngine U} (hcalls : s'.calls = s.calls)
    (hset : s'.inflight = s.inflight) (h : s.calls[i]? = some call) (p : Phase U)
    (hp : ({ call with phase := p } : Call U).guardKey = call.guardKey) :
    Effect s (s'.setPhase i call p) i := by
  refine .keeps hset ?_
  rw [heldKey_setPhase_same (by rw [hcalls, h]) hp]
  unfold heldKey
  rw [hcalls]

theorem effect_phase (h : s.calls[i]? = some call) (hc : call.guardKey = none) (p : Phase U)
    (hp : ({ call with phase := p } : Call U).guardKey = none) :
    Effect s (s.setPhase i call p) i :=
  effect_keep rfl rfl h p (hp.trans hc.symm)

/-- The guard is dropped. -/
theorem effect_drop (h : s.calls[i]? = some call) {k : Key} (hk : call.guardKey = some k)
    (p : Phase U) (hp : ({ call with phase := p } : Call U).guardKey = none) :
    Effect s ({ s with inflight := s.inflight.erase k }.setPhase i call p) i := by
  refine .gives k (by rw [heldKey_eq h, hk]) rfl ?_
  have hh : ({ s with inflight := s.inflight.erase k } : DnsEngine U).calls[i]? = some call := h
  rw [heldKey_setPhase hh, hp]
  rfl

theorem effect_resolving (h : s.calls[i]? = some call) (hc : call.guardKey = none) :
    Effect s (s.stepResolving cfg i call) i := by
  unfold stepResolving
  split_ifs
  · exact effect_phase h hc _ rfl
  · cases s.cached cfg call with
    | some hit => exact effect_phase h hc _ rfl
    | none =>
      dsimp only
      cases parse (buildQuery s.queryId.toUInt16 call.name call.qtype) with
      | error e => refine effect_keep ?_ ?_ h (.resolved none) hc.symm <;> rfl
      | ok query => refine effect_keep ?_ ?_ h (.lookup query) hc.symm <;> rfl

theorem effect_lookup (h : s.calls[i]? = some call) (hc : call.guardKey = none)
    (query : DnsMessage) : Effect s (s.stepLookup cfg i call query) i := by
  unfold stepLookup
  cases s.cached cfg call with
  | some hits => exact effect_phase h hc _ rfl
  | none => exact effect_phase h hc _ rfl

theorem effect_guard (h : s.calls[i]? = some call) (hc : call.guardKey = none)
    (query : DnsMessage) : Effect s (s.stepGuard cfg i call query) i := by
  unfold stepGuard
  split_ifs with hin
  · exact effect_phase h hc _ rfl
  · refine .takes (call.key query) hin (by rw [heldKey_eq h, hc]) rfl ?_
    have hh : ({ s with inflight := insert (call.key query) s.inflight } :
        DnsEngine U).calls[i]? = some call := h
    rw [heldKey_setPhase hh]
    rfl

theorem effect_answer (h : s.calls[i]? = some call) {query : DnsMessage}
    (hc : call.guardKey = some (call.key query)) (resp : Bytes) :
    Effect s (s.stepAnswer cfg i call query resp) i := by
  unfold stepAnswer
  by_cases hshort : resp.length < 2
  · rw [if_pos hshort]
    exact effect_drop h hc _ rfl
  · rw [if_neg hshort]
    refine effect_keep ?_ ?_ h (.leaving query (.answered _)) hc.symm <;> rfl

theorem effect_returned (h : s.calls[i]? = some call) (hc : call.guardKey = none)
    (query : DnsMessage) (reply : Reply) : Effect s (s.stepReturned cfg i call query reply) i := by
  unfold stepReturned
  split_ifs
  · cases s.cached cfg call with
    | some hit => exact effect_phase h hc _ rfl
    | none => exact effect_phase h hc _ rfl
  · exact .keeps rfl rfl

theorem effect_stepCall (h : s.calls[i]? = some call) (answer : Option Bytes) :
    Effect s (s.stepCall cfg i call answer) i := by
  unfold stepCall
  cases hp : call.phase with
  | resolving => exact effect_resolving h (by rw [Call.guardKey, hp])
  | lookup query => exact effect_lookup h (by rw [Call.guardKey, hp]) query
  | guard query => exact effect_guard h (by rw [Call.guardKey, hp]) query
  | walking query upstreams =>
    have hc : call.guardKey = some (call.key query) := by rw [Call.guardKey, hp]
    cases upstreams with
    | nil => exact .keeps rfl (heldKey_setPhase_same h hc.symm)
    | cons u upstreams =>
      cases answer with
      | none => exact .keeps rfl (heldKey_setPhase_same h hc.symm)
      | some resp => exact effect_answer h hc resp
  | leaving query reply => exact effect_drop h (by rw [Call.guardKey, hp]) _ rfl
  | returned query reply => exact effect_returned h (by rw [Call.guardKey, hp]) query reply
  | resolved addrs => exact .keeps rfl rfl
  | dropped => exact .keeps rfl rfl

theorem effect_cancelCall (h : s.calls[i]? = some call) : Effect s (s.cancelCall i call) i := by
  unfold cancelCall
  cases hp : call.phase with
  | walking query upstreams => exact effect_drop h (by rw [Call.guardKey, hp]) _ rfl
  | leaving query reply => exact effect_drop h (by rw [Call.guardKey, hp]) _ rfl
  | resolving => exact effect_phase h (by rw [Call.guardKey, hp]) _ rfl
  | lookup query => exact effect_phase h (by rw [Call.guardKey, hp]) _ rfl
  | guard query => exact effect_phase h (by rw [Call.guardKey, hp]) _ rfl
  | returned query reply => exact .keeps rfl rfl
  | resolved addrs => exact .keeps rfl rfl
  | dropped => exact .keeps rfl rfl

/-- The effect of any action; one that is no call's own changes neither set nor keys. -/
theorem effect_step (cfg : DnsConfig U) (s : DnsEngine U) (a : Action) :
    (∃ i, a.actor = some i ∧ Effect s (step cfg s a) i) ∨
      ((step cfg s a).inflight = s.inflight ∧ (step cfg s a).heldKey = s.heldKey) := by
  cases a with
  | forward query name qtype => exact Or.inr ⟨rfl, heldKey_append rfl⟩
  | resolve name qtype => exact Or.inr ⟨rfl, heldKey_append rfl⟩
  | tick d => exact Or.inr ⟨rfl, rfl⟩
  | clearCache => exact Or.inr ⟨rfl, rfl⟩
  | run i answer =>
    refine Or.inl ⟨i, rfl, ?_⟩
    cases hi : s.calls[i]? with
    | none =>
      rw [(step_missing hi answer).1]
      exact .keeps rfl rfl
    | some call =>
      rw [step_run hi]
      exact effect_stepCall hi answer
  | cancel i =>
    refine Or.inl ⟨i, rfl, ?_⟩
    cases hi : s.calls[i]? with
    | none =>
      rw [(step_missing hi none).2]
      exact .keeps rfl rfl
    | some call =>
      rw [step_cancel hi]
      exact effect_cancelCall hi

/-! ## Runs -/

def Guarded (s : DnsEngine U) : Prop := HeldKeys.Agrees s.heldKey s.inflight

theorem guarded_start (now : Nat) : Guarded (start now : DnsEngine U) := HeldKeys.agrees_empty

theorem Effect.guarded {s s' : DnsEngine U} {i : Nat} (he : Effect s s' i) (h : Guarded s) :
    Guarded s' := by
  unfold Guarded
  cases he with
  | keeps hset hheld =>
    rw [hset, hheld]
    exact h
  | takes k hfree hnone hset hheld =>
    rw [hset, hheld]
    exact HeldKeys.agrees_take h hnone hfree
  | gives k hown hset hheld =>
    rw [hset, hheld]
    exact HeldKeys.agrees_give h hown

theorem guarded_step (cfg : DnsConfig U) {s : DnsEngine U} (h : Guarded s) (a : Action) :
    Guarded (step cfg s a) := by
  rcases effect_step cfg s a with ⟨i, -, he⟩ | ⟨hset, hheld⟩
  · exact he.guarded h
  · unfold Guarded
    rw [hset, hheld]
    exact h

theorem guarded_run (cfg : DnsConfig U) (now : Nat) (as : List Action) :
    ∀ s ∈ Machine.states (step cfg) (start now) as, Guarded s :=
  Machine.inv_of_good Guarded (fun _ _ => True) (fun _ a h _ => guarded_step cfg h a)
    (guarded_start now) (fun _ _ => trivial)

/-- A key leaves the set only in a step of the call that holds it. -/
theorem removed_by_holder (cfg : DnsConfig U) {s : DnsEngine U} {a : Action} {k : Key}
    (hk : k ∈ s.inflight) (hgone : k ∉ (step cfg s a).inflight) :
    ∃ i, a.actor = some i ∧ s.heldKey i = some k := by
  rcases effect_step cfg s a with ⟨i, ha, he⟩ | ⟨hset, -⟩
  · cases he with
    | keeps hset hheld =>
      rw [hset] at hgone
      exact absurd hk hgone
    | takes k' hfree hnone hset hheld =>
      rw [hset, Finset.mem_insert] at hgone
      exact absurd (Or.inr hk) hgone
    | gives k' hown hset hheld =>
      rw [hset, Finset.mem_erase] at hgone
      have he : k = k' := by
        by_contra hne
        exact hgone ⟨hne, hk⟩
      exact ⟨i, ha, by rw [he]; exact hown⟩
  · rw [hset] at hgone
    exact absurd hk hgone

/-- The call stands before the guard with its key taken, or was sent back by it. -/
def Rejected (s : DnsEngine U) (i : Nat) : Prop :=
  ∃ call query, s.calls[i]? = some call ∧
    (call.phase = .guard query ∧ call.key query ∈ s.inflight ∨
      call.phase = .returned query .refused)

/-- Rejecting a call, and all it does afterwards, leaves the set alone. -/
theorem rejected_keeps (cfg : DnsConfig U) {s : DnsEngine U} {i : Nat} (h : Rejected s i)
    {a : Action} (ha : a.actor = some i) : (step cfg s a).inflight = s.inflight := by
  obtain ⟨call, query, hi, hphase⟩ := h
  have hstep : ∀ answer, (s.stepCall cfg i call answer).inflight = s.inflight := by
    intro answer
    unfold stepCall
    rcases hphase with ⟨hp, hin⟩ | hp
    · rw [hp]
      dsimp only
      unfold stepGuard
      rw [if_pos hin, inflight_setPhase]
    · rw [hp]
      dsimp only
      unfold stepReturned
      split_ifs
      · cases s.cached cfg call <;> rfl
      · rfl
  have hcancel : (s.cancelCall i call).inflight = s.inflight := by
    unfold cancelCall
    rcases hphase with ⟨hp, -⟩ | hp
    · rw [hp]
      rfl
    · rw [hp]
  cases a with
  | run j answer =>
    cases ha
    rw [step_run hi]
    exact hstep answer
  | cancel j =>
    cases ha
    rw [step_cancel hi]
    exact hcancel
  | forward query name qtype => cases ha
  | resolve name qtype => cases ha
  | tick d => cases ha
  | clearCache => cases ha

/-- What the loop guard promises of a state. -/
structure GuardSound (cfg : DnsConfig U) (s : DnsEngine U) : Prop where
  /-- The set is the keys of the calls that walk upstreams. -/
  inflight_eq : ∀ k, k ∈ s.inflight ↔ ∃ call ∈ s.calls, call.guardKey = some k
  /-- No two such calls share a key. -/
  unshared : ∀ i j k, s.heldKey i = some k → s.heldKey j = some k → i = j
  removed : ∀ a, ∀ k ∈ s.inflight, k ∉ (step cfg s a).inflight →
    ∃ i, a.actor = some i ∧ s.heldKey i = some k
  rejected : ∀ i, Rejected s i → ∀ a, a.actor = some i → (step cfg s a).inflight = s.inflight
  ended : (∀ call ∈ s.calls, call.forwardEnded = true) → s.inflight = ∅

theorem exists_heldKey_iff (s : DnsEngine U) (k : Key) :
    (∃ i, s.heldKey i = some k) ↔ ∃ call ∈ s.calls, call.guardKey = some k := by
  constructor
  · intro ⟨i, hi⟩
    obtain ⟨call, hcall, hk⟩ := Option.bind_eq_some_iff.mp hi
    exact ⟨call, List.mem_of_getElem? hcall, hk⟩
  · intro ⟨call, hmem, hk⟩
    obtain ⟨i, hi⟩ := List.mem_iff_getElem?.mp hmem
    exact ⟨i, by rw [heldKey_eq hi, hk]⟩

theorem Call.guardKey_of_ended {call : Call U} (h : call.forwardEnded = true) :
    call.guardKey = none := by
  unfold Call.forwardEnded at h
  unfold Call.guardKey
  cases hp : call.phase <;> rw [hp] at h <;> first | rfl | cases h

/-- The loop guard, over every interleaving of calls, answers and cancellations. -/
theorem inflight_guard (cfg : DnsConfig U) (now : Nat) (as : List Action) :
    ∀ s ∈ Machine.states (step cfg) (start now) as, GuardSound cfg s := by
  intro s hs
  have h := guarded_run cfg now as s hs
  refine ⟨fun k => ?_, h.unique, fun a k hk hgone => removed_by_holder cfg hk hgone,
    fun i hr a ha => rejected_keeps cfg hr ha, fun hended => ?_⟩
  · rw [h.mem_iff k, exists_heldKey_iff]
  · apply HeldKeys.agrees_idle h
    intro i
    unfold heldKey
    cases hi : s.calls[i]? with
    | none => rfl
    | some call => exact Call.guardKey_of_ended (hended call (List.mem_of_getElem? hi))

/-- Two calls with one key: the second is sent back, and the first still holds the key. -/
def loopRun : List Action :=
  [.forward sampleQuery ['a'] typeA, .run 0 none, .run 0 none, .forward sampleQuery ['a'] typeA,
    .run 1 none, .run 1 none]

theorem inflight_guard_sample :
    GuardSound (sampleConfig ∅) (loopRun.foldl (step (sampleConfig ∅)) (start 0)) :=
  inflight_guard (sampleConfig ∅) 0 loopRun _ (Machine.foldl_mem_states _ _)

end DnsEngine

end RustCrash.Dns
