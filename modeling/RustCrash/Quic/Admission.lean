import RustCrash.Quic.Hy2Connection

/-
  What reaches the relay before a connection has authenticated.

  On both servers a stream asks the auth flag before it goes to the relay, and on Hysteria2 a
  datagram does too. A TUIC datagram does not: the first one that completes a packet opens an
  association, whatever the flag says.
-/

namespace RustCrash.Quic

open Lib Lib.Machine Routing Proto

namespace TuicServer

/-! ## Datagrams that complete a packet -/

/-- The set a fragment goes to. -/
def entryFor (frags : Frags) (f : PacketFrame) : Fragments :=
  let frags := if maxFragSets ≤ frags.len then ∅ else frags
  let entry := (frags.lookup (f.sessionId, f.packetId)).getD (Fragments.new f.fragTotal)
  if entry.total ≠ f.fragTotal.toNat then Fragments.new f.fragTotal else entry

/-- The datagram is a packet with an address, or the last fragment that is missing of one. -/
def CompletesPacket (frags : Frags) (dg : Bytes) : Prop :=
  dg ≠ [tuicVersion, cmdHeartbeat] ∧ ∃ f, decodePacketFrame dg = .ok f ∧
    if f.fragTotal ≤ 1 then f.addr.isSome = true
    else (entryFor frags f).LastPart f.fragId.toNat ∧
      (keepAddr (entryFor frags f).head f.addr).isSome = true

theorem handleDatagram_delivers_iff {frags : Frags} {dg : Bytes} :
    (∃ t d, handleDatagram frags dg = some (t, some d)) ↔ CompletesPacket frags dg := by
  unfold handleDatagram CompletesPacket
  by_cases hb : dg = [tuicVersion, cmdHeartbeat]
  · simp [hb]
  · rw [if_neg hb]
    simp only [hb, ne_eq, not_false_eq_true, true_and]
    cases decodePacketFrame dg with
    | error e => simp
    | ok f =>
      simp only [Except.ok.injEq, exists_eq_left']
      by_cases ht : f.fragTotal ≤ 1
      · simp only [if_pos ht, Option.some.injEq, Prod.mk.injEq, exists_and_left, exists_eq_left',
          Option.map_eq_some_iff, Option.isSome_iff_exists]
        exact ⟨fun ⟨d, a, ha, _⟩ => ⟨a, ha⟩, fun ⟨a, ha⟩ => ⟨_, a, ha, rfl⟩⟩
      · rw [if_neg ht, if_neg ht, ← @FragSet.add_gives_iff _ _
          _ _ (keepAddr (entryFor frags f).head f.addr) f.data]
        change (∃ t d, Option.map _ (FragSet.add (entryFor frags f) f.fragId.toNat
          (keepAddr (entryFor frags f).head f.addr) f.data) = some (t, some d)) ↔ _
        constructor
        · rintro ⟨t, d, h⟩
          obtain ⟨⟨e, out⟩, he, hto⟩ := Option.map_eq_some_iff.mp h
          simp only [Prod.mk.injEq] at hto
          obtain ⟨w, rfl, hw⟩ := Option.bind_eq_some_iff.mp hto.2
          obtain ⟨target, hw, -⟩ := Option.map_eq_some_iff.mp hw
          refine ⟨⟨e, w, he⟩, ?_⟩
          rw [← FragSet.head_of_add he, hw]
          rfl
        · rintro ⟨⟨e, w, he⟩, hsome⟩
          obtain ⟨target, ha⟩ := Option.isSome_iff_exists.mp hsome
          rw [← FragSet.head_of_add he] at ha
          rw [he]
          simp [ha]

/-! ## The auth flag -/

variable {cfg : Credentials} {s : Connection}

/-- The step of a stream that has the UUID and the token. -/
def AuthStep (cfg : Credentials) (s : Connection) (e : Event) : Prop :=
  ∃ i content token, e = .task i true ∧ s.tasks[i]? = some (.uni content) ∧
    cfg.token = some token ∧
    content.take 50 = [tuicVersion, cmdAuthenticate] ++ cfg.uuid.val ++ token.val

theorem authenticates_eq_true {rest : Bytes} (h : authenticates cfg rest = some true) :
    ∃ token, cfg.token = some token ∧ rest.take 48 = cfg.uuid.val ++ token.val := by
  unfold authenticates at h
  split_ifs at h with hlen
  obtain ⟨token, ht, hok⟩ := Option.map_eq_some_iff.mp h
  obtain ⟨huuid, htoken⟩ := of_decide_eq_true hok
  refine ⟨token, ht, ?_⟩
  rw [show 48 = 16 + 32 by rfl, List.take_add, huuid, htoken]

@[simp] theorem deliver_authed (s : Connection) (d : TuicDelivery) :
    (s.deliver d).1.authed = s.authed := by
  unfold Connection.deliver Connection.udpSession
  split <;> rfl

@[simp] theorem deliverUniPacket_authed (s : Connection) (f : PacketFrame) :
    (s.deliverUniPacket f).1.authed = s.authed := by
  unfold Connection.deliverUniPacket
  split_ifs
  · rfl
  · rfl
  · split
    · rfl
    · exact deliver_authed s _

theorem handleUni_authed (cfg : Credentials) (s : Connection) (content : Bytes) :
    (s.handleUni cfg content).1.authed = s.authed ∨
      (s.handleUni cfg content).1.authed = true ∧ ∃ token, cfg.token = some token ∧
        content.take 50 = [tuicVersion, cmdAuthenticate] ++ cfg.uuid.val ++ token.val := by
  unfold Connection.handleUni
  split
  · next ver cmd rest =>
    split_ifs with hver hcmd
    · exact Or.inl rfl
    · split
      · exact Or.inl rfl
      · next hok =>
        obtain ⟨token, ht, htake⟩ := authenticates_eq_true hok
        refine Or.inr ⟨rfl, token, ht, ?_⟩
        rw [List.take_succ_cons, List.take_succ_cons, htake, not_not.mp hver, hcmd]
        rfl
      · exact Or.inl rfl
    · exact Or.inl rfl
    · split
      · exact Or.inl rfl
      · exact Or.inl (deliverUniPacket_authed s _)
    · exact Or.inl rfl
    · exact Or.inl rfl
    · exact Or.inl rfl
  · exact Or.inl rfl

/-- The flag is as it was, or such a step has set it. -/
theorem step_authed (cfg : Credentials) (s : Connection) (e : Event) :
    (s.step cfg e).authed = s.authed ∨ (s.step cfg e).authed = true ∧ AuthStep cfg s e := by
  cases e with
  | acceptBi content => exact Or.inl (by rw [Connection.step]; split <;> rfl)
  | acceptUni content => exact Or.inl (by rw [Connection.step]; split <;> rfl)
  | datagram dg =>
    refine Or.inl ?_
    rw [Connection.step]
    unfold Connection.takeDatagram
    split
    · split
      · rfl
      · rfl
      · exact deliver_authed s _
    · rfl
  | driverSent ok => exact Or.inl (by rw [Connection.step]; split <;> rfl)
  | task i ok =>
    rw [Connection.step]
    cases ht : s.tasks[i]? with
    | none => exact Or.inl rfl
    | some t =>
      cases ok with
      | false => exact Or.inl rfl
      | true =>
        simp only [if_true]
        cases t with
        | waitAuth content => exact Or.inl (by rw [Connection.stepTask]; split <;> rfl)
        | connect content => exact Or.inl (by rw [Connection.stepTask]; split <;> rfl)
        | uni content =>
          have hset : (s.stepTask cfg i (.uni content)).authed =
              (s.handleUni cfg content).1.authed := by
            rw [Connection.stepTask]
            split <;> · rw [‹s.handleUni cfg content = _›]; rfl
          rw [hset]
          refine (handleUni_authed cfg s content).imp_right fun ⟨hauth, token, htok, htake⟩ => ?_
          exact ⟨hauth, i, content, token, rfl, ht, htok, htake⟩
        | sending f => exact Or.inl rfl
        | done => exact Or.inl rfl
  | retire sessionId generation => exact Or.inl (by rw [Connection.step]; split <;> rfl)
  | lost => exact Or.inl rfl

/-! ## Before authentication -/

/-- A task that holds nothing of the relay. -/
def Task.early : Task → Bool
  | .waitAuth _ | .uni _ | .done => true
  | .connect _ | .sending _ => false

/-- Nothing was handed to the relay, and no task is about to. -/
structure Quiet (s : Connection) : Prop where
  relay : s.relay = []
  sessions : s.sessions = ∅
  tasks : ∀ t ∈ s.tasks, t.early = true
  driver : ∀ f, s.driver ≠ .sending f

/-- The invariant. -/
def Guarded (s : Connection) : Prop := s.authed = false → Quiet s

/-- A datagram completes a packet after the auth flag is set only. -/
def Admits (s : Connection) (e : Event) : Prop :=
  ∀ dg, e = .datagram dg → s.accepts = true → s.authed = false → ¬ CompletesPacket s.frags dg

theorem guarded_new : Guarded Connection.new := fun _ =>
  ⟨rfl, rfl, fun _ h => absurd h List.not_mem_nil, fun _ h => Driver.noConfusion h⟩

theorem Quiet.setTask (h : Quiet s) (i : Nat) {t : Task} (ht : t.early = true) :
    Quiet (s.setTask i t) :=
  ⟨h.relay, h.sessions, fun u hu => by
    rcases List.mem_or_eq_of_mem_set hu with hu | rfl
    · exact h.tasks u hu
    · exact ht, h.driver⟩

theorem Quiet.push (h : Quiet s) {t : Task} (ht : t.early = true) :
    Quiet { s with tasks := s.tasks ++ [t] } :=
  ⟨h.relay, h.sessions, fun u hu => by
    rcases List.mem_append.mp hu with hu | hu
    · exact h.tasks u hu
    · rw [List.mem_singleton.mp hu]
      exact ht, h.driver⟩

theorem deliverUniPacket_early (f : PacketFrame) (ha : s.authed = false) :
    s.deliverUniPacket f = (s, none) := by
  unfold Connection.deliverUniPacket
  rw [ha]
  rfl

/-- A uni stream before authentication sends nothing; it may set the flag. -/
theorem Quiet.handleUni (h : Quiet s) (ha : s.authed = false) (content : Bytes) :
    (s.handleUni cfg content).2 = none ∧
      ((s.handleUni cfg content).1.authed = false → Quiet (s.handleUni cfg content).1) := by
  unfold Connection.handleUni
  split
  · split_ifs
    · exact ⟨rfl, fun _ => h⟩
    · split
      · exact ⟨rfl, fun _ => h⟩
      · exact ⟨rfl, fun hc => by cases hc⟩
      · exact ⟨rfl, fun _ => ⟨h.relay, h.sessions, h.tasks, h.driver⟩⟩
    · exact ⟨rfl, fun _ => h⟩
    · split
      · exact ⟨rfl, fun _ => h⟩
      · rw [deliverUniPacket_early _ ha]
        exact ⟨rfl, fun _ => h⟩
    · exact ⟨rfl, fun _ => h⟩
    · refine ⟨rfl, fun _ => ⟨h.relay, ?_, h.tasks, h.driver⟩⟩
      dsimp only
      rw [h.sessions]
      rfl
    · exact ⟨rfl, fun _ => h⟩
  · exact ⟨rfl, fun _ => h⟩

theorem Quiet.stepTask (h : Quiet s) (ha : s.authed = false) (i : Nat) {t : Task}
    (ht : t.early = true) (hf : (s.stepTask cfg i t).authed = false) :
    Quiet (s.stepTask cfg i t) := by
  cases t with
  | waitAuth content =>
    rw [Connection.stepTask, ha]
    exact h
  | connect content => cases ht
  | uni content =>
    obtain ⟨hnone, hquiet⟩ := @Quiet.handleUni cfg s h ha content
    obtain ⟨u, out, hu⟩ : ∃ u out, s.handleUni cfg content = (u, out) := ⟨_, _, rfl⟩
    rw [hu] at hnone hquiet
    cases hnone
    simp only [Connection.stepTask, hu] at hf ⊢
    exact (hquiet hf).setTask i rfl
  | sending f => cases ht
  | done => exact h

theorem Quiet.takeDatagram (h : Quiet s) {dg : Bytes} (hc : ¬ CompletesPacket s.frags dg) :
    Quiet (s.takeDatagram dg) := by
  unfold Connection.takeDatagram
  split
  · exact ⟨h.relay, h.sessions, h.tasks, fun f hf => Driver.noConfusion hf⟩
  · exact ⟨h.relay, h.sessions, h.tasks, h.driver⟩
  · exact absurd (handleDatagram_delivers_iff.mp ⟨_, _, ‹_›⟩) hc

/-- One step keeps the invariant unless a datagram completes a packet too early. -/
theorem Guarded.step (h : Guarded s) {e : Event} (he : Admits s e) :
    Guarded (s.step cfg e) := by
  intro hf
  have ha : s.authed = false := by
    rcases step_authed cfg s e with hsame | ⟨hset, -⟩
    · rw [← hsame, hf]
    · rw [hset] at hf
      cases hf
  have hq := h ha
  cases e with
  | acceptBi content =>
    rw [Connection.step]
    split
    · exact hq.push rfl
    · exact hq
  | acceptUni content =>
    rw [Connection.step]
    split
    · exact hq.push rfl
    · exact hq
  | datagram dg =>
    rw [Connection.step]
    split
    · exact hq.takeDatagram (he dg rfl ‹_› ha)
    · exact hq
  | driverSent ok =>
    rw [Connection.step]
    split
    · exact absurd ‹_› (hq.driver _)
    · exact hq
  | task i ok =>
    rw [Connection.step] at hf ⊢
    cases ht : s.tasks[i]? with
    | none => exact hq
    | some t =>
      simp only [ht] at hf ⊢
      cases ok with
      | true => exact hq.stepTask ha i (hq.tasks t (List.mem_of_getElem? ht)) hf
      | false => exact hq.setTask i rfl
  | retire sessionId generation =>
    rw [Connection.step, hq.sessions, AList.lookup_empty]
    exact hq
  | lost => exact ⟨hq.relay, hq.sessions, hq.tasks, hq.driver⟩

/-- A datagram that completes a packet before authentication opens an association. -/
theorem Quiet.opens (h : Quiet s) {dg : Bytes} (hacc : s.accepts = true)
    (hc : CompletesPacket s.frags dg) (cfg : Credentials) :
    (s.step cfg (.datagram dg)).relay ≠ [] ∧
      (s.step cfg (.datagram dg)).authed = s.authed := by
  obtain ⟨t, d, hd⟩ := handleDatagram_delivers_iff.mpr hc
  have hlook : s.sessions.lookup d.sessionId = none := by
    rw [h.sessions]
    exact AList.lookup_empty _
  simp only [Connection.step, hacc, if_true, Connection.takeDatagram, hd, Connection.deliver,
    Connection.udpSession, hlook]
  exact ⟨by simp, trivial⟩

/-- Nothing is handed to the relay before the auth flag is set. -/
def WaitsForAuth (s : Connection) : Prop := s.relay ≠ [] → s.authed = true

theorem Guarded.waits (h : Guarded s) : WaitsForAuth s := by
  intro hr
  by_contra ha
  exact hr (h (by simpa using ha)).relay

/-- Over a run, exactly when no datagram completes a packet before the flag is set. -/
theorem waits_iff (cfg : Credentials) (events : List Event) :
    (∀ s ∈ states (Connection.step cfg) .new events, WaitsForAuth s) ↔
      ∀ p ∈ steps (Connection.step cfg) .new events, Admits p.1 p.2 := by
  constructor
  · intro h
    have hadmits : ∀ s e, Guarded s → WaitsForAuth (s.step cfg e) → Admits s e := by
      intro s e hs hw dg hdg hacc ha hc
      subst hdg
      obtain ⟨hr, hsame⟩ := (hs ha).opens hacc hc cfg
      have := hw hr
      rw [hsame, ha] at this
      cases this
    have hguard := inv_of_good Guarded (fun s e => WaitsForAuth (s.step cfg e))
      (fun s e hs hw => hs.step (hadmits s e hs hw)) guarded_new
      (fun p hp => h _ (next_mem_states hp))
    exact fun p hp => hadmits p.1 p.2 (hguard _ (steps_mem_states hp)) (h _ (next_mem_states hp))
  · intro h s hs
    exact (inv_of_good Guarded Admits (fun s e hg he => hg.step he) guarded_new h s hs).waits

theorem authStep_of_authed (cfg : Credentials) {events : List Event} (ha : s.authed = false)
    (h : (events.foldl (Connection.step cfg) s).authed = true) :
    ∃ p ∈ steps (Connection.step cfg) s events, AuthStep cfg p.1 p.2 := by
  induction events generalizing s with
  | nil =>
    rw [List.foldl_nil, ha] at h
    cases h
  | cons e events ih =>
    by_cases hnext : (s.step cfg e).authed = true
    · refine ⟨(s, e), List.mem_cons_self, ?_⟩
      rcases step_authed cfg s e with hsame | ⟨-, hauth⟩
      · rw [hsame, ha] at hnext
        cases hnext
      · exact hauth
    · obtain ⟨p, hp, hauth⟩ := ih (by simpa using hnext) h
      exact ⟨p, List.mem_cons_of_mem _ hp, hauth⟩

end TuicServer

namespace Hy2Server

/-! ## Hysteria2 -/

variable {password : Str} {s : Connection}

/-- The step of a stream whose field section has the password. -/
def AuthStep (password : Str) (s : Connection) (e : Event) : Prop :=
  ∃ i content, e = .task i true ∧ s.tasks[i]? = some (.auth content) ∧
    authenticates password content = some true

/-- The password was read: the flag is set, or the answer is on its way. -/
def Accepted (s : Connection) : Prop := s.authed = true ∨ Task.answering true ∈ s.tasks

/-- A task that holds nothing of the relay. -/
def Task.early : Task → Bool
  | .auth _ | .answering _ | .waitAuth _ | .done => true
  | .request _ | .responding _ => false

/-- Nothing was handed to the relay, and no task is about to. -/
structure Quiet (s : Connection) : Prop where
  relay : s.relay = []
  sessions : s.sessions = ∅
  tasks : ∀ t ∈ s.tasks, t.early = true
  driver : ∀ f, s.driver ≠ .sending f

def Guarded (s : Connection) : Prop := s.authed = false → Quiet s

theorem guarded_new : Guarded Connection.new := fun _ =>
  ⟨rfl, rfl, fun _ h => absurd h List.not_mem_nil, fun _ h => DriverState.noConfusion h⟩

theorem Quiet.setTask (h : Quiet s) (i : Nat) {t : Task} (ht : t.early = true) :
    Quiet (s.setTask i t) :=
  ⟨h.relay, h.sessions, fun u hu => by
    rcases List.mem_or_eq_of_mem_set hu with hu | rfl
    · exact h.tasks u hu
    · exact ht, h.driver⟩

theorem Quiet.push (h : Quiet s) {t : Task} (ht : t.early = true) :
    Quiet { s with tasks := s.tasks ++ [t] } :=
  ⟨h.relay, h.sessions, fun u hu => by
    rcases List.mem_append.mp hu with hu | hu
    · exact h.tasks u hu
    · rw [List.mem_singleton.mp hu]
      exact ht, h.driver⟩

theorem Quiet.setDriver (h : Quiet s) {d : DriverState} (hd : ∀ f, d ≠ .sending f) :
    Quiet { s with driver := d } := ⟨h.relay, h.sessions, h.tasks, hd⟩

theorem Quiet.spawn (h : Quiet s) (content : Bytes) : Quiet (s.spawn content) := by
  unfold Connection.spawn
  split
  · exact h
  · split_ifs
    · exact h.push rfl
    · exact h.push rfl
    · exact h

/-- A datagram asks the flag first. -/
theorem Quiet.takeDatagram (h : Quiet s) (ha : s.authed = false) (msg : Bytes) :
    Quiet (s.takeDatagram msg) := by
  have hnone : handleDatagram s.frags s.authed msg = some (s.frags, none) := by
    unfold handleDatagram
    rw [ha]
    rfl
  unfold Connection.takeDatagram
  rw [hnone]
  exact ⟨h.relay, h.sessions, h.tasks, h.driver⟩

theorem Quiet.stepTask (h : Quiet s) (ha : s.authed = false) (i : Nat) {t : Task}
    (ht : t.early = true) : Quiet (s.stepTask password i t) := by
  cases t with
  | auth content =>
    rw [Connection.stepTask]
    split
    · exact h.setTask i rfl
    · exact h.setTask i rfl
  | answering ok =>
    exact Quiet.setTask (s := { s with authed := s.authed || ok })
      ⟨h.relay, h.sessions, h.tasks, h.driver⟩ i rfl
  | waitAuth content =>
    rw [Connection.stepTask, ha]
    exact h
  | request content => cases ht
  | responding target => cases ht
  | done => exact h

/-- Once set, the flag stays. -/
theorem step_authed (e : Event) (ha : s.authed = true) : (s.step password e).authed = true := by
  have hopen : ∀ id, (s.udpSession id).1.authed = true := fun id => by
    unfold Connection.udpSession
    split <;> exact ha
  have hspawn : ∀ content, (Connection.spawn { s with driver := .waiting } content).authed =
      true := fun content => by
    unfold Connection.spawn
    split
    · exact ha
    · split_ifs <;> exact ha
  cases e with
  | acceptBi content => rw [Connection.step]; split <;> exact ha
  | datagram msg =>
    rw [Connection.step]
    unfold Connection.takeDatagram
    split
    · split
      · exact ha
      · exact ha
      · exact hopen _
    · exact ha
  | driver ok =>
    rw [Connection.step]
    split
    · split
      · exact hspawn _
      · exact ha
    · exact ha
    · exact ha
  | task i ok =>
    rw [Connection.step]
    split
    · exact ha
    · split
      · unfold Connection.stepTask
        repeat' split
        all_goals first | exact ha | simp [Connection.setTask, ha]
      · exact ha
  | retire sessionId generation => rw [Connection.step]; split <;> exact ha
  | lost => exact ha

/-- Every step keeps the invariant. -/
theorem Guarded.step (h : Guarded s) (e : Event) : Guarded (s.step password e) := by
  intro hf
  have ha : s.authed = false := by
    by_contra hne
    rw [step_authed e (by simpa using hne)] at hf
    cases hf
  have hq := h ha
  cases e with
  | acceptBi content =>
    rw [Connection.step]
    split
    · exact hq.setDriver fun f hd => DriverState.noConfusion hd
    · exact hq
  | datagram msg =>
    rw [Connection.step]
    split
    · exact hq.takeDatagram ha msg
    · exact hq
  | driver ok =>
    have hw := hq.setDriver (d := .waiting) fun f hd => DriverState.noConfusion hd
    rw [Connection.step]
    split
    · split
      · exact hw.spawn _
      · exact hw
    · exact absurd ‹_› (hq.driver _)
    · exact hq
  | task i ok =>
    rw [Connection.step]
    cases ht : s.tasks[i]? with
    | none => exact hq
    | some t =>
      cases ok with
      | true => exact hq.stepTask ha i (hq.tasks t (List.mem_of_getElem? ht))
      | false => exact hq.setTask i rfl
  | retire sessionId generation =>
    rw [Connection.step, hq.sessions, AList.lookup_empty]
    exact hq
  | lost => exact ⟨hq.relay, hq.sessions, hq.tasks, hq.driver⟩

/-- Nothing is handed to the relay before the auth flag is set. -/
def WaitsForAuth (s : Connection) : Prop := s.relay ≠ [] → s.authed = true

theorem waits (password : Str) (events : List Event) :
    ∀ s ∈ states (Connection.step password) .new events, WaitsForAuth s := by
  intro s hs hr
  have hg := inv_of_step Guarded (fun s e hg => @Guarded.step password s hg e)
    guarded_new events s hs
  by_contra ha
  exact hr (hg (by simpa using ha)).relay

/-! ## The password -/

theorem accepted_setTask {i : Nat} {t : Task} (h : Accepted (s.setTask i t)) :
    Accepted s ∨ t = .answering true := by
  rcases h with ha | hmem
  · exact Or.inl (Or.inl ha)
  · rcases List.mem_or_eq_of_mem_set hmem with hmem | heq
    · exact Or.inl (Or.inr hmem)
    · exact Or.inr heq.symm

theorem accepted_push {t : Task} (ht : t ≠ .answering true)
    (h : Accepted { s with tasks := s.tasks ++ [t] }) : Accepted s := by
  rcases h with ha | hmem
  · exact Or.inl ha
  · rcases List.mem_append.mp hmem with hmem | hmem
    · exact Or.inr hmem
    · exact absurd (List.mem_singleton.mp hmem).symm ht

theorem accepted_spawn {content : Bytes} (h : Accepted (s.spawn content)) : Accepted s := by
  unfold Connection.spawn at h
  split at h
  · exact h
  · split_ifs at h
    · exact accepted_push (fun hc => Task.noConfusion hc) h
    · exact accepted_push (fun hc => Task.noConfusion hc) h
    · exact h

theorem accepted_stepTask {i : Nat} {t : Task} (ht : s.tasks[i]? = some t)
    (h : Accepted (s.stepTask password i t)) : Accepted s ∨ AuthStep password s (.task i true) := by
  cases t with
  | auth content =>
    rw [Connection.stepTask] at h
    split at h
    · exact (accepted_setTask h).imp_right fun hc => Task.noConfusion hc
    · next ok hok =>
      refine (accepted_setTask h).imp_right fun hc => ⟨i, content, rfl, ht, ?_⟩
      cases hc
      exact hok
  | answering ok =>
    have hmem : Task.answering ok ∈ s.tasks := List.mem_of_getElem? ht
    rcases accepted_setTask (s := { s with authed := s.authed || ok }) h with hacc | hc
    · rcases hacc with ha | hm
      · rcases Bool.or_eq_true_iff.mp ha with ha | rfl
        · exact Or.inl (Or.inl ha)
        · exact Or.inl (Or.inr hmem)
      · exact Or.inl (Or.inr hm)
    · cases hc
  | waitAuth content =>
    rw [Connection.stepTask] at h
    split at h
    · exact (accepted_setTask h).imp_right fun hc => Task.noConfusion hc
    · exact Or.inl h
  | request content =>
    rw [Connection.stepTask] at h
    split at h
    · exact (accepted_setTask h).imp_right fun hc => Task.noConfusion hc
    · exact (accepted_setTask h).imp_right fun hc => Task.noConfusion hc
  | responding target =>
    rcases accepted_setTask (s := s.handOff target) h with hacc | hc
    · exact Or.inl hacc
    · cases hc
  | done => exact Or.inl h

/-- Only a stream with the password gets the connection accepted. -/
theorem accepted_step {e : Event} (h : Accepted (s.step password e)) :
    Accepted s ∨ AuthStep password s e := by
  cases e with
  | acceptBi content =>
    rw [Connection.step] at h
    split at h <;> exact Or.inl h
  | datagram msg =>
    refine Or.inl ?_
    rw [Connection.step] at h
    unfold Connection.takeDatagram Connection.udpSession at h
    repeat' split at h
    all_goals exact h
  | driver ok =>
    refine Or.inl ?_
    rw [Connection.step] at h
    split at h
    · split at h
      · exact accepted_spawn (s := { s with driver := .waiting }) h
      · exact h
    · exact h
    · exact h
  | task i ok =>
    rw [Connection.step] at h
    cases ht : s.tasks[i]? with
    | none =>
      rw [ht] at h
      exact Or.inl h
    | some t =>
      simp only [ht] at h
      cases ok with
      | true => exact accepted_stepTask ht h
      | false => exact (accepted_setTask h).imp_right fun hc => Task.noConfusion hc
  | retire sessionId generation =>
    rw [Connection.step] at h
    split at h <;> exact Or.inl h
  | lost => exact Or.inl h

theorem authStep_of_authed (password : Str) {events : List Event} (hs : ¬ Accepted s)
    (h : Accepted (events.foldl (Connection.step password) s)) :
    ∃ p ∈ steps (Connection.step password) s events, AuthStep password p.1 p.2 := by
  induction events generalizing s with
  | nil => exact absurd h hs
  | cons e events ih =>
    by_cases hnext : Accepted (s.step password e)
    · exact ⟨(s, e), List.mem_cons_self, (accepted_step hnext).resolve_left hs⟩
    · obtain ⟨p, hp, hauth⟩ := ih hnext h
      exact ⟨p, List.mem_cons_of_mem _ hp, hauth⟩

theorem not_accepted_new : ¬ Accepted Connection.new := by
  rintro (h | h)
  · cases h
  · exact List.not_mem_nil h

end Hy2Server

/-! ## Both -/

/-- A TUIC connection hands nothing to the relay before it has authenticated exactly when no
    datagram completes a packet earlier; a Hysteria2 connection never does. The flag of either
    is set by a stream with the right credentials only. -/
theorem relay_waits_iff (cfg : TuicServer.Credentials) (events : List TuicServer.Event)
    (password : Str) (hy2Events : List Hy2Server.Event) :
    (((∀ s ∈ states (TuicServer.Connection.step cfg) .new events, TuicServer.WaitsForAuth s) ↔
        ∀ p ∈ steps (TuicServer.Connection.step cfg) .new events, TuicServer.Admits p.1 p.2) ∧
      ((events.foldl (TuicServer.Connection.step cfg) .new).authed = true →
        ∃ p ∈ steps (TuicServer.Connection.step cfg) .new events,
          TuicServer.AuthStep cfg p.1 p.2)) ∧
    (∀ s ∈ states (Hy2Server.Connection.step password) .new hy2Events,
      Hy2Server.WaitsForAuth s) ∧
    ((hy2Events.foldl (Hy2Server.Connection.step password) .new).authed = true →
      ∃ p ∈ steps (Hy2Server.Connection.step password) .new hy2Events,
        Hy2Server.AuthStep password p.1 p.2) :=
  ⟨⟨TuicServer.waits_iff cfg events, TuicServer.authStep_of_authed cfg rfl⟩,
    Hy2Server.waits password hy2Events,
    fun h => Hy2Server.authStep_of_authed password Hy2Server.not_accepted_new (Or.inl h)⟩

/-- A client that never authenticates: one packet for 1.1.1.1:53. -/
theorem relay_before_auth :
    let cfg : TuicServer.Credentials := ⟨ByteVec.zero 16, some (ByteVec.zero 32)⟩
    let s := TuicServer.Connection.step cfg .new
      (.datagram (encodePacketFrame 1 7 0 1 (some ⟨.ip (.v4 0x01010101), 53⟩) [0x61]))
    s.authed = false ∧ s.relay.length = 1 := by
  decide +kernel

/-- A heartbeat completes nothing. -/
theorem relay_waits_heartbeat :
    let cfg : TuicServer.Credentials := ⟨ByteVec.zero 16, some (ByteVec.zero 32)⟩
    ∀ s ∈ states (TuicServer.Connection.step cfg) .new [.datagram [tuicVersion, cmdHeartbeat]],
      TuicServer.WaitsForAuth s := by
  intro cfg
  refine (relay_waits_iff cfg _ [] []).1.1.mpr fun p hp dg hdg _ _ hc => ?_
  rw [List.mem_singleton.mp hp] at hdg
  cases hdg
  exact hc.1 rfl

end RustCrash.Quic
