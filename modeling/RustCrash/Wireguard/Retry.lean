import RustCrash.Wireguard.Stack

/-
  The WireGuard client keeps its handshake going.

  `Driving` is the invariant: a pending handshake has its retry armed, five seconds after the
  last initiation, and without a retry the last initiation is old enough to be repeated, or a
  session has come since. Every event keeps it except two: an initiation that cannot be built,
  and the tick that finds the retry due with all attempts used up. That tick leaves
  the handshake pending, so nothing ever starts a new one.
-/

namespace RustCrash.Wireguard

open Lib

/-! ## The invariant -/

structure Driving (s : Stack) (now : Nat) : Prop where
  armed : s.pendingHs.isSome = true → s.hsRetryAt.isSome = true
  retry : ∀ r, s.hsRetryAt = some r →
    ∃ last, s.lastInitiation = some last ∧ r = last + rekeyTimeout
  past : ∀ last, s.lastInitiation = some last → last ≤ now
  created : ∀ t, s.session.map Session.created = some t → t ≤ now ∧
    (s.hsRetryAt = none → ∀ last, s.lastInitiation = some last → last ≤ t)
  idle : s.session = none → s.hsRetryAt = none →
    ∀ last, s.lastInitiation = some last → last + rekeyTimeout ≤ now

namespace Driving

variable {s s' : Stack} {now now' : Nat}

theorem mono (h : Driving s now) (hle : now ≤ now') : Driving s now' where
  armed := h.armed
  retry := h.retry
  past last hl := (h.past last hl).trans hle
  created t ht := ⟨((h.created t ht).1).trans hle, (h.created t ht).2⟩
  idle hs hr last hl := (h.idle hs hr last hl).trans hle

theorem of_quiet (h : Driving s now) (hq : Quiet s s') : Driving s' now := by
  obtain ⟨-, -, -, hp, hr, hl, hsess⟩ := hq
  refine ⟨?_, ?_, ?_, ?_, ?_⟩
  · rw [hp, hr]
    exact h.armed
  · rw [hr, hl]
    exact h.retry
  · rw [hl]
    exact h.past
  · rw [hsess, hr, hl]
    exact h.created
  · intro hnone
    have hold : s.session = none := by
      rw [hnone, Option.map_none] at hsess
      exact Option.map_eq_none_iff.mp hsess.symm
    rw [hr, hl]
    exact h.idle hold

/-- The state an initiation leaves. -/
theorem initiated (h : Driving s now) (pending : InitiationPending) :
    Driving { s with
      lastInitiation := some now
      pendingHs := some pending
      hsRetryAt := some (now + rekeyTimeout) } now where
  armed _ := rfl
  retry r hr := by
    cases hr
    exact ⟨now, rfl, rfl⟩
  past last hl := by
    cases hl
    exact le_refl _
  created t ht := ⟨(h.created t ht).1, fun hr => by cases hr⟩
  idle _ hr := by cases hr

/-- The pending handshake may be taken away. -/
theorem takePending (h : Driving s now) : Driving { s with pendingHs := none } now :=
  ⟨fun hp => Bool.noConfusion hp, h.retry, h.past, h.created, h.idle⟩

/-- A dead session may be dropped. -/
theorem dropSession (h : Driving s now) {sess : Session} (hs : s.session = some sess)
    (hdead : sessionExpired sess.created now = true) :
    Driving { s with session := none } now where
  armed := h.armed
  retry := h.retry
  past := h.past
  created t ht := by cases ht
  idle _ hr last hl := by
    have hcreated := h.created sess.created (by rw [hs]; rfl)
    have hle := hcreated.2 hr last hl
    have hage : rejectAfterTime ≤ now - sess.created := of_decide_eq_true hdead
    have hlong : rekeyTimeout ≤ rejectAfterTime := by decide
    show last + rekeyTimeout ≤ now
    omega

theorem dropExpired (h : Driving s now) : Driving (s.dropExpired now) now := by
  unfold Stack.dropExpired
  dsimp only
  split_ifs with hdead
  · cases hs : s.session with
    | none =>
      rw [hs] at hdead
      cases hdead
    | some sess =>
      rw [hs, Option.any_some] at hdead
      exact h.dropSession hs hdead
  · exact h

theorem of_done (h : Driving s now) (c : Crates) (done : HandshakeDone) (t : Clock)
    (localIndex : UInt32) (ht : now ≤ t.t0) :
    Driving (s.onHandshakeDone c done t localIndex).1 t.t2 := by
  obtain ⟨hp, hr, hl, hsess⟩ := onHandshakeDone_spec c s done t localIndex
  have hlast := (h.mono ht).past
  have h02 : t.t0 ≤ t.t2 := t.h01.trans t.h12
  rw [← hl] at hlast
  refine ⟨?_, ?_, fun last hs => (hlast last hs).trans h02, ?_, ?_⟩
  · rw [hp]
    intro hs
    cases hs
  · intro r hs
    rw [hr] at hs
    cases hs
  · intro u hu
    rw [hsess] at hu
    cases hu
    exact ⟨h02, fun _ => hlast⟩
  · intro hnone
    rw [hnone] at hsess
    cases hsess

theorem of_initiate {c : Crates} (hc : c.Lawful) (h : Driving s now) (force : Bool) {d : Draw}
    (hd : Buildable c s d) : Driving (s.initiate c force now d).1 now := by
  rcases initiate_cases hc force now hd with ⟨heq, -⟩ | ⟨pending, sent, heq⟩
  · rw [heq]
    exact h
  · rw [heq]
    exact h.initiated pending

end Driving

/-! ## The handlers -/

/-- The retry is due and all attempts are used up: the tick that gives up. -/
def GivesUp (s : Stack) (now : Nat) : Prop :=
  s.gaveUp = true ∧ ∃ r, s.hsRetryAt = some r ∧ r ≤ now

section

variable {c : Crates} {s : Stack} {now : Nat}

theorem buildable_dropExpired {d : Draw} (hd : Buildable c s d) (now : Nat) :
    Buildable c (s.dropExpired now) d := by
  unfold Stack.dropExpired
  dsimp only
  split_ifs <;> exact hd

/-- With a handshake driven, ensuring the session keeps it driven; with no live session
    afterwards the retry is armed. -/
theorem driving_ensureSession (hc : c.Lawful) (h : Driving s now) {t : Clock} (ht : now ≤ t.t0)
    {d : Draw} (hd : Buildable c s d) :
    Driving (s.ensureSession c t d).1 t.t1 ∧
      ((s.ensureSession c t d).1.session = none →
        (s.ensureSession c t d).1.hsRetryAt.isSome = true) := by
  let u := s.dropExpired t.t0
  have hdrive : Driving u t.t0 := (h.mono ht).dropExpired
  have hbuild : Buildable c u d := buildable_dropExpired hd t.t0
  have hu : s.ensureSession c t d = (if u.session.isNone && u.pendingHs.isNone
      then u.initiate c false t.t1 d else (u, [])) := rfl
  have hdrive1 := hdrive.mono t.h01
  rw [hu]
  cases hidle : (u.session.isNone && u.pendingHs.isNone) with
  | true =>
    rw [if_pos rfl]
    refine ⟨hdrive1.of_initiate hc false hbuild, fun _ => ?_⟩
    obtain ⟨hnone, hpend⟩ := Bool.and_eq_true_iff.mp hidle
    rw [Option.isNone_iff_eq_none] at hnone hpend
    rcases initiate_cases hc false t.t1 hbuild with ⟨heq, hheld⟩ | ⟨pending, sent, heq⟩
    · -- held back: by the rate limit, since nothing is pending, so a retry is armed
      rw [heq]
      have hgave : u.gaveUp = false := by
        unfold Stack.gaveUp
        rw [hpend, Option.any_none]
      have hlimit : u.rateLimited t.t1 = true := by simpa [hgave] using hheld
      by_contra hnot
      have hr : u.hsRetryAt = none := by simpa using hnot
      unfold Stack.rateLimited at hlimit
      cases hl : u.lastInitiation with
      | none =>
        rw [hl] at hlimit
        cases hlimit
      | some last =>
        have hold := hdrive1.idle hnone hr last hl
        rw [hl, Option.any_some, decide_eq_true_iff] at hlimit
        omega
    · rw [heq]
      rfl
  | false =>
    rw [if_neg Bool.false_ne_true]
    refine ⟨hdrive1, fun hnone => hdrive1.armed ?_⟩
    rw [hnone, Option.isNone_none, Bool.true_and] at hidle
    simpa using hidle

theorem driving_onDatagram (hc : c.Lawful) (h : Driving s now) (raw : Bytes) {t : Clock}
    (ht : now ≤ t.t0) {d : Draw} (hd : Buildable c s d) (localIndex : UInt32) :
    Driving (s.onDatagram c raw t d localIndex).1 t.t2 := by
  have h02 : t.t0 ≤ t.t2 := t.h01.trans t.h12
  have hkeep : Driving s t.t2 := h.mono (ht.trans h02)
  unfold Stack.onDatagram
  split
  · exact hkeep
  · exact hkeep.of_quiet (quiet_onTransport c s _ _ _ _)
  · unfold Stack.onResponse
    split
    · exact hkeep
    · dsimp only
      split
      · exact h.takePending.of_done c _ t localIndex ht
      · exact hkeep.takePending
  · unfold Stack.onCookie
    split
    · exact hkeep
    · split
      · next cookie _ =>
        have hq : Quiet s { s with cookie := some (cookie, t.t0) } :=
          ⟨rfl, rfl, rfl, rfl, rfl, rfl, rfl⟩
        exact (((h.mono (ht.trans t.h01)).of_quiet hq).of_initiate hc true
          (hd.of_quiet hq)).mono t.h12
      · exact hkeep
  · exact hkeep

/-- After the session's timer the handshake is driven, and a retry that is due then was due
    before. -/
theorem driving_sessionTimer (hc : c.Lawful) (h : Driving s now) {t : Clock} (ht : now ≤ t.t0)
    {d : Draw} (hd : Buildable c s d) :
    Driving (s.sessionTimer c t d).1 t.t1 ∧ (s.sessionTimer c t d).1.peerPk = s.peerPk ∧
      (s.sessionTimer c t d).1.statics = s.statics ∧
      (GivesUp (s.sessionTimer c t d).1 t.t0 → GivesUp s t.t0) := by
  have hkeep : Driving s t.t1 := h.mono (ht.trans t.h01)
  unfold Stack.sessionTimer
  cases hs : s.session with
  | none => exact ⟨hkeep, rfl, rfl, id⟩
  | some sess =>
    dsimp only
    split_ifs with hdead hrekey
    · exact ⟨((h.mono ht).dropSession hs hdead).mono t.h01, rfl, rfl, id⟩
    · refine ⟨hkeep.of_initiate hc false hd, ?_⟩
      rcases initiate_cases hc false t.t1 hd with ⟨heq, -⟩ | ⟨pending, sent, heq⟩
      · rw [heq]
        exact ⟨rfl, rfl, id⟩
      · rw [heq]
        refine ⟨rfl, rfl, fun hgives => ?_⟩
        obtain ⟨-, r, hr, hdue⟩ := hgives
        cases hr
        have := t.h01
        have hpos : t.t1 < t.t1 + rekeyTimeout := Nat.lt_add_of_pos_right (by decide)
        omega
    · have hq := quiet_sendEmpty c s t.t1
      refine ⟨hkeep.of_quiet hq, hq.peerPk, hq.statics, fun hgives => ?_⟩
      unfold GivesUp Stack.gaveUp at hgives ⊢
      rw [hq.pendingHs, hq.hsRetryAt] at hgives
      exact hgives
    · exact ⟨hkeep, rfl, rfl, id⟩

/-- A due retry goes out: its five seconds are over, and attempts are left. -/
theorem driving_retryTimer (hc : c.Lawful) {t : Clock} (h : Driving s t.t1) {d : Draw}
    (hd : Buildable c s d) (hgives : ¬ GivesUp s t.t0) :
    Driving (s.retryTimer c t d).1 t.t2 := by
  unfold Stack.retryTimer
  cases hr : s.hsRetryAt with
  | none => exact h.mono t.h12
  | some r =>
    dsimp only
    split_ifs with hdue
    · obtain ⟨last, hl, hrl⟩ := h.retry r hr
      have hd' : Buildable c { s with hsRetryAt := none } d := hd
      have hgave : ({ s with hsRetryAt := none } : Stack).gaveUp = false := by
        by_contra hne
        exact hgives ⟨Bool.eq_true_of_not_eq_false hne, r, hr, hdue⟩
      have hlimit : (!false && ({ s with hsRetryAt := none } : Stack).rateLimited t.t2) =
          false := by
        unfold Stack.rateLimited
        dsimp only
        rw [hl, Option.any_some, Bool.not_false, Bool.true_and, decide_eq_false_iff_not]
        have h01 := t.h01
        have h12 := t.h12
        omega
      obtain ⟨msg, pending, -, heq⟩ := initiate_built hc hd' hlimit hgave
      rw [heq]
      exact (h.mono t.h12).initiated _
    · exact h.mono t.h12

end

/-! ## Runs -/

section

variable (c : Crates)

/-- No tick gives up, and every initiation drawn can be built. -/
def Keeps (x : Tunnel) : Event → Prop
  | .cmd _ _ d => Buildable c x.stack d
  | .recv _ _ _ d _ => Buildable c x.stack d
  | .timer e d d' => Buildable c x.stack d ∧ Buildable c x.stack d' ∧
      ¬ GivesUp x.stack (e.clock x.now).t0
  | .egress _ _ => True

/-- A handshake is being driven: an initiation was just sent, or a retry is armed. -/
def Driven (out : Stack × List Effect) : Prop :=
  (∃ msg, .send out.1.endpoint msg ∈ out.2) ∨ out.1.hsRetryAt.isSome = true

/-- Traffic that arrives now, with no live session, finds a handshake driven. -/
def NotWedged (x : Tunnel) : Prop :=
  ∀ e d, Buildable c x.stack d →
    (x.stack.ensureSession c (Elapsed.clock e x.now) d).1.session = none →
      Driven (x.stack.ensureSession c (Elapsed.clock e x.now) d)

/-- In no state of a run. -/
def NeverWedged (x : Tunnel) (es : List Event) : Prop :=
  ∀ y ∈ Machine.states (Tunnel.step c) x es, NotWedged c y

variable {c}

theorem driving_step (hc : c.Lawful) (x : Tunnel) (e : Event) (h : Driving x.stack x.now)
    (hk : Keeps c x e) : Driving (x.step c e).stack (x.step c e).now := by
  have hnow : x.now ≤ (x.clock e).t0 := Nat.le_add_right _ _
  have h02 : (x.clock e).t0 ≤ (x.clock e).t2 := (x.clock e).h01.trans (x.clock e).h12
  unfold Tunnel.step Tunnel.handle
  cases e with
  | cmd cmd e d =>
    have hens := ((driving_ensureSession hc h hnow hk).1).mono (x.clock (.cmd cmd e d)).h12
    have hkeep := h.mono (hnow.trans h02)
    cases cmd with
    | connect => exact hens
    | udpOpen =>
      show Driving (x.stack.onCmd c .udpOpen _ d).1 _
      unfold Stack.onCmd
      dsimp only
      split_ifs
      · exact hkeep
      · exact hkeep
      · exact hens.of_quiet ⟨rfl, rfl, rfl, rfl, rfl, rfl, rfl⟩
    | udpSend id =>
      show Driving (x.stack.onCmd c (.udpSend id) _ d).1 _
      unfold Stack.onCmd
      dsimp only
      split_ifs
      · exact hens
      · exact hkeep
    | udpClose id => exact hkeep.of_quiet ⟨rfl, rfl, rfl, rfl, rfl, rfl, rfl⟩
  | recv source raw e d localIndex =>
    dsimp only
    split_ifs
    · exact driving_onDatagram hc h raw hnow hk localIndex
    · exact h.mono (hnow.trans h02)
  | timer e d d' =>
    obtain ⟨hd, hd', hgives⟩ := hk
    obtain ⟨hdrive, hpk, hst, hgave⟩ := driving_sessionTimer hc h hnow hd
    refine driving_retryTimer hc hdrive ?_ fun hg => hgives (hgave hg)
    unfold Buildable at hd' ⊢
    rw [hpk, hst]
    exact hd'
  | egress pkts e => exact (h.mono (hnow.trans h02)).of_quiet (quiet_sendAll c x.stack pkts _)

theorem notWedged_of_driving (hc : c.Lawful) {x : Tunnel} (h : Driving x.stack x.now) :
    NotWedged c x := by
  intro e d hd hnone
  exact Or.inr ((driving_ensureSession hc h (Nat.le_add_right _ _) hd).2 hnone)

theorem driving_new (statics : StaticKeys) (peerPk psk : ByteVec 32) (reserved : ByteVec 3)
    (udpEnabled : Bool) (endpoint : SocketAddr) (localIndex : UInt32) (now : Nat) :
    Driving (Stack.new statics peerPk psk reserved udpEnabled endpoint localIndex) now :=
  ⟨fun h => Bool.noConfusion h, nofun, nofun, nofun, nofun⟩

/-- In a run without a tick that gives up, and with keys whose shared secrets are not zero,
    traffic never finds the client wedged. -/
theorem never_wedged (hc : c.Lawful) (statics : StaticKeys) (peerPk psk : ByteVec 32)
    (reserved : ByteVec 3) (udpEnabled : Bool) (endpoint : SocketAddr) (localIndex : UInt32)
    (now : Nat) (es : List Event)
    (hkeeps : ∀ p ∈ Machine.steps (Tunnel.step c)
      ⟨.new statics peerPk psk reserved udpEnabled endpoint localIndex, now⟩ es,
        Keeps c p.1 p.2) :
    NeverWedged c ⟨.new statics peerPk psk reserved udpEnabled endpoint localIndex, now⟩ es := by
  intro x hx
  exact notWedged_of_driving hc (Machine.inv_of_good (fun y => Driving y.stack y.now) (Keeps c)
    (driving_step hc) (driving_new statics peerPk psk reserved udpEnabled endpoint localIndex now)
    hkeeps x hx)

theorem never_wedged_sample : NeverWedged sampleCrates ⟨sampleStack, 0⟩
    [.cmd .connect ⟨0, 0, 0⟩ sampleDraw] :=
  never_wedged sampleCrates_lawful _ _ _ _ _ _ _ 0 [.cmd .connect ⟨0, 0, 0⟩ sampleDraw]
    fun p hp => by
      rw [Machine.steps, Machine.steps, List.mem_singleton] at hp
      rw [hp]
      exact sample_buildable

/-! ## A server that does not answer -/

/-- No session, `n` initiations sent, the last one now. -/
structure Waiting (c : Crates) (d : Draw) (x : Tunnel) (n : Nat) : Prop where
  session : x.stack.session = none
  pending : ∃ p, x.stack.pendingHs = some p ∧ p.attempts.toNat = n
  retry : x.stack.hsRetryAt = some (x.now + rekeyTimeout)
  last : x.stack.lastInitiation = some x.now
  buildable : Buildable c x.stack d

/-- The next tick, just when the retry is due. -/
def tick (d : Draw) : Event := .timer ⟨rekeyTimeout, 0, 0⟩ d d

theorem step_tick {d : Draw} {x : Tunnel} {n : Nat} (h : Waiting c d x n) :
    x.step c (tick d) =
      ⟨({ x.stack with hsRetryAt := none }.initiate c false (x.now + rekeyTimeout) d).1,
        x.now + rekeyTimeout⟩ := by
  have htimer : x.stack.sessionTimer c (x.clock (tick d)) d = (x.stack, []) := by
    unfold Stack.sessionTimer
    rw [h.session]
  unfold Tunnel.step Tunnel.handle
  show Tunnel.mk (x.stack.onTimer c (x.clock (tick d)) d d).1 _ = _
  unfold Stack.onTimer
  rw [htimer]
  dsimp only
  unfold Stack.retryTimer
  rw [h.retry]
  dsimp only
  rw [if_pos (show x.now + rekeyTimeout ≤ (x.clock (tick d)).t0 from le_refl _)]
  rfl

theorem gaveUp_of_pending {s : Stack} {p : InitiationPending} (hp : s.pendingHs = some p) :
    s.gaveUp = decide (18 ≤ p.attempts.toNat) := by
  unfold Stack.gaveUp
  rw [hp, Option.any_some, decide_eq_decide]
  exact UInt32.le_iff_toNat_le

theorem waiting_tick (hc : c.Lawful) {d : Draw} {x : Tunnel} {n : Nat} (h : Waiting c d x n)
    (hn : n < 18) : Waiting c d (x.step c (tick d)) (n + 1) := by
  obtain ⟨p, hp, hat⟩ := h.pending
  have hgave : x.stack.gaveUp = false := by
    rw [gaveUp_of_pending hp, hat]
    exact decide_eq_false (by omega)
  have hlimit : (!false && ({ x.stack with hsRetryAt := none } : Stack).rateLimited
      (x.now + rekeyTimeout)) = false := by
    unfold Stack.rateLimited
    dsimp only
    rw [h.last, Option.any_some, Bool.not_false, Bool.true_and, decide_eq_false_iff_not]
    omega
  have hd : Buildable c { x.stack with hsRetryAt := none } d := h.buildable
  obtain ⟨msg, pending, -, heq⟩ := initiate_built hc hd hlimit hgave
  rw [step_tick h, heq]
  refine ⟨h.session, ⟨_, rfl, ?_⟩, rfl, rfl, h.buildable⟩
  dsimp only
  rw [hp, Option.map_some, Option.getD_some, UInt32.toNat_add, hat]
  simp only [UInt32.toNat_one]
  omega

/-- The tick after the last attempt leaves the handshake pending and nothing armed. -/
theorem gives_up {d : Draw} {x : Tunnel} (h : Waiting c d x 18) :
    ¬ NotWedged c (x.step c (tick d)) := by
  obtain ⟨p, hp, hat⟩ := h.pending
  have hgave : x.stack.gaveUp = true := by
    rw [gaveUp_of_pending hp, hat]
    rfl
  have hstep : (x.step c (tick d)).stack = { x.stack with hsRetryAt := none } := by
    rw [step_tick h]
    dsimp only
    unfold Stack.initiate
    split_ifs with hlimit hleft
    · rfl
    · rfl
    · exact absurd hgave hleft
  intro hall
  have hens : ∀ t, (x.step c (tick d)).stack.ensureSession c t d =
      ({ x.stack with hsRetryAt := none }, []) := by
    intro t
    rw [hstep]
    unfold Stack.ensureSession Stack.dropExpired
    dsimp only
    rw [h.session, hp]
    rfl
  have hd : Buildable c (x.step c (tick d)).stack d := by
    rw [hstep]
    exact h.buildable
  have hdriven := hall ⟨0, 0, 0⟩ d hd (by rw [hens]; exact h.session)
  rw [hens] at hdriven
  rcases hdriven with ⟨msg, hmem⟩ | hretry
  · cases hmem
  · cases hretry

theorem waiting_run (hc : c.Lawful) {d : Draw} {x : Tunnel} (h : Waiting c d x 1) (n : Nat)
    (hn : n ≤ 17) :
    Waiting c d ((List.replicate n (tick d)).foldl (Tunnel.step c) x) (n + 1) := by
  induction n with
  | zero => exact h
  | succ n ih =>
    rw [List.replicate_succ', List.foldl_append]
    exact waiting_tick hc (ih (by omega)) (by omega)

end

/-- A client that dials a server which never answers. -/
def silentRun : List Event :=
  .cmd .connect ⟨0, 0, 0⟩ sampleDraw :: List.replicate 18 (tick sampleDraw)

/-- After 18 attempts new traffic no longer starts a handshake. -/
theorem wedged_after_attempts : ¬ NeverWedged sampleCrates ⟨sampleStack, 0⟩ silentRun := by
  have hfirst : Waiting sampleCrates sampleDraw
      (Tunnel.step sampleCrates ⟨sampleStack, 0⟩ (.cmd .connect ⟨0, 0, 0⟩ sampleDraw)) 1 := by
    obtain ⟨msg, pending, -, heq⟩ :=
      @initiate_built _ sampleCrates_lawful sampleStack false 0 _ sample_buildable rfl rfl
    have hstep : Tunnel.step sampleCrates ⟨sampleStack, 0⟩
        (.cmd .connect ⟨0, 0, 0⟩ sampleDraw) =
          ⟨(sampleStack.initiate sampleCrates false 0 sampleDraw).1, 0⟩ := rfl
    rw [hstep, heq]
    exact ⟨rfl, ⟨_, rfl, rfl⟩, rfl, rfl, sample_buildable⟩
  have hlast := waiting_run sampleCrates_lawful hfirst 17 (le_refl 17)
  intro hall
  refine gives_up hlast (hall _ ?_)
  have hrun : silentRun = .cmd .connect ⟨0, 0, 0⟩ sampleDraw ::
      (List.replicate 17 (tick sampleDraw) ++ [tick sampleDraw]) := by
    unfold silentRun
    rw [← List.replicate_succ']
  have hmem : silentRun.foldl (Tunnel.step sampleCrates) ⟨sampleStack, 0⟩ ∈ _ :=
    Machine.foldl_mem_states _ _
  rw [hrun, List.foldl_cons, List.foldl_append] at hmem
  rw [hrun]
  exact hmem

end RustCrash.Wireguard
