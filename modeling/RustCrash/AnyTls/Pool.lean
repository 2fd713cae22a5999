import RustCrash.Lib.Machine

/-
  The idle-session pool of AnyTLS: `AnyTlsSessionPool::connect`, cut at its awaits, with the
  drops of streams, the recycling of sessions and the rounds of the janitor in between.

  A stream counts as active only when the writer task has sent its SYN, a while after its session
  was chosen. The choice of the next `connect` and the janitor both look at the active streams
  alone.

  A session is a number. `opening` counts the `connect` calls that wait for a session to send a
  SYN; the code has no such count.
-/

namespace RustCrash.AnyTls

open Lib

/-- The pool's settings; `with_max_streams` keeps the cap positive. -/
structure PoolConfig where
  idleTimeout : Nat
  minIdle : Nat
  maxStreams : Nat
  maxStreams_pos : 0 < maxStreams

/-- What the pool uses of a `SessionCore`. -/
structure PoolSession where
  active : Nat
  opening : Nat
  dead : Bool
  idleSince : Option Nat
  /-- The recycling hook is set. -/
  recycle : Bool

def PoolSession.fresh : PoolSession := ⟨0, 0, false, none, false⟩

structure Pool where
  session : Nat → PoolSession
  /-- The next session's number. -/
  next : Nat
  /-- Every usable session (live or idle), newest first. -/
  sessions : List Nat
  /-- The channel of recycled sessions, with their idle timestamps. -/
  recycled : List (Nat × Nat)
  /-- The `connect` calls that dial. -/
  dialing : Nat
  /-- The janitor has closed a session with a stream that is open or being opened. -/
  killedBusy : Bool

inductive PoolEvent where
  /-- `drain_recycles`, in `connect` or in the janitor's round. -/
  | drain
  /-- `connect` up to its next await: it picks a session and queues the SYN, or dials. -/
  | select
  | dialed
  | dialFailed
  /-- The writer task has sent the SYN; the stream exists. -/
  | opened (i : Nat)
  /-- It has not, or the call is dropped. -/
  | openFailed (i : Nat)
  /-- A stream of the session is dropped. -/
  | dropped (i now : Nat)
  /-- The session ends by itself. -/
  | died (i : Nat)
  | cleanup (now : Nat)

namespace Pool

def empty : Pool := ⟨fun _ => .fresh, 0, [], [], 0, false⟩

def modify (s : Pool) (i : Nat) (f : PoolSession → PoolSession) : Pool :=
  { s with session := Function.update s.session i (f (s.session i)) }

/-- One recycled session, back into the list. -/
def fold (s : Pool) (x : Nat × Nat) : Pool :=
  if (s.session x.1).dead then s
  else
    let s := s.modify x.1 fun c => { c with idleSince := some x.2 }
    { s with sessions := x.1 :: s.sessions.filter (· ≠ x.1) }

def drain (s : Pool) : Pool := s.recycled.foldl fold { s with recycled := [] }

variable (cfg : PoolConfig)

/-- The loop over the sessions: the newest idle one, else the live one under the cap with the
    fewest streams. -/
def candidateFrom (s : Pool) : Option (Nat × Nat) → List Nat → Option Nat
  | live, [] => live.map Prod.snd
  | live, i :: is =>
    let c := s.session i
    if c.dead then candidateFrom s live is
    else if c.active = 0 then some i
    else if c.active < cfg.maxStreams ∧ live.all (fun l => c.active < l.1) = true then
      candidateFrom s (some (c.active, i)) is
    else candidateFrom s live is

def candidate (s : Pool) : Option Nat := candidateFrom cfg s none s.sessions

/-- The stream open begins: the hook is set, and the SYN is queued. -/
def openStream (s : Pool) (i : Nat) : Pool :=
  s.modify i fun c => { c with recycle := true, opening := c.opening + 1 }

def select (s : Pool) : Pool :=
  match s.candidate cfg with
  | some i => s.openStream i
  | none => { s with dialing := s.dialing + 1 }

/-- A session is made, listed, and takes the stream. -/
def dialed (s : Pool) : Pool :=
  if s.dialing = 0 then s
  else
    let i := s.next
    let s := { s with
      dialing := s.dialing - 1
      next := i + 1
      session := Function.update s.session i .fresh
      sessions := i :: s.sessions.filter fun j => !(s.session j).dead }
    s.openStream i

def opened (s : Pool) (i : Nat) : Pool :=
  if (s.session i).opening = 0 then s
  else s.modify i fun c => { c with opening := c.opening - 1, active := c.active + 1 }

def openFailed (s : Pool) (i : Nat) : Pool :=
  if (s.session i).opening = 0 then s
  else s.modify i fun c => { c with opening := c.opening - 1 }

/-- `AnyTlsStream::drop`: the last stream recycles its session, or ends it. -/
def dropped (s : Pool) (i now : Nat) : Pool :=
  if (s.session i).active = 0 then s
  else
    let last := (s.session i).active = 1
    let s := s.modify i fun c => { c with active := c.active - 1 }
    if last then
      if (s.session i).recycle then { s with recycled := s.recycled ++ [(i, now)] }
      else s.modify i fun c => { c with dead := true }
    else s

/-- What a round does with a session. -/
inductive Fate where
  /-- In use, dead, or never idle. -/
  | passed
  /-- Kept as one of the idle ones; its clock restarts if it is past its time. -/
  | kept (restarted : Bool)
  | closed
  deriving DecidableEq

/-- `kept` counts the idle sessions kept so far. -/
def fate (now kept : Nat) (c : PoolSession) : Fate :=
  if 0 < c.active ∨ c.dead = true then .passed
  else
    match c.idleSince with
    | none => .passed
    | some since =>
      if now - since < max cfg.idleTimeout 1 then .kept false
      else if kept < cfg.minIdle then .kept true
      else .closed

/-- What a round makes of the list: what it keeps, whose clock it restarts, what it closes. -/
def cleanupWalk (s : Pool) (now : Nat) : Nat → List Nat → List Nat × List Nat × List Nat
  | _, [] => ([], [], [])
  | kept, i :: is =>
    match fate cfg now kept (s.session i) with
    | .passed =>
      let w := cleanupWalk s now kept is
      (i :: w.1, w.2.1, w.2.2)
    | .kept restarted =>
      let w := cleanupWalk s now (kept + 1) is
      (i :: w.1, if restarted then i :: w.2.1 else w.2.1, w.2.2)
    | .closed =>
      let w := cleanupWalk s now kept is
      (w.1, w.2.1, i :: w.2.2)

def cleanup (s : Pool) (now : Nat) : Pool :=
  let w := s.cleanupWalk cfg now 0 s.sessions
  { s with
    sessions := w.1
    session := fun i =>
      let c := s.session i
      if i ∈ w.2.2 then { c with dead := true }
      else if i ∈ w.2.1 then { c with idleSince := some now }
      else c
    killedBusy := s.killedBusy ||
      w.2.2.any fun i => 0 < (s.session i).active + (s.session i).opening }

def step (s : Pool) : PoolEvent → Pool
  | .drain => s.drain
  | .select => s.select cfg
  | .dialed => s.dialed
  | .dialFailed => { s with dialing := s.dialing - 1 }
  | .opened i => s.opened i
  | .openFailed i => s.openFailed i
  | .dropped i now => s.dropped i now
  | .died i => s.modify i fun c => { c with dead := true }
  | .cleanup now => s.cleanup cfg now

/-! ## Safety -/

/-- The streams of a session, open or being opened. -/
def streams (s : Pool) (i : Nat) : Nat := (s.session i).active + (s.session i).opening

/-- Every session is listed at most once and carries no more streams than it may, and the
    janitor has closed no session in use. -/
structure Safe (s : Pool) : Prop where
  nodup : s.sessions.Nodup
  capped : ∀ i, s.streams i ≤ cfg.maxStreams
  spared : s.killedBusy = false

/-- No stream is active on it, and its idle clock runs. -/
def Idle (s : Pool) (i : Nat) : Bool :=
  (s.session i).active = 0 ∧ (s.session i).dead = false ∧ (s.session i).idleSince.isSome

/-- Idle for the timeout or longer. -/
def Expired (s : Pool) (now i : Nat) : Prop :=
  s.Idle i = true ∧ ∀ since, (s.session i).idleSince = some since →
    max cfg.idleTimeout 1 ≤ now - since

/-- The streams being opened do not matter: the session that `connect` picks has room with them,
    too, and a session that is past its time, with enough idle ones before it, has none. -/
def Heeded (s : Pool) : PoolEvent → Prop
  | .select => ∀ i, s.candidate cfg = some i → s.streams i < cfg.maxStreams
  | .cleanup now => ∀ front i back, s.sessions = front ++ i :: back → s.Expired cfg now i →
      cfg.minIdle ≤ front.countP s.Idle → (s.session i).opening = 0
  | _ => True

/-! ## What every step keeps -/

/-- The list has no session twice, and no number is in use before its turn. -/
structure WellFormed (s : Pool) : Prop where
  nodup : s.sessions.Nodup
  listed : ∀ i ∈ s.sessions, i < s.next
  queued : ∀ x ∈ s.recycled, x.1 < s.next
  unused : ∀ i, s.next ≤ i → s.streams i = 0

variable {cfg} {s : Pool}

theorem session_modify (s : Pool) (i : Nat) (f : PoolSession → PoolSession) (j : Nat) :
    (s.modify i f).session j = if j = i then f (s.session i) else s.session j :=
  Function.update_apply s.session i _ j

theorem streams_modify (s : Pool) (i : Nat) (f : PoolSession → PoolSession) (j : Nat) :
    (s.modify i f).streams j =
      if j = i then (f (s.session i)).active + (f (s.session i)).opening else s.streams j := by
  unfold streams
  rw [session_modify]
  split_ifs <;> rfl

/-- A step that makes no session and opens no stream. -/
structure Quiet (s t : Pool) : Prop where
  next : t.next = s.next
  nodup : s.sessions.Nodup → t.sessions.Nodup
  listed : ∀ i ∈ t.sessions, i ∈ s.sessions ∨ ∃ x ∈ s.recycled, x.1 = i
  /-- A session that is recycled had a stream. -/
  queued : ∀ x ∈ t.recycled, x ∈ s.recycled ∨ 0 < s.streams x.1
  streams : ∀ i, t.streams i ≤ s.streams i

theorem WellFormed.quiet {t : Pool} (h : s.WellFormed) (hq : Quiet s t) : t.WellFormed where
  nodup := hq.nodup h.nodup
  listed i hi := by
    rw [hq.next]
    rcases hq.listed i hi with hold | ⟨x, hx, rfl⟩
    · exact h.listed i hold
    · exact h.queued x hx
  queued x hx := by
    rw [hq.next]
    rcases hq.queued x hx with hold | hstream
    · exact h.queued x hold
    · by_contra hno
      rw [h.unused x.1 (Nat.le_of_not_lt hno)] at hstream
      exact absurd hstream (Nat.lt_irrefl 0)
  unused i hi := by
    rw [hq.next] at hi
    exact Nat.le_zero.mp (h.unused i hi ▸ hq.streams i)

theorem Safe.quiet {t : Pool} (h : s.Safe cfg) (hq : Quiet s t)
    (hspared : t.killedBusy = s.killedBusy) : t.Safe cfg :=
  ⟨hq.nodup h.nodup, fun i => (hq.streams i).trans (h.capped i), hspared.trans h.spared⟩

theorem quiet_modify {i : Nat} {f : PoolSession → PoolSession}
    (hf : (f (s.session i)).active + (f (s.session i)).opening ≤ s.streams i) :
    Quiet s (s.modify i f) where
  next := rfl
  nodup h := h
  listed _ h := .inl h
  queued _ h := .inl h
  streams j := by
    rw [streams_modify]
    split_ifs with h
    · rw [h]
      exact hf
    · exact le_refl _

/-! ### Each step -/

theorem fold_streams (s : Pool) (x : Nat × Nat) (i : Nat) : (s.fold x).streams i = s.streams i := by
  unfold fold
  split_ifs
  · rfl
  · show (s.modify x.1 fun c => { c with idleSince := some x.2 }).streams i = s.streams i
    rw [streams_modify]
    split_ifs with h
    · rw [h]
      rfl
    · rfl

theorem fold_sessions (s : Pool) (x : Nat × Nat) :
    (s.fold x).sessions = s.sessions ∨
      (s.fold x).sessions = x.1 :: s.sessions.filter (· ≠ x.1) := by
  unfold fold
  split_ifs
  · exact .inl rfl
  · exact .inr rfl

theorem foldl_fold (s : Pool) (xs : List (Nat × Nat)) :
    (xs.foldl fold s).next = s.next ∧ (xs.foldl fold s).recycled = s.recycled ∧
      (xs.foldl fold s).killedBusy = s.killedBusy ∧
      (∀ i, (xs.foldl fold s).streams i = s.streams i) ∧
      (s.sessions.Nodup → (xs.foldl fold s).sessions.Nodup) ∧
      ∀ i ∈ (xs.foldl fold s).sessions, i ∈ s.sessions ∨ ∃ x ∈ xs, x.1 = i := by
  induction xs generalizing s with
  | nil => exact ⟨rfl, rfl, rfl, fun _ => rfl, id, fun i hi => .inl hi⟩
  | cons x xs ih =>
    obtain ⟨hnext, hrecycled, hkilled, hstreams, hnodup, hlisted⟩ := ih (s.fold x)
    have hkeep : (s.fold x).next = s.next ∧ (s.fold x).recycled = s.recycled ∧
        (s.fold x).killedBusy = s.killedBusy := by
      unfold fold
      split_ifs <;> exact ⟨rfl, rfl, rfl⟩
    refine ⟨hnext.trans hkeep.1, hrecycled.trans hkeep.2.1, hkilled.trans hkeep.2.2,
      fun i => (hstreams i).trans (fold_streams s x i), fun h => hnodup ?_, fun i hi => ?_⟩
    · rcases fold_sessions s x with hsame | hfront
      · rwa [hsame]
      · rw [hfront]
        exact List.nodup_cons.mpr ⟨by simp, h.filter _⟩
    · rcases hlisted i hi with hold | ⟨y, hy, hyi⟩
      · rcases fold_sessions s x with hsame | hfront
        · exact .inl (hsame ▸ hold)
        · rw [hfront] at hold
          rcases List.mem_cons.mp hold with rfl | hold
          · exact .inr ⟨x, List.mem_cons_self, rfl⟩
          · exact .inl (List.mem_filter.mp hold).1
      · exact .inr ⟨y, List.mem_cons_of_mem _ hy, hyi⟩

theorem quiet_drain (s : Pool) : Quiet s s.drain := by
  obtain ⟨hnext, hrecycled, -, hstreams, hnodup, hlisted⟩ :=
    foldl_fold { s with recycled := [] } s.recycled
  refine ⟨hnext, hnodup, hlisted, fun x hx => ?_, fun i => le_of_eq (hstreams i)⟩
  unfold drain at hx
  rw [hrecycled] at hx
  cases hx

theorem quiet_opened (s : Pool) (i : Nat) : Quiet s (s.opened i) := by
  unfold opened
  split_ifs with h
  · exact ⟨rfl, id, fun _ hi => .inl hi, fun _ hx => .inl hx, fun _ => le_refl _⟩
  · refine quiet_modify ?_
    unfold streams
    dsimp only
    omega

theorem quiet_openFailed (s : Pool) (i : Nat) : Quiet s (s.openFailed i) := by
  unfold openFailed
  split_ifs with h
  · exact ⟨rfl, id, fun _ hi => .inl hi, fun _ hx => .inl hx, fun _ => le_refl _⟩
  · refine quiet_modify ?_
    unfold streams
    dsimp only
    omega

theorem quiet_died (s : Pool) (i : Nat) :
    Quiet s (s.modify i fun c => { c with dead := true }) := quiet_modify (le_refl _)

theorem quiet_dropped (s : Pool) (i now : Nat) : Quiet s (s.dropped i now) := by
  unfold dropped
  have hless : Quiet s (s.modify i fun c => { c with active := c.active - 1 }) := by
    refine quiet_modify ?_
    unfold streams
    dsimp only
    omega
  by_cases h : (s.session i).active = 0
  · rw [if_pos h]
    exact ⟨rfl, id, fun _ hi => .inl hi, fun _ hx => .inl hx, fun _ => le_refl _⟩
  · rw [if_neg h]
    dsimp only
    split_ifs
    · refine ⟨hless.next, hless.nodup, hless.listed, fun x hx => ?_, hless.streams⟩
      rcases List.mem_append.mp hx with hold | hnew
      · exact .inl hold
      · rw [List.mem_singleton.mp hnew]
        right
        show 0 < (s.session i).active + (s.session i).opening
        omega
    · refine ⟨hless.next, hless.nodup, hless.listed, hless.queued, fun j => ?_⟩
      rw [streams_modify]
      split_ifs with hj
      · rw [hj]
        exact hless.streams i
      · exact hless.streams j
    · exact hless

/-! ### The janitor's round -/

theorem idle_iff (s : Pool) (i : Nat) :
    s.Idle i = true ↔ (s.session i).active = 0 ∧ (s.session i).dead = false ∧
      ∃ since, (s.session i).idleSince = some since := by
  unfold Idle
  rw [decide_eq_true_eq, Option.isSome_iff_exists]

/-- What becomes of a session, by how long it has been idle and how many were kept. -/
theorem fate_cases (s : Pool) (now kept i : Nat) :
    (fate cfg now kept (s.session i) = .passed ∧ ¬ s.Idle i = true) ∨
      (fate cfg now kept (s.session i) = .kept false ∧ s.Idle i = true ∧
        ¬ s.Expired cfg now i) ∨
      (fate cfg now kept (s.session i) = .kept true ∧ s.Idle i = true ∧ kept < cfg.minIdle) ∨
      (fate cfg now kept (s.session i) = .closed ∧ s.Expired cfg now i ∧ cfg.minIdle ≤ kept) := by
  unfold fate
  by_cases hbusy : 0 < (s.session i).active ∨ (s.session i).dead = true
  · left
    rw [if_pos hbusy, idle_iff]
    refine ⟨rfl, fun ⟨hactive, hdead, _⟩ => ?_⟩
    rcases hbusy with h | h
    · omega
    · rw [hdead] at h
      cases h
  · rw [if_neg hbusy]
    rw [not_or, Bool.not_eq_true] at hbusy
    cases hsince : (s.session i).idleSince with
    | none =>
      left
      rw [idle_iff]
      refine ⟨rfl, fun ⟨_, _, since, h⟩ => ?_⟩
      rw [hsince] at h
      cases h
    | some since =>
      have hidle : s.Idle i = true :=
        (idle_iff s i).mpr ⟨Nat.eq_zero_of_not_pos hbusy.1, hbusy.2, since, hsince⟩
      dsimp only
      split_ifs with hnew hkept
      · refine .inr (.inl ⟨rfl, hidle, fun hexpired => ?_⟩)
        exact absurd (hexpired.2 since hsince) (Nat.not_le_of_lt hnew)
      · exact .inr (.inr (.inl ⟨rfl, hidle, hkept⟩))
      · refine .inr (.inr (.inr ⟨rfl, ⟨hidle, fun since' h => ?_⟩, Nat.le_of_not_lt hkept⟩))
        rw [hsince, Option.some.injEq] at h
        rw [← h]
        exact Nat.le_of_not_lt hnew

theorem walk_sublist (s : Pool) (now kept : Nat) (is : List Nat) :
    (s.cleanupWalk cfg now kept is).1.Sublist is := by
  induction is generalizing kept with
  | nil => exact List.Sublist.refl _
  | cons i is ih =>
    unfold cleanupWalk
    split
    · exact (ih kept).cons_cons i
    · exact (ih _).cons_cons i
    · exact (ih kept).cons i

theorem split_cons {α : Type} {P : List α → Prop} {a b : α} {bs : List α} :
    (∃ front back, b :: bs = front ++ a :: back ∧ P front) ↔
      (b = a ∧ P []) ∨ ∃ front back, bs = front ++ a :: back ∧ P (b :: front) := by
  constructor
  · rintro ⟨front, back, heq, hP⟩
    cases front with
    | nil =>
      rw [List.nil_append, List.cons.injEq] at heq
      exact .inl ⟨heq.1, hP⟩
    | cons c front =>
      rw [List.cons_append, List.cons.injEq] at heq
      exact .inr ⟨front, back, heq.2, heq.1 ▸ hP⟩
  · rintro (⟨rfl, hP⟩ | ⟨front, back, heq, hP⟩)
    · exact ⟨[], bs, rfl, hP⟩
    · exact ⟨b :: front, back, by rw [heq, List.cons_append], hP⟩

/-- A round closes what is past its time, with enough idle sessions before it. -/
theorem walk_closes (s : Pool) (now kept i : Nat) (is : List Nat) :
    i ∈ (s.cleanupWalk cfg now kept is).2.2 ↔
      ∃ front back, is = front ++ i :: back ∧ s.Expired cfg now i ∧
        cfg.minIdle ≤ kept + front.countP s.Idle := by
  induction is generalizing kept with
  | nil =>
    refine iff_of_false nofun ?_
    rintro ⟨front, back, heq, _⟩
    exact absurd heq.symm (by simp)
  | cons j is ih =>
    rw [split_cons (P := fun front => s.Expired cfg now i ∧
      cfg.minIdle ≤ kept + front.countP s.Idle)]
    unfold cleanupWalk
    rcases @fate_cases cfg s now kept j with ⟨hfate, hidle⟩ | ⟨hfate, hidle, hnew⟩ |
      ⟨hfate, hidle, hkept⟩ | ⟨hfate, hexpired, hkept⟩
    · rw [hfate]
      dsimp only
      rw [ih, or_iff_right]
      · simp only [List.countP_cons_of_neg hidle]
      · rintro ⟨rfl, hexpired, _⟩
        exact hidle hexpired.1
    · rw [hfate]
      dsimp only
      rw [ih, or_iff_right]
      · simp only [List.countP_cons_of_pos hidle, Nat.add_assoc, Nat.add_comm 1]
      · rintro ⟨rfl, hexpired, _⟩
        exact hnew hexpired
    · rw [hfate]
      dsimp only
      rw [ih, or_iff_right]
      · simp only [List.countP_cons_of_pos hidle, Nat.add_assoc, Nat.add_comm 1]
      · rintro ⟨rfl, _, hmin⟩
        rw [List.countP_nil] at hmin
        omega
    · rw [hfate]
      dsimp only
      rw [List.mem_cons, ih, eq_comm]
      refine or_congr ⟨fun h => ⟨h, h ▸ hexpired, by omega⟩, And.left⟩ ?_
      refine exists₂_congr fun front back => and_congr_right fun _ => and_congr_right fun _ => ?_
      rw [List.countP_cons_of_pos hexpired.1]
      omega

theorem quiet_cleanup (s : Pool) (now : Nat) : Quiet s (s.cleanup cfg now) where
  next := rfl
  nodup h := h.sublist (walk_sublist s now 0 s.sessions)
  listed i hi := .inl ((walk_sublist s now 0 s.sessions).subset hi)
  queued _ hx := .inl hx
  streams i := by
    unfold cleanup streams
    dsimp only
    split_ifs <;> exact le_refl _

/-- A round is harmless if it closes nothing on which a stream is being opened. -/
theorem cleanup_spares (s : Pool) (now : Nat) (hspared : s.killedBusy = false) :
    (s.cleanup cfg now).killedBusy = false ↔ s.Heeded cfg (.cleanup now) := by
  unfold cleanup Heeded
  dsimp only
  rw [hspared, Bool.false_or, List.any_eq_false]
  constructor
  · intro h front i back heq hexpired hmin
    have hclosed : i ∈ (s.cleanupWalk cfg now 0 s.sessions).2.2 :=
      (walk_closes s now 0 i s.sessions).mpr ⟨front, back, heq, hexpired, by omega⟩
    have hnone := h i hclosed
    rw [decide_eq_true_eq] at hnone
    omega
  · intro h i hi
    obtain ⟨front, back, heq, hexpired, hmin⟩ := (walk_closes s now 0 i s.sessions).mp hi
    have hopening := h front i back heq hexpired (by omega)
    have hactive := ((idle_iff s i).mp hexpired.1).1
    rw [decide_eq_true_eq]
    omega

/-! ### The choice of a session -/

theorem candidateFrom_mem {s : Pool} {live : Option (Nat × Nat)} {is : List Nat} {i : Nat}
    (h : candidateFrom cfg s live is = some i) : i ∈ is ∨ ∃ a, live = some (a, i) := by
  induction is generalizing live with
  | nil =>
    unfold candidateFrom at h
    obtain ⟨x, hx, rfl⟩ := Option.map_eq_some_iff.mp h
    exact .inr ⟨x.1, hx⟩
  | cons j is ih =>
    unfold candidateFrom at h
    dsimp only at h
    split_ifs at h
    · exact (ih h).imp_left (List.mem_cons_of_mem _)
    · cases h
      exact .inl List.mem_cons_self
    · rcases ih h with hmem | ⟨a, ha⟩
      · exact .inl (List.mem_cons_of_mem _ hmem)
      · cases ha
        exact .inl List.mem_cons_self
    · exact (ih h).imp_left (List.mem_cons_of_mem _)

theorem candidate_mem {i : Nat} (h : s.candidate cfg = some i) : i ∈ s.sessions := by
  rcases candidateFrom_mem h with hmem | ⟨a, ha⟩
  · exact hmem
  · cases ha

theorem streams_openStream (s : Pool) (i j : Nat) :
    (s.openStream i).streams j = s.streams j + if j = i then 1 else 0 := by
  unfold openStream
  rw [streams_modify]
  split_ifs with h
  · rw [h]
    unfold streams
    dsimp only
    omega
  · rfl

theorem WellFormed.openStream (h : s.WellFormed) {i : Nat} (hi : i < s.next) :
    (s.openStream i).WellFormed where
  nodup := h.nodup
  listed := h.listed
  queued := h.queued
  unused j hj := by
    have hne : j ≠ i := fun heq => absurd hj (Nat.not_le_of_lt (heq ▸ hi))
    rw [streams_openStream, if_neg hne]
    exact h.unused j hj

/-- The stream fits if and only if there was room for it. -/
theorem safe_openStream (h : s.Safe cfg) (i : Nat) :
    (s.openStream i).Safe cfg ↔ s.streams i < cfg.maxStreams := by
  constructor
  · intro hsafe
    have hcap := hsafe.capped i
    rw [streams_openStream, if_pos rfl] at hcap
    omega
  · intro hroom
    refine ⟨h.nodup, fun j => ?_, h.spared⟩
    rw [streams_openStream]
    split_ifs with hj
    · rw [hj]
      exact hroom
    · exact h.capped j

/-! ### A fresh session -/

/-- The pool with the new session, before its stream. -/
theorem dialed_eq (s : Pool) (hdial : s.dialing ≠ 0) :
    ∃ t : Pool, s.dialed = t.openStream s.next ∧ t.next = s.next + 1 ∧
      t.sessions = s.next :: s.sessions.filter (fun j => !(s.session j).dead) ∧
      t.recycled = s.recycled ∧ t.killedBusy = s.killedBusy ∧
      ∀ j, t.streams j = if j = s.next then 0 else s.streams j := by
  unfold dialed
  rw [if_neg hdial]
  refine ⟨_, rfl, rfl, rfl, rfl, rfl, fun j => ?_⟩
  unfold streams
  dsimp only
  rw [Function.update_apply]
  split_ifs <;> rfl

theorem fresh_wellFormed {t : Pool} (h : s.WellFormed) (hnext : t.next = s.next + 1)
    (hlist : t.sessions = s.next :: s.sessions.filter (fun j => !(s.session j).dead))
    (hrecycled : t.recycled = s.recycled)
    (hstreams : ∀ j, t.streams j = if j = s.next then 0 else s.streams j) : t.WellFormed where
  nodup := by
    rw [hlist]
    refine List.nodup_cons.mpr ⟨fun hmem => ?_, h.nodup.filter _⟩
    exact absurd (h.listed _ (List.mem_filter.mp hmem).1) (Nat.lt_irrefl _)
  listed i hi := by
    rw [hlist] at hi
    rw [hnext]
    rcases List.mem_cons.mp hi with rfl | hold
    · exact Nat.lt_succ_self _
    · exact Nat.lt_succ_of_lt (h.listed i (List.mem_filter.mp hold).1)
  queued x hx := by
    rw [hnext]
    exact Nat.lt_succ_of_lt (h.queued x (hrecycled ▸ hx))
  unused i hi := by
    rw [hnext] at hi
    rw [hstreams, if_neg (by omega)]
    exact h.unused i (by omega)

/-! ## Every run -/

theorem WellFormed.step (h : s.WellFormed) (e : PoolEvent) : (s.step cfg e).WellFormed := by
  cases e with
  | drain => exact h.quiet (quiet_drain s)
  | select =>
    unfold Pool.step Pool.select
    cases hc : s.candidate cfg with
    | none => exact ⟨h.nodup, h.listed, h.queued, h.unused⟩
    | some i => exact h.openStream (h.listed i (candidate_mem hc))
  | dialed =>
    by_cases hdial : s.dialing = 0
    · unfold Pool.step Pool.dialed
      rw [if_pos hdial]
      exact h
    · obtain ⟨t, heq, hnext, hlist, hrecycled, _, hstreams⟩ := dialed_eq s hdial
      unfold Pool.step
      dsimp only
      rw [heq]
      exact (fresh_wellFormed h hnext hlist hrecycled hstreams).openStream (by omega)
  | dialFailed => exact ⟨h.nodup, h.listed, h.queued, h.unused⟩
  | opened i => exact h.quiet (quiet_opened s i)
  | openFailed i => exact h.quiet (quiet_openFailed s i)
  | dropped i now => exact h.quiet (quiet_dropped s i now)
  | died i => exact h.quiet (quiet_died s i)
  | cleanup now => exact h.quiet (quiet_cleanup s now)

theorem safe_step (h : s.WellFormed) (hs : s.Safe cfg) (e : PoolEvent) :
    (s.step cfg e).Safe cfg ↔ s.Heeded cfg e := by
  cases e with
  | drain =>
    refine iff_of_true (hs.quiet (quiet_drain s) ?_) trivial
    exact (foldl_fold { s with recycled := [] } s.recycled).2.2.1
  | select =>
    unfold Pool.step Pool.select Heeded
    cases hc : s.candidate cfg with
    | none => exact iff_of_true ⟨hs.nodup, hs.capped, hs.spared⟩ nofun
    | some i =>
      dsimp only
      rw [safe_openStream hs]
      exact ⟨fun hroom j hj => Option.some.inj hj ▸ hroom, fun hroom => hroom i rfl⟩
  | dialed =>
    refine iff_of_true ?_ trivial
    by_cases hdial : s.dialing = 0
    · unfold Pool.step Pool.dialed
      rw [if_pos hdial]
      exact hs
    · obtain ⟨t, heq, hnext, hlist, hrecycled, hkilled, hstreams⟩ := dialed_eq s hdial
      have ht : t.Safe cfg := by
        refine ⟨(fresh_wellFormed h hnext hlist hrecycled hstreams).nodup, fun j => ?_,
          hkilled.trans hs.spared⟩
        rw [hstreams]
        split_ifs
        · exact Nat.zero_le _
        · exact hs.capped j
      unfold Pool.step
      dsimp only
      rw [heq, safe_openStream ht, hstreams, if_pos rfl]
      exact cfg.maxStreams_pos
  | dialFailed => exact iff_of_true ⟨hs.nodup, hs.capped, hs.spared⟩ trivial
  | opened i =>
    refine iff_of_true (hs.quiet (quiet_opened s i) ?_) trivial
    unfold Pool.step Pool.opened
    dsimp only
    split_ifs <;> rfl
  | openFailed i =>
    refine iff_of_true (hs.quiet (quiet_openFailed s i) ?_) trivial
    unfold Pool.step Pool.openFailed
    dsimp only
    split_ifs <;> rfl
  | dropped i now =>
    refine iff_of_true (hs.quiet (quiet_dropped s i now) ?_) trivial
    unfold Pool.step Pool.dropped
    dsimp only
    split_ifs <;> rfl
  | died i => exact iff_of_true (hs.quiet (quiet_died s i) rfl) trivial
  | cleanup now =>
    rw [← cleanup_spares s now hs.spared]
    refine ⟨Safe.spared, fun hspared => ?_⟩
    have hq : Quiet s (s.cleanup cfg now) := quiet_cleanup s now
    exact ⟨hq.nodup hs.nodup, fun i => (hq.streams i).trans (hs.capped i), hspared⟩

theorem empty_wellFormed : empty.WellFormed := ⟨List.nodup_nil, nofun, nofun, fun _ _ => rfl⟩

theorem empty_safe (cfg : PoolConfig) : empty.Safe cfg :=
  ⟨List.nodup_nil, fun _ => Nat.zero_le _, rfl⟩

/-- Every state of a run is safe if and only if every choice and every round of it heeds the
    streams that are being opened. -/
theorem pool_safe (cfg : PoolConfig) (run : List PoolEvent) :
    (∀ t ∈ Machine.states (step cfg) empty run, t.Safe cfg) ↔
      ∀ x ∈ Machine.steps (step cfg) empty run, x.1.Heeded cfg x.2 := by
  have hwf : ∀ t ∈ Machine.states (step cfg) empty run, t.WellFormed :=
    Machine.inv_of_step WellFormed (fun (_ : Pool) e h => h.step e) empty_wellFormed run
  have hiff : (∀ t ∈ Machine.states (step cfg) empty run, t.WellFormed ∧ t.Safe cfg) ↔
      ∀ x ∈ Machine.steps (step cfg) empty run, x.1.Heeded cfg x.2 :=
    Machine.inv_iff (fun t : Pool => t.WellFormed ∧ t.Safe cfg)
      (fun (s : Pool) e => s.Heeded cfg e)
      (fun s e (h : s.WellFormed ∧ s.Safe cfg) => ⟨fun hstep => (safe_step h.1 h.2 e).mp hstep.2,
        fun hheed => ⟨h.1.step e, (safe_step h.1 h.2 e).mpr hheed⟩⟩)
      ⟨empty_wellFormed, empty_safe cfg⟩ run
  rw [← hiff]
  exact forall₂_congr fun t ht => (and_iff_right (hwf t ht)).symm

/-! ### Two connects and a janitor -/

/-- One stream for each session, thirty seconds, none kept. -/
def single : PoolConfig := ⟨30000, 0, 1, Nat.one_pos⟩

/-- The second `connect` picks the session of the first, which waits for its SYN. -/
def twoConnects : List PoolEvent := [.select, .dialed, .select]

/-- A round comes while `connect` opens a stream on a session that has been idle for long. -/
def roundInBetween : List PoolEvent :=
  [.select, .dialed, .opened 0, .dropped 0 0, .drain, .select, .cleanup 30000]

theorem pool_unsafe :
    (twoConnects.foldl (step single) empty).streams 0 = 2 ∧
      (roundInBetween.foldl (step single) empty).killedBusy = true ∧
      ¬ ∀ t ∈ Machine.states (step single) empty twoConnects, t.Safe single := by
  have htwo : (twoConnects.foldl (step single) empty).streams 0 = 2 := by decide +kernel
  refine ⟨htwo, by decide +kernel, fun h => ?_⟩
  have hcap := (h _ (Machine.foldl_mem_states empty twoConnects)).capped 0
  rw [htwo] at hcap
  exact absurd hcap (by decide)

end Pool

end RustCrash.AnyTls
