import RustCrash.Lib.Bytes

/-
  A staged reader: it knows how many bytes it wants next, and takes them off the front of a
  buffer once they are there. A transport fills the buffer, in pieces of any size and with
  pauses.

  `Reads s wire outs t` says that `wire`, taken piece by piece, gives `outs` and leads from `s`
  to `t`. A reader that has seen only the beginning of such a wire gives a beginning of `outs`, and
  what is left of the wire gives the rest (`Reads.pull`).
-/

namespace RustCrash.Lib

/-- What a transport does when it is asked: bytes, none of which is its end, or nothing yet. -/
inductive Arrival where
  | data (bs : Bytes)
  | pending

namespace Arrival

def bytes : Arrival → Bytes
  | data bs => bs
  | pending => []

end Arrival

/-- The bytes that a transport brings. -/
def arrived (script : List Arrival) : Bytes := script.flatMap Arrival.bytes

@[simp] theorem arrived_nil : arrived [] = [] := rfl

@[simp] theorem arrived_cons (a : Arrival) (script : List Arrival) :
    arrived (a :: script) = a.bytes ++ arrived script := List.flatMap_cons

/-- A transport that does not end. -/
def Endless (script : List Arrival) : Prop := Arrival.data [] ∉ script

theorem Endless.tail {a : Arrival} {script : List Arrival} (h : Endless (a :: script)) :
    Endless script := fun hmem => h (List.mem_cons_of_mem a hmem)

theorem Endless.of_append {script used rest : List Arrival} (h : Endless script)
    (hscript : script = used ++ rest) : Endless rest :=
  fun hmem => h (hscript ▸ List.mem_append_right used hmem)

@[simp] theorem arrived_append (xs ys : List Arrival) :
    arrived (xs ++ ys) = arrived xs ++ arrived ys := List.flatMap_append

/-- What becomes of a piece that was taken off the buffer. -/
inductive Taken (S O E : Type) where
  | ok (t : S) (out : List O)
  /-- The piece is wrong, and it may be `kept` in the buffer. -/
  | failed (t : S) (kept : Bool) (e : E)

def Taken.map {S T O E : Type} (f : S → T) : Taken S O E → Taken T O E
  | ok t out => .ok (f t) out
  | failed t kept e => .failed (f t) kept e

structure Staged (S O E : Type) where
  /-- The bytes that are wanted; none when the stream is over. -/
  need : S → Option Nat
  /-- Takes up a piece of that length. -/
  step : S → Bytes → Taken S O E
  /-- A step without bytes is followed by one that wants some. -/
  moves : ∀ {s t piece out}, need s = some 0 → step s piece = .ok t out → need t ≠ some 0

/-- What a poll gives. -/
inductive Polled (O E : Type) where
  | got (out : List O)
  | failed (e : E)
  | pending
  /-- The transport has ended. -/
  | eof
  /-- The stream is over. -/
  | finished

def Polled.out {O E : Type} : Polled O E → List O
  | got out => out
  | _ => []

namespace Staged

variable {S O E : Type} (m : Staged S O E)

/-- The buffer has too little for the next step. -/
def Waits (s : S) (buf : Bytes) : Prop := ∀ n, m.need s = some n → buf.length < n

/-- What is left to do without more bytes. -/
def size (s : S) (buf : Bytes) : Nat := 2 * buf.length + if m.need s = some 0 then 1 else 0

def pullFor : Nat → S → Bytes → S × Bytes × Except E (List O)
  | 0, s, buf => (s, buf, .ok [])
  | k + 1, s, buf =>
    match m.need s with
    | none => (s, buf, .ok [])
    | some n =>
      if buf.length < n then (s, buf, .ok [])
      else
        match m.step s (buf.take n) with
        | .failed t kept e => (t, if kept then buf else buf.drop n, .error e)
        | .ok t [] => pullFor k t (buf.drop n)
        | .ok t (o :: out) => (t, buf.drop n, .ok (o :: out))

/-- Steps until there is some output. -/
def pull (s : S) (buf : Bytes) : S × Bytes × Except E (List O) :=
  m.pullFor (m.size s buf + 1) s buf

/-- One look at the transport when the buffer is used up, and the rest of the poll. -/
structure Turn (S O E : Type) where
  state : S
  buf : Bytes
  script : List Arrival
  res : Polled O E

/-- The end of a poll, unless the reader `waits`. -/
def settle (script : List Arrival) (waits : S → Bytes → Turn S O E) :
    S × Bytes × Except E (List O) → Turn S O E
  | (t, rest, .error e) => ⟨t, rest, script, .failed e⟩
  | (t, rest, .ok []) =>
    if m.need t = none then ⟨t, rest, script, .finished⟩ else waits t rest
  | (t, rest, .ok (o :: out)) => ⟨t, rest, script, .got (o :: out)⟩

/-- Reads from the transport until there is some output. -/
def poll : List Arrival → S → Bytes → Turn S O E
  | [], s, buf => m.settle [] (fun t rest => ⟨t, rest, [], .pending⟩) (m.pull s buf)
  | .pending :: script, s, buf =>
    m.settle (.pending :: script) (fun t rest => ⟨t, rest, script, .pending⟩) (m.pull s buf)
  | .data bs :: script, s, buf =>
    m.settle (.data bs :: script)
      (fun t rest => if bs = [] then ⟨t, rest, script, .eof⟩ else poll script t (rest ++ bs))
      (m.pull s buf)

variable {m}

/-! ## Pulling -/

theorem size_step {s t : S} {buf : Bytes} {n : Nat} {out : List O} (hn : m.need s = some n)
    (hlen : n ≤ buf.length) (h : m.step s (buf.take n) = .ok t out) :
    m.size t (buf.drop n) < m.size s buf := by
  unfold size
  rw [List.length_drop, hn]
  by_cases h0 : n = 0
  · subst h0
    rw [if_neg (m.moves hn h), if_pos rfl]
    omega
  · have ht : (if m.need t = some 0 then 1 else 0) ≤ 1 := by split_ifs <;> omega
    omega

/-- More rounds than steps change nothing. -/
theorem pullFor_eq {s : S} {buf : Bytes} {j k : Nat} (hj : m.size s buf < j)
    (hk : m.size s buf < k) : m.pullFor j s buf = m.pullFor k s buf := by
  induction j generalizing k s buf with
  | zero => omega
  | succ j ih =>
    obtain ⟨k, rfl⟩ : ∃ i, k = i + 1 := ⟨k - 1, by omega⟩
    unfold pullFor
    cases hn : m.need s with
    | none => rfl
    | some n =>
      dsimp only
      by_cases hlen : buf.length < n
      · rw [if_pos hlen, if_pos hlen]
      · rw [if_neg hlen, if_neg hlen]
        rcases hr : m.step s (buf.take n) with ⟨t, _ | ⟨o, out⟩⟩ | ⟨t, kept, e⟩
        · have hlt := size_step hn (by omega) hr
          exact ih (by omega) (by omega)
        · rfl
        · rfl

theorem pull_waits {s : S} {buf : Bytes} (h : m.Waits s buf) : m.pull s buf = (s, buf, .ok []) := by
  unfold pull pullFor
  cases hn : m.need s with
  | none => rfl
  | some n => exact if_pos (h n hn)

theorem pull_go {s t : S} {buf : Bytes} {n : Nat} (hn : m.need s = some n)
    (hlen : n ≤ buf.length) (h : m.step s (buf.take n) = .ok t []) :
    m.pull s buf = m.pull t (buf.drop n) := by
  have hlt := size_step hn hlen h
  unfold pull
  rw [pullFor, hn]
  dsimp only
  rw [if_neg (by omega), h]
  exact pullFor_eq (by omega) (Nat.lt_succ_self _)

theorem pull_got {s t : S} {buf : Bytes} {n : Nat} {o : O} {out : List O}
    (hn : m.need s = some n) (hlen : n ≤ buf.length)
    (h : m.step s (buf.take n) = .ok t (o :: out)) :
    m.pull s buf = (t, buf.drop n, .ok (o :: out)) := by
  unfold pull pullFor
  rw [hn]
  dsimp only
  rw [if_neg (by omega), h]

/-! ## Reading a wire -/

variable (m) in
/-- `wire`, piece by piece, gives `outs` and leads from one state to the other. -/
inductive Reads : S → Bytes → List O → S → Prop
  | done (s : S) : Reads s [] [] s
  | step {s t u : S} {piece rest : Bytes} {out outs : List O}
      (hneed : m.need s = some piece.length) (hstep : m.step s piece = .ok t out)
      (hrest : Reads t rest outs u) : Reads s (piece ++ rest) (out ++ outs) u

theorem Reads.trans {s t u : S} {w₁ w₂ : Bytes} {o₁ o₂ : List O} (h₁ : m.Reads s w₁ o₁ t)
    (h₂ : m.Reads t w₂ o₂ u) : m.Reads s (w₁ ++ w₂) (o₁ ++ o₂) u := by
  induction h₁ with
  | done s => exact h₂
  | step hneed hstep _ ih =>
    rw [List.append_assoc, List.append_assoc]
    exact .step hneed hstep (ih h₂)

/-- One piece. -/
theorem Reads.one {s t : S} {piece : Bytes} {out : List O} (hneed : m.need s = some piece.length)
    (hstep : m.step s piece = .ok t out) : m.Reads s piece out t := by
  have h := Reads.step hneed hstep (.done t)
  rwa [List.append_nil, List.append_nil] at h

/-- A state in which the reader wants a byte before it does anything. -/
def Rests (m : Staged S O E) (s : S) : Prop := m.need s ≠ some 0

/-- A reader that has only the beginning `buf` of a wire. -/
theorem Reads.pull {s u : S} {buf more : Bytes} {outs : List O}
    (h : m.Reads s (buf ++ more) outs u) (hu : m.Rests u) :
    ∃ t rest out left seen, m.pull s buf = (t, rest, .ok out) ∧ outs = out ++ left ∧
      buf = seen ++ rest ∧ m.Reads s seen out t ∧ m.Reads t (rest ++ more) left u ∧
      (out = [] → m.Waits t rest) := by
  generalize hw : buf ++ more = wire at h
  induction h generalizing buf with
  | done s =>
    obtain ⟨rfl, rfl⟩ := List.append_eq_nil_iff.mp hw
    have hwaits : m.Waits s [] := by
      intro n hn
      have hne : n ≠ 0 := by
        rintro rfl
        exact hu hn
      exact Nat.pos_of_ne_zero hne
    exact ⟨s, [], [], [], [], pull_waits hwaits, rfl, rfl, .done s, .done s, fun _ => hwaits⟩
  | @step s t u piece rest out outs hneed hstep hrest ih =>
    by_cases hlen : buf.length < piece.length
    · have hwaits : m.Waits s buf := by
        intro n hn
        rw [hneed, Option.some.injEq] at hn
        omega
      exact ⟨s, buf, [], out ++ outs, [], pull_waits hwaits, rfl, rfl, .done s,
        hw ▸ .step hneed hstep hrest, fun _ => hwaits⟩
    · obtain ⟨buf', rfl⟩ : piece <+: buf :=
        List.prefix_of_prefix_length_le ⟨rest, rfl⟩ ⟨more, hw⟩ (by omega)
      have hrest' : buf' ++ more = rest := by
        rw [List.append_assoc] at hw
        exact List.append_cancel_left hw
      have hfits : piece.length ≤ (piece ++ buf').length := by
        rw [List.length_append]
        omega
      have hfull : m.step s ((piece ++ buf').take piece.length) = .ok t out := by
        rw [List.take_left]
        exact hstep
      cases out with
      | nil =>
        obtain ⟨t', rest', out', left, seen, hpull, hout, rfl, hseen, hleft, hwait⟩ :=
          ih hu hrest'
        rw [pull_go hneed hfits hfull, List.nil_append, List.drop_left]
        exact ⟨t', rest', out', left, piece ++ seen, hpull, hout, (List.append_assoc _ _ _).symm,
          .step hneed hstep hseen, hleft, hwait⟩
      | cons o out =>
        have hgot := pull_got hneed hfits hfull
        rw [List.drop_left] at hgot
        exact ⟨t, buf', o :: out, outs, piece, hgot, rfl, rfl, .one hneed hstep,
          hrest' ▸ hrest, nofun⟩

/-- A reader that waits at the end of its wire is through with it. -/
theorem Reads.waits_done {s u : S} {buf : Bytes} {outs : List O} (h : m.Reads s buf outs u)
    (hwait : m.Waits s buf) : buf = [] ∧ outs = [] ∧ u = s := by
  cases h with
  | done => exact ⟨rfl, rfl, rfl⟩
  | @step _ _ _ piece rest _ _ hneed _ _ =>
    have hlt := hwait piece.length hneed
    rw [List.length_append] at hlt
    omega

/-- A reader that waits has read as much as anyone can read of the same bytes. -/
theorem Reads.ahead {s t v : S} {seen rest wire : Bytes} {outs outs' : List O}
    (h' : m.Reads s wire outs' v) (h : m.Reads s seen outs t) (hwait : m.Waits t rest)
    (hwire : wire <+: seen ++ rest) : outs' <+: outs := by
  induction h' generalizing seen outs with
  | done s => exact List.nil_prefix
  | @step s t' v piece wire out' outs' hneed hstep hrest ih =>
    have hpiece : piece <+: seen ++ rest := (List.prefix_append piece wire).trans hwire
    cases h with
    | done =>
      have hlt := hwait piece.length hneed
      have hle := hpiece.length_le
      rw [List.nil_append] at hle
      omega
    | @step _ t₂ _ piece₂ seen₂ out₂ outs₂ hneed₂ hstep₂ hrest₂ =>
      have hlen : piece₂.length = piece.length := by
        rw [hneed, Option.some.injEq] at hneed₂
        exact hneed₂.symm
      rw [List.append_assoc] at hpiece hwire
      obtain rfl : piece₂ = piece :=
        ((List.prefix_of_prefix_length_le (List.prefix_append piece₂ _) hpiece
          (Nat.le_of_eq hlen)).eq_of_length hlen)
      rw [hstep] at hstep₂
      obtain ⟨rfl, rfl⟩ : t' = t₂ ∧ out' = out₂ := by
        cases hstep₂
        exact ⟨rfl, rfl⟩
      exact (List.prefix_append_right_inj _).mpr
        (ih hrest₂ ((List.prefix_append_right_inj _).mp hwire))

/-- After the beginning of a wire the rest of it is left. -/
theorem Reads.rest {s v u : S} {seen more : Bytes} {outs outs' : List O}
    (h : m.Reads s seen outs v) (hall : m.Reads s (seen ++ more) outs' u) (hu : m.Rests u) :
    ∃ left, outs' = outs ++ left ∧ m.Reads v more left u := by
  induction h generalizing outs' with
  | done s => exact ⟨outs', rfl, hall⟩
  | @step s t v piece rest out outs hneed hstep hrest ih =>
    generalize hw : piece ++ rest ++ more = wire at hall
    cases hall with
    | done =>
      have hnil : piece = [] := by
        rw [List.append_assoc] at hw
        exact (List.append_eq_nil_iff.mp hw).1
      subst hnil
      exact absurd hneed hu
    | @step _ t₂ _ piece₂ rest₂ out₂ outs₂ hneed₂ hstep₂ hrest₂ =>
      have hlen : piece.length = piece₂.length := by
        rw [hneed, Option.some.injEq] at hneed₂
        exact hneed₂
      rw [List.append_assoc] at hw
      obtain ⟨rfl, hmore⟩ := List.append_inj hw hlen
      subst hmore
      rw [hstep] at hstep₂
      obtain ⟨rfl, rfl⟩ : t = t₂ ∧ out = out₂ := by
        cases hstep₂
        exact ⟨rfl, rfl⟩
      obtain ⟨left, rfl, hleft⟩ := ih hrest₂
      exact ⟨left, (List.append_assoc _ _ _).symm, hleft⟩

variable (m) in
/-- `wire` gives one output, and gives it with its last byte. -/
def Frame (s : S) (wire : Bytes) (o : O) (t : S) : Prop :=
  ∃ init piece s', wire = init ++ piece ∧ piece ≠ [] ∧ m.Reads s init [] s' ∧
    m.need s' = some piece.length ∧ m.step s' piece = .ok t [o]

theorem Frame.reads {s t : S} {wire : Bytes} {o : O} (h : m.Frame s wire o t) :
    m.Reads s wire [o] t := by
  obtain ⟨init, piece, s', rfl, _, hinit, hneed, hstep⟩ := h
  exact hinit.trans (.one hneed hstep)

theorem Frame.of_one {s t : S} {piece : Bytes} {o : O} (hne : piece ≠ [])
    (hneed : m.need s = some piece.length) (hstep : m.step s piece = .ok t [o]) :
    m.Frame s piece o t := ⟨[], piece, s, rfl, hne, .done s, hneed, hstep⟩

/-- What comes in front of a frame without an output belongs to it. -/
theorem Reads.frame {s t u : S} {init wire : Bytes} {o : O} (hinit : m.Reads s init [] t)
    (h : m.Frame t wire o u) : m.Frame s (init ++ wire) o u := by
  obtain ⟨init', piece, s', rfl, hne, hinit', hneed, hstep⟩ := h
  exact ⟨init ++ init', piece, s', (List.append_assoc _ _ _).symm, hne, hinit.trans hinit', hneed,
    hstep⟩

theorem Frame.ne_nil {s t : S} {wire : Bytes} {o : O} (h : m.Frame s wire o t) : wire ≠ [] := by
  obtain ⟨init, piece, s', rfl, hne, _⟩ := h
  exact List.append_ne_nil_of_right_ne_nil init hne

/-- Whoever has an output of a wire has read its first frame. -/
theorem Frame.first {s t v : S} {wire seen more : Bytes} {o o' : O} {outs : List O}
    (h : m.Frame s wire o t) (hread : m.Reads s seen (o' :: outs) v)
    (hseen : seen <+: wire ++ more) :
    ∃ seen', seen = wire ++ seen' ∧ o' = o ∧ m.Reads t seen' outs v := by
  obtain ⟨init, piece, s', rfl, hne, hinit, hneed, hstep⟩ := h
  generalize hnil : ([] : List O) = none at hinit
  induction hinit generalizing seen with
  | done s =>
    generalize hout : o' :: outs = all at hread
    cases hread with
    | done => exact absurd hout (List.cons_ne_nil _ _)
    | @step _ t₂ _ piece₂ rest₂ out₂ outs₂ hneed₂ hstep₂ hrest₂ =>
      have hlen : piece₂.length = piece.length := by
        rw [hneed, Option.some.injEq] at hneed₂
        exact hneed₂.symm
      have hpre : piece₂ <+: piece ++ more := (List.prefix_append piece₂ rest₂).trans hseen
      obtain rfl : piece₂ = piece :=
        (List.prefix_of_prefix_length_le hpre (List.prefix_append piece more)
          (Nat.le_of_eq hlen)).eq_of_length hlen
      rw [hstep] at hstep₂
      cases hstep₂
      obtain ⟨rfl, rfl⟩ := List.cons.inj hout
      exact ⟨rest₂, rfl, rfl, hrest₂⟩
  | @step s t' s' piece' rest' out' outs' hneed' hstep' hrest' ih =>
    obtain ⟨rfl, rfl⟩ : out' = [] ∧ outs' = [] := List.append_eq_nil_iff.mp hnil.symm
    generalize hout : o' :: outs = all at hread
    cases hread with
    | done => exact absurd hout (List.cons_ne_nil _ _)
    | @step _ t₂ _ piece₂ rest₂ out₂ outs₂ hneed₂ hstep₂ hrest₂ =>
      have hlen : piece₂.length = piece'.length := by
        rw [hneed', Option.some.injEq] at hneed₂
        exact hneed₂.symm
      rw [List.append_assoc, List.append_assoc] at hseen
      have hpre : piece₂ <+: piece' ++ (rest' ++ (piece ++ more)) :=
        (List.prefix_append piece₂ rest₂).trans hseen
      obtain rfl : piece₂ = piece' :=
        (List.prefix_of_prefix_length_le hpre (List.prefix_append piece' _)
          (Nat.le_of_eq hlen)).eq_of_length hlen
      rw [hstep'] at hstep₂
      cases hstep₂
      rw [List.nil_append] at hout
      subst hout
      have hseen' : rest₂ <+: rest' ++ piece ++ more := by
        rw [List.append_assoc]
        exact (List.prefix_append_right_inj _).mp hseen
      obtain ⟨seen', rfl, rfl, hrest⟩ := ih hrest₂ hseen' hneed hstep rfl
      refine ⟨seen', ?_, rfl, hrest⟩
      rw [List.append_assoc, List.append_assoc, List.append_assoc]

/-- What a pull gives is what one step gave. -/
theorem pull_out {P : List O → Prop} (hnil : P [])
    (hstep : ∀ {s t piece out}, m.step s piece = .ok t out → P out) {s t : S} {buf rest : Bytes}
    {out : List O} (h : m.pull s buf = (t, rest, .ok out)) : P out := by
  unfold Staged.pull at h
  generalize m.size s buf + 1 = k at h
  induction k generalizing s buf with
  | zero =>
    unfold pullFor at h
    cases h
    exact hnil
  | succ k ih =>
    unfold pullFor at h
    cases hn : m.need s with
    | none =>
      rw [hn] at h
      cases h
      exact hnil
    | some n =>
      rw [hn] at h
      dsimp only at h
      split_ifs at h with hlen
      · cases h
        exact hnil
      · rcases hr : m.step s (buf.take n) with ⟨t', _ | ⟨o, out'⟩⟩ | ⟨t', kept, e⟩
        · rw [hr] at h
          exact ih h
        · rw [hr] at h
          cases h
          exact hstep hr
        · rw [hr] at h
          cases h

/-! ## Polling -/

/-- What a poll on the beginning of a wire leaves. -/
structure Follows (m : Staged S O E) (u : S) (later : Bytes) (outs : List O)
    (script : List Arrival) (r : Turn S O E) : Prop where
  reads : ∃ left, outs = r.res.out ++ left ∧ m.Reads r.state (r.buf ++ arrived r.script ++ later)
    left u
  suffix : r.script <:+ script
  got : ∀ out, r.res = .got out → out ≠ []
  sound : ∀ e, r.res ≠ .failed e
  endless : r.res ≠ .eof
  waits : r.res = .pending → m.Waits r.state r.buf ∧
    (r.script.length < script.length ∨ r.script = [])
  finished : r.res = .finished → m.need r.state = none

theorem Reads.settle {s u : S} {buf later : Bytes} {outs : List O} {script : List Arrival}
    {waits : S → Bytes → Turn S O E} (h : m.Reads s (buf ++ (arrived script ++ later)) outs u)
    (hu : m.Rests u)
    (hwaits : ∀ t rest, m.Reads t (rest ++ (arrived script ++ later)) outs u → m.Waits t rest →
      Follows m u later outs script (waits t rest)) :
    Follows m u later outs script (m.settle script waits (m.pull s buf)) := by
  obtain ⟨t, rest, out, left, seen, hpull, rfl, _, _, hreads, hwait⟩ := h.pull hu
  rw [hpull]
  cases out with
  | nil =>
    unfold Staged.settle
    dsimp only
    by_cases hn : m.need t = none
    · rw [if_pos hn]
      rw [← List.append_assoc] at hreads
      exact ⟨⟨left, rfl, hreads⟩, List.suffix_refl _, nofun, nofun, nofun, nofun, fun _ => hn⟩
    · rw [if_neg hn]
      exact hwaits t rest hreads (hwait rfl)
  | cons o out =>
    rw [← List.append_assoc] at hreads
    refine ⟨⟨left, rfl, hreads⟩, List.suffix_refl _, ?_, nofun, nofun, nofun, nofun⟩
    intro out' h
    cases h
    exact List.cons_ne_nil _ _

/-- A poll on the beginning of a wire never fails, and what is left of the wire still reads. -/
theorem Reads.poll {s u : S} {buf later : Bytes} {outs : List O} {script : List Arrival}
    (h : m.Reads s (buf ++ (arrived script ++ later)) outs u) (hu : m.Rests u)
    (hend : Endless script) : Follows m u later outs script (m.poll script s buf) := by
  induction script generalizing s buf with
  | nil =>
    refine h.settle hu fun t rest hreads hwait => ?_
    refine ⟨⟨outs, rfl, ?_⟩, List.suffix_refl _, nofun, nofun, nofun, fun _ => ⟨hwait, .inr rfl⟩,
      nofun⟩
    rw [List.append_assoc]
    exact hreads
  | cons a script ih =>
    cases a with
    | pending =>
      refine h.settle hu fun t rest hreads hwait => ?_
      refine ⟨⟨outs, rfl, ?_⟩, List.suffix_cons _ _, nofun, nofun, nofun,
        fun _ => ⟨hwait, .inl (Nat.lt_succ_self _)⟩, nofun⟩
      rw [List.append_assoc]
      exact hreads
    | data bs =>
      have hbs : bs ≠ [] := by
        rintro rfl
        exact hend List.mem_cons_self
      refine h.settle hu fun t rest hreads _ => ?_
      rw [if_neg hbs]
      rw [arrived_cons, Arrival.bytes, List.append_assoc, ← List.append_assoc] at hreads
      have hrest := ih hreads fun hmem => hend (List.mem_cons_of_mem _ hmem)
      exact ⟨hrest.reads, hrest.suffix.trans (List.suffix_cons _ _), hrest.got, hrest.sound,
        hrest.endless, fun hp => ⟨(hrest.waits hp).1, (hrest.waits hp).2.imp_left
          (Nat.lt_succ_of_lt ·)⟩, hrest.finished⟩

end Staged

end RustCrash.Lib
