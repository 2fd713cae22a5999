import RustCrash.Lib.PollIo

/-
  A staged reader of bytes behind `poll_read`: what it has opened waits in `plain`, and a poll
  hands out as much of it as the caller's buffer takes.

  Two things are shown of it. On a transport that goes on it gives all that the wire holds
  (`pollRead_drains`). On a transport that ends somewhere inside the wire it reports the end
  without an error if and only if it has nothing in its buffer then (`ending_cut`), which is the
  case exactly when the wire was cut between two of its parts (`Parts.cut`).
-/

namespace RustCrash.Lib

structure ByteReader (S : Type) where
  state : S
  rbuf : Bytes
  plain : Bytes

namespace ByteReader

variable {S E : Type}

structure Polling (S : Type) where
  reader : ByteReader S
  script : List Arrival
  res : Poll (IoResult Bytes)

variable (m : Staged S UInt8 E) (failure : E → IoError) (truncated : IoError)

/-- `poll_read` into a buffer of `cap` bytes: the bytes that were put there. -/
def pollRead (cap : Nat) (script : List Arrival) (r : ByteReader S) : Polling S :=
  if r.plain ≠ [] then
    ⟨{ r with plain := r.plain.drop cap }, script, .ready (.ok (r.plain.take cap))⟩
  else
    let t := m.poll script r.state r.rbuf
    match t.res with
    | .got out => ⟨⟨t.state, t.buf, out.drop cap⟩, t.script, .ready (.ok (out.take cap))⟩
    | .failed e => ⟨⟨t.state, t.buf, []⟩, t.script, .ready (.error (failure e))⟩
    | .pending => ⟨⟨t.state, t.buf, []⟩, t.script, .pending⟩
    | .eof =>
      ⟨⟨t.state, t.buf, []⟩, t.script, .ready (if t.buf = [] then .ok [] else .error truncated)⟩
    | .finished => ⟨⟨t.state, t.buf, []⟩, t.script, .ready (.ok [])⟩

/-- Polls until the reader reports its end, or fails: a read without a byte is the end. -/
def ending (caps : Nat → Nat) : Nat → Nat → List Arrival → ByteReader S → Option (IoResult Unit)
  | 0, _, _, _ => none
  | n + 1, i, script, r =>
    let p := r.pollRead m failure truncated (caps i) script
    match p.res with
    | .pending => ending caps n (i + 1) p.script p.reader
    | .ready (.error e) => some (.error e)
    | .ready (.ok []) => some (.ok ())
    | .ready (.ok (_ :: _)) => ending caps n (i + 1) p.script p.reader

end ByteReader

/-! ## A transport that goes on -/

namespace Staged

variable {S O E : Type} {m : Staged S O E}

/-- A stream that is over holds nothing. -/
theorem Reads.over {s u : S} {wire : Bytes} {outs : List O} (h : m.Reads s wire outs u)
    (hover : m.need s = none) : wire = [] ∧ outs = [] ∧ u = s := by
  cases h with
  | done => exact ⟨rfl, rfl, rfl⟩
  | step hneed _ _ =>
    rw [hover] at hneed
    cases hneed

theorem poll_over {s : S} {buf : Bytes} {script : List Arrival} (hover : m.need s = none) :
    m.poll script s buf = ⟨s, buf, script, .finished⟩ := by
  have hwait : m.Waits s buf := by
    intro n hn
    rw [hover] at hn
    cases hn
  have hsettle : ∀ waits : S → Bytes → Turn S O E,
      m.settle script waits (m.pull s buf) = ⟨s, buf, script, .finished⟩ := by
    intro waits
    rw [pull_waits hwait]
    exact if_pos hover
  rcases script with _ | ⟨_ | _, script⟩ <;> exact hsettle _

end Staged

namespace ByteReader

variable {S E : Type} {m : Staged S UInt8 E} {failure : E → IoError} {truncated : IoError}

variable (m failure truncated) in
/-- A poll of the reader with its transport: what it gives, if it is ready without an error. -/
def poll (caps : Nat → Nat) (i : Nat) (s : ByteReader S × List Arrival) :
    (ByteReader S × List Arrival) × Bytes :=
  let p := s.1.pollRead m failure truncated (caps i) s.2
  ((p.reader, p.script), match p.res with
    | .ready (.ok bs) => bs
    | _ => [])

variable (m) in
/-- What the reader and its transport hold. -/
def Holds (u : S) (s : ByteReader S × List Arrival) (bs : Bytes) : Prop :=
  Endless s.2 ∧ ∃ outs, m.Reads s.1.state (s.1.rbuf ++ arrived s.2) outs u ∧ bs = s.1.plain ++ outs

variable (m) in
def waiting (s : ByteReader S × List Arrival) : Nat :=
  if m.need s.1.state = none then 0 else s.2.length

/-- No poll fails, and all that is held comes out. -/
theorem pollRead_drains {u : S} {caps : Nat → Nat} (hcaps : ∀ i, 0 < caps i) (hu : m.Rests u) :
    Drains (poll m failure truncated caps) (Holds m u) (waiting m) := by
  rintro i ⟨r, script⟩ bs ⟨hend, outs, hreads, rfl⟩
  unfold poll pollRead
  dsimp only at hend hreads ⊢
  have htaken : ∀ {xs : Bytes}, xs ≠ [] → xs.take (caps i) ≠ [] := by
    intro xs hne htake
    rcases List.take_eq_nil_iff.mp htake with hzero | hnil
    · exact absurd hzero (Nat.ne_of_gt (hcaps i))
    · exact hne hnil
  by_cases hplain : r.plain ≠ []
  · rw [if_pos hplain]
    dsimp only
    refine ⟨r.plain.drop (caps i) ++ outs, ⟨hend, outs, hreads, rfl⟩, ?_, Nat.le_refl _,
      .inl (htaken hplain)⟩
    rw [← List.append_assoc, List.take_append_drop]
  · rw [if_neg hplain, not_not.mp hplain, List.nil_append]
    by_cases hover : m.need r.state = none
    · obtain ⟨hwire, rfl, rfl⟩ := hreads.over hover
      rw [Staged.poll_over hover]
      refine ⟨[], ⟨hend, [], ?_, rfl⟩, rfl, Nat.le_refl _, .inr (.inr ⟨if_pos hover, rfl⟩)⟩
      rw [hwire]
      exact .done _
    · have hwait : waiting m (r, script) = script.length := if_neg hover
      rw [← List.append_nil (arrived script)] at hreads
      have hpoll := hreads.poll hu hend
      generalize m.poll script r.state r.rbuf = t at hpoll
      obtain ⟨⟨left, rfl, hleft⟩, ⟨used, hscript⟩, hgot, hsound, heof, hwaits, hfinished⟩ := hpoll
      obtain ⟨t, buf, script', res⟩ := t
      rw [List.append_nil] at hleft
      dsimp only at hleft hscript hgot hsound heof hwaits hfinished ⊢
      have hend' : Endless script' := hend.of_append hscript.symm
      have hle : ∀ plain, waiting m (⟨t, buf, plain⟩, script') ≤ script'.length := by
        intro plain
        unfold waiting
        split_ifs
        · exact Nat.zero_le _
        · exact Nat.le_refl _
      have hlen : script'.length ≤ script.length := by
        rw [← hscript, List.length_append]
        exact Nat.le_add_left _ _
      rw [hwait]
      cases res with
      | got out =>
        refine ⟨out.drop (caps i) ++ left, ⟨hend', left, hleft, rfl⟩, ?_, (hle _).trans hlen,
          .inl (htaken (hgot out rfl))⟩
        rw [← List.append_assoc, List.take_append_drop]
        rfl
      | failed e => exact absurd rfl (hsound e)
      | pending =>
        refine ⟨left, ⟨hend', left, hleft, rfl⟩, rfl, (hle _).trans hlen, .inr ?_⟩
        obtain ⟨hwaiting, hless | rfl⟩ := hwaits rfl
        · exact .inl (Nat.lt_of_le_of_lt (hle _) hless)
        · rw [arrived_nil, List.append_nil] at hleft
          obtain ⟨-, rfl, -⟩ := hleft.waits_done hwaiting
          exact .inr ⟨Nat.le_zero.mp (hle _), rfl⟩
      | eof => exact absurd rfl heof
      | finished =>
        obtain ⟨hwire, rfl, rfl⟩ := hleft.over (hfinished rfl)
        refine ⟨[], ⟨hend', [], hleft, rfl⟩, rfl, (hle _).trans hlen,
          .inr (.inr ⟨if_pos (hfinished rfl), rfl⟩)⟩

end ByteReader

/-! ## A transport that ends -/

namespace Staged

variable {S O E : Type} {m : Staged S O E}

/-- Whoever waits has read all that the same bytes are known to hold. -/
theorem Reads.behind {s t v : S} {wire seen rest : Bytes} {outs outs' : List O}
    (h' : m.Reads s wire outs' v) (h : m.Reads s seen outs t) (hwait : m.Waits t rest)
    (hwire : wire <+: seen ++ rest) :
    ∃ seen' left, seen = wire ++ seen' ∧ m.Reads v seen' left t := by
  induction h' generalizing seen outs with
  | done s => exact ⟨seen, outs, rfl, h⟩
  | @step s t' v piece wire out' outs' hneed hstep hrest ih =>
    have hpiece : piece <+: seen ++ rest := (List.prefix_append piece wire).trans hwire
    cases h with
    | done =>
      have hlt := hwait piece.length hneed
      have hle := hpiece.length_le
      rw [List.nil_append] at hle
      omega
    | @step _ t₂ _ piece₂ seen₂ out₂ outs₂ hneed₂ hstep₂ hrest₂ =>
      have hlen : piece₂.length = piece.length := by
        rw [hneed, Option.some.injEq] at hneed₂
        exact hneed₂.symm
      rw [List.append_assoc] at hpiece hwire
      obtain rfl : piece₂ = piece :=
        (List.prefix_of_prefix_length_le (List.prefix_append piece₂ _) hpiece
          (Nat.le_of_eq hlen)).eq_of_length hlen
      rw [hstep] at hstep₂
      cases hstep₂
      obtain ⟨seen', left, rfl, hleft⟩ := ih hrest₂ ((List.prefix_append_right_inj _).mp hwire)
      exact ⟨seen', left, (List.append_assoc _ _ _).symm, hleft⟩

/-- A poll on a transport that brings `pre` and then ends, inside a wire that goes on with
    `later`. -/
inductive Cut (m : Staged S O E) (s u : S) (pre later : Bytes) (outs : List O)
    (script : List Arrival) : Turn S O E → Prop
  | got {t : S} {buf seen : Bytes} {out left : List O} {script' : List Arrival} (hne : out ≠ [])
      (hpre : pre = seen ++ (buf ++ arrived script')) (hseen : m.Reads s seen out t)
      (hreads : m.Reads t (buf ++ (arrived script' ++ later)) left u) (houts : outs = out ++ left)
      (hend : Endless script') (hlen : script'.length ≤ script.length) :
      Cut m s u pre later outs script ⟨t, buf, script' ++ [.data []], .got out⟩
  | pending {t : S} {buf seen : Bytes} {script' : List Arrival}
      (hpre : pre = seen ++ (buf ++ arrived script')) (hseen : m.Reads s seen [] t)
      (hreads : m.Reads t (buf ++ (arrived script' ++ later)) outs u)
      (hend : Endless script') (hlen : script'.length < script.length) :
      Cut m s u pre later outs script ⟨t, buf, script' ++ [.data []], .pending⟩
  | eof {t : S} {buf seen : Bytes} (hpre : pre = seen ++ buf) (hseen : m.Reads s seen [] t)
      (hwait : m.Waits t buf) : Cut m s u pre later outs script ⟨t, buf, [], .eof⟩
  | finished {t : S} {script' : List Arrival} (hseen : m.Reads s pre [] t)
      (hnone : m.need t = none) : Cut m s u pre later outs script ⟨t, [], script', .finished⟩

/-- What came before a poll belongs to it. -/
theorem Cut.behind {s s' u : S} {pre seen later : Bytes} {outs : List O} {script script' : List Arrival}
    {r : Turn S O E} (h : m.Cut s' u pre later outs script r) (hseen : m.Reads s seen [] s')
    (hlen : script.length ≤ script'.length) : m.Cut s u (seen ++ pre) later outs script' r := by
  cases h with
  | got hne hpre hread hreads houts hend hle =>
    refine .got hne ?_ (hseen.trans hread) hreads houts hend (hle.trans hlen)
    rw [hpre, List.append_assoc]
  | pending hpre hread hreads hend hlt =>
    refine .pending ?_ (hseen.trans hread) hreads hend (Nat.lt_of_lt_of_le hlt hlen)
    rw [hpre, List.append_assoc]
  | eof hpre hread hwait =>
    refine .eof ?_ (hseen.trans hread) hwait
    rw [hpre, List.append_assoc]
  | finished hread hnone => exact .finished (hseen.trans hread) hnone

theorem Reads.settle_cut {s u : S} {buf later : Bytes} {outs : List O} {script : List Arrival}
    {waits : S → Bytes → Turn S O E} (h : m.Reads s (buf ++ (arrived script ++ later)) outs u)
    (hu : m.Rests u) (hend : Endless script)
    (hwaits : ∀ t rest seen, buf = seen ++ rest → m.Reads s seen [] t →
      m.Reads t (rest ++ (arrived script ++ later)) outs u → m.Waits t rest →
      m.Cut s u (buf ++ arrived script) later outs script (waits t rest)) :
    m.Cut s u (buf ++ arrived script) later outs script
      (m.settle (script ++ [.data []]) waits (m.pull s buf)) := by
  obtain ⟨t, rest, out, left, seen, hpull, rfl, rfl, hseen, hreads, hwait⟩ := h.pull hu
  rw [hpull]
  cases out with
  | nil =>
    unfold Staged.settle
    dsimp only
    by_cases hn : m.need t = none
    · rw [if_pos hn]
      obtain ⟨rfl, hmore⟩ := List.append_eq_nil_iff.mp (hreads.over hn).1
      have harrived := (List.append_eq_nil_iff.mp hmore).1
      rw [harrived, List.append_nil, List.append_nil]
      exact .finished hseen hn
    · rw [if_neg hn]
      exact hwaits t rest seen rfl hseen hreads (hwait rfl)
  | cons o out =>
    exact .got (List.cons_ne_nil _ _) (List.append_assoc _ _ _) hseen hreads rfl hend
      (Nat.le_refl _)

/-- A poll on the beginning of a wire, on a transport that ends there. -/
theorem Reads.poll_cut {s u : S} {buf later : Bytes} {outs : List O} {script : List Arrival}
    (h : m.Reads s (buf ++ (arrived script ++ later)) outs u) (hu : m.Rests u)
    (hend : Endless script) :
    m.Cut s u (buf ++ arrived script) later outs script
      (m.poll (script ++ [.data []]) s buf) := by
  induction script generalizing s buf with
  | nil =>
    refine h.settle_cut hu hend fun t rest seen hbuf hseen _ hwait => ?_
    rw [if_pos rfl]
    refine .eof ?_ hseen hwait
    rw [arrived_nil, List.append_nil, hbuf]
  | cons a script ih =>
    have hend' : Endless script := fun hmem => hend (List.mem_cons_of_mem _ hmem)
    cases a with
    | pending =>
      refine h.settle_cut hu hend fun t rest seen hbuf hseen hreads _ => ?_
      refine .pending ?_ hseen hreads hend' (Nat.lt_succ_self _)
      rw [hbuf, List.append_assoc]
      rfl
    | data bs =>
      have hbs : bs ≠ [] := by
        rintro rfl
        exact hend List.mem_cons_self
      refine h.settle_cut hu hend fun t rest seen hbuf hseen hreads _ => ?_
      rw [if_neg hbs, hbuf, arrived_cons, Arrival.bytes, List.append_assoc, ← List.append_assoc rest]
      rw [arrived_cons, Arrival.bytes, List.append_assoc, ← List.append_assoc] at hreads
      exact (ih hreads hend').behind hseen (Nat.le_succ _)

/-! ## The parts of a wire -/

variable {K : Type}

/-- The bytes of the parts, one after the other. -/
def wireOfParts (parts : List (K × Bytes)) : Bytes := parts.flatMap Prod.snd

@[simp] theorem wireOfParts_nil : wireOfParts ([] : List (K × Bytes)) = [] := rfl

@[simp] theorem wireOfParts_cons (p : K × Bytes) (parts : List (K × Bytes)) :
    wireOfParts (p :: parts) = p.2 ++ wireOfParts parts := List.flatMap_cons

variable (m) in
/-- The parts of a wire are the pieces that the reader asks for, none of them empty. -/
inductive Parts : S → List (K × Bytes) → S → Prop
  | nil (s : S) : Parts s [] s
  | cons {s t u : S} {k : K} {piece : Bytes} {out : List O} {parts : List (K × Bytes)}
      (hne : piece ≠ []) (hneed : m.need s = some piece.length) (hread : m.Reads s piece out t)
      (hrests : m.Rests t) (hparts : Parts t parts u) : Parts s ((k, piece) :: parts) u

variable {parts : List (K × Bytes)}

theorem Parts.reads {s u : S} (h : m.Parts s parts u) :
    ∃ outs, m.Reads s (wireOfParts parts) outs u := by
  induction h with
  | nil s => exact ⟨[], .done s⟩
  | cons _ _ hread _ _ ih =>
    obtain ⟨outs, hrest⟩ := ih
    exact ⟨_, hread.trans hrest⟩

theorem Parts.rests {s u : S} (h : m.Parts s parts u) (hs : m.Rests s) : m.Rests u := by
  induction h with
  | nil s => exact hs
  | cons _ _ _ hrests _ ih => exact ih hrests

/-- A wire that was cut between two parts. -/
def Whole (parts : List (K × Bytes)) (pre : Bytes) : Prop :=
  ∃ done todo, parts = done ++ todo ∧ pre = wireOfParts done

/-- A reader that waits has nothing in its buffer if and only if the wire was cut between two
    parts. -/
theorem Parts.cut {s t u : S} {seen rest more : Bytes} {out : List O} (h : m.Parts s parts u)
    (hseen : m.Reads s seen out t) (hwait : m.Waits t rest)
    (hwire : seen ++ rest ++ more = wireOfParts parts) :
    rest = [] ↔ Whole parts (seen ++ rest) := by
  induction h generalizing seen out with
  | nil s =>
    obtain ⟨hpre, -⟩ := List.append_eq_nil_iff.mp hwire
    obtain ⟨rfl, rfl⟩ := List.append_eq_nil_iff.mp hpre
    exact ⟨fun _ => ⟨[], [], rfl, rfl⟩, fun _ => rfl⟩
  | @cons s t' u k piece out' parts hne hneed hread hrests hparts ih =>
    have hpos := List.length_pos_of_ne_nil hne
    rw [wireOfParts_cons] at hwire
    by_cases hlen : (seen ++ rest).length < piece.length
    · -- Not even the first part is there, so no step was made.
      obtain rfl : seen = [] := by
        cases hseen with
        | done => rfl
        | @step _ _ _ piece₂ seen₂ _ _ hneed₂ _ _ =>
          rw [hneed, Option.some.injEq] at hneed₂
          rw [List.length_append, List.length_append] at hlen
          omega
      rw [List.nil_append] at hlen ⊢
      constructor
      · rintro rfl
        exact ⟨[], _, rfl, rfl⟩
      · rintro ⟨done, todo, hdone, hrest⟩
        cases done with
        | nil => exact hrest
        | cons p done =>
          obtain ⟨rfl, -⟩ := List.cons.inj hdone
          rw [wireOfParts_cons] at hrest
          rw [hrest, List.length_append] at hlen
          dsimp only at hlen
          omega
    · have hpiece : piece <+: seen ++ rest :=
        List.prefix_of_prefix_length_le ⟨wireOfParts parts, rfl⟩ ⟨more, hwire⟩ (by omega)
      obtain ⟨seen', left, rfl, hseen'⟩ := hread.behind hseen hwait hpiece
      rw [List.append_assoc, List.append_assoc] at hwire
      have hrest := ih hseen' (by rw [List.append_assoc]; exact List.append_cancel_left hwire)
      rw [hrest]
      constructor
      · rintro ⟨done, todo, rfl, hpre⟩
        refine ⟨(k, piece) :: done, todo, rfl, ?_⟩
        rw [wireOfParts_cons, ← hpre, List.append_assoc]
      · rintro ⟨done, todo, hdone, hpre⟩
        cases done with
        | nil =>
          rw [List.append_assoc] at hpre
          exact absurd (List.append_eq_nil_iff.mp hpre).1 hne
        | cons p done =>
          obtain ⟨rfl, hparts'⟩ := List.cons.inj hdone
          refine ⟨done, todo, hparts', ?_⟩
          rw [wireOfParts_cons, List.append_assoc] at hpre
          exact List.append_cancel_left hpre

end Staged

/-! ## Reading to the end -/

namespace ByteReader

variable {S E : Type} {m : Staged S UInt8 E} {failure : E → IoError} {truncated : IoError}

variable (failure truncated) in
/-- A reader whose transport ends inside the wire, at a place where it waits. -/
theorem ending_cut {r : ByteReader S} {u : S} {later : Bytes} {outs : List UInt8}
    {script : List Arrival} {caps : Nat → Nat} {n i : Nat} (hcaps : ∀ i, 0 < caps i)
    (h : m.Reads r.state (r.rbuf ++ (arrived script ++ later)) outs u) (hu : m.Rests u)
    (hend : Endless script) (hn : r.plain.length + outs.length + script.length < n) :
    ∃ t rest seen out, r.ending m failure truncated caps n i (script ++ [.data []]) =
        some (if rest = [] then .ok () else .error truncated) ∧
      r.rbuf ++ arrived script = seen ++ rest ∧ m.Reads r.state seen out t ∧ m.Waits t rest := by
  induction n generalizing r outs script i with
  | zero => omega
  | succ n ih =>
    unfold ending pollRead
    dsimp only
    have htake : ∀ {xs : Bytes}, xs ≠ [] →
        ∃ b bs, xs.take (caps i) = b :: bs ∧ (xs.drop (caps i)).length < xs.length := by
      intro xs hne
      obtain ⟨x, xs, rfl⟩ := List.exists_cons_of_ne_nil hne
      obtain ⟨c, hc⟩ : ∃ c, caps i = c + 1 := ⟨_, (Nat.succ_pred_eq_of_pos (hcaps i)).symm⟩
      refine ⟨x, xs.take c, by rw [hc, List.take_succ_cons], ?_⟩
      rw [hc, List.drop_succ_cons, List.length_cons, List.length_drop]
      omega
    by_cases hplain : r.plain ≠ []
    · obtain ⟨b, bs, htaken, hless⟩ := htake hplain
      rw [if_pos hplain]
      dsimp only
      rw [htaken]
      exact ih (r := { r with plain := r.plain.drop (caps i) }) h hend (by dsimp only; omega)
    · rw [if_neg hplain]
      have hcut := h.poll_cut hu hend
      generalize m.poll (script ++ [.data []]) r.state r.rbuf = t at hcut
      cases hcut with
      | @got t buf seen out left script' hne hpre hseen hreads houts hend' hlen =>
        obtain ⟨b, bs, htaken, hless⟩ := htake hne
        dsimp only
        rw [htaken]
        rw [houts, List.length_append] at hn
        obtain ⟨t', rest, seen', out', hrun, hsplit, hread', hwait⟩ :=
          ih (r := ⟨t, buf, out.drop (caps i)⟩) (i := i + 1) hreads hend' (by dsimp only; omega)
        refine ⟨t', rest, seen ++ seen', out ++ out', hrun, ?_, hseen.trans hread', hwait⟩
        rw [hpre, hsplit, List.append_assoc]
      | @pending t buf seen script' hpre hseen hreads hend' hlen =>
        dsimp only
        obtain ⟨t', rest, seen', out', hrun, hsplit, hread', hwait⟩ :=
          ih (r := ⟨t, buf, []⟩) (i := i + 1) hreads hend'
            (by simp only [List.length_nil]; omega)
        refine ⟨t', rest, seen ++ seen', out', hrun, ?_, hseen.trans hread', hwait⟩
        rw [hpre, hsplit, List.append_assoc]
      | @eof t buf seen hpre hseen hwait =>
        refine ⟨t, buf, seen, [], ?_, hpre, hseen, hwait⟩
        dsimp only
        by_cases hbuf : buf = []
        · rw [if_pos hbuf, if_pos hbuf]
        · rw [if_neg hbuf, if_neg hbuf]
      | @finished t script' hseen hnone =>
        refine ⟨t, [], _, [], ?_, (List.append_nil _).symm, hseen, ?_⟩
        · rw [if_pos rfl]
          rfl
        · intro n hn
          rw [hnone] at hn
          cases hn

end ByteReader

/-! ## Whole steps

What a poll gives is what one step gave. `Batches` keeps the outputs of the steps apart, so that
the edges between them can be spoken of. -/

namespace Staged

variable {S O E : Type} {m : Staged S O E}

variable (m) in
/-- As `Reads`, with one entry for each step that has an output. -/
inductive Batches : S → Bytes → List (List O) → S → Prop
  | done (s : S) : Batches s [] [] s
  | quiet {s t u : S} {piece rest : Bytes} {outs : List (List O)}
      (hneed : m.need s = some piece.length) (hstep : m.step s piece = .ok t [])
      (hrest : Batches t rest outs u) : Batches s (piece ++ rest) outs u
  | batch {s t u : S} {piece rest : Bytes} {o : O} {out : List O} {outs : List (List O)}
      (hne : piece ≠ []) (hneed : m.need s = some piece.length)
      (hstep : m.step s piece = .ok t (o :: out)) (hrest : Batches t rest outs u) :
      Batches s (piece ++ rest) ((o :: out) :: outs) u

variable {outs : List (List O)}

/-- Every batch takes a byte. -/
theorem Batches.length_le {s u : S} {wire : Bytes} (h : m.Batches s wire outs u) :
    outs.length ≤ wire.length := by
  induction h with
  | done => exact Nat.le_refl _
  | quiet _ _ _ ih =>
    rw [List.length_append]
    omega
  | batch hne _ _ _ ih =>
    have hpos := List.length_pos_of_ne_nil hne
    rw [List.length_append, List.length_cons]
    omega

/-- A piece that is there in full is the beginning of the buffer. -/
theorem split_of_append {piece rest buf more : Bytes} (hw : buf ++ more = piece ++ rest)
    (hlen : piece.length ≤ buf.length) : ∃ buf', buf = piece ++ buf' ∧ buf' ++ more = rest := by
  obtain ⟨buf', rfl⟩ : piece <+: buf :=
    List.prefix_of_prefix_length_le ⟨rest, rfl⟩ ⟨more, hw⟩ hlen
  rw [List.append_assoc] at hw
  exact ⟨buf', rfl, List.append_cancel_left hw⟩

/-- A reader that has only the beginning `buf` of a wire gives the next batch, or waits. -/
theorem Batches.pull {s u : S} {buf more : Bytes} (h : m.Batches s (buf ++ more) outs u)
    (hu : m.Rests u) :
    ∃ t rest, (m.pull s buf = (t, rest, .ok []) ∧ m.Waits t rest ∧
        m.Batches t (rest ++ more) outs u) ∨
      ∃ o out outs', m.pull s buf = (t, rest, .ok (o :: out)) ∧ outs = (o :: out) :: outs' ∧
        m.Batches t (rest ++ more) outs' u := by
  generalize hw : buf ++ more = wire at h
  have hshort : ∀ {s t : S} {piece : Bytes}, m.need s = some piece.length →
      buf.length < piece.length → m.Waits s buf := by
    intro s t piece hneed hlen n hn
    rw [hneed, Option.some.injEq] at hn
    omega
  induction h generalizing buf with
  | done s =>
    obtain ⟨rfl, rfl⟩ := List.append_eq_nil_iff.mp hw
    have hwaits : m.Waits s [] := by
      intro n hn
      have hne : n ≠ 0 := by
        rintro rfl
        exact hu hn
      exact Nat.pos_of_ne_zero hne
    exact ⟨s, [], .inl ⟨pull_waits hwaits, hwaits, .done s⟩⟩
  | @quiet s t u piece rest outs hneed hstep hrest ih =>
    by_cases hlen : buf.length < piece.length
    · have hwaits := hshort (t := t) hneed hlen
      exact ⟨s, buf, .inl ⟨pull_waits hwaits, hwaits, hw ▸ .quiet hneed hstep hrest⟩⟩
    · obtain ⟨buf', rfl, hrest'⟩ := split_of_append hw (Nat.le_of_not_lt hlen)
      have hfull : m.step s ((piece ++ buf').take piece.length) = .ok t [] := by
        rw [List.take_left]
        exact hstep
      rw [pull_go hneed (Nat.le_of_not_lt hlen) hfull, List.drop_left]
      refine ih hu hrest' ?_
      intro s' t' piece' hneed' hlen' n hn
      rw [hneed', Option.some.injEq] at hn
      omega
  | @batch s t u piece rest o out outs hne hneed hstep hrest ih =>
    by_cases hlen : buf.length < piece.length
    · have hwaits := hshort (t := t) hneed hlen
      exact ⟨s, buf, .inl ⟨pull_waits hwaits, hwaits, hw ▸ .batch hne hneed hstep hrest⟩⟩
    · obtain ⟨buf', rfl, hrest'⟩ := split_of_append hw (Nat.le_of_not_lt hlen)
      have hfull : m.step s ((piece ++ buf').take piece.length) = .ok t (o :: out) := by
        rw [List.take_left]
        exact hstep
      have hgot := pull_got hneed (Nat.le_of_not_lt hlen) hfull
      rw [List.drop_left] at hgot
      exact ⟨t, buf', .inr ⟨o, out, outs, hgot, rfl, hrest' ▸ hrest⟩⟩

/-- A reader that waits at the end of its wire is through with it. -/
theorem Batches.waits_done {s u : S} {buf : Bytes} (h : m.Batches s buf outs u)
    (hwait : m.Waits s buf) : buf = [] ∧ outs = [] ∧ u = s := by
  have hpiece : ∀ {piece rest : Bytes}, m.need s = some piece.length →
      buf = piece ++ rest → False := by
    rintro piece rest hneed rfl
    have hlt := hwait piece.length hneed
    rw [List.length_append] at hlt
    omega
  cases h with
  | done => exact ⟨rfl, rfl, rfl⟩
  | quiet hneed => exact (hpiece hneed rfl).elim
  | batch _ hneed => exact (hpiece hneed rfl).elim

/-- A poll on the beginning of batches; `tail` is what the transport does at the end. -/
inductive BatchTurn (m : Staged S O E) (u : S) (tail script : List Arrival) :
    List (List O) → Turn S O E → Prop
  | got {t : S} {buf : Bytes} {script' : List Arrival} {o : O} {out : List O}
      {outs : List (List O)} (hreads : m.Batches t (buf ++ arrived script') outs u)
      (hend : Endless script') (hlen : script'.length ≤ script.length) :
      BatchTurn m u tail script ((o :: out) :: outs) ⟨t, buf, script' ++ tail, .got (o :: out)⟩
  | pending {t : S} {buf : Bytes} {script' : List Arrival} {outs : List (List O)}
      (hreads : m.Batches t (buf ++ arrived script') outs u) (hend : Endless script')
      (hlen : script'.length < script.length) :
      BatchTurn m u tail script outs ⟨t, buf, script' ++ tail, .pending⟩
  | drained : BatchTurn m u tail script [] ⟨u, [], [], if tail = [] then .pending else .eof⟩

theorem BatchTurn.mono {u : S} {tail script script' : List Arrival} {r : Turn S O E}
    (h : m.BatchTurn u tail script outs r) (hle : script.length ≤ script'.length) :
    m.BatchTurn u tail script' outs r := by
  cases h with
  | got hreads hend hlen => exact .got hreads hend (hlen.trans hle)
  | pending hreads hend hlen => exact .pending hreads hend (hlen.trans_le hle)
  | drained => exact .drained

theorem Batches.settle (hneeds : ∀ s, m.need s ≠ none) {s u : S} {buf : Bytes}
    {tail script : List Arrival} {waits : S → Bytes → Turn S O E}
    (h : m.Batches s (buf ++ arrived script) outs u) (hu : m.Rests u) (hend : Endless script)
    (hwaits : ∀ t rest, m.Batches t (rest ++ arrived script) outs u → m.Waits t rest →
      m.BatchTurn u tail script outs (waits t rest)) :
    m.BatchTurn u tail script outs (m.settle (script ++ tail) waits (m.pull s buf)) := by
  obtain ⟨t, rest, ⟨hpull, hwait, hreads⟩ | ⟨o, out, outs', hpull, rfl, hreads⟩⟩ := h.pull hu
  · rw [hpull]
    unfold Staged.settle
    dsimp only
    rw [if_neg (hneeds t)]
    exact hwaits t rest hreads hwait
  · rw [hpull]
    exact .got hreads hend (Nat.le_refl _)

theorem Batches.poll (hneeds : ∀ s, m.need s ≠ none) {s u : S} {buf : Bytes}
    {tail script : List Arrival} (htail : tail = [] ∨ tail = [.data []])
    (h : m.Batches s (buf ++ arrived script) outs u) (hu : m.Rests u) (hend : Endless script) :
    m.BatchTurn u tail script outs (m.poll (script ++ tail) s buf) := by
  induction script generalizing s buf with
  | nil =>
    have hdone : ∀ t rest, m.Batches t (rest ++ arrived []) outs u → m.Waits t rest →
        rest = [] ∧ outs = [] ∧ u = t := by
      intro t rest hreads hwait
      rw [arrived_nil, List.append_nil] at hreads
      exact hreads.waits_done hwait
    rcases htail with rfl | rfl
    · refine h.settle hneeds hu hend fun t rest hreads hwait => ?_
      obtain ⟨rfl, rfl, rfl⟩ := hdone t rest hreads hwait
      exact .drained
    · refine h.settle hneeds hu hend fun t rest hreads hwait => ?_
      obtain ⟨rfl, rfl, rfl⟩ := hdone t rest hreads hwait
      exact .drained
  | cons a script ih =>
    cases a with
    | pending =>
      refine h.settle hneeds hu hend fun t rest hreads hwait => ?_
      exact .pending hreads hend.tail (Nat.lt_succ_self _)
    | data bs =>
      have hbs : bs ≠ [] := by
        rintro rfl
        exact hend List.mem_cons_self
      refine h.settle hneeds hu hend fun t rest hreads hwait => ?_
      rw [if_neg hbs]
      rw [arrived_cons, Arrival.bytes, ← List.append_assoc] at hreads
      exact (ih hreads hend.tail).mono (Nat.le_succ _)

end Staged

/-! ## Packets

A read of one byte, and then all that was opened with it: the packet is that byte and the rest of
its batch. A batch of one byte leaves no rest, and the loop goes on to the next. -/

namespace ByteReader

variable {S E : Type}

/-- What a call that waits for a packet gives. -/
inductive PacketRead (S : Type) where
  | packet (bs : Bytes) (r : ByteReader S) (script : List Arrival)
  | failed (e : IoError)
  | eof
  /-- The transport brings nothing more. -/
  | waiting

variable (m : Staged S UInt8 E) (failure : E → IoError) (truncated : IoError)

def readPacketFor : Nat → ByteReader S → List Arrival → PacketRead S
  | 0, _, _ => .waiting
  | n + 1, r, script =>
    let p := r.pollRead m failure truncated 1 script
    match p.res with
    | .pending => if script = [] then .waiting else readPacketFor n p.reader p.script
    | .ready (.error e) => .failed e
    | .ready (.ok []) => .eof
    | .ready (.ok (first :: _)) =>
      if p.reader.plain ≠ [] then
        .packet (first :: p.reader.plain) { p.reader with plain := [] } p.script
      else readPacketFor n p.reader p.script

/-- Each round takes a byte, or one answer of the transport. -/
def readPacket (r : ByteReader S) (script : List Arrival) : PacketRead S :=
  readPacketFor m failure truncated (r.rbuf.length + (arrived script).length + script.length + 1)
    r script

variable {m failure truncated}

/-- What a call finds in batches: the first that has more than a byte. -/
inductive PacketTurn (m : Staged S UInt8 E) (u : S) (tail : List Arrival) :
    List Bytes → PacketRead S → Prop
  | packet {r : ByteReader S} {script : List Arrival} {skipped outs : List Bytes} {bs : Bytes}
      (hskipped : ∀ x ∈ skipped, x.length = 1) (hbs : 2 ≤ bs.length) (hplain : r.plain = [])
      (hreads : m.Batches r.state (r.rbuf ++ arrived script) outs u) (hend : Endless script) :
      PacketTurn m u tail (skipped ++ bs :: outs) (.packet bs r (script ++ tail))
  | drained {outs : List Bytes} (hskipped : ∀ x ∈ outs, x.length = 1) :
      PacketTurn m u tail outs (if tail = [] then .waiting else .eof)

theorem PacketTurn.skip {u : S} {tail : List Arrival} {outs : List Bytes} {p : PacketRead S}
    (h : PacketTurn m u tail outs p) {x : Bytes} (hx : x.length = 1) :
    PacketTurn m u tail (x :: outs) p := by
  cases h with
  | packet hskipped hbs hplain hreads hend =>
    rw [← List.cons_append]
    exact .packet (List.forall_mem_cons.mpr ⟨hx, hskipped⟩) hbs hplain hreads hend
  | drained hskipped => exact .drained (List.forall_mem_cons.mpr ⟨hx, hskipped⟩)

theorem readPacketFor_batches (hneeds : ∀ s, m.need s ≠ none) {tail script : List Arrival}
    (htail : tail = [] ∨ tail = [.data []]) {u : S} (hu : m.Rests u) {n : Nat} {r : ByteReader S}
    {outs : List Bytes} (hplain : r.plain = [])
    (h : m.Batches r.state (r.rbuf ++ arrived script) outs u) (hend : Endless script)
    (hn : outs.length + script.length < n) :
    PacketTurn m u tail outs (readPacketFor m failure truncated n r (script ++ tail)) := by
  induction n generalizing r outs script with
  | zero => exact absurd hn (Nat.not_lt_zero _)
  | succ n ih =>
    have hturn := h.poll hneeds htail hu hend
    unfold readPacketFor pollRead
    rw [if_neg (not_not.mpr hplain)]
    generalize m.poll (script ++ tail) r.state r.rbuf = t at hturn
    cases hturn with
    | @got t buf script' o out outs hreads hend' hlen =>
      dsimp only
      rw [List.take_succ_cons, List.drop_succ_cons, List.drop_zero]
      dsimp only
      by_cases hout : out = []
      · rw [if_neg (not_not.mpr hout)]
        rw [List.length_cons] at hn
        have hrest := ih (r := ⟨t, buf, out⟩) hout hreads hend' (by omega)
        exact hrest.skip (by rw [hout]; rfl)
      · rw [if_pos hout]
        have hlong : 2 ≤ (o :: out).length := by
          have hpos := List.length_pos_of_ne_nil hout
          rw [List.length_cons]
          omega
        have hpacket : PacketTurn m u tail ([] ++ (o :: out) :: outs)
            (.packet (o :: out) ⟨t, buf, []⟩ (script' ++ tail)) :=
          .packet nofun hlong rfl hreads hend'
        exact hpacket
    | @pending t buf script' _ hreads hend' hlen =>
      have hne : script ++ tail ≠ [] :=
        List.append_ne_nil_of_left_ne_nil (List.ne_nil_of_length_pos (by omega)) tail
      dsimp only
      rw [if_neg hne]
      exact ih (r := ⟨t, buf, []⟩) rfl hreads hend' (by omega)
    | drained =>
      rcases htail with rfl | rfl
      · -- nothing more comes, however often the transport is asked
        rw [if_pos rfl]
        dsimp only
        rw [List.append_nil]
        by_cases hnil : script = []
        · rw [if_pos hnil]
          exact .drained nofun
        · rw [if_neg hnil]
          have hpos := List.length_pos_of_ne_nil hnil
          have hdone : m.Batches u ([] ++ arrived []) [] u := .done u
          exact ih (r := ⟨u, [], []⟩) rfl hdone nofun (by simp only [List.length_nil]; omega)
      · exact .drained nofun

variable (failure truncated) in
theorem readPacket_batches (hneeds : ∀ s, m.need s ≠ none) {tail script : List Arrival}
    (htail : tail = [] ∨ tail = [.data []]) {u : S} (hu : m.Rests u) {r : ByteReader S}
    {outs : List Bytes} (hplain : r.plain = [])
    (h : m.Batches r.state (r.rbuf ++ arrived script) outs u) (hend : Endless script) :
    PacketTurn m u tail outs (readPacket m failure truncated r (script ++ tail)) := by
  have hle := h.length_le
  refine readPacketFor_batches hneeds htail hu hplain h hend ?_
  rw [List.length_append] at hle
  rw [arrived_append, List.length_append, List.length_append]
  omega

/-- One call after the other, as long as they give packets. -/
inductive PacketCall where
  | packet (bs : Bytes)
  | failed (e : IoError)
  | eof
  | waiting

variable (m failure truncated) in
def readPackets : Nat → ByteReader S → List Arrival → List PacketCall
  | 0, _, _ => []
  | n + 1, r, script =>
    match r.readPacket m failure truncated script with
    | .packet bs r script => .packet bs :: readPackets n r script
    | .failed e => [.failed e]
    | .eof => [.eof]
    | .waiting => [.waiting]

/-- The batches of more than a byte, and what comes behind them. -/
def longBatches (outs : List Bytes) (last : PacketCall) : List PacketCall :=
  (outs.filter fun bs => decide (2 ≤ bs.length)).map PacketCall.packet ++ [last]

variable (failure truncated) in
/-- The batches of more than a byte come out as packets, the others not at all. -/
theorem readPackets_batches (hneeds : ∀ s, m.need s ≠ none) {tail script : List Arrival}
    (htail : tail = [] ∨ tail = [.data []]) {u : S} (hu : m.Rests u) {r : ByteReader S}
    {outs : List Bytes} (hplain : r.plain = [])
    (h : m.Batches r.state (r.rbuf ++ arrived script) outs u) (hend : Endless script) (n : Nat) :
    readPackets m failure truncated n r (script ++ tail) =
      (longBatches outs (if tail = [] then .waiting else .eof)).take n := by
  induction n generalizing r outs script with
  | zero => rfl
  | succ n ih =>
    have hturn := readPacket_batches failure truncated hneeds htail hu hplain h hend
    have hnone : ∀ {skipped : List Bytes}, (∀ x ∈ skipped, x.length = 1) →
        skipped.filter (fun bs => decide (2 ≤ bs.length)) = [] := by
      intro skipped hskipped
      refine List.filter_eq_nil_iff.mpr fun x hx => ?_
      rw [hskipped x hx]
      decide
    unfold readPackets longBatches
    generalize r.readPacket m failure truncated (script ++ tail) = p at hturn
    cases hturn with
    | @packet r' script' skipped outs bs hskipped hbs hplain' hreads hend' =>
      have hlong : (fun bs : Bytes => decide (2 ≤ bs.length)) bs = true := decide_eq_true hbs
      rw [List.filter_append, hnone hskipped, List.nil_append,
        List.filter_cons_of_pos (p := fun bs : Bytes => decide (2 ≤ bs.length)) hlong, List.map_cons, List.cons_append,
        List.take_succ_cons]
      dsimp only
      rw [ih hplain' hreads hend']
      rfl
    | drained hskipped =>
      rw [hnone hskipped, List.map_nil, List.nil_append, List.take_succ_cons, List.take_nil]
      rcases htail with rfl | rfl
      · rw [if_pos rfl, if_pos rfl]
      · rw [if_neg (List.cons_ne_nil _ _), if_neg (List.cons_ne_nil _ _)]

end ByteReader

end RustCrash.Lib
