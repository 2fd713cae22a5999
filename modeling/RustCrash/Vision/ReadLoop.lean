import RustCrash.Vision.Read

/-
  A read of a connection, however the outer stream brings the bytes.

  As long as `Holds` is true of a connection and its stream, a read gives the next bytes or waits
  for more, and it fails only behind the last of them (`Holds.pollRead`).
-/

namespace RustCrash.Vision

open Lib VisionConn

/-! ## The outer stream -/

/-- A stream that goes on, or one that ends behind what it brings. -/
def Ends (closing : Bool) (script : List Arrival) : Prop :=
  ∃ front, Endless front ∧ script = front ++ if closing then [.data []] else []

theorem Ends.cons {closing : Bool} {a : Arrival} {script : List Arrival}
    (h : Ends closing (a :: script)) :
    a = .data [] ∧ script = [] ∧ closing = true ∨ a ≠ .data [] ∧ Ends closing script := by
  obtain ⟨front, hend, hscript⟩ := h
  cases front with
  | nil =>
    cases closing with
    | true =>
      cases hscript
      exact .inl ⟨rfl, rfl, rfl⟩
    | false => cases hscript
  | cons b front =>
    injection hscript with hfirst hscript
    subst hfirst
    exact .inr ⟨fun ha => hend (ha ▸ List.mem_cons_self), front,
      fun hmem => hend (List.mem_cons_of_mem _ hmem), hscript⟩

theorem Ends.data {closing : Bool} {script : List Arrival} {bs : Bytes} (h : Ends closing script)
    (hne : bs ≠ []) : Ends closing (.data bs :: script) := by
  obtain ⟨front, hend, rfl⟩ := h
  refine ⟨.data bs :: front, fun hmem => ?_, rfl⟩
  rcases List.mem_cons.mp hmem with heq | hmem
  · exact hne (Arrival.data.inj heq).symm
  · exact hend hmem

/-- What the outer stream may do. -/
structure Supplies (closing : Bool) (cap : Nat) (script : List Arrival)
    (r : List Arrival × Poll Bytes) : Prop where
  ends : Ends closing r.1
  pending : r.2 = .pending → arrived r.1 = arrived script ∧
    (weight r.1 < weight script ∨ script = [] ∧ r.1 = [])
  ready : ∀ bs, r.2 = .ready bs → arrived script = bs ++ arrived r.1 ∧
    weight r.1 + bs.length ≤ weight script ∧
    (bs = [] → r.1 = script ∧ (0 < cap → script = [.data []] ∧ closing = true))
  atEnd : script = [.data []] → r = (script, .ready [])

theorem Ends.pollOuter {closing : Bool} {cap : Nat} {script : List Arrival}
    (h : Ends closing script) : Supplies closing cap script (pollOuter cap script) := by
  rcases script with _ | ⟨bs | _, script⟩
  · refine ⟨h, fun _ => ⟨rfl, .inr ⟨rfl, rfl⟩⟩, fun bs hbs => ?_, fun hscript => ?_⟩
    · cases hbs
    · cases hscript
  · unfold VisionConn.pollOuter
    rcases h.cons with ⟨hdata, rfl, hclosing⟩ | ⟨hdata, hends⟩
    · cases hdata
      refine ⟨h, fun hres => ?_, fun bs hbs => ?_, fun _ => rfl⟩
      · cases hres
      cases hbs
      exact ⟨rfl, Nat.le_refl _, fun _ => ⟨rfl, fun _ => ⟨rfl, hclosing⟩⟩⟩
    · have hne : bs ≠ [] := fun hnil => hdata (hnil ▸ rfl)
      have hlen := List.length_take_le cap bs
      have hsplit := List.take_append_drop cap bs
      have hsum := congrArg List.length hsplit
      rw [List.length_append] at hsum
      dsimp only
      rw [if_neg hne]
      refine ⟨?_, fun hres => ?_, fun out hout => ?_, fun hscript => ?_⟩
      · dsimp only
        split_ifs with hdrop
        · exact hends
        · exact hends.data hdrop
      · cases hres
      swap
      · injection hscript with hfirst
        exact absurd hfirst hdata
      cases hout
      dsimp only
      split_ifs with hdrop
      · rw [hdrop, List.append_nil] at hsplit
        rw [hsplit]
        refine ⟨rfl, ?_, fun hnil => absurd hnil hne⟩
        unfold weight
        rw [arrived_cons, Arrival.bytes, List.length_append, List.length_cons]
        omega
      · refine ⟨?_, ?_, fun hnil => ?_⟩
        · rw [arrived_cons, arrived_cons, Arrival.bytes, Arrival.bytes, ← List.append_assoc, hsplit]
        · unfold weight
          rw [arrived_cons, arrived_cons, Arrival.bytes, Arrival.bytes, List.length_append,
            List.length_append, List.length_cons, List.length_cons]
          omega
        · rcases List.take_eq_nil_iff.mp hnil with hzero | hnil
          · refine ⟨?_, fun hcap => by omega⟩
            rw [hzero, List.drop_zero]
          · exact absurd hnil hne
  · rcases h.cons with ⟨hdata, -, -⟩ | ⟨-, hends⟩
    · cases hdata
    · refine ⟨hends, fun _ => ⟨rfl, .inl ?_⟩, fun bs hbs => ?_, fun hscript => ?_⟩
      · unfold weight
        rw [arrived_cons, Arrival.bytes, List.nil_append, List.length_cons]
        exact Nat.lt_succ_self _
      · cases hbs
      · cases hscript

/-! ## One read -/

/-- What a read has given. -/
def given : Poll (IoResult Bytes) → Bytes
  | .ready (.ok out) => out
  | _ => []

/-- A connection whose stream still has `bs` for it, and is to bring `later` some time. -/
structure Holds (closing : Bool) (later : Bytes) (c : VisionConn) (script : List Arrival)
    (bs : Bytes) : Prop where
  carries : c.Carries (arrived script ++ later) bs
  ends : Ends closing script
  closed : closing = true → later = []
  eof : c.eof = true → closing = true ∧ script = [.data []]

/-- What a read may be: the next bytes, and a failure only at the end of them. -/
structure Gives (closing : Bool) (later : Bytes) (cap : Nat) (script : List Arrival) (bs : Bytes)
    (p : ReadPoll) : Prop where
  gives : ∃ rest, Holds closing later p.conn p.script rest ∧ bs = given p.res ++ rest ∧
    (0 < cap → given p.res ≠ [] ∨ weight p.script < weight script ∨ (later = [] → rest = []))
  shrinks : weight p.script ≤ weight script
  fails : ∀ e, p.res = .ready (.error e) → closing = true ∧ bs = []

variable {closing : Bool} {later bs : Bytes} {c : VisionConn} {script : List Arrival} {cap : Nat}

theorem Gives.wider {script' : List Arrival} {p : ReadPoll}
    (h : Gives closing later cap script' bs p) (hle : weight script' ≤ weight script) :
    Gives closing later cap script bs p := by
  obtain ⟨rest, hholds, hbs, hmoves⟩ := h.gives
  refine ⟨⟨rest, hholds, hbs, fun hcap => ?_⟩, Nat.le_trans h.shrinks hle, h.fails⟩
  rcases hmoves hcap with hne | hless | hend
  · exact .inl hne
  · exact .inr (.inl (Nat.lt_of_lt_of_le hless hle))
  · exact .inr (.inr hend)

/-- What a pass without bytes takes off the buffer, or the phase. -/
def size (c : VisionConn) : Nat := 2 * c.inBuf.length + if c.phase = .init then 1 else 0

theorem size_enterAfterBlock_le (c : VisionConn) :
    size c.enterAfterBlock ≤ 2 * c.inBuf.length := by
  unfold size enterAfterBlock ReadPhase.afterBlock
  cases c.currentCommand <;> exact Nat.le_refl _

theorem size_enterFrame_le (c : VisionConn) (command : FrameCommand) (contentLen pad : Nat) :
    size (c.enterFrame command contentLen pad) ≤ 2 * c.inBuf.length := by
  unfold enterFrame
  dsimp only
  split_ifs
  · exact Nat.le_refl _
  · exact Nat.le_refl _
  · exact size_enterAfterBlock_le _

theorem size_turn {c' : VisionConn} (h : c.Carries later bs) (ht : c.turn cap = .again c') :
    size c' < size c := by
  unfold VisionConn.turn at ht
  unfold Carries at h
  cases hphase : c.phase <;> rw [hphase] at h ht <;> dsimp only at h ht
  · unfold turnInit at ht
    split_ifs at ht with h16
    · cases ht
      unfold size
      rw [hphase, if_pos rfl, if_neg (by nofun), List.length_drop]
      omega
    · cases ht
      unfold size
      rw [hphase, if_pos rfl, if_neg (by nofun)]
      exact Nat.lt_succ_self _
  · unfold turnHeader at ht
    split_ifs at ht with h5
    dsimp only at ht
    cases hcommand : FrameCommand.fromByte (c.inBuf.getD 0 0) with
    | none =>
      rw [hcommand] at ht
      cases ht
    | some command =>
      rw [hcommand] at ht
      cases ht
      refine Nat.lt_of_le_of_lt (size_enterFrame_le _ _ _ _) ?_
      unfold size
      rw [List.length_drop]
      omega
  · unfold turnContent at ht
    dsimp only at ht
    split_ifs at ht
  · unfold turnPadding at ht
    dsimp only at ht
    obtain ⟨hpos, -⟩ := h
    split_ifs at ht with hempty
    all_goals
      have hne := List.length_pos_of_ne_nil hempty
      cases ht
    · unfold size
      rw [List.length_drop]
      dsimp only
      omega
    · refine Nat.lt_of_le_of_lt (size_enterAfterBlock_le _) ?_
      unfold size
      rw [List.length_drop]
      omega
  all_goals
    unfold turnRaw at ht
    split_ifs at ht

/-- The end is where nothing is left, between two frames or before the first one. -/
theorem Carries.turnEof (h : bs = [] ∧ c.inBuf = [] ∧ (c.phase = .init ∨ c.phase = .header)) :
    c.turnEof = .gives c [] ∨ c.turnEof = .fails c truncated := by
  obtain ⟨-, hbuf, hphase⟩ := h
  unfold VisionConn.turnEof
  rcases hphase with hphase | hphase
  · rw [hphase]
    exact .inl (if_pos hbuf)
  · rw [hphase]
    exact .inr rfl

theorem Holds.again {c' : VisionConn} {rest : Bytes} (h : Holds closing later c script bs)
    (hcarries : c'.Carries (arrived script ++ later) rest) (heof : c'.eof = c.eof) :
    Holds closing later c' script rest :=
  ⟨hcarries, h.ends, h.closed, fun h' => h.eof (heof ▸ h')⟩

/-- Nothing comes behind the end. -/
theorem Holds.supplied {res : Poll Bytes} {script' : List Arrival}
    (h : Holds closing later c script bs) (hsupplies : Supplies closing cap script (script', res))
    (heof : c.eof = true) : closing = true ∧ script' = [.data []] := by
  obtain ⟨hclosing, hscript⟩ := h.eof heof
  exact ⟨hclosing, (congrArg Prod.fst (hsupplies.atEnd hscript)).trans hscript⟩

/-- The outer stream reads for the caller. -/
theorem Holds.readThrough (h : Holds closing later c script bs) (hphase : c.phase = .raw)
    (hbuf : c.inBuf = []) : Gives closing later cap script bs (c.readThrough cap script) := by
  have hcarries : ∀ wire rest, c.Carries wire rest ↔ rest = wire := by
    intro wire rest
    unfold Carries
    rw [hphase, hbuf]
    exact Iff.rfl
  have hraw := (hcarries _ _).mp h.carries
  have hsupplies : Supplies closing cap script (pollOuter cap script) := h.ends.pollOuter
  unfold VisionConn.readThrough
  generalize pollOuter cap script = r at hsupplies
  obtain ⟨script', _ | out⟩ := r
  · obtain ⟨harrived, hless⟩ := hsupplies.pending rfl
    refine ⟨⟨bs, ⟨(hcarries _ _).mpr ?_, hsupplies.ends, h.closed, h.supplied hsupplies⟩, rfl,
      fun _ => ?_⟩, ?_, nofun⟩
    · rw [harrived]
      exact hraw
    · rcases hless with hless | ⟨hnil, -⟩
      · exact .inr (.inl hless)
      · refine .inr (.inr fun hlater => ?_)
        rw [hraw, hnil, hlater]
        rfl
    · rcases hless with hless | ⟨rfl, rfl⟩
      · exact Nat.le_of_lt hless
      · exact Nat.le_refl _
  · obtain ⟨harrived, hweight, hempty⟩ := hsupplies.ready out rfl
    refine ⟨⟨arrived script' ++ later,
      ⟨(hcarries _ _).mpr rfl, hsupplies.ends, h.closed, h.supplied hsupplies⟩, ?_,
      fun hcap => ?_⟩, Nat.le_trans (Nat.le_add_right _ _) hweight, nofun⟩
    · rw [hraw, harrived, List.append_assoc]
      rfl
    · by_cases hout : out = []
      · obtain ⟨hsame, hend⟩ := hempty hout
        obtain ⟨hscript, hclosing⟩ := hend hcap
        refine .inr (.inr fun hlater => ?_)
        change script' = script at hsame
        rw [hsame, hscript, hlater]
        rfl
      · exact .inl hout

/-- The outer stream reads for the connection. -/
theorem Holds.pollFill {c' : VisionConn} {script' : List Arrival}
    (h : Holds closing later c script bs) (heof : c.eof = false)
    (hwants : c.Passes (arrived script ++ later) bs cap .wants) :
    (c.pollFill script = (c', script', .pending) →
      Gives closing later cap script bs ⟨c', script', .pending⟩) ∧
    (c.pollFill script = (c', script', .ready ()) →
      Holds closing later c' script' bs ∧ passes script' c' < passes script c ∧
        weight script' ≤ weight script) := by
  have hsupplies : Supplies closing xrayChunkSize script (pollOuter xrayChunkSize script) :=
    h.ends.pollOuter
  unfold VisionConn.pollFill
  generalize pollOuter xrayChunkSize script = r at hsupplies
  obtain ⟨script'', _ | out⟩ := r
  · refine ⟨fun hfill => ?_, nofun⟩
    cases hfill
    obtain ⟨harrived, hless⟩ := hsupplies.pending rfl
    refine ⟨⟨bs, ⟨?_, hsupplies.ends, h.closed, h.supplied hsupplies⟩, rfl, fun _ => ?_⟩, ?_,
      nofun⟩
    · rw [harrived]
      exact h.carries
    · rcases hless with hless | ⟨hnil, -⟩
      · exact .inr (.inl hless)
      · refine .inr (.inr fun hlater => ?_)
        rw [hnil, hlater] at hwants
        exact (hwants rfl).1
    · rcases hless with hless | ⟨rfl, rfl⟩
      · exact Nat.le_of_lt hless
      · exact Nat.le_refl _
  · obtain ⟨harrived, hweight, hempty⟩ := hsupplies.ready out rfl
    change arrived script = out ++ arrived script'' at harrived
    change weight script'' + out.length ≤ weight script at hweight
    dsimp only
    by_cases hout : out = []
    · rw [if_pos hout]
      refine ⟨nofun, fun hfill => ?_⟩
      cases hfill
      obtain ⟨hsame, hend⟩ := hempty hout
      obtain ⟨hscript, hclosing⟩ := hend (by decide)
      change script' = script at hsame
      subst hsame
      refine ⟨⟨h.carries, h.ends, h.closed, fun _ => ⟨hclosing, hscript⟩⟩, ?_, Nat.le_refl _⟩
      unfold passes
      rw [heof]
      dsimp only
      rw [if_pos rfl, if_neg Bool.false_ne_true]
      omega
    · rw [if_neg hout]
      refine ⟨nofun, fun hfill => ?_⟩
      cases hfill
      have hcarries := h.carries
      rw [harrived, List.append_assoc] at hcarries
      refine ⟨⟨hcarries.feed, hsupplies.ends, h.closed, fun heof' => ?_⟩, ?_, by omega⟩
      · exact absurd (heof.symm.trans heof') nofun
      · have hpos := List.length_pos_of_ne_nil hout
        unfold passes
        dsimp only
        rw [List.length_append]
        omega

/-- The loop, as long as it may go on. -/
theorem Holds.readFor {n : Nat} (h : Holds closing later c script bs) (hn : passes script c ≤ n) :
    Gives closing later cap script bs (readFor cap n script c) := by
  induction n generalizing c script with
  | zero =>
    unfold passes at hn
    omega
  | succ n ih =>
    have hturn : c.Passes (arrived script ++ later) bs cap (c.turn cap) := h.carries.turn
    rw [VisionConn.readFor]
    cases ht : c.turn cap with
    | again c' =>
      rw [ht] at hturn
      have hsize := size_turn h.carries ht
      refine ih (h.again hturn.1 hturn.2) ?_
      unfold passes at hn ⊢
      unfold size at hsize
      rw [hturn.2]
      omega
    | gives c' out =>
      rw [ht] at hturn
      obtain ⟨⟨rest, hcarries, rfl⟩, heof, hne⟩ := hturn
      exact ⟨⟨rest, h.again hcarries heof, rfl, fun hcap => .inl (hne hcap)⟩, Nat.le_refl _, nofun⟩
    | fails c' e =>
      rw [ht] at hturn
      exact hturn.elim
    | through =>
      rw [ht] at hturn
      exact h.readThrough hturn.1 hturn.2
    | wants =>
      rw [ht] at hturn
      dsimp only
      by_cases heof : c.eof = true
      · rw [if_pos heof]
        obtain ⟨hclosing, hscript⟩ := h.eof heof
        have hnil : arrived script ++ later = [] := by
          rw [hscript, h.closed hclosing]
          rfl
        obtain ⟨hbs, hend⟩ := hturn hnil
        have hholds : Holds closing later c script [] := hbs ▸ h
        rcases Carries.turnEof ⟨hbs, hend⟩ with hgives | hfails
        · rw [hgives]
          exact ⟨⟨[], hholds, hbs, fun _ => .inr (.inr fun _ => rfl)⟩, Nat.le_refl _, nofun⟩
        · rw [hfails]
          exact ⟨⟨[], hholds, hbs, fun _ => .inr (.inr fun _ => rfl)⟩, Nat.le_refl _,
            fun _ _ => ⟨hclosing, hbs⟩⟩
      · rw [if_neg heof]
        have hfill := fun c' script' =>
          @Holds.pollFill closing later bs c script cap c' script' h
            (Bool.eq_false_of_not_eq_true heof) hturn
        generalize c.pollFill script = r at hfill
        obtain ⟨c', script', _ | _⟩ := r
        · exact (hfill c' script').1 rfl
        · obtain ⟨hholds, hpasses, hweight⟩ := (hfill c' script').2 rfl
          exact (ih hholds (by omega)).wider hweight

/-- One read. -/
theorem Holds.pollRead (h : Holds closing later c script bs) :
    Gives closing later cap script bs (c.pollRead cap script) :=
  h.readFor (Nat.le_refl _)

end RustCrash.Vision
