import RustCrash.Mieru.StreamCalls

/-
  The stream of a peer, cut into reads.

  A reader that has met no bad cut stands in the stream with everything before it handed on
  (`Stands`). A read that ends in the suffix padding behind a payload makes it open more blocks
  than the segments handed on account for, and it never makes up for it (`Overdrawn`).
-/

namespace RustCrash.Mieru

open Lib StatefulCipher

/-! ## Where the reads end -/

/-- `n` bytes of the stream end in the suffix padding of a segment with a payload: the payload
    is all there, the padding is not. -/
def insideSuffix : List SealedSegment → Nat → Prop
  | [], _ => False
  | w :: ws, n =>
    w.body ≠ [] ∧ w.bodyEnd ≤ n ∧ n < w.bytes.length ∨
      w.bytes.length ≤ n ∧ insideSuffix ws (n - w.bytes.length)

/-- How many bytes have arrived after each read, `n` before the first. -/
def ends : Nat → List Read → List Nat
  | _, [] => []
  | n, a :: as => (n + a.bytes.length) :: ends (n + a.bytes.length) as

/-- The reader gave what the peer sent, with no error and each block opened once. -/
structure Transcribes (segs : List Segment) (ws : List SealedSegment) (r : Reader) : Prop where
  segments : r.segments = segs.map Segment.pair
  fine : r.error = none
  opened : r.parser.opened = ws.flatMap SealedSegment.blocks

theorem insideSuffix_append (dws ws : List SealedSegment) (k : Nat) :
    insideSuffix (dws ++ ws) ((wire dws).length + k) ↔ insideSuffix ws k := by
  induction dws with
  | nil => rw [List.nil_append, show (wire []).length = 0 from rfl, Nat.zero_add]
  | cons w dws ih =>
    have hlen : (wire (w :: dws)).length = w.bytes.length + (wire dws).length := by
      unfold wire
      rw [List.map_cons, List.flatten_cons, List.length_append]
    have hsub : (wire (w :: dws)).length + k - w.bytes.length = (wire dws).length + k := by omega
    rw [List.cons_append, insideSuffix, hsub, ih]
    constructor
    · rintro (⟨_, _, hlt⟩ | ⟨_, h⟩)
      · omega
      · exact h
    · exact fun h => Or.inr ⟨by omega, h⟩

/-- In the first segment. -/
theorem insideSuffix_cons {w : SealedSegment} {ws : List SealedSegment} {k : Nat}
    (h : k < w.bytes.length) : insideSuffix (w :: ws) k ↔ w.body ≠ [] ∧ w.bodyEnd ≤ k := by
  rw [insideSuffix]
  constructor
  · rintro (⟨hne, hend, _⟩ | ⟨hle, _⟩)
    · exact ⟨hne, hend⟩
    · omega
  · exact fun ⟨hne, hend⟩ => Or.inl ⟨hne, hend, h⟩

/-! ## A reader that has met no bad cut -/

variable {sha256 : Bytes → ByteVec 32} {rng : ByteVec 24}

theorem sealAll_cons {tx : StatefulCipher} {g : Segment} {gs : List Segment}
    {ws : List SealedSegment} (h : sealAll sha256 rng tx (g :: gs) = .ok ws) :
    ∃ tx' w ws', g.seal sha256 rng tx = (tx', .ok w) ∧ sealAll sha256 rng tx' gs = .ok ws' ∧
      ws = w :: ws' := by
  unfold sealAll at h
  cases hg : g.seal sha256 rng tx with
  | mk tx' res =>
    rw [hg] at h
    cases res with
    | error e => cases h
    | ok w =>
      dsimp only at h
      cases hgs : sealAll sha256 rng tx' gs with
      | error e =>
        rw [hgs] at h
        cases h
      | ok ws' =>
        rw [hgs] at h
        cases h
        exact ⟨tx', w, ws', rfl, hgs, rfl⟩

/-- The blocks of a sealed segment are those its metadata announces. -/
theorem length_blocks {tx tx' : StatefulCipher} {g : Segment} {w : SealedSegment} {now : UInt32}
    (hwf : g.WellFormed now) (hseal : g.seal sha256 rng tx = (tx', .ok w)) :
    w.blocks.length = g.info.blockCount := by
  obtain ⟨_, _, hbody, _, _⟩ := seal_ok hseal
  have hnil := body_eq_nil hbody
  unfold SealedSegment.blocks InboundMeta.blockCount
  rw [hwf.payloadLen]
  by_cases hp : g.payload = []
  · rw [if_pos (hnil.mpr hp), hp]
    rfl
  · rw [if_neg (fun h => hp (hnil.mp h)), if_pos (List.length_pos_iff.mpr hp)]
    rfl

/-- All blocks of the segments `segs`. -/
def blockTotal (segs : List (InboundMeta × Bytes)) : Nat :=
  (segs.map fun x => x.1.blockCount).sum

theorem blockTotal_append (xs : List (InboundMeta × Bytes)) (x : InboundMeta × Bytes) :
    blockTotal (xs ++ [x]) = blockTotal xs + x.1.blockCount := by
  unfold blockTotal
  rw [List.map_append, List.sum_append]
  simp

theorem length_flatMap_blocks {now : UInt32} {segs : List Segment}
    (hwf : ∀ g ∈ segs, g.WellFormed now) {tx : StatefulCipher} {ws : List SealedSegment}
    (hseal : sealAll sha256 rng tx segs = .ok ws) :
    (ws.flatMap SealedSegment.blocks).length = blockTotal (segs.map Segment.pair) := by
  induction segs generalizing tx ws with
  | nil =>
    cases hseal
    rfl
  | cons g gs ih =>
    obtain ⟨tx', w, ws', hg, hgs, rfl⟩ := sealAll_cons hseal
    have hrest := ih (fun g hg => hwf g (List.mem_cons_of_mem _ hg)) hgs
    rw [List.flatMap_cons, List.length_append, length_blocks (hwf g List.mem_cons_self) hg, hrest]
    rfl

/-- The reader has handed on the segments `segs` and stands before `rest`, of whose bytes `got`
    have arrived and `later` have not. -/
structure Stands (sha256 : Bytes → ByteVec 32) (rng : ByteVec 24) (segs : List Segment)
    (dws : List SealedSegment) (tx : StatefulCipher) (rest : List Segment)
    (ws : List SealedSegment) (got later : Bytes) (r : Reader) : Prop where
  fine : r.error = none
  handed : r.segments = segs.map Segment.pair
  stands : At sha256 rng (dws.flatMap SealedSegment.blocks) tx rest r.parser got
  seals : sealAll sha256 rng tx rest = .ok ws
  arrived : got ++ later = wire ws
  counted : blockTotal r.segments = (dws.flatMap SealedSegment.blocks).length

/-- More blocks are open than were handed on or wait. -/
def Reader.Overdrawn (r : Reader) : Prop :=
  blockTotal r.segments + 1 + r.parser.pendingCount ≤ r.parser.opened.length

section

variable {segs rest : List Segment} {dws ws : List SealedSegment} {tx : StatefulCipher}
  {got later : Bytes} {r : Reader}

theorem wire_append (dws ws : List SealedSegment) : wire (dws ++ ws) = wire dws ++ wire ws := by
  unfold wire
  rw [List.map_append, List.flatten_append]

theorem wire_singleton (w : SealedSegment) : wire [w] = w.bytes := by
  unfold wire
  rw [List.map_singleton, List.flatten_singleton]

/-- Nothing of the next segment is missing only if there is none. -/
def Settled (ws : List SealedSegment) (got : Bytes) : Prop :=
  ∀ w ∈ ws.head?, got.length < w.bytes.length

/-- The calls after a read. -/
theorem parseFor_stands {now : UInt32} (hwf : ∀ g ∈ rest, g.WellFormed now) {n : Nat}
    (hn : r.parser.rbuf.length + r.parser.pendingCount < n)
    (h : Stands sha256 rng segs dws tx rest ws got later r) :
    (insideSuffix ws got.length → (r.parseFor now n).Overdrawn) ∧
      (¬ insideSuffix ws got.length → ∃ mid rest' mws ws' tx' got', rest = mid ++ rest' ∧
        ws = mws ++ ws' ∧ got = wire mws ++ got' ∧ Settled ws' got' ∧
        Stands sha256 rng (segs ++ mid) (dws ++ mws) tx' rest' ws' got' later
          (r.parseFor now n)) := by
  induction n generalizing segs dws tx rest ws got r with
  | zero => omega
  | succ n ih =>
    unfold Reader.parseFor
    cases rest with
    | nil =>
      have hws : ws = [] := by
        have hnil := h.seals
        cases hnil
        rfl
      subst hws
      have hgot : got = [] := (List.append_eq_nil_iff.mp h.arrived).1
      rw [parses_nil h.stands hgot]
      refine ⟨fun hin => absurd hin (by rw [insideSuffix]; exact not_false), fun _ => ?_⟩
      refine ⟨[], [], [], [], tx, got, rfl, rfl, rfl, nofun, ?_⟩
      rw [List.append_nil, List.append_nil]
      exact h
    | cons g gs =>
      obtain ⟨tx', w, ws', hg, hgs, rfl⟩ := sealAll_cons h.seals
      have hg' := hwf g List.mem_cons_self
      have harrived : got ++ later = w.bytes ++ wire ws' := h.arrived
      have hcall := parses hg' hg h.stands ⟨later, harrived⟩
      have hspent : blockTotal r.segments + r.parser.pendingCount ≤ r.parser.opened.length := by
        rw [h.counted]
        exact h.stands.opened_length
      have hhandles := parse_handles now hspent
      have hblocks := length_blocks hg' hg
      cases hout : r.parser.parseStreamSegment now with
      | mk p res =>
        rw [hout] at hcall hhandles
        by_cases hall : w.bytes.length ≤ got.length
        · obtain ⟨hres, hat⟩ := hcall.takes hall
          dsimp only at hres hat
          subst hres
          obtain ⟨hnone, hrbuf, _⟩ := hhandles.taken rfl
          dsimp only at hnone hrbuf
          obtain ⟨got', rfl, hgot'⟩ := append_of_prefix ⟨later, harrived⟩ hall
          rw [List.drop_left] at hat
          have hpending : p.pendingCount = 0 := by
            unfold StreamParser.pendingCount
            rw [hnone]
            rfl
          have hnext : Stands sha256 rng (segs ++ [g]) (dws ++ [w]) tx' gs ws' got' later
              { r with parser := p, segments := r.segments ++ [g.pair] } := by
            refine ⟨h.fine, ?_, ?_, hgs, ?_, ?_⟩
            · dsimp only
              rw [h.handed, List.map_append, List.map_singleton]
            · rw [List.flatMap_append, List.flatMap_singleton]
              exact hat
            · rw [List.append_assoc] at harrived
              exact List.append_cancel_left harrived
            · dsimp only
              rw [blockTotal_append, h.counted, List.flatMap_append, List.flatMap_singleton,
                List.length_append, hblocks]
              rfl
          have hrest := ih (fun g hg => hwf g (List.mem_cons_of_mem _ hg))
            (by dsimp only; omega) hnext
          have hinside := insideSuffix_append [w] ws' got'.length
          rw [wire_singleton, List.singleton_append, ← List.length_append] at hinside
          rw [hinside]
          refine ⟨hrest.1, fun hnot => ?_⟩
          obtain ⟨mid, rest', mws, ws'', tx'', got'', rfl, rfl, rfl, hsettled, hst⟩ :=
            hrest.2 hnot
          refine ⟨g :: mid, rest', w :: mws, ws'', tx'', got'', rfl, rfl, ?_, hsettled, ?_⟩
          · rw [← List.append_assoc, ← wire_singleton w, ← wire_append]
            rfl
          · rw [List.append_assoc, List.append_assoc] at hst
            exact hst
        · have hlt : got.length < w.bytes.length := by omega
          rw [insideSuffix_cons hlt]
          by_cases hin : w.body ≠ [] ∧ w.bodyEnd ≤ got.length
          · obtain ⟨hres, hpending, hopened⟩ := hcall.loses hin.1 hin.2 hlt
            dsimp only at hres hpending hopened
            subst hres
            refine ⟨fun _ => ?_, fun hnot => absurd hin hnot⟩
            unfold Reader.Overdrawn StreamParser.pendingCount
            dsimp only
            rw [hpending, hopened, List.length_append, ← h.counted, hblocks]
            unfold InboundMeta.blockCount
            have hpos : 0 < g.info.payloadLen.toNat := by
              rw [hg'.payloadLen]
              obtain ⟨_, _, hbody, _, _⟩ := seal_ok hg
              exact List.length_pos_iff.mpr fun hp => hin.1 ((body_eq_nil hbody).mpr hp)
            rw [if_pos hpos]
            simp only [Option.isSome_some, if_true]
            omega
          · obtain ⟨hres, hat⟩ := hcall.waits hlt hin
            dsimp only at hres hat
            subst hres
            refine ⟨fun h => absurd h hin, fun _ => ?_⟩
            refine ⟨[], g :: gs, [], w :: ws', tx, got, rfl, rfl, rfl, ?_, ?_⟩
            · intro v hv
              cases hv
              exact hlt
            · rw [List.append_nil, List.append_nil]
              exact ⟨h.fine, h.handed, hat, h.seals, h.arrived, h.counted⟩

/-- One read. -/
theorem read_stands {a : Read} {future : Bytes} (hwf : ∀ g ∈ rest, g.WellFormed a.now)
    (hlater : later = a.bytes ++ future)
    (h : Stands sha256 rng segs dws tx rest ws got later r) :
    (insideSuffix ws (got ++ a.bytes).length → (r.read a).Overdrawn) ∧
      (¬ insideSuffix ws (got ++ a.bytes).length → ∃ mid rest' mws ws' tx' got',
        rest = mid ++ rest' ∧ ws = mws ++ ws' ∧ got ++ a.bytes = wire mws ++ got' ∧
        Settled ws' got' ∧
        Stands sha256 rng (segs ++ mid) (dws ++ mws) tx' rest' ws' got' future (r.read a)) := by
  have harrive : Stands sha256 rng segs dws tx rest ws (got ++ a.bytes) future
      { r with parser := { r.parser with rbuf := r.parser.rbuf ++ a.bytes } } := by
    refine ⟨h.fine, h.handed, h.stands.arrive a.bytes, h.seals, ?_, h.counted⟩
    rw [List.append_assoc, ← hlater]
    exact h.arrived
  have hfuel := StreamParser.pendingCount_le { r.parser with rbuf := r.parser.rbuf ++ a.bytes }
  have hrun := parseFor_stands (n := (r.parser.rbuf ++ a.bytes).length + 2) hwf
    (by dsimp only at hfuel ⊢; omega) harrive
  have hread : r.read a = { r with parser := { r.parser with
      rbuf := r.parser.rbuf ++ a.bytes } }.parseFor a.now
        ((r.parser.rbuf ++ a.bytes).length + 2) := by
    unfold Reader.read
    rw [h.fine]
  rw [hread]
  exact hrun

end

/-! ## A reader that has met one -/

theorem parseFor_overdrawn {now : UInt32} {n : Nat} {r : Reader} (h : r.Overdrawn) :
    (r.parseFor now n).Overdrawn := by
  induction n generalizing r with
  | zero => exact h
  | succ n ih =>
    have hcall := parse_handles now h
    unfold Reader.parseFor
    cases hout : r.parser.parseStreamSegment now with
    | mk p res =>
      rw [hout] at hcall
      cases res with
      | error e => exact hcall.other nofun
      | ok x =>
        cases x with
        | none => exact hcall.other nofun
        | some seg =>
          apply ih
          obtain ⟨hnone, _, hcount⟩ := hcall.taken rfl
          dsimp only at hnone hcount
          unfold Reader.Overdrawn StreamParser.pendingCount
          dsimp only
          rw [blockTotal_append, hnone]
          simp only [Option.isSome_none, Bool.false_eq_true, if_false]
          omega

theorem read_overdrawn {r : Reader} (a : Read) (h : r.Overdrawn) : (r.read a).Overdrawn := by
  unfold Reader.read
  cases r.error with
  | some e => exact h
  | none => exact parseFor_overdrawn h

theorem reads_overdrawn {r : Reader} (as : List Read) (h : r.Overdrawn) :
    (as.foldl Reader.read r).Overdrawn := by
  induction as generalizing r with
  | nil => exact h
  | cons a as ih => exact ih (read_overdrawn a h)

/-! ## All reads -/

section

variable {segs rest : List Segment} {dws ws : List SealedSegment} {tx : StatefulCipher}
  {got later : Bytes} {r : Reader} {n : Nat}

/-- The bytes of all reads. -/
def received (as : List Read) : Bytes := (as.map Read.bytes).flatten

theorem ends_add (c n : Nat) (as : List Read) : ends (c + n) as = (ends n as).map (c + ·) := by
  induction as generalizing n with
  | nil => rfl
  | cons a as ih =>
    unfold ends
    rw [Nat.add_assoc, ih, List.map_cons]

theorem reads_stand {as : List Read} (hwf : ∀ a ∈ as, ∀ g ∈ rest, g.WellFormed a.now)
    (hsettled : Settled ws got)
    (h : Stands sha256 rng segs dws tx rest ws got (received as) r) :
    ((∃ e ∈ ends got.length as, insideSuffix ws e) → (as.foldl Reader.read r).Overdrawn) ∧
      ((∀ e ∈ ends got.length as, ¬ insideSuffix ws e) → ∃ tx',
        Stands sha256 rng (segs ++ rest) (dws ++ ws) tx' [] [] [] [] (as.foldl Reader.read r)) := by
  induction as generalizing segs rest dws ws tx got r with
  | nil =>
    refine ⟨fun ⟨_, he, _⟩ => absurd he List.not_mem_nil, fun _ => ?_⟩
    have hgot : got = wire ws := by
      have harrived := h.arrived
      rw [show received [] = [] from rfl, List.append_nil] at harrived
      exact harrived
    have hws : ws = [] := by
      cases ws with
      | nil => rfl
      | cons w ws' =>
        have hlt := hsettled w rfl
        rw [hgot, ← List.singleton_append, wire_append, wire_singleton, List.length_append] at hlt
        omega
    subst hws
    have hrest : rest = [] := by
      cases rest with
      | nil => rfl
      | cons g gs =>
        obtain ⟨_, _, _, _, _, hnil⟩ := sealAll_cons h.seals
        cases hnil
    have hnil : got = [] := hgot
    subst hrest hnil
    refine ⟨tx, ?_⟩
    rw [List.append_nil, List.append_nil]
    exact h
  | cons a as ih =>
    have hread := read_stands (hwf a List.mem_cons_self) rfl h
    have hend : (got ++ a.bytes).length = got.length + a.bytes.length := List.length_append
    by_cases hin : insideSuffix ws (got.length + a.bytes.length)
    · refine ⟨fun _ => reads_overdrawn as (hread.1 (by rw [hend]; exact hin)), fun hnot => ?_⟩
      exact absurd hin (hnot _ List.mem_cons_self)
    · rw [← hend] at hin
      obtain ⟨mid, rest', mws, ws', tx', got', rfl, rfl, hgot', hsettled', hst⟩ := hread.2 hin
      have hpos : got.length + a.bytes.length = (wire mws).length + got'.length := by
        rw [← hend, hgot', List.length_append]
      have hlater := ih
        (fun b hb g hg => hwf b (List.mem_cons_of_mem _ hb) g (List.mem_append_right _ hg))
        hsettled' hst
      have hends : ends got.length (a :: as) =
          ((wire mws).length + got'.length) ::
            (ends got'.length as).map ((wire mws).length + ·) := by
        rw [ends, hpos, ends_add]
      rw [hends]
      simp only [List.mem_cons, List.mem_map, exists_eq_or_imp, forall_eq_or_imp,
        exists_exists_and_eq_and, forall_exists_index, and_imp, forall_apply_eq_imp_iff₂,
        insideSuffix_append]
      rw [hend, hpos, insideSuffix_append] at hin
      refine ⟨?_, fun _ hnot => ?_⟩
      · rintro (hhead | ⟨e, he, hin'⟩)
        · exact absurd hhead hin
        · exact hlater.1 ⟨e, he, hin'⟩
      · obtain ⟨tx'', hfinal⟩ := hlater.2 hnot
        rw [List.append_assoc, List.append_assoc] at hfinal
        exact ⟨tx'', hfinal⟩

end

/-! ## The stream, however it is cut -/

variable {segs : List Segment} {ws : List SealedSegment} {tx : StatefulCipher}

/-- A new reader waits for the first segment of a new peer. -/
theorem new_stands {key : ByteVec 32} {user : Bytes} (user' : Bytes)
    (hseal : sealAll sha256 rng (.new key user) segs = .ok ws) {later : Bytes}
    (hlater : later = wire ws) :
    Stands sha256 rng [] [] (.new key user) segs ws [] later (Reader.new key user') :=
  ⟨rfl, rfl, At.between (new_inStep key user user') rfl rfl rfl, hseal, hlater, rfl⟩

theorem sealed_pos {tx tx' : StatefulCipher} {g : Segment} {w : SealedSegment}
    (h : g.seal sha256 rng tx = (tx', .ok w)) : 0 < w.bytes.length := by
  obtain ⟨_, hhead, _, _, _⟩ := seal_ok h
  unfold SealedSegment.bytes
  rw [List.length_append]
  exact Nat.add_pos_left (List.length_pos_iff.mpr (sealed_ne_nil hhead)) _

theorem new_settled (hseal : sealAll sha256 rng tx segs = .ok ws) : Settled ws [] := by
  cases segs with
  | nil =>
    cases hseal
    exact nofun
  | cons g gs =>
    obtain ⟨_, w, _, hg, _, rfl⟩ := sealAll_cons hseal
    intro v hv
    cases hv
    exact sealed_pos hg

/-- A reader that has opened too many blocks has not read the stream right. -/
theorem not_transcribes {now : UInt32} (hwf : ∀ g ∈ segs, g.WellFormed now)
    (hseal : sealAll sha256 rng tx segs = .ok ws) {r : Reader} (h : r.Overdrawn) :
    ¬ Transcribes segs ws r := by
  intro ht
  unfold Reader.Overdrawn at h
  rw [ht.segments, ht.opened, length_flatMap_blocks hwf hseal] at h
  omega

/-- A reader at the end of the stream has. -/
theorem stands_transcribes {r : Reader} (h : Stands sha256 rng segs ws tx [] [] [] [] r) :
    Transcribes segs ws r := by
  refine ⟨h.handed, h.fine, ?_⟩
  have hat := h.stands
  generalize hgot : ([] : Bytes) = got at hat
  cases hat with
  | between hstep hfirst hpending hopened => exact hopened

/-- A read that ends in the suffix padding behind a payload. -/
theorem bad_cut {key : ByteVec 32} {user user' : Bytes}
    (hseal : sealAll sha256 rng (.new key user) segs = .ok ws) {reads : List Read}
    (hwf : ∀ a ∈ reads, ∀ g ∈ segs, g.WellFormed a.now) (hwire : received reads = wire ws) {n : Nat}
    (hn : n ∈ ends 0 reads) (hin : insideSuffix ws n) :
    ¬ Transcribes segs ws (reads.foldl Reader.read (Reader.new key user')) := by
  have hrun := reads_stand hwf (new_settled hseal) (new_stands user' hseal hwire)
  cases reads with
  | nil => exact absurd hn List.not_mem_nil
  | cons a as => exact not_transcribes (hwf a List.mem_cons_self) hseal (hrun.1 ⟨n, hn, hin⟩)

/-- The segments of a peer come out as they went in, each block opened once, if and only if no
    read ends in the suffix padding behind a payload. -/
theorem cuts_harmless (sha256 : Bytes → ByteVec 32) (rng : ByteVec 24) (key : ByteVec 32)
    (user user' : Bytes) (segs : List Segment) (ws : List SealedSegment)
    (hseal : sealAll sha256 rng (.new key user) segs = .ok ws) (reads : List Read)
    (hwf : ∀ a ∈ reads, ∀ g ∈ segs, g.WellFormed a.now) (hwire : received reads = wire ws) :
    Transcribes segs ws (reads.foldl Reader.read (Reader.new key user')) ↔
      ∀ n ∈ ends 0 reads, ¬ insideSuffix ws n := by
  constructor
  · exact fun ht n hn hin => bad_cut hseal hwf hwire hn hin ht
  · intro hnot
    have hrun := reads_stand hwf (new_settled hseal) (new_stands user' hseal hwire)
    obtain ⟨tx', hfinal⟩ := hrun.2 hnot
    exact stands_transcribes hfinal

/-! ### One segment with two bytes of padding -/

/-- Whatever the metadata can announce can be sealed. -/
theorem sealAll_ok {now : UInt32} (hwf : ∀ g ∈ segs, g.WellFormed now) :
    ∃ ws, sealAll sha256 rng tx segs = .ok ws := by
  induction segs generalizing tx with
  | nil => exact ⟨[], rfl⟩
  | cons g gs ih =>
    have hg := hwf g List.mem_cons_self
    have hblock : g.block.length = 32 := (parseMetadata_eq_ok.mp hg.reads).1
    have hpayload : g.payload.length < 2 ^ 16 := by
      rw [← hg.payloadLen]
      exact g.info.payloadLen.toNat_lt
    obtain ⟨txHead, head, hhead⟩ : ∃ tx' block, tx.encrypt sha256 rng g.block = (tx', .ok block) :=
      encrypt_short (by omega)
    obtain ⟨txBody, body, hbody⟩ :
        ∃ tx' block, txHead.encrypt sha256 rng g.payload = (tx', .ok block) :=
      encrypt_short (by omega)
    have hrest : ∀ tx, ∃ ws, sealAll sha256 rng tx gs = .ok ws := fun tx =>
      ih fun g hg => hwf g (List.mem_cons_of_mem _ hg)
    unfold sealAll Segment.seal
    rw [hhead]
    dsimp only
    rw [hbody]
    split_ifs
    · obtain ⟨ws, hws⟩ := hrest txHead
      dsimp only
      rw [hws]
      exact ⟨_, rfl⟩
    · obtain ⟨ws, hws⟩ := hrest txBody
      dsimp only
      rw [hws]
      exact ⟨_, rfl⟩

/-- SHA-256 of the user name `u` and 16 zero bytes. -/
def zeroHint : Bytes :=
  [163, 143, 139, 97, 102, 232, 157, 108, 45, 71, 51, 49, 47, 66, 181, 193, 185, 233, 151, 231,
    225, 224, 157, 129, 7, 154, 177, 43, 101, 163, 84, 4]

theorem length_zeroHint : zeroHint.length = 32 := rfl

/-- A peer whose random nonce is all zeros. -/
def sealZero (segs : List Segment) : Result (List SealedSegment) :=
  sealAll (fun _ => ⟨zeroHint, length_zeroHint⟩) (ByteVec.zero 24) (.new (ByteVec.zero 32) [117])
    segs

/-- One byte of data, one of prefix padding and two of suffix padding. -/
def oneByte : Segment :=
  ⟨dataAckStruct 29000000 dataServerToClient 1 0 0 16 0 1 1 2,
    ⟨dataServerToClient, 1, 0, 0, 1, 2, 1, 0, 16⟩, [0], [7], [0, 0]⟩

theorem oneByte_wellFormed : ∀ g ∈ [oneByte], g.WellFormed 29000000 := by
  intro g hg
  rw [List.mem_singleton.mp hg]
  exact ⟨parseMetadata_eq_ok.mpr (by decide +kernel), by decide, rfl, rfl, rfl⟩

theorem cuts_harmless_oneByte :
    ∃ ws, sealZero [oneByte] = .ok ws ∧ Transcribes [oneByte] ws
      ([⟨29000000, wire ws⟩].foldl Reader.read (Reader.new (ByteVec.zero 32) [117])) := by
  obtain ⟨ws, hws⟩ : ∃ ws, sealZero [oneByte] = .ok ws := sealAll_ok oneByte_wellFormed
  refine ⟨ws, hws, (cuts_harmless _ _ _ _ _ _ _ hws _ ?_ ?_).mpr ?_⟩
  · intro a ha
    rw [List.mem_singleton.mp ha]
    exact oneByte_wellFormed
  · unfold received
    rw [List.map_singleton, List.flatten_singleton]
  · intro n hn
    obtain ⟨_, w, _, _, hnil, rfl⟩ := sealAll_cons hws
    cases hnil
    rw [List.mem_singleton.mp hn, wire_singleton, Nat.zero_add, insideSuffix]
    rintro (⟨_, _, hlt⟩ | ⟨_, hin⟩)
    · exact absurd hlt (Nat.lt_irrefl _)
    · exact hin

/-- The last byte of the padding comes in a read of its own. -/
theorem padding_apart :
    ∃ ws, sealZero [oneByte] = .ok ws ∧ (wire ws).dropLast ++ [0] = wire ws ∧
      ¬ Transcribes [oneByte] ws
        ([⟨29000000, (wire ws).dropLast⟩, ⟨29000000, [0]⟩].foldl Reader.read
          (Reader.new (ByteVec.zero 32) [117])) := by
  obtain ⟨ws, hws⟩ : ∃ ws, sealZero [oneByte] = .ok ws := sealAll_ok oneByte_wellFormed
  obtain ⟨tx', w, _, hg, hnil, rfl⟩ := sealAll_cons hws
  cases hnil
  obtain ⟨_, _, hbody, hpfx, hsuffix⟩ := seal_ok hg
  have hne : w.body ≠ [] := fun hbody' => absurd ((body_eq_nil hbody).mp hbody') (by decide)
  have hwire : wire [w] = w.head ++ (w.prefixPad ++ w.body) ++ [0] ++ [0] := by
    rw [wire_singleton]
    unfold SealedSegment.bytes
    rw [hsuffix]
    simp only [oneByte, List.append_assoc, List.singleton_append]
  have hfront : (wire [w]).dropLast = w.head ++ (w.prefixPad ++ w.body) ++ [0] := by
    rw [hwire, List.dropLast_concat]
  have hsame : (wire [w]).dropLast ++ [0] = wire [w] := by rw [hfront, hwire]
  have hlen : (wire [w]).dropLast.length = w.bodyEnd + 1 := by
    unfold SealedSegment.bodyEnd
    rw [hfront, List.length_append, List.length_append, List.length_append, List.length_singleton]
    omega
  have hall : w.bytes.length = w.bodyEnd + 2 := by
    rw [← wire_singleton, ← hsame, List.length_append, hlen, List.length_singleton]
  refine ⟨[w], hws, hsame, bad_cut hws ?_ ?_ List.mem_cons_self ?_⟩
  · intro a ha
    simp only [List.mem_cons, List.not_mem_nil, or_false] at ha
    rcases ha with rfl | rfl <;> exact oneByte_wellFormed
  · unfold received
    simp only [List.map_cons, List.map_nil, List.flatten_cons, List.flatten_nil, List.append_nil]
    exact hsame
  · rw [Nat.zero_add, hlen, insideSuffix_cons (by omega)]
    exact ⟨hne, by omega⟩

end RustCrash.Mieru
