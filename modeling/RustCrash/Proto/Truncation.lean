import RustCrash.Shadowsocks.Reader
import RustCrash.Vmess.Reader

/-
  Streams that are cut off. A reader looks only at its buffer when the transport ends, so it takes
  a cut between any two parts for the end of the stream: behind a length, or inside the head, too.
-/

namespace RustCrash.Proto

open Lib Staged

/-- The stream was cut where a chunk begins, or it is complete. -/
def OnBoundary (parts : List (Part × Bytes)) (pre : Bytes) : Prop :=
  ∃ done todo, parts = done ++ todo ∧ pre = wireOfParts done ∧ ∀ p ∈ todo.head?, p.1 = .length

/-- The stream was cut right in front of a part that begins no chunk. -/
def BehindPart (parts : List (Part × Bytes)) (pre : Bytes) : Prop :=
  ∃ done p todo, parts = done ++ p :: todo ∧ pre = wireOfParts done ∧ p.1 ≠ .length

/-- Only a cut where a chunk begins is a clean end, and every other one is an error. -/
def Truthful (parts : List (Part × Bytes)) (pre : Bytes) (res : IoResult Unit) : Prop :=
  (res = .ok () → OnBoundary parts pre) ∧ (¬ OnBoundary parts pre → ∃ e, res = .error e)

/-- The parts of a wire can be split at a place in one way. -/
theorem split_unique {done done' todo todo' : List (Part × Bytes)}
    (hne : ∀ p ∈ done ++ todo, p.2 ≠ []) (h : done ++ todo = done' ++ todo')
    (hwire : wireOfParts done = wireOfParts done') : done = done' ∧ todo = todo' := by
  induction done generalizing done' with
  | nil =>
    cases done' with
    | nil => exact ⟨rfl, h⟩
    | cons p done' =>
      rw [wireOfParts_nil, wireOfParts_cons] at hwire
      have hmem : p ∈ [] ++ todo := h ▸ List.mem_append_left _ List.mem_cons_self
      exact absurd (List.append_eq_nil_iff.mp hwire.symm).1 (hne p hmem)
  | cons p done ih =>
    cases done' with
    | nil =>
      rw [wireOfParts_nil, wireOfParts_cons] at hwire
      exact absurd (List.append_eq_nil_iff.mp hwire).1 (hne p List.mem_cons_self)
    | cons p' done' =>
      obtain ⟨rfl, hrest⟩ := List.cons.inj h
      rw [wireOfParts_cons, wireOfParts_cons] at hwire
      obtain ⟨rfl, rfl⟩ := ih (fun q hq => hne q (List.mem_cons_of_mem _ hq)) hrest
        (List.append_cancel_left hwire)
      exact ⟨rfl, rfl⟩

section

variable {S E : Type} {m : Staged S UInt8 E} {failure : E → IoError} {truncated : IoError}

theorem parts_ne_nil {s u : S} {parts : List (Part × Bytes)} (h : m.Parts s parts u) :
    ∀ p ∈ parts, p.2 ≠ [] := by
  induction h with
  | nil s => exact nofun
  | cons hne _ _ _ _ ih =>
    intro p hp
    rcases List.mem_cons.mp hp with rfl | hp
    · exact hne
    · exact ih p hp

/-- At a place between two parts, either a chunk begins or something else does. -/
theorem onBoundary_iff {parts : List (Part × Bytes)} {pre : Bytes} (hne : ∀ p ∈ parts, p.2 ≠ [])
    (hwhole : Whole parts pre) : OnBoundary parts pre ↔ ¬ BehindPart parts pre := by
  obtain ⟨done, todo, rfl, rfl⟩ := hwhole
  constructor
  · rintro ⟨done₁, todo₁, h₁, hwire₁, hhead⟩ ⟨done₂, p, todo₂, h₂, hwire₂, hp⟩
    obtain ⟨rfl, rfl⟩ := split_unique hne h₁ hwire₁
    obtain ⟨-, rfl⟩ := split_unique hne h₂ hwire₂
    exact hp (hhead p rfl)
  · intro hnot
    refine ⟨done, todo, rfl, rfl, fun p hp => ?_⟩
    by_contra hlength
    cases todo with
    | nil => cases hp
    | cons q todo =>
      cases hp
      exact hnot ⟨done, p, todo, rfl, rfl, hlength⟩

variable (m failure truncated) in
/-- However the transport brings a beginning `pre` of the wire before it ends, and however it is
    read, the reader tells the truth about the end unless `pre` ends right in front of a part that
    begins no chunk, and only then. -/
def TellsTheEnd (r : ByteReader S) (parts : List (Part × Bytes)) : Prop :=
  ∀ pre script caps, pre <+: wireOfParts parts → Endless script → arrived script = pre →
    (∀ i : Nat, 0 < caps i) →
    ∃ res, (∃ n, ∀ k, n ≤ k → r.ending m failure truncated caps k 0 (script ++ [.data []]) =
      some res) ∧ (Truthful parts pre res ↔ ¬ BehindPart parts pre)

variable (failure truncated) in
theorem tellsTheEnd {s u : S} (plain : Bytes) {parts : List (Part × Bytes)}
    (h : m.Parts s parts u) (hs : m.Rests s) :
    TellsTheEnd m failure truncated ⟨s, [], plain⟩ parts := by
  rintro _ script caps ⟨more, hwire⟩ hend rfl hcaps
  obtain ⟨outs, hreads⟩ := h.reads
  rw [← hwire] at hreads
  have hne := parts_ne_nil h
  -- Every run ends at the same place.
  obtain ⟨n, hrun⟩ : ∃ n, ∀ k, n ≤ k → ∃ rest : Bytes,
      ByteReader.ending m failure truncated caps k 0 (script ++ [.data []]) ⟨s, [], plain⟩ =
          some (if rest = [] then .ok () else .error truncated) ∧
        (rest = [] ↔ Whole parts (arrived script)) := by
    refine ⟨plain.length + outs.length + script.length + 1, fun k hk => ?_⟩
    obtain ⟨t, rest, seen, out, hending, hsplit, hseen, hwait⟩ :=
      ByteReader.ending_cut failure truncated (r := ⟨s, [], plain⟩) (i := 0) hcaps hreads (h.rests hs) hend hk
    rw [List.nil_append] at hsplit
    refine ⟨rest, hending, ?_⟩
    rw [hsplit]
    exact h.cut hseen hwait (by rw [← hsplit]; exact hwire)
  by_cases hwhole : Whole parts (arrived script)
  · refine ⟨.ok (), ⟨n, fun k hk => ?_⟩, ?_⟩
    · obtain ⟨rest, hending, hrest⟩ := hrun k hk
      rw [hending, if_pos (hrest.mpr hwhole)]
    · rw [← onBoundary_iff hne hwhole]
      exact ⟨fun htruth => htruth.1 rfl, fun hon => ⟨fun _ => hon, fun hnot => absurd hon hnot⟩⟩
  · refine ⟨.error truncated, ⟨n, fun k hk => ?_⟩, ?_⟩
    · obtain ⟨rest, hending, hrest⟩ := hrun k hk
      rw [hending, if_neg (mt hrest.mp hwhole)]
    · refine ⟨fun _ => ?_, fun _ => ⟨nofun, fun _ => ⟨truncated, rfl⟩⟩⟩
      rintro ⟨done, p, todo, hparts, hpre, -⟩
      exact hwhole ⟨done, p :: todo, hparts, hpre⟩

end

/-- All four readers tell a clean end from a truncated stream unless it was cut right in front of
    a part that begins no chunk. -/
theorem truncation_reported_iff (H : Hashes) :
    (∀ now (d : Shadowsocks.SsDecoder) parts plains, d.state = .salt →
      Shadowsocks.Answer H now d parts plains →
      TellsTheEnd (Shadowsocks.SsDecoder.machine H now) Shadowsocks.invalidData
        Shadowsocks.truncatedStream ⟨d, [], []⟩ parts) ∧
    (∀ c c' initial parts plains, Shadowsocks.Chunks c parts plains c' →
      TellsTheEnd Shadowsocks.SsServerDecoder.machine Shadowsocks.invalidData
        Shadowsocks.truncatedStream ⟨⟨c, .len⟩, [], initial⟩ parts) ∧
    (∀ (d : Vmess.VmessDecoder) parts plains, d.state = .headerLen →
      Vmess.Answer H d parts plains →
      TellsTheEnd (Vmess.VmessDecoder.machine H) Vmess.invalidData Vmess.truncatedStream
        ⟨d, [], []⟩ parts) ∧
    (∀ b parts plains, Vmess.Frames b parts plains →
      TellsTheEnd Vmess.VmessServerDecoder.machine Vmess.invalidData Vmess.truncatedStream
        ⟨⟨b, .len⟩, [], []⟩ parts) := by
  refine ⟨?_, ?_, ?_, ?_⟩
  · intro now d parts plains hstate hanswer
    obtain ⟨d', hparts, -⟩ := hanswer.parts hstate
    exact tellsTheEnd _ _ _ hparts d.rests
  · intro c c' initial parts plains hchunks
    exact tellsTheEnd _ _ _ (hchunks.parts Shadowsocks.SsServerDecoder.opensChunks)
      (Shadowsocks.SsServerDecoder.rests _)
  · intro d parts plains hstate hanswer
    obtain ⟨d', hparts, -⟩ := hanswer.reads hstate
    refine tellsTheEnd _ _ _ hparts ?_
    unfold Rests Vmess.VmessDecoder.machine Vmess.VmessDecoder.need
    dsimp only
    rw [hstate]
    exact nofun
  · intro b parts plains hframes
    obtain ⟨d', hparts, -⟩ := hframes.reads
    exact tellsTheEnd _ _ _ hparts nofun

/-- A key of the legacy method. -/
def sampleAead : Aead := ⟨.aes128Gcm, List.replicate 16 1, rfl⟩

/-- The server reads the length of a chunk, the transport ends, and the end is clean. -/
theorem cut_behind_length :
    ∃ lenCt ct c', Shadowsocks.Chunks (.new sampleAead) [(.length, lenCt), (.payload, ct)]
        [[1, 2, 3]] c' ∧
      (∃ n, ByteReader.ending Shadowsocks.SsServerDecoder.machine Shadowsocks.invalidData
        Shadowsocks.truncatedStream (fun _ => 1) n 0 [.data lenCt, .data []]
          ⟨⟨.new sampleAead, .len⟩, [], []⟩ = some (.ok ())) ∧
      ¬ OnBoundary [(.length, lenCt), (.payload, ct)] lenCt := by
  obtain ⟨c₁, lenCt, hlen⟩ := (SsCrypto.new sampleAead).sealNext_short
    (by decide : (be16 (UInt16.ofNat [1, 2, 3].length)).length < 2 ^ 32)
  obtain ⟨c₂, ct, hct⟩ := c₁.sealNext_short (by decide : ([1, 2, 3] : Bytes).length < 2 ^ 32)
  have hchunks : Shadowsocks.Chunks (.new sampleAead) [(.length, lenCt), (.payload, ct)]
      [[1, 2, 3]] c₂ := .cons (by decide) hlen hct (.nil c₂)
  have hparts := hchunks.parts Shadowsocks.SsServerDecoder.opensChunks
  have hne : lenCt ≠ [] := SsCrypto.sealed_ne_nil hlen
  have hbehind : BehindPart [(.length, lenCt), (.payload, ct)] lenCt :=
    ⟨[(.length, lenCt)], (.payload, ct), [], rfl, (List.append_nil lenCt).symm, nofun⟩
  have hwhole : Whole [(Part.length, lenCt), (.payload, ct)] lenCt :=
    ⟨[(.length, lenCt)], [(.payload, ct)], rfl, (List.append_nil lenCt).symm⟩
  have hnot : ¬ OnBoundary [(.length, lenCt), (.payload, ct)] lenCt := fun hon =>
    (onBoundary_iff (parts_ne_nil hparts) hwhole).mp hon hbehind
  have hend : Endless [.data lenCt] := by
    intro hmem
    have heq := List.mem_singleton.mp hmem
    rw [Arrival.data.injEq] at heq
    exact hne heq.symm
  obtain ⟨res, ⟨n, hn⟩, htruth⟩ := tellsTheEnd Shadowsocks.invalidData
    Shadowsocks.truncatedStream [] hparts (Shadowsocks.SsServerDecoder.rests _) lenCt [.data lenCt] (fun _ => 1)
    ⟨ct, by rw [wireOfParts_cons, wireOfParts_cons, wireOfParts_nil, List.append_nil]⟩ hend
    (List.append_nil lenCt) (fun _ => Nat.one_pos)
  have hres : res = .ok () := by
    by_contra hbad
    have hfalse := mt htruth.mp (not_not.mpr hbehind)
    refine hfalse ⟨fun hok => absurd hok hbad, fun _ => ?_⟩
    cases res with
    | ok u => exact absurd rfl hbad
    | error e => exact ⟨e, rfl⟩
  exact ⟨lenCt, ct, c₂, hchunks, ⟨n, by rw [← hres]; exact hn n (Nat.le_refl n)⟩, hnot⟩

end RustCrash.Proto
