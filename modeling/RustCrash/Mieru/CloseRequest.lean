import RustCrash.Mieru.Receive

/-
  The end of a packet session by a close request of the peer.

  The engine acts on the request when it arrives, whatever its number: it ends, and the
  application sees the end of the stream behind what has been written so far
  (`closing_ends`).
-/

namespace RustCrash.Mieru

open Lib

namespace PacketEngine

variable {F : Type} {fl : Floats F} {segs : List Bytes} {s t : PacketEngine F}
  {a : Env F × EngineEvent}

/-! ## The request -/

/-- The step brings a close request whose lengths are right. -/
def Closing (s : PacketEngine F) (a : Env F × EngineEvent) : Prop :=
  ∃ m nonce rest, s.arriving a = some (m, nonce, rest) ∧ m.protocol = closeSessionRequest ∧
    rest.length = m.payloadLen.toNat + tagSize + m.suffixLen.toNat

/-- A closed session with nothing to send ends with the turn. -/
theorem finishTurn_closed {e : Env F} (hclosed : s.closed = true) (hbuf : s.sendBuf = [])
    (hqueue : s.sendQueue = []) : (s.finishTurn fl e).ended = true := by
  have hretx : s.retransmit fl e = (s, some 0) := by
    unfold retransmit
    rw [if_neg (fun h => h.1 hbuf)]
  have hack : s.acknowledge e = s := by
    unfold acknowledge
    dsimp only
    rw [if_neg (fun h => by rw [hclosed] at h; exact absurd h.2.1 nofun)]
  have hout : s.runOutputOncePacket fl e = s := by
    unfold runOutputOncePacket
    rw [hretx]
    dsimp only
    rw [hqueue]
    exact hack
  unfold finishTurn
  dsimp only
  rw [hout, hclosed, hbuf]
  rfl

/-- What `ingest` makes of it. -/
theorem ingest_close {e : Env F} {m : InboundMeta} {nonce : ByteVec 24} {rest : Bytes}
    (hm : m.protocol = closeSessionRequest)
    (hrest : rest.length = m.payloadLen.toNat + tagSize + m.suffixLen.toNat) :
    (s.ingest fl e m nonce rest).closed = true ∧ (s.ingest fl e m nonce rest).sendBuf = [] ∧
      (s.ingest fl e m nonce rest).sendQueue = [] := by
  unfold ingest
  rw [hm, if_neg (by decide), if_neg (by decide), if_neg (by decide), if_pos rfl, if_pos hrest]
  exact ⟨rfl, rfl, rfl⟩

/-- The engine ends, and nothing more is written. -/
theorem closing_ends (fl : Floats F) (hs : s.ended = false) (ha : s.Closing a) :
    (s.step fl a).ended = true ∧ (s.step fl a).inbound = s.inbound := by
  obtain ⟨e, ev⟩ := a
  obtain ⟨m, nonce, rest, harr, hm, hrest⟩ := ha
  have hseg : s.segmentOf (e, ev) = none := by
    unfold segmentOf
    rw [harr]
    dsimp only
    unfold dataIn
    rw [hm, if_neg (by decide), if_neg (fun h => absurd h.1 (by decide))]
  refine ⟨?_, step_same (Or.inr (Or.inl hseg))⟩
  unfold arriving at harr
  unfold step
  dsimp only at harr ⊢
  rw [hs]
  simp only [Bool.false_eq_true, if_false]
  cases ev with
  | app bytes => cases harr
  | appEof => cases harr
  | sockErr => cases harr
  | timer => cases harr
  | demuxed m' nonce' rest' =>
    cases harr
    obtain ⟨hclosed, hbuf, hqueue⟩ := ingest_close hm hrest
    exact finishTurn_closed hclosed hbuf hqueue
  | dgram bytes =>
    have hkey : (s.heard e).key = s.key := rfl
    have hsid : (s.heard e).sessionId = s.sessionId := rfl
    unfold onDatagram
    dsimp only at harr ⊢
    rw [hkey, hsid]
    cases hparse : parseDatagramWith s.key e.minutes bytes with
    | none =>
      rw [hparse] at harr
      cases harr
    | some x =>
      obtain ⟨m', nonce'⟩ := x
      rw [hparse] at harr
      dsimp only at harr ⊢
      split_ifs at harr ⊢ with hid
      cases harr
      obtain ⟨hclosed, hbuf, hqueue⟩ := ingest_close hm hrest
      exact finishTurn_closed hclosed hbuf hqueue

/-! ## What has been taken in -/

/-- The step takes in the segment `j`: it opens, and the window is open. -/
def TakesIn (s : PacketEngine F) (a : Env F × EngineEvent) (j : UInt32) : Prop :=
  s.ended = false ∧ s.receiveWindowSize ≠ 0 ∧ ∃ p, s.segmentOf a = some (j, p)

/-- The segment has been delivered or waits. -/
def Has (s : PacketEngine F) (j : UInt32) : Prop :=
  j.toNat < s.nextRecv.toNat ∨ (s.recvBuf.lookup j).isSome

theorem has_step (hlen : segs.length < 2 ^ 32) (h : Receives segs s) (ha : Honest segs s a)
    (j : UInt32) : (s.step fl a).Has j ↔ s.Has j ∨ s.TakesIn a j := by
  rcases step_cases s a with hsame | ⟨k, p, hs, hseg, hopen⟩
  · have hinbound : (s.step fl a).inbound = s.inbound := step_same hsame
    obtain ⟨_, _, _, hnext, hbuf⟩ := inbound_ext hinbound
    have hnot : ¬ s.TakesIn a j := by
      rintro ⟨hs, hopen, p, hseg⟩
      rcases hsame with hended | hnone | hzero
      · rw [hs] at hended
        cases hended
      · rw [hseg] at hnone
        cases hnone
      · exact hopen hzero
    unfold Has
    rw [hnext, hbuf, or_iff_left hnot]
  · have hadm : Admits segs k p s (s.step fl a) := step_admits hlen h.inOrder hs ha hseg hopen
    generalize s.step fl a = t at hadm
    have hadv := hadm.advances
    have htakes : s.TakesIn a j ↔ j = k := by
      constructor
      · rintro ⟨_, _, q, hq⟩
        rw [hseg] at hq
        cases hq
        rfl
      · rintro rfl
        exact ⟨hs, hopen, p, hseg⟩
    rw [htakes]
    unfold Has
    by_cases hin : s.nextRecv.toNat ≤ j.toNat ∧ j.toNat < t.nextRecv.toNat
    · have hheld := hadm.held hin.1 hin.2
      constructor
      · exact fun _ => hheld.elim Or.inr fun h => Or.inl (Or.inr h)
      · exact fun _ => Or.inl hin.2
    · rw [hadm.left hin]
      by_cases hjk : j = k
      · rw [hjk, AList.lookup_insert]
        exact iff_of_true (Or.inr rfl) (Or.inr rfl)
      · rw [AList.lookup_insert_ne hjk, or_iff_left hjk]
        constructor
        · rintro (hlt | hsome)
          · exact Or.inl (by omega)
          · exact Or.inr hsome
        · rintro (hlt | hsome)
          · exact Or.inl (by omega)
          · exact Or.inr hsome

theorem has_run (hlen : segs.length < 2 ^ 32) (h : Receives segs s)
    {run : List (Env F × EngineEvent)}
    (hhonest : ∀ x ∈ Machine.steps (step fl) s run, Honest segs x.1 x.2) (j : UInt32) :
    (run.foldl (step fl) s).Has j ↔
      s.Has j ∨ ∃ x ∈ Machine.steps (step fl) s run, x.1.TakesIn x.2 j := by
  induction run generalizing s with
  | nil => simp [Machine.steps]
  | cons a run ih =>
    have ha : Honest segs s a := hhonest (s, a) List.mem_cons_self
    rw [List.foldl_cons, ih (h.step hlen ha) fun x hx => hhonest x (List.mem_cons_of_mem _ hx),
      has_step hlen h ha, or_assoc]
    simp only [Machine.steps, List.mem_cons, exists_eq_or_imp]

/-- Every segment up to the last with a payload has been taken in. -/
def AllTaken (fl : Floats F) (segs : List Bytes) (s : PacketEngine F)
    (run : List (Env F × EngineEvent)) : Prop :=
  ∀ i p, segs[i]? = some p → p ≠ [] → ∀ j : UInt32, j.toNat ≤ i →
    ∃ x ∈ Machine.steps (step fl) s run, x.1.TakesIn x.2 j

/-- What is behind `next_recv` is empty exactly if nothing with a payload is missing. -/
theorem flatten_take_iff (segs : List Bytes) (n : Nat) :
    (segs.take n).flatten = segs.flatten ↔ ∀ i p, segs[i]? = some p → p ≠ [] → i < n := by
  have hsplit : segs.flatten = (segs.take n).flatten ++ (segs.drop n).flatten := by
    rw [← List.flatten_append, List.take_append_drop]
  rw [hsplit, List.self_eq_append_right, List.flatten_eq_nil_iff]
  constructor
  · intro hnil i p hp hne
    by_contra hle
    have hdrop : (segs.drop n)[i - n]? = some p := by
      rw [List.getElem?_drop, Nat.add_sub_cancel' (by omega)]
      exact hp
    exact hne (hnil p (List.mem_of_getElem? hdrop))
  · intro hlt p hp
    obtain ⟨i, hi⟩ := List.getElem?_of_mem hp
    rw [List.getElem?_drop] at hi
    by_contra hne
    have := hlt (n + i) p hi hne
    omega

/-- When a close request ends the engine, the application has the whole stream if and only if
    every segment up to the last with a payload has been taken in. -/
theorem close_complete (fl : Floats F) (segs : List Bytes) (hlen : segs.length < 2 ^ 32)
    (key : ByteVec 32) (sessionId : UInt32) (e : Env F) (run : List (Env F × EngineEvent))
    (hhonest : ∀ x ∈ Machine.steps (step fl) (new key sessionId e) run, Honest segs x.1 x.2)
    (a : Env F × EngineEvent) (hs : (run.foldl (step fl) (new key sessionId e)).ended = false)
    (ha : (run.foldl (step fl) (new key sessionId e)).Closing a) :
    ((run ++ [a]).foldl (step fl) (new key sessionId e)).ended = true ∧
      (((run ++ [a]).foldl (step fl) (new key sessionId e)).app = segs.flatten ↔
        AllTaken fl segs (new key sessionId e) run) := by
  have hstart : Receives segs (new key sessionId e) := new_receives key sessionId e
  have hrec : Receives segs (run.foldl (step fl) (new key sessionId e)) :=
    Machine.inv_of_good (Receives segs) (Honest segs) (fun s a h ha => h.step hlen ha) hstart
      hhonest _ (Machine.foldl_mem_states _ run)
  have hhas := has_run hlen hstart hhonest
  rw [List.foldl_append, List.foldl_cons, List.foldl_nil]
  generalize run.foldl (step fl) (new key sessionId e) = t at *
  obtain ⟨hended, hsame⟩ := closing_ends fl hs ha
  obtain ⟨_, _, happ, _, _⟩ := inbound_ext hsame
  refine ⟨hended, ?_⟩
  have hnone : ∀ j, ¬ (new key sessionId e).Has j := by
    rintro j (hlt | hsome)
    · exact absurd hlt (Nat.not_lt_zero _)
    · cases hsome
  have htaken : ∀ j, (∃ x ∈ Machine.steps (step fl) (new key sessionId e) run,
      x.1.TakesIn x.2 j) ↔ t.Has j := fun j => by
    rw [hhas j, or_iff_right (hnone j)]
  rw [happ, hrec.inOrder.written, flatten_take_iff]
  unfold AllTaken
  constructor
  · intro hlt i p hp hne j hj
    exact (htaken j).mpr (Or.inl (Nat.lt_of_le_of_lt hj (hlt i p hp hne)))
  · intro hall i p hp hne
    by_contra hle
    rcases (htaken t.nextRecv).mp (hall i p hp hne t.nextRecv (by omega)) with hlt | hsome
    · exact absurd hlt (Nat.lt_irrefl _)
    · rw [hrec.idle] at hsome
      cases hsome

/-! ### One segment and a close request -/

/-- Number 1, behind one data segment; the engine does not open the block. -/
def closeRequest : Env Unit × EngineEvent :=
  (calm, .demuxed ⟨closeSessionRequest, 1, 1, 0, 0, 0, 0, 0, 0⟩ (ByteVec.zero 24)
    (List.replicate 16 0))

theorem closing_closeRequest (s : PacketEngine Unit) : s.Closing closeRequest :=
  ⟨_, _, _, rfl, rfl, rfl⟩

theorem close_complete_sample :
    ([openResponse, closeRequest].foldl (step exactFloats) sample).ended = true ∧
      ([openResponse, closeRequest].foldl (step exactFloats) sample).app = [[7]].flatten := by
  have hopened : ([openResponse].foldl (step exactFloats) sample).ended = false := by
    decide +kernel
  have hclose := close_complete exactFloats [[7]] (by decide) (ByteVec.zero 32) 1 calm
    [openResponse] (fun x hx => by
      rw [List.mem_singleton.mp hx]
      exact honest_first) closeRequest hopened (closing_closeRequest _)
  refine ⟨hclose.1, hclose.2.mpr fun i p hp _ j hj => ?_⟩
  have hi : i < 1 := (List.getElem?_eq_some_iff.mp hp).1
  have hj0 : j = 0 := by
    apply UInt32.toNat_inj.mp
    rw [UInt32.toNat_zero]
    omega
  refine ⟨(sample, openResponse), List.mem_singleton_self _, ?_⟩
  rw [hj0]
  exact ⟨rfl, by decide +kernel, [7], by decide +kernel⟩

/-- The request overtakes the segment. -/
theorem close_truncates :
    sample.Closing closeRequest ∧ (sample.step exactFloats closeRequest).ended = true ∧
      (sample.step exactFloats closeRequest).app ≠ [[7]].flatten := by
  obtain ⟨hended, hsame⟩ := closing_ends exactFloats rfl (closing_closeRequest sample)
  refine ⟨closing_closeRequest sample, hended, ?_⟩
  rw [(inbound_ext hsame).2.2.1]
  exact nofun

end PacketEngine

end RustCrash.Mieru
