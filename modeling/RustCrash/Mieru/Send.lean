import RustCrash.Mieru.Receive

/-
  The send side of `PacketEngine`: what the application wrote, cut into numbered segments, from the
  queue over the buffer to the acknowledgement.

  The segments made so far are numbered from 0. Those below the highest acknowledgement are gone;
  the others are the buffer and behind it the queue, in order (`Queued`).

  This needs a socket that takes what it is given: a segment that is refused on its first
  transmission is in neither list.
-/

namespace RustCrash.Mieru

open Lib

/-! ## Chunks -/

theorem flatten_chunksFor {k : Nat} (hk : 0 < k) {n : Nat} {bs : Bytes} (hn : bs.length ≤ n) :
    (chunksFor k n bs).flatten = bs := by
  induction n generalizing bs with
  | zero =>
    rw [List.length_eq_zero_iff.mp (Nat.le_zero.mp hn)]
    rfl
  | succ n ih =>
    unfold chunksFor
    split_ifs with hnil
    · rw [hnil]
      rfl
    · have hpos := List.length_pos_iff.mpr hnil
      rw [List.flatten_cons, ih (by rw [List.length_drop]; omega), List.take_append_drop]

theorem flatten_chunks {k : Nat} (hk : 0 < k) (bs : Bytes) : (chunks k bs).flatten = bs :=
  flatten_chunksFor hk (Nat.le_refl _)

namespace PacketEngine

variable {F : Type}

/-! ## The invariant -/

structure Queued (s : PacketEngine F) : Prop where
  next : s.nextSend = UInt32.ofNat s.history.made.length
  numbered : s.history.made.map Core.seq = (List.range s.history.made.length).map UInt32.ofNat
  reached : s.history.acked ≤ s.history.made.length
  unacked : (s.sendBuf ++ s.sendQueue).map OutSeg.core = s.history.made.drop s.history.acked
  counts : ∀ seg ∈ s.sendBuf ++ s.sendQueue, seg.txCount ≤ txCountLimit

/-- The payloads of all segments. -/
def madeBytes (s : PacketEngine F) : Bytes := (s.history.made.map Core.payload).flatten

/-- What the send side is made of. -/
structure Outbound (F : Type) where
  nextSend : UInt32
  sendQueue : List OutSeg
  sendBuf : List OutSeg
  cubic : Cubic F
  history : History

def outbound (s : PacketEngine F) : Outbound F :=
  ⟨s.nextSend, s.sendQueue, s.sendBuf, s.cubic, s.history⟩

variable {s t : PacketEngine F}

theorem outbound_ext (h : t.outbound = s.outbound) : t.nextSend = s.nextSend ∧
    t.sendQueue = s.sendQueue ∧ t.sendBuf = s.sendBuf ∧ t.cubic = s.cubic ∧
    t.history = s.history := by
  cases s
  cases t
  simpa [outbound] using h

theorem Queued.congr (h : Queued s) (hsame : t.outbound = s.outbound) : Queued t := by
  obtain ⟨hnext, hqueue, hbuf, _, hhist⟩ := outbound_ext hsame
  constructor
  · rw [hnext, hhist]
    exact h.next
  · rw [hhist]
    exact h.numbered
  · rw [hhist]
    exact h.reached
  · rw [hbuf, hqueue, hhist]
    exact h.unacked
  · rw [hbuf, hqueue]
    exact h.counts

/-- The segments between the queues are as many as those not acknowledged. -/
theorem Queued.length (h : Queued s) :
    s.history.acked + (s.sendBuf.length + s.sendQueue.length) = s.history.made.length := by
  have hlen := congrArg List.length h.unacked
  have hreached := h.reached
  rw [List.length_map, List.length_append, List.length_drop] at hlen
  omega

/-! ## Writing -/

theorem Queued.pushSeg (h : Queued s) (now : Nat) (protocol fragment : UInt8) (payload : Bytes) :
    Queued (s.pushSeg now protocol fragment payload) := by
  unfold PacketEngine.pushSeg
  constructor
  · dsimp only
    rw [List.length_append, List.length_singleton, h.next, ← UInt32.ofNat_one, UInt32.ofNat_add]
  · dsimp only
    rw [List.map_append, h.numbered, List.length_append, List.length_singleton, List.range_succ,
      List.map_append, h.next]
    rfl
  · dsimp only
    rw [List.length_append]
    exact Nat.le_add_right_of_le h.reached
  · dsimp only
    rw [← List.append_assoc, List.map_append, h.unacked, List.drop_append_of_le_length h.reached]
    rfl
  · intro seg hseg
    dsimp only at hseg
    rw [← List.append_assoc] at hseg
    rcases List.mem_append.mp hseg with hold | hnew
    · exact h.counts seg hold
    · rw [List.mem_singleton.mp hnew]
      exact (by decide : (0 : UInt32) ≤ txCountLimit)

theorem madeBytes_pushSeg (s : PacketEngine F) (now : Nat) (protocol fragment : UInt8)
    (payload : Bytes) : (s.pushSeg now protocol fragment payload).madeBytes =
      s.madeBytes ++ payload := by
  unfold madeBytes pushSeg
  dsimp only
  rw [List.map_append, List.flatten_append]
  simp [OutSeg.core]

/-- The session has been given up, or the peer closed it. -/
def Lost (s : PacketEngine F) : Prop := s.history.aborted = true ∨ s.history.peerClosed = true

/-- `t` has what `s` has and segments with this payload behind it. -/
structure Writes (payload : Bytes) (s t : PacketEngine F) : Prop where
  queued : Queued s → Queued t
  bytes : t.madeBytes = s.madeBytes ++ payload
  made : s.history.made <+: t.history.made
  accepted : t.history.accepted = s.history.accepted
  acked : t.history.acked = s.history.acked
  sendBuf : t.sendBuf = s.sendBuf
  lost : t.Lost ↔ s.Lost

theorem writes_of_same (h : t.outbound = s.outbound) : Writes [] s t := by
  obtain ⟨_, _, hbuf, _, hhist⟩ := outbound_ext h
  refine ⟨fun hs => hs.congr h, ?_, ?_, ?_, ?_, hbuf, ?_⟩
  · unfold madeBytes
    rw [hhist, List.append_nil]
  · rw [hhist]
  · rw [hhist]
  · rw [hhist]
  · unfold Lost
    rw [hhist]

theorem writes_pushSeg (s : PacketEngine F) (now : Nat) (protocol fragment : UInt8)
    (payload : Bytes) : Writes payload s (s.pushSeg now protocol fragment payload) :=
  ⟨fun h => h.pushSeg now protocol fragment payload,
    madeBytes_pushSeg s now protocol fragment payload, List.prefix_append _ _, rfl, rfl, rfl,
    Iff.rfl⟩

theorem Writes.trans {p q : Bytes} {u : PacketEngine F} (h : Writes p s t) (h' : Writes q t u) :
    Writes (p ++ q) s u := by
  refine ⟨fun hs => h'.queued (h.queued hs), ?_, h.made.trans h'.made,
    h'.accepted.trans h.accepted, h'.acked.trans h.acked, h'.sendBuf.trans h.sendBuf,
    h'.lost.trans h.lost⟩
  rw [h'.bytes, h.bytes, List.append_assoc]

theorem writes_pushFragments (s : PacketEngine F) (now n idx : Nat) (parts : List Bytes) :
    Writes parts.flatten s (s.pushFragments now n idx parts) := by
  induction parts generalizing s idx with
  | nil => exact writes_of_same rfl
  | cons part parts ih =>
    unfold pushFragments
    rw [List.flatten_cons]
    exact (writes_pushSeg s now _ _ part).trans (ih _ (idx + 1))

theorem writes_pushChunks (s : PacketEngine F) (now : Nat) (cs : List Bytes) :
    Writes cs.flatten s (s.pushChunks now cs) := by
  induction cs generalizing s with
  | nil => exact writes_of_same rfl
  | cons c cs ih =>
    have hpart := writes_pushFragments s now (max ((c.length + maxFragment - 1) / maxFragment) 1) 0
      (chunks maxFragment c)
    rw [flatten_chunks (by decide)] at hpart
    unfold pushChunks
    rw [List.flatten_cons]
    exact hpart.trans (ih _)

/-- Every byte that `session_write` accepts is in one segment. -/
def Whole (s : PacketEngine F) : Prop := s.madeBytes = s.history.accepted

/-- A turn before its output, `u` being what it acknowledges. -/
structure Moves (u : Option UInt32) (s t : PacketEngine F) : Prop where
  queued : (∀ v, u = some v → v.toNat ≤ s.history.made.length - s.sendQueue.length) →
    s.history.made.length ≤ 2 ^ 32 → ¬ t.Lost → Queued s → Queued t
  whole : Whole s → Whole t
  made : s.history.made <+: t.history.made
  acked : t.history.acked = s.history.acked ∨
    ∃ v, u = some v ∧ t.history.acked = max s.history.acked v.toNat
  lost : s.Lost → t.Lost
  kept : (t.sendBuf.map OutSeg.core).Sublist (s.sendBuf.map OutSeg.core)

theorem moves_of_same (u : Option UInt32) (h : t.outbound = s.outbound) : Moves u s t := by
  have hw := writes_of_same h
  refine ⟨fun _ _ _ hs => hw.queued hs, fun hs => ?_, hw.made, Or.inl hw.acked, hw.lost.mpr, ?_⟩
  · unfold Whole at hs ⊢
    rw [hw.bytes, hw.accepted, List.append_nil, hs]
  · rw [hw.sendBuf]

theorem accepting_moves {b : Bytes} (h : Writes b (s.accepting b) t) : Moves none s t := by
  refine ⟨fun _ _ _ hs => h.queued ⟨hs.next, hs.numbered, hs.reached, hs.unacked, hs.counts⟩,
    fun hs => ?_, h.made, Or.inl h.acked, h.lost.mpr, ?_⟩
  · unfold Whole at hs ⊢
    rw [h.bytes, h.accepted]
    exact congrArg (· ++ b) hs
  · rw [h.sendBuf]
    exact List.Sublist.refl _

theorem markOpen_writes (s : PacketEngine F) : Writes [] s s.markOpen := writes_of_same rfl

theorem sessionWrite_moves (s : PacketEngine F) (now : Nat) (b : Bytes) :
    Moves none s (s.sessionWrite now b) := by
  have hchunks := fun q : PacketEngine F => writes_pushChunks q now (chunks maxPdu b)
  have hopen := markOpen_writes (s.accepting b)
  rw [flatten_chunks (by decide)] at hchunks
  unfold sessionWrite
  split_ifs
  · exact moves_of_same none rfl
  · exact accepting_moves (hchunks _)
  · exact accepting_moves (hopen.trans (writes_pushSeg _ now openSessionRequest 0 b))
  · exact accepting_moves ((hopen.trans (writes_pushSeg _ now openSessionRequest 0 [])).trans
      (hchunks _))

theorem queueClose_moves (s : PacketEngine F) (now : Nat) : Moves none s (s.queueClose now) := by
  unfold queueClose
  split_ifs
  · exact moves_of_same none rfl
  · have h := writes_pushSeg { s with closeSent := true } now closeSessionRequest 0 []
    refine ⟨fun _ _ _ hs => h.queued (hs.congr rfl), fun hs => ?_, h.made, Or.inl h.acked,
      h.lost.mpr, ?_⟩
    · unfold Whole at hs ⊢
      rw [h.bytes, h.accepted, List.append_nil]
      exact hs
    · rw [h.sendBuf]

/-- The buffer with other times and counts. -/
theorem Queued.rebuffer (h : Queued s) (hnext : t.nextSend = s.nextSend)
    (hqueue : t.sendQueue = s.sendQueue) (hhist : t.history = s.history)
    (hcore : t.sendBuf.map OutSeg.core = s.sendBuf.map OutSeg.core)
    (hcounts : ∀ seg ∈ t.sendBuf, seg.txCount ≤ txCountLimit) : Queued t := by
  constructor
  · rw [hnext, hhist]
    exact h.next
  · rw [hhist]
    exact h.numbered
  · rw [hhist]
    exact h.reached
  · rw [hhist, ← h.unacked, List.map_append, List.map_append, hcore, hqueue]
  · intro seg hseg
    rcases List.mem_append.mp hseg with hin | hin
    · exact hcounts seg hin
    · rw [hqueue] at hin
      exact h.counts seg (List.mem_append_right _ hin)

/-! ## Retransmission -/

variable (fl : Floats F)

theorem core_txCount (seg : OutSeg) (n : UInt32) (now timeout : Nat) (acks : UInt32) :
    OutSeg.core { seg with ackCount := acks, txCount := n, txTime := now, txTimeout := timeout } =
      seg.core := rfl

theorem sweep_core (s : PacketEngine F) (now : Nat) (segs : List OutSeg) (nextTx : Option Nat) :
    (s.sweep fl now segs nextTx).segs.map OutSeg.core = segs.map OutSeg.core := by
  induction segs generalizing nextTx with
  | nil => rfl
  | cons seg segs ih =>
    unfold sweep
    dsimp only
    split_ifs
    · rfl
    · rw [List.map_cons, ih, core_txCount, List.map_cons]
    · rw [List.map_cons, ih, List.map_cons]

theorem succ_le_limit {n : UInt32} (h : ¬ txCountLimit ≤ n) : n + 1 ≤ txCountLimit := by
  rw [UInt32.le_iff_toNat_le] at h ⊢
  rw [UInt32.toNat_add, UInt32.toNat_one]
  have hlimit : txCountLimit.toNat = 20 := rfl
  omega

variable {segs : List OutSeg} {e : Env F} {u : PacketEngine F} {r : PacketEngine F}
  {a : Env F × EngineEvent}

theorem sweep_counts (s : PacketEngine F) (now : Nat) (h : ∀ seg ∈ segs, seg.txCount ≤ txCountLimit)
    (nextTx : Option Nat) :
    ∀ seg ∈ (s.sweep fl now segs nextTx).segs, seg.txCount ≤ txCountLimit := by
  induction segs generalizing nextTx with
  | nil => exact nofun
  | cons seg segs ih =>
    have hrest := ih fun q hq => h q (List.mem_cons_of_mem _ hq)
    unfold sweep
    dsimp only
    split_ifs with hlimit
    · exact h
    · intro q hq
      rcases List.mem_cons.mp hq with rfl | hq
      · exact succ_le_limit hlimit
      · exact hrest _ q hq
    · intro q hq
      rcases List.mem_cons.mp hq with rfl | hq
      · exact h q List.mem_cons_self
      · exact hrest _ q hq

/-- The socket takes what it is given. -/
def SocketTakes (e : Env F) : Prop := ∀ seq, e.accepts seq = true

theorem sendSeg_ok (he : SocketTakes e) (s : PacketEngine F) (seg : OutSeg) :
    (s.sendSeg e seg).2 = true := by
  unfold sendSeg
  rw [if_pos (he seg.seq)]

theorem outbound_sendSeg (s : PacketEngine F) (e : Env F) (seg : OutSeg) :
    (s.sendSeg e seg).1.outbound = s.outbound := by
  unfold sendSeg
  split_ifs <;> rfl

theorem outbound_resendAll (s : PacketEngine F) (e : Env F) (total : Nat) (segs : List OutSeg) :
    (s.resendAll e total segs).1.outbound = s.outbound ∧
      (SocketTakes e → (s.resendAll e total segs).2.2 = true) := by
  induction segs generalizing s total with
  | nil => exact ⟨rfl, fun _ => rfl⟩
  | cons seg segs ih =>
    have hsend := outbound_sendSeg s e seg
    unfold resendAll
    cases hout : s.sendSeg e seg with
    | mk t ok =>
      rw [hout] at hsend
      cases ok with
      | false =>
        refine ⟨hsend, fun he => ?_⟩
        have hok := sendSeg_ok he s seg
        rw [hout] at hok
        cases hok
      | true => exact ⟨(ih t (total + 1)).1.trans hsend, (ih t (total + 1)).2⟩

/-- A pass of the output that lets no segment go. It ends the session only at the limit. -/
structure Passes (e : Env F) (s t : PacketEngine F) : Prop where
  queued : SocketTakes e → t.history.aborted = false → Queued s → Queued t
  history : t.history = { s.history with aborted := t.history.aborted }
  aborted : s.history.aborted = true → t.history.aborted = true

theorem passes_of_same (h : t.outbound = s.outbound) : Passes e s t := by
  obtain ⟨_, _, _, _, hhist⟩ := outbound_ext h
  refine ⟨fun _ _ hs => hs.congr h, by rw [hhist], fun ha => by rw [hhist]; exact ha⟩

theorem Passes.trans (h : Passes e s t) (h' : Passes e t u) : Passes e s u := by
  refine ⟨fun he hu hs => h'.queued he hu (h.queued he ?_ hs), ?_,
    fun ha => h'.aborted (h.aborted ha)⟩
  · by_contra ht
    rw [Bool.not_eq_false] at ht
    rw [h'.aborted ht] at hu
    cases hu
  · rw [h'.history, h.history]

theorem retransmit_passes (s : PacketEngine F) (e : Env F) :
    Passes e s (s.retransmit fl e).1 ∧
      ((s.retransmit fl e).1.sendBuf.map OutSeg.core).Sublist (s.sendBuf.map OutSeg.core) := by
  obtain ⟨hsame, hok⟩ := outbound_resendAll
    { s with sendBuf := (s.sweep fl e.now s.sendBuf none).segs } e 0
    (s.sweep fl e.now s.sendBuf none).resend
  obtain ⟨hnext, hqueue, hbuf, hcubic, hhist⟩ := outbound_ext hsame
  dsimp only at hnext hqueue hbuf hcubic hhist
  have hkeep : ∀ q : PacketEngine F, q.nextSend = s.nextSend → q.sendQueue = s.sendQueue →
      q.sendBuf = (s.sweep fl e.now s.sendBuf none).segs → q.history = s.history →
      Passes e s q ∧ (q.sendBuf.map OutSeg.core).Sublist (s.sendBuf.map OutSeg.core) := by
    intro q hn hq hb hh
    have hcore : q.sendBuf.map OutSeg.core = s.sendBuf.map OutSeg.core := by
      rw [hb, sweep_core]
    refine ⟨⟨fun _ _ hs => hs.rebuffer hn hq hh hcore ?_, by rw [hh],
      fun ha => by rw [hh]; exact ha⟩, by rw [hcore]⟩
    rw [hb]
    exact sweep_counts fl s e.now (fun seg hseg => hs.counts seg (List.mem_append_left _ hseg)) none
  unfold retransmit
  dsimp only
  split_ifs with hdue hfatal htimeout hloss
  · refine ⟨⟨fun he hab => ?_, by rw [hhist], fun ha => by rw [hhist, ha]; rfl⟩, List.nil_sublist _⟩
    exfalso
    dsimp only at hab
    rw [Bool.or_eq_false_iff] at hab
    rcases hfatal with hlimit | hrefused
    · rw [hab.2] at hlimit
      cases hlimit
    · rw [hok he] at hrefused
      cases hrefused
  · exact hkeep _ hnext hqueue hbuf hhist
  · exact hkeep _ hnext hqueue hbuf hhist
  · exact hkeep _ hnext hqueue hbuf hhist
  · exact ⟨passes_of_same rfl, List.Sublist.refl _⟩

/-! ## First transmission -/

/-- The most that the buffer holds after a first transmission. -/
def bufLimit (s : PacketEngine F) : Nat := min s.cubic.congestionWindowSize.toNat 4095

theorem holdsBack_room {seg : OutSeg} {total : Nat} (h : s.holdsBack seg total = false) :
    s.sendBuf.length + 1 ≤ s.bufLimit := by
  unfold holdsBack sendWindowSize at h
  simp only [Bool.or_eq_false_iff, decide_eq_false_iff_not] at h
  obtain ⟨⟨⟨hwindow, hfull⟩, _⟩, _⟩ := h
  have hcap : segmentTreeCapacity = 4096 := rfl
  have hmod : s.sendBuf.length % 2 ^ 32 = s.sendBuf.length := Nat.mod_eq_of_lt (by omega)
  rw [hmod] at hwindow
  unfold bufLimit
  omega

/-- A segment goes from the queue to the buffer. -/
theorem transmitted_passes {seg : OutSeg} {rest : List OutSeg} (hqueue : s.sendQueue = seg :: rest)
    (hu : u.outbound = (s.popSeg e (s.firstTx fl e seg) rest).outbound) :
    Passes e s { u with sendBuf := u.sendBuf ++ [s.firstTx fl e seg] } := by
  obtain ⟨hnext, hrest, hbuf, _, hhist⟩ := outbound_ext hu
  have hpop : (s.popSeg e (s.firstTx fl e seg) rest).sendBuf = s.sendBuf := rfl
  have hpop' : (s.popSeg e (s.firstTx fl e seg) rest).sendQueue = rest := rfl
  have hhist' : u.history = s.history := hhist
  have hlists : (u.sendBuf ++ [s.firstTx fl e seg]) ++ u.sendQueue =
      s.sendBuf ++ s.firstTx fl e seg :: rest := by
    rw [hbuf, hrest, hpop, hpop', List.append_assoc, List.singleton_append]
  refine ⟨fun _ _ hs => ⟨hnext.trans ?_, ?_, ?_, ?_, ?_⟩, ?_, ?_⟩
  · dsimp only
    rw [hhist']
    exact hs.next
  · dsimp only
    rw [hhist']
    exact hs.numbered
  · dsimp only
    rw [hhist']
    exact hs.reached
  · dsimp only
    rw [hlists, hhist', ← hs.unacked, hqueue, List.map_append, List.map_append]
    rfl
  · intro q hq
    dsimp only at hq
    rw [hlists] at hq
    rcases List.mem_append.mp hq with hin | hin
    · exact hs.counts q (List.mem_append_left _ hin)
    · rcases List.mem_cons.mp hin with rfl | hin
      · exact (by decide : (1 : UInt32) ≤ txCountLimit)
      · refine hs.counts q (List.mem_append_right _ ?_)
        rw [hqueue]
        exact List.mem_cons_of_mem _ hin
  · dsimp only
    rw [hhist']
  · dsimp only
    rw [hhist']
    exact id

/-- The loop over the queue, with what bounds the buffer. -/
structure Transmits (e : Env F) (s t : PacketEngine F) : Prop where
  passes : Passes e s t
  cubic : t.cubic = s.cubic
  room : t.sendBuf = s.sendBuf ∨ t.sendBuf.length ≤ t.bufLimit

theorem transmit_transmits (e : Env F) (n : Nat) (s : PacketEngine F) (total : Nat) :
    Transmits e s (transmit fl e n s total).1 := by
  induction n generalizing s total with
  | zero => exact ⟨passes_of_same rfl, rfl, Or.inl rfl⟩
  | succ n ih =>
    unfold transmit
    cases hqueue : s.sendQueue with
    | nil => exact ⟨passes_of_same rfl, rfl, Or.inl rfl⟩
    | cons seg rest =>
      dsimp only
      by_cases hback : s.holdsBack seg total = true
      · rw [if_pos hback]
        exact ⟨passes_of_same rfl, rfl, Or.inl rfl⟩
      rw [if_neg hback]
      have hsend := outbound_sendSeg (s.popSeg e (s.firstTx fl e seg) rest) e (s.firstTx fl e seg)
      have hok := fun he => sendSeg_ok (e := e) he (s.popSeg e (s.firstTx fl e seg) rest)
        (s.firstTx fl e seg)
      cases hout : (s.popSeg e (s.firstTx fl e seg) rest).sendSeg e (s.firstTx fl e seg) with
      | mk u ok =>
        rw [hout] at hsend hok
        obtain ⟨_, _, hbuf, hcubic, hhist⟩ := outbound_ext hsend
        have hbuf' : u.sendBuf = s.sendBuf := hbuf
        have hhist' : u.history = s.history := hhist
        cases ok with
        | false =>
          refine ⟨⟨fun he => ?_, ?_, ?_⟩, hcubic, Or.inl hbuf'⟩
          · cases hok he
          · dsimp only
            rw [hhist']
          · dsimp only
            rw [hhist']
            exact id
        | true =>
          dsimp only
          have hstep := transmitted_passes fl hqueue hsend
          have hrest := ih { u with sendBuf := u.sendBuf ++ [s.firstTx fl e seg] } (total + 1)
          refine ⟨hstep.trans hrest.passes, hrest.cubic.trans hcubic, Or.inr ?_⟩
          rcases hrest.room with hsame | hle
          · have hroom := holdsBack_room (Bool.eq_false_iff.mpr hback)
            have hlimit : (transmit fl e n { u with sendBuf := u.sendBuf ++ [s.firstTx fl e seg] }
                (total + 1)).1.bufLimit = s.bufLimit := by
              unfold bufLimit
              rw [hrest.cubic]
              exact congrArg (fun c : Cubic F => min c.congestionWindowSize.toNat 4095) hcubic
            rw [hsame, hlimit]
            dsimp only
            rw [hbuf', List.length_append, List.length_singleton]
            exact hroom
          · exact hle

theorem outbound_acknowledge (s : PacketEngine F) (e : Env F) :
    (s.acknowledge e).outbound = s.outbound := by
  unfold acknowledge
  dsimp only
  split_ifs <;> rfl

/-- A turn's output: whoever is new in the buffer found room there. -/
structure Sends (e : Env F) (s t : PacketEngine F) : Prop where
  passes : Passes e s t
  room : (t.sendBuf.map OutSeg.core).Sublist (s.sendBuf.map OutSeg.core) ∨
    t.sendBuf.length ≤ t.bufLimit

theorem Sends.congr (h : Sends e s t) (hu : u.outbound = t.outbound) : Sends e s u := by
  obtain ⟨_, _, hbuf, hcubic, _⟩ := outbound_ext hu
  refine ⟨h.passes.trans (passes_of_same hu), ?_⟩
  unfold bufLimit
  rw [hbuf, hcubic]
  exact h.room

theorem runOutput_sends (s : PacketEngine F) (e : Env F) :
    Sends e s (s.runOutputOncePacket fl e) := by
  obtain ⟨hretx, hsub⟩ := retransmit_passes fl s e
  unfold runOutputOncePacket
  cases hout : s.retransmit fl e with
  | mk t total =>
    rw [hout] at hretx hsub
    cases total with
    | none => exact ⟨hretx, Or.inl hsub⟩
    | some total =>
      dsimp only at hretx hsub ⊢
      have htx := transmit_transmits fl e t.sendQueue.length t total
      have hsends : Sends e s (transmit fl e t.sendQueue.length t total).1 := by
        refine ⟨hretx.trans htx.passes, htx.room.imp (fun hsame => ?_) id⟩
        rw [hsame]
        exact hsub
      cases hout' : transmit fl e t.sendQueue.length t total with
      | mk u ok =>
        rw [hout'] at hsends
        cases ok with
        | false => exact hsends
        | true => exact hsends.congr (outbound_acknowledge u e)

theorem finishTurn_sends (s : PacketEngine F) (e : Env F) : Sends e s (s.finishTurn fl e) :=
  (runOutput_sends fl s e).congr rfl

/-! ## Acknowledgement -/

/-- Segments numbered from `a`, and those below `u` in front. -/
theorem dropWhile_below {a : Nat}
    (hseq : segs.map OutSeg.seq = (List.range' a segs.length).map UInt32.ofNat)
    (hfit : a + segs.length ≤ 2 ^ 32) (u : UInt32) :
    segs.dropWhile (fun seg => decide (seg.seq < u)) = segs.drop (u.toNat - a) := by
  induction segs generalizing a with
  | nil => rw [List.dropWhile_nil, List.drop_nil]
  | cons seg segs ih =>
    rw [List.length_cons, List.range'_succ, List.map_cons, List.map_cons] at hseq
    rw [List.length_cons] at hfit
    obtain ⟨hhead, htail⟩ := List.cons.inj hseq
    have hnum : seg.seq.toNat = a := by
      have hsize : UInt32.size = 2 ^ 32 := rfl
      rw [hhead]
      exact UInt32.toNat_ofNat_of_lt' (by omega)
    rw [List.dropWhile_cons]
    simp only [decide_eq_true_eq]
    split_ifs with hlt
    · rw [UInt32.lt_iff_toNat_lt, hnum] at hlt
      rw [ih htail (by omega), show u.toNat - a = (u.toNat - (a + 1)) + 1 by omega,
        List.drop_succ_cons]
    · rw [UInt32.lt_iff_toNat_lt, hnum] at hlt
      rw [show u.toNat - a = 0 by omega, List.drop_zero]

/-- What is not acknowledged is numbered from `acked`. -/
theorem Queued.seqs (h : Queued s) : (s.sendBuf ++ s.sendQueue).map OutSeg.seq =
    (List.range' s.history.acked (s.sendBuf.length + s.sendQueue.length)).map UInt32.ofNat := by
  have hlen := h.length
  calc (s.sendBuf ++ s.sendQueue).map OutSeg.seq
      = ((s.sendBuf ++ s.sendQueue).map OutSeg.core).map Core.seq := by
        rw [List.map_map]
        rfl
    _ = (s.history.made.map Core.seq).drop s.history.acked := by
        rw [h.unacked, List.map_drop]
    _ = ((List.range s.history.made.length).drop s.history.acked).map UInt32.ofNat := by
        rw [h.numbered, List.map_drop]
    _ = (List.range' s.history.acked (s.sendBuf.length + s.sendQueue.length)).map
          UInt32.ofNat := by
        rw [List.range_eq_range', List.drop_range', ← hlen]
        congr 2 <;> omega

theorem Queued.buf_seqs (h : Queued s) : s.sendBuf.map OutSeg.seq =
    (List.range' s.history.acked s.sendBuf.length).map UInt32.ofNat := by
  have hseqs := congrArg (List.take s.sendBuf.length) h.seqs
  rw [List.map_append, List.take_left' (List.length_map _), ← List.range'_append_1, ← List.map_take,
    List.take_left' List.length_range'] at hseqs
  exact hseqs

theorem outbound_pruneFor (e : Env F) (u : UInt32) (segs : List OutSeg) (s : PacketEngine F) :
    (pruneFor fl e u segs s).sendBuf = segs.dropWhile (fun seg => decide (seg.seq < u)) ∧
      (pruneFor fl e u segs s).nextSend = s.nextSend ∧
      (pruneFor fl e u segs s).sendQueue = s.sendQueue ∧
      (pruneFor fl e u segs s).history = s.history := by
  induction segs generalizing s with
  | nil => exact ⟨rfl, rfl, rfl, rfl⟩
  | cons seg segs ih =>
    unfold pruneFor
    rw [List.dropWhile_cons]
    simp only [decide_eq_true_eq]
    split_ifs
    · exact ih _
    · exact ⟨rfl, rfl, rfl, rfl⟩

theorem Queued.pruned (h : Queued s) {u : UInt32} (hfit : s.history.made.length ≤ 2 ^ 32)
    (hreached : u.toNat ≤ s.history.made.length - s.sendQueue.length)
    (hbuf : t.sendBuf = s.sendBuf.dropWhile (fun seg => decide (seg.seq < u)))
    (hnext : t.nextSend = s.nextSend) (hqueue : t.sendQueue = s.sendQueue)
    (hhist : t.history = { s.history with acked := max s.history.acked u.toNat }) : Queued t := by
  have hlen := h.length
  rw [dropWhile_below h.buf_seqs (by omega)] at hbuf
  constructor
  · rw [hnext, hhist]
    exact h.next
  · rw [hhist]
    exact h.numbered
  · rw [hhist]
    dsimp only
    omega
  · rw [hbuf, hqueue, hhist, ← List.drop_append_of_le_length (by omega), List.map_drop, h.unacked,
      List.drop_drop]
    dsimp only
    congr 1
    omega
  · intro seg hseg
    rw [hbuf, hqueue] at hseg
    apply h.counts
    rcases List.mem_append.mp hseg with hin | hin
    · exact List.mem_append_left _ (List.mem_of_mem_drop hin)
    · exact List.mem_append_right _ hin

theorem takeAck_moves (s : PacketEngine F) (e : Env F) (m : InboundMeta) :
    Moves (some m.unAck) s (s.takeAck fl e m) := by
  obtain ⟨hbuf, hnext, hqueue, hhist⟩ := outbound_pruneFor fl e m.unAck s.sendBuf
    { s with history := { s.history with acked := max s.history.acked m.unAck.toNat } }
  have hhist' : (s.takeAck fl e m).history =
      { s.history with acked := max s.history.acked m.unAck.toNat } := hhist
  have hbuf' : (s.takeAck fl e m).sendBuf =
      s.sendBuf.dropWhile (fun seg => decide (seg.seq < m.unAck)) := hbuf
  refine ⟨fun hreached hfit _ hs => ?_, fun hs => ?_, ?_, Or.inr ⟨m.unAck, rfl, ?_⟩, fun hlost => ?_,
    ?_⟩
  · exact hs.pruned hfit (hreached m.unAck rfl) hbuf' hnext hqueue hhist'
  · unfold Whole madeBytes at hs ⊢
    rw [hhist']
    exact hs
  · rw [hhist']
  · rw [hhist']
  · unfold Lost at hlost ⊢
    rw [hhist']
    exact hlost
  · rw [hbuf']
    exact (List.dropWhile_sublist _).map _

theorem countAck_core (u : UInt32) (segs : List OutSeg) :
    (countAck u segs).map OutSeg.core = segs.map OutSeg.core := by
  induction segs with
  | nil => rfl
  | cons seg segs ih =>
    unfold countAck
    split_ifs
    · rfl
    · rw [List.map_cons, ih, List.map_cons]
      rfl
    · rw [List.map_cons, ih, List.map_cons]

theorem countAck_counts (u : UInt32) (h : ∀ seg ∈ segs, seg.txCount ≤ txCountLimit) :
    ∀ seg ∈ countAck u segs, seg.txCount ≤ txCountLimit := by
  induction segs with
  | nil => exact nofun
  | cons seg segs ih =>
    have hrest := ih fun q hq => h q (List.mem_cons_of_mem _ hq)
    unfold countAck
    split_ifs
    · exact h
    · intro q hq
      rcases List.mem_cons.mp hq with rfl | hq
      · exact h seg List.mem_cons_self
      · exact hrest q hq
    · intro q hq
      rcases List.mem_cons.mp hq with rfl | hq
      · exact h q List.mem_cons_self
      · exact hrest q hq

theorem Moves.countAck {u : Option UInt32} (h : Moves u s t) (v : UInt32) :
    Moves u s { t with sendBuf := PacketEngine.countAck v t.sendBuf } := by
  refine ⟨fun hreached hfit hlost hs => ?_, h.whole, h.made, h.acked, h.lost, ?_⟩
  · have ht := h.queued hreached hfit hlost hs
    exact ht.rebuffer rfl rfl rfl (countAck_core v t.sendBuf)
      (countAck_counts v fun seg hseg => ht.counts seg (List.mem_append_left _ hseg))
  · rw [countAck_core]
    exact h.kept

/-! ## A datagram -/

theorem outbound_deliverFor (n : Nat) (room : Option Nat) (s : PacketEngine F) :
    (deliverFor n room s).outbound = s.outbound := by
  induction n generalizing room s with
  | zero => rfl
  | succ n ih =>
    unfold deliverFor
    cases s.recvBuf.lookup s.nextRecv with
    | none => rfl
    | some payload =>
      dsimp only
      split_ifs
      · exact ih room _
      · unfold writeAll
        cases room with
        | none => exact ih none _
        | some k =>
          dsimp only
          split_ifs
          · exact ih (some (k - payload.length)) _
          · rfl

theorem outbound_requestAck (s : PacketEngine F) (now : Nat) :
    (s.requestAck now).outbound = s.outbound := by
  unfold requestAck
  split_ifs <;> rfl

theorem outbound_takeSegment (s : PacketEngine F) (e : Env F) (m : InboundMeta) (payload : Bytes) :
    (s.takeSegment e m payload).outbound = s.outbound := by
  have hdeliver := fun q : PacketEngine F => outbound_deliverFor q.recvBuf.keys.length e.room q
  unfold takeSegment
  split_ifs
  · rfl
  · exact (outbound_requestAck _ e.now).trans (hdeliver _)
  · exact (outbound_requestAck _ e.now).trans (hdeliver _)

theorem outbound_ingestData (s : PacketEngine F) (e : Env F) (m : InboundMeta)
    (nonce : ByteVec 24) (rest : Bytes) :
    (s.ingestData e m nonce rest).outbound = s.outbound := by
  unfold ingestData
  cases s.openPayload m nonce rest with
  | none => rfl
  | some payload => exact outbound_takeSegment s e m payload

theorem Moves.congr {u : Option UInt32} (h : Moves u s t) (hr : r.outbound = t.outbound) :
    Moves u s r := by
  have hw := writes_of_same hr
  refine ⟨fun hreached hfit hlost hs => ?_, fun hs => ?_, h.made.trans hw.made, ?_, fun hs => ?_, ?_⟩
  · exact hw.queued (h.queued hreached hfit (fun ht => hlost (hw.lost.mpr ht)) hs)
  · exact (moves_of_same none hr).whole (h.whole hs)
  · rw [hw.acked]
    exact h.acked
  · exact hw.lost.mpr (h.lost hs)
  · rw [hw.sendBuf]
    exact h.kept

/-- The peer's end of the session. -/
theorem moves_of_closed (u : Option UInt32)
    (h : t.history = { s.history with peerClosed := true }) (hbuf : t.sendBuf = []) :
    Moves u s t := by
  have hlost : t.Lost := Or.inr (by rw [h])
  refine ⟨fun _ _ hnot => absurd hlost hnot, fun hs => ?_, ?_, Or.inl ?_, fun _ => hlost, ?_⟩
  · unfold Whole madeBytes at hs ⊢
    rw [h]
    exact hs
  · rw [h]
  · rw [h]
  · rw [hbuf]
    exact List.nil_sublist _

/-- The acknowledgement of a datagram that is not dropped for its length. -/
def ackIn (m : InboundMeta) (rest : Bytes) : Option UInt32 :=
  if m.protocol = ackServerToClient then some m.unAck
  else if m.protocol = dataServerToClient ∧ m.prefixLen.toNat ≤ rest.length then some m.unAck
  else none

theorem ingest_moves (s : PacketEngine F) (e : Env F) (m : InboundMeta) (nonce : ByteVec 24)
    (rest : Bytes) : Moves (ackIn m rest) s (s.ingest fl e m nonce rest) := by
  have hack := takeAck_moves fl s e m
  unfold ingest
  by_cases hopen : m.protocol = openSessionResponse
  · rw [if_pos hopen]
    exact moves_of_same _ (outbound_ingestData s e m nonce rest)
  rw [if_neg hopen]
  by_cases hdata : m.protocol = dataServerToClient
  · have hnot : m.protocol ≠ ackServerToClient := by
      rw [hdata]
      decide
    rw [if_pos hdata]
    by_cases hshort : rest.length < m.prefixLen.toNat
    · rw [if_pos hshort]
      exact moves_of_same _ rfl
    · have hin : ackIn m rest = some m.unAck := by
        unfold ackIn
        rw [if_neg hnot, if_pos ⟨hdata, by omega⟩]
      rw [if_neg hshort, hin]
      exact hack.congr (outbound_ingestData _ e m nonce _)
  rw [if_neg hdata]
  by_cases hacks : m.protocol = ackServerToClient
  · have hin : ackIn m rest = some m.unAck := by
      unfold ackIn
      rw [if_pos hacks]
    rw [if_pos hacks, hin]
    exact hack.countAck m.unAck
  rw [if_neg hacks]
  split_ifs
  · exact moves_of_closed _ rfl rfl
  · exact moves_of_closed _ rfl rfl
  · exact moves_of_same _ rfl
  · exact moves_of_closed _ rfl rfl
  · exact moves_of_same _ rfl

/-! ## One step -/

theorem Moves.from_same {u : Option UInt32} (h : Moves u r t) (hr : r.outbound = s.outbound) :
    Moves u s t := by
  have hw := writes_of_same hr
  obtain ⟨_, hqueue, hbuf, _, hhist⟩ := outbound_ext hr
  refine ⟨fun hreached hfit hlost hs => ?_, fun hs => h.whole ((moves_of_same none hr).whole hs),
    hw.made.trans h.made, ?_, fun hs => h.lost (hw.lost.mpr hs), ?_⟩
  · rw [← hqueue, ← hhist] at hreached
    rw [← hhist] at hfit
    exact h.queued hreached hfit hlost (hw.queued hs)
  · rw [← hhist]
    exact h.acked
  · rw [← hbuf]
    exact h.kept

theorem Passes.lost (h : Passes e s t) (hs : s.Lost) : t.Lost := by
  unfold Lost at hs ⊢
  rw [h.history]
  exact hs.imp h.aborted id

/-- The acknowledgement of a step. -/
def ackOf (s : PacketEngine F) (a : Env F × EngineEvent) : Option UInt32 :=
  match s.arriving a with
  | none => none
  | some (m, _, rest) => ackIn m rest

/-- The socket takes every datagram, and the peer has what it acknowledges. -/
structure Fair (s : PacketEngine F) (a : Env F × EngineEvent) : Prop where
  takes : SocketTakes a.1
  reached : ∀ u, s.ackOf a = some u → u.toNat ≤ s.history.made.length - s.sendQueue.length

/-- A whole turn. -/
structure Turns (a : Env F × EngineEvent) (s t : PacketEngine F) : Prop where
  queued : s.Fair a → s.history.made.length ≤ 2 ^ 32 → ¬ t.Lost → Queued s → Queued t
  whole : Whole s → Whole t
  made : s.history.made <+: t.history.made
  acked : t.history.acked = s.history.acked ∨
    ∃ u, s.ackOf a = some u ∧ t.history.acked = max s.history.acked u.toNat
  lost : s.Lost → t.Lost
  room : (t.sendBuf.map OutSeg.core).Sublist (s.sendBuf.map OutSeg.core) ∨
    t.sendBuf.length ≤ t.bufLimit

theorem Moves.turns (h : Moves (s.ackOf a) s t) (h' : Sends a.1 t r) : Turns a s r := by
  have hpass := h'.passes
  have hlost : t.Lost → r.Lost := hpass.lost
  refine ⟨fun hfair hfit hr hs => ?_, fun hs => ?_, ?_, ?_, fun hs => hlost (h.lost hs), ?_⟩
  · have ht := h.queued hfair.reached hfit (fun ht => hr (hlost ht)) hs
    exact hpass.queued hfair.takes (Bool.eq_false_iff.mpr fun hab => hr (Or.inl hab)) ht
  · have ht := h.whole hs
    unfold Whole madeBytes at ht ⊢
    rw [hpass.history]
    exact ht
  · rw [hpass.history]
    exact h.made
  · rw [hpass.history]
    exact h.acked
  · exact h'.room.imp (fun hsub => hsub.trans h.kept) id

theorem turns_of_same (h : t.outbound = s.outbound) : Turns a s t := by
  have hm := moves_of_same (s.ackOf a) h
  refine ⟨fun hfair hfit ht hs => hm.queued hfair.reached hfit ht hs, hm.whole, hm.made, hm.acked,
    hm.lost, Or.inl hm.kept⟩

theorem step_turns (s : PacketEngine F) (a : Env F × EngineEvent) : Turns a s (s.step fl a) := by
  obtain ⟨e, ev⟩ := a
  have hfinish := fun q : PacketEngine F => finishTurn_sends fl q e
  unfold step
  dsimp only
  by_cases hs : s.ended = true
  · rw [if_pos hs]
    exact turns_of_same rfl
  rw [if_neg hs]
  cases ev with
  | app bytes =>
    have hmove : Moves (s.ackOf (e, .app bytes)) s (s.sessionWrite e.now bytes) :=
      sessionWrite_moves s e.now bytes
    dsimp only
    split_ifs
    · exact turns_of_same rfl
    · exact hmove.turns (hfinish _)
  | appEof =>
    have hmove : Moves (s.ackOf (e, .appEof)) s
        ({ s with appEof := true : PacketEngine F }.queueClose e.now) :=
      (queueClose_moves _ e.now).from_same rfl
    dsimp only
    split_ifs
    · exact turns_of_same rfl
    · exact hmove.turns (hfinish _)
  | dgram bytes =>
    have hkey : (s.heard e).key = s.key := rfl
    have hsid : (s.heard e).sessionId = s.sessionId := rfl
    have hmove : Moves (s.ackOf (e, .dgram bytes)) s (s.onDatagram fl e bytes) := by
      unfold ackOf arriving onDatagram
      dsimp only
      rw [hkey, hsid]
      cases parseDatagramWith s.key e.minutes bytes with
      | none => exact moves_of_same none rfl
      | some x =>
        obtain ⟨m, nonce⟩ := x
        dsimp only
        split_ifs
        · exact (ingest_moves fl (s.heard e) e m nonce _).from_same rfl
        · exact moves_of_same none rfl
    exact hmove.turns (hfinish _)
  | demuxed m nonce rest =>
    have hmove : Moves (s.ackOf (e, .demuxed m nonce rest)) s
        ((s.heard e).ingest fl e m nonce rest) :=
      (ingest_moves fl (s.heard e) e m nonce rest).from_same rfl
    exact hmove.turns (hfinish _)
  | sockErr => exact turns_of_same rfl
  | timer =>
    have hmove : Moves (s.ackOf (e, .timer)) s s := moves_of_same none rfl
    exact hmove.turns (hfinish s)

/-! ## Runs -/

/-- Each accepted byte is in one segment, and the segments that are not acknowledged are in the
    buffer and behind it in the queue. -/
structure SendSound (s : PacketEngine F) : Prop where
  whole : (s.history.made.map Core.payload).flatten = s.history.accepted
  numbered : s.history.made.map (fun c => c.seq.toNat) = List.range s.history.made.length
  unacked : (s.sendBuf ++ s.sendQueue).map OutSeg.core = s.history.made.drop s.history.acked
  consecutive : (s.sendBuf ++ s.sendQueue).map (fun seg => seg.seq.toNat) =
    List.range' s.history.acked (s.sendBuf ++ s.sendQueue).length
  counts : ∀ seg ∈ s.sendBuf ++ s.sendQueue, seg.txCount ≤ 20

/-- What leaves is below the acknowledgement, and who is new in the buffer found room there. -/
structure TurnSound (s : PacketEngine F) (a : Env F × EngineEvent) (t : PacketEngine F) :
    Prop where
  leaves : ∀ c ∈ (s.sendBuf ++ s.sendQueue).map OutSeg.core,
    c ∉ (t.sendBuf ++ t.sendQueue).map OutSeg.core → ∃ u, s.ackOf a = some u ∧ c.seq < u
  room : (t.sendBuf.map OutSeg.core).Sublist (s.sendBuf.map OutSeg.core) ∨
    t.sendBuf.length ≤ min t.cubic.congestionWindowSize.toNat 4095

theorem map_toNat_ofNat {ns : List Nat} (h : ∀ n ∈ ns, n < 2 ^ 32) :
    (ns.map UInt32.ofNat).map UInt32.toNat = ns := by
  have hsize : UInt32.size = 2 ^ 32 := rfl
  rw [List.map_map]
  refine (List.map_congr_left fun n hn => ?_).trans (List.map_id ns)
  exact UInt32.toNat_ofNat_of_lt' (by rw [hsize]; exact h n hn)

theorem Queued.numbers (h : Queued s) (hfit : s.history.made.length ≤ 2 ^ 32) :
    s.history.made.map (fun c => c.seq.toNat) = List.range s.history.made.length := by
  have hnum := congrArg (List.map UInt32.toNat) h.numbered
  rw [map_toNat_ofNat (fun n hn => Nat.lt_of_lt_of_le (List.mem_range.mp hn) hfit),
    List.map_map] at hnum
  exact hnum

theorem Queued.sound (h : Queued s) (hwhole : Whole s) (hfit : s.history.made.length ≤ 2 ^ 32) :
    SendSound s := by
  have hlen := h.length
  refine ⟨hwhole, h.numbers hfit, h.unacked, ?_, h.counts⟩
  have hseqs := congrArg (List.map UInt32.toNat) h.seqs
  rw [map_toNat_ofNat, List.map_map] at hseqs
  · rw [List.length_append]
    exact hseqs
  · intro n hn
    have := (List.mem_range'_1.mp hn).2
    omega

theorem Turns.sound (h : Turns a s t) (hs : Queued s) (ht : Queued t)
    (hfit : s.history.made.length ≤ 2 ^ 32) : TurnSound s a t := by
  refine ⟨fun c hc hnot => ?_, h.room⟩
  rw [hs.unacked] at hc
  rw [ht.unacked] at hnot
  obtain ⟨i, hi, hci⟩ := List.getElem_of_mem hc
  rw [List.length_drop] at hi
  rw [List.getElem_drop] at hci
  have hnum : c.seq.toNat = s.history.acked + i := by
    have hget := congrArg (·[s.history.acked + i]?) (hs.numbers hfit)
    simp only [List.getElem?_map] at hget
    rw [List.getElem?_eq_getElem (by omega), hci, List.getElem?_range (by omega)] at hget
    exact Option.some.inj hget
  have hbelow : s.history.acked + i < t.history.acked := by
    by_contra hle
    apply hnot
    obtain ⟨new, hnew⟩ := h.made
    rw [← hnew, List.mem_iff_getElem?]
    refine ⟨s.history.acked + i - t.history.acked, ?_⟩
    rw [List.getElem?_drop, Nat.add_sub_cancel' (by omega), List.getElem?_append_left (by omega),
      List.getElem?_eq_getElem (by omega), hci]
  rcases h.acked with hsame | ⟨u, hu, hmax⟩
  · omega
  · refine ⟨u, hu, UInt32.lt_iff_toNat_lt.mpr ?_⟩
    omega

theorem new_queued (key : ByteVec 32) (sessionId : UInt32) (e : Env F) :
    Queued (new key sessionId e) := ⟨rfl, rfl, Nat.le_refl _, rfl, nofun⟩

/-- While the socket takes what it is given and the numbers last, no byte and no segment is lost
    before its acknowledgement, however the network and the timers go. -/
theorem send_complete (fl : Floats F) (key : ByteVec 32) (sessionId : UInt32) (e : Env F)
    (run : List (Env F × EngineEvent))
    (hfair : ∀ x ∈ Machine.steps (step fl) (new key sessionId e) run, x.1.Fair x.2)
    (hfit : ∀ t ∈ Machine.states (step fl) (new key sessionId e) run,
      t.history.made.length ≤ 2 ^ 32) :
    (∀ t ∈ Machine.states (step fl) (new key sessionId e) run, ¬ t.Lost → SendSound t) ∧
      ∀ x ∈ Machine.steps (step fl) (new key sessionId e) run, ¬ (x.1.step fl x.2).Lost →
        TurnSound x.1 x.2 (x.1.step fl x.2) := by
  have hstart : Whole (new key sessionId e) ∧ (¬ (new key sessionId e).Lost →
      Queued (new key sessionId e)) := ⟨rfl, fun _ => new_queued key sessionId e⟩
  have hinv : ∀ t ∈ Machine.states (step fl) (new key sessionId e) run,
      Whole t ∧ (¬ t.Lost → Queued t) := by
    refine Machine.inv_of_good (fun t : PacketEngine F => Whole t ∧ (¬ t.Lost → Queued t))
      (fun s a => s.Fair a ∧ s.history.made.length ≤ 2 ^ 32) (fun s a hs ha => ?_) hstart
      fun x hx => ⟨hfair x hx, hfit x.1 (Machine.steps_mem_states hx)⟩
    have hturn := step_turns fl s a
    exact ⟨hturn.whole hs.1, fun hlost =>
      hturn.queued ha.1 ha.2 hlost (hs.2 fun h => hlost (hturn.lost h))⟩
  refine ⟨fun t ht hlost => ?_, fun x hx hlost => ?_⟩
  · obtain ⟨hwhole, hqueued⟩ := hinv t ht
    exact (hqueued hlost).sound hwhole (hfit t ht)
  · have hmem := Machine.steps_mem_states hx
    have hturn := step_turns fl x.1 x.2
    have hs := (hinv x.1 hmem).2 fun h => hlost (hturn.lost h)
    exact hturn.sound hs (hturn.queued (hfair x hx) (hfit x.1 hmem) hlost hs) (hfit x.1 hmem)

/-! ### One byte -/

theorem send_complete_sample :
    SendSound (sample.step exactFloats (calm, .app [7])) ∧
      (sample.step exactFloats (calm, .app [7])).sendBuf.length = 1 := by
  have hmade : (sample.step exactFloats (calm, .app [7])).history.made.length = 1 := by
    decide +kernel
  have hlost : ¬ (sample.step exactFloats (calm, .app [7])).Lost := by
    rintro (h | h)
    · revert h
      decide +kernel
    · revert h
      decide +kernel
  have hall := send_complete exactFloats (ByteVec.zero 32) 1 calm [(calm, .app [7])]
    (fun x hx => by
      rw [List.mem_singleton.mp hx]
      exact ⟨fun _ => rfl, nofun⟩)
    (fun t ht => by
      rcases List.mem_cons.mp ht with rfl | ht
      · exact Nat.zero_le _
      · rw [List.mem_singleton.mp ht]
        exact Nat.le_trans (Nat.le_of_eq hmade) (by decide))
  exact ⟨hall.1 _ (Machine.step_mem_states _ _) hlost, by decide +kernel⟩

/-- The socket refuses the first transmission. -/
def refusing : Env Unit := { calm with accepts := fun _ => false }

/-- The segment has left the queue and is not in the buffer. -/
theorem refused_lost :
    (∀ u, sample.ackOf (refusing, .app [7]) = some u →
      u.toNat ≤ sample.history.made.length - sample.sendQueue.length) ∧
    ¬ (sample.step exactFloats (refusing, .app [7])).Lost ∧
    ¬ SendSound (sample.step exactFloats (refusing, .app [7])) := by
  refine ⟨nofun, ?_, fun h => ?_⟩
  · rintro (h | h)
    · revert h
      decide +kernel
    · revert h
      decide +kernel
  · have hlen := congrArg List.length h.unacked
    revert hlen
    decide +kernel

end PacketEngine

end RustCrash.Mieru
