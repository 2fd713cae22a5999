import RustCrash.Lib.Maps
import RustCrash.Lib.Machine
import RustCrash.Mieru.Engine

/-
  The receive side of `PacketEngine`: the reorder map and what goes to the application.

  Only a data segment that opens changes it (`step_inbound`). As long as the application reads,
  what has been written to it are the segments below `next_recv`, in order and each once
  (`InOrder`), however datagrams are lost, repeated and reordered.

  A segment that has been delivered and comes again is put into the map like any other, and
  nothing takes it out.
-/

namespace RustCrash.Mieru

open Lib

namespace PacketEngine

variable {F : Type} (fl : Floats F)

/-- What the receive side is made of. -/
structure Inbound where
  key : ByteVec 32
  sessionId : UInt32
  app : Bytes
  nextRecv : UInt32
  recvBuf : AList fun _ : UInt32 => Bytes

def inbound (s : PacketEngine F) : Inbound :=
  ⟨s.key, s.sessionId, s.app, s.nextRecv, s.recvBuf⟩

/-! ## What leaves it alone -/

theorem inbound_pushFragments (s : PacketEngine F) (now n idx : Nat) (parts : List Bytes) :
    (s.pushFragments now n idx parts).inbound = s.inbound := by
  induction parts generalizing s idx with
  | nil => rfl
  | cons part parts ih =>
    unfold pushFragments
    rw [ih]
    rfl

theorem inbound_pushChunks (s : PacketEngine F) (now : Nat) (cs : List Bytes) :
    (s.pushChunks now cs).inbound = s.inbound := by
  induction cs generalizing s with
  | nil => rfl
  | cons c cs ih =>
    unfold pushChunks
    rw [ih, inbound_pushFragments]

theorem inbound_sessionWrite (s : PacketEngine F) (now : Nat) (b : Bytes) :
    (s.sessionWrite now b).inbound = s.inbound := by
  unfold sessionWrite
  split_ifs
  · rfl
  · exact inbound_pushChunks _ now _
  · rfl
  · exact inbound_pushChunks _ now _

theorem inbound_queueClose (s : PacketEngine F) (now : Nat) :
    (s.queueClose now).inbound = s.inbound := by
  unfold queueClose
  split_ifs <;> rfl

theorem inbound_sendSeg (s : PacketEngine F) (e : Env F) (seg : OutSeg) :
    (s.sendSeg e seg).1.inbound = s.inbound := by
  unfold sendSeg
  split_ifs <;> rfl

theorem inbound_resendAll (s : PacketEngine F) (e : Env F) (total : Nat) (segs : List OutSeg) :
    (s.resendAll e total segs).1.inbound = s.inbound := by
  induction segs generalizing s total with
  | nil => rfl
  | cons seg segs ih =>
    have hsend := inbound_sendSeg s e seg
    unfold resendAll
    cases hout : s.sendSeg e seg with
    | mk t ok =>
      rw [hout] at hsend
      cases ok with
      | false => exact hsend
      | true => exact (ih t (total + 1)).trans hsend

theorem inbound_retransmit (s : PacketEngine F) (e : Env F) :
    (s.retransmit fl e).1.inbound = s.inbound := by
  have hresend := inbound_resendAll { s with sendBuf := (s.sweep fl e.now s.sendBuf none).segs } e 0
    (s.sweep fl e.now s.sendBuf none).resend
  unfold retransmit
  dsimp only
  split_ifs
  · exact hresend
  · exact hresend
  · exact hresend
  · exact hresend
  · rfl

theorem inbound_transmit (e : Env F) (n : Nat) (s : PacketEngine F) (total : Nat) :
    (transmit fl e n s total).1.inbound = s.inbound := by
  induction n generalizing s total with
  | zero => rfl
  | succ n ih =>
    unfold transmit
    cases s.sendQueue with
    | nil => rfl
    | cons seg rest =>
      dsimp only
      split_ifs
      · rfl
      · have hsend := inbound_sendSeg (s.popSeg e (s.firstTx fl e seg) rest) e (s.firstTx fl e seg)
        cases hout : (s.popSeg e (s.firstTx fl e seg) rest).sendSeg e (s.firstTx fl e seg) with
        | mk t ok =>
          rw [hout] at hsend
          cases ok with
          | false => exact hsend
          | true => exact (ih _ (total + 1)).trans hsend

theorem inbound_acknowledge (s : PacketEngine F) (e : Env F) :
    (s.acknowledge e).inbound = s.inbound := by
  unfold acknowledge
  dsimp only
  split_ifs <;> rfl

theorem inbound_runOutput (s : PacketEngine F) (e : Env F) :
    (s.runOutputOncePacket fl e).inbound = s.inbound := by
  have hretx := inbound_retransmit fl s e
  unfold runOutputOncePacket
  cases hout : s.retransmit fl e with
  | mk t total =>
    rw [hout] at hretx
    cases total with
    | none => exact hretx
    | some total =>
      dsimp only
      have htx := inbound_transmit fl e t.sendQueue.length t total
      cases hout' : transmit fl e t.sendQueue.length t total with
      | mk u ok =>
        rw [hout'] at htx
        cases ok with
        | false => exact htx.trans hretx
        | true => exact (inbound_acknowledge u e).trans (htx.trans hretx)

theorem inbound_finishTurn (s : PacketEngine F) (e : Env F) :
    (s.finishTurn fl e).inbound = s.inbound := inbound_runOutput fl s e

theorem inbound_pruneFor (e : Env F) (unAck : UInt32) (segs : List OutSeg) (s : PacketEngine F) :
    (pruneFor fl e unAck segs s).inbound = s.inbound := by
  induction segs generalizing s with
  | nil => rfl
  | cons seg segs ih =>
    unfold pruneFor
    split_ifs
    · exact ih _
    · rfl

theorem inbound_takeAck (s : PacketEngine F) (e : Env F) (m : InboundMeta) :
    (s.takeAck fl e m).inbound = s.inbound := inbound_pruneFor fl e m.unAck _ _

/-! ## In order -/

/-- What has been written are the segments below `next_recv`, and what waits are segments of the
    peer. -/
structure InOrder (segs : List Bytes) (s : PacketEngine F) : Prop where
  written : s.app = (segs.take s.nextRecv.toNat).flatten
  within : s.nextRecv.toNat ≤ segs.length
  waiting : ∀ {k p}, s.recvBuf.lookup k = some p → segs[k.toNat]? = some p

variable {segs : List Bytes} {s t : PacketEngine F}

theorem inbound_ext (h : t.inbound = s.inbound) : t.key = s.key ∧ t.sessionId = s.sessionId ∧
    t.app = s.app ∧ t.nextRecv = s.nextRecv ∧ t.recvBuf = s.recvBuf := by
  cases s
  cases t
  simpa [inbound] using h

theorem InOrder.congr (h : InOrder segs s) (hsame : t.inbound = s.inbound) : InOrder segs t := by
  obtain ⟨_, _, happ, hnext, hbuf⟩ := inbound_ext hsame
  constructor
  · rw [happ, hnext]
    exact h.written
  · rw [hnext]
    exact h.within
  · rw [hbuf]
    exact h.waiting

theorem toNat_succ {k : UInt32} {n : Nat} (hk : k.toNat < n) (hn : n < 2 ^ 32) :
    (k + 1).toNat = k.toNat + 1 := by
  rw [UInt32.toNat_add, UInt32.toNat_one]
  omega

/-- The segment that is next goes to the application. -/
theorem InOrder.deliver (h : InOrder segs s) (hlen : segs.length < 2 ^ 32) {p : Bytes}
    (hp : s.recvBuf.lookup s.nextRecv = some p) :
    InOrder segs { s with
      recvBuf := s.recvBuf.erase s.nextRecv, nextRecv := s.nextRecv + 1, app := s.app ++ p } := by
  have hseg := h.waiting hp
  have hlt : s.nextRecv.toNat < segs.length := (List.getElem?_eq_some_iff.mp hseg).1
  have hnext := toNat_succ hlt hlen
  constructor
  · dsimp only
    rw [hnext, List.take_add_one, hseg, List.flatten_append, h.written]
    simp
  · dsimp only
    omega
  · intro k q hq
    dsimp only at hq
    by_cases hk : k = s.nextRecv
    · rw [hk, AList.lookup_erase] at hq
      cases hq
    · rw [AList.lookup_erase_ne hk] at hq
      exact h.waiting hq

/-- What a delivery does while the application reads. -/
structure Delivers (segs : List Bytes) (s t : PacketEngine F) : Prop where
  inOrder : InOrder segs t
  key : t.key = s.key
  sessionId : t.sessionId = s.sessionId
  advances : s.nextRecv.toNat ≤ t.nextRecv.toNat
  /-- The segments delivered were there. -/
  held : ∀ {k : UInt32}, s.nextRecv.toNat ≤ k.toNat → k.toNat < t.nextRecv.toNat →
    (s.recvBuf.lookup k).isSome
  /-- The others still are. -/
  left : ∀ {k : UInt32}, ¬ (s.nextRecv.toNat ≤ k.toNat ∧ k.toNat < t.nextRecv.toNat) →
    t.recvBuf.lookup k = s.recvBuf.lookup k
  gone : ∀ {k : UInt32}, s.nextRecv.toNat ≤ k.toNat → k.toNat < t.nextRecv.toNat →
    t.recvBuf.lookup k = none
  idle : t.recvBuf.lookup t.nextRecv = none

theorem deliverFor_delivers (hlen : segs.length < 2 ^ 32) {n : Nat} (h : InOrder segs s)
    (hn : s.recvBuf.keys.length ≤ n) : Delivers segs s (deliverFor n none s) := by
  induction n generalizing s with
  | zero =>
    have hempty : s.recvBuf.lookup s.nextRecv = none := by
      cases hp : s.recvBuf.lookup s.nextRecv with
      | none => rfl
      | some p =>
        have := length_keys_erase hp
        omega
    exact ⟨h, rfl, rfl, Nat.le_refl _, fun h1 h2 => absurd h2 (by unfold deliverFor; omega),
      fun _ => rfl, fun h1 h2 => absurd h2 (by unfold deliverFor; omega), hempty⟩
  | succ n ih =>
    cases hp : s.recvBuf.lookup s.nextRecv with
    | none =>
      have hstop : deliverFor (n + 1) none s = s := by
        unfold deliverFor
        rw [hp]
      rw [hstop]
      exact ⟨h, rfl, rfl, Nat.le_refl _, fun h1 h2 => absurd h2 (by omega), fun _ => rfl,
        fun h1 h2 => absurd h2 (by omega), hp⟩
    | some p =>
      have hstep : deliverFor (n + 1) none s = deliverFor n none { s with
          recvBuf := s.recvBuf.erase s.nextRecv, nextRecv := s.nextRecv + 1,
          app := s.app ++ p } := by
        conv_lhs => unfold deliverFor
        rw [hp]
        dsimp only
        split_ifs with hnil
        · rw [hnil, List.append_nil]
        · rfl
      have hseg := h.waiting hp
      have hlt : s.nextRecv.toNat < segs.length := (List.getElem?_eq_some_iff.mp hseg).1
      have hnext := toNat_succ hlt hlen
      have hsize := length_keys_erase hp
      have hrest := ih (h.deliver hlen hp) (by dsimp only; omega)
      rw [hstep]
      generalize deliverFor n none _ = t at hrest ⊢
      have hadv := hrest.advances
      have hleft := @hrest.left
      have hheld := @hrest.held
      have hgone := @hrest.gone
      dsimp only at hadv hleft hheld hgone
      rw [hnext] at hadv hleft hheld hgone
      refine ⟨hrest.inOrder, hrest.key, hrest.sessionId, by omega, ?_, ?_, ?_, hrest.idle⟩
      · intro k hk hk'
        by_cases heq : k = s.nextRecv
        · rw [heq, hp]
          rfl
        · have hne : k.toNat ≠ s.nextRecv.toNat := fun h => heq (UInt32.toNat_inj.mp h)
          have := hheld (by omega) hk'
          rwa [AList.lookup_erase_ne heq] at this
      · intro k hk
        have hne : k ≠ s.nextRecv := by
          rintro rfl
          omega
        rw [hleft (by omega), AList.lookup_erase_ne hne]
      · intro k hk hk'
        by_cases heq : k = s.nextRecv
        · subst heq
          rw [hleft (by omega), AList.lookup_erase]
        · have hne : k.toNat ≠ s.nextRecv.toNat := fun h => heq (UInt32.toNat_inj.mp h)
          exact hgone (by omega) hk'

/-! ## One step -/

/-- The datagram that reaches `ingest` in a step. -/
def arriving (s : PacketEngine F) (a : Env F × EngineEvent) :
    Option (InboundMeta × ByteVec 24 × Bytes) :=
  match a.2 with
  | .dgram bytes =>
    match parseDatagramWith s.key a.1.minutes bytes with
    | none => none
    | some (m, nonce) =>
      if m.sessionId = s.sessionId then some (m, nonce, bytes.drop packetNonHeaderPosition)
      else none
  | .demuxed m nonce rest => some (m, nonce, rest)
  | _ => none

/-- The number and the payload of a data segment that opens. -/
def dataIn (s : PacketEngine F) (m : InboundMeta) (nonce : ByteVec 24) (rest : Bytes) :
    Option (UInt32 × Bytes) :=
  if m.protocol = openSessionResponse then (s.openPayload m nonce rest).map (m.seq, ·)
  else if m.protocol = dataServerToClient ∧ m.prefixLen.toNat ≤ rest.length then
    (s.openPayload m nonce (rest.drop m.prefixLen.toNat)).map (m.seq, ·)
  else none

/-- The data segment of a step. -/
def segmentOf (s : PacketEngine F) (a : Env F × EngineEvent) : Option (UInt32 × Bytes) :=
  match s.arriving a with
  | none => none
  | some (m, nonce, rest) => s.dataIn m nonce rest

/-- `t` is `s` after the data segment `seg`, if there is one and the window is open. -/
structure Takes (e : Env F) (seg : Option (UInt32 × Bytes)) (s t : PacketEngine F) : Prop where
  other : seg = none ∨ s.receiveWindowSize = 0 → t.inbound = s.inbound
  segment : ∀ {k p}, seg = some (k, p) → s.receiveWindowSize ≠ 0 → ∃ r : PacketEngine F,
    r.inbound = { s with recvBuf := s.recvBuf.insert k p : PacketEngine F }.inbound ∧
      t.inbound = (r.deliverInOrder e).inbound

theorem takes_of_same {e : Env F} (h : t.inbound = s.inbound) : Takes e none s t :=
  ⟨fun _ => h, nofun⟩

theorem Takes.trans {e : Env F} {seg : Option (UInt32 × Bytes)} {r u : PacketEngine F}
    (h : Takes e seg s t) (hr : s.inbound = r.inbound) (hu : u.inbound = t.inbound) :
    Takes e seg r u := by
  obtain ⟨hkey, hsid, happ, hnext, hbuf⟩ := inbound_ext hr
  have hwindow : s.receiveWindowSize = r.receiveWindowSize := by
    unfold receiveWindowSize
    rw [hbuf]
  refine ⟨fun hnone => ?_, fun hseg hopen => ?_⟩
  · rw [hu, h.other (by rw [hwindow]; exact hnone), hr]
  · obtain ⟨q, hq, ht⟩ := h.segment hseg (by rw [hwindow]; exact hopen)
    refine ⟨q, hq.trans ?_, hu.trans ht⟩
    unfold inbound
    dsimp only
    rw [hkey, hsid, happ, hnext, hbuf]

theorem takeSegment_takes (s : PacketEngine F) (e : Env F) (m : InboundMeta) (payload : Bytes) :
    Takes e (some (m.seq, payload)) s (s.takeSegment e m payload) := by
  unfold takeSegment
  by_cases hzero : s.receiveWindowSize = 0
  · rw [if_pos hzero]
    exact ⟨fun _ => rfl, fun _ hopen => absurd hzero hopen⟩
  · rw [if_neg hzero]
    refine ⟨fun hnone => absurd hnone (by simp [hzero]), fun hseg _ => ?_⟩
    cases hseg
    refine ⟨_, rfl, ?_⟩
    have hack : ∀ q : PacketEngine F, (q.requestAck e.now).inbound = q.inbound := by
      intro q
      unfold requestAck
      split_ifs <;> rfl
    dsimp only
    split_ifs
    · exact hack _
    · exact hack _

theorem ingestData_takes (s : PacketEngine F) (e : Env F) (m : InboundMeta) (nonce : ByteVec 24)
    (rest : Bytes) :
    Takes e ((s.openPayload m nonce rest).map (m.seq, ·)) s (s.ingestData e m nonce rest) := by
  unfold ingestData
  cases s.openPayload m nonce rest with
  | none => exact takes_of_same rfl
  | some payload => exact takeSegment_takes s e m payload

theorem ingest_takes (s : PacketEngine F) (e : Env F) (m : InboundMeta) (nonce : ByteVec 24)
    (rest : Bytes) : Takes e (s.dataIn m nonce rest) s (s.ingest fl e m nonce rest) := by
  unfold ingest dataIn
  by_cases hopen : m.protocol = openSessionResponse
  · rw [if_pos hopen, if_pos hopen]
    exact ingestData_takes s e m nonce rest
  rw [if_neg hopen, if_neg hopen]
  have hack := inbound_takeAck fl s e m
  by_cases hdata : m.protocol = dataServerToClient
  · rw [if_pos hdata]
    by_cases hshort : rest.length < m.prefixLen.toNat
    · rw [if_pos hshort, if_neg (by omega)]
      exact takes_of_same rfl
    · rw [if_neg hshort, if_pos ⟨hdata, by omega⟩]
      have hkey : (s.takeAck fl e m).openPayload m nonce (rest.drop m.prefixLen.toNat) =
          s.openPayload m nonce (rest.drop m.prefixLen.toNat) := by
        unfold openPayload
        rw [(inbound_ext hack).1]
      have hin := ingestData_takes (s.takeAck fl e m) e m nonce (rest.drop m.prefixLen.toNat)
      rw [hkey] at hin
      exact hin.trans hack rfl
  rw [if_neg hdata, if_neg (fun h => hdata h.1)]
  split_ifs
  · exact takes_of_same hack
  · exact takes_of_same rfl
  · exact takes_of_same rfl
  · exact takes_of_same rfl
  · exact takes_of_same rfl
  · exact takes_of_same rfl

theorem inbound_heard (s : PacketEngine F) (e : Env F) : (s.heard e).inbound = s.inbound := rfl

/-- Only the data segment of a step changes the receive side. -/
theorem step_inbound (s : PacketEngine F) (a : Env F × EngineEvent) (hs : s.ended = false) :
    Takes a.1 (s.segmentOf a) s (s.step fl a) := by
  obtain ⟨e, ev⟩ := a
  unfold step segmentOf arriving
  dsimp only
  rw [hs]
  simp only [Bool.false_eq_true, if_false]
  cases ev with
  | app bytes =>
    dsimp only
    split_ifs
    · exact takes_of_same rfl
    · exact takes_of_same ((inbound_finishTurn fl _ e).trans (inbound_sessionWrite s e.now bytes))
  | appEof =>
    dsimp only
    split_ifs
    · exact takes_of_same rfl
    · exact takes_of_same ((inbound_finishTurn fl _ e).trans (inbound_queueClose _ e.now))
  | dgram bytes =>
    dsimp only
    have hkey : (s.heard e).key = s.key := rfl
    have hsid : (s.heard e).sessionId = s.sessionId := rfl
    unfold onDatagram
    dsimp only
    rw [hkey, hsid]
    cases parseDatagramWith s.key e.minutes bytes with
    | none => exact takes_of_same (inbound_finishTurn fl (s.heard e) e)
    | some x =>
      obtain ⟨m, nonce⟩ := x
      dsimp only
      split_ifs
      · have hin := ingest_takes fl (s.heard e) e m nonce (bytes.drop packetNonHeaderPosition)
        exact hin.trans (inbound_heard s e) (inbound_finishTurn fl _ e)
      · exact takes_of_same (inbound_finishTurn fl (s.heard e) e)
  | demuxed m nonce rest =>
    have hin := ingest_takes fl (s.heard e) e m nonce rest
    exact hin.trans (inbound_heard s e) (inbound_finishTurn fl _ e)
  | sockErr => exact takes_of_same rfl
  | timer => exact takes_of_same (inbound_finishTurn fl s e)

theorem step_ended {a : Env F × EngineEvent} (hs : s.ended = true) : s.step fl a = s := by
  unfold step
  rw [hs]
  rfl

/-- The application reads, and a data segment that opens is the one the peer sealed under its
    number. -/
structure Honest (segs : List Bytes) (s : PacketEngine F) (a : Env F × EngineEvent) : Prop where
  reads : a.1.room = none
  authentic : ∀ {k p}, s.segmentOf a = some (k, p) → segs[k.toNat]? = some p

/-- In order, with nothing left to deliver. -/
structure Receives (segs : List Bytes) (s : PacketEngine F) : Prop where
  inOrder : InOrder segs s
  idle : s.recvBuf.lookup s.nextRecv = none

theorem Receives.congr (h : Receives segs s) (hsame : t.inbound = s.inbound) :
    Receives segs t := by
  obtain ⟨_, _, _, hnext, hbuf⟩ := inbound_ext hsame
  refine ⟨h.inOrder.congr hsame, ?_⟩
  rw [hnext, hbuf]
  exact h.idle

/-- A data segment goes into the map, and what is next out of it. -/
structure Admits (segs : List Bytes) (k : UInt32) (p : Bytes) (s t : PacketEngine F) : Prop where
  receives : Receives segs t
  advances : s.nextRecv.toNat ≤ t.nextRecv.toNat
  held : ∀ {j : UInt32}, s.nextRecv.toNat ≤ j.toNat → j.toNat < t.nextRecv.toNat →
    j = k ∨ (s.recvBuf.lookup j).isSome
  gone : ∀ {j : UInt32}, s.nextRecv.toNat ≤ j.toNat → j.toNat < t.nextRecv.toNat →
    t.recvBuf.lookup j = none
  left : ∀ {j : UInt32}, ¬ (s.nextRecv.toNat ≤ j.toNat ∧ j.toNat < t.nextRecv.toNat) →
    t.recvBuf.lookup j = (s.recvBuf.insert k p).lookup j

variable {fl} {a : Env F × EngineEvent}

theorem step_admits (hlen : segs.length < 2 ^ 32) (h : InOrder segs s) (hs : s.ended = false)
    (ha : Honest segs s a) {k : UInt32} {p : Bytes} (hseg : s.segmentOf a = some (k, p))
    (hopen : s.receiveWindowSize ≠ 0) : Admits segs k p s (s.step fl a) := by
  obtain ⟨r, hr, ht⟩ := (step_inbound fl s a hs).segment hseg hopen
  obtain ⟨_, _, happ, hnext, hbuf⟩ := inbound_ext hr
  dsimp only at happ hnext hbuf
  have hin : InOrder segs r := by
    constructor
    · rw [happ, hnext]
      exact h.written
    · rw [hnext]
      exact h.within
    · intro j q hq
      rw [hbuf] at hq
      by_cases hj : j = k
      · rw [hj, AList.lookup_insert] at hq
        cases hq
        rw [hj]
        exact ha.authentic hseg
      · rw [AList.lookup_insert_ne hj] at hq
        exact h.waiting hq
  have hdel : Delivers segs r (r.deliverInOrder a.1) := by
    unfold deliverInOrder
    rw [ha.reads]
    exact deliverFor_delivers hlen hin (Nat.le_refl _)
  obtain ⟨_, _, _, hnext', hbuf'⟩ := inbound_ext ht
  refine ⟨?_, ?_, ?_, ?_, ?_⟩
  · exact Receives.congr ⟨hdel.inOrder, hdel.idle⟩ ht
  · rw [hnext', ← hnext]
    exact hdel.advances
  · intro j hj hj'
    rw [← hnext] at hj
    rw [hnext'] at hj'
    have hheld := hdel.held hj hj'
    rw [hbuf] at hheld
    by_cases hjk : j = k
    · exact Or.inl hjk
    · rw [AList.lookup_insert_ne hjk] at hheld
      exact Or.inr hheld
  · intro j hj hj'
    rw [← hnext] at hj
    rw [hnext'] at hj'
    rw [hbuf']
    exact hdel.gone hj hj'
  · intro j hj
    rw [← hnext, hnext'] at hj
    rw [hbuf', ← hbuf]
    exact hdel.left hj

theorem step_same (h : s.ended = true ∨ s.segmentOf a = none ∨ s.receiveWindowSize = 0) :
    (s.step fl a).inbound = s.inbound := by
  cases hs : s.ended with
  | true => rw [step_ended fl hs]
  | false =>
    rw [hs] at h
    exact (step_inbound fl s a hs).other (h.resolve_left nofun)

/-- The three things that can happen to the receive side. -/
theorem step_cases (s : PacketEngine F) (a : Env F × EngineEvent) :
    (s.ended = true ∨ s.segmentOf a = none ∨ s.receiveWindowSize = 0) ∨
      ∃ k p, s.ended = false ∧ s.segmentOf a = some (k, p) ∧ s.receiveWindowSize ≠ 0 := by
  by_cases hs : s.ended = true
  · exact Or.inl (Or.inl hs)
  by_cases hopen : s.receiveWindowSize = 0
  · exact Or.inl (Or.inr (Or.inr hopen))
  cases hseg : s.segmentOf a with
  | none => exact Or.inl (Or.inr (Or.inl rfl))
  | some x => exact Or.inr ⟨x.1, x.2, Bool.eq_false_iff.mpr hs, rfl, hopen⟩

theorem Receives.step (hlen : segs.length < 2 ^ 32) (h : Receives segs s) (ha : Honest segs s a) :
    Receives segs (s.step fl a) := by
  rcases step_cases s a with hsame | ⟨k, p, hs, hseg, hopen⟩
  · exact h.congr (step_same hsame)
  · exact (step_admits hlen h.inOrder hs ha hseg hopen).receives

/-! ## The window -/

/-- A segment waits for one before it. -/
def GapOutstanding (s : PacketEngine F) : Prop := ∃ k ∈ s.recvBuf, s.nextRecv < k

structure WindowSound (segs : List Bytes) (s : PacketEngine F) : Prop where
  written : s.app = (segs.take s.nextRecv.toNat).flatten
  waits : ∀ k ∈ s.recvBuf, s.nextRecv ≤ k
  whole : ¬ s.GapOutstanding → s.receiveWindowSize = 4096

/-- The map holds nothing that has been delivered. -/
def Fresh (s : PacketEngine F) : Prop := ∀ k ∈ s.recvBuf, s.nextRecv ≤ k

/-- The step does not take in a segment that has been delivered. -/
def NotStale (s : PacketEngine F) (a : Env F × EngineEvent) : Prop :=
  s.ended = false → ∀ k p, s.segmentOf a = some (k, p) → s.receiveWindowSize ≠ 0 → s.nextRecv ≤ k

theorem windowSound_iff (h : Receives segs s) : WindowSound segs s ↔ s.Fresh := by
  refine ⟨fun hsound => hsound.waits, fun hfresh => ⟨h.inOrder.written, hfresh, fun hgap => ?_⟩⟩
  have hempty : s.recvBuf.keys = [] := by
    apply List.eq_nil_iff_forall_not_mem.mpr
    intro k hk
    have hmem : k ∈ s.recvBuf := AList.mem_keys.mpr hk
    have hle := UInt32.le_iff_toNat_le.mp (hfresh k hmem)
    have hne : k ≠ s.nextRecv := by
      rintro rfl
      exact AList.lookup_eq_none.mp h.idle hmem
    have hne' : k.toNat ≠ s.nextRecv.toNat := fun heq => hne (UInt32.toNat_inj.mp heq)
    exact hgap ⟨k, hmem, UInt32.lt_iff_toNat_lt.mpr (by omega)⟩
  unfold receiveWindowSize
  rw [hempty]
  rfl

theorem fresh_step (hlen : segs.length < 2 ^ 32) (h : Receives segs s) (hfresh : s.Fresh)
    (ha : Honest segs s a) : (s.step fl a).Fresh ↔ s.NotStale a := by
  rcases step_cases s a with hsame | ⟨k, p, hs, hseg, hopen⟩
  · obtain ⟨_, _, _, hnext, hbuf⟩ := inbound_ext (step_same hsame)
    refine iff_of_true ?_ ?_
    · unfold Fresh
      rw [hnext, hbuf]
      exact hfresh
    · intro hs k p hseg hopen
      rcases hsame with hended | hnone | hzero
      · rw [hs] at hended
        cases hended
      · rw [hseg] at hnone
        cases hnone
      · exact absurd hzero hopen
  · have hadm : Admits segs k p s (s.step fl a) := step_admits hlen h.inOrder hs ha hseg hopen
    generalize s.step fl a = t at hadm
    have hadv := hadm.advances
    constructor
    · intro ht _ k' p' hseg' _
      rw [hseg] at hseg'
      cases hseg'
      apply UInt32.le_iff_toNat_le.mpr
      by_contra hlt
      have hmem : k ∈ t.recvBuf := by
        rw [← AList.lookup_isSome, hadm.left (by omega), AList.lookup_insert]
        rfl
      have := UInt32.le_iff_toNat_le.mp (ht k hmem)
      omega
    · intro hstale j hj
      apply UInt32.le_iff_toNat_le.mpr
      by_contra hlt
      have hsome : (t.recvBuf.lookup j).isSome := AList.lookup_isSome.mpr hj
      have hout : ¬ (s.nextRecv.toNat ≤ j.toNat ∧ j.toNat < t.nextRecv.toNat) := by
        intro hin
        rw [hadm.gone hin.1 hin.2] at hsome
        cases hsome
      rw [hadm.left hout] at hsome
      have hle : s.nextRecv ≤ j := by
        by_cases hjk : j = k
        · rw [hjk]
          exact hstale hs k p hseg hopen
        · rw [AList.lookup_insert_ne hjk] at hsome
          exact hfresh j (AList.lookup_isSome.mp hsome)
      have := UInt32.le_iff_toNat_le.mp hle
      omega

theorem new_receives (key : ByteVec 32) (sessionId : UInt32) (e : Env F) :
    Receives segs (new key sessionId e) :=
  ⟨⟨rfl, Nat.zero_le _, fun h => by cases h⟩, rfl⟩

/-- Whatever the network does with the segments of a peer, the application gets them in order
    and each once, and the window is whole when no segment waits, if and only if no segment that
    was delivered is taken in again. -/
theorem receive_window (fl : Floats F) (segs : List Bytes) (hlen : segs.length < 2 ^ 32)
    (key : ByteVec 32) (sessionId : UInt32) (e : Env F) (run : List (Env F × EngineEvent))
    (hhonest : ∀ x ∈ Machine.steps (step fl) (new key sessionId e) run, Honest segs x.1 x.2) :
    (∀ t ∈ Machine.states (step fl) (new key sessionId e) run, WindowSound segs t) ↔
      ∀ x ∈ Machine.steps (step fl) (new key sessionId e) run, x.1.NotStale x.2 := by
  have hwf : ∀ t ∈ Machine.states (step fl) (new key sessionId e) run, Receives segs t :=
    Machine.inv_of_good (Receives segs) (Honest segs) (fun s a h ha => h.step hlen ha)
      (new_receives key sessionId e) hhonest
  have hiff : (∀ t ∈ Machine.states (step fl) (new key sessionId e) run,
      Receives segs t ∧ t.Fresh) ↔
        ∀ x ∈ Machine.steps (step fl) (new key sessionId e) run, x.1.NotStale x.2 :=
    Machine.inv_iff_under (fun t : PacketEngine F => Receives segs t ∧ t.Fresh) (Honest segs)
      (fun (s : PacketEngine F) a => s.NotStale a)
      (fun (s : PacketEngine F) a ha (h : Receives segs s ∧ s.Fresh) =>
        ⟨fun hstep => (fresh_step hlen h.1 h.2 ha).mp hstep.2,
          fun hstale => ⟨h.1.step hlen ha, (fresh_step hlen h.1 h.2 ha).mpr hstale⟩⟩)
      ⟨new_receives key sessionId e, nofun⟩ hhonest
  rw [← hiff]
  exact forall₂_congr fun t ht =>
    (windowSound_iff (hwf t ht)).trans (and_iff_right (hwf t ht)).symm

/-! ### An open response that comes twice -/

/-- What is delivered depends on the receive side alone. -/
theorem deliverInOrder_congr {e : Env F} (he : e.room = none) (h : t.inbound = s.inbound) :
    (t.deliverInOrder e).inbound = (s.deliverInOrder e).inbound := by
  unfold deliverInOrder
  rw [he, (inbound_ext h).2.2.2.2]
  generalize s.recvBuf.keys.length = n
  induction n generalizing s t with
  | zero => exact h
  | succ n ih =>
    obtain ⟨hkey, hsid, happ, hnext, hbuf⟩ := inbound_ext h
    unfold deliverFor
    rw [hnext, hbuf]
    cases s.recvBuf.lookup s.nextRecv with
    | none => exact h
    | some p =>
      dsimp only [writeAll]
      split_ifs
      · refine ih ?_
        simp [inbound, hkey, hsid, happ]
      · refine ih ?_
        simp [inbound, hkey, hsid, happ]

theorem step_takes (hs : s.ended = false) (hroom : a.1.room = none) {k : UInt32} {p : Bytes}
    (hseg : s.segmentOf a = some (k, p)) (hopen : s.receiveWindowSize ≠ 0) :
    (s.step fl a).inbound =
      ({ s with recvBuf := s.recvBuf.insert k p : PacketEngine F }.deliverInOrder a.1).inbound := by
  obtain ⟨r, hr, ht⟩ := (step_inbound fl s a hs).segment hseg hopen
  exact ht.trans (deliverInOrder_congr hroom hr)

theorem segmentOf_congr (h : t.inbound = s.inbound) (a : Env F × EngineEvent) :
    t.segmentOf a = s.segmentOf a := by
  obtain ⟨hkey, hsid, _⟩ := inbound_ext h
  unfold segmentOf arriving dataIn openPayload
  rw [hkey, hsid]

/-- Exact products, and windows as they were. -/
def exactFloats : Floats Unit := ⟨fun d q => (d * q).floor.toNat, fun w _ _ => w, fun w => w⟩

/-- The clock stands, the socket takes everything and the application reads. -/
def calm : Env Unit := ⟨0, (), 0, fun _ => true, true, 0, none⟩

def sample : PacketEngine Unit := new (ByteVec.zero 32) 1 calm

/-- The byte 7 in the open response, sealed with a key and a nonce of zeros. -/
def openResponse : Env Unit × EngineEvent :=
  (calm, .demuxed ⟨openSessionResponse, 1, 0, 0, 1, 0, 0, 0, 0⟩ (ByteVec.zero 24)
    [127, 204, 190, 38, 17, 222, 1, 38, 157, 83, 122, 212, 34, 78, 67, 158, 31])

theorem segmentOf_first : sample.segmentOf openResponse = some (0, [7]) := by decide +kernel

theorem honest_first : Honest [[7]] sample openResponse := by
  refine ⟨rfl, fun h => ?_⟩
  rw [segmentOf_first] at h
  cases h
  rfl

theorem receive_window_sample : WindowSound [[7]] (sample.step exactFloats openResponse) := by
  refine (receive_window exactFloats [[7]] (by decide) (ByteVec.zero 32) 1 calm [openResponse]
    ?_).mpr ?_ _ (Machine.step_mem_states sample openResponse)
  · intro x hx
    rw [List.mem_singleton.mp hx]
    exact honest_first
  · intro x hx
    rw [List.mem_singleton.mp hx]
    intro _ k p _ _
    exact UInt32.le_iff_toNat_le.mpr (Nat.zero_le _)

/-- The receive side when the first copy has been handed on. -/
def afterFirst : PacketEngine Unit := { sample with app := [7], nextRecv := 1 }

theorem inbound_first : (sample.step exactFloats openResponse).inbound = afterFirst.inbound :=
  (step_takes rfl rfl segmentOf_first (by decide)).trans rfl

/-- The second copy stays in the map, with no gap outstanding. -/
theorem copy_stays :
    (∀ x ∈ Machine.steps (step exactFloats) sample [openResponse, openResponse],
      Honest [[7]] x.1 x.2) ∧
    ¬ ∀ t ∈ Machine.states (step exactFloats) sample [openResponse, openResponse],
      WindowSound [[7]] t := by
  obtain ⟨hkey, hsid, happ, hnext, hbuf⟩ := inbound_ext inbound_first
  have hseg : (sample.step exactFloats openResponse).segmentOf openResponse = some (0, [7]) := by
    rw [segmentOf_congr (s := afterFirst) inbound_first]
    exact segmentOf_first
  have hgoes : (sample.step exactFloats openResponse).ended = false := by decide +kernel
  have hopen : (sample.step exactFloats openResponse).receiveWindowSize ≠ 0 := by
    unfold receiveWindowSize
    rw [hbuf]
    decide
  have hsecond : ((sample.step exactFloats openResponse).step exactFloats openResponse).inbound =
      { afterFirst with recvBuf := (∅ : AList fun _ : UInt32 => Bytes).insert 0 [7] :
        PacketEngine Unit }.inbound := by
    rw [step_takes hgoes rfl hseg hopen]
    refine (deliverInOrder_congr (s := { afterFirst with
      recvBuf := afterFirst.recvBuf.insert 0 [7] : PacketEngine Unit }) rfl ?_).trans rfl
    simp [inbound, hkey, hsid, happ, hnext, hbuf]
  obtain ⟨-, -, -, hnext', hbuf'⟩ := inbound_ext hsecond
  refine ⟨fun x hx => ?_, fun h => ?_⟩
  · rcases List.mem_cons.mp hx with rfl | hx
    · exact honest_first
    · rw [List.mem_singleton.mp hx]
      refine ⟨rfl, fun h => ?_⟩
      rw [hseg] at h
      cases h
      rfl
  · have hwaits := (h _ (Machine.foldl_mem_states sample [openResponse, openResponse])).waits 0
      (by rw [List.foldl_cons, List.foldl_cons, List.foldl_nil, hbuf']; decide)
    rw [List.foldl_cons, List.foldl_cons, List.foldl_nil, hnext'] at hwaits
    exact absurd hwaits (by decide)

end PacketEngine

end RustCrash.Mieru
