import RustCrash.ZeroTier.Node

/-
  Forged and replayed datagrams (`on_datagram` in `proto/zerotier.rs`), and what they do to the
  peer they claim to come from.

  An armored packet is entered in its peer's record before its MAC is checked, and a HELLO whose
  MAC is checked is never looked up among the packets of the peer.
-/

namespace RustCrash.ZeroTier

open Lib

/-! ## Unwanted datagrams -/

/-- The source that an assembled packet claims. -/
def claimedSource (assembled : Bytes) : UInt64 := be40 (slice assembled packetIdxSource 5)

/-- The pairwise key of the source a packet claims: on file, or agreed with the identity that
    its HELLO brings. -/
def ZtStack.claimedKey (c : Crates) (st : ZtStack) (pkt : WirePacket) : Result SymmetricKey :=
  match st.peers pkt.source with
  | some peer => .ok peer.key
  | none => do
    let hello ← parseHello pkt
    st.identity.agree c hello.identity

/-- The packet passes `dearmor` under the pairwise key of its source. -/
def ZtStack.Opens (c : Crates) (st : ZtStack) (assembled : Bytes) : Prop :=
  ∃ pkt key opened, WirePacket.fromBytes assembled = .ok pkt ∧ st.claimedKey c pkt = .ok key ∧
    pkt.dearmor key = .ok opened

/-- A datagram that completes a forged packet, or that was there before. -/
def Unwanted (c : Crates) (st : ZtStack) (earlier : List Moment) (dg : Bytes) (now : Nat) :
    Prop :=
  (∃ assembled, st.completes dg now = some assembled ∧ ¬ st.Opens c assembled) ∨
    ∃ m ∈ earlier, ∃ src, m.event = .datagram dg src

/-! ## Records -/

/-- What a peer's packets leave in its entry. -/
def PeerEntry.record (peer : PeerEntry) : List UInt64 × Nat × Option SocketAddr :=
  (peer.recentIds, peer.lastSeen, peer.endpoint)

def ZtStack.recordOf (st : ZtStack) (address : UInt64) :
    Option (List UInt64 × Nat × Option SocketAddr) :=
  (st.peers address).map PeerEntry.record

/-- The peer a datagram claims to come from has the same record as before. -/
def KeepsRecord (st st' : ZtStack) (dg : Bytes) (now : Nat) : Prop :=
  ∀ assembled, st.completes dg now = some assembled →
    st'.recordOf (claimedSource assembled) = st.recordOf (claimedSource assembled)

/-- A HELLO that is not believed, or that comes from where its peer is and was just seen. -/
def IgnoredHello (c : Crates) (st : ZtStack) (pkt : WirePacket) (src : SocketAddr) (now : Nat) :
    Prop :=
  ∀ identity, st.believedHello c pkt = some identity →
    ∃ peer, st.peers identity.address = some peer ∧ peer.lastSeen = now ∧
      peer.endpoint = some src

/-- No armored packet from a peer, or one of a peer that was just seen, with an id that is still
    on the peer's list. -/
def IgnoredArmored (st : ZtStack) (assembled : Bytes) (now : Nat) : Prop :=
  ∀ peer, st.peers (claimedSource assembled) = some peer →
    peer.lastSeen = now ∧
      ∀ pkt, WirePacket.fromBytes assembled = .ok pkt → pkt.packetId ∈ peer.recentIds

/-- The datagrams that leave no trace in a record. -/
def Ignored (c : Crates) (st : ZtStack) (dg : Bytes) (src : SocketAddr) (now : Nat) : Prop :=
  ∀ assembled, st.completes dg now = some assembled → packetHeaderLen ≤ assembled.length →
    if ZtStack.isPlainHello assembled then
      ∀ pkt, WirePacket.fromBytes assembled = .ok pkt → IgnoredHello c st pkt src now
    else IgnoredArmored st assembled now

/-! ## One datagram -/

variable {c : Crates} {st st' : ZtStack} {dg : Bytes} {src : SocketAddr} {now : Nat}

@[simp] theorem recordOf_setPeer (st : ZtStack) (address : UInt64) (peer : PeerEntry) :
    (st.setPeer address peer).recordOf address = some peer.record := by
  simp [ZtStack.recordOf, ZtStack.setPeer]

theorem recordOf_congr {address : UInt64} (h : st'.peers = st.peers) :
    st'.recordOf address = st.recordOf address := by
  rw [ZtStack.recordOf, ZtStack.recordOf, h]

theorem Sends.peers (h : Sends st st') : st'.peers = st.peers := by
  obtain ⟨expecting, probing, rfl⟩ := h
  rfl

/-- A state after `on_datagram` gave a result and `dispatch` took its packet: later than that
    result, with the same peers if there was no packet. -/
structure Finishes (result : ZtStack × Option WirePacket) (st' : ZtStack) : Prop where
  peers : result.2 = none → st'.peers = result.1.peers
  later : Later result.1 st'

theorem Received.finishes (h : Received c st dg src now st') :
    Finishes (st.onDatagram c dg src now) st' := by
  refine ⟨fun hnone => ?_, h.later⟩
  cases h with
  | quiet h hs => rw [hs.peers, h]
  | packet h _ =>
    rw [h] at hnone
    cases hnone

variable {pkt : WirePacket} {assembled : Bytes} {peer : PeerEntry}

theorem believedHello_address {identity : NodeIdentity} (h : st.believedHello c pkt = some identity) :
    identity.address = pkt.source := by
  unfold ZtStack.believedHello at h
  repeat' split at h
  all_goals cases h
  rename_i haddress _ _ _ _ _ _ _
  exact not_not.mp haddress

theorem fromBytes_source (h : WirePacket.fromBytes assembled = .ok pkt) :
    pkt.source = claimedSource assembled := by
  unfold WirePacket.fromBytes at h
  split_ifs at h
  rw [← Except.ok.inj h]
  rfl

/-- A HELLO leaves the record of its source alone when it is ignored, and only then. -/
theorem onHello_record_iff :
    (st.onHello c pkt src now).recordOf pkt.source = st.recordOf pkt.source ↔
      IgnoredHello c st pkt src now := by
  unfold ZtStack.onHello IgnoredHello
  cases hb : st.believedHello c pkt with
  | none => simp
  | some identity =>
    have haddress := believedHello_address hb
    simp only [Option.some.injEq, forall_eq']
    rw [ZtStack.learnPeer, ← haddress, recordOf_setPeer]
    unfold ZtStack.learnedEntry ZtStack.recordOf
    cases st.peers identity.address with
    | none => simp
    | some peer =>
      simp only [Option.map_some, Option.some.injEq, PeerEntry.record, Prod.mk.injEq, true_and,
        exists_eq_left', Option.orElse_some]
      exact and_congr eq_comm eq_comm

theorem notePacket_fresh {id : UInt64} : (peer.notePacket id).2 = true ↔ id ∉ peer.recentIds := by
  unfold PeerEntry.notePacket
  split_ifs with h <;> simp [h]

theorem mem_notePacket {id : UInt64} (h : id ∉ peer.recentIds) :
    id ∈ (peer.notePacket id).1.recentIds := by
  unfold PeerEntry.notePacket
  rw [if_neg h]
  exact List.mem_append_right _ List.mem_cons_self

/-- An armored packet whose id is on the list: only the time goes into the record. -/
theorem onArmored_stale
    (h : ∀ pkt, WirePacket.fromBytes assembled = .ok pkt → pkt.packetId ∈ peer.recentIds)
    (st : ZtStack) (source : UInt64) (now : Nat) :
    (st.onArmored source peer assembled now).2 = none ∧
      (st.onArmored source peer assembled now).1.recordOf source =
        some (peer.recentIds, now, peer.endpoint) := by
  unfold ZtStack.onArmored
  cases hb : WirePacket.fromBytes assembled with
  | error => exact ⟨rfl, recordOf_setPeer _ _ _⟩
  | ok pkt =>
    have hid := h pkt hb
    simp only [PeerEntry.notePacket, hid, if_true]
    exact ⟨trivial, recordOf_setPeer _ _ _⟩

/-- An armored packet with a new id: the id goes on the list, whatever the MAC says. -/
theorem onArmored_fresh (hb : WirePacket.fromBytes assembled = .ok pkt)
    (hid : pkt.packetId ∉ peer.recentIds) (st : ZtStack) (source : UInt64) (now : Nat) :
    ∃ peer', (st.onArmored source peer assembled now).1.peers source = some peer' ∧
      pkt.packetId ∈ peer'.recentIds := by
  let seen : PeerEntry :=
    { peer with
      lastSeen := now }
  have hid' : pkt.packetId ∉ seen.recentIds := hid
  have hfresh : (seen.notePacket pkt.packetId).2 = true := notePacket_fresh.mpr hid'
  refine ⟨(seen.notePacket pkt.packetId).1, ?_, mem_notePacket hid'⟩
  unfold ZtStack.onArmored
  simp only [hb, seen, hfresh, Bool.true_eq_false, if_false]
  cases pkt.dearmor peer.key with
  | error => simp [ZtStack.setPeer]
  | ok opened =>
    dsimp only
    cases opened.uncompress with
    | error => simp [ZtStack.setPeer]
    | ok plain => simp [ZtStack.setPeer]

/-- An armored packet of a known peer leaves its record alone when it is ignored, and only
    then. `dispatch` cannot take an id off the list again. -/
theorem onArmored_record_iff {source : UInt64} (hpeer : st.peers source = some peer)
    (h : Finishes (st.onArmored source peer assembled now) st') :
    st'.recordOf source = st.recordOf source ↔
      peer.lastSeen = now ∧
        ∀ pkt, WirePacket.fromBytes assembled = .ok pkt → pkt.packetId ∈ peer.recentIds := by
  have hrecord : st.recordOf source = some (peer.recentIds, peer.lastSeen, peer.endpoint) := by
    rw [ZtStack.recordOf, hpeer]
    rfl
  by_cases hids : ∀ pkt, WirePacket.fromBytes assembled = .ok pkt → pkt.packetId ∈ peer.recentIds
  · obtain ⟨hnone, hstale⟩ := onArmored_stale hids st source now
    rw [recordOf_congr (h.peers hnone), hstale, hrecord, and_iff_left hids]
    simp only [Option.some.injEq, Prod.mk.injEq, true_and, and_true]
    exact eq_comm
  · refine iff_of_false (fun hsame => ?_) fun hand => hids hand.2
    push Not at hids
    obtain ⟨pkt, hb, hid⟩ := hids
    obtain ⟨peer', hpeer', hmem⟩ := onArmored_fresh hb hid st source now
    obtain ⟨peer'', hpeer'', _, hkept⟩ := h.later.peers source peer' hpeer'
    rw [hrecord, ZtStack.recordOf, hpeer'', Option.map_some, Option.some_inj] at hsame
    rw [← hkept, show peer''.recentIds = peer.recentIds from congrArg Prod.fst hsame] at hmem
    exact hid hmem

/-- An assembled packet leaves the record of its source alone when it is ignored, and only
    then. -/
theorem onAssembled_record_iff (h : Finishes (st.onAssembled c assembled src now) st') :
    st'.recordOf (claimedSource assembled) = st.recordOf (claimedSource assembled) ↔
      (packetHeaderLen ≤ assembled.length →
        if ZtStack.isPlainHello assembled then
          ∀ pkt, WirePacket.fromBytes assembled = .ok pkt → IgnoredHello c st pkt src now
        else IgnoredArmored st assembled now) := by
  unfold ZtStack.onAssembled at h
  by_cases hlen : assembled.length < packetHeaderLen
  · rw [if_pos hlen] at h
    exact iff_of_true (recordOf_congr (h.peers rfl)) fun hle => absurd hlen (Nat.not_lt.mpr hle)
  · rw [if_neg hlen] at h
    rw [forall_prop_of_true (Nat.not_lt.mp hlen)]
    by_cases hhello : ZtStack.isPlainHello assembled = true
    · rw [if_pos hhello] at h
      rw [if_pos hhello]
      cases hb : WirePacket.fromBytes assembled with
      | error =>
        rw [hb] at h
        exact iff_of_true (recordOf_congr (h.peers rfl)) nofun
      | ok pkt =>
        rw [hb] at h
        simp only [Except.ok.injEq, forall_eq']
        rw [← fromBytes_source hb, recordOf_congr (h.peers rfl)]
        exact onHello_record_iff
    · rw [if_neg hhello] at h
      rw [if_neg hhello]
      unfold IgnoredArmored claimedSource
      cases hpeer : st.peers (be40 (slice assembled packetIdxSource 5)) with
      | none =>
        simp only [hpeer] at h
        exact iff_of_true (recordOf_congr (h.peers rfl)) nofun
      | some peer =>
        simp only [hpeer] at h
        simp only [Option.some.injEq, forall_eq']
        exact onArmored_record_iff hpeer h

/-- A datagram leaves the record of its source alone when it is ignored, and only then. -/
theorem Received.keepsRecord_iff (h : Received c st dg src now st') :
    KeepsRecord st st' dg now ↔ Ignored c st dg src now := by
  unfold KeepsRecord Ignored
  cases hcomp : st.completes dg now with
  | none => simp
  | some assembled =>
    have hfin := h.finishes
    rw [ZtStack.onDatagram_completed c src hcomp] at hfin
    have hiff := onAssembled_record_iff hfin
    simp only [Option.some.injEq, forall_eq']
    exact hiff

/-! ## Runs -/

/-- A moment of a run, with the run before it, at which an unwanted datagram is processed. -/
structure UnwantedArrival (c : Crates) (start : ZtStack) (earlier : List Moment) (m : Moment)
    (dg : Bytes) (src : SocketAddr) : Prop where
  run : ∃ later st, NodeRun c start (later ++ m :: earlier) st
  datagram : m.event = .datagram dg src
  unwanted : Unwanted c m.before earlier dg m.now

/-- Over every run: an unwanted datagram leaves the record of the peer it claims to come from
    alone when it is one of the ignored ones, and only then. -/
theorem replays_ignored_iff {start : ZtStack} {earlier : List Moment} {m : Moment}
    (h : UnwantedArrival c start earlier m dg src) :
    KeepsRecord m.before m.after dg m.now ↔ Ignored c m.before dg src m.now := by
  obtain ⟨later, st, hrun⟩ := h.run
  have hs := hrun.at_moment.2
  rw [h.datagram] at hs
  cases hs with
  | datagram hr => exact hr.keepsRecord_iff

/-! ## A forged packet -/

/-- The crates on the keys of the two nodes below. -/
def pairCrates : Crates where
  sha512 _ := ⟨
    [192, 244, 225, 190, 99, 66, 122, 60, 150, 225, 125, 153, 215, 211, 235, 138, 241, 114,
     143, 194, 15, 223, 40, 217, 84, 139, 164, 221, 78, 57, 195, 247, 191, 217, 5, 133, 137,
     171, 61, 199, 180, 101, 107, 79, 82, 170, 145, 187, 227, 224, 26, 139, 93, 120, 30, 129,
     191, 226, 188, 63, 244, 205, 112, 131],
    rfl⟩
  mulClamped _ _ := ⟨
    [21, 2, 13, 116, 54, 215, 25, 167, 223, 36, 36, 130, 7, 255, 233, 249, 114, 156, 118, 214,
     12, 172, 69, 12, 103, 243, 173, 91, 75, 6, 228, 46],
    rfl⟩
  ed25519Verify _ _ _ := false

def ownIdentity : NodeIdentity :=
  .fromParts 0x8e4df28b72
    ⟨[172, 61, 70, 171, 224, 194, 31, 60, 254, 122, 108, 141, 106, 133, 207, 207, 252, 184, 47,
      189, 85, 175, 106, 77, 99, 80, 101, 124, 104, 32, 8, 67, 250, 46, 22, 249, 65, 139, 189,
      151, 2, 202, 227, 101, 242, 175, 95, 180, 196, 32, 144, 139, 128, 58, 104, 29, 77, 174,
      246, 17, 77, 120, 162, 215],
      rfl⟩
    (some ⟨
      [189, 141, 214, 228, 206, 112, 34, 210, 248, 18, 121, 122, 128, 198, 238, 138, 209, 128,
       220, 78, 191, 48, 29, 236, 139, 6, 209, 190, 8, 131, 43, 221, 214, 58, 47, 28, 250, 123,
       44, 80, 68, 116, 199, 91, 220, 136, 152, 186, 71, 110, 249, 46, 142, 45, 5, 9, 248, 68,
       25, 133, 23, 31, 241, 110],
      rfl⟩)

def peerIdentity : NodeIdentity :=
  .fromParts 0xcafe9efeb9
    ⟨[204, 222, 247, 107, 199, 185, 125, 237, 144, 78, 171, 197, 223, 9, 136, 109, 156, 21, 20,
      166, 16, 3, 108, 185, 19, 156, 194, 20, 0, 26, 41, 88, 151, 142, 252, 236, 21, 113, 45,
      211, 148, 140, 110, 107, 58, 142, 137, 61, 240, 31, 244, 147, 209, 248, 217, 128, 106,
      134, 12, 84, 32, 87, 27, 240],
      rfl⟩ none

def peerEndpoint : SocketAddr := .v4 0x68c20886 9993

/-- A planet whose only root is the peer. -/
def peerPlanet : World where
  worldType := worldTypePlanet
  id := 0x08eac90a
  timestamp := 0x17ee95760cd
  mustBeSignedBy := ByteVec.zero 64
  signature := ByteVec.zero 96
  roots := [⟨peerIdentity, []⟩]

def freshNode : ZtStack := .new ownIdentity peerPlanet 0 []

/-- The node when it has said HELLO to its root. -/
def greetedNode : ZtStack := freshNode.learnPeer pairCrates peerIdentity (some peerEndpoint) 0

/-- A packet under the name of the peer, of a cipher suite that `dearmor` never accepts. -/
def forgedDatagram (source : UInt64) : Bytes :=
  [0, 0, 0, 0, 0, 0, 0, 7] ++ be40Bytes 0x8e4df28b72 ++ be40Bytes source ++ [0x18] ++
    List.replicate 8 0 ++ [Verb.echo.toByte]

/-- The moment at which a node processes a forged packet. -/
def forgedMoment (source : UInt64) (st : ZtStack) : Moment where
  now := 1
  event := .datagram (forgedDatagram source) peerEndpoint
  before := st
  after := (st.onDatagram pairCrates (forgedDatagram source) peerEndpoint 1).1

def greeting : Moment := ⟨0, .turn, freshNode, greetedNode⟩

/-- No key opens a packet of the suite that is never negotiated. -/
theorem unopened_of_siv
    (h : CipherSuite.fromBits ((assembled.getD packetIdxFlags 0 &&& 0x38) >>> (3 : UInt8)) =
      .ok .aesGmacSiv) : ¬ st.Opens c assembled := by
  rintro ⟨pkt, key, opened, hb, -, hopen⟩
  have hcipher : pkt.cipher = .ok .aesGmacSiv := by
    unfold WirePacket.fromBytes at hb
    split_ifs at hb
    rw [← Except.ok.inj hb]
    exact h
  unfold WirePacket.dearmor at hopen
  rw [hcipher] at hopen
  cases hopen

theorem Sends.refl (st : ZtStack) : Sends st st := ⟨st.expecting, st.probing, rfl⟩

/-- A run goes on with a datagram that hands nothing to `dispatch`. -/
theorem NodeRun.quiet {start : ZtStack} {log : List Moment} (h : NodeRun c start log st)
    (hclock : ∀ m ∈ log, m.now ≤ now) (hquiet : (st.onDatagram c dg src now).2 = none) :
    NodeRun c start
      (⟨now, .datagram dg src, st, (st.onDatagram c dg src now).1⟩ :: log)
      (st.onDatagram c dg src now).1 :=
  h.step hclock (.datagram (.quiet (Prod.ext rfl hquiet) (.refl _)))

/-- The moment at which a forged packet arrives that is handed to nobody. -/
theorem forged_arrival {earlier : List Moment} {source : UInt64}
    (hrun : NodeRun pairCrates freshNode earlier st) (hclock : ∀ m ∈ earlier, m.now ≤ 1)
    (hcomp : st.completes (forgedDatagram source) 1 = some (forgedDatagram source))
    (hquiet : (st.onDatagram pairCrates (forgedDatagram source) peerEndpoint 1).2 = none)
    (hflags : (forgedDatagram source).getD packetIdxFlags 0 = 0x18) :
    UnwantedArrival pairCrates freshNode earlier (forgedMoment source st)
      (forgedDatagram source) peerEndpoint where
  run := ⟨[], _, hrun.quiet hclock hquiet⟩
  datagram := rfl
  unwanted := by
    refine .inl ⟨_, hcomp, unopened_of_siv ?_⟩
    rw [hflags]
    rfl

/-- The forged packet of a peer goes on the list of the packets it sent. -/
theorem forged_packet_noted :
    UnwantedArrival pairCrates freshNode [greeting] (forgedMoment 0xcafe9efeb9 greetedNode)
        (forgedDatagram 0xcafe9efeb9) peerEndpoint ∧
      ¬ KeepsRecord greetedNode (forgedMoment 0xcafe9efeb9 greetedNode).after
        (forgedDatagram 0xcafe9efeb9) 1 := by
  have hcomp : greetedNode.completes (forgedDatagram 0xcafe9efeb9) 1 =
      some (forgedDatagram 0xcafe9efeb9) := by
    decide +kernel
  have hgreet : NodeRun pairCrates freshNode [greeting] greetedNode :=
    NodeRun.start.step nofun (.turn (.rootHello peerIdentity peerEndpoint ⟨_, _, rfl⟩))
  refine ⟨forged_arrival hgreet (by simp [greeting]) hcomp (by decide +kernel)
    (by decide +kernel), fun hkeep => ?_⟩
  have hsame := hkeep _ hcomp
  revert hsame
  decide +kernel

/-- The forged packet of a node that is no peer leaves no trace. -/
theorem replays_ignored_iff_stranger :
    KeepsRecord freshNode (forgedMoment 0xcafe9efeba freshNode).after
        (forgedDatagram 0xcafe9efeba) 1 ↔
      Ignored pairCrates freshNode (forgedDatagram 0xcafe9efeba) peerEndpoint 1 := by
  have harrival : UnwantedArrival pairCrates freshNode [] (forgedMoment 0xcafe9efeba freshNode)
      (forgedDatagram 0xcafe9efeba) peerEndpoint :=
    forged_arrival .start nofun (by decide +kernel) (by decide +kernel) (by decide +kernel)
  exact replays_ignored_iff harrival

end RustCrash.ZeroTier
