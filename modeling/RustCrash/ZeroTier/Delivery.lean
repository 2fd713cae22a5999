import RustCrash.ZeroTier.Cutting
import RustCrash.ZeroTier.Replays

/-
  A packet that a known peer sends reaches `dispatch` once (`on_datagram` and
  `armor_and_fragment` in `proto/zerotier.rs`), if it fits: `delivered_iff`.

  It fits when it is no longer than `from_bytes` accepts, and when its last datagram is as long
  as a packet header: `on_datagram` makes its length test before it feeds the fragment queue,
  which takes fragments of 16 bytes and more.
-/

namespace RustCrash.ZeroTier

open Lib

/-! ## What is handed on -/

/-- The packet that a moment hands to `dispatch`. -/
def Moment.handed (c : Crates) (m : Moment) : Option WirePacket :=
  match m.event with
  | .datagram dg src => (m.before.onDatagram c dg src m.now).2
  | .turn => none

/-- The packets with an id that a run hands to `dispatch`, the last one first. -/
def handedWith (c : Crates) (id : UInt64) (log : List Moment) : List WirePacket :=
  (log.filterMap (Moment.handed c)).filter fun pkt => pkt.packetId == id

/-- The datagram of a moment, if it is one of a packet. -/
def Moment.brings (id : UInt64) (m : Moment) : Option Bytes :=
  match m.event with
  | .datagram dg _ => if idOf dg = id then some dg else none
  | .turn => none

/-- The datagrams of a packet in a run, the last one first. -/
def datagramsOf (id : UInt64) (log : List Moment) : List Bytes := log.filterMap (Moment.brings id)

/-- A known peer sends a packet with a fresh id, and in a run of the node all its datagrams come
    in, in any order, among those of other packets, within the fragment TTL. -/
structure Delivery (c : Crates) (pkt : WirePacket) (data : Bytes) (key : SymmetricKey)
    (mtu : Nat) (start : ZtStack) (log : List Moment) : Prop where
  reachable : ∃ identity world networkId orbit past,
    NodeRun c (.new identity world networkId orbit) past start
  carries : pkt.Carries data
  mtuBound : 64 ≤ mtu
  dest : pkt.dest = start.identity.address
  destValid : addressIsReserved pkt.dest = false
  sourceValid : addressIsReserved pkt.source = false
  source : pkt.source ≠ pkt.dest
  peer : ∃ peer, start.peers pkt.source = some peer ∧ peer.key = key ∧
    pkt.packetId ∉ peer.recentIds
  fresh : start.frags.entries pkt.packetId = none
  sent : ∃ dgs, (armorAndFragment pkt key mtu).2 = .ok dgs ∧
    (datagramsOf pkt.packetId log).Perm dgs
  run : ∃ st, NodeRun c start log st
  inTime : ∀ m ∈ log, ∀ m' ∈ log, m.brings pkt.packetId ≠ none →
    m'.brings pkt.packetId ≠ none → m'.now < m.now + fragmentTtl

/-- Exactly one packet is handed on under the id, and it is what was sent. -/
def Delivered (c : Crates) (pkt : WirePacket) (data : Bytes) (log : List Moment) : Prop :=
  ∃ got, handedWith c pkt.packetId log = [got] ∧ pkt.Arrives data got

/-- The packet and its last datagram are of sizes that the receiver accepts. -/
def Fits (pkt : WirePacket) (mtu : Nat) : Prop :=
  LastFits pkt.len mtu ∧ pkt.len ≤ maxPacketLength

/-! ## Packets of others -/

namespace WirePacket

theorem packetId_setBody (p : WirePacket) {body : Bytes} (h : body.length = p.body.length) :
    (p.setBody body h).packetId = p.packetId :=
  congrArg ofBE64 (slice_of_take (List.take_left' (p.length_take_buf (by decide)))
    (by decide : 0 + 8 ≤ packetIdxVerb))

theorem packetId_dearmor {p q : WirePacket} {key : SymmetricKey} (h : p.dearmor key = .ok q) :
    q.packetId = p.packetId := by
  unfold dearmor at h
  obtain ⟨suite, -, h⟩ := bind_eq_ok.mp h
  split_ifs at h
  · rw [← Except.ok.inj h]
    exact p.packetId_setBody _
  · rw [← Except.ok.inj h]

theorem packetId_uncompress {p q : WirePacket} (h : p.uncompress = .ok q) :
    q.packetId = p.packetId := by
  unfold uncompress at h
  split_ifs at h
  · rw [← Except.ok.inj h]
  · obtain ⟨plain, -, h⟩ := bind_eq_ok.mp h
    rw [← Except.ok.inj h]
    exact (arrives_unpacked ⟨rfl, rfl⟩).packetId

end WirePacket

/-- What an assembled packet does: it may get its id on the list of its source, and what is
    handed on has that id. -/
structure Takes (st : ZtStack) (id : UInt64) (result : ZtStack × Option WirePacket) : Prop where
  identity : result.1.identity = st.identity
  frags : result.1.frags = st.frags
  peers : ∀ a p, st.peers a = some p → ∃ p', result.1.peers a = some p' ∧ p'.key = p.key ∧
    ∀ other, other ∈ p'.recentIds → other ∈ p.recentIds ∨ other = id
  packet : ∀ pkt, result.2 = some pkt → pkt.packetId = id

variable {c : Crates} {st st' : ZtStack} {id : UInt64} {now : Nat} {src : SocketAddr}

theorem Takes.of_later {st' : ZtStack} (h : Later st st') (id : UInt64) :
    Takes st id (st', none) where
  identity := h.identity
  frags := h.frags
  peers a p hp := by
    obtain ⟨p', hp', hk, hr⟩ := h.peers a p hp
    exact ⟨p', hp', hk, fun other hother => .inl (hr ▸ hother)⟩
  packet := nofun

theorem notePacket_ids {peer : PeerEntry} {id other : UInt64}
    (h : other ∈ (peer.notePacket id).1.recentIds) : other ∈ peer.recentIds ∨ other = id := by
  unfold PeerEntry.notePacket at h
  split_ifs at h
  · exact .inl h
  · rcases List.mem_append.mp h with h | h
    · exact .inl (List.mem_of_mem_tail h)
    · exact .inr (List.mem_singleton.mp h)
  · rcases List.mem_append.mp h with h | h
    · exact .inl h
    · exact .inr (List.mem_singleton.mp h)

theorem notePacket_key (peer : PeerEntry) (id : UInt64) :
    (peer.notePacket id).1.key = peer.key := by
  unfold PeerEntry.notePacket
  split_ifs <;> rfl

/-- An entry in whose list the id may be new. -/
theorem takes_setPeer {source : UInt64} {peer entry : PeerEntry}
    {handed : Option WirePacket} (hpeer : st.peers source = some peer)
    (hkey : entry.key = peer.key)
    (hids : ∀ other, other ∈ entry.recentIds → other ∈ peer.recentIds ∨ other = id)
    (hhanded : ∀ pkt, handed = some pkt → pkt.packetId = id) :
    Takes st id (st.setPeer source entry, handed) where
  identity := rfl
  frags := rfl
  peers a p hp := by
    unfold ZtStack.setPeer
    by_cases ha : a = source
    · subst ha
      rw [hpeer, Option.some_inj] at hp
      subst hp
      exact ⟨entry, by simp, hkey, hids⟩
    · exact ⟨p, by simp [ha, hp], rfl, fun other h => .inl h⟩
  packet := hhanded

theorem fromBytes_buf {assembled : Bytes} {pkt : WirePacket}
    (h : WirePacket.fromBytes assembled = .ok pkt) : pkt.buf = assembled := by
  unfold WirePacket.fromBytes at h
  split_ifs at h
  rw [← Except.ok.inj h]

theorem onArmored_takes {source : UInt64} {peer : PeerEntry} (hpeer : st.peers source = some peer)
    (assembled : Bytes) : Takes st (idOf assembled) (st.onArmored source peer assembled now) := by
  unfold ZtStack.onArmored
  cases hb : WirePacket.fromBytes assembled with
  | error => exact takes_setPeer hpeer rfl (fun other h => .inl h) nofun
  | ok pkt =>
    have hid : pkt.packetId = idOf assembled := by
      rw [WirePacket.packetId, fromBytes_buf hb]
      rfl
    have hnoted (handed : Option WirePacket)
        (hhanded : ∀ q, handed = some q → q.packetId = idOf assembled) :
        Takes st (idOf assembled) (st.setPeer source
          (PeerEntry.notePacket { peer with lastSeen := now } pkt.packetId).1, handed) := by
      refine takes_setPeer hpeer (notePacket_key _ _) (fun other hother => ?_) hhanded
      rw [← hid]
      have hcases := notePacket_ids hother
      exact hcases
    dsimp only
    split_ifs with hfresh
    · exact hnoted none nofun
    · cases ho : pkt.dearmor peer.key with
      | error => exact hnoted none nofun
      | ok opened =>
        dsimp only
        cases hu : opened.uncompress with
        | error => exact hnoted none nofun
        | ok plain =>
          refine hnoted (some plain) fun q hq => ?_
          rw [← Option.some.inj hq, WirePacket.packetId_uncompress hu,
            WirePacket.packetId_dearmor ho, hid]

theorem onAssembled_takes (st : ZtStack) (assembled : Bytes) (src : SocketAddr) (now : Nat) :
    Takes st (idOf assembled) (st.onAssembled c assembled src now) := by
  unfold ZtStack.onAssembled
  split_ifs with hlen hhello
  · exact .of_later (.refl st) _
  · split
    · refine .of_later ?_ _
      unfold ZtStack.onHello
      split
      · exact .refl st
      · exact learnPeer_later _ _ _ _
    · exact .of_later (.refl st) _
  · dsimp only
    cases hpeer : st.peers (be40 (slice assembled packetIdxSource 5)) with
    | none => exact .of_later (.refl st) _
    | some peer => exact onArmored_takes hpeer assembled

/-- What a step that is not about a packet does to what its delivery depends on. -/
structure Bystands (id : UInt64) (st st' : ZtStack) : Prop where
  identity : st'.identity = st.identity
  peers : ∀ a p, st.peers a = some p → ∃ p', st'.peers a = some p' ∧ p'.key = p.key ∧
    (id ∈ p'.recentIds → id ∈ p.recentIds)

theorem Later.bystands (h : Later st st') (id : UInt64) : Bystands id st st' where
  identity := h.identity
  peers a p hp := by
    obtain ⟨p', hp', hk, hr⟩ := h.peers a p hp
    exact ⟨p', hp', hk, fun hid => hr ▸ hid⟩

theorem Bystands.trans {st'' : ZtStack} (h : Bystands id st st') (h' : Bystands id st' st'') :
    Bystands id st st'' := by
  refine ⟨h'.identity.trans h.identity, fun a p hp => ?_⟩
  obtain ⟨p', hp', hk, hr⟩ := h.peers a p hp
  obtain ⟨p'', hp'', hk', hr'⟩ := h'.peers a p' hp'
  exact ⟨p'', hp'', hk'.trans hk, fun hid => hr (hr' hid)⟩

/-- The effects of a datagram on the queue and on the rest of the node. -/
theorem onDatagram_cases (c : Crates) (st : ZtStack) (dg : Bytes) (src : SocketAddr) (now : Nat) :
    (st.drops dg = true ∧ st.onDatagram c dg src now = (st, none)) ∨
      (st.drops dg = false ∧ (st.frags.ingest now dg).2 = none ∧
        st.onDatagram c dg src now = (st.fed dg now, none)) ∨
      ∃ assembled, st.drops dg = false ∧ (st.frags.ingest now dg).2 = some assembled ∧
        st.onDatagram c dg src now = (st.fed dg now).onAssembled c assembled src now := by
  by_cases hd : st.drops dg = true
  · exact .inl ⟨hd, st.onDatagram_dropped c src hd⟩
  · rw [Bool.not_eq_true] at hd
    cases hp : (st.frags.ingest now dg).2 with
    | none => exact .inr (.inl ⟨hd, rfl, st.onDatagram_waiting c src hd hp⟩)
    | some assembled =>
      refine .inr (.inr ⟨assembled, hd, rfl, st.onDatagram_completed c src ?_⟩)
      rw [ZtStack.completes, hd]
      exact hp

/-- The fragments after a datagram. -/
theorem onDatagram_frags (c : Crates) (st : ZtStack) (dg : Bytes) (src : SocketAddr) (now : Nat) :
    (st.onDatagram c dg src now).1.frags =
      if st.drops dg then st.frags else (st.frags.ingest now dg).1 := by
  rcases onDatagram_cases c st dg src now with
    ⟨hd, heq⟩ | ⟨hd, -, heq⟩ | ⟨assembled, hd, -, heq⟩
  · rw [heq, if_pos hd]
  · rw [heq, hd]
    rfl
  · rw [heq, hd, (onAssembled_takes _ assembled src now).frags]
    rfl

theorem onDatagram_keyed {dg : Bytes} (hkeyed : st.frags.Keyed) :
    (st.onDatagram c dg src now).1.frags.Keyed := by
  rw [onDatagram_frags]
  split_ifs
  · exact hkeyed
  · exact (ingest_frame hkeyed now dg).keyed

theorem Takes.bystands {id other : UInt64} {result : ZtStack × Option WirePacket}
    (h : Takes st other result) (hne : id ≠ other) : Bystands id st result.1 where
  identity := h.identity
  peers a p hp := by
    obtain ⟨p', hp', hk, hr⟩ := h.peers a p hp
    exact ⟨p', hp', hk, fun hid => (hr id hid).resolve_right hne⟩

/-- A datagram of another packet. -/
theorem onDatagram_bystands (c : Crates) {dg : Bytes} (src : SocketAddr) (now : Nat)
    (hkeyed : st.frags.Keyed) (hid : idOf dg ≠ id) :
    Bystands id st (st.onDatagram c dg src now).1 ∧
      (st.onDatagram c dg src now).1.frags.entries id = st.frags.entries id ∧
      ∀ pkt, (st.onDatagram c dg src now).2 = some pkt → pkt.packetId ≠ id := by
  have hframe := ingest_frame hkeyed now dg
  have hentries : (st.onDatagram c dg src now).1.frags.entries id = st.frags.entries id := by
    rw [onDatagram_frags]
    split_ifs
    · rfl
    · exact hframe.others id hid.symm
  rcases onDatagram_cases c st dg src now with
    ⟨hd, heq⟩ | ⟨hd, -, heq⟩ | ⟨assembled, hd, hp, heq⟩
  · rw [heq]
    exact ⟨(Later.refl st).bystands id, rfl, nofun⟩
  · rw [heq] at hentries ⊢
    exact ⟨⟨rfl, fun a p hp => ⟨p, hp, rfl, fun h => h⟩⟩, hentries, nofun⟩
  · have htakes := onAssembled_takes (c := c) (st.fed dg now) assembled src now
    rw [hframe.packet assembled hp] at htakes
    have hby := htakes.bystands hid.symm
    rw [heq] at hentries ⊢
    exact ⟨⟨hby.identity, hby.peers⟩, hentries, fun pkt hpkt => htakes.packet pkt hpkt ▸ hid⟩

/-! ## Steps -/

theorem Turns.effect (h : Turns c st now st') (id : UInt64) :
    Bystands id st st' ∧ (st'.frags = st.frags ∨ st'.frags = st.frags.expire now) := by
  cases h with
  | sends hs => exact ⟨hs.later.bystands id, .inl hs.later.frags⟩
  | expire => exact ⟨⟨rfl, fun a p hp => ⟨p, hp, rfl, fun h => h⟩⟩, .inr rfl⟩
  | rootHello root endpoint hs =>
    have hlater := (learnPeer_later st root (some endpoint) now).trans hs.later
    exact ⟨hlater.bystands id, .inl hlater.frags⟩

theorem Step.keyed {event : Event} (h : Step c st now event st') (hk : st.frags.Keyed) :
    st'.frags.Keyed := by
  cases h with
  | datagram hr =>
    rw [hr.later.frags]
    exact onDatagram_keyed hk
  | turn ht =>
    rcases (ht.effect 0).2 with h | h
    · rw [h]
      exact hk
    · rw [h]
      exact hk.expire now

theorem NodeRun.keyed {start : ZtStack} {log : List Moment} (h : NodeRun c start log st)
    (hk : start.frags.Keyed) : st.frags.Keyed := by
  induction h with
  | start => exact hk
  | step _ _ hs ih => exact hs.keyed ih

/-- Later moments do not come before earlier ones. -/
theorem NodeRun.clock {start : ZtStack} {later earlier : List Moment} {m : Moment}
    (h : NodeRun c start (later ++ m :: earlier) st) : ∀ m' ∈ later, m.now ≤ m'.now := by
  induction later generalizing st with
  | nil => exact List.forall_mem_nil _
  | cons x later ih =>
    cases h with
    | step h hclock _ =>
      intro m' hm'
      rcases List.mem_cons.mp hm' with rfl | hm'
      · exact hclock m (List.mem_append_right _ List.mem_cons_self)
      · exact ih h m' hm'

/-! ## The packet itself -/

variable {pkt : WirePacket} {data : Bytes} {key : SymmetricKey} {mtu total : Nat}
  {piece : Nat → Bytes}

theorem source_armored (pkt : WirePacket) (key : SymmetricKey) (mtu : Nat) :
    (armored pkt key mtu).source = pkt.source :=
  congrArg be40 (slice_of_take (take_armored pkt key mtu) (by decide))

theorem dest_armored (pkt : WirePacket) (key : SymmetricKey) (mtu : Nat) :
    (armored pkt key mtu).dest = pkt.dest :=
  congrArg be40 (slice_of_take (take_armored pkt key mtu) (by decide))

theorem packetId_armored (pkt : WirePacket) (key : SymmetricKey) (mtu : Nat) :
    (armored pkt key mtu).packetId = pkt.packetId :=
  congrArg ofBE64 (slice_of_take (take_armored pkt key mtu) (by decide))

/-- A datagram of the packet gets past the first checks unless it is too short. -/
theorem drops_piece (h : Datagrams (armored pkt key mtu) mtu total piece)
    (hdest : pkt.dest = st.identity.address) (hvalid : addressIsReserved pkt.dest = false)
    (hsource : pkt.source ≠ pkt.dest) {i : Nat} (hi : i < total) :
    st.drops (piece i) = decide ((piece i).length < packetHeaderLen) := by
  unfold ZtStack.drops
  by_cases hlen : (piece i).length < packetHeaderLen
  · simp [hlen]
  · have hto : be40 (slice (piece i) packetIdxDest 5) = st.identity.address := by
      rw [h.dest i hi, ← hdest]
      exact dest_armored pkt key mtu
    have hfrom : be40 (slice (piece i) packetIdxSource 5) ≠ st.identity.address := by
      rw [← hdest]
      by_cases hi0 : i = 0
      · rw [hi0, h.source]
        exact fun heq => hsource ((source_armored pkt key mtu).symm.trans heq)
      · intro heq
        have hres := indicator_reserved (Nat.not_lt.mp hlen) (h.pieces.indicator i hi hi0)
        rw [heq, hvalid] at hres
        cases hres
    simp [hlen, hto, hfrom]

/-- An armored packet is not taken for a HELLO in the clear. -/
theorem not_plainHello_armored (pkt : WirePacket) (key : SymmetricKey) (mtu : Nat) :
    ZtStack.isPlainHello (armored pkt key mtu).buf = false := by
  have hbits : ((armored pkt key mtu).buf.getD packetIdxFlags 0 &&& 0x38) >>> (3 : UInt8) ≠ 0 := by
    intro hzero
    have hcipher : (armored pkt key mtu).cipher = .ok .c25519Poly1305Salsa2012 :=
      WirePacket.cipher_armor _ key
    rw [WirePacket.cipher, WirePacket.flags, hzero] at hcipher
    cases hcipher
  unfold ZtStack.isPlainHello
  rw [beq_eq_false_iff_ne.mpr hbits, Bool.and_false, Bool.false_and]

/-- An armored packet with a new id passes the duplicate filter and the armor. -/
theorem onArmored_armored {peer : PeerEntry} (source : UInt64) (hcarries : pkt.Carries data)
    (hkey : peer.key = key) (hfresh : pkt.packetId ∉ peer.recentIds) (mtu : Nat)
    (hlen : pkt.len ≤ maxPacketLength) :
    ∃ got, (st.onArmored source peer (armored pkt key mtu).buf now).2 = some got ∧
      pkt.Arrives data got := by
  let seen : PeerEntry :=
    { peer with
      lastSeen := now }
  have hbytes : WirePacket.fromBytes (armored pkt key mtu).buf = .ok (armored pkt key mtu) := by
    have hlong := length_armored pkt key mtu
    have hheader := (armored pkt key mtu).header
    rw [WirePacket.len] at hlong
    rw [WirePacket.fromBytes, dif_neg]
    omega
  have hid : (armored pkt key mtu).packetId ∉ seen.recentIds := by
    rw [packetId_armored]
    exact hfresh
  obtain ⟨opened, hopened, hsame⟩ := WirePacket.dearmor_armor
    (pkt.setFragmented (1 < fragmentCount pkt.len mtu)) key
  have hdearmor : (armored pkt key mtu).dearmor key = .ok opened := hopened
  obtain ⟨got, hgot, harrives⟩ :=
    hcarries.uncompress ((WirePacket.sameContent_setFlags pkt _).trans hsame) hlen
  refine ⟨got, ?_, harrives⟩
  unfold ZtStack.onArmored
  simp only [hbytes, hkey, hdearmor, hgot, PeerEntry.notePacket]
  rw [if_neg hid]
  rfl

/-- The whole packet: it is handed on, unless it is too long. -/
theorem onAssembled_armored (c : Crates) (src : SocketAddr) (now : Nat) {peer : PeerEntry}
    (hcarries : pkt.Carries data) (hpeer : st.peers pkt.source = some peer) (hkey : peer.key = key)
    (hfresh : pkt.packetId ∉ peer.recentIds) (mtu : Nat) :
    (pkt.len ≤ maxPacketLength →
        ∃ got, (st.onAssembled c (armored pkt key mtu).buf src now).2 = some got ∧
          pkt.Arrives data got) ∧
      (maxPacketLength < pkt.len →
        (st.onAssembled c (armored pkt key mtu).buf src now).2 = none) := by
  have hsource : be40 (slice (armored pkt key mtu).buf packetIdxSource 5) = pkt.source :=
    source_armored pkt key mtu
  unfold ZtStack.onAssembled
  rw [if_neg (Nat.not_lt.mpr (armored pkt key mtu).header), not_plainHello_armored,
    if_neg Bool.false_ne_true]
  simp only [hsource, hpeer]
  refine ⟨onArmored_armored pkt.source hcarries hkey hfresh mtu, fun hlong => ?_⟩
  have hbytes : WirePacket.fromBytes (armored pkt key mtu).buf =
      .error (.crypto "zerotier: bad packet length") := by
    rw [WirePacket.fromBytes, dif_pos]
    right
    rw [← length_armored pkt key mtu] at hlong
    exact hlong
  unfold ZtStack.onArmored
  rw [hbytes]

/-! ## Runs -/

/-- What is handed on of a packet when some of its pieces are there. -/
def HandedOn (pkt : WirePacket) (data : Bytes) (full : Prop) (handed : List WirePacket) : Prop :=
  (¬ full → handed = []) ∧
    (full → pkt.len ≤ maxPacketLength → ∃ got, handed = [got] ∧ pkt.Arrives data got) ∧
    (full → maxPacketLength < pkt.len → handed = [])

/-- How far a delivery has come when the pieces of a list have come in. -/
structure Progress (c : Crates) (pkt : WirePacket) (data : Bytes) (key : SymmetricKey)
    (start : ZtStack) (total : Nat) (piece : Nat → Bytes) (order : List Nat) (log : List Moment)
    (st : ZtStack) : Prop where
  identity : st.identity = start.identity
  peer : ∃ peer, st.peers pkt.source = some peer ∧ peer.key = key ∧
    (order.toFinset ≠ Finset.range total → pkt.packetId ∉ peer.recentIds)
  waiting : order.toFinset ≠ Finset.range total →
    ∃ since, st.frags.Holds pkt.packetId piece total order.toFinset since ∧
      (order ≠ [] → ∃ m ∈ log, m.brings pkt.packetId ≠ none ∧ m.now = since)
  handed : HandedOn pkt data (order.toFinset = Finset.range total)
    (handedWith c pkt.packetId log)

variable {start : ZtStack} {order : List Nat} {log : List Moment} {m : Moment}

theorem progress_start {peer : PeerEntry} (hpeer : start.peers pkt.source = some peer)
    (hkey : peer.key = key) (hid : pkt.packetId ∉ peer.recentIds)
    (hfresh : start.frags.entries pkt.packetId = none) (htotal : 0 < total) :
    Progress c pkt data key start total piece [] [] start where
  identity := rfl
  peer := ⟨peer, hpeer, hkey, fun _ => hid⟩
  waiting _ := ⟨0, hfresh, fun h => absurd rfl h⟩
  handed := by
    have hnot : ¬ ([] : List Nat).toFinset = Finset.range total := fun h => by
      have h0 : 0 ∈ Finset.range total := Finset.mem_range.mpr htotal
      rw [← h] at h0
      exact absurd h0 (by simp)
    exact ⟨fun _ => rfl, fun h => absurd h hnot, fun h => absurd h hnot⟩

theorem handedWith_quiet (h : m.handed c = none) :
    handedWith c id (m :: log) = handedWith c id log := by
  rw [handedWith, List.filterMap_cons_none h]
  rfl

theorem handedWith_cons {p : WirePacket} (h : m.handed c = some p) :
    handedWith c id (m :: log) =
      if p.packetId = id then p :: handedWith c id log else handedWith c id log := by
  rw [handedWith, List.filterMap_cons_some h, List.filter_cons]
  simp only [beq_iff_eq]
  rfl

variable {dg : Bytes}

theorem brings_datagram (id : UInt64) (hm : m.event = .datagram dg src) :
    m.brings id = if idOf dg = id then some dg else none := by
  rw [Moment.brings, hm]

theorem brings_turn (id : UInt64) (hm : m.event = .turn) : m.brings id = none := by
  rw [Moment.brings, hm]

theorem handed_datagram (hm : m.event = .datagram dg src) :
    m.handed c = (m.before.onDatagram c dg src m.now).2 := by
  rw [Moment.handed, hm]

theorem handed_turn (hm : m.event = .turn) : m.handed c = none := by
  rw [Moment.handed, hm]

/-- A step that is not about the packet, after which its entry is still there. -/
theorem Progress.bystands
    (h : Progress c pkt data key start total piece order log m.before)
    (hby : Bystands pkt.packetId m.before m.after)
    (hentries : order.toFinset ≠ Finset.range total →
      m.after.frags.entries pkt.packetId = m.before.frags.entries pkt.packetId)
    (hhanded : handedWith c pkt.packetId (m :: log) = handedWith c pkt.packetId log) :
    Progress c pkt data key start total piece order (m :: log) m.after where
  identity := hby.identity.trans h.identity
  peer := by
    obtain ⟨p, hp, hk, hid⟩ := h.peer
    obtain ⟨p', hp', hk', hid'⟩ := hby.peers _ p hp
    exact ⟨p', hp', hk'.trans hk, fun hne h => hid hne (hid' h)⟩
  waiting hne := by
    obtain ⟨since, hholds, hfirst⟩ := h.waiting hne
    refine ⟨since, (hentries hne).trans hholds, fun hne => ?_⟩
    obtain ⟨m₀, hm₀, hbrings⟩ := hfirst hne
    exact ⟨m₀, List.mem_cons_of_mem _ hm₀, hbrings⟩
  handed := hhanded ▸ h.handed

/-- A datagram of another packet. -/
theorem Progress.other (hkeyed : m.before.frags.Keyed)
    (h : Progress c pkt data key start total piece order log m.before)
    (hm : m.event = .datagram dg src) (hr : Received c m.before dg src m.now m.after)
    (hid : idOf dg ≠ pkt.packetId) :
    Progress c pkt data key start total piece order (m :: log) m.after := by
  obtain ⟨hby, hentries, hpacket⟩ :=
    onDatagram_bystands c src m.now hkeyed hid
  refine h.bystands (hby.trans (hr.later.bystands _)) (fun _ => ?_) ?_
  · rw [hr.later.frags, hentries]
  · rw [← handed_datagram hm] at hpacket
    cases hhanded : m.handed c with
    | none => exact handedWith_quiet hhanded
    | some p => rw [handedWith_cons hhanded, if_neg (hpacket p hhanded)]

/-- A turn that comes in time. -/
theorem Progress.turn (h : Progress c pkt data key start total piece order log m.before)
    (hm : m.event = .turn) (ht : Turns c m.before m.now m.after)
    (htime : order.toFinset ≠ Finset.range total →
      ∀ m₀ ∈ log, m₀.brings pkt.packetId ≠ none → m.now < m₀.now + fragmentTtl) :
    Progress c pkt data key start total piece order (m :: log) m.after := by
  obtain ⟨hby, hfrags⟩ := ht.effect pkt.packetId
  refine h.bystands hby (fun hne => ?_) (handedWith_quiet (handed_turn hm))
  rcases hfrags with hsame | hexpire
  · rw [hsame]
  · obtain ⟨since, hholds, hfirst⟩ := h.waiting hne
    have hfilter : (m.before.frags.expire m.now).entries pkt.packetId =
        (m.before.frags.entries pkt.packetId).filter fun e => m.now - e.since < fragmentTtl := rfl
    rw [hexpire, hfilter, hholds]
    split_ifs with hempty
    · rfl
    · have horder : order ≠ [] := fun hnil => hempty (by rw [hnil]; rfl)
      obtain ⟨m₀, hm₀, hbrings, hsince⟩ := hfirst horder
      have hlt := htime hne m₀ hm₀ hbrings
      have hpos : 0 < fragmentTtl := by decide
      have hkeep : m.now - (holding piece total order.toFinset since).since < fragmentTtl := by
        change m.now - since < fragmentTtl
        omega
      rw [Option.filter_some, if_pos (decide_eq_true hkeep)]

/-- One more piece. -/
theorem Progress.onePiece (hcarries : pkt.Carries data)
    (hdg : Datagrams (armored pkt key mtu) mtu total piece)
    (hdest : pkt.dest = start.identity.address) (hvalid : addressIsReserved pkt.dest = false)
    (hsource : pkt.source ≠ pkt.dest) {i : Nat} (hi : i < total) (hnew : i ∉ order)
    (hsub : order.toFinset ⊆ Finset.range total)
    (hlong : packetHeaderLen ≤ (piece i).length)
    (h : Progress c pkt data key start total piece order log m.before)
    (hm : m.event = .datagram (piece i) src)
    (hr : Received c m.before (piece i) src m.now m.after) :
    Progress c pkt data key start total piece (i :: order) (m :: log) m.after := by
  obtain ⟨peer, hpeer, hkey, hfresh⟩ := h.peer
  have hhanded := handed_datagram (c := c) hm
  have hlater := hr.later
  have hset : (i :: order).toFinset = insert i order.toFinset := List.toFinset_cons
  have hpart : order.toFinset ≠ Finset.range total := fun heq => by
    have hmem : i ∈ order.toFinset := heq ▸ Finset.mem_range.mpr hi
    exact hnew (List.mem_toFinset.mp hmem)
  obtain ⟨since, hholds, hfirst⟩ := h.waiting hpart
  have hdrop : m.before.drops (piece i) = false := by
    rw [drops_piece hdg (hdest.trans (congrArg _ h.identity.symm)) hvalid hsource hi]
    exact decide_eq_false (Nat.not_lt.mpr hlong)
  have hpieces := hdg.pieces
  rw [packetId_armored] at hpieces
  have hin := ingest_piece hpieces hholds hsub hi
    (fun hmem => hnew (List.mem_toFinset.mp hmem)) m.now
  rw [← hset] at hin
  by_cases hfull : (i :: order).toFinset = Finset.range total
  · -- the piece completes the packet
    obtain ⟨hpacket, -⟩ := hin.1 hfull
    rw [hdg.whole] at hpacket
    have hcomp : m.before.completes (piece i) m.now = some (armored pkt key mtu).buf := by
      rw [ZtStack.completes, hdrop]
      exact hpacket
    rw [ZtStack.onDatagram_completed c src hcomp] at hhanded hlater
    have htakes := onAssembled_takes (c := c) (m.before.fed (piece i) m.now)
      (armored pkt key mtu).buf src m.now
    have hpeer' : (m.before.fed (piece i) m.now).peers pkt.source = some peer := hpeer
    obtain ⟨hgot, hlost⟩ :=
      onAssembled_armored c src m.now hcarries hpeer' hkey (hfresh hpart) mtu
    rw [← hhanded] at hgot hlost
    refine ⟨?_, ?_, fun hne => absurd hfull hne, fun hne => absurd hfull hne,
      fun _ hlen => ?_, fun _ hlen => ?_⟩
    · exact hlater.identity.trans (htakes.identity.trans h.identity)
    · obtain ⟨p₁, hp₁, hk₁, -⟩ := htakes.peers _ peer hpeer
      obtain ⟨p₂, hp₂, hk₂, -⟩ := hlater.peers _ p₁ hp₁
      exact ⟨p₂, hp₂, hk₂.trans (hk₁.trans hkey), fun hne => absurd hfull hne⟩
    · obtain ⟨got, hgot, harrives⟩ := hgot hlen
      refine ⟨got, ?_, harrives⟩
      rw [handedWith_cons hgot, if_pos harrives.packetId, h.handed.1 hpart]
    · rw [handedWith_quiet (hlost hlen), h.handed.1 hpart]
  · -- others are still to come
    obtain ⟨hpacket, hnow⟩ := hin.2 hfull
    rw [ZtStack.onDatagram_waiting c src hdrop hpacket] at hhanded hlater
    refine ⟨hlater.identity.trans h.identity, ?_, fun _ => ?_, ?_⟩
    · obtain ⟨p', hp', hk', hids⟩ := hlater.peers _ peer hpeer
      exact ⟨p', hp', hk'.trans hkey, fun _ hid => hfresh hpart (hids ▸ hid)⟩
    · refine ⟨sinceNow order.toFinset since m.now, ?_, fun _ => ?_⟩
      · rw [hlater.frags]
        exact hnow
      · unfold sinceNow
        split_ifs with hempty
        · refine ⟨m, List.mem_cons_self, ?_, rfl⟩
          rw [brings_datagram _ hm, if_pos (hpieces.id i hi)]
          exact Option.some_ne_none _
        · have horder : order ≠ [] := fun hnil => hempty (by rw [hnil]; rfl)
          obtain ⟨m₀, hm₀, hbrings⟩ := hfirst horder
          exact ⟨m₀, List.mem_cons_of_mem _ hm₀, hbrings⟩
    · refine ⟨fun _ => ?_, fun hf => absurd hf hfull, fun hf => absurd hf hfull⟩
      rw [handedWith_quiet hhanded, h.handed.1 hpart]

/-- A run that goes on, with the pieces that come in it and those that come after. -/
structure Unfolds (c : Crates) (id : UInt64) (start : ZtStack) (total : Nat)
    (piece : Nat → Bytes) (log : List Moment) (order : List Nat) : Prop where
  pieces : datagramsOf id log = order.map piece
  rest : ∃ later final rest, NodeRun c start (later ++ log) final ∧
    datagramsOf id later = rest.map piece ∧ (rest ++ order).Perm (List.range total) ∧
    ∀ m ∈ later ++ log, ∀ m' ∈ later ++ log, m.brings id ≠ none → m'.brings id ≠ none →
      m'.now < m.now + fragmentTtl

theorem Unfolds.quiet (h : Unfolds c id start total piece (m :: log) order)
    (hm : m.brings id = none) : Unfolds c id start total piece log order := by
  obtain ⟨later, final, rest, hrun, hlater, hperm, htime⟩ := h.rest
  refine ⟨?_, later ++ [m], final, rest, ?_, ?_, hperm, ?_⟩
  · rw [← h.pieces, datagramsOf, datagramsOf, List.filterMap_cons_none hm]
  · rwa [List.append_assoc]
  · rw [← hlater, datagramsOf, List.filterMap_append, List.filterMap_cons_none hm,
      List.filterMap_nil, List.append_nil]
    rfl
  · rwa [List.append_assoc]

theorem Unfolds.brought (h : Unfolds c id start total piece (m :: log) order)
    (hm : m.brings id = some dg) :
    ∃ i order', order = i :: order' ∧ piece i = dg ∧ i < total ∧ i ∉ order' ∧
      order'.toFinset ⊆ Finset.range total ∧ Unfolds c id start total piece log order' := by
  obtain ⟨later, final, rest, hrun, hlater, hperm, htime⟩ := h.rest
  have hpieces := h.pieces
  rw [datagramsOf, List.filterMap_cons_some hm] at hpieces
  obtain ⟨i, order', rfl, hi, horder⟩ := List.map_eq_cons_iff.mp hpieces.symm
  have hnodup : (rest ++ i :: order').Nodup := hperm.nodup_iff.mpr List.nodup_range
  have hsub : ∀ j ∈ i :: order', j < total := fun j hj =>
    List.mem_range.mp (hperm.mem_iff.mp (List.mem_append_right rest hj))
  refine ⟨i, order', rfl, hi, hsub i List.mem_cons_self,
    (List.nodup_cons.mp (List.nodup_append.mp hnodup).2.1).1, fun j hj => ?_, horder.symm,
    later ++ [m], final, rest ++ [i], ?_, ?_, ?_, ?_⟩
  · exact Finset.mem_range.mpr (hsub j (List.mem_cons_of_mem i (List.mem_toFinset.mp hj)))
  · rwa [List.append_assoc]
  · rw [datagramsOf, List.filterMap_append, List.filterMap_cons_some hm, List.filterMap_nil,
      List.map_append, List.map_singleton, hi, ← hlater]
    rfl
  · rwa [List.append_assoc]
  · rwa [List.append_assoc]

/-- While pieces are to come, the time to live of those that are there is not over. -/
theorem Unfolds.inTime (h : Unfolds c id start total piece (m :: log) order)
    (hpart : order.toFinset ≠ Finset.range total) :
    ∀ m₀ ∈ log, m₀.brings id ≠ none → m.now < m₀.now + fragmentTtl := by
  obtain ⟨later, final, rest, hrun, hlater, hperm, htime⟩ := h.rest
  have hrest : rest ≠ [] := by
    rintro rfl
    refine hpart (Finset.ext fun j => ?_)
    rw [List.mem_toFinset, Finset.mem_range, ← List.mem_range]
    exact hperm.mem_iff
  obtain ⟨i, rest', rfl⟩ := List.exists_cons_of_ne_nil hrest
  have hmem : piece i ∈ datagramsOf id later := hlater ▸ List.mem_cons_self
  obtain ⟨m', hm', hbrings⟩ := List.mem_filterMap.mp hmem
  intro m₀ hm₀ hbrings₀
  have hle := hrun.clock m' hm'
  have hlt := htime m₀ (List.mem_append_right _ (List.mem_cons_of_mem _ hm₀)) m'
    (List.mem_append_left _ hm') hbrings₀ (by simp [hbrings])
  omega

/-- The run lemma: where every piece is long enough, the pieces gather until all are there. -/
theorem NodeRun.progress (hcarries : pkt.Carries data)
    (hdg : Datagrams (armored pkt key mtu) mtu total piece)
    (hdest : pkt.dest = start.identity.address) (hvalid : addressIsReserved pkt.dest = false)
    (hsource : pkt.source ≠ pkt.dest) (hkeyed : start.frags.Keyed)
    (hlong : ∀ i < total, packetHeaderLen ≤ (piece i).length)
    (hstart : Progress c pkt data key start total piece [] [] start)
    (h : NodeRun c start log st) (hu : Unfolds c pkt.packetId start total piece log order) :
    Progress c pkt data key start total piece order log st := by
  induction h generalizing order with
  | start =>
    have hnil : order = [] := by
      have hpieces := hu.pieces
      exact List.map_eq_nil_iff.mp hpieces.symm
    rw [hnil]
    exact hstart
  | step h hclock hs ih =>
    rename_i log st st' now event
    let m : Moment := ⟨now, event, st, st'⟩
    cases hs with
    | datagram hr =>
      rename_i dg src
      have hm : m.event = .datagram dg src := rfl
      have hbrings := brings_datagram pkt.packetId hm
      split_ifs at hbrings with hid
      · obtain ⟨i, order', rfl, rfl, hi, hnew, hsub, hu'⟩ := hu.brought hbrings
        exact (ih hu').onePiece hcarries hdg hdest hvalid hsource hi hnew hsub (hlong i hi) hm hr
      · exact (ih (hu.quiet hbrings)).other (h.keyed hkeyed) hm hr hid
    | turn ht =>
      have hm : m.event = .turn := rfl
      exact (ih (hu.quiet (brings_turn pkt.packetId hm))).turn hm ht hu.inTime

/-! ## A last datagram that is too short -/

/-- A delivery that waits for its last datagram. -/
structure Stuck (c : Crates) (pkt : WirePacket) (start : ZtStack) (total : Nat)
    (log : List Moment) (st : ZtStack) : Prop where
  identity : st.identity = start.identity
  lacks : st.frags.Lacks pkt.packetId total (total - 1)
  handed : handedWith c pkt.packetId log = []

/-- A datagram of another packet. -/
theorem Stuck.other (hkeyed : m.before.frags.Keyed) (h : Stuck c pkt start total log m.before)
    (hm : m.event = .datagram dg src) (hr : Received c m.before dg src m.now m.after)
    (hid : idOf dg ≠ pkt.packetId) : Stuck c pkt start total (m :: log) m.after := by
  obtain ⟨hby, hentries, hpacket⟩ := onDatagram_bystands c src m.now hkeyed hid
  refine ⟨hr.later.identity.trans (hby.identity.trans h.identity), ?_, ?_⟩
  · intro e he
    rw [hr.later.frags, hentries] at he
    exact h.lacks e he
  · rw [← handed_datagram hm] at hpacket
    cases hhanded : m.handed c with
    | none => rw [handedWith_quiet hhanded, h.handed]
    | some p => rw [handedWith_cons hhanded, if_neg (hpacket p hhanded), h.handed]

theorem Stuck.turn (h : Stuck c pkt start total log m.before) (hm : m.event = .turn)
    (ht : Turns c m.before m.now m.after) : Stuck c pkt start total (m :: log) m.after := by
  obtain ⟨hby, hfrags⟩ := ht.effect pkt.packetId
  refine ⟨hby.identity.trans h.identity, ?_, ?_⟩
  · rcases hfrags with hsame | hexpire
    · rw [hsame]
      exact h.lacks
    · rw [hexpire]
      exact h.lacks.expire m.now
  · rw [handedWith_quiet (handed_turn hm), h.handed]

/-- A datagram of the packet: the last one is dropped, another one completes nothing. -/
theorem Stuck.onePiece (hdg : Datagrams (armored pkt key mtu) mtu total piece)
    (hdest : pkt.dest = start.identity.address) (hvalid : addressIsReserved pkt.dest = false)
    (hsource : pkt.source ≠ pkt.dest)
    (hshort : (piece (total - 1)).length < packetHeaderLen) {i : Nat} (hi : i < total)
    (h : Stuck c pkt start total log m.before) (hm : m.event = .datagram (piece i) src)
    (hr : Received c m.before (piece i) src m.now m.after) :
    Stuck c pkt start total (m :: log) m.after := by
  have hhanded := handed_datagram (c := c) hm
  have hlater := hr.later
  have hpieces := hdg.pieces
  rw [packetId_armored] at hpieces
  have hdrop := drops_piece hdg (hdest.trans (congrArg _ h.identity.symm)) hvalid hsource hi
  by_cases hlast : i = total - 1
  · rw [← hlast] at hshort
    rw [decide_eq_true hshort] at hdrop
    rw [ZtStack.onDatagram_dropped c src hdrop] at hhanded hlater
    refine ⟨hlater.identity.trans h.identity, ?_, ?_⟩
    · rw [hlater.frags]
      exact h.lacks
    · rw [handedWith_quiet hhanded, h.handed]
  · have hlong := hdg.long i hi (by omega)
    rw [decide_eq_false (Nat.not_lt.mpr hlong)] at hdrop
    have htotal : 2 ≤ total := by omega
    obtain ⟨hpacket, hlacks⟩ :=
      ingest_lacks hpieces h.lacks htotal (by omega) hi hlast m.now
    rw [ZtStack.onDatagram_waiting c src hdrop hpacket] at hhanded hlater
    refine ⟨hlater.identity.trans h.identity, ?_, ?_⟩
    · rw [hlater.frags]
      exact hlacks
    · rw [handedWith_quiet hhanded, h.handed]

/-- The run lemma: where the last datagram is too short, it is never fed to the queue. -/
theorem NodeRun.stuck (hdg : Datagrams (armored pkt key mtu) mtu total piece)
    (hdest : pkt.dest = start.identity.address) (hvalid : addressIsReserved pkt.dest = false)
    (hsource : pkt.source ≠ pkt.dest) (hkeyed : start.frags.Keyed)
    (hfresh : start.frags.entries pkt.packetId = none)
    (hshort : (piece (total - 1)).length < packetHeaderLen)
    (h : NodeRun c start log st) (hu : Unfolds c pkt.packetId start total piece log order) :
    Stuck c pkt start total log st := by
  induction h generalizing order with
  | start => exact ⟨rfl, fun e he => by simp [hfresh] at he, rfl⟩
  | step h hclock hs ih =>
    rename_i log st st' now event
    let m : Moment := ⟨now, event, st, st'⟩
    cases hs with
    | datagram hr =>
      rename_i dg src
      have hm : m.event = .datagram dg src := rfl
      have hbrings := brings_datagram pkt.packetId hm
      split_ifs at hbrings with hid
      · obtain ⟨i, order', rfl, rfl, hi, -, -, hu'⟩ := hu.brought hbrings
        exact (ih hu').onePiece hdg hdest hvalid hsource hshort hi hm hr
      · exact (ih (hu.quiet hbrings)).other (h.keyed hkeyed) hm hr hid
    | turn ht =>
      have hm : m.event = .turn := rfl
      exact (ih (hu.quiet (brings_turn pkt.packetId hm))).turn hm ht

/-! ## Deliveries -/

/-- The order in which the pieces come in, the last one first. -/
theorem exists_order {dgs : List Bytes} (h : dgs.Perm ((List.range total).map piece)) :
    ∃ order : List Nat, dgs = order.map piece ∧ order.Perm (List.range total) := by
  have hcomp := congrFun (congrFun (List.eq_map_comp_perm piece) dgs) (List.range total)
  obtain ⟨order, heq, hperm⟩ := hcomp.mpr h
  exact ⟨order, heq, hperm⟩

/-- Over every run in which all datagrams of a packet come in, the packet is handed on once and
    as it was sent if it fits, and only then. -/
theorem delivered_iff (h : Delivery c pkt data key mtu start log) :
    Delivered c pkt data log ↔ Fits pkt mtu := by
  obtain ⟨identity, world, networkId, orbit, past, hpast⟩ := h.reachable
  have hkeyed : start.frags.Keyed := hpast.keyed FragmentAssembler.keyed_empty
  obtain ⟨dgs, hsent, hcame⟩ := h.sent
  obtain ⟨peer, hpeer, hkey, hfresh⟩ := h.peer
  obtain ⟨st, hrun⟩ := h.run
  obtain ⟨total, piece, rfl, hdg⟩ := armorAndFragment_datagrams h.mtuBound h.sourceValid hsent
  obtain ⟨order, horder, hperm⟩ := exists_order hcame
  have hu : Unfolds c pkt.packetId start total piece log order :=
    ⟨horder, [], st, [], hrun, rfl, hperm, h.inTime⟩
  have hpos := hdg.pieces.some
  have hlast := hdg.last
  rw [length_armored] at hlast
  by_cases hfits : LastFits pkt.len mtu
  · have hlong : ∀ i < total, packetHeaderLen ≤ (piece i).length := fun i hi => by
      by_cases hi' : i + 1 = total
      · rw [show i = total - 1 by omega]
        exact hlast.mpr hfits
      · exact hdg.long i hi hi'
    have hend := hrun.progress h.carries hdg h.dest h.destValid h.source hkeyed hlong
      (progress_start hpeer hkey hfresh h.fresh hpos) hu
    have hfull : order.toFinset = Finset.range total := Finset.ext fun j => by
      rw [List.mem_toFinset, Finset.mem_range, ← List.mem_range]
      exact hperm.mem_iff
    by_cases hlen : pkt.len ≤ maxPacketLength
    · exact iff_of_true (hend.handed.2.1 hfull hlen) ⟨hfits, hlen⟩
    · refine iff_of_false ?_ fun hboth => hlen hboth.2
      rintro ⟨got, hgot, -⟩
      rw [hend.handed.2.2 hfull (Nat.not_le.mp hlen)] at hgot
      cases hgot
  · have hend := hrun.stuck hdg h.dest h.destValid h.source hkeyed h.fresh
      (Nat.not_le.mp fun hle => hfits (hlast.mp hle)) hu
    refine iff_of_false ?_ fun hboth => hfits hboth.1
    rintro ⟨got, hgot, -⟩
    rw [hend.handed] at hgot
    cases hgot

/-! ## Packets between two nodes -/

def echoHeader : Bytes :=
  [0, 0, 0, 0, 0, 0, 0, 9] ++ be40Bytes 0x8e4df28b72 ++ be40Bytes 0xcafe9efeb9 ++ [0] ++
    List.replicate 8 0 ++ [Verb.echo.toByte]

/-- A packet from the peer of `greetedNode` with so many bytes of payload. -/
def echoPacket (n : Nat) : WirePacket where
  buf := echoHeader ++ List.replicate n 0
  header := by
    rw [List.length_append]
    exact Nat.le_add_right_of_le (by decide)

def echoKey : SymmetricKey := freshNode.pairwiseKey pairCrates peerIdentity

/-- The datagrams of the packet for an MTU of 64. -/
def echoDatagrams (n : Nat) : List Bytes :=
  ((armorAndFragment (echoPacket n) echoKey 64).2.toOption).getD []

/-- The moment at which a node gets a datagram from its peer. -/
def arrival (st : ZtStack) (dg : Bytes) (now : Nat) : Moment where
  now := now
  event := .datagram dg peerEndpoint
  before := st
  after := (st.onDatagram pairCrates dg peerEndpoint now).1

/-- A run goes on with a datagram that completes nothing. -/
theorem arrival_waits (h : NodeRun pairCrates start log st) (hclock : ∀ m ∈ log, m.now ≤ now)
    (hq : (arrival st dg now).handed pairCrates = none) :
    NodeRun pairCrates start (arrival st dg now :: log) (arrival st dg now).after :=
  h.quiet hclock hq

/-- A run goes on with a datagram whose packet is answered and nothing more. -/
theorem arrival_dispatched {got : WirePacket} {v : Verb} (h : NodeRun pairCrates start log st)
    (hclock : ∀ m ∈ log, m.now ≤ now) (hgot : (arrival st dg now).handed pairCrates = some got)
    (hv : got.verb = .ok v) (hne : v ≠ .ok) :
    NodeRun pairCrates start (arrival st dg now :: log) (arrival st dg now).after :=
  h.step hclock (.datagram (.packet (Prod.ext rfl hgot) (.other hv hne (.refl _))))

theorem echo_sent {n : Nat}
    (h : (armorAndFragment (echoPacket n) echoKey 64).2.toOption.isSome = true) :
    (armorAndFragment (echoPacket n) echoKey 64).2 = .ok (echoDatagrams n) := by
  unfold echoDatagrams
  cases hsent : (armorAndFragment (echoPacket n) echoKey 64).2 with
  | error =>
    rw [hsent] at h
    cases h
  | ok dgs => rfl

/-- Runs of `greetedNode` in which an echo packet comes in. -/
theorem echo_delivery {n : Nat} {log : List Moment}
    (hsent : (armorAndFragment (echoPacket n) echoKey 64).2.toOption.isSome = true)
    (hcame : (datagramsOf 9 log).Perm (echoDatagrams n))
    (hrun : ∃ st, NodeRun pairCrates greetedNode log st) (htime : ∀ m ∈ log, m.now ≤ 2) :
    Delivery pairCrates (echoPacket n) (List.replicate n 0) echoKey 64 greetedNode log := by
  have hhead {k : Nat} (hk : k ≤ 28) : (echoPacket n).buf.take k = echoHeader.take k :=
    List.take_append_of_le_length hk
  have hid : (echoPacket n).packetId = 9 :=
    congrArg ofBE64 (slice_of_take (hhead le_rfl) (by decide))
  have hdest : (echoPacket n).dest = 0x8e4df28b72 :=
    (congrArg be40 (slice_of_take (hhead le_rfl) (by decide))).trans (by decide)
  have hsource : (echoPacket n).source = 0xcafe9efeb9 :=
    (congrArg be40 (slice_of_take (hhead le_rfl) (by decide))).trans (by decide)
  have hgreet : NodeRun pairCrates freshNode [greeting] greetedNode :=
    NodeRun.start.step (List.forall_mem_nil _)
      (.turn (.rootHello peerIdentity peerEndpoint (.refl _)))
  refine ⟨⟨_, _, _, _, _, hgreet⟩, .plain ?_ ?_, le_rfl, hdest, ?_, ?_, ?_, ?_, ?_, ?_, hrun, ?_⟩
  · have hverb : (echoPacket n).verbByte = echoHeader.getD packetIdxVerb 0 :=
      getD_of_take (hhead le_rfl) (by decide)
    rw [WirePacket.compressed, hverb]
    decide
  · exact List.drop_left' (by decide)
  · rw [hdest]
    decide
  · rw [hsource]
    decide
  · rw [hdest, hsource]
    decide
  · rw [hsource]
    exact ⟨_, rfl, rfl, List.not_mem_nil⟩
  · rw [hid]
    rfl
  · rw [hid]
    exact ⟨_, echo_sent hsent, hcame⟩
  · intro m hm m' hm' _ _
    have hlt : 2 < fragmentTtl := by decide
    have hle := htime m' hm'
    omega

def tailLog : List Moment :=
  let head := arrival greetedNode ((echoDatagrams 37).getD 0 []) 1
  [arrival head.after ((echoDatagrams 37).getD 1 []) 2, head]

/-- Of 65 bytes in datagrams of 64, the last byte never comes out of its datagram of 17. -/
theorem tail_lost :
    Delivery pairCrates (echoPacket 37) (List.replicate 37 0) echoKey 64 greetedNode tailLog ∧
      ¬ Delivered pairCrates (echoPacket 37) (List.replicate 37 0) tailLog := by
  let head := arrival greetedNode ((echoDatagrams 37).getD 0 []) 1
  let tail := arrival head.after ((echoDatagrams 37).getD 1 []) 2
  have hhead : head.handed pairCrates = none := by decide +kernel
  have htail : tail.handed pairCrates = none := by decide +kernel
  have hcame : (datagramsOf 9 tailLog).Perm (echoDatagrams 37) := by
    have hsent : echoDatagrams 37 =
        [(echoDatagrams 37).getD 0 [], (echoDatagrams 37).getD 1 []] := by
      decide +kernel
    have hgot : datagramsOf 9 tailLog =
        [(echoDatagrams 37).getD 1 [], (echoDatagrams 37).getD 0 []] := by
      decide +kernel
    rw [hgot, hsent]
    exact List.Perm.swap _ _ _
  have hrun : NodeRun pairCrates greetedNode [tail, head] tail.after :=
    arrival_waits (arrival_waits .start (List.forall_mem_nil _) hhead) (by simp [head, arrival])
      htail
  refine ⟨echo_delivery (by decide +kernel) hcame ⟨_, hrun⟩ (by simp [tailLog, arrival]), ?_⟩
  rintro ⟨got, hgot, -⟩
  have hnone : handedWith pairCrates (echoPacket 37).packetId tailLog = [] :=
    (handedWith_quiet htail).trans (handedWith_quiet hhead)
  rw [hnone] at hgot
  cases hgot

def wholeLog : List Moment := [arrival greetedNode ((echoDatagrams 0).getD 0 []) 1]

/-- A packet that is one datagram. -/
theorem delivered_iff_whole :
    Delivered pairCrates (echoPacket 0) [] wholeLog ↔ Fits (echoPacket 0) 64 := by
  let only := arrival greetedNode ((echoDatagrams 0).getD 0 []) 1
  have hverb : (only.handed pairCrates).map WirePacket.verbByte = some Verb.echo.toByte := by
    decide +kernel
  obtain ⟨got, hgot, hecho⟩ := Option.map_eq_some_iff.mp hverb
  have hgotVerb : got.verb = .ok .echo := by
    rw [WirePacket.verb, hecho]
    rfl
  have hrun : NodeRun pairCrates greetedNode [only] only.after :=
    arrival_dispatched .start (List.forall_mem_nil _) hgot hgotVerb (by decide)
  have hcame : (datagramsOf 9 wholeLog).Perm (echoDatagrams 0) := by
    rw [show datagramsOf 9 wholeLog = echoDatagrams 0 by decide +kernel]
  exact delivered_iff (echo_delivery (by decide +kernel) hcame ⟨_, hrun⟩
    (by simp [wholeLog, arrival]))

/-! ## Peers and their keys -/

/-- The same node, and every peer with the key it had. -/
def Pins (st st' : ZtStack) : Prop :=
  st'.identity = st.identity ∧
    ∀ a p, st.peers a = some p → ∃ p', st'.peers a = some p' ∧ p'.key = p.key

theorem Pins.trans {st'' : ZtStack} (h : Pins st st') (h' : Pins st' st'') : Pins st st'' := by
  refine ⟨h'.1.trans h.1, fun a p hp => ?_⟩
  obtain ⟨p', hp', hk⟩ := h.2 a p hp
  obtain ⟨p'', hp'', hk'⟩ := h'.2 a p' hp'
  exact ⟨p'', hp'', hk'.trans hk⟩

theorem Later.pins (h : Later st st') : Pins st st' :=
  ⟨h.identity, fun a p hp => (h.peers a p hp).imp fun _ hp' => ⟨hp'.1, hp'.2.1⟩⟩

theorem onDatagram_pins (c : Crates) (st : ZtStack) (dg : Bytes) (src : SocketAddr) (now : Nat) :
    Pins st (st.onDatagram c dg src now).1 := by
  rcases onDatagram_cases c st dg src now with ⟨-, heq⟩ | ⟨-, -, heq⟩ | ⟨assembled, -, -, heq⟩
  · rw [heq]
    exact (Later.refl st).pins
  · rw [heq]
    exact ⟨rfl, fun a p hp => ⟨p, hp, rfl⟩⟩
  · have htakes := onAssembled_takes (c := c) (st.fed dg now) assembled src now
    rw [heq]
    exact ⟨htakes.identity, fun a p hp => (htakes.peers a p hp).imp fun _ hp' => ⟨hp'.1, hp'.2.1⟩⟩

theorem Step.pins {event : Event} (h : Step c st now event st') : Pins st st' := by
  cases h with
  | datagram hr => exact (onDatagram_pins _ _ _ _ _).trans hr.later.pins
  | turn ht =>
    cases ht with
    | sends hs => exact hs.later.pins
    | expire => exact ⟨rfl, fun a p hp => ⟨p, hp, rfl⟩⟩
    | rootHello root endpoint hs => exact ((learnPeer_later _ _ _ _).trans hs.later).pins

/-- The packet was sealed under the key its source is known by, since `start` if it was known
    then, with an id that is not on the list of its source. -/
def OpenedAs (start st : ZtStack) (pkt : WirePacket) : Prop :=
  ∃ (sealed opened : WirePacket) (peer : PeerEntry), st.peers sealed.source = some peer ∧
    (∀ p, start.peers sealed.source = some p → peer.key = p.key) ∧
    sealed.packetId ∉ peer.recentIds ∧ sealed.dearmor peer.key = .ok opened ∧
    opened.uncompress = .ok pkt

theorem onArmored_handed {source : UInt64} {peer : PeerEntry} {assembled : Bytes}
    {pkt : WirePacket} (h : (st.onArmored source peer assembled now).2 = some pkt) :
    ∃ sealed opened, WirePacket.fromBytes assembled = .ok sealed ∧
      sealed.packetId ∉ peer.recentIds ∧ sealed.dearmor peer.key = .ok opened ∧
      opened.uncompress = .ok pkt := by
  unfold ZtStack.onArmored at h
  cases hb : WirePacket.fromBytes assembled with
  | error => simp [hb] at h
  | ok sealed =>
    simp only [hb] at h
    split_ifs at h with hfresh
    cases ho : sealed.dearmor peer.key with
    | error => simp [ho] at h
    | ok opened =>
      simp only [ho] at h
      cases hu : opened.uncompress with
      | error => simp [hu] at h
      | ok plain =>
        simp only [hu] at h
        obtain rfl := Option.some.inj h
        have hid := notePacket_fresh.mp (Bool.eq_true_of_not_eq_false hfresh)
        exact ⟨sealed, opened, rfl, hid, ho, hu⟩

theorem onDatagram_handed {dg : Bytes} {pkt : WirePacket}
    (h : (st.onDatagram c dg src now).2 = some pkt) : OpenedAs st st pkt := by
  rcases onDatagram_cases c st dg src now with ⟨-, heq⟩ | ⟨-, -, heq⟩ | ⟨assembled, -, -, heq⟩
  · rw [heq] at h
    cases h
  · rw [heq] at h
    cases h
  · rw [heq, ZtStack.onAssembled] at h
    split_ifs at h
    · split at h <;> simp at h
    · cases hpeer : (st.fed dg now).peers (be40 (slice assembled packetIdxSource 5)) with
      | none => simp [hpeer] at h
      | some peer =>
        simp only [hpeer] at h
        obtain ⟨sealed, opened, hb, hopened⟩ := onArmored_handed h
        have hsource : st.peers sealed.source = some peer := by
          rw [fromBytes_source hb]
          exact hpeer
        exact ⟨sealed, opened, peer, hsource, fun p hp => by simp_all, hopened⟩

/-- Over every run: no peer is forgotten and none gets another key, and each packet that was
    handed to `dispatch` was opened under the key its source was known by. -/
theorem NodeRun.authentic {start : ZtStack} {log : List Moment} (h : NodeRun c start log st) :
    Pins start st ∧
      ∀ m ∈ log, ∀ pkt, m.handed c = some pkt → OpenedAs start m.before pkt := by
  induction h with
  | start => exact ⟨(Later.refl _).pins, nofun⟩
  | step hrun hclock hs ih =>
    refine ⟨ih.1.trans hs.pins, List.forall_mem_cons.mpr ⟨fun pkt hpkt => ?_, ih.2⟩⟩
    rename_i event
    cases event with
    | turn => cases hpkt
    | datagram dg src =>
      obtain ⟨sealed, opened, peer, hpeer, -, hopened⟩ := onDatagram_handed hpkt
      refine ⟨sealed, opened, peer, hpeer, fun p hp => ?_, hopened⟩
      obtain ⟨p', hp', hk⟩ := ih.1.2 _ p hp
      obtain rfl := Option.some.inj (hpeer.symm.trans hp')
      exact hk

theorem authentic_greeting : Pins freshNode greetedNode ∧ ∀ m ∈ [greeting], ∀ pkt,
    m.handed pairCrates = some pkt → OpenedAs freshNode m.before pkt :=
  NodeRun.authentic
    (NodeRun.start.step nofun (.turn (.rootHello peerIdentity peerEndpoint ⟨_, _, rfl⟩)))

end RustCrash.ZeroTier
