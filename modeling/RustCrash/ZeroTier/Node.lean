import RustCrash.ZeroTier.Stack

/-
  What the node does with a datagram (`on_datagram` in `proto/zerotier.rs`): fragment assembly,
  the HELLO bootstrap, the duplicate filter, the armor, and the dispatch of the verbs.

  `onDatagram` goes up to the call of `dispatch` and gives the packet it hands on. What is sent
  is left out: sending changes no peer, no world and no fragment, only which replies are awaited
  and which probes are under way (`Sends`).
-/

namespace RustCrash.ZeroTier

open Lib

/-! ## Payloads -/

/-- A parsed HELLO payload. -/
structure Hello where
  protoVersion : UInt8
  major : UInt8
  minor : UInt8
  revision : UInt16
  timestamp : UInt64
  identity : NodeIdentity
  physical : PhysAddr
  worldId : UInt64
  worldTimestamp : UInt64
  /-- The still-masked moon tail, if any. -/
  moonTail : Option Bytes

def parseHello (pkt : WirePacket) : Result Hello := do
  let p := pkt.payload
  if p.length < 13 + 71 + 16 then .error (.crypto "zerotier: truncated HELLO")
  else do
    let (identity, used) ← NodeIdentity.deserializeBin (p.drop 13)
    if used ≠ 71 then .error (.crypto "zerotier: HELLO carried a secret identity")
    else do
      let pos := 13 + used
      let (physical, pa) ← PhysAddr.deserializeFrom p pos
      let pos := pos + pa
      let worlds : Bool := pos + 16 ≤ p.length
      let tail := if worlds then pos + 16 else pos
      return {
        protoVersion := p.getD 0 0
        major := p.getD 1 0
        minor := p.getD 2 0
        revision := ofBE16 (slice p 3 2)
        timestamp := ofBE64 (slice p 5 8)
        identity := identity
        physical := physical
        worldId := if worlds then ofBE64 (slice p pos 8) else 0
        worldTimestamp := if worlds then ofBE64 (slice p (pos + 8) 8) else 0
        moonTail := if tail < p.length then some (p.drop tail) else none }

/-- A parsed OK(HELLO) payload. -/
structure OkHello where
  inRePacketId : UInt64
  timestamp : UInt64
  protoVersion : UInt8
  major : UInt8
  minor : UInt8
  revision : UInt16
  physical : PhysAddr
  /-- The serialized world update block, if present. -/
  worldUpdate : Option Bytes

def parseOkHello (pkt : WirePacket) : Result OkHello := do
  let p := pkt.payload
  if p.length < 22 ∨ p.getD 0 0 ≠ Verb.hello.toByte then
    .error (.crypto "zerotier: not an OK(HELLO)")
  else do
    let (physical, pa) ← PhysAddr.deserializeFrom p 22
    let pos := 22 + pa
    let worldUpdate ← (
      if pos + 2 ≤ p.length then
        let wlen := ofBE (slice p pos 2)
        if p.length < pos + 2 + wlen then .error (.crypto "zerotier: truncated world update")
        else .ok (if 0 < wlen then some (slice p (pos + 2) wlen) else none)
      else .ok none : Result (Option Bytes))
    return {
      inRePacketId := ofBE64 (slice p 1 8)
      timestamp := ofBE64 (slice p 9 8)
      protoVersion := p.getD 17 0
      major := p.getD 18 0
      minor := p.getD 19 0
      revision := ofBE16 (slice p 20 2)
      physical := physical
      worldUpdate := worldUpdate }

/-- The identities of an OK(WHOIS), one behind the other. -/
def readIdentities (p : Bytes) : Result (List NodeIdentity) :=
  if hp : p = [] then .ok []
  else
    match h : NodeIdentity.deserializeBin p with
    | .error e => .error e
    | .ok (id, used) =>
      if id.secret.isSome then
        .error (.crypto "zerotier: WHOIS reply carried a secret identity")
      else
        have : 0 < p.length ∧ 0 < used :=
          ⟨List.length_pos_of_ne_nil hp, (deserializeBin_used h).1⟩
        (readIdentities (p.drop used)).map (id :: ·)
termination_by p.length

def parseOkWhois (pkt : WirePacket) : Result (List NodeIdentity) :=
  let p := pkt.payload
  if p.length < 9 ∨ p.getD 0 0 ≠ Verb.whois.toByte then
    .error (.crypto "zerotier: not an OK(WHOIS)")
  else readIdentities (p.drop 9)

/-- The in-re packet id echoed by an OK. -/
def okInRePacketId (pkt : WirePacket) : Result UInt64 :=
  let p := pkt.payload
  if p.length < 9 then .error (.crypto "zerotier: truncated OK")
  else .ok (ofBE64 (slice p 1 8))

namespace ZtStack

/-! ## HELLO -/

/-- The identity a HELLO claims, when `on_hello` believes it. -/
def believedHello (c : Crates) (st : ZtStack) (pkt : WirePacket) : Option NodeIdentity :=
  match pkt.cipher with
  | .ok .c25519Poly1305None =>
    match parseHello pkt with
    | .error _ => none
    | .ok hello =>
      if hello.identity.address ≠ pkt.source then none
      else
        match st.identity.agree c hello.identity with
        | .error _ => none
        | .ok key =>
          match pkt.dearmor key with
          | .error _ => none
          | .ok _ => if hello.identity.locallyValidate c then some hello.identity else none
  | _ => none

/-- A believed HELLO makes or updates the peer, with the datagram's source as its path. -/
def onHello (c : Crates) (st : ZtStack) (pkt : WirePacket) (src : SocketAddr) (now : Nat) :
    ZtStack :=
  match st.believedHello c pkt with
  | none => st
  | some identity => st.learnPeer c identity (some src) now

/-! ## OK -/

/-- What an OK(HELLO) carries: our surface as the peer sees it, and world updates. -/
def takeOkHello (c : Crates) (st : ZtStack) (source : UInt64) (ok : OkHello) (now : Nat) :
    Option ZtStack :=
  let st := match ok.physical.toSocketAddr with
    | some ep =>
      { st with
        mySurface := some ep }
    | none => st
  match ok.worldUpdate with
  | some block => st.adoptWorlds c source block now
  | none => some st

/-- The path a reply confirms: the one it came on, if it was probed. -/
def confirmPath (st : ZtStack) (source : UInt64) (src : SocketAddr) (now : Nat) : ZtStack :=
  let confirmedDirect := (st.probing (source, src)).isSome
  let st :=
    { st with
      probing := Function.update st.probing (source, src) none }
  match st.peers source with
  | none => st
  | some peer =>
    st.setPeer source
      { peer with
        lastSeen := now
        endpoint := if confirmedDirect then some src else peer.endpoint }

def onOkHello (c : Crates) (st : ZtStack) (pkt : WirePacket) (src : SocketAddr) (now : Nat) :
    Option ZtStack :=
  let taken := match parseOkHello pkt with
    | .error _ => some st
    | .ok ok => st.takeOkHello c pkt.source ok now
  taken.map fun st => st.confirmPath pkt.source src now

/-- OK(WHOIS): roots are trusted, other identities must carry their hashcash. -/
def onOkWhois (c : Crates) (st : ZtStack) (pkt : WirePacket) (now : Nat) : ZtStack :=
  match parseOkWhois pkt with
  | .error _ => st
  | .ok ids =>
    ids.foldl (fun st id =>
      if rootOf st.world id.address = false ∧ id.locallyValidate c = false then st
      else st.learnPeer c id none now) st

/-- `on_ok`, up to what it sends; the network configuration changes nothing that is modelled. -/
def onOk (c : Crates) (st : ZtStack) (pkt : WirePacket) (src : SocketAddr) (now : Nat) :
    Option ZtStack :=
  match okInRePacketId pkt with
  | .error _ => some st
  | .ok id =>
    if st.expecting id = false then some st
    else
      let st :=
        { st with
          expecting := Function.update st.expecting id false }
      match Verb.fromByte (pkt.payload.getD 0 0) with
      | .ok .hello => st.onOkHello c pkt src now
      | .ok .whois => some (st.onOkWhois c pkt now)
      | _ => some st

/-! ## Datagrams -/

/-- A suite-0 HELLO: the cipher bits live in the flags byte, which the armor never encrypts. -/
def isPlainHello (assembled : Bytes) : Bool :=
  packetIdxVerb < assembled.length &&
    (assembled.getD packetIdxFlags 0 &&& 0x38) >>> (3 : UInt8) == 0 &&
    assembled.getD packetIdxVerb 0 &&& 0x1f == Verb.hello.toByte

/-- An armored packet from a known peer: the duplicate filter, the MAC, the payload. -/
def onArmored (st : ZtStack) (source : UInt64) (peer : PeerEntry) (assembled : Bytes)
    (now : Nat) : ZtStack × Option WirePacket :=
  let peer :=
    { peer with
      lastSeen := now }
  match WirePacket.fromBytes assembled with
  | .error _ => (st.setPeer source peer, none)
  | .ok pkt =>
    let (noted, fresh) := peer.notePacket pkt.packetId
    let st := st.setPeer source noted
    if fresh = false then (st, none)
    else
      match pkt.dearmor peer.key with
      | .error _ => (st, none)
      | .ok pkt =>
        match pkt.uncompress with
        | .error _ => (st, none)
        | .ok pkt => (st, some pkt)

/-- An assembled packet. -/
def onAssembled (c : Crates) (st : ZtStack) (assembled : Bytes) (src : SocketAddr) (now : Nat) :
    ZtStack × Option WirePacket :=
  if assembled.length < packetHeaderLen then (st, none)
  else if isPlainHello assembled then
    match WirePacket.fromBytes assembled with
    | .ok pkt => (st.onHello c pkt src now, none)
    | .error _ => (st, none)
  else
    let source := be40 (slice assembled packetIdxSource 5)
    match st.peers source with
    | none => (st, none)
    | some peer => st.onArmored source peer assembled now

/-- A datagram that `on_datagram` drops before it looks into the fragments: too short, our own
    packet echoed back, or one for another node. -/
def drops (st : ZtStack) (dg : Bytes) : Bool :=
  dg.length < packetHeaderLen || be40 (slice dg packetIdxSource 5) == st.identity.address ||
    be40 (slice dg packetIdxDest 5) != st.identity.address

/-- One datagram, up to the packet it hands to `dispatch`. -/
def onDatagram (c : Crates) (st : ZtStack) (dg : Bytes) (src : SocketAddr) (now : Nat) :
    ZtStack × Option WirePacket :=
  if st.drops dg then (st, none)
  else
    let (frags, assembled) := st.frags.ingest now dg
    let st :=
      { st with
        frags := frags }
    match assembled with
    | none => (st, none)
    | some assembled => st.onAssembled c assembled src now

/-- The packet a datagram completes, if it gets that far. -/
def completes (st : ZtStack) (dg : Bytes) (now : Nat) : Option Bytes :=
  if st.drops dg then none else (st.frags.ingest now dg).2

/-- The node with the fragments that are left when a datagram has been fed to them. -/
def fed (st : ZtStack) (dg : Bytes) (now : Nat) : ZtStack :=
  { st with
    frags := (st.frags.ingest now dg).1 }

variable {st : ZtStack} {dg : Bytes} {now : Nat}

theorem onDatagram_dropped (c : Crates) (src : SocketAddr) (h : st.drops dg = true) :
    st.onDatagram c dg src now = (st, none) := by
  rw [onDatagram, if_pos h]

theorem onDatagram_waiting (c : Crates) (src : SocketAddr) (hd : st.drops dg = false)
    (h : (st.frags.ingest now dg).2 = none) :
    st.onDatagram c dg src now = (st.fed dg now, none) := by
  simp only [onDatagram, hd, h]
  rfl

theorem onDatagram_completed (c : Crates) (src : SocketAddr) {assembled : Bytes}
    (h : st.completes dg now = some assembled) :
    st.onDatagram c dg src now = (st.fed dg now).onAssembled c assembled src now := by
  unfold completes at h
  split_ifs at h with hd
  simp only [onDatagram, hd, h]
  rfl

end ZtStack

/-! ## Steps -/

/-- What sending changes: the replies awaited and the probes under way. -/
def Sends (st st' : ZtStack) : Prop :=
  ∃ expecting probing, st' =
    { st with
      expecting := expecting
      probing := probing }

/-- What `dispatch` does with a packet. -/
inductive Dispatched (c : Crates) (st : ZtStack) (pkt : WirePacket) (src : SocketAddr)
    (now : Nat) : ZtStack → Prop where
  | unknown {e : Error} (h : pkt.verb = .error e) : Dispatched c st pkt src now st
  | ok {st₁ st' : ZtStack} (h : pkt.verb = .ok .ok) (hok : st.onOk c pkt src now = some st₁)
      (hs : Sends st₁ st') : Dispatched c st pkt src now st'
  | other {v : Verb} {st' : ZtStack} (h : pkt.verb = .ok v) (hv : v ≠ .ok) (hs : Sends st st') :
      Dispatched c st pkt src now st'

/-- One datagram, with what `dispatch` makes of its packet. -/
inductive Received (c : Crates) (st : ZtStack) (dg : Bytes) (src : SocketAddr) (now : Nat) :
    ZtStack → Prop where
  | quiet {st₁ st' : ZtStack} (h : st.onDatagram c dg src now = (st₁, none))
      (hs : Sends st₁ st') : Received c st dg src now st'
  | packet {st₁ st' : ZtStack} {pkt : WirePacket}
      (h : st.onDatagram c dg src now = (st₁, some pkt))
      (hd : Dispatched c st₁ pkt src now st') : Received c st dg src now st'

/-- What the node does besides: it sends, drops expired fragments, and learns the root it says
    HELLO to. -/
inductive Turns (c : Crates) (st : ZtStack) (now : Nat) : ZtStack → Prop where
  | sends {st' : ZtStack} (hs : Sends st st') : Turns c st now st'
  | expire :
      Turns c st now
        { st with
          frags := st.frags.expire now }
  | rootHello {st' : ZtStack} (root : NodeIdentity) (endpoint : SocketAddr)
      (hs : Sends (st.learnPeer c root (some endpoint) now) st') : Turns c st now st'

inductive Event where
  | datagram (dg : Bytes) (src : SocketAddr)
  | turn

inductive Step (c : Crates) (st : ZtStack) (now : Nat) : Event → ZtStack → Prop where
  | datagram {dg : Bytes} {src : SocketAddr} {st' : ZtStack} (h : Received c st dg src now st') :
      Step c st now (.datagram dg src) st'
  | turn {st' : ZtStack} (h : Turns c st now st') : Step c st now .turn st'

/-- One step of a run: what happened when, and the node before and after it. -/
structure Moment where
  now : Nat
  event : Event
  before : ZtStack
  after : ZtStack

/-- A run of the node under a clock that never goes back, with the last moment first. -/
inductive NodeRun (c : Crates) (start : ZtStack) : List Moment → ZtStack → Prop where
  | start : NodeRun c start [] start
  | step {log : List Moment} {st st' : ZtStack} {now : Nat} {event : Event}
      (h : NodeRun c start log st) (hclock : ∀ m ∈ log, m.now ≤ now)
      (hs : Step c st now event st') : NodeRun c start (⟨now, event, st, st'⟩ :: log) st'

/-- The run up to a moment, and the step it takes there. -/
theorem NodeRun.at_moment {c : Crates} {start st : ZtStack} {later earlier : List Moment}
    {m : Moment} (h : NodeRun c start (later ++ m :: earlier) st) :
    NodeRun c start earlier m.before ∧ Step c m.before m.now m.event m.after := by
  induction later generalizing st with
  | nil =>
    cases h with
    | step h _ hs => exact ⟨h, hs⟩
  | cons _ later ih =>
    cases h with
    | step h _ _ => exact ih h

/-! ## What `dispatch` leaves alone -/

/-- A later state of a node between two datagrams: the same node with the same fragments, and
    every peer with its key and its packet ids. -/
structure Later (st st' : ZtStack) : Prop where
  identity : st'.identity = st.identity
  frags : st'.frags = st.frags
  peers : ∀ a p, st.peers a = some p →
    ∃ p', st'.peers a = some p' ∧ p'.key = p.key ∧ p'.recentIds = p.recentIds

theorem Later.of_peers {st st' : ZtStack} (hi : st'.identity = st.identity)
    (hf : st'.frags = st.frags) (hp : st'.peers = st.peers) : Later st st' :=
  ⟨hi, hf, fun a p h => ⟨p, by rw [hp, h], rfl, rfl⟩⟩

theorem Later.refl (st : ZtStack) : Later st st := .of_peers rfl rfl rfl

theorem Later.trans {st st' st'' : ZtStack} (h : Later st st') (h' : Later st' st'') :
    Later st st'' := by
  refine ⟨h'.identity.trans h.identity, h'.frags.trans h.frags, fun a p hp => ?_⟩
  obtain ⟨p', hp', hk, hr⟩ := h.peers a p hp
  obtain ⟨p'', hp'', hk', hr'⟩ := h'.peers a p' hp'
  exact ⟨p'', hp'', hk'.trans hk, hr'.trans hr⟩

/-- An entry that takes the place of one with the same key and packet ids. -/
theorem Later.setPeer {st : ZtStack} {a : UInt64} {entry : PeerEntry}
    (h : ∀ p, st.peers a = some p → entry.key = p.key ∧ entry.recentIds = p.recentIds) :
    Later st (st.setPeer a entry) := by
  refine ⟨rfl, rfl, fun b p hp => ?_⟩
  unfold ZtStack.setPeer
  by_cases hb : b = a
  · subst hb
    exact ⟨entry, by simp, h p hp⟩
  · exact ⟨p, by simp [hb, hp], rfl, rfl⟩

theorem Sends.later {st st' : ZtStack} (h : Sends st st') : Later st st' := by
  obtain ⟨expecting, probing, rfl⟩ := h
  exact .of_peers rfl rfl rfl

variable {c : Crates}

theorem learnPeer_later (st : ZtStack) (identity : NodeIdentity) (endpoint : Option SocketAddr)
    (now : Nat) : Later st (st.learnPeer c identity endpoint now) := by
  refine .setPeer fun p hp => ?_
  rw [ZtStack.learnedEntry, hp]
  exact ⟨rfl, rfl⟩

theorem learnRoots_later (st : ZtStack) (roots : List WorldRoot) (now : Nat) :
    Later st (st.learnRoots c roots now) := by
  induction roots generalizing st with
  | nil => exact .refl st
  | cons r roots ih =>
    unfold ZtStack.learnRoots at ih ⊢
    rw [List.foldl_cons]
    split
    · exact (learnPeer_later st _ _ now).trans (ih _)
    · exact ih st

theorem adoptWorld_later (sender : UInt64) (isPlanetRoot : Bool) (now : Nat) (st : ZtStack)
    (world : World) : Later st (ZtStack.adoptWorld c sender isPlanetRoot now st world) := by
  unfold ZtStack.adoptWorld
  split
  · dsimp only
    split
    · exact .refl st
    · split
      · exact .refl st
      · split
        · exact .of_peers rfl rfl rfl
        · rename_i idx _ _
          let st₁ : ZtStack :=
            { st with
              moonSeeds := st.moonSeeds.eraseIdx idx
              moons := st.moons.filter fun m => m.id != world.id }
          have h := learnRoots_later (c := c) st₁ world.roots now
          exact ⟨h.identity, h.frags, h.peers⟩
  · split
    · exact .of_peers rfl rfl rfl
    · exact .refl st

variable {now : Nat} {st st' : ZtStack} {src : SocketAddr}

theorem adoptWorlds_later {sender : UInt64} {isPlanetRoot : Bool} {block : Bytes}
    (h : ZtStack.adoptWorldsLoop c sender isPlanetRoot now st block = some st') : Later st st' := by
  induction st, block using ZtStack.adoptWorldsLoop.induct c sender isPlanetRoot now with
  | case1 st =>
    rw [ZtStack.adoptWorldsLoop, dif_pos rfl, Option.some_inj] at h
    rw [← h]
    exact .refl st
  | case2 st block hb world used hw hu hlt ih =>
    rw [ZtStack.adoptWorldsLoop] at h
    simp only [hb, hw, hu, dite_true, dite_false] at h
    exact (adoptWorld_later sender isPlanetRoot now st world).trans (ih h)
  | case3 st block hb world used hw hu =>
    rw [ZtStack.adoptWorldsLoop] at h
    simp only [hb, hw, hu, dite_false, Option.some_inj] at h
    rw [← h]
    exact .refl st
  | case4 st block hb e hw =>
    rw [ZtStack.adoptWorldsLoop] at h
    simp only [hb, hw, dite_false, Option.some_inj] at h
    rw [← h]
    exact .refl st
  | case5 st block hb hw =>
    rw [ZtStack.adoptWorldsLoop] at h
    simp [hb, hw] at h

theorem takeOkHello_later {source : UInt64} {ok : OkHello}
    (h : st.takeOkHello c source ok now = some st') : Later st st' := by
  have hsurface : ∀ ep, Later st
      { st with
        mySurface := some ep } := fun ep => .of_peers rfl rfl rfl
  unfold ZtStack.takeOkHello at h
  cases hep : ok.physical.toSocketAddr with
  | none =>
    simp only [hep] at h
    split at h
    · exact adoptWorlds_later h
    · rw [← Option.some_inj.mp h]
      exact .refl st
  | some ep =>
    simp only [hep] at h
    split at h
    · exact (hsurface ep).trans (adoptWorlds_later h)
    · rw [← Option.some_inj.mp h]
      exact hsurface ep

theorem confirmPath_later (st : ZtStack) (source : UInt64) (src : SocketAddr) (now : Nat) :
    Later st (st.confirmPath source src now) := by
  unfold ZtStack.confirmPath
  dsimp only
  split
  · exact .of_peers rfl rfl rfl
  · rename_i peer hpeer
    have hprobe : Later st
        { st with
          probing := Function.update st.probing (source, src) none } := .of_peers rfl rfl rfl
    refine hprobe.trans (.setPeer fun p hp => ?_)
    rw [show st.peers source = some p from hp, Option.some_inj] at hpeer
    rw [hpeer]
    exact ⟨rfl, rfl⟩

theorem onOkHello_later {pkt : WirePacket} (h : st.onOkHello c pkt src now = some st') :
    Later st st' := by
  obtain ⟨st₁, h₁, rfl⟩ := Option.map_eq_some_iff.mp h
  refine Later.trans ?_ (confirmPath_later st₁ pkt.source src now)
  split at h₁
  · rw [← Option.some_inj.mp h₁]
    exact .refl st
  · exact takeOkHello_later h₁

theorem onOkWhois_later (st : ZtStack) (pkt : WirePacket) (now : Nat) :
    Later st (st.onOkWhois c pkt now) := by
  have hall : ∀ (ids : List NodeIdentity) (st : ZtStack), Later st (ids.foldl (fun st id =>
      if ZtStack.rootOf st.world id.address = false ∧ id.locallyValidate c = false then st
      else st.learnPeer c id none now) st) := by
    intro ids
    induction ids with
    | nil => exact fun st => .refl st
    | cons id ids ih =>
      intro st
      rw [List.foldl_cons]
      split_ifs
      · exact ih st
      · exact (learnPeer_later st id none now).trans (ih _)
  unfold ZtStack.onOkWhois
  split
  · exact .refl st
  · exact hall _ st

theorem onOk_later {pkt : WirePacket} (h : st.onOk c pkt src now = some st') : Later st st' := by
  unfold ZtStack.onOk at h
  split at h
  · rw [← Option.some_inj.mp h]
    exact .refl st
  · split_ifs at h
    · rw [← Option.some_inj.mp h]
      exact .refl st
    · dsimp only at h
      rename_i id _ _
      have hexp : Later st
          { st with
            expecting := Function.update st.expecting id false } := .of_peers rfl rfl rfl
      split at h
      · exact hexp.trans (onOkHello_later h)
      · rw [← Option.some_inj.mp h]
        exact hexp.trans (onOkWhois_later _ pkt now)
      · rw [← Option.some_inj.mp h]
        exact hexp

/-- `dispatch` learns peers and worlds, and changes no key, no packet ids and no fragment. -/
theorem Dispatched.later {pkt : WirePacket} (h : Dispatched c st pkt src now st') :
    Later st st' := by
  cases h with
  | unknown => exact .refl st
  | ok _ hok hs => exact (onOk_later hok).trans hs.later
  | other _ _ hs => exact hs.later

theorem Received.later {dg : Bytes} (h : Received c st dg src now st') :
    Later (st.onDatagram c dg src now).1 st' := by
  cases h with
  | quiet h hs =>
    rw [h]
    exact hs.later
  | packet h hd =>
    rw [h]
    exact hd.later

end RustCrash.ZeroTier
