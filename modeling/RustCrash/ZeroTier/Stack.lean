import RustCrash.ZeroTier.World
import RustCrash.ZeroTier.Packet

/-
  The node of the overlay (`ZtStack` in `proto/zerotier.rs`): its peers, its worlds and the
  fragment queue, with `learn_peer` and `adopt_worlds`.

  A map is a function of its key. The clock is an argument in nanoseconds. The peer store on disk is
  left out; nothing that is modelled reads it back.
-/

/-! ## Fragments

Packet fragmentation (`proto/zerotier.rs`): an armored packet cut into a head and fragments for
a path MTU, and the queue that puts packets together again.

The bits of `have` are a set of fragment numbers, with 0 for the head. A map of the queue is a
function of the packet id. -/

namespace RustCrash.ZeroTier

open Lib

def fragmentIndicator : UInt8 := 0xff
def fragmentIdxIndicator : Nat := packetIdxSource
def fragmentHeaderLen : Nat := 16
def maxPacketFragments : Nat := 7

/-! ## Sending -/

/-- The parent's IV and destination, the indicator, `total << 4 | no`, a hop byte and the data. -/
def buildFragment (packet : Bytes) (fragStart fragLen : Nat) (fragNo fragTotal : UInt8) : Bytes :=
  packet.take (packetIdxDest + 5) ++
    [fragmentIndicator, ((fragTotal &&& 0x0f) <<< (4 : UInt8)) ||| (fragNo &&& 0x0f), 0] ++
    slice packet fragStart fragLen

/-- The fragments behind the head, from number `fno` on. -/
def fragmentLoop (armored : Bytes) (perFrag total : Nat) : Nat → Nat → Nat → List Bytes
  | 0, _, _ => []
  | n + 1, fno, start =>
    let len := min (armored.length - start) perFrag
    buildFragment armored start len (UInt8.ofNat fno) (UInt8.ofNat total) ::
      fragmentLoop armored perFrag total n (fno + 1) (start + len)

def fragmentPacket (armored : Bytes) (pathMtu : Nat) : Result (List Bytes) :=
  if pathMtu ≤ fragmentHeaderLen then
    .error (.network "zerotier: path MTU too small to carry fragments")
  else
    let chunk := min armored.length pathMtu
    if chunk = armored.length then .ok [armored]
    else
      let perFrag := pathMtu - fragmentHeaderLen
      let remaining := armored.length - chunk
      let fragsRemaining := remaining / perFrag
      let fragsRemaining :=
        if fragsRemaining * perFrag < remaining then fragsRemaining + 1 else fragsRemaining
      let total := fragsRemaining + 1
      if maxPacketFragments < total then
        .error (.network s!"zerotier: packet needs {total} fragments (max {maxPacketFragments})")
      else .ok (armored.take chunk :: fragmentLoop armored perFrag total (total - 1) 1 chunk)

/-- How many datagrams `fragment_packet` would emit for `len` bytes. -/
def fragmentCount (len pathMtu : Nat) : Nat :=
  if len ≤ pathMtu then 1
  else
    let perFrag := pathMtu - fragmentHeaderLen
    let remaining := len - pathMtu
    1 + (remaining + perFrag - 1) / perFrag

/-- The fragmented flag, then the armor, then the datagrams. The packet is changed in place. -/
def armorAndFragment (pkt : WirePacket) (key : SymmetricKey) (pathMtu : Nat) :
    WirePacket × Result (List Bytes) :=
  let pkt := pkt.setFragmented (1 < fragmentCount pkt.len pathMtu)
  let pkt := pkt.armor key true
  (pkt, fragmentPacket pkt.buf pathMtu)

/-! ## Receiving -/

/-- `FRAGMENT_TTL` in nanoseconds. -/
def fragmentTtl : Nat := 5 * 10 ^ 9

structure FragAssembly where
  total : Nat
  held : Finset Nat
  head : Option Bytes
  frags : List (Option Bytes)
  since : Nat

def FragAssembly.new (now : Nat) : FragAssembly := ⟨0, ∅, none, List.replicate 15 none, now⟩

/-- The head and the fragments behind it. -/
def FragAssembly.assembled (entry : FragAssembly) (head : Bytes) : Bytes :=
  head ++ (entry.frags.take (entry.total - 1)).flatMap fun f => f.getD []

structure FragmentAssembler where
  entries : UInt64 → Option FragAssembly

namespace FragmentAssembler

def empty : FragmentAssembler := ⟨fun _ => none⟩

/-- `entry(packet_id).or_insert_with(..)`. -/
def entry (a : FragmentAssembler) (packetId : UInt64) (now : Nat) : FragAssembly :=
  (a.entries packetId).getD (.new now)

def put (a : FragmentAssembler) (packetId : UInt64) (entry : FragAssembly) : FragmentAssembler :=
  ⟨Function.update a.entries packetId (some entry)⟩

def remove (a : FragmentAssembler) (packetId : UInt64) : FragmentAssembler :=
  ⟨Function.update a.entries packetId none⟩

/-- An entry is done when it holds the head and as many pieces as there are. -/
def settle (a : FragmentAssembler) (packetId : UInt64) (entry : FragAssembly) :
    FragmentAssembler × Option Bytes :=
  match entry.head with
  | some head =>
    if entry.held.card = entry.total then (a.remove packetId, some (entry.assembled head))
    else (a.put packetId entry, none)
  | none => (a.put packetId entry, none)

def ingestFragment (a : FragmentAssembler) (now : Nat) (datagram : Bytes) :
    FragmentAssembler × Option Bytes :=
  let packed := datagram.getD 14 0
  let total := ((packed >>> (4 : UInt8)) &&& 0x0f).toNat
  let number := (packed &&& 0x0f).toNat
  if number = 0 ∨ 15 < number ∨ total ≤ 1 ∨ total ≤ number then (a, none)
  else
    let packetId := ofBE64 (slice datagram 0 8)
    let entry := a.entry packetId now
    if number ∈ entry.held then (a, none)
    else
      a.settle packetId
        { entry with
          total := total
          frags := entry.frags.set (number - 1) (some (datagram.drop fragmentHeaderLen))
          held := insert number entry.held }

def ingestHead (a : FragmentAssembler) (now : Nat) (datagram : Bytes) :
    FragmentAssembler × Option Bytes :=
  if datagram.length < packetHeaderLen then (a, none)
  else
    let packetId := ofBE64 (slice datagram 0 8)
    if datagram.getD packetIdxFlags 0 &&& flagFragmented = 0 then (a, some datagram)
    else
      let entry := a.entry packetId now
      if 0 ∈ entry.held then (a, none)
      else
        let entry :=
          { entry with
            held := insert 0 entry.held
            head := some datagram }
        -- a head alone is no complete packet
        if entry.total ≤ 1 then (a.put packetId entry, none) else a.settle packetId entry

/-- Feed one datagram; the assembled packet when this datagram completes one. -/
def ingest (a : FragmentAssembler) (now : Nat) (datagram : Bytes) :
    FragmentAssembler × Option Bytes :=
  if datagram.length < fragmentHeaderLen then (a, none)
  else if datagram.getD fragmentIdxIndicator 0 = fragmentIndicator then
    a.ingestFragment now datagram
  else a.ingestHead now datagram

/-- Drop expired entries. -/
def expire (a : FragmentAssembler) (now : Nat) : FragmentAssembler :=
  ⟨fun id => (a.entries id).filter fun e => now - e.since < fragmentTtl⟩

end FragmentAssembler

end RustCrash.ZeroTier

/-! ## The node -/

namespace RustCrash.ZeroTier

open Lib

/-! ## Peers -/

/-- One learned peer. -/
structure PeerEntry where
  identity : NodeIdentity
  key : SymmetricKey
  endpoint : Option SocketAddr
  lastSeen : Nat
  recentIds : List UInt64

namespace PeerEntry

def new (identity : NodeIdentity) (key : SymmetricKey) (now : Nat) : PeerEntry :=
  ⟨identity, key, none, now, []⟩

/-- False for an id that is still on the list; else it goes on the list, the oldest of 64 out. -/
def notePacket (peer : PeerEntry) (id : UInt64) : PeerEntry × Bool :=
  if id ∈ peer.recentIds then (peer, false)
  else
    let recentIds := if 64 ≤ peer.recentIds.length then peer.recentIds.tail else peer.recentIds
    ({ peer with recentIds := recentIds ++ [id] }, true)

end PeerEntry

/-! ## The node -/

structure ZtStack where
  identity : NodeIdentity
  world : World
  networkId : UInt64
  /-- The node that serves the network's configuration. -/
  controller : UInt64
  peers : UInt64 → Option PeerEntry
  frags : FragmentAssembler
  /-- Packet ids we await replies to. -/
  expecting : UInt64 → Bool
  /-- Adopted moon worlds. -/
  moons : List World
  /-- Pending moon seeds: (world id, seed address). -/
  moonSeeds : List (UInt64 × UInt64)
  /-- Our external surface as a trusted peer observed it. -/
  mySurface : Option SocketAddr
  /-- Probes in flight: (peer, candidate address) → when sent. -/
  probing : UInt64 × SocketAddr → Option Nat

namespace ZtStack

def new (identity : NodeIdentity) (world : World) (networkId : UInt64)
    (orbit : List (UInt64 × UInt64)) : ZtStack where
  identity := identity
  world := world
  networkId := networkId
  controller := networkId >>> 24
  peers := fun _ => none
  frags := .empty
  expecting := fun _ => false
  moons := []
  moonSeeds := orbit
  mySurface := none
  probing := fun _ => none

def setPeer (st : ZtStack) (address : UInt64) (peer : PeerEntry) : ZtStack :=
  { st with
    peers := Function.update st.peers address (some peer) }

/-- The pairwise key, or zeros where the node has no secret to agree with. -/
def pairwiseKey (c : Crates) (st : ZtStack) (identity : NodeIdentity) : SymmetricKey :=
  match st.identity.agree c identity with
  | .ok key => key
  | .error _ => ByteVec.zero 48

/-- The entry that `learn_peer` leaves: a new identity gets one under its pairwise key; a known
    address keeps its identity and its key. -/
def learnedEntry (c : Crates) (st : ZtStack) (identity : NodeIdentity)
    (endpoint : Option SocketAddr) (now : Nat) : PeerEntry :=
  match st.peers identity.address with
  | none =>
    { PeerEntry.new identity (st.pairwiseKey c identity) now with
      endpoint := endpoint }
  | some entry =>
    { entry with
      lastSeen := now
      endpoint := endpoint.orElse fun _ => entry.endpoint }

def learnPeer (c : Crates) (st : ZtStack) (identity : NodeIdentity)
    (endpoint : Option SocketAddr) (now : Nat) : ZtStack :=
  st.setPeer identity.address (st.learnedEntry c identity endpoint now)

/-! ## Worlds -/

/-- The roots of a moon that have an address become peers. -/
def learnRoots (c : Crates) (st : ZtStack) (roots : List WorldRoot) (now : Nat) : ZtStack :=
  roots.foldl (fun st r =>
    match r.endpoints.findSome? PhysAddr.toSocketAddr with
    | some ep => st.learnPeer c r.identity (some ep) now
    | none => st) st

def rootOf (world : World) (address : UInt64) : Bool :=
  world.roots.any fun r => r.identity.address == address

/-- One world of a world-update block. -/
def adoptWorld (c : Crates) (sender : UInt64) (isPlanetRoot : Bool) (now : Nat) (st : ZtStack)
    (world : World) : ZtStack :=
  if world.worldType = worldTypeMoon ∧ world.signatureIsValid c = true then
    let senderOk := isPlanetRoot ||
      st.moonSeeds.any (fun s => s.1 == world.id && s.2 == sender) ||
      st.moons.any (fun m => m.id == world.id && rootOf m sender)
    if senderOk = false then st
    else
      match st.moonSeeds.findIdx? fun s => s.1 == world.id && rootOf world s.2 with
      | none => st
      | some idx =>
        let st :=
          { st with
            moonSeeds := st.moonSeeds.eraseIdx idx }
        -- only newer copies of an adopted moon
        if st.moons.any (fun m => m.id == world.id && m.timestamp ≥ world.timestamp) then st
        else
          let st :=
            { st with
              moons := st.moons.filter fun m => m.id != world.id }
          let st := st.learnRoots c world.roots now
          { st with
            moons := st.moons ++ [world] }
  else if world.worldType = worldTypePlanet ∧ isPlanetRoot = true ∧ world.id = st.world.id ∧
      st.world.timestamp < world.timestamp ∧ world.signatureIsValid c = true then
    { st with
      world := world }
  else st

theorem length_drop_lt {block : Bytes} {used : Nat} (hb : ¬ block = []) (hu : 0 < used) :
    (block.drop used).length < block.length := by
  have := List.length_pos_of_ne_nil hb
  rw [List.length_drop]
  omega

/-- The loop over a block; `none` is a panic. -/
def adoptWorldsLoop (c : Crates) (sender : UInt64) (isPlanetRoot : Bool) (now : Nat)
    (st : ZtStack) (block : Bytes) : Option ZtStack :=
  if hb : block = [] then some st
  else
    match World.fromBytes block with
    | .ok (world, used) =>
      if hu : 0 < used then
        have : (block.drop used).length < block.length := length_drop_lt hb hu
        adoptWorldsLoop c sender isPlanetRoot now (adoptWorld c sender isPlanetRoot now st world)
          (block.drop used)
      else some st
    | .error (.err _) => some st
    | .error .panic => none
termination_by block.length

def adoptWorlds (c : Crates) (st : ZtStack) (sender : UInt64) (block : Bytes) (now : Nat) :
    Option ZtStack :=
  adoptWorldsLoop c sender (rootOf st.world sender) now st block

end ZtStack

end RustCrash.ZeroTier
