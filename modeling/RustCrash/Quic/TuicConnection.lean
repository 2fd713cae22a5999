import RustCrash.Lib.Machine
import RustCrash.Lib.Reassembly
import RustCrash.Quic.Packets

/-
  A TUIC server connection (`inbound/proxy_server/tuic.rs`): the driver, which takes streams and
  datagrams, and one task for each stream. They share the auth flag and the relay sessions.

  One step is what a task does between two awaits. A stream is given with all that the client
  puts on it before its end; a read that would go beyond it fails. When a read, a send or the
  wait for the auth flag ends is up to the input, and so is whether it fails (a reset, a closed
  connection, a time-out). What the handlers return is only logged, and left out.

  `relay` lists what was handed to the relay.
-/

/-! ## Datagrams

Datagrams on the TUIC server (`inbound/proxy_server/tuic.rs`): heartbeats, whole packets, and
the fragments of packets, which the table of the connection puts together.

`handleDatagram` gives the call of `deliver` it ends in, if any; `none` is a panic. -/

namespace RustCrash.Quic

open Lib Routing Proto

/-- `MAX_FRAG_SETS`. -/
def maxFragSets : Nat := 64

/-- The arguments of `deliver`. -/
structure TuicDelivery where
  sessionId : UInt16
  target : NetAddr
  data : Bytes
  deriving DecidableEq

namespace TuicServer

/-- A packet in assembly; `head` is its address. -/
abbrev Fragments := FragSet (Option NetAddr) UInt8

def Fragments.new (total : UInt8) : Fragments := FragSet.new none total.toNat

/-- The address is the first that comes. -/
def keepAddr (addr fresh : Option NetAddr) : Option NetAddr := if addr.isNone then fresh else addr

def Fragments.add (s : Fragments) (fragId : UInt8) (addr : Option NetAddr) (data : Bytes) :
    Option (Fragments × Option (Option NetAddr × Bytes)) :=
  FragSet.add s fragId.toNat (keepAddr s.head addr) data

abbrev Frags := FragSets (UInt16 × UInt16) (Option NetAddr) UInt8

def handleDatagram (frags : Frags) (datagram : Bytes) : Option (Frags × Option TuicDelivery) :=
  if datagram = [tuicVersion, cmdHeartbeat] then some (frags, none)
  else
    match decodePacketFrame datagram with
    | .error _ => some (frags, none)
    | .ok f =>
      if f.fragTotal ≤ 1 then
        some (frags, f.addr.map fun target => ⟨f.sessionId, target, f.data⟩)
      else
        let frags := if maxFragSets ≤ frags.len then ∅ else frags
        let entry := (frags.lookup (f.sessionId, f.packetId)).getD (Fragments.new f.fragTotal)
        let entry := if entry.total ≠ f.fragTotal.toNat then Fragments.new f.fragTotal else entry
        (Fragments.add entry f.fragId f.addr f.data).map fun r =>
          (frags.insert (f.sessionId, f.packetId) r.1,
            r.2.bind fun w => w.1.map fun target => ⟨f.sessionId, target, w.2⟩)

/-- The datagrams of a connection, with what each delivers. -/
def handleDatagrams (frags : Frags) :
    List Bytes → Option (Frags × List (Option TuicDelivery))
  | [] => some (frags, [])
  | dg :: dgs =>
    (handleDatagram frags dg).bind fun r =>
      (handleDatagrams r.1 dgs).map fun t => (t.1, r.2 :: t.2)

/-! ## Datagrams as items of the table -/

theorem toNat_pos_of_not_le {x : UInt8} (h : ¬ x ≤ 1) : 0 < x.toNat := by
  rw [UInt8.le_iff_toNat_le] at h
  have : (1 : UInt8).toNat = 1 := rfl
  omega

/-- What a datagram is to the table. -/
def item (datagram : Bytes) :
    Item (UInt16 × UInt16) (Option NetAddr) (Option NetAddr) UInt8 TuicDelivery :=
  if datagram = [tuicVersion, cmdHeartbeat] then .other none
  else
    match decodePacketFrame datagram with
    | .error _ => .other none
    | .ok f =>
      if h : f.fragTotal ≤ 1 then .other (f.addr.map fun target => ⟨f.sessionId, target, f.data⟩)
      else .fragment ⟨(f.sessionId, f.packetId), f.fragTotal.toNat, f.fragId.toNat, f.addr, f.data,
        toNat_pos_of_not_le h⟩ fun addr data => addr.map fun target => ⟨f.sessionId, target, data⟩

theorem handleDatagram_eq (frags : Frags) (datagram : Bytes) :
    handleDatagram frags datagram = frags.handle maxFragSets none keepAddr (item datagram) := by
  unfold handleDatagram item
  by_cases hb : datagram = [tuicVersion, cmdHeartbeat]
  · rw [if_pos hb, if_pos hb]
    rfl
  · rw [if_neg hb, if_neg hb]
    cases decodePacketFrame datagram with
    | error e => rfl
    | ok f =>
      dsimp only
      by_cases ht : f.fragTotal ≤ 1
      · rw [if_pos ht, dif_pos ht]
        rfl
      · rw [if_neg ht, dif_neg ht]
        simp only [FragSets.handle, FragSets.enter, FragSets.entry, Fragments.add, Fragments.new,
          Option.map_map]
        rfl

/-- What a set is given as when its last fragment comes. -/
theorem emit_of_item {datagram : Bytes}
    {f : Fragment (UInt16 × UInt16) (Option NetAddr) UInt8}
    {emit : Option NetAddr → Bytes → Option TuicDelivery} (h : item datagram = .fragment f emit) :
    emit = fun addr data => addr.map fun target => ⟨f.key.1, target, data⟩ := by
  unfold item at h
  repeat' split at h
  all_goals cases h
  rfl

theorem handleDatagrams_eq (frags : Frags) (dgs : List Bytes) :
    handleDatagrams frags dgs = frags.run maxFragSets none keepAddr (dgs.map item) := by
  induction dgs generalizing frags with
  | nil => rfl
  | cons dg dgs ih =>
    simp only [handleDatagrams, List.map_cons, FragSets.run, handleDatagram_eq, ih]

end TuicServer

end RustCrash.Quic

/-! ## The connection -/

namespace RustCrash.Quic

open Lib Lib.Machine Routing Proto

/-- What the relay is given: a TCP stream, a UDP association, and a datagram for one. The
    generation stands for the channel of the association. -/
inductive RelayCall where
  | handOff (target : NetAddr)
  | handleUdp (generation : Nat)
  | feed (generation : Nat) (target : NetAddr) (data : Bytes)

/-- A datagram on its way into an association. -/
structure Feed where
  generation : Nat
  target : NetAddr
  data : Bytes

def Feed.call (f : Feed) : RelayCall := .feed f.generation f.target f.data

/-- The loop that takes streams and datagrams. -/
inductive Driver where
  | waiting
  | sending (f : Feed)
  | stopped

namespace TuicServer

/-- What the connection is compared with: the UUID, and what `export_keying_material` gives for
    the UUID and the password. -/
structure Credentials where
  uuid : ByteVec 16
  token : Option (ByteVec 32)

/-- `MAX_UNI_PACKET`. -/
def maxUniPacket : Nat := 64 * 1024

inductive Task where
  /-- `handle_connect` in `wait_auth`. -/
  | waitAuth (content : Bytes)
  /-- `handle_connect` behind it. -/
  | connect (content : Bytes)
  | uni (content : Bytes)
  | sending (f : Feed)
  | done

structure Connection where
  authed : Bool
  closed : Bool
  /-- The sessions by their assoc id, each with its generation. -/
  sessions : AList fun _ : UInt16 => Nat
  /-- `GENERATION`. -/
  generation : Nat
  frags : Frags
  driver : Driver
  tasks : List Task
  relay : List RelayCall

def Connection.new : Connection := ⟨false, false, ∅, 1, ∅, .waiting, [], []⟩

namespace Connection

/-- `udp_session`. -/
def udpSession (s : Connection) (sessionId : UInt16) : Connection × Nat :=
  match s.sessions.lookup sessionId with
  | some generation => (s, generation)
  | none =>
    ({ s with
        relay := s.relay ++ [.handleUdp s.generation]
        sessions := s.sessions.insert sessionId s.generation
        generation := s.generation + 1 }, s.generation)

/-- `deliver` up to its send. -/
def deliver (s : Connection) (d : TuicDelivery) : Connection × Feed :=
  let r := s.udpSession d.sessionId
  (r.1, ⟨r.2, d.target, d.data⟩)

def handOff (s : Connection) (target : NetAddr) : Connection :=
  { s with relay := s.relay ++ [.handOff target] }

def setTask (s : Connection) (i : Nat) (t : Task) : Connection :=
  { s with tasks := s.tasks.set i t }

end Connection

/-! ## Streams -/

/-- How many bytes `read_addr` takes. -/
def addrLength (content : Bytes) : Option Nat :=
  content.head?.bind fun atyp =>
    if atyp = atypFqdn then content[1]?.map fun len => 2 + len.toNat + 2
    else if atyp = atypIpv4 then some 7
    else if atyp = atypIpv6 then some 19
    else none

def readAddr (content : Bytes) : Option NetAddr :=
  (addrLength content).bind fun total =>
    if content.length < total then none
    else
      match decodeAddrPort (content.take total) with
      | .ok (addr, used) => if used = total then addr else none
      | .error _ => none

/-- The target of `handle_connect`. -/
def connectTarget : Bytes → Option NetAddr
  | ver :: cmd :: rest => if ver = tuicVersion ∧ cmd = cmdConnect then readAddr rest else none
  | _ => none

/-- `handle_authenticate`: whether the stream has the UUID and the token, once it is read. -/
def authenticates (cfg : Credentials) (rest : Bytes) : Option Bool :=
  if rest.length < 48 then none
  else cfg.token.map fun token =>
    decide (rest.take 16 = cfg.uuid.val ∧ (rest.drop 16).take 32 = token.val)

/-- `deliver_uni_packet` up to its send. -/
def Connection.deliverUniPacket (s : Connection) (f : PacketFrame) : Connection × Option Feed :=
  if !s.authed then (s, none)
  else if f.fragTotal ≠ 1 then (s, none)
  else
    match f.addr with
    | none => (s, none)
    | some target =>
      let r := s.deliver ⟨f.sessionId, target, f.data⟩
      (r.1, some r.2)

/-- `handle_uni` up to the send of a packet. -/
def Connection.handleUni (cfg : Credentials) (s : Connection) :
    Bytes → Connection × Option Feed
  | ver :: cmd :: rest =>
    if ver ≠ tuicVersion then (s, none)
    else if cmd = cmdAuthenticate then
      match authenticates cfg rest with
      | none => (s, none)
      | some true => ({ s with authed := true }, none)
      | some false => ({ s with closed := true }, none)
    else if cmd = cmdPacket then
      if maxUniPacket < rest.length then (s, none)
      else
        match decodePacketFrame (ver :: cmd :: rest) with
        | .error _ => (s, none)
        | .ok f => s.deliverUniPacket f
    else if cmd = cmdDissociate then
      if rest.length < 2 then (s, none)
      else ({ s with sessions := s.sessions.erase (ofBE16 (rest.take 2)) }, none)
    else (s, none)
  | _ => (s, none)

/-! ## Steps -/

/-- What can happen next. `ok` says whether the await ends well. -/
inductive Event where
  | acceptBi (content : Bytes)
  | acceptUni (content : Bytes)
  | datagram (dg : Bytes)
  | driverSent (ok : Bool)
  | task (i : Nat) (ok : Bool)
  /-- The reply pump of a session ends. -/
  | retire (sessionId : UInt16) (generation : Nat)
  /-- The connection is lost. -/
  | lost

/-- The driver takes what comes. -/
def Connection.accepts (s : Connection) : Bool :=
  match s.driver with
  | .waiting => !s.closed
  | _ => false

/-- `handle_datagram` up to its send; a panic ends the driver. -/
def Connection.takeDatagram (s : Connection) (dg : Bytes) : Connection :=
  match handleDatagram s.frags dg with
  | none => { s with driver := .stopped }
  | some (frags, none) => { s with frags := frags }
  | some (frags, some d) =>
    let r := s.deliver d
    { r.1 with frags := frags, driver := .sending r.2 }

def Connection.stepTask (cfg : Credentials) (s : Connection) (i : Nat) : Task → Connection
  | .waitAuth content => if s.authed then s.setTask i (.connect content) else s
  | .connect content =>
    match connectTarget content with
    | none => s.setTask i .done
    | some target => (s.handOff target).setTask i .done
  | .uni content =>
    match s.handleUni cfg content with
    | (t, none) => t.setTask i .done
    | (t, some f) => t.setTask i (.sending f)
  | .sending f => { s with relay := s.relay ++ [f.call] }.setTask i .done
  | .done => s

def Connection.step (cfg : Credentials) (s : Connection) : Event → Connection
  | .acceptBi content => if s.accepts then { s with tasks := s.tasks ++ [.waitAuth content] } else s
  | .acceptUni content => if s.accepts then { s with tasks := s.tasks ++ [.uni content] } else s
  | .datagram dg => if s.accepts then s.takeDatagram dg else s
  | .driverSent ok =>
    match s.driver with
    | .sending f =>
      { s with driver := .waiting, relay := if ok then s.relay ++ [f.call] else s.relay }
    | _ => s
  | .task i ok =>
    match s.tasks[i]? with
    | none => s
    | some t => if ok then s.stepTask cfg i t else s.setTask i .done
  | .retire sessionId generation =>
    if s.sessions.lookup sessionId = some generation then
      { s with sessions := s.sessions.erase sessionId }
    else s
  | .lost => { s with closed := true }

end TuicServer

end RustCrash.Quic
