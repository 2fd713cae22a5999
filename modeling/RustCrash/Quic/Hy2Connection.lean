import RustCrash.Quic.TuicConnection
import RustCrash.Hysteria2.Qpack

/-
  A Hysteria2 server connection (`inbound/proxy_server/hysteria2.rs`), step by step as the TUIC
  one. The driver reads the type of a stream before it hands it to a task; uni streams are held
  and carry nothing.
-/

/-! ## Requests

The requests of the Hysteria2 server (`inbound/proxy_server/hysteria2.rs`): the auth POST, a
HEADERS frame with a QPACK field section that refers to the static table only, and the TCP
request.

The integers and strings of QPACK are those of the client's decoder; the static table has
another value for `purpose`. -/

namespace RustCrash.Quic

open Lib Hysteria2 Proto

namespace Hy2Server

/-- `MAX_H3_EXCHANGE`. -/
def maxH3Exchange : Nat := 16 * 1024

/-- `MAX_PADDING_LENGTH`. -/
def maxPaddingLength : Nat := 4096

/-- `QPACK_STATIC_TABLE`. -/
def staticTable : List (String × String) := qpackStaticTable.set 91 ("purpose", "preflight")

def staticEntry (idx : UInt64) : Option Entry :=
  staticTable[idx.toNat]?.map fun e => (e.1.toList, e.2.toList)

/-- The value behind a name. -/
def valueBehind (buf : Bytes) (off : Nat) (name : Str) : Result (Entry × Nat) := do
  let (value, n) ← okOr (readStringLiteral buf off 7 0x80) (.protocol "qpack: truncated value")
  return ((Str.asciiLower name, fromUtf8Lossy value), n)

/-- The line at `off`. -/
def fieldLine (buf : Bytes) (off : Nat) : Result (Entry × Nat) :=
  let b := buf.getD off 0
  if b &&& 0x80 ≠ 0 then do
    let (idx, n) ← okOr (readPrefixedInt buf off 6) (.protocol "qpack: truncated index")
    ensure (b &&& 0x40 ≠ 0) (.protocol "qpack: dynamic reference")
    let e ← okOr (staticEntry idx)
      (.protocol s!"qpack: bad static index {txt (Str.decimal idx.toNat)}")
    return (e, n)
  else if b &&& 0xc0 = 0x40 then do
    let (idx, n) ← okOr (readPrefixedInt buf off 4) (.protocol "qpack: truncated name index")
    ensure (b &&& 0x10 ≠ 0) (.protocol "qpack: dynamic name reference")
    let e ← okOr (staticEntry idx)
      (.protocol s!"qpack: bad static name index {txt (Str.decimal idx.toNat)}")
    valueBehind buf n e.1
  else if b &&& 0xe0 = 0x20 then do
    let (name, n) ← okOr (readStringLiteral buf off 3 0x08) (.protocol "qpack: truncated name")
    valueBehind buf n (fromUtf8Lossy name)
  else .error (.protocol "qpack: dynamic table reference")

theorem valueBehind_advances {buf : Bytes} {off n : Nat} {name : Str} {e : Entry}
    (h : valueBehind buf off name = .ok (e, n)) : off < n := by
  obtain ⟨y, hy, h⟩ := bind_eq_ok.mp h
  cases h
  exact readStringLiteral_advances (okOr_eq_ok.mp hy)

theorem fieldLine_advances {buf : Bytes} {off n : Nat} {e : Entry}
    (h : fieldLine buf off = .ok (e, n)) : off < n := by
  unfold fieldLine at h
  dsimp only at h
  split_ifs at h
  · obtain ⟨x, hx, h⟩ := bind_eq_ok.mp h
    obtain ⟨_, _, h⟩ := bind_eq_ok.mp h
    obtain ⟨_, _, h⟩ := bind_eq_ok.mp h
    cases h
    exact readPrefixedInt_advances (okOr_eq_ok.mp hx)
  · obtain ⟨x, hx, h⟩ := bind_eq_ok.mp h
    obtain ⟨_, _, h⟩ := bind_eq_ok.mp h
    obtain ⟨_, _, h⟩ := bind_eq_ok.mp h
    exact (readPrefixedInt_advances (okOr_eq_ok.mp hx)).trans (valueBehind_advances h)
  · obtain ⟨x, hx, h⟩ := bind_eq_ok.mp h
    exact (readStringLiteral_advances (okOr_eq_ok.mp hx)).trans (valueBehind_advances h)

/-- `while off < buf.len()`. -/
def fieldLines (buf : Bytes) (off : Nat) (fields : List Entry) : Result (List Entry) :=
  if _ : off < buf.length then
    match _ : fieldLine buf off with
    | .error e => .error e
    | .ok (e, n) => fieldLines buf n (fields ++ [e])
  else .ok fields
termination_by buf.length - off
decreasing_by exact QpackDecoder.left_shrinks ‹_› (fieldLine_advances ‹_›)

def decodeFieldSection (buf : Bytes) : Result (List Entry) := do
  let (requiredInserts, off) ← okOr (readPrefixedInt buf 0 8) (.protocol "qpack: truncated prefix")
  ensure (requiredInserts = 0) (.protocol "qpack: dynamic table required")
  let (_, off) ← okOr (readPrefixedInt buf off 7) (.protocol "qpack: truncated base")
  fieldLines buf off []

/-- `HDR_AUTH`. -/
def hdrAuth : Str := "hysteria-auth".toList

/-- `read_h3_request_headers`: the payload of the frame, the type being read already. -/
def readH3RequestHeaders (content : Bytes) : Option Bytes :=
  (readVarint content).bind fun (len, n) =>
    if maxH3Exchange < len then none else getRange content n len

/-- Whether the auth request has the password, once it is read and decoded. -/
def authenticates (password : Str) (content : Bytes) : Option Bool :=
  (readH3RequestHeaders content).bind fun payload =>
    (decodeFieldSection payload).toOption.map fun fields =>
      ((fields.find? fun f => f.1 = hdrAuth).map fun f =>
        decide (utf8 f.2 = utf8 password)).getD false

/-- What a TCP request asks for: its address, or an address that is refused in words. -/
def tcpTarget (content : Bytes) : Option (Result NetAddr) :=
  (readVarint content).bind fun (addrLen, n) =>
    if addrLen = 0 ∨ maxAddressLength < addrLen then none
    else
      (getRange content n addrLen).bind fun addr =>
        (readVarint (content.drop (n + addrLen))).bind fun (padLen, k) =>
          if maxPaddingLength < padLen then none
          else
            (getRange (content.drop (n + addrLen)) k padLen).bind fun _ =>
              (fromUtf8 addr).map parseHostPort

end Hy2Server

end RustCrash.Quic

/-! ## Datagrams

Datagrams on the Hysteria2 server (`inbound/proxy_server/hysteria2.rs`). Its table is that of
the TUIC server without the address, which every fragment carries: a packet goes to the
target of the fragment that completes it. Nothing is read before the connection has
authenticated. -/

namespace RustCrash.Quic

open Lib Routing Proto

/-- What goes up a relay session. -/
structure Hy2Delivery where
  sessionId : UInt32
  target : NetAddr
  data : Bytes
  deriving DecidableEq

namespace Hy2Server

/-- A packet in assembly. -/
abbrev Fragments := FragSet Unit UInt8

def Fragments.new (total : UInt8) : Fragments := FragSet.new () total.toNat

def Fragments.add (s : Fragments) (fragId : UInt8) (data : Bytes) :
    Option (Fragments × Option Bytes) :=
  (FragSet.add s fragId.toNat () data).map fun r => (r.1, r.2.map fun w => w.2)

abbrev Frags := FragSets (UInt32 × UInt16) Unit UInt8

/-- One datagram, with the auth flag as it is then. -/
def handleDatagram (frags : Frags) (authed : Bool) (msg : Bytes) :
    Option (Frags × Option Hy2Delivery) :=
  if !authed then some (frags, none)
  else
    match parseUdpMessage msg with
    | .error _ => some (frags, none)
    | .ok m =>
      if m.fragCount = 0 then some (frags, none)
      else
        match parseHostPort m.addr with
        | .error _ => some (frags, none)
        | .ok target =>
          if m.fragCount = 1 then some (frags, some ⟨m.sessionId, target, m.data⟩)
          else
            let frags := if maxFragSets ≤ frags.len then ∅ else frags
            let entry := (frags.lookup (m.sessionId, m.packetId)).getD (Fragments.new m.fragCount)
            let entry :=
              if entry.total ≠ m.fragCount.toNat then Fragments.new m.fragCount else entry
            (Fragments.add entry m.fragId m.data).map fun r =>
              (frags.insert (m.sessionId, m.packetId) r.1,
                r.2.map fun data => ⟨m.sessionId, target, data⟩)

/-- The datagrams of a connection, each with the auth flag as it finds it. -/
def handleDatagrams (frags : Frags) :
    List (Bool × Bytes) → Option (Frags × List (Option Hy2Delivery))
  | [] => some (frags, [])
  | dg :: dgs =>
    (handleDatagram frags dg.1 dg.2).bind fun r =>
      (handleDatagrams r.1 dgs).map fun t => (t.1, r.2 :: t.2)

/-! ## Datagrams as items of the table -/

theorem toNat_pos_of_ne_zero {x : UInt8} (h : ¬ x = 0) : 0 < x.toNat := by
  by_contra hx
  exact h (UInt8.toNat_inj.mp (by simpa using hx))

/-- What a datagram is to the table. -/
def item (dg : Bool × Bytes) : Item (UInt32 × UInt16) Unit NetAddr UInt8 Hy2Delivery :=
  if !dg.1 then .other none
  else
    match parseUdpMessage dg.2 with
    | .error _ => .other none
    | .ok m =>
      if h : m.fragCount = 0 then .other none
      else
        match parseHostPort m.addr with
        | .error _ => .other none
        | .ok target =>
          if m.fragCount = 1 then .other (some ⟨m.sessionId, target, m.data⟩)
          else
            .fragment ⟨(m.sessionId, m.packetId), m.fragCount.toNat, m.fragId.toNat, target,
              m.data, toNat_pos_of_ne_zero h⟩ fun _ data => some ⟨m.sessionId, target, data⟩

/-- A set keeps no address. -/
def keepNothing (_ : Unit) (_ : NetAddr) : Unit := ()

theorem handleDatagram_eq (frags : Frags) (dg : Bool × Bytes) :
    handleDatagram frags dg.1 dg.2 = frags.handle maxFragSets () keepNothing (item dg) := by
  unfold handleDatagram item
  by_cases ha : (!dg.1) = true
  · rw [if_pos ha, if_pos ha]
    rfl
  · rw [if_neg ha, if_neg ha]
    cases parseUdpMessage dg.2 with
    | error e => rfl
    | ok m =>
      dsimp only
      by_cases hz : m.fragCount = 0
      · rw [if_pos hz, dif_pos hz]
        rfl
      · rw [if_neg hz, dif_neg hz]
        cases parseHostPort m.addr with
        | error e => rfl
        | ok target =>
          dsimp only
          by_cases h1 : m.fragCount = 1
          · rw [if_pos h1, if_pos h1]
            rfl
          · rw [if_neg h1, if_neg h1]
            simp only [FragSets.handle, FragSets.enter, FragSets.entry, Fragments.add,
              Fragments.new, Option.map_map, keepNothing]
            congr 1
            funext r
            obtain ⟨e, out⟩ := r
            cases out <;> rfl

/-- What a set is given as when its last fragment comes. -/
theorem emit_of_item {dg : Bool × Bytes} {f : Fragment (UInt32 × UInt16) NetAddr UInt8}
    {emit : Unit → Bytes → Option Hy2Delivery} (h : item dg = .fragment f emit) :
    emit = fun _ data => some ⟨f.key.1, f.head, data⟩ := by
  unfold item at h
  repeat' split at h
  all_goals cases h
  rfl

theorem handleDatagrams_eq (frags : Frags) (dgs : List (Bool × Bytes)) :
    handleDatagrams frags dgs = frags.run maxFragSets () keepNothing (dgs.map item) := by
  induction dgs generalizing frags with
  | nil => rfl
  | cons dg dgs ih =>
    simp only [handleDatagrams, List.map_cons, FragSets.run, handleDatagram_eq, ih]

end Hy2Server

end RustCrash.Quic

/-! ## The connection -/

namespace RustCrash.Quic

open Lib Lib.Machine Routing Proto

namespace Hy2Server

/-- `H3_FRAME_HEADERS` and `FRAME_TYPE_TCP_REQUEST`. -/
def h3FrameHeaders : Nat := 0x1
def frameTypeTcpRequest : Nat := 0x401

inductive Task where
  /-- `handle_auth` before its response, and in the write of it. -/
  | auth (content : Bytes)
  | answering (ok : Bool)
  /-- `handle_tcp` in `wait_auth`, behind it, and in the write of its response. -/
  | waitAuth (content : Bytes)
  | request (content : Bytes)
  | responding (target : NetAddr)
  | done

/-- The loop that takes streams and datagrams. -/
inductive DriverState where
  | waiting
  /-- It reads the type of a stream. -/
  | typing (content : Bytes)
  | sending (f : Feed)
  | stopped

structure Connection where
  authed : Bool
  closed : Bool
  /-- The sessions by their id, each with its generation. -/
  sessions : AList fun _ : UInt32 => Nat
  /-- `GENERATION`. -/
  generation : Nat
  frags : Frags
  driver : DriverState
  tasks : List Task
  relay : List RelayCall

def Connection.new : Connection := ⟨false, false, ∅, 1, ∅, .waiting, [], []⟩

namespace Connection

/-- `udp_session`. -/
def udpSession (s : Connection) (sessionId : UInt32) : Connection × Nat :=
  match s.sessions.lookup sessionId with
  | some generation => (s, generation)
  | none =>
    ({ s with
        relay := s.relay ++ [.handleUdp s.generation]
        sessions := s.sessions.insert sessionId s.generation
        generation := s.generation + 1 }, s.generation)

def handOff (s : Connection) (target : NetAddr) : Connection :=
  { s with relay := s.relay ++ [.handOff target] }

def setTask (s : Connection) (i : Nat) (t : Task) : Connection :=
  { s with tasks := s.tasks.set i t }

/-- The driver takes what comes. -/
def accepts (s : Connection) : Bool :=
  match s.driver with
  | .waiting => !s.closed
  | _ => false

/-- The task of a stream whose type is read. -/
def spawn (s : Connection) (content : Bytes) : Connection :=
  match readVarint content with
  | none => s
  | some (frameType, n) =>
    if frameType = h3FrameHeaders then { s with tasks := s.tasks ++ [.auth (content.drop n)] }
    else if frameType = frameTypeTcpRequest then
      { s with tasks := s.tasks ++ [.waitAuth (content.drop n)] }
    else s

/-- `handle_datagram` up to its send; a panic ends the driver. -/
def takeDatagram (s : Connection) (msg : Bytes) : Connection :=
  match handleDatagram s.frags s.authed msg with
  | none => { s with driver := .stopped }
  | some (frags, none) => { s with frags := frags }
  | some (frags, some d) =>
    let r := s.udpSession d.sessionId
    { r.1 with frags := frags, driver := .sending ⟨r.2, d.target, d.data⟩ }

def stepTask (password : Str) (s : Connection) (i : Nat) : Task → Connection
  | .auth content =>
    match authenticates password content with
    | none => s.setTask i .done
    | some ok => s.setTask i (.answering ok)
  | .answering ok => { s with authed := s.authed || ok }.setTask i .done
  | .waitAuth content => if s.authed then s.setTask i (.request content) else s
  | .request content =>
    match tcpTarget content with
    | some (.ok target) => s.setTask i (.responding target)
    | _ => s.setTask i .done
  | .responding target => (s.handOff target).setTask i .done
  | .done => s

end Connection

/-- What can happen next. `ok` says whether the await ends well. -/
inductive Event where
  | acceptBi (content : Bytes)
  | datagram (msg : Bytes)
  | driver (ok : Bool)
  | task (i : Nat) (ok : Bool)
  /-- The reply pump of a session ends. -/
  | retire (sessionId : UInt32) (generation : Nat)
  /-- The connection is lost. -/
  | lost

def Connection.step (password : Str) (s : Connection) : Event → Connection
  | .acceptBi content => if s.accepts then { s with driver := .typing content } else s
  | .datagram msg => if s.accepts then s.takeDatagram msg else s
  | .driver ok =>
    match s.driver with
    | .typing content =>
      if ok then { s with driver := .waiting }.spawn content else { s with driver := .waiting }
    | .sending f =>
      { s with driver := .waiting, relay := if ok then s.relay ++ [f.call] else s.relay }
    | _ => s
  | .task i ok =>
    match s.tasks[i]? with
    | none => s
    | some t => if ok then s.stepTask password i t else s.setTask i .done
  | .retire sessionId generation =>
    if s.sessions.lookup sessionId = some generation then
      { s with sessions := s.sessions.erase sessionId }
    else s
  | .lost => { s with closed := true }

end Hy2Server

end RustCrash.Quic
