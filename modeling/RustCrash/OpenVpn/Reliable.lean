import Mathlib.Data.List.AList
import RustCrash.OpenVpn.Packet
import RustCrash.OpenVpn.Replay

/-
  The reliable half of the control channel, `Reliable`: what `handle_raw` does with a datagram,
  and what is sent.

  `Handled` says once what `handle_raw` can do: drop the datagram, hand over a soft reset, or take
  the packet in (`handleRaw_handled`).
-/

namespace RustCrash.OpenVpn

open Lib

def reliableCapacity : Nat := 12
def controlSendAckMax : Nat := 4

/-- Ids wrap. -/
def recvWindowOk (recvMessage messageId : UInt32) (buffered : Nat) : Bool :=
  (messageId - recvMessage).toNat < reliableCapacity && buffered < reliableCapacity

def reliableMessageBefore (messageId recvMessage : UInt32) : Bool :=
  2 ^ 31 ≤ (messageId - recvMessage).toNat

/-- 0 → 1 → … → 7 → 1. -/
def nextKeyId (current : UInt8) : UInt8 :=
  let next := (current + 1) &&& keyIdMask
  if next = 0 then 1 else next

def appendAck (acks : List UInt32) (ack : UInt32) : List UInt32 :=
  if ack ∈ acks then acks else acks ++ [ack]

structure Reliable where
  localId : Session
  remote : Option Session
  keyId : UInt8
  sendMessage : UInt32
  recvMessage : UInt32
  ackPending : List UInt32
  lruAcks : List UInt32
  pending : List ControlPacket
  recvPending : AList fun _ : UInt32 => ControlPacket
  replay : RecReplay

inductive ControlOutcome where
  | deliver (packet : ControlPacket)
  | softReset (packet : ControlPacket)
  | dropped

namespace Reliable

def new (localId : Session) : Reliable where
  localId := localId
  remote := none
  keyId := 0
  sendMessage := 0
  recvMessage := 0
  ackPending := []
  lruAcks := []
  pending := []
  recvPending := ∅
  replay := RecReplay.new

def beginEpoch (r : Reliable) (keyId : UInt8) : Reliable :=
  { r with
    keyId := keyId &&& keyIdMask
    sendMessage := 0
    recvMessage := 0
    ackPending := []
    lruAcks := []
    pending := []
    recvPending := ∅ }

/-! ## The acks that are sent -/

/-- `id` moves to the front, as far as it was. -/
def moveFront (id : UInt32) : UInt32 → List UInt32 → List UInt32 × Option UInt32
  | moving, [] => ([], some moving)
  | moving, slot :: slots =>
    if slot = id then (moving :: slots, none)
    else
      let (slots, left) := moveFront id slot slots
      (moving :: slots, left)

def touch (lru : List UInt32) (id : UInt32) : List UInt32 :=
  match moveFront id id lru with
  | (lru, none) => lru
  | (lru, some moving) => if lru.length < reliableAckSize then lru ++ [moving] else lru

def takeAcks (r : Reliable) (max : Nat) : Reliable × List UInt32 :=
  let n := min r.ackPending.length max
  let lru := ((r.ackPending.take n).reverse.foldl touch r.lruAcks).take reliableAckSize
  ({ r with ackPending := r.ackPending.drop n, lruAcks := lru }, lru.take max)

/-- The next reliable packet. -/
def buildSend (r : Reliable) (opcode : UInt8) (payload : Bytes) (remote : Session) :
    Reliable × ControlPacket :=
  let (r', ackIds) := { r with sendMessage := r.sendMessage + 1 }.takeAcks controlSendAckMax
  (r', ⟨opcode, r.keyId, r.localId, ackIds, remote, r.sendMessage, payload⟩)

/-! ## What is received -/

variable (hmac : Hmac)

/-- The fields behind the header, for either layer. -/
def decodeControl (header plain : Bytes) (packetId unixTime : UInt32) :
    Result (ControlPacket × UInt32 × UInt32) :=
  match header with
  | [] => .error (.protocol s!"invalid control header length {0}")
  | first :: session =>
    let (opcode, keyId) := parseOpcodeKeyId first
    if opcodeIsControl opcode = false then
      .error (.protocol s!"opcode {opcode.toNat} is not a control opcode")
    else
      match ByteVec.ofBytes? 8 session with
      | none => .error (.protocol s!"invalid control header length {header.length}")
      | some localSession => do
        let (ackIds, ackRemote, messageId, payload) ← controlDecodePlain opcode plain
        return (⟨opcode, keyId, localSession, ackIds, ackRemote, messageId, payload⟩, packetId,
          unixTime)

def decodePacket (crypt : Option ControlCrypt) (raw : Bytes) :
    Result (ControlPacket × UInt32 × UInt32) :=
  match crypt with
  | none =>
    if raw.length < tlsCryptHeaderSize + 1 then .error (.protocol "control packet too short")
    else decodeControl (raw.take tlsCryptHeaderSize) (raw.drop tlsCryptHeaderSize) 0 0
  | some crypt => do
    let (header, packetId, unixTime, plain) ← crypt.unwrap hmac raw
    decodeControl header plain packetId unixTime

/-- The replay window, where there is a cryptor. -/
def checkReplay (r : Reliable) (now : Nat) (crypted : Bool) (packetId unixTime : UInt32) :
    Reliable × Bool :=
  if crypted then
    ({ r with replay := (r.replay.check now packetId unixTime).1 },
      (r.replay.check now packetId unixTime).2)
  else (r, true)

/-- The first reset of the server, from which its session is learned. -/
def InitialReset (r : Reliable) (packet : ControlPacket) : Prop :=
  r.remote = none ∧
    (packet.opcode = pControlHardResetServerV2 ∨ packet.opcode = pControlHardResetServerV1) ∧
    packet.keyId = r.keyId ∧ packet.messageId = 0

instance (r : Reliable) (packet : ControlPacket) : Decidable (r.InitialReset packet) :=
  inferInstanceAs (Decidable (_ ∧ _ ∧ _ ∧ _))

def applyAcks (r : Reliable) (ackIds : List UInt32) : Reliable :=
  { r with
    pending := ackIds.foldl (fun pending ack => pending.filter (·.messageId != ack)) r.pending }

/-- What `handle_raw` does with a packet of the present epoch. -/
def receive (r : Reliable) (packet : ControlPacket) : Reliable × ControlOutcome :=
  let acked := appendAck r.ackPending packet.messageId
  if packet.opcode = pAckV1 then (r, .dropped)
  else if opcodeHasMessageId packet.opcode = false then (r, .deliver packet)
  else if reliableMessageBefore packet.messageId r.recvMessage then
    ({ r with ackPending := acked }, .dropped)
  else if packet.messageId = r.recvMessage then
    ({ r with ackPending := acked, recvMessage := r.recvMessage + 1 }, .deliver packet)
  else if packet.messageId ∈ r.recvPending then ({ r with ackPending := acked }, .dropped)
  else if recvWindowOk r.recvMessage packet.messageId r.recvPending.entries.length then
    ({ r with ackPending := acked, recvPending := r.recvPending.insert packet.messageId packet },
      .dropped)
  else (r, .dropped)

/-- A packet of the session, from where its sender is known. -/
def handlePacket (r : Reliable) (now : Nat) (crypted replayChecked : Bool) (packet : ControlPacket)
    (packetId unixTime : UInt32) : Reliable × ControlOutcome :=
  if r.remote ≠ some packet.localSession then (r, .dropped)
  else if packet.opcode = pControlSoftResetV1 then
    if packet.keyId = nextKeyId r.keyId ∧ packet.messageId = 0 then
      match r.checkReplay now crypted packetId unixTime with
      | (r, false) => (r, .dropped)
      | (r, true) => (r.applyAcks packet.ackIds, .softReset packet)
    else (r.applyAcks packet.ackIds, .softReset packet)
  else if packet.keyId ≠ r.keyId then (r, .dropped)
  else
    match r.checkReplay now (crypted && !replayChecked) packetId unixTime with
    | (r, false) => (r, .dropped)
    | (r, true) => (r.applyAcks packet.ackIds).receive packet

/-- `now` is what the clock reads. -/
def handleRaw (r : Reliable) (now : Nat) (crypt : Option ControlCrypt) (raw : Bytes) :
    Reliable × ControlOutcome :=
  match decodePacket hmac crypt raw with
  | .error _ => (r, .dropped)
  | .ok (packet, packetId, unixTime) =>
    if packet.localSession = ByteVec.zero 8 then (r, .dropped)
    else if packet.ackIds ≠ [] ∧ packet.ackRemoteSession ≠ r.localId then (r, .dropped)
    else if r.InitialReset packet then
      match r.checkReplay now crypt.isSome packetId unixTime with
      | (r, false) => (r, .dropped)
      | (r, true) =>
        { r with remote := some packet.localSession }.handlePacket now crypt.isSome true packet
          packetId unixTime
    else r.handlePacket now crypt.isSome false packet packetId unixTime

/-! ## What it can do -/

/-- The replay window let the packet pass. -/
def Passed (r : Reliable) (now : Nat) (crypted : Bool) (packetId unixTime : UInt32)
    (replay : RecReplay) : Prop :=
  if crypted then r.replay.check now packetId unixTime = (replay, true) else replay = r.replay

/-- It refused the packet, or was not asked. -/
def Refused (r : Reliable) (now : Nat) (crypted : Bool) (replay : RecReplay) : Prop :=
  replay = r.replay ∨
    crypted = true ∧ ∃ packetId unixTime, r.replay.check now packetId unixTime = (replay, false)

inductive Handled (r : Reliable) (now : Nat) (crypt : Option ControlCrypt) (raw : Bytes) :
    Reliable × ControlOutcome → Prop
  | dropped {replay : RecReplay} (hreplay : r.Refused now crypt.isSome replay) :
      Handled r now crypt raw ({ r with replay }, .dropped)
  | softReset {packet : ControlPacket} {packetId unixTime : UInt32} {replay : RecReplay}
      (hdecode : decodePacket hmac crypt raw = .ok (packet, packetId, unixTime))
      (hremote : r.remote = some packet.localSession) (hop : packet.opcode = pControlSoftResetV1)
      (hreplay : if packet.keyId = nextKeyId r.keyId ∧ packet.messageId = 0 then
        r.Passed now crypt.isSome packetId unixTime replay else replay = r.replay) :
      Handled r now crypt raw
        ({ r with replay }.applyAcks packet.ackIds, .softReset packet)
  | received {packet : ControlPacket} {packetId unixTime : UInt32} {replay : RecReplay}
      (hdecode : decodePacket hmac crypt raw = .ok (packet, packetId, unixTime))
      (hremote : r.remote = some packet.localSession ∨ r.InitialReset packet)
      (hop : packet.opcode ≠ pControlSoftResetV1) (hkey : packet.keyId = r.keyId)
      (hreplay : r.Passed now crypt.isSome packetId unixTime replay) :
      Handled r now crypt raw
        ({ r with replay, remote := some packet.localSession }.applyAcks
          packet.ackIds |>.receive packet)

theorem checkReplay_cases (r : Reliable) (now : Nat) (crypted : Bool)
    (packetId unixTime : UInt32) :
    (∃ replay, r.checkReplay now crypted packetId unixTime = ({ r with replay }, true) ∧
      r.Passed now crypted packetId unixTime replay) ∨
    ∃ replay, r.checkReplay now crypted packetId unixTime = ({ r with replay }, false) ∧
      r.Refused now crypted replay := by
  unfold checkReplay Passed Refused
  cases crypted with
  | false => exact .inl ⟨r.replay, rfl, rfl⟩
  | true =>
    rcases hcheck : r.replay.check now packetId unixTime with ⟨replay, passed⟩
    cases passed with
    | true => exact .inl ⟨replay, rfl, rfl⟩
    | false => exact .inr ⟨replay, rfl, .inr ⟨rfl, packetId, unixTime, hcheck⟩⟩

theorem handleRaw_handled (r : Reliable) (now : Nat) (crypt : Option ControlCrypt) (raw : Bytes) :
    Handled hmac r now crypt raw (r.handleRaw hmac now crypt raw) := by
  have hnothing : Handled hmac r now crypt raw (r, .dropped) := .dropped (.inl rfl)
  unfold handleRaw
  cases hdecode : decodePacket hmac crypt raw with
  | error e => exact hnothing
  | ok decoded =>
    obtain ⟨packet, packetId, unixTime⟩ := decoded
    dsimp only
    by_cases hsession : packet.localSession = ByteVec.zero 8
    · rw [if_pos hsession]
      exact hnothing
    rw [if_neg hsession]
    by_cases hacks : packet.ackIds ≠ [] ∧ packet.ackRemoteSession ≠ r.localId
    · rw [if_pos hacks]
      exact hnothing
    rw [if_neg hacks]
    by_cases hreset : r.InitialReset packet
    · rw [if_pos hreset]
      have hop : packet.opcode ≠ pControlSoftResetV1 := by
        rcases hreset.2.1 with hop | hop
        · rw [hop]
          decide
        · rw [hop]
          decide
      rcases r.checkReplay_cases now crypt.isSome packetId unixTime with
        ⟨replay, hcheck, hpassed⟩ | ⟨replay, hcheck, hrefused⟩
      · rw [hcheck]
        dsimp only
        unfold handlePacket checkReplay
        rw [if_neg (not_not.mpr rfl), if_neg hop, if_neg (not_not.mpr hreset.2.2.1), Bool.not_true,
          Bool.and_false]
        exact .received hdecode (.inr hreset) hop hreset.2.2.1 hpassed
      · rw [hcheck]
        exact .dropped hrefused
    · rw [if_neg hreset]
      unfold handlePacket
      by_cases hremote : r.remote = some packet.localSession
      swap
      · rw [if_pos hremote]
        exact hnothing
      rw [if_neg (not_not.mpr hremote)]
      have hsame : r = { r with remote := some packet.localSession } := by rw [← hremote]
      by_cases hop : packet.opcode = pControlSoftResetV1
      · rw [if_pos hop]
        by_cases hnext : packet.keyId = nextKeyId r.keyId ∧ packet.messageId = 0
        · rw [if_pos hnext]
          rcases r.checkReplay_cases now crypt.isSome packetId unixTime with
            ⟨replay, hcheck, hpassed⟩ | ⟨replay, hcheck, hrefused⟩
          · rw [hcheck]
            exact .softReset hdecode hremote hop ((if_pos hnext).mpr hpassed)
          · rw [hcheck]
            exact .dropped hrefused
        · rw [if_neg hnext]
          exact .softReset hdecode hremote hop ((if_neg hnext).mpr rfl)
      · rw [if_neg hop]
        by_cases hkey : packet.keyId = r.keyId
        swap
        · rw [if_pos hkey]
          exact hnothing
        rw [if_neg (not_not.mpr hkey), Bool.not_false, Bool.and_true]
        rcases r.checkReplay_cases now crypt.isSome packetId unixTime with
          ⟨replay, hcheck, hpassed⟩ | ⟨replay, hcheck, hrefused⟩
        · rw [hcheck]
          have h : Handled hmac r now crypt raw _ := .received hdecode (.inl hremote) hop hkey hpassed
          rwa [← hremote] at h
        · rw [hcheck]
          exact .dropped hrefused

end Reliable

end RustCrash.OpenVpn
