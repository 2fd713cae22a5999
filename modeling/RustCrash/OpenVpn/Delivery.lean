import RustCrash.OpenVpn.Reliable

/-
  A key epoch of the control channel: the messages of the server, in whatever order and however
  often their packets come, and what `handle_raw` makes of them.

  A packet that comes early is acknowledged and kept, and nothing ever takes it out again
  (`early_lost`).
-/

namespace RustCrash.OpenVpn

open Lib

/-- The opcode and the payload of each message of an epoch. -/
structure ServerEpoch where
  keyId : UInt8
  message : UInt32 → UInt8 × Bytes

inductive ControlEvent where
  /-- A datagram, with a message of the epoch for it to carry. -/
  | packet (now : Nat) (raw : Bytes) (id : UInt32)
  /-- `send_ack` and `retransmit_pending`. -/
  | acks (max : Nat)
  | send (opcode : UInt8) (payload : Bytes) (remote : Session)

/-- The state, with all that was delivered and all that was acknowledged. -/
structure ControlRun where
  reliable : Reliable
  delivered : List ControlPacket
  acked : List UInt32

namespace ControlRun

def start (r : Reliable) : ControlRun := ⟨r, [], r.ackPending⟩

variable (hmac : Hmac) (crypt : Option ControlCrypt)

def step (s : ControlRun) : ControlEvent → ControlRun
  | .packet now raw _ =>
    let (r, outcome) := s.reliable.handleRaw hmac now crypt raw
    { reliable := r
      delivered := match outcome with
        | .deliver p => s.delivered ++ [p]
        | _ => s.delivered
      acked := s.acked ++ r.ackPending }
  | .acks max => { s with reliable := (s.reliable.takeAcks max).1 }
  | .send opcode payload remote =>
    let (r, p) := s.reliable.buildSend opcode payload remote
    { s with reliable := { r with pending := r.pending ++ [p] } }

def run (s : ControlRun) (events : List ControlEvent) : ControlRun :=
  events.foldl (step hmac crypt) s

/-- The messages before this one were taken in. -/
def count (k : Nat) (s : ControlRun) : Nat := k + s.delivered.length

/-- A packet of the present epoch that brings the next message, and that the checks in front of it
    let pass. -/
structure Due (r : Reliable) (now : Nat) (raw : Bytes) (p : ControlPacket) : Prop where
  decode : ∃ packetId unixTime replay,
    Reliable.decodePacket hmac crypt raw = .ok (p, packetId, unixTime) ∧
      r.Passed now crypt.isSome packetId unixTime replay
  session : r.remote = some p.localSession ∧ p.localSession ≠ ByteVec.zero 8
  acks : p.ackIds = [] ∨ p.ackRemoteSession = r.localId
  key : p.keyId = r.keyId
  message : opcodeHasMessageId p.opcode = true ∧ p.opcode ≠ pControlSoftResetV1
  next : p.messageId = r.recvMessage

/-- In order and once each; the next message is delivered when it comes; what was acknowledged, as
    were all before it, is delivered; and nothing is kept that was delivered. -/
structure InOrder (epoch : ServerEpoch) (k : Nat) (s : ControlRun) : Prop where
  due : ∀ now raw p, Due hmac crypt s.reliable now raw p →
    (s.reliable.handleRaw hmac now crypt raw).2 = .deliver p
  delivered : (s.delivered.map fun p => (p.opcode, p.payload)) =
    (List.range' k s.delivered.length).map fun n => epoch.message (UInt32.ofNat n)
  acked : ∀ id : UInt32, k ≤ id.toNat →
    (∀ m : UInt32, k ≤ m.toNat → m ≤ id → m ∈ s.acked) → id.toNat < s.count k
  parked : ∀ id ∈ s.reliable.recvPending, reliableMessageBefore id s.reliable.recvMessage = false

/-- What is decoded for the epoch is what the server sent as this message. -/
def Genuine (epoch : ServerEpoch) : ControlEvent → Prop
  | .packet _ raw id => ∀ p packetId unixTime,
      Reliable.decodePacket hmac crypt raw = .ok (p, packetId, unixTime) →
      p.keyId = epoch.keyId → opcodeHasMessageId p.opcode = true →
      p.opcode ≠ pControlSoftResetV1 →
      p.messageId = id ∧ (p.opcode, p.payload) = epoch.message id
  | _ => True

/-- The message is the next one or an earlier one, or too far ahead to be kept. -/
def InTurn (k : Nat) (s : ControlRun) : ControlEvent → Prop
  | .packet _ _ id =>
    id.toNat ≤ s.count k ∧ s.count k < id.toNat + 2 ^ 31 ∨
      s.count k + reliableCapacity ≤ id.toNat ∧ id.toNat < s.count k + 2 ^ 31
  | _ => True

/-- A run in which every packet comes in its turn. -/
def AllInTurn (epoch : ServerEpoch) (k : Nat) : ControlRun → List ControlEvent → Prop
  | _, [] => True
  | s, e :: events => Genuine hmac crypt epoch e ∧ InTurn k s e ∧
      AllInTurn epoch k (s.step hmac crypt e) events

/-- The beginning of an epoch of which `k` messages were taken in: none at first, one after a soft
    reset. -/
structure Begins (keyId : UInt8) (k : Nat) (r : Reliable) : Prop where
  key : r.keyId = keyId
  next : r.recvMessage = UInt32.ofNat k
  bound : k ≤ 2 ^ 32
  acks : ∀ id ∈ r.ackPending, id.toNat < k
  parked : r.recvPending = ∅

/-! ## One step -/

/-- What holds in a run in which every packet comes in its turn. -/
structure Sound (epoch : ServerEpoch) (k : Nat) (s : ControlRun) : Prop where
  key : s.reliable.keyId = epoch.keyId
  next : s.reliable.recvMessage = UInt32.ofNat (s.count k)
  bound : s.count k ≤ 2 ^ 32
  pending : ∀ id ∈ s.reliable.ackPending, id.toNat < s.count k
  acked : ∀ id ∈ s.acked, id.toNat < s.count k
  parked : s.reliable.recvPending = ∅
  delivered : (s.delivered.map fun p => (p.opcode, p.payload)) =
    (List.range' k s.delivered.length).map fun n => epoch.message (UInt32.ofNat n)

theorem Begins.sound {epoch : ServerEpoch} {k : Nat} {r : Reliable}
    (h : Begins epoch.keyId k r) : Sound epoch k (start r) :=
  ⟨h.key, h.next, h.bound, h.acks, h.acks, h.parked, rfl⟩

theorem receive_next {r : Reliable} {p : ControlPacket} (hid : opcodeHasMessageId p.opcode = true)
    (hnext : p.messageId = r.recvMessage) : (r.receive p).2 = .deliver p := by
  have hack : p.opcode ≠ pAckV1 := by
    intro heq
    rw [heq] at hid
    revert hid
    decide
  have hbefore : reliableMessageBefore p.messageId r.recvMessage = false := by
    unfold reliableMessageBefore
    rw [hnext, UInt32.sub_self]
    decide
  unfold Reliable.receive
  rw [if_neg hack, if_neg (Bool.not_eq_false _ ▸ hid), hbefore, if_neg Bool.false_ne_true,
    if_pos hnext]

theorem Due.delivered {hmac : Hmac} {crypt : Option ControlCrypt} {r : Reliable} {now : Nat}
    {raw : Bytes} {p : ControlPacket} (h : Due hmac crypt r now raw p) :
    (r.handleRaw hmac now crypt raw).2 = .deliver p := by
  obtain ⟨packetId, unixTime, replay, hdecode, hpassed⟩ := h.decode
  have hacks : ¬ (p.ackIds ≠ [] ∧ p.ackRemoteSession ≠ r.localId) := by
    rintro ⟨hids, hremote⟩
    exact h.acks.elim hids hremote
  have hreset : ¬ r.InitialReset p := by
    rintro ⟨hnone, -⟩
    rw [h.session.1] at hnone
    cases hnone
  have hcheck : r.checkReplay now crypt.isSome packetId unixTime = ({ r with replay }, true) := by
    unfold Reliable.Passed at hpassed
    unfold Reliable.checkReplay
    by_cases hsome : crypt.isSome = true
    · rw [if_pos hsome] at hpassed
      rw [if_pos hsome, hpassed]
    · rw [if_neg hsome] at hpassed
      rw [if_neg hsome, hpassed]
  unfold Reliable.handleRaw
  rw [hdecode]
  dsimp only
  rw [if_neg h.session.2, if_neg hacks, if_neg hreset]
  unfold Reliable.handlePacket
  rw [if_neg (not_not.mpr h.session.1), if_neg h.message.2, if_neg (not_not.mpr h.key),
    Bool.not_false, Bool.and_true, hcheck]
  exact receive_next h.message.1 h.next

theorem Sound.inOrder {hmac : Hmac} {crypt : Option ControlCrypt} {epoch : ServerEpoch} {k : Nat}
    {s : ControlRun} (h : Sound epoch k s) : InOrder hmac crypt epoch k s where
  due _ _ _ hdue := hdue.delivered
  delivered := h.delivered
  acked id hk hall := h.acked id (hall id hk (UInt32.le_refl id))
  parked id hid := by
    rw [h.parked] at hid
    exact absurd hid (AList.notMem_empty id)

theorem toNat_sub_ofNat {id : UInt32} {n : Nat} (hn : n ≤ 2 ^ 32) :
    (id - UInt32.ofNat n).toNat = (2 ^ 32 - n + id.toNat) % 2 ^ 32 := by
  rw [UInt32.toNat_sub, UInt32.toNat_ofNat']
  have := id.toNat_lt
  omega

theorem before_of_delivered {id : UInt32} {n : Nat} (hn : n ≤ 2 ^ 32) (hlt : id.toNat < n)
    (hnear : n < id.toNat + 2 ^ 31) : reliableMessageBefore id (UInt32.ofNat n) = true := by
  unfold reliableMessageBefore
  rw [decide_eq_true_iff, toNat_sub_ofNat hn]
  omega

theorem not_before_of_ahead {id : UInt32} {n : Nat} (hn : n ≤ 2 ^ 32) (hle : n ≤ id.toNat)
    (hnear : id.toNat < n + 2 ^ 31) : reliableMessageBefore id (UInt32.ofNat n) = false := by
  unfold reliableMessageBefore
  rw [decide_eq_false_iff_not, toNat_sub_ofNat hn]
  have := id.toNat_lt
  omega

theorem not_window_of_far {id : UInt32} {n : Nat} (hn : n ≤ 2 ^ 32)
    (hfar : n + reliableCapacity ≤ id.toNat) (buffered : Nat) :
    recvWindowOk (UInt32.ofNat n) id buffered = false := by
  unfold recvWindowOk
  have := id.toNat_lt
  rw [Bool.and_eq_false_iff, decide_eq_false_iff_not, toNat_sub_ofNat hn]
  exact .inl (by unfold reliableCapacity at *; omega)

theorem mem_appendAck {acks : List UInt32} {ack id : UInt32} (h : id ∈ appendAck acks ack) :
    id ∈ acks ∨ id = ack := by
  unfold appendAck at h
  split_ifs at h with hmem
  · exact .inl h
  · rcases List.mem_append.mp h with h | h
    · exact .inl h
    · exact .inr (List.mem_singleton.mp h)

end ControlRun

namespace Reliable

variable {hmac : Hmac}

theorem decodeControl_control {header plain : Bytes} {packetId unixTime : UInt32}
    {p : ControlPacket} {i t : UInt32}
    (h : decodeControl header plain packetId unixTime = .ok (p, i, t)) :
    opcodeIsControl p.opcode = true := by
  unfold decodeControl at h
  cases header with
  | nil => cases h
  | cons first session =>
    dsimp only at h
    by_cases hop : opcodeIsControl (parseOpcodeKeyId first).1 = false
    · rw [if_pos hop] at h
      cases h
    rw [if_neg hop] at h
    cases hsession : ByteVec.ofBytes? 8 session with
    | none =>
      rw [hsession] at h
      cases h
    | some localSession =>
      rw [hsession] at h
      dsimp only at h
      cases hplain : controlDecodePlain (parseOpcodeKeyId first).1 plain with
      | error e =>
        rw [hplain] at h
        cases h
      | ok decoded =>
        rw [hplain] at h
        cases h
        exact Bool.eq_true_of_not_eq_false hop

theorem decodePacket_control {crypt : Option ControlCrypt} {raw : Bytes} {p : ControlPacket}
    {packetId unixTime : UInt32} (h : decodePacket hmac crypt raw = .ok (p, packetId, unixTime)) :
    opcodeIsControl p.opcode = true := by
  unfold decodePacket at h
  cases crypt with
  | none =>
    dsimp only at h
    split_ifs at h
    exact decodeControl_control h
  | some crypt =>
    dsimp only at h
    cases hunwrap : crypt.unwrap hmac raw with
    | error e =>
      rw [hunwrap] at h
      cases h
    | ok unwrapped =>
      rw [hunwrap] at h
      exact decodeControl_control h

end Reliable

namespace ControlRun

variable {hmac : Hmac} {crypt : Option ControlCrypt} {epoch : ServerEpoch} {k : Nat}
  {s : ControlRun}

/-- A step that delivers nothing. -/
theorem Sound.quiet (h : Sound epoch k s) {t : ControlRun}
    (hkey : t.reliable.keyId = s.reliable.keyId)
    (hnext : t.reliable.recvMessage = s.reliable.recvMessage)
    (hparked : t.reliable.recvPending = s.reliable.recvPending)
    (hdelivered : t.delivered = s.delivered)
    (hpending : ∀ id ∈ t.reliable.ackPending, id.toNat < s.count k)
    (hacked : ∀ id ∈ t.acked, id.toNat < s.count k) : Sound epoch k t := by
  have hcount : t.count k = s.count k := by
    unfold count
    rw [hdelivered]
  refine ⟨hkey.trans h.key, ?_, ?_, ?_, ?_, hparked.trans h.parked, ?_⟩
  · rw [hnext, h.next, hcount]
  · rw [hcount]
    exact h.bound
  · rw [hcount]
    exact hpending
  · rw [hcount]
    exact hacked
  · rw [hdelivered]
    exact h.delivered

theorem Sound.acks_append (h : Sound epoch k s) {acks : List UInt32}
    (hacks : ∀ id ∈ acks, id.toNat < s.count k) :
    ∀ id ∈ s.acked ++ acks, id.toNat < s.count k := fun id hid =>
  (List.mem_append.mp hid).elim (h.acked id) (hacks id)

/-- A packet of the epoch that comes in its turn. -/
theorem Sound.receive (h : Sound epoch k s) {r : Reliable} (hkey : r.keyId = s.reliable.keyId)
    (hnext : r.recvMessage = s.reliable.recvMessage)
    (hpending : r.ackPending = s.reliable.ackPending)
    (hparked : r.recvPending = s.reliable.recvPending) {p : ControlPacket}
    (hcontrol : opcodeIsControl p.opcode = true)
    (hmessage : opcodeHasMessageId p.opcode = true →
      (p.opcode, p.payload) = epoch.message p.messageId)
    (hturn : opcodeHasMessageId p.opcode = true →
      p.messageId.toNat ≤ s.count k ∧ s.count k < p.messageId.toNat + 2 ^ 31 ∨
        s.count k + reliableCapacity ≤ p.messageId.toNat ∧
          p.messageId.toNat < s.count k + 2 ^ 31) :
    Sound epoch k ⟨(r.receive p).1, match (r.receive p).2 with
      | .deliver p => s.delivered ++ [p]
      | _ => s.delivered, s.acked ++ (r.receive p).1.ackPending⟩ := by
  have hold : ∀ id ∈ r.ackPending, id.toNat < s.count k := by
    rw [hpending]
    exact h.pending
  have hacked := h.acks_append hold
  unfold Reliable.receive
  by_cases hack : p.opcode = pAckV1
  · rw [if_pos hack]
    exact h.quiet hkey hnext hparked rfl hold hacked
  have hid : opcodeHasMessageId p.opcode = true := by
    unfold opcodeHasMessageId
    rw [hcontrol, Bool.true_and, bne_iff_ne]
    exact hack
  rw [if_neg hack, if_neg (Bool.not_eq_false _ ▸ hid), hnext, h.next, hparked, h.parked]
  rcases hturn hid with ⟨hle, hnear⟩ | ⟨hfar, hnear⟩
  · rcases Nat.lt_or_eq_of_le hle with hlt | heq
    · -- A message that was delivered.
      rw [before_of_delivered h.bound hlt hnear, if_pos rfl]
      have hnew : ∀ id ∈ appendAck r.ackPending p.messageId, id.toNat < s.count k := by
        intro id hmem
        rcases mem_appendAck hmem with hmem | rfl
        · exact hold id hmem
        · exact hlt
      exact h.quiet hkey h.next.symm h.parked.symm rfl hnew (h.acks_append hnew)
    · -- The message that is due.
      have hid' : p.messageId = UInt32.ofNat (s.count k) := by rw [← heq, UInt32.ofNat_toNat]
      have hbound : s.count k < 2 ^ 32 := heq ▸ p.messageId.toNat_lt
      rw [not_before_of_ahead h.bound (Nat.le_of_eq heq.symm) (by omega), if_neg Bool.false_ne_true,
        if_pos hid']
      have hcount : count k ⟨r, s.delivered ++ [p], s.acked⟩ = s.count k + 1 := by
        unfold count
        rw [List.length_append, List.length_singleton, Nat.add_assoc]
      have hnew : ∀ id ∈ appendAck r.ackPending p.messageId, id.toNat < s.count k + 1 := by
        intro id hmem
        rcases mem_appendAck hmem with hmem | rfl
        · exact Nat.lt_succ_of_lt (hold id hmem)
        · exact Nat.lt_succ_of_le hle
      refine ⟨hkey.trans h.key, ?_, ?_, ?_, ?_, rfl, ?_⟩
      · refine Eq.trans ?_ (congrArg UInt32.ofNat hcount.symm)
        rw [UInt32.ofNat_add]
        rfl
      · exact hcount.trans_le hbound
      · intro id hmem
        exact (hnew id hmem).trans_eq hcount.symm
      · intro id hmem
        refine Nat.lt_of_lt_of_eq ?_ hcount.symm
        rcases List.mem_append.mp hmem with hmem | hmem
        · exact Nat.lt_succ_of_lt (h.acked id hmem)
        · exact hnew id hmem
      · rw [List.map_append, h.delivered, List.length_append, List.length_singleton,
          List.range'_concat, List.map_append, Nat.one_mul, List.map_singleton, List.map_singleton,
          hmessage hid, hid']
        rfl
  · -- Too far ahead.
    have hne : p.messageId ≠ UInt32.ofNat (s.count k) := by
      intro heq
      have hlen := congrArg UInt32.toNat heq
      rw [UInt32.toNat_ofNat'] at hlen
      have := p.messageId.toNat_lt
      unfold reliableCapacity at hfar
      omega
    rw [not_before_of_ahead h.bound (by unfold reliableCapacity at hfar; omega) hnear,
      if_neg Bool.false_ne_true, if_neg hne, if_neg (AList.notMem_empty _),
      not_window_of_far h.bound hfar, if_neg Bool.false_ne_true]
    exact h.quiet hkey hnext hparked rfl hold hacked

theorem Sound.step (h : Sound epoch k s) {e : ControlEvent} (hgenuine : Genuine hmac crypt epoch e)
    (hturn : InTurn k s e) : Sound epoch k (s.step hmac crypt e) := by
  cases e with
  | acks max =>
    refine h.quiet rfl rfl rfl rfl ?_ h.acked
    intro id hid
    exact h.pending id (List.mem_of_mem_drop hid)
  | send opcode payload remote =>
    refine h.quiet rfl rfl rfl rfl ?_ h.acked
    intro id hid
    exact h.pending id (List.mem_of_mem_drop hid)
  | packet now raw id =>
    have hhandled := s.reliable.handleRaw_handled hmac now crypt raw
    unfold ControlRun.step
    dsimp only
    generalize s.reliable.handleRaw hmac now crypt raw = result at hhandled
    cases hhandled with
    | dropped _ => exact h.quiet rfl rfl rfl rfl h.pending (h.acks_append h.pending)
    | softReset _ _ _ _ => exact h.quiet rfl rfl rfl rfl h.pending (h.acks_append h.pending)
    | @received p packetId unixTime replay hdecode _ hop hkey _ =>
      have hdue := fun hid => hgenuine p packetId unixTime hdecode (hkey.trans h.key) hid hop
      refine h.receive (by rfl) (by rfl) (by rfl) (by rfl) (Reliable.decodePacket_control hdecode)
        ?_ ?_
      · intro hid
        rw [(hdue hid).1]
        exact (hdue hid).2
      · intro hid
        rw [(hdue hid).1]
        exact hturn

theorem Sound.run (h : Sound epoch k s) {events : List ControlEvent}
    (hevents : AllInTurn hmac crypt epoch k s events) :
    Sound epoch k (s.run hmac crypt events) := by
  induction events generalizing s with
  | nil => exact h
  | cons e events ih =>
    obtain ⟨hgenuine, hturn, hrest⟩ := hevents
    exact ih (h.step hgenuine hturn) hrest

/-- While no packet comes early, the messages of an epoch are delivered in order and once each, what
    is acknowledged is delivered, and nothing is kept. -/
theorem control_in_order (hmac : Hmac) (crypt : Option ControlCrypt) (epoch : ServerEpoch) (k : Nat)
    (r : Reliable) (events : List ControlEvent) (hbegins : Begins epoch.keyId k r)
    (hevents : AllInTurn hmac crypt epoch k (start r) events) :
    InOrder hmac crypt epoch k ((start r).run hmac crypt events) :=
  (hbegins.sound.run hevents).inOrder

/-! ## A message that comes early -/

theorem begins_new (localId : Session) : Begins 0 0 (Reliable.new localId) :=
  ⟨rfl, rfl, Nat.zero_le _, nofun, rfl⟩

theorem genuine_of_decode {now : Nat} {raw : Bytes} {id : UInt32} (packet : ControlPacket)
    {packetId unixTime : UInt32}
    (hdecode : Reliable.decodePacket hmac crypt raw = .ok (packet, packetId, unixTime))
    (hid : packet.messageId = id) (hmessage : (packet.opcode, packet.payload) = epoch.message id) :
    Genuine hmac crypt epoch (.packet now raw id) := by
  intro p i t hp _ _ _
  rw [hdecode] at hp
  cases hp
  exact ⟨hid, hmessage⟩

/-- A reset, and then a byte for each message. -/
def sampleEpoch : ServerEpoch where
  keyId := 0
  message id := if id = 0 then (pControlHardResetServerV2, []) else (pControlV1, [id.toUInt8])

/-- A datagram without cryptor and without acks. -/
def sampleRaw (id : UInt32) : Bytes :=
  opcodeKeyId (sampleEpoch.message id).1 0 :: (sampleSession.val ++
    0 :: (be32 id ++ (sampleEpoch.message id).2))

def sampleEvent (id : UInt32) : ControlEvent := .packet 0 (sampleRaw id) id

theorem genuine_sample : Genuine plainHmac none sampleEpoch (sampleEvent 0) ∧
    Genuine plainHmac none sampleEpoch (sampleEvent 1) ∧
    Genuine plainHmac none sampleEpoch (sampleEvent 2) :=
  ⟨genuine_of_decode ⟨_, _, sampleSession, _, _, _, _⟩ rfl rfl rfl,
    genuine_of_decode ⟨_, _, sampleSession, _, _, _, _⟩ rfl rfl rfl,
    genuine_of_decode ⟨_, _, sampleSession, _, _, _, _⟩ rfl rfl rfl⟩

theorem control_in_order_sample : InOrder plainHmac none sampleEpoch 0
    ((start (.new sampleSession)).run plainHmac none [sampleEvent 0, sampleEvent 1]) :=
  control_in_order plainHmac none sampleEpoch 0 (.new sampleSession) _ (begins_new _)
    ⟨genuine_sample.1, .inl (by decide), genuine_sample.2.1, .inl (by decide), trivial⟩

/-- The second and the first message behind the reset: all three are acknowledged, and the second
    one is not delivered. -/
theorem early_lost : ¬ ∀ events : List ControlEvent,
    (∀ e ∈ events, Genuine plainHmac none sampleEpoch e) →
      InOrder plainHmac none sampleEpoch 0 ((start (.new sampleSession)).run plainHmac none events) := by
  intro hclaim
  obtain ⟨h₀, h₁, h₂⟩ := genuine_sample
  have h := (hclaim [sampleEvent 0, sampleEvent 2, sampleEvent 1] (by
    simp [h₀, h₁, h₂])).acked 2 (Nat.zero_le _)
  have hacked : ((start (.new sampleSession)).run plainHmac none
      [sampleEvent 0, sampleEvent 2, sampleEvent 1]).acked = [0, 0, 2, 0, 2, 1] := by decide
  have hcount : count 0 ((start (.new sampleSession)).run plainHmac none
      [sampleEvent 0, sampleEvent 2, sampleEvent 1]) = 2 := by decide
  rw [hacked, hcount] at h
  refine absurd (h fun m _ hm => ?_) (by decide)
  have hle := UInt32.le_iff_toNat_le.mp hm
  have hcases : m.toNat = 0 ∨ m.toNat = 1 ∨ m.toNat = 2 := by
    have htwo : (2 : UInt32).toNat = 2 := rfl
    omega
  rcases hcases with hm | hm | hm
  · obtain rfl : m = 0 := UInt32.toNat_inj.mp hm
    decide
  · obtain rfl : m = 1 := UInt32.toNat_inj.mp hm
    decide
  · obtain rfl : m = 2 := UInt32.toNat_inj.mp hm
    decide

end ControlRun

end RustCrash.OpenVpn
