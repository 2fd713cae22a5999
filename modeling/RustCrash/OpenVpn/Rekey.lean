import RustCrash.OpenVpn.Delivery

/-
  Replays on the control channel, and the soft resets that start a rekey.

  The replay window is asked about every packet of the session but one kind: a soft reset that does
  not carry the next key id and message 0 goes past it, and is parked all the same. So a soft reset
  that comes again after the rekey that it started has an effect again (`replayed_reset`).
-/

namespace RustCrash.OpenVpn

open Lib

/-- `begin_rekey`: the first message of the new epoch was taken in already. -/
def Reliable.beginRekey (r : Reliable) (reset : ControlPacket) : Reliable :=
  let r := r.beginEpoch (reset.keyId &&& keyIdMask)
  let next := reset.messageId + 1
  { r with
    recvMessage :=
      if next ≠ r.recvMessage ∧ reliableMessageBefore next r.recvMessage = false then next
      else r.recvMessage
    recvPending := r.recvPending.erase reset.messageId
    ackPending := appendAck r.ackPending reset.messageId }

inductive Phase where
  | established
  | rekeying
  | failed
  deriving DecidableEq

/-- What a datagram changed, apart from the replay window. -/
def Effect (r : Reliable) (result : Reliable × ControlOutcome) : Prop :=
  (∃ p, result.2 = .deliver p) ∨ (∃ p, result.2 = .softReset p) ∨
    result.1.remote ≠ r.remote ∨ result.1.pending ≠ r.pending ∨
    result.1.ackPending ≠ r.ackPending ∨ result.1.recvMessage ≠ r.recvMessage ∨
    result.1.recvPending.entries ≠ r.recvPending.entries

instance (outcome : ControlOutcome) : Decidable (∃ p, outcome = .deliver p) :=
  match outcome with
  | .deliver p => isTrue ⟨p, rfl⟩
  | .softReset _ => isFalse nofun
  | .dropped => isFalse nofun

instance (outcome : ControlOutcome) : Decidable (∃ p, outcome = .softReset p) :=
  match outcome with
  | .deliver _ => isFalse nofun
  | .softReset p => isTrue ⟨p, rfl⟩
  | .dropped => isFalse nofun

instance (r : Reliable) (result : Reliable × ControlOutcome) : Decidable (Effect r result) :=
  inferInstanceAs (Decidable (_ ∨ _ ∨ _ ∨ _ ∨ _ ∨ _ ∨ _))

/-- The control half of a client, with the times and ids of the packets that had an effect, and the
    rekeys: the key at the time, and the soft reset. -/
structure ControlClient where
  reliable : Reliable
  handshaken : Bool
  phase : Phase
  pendingSoftReset : Option ControlPacket
  effects : List (UInt32 × UInt32)
  rekeys : List (UInt8 × ControlPacket)

inductive ClientEvent where
  /-- `on_packet`, or `read_control_payload` of the handshake. -/
  | packet (handshaking : Bool) (now : Nat) (raw : Bytes)
  | acks (max : Nat)
  | send (opcode : UInt8) (payload : Bytes) (remote : Session)
  | handshake
  /-- The TLS epoch of a rekey ends, one way or the other. -/
  | phase (p : Phase)
  /-- `run_client`, after each turn of its loop. -/
  | rekey

namespace ControlClient

def new (localId : Session) : ControlClient := ⟨.new localId, false, .established, none, [], []⟩

variable (hmac : Hmac) (crypt : ControlCrypt)

/-- A soft reset that comes while one is parked is forgotten, as is one during the handshake. -/
def park (c : ControlClient) (handshaking : Bool) : ControlOutcome → Option ControlPacket
  | .softReset p =>
    if handshaking = false ∧ c.pendingSoftReset = none then some p else c.pendingSoftReset
  | _ => c.pendingSoftReset

def step (c : ControlClient) : ClientEvent → ControlClient
  | .packet handshaking now raw =>
    let result := c.reliable.handleRaw hmac now (some crypt) raw
    { c with
      reliable := result.1
      pendingSoftReset := c.park handshaking result.2
      effects := match Reliable.decodePacket hmac (some crypt) raw with
        | .ok (_, packetId, unixTime) =>
          if Effect c.reliable result then (unixTime, packetId) :: c.effects else c.effects
        | .error _ => c.effects }
  | .acks max => { c with reliable := (c.reliable.takeAcks max).1 }
  | .send opcode payload remote =>
    let (r, p) := c.reliable.buildSend opcode payload remote
    { c with reliable := { r with pending := r.pending ++ [p] } }
  | .handshake => { c with handshaken := true }
  | .phase p => { c with phase := p }
  | .rekey =>
    match c.pendingSoftReset with
    | none => c
    | some reset =>
      if c.handshaken ∧ c.phase = .established then
        { c with
          reliable := c.reliable.beginRekey reset
          phase := .rekeying
          pendingSoftReset := none
          rekeys := (c.reliable.keyId, reset) :: c.rekeys }
      else c

def run (c : ControlClient) (events : List ClientEvent) : ControlClient :=
  events.foldl (step hmac crypt) c

/-- A soft reset of the session carries the next key and message 0, and the clock does not read
    zero. -/
def Checked (c : ControlClient) : ClientEvent → Prop
  | .packet _ now raw => RecReplay.stamp now ≠ 0 ∧ ∀ p packetId unixTime,
      Reliable.decodePacket hmac (some crypt) raw = .ok (p, packetId, unixTime) →
      p.opcode = pControlSoftResetV1 → c.reliable.remote = some p.localSession →
      p.keyId = nextKeyId c.reliable.keyId ∧ p.messageId = 0
  | _ => True

def AllChecked : ControlClient → List ClientEvent → Prop
  | _, [] => True
  | c, e :: events => Checked hmac crypt c e ∧ AllChecked (c.step hmac crypt e) events

/-- No packet had an effect twice, and every rekey went to the next key by its message 0. -/
def EffectsOnce (c : ControlClient) : Prop :=
  c.effects.Nodup ∧ ∀ k p, (k, p) ∈ c.rekeys → p.keyId = nextKeyId k ∧ p.messageId = 0

/-! ## Runs -/

/-- Whatever had an effect is known to the replay window, and what is parked leads to the next
    key. -/
structure Guarded (c : ControlClient) : Prop where
  remembers : ∃ accepted, c.reliable.replay.Remembers accepted ∧ c.effects ⊆ accepted
  nodup : c.effects.Nodup
  parked : ∀ p, c.pendingSoftReset = some p → p.keyId = nextKeyId c.reliable.keyId ∧ p.messageId = 0
  rekeys : ∀ k p, (k, p) ∈ c.rekeys → p.keyId = nextKeyId k ∧ p.messageId = 0

theorem guarded_new (localId : Session) : Guarded (new localId) :=
  ⟨⟨[], RecReplay.remembers_new, List.Subset.refl _⟩, List.nodup_nil, nofun, nofun⟩

variable {hmac crypt} {c : ControlClient}

theorem receive_kept (r : Reliable) (p : ControlPacket) :
    (r.receive p).1.replay = r.replay ∧ (r.receive p).1.keyId = r.keyId ∧
      ∀ q, (r.receive p).2 ≠ .softReset q := by
  unfold Reliable.receive
  dsimp only
  split_ifs
  all_goals exact ⟨rfl, rfl, nofun⟩

theorem no_effect {r : Reliable} {replay : RecReplay} :
    ¬ Effect r ({ r with replay }, .dropped) := by
  rintro (⟨p, hp⟩ | ⟨p, hp⟩ | h | h | h | h | h)
  · cases hp
  · cases hp
  · exact h rfl
  · exact h rfl
  · exact h rfl
  · exact h rfl
  · exact h rfl

/-- A packet that the window let pass. -/
theorem Guarded.passed (h : Guarded c) {now : Nat} {replay : RecReplay}
    {packetId unixTime : UInt32} (hnow : RecReplay.stamp now ≠ 0)
    (hpassed : c.reliable.Passed now true packetId unixTime replay) :
    ((unixTime, packetId) :: c.effects).Nodup ∧
      ∃ accepted, replay.Remembers accepted ∧ (unixTime, packetId) :: c.effects ⊆ accepted := by
  obtain ⟨accepted, hremembers, hsub⟩ := h.remembers
  unfold Reliable.Passed at hpassed
  rw [if_pos rfl] at hpassed
  obtain ⟨hfresh, hnew⟩ := hremembers.check hnow hpassed
  exact ⟨List.nodup_cons.mpr ⟨fun hmem => hfresh (hsub hmem), h.nodup⟩, _, hnew,
    List.cons_subset_cons _ hsub⟩

theorem Guarded.step (h : Guarded c) {e : ClientEvent} (he : Checked hmac crypt c e) :
    Guarded (c.step hmac crypt e) := by
  obtain ⟨accepted, hremembers, hsub⟩ := h.remembers
  cases e with
  | acks max => exact ⟨h.remembers, h.nodup, h.parked, h.rekeys⟩
  | send opcode payload remote => exact ⟨h.remembers, h.nodup, h.parked, h.rekeys⟩
  | handshake => exact ⟨h.remembers, h.nodup, h.parked, h.rekeys⟩
  | phase p => exact ⟨h.remembers, h.nodup, h.parked, h.rekeys⟩
  | rekey =>
    unfold ControlClient.step
    cases hpending : c.pendingSoftReset with
    | none => exact h
    | some reset =>
      dsimp only
      split_ifs
      · refine ⟨h.remembers, h.nodup, nofun, fun k p hmem => ?_⟩
        rcases List.mem_cons.mp hmem with heq | hmem
        · cases heq
          exact h.parked reset hpending
        · exact h.rekeys k p hmem
      · exact h
  | packet handshaking now raw =>
    obtain ⟨hnow, hreset⟩ := he
    have hhandled := c.reliable.handleRaw_handled hmac now (some crypt) raw
    unfold ControlClient.step
    dsimp only
    generalize c.reliable.handleRaw hmac now (some crypt) raw = result at hhandled
    cases hhandled with
    | @dropped replay hrefused =>
      have heffects : (match Reliable.decodePacket hmac (some crypt) raw with
          | .ok (_, packetId, unixTime) =>
            if Effect c.reliable ({ c.reliable with replay }, .dropped) then
              (unixTime, packetId) :: c.effects else c.effects
          | .error _ => c.effects) = c.effects := by
        cases Reliable.decodePacket hmac (some crypt) raw with
        | error e => rfl
        | ok decoded => exact if_neg no_effect
      rw [heffects]
      refine ⟨⟨accepted, ?_, hsub⟩, h.nodup, h.parked, h.rekeys⟩
      rcases hrefused with rfl | ⟨-, packetId, unixTime, hcheck⟩
      · exact hremembers
      · exact hremembers.check_refused hcheck
    | @softReset p packetId unixTime replay hdecode hremote hop hreplay =>
      have hnext := hreset p packetId unixTime hdecode hop hremote
      rw [if_pos hnext] at hreplay
      obtain ⟨hnodup, hknown⟩ := h.passed hnow hreplay
      rw [hdecode]
      dsimp only
      rw [if_pos (.inr (.inl ⟨p, rfl⟩))]
      refine ⟨hknown, hnodup, fun q hq => ?_, h.rekeys⟩
      unfold park at hq
      dsimp only at hq
      split_ifs at hq
      · cases hq
        exact hnext
      · exact h.parked q hq
    | @received p packetId unixTime replay hdecode hremote hop hkey hreplay =>
      obtain ⟨hnodup, accepted', hknown, hsub'⟩ := h.passed hnow hreplay
      rw [hdecode]
      dsimp only
      generalize hr : Reliable.applyAcks { c.reliable with
        replay, remote := some p.localSession } p.ackIds = r
      obtain ⟨hkept, hkeyId, hnot⟩ := receive_kept r p
      have hreplay' : (r.receive p).1.replay = replay := by
        rw [hkept, ← hr]
        rfl
      have hkey' : (r.receive p).1.keyId = c.reliable.keyId := by
        rw [hkeyId, ← hr]
        rfl
      have hpark : c.park handshaking (r.receive p).2 = c.pendingSoftReset := by
        unfold park
        cases hout : (r.receive p).2 with
        | softReset q => exact absurd hout (hnot q)
        | deliver q => rfl
        | dropped => rfl
      refine ⟨⟨accepted', ?_, ?_⟩, ?_, ?_, h.rekeys⟩
      · dsimp only
        rw [hreplay']
        exact hknown
      · dsimp only
        split_ifs
        · exact hsub'
        · exact fun x hx => hsub' (List.mem_cons_of_mem _ hx)
      · dsimp only
        split_ifs
        · exact hnodup
        · exact h.nodup
      · dsimp only
        rw [hpark, hkey']
        exact h.parked

theorem Guarded.run (h : Guarded c) {events : List ClientEvent}
    (hevents : AllChecked hmac crypt c events) : Guarded (c.run hmac crypt events) := by
  induction events generalizing c with
  | nil => exact h
  | cons e events ih => exact ih (h.step hevents.1) hevents.2

/-- In every run of a client with a cryptor no packet has an effect twice, and a rekey goes to the
    next key, while every soft reset of the session carries the next key and message 0. -/
theorem effects_once (hmac : Hmac) (crypt : ControlCrypt) (localId : Session)
    (events : List ClientEvent) (hevents : AllChecked hmac crypt (new localId) events) :
    EffectsOnce ((new localId).run hmac crypt events) :=
  have h := (guarded_new localId).run hevents
  ⟨h.nodup, h.rekeys⟩

/-! ## A soft reset that comes again -/

def sampleCrypt : ControlCrypt := .tlsAuth .sha256 [] []

/-- A packet of the server without acks and payload. -/
def sampleDatagram (opcode keyId : UInt8) (packetId messageId : UInt32) : Bytes :=
  opcodeKeyId opcode keyId :: (sampleSession.val ++ (plainHmac .sha256 [] []).val ++
    be32 packetId ++ be32 1000 ++ 0 :: be32 messageId)

def hardReset : ClientEvent :=
  .packet true 5 (sampleDatagram pControlHardResetServerV2 0 1 0)

/-- To the first key. -/
def softReset : ClientEvent :=
  .packet false 6 (sampleDatagram pControlSoftResetV1 1 2 0)

theorem decode_sample : Reliable.decodePacket plainHmac (some sampleCrypt)
      (sampleDatagram pControlHardResetServerV2 0 1 0) =
        .ok (⟨pControlHardResetServerV2, 0, sampleSession, [], ByteVec.zero 8, 0, []⟩, 1, 1000) ∧
    Reliable.decodePacket plainHmac (some sampleCrypt)
      (sampleDatagram pControlSoftResetV1 1 2 0) =
        .ok (⟨pControlSoftResetV1, 1, sampleSession, [], ByteVec.zero 8, 0, []⟩, 2, 1000) :=
  ⟨rfl, rfl⟩

theorem effects_once_sample : EffectsOnce
    ((new sampleSession).run plainHmac sampleCrypt [hardReset, .handshake, softReset, .rekey]) := by
  refine effects_once plainHmac sampleCrypt sampleSession _
    ⟨⟨by decide, ?_⟩, trivial, ⟨by decide, ?_⟩, trivial, trivial⟩
  · intro p packetId unixTime hdecode hop
    rw [decode_sample.1] at hdecode
    cases hdecode
    exact absurd hop (by decide)
  · intro p packetId unixTime hdecode _ _
    rw [decode_sample.2] at hdecode
    cases hdecode
    decide

/-- The very same datagram is parked again after its rekey, and starts another one. -/
theorem replayed_reset : ¬ ∀ events : List ClientEvent,
    EffectsOnce ((new sampleSession).run plainHmac sampleCrypt events) := by
  intro hclaim
  have h := (hclaim [hardReset, .handshake, softReset, .rekey, softReset]).1
  have heffects : ((new sampleSession).run plainHmac sampleCrypt
      [hardReset, .handshake, softReset, .rekey, softReset]).effects =
        [(1000, 2), (1000, 2), (1000, 1)] := by decide
  rw [heffects] at h
  revert h
  decide

end ControlClient

end RustCrash.OpenVpn
