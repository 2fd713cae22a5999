import RustCrash.EasyTier.Packet
import RustCrash.EasyTier.Replay

/-
  `proto/easytier.rs`: `SecureDatagramSession`, which seals the payloads of one peer and opens them.

  Every epoch and direction has its own traffic key, and the nonce of a packet is the epoch and the
  sequence number, so the receiver reads both off the end of the packet. The packet is checked
  against the replay state first, then opened, and only then written into the replay state.

  A call is one step: the locks of the fields are left out. So is the cache of ciphers, which is
  emptied when the root key changes, so that a cipher found there is the one that would be made.
  The clock is an argument of each call.
-/

namespace RustCrash.EasyTier

open Lib Proto

def syncRxGraceAfterMs : Nat := 5000
def epochRotateAfterPackets : Nat := 1000000
def epochRotateAfterMs : Nat := 10 * 60 * 1000
def decryptFailThreshold : Nat := 10

def RxSlots.empty : RxSlots := fun _ => .empty

/-- A copy of the slots that outlives a change of the root key. -/
structure SyncRxGrace where
  slots : RxSlots
  expiresAtMs : Nat
  valid : Bool

namespace SyncRxGrace

/-- `default`. -/
def empty : SyncRxGrace := ⟨.empty, 0, false⟩

def refresh (slots : RxSlots) (expiresAtMs : Nat) : SyncRxGrace := ⟨slots, expiresAtMs, true⟩

def maybeExpire (g : SyncRxGrace) (nowMs : Nat) : SyncRxGrace :=
  if g.valid ∧ g.expiresAtMs ≤ nowMs then empty else g

end SyncRxGrace

def evictOldRxSlots (rx : RxSlots) (nowMs : Nat) : RxSlots := fun dir => (rx dir).evict nowMs

def SyncRxGrace.evict (g : SyncRxGrace) (nowMs : Nat) : SyncRxGrace :=
  { g with slots := evictOldRxSlots g.slots nowMs }

structure SecureDatagramSession where
  rootKey : ByteVec 32
  sessionGeneration : UInt32
  sendEpoch : UInt32
  sendSeq : SecureDirection → UInt64
  sendEpochStartedMs : Nat
  sendPacketsSinceEpoch : Nat
  rxSlots : RxSlots
  syncRxGrace : SyncRxGrace
  syncRxGraceExpiresAtMs : Nat
  sendCipherAlgorithm : Str
  recvCipherAlgorithm : Str
  invalidated : Bool
  decryptFailCount : Nat

theorem length_packetNonce (epoch : UInt32) (seq : UInt64) :
    (be32 epoch ++ be64 seq).length = 12 := by
  rw [List.length_append, length_be32, length_be64]

/-- `epoch_be || seq_be`. -/
def packetNonce (epoch : UInt32) (seq : UInt64) : ByteVec 12 :=
  ⟨be32 epoch ++ be64 seq, length_packetNonce epoch seq⟩

def nonceEpoch (nonce : ByteVec 12) : UInt32 := ofBE32 (nonce.val.take 4)

def nonceSeq (nonce : ByteVec 12) : UInt64 := ofBE64 (nonce.val.drop 4)

@[simp] theorem nonceEpoch_packetNonce (epoch : UInt32) (seq : UInt64) :
    nonceEpoch (packetNonce epoch seq) = epoch := by
  unfold nonceEpoch packetNonce
  rw [List.take_left' (length_be32 epoch), ofBE32_be32]

@[simp] theorem nonceSeq_packetNonce (epoch : UInt32) (seq : UInt64) :
    nonceSeq (packetNonce epoch seq) = seq := by
  unfold nonceSeq packetNonce
  rw [List.drop_left' (length_be32 epoch), ofBE64_be64]

/-- What tells packets apart: the traffic key (root key, epoch and direction) and the nonce (epoch and
    sequence number) that a packet was sealed or opened with. -/
structure PacketId where
  rootKey : ByteVec 32
  dir : SecureDirection
  epoch : UInt32
  seq : UInt64
  deriving DecidableEq

namespace SecureDatagramSession

def new (rootKey : ByteVec 32) (sessionGeneration initialEpoch : UInt32)
    (sendCipherAlgorithm recvCipherAlgorithm : Str) (nowMs : Nat) : SecureDatagramSession where
  rootKey := rootKey
  sessionGeneration := sessionGeneration
  sendEpoch := initialEpoch
  sendSeq := fun _ => 0
  sendEpochStartedMs := nowMs
  sendPacketsSinceEpoch := 0
  rxSlots := .empty
  syncRxGrace := .empty
  syncRxGraceExpiresAtMs := 0
  sendCipherAlgorithm := sendCipherAlgorithm
  recvCipherAlgorithm := recvCipherAlgorithm
  invalidated := false
  decryptFailCount := 0

def invalidate (s : SecureDatagramSession) : SecureDatagramSession := { s with invalidated := true }

def isValid (s : SecureDatagramSession) : Bool := !s.invalidated

/-- The epoch of a slot counts when the slot is valid. -/
def maxSlotEpoch (epoch : UInt32) (slot : EpochRxSlot) : UInt32 :=
  if slot.valid then max epoch slot.epoch else epoch

def nextSyncEpoch (s : SecureDatagramSession) : UInt32 :=
  let slots := [(s.rxSlots .aToB).slot0, (s.rxSlots .aToB).slot1, (s.rxSlots .bToA).slot0,
    (s.rxSlots .bToA).slot1]
  slots.foldl maxSlotEpoch s.sendEpoch + 1

def checkEncryptAlgoSame (s : SecureDatagramSession) (send recv : Str) : Result Unit :=
  ensure (s.sendCipherAlgorithm = send ∧ s.recvCipherAlgorithm = recv)
    (.protocol "easytier: encrypt algorithm not same")

def syncRootKey (s : SecureDatagramSession) (rootKey : ByteVec 32)
    (sessionGeneration initialEpoch : UInt32) (preserveRxGrace : Bool) (nowMs : Nat) :
    SecureDatagramSession :=
  let canPreserveRxGrace := preserveRxGrace && s.rootKey = rootKey
  let expiresAtMs := min (nowMs + syncRxGraceAfterMs) (2 ^ 64 - 1)
  { s with
    rootKey := rootKey
    sessionGeneration := sessionGeneration
    sendEpoch := initialEpoch
    sendSeq := fun _ => 0
    sendEpochStartedMs := nowMs
    sendPacketsSinceEpoch := 0
    syncRxGrace := if canPreserveRxGrace then .refresh s.rxSlots expiresAtMs else .empty
    syncRxGraceExpiresAtMs := if canPreserveRxGrace then expiresAtMs else 0
    rxSlots := .empty }

/-! ## Sealing -/

/-- The direction is its index in one byte. -/
def dirByte (dir : SecureDirection) : UInt8 := UInt8.ofNat dir.idx

/-- `hkdf_traffic_key`, from the root key. -/
def hkdfTrafficKey (H : Hashes) (rootKey : ByteVec 32) (epoch : UInt32) (dir : SecureDirection) :
    ByteVec 32 :=
  let prk := H.hmacSha256 (ByteVec.zero 32).val rootKey.val
  let info := utf8 "et-traffic".toList ++ be32 epoch ++ [dirByte dir]
  H.hmacSha256 prk.val (info ++ [1])

/-- `get_or_create_encryptor`: both ciphers of the epoch are made. -/
def getOrCreateCipher (H : Hashes) (s : SecureDatagramSession) (epoch : UInt32)
    (dir : SecureDirection) (isSend : Bool) : Result PacketEncryptor := do
  let key := hkdfTrafficKey H s.rootKey epoch dir
  let send ← cipherFor s.sendCipherAlgorithm key
  let recv ← cipherFor s.recvCipherAlgorithm key
  return if isSend then send else recv

def maybeRotateEpoch (s : SecureDatagramSession) (nowMs : Nat) : SecureDatagramSession :=
  let packets := s.sendPacketsSinceEpoch + 1
  if packets < epochRotateAfterPackets ∧ nowMs - s.sendEpochStartedMs < epochRotateAfterMs then
    { s with sendPacketsSinceEpoch := packets }
  else
    { s with sendEpoch := s.sendEpoch + 1, sendEpochStartedMs := nowMs, sendPacketsSinceEpoch := 0 }

/-- The epoch and the sequence number of the next packet. -/
def nextNonce (s : SecureDatagramSession) (dir : SecureDirection) (nowMs : Nat) :
    SecureDatagramSession × UInt32 × UInt64 :=
  let s := s.maybeRotateEpoch nowMs
  let seq := s.sendSeq dir
  ({ s with sendSeq := Function.update s.sendSeq dir (seq + 1) }, s.sendEpoch, seq)

def encryptPayload (H : Hashes) (s : SecureDatagramSession) (dir : SecureDirection) (nowMs : Nat)
    (hdr : PeerManagerHeader) (payload : Bytes) :
    SecureDatagramSession × Result (PeerManagerHeader × Bytes) :=
  if s.isValid = false then (s, .error (.crypto "easytier: session invalidated"))
  else
    let (s, epoch, seq) := s.nextNonce dir nowMs
    (s, do
      let cipher ← s.getOrCreateCipher H epoch dir true
      cipher.encryptPacketWithNonce hdr payload (packetNonce epoch seq))

/-! ## Opening -/

def syncRxGraceActive (s : SecureDatagramSession) (nowMs : Nat) : SecureDatagramSession × Bool :=
  if s.syncRxGraceExpiresAtMs = 0 then (s, false)
  else if nowMs < s.syncRxGraceExpiresAtMs then (s, true)
  else ({ s with syncRxGraceExpiresAtMs := 0 }, false)

/-- What comes back is a copy. -/
def takeSyncRxGrace (s : SecureDatagramSession) (nowMs : Nat) :
    SecureDatagramSession × Option SyncRxGrace :=
  let (s, active) := s.syncRxGraceActive nowMs
  if active = false then (s, none)
  else
    let grace := s.syncRxGrace.maybeExpire nowMs
    if grace.valid then
      let grace := grace.evict nowMs
      ({ s with syncRxGrace := grace }, some grace)
    else ({ s with syncRxGrace := grace, syncRxGraceExpiresAtMs := 0 }, none)

/-- The slots of the copy, when they have the epoch. -/
def graceSlots (grace : Option SyncRxGrace) (dir : SecureDirection) (epoch : UInt32) :
    Option DirSlots :=
  (grace.map fun g => g.slots dir).filter fun d => d.epochInSlots epoch

/-- The replay state at the start of a check. -/
def startReplay (s : SecureDatagramSession) (nowMs : Nat) :
    SecureDatagramSession × Option SyncRxGrace :=
  { s with rxSlots := evictOldRxSlots s.rxSlots nowMs }.takeSyncRxGrace nowMs

def precheckReplay (s : SecureDatagramSession) (epoch : UInt32) (seq : UInt64)
    (dir : SecureDirection) (nowMs : Nat) : SecureDatagramSession × Bool :=
  let (s, grace) := s.startReplay nowMs
  (s,
    match graceSlots grace dir epoch with
    | some d => d.canAcceptIn epoch seq
    | none => (s.rxSlots dir).precheck s.sendEpoch epoch seq)

def commitReplay (s : SecureDatagramSession) (epoch : UInt32) (seq : UInt64)
    (dir : SecureDirection) (nowMs : Nat) : SecureDatagramSession × Bool :=
  let (s, grace) := s.startReplay nowMs
  match graceSlots grace dir epoch with
  | some d => (s, (d.acceptIn epoch seq nowMs).2)
  | none =>
    let (slots, accepted) := (s.rxSlots dir).commit s.sendEpoch epoch seq nowMs
    ({ s with rxSlots := Function.update s.rxSlots dir slots }, accepted)

/-- One more packet that did not open. -/
def countFailure (s : SecureDatagramSession) : SecureDatagramSession :=
  let count := s.decryptFailCount + 1
  { s with
    decryptFailCount := count
    invalidated := s.invalidated || decryptFailThreshold ≤ count }

def decryptPayload (H : Hashes) (s : SecureDatagramSession) (dir : SecureDirection) (nowMs : Nat)
    (hdr : PeerManagerHeader) (payload : Bytes) :
    SecureDatagramSession × Result (PeerManagerHeader × Bytes) :=
  if s.isValid = false then (s, .error (.crypto "easytier: session invalidated"))
  else if payload.length < aeadTailSize then
    (s, .error (.crypto s!"easytier: packet is too short. len: {payload.length}"))
  else
    let nonce := PacketEncryptor.tailNonce payload
    let epoch := nonceEpoch nonce
    let seq := nonceSeq nonce
    let (s, passed) := s.precheckReplay epoch seq dir nowMs
    if passed = false then (s, .error (.crypto "easytier: replay rejected"))
    else
      match s.getOrCreateCipher H epoch dir false with
      | .error e => (s, .error e)
      | .ok cipher =>
        match cipher.decryptPacket hdr payload with
        | .error e => (s.countFailure, .error e)
        | .ok opened =>
          let (s, accepted) :=
            { s with decryptFailCount := 0 }.commitReplay epoch seq dir nowMs
          if accepted = false then (s, .error (.crypto "easytier: replay rejected"))
          else (s, .ok opened)

/-! ## What a call does -/

variable {H : Hashes} {s s' : SecureDatagramSession} {dir : SecureDirection} {nowMs : Nat}
  {hdr : PeerManagerHeader} {payload : Bytes} {epoch : UInt32} {seq : UInt64}

theorem maybeRotateEpoch_frame (s : SecureDatagramSession) (nowMs : Nat) :
    ∃ epoch started packets, s.maybeRotateEpoch nowMs =
      { s with
        sendEpoch := epoch
        sendEpochStartedMs := started
        sendPacketsSinceEpoch := packets } := by
  unfold maybeRotateEpoch
  dsimp only
  split_ifs
  · exact ⟨_, _, _, rfl⟩
  · exact ⟨_, _, _, rfl⟩

/-- Sealing leaves the receiving side alone. -/
theorem encryptPayload_frame (H : Hashes) (s : SecureDatagramSession) (dir : SecureDirection)
    (nowMs : Nat) (hdr : PeerManagerHeader) (payload : Bytes) :
    ∃ epoch seq started packets, (s.encryptPayload H dir nowMs hdr payload).1 =
      { s with
        sendEpoch := epoch
        sendSeq := seq
        sendEpochStartedMs := started
        sendPacketsSinceEpoch := packets } := by
  obtain ⟨epoch, started, packets, h⟩ := s.maybeRotateEpoch_frame nowMs
  unfold encryptPayload nextNonce
  split_ifs
  · exact ⟨_, _, _, _, rfl⟩
  · dsimp only
    rw [h]
    exact ⟨_, _, _, _, rfl⟩

/-- The copy is in use. -/
def GraceLive (s : SecureDatagramSession) (nowMs : Nat) : Prop :=
  s.syncRxGrace.valid = true ∧ nowMs < s.syncRxGraceExpiresAtMs ∧
    nowMs < s.syncRxGrace.expiresAtMs

theorem takeSyncRxGrace_of_live (h : s.GraceLive nowMs) :
    s.takeSyncRxGrace nowMs =
      ({ s with syncRxGrace := s.syncRxGrace.evict nowMs }, some (s.syncRxGrace.evict nowMs)) := by
  obtain ⟨hvalid, hactive, hlate⟩ := h
  unfold takeSyncRxGrace syncRxGraceActive SyncRxGrace.maybeExpire
  have hfresh : ¬ (s.syncRxGrace.valid = true ∧ s.syncRxGrace.expiresAtMs ≤ nowMs) := by omega
  rw [if_neg (by omega), if_pos hactive]
  dsimp only
  rw [if_neg (by decide : ¬ true = false), if_neg hfresh, if_pos hvalid]

/-- When the copy is not in use, it never will be again. -/
theorem takeSyncRxGrace_of_not_live (h : ¬ s.GraceLive nowMs) :
    ∃ g, s.takeSyncRxGrace nowMs =
      ({ s with syncRxGrace := g, syncRxGraceExpiresAtMs := 0 }, none) := by
  unfold takeSyncRxGrace syncRxGraceActive
  by_cases hzero : s.syncRxGraceExpiresAtMs = 0
  · rw [if_pos hzero]
    exact ⟨s.syncRxGrace, by rw [← hzero]; rfl⟩
  rw [if_neg hzero]
  by_cases hactive : nowMs < s.syncRxGraceExpiresAtMs
  · rw [if_pos hactive]
    dsimp only
    have hexpired : (s.syncRxGrace.maybeExpire nowMs).valid = false := by
      unfold SyncRxGrace.maybeExpire
      split_ifs with hexp
      · rfl
      · rw [← Bool.not_eq_true]
        intro hvalid
        exact h ⟨hvalid, hactive, Nat.lt_of_not_le fun hle => hexp ⟨hvalid, hle⟩⟩
    rw [if_neg (by decide), if_neg (by rw [hexpired]; decide)]
    exact ⟨_, rfl⟩
  · rw [if_neg hactive]
    exact ⟨s.syncRxGrace, rfl⟩

/-- What `startReplay` leaves alone. -/
theorem startReplay_frame (s : SecureDatagramSession) (nowMs : Nat) :
    ∃ g t, (s.startReplay nowMs).1 =
      { s with
        rxSlots := evictOldRxSlots s.rxSlots nowMs
        syncRxGrace := g
        syncRxGraceExpiresAtMs := t } := by
  unfold startReplay
  by_cases hlive : ({ s with rxSlots := evictOldRxSlots s.rxSlots nowMs } :
      SecureDatagramSession).GraceLive nowMs
  · rw [takeSyncRxGrace_of_live hlive]
    exact ⟨_, _, rfl⟩
  · obtain ⟨g, h⟩ := takeSyncRxGrace_of_not_live hlive
    rw [h]
    exact ⟨g, 0, rfl⟩

@[simp] theorem startReplay_rxSlots (s : SecureDatagramSession) (nowMs : Nat) :
    (s.startReplay nowMs).1.rxSlots = evictOldRxSlots s.rxSlots nowMs := by
  obtain ⟨g, t, h⟩ := s.startReplay_frame nowMs
  rw [h]

@[simp] theorem startReplay_rootKey (s : SecureDatagramSession) (nowMs : Nat) :
    (s.startReplay nowMs).1.rootKey = s.rootKey := by
  obtain ⟨g, t, h⟩ := s.startReplay_frame nowMs
  rw [h]

@[simp] theorem startReplay_cipher (H : Hashes) (s : SecureDatagramSession) (nowMs : Nat)
    (epoch : UInt32) (dir : SecureDirection) (isSend : Bool) :
    (s.startReplay nowMs).1.getOrCreateCipher H epoch dir isSend =
      s.getOrCreateCipher H epoch dir isSend := by
  obtain ⟨g, t, h⟩ := s.startReplay_frame nowMs
  rw [h]
  rfl

theorem evict_evict (slot : EpochRxSlot) (nowMs : Nat) :
    (slot.evict nowMs).evict nowMs = slot.evict nowMs := by
  by_cases hover : slot.overdue nowMs = true
  · rw [show slot.evict nowMs = .empty from if_pos hover]
    rfl
  · rw [show slot.evict nowMs = slot from if_neg hover]
    exact if_neg hover

theorem evictOldRxSlots_twice (rx : RxSlots) (nowMs : Nat) :
    evictOldRxSlots (evictOldRxSlots rx nowMs) nowMs = evictOldRxSlots rx nowMs :=
  funext fun dir => congrArg₂ DirSlots.mk (evict_evict (rx dir).slot0 nowMs)
    (evict_evict (rx dir).slot1 nowMs)

/-- The second check at the same time sees what the first one saw. -/
theorem startReplay_again (s : SecureDatagramSession) (nowMs : Nat) :
    (s.startReplay nowMs).1.startReplay nowMs = s.startReplay nowMs := by
  unfold startReplay
  generalize ht : ({ s with rxSlots := evictOldRxSlots s.rxSlots nowMs } : SecureDatagramSession) = t
  have hrx : evictOldRxSlots t.rxSlots nowMs = t.rxSlots := by
    rw [← ht]
    exact evictOldRxSlots_twice s.rxSlots nowMs
  by_cases hlive : t.GraceLive nowMs
  · rw [takeSyncRxGrace_of_live hlive]
    dsimp only
    rw [hrx]
    have hagain : ({ t with syncRxGrace := t.syncRxGrace.evict nowMs } :
      SecureDatagramSession).GraceLive nowMs := hlive
    rw [takeSyncRxGrace_of_live hagain]
    have htwice : (t.syncRxGrace.evict nowMs).evict nowMs = t.syncRxGrace.evict nowMs := by
      unfold SyncRxGrace.evict
      rw [evictOldRxSlots_twice]
    rw [htwice]
  · obtain ⟨g, h⟩ := takeSyncRxGrace_of_not_live hlive
    rw [h]
    dsimp only
    rw [hrx]
    rfl

theorem startReplay_failCount (s : SecureDatagramSession) (nowMs n : Nat) :
    ({ s with decryptFailCount := n } : SecureDatagramSession).startReplay nowMs =
      ({ (s.startReplay nowMs).1 with decryptFailCount := n }, (s.startReplay nowMs).2) := by
  unfold startReplay takeSyncRxGrace syncRxGraceActive
  dsimp only
  split_ifs <;> rfl

theorem precheckReplay_fst (s : SecureDatagramSession) (epoch : UInt32) (seq : UInt64)
    (dir : SecureDirection) (nowMs : Nat) :
    (s.precheckReplay epoch seq dir nowMs).1 = (s.startReplay nowMs).1 := rfl

theorem acceptIn_snd (d : DirSlots) (epoch : UInt32) (seq : UInt64) (nowMs : Nat) :
    (d.acceptIn epoch seq nowMs).2 = d.canAcceptIn epoch seq := by
  unfold DirSlots.acceptIn DirSlots.canAcceptIn
  split_ifs
  · exact EpochRxSlot.receive_snd d.slot0 seq nowMs
  · exact EpochRxSlot.receive_snd d.slot1 seq nowMs

/-- The write that follows a check takes what the check let pass. -/
theorem commitReplay_snd (s : SecureDatagramSession) (n : Nat) (epoch : UInt32) (seq : UInt64)
    (dir : SecureDirection) (nowMs : Nat) :
    (({ (s.startReplay nowMs).1 with decryptFailCount := n } : SecureDatagramSession).commitReplay
      epoch seq dir nowMs).2 = (s.precheckReplay epoch seq dir nowMs).2 := by
  unfold commitReplay precheckReplay
  rw [startReplay_failCount, startReplay_again]
  dsimp only
  cases graceSlots (s.startReplay nowMs).2 dir epoch with
  | some d => exact acceptIn_snd d epoch seq nowMs
  | none => exact DirSlots.commit_snd _ _ epoch seq nowMs

/-- The replay state is read. -/
def Reaches (s : SecureDatagramSession) (payload : Bytes) : Prop :=
  s.isValid = true ∧ aeadTailSize ≤ payload.length

instance (s : SecureDatagramSession) (payload : Bytes) : Decidable (s.Reaches payload) :=
  inferInstanceAs (Decidable (_ ∧ _))

/-- A packet that a session opened. -/
structure Opens (H : Hashes) (s : SecureDatagramSession) (dir : SecureDirection) (nowMs : Nat)
    (hdr : PeerManagerHeader) (payload : Bytes) (opened : PeerManagerHeader × Bytes) : Prop where
  reaches : s.Reaches payload
  passed : (s.precheckReplay (nonceEpoch (PacketEncryptor.tailNonce payload))
    (nonceSeq (PacketEncryptor.tailNonce payload)) dir nowMs).2 = true
  cipher : ∃ cipher, s.getOrCreateCipher H (nonceEpoch (PacketEncryptor.tailNonce payload)) dir
    false = .ok cipher ∧ cipher.decryptPacket hdr payload = .ok opened

/-- A packet that is refused leaves the replay state as the check left it. -/
inductive Refused (s : SecureDatagramSession) (nowMs : Nat) (payload : Bytes) :
    SecureDatagramSession → Prop where
  | early : Refused s nowMs payload s
  | checked (fails : Nat) (invalidated : Bool) : s.Reaches payload → Refused s nowMs payload
      { (s.startReplay nowMs).1 with decryptFailCount := fails, invalidated := invalidated }

theorem Refused.of_checked (hreach : s.Reaches payload) :
    Refused s nowMs payload (s.startReplay nowMs).1 :=
  .checked (s.startReplay nowMs).1.decryptFailCount (s.startReplay nowMs).1.invalidated hreach

/-- A call opens the packet and remembers it, or refuses it. -/
theorem decryptPayload_cases (H : Hashes) (s : SecureDatagramSession) (dir : SecureDirection)
    (nowMs : Nat) (hdr : PeerManagerHeader) (payload : Bytes) :
    (∃ opened, s.Opens H dir nowMs hdr payload opened ∧
        s.decryptPayload H dir nowMs hdr payload =
          ((({ (s.startReplay nowMs).1 with decryptFailCount := 0 } :
            SecureDatagramSession).commitReplay (nonceEpoch (PacketEncryptor.tailNonce payload))
              (nonceSeq (PacketEncryptor.tailNonce payload)) dir nowMs).1, .ok opened)) ∨
      ∃ s' e, s.Refused nowMs payload s' ∧ s.decryptPayload H dir nowMs hdr payload = (s', .error e) := by
  unfold decryptPayload
  by_cases hvalid : s.isValid = false
  · rw [if_pos hvalid]
    exact .inr ⟨s, _, .early, rfl⟩
  rw [if_neg hvalid]
  have hvalid' := Bool.eq_true_of_not_eq_false hvalid
  by_cases hlen : payload.length < aeadTailSize
  · rw [if_pos hlen]
    exact .inr ⟨s, _, .early, rfl⟩
  have hreach : s.Reaches payload := ⟨hvalid', Nat.not_lt.mp hlen⟩
  rw [if_neg hlen]
  dsimp only
  rw [precheckReplay_fst]
  generalize hepoch : nonceEpoch (PacketEncryptor.tailNonce payload) = epoch
  generalize hseq : nonceSeq (PacketEncryptor.tailNonce payload) = seq
  by_cases hpassed : (s.precheckReplay epoch seq dir nowMs).2 = false
  · rw [if_pos hpassed]
    exact .inr ⟨_, _, .of_checked hreach, rfl⟩
  rw [if_neg hpassed, startReplay_cipher]
  cases hcipher : s.getOrCreateCipher H epoch dir false with
  | error e => exact .inr ⟨_, e, .of_checked hreach, rfl⟩
  | ok cipher =>
    dsimp only
    cases hopened : cipher.decryptPacket hdr payload with
    | error e => exact .inr ⟨_, e, .checked _ _ hreach, rfl⟩
    | ok opened =>
      dsimp only
      rw [commitReplay_snd, if_neg hpassed]
      refine .inl ⟨opened, ⟨hreach, ?_, cipher, ?_, hopened⟩, rfl⟩
      · rw [hepoch, hseq]
        exact Bool.eq_true_of_not_eq_false hpassed
      · rw [hepoch]
        exact hcipher

theorem Opens.decryptPayload {opened : PeerManagerHeader × Bytes}
    (h : s.Opens H dir nowMs hdr payload opened) :
    s.decryptPayload H dir nowMs hdr payload =
      ((({ (s.startReplay nowMs).1 with decryptFailCount := 0 } :
        SecureDatagramSession).commitReplay (nonceEpoch (PacketEncryptor.tailNonce payload))
          (nonceSeq (PacketEncryptor.tailNonce payload)) dir nowMs).1, .ok opened) := by
  obtain ⟨⟨hvalid, hlen⟩, hpassed, cipher, hcipher, hopened⟩ := h
  unfold SecureDatagramSession.decryptPayload
  rw [if_neg (by rw [hvalid]; decide), if_neg (Nat.not_lt.mpr hlen)]
  dsimp only
  rw [precheckReplay_fst, hpassed, if_neg (by decide), startReplay_cipher, hcipher]
  dsimp only
  rw [hopened]
  dsimp only
  rw [commitReplay_snd, hpassed, if_neg (by decide)]

theorem encryptPayload_sealed {a : Aead} {ct : Bytes} (hvalid : s.isValid = true)
    (hnonce : s.nextNonce dir nowMs = (s', epoch, seq))
    (hcipher : s'.getOrCreateCipher H epoch dir true = .ok ⟨.aead a⟩)
    (hflag : hdr.isEncrypted = false)
    (hct : a.encrypt (packetNonce epoch seq) payload [] = some ct) :
    s.encryptPayload H dir nowMs hdr payload =
      (s', .ok (hdr.setEncrypted true, ct ++ (packetNonce epoch seq).val)) := by
  unfold encryptPayload
  rw [if_neg (by rw [hvalid]; decide), hnonce]
  dsimp only
  rw [hcipher, bind_ok, (PacketEncryptor.encryptPacket_aead hflag).mpr ⟨ct, hct, rfl, rfl⟩]

/-- A packet that was sealed for an epoch passes the cipher of the epoch. -/
theorem opens_sealed {a : Aead} {ct : Bytes} (hcipher : s.getOrCreateCipher H epoch dir false =
      .ok ⟨.aead a⟩) (hflag : hdr.isEncrypted = false)
    (hct : a.encrypt (packetNonce epoch seq) payload [] = some ct) (hvalid : s.isValid = true)
    (hpassed : (s.precheckReplay epoch seq dir nowMs).2 = true) :
    s.Opens H dir nowMs (hdr.setEncrypted true) (ct ++ (packetNonce epoch seq).val)
      ((hdr.setEncrypted true).setEncrypted false, payload) := by
  have hlen : aeadTailSize ≤ (ct ++ (packetNonce epoch seq).val).length := by
    rw [List.length_append, ByteVec.length_val, Aead.length_encrypt hct]
    unfold aeadTailSize tagSize
    omega
  refine ⟨⟨hvalid, hlen⟩, ?_, ⟨.aead a⟩, ?_, ?_⟩
  · rw [PacketEncryptor.tailNonce_append, nonceEpoch_packetNonce, nonceSeq_packetNonce]
    exact hpassed
  · rw [PacketEncryptor.tailNonce_append, nonceEpoch_packetNonce]
    exact hcipher
  · exact PacketEncryptor.decryptPacket_encrypted hflag
      ((PacketEncryptor.encryptPacket_aead hflag).mpr ⟨ct, hct, rfl, rfl⟩)

theorem commitReplay_frame (s : SecureDatagramSession) (epoch : UInt32) (seq : UInt64)
    (dir : SecureDirection) (nowMs : Nat) :
    ∃ rx g t, (s.commitReplay epoch seq dir nowMs).1 =
      { s with rxSlots := rx, syncRxGrace := g, syncRxGraceExpiresAtMs := t } := by
  obtain ⟨g, t, h⟩ := s.startReplay_frame nowMs
  unfold commitReplay
  dsimp only
  cases graceSlots (s.startReplay nowMs).2 dir epoch with
  | some d =>
    dsimp only
    rw [h]
    exact ⟨_, _, _, rfl⟩
  | none =>
    dsimp only
    rw [h]
    exact ⟨_, _, _, rfl⟩

/-- Opening leaves the sending side alone. -/
theorem decryptPayload_frame (H : Hashes) (s : SecureDatagramSession) (dir : SecureDirection)
    (nowMs : Nat) (hdr : PeerManagerHeader) (payload : Bytes) :
    ∃ rx g t invalidated fails, (s.decryptPayload H dir nowMs hdr payload).1 =
      { s with
        rxSlots := rx
        syncRxGrace := g
        syncRxGraceExpiresAtMs := t
        invalidated := invalidated
        decryptFailCount := fails } := by
  obtain ⟨g, t, hstart⟩ := s.startReplay_frame nowMs
  rcases s.decryptPayload_cases H dir nowMs hdr payload with ⟨opened, -, h⟩ | ⟨s', e, hrefused, h⟩
  · rw [h]
    dsimp only
    obtain ⟨rx', g', t', hcommit⟩ := commitReplay_frame
      { (s.startReplay nowMs).1 with decryptFailCount := 0 }
      (nonceEpoch (PacketEncryptor.tailNonce payload))
      (nonceSeq (PacketEncryptor.tailNonce payload)) dir nowMs
    rw [hcommit, hstart]
    exact ⟨_, _, _, _, _, rfl⟩
  · rw [h]
    cases hrefused with
    | early => exact ⟨_, _, _, _, _, rfl⟩
    | checked fails invalidated _ =>
      dsimp only
      rw [hstart]
      exact ⟨_, _, _, _, _, rfl⟩

end SecureDatagramSession

end RustCrash.EasyTier
