import RustCrash.EasyTier.Datagram
import RustCrash.Lib.Machine

/-
  How often a secure session accepts a packet.

  Beside the session the run keeps the packets that were accepted, and those of them that the
  session remembers. A packet is remembered when the slots it went into are in order, and it is
  forgotten by a change of the root key and by the loss of slot 0.
-/

namespace RustCrash.EasyTier

open Lib Proto

inductive SessionEvent where
  | receive (dir : SecureDirection) (nowMs : Nat) (hdr : PeerManagerHeader) (payload : Bytes)
  | send (dir : SecureDirection) (nowMs : Nat) (hdr : PeerManagerHeader) (payload : Bytes)
  | sync (rootKey : ByteVec 32) (sessionGeneration initialEpoch : UInt32) (preserveRxGrace : Bool)
    (nowMs : Nat)
  | invalidate

structure Watched where
  session : SecureDatagramSession
  accepted : List PacketId
  remembered : List PacketId

namespace Watched

def start (s : SecureDatagramSession) : Watched := ⟨s, [], []⟩

/-- The packet that a payload says it is. -/
def idOf (w : Watched) (dir : SecureDirection) (payload : Bytes) : PacketId :=
  let nonce := PacketEncryptor.tailNonce payload
  ⟨w.session.rootKey, dir, nonceEpoch nonce, nonceSeq nonce⟩

/-- What is remembered once overdue slots are cleared. -/
def kept (w : Watched) (nowMs : Nat) : List PacketId :=
  w.remembered.filter fun id => !(w.session.rxSlots id.dir).slot0.overdue nowMs

/-- The packet goes into slots that are in order. -/
def Enters (s : SecureDatagramSession) (id : PacketId) (nowMs : Nat) : Prop :=
  SecureDatagramSession.graceSlots (s.startReplay nowMs).2 id.dir id.epoch = none ∧
    ((s.startReplay nowMs).1.rxSlots id.dir).Ordered

instance (s : SecureDatagramSession) (id : PacketId) (nowMs : Nat) :
    Decidable (Enters s id nowMs) := inferInstanceAs (Decidable (_ ∧ _))

variable (H : Hashes)

def receive (w : Watched) (dir : SecureDirection) (nowMs : Nat) (hdr : PeerManagerHeader)
    (payload : Bytes) : Watched :=
  let id := w.idOf dir payload
  let remembered := if w.session.Reaches payload then w.kept nowMs else w.remembered
  match w.session.decryptPayload H dir nowMs hdr payload with
  | (s, .ok _) =>
    ⟨s, id :: w.accepted, if Enters w.session id nowMs then id :: remembered else remembered⟩
  | (s, .error _) => ⟨s, w.accepted, remembered⟩

def step (w : Watched) : SessionEvent → Watched
  | .receive dir nowMs hdr payload => w.receive H dir nowMs hdr payload
  | .send dir nowMs hdr payload =>
    { w with session := (w.session.encryptPayload H dir nowMs hdr payload).1 }
  | .sync rootKey sessionGeneration initialEpoch preserveRxGrace nowMs =>
    { w with
      session := w.session.syncRootKey rootKey sessionGeneration initialEpoch preserveRxGrace nowMs
      remembered := [] }
  | .invalidate => { w with session := w.session.invalidate }

/-- No packet that was accepted and forgotten comes again. -/
def NotAgain (w : Watched) : SessionEvent → Prop
  | .receive dir nowMs _ payload =>
    w.idOf dir payload ∈ w.accepted → w.idOf dir payload ∈ w.kept nowMs
  | _ => True

instance (w : Watched) (e : SessionEvent) : Decidable (w.NotAgain e) := by
  cases e <;> unfold NotAgain <;> infer_instance

/-! ## What the session remembers -/

/-- The packets of one direction. -/
def packetsOf (remembered : List PacketId) (rootKey : ByteVec 32) (dir : SecureDirection) :
    Set (UInt32 × UInt64) :=
  {p | ⟨rootKey, dir, p.1, p.2⟩ ∈ remembered}

/-- The session knows the packets it is said to remember. -/
structure Sound (s : SecureDatagramSession) (remembered : List PacketId) : Prop where
  root : ∀ id ∈ remembered, id.rootKey = s.rootKey
  slots : ∀ dir, packetsOf remembered s.rootKey dir = ∅ ∨
    (s.rxSlots dir).Remembers (packetsOf remembered s.rootKey dir)
  grace : s.syncRxGraceExpiresAtMs ≠ 0 → ∀ id ∈ remembered,
    (s.syncRxGrace.slots id.dir).epochInSlots id.epoch = false

theorem Sound.nil (s : SecureDatagramSession) : Sound s [] where
  root _ hid := absurd hid List.not_mem_nil
  slots _ := .inl (Set.eq_empty_of_forall_notMem fun _ hp => List.not_mem_nil hp)
  grace _ _ hid := absurd hid List.not_mem_nil

variable {s : SecureDatagramSession} {remembered : List PacketId} {nowMs : Nat}

variable {epoch : UInt32} {dir : SecureDirection} {w : Watched} {id : PacketId}

/-- An epoch that a copy has after an eviction it had before. -/
theorem epochInSlots_evict {d : DirSlots} (h : d.epochInSlots epoch = false) :
    (d.evict nowMs).epochInSlots epoch = false := by
  unfold DirSlots.epochInSlots DirSlots.evict at *
  rw [Bool.or_eq_false_iff] at h ⊢
  constructor
  · rcases d.slot0.evict_cases nowMs with h0 | h0
    · rw [h0]
      exact h.1
    · rw [h0]
      rfl
  · rcases d.slot1.evict_cases nowMs with h1 | h1
    · rw [h1]
      exact h.2
    · rw [h1]
      rfl

/-- What is left of the copy after a look at it. -/
theorem startReplay_grace (s : SecureDatagramSession) (nowMs : Nat) :
    (s.startReplay nowMs).2 = none ∧ (s.startReplay nowMs).1.syncRxGraceExpiresAtMs = 0 ∨
      (s.startReplay nowMs).2 = some (s.startReplay nowMs).1.syncRxGrace ∧
        s.syncRxGraceExpiresAtMs ≠ 0 ∧ (s.startReplay nowMs).1.syncRxGraceExpiresAtMs ≠ 0 ∧
        (s.startReplay nowMs).1.syncRxGrace.slots = evictOldRxSlots s.syncRxGrace.slots nowMs := by
  unfold SecureDatagramSession.startReplay
  by_cases hlive : ({ s with rxSlots := evictOldRxSlots s.rxSlots nowMs } :
      SecureDatagramSession).GraceLive nowMs
  · rw [SecureDatagramSession.takeSyncRxGrace_of_live hlive]
    have hlt : nowMs < s.syncRxGraceExpiresAtMs := hlive.2.1
    have hne : s.syncRxGraceExpiresAtMs ≠ 0 := by omega
    exact .inr ⟨rfl, hne, hne, rfl⟩
  · obtain ⟨g, h⟩ := SecureDatagramSession.takeSyncRxGrace_of_not_live hlive
    rw [h]
    exact .inl ⟨rfl, rfl⟩

theorem packetsOf_kept (w : Watched) {nowMs : Nat}
    (h : (w.session.rxSlots dir).slot0.overdue nowMs = false) (rootKey : ByteVec 32) :
    packetsOf (w.kept nowMs) rootKey dir = packetsOf w.remembered rootKey dir := by
  ext p
  exact List.mem_filter.trans (and_iff_left (by simp [h]))

theorem packetsOf_overdue (w : Watched) {nowMs : Nat}
    (h : (w.session.rxSlots dir).slot0.overdue nowMs = true) (rootKey : ByteVec 32) :
    packetsOf (w.kept nowMs) rootKey dir = ∅ := by
  refine Set.eq_empty_of_forall_notMem fun p hp => ?_
  have hkept := (List.mem_filter.mp hp).2
  simp [h] at hkept

theorem Sound.kept (h : Sound w.session w.remembered) (nowMs : Nat) :
    Sound w.session (w.kept nowMs) where
  root id hid := h.root id (List.mem_of_mem_filter hid)
  slots dir := by
    cases hover : (w.session.rxSlots dir).slot0.overdue nowMs
    · rw [packetsOf_kept w hover]
      exact h.slots dir
    · exact .inl (packetsOf_overdue w hover _)
  grace hne id hid := h.grace hne id (List.mem_of_mem_filter hid)

/-- Once the overdue slots are cleared the session knows what is kept. -/
theorem Sound.startReplay (h : Sound w.session w.remembered) (nowMs : Nat) :
    Sound (w.session.startReplay nowMs).1 (w.kept nowMs) where
  root id hid := by
    rw [SecureDatagramSession.startReplay_rootKey]
    exact h.root id (List.mem_of_mem_filter hid)
  slots dir := by
    rw [SecureDatagramSession.startReplay_rootKey, SecureDatagramSession.startReplay_rxSlots]
    cases hover : (w.session.rxSlots dir).slot0.overdue nowMs
    · rw [packetsOf_kept w hover]
      exact (h.slots dir).imp id fun hrem => hrem.evict hover
    · exact .inl (packetsOf_overdue w hover _)
  grace hne id hid := by
    rcases startReplay_grace w.session nowMs with ⟨-, hzero⟩ | ⟨-, hexp, -, hslots⟩
    · exact absurd hzero hne
    · rw [hslots]
      exact epochInSlots_evict (h.grace hexp id (List.mem_of_mem_filter hid))

theorem graceSlots_eq_some {grace : Option SyncRxGrace} {d : DirSlots}
    (h : SecureDatagramSession.graceSlots grace dir epoch = some d) :
    ∃ g, grace = some g ∧ g.slots dir = d ∧ d.epochInSlots epoch = true := by
  unfold SecureDatagramSession.graceSlots at h
  obtain ⟨hmap, hepoch⟩ := Option.filter_eq_some_iff.mp h
  obtain ⟨g, hg, hd⟩ := Option.map_eq_some_iff.mp hmap
  exact ⟨g, hg, hd, hepoch⟩

theorem graceSlots_eq_none {g : SyncRxGrace}
    (h : SecureDatagramSession.graceSlots (some g) dir epoch = none) :
    (g.slots dir).epochInSlots epoch = false := by
  unfold SecureDatagramSession.graceSlots at h
  rw [Option.map_some, Option.filter_eq_none_iff] at h
  exact Bool.eq_false_of_not_eq_true (h _ rfl)

/-- A packet that passes the check is not one of those the session knows. -/
theorem Sound.fresh (h : Sound w.session w.remembered) {seq : UInt64}
    (hpassed : (w.session.precheckReplay epoch seq dir nowMs).2 = true) :
    (⟨w.session.rootKey, dir, epoch, seq⟩ : PacketId) ∉ w.kept nowMs := by
  intro hmem
  have hsound := h.startReplay nowMs
  unfold SecureDatagramSession.precheckReplay at hpassed
  dsimp only at hpassed
  cases hgrace : SecureDatagramSession.graceSlots (w.session.startReplay nowMs).2 dir epoch with
  | some d =>
    obtain ⟨g, hg, hd, hepoch⟩ := graceSlots_eq_some hgrace
    rcases startReplay_grace w.session nowMs with ⟨hnone, -⟩ | ⟨hsome, -, hne, -⟩
    · rw [hnone] at hg
      cases hg
    · rw [hsome, Option.some.injEq] at hg
      have hout := hsound.grace hne _ hmem
      dsimp only at hout
      rw [hg, hd, hepoch] at hout
      cases hout
  | none =>
    rw [hgrace] at hpassed
    have hin : (epoch, seq) ∈
        packetsOf (w.kept nowMs) (w.session.startReplay nowMs).1.rootKey dir := by
      rw [SecureDatagramSession.startReplay_rootKey]
      exact hmem
    rcases hsound.slots dir with hempty | hrem
    · rw [hempty] at hin
      exact hin
    · exact hrem.fresh hpassed hin

theorem packetsOf_cons_self (remembered : List PacketId) (id : PacketId) :
    packetsOf (id :: remembered) id.rootKey id.dir =
      insert (id.epoch, id.seq) (packetsOf remembered id.rootKey id.dir) := by
  ext p
  refine List.mem_cons.trans (or_congr_left ?_)
  rw [PacketId.mk.injEq, Prod.ext_iff]
  simp

theorem packetsOf_cons_of_ne (remembered : List PacketId) (hne : dir ≠ id.dir)
    (rootKey : ByteVec 32) :
    packetsOf (id :: remembered) rootKey dir = packetsOf remembered rootKey dir := by
  ext p
  refine List.mem_cons.trans (or_iff_right fun heq => hne ?_)
  rw [← heq]

/-- The session that a packet leaves behind which passed the check. -/
def committed (s : SecureDatagramSession) (id : PacketId) (nowMs : Nat) : SecureDatagramSession :=
  (({ (s.startReplay nowMs).1 with decryptFailCount := 0 } : SecureDatagramSession).commitReplay
    id.epoch id.seq id.dir nowMs).1

theorem committed_copy {d : DirSlots}
    (h : SecureDatagramSession.graceSlots (s.startReplay nowMs).2 id.dir id.epoch = some d) :
    committed s id nowMs = { (s.startReplay nowMs).1 with decryptFailCount := 0 } := by
  unfold committed SecureDatagramSession.commitReplay
  rw [SecureDatagramSession.startReplay_failCount, SecureDatagramSession.startReplay_again]
  dsimp only
  rw [h]

theorem committed_slots
    (h : SecureDatagramSession.graceSlots (s.startReplay nowMs).2 id.dir id.epoch = none) :
    committed s id nowMs =
      { (s.startReplay nowMs).1 with
        decryptFailCount := 0
        rxSlots := Function.update (s.startReplay nowMs).1.rxSlots id.dir
          (((s.startReplay nowMs).1.rxSlots id.dir).commit (s.startReplay nowMs).1.sendEpoch
            id.epoch id.seq nowMs).1 } := by
  unfold committed SecureDatagramSession.commitReplay
  rw [SecureDatagramSession.startReplay_failCount, SecureDatagramSession.startReplay_again]
  dsimp only
  rw [h]

/-- A packet that goes into slots in order is known from then on. -/
theorem Sound.enter (h : Sound w.session w.remembered) (hroot : id.rootKey = w.session.rootKey)
    (henters : Enters w.session id nowMs)
    (hpassed : (w.session.precheckReplay id.epoch id.seq id.dir nowMs).2 = true) :
    Sound (committed w.session id nowMs) (id :: w.kept nowMs) := by
  obtain ⟨hnone, hord⟩ := henters
  have hsound := h.startReplay nowMs
  have hroot' : id.rootKey = (w.session.startReplay nowMs).1.rootKey :=
    hroot.trans (SecureDatagramSession.startReplay_rootKey _ _).symm
  have hgrace := startReplay_grace w.session nowMs
  unfold SecureDatagramSession.precheckReplay at hpassed
  dsimp only at hpassed
  rw [hnone] at hpassed
  rw [committed_slots hnone]
  refine ⟨fun other hother => ?_, fun dir => ?_, fun hne other hother => ?_⟩
  · rcases List.mem_cons.mp hother with rfl | hother
    · exact hroot'
    · exact hsound.root other hother
  · dsimp only
    by_cases hdir : dir = id.dir
    · subst hdir
      right
      rw [Function.update_self, ← hroot', packetsOf_cons_self]
      refine DirSlots.Remembers.commit ?_ hpassed nowMs
      rw [hroot']
      rcases hsound.slots id.dir with hempty | hrem
      · rw [hempty]
        exact .of_ordered hord
      · exact hrem
    · rw [Function.update_of_ne hdir, packetsOf_cons_of_ne _ hdir]
      exact hsound.slots dir
  · rcases List.mem_cons.mp hother with rfl | hother
    · rcases hgrace with ⟨-, hzero⟩ | ⟨hsome, -⟩
      · exact absurd hzero hne
      · rw [hsome] at hnone
        exact graceSlots_eq_none hnone
    · exact hsound.grace hne other hother

/-- What was known stays known, wherever the packet goes. -/
theorem Sound.pass (h : Sound w.session w.remembered) (hout : ¬ Enters w.session id nowMs) :
    Sound (committed w.session id nowMs) (w.kept nowMs) := by
  have hsound := h.startReplay nowMs
  cases hgrace : SecureDatagramSession.graceSlots (w.session.startReplay nowMs).2 id.dir
    id.epoch with
  | some d =>
    rw [committed_copy hgrace]
    exact ⟨hsound.root, hsound.slots, hsound.grace⟩
  | none =>
    rw [committed_slots hgrace]
    refine ⟨hsound.root, fun dir => ?_, hsound.grace⟩
    dsimp only
    by_cases hdir : dir = id.dir
    · subst hdir
      -- Slots that are out of order know nothing.
      exact .inl ((hsound.slots id.dir).resolve_right fun hrem => hout ⟨hgrace, hrem.ordered⟩)
    · rw [Function.update_of_ne hdir]
      exact hsound.slots dir

/-! ## Runs -/

structure Once (w : Watched) : Prop where
  nodup : w.accepted.Nodup
  sound : Sound w.session w.remembered

theorem Once.receive (h : w.Once) (dir : SecureDirection) (nowMs : Nat) (hdr : PeerManagerHeader)
    (payload : Bytes) (hgood : w.NotAgain (.receive dir nowMs hdr payload)) :
    (w.receive H dir nowMs hdr payload).Once := by
  unfold Watched.receive
  rcases SecureDatagramSession.decryptPayload_cases H w.session dir nowMs hdr payload with
    ⟨opened, hopens, heq⟩ | ⟨s', e, hrefused, heq⟩
  · rw [heq]
    dsimp only
    rw [if_pos hopens.reaches]
    refine ⟨List.nodup_cons.mpr ⟨fun hmem => ?_, h.nodup⟩, ?_⟩
    · exact h.sound.fresh hopens.passed (hgood hmem)
    · by_cases henters : Enters w.session (w.idOf dir payload) nowMs
      · rw [if_pos henters]
        exact h.sound.enter rfl henters hopens.passed
      · rw [if_neg henters]
        exact h.sound.pass henters
  · rw [heq]
    refine ⟨h.nodup, ?_⟩
    dsimp only
    cases hrefused with
    | early =>
      split_ifs
      · exact h.sound.kept nowMs
      · exact h.sound
    | checked fails invalidated hreach =>
      rw [if_pos hreach]
      have hsound := h.sound.startReplay nowMs
      exact ⟨hsound.root, hsound.slots, hsound.grace⟩

theorem Sound.encryptPayload (h : Sound s remembered) (dir : SecureDirection) (nowMs : Nat)
    (hdr : PeerManagerHeader) (payload : Bytes) :
    Sound (s.encryptPayload H dir nowMs hdr payload).1 remembered := by
  obtain ⟨epoch, seq, started, packets, heq⟩ := s.encryptPayload_frame H dir nowMs hdr payload
  rw [heq]
  exact ⟨h.root, h.slots, h.grace⟩

theorem Once.step (h : w.Once) (e : SessionEvent) (hgood : w.NotAgain e) : (w.step H e).Once := by
  cases e with
  | receive dir nowMs hdr payload => exact h.receive H dir nowMs hdr payload hgood
  | send dir nowMs hdr payload => exact ⟨h.nodup, h.sound.encryptPayload H dir nowMs hdr payload⟩
  | sync rootKey sessionGeneration initialEpoch preserveRxGrace nowMs =>
    exact ⟨h.nodup, .nil _⟩
  | invalidate => exact ⟨h.nodup, h.sound.root, h.sound.slots, h.sound.grace⟩

theorem Once.start (s : SecureDatagramSession) : (start s).Once := ⟨List.nodup_nil, .nil s⟩

/-- As long as no packet comes again that was accepted and then forgotten, none is accepted
    twice. -/
theorem accepted_at_most_once (rootKey : ByteVec 32) (sessionGeneration initialEpoch : UInt32)
    (sendAlgorithm recvAlgorithm : Str) (startMs : Nat) (events : List SessionEvent)
    (hgood : ∀ p ∈ Machine.steps (step H) (start (.new rootKey sessionGeneration initialEpoch
      sendAlgorithm recvAlgorithm startMs)) events, p.1.NotAgain p.2) :
    ∀ w ∈ Machine.states (step H) (start (.new rootKey sessionGeneration initialEpoch
      sendAlgorithm recvAlgorithm startMs)) events, w.accepted.Nodup := by
  intro w hw
  have honce := Machine.inv_of_good Once NotAgain (fun w e h hgood => h.step H e hgood)
    (Once.start _) hgood w hw
  exact honce.nodup

/-- A packet that comes again after a second is refused. -/
theorem accepted_at_most_once_twice :
    let H : Hashes := ⟨fun _ => .zero 16, fun _ => .zero 32, fun _ _ => .zero 20,
      fun _ _ => .zero 32, fun _ _ => .zero 32, fun _ => 0⟩
    let hdr : PeerManagerHeader := ⟨1, 2, PacketType.data, 0, 0, 0, 28⟩
    let packet := List.replicate 28 (0 : UInt8)
    let events : List SessionEvent := [.receive .aToB 1000 hdr packet,
      .receive .aToB 2000 hdr packet, .sync (.zero 32) 2 1 false 3000]
    ∀ w ∈ Machine.states (step H) (start (.new (.zero 32) 1 0 "aes-gcm".toList "aes-gcm".toList 0))
      events, w.accepted.Nodup := by
  intro H hdr packet events
  exact accepted_at_most_once H (.zero 32) 1 0 "aes-gcm".toList "aes-gcm".toList 0 events
    (by decide +kernel)

theorem accepted_opens {hdr : PeerManagerHeader} {payload : Bytes}
    {opened : PeerManagerHeader × Bytes} (h : w.session.Opens H dir nowMs hdr payload opened) :
    (w.receive H dir nowMs hdr payload).session =
        committed w.session (w.idOf dir payload) nowMs ∧
      (w.receive H dir nowMs hdr payload).accepted = w.idOf dir payload :: w.accepted := by
  unfold receive
  rw [h.decryptPayload]
  exact ⟨rfl, rfl⟩

/-- A slot that had no packet for more than 30 seconds is cleared, and the packet that it
    remembered is accepted again. -/
theorem accepted_twice_after_idle :
    ∃ (H : Hashes) (sealed : PeerManagerHeader × Bytes),
      let s := SecureDatagramSession.new (.zero 32) 1 0 "aes-gcm".toList "aes-gcm".toList 0
      (s.encryptPayload H .aToB 500 ⟨1, 2, PacketType.data, 0, 0, 0, 1⟩ [7]).2 = .ok sealed ∧
        ¬ ([SessionEvent.receive .aToB 1000 sealed.1 sealed.2,
          .receive .aToB 31001 sealed.1 sealed.2].foldl (step H) (start s)).accepted.Nodup := by
  let H : Hashes := ⟨fun _ => .zero 16, fun _ => .zero 32, fun _ _ => .zero 20,
    fun _ _ => .zero 32, fun _ _ => .zero 32, fun _ => 0⟩
  let s := SecureDatagramSession.new (.zero 32) 1 0 "aes-gcm".toList "aes-gcm".toList 0
  let hdr : PeerManagerHeader := ⟨1, 2, PacketType.data, 0, 0, 0, 1⟩
  let a : Aead := ⟨.aes128Gcm, (key128 (.zero 32)).val, (key128 (.zero 32)).property⟩
  obtain ⟨ct, hct⟩ := a.sealed_short (packetNonce 0 0) (by decide : ([7] : Bytes).length < _)
    (by decide : ([] : Bytes).length < _)
  have hct := okOr_eq_ok.mp hct
  let sealed := (hdr.setEncrypted true, ct ++ (packetNonce 0 0).val)
  let opened := ((hdr.setEncrypted true).setEncrypted false, ([7] : Bytes))
  let id : PacketId := ⟨.zero 32, .aToB, 0, 0⟩
  have hid : ∀ w : Watched, w.session.rootKey = .zero 32 → w.idOf .aToB sealed.2 = id := by
    intro w hw
    unfold idOf
    rw [PacketEncryptor.tailNonce_append]
    dsimp only
    rw [nonceEpoch_packetNonce, nonceSeq_packetNonce, hw]
  have hflag : hdr.isEncrypted = false := by decide
  have hfirst : (start s).session.Opens H .aToB 1000 sealed.1 sealed.2 opened :=
    SecureDatagramSession.opens_sealed rfl hflag hct rfl (by decide +kernel)
  obtain ⟨hsession, haccepted⟩ := accepted_opens H hfirst
  rw [hid (start s) rfl] at hsession haccepted
  have hsecond : ((start s).receive H .aToB 1000 sealed.1 sealed.2).session.Opens H .aToB 31001
      sealed.1 sealed.2 opened := by
    rw [hsession]
    exact SecureDatagramSession.opens_sealed rfl hflag hct rfl (by decide +kernel)
  have hagain := (accepted_opens H hsecond).2
  rw [haccepted, hid _ (by rw [hsession]; rfl)] at hagain
  refine ⟨H, sealed, ?_, fun hnodup => ?_⟩
  · have hnonce : s.nextNonce .aToB 500 = ((s.nextNonce .aToB 500).1, 0, 0) := by
      unfold SecureDatagramSession.nextNonce SecureDatagramSession.maybeRotateEpoch
      rw [if_pos (by decide)]
      rfl
    have hcipher : (s.nextNonce .aToB 500).1.getOrCreateCipher H 0 .aToB true = .ok ⟨.aead a⟩ := by
      unfold SecureDatagramSession.nextNonce SecureDatagramSession.maybeRotateEpoch
      rw [if_pos (by decide)]
      rfl
    exact congrArg Prod.snd
      (SecureDatagramSession.encryptPayload_sealed rfl hnonce hcipher hflag hct)
  · change (((start s).receive H .aToB 1000 sealed.1 sealed.2).receive H .aToB 31001
      sealed.1 sealed.2).accepted.Nodup at hnodup
    rw [hagain] at hnodup
    exact (List.nodup_cons.mp hnodup).1 List.mem_cons_self

end Watched

end RustCrash.EasyTier
