import RustCrash.EasyTier.SessionStore
import RustCrash.Lib.Machine

/-
  The nonces that two nodes seal with, over all their handshakes.

  The responder has its table and the initiator another one, which a restart empties. Each verdict
  of the responder is on its way until the initiator applies it. The run also keeps
  what was sealed with.

  A session counts its packets and never counts back, so a session alone never repeats a nonce.
  A change of the root key to one that was used before starts the count again. It is safe when the
  epochs from there on are above all those that were used with the key (`Spent.sync`).
-/

namespace RustCrash.EasyTier

open Lib Proto

inductive Side where
  | responder
  | initiator
  deriving DecidableEq

/-- The two nodes and the network they are in. -/
structure Pair where
  network : Str
  responderId : PeerId
  initiatorId : PeerId

namespace Pair

def id (p : Pair) : Side → PeerId
  | .responder => p.responderId
  | .initiator => p.initiatorId

def other : Side → Side
  | .responder => .initiator
  | .initiator => .responder

/-- Where a node keeps the session of the other one. -/
def key (p : Pair) (side : Side) : SessionKey := (p.network, p.id (other side))

/-- The direction in which a node sends. -/
def outbound (p : Pair) (side : Side) : SecureDirection :=
  dirForSender (p.id side) (p.id (other side))

end Pair

structure Nodes where
  store : Side → SecureSessionMap
  /-- The verdicts that the initiator has not applied. -/
  verdicts : List UpsertResponderSessionReturn
  /-- What the packets were sealed with. -/
  used : List PacketId

inductive NodeEvent where
  /-- A first message comes to the responder. -/
  | respond (aSessionGeneration : Option UInt32) (sendAlgorithm recvAlgorithm : Str)
    (peerStaticPubkey : Option (ByteVec 32)) (newRootKey : ByteVec 32) (nowMs : Nat)
  /-- The initiator applies a verdict. -/
  | apply (index : Nat) (sendAlgorithm recvAlgorithm : Str)
    (peerStaticPubkey : Option (ByteVec 32)) (nowMs : Nat)
  /-- The initiator starts again. -/
  | restart
  | encrypt (side : Side) (nowMs : Nat) (hdr : PeerManagerHeader) (payload : Bytes)
  | decrypt (side : Side) (nowMs : Nat) (hdr : PeerManagerHeader) (payload : Bytes)
  | invalidate (side : Side)

namespace Nodes

def start : Nodes := ⟨fun _ => .empty, [], []⟩

variable (H : Hashes) (p : Pair)

/-- The session that a node has for the other one. -/
def session (n : Nodes) (side : Side) : Option PeerSecureSession := n.store side (p.key side)

def setSession (n : Nodes) (side : Side) (s : PeerSecureSession) : Nodes :=
  { n with
    store := Function.update n.store side (Function.update (n.store side) (p.key side) (some s)) }

/-- What the next packet of a session is sealed with. -/
def nextId (s : PeerSecureSession) (side : Side) (nowMs : Nat) : PacketId :=
  let (_, epoch, seq) := s.datagram.nextNonce (p.outbound side) nowMs
  ⟨s.rootKey, p.outbound side, epoch, seq⟩

def step (n : Nodes) : NodeEvent → Nodes
  | .respond aSessionGeneration sendAlgorithm recvAlgorithm peerStaticPubkey newRootKey nowMs =>
    let (m, r) := (n.store .responder).upsertResponderSession (p.key .responder)
      aSessionGeneration sendAlgorithm recvAlgorithm peerStaticPubkey newRootKey nowMs
    { n with
      store := Function.update n.store .responder m
      verdicts := n.verdicts ++ r.toOption.toList }
  | .apply index sendAlgorithm recvAlgorithm peerStaticPubkey nowMs =>
    match n.verdicts[index]? with
    | none => n
    | some v =>
      let (m, _) := (n.store .initiator).applyInitiatorAction (p.key .initiator) v.action
        v.sessionGeneration v.rootKey v.initialEpoch sendAlgorithm recvAlgorithm peerStaticPubkey
        nowMs
      { n with
        store := Function.update n.store .initiator m
        verdicts := n.verdicts.eraseIdx index }
  | .restart => { n with store := Function.update n.store .initiator .empty }
  | .encrypt side nowMs hdr payload =>
    match n.session p side with
    | none => n
    | some s =>
      let n' := n.setSession p side
        (s.encryptPayload H (p.id side) (p.id (Pair.other side)) nowMs hdr payload).1
      if s.isValid then { n' with used := nextId p s side nowMs :: n.used } else n'
  | .decrypt side nowMs hdr payload =>
    match n.session p side with
    | none => n
    | some s => n.setSession p side
        (s.decryptPayload H (p.id (Pair.other side)) (p.id side) nowMs hdr payload).1
  | .invalidate side =>
    match n.session p side with
    | none => n
    | some s => n.setSession p side s.invalidate

/-- The root key of a new session was never sealed with. -/
def DrawsFresh (n : Nodes) : NodeEvent → Prop
  | .respond _ _ _ _ newRootKey _ => ∀ id ∈ n.used, id.rootKey ≠ newRootKey
  | _ => True

/-- Neither counter of a session starts again at zero. -/
def NoWrap (s : SecureDatagramSession) (dir : SecureDirection) (nowMs : Nat) : Prop :=
  s.sendEpoch ≤ (s.maybeRotateEpoch nowMs).sendEpoch ∧ s.sendSeq dir < s.sendSeq dir + 1

/-- A root key that the initiator installs goes on above every epoch that the initiator used with
    it, and no counter wraps. -/
def GoesOn (n : Nodes) : NodeEvent → Prop
  | .apply index _ _ _ _ => ∀ v ∈ n.verdicts[index]?, ∀ rootKey ∈ v.rootKey, ∀ id ∈ n.used,
      id.rootKey = rootKey → id.dir = p.outbound .initiator → id.epoch < v.initialEpoch
  | .encrypt side nowMs _ _ => ∀ s ∈ n.session p side, NoWrap s.datagram (p.outbound side) nowMs
  | _ => True

instance (n : Nodes) (e : NodeEvent) : Decidable (n.DrawsFresh e) := by
  cases e <;> unfold DrawsFresh <;> infer_instance

instance (s : SecureDatagramSession) (dir : SecureDirection) (nowMs : Nat) :
    Decidable (NoWrap s dir nowMs) := inferInstanceAs (Decidable (_ ∧ _))

instance (n : Nodes) (e : NodeEvent) : Decidable (n.GoesOn p e) := by
  cases e <;> unfold GoesOn <;> infer_instance

/-! ## What a session is past -/

/-- The session will not seal again with anything it has sealed with. -/
def Spent (s : SecureDatagramSession) (dir : SecureDirection) (used : List PacketId) : Prop :=
  ∀ id ∈ used, id.rootKey = s.rootKey → id.dir = dir →
    id.epoch < s.sendEpoch ∨ id.seq < s.sendSeq dir

variable {s s' : SecureDatagramSession} {dir : SecureDirection} {used : List PacketId} {nowMs : Nat}

theorem Spent.of_same (h : Spent s dir used) (hroot : s'.rootKey = s.rootKey)
    (hepoch : s'.sendEpoch = s.sendEpoch) (hseq : s'.sendSeq = s.sendSeq) : Spent s' dir used := by
  unfold Spent
  rw [hroot, hepoch, hseq]
  exact h

/-- Packets in the other direction do not matter. -/
theorem Spent.cons_other (h : Spent s dir used) {id : PacketId} (hdir : id.dir ≠ dir) :
    Spent s dir (id :: used) := by
  intro other hother hroot hdir'
  rcases List.mem_cons.mp hother with rfl | hother
  · exact absurd hdir' hdir
  · exact h other hother hroot hdir'

/-- A root key from a higher epoch on. -/
theorem Spent.above (h : ∀ id ∈ used, id.rootKey = s.rootKey → id.dir = dir →
    id.epoch < s.sendEpoch) : Spent s dir used :=
  fun id hid hroot hdir => .inl (h id hid hroot hdir)

/-- The next packet is none of those before, and the session is past it then. -/
theorem Spent.encryptPayload (h : Spent s dir used) (hwrap : NoWrap s dir nowMs)
    (hvalid : s.isValid = true) (hdr : PeerManagerHeader) (payload : Bytes) :
    (⟨s.rootKey, dir, (s.nextNonce dir nowMs).2.1, (s.nextNonce dir nowMs).2.2⟩ : PacketId) ∉ used ∧
      Spent (s.encryptPayload H dir nowMs hdr payload).1 dir
        (⟨s.rootKey, dir, (s.nextNonce dir nowMs).2.1, (s.nextNonce dir nowMs).2.2⟩ :: used) := by
  obtain ⟨hepoch, hseq⟩ := hwrap
  obtain ⟨epoch, started, packets, hrotate⟩ := s.maybeRotateEpoch_frame nowMs
  unfold SecureDatagramSession.encryptPayload SecureDatagramSession.nextNonce
  rw [if_neg (by rw [hvalid]; decide)]
  dsimp only
  rw [hrotate] at hepoch ⊢
  dsimp only at hepoch ⊢
  constructor
  · intro hmem
    rcases h _ hmem rfl rfl with hlt | hlt
    · exact absurd hepoch (UInt32.not_le.mpr hlt)
    · exact absurd hlt (UInt64.lt_irrefl _)
  · intro id hid hroot hdir
    dsimp only
    rw [Function.update_self]
    rcases List.mem_cons.mp hid with rfl | hid
    · exact .inr hseq
    · rcases h id hid hroot hdir with hlt | hlt
      · exact .inl (UInt32.lt_of_lt_of_le hlt hepoch)
      · exact .inr (UInt64.lt_trans hlt hseq)

/-! ## Runs -/

/-- Nothing was used twice, and every session is past what was used. -/
structure Fresh (n : Nodes) : Prop where
  nodup : n.used.Nodup
  spent : ∀ side s, n.session p side = some s → Spent s.datagram (p.outbound side) n.used

variable {p} {n : Nodes}

theorem session_setSession (side side' : Side) (s : PeerSecureSession) :
    (n.setSession p side s).session p side' =
      if side' = side then some s else n.session p side' := by
  unfold session setSession
  dsimp only
  by_cases hside : side' = side
  · subst hside
    rw [if_pos rfl, Function.update_self, Function.update_self]
  · rw [if_neg hside, Function.update_of_ne hside]

/-- A session in place of one with the same root key and counters. -/
theorem Fresh.setSession (h : n.Fresh p) {side : Side} {s s' : PeerSecureSession}
    (hs : n.session p side = some s) (hroot : s'.datagram.rootKey = s.datagram.rootKey)
    (hepoch : s'.datagram.sendEpoch = s.datagram.sendEpoch)
    (hseq : s'.datagram.sendSeq = s.datagram.sendSeq) : (n.setSession p side s').Fresh p where
  nodup := h.nodup
  spent side' t ht := by
    rw [session_setSession] at ht
    by_cases hside : side' = side
    · rw [if_pos hside] at ht
      cases ht
      subst hside
      exact (h.spent side' s hs).of_same hroot hepoch hseq
    · rw [if_neg hside] at ht
      exact h.spent side' t ht

/-- A table in place of another one, whose session is past what was used. -/
theorem Fresh.store (h : n.Fresh p) (side : Side) {m : SecureSessionMap}
    (verdicts : List UpsertResponderSessionReturn)
    (hm : ∀ s, m (p.key side) = some s → Spent s.datagram (p.outbound side) n.used) :
    ({ n with store := Function.update n.store side m, verdicts := verdicts } : Nodes).Fresh p where
  nodup := h.nodup
  spent side' t ht := by
    unfold session at ht
    dsimp only at ht
    by_cases hside : side' = side
    · subst hside
      rw [Function.update_self] at ht
      exact hm t ht
    · rw [Function.update_of_ne hside] at ht
      exact h.spent side' t ht

theorem Fresh.encrypt (h : n.Fresh p) (hids : p.responderId ≠ p.initiatorId) {side : Side}
    {s : PeerSecureSession} (hs : n.session p side = some s) (hvalid : s.isValid = true)
    (hwrap : NoWrap s.datagram (p.outbound side) nowMs) (hdr : PeerManagerHeader)
    (payload : Bytes) :
    ({ n.setSession p side (s.encryptPayload H (p.id side) (p.id (Pair.other side)) nowMs hdr
        payload).1 with used := nextId p s side nowMs :: n.used } : Nodes).Fresh p := by
  obtain ⟨hnew, hspent⟩ := (h.spent side s hs).encryptPayload H hwrap hvalid hdr payload
  have hdirs : ∀ side', side' ≠ side → (nextId p s side nowMs).dir ≠ p.outbound side' := by
    intro side' hside
    have hother : side' = Pair.other side := by
      cases side <;> cases side' <;> first | rfl | exact absurd rfl hside
    subst hother
    cases side
    · exact dirForSender_ne hids
    · exact dirForSender_ne hids.symm
  refine ⟨List.nodup_cons.mpr ⟨hnew, h.nodup⟩, fun side' t ht => ?_⟩
  have ht' : (n.setSession p side (s.encryptPayload H (p.id side) (p.id (Pair.other side)) nowMs hdr
    payload).1).session p side' = some t := ht
  rw [session_setSession] at ht'
  by_cases hside : side' = side
  · rw [if_pos hside] at ht'
    cases ht'
    subst hside
    unfold PeerSecureSession.encryptPayload
    rw [if_neg (by rw [hvalid]; decide)]
    exact hspent
  · rw [if_neg hside] at ht'
    exact (h.spent side' t ht').cons_other (hdirs side' hside)

theorem Fresh.step (h : n.Fresh p) (hids : p.responderId ≠ p.initiatorId) (e : NodeEvent)
    (hdraw : n.DrawsFresh e) (hon : n.GoesOn p e) : (n.step H p e).Fresh p := by
  cases e with
  | respond aGen send recv pubkey newRootKey now =>
    refine h.store .responder _ fun s' hs' => ?_
    rcases SecureSessionMap.upsertResponderSession_session hs' with hnew | ⟨s, hs, hsame⟩
    · exact .above fun id hid hroot _ => absurd (hroot.trans hnew) (hdraw id hid)
    · rw [hsame]
      exact h.spent .responder s hs
  | apply index send recv pubkey now =>
    unfold Nodes.step
    dsimp only
    cases hv : n.verdicts[index]? with
    | none => exact h
    | some v =>
      refine h.store .initiator _ fun s' hs' => ?_
      rcases SecureSessionMap.applyInitiatorAction_session hs' with ⟨s, hs, hsame⟩ | ⟨hkey, hepoch⟩
      · rw [hsame]
        exact h.spent .initiator s hs
      · refine .above fun id hid hroot hdir => ?_
        rw [hepoch]
        exact hon v hv _ hkey id hid hroot hdir
  | restart => exact h.store .initiator n.verdicts fun s hs => absurd hs.symm (Option.some_ne_none s)
  | encrypt side now hdr payload =>
    unfold Nodes.step
    dsimp only
    cases hs : n.session p side with
    | none => exact h
    | some s =>
      dsimp only
      by_cases hvalid : s.isValid = true
      · rw [if_pos hvalid]
        exact h.encrypt H hids hs hvalid (hon s hs) hdr payload
      · rw [if_neg hvalid]
        unfold PeerSecureSession.encryptPayload
        rw [if_pos (Bool.eq_false_of_not_eq_true hvalid)]
        exact h.setSession hs rfl rfl rfl
  | decrypt side now hdr payload =>
    unfold Nodes.step
    dsimp only
    cases hs : n.session p side with
    | none => exact h
    | some s =>
      dsimp only
      unfold PeerSecureSession.decryptPayload
      split_ifs
      · exact h.setSession hs rfl rfl rfl
      · obtain ⟨_, _, _, _, _, hframe⟩ := s.datagram.decryptPayload_frame H
          (dirForSender (p.id (Pair.other side)) (p.id side)) now hdr payload
        refine h.setSession hs ?_ ?_ ?_
        all_goals
          dsimp only
          rw [hframe]
  | invalidate side =>
    unfold Nodes.step
    dsimp only
    cases hs : n.session p side with
    | none => exact h
    | some s => exact h.setSession hs rfl rfl rfl

theorem fresh_start : start.Fresh p where
  nodup := List.nodup_nil
  spent _ s hs := absurd hs.symm (Option.some_ne_none s)

variable (p) in
/-- Two nodes with different ids never seal twice with the same key and nonce, as long as every root
    key that is installed goes on above the epochs it was used in. -/
theorem used_nodup (hids : p.responderId ≠ p.initiatorId) (events : List NodeEvent)
    (hdraw : ∀ x ∈ Machine.steps (step H p) start events, x.1.DrawsFresh x.2)
    (hon : ∀ x ∈ Machine.steps (step H p) start events, x.1.GoesOn p x.2) :
    ∀ n ∈ Machine.states (step H p) start events, n.used.Nodup := by
  intro n hn
  have hfresh := Machine.inv_of_good (Fresh p) (fun n e => n.DrawsFresh e ∧ n.GoesOn p e)
    (fun n e h hgood => h.step H hids e hgood.1 hgood.2) fresh_start
    (fun x hx => ⟨hdraw x hx, hon x hx⟩) n hn
  exact hfresh.nodup

/-- A session, a restart of the initiator after its packet came through, and the session again. -/
theorem used_nodup_restart :
    let H : Hashes := ⟨fun _ => .zero 16, fun _ => .zero 32, fun _ _ => .zero 20,
      fun _ _ => .zero 32, fun _ _ => .zero 32, fun _ => 0⟩
    let p : Pair := ⟨[], 1, 2⟩
    let aes := "aes-gcm".toList
    let other : ByteVec 32 := ⟨List.replicate 32 1, rfl⟩
    let hdr : PeerManagerHeader := ⟨2, 1, PacketType.data, 0, 0, 0, 1⟩
    let events : List NodeEvent := [.respond none aes aes none (.zero 32) 1000,
      .apply 0 aes aes none 1001, .encrypt .initiator 1002 hdr [7],
      .decrypt .responder 1003 hdr (List.replicate 28 0), .restart,
      .respond none aes aes none other 2000, .apply 0 aes aes none 2001,
      .encrypt .initiator 2002 hdr [8], .encrypt .responder 2003 hdr [9]]
    ∀ n ∈ Machine.states (step H p) start events, n.used.Nodup := by
  intro H p aes other hdr events
  exact used_nodup H p (by decide) events (by decide +kernel) (by decide +kernel)

/-- The initiator restarts twice, and the responder receives no packet in between. Both times the
    root key goes on at epoch 1. -/
theorem used_twice_after_loss :
    let H : Hashes := ⟨fun _ => .zero 16, fun _ => .zero 32, fun _ _ => .zero 20,
      fun _ _ => .zero 32, fun _ _ => .zero 32, fun _ => 0⟩
    let p : Pair := ⟨[], 1, 2⟩
    let aes := "aes-gcm".toList
    let other : ByteVec 32 := ⟨List.replicate 32 1, rfl⟩
    let hdr : PeerManagerHeader := ⟨2, 1, PacketType.data, 0, 0, 0, 1⟩
    let events : List NodeEvent := [.respond none aes aes none (.zero 32) 1000,
      .apply 0 aes aes none 1001, .restart,
      .respond none aes aes none other 2000, .apply 0 aes aes none 2001,
      .encrypt .initiator 2002 hdr [7], .restart,
      .respond none aes aes none other 3000, .apply 0 aes aes none 3001,
      .encrypt .initiator 3002 hdr [8]]
    (∀ x ∈ Machine.steps (step H p) start events, x.1.DrawsFresh x.2) ∧
      ¬ (events.foldl (step H p) start).used.Nodup := by
  decide +kernel

end Nodes

end RustCrash.EasyTier
