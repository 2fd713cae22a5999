import RustCrash.EasyTier.Datagram

/-
  `proto/easytier.rs`: the session of one peer, and the table of sessions of a node
  (`PeerSessionStore`).

  A node that is dialed decides what becomes of the session (`upsertResponderSession`): it makes one
  with a fresh root key, joins the one it has, or sends the root key it has with the epoch to go on
  at. The node that dials follows (`applyInitiatorAction`). The root key that a session is made
  with is an argument, since it is drawn at random.

  A session that the table drops is invalid and stays as it is, so the table is all there is.
-/

namespace RustCrash.EasyTier

open Lib Proto

/-- Who sends is told by the order of the two ids. -/
def dirForSender (senderPeerId receiverPeerId : PeerId) : SecureDirection :=
  if senderPeerId < receiverPeerId then .aToB else .bToA

theorem dirForSender_ne {a b : PeerId} (h : a ≠ b) : dirForSender a b ≠ dirForSender b a := by
  unfold dirForSender
  rcases UInt32.lt_or_lt_of_ne h with hlt | hlt
  · rw [if_pos hlt, if_neg (UInt32.lt_asymm hlt)]
    exact fun heq => SecureDirection.noConfusion heq
  · rw [if_neg (UInt32.lt_asymm hlt), if_pos hlt]
    exact fun heq => SecureDirection.noConfusion heq

/-! ## The session of a peer -/

structure PeerSecureSession where
  peerStaticPubkey : Option (ByteVec 32)
  datagram : SecureDatagramSession

namespace PeerSecureSession

def new (rootKey : ByteVec 32) (sessionGeneration initialEpoch : UInt32)
    (sendCipherAlgorithm recvCipherAlgorithm : Str) (peerStaticPubkey : Option (ByteVec 32))
    (nowMs : Nat) : PeerSecureSession :=
  ⟨peerStaticPubkey, .new rootKey sessionGeneration initialEpoch sendCipherAlgorithm
    recvCipherAlgorithm nowMs⟩

def isValid (s : PeerSecureSession) : Bool := s.datagram.isValid

def invalidate (s : PeerSecureSession) : PeerSecureSession :=
  { s with datagram := s.datagram.invalidate }

def sessionGeneration (s : PeerSecureSession) : UInt32 := s.datagram.sessionGeneration

def rootKey (s : PeerSecureSession) : ByteVec 32 := s.datagram.rootKey

/-- The first key that is seen stays. -/
def checkOrSetPeerStaticPubkey (s : PeerSecureSession) (pubkey : Option (ByteVec 32)) :
    Result PeerSecureSession :=
  match pubkey, s.peerStaticPubkey with
  | none, _ => .ok s
  | some pubkey, some existing =>
    if existing ≠ pubkey then .error (.protocol "easytier: peer static pubkey mismatch") else .ok s
  | some pubkey, none => .ok { s with peerStaticPubkey := some pubkey }

def syncRootKey (s : PeerSecureSession) (rootKey : ByteVec 32)
    (sessionGeneration initialEpoch : UInt32) (preserveRxGrace : Bool) (nowMs : Nat) :
    PeerSecureSession :=
  { s with
    datagram := s.datagram.syncRootKey rootKey sessionGeneration initialEpoch preserveRxGrace nowMs }

def encryptPayload (H : Hashes) (s : PeerSecureSession) (senderPeerId receiverPeerId : PeerId)
    (nowMs : Nat) (hdr : PeerManagerHeader) (payload : Bytes) :
    PeerSecureSession × Result (PeerManagerHeader × Bytes) :=
  if s.isValid = false then (s, .error (.crypto "easytier: session invalidated"))
  else
    let (datagram, r) :=
      s.datagram.encryptPayload H (dirForSender senderPeerId receiverPeerId) nowMs hdr payload
    ({ s with datagram := datagram }, r)

def decryptPayload (H : Hashes) (s : PeerSecureSession) (senderPeerId receiverPeerId : PeerId)
    (nowMs : Nat) (hdr : PeerManagerHeader) (payload : Bytes) :
    PeerSecureSession × Result (PeerManagerHeader × Bytes) :=
  if s.isValid = false then (s, .error (.crypto "easytier: session invalidated"))
  else
    let (datagram, r) :=
      s.datagram.decryptPayload H (dirForSender senderPeerId receiverPeerId) nowMs hdr payload
    ({ s with datagram := datagram }, r)

theorem checkOrSet_datagram {s s' : PeerSecureSession} {pubkey : Option (ByteVec 32)}
    (h : s.checkOrSetPeerStaticPubkey pubkey = .ok s') : s'.datagram = s.datagram := by
  unfold checkOrSetPeerStaticPubkey at h
  cases pubkey with
  | none =>
    cases h
    rfl
  | some pubkey =>
    cases hs : s.peerStaticPubkey with
    | none =>
      rw [hs] at h
      cases h
      rfl
    | some existing =>
      rw [hs] at h
      dsimp only at h
      split_ifs at h
      cases h
      rfl

/-- A key that is pinned stays. -/
theorem checkOrSet_pinned {s s' : PeerSecureSession} {pubkey : Option (ByteVec 32)}
    (h : s.checkOrSetPeerStaticPubkey pubkey = .ok s') (hpin : s.peerStaticPubkey ≠ none) :
    s'.peerStaticPubkey = s.peerStaticPubkey := by
  obtain ⟨existing, hs⟩ := Option.ne_none_iff_exists'.mp hpin
  unfold checkOrSetPeerStaticPubkey at h
  rw [hs] at h
  cases pubkey with
  | none =>
    cases h
    rfl
  | some pubkey =>
    dsimp only at h
    split_ifs at h
    cases h
    rfl

end PeerSecureSession

/-! ## The table -/

inductive PeerConnSessionAction where
  | join
  | sync
  | create
  deriving DecidableEq

abbrev SessionKey := Str × PeerId

abbrev SecureSessionMap := SessionKey → Option PeerSecureSession

/-- `UpsertResponderSessionReturn`, without the session, which the table has. -/
structure UpsertResponderSessionReturn where
  action : PeerConnSessionAction
  sessionGeneration : UInt32
  rootKey : Option (ByteVec 32)
  initialEpoch : UInt32
  deriving DecidableEq

namespace SecureSessionMap

def empty : SecureSessionMap := fun _ => none

def get (m : SecureSessionMap) (key : SessionKey) : SecureSessionMap × Option PeerSecureSession :=
  match m key with
  | none => (m, none)
  | some s => if s.isValid then (m, some s) else (Function.update m key none, none)

def upsertResponderSession (m : SecureSessionMap) (key : SessionKey)
    (aSessionGeneration : Option UInt32) (sendAlgorithm recvAlgorithm : Str)
    (peerStaticPubkey : Option (ByteVec 32)) (newRootKey : ByteVec 32) (nowMs : Nat) :
    SecureSessionMap × Result UpsertResponderSessionReturn :=
  let (m, existing) := m.get key
  match existing with
  | none =>
    let session := PeerSecureSession.new newRootKey 1 0 sendAlgorithm recvAlgorithm
      peerStaticPubkey nowMs
    (Function.update m key (some session), .ok ⟨.create, 1, some newRootKey, 0⟩)
  | some session =>
    match session.datagram.checkEncryptAlgoSame sendAlgorithm recvAlgorithm with
    | .error e => (m, .error e)
    | .ok () =>
      match session.checkOrSetPeerStaticPubkey peerStaticPubkey with
      | .error e => (m, .error e)
      | .ok session =>
        let m := Function.update m key (some session)
        let localGen := session.sessionGeneration
        if aSessionGeneration = some localGen then (m, .ok ⟨.join, localGen, none, 0⟩)
        else
          (m, .ok ⟨.sync, localGen, some session.rootKey, session.datagram.nextSyncEpoch⟩)

/-- The two checks that a session goes through before it is used. -/
def checked (session : PeerSecureSession) (sendAlgorithm recvAlgorithm : Str)
    (peerStaticPubkey : Option (ByteVec 32)) : Result PeerSecureSession := do
  session.datagram.checkEncryptAlgoSame sendAlgorithm recvAlgorithm
  session.checkOrSetPeerStaticPubkey peerStaticPubkey

def applyInitiatorAction (m : SecureSessionMap) (key : SessionKey) (action : PeerConnSessionAction)
    (bSessionGeneration : UInt32) (rootKey32 : Option (ByteVec 32)) (initialEpoch : UInt32)
    (sendAlgorithm recvAlgorithm : Str) (peerStaticPubkey : Option (ByteVec 32)) (nowMs : Nat) :
    SecureSessionMap × Result Unit :=
  if action = .join then
    let (m, existing) := m.get key
    match existing with
    | none => (m, .error (.protocol "easytier: no local session for JOIN"))
    | some session =>
      match checked session sendAlgorithm recvAlgorithm peerStaticPubkey with
      | .error e => (m, .error e)
      | .ok session =>
        let m := Function.update m key (some session)
        if session.sessionGeneration ≠ bSessionGeneration then
          (m, .error (.protocol "easytier: JOIN generation mismatch"))
        else (m, .ok ())
  else
    match rootKey32 with
    | none => (m, .error (.protocol "easytier: missing root_key"))
    | some rootKey =>
      let session := (m.get key).2.getD (PeerSecureSession.new rootKey bSessionGeneration
        initialEpoch sendAlgorithm recvAlgorithm peerStaticPubkey nowMs)
      let m := Function.update m key (some session)
      match checked session sendAlgorithm recvAlgorithm peerStaticPubkey with
      | .error e => (m, .error e)
      | .ok session =>
        let session := session.syncRootKey rootKey bSessionGeneration initialEpoch
          (action = .sync) nowMs
        (Function.update m key (some session), .ok ())

/-! ### Where a session comes from -/

variable {m : SecureSessionMap} {key : SessionKey} {s s' : PeerSecureSession}

theorem get_some (h : (m.get key).2 = some s) : m key = some s ∧ s.isValid = true ∧
    (m.get key).1 = m := by
  unfold get at h ⊢
  cases hm : m key with
  | none =>
    rw [hm] at h
    cases h
  | some t =>
    rw [hm] at h
    dsimp only at h ⊢
    by_cases hvalid : t.isValid = true
    · rw [if_pos hvalid] at h ⊢
      cases h
      exact ⟨rfl, hvalid, rfl⟩
    · rw [if_neg hvalid] at h
      cases h

theorem get_none (h : (m.get key).2 = none) : (m.get key).1 key = none := by
  unfold get at h ⊢
  cases hm : m key with
  | none => exact hm
  | some t =>
    rw [hm] at h
    dsimp only at h ⊢
    by_cases hvalid : t.isValid = true
    · rw [if_pos hvalid] at h
      cases h
    · rw [if_neg hvalid]
      exact Function.update_self key none m

theorem checked_datagram {send recv : Str} {pubkey : Option (ByteVec 32)}
    (h : checked s send recv pubkey = .ok s') : s'.datagram = s.datagram := by
  unfold checked at h
  obtain ⟨-, -, h⟩ := bind_eq_ok.mp h
  exact PeerSecureSession.checkOrSet_datagram h

/-- The responder's session is new, or it is the one that was there. -/
theorem upsertResponderSession_session {aGen : Option UInt32} {send recv : Str}
    {pubkey : Option (ByteVec 32)} {newRootKey : ByteVec 32} {nowMs : Nat}
    (h : (m.upsertResponderSession key aGen send recv pubkey newRootKey nowMs).1 key = some s') :
    s'.rootKey = newRootKey ∨ ∃ s, m key = some s ∧ s'.datagram = s.datagram := by
  unfold upsertResponderSession at h
  cases hget : (m.get key).2 with
  | none =>
    dsimp only at h
    rw [hget] at h
    dsimp only at h
    rw [Function.update_self, Option.some.injEq] at h
    rw [← h]
    exact .inl rfl
  | some s =>
    obtain ⟨hm, -, hsame⟩ := get_some hget
    refine .inr ⟨s, hm, ?_⟩
    dsimp only at h
    rw [hget, hsame] at h
    dsimp only at h
    cases hcheck : s.datagram.checkEncryptAlgoSame send recv with
    | error e =>
      rw [hcheck] at h
      cases hm.symm.trans h
      rfl
    | ok =>
      rw [hcheck] at h
      dsimp only at h
      cases hpin : s.checkOrSetPeerStaticPubkey pubkey with
      | error e =>
        rw [hpin] at h
        cases hm.symm.trans h
        rfl
      | ok pinned =>
        rw [hpin] at h
        dsimp only at h
        have hdata := PeerSecureSession.checkOrSet_datagram hpin
        split_ifs at h
        all_goals
          dsimp only at h
          rw [Function.update_self, Option.some.injEq] at h
          rw [← h]
          exact hdata

/-- The initiator's session is the one that was there, or it has the root key and the epoch that it
    was told. -/
theorem applyInitiatorAction_session {action : PeerConnSessionAction} {bGen epoch : UInt32}
    {rootKey32 : Option (ByteVec 32)} {send recv : Str} {pubkey : Option (ByteVec 32)} {nowMs : Nat}
    (h : (m.applyInitiatorAction key action bGen rootKey32 epoch send recv pubkey nowMs).1 key =
      some s') :
    (∃ s, m key = some s ∧ s'.datagram = s.datagram) ∨
      rootKey32 = some s'.rootKey ∧ s'.datagram.sendEpoch = epoch := by
  unfold applyInitiatorAction at h
  by_cases hjoin : action = .join
  · rw [if_pos hjoin] at h
    left
    cases hget : (m.get key).2 with
    | none =>
      dsimp only at h
      rw [hget] at h
      cases (get_none hget).symm.trans h
    | some s =>
      obtain ⟨hm, -, hsame⟩ := get_some hget
      refine ⟨s, hm, ?_⟩
      dsimp only at h
      rw [hget, hsame] at h
      dsimp only at h
      cases hcheck : checked s send recv pubkey with
      | error e =>
        rw [hcheck] at h
        cases hm.symm.trans h
        rfl
      | ok pinned =>
        rw [hcheck] at h
        dsimp only at h
        have hdata := checked_datagram hcheck
        split_ifs at h
        all_goals
          dsimp only at h
          rw [Function.update_self, Option.some.injEq] at h
          rw [← h]
          exact hdata
  · rw [if_neg hjoin] at h
    cases rootKey32 with
    | none => exact .inl ⟨s', h, rfl⟩
    | some rootKey =>
      dsimp only at h
      generalize hsession : (m.get key).2.getD (PeerSecureSession.new rootKey bGen epoch send recv
        pubkey nowMs) = session at h
      cases hcheck : checked session send recv pubkey with
      | error e =>
        rw [hcheck] at h
        dsimp only at h
        rw [Function.update_self, Option.some.injEq] at h
        subst h
        cases hget : (m.get key).2 with
        | none =>
          rw [hget, Option.getD_none] at hsession
          rw [← hsession]
          exact .inr ⟨rfl, rfl⟩
        | some s =>
          rw [hget, Option.getD_some] at hsession
          rw [← hsession]
          exact .inl ⟨s, (get_some hget).1, rfl⟩
      | ok session' =>
        rw [hcheck] at h
        dsimp only at h
        rw [Function.update_self, Option.some.injEq] at h
        rw [← h]
        exact .inr ⟨rfl, rfl⟩

end SecureSessionMap

end RustCrash.EasyTier
