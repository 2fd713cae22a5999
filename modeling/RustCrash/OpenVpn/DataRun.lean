import RustCrash.Lib.Windows
import RustCrash.OpenVpn.DataChannel

/-
  Runs of the data channel: the packet ids that are sent, and the window of those that were
  received.

  Packets come out as they went in, an id is never sent twice, and a packet of the other end is
  accepted if and only if its id is new and in the window (`data_channel`).
-/

namespace RustCrash.OpenVpn

open Lib

structure DataChannel where
  send : DataDirection
  recv : DataDirection
  keyId : UInt8
  header : Bytes
  sendPacketId : UInt32
  peerActive : Bool
  recvHighest : UInt32
  recvWindow : BitVec 64
  recvSeen : Bool
  hheader : ∃ peerId keyId, header = dataHeader peerId keyId

structure KeyMaterial where
  sendCipherKey : Bytes
  sendHmacKey : Bytes
  recvCipherKey : Bytes
  recvHmacKey : Bytes

/-- The keys of the other end. -/
def KeyMaterial.mirror (keys : KeyMaterial) : KeyMaterial where
  sendCipherKey := keys.recvCipherKey
  sendHmacKey := keys.recvHmacKey
  recvCipherKey := keys.sendCipherKey
  recvHmacKey := keys.sendHmacKey

namespace DataChannel

/-! ## A new channel -/

variable (hmac : Hmac)

def rekeyThreshold : UInt32 := 0xFF000000

def nextPacketId (c : DataChannel) : DataChannel × Result UInt32 :=
  if rekeyThreshold ≤ c.sendPacketId then
    (c, .error (.network "openvpn data packet id reached rekey threshold"))
  else ({ c with sendPacketId := c.sendPacketId + 1 }, .ok (c.sendPacketId + 1))

/-- Nothing where the source panics. -/
def encrypt (c : DataChannel) (iv : Aes.Block) (packet : Bytes) :
    Option (DataChannel × Result Bytes) :=
  match c.nextPacketId with
  | (c, .error e) => some (c, .error e)
  | (c, .ok packetId) =>
    (sealPacket hmac c.send c.header packetId iv packet).map fun wire => (c, .ok wire)

def replayed (packetId : UInt32) : Error :=
  .protocol s!"openvpn replayed data packet id {packetId.toNat}"

def acceptPacketId (c : DataChannel) (packetId : UInt32) : DataChannel × Result Unit :=
  if c.recvSeen = false then
    ({ c with recvHighest := packetId, recvWindow := 1, recvSeen := true }, .ok ())
  else if c.recvHighest < packetId then
    let shift := (packetId - c.recvHighest).toNat
    let window := if dataChannelReplayWindow ≤ shift then 1 else (c.recvWindow <<< shift) ||| 1
    ({ c with recvHighest := packetId, recvWindow := window }, .ok ())
  else
    let diff := (c.recvHighest - packetId).toNat
    if dataChannelReplayWindow ≤ diff then (c, .error (replayed packetId))
    else
      let mask := (1 : BitVec 64) <<< diff
      if c.recvWindow &&& mask ≠ 0 then (c, .error (replayed packetId))
      else ({ c with recvWindow := c.recvWindow ||| mask }, .ok ())

def decrypt (c : DataChannel) (packet : Bytes) : DataChannel × Result Bytes :=
  match openPacket hmac c.recv packet with
  | .error e => (c, .error e)
  | .ok (packetId, plain) =>
    match c.acceptPacketId packetId with
    | (c, .error e) => (c, .error e)
    | (c, .ok ()) => (c, .ok plain)

/-! ## The ids that were received -/

def ids (accepted : List UInt32) : Set Nat := {x | ∃ id ∈ accepted, id.toNat = x}

theorem ids_cons (id : UInt32) (accepted : List UInt32) :
    ids (id :: accepted) = insert id.toNat (ids accepted) := by
  ext x
  unfold ids
  rw [Set.mem_insert_iff, Set.mem_ofPred_eq, Set.mem_ofPred_eq]
  constructor
  · rintro ⟨i, hmem, rfl⟩
    rcases List.mem_cons.mp hmem with rfl | hmem
    · exact .inl rfl
    · exact .inr ⟨i, hmem, rfl⟩
  · rintro (rfl | ⟨i, hmem, rfl⟩)
    · exact ⟨id, List.mem_cons_self, rfl⟩
    · exact ⟨i, List.mem_cons_of_mem _ hmem, rfl⟩

theorem mem_ids {id : UInt32} {accepted : List UInt32} : id.toNat ∈ ids accepted ↔ id ∈ accepted := by
  constructor
  · rintro ⟨i, hmem, heq⟩
    rwa [← UInt32.toNat_inj.mp heq]
  · intro hmem
    exact ⟨id, hmem, rfl⟩

/-- The id is new, and above the highest one less 64. -/
def Allowed (accepted : List UInt32) (id : UInt32) : Prop :=
  id ∉ accepted ∧ ∀ a ∈ accepted, a.toNat < id.toNat + dataChannelReplayWindow

/-- The window shows which ids were accepted. -/
structure Tracks (c : DataChannel) (accepted : List UInt32) : Prop where
  unseen : c.recvSeen = false → accepted = []
  shows : c.recvSeen = true → ShiftWindow.Shows dataChannelReplayWindow (ids accepted)
    c.recvHighest.toNat fun i => c.recvWindow.getLsbD i = true
  highest : c.recvSeen = true → c.recvHighest ∈ accepted

theorem and_mask (w : BitVec 64) {i : Nat} (hi : i < 64) :
    w &&& (1 : BitVec 64) <<< i ≠ 0 ↔ w.getLsbD i = true := by
  constructor
  · intro hne
    by_contra hbit
    apply hne
    apply BitVec.eq_of_getLsbD_eq
    intro j hj
    simp only [BitVec.getLsbD_and, BitVec.getLsbD_shiftLeft, BitVec.ofNat_eq_ofNat,
      BitVec.getLsbD_one, BitVec.getLsbD_zero]
    by_cases hij : j = i
    · rw [hij, Bool.eq_false_iff.mpr hbit, Bool.false_and]
    · have hzero : (decide (j < 64) && !decide (j < i) &&
          (decide (0 < 64) && decide (j - i = 0))) = false := by
        by_cases hlt : j < i
        · simp [hlt]
        · have : j - i ≠ 0 := by omega
          simp [this]
      rw [hzero, Bool.and_false]
  · intro hbit hzero
    have hget := congrArg (BitVec.getLsbD · i) hzero
    simp only [BitVec.getLsbD_and, BitVec.getLsbD_shiftLeft, BitVec.ofNat_eq_ofNat,
      BitVec.getLsbD_one, BitVec.getLsbD_zero, hbit] at hget
    simp [hi] at hget

theorem getLsbD_mask (w : BitVec 64) (i : Nat) {j : Nat} (hj : j < 64) :
    (w ||| (1 : BitVec 64) <<< i).getLsbD j = true ↔ j = i ∨ w.getLsbD j = true := by
  simp only [BitVec.getLsbD_or, BitVec.getLsbD_shiftLeft, BitVec.ofNat_eq_ofNat,
    BitVec.getLsbD_one, Bool.or_eq_true, Bool.and_eq_true, Bool.not_eq_true', decide_eq_true_eq,
    decide_eq_false_iff_not]
  have hsame : ((j < 64 ∧ ¬ j < i) ∧ 0 < 64 ∧ j - i = 0) ↔ j = i := by omega
  rw [hsame, or_comm]

theorem getLsbD_shifted (w : BitVec 64) (shift : Nat) {j : Nat} (hj : j < 64) :
    ((w <<< shift) ||| 1).getLsbD j = true ↔
      j = 0 ∨ shift ≤ j ∧ w.getLsbD (j - shift) = true := by
  simp only [BitVec.getLsbD_or, BitVec.getLsbD_shiftLeft, BitVec.ofNat_eq_ofNat,
    BitVec.getLsbD_one, Bool.or_eq_true, Bool.and_eq_true, Bool.not_eq_true', decide_eq_true_eq,
    decide_eq_false_iff_not]
  have hshifted : (j < 64 ∧ ¬ j < shift) ↔ shift ≤ j := by omega
  have hfirst : (0 < 64 ∧ j = 0) ↔ j = 0 := by omega
  rw [hshifted, hfirst, or_comm]

theorem getLsbD_first (i : Nat) : (1 : BitVec 64).getLsbD i = true ↔ i = 0 := by
  rw [BitVec.ofNat_eq_ofNat, BitVec.getLsbD_one, Bool.and_eq_true, decide_eq_true_eq,
    decide_eq_true_eq]
  exact and_iff_right (by decide)

theorem ids_singleton (id : UInt32) : ids [id] = {id.toNat} := by
  ext x
  constructor
  · rintro ⟨i, hmem, rfl⟩
    rw [List.mem_singleton.mp hmem]
    exact Set.mem_singleton _
  · rintro rfl
    exact ⟨id, List.mem_singleton_self id, rfl⟩

variable {c c' : DataChannel} {accepted : List UInt32} {id : UInt32}

/-- An id is accepted if and only if it is allowed, and the window knows it then. -/
theorem Tracks.accept (h : c.Tracks accepted) (id : UInt32) :
    (Allowed accepted id ∧ ∃ c', c.acceptPacketId id = (c', .ok ()) ∧ c'.Tracks (id :: accepted) ∧
      c'.recv = c.recv) ∨
    ¬ Allowed accepted id ∧ c.acceptPacketId id = (c, .error (replayed id)) := by
  unfold acceptPacketId Allowed
  cases hseen : c.recvSeen with
  | false =>
    rw [if_pos rfl, h.unseen hseen]
    refine .inl ⟨⟨List.not_mem_nil, nofun⟩, _, rfl, ⟨nofun, fun _ => ?_, fun _ => ?_⟩, rfl⟩
    · rw [ids_singleton]
      exact ShiftWindow.shows_single fun i _ => getLsbD_first i
    · exact List.mem_cons_self
  | true =>
    have hshows := h.shows hseen
    have hmem := h.highest hseen
    rw [if_neg (by decide)]
    by_cases hlt : c.recvHighest < id
    · have hlt' := UInt32.lt_iff_toNat_lt.mp hlt
      have hsub : (id - c.recvHighest).toNat = id.toNat - c.recvHighest.toNat :=
        UInt32.toNat_sub_of_le _ _ (UInt32.le_of_lt hlt)
      rw [if_pos hlt]
      refine .inl ⟨⟨fun hid => ?_, fun a ha => ?_⟩, _, rfl, ⟨nofun, fun _ => ?_, fun _ => ?_⟩, rfl⟩
      · exact ShiftWindow.fresh_above hshows.covers hlt' (mem_ids.mpr hid)
      · have := hshows.1 _ (mem_ids.mpr ha)
        omega
      · rw [ids_cons, hsub]
        refine ShiftWindow.shows_shift hshows hlt' fun i hi => ?_
        dsimp only
        split_ifs with hfar
        · rw [getLsbD_first]
          omega
        · exact getLsbD_shifted _ _ hi
      · exact List.mem_cons_self
    · have hle := UInt32.le_iff_toNat_le.mp (UInt32.not_lt.mp hlt)
      have hsub : (c.recvHighest - id).toNat = c.recvHighest.toNat - id.toNat :=
        UInt32.toNat_sub_of_le _ _ (UInt32.not_lt.mp hlt)
      rw [if_neg hlt, hsub]
      dsimp only
      by_cases hfar : dataChannelReplayWindow ≤ c.recvHighest.toNat - id.toNat
      · rw [if_pos hfar]
        refine .inr ⟨fun hallowed => ?_, rfl⟩
        have := hallowed.2 _ hmem
        omega
      · rw [if_neg hfar]
        have hsize : c.recvHighest.toNat - id.toNat < dataChannelReplayWindow := by omega
        have hbit := hshows.2 id.toNat hle hsize
        by_cases hmask : c.recvWindow &&& (1 : BitVec 64) <<< (c.recvHighest.toNat - id.toNat) ≠ 0
        · rw [if_pos hmask]
          refine .inr ⟨fun hallowed => hallowed.1 ?_, rfl⟩
          exact mem_ids.mp (hbit.mp ((and_mask _ hsize).mp hmask))
        · rw [if_neg hmask]
          refine .inl ⟨⟨fun hid => ?_, fun a ha => ?_⟩, _, rfl,
            ⟨fun hnot => ?_, fun _ => ?_, fun _ => List.mem_cons_of_mem _ hmem⟩, rfl⟩
          · exact hmask ((and_mask _ hsize).mpr (hbit.mpr (mem_ids.mpr hid)))
          · have := hshows.1 _ (mem_ids.mpr ha)
            omega
          · exact absurd hnot nofun
          · rw [ids_cons]
            exact ShiftWindow.shows_mark hshows hle fun i hi => getLsbD_mask _ _ hi

variable {hmac : Hmac}

/-- A packet that opens comes out if and only if its id is allowed. -/
theorem Tracks.decrypt (h : c.Tracks accepted) {packet plain : Bytes}
    (hopen : openPacket hmac c.recv packet = .ok (id, plain)) :
    (Allowed accepted id ∧ ∃ c', c.decrypt hmac packet = (c', .ok plain) ∧
      c'.Tracks (id :: accepted) ∧ c'.recv = c.recv) ∨
    ¬ Allowed accepted id ∧ c.decrypt hmac packet = (c, .error (replayed id)) := by
  unfold DataChannel.decrypt
  rw [hopen]
  dsimp only
  rcases h.accept id with ⟨hallowed, c', haccept, htracks, hrecv⟩ | ⟨hnot, haccept⟩
  · rw [haccept]
    exact .inl ⟨hallowed, c', rfl, htracks, hrecv⟩
  · rw [haccept]
    exact .inr ⟨hnot, rfl⟩

/-! ## Any packets in any order -/

variable (hmac) in
/-- One packet comes; the ids that were accepted are kept. -/
def feed (s : DataChannel × List UInt32) (packet : Bytes) : DataChannel × List UInt32 :=
  match openPacket hmac s.1.recv packet, s.1.decrypt hmac packet with
  | .ok (id, _), (c, .ok _) => (c, id :: s.2)
  | _, (c, _) => (c, s.2)

variable (hmac) in
def feedAll (c : DataChannel) (packets : List Bytes) : DataChannel × List UInt32 :=
  packets.foldl (feed hmac) (c, [])

theorem Tracks.feed {s : DataChannel × List UInt32} (h : s.1.Tracks s.2) (packet : Bytes) :
    (feed hmac s packet).1.Tracks (feed hmac s packet).2 ∧
      (feed hmac s packet).1.recv = s.1.recv := by
  unfold DataChannel.feed
  cases hopen : openPacket hmac s.1.recv packet with
  | error e =>
    have hsame : s.1.decrypt hmac packet = (s.1, .error e) := by
      unfold DataChannel.decrypt
      rw [hopen]
    rw [hsame]
    exact ⟨h, rfl⟩
  | ok opened =>
    rcases h.decrypt hopen with ⟨-, c', hdecrypt, htracks, hrecv⟩ | ⟨-, hdecrypt⟩
    · rw [hdecrypt]
      exact ⟨htracks, hrecv⟩
    · rw [hdecrypt]
      exact ⟨h, rfl⟩

/-- A packet that was encrypted. -/
structure Sent where
  id : UInt32
  plain : Bytes
  wire : Bytes

variable (hmac) in
/-- All that is encrypted, as far as there is no panic. -/
def encryptAll : DataChannel → List (Aes.Block × Bytes) → List Sent
  | _, [] => []
  | c, (iv, packet) :: packets =>
    match c.encrypt hmac iv packet with
    | none => []
    | some (c', .error _) => encryptAll c' packets
    | some (c', .ok wire) => ⟨c'.sendPacketId, packet, wire⟩ :: encryptAll c' packets

variable (hmac) in
def decryptAll : DataChannel → List Bytes → List (Result Bytes)
  | _, [] => []
  | c, packet :: packets =>
    (c.decrypt hmac packet).2 :: decryptAll (c.decrypt hmac packet).1 packets

variable (hmac) in
/-- An id is the next number, and below the threshold; at the threshold nothing is sent any more. -/
theorem encrypt_cases (c : DataChannel) (iv : Aes.Block) (packet : Bytes) :
    c.encrypt hmac iv packet = none ∨
    (rekeyThreshold ≤ c.sendPacketId ∧ c.encrypt hmac iv packet =
      some (c, .error (.network "openvpn data packet id reached rekey threshold"))) ∨
    ∃ c' wire, c.encrypt hmac iv packet = some (c', .ok wire) ∧
      c' = { c with sendPacketId := c.sendPacketId + 1 } ∧
      c'.sendPacketId.toNat = c.sendPacketId.toNat + 1 ∧
      sealPacket hmac c.send c.header c'.sendPacketId iv packet = some wire := by
  unfold encrypt nextPacketId
  by_cases hthreshold : rekeyThreshold ≤ c.sendPacketId
  · rw [if_pos hthreshold]
    exact .inr (.inl ⟨hthreshold, rfl⟩)
  · rw [if_neg hthreshold]
    dsimp only
    cases hseal : sealPacket hmac c.send c.header (c.sendPacketId + 1) iv packet with
    | none => exact .inl rfl
    | some wire =>
      refine .inr (.inr ⟨_, wire, rfl, rfl, ?_, hseal⟩)
      have hlt := UInt32.lt_iff_toNat_lt.mp (UInt32.not_le.mp hthreshold)
      have hbound : rekeyThreshold.toNat < 2 ^ 32 - 1 := by decide
      rw [UInt32.toNat_add, UInt32.toNat_one, Nat.mod_eq_of_lt (by omega)]

/-- In the order in which they were encrypted all packets come out. -/
theorem Tracks.decryptAll {a b : DataChannel} (h : b.Tracks accepted) (hmirror : a.send = b.recv)
    (hbelow : ∀ id ∈ accepted, id.toNat ≤ a.sendPacketId.toNat)
    {packets : List (Aes.Block × Bytes)} (hne : ∀ p ∈ packets, p.2 ≠ []) :
    decryptAll hmac b ((encryptAll hmac a packets).map Sent.wire) =
      (encryptAll hmac a packets).map fun s => .ok s.plain := by
  induction packets generalizing a b accepted with
  | nil => rfl
  | cons p packets ih =>
    obtain ⟨iv, packet⟩ := p
    have hrest : ∀ p ∈ packets, p.2 ≠ [] := fun p hp => hne p (List.mem_cons_of_mem _ hp)
    unfold encryptAll
    rcases a.encrypt_cases hmac iv packet with
      hnone | ⟨-, herror⟩ | ⟨a', wire, hok, hsame, hnext, hseal⟩
    · rw [hnone]
      rfl
    · rw [herror]
      exact ih h hmirror hbelow hrest
    · rw [hok]
      dsimp only
      rw [List.map_cons, List.map_cons]
      dsimp only
      obtain ⟨peerId, keyId, hheader⟩ := a.hheader
      rw [hheader] at hseal
      have hopen := openPacket_seal (hne _ List.mem_cons_self) hseal
      rw [hmirror] at hopen
      rcases h.decrypt hopen with ⟨-, b', hdecrypt, htracks, hrecv⟩ | ⟨hnot, -⟩
      · unfold DataChannel.decryptAll
        rw [hdecrypt]
        refine congrArg (_ :: ·) (ih htracks ?_ ?_ hrest)
        · rw [hsame, hrecv]
          exact hmirror
        · intro id hid
          rcases List.mem_cons.mp hid with rfl | hid
          · exact Nat.le_refl _
          · have := hbelow id hid
            omega
      · refine absurd ⟨fun hmem => ?_, fun i hi => ?_⟩ hnot
        · have := hbelow _ hmem
          omega
        · have := hbelow i hi
          omega

end DataChannel

end RustCrash.OpenVpn
