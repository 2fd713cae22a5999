import RustCrash.Lib.ChaChaPoly
import RustCrash.Wireguard.Cryptokey

/-
  The two sides of the handshake agree.

  Both sides run the same hashes over the same fields. They differ in who holds which secret, and
  there Diffie-Hellman commutes. After the first message the responder has the initiator's chaining
  key and hash (`Matches`).
-/

namespace RustCrash.Wireguard

open Lib

/-! ## The codec reads back what was written -/

theorem parseWgMsg_initiation (sender : UInt32) (ephemeral : ByteVec 32) (encStatic : ByteVec 48)
    (encTimestamp : ByteVec 28) (mac1 mac2 : ByteVec 16) :
    parseWgMsg (initiationBytes sender ephemeral encStatic.val encTimestamp.val ++ mac1.val ++
        mac2.val) =
      some (.initiation sender ephemeral encStatic encTimestamp mac1 mac2) := by
  have hbytes : initiationBytes sender ephemeral encStatic.val encTimestamp.val ++ mac1.val ++
      mac2.val = le32 1 ++ (le32 sender ++ (ephemeral.val ++ (encStatic.val ++
        (encTimestamp.val ++ (mac1.val ++ mac2.val))))) := by
    unfold initiationBytes
    repeat rw [List.append_assoc]
  have h1 : (le32 1).length = 4 := length_le32 1
  have h2 : (le32 sender).length = 4 := length_le32 sender
  rw [hbytes]
  unfold parseWgMsg
  dsimp only
  rw [if_neg (by simp), dif_pos ⟨rfl, by simp⟩]
  congr 2
  · rw [slice_skip h1, slice_here h2, ofLE32_le32]
  all_goals
    apply Subtype.ext
    unfold sliceVec
    dsimp only
    rw [slice_skip h1, slice_skip h2]
  · rw [slice_here ephemeral.property]
  · rw [slice_skip ephemeral.property, slice_here encStatic.property]
  · rw [slice_skip ephemeral.property, slice_skip encStatic.property,
      slice_here encTimestamp.property]
  · rw [slice_skip ephemeral.property, slice_skip encStatic.property,
      slice_skip encTimestamp.property, slice_here mac1.property]
  · rw [slice_skip ephemeral.property, slice_skip encStatic.property,
      slice_skip encTimestamp.property, slice_skip mac1.property, slice_all mac2.property]

theorem parseWgMsg_response (sender receiver : UInt32) (ephemeral : ByteVec 32)
    (encNothing mac1 mac2 : ByteVec 16) :
    parseWgMsg (responseBytes sender receiver ephemeral encNothing.val ++ mac1.val ++ mac2.val) =
      some (.response sender receiver ephemeral encNothing mac1 mac2) := by
  have hbytes : responseBytes sender receiver ephemeral encNothing.val ++ mac1.val ++ mac2.val =
      le32 2 ++ (le32 sender ++ (le32 receiver ++ (ephemeral.val ++ (encNothing.val ++
        (mac1.val ++ mac2.val))))) := by
    unfold responseBytes
    repeat rw [List.append_assoc]
  have h1 : (le32 2).length = 4 := length_le32 2
  have h2 : (le32 sender).length = 4 := length_le32 sender
  have h3 : (le32 receiver).length = 4 := length_le32 receiver
  rw [hbytes]
  unfold parseWgMsg
  dsimp only
  rw [if_neg (by simp), dif_neg (fun h => absurd (show (2 : UInt8) = 1 from h.1) (by decide)),
    dif_pos ⟨rfl, by simp⟩]
  congr 2
  · rw [slice_skip h1, slice_here h2, ofLE32_le32]
  · rw [slice_skip h1, slice_skip h2, slice_here h3, ofLE32_le32]
  all_goals
    apply Subtype.ext
    unfold sliceVec
    dsimp only
    rw [slice_skip h1, slice_skip h2, slice_skip h3]
  · rw [slice_here ephemeral.property]
  · rw [slice_skip ephemeral.property, slice_here encNothing.property]
  · rw [slice_skip ephemeral.property, slice_skip encNothing.property,
      slice_here mac1.property]
  · rw [slice_skip ephemeral.property, slice_skip encNothing.property,
      slice_skip mac1.property, slice_all mac2.property]

theorem parseWgMsg_transport (receiver : UInt32) (counter : UInt64) {data : Bytes}
    (h : 16 ≤ data.length) :
    parseWgMsg (le32 4 ++ le32 receiver ++ le64 counter ++ data) =
      some (.transport receiver counter data) := by
  have hbytes : le32 4 ++ le32 receiver ++ le64 counter ++ data =
      le32 4 ++ (le32 receiver ++ (le64 counter ++ data)) := by
    repeat rw [List.append_assoc]
  have hhead : (le32 4 ++ (le32 receiver ++ (le64 counter ++ data))).headD 0 = 4 := rfl
  have hlen : (le32 4 ++ (le32 receiver ++ (le64 counter ++ data))).length =
      16 + data.length := by
    simp only [List.length_append, length_le32, length_le64]
    omega
  have h1 : (le32 4).length = 4 := length_le32 4
  have h2 : (le32 receiver).length = 4 := length_le32 receiver
  rw [hbytes]
  unfold parseWgMsg
  dsimp only
  rw [if_neg (by omega), dif_neg (fun h => absurd (hhead.symm.trans h.1) (by decide)),
    dif_neg (fun h => absurd (hhead.symm.trans h.1) (by decide)),
    dif_neg (fun h => absurd (hhead.symm.trans h.1) (by decide)), if_pos ⟨hhead, by omega⟩]
  congr 2
  · rw [slice_skip h1, slice_here h2, ofLE32_le32]
  · rw [slice_skip (a := 4) h1, slice_skip (a := 0) h2, slice_here (length_le64 counter),
      ofLE64_le64]

/-- A datagram whose reserved bytes are zero is not touched. -/
theorem stripReserved_zeros (t : UInt8) (rest : Bytes) :
    stripReserved (t :: 0 :: 0 :: 0 :: rest) = t :: 0 :: 0 :: 0 :: rest := by
  unfold stripReserved
  rw [if_pos (by simp)]
  rfl

/-- The reserved bytes of a message are zero as it was built. -/
theorem stripReserved_response (sender receiver : UInt32) (ephemeral : ByteVec 32)
    (encNothing mac1 mac2 : Bytes) :
    stripReserved (responseBytes sender receiver ephemeral encNothing ++ mac1 ++ mac2) =
      responseBytes sender receiver ephemeral encNothing ++ mac1 ++ mac2 := by
  unfold responseBytes
  repeat rw [List.append_assoc]
  exact stripReserved_zeros 2 _

theorem stripReserved_initiation (sender : UInt32) (ephemeral : ByteVec 32)
    (encStatic encTimestamp mac1 mac2 : Bytes) :
    stripReserved (initiationBytes sender ephemeral encStatic encTimestamp ++ mac1 ++ mac2) =
      initiationBytes sender ephemeral encStatic encTimestamp ++ mac1 ++ mac2 := by
  unfold initiationBytes
  repeat rw [List.append_assoc]
  exact stripReserved_zeros 1 _

theorem stripReserved_transport (receiver : UInt32) (counter : UInt64) (data : Bytes) :
    stripReserved (le32 4 ++ le32 receiver ++ le64 counter ++ data) =
      le32 4 ++ le32 receiver ++ le64 counter ++ data := by
  repeat rw [List.append_assoc]
  exact stripReserved_zeros 4 _

/-! ## The crates' calls -/

section

variable {c : Crates}

theorem x25519Dh_ok {sk peer : ByteVec 32} (h : c.mulClamped peer sk ≠ ByteVec.zero 32) :
    x25519Dh c sk peer = .ok (c.mulClamped peer sk) := if_neg h

theorem x25519Dh_comm (hc : c.Lawful) (a b : ByteVec 32) :
    x25519Dh c a (c.mulBaseClamped b) = x25519Dh c b (c.mulBaseClamped a) := by
  unfold x25519Dh
  rw [hc.dh_comm b a]

/-- A fixed-length message is sealed, and what was sealed opens. -/
theorem aeadSeal_open (hc : c.Lawful) (key : ByteVec 32) {n : Nat} (hn : n ≤ 32)
    (plain : ByteVec n) (aad : Bytes) :
    ∃ ct : ByteVec (n + 16), aeadSeal c key 0 plain.val aad = .ok ct.val ∧
      aeadOpen c key 0 ct.val aad = .ok plain.val := by
  have hshort : plain.val.length / 64 < 2 ^ 32 - 1 := by
    rw [plain.property]
    omega
  obtain ⟨ct, hct⟩ := hc.seal_short key (aeadNonce 0) plain.val aad hshort
  have hlen : ct.length = n + 16 := by
    rw [hc.length_seal _ _ _ _ _ hct, plain.property]
  refine ⟨⟨ct, hlen⟩, ?_, ?_⟩
  · unfold aeadSeal
    rw [hct, okOr_some]
  · unfold aeadOpen
    rw [hc.open_seal _ _ _ _ _ hct, okOr_some]

/-! ## The first message -/

/-- The responder knows what the initiator keeps. -/
structure Matches (c : Crates) (i : ByteVec 32) (p : InitiationPending) (o : OpenInitiation) :
    Prop where
  sender : o.sender = p.localIndex
  ephemeral : o.ephemeral = c.mulBaseClamped p.ePriv
  clientStatic : o.clientStatic = c.mulBaseClamped i
  chainingKey : o.chainingKey = p.chainingKey
  hash : o.hash = p.hash

/-- The responder opens the initiation and ends up with the initiator's transcript. -/
theorem build_open (hc : c.Lawful) (i r : ByteVec 32) (cookie : Option (ByteVec 16))
    (index : UInt32) (d : Draw)
    (hes : c.mulClamped (c.mulBaseClamped r) d.ephemeral ≠ ByteVec.zero 32)
    (hss : c.mulClamped (c.mulBaseClamped r) i ≠ ByteVec.zero 32) :
    ∃ msg pending w o,
      buildInitiation c (.fromSecret c i) (c.mulBaseClamped r) cookie index d =
        .ok (msg, pending) ∧
      stripReserved msg = msg ∧
      parseWgMsg msg = some w ∧ openInitiation c (.fromSecret c r) w = .ok o ∧
      Matches c i pending o ∧ o.timestamp = tai64n d.time ∧ pending.localIndex = index ∧
      pending.ePriv = d.ephemeral := by
  have hes' : x25519Dh c r (c.mulBaseClamped d.ephemeral) =
      .ok (c.mulClamped (c.mulBaseClamped r) d.ephemeral) := by
    rw [x25519Dh_comm hc, x25519Dh_ok hes]
  have hss' : x25519Dh c r (c.mulBaseClamped i) = .ok (c.mulClamped (c.mulBaseClamped r) i) := by
    rw [x25519Dh_comm hc, x25519Dh_ok hss]
  -- the keys and hashes in the order both sides compute them
  let pk := c.mulBaseClamped d.ephemeral
  let h1 := hash2 (hash2 (hash2 (blake2s256 construction).val identifier).val
    (c.mulBaseClamped r).val).val pk.val
  let k1 := kdf2 (kdf1 (blake2s256 construction) pk.val)
    (c.mulClamped (c.mulBaseClamped r) d.ephemeral).val
  obtain ⟨encStatic, hseal1, hopen1⟩ :=
    aeadSeal_open hc k1.2 (le_refl 32) (c.mulBaseClamped i) h1.val
  let h2 := hash2 h1.val encStatic.val
  let k2 := kdf2 k1.1 (c.mulClamped (c.mulBaseClamped r) i).val
  obtain ⟨encTimestamp, hseal2, hopen2⟩ :=
    aeadSeal_open hc k2.2 (show 12 ≤ 32 by decide) (tai64n d.time) h2.val
  let covered := initiationBytes index pk encStatic.val encTimestamp.val
  let mac1 := blake2sMac (mac1Key (c.mulBaseClamped r)).val covered
  let mac2 := (cookie.map fun ck => blake2sMac ck.val (covered ++ mac1.val)).getD (ByteVec.zero 16)
  let h3 := hash2 h2.val encTimestamp.val
  refine ⟨covered ++ mac1.val ++ mac2.val, ⟨index, d.ephemeral, k2.1, h3, mac1, 1⟩,
    .initiation index pk encStatic encTimestamp mac1 mac2,
    ⟨index, pk, c.mulBaseClamped i, tai64n d.time, k2.1, h3⟩, ?_,
    stripReserved_initiation _ _ _ _ _ _, parseWgMsg_initiation _ _ _ _ _ _, ?_, ⟨rfl, rfl, rfl, rfl, rfl⟩, rfl, rfl, rfl⟩
  · unfold buildInitiation StaticKeys.fromSecret
    dsimp only
    rw [x25519Dh_ok hes, bind_ok, hseal1, bind_ok, x25519Dh_ok hss, bind_ok, hseal2, bind_ok]
  · unfold openInitiation StaticKeys.fromSecret
    dsimp only
    rw [ensure_of rfl, bind_ok, hes', bind_ok, hopen1, bind_ok,
      ByteVec.ofBytes?_val, okOr_some, bind_ok, hss', bind_ok, hopen2, bind_ok,
      ByteVec.ofBytes?_val, okOr_some, bind_ok]

/-- An initiation to any peer can be built, as long as neither shared secret is zero. -/
theorem build_ok (hc : c.Lawful) (statics : StaticKeys) (peerPk : ByteVec 32)
    (cookie : Option (ByteVec 16)) (index : UInt32) (d : Draw)
    (hes : c.mulClamped peerPk d.ephemeral ≠ ByteVec.zero 32)
    (hss : c.mulClamped peerPk statics.sk ≠ ByteVec.zero 32) :
    ∃ msg pending, buildInitiation c statics peerPk cookie index d = .ok (msg, pending) ∧
      pending.attempts = 1 := by
  unfold buildInitiation StaticKeys.fromSecret
  dsimp only
  rw [x25519Dh_ok hes, bind_ok]
  obtain ⟨encStatic, hseal, -⟩ := aeadSeal_open hc _ (le_refl 32) statics.pk _
  rw [hseal, bind_ok, x25519Dh_ok hss, bind_ok]
  obtain ⟨encTimestamp, hseal, -⟩ := aeadSeal_open hc _ (show 12 ≤ 32 by decide) (tai64n d.time) _
  rw [hseal, bind_ok]
  exact ⟨_, _, rfl, rfl⟩

/-! ## The second message -/

/-- The initiator accepts the response to its initiation, and both sides derive the same
    transport keys. -/
theorem respond_consume (hc : c.Lawful) {i : ByteVec 32} {p : InitiationPending}
    {o : OpenInitiation} (hm : Matches c i p o) (psk : ByteVec 32) (serverIndex : UInt32)
    (e : ByteVec 32) (hee : c.mulClamped (c.mulBaseClamped e) p.ePriv ≠ ByteVec.zero 32)
    (hse : c.mulClamped (c.mulBaseClamped e) i ≠ ByteVec.zero 32) :
    ∃ resp w sendKey recvKey,
      respondInitiation c o psk serverIndex e =
        .ok (resp, ⟨serverIndex, p.localIndex, sendKey, recvKey⟩) ∧
      stripReserved resp = resp ∧ parseWgMsg resp = some w ∧ w.isResponse = true ∧
      consumeResponse c (.fromSecret c i) p w psk =
        .ok (⟨p.localIndex, serverIndex, sendKey, recvKey⟩, p.zero) := by
  obtain ⟨hsender, heph, hstatic, hck, hh⟩ := hm
  have hee' : x25519Dh c e (c.mulBaseClamped p.ePriv) =
      .ok (c.mulClamped (c.mulBaseClamped e) p.ePriv) := by
    rw [x25519Dh_comm hc, x25519Dh_ok hee]
  have hse' : x25519Dh c e (c.mulBaseClamped i) = .ok (c.mulClamped (c.mulBaseClamped e) i) := by
    rw [x25519Dh_comm hc, x25519Dh_ok hse]
  let pk := c.mulBaseClamped e
  let ck1 := kdf1 (kdf1 (kdf1 p.chainingKey pk.val)
    (c.mulClamped pk p.ePriv).val) (c.mulClamped pk i).val
  let k := kdf3 ck1 psk.val
  let h1 := hash2 (hash2 p.hash.val pk.val).val k.2.1.val
  obtain ⟨encNothing, hseal, hopen⟩ :=
    aeadSeal_open hc k.2.2 (Nat.zero_le 32) (⟨[], rfl⟩ : ByteVec 0) h1.val
  let covered := responseBytes serverIndex p.localIndex pk encNothing.val
  let mac1 := blake2sMac (mac1Key (c.mulBaseClamped i)).val covered
  refine ⟨covered ++ mac1.val ++ (ByteVec.zero 16).val,
    .response serverIndex p.localIndex pk encNothing mac1 (ByteVec.zero 16),
    (deriveTransportKeys k.1).1, (deriveTransportKeys k.1).2, ?_,
    stripReserved_response _ _ _ _ _ _, parseWgMsg_response _ _ _ _ _ _, rfl, ?_⟩
  · unfold respondInitiation StaticKeys.fromSecret
    dsimp only
    rw [heph, hstatic, hck, hh, hsender, hee', bind_ok, hse', bind_ok, hseal, bind_ok]
  · unfold consumeResponse StaticKeys.fromSecret
    dsimp only
    rw [ensure_of rfl, bind_ok, ensure_of rfl, bind_ok, x25519Dh_ok hee, bind_ok, x25519Dh_ok hse, bind_ok, hopen, bind_ok]

/-! ## Agreement -/

/-- Two sessions that are the two ends of one: what one sends the other receives. -/
structure MutuallyInverse (s t : Session) : Prop where
  send : s.send.cipher = t.recv.cipher
  recv : s.recv.cipher = t.send.cipher
  peerIndex : s.peerIndex = t.localIndex
  localIndex : t.peerIndex = s.localIndex

/-- The handshake between the secrets `i` and `r` runs through, message by message: the
    responder learns the initiator's key and time, and the sessions fit each other. -/
def Agreement (c : Crates) (i r psk : ByteVec 32) (cookie : Option (ByteVec 16))
    (initiatorIndex responderIndex : UInt32) (d : Draw) (e : ByteVec 32) : Prop :=
  ∃ msg pending w o resp keys w' done pending',
    buildInitiation c (.fromSecret c i) (StaticKeys.fromSecret c r).pk cookie initiatorIndex d =
      .ok (msg, pending) ∧
    parseWgMsg msg = some w ∧
    openInitiation c (.fromSecret c r) w = .ok o ∧
    o.clientStatic = (StaticKeys.fromSecret c i).pk ∧ o.timestamp = tai64n d.time ∧
    respondInitiation c o psk responderIndex e = .ok (resp, keys) ∧
    parseWgMsg resp = some w' ∧
    consumeResponse c (.fromSecret c i) pending w' psk = .ok (done, pending') ∧
    ∀ t t', MutuallyInverse (.fromHandshake done t)
      (.fromResponder keys.serverIndex keys.peerIndex keys.clientSend keys.clientRecv t')

/-- Whatever the keys, the PSK, the cookie, the indexes and the ephemeral secrets, as long as
    none of the four shared secrets is zero. -/
theorem handshake_agreement (hc : c.Lawful) (i r psk : ByteVec 32) (cookie : Option (ByteVec 16))
    (initiatorIndex responderIndex : UInt32) (d : Draw) (e : ByteVec 32)
    (hes : c.mulClamped (c.mulBaseClamped r) d.ephemeral ≠ ByteVec.zero 32)
    (hss : c.mulClamped (c.mulBaseClamped r) i ≠ ByteVec.zero 32)
    (hee : c.mulClamped (c.mulBaseClamped e) d.ephemeral ≠ ByteVec.zero 32)
    (hse : c.mulClamped (c.mulBaseClamped e) i ≠ ByteVec.zero 32) :
    Agreement c i r psk cookie initiatorIndex responderIndex d e := by
  obtain ⟨msg, pending, w, o, hbuild, -, hparse, hopen, hm, htime, hindex, hpriv⟩ :=
    build_open hc i r cookie initiatorIndex d hes hss
  rw [← hpriv] at hee
  obtain ⟨resp, w', sendKey, recvKey, hrespond, -, hparse', -, hconsume⟩ :=
    respond_consume hc hm psk responderIndex e hee hse
  exact ⟨msg, pending, w, o, resp, _, w', _, _, hbuild, hparse, hopen, hm.clientStatic, htime,
    hrespond, hparse', hconsume, fun t t' => ⟨rfl, rfl, rfl, rfl⟩⟩

end

/-! ## Four keys

The secrets of 32 equal bytes 1, 2, 3 and 4, with their X25519 points and shared secrets. -/

/-- 32 bytes, the first one on top. -/
def hex32 (n : Nat) : ByteVec 32 := ⟨toBE 32 n, length_toBE 32 n⟩

def sampleSecret (b : UInt8) : ByteVec 32 := ⟨List.replicate 32 b, List.length_replicate⟩

def sampleSecrets : List (ByteVec 32) := [1, 2, 3, 4].map sampleSecret

def samplePoints : List (ByteVec 32) :=
  [hex32 0xa4e09292b651c278b9772c569f5fa9bb13d906b46ab68c9df9dc2b4409f8a209,
    hex32 0xce8d3ad1ccb633ec7b70c17814a5c76ecd029685050d344745ba05870e587d59,
    hex32 0x5dfedd3b6bd47f6fa28ee15d969d5bb0ea53774d488bdaf9df1c6e0124b3ef22,
    hex32 0xac01b2209e86354fb853237b5de0f4fab13c7fcbf433a61c019369617fecf10b]

/-- The shared secrets of two of the keys, and 1 for the point of another key. -/
def sampleShared (a b : Nat) : ByteVec 32 :=
  let rows : List (List Nat) :=
    [[0xf311d440a5f15fac9cbdc78fbb90b63a6c6880148e79159dd258f036bf2f792c,
      0x2ed76ab549b1e73c031eb49c9448f0798aea81b698279a0c3dc3e49fbfc4b953,
      0xb0190541a2abb8bc163b6eef0fae7ba0179004b444326f73809563164d47c521,
      0x64bb28fb502743e6560d2330e0cebe95fa555a09a575e5fff1e34c5f6fd4d43c],
    [0xacb1f256815afb1d7c1bc0db3aa6727aab4215ca4cd116e1f88be1a8a4b5507a,
      0x7c425a51f6a7f2e60012b0a34dd6511017807708b502ee66a2a247f171fda96c,
      0x09bb974ce3799959096660bdece3bb89ca106e6df31c2f701b7b8b9977047c34],
    [0x072a93413650c6f912dbcc425a957c0be31d27778175c3bf293293a37c888c6c,
      0x40e47a3f525bdcac491d418978d7db5af623ac7afe7623c6d78a5d4fce9d0f63],
    [0x1efaf5406115543cedeade6523086e3a1b0e7f3ac44743675ec2ca9430d6d939]]
  hex32 (((rows.getD (min a b) []).getD (max a b - min a b)) 1)

/-- X25519 as far as the four keys need it, the AEADs and base64. -/
def sampleCrates : Crates where
  mulBaseClamped sk := samplePoints.getD (sampleSecrets.idxOf sk) (ByteVec.zero 32)
  mulClamped point sk := sampleShared (samplePoints.idxOf point) (sampleSecrets.idxOf sk)
  encrypt := ChaChaPoly.encrypt
  decrypt := ChaChaPoly.decrypt
  xencrypt := ChaChaPoly.xencrypt
  xdecrypt := ChaChaPoly.xdecrypt
  base64Standard := Base64.decodeStandard
  base64NoPad := Base64.decodeNoPad

theorem idxOf_samplePoints (sk : ByteVec 32) :
    samplePoints.idxOf (samplePoints.getD (sampleSecrets.idxOf sk) (ByteVec.zero 32)) =
      sampleSecrets.idxOf sk := by
  have hall : ∀ k : Fin 5,
      samplePoints.idxOf (samplePoints.getD k.val (ByteVec.zero 32)) = k.val := by
    decide +kernel
  have hle : sampleSecrets.idxOf sk ≤ 4 := List.idxOf_le_length
  exact hall ⟨sampleSecrets.idxOf sk, by omega⟩

theorem sampleCrates_lawful : sampleCrates.Lawful where
  dh_comm a b := by
    unfold sampleCrates
    dsimp only
    rw [idxOf_samplePoints, idxOf_samplePoints]
    unfold sampleShared
    rw [min_comm, max_comm]
  seal_short key nonce msg aad h := ChaChaPoly.encrypt_short key nonce aad h
  length_seal key nonce msg aad ct h := ChaChaPoly.length_encrypt h
  open_seal key nonce msg aad ct h := ChaChaPoly.open_seal h

theorem handshake_agreement_sample :
    Agreement sampleCrates (sampleSecret 1) (sampleSecret 2) (ByteVec.zero 32) none 7 9
      ⟨sampleSecret 3, ⟨1700000000, 5⟩⟩ (sampleSecret 4) :=
  handshake_agreement sampleCrates_lawful (sampleSecret 1) (sampleSecret 2) (ByteVec.zero 32)
    none 7 9 ⟨sampleSecret 3, ⟨1700000000, 5⟩⟩ (sampleSecret 4) (by decide +kernel)
    (by decide +kernel) (by decide +kernel) (by decide +kernel)

end RustCrash.Wireguard
