import RustCrash.ZeroTier.Packet

/-
  `dearmor` undoes `armor`, and `lz4_block_decode` undoes `lz4_literal_encode`
  (`proto/zerotier.rs`).

  The key of a packet is mangled with its header and its length, so what happens to an armored
  packet may touch neither. What `armor` itself changes after the key is made is the body and the
  MAC, and the key depends on neither of them.
-/

namespace RustCrash.ZeroTier

open Lib

/-! ## LZ4 -/

theorem lz4Length_extension (what : String) (q : Nat) {r : Nat} (hr : r < 255) (rest : Bytes)
    (n : Nat) :
    lz4Length what (List.replicate q 255 ++ UInt8.ofNat r :: rest) n =
      .ok (n + 255 * q + r, rest) := by
  induction q generalizing n with
  | zero =>
    have hlast : (UInt8.ofNat r).toNat = r := UInt8.toNat_ofNat_of_lt' (show r < 256 by omega)
    have hne : UInt8.ofNat r ≠ 255 := fun h => by
      rw [h] at hlast
      change 255 = r at hlast
      omega
    rw [List.replicate_zero, List.nil_append, lz4Length, if_neg hne, hlast]
    rfl
  | succ q ih =>
    rw [List.replicate_succ, List.cons_append, lz4Length, if_pos rfl, ih]
    congr 2
    change n + 255 + 255 * q + r = _
    ring

/-- One sequence that is literals to the end. -/
theorem lz4Loop_literals {cap : Nat} {token : UInt8} {src data : Bytes}
    (hn : lz4Nibble "zerotier: truncated LZ4 literals" (token >>> 4).toNat src =
      .ok (data.length, data)) (hcap : data.length ≤ cap) :
    lz4Loop cap (token :: src) [] = .ok data := by
  rw [lz4Loop]
  split
  · rename_i h
    rw [hn] at h
    cases h
  · rename_i h
    rw [hn] at h
    obtain ⟨rfl, rfl⟩ := Prod.mk.inj (Except.ok.inj h)
    simp [hcap]

theorem lz4Nibble_short (what : String) {n : Nat} (hn : n < 15) (src : Bytes) :
    lz4Nibble what (UInt8.ofNat n <<< 4 >>> 4).toNat src = .ok (n, src) := by
  have hnibble : (UInt8.ofNat n <<< 4 >>> 4).toNat = n := by
    interval_cases n <;> rfl
  rw [hnibble, lz4Nibble, if_neg (by omega)]

theorem lz4BlockDecode_literalEncode {data : Bytes} {cap : Nat} (h : data.length ≤ cap) :
    lz4BlockDecode (lz4LiteralEncode data) cap = .ok data := by
  unfold lz4BlockDecode lz4LiteralEncode
  split_ifs with hnil hshort
  · rw [hnil]
    exact lz4Loop_literals rfl (Nat.zero_le cap)
  · exact lz4Loop_literals (lz4Nibble_short _ hshort data) h
  · refine lz4Loop_literals ?_ h
    have hlt : (data.length - 15) % 255 < 255 := Nat.mod_lt _ (by decide)
    rw [lz4Extension, List.append_assoc, List.singleton_append, lz4Nibble, if_pos (by rfl),
      lz4Length_extension _ _ hlt]
    congr 2
    omega

theorem length_lz4LiteralEncode (data : Bytes) :
    data.length + 1 ≤ (lz4LiteralEncode data).length := by
  unfold lz4LiteralEncode
  split_ifs with hnil
  · rw [hnil]
    rfl
  · exact le_rfl
  · rw [List.length_cons, List.length_append]
    omega

/-! ## What a packet says -/

namespace WirePacket

/-- Another packet with the same addresses, id and body: the flags and the MAC may differ. -/
structure SameContent (p q : WirePacket) : Prop where
  head : q.buf.take packetIdxFlags = p.buf.take packetIdxFlags
  body : q.body = p.body

variable {p q r : WirePacket}

namespace SameContent

theorem trans (h : SameContent p q) (h' : SameContent q r) : SameContent p r :=
  ⟨h'.head.trans h.head, h'.body.trans h.body⟩

theorem packetId (h : SameContent p q) : q.packetId = p.packetId :=
  congrArg ofBE64 (slice_of_take h.head (by decide))

theorem dest (h : SameContent p q) : q.dest = p.dest :=
  congrArg be40 (slice_of_take h.head (by decide))

theorem source (h : SameContent p q) : q.source = p.source :=
  congrArg be40 (slice_of_take h.head (by decide))

theorem verbByte (h : SameContent p q) : q.verbByte = p.verbByte := by
  have hbody (p : WirePacket) : p.verbByte = p.body.getD 0 0 := by
    rw [WirePacket.verbByte, WirePacket.body, List.getD_eq_getElem?_getD,
      List.getD_eq_getElem?_getD, List.getElem?_drop, Nat.add_zero]
  rw [hbody q, h.body, ← hbody p]

theorem payload (h : SameContent p q) : q.payload = p.payload := by
  have hbody (p : WirePacket) : p.payload = p.body.drop 1 := by
    rw [WirePacket.payload, WirePacket.body, List.drop_drop]
    rfl
  rw [hbody q, h.body, ← hbody p]

theorem compressed (h : SameContent p q) : q.compressed = p.compressed := by
  rw [WirePacket.compressed, WirePacket.compressed, h.verbByte]

theorem verb (h : SameContent p q) : q.verb = p.verb := by
  rw [WirePacket.verb, WirePacket.verb, h.verbByte]

end SameContent

theorem sameContent_setFlags (p : WirePacket) (b : UInt8) :
    SameContent p (p.setByte packetIdxFlags b) where
  head := List.take_set_of_le le_rfl
  body := List.drop_set_of_lt (by decide)

theorem flags_setFlags (p : WirePacket) (b : UInt8) : (p.setByte packetIdxFlags b).flags = b := by
  have hlt : packetIdxFlags < p.buf.length := Nat.lt_of_lt_of_le (by decide) p.header
  rw [flags, setByte, List.getD_eq_getElem?_getD, List.getElem?_set_self hlt]
  rfl

theorem length_take_buf (p : WirePacket) {n : Nat} (hn : n ≤ 28) :
    (p.buf.take n).length = n :=
  List.length_take_of_le (hn.trans p.header)

theorem buf_setMac (p : WirePacket) (mac : ByteVec 8) :
    (p.setMac mac).buf =
      p.buf.take packetIdxMac ++ (mac.val ++ p.buf.drop packetIdxVerb) :=
  List.append_assoc _ _ _

theorem take_setMac (p : WirePacket) (mac : ByteVec 8) :
    (p.setMac mac).buf.take packetIdxMac = p.buf.take packetIdxMac := by
  rw [buf_setMac]
  exact List.take_left' (p.length_take_buf (by decide))

theorem mac_setMac (p : WirePacket) (mac : ByteVec 8) : (p.setMac mac).mac = mac.val := by
  rw [WirePacket.mac, slice, buf_setMac, List.drop_left' (p.length_take_buf (by decide))]
  exact List.take_left' mac.length_val

theorem body_setMac (p : WirePacket) (mac : ByteVec 8) : (p.setMac mac).body = p.body := by
  refine List.drop_left' ?_
  rw [List.length_append, p.length_take_buf (by decide), mac.length_val]
  rfl

theorem length_setMac (p : WirePacket) (mac : ByteVec 8) :
    (p.setMac mac).buf.length = p.buf.length := by
  have := p.header
  rw [packetHeaderLen, packetIdxPayload] at this
  rw [setMac, List.length_append, List.length_append, List.length_drop,
    p.length_take_buf (by decide), mac.length_val, packetIdxMac, packetIdxVerb]
  omega

theorem take_crypt (p : WirePacket) (key : SymmetricKey) :
    (p.crypt key).buf.take packetIdxVerb = p.buf.take packetIdxVerb :=
  List.take_left' (p.length_take_buf (by decide))

theorem body_crypt (p : WirePacket) (key : SymmetricKey) :
    (p.crypt key).body = ((p.keyStream key).xor p.body).2 :=
  List.drop_left' (p.length_take_buf (by decide))

theorem length_crypt (p : WirePacket) (key : SymmetricKey) :
    (p.crypt key).buf.length = p.buf.length := by
  have := p.header
  rw [packetHeaderLen, packetIdxPayload] at this
  rw [crypt, setBody, List.length_append, SalsaStream.length_xor, p.length_take_buf (by decide),
    body, List.length_drop, packetIdxVerb]
  omega

/-! ## Armor and back -/

/-- Two packets with one header up to the flags, and one length: they have the same keys. -/
structure SameHeader (p q : WirePacket) : Prop where
  head : q.buf.take packetIdxMac = p.buf.take packetIdxMac
  length : q.buf.length = p.buf.length

namespace SameHeader

theorem trans (h : SameHeader p q) (h' : SameHeader q r) : SameHeader p r :=
  ⟨h'.head.trans h.head, h'.length.trans h.length⟩

theorem flags (h : SameHeader p q) : q.flags = p.flags := getD_of_take h.head (by decide)

theorem cipher (h : SameHeader p q) : q.cipher = p.cipher := by
  rw [WirePacket.cipher, WirePacket.cipher, h.flags]

theorem take_flags (h : SameHeader p q) :
    q.buf.take packetIdxFlags = p.buf.take packetIdxFlags := by
  have htake (p : WirePacket) :
      p.buf.take packetIdxFlags = (p.buf.take packetIdxMac).take packetIdxFlags := by
    rw [List.take_take]
    rfl
  rw [htake q, h.head, ← htake p]

theorem mangleKey (h : SameHeader p q) (key : SymmetricKey) :
    q.mangleKey key = p.mangleKey key := by
  have htake : q.buf.take 18 = p.buf.take 18 := h.take_flags
  rw [WirePacket.mangleKey, WirePacket.mangleKey, htake, h.flags, h.length]

theorem iv (h : SameHeader p q) : q.iv = p.iv := slice_of_take h.head (by decide)

theorem keyStream (h : SameHeader p q) (key : SymmetricKey) :
    q.keyStream key = p.keyStream key := by
  rw [WirePacket.keyStream, WirePacket.keyStream, h.mangleKey, h.iv]

theorem macKey (h : SameHeader p q) (key : SymmetricKey) : q.macKey key = p.macKey key :=
  Subtype.ext (by simp only [WirePacket.macKey, h.mangleKey, h.iv])

theorem tag (h : SameHeader p q) (hbody : q.body = p.body) (key : SymmetricKey) :
    q.tag key = p.tag key :=
  Subtype.ext (by simp only [WirePacket.tag, h.macKey, hbody])

end SameHeader

theorem sameHeader_setMac (p : WirePacket) (mac : ByteVec 8) : SameHeader p (p.setMac mac) :=
  ⟨p.take_setMac mac, p.length_setMac mac⟩

theorem sameHeader_crypt (p : WirePacket) (key : SymmetricKey) : SameHeader p (p.crypt key) := by
  refine ⟨?_, p.length_crypt key⟩
  have htake (p : WirePacket) :
      p.buf.take packetIdxMac = (p.buf.take packetIdxVerb).take packetIdxMac := by
    rw [List.take_take]
    rfl
  rw [htake (p.crypt key), p.take_crypt key, ← htake p]

theorem ctEq_self (xs : Bytes) : ctEq xs xs = true := by
  have hfold (n : Nat) : (List.replicate n (0 : UInt8)).foldl (· ||| ·) 0 = 0 := by
    induction n with
    | zero => rfl
    | succ n ih => exact ih
  simp [ctEq, hfold]

theorem cipher_setCipher (p : WirePacket) :
    (p.setCipher .c25519Poly1305Salsa2012).cipher = .ok .c25519Poly1305Salsa2012 := by
  have hbits : ∀ f : UInt8, (((f &&& 0xc7) ||| ((1 : UInt8) <<< (3 : UInt8))) &&& 0x38) >>>
      (3 : UInt8) = 1 := by
    rintro ⟨⟨f⟩⟩
    revert f
    decide +kernel
  rw [WirePacket.cipher, setCipher, flags_setFlags]
  exact congrArg CipherSuite.fromBits (hbits p.flags)

/-- The receiver of an encrypted packet reads what the sender put in. -/
theorem dearmor_armor (p : WirePacket) (key : SymmetricKey) :
    ∃ q, (p.armor key true).dearmor key = .ok q ∧ SameContent p q := by
  let p₁ := p.setCipher .c25519Poly1305Salsa2012
  let a := (p₁.crypt key).setMac ((p₁.crypt key).tag key)
  have hhead : SameHeader p₁ a := (p₁.sameHeader_crypt key).trans (sameHeader_setMac _ _)
  have hbody : a.body = ((p₁.keyStream key).xor p₁.body).2 := by
    rw [body_setMac, body_crypt]
  have htag : a.tag key = (p₁.crypt key).tag key :=
    (sameHeader_setMac _ _).tag (body_setMac _ _) key
  refine ⟨a.crypt key, ?_, ?_⟩
  · change a.dearmor key = _
    unfold dearmor
    rw [hhead.cipher, cipher_setCipher, htag, mac_setMac, ctEq_self]
    rfl
  · have hplain : (a.crypt key).body = p₁.body := by
      rw [body_crypt, hhead.keyStream, hbody, SalsaStream.xor_xor]
    refine (sameContent_setFlags p _).trans ⟨?_, hplain⟩
    exact ((hhead.trans (a.sameHeader_crypt key))).take_flags

/-- The cipher bits of an armored packet are in the clear. -/
theorem cipher_armor (p : WirePacket) (key : SymmetricKey) :
    (p.armor key true).cipher = .ok .c25519Poly1305Salsa2012 := by
  let p₁ := p.setCipher .c25519Poly1305Salsa2012
  have hhead : SameHeader p₁ (p.armor key true) :=
    (p₁.sameHeader_crypt key).trans (sameHeader_setMac _ _)
  rw [hhead.cipher, cipher_setCipher]

theorem flags_armor (p : WirePacket) (key : SymmetricKey) :
    (p.armor key true).flags = (p.flags &&& 0xc7) ||| ((1 : UInt8) <<< (3 : UInt8)) := by
  let p₁ := p.setCipher .c25519Poly1305Salsa2012
  have hhead : SameHeader p₁ (p.armor key true) :=
    (p₁.sameHeader_crypt key).trans (sameHeader_setMac _ _)
  exact hhead.flags.trans (flags_setFlags p _)

theorem length_armor (p : WirePacket) (key : SymmetricKey) :
    (p.armor key true).len = p.len := by
  have hset : (p.setCipher .c25519Poly1305Salsa2012).buf.length = p.buf.length :=
    List.length_set
  exact (length_setMac _ _).trans ((length_crypt _ key).trans hset)

theorem take_flags_armor (p : WirePacket) (key : SymmetricKey) :
    (p.armor key true).buf.take packetIdxFlags = p.buf.take packetIdxFlags := by
  let p₁ := p.setCipher .c25519Poly1305Salsa2012
  have hhead : SameHeader p₁ (p.armor key true) :=
    (p₁.sameHeader_crypt key).trans (sameHeader_setMac _ _)
  rw [hhead.take_flags]
  exact (sameContent_setFlags p _).head

/-! ## Compressed payloads -/

/-- A packet that carries data: as its payload, or compressed. -/
inductive Carries (p : WirePacket) (data : Bytes) : Prop where
  | plain (hc : p.compressed = false) (hp : p.payload = data)
  | packed (hc : p.compressed = true) (hp : p.payload = lz4LiteralEncode data)

/-- What arrives of a packet that carries data: its addresses, its id, its verb and the data. -/
structure Arrives (p : WirePacket) (data : Bytes) (got : WirePacket) : Prop where
  source : got.source = p.source
  dest : got.dest = p.dest
  packetId : got.packetId = p.packetId
  verb : got.verb = p.verb
  payload : got.payload = data

theorem take_setPayload (p : WirePacket) (data : Bytes) :
    (p.setPayload data).buf.take packetIdxPayload = p.buf.take packetIdxPayload :=
  List.take_left' (p.length_take_buf (by decide))

theorem payload_setPayload (p : WirePacket) (data : Bytes) : (p.setPayload data).payload = data :=
  List.drop_left' (p.length_take_buf (by decide))

theorem verbByte_setCompressed (p : WirePacket) :
    (p.setCompressed false).verbByte = p.verbByte &&& ~~~verbFlagCompressed := by
  have hlt : packetIdxVerb < p.buf.length := p.header
  rw [verbByte, setCompressed, setByte, List.getD_eq_getElem?_getD, List.getElem?_set_self hlt]
  rfl

theorem verb_setCompressed (p : WirePacket) : (p.setCompressed false).verb = p.verb := by
  have hbits : ∀ b : UInt8, (b &&& ~~~verbFlagCompressed) &&& 0x1f = b &&& 0x1f := by
    rintro ⟨⟨b⟩⟩
    revert b
    decide +kernel
  rw [verb, verb, verbByte_setCompressed, hbits]

/-- A payload put in place, with the compressed flag off: the rest of the packet stays. -/
theorem arrives_unpacked {data : Bytes} (hq : SameContent p q) :
    Arrives p data ((q.setPayload data).setCompressed false) := by
  have hpay (n : Nat) (hn : n ≤ packetIdxPayload) :
      (q.setPayload data).buf.take n = q.buf.take n := by
    rw [← Nat.min_eq_left hn, ← List.take_take, take_setPayload, List.take_take]
  have hset : ((q.setPayload data).setCompressed false).buf.take packetIdxFlags =
      (q.setPayload data).buf.take packetIdxFlags :=
    List.take_set_of_le (by decide)
  have hhead := (hset.trans (hpay _ (by decide))).trans hq.head
  refine ⟨congrArg be40 (slice_of_take hhead (by decide)),
    congrArg be40 (slice_of_take hhead (by decide)),
    congrArg ofBE64 (slice_of_take hhead (by decide)), ?_, ?_⟩
  · have hbyte : (q.setPayload data).verbByte = q.verbByte :=
      getD_of_take (hpay packetIdxPayload le_rfl) (by decide)
    rw [verb_setCompressed, verb, hbyte]
    exact hq.verb
  · have hdrop : ((q.setPayload data).setCompressed false).payload =
        (q.setPayload data).payload :=
      List.drop_set_of_lt (by decide)
    rw [hdrop, payload_setPayload]

/-- Behind the armor the receiver finds what the packet carries. -/
theorem Carries.uncompress {data : Bytes} (h : Carries p data) (hq : SameContent p q)
    (hlen : p.len ≤ maxPacketLength) :
    ∃ got, q.uncompress = .ok got ∧ Arrives p data got := by
  cases h with
  | plain hc hp =>
    refine ⟨q, ?_, hq.source, hq.dest, hq.packetId, hq.verb, hq.payload.trans hp⟩
    rw [WirePacket.uncompress, hq.compressed, if_pos hc]
  | packed hc hp =>
    have hcap : data.length ≤ maxPacketLength - packetIdxPayload := by
      have hpacked := length_lz4LiteralEncode data
      rw [← hp, payload, List.length_drop] at hpacked
      rw [len] at hlen
      omega
    refine ⟨_, ?_, arrives_unpacked hq⟩
    rw [WirePacket.uncompress, hq.compressed, if_neg (by simp [hc]), hq.payload, hp,
      lz4BlockDecode_literalEncode hcap]
    rfl

end WirePacket

end RustCrash.ZeroTier
