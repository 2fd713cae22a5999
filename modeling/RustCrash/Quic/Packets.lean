import RustCrash.Proto.Addr
import RustCrash.Quic.Varint

/-
  The datagrams of Hysteria2 and of TUIC v5.
-/

/-! ## The UDP message of Hysteria2

The UDP message of Hysteria2 (`proto/hysteria2.rs`): `session || packet || frag_id ||
frag_count || varint(len) || addr || data`. Every fragment repeats the address, as text.

The reader takes addresses of 1 to 2048 bytes. What it makes of a message depends on the
address alone (`parseUdpMessage_header`), up to the data behind it. -/

namespace RustCrash.Quic

open Lib

/-- `MAX_ADDRESS_LENGTH`. -/
def maxAddressLength : Nat := 2048

structure UdpMessage where
  sessionId : UInt32
  packetId : UInt16
  fragId : UInt8
  fragCount : UInt8
  /-- `host:port`. -/
  addr : Str
  data : Bytes

def udpMessageHeader (sessionId : UInt32) (packetId : UInt16) (fragId fragCount : UInt8)
    (addr : Str) : Bytes :=
  be32 sessionId ++ be16 packetId ++ [fragId, fragCount] ++ writeVarint (utf8 addr).length ++
    utf8 addr

/-- The address and the data. -/
def parseUdpBody (body : Bytes) : Result (Str × Bytes) := do
  let (addrLen, n) ← okOr (readVarint body) (.protocol "udp msg: short addr len")
  ensure (¬ (addrLen = 0 ∨ maxAddressLength < addrLen))
    (.protocol "udp msg: invalid address length")
  let addr ← okOr (getRange body n addrLen) (.protocol "udp msg: short address")
  let addr ← okOr (fromUtf8 addr) (.protocol "udp msg: bad utf-8")
  return (addr, body.drop (n + addrLen))

def parseUdpMessage (msg : Bytes) : Result UdpMessage :=
  match msg with
  | s0 :: s1 :: s2 :: s3 :: p0 :: p1 :: fragId :: fragCount :: body => do
    let (addr, data) ← parseUdpBody body
    return ⟨ofBE32 [s0, s1, s2, s3], ofBE16 [p0, p1], fragId, fragCount, addr, data⟩
  | _ => .error (.protocol "udp msg: short header")

/-- What the reader makes of an address, and the bytes of it that it takes for data: those of
    an address whose length does not fit a varint. -/
def wireAddr (addr : Str) : Result (Str × Bytes) := do
  let len := (utf8 addr).length % 2 ^ 62
  ensure (¬ (len = 0 ∨ maxAddressLength < len)) (.protocol "udp msg: invalid address length")
  let s ← okOr (fromUtf8 ((utf8 addr).take len)) (.protocol "udp msg: bad utf-8")
  return (s, (utf8 addr).drop len)

theorem be32_quad (x : UInt32) :
    ∃ a b c d, be32 x = [a, b, c, d] ∧ ofBE32 [a, b, c, d] = x := by
  have hx : be32 x = [UInt8.ofNat (x.toNat / 256 ^ 3), UInt8.ofNat (x.toNat / 256 ^ 2),
    UInt8.ofNat (x.toNat / 256 ^ 1), UInt8.ofNat (x.toNat / 256 ^ 0)] := rfl
  exact ⟨_, _, _, _, hx, by rw [← hx, ofBE32_be32]⟩

theorem parseUdpBody_header (addr : Str) (data : Bytes) :
    parseUdpBody (writeVarint (utf8 addr).length ++ (utf8 addr ++ data)) =
      (wireAddr addr).map fun r => (r.1, r.2 ++ data) := by
  unfold parseUdpBody wireAddr
  rw [readVarint_writeVarint, okOr_some, bind_ok]
  dsimp only
  have hle : (utf8 addr).length % 2 ^ 62 ≤ (utf8 addr).length := Nat.mod_le _ _
  by_cases hc : (utf8 addr).length % 2 ^ 62 = 0 ∨
      maxAddressLength < (utf8 addr).length % 2 ^ 62
  · rw [ensure_of_not (not_not_intro hc)]
    rfl
  · have hrange : getRange (writeVarint (utf8 addr).length ++ (utf8 addr ++ data))
        (varintLen (utf8 addr).length) ((utf8 addr).length % 2 ^ 62) =
        some ((utf8 addr).take ((utf8 addr).length % 2 ^ 62)) := by
      have h := getRange_append (writeVarint (utf8 addr).length) (utf8 addr ++ data) 0
        ((utf8 addr).length % 2 ^ 62)
      rw [length_writeVarint, Nat.add_zero] at h
      rw [h]
      unfold getRange slice
      rw [if_pos (by rw [List.length_append]; omega), List.drop_zero,
        List.take_append_of_le_length hle]
    have hdrop : (writeVarint (utf8 addr).length ++ (utf8 addr ++ data)).drop
        (varintLen (utf8 addr).length + (utf8 addr).length % 2 ^ 62) =
        (utf8 addr).drop ((utf8 addr).length % 2 ^ 62) ++ data := by
      rw [← length_writeVarint, List.drop_append, List.drop_of_length_le (by omega),
        Nat.add_sub_cancel_left, List.nil_append, List.drop_append_of_le_length hle]
    rw [ensure_of hc, hrange, hdrop, okOr_some]
    simp only [bind_ok]
    cases fromUtf8 ((utf8 addr).take ((utf8 addr).length % 2 ^ 62)) with
    | none => rfl
    | some s => rfl

/-- A message is read back as its address is. -/
theorem parseUdpMessage_header (sessionId : UInt32) (packetId : UInt16) (fragId fragCount : UInt8)
    (addr : Str) (data : Bytes) :
    parseUdpMessage (udpMessageHeader sessionId packetId fragId fragCount addr ++ data) =
      (wireAddr addr).map fun r => ⟨sessionId, packetId, fragId, fragCount, r.1, r.2 ++ data⟩ := by
  obtain ⟨s0, s1, s2, s3, hs, hs'⟩ := be32_quad sessionId
  obtain ⟨p0, p1, hp, hp'⟩ := be16_pair packetId
  unfold udpMessageHeader
  rw [hs, hp]
  simp only [List.cons_append, List.nil_append, List.append_assoc, parseUdpMessage,
    parseUdpBody_header, hs', hp']
  cases wireAddr addr with
  | error e => rfl
  | ok r => rfl

end RustCrash.Quic

/-! ## The Packet command of TUIC

`proto/tuic.rs` (the server's encoder in
`inbound/proxy_server/tuic.rs` is its copy): `VER || TYPE(2) || ASSOC_ID || PKT_ID ||
FRAG_TOTAL || FRAG_ID || SIZE || ADDR || DATA`. Only the first fragment of a message carries
an address.

A domain of more than 255 bytes is cut, and what is read back is in lower case; a cut inside a
character leaves no address to read (`wireHost`). -/

namespace RustCrash.Quic

open Lib Lib.Net Routing Proto

/-! ## Constants -/

/-- `VERSION`. -/
def tuicVersion : UInt8 := 5

def cmdAuthenticate : UInt8 := 0x00
def cmdConnect : UInt8 := 0x01
def cmdPacket : UInt8 := 0x02
def cmdDissociate : UInt8 := 0x03
def cmdHeartbeat : UInt8 := 0x04

def atypFqdn : UInt8 := 0x00
def atypIpv4 : UInt8 := 0x01
def atypIpv6 : UInt8 := 0x02
def atypEmpty : UInt8 := 0xff

/-! ## Addresses -/

def encodeHost : Host → Bytes
  | .domain d => atypFqdn :: UInt8.ofNat (min (utf8 d).length 255) ::
      (utf8 d).take (min (utf8 d).length 255)
  | .ip (.v4 v4) => atypIpv4 :: octets4 v4
  | .ip (.v6 v6) => atypIpv6 :: octets6 v6

/-- The port is left out for the empty family. -/
def encodeAddrPort : Option NetAddr → Bytes
  | none => [atypEmpty]
  | some t => encodeHost t.host ++ be16 t.port

/-- The host behind the family byte, and the offset behind it. -/
def decodeHost (atyp : UInt8) (data : Bytes) : Result (Host × Nat) :=
  if atyp = atypFqdn then do
    let len ← okOr data[1]? (.protocol "tuic addr: short domain length")
    let bytes ← okOr (getRange data 2 len.toNat) (.protocol "tuic addr: short domain")
    let s ← okOr (fromUtf8 bytes) (.protocol "tuic addr: domain not utf-8")
    return (.domain (Str.asciiLower s), 2 + len.toNat)
  else if atyp = atypIpv4 then do
    let o ← okOr (getRange data 1 4) (.protocol "tuic addr: short ipv4")
    return (.ip (.v4 (ofOctets4 o)), 5)
  else if atyp = atypIpv6 then do
    let o ← okOr (getRange data 1 16) (.protocol "tuic addr: short ipv6")
    return (.ip (.v6 (ofOctets6 o)), 17)
  else .error (.protocol s!"tuic addr: bad atyp 0x{txt (hex atyp.toNat)}")

/-- The address, `none` for the empty family, and the bytes consumed. -/
def decodeAddrPort (data : Bytes) : Result (Option NetAddr × Nat) := do
  let atyp ← okOr data.head? (.protocol "tuic addr: empty")
  if atyp = atypEmpty then .ok (none, 1)
  else
    let (host, off) ← decodeHost atyp data
    let port ← okOr (getRange data off 2) (.protocol "tuic addr: short port")
    return (some ⟨host, ofBE16 port⟩, off + 2)

/-- A host after the wire; `none` when the cut left bytes that are no text. -/
def wireHost : Host → Option Host
  | .domain d => (fromUtf8 ((utf8 d).take 255)).map fun s => .domain (Str.asciiLower s)
  | .ip a => some (.ip a)

theorem take_min_length {α : Type} (xs : List α) (n : Nat) : xs.take (min xs.length n) =
    xs.take n := by
  rcases Nat.le_total xs.length n with h | h
  · rw [Nat.min_eq_left h, List.take_length, List.take_of_length_le h]
  · rw [Nat.min_eq_right h]

theorem decodeHost_encodeHost (h : Host) (rest : Bytes) :
    (encodeHost h).head?.isSome ∧ ∀ atyp, (encodeHost h).head? = some atyp →
      atyp ≠ atypEmpty ∧ decodeHost atyp (encodeHost h ++ rest) =
        (okOr (wireHost h) (.protocol "tuic addr: domain not utf-8")).map
          fun host => (host, (encodeHost h).length) := by
  cases h with
  | domain d =>
    refine ⟨rfl, fun atyp ha => ?_⟩
    cases ha
    refine ⟨by decide, ?_⟩
    have hlen : (UInt8.ofNat (min (utf8 d).length 255)).toNat = min (utf8 d).length 255 :=
      UInt8.toNat_ofNat_of_lt' (by simp [UInt8.size])
    have htake : ((utf8 d).take 255).length = min (utf8 d).length 255 := by
      rw [List.length_take, Nat.min_comm]
    have hrange := getRange_here ((utf8 d).take 255) rest
    rw [htake] at hrange
    unfold decodeHost
    rw [if_pos rfl]
    simp only [encodeHost, List.cons_append, List.getElem?_cons_succ, List.getElem?_cons_zero,
      okOr_some, bind_ok, hlen, getRange_cons, take_min_length, hrange, wireHost,
      List.length_cons, htake]
    cases fromUtf8 ((utf8 d).take 255) with
    | none => rfl
    | some s =>
      simp only [okOr_some, bind_ok, Option.map_some, pure_eq, Except.map]
      rw [show 2 + min (utf8 d).length 255 = min (utf8 d).length 255 + 1 + 1 by omega]
  | ip a =>
    cases a with
    | v4 v4 =>
      refine ⟨rfl, fun atyp ha => ?_⟩
      cases ha
      refine ⟨by decide, ?_⟩
      have hrange := getRange_here (octets4 v4) rest
      rw [length_octets4] at hrange
      unfold decodeHost
      rw [if_neg (by decide), if_pos rfl]
      simp only [encodeHost, List.cons_append, getRange_cons, hrange, okOr_some, bind_ok,
        wireHost, ofOctets4_octets4, List.length_cons, length_octets4, pure_eq, Except.map]
    | v6 v6 =>
      refine ⟨rfl, fun atyp ha => ?_⟩
      cases ha
      refine ⟨by decide, ?_⟩
      have hrange := getRange_here (octets6 v6) rest
      rw [length_octets6] at hrange
      unfold decodeHost
      rw [if_neg (by decide), if_neg (by decide), if_pos rfl]
      simp only [encodeHost, List.cons_append, getRange_cons, hrange, okOr_some, bind_ok,
        wireHost, ofOctets6_octets6, List.length_cons, length_octets6, pure_eq, Except.map]

/-- An address is read back with what follows it left. -/
theorem decodeAddrPort_encodeAddrPort (t : NetAddr) (rest : Bytes) :
    decodeAddrPort (encodeAddrPort (some t) ++ rest) =
      (okOr (wireHost t.host) (.protocol "tuic addr: domain not utf-8")).map
        fun host => (some ⟨host, t.port⟩, (encodeAddrPort (some t)).length) := by
  obtain ⟨hsome, hhead⟩ := decodeHost_encodeHost t.host (be16 t.port ++ rest)
  obtain ⟨atyp, ha⟩ := Option.isSome_iff_exists.mp hsome
  obtain ⟨hne, hdec⟩ := hhead atyp ha
  have hport := getRange_append (encodeHost t.host) (be16 t.port ++ rest) 0 2
  rw [Nat.add_zero, ← length_be16 t.port, getRange_here (be16 t.port) rest,
    length_be16] at hport
  unfold decodeAddrPort encodeAddrPort
  rw [List.append_assoc, List.head?_append, ha]
  simp only [Option.some_or, okOr_some, bind_ok, if_neg hne, hdec]
  cases wireHost t.host with
  | none => rfl
  | some host =>
    simp only [okOr_some, Except.map, bind_ok, hport, pure_eq, ofBE16_be16, List.length_append,
      length_be16]

/-! ## Packet frames -/

structure PacketFrame where
  sessionId : UInt16
  packetId : UInt16
  fragId : UInt8
  fragTotal : UInt8
  /-- `none` on the fragments behind the first. -/
  addr : Option NetAddr
  data : Bytes

def encodePacketFrame (sessionId packetId : UInt16) (fragId fragTotal : UInt8)
    (target : Option NetAddr) (data : Bytes) : Bytes :=
  [tuicVersion, cmdPacket] ++ be16 sessionId ++ be16 packetId ++ [fragTotal, fragId] ++
    be16 (UInt16.ofNat data.length) ++ encodeAddrPort target ++ data

def decodePacketFrame (msg : Bytes) : Result PacketFrame :=
  match msg with
  | ver :: cmd :: s0 :: s1 :: p0 :: p1 :: fragTotal :: fragId :: l0 :: l1 :: body => do
    ensure (ver = tuicVersion)
      (.protocol s!"tuic packet: bad version {txt (Str.decimal ver.toNat)}")
    ensure (cmd = cmdPacket)
      (.protocol s!"tuic packet: bad command {txt (Str.decimal cmd.toNat)}")
    let (addr, n) ← decodeAddrPort body
    let data ← okOr (getRange body n (ofBE16 [l0, l1]).toNat)
      (.protocol "tuic packet: short data")
    return ⟨ofBE16 [s0, s1], ofBE16 [p0, p1], fragId, fragTotal, addr, data⟩
  | _ => .error (.protocol "tuic packet: short header")

/-- A frame with an address is read back, when its data fits the size field. -/
theorem decodePacketFrame_encodePacketFrame (sessionId packetId : UInt16)
    (fragId fragTotal : UInt8) (t : NetAddr) {data : Bytes} (h : data.length < 65536) :
    decodePacketFrame (encodePacketFrame sessionId packetId fragId fragTotal (some t) data) =
      (okOr (wireHost t.host) (.protocol "tuic addr: domain not utf-8")).map
        fun host => ⟨sessionId, packetId, fragId, fragTotal, some ⟨host, t.port⟩, data⟩ := by
  obtain ⟨s0, s1, hs, hs'⟩ := be16_pair sessionId
  obtain ⟨p0, p1, hp, hp'⟩ := be16_pair packetId
  obtain ⟨l0, l1, hl, hl'⟩ := be16_pair (UInt16.ofNat data.length)
  have hlen : (UInt16.ofNat data.length).toNat = data.length := UInt16.toNat_ofNat_of_lt' h
  have hdata := getRange_behind (encodeAddrPort (some t)) data
  unfold encodePacketFrame
  rw [hs, hp, hl]
  simp only [List.cons_append, List.nil_append, decodePacketFrame, ensure_of, bind_ok,
    decodeAddrPort_encodeAddrPort, hs', hp', hl', hlen]
  cases wireHost t.host with
  | none => rfl
  | some host => simp only [okOr_some, Except.map, bind_ok, hdata, pure_eq]

/-- A fragment without an address. -/
theorem decodePacketFrame_later (sessionId packetId : UInt16) (fragId fragTotal : UInt8)
    {data : Bytes} (h : data.length < 65536) :
    decodePacketFrame (encodePacketFrame sessionId packetId fragId fragTotal none data) =
      .ok ⟨sessionId, packetId, fragId, fragTotal, none, data⟩ := by
  obtain ⟨s0, s1, hs, hs'⟩ := be16_pair sessionId
  obtain ⟨p0, p1, hp, hp'⟩ := be16_pair packetId
  obtain ⟨l0, l1, hl, hl'⟩ := be16_pair (UInt16.ofNat data.length)
  have hlen : (UInt16.ofNat data.length).toNat = data.length := UInt16.toNat_ofNat_of_lt' h
  have hdata := getRange_behind [atypEmpty] data
  unfold encodePacketFrame
  rw [hs, hp, hl]
  simp only [List.cons_append, List.nil_append, decodePacketFrame, ensure_of, bind_ok,
    encodeAddrPort, decodeAddrPort, List.head?_cons, okOr_some, if_true, hs', hp', hl', hlen,
    List.length_cons, List.length_nil] at hdata ⊢
  rw [hdata]
  rfl

end RustCrash.Quic
