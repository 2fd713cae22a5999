import RustCrash.Lib.Checked
import RustCrash.Lib.ByteVec
import RustCrash.Lib.Net

/-
  `classify_packet` with every index and slice checked: none leaves the packet
  (`classifyPacketChecked_eq`). What it takes for TCP, UDP or an echo request has its transport
  header inside the buffer and inside the IP length.

  For IPv6 the walk stops at a later fragment, so that no such packet is taken. For IPv4 the
  fragment offset is not read: `classify_safe_iff` says which packets are taken for what they
  are not.
-/

/-! ## What a packet is

What one raw packet of the tunnel is: `classify_packet` of `tun/netstack.rs`, for both IP
families, with the walk along the IPv6 extension headers.

A header of the chain is at least 8 bytes long, so the walk ends at the end of the packet. -/

namespace RustCrash.Tun

open Lib

/-- `pkt[i]`; every index below is checked against the length first. -/
def byteAt (pkt : Bytes) (i : Nat) : UInt8 := pkt.getD i 0

/-- `u16::from_be_bytes([pkt[i], pkt[i + 1]])`. -/
def be16At (pkt : Bytes) (i : Nat) : UInt16 := UInt16.ofNat (ofBE (slice pkt i 2))

inductive Classified where
  /-- `ext`: the transport header sat behind IPv6 extension headers. -/
  | tcp (src dst : SocketAddr) (syn ext : Bool)
  | udp (src dst : SocketAddr) (payload : Bytes) (ext : Bool)
  | icmpEchoRequest (src dst : IpAddr) (v6 : Bool)
  | other (version proto : UInt8)
  | unsupported (version : UInt8)
  | malformed
  deriving DecidableEq

def flagSyn : UInt8 := 0x02
def icmpv4EchoRequest : UInt8 := 8
def icmpv6EchoRequest : UInt8 := 128
def ipprotoIcmpv4 : UInt8 := 1
def ipprotoIcmpv6 : UInt8 := 58

/-- The TCP header at `off`, in a packet that ends at `stop`. -/
def classifyTcp (pkt : Bytes) (src dst : IpAddr) (off stop : Nat) (ext : Bool) : Classified :=
  if stop < off + 20 then .malformed
  else
    .tcp (.new src (be16At pkt off)) (.new dst (be16At pkt (off + 2)))
      (byteAt pkt (off + 13) &&& flagSyn != 0) ext

/-- The UDP header at `off`, in a packet that ends at `stop`. -/
def classifyUdp (pkt : Bytes) (src dst : IpAddr) (off stop : Nat) (ext : Bool) : Classified :=
  if stop < off + 8 then .malformed
  else
    let udpLen := (be16At pkt (off + 4)).toNat
    let payloadStart := off + 8
    let payloadEnd := max (min (payloadStart + (udpLen - 8)) stop) payloadStart
    .udp (.new src (be16At pkt off)) (.new dst (be16At pkt (off + 2)))
      (slice pkt payloadStart (payloadEnd - payloadStart)) ext

def classifyV4 (pkt : Bytes) : Classified :=
  let ihl := (byteAt pkt 0 &&& 0x0f).toNat * 4
  if ihl < 20 ∨ pkt.length < 20 then .malformed
  else
    let totalLen := (be16At pkt 2).toNat
    if totalLen < ihl then .malformed
    else
      let stop := min totalLen pkt.length
      let proto := byteAt pkt 9
      let src := IpAddr.v4 (Net.ofOctets4 (slice pkt 12 4))
      let dst := IpAddr.v4 (Net.ofOctets4 (slice pkt 16 4))
      if proto = 6 then classifyTcp pkt src dst ihl stop false
      else if proto = 17 then classifyUdp pkt src dst ihl stop false
      else if proto = ipprotoIcmpv4 ∧ ihl + 8 ≤ stop ∧ byteAt pkt ihl = icmpv4EchoRequest then
        .icmpEchoRequest src dst false
      else .other 4 proto

/-! ## IPv6 -/

def ipv6Hopopts : UInt8 := 0
def ipv6Routing : UInt8 := 43
def ipv6Fragment : UInt8 := 44
def ipv6AuthHdr : UInt8 := 51
def ipv6DestOpts : UInt8 := 60
def ipv6Mobility : UInt8 := 135

/-- Where an extension-header chain ends up. -/
inductive UpperLayer where
  | upper (proto : UInt8) (off : Nat)
  /-- The chain ends without a parseable header. -/
  | none (proto : UInt8)
  | malformed

def isTransport (nh : UInt8) : Bool := nh == 6 || nh == 17 || nh == ipprotoIcmpv6

/-- The length of the extension header `nh` at `off`, or the end of the walk. -/
def headerLen (pkt : Bytes) (limit : Nat) (nh : UInt8) (off : Nat) : Except UpperLayer Nat :=
  if isTransport nh then .error (.upper nh off)
  else if nh = ipv6Hopopts ∧ off ≠ 40 then .error (.none ipv6Hopopts)
  else if nh = ipv6Hopopts ∨ nh = ipv6Routing ∨ nh = ipv6DestOpts ∨ nh = ipv6Mobility then
    if limit < off + 2 then .error .malformed
    else .ok (8 * ((byteAt pkt (off + 1)).toNat + 1))
  else if nh = ipv6Fragment then
    if limit < off + 8 then .error .malformed
    else if be16At pkt (off + 2) >>> 3 ≠ 0 then .error (.none (byteAt pkt off))
    else .ok 8
  else if nh = ipv6AuthHdr then
    if limit < off + 2 then .error .malformed
    else .ok (4 * ((byteAt pkt (off + 1)).toNat + 2))
  else .error (.none nh)

variable {pkt : Bytes} {src dst : SocketAddr}

theorem headerLen_pos {limit off len : Nat} {nh : UInt8} (h : headerLen pkt limit nh off = .ok len) :
    0 < len := by
  unfold headerLen at h
  split_ifs at h <;> cases h <;> omega

/-- The loop of `ipv6_upper_layer`. -/
def upperLayerFrom (pkt : Bytes) (limit : Nat) (nh : UInt8) (off : Nat) : UpperLayer :=
  if limit ≤ off then if isTransport nh then .malformed else .none nh
  else
    match _h : headerLen pkt limit nh off with
    | .error found => found
    | .ok len =>
      if limit < off + len then .malformed
      else upperLayerFrom pkt limit (byteAt pkt off) (off + len)
termination_by limit - off
decreasing_by
  have hpos := headerLen_pos _h
  omega

def ipv6UpperLayer (pkt : Bytes) (limit : Nat) : UpperLayer :=
  upperLayerFrom pkt limit (byteAt pkt 6) 40

def classifyV6 (pkt : Bytes) : Classified :=
  if pkt.length < 40 then .malformed
  else
    let payloadLen := (be16At pkt 4).toNat
    let stop := 40 + min payloadLen (pkt.length - 40)
    let src := IpAddr.v6 (Net.ofOctets6 (slice pkt 8 16))
    let dst := IpAddr.v6 (Net.ofOctets6 (slice pkt 24 16))
    match ipv6UpperLayer pkt stop with
    | .none proto => .other 6 proto
    | .malformed => .malformed
    | .upper nextHeader off =>
      let ext := decide (40 < off)
      if nextHeader = 6 then classifyTcp pkt src dst off stop ext
      else if nextHeader = 17 then classifyUdp pkt src dst off stop ext
      else if off + 8 ≤ stop ∧ byteAt pkt off = icmpv6EchoRequest then
        .icmpEchoRequest src dst true
      else .other 6 nextHeader

/-- Parse just enough of a packet to route it. -/
def classifyPacket (pkt : Bytes) : Classified :=
  match pkt.head? with
  | none => .malformed
  | some vihl =>
    let version := vihl >>> 4
    if version = 4 then classifyV4 pkt
    else if version = 6 then classifyV6 pkt
    else .unsupported version

/-! ## The ends of a TCP packet -/

theorem classifyTcp_plain {a b : IpAddr} {off stop : Nat} {x : Bool} {syn ext : Bool}
    (h : classifyTcp pkt a b off stop x = .tcp src dst syn ext) :
    src = .new src.ip src.port ∧ dst = .new dst.ip dst.port := by
  unfold classifyTcp at h
  split_ifs at h
  cases h
  simp

theorem classifyUdp_ne_tcp {a b : IpAddr} {off stop : Nat} {x : Bool} {syn ext : Bool} :
    classifyUdp pkt a b off stop x ≠ .tcp src dst syn ext := by
  unfold classifyUdp
  dsimp only
  split_ifs <;> nofun

/-- The ends are an address and a port, without a flow label or a scope. -/
theorem classifyPacket_plain {syn ext : Bool} (h : classifyPacket pkt = .tcp src dst syn ext) :
    src = .new src.ip src.port ∧ dst = .new dst.ip dst.port := by
  unfold classifyPacket at h
  split at h
  · cases h
  · dsimp only at h
    split_ifs at h
    · unfold classifyV4 at h
      dsimp only at h
      split_ifs at h
      · exact classifyTcp_plain h
      · exact absurd h classifyUdp_ne_tcp
    · unfold classifyV6 at h
      dsimp only at h
      split_ifs at h
      split at h
      · cases h
      · cases h
      · split_ifs at h
        · exact classifyTcp_plain h
        · exact absurd h classifyUdp_ne_tcp

end RustCrash.Tun

/-! ## Every slice is inside -/

namespace RustCrash.Tun

open Lib

/-! ## Every access checked -/

variable {pkt : Bytes}

theorem getElem?_byteAt {i : Nat} (h : i < pkt.length) :
    pkt[i]? = some (byteAt pkt i) := getElem?_of_getD h

theorem wordChecked_be16At {i : Nat} (h : i + 1 < pkt.length) :
    wordChecked pkt i = some (be16At pkt i) := wordChecked_of_lt h

def classifyTcpChecked (pkt : Bytes) (src dst : IpAddr) (off stop : Nat) (ext : Bool) :
    Option Classified :=
  if stop < off + 20 then some .malformed
  else do
    let srcPort ← wordChecked pkt off
    let dstPort ← wordChecked pkt (off + 2)
    let flags ← pkt[off + 13]?
    return .tcp (.new src srcPort) (.new dst dstPort) (flags &&& flagSyn != 0) ext

def classifyUdpChecked (pkt : Bytes) (src dst : IpAddr) (off stop : Nat) (ext : Bool) :
    Option Classified :=
  if stop < off + 8 then some .malformed
  else do
    let srcPort ← wordChecked pkt off
    let dstPort ← wordChecked pkt (off + 2)
    let udpLen ← wordChecked pkt (off + 4)
    let payloadStart := off + 8
    let payloadEnd := max (min (payloadStart + (udpLen.toNat - 8)) stop) payloadStart
    let payload ← sliceChecked pkt payloadStart payloadEnd
    return .udp (.new src srcPort) (.new dst dstPort) payload ext

/-- The echo request at `off`: its type is read once its header is there. -/
def classifyEchoChecked (pkt : Bytes) (src dst : IpAddr) (v6 : Bool) (kind version proto : UInt8)
    (off stop : Nat) : Option Classified :=
  if stop < off + 8 then some (.other version proto)
  else do
    let b ← pkt[off]?
    return if b = kind then .icmpEchoRequest src dst v6 else .other version proto

def classifyV4Checked (pkt : Bytes) : Option Classified := do
  let vihl ← pkt[0]?
  let ihl := (vihl &&& 0x0f).toNat * 4
  if ihl < 20 ∨ pkt.length < 20 then some .malformed
  else do
    let totalLen ← wordChecked pkt 2
    if totalLen.toNat < ihl then some .malformed
    else do
      let stop := min totalLen.toNat pkt.length
      let proto ← pkt[9]?
      let srcOctets ← sliceChecked pkt 12 16
      let dstOctets ← sliceChecked pkt 16 20
      let src := IpAddr.v4 (Net.ofOctets4 srcOctets)
      let dst := IpAddr.v4 (Net.ofOctets4 dstOctets)
      if proto = 6 then classifyTcpChecked pkt src dst ihl stop false
      else if proto = 17 then classifyUdpChecked pkt src dst ihl stop false
      else if proto = ipprotoIcmpv4 then
        classifyEchoChecked pkt src dst false icmpv4EchoRequest 4 proto ihl stop
      else some (.other 4 proto)

def headerLenChecked (pkt : Bytes) (limit : Nat) (nh : UInt8) (off : Nat) :
    Option (Except UpperLayer Nat) :=
  if isTransport nh then some (.error (.upper nh off))
  else if nh = ipv6Hopopts ∧ off ≠ 40 then some (.error (.none ipv6Hopopts))
  else if nh = ipv6Hopopts ∨ nh = ipv6Routing ∨ nh = ipv6DestOpts ∨ nh = ipv6Mobility then
    if limit < off + 2 then some (.error .malformed)
    else do
      let units ← pkt[off + 1]?
      return .ok (8 * (units.toNat + 1))
  else if nh = ipv6Fragment then
    if limit < off + 8 then some (.error .malformed)
    else do
      let field ← wordChecked pkt (off + 2)
      if field >>> 3 ≠ 0 then do
        let following ← pkt[off]?
        return .error (.none following)
      else return .ok 8
  else if nh = ipv6AuthHdr then
    if limit < off + 2 then some (.error .malformed)
    else do
      let units ← pkt[off + 1]?
      return .ok (4 * (units.toNat + 2))
  else some (.error (.none nh))

/-- Inside the packet the lengths are read as they are. -/
theorem headerLenChecked_eq {limit off : Nat} (nh : UInt8) (hlimit : limit ≤ pkt.length) :
    headerLenChecked pkt limit nh off = some (headerLen pkt limit nh off) := by
  unfold headerLenChecked headerLen
  split_ifs with h1 h2 h3 h4 h5 h6 h7 h8 h9
  · rfl
  · rfl
  · rfl
  · rw [getElem?_byteAt (by omega)]
    rfl
  · rfl
  · rw [wordChecked_be16At (by omega), getElem?_byteAt (by omega)]
    simp only [Option.bind_eq_bind, Option.bind_some, if_pos h7]
    rfl
  · rw [wordChecked_be16At (by omega)]
    simp only [Option.bind_eq_bind, Option.bind_some, if_neg h7]
    rfl
  · rfl
  · rw [getElem?_byteAt (by omega)]
    rfl
  · rfl

/-- The loop of `ipv6_upper_layer`; a length of a header that could not be read ends it. -/
def upperLayerChecked (pkt : Bytes) (limit : Nat) (nh : UInt8) (off : Nat) : Option UpperLayer :=
  if limit ≤ off then some (if isTransport nh then .malformed else .none nh)
  else
    match headerLenChecked pkt limit nh off with
    | none => none
    | some (.error found) => some found
    | some (.ok len) =>
      if limit < off + len then some .malformed
      else if _h : 0 < len then
        match pkt[off]? with
        | none => none
        | some following => upperLayerChecked pkt limit following (off + len)
      else none
termination_by limit - off

theorem upperLayerChecked_eq {limit : Nat} (hlimit : limit ≤ pkt.length) (nh : UInt8) (off : Nat) :
    upperLayerChecked pkt limit nh off = some (upperLayerFrom pkt limit nh off) := by
  induction nh, off using upperLayerFrom.induct pkt limit with
  | case1 nh off hend hnh =>
    rw [upperLayerChecked, upperLayerFrom, if_pos hend, if_pos hend]
  | case2 nh off hend hnh =>
    rw [upperLayerChecked, upperLayerFrom, if_pos hend, if_pos hend]
  | case3 nh off hend found hlen =>
    rw [upperLayerChecked, upperLayerFrom, if_neg hend, if_neg hend,
      headerLenChecked_eq nh hlimit, hlen]
  | case4 nh off hend len hlen hpast =>
    rw [upperLayerChecked, upperLayerFrom, if_neg hend, if_neg hend,
      headerLenChecked_eq nh hlimit, hlen]
    simp only [if_pos hpast]
  | case5 nh off hend len hlen hpast ih =>
    rw [upperLayerChecked, upperLayerFrom, if_neg hend, if_neg hend,
      headerLenChecked_eq nh hlimit, hlen]
    simp only [if_neg hpast, dif_pos (headerLen_pos hlen), getElem?_byteAt (by omega : off < pkt.length)]
    exact ih

def classifyV6Checked (pkt : Bytes) : Option Classified :=
  if pkt.length < 40 then some .malformed
  else do
    let payloadLen ← wordChecked pkt 4
    let stop := 40 + min payloadLen.toNat (pkt.length - 40)
    let srcOctets ← sliceChecked pkt 8 24
    let dstOctets ← sliceChecked pkt 24 40
    let src := IpAddr.v6 (Net.ofOctets6 srcOctets)
    let dst := IpAddr.v6 (Net.ofOctets6 dstOctets)
    let nh ← pkt[6]?
    let found ← upperLayerChecked pkt stop nh 40
    match found with
    | .none proto => some (.other 6 proto)
    | .malformed => some .malformed
    | .upper nextHeader off =>
      let ext := decide (40 < off)
      if nextHeader = 6 then classifyTcpChecked pkt src dst off stop ext
      else if nextHeader = 17 then classifyUdpChecked pkt src dst off stop ext
      else classifyEchoChecked pkt src dst true icmpv6EchoRequest 6 nextHeader off stop

def classifyPacketChecked (pkt : Bytes) : Option Classified :=
  match pkt.head? with
  | none => some .malformed
  | some vihl =>
    let version := vihl >>> 4
    if version = 4 then classifyV4Checked pkt
    else if version = 6 then classifyV6Checked pkt
    else some (.unsupported version)

/-! ## No access leaves the packet -/

variable {pkt : Bytes} {off stop : Nat}

theorem classifyTcpChecked_eq (src dst : IpAddr) (ext : Bool) (hstop : stop ≤ pkt.length) :
    classifyTcpChecked pkt src dst off stop ext = some (classifyTcp pkt src dst off stop ext) := by
  unfold classifyTcpChecked classifyTcp
  split_ifs with h
  · rfl
  · rw [wordChecked_be16At (by omega), wordChecked_be16At (by omega), getElem?_byteAt (by omega)]
    rfl

theorem classifyUdpChecked_eq (src dst : IpAddr) (ext : Bool) (hstop : stop ≤ pkt.length) :
    classifyUdpChecked pkt src dst off stop ext = some (classifyUdp pkt src dst off stop ext) := by
  unfold classifyUdpChecked classifyUdp
  split_ifs with h
  · rfl
  · rw [wordChecked_be16At (by omega), wordChecked_be16At (by omega),
      wordChecked_be16At (by omega)]
    simp only [Option.bind_eq_bind, Option.bind_some]
    rw [sliceChecked_of_le_of_le (by omega) (by omega)]
    rfl

theorem classifyEchoChecked_eq (src dst : IpAddr) (v6 : Bool) (kind version proto : UInt8)
    (hstop : stop ≤ pkt.length) :
    classifyEchoChecked pkt src dst v6 kind version proto off stop =
      some (if off + 8 ≤ stop ∧ byteAt pkt off = kind then .icmpEchoRequest src dst v6
        else .other version proto) := by
  unfold classifyEchoChecked
  split_ifs with h h' h'
  · omega
  · rfl
  · rw [getElem?_byteAt (by omega)]
    simp [h'.2]
  · have hkind : byteAt pkt off ≠ kind := fun hk => h' ⟨by omega, hk⟩
    rw [getElem?_byteAt (by omega)]
    simp [hkind]

theorem classifyV4Checked_eq (h : pkt ≠ []) : classifyV4Checked pkt = some (classifyV4 pkt) := by
  have hpos := List.length_pos_iff.mpr h
  unfold classifyV4Checked classifyV4
  rw [getElem?_byteAt hpos, Option.bind_eq_bind, Option.bind_some]
  dsimp only
  by_cases hshort : (byteAt pkt 0 &&& 0x0f).toNat * 4 < 20 ∨ pkt.length < 20
  · rw [if_pos hshort, if_pos hshort]
  rw [if_neg hshort, if_neg hshort]
  have hlen : 20 ≤ pkt.length := by omega
  have htotal : wordChecked pkt 2 = some (be16At pkt 2) := wordChecked_be16At (by omega)
  have hproto : pkt[9]? = some (byteAt pkt 9) := getElem?_byteAt (by omega)
  have hsrc : sliceChecked pkt 12 16 = some (slice pkt 12 4) := sliceChecked_of_le_of_le (by omega) (by omega)
  have hdst : sliceChecked pkt 16 20 = some (slice pkt 16 4) := sliceChecked_of_le_of_le (by omega) (by omega)
  have hstop (n : Nat) : min n pkt.length ≤ pkt.length := Nat.min_le_right _ _
  rw [htotal, hproto, hsrc, hdst]
  simp only [Option.bind_eq_bind, Option.bind_some]
  rw [classifyTcpChecked_eq _ _ _ (hstop _), classifyUdpChecked_eq _ _ _ (hstop _),
    classifyEchoChecked_eq _ _ _ _ _ _ (hstop _)]
  split_ifs <;> simp_all

theorem classifyV6Checked_eq : classifyV6Checked pkt = some (classifyV6 pkt) := by
  unfold classifyV6Checked classifyV6
  by_cases hshort : pkt.length < 40
  · rw [if_pos hshort, if_pos hshort]
  rw [if_neg hshort, if_neg hshort]
  have hlen : 40 ≤ pkt.length := by omega
  have hpayload : wordChecked pkt 4 = some (be16At pkt 4) := wordChecked_be16At (by omega)
  have hnh : pkt[6]? = some (byteAt pkt 6) := getElem?_byteAt (by omega)
  have hsrc : sliceChecked pkt 8 24 = some (slice pkt 8 16) := sliceChecked_of_le_of_le (by omega) (by omega)
  have hdst : sliceChecked pkt 24 40 = some (slice pkt 24 16) := sliceChecked_of_le_of_le (by omega) (by omega)
  have hstop : 40 + min (be16At pkt 4).toNat (pkt.length - 40) ≤ pkt.length := by omega
  rw [hpayload, hsrc, hdst, hnh]
  simp only [Option.bind_eq_bind, Option.bind_some]
  rw [upperLayerChecked_eq hstop, Option.bind_some]
  unfold ipv6UpperLayer
  cases upperLayerFrom pkt (40 + min (be16At pkt 4).toNat (pkt.length - 40)) (byteAt pkt 6) 40 with
  | none proto => rfl
  | malformed => rfl
  | upper nextHeader off =>
    dsimp only
    rw [classifyTcpChecked_eq _ _ _ hstop, classifyUdpChecked_eq _ _ _ hstop,
      classifyEchoChecked_eq _ _ _ _ _ _ hstop]
    split_ifs <;> rfl

/-- `classify_packet` reads inside the packet only. -/
theorem classifyPacketChecked_eq (pkt : Bytes) :
    classifyPacketChecked pkt = some (classifyPacket pkt) := by
  unfold classifyPacketChecked classifyPacket
  cases hhead : pkt.head? with
  | none => rfl
  | some vihl =>
    have hne : pkt ≠ [] := by
      rintro rfl
      simp at hhead
    dsimp only
    rw [classifyV4Checked_eq hne, classifyV6Checked_eq]
    split_ifs <;> rfl

/-! ## What a packet carries -/

def isV4 (pkt : Bytes) : Bool := byteAt pkt 0 >>> 4 == 4

/-- The bytes of an IPv4 header. -/
def ipv4HeaderLen (pkt : Bytes) : Nat := (byteAt pkt 0 &&& 0x0f).toNat * 4

/-- Where the datagram ends by its IP length field. -/
def ipEnd (pkt : Bytes) : Nat :=
  if isV4 pkt then (be16At pkt 2).toNat else 40 + (be16At pkt 4).toNat

/-- A header of IPv6 that names the one behind it. -/
def isExtension (nh : UInt8) : Bool :=
  nh == ipv6Hopopts || nh == ipv6Routing || nh == ipv6Fragment || nh == ipv6AuthHdr ||
    nh == ipv6DestOpts || nh == ipv6Mobility

def extensionLen (pkt : Bytes) (nh : UInt8) (off : Nat) : Nat :=
  if nh = ipv6Fragment then 8
  else if nh = ipv6AuthHdr then 4 * ((byteAt pkt (off + 1)).toNat + 2)
  else 8 * ((byteAt pkt (off + 1)).toNat + 1)

/-- The chain that starts with header `nh` at `off` has header `nh'` at `off'`. -/
inductive Reaches (pkt : Bytes) : UInt8 → Nat → UInt8 → Nat → Prop
  | here (nh : UInt8) (off : Nat) : Reaches pkt nh off nh off
  | next {nh nh' : UInt8} {off off' : Nat} : isExtension nh = true →
      Reaches pkt (byteAt pkt off) (off + extensionLen pkt nh off) nh' off' →
      Reaches pkt nh off nh' off'

/-- A fragment other than the first one of its datagram: the fragment offset is not 0. -/
def LaterFragment (pkt : Bytes) : Prop :=
  if isV4 pkt then be16At pkt 6 &&& 0x1fff ≠ 0
  else ∃ off, Reaches pkt (byteAt pkt 6) 40 ipv6Fragment off ∧ be16At pkt (off + 2) >>> 3 ≠ 0

/-- The header of a transport protocol stands at `off`. -/
def TransportAt (pkt : Bytes) (proto : UInt8) (off : Nat) : Prop :=
  if isV4 pkt then byteAt pkt 9 = proto ∧ off = ipv4HeaderLen pkt
  else Reaches pkt (byteAt pkt 6) 40 proto off

/-- A transport header of `size` bytes at `off` that is whole. -/
structure Carries (pkt : Bytes) (proto : UInt8) (off size : Nat) : Prop where
  transport : TransportAt pkt proto off
  inBuffer : off + size ≤ pkt.length
  inDatagram : off + size ≤ ipEnd pkt
  notLater : ¬ LaterFragment pkt

/-- What a packet is taken for is what it carries, and a payload is a part of the datagram. -/
def SafeResult (pkt : Bytes) : Classified → Prop
  | .tcp _ _ _ _ => ∃ off, Carries pkt 6 off 20
  | .udp _ _ payload _ => ∃ off n, Carries pkt 17 off 8 ∧ payload = slice pkt (off + 8) n ∧
      off + 8 + n ≤ pkt.length ∧ off + 8 + n ≤ ipEnd pkt
  | .icmpEchoRequest _ _ v6 => ∃ off, Carries pkt (if v6 then ipprotoIcmpv6 else ipprotoIcmpv4) off 8
  | _ => True

/-- The packet is classified without an access outside it, and safely. -/
def ClassifiesSafely (pkt : Bytes) : Prop :=
  ∃ c, classifyPacketChecked pkt = some c ∧ SafeResult pkt c

/-- An IPv4 packet with a fragment offset whose bytes behind the header could be a transport
    header. -/
structure LooksWhole (pkt : Bytes) : Prop where
  v4 : isV4 pkt = true
  header : 20 ≤ ipv4HeaderLen pkt ∧ 20 ≤ pkt.length ∧ ipv4HeaderLen pkt ≤ (be16At pkt 2).toNat
  later : be16At pkt 6 &&& 0x1fff ≠ 0
  transport : byteAt pkt 9 = 6 ∧ ipv4HeaderLen pkt + 20 ≤ min (be16At pkt 2).toNat pkt.length ∨
    byteAt pkt 9 = 17 ∧ ipv4HeaderLen pkt + 8 ≤ min (be16At pkt 2).toNat pkt.length ∨
    byteAt pkt 9 = ipprotoIcmpv4 ∧ ipv4HeaderLen pkt + 8 ≤ min (be16At pkt 2).toNat pkt.length ∧
      byteAt pkt (ipv4HeaderLen pkt) = icmpv4EchoRequest

/-! ## The walk along the extension headers -/

theorem headerLen_upper {nh t : UInt8} {limit o : Nat}
    (h : headerLen pkt limit nh off = .error (.upper t o)) :
    isTransport nh = true ∧ t = nh ∧ o = off := by
  unfold headerLen at h
  split_ifs at h with hnh <;> simp_all

theorem headerLen_ok {nh : UInt8} {limit len : Nat} (h : headerLen pkt limit nh off = .ok len) :
    isExtension nh = true ∧ len = extensionLen pkt nh off ∧
      (nh = ipv6Fragment → be16At pkt (off + 2) >>> 3 = 0) := by
  unfold headerLen at h
  split_ifs at h with hnh hlate hopts hroom hfragment hroom' hoffset hauth hroom''
  · simp only [Except.ok.injEq] at h
    rcases hopts with rfl | rfl | rfl | rfl <;>
      exact ⟨rfl, h.symm, fun hf => absurd hf (by decide)⟩
  · simp only [Except.ok.injEq] at h
    subst hfragment
    exact ⟨rfl, h.symm, fun _ => by simpa using hoffset⟩
  · simp only [Except.ok.injEq] at h
    subst hauth
    exact ⟨rfl, h.symm, fun hf => absurd hf (by decide)⟩

theorem isExtension_of_isTransport {nh : UInt8} (h : isTransport nh = true) :
    isExtension nh = false := by
  simp only [isTransport, Bool.or_eq_true, beq_iff_eq, or_assoc] at h
  rcases h with rfl | rfl | rfl <;> rfl

/-- What the walk finds is a transport header of the chain, inside the limit, and no fragment
    header of the chain has an offset. -/
theorem upperLayerFrom_upper {nh t : UInt8} {limit o : Nat}
    (h : upperLayerFrom pkt limit nh off = .upper t o) :
    isTransport t = true ∧ Reaches pkt nh off t o ∧ o < limit ∧ off ≤ o ∧
      ∀ f, Reaches pkt nh off ipv6Fragment f → be16At pkt (f + 2) >>> 3 = 0 := by
  induction nh, off using upperLayerFrom.induct pkt limit with
  | case1 nh off hend hnh =>
    rw [upperLayerFrom, if_pos hend, if_pos hnh] at h
    cases h
  | case2 nh off hend hnh =>
    rw [upperLayerFrom, if_pos hend, if_neg hnh] at h
    cases h
  | case3 nh off hend found hlen =>
    rw [upperLayerFrom, if_neg hend, hlen] at h
    have hfound : found = .upper t o := h
    rw [hfound] at hlen
    obtain ⟨htransport, rfl, rfl⟩ := headerLen_upper hlen
    refine ⟨htransport, .here _ _, by omega, le_refl _, ?_⟩
    intro f hf
    cases hf with
    | here => exact absurd htransport (by decide)
    | next hext _ =>
      rw [isExtension_of_isTransport htransport] at hext
      cases hext
  | case4 nh off hend len hlen hpast =>
    rw [upperLayerFrom, if_neg hend, hlen] at h
    simp only [if_pos hpast] at h
    cases h
  | case5 nh off hend len hlen hpast ih =>
    rw [upperLayerFrom, if_neg hend, hlen] at h
    simp only [if_neg hpast] at h
    obtain ⟨htransport, hreach, hlimit, hle, hfragments⟩ := ih h
    obtain ⟨hext, hextlen, hfirst⟩ := headerLen_ok hlen
    subst hextlen
    refine ⟨htransport, .next hext hreach, hlimit, by omega, ?_⟩
    intro f hf
    cases hf with
    | here => exact hfirst rfl
    | next _ hf => exact hfragments f hf

/-! ## What is taken for a transport -/

theorem classifyTcp_safe {src dst : IpAddr} {ext : Bool} (hstop : stop ≤ pkt.length)
    (hend : stop ≤ ipEnd pkt) (ht : TransportAt pkt 6 off)
    (hl : off + 20 ≤ stop → ¬ LaterFragment pkt) :
    SafeResult pkt (classifyTcp pkt src dst off stop ext) := by
  unfold classifyTcp
  split_ifs with h
  · trivial
  · exact ⟨off, ht, by omega, by omega, hl (by omega)⟩

theorem classifyUdp_safe {src dst : IpAddr} {ext : Bool} (hstop : stop ≤ pkt.length)
    (hend : stop ≤ ipEnd pkt) (ht : TransportAt pkt 17 off)
    (hl : off + 8 ≤ stop → ¬ LaterFragment pkt) :
    SafeResult pkt (classifyUdp pkt src dst off stop ext) := by
  unfold classifyUdp
  split_ifs with h
  · trivial
  · exact ⟨off, _, ⟨ht, by omega, by omega, hl (by omega)⟩, rfl, by omega, by omega⟩

/-- Every IPv4 packet that does not look whole is classified safely. -/
theorem classifyV4_safe (h4 : isV4 pkt = true) (h : ¬ LooksWhole pkt) :
    SafeResult pkt (classifyV4 pkt) := by
  have hend : ipEnd pkt = (be16At pkt 2).toNat := if_pos h4
  have hlater : LaterFragment pkt ↔ be16At pkt 6 &&& 0x1fff ≠ 0 := by
    unfold LaterFragment
    rw [if_pos h4]
  have hat {proto : UInt8} (hproto : byteAt pkt 9 = proto) :
      TransportAt pkt proto (ipv4HeaderLen pkt) := by
    unfold TransportAt
    rw [if_pos h4]
    exact ⟨hproto, rfl⟩
  have hstop : min (be16At pkt 2).toNat pkt.length ≤ pkt.length := Nat.min_le_right _ _
  have hstop' : min (be16At pkt 2).toNat pkt.length ≤ ipEnd pkt := by
    rw [hend]
    exact Nat.min_le_left _ _
  unfold classifyV4
  dsimp only
  split_ifs with hshort htotal htcp hudp hicmp
  · trivial
  · trivial
  · refine classifyTcp_safe hstop hstop' (hat htcp) fun hfit hl => h ⟨h4, ?_, hlater.mp hl, ?_⟩
    · unfold ipv4HeaderLen
      omega
    · exact .inl ⟨htcp, hfit⟩
  · refine classifyUdp_safe hstop hstop' (hat hudp) fun hfit hl => h ⟨h4, ?_, hlater.mp hl, ?_⟩
    · unfold ipv4HeaderLen
      omega
    · exact .inr (.inl ⟨hudp, hfit⟩)
  · obtain ⟨hproto, hfit, hkind⟩ := hicmp
    refine ⟨ipv4HeaderLen pkt, hat hproto, ?_, ?_, fun hl => h ⟨h4, ?_, hlater.mp hl, ?_⟩⟩
    · exact hfit.trans hstop
    · exact hfit.trans hstop'
    · unfold ipv4HeaderLen
      omega
    · exact .inr (.inr ⟨hproto, hfit, hkind⟩)
  · trivial

/-- The walk stops at a later fragment. -/
theorem classifyV6_safe (h6 : isV4 pkt = false) : SafeResult pkt (classifyV6 pkt) := by
  have hend : ipEnd pkt = 40 + (be16At pkt 4).toNat := if_neg (by simp [h6])
  unfold classifyV6
  split_ifs with hshort
  · trivial
  have hstop : 40 + min (be16At pkt 4).toNat (pkt.length - 40) ≤ pkt.length := by omega
  have hstop' : 40 + min (be16At pkt 4).toNat (pkt.length - 40) ≤ ipEnd pkt := by omega
  dsimp only
  cases hwalk : ipv6UpperLayer pkt (40 + min (be16At pkt 4).toNat (pkt.length - 40)) with
  | none proto => trivial
  | malformed => trivial
  | upper nextHeader off =>
    obtain ⟨htransport, hreach, -, -, hfragments⟩ := upperLayerFrom_upper hwalk
    have hl : ¬ LaterFragment pkt := by
      unfold LaterFragment
      rw [if_neg (by simp [h6])]
      rintro ⟨f, hf, hoffset⟩
      exact hoffset (hfragments f hf)
    have hat : TransportAt pkt nextHeader off := by
      unfold TransportAt
      rwa [if_neg (by simp [h6])]
    dsimp only
    split_ifs with htcp hudp hicmp
    · subst htcp
      exact classifyTcp_safe hstop hstop' hat fun _ => hl
    · subst hudp
      exact classifyUdp_safe hstop hstop' hat fun _ => hl
    · have hnext : nextHeader = ipprotoIcmpv6 := by
        simp only [isTransport, Bool.or_eq_true, beq_iff_eq, or_assoc] at htransport
        exact (htransport.resolve_left htcp).resolve_left hudp
      subst hnext
      exact ⟨off, hat, hicmp.1.trans hstop, hicmp.1.trans hstop', hl⟩
    · trivial

/-- An IPv4 packet that looks whole is taken for a transport, and is a later fragment. -/
theorem LooksWhole.not_safe (h : LooksWhole pkt) : ¬ SafeResult pkt (classifyPacket pkt) := by
  obtain ⟨h4, ⟨hihl, hlen, htotal⟩, hoffset, htransport⟩ := h
  have hlater : LaterFragment pkt := by
    unfold LaterFragment
    rwa [if_pos h4]
  have hv4 : classifyPacket pkt = classifyV4 pkt := by
    unfold classifyPacket
    cases pkt with
    | nil => simp at hlen
    | cons b rest =>
      have hversion : b >>> 4 = 4 := by simpa [isV4, byteAt] using h4
      simp [hversion]
  rw [hv4]
  unfold classifyV4
  dsimp only
  unfold ipv4HeaderLen at *
  rw [if_neg (by omega), if_neg (by omega)]
  rcases htransport with ⟨hproto, hfit⟩ | ⟨hproto, hfit⟩ | ⟨hproto, hfit, hkind⟩
  · rw [if_pos hproto, classifyTcp, if_neg (by omega)]
    exact fun ⟨_, hc⟩ => hc.notLater hlater
  · rw [if_neg (by rw [hproto]; decide), if_pos hproto, classifyUdp, if_neg (by omega)]
    exact fun ⟨_, _, hc, _⟩ => hc.notLater hlater
  · rw [if_neg (by rw [hproto]; decide), if_neg (by rw [hproto]; decide),
      if_pos ⟨hproto, hfit, hkind⟩]
    exact fun ⟨_, hc⟩ => hc.notLater hlater

theorem classifiesSafely_eq (pkt : Bytes) :
    ClassifiesSafely pkt ↔ SafeResult pkt (classifyPacket pkt) := by
  unfold ClassifiesSafely
  rw [classifyPacketChecked_eq]
  simp

/-- A packet is classified safely unless it is a later IPv4 fragment that looks whole. -/
theorem classify_safe_iff (pkt : Bytes) : ClassifiesSafely pkt ↔ ¬ LooksWhole pkt := by
  rw [classifiesSafely_eq]
  constructor
  · exact fun hsafe h => h.not_safe hsafe
  · intro h
    unfold classifyPacket
    cases pkt with
    | nil => trivial
    | cons b rest =>
      dsimp only [List.head?]
      split_ifs with h4 h6
      · exact classifyV4_safe (by simpa [isV4, byteAt] using h4) h
      · exact classifyV6_safe (by simp [isV4, byteAt, h6])
      · trivial

/-- The second fragment of a datagram, with 8 bytes of its payload. -/
def secondFragment : Bytes :=
  [0x45, 0, 0, 28, 0, 7, 0, 1, 64, 17, 0, 0, 10, 0, 0, 1, 10, 0, 0, 2, 1, 2, 3, 4, 0, 8, 0, 0]

/-- It is taken for a UDP datagram from port 258 to port 772. -/
theorem secondFragment_taken : ¬ ClassifiesSafely secondFragment := by
  rw [classifiesSafely_eq]
  exact LooksWhole.not_safe ⟨by decide, by decide, by decide, .inr (.inl (by decide))⟩

end RustCrash.Tun
