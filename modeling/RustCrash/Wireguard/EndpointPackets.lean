import RustCrash.Lib.Checked
import RustCrash.Lib.OnesComplement
import RustCrash.Wireguard.Transport

/-
  What the endpoint does with one decrypted packet (`stage_packet`), with every index and slice
  checked: the classification, the UDP payload and the echo answers.

  The packet has passed the AEAD and `trim_ip_packet`, and nothing else. Three of its fields are
  taken on trust: a UDP length below 8, a message too short for a checksum, and a length field of
  IPv6 below the length of the packet. `staged_safely_iff` says which packets are safe.
-/

namespace RustCrash.Wireguard

open Lib Lib.OnesComplement

/-! ## Classification -/

/-- What one decrypted packet is; a payload is the range from its start to its end. -/
inductive EpIn where
  | tcp (src dst : SocketAddr) (syn : Bool)
  | udp (src dst : SocketAddr) (payload : Nat × Nat)
  | icmpEchoRequest (src dst : IpAddr) (v6 : Bool)
  | skip
  deriving DecidableEq

/-- Where the ICMP message starts. -/
def icmpOffset (pkt : Bytes) : Option Nat :=
  match pkt.head? with
  | none => none
  | some vihl =>
    if vihl >>> 4 = 4 then
      let ihl := (vihl &&& 0x0f).toNat * 4
      if 20 ≤ ihl ∧ ihl < pkt.length then some ihl else none
    else if vihl >>> 4 = 6 then if 40 < pkt.length then some 40 else none
    else none

def echoType (v6 : Bool) : UInt8 := if v6 then 128 else 8

/-- `none` where an index leaves the packet, here and below. -/
def icmpIn (pkt : Bytes) (src dst : IpAddr) (v6 : Bool) : Option EpIn :=
  match icmpOffset pkt with
  | none => some .skip
  | some off => do
    let b ← pkt[off]?
    return if b = echoType v6 then .icmpEchoRequest src dst v6 else .skip

def tcpIn (pkt : Bytes) (src dst : IpAddr) (off : Nat) : Option EpIn := do
  let sport ← wordChecked pkt off
  let dport ← wordChecked pkt (off + 2)
  let flags ← pkt[off + 13]?
  return .tcp (.new src sport) (.new dst dport) (flags &&& 0x02 != 0)

def udpIn (pkt : Bytes) (src dst : IpAddr) (off stop : Nat) : Option EpIn := do
  let sport ← wordChecked pkt off
  let dport ← wordChecked pkt (off + 2)
  let len ← wordChecked pkt (off + 4)
  let payloadEnd := min (off + len.toNat) stop
  return .udp (.new src sport) (.new dst dport) (off + 8, payloadEnd)

def icmpProto (v6 : Bool) : UInt8 := if v6 then 58 else 1

/-- The transport of a packet whose header ends at `off`, in both families. -/
def transportIn (pkt : Bytes) (src dst : IpAddr) (proto : UInt8) (off stop : Nat) (v6 : Bool) :
    Option EpIn :=
  if proto = 6 ∧ off + 20 ≤ stop then tcpIn pkt src dst off
  else if proto = 17 ∧ off + 8 ≤ stop then udpIn pkt src dst off stop
  else if proto = icmpProto v6 then icmpIn pkt src dst v6
  else some .skip

def epClassify (pkt : Bytes) : Option EpIn :=
  match pkt.head? with
  | none => some .skip
  | some vihl =>
    if vihl >>> 4 = 4 then
      let ihl := (vihl &&& 0x0f).toNat * 4
      if ihl < 20 ∨ pkt.length < ihl then some .skip
      else do
        let total ← wordChecked pkt 2
        let src ← sliceChecked pkt 12 16
        let dst ← sliceChecked pkt 16 20
        let proto ← pkt[9]?
        transportIn pkt (.v4 (Net.ofOctets4 src)) (.v4 (Net.ofOctets4 dst)) proto ihl
          (min total.toNat pkt.length) false
    else if vihl >>> 4 = 6 then
      if pkt.length < 40 then some .skip
      else do
        let src ← sliceChecked pkt 8 24
        let dst ← sliceChecked pkt 24 40
        let proto ← pkt[6]?
        transportIn pkt (.v6 (Net.ofOctets6 src)) (.v6 (Net.ofOctets6 dst)) proto 40 pkt.length true
    else some .skip

/-! ## Echo answers -/

def checksum (data : Bytes) : UInt16 := complement (addWords 0 data)

/-- `out[i] = b`. -/
def setChecked (out : Bytes) (i : Nat) (b : UInt8) : Option Bytes :=
  if i < out.length then some (setBytes out i [b]) else none

/-- The type of the answer, and no checksum. -/
def clearIcmp (out : Bytes) (off : Nat) (kind : UInt8) : Option Bytes := do
  let out ← setChecked out off kind
  let out ← setChecked out (off + 2) 0
  setChecked out (off + 3) 0

/-- `sum.to_be_bytes()` behind the type and the code. -/
def putChecksum (out : Bytes) (off : Nat) (sum : UInt16) : Option Bytes := do
  let out ← setChecked out (off + 2) ((be16 sum).getD 0 0)
  setChecked out (off + 3) ((be16 sum).getD 1 0)

def epIcmpv4EchoReply (pkt : Bytes) : Option (Option Bytes) :=
  match icmpOffset pkt with
  | none => some none
  | some off => do
    let b ← pkt[off]?
    if b ≠ 8 then return none
    else
      let src ← sliceChecked pkt 12 16
      let dst ← sliceChecked pkt 16 20
      let out := setPair pkt 12 dst src
      let out ← clearIcmp out off 0
      let message ← sliceChecked out off out.length
      let out ← putChecksum out off (checksum message)
      return some out

def epIcmpv6EchoReply (pkt : Bytes) : Option (Option Bytes) :=
  if pkt.length ≤ 40 ∨ pkt[40]? ≠ some 128 then some none
  else do
    let src ← sliceChecked pkt 8 24
    let dst ← sliceChecked pkt 24 40
    let out := setPair pkt 8 dst src
    let out ← clearIcmp out 40 129
    let message ← sliceChecked out 40 out.length
    let pseudo := dst ++ src ++ be32 (UInt32.ofNat (out.length - 40)) ++ [0, 0, 0, 58]
    let out ← putChecksum out 40 (checksum (pseudo ++ message))
    return some out

/-! ## Staging -/

/-- What `stage_packet` does with the rest of the stack, in order. -/
inductive EpAction where
  | addListener (port : UInt16)
  | ensureUdpSocket (port : UInt16)
  | udpUplink (src dst : SocketAddr) (payload : Bytes)
  | stage (pkt : Bytes)
  | localEgress (reply : Bytes)
  deriving DecidableEq

def stagePacket (needsListener : UInt16 → Bool) (pkt : Bytes) : Option (List EpAction) := do
  let kind ← epClassify pkt
  match kind with
  | .tcp _ dst syn =>
    return (if syn && needsListener dst.port then [.addListener dst.port] else []) ++ [.stage pkt]
  | .udp src dst (a, b) => do
    let payload ← sliceChecked pkt a b
    return [.ensureUdpSocket dst.port, .udpUplink src dst payload, .stage pkt]
  | .icmpEchoRequest _ _ v6 => do
    let reply ← if v6 then epIcmpv6EchoReply pkt else epIcmpv4EchoReply pkt
    return reply.toList.map .localEgress
  | .skip => return []

/-! ## What a safe packet is -/

/-- The bytes of a field of two bytes, as a number. -/
def fieldAt (pkt : Bytes) (i : Nat) : Nat := ofBE (slice pkt i 2)

def ihlOf (pkt : Bytes) : Nat := (pkt.headD 0 &&& 0x0f).toNat * 4

def isIpv4 (pkt : Bytes) : Prop := pkt.headD 0 >>> 4 = 4

/-- The ICMP message of an answer is there by its length field and carries its checksum. -/
def VerifiedReply (reply : Bytes) : Prop :=
  if isIpv6 reply then
    let stop := min (40 + fieldAt reply 4) reply.length
    44 ≤ stop ∧ Verifies (pseudoHeader (slice reply 8 16) (slice reply 24 16) (stop - 40) 58 ++
      slice reply 40 (stop - 40))
  else
    let stop := min (fieldAt reply 2) reply.length
    ihlOf reply + 4 ≤ stop ∧ Verifies (slice reply (ihlOf reply) (stop - ihlOf reply))

/-- Nothing is read or written outside the packet, and an answer verifies. -/
structure StagedSafely (pkt : Bytes) : Prop where
  range : ∀ src dst a b, epClassify pkt = some (.udp src dst (a, b)) → a ≤ b ∧ b ≤ pkt.length
  staged : ∀ needsListener, ∃ actions, stagePacket needsListener pkt = some actions ∧
    ∀ reply, EpAction.localEgress reply ∈ actions → VerifiedReply reply

/-- A packet as `trim_ip_packet` leaves what a datagram of the socket was decrypted to. The
    receive buffer has 65536 bytes. -/
def Decrypted (c : Crates) (inner : Bytes) : Prop :=
  ∃ (s s' : Session) (raw data plain : Bytes) (receiver : UInt32) (counter : UInt64),
    raw.length ≤ 65536 ∧ parseWgMsg (stripReserved raw) = some (.transport receiver counter data) ∧
    s.openTransport c counter data = (s', .ok plain) ∧ inner = trimIpPacket plain

/-- The AEAD takes its tag off. -/
def Crates.Untags (c : Crates) : Prop :=
  ∀ key nonce ct aad msg, c.decrypt key nonce ct aad = some msg → msg.length + 16 = ct.length

/-- What the answer to an IPv6 request counts beyond the message: bytes, and their words. -/
def excess (pkt : Bytes) : Nat :=
  pkt.length - (40 + fieldAt pkt 4) + wordSum (behind (fieldAt pkt 4) (pkt.drop 40))

structure SoundV4 (pkt : Bytes) : Prop where
  udp : pkt.getD 9 0 = 17 → ihlOf pkt + 8 ≤ min (fieldAt pkt 2) pkt.length →
    8 ≤ fieldAt pkt (ihlOf pkt + 4)
  echo : pkt.getD 9 0 = 1 → ihlOf pkt < pkt.length → pkt.getD (ihlOf pkt) 0 = 8 →
    ihlOf pkt + 4 ≤ min (fieldAt pkt 2) pkt.length

structure SoundV6 (pkt : Bytes) : Prop where
  udp : pkt.getD 6 0 = 17 → 48 ≤ pkt.length → 8 ≤ fieldAt pkt 44
  echo : pkt.getD 6 0 = 58 → 40 < pkt.length → pkt.getD 40 0 = 128 →
    44 ≤ min (40 + fieldAt pkt 4) pkt.length ∧ 65535 ∣ excess pkt

/-- A UDP length covers its header; the message of an echo request has room for a checksum, and
    what is behind the end of an IPv6 packet does not change the sum. -/
def Sound (pkt : Bytes) : Prop :=
  (isIpv4 pkt → 20 ≤ ihlOf pkt → ihlOf pkt ≤ pkt.length → SoundV4 pkt) ∧
    (isIpv6 pkt → 40 ≤ pkt.length → SoundV6 pkt)

/-! ## Classification stays inside -/

section

variable {pkt : Bytes} {src dst : IpAddr} {off stop : Nat}

theorem wordChecked_field {i : Nat} (h : i + 1 < pkt.length) :
    ∃ w : UInt16, wordChecked pkt i = some w ∧ w.toNat = fieldAt pkt i := by
  have hlt := ofBE_lt (slice pkt i 2)
  rw [length_slice (by omega)] at hlt
  refine ⟨_, wordChecked_of_lt h, ?_⟩
  exact (UInt16.toNat_ofNat_of_lt' hlt)

theorem tcpIn_ok (h : off + 20 ≤ pkt.length) : ∃ s d syn, tcpIn pkt src dst off =
    some (.tcp s d syn) := by
  obtain ⟨sport, hs, -⟩ := wordChecked_field (show off + 1 < pkt.length by omega)
  obtain ⟨dport, hd, -⟩ := wordChecked_field (show off + 2 + 1 < pkt.length by omega)
  unfold tcpIn
  rw [hs, hd, getElem?_of_getD (by omega)]
  exact ⟨_, _, _, rfl⟩

theorem udpIn_ok (h : off + 8 ≤ pkt.length) : ∃ s d, udpIn pkt src dst off stop =
    some (.udp s d (off + 8, min (off + fieldAt pkt (off + 4)) stop)) := by
  obtain ⟨sport, hs, -⟩ := wordChecked_field (show off + 1 < pkt.length by omega)
  obtain ⟨dport, hd, -⟩ := wordChecked_field (show off + 2 + 1 < pkt.length by omega)
  obtain ⟨len, hl, hlen⟩ := wordChecked_field (show off + 4 + 1 < pkt.length by omega)
  unfold udpIn
  rw [hs, hd, hl, ← hlen]
  exact ⟨_, _, rfl⟩

theorem icmpIn_ok {v6 : Bool} (h : icmpOffset pkt = if off < pkt.length then some off else none) :
    icmpIn pkt src dst v6 = some (if off < pkt.length ∧ pkt.getD off 0 = echoType v6
      then .icmpEchoRequest src dst v6 else .skip) := by
  unfold icmpIn
  rw [h]
  by_cases hlen : off < pkt.length
  · rw [if_pos hlen]
    dsimp only
    rw [getElem?_of_getD hlen]
    simp [hlen]
  · rw [if_neg hlen, if_neg (fun hb => hlen hb.1)]

/-- The endpoint's answer to an echo request. -/
def replyOf (pkt : Bytes) (v6 : Bool) : Option (Option Bytes) :=
  if v6 then epIcmpv6EchoReply pkt else epIcmpv4EchoReply pkt

theorem stagedSafely_tcp {s d : SocketAddr} {syn : Bool} (h : epClassify pkt = some (.tcp s d syn)) :
    StagedSafely pkt := by
  constructor
  · intro src dst a b hudp
    rw [h] at hudp
    cases hudp
  · intro needsListener
    unfold stagePacket
    rw [h]
    refine ⟨_, rfl, fun reply hmem => ?_⟩
    rcases List.mem_append.mp hmem with hmem | hmem
    · split_ifs at hmem <;> simp at hmem
    · simp at hmem

theorem stagedSafely_skip (h : epClassify pkt = some .skip) : StagedSafely pkt := by
  constructor
  · intro src dst a b hudp
    rw [h] at hudp
    cases hudp
  · intro needsListener
    unfold stagePacket
    rw [h]
    exact ⟨_, rfl, fun reply hmem => by simp at hmem⟩

theorem stagedSafely_udp {s d : SocketAddr} {a b : Nat}
    (h : epClassify pkt = some (.udp s d (a, b))) :
    StagedSafely pkt ↔ a ≤ b ∧ b ≤ pkt.length := by
  constructor
  · exact fun hsafe => hsafe.range s d a b h
  · intro hrange
    constructor
    · intro src dst a' b' hudp
      rw [h] at hudp
      simp only [Option.some.injEq, EpIn.udp.injEq, Prod.mk.injEq] at hudp
      obtain ⟨-, -, rfl, rfl⟩ := hudp
      exact hrange
    · intro needsListener
      unfold stagePacket
      rw [h]
      simp only [Option.bind_eq_bind, Option.bind_some]
      rw [sliceChecked_of_le_of_le hrange.1 hrange.2]
      exact ⟨_, rfl, fun reply hmem => by simp at hmem⟩

theorem stagedSafely_echo {src dst : IpAddr} {v6 : Bool}
    (h : epClassify pkt = some (.icmpEchoRequest src dst v6)) :
    StagedSafely pkt ↔
      ∃ reply, replyOf pkt v6 = some reply ∧ ∀ r, reply = some r → VerifiedReply r := by
  have hstage (needsListener : UInt16 → Bool) : stagePacket needsListener pkt =
      (replyOf pkt v6).map fun reply => reply.toList.map .localEgress := by
    unfold stagePacket replyOf
    rw [h]
    simp only [Option.bind_eq_bind, Option.bind_some]
    cases v6 with
    | false => cases epIcmpv4EchoReply pkt <;> rfl
    | true => cases epIcmpv6EchoReply pkt <;> rfl
  constructor
  · intro hsafe
    obtain ⟨actions, hactions, hverified⟩ := hsafe.staged fun _ => false
    rw [hstage] at hactions
    cases hreply : replyOf pkt v6 with
    | none => simp [hreply] at hactions
    | some reply =>
      refine ⟨reply, rfl, fun r hr => hverified r ?_⟩
      rw [hreply] at hactions
      simp only [Option.map_some, Option.some.injEq] at hactions
      rw [← hactions, hr]
      simp
  · rintro ⟨reply, hreply, hverified⟩
    constructor
    · intro src dst a b hudp
      rw [h] at hudp
      cases hudp
    · intro needsListener
      rw [hstage, hreply]
      refine ⟨_, rfl, fun r hmem => hverified r ?_⟩
      simpa using hmem

/-- The transport is staged safely exactly when a UDP length covers its header and an echo request
    is answered without leaving the packet, by what verifies. -/
theorem stagedSafely_transport {proto : UInt8} {v6 : Bool}
    (hclass : epClassify pkt = transportIn pkt src dst proto off stop v6)
    (hstop : stop ≤ pkt.length)
    (hoff : icmpOffset pkt = if off < pkt.length then some off else none) :
    StagedSafely pkt ↔
      (proto = 17 → off + 8 ≤ stop → 8 ≤ fieldAt pkt (off + 4)) ∧
        (proto = icmpProto v6 → off < pkt.length → pkt.getD off 0 = echoType v6 →
          ∃ reply, replyOf pkt v6 = some reply ∧ ∀ r, reply = some r → VerifiedReply r) := by
  have hicmp6 : icmpProto v6 ≠ 6 := by cases v6 <;> decide
  have hicmp17 : icmpProto v6 ≠ 17 := by cases v6 <;> decide
  unfold transportIn at hclass
  by_cases htcp : proto = 6 ∧ off + 20 ≤ stop
  · rw [if_pos htcp] at hclass
    obtain ⟨s, d, syn, ht⟩ : ∃ s d syn, tcpIn pkt src dst off = some (.tcp s d syn) :=
      tcpIn_ok (by omega)
    have h17 : proto ≠ 17 := by
      rw [htcp.1]
      decide
    have hicmp : proto ≠ icmpProto v6 := fun h => hicmp6 (h ▸ htcp.1)
    exact ⟨fun _ => ⟨fun h => absurd h h17, fun h => absurd h hicmp⟩,
      fun _ => stagedSafely_tcp (hclass.trans ht)⟩
  rw [if_neg htcp] at hclass
  by_cases hudp : proto = 17 ∧ off + 8 ≤ stop
  · rw [if_pos hudp] at hclass
    obtain ⟨s, d, hu⟩ : ∃ s d, udpIn pkt src dst off stop =
        some (.udp s d (off + 8, min (off + fieldAt pkt (off + 4)) stop)) := udpIn_ok (by omega)
    have hicmp : proto ≠ icmpProto v6 := fun h => hicmp17 (h ▸ hudp.1)
    rw [stagedSafely_udp (hclass.trans hu)]
    constructor
    · exact fun hrange => ⟨fun _ _ => by omega, fun h => absurd h hicmp⟩
    · rintro ⟨hlen, -⟩
      have hlen := hlen hudp.1 hudp.2
      omega
  rw [if_neg hudp] at hclass
  have hno17 : proto = 17 → off + 8 ≤ stop → 8 ≤ fieldAt pkt (off + 4) :=
    fun h17 hfit => absurd ⟨h17, hfit⟩ hudp
  by_cases hicmp : proto = icmpProto v6
  · rw [if_pos hicmp, icmpIn_ok hoff] at hclass
    by_cases hecho : off < pkt.length ∧ pkt.getD off 0 = echoType v6
    · rw [if_pos hecho] at hclass
      rw [stagedSafely_echo hclass]
      exact ⟨fun h => ⟨hno17, fun _ _ _ => h⟩, fun h => h.2 hicmp hecho.1 hecho.2⟩
    · rw [if_neg hecho] at hclass
      exact ⟨fun _ => ⟨hno17, fun _ hlen hb => absurd ⟨hlen, hb⟩ hecho⟩,
        fun _ => stagedSafely_skip hclass⟩
  · rw [if_neg hicmp] at hclass
    exact ⟨fun _ => ⟨hno17, fun h => absurd h hicmp⟩, fun _ => stagedSafely_skip hclass⟩

end

/-! ## Echo answers -/

section

variable {hdr rest : Bytes} {t code x y kind : UInt8}

theorem clearIcmp_eq : clearIcmp (hdr ++ (t :: code :: x :: y :: rest)) hdr.length kind =
    some (hdr ++ (kind :: code :: 0 :: 0 :: rest)) := by
  have h0 : setBytes (hdr ++ (t :: code :: x :: y :: rest)) hdr.length [kind] =
      hdr ++ (kind :: code :: x :: y :: rest) :=
    setBytes_middle (x := hdr) (y := [t]) (z := code :: x :: y :: rest) rfl
  have h2 : setBytes (hdr ++ (kind :: code :: x :: y :: rest)) (hdr.length + 2) [0] =
      hdr ++ (kind :: code :: 0 :: y :: rest) := by
    have hset := setBytes_middle (x := hdr ++ [kind, code]) (y := [x]) (z := y :: rest)
      (rfl : [(0 : UInt8)].length = [x].length)
    simpa using hset
  have h3 : setBytes (hdr ++ (kind :: code :: 0 :: y :: rest)) (hdr.length + 3) [0] =
      hdr ++ (kind :: code :: 0 :: 0 :: rest) := by
    have hset := setBytes_middle (x := hdr ++ [kind, code, 0]) (y := [y]) (z := rest)
      (rfl : [(0 : UInt8)].length = [y].length)
    simpa using hset
  unfold clearIcmp setChecked
  rw [if_pos (by simp), h0]
  simp only [Option.bind_eq_bind, Option.bind_some]
  rw [if_pos (by simp), h2]
  simp only [Option.bind_some]
  rw [if_pos (by simp), h3]

theorem putChecksum_eq (sum : UInt16) :
    putChecksum (hdr ++ (kind :: code :: 0 :: 0 :: rest)) hdr.length sum =
      some (hdr ++ (kind :: code :: (be16 sum ++ rest))) := by
  obtain ⟨hi, lo, hsum⟩ : ∃ hi lo, be16 sum = [hi, lo] := ⟨_, _, rfl⟩
  have h2 : setBytes (hdr ++ (kind :: code :: 0 :: 0 :: rest)) (hdr.length + 2) [hi] =
      hdr ++ (kind :: code :: hi :: 0 :: rest) := by
    have hset := setBytes_middle (x := hdr ++ [kind, code]) (y := [0]) (z := 0 :: rest)
      (rfl : [hi].length = [(0 : UInt8)].length)
    simpa using hset
  have h3 : setBytes (hdr ++ (kind :: code :: hi :: 0 :: rest)) (hdr.length + 3) [lo] =
      hdr ++ (kind :: code :: hi :: lo :: rest) := by
    have hset := setBytes_middle (x := hdr ++ [kind, code, hi]) (y := [0]) (z := rest)
      (rfl : [lo].length = [(0 : UInt8)].length)
    simpa using hset
  unfold putChecksum setChecked
  rw [hsum, if_pos (by simp)]
  simp only [List.getD_cons_zero, List.getD_cons_succ, Option.bind_eq_bind, Option.bind_some]
  rw [h2, if_pos (by simp), h3]
  rfl

/-- A message without room for a checksum. -/
theorem clearIcmp_none {out : Bytes} {off : Nat} (h : out.length < off + 4) :
    clearIcmp out off kind = none := by
  unfold clearIcmp setChecked
  by_cases h0 : off < out.length
  · have hl : (setBytes out off [kind]).length = out.length := length_setBytes h0
    rw [if_pos h0]
    simp only [Option.bind_eq_bind, Option.bind_some, hl]
    by_cases h2 : off + 2 < out.length
    · have hl' : (setBytes (setBytes out off [kind]) (off + 2) [0]).length = out.length := by
        rw [length_setBytes (by rw [hl]; exact h2), hl]
      rw [if_pos h2]
      simp only [Option.bind_some, hl']
      rw [if_neg (by omega)]
    · rw [if_neg h2]
      rfl
  · rw [if_neg h0]
    rfl

end

section

variable {pkt : Bytes}

/-- The message of an echo request with room for a checksum. -/
theorem message_split {off : Nat} (h : off + 4 ≤ pkt.length) :
    ∃ t code x y rest, pkt.drop off = t :: code :: x :: y :: rest ∧
      pkt = pkt.take off ++ (t :: code :: x :: y :: rest) := by
  have hlen : 4 ≤ (pkt.drop off).length := by
    rw [List.length_drop]
    omega
  match hm : pkt.drop off, hlen with
  | t :: code :: x :: y :: rest, _ =>
    exact ⟨t, code, x, y, rest, rfl, by rw [← hm, List.take_append_drop]⟩

theorem headD_of_take {a b : Bytes} {k : Nat} (h : a.take k = b.take k) (hk : 0 < k) :
    a.headD 0 = b.headD 0 := by
  have hget := getD_of_take h hk
  cases a <;> cases b <;> exact hget

theorem fieldAt_of_take {a b : Bytes} {k i : Nat} (h : a.take k = b.take k) (hi : i + 2 ≤ k) :
    fieldAt a i = fieldAt b i := by
  unfold fieldAt
  rw [slice_of_take h hi]

/-- The checksum of an even part and a message, put into the message. -/
theorem verifies_sealed {front rest : Bytes} {kind code : UInt8} (hfront : 2 ∣ front.length)
    (hshort : front.length + rest.length < 2 ^ 17 - 8) :
    Verifies (front ++ (kind :: code ::
      (be16 (checksum (front ++ (kind :: code :: 0 :: 0 :: rest))) ++ rest))) := by
  have hsum := wordSum_le (front ++ (kind :: code :: 0 :: 0 :: rest))
  have hlen : (front ++ (kind :: code :: 0 :: 0 :: rest)).length =
      front.length + rest.length + 4 := by
    simp
    omega
  have hzero : (0 : UInt32).toNat = 0 := rfl
  have hwords : (addWords 0 (front ++ (kind :: code :: 0 :: 0 :: rest))).toNat =
      wordSum front + wordSum (kind :: code :: 0 :: 0 :: rest) := by
    rw [toNat_addWords (by rw [hzero]; omega), hzero, Nat.zero_add, wordSum_append hfront]
  exact @verifies_complement front (kind :: code :: 0 :: 0 :: rest) _ 2 hfront (by omega) (by simp)
    rfl hwords

/-- What `trim_ip_packet` leaves of an IPv4 packet ends where its total length says, unless that
    is past the end or inside the header. -/
theorem fieldAt_trimmed {plain : Bytes} (h4 : isIpv4 (trimIpPacket plain))
    (hlen : 20 ≤ (trimIpPacket plain).length) :
    fieldAt (trimIpPacket plain) 2 < 20 ∨
      (trimIpPacket plain).length ≤ fieldAt (trimIpPacket plain) 2 := by
  unfold trimIpPacket at *
  unfold fieldAt
  dsimp only at *
  split_ifs at * with hv4 htotal
  · right
    have hsame : slice (plain.take (ofBE (slice plain 2 2))) 2 2 = slice plain 2 2 :=
      slice_take (by omega)
    rw [hsame, List.length_take]
    exact Nat.min_le_left _ _
  · omega
  · exact absurd ⟨hlen, h4⟩ hv4

theorem sliceChecked_rest (hdr m : Bytes) :
    sliceChecked (hdr ++ m) hdr.length (hdr ++ m).length = some m := by
  rw [sliceChecked_of_le_of_le (by simp) (le_refl _), List.drop_left]
  simp

/-- The addresses swapped in the header of a packet. -/
theorem setPair_split {off a : Nat} {x y m : Bytes} (hm : pkt = pkt.take off ++ m)
    (hoff : off ≤ pkt.length) (hfits : a + x.length + y.length ≤ off) :
    ∃ hdr : Bytes, setPair pkt a x y = hdr ++ m ∧ hdr.length = off ∧
      hdr.take a = pkt.take a ∧ slice hdr a x.length = x ∧ slice hdr (a + x.length) y.length = y := by
  have hlen : (pkt.take off).length = off := by rw [List.length_take, Nat.min_eq_left hoff]
  have hroom : a + x.length + y.length ≤ (pkt.take off).length := by omega
  refine ⟨setPair (pkt.take off) a x y, ?_, (length_setPair hroom).trans hlen, ?_,
    slice_setPair_fst hroom, slice_setPair_snd hroom⟩
  · conv => lhs; rw [hm]
    exact setPair_append hroom _
  · rw [take_setPair hroom (le_refl _), List.take_take, Nat.min_eq_left (by omega)]

/-- A packet without room for a checksum panics. -/
theorem epIcmpv4EchoReply_none (hoff : icmpOffset pkt = some (ihlOf pkt)) (hihl : 20 ≤ ihlOf pkt)
    (hin : ihlOf pkt < pkt.length) (hkind : pkt.getD (ihlOf pkt) 0 = 8)
    (hshort : pkt.length < ihlOf pkt + 4) : epIcmpv4EchoReply pkt = none := by
  unfold epIcmpv4EchoReply
  rw [hoff]
  dsimp only
  rw [getElem?_of_getD hin, hkind, sliceChecked_of_le_of_le (by omega) (by omega),
    sliceChecked_of_le_of_le (by omega) (by omega)]
  simp only [Option.bind_eq_bind, Option.bind_some, ne_eq, not_true_eq_false, if_false]
  rw [clearIcmp_none, Option.bind_none]
  rw [length_setPair (by simp; omega)]
  exact hshort

theorem epIcmpv4EchoReply_eq (hoff : icmpOffset pkt = some (ihlOf pkt)) (hihl : 20 ≤ ihlOf pkt)
    (hroom : ihlOf pkt + 4 ≤ pkt.length) (hkind : pkt.getD (ihlOf pkt) 0 = 8) :
    ∃ hdr code rest, epIcmpv4EchoReply pkt = some (some (hdr ++ (0 :: code ::
        (be16 (checksum (0 :: code :: 0 :: 0 :: rest)) ++ rest)))) ∧
      hdr.length = ihlOf pkt ∧ hdr.take 12 = pkt.take 12 ∧
      ihlOf pkt + 4 + rest.length = pkt.length := by
  obtain ⟨t, code, x, y, rest, hm, hsplit⟩ := message_split hroom
  have hsrc : ((pkt.drop 12).take (16 - 12)).length = 4 := by simp; omega
  have hdst : ((pkt.drop 16).take (20 - 16)).length = 4 := by simp; omega
  obtain ⟨hdr, hswap, hlen, hsame, -, -⟩ := setPair_split (a := 12)
    (x := (pkt.drop 16).take (20 - 16)) (y := (pkt.drop 12).take (16 - 12)) hsplit (by omega)
    (by omega)
  have hclear : clearIcmp (hdr ++ (t :: code :: x :: y :: rest)) hdr.length 0 =
      some (hdr ++ (0 :: code :: 0 :: 0 :: rest)) := clearIcmp_eq
  have hmessage := sliceChecked_rest hdr (0 :: code :: 0 :: 0 :: rest)
  have hput : putChecksum (hdr ++ (0 :: code :: 0 :: 0 :: rest)) hdr.length
      (checksum (0 :: code :: 0 :: 0 :: rest)) = some (hdr ++ (0 :: code ::
        (be16 (checksum (0 :: code :: 0 :: 0 :: rest)) ++ rest))) := putChecksum_eq _
  rw [hlen] at hclear hmessage hput
  refine ⟨hdr, code, rest, ?_, hlen, hsame, ?_⟩
  · unfold epIcmpv4EchoReply
    rw [hoff]
    dsimp only
    rw [getElem?_of_getD (by omega), hkind, sliceChecked_of_le_of_le (by omega) (by omega),
      sliceChecked_of_le_of_le (by omega) (by omega)]
    simp only [Option.bind_eq_bind, Option.bind_some, ne_eq, not_true_eq_false, if_false]
    rw [hswap, hclear, Option.bind_some, hmessage, Option.bind_some, hput, Option.bind_some]
    rfl
  · have := congrArg List.length hm
    simp at this
    omega

/-- The answer to an IPv4 request verifies if its message has room for a checksum. -/
theorem reply_v4 (h4 : isIpv4 pkt) (hihl : 20 ≤ ihlOf pkt) (hin : ihlOf pkt < pkt.length)
    (hkind : pkt.getD (ihlOf pkt) 0 = 8) (hoff : icmpOffset pkt = some (ihlOf pkt))
    (hshort : pkt.length < 65536)
    (htrim : fieldAt pkt 2 < 20 ∨ pkt.length ≤ fieldAt pkt 2) :
    (∃ reply, replyOf pkt false = some reply ∧ ∀ r, reply = some r → VerifiedReply r) ↔
      ihlOf pkt + 4 ≤ min (fieldAt pkt 2) pkt.length := by
  have hreply : replyOf pkt false = epIcmpv4EchoReply pkt := rfl
  rw [hreply]
  by_cases hroom : ihlOf pkt + 4 ≤ pkt.length
  · obtain ⟨hdr, code, rest, heq, hlen, hsame, hsize⟩ := epIcmpv4EchoReply_eq hoff hihl hroom hkind
    have hverifies := @verifies_sealed [] rest 0 code (by simp) (by simp; omega)
    rw [List.nil_append, List.nil_append] at hverifies
    rw [heq]
    generalize checksum (0 :: code :: 0 :: 0 :: rest) = ck at *
    generalize hr : hdr ++ (0 :: code :: (be16 ck ++ rest)) = r at *
    have hrlen : r.length = pkt.length := by
      rw [← hr]
      simp
      omega
    have htake : r.take 12 = pkt.take 12 := by
      rw [← hr, List.take_append_of_le_length (by omega), hsame]
    have hfirst := headD_of_take htake (by omega)
    have hv6 : ¬ isIpv6 r := by
      unfold isIpv6
      rw [hfirst, show pkt.headD 0 >>> 4 = 4 from h4]
      decide
    have hihl' : ihlOf r = ihlOf pkt := by
      unfold ihlOf
      rw [hfirst]
    have hdrop : r.drop (ihlOf pkt) = 0 :: code :: (be16 ck ++ rest) := by
      rw [← hr, List.drop_left' hlen]
    have hverified : VerifiedReply r ↔ ihlOf pkt + 4 ≤ min (fieldAt pkt 2) pkt.length := by
      unfold VerifiedReply
      rw [if_neg hv6, hihl', hrlen, fieldAt_of_take htake (by omega)]
      dsimp only
      constructor
      · exact fun h => h.1
      · intro hfit
        have hwhole : min (fieldAt pkt 2) pkt.length = pkt.length := by omega
        refine ⟨hfit, ?_⟩
        rw [hwhole, ← hrlen, ← List.length_drop, slice, List.take_length, hdrop]
        exact hverifies
    simpa using hverified
  · rw [epIcmpv4EchoReply_none hoff hihl hin hkind (by omega)]
    simp
    omega

/-! ## Answers over IPv6 -/

theorem epIcmpv6EchoReply_none (hin : 40 < pkt.length) (hkind : pkt.getD 40 0 = 128)
    (hshort : pkt.length < 44) : epIcmpv6EchoReply pkt = none := by
  have hget : pkt[40]? = some 128 := by rw [getElem?_of_getD hin, hkind]
  unfold epIcmpv6EchoReply
  rw [if_neg (by simp [hget]; omega), sliceChecked_of_le_of_le (by omega) (by omega),
    sliceChecked_of_le_of_le (by omega) (by omega)]
  simp only [Option.bind_eq_bind, Option.bind_some]
  rw [clearIcmp_none, Option.bind_none]
  rw [length_setPair (by simp; omega)]
  exact hshort

theorem epIcmpv6EchoReply_eq (hroom : 44 ≤ pkt.length) (hkind : pkt.getD 40 0 = 128) :
    ∃ hdr code rest, (∃ x y, pkt.drop 40 = 128 :: code :: x :: y :: rest) ∧
      epIcmpv6EchoReply pkt = some (some (hdr ++ (129 :: code :: (be16 (checksum
        (pseudoHeader (slice hdr 8 16) (slice hdr 24 16) (pkt.length - 40) 58 ++
          (129 :: code :: 0 :: 0 :: rest))) ++ rest)))) ∧
      hdr.length = 40 ∧ hdr.take 8 = pkt.take 8 := by
  obtain ⟨t, code, x, y, rest, hm, hsplit⟩ := message_split hroom
  have hget : pkt[40]? = some 128 := by rw [getElem?_of_getD (by omega), hkind]
  have ht : t = 128 := by
    have hhead := congrArg List.head? hm
    rw [List.head?_drop, hget] at hhead
    simpa using hhead.symm
  subst ht
  have hsrc : ((pkt.drop 8).take (24 - 8)).length = 16 := by simp; omega
  have hdst : ((pkt.drop 24).take (40 - 24)).length = 16 := by simp; omega
  obtain ⟨hdr, hswap, hlen, hsame, hfst, hsnd⟩ := setPair_split (a := 8)
    (x := (pkt.drop 24).take (40 - 24)) (y := (pkt.drop 8).take (24 - 8)) hsplit (by omega)
    (by omega)
  rw [hdst] at hfst
  rw [hdst, hsrc] at hsnd
  have hsize : (hdr ++ (129 :: code :: 0 :: 0 :: rest)).length = pkt.length := by
    have := congrArg List.length hm
    simp at this ⊢
    omega
  have hclear : clearIcmp (hdr ++ (128 :: code :: x :: y :: rest)) hdr.length 129 =
      some (hdr ++ (129 :: code :: 0 :: 0 :: rest)) := clearIcmp_eq
  have hmessage := sliceChecked_rest hdr (129 :: code :: 0 :: 0 :: rest)
  have hput (sum : UInt16) : putChecksum (hdr ++ (129 :: code :: 0 :: 0 :: rest)) hdr.length sum =
      some (hdr ++ (129 :: code :: (be16 sum ++ rest))) := putChecksum_eq sum
  rw [hlen] at hclear hmessage
  simp only [hlen] at hput
  refine ⟨hdr, code, rest, ⟨x, y, hm⟩, ?_, hlen, hsame⟩
  unfold epIcmpv6EchoReply
  rw [if_neg (by simp [hget]; omega), sliceChecked_of_le_of_le (by omega) (by omega),
    sliceChecked_of_le_of_le (by omega) (by omega)]
  simp only [Option.bind_eq_bind, Option.bind_some]
  rw [hswap, hclear, Option.bind_some, hmessage, Option.bind_some, hput, Option.bind_some, hsize,
    hfst, hsnd]
  rfl

/-- What is behind the message of a request is behind the message of its answer. -/
theorem excess_eq {t code x y hi lo kind : UInt8} {rest : Bytes}
    (hm : pkt.drop 40 = t :: code :: x :: y :: rest)
    (hfit : 44 ≤ min (40 + fieldAt pkt 4) pkt.length) :
    pkt.length - 40 - (min (40 + fieldAt pkt 4) pkt.length - 40) +
        wordSum (behind (min (40 + fieldAt pkt 4) pkt.length - 40)
          (kind :: code :: ([hi, lo] ++ rest))) = excess pkt := by
  have hrest : rest.length + 44 = pkt.length := by
    have := congrArg List.length hm
    simp at this
    omega
  unfold excess
  rw [hm]
  by_cases hinside : 40 + fieldAt pkt 4 ≤ pkt.length
  · have hcut : min (40 + fieldAt pkt 4) pkt.length - 40 = fieldAt pkt 4 := by omega
    obtain ⟨k, hk⟩ : ∃ k, fieldAt pkt 4 = k + 4 := ⟨fieldAt pkt 4 - 4, by omega⟩
    have hbehind : behind (k + 4) (kind :: code :: ([hi, lo] ++ rest)) =
        behind (k + 4) (t :: code :: x :: y :: rest) := rfl
    rw [hcut, hk, hbehind]
    omega
  · have hcut : min (40 + fieldAt pkt 4) pkt.length - 40 = pkt.length - 40 := by omega
    rw [hcut, wordSum_behind_of_le (by simp; omega), wordSum_behind_of_le (by simp; omega)]
    omega

/-- The answer to an IPv6 request verifies if its message has room for a checksum and what is behind
    the message does not change the sum. -/
theorem reply_v6 (h6 : isIpv6 pkt) (hin : 40 < pkt.length) (hkind : pkt.getD 40 0 = 128)
    (hshort : pkt.length < 65536) :
    (∃ reply, replyOf pkt true = some reply ∧ ∀ r, reply = some r → VerifiedReply r) ↔
      44 ≤ min (40 + fieldAt pkt 4) pkt.length ∧ 65535 ∣ excess pkt := by
  have hreply : replyOf pkt true = epIcmpv6EchoReply pkt := rfl
  rw [hreply]
  by_cases hroom : 44 ≤ pkt.length
  · obtain ⟨hdr, code, rest, ⟨x, y, hm⟩, heq, hlen, hsame⟩ := epIcmpv6EchoReply_eq hroom hkind
    have hrest : rest.length + 44 = pkt.length := by
      have := congrArg List.length hm
      simp at this
      omega
    have hs : (slice hdr 8 16).length = 16 := length_slice (by omega)
    have hd : (slice hdr 24 16).length = 16 := length_slice (by omega)
    have hverifies := @verifies_sealed
      (pseudoHeader (slice hdr 8 16) (slice hdr 24 16) (pkt.length - 40) 58) rest 129 code
      (by rw [length_pseudoHeader hs hd]; omega) (by rw [length_pseudoHeader hs hd]; omega)
    rw [heq]
    generalize checksum (pseudoHeader (slice hdr 8 16) (slice hdr 24 16) (pkt.length - 40) 58 ++
      (129 :: code :: 0 :: 0 :: rest)) = ck at *
    obtain ⟨hi, lo, hck⟩ : ∃ hi lo, be16 ck = [hi, lo] := ⟨_, _, rfl⟩
    rw [hck] at hverifies ⊢
    generalize hr : hdr ++ (129 :: code :: ([hi, lo] ++ rest)) = r at *
    have hrlen : r.length = pkt.length := by
      rw [← hr]
      simp
      omega
    have htake : r.take 8 = pkt.take 8 := by
      rw [← hr, List.take_append_of_le_length (by omega), hsame]
    have hv6 : isIpv6 r := by
      unfold isIpv6
      rw [headD_of_take htake (by omega)]
      exact h6
    have hmessage (n : Nat) : slice r 40 n = (129 :: code :: ([hi, lo] ++ rest)).take n := by
      rw [← hr, slice, List.drop_left' hlen]
    have hsrc : slice r 8 16 = slice hdr 8 16 := by
      rw [← hr, slice_append_left (by omega)]
    have hdst : slice r 24 16 = slice hdr 24 16 := by
      rw [← hr, slice_append_left (by omega)]
    have hverified : VerifiedReply r ↔
        44 ≤ min (40 + fieldAt pkt 4) pkt.length ∧ 65535 ∣ excess pkt := by
      unfold VerifiedReply
      rw [if_pos hv6, hrlen, fieldAt_of_take htake (by omega), hsrc, hdst]
      dsimp only
      rw [hmessage]
      refine and_congr_right fun hfit => ?_
      rw [verifies_cut_iff hs hd (by omega) (by omega) (by decide) hverifies,
        excess_eq hm hfit]
    simpa using hverified
  · rw [epIcmpv6EchoReply_none hin hkind (by omega)]
    simp
    omega

end

/-! ## The result -/

section

variable {c : Crates} {inner : Bytes}

/-- What came out of a datagram is short, and was trimmed. -/
theorem Decrypted.trimmed (hc : c.Untags) (h : Decrypted c inner) :
    inner.length < 65536 ∧
      (isIpv4 inner → 20 ≤ inner.length → fieldAt inner 2 < 20 ∨ inner.length ≤ fieldAt inner 2) := by
  obtain ⟨s, s', raw, data, plain, receiver, counter, hraw, hparse, hopen, rfl⟩ := h
  refine ⟨?_, fun h4 hlen => fieldAt_trimmed h4 hlen⟩
  have hdata : data.length ≤ raw.length := by
    have hstrip : (stripReserved raw).length = raw.length := by
      unfold stripReserved
      split_ifs with hlong
      · exact length_setBytes hlong
      · rfl
    rw [← hstrip]
    unfold parseWgMsg at hparse
    dsimp only at hparse
    split_ifs at hparse
    · cases hparse
    · cases hparse
    · cases hparse
    · simp only [Option.some.injEq, WgMsg.transport.injEq] at hparse
      rw [← hparse.2.2, List.length_drop]
      omega
  have hplain : plain.length + 16 = data.length := by
    unfold Session.openTransport at hopen
    cases hdec : c.decrypt s.recv.cipher (aeadNonce counter) data [] with
    | none => simp [hdec] at hopen
    | some msg =>
      rw [hdec] at hopen
      dsimp only at hopen
      split_ifs at hopen
      · simp only [Prod.mk.injEq, Except.ok.injEq] at hopen
        rw [← hopen.2]
        exact hc _ _ _ _ _ hdec
      · simp at hopen
  have htrim : (trimIpPacket plain).length ≤ plain.length := by
    unfold trimIpPacket
    dsimp only
    split_ifs <;> simp
  omega

theorem head?_of_ne_nil (h : inner ≠ []) : inner.head? = some (inner.headD 0) := by
  obtain ⟨b, rest, rfl⟩ := List.exists_cons_of_ne_nil h
  rfl

/-- The classification of an IPv4 packet, whose header is there. -/
theorem epClassify_v4 (h4 : isIpv4 inner) (hihl : 20 ≤ ihlOf inner)
    (hlen : ihlOf inner ≤ inner.length) : ∃ src dst, epClassify inner =
      transportIn inner src dst (inner.getD 9 0) (ihlOf inner)
        (min (fieldAt inner 2) inner.length) false := by
  have hne : inner ≠ [] := by
    rintro rfl
    simp at hlen
    omega
  obtain ⟨total, htotal, hfield⟩ := wordChecked_field (show 2 + 1 < inner.length by omega)
  have hihl' : (inner.headD 0 &&& 0x0f).toNat * 4 = ihlOf inner := rfl
  have hv4 : inner.headD 0 >>> 4 = 4 := h4
  unfold epClassify
  rw [head?_of_ne_nil hne]
  dsimp only
  rw [if_pos hv4, hihl', if_neg (by omega), htotal, sliceChecked_of_le_of_le (by omega) (by omega),
    sliceChecked_of_le_of_le (by omega) (by omega), getElem?_of_getD (by omega), ← hfield]
  exact ⟨_, _, rfl⟩

theorem epClassify_v6 (h6 : isIpv6 inner) (hlen : 40 ≤ inner.length) : ∃ src dst,
    epClassify inner =
      transportIn inner src dst (inner.getD 6 0) 40 inner.length true := by
  have hne : inner ≠ [] := by
    rintro rfl
    simp at hlen
  have h4 : ¬ inner.headD 0 >>> 4 = 4 := by
    rw [show inner.headD 0 >>> 4 = 6 from h6]
    decide
  have hv6 : inner.headD 0 >>> 4 = 6 := h6
  unfold epClassify
  rw [head?_of_ne_nil hne]
  dsimp only
  rw [if_neg h4, if_pos hv6, if_neg (by omega), sliceChecked_of_le_of_le (by omega) (by omega),
    sliceChecked_of_le_of_le (by omega) (by omega), getElem?_of_getD (by omega)]
  exact ⟨_, _, rfl⟩

theorem icmpOffset_v4 (h4 : isIpv4 inner) (hihl : 20 ≤ ihlOf inner) (hne : inner ≠ []) :
    icmpOffset inner = if ihlOf inner < inner.length then some (ihlOf inner) else none := by
  have hihl' : (inner.headD 0 &&& 0x0f).toNat * 4 = ihlOf inner := rfl
  have hv4 : inner.headD 0 >>> 4 = 4 := h4
  unfold icmpOffset
  rw [head?_of_ne_nil hne]
  dsimp only
  rw [if_pos hv4, hihl']
  simp only [hihl, true_and]

theorem icmpOffset_v6 (h6 : isIpv6 inner) (hne : inner ≠ []) :
    icmpOffset inner = if 40 < inner.length then some 40 else none := by
  have h4 : ¬ inner.headD 0 >>> 4 = 4 := by
    rw [show inner.headD 0 >>> 4 = 6 from h6]
    decide
  have hv6 : inner.headD 0 >>> 4 = 6 := h6
  unfold icmpOffset
  rw [head?_of_ne_nil hne]
  dsimp only
  rw [if_neg h4, if_pos hv6]

/-- An IPv4 packet whose header is there. -/
theorem stagedSafely_v4 (h4 : isIpv4 inner) (hihl : 20 ≤ ihlOf inner)
    (hlen : ihlOf inner ≤ inner.length) (hshort : inner.length < 65536)
    (htrim : fieldAt inner 2 < 20 ∨ inner.length ≤ fieldAt inner 2) :
    StagedSafely inner ↔ SoundV4 inner := by
  have hne : inner ≠ [] := by
    rintro rfl
    simp at hlen
    omega
  have hoff := icmpOffset_v4 h4 hihl hne
  obtain ⟨src, dst, hclass⟩ := epClassify_v4 h4 hihl hlen
  rw [stagedSafely_transport hclass (Nat.min_le_right _ _) hoff]
  have hecho (hin : ihlOf inner < inner.length) (hkind : inner.getD (ihlOf inner) 0 = 8) :=
    reply_v4 h4 hihl hin hkind (hoff.trans (if_pos hin)) hshort htrim
  constructor
  · rintro ⟨hudp, hicmp⟩
    exact ⟨hudp, fun hproto hin hkind => (hecho hin hkind).mp (hicmp hproto hin hkind)⟩
  · rintro ⟨hudp, hicmp⟩
    exact ⟨hudp, fun hproto hin hkind => (hecho hin hkind).mpr (hicmp hproto hin hkind)⟩

theorem stagedSafely_v6 (h6 : isIpv6 inner) (hlen : 40 ≤ inner.length)
    (hshort : inner.length < 65536) : StagedSafely inner ↔ SoundV6 inner := by
  have hne : inner ≠ [] := by
    rintro rfl
    simp at hlen
  obtain ⟨src, dst, hclass⟩ := epClassify_v6 h6 hlen
  rw [stagedSafely_transport hclass (le_refl _) (icmpOffset_v6 h6 hne)]
  constructor
  · rintro ⟨hudp, hicmp⟩
    exact ⟨hudp, fun hproto hin hkind =>
      (reply_v6 h6 hin hkind hshort).mp (hicmp hproto hin hkind)⟩
  · rintro ⟨hudp, hicmp⟩
    exact ⟨hudp, fun hproto hin hkind =>
      (reply_v6 h6 hin hkind hshort).mpr (hicmp hproto hin hkind)⟩

/-- Everything else is skipped. -/
theorem epClassify_skip (h4 : ¬ (isIpv4 inner ∧ 20 ≤ ihlOf inner ∧ ihlOf inner ≤ inner.length))
    (h6 : ¬ (isIpv6 inner ∧ 40 ≤ inner.length)) : epClassify inner = some .skip := by
  unfold epClassify
  by_cases hne : inner = []
  · rw [hne]
    rfl
  rw [head?_of_ne_nil hne]
  dsimp only
  have hihl' : (inner.headD 0 &&& 0x0f).toNat * 4 = ihlOf inner := rfl
  by_cases hv4 : inner.headD 0 >>> 4 = 4
  · rw [if_pos hv4, hihl', if_pos]
    by_contra hok
    exact h4 ⟨hv4, by omega, by omega⟩
  · rw [if_neg hv4]
    by_cases hv6 : inner.headD 0 >>> 4 = 6
    · rw [if_pos hv6, if_pos]
      by_contra hok
      exact h6 ⟨hv6, by omega⟩
    · rw [if_neg hv6]

/-- A decrypted packet is staged safely exactly when it is sound. -/
theorem staged_safely_iff (hc : c.Untags) (h : Decrypted c inner) :
    StagedSafely inner ↔ Sound inner := by
  obtain ⟨hshort, htrim⟩ := h.trimmed hc
  have hversions : isIpv4 inner → ¬ isIpv6 inner := by
    intro h4 h6
    have h46 := h4.symm.trans h6
    revert h46
    decide
  unfold Sound
  by_cases h4 : isIpv4 inner ∧ 20 ≤ ihlOf inner ∧ ihlOf inner ≤ inner.length
  · obtain ⟨hv4, hihl, hlen⟩ := h4
    rw [stagedSafely_v4 hv4 hihl hlen hshort (htrim hv4 (by omega))]
    exact ⟨fun hs => ⟨fun _ _ _ => hs, fun hv6 => absurd hv6 (hversions hv4)⟩,
      fun hs => hs.1 hv4 hihl hlen⟩
  · by_cases h6 : isIpv6 inner ∧ 40 ≤ inner.length
    · rw [stagedSafely_v6 h6.1 h6.2 hshort]
      exact ⟨fun hs => ⟨fun hv4 => absurd h6.1 (hversions hv4), fun _ _ => hs⟩,
        fun hs => hs.2 h6.1 h6.2⟩
    · refine ⟨fun _ => ⟨fun hv4 hihl hlen => absurd ⟨hv4, hihl, hlen⟩ h4,
        fun hv6 hlen => absurd ⟨hv6, hlen⟩ h6⟩, fun _ => ?_⟩
      exact stagedSafely_skip (epClassify_skip h4 h6)

end

/-- Every packet that fits a datagram can be decrypted from one. -/
theorem decrypted_sealed {c : Crates} (hc : c.Lawful) {inner : Bytes}
    (h : inner.length ≤ 65488) : Decrypted c (trimIpPacket (Session.padded inner)) := by
  have hlen := length_padded_lt inner
  obtain ⟨ct, hct⟩ := hc.seal_short sampleSession.recv.cipher (aeadNonce 0) (Session.padded inner) []
    (by omega)
  have hsize := hc.length_seal _ _ _ _ _ hct
  have hopen := hc.open_seal _ _ _ _ _ hct
  have haccept : (sampleSession.recv.replay.accept 0).1 = true := by decide
  have hplain : (sampleSession.openTransport c 0 ct).2 = .ok (Session.padded inner) := by
    unfold Session.openTransport
    rw [hopen]
    dsimp only
    rw [if_pos haccept]
  refine ⟨sampleSession, (sampleSession.openTransport c 0 ct).1, le32 4 ++ le32 9 ++ le64 0 ++ ct,
    ct, Session.padded inner, 9, 0, ?_, ?_, Prod.ext rfl hplain, rfl⟩
  · simp
    omega
  · have hzero : le32 4 ++ le32 9 ++ le64 0 ++ ct = 4 :: 0 :: 0 :: 0 :: (le32 9 ++ le64 0 ++ ct) :=
      rfl
    rw [hzero, stripReserved_zeros, ← hzero]
    exact parseWgMsg_transport 9 0 (by omega)

theorem sampleCrates_untags : sampleCrates.Untags := by
  intro key nonce ct aad msg h
  exact (ChaChaPoly.length_encrypt (ChaChaPoly.seal_open h)).symm

/-- A UDP packet without payload whose UDP length field is `len`. -/
def udpPacket (len : UInt8) : Bytes :=
  [0x45, 0, 0, 28, 0, 0, 0, 0, 64, 17, 0, 0, 10, 0, 0, 1, 10, 0, 0, 2, 1, 2, 3, 4, 0, len, 0, 0]

theorem udpPacket_decrypted (len : UInt8) : Decrypted sampleCrates (udpPacket len) := by
  have hfirst : (udpPacket len).headD 0 = 0x45 := rfl
  have hv6 : ¬ isIpv6 (udpPacket len) := by
    unfold isIpv6
    rw [hfirst]
    decide
  have hformed : WellFormed (udpPacket len) := by
    have htotal : slice (udpPacket len) 2 2 = [0, 28] := rfl
    have hlen : (udpPacket len).length = 28 := rfl
    refine .inl ⟨by omega, ?_, ?_⟩
    · rw [hfirst]
      decide
    · rw [htotal, hlen]
      decide
  have htrim := (trim_padded_iff hformed).mpr fun h6 => absurd h6 hv6
  have hdecrypted : Decrypted sampleCrates (trimIpPacket (Session.padded (udpPacket len))) :=
    decrypted_sealed sampleCrates_lawful (by simp [udpPacket])
  rwa [htrim] at hdecrypted

theorem udpPacket_staged : StagedSafely (udpPacket 8) ↔ Sound (udpPacket 8) :=
  staged_safely_iff sampleCrates_untags (udpPacket_decrypted 8)

/-- With a UDP length of 0 the payload is from 28 to 20. -/
theorem udpPacket_panics : Decrypted sampleCrates (udpPacket 0) ∧ ¬ StagedSafely (udpPacket 0) := by
  refine ⟨udpPacket_decrypted 0, fun h => ?_⟩
  have hrange := h.range (.new (.v4 0x0A000001#32) 258) (.new (.v4 0x0A000002#32) 772) 28 20
    (by decide)
  omega

end RustCrash.Wireguard
