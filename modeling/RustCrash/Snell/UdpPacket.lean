import RustCrash.Proto.SocksAddr
import RustCrash.Snell.Framing

/-
  The datagrams inside snell's frames: the request with its target, and the response with the
  address that it comes from.

  The parser of requests wants a byte behind the header of a domain, and the writer makes packets
  without one. So a request comes back exactly if its target is an address or its payload is not
  empty (`packets_iff`). The responses always do.
-/

namespace RustCrash.Snell

open Lib Lib.Net Proto Routing

def cmdUdpForward : UInt8 := 0x01

/-! ## Requests -/

def udpRequestHeaderLen (target : NetAddr) : Nat :=
  match target.host with
  | .domain d => 3 + (utf8 d).length + 2
  | .ip (.v4 _) => 1 + 2 + 4 + 2
  | .ip (.v6 _) => 1 + 2 + 16 + 2

/-- What stands in front of the payload. -/
def requestHeader (target : NetAddr) : Bytes :=
  let host := match target.host with
    | .domain d => UInt8.ofNat (utf8 d).length :: utf8 d
    | .ip (.v4 v4) => 0x00 :: 0x04 :: octets4 v4
    | .ip (.v6 v6) => 0x00 :: 0x06 :: octets6 v6
  cmdUdpForward :: host ++ be16 target.port

def snellUdpFrame (target : NetAddr) (payload : Bytes) : Result Bytes :=
  let headerLen := udpRequestHeaderLen target
  let maxPayload := maxLength - headerLen
  if maxLength < headerLen ∨ maxPayload < payload.length then
    .error (.protocol "snell: UDP payload too large")
  else .ok (requestHeader target ++ payload)

/-- The address behind the marker, and its length. -/
def parseRequestIp (frame : Bytes) : Result (Nat × IpAddr) :=
  if frame.getD 2 0 = 0x04 then do
    ensure (3 + 4 + 2 ≤ frame.length) (.protocol "snell: invalid UDP IPv4 request")
    return (4, .v4 (ofOctets4 (slice frame 3 4)))
  else if frame.getD 2 0 = 0x06 then do
    ensure (3 + 16 + 2 ≤ frame.length) (.protocol "snell: invalid UDP IPv6 request")
    return (16, .v6 (ofOctets6 (slice frame 3 16)))
  else .error (.protocol "snell: invalid UDP address type")

def parseSnellUdpRequest (frame : Bytes) : Result (NetAddr × Bytes) := do
  ensure (2 ≤ frame.length ∧ frame.getD 0 0 = cmdUdpForward)
    (.protocol "snell: invalid UDP request")
  let hostLen := (frame.getD 1 0).toNat
  if hostLen ≠ 0 then
    -- a byte more than the header has
    ensure (2 + hostLen + 2 < frame.length) (.protocol "snell: invalid UDP domain request")
    let host ← okOr (fromUtf8 (slice frame 2 hostLen)) (.protocol "snell: bad udp host")
    let port := ofBE16 (slice frame (2 + hostLen) 2)
    return (⟨.domain host, port⟩, frame.drop (4 + hostLen))
  else
    ensure (3 ≤ frame.length) (.protocol "snell: invalid UDP IP request")
    let (addrLen, ip) ← parseRequestIp frame
    let port := ofBE16 (slice frame (3 + addrLen) 2)
    return (.ip ip port, frame.drop (5 + addrLen))

/-! ## Responses -/

/-- What stands in front of the payload. -/
def responseHeader (ip : IpAddr) (port : UInt16) : Bytes :=
  let addr := match ip with
    | .v4 v4 => 0x04 :: octets4 v4
    | .v6 v6 => 0x06 :: octets6 v6
  addr ++ be16 port

def snellUdpResponseFrame (origin : NetAddr) (payload : Bytes) : Result Bytes :=
  match origin.host with
  | .ip ip => .ok (responseHeader ip origin.port ++ payload)
  | .domain _ => .error (.protocol
      "snell: UDP response address must be an IP (resolve domain targets first)")

/-- `addr_len`. -/
def responseAddrLen (version : UInt8) : Result Nat :=
  if version = 0x04 then .ok 4
  else if version = 0x06 then .ok 16
  else .error (.protocol "snell: ip version invalid")

def parseSnellUdpResponse : Bytes → Result (NetAddr × Bytes)
  | [] => .error (.protocol "snell: insufficient UDP length")
  | version :: rest => do
    let addrLen ← responseAddrLen version
    ensure (addrLen + 2 ≤ rest.length) (.protocol "snell: insufficient UDP length")
    let ip :=
      if version = 0x04 then .v4 (ofOctets4 (rest.take 4)) else .v6 (ofOctets6 (rest.take 16))
    let port := ofBE16 (slice rest addrLen 2)
    return (.ip ip port, rest.drop (addrLen + 2))

/-- The request is within a frame and comes back, so does the response, and a header that is cut
    short is rejected. -/
structure PacketCodec (target : NetAddr) (payload frame : Bytes) (origin : NetAddr)
    (reply response : Bytes) : Prop where
  fits : frame.length ≤ maxLength
  request : parseSnellUdpRequest frame = .ok (target, payload)
  requestCut : ∀ p, p <+: requestHeader target → p ≠ requestHeader target →
    ∃ e, parseSnellUdpRequest p = .error e
  response : parseSnellUdpResponse response = .ok (origin, reply)
  responseCut : ∀ ip, origin.host = .ip ip → ∀ p, p <+: responseHeader ip origin.port →
    p ≠ responseHeader ip origin.port → ∃ e, parseSnellUdpResponse p = .error e

/-! ## Addresses -/

/-- The marker of an address and its octets. -/
inductive IpBytes : IpAddr → UInt8 → Bytes → Prop where
  | v4 (v4 : Ipv4Addr) : IpBytes (.v4 v4) 0x04 (octets4 v4)
  | v6 (v6 : Ipv6Addr) : IpBytes (.v6 v6) 0x06 (octets6 v6)

theorem IpBytes.headers (ip : IpAddr) (port : UInt16) :
    ∃ version octets, IpBytes ip version octets ∧
      requestHeader (.ip ip port) = [cmdUdpForward, 0x00, version] ++ (octets ++ be16 port) ∧
      responseHeader ip port = [version] ++ (octets ++ be16 port) := by
  cases ip with
  | v4 v4 => exact ⟨0x04, octets4 v4, .v4 v4, rfl, rfl⟩
  | v6 v6 => exact ⟨0x06, octets6 v6, .v6 v6, rfl, rfl⟩

/-- Octets and a port behind a front of `k` bytes, and what is behind them. -/
theorem slices_behind {front : Bytes} {k j : Nat} (hk : front.length = k) (hj : k + 2 = j)
    (octets : Bytes) (port : UInt16) (payload : Bytes) :
    slice (front ++ (octets ++ be16 port) ++ payload) k octets.length = octets ∧
      slice (front ++ (octets ++ be16 port) ++ payload) (k + octets.length) 2 = be16 port ∧
      (front ++ (octets ++ be16 port) ++ payload).drop (j + octets.length) = payload := by
  refine ⟨?_, ?_, ?_⟩
  · rw [List.append_assoc, List.append_assoc, ← Nat.zero_add k]
    exact (slice_skip hk).trans (slice_here rfl)
  · have hboth : (front ++ octets).length = k + octets.length := by rw [List.length_append, hk]
    rw [← List.append_assoc, List.append_assoc (front ++ octets), ← Nat.zero_add (k + _)]
    exact (slice_skip hboth).trans (slice_here (length_be16 port))
  · apply List.drop_left'
    rw [List.length_append, List.length_append, length_be16]
    omega

/-! ## Reading a request -/

/-- The fields of a domain's request are where they are read. -/
theorem parseRequest_domain {d : Str} (hpos : 1 ≤ (utf8 d).length) (hmax : (utf8 d).length ≤ 255)
    (port : UInt16) (payload : Bytes) :
    parseSnellUdpRequest (requestHeader ⟨.domain d, port⟩ ++ payload) =
      if payload = [] then .error (.protocol "snell: invalid UDP domain request")
      else .ok (⟨.domain d, port⟩, payload) := by
  have hcount : (UInt8.ofNat (utf8 d).length).toNat = (utf8 d).length := by
    rw [UInt8.toNat_ofNat', Nat.mod_eq_of_lt (by omega)]
  have hheader : requestHeader ⟨.domain d, port⟩ =
      [cmdUdpForward, UInt8.ofNat (utf8 d).length] ++ (utf8 d ++ be16 port) := rfl
  obtain ⟨hhost, hport, hpayload⟩ :=
    @slices_behind [cmdUdpForward, UInt8.ofNat (utf8 d).length] 2 4 rfl rfl (utf8 d) port payload
  have hlen : (requestHeader ⟨.domain d, port⟩ ++ payload).length =
      4 + (utf8 d).length + payload.length := by
    rw [hheader]
    simp only [List.length_append, List.length_cons, List.length_nil, length_be16]
    omega
  have hbyte : (requestHeader ⟨.domain d, port⟩ ++ payload).getD 1 0 =
      UInt8.ofNat (utf8 d).length := rfl
  rw [← hheader] at hhost hport hpayload
  unfold parseSnellUdpRequest
  rw [ensure_of ⟨by omega, rfl⟩, bind_ok]
  dsimp only
  rw [hbyte, hcount, if_pos (by omega), hlen]
  by_cases hempty : payload = []
  · rw [if_pos hempty, ensure_of_not (by rw [hempty, List.length_nil]; omega), bind_error]
  · have hsome := List.length_pos_of_ne_nil hempty
    rw [if_neg hempty, ensure_of (by omega), bind_ok]
    rw [hhost, fromUtf8_utf8, okOr_some, bind_ok, hport, hpayload, ofBE16_be16]
    rfl

theorem parseRequestIp_bytes {ip : IpAddr} {version : UInt8} {octets : Bytes}
    (h : IpBytes ip version octets) (port : UInt16) (payload : Bytes) :
    parseRequestIp ([cmdUdpForward, 0x00, version] ++ (octets ++ be16 port) ++ payload) =
      .ok (octets.length, ip) := by
  obtain ⟨haddr, -, -⟩ :=
    @slices_behind [cmdUdpForward, 0x00, version] 3 5 rfl rfl octets port payload
  have hbyte : ([cmdUdpForward, 0x00, version] ++ (octets ++ be16 port) ++ payload).getD 2 0 =
      version := rfl
  have hlen : 5 + octets.length ≤
      ([cmdUdpForward, 0x00, version] ++ (octets ++ be16 port) ++ payload).length := by
    simp only [List.length_append, List.length_cons, List.length_nil, length_be16]
    omega
  unfold parseRequestIp
  rw [hbyte]
  cases h with
  | v4 v4 =>
    rw [length_octets4] at haddr hlen ⊢
    rw [if_pos rfl, ensure_of (by omega), bind_ok, haddr, ofOctets4_octets4]
    rfl
  | v6 v6 =>
    rw [length_octets6] at haddr hlen ⊢
    rw [if_neg (by decide), if_pos rfl, ensure_of (by omega), bind_ok, haddr, ofOctets6_octets6]
    rfl

theorem parseRequest_ip (ip : IpAddr) (port : UInt16) (payload : Bytes) :
    parseSnellUdpRequest (requestHeader (.ip ip port) ++ payload) =
      .ok (.ip ip port, payload) := by
  obtain ⟨version, octets, hbytes, hheader, -⟩ := IpBytes.headers ip port
  have hip := parseRequestIp_bytes hbytes port payload
  obtain ⟨-, hport, hpayload⟩ :=
    @slices_behind [cmdUdpForward, 0x00, version] 3 5 rfl rfl octets port payload
  have hzero : ([cmdUdpForward, 0x00, version] ++ (octets ++ be16 port) ++ payload).getD 1 0 =
      0 := rfl
  have hlen : 3 ≤
      ([cmdUdpForward, 0x00, version] ++ (octets ++ be16 port) ++ payload).length := by
    simp only [List.length_append, List.length_cons, List.length_nil]
    omega
  rw [hheader]
  unfold parseSnellUdpRequest
  rw [ensure_of ⟨by omega, rfl⟩, bind_ok]
  dsimp only
  rw [hzero, if_neg (show ¬ (0 : UInt8).toNat ≠ 0 by decide), ensure_of hlen, bind_ok, hip, bind_ok]
  dsimp only
  rw [hport, hpayload, ofBE16_be16]
  rfl

/-! ## Reading a response -/

theorem IpBytes.addrLen {ip : IpAddr} {version : UInt8} {octets : Bytes}
    (h : IpBytes ip version octets) : responseAddrLen version = .ok octets.length := by
  cases h with
  | v4 v4 =>
    rw [length_octets4]
    rfl
  | v6 v6 =>
    rw [length_octets6]
    rfl

theorem parseResponse_ip (ip : IpAddr) (port : UInt16) (payload : Bytes) :
    parseSnellUdpResponse (responseHeader ip port ++ payload) = .ok (.ip ip port, payload) := by
  obtain ⟨version, octets, hbytes, -, hheader⟩ := IpBytes.headers ip port
  obtain ⟨haddr, hport, hpayload⟩ := @slices_behind [] 0 2 rfl rfl octets port payload
  rw [List.nil_append] at haddr hport hpayload
  rw [Nat.zero_add] at hport
  rw [Nat.add_comm] at hpayload
  have hlen : octets.length + 2 ≤ (octets ++ be16 port ++ payload).length := by
    simp only [List.length_append, length_be16]
    omega
  rw [hheader, List.append_assoc, List.singleton_append]
  unfold parseSnellUdpResponse
  dsimp only
  rw [hbytes.addrLen, bind_ok, ensure_of hlen, bind_ok, hport, hpayload, ofBE16_be16]
  unfold slice at haddr
  rw [List.drop_zero] at haddr
  cases hbytes with
  | v4 v4 =>
    rw [length_octets4] at haddr
    rw [if_pos rfl, haddr, ofOctets4_octets4]
    rfl
  | v6 v6 =>
    rw [length_octets6] at haddr
    rw [if_neg (by decide), haddr, ofOctets6_octets6]
    rfl

/-! ## Cut short -/

theorem prefix_lt {p q : Bytes} (h : p <+: q) (hne : p ≠ q) : p.length < q.length := by
  refine Nat.lt_of_le_of_ne h.length_le fun hlen => hne (h.eq_of_length hlen)

theorem prefix_getD {p q : Bytes} (h : p <+: q) {i : Nat} (hi : i < p.length) :
    p.getD i 0 = q.getD i 0 := by
  obtain ⟨t, rfl⟩ := h
  rw [List.getD_eq_getElem?_getD, List.getD_eq_getElem?_getD, List.getElem?_append_left hi]

/-- A request that is accepted has the length its first bytes announce, and more for a domain. -/
theorem parseRequest_announced {frame : Bytes} {x : NetAddr × Bytes}
    (h : parseSnellUdpRequest frame = .ok x) : 2 ≤ frame.length ∧
      if (frame.getD 1 0).toNat ≠ 0 then 4 + (frame.getD 1 0).toNat < frame.length
      else frame.getD 2 0 = 0x04 ∧ 9 ≤ frame.length ∨ frame.getD 2 0 = 0x06 ∧ 21 ≤ frame.length := by
  unfold parseSnellUdpRequest at h
  obtain ⟨_, hstart, h⟩ := bind_eq_ok.mp h
  refine ⟨(ensure_eq_ok.mp hstart).1, ?_⟩
  dsimp only at h
  split_ifs at h ⊢ with hdomain
  · obtain ⟨_, hlen, -⟩ := bind_eq_ok.mp h
    have hlen := ensure_eq_ok.mp hlen
    omega
  · obtain ⟨-, -, h⟩ := bind_eq_ok.mp h
    obtain ⟨ip, hip, -⟩ := bind_eq_ok.mp h
    unfold parseRequestIp at hip
    split_ifs at hip with h4 h6
    · obtain ⟨_, hlen, -⟩ := bind_eq_ok.mp hip
      exact .inl ⟨h4, ensure_eq_ok.mp hlen⟩
    · obtain ⟨_, hlen, -⟩ := bind_eq_ok.mp hip
      exact .inr ⟨h6, ensure_eq_ok.mp hlen⟩

/-- A domain that a request can name. -/
def NamesHost (target : NetAddr) : Prop :=
  ∀ d, target.host = .domain d → 1 ≤ (utf8 d).length ∧ (utf8 d).length ≤ 255

theorem requestHeader_cut {target : NetAddr} (h : NamesHost target) {p : Bytes}
    (hp : p <+: requestHeader target) (hne : p ≠ requestHeader target) :
    ∃ e, parseSnellUdpRequest p = .error e := by
  cases hparse : parseSnellUdpRequest p with
  | error e => exact ⟨e, rfl⟩
  | ok x =>
    exfalso
    obtain ⟨htwo, hannounced⟩ := parseRequest_announced hparse
    have hlt := prefix_lt hp hne
    rw [prefix_getD hp htwo] at hannounced
    obtain ⟨host, port⟩ := target
    cases host with
    | domain d =>
      obtain ⟨hpos, hmax⟩ := h d rfl
      have hcount : ((requestHeader ⟨.domain d, port⟩).getD 1 0).toNat = (utf8 d).length := by
        show (UInt8.ofNat (utf8 d).length).toNat = (utf8 d).length
        rw [UInt8.toNat_ofNat', Nat.mod_eq_of_lt (by omega)]
      have hlen : (requestHeader ⟨.domain d, port⟩).length = 4 + (utf8 d).length := by
        unfold requestHeader
        simp only [List.cons_append, List.length_append, List.length_cons, length_be16]
        omega
      rw [hcount, if_pos (by omega)] at hannounced
      omega
    | ip ip =>
      obtain ⟨version, octets, hbytes, hheader, -⟩ := IpBytes.headers ip port
      unfold NetAddr.ip at hheader
      have hlen := congrArg List.length hheader
      have hzero : ((requestHeader ⟨.ip ip, port⟩).getD 1 0).toNat = 0 := by
        rw [hheader]
        rfl
      have hmark : (requestHeader ⟨.ip ip, port⟩).getD 2 0 = version := by
        rw [hheader]
        rfl
      simp only [List.length_append, List.length_cons, List.length_nil, length_be16] at hlen
      rw [hzero, if_neg (not_not_intro rfl)] at hannounced
      have hthree : 2 < p.length := by omega
      rw [prefix_getD hp hthree, hmark] at hannounced
      cases hbytes with
      | v4 v4 =>
        rw [length_octets4] at hlen
        rcases hannounced with ⟨-, hnine⟩ | ⟨hsix, -⟩
        · omega
        · exact absurd hsix (by decide)
      | v6 v6 =>
        rw [length_octets6] at hlen
        rcases hannounced with ⟨hfour, -⟩ | ⟨-, hall⟩
        · exact absurd hfour (by decide)
        · omega

theorem responseHeader_cut (ip : IpAddr) (port : UInt16) {p : Bytes}
    (hp : p <+: responseHeader ip port) (hne : p ≠ responseHeader ip port) :
    ∃ e, parseSnellUdpResponse p = .error e := by
  obtain ⟨version, octets, hbytes, -, hheader⟩ := IpBytes.headers ip port
  have hlt := prefix_lt hp hne
  rw [hheader] at hp hlt
  simp only [List.length_append, List.length_cons, List.length_nil, length_be16] at hlt
  cases p with
  | nil => exact ⟨_, rfl⟩
  | cons b p =>
    obtain ⟨rfl, -⟩ := List.cons_prefix_cons.mp hp
    rw [List.length_cons] at hlt
    unfold parseSnellUdpResponse
    dsimp only
    rw [hbytes.addrLen, bind_ok, ensure_of_not (by omega)]
    exact ⟨_, rfl⟩

/-! ## Both codecs -/

theorem snellUdpFrame_eq_ok {target : NetAddr} {payload frame : Bytes}
    (h : snellUdpFrame target payload = .ok frame) :
    frame = requestHeader target ++ payload ∧ frame.length ≤ maxLength := by
  have hlen : (requestHeader target).length ≤ udpRequestHeaderLen target := by
    obtain ⟨host, port⟩ := target
    unfold requestHeader udpRequestHeaderLen
    rcases host with d | v4 | v6
    · simp only [List.cons_append, List.length_append, List.length_cons, length_be16]
      omega
    · simp only [List.cons_append, List.length_append, List.length_cons, length_be16,
        length_octets4]
      omega
    · simp only [List.cons_append, List.length_append, List.length_cons, length_be16,
        length_octets6]
      omega
  unfold snellUdpFrame at h
  dsimp only at h
  split_ifs at h with hlarge
  obtain rfl := Except.ok.inj h
  refine ⟨rfl, ?_⟩
  rw [List.length_append]
  omega

/-- A request is one the parser takes exactly if it has a payload or its target is an address;
    all the rest always holds. -/
theorem packets_iff {target : NetAddr} (htarget : NamesHost target) {payload frame : Bytes}
    (hframe : snellUdpFrame target payload = .ok frame) {origin : NetAddr} {reply response : Bytes}
    (hresponse : snellUdpResponseFrame origin reply = .ok response) :
    PacketCodec target payload frame origin reply response ↔
      ¬ (target.host.asDomain.isSome ∧ payload = []) := by
  obtain ⟨rfl, hfits⟩ := snellUdpFrame_eq_ok hframe
  obtain ⟨host, port⟩ := origin
  cases host with
  | domain d => cases hresponse
  | ip ip =>
    obtain rfl := Except.ok.inj hresponse
    -- all but the request itself
    have hcodec : PacketCodec target payload (requestHeader target ++ payload) ⟨.ip ip, port⟩ reply
        (responseHeader ip port ++ reply) ↔
          parseSnellUdpRequest (requestHeader target ++ payload) = .ok (target, payload) := by
      constructor
      · exact fun h => h.request
      · intro hrequest
        refine ⟨hfits, hrequest, fun p => requestHeader_cut htarget, parseResponse_ip ip port reply,
          fun ip' hip => ?_⟩
        obtain rfl := Host.ip.inj hip
        exact fun p => responseHeader_cut ip port
    rw [hcodec]
    obtain ⟨host, port'⟩ := target
    cases host with
    | domain d =>
      obtain ⟨hpos, hmax⟩ := htarget d rfl
      rw [parseRequest_domain hpos hmax]
      by_cases hempty : payload = []
      · rw [if_pos hempty]
        exact iff_of_false nofun fun h => h ⟨rfl, hempty⟩
      · rw [if_neg hempty]
        exact iff_of_true rfl fun h => hempty h.2
    | ip ip' =>
      exact iff_of_true (parseRequest_ip ip' port' payload) fun h => Bool.false_ne_true h.1

theorem packets_iff_sample :
    PacketCodec ⟨.domain ['a'], 53⟩ [7] (requestHeader ⟨.domain ['a'], 53⟩ ++ [7])
      (.ip (.v4 0x01020304) 53) [] (responseHeader (.v4 0x01020304) 53 ++ []) :=
  (packets_iff (fun d hd => by
      obtain rfl := Host.domain.inj hd
      decide)
    (by rfl) (by rfl)).mpr fun h => List.cons_ne_nil 7 [] h.2

/-- A domain and no payload. -/
theorem empty_packet_rejected :
    snellUdpFrame ⟨.domain ['a'], 53⟩ [] = .ok [1, 1, 97, 0, 53] ∧
      parseSnellUdpRequest [1, 1, 97, 0, 53] =
        .error (.protocol "snell: invalid UDP domain request") := by
  constructor <;> rfl

end RustCrash.Snell
