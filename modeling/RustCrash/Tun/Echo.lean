import RustCrash.Lib.OnesComplement
import RustCrash.Tun.ClassifySafe

/-
  The answers to echo requests (`icmpv4_echo_reply`, `icmpv6_echo_reply`), for every packet that
  `classify_packet` takes for an echo request.

  The addresses are swapped, the identifier, the sequence number and the data are kept, and every
  checksum of the answer verifies. Its IP length field is the one of the request, also where that
  reaches past what was read: `echo_reply_iff`.
-/

namespace RustCrash.Tun

open Lib Lib.OnesComplement

/-! ## The responder -/

/-- The words of all parts added up and folded. -/
def inetSum (parts : List Bytes) : UInt16 := (foldCarry (parts.foldl addWords 0)).toUInt16

def checksum (parts : List Bytes) : UInt16 := ~~~inetSum parts

/-- The message of an answer: its type, code 0, no checksum yet. -/
def replyMessage (kind : UInt8) (icmp : Bytes) : Bytes :=
  setBytes (setBytes (setBytes icmp 0 [kind]) 1 [0]) 2 [0, 0]

/-- The header of an answer: a fresh hop limit, its addresses, its checksum. -/
def replyHeaderV4 (out src dst : Bytes) : Bytes :=
  let out := setBytes out 8 [64]
  let out := setPair out 12 src dst
  let out := setBytes out 10 [0, 0]
  setBytes out 10 (be16 (checksum [out]))

def icmpv4EchoReply (pkt : Bytes) : Option Bytes :=
  match pkt.head? with
  | none => none
  | some vihl =>
    let ihl := (vihl &&& 0x0f).toNat * 4
    if ihl < 20 ∨ pkt.length < ihl + 8 then none
    else
      let totalLen := (be16At pkt 2).toNat
      let stop := max (ihl + 8) (min totalLen pkt.length)
      let icmp := slice pkt ihl (stop - ihl)
      if byteAt icmp 0 ≠ icmpv4EchoRequest then none
      else
        let icmpOut := replyMessage 0 icmp
        let icmpOut := setBytes icmpOut 2 (be16 (checksum [icmpOut]))
        some (replyHeaderV4 (pkt.take ihl) (slice pkt 16 4) (slice pkt 12 4) ++ icmpOut)

/-- The pseudo-header as the responder fills it in. -/
def pseudoOf (src dst : Bytes) (len : Nat) : Bytes :=
  let pseudo := setPair (List.replicate 40 0) 0 src dst
  let pseudo := setBytes pseudo 32 (be32 (UInt32.ofNat len))
  setBytes pseudo 39 [ipprotoIcmpv6]

/-- The base header and the extension chain of an answer: a fresh hop limit, its addresses. -/
def replyHeaderV6 (out src dst : Bytes) : Bytes := setPair (setBytes out 7 [64]) 8 src dst

def icmpv6EchoReply (pkt : Bytes) : Option Bytes :=
  if pkt.length < 48 then none
  else
    let payloadLen := (be16At pkt 4).toNat
    let stop := 40 + max 8 (min payloadLen (pkt.length - 40))
    match ipv6UpperLayer pkt stop with
    | .upper proto off =>
      if proto ≠ ipprotoIcmpv6 then none
      else if stop < off + 8 then none
      else
        let icmp := slice pkt off (stop - off)
        if byteAt icmp 0 ≠ icmpv6EchoRequest then none
        else
          let icmpOut := replyMessage 129 icmp
          let out := replyHeaderV6 (pkt.take off) (slice pkt 24 16) (slice pkt 8 16)
          let pseudo := pseudoOf (slice out 8 16) (slice out 24 16) icmpOut.length
          some (out ++ setBytes icmpOut 2 (be16 (checksum [pseudo, icmpOut])))
    | _ => none

/-! ## What a valid answer is -/

/-- Answer `r` carries the message of `p`, which is from `off` to `stop`, as type `kind`. -/
structure EchoMessage (p r : Bytes) (off stop : Nat) (kind : UInt8) : Prop where
  type : byteAt r off = kind
  code : byteAt r (off + 1) = 0
  data : r.drop (off + 4) = slice p (off + 4) (stop - (off + 4))

structure EchoReplyV4 (p r : Bytes) (src dst : IpAddr) : Prop where
  version : byteAt r 0 = byteAt p 0
  source : IpAddr.v4 (Net.ofOctets4 (slice r 12 4)) = dst
  destination : IpAddr.v4 (Net.ofOctets4 (slice r 16 4)) = src
  message : EchoMessage p r (ipv4HeaderLen p) (min (ipEnd p) p.length) 0
  header_verifies : Verifies (r.take (ipv4HeaderLen p))
  message_verifies : Verifies (r.drop (ipv4HeaderLen p))
  length_eq : ipEnd r = r.length

structure EchoReplyV6 (p r : Bytes) (src dst : IpAddr) (off : Nat) : Prop where
  version : byteAt r 0 = byteAt p 0
  source : IpAddr.v6 (Net.ofOctets6 (slice r 8 16)) = dst
  destination : IpAddr.v6 (Net.ofOctets6 (slice r 24 16)) = src
  chain : ipv6UpperLayer r r.length = .upper ipprotoIcmpv6 off
  message : EchoMessage p r off (min (ipEnd p) p.length) 129
  message_verifies : Verifies
    (pseudoHeader (slice r 8 16) (slice r 24 16) (r.drop off).length ipprotoIcmpv6 ++ r.drop off)
  length_eq : ipEnd r = r.length

/-- The request is answered, and the answer is valid. -/
def Answered (p : Bytes) (src dst : IpAddr) (v6 : Bool) : Prop :=
  if v6 then
    ∃ r off, icmpv6EchoReply p = some r ∧
      ipv6UpperLayer p (min (ipEnd p) p.length) = .upper ipprotoIcmpv6 off ∧
      EchoReplyV6 p r src dst off
  else ∃ r, icmpv4EchoReply p = some r ∧ EchoReplyV4 p r src dst

/-! ## What the classifier has seen -/

variable {p r : Bytes} {src dst : IpAddr}

theorem classifyTcp_ne_echo {off stop : Nat} {ext v6 : Bool} {a b : IpAddr} :
    classifyTcp p a b off stop ext ≠ .icmpEchoRequest src dst v6 := by
  unfold classifyTcp
  split_ifs <;> nofun

theorem classifyUdp_ne_echo {off stop : Nat} {ext v6 : Bool} {a b : IpAddr} :
    classifyUdp p a b off stop ext ≠ .icmpEchoRequest src dst v6 := by
  unfold classifyUdp
  dsimp only
  split_ifs <;> nofun

theorem classifyV4_echo {v6 : Bool} (h : classifyV4 p = .icmpEchoRequest src dst v6) :
    v6 = false ∧ 20 ≤ ipv4HeaderLen p ∧
      ipv4HeaderLen p + 8 ≤ min (be16At p 2).toNat p.length ∧
      byteAt p (ipv4HeaderLen p) = icmpv4EchoRequest ∧
      src = .v4 (Net.ofOctets4 (slice p 12 4)) ∧ dst = .v4 (Net.ofOctets4 (slice p 16 4)) := by
  unfold classifyV4 at h
  dsimp only at h
  unfold ipv4HeaderLen
  split_ifs at h with hshort htotal htcp hudp hicmp
  · exact absurd h classifyTcp_ne_echo
  · exact absurd h classifyUdp_ne_echo
  · simp only [Classified.icmpEchoRequest.injEq] at h
    obtain ⟨rfl, rfl, rfl⟩ := h
    exact ⟨rfl, by omega, hicmp.2.1, hicmp.2.2, rfl, rfl⟩

theorem classifyV6_echo {v6 : Bool} (h : classifyV6 p = .icmpEchoRequest src dst v6) :
    v6 = true ∧ 40 ≤ p.length ∧
      (∃ off, ipv6UpperLayer p (40 + min (be16At p 4).toNat (p.length - 40)) =
          .upper ipprotoIcmpv6 off ∧
        off + 8 ≤ 40 + min (be16At p 4).toNat (p.length - 40) ∧ byteAt p off = icmpv6EchoRequest) ∧
      src = .v6 (Net.ofOctets6 (slice p 8 16)) ∧ dst = .v6 (Net.ofOctets6 (slice p 24 16)) := by
  unfold classifyV6 at h
  dsimp only at h
  split_ifs at h with hshort
  cases hwalk : ipv6UpperLayer p (40 + min (be16At p 4).toNat (p.length - 40)) with
  | none proto => simp [hwalk] at h
  | malformed => simp [hwalk] at h
  | upper proto off =>
    rw [hwalk] at h
    dsimp only at h
    split_ifs at h with htcp hudp hicmp
    · exact absurd h classifyTcp_ne_echo
    · exact absurd h classifyUdp_ne_echo
    · simp only [Classified.icmpEchoRequest.injEq] at h
      obtain ⟨rfl, rfl, rfl⟩ := h
      have htransport := (upperLayerFrom_upper hwalk).1
      have hproto : proto = ipprotoIcmpv6 := by
        simp only [isTransport, Bool.or_eq_true, beq_iff_eq, or_assoc] at htransport
        exact (htransport.resolve_left htcp).resolve_left hudp
      subst hproto
      exact ⟨rfl, by omega, ⟨off, rfl, hicmp.1, hicmp.2⟩, rfl, rfl⟩

/-! ## Writing the message -/

theorem replyMessage_eq (kind : UInt8) {m : Bytes} (h : 4 ≤ m.length) :
    replyMessage kind m = kind :: 0 :: 0 :: 0 :: m.drop 4 := by
  match m, h with
  | _ :: _ :: _ :: _ :: _, _ => rfl

/-- A message with its checksum. -/
theorem reply_written (kind : UInt8) {m : Bytes} (h : 4 ≤ m.length) (x : UInt16) :
    setBytes (replyMessage kind m) 2 (be16 x) = kind :: 0 :: (be16 x ++ m.drop 4) := by
  rw [replyMessage_eq kind h]
  rfl

theorem length_replyMessage (kind : UInt8) {m : Bytes} (h : 4 ≤ m.length) :
    (replyMessage kind m).length = m.length := by
  rw [replyMessage_eq kind h]
  simp
  omega

/-- A header and a message behind it, as an answer. -/
theorem echoMessage_written {out : Bytes} {stop : Nat} (kind : UInt8) (x : UInt16)
    (h : out.length + 4 ≤ stop) (hstop : stop ≤ p.length) :
    EchoMessage p (out ++ setBytes (replyMessage kind (slice p out.length (stop - out.length))) 2
      (be16 x)) out.length stop kind := by
  have hlen : (slice p out.length (stop - out.length)).length = stop - out.length :=
    length_slice (by omega)
  rw [reply_written kind (by omega)]
  have hdata : (slice p out.length (stop - out.length)).drop 4 =
      slice p (out.length + 4) (stop - (out.length + 4)) := by
    unfold slice
    rw [List.drop_take, List.drop_drop, Nat.sub_sub]
  constructor
  · simp [byteAt]
  · simp [byteAt]
  · rw [← List.drop_drop, List.drop_left, ← hdata]
    rfl

/-! ## The checksums -/

theorem complement_eq (parts : List Bytes) :
    checksum parts = complement (parts.foldl addWords 0) := rfl

/-- The checksum of an even part and of a message, put into the message. -/
theorem verifies_parts {front bs : Bytes} {k : Nat} (hfront : 2 ∣ front.length) (hk : 2 ∣ k)
    (hlen : k + 2 ≤ bs.length) (hzero : slice bs k 2 = [0, 0])
    (hshort : front.length + bs.length < 2 ^ 17 - 2) :
    Verifies (front ++ setBytes bs k (be16 (checksum [front, bs]))) := by
  have hf := wordSum_le front
  have hb := wordSum_le bs
  have hzero' : (0 : UInt32).toNat = 0 := rfl
  have hfront' : (addWords 0 front).toNat = wordSum front := by
    rw [toNat_addWords (by rw [hzero']; omega), hzero', Nat.zero_add]
  have hsum : (addWords (addWords 0 front) bs).toNat = wordSum front + wordSum bs := by
    rw [toNat_addWords (by rw [hfront']; omega), hfront']
  rw [complement_eq]
  exact verifies_complement hfront hk hlen hzero hsum

theorem verifies_alone {bs : Bytes} {k : Nat} (hk : 2 ∣ k) (hlen : k + 2 ≤ bs.length)
    (hzero : slice bs k 2 = [0, 0]) (hshort : bs.length < 2 ^ 17 - 2) :
    Verifies (setBytes bs k (be16 (checksum [bs]))) := by
  have hparts := @verifies_parts [] bs k (by simp) hk hlen hzero (by simpa using hshort)
  exact hparts

theorem slice_replyMessage (kind : UInt8) {m : Bytes} (h : 4 ≤ m.length) :
    slice (replyMessage kind m) 2 2 = [0, 0] := by
  rw [replyMessage_eq kind h]
  rfl

/-! ## IPv4 -/

theorem replyHeaderV4_spec {hdr s d : Bytes} (hlen : 20 ≤ hdr.length) (hshort : hdr.length ≤ 60)
    (hs : s.length = 4) (hd : d.length = 4) :
    (replyHeaderV4 hdr s d).length = hdr.length ∧ (replyHeaderV4 hdr s d).take 8 = hdr.take 8 ∧
      slice (replyHeaderV4 hdr s d) 12 4 = s ∧ slice (replyHeaderV4 hdr s d) 16 4 = d ∧
      Verifies (replyHeaderV4 hdr s d) := by
  unfold replyHeaderV4
  dsimp only
  have h1 : (setBytes hdr 8 [64]).length = hdr.length := length_setBytes (by simp; omega)
  have hroom : 12 + s.length + d.length ≤ (setBytes hdr 8 [64]).length := by omega
  have h2 := length_setPair hroom
  generalize hzero_def : setBytes (setPair (setBytes hdr 8 [64]) 12 s d) 10 [0, 0] = zeroed
  have hzeroed : zeroed.length = hdr.length := by
    rw [← h1, ← h2, ← hzero_def]
    exact length_setBytes (by simp; omega)
  have htwo (x : UInt16) : 10 + (be16 x).length ≤ zeroed.length := by
    rw [length_be16]
    omega
  have hsrc : slice zeroed 12 4 = s := by
    have := slice_setPair_fst hroom
    rw [hs] at this
    rwa [← hzero_def, slice_setBytes_after (by simp; omega) (by simp)]
  have hdst : slice zeroed 16 4 = d := by
    have := slice_setPair_snd hroom
    rw [hs, hd] at this
    rwa [← hzero_def, slice_setBytes_after (by simp; omega) (by simp)]
  have hzero : slice zeroed 10 2 = [0, 0] := by
    rw [← hzero_def]
    exact slice_setBytes_self (by simp; omega)
  refine ⟨?_, ?_, ?_, ?_, ?_⟩
  · exact (length_setBytes (htwo _)).trans hzeroed
  · rw [take_setBytes (htwo _) (by omega), ← hzero_def,
      take_setBytes (by simp; omega) (by omega), take_setPair hroom (by omega),
      take_setBytes (by simp; omega) (by omega)]
  · rw [slice_setBytes_after (htwo _) (by simp), hsrc]
  · rw [slice_setBytes_after (htwo _) (by simp), hdst]
  · exact verifies_alone (by omega) (by omega) hzero (by omega)

theorem byteAt_of_take {k i : Nat} (h : r.take k = p.take k) (hi : i < k) : byteAt r i = byteAt p i :=
  getD_of_take h hi

theorem be16At_of_take {k i : Nat} (h : r.take k = p.take k) (hi : i + 2 ≤ k) :
    be16At r i = be16At p i := by
  unfold be16At
  rw [slice_of_take h hi]

theorem ipEnd_of_take {k : Nat} (h : r.take k = p.take k) (hk : 6 ≤ k) : ipEnd r = ipEnd p := by
  unfold ipEnd isV4
  rw [byteAt_of_take h (by omega), be16At_of_take h (by omega), be16At_of_take h (by omega)]

/-- The answer to an IPv4 echo request. -/
theorem icmpv4EchoReply_spec (hv4 : isV4 p = true) (hihl : 20 ≤ ipv4HeaderLen p)
    (hfit : ipv4HeaderLen p + 8 ≤ min (ipEnd p) p.length)
    (hkind : byteAt p (ipv4HeaderLen p) = icmpv4EchoRequest) :
    ∃ r, icmpv4EchoReply p = some r ∧ r.take 8 = p.take 8 ∧ slice r 12 4 = slice p 16 4 ∧
      slice r 16 4 = slice p 12 4 ∧
      EchoMessage p r (ipv4HeaderLen p) (min (ipEnd p) p.length) 0 ∧
      Verifies (r.take (ipv4HeaderLen p)) ∧ Verifies (r.drop (ipv4HeaderLen p)) ∧
      r.length = min (ipEnd p) p.length := by
  have hend : ipEnd p = (be16At p 2).toNat := if_pos hv4
  have htotal := (be16At p 2).toNat_lt
  have hbits : ipv4HeaderLen p ≤ 60 := by
    have hand : (byteAt p 0 &&& 0x0f).toNat ≤ 15 := by
      rw [UInt8.toNat_and]
      exact Nat.and_le_right
    unfold ipv4HeaderLen
    omega
  obtain ⟨vihl, hhead⟩ : ∃ vihl, p.head? = some vihl := by
    cases p with
    | nil => simp at hfit
    | cons b rest => exact ⟨b, rfl⟩
  have hvihl : (vihl &&& 0x0f).toNat * 4 = ipv4HeaderLen p := by
    unfold ipv4HeaderLen byteAt
    cases p with
    | nil => simp at hhead
    | cons b rest =>
      simp only [List.head?_cons, Option.some.injEq] at hhead
      simp [hhead]
  generalize ipv4HeaderLen p = ihl at *
  generalize hstop : min (ipEnd p) p.length = stop at *
  have hclamp : max (ihl + 8) (min (be16At p 2).toNat p.length) = stop := by omega
  have hm : (slice p ihl (stop - ihl)).length = stop - ihl := length_slice (by omega)
  have hfirst : byteAt (slice p ihl (stop - ihl)) 0 = icmpv4EchoRequest := by
    rw [← hkind]
    simp only [byteAt, slice, List.getD_eq_getElem?_getD]
    rw [List.getElem?_take_of_lt (by omega), List.getElem?_drop, Nat.add_zero]
  have htake : (p.take ihl).length = ihl := by rw [List.length_take, Nat.min_eq_left (by omega)]
  have hsrc : (slice p 16 4).length = 4 := length_slice (by omega)
  have hdst : (slice p 12 4).length = 4 := length_slice (by omega)
  obtain ⟨hlen, hsame, hs, hd, hverifies⟩ := replyHeaderV4_spec
    (show 20 ≤ (p.take ihl).length by omega) (by omega) hsrc hdst
  rw [List.take_take, Nat.min_eq_left (by omega)] at hsame
  rw [htake] at hlen
  generalize hout : replyHeaderV4 (p.take ihl) (slice p 16 4) (slice p 12 4) = out at *
  have hmessage := @verifies_alone (replyMessage 0 (slice p ihl (stop - ihl))) 2 (by omega)
    (by rw [length_replyMessage _ (by omega)]; omega)
    (slice_replyMessage _ (by omega)) (by rw [length_replyMessage _ (by omega)]; omega)
  unfold icmpv4EchoReply
  rw [hhead]
  dsimp only
  rw [hvihl, if_neg (by omega), hclamp, if_neg (by rw [hfirst]; simp)]
  have hecho := echoMessage_written 0 (checksum [replyMessage 0 (slice p ihl (stop - ihl))])
    (show out.length + 4 ≤ stop by omega) (show stop ≤ p.length by omega)
  rw [hlen] at hecho
  rw [hout]
  refine ⟨_, rfl, ?_, ?_, ?_, hecho, ?_, ?_, ?_⟩
  · rw [List.take_append_of_le_length (by omega), hsame]
  · rw [slice_append_left (by omega), hs]
  · rw [slice_append_left (by omega), hd]
  · rwa [List.take_left' hlen]
  · rwa [List.drop_left' hlen]
  · rw [List.length_append, hlen, reply_written _ (by omega)]
    simp
    omega

/-! ## IPv6 -/

theorem be16At_bytes {pkt : Bytes} {i : Nat} (h : i + 1 < pkt.length) :
    be16At pkt i = ofBE16 [byteAt pkt i, byteAt pkt (i + 1)] := by
  have hword := wordChecked_be16At h
  unfold wordChecked at hword
  rw [getElem?_byteAt (by omega), getElem?_byteAt h] at hword
  exact (Option.some.inj hword).symm

section

variable {limit : Nat}

/-- The length of a header that is passed depends on the bytes of the header only. -/
theorem headerLen_congr {nh : UInt8} {off len : Nat} (h : headerLen p limit nh off = .ok len)
    (hp : limit ≤ p.length) (hr : limit ≤ r.length)
    (hsame : ∀ i, off ≤ i → i < off + len → byteAt r i = byteAt p i) :
    headerLen r limit nh off = .ok len := by
  have hbytes : 8 ≤ len := by
    obtain ⟨-, rfl, -⟩ := headerLen_ok h
    unfold extensionLen
    split_ifs <;> omega
  have hone : byteAt r (off + 1) = byteAt p (off + 1) := hsame _ (by omega) (by omega)
  have htwo (hroom : off + 8 ≤ limit) : be16At r (off + 2) = be16At p (off + 2) := by
    rw [be16At_bytes (by omega), be16At_bytes (by omega), hsame _ (by omega) (by omega),
      hsame _ (by omega) (by omega)]
  rw [← h]
  unfold headerLen
  rw [hone]
  by_cases hroom : limit < off + 8
  · simp only [if_pos hroom]
  · rw [htwo (by omega), hsame off (le_refl _) (by omega)]

/-- Two packets that agree on the chain up to its transport header. -/
theorem upperLayerFrom_congr {nh t : UInt8} {off o : Nat}
    (h : upperLayerFrom p limit nh off = .upper t o) (hp : limit ≤ p.length) (hr : limit ≤ r.length)
    (hsame : ∀ i, off ≤ i → i < o → byteAt r i = byteAt p i) :
    upperLayerFrom r limit nh off = .upper t o := by
  induction nh, off using upperLayerFrom.induct p limit with
  | case1 nh off hend hnh =>
    rw [upperLayerFrom, if_pos hend, if_pos hnh] at h
    cases h
  | case2 nh off hend hnh =>
    rw [upperLayerFrom, if_pos hend, if_neg hnh] at h
    cases h
  | case3 nh off hend found hlen =>
    rw [upperLayerFrom, if_neg hend, hlen] at h
    have hfound : found = .upper t o := h
    rw [hfound] at hlen
    obtain ⟨htransport, rfl, rfl⟩ := headerLen_upper hlen
    have hlen' : headerLen r limit t o = .error (.upper t o) := by
      unfold headerLen
      rw [if_pos htransport]
    rw [upperLayerFrom, if_neg hend, hlen']
  | case4 nh off hend len hlen hpast =>
    rw [upperLayerFrom, if_neg hend, hlen] at h
    simp only [if_pos hpast] at h
    cases h
  | case5 nh off hend len hlen hpast ih =>
    rw [upperLayerFrom, if_neg hend, hlen] at h
    simp only [if_neg hpast] at h
    obtain ⟨-, -, -, hle, -⟩ := upperLayerFrom_upper h
    have hpos := headerLen_pos hlen
    have hlen' := headerLen_congr hlen hp hr fun i hi hi' => hsame i hi (by omega)
    rw [upperLayerFrom, if_neg hend, hlen']
    simp only [if_neg hpast]
    rw [hsame off (le_refl _) (by omega)]
    exact ih h fun i hi hi' => hsame i (by omega) hi'

end

theorem pseudoOf_eq {s d : Bytes} (hs : s.length = 16) (hd : d.length = 16) (len : Nat) :
    pseudoOf s d len = pseudoHeader s d len ipprotoIcmpv6 := by
  have hsrc : setBytes (List.replicate 40 0) 0 s = s ++ List.replicate 24 0 :=
    setBytes_middle (x := []) (y := List.replicate 16 0) (z := List.replicate 24 0) (by simp [hs])
  have hdst : setBytes (s ++ List.replicate 24 0) (0 + s.length) d = s ++ (d ++ List.replicate 8 0) := by
    rw [Nat.zero_add]
    exact setBytes_middle (y := List.replicate 16 0) (z := List.replicate 8 0) (by simp [hd])
  have hlen : setBytes (s ++ (d ++ List.replicate 8 0)) 32 (be32 (UInt32.ofNat len)) =
      s ++ d ++ (be32 (UInt32.ofNat len) ++ List.replicate 4 0) := by
    have h32 : 32 = (s ++ d).length := by rw [List.length_append, hs, hd]
    rw [← List.append_assoc, h32]
    exact setBytes_middle (y := List.replicate 4 0) (z := List.replicate 4 0) (by simp)
  have hproto : setBytes (s ++ d ++ (be32 (UInt32.ofNat len) ++ List.replicate 4 0)) 39
      [ipprotoIcmpv6] = s ++ d ++ be32 (UInt32.ofNat len) ++ [0, 0, 0] ++ ([ipprotoIcmpv6] ++ []) := by
    have h39 : 39 = (s ++ d ++ be32 (UInt32.ofNat len) ++ [0, 0, 0]).length := by simp [hs, hd]
    have hsplit : s ++ d ++ (be32 (UInt32.ofNat len) ++ List.replicate 4 0) =
        s ++ d ++ be32 (UInt32.ofNat len) ++ [0, 0, 0] ++ ([0] ++ []) := by
      simp [List.append_assoc, List.replicate]
    rw [hsplit, h39]
    exact setBytes_middle rfl
  unfold pseudoOf setPair pseudoHeader
  rw [hsrc, hdst]
  dsimp only
  rw [hlen, hproto]
  simp [List.append_assoc]

theorem replyHeaderV6_spec {hdr s d : Bytes} (hlen : 40 ≤ hdr.length) (hs : s.length = 16)
    (hd : d.length = 16) :
    (replyHeaderV6 hdr s d).length = hdr.length ∧ (replyHeaderV6 hdr s d).take 7 = hdr.take 7 ∧
      slice (replyHeaderV6 hdr s d) 8 16 = s ∧ slice (replyHeaderV6 hdr s d) 24 16 = d ∧
      (replyHeaderV6 hdr s d).drop 40 = hdr.drop 40 := by
  have hset : 7 + [(64 : UInt8)].length ≤ hdr.length := by
    simp
    omega
  have h1 : (setBytes hdr 7 [64]).length = hdr.length := length_setBytes hset
  have hroom : 8 + s.length + d.length ≤ (setBytes hdr 7 [64]).length := by omega
  have hsrc := slice_setPair_fst hroom
  have hdst := slice_setPair_snd hroom
  rw [hs] at hsrc
  rw [hs, hd] at hdst
  refine ⟨(length_setPair hroom).trans h1, ?_, hsrc, hdst, ?_⟩
  · exact (take_setPair hroom (by omega)).trans (take_setBytes hset (le_refl _))
  · exact (drop_setPair hroom (by omega)).trans (drop_setBytes hset (by simp))

/-- The answer to an IPv6 echo request behind a chain of extension headers. -/
theorem icmpv6EchoReply_spec {off : Nat} (hv6 : isV4 p = false) (hshort : 40 ≤ p.length)
    (hwalk : ipv6UpperLayer p (min (ipEnd p) p.length) = .upper ipprotoIcmpv6 off)
    (hfit : off + 8 ≤ min (ipEnd p) p.length) (hkind : byteAt p off = icmpv6EchoRequest) :
    ∃ r, icmpv6EchoReply p = some r ∧ r.take 7 = p.take 7 ∧ slice r 8 16 = slice p 24 16 ∧
      slice r 24 16 = slice p 8 16 ∧
      ipv6UpperLayer r r.length = .upper ipprotoIcmpv6 off ∧
      EchoMessage p r off (min (ipEnd p) p.length) 129 ∧
      Verifies (pseudoHeader (slice r 8 16) (slice r 24 16) (r.drop off).length ipprotoIcmpv6 ++ r.drop off) ∧
      r.length = min (ipEnd p) p.length := by
  have hend : ipEnd p = 40 + (be16At p 4).toNat := if_neg (by simp [hv6])
  have hpayload := (be16At p 4).toNat_lt
  obtain ⟨-, -, -, hbase, -⟩ := upperLayerFrom_upper hwalk
  generalize hstop : min (ipEnd p) p.length = stop at *
  have hclamp : 40 + max 8 (min (be16At p 4).toNat (p.length - 40)) = stop := by omega
  have hm : (slice p off (stop - off)).length = stop - off := length_slice (by omega)
  have hfirst : byteAt (slice p off (stop - off)) 0 = icmpv6EchoRequest := by
    rw [← hkind]
    simp only [byteAt, slice, List.getD_eq_getElem?_getD]
    rw [List.getElem?_take_of_lt (by omega), List.getElem?_drop, Nat.add_zero]
  have htake : (p.take off).length = off := by rw [List.length_take, Nat.min_eq_left (by omega)]
  have hsrc : (slice p 24 16).length = 16 := length_slice (by omega)
  have hdst : (slice p 8 16).length = 16 := length_slice (by omega)
  obtain ⟨hlen, hsame, hs, hd, hchain⟩ := replyHeaderV6_spec
    (show 40 ≤ (p.take off).length by omega) hsrc hdst
  rw [List.take_take, Nat.min_eq_left (by omega)] at hsame
  rw [htake] at hlen
  generalize hm' : slice p off (stop - off) = m at *
  have hreply : (replyMessage 129 m).length = m.length := length_replyMessage _ (by omega)
  have hpseudo := length_pseudoHeader hsrc hdst m.length ipprotoIcmpv6
  have hmessage := @verifies_parts
    (pseudoHeader (slice p 24 16) (slice p 8 16) m.length ipprotoIcmpv6) (replyMessage 129 m) 2
    (by omega) (by omega) (by omega)
    (slice_replyMessage _ (by omega)) (by omega)
  unfold icmpv6EchoReply
  rw [if_neg (by omega)]
  dsimp only
  rw [hclamp, hwalk]
  dsimp only
  rw [if_neg (by simp), if_neg (by omega), hm', if_neg (by rw [hfirst]; simp), hreply]
  generalize replyHeaderV6 (p.take off) (slice p 24 16) (slice p 8 16) = out at *
  rw [hs, hd, pseudoOf_eq hsrc hdst]
  generalize hck : checksum [pseudoHeader (slice p 24 16) (slice p 8 16) m.length ipprotoIcmpv6,
    replyMessage 129 m] = ck at *
  have hecho := echoMessage_written 129 ck (show out.length + 4 ≤ stop by omega)
    (show stop ≤ p.length by omega)
  rw [hlen, hm'] at hecho
  have hwritten : (setBytes (replyMessage 129 m) 2 (be16 ck)).length = m.length := by
    rw [length_setBytes (by rw [length_be16]; omega), hreply]
  have hsize : (out ++ setBytes (replyMessage 129 m) 2 (be16 ck)).length = stop := by
    rw [List.length_append, hlen, hwritten]
    omega
  have htake7 : (out ++ setBytes (replyMessage 129 m) 2 (be16 ck)).take 7 = p.take 7 := by
    rw [List.take_append_of_le_length (by omega), hsame]
  refine ⟨_, rfl, htake7, ?_, ?_, ?_, hecho, ?_, hsize⟩
  · rw [slice_append_left (by omega), hs]
  · rw [slice_append_left (by omega), hd]
  · rw [hsize]
    unfold ipv6UpperLayer
    rw [byteAt_of_take htake7 (by omega)]
    refine upperLayerFrom_congr hwalk (by omega) (by omega) fun i hi hi' => ?_
    -- the chain is copied
    have hcopy : (out ++ setBytes (replyMessage 129 m) 2 (be16 ck))[i]? = p[i]? := by
      have hout : out[i]? = (p.take off)[i]? := by
        have hdrop := congrArg (fun l : Bytes => l[i - 40]?) hchain
        simpa only [List.getElem?_drop, Nat.add_sub_cancel' hi] using hdrop
      rw [List.getElem?_append_left (by omega), hout, List.getElem?_take_of_lt hi']
    unfold byteAt
    rw [List.getD_eq_getElem?_getD, hcopy, List.getD_eq_getElem?_getD]
  · rw [slice_append_left (by omega), slice_append_left (by omega), hs, hd, List.drop_left' hlen,
      hwritten]
    exact hmessage

/-! ## The result -/

theorem classifyPacket_echo {v6 : Bool} (h : classifyPacket p = .icmpEchoRequest src dst v6) :
    isV4 p = true ∧ classifyV4 p = .icmpEchoRequest src dst v6 ∨
      isV4 p = false ∧ classifyV6 p = .icmpEchoRequest src dst v6 := by
  unfold classifyPacket at h
  cases p with
  | nil => cases h
  | cons b rest =>
    dsimp only [List.head?] at h
    split_ifs at h with h4 h6
    · exact .inl ⟨by simpa [isV4, byteAt] using h4, h⟩
    · exact .inr ⟨by simp [isV4, byteAt, h6], h⟩

/-- Every echo request is answered, and only the length of the answer is left to check. -/
theorem echo_answered {v6 : Bool} (h : classifyPacket p = .icmpEchoRequest src dst v6) :
    ∃ r, (if v6 then icmpv6EchoReply p else icmpv4EchoReply p) = some r ∧
      r.length = min (ipEnd p) p.length ∧ ipEnd r = ipEnd p ∧
      (ipEnd r = r.length → Answered p src dst v6) := by
  rcases classifyPacket_echo h with ⟨hv4, h⟩ | ⟨hv6, h⟩
  · have hend : ipEnd p = (be16At p 2).toNat := if_pos hv4
    obtain ⟨rfl, hihl, hfit, hkind, rfl, rfl⟩ := classifyV4_echo h
    rw [← hend] at hfit
    obtain ⟨r, hr, hsame, hs, hd, hmessage, hheader, hdata, hlen⟩ :=
      icmpv4EchoReply_spec hv4 hihl hfit hkind
    refine ⟨r, hr, hlen, ipEnd_of_take hsame (by omega), fun hwhole => ?_⟩
    unfold Answered
    rw [if_neg (by simp)]
    exact ⟨r, hr, byteAt_of_take hsame (by omega), by rw [hs], by rw [hd], hmessage, hheader,
      hdata, hwhole⟩
  · have hend : ipEnd p = 40 + (be16At p 4).toNat := if_neg (by simp [hv6])
    obtain ⟨rfl, hshort, ⟨off, hwalk, hfit, hkind⟩, rfl, rfl⟩ := classifyV6_echo h
    have hstop : 40 + min (be16At p 4).toNat (p.length - 40) = min (ipEnd p) p.length := by omega
    rw [hstop] at hwalk hfit
    obtain ⟨r, hr, hsame, hs, hd, hchain, hmessage, hdata, hlen⟩ :=
      icmpv6EchoReply_spec hv6 hshort hwalk hfit hkind
    refine ⟨r, hr, hlen, ipEnd_of_take hsame (by omega), fun hwhole => ?_⟩
    unfold Answered
    rw [if_pos rfl]
    exact ⟨r, off, hr, hwalk, byteAt_of_take hsame (by omega), by rw [hs], by rw [hd], hchain,
      hmessage, hdata, hwhole⟩

theorem Answered.length_eq {v6 : Bool} (h : Answered p src dst v6) :
    ∃ r, (if v6 then icmpv6EchoReply p else icmpv4EchoReply p) = some r ∧ ipEnd r = r.length := by
  unfold Answered at h
  cases v6 with
  | false =>
    obtain ⟨r, hr, hvalid⟩ := h
    exact ⟨r, hr, hvalid.length_eq⟩
  | true =>
    obtain ⟨r, off, hr, -, hvalid⟩ := h
    exact ⟨r, hr, hvalid.length_eq⟩

/-- A request whose length field reaches past its end gets an answer whose length field does. -/
theorem not_answered {v6 : Bool} (h : classifyPacket p = .icmpEchoRequest src dst v6)
    (hlong : p.length < ipEnd p) : ¬ Answered p src dst v6 := by
  intro ha
  obtain ⟨r, hr, hlen, hend, -⟩ := echo_answered h
  obtain ⟨r', hr', hlen'⟩ := ha.length_eq
  obtain rfl : r = r' := Option.some.inj (hr.symm.trans hr')
  omega

/-- An echo request is answered validly exactly when its IP length field does not reach past the
    bytes that were read. -/
theorem echo_reply_iff {v6 : Bool} (h : classifyPacket p = .icmpEchoRequest src dst v6) :
    Answered p src dst v6 ↔ ipEnd p ≤ p.length := by
  constructor
  · exact fun ha => Nat.le_of_not_lt fun hlong => not_answered h hlong ha
  · intro hwhole
    obtain ⟨r, -, hlen, hend, hanswered⟩ := echo_answered h
    exact hanswered (by omega)

/-- An echo request of 28 bytes whose total length field is `total`. -/
def echoRequest (total : UInt8) : Bytes :=
  [0x45, 0, 0, total, 0, 7, 0, 0, 64, 1, 0, 0, 10, 0, 0, 1, 10, 0, 0, 2, 8, 0, 0, 0, 0, 1, 0, 2]

theorem echoRequest_answered :
    Answered (echoRequest 28) (.v4 0x0A000001#32) (.v4 0x0A000002#32) false ↔
      ipEnd (echoRequest 28) ≤ (echoRequest 28).length :=
  echo_reply_iff (by decide)

/-- With a total length of 40 the answer is 28 bytes long and says 40. -/
theorem echoRequest_cut :
    classifyPacket (echoRequest 40) =
        .icmpEchoRequest (.v4 0x0A000001#32) (.v4 0x0A000002#32) false ∧
      ¬ Answered (echoRequest 40) (.v4 0x0A000001#32) (.v4 0x0A000002#32) false :=
  ⟨by decide, not_answered (by decide : classifyPacket (echoRequest 40) = _) (by decide)⟩

end RustCrash.Tun
