import RustCrash.RulesetBin.CidrRange
import RustCrash.Dns.NameCodec

/-
  EDNS0 (`dns/edns.rs`): the OPT record with a client subnet, written and read back, and put
  behind a query.

  The address is cut to the bytes of its prefix, with the bits behind the prefix zeroed, and
  read back with zeros behind it: it is masked to the prefix (`pad_truncated`). The prefix
  itself is written as it is given. A prefix that is longer than the address comes back as
  it was, and not as long as the address (`edns_roundtrip_iff`).
-/

namespace RustCrash.Dns

open Lib

/-! ## The OPT record -/

def defaultPayloadSize : UInt16 := 1232

/-- The EDNS client-subnet option. -/
structure ClientSubnet where
  addr : IpAddr
  sourcePrefix : UInt8
  scopePrefix : UInt8
  deriving DecidableEq

def ecsOptionCode : UInt16 := 8
def typeOpt : UInt16 := 41

/-- The address family: 1 for IPv4, 2 for IPv6. -/
def ecsFamily : IpAddr → UInt16
  | .v4 _ => 1
  | .v6 _ => 2

/-- The address of an option: cut to the source prefix, the rest of its last byte zero. -/
def ecsAddr (cs : ClientSubnet) : Bytes :=
  let octets := addrOctets cs.addr
  truncateBits (min cs.sourcePrefix.toNat (octets.length * 8)) octets

def encodeEcsRdata (cs : ClientSubnet) : Bytes :=
  be16 ecsOptionCode ++ be16 (UInt16.ofNat (4 + (ecsAddr cs).length)) ++ be16 (ecsFamily cs.addr) ++
    [cs.sourcePrefix, cs.scopePrefix] ++ ecsAddr cs

/-- Owner root, type 41, the payload size as class, the DO bit in the TTL. -/
def encodeOptRr (subnet : Option ClientSubnet) (udpsize : UInt16) (dnssec : Bool) : Bytes :=
  let rdata := (subnet.map encodeEcsRdata).getD []
  [0x00] ++ be16 typeOpt ++ be16 udpsize ++ be32 (if dnssec then 0x8000 else 0) ++
    be16 (UInt16.ofNat rdata.length) ++ rdata

def parseEcsOption (opt : Bytes) : Option ClientSubnet :=
  if opt.length < 4 then none
  else
    let family := u16At opt 0
    let addrBytes := opt.drop 4
    let addr : Option IpAddr :=
      if family = 1 then some (.v4 (Net.ofOctets4 (padTo 4 addrBytes)))
      else if family = 2 then some (.v6 (Net.ofOctets6 (padTo 16 addrBytes)))
      else none
    addr.map fun a => ⟨a, opt.getD 2 0, opt.getD 3 0⟩

/-- The first well-formed client subnet among the options from an offset on. -/
def walkOptions (rdata : Bytes) (subnet : Option ClientSubnet) (off : Nat) : Option ClientSubnet :=
  if _ : off + 4 ≤ rdata.length then
    let olen := (u16At rdata (off + 2)).toNat
    if rdata.length < off + 4 + olen then subnet
    else
      walkOptions rdata
        (if u16At rdata off = ecsOptionCode ∧ subnet.isNone then
          parseEcsOption ((rdata.drop (off + 4)).take olen)
        else subnet)
        (off + 4 + olen)
  else subnet
termination_by rdata.length - off

/-- The payload size, the DO bit and the client subnet of an OPT record. -/
def parseOptRr (msgTail : Bytes) : Option (UInt16 × Bool × Option ClientSubnet) :=
  if msgTail.length < 11 ∨ msgTail.getD 0 0 ≠ 0 then none
  else if u16At msgTail 1 ≠ typeOpt then none
  else
    let rdlen := (u16At msgTail 9).toNat
    let rdata := (msgTail.drop 11).take (min rdlen (msgTail.length - 11))
    some (u16At msgTail 3, u32At msgTail 5 &&& 0x8000 ≠ 0, walkOptions rdata none 0)

/-- Append an OPT record and count it in ARCOUNT. -/
def appendToQuery (query : Bytes) (subnet : Option ClientSubnet) : Bytes :=
  if query.length < 12 then query
  else
    let arcount := u16At query 10
    if arcount = 0xffff then query
    else
      setBytes (query ++ encodeOptRr subnet defaultPayloadSize false) 10 (be16 (arcount + 1))

/-! ## What comes back -/

/-- The width of an address. -/
def addrWidth : IpAddr → Nat
  | .v4 _ => 32
  | .v6 _ => 128

/-- The bits behind a prefix zeroed. -/
def maskAddr (plen : Nat) : IpAddr → IpAddr
  | .v4 a => .v4 (a &&& RulesetBin.prefixMask 32 plen)
  | .v6 a => .v6 (a &&& RulesetBin.prefixMask 128 plen)

theorem length_addrOctets_bits (a : IpAddr) : (addrOctets a).length * 8 = addrWidth a := by
  cases a <;> rfl

/-- The octets of an address, cut and filled up again. -/
theorem pad_truncated {n bits : Nat} (a : BitVec (8 * n)) (h : bits ≤ 8 * n) :
    BitVec.ofNat (8 * n) (ofBE (padTo n (truncateBits bits (toBE n a.toNat)))) =
      a &&& RulesetBin.prefixMask (8 * n) bits := by
  have hoctets : ofBE (toBE n a.toNat) = a.toNat :=
    ofBE_toBE_of_lt (by rw [pow_256]; exact a.isLt)
  have hroom : bits ≤ 8 * (toBE n a.toNat).length := by simpa using h
  have hvalue := ofBE_padTo_truncateBits hroom
  rw [length_toBE, hoctets] at hvalue
  have hle : a.toNat / 2 ^ (8 * n - bits) * 2 ^ (8 * n - bits) ≤ a.toNat := Nat.div_mul_le_self _ _
  apply BitVec.eq_of_toNat_eq
  rw [RulesetBin.toNat_and_prefixMask a h, hvalue, BitVec.toNat_ofNat,
    Nat.mod_eq_of_lt (hle.trans_lt a.isLt)]

theorem length_ecsAddr_le (cs : ClientSubnet) : (ecsAddr cs).length ≤ 16 := by
  have hle := length_truncateBits_le
    (min cs.sourcePrefix.toNat ((addrOctets cs.addr).length * 8)) (addrOctets cs.addr)
  have hwidth := length_addrOctets_bits cs.addr
  have h128 : addrWidth cs.addr ≤ 128 := by cases cs.addr <;> simp [addrWidth]
  unfold ecsAddr
  dsimp only
  omega

theorem u16At_zero (x : UInt16) (rest : Bytes) : u16At (be16 x ++ rest) 0 = x :=
  u16At_of_drop rfl

/-- The option body that is written is read as the subnet with its address masked. -/
theorem parseEcsOption_written (cs : ClientSubnet) :
    parseEcsOption (be16 (ecsFamily cs.addr) ++ [cs.sourcePrefix, cs.scopePrefix] ++ ecsAddr cs) =
      some ⟨maskAddr (min cs.sourcePrefix.toNat (addrWidth cs.addr)) cs.addr, cs.sourcePrefix,
        cs.scopePrefix⟩ := by
  have hdrop : (be16 (ecsFamily cs.addr) ++ [cs.sourcePrefix, cs.scopePrefix] ++ ecsAddr cs).drop 4 =
      ecsAddr cs := List.drop_left' (by simp)
  have hpair : ∀ x : Bytes, x.length = 2 → ∀ a b rest,
      (x ++ [a, b] ++ rest).getD 2 0 = a ∧ (x ++ [a, b] ++ rest).getD 3 0 = b := by
    intro x hx a b rest
    match x, hx with
    | [_, _], _ => exact ⟨rfl, rfl⟩
  obtain ⟨hsource, hscope⟩ := hpair _ (length_be16 (ecsFamily cs.addr)) cs.sourcePrefix
    cs.scopePrefix (ecsAddr cs)
  unfold parseEcsOption
  rw [if_neg (by simp; omega), hdrop, hsource, hscope, List.append_assoc, u16At_zero]
  unfold ecsAddr
  cases cs.addr with
  | v4 a =>
    have hbits : min cs.sourcePrefix.toNat 32 ≤ 8 * 4 := Nat.min_le_right _ _
    have hpad := pad_truncated (n := 4) a hbits
    simp only [ecsFamily, addrOctets, Net.length_octets4, addrWidth, maskAddr, if_true]
    exact congrArg (fun a => some (ClientSubnet.mk (.v4 a) cs.sourcePrefix cs.scopePrefix)) hpad
  | v6 a =>
    have hbits : min cs.sourcePrefix.toNat 128 ≤ 8 * 16 := Nat.min_le_right _ _
    have hpad := pad_truncated (n := 16) a hbits
    have hfamily : (2 : UInt16) ≠ 1 := by decide
    simp only [ecsFamily, addrOctets, Net.length_octets6, addrWidth, maskAddr, if_neg hfamily, if_true]
    exact congrArg (fun a => some (ClientSubnet.mk (.v6 a) cs.sourcePrefix cs.scopePrefix)) hpad

theorem length_encodeEcsRdata (cs : ClientSubnet) :
    (encodeEcsRdata cs).length = 8 + (ecsAddr cs).length := by
  simp [encodeEcsRdata]
  omega

/-- The only option of the data is found, and nothing is behind it. -/
theorem walkOptions_written (cs : ClientSubnet) : walkOptions (encodeEcsRdata cs) none 0 =
    some ⟨maskAddr (min cs.sourcePrefix.toNat (addrWidth cs.addr)) cs.addr, cs.sourcePrefix,
      cs.scopePrefix⟩ := by
  have hlen := length_encodeEcsRdata cs
  have hle := length_ecsAddr_le cs
  have hcode : (encodeEcsRdata cs).drop 0 = be16 ecsOptionCode ++ (be16 (UInt16.ofNat
      (4 + (ecsAddr cs).length)) ++ (be16 (ecsFamily cs.addr) ++ [cs.sourcePrefix, cs.scopePrefix] ++
        ecsAddr cs)) := by
    simp [encodeEcsRdata, List.append_assoc]
  have holen : (encodeEcsRdata cs).drop (0 + 2) = _ := drop_drop_append hcode
  have hbody : (encodeEcsRdata cs).drop (0 + 2 + 2) = _ := drop_drop_append holen
  have hsize : (UInt16.ofNat (4 + (ecsAddr cs).length)).toNat = 4 + (ecsAddr cs).length :=
    toNat_ofNat16 (by omega)
  have htake : ((encodeEcsRdata cs).drop (0 + 4)).take (4 + (ecsAddr cs).length) =
      be16 (ecsFamily cs.addr) ++ [cs.sourcePrefix, cs.scopePrefix] ++ ecsAddr cs := by
    rw [hbody]
    exact List.take_of_length_le (by simp; omega)
  unfold walkOptions
  rw [dif_pos (by omega), u16At_of_drop holen, u16At_of_drop hcode, hsize, if_neg (by omega), htake,
    parseEcsOption_written, if_pos ⟨rfl, rfl⟩]
  unfold walkOptions
  rw [dif_neg (by omega)]

/-- The record is read back with the address masked and the prefix as it was. -/
theorem parseOptRr_encode (cs : ClientSubnet) (udpsize : UInt16) (dnssec : Bool) :
    parseOptRr (encodeOptRr (some cs) udpsize dnssec) =
      some (udpsize, dnssec, some ⟨maskAddr (min cs.sourcePrefix.toNat (addrWidth cs.addr)) cs.addr,
        cs.sourcePrefix, cs.scopePrefix⟩) := by
  have hlen := length_encodeEcsRdata cs
  have hle := length_ecsAddr_le cs
  have hrdlen : (UInt16.ofNat (encodeEcsRdata cs).length).toNat = (encodeEcsRdata cs).length :=
    toNat_ofNat16 (by omega)
  generalize hrr : encodeOptRr (some cs) udpsize dnssec = rr
  have hroot : rr.drop 0 = [0x00] ++ (be16 typeOpt ++ (be16 udpsize ++ (be32 (if dnssec then 0x8000
      else 0) ++ (be16 (UInt16.ofNat (encodeEcsRdata cs).length) ++ (encodeEcsRdata cs ++ []))))) := by
    rw [← hrr]
    simp [encodeOptRr, List.append_assoc]
  have htype : rr.drop (0 + 1) = _ := drop_drop_append hroot
  have hclass : rr.drop (0 + 1 + 2) = _ := drop_drop_append htype
  have httl : rr.drop (0 + 1 + 2 + 2) = _ := drop_drop_append hclass
  have hrd : rr.drop (0 + 1 + 2 + 2 + 4) = _ := drop_drop_append httl
  have hdata : rr.drop (0 + 1 + 2 + 2 + 4 + 2) = _ := drop_drop_append hrd
  have hsize : rr.length = 11 + (encodeEcsRdata cs).length := by
    rw [← hrr]
    simp [encodeOptRr]
    omega
  have hfirst : rr.getD 0 0 = 0 := by
    rw [← hrr]
    rfl
  have hdo : decide (((if dnssec then 0x8000 else 0 : UInt32) &&& 0x8000) ≠ 0) = dnssec := by
    cases dnssec <;> decide
  unfold parseOptRr
  rw [if_neg (by rw [hfirst]; simp; omega), u16At_of_drop htype, if_neg (by decide), u16At_of_drop hrd,
    u16At_of_drop hclass, u32At_of_drop httl, hdo, hrdlen, hsize, Nat.add_sub_cancel_left]
  dsimp only
  rw [Nat.min_self, hdata, List.append_nil, List.take_length, walkOptions_written]

/-! ## Behind a query -/

/-- A query with `ar` additional records, which are `more`. -/
def queryWith (id : UInt16) (name : Str) (qtype ar : UInt16) (more : Bytes) : Bytes :=
  be16 id ++ (be16 0x0100 ++ (be16 1 ++ (be16 0 ++ (be16 0 ++ (be16 ar ++ (writeName name ++
    (be16 qtype ++ (be16 1 ++ more))))))))

theorem buildQuery_eq (id : UInt16) (name : Str) (qtype : UInt16) :
    buildQuery id name qtype = queryWith id name qtype 0 [] := by
  simp [buildQuery, queryWith, List.append_assoc]

theorem appendToQuery_buildQuery (id : UInt16) (name : Str) (qtype : UInt16)
    (subnet : Option ClientSubnet) :
    appendToQuery (buildQuery id name qtype) subnet =
      queryWith id name qtype 1 (encodeOptRr subnet defaultPayloadSize false) := by
  have hhead : (be16 id ++ be16 0x0100 ++ be16 1 ++ be16 0 ++ be16 0).length = 10 := by simp
  have hsplit (ar : UInt16) (more : Bytes) : queryWith id name qtype ar more =
      be16 id ++ be16 0x0100 ++ be16 1 ++ be16 0 ++ be16 0 ++
        (be16 ar ++ (writeName name ++ (be16 qtype ++ (be16 1 ++ more)))) := by
    simp [queryWith, List.append_assoc]
  have hlong : ¬ (queryWith id name qtype 0 []).length < 12 := by
    rw [hsplit, List.length_append, hhead, List.length_append, length_be16]
    omega
  have hcount : u16At (queryWith id name qtype 0 []) 10 = 0 := by
    rw [hsplit, ← hhead]
    exact u16At_of_drop List.drop_left
  have hwhole : queryWith id name qtype 0 [] ++ encodeOptRr subnet defaultPayloadSize false =
      queryWith id name qtype 0 (encodeOptRr subnet defaultPayloadSize false) := by
    simp [queryWith, List.append_assoc]
  have hset (opt : Bytes) : setBytes (queryWith id name qtype 0 opt) 10 (be16 1) =
      queryWith id name qtype 1 opt := by
    rw [hsplit 0, hsplit 1, ← hhead]
    exact setBytes_middle rfl
  unfold appendToQuery
  rw [buildQuery_eq, if_neg hlong, hcount, hwhole]
  dsimp only
  rw [if_neg (by decide)]
  exact hset _

/-- The counts of answers, of authorities and of additional records. -/
theorem counts_queryWith (id : UInt16) (name : Str) (qtype ar : UInt16) (more : Bytes) :
    u16At (queryWith id name qtype ar more) 6 = 0 ∧ u16At (queryWith id name qtype ar more) 8 = 0 ∧
      u16At (queryWith id name qtype ar more) 10 = ar := by
  generalize hraw : queryWith id name qtype ar more = raw
  have hid : raw.drop 0 = _ := hraw.symm
  unfold queryWith at hid
  have hflags : raw.drop 2 = _ := drop_drop_append hid
  have hqd : raw.drop 4 = _ := drop_drop_append hflags
  have han : raw.drop 6 = _ := drop_drop_append hqd
  have hns : raw.drop 8 = _ := drop_drop_append han
  have har : raw.drop 10 = _ := drop_drop_append hns
  exact ⟨u16At_of_drop han, u16At_of_drop hns, u16At_of_drop har⟩

/-- The question of a query, as it is read back. -/
def queryQuestion (labels : List Str) (qtype : UInt16) : Question :=
  ⟨Str.asciiLower (Str.join '.' labels), qtype, 1⟩

/-- A query is read as its question and the records behind it. -/
theorem parse_queryWith {labels : List Str} (h : ∀ p ∈ labels, LegalLabel p) (trailing : Bool)
    (id qtype ar : UInt16) (more : Bytes) :
    ∃ off, (queryWith id (dotted labels trailing) qtype ar more).drop off = more ∧
      parse (queryWith id (dotted labels trailing) qtype ar more) =
        (readRecords (queryWith id (dotted labels trailing) qtype ar more) ar.toNat off).map
          fun p => {
            id := id
            flags := 0x0100
            opcode := 0
            rcode := 0
            questions := [queryQuestion labels qtype]
            answers := p.1
            raw := queryWith id (dotted labels trailing) qtype ar more } := by
  generalize hraw : queryWith id (dotted labels trailing) qtype ar more = raw
  have hid : raw.drop 0 = _ := hraw.symm
  unfold queryWith at hid
  have hflags : raw.drop 2 = _ := drop_drop_append hid
  have hqd : raw.drop 4 = _ := drop_drop_append hflags
  have han : raw.drop 6 = _ := drop_drop_append hqd
  have hns : raw.drop 8 = _ := drop_drop_append han
  have har : raw.drop 10 = _ := drop_drop_append hns
  have hname : raw.drop 12 = _ := drop_drop_append har
  have hread := readName_written hname
  rw [reread_dotted h, length_writeName_dotted h] at hread
  have htype := drop_drop_append hname
  have hclass := drop_drop_append htype
  have hmore := drop_drop_append hclass
  have hroom := length_le_of_drop hclass (by simp [← List.length_pos_iff])
  simp only [length_be16] at hclass hmore hroom
  refine ⟨_, hmore, ?_⟩
  have hquestion : readQuestions raw 1 12 = .ok ([queryQuestion labels qtype],
      12 + (writeName (dotted labels trailing)).length + 2 + 2) := by
    simp only [readQuestions]
    rw [hread, bind_ok]
    dsimp only
    rw [if_neg (by omega), u16At_of_drop htype, u16At_of_drop hclass]
    rfl
  unfold parse
  rw [if_neg (by omega), u16At_of_drop hid, u16At_of_drop hflags, u16At_of_drop hqd,
    u16At_of_drop han, u16At_of_drop hns, u16At_of_drop har]
  dsimp only
  have hone : (1 : UInt16).toNat = 1 := rfl
  have har' : (0 + 0 + ar : UInt16) = ar := by simp
  rw [hone, hquestion, har', bind_ok]
  dsimp only
  cases readRecords raw ar.toNat (12 + (writeName (dotted labels trailing)).length + 2 + 2) <;> rfl

/-- An OPT record at the end of a message is read as one record. -/
theorem readRecords_opt {raw : Bytes} {off : Nat} {subnet : Option ClientSubnet}
    (h : raw.drop off = encodeOptRr subnet defaultPayloadSize false) :
    ∃ r : ResourceRecord, r.rtype = typeOpt ∧
      (readRecords raw 1 off).map Prod.fst = .ok [r] := by
  have hlen : ((subnet.map encodeEcsRdata).getD []).length ≤ 65535 := by
    cases subnet with
    | none => decide
    | some cs =>
      have hrdata := length_encodeEcsRdata cs
      have hle := length_ecsAddr_le cs
      rw [Option.map_some, Option.getD_some]
      omega
  have hrdlen := toNat_ofNat16 hlen
  unfold encodeOptRr at h
  generalize (subnet.map encodeEcsRdata).getD [] = rdata at *
  have hroot : raw.drop off = writeName [] ++ (be16 typeOpt ++ (be16 defaultPayloadSize ++
      (be32 0 ++ (be16 (UInt16.ofNat rdata.length) ++ (rdata ++ []))))) := by
    rw [h]
    simp [writeName]
  have hname := readName_written hroot
  have htype : raw.drop (off + 1) = _ := drop_drop_append hroot
  have hclass : raw.drop (off + 1 + 2) = _ := drop_drop_append htype
  have httl : raw.drop (off + 1 + 4) = _ := drop_drop_append hclass
  have hrd : raw.drop (off + 1 + 8) = _ := drop_drop_append httl
  have hdata : raw.drop (off + 1 + 10) = _ := drop_drop_append hrd
  have hroom := length_le_of_drop hrd (by simp [← List.length_pos_iff])
  have hall := congrArg List.length hdata
  rw [List.length_drop, List.append_nil] at hall
  rw [length_be16] at hroom
  refine ⟨⟨reread [], typeOpt, defaultPayloadSize, 0, rdata⟩, rfl, ?_⟩
  simp only [readRecords]
  rw [hname, bind_ok]
  have hused : ((livePieces []).flatMap writeLabel).length + 1 = 1 := rfl
  dsimp only
  rw [hused, if_neg (by omega), u16At_of_drop hrd, hrdlen, if_neg (by omega), u16At_of_drop htype,
    u16At_of_drop hclass, u32At_of_drop httl, hdata, List.append_nil, List.take_length]
  rfl

/-! ## The round trip -/

/-- The subnet that should come back: the prefix not longer than the address, and no bits of the
    address behind it. -/
def clamped (cs : ClientSubnet) : ClientSubnet :=
  let plen := min cs.sourcePrefix.toNat (addrWidth cs.addr)
  ⟨maskAddr plen cs.addr, UInt8.ofNat plen, cs.scopePrefix⟩

/-- A query with an OPT record behind it is read as the same question and one additional record. -/
def AddsOpt (subnet : Option ClientSubnet) (labels : List Str) (trailing : Bool)
    (id qtype : UInt16) : Prop :=
  ∃ m₀ m r, parse (buildQuery id (dotted labels trailing) qtype) = .ok m₀ ∧
    parse (appendToQuery (buildQuery id (dotted labels trailing) qtype) subnet) = .ok m ∧
    m₀.questions = [queryQuestion labels qtype] ∧ m.questions = m₀.questions ∧
    m₀.answers = [] ∧ m.answers = [r] ∧ r.rtype = typeOpt ∧
    u16At m.raw 6 = 0 ∧ u16At m.raw 8 = 0 ∧ u16At m.raw 10 = 1

/-- A record is read back as the clamped subnet, and behind a query it is the one record that is
    added. -/
structure EdnsRoundTrip (cs : ClientSubnet) (udpsize : UInt16) (dnssec : Bool) : Prop where
  parsed : parseOptRr (encodeOptRr (some cs) udpsize dnssec) =
    some (udpsize, dnssec, some (clamped cs))
  appended : ∀ (subnet : Option ClientSubnet) (labels : List Str), (∀ p ∈ labels, LegalLabel p) →
    ∀ (trailing : Bool) (id qtype : UInt16), AddsOpt subnet labels trailing id qtype

theorem addsOpt_dotted (subnet : Option ClientSubnet) {labels : List Str}
    (h : ∀ p ∈ labels, LegalLabel p) (trailing : Bool) (id qtype : UInt16) :
    AddsOpt subnet labels trailing id qtype := by
  obtain ⟨off₀, -, hquery⟩ := parse_queryWith h trailing id qtype 0 []
  obtain ⟨off, hopt, happended⟩ := parse_queryWith h trailing id qtype 1
    (encodeOptRr subnet defaultPayloadSize false)
  obtain ⟨r, hrtype, hrecord⟩ := readRecords_opt hopt
  have hcounts := counts_queryWith id (dotted labels trailing) qtype 1
    (encodeOptRr subnet defaultPayloadSize false)
  have hone : (1 : UInt16).toNat = 1 := rfl
  rw [hone] at happended
  unfold AddsOpt
  rw [appendToQuery_buildQuery, buildQuery_eq]
  cases hread : readRecords (queryWith id (dotted labels trailing) qtype 1
      (encodeOptRr subnet defaultPayloadSize false)) 1 off with
  | error e => simp [hread, Except.map] at hrecord
  | ok p =>
    rw [hread] at hrecord happended
    have hp : p.1 = [r] := by simpa [Except.map] using hrecord
    exact ⟨_, _, r, hquery, happended, rfl, rfl, rfl, hp, hrtype, hcounts⟩

theorem clamped_sourcePrefix (cs : ClientSubnet) :
    cs.sourcePrefix = (clamped cs).sourcePrefix ↔ cs.sourcePrefix.toNat ≤ addrWidth cs.addr := by
  have hbyte := cs.sourcePrefix.toNat_lt
  rw [← UInt8.toNat_inj]
  simp only [clamped, UInt8.toNat_ofNat']
  rw [Nat.mod_eq_of_lt (by omega)]
  omega

/-- The record comes back clamped exactly when the prefix needs no clamping. -/
theorem edns_roundtrip_iff (cs : ClientSubnet) (udpsize : UInt16) (dnssec : Bool) :
    EdnsRoundTrip cs udpsize dnssec ↔ cs.sourcePrefix.toNat ≤ addrWidth cs.addr := by
  rw [← clamped_sourcePrefix]
  constructor
  · rintro ⟨hparsed, -⟩
    rw [parseOptRr_encode] at hparsed
    simp only [Option.some.injEq, Prod.mk.injEq] at hparsed
    have hsubnet := congrArg ClientSubnet.sourcePrefix hparsed.2.2
    exact hsubnet
  · intro hprefix
    refine ⟨?_, fun subnet labels h trailing id qtype => addsOpt_dotted subnet h trailing id qtype⟩
    have hclamped : clamped cs = ⟨maskAddr (min cs.sourcePrefix.toNat (addrWidth cs.addr)) cs.addr,
        (clamped cs).sourcePrefix, cs.scopePrefix⟩ := rfl
    rw [parseOptRr_encode, hclamped, ← hprefix]

/-- A prefix of 120 for 192.0.2.1 comes back as 120. -/
theorem wide_prefix_kept :
    ¬ EdnsRoundTrip ⟨.v4 0xC0000201#32, 120, 0⟩ defaultPayloadSize false := by
  intro h
  have hparsed := h.parsed
  rw [parseOptRr_encode] at hparsed
  revert hparsed
  decide

end RustCrash.Dns
