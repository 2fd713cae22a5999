import RustCrash.Lib.ReadExact
import RustCrash.Proto.Addr
import RustCrash.Quic.Varint

/-
  The two wire forms of a target (`addr.rs`): the SOCKS address, with the port behind the host,
  and the form of sing, with the port in front. The bytes for the three kinds of host differ too.

  Both decoders take exactly the words of their form (`socks_reads`, `portFirst_reads`). A domain
  comes back in lower case, so what was taken is encoded again up to that (`Codec`).
-/

namespace RustCrash.Proto

open Lib Lib.Net Routing Quic

/-! ## Hosts -/

/-- The bytes for the kinds of host in a form, and the errors of its decoder. -/
structure HostForm where
  ipv4 : UInt8
  domain : UInt8
  ipv6 : UInt8
  distinct : ipv4 ≠ domain ∧ ipv4 ≠ ipv6 ∧ domain ≠ ipv6
  shortIpv4 : Error
  shortDomainLen : Error
  shortDomain : Error
  badUtf8 : Error
  shortIpv6 : Error
  badAtyp : UInt8 → Error

namespace HostForm

def encode (f : HostForm) : Host → Bytes
  | .domain d =>
    let len := min (utf8 d).length 255
    f.domain :: UInt8.ofNat len :: (utf8 d).take len
  | .ip (.v4 v4) => f.ipv4 :: octets4 v4
  | .ip (.v6 v6) => f.ipv6 :: octets6 v6

/-- The host whose kind is at `p`, and how many bytes it takes. -/
def decode (f : HostForm) (data : Bytes) (p : Nat) (atyp : UInt8) : Result (Host × Nat) :=
  if atyp = f.ipv4 then do
    let o ← okOr (getRange data (p + 1) 4) f.shortIpv4
    return (.ip (.v4 (ofOctets4 o)), 5)
  else if atyp = f.domain then do
    let len ← okOr data[p + 1]? f.shortDomainLen
    let bytes ← okOr (getRange data (p + 2) len.toNat) f.shortDomain
    let s ← okOr (fromUtf8 bytes) f.badUtf8
    return (.domain (Str.asciiLower s), 2 + len.toNat)
  else if atyp = f.ipv6 then do
    let o ← okOr (getRange data (p + 1) 16) f.shortIpv6
    return (.ip (.v6 (ofOctets6 o)), 17)
  else .error (f.badAtyp atyp)

/-- The words of a form, with the host that is read from each. -/
inductive Word (f : HostForm) : Bytes → Host → Prop where
  | ipv4 (v4 : Ipv4Addr) : Word f (f.ipv4 :: octets4 v4) (.ip (.v4 v4))
  | domain {s : Str} (h : (utf8 s).length ≤ 255) :
    Word f (f.domain :: UInt8.ofNat (utf8 s).length :: utf8 s) (.domain (Str.asciiLower s))
  | ipv6 (v6 : Ipv6Addr) : Word f (f.ipv6 :: octets6 v6) (.ip (.v6 v6))

end HostForm

/-! ## The SOCKS address -/

def socksForm : HostForm where
  ipv4 := 0x01
  domain := 0x03
  ipv6 := 0x04
  distinct := by decide
  shortIpv4 := .protocol "socks addr: short ipv4"
  shortDomainLen := .protocol "socks addr: short domain length"
  shortDomain := .protocol "socks addr: short domain"
  badUtf8 := .protocol "socks addr: domain not utf-8"
  shortIpv6 := .protocol "socks addr: short ipv6"
  badAtyp atyp := .protocol s!"socks addr: bad atyp 0x{txt (hex atyp.toNat)}"

def encodeSocksAddr (host : Host) (port : UInt16) : Bytes := socksForm.encode host ++ be16 port

def decodeSocksAddr (data : Bytes) : Result (NetAddr × Nat) := do
  let atyp ← okOr data.head? (.protocol "socks addr: empty")
  let (host, off) ← socksForm.decode data 0 atyp
  let port ← okOr (getRange data off 2) (.protocol "socks addr: short port")
  return (⟨host, ofBE16 port⟩, off + 2)

/-! ## The port-first address -/

def singForm : HostForm where
  ipv4 := 0x01
  domain := 0x02
  ipv6 := 0x03
  distinct := by decide
  shortIpv4 := .protocol "port-first addr: short ipv4"
  shortDomainLen := .protocol "port-first addr: short domain len"
  shortDomain := .protocol "port-first addr: short domain"
  badUtf8 := .protocol "port-first addr: bad utf-8"
  shortIpv6 := .protocol "port-first addr: short ipv6"
  badAtyp other := .protocol s!"port-first addr: bad atyp 0x{txt (hex other.toNat)}"

def encodePortFirstAddr (host : Host) (port : UInt16) : Bytes := be16 port ++ singForm.encode host

def decodePortFirstAddr (data : Bytes) : Result (NetAddr × Nat) :=
  match data with
  | p0 :: p1 :: atyp :: _ => do
    let (host, used) ← singForm.decode data 2 atyp
    return (⟨host, ofBE16 [p0, p1]⟩, 2 + used)
  | _ => .error (.protocol "port-first addr: short")

/-! ## Reading a host -/

theorem getRange_eq_some {data o : Bytes} {a n : Nat} :
    getRange data a n = some o ↔ ∃ x rest, data = x ++ o ++ rest ∧ x.length = a ∧ o.length = n := by
  constructor
  · intro h
    unfold getRange at h
    split_ifs at h with hle
    have ho := Option.some.inj h
    refine ⟨data.take a, data.drop (a + n), ?_, by rw [List.length_take]; omega, ?_⟩
    · rw [← ho, slice, ← List.drop_drop, List.append_assoc, List.take_append_drop,
        List.take_append_drop]
    · rw [← ho, slice, List.length_take, List.length_drop]
      omega
  · rintro ⟨x, rest, rfl, rfl, rfl⟩
    rw [List.append_assoc, ← Nat.add_zero x.length, getRange_append, getRange_here]

theorem octets4_ofOctets4 {o : Bytes} (h : o.length = 4) : octets4 (ofOctets4 o) = o := by
  have hlt := ofBE_lt o
  rw [h, show 256 ^ 4 = 2 ^ 32 by decide] at hlt
  unfold octets4 ofOctets4
  rw [BitVec.toNat_ofNat, Nat.mod_eq_of_lt hlt, ← h, toBE_ofBE]

theorem octets6_ofOctets6 {o : Bytes} (h : o.length = 16) : octets6 (ofOctets6 o) = o := by
  have hlt := ofBE_lt o
  rw [h, show 256 ^ 16 = 2 ^ 128 by decide] at hlt
  unfold octets6 ofOctets6
  rw [BitVec.toNat_ofNat, Nat.mod_eq_of_lt hlt, ← h, toBE_ofBE]

namespace HostForm

variable {f : HostForm}

/-- What stands before a host does not matter. -/
theorem decode_append (f : HostForm) (x data : Bytes) (atyp : UInt8) :
    f.decode (x ++ data) x.length atyp = f.decode data 0 atyp := by
  unfold decode
  rw [getRange_append x data 1, getRange_append x data 1, List.getElem?_append_right (by omega),
    Nat.add_sub_cancel_left]
  simp only [getRange_append x data 2, Nat.zero_add]

theorem decode_word {w : Bytes} {host : Host} (h : f.Word w host) (rest : Bytes) :
    ∃ atyp body, w = atyp :: body ∧ f.decode (w ++ rest) 0 atyp = .ok (host, w.length) := by
  obtain ⟨hdom, hsix, hdomSix⟩ := f.distinct
  cases h with
  | ipv4 v4 =>
    refine ⟨f.ipv4, octets4 v4, rfl, ?_⟩
    have hget := getRange_here (octets4 v4) rest
    rw [length_octets4] at hget
    unfold decode
    rw [if_pos rfl, List.cons_append, getRange_cons, hget, okOr_some, bind_ok, ofOctets4_octets4,
      List.length_cons, length_octets4]
    rfl
  | @domain s hs =>
    refine ⟨f.domain, _, rfl, ?_⟩
    have hlen : (UInt8.ofNat (utf8 s).length).toNat = (utf8 s).length := by
      rw [UInt8.toNat_ofNat', Nat.mod_eq_of_lt (by omega)]
    unfold decode
    rw [if_neg hdom.symm, if_pos rfl, List.cons_append, List.cons_append, List.getElem?_cons_succ,
      List.getElem?_cons_zero, okOr_some, bind_ok, getRange_cons, getRange_cons, hlen,
      getRange_here, okOr_some, bind_ok, fromUtf8_utf8, okOr_some, bind_ok, List.length_cons,
      List.length_cons, Nat.add_comm 2]
    rfl
  | ipv6 v6 =>
    refine ⟨f.ipv6, octets6 v6, rfl, ?_⟩
    have hget := getRange_here (octets6 v6) rest
    rw [length_octets6] at hget
    unfold decode
    rw [if_neg hsix.symm, if_neg hdomSix.symm, if_pos rfl, List.cons_append, getRange_cons, hget,
      okOr_some, bind_ok, ofOctets6_octets6, List.length_cons, length_octets6]
    rfl

/-- What is read is a word. -/
theorem word_of_decode {atyp : UInt8} {body : Bytes} {host : Host} {n : Nat}
    (h : f.decode (atyp :: body) 0 atyp = .ok (host, n)) :
    ∃ w rest, atyp :: body = w ++ rest ∧ f.Word w host ∧ n = w.length := by
  unfold decode at h
  split_ifs at h with h4 hdom h6
  · obtain ⟨o, ho, h⟩ := bind_eq_ok.mp h
    obtain ⟨rfl, rfl⟩ := Prod.mk.inj (Except.ok.inj h)
    rw [okOr_eq_ok, getRange_cons] at ho
    obtain ⟨x, rest, rfl, hx, hlen⟩ := getRange_eq_some.mp ho
    rw [List.eq_nil_of_length_eq_zero hx, h4]
    refine ⟨f.ipv4 :: o, rest, rfl, ?_, by rw [List.length_cons, hlen]⟩
    have hword := Word.ipv4 (f := f) (ofOctets4 o)
    rwa [octets4_ofOctets4 hlen] at hword
  · obtain ⟨len, hl, h⟩ := bind_eq_ok.mp h
    obtain ⟨bytes, hbytes, h⟩ := bind_eq_ok.mp h
    obtain ⟨s, hs, h⟩ := bind_eq_ok.mp h
    obtain ⟨rfl, rfl⟩ := Prod.mk.inj (Except.ok.inj h)
    rw [okOr_eq_ok, List.getElem?_cons_succ, ← List.head?_eq_getElem?] at hl
    obtain ⟨tail, rfl⟩ := List.head?_eq_some_iff.mp hl
    rw [okOr_eq_ok, getRange_cons, getRange_cons] at hbytes
    obtain ⟨x, rest, rfl, hx, hlen⟩ := getRange_eq_some.mp hbytes
    rw [okOr_eq_ok, fromUtf8_eq_some_iff] at hs
    subst hs
    have hlt := UInt8.toNat_lt len
    have hword := Word.domain (f := f) (s := s) (by omega)
    rw [hlen, UInt8.ofNat_toNat] at hword
    rw [List.eq_nil_of_length_eq_zero hx, hdom]
    refine ⟨_, rest, rfl, hword, ?_⟩
    rw [List.length_cons, List.length_cons, hlen, Nat.add_comm]
  · obtain ⟨o, ho, h⟩ := bind_eq_ok.mp h
    obtain ⟨rfl, rfl⟩ := Prod.mk.inj (Except.ok.inj h)
    rw [okOr_eq_ok, getRange_cons] at ho
    obtain ⟨x, rest, rfl, hx, hlen⟩ := getRange_eq_some.mp ho
    rw [List.eq_nil_of_length_eq_zero hx, h6]
    refine ⟨f.ipv6 :: o, rest, rfl, ?_, by rw [List.length_cons, hlen]⟩
    have hword := Word.ipv6 (f := f) (ofOctets6 o)
    rwa [octets6_ofOctets6 hlen] at hword

/-! ## Writing a host -/

/-- A host that the forms hold: what `Host::parse` gives. -/
def Wirable : Host → Prop
  | .domain d => (utf8 d).length ≤ 255 ∧ Str.asciiLower d = d
  | .ip _ => True

theorem word_encode {host : Host} (h : Wirable host) (f : HostForm) :
    f.Word (f.encode host) host := by
  rcases host with d | v4 | v6
  · obtain ⟨hlen, hlower⟩ := h
    have hword := Word.domain (f := f) hlen
    rw [hlower] at hword
    unfold encode
    dsimp only
    rwa [Nat.min_eq_left hlen, List.take_length]
  · exact .ipv4 v4
  · exact .ipv6 v6

theorem Word.wirable {w : Bytes} {host : Host} (h : f.Word w host) : Wirable host := by
  cases h with
  | ipv4 v4 => trivial
  | @domain s hs =>
    refine ⟨?_, Str.asciiLower_asciiLower _⟩
    rw [Str.utf8_asciiLower, List.length_map]
    exact hs
  | ipv6 v6 => trivial

/-- Of a host's encoding, no strict beginning is a word. -/
theorem Word.length_of_prefix {w t : Bytes} {a host : Host} (h : f.Word w a)
    (hp : w <+: f.encode host ++ t) : w.length = (f.encode host).length := by
  obtain ⟨hdom, hsix, hdomSix⟩ := f.distinct
  rcases host with d | v4 | v6
  · cases h with
    | ipv4 a => exact absurd (List.cons_prefix_cons.mp hp).1 hdom
    | @domain s hs =>
      obtain ⟨-, htail⟩ := List.cons_prefix_cons.mp hp
      obtain ⟨hlen, -⟩ := List.cons_prefix_cons.mp htail
      have hnat := congrArg UInt8.toNat hlen
      rw [UInt8.toNat_ofNat', UInt8.toNat_ofNat', Nat.mod_eq_of_lt (by omega),
        Nat.mod_eq_of_lt (by omega)] at hnat
      unfold encode
      simp only [List.length_cons, List.length_take]
      omega
    | ipv6 a => exact absurd (List.cons_prefix_cons.mp hp).1 hdomSix.symm
  · cases h with
    | ipv4 a =>
      unfold encode
      rw [List.length_cons, List.length_cons, length_octets4, length_octets4]
    | domain hs => exact absurd (List.cons_prefix_cons.mp hp).1 hdom.symm
    | ipv6 a => exact absurd (List.cons_prefix_cons.mp hp).1 hsix.symm
  · cases h with
    | ipv4 a => exact absurd (List.cons_prefix_cons.mp hp).1 hsix
    | domain hs => exact absurd (List.cons_prefix_cons.mp hp).1 hdomSix
    | ipv6 a =>
      unfold encode
      rw [List.length_cons, List.length_cons, length_octets6, length_octets6]

/-- The domain's bytes on the wire; an address has none. -/
def DomainBytes (dom : Bytes) : Host → Prop
  | .domain d => utf8 d = dom.map Str.lowerByte
  | .ip _ => dom = []

/-- A word and the encoding of its host are the same up to the case of the domain. -/
theorem Word.encode {w : Bytes} {host : Host} (h : f.Word w host) :
    ∃ pre dom, w = pre ++ dom ∧ f.encode host = pre ++ dom.map Str.lowerByte ∧
      DomainBytes dom host := by
  cases h with
  | ipv4 v4 => exact ⟨_, [], (List.append_nil _).symm, (List.append_nil _).symm, rfl⟩
  | @domain s hs =>
    refine ⟨[f.domain, UInt8.ofNat (utf8 s).length], utf8 s, rfl, ?_, Str.utf8_asciiLower s⟩
    unfold HostForm.encode
    dsimp only
    rw [Str.utf8_asciiLower, List.length_map, Nat.min_eq_left hs, ← List.length_map Str.lowerByte,
      List.take_length]
    rfl
  | ipv6 v6 => exact ⟨_, [], (List.append_nil _).symm, (List.append_nil _).symm, rfl⟩

end HostForm

theorem length_of_validateDomain {s : Str} (h : validateDomain s = .ok ()) :
    (utf8 s).length ≤ 253 := by
  unfold validateDomain at h
  obtain ⟨u, hrange, -⟩ := bind_eq_ok.mp h
  have hnot := ensure_eq_ok.mp hrange
  omega

theorem hostParse_wirable {text : Str} {host : Host} (h : hostParse text = .ok host) :
    HostForm.Wirable host := by
  unfold hostParse at h
  dsimp only at h
  split_ifs at h
  split at h
  · obtain rfl := Except.ok.inj h
    trivial
  · cases hvalid : validateDomain (Str.trim text) with
    | error e =>
      rw [hvalid] at h
      cases h
    | ok u =>
      rw [hvalid] at h
      obtain rfl := Except.ok.inj h
      have hlen := length_of_validateDomain hvalid
      refine ⟨?_, Str.asciiLower_asciiLower _⟩
      rw [Str.utf8_asciiLower, List.length_map]
      omega

/-! ## Both forms -/

def SocksWord (w : Bytes) (addr : NetAddr) : Prop :=
  ∃ u, w = u ++ be16 addr.port ∧ socksForm.Word u addr.host

def PortFirstWord (w : Bytes) (addr : NetAddr) : Prop :=
  ∃ u, w = be16 addr.port ++ u ∧ singForm.Word u addr.host

theorem socks_reads : ReadsFront decodeSocksAddr SocksWord := by
  intro bs addr n
  constructor
  · intro h
    unfold decodeSocksAddr at h
    obtain ⟨atyp, hhead, h⟩ := bind_eq_ok.mp h
    obtain ⟨⟨host, off⟩, hdecode, h⟩ := bind_eq_ok.mp h
    obtain ⟨port, hport, h⟩ := bind_eq_ok.mp h
    obtain ⟨rfl, rfl⟩ := Prod.mk.inj (Except.ok.inj h)
    obtain ⟨body, rfl⟩ := List.head?_eq_some_iff.mp (okOr_eq_ok.mp hhead)
    obtain ⟨u, rest, hsplit, hword, rfl⟩ := HostForm.word_of_decode hdecode
    rw [hsplit, okOr_eq_ok, ← Nat.add_zero u.length, getRange_append] at hport
    obtain ⟨x, later, rfl, hx, hlen⟩ := getRange_eq_some.mp hport
    rw [List.eq_nil_of_length_eq_zero hx, List.nil_append] at hsplit
    refine ⟨u ++ port, later, by rw [hsplit, List.append_assoc], ⟨u, ?_, hword⟩, ?_⟩
    · rw [be16_ofBE16 hlen]
    · rw [List.length_append, hlen]
  · rintro ⟨w, rest, rfl, ⟨u, rfl, hword⟩, rfl⟩
    obtain ⟨atyp, body, hu, hdecode⟩ := HostForm.decode_word hword (be16 addr.port ++ rest)
    have hhead : (u ++ (be16 addr.port ++ rest)).head? = some atyp := by
      rw [hu]
      rfl
    have hport : getRange (u ++ (be16 addr.port ++ rest)) u.length 2 = some (be16 addr.port) := by
      rw [← Nat.add_zero u.length, getRange_append, ← length_be16 addr.port, getRange_here]
    unfold decodeSocksAddr
    rw [List.append_assoc, hhead, okOr_some, bind_ok, hdecode, bind_ok]
    dsimp only
    rw [hport, okOr_some, bind_ok, ofBE16_be16, List.length_append, length_be16]
    rfl

theorem portFirst_reads : ReadsFront decodePortFirstAddr PortFirstWord := by
  intro bs addr n
  constructor
  · intro h
    unfold decodePortFirstAddr at h
    split at h
    · rename_i p0 p1 atyp tail
      obtain ⟨⟨host, used⟩, hdecode, h⟩ := bind_eq_ok.mp h
      obtain ⟨rfl, rfl⟩ := Prod.mk.inj (Except.ok.inj h)
      have hskip := HostForm.decode_append singForm [p0, p1] (atyp :: tail) atyp
      obtain ⟨u, rest, hsplit, hword, rfl⟩ := HostForm.word_of_decode (hskip.symm.trans hdecode)
      refine ⟨[p0, p1] ++ u, rest, by rw [List.append_assoc, ← hsplit]; rfl, ⟨u, ?_, hword⟩, ?_⟩
      · rw [be16_ofBE16 rfl]
      · rw [List.length_append]
        rfl
    · cases h
  · rintro ⟨w, rest, rfl, ⟨u, rfl, hword⟩, rfl⟩
    obtain ⟨p0, p1, hpair, hport⟩ := be16_pair addr.port
    obtain ⟨atyp, body, rfl, hdecode⟩ := HostForm.decode_word hword rest
    have hskip : singForm.decode (p0 :: p1 :: atyp :: (body ++ rest)) 2 atyp =
        .ok (addr.host, (atyp :: body).length) :=
      (HostForm.decode_append singForm [p0, p1] (atyp :: body ++ rest) atyp).trans hdecode
    rw [hpair]
    simp only [List.cons_append, List.nil_append]
    unfold decodePortFirstAddr
    dsimp only
    rw [hskip, bind_ok]
    dsimp only
    rw [hport, List.length_cons, List.length_cons, Nat.add_comm 2]
    rfl

/-- A wire form of a target: what is written is read back, whatever stands behind it; cut short
    it is rejected; and what is read is what would be written, up to the case of a domain. -/
structure Codec (encode : Host → UInt16 → Bytes) (decode : Bytes → Result (NetAddr × Nat)) :
    Prop where
  roundTrip : ∀ text host port t, hostParse text = .ok host →
    decode (encode host port ++ t) = .ok (⟨host, port⟩, (encode host port).length)
  cutShort : ∀ host port p, p <+: encode host port → p ≠ encode host port →
    ∃ e, decode p = .error e
  again : ∀ data addr n, decode data = .ok (addr, n) → n ≤ data.length ∧
    ∃ pre dom post, data.take n = pre ++ dom ++ post ∧
      encode addr.host addr.port = pre ++ dom.map Str.lowerByte ++ post ∧
      HostForm.DomainBytes dom addr.host

theorem socks_codec : Codec encodeSocksAddr decodeSocksAddr where
  roundTrip := by
    intro text host port t hparse
    have hword : SocksWord (encodeSocksAddr host port) ⟨host, port⟩ :=
      ⟨_, rfl, HostForm.word_encode (hostParse_wirable hparse) socksForm⟩
    exact socks_reads.append hword t
  cutShort := by
    rintro host port p ⟨more, hp⟩ hne
    refine socks_reads.rejected fun v addr hv hvp => hne ?_
    obtain ⟨u, rfl, hword⟩ := hv
    have hprefix : u ++ be16 addr.port <+: encodeSocksAddr host port :=
      hvp.trans ⟨more, hp⟩
    have hlen := hword.length_of_prefix ((List.prefix_append u _).trans hprefix)
    have hle := hvp.length_le
    have hp' := congrArg List.length hp
    unfold encodeSocksAddr at hp'
    simp only [List.length_append, length_be16] at hle hp'
    have hnil := List.eq_nil_of_length_eq_zero (by omega : more.length = 0)
    rwa [hnil, List.append_nil] at hp
  again := by
    intro data addr n h
    obtain ⟨hle, u, htake, hword⟩ := socks_reads.taken h
    obtain ⟨pre, dom, rfl, hencode, hdom⟩ := hword.encode
    refine ⟨hle, pre, dom, be16 addr.port, htake, ?_, hdom⟩
    unfold encodeSocksAddr
    rw [hencode]

theorem portFirst_codec : Codec encodePortFirstAddr decodePortFirstAddr where
  roundTrip := by
    intro text host port t hparse
    have hword : PortFirstWord (encodePortFirstAddr host port) ⟨host, port⟩ :=
      ⟨_, rfl, HostForm.word_encode (hostParse_wirable hparse) singForm⟩
    exact portFirst_reads.append hword t
  cutShort := by
    rintro host port p ⟨more, hp⟩ hne
    refine portFirst_reads.rejected fun v addr hv hvp => hne ?_
    obtain ⟨u, rfl, hword⟩ := hv
    obtain ⟨rest, hrest⟩ : be16 addr.port ++ u <+: be16 port ++ singForm.encode host :=
      hvp.trans ⟨more, hp⟩
    rw [List.append_assoc] at hrest
    have hhost := List.append_inj_right hrest (by rw [length_be16, length_be16])
    have hprefix : u <+: singForm.encode host ++ [] :=
      ⟨rest, by rw [hhost, List.append_nil]⟩
    have hlen := hword.length_of_prefix hprefix
    have hle := hvp.length_le
    have hp' := congrArg List.length hp
    unfold encodePortFirstAddr at hp'
    simp only [List.length_append, length_be16] at hle hp'
    have hnil := List.eq_nil_of_length_eq_zero (by omega : more.length = 0)
    rwa [hnil, List.append_nil] at hp
  again := by
    intro data addr n h
    obtain ⟨hle, u, htake, hword⟩ := portFirst_reads.taken h
    obtain ⟨pre, dom, rfl, hencode, hdom⟩ := hword.encode
    refine ⟨hle, be16 addr.port ++ pre, dom, [], ?_, ?_, hdom⟩
    · rw [htake, List.append_nil, List.append_assoc]
    · unfold encodePortFirstAddr
      rw [hencode, List.append_nil, List.append_assoc]

/-- Both forms are codecs. -/
theorem socks_and_portFirst : Codec encodeSocksAddr decodeSocksAddr ∧
    Codec encodePortFirstAddr decodePortFirstAddr := ⟨socks_codec, portFirst_codec⟩

end RustCrash.Proto
