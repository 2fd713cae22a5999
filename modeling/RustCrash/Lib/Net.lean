import RustCrash.Lib.Str

/-
  IP addresses as text: `std::net`'s parsers (`core::net::parser`) and its `Display`.
  An IPv4 address is a 32-bit vector and an IPv6 address a 128-bit one, first octet on top.

  The IPv6 text has two shapes: `::ffff:a.b.c.d`, and the
  hextets with the longest run of zeros cut to `::`. Both go through `readGroups`.

  At the end socket addresses (`std::net::SocketAddr`) and their text.
-/

namespace RustCrash.Lib

/-- `Ipv4Addr`, as its `u32`. -/
abbrev Ipv4Addr := BitVec 32

/-- `Ipv6Addr`, as its `u128`. -/
abbrev Ipv6Addr := BitVec 128

inductive IpAddr where
  | v4 (a : Ipv4Addr)
  | v6 (a : Ipv6Addr)
  deriving DecidableEq, Repr

namespace Net

/-! ## Octets and segments -/

def octets4 (a : Ipv4Addr) : Bytes := toBE 4 a.toNat

def octets6 (a : Ipv6Addr) : Bytes := toBE 16 a.toNat

def ofOctets4 (bs : Bytes) : Ipv4Addr := BitVec.ofNat 32 (ofBE bs)

def ofOctets6 (bs : Bytes) : Ipv6Addr := BitVec.ofNat 128 (ofBE bs)

@[simp] theorem length_octets4 (a : Ipv4Addr) : (octets4 a).length = 4 := length_toBE _ _

@[simp] theorem length_octets6 (a : Ipv6Addr) : (octets6 a).length = 16 := length_toBE _ _

@[simp] theorem ofOctets4_octets4 (a : Ipv4Addr) : ofOctets4 (octets4 a) = a := by
  unfold ofOctets4 octets4
  rw [ofBE_toBE_of_lt (by simpa using a.isLt), BitVec.ofNat_toNat, BitVec.setWidth_eq]

@[simp] theorem ofOctets6_octets6 (a : Ipv6Addr) : ofOctets6 (octets6 a) = a := by
  unfold ofOctets6 octets6
  rw [ofBE_toBE_of_lt (by simpa using a.isLt), BitVec.ofNat_toNat, BitVec.setWidth_eq]

/-- The 16-bit groups of an octet string. -/
def segments : Bytes → List Nat
  | b0 :: b1 :: bs => (b0.toNat * 256 + b1.toNat) :: segments bs
  | _ => []

/-- The octets of 16-bit groups. -/
def ofSegments (gs : List Nat) : Bytes := gs.flatMap (toBE 2)

theorem segments_lt {bs : Bytes} {g : Nat} (h : g ∈ segments bs) : g < 65536 := by
  induction bs using segments.induct with
  | case1 b0 b1 bs ih =>
    have h0 : b0.toNat < 256 := UInt8.toNat_lt b0
    have h1 : b1.toNat < 256 := UInt8.toNat_lt b1
    rw [segments, List.mem_cons] at h
    rcases h with rfl | h
    · omega
    · exact ih h
  | case2 bs h' =>
    cases bs with
    | nil => simp [segments] at h
    | cons b0 bs =>
      cases bs with
      | nil => simp [segments] at h
      | cons b1 bs => exact absurd rfl (h' b0 b1 bs)

theorem toBE_two (b0 b1 : UInt8) : toBE 2 (b0.toNat * 256 + b1.toNat) = [b0, b1] := by
  have := toBE_ofBE [b0, b1]
  simpa [ofBE] using this

theorem ofSegments_segments {bs : Bytes} {k : Nat} (h : bs.length = 2 * k) :
    ofSegments (segments bs) = bs := by
  induction k generalizing bs with
  | zero =>
    rw [List.length_eq_zero_iff.mp h]
    rfl
  | succ k ih =>
    match bs, h with
    | b0 :: b1 :: bs, h =>
      have hl : bs.length = 2 * k := by simp at h; omega
      have hi := ih hl
      unfold ofSegments at hi ⊢
      rw [segments, List.flatMap_cons, toBE_two, hi]
      rfl

theorem length_segments {bs : Bytes} {k : Nat} (h : bs.length = 2 * k) :
    (segments bs).length = k := by
  induction k generalizing bs with
  | zero => rw [List.length_eq_zero_iff.mp h]; rfl
  | succ k ih =>
    match bs, h with
    | b0 :: b1 :: bs, h =>
      have hl : bs.length = 2 * k := by simp at h; omega
      simp [segments, ih hl]

/-! ## `Display` -/

/-- `{a}` for an IPv4 address. -/
def text4 (a : Ipv4Addr) : Str :=
  Str.join '.' ((octets4 a).map fun b => Str.decimal b.toNat)

/-- `{:x}` for a hextet. -/
def hex (g : Nat) : Str := Nat.toDigits 16 g

/-- Start and length of the longest run of zeros, the first of the longest. -/
def longestZeros (gs : List Nat) : Nat × Nat :=
  let step := fun (st : Nat × (Nat × Nat) × (Nat × Nat)) (g : Nat) =>
    let (i, cur, best) := st
    if g = 0 then
      let cur := (if cur.2 = 0 then i else cur.1, cur.2 + 1)
      (i + 1, cur, if cur.2 > best.2 then cur else best)
    else (i + 1, (0, 0), best)
  (gs.foldl step (0, (0, 0), (0, 0))).2.2

def hexJoin (gs : List Nat) : Str := Str.join ':' (gs.map hex)

/-- `to_ipv4_mapped`: the IPv4 address in `::ffff:0:0/96`. -/
def toIpv4Mapped (a : Ipv6Addr) : Option Ipv4Addr :=
  if a.toNat / 2 ^ 32 = 0xFFFF then some (a.setWidth 32) else none

/-- `{a}` for an IPv6 address. -/
def text6 (a : Ipv6Addr) : Str :=
  match toIpv4Mapped a with
  | some v4 => "::ffff:".toList ++ text4 v4
  | none =>
    let gs := segments (octets6 a)
    let (start, len) := longestZeros gs
    if len > 1 then hexJoin (gs.take start) ++ "::".toList ++ hexJoin (gs.drop (start + len))
    else hexJoin gs

/-! ## Parsing -/

/-- `char::to_digit`. -/
def toDigit (radix : Nat) (c : Char) : Option Nat :=
  let n := c.toNat
  let d :=
    if 48 ≤ n ∧ n ≤ 57 then some (n - 48)
    else if 97 ≤ n ∧ n ≤ 122 then some (n - 87)
    else if 65 ≤ n ∧ n ≤ 90 then some (n - 55)
    else none
  d.filter (· < radix)

def isDigit (radix : Nat) (c : Char) : Bool := (toDigit radix c).isSome

def digitsValue (radix : Nat) (ds : Str) : Nat :=
  ds.foldl (fun acc c => acc * radix + (toDigit radix c).getD 0) 0

/-- `Parser::read_number`: the digits in front, at most `maxDigits` of them, below `bound`. -/
def readNumber (radix maxDigits : Nat) (allowZeroPrefix : Bool) (bound : Nat) (s : Str) :
    Option (Nat × Str) :=
  let ds := s.takeWhile (isDigit radix)
  let rest := s.dropWhile (isDigit radix)
  if ds.length > maxDigits then none
  else if ds = [] then none
  else if allowZeroPrefix = false ∧ ds.head? = some '0' ∧ ds.length > 1 then none
  else if digitsValue radix ds < bound then some (digitsValue radix ds, rest)
  else none

/-- `Parser::read_given_char`. -/
def readChar (c : Char) : Str → Option Str
  | x :: xs => if x = c then some xs else none
  | [] => none

/-- `Parser::read_ipv4_addr`: four decimal octets, no leading zeros. -/
def readIpv4 (s : Str) : Option (Ipv4Addr × Str) := do
  let (a, s) ← readNumber 10 3 false 256 s
  let s ← readChar '.' s
  let (b, s) ← readNumber 10 3 false 256 s
  let s ← readChar '.' s
  let (c, s) ← readNumber 10 3 false 256 s
  let s ← readChar '.' s
  let (d, s) ← readNumber 10 3 false 256 s
  return (BitVec.ofNat 32 (((a * 256 + b) * 256 + c) * 256 + d), s)

/-- `read_groups`: up to `limit` hextets separated by colons, the last two of which may be
    written as an IPv4 address. Returns the hextets, whether they end in an IPv4 address,
    and the rest. `first` says no separator is due. -/
def readGroups : (limit : Nat) → (first : Bool) → Str → List Nat × Bool × Str
  | 0, _, s => ([], false, s)
  | n + 1, first, s =>
    let sep := if first then some s else readChar ':' s
    match if 0 < n then sep.bind readIpv4 else none with
    | some (v4, rest) => (segments (octets4 v4), true, rest)
    | none =>
      match sep.bind (readNumber 16 4 true 65536) with
      | some (g, rest) =>
        let (gs, v4, rest) := readGroups n false rest
        (g :: gs, v4, rest)
      | none => ([], false, s)

/-- `Parser::read_ipv6_addr`. -/
def readIpv6 (s : Str) : Option (Ipv6Addr × Str) :=
  match readGroups 8 true s with
  | (head, headIpv4, rest) =>
    if head.length = 8 then some (ofOctets6 (ofSegments head), rest)
    else if headIpv4 then none
    else do
      let rest ← readChar ':' rest
      let rest ← readChar ':' rest
      let (tail, _, rest) := readGroups (8 - (head.length + 1)) true rest
      let zeros := List.replicate (8 - head.length - tail.length) 0
      return (ofOctets6 (ofSegments (head ++ zeros ++ tail)), rest)

/-- The value, when the reader took the whole input. -/
def parseWith {α : Type} (r : Option (α × Str)) : Option α :=
  match r with
  | some (a, []) => some a
  | _ => none

/-- `str::parse::<Ipv4Addr>()`; the longest text is 15 bytes. -/
def parseIpv4 (s : Str) : Option Ipv4Addr :=
  if (utf8 s).length > 15 then none else parseWith (readIpv4 s)

/-- `Parser::read_ip_addr`. -/
def readIpAddr (s : Str) : Option (IpAddr × Str) :=
  match readIpv4 s with
  | some (a, rest) => some (.v4 a, rest)
  | none => (readIpv6 s).map fun p => (.v6 p.1, p.2)

/-- `str::parse::<IpAddr>()`. -/
def parseIpAddr (s : Str) : Option IpAddr := parseWith (readIpAddr s)

/-- `IpAddr::to_string`. -/
def ipText : IpAddr → Str
  | .v4 a => text4 a
  | .v6 a => text6 a

end Net

/-! ## Socket addresses -/

inductive SocketAddr where
  | v4 (ip : Ipv4Addr) (port : UInt16)
  | v6 (ip : Ipv6Addr) (port : UInt16) (flowinfo scopeId : UInt32)
  deriving DecidableEq

namespace SocketAddr

def new : IpAddr → UInt16 → SocketAddr
  | .v4 ip, port => v4 ip port
  | .v6 ip, port => v6 ip port 0 0

def ip : SocketAddr → IpAddr
  | v4 ip _ => .v4 ip
  | v6 ip _ _ _ => .v6 ip

def port : SocketAddr → UInt16
  | v4 _ port => port
  | v6 _ port _ _ => port

@[simp] theorem ip_new (addr : IpAddr) (port : UInt16) : (new addr port).ip = addr := by
  cases addr <;> rfl

@[simp] theorem port_new (addr : IpAddr) (port : UInt16) : (new addr port).port = port := by
  cases addr <;> rfl

end SocketAddr

/-- `SocketAddr::to_string`. -/
def SocketAddr.text : SocketAddr → Str
  | .v4 ip port => Net.text4 ip ++ ':' :: Str.decimal port.toNat
  | .v6 ip port _ scopeId =>
    let scope := if scopeId = 0 then [] else '%' :: Str.decimal scopeId.toNat
    '[' :: Net.text6 ip ++ scope ++ [']', ':'] ++ Str.decimal port.toNat

end RustCrash.Lib
