import RustCrash.Routing.Matcher

/-
  The target of a connection (`addr.rs`) and its text: `Host::parse`, the `Display` of `NetAddr`,
  and the two readers of `host:port` that the QUIC protocols use.
-/

namespace RustCrash.Proto

open Lib Lib.Net Routing

structure NetAddr where
  host : Host
  port : UInt16
  deriving DecidableEq

def NetAddr.ip (a : IpAddr) (port : UInt16) : NetAddr := ⟨.ip a, port⟩

/-! ## `Host` and `NetAddr` -/

def validateDomain (s : Str) : Result Unit := do
  ensure (¬ (253 < (utf8 s).length ∨ s = []))
    (.protocol s!"domain length out of range: {txt s}")
  ensure (¬ ((s.splitOn '.').any fun label => label.isEmpty))
    (.protocol s!"empty label in domain: {txt s}")
  ensure (s.all fun c => c.isAlphanum || c == '-' || c == '.' || c == '_')
    (.protocol s!"invalid domain charset: {txt s}")

def hostParse (s : Str) : Result Host :=
  let s := Str.trim s
  if s = [] then .error (.protocol "empty host")
  else
    match parseIpAddr s with
    | some ip => .ok (.ip ip)
    | none => (validateDomain s).map fun _ => .domain (Str.asciiLower s)

/-- `Display`. -/
def NetAddr.text (t : NetAddr) : Str :=
  match t.host with
  | .domain d => d ++ ':' :: Str.decimal t.port.toNat
  | .ip (.v4 v4) => text4 v4 ++ ':' :: Str.decimal t.port.toNat
  | .ip (.v6 v6) => '[' :: text6 v6 ++ [']', ':'] ++ Str.decimal t.port.toNat

/-! ## `host:port` -/

/-- `str::rsplit_once`. -/
def rsplitOnce (c : Char) (s : Str) : Option (Str × Str) :=
  (Str.splitOnce c s.reverse).map fun p => (p.2.reverse, p.1.reverse)

/-- `Parser::read_port`. -/
def readPort (s : Str) : Option (UInt16 × Str) := do
  let s ← readChar ':' s
  let (n, s) ← readNumber 10 s.length true 65536 s
  return (UInt16.ofNat n, s)

/-- `Parser::read_scope_id`, or the text as it was. -/
def readScopeId (s : Str) : UInt32 × Str :=
  match (readChar '%' s).bind fun s => readNumber 10 s.length true (2 ^ 32) s with
  | some (n, s) => (UInt32.ofNat n, s)
  | none => (0, s)

/-- `Parser::read_socket_addr_v4`. -/
def readSocketAddrV4 (s : Str) : Option (SocketAddr × Str) := do
  let (ip, s) ← readIpv4 s
  let (port, s) ← readPort s
  return (.v4 ip port, s)

/-- `Parser::read_socket_addr_v6`. -/
def readSocketAddrV6 (s : Str) : Option (SocketAddr × Str) := do
  let s ← readChar '[' s
  let (ip, s) ← readIpv6 s
  let (scopeId, s) := readScopeId s
  let s ← readChar ']' s
  let (port, s) ← readPort s
  return (.v6 ip port 0 scopeId, s)

/-- `str::parse::<SocketAddr>()`. -/
def parseSocketAddr (s : Str) : Option SocketAddr :=
  parseWith ((readSocketAddrV4 s).orElse fun _ => readSocketAddrV6 s)

/-- `parse_host_port` of the Hysteria2 server. -/
def parseHostPort (s : Str) : Result NetAddr :=
  match parseSocketAddr s with
  | some sa => .ok (.ip sa.ip sa.port)
  | none => do
    let (host, port) ← okOr (rsplitOnce ':' s) (.protocol s!"missing port in {Str.debug s}")
    ensure (¬ (host.head? = some '[' ∨ ':' ∈ host)) (.protocol s!"invalid address {Str.debug s}")
    let port ← okOr (Str.parseUint 65535 port) (.protocol s!"bad port in {Str.debug s}")
    let host ← hostParse host
    return ⟨host, UInt16.ofNat port⟩

/-- `parse_hostport` of the outbounds. -/
def parseHostport (s : Str) : Option NetAddr := do
  let (host, port) ← rsplitOnce ':' s
  let host := Str.trimEndMatches ']' (Str.trimStartMatches '[' host)
  let port ← Str.parseUint 65535 port
  let host ← (hostParse host).toOption
  return ⟨host, UInt16.ofNat port⟩

end RustCrash.Proto
