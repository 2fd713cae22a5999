import Mathlib.Data.List.AList
import RustCrash.RulesetBin.Cidr

/-
  Routing rules (`rule.rs`): the matchers, the connection a rule is evaluated on, the
  loaded rule-provider sets and the geo databases.

  A compiled regex is kept as its pattern. The `regex` crate and the MaxMind reader are
  the parameters `Regex` and `Reader`. A hash map is an association list.
-/

namespace RustCrash.Routing

open Lib Lib.Net RulesetBin

/-! ## Networks and ranges -/

/-- The longest prefix of an address. -/
def maxPrefixLen : IpAddr → Nat
  | .v4 _ => 32
  | .v6 _ => 128

/-- An IP network (`a.b.c.d/pl`, v4 or v6); its fields are only set by `new`. -/
structure IpNet where
  addr : IpAddr
  prefixLen : Nat
  le_max : prefixLen ≤ maxPrefixLen addr
  deriving DecidableEq, Repr

namespace IpNet

def new (addr : IpAddr) (prefixLen : Nat) : Result IpNet :=
  if h : prefixLen ≤ maxPrefixLen addr then .ok ⟨addr, prefixLen, h⟩
  else .error (.config s!"prefix /{prefixLen} exceeds /{maxPrefixLen addr}")

def contains (n : IpNet) (ip : IpAddr) : Bool :=
  match n.addr, ip with
  | .v4 net, .v4 addr => net &&& prefixMask 32 n.prefixLen == addr &&& prefixMask 32 n.prefixLen
  | .v6 net, .v6 addr => net &&& prefixMask 128 n.prefixLen == addr &&& prefixMask 128 n.prefixLen
  | _, _ => false

/-- `FromStr`. -/
def parse (s : Str) : Result IpNet := do
  let (addr, plen) ← okOr (Str.splitOnce '/' s) (.config s!"CIDR {Str.debug s} missing prefix")
  let ip ← okOr (parseIpAddr addr) (.config s!"bad CIDR address {Str.debug addr}")
  let plen ← okOr (Str.parseUint 255 plen) (.config s!"bad CIDR prefix {Str.debug plen}")
  new ip plen

end IpNet

/-- An inclusive range of ports or uids. -/
structure NumRange where
  start : Nat
  stop : Nat
  deriving DecidableEq, Repr

namespace NumRange

def contains (r : NumRange) (v : Nat) : Bool := r.start ≤ v && v ≤ r.stop

/-- A number or `start-end`, each at most `max`; `what` names it in an error. -/
def parse (max : Nat) (what : String) (s : Str) : Result NumRange :=
  let number := fun (t : Str) =>
    okOr (Str.parseUint max t) (.config s!"bad {what} {Str.debug t}")
  match Str.splitOnce '-' s with
  | some (a, b) => do
    let start ← number a
    let stop ← number b
    return ⟨start, stop⟩
  | none => do
    let p ← number s
    return ⟨p, p⟩

end NumRange

/-- Port matcher: single port or `start-end`. -/
abbrev PortRange := NumRange

def PortRange.parse (s : Str) : Result PortRange := NumRange.parse 65535 "port" s

/-- UID matcher: single uid or `start-end`. -/
abbrev U32Range := NumRange

def U32Range.parse (s : Str) : Result U32Range := NumRange.parse (2 ^ 32 - 1) "uid" s

/-! ## Connections -/

/-- A connection target host. -/
inductive Host where
  | domain (d : Str)
  | ip (a : IpAddr)
  deriving DecidableEq, Repr

def Host.asDomain : Host → Option Str
  | .domain d => some d
  | .ip _ => none

inductive Network where
  | tcp
  | udp
  deriving DecidableEq, Repr

/-- Routing mode. -/
inductive RuleMode where
  | rule
  | global
  | direct
  deriving DecidableEq, Repr

def RuleMode.asStr : RuleMode → Str
  | .rule => "rule".toList
  | .global => "global".toList
  | .direct => "direct".toList

/-- What a connection carries for rule evaluation. -/
structure ConnContext where
  host : Host
  port : UInt16
  sourceIp : Option IpAddr
  sourcePort : Option UInt16
  /-- Resolved destination IPs. -/
  resolved : Option (List IpAddr)
  mode : RuleMode
  network : Network
  /-- The inbound listener tag. -/
  inbound : Str
  inboundKind : Str
  inboundPort : Option UInt16
  process : Option Str
  uid : Option UInt32
  user : Option Str
  dscp : Option UInt8

def ConnContext.ips (ctx : ConnContext) : List IpAddr :=
  match ctx.host, ctx.resolved with
  | .ip a, _ => [a]
  | _, some list => list
  | _, none => []

/-! ## Rules -/

/-- Logic rule combinators. -/
inductive LogicMode where
  | and
  | or
  | not
  deriving DecidableEq, Repr

mutual

inductive RuleMatcher where
  | domain (d : Str)
  | domainSuffix (suffix : Str)
  | domainKeyword (kw : Str)
  | domainRegex (re : Str)
  | ipCidr (net : IpNet) (src noResolve : Bool)
  | geoIp (country : Str) (noResolve : Bool)
  | geosite (name : Str)
  | portDst (range : PortRange)
  | portSrc (range : PortRange)
  | ruleSet (name : Str) (noResolve : Bool)
  | clashMode (mode : Str)
  | network (n : Network)
  | inPort (range : PortRange)
  | inName (name : Str)
  | inType (kinds : Str)
  | uid (range : U32Range)
  | inUser (users : Str)
  | dscp (value : Nat)
  | ipAsn (asn : Nat) (noResolve : Bool)
  | ipSuffix (suffix : Str) (noResolve : Bool)
  | process (pattern : Str) (path : Bool)
  | logic (mode : LogicMode) (sub : List Rule)
  | matchAll

/-- A rule with its outbound target. -/
inductive Rule where
  | mk (matcher : RuleMatcher) (outbound : Str)

end

namespace Rule

def matcher : Rule → RuleMatcher
  | mk m _ => m

def outbound : Rule → Str
  | mk _ o => o

@[simp] theorem matcher_mk (m : RuleMatcher) (o : Str) : (mk m o).matcher = m := rfl

@[simp] theorem outbound_mk (m : RuleMatcher) (o : Str) : (mk m o).outbound = o := rfl

end Rule

/-! ## Domain sets -/

/-- The `regex` crate: a pattern compiles or not, and a compiled one matches texts. -/
structure Regex where
  new : Str → Except String Unit
  isMatch : Str → Str → Bool

/-- Domain set with exact/suffix/keyword/regex parts. -/
structure DomainMatcher where
  exact : List Str := []
  suffix : List Str := []
  keyword : List Str := []
  regex : List Str := []
  deriving DecidableEq, Repr

namespace DomainMatcher

def addDomainLine (m : DomainMatcher) (line : Str) : DomainMatcher :=
  let line := Str.asciiLower (Str.trim line)
  if line = [] ∨ line.head? = some '#' then m
  else
    match line with
    | '+' :: '.' :: rest => { m with suffix := m.suffix ++ [rest] }
    | '.' :: rest => { m with suffix := m.suffix ++ [rest] }
    | line =>
      if '*' ∈ line then
        match line with
        | '*' :: '.' :: kw => { m with suffix := m.suffix ++ [kw] }
        | _ => m
      else { m with exact := line :: m.exact }

def addExact (m : DomainMatcher) (domain : Str) : DomainMatcher :=
  { m with exact := Str.asciiLower (Str.trim domain) :: m.exact }

def addSuffix (m : DomainMatcher) (suffix : Str) : DomainMatcher :=
  { m with suffix :=
      m.suffix ++ [Str.asciiLower (Str.trimStartMatches '.' (Str.trim suffix))] }

def addKeyword (m : DomainMatcher) (kw : Str) : DomainMatcher :=
  { m with keyword := m.keyword ++ [Str.asciiLower kw] }

def addRegex (re : Regex) (m : DomainMatcher) (pattern : Str) : Result DomainMatcher :=
  match re.new pattern with
  | .ok () => .ok { m with regex := m.regex ++ [pattern] }
  | .error e => .error (.config s!"bad domain-set regex {Str.debug pattern}: {e}")

/-- A bare `*` suffix matches every domain. -/
def matchesDomain (re : Regex) (m : DomainMatcher) (domain : Str) : Bool :=
  let d := Str.asciiLower domain
  m.exact.contains d ||
    m.suffix.any (fun s => s == ['*'] || d == s || ('.' :: s).isSuffixOf d) ||
    m.keyword.any (fun k => Str.containsStr d k) ||
    m.regex.any (fun r => re.isMatch r d)

/-- The lower-cased domains one suffix of the set accepts. -/
def SuffixAccepts (s d : Str) : Prop := s = ['*'] ∨ d = s ∨ '.' :: s <:+ d

section
variable (re : Regex) (m : DomainMatcher) (d : Str)

theorem matchesDomain_iff :
    m.matchesDomain re d = true ↔
      Str.asciiLower d ∈ m.exact ∨
      (∃ s ∈ m.suffix, SuffixAccepts s (Str.asciiLower d)) ∨
      (∃ k ∈ m.keyword, k <:+: Str.asciiLower d) ∨
      ∃ r ∈ m.regex, re.isMatch r (Str.asciiLower d) = true := by
  simp [matchesDomain, SuffixAccepts, Str.containsStr, List.isInfixOf_internal_iff_isInfix,
    or_assoc]

@[simp] theorem matchesDomain_empty : matchesDomain re {} d = false := rfl

theorem matchesDomain_exact (line : Str) :
    ({ m with exact := line :: m.exact } : DomainMatcher).matchesDomain re d = true ↔
      m.matchesDomain re d = true ∨ Str.asciiLower d = line := by
  simp only [matchesDomain_iff, List.mem_cons, or_assoc, or_comm, or_left_comm]

theorem matchesDomain_suffix (rest : Str) :
    ({ m with suffix := m.suffix ++ [rest] } : DomainMatcher).matchesDomain re d = true ↔
      m.matchesDomain re d = true ∨ SuffixAccepts rest (Str.asciiLower d) := by
  simp only [matchesDomain_iff, List.mem_append, List.mem_singleton, or_and_right, exists_or,
    exists_eq_left, or_assoc, or_comm, or_left_comm]

theorem matchesDomain_keyword (kw : Str) :
    ({ m with keyword := m.keyword ++ [kw] } : DomainMatcher).matchesDomain re d = true ↔
      m.matchesDomain re d = true ∨ kw <:+: Str.asciiLower d := by
  simp only [matchesDomain_iff, List.mem_append, List.mem_singleton, or_and_right, exists_or,
    exists_eq_left, or_assoc, or_comm, or_left_comm]

theorem matchesDomain_regex (pattern : Str) :
    ({ m with regex := m.regex ++ [pattern] } : DomainMatcher).matchesDomain re d = true ↔
      m.matchesDomain re d = true ∨ re.isMatch pattern (Str.asciiLower d) = true := by
  simp only [matchesDomain_iff, List.mem_append, List.mem_singleton, or_and_right, exists_or,
    exists_eq_left, or_comm, or_left_comm]

end

end DomainMatcher

/-! ## Geo databases -/

/-- The fields the engine reads of a MaxMind record. -/
structure GeoRecord where
  countryIsoCode : Option Str
  registeredCountryIsoCode : Option Str
  autonomousSystemNumber : Option Nat

/-- An open MaxMind database: the record of an address. -/
abbrev Reader := IpAddr → Option GeoRecord

structure GeoLookups where
  geoip : Option Reader
  asnMmdb : Option Reader
  geosite : AList fun _ : Str => DomainMatcher

namespace GeoLookups

variable (geo : GeoLookups)

/-- ISO country code for an IP. -/
def country (ip : IpAddr) : Option Str := do
  let reader ← geo.geoip
  let val ← reader ip
  val.countryIsoCode.or val.registeredCountryIsoCode

/-- Autonomous system number: from the dedicated database if there is one. -/
def asn (ip : IpAddr) : Option Nat := do
  let reader ← geo.asnMmdb.or geo.geoip
  let val ← reader ip
  let n ← val.autonomousSystemNumber
  if n < 2 ^ 32 then some n else none

def geositeMatches (re : Regex) (name domain : Str) : Bool :=
  match geo.geosite.lookup name with
  | some m => m.matchesDomain re domain
  | none => false

end GeoLookups

/-! ## Provider sets -/

inductive RuleSetKind where
  | domain (m : DomainMatcher)
  | ipCidr (nets : List IpNet)
  | classical (rules : List Rule)

/-- Loaded rule-provider sets. -/
structure RuleSets where
  sets : AList fun _ : Str => RuleSetKind := ∅

namespace RuleSets

/-- Insert (or replace) one provider set. -/
def insert (s : RuleSets) (name : Str) (kind : RuleSetKind) : RuleSets :=
  ⟨s.sets.insert name kind⟩

def get (s : RuleSets) (name : Str) : Option RuleSetKind := s.sets.lookup name

@[simp] theorem get_insert_self (s : RuleSets) (name : Str) (kind : RuleSetKind) :
    (s.insert name kind).get name = some kind :=
  AList.lookup_insert s.sets

theorem get_insert_of_ne (s : RuleSets) {name other : Str} (kind : RuleSetKind)
    (h : other ≠ name) : (s.insert name kind).get other = s.get other :=
  AList.lookup_insert_ne h

@[simp] theorem get_empty (name : Str) : get {} name = none := AList.lookup_empty name

end RuleSets

end RustCrash.Routing
