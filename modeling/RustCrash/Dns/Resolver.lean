import RustCrash.Dns.Wire
import RustCrash.Routing.Matcher

/-
  The DNS engine (`dns/resolver.rs`): `forward` and `resolve` with the cache and the
  in-flight guard.

  The calls in progress run interleaved. A call takes one step at a time, up to its next
  look at what the calls share: the cache and the in-flight set, each behind its lock. What
  an upstream answers is given with the step. Times are in nanoseconds.
-/

/-! ## DNS rules

DNS rules (`dns/rules.rs`): the first rule that accepts a query, and the TTL rewrite of
a raw response. A rule's upstreams are of a type `U`; its EDNS subnet only shapes the
outgoing query and is left out. -/

namespace RustCrash.Dns

open Lib Routing

/-- The match half of a rule; an unset field does not constrain. -/
structure DnsRuleMatcher where
  domains : Option DomainMatcher := none
  queryType : List UInt16 := []
  network : List Network := []
  invert : Bool := false

namespace DnsRuleMatcher

variable (re : Regex) (m : DnsRuleMatcher)

/-- The conjunctive field match, before `invert`. -/
def fieldsMatch (name : Str) (qtype : UInt16) (network : Option Network) : Bool :=
  (match m.domains with
    | some domains => domains.matchesDomain re name
    | none => true) &&
  (m.queryType.isEmpty || m.queryType.contains qtype) &&
  (match network with
    | some n => m.network.isEmpty || m.network.contains n
    | none => true)

def matchesWithNetwork (name : Str) (qtype : UInt16) (network : Option Network) : Bool :=
  fieldsMatch re m name qtype network != m.invert

def matchesQuery (name : Str) (qtype : UInt16) : Bool := matchesWithNetwork re m name qtype none

end DnsRuleMatcher

/-- One compiled rule. -/
structure DnsRule (U : Type) where
  matcher : DnsRuleMatcher
  server : Option (List U)
  disableCache : Bool
  rewriteTtl : Option UInt32

abbrev DnsRules (U : Type) := List (DnsRule U)

/-- The first rule accepting `(name, qtype)`. -/
def DnsRules.matchRule {U : Type} (re : Regex) (rules : DnsRules U) (name : Str)
    (qtype : UInt16) : Option (DnsRule U) :=
  List.find? (fun rule => rule.matcher.matchesQuery re name qtype) rules

/-! ## Rewriting TTLs -/

/-- Step past one name; a pointer ends it and is not followed. -/
def skipName (msg : Bytes) (off : Nat) : Result Nat :=
  match h : msg[off]? with
  | none => .error (.dns "name runs past end")
  | some b =>
    let len := b.toNat
    if len &&& 0xC0 = 0x00 then
      if len = 0 then .ok (off + 1)
      else if msg.length < off + 1 + len then .error (.dns "label runs past end")
      else skipName msg (off + 1 + len)
    else if len &&& 0xC0 = 0xC0 then
      if msg.length < off + 2 then .error (.dns "truncated pointer") else .ok (off + 2)
    else .error (.dns "reserved label type")
termination_by msg.length - off
decreasing_by
  have := (List.getElem?_eq_some_iff.mp h).1
  omega

/-- The question loop of `rewrite_ttl`. -/
def skipQuestions (msg : Bytes) : Nat → Nat → Result Nat
  | 0, off => .ok off
  | n + 1, off => do
    let off ← skipName msg off
    ensure (off + 4 ≤ msg.length) (.dns "truncated question")
    skipQuestions msg n (off + 4)

/-- The answer loop of `rewrite_ttl`: what it made of the message, and its result. -/
def rewriteRecords (ttl : UInt32) : Nat → Bytes → Nat → Bytes × Result Unit
  | 0, msg, _ => (msg, .ok ())
  | n + 1, msg, off =>
    match skipName msg off with
    | .error e => (msg, .error e)
    | .ok off =>
      if msg.length < off + 10 then (msg, .error (.dns "truncated record"))
      else
        let msg := setBytes msg (off + 4) (be32 ttl)
        let rdlength := (u16At msg (off + 8)).toNat
        if msg.length < off + 10 + rdlength then (msg, .error (.dns "truncated rdata"))
        else rewriteRecords ttl n msg (off + 10 + rdlength)

/-- Overwrite the TTL of the ANCOUNT first records; an error leaves what was written. -/
def rewriteTtl (msg : Bytes) (ttl : UInt32) : Bytes × Result Unit :=
  if msg.length < 12 then (msg, .error (.dns "message shorter than header"))
  else
    match skipQuestions msg (u16At msg 4).toNat 12 with
    | .error e => (msg, .error e)
    | .ok off => rewriteRecords ttl (u16At msg 6).toNat msg off

end RustCrash.Dns

/-! ## The engine -/

namespace RustCrash.Dns

open Lib Routing

/-! ## The cache -/

/-- Cached entry: addresses + expiry. -/
structure CacheEntry where
  addrs : List IpAddr
  ttlUntil : Nat

def seconds (n : Nat) : Nat := n * 1000000000

/-- Expired cache entries are swept at most this often on insert. -/
def cacheSweepInterval : Nat := seconds 60

structure Cache where
  entries : Str × UInt16 → Option CacheEntry
  nextCacheSweep : Nat

namespace Cache

def get (cache : Cache) (now : Nat) (name : Str) (qtype : UInt16) : Option (List IpAddr) :=
  match cache.entries (name, qtype) with
  | none => none
  | some e => if e.ttlUntil < now then none else some e.addrs

/-- `sweep_cache_locked`: drop expired entries. -/
def sweep (cache : Cache) (now : Nat) : Cache :=
  if now < cache.nextCacheSweep then cache
  else ⟨fun k => (cache.entries k).filter fun e => now ≤ e.ttlUntil, now + cacheSweepInterval⟩

def insert (cache : Cache) (now : Nat) (k : Str × UInt16) (e : CacheEntry) : Cache :=
  sweep { cache with entries := Function.update cache.entries k (some e) } now

end Cache

def rdataIp (rdata : Bytes) : Option IpAddr :=
  if rdata.length = 4 then some (.v4 (Net.ofOctets4 rdata))
  else if rdata.length = 16 then some (.v6 (Net.ofOctets6 rdata))
  else none

/-- The records of one type, in all sections. -/
def recordsOf (qtype : UInt16) (msg : DnsMessage) : List ResourceRecord :=
  msg.answers.filter fun rr => rr.rtype = qtype

def recordIps (qtype : UInt16) (msg : DnsMessage) : List IpAddr :=
  (recordsOf qtype msg).filterMap fun rr => rdataIp rr.rdata

def minTtl (qtype : UInt16) (msg : DnsMessage) : UInt32 :=
  (recordsOf qtype msg).foldl (fun t rr => min t rr.ttl) 0xFFFFFFFF

def extractIps (resp : Bytes) (qtype : UInt16) : Option (List IpAddr) :=
  match parse resp with
  | .error _ => none
  | .ok msg => if recordIps qtype msg = [] then none else some (recordIps qtype msg)

/-- The lifetime of an entry is its least TTL, held between 5 and 300 seconds. -/
def cacheInsert (cache : Cache) (now : Nat) (name : Str) (qtype : UInt16) (resp : Bytes) : Cache :=
  match parse resp with
  | .error _ => cache
  | .ok msg =>
    if recordIps qtype msg = [] ∨ minTtl qtype msg = 0xFFFFFFFF then cache
    else
      let ttl := max 5 (min 300 (minTtl qtype msg).toNat)
      cache.insert now (name, qtype) ⟨recordIps qtype msg, now + seconds ttl⟩

/-! ## Calls -/

/-- A loop-guard key: (id, qname, qtype). -/
abbrev Key := UInt16 × Str × UInt16

/-- What `forward` answers with. -/
inductive Reply where
  | cached (hits : List IpAddr)
  /-- SERVFAIL: the query is already in flight. -/
  | refused
  /-- An upstream's response, its id and TTLs overwritten. -/
  | answered (resp : Bytes)
  /-- NXDOMAIN: no upstream answered. -/
  | exhausted

def rcodeNoerror : UInt8 := 0
def rcodeServfail : UInt8 := 2
def rcodeNxdomain : UInt8 := 3

def Reply.bytes (query : DnsMessage) : Reply → Bytes
  | .cached hits => buildResponse query rcodeNoerror (hits.map fun ip => (ip, 30))
  | .refused => buildResponse query rcodeServfail []
  | .answered resp => resp
  | .exhausted => buildResponse query rcodeNxdomain []

/-- Where a call stands; `U` is the type of upstreams. -/
inductive Phase (U : Type) where
  /-- `resolve` before its first look into the cache. -/
  | resolving
  /-- `forward` before the cache. -/
  | lookup (query : DnsMessage)
  /-- `forward` before the in-flight set. -/
  | guard (query : DnsMessage)
  /-- `forward_upstreams`, with the upstreams still to ask. -/
  | walking (query : DnsMessage) (upstreams : List U)
  /-- `forward_upstreams` has returned and the guard is not yet dropped. -/
  | leaving (query : DnsMessage) (reply : Reply)
  /-- `forward` has returned. -/
  | returned (query : DnsMessage) (reply : Reply)
  /-- `resolve` has returned. -/
  | resolved (addrs : Option (List IpAddr))
  /-- The future was dropped, or panicked. -/
  | dropped

/-- A call of `forward` alone, or one of `resolve`, which calls `forward`. -/
structure Call (U : Type) where
  name : Str
  qtype : UInt16
  resolves : Bool
  phase : Phase U

namespace Call

variable {U : Type} (call : Call U)

def key (query : DnsMessage) : Key := (query.id, call.name, call.qtype)

/-- The key of the guard the call holds while it walks the upstreams. -/
def guardKey : Option Key :=
  match call.phase with
  | .walking query _ => some (call.key query)
  | .leaving query _ => some (call.key query)
  | _ => none

/-- The call is no longer inside `forward`. -/
def forwardEnded : Bool :=
  match call.phase with
  | .returned .. | .resolved _ | .dropped => true
  | _ => false

end Call

/-! ## The engine -/

/-- The engine's fixed parts. -/
structure DnsConfig (U : Type) where
  hosts : AList fun _ : Str => List IpAddr
  rules : Option (DnsRules U)
  policy : Option (List (DomainMatcher × List U))
  upstreams : List U
  regex : Regex

namespace DnsConfig

variable {U : Type} (cfg : DnsConfig U)

def rule (name : Str) (qtype : UInt16) : Option (DnsRule U) :=
  cfg.rules.bind fun rules => rules.matchRule cfg.regex name qtype

def cacheOk (name : Str) (qtype : UInt16) : Bool :=
  match cfg.rule name qtype with
  | some r => !r.disableCache
  | none => true

/-- `NameserverPolicy::match_upstreams`. -/
def policyUpstreams (name : Str) : Option (List U) :=
  cfg.policy.bind fun rules =>
    (rules.find? fun r => r.1.matchesDomain cfg.regex name).map Prod.snd

/-- The rule's upstreams, else the policy's, else the default list. -/
def upstreamsFor (name : Str) (qtype : UInt16) : List U :=
  (((cfg.rule name qtype).bind DnsRule.server).or (cfg.policyUpstreams name)).getD cfg.upstreams

/-- The IPv4 addresses `hosts` gives a name. -/
def hostsIpv4 (name : Str) : List IpAddr :=
  ((cfg.hosts.lookup name).getD []).filter fun ip =>
    match ip with
    | .v4 _ => true
    | .v6 _ => false

/-- What `forward_upstreams` makes of a response: its own id, then the rule's TTL. -/
def finish (name : Str) (qtype : UInt16) (query : DnsMessage) (resp : Bytes) : Bytes :=
  let resp := setBytes resp 0 (be16 query.id)
  match (cfg.rule name qtype).bind DnsRule.rewriteTtl with
  | some ttl => (rewriteTtl resp ttl).1
  | none => resp

end DnsConfig

/-- A response an upstream gave to a query for `(name, qtype)`. -/
structure Received where
  name : Str
  qtype : UInt16
  resp : Bytes
  deriving DecidableEq

/-- What changes. `received` records the responses so far; the code does not keep it. -/
structure DnsEngine (U : Type) where
  cache : Cache
  queryId : UInt32
  inflight : Finset Key
  now : Nat
  calls : List (Call U)
  received : List Received

inductive Action where
  /-- `forward` is called. -/
  | forward (query : DnsMessage) (name : Str) (qtype : UInt16)
  /-- `resolve` is called. -/
  | resolve (name : Str) (qtype : UInt16)
  /-- One step of a call; `answer` is what its next upstream answers, `none` for an error
      or a timeout. -/
  | run (i : Nat) (answer : Option Bytes)
  /-- The future of a call is dropped. -/
  | cancel (i : Nat)
  | tick (d : Nat)
  | clearCache

/-- The call that acts. -/
def Action.actor : Action → Option Nat
  | .run i _ | .cancel i => some i
  | _ => none

namespace DnsEngine

variable {U : Type}

def start (now : Nat) : DnsEngine U where
  cache := ⟨fun _ => none, now + cacheSweepInterval⟩
  queryId := 1
  inflight := ∅
  now := now
  calls := []
  received := []

variable (cfg : DnsConfig U) (s : DnsEngine U) (i : Nat) (call : Call U)

/-- The call moves on to another phase. -/
def setPhase (phase : Phase U) : DnsEngine U :=
  { s with calls := s.calls.set i { call with phase := phase } }

/-- `cache_get`, unless the rule disables the cache. -/
def cached : Option (List IpAddr) :=
  if cfg.cacheOk call.name call.qtype then s.cache.get s.now call.name call.qtype else none

/-- `resolve` up to its call of `forward`. -/
def stepResolving : DnsEngine U :=
  if cfg.hostsIpv4 call.name ≠ [] then
    s.setPhase i call (.resolved (some (cfg.hostsIpv4 call.name)))
  else
    match s.cached cfg call with
    | some hit => s.setPhase i call (.resolved (some hit))
    | none =>
      let s' := { s with queryId := s.queryId + 1 }
      match parse (buildQuery s.queryId.toUInt16 call.name call.qtype) with
      | .error _ => s'.setPhase i call (.resolved none)
      | .ok query => s'.setPhase i call (.lookup query)

def stepLookup (query : DnsMessage) : DnsEngine U :=
  match s.cached cfg call with
  | some hits => s.setPhase i call (.returned query (.cached hits))
  | none => s.setPhase i call (.guard query)

/-- Look for the key and insert it under one lock. -/
def stepGuard (query : DnsMessage) : DnsEngine U :=
  if call.key query ∈ s.inflight then s.setPhase i call (.returned query .refused)
  else
    { s with inflight := insert (call.key query) s.inflight }.setPhase i call
      (.walking query (cfg.upstreamsFor call.name call.qtype))

/-- An upstream answered: overwrite id and TTLs, cache, return. Too short a response panics,
    and unwinding drops the guard. -/
def stepAnswer (query : DnsMessage) (resp : Bytes) : DnsEngine U :=
  if resp.length < 2 then
    { s with inflight := s.inflight.erase (call.key query) }.setPhase i call .dropped
  else
    let out := cfg.finish call.name call.qtype query resp
    { s with
      cache :=
        if cfg.cacheOk call.name call.qtype then
          cacheInsert s.cache s.now call.name call.qtype out
        else s.cache
      received := ⟨call.name, call.qtype, resp⟩ :: s.received }.setPhase i call
        (.leaving query (.answered out))

/-- `resolve` after `forward`. -/
def stepReturned (query : DnsMessage) (reply : Reply) : DnsEngine U :=
  if call.resolves then
    match s.cached cfg call with
    | some hit => s.setPhase i call (.resolved (some hit))
    | none => s.setPhase i call (.resolved (extractIps (reply.bytes query) call.qtype))
  else s

/-- One step of a call. -/
def stepCall (answer : Option Bytes) : DnsEngine U :=
  match call.phase with
  | .resolving => s.stepResolving cfg i call
  | .lookup query => s.stepLookup cfg i call query
  | .guard query => s.stepGuard cfg i call query
  | .walking query [] => s.setPhase i call (.leaving query .exhausted)
  | .walking query (_ :: upstreams) =>
    match answer with
    | none => s.setPhase i call (.walking query upstreams)
    | some resp => s.stepAnswer cfg i call query resp
  | .leaving query reply =>
    { s with inflight := s.inflight.erase (call.key query) }.setPhase i call (.returned query reply)
  | .returned query reply => s.stepReturned cfg i call query reply
  | .resolved _ | .dropped => s

/-- The future of a call is dropped, and its guard with it. -/
def cancelCall : DnsEngine U :=
  match call.phase with
  | .walking query _ | .leaving query _ =>
    { s with inflight := s.inflight.erase (call.key query) }.setPhase i call .dropped
  | .resolving | .lookup _ | .guard _ => s.setPhase i call .dropped
  | .returned .. | .resolved _ | .dropped => s

def step : Action → DnsEngine U
  | .forward query name qtype => { s with calls := s.calls ++ [⟨name, qtype, false, .lookup query⟩] }
  | .resolve name qtype => { s with calls := s.calls ++ [⟨name, qtype, true, .resolving⟩] }
  | .run i answer =>
    match s.calls[i]? with
    | some call => s.stepCall cfg i call answer
    | none => s
  | .cancel i =>
    match s.calls[i]? with
    | some call => s.cancelCall i call
    | none => s
  | .tick d => { s with now := s.now + d }
  | .clearCache => { s with cache := { s.cache with entries := fun _ => none } }

variable {cfg s i call}

theorem step_run (h : s.calls[i]? = some call) (answer : Option Bytes) :
    s.step cfg (.run i answer) = s.stepCall cfg i call answer := by
  simp only [step, h]

theorem step_cancel (h : s.calls[i]? = some call) :
    s.step cfg (.cancel i) = s.cancelCall i call := by
  simp only [step, h]

theorem step_missing (h : s.calls[i]? = none) (answer : Option Bytes) :
    s.step cfg (.run i answer) = s ∧ s.step cfg (.cancel i) = s := by
  simp only [step, h, and_self]

end DnsEngine

/-- One upstream, no rules and no policy. -/
def sampleConfig (hosts : AList fun _ : Str => List IpAddr) : DnsConfig Unit where
  hosts := hosts
  rules := none
  policy := none
  upstreams := [()]
  regex := ⟨fun _ => .ok (), fun _ _ => false⟩

def sampleQuery : DnsMessage := ⟨7, 0x0100, 0, 0, [⟨['a'], typeA, 1⟩], [], []⟩

end RustCrash.Dns
