import RustCrash.Proto.Addr
import RustCrash.Routing.Eval

/-
  `route_rules` of the engine (`app.rs`), with the rule table (`rule.rs`) and what a sniff may
  change (`sniffer.rs`). A rule with a `sniff` or `resolve` action changes what the rules behind it
  see: the walk is left there and entered again one rule on, at most once more than there are
  rules. For the text that shows the matched rule there is its index.

  The loop is one walk over the rules, and the cap never ends it (`routeRules_eq`). The table says
  where the resolver is asked (`routeRules_congr`).
-/

namespace RustCrash.App

open Lib Lib.Net Routing Proto

/-! ## Sniffing -/

inductive SniffResult where
  | tls (d : Str)
  | http (d : Str)
  | quic (d : Str)
  | unknown

def SniffResult.domain : SniffResult → Option Str
  | .tls d | .http d | .quic d => some d
  | .unknown => none

structure SniffConfig where
  tls : Bool
  http : Bool
  quic : Bool
  overrideDestination : Bool
  skipDomains : List Str
  forceDomains : List Str
  tlsPorts : List UInt16
  httpPorts : List UInt16
  quicPorts : List UInt16

namespace SniffConfig

variable (cfg : SniffConfig)

def skips (domain : Str) : Bool := cfg.skipDomains.any fun p => domainMatchesSuffix domain p

def forces (domain : Str) : Bool := cfg.forceDomains.any fun p => domainMatchesSuffix domain p

def forAction (sniffer : List Str) : SniffConfig :=
  let wants := fun name : String => sniffer.isEmpty || sniffer.contains name.toList
  { cfg with tls := wants "tls", http := wants "http", quic := wants "quic" }

end SniffConfig

def applySniffed (target : NetAddr) (sniffed : SniffResult) (cfg : SniffConfig) :
    Option NetAddr := do
  let domain ← sniffed.domain
  if cfg.skips domain then none
  else
    let host ← (hostParse domain).toOption
    let apply := cfg.forces domain ||
      match target.host with
      | .ip _ => true
      | .domain _ => cfg.overrideDestination
    if apply then return ⟨host, target.port⟩ else none

/-! ## The rule table -/

/-- A sing-box action, carried by a rule instead of routing. -/
inductive RuleAction where
  | sniff (sniffer : List Str)
  | resolve
  | hijackDns

inductive MatchOutcome where
  | route (rule : Rule) (index : Nat)
  | sniff (sniffer : List Str) (index resumeAt : Nat)
  | resolve (index resumeAt : Nat)
  | hijackDns (index : Nat)
  | noMatch

mutual

def matcherNeedsIp : RuleMatcher → Bool
  | .ipCidr _ src noResolve => !src && !noResolve
  | .geoIp _ noResolve | .ipAsn _ noResolve | .ipSuffix _ noResolve => !noResolve
  | .ruleSet _ noResolve => !noResolve
  | .logic _ sub => anyNeedsIp sub
  | _ => false

def anyNeedsIp : List Rule → Bool
  | [] => false
  | .mk m _ :: rules => matcherNeedsIp m || anyNeedsIp rules

end

structure RuleTable where
  rules : List Rule
  actions : AList fun _ : Nat => RuleAction

namespace RuleTable

variable (t : RuleTable) (evaluate : Nat → Rule → Option Bool)

def needsIp : Bool := anyNeedsIp t.rules

/-- The loop of `match_from`, over rules with their indices. -/
def matchRules : List (Rule × Nat) → Option MatchOutcome
  | [] => some .noMatch
  | (rule, i) :: rest => do
    if ← evaluate i rule then
      return match t.actions.lookup i with
        | none => .route rule i
        | some (.sniff sniffer) => .sniff sniffer i (i + 1)
        | some .resolve => .resolve i (i + 1)
        | some .hijackDns => .hijackDns i
    else matchRules rest

def matchFrom (start : Nat) : Option MatchOutcome :=
  t.matchRules evaluate (t.rules.zipIdx.drop start)

end RuleTable

/-! ## The walk -/

structure ProcessInfo where
  exe : Str
  uid : Option UInt32

/-- What the inbound says of a connection. -/
structure RouteMeta where
  network : Network
  inbound : Str
  inboundKind : Str
  inboundPort : Option UInt16
  inUser : Option Str
  procInfo : Option ProcessInfo

/-- The fake-IP pool, and the answers of the resolver when the walk goes on at a rule. -/
structure DnsEngine where
  reverse : IpAddr → Option Str
  resolve : Nat → Str → Option (List IpAddr)

/-- What a walk asks of the engine: the loaded sets and what a sniff reads, at each rule. There is
    no `sniffClient` where the caller lends no stream. -/
structure Engine where
  table : RuleTable
  sniff : SniffConfig
  regex : Regex
  geo : GeoLookups
  sets : Nat → RuleSets
  dns : Option DnsEngine
  sniffClient : Option (Nat → SniffConfig → UInt16 → SniffResult)

/-- The target as it is now, and what it resolved to. -/
structure Walk where
  effective : NetAddr
  resolved : Option (List IpAddr)

structure Route where
  index : Option Nat
  outbound : Str
  target : NetAddr

namespace Engine

variable (e : Engine)

def unfakeTarget (target : NetAddr) : NetAddr :=
  match target.host, e.dns with
  | .ip ip, some dns =>
    match dns.reverse ip with
    | some domain => ⟨.domain domain, target.port⟩
    | none => target
  | _, _ => target

def preResolve (n : Nat) (target : NetAddr) : Option (List IpAddr) :=
  match e.dns, target.host with
  | some dns, .domain name =>
    if e.table.needsIp && !name.isEmpty then dns.resolve n name else none
  | _, _ => none

/-- A non-final action, with the walk going on at rule `n`. -/
def act (n : Nat) (w : Walk) : RuleAction → Walk
  | .sniff sniffer =>
    let cfg := e.sniff.forAction sniffer
    match e.sniffClient with
    | none => w
    | some sniffClient =>
      match applySniffed w.effective (sniffClient n cfg w.effective.port) cfg with
      | none => w
      | some t => ⟨t, e.preResolve n t⟩
  | .resolve =>
    match e.dns, w.effective.host with
    | some dns, .domain name => if name = [] then w else { w with resolved := dns.resolve n name }
    | _, _ => w
  | .hijackDns => w

/-- The walk before the first rule. -/
def begin (target : NetAddr) : Walk :=
  ⟨e.unfakeTarget target, e.preResolve 0 (e.unfakeTarget target)⟩

variable (fuel : Nat) (source : SocketAddr) (info : RouteMeta)

def ctx (w : Walk) : ConnContext where
  host := w.effective.host
  port := w.effective.port
  sourceIp := some source.ip
  sourcePort := some source.port
  resolved := w.resolved
  mode := .rule
  network := info.network
  inbound := info.inbound
  inboundKind := info.inboundKind
  inboundPort := info.inboundPort
  process := info.procInfo.map (·.exe)
  uid := info.procInfo.bind (·.uid)
  user := info.inUser
  dscp := none

/-- Rule `n` is evaluated. -/
def eval (w : Walk) (n : Nat) (rule : Rule) : Option Bool :=
  evaluate e.regex e.geo (ctx source info w) (e.sets n) fuel rule

/-- The loop of `route_rules`, `none` where an evaluation wants more fuel. -/
def routeLoop : (cap start : Nat) → Walk → Option Route
  | 0, _, w => some ⟨none, "DIRECT".toList, w.effective⟩
  | cap + 1, start, w => do
    match ← e.table.matchFrom (e.eval fuel source info w) start with
    | .route rule index => return ⟨index, rule.outbound, w.effective⟩
    | .sniff sniffer _ resumeAt => routeLoop cap resumeAt (e.act resumeAt w (.sniff sniffer))
    | .resolve _ resumeAt => routeLoop cap resumeAt (e.act resumeAt w .resolve)
    | .hijackDns index => return ⟨index, "dns".toList, w.effective⟩
    | .noMatch => return ⟨none, "DIRECT".toList, w.effective⟩

def routeRules (target : NetAddr) : Option Route :=
  e.routeLoop fuel source info (e.table.rules.length + 1) 0 (e.begin target)

/-- One walk over the rules, each looked at in what those before it left. -/
def walk : List (Rule × Nat) → Walk → Option Route
  | [], w => some ⟨none, "DIRECT".toList, w.effective⟩
  | (rule, i) :: rest, w => do
    if ← e.eval fuel source info w i rule then
      match e.table.actions.lookup i with
      | none => return ⟨i, rule.outbound, w.effective⟩
      | some .hijackDns => return ⟨i, "dns".toList, w.effective⟩
      | some a => walk rest (e.act (i + 1) w a)
    else walk rest w

variable {e fuel source info}

theorem drop_zipIdx {α : Type} {l : List α} {n i : Nat} {a : α} {rest : List (α × Nat)}
    (h : l.zipIdx.drop n = (a, i) :: rest) : i = n ∧ l.zipIdx.drop (n + 1) = rest := by
  have hget : l.zipIdx[n]? = some (a, i) := by rw [← List.head?_drop, h, List.head?_cons]
  rw [List.getElem?_zipIdx, Option.map_eq_some_iff] at hget
  obtain ⟨x, -, hx⟩ := hget
  refine ⟨by grind, ?_⟩
  rw [← List.tail_drop, h, List.tail_cons]

/-- From any rule on, with a cap over the number of rules left. -/
theorem routeLoop_eq (rest : List (Rule × Nat)) :
    ∀ {cap n : Nat} {w : Walk}, e.table.rules.zipIdx.drop n = rest → rest.length < cap →
      e.routeLoop fuel source info cap n w = e.walk fuel source info rest w := by
  induction rest with
  | nil =>
    intro cap n w hrest hcap
    obtain ⟨cap, rfl⟩ := Nat.exists_eq_add_of_lt hcap
    simp [routeLoop, RuleTable.matchFrom, hrest, RuleTable.matchRules, walk]
  | cons head rest ih =>
    obtain ⟨rule, i⟩ := head
    intro cap n w hrest hcap
    obtain ⟨rfl, hnext⟩ := drop_zipIdx hrest
    cases cap with
    | zero => cases hcap
    | succ cap =>
      have hleft : rest.length < cap := Nat.lt_of_succ_lt_succ hcap
      unfold routeLoop RuleTable.matchFrom walk
      rw [hrest, RuleTable.matchRules]
      cases e.eval fuel source info w i rule with
      | none => rfl
      | some b =>
        cases b with
        | false =>
          -- the walk that skips this rule is the one that starts behind it
          have hskip := ih (w := w) hnext (Nat.lt_succ_of_lt hleft)
          unfold routeLoop RuleTable.matchFrom at hskip
          rw [hnext] at hskip
          exact hskip
        | true =>
          cases hact : e.table.actions.lookup i with
          | none => simp
          | some a =>
            cases a with
            | hijackDns => simp
            | sniff sniffer => simpa using ih hnext hleft
            | resolve => simpa using ih hnext hleft

theorem routeRules_eq (target : NetAddr) : e.routeRules fuel source info target =
    e.walk fuel source info e.table.rules.zipIdx (e.begin target) :=
  routeLoop_eq _ rfl (by simp)

/-! ## When the resolver is asked -/

/-- Rules that need addresses ask at first and behind a sniff; a `resolve` rule asks behind it. -/
def asks (e : Engine) : Nat → Bool
  | 0 => e.table.needsIp
  | n + 1 =>
    match e.table.actions.lookup n with
    | some (.sniff _) => e.table.needsIp
    | some .resolve => true
    | _ => false

def withResolver (e : Engine) (ask : Nat → Str → Option (List IpAddr)) : Engine :=
  { e with dns := e.dns.map fun dns => { dns with resolve := ask } }

variable {ask ask' : Nat → Str → Option (List IpAddr)}

theorem preResolve_congr {n : Nat}
    (h : e.table.needsIp = true → ∀ name, name ≠ [] → ask n name = ask' n name) (t : NetAddr) :
    (e.withResolver ask).preResolve n t = (e.withResolver ask').preResolve n t := by
  obtain ⟨host, port⟩ := t
  cases hd : e.dns with
  | none => simp [preResolve, withResolver, hd]
  | some dns =>
    cases host with
    | ip a => simp [preResolve, withResolver, hd]
    | domain name =>
      by_cases hn : e.table.needsIp = true ∧ name ≠ []
      · simp [preResolve, withResolver, hd, h hn.1 name hn.2]
      · simp only [preResolve, withResolver, hd, Option.map_some]
        grind

theorem act_congr {n : Nat} {a : RuleAction} (ha : e.table.actions.lookup n = some a)
    (h : e.asks (n + 1) = true → ∀ name, name ≠ [] → ask (n + 1) name = ask' (n + 1) name)
    (w : Walk) : (e.withResolver ask).act (n + 1) w a = (e.withResolver ask').act (n + 1) w a := by
  cases a with
  | hijackDns => rfl
  | sniff sniffer =>
    have hpre := preResolve_congr (e := e) fun hn => h (by simpa [asks, ha] using hn)
    simp only [act, hpre]
    rfl
  | resolve =>
    obtain ⟨⟨host, port⟩, resolved⟩ := w
    have hask := h (by simp [asks, ha])
    cases hd : e.dns with
    | none => simp [act, withResolver, hd]
    | some dns =>
      cases host with
      | ip a => simp [act, withResolver, hd]
      | domain name =>
        by_cases hn : name = []
        · simp [act, withResolver, hd, hn]
        · simp [act, withResolver, hd, hn, hask name hn]

theorem walk_congr (h : ∀ n, e.asks n = true → ∀ name, name ≠ [] → ask n name = ask' n name)
    (rest : List (Rule × Nat)) : ∀ w, (e.withResolver ask).walk fuel source info rest w =
      (e.withResolver ask').walk fuel source info rest w := by
  induction rest with
  | nil => exact fun _ => rfl
  | cons head rest ih =>
    obtain ⟨rule, i⟩ := head
    intro w
    have htable : ∀ ask, (e.withResolver ask).table = e.table := fun _ => rfl
    have heval : (e.withResolver ask).eval fuel source info w i rule =
        (e.withResolver ask').eval fuel source info w i rule := rfl
    unfold walk
    rw [heval]
    refine bind_congr fun b => ?_
    cases b with
    | false => exact ih w
    | true =>
      simp only [htable]
      cases ha : e.table.actions.lookup i with
      | none => rfl
      | some a =>
        have hact := act_congr ha (h (i + 1)) w
        cases a with
        | hijackDns => rfl
        | sniff sniffer => simp only [hact, ih]
        | resolve => simp only [hact, ih]

theorem routeRules_congr
    (h : ∀ n, e.asks n = true → ∀ name, name ≠ [] → ask n name = ask' n name) (target : NetAddr) :
    (e.withResolver ask).routeRules fuel source info target =
      (e.withResolver ask').routeRules fuel source info target := by
  have hunfake : (e.withResolver ask).unfakeTarget target =
      (e.withResolver ask').unfakeTarget target := by
    obtain ⟨host, port⟩ := target
    cases host <;> cases hd : e.dns <;> simp [unfakeTarget, withResolver, hd]
  have hpre := preResolve_congr (h 0) ((e.withResolver ask).unfakeTarget target)
  unfold routeRules
  rw [routeLoop_eq _ rfl (by simp), routeLoop_eq _ rfl (by simp), walk_congr h]
  unfold begin
  rw [hpre, hunfake]
  rfl

/-- No rule of it needs an address. -/
def blind : Engine where
  table := ⟨[.mk (.geoIp "CN".toList true) "proxy".toList], ∅⟩
  sniff := ⟨true, true, true, false, [], [], [], [], []⟩
  regex := ⟨fun _ => .ok (), fun _ _ => false⟩
  geo := ⟨none, none, ∅⟩
  sets _ := {}
  dns := some ⟨fun _ => none, fun _ _ => none⟩
  sniffClient := none

theorem routeRules_congr_blind : (blind.withResolver fun _ _ => some [.v4 0]).routeRules 0
      (.new (.v4 0) 1) ⟨.tcp, [], [], none, none, none⟩ ⟨.domain ['a'], 443⟩ =
    (blind.withResolver fun _ _ => none).routeRules 0
      (.new (.v4 0) 1) ⟨.tcp, [], [], none, none, none⟩ ⟨.domain ['a'], 443⟩ :=
  routeRules_congr (fun n h => by cases n <;> cases h) _

end Engine

end RustCrash.App
