import RustCrash.Lib.Machine
import RustCrash.Routing.Matcher

/-
  Rule evaluation (`rule.rs`): `Rule::evaluate`. The recursion through logic sub-rules is on
  the rule; the one through RULE-SET entries goes through the table of provider sets and
  need not end, so it is on a fuel that counts the entered sets, and `none` is no answer
  yet. An answer stays the same with more fuel (`evaluate_mono`).
-/

namespace RustCrash.Routing

open Lib Lib.Net

/-- `domain == suffix` or `domain` sits directly under `suffix`. -/
def domainMatchesSuffix (domain suffix : Str) : Bool :=
  domain == suffix || ('.' :: suffix).isSuffixOf domain

/-- The dotted `suffix` equals the tail of the address's octets or hextets. -/
def ipMatchesSuffix (ip : IpAddr) (suffix : Str) : Bool :=
  let segs : List Str := match ip with
    | .v4 a => (octets4 a).map fun b => Str.decimal b.toNat
    | .v6 a => (segments (octets6 a)).map hex
  (suffix.splitOn '.').isSuffixOf segs

section

variable (re : Regex) (geo : GeoLookups) (ctx : ConnContext) (ruleSet : Str → Option Bool)

mutual

/-- `Rule::evaluate` on a matcher, where `ruleSet` answers for a RULE-SET name. -/
def evalMatcher : RuleMatcher → Option Bool
  | .domain d => some (ctx.host.asDomain == some d)
  | .domainSuffix suffix => some (ctx.host.asDomain.any fun d => domainMatchesSuffix d suffix)
  | .domainKeyword kw => some (ctx.host.asDomain.any fun d => Str.containsStr d kw)
  | .domainRegex r => some (ctx.host.asDomain.any fun d => re.isMatch r d)
  | .ipCidr net src _ =>
    some (if src then ctx.sourceIp.any net.contains else ctx.ips.any net.contains)
  | .geoIp country _ => some (ctx.ips.any fun ip => geo.country ip == some country)
  | .geosite name => some (ctx.host.asDomain.any fun d => geo.geositeMatches re name d)
  | .portDst range => some (range.contains ctx.port.toNat)
  | .portSrc range => some (ctx.sourcePort.any fun p => range.contains p.toNat)
  | .ruleSet name _ => ruleSet name
  | .clashMode mode => some (ctx.mode.asStr == mode)
  | .network n => some (ctx.network == n)
  | .inPort range => some (ctx.inboundPort.any fun p => range.contains p.toNat)
  | .inName name => some (ctx.inbound == name)
  | .inType kinds => some ((kinds.splitOn '/').any fun k => Str.eqIgnoreAsciiCase ctx.inboundKind k)
  | .uid range => some (ctx.uid.any fun u => range.contains u.toNat)
  | .inUser users => some (ctx.user.any fun u => (users.splitOn '/').contains u)
  | .dscp value => some (ctx.dscp.map UInt8.toNat == some value)
  | .ipAsn asn _ => some (ctx.ips.any fun ip => geo.asn ip == some asn)
  | .ipSuffix suffix _ => some (ctx.ips.any fun ip => ipMatchesSuffix ip suffix)
  | .process pattern path => some (ctx.process.any fun p =>
      if path then p == pattern else (p.splitOn '/').getLast? == some pattern)
  | .logic .and sub => evalAll sub
  | .logic .or sub => evalAny sub
  | .logic .not [] => some false
  | .logic .not (r :: _) => (evalRule r).map fun b => !b
  | .matchAll => some true

def evalRule : Rule → Option Bool
  | .mk matcher _ => evalMatcher matcher

/-- `all`, stopping at the first `false`. -/
def evalAll : List Rule → Option Bool
  | [] => some true
  | r :: rs => do if ← evalRule r then evalAll rs else return false

/-- `any`, stopping at the first `true`. -/
def evalAny : List Rule → Option Bool
  | [] => some false
  | r :: rs => do if ← evalRule r then return true else evalAny rs

end

end

section

variable (re : Regex) (geo : GeoLookups) (ctx : ConnContext) (providers : RuleSets)

/-- The RULE-SET arm; entering a classical set takes a unit of fuel. -/
def evalRuleSet : (fuel : Nat) → (name : Str) → Option Bool
  | fuel, name =>
    match providers.get name with
    | none => some false
    | some (.domain m) => some (ctx.host.asDomain.any fun d => m.matchesDomain re d)
    | some (.ipCidr nets) => some (ctx.ips.any fun ip => nets.any fun n => n.contains ip)
    | some (.classical rules) =>
      match fuel with
      | 0 => none
      | fuel + 1 => evalAny re geo ctx (evalRuleSet fuel) rules

/-- `Rule::evaluate`. -/
def evaluate (fuel : Nat) (r : Rule) : Option Bool :=
  evalRule re geo ctx (evalRuleSet re geo ctx providers fuel) r

/-- The rule matches the connection. -/
def MatchesRule (r : Rule) : Prop := ∃ fuel, evaluate re geo ctx providers fuel r = some true

/-- The evaluation returns. -/
def Terminates (r : Rule) : Prop := ∃ fuel b, evaluate re geo ctx providers fuel r = some b

end

/-! ## More answers -/

/-- `g` answers wherever `f` does, and the same. -/
def Extends (f g : Str → Option Bool) : Prop := ∀ name b, f name = some b → g name = some b

section

variable {re : Regex} {geo : GeoLookups} {ctx : ConnContext} {f g : Str → Option Bool}

theorem evalAll_cons (r : Rule) (rs : List Rule) : evalAll re geo ctx f (r :: rs) =
    (evalRule re geo ctx f r).bind fun b => if b then evalAll re geo ctx f rs else some false := by
  rw [evalAll]
  rfl

theorem evalAny_cons (r : Rule) (rs : List Rule) : evalAny re geo ctx f (r :: rs) =
    (evalRule re geo ctx f r).bind fun b => if b then some true else evalAny re geo ctx f rs := by
  rw [evalAny]
  rfl

mutual

theorem evalMatcher_extends (h : Extends f g) (b : Bool) :
    ∀ m, evalMatcher re geo ctx f m = some b → evalMatcher re geo ctx g m = some b
  | .ruleSet name _ => fun he => by
    rw [evalMatcher] at he ⊢
    exact h name b he
  | .logic .and sub => fun he => by
    rw [evalMatcher] at he ⊢
    exact evalAll_extends h b sub he
  | .logic .or sub => fun he => by
    rw [evalMatcher] at he ⊢
    exact evalAny_extends h b sub he
  | .logic .not (r :: _) => fun he => by
    rw [evalMatcher] at he ⊢
    obtain ⟨c, hc, hb⟩ := Option.map_eq_some_iff.mp he
    rw [evalRule_extends h c r hc, ← hb]
    rfl
  | .logic .not [] | .matchAll => fun he => by rwa [evalMatcher] at he ⊢
  | .domain _ | .domainSuffix _ | .domainKeyword _ | .domainRegex _ => fun he => by
    rwa [evalMatcher] at he ⊢
  | .ipCidr _ _ _ | .geoIp _ _ | .ipAsn _ _ | .ipSuffix _ _ | .geosite _ => fun he => by
    rwa [evalMatcher] at he ⊢
  | .portDst _ | .portSrc _ | .inPort _ | .inName _ | .inType _ | .inUser _ => fun he => by
    rwa [evalMatcher] at he ⊢
  | .clashMode _ | .network _ | .uid _ | .dscp _ | .process _ _ => fun he => by
    rwa [evalMatcher] at he ⊢

theorem evalRule_extends (h : Extends f g) (b : Bool) :
    ∀ r, evalRule re geo ctx f r = some b → evalRule re geo ctx g r = some b
  | .mk m _ => fun he => by
    rw [evalRule] at he ⊢
    exact evalMatcher_extends h b m he

theorem evalAll_extends (h : Extends f g) (b : Bool) :
    ∀ rs, evalAll re geo ctx f rs = some b → evalAll re geo ctx g rs = some b
  | [] => fun he => by rwa [evalAll] at he ⊢
  | r :: rs => fun he => by
    rw [evalAll_cons] at he ⊢
    obtain ⟨c, hc, hrest⟩ := Option.bind_eq_some_iff.mp he
    rw [evalRule_extends h c r hc, Option.bind_some]
    cases c with
    | true => exact evalAll_extends h b rs hrest
    | false => exact hrest

theorem evalAny_extends (h : Extends f g) (b : Bool) :
    ∀ rs, evalAny re geo ctx f rs = some b → evalAny re geo ctx g rs = some b
  | [] => fun he => by rwa [evalAny] at he ⊢
  | r :: rs => fun he => by
    rw [evalAny_cons] at he ⊢
    obtain ⟨c, hc, hrest⟩ := Option.bind_eq_some_iff.mp he
    rw [evalRule_extends h c r hc, Option.bind_some]
    cases c with
    | true => exact hrest
    | false => exact evalAny_extends h b rs hrest

end

/-! ## Lists of rules -/

/-- Some rule of a list that answers `true` does. -/
theorem exists_of_evalAny {rs : List Rule} (h : evalAny re geo ctx f rs = some true) :
    ∃ r ∈ rs, evalRule re geo ctx f r = some true := by
  induction rs with
  | nil =>
    rw [evalAny] at h
    cases h
  | cons r rs ih =>
    rw [evalAny_cons] at h
    obtain ⟨c, hc, hrest⟩ := Option.bind_eq_some_iff.mp h
    cases c with
    | true => exact ⟨r, List.mem_cons_self, hc⟩
    | false =>
      obtain ⟨s, hs, he⟩ := ih hrest
      exact ⟨s, List.mem_cons_of_mem _ hs, he⟩

/-- A matching rule is reached when the ones before it answer `false`. -/
theorem evalAny_append {pre post : List Rule} {r : Rule}
    (hpre : ∀ s ∈ pre, evalRule re geo ctx f s = some false)
    (hr : evalRule re geo ctx f r = some true) :
    evalAny re geo ctx f (pre ++ r :: post) = some true := by
  induction pre with
  | nil =>
    rw [List.nil_append, evalAny_cons, hr, Option.bind_some, if_pos rfl]
  | cons s pre ih =>
    rw [List.cons_append, evalAny_cons, hpre s List.mem_cons_self, Option.bind_some]
    exact ih fun t ht => hpre t (List.mem_cons_of_mem _ ht)

/-- A list that answers `true` has a matching rule in front, or all those answer `false`. -/
theorem evalAny_split {pre post : List Rule} (h : evalAny re geo ctx f (pre ++ post) = some true) :
    (∃ r ∈ pre, evalRule re geo ctx f r = some true) ∨
      ∀ r ∈ pre, evalRule re geo ctx f r = some false := by
  induction pre with
  | nil => exact Or.inr fun r hr => absurd hr List.not_mem_nil
  | cons s pre ih =>
    rw [List.cons_append, evalAny_cons] at h
    obtain ⟨c, hc, hrest⟩ := Option.bind_eq_some_iff.mp h
    cases c with
    | true => exact Or.inl ⟨s, List.mem_cons_self, hc⟩
    | false =>
      rcases ih hrest with ⟨r, hr, he⟩ | hall
      · exact Or.inl ⟨r, List.mem_cons_of_mem _ hr, he⟩
      · right
        intro r hr
        rcases List.mem_cons.mp hr with rfl | hr
        · exact hc
        · exact hall r hr

/-- A list answers when each of its rules does. -/
theorem evalAny_isSome {rs : List Rule} (h : ∀ r ∈ rs, ∃ b, evalRule re geo ctx f r = some b) :
    ∃ b, evalAny re geo ctx f rs = some b := by
  induction rs with
  | nil => exact ⟨false, by rw [evalAny]⟩
  | cons r rs ih =>
    obtain ⟨c, hc⟩ := h r List.mem_cons_self
    rw [evalAny_cons, hc, Option.bind_some]
    cases c with
    | true => exact ⟨true, rfl⟩
    | false => exact ih fun s hs => h s (List.mem_cons_of_mem _ hs)

theorem evalAll_isSome {rs : List Rule} (h : ∀ r ∈ rs, ∃ b, evalRule re geo ctx f r = some b) :
    ∃ b, evalAll re geo ctx f rs = some b := by
  induction rs with
  | nil => exact ⟨true, by rw [evalAll]⟩
  | cons r rs ih =>
    obtain ⟨c, hc⟩ := h r List.mem_cons_self
    rw [evalAll_cons, hc, Option.bind_some]
    cases c with
    | true => exact ih fun s hs => h s (List.mem_cons_of_mem _ hs)
    | false => exact ⟨false, rfl⟩

end

/-! ## Fuel -/

section

variable {re : Regex} {geo : GeoLookups} {ctx : ConnContext} {providers : RuleSets}

theorem evalRuleSet_classical {name : Str} {rules : List Rule} (fuel : Nat)
    (h : providers.get name = some (.classical rules)) :
    evalRuleSet re geo ctx providers (fuel + 1) name =
      evalAny re geo ctx (evalRuleSet re geo ctx providers fuel) rules := by
  rw [evalRuleSet, h]

theorem evalRuleSet_extends (n k : Nat) : Extends (evalRuleSet re geo ctx providers n)
    (evalRuleSet re geo ctx providers (n + k)) := by
  induction n with
  | zero =>
    intro name b h
    rw [evalRuleSet] at h ⊢
    cases hg : providers.get name with
    | none => rwa [hg] at h
    | some kind =>
      rw [hg] at h
      cases kind with
      | domain m => exact h
      | ipCidr nets => exact h
      | classical rules => cases h
  | succ n ih =>
    intro name b h
    rw [Nat.add_right_comm]
    rw [evalRuleSet] at h ⊢
    cases hg : providers.get name with
    | none => rwa [hg] at h
    | some kind =>
      rw [hg] at h
      cases kind with
      | domain m => exact h
      | ipCidr nets => exact h
      | classical rules => exact evalAny_extends ih b rules h

/-- An answer stays with more fuel. -/
theorem evaluate_mono {n m : Nat} (h : n ≤ m) {r : Rule} {b : Bool}
    (he : evaluate re geo ctx providers n r = some b) :
    evaluate re geo ctx providers m r = some b := by
  obtain ⟨k, rfl⟩ := Nat.exists_eq_add_of_le h
  exact evalRule_extends (evalRuleSet_extends n k) b r he

/-- Finitely many answers are all there with one fuel. -/
theorem exists_fuel {rs : List Rule} {b : Bool}
    (h : ∀ r ∈ rs, ∃ n, evaluate re geo ctx providers n r = some b) :
    ∃ n, ∀ r ∈ rs, evaluate re geo ctx providers n r = some b := by
  induction rs with
  | nil => exact ⟨0, fun r hr => absurd hr List.not_mem_nil⟩
  | cons r rs ih =>
    obtain ⟨n, hn⟩ := h r List.mem_cons_self
    obtain ⟨m, hm⟩ := ih fun s hs => h s (List.mem_cons_of_mem _ hs)
    refine ⟨max n m, ?_⟩
    intro s hs
    rcases List.mem_cons.mp hs with rfl | hs
    · exact evaluate_mono (Nat.le_max_left n m) hn
    · exact evaluate_mono (Nat.le_max_right n m) (hm s hs)

end

/-! ## References -/

mutual

/-- The RULE-SET names anywhere in a matcher. -/
def matcherRefs : RuleMatcher → List Str
  | .ruleSet name _ => [name]
  | .logic _ sub => refsOf sub
  | _ => []

def ruleRefs : Rule → List Str
  | .mk matcher _ => matcherRefs matcher

def refsOf : List Rule → List Str
  | [] => []
  | r :: rs => ruleRefs r ++ refsOf rs

end

theorem mem_refsOf {rs : List Rule} {name : Str} : name ∈ refsOf rs ↔ ∃ r ∈ rs, name ∈ ruleRefs r := by
  induction rs with
  | nil => simp [refsOf]
  | cons r rs ih => rw [refsOf, List.mem_append, ih, List.exists_mem_cons_iff]

def RuleSetKind.refs : RuleSetKind → List Str
  | .classical rules => refsOf rules
  | _ => []

/-- The entry of `a` refers to `b`. -/
def RuleSets.Edge (s : RuleSets) (a b : Str) : Prop := ∃ kind, s.get a = some kind ∧ b ∈ kind.refs

section

variable {re : Regex} {geo : GeoLookups} {ctx : ConnContext} {f : Str → Option Bool}

mutual

/-- A rule answers when the entries it refers to do. -/
theorem evalMatcher_isSome :
    ∀ m, (∀ name ∈ matcherRefs m, ∃ b, f name = some b) → ∃ b, evalMatcher re geo ctx f m = some b
  | .ruleSet name _ => fun h => by
    rw [evalMatcher]
    exact h name (by rw [matcherRefs]; exact List.mem_singleton_self name)
  | .logic .and sub => fun h => by
    rw [evalMatcher]
    rw [matcherRefs] at h
    exact evalAll_isSome (evalRules_isSome sub h)
  | .logic .or sub => fun h => by
    rw [evalMatcher]
    rw [matcherRefs] at h
    exact evalAny_isSome (evalRules_isSome sub h)
  | .logic .not (r :: rs) => fun h => by
    rw [matcherRefs, refsOf] at h
    obtain ⟨b, hb⟩ := evalRule_isSome r fun name hn => h name (List.mem_append_left _ hn)
    rw [evalMatcher, hb]
    exact ⟨!b, rfl⟩
  | .logic .not [] | .matchAll => fun _ => by rw [evalMatcher]; exact ⟨_, rfl⟩
  | .domain _ | .domainSuffix _ | .domainKeyword _ | .domainRegex _ => fun _ => by
    rw [evalMatcher]
    exact ⟨_, rfl⟩
  | .ipCidr _ _ _ | .geoIp _ _ | .ipAsn _ _ | .ipSuffix _ _ | .geosite _ => fun _ => by
    rw [evalMatcher]
    exact ⟨_, rfl⟩
  | .portDst _ | .portSrc _ | .inPort _ | .inName _ | .inType _ | .inUser _ => fun _ => by
    rw [evalMatcher]
    exact ⟨_, rfl⟩
  | .clashMode _ | .network _ | .uid _ | .dscp _ | .process _ _ => fun _ => by
    rw [evalMatcher]
    exact ⟨_, rfl⟩

theorem evalRule_isSome :
    ∀ r, (∀ name ∈ ruleRefs r, ∃ b, f name = some b) → ∃ b, evalRule re geo ctx f r = some b
  | .mk m _ => fun h => by
    rw [ruleRefs] at h
    rw [evalRule]
    exact evalMatcher_isSome m h

theorem evalRules_isSome : ∀ rs, (∀ name ∈ refsOf rs, ∃ b, f name = some b) →
    ∀ r ∈ rs, ∃ b, evalRule re geo ctx f r = some b
  | [] => fun _ _ hr => absurd hr List.not_mem_nil
  | r :: rs => fun h => by
    rw [refsOf] at h
    have hhead := evalRule_isSome r fun name hn => h name (List.mem_append_left _ hn)
    have htail := evalRules_isSome rs fun name hn => h name (List.mem_append_right _ hn)
    exact List.forall_mem_cons.mpr ⟨hhead, htail⟩

end

end

section

variable {re : Regex} {geo : GeoLookups} {ctx : ConnContext} {providers : RuleSets}

/-- Entries that each answer all answer with one fuel. -/
theorem exists_fuel_entries {names : List Str}
    (h : ∀ name ∈ names, ∃ n b, evalRuleSet re geo ctx providers n name = some b) :
    ∃ n, ∀ name ∈ names, ∃ b, evalRuleSet re geo ctx providers n name = some b := by
  induction names with
  | nil => exact ⟨0, fun name hn => absurd hn List.not_mem_nil⟩
  | cons name names ih =>
    obtain ⟨n, b, hn⟩ := h name List.mem_cons_self
    obtain ⟨m, hm⟩ := ih fun other ho => h other (List.mem_cons_of_mem _ ho)
    refine ⟨n + m, ?_⟩
    intro other ho
    rcases List.mem_cons.mp ho with rfl | ho
    · exact ⟨b, evalRuleSet_extends n m other b hn⟩
    · obtain ⟨c, hc⟩ := hm other ho
      rw [Nat.add_comm]
      exact ⟨c, evalRuleSet_extends m n other c hc⟩

theorem evalRuleSet_isSome (hends : RefGraph.Ends providers.Edge) (name : Str) :
    ∃ n b, evalRuleSet re geo ctx providers n name = some b := by
  induction name using hends.induction with
  | _ name ih =>
    cases hg : providers.get name with
    | none => exact ⟨0, false, by rw [evalRuleSet, hg]⟩
    | some kind =>
      cases kind with
      | domain m => exact ⟨0, _, by rw [evalRuleSet, hg]⟩
      | ipCidr nets => exact ⟨0, _, by rw [evalRuleSet, hg]⟩
      | classical rules =>
        obtain ⟨n, hn⟩ := exists_fuel_entries fun other ho => ih other ⟨_, hg, ho⟩
        obtain ⟨b, hb⟩ := evalAny_isSome (evalRules_isSome rules hn)
        exact ⟨n + 1, b, by rw [evalRuleSet_classical n hg, hb]⟩

/-- Where following RULE-SET references ends, so does every evaluation. -/
theorem terminates_of_ends (hends : RefGraph.Ends providers.Edge) (r : Rule) :
    Terminates re geo ctx providers r := by
  have hall : ∀ name ∈ ruleRefs r, ∃ n b, evalRuleSet re geo ctx providers n name = some b :=
    fun name _ => evalRuleSet_isSome hends name
  obtain ⟨n, hn⟩ := exists_fuel_entries hall
  obtain ⟨b, hb⟩ := evalRule_isSome r hn
  exact ⟨n, b, hb⟩

end

end RustCrash.Routing
