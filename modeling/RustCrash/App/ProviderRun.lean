import RustCrash.App.ProviderText

/-
  Runs of provider loads and reloads. Only a classical text file can put RULE-SET rules
  into the table (`refs_of_load`). A load whose references do not lead back to the loaded
  name keeps the table without cycles, and then every evaluation returns; nothing in the
  loader asks for this.
-/

namespace RustCrash.App

open Lib Routing RulesetBin

/-! ## What a load refers to -/

/-- The RULE-SET names in the rules of a text file. -/
def textRefs (re : Regex) (content : Str) : List Str :=
  (ruleLines content).flatMap fun line =>
    match parse re line with
    | .ok r => ruleRefs r
    | .error _ => []

/-- The RULE-SET names a provider file brings in, if it is loaded as classical text. -/
def fileRefs (x : Codecs) (p : RuleProviderSpec) (file : Except String Bytes) : List Str :=
  match p.behavior, p.format, file with
  | .classical, .text, .ok bytes => ((fromUtf8 bytes).map (textRefs x.regex)).getD []
  | _, _, _ => []

/-- A `KIND,v,DIRECT` line refers to nothing if no matcher of its kind does. -/
theorem refs_directLine {re : Regex} {kind : String} (hk : PlainKind kind.toList)
    (hm : ∀ payload m, payloadMatcher re (Str.asciiUpper (Str.trim kind.toList)) payload false =
      some (.ok m) → matcherRefs m = [])
    {v : Str} {r : Rule} (h : parse re (directLine kind v) = .ok r) : ruleRefs r = [] := by
  rw [parse_directLine re hk] at h
  obtain ⟨p, ps, hps⟩ := List.exists_cons_of_ne_nil (List.splitOn_ne_nil ',' v)
  rw [hps] at h
  cases ps with
  | nil =>
    have hparts : parseParts re (directLine kind v)
        [Str.trim kind.toList, Str.trim p, "DIRECT".toList] = .ok r := h
    have hlast : [Str.trim kind.toList, Str.trim p, "DIRECT".toList].getLast? ≠
        some "no-resolve".toList := by
      rw [show [Str.trim kind.toList, Str.trim p, "DIRECT".toList].getLast? =
        some "DIRECT".toList from rfl]
      decide
    unfold parseParts at hparts
    dsimp only at hparts
    rw [decide_eq_false hlast, if_neg Bool.false_ne_true] at hparts
    dsimp only at hparts
    cases hmat : payloadMatcher re (Str.asciiUpper (Str.trim kind.toList)) (Str.trim p) false with
    | none =>
      simp only [hmat] at hparts
      cases hparts
    | some x =>
      simp only [hmat] at hparts
      cases x with
      | error e => cases hparts
      | ok m =>
        rw [← Except.ok.inj hparts, ruleRefs]
        exact hm _ m hmat
  | cons q qs =>
    rw [parseParts_long] at h
    · cases h
    · simp only [List.length_map, List.length_cons, List.length_append, List.length_nil]
      omega
    · rw [List.getLast?_map, List.getLast?_append, List.getLast?_singleton, Option.some_or]
      decide

/-- The kinds a binary set is rendered with. -/
def binaryKinds : List String :=
  ["DOMAIN", "DOMAIN-SUFFIX", "DOMAIN-KEYWORD", "DOMAIN-REGEX", "IP-CIDR"]

theorem plainKind_of_binary {kind : String} (h : kind ∈ binaryKinds) : PlainKind kind.toList := by
  have hall : ∀ k ∈ binaryKinds, k.toList ≠ [] ∧
      ¬ k.toList.head?.any (fun c => Str.isWhitespace c || c == '#') ∧ ',' ∉ k.toList ∧
      isLogicHead k.toList = false := by decide
  obtain ⟨h1, h2, h3, h4⟩ := hall kind h
  exact ⟨h1, h2, h3, h4⟩

theorem matcher_of_binary (re : Regex) {kind : String} (h : kind ∈ binaryKinds) (payload : Str)
    (m : RuleMatcher) (hm : payloadMatcher re (Str.asciiUpper (Str.trim kind.toList)) payload false =
      some (.ok m)) : matcherRefs m = [] := by
  simp only [binaryKinds, List.mem_cons, List.not_mem_nil, or_false] at h
  rcases h with rfl | rfl | rfl | rfl | rfl
  · cases (show some (Except.ok (RuleMatcher.domain (Str.asciiLower payload))) = some (.ok m) from hm)
    rfl
  · cases (show some (Except.ok (RuleMatcher.domainSuffix (Str.asciiLower
      (Str.trimStartMatches '.' payload)))) = some (.ok m) from hm)
    rfl
  · cases (show some (Except.ok (RuleMatcher.domainKeyword (Str.asciiLower payload))) =
      some (.ok m) from hm)
    rfl
  · have hregex := Option.some.inj (show some (parseRegex re payload _) = some (.ok m) from hm)
    unfold parseRegex at hregex
    cases hnew : re.new payload with
    | error e =>
      rw [hnew] at hregex
      cases hregex
    | ok u =>
      rw [hnew] at hregex
      cases hregex
      rfl
  · have hnet := Option.some.inj (show some ((IpNet.parse payload).map fun net =>
      RuleMatcher.ipCidr net false false) = some (.ok m) from hm)
    cases hparse : IpNet.parse payload with
    | error e =>
      rw [hparse] at hnet
      cases hnet
    | ok net =>
      rw [hparse] at hnet
      cases hnet
      rfl

theorem srsLines_kinds (srs : SrsRuleSet) :
    ∀ l ∈ srsLines srs, ∃ kind ∈ binaryKinds, ∃ v, l = directLine kind v := by
  intro l hl
  rcases List.mem_append.mp hl with hl | hl
  · obtain ⟨d, -, rfl⟩ := List.mem_map.mp hl
    cases d with
    | exact v => exact ⟨"DOMAIN", by decide, v, rfl⟩
    | suffix v => exact ⟨"DOMAIN-SUFFIX", by decide, v, rfl⟩
    | keyword v => exact ⟨"DOMAIN-KEYWORD", by decide, v, rfl⟩
    | regex v => exact ⟨"DOMAIN-REGEX", by decide, v, rfl⟩
  · obtain ⟨v, -, rfl⟩ := List.mem_map.mp hl
    exact ⟨"IP-CIDR", by decide, v, rfl⟩

theorem mrsLines_kinds (mrs : MrsRuleSet) :
    ∀ l ∈ mrsLines mrs, ∃ kind ∈ binaryKinds, ∃ v, l = directLine kind v := by
  intro l hl
  rcases List.mem_append.mp hl with hl | hl
  · rcases List.mem_append.mp hl with hl | hl
    · obtain ⟨v, -, rfl⟩ := List.mem_map.mp hl
      exact ⟨"DOMAIN-SUFFIX", by decide, v, rfl⟩
    · obtain ⟨v, -, rfl⟩ := List.mem_map.mp hl
      exact ⟨"DOMAIN", by decide, v, rfl⟩
  · obtain ⟨v, -, rfl⟩ := List.mem_map.mp hl
    exact ⟨"IP-CIDR", by decide, v, rfl⟩

/-- The lines of binary sets refer to nothing. -/
theorem refs_lines {re : Regex} {lines : List Str}
    (h : ∀ l ∈ lines, ∃ kind ∈ binaryKinds, ∃ v, l = directLine kind v) :
    ∀ r ∈ lines.filterMap (fun l => (parse re l).toOption), ruleRefs r = [] := by
  intro r hr
  obtain ⟨l, hl, hp⟩ := List.mem_filterMap.mp hr
  obtain ⟨kind, hk, v, rfl⟩ := h l hl
  cases hparse : parse re (directLine kind v) with
  | error e =>
    rw [hparse] at hp
    cases hp
  | ok s =>
    rw [hparse] at hp
    cases hp
    exact refs_directLine (plainKind_of_binary hk) (matcher_of_binary re hk) hparse

theorem refs_binaryRules {x : Codecs} {bytes : Bytes} {rules : List Rule}
    (h : binaryRules x bytes = some (.ok rules)) : ∀ r ∈ rules, ruleRefs r = [] := by
  unfold binaryRules at h
  dsimp only at h
  split_ifs at h
  · cases hp : parseSrs x.zlib bytes with
    | error e =>
      rw [hp] at h
      cases h
    | ok srs =>
      rw [hp] at h
      cases h
      exact refs_lines (srsLines_kinds srs)
  · cases hp : parseMrs x.zstd bytes with
    | error e =>
      rw [hp] at h
      cases h
    | ok mrs =>
      rw [hp] at h
      cases h
      exact refs_lines (mrsLines_kinds mrs)

theorem refs_classicalRule (re : Regex) {content line : Str} (hl : line ∈ ruleLines content) :
    ∀ name ∈ ruleRefs (classicalRule re line), name ∈ textRefs re content := by
  intro name hn
  cases hp : parse re line with
  | ok r =>
    rw [classicalRule_full hp] at hn
    exact List.mem_flatMap.mpr ⟨line, hl, by rwa [hp]⟩
  | error e =>
    by_cases hc : ',' ∈ line
    · have hm : malformed re line = true := by
        unfold malformed
        rw [hp, List.contains_iff_mem.mpr hc]
        rfl
      rw [classicalRule_malformed hm] at hn
      exact absurd hn List.not_mem_nil
    · rw [classicalRule_suffix (trim_of_mem_ruleLines hl) hp hc] at hn
      exact absurd hn List.not_mem_nil

theorem refs_textSet {re : Regex} {p : RuleProviderSpec} {content : Str} {kind : RuleSetKind}
    (h : textSet re p content = .ok kind) : ∀ name ∈ kind.refs,
      p.behavior = .classical ∧ p.format = .text ∧ name ∈ textRefs re content := by
  intro name hn
  cases hb : p.behavior <;> cases hf : p.format <;> unfold textSet at h <;> rw [hb, hf] at h <;>
    cases h
  · exact absurd hn List.not_mem_nil
  · exact absurd hn List.not_mem_nil
  · obtain ⟨r, hr, hn⟩ := mem_refsOf.mp hn
    obtain ⟨line, hl, rfl⟩ := List.mem_map.mp hr
    exact ⟨rfl, rfl, refs_classicalRule re hl name hn⟩

/-- A loaded set refers only to what its text lines name. -/
theorem refs_of_load {x : Codecs} {p : RuleProviderSpec} {file : Except String Bytes}
    {kind : RuleSetKind} (h : tryLoadProvider x p file = .ok kind) :
    ∀ name ∈ kind.refs, name ∈ fileRefs x p file := by
  intro name hn
  have hnone : ∀ rules : List Rule, (∀ r ∈ rules, ruleRefs r = []) →
      name ∉ RuleSetKind.refs (.classical rules) := by
    intro rules hall hm
    obtain ⟨r, hr, hm⟩ := mem_refsOf.mp hm
    rw [hall r hr] at hm
    exact List.not_mem_nil hm
  have htext : ∀ bytes, loadText x.regex p bytes = .ok kind → name ∈ fileRefs x p (.ok bytes) := by
    intro bytes h
    unfold loadText at h
    cases hu : fromUtf8 bytes with
    | none =>
      rw [hu] at h
      cases h
    | some content =>
      rw [hu] at h
      obtain ⟨hb, hf, hn⟩ := refs_textSet h name hn
      unfold fileRefs
      rw [hb, hf]
      dsimp only
      rw [hu]
      exact hn
  unfold tryLoadProvider at h
  cases file with
  | error e => cases h
  | ok bytes =>
    dsimp only at h
    cases hbin : binaryRules x bytes with
    | none =>
      rw [hbin] at h
      exact htext bytes h
    | some result =>
      rw [hbin] at h
      cases result with
      | error e => cases h
      | ok rules =>
        cases rules with
        | nil => exact htext bytes h
        | cons r rules =>
          cases h
          exact absurd hn (hnone _ (refs_binaryRules hbin))

/-! ## Runs -/

/-- A load or reload: the provider and what reading its file gives. -/
abbrev Load := RuleProviderSpec × Except String Bytes

/-- One load or reload. -/
def step (x : Codecs) (sets : RuleSets) (a : Load) : RuleSets := loadProvider x sets a.1 a.2

/-- No reference in the file leads back to the loaded name. -/
def SafeLoad (x : Codecs) (sets : RuleSets) (a : Load) : Prop :=
  ∀ name ∈ fileRefs x a.1 a.2, ¬ RefGraph.Reaches sets.Edge name a.1.name

theorem ends_step {x : Codecs} {sets : RuleSets} {a : Load} (h : RefGraph.Ends sets.Edge)
    (hs : SafeLoad x sets a) : RefGraph.Ends (step x sets a).Edge := by
  unfold step loadProvider
  cases hl : tryLoadProvider x a.1 a.2 with
  | error e => exact h
  | ok kind =>
    apply RefGraph.ends_of_replace (n := a.1.name) h
    · rintro m b hne ⟨k, hk, hb⟩
      rw [RuleSets.get_insert_of_ne sets kind hne] at hk
      exact ⟨k, hk, hb⟩
    · rintro b ⟨k, hk, hb⟩
      rw [RuleSets.get_insert_self] at hk
      cases hk
      exact hs b (refs_of_load hl b hb)

theorem ends_empty : RefGraph.Ends (RuleSets.Edge {}) := by
  refine ⟨fun a => ⟨a, ?_⟩⟩
  rintro b ⟨kind, hk, -⟩
  rw [RuleSets.get_empty] at hk
  cases hk

/-- In a run of loads none of which leads back to the loaded name, every evaluation on every
    table reached returns. -/
theorem evaluation_terminates {x : Codecs} (loads : List Load)
    (h : ∀ s ∈ Machine.steps (step x) {} loads, SafeLoad x s.1 s.2) :
    ∀ sets ∈ Machine.states (step x) {} loads, ∀ geo ctx r,
      Terminates x.regex geo ctx sets r := by
  have hinv := Machine.inv_of_good (fun sets : RuleSets => RefGraph.Ends sets.Edge) (SafeLoad x)
    (fun sets a he hg => ends_step he hg) ends_empty h
  intro sets hs geo ctx r
  exact terminates_of_ends (hinv sets hs) r

/-- The line `RULE-SET,A,DIRECT`. -/
def selfLine : Str := "RULE-SET,A,DIRECT".toList

theorem parse_selfLine (re : Regex) :
    parse re selfLine = .ok (.mk (.ruleSet ['A'] false) "DIRECT".toList) := by
  rw [parse_of_plain re (by decide) (by decide) (by decide)]
  rfl

theorem load_selfLine (p : RuleProviderSpec) (hp : p.behavior = .classical ∧ p.format = .text) :
    tryLoadProvider sampleCodecs p (.ok (utf8 selfLine)) =
      .ok (.classical [.mk (.ruleSet ['A'] false) "DIRECT".toList]) := by
  have hlines : ruleLines selfLine = [selfLine] := by decide +kernel
  unfold tryLoadProvider
  dsimp only
  rw [show binaryRules sampleCodecs (utf8 selfLine) = none from rfl]
  unfold loadText textSet
  rw [fromUtf8_utf8, hp.1, hp.2]
  dsimp only
  rw [hlines, List.map_singleton, classicalRule_full (parse_selfLine _)]

theorem self_entry_diverges {re : Regex} {geo : GeoLookups} {ctx : ConnContext} {sets : RuleSets}
    (h : sets.get ['A'] = some (.classical [.mk (.ruleSet ['A'] false) "DIRECT".toList]))
    (fuel : Nat) : evalRuleSet re geo ctx sets fuel ['A'] = none := by
  induction fuel with
  | zero => rw [evalRuleSet, h]
  | succ fuel ih =>
    rw [evalRuleSet_classical fuel h, evalAny_cons, evalRule, evalMatcher, ih]
    rfl

theorem step_selfLine : step sampleCodecs {} (classicalSpec, .ok (utf8 selfLine)) =
    RuleSets.insert {} ['A'] (.classical [.mk (.ruleSet ['A'] false) "DIRECT".toList]) := by
  have hload := load_selfLine classicalSpec ⟨rfl, rfl⟩
  unfold step loadProvider
  dsimp only
  rw [hload]
  rfl

/-- A provider that refers to itself: its evaluation never returns. -/
theorem self_reference_diverges :
    ∃ sets ∈ Machine.states (step sampleCodecs) {} [(classicalSpec, .ok (utf8 selfLine))],
      ∀ geo ctx, ¬ Terminates sampleCodecs.regex geo ctx sets
        (.mk (.ruleSet ['A'] false) "DIRECT".toList) := by
  refine ⟨_, Machine.step_mem_states _ _, ?_⟩
  rintro geo ctx ⟨fuel, b, h⟩
  rw [step_selfLine] at h
  unfold evaluate at h
  rw [evalRule, evalMatcher, self_entry_diverges (RuleSets.get_insert_self _ _ _)] at h
  cases h

/-- The provider `B` of the line `RULE-SET,A,DIRECT`. -/
def otherSpec : RuleProviderSpec := { classicalSpec with name := ['B'] }

/-- Loading `B` with a reference to `A` is safe, and evaluating a reference to `B` returns. -/
theorem evaluation_terminates_sample :
    Terminates sampleCodecs.regex emptyGeo (sampleContext "example.com".toList)
      (step sampleCodecs {} (otherSpec, .ok (utf8 selfLine)))
      (.mk (.ruleSet ['B'] false) "DIRECT".toList) := by
  refine evaluation_terminates [(otherSpec, .ok (utf8 selfLine))] ?_ _
    (Machine.step_mem_states _ _) _ _ _
  intro s hs name hn hreach
  rw [List.mem_singleton.mp hs] at hn hreach
  have hlines : ruleLines selfLine = [selfLine] := by decide +kernel
  have hrefs : fileRefs sampleCodecs otherSpec (.ok (utf8 selfLine)) = [['A']] := by
    unfold fileRefs textRefs
    rw [show otherSpec.behavior = .classical from rfl, show otherSpec.format = .text from rfl]
    dsimp only
    rw [fromUtf8_utf8, Option.map_some, hlines, List.flatMap_singleton, parse_selfLine]
    rfl
  dsimp only at hn
  rw [hrefs, List.mem_singleton] at hn
  subst hn
  rcases Relation.ReflTransGen.cases_head hreach with he | ⟨b, ⟨kind, hk, -⟩, -⟩
  · cases he
  · rw [RuleSets.get_empty] at hk
    cases hk

end RustCrash.App
