import RustCrash.App.Provider

/-
  Classical text providers. A line is read as a full rule, as `TYPE,payload` without a
  target, or as a bare domain suffix (`Reading`). The loader tries the first and the last;
  a line with a comma that is no full rule ends as `MatchAll` (`classicalRule_malformed`),
  so the set then matches every connection that gets past the lines before it.
-/

namespace RustCrash.App

open Lib Routing RulesetBin

/-! ## Readings of a line -/

/-- `TYPE,payload[,no-resolve]` with a target put in. -/
def withTarget (line : Str) : Str :=
  let parts := line.splitOn ','
  if (parts.getLast?.map Str.trim) = some "no-resolve".toList then
    Str.join ',' (parts.dropLast ++ ["DIRECT".toList, "no-resolve".toList])
  else line ++ ",DIRECT".toList

/-- What a line of a classical provider may say. -/
inductive Reading (re : Regex) (line : Str) : Rule → Prop
  | full {r : Rule} (h : parse re line = .ok r) : Reading re line r
  | untargeted {r : Rule} (hc : ',' ∈ line) (h : parse re (withTarget line) = .ok r) :
      Reading re line r
  | suffix (hc : ',' ∉ line) : Reading re line
      (.mk (.domainSuffix (Str.asciiLower (Str.trimStartMatches '.' line))) "DIRECT".toList)

/-- A line with a comma that is not a full rule. -/
def malformed (re : Regex) (line : Str) : Bool :=
  line.contains ',' && (parse re line).toOption.isNone

/-! ## The rule of a line -/

theorem trim_of_mem_ruleLines {content line : Str} (h : line ∈ ruleLines content) :
    Str.trim line = line := by
  obtain ⟨hm, -⟩ := List.mem_filter.mp h
  obtain ⟨raw, -, rfl⟩ := List.mem_map.mp hm
  exact Str.trim_trim _

/-- A rule kind that trimming and splitting leave alone and that is no logic keyword. -/
structure PlainKind (kind : Str) : Prop where
  ne_nil : kind ≠ []
  head : ¬ kind.head?.any (fun c => Str.isWhitespace c || c == '#')
  no_comma : ',' ∉ kind
  no_logic : isLogicHead kind = false

theorem plainKind_suffix : PlainKind "DOMAIN-SUFFIX".toList :=
  ⟨by decide, by decide, by decide, by decide⟩

theorem directLine_eq (kind : String) (v : Str) :
    directLine kind v = kind.toList ++ ',' :: (v ++ ',' :: "DIRECT".toList) := by
  unfold directLine
  rw [List.append_assoc]
  rfl

/-- `KIND,v,DIRECT` is parsed by its parts. -/
theorem parse_directLine (re : Regex) {kind : String} (hk : PlainKind kind.toList) (v : Str) :
    parse re (directLine kind v) = parseParts re (directLine kind v)
      ((kind.toList :: v.splitOn ',' ++ ["DIRECT".toList]).map Str.trim) := by
  have hhead : (directLine kind v).head? = kind.toList.head? := by
    rw [directLine_eq, List.head?_append_of_ne_nil _ hk.ne_nil]
  have hkind := hk.head
  rw [← hhead] at hkind
  have htrim : Str.trim (directLine kind v) = directLine kind v := by
    apply Str.trim_eq_self
    · cases hc : (directLine kind v).head? with
      | none => rfl
      | some c =>
        rw [hc] at hkind
        simp only [Option.any_some, Bool.or_eq_true, not_or] at hkind
        simpa using hkind.1
    · rw [directLine_eq, List.getLast?_append, List.getLast?_cons, List.getLast?_append]
      rfl
  have hrule : ruleHead (directLine kind v) = kind.toList := by
    unfold ruleHead
    rw [directLine_eq, List.takeWhile_append_of_pos (by
      intro c hc
      exact decide_eq_true fun he => hk.no_comma (he ▸ hc))]
    simp
  have hsplit : (directLine kind v).splitOn ',' =
      kind.toList :: v.splitOn ',' ++ ["DIRECT".toList] := by
    rw [directLine_eq, List.splitOn_append_cons_self, List.splitOn_append_cons_self,
      List.splitOn_eq_singleton hk.no_comma]
    rfl
  rw [parse_of_plain re htrim ?_ (by rw [hrule]; exact hk.no_logic)]
  · unfold parsePlain
    dsimp only
    rw [hsplit, if_neg (by simp)]
  · rintro (h | h)
    · rw [h] at hhead
      exact hk.ne_nil (List.head?_eq_none_iff.mp hhead.symm)
    · rw [h] at hkind
      exact hkind rfl

/-- A line without a comma is a bare domain suffix. -/
theorem parse_suffix_line (re : Regex) {line : Str} (hc : ',' ∉ line) :
    parse re (directLine "DOMAIN-SUFFIX" line) = .ok
      (.mk (.domainSuffix (Str.asciiLower (Str.trimStartMatches '.' (Str.trim line))))
        "DIRECT".toList) := by
  have hone : line.splitOn ',' = [line] := List.splitOn_eq_singleton hc
  rw [parse_directLine re plainKind_suffix, hone]
  rfl

theorem parseParts_long (re : Regex) (line : Str) {parts : List Str} (hlen : 4 ≤ parts.length)
    (hlast : parts.getLast? ≠ some "no-resolve".toList) :
    parseParts re line parts = .error (unsupportedRule line) := by
  unfold parseParts
  dsimp only
  rw [decide_eq_false hlast, if_neg Bool.false_ne_true]
  match parts, hlen with
  | _ :: _ :: _ :: _ :: _, _ => rfl

/-- One with a comma gives too many parts. -/
theorem parse_comma_line (re : Regex) {line : Str} (hc : ',' ∈ line) :
    ∃ e, parse re (directLine "DOMAIN-SUFFIX" line) = .error e := by
  obtain ⟨a, b, rfl⟩ := List.append_of_mem hc
  have ha := List.length_pos_iff.mpr (List.splitOn_ne_nil ',' a)
  have hb := List.length_pos_iff.mpr (List.splitOn_ne_nil ',' b)
  rw [parse_directLine re plainKind_suffix, List.splitOn_append_cons_self, parseParts_long]
  · exact ⟨_, rfl⟩
  · simp only [List.length_map, List.length_cons, List.length_append, List.length_nil]
    omega
  · rw [List.getLast?_map, List.getLast?_append, List.getLast?_singleton, Option.some_or]
    decide

theorem classicalRule_full {re : Regex} {line : Str} {r : Rule} (h : parse re line = .ok r) :
    classicalRule re line = r := by
  unfold classicalRule
  rw [h]

theorem classicalRule_suffix {re : Regex} {line : Str} {e : Error} (ht : Str.trim line = line)
    (h : parse re line = .error e) (hc : ',' ∉ line) : classicalRule re line =
      .mk (.domainSuffix (Str.asciiLower (Str.trimStartMatches '.' line))) "DIRECT".toList := by
  unfold classicalRule
  rw [h, parse_suffix_line re hc, ht]

theorem classicalRule_malformed {re : Regex} {line : Str} (h : malformed re line = true) :
    classicalRule re line = .mk .matchAll "DIRECT".toList := by
  unfold malformed at h
  rw [Bool.and_eq_true, List.contains_iff_mem] at h
  obtain ⟨e, he⟩ := parse_comma_line re h.1
  unfold classicalRule
  cases hp : parse re line with
  | ok r =>
    rw [hp] at h
    exact absurd h.2 (by simp [Except.toOption])
  | error e' =>
    dsimp only
    rw [he]

/-- A line that is not malformed gives one of its readings. -/
theorem reading_classicalRule {re : Regex} {line : Str} (ht : Str.trim line = line)
    (h : malformed re line = false) : Reading re line (classicalRule re line) := by
  cases hp : parse re line with
  | ok r =>
    rw [classicalRule_full hp]
    exact .full hp
  | error e =>
    have hc : ',' ∉ line := by
      intro hc
      unfold malformed at h
      rw [hp, List.contains_iff_mem.mpr hc] at h
      cases h
    rw [classicalRule_suffix ht hp hc]
    exact .suffix hc

/-! ## The set -/

section

variable (re : Regex) (geo : GeoLookups) (ctx : ConnContext) (providers : RuleSets)

/-- Some reading of a line of the file matches the connection. -/
def LineMatches (content : Str) : Prop :=
  ∃ line ∈ ruleLines content, ∃ r, Reading re line r ∧ MatchesRule re geo ctx providers r

/-- The lines before the first malformed one. -/
def leading (content : Str) : List Str :=
  (ruleLines content).takeWhile fun line => !malformed re line

/-- The connection gets past the lines before the first malformed one. -/
def PastLeading (content : Str) : Prop :=
  ∀ line ∈ leading re content,
    ∃ fuel, evaluate re geo ctx providers fuel (classicalRule re line) = some false

end

section

variable {re : Regex} {geo : GeoLookups} {ctx : ConnContext} {providers : RuleSets} {content : Str}

theorem malformed_of_mem_leading {line : Str} (h : line ∈ leading re content) :
    line ∈ ruleLines content ∧ malformed re line = false := by
  refine ⟨(List.takeWhile_prefix _).subset h, ?_⟩
  simpa using List.mem_takeWhile_imp h

theorem lineMatches_of_rule {line : Str} (hl : line ∈ ruleLines content)
    (hm : malformed re line = false)
    (h : MatchesRule re geo ctx providers (classicalRule re line)) :
    LineMatches re geo ctx providers content :=
  ⟨line, hl, _, reading_classicalRule (trim_of_mem_ruleLines hl) hm, h⟩

/-- A matching set has a matching line, or was matched at the first malformed line. -/
theorem lineMatches_or_past
    (h : SetMatches re geo ctx providers ((ruleLines content).map (classicalRule re))) :
    LineMatches re geo ctx providers content ∨ PastLeading re geo ctx providers content := by
  obtain ⟨fuel, h⟩ := h
  rw [← List.takeWhile_append_dropWhile (p := fun line => !malformed re line)
    (l := ruleLines content), List.map_append] at h
  rcases evalAny_split h with ⟨r, hr, he⟩ | hall
  · obtain ⟨line, hl, rfl⟩ := List.mem_map.mp hr
    have hlead := malformed_of_mem_leading hl
    exact Or.inl (lineMatches_of_rule hlead.1 hlead.2 ⟨fuel, he⟩)
  · right
    intro line hl
    exact ⟨fuel, hall _ (List.mem_map_of_mem hl)⟩

/-- Past the leading lines, a malformed line matches. -/
theorem setMatches_of_past (hbad : ∃ line ∈ ruleLines content, malformed re line = true)
    (h : PastLeading re geo ctx providers content) :
    SetMatches re geo ctx providers ((ruleLines content).map (classicalRule re)) := by
  obtain ⟨fuel, hfuel⟩ : ∃ fuel, ∀ r ∈ (leading re content).map (classicalRule re),
      evaluate re geo ctx providers fuel r = some false := by
    apply exists_fuel
    intro r hr
    obtain ⟨line, hl, rfl⟩ := List.mem_map.mp hr
    exact h line hl
  have hsplit := List.takeWhile_append_dropWhile (p := fun line => !malformed re line)
    (l := ruleLines content)
  cases hd : (ruleLines content).dropWhile fun line => !malformed re line with
  | nil =>
    obtain ⟨line, hl, hm⟩ := hbad
    have := List.dropWhile_eq_nil_iff.mp hd line hl
    rw [hm] at this
    cases this
  | cons line rest =>
    have hm : malformed re line = true := by
      have := List.head?_dropWhile_not (fun line => !malformed re line) (ruleLines content)
      rw [hd] at this
      simpa using this
    refine ⟨fuel, ?_⟩
    rw [← hsplit, hd, List.map_append, List.map_cons]
    apply evalAny_append hfuel
    rw [classicalRule_malformed hm, evalRule, evalMatcher]

/-- The set of a classical text file matches only what a reading of a line matches, exactly
    if no line is malformed or every connection that gets past the lines before the first
    malformed one is matched by a reading anyway. -/
theorem classical_provider_sound {x : Codecs} {p : RuleProviderSpec} (content : Str)
    (hp : p.behavior = .classical ∧ p.format = .text) (hb : binaryRules x (utf8 content) = none)
    (geo : GeoLookups) (providers : RuleSets) :
    ∃ rules, tryLoadProvider x p (.ok (utf8 content)) = .ok (.classical rules) ∧
      ((∀ ctx, SetMatches x.regex geo ctx providers rules →
          LineMatches x.regex geo ctx providers content) ↔
        (∀ line ∈ ruleLines content, malformed x.regex line = false) ∨
        ∀ ctx, PastLeading x.regex geo ctx providers content →
          LineMatches x.regex geo ctx providers content) := by
  refine ⟨(ruleLines content).map (classicalRule x.regex), ?_, ?_⟩
  · unfold tryLoadProvider
    dsimp only
    rw [hb]
    unfold loadText textSet
    rw [fromUtf8_utf8, hp.1, hp.2]
  · constructor
    · intro h
      by_cases hbad : ∃ line ∈ ruleLines content, malformed x.regex line = true
      · exact Or.inr fun ctx hpast => h ctx (setMatches_of_past hbad hpast)
      · left
        intro line hl
        by_contra hm
        exact hbad ⟨line, hl, by simpa using hm⟩
    · rintro (hgood | hcover) ctx h
      · obtain ⟨fuel, he⟩ := h
        obtain ⟨r, hr, he⟩ := exists_of_evalAny he
        obtain ⟨line, hl, rfl⟩ := List.mem_map.mp hr
        exact lineMatches_of_rule hl (hgood line hl) ⟨fuel, he⟩
      · exact (lineMatches_or_past h).elim id (hcover ctx)

end

def classicalSpec : RuleProviderSpec where
  name := ['A']
  path := "a.list".toList
  behavior := .classical
  format := .text

def emptyGeo : GeoLookups := ⟨none, none, ∅⟩

/-- A TCP connection to a domain. -/
def sampleContext (domain : Str) : ConnContext where
  host := .domain domain
  port := 443
  sourceIp := none
  sourcePort := none
  resolved := none
  mode := .rule
  network := .tcp
  inbound := []
  inboundKind := []
  inboundPort := none
  process := none
  uid := none
  user := none
  dscp := none

theorem classical_provider_sound_sample : ∃ rules,
    tryLoadProvider sampleCodecs classicalSpec (.ok (utf8 "DOMAIN,a.com,DIRECT\nb.com".toList)) =
        .ok (.classical rules) ∧
      ∀ ctx, SetMatches sampleCodecs.regex emptyGeo ctx {} rules →
        LineMatches sampleCodecs.regex emptyGeo ctx {} "DOMAIN,a.com,DIRECT\nb.com".toList := by
  obtain ⟨rules, hload, hiff⟩ :=
    classical_provider_sound (x := sampleCodecs) (p := classicalSpec)
      "DOMAIN,a.com,DIRECT\nb.com".toList ⟨rfl, rfl⟩ rfl emptyGeo {}
  refine ⟨rules, hload, hiff.mpr (Or.inl ?_)⟩
  have hlines : ruleLines "DOMAIN,a.com,DIRECT\nb.com".toList =
      ["DOMAIN,a.com,DIRECT".toList, "b.com".toList] := by decide +kernel
  intro line hl
  rw [hlines] at hl
  rcases List.mem_cons.mp hl with rfl | hl
  · unfold malformed
    rw [parse_of_plain _ (by decide) (by decide) (by decide)]
    rfl
  · rw [List.mem_singleton.mp hl]
    rfl

/-- A line without a target. -/
def untargetedLine : Str := "DOMAIN-SUFFIX,google.com".toList

/-- The line `DOMAIN-SUFFIX,google.com` makes the set match `example.org`. -/
theorem untargeted_line_widens : ∃ rules,
    tryLoadProvider sampleCodecs classicalSpec (.ok (utf8 untargetedLine)) =
        .ok (.classical rules) ∧
      SetMatches sampleCodecs.regex emptyGeo (sampleContext "example.org".toList) {} rules ∧
      ¬ LineMatches sampleCodecs.regex emptyGeo (sampleContext "example.org".toList) {}
        untargetedLine := by
  have hlines : ruleLines untargetedLine = [untargetedLine] := by decide +kernel
  have hparse : parse sampleCodecs.regex untargetedLine =
      .error (unsupportedRule untargetedLine) := by
    rw [parse_of_plain _ (by decide) (by decide) (by decide)]
    rfl
  have htarget : parse sampleCodecs.regex (withTarget untargetedLine) =
      .ok (.mk (.domainSuffix "google.com".toList) "DIRECT".toList) := by
    rw [parse_of_plain _ (by decide) (by decide) (by decide)]
    rfl
  have hmal : malformed sampleCodecs.regex untargetedLine = true := by
    unfold malformed
    rw [hparse]
    decide
  refine ⟨(ruleLines untargetedLine).map (classicalRule sampleCodecs.regex), ?_, ?_, ?_⟩
  · unfold tryLoadProvider
    dsimp only
    rw [show binaryRules sampleCodecs (utf8 untargetedLine) = none from rfl]
    unfold loadText textSet
    rw [fromUtf8_utf8]
    rfl
  · rw [hlines, List.map_singleton, classicalRule_malformed hmal]
    exact ⟨0, rfl⟩
  · rintro ⟨line, hl, r, hread, fuel, hm⟩
    rw [hlines, List.mem_singleton] at hl
    subst hl
    cases hread with
    | full h =>
      rw [hparse] at h
      cases h
    | untargeted hc h =>
      rw [htarget] at h
      obtain rfl := Except.ok.inj h
      have hfalse : evaluate sampleCodecs.regex emptyGeo (sampleContext "example.org".toList) {}
          fuel (.mk (.domainSuffix "google.com".toList) "DIRECT".toList) = some false := by
        unfold evaluate
        rw [evalRule, evalMatcher]
        decide
      rw [hfalse] at hm
      cases hm
    | suffix hc => exact hc (by decide)

end RustCrash.App
