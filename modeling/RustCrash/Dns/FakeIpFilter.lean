import RustCrash.Routing.Matcher

/-
  The fake-ip filter: its `geosite:` entries are read by `Engine::build` (`app.rs`), its
  plain patterns are added by `DnsEngine::new` (`dns/resolver.rs`).

  The filter is the matcher of the last loaded geosite entry, and every plain pattern. So it is
  the union of its entries only where those accept what each other geosite entry accepts.

  The geosite database is the loaded map of `GeoLookups`; the warning about an entry that
  is not loaded is left out.
-/

namespace RustCrash.Dns

open Lib Routing DomainMatcher

/-- The loaded geosite entries. -/
abbrev Geosite := AList fun _ : Str => DomainMatcher

/-- Marks a geosite entry in the filter list. -/
def geositePrefix : Str := "geosite:".toList

/-- One turn of the loop in `Engine::build`. -/
def loadGeosite (geosite : Geosite) (filter : DomainMatcher) (pattern : Str) : DomainMatcher :=
  match pattern.dropPrefix? geositePrefix with
  | some name =>
    match geosite.lookup name with
    | some m => m -- assigned, not merged
    | none => filter
  | none => filter

/-- `Engine::build`: the filter it hands to `DnsEngine::new`. -/
def geositeFilter (geosite : Geosite) (patterns : List Str) : DomainMatcher :=
  patterns.foldl (loadGeosite geosite) {}

/-- One turn of the loop in `DnsEngine::new`. -/
def addPattern (filter : DomainMatcher) (pattern : Str) : DomainMatcher :=
  if geositePrefix.isPrefixOf pattern then filter else filter.addDomainLine pattern

/-- `DnsEngine::new`: the plain patterns on top of the filter it is given. -/
def foldPatterns (filter : DomainMatcher) (patterns : List Str) : DomainMatcher :=
  patterns.foldl addPattern filter

/-- The fake-ip filter the engine runs with. -/
def fakeIpFilter (geosite : Geosite) (patterns : List Str) : DomainMatcher :=
  foldPatterns (geositeFilter geosite patterns) patterns

/-! ## The entries of a filter list -/

/-- A domain name as a pattern holds it. -/
structure PatternDomain where
  name : Str
  ne_nil : name ≠ []
  noSpace : ∀ c ∈ name, Str.isWhitespace c = false
  noStar : '*' ∉ name
  noColon : ':' ∉ name
  start : ∀ c ∈ name.head?, c ≠ '.' ∧ c ≠ '+' ∧ c ≠ '#'

inductive FilterEntry where
  | geosite (name : Str)
  /-- `d`. -/
  | exact (d : PatternDomain)
  /-- `+.d`. -/
  | plusDot (d : PatternDomain)
  /-- `.d`. -/
  | dot (d : PatternDomain)
  /-- `*.d`. -/
  | starDot (d : PatternDomain)

namespace FilterEntry

/-- The entry as it stands in the configuration. -/
def pattern : FilterEntry → Str
  | geosite name => geositePrefix ++ name
  | exact d => d.name
  | plusDot d => '+' :: '.' :: d.name
  | dot d => '.' :: d.name
  | starDot d => '*' :: '.' :: d.name

/-- The matcher a geosite entry names. -/
def matcher (sites : Geosite) : FilterEntry → Option DomainMatcher
  | geosite name => sites.lookup name
  | _ => none

/-- The domains a plain pattern accepts, whatever the case of their letters. -/
def PlainAccepts (domain : Str) : FilterEntry → Prop
  | geosite _ => False
  | exact d => Str.asciiLower domain = Str.asciiLower d.name
  | plusDot d | dot d | starDot d =>
    Str.asciiLower domain = Str.asciiLower d.name ∨
      '.' :: Str.asciiLower d.name <:+ Str.asciiLower domain

/-- The domains an entry accepts. -/
def Accepts (re : Regex) (sites : Geosite) (domain : Str) (e : FilterEntry) : Prop :=
  (∃ m ∈ e.matcher sites, m.matchesDomain re domain = true) ∨ e.PlainAccepts domain

end FilterEntry

/-! ## A plain pattern adds what it accepts -/

namespace PatternDomain

variable (d : PatternDomain)

theorem trim_append {s : Str} (h : s.head?.any Str.isWhitespace = false) :
    Str.trim (s ++ d.name) = s ++ d.name := by
  apply Str.trim_eq_self
  · cases s with
    | nil =>
      rw [List.nil_append]
      obtain ⟨c, cs, hc⟩ := List.exists_cons_of_ne_nil d.ne_nil
      simpa [hc] using d.noSpace c (by simp [hc])
    | cons c cs => simpa using h
  · rw [List.getLast?_append_of_ne_nil _ d.ne_nil, List.getLast?_eq_some_getLast d.ne_nil]
    simpa using d.noSpace _ (List.getLast_mem d.ne_nil)

theorem lower_ne_nil : Str.asciiLower d.name ≠ [] :=
  mt Str.asciiLower_eq_nil.mp d.ne_nil

theorem star_notMem_lower : '*' ∉ Str.asciiLower d.name := fun h =>
  d.noStar (Str.mem_of_mem_asciiLower (by decide) h)

theorem not_geositePrefix : ¬ geositePrefix <+: d.name := fun h =>
  d.noColon (h.subset (by decide))

theorem suffixAccepts_lower {t : Str} :
    SuffixAccepts (Str.asciiLower d.name) t ↔
      t = Str.asciiLower d.name ∨ '.' :: Str.asciiLower d.name <:+ t := by
  have hs : Str.asciiLower d.name ≠ ['*'] := fun h => d.star_notMem_lower (by simp [h])
  simp [SuffixAccepts, hs]

end PatternDomain

namespace FilterEntry

variable (re : Regex) (m : DomainMatcher) (domain : Str)

theorem matchesDomain_addDomainLine_exact (d : PatternDomain) :
    (m.addDomainLine d.name).matchesDomain re domain = true ↔
      m.matchesDomain re domain = true ∨ Str.asciiLower domain = Str.asciiLower d.name := by
  have ht : Str.trim d.name = d.name := d.trim_append (s := []) rfl
  obtain ⟨c, cs, hc⟩ := List.exists_cons_of_ne_nil d.lower_ne_nil
  have hstart : ∀ x : Char, x.isAlpha = false → c = x → d.name.head? = some x := fun x hx e =>
    Str.head?_of_head?_asciiLower hx (by simp [hc, e])
  have hne : c ≠ '.' ∧ c ≠ '+' ∧ c ≠ '#' := by
    refine ⟨?_, ?_, ?_⟩ <;> intro e
    · exact (d.start _ (hstart _ (by decide) e)).1 rfl
    · exact (d.start _ (hstart _ (by decide) e)).2.1 rfl
    · exact (d.start _ (hstart _ (by decide) e)).2.2 rfl
  have hstar := d.star_notMem_lower
  rw [hc] at hstar
  rw [← matchesDomain_exact, hc]
  simp [addDomainLine, ht, hc, hne, hstar]

/-- The two characters before the name are kept by `trim` and by the lower-casing. -/
theorem addDomainLine_suffix (d : PatternDomain) :
    (m.addDomainLine ('+' :: '.' :: d.name) =
        { m with suffix := m.suffix ++ [Str.asciiLower d.name] }) ∧
      (m.addDomainLine ('.' :: d.name) =
        { m with suffix := m.suffix ++ [Str.asciiLower d.name] }) ∧
      m.addDomainLine ('*' :: '.' :: d.name) =
        { m with suffix := m.suffix ++ [Str.asciiLower d.name] } := by
  have hplus : Str.trim ('+' :: '.' :: d.name) = _ := d.trim_append (s := ['+', '.']) rfl
  have hdot : Str.trim ('.' :: d.name) = _ := d.trim_append (s := ['.']) rfl
  have hstar : Str.trim ('*' :: '.' :: d.name) = _ := d.trim_append (s := ['*', '.']) rfl
  have hl : '+'.toLower = '+' ∧ '.'.toLower = '.' ∧ '*'.toLower = '*' := by decide
  refine ⟨?_, ?_, ?_⟩
  · simp [addDomainLine, hplus, hl]
  · simp [addDomainLine, hdot, hl]
  · simp [addDomainLine, hstar, hl]

/-- No plain pattern starts as a geosite entry does. -/
theorem isPrefixOf_pattern (e : FilterEntry) :
    geositePrefix.isPrefixOf e.pattern = (e matches .geosite _) := by
  cases e with
  | geosite name => simp [pattern]
  | exact d =>
    rw [← Bool.not_eq_true, List.isPrefixOf_iff_prefix]
    exact d.not_geositePrefix
  | plusDot d => rfl
  | dot d => rfl
  | starDot d => rfl

theorem matchesDomain_addPattern (e : FilterEntry) :
    (addPattern m e.pattern).matchesDomain re domain = true ↔
      m.matchesDomain re domain = true ∨ e.PlainAccepts domain := by
  unfold addPattern
  rw [isPrefixOf_pattern]
  cases e with
  | geosite name => simp [PlainAccepts]
  | exact d => simpa [PlainAccepts, pattern] using matchesDomain_addDomainLine_exact re m domain d
  | plusDot d =>
    simp only [pattern, (addDomainLine_suffix m d).1]
    simp [PlainAccepts, matchesDomain_suffix, d.suffixAccepts_lower]
  | dot d =>
    simp only [pattern, (addDomainLine_suffix m d).2.1]
    simp [PlainAccepts, matchesDomain_suffix, d.suffixAccepts_lower]
  | starDot d =>
    simp only [pattern, (addDomainLine_suffix m d).2.2]
    simp [PlainAccepts, matchesDomain_suffix, d.suffixAccepts_lower]

theorem matchesDomain_foldPatterns (es : List FilterEntry) :
    (foldPatterns m (es.map pattern)).matchesDomain re domain = true ↔
      m.matchesDomain re domain = true ∨ ∃ e ∈ es, e.PlainAccepts domain := by
  unfold foldPatterns
  induction es generalizing m with
  | nil => simp
  | cons e es ih =>
    rw [List.map_cons, List.foldl_cons, ih, matchesDomain_addPattern]
    simp [or_assoc]

/-! ## A geosite entry replaces the filter -/

variable (sites : Geosite)

theorem dropPrefix?_pattern (e : FilterEntry) :
    e.pattern.dropPrefix? geositePrefix =
      match e with
      | .geosite name => some name
      | _ => none := by
  cases e with
  | geosite name => exact List.dropPrefix?_append_of_beq name BEq.rfl
  | exact d =>
    rw [Option.eq_none_iff_forall_ne_some]
    intro rest h
    obtain ⟨p, hp, hb⟩ := List.dropPrefix?_eq_some_iff.mp h
    rw [eq_of_beq hb] at hp
    exact d.not_geositePrefix ⟨rest, hp.symm⟩
  | plusDot d => rfl
  | dot d => rfl
  | starDot d => rfl

theorem loadGeosite_pattern (e : FilterEntry) :
    loadGeosite sites m e.pattern = (e.matcher sites).getD m := by
  unfold loadGeosite
  rw [dropPrefix?_pattern]
  cases e with
  | geosite name => cases h : sites.lookup name <;> simp [matcher, h]
  | exact d => rfl
  | plusDot d => rfl
  | dot d => rfl
  | starDot d => rfl

theorem foldl_loadGeosite (es : List FilterEntry) :
    (es.map pattern).foldl (loadGeosite sites) m =
      (es.filterMap (matcher sites)).getLastD m := by
  induction es generalizing m with
  | nil => rfl
  | cons e es ih =>
    rw [List.map_cons, List.foldl_cons, ih, loadGeosite_pattern, List.filterMap_cons]
    cases e.matcher sites with
    | none => rfl
    | some m' => exact List.getLastD_cons.symm

end FilterEntry

/-! ## The filter and its entries -/

open FilterEntry

section
variable (re : Regex) (sites : Geosite) (es : List FilterEntry)

/-- The matchers of the geosite entries, in the order of the list. -/
def matchers : List DomainMatcher := es.filterMap (matcher sites)

/-- A plain pattern of the list accepts the domain. -/
def PlainMatch (domain : Str) : Prop := ∃ e ∈ es, e.PlainAccepts domain

/-- The filter accepts what some entry accepts, and nothing else. -/
def IsUnion : Prop :=
  ∀ domain, (fakeIpFilter sites (es.map pattern)).matchesDomain re domain = true ↔
    ∃ e ∈ es, e.Accepts re sites domain

/-- What `m` accepts is accepted by `m'` or by a plain pattern. -/
def Covers (m' m : DomainMatcher) : Prop :=
  ∀ domain, m.matchesDomain re domain = true →
    m'.matchesDomain re domain = true ∨ PlainMatch es domain

theorem matchesDomain_fakeIpFilter (domain : Str) :
    (fakeIpFilter sites (es.map pattern)).matchesDomain re domain = true ↔
      (∃ m ∈ (matchers sites es).getLast?, m.matchesDomain re domain = true) ∨
        PlainMatch es domain := by
  unfold fakeIpFilter geositeFilter
  rw [matchesDomain_foldPatterns, foldl_loadGeosite, List.getLastD_eq_getLast?]
  unfold matchers PlainMatch
  cases (es.filterMap (matcher sites)).getLast? <;> simp

theorem exists_accepts_iff (domain : Str) :
    (∃ e ∈ es, e.Accepts re sites domain) ↔
      (∃ m ∈ matchers sites es, m.matchesDomain re domain = true) ∨ PlainMatch es domain := by
  simp only [Accepts, and_or_left, exists_or, matchers, PlainMatch, List.mem_filterMap]
  refine or_congr_left ?_
  constructor
  · rintro ⟨e, he, m, hm, h⟩
    exact ⟨m, ⟨e, he, hm⟩, h⟩
  · rintro ⟨m, ⟨e, he, hm⟩, h⟩
    exact ⟨e, he, m, hm, h⟩

theorem union_iff_last :
    IsUnion re sites es ↔
      ∀ last ∈ (matchers sites es).getLast?, ∀ m ∈ matchers sites es, Covers re es last m := by
  simp only [IsUnion, matchesDomain_fakeIpFilter, exists_accepts_iff]
  constructor
  · intro h last hlast m hm domain hd
    rcases (h domain).mpr (Or.inl ⟨m, hm, hd⟩) with ⟨m', hm', hd'⟩ | hp
    · rw [Option.mem_unique hm' hlast] at hd'
      exact Or.inl hd'
    · exact Or.inr hp
  · intro h domain
    constructor
    · rintro (⟨m, hm, hd⟩ | hp)
      · exact Or.inl ⟨m, List.mem_of_getLast? hm, hd⟩
      · exact Or.inr hp
    · rintro (⟨m, hm, hd⟩ | hp)
      · have hlast := List.getLast?_eq_some_getLast (List.ne_nil_of_mem hm)
        rcases h _ hlast m hm domain hd with hd' | hp
        · exact Or.inl ⟨_, hlast, hd'⟩
        · exact Or.inr hp
      · exact Or.inr hp

theorem covers_perm {l : List FilterEntry} (hl : l.Perm es) (m' m : DomainMatcher) :
    Covers re l m' m ↔ Covers re es m' m := by
  simp only [Covers, PlainMatch, hl.mem_iff]

theorem matchers_perm {l : List FilterEntry} (hl : l.Perm es) (m : DomainMatcher) :
    m ∈ matchers sites l ↔ m ∈ matchers sites es :=
  (hl.filterMap _).mem_iff

/-- Some order of the list has the entry of `m` last. -/
theorem exists_perm_getLast? {m : DomainMatcher} (hm : m ∈ matchers sites es) :
    ∃ l, l.Perm es ∧ (matchers sites l).getLast? = some m := by
  obtain ⟨e, he, hem⟩ := List.mem_filterMap.mp hm
  obtain ⟨s, t, rfl⟩ := List.append_of_mem he
  refine ⟨s ++ t ++ [e], ?_, by simp [matchers, hem]⟩
  rw [List.append_assoc]
  exact (List.perm_append_singleton e t).append_left s

/-- The filter is the union of its entries exactly when the last geosite entry covers the
    other ones up to the plain patterns; it is so in every order of the list exactly when
    any two geosite entries accept the same domains up to the plain patterns. -/
theorem filter_union_iff :
    (IsUnion re sites es ↔
      ∀ last ∈ (matchers sites es).getLast?, ∀ m ∈ matchers sites es, Covers re es last m) ∧
    ((∀ l : List FilterEntry, l.Perm es → IsUnion re sites l) ↔
      ∀ m' ∈ matchers sites es, ∀ m ∈ matchers sites es, Covers re es m' m) := by
  refine ⟨union_iff_last re sites es, ?_⟩
  constructor
  · intro h m' hm' m hm
    obtain ⟨l, hl, hlast⟩ := exists_perm_getLast? sites es hm'
    have hu := (union_iff_last re sites l).mp (h l hl) m' hlast m
    rw [matchers_perm sites es hl, covers_perm re es hl] at hu
    exact hu hm
  · intro h l hl
    rw [union_iff_last]
    intro last hlast m hm
    rw [covers_perm re es hl]
    have hlast := (matchers_perm sites es hl last).mp (List.mem_of_getLast? hlast)
    exact h last hlast m ((matchers_perm sites es hl m).mp hm)

end

/-- Two geosite entries, the second without the domain of the first. -/
def sampleSites : Geosite :=
  ((∅ : Geosite).insert "private".toList { suffix := ["lan".toList] }).insert "cn".toList
    { suffix := ["cn".toList] }

/-- `nas.lan` is accepted by `geosite:private`, and the filter has lost it. -/
theorem earlierGeosite_lost :
    ¬ IsUnion ⟨fun _ => .ok (), fun _ _ => false⟩ sampleSites
      [.geosite "private".toList, .geosite "cn".toList] := by
  intro h
  have hlan := (h "nas.lan".toList).mpr
    ⟨.geosite "private".toList, by simp, Or.inl ⟨{ suffix := ["lan".toList] }, rfl, rfl⟩⟩
  exact absurd hlan (by decide)

end RustCrash.Dns
