import RustCrash.Routing.Geosite

/-
  geosite.dat files and what the reader makes of them.

  * `FileEncodes`: the bytes of a list of entries, with fields of other numbers anywhere
    between the fields of each of the three levels.
  * `parseGeosite_encodes`: on such bytes the reader stores the domains one by one.
  * `decodes_iff`: when the matchers accept what the domains of a code accept.
-/

namespace RustCrash.Routing.Geosite

open Lib Lib.Protobuf

/-! ## The bytes of a file -/

/-- The number of a type in the schema. -/
def DomainType.number : DomainType → UInt64
  | plain => 0
  | regex => 1
  | domain => 2
  | full => 3

@[simp] theorem DomainType.fromVarint_number (t : DomainType) :
    DomainType.fromVarint t.number = some t := by cases t <;> rfl

/-- A domain of an entry. -/
structure GeoDomain where
  kind : DomainType
  value : Str
  ne_nil : value ≠ []

/-- A code and its domains. -/
structure GeoEntry where
  code : Str
  domains : List GeoDomain

namespace GeoDomain

variable (d : GeoDomain)

def typeField : Field := { number := 1, value := .varint d.kind.number }

def valueField : Field := { number := 2, value := .len (utf8 d.value) }

/-- A Domain message: its two fields in either order. A plain type may be left out. -/
def Encodes (bs : Bytes) : Prop :=
  ∃ known, (known = [d.typeField, d.valueField] ∨ known = [d.valueField, d.typeField] ∨
    d.kind = .plain ∧ known = [d.valueField]) ∧ MessageOf [1, 2] known bs

end GeoDomain

/-- A GeoSite message: the code before the domains. -/
def GeoEntry.Encodes (e : GeoEntry) (bs : Bytes) : Prop :=
  ∃ domains, List.Forall₂ GeoDomain.Encodes e.domains domains ∧
    MessageOf [1, 2] ({ number := 1, value := .len (utf8 e.code) } ::
      domains.map fun domain => { number := 2, value := .len domain }) bs

/-- A GeoSiteList message. -/
def FileEncodes (entries : List GeoEntry) (bs : Bytes) : Prop :=
  ∃ messages, List.Forall₂ GeoEntry.Encodes entries messages ∧
    MessageOf [1] (messages.map fun entry => { number := 1, value := .len entry }) bs

/-! ## Reading them -/

theorem lenField_encodes {badLength overruns : String} {payload size : Bytes}
    (h : Varint payload.length size) (rest : Bytes) :
    lenField badLength overruns (size ++ (payload ++ rest)) = .ok (payload, rest) := by
  obtain ⟨len, hlen, htake⟩ := Value.read_len h rest
  simp [lenField, hlen, htake]

theorem skipUnknown_encodes {v : Value} {bs : Bytes} (h : v.Encodes bs) (level : String)
    (number : UInt32) (rest : Bytes) : skipUnknown level number v.wire (bs ++ rest) = .ok rest := by
  rw [skipUnknown, h.skip, okOr_some]

section
variable (f : Field)

theorem domainReader_other (hf : f.number ∉ [1, 2]) : domainReader.Does f .ok := by
  intro s bs rest h
  show readDomainField _ _ _ _ = _
  unfold readDomainField
  rw [f.toNat_number]
  split
  · simp_all
  · simp_all
  · rw [skipUnknown_encodes h]
    rfl

theorem entryReader_other (re : Regex) (hf : f.number ∉ [1, 2]) : (entryReader re).Does f .ok := by
  intro s bs rest h
  show readEntryField _ _ _ _ _ = _
  unfold readEntryField
  rw [f.toNat_number]
  split
  · simp_all
  · simp_all
  · rw [skipUnknown_encodes h]
    rfl

theorem topReader_other (re : Regex) (hf : f.number ∉ [1]) : (topReader re).Does f .ok := by
  intro s bs rest h
  show readTopField _ _ _ _ _ = _
  unfold readTopField
  rw [f.toNat_number]
  split
  · simp_all
  · rw [skipUnknown_encodes h]
    rfl

end

theorem domainReader_type (d : GeoDomain) :
    domainReader.Does d.typeField fun s =>
      .ok { s with dtypeSeen := true, dtype := some d.kind } := by
  intro s bs rest h
  obtain ⟨h⟩ := h
  show readDomainField s 1 0 _ = _
  simp [readDomainField, h.read, Except.map]

theorem domainReader_value (d : GeoDomain) :
    domainReader.Does d.valueField fun s => .ok { s with value := Str.asciiLower d.value } := by
  intro s bs rest h
  cases h with
  | len h =>
    show readDomainField s 2 2 _ = _
    simp [readDomainField, lenField_encodes h, fromUtf8_utf8, Except.map]

/-- The order of the two fields does not matter. -/
theorem parseDomain_encodes {d : GeoDomain} {bs : Bytes} (h : d.Encodes bs) :
    parseDomain bs = .ok (some (d.kind, Str.asciiLower d.value)) := by
  obtain ⟨known, hknown, hmsg⟩ := h
  have htype := domainReader_type d
  have hvalue := domainReader_value d
  unfold parseDomain
  rcases hknown with rfl | rfl | ⟨hplain, rfl⟩
  · rw [domainReader.readMessage_of _ domainReader_other (.cons htype (.cons hvalue .nil)) hmsg]
    simp
  · rw [domainReader.readMessage_of _ domainReader_other (.cons hvalue (.cons htype .nil)) hmsg]
    simp
  · rw [domainReader.readMessage_of _ domainReader_other (.cons hvalue .nil) hmsg]
    simp [hplain]

section
variable (re : Regex)

theorem entryReader_code (code : Str) :
    (entryReader re).Does { number := 1, value := .len (utf8 code) } fun s =>
      .ok { s with code := some (Str.asciiLower code) } := by
  intro s bs rest h
  cases h with
  | len h =>
    show readEntryField re s 1 2 _ = _
    simp [readEntryField, lenField_encodes h, fromUtf8_utf8, Except.map]

/-- A domain goes to the code read before it. -/
def storeDomain (d : GeoDomain) (s : EntryState) : Result EntryState := do
  let code ← okOr s.code (.config "geosite.dat: domain before code")
  let out ← addDomain re s.out code d.kind (Str.asciiLower d.value)
  return { s with out := out }

theorem entryReader_domain {d : GeoDomain} {domain : Bytes} (hd : d.Encodes domain) :
    (entryReader re).Does { number := 2, value := .len domain } (storeDomain re d) := by
  intro s bs rest h
  cases h with
  | len h =>
    have hne : Str.asciiLower d.value ≠ [] := mt Str.asciiLower_eq_nil.mp d.ne_nil
    show readEntryField re s 2 2 _ = _
    unfold readEntryField storeDomain
    cases hcode : s.code with
    | none => simp [lenField_encodes h, Except.map]
    | some code =>
      cases hadd : addDomain re s.out code d.kind (Str.asciiLower d.value) <;>
        simp [lenField_encodes h, parseDomain_encodes hd, Option.filter, hne, hadd, Except.map]

/-- Stores one domain of a file. -/
def store (out : Sites) (p : Str × GeoDomain) : Result Sites :=
  addDomain re out (Str.asciiLower p.1) p.2.kind (Str.asciiLower p.2.value)

/-- The domains of an entry, each with the code. -/
def GeoEntry.pairs (e : GeoEntry) : List (Str × GeoDomain) := e.domains.map fun d => (e.code, d)

theorem foldlM_storeDomain (e : GeoEntry) (out : Sites) :
    (e.domains.map (storeDomain re)).foldlM (fun s effect => effect s)
        (⟨some (Str.asciiLower e.code), out⟩ : EntryState) =
      (e.pairs.foldlM (store re) out).map fun out => ⟨some (Str.asciiLower e.code), out⟩ := by
  obtain ⟨code, domains⟩ := e
  unfold GeoEntry.pairs
  dsimp only
  induction domains generalizing out with
  | nil => rfl
  | cons d ds ih =>
    simp only [List.map_cons, List.foldlM_cons, storeDomain, store, okOr_some, bind_ok, pure_eq]
    cases addDomain re out (Str.asciiLower code) d.kind (Str.asciiLower d.value) with
    | error err => rfl
    | ok out' => exact ih out'

theorem parseEntry_encodes {e : GeoEntry} {bs : Bytes} (h : e.Encodes bs) (out : Sites) :
    parseEntry re bs out = e.pairs.foldlM (store re) out := by
  obtain ⟨domains, hdomains, hmsg⟩ := h
  have hfields : List.Forall₂ (entryReader re).Does
      (domains.map fun domain => { number := 2, value := .len domain })
      (e.domains.map (storeDomain re)) := by
    rw [List.forall₂_map_left_iff, List.forall₂_map_right_iff]
    exact hdomains.flip.imp fun _ _ hd => entryReader_domain re hd
  unfold parseEntry
  rw [(entryReader re).readMessage_of _ (fun f => entryReader_other f re)
    (.cons (entryReader_code re e.code) hfields) hmsg, List.foldlM_cons]
  simp only [bind_ok, foldlM_storeDomain]
  cases e.pairs.foldlM (store re) out <;> rfl

theorem topReader_entry {e : GeoEntry} {entry : Bytes} (he : e.Encodes entry) :
    (topReader re).Does { number := 1, value := .len entry } fun out =>
      e.pairs.foldlM (store re) out := by
  intro out bs rest h
  cases h with
  | len h =>
    show readTopField re out 1 2 _ = _
    unfold readTopField
    cases hstore : e.pairs.foldlM (store re) out <;>
      simp [lenField_encodes h, parseEntry_encodes re he, hstore, Except.map]

/-- The domains of a file in their order, each with its code. -/
def filePairs (entries : List GeoEntry) : List (Str × GeoDomain) := entries.flatMap GeoEntry.pairs

theorem foldlM_entries (entries : List GeoEntry) (out : Sites) :
    (entries.map fun e out => e.pairs.foldlM (store re) out).foldlM (fun s effect => effect s) out =
      (filePairs entries).foldlM (store re) out := by
  induction entries generalizing out with
  | nil => rfl
  | cons e es ih =>
    rw [List.map_cons, List.foldlM_cons, filePairs, List.flatMap_cons, List.foldlM_append]
    exact bind_congr fun out' => ih out'

theorem parseGeosite_encodes {entries : List GeoEntry} {data : Bytes}
    (h : FileEncodes entries data) :
    parseGeosite re data = (filePairs entries).foldlM (store re) ∅ := by
  obtain ⟨messages, hmessages, hmsg⟩ := h
  have hfields : List.Forall₂ (topReader re).Does
      (messages.map fun entry => { number := 1, value := .len entry })
      (entries.map fun e out => e.pairs.foldlM (store re) out) := by
    rw [List.forall₂_map_left_iff, List.forall₂_map_right_iff]
    exact hmessages.flip.imp fun _ _ he => topReader_entry re he
  unfold parseGeosite
  rw [(topReader re).readMessage_of _ (fun f => topReader_other f re) hfields hmsg,
    foldlM_entries]

end

/-! ## What a stored domain accepts -/

open DomainMatcher

namespace GeoDomain

variable (re : Regex) (d : GeoDomain)

/-- The value as it stands in the matcher. -/
def stored : Str :=
  match d.kind with
  | .plain | .regex => Str.asciiLower d.value
  | .domain => Str.asciiLower (Str.trimStartMatches '.' (Str.trim d.value))
  | .full => Str.asciiLower (Str.trim d.value)

/-- The domains that are accepted for the stored value. -/
def Kept (domain : Str) : Prop :=
  match d.kind with
  | .plain => d.stored <:+: Str.asciiLower domain
  | .regex => re.isMatch d.stored (Str.asciiLower domain) = true
  | .domain => SuffixAccepts d.stored (Str.asciiLower domain)
  | .full => Str.asciiLower domain = d.stored

/-- A regex compiles as it is stored. -/
def Compiles : Prop := d.kind = .regex → re.new d.stored = .ok ()

/-- The matcher with the stored value. -/
def put (m : DomainMatcher) : DomainMatcher :=
  match d.kind with
  | .plain => { m with keyword := m.keyword ++ [d.stored] }
  | .regex => { m with regex := m.regex ++ [d.stored] }
  | .domain => { m with suffix := m.suffix ++ [d.stored] }
  | .full => { m with exact := d.stored :: m.exact }

theorem matchesDomain_put (m : DomainMatcher) (domain : Str) :
    (d.put m).matchesDomain re domain = true ↔
      m.matchesDomain re domain = true ∨ d.Kept re domain := by
  unfold put Kept
  cases d.kind with
  | plain => exact matchesDomain_keyword re m domain _
  | regex => exact matchesDomain_regex re m domain _
  | domain => exact matchesDomain_suffix re m domain _
  | full => exact matchesDomain_exact re m domain _

end GeoDomain

section
variable (re : Regex)

theorem store_eq_ok {out out' : Sites} {p : Str × GeoDomain} :
    store re out p = .ok out' ↔
      p.2.Compiles re ∧
        out.insert (Str.asciiLower p.1)
          (p.2.put ((out.lookup (Str.asciiLower p.1)).getD {})) = out' := by
  obtain ⟨code, kind, value, hne⟩ := p
  unfold store addDomain GeoDomain.Compiles GeoDomain.put GeoDomain.stored
  cases kind with
  | plain => simp [addKeyword, Str.asciiLower_asciiLower]
  | regex =>
    unfold addRegex
    cases re.new (Str.asciiLower value) <;> simp
  | domain =>
    simp [addSuffix, Str.trim_asciiLower, Str.trimStartMatches_asciiLower,
      Str.asciiLower_asciiLower]
  | full => simp [addExact, Str.trim_asciiLower, Str.asciiLower_asciiLower]

/-- The matcher of a code accepts the domain. -/
def SiteAccepts (out : Sites) (code domain : Str) : Prop :=
  ∃ m ∈ out.lookup code, m.matchesDomain re domain = true

theorem siteAccepts_insert (out : Sites) (d : GeoDomain) (c code domain : Str) :
    SiteAccepts re (out.insert c (d.put ((out.lookup c).getD {}))) code domain ↔
      SiteAccepts re out code domain ∨ c = code ∧ d.Kept re domain := by
  unfold SiteAccepts
  by_cases hc : code = c
  · subst hc
    rw [AList.lookup_insert]
    cases out.lookup code <;> simp [GeoDomain.matchesDomain_put]
  · rw [AList.lookup_insert_ne hc]
    simp [Ne.symm hc]

theorem foldlM_store {ps : List (Str × GeoDomain)} {out out' : Sites}
    (h : ps.foldlM (store re) out = .ok out') :
    (∀ p ∈ ps, p.2.Compiles re) ∧ ∀ code domain,
      SiteAccepts re out' code domain ↔ SiteAccepts re out code domain ∨
        ∃ p ∈ ps, Str.asciiLower p.1 = code ∧ p.2.Kept re domain := by
  induction ps generalizing out with
  | nil =>
    cases h
    simp
  | cons p ps ih =>
    rw [List.foldlM_cons] at h
    obtain ⟨mid, hp, h⟩ := bind_eq_ok.mp h
    obtain ⟨hcompiles, rfl⟩ := (store_eq_ok re).mp hp
    obtain ⟨hrest, haccepts⟩ := ih h
    refine ⟨List.forall_mem_cons.mpr ⟨hcompiles, hrest⟩, fun code domain => ?_⟩
    rw [haccepts, siteAccepts_insert, List.exists_mem_cons_iff, or_assoc]

theorem exists_foldlM_store {ps : List (Str × GeoDomain)} (h : ∀ p ∈ ps, p.2.Compiles re)
    (out : Sites) : ∃ out', ps.foldlM (store re) out = .ok out' := by
  induction ps generalizing out with
  | nil => exact ⟨out, rfl⟩
  | cons p ps ih =>
    obtain ⟨hp, hps⟩ := List.forall_mem_cons.mp h
    rw [List.foldlM_cons, (store_eq_ok re).mpr ⟨hp, rfl⟩]
    exact ih hps _

end

/-! ## What a file says -/

namespace GeoDomain

variable (re : Regex) (d : GeoDomain)

/-- The domains the value in the file accepts. Names are compared without case; a regex is
    the one in the file. -/
def Accepts (domain : Str) : Prop :=
  match d.kind with
  | .plain => Str.asciiLower d.value <:+: Str.asciiLower domain
  | .regex => re.isMatch d.value (Str.asciiLower domain) = true
  | .domain =>
    Str.asciiLower domain = Str.asciiLower d.value ∨
      '.' :: Str.asciiLower d.value <:+ Str.asciiLower domain
  | .full => Str.asciiLower domain = Str.asciiLower d.value

/-- The value changes on its way to the matcher: a regex with capitals, a name with white
    space around it, a suffix with leading dots, and the suffix `*`, which means every domain. -/
def Altered : Prop :=
  match d.kind with
  | .plain => False
  | .regex => Str.asciiLower d.value ≠ d.value
  | .domain => Str.trimStartMatches '.' (Str.trim d.value) ≠ d.value ∨ d.value = ['*']
  | .full => Str.trim d.value ≠ d.value

theorem lower_ne_star {v : Str} (h : v ≠ ['*']) : Str.asciiLower v ≠ ['*'] := by
  intro hl
  cases v with
  | nil => cases hl
  | cons c t =>
    rw [Str.asciiLower_cons, List.cons.injEq, Str.toLower_eq_iff (by decide),
      Str.asciiLower_eq_nil] at hl
    exact h (by rw [hl.1, hl.2])

theorem kept_iff_accepts (h : ¬ d.Altered) (domain : Str) :
    d.Kept re domain ↔ d.Accepts re domain := by
  unfold Altered at h
  unfold Kept Accepts stored
  cases hk : d.kind with
  | plain => rfl
  | regex =>
    rw [hk, not_not] at h
    simp [h]
  | domain =>
    rw [hk, not_or, not_not] at h
    simp [SuffixAccepts, h.1, lower_ne_star h.2]
  | full =>
    rw [hk, not_not] at h
    simp [h]

end GeoDomain

section
variable (re : Regex) (entries : List GeoEntry)

/-- Some domain of the code, in whichever of its entries, is as `P` says. -/
def Holds (code : Str) (P : GeoDomain → Prop) : Prop :=
  ∃ e ∈ entries, Str.eqIgnoreAsciiCase e.code code = true ∧ ∃ d ∈ e.domains, P d

/-- The file is read, and the matcher of each code accepts what the domains of the code do. -/
def Decodes (data : Bytes) : Prop :=
  ∃ out, parseGeosite re data = .ok out ∧ ∀ code domain,
    SiteAccepts re out (Str.asciiLower code) domain ↔
      Holds entries code (GeoDomain.Accepts re · domain)

/-- No altered value decides on its own: what its stored form accepts, some domain of the
    code accepts, and what it accepts itself, some stored form accepts. -/
def Harmless : Prop :=
  ∀ e ∈ entries, ∀ d ∈ e.domains, d.Altered → ∀ domain,
    (d.Kept re domain → Holds entries e.code (GeoDomain.Accepts re · domain)) ∧
    (d.Accepts re domain → Holds entries e.code (GeoDomain.Kept re · domain))

theorem holds_iff_pairs (code : Str) (P : GeoDomain → Prop) :
    Holds entries code P ↔
      ∃ p ∈ filePairs entries, Str.asciiLower p.1 = Str.asciiLower code ∧ P p.2 := by
  simp only [Holds, filePairs, GeoEntry.pairs, Str.eqIgnoreAsciiCase, beq_iff_eq,
    List.mem_flatMap, List.mem_map]
  constructor
  · rintro ⟨e, he, hcode, d, hd, hp⟩
    exact ⟨(e.code, d), ⟨e, he, d, hd, rfl⟩, hcode, hp⟩
  · rintro ⟨p, ⟨e, he, d, hd, rfl⟩, hcode, hp⟩
    exact ⟨e, he, hcode, d, hd, hp⟩

theorem forall_pairs (P : GeoDomain → Prop) :
    (∀ p ∈ filePairs entries, P p.2) ↔ ∀ e ∈ entries, ∀ d ∈ e.domains, P d := by
  simp only [filePairs, GeoEntry.pairs, List.mem_flatMap, List.mem_map]
  constructor
  · intro h e he d hd
    exact h (e.code, d) ⟨e, he, d, hd, rfl⟩
  · rintro h p ⟨e, he, d, hd, rfl⟩
    exact h e he d hd

theorem siteAccepts_empty (code domain : Str) : ¬ SiteAccepts re ∅ code domain := by
  rintro ⟨m, hm, -⟩
  cases hm

/-- The reader, by what it stores. -/
theorem decodes_iff_kept {data : Bytes} (h : FileEncodes entries data) :
    Decodes re entries data ↔
      (∀ e ∈ entries, ∀ d ∈ e.domains, d.Compiles re) ∧ ∀ code domain,
        Holds entries code (GeoDomain.Kept re · domain) ↔
          Holds entries code (GeoDomain.Accepts re · domain) := by
  unfold Decodes
  rw [parseGeosite_encodes re h, ← forall_pairs]
  constructor
  · rintro ⟨out, hout, haccepts⟩
    obtain ⟨hcompiles, hkept⟩ := foldlM_store re hout
    refine ⟨hcompiles, fun code domain => ?_⟩
    rw [← haccepts, hkept, holds_iff_pairs]
    simp [siteAccepts_empty]
  · rintro ⟨hcompiles, hsame⟩
    obtain ⟨out, hout⟩ := exists_foldlM_store re hcompiles ∅
    refine ⟨out, hout, fun code domain => ?_⟩
    rw [← hsame, (foldlM_store re hout).2, holds_iff_pairs]
    simp [siteAccepts_empty]

theorem Holds.of_imp {code : Str} {P Q : GeoDomain → Prop} (h : Holds entries code P)
    (himp : ∀ e ∈ entries, ∀ d ∈ e.domains, P d → Q d ∨ Holds entries e.code Q) :
    Holds entries code Q := by
  obtain ⟨e, he, hcode, d, hd, hp⟩ := h
  rcases himp e he d hd hp with hq | ⟨e', he', hcode', d', hd', hq⟩
  · exact ⟨e, he, hcode, d, hd, hq⟩
  · refine ⟨e', he', ?_, d', hd', hq⟩
    simp only [Str.eqIgnoreAsciiCase, beq_iff_eq] at hcode hcode' ⊢
    rw [hcode', hcode]

/-- A file is decoded exactly when every regex compiles without its capitals and no value
    that is altered decides on its own. -/
theorem decodes_iff {data : Bytes} (h : FileEncodes entries data) :
    Decodes re entries data ↔
      (∀ e ∈ entries, ∀ d ∈ e.domains, d.Compiles re) ∧ Harmless re entries := by
  rw [decodes_iff_kept re entries h]
  refine and_congr_right fun _ => ?_
  constructor
  · intro hsame e he d hd _ domain
    have hself : Str.eqIgnoreAsciiCase e.code e.code = true := by simp [Str.eqIgnoreAsciiCase]
    exact ⟨fun hkept => (hsame e.code domain).mp ⟨e, he, hself, d, hd, hkept⟩,
      fun hacc => (hsame e.code domain).mpr ⟨e, he, hself, d, hd, hacc⟩⟩
  · intro hharm code domain
    constructor
    · intro hkept
      refine hkept.of_imp entries fun e he d hd hk => ?_
      by_cases ha : d.Altered
      · exact Or.inr ((hharm e he d hd ha domain).1 hk)
      · exact Or.inl ((d.kept_iff_accepts re ha domain).mp hk)
    · intro hacc
      refine hacc.of_imp entries fun e he d hd hk => ?_
      by_cases ha : d.Altered
      · exact Or.inr ((hharm e he d hd ha domain).2 hk)
      · exact Or.inl ((d.kept_iff_accepts re ha domain).mpr hk)

end

/-! ## A file with one domain -/

/-- The domain with the value `\D`, of any type. -/
def sampleDomain (kind : DomainType) : GeoDomain := ⟨kind, "\\D".toList, by decide⟩

def sampleEntries (kind : DomainType) : List GeoEntry := [⟨"cn".toList, [sampleDomain kind]⟩]

/-- The domain; behind its value stands an empty attribute (field 3). -/
def sampleMessage (kind : DomainType) : Bytes :=
  [0x08, kind.number.toUInt8, 0x12, 0x02, 0x5C, 0x44, 0x1A, 0x00]

/-- The code `cn` and the domain. -/
def sampleEntry (kind : DomainType) : Bytes :=
  [0x0A, 0x02, 0x63, 0x6E, 0x12, 0x08] ++ sampleMessage kind

def sampleFile (kind : DomainType) : Bytes := [0x0A, 0x0E] ++ sampleEntry kind

theorem sampleMessage_encodes (kind : DomainType) :
    (sampleDomain kind).Encodes (sampleMessage kind) := by
  have hkind : (sampleDomain kind).typeField.value.Encodes [kind.number.toUInt8] := by
    refine .varint (.single ?_ ?_)
    · cases kind <;> decide
    · cases kind <;> rfl
  have hattribute := Encodes.cons_byte { number := 3, value := .len [] } 0x1A (by decide) rfl
    (Value.Encodes.len_byte [] 0x00 (by decide) rfl) .nil
  have hvalue := Encodes.cons_byte (sampleDomain kind).valueField 0x12 (by decide) rfl
    (Value.Encodes.len_byte (utf8 "\\D".toList) 0x02 (by decide) rfl) hattribute
  exact ⟨_, .inl rfl, _, .cons_byte (sampleDomain kind).typeField 0x08 (by decide) rfl hkind hvalue,
    rfl⟩

theorem sampleFile_encodes (kind : DomainType) :
    FileEncodes (sampleEntries kind) (sampleFile kind) := by
  have hdomain := Encodes.cons_byte { number := 2, value := .len (sampleMessage kind) } 0x12
    (by decide) rfl (Value.Encodes.len_byte (sampleMessage kind) 0x08 (by decide) rfl) .nil
  have hcode := Encodes.cons_byte { number := 1, value := .len (utf8 "cn".toList) } 0x0A
    (by decide) rfl (Value.Encodes.len_byte (utf8 "cn".toList) 0x02 (by decide) rfl) hdomain
  have hentry := Encodes.cons_byte { number := 1, value := .len (sampleEntry kind) } 0x0A
    (by decide) rfl (Value.Encodes.len_byte (sampleEntry kind) 0x0E (by decide) rfl) .nil
  exact ⟨_, .cons ⟨_, .cons (sampleMessage_encodes kind) .nil, messageOf_self hcode (by simp)⟩ .nil,
    messageOf_self hentry (by simp)⟩

/-- The `regex` crate on the two patterns of a digit and of any other character. -/
def digitRegex : Regex where
  new _ := .ok ()
  isMatch pattern text :=
    if pattern = "\\D".toList then text.any fun c => !c.isDigit
    else if pattern = "\\d".toList then text.any Char.isDigit
    else false

/-- The keyword `\D` is decoded. -/
theorem sampleKeyword_decoded :
    Decodes digitRegex (sampleEntries .plain) (sampleFile .plain) :=
  (decodes_iff digitRegex (sampleEntries .plain) (sampleFile_encodes .plain)).mpr
    ⟨by simp [sampleEntries, sampleDomain, GeoDomain.Compiles],
     by simp [Harmless, sampleEntries, sampleDomain, GeoDomain.Altered]⟩

/-- The regex `\D` accepts `cn`, and its matcher does not. -/
theorem sampleRegex_lost :
    FileEncodes (sampleEntries .regex) (sampleFile .regex) ∧
      ¬ Decodes digitRegex (sampleEntries .regex) (sampleFile .regex) := by
  refine ⟨sampleFile_encodes .regex, ?_⟩
  rw [decodes_iff_kept digitRegex _ (sampleFile_encodes .regex)]
  rintro ⟨-, h⟩
  have hstored : digitRegex.isMatch "\\D".toList "cn".toList = true := by decide
  obtain ⟨e, he, -, d, hd, hkept⟩ := (h "cn".toList "cn".toList).mpr
    ⟨_, List.mem_singleton_self _, by decide, _, List.mem_singleton_self _, hstored⟩
  cases List.mem_singleton.mp he
  cases List.mem_singleton.mp hd
  have hlost : digitRegex.isMatch "\\d".toList "cn".toList = true := hkept
  exact absurd hlost (by decide)

end RustCrash.Routing.Geosite
