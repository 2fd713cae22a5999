import RustCrash.Lib.Protobuf
import RustCrash.Routing.Matcher

/-
  The geosite.dat reader (`geosite.rs`): a list of entries, each a code and the domains
  that go by it, in three levels of protobuf messages.

  The cursor is the bytes it has not read: `Cursor::varint` is `uvarint`, `Cursor::bytes`
  is `takeLen`, and `field_header` and `skip_field` are the library's. A `usize` has 64 bits.
  The map is an association list.
-/

namespace RustCrash.Routing.Geosite

open Lib Lib.Protobuf

/-- Domain entry types in the v2ray schema. -/
inductive DomainType where
  | plain
  | regex
  | domain
  | full
  deriving DecidableEq, Repr

def DomainType.fromVarint (v : UInt64) : Option DomainType :=
  match v.toNat with
  | 0 => some .plain
  | 1 => some .regex
  | 2 => some .domain
  | 3 => some .full
  | _ => none

/-- A length-delimited value, with the errors of its two steps. -/
def lenField (badLength overruns : String) (bs : Bytes) : Result (Bytes × Bytes) := do
  let (len, rest) ← okOr (uvarint bs) (.config badLength)
  okOr (takeLen len.toNat rest) (.config overruns)

/-- A field this schema does not know, at the level `level`. -/
def skipUnknown (level : String) (field : UInt32) (wire : UInt8) (bs : Bytes) : Result Bytes :=
  okOr (skipField wire bs) (.config s!"geosite.dat: unreadable {level} field {field} wire {wire}")

theorem lenField_length_le {badLength overruns : String} {bs out rest : Bytes}
    (h : lenField badLength overruns bs = .ok (out, rest)) : rest.length ≤ bs.length := by
  obtain ⟨⟨len, mid⟩, hlen, h⟩ := bind_eq_ok.mp h
  exact (takeLen_length_le (okOr_eq_ok.mp h)).trans (uvarint_length_lt (okOr_eq_ok.mp hlen)).le

theorem skipUnknown_length_le {level : String} {field : UInt32} {wire : UInt8} {bs rest : Bytes}
    (h : skipUnknown level field wire bs = .ok rest) : rest.length ≤ bs.length :=
  skipField_length_le (okOr_eq_ok.mp h)

/-! ## Domains -/

/-- The locals of `parse_domain`. -/
structure DomainState where
  dtype : Option DomainType := none
  dtypeSeen : Bool := false
  value : Str := []

/-- One Domain field: 1 = type varint, 2 = value string. -/
def readDomainField (s : DomainState) (field : UInt32) (wire : UInt8) (bs : Bytes) :
    Result (DomainState × Bytes) :=
  match field.toNat, wire.toNat with
  | 1, 0 => do
    let (v, rest) ← okOr (uvarint bs) (.config "geosite.dat: bad type varint")
    return ({ s with dtypeSeen := true, dtype := DomainType.fromVarint v }, rest)
  | 2, 2 => do
    let (bytes, rest) ← lenField "geosite.dat: bad value length" "geosite.dat: value overruns" bs
    let value ← okOr (fromUtf8 bytes) (.config "geosite.dat: value not utf-8")
    return ({ s with value := Str.asciiLower value }, rest)
  | _, _ => do
    let rest ← skipUnknown "domain" field wire bs
    return (s, rest)

def domainReader : FieldReader DomainState Error where
  read := readDomainField
  keeps {s s' number wire bs rest} h := by
    unfold readDomainField at h
    split at h
    · obtain ⟨⟨v, mid⟩, hv, h⟩ := bind_eq_ok.mp h
      cases h
      exact (uvarint_length_lt (okOr_eq_ok.mp hv)).le
    · obtain ⟨⟨bytes, mid⟩, hlen, h⟩ := bind_eq_ok.mp h
      obtain ⟨value, -, h⟩ := bind_eq_ok.mp h
      cases h
      exact lenField_length_le hlen
    · obtain ⟨mid, hskip, h⟩ := bind_eq_ok.mp h
      cases h
      exact skipUnknown_length_le hskip

/-- One Domain message; none for a type value that is not known. -/
def parseDomain (domain : Bytes) : Result (Option (DomainType × Str)) := do
  let s ← domainReader.readMessage (.config "geosite.dat: truncated domain") {} domain
  return if s.dtypeSeen ∧ s.dtype = none then none else some (s.dtype.getD .plain, s.value)

/-! ## Entries -/

/-- The matchers of the codes. -/
abbrev Sites := AList fun _ : Str => DomainMatcher

/-- The domain goes to the matcher of its code, which is made if there is none. -/
def addDomain (re : Regex) (out : Sites) (code : Str) (dtype : DomainType) (value : Str) :
    Result Sites := do
  let matcher := (out.lookup code).getD {}
  let matcher ←
    match dtype with
    | .full => .ok (matcher.addExact value)
    | .domain => .ok (matcher.addSuffix value)
    | .plain => .ok (matcher.addKeyword value)
    | .regex => matcher.addRegex re value
  return out.insert code matcher

/-- The locals of `parse_entry`, and the map it fills. -/
structure EntryState where
  code : Option Str := none
  out : Sites

/-- One GeoSite field: 1 = code (string), 2 = Domain (message). -/
def readEntryField (re : Regex) (s : EntryState) (field : UInt32) (wire : UInt8) (bs : Bytes) :
    Result (EntryState × Bytes) :=
  match field.toNat, wire.toNat with
  | 1, 2 => do
    let (bytes, rest) ←
      lenField "geosite.dat: bad code length" "geosite.dat: code overruns entry" bs
    let code ← okOr (fromUtf8 bytes) (.config "geosite.dat: code not utf-8")
    return ({ s with code := some (Str.asciiLower code) }, rest)
  | 2, 2 => do
    let (domain, rest) ←
      lenField "geosite.dat: bad domain length" "geosite.dat: domain overruns entry" bs
    let code ← okOr s.code (.config "geosite.dat: domain before code")
    let parsed ← parseDomain domain
    -- a keyword without a value would match every domain
    match parsed.filter fun p => p.2 ≠ [] with
    | some (dtype, value) => do
      let out ← addDomain re s.out code dtype value
      return ({ s with out := out }, rest)
    | none => return (s, rest)
  | _, _ => do
    let rest ← skipUnknown "entry" field wire bs
    return (s, rest)

def entryReader (re : Regex) : FieldReader EntryState Error where
  read := readEntryField re
  keeps {s s' number wire bs rest} h := by
    unfold readEntryField at h
    split at h
    · obtain ⟨⟨bytes, mid⟩, hlen, h⟩ := bind_eq_ok.mp h
      obtain ⟨code, -, h⟩ := bind_eq_ok.mp h
      cases h
      exact lenField_length_le hlen
    · obtain ⟨⟨domain, mid⟩, hlen, h⟩ := bind_eq_ok.mp h
      obtain ⟨code, -, h⟩ := bind_eq_ok.mp h
      obtain ⟨parsed, -, h⟩ := bind_eq_ok.mp h
      split at h
      · obtain ⟨out, -, h⟩ := bind_eq_ok.mp h
        cases h
        exact lenField_length_le hlen
      · cases h
        exact lenField_length_le hlen
    · obtain ⟨mid, hskip, h⟩ := bind_eq_ok.mp h
      cases h
      exact skipUnknown_length_le hskip

/-- One GeoSite entry; a code seen before keeps its matcher and adds to it. -/
def parseEntry (re : Regex) (entry : Bytes) (out : Sites) : Result Sites := do
  let s ← (entryReader re).readMessage (.config "geosite.dat: truncated entry") ⟨none, out⟩ entry
  return s.out

/-! ## The file -/

/-- One field of the list: 1 = GeoSite (message). -/
def readTopField (re : Regex) (out : Sites) (field : UInt32) (wire : UInt8) (bs : Bytes) :
    Result (Sites × Bytes) :=
  match field.toNat, wire.toNat with
  | 1, 2 => do
    let (entry, rest) ←
      lenField "geosite.dat: bad entry length" "geosite.dat: entry overruns file" bs
    let out ← parseEntry re entry out
    return (out, rest)
  | _, _ => do
    let rest ← skipUnknown "top-level" field wire bs
    return (out, rest)

def topReader (re : Regex) : FieldReader Sites Error where
  read := readTopField re
  keeps {s s' number wire bs rest} h := by
    unfold readTopField at h
    split at h
    · obtain ⟨⟨entry, mid⟩, hlen, h⟩ := bind_eq_ok.mp h
      obtain ⟨out, -, h⟩ := bind_eq_ok.mp h
      cases h
      exact lenField_length_le hlen
    · obtain ⟨mid, hskip, h⟩ := bind_eq_ok.mp h
      cases h
      exact skipUnknown_length_le hskip

/-- Parse the whole file into name → matcher entries. -/
def parseGeosite (re : Regex) (data : Bytes) : Result Sites :=
  (topReader re).readMessage (.config "geosite.dat: truncated field header") ∅ data

end RustCrash.Routing.Geosite
