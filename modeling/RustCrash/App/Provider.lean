import RustCrash.Routing.Parse
import RustCrash.RulesetBin.Srs
import RustCrash.Routing.Eval
import RustCrash.RulesetBin.MrsCidr

/-
  Rule providers (`app.rs`): `try_load_provider`, `load_provider` and the runtime reload,
  which is the same read, parse and insert. The outcome of reading the file is an argument.
  The decompressors and the `regex` crate are parameters.
-/

namespace RustCrash.App

open Lib Routing RulesetBin

inductive ProviderBehavior where
  | domain
  | ipCidr
  | classical
  deriving DecidableEq, Repr

/-- `{behavior:?}`. -/
def ProviderBehavior.debug : ProviderBehavior → String
  | domain => "Domain"
  | ipCidr => "IpCidr"
  | classical => "Classical"

inductive ProviderFormat where
  | text
  | yaml
  | mrs
  deriving DecidableEq, Repr

/-- `{format:?}`. -/
def ProviderFormat.debug : ProviderFormat → String
  | text => "Text"
  | yaml => "Yaml"
  | mrs => "Mrs"

/-- A file-based rule provider referenced by the config. -/
structure RuleProviderSpec where
  name : Str
  path : Str
  behavior : ProviderBehavior
  format : ProviderFormat
  deriving DecidableEq, Repr

/-- What the loader uses of other crates. -/
structure Codecs where
  regex : Regex
  zstd : Bytes → Except String Bytes
  zlib : Bytes → Except String Bytes

/-! ## Binary files -/

/-- `KIND,v,DIRECT`. -/
def directLine (kind : String) (v : Str) : Str := kind.toList ++ ',' :: v ++ ",DIRECT".toList

def srsLines (srs : SrsRuleSet) : List Str :=
  srs.domains.map (fun d => match d with
    | .exact v => directLine "DOMAIN" v
    | .suffix v => directLine "DOMAIN-SUFFIX" v
    | .keyword v => directLine "DOMAIN-KEYWORD" v
    | .regex v => directLine "DOMAIN-REGEX" v) ++
  srs.ipCidrs.map (directLine "IP-CIDR")

def mrsLines (mrs : MrsRuleSet) : List Str :=
  mrs.suffixes.map (directLine "DOMAIN-SUFFIX") ++ mrs.exacts.map (directLine "DOMAIN") ++
    mrs.ipCidrs.map (directLine "IP-CIDR")

/-- `MRS`, as the loader tests for it. -/
def mrsSniff : Bytes := [77, 82, 83]

/-- The rules of a file with a binary magic, or none for any other file. A line that is
    not parsed is skipped. -/
def binaryRules (x : Codecs) (bytes : Bytes) : Option (Result (List Rule)) :=
  let rules := fun (lines : List Str) => lines.filterMap fun l => (parse x.regex l).toOption
  if srsMagic.isPrefixOf bytes then
    some ((parseSrs x.zlib bytes).map fun srs => rules (srsLines srs))
  else if mrsSniff.isPrefixOf bytes then
    some ((parseMrs x.zstd bytes).map fun mrs => rules (mrsLines mrs))
  else none

/-! ## Text files -/

/-- The lines without their comments, trimmed, and without the empty ones. -/
def ruleLines (content : Str) : List Str :=
  ((Str.lines content).map fun line => Str.trim (line.takeWhile (· ≠ '#'))).filter (· ≠ [])

/-- The rule of one line of a classical set. -/
def classicalRule (re : Regex) (line : Str) : Rule :=
  match parse re line with
  | .ok r => r
  | .error _ =>
    -- fallback: treat as domain suffix
    match parse re (directLine "DOMAIN-SUFFIX" line) with
    | .ok r => r
    | .error _ => .mk .matchAll "DIRECT".toList

def textSet (re : Regex) (p : RuleProviderSpec) (content : Str) : Except String RuleSetKind :=
  match p.behavior, p.format with
  | .domain, .text => .ok (.domain ((Str.lines content).foldl DomainMatcher.addDomainLine {}))
  | .ipCidr, .text => .ok (.ipCidr ((ruleLines content).filterMap fun l => (IpNet.parse l).toOption))
  | .classical, .text => .ok (.classical ((ruleLines content).map (classicalRule re)))
  | behavior, format =>
    .error s!"behavior {behavior.debug} with format {format.debug} not supported yet"

def loadText (re : Regex) (p : RuleProviderSpec) (bytes : Bytes) : Except String RuleSetKind :=
  match fromUtf8 bytes with
  | none => .error s!"{txt p.path} is not valid UTF-8 text"
  | some content => textSet re p content

/-! ## Loading -/

/-- Read and parse one rule-provider file into a fresh set. -/
def tryLoadProvider (x : Codecs) (p : RuleProviderSpec) (file : Except String Bytes) :
    Except String RuleSetKind :=
  match file with
  | .error e => .error s!"cannot read {txt p.path}: {e}"
  | .ok bytes =>
    match binaryRules x bytes with
    | some (.error e) => .error s!"binary parse: {e.display}"
    | some (.ok (r :: rules)) => .ok (.classical (r :: rules))
    | _ => loadText x.regex p bytes -- no binary magic, or nothing in the binary

/-- Load the set and insert it; an error leaves the table as it is. -/
def loadProvider (x : Codecs) (sets : RuleSets) (p : RuleProviderSpec)
    (file : Except String Bytes) : RuleSets :=
  match tryLoadProvider x p file with
  | .ok kind => sets.insert p.name kind
  | .error _ => sets

/-- Reload the provider of that name with what its file holds now. -/
def reloadRuleProvider (x : Codecs) (providers : List RuleProviderSpec) (sets : RuleSets)
    (name : Str) (file : Except String Bytes) : Except String RuleSets :=
  match providers.find? fun p => p.name == name with
  | none => .error s!"provider {Str.debug name} not found"
  | some spec => do
    let kind ← tryLoadProvider x spec file
    return sets.insert spec.name kind

end RustCrash.App

/-! ## Binary files

Binary provider files. The loader looks for `SRS` or `MRS` at the start of the file, but a
written `.mrs` file starts with its zstd frame, whose magic number `28 B5 2F FD` is
neither and is no UTF-8 text. So no written file is loaded (`written_mrs_not_loaded`). -/

namespace RustCrash.App

open Lib Routing RulesetBin

/-- The destination matches a suffix, an exact domain or a CIDR of the set. -/
def MrsMatches (mrs : MrsRuleSet) (ctx : ConnContext) : Prop :=
  (∃ d, ctx.host.asDomain = some d ∧
    ((∃ s ∈ mrs.suffixes, domainMatchesSuffix d s = true) ∨ d ∈ mrs.exacts)) ∨
  ∃ ip ∈ ctx.ips, ∃ s ∈ mrs.ipCidrs, ∃ n, IpNet.parse s = .ok n ∧ n.contains ip = true

/-- The classical set matches the connection. -/
def SetMatches (re : Regex) (geo : GeoLookups) (ctx : ConnContext) (providers : RuleSets)
    (rules : List Rule) : Prop :=
  ∃ fuel, evalAny re geo ctx (evalRuleSet re geo ctx providers fuel) rules = some true

/-- The file is loaded as the classical set of what `parse_mrs` finds in it. -/
def Honoured (x : Codecs) (p : RuleProviderSpec) (file : Bytes) : Prop :=
  ∃ mrs rules, parseMrs x.zstd file = .ok mrs ∧
    tryLoadProvider x p (.ok file) = .ok (.classical rules) ∧
    ∀ geo ctx providers, SetMatches x.regex geo ctx providers rules ↔ MrsMatches mrs ctx

theorem binaryRules_frame (x : Codecs) (payload : Bytes) :
    binaryRules x (zstdStoreFrame payload) = none := by
  unfold binaryRules zstdStoreFrame
  rw [List.append_assoc]
  rfl

theorem fromUtf8_frame (payload : Bytes) : fromUtf8 (zstdStoreFrame payload) = none := by
  unfold zstdStoreFrame frameStart
  rw [List.append_assoc]
  generalize toLE 8 payload.length ++ storeBlocks payload = rest
  -- `28` is a parenthesis and `B5` cannot start a character
  have hchunks : utf8Chunks ([0x28, 0xB5, 0x2F, 0xFD, 0xC0, 0x50] ++ rest) =
      some '(' :: none :: utf8Chunks ([0x2F, 0xFD, 0xC0, 0x50] ++ rest) := by
    rw [List.cons_append, List.cons_append, utf8Chunks_one (by decide)]
    conv => lhs; rw [utf8Chunks.eq_def]
    rfl
  unfold fromUtf8
  rw [hchunks]
  rfl

theorem tryLoadProvider_frame (x : Codecs) (p : RuleProviderSpec) (payload : Bytes) :
    tryLoadProvider x p (.ok (zstdStoreFrame payload)) =
      .error s!"{txt p.path} is not valid UTF-8 text" := by
  unfold tryLoadProvider
  dsimp only
  rw [binaryRules_frame]
  unfold loadText
  rw [fromUtf8_frame]

theorem writeMrs_frame {toLowercase : Str → Str} {behavior : MrsWriteBehavior} {rules : List Str}
    {file : Bytes} (hw : writeMrs toLowercase behavior rules = some (.ok file)) :
    ∃ payload, file = zstdStoreFrame payload := by
  unfold writeMrs mrsFile at hw
  cases behavior with
  | domain =>
    dsimp only at hw
    split_ifs at hw
    · cases Option.some.inj hw
    · obtain ⟨payload, -, hfile⟩ := Option.map_eq_some_iff.mp hw
      exact ⟨_, (Except.ok.inj hfile).symm⟩
  | ipCidr =>
    dsimp only at hw
    split_ifs at hw
    · cases Option.some.inj hw
    · exact ⟨_, (Except.ok.inj (Option.some.inj hw)).symm⟩

theorem not_honoured_frame (x : Codecs) (p : RuleProviderSpec) (payload : Bytes) :
    ¬ Honoured x p (zstdStoreFrame payload) := by
  rintro ⟨mrs, rules, -, hload, -⟩
  rw [tryLoadProvider_frame] at hload
  cases hload

/-- Every file the writer makes is refused as text by every provider. -/
theorem written_mrs_not_loaded {toLowercase : Str → Str} {behavior : MrsWriteBehavior}
    {rules : List Str} {file : Bytes}
    (hw : writeMrs toLowercase behavior rules = some (.ok file)) (x : Codecs)
    (p : RuleProviderSpec) :
    ¬ Honoured x p file ∧
      tryLoadProvider x p (.ok file) = .error s!"{txt p.path} is not valid UTF-8 text" := by
  obtain ⟨payload, rfl⟩ := writeMrs_frame hw
  exact ⟨not_honoured_frame x p payload, tryLoadProvider_frame x p payload⟩

theorem exists_written_sample :
    ∃ file, writeMrs Str.asciiLower .ipCidr sampleCidrs = some (.ok file) :=
  writeMrs_ipCidr_ok Str.asciiLower sampleCidrs (by
    rw [rangesOf_sampleCidrs]
    exact List.cons_ne_nil _ _)

def sampleCodecs : Codecs where
  regex := ⟨fun _ => .ok (), fun _ _ => false⟩
  zstd := rawDecoder
  zlib := fun _ => .error "no zlib data"

def sampleSpec : RuleProviderSpec where
  name := ['A']
  path := "a.mrs".toList
  behavior := .ipCidr
  format := .mrs

theorem written_mrs_not_loaded_sample : ∃ file,
    writeMrs Str.asciiLower .ipCidr sampleCidrs = some (.ok file) ∧
      ¬ Honoured sampleCodecs sampleSpec file := by
  obtain ⟨file, hw⟩ := exists_written_sample
  exact ⟨file, hw, (written_mrs_not_loaded hw sampleCodecs sampleSpec).1⟩

/-- A written file that `parse_mrs` reads is refused. -/
theorem written_mrs_refused : ∃ file,
    writeMrs Str.asciiLower .ipCidr sampleCidrs = some (.ok file) ∧
      (∃ mrs, parseMrs sampleCodecs.zstd file = .ok mrs) ∧
      ¬ Honoured sampleCodecs sampleSpec file := by
  obtain ⟨file, hw⟩ := exists_written_sample
  obtain ⟨payload, rfl⟩ := writeMrs_frame hw
  obtain ⟨set, hset, -⟩ :=
    (readBack_iff decodes_rawDecoder (by decide) hw).mpr mappedSafe_sampleCidrs
  exact ⟨_, hw, ⟨set, hset⟩, not_honoured_frame _ _ _⟩

end RustCrash.App
