import RustCrash.Lib.Varint
import RustCrash.RulesetBin.Mrs

/-
  sing-box `.srs` rule sets (`ruleset_bin.rs`): the reader `parse_srs`. The zlib decoder is
  a parameter. A reader takes the cursor and returns it behind its value.
-/

namespace RustCrash.RulesetBin

open Lib Lib.Net

def Cursor.uvarint (cur : Cursor) : Option (UInt64 × Cursor) := Lib.uvarint cur

/-- One domain entry of an `.srs` rule set. -/
inductive SrsDomain where
  | exact (v : Str)
  | suffix (v : Str)
  | keyword (v : Str)
  | regex (v : Str)
  deriving DecidableEq, Repr

/-- Parsed contents of an `.srs` file. -/
structure SrsRuleSet where
  domains : List SrsDomain := []
  ipCidrs : List Str := []
  deriving DecidableEq, Repr

/-- `SRS`. -/
def srsMagic : Bytes := [0x53, 0x52, 0x53]

def srsVersionMax : UInt8 := 2

def srsMaxLogicalDepth : Nat := 100

/-- Run a reader `n` times on a state. -/
def times {σ : Type} (f : σ → Result σ) : Nat → σ → Result σ
  | 0, s => .ok s
  | n + 1, s => do
    let s ← f s
    times f n s

/-- Read `n` values. -/
def readMany {α : Type} (read : Cursor → Result (α × Cursor)) :
    Nat → Cursor → Result (List α × Cursor)
  | 0, cur => .ok ([], cur)
  | n + 1, cur => do
    let (a, cur) ← read cur
    let (as, cur) ← readMany read n cur
    return (a :: as, cur)

/-- A uvarint count and that many values. -/
def readCounted {α : Type} (what : String) (read : Cursor → Result (α × Cursor)) (cur : Cursor) :
    Result (List α × Cursor) := do
  let (count, cur) ← okOr cur.uvarint (truncated what)
  readMany read count.toNat cur

def readSrsString (cur : Cursor) : Result (Str × Cursor) := do
  let (len, cur) ← okOr cur.uvarint (truncated "srs: string length")
  let (bytes, cur) ← okOr (cur.bytes len.toNat) (truncated "srs: string body")
  let s ← okOr (fromUtf8 bytes) (.config "srs: string is not utf-8")
  return (s, cur)

def readSrsStringList : Cursor → Result (List Str × Cursor) :=
  readCounted "srs: string list count" readSrsString

def readSrsU16List : Cursor → Result (List UInt16 × Cursor) :=
  readCounted "srs: u16 list count" fun cur => do
    let (bytes, cur) ← okOr (cur.bytes 2) (truncated "srs: u16 item")
    return (ofBE16 bytes, cur)

def readSrsU64Words : Cursor → Result (List UInt64 × Cursor) :=
  readCounted "srs: bitmap word count" fun cur => okOr cur.beU64 (truncated "srs: bitmap word")

/-- The stored keys by kind: exacts, `'\r'` marks, and `'\n'` marks in order. -/
structure SrsKeys where
  exacts : List Str := []
  prefixMap : List Str := []
  prefixList : List Str := []

def SrsKeys.add (ks : SrsKeys) : Str → SrsKeys
  | [] => ks
  | '\r' :: key => { ks with prefixMap := ks.prefixMap ++ [key] }
  | '\n' :: key => { ks with prefixList := ks.prefixList ++ [key] }
  | key => { ks with exacts := ks.exacts ++ [key] }

/-- A `'\r'` mark `.x` whose `x` is also stored bare is one suffix. -/
def mergeLegacy (acc : List Str × List Str) (raw : Str) : List Str × List Str :=
  match raw with
  | '.' :: root =>
    if root ∈ acc.1 then (acc.1.filter (· ≠ root), acc.2 ++ [root]) else (acc.1, acc.2 ++ [raw])
  | raw => (acc.1, acc.2 ++ [raw])

/-- Exacts and suffixes of the keys; the sets are read in order. -/
def SrsKeys.dump (ks : SrsKeys) : List Str × List Str :=
  let (exacts, prefixList) :=
    (sortDedup ks.prefixMap).foldl mergeLegacy (sortDedup ks.exacts, ks.prefixList)
  (exacts, (prefixList.map (Str.trimStartMatches '.')).filter (· ≠ []))

/-- A reserved byte and three counted arrays: leaves, labelBitmap, label bytes. -/
def readSrsDomainMatcher (cur : Cursor) : Result ((List Str × List Str) × Cursor) := do
  let (_, cur) ← okOr cur.byte (truncated "srs: domain trie version")
  let (leaves, cur) ← readSrsU64Words cur
  let (labelBitmap, cur) ← readSrsU64Words cur
  let (labelsLen, cur) ← okOr cur.uvarint (truncated "srs: labels count")
  let (labels, cur) ← okOr (cur.bytes labelsLen.toNat) (truncated "srs: labels body")
  let trie ← LoudsTrie.new leaves labelBitmap labels
  let keys ← trie.keys
  let keys ← keys.mapM unreverseKey
  return ((keys.foldl SrsKeys.add {}).dump, cur)

/-- A 4- or 16-byte address. -/
def addrFromMarshal (bytes : Bytes) : Result IpAddr :=
  if bytes.length = 4 then .ok (.v4 (ofOctets4 bytes))
  else if bytes.length = 16 then addrFrom16 bytes
  else .error (.config s!"invalid ip range address length {bytes.length} (expected 4 or 16)")

def readSrsAddr (cur : Cursor) : Result (IpAddr × Cursor) := do
  let (len, cur) ← okOr cur.uvarint (truncated "srs: ip address length")
  let (bytes, cur) ← okOr (cur.bytes len.toNat) (truncated "srs: ip address body")
  let addr ← addrFromMarshal bytes
  return (addr, cur)

def readSrsRange (cur : Cursor) : Result (List Str × Cursor) := do
  let (fromAddr, cur) ← readSrsAddr cur
  let (toAddr, cur) ← readSrsAddr cur
  let cidrs ← ipRangeToCidrs fromAddr toAddr
  return (cidrs, cur)

/-- Version byte, range count, and a `from` and `to` for each range. -/
def readSrsIpSet (cur : Cursor) : Result (List Str × Cursor) := do
  let (_, cur) ← okOr cur.byte (truncated "srs: ip set version")
  let (count, cur) ← okOr cur.beU64 (truncated "srs: ip range count")
  let (ranges, cur) ← readMany readSrsRange count.toNat cur
  return (ranges.flatten, cur)

/-- One item of a default rule, by its type; items without domain or destination address
    data are read and dropped. -/
def readSrsItem (item : UInt8) (cur : Cursor) (out : SrsRuleSet) : Result (Cursor × SrsRuleSet) :=
  if item = 2 then do
    let ((exacts, suffixes), cur) ← readSrsDomainMatcher cur
    return (cur, { out with
      domains := out.domains ++ exacts.map .exact ++ suffixes.map .suffix })
  else if item = 3 then do
    let (kws, cur) ← readSrsStringList cur
    return (cur, { out with domains := out.domains ++ kws.map .keyword })
  else if item = 4 then do
    let (res, cur) ← readSrsStringList cur
    return (cur, { out with domains := out.domains ++ res.map .regex })
  else if item = 6 then do
    let (cidrs, cur) ← readSrsIpSet cur
    return (cur, { out with ipCidrs := out.ipCidrs ++ cidrs })
  else if item = 0 ∨ item = 7 ∨ item = 9 then do
    let (_, cur) ← readSrsU16List cur
    return (cur, out)
  else if item = 1 ∨ item = 8 ∨ (10 ≤ item ∧ item ≤ 15) then do
    let (_, cur) ← readSrsStringList cur
    return (cur, out)
  else if item = 5 then do
    let (_, cur) ← readSrsIpSet cur
    return (cur, out)
  else .error (.config s!"srs: unknown rule item type {item}")

/-- The items of a default rule up to the final one. Each takes a byte at least, so the
    length of the data is budget enough. -/
def readSrsDefaultRule : (budget : Nat) → Cursor × SrsRuleSet → Result (Cursor × SrsRuleSet)
  | 0, _ => .error (truncated "srs: rule item type")
  | budget + 1, (cur, out) => do
    let (item, cur) ← okOr cur.byte (truncated "srs: rule item type")
    if item = 0xFF then
      let (_, cur) ← okOr cur.byte (truncated "srs: rule invert")
      return (cur, out)
    else
      let st ← readSrsItem item cur out
      readSrsDefaultRule budget st

/-- One rule, on which `levels` more nestings are allowed; a logical rule's entries are
    collected and its mode is dropped. -/
def readSrsRule : (levels : Nat) → Cursor × SrsRuleSet → Result (Cursor × SrsRuleSet)
  | 0, _ => .error (.config "srs: logical rule nested too deep")
  | levels + 1, (cur, out) => do
    let (kind, cur) ← okOr cur.byte (truncated "srs: rule type")
    if kind = 0 then readSrsDefaultRule cur.length (cur, out)
    else if kind = 1 then
      let (mode, cur) ← okOr cur.byte (truncated "srs: logical mode")
      ensure (mode ≤ 1) (.config s!"srs: unknown logical mode {mode} (expected 0=and or 1=or)")
      let (subCount, cur) ← okOr cur.uvarint (truncated "srs: logical rule count")
      let (cur, out) ← times (readSrsRule levels) subCount.toNat (cur, out)
      let (_, cur) ← okOr cur.byte (truncated "srs: logical invert")
      return (cur, out)
    else .error (.config s!"srs: unknown rule type {kind} (expected 0 or 1)")

/-- Parse a sing-box `.srs` rule-set file. -/
def parseSrs (zlib : Bytes → Except String Bytes) (file : Bytes) : Result SrsRuleSet := do
  ensure (4 ≤ file.length) (truncated "srs: file shorter than the magic + version header")
  ensure (file.take 3 = srsMagic) (.config "srs: bad magic bytes (expected \"SRS\")")
  let version := (file[3]?).getD 0
  ensure (1 ≤ version ∧ version ≤ srsVersionMax) (.config
    s!"srs: unsupported version {version} (supported: 1-{srsVersionMax})")
  match zlib (file.drop 4) with
  | .error e => .error (.config s!"srs: bad zlib stream: {e}")
  | .ok raw =>
    let (ruleCount, cur) ← okOr (Cursor.uvarint raw) (truncated "srs: rule count")
    let (_, out) ← times (readSrsRule (srsMaxLogicalDepth + 1)) ruleCount.toNat (cur, {})
    return out

end RustCrash.RulesetBin
