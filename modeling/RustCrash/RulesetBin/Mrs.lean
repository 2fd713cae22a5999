import RustCrash.RulesetBin.Cidr
import RustCrash.RulesetBin.LoudsTrie

/-
  mihomo `.mrs` rule sets (`ruleset_bin.rs`): the reader `parse_mrs` and the writer
  `write_mrs`. A cursor is what remains of its data. Two parts of the code are parameters:
  the zstd decoder the reader uses, and `str::to_lowercase`, which the writer applies to a
  domain. The writer's result is `none` where the source would panic.
-/

/-! ## Zstandard frames of raw blocks

`zstdStoreFrame` is the encoder of `ruleset_bin.rs`.
`rawFrame` reads such frames by the format's rules: magic number, descriptor 0xC0 (an
eight-byte content size, no checksum, no dictionary), window descriptor 0x50, then raw
blocks of at most 128 KiB, each behind a three-byte header, up to the one marked last.

The engine's decoder is a third-party one and a parameter; `Decodes` says that it reads
raw-block frames by these rules. -/

namespace RustCrash.RulesetBin

open Lib

/-- Maximum bytes per block. -/
def mrsZstdBlockMax : Nat := 64 * 1024

/-- The blocks of `zstd_store_frame`'s loop, headers included. -/
def storeBlocks (payload : Bytes) : Bytes :=
  let chunk := payload.take mrsZstdBlockMax
  let rest := payload.drop mrsZstdBlockMax
  let last := if rest = [] then 1 else 0
  let header := (chunk.length <<< 3) ||| last
  toLE 3 header ++ chunk ++ if rest = [] then [] else storeBlocks rest
termination_by payload.length
decreasing_by
  rename_i h
  have : (payload.drop mrsZstdBlockMax).length ≠ 0 := fun he => h (List.length_eq_zero_iff.mp he)
  rw [List.length_drop] at this ⊢
  unfold mrsZstdBlockMax at this ⊢
  omega

def frameStart : Bytes := [0x28, 0xB5, 0x2F, 0xFD, 0xC0, 0x50]

/-- An empty payload is one empty last block, which is what the loop would write for it. -/
def zstdStoreFrame (payload : Bytes) : Bytes :=
  frameStart ++ toLE 8 payload.length ++ storeBlocks payload

/-! ## Reading raw blocks -/

/-- The largest block the format allows. -/
def blockMax : Nat := 128 * 1024

/-- The content of raw blocks up to the last one; the first number bounds how many. -/
def rawBlocks : Nat → Bytes → Option Bytes
  | 0, _ => none
  | n + 1, bs =>
    let header := ofLE (bs.take 3)
    let rest := bs.drop 3
    let size := header >>> 3
    if bs.length < 3 ∨ (header >>> 1) % 4 ≠ 0 ∨ blockMax < size ∨ rest.length < size then none
    else if header % 2 = 1 then (if rest.length = size then some rest else none)
    else (rawBlocks n (rest.drop size)).map (rest.take size ++ ·)

/-- The content of a raw-block frame. -/
def rawFrame (frame : Bytes) : Option Bytes :=
  if frame.take 6 = frameStart then do
    let content ← rawBlocks frame.length (frame.drop 14)
    if content.length = ofLE ((frame.drop 6).take 8) then some content else none
  else none

/-- The third-party decoder reads raw-block frames by the format's rules. -/
def Decodes (zstd : Bytes → Except String Bytes) : Prop :=
  ∀ frame content, rawFrame frame = some content → zstd frame = .ok content

/-- A decoder that reads raw-block frames and no others. -/
def rawDecoder (frame : Bytes) : Except String Bytes :=
  match rawFrame frame with
  | some content => .ok content
  | none => .error "unsupported frame"

theorem decodes_rawDecoder : Decodes rawDecoder := by
  intro frame content h
  unfold rawDecoder
  rw [h]

/-! ## A stored payload is read back -/

theorem rawBlocks_storeBlocks (n : Nat) (payload : Bytes) (hn : payload.length < n) :
    rawBlocks n (storeBlocks payload) = some payload := by
  induction n generalizing payload with
  | zero => exact absurd hn (Nat.not_lt_zero _)
  | succ n ih =>
    rw [storeBlocks]
    generalize hc : payload.take mrsZstdBlockMax = chunk
    generalize hr : payload.drop mrsZstdBlockMax = rest
    have hsplit : chunk ++ rest = payload := by rw [← hc, ← hr, List.take_append_drop]
    have hchunk : chunk.length ≤ 65536 := by
      rw [← hc, List.length_take]
      exact Nat.min_le_left _ _
    have hrest : rest.length = payload.length - 65536 := by
      rw [← hr, List.length_drop]
      rfl
    have hbit : (if rest = [] then 1 else 0) < 2 := by split_ifs <;> decide
    generalize hlast : (if rest = [] then 1 else 0) = last at hbit
    have hheader : ((chunk.length <<< 3) ||| last) = 8 * chunk.length + last := by
      rw [← Nat.shiftLeft_add_eq_or_of_lt (by omega : last < 2 ^ 3), Nat.shiftLeft_eq, Nat.mul_comm]
    generalize hmore : (if rest = [] then [] else storeBlocks rest) = more
    have htake : (toLE 3 (8 * chunk.length + last) ++ chunk ++ more).take 3 =
        toLE 3 (8 * chunk.length + last) := by
      rw [List.append_assoc, List.take_left' (length_toLE _ _)]
    have hdrop : (toLE 3 (8 * chunk.length + last) ++ chunk ++ more).drop 3 = chunk ++ more := by
      rw [List.append_assoc, List.drop_left' (length_toLE _ _)]
    have hvalue : ofLE (toLE 3 (8 * chunk.length + last)) = 8 * chunk.length + last := by
      rw [ofLE_toLE, Nat.mod_eq_of_lt (by norm_num; omega)]
    have hsize : (8 * chunk.length + last) >>> 3 = chunk.length := by
      rw [Nat.shiftRight_eq_div_pow]
      omega
    have htype : ((8 * chunk.length + last) >>> 1) % 4 = 0 := by
      rw [Nat.shiftRight_eq_div_pow]
      omega
    have hfits : ¬ ((toLE 3 (8 * chunk.length + last) ++ chunk ++ more).length < 3 ∨
        ((8 * chunk.length + last) >>> 1) % 4 ≠ 0 ∨ blockMax < chunk.length ∨
        (chunk ++ more).length < chunk.length) := by
      rw [htype]
      simp [blockMax]
      omega
    rw [hheader]
    unfold rawBlocks
    dsimp only
    rw [htake, hvalue, hsize, hdrop, if_neg hfits]
    by_cases hend : rest = []
    · rw [if_pos hend] at hlast hmore
      rw [if_pos (by omega), ← hmore, List.append_nil, if_pos rfl, ← hsplit, hend, List.append_nil]
    · rw [if_neg hend] at hlast hmore
      have hpos := List.length_pos_iff.mpr hend
      rw [if_neg (by omega), List.drop_left, List.take_left, ← hmore, ih rest (by omega),
        Option.map_some, hsplit]

theorem length_storeBlocks (payload : Bytes) : payload.length < (storeBlocks payload).length := by
  induction payload using storeBlocks.induct with
  | case1 payload rest ih =>
    have hsplit := congrArg List.length (List.take_append_drop mrsZstdBlockMax payload)
    rw [List.length_append] at hsplit
    rw [storeBlocks, List.length_append, List.length_append, length_toLE]
    split_ifs with h
    · rw [h, List.length_nil] at hsplit
      rw [List.length_nil]
      omega
    · have hrest : (payload.drop mrsZstdBlockMax).length <
          (storeBlocks (payload.drop mrsZstdBlockMax)).length := ih h
      omega

/-- The frame of a payload holds that payload. -/
theorem rawFrame_zstdStoreFrame {payload : Bytes} (h : payload.length < 2 ^ 64) :
    rawFrame (zstdStoreFrame payload) = some payload := by
  have hlen := length_storeBlocks payload
  unfold rawFrame zstdStoreFrame
  have hstart : (frameStart ++ toLE 8 payload.length ++ storeBlocks payload).take 6 = frameStart := by
    rw [List.append_assoc]
    exact List.take_left' rfl
  have hdrop : (frameStart ++ toLE 8 payload.length ++ storeBlocks payload).drop 14 =
      storeBlocks payload :=
    List.drop_left' (by simp [frameStart])
  have hsize : ((frameStart ++ toLE 8 payload.length ++ storeBlocks payload).drop 6).take 8 =
      toLE 8 payload.length := by
    rw [List.append_assoc, List.drop_left' (by rfl), List.take_left' (length_toLE _ _)]
  rw [if_pos hstart, hdrop, rawBlocks_storeBlocks _ payload (by simp [frameStart]; omega), hsize,
    ofLE_toLE, Nat.mod_eq_of_lt (by norm_num; omega)]
  simp

end RustCrash.RulesetBin

/-! ## Rule sets -/

namespace RustCrash.RulesetBin

open Lib Lib.Net

/-! ## Cursor -/

abbrev Cursor := Bytes

namespace Cursor

def bytes (len : Nat) (cur : Cursor) : Option (Bytes × Cursor) :=
  if len ≤ cur.length then some (cur.take len, cur.drop len) else none

def byte : Cursor → Option (UInt8 × Cursor)
  | [] => none
  | b :: cur => some (b, cur)

def beU64 (cur : Cursor) : Option (UInt64 × Cursor) :=
  (cur.bytes 8).map fun p => (ofBE64 p.1, p.2)

def beI64 (cur : Cursor) : Option (Int × Cursor) :=
  cur.beU64.map fun p => (p.1.toBitVec.toInt, p.2)

/-- Skip `len` bytes, bounded by what remains. -/
def skip (len : Nat) (cur : Cursor) : Option Cursor :=
  if cur.length < len then none else some (cur.drop len)

end Cursor

/-! ## Reader -/

/-- Parsed contents of an `.mrs` file. -/
structure MrsRuleSet where
  suffixes : List Str
  exacts : List Str
  ipCidrs : List Str
  deriving DecidableEq, Repr

/-- `MRS` and version 1. -/
def mrsMagic : Bytes := [77, 82, 83, 1]

def mrsBehaviorDomain : UInt8 := 0
def mrsBehaviorIpcidr : UInt8 := 1
def mrsBehaviorClassical : UInt8 := 2

/-- Undo the reversal both writers apply before trie insertion. -/
def unreverseKey (key : Bytes) : Result Str := do
  let s ← okOr (fromUtf8 key) (.config "malformed domain trie: key is not utf-8")
  return s.reverse

def readMrsU64WordsLoop : Nat → Cursor → Result (List UInt64 × Cursor)
  | 0, cur => .ok ([], cur)
  | n + 1, cur => do
    let (w, cur) ← okOr cur.beU64 (truncated "mrs: bitmap word")
    let (ws, cur) ← readMrsU64WordsLoop n cur
    return (w :: ws, cur)

def readMrsU64Words (cur : Cursor) : Result (List UInt64 × Cursor) := do
  let (count, cur) ← okOr cur.beI64 (truncated "mrs: bitmap word count")
  ensure (1 ≤ count) (.config "mrs: invalid bitmap word count")
  readMrsU64WordsLoop count.toNat cur

/-- Suffixes and exacts found so far. -/
abbrev Found := List Str × List Str

/-- A key with the suffix marker; the reversal of a `+.x` pattern yields a leading dot. -/
def readMrsSuffix (found : Found) : Str → Found
  | '.' :: s => (if s = [] then found.1 else found.1 ++ [s], found.2)
  | domain => (if domain = [] then found.1 else found.1 ++ [domain], found.2)

/-- A key without the marker. -/
def readMrsPlain (found : Found) : Str → Result Found
  | ['*'] => .error (.config "mrs: bare '*' wildcard pattern is not supported")
  | '*' :: '.' :: rest => .ok (if rest = [] then found.1 else found.1 ++ [rest], found.2)
  | domain =>
    if '*' ∈ domain then
      .error (.config s!"mrs: unsupported wildcard pattern {Str.debug domain}")
    else .ok (found.1, if domain = [] then found.2 else found.2 ++ [domain])

def readMrsKey (found : Found) (key : Bytes) : Result Found :=
  if key.getLast? = some 43 then do
    let domain ← unreverseKey key.dropLast
    return readMrsSuffix found domain
  else do
    let domain ← unreverseKey key
    readMrsPlain found domain

/-- All stored keys, through two `BTreeSet`s. -/
def readMrsKeys (keys : List Bytes) : Result MrsRuleSet := do
  let (suffixes, exacts) ← keys.foldlM readMrsKey ([], [])
  return ⟨sortDedup suffixes, sortDedup exacts, []⟩

/-- Version byte 1 and three counted arrays: leaves, labelBitmap, label bytes. -/
def readMrsDomainPayload (cur : Cursor) : Result MrsRuleSet := do
  let (version, cur) ← okOr cur.byte (truncated "mrs: domain-set version")
  ensure (version = 1) (.config s!"mrs: invalid domain-set version {version} (expected 1)")
  let (leaves, cur) ← readMrsU64Words cur
  let (labelBitmap, cur) ← readMrsU64Words cur
  let (labelsLen, cur) ← okOr cur.beI64 (truncated "mrs: labels count")
  ensure (1 ≤ labelsLen) (.config "mrs: invalid labels count")
  let (labels, _) ← okOr (cur.bytes labelsLen.toNat) (truncated "mrs: labels body")
  let trie ← LoudsTrie.new leaves labelBitmap labels
  let keys ← trie.keys
  readMrsKeys keys

def readMrsRanges : Nat → Cursor → Result (List Str)
  | 0, _ => .ok []
  | n + 1, cur => do
    let (lo, cur) ← okOr (cur.bytes 16) (truncated "mrs: ip range from-address")
    let fromAddr ← addrFrom16 lo
    let (hi, cur) ← okOr (cur.bytes 16) (truncated "mrs: ip range to-address")
    let toAddr ← addrFrom16 hi
    let cidrs ← ipRangeToCidrs fromAddr toAddr
    let more ← readMrsRanges n cur
    return cidrs ++ more

/-- Version byte 1, range count, and a 16-byte `from` and `to` for each range. -/
def readMrsIpcidrPayload (cur : Cursor) : Result MrsRuleSet := do
  let (version, cur) ← okOr cur.byte (truncated "mrs: ipcidr-set version")
  ensure (version = 1) (.config s!"mrs: invalid ipcidr-set version {version} (expected 1)")
  let (count, cur) ← okOr cur.beI64 (truncated "mrs: ip range count")
  ensure (1 ≤ count) (.config "mrs: invalid ip range count")
  let out ← readMrsRanges count.toNat cur
  return ⟨[], [], out⟩

def readMrsPayload (behavior : UInt8) (cur : Cursor) : Result MrsRuleSet :=
  if behavior = mrsBehaviorDomain then readMrsDomainPayload cur
  else if behavior = mrsBehaviorIpcidr then readMrsIpcidrPayload cur
  else if behavior = mrsBehaviorClassical then
    .error (.config "mrs: classical behavior is not supported (upstream mihomo never writes it)")
  else .error (.config
    s!"mrs: unknown behavior byte {behavior} (expected 0=domain or 1=ipcidr)")

/-- Parse a decompressed rule set. -/
def parseMrsRaw (raw : Bytes) : Result MrsRuleSet := do
  let (magic, cur) ← okOr (Cursor.bytes 4 raw) (truncated "mrs: magic header")
  ensure (magic = mrsMagic) (.config "mrs: bad magic bytes (expected \"MRS\" + version 1)")
  let (behavior, cur) ← okOr cur.byte (truncated "mrs: behavior")
  let (count, cur) ← okOr cur.beI64 (truncated "mrs: count")
  ensure (0 ≤ count) (.config s!"mrs: invalid count {count}")
  let (extraLen, cur) ← okOr cur.beI64 (truncated "mrs: extra length")
  ensure (0 ≤ extraLen) (.config s!"mrs: invalid extra length {extraLen}")
  let cur ← okOr (cur.skip extraLen.toNat) (truncated "mrs: extra block")
  readMrsPayload behavior cur

/-- Parse a mihomo `.mrs` rule-set file. -/
def parseMrs (zstd : Bytes → Except String Bytes) (file : Bytes) : Result MrsRuleSet :=
  match zstd file with
  | .error e => .error (.config s!"mrs: bad zstd stream: {e}")
  | .ok raw => parseMrsRaw raw

/-! ## Writer: domains -/

/-- The check of one label: `+` and `*` stand alone, `+` only in front of others. -/
def checkLabel (invalid : String → Error) (count i : Nat) (part : Str) : Result Unit := do
  ensure ('+' ∈ part → part = ['+'])
    (invalid s!"\"+\" wildcard must occupy the entire label {i + 1}")
  ensure ('+' ∈ part → i = 0) (invalid "\"+\" wildcard is only allowed in the first label")
  ensure ('+' ∈ part → count ≠ 1) (invalid "\"+\" wildcard must be followed by another label")
  ensure ('*' ∈ part → part = ['*'])
    (invalid s!"\"*\" wildcard must occupy the entire label {i + 1}")

/-- No label but the first is empty, and a single one is not. -/
def checkEmptyLabels (invalid : String → Error) (parts : List Str) : Result Unit :=
  if parts.length = 1 then ensure (parts ≠ [[]]) (invalid "domain is empty")
  else
    match parts.tail.findIdx? (· = []) with
    | some i => .error (invalid s!"label {i + 2} is empty")
    | none => .ok ()

/-- Lower-case, split on `.`, and reject a trailing dot, whitespace at either end, empty
    labels and misplaced wildcards. -/
def validAndSplitDomain (toLowercase : Str → Str) (domain : Str) : Result (List Str) := do
  let invalid := fun (why : String) => Error.config s!"invalid domain {Str.debug domain}: {why}"
  ensure (domain ≠ []) (invalid "domain is empty")
  ensure (domain.getLast? ≠ some '.') (invalid "trailing dot is not allowed")
  ensure (domain.head?.any Str.isWhitespace = false) (invalid "leading whitespace is not allowed")
  ensure (domain.getLast?.any Str.isWhitespace = false)
    (invalid "trailing whitespace is not allowed")
  let parts := (toLowercase domain).splitOn '.'
  checkEmptyLabels invalid parts
  parts.zipIdx.forM fun p => checkLabel invalid parts.length p.2 p.1
  return parts

/-- An empty first label becomes `+`; the joined domain is stored reversed. -/
def domainSetPushKey (keys : List Bytes) (parts : List Str) : List Bytes :=
  let parts := match parts with
    | [] :: rest => ['+'] :: rest
    | parts => parts
  keys ++ [utf8 (Str.join '.' parts).reverse]

/-- `+.x` inserts both `x` and `+.x`. -/
def domainSetKeys (toLowercase : Str → Str) (rule : Str) : Result (List Bytes) := do
  let parts ← validAndSplitDomain toLowercase rule
  if parts.head? = some ['+'] then
    return domainSetPushKey (domainSetPushKey [] parts.tail) parts
  else return domainSetPushKey [] parts

/-- The length of an array and its words, big-endian. -/
def countedWords (ws : List UInt64) : Bytes := be64 (UInt64.ofNat ws.length) ++ ws.flatMap be64

def mrsDomainPayloadFromKeys (keys : List Bytes) : Option Bytes := do
  let (leaves, labelBitmap, labels) ← buildDomainSet keys
  return [1] ++ countedWords leaves ++ countedWords labelBitmap ++
    be64 (UInt64.ofNat labels.length) ++ labels

/-! ## Writer: CIDRs and framing -/

def mrsIpcidrPayloadFromRanges (ranges : List IpRange) : Bytes :=
  [1] ++ be64 (UInt64.ofNat ranges.length) ++
    ranges.flatMap fun r => addrAs16Prod r.lo r.v6 ++ addrAs16Prod r.hi r.v6

inductive MrsWriteBehavior where
  | domain
  | ipCidr
  deriving DecidableEq, Repr

/-- The keys of one rule, or `none` for a rule the writer skips. -/
def acceptDomain (toLowercase : Str → Str) (rule : Str) : Option (List Bytes) :=
  if '/' ∈ rule then none else (domainSetKeys toLowercase rule).toOption

/-- The range of one rule, or `none` for a rule the writer skips. -/
def acceptCidr (rule : Str) : Option IpRange := (parseCidrRange rule).toOption

/-- Magic, behavior, count of valid rules, extra length 0, payload; all in a store frame. -/
def mrsFile (behavior : UInt8) (count : Nat) (payload : Bytes) : Bytes :=
  zstdStoreFrame (mrsMagic ++ [behavior] ++ be64 (UInt64.ofNat count) ++ be64 0 ++ payload)

/-- Serialize a rule set as a mihomo `.mrs` file. Invalid rules are skipped and do not
    count. -/
def writeMrs (toLowercase : Str → Str) (behavior : MrsWriteBehavior) (rules : List Str) :
    Option (Result Bytes) :=
  match behavior with
  | .domain =>
    let accepted := rules.filterMap (acceptDomain toLowercase)
    if accepted.length = 0 then some (.error (.config "empty rule"))
    else (mrsDomainPayloadFromKeys accepted.flatten).map fun payload =>
      .ok (mrsFile mrsBehaviorDomain accepted.length payload)
  | .ipCidr =>
    let ranges := rules.filterMap acceptCidr
    if ranges.length = 0 then some (.error (.config "empty rule"))
    else some (.ok (mrsFile mrsBehaviorIpcidr ranges.length
      (mrsIpcidrPayloadFromRanges (mergeRanges ranges))))

/-! ## Reading what was written -/

theorem bytes_append {a rest : Bytes} {n : Nat} (h : a.length = n) :
    Cursor.bytes n (a ++ rest) = some (a, rest) := by
  unfold Cursor.bytes
  rw [if_pos (by simp [h]), List.take_left' h, List.drop_left' h]

theorem beU64_append (w : UInt64) (rest : Bytes) : Cursor.beU64 (be64 w ++ rest) = some (w, rest) := by
  unfold Cursor.beU64
  rw [bytes_append (length_be64 w), Option.map_some, ofBE64_be64]

/-- A count below 2^63 is read back as itself. -/
theorem beI64_append {n : Nat} (h : n < 2 ^ 63) (rest : Bytes) :
    Cursor.beI64 (be64 (UInt64.ofNat n) ++ rest) = some ((n : Int), rest) := by
  unfold Cursor.beI64
  rw [beU64_append, Option.map_some]
  have hn : (UInt64.ofNat n).toBitVec.toNat = n := by
    show (UInt64.ofNat n).toNat = n
    rw [UInt64.toNat_ofNat']
    omega
  rw [BitVec.toInt_eq_toNat_of_lt (by rw [hn]; omega), hn]

theorem byte_cons (b : UInt8) (rest : Bytes) : Cursor.byte (b :: rest) = some (b, rest) := rfl

/-- A written header is accepted, and the payload is read by the behavior's reader. -/
theorem parseMrsRaw_header {count : Nat} (hc : count < 2 ^ 63) (behavior : UInt8) (payload : Bytes) :
    parseMrsRaw (mrsMagic ++ [behavior] ++ be64 (UInt64.ofNat count) ++ be64 0 ++ payload) =
      readMrsPayload behavior payload := by
  have hmagic : ∀ rest, Cursor.bytes 4 (mrsMagic ++ rest) = some (mrsMagic, rest) :=
    fun rest => bytes_append rfl
  have hzero : Cursor.beI64 (be64 0 ++ payload) = some (0, payload) := by
    have h := beI64_append (n := 0) (by decide) payload
    exact h
  have hskip : Cursor.skip (Int.toNat 0) payload = some payload := by
    unfold Cursor.skip
    rw [if_neg (by simp), Int.toNat_zero, List.drop_zero]
  unfold parseMrsRaw
  rw [List.append_assoc, List.append_assoc, List.append_assoc, hmagic, okOr_some, bind_ok]
  dsimp only
  rw [ensure_of rfl, bind_ok, List.singleton_append, byte_cons, okOr_some, bind_ok]
  dsimp only
  rw [beI64_append hc, okOr_some, bind_ok]
  dsimp only
  rw [ensure_of (Int.natCast_nonneg count), bind_ok, hzero, okOr_some, bind_ok]
  dsimp only
  rw [ensure_of (Int.le_refl 0), bind_ok, hskip, okOr_some, bind_ok]

/-- A written file parses as its payload does. -/
theorem parseMrs_mrsFile {zstd : Bytes → Except String Bytes} (hz : Decodes zstd) {count : Nat}
    (hc : count < 2 ^ 63) (behavior : UInt8) {payload : Bytes} (hp : payload.length < 2 ^ 63) :
    parseMrs zstd (mrsFile behavior count payload) = readMrsPayload behavior payload := by
  unfold parseMrs mrsFile
  rw [hz _ _ (rawFrame_zstdStoreFrame (by simp [mrsMagic]; omega))]
  exact parseMrsRaw_header hc behavior payload

end RustCrash.RulesetBin
