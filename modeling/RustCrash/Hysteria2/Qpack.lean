import RustCrash.Lib.ByteVec
import RustCrash.Error
import RustCrash.Hysteria2.Huffman

/-
  The QPACK decoder of the Hysteria2 client (`proto/hysteria2.rs`): the encoder stream drives
  the dynamic table, and field sections refer to it.

  Numbers with a prefix, absolute indexes and the count of inserts are `u64` as in the source,
  and the additions it leaves unchecked wrap. The size of the table stays below its capacity,
  of 1 MiB at most, so `size` and `capacity` are plain numbers.

  `history` is beside the program: the entries inserted so far, the first one first.
-/

namespace RustCrash.Hysteria2

open Lib

/-! ## Errors -/

inductive QpackError where
  | fatal (why : String)
  | insertTooLarge
  | stateInvalid
  | outOfRange (abs : Nat)
  | beforeTable (rel : UInt64)
  | badStaticName (idx : UInt64)
  | badStatic (idx : UInt64)
  | aboveAdvertised
  | capacityTooLarge
  | truncated (what : String)
  | basePrecedes
  | beforeStart (what : String)
  | countOutOfRange
  | countZero
  deriving DecidableEq, Repr

abbrev QpackResult (α : Type) := Except QpackError α

/-- `ok_or_else`. -/
def orErr {α : Type} (o : Option α) (e : QpackError) : QpackResult α :=
  match o with
  | some a => .ok a
  | none => .error e

theorem orErr_eq_ok {α : Type} {o : Option α} {e : QpackError} {a : α}
    (h : orErr o e = .ok a) : o = some a := by
  cases o with
  | none => cases h
  | some b =>
    cases h
    rfl

/-! ## Numbers and strings -/

/-- `u64::checked_add`. -/
def checkedAdd (a b : UInt64) : Option UInt64 :=
  if a.toNat + b.toNat < 2 ^ 64 then some (a + b) else none

/-- `u64::checked_sub`. -/
def checkedSub (a b : UInt64) : Option UInt64 := if b ≤ a then some (a - b) else none

/-- The bytes of a number behind its prefix, `off` being where the first of them is. -/
def readGroups : Bytes → UInt64 → UInt64 → Nat → Option (UInt64 × Nat)
  | [], _, _, _ => none
  | b :: rest, v, shift, off =>
    if 56 < shift then none
    else
      (checkedAdd v ((b &&& 0x7f).toUInt64 <<< shift)).bind fun v =>
        if b &&& 0x80 = 0 then some (v, off + 1) else readGroups rest v (shift + 7) (off + 1)

/-- The value and the offset behind it. -/
def readPrefixedInt (data : Bytes) (off : Nat) (prefixBits : UInt64) : Option (UInt64 × Nat) :=
  data[off]?.bind fun first =>
    let max : UInt64 := (1 <<< prefixBits) - 1
    let v := first.toUInt64 &&& max
    if v < max then some (v, off + 1) else readGroups (data.drop (off + 1)) v 0 (off + 1)

def readStringLiteral (data : Bytes) (off : Nat) (prefixBits : UInt64) (huffMask : UInt8) :
    Option (Bytes × Nat) := do
  let first ← data[off]?
  let (len, off) ← readPrefixedInt data off prefixBits
  if off + len.toNat ≤ data.length then
    let bytes := slice data off len.toNat
    if first &&& huffMask ≠ 0 then (huffmanDecode bytes).map fun s => (s, off + len.toNat)
    else some (bytes, off + len.toNat)
  else none

theorem readGroups_advances {bs : Bytes} {v shift : UInt64} {off : Nat} {r : UInt64 × Nat}
    (h : readGroups bs v shift off = some r) : off < r.2 := by
  induction bs generalizing v shift off with
  | nil => cases h
  | cons b rest ih =>
    unfold readGroups at h
    by_cases hshift : 56 < shift
    · rw [if_pos hshift] at h
      cases h
    rw [if_neg hshift] at h
    obtain ⟨v', _, h⟩ := Option.bind_eq_some_iff.mp h
    split_ifs at h
    · cases h
      exact Nat.lt_succ_self off
    · exact Nat.lt_of_succ_lt (ih h)

theorem readPrefixedInt_advances {data : Bytes} {off : Nat} {bits : UInt64} {r : UInt64 × Nat}
    (h : readPrefixedInt data off bits = some r) : off < r.2 := by
  unfold readPrefixedInt at h
  obtain ⟨first, _, h⟩ := Option.bind_eq_some_iff.mp h
  dsimp only at h
  split_ifs at h
  · cases h
    exact Nat.lt_succ_self off
  · exact Nat.lt_of_succ_lt (readGroups_advances h)

theorem readStringLiteral_advances {data : Bytes} {off : Nat} {bits : UInt64} {mask : UInt8}
    {r : Bytes × Nat} (h : readStringLiteral data off bits mask = some r) : off < r.2 := by
  unfold readStringLiteral at h
  obtain ⟨first, _, h⟩ := Option.bind_eq_some_iff.mp h
  obtain ⟨⟨len, n⟩, hlen, h⟩ := Option.bind_eq_some_iff.mp h
  have hn : off < n := readPrefixedInt_advances hlen
  dsimp only at h
  split_ifs at h
  · obtain ⟨s, _, h⟩ := Option.map_eq_some_iff.mp h
    rw [← h]
    exact Nat.lt_add_right _ hn
  · cases h
    exact Nat.lt_add_right _ hn

/-! ## The tables -/

abbrev Entry := Str × Str

def qpackStaticTable : List (String × String) :=
  [(":authority", ""), (":path", "/"), ("age", "0"), ("content-disposition", ""),
   ("content-length", "0"), ("cookie", ""), ("date", ""), ("etag", ""),
   ("if-modified-since", ""), ("if-none-match", ""), ("last-modified", ""), ("link", ""),
   ("location", ""), ("referer", ""), ("set-cookie", ""), (":method", "CONNECT"),
   (":method", "DELETE"), (":method", "GET"), (":method", "HEAD"), (":method", "OPTIONS"),
   (":method", "POST"), (":method", "PUT"), (":scheme", "http"), (":scheme", "https"),
   (":status", "103"), (":status", "200"), (":status", "304"), (":status", "404"),
   (":status", "503"), ("accept", "*/*"), ("accept", "application/dns-message"),
   ("accept-encoding", "gzip, deflate, br"), ("accept-ranges", "bytes"),
   ("access-control-allow-headers", "cache-control"),
   ("access-control-allow-headers", "content-type"), ("access-control-allow-origin", "*"),
   ("cache-control", "max-age=0"), ("cache-control", "max-age=2592000"),
   ("cache-control", "max-age=604800"), ("cache-control", "no-cache"),
   ("cache-control", "no-store"), ("cache-control", "public, max-age=31536000"),
   ("content-encoding", "br"), ("content-encoding", "gzip"),
   ("content-type", "application/dns-message"), ("content-type", "application/javascript"),
   ("content-type", "application/json"), ("content-type", "application/x-www-form-urlencoded"),
   ("content-type", "image/gif"), ("content-type", "image/jpeg"), ("content-type", "image/png"),
   ("content-type", "text/css"), ("content-type", "text/html;charset=utf-8"),
   ("content-type", "text/plain"), ("content-type", "text/plain;charset=utf-8"),
   ("range", "bytes=0-"), ("strict-transport-security", "max-age=31536000"),
   ("strict-transport-security", "max-age=31536000;includesubdomains"),
   ("strict-transport-security", "max-age=31536000;includesubdomains;preload"),
   ("vary", "accept-encoding"), ("vary", "origin"), ("x-content-type-options", "nosniff"),
   ("x-xss-protection", "1; mode=block"), (":status", "100"), (":status", "204"),
   (":status", "206"), (":status", "302"), (":status", "400"), (":status", "403"),
   (":status", "421"), (":status", "425"), (":status", "500"), ("accept-language", ""),
   ("access-control-allow-credentials", "FALSE"), ("access-control-allow-credentials", "TRUE"),
   ("access-control-allow-headers", "*"), ("access-control-allow-methods", "get"),
   ("access-control-allow-methods", "get, post, options"),
   ("access-control-allow-methods", "options"),
   ("access-control-expose-headers", "content-length"),
   ("access-control-request-headers", "content-type"), ("access-control-request-method", "get"),
   ("access-control-request-method", "post"), ("alt-svc", "clear"), ("authorization", ""),
   ("content-security-policy", "script-src 'none'; object-src 'none'; base-uri 'none'"),
   ("early-data", "1"), ("expect-ct", ""), ("forwarded", ""), ("if-range", ""), ("origin", ""),
   ("purpose", "prefetch"), ("server", ""), ("timing-allow-origin", "*"),
   ("upgrade-insecure-requests", "1"), ("user-agent", ""), ("x-forwarded-for", ""),
   ("x-frame-options", "deny"), ("x-frame-options", "sameorigin")]

/-- `QPACK_STATIC_TABLE.get(idx as usize)`. -/
def staticEntry (idx : UInt64) : Option Entry :=
  qpackStaticTable[idx.toNat]?.map fun e => (e.1.toList, e.2.toList)

/-- An index into the static table, or else what the dynamic one gives. -/
def staticOr (isStatic : Bool) (idx : UInt64) (bad : QpackError) (dynamic : QpackResult Entry) :
    QpackResult Entry :=
  if isStatic then orErr (staticEntry idx) bad else dynamic

def qpackLenientCapacity : Nat := 64 * 1024
def qpackLenientMaxCapacity : Nat := 2 ^ 20

structure QpackDecoder where
  /-- The newest first. -/
  entries : List Entry
  size : Nat
  capacity : Nat
  insertCount : UInt64
  maxTableCapacity : UInt64
  fatal : Option String
  /-- All that was inserted, the oldest first. -/
  history : List Entry

namespace QpackDecoder

/-- `QpackDecoder::default()`. -/
def fresh : QpackDecoder := ⟨[], 0, qpackLenientCapacity, 0, 0, none, []⟩

def entrySize (e : Entry) : Nat := 32 + (utf8 e.1).length + (utf8 e.2).length

/-- `while self.size > self.capacity { pop_back }`, over the entries from the oldest on. -/
def evictOldest (capacity : Nat) : List Entry → Nat → List Entry × Nat
  | [], size => ([], size)
  | e :: rest, size =>
    if capacity < size then evictOldest capacity rest (size - entrySize e) else (e :: rest, size)

def evictToCapacity (s : QpackDecoder) : QpackDecoder :=
  let r := evictOldest s.capacity s.entries.reverse s.size
  { s with entries := r.1.reverse, size := r.2 }

/-- `push_front`. -/
def pushEntry (s : QpackDecoder) (e : Entry) : QpackDecoder :=
  { s with
    entries := e :: s.entries, size := s.size + entrySize e, insertCount := s.insertCount + 1
    history := s.history ++ [e] }

def insert (s : QpackDecoder) (e : Entry) : QpackResult QpackDecoder :=
  if s.capacity < entrySize e then .error .insertTooLarge
  else .ok (s.pushEntry e).evictToCapacity

def lookupAbsolute (s : QpackDecoder) (abs : UInt64) : QpackResult Entry :=
  match checkedSub s.insertCount (UInt64.ofNat s.entries.length) with
  | none => .error .stateInvalid
  | some oldest =>
    if abs < oldest ∨ s.insertCount ≤ abs then .error (.outOfRange abs.toNat)
    else orErr s.entries[(s.insertCount - 1 - abs).toNat]? .stateInvalid

def lookupEncoderRelative (s : QpackDecoder) (rel : UInt64) : QpackResult Entry := do
  let abs ← orErr ((checkedAdd rel 1).bind fun r => checkedSub s.insertCount r) (.beforeTable rel)
  s.lookupAbsolute abs

/-! ## The encoder stream

An instruction at `off`; none when it is cut off. -/

def insertWithName (s : QpackDecoder) (data : Bytes) (off : Nat) (isStatic : Bool) :
    QpackResult (Option (QpackDecoder × Nat)) :=
  match readPrefixedInt data off 6 with
  | none => .ok none
  | some (idx, n) =>
    match readStringLiteral data n 7 0x80 with
    | none => .ok none
    | some (value, n2) => do
      let named ← staticOr isStatic idx (.badStaticName idx) (s.lookupEncoderRelative idx)
      let t ← s.insert (named.1, fromUtf8Lossy value)
      return some (t, n2)

def insertWithLiteral (s : QpackDecoder) (data : Bytes) (off : Nat) :
    QpackResult (Option (QpackDecoder × Nat)) :=
  match readStringLiteral data off 5 0x20 with
  | none => .ok none
  | some (name, n) =>
    match readStringLiteral data n 7 0x80 with
    | none => .ok none
    | some (value, n2) => do
      let t ← s.insert (fromUtf8Lossy name, fromUtf8Lossy value)
      return some (t, n2)

def setCapacity (s : QpackDecoder) (data : Bytes) (off : Nat) :
    QpackResult (Option (QpackDecoder × Nat)) :=
  match readPrefixedInt data off 5 with
  | none => .ok none
  | some (cap, n) =>
    if 0 < s.maxTableCapacity ∧ s.maxTableCapacity < cap then .error .aboveAdvertised
    else if qpackLenientMaxCapacity < cap.toNat then .error .capacityTooLarge
    else .ok (some ({ s with capacity := cap.toNat : QpackDecoder }.evictToCapacity, n))

def duplicate (s : QpackDecoder) (data : Bytes) (off : Nat) :
    QpackResult (Option (QpackDecoder × Nat)) :=
  match readPrefixedInt data off 5 with
  | none => .ok none
  | some (rel, n) => do
    let e ← s.lookupEncoderRelative rel
    let t ← s.insert e
    return some (t, n)

def encoderStep (s : QpackDecoder) (data : Bytes) (off : Nat) :
    QpackResult (Option (QpackDecoder × Nat)) :=
  let b := data.getD off 0
  if b &&& 0x80 ≠ 0 then s.insertWithName data off (b &&& 0x40 ≠ 0)
  else if b &&& 0xc0 = 0x40 then s.insertWithLiteral data off
  else if b &&& 0xe0 = 0x20 then s.setCapacity data off
  else s.duplicate data off

/-- What an instruction does to the table. -/
inductive Instructs (s : QpackDecoder) : QpackDecoder → Prop where
  | insert {e : Entry} {t : QpackDecoder} (h : s.insert e = .ok t) : Instructs s t
  | capacity {cap : Nat} (h : cap ≤ qpackLenientMaxCapacity) :
    Instructs s { s with capacity := cap : QpackDecoder }.evictToCapacity

variable {s t : QpackDecoder} {data : Bytes} {off n : Nat}

theorem insertWithName_cases {isStatic : Bool}
    (h : s.insertWithName data off isStatic = .ok (some (t, n))) : off < n ∧ Instructs s t := by
  unfold insertWithName at h
  cases hidx : readPrefixedInt data off 6 with
  | none => rw [hidx] at h; cases h
  | some x =>
    have hx := readPrefixedInt_advances hidx
    rw [hidx] at h
    dsimp only at h
    cases hval : readStringLiteral data x.2 7 0x80 with
    | none => rw [hval] at h; cases h
    | some y =>
      have hy := readStringLiteral_advances hval
      rw [hval] at h
      obtain ⟨named, _, h⟩ := bind_eq_ok.mp h
      obtain ⟨u, hu, h⟩ := bind_eq_ok.mp h
      cases h
      exact ⟨hx.trans hy, .insert hu⟩

theorem insertWithLiteral_cases (h : s.insertWithLiteral data off = .ok (some (t, n))) :
    off < n ∧ Instructs s t := by
  unfold insertWithLiteral at h
  cases hname : readStringLiteral data off 5 0x20 with
  | none => rw [hname] at h; cases h
  | some x =>
    have hx := readStringLiteral_advances hname
    rw [hname] at h
    dsimp only at h
    cases hval : readStringLiteral data x.2 7 0x80 with
    | none => rw [hval] at h; cases h
    | some y =>
      have hy := readStringLiteral_advances hval
      rw [hval] at h
      obtain ⟨u, hu, h⟩ := bind_eq_ok.mp h
      cases h
      exact ⟨hx.trans hy, .insert hu⟩

theorem setCapacity_cases (h : s.setCapacity data off = .ok (some (t, n))) :
    off < n ∧ Instructs s t := by
  unfold setCapacity at h
  cases hcap : readPrefixedInt data off 5 with
  | none => rw [hcap] at h; cases h
  | some x =>
    have hx := readPrefixedInt_advances hcap
    rw [hcap] at h
    dsimp only at h
    split_ifs at h with _ hmax
    cases h
    exact ⟨hx, .capacity (Nat.le_of_not_lt hmax)⟩

theorem duplicate_cases (h : s.duplicate data off = .ok (some (t, n))) :
    off < n ∧ Instructs s t := by
  unfold duplicate at h
  cases hrel : readPrefixedInt data off 5 with
  | none => rw [hrel] at h; cases h
  | some x =>
    have hx := readPrefixedInt_advances hrel
    rw [hrel] at h
    obtain ⟨e, _, h⟩ := bind_eq_ok.mp h
    obtain ⟨u, hu, h⟩ := bind_eq_ok.mp h
    cases h
    exact ⟨hx, .insert hu⟩

theorem encoderStep_cases (h : s.encoderStep data off = .ok (some (t, n))) :
    off < n ∧ Instructs s t := by
  unfold encoderStep at h
  dsimp only at h
  split_ifs at h
  · exact insertWithName_cases h
  · exact insertWithLiteral_cases h
  · exact setCapacity_cases h
  · exact duplicate_cases h

theorem left_shrinks {len : Nat} (hoff : off < len) (hn : off < n) : len - n < len - off := by
  omega

/-- The table and the bytes consumed; `while off < data.len()`. -/
def applyFrom (s : QpackDecoder) (data : Bytes) (off : Nat) : QpackDecoder × QpackResult Nat :=
  if _ : off < data.length then
    match _ : s.encoderStep data off with
    | .error e => (s, .error e)
    | .ok none => (s, .ok off)
    | .ok (some (t, n)) => t.applyFrom data n
  else (s, .ok off)
termination_by data.length - off
decreasing_by exact left_shrinks ‹_› (encoderStep_cases ‹_›).1

def applyEncoderInstructions (s : QpackDecoder) (data : Bytes) : QpackDecoder × QpackResult Nat :=
  match s.fatal with
  | some why => (s, .error (.fatal why))
  | none => s.applyFrom data 0

/-! ## Field sections -/

structure DecodedSection where
  fields : List Entry
  requiredInsertCount : UInt64
  deriving DecidableEq

def decodeRequiredInsertCount (enc totalInserts maxCapacity : UInt64) : QpackResult UInt64 :=
  let maxEntries := maxCapacity / 32
  let fullRange := 2 * maxEntries
  let maxValue := totalInserts + maxEntries
  let ric := maxValue / fullRange * fullRange + enc - 1
  if enc = 0 then .ok 0
  else if maxEntries = 0 then .ok enc
  else if fullRange < enc then .error .countOutOfRange
  else if maxValue < ric then
    if ric ≤ fullRange then .error .countOutOfRange
    else if ric - fullRange = 0 then .error .countZero
    else .ok (ric - fullRange)
  else if ric = 0 then .error .countZero
  else .ok ric

/-- What is in front of the lines. -/
structure SectionPrefix where
  ric : UInt64
  sign : Bool
  delta : UInt64
  off : Nat

/-- None while the section is blocked. -/
def sectionPrefix (s : QpackDecoder) (buf : Bytes) : QpackResult (Option SectionPrefix) :=
  match s.fatal with
  | some why => .error (.fatal why)
  | none => do
    let (encRic, off) ← orErr (readPrefixedInt buf 0 8) (.truncated "prefix")
    let ric ← decodeRequiredInsertCount encRic s.insertCount s.maxTableCapacity
    if s.insertCount < ric then return none
    let sign := buf[off]?.any fun b => b &&& 0x80 ≠ 0
    let (delta, n) ← orErr (readPrefixedInt buf off 7) (.truncated "base")
    return some ⟨ric, sign, delta, n⟩

/-- The additions here and in `postBase` are not checked. -/
def SectionPrefix.base (p : SectionPrefix) : QpackResult UInt64 :=
  if p.sign then orErr ((checkedSub p.ric p.delta).bind fun v => checkedSub v 1) .basePrecedes
  else .ok (p.ric + p.delta)

def preBase (s : QpackDecoder) (base : UInt64) (what : String) (idx : UInt64) :
    QpackResult Entry := do
  let abs ← orErr ((checkedAdd idx 1).bind fun r => checkedSub base r) (.beforeStart what)
  s.lookupAbsolute abs

def postBase (s : QpackDecoder) (base idx : UInt64) : QpackResult Entry :=
  s.lookupAbsolute (base + idx)

/-- The value behind a name. -/
def valueBehind (buf : Bytes) (off : Nat) (name : Str) : QpackResult (Entry × Nat) := do
  let (value, n) ← orErr (readStringLiteral buf off 7 0x80) (.truncated "value")
  return ((name, fromUtf8Lossy value), n)

/-- The line at `off`, the dynamic indexes being resolved by `pre` and `post`. -/
def fieldLine (pre : String → UInt64 → QpackResult Entry) (post : UInt64 → QpackResult Entry)
    (buf : Bytes) (off : Nat) : QpackResult (Entry × Nat) :=
  let b := buf.getD off 0
  if b &&& 0x80 ≠ 0 then do
    let (idx, n) ← orErr (readPrefixedInt buf off 6) (.truncated "index")
    let e ← staticOr (b &&& 0x40 ≠ 0) idx (.badStatic idx) (pre "reference" idx)
    return (e, n)
  else if b &&& 0xc0 = 0x40 then do
    let (idx, n) ← orErr (readPrefixedInt buf off 4) (.truncated "name index")
    let e ← staticOr (b &&& 0x10 ≠ 0) idx (.badStaticName idx) (pre "name reference" idx)
    valueBehind buf n e.1
  else if b &&& 0xe0 = 0x20 then do
    let (name, n) ← orErr (readStringLiteral buf off 3 0x08) (.truncated "name")
    valueBehind buf n (fromUtf8Lossy name)
  else if b &&& 0xf0 = 0x10 then do
    let (idx, n) ← orErr (readPrefixedInt buf off 4) (.truncated "post-base index")
    let e ← post idx
    return (e, n)
  else do
    let (idx, n) ← orErr (readPrefixedInt buf off 3) (.truncated "post-base name index")
    let e ← post idx
    valueBehind buf n e.1

theorem valueBehind_advances {buf : Bytes} {name : Str} {e : Entry}
    (h : valueBehind buf off name = .ok (e, n)) : off < n := by
  unfold valueBehind at h
  obtain ⟨y, hy, h⟩ := bind_eq_ok.mp h
  cases h
  exact readStringLiteral_advances (orErr_eq_ok hy)

theorem fieldLine_advances {pre : String → UInt64 → QpackResult Entry}
    {post : UInt64 → QpackResult Entry} {buf : Bytes} {e : Entry}
    (h : fieldLine pre post buf off = .ok (e, n)) : off < n := by
  unfold fieldLine at h
  dsimp only at h
  split_ifs at h
  · obtain ⟨x, hx, h⟩ := bind_eq_ok.mp h
    obtain ⟨named, _, h⟩ := bind_eq_ok.mp h
    cases h
    exact readPrefixedInt_advances (orErr_eq_ok hx)
  · obtain ⟨x, hx, h⟩ := bind_eq_ok.mp h
    obtain ⟨named, _, h⟩ := bind_eq_ok.mp h
    exact (readPrefixedInt_advances (orErr_eq_ok hx)).trans (valueBehind_advances h)
  · obtain ⟨x, hx, h⟩ := bind_eq_ok.mp h
    exact (readStringLiteral_advances (orErr_eq_ok hx)).trans (valueBehind_advances h)
  · obtain ⟨x, hx, h⟩ := bind_eq_ok.mp h
    obtain ⟨named, _, h⟩ := bind_eq_ok.mp h
    cases h
    exact readPrefixedInt_advances (orErr_eq_ok hx)
  · obtain ⟨x, hx, h⟩ := bind_eq_ok.mp h
    obtain ⟨named, _, h⟩ := bind_eq_ok.mp h
    exact (readPrefixedInt_advances (orErr_eq_ok hx)).trans (valueBehind_advances h)

/-- `while off < buf.len()`. -/
def fieldLines (pre : String → UInt64 → QpackResult Entry) (post : UInt64 → QpackResult Entry)
    (buf : Bytes) (off : Nat) (fields : List Entry) : QpackResult (List Entry) :=
  if _ : off < buf.length then
    match _ : fieldLine pre post buf off with
    | .error e => .error e
    | .ok (e, n) => fieldLines pre post buf n (fields ++ [e])
  else .ok fields
termination_by buf.length - off
decreasing_by exact left_shrinks ‹_› (fieldLine_advances ‹_›)

def decodeFieldSection (s : QpackDecoder) (buf : Bytes) :
    QpackResult (Option DecodedSection) := do
  match ← s.sectionPrefix buf with
  | none => return none
  | some p =>
    let base ← p.base
    let fields ← fieldLines (s.preBase base) (s.postBase base) buf p.off []
    return some ⟨fields, p.ric⟩

end QpackDecoder

end RustCrash.Hysteria2
