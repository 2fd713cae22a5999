import RustCrash.Lib.Checked
import RustCrash.Dns.Sections

/-
  `parse` and `read_name` with every index, slice and sum checked, against a message that
  is read entry by entry (`Tiled`).

  In a slice of at most `isize::MAX` bytes the offsets never overflow and every read is in
  bounds (`readNameChecked_eq`). What
  can overflow is the sum of the three record counts, which is formed in `u16` once the
  questions have been read. `parse_faithful_iff` says that `parse` follows its header counts
  exactly when that sum fits.
-/

namespace RustCrash.Dns

open Lib

/-! ## The parser in machine arithmetic -/

/-- A slice of the machine has at most `isize::MAX` bytes. -/
def IsSlice (raw : Bytes) : Prop := raw.length < 2 ^ 63

/-- `u16::from_be_bytes([raw[off], raw[off + 1]])`. -/
def u16Checked (raw : Bytes) (off : Nat) : Option UInt16 := do
  let b0 ← raw[off]?
  let off1 ← addChecked 64 off 1
  let b1 ← raw[off1]?
  return ofBE16 [b0, b1]

/-- `u32::from_be_bytes` of the four bytes at an offset. -/
def u32Checked (raw : Bytes) (off : Nat) : Option UInt32 := do
  let b0 ← raw[off]?
  let off1 ← addChecked 64 off 1
  let b1 ← raw[off1]?
  let off2 ← addChecked 64 off 2
  let b2 ← raw[off2]?
  let off3 ← addChecked 64 off 3
  let b3 ← raw[off3]?
  return ofBE32 [b0, b1, b2, b3]

/-- `consumed += n`, unless a pointer has been followed. -/
def countChecked (followedPointer : Bool) (consumed n : Nat) : Option Nat :=
  if followedPointer then some consumed else addChecked 64 consumed n

/-- The consumed count after a pointer at `pos`: `pos + 2 - offset` for the first one. -/
def jumpChecked (followedPointer : Bool) (consumed pos offset : Nat) : Option Nat :=
  if followedPointer then some consumed
  else (addChecked 64 pos 2).bind fun stop => subChecked stop offset

/-- The loop of `read_name`; `none` when an operation panics, or the budget is used up. -/
def readNameLoopChecked (raw : Bytes) (offset : Nat) :
    Nat → Nat → Nat → Bool → Nat → List Str → Option (Result (Str × Nat))
  | 0, _, _, _, _, _ => none
  | fuel + 1, pos, consumed, followedPointer, jumps, labels =>
    if raw.length ≤ pos then some (.error (.dns "name runs past end"))
    else do
      let b ← raw[pos]?
      let len := b.toNat
      if len &&& 0xC0 = 0x00 then do
        let pos ← addChecked 64 pos 1
        let consumed ← countChecked followedPointer consumed 1
        if len = 0 then some (.ok (Str.join '.' labels, consumed))
        else do
          let stop ← addChecked 64 pos len
          if raw.length < stop then some (.error (.dns "label runs past end"))
          else do
            let label ← sliceChecked raw pos stop
            let consumed ← countChecked followedPointer consumed len
            readNameLoopChecked raw offset fuel stop consumed followedPointer jumps
              (labels ++ [Str.asciiLower (fromUtf8Lossy label)])
      else if len &&& 0xC0 = 0xC0 then do
        let next ← addChecked 64 pos 1
        if raw.length ≤ next then some (.error (.dns "truncated pointer"))
        else do
          let lo ← raw[next]?
          let ptr := ((len &&& 0x3F) <<< 8) ||| lo.toNat
          if pos ≤ ptr then some (.error (.dns "bad compression pointer"))
          else do
            let consumed ← jumpChecked followedPointer consumed pos offset
            if 32 < jumps + 1 then some (.error (.dns "compression loop"))
            else readNameLoopChecked raw offset fuel ptr consumed true (jumps + 1) labels
      else some (.error (.dns "reserved label type"))

def readNameChecked (raw : Bytes) (offset : Nat) : Option (Result (Str × Nat)) :=
  readNameLoopChecked raw offset (33 * (raw.length + 1)) offset 0 false 0 []

/-- One question behind its name. -/
def questionChecked (raw : Bytes) (name : Str) (off : Nat) : Option (Result (Question × Nat)) := do
  let stop ← addChecked 64 off 4
  if raw.length < stop then some (.error (.dns "truncated question"))
  else do
    let qtype ← u16Checked raw off
    let off2 ← addChecked 64 off 2
    let qclass ← u16Checked raw off2
    return .ok (⟨name, qtype, qclass⟩, stop)

/-- One record behind its name. -/
def recordChecked (raw : Bytes) (name : Str) (off : Nat) :
    Option (Result (ResourceRecord × Nat)) := do
  let data ← addChecked 64 off 10
  if raw.length < data then some (.error (.dns "truncated record"))
  else do
    let rtype ← u16Checked raw off
    let off2 ← addChecked 64 off 2
    let rclass ← u16Checked raw off2
    let off4 ← addChecked 64 off 4
    let ttl ← u32Checked raw off4
    let off8 ← addChecked 64 off 8
    let rdlen ← u16Checked raw off8
    let stop ← addChecked 64 data rdlen.toNat
    if raw.length < stop then some (.error (.dns "truncated rdata"))
    else do
      let rdata ← sliceChecked raw data stop
      return .ok (⟨name, rtype, rclass, ttl, rdata⟩, stop)

/-- `n` entries from an offset: a name, and what `entry` reads behind it. -/
def entriesChecked {α : Type} (entry : Str → Nat → Option (Result (α × Nat))) (raw : Bytes) :
    Nat → Nat → Option (Result (List α × Nat))
  | 0, off => some (.ok ([], off))
  | n + 1, off => do
    let name ← readNameChecked raw off
    match name with
    | .error e => return .error e
    | .ok (name, used) =>
      let off ← addChecked 64 off used
      let e ← entry name off
      match e with
      | .error e => return .error e
      | .ok (a, off) =>
        let rest ← entriesChecked entry raw n off
        return rest.map fun p => (a :: p.1, p.2)

/-- `parse` behind the question section: the record counts are added as `u16`. -/
def messageChecked (raw : Bytes) (id flags an ns ar : UInt16) :
    Result (List Question × Nat) → Option (Result DnsMessage)
  | .error e => some (.error e)
  | .ok (questions, off) => do
    let sum ← addChecked 16 an.toNat ns.toNat
    let total ← addChecked 16 sum ar.toNat
    let answers ← entriesChecked (recordChecked raw) raw total off
    return answers.map fun p =>
      { id := id
        flags := flags
        opcode := ((flags >>> 11) &&& 0xF).toUInt8
        rcode := (flags &&& 0xF).toUInt8
        questions := questions
        answers := p.1
        raw := raw }

/-- `parse`; `none` when an operation panics. -/
def parseChecked (raw : Bytes) : Option (Result DnsMessage) :=
  if raw.length < 12 then some (.error (.dns "message shorter than header"))
  else do
    let id ← u16Checked raw 0
    let flags ← u16Checked raw 2
    let qd ← u16Checked raw 4
    let an ← u16Checked raw 6
    let ns ← u16Checked raw 8
    let ar ← u16Checked raw 10
    let questions ← entriesChecked (questionChecked raw) raw qd.toNat 12
    messageChecked raw id flags an ns ar questions

/-! ## Reads in bounds -/

section

variable {raw : Bytes}

theorem u16Checked_eq (hraw : IsSlice raw) {off : Nat} (h : off + 2 ≤ raw.length) :
    u16Checked raw off = some (u16At raw off) := by
  unfold IsSlice at hraw
  have hdrop : (raw.drop off).take 2 = [raw[off], raw[off + 1]] := by
    rw [List.drop_eq_getElem_cons (by omega), List.drop_eq_getElem_cons (by omega)]
    rfl
  unfold u16Checked u16At
  rw [hdrop, addChecked_of_lt (by omega), List.getElem?_eq_getElem (by omega : off < raw.length)]
  simp only [Option.bind_eq_bind, Option.bind_some]
  rw [List.getElem?_eq_getElem (by omega)]
  rfl

theorem u32Checked_eq (hraw : IsSlice raw) {off : Nat} (h : off + 4 ≤ raw.length) :
    u32Checked raw off = some (u32At raw off) := by
  unfold IsSlice at hraw
  have hdrop : (raw.drop off).take 4 = [raw[off], raw[off + 1], raw[off + 2], raw[off + 3]] := by
    rw [List.drop_eq_getElem_cons (by omega), List.drop_eq_getElem_cons (by omega),
      List.drop_eq_getElem_cons (by omega), List.drop_eq_getElem_cons (by omega)]
    rfl
  unfold u32Checked u32At
  rw [hdrop, addChecked_of_lt (by omega), addChecked_of_lt (by omega), addChecked_of_lt (by omega),
    List.getElem?_eq_getElem (by omega : off < raw.length)]
  simp only [Option.bind_eq_bind, Option.bind_some]
  rw [List.getElem?_eq_getElem (by omega : off + 1 < raw.length),
    List.getElem?_eq_getElem (by omega : off + 2 < raw.length),
    List.getElem?_eq_getElem (by omega : off + 3 < raw.length)]
  rfl

/-- Until a pointer is followed, the position is the offset and what was consumed. -/
theorem readNameLoopChecked_eq (hraw : IsSlice raw) {offset fuel pos consumed jumps : Nat}
    {followed : Bool} {labels : List Str} (hpos : followed = false → pos = offset + consumed) :
    readNameLoopChecked raw offset fuel pos consumed followed jumps labels =
      readNameLoop raw offset fuel pos consumed followed jumps labels := by
  have hmax : raw.length < 2 ^ 63 := hraw
  induction fuel generalizing pos consumed followed jumps labels with
  | zero => rfl
  | succ fuel ih =>
    have hcount : ∀ c n, (followed = false → c ≤ raw.length + 1) → n ≤ 64 →
        countChecked followed c n = some (if followed then c else c + n) := by
      intro c n hc hn
      unfold countChecked
      cases followed with
      | true => rfl
      | false =>
        have := hc rfl
        rw [if_neg Bool.false_ne_true, if_neg Bool.false_ne_true, addChecked_of_lt (by omega)]
    unfold readNameLoopChecked readNameLoop
    by_cases hend : raw.length ≤ pos
    · rw [if_pos hend, List.getElem?_eq_none hend]
    have hlt : pos < raw.length := Nat.not_le.mp hend
    rw [if_neg hend, List.getElem?_eq_getElem hlt]
    simp only [Option.bind_eq_bind, Option.bind_some]
    have hbyte := raw[pos].toNat_lt
    by_cases hlabel : raw[pos].toNat &&& 0xC0 = 0x00
    · have hlen : raw[pos].toNat ≤ 64 := by
        have hall : ∀ k < 256, k &&& 0xC0 = 0 → k ≤ 64 := by decide +kernel
        exact hall _ hbyte hlabel
      rw [if_pos hlabel, if_pos hlabel, addChecked_of_lt (by omega), Option.bind_some,
        hcount consumed 1 (fun hf => by have := hpos hf; omega) (by omega), Option.bind_some]
      by_cases hzero : raw[pos].toNat = 0
      · rw [if_pos hzero, if_pos hzero]
      rw [if_neg hzero, if_neg hzero, addChecked_of_lt (by omega), Option.bind_some]
      by_cases hpast : raw.length < pos + 1 + raw[pos].toNat
      · rw [if_pos hpast, if_pos hpast]
      rw [if_neg hpast, if_neg hpast, sliceChecked_of_le (by omega), Option.bind_some,
        hcount _ _ (fun hf => by have := hpos hf; rw [hf, if_neg Bool.false_ne_true]; omega) hlen,
        Option.bind_some]
      refine ih fun hf => ?_
      have := hpos hf
      rw [hf, if_neg Bool.false_ne_true, if_neg Bool.false_ne_true]
      omega
    rw [if_neg hlabel, if_neg hlabel]
    by_cases hpointer : raw[pos].toNat &&& 0xC0 = 0xC0
    · rw [if_pos hpointer, if_pos hpointer, addChecked_of_lt (by omega), Option.bind_some]
      by_cases hcut : raw.length ≤ pos + 1
      · rw [if_pos hcut, List.getElem?_eq_none hcut]
      rw [if_neg hcut, List.getElem?_eq_getElem (Nat.not_le.mp hcut)]
      simp only [Option.bind_some]
      by_cases hback : pos ≤ ((raw[pos].toNat &&& 0x3F) <<< 8) ||| raw[pos + 1].toNat
      · rw [if_pos hback, if_pos hback]
      have hjump : jumpChecked followed consumed pos offset =
          some (if followed then consumed else pos + 2 - offset) := by
        unfold jumpChecked
        cases followed with
        | true => rfl
        | false =>
          have := hpos rfl
          rw [if_neg Bool.false_ne_true, if_neg Bool.false_ne_true, addChecked_of_lt (by omega),
            Option.bind_some, subChecked_of_le (by omega)]
      rw [if_neg hback, if_neg hback, hjump, Option.bind_some]
      by_cases hmany : 32 < jumps + 1
      · rw [if_pos hmany, if_pos hmany]
      · rw [if_neg hmany, if_neg hmany]
        exact ih fun hf => by cases hf
    · rw [if_neg hpointer, if_neg hpointer]

/-- `read_name` stays in bounds. -/
theorem readNameChecked_eq (hraw : IsSlice raw) (offset : Nat) :
    readNameChecked raw offset = some (readName raw offset) := by
  unfold readNameChecked
  rw [readNameLoopChecked_eq hraw (fun _ => (Nat.add_zero offset).symm), readName_eq]

theorem readName_bounds {off used : Nat} {name : Str} (h : readName raw off = .ok (name, used)) :
    0 < used ∧ off + used ≤ raw.length := by
  have hskip := skipName_bounds (skipName_of_readName h)
  omega

theorem questionChecked_eq (hraw : IsSlice raw) (name : Str) {off : Nat} (hoff : off ≤ raw.length) :
    questionChecked raw name off =
      if raw.length < off + 4 then some (.error (.dns "truncated question"))
      else some (.ok (⟨name, u16At raw off, u16At raw (off + 2)⟩, off + 4)) := by
  have hmax : raw.length < 2 ^ 63 := hraw
  unfold questionChecked
  rw [addChecked_of_lt (by omega)]
  simp only [Option.bind_eq_bind, Option.bind_some]
  by_cases hroom : raw.length < off + 4
  · rw [if_pos hroom, if_pos hroom]
  rw [if_neg hroom, if_neg hroom, u16Checked_eq hraw (by omega), addChecked_of_lt (by omega)]
  simp only [Option.bind_some]
  rw [u16Checked_eq hraw (by omega)]
  rfl

theorem recordChecked_eq (hraw : IsSlice raw) (name : Str) {off : Nat} (hoff : off ≤ raw.length) :
    recordChecked raw name off =
      if raw.length < off + 10 then some (.error (.dns "truncated record"))
      else if raw.length < off + 10 + (u16At raw (off + 8)).toNat then
        some (.error (.dns "truncated rdata"))
      else some (.ok (⟨name, u16At raw off, u16At raw (off + 2), u32At raw (off + 4),
        (raw.drop (off + 10)).take (u16At raw (off + 8)).toNat⟩,
        off + 10 + (u16At raw (off + 8)).toNat)) := by
  have hmax : raw.length < 2 ^ 63 := hraw
  have hrdlen := (u16At raw (off + 8)).toNat_lt
  unfold recordChecked
  rw [addChecked_of_lt (by omega)]
  simp only [Option.bind_eq_bind, Option.bind_some]
  by_cases hroom : raw.length < off + 10
  · rw [if_pos hroom, if_pos hroom]
  rw [if_neg hroom, if_neg hroom, u16Checked_eq hraw (by omega),
    addChecked_of_lt (by omega : off + 2 < 2 ^ 64), addChecked_of_lt (by omega : off + 4 < 2 ^ 64),
    addChecked_of_lt (by omega : off + 8 < 2 ^ 64)]
  simp only [Option.bind_some]
  rw [u16Checked_eq hraw (by omega : off + 2 + 2 ≤ raw.length), u32Checked_eq hraw (by omega),
    u16Checked_eq hraw (by omega : off + 8 + 2 ≤ raw.length)]
  simp only [Option.bind_some]
  rw [addChecked_of_lt (by omega), Option.bind_some]
  by_cases hdata : raw.length < off + 10 + (u16At raw (off + 8)).toNat
  · rw [if_pos hdata, if_pos hdata]
  rw [if_neg hdata, if_neg hdata, sliceChecked_of_le (by omega)]
  rfl

/-- The question loop of `parse` stays in bounds. -/
theorem questionsChecked_eq (hraw : IsSlice raw) (n off : Nat) :
    entriesChecked (questionChecked raw) raw n off = some (readQuestions raw n off) := by
  have hmax : raw.length < 2 ^ 63 := hraw
  induction n generalizing off with
  | zero => rfl
  | succ n ih =>
    unfold entriesChecked readQuestions
    rw [readNameChecked_eq hraw, Option.bind_eq_bind, Option.bind_some]
    cases hname : readName raw off with
    | error e => rfl
    | ok p =>
      obtain ⟨name, used⟩ := p
      have hbounds := readName_bounds hname
      dsimp only
      rw [bind_ok, addChecked_of_lt (by omega), Option.bind_eq_bind, Option.bind_some,
        questionChecked_eq hraw name hbounds.2]
      dsimp only
      by_cases hroom : raw.length < off + used + 4
      · rw [if_pos hroom, if_pos hroom]
        rfl
      · rw [if_neg hroom, if_neg hroom, Option.bind_eq_bind, Option.bind_some]
        dsimp only
        rw [ih]
        cases readQuestions raw n (off + used + 4) <;> rfl

/-- The record loop of `parse` stays in bounds. -/
theorem recordsChecked_eq (hraw : IsSlice raw) (n off : Nat) :
    entriesChecked (recordChecked raw) raw n off = some (readRecords raw n off) := by
  have hmax : raw.length < 2 ^ 63 := hraw
  induction n generalizing off with
  | zero => rfl
  | succ n ih =>
    unfold entriesChecked readRecords
    rw [readNameChecked_eq hraw, Option.bind_eq_bind, Option.bind_some]
    cases hname : readName raw off with
    | error e => rfl
    | ok p =>
      obtain ⟨name, used⟩ := p
      have hbounds := readName_bounds hname
      dsimp only
      rw [bind_ok, addChecked_of_lt (by omega), Option.bind_eq_bind, Option.bind_some,
        recordChecked_eq hraw name hbounds.2]
      dsimp only
      by_cases hroom : raw.length < off + used + 10
      · rw [if_pos hroom, if_pos hroom]
        rfl
      rw [if_neg hroom, if_neg hroom]
      by_cases hdata : raw.length < off + used + 10 + (u16At raw (off + used + 8)).toNat
      · rw [if_pos hdata, if_pos hdata]
        rfl
      · rw [if_neg hdata, if_neg hdata, Option.bind_eq_bind, Option.bind_some]
        dsimp only
        rw [ih]
        cases readRecords raw n (off + used + 10 + (u16At raw (off + used + 8)).toNat) <;> rfl

/-! ## The record counts -/

/-- ANCOUNT + NSCOUNT + ARCOUNT. -/
def countSum (raw : Bytes) : Nat :=
  (u16At raw 6).toNat + (u16At raw 8).toNat + (u16At raw 10).toNat

/-- Up to the end of the questions `parse` stays in bounds. -/
theorem parseChecked_questions (hraw : IsSlice raw) (hheader : 12 ≤ raw.length) :
    parseChecked raw = messageChecked raw (u16At raw 0) (u16At raw 2) (u16At raw 6) (u16At raw 8)
      (u16At raw 10) (readQuestions raw (u16At raw 4).toNat 12) := by
  unfold parseChecked
  rw [if_neg (by omega), u16Checked_eq hraw (by omega), u16Checked_eq hraw (by omega),
    u16Checked_eq hraw (by omega), u16Checked_eq hraw (by omega), u16Checked_eq hraw (by omega),
    u16Checked_eq hraw (by omega)]
  simp only [Option.bind_eq_bind, Option.bind_some]
  rw [questionsChecked_eq hraw, Option.bind_some]

theorem toNat_countSum (h : countSum raw < 2 ^ 16) :
    (u16At raw 6 + u16At raw 8 + u16At raw 10).toNat = countSum raw := by
  unfold countSum at h ⊢
  rw [UInt16.toNat_add, UInt16.toNat_add]
  omega

/-- With a sum of the record counts that fits, `parse` stays in bounds to its end. -/
theorem parseChecked_eq (hraw : IsSlice raw) (hsum : countSum raw < 2 ^ 16) :
    parseChecked raw = some (parse raw) := by
  by_cases hheader : raw.length < 12
  · unfold parseChecked parse
    rw [if_pos hheader, if_pos hheader]
    rfl
  rw [parseChecked_questions hraw (Nat.not_lt.mp hheader)]
  unfold parse
  rw [if_neg hheader]
  dsimp only
  rw [toNat_countSum hsum]
  cases hqs : readQuestions raw (u16At raw 4).toNat 12 with
  | error e => rfl
  | ok p =>
    unfold messageChecked
    rw [bind_ok]
    unfold countSum at hsum ⊢
    dsimp only
    rw [addChecked_of_lt (by omega), Option.bind_eq_bind, Option.bind_some,
      addChecked_of_lt (by omega), Option.bind_eq_bind, Option.bind_some, recordsChecked_eq hraw,
      Option.bind_some]
    cases readRecords raw _ p.2 <;> rfl

/-- A broken question ends the parse before the sum is formed. -/
theorem parse_question_error (hraw : IsSlice raw) (hheader : 12 ≤ raw.length) {e : Error}
    (hqs : readQuestions raw (u16At raw 4).toNat 12 = .error e) :
    parse raw = .error e ∧ parseChecked raw = some (.error e) := by
  rw [parseChecked_questions hraw hheader]
  unfold parse
  rw [if_neg (by omega)]
  dsimp only
  rw [hqs]
  exact ⟨rfl, rfl⟩

/-- Once the questions are read, a sum that does not fit overflows. -/
theorem parseChecked_overflow (hraw : IsSlice raw) (hheader : 12 ≤ raw.length)
    {qs : List Question} {off : Nat}
    (hqs : readQuestions raw (u16At raw 4).toNat 12 = .ok (qs, off))
    (hsum : 2 ^ 16 ≤ countSum raw) : parseChecked raw = none := by
  rw [parseChecked_questions hraw hheader, hqs]
  unfold countSum at hsum
  unfold messageChecked
  dsimp only
  by_cases hfirst : (u16At raw 6).toNat + (u16At raw 8).toNat < 2 ^ 16
  · rw [addChecked_of_lt hfirst, Option.bind_eq_bind, Option.bind_some,
      addChecked_of_le (by omega)]
    rfl
  · rw [addChecked_of_le (by omega)]
    rfl

end

/-! ## Entries in a row -/

/-- The bytes of a name at a position: its labels, and the zero byte or the pointer that
    ends them. -/
inductive NameSpan (raw : Bytes) : Nat → Nat → Prop where
  | root {pos : Nat} (h : raw[pos]? = some 0) : NameSpan raw pos 1
  | pointer {pos : Nat} {hi lo : UInt8} (h : raw[pos]? = some hi) (htag : hi.toNat &&& 0xC0 = 0xC0)
      (hlo : raw[pos + 1]? = some lo) : NameSpan raw pos 2
  | label {pos n : Nat} {b : UInt8} (h : raw[pos]? = some b) (htag : b.toNat &&& 0xC0 = 0)
      (hne : b.toNat ≠ 0) (hroom : pos + 1 + b.toNat ≤ raw.length)
      (hrest : NameSpan raw (pos + 1 + b.toNat) n) : NameSpan raw pos (1 + b.toNat + n)

/-- Questions one after the other from an offset to an end. -/
inductive QuestionsAt (raw : Bytes) : Nat → List Question → Nat → Prop where
  | nil {off : Nat} : QuestionsAt raw off [] off
  | cons {off used stop : Nat} {q : Question} {qs : List Question}
      (hname : readName raw off = .ok (q.name, used)) (hspan : NameSpan raw off used)
      (hroom : off + used + 4 ≤ raw.length) (hqtype : q.qtype = u16At raw (off + used))
      (hqclass : q.qclass = u16At raw (off + used + 2))
      (hrest : QuestionsAt raw (off + used + 4) qs stop) : QuestionsAt raw off (q :: qs) stop

/-- Records one after the other from an offset to an end. -/
inductive RecordsAt (raw : Bytes) : Nat → List ResourceRecord → Nat → Prop where
  | nil {off : Nat} : RecordsAt raw off [] off
  | cons {off used stop : Nat} {r : ResourceRecord} {rs : List ResourceRecord}
      (hname : readName raw off = .ok (r.name, used)) (hspan : NameSpan raw off used)
      (hroom : off + used + 10 + (u16At raw (off + used + 8)).toNat ≤ raw.length)
      (hrtype : r.rtype = u16At raw (off + used)) (hrclass : r.rclass = u16At raw (off + used + 2))
      (httl : r.ttl = u32At raw (off + used + 4))
      (hrdata : r.rdata =
        (raw.drop (off + used + 10)).take (u16At raw (off + used + 8)).toNat)
      (hrest : RecordsAt raw (off + used + 10 + (u16At raw (off + used + 8)).toNat) rs stop) :
      RecordsAt raw off (r :: rs) stop

/-- The entries of a message lie one after the other behind its header. -/
def Tiled (raw : Bytes) (m : DnsMessage) : Prop :=
  ∃ mid stop, QuestionsAt raw 12 m.questions mid ∧ RecordsAt raw mid m.answers stop ∧
    stop ≤ raw.length

section

variable {raw : Bytes}

theorem nameSpan_of_skipName (n : Nat) {off stop : Nat} (hn : raw.length - off ≤ n)
    (h : skipName raw off = .ok stop) : NameSpan raw off (stop - off) := by
  induction n generalizing off with
  | zero =>
    have := skipName_bounds h
    omega
  | succ n ih =>
    rw [skipName_eq] at h
    cases hb : raw[off]? with
    | none =>
      rw [hb] at h
      cases h
    | some b =>
      have hlt : off < raw.length := (List.getElem?_eq_some_iff.mp hb).1
      rw [hb] at h
      dsimp only at h
      by_cases hlabel : b.toNat &&& 0xC0 = 0x00
      · rw [if_pos hlabel] at h
        by_cases hzero : b.toNat = 0
        · rw [if_pos hzero, Except.ok.injEq] at h
          have hb0 : b = 0 := UInt8.toNat_inj.mp hzero
          rw [← h, Nat.add_sub_cancel_left]
          exact .root (hb0 ▸ hb)
        rw [if_neg hzero] at h
        by_cases hpast : raw.length < off + 1 + b.toNat
        · rw [if_pos hpast] at h
          cases h
        rw [if_neg hpast] at h
        have hbounds := skipName_bounds h
        rw [show stop - off = 1 + b.toNat + (stop - (off + 1 + b.toNat)) by omega]
        exact .label hb hlabel hzero (by omega) (ih (by omega) h)
      rw [if_neg hlabel] at h
      by_cases hpointer : b.toNat &&& 0xC0 = 0xC0
      · rw [if_pos hpointer] at h
        by_cases hcut : raw.length < off + 2
        · rw [if_pos hcut] at h
          cases h
        rw [if_neg hcut, Except.ok.injEq] at h
        rw [← h, Nat.add_sub_cancel_left]
        exact .pointer hb hpointer (List.getElem?_eq_getElem (by omega))
      · rw [if_neg hpointer] at h
        cases h

/-- `read_name` takes the bytes of the name, and not those behind a pointer. -/
theorem nameSpan_of_readName {off used : Nat} {name : Str}
    (h : readName raw off = .ok (name, used)) : NameSpan raw off used := by
  have hspan := nameSpan_of_skipName _ (Nat.le_refl _) (skipName_of_readName h)
  rwa [Nat.add_sub_cancel_left] at hspan

theorem readQuestions_iff {n off stop : Nat} {qs : List Question} :
    readQuestions raw n off = .ok (qs, stop) ↔ QuestionsAt raw off qs stop ∧ qs.length = n := by
  induction n generalizing off qs with
  | zero =>
    unfold readQuestions
    constructor
    · intro h
      cases h
      exact ⟨.nil, rfl⟩
    · rintro ⟨h, hlen⟩
      obtain rfl := List.length_eq_zero_iff.mp hlen
      cases h
      rfl
  | succ n ih =>
    unfold readQuestions
    constructor
    · intro h
      obtain ⟨⟨name, used⟩, hname, h⟩ := bind_eq_ok.mp h
      dsimp only at h
      by_cases hroom : raw.length < off + used + 4
      · rw [if_pos hroom] at h
        cases h
      rw [if_neg hroom] at h
      obtain ⟨⟨qs', stop'⟩, hqs, h⟩ := bind_eq_ok.mp h
      cases h
      obtain ⟨hrest, hlen⟩ := ih.mp hqs
      exact ⟨.cons hname (nameSpan_of_readName hname) (by omega) rfl rfl hrest,
        congrArg (· + 1) hlen⟩
    · rintro ⟨h, hlen⟩
      cases h with
      | nil => cases hlen
      | @cons _ used _ q qs hname hspan hroom hqtype hqclass hrest =>
        have htail := ih.mpr ⟨hrest, Nat.succ.inj hlen⟩
        rw [hname, bind_ok]
        dsimp only
        rw [if_neg (by omega), htail, bind_ok, ← hqtype, ← hqclass]
        rfl

theorem readRecords_at {n off stop : Nat} {rs : List ResourceRecord} (hoff : off ≤ raw.length)
    (h : readRecords raw n off = .ok (rs, stop)) :
    RecordsAt raw off rs stop ∧ rs.length = n ∧ stop ≤ raw.length := by
  induction n generalizing off rs with
  | zero =>
    cases h
    exact ⟨.nil, rfl, hoff⟩
  | succ n ih =>
    unfold readRecords at h
    obtain ⟨⟨name, used⟩, hname, h⟩ := bind_eq_ok.mp h
    dsimp only at h
    by_cases hroom : raw.length < off + used + 10
    · rw [if_pos hroom] at h
      cases h
    rw [if_neg hroom] at h
    by_cases hdata : raw.length < off + used + 10 + (u16At raw (off + used + 8)).toNat
    · rw [if_pos hdata] at h
      cases h
    rw [if_neg hdata] at h
    obtain ⟨⟨rs', stop'⟩, hrs, h⟩ := bind_eq_ok.mp h
    cases h
    obtain ⟨hrest, hlen, hstop⟩ := ih (by omega) hrs
    exact ⟨.cons hname (nameSpan_of_readName hname) (by omega) rfl rfl rfl rfl hrest,
      congrArg (· + 1) hlen, hstop⟩

theorem QuestionsAt.stop_le {off stop : Nat} {qs : List Question} (h : QuestionsAt raw off qs stop)
    (hoff : off ≤ raw.length) : stop ≤ raw.length := by
  induction h with
  | nil => exact hoff
  | cons _ _ hroom _ _ _ ih => exact ih hroom

theorem parse_tiled {m : DnsMessage} (h : parse raw = .ok m) :
    Tiled raw m ∧ m.questions.length = (u16At raw 4).toNat ∧
      m.answers.length = (u16At raw 6 + u16At raw 8 + u16At raw 10).toNat := by
  unfold parse at h
  by_cases hheader : raw.length < 12
  · rw [if_pos hheader] at h
    cases h
  rw [if_neg hheader] at h
  obtain ⟨⟨qs, mid⟩, hqs, h⟩ := bind_eq_ok.mp h
  obtain ⟨⟨rs, stop⟩, hrs, h⟩ := bind_eq_ok.mp h
  cases h
  obtain ⟨hquestions, hqlen⟩ := readQuestions_iff.mp hqs
  obtain ⟨hrecords, hrlen, hstop⟩ := readRecords_at (hquestions.stop_le (by omega)) hrs
  exact ⟨⟨mid, stop, hquestions, hrecords, hstop⟩, hqlen, hrlen⟩

end

/-! ## The result -/

/-- `parse` follows the header counts of a message: a message it returns has as many
    questions and records as the header says, one after the other, and no operation
    panics. -/
structure FaithfulParse (raw : Bytes) : Prop where
  questions : ∀ m, parse raw = .ok m → m.questions.length = (u16At raw 4).toNat
  answers : ∀ m, parse raw = .ok m → m.answers.length = countSum raw
  tiled : ∀ m, parse raw = .ok m → Tiled raw m
  inBounds : parseChecked raw = some (parse raw)

/-- `parse` follows the header counts exactly when the three record counts of a message
    whose questions can be read add up to less than 2^16. -/
theorem parse_faithful_iff (raw : Bytes) (hraw : IsSlice raw) :
    FaithfulParse raw ↔ (12 ≤ raw.length → ∀ qs stop, QuestionsAt raw 12 qs stop →
      qs.length = (u16At raw 4).toNat → countSum raw < 2 ^ 16) := by
  constructor
  · intro h hheader qs stop hqs hlen
    by_contra hsum
    have hnone := parseChecked_overflow hraw hheader (readQuestions_iff.mpr ⟨hqs, hlen⟩)
      (Nat.not_lt.mp hsum)
    rw [h.inBounds] at hnone
    cases hnone
  · intro h
    by_cases hsum : countSum raw < 2 ^ 16
    · refine ⟨fun m hm => (parse_tiled hm).2.1, fun m hm => ?_, fun m hm => (parse_tiled hm).1,
        parseChecked_eq hraw hsum⟩
      rw [(parse_tiled hm).2.2, toNat_countSum hsum]
    · -- the sum is not reached
      have herror : ∃ e, parse raw = .error e ∧ parseChecked raw = some (.error e) := by
        by_cases hheader : raw.length < 12
        · refine ⟨.dns "message shorter than header", ?_, if_pos hheader⟩
          unfold parse
          rw [if_pos hheader]
          rfl
        · cases hqs : readQuestions raw (u16At raw 4).toNat 12 with
          | ok p =>
            obtain ⟨hquestions, hlen⟩ := readQuestions_iff.mp hqs
            exact absurd (h (by omega) p.1 p.2 hquestions hlen) hsum
          | error e => exact ⟨e, parse_question_error hraw (by omega) hqs⟩
      obtain ⟨e, hparse, hchecked⟩ := herror
      refine ⟨fun m hm => ?_, fun m hm => ?_, fun m hm => ?_, by rw [hparse, hchecked]⟩
      · rw [hparse] at hm
        cases hm
      · rw [hparse] at hm
        cases hm
      · rw [hparse] at hm
        cases hm

/-- A query for the root name. -/
def rootQuery : Bytes := [0, 7, 1, 0, 0, 1, 0, 0, 0, 0, 0, 0, 0, 0, 1, 0, 1]

theorem parse_faithful_rootQuery : FaithfulParse rootQuery :=
  (parse_faithful_iff rootQuery (by unfold IsSlice; decide)).mpr fun _ _ _ _ _ => by decide

/-- A header that counts 32768 answers and 32768 authority records. -/
def overflowHeader : Bytes := [0, 7, 1, 0, 0, 0, 0x80, 0, 0x80, 0, 0, 0]

/-- It parses as a message without records, where sums wrap; where they are checked, the
    parser panics. -/
theorem overflowHeader_unfaithful :
    (parse overflowHeader).toOption.map (fun m => m.answers.length) = some 0 ∧
      countSum overflowHeader = 65536 ∧ parseChecked overflowHeader = none := by
  decide

end RustCrash.Dns
