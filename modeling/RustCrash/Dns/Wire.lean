import RustCrash.Error
import RustCrash.Lib.Net

/-
  The DNS wire codec (`dns/wire.rs`): parsing messages with compressed names, building
  queries and responses.

  Offsets are absolute positions in the message, as in the source. The loop of
  `read_name` has a step budget: each step moves forward or takes one of at most 32
  pointers, and `readNameLoop_isSome` says that the budget never runs out.
-/

namespace RustCrash.Dns

open Lib

structure Question where
  name : Str
  qtype : UInt16
  qclass : UInt16
  deriving DecidableEq

structure ResourceRecord where
  name : Str
  rtype : UInt16
  rclass : UInt16
  ttl : UInt32
  rdata : Bytes
  deriving DecidableEq

/-- A parsed message. `answers` holds the records of all three sections, in order. -/
structure DnsMessage where
  id : UInt16
  flags : UInt16
  opcode : UInt8
  rcode : UInt8
  questions : List Question
  answers : List ResourceRecord
  raw : Bytes
  deriving DecidableEq

def typeA : UInt16 := 1
def typeAAAA : UInt16 := 28

namespace DnsMessage

def isResponse (m : DnsMessage) : Bool := m.flags &&& 0x8000 != 0

def recursionDesired (m : DnsMessage) : Bool := m.flags &&& 0x0100 != 0

def firstQuestion (m : DnsMessage) : Option Question := m.questions.head?

end DnsMessage

/-! ## Reading -/

/-- `u16::from_be_bytes` of the two bytes at an offset. -/
def u16At (raw : Bytes) (off : Nat) : UInt16 := ofBE16 ((raw.drop off).take 2)

def u32At (raw : Bytes) (off : Nat) : UInt32 := ofBE32 ((raw.drop off).take 4)

/-- The loop of `read_name`; `none` when the budget (the first number) is used up. -/
def readNameLoop (raw : Bytes) (offset : Nat) :
    Nat → Nat → Nat → Bool → Nat → List Str → Option (Result (Str × Nat))
  | 0, _, _, _, _, _ => none
  | fuel + 1, pos, consumed, followedPointer, jumps, labels =>
    match raw[pos]? with
    | none => some (.error (.dns "name runs past end"))
    | some b =>
      let len := b.toNat
      if len &&& 0xC0 = 0x00 then
        let consumed := if followedPointer then consumed else consumed + 1
        if len = 0 then some (.ok (Str.join '.' labels, consumed))
        else if raw.length < pos + 1 + len then some (.error (.dns "label runs past end"))
        else
          readNameLoop raw offset fuel (pos + 1 + len)
            (if followedPointer then consumed else consumed + len) followedPointer jumps
            (labels ++ [Str.asciiLower (fromUtf8Lossy ((raw.drop (pos + 1)).take len))])
      else if len &&& 0xC0 = 0xC0 then
        match raw[pos + 1]? with
        | none => some (.error (.dns "truncated pointer"))
        | some lo =>
          let ptr := ((len &&& 0x3F) <<< 8) ||| lo.toNat
          -- pointers point strictly backwards
          if pos ≤ ptr then some (.error (.dns "bad compression pointer"))
          else if 32 < jumps + 1 then some (.error (.dns "compression loop"))
          else
            readNameLoop raw offset fuel ptr
              (if followedPointer then consumed else pos + 2 - offset) true (jumps + 1) labels
      else some (.error (.dns "reserved label type"))

/-- Read a (possibly compressed) name; also the number of bytes it takes at `offset`. -/
def readName (raw : Bytes) (offset : Nat) : Result (Str × Nat) :=
  (readNameLoop raw offset (33 * (raw.length + 1)) offset 0 false 0 []).getD
    (.error (.dns "out of budget"))

/-- The question loop of `parse`: `n` questions from an offset. -/
def readQuestions (raw : Bytes) : Nat → Nat → Result (List Question × Nat)
  | 0, off => .ok ([], off)
  | n + 1, off => do
    let (name, used) ← readName raw off
    let off := off + used
    if raw.length < off + 4 then throw (.dns "truncated question")
    let q : Question := ⟨name, u16At raw off, u16At raw (off + 2)⟩
    let (qs, off) ← readQuestions raw n (off + 4)
    return (q :: qs, off)

/-- The record loop of `parse`. -/
def readRecords (raw : Bytes) : Nat → Nat → Result (List ResourceRecord × Nat)
  | 0, off => .ok ([], off)
  | n + 1, off => do
    let (name, used) ← readName raw off
    let off := off + used
    if raw.length < off + 10 then throw (.dns "truncated record")
    let rdlen := (u16At raw (off + 8)).toNat
    if raw.length < off + 10 + rdlen then throw (.dns "truncated rdata")
    let r : ResourceRecord :=
      ⟨name, u16At raw off, u16At raw (off + 2), u32At raw (off + 4),
        (raw.drop (off + 10)).take rdlen⟩
    let (rs, off) ← readRecords raw n (off + 10 + rdlen)
    return (r :: rs, off)

/-- Parse a message. The three record counts are added as `u16`. -/
def parse (raw : Bytes) : Result DnsMessage := do
  if raw.length < 12 then throw (.dns "message shorter than header")
  let id := u16At raw 0
  let flags := u16At raw 2
  let qd := u16At raw 4
  let an := u16At raw 6
  let ns := u16At raw 8
  let ar := u16At raw 10
  let (questions, off) ← readQuestions raw qd.toNat 12
  let (answers, _) ← readRecords raw (an + ns + ar).toNat off
  return {
    id := id
    flags := flags
    opcode := ((flags >>> 11) &&& 0xF).toUInt8
    rcode := (flags &&& 0xF).toUInt8
    questions := questions
    answers := answers
    raw := raw }

/-! ## Writing -/

/-- One label: its length, then its bytes, clamped to 63. -/
def writeLabel (label : Str) : Bytes :=
  UInt8.ofNat (min (utf8 label).length 63) :: (utf8 label).take 63

/-- A dotted name as uncompressed labels. -/
def writeName (name : Str) : Bytes :=
  if name = [] ∨ name = ['.'] then [0]
  else ((Str.trimEndMatches '.' name).splitOn '.').flatMap writeLabel ++ [0]

def writeQuestion (q : Question) : Bytes :=
  writeName q.name ++ be16 q.qtype ++ be16 q.qclass

def addrType : IpAddr → UInt16
  | .v4 _ => typeA
  | .v6 _ => typeAAAA

def addrOctets : IpAddr → Bytes
  | .v4 a => Net.octets4 a
  | .v6 a => Net.octets6 a

/-- One answer, owned by a pointer to the question at offset 12. -/
def writeAnswer (a : IpAddr × UInt32) : Bytes :=
  [0xC0, 0x0C] ++ be16 (addrType a.1) ++ be16 1 ++ be32 a.2 ++
    be16 (UInt16.ofNat (addrOctets a.1).length) ++ addrOctets a.1

/-- QR=1, opcode copied, AA=0, TC=0, RD copied, RA=1, Z=0, rcode. -/
def responseFlags (query : DnsMessage) (rcode : UInt8) : UInt16 :=
  (0x8000 : UInt16) ||| (query.opcode.toUInt16 <<< 11) |||
    (if query.recursionDesired then (0x0100 : UInt16) else 0) ||| 0x0080 ||| (rcode.toUInt16 &&& 0xF)

/-- Build a response for `query` carrying `answers` (A/AAAA rdata). -/
def buildResponse (query : DnsMessage) (rcode : UInt8) (answers : List (IpAddr × UInt32)) : Bytes :=
  be16 query.id ++ be16 (responseFlags query rcode) ++
    be16 (UInt16.ofNat query.questions.length) ++ be16 (UInt16.ofNat answers.length) ++
    be16 0 ++ be16 0 ++ query.questions.flatMap writeQuestion ++
    match query.questions with
    | [] => []
    | _ :: _ => answers.flatMap writeAnswer

/-- Build a UDP-forwardable query (RD set). -/
def buildQuery (id : UInt16) (name : Str) (qtype : UInt16) : Bytes :=
  be16 id ++ be16 0x0100 ++ be16 1 ++ be16 0 ++ be16 0 ++ be16 0 ++
    writeName name ++ be16 qtype ++ be16 1

/-! ## The budget of `read_name` -/

/-- A label moves forward in the message, and a pointer uses up one of 32. -/
theorem readNameLoop_isSome {raw : Bytes} {offset : Nat} (fuel : Nat) {pos consumed jumps : Nat}
    {followedPointer : Bool} {labels : List Str} (hj : jumps ≤ 32)
    (hf : (32 - jumps) * (raw.length + 1) + (raw.length - pos) < fuel) :
    (readNameLoop raw offset fuel pos consumed followedPointer jumps labels).isSome = true := by
  induction fuel generalizing pos consumed jumps followedPointer labels with
  | zero => omega
  | succ fuel ih =>
    unfold readNameLoop
    cases hb : raw[pos]? with
    | none => rfl
    | some b =>
      have hpos : pos < raw.length := (List.getElem?_eq_some_iff.mp hb).1
      dsimp only
      by_cases hlabel : b.toNat &&& 0xC0 = 0x00
      · rw [if_pos hlabel]
        by_cases hend : b.toNat = 0
        · rw [if_pos hend]
          rfl
        · rw [if_neg hend]
          by_cases hpast : raw.length < pos + 1 + b.toNat
          · rw [if_pos hpast]
            rfl
          · rw [if_neg hpast]
            exact ih hj (by omega)
      · rw [if_neg hlabel]
        by_cases hptr : b.toNat &&& 0xC0 = 0xC0
        · rw [if_pos hptr]
          cases hlo : raw[pos + 1]? with
          | none => rfl
          | some lo =>
            dsimp only
            by_cases hback : pos ≤ ((b.toNat &&& 0x3F) <<< 8) ||| lo.toNat
            · rw [if_pos hback]
              rfl
            · rw [if_neg hback]
              by_cases hmany : 32 < jumps + 1
              · rw [if_pos hmany]
                rfl
              · rw [if_neg hmany]
                have hmul : (32 - jumps) * (raw.length + 1) =
                    (32 - (jumps + 1)) * (raw.length + 1) + (raw.length + 1) := by
                  rw [← Nat.succ_mul]
                  congr 1
                  omega
                exact ih (by omega) (by omega)
        · rw [if_neg hptr]
          rfl

/-- What `read_name` returns is what its loop returned. -/
theorem readName_eq (raw : Bytes) (offset : Nat) :
    readNameLoop raw offset (33 * (raw.length + 1)) offset 0 false 0 [] =
      some (readName raw offset) := by
  have h : (readNameLoop raw offset (33 * (raw.length + 1)) offset 0 false 0 []).isSome = true :=
    readNameLoop_isSome _ (by omega) (by omega)
  unfold readName
  cases hr : readNameLoop raw offset (33 * (raw.length + 1)) offset 0 false 0 [] with
  | none =>
    rw [hr] at h
    exact absurd h (by simp)
  | some r => rfl

end RustCrash.Dns
