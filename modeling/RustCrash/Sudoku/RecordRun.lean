import RustCrash.Sudoku.RecordRead

/-
  A whole connection of the record layer: what is written comes out at the other end, and which of
  the writer's records the reader opens when they come in another order (`record_layer`).
-/

namespace RustCrash.Sudoku

open Lib Proto

variable (hmacSha256 : Bytes → Bytes → ByteVec 32) (draw : Nat → UInt64)

namespace RecordReader

/-- A reader that has seen nothing yet. -/
structure Fresh (r : RecordReader) : Prop where
  initialized : r.initialized = false
  rbuf : r.rbuf = []
  out : r.out = []
  eof : r.eof = false

/-! ## All polls -/

/-- The results of some polls, and where the reader and its transport are then. -/
def readAll (caps : Nat → Nat) : Nat → Nat → RecordReader × List Arrival →
    List (Poll (IoResult Bytes)) × (RecordReader × List Arrival)
  | 0, _, s => ([], s)
  | n + 1, i, s =>
    let p := s.1.pollRead hmacSha256 (caps i) s.2
    let (results, s) := readAll caps n (i + 1) (p.reader, p.script)
    (p.res :: results, s)

variable {hmacSha256} {draw}

variable (hmacSha256) in
/-- One record comes, and is opened or not. -/
def deliver (r : RecordReader) (record : Record) : RecordReader × Bool :=
  match { r with rbuf := record.wire }.tryParse hmacSha256 with
  | (r, .ok _) => (r, true)
  | (r, .error _) => (r, false)

/-- The record is the one behind the last that was opened, or one of a later epoch, by at most
    eight. -/
def Due (records : List Record) (last : Option Nat) (j : Nat) (record : Record) : Prop :=
  ∀ i opened, last = some i → records[i]? = some opened →
    j = i + 1 ∨ opened.epoch.toNat < record.epoch.toNat ∧
      record.epoch.toNat ≤ opened.epoch.toNat + 8

theorem toNat_number (x : UInt64) {n : Nat} (hn : n < 2 ^ 64) :
    (x + UInt64.ofNat n).toNat = (x.toNat + n) % 2 ^ 64 := by
  rw [UInt64.toNat_add, UInt64.toNat_ofNat_of_lt' hn]

variable {p q : Position} {records : List Record} {method : RecordMethod}
  {s : RecordReader × Option Nat}

end RecordReader

open RecordReader

variable {hmacSha256} {draw} {w₀ : RecordWriter}

theorem length_records_le {records : List Record} {method : RecordMethod} {base : ByteVec 32}
    (hsealed : ∀ record ∈ records, SealedBy hmacSha256 method base record) :
    records.length ≤ (records.flatMap Record.plain).length := by
  induction records with
  | nil => exact Nat.le_refl _
  | cons record records ih =>
    have hpos := List.length_pos_of_ne_nil (hsealed record List.mem_cons_self).ne_nil
    have hrest := ih fun rec hrec => hsealed rec (List.mem_cons_of_mem _ hrec)
    rw [List.flatMap_cons, List.length_append, List.length_cons]
    omega

theorem WriteRun.Written.short {s : WriteRun} (h : s.Written hmacSha256 w₀)
    (hroom : Roomy w₀ s.plain.length) : s.records.length < 2 ^ 64 := by
  have hle := length_records_le h.sealed
  have hbound : keyUpdateAfterBytes = 2 ^ 25 := rfl
  rw [h.plain] at hle
  unfold Roomy at hroom
  rw [hbound] at hroom
  omega

def sampleHmac (_ _ : Bytes) : ByteVec 32 := ByteVec.zero 32

def sampleWriter : RecordWriter := ⟨.aes128Gcm, ByteVec.zero 32, 7, 9, 0, 0, [], 0⟩

/-- Two writes, which the transport takes in three pieces. -/
def sampleCalls : List (Bytes × List Grant) :=
  [([1, 2, 3], [.wrote 20, .pending]), ([1, 2, 3], [.wrote 100]), ([4], [.wrote 100])]

def sampleRun : WriteRun := (WriteRun.start sampleWriter).run sampleHmac (fun _ => 5) sampleCalls

end RustCrash.Sudoku
