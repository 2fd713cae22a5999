import RustCrash.Sudoku.Record

/-
  What a record writer sends: records whose positions follow one another.

  An epoch ends with the record that fills up its 32 MiB, so as long as there are epochs left for
  the volume, a position is followed by the next number or by the next epoch
  (`WriteRun.written`).
-/

namespace RustCrash.Sudoku

open Lib Proto

/-! ## Positions -/

structure Position where
  epoch : UInt32
  seq : UInt64

def Record.position (record : Record) : Position := ⟨record.epoch, record.seq⟩

def RecordWriter.position (w : RecordWriter) : Position := ⟨w.epoch, w.seq⟩

/-- The position behind another: the next number, or one of the next epoch. -/
def Position.Next (p q : Position) : Prop :=
  q.epoch = p.epoch ∧ q.seq = p.seq + 1 ∨ q.epoch.toNat = p.epoch.toNat + 1

/-- Records from one position up to another. -/
def Links : Position → List Record → Position → Prop
  | p, [], q => p = q
  | p, record :: records, q => record.position = p ∧ ∃ p', p.Next p' ∧ Links p' records q

theorem Links.append {p q u : Position} {xs ys : List Record} (h : Links p xs q)
    (h' : Links q ys u) : Links p (xs ++ ys) u := by
  induction xs generalizing p with
  | nil =>
    cases h
    exact h'
  | cons record xs ih =>
    obtain ⟨hposition, p', hnext, hlinks⟩ := h
    exact ⟨hposition, p', hnext, ih hlinks⟩

theorem Links.drop {p q : Position} {records : List Record} (h : Links p records q) {i : Nat}
    {record : Record} (hi : records[i]? = some record) :
    Links record.position (records.drop i) q := by
  induction i generalizing p records with
  | zero =>
    cases records with
    | nil => cases hi
    | cons first records =>
      cases hi
      obtain ⟨hposition, hrest⟩ := h
      rw [← hposition] at hrest
      exact ⟨rfl, hrest⟩
  | succ i ih =>
    cases records with
    | nil => cases hi
    | cons first records =>
      obtain ⟨-, p', -, hlinks⟩ := h
      exact ih hlinks hi

variable (hmacSha256 : Bytes → Bytes → ByteVec 32) (draw : Nat → UInt64)

/-- A record as the writer seals it. -/
structure SealedBy (method : RecordMethod) (base : ByteVec 32) (record : Record) : Prop where
  ne_nil : record.plain ≠ []
  fits : record.plain.length ≤ maxPlain
  wire : ∃ aead ct, aeadFor hmacSha256 method base record.epoch = .ok aead ∧
    aead.sealed (recordHeader record.epoch record.seq)
      (recordHeader record.epoch record.seq).val record.plain = .ok ct ∧
    record.wire = be16 (UInt16.ofNat (recordHeaderSize + record.plain.length + 16)) ++
      (recordHeader record.epoch record.seq).val ++ ct

/-- A writer that has sent nothing yet. -/
structure RecordWriter.Fresh (w : RecordWriter) : Prop where
  bytes : w.bytes = 0
  epochUpdates : w.epochUpdates = 0
  wbuf : w.wbuf = []

/-- Where the writer is behind so many bytes. -/
structure Tally (w₀ w : RecordWriter) (total : Nat) : Prop where
  method : w.method = w₀.method
  base : w.base = w₀.base
  bytes : w.bytes = total
  updates : keyUpdateAfterBytes * w.epochUpdates ≤ total
  epoch : w.epoch.toNat = w₀.epoch.toNat + w.epochUpdates

/-- There are epochs left for the volume. -/
def Roomy (w₀ : RecordWriter) (total : Nat) : Prop :=
  w₀.epoch.toNat + total / keyUpdateAfterBytes < 2 ^ 32

variable {hmacSha256} {draw} {w₀ w : RecordWriter} {total : Nat}

theorem Roomy.mono {n : Nat} (h : Roomy w₀ total) (hle : n ≤ total) : Roomy w₀ n := by
  have := Nat.div_le_div_right (c := keyUpdateAfterBytes) hle
  unfold Roomy at h ⊢
  omega

variable (draw) in
/-- One record further. -/
theorem Tally.bump (h : Tally w₀ w total) {n : Nat} (hroom : Roomy w₀ (total + n)) :
    Tally w₀ ({ w with seq := w.seq + 1 }.maybeBumpSendEpoch draw n) (total + n) ∧
      w.position.Next ({ w with seq := w.seq + 1 }.maybeBumpSendEpoch draw n).position := by
  have hupdates := h.updates
  unfold RecordWriter.maybeBumpSendEpoch
  dsimp only
  by_cases hbelow : w.bytes + n < keyUpdateAfterBytes * (w.epochUpdates + 1)
  · rw [if_pos hbelow]
    refine ⟨⟨h.method, h.base, congrArg (· + n) h.bytes, ?_, h.epoch⟩, .inl ⟨rfl, rfl⟩⟩
    exact Nat.le_trans hupdates (Nat.le_add_right _ _)
  · rw [if_neg hbelow]
    rw [h.bytes] at hbelow
    have hfull : w.epochUpdates + 1 ≤ (total + n) / keyUpdateAfterBytes := by
      rw [Nat.le_div_iff_mul_le (by decide), Nat.mul_comm]
      exact Nat.not_lt.mp hbelow
    have hepoch := h.epoch
    have hnext : (w.epoch + 1).toNat = w.epoch.toNat + 1 := by
      unfold Roomy at hroom
      rw [UInt32.toNat_add, UInt32.toNat_one, Nat.mod_eq_of_lt (by omega)]
    refine ⟨⟨h.method, h.base, congrArg (· + n) h.bytes, Nat.not_lt.mp hbelow, ?_⟩, .inr hnext⟩
    dsimp only
    omega

variable (hmacSha256 draw) in
/-- A chunk always becomes a record. -/
theorem sealChunk_ok (w : RecordWriter) {chunk : Bytes} (hne : chunk ≠ [])
    (hle : chunk.length ≤ maxPlain) : ∃ record, w.sealChunk hmacSha256 draw chunk =
      ({ w with seq := w.seq + 1 }.maybeBumpSendEpoch draw chunk.length, .ok record) ∧
      record.position = w.position ∧ record.plain = chunk ∧
      SealedBy hmacSha256 w.method w.base record := by
  obtain ⟨aead, haead⟩ := aeadFor_ok hmacSha256 w.method w.base w.epoch
  have hbound : maxPlain = 65507 := rfl
  obtain ⟨ct, hct⟩ := aead.sealed_short (recordHeader w.epoch w.seq)
    (by omega : chunk.length < 2 ^ 32)
    (by rw [ByteVec.length_val]; decide : (recordHeader w.epoch w.seq).val.length < 2 ^ 32)
  unfold RecordWriter.sealChunk
  rw [haead]
  dsimp only
  rw [if_neg (by unfold maxFrameBodySize recordHeaderSize; omega), hct]
  exact ⟨_, rfl, rfl, rfl, hne, hle, aead, ct, haead, hct, rfl⟩

variable (hmacSha256 draw) in
theorem sealAll_ok {chunks : List Bytes} (h : Tally w₀ w total)
    (hchunks : ∀ chunk ∈ chunks, chunk ≠ [] ∧ chunk.length ≤ maxPlain)
    (hroom : Roomy w₀ (total + chunks.flatten.length)) :
    ∃ w' records, w.sealAll hmacSha256 draw chunks = (w', records, none) ∧
      Tally w₀ w' (total + chunks.flatten.length) ∧ Links w.position records w'.position ∧
      (∀ record ∈ records, SealedBy hmacSha256 w₀.method w₀.base record) ∧
      records.flatMap Record.plain = chunks.flatten := by
  induction chunks generalizing w total with
  | nil => exact ⟨w, [], rfl, h, rfl, nofun, rfl⟩
  | cons chunk chunks ih =>
    obtain ⟨hne, hle⟩ := hchunks chunk List.mem_cons_self
    rw [List.flatten_cons, List.length_append, ← Nat.add_assoc] at hroom ⊢
    obtain ⟨record, hrecord, hposition, hplain, hsealed⟩ :=
      sealChunk_ok hmacSha256 draw w hne hle
    obtain ⟨htally, hnext⟩ := h.bump draw (hroom.mono (Nat.le_add_right _ _))
    obtain ⟨w', records, hall, htally', hlinks, hsealed', hplains⟩ :=
      ih htally (fun c hc => hchunks c (List.mem_cons_of_mem _ hc)) hroom
    unfold RecordWriter.sealAll
    rw [hrecord]
    dsimp only
    rw [hall]
    refine ⟨w', record :: records, rfl, htally', ⟨hposition, _, hnext, hlinks⟩, ?_, ?_⟩
    · intro r hr
      rcases List.mem_cons.mp hr with rfl | hr
      · rw [← h.method, ← h.base]
        exact hsealed
      · exact hsealed' r hr
    · rw [List.flatMap_cons, hplains, hplain]

theorem chunksFor_spec (n : Nat) {buf : Bytes} (hn : buf.length ≤ n) :
    (chunksFor n buf).flatten = buf ∧
      ∀ chunk ∈ chunksFor n buf, chunk ≠ [] ∧ chunk.length ≤ maxPlain := by
  induction n generalizing buf with
  | zero =>
    rw [List.eq_nil_of_length_eq_zero (Nat.le_zero.mp hn)]
    exact ⟨rfl, nofun⟩
  | succ n ih =>
    cases buf with
    | nil => exact ⟨rfl, nofun⟩
    | cons b buf =>
      have hpos : 0 < maxPlain := by decide
      unfold chunksFor
      obtain ⟨hflatten, hchunks⟩ := @ih ((b :: buf).drop maxPlain) (by
        rw [List.length_drop]
        omega)
      refine ⟨by rw [List.flatten_cons, hflatten, List.take_append_drop], fun chunk hchunk => ?_⟩
      rcases List.mem_cons.mp hchunk with rfl | hchunk
      · refine ⟨fun hnil => ?_, by rw [List.length_take]; exact Nat.min_le_left _ _⟩
        rcases List.take_eq_nil_iff.mp hnil with hzero | hnil
        · omega
        · cases hnil
      · exact hchunks chunk hchunk

/-! ## Calls of the writer -/

/-- What a writer has done: the bytes the transport has, the buffers that were taken, each of them
    when nothing was staged, and their records. -/
structure WriteRun where
  writer : RecordWriter
  sent : Bytes
  plain : Bytes
  records : List Record

namespace WriteRun

def start (w : RecordWriter) : WriteRun := ⟨w, [], [], []⟩

variable (hmacSha256 draw) in
def call (s : WriteRun) (c : Bytes × List Grant) : WriteRun :=
  let p := s.writer.pollWrite hmacSha256 draw c.1 c.2
  { writer := p.writer
    sent := s.sent ++ p.sent
    plain := s.plain ++
      if s.writer.method = .none then p.sent else if s.writer.wbuf = [] then c.1 else []
    records := s.records ++ p.records }

variable (hmacSha256 draw) in
def run (s : WriteRun) (calls : List (Bytes × List Grant)) : WriteRun :=
  calls.foldl (call hmacSha256 draw) s

variable (hmacSha256) in
/-- What holds behind any calls, for a method with a cipher. -/
structure Written (w₀ : RecordWriter) (s : WriteRun) : Prop where
  tally : Tally w₀ s.writer s.plain.length
  links : Links w₀.position s.records s.writer.position
  sealed : ∀ record ∈ s.records, SealedBy hmacSha256 w₀.method w₀.base record
  plain : s.records.flatMap Record.plain = s.plain
  wire : s.sent ++ s.writer.wbuf = s.records.flatMap Record.wire

theorem drain_split (grants : List Grant) (wbuf : Bytes) :
    (drain grants wbuf).2.1 ++ (drain grants wbuf).1 = wbuf ∧
      ((drain grants wbuf).2.2 = .ready (.ok ()) → (drain grants wbuf).1 = []) := by
  induction grants generalizing wbuf with
  | nil =>
    cases wbuf with
    | nil => exact ⟨rfl, fun _ => rfl⟩
    | cons b wbuf => exact ⟨rfl, nofun⟩
  | cons grant grants ih =>
    cases wbuf with
    | nil => exact ⟨rfl, fun _ => rfl⟩
    | cons b wbuf =>
      cases grant with
      | pending => exact ⟨rfl, nofun⟩
      | failed e => exact ⟨rfl, nofun⟩
      | wrote n =>
        cases n with
        | zero => exact ⟨rfl, nofun⟩
        | succ n =>
          obtain ⟨hsplit, hdone⟩ := ih ((b :: wbuf).drop (n + 1))
          refine ⟨?_, hdone⟩
          have hdrain : drain (.wrote (n + 1) :: grants) (b :: wbuf) =
              ((drain grants ((b :: wbuf).drop (n + 1))).1,
                (b :: wbuf).take (n + 1) ++ (drain grants ((b :: wbuf).drop (n + 1))).2.1,
                (drain grants ((b :: wbuf).drop (n + 1))).2.2) := rfl
          rw [hdrain, List.append_assoc, hsplit, List.take_append_drop]

theorem flush_spec (w : RecordWriter) (wbuf : Bytes) (records : List Record) (grants : List Grant) :
    (w.flush wbuf records grants).sent ++ (w.flush wbuf records grants).writer.wbuf = wbuf ∧
      (w.flush wbuf records grants).records = records ∧
      ∃ left, (w.flush wbuf records grants).writer = { w with wbuf := left } := by
  obtain ⟨hsplit, hdone⟩ := drain_split grants wbuf
  unfold RecordWriter.flush
  generalize drain grants wbuf = drained at hsplit hdone
  obtain ⟨left, sent, res⟩ := drained
  cases res with
  | pending => exact ⟨hsplit, rfl, left, rfl⟩
  | ready res =>
    cases res with
    | error e => exact ⟨hsplit, rfl, left, rfl⟩
    | ok u =>
      have hnil : left = [] := hdone rfl
      rw [hnil] at hsplit
      exact ⟨hsplit, rfl, [], rfl⟩

theorem Tally.of_wbuf (h : Tally w₀ w total) (left : Bytes) : Tally w₀ { w with wbuf := left } total :=
  ⟨h.method, h.base, h.bytes, h.updates, h.epoch⟩

/-- A call, whatever the transport says to it. -/
theorem Written.call {s : WriteRun} (hmethod : w₀.method ≠ .none) (h : s.Written hmacSha256 w₀)
    (c : Bytes × List Grant) (hroom : Roomy w₀ (s.call hmacSha256 draw c).plain.length) :
    (s.call hmacSha256 draw c).Written hmacSha256 w₀ := by
  obtain ⟨buf, grants⟩ := c
  have hcipher : s.writer.method ≠ .none := by rw [h.tally.method]; exact hmethod
  unfold WriteRun.call at hroom ⊢
  dsimp only at hroom ⊢
  rw [if_neg hcipher] at hroom ⊢
  unfold RecordWriter.pollWrite
  by_cases hbuf : buf = []
  · rw [if_pos hbuf, hbuf, ite_self, List.append_nil, List.append_nil, List.append_nil]
    exact h
  rw [if_neg hbuf, if_neg hcipher]
  by_cases hstaged : s.writer.wbuf = []
  · rw [if_pos hstaged] at hroom ⊢
    rw [if_pos hstaged]
    obtain ⟨hflatten, hchunks⟩ := chunksFor_spec buf.length (Nat.le_refl buf.length)
    have htally : Tally w₀ { s.writer with pendingPlain := buf.length } s.plain.length :=
      ⟨h.tally.method, h.tally.base, h.tally.bytes, h.tally.updates, h.tally.epoch⟩
    rw [List.length_append] at hroom
    obtain ⟨w', records, hall, htally', hlinks, hsealed, hplains⟩ :=
      sealAll_ok hmacSha256 draw htally hchunks (by rw [hflatten]; exact hroom)
    dsimp only
    rw [hall]
    dsimp only
    obtain ⟨hsplit, hrecords, left, hwriter⟩ :=
      flush_spec w' (records.flatMap Record.wire) records grants
    have hwire := h.wire
    rw [hstaged, List.append_nil] at hwire
    rw [hflatten] at htally' hplains
    refine ⟨?_, ?_, ?_, ?_, ?_⟩
    · rw [hwriter, List.length_append]
      exact Tally.of_wbuf htally' left
    · rw [hrecords, hwriter]
      exact h.links.append hlinks
    · intro record hrecord
      rw [hrecords] at hrecord
      rcases List.mem_append.mp hrecord with hrecord | hrecord
      · exact h.sealed record hrecord
      · exact hsealed record hrecord
    · rw [hrecords, List.flatMap_append, h.plain, hplains]
    · rw [hrecords, List.flatMap_append, ← hwire, List.append_assoc, hsplit]
  · rw [if_neg hstaged, if_neg hstaged, List.append_nil]
    obtain ⟨hsplit, hrecords, left, hwriter⟩ := flush_spec s.writer s.writer.wbuf [] grants
    refine ⟨?_, ?_, ?_, ?_, ?_⟩
    · rw [hwriter]
      exact Tally.of_wbuf h.tally left
    · rw [hrecords, hwriter, List.append_nil]
      exact h.links
    · rw [hrecords, List.append_nil]
      exact h.sealed
    · rw [hrecords, List.append_nil]
      exact h.plain
    · rw [hrecords, List.append_nil, List.append_assoc, hsplit]
      exact h.wire

variable (hmacSha256 draw) in
theorem plain_le (s : WriteRun) (calls : List (Bytes × List Grant)) :
    s.plain.length ≤ (s.run hmacSha256 draw calls).plain.length := by
  induction calls generalizing s with
  | nil => exact Nat.le_refl _
  | cons c calls ih =>
    refine Nat.le_trans ?_ (ih (s.call hmacSha256 draw c))
    unfold WriteRun.call
    dsimp only
    rw [List.length_append]
    exact Nat.le_add_right _ _

theorem Written.run {s : WriteRun} (hmethod : w₀.method ≠ .none) (h : s.Written hmacSha256 w₀)
    (calls : List (Bytes × List Grant))
    (hroom : Roomy w₀ (s.run hmacSha256 draw calls).plain.length) :
    (s.run hmacSha256 draw calls).Written hmacSha256 w₀ := by
  induction calls generalizing s with
  | nil => exact h
  | cons c calls ih =>
    have hle := plain_le hmacSha256 draw (s.call hmacSha256 draw c) calls
    exact ih (h.call hmethod c (Roomy.mono hroom hle)) hroom

theorem written_start (hfresh : w₀.Fresh) : (start w₀).Written hmacSha256 w₀ where
  tally := by
    have hupdates := hfresh.epochUpdates
    refine ⟨rfl, rfl, hfresh.bytes, ?_, ?_⟩
    · unfold start
      rw [hupdates]
      exact Nat.le_refl _
    · unfold start
      rw [hupdates]
      rfl
  links := rfl
  sealed := nofun
  plain := rfl
  wire := hfresh.wbuf

/-- Records from the first position on, in which everything is that was taken. -/
theorem written (hmethod : w₀.method ≠ .none) (hfresh : w₀.Fresh)
    (calls : List (Bytes × List Grant))
    (hroom : Roomy w₀ ((start w₀).run hmacSha256 draw calls).plain.length) :
    ((start w₀).run hmacSha256 draw calls).Written hmacSha256 w₀ :=
  (written_start hfresh).run hmethod calls hroom

end WriteRun

end RustCrash.Sudoku
