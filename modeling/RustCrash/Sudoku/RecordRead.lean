import RustCrash.Sudoku.RecordWrite

/-
  What a record reader makes of a writer's records.

  A record at the front of the buffer is opened if and only if the reader admits its position
  (`tryParse_record`), and records that it admits one after the other come out whole, however the
  transport cuts them (`pollRead_drains`).
-/

namespace RustCrash.Sudoku

open Lib Proto

variable {hmacSha256 : Bytes → Bytes → ByteVec 32}

namespace RecordReader

variable {r : RecordReader} {record : Record}

/-- The reader admits a record at this position. -/
def Admits (r : RecordReader) (p : Position) : Prop :=
  r.initialized = true → p.epoch = r.epoch ∧ p.seq = r.seq ∨
    r.epoch.toNat < p.epoch.toNat ∧ p.epoch.toNat ≤ r.epoch.toNat + 8

theorem validate_admits {p : Position} (h : r.Admits p) :
    r.validateRecvPosition p.epoch p.seq = .ok () := by
  unfold validateRecvPosition
  by_cases hinit : r.initialized = false
  · rw [if_pos hinit]
  rw [if_neg hinit]
  rcases h (Bool.eq_true_of_not_eq_false hinit) with ⟨hepoch, hseq⟩ | ⟨hlt, hle⟩
  · rw [hepoch, hseq, if_neg (UInt32.lt_irrefl _), if_neg (fun h => h.2 rfl),
      if_neg (fun h => UInt32.lt_irrefl _ h.1)]
  · have hsub : (p.epoch - r.epoch).toNat = p.epoch.toNat - r.epoch.toNat :=
      UInt32.toNat_sub_of_le _ _ (UInt32.le_iff_toNat_le.mpr (Nat.le_of_lt hlt))
    rw [if_neg, if_neg, if_neg]
    · rintro ⟨-, hfar⟩
      have := UInt32.lt_iff_toNat_lt.mp hfar
      rw [hsub] at this
      have height : (8 : UInt32).toNat = 8 := rfl
      omega
    · rintro ⟨hsame, -⟩
      rw [hsame] at hlt
      omega
    · intro hback
      have := UInt32.lt_iff_toNat_lt.mp hback
      omega

theorem validate_refuses {p : Position} (h : ¬ r.Admits p) :
    ∃ e, r.validateRecvPosition p.epoch p.seq = .error e := by
  unfold Admits at h
  obtain ⟨hinit, hnot⟩ := Classical.not_imp.mp h
  obtain ⟨hhere, hlater⟩ := not_or.mp hnot
  unfold validateRecvPosition
  rw [hinit, if_neg (by decide)]
  split_ifs with hback hother hfar
  · exact ⟨_, rfl⟩
  · exact ⟨_, rfl⟩
  · exact ⟨_, rfl⟩
  · exfalso
    have hle := UInt32.le_iff_toNat_le.mp (UInt32.not_lt.mp hback)
    by_cases hsame : p.epoch = r.epoch
    · exact hhere ⟨hsame, not_not.mp fun hne => hother ⟨hsame, hne⟩⟩
    · have hne : p.epoch.toNat ≠ r.epoch.toNat := fun heq => hsame (UInt32.toNat_inj.mp heq)
      have hlt : r.epoch.toNat < p.epoch.toNat := by omega
      have hsub : (p.epoch - r.epoch).toNat = p.epoch.toNat - r.epoch.toNat :=
        UInt32.toNat_sub_of_le _ _ (UInt32.le_iff_toNat_le.mpr hle)
      have hnear := mt (fun h => ⟨UInt32.lt_iff_toNat_lt.mpr hlt, h⟩) hfar
      rw [UInt32.lt_iff_toNat_lt, hsub] at hnear
      have height : (8 : UInt32).toNat = 8 := rfl
      exact hlater ⟨hlt, by omega⟩

/-! ## One record -/

theorem length_wire {method : RecordMethod} {base : ByteVec 32}
    (h : SealedBy hmacSha256 method base record) :
    record.wire.length = 2 + (recordHeaderSize + record.plain.length + 16) := by
  obtain ⟨aead, ct, -, hct, hwire⟩ := h.wire
  have hlen := Aead.length_sealed hct
  have htag : tagSize = 16 := rfl
  rw [hwire, List.length_append, List.length_append, length_be16, ByteVec.length_val, hlen, htag]
  unfold recordHeaderSize
  omega

theorem bodyHeader_append (header : ByteVec 12) (ct : Bytes) :
    bodyHeader (header.val ++ ct) = header := by
  apply Subtype.ext
  unfold bodyHeader
  dsimp only
  rw [List.append_assoc]
  exact List.take_left' header.property

theorem bodyLen_sealed {method : RecordMethod} {base : ByteVec 32}
    (h : SealedBy hmacSha256 method base record) (more : Bytes) :
    (ofBE16 ((record.wire ++ more).take 2)).toNat = recordHeaderSize + record.plain.length + 16 := by
  obtain ⟨aead, ct, -, -, hwire⟩ := h.wire
  have hfits := h.fits
  have hbound : maxPlain = 65507 := rfl
  rw [hwire, List.append_assoc, List.append_assoc, List.take_left' (length_be16 _), ofBE16_be16,
    UInt16.toNat_ofNat_of_lt']
  unfold UInt16.size recordHeaderSize
  omega

/-- A record in front of the buffer is opened if and only if its position is admitted. -/
theorem tryParse_record (hmethod : r.method ≠ .none)
    (h : SealedBy hmacSha256 r.method r.base record) {more : Bytes}
    (hbuf : r.rbuf = record.wire ++ more) :
    (r.Admits record.position → r.tryParse hmacSha256 =
      ({ r.past record.epoch record.seq with rbuf := more, out := r.out ++ record.plain },
        .ok true)) ∧
    (¬ r.Admits record.position → ∃ e,
      r.tryParse hmacSha256 = ({ r with rbuf := more }, .error e)) := by
  have hlen := length_wire h
  have hbody := bodyLen_sealed h more
  obtain ⟨aead, ct, haead, hct, hwire⟩ := h.wire
  have hslice : slice (record.wire ++ more) 2 (recordHeaderSize + record.plain.length + 16) =
      (recordHeader record.epoch record.seq).val ++ ct := by
    have hrest : ((recordHeader record.epoch record.seq).val ++ ct).length =
        recordHeaderSize + record.plain.length + 16 := by
      rw [hwire, List.append_assoc, List.length_append, length_be16] at hlen
      omega
    rw [hwire, List.append_assoc, List.append_assoc, ← Nat.zero_add 2,
      slice_skip (length_be16 _), ← List.append_assoc, slice_here hrest]
  have hparse : r.tryParse hmacSha256 = { r with rbuf := more }.openBody hmacSha256
      ((recordHeader record.epoch record.seq).val ++ ct) := by
    have hfits := h.fits
    have hbound : maxPlain = 65507 := rfl
    unfold tryParse
    dsimp only
    rw [if_neg hmethod, hbuf, hbody, List.length_append, if_neg (by omega),
      if_neg (by unfold recordHeaderSize; omega),
      if_neg (by unfold maxFrameBodySize recordHeaderSize; omega), if_neg (by omega), hslice,
      ← hlen, List.drop_left]
  have hheader := bodyHeader_append (recordHeader record.epoch record.seq) ct
  have hepoch : ofBE32 ((recordHeader record.epoch record.seq).val.take 4) = record.epoch := by
    unfold recordHeader
    dsimp only
    rw [List.take_left' (length_be32 _), ofBE32_be32]
  have hseq : ofBE64 ((recordHeader record.epoch record.seq).val.drop 4) = record.seq := by
    unfold recordHeader
    dsimp only
    rw [List.drop_left' (length_be32 _), ofBE64_be64]
  have hdrop : ((recordHeader record.epoch record.seq).val ++ ct).drop recordHeaderSize = ct :=
    List.drop_left' (ByteVec.length_val _)
  have hopen : r.validateRecvPosition record.epoch record.seq = .ok () →
      ({ r with rbuf := more } : RecordReader).openBody hmacSha256
        ((recordHeader record.epoch record.seq).val ++ ct) =
      ({ r.past record.epoch record.seq with rbuf := more, out := r.out ++ record.plain },
        .ok true) := by
    intro hvalid
    have hvalid' : ({ r with rbuf := more } : RecordReader).validateRecvPosition record.epoch
        record.seq = .ok () := hvalid
    unfold openBody
    dsimp only
    rw [hheader, hepoch, hseq, hdrop, haead, hvalid']
    dsimp only
    rw [Aead.openCt_sealed hct]
    rfl
  have hrefuse : ∀ e, r.validateRecvPosition record.epoch record.seq = .error e →
      ({ r with rbuf := more } : RecordReader).openBody hmacSha256
        ((recordHeader record.epoch record.seq).val ++ ct) =
      ({ r with rbuf := more }, .error e) := by
    intro e hinvalid
    have hinvalid' : ({ r with rbuf := more } : RecordReader).validateRecvPosition record.epoch
        record.seq = .error e := hinvalid
    unfold openBody
    dsimp only
    rw [hheader, hepoch, hseq, hinvalid']
  rw [hparse]
  constructor
  · intro hadmits
    exact hopen (validate_admits hadmits)
  · intro hnot
    obtain ⟨e, he⟩ := validate_refuses hnot
    exact ⟨e, hrefuse e he⟩

/-- The beginning of a record waits for the rest of it. -/
theorem tryParse_short (hmethod : r.method ≠ .none)
    (h : SealedBy hmacSha256 r.method r.base record) {later more : Bytes}
    (hbuf : r.rbuf ++ later = record.wire ++ more) (hshort : r.rbuf.length < record.wire.length) :
    r.tryParse hmacSha256 = (r, .ok false) := by
  have hlen := length_wire h
  have hbody := bodyLen_sealed h more
  have hfits := h.fits
  have hbound : maxPlain = 65507 := rfl
  unfold tryParse
  dsimp only
  rw [if_neg hmethod]
  by_cases htwo : r.rbuf.length < 2
  · rw [if_pos htwo]
  · rw [if_neg htwo]
    rw [← hbuf, List.take_append_of_le_length (by omega)] at hbody
    rw [hbody, if_neg (by unfold recordHeaderSize; omega),
      if_neg (by unfold maxFrameBodySize recordHeaderSize; omega), if_pos (by omega)]

theorem tryParse_empty (hbuf : r.rbuf = []) : r.tryParse hmacSha256 = (r, .ok false) := by
  unfold tryParse
  by_cases hmethod : r.method = .none
  · rw [if_pos hmethod, if_pos hbuf]
  · rw [if_neg hmethod, hbuf, if_pos (by decide)]

/-- Behind a record the reader admits the one that follows it. -/
theorem next_admits {p p' : Position} (h : p.Next p') : (r.past p.epoch p.seq).Admits p' := by
  intro _
  rcases h with hhere | hnext
  · exact .inl hhere
  · exact .inr ⟨by unfold past; dsimp only; omega, by unfold past; dsimp only; omega⟩

/-! ## Polls -/

variable (hmacSha256) in
/-- What a reader makes of its buffer and the bytes that are still to come. -/
def Carries (r : RecordReader) (later bs : Bytes) : Prop :=
  r.method = .none ∧ bs = r.rbuf ++ later ∨
    r.method ≠ .none ∧ ∃ p q records, r.Admits p ∧ Links p records q ∧
      (∀ record ∈ records, SealedBy hmacSha256 r.method r.base record) ∧
      r.rbuf ++ later = records.flatMap Record.wire ∧ bs = records.flatMap Record.plain

theorem parseFor_of_try {r' : RecordReader} {n : Nat} (h : r.tryParse hmacSha256 = (r', .ok true))
    (hout : r'.out ≠ []) : r.parseFor hmacSha256 (n + 1) = (r', .ok true) := by
  rw [parseFor, h]
  exact if_pos hout

theorem parseFor_waits {n : Nat} (h : r.tryParse hmacSha256 = (r, .ok false)) :
    r.parseFor hmacSha256 (n + 1) = (r, .ok false) := by
  rw [parseFor, h]

/-- The buffer gives something, or there is more to come. -/
theorem Carries.parse {later bs : Bytes} (h : r.Carries hmacSha256 later bs) (hout : r.out = [])
    (n : Nat) :
    (∃ r' bs', r.parseFor hmacSha256 (n + 1) = (r', .ok true) ∧ r'.out ≠ [] ∧
      r'.Carries hmacSha256 later bs' ∧ bs = r'.out ++ bs' ∧ r'.eof = r.eof) ∨
    r.parseFor hmacSha256 (n + 1) = (r, .ok false) ∧ (later = [] → bs = []) := by
  rcases h with ⟨hmethod, rfl⟩ | ⟨hmethod, p, q, records, hadmits, hlinks, hsealed, hwire, rfl⟩
  · by_cases hbuf : r.rbuf = []
    · refine .inr ⟨parseFor_waits (tryParse_empty hbuf), fun hlater => ?_⟩
      rw [hbuf, hlater]
      rfl
    · have htry : r.tryParse hmacSha256 =
          ({ r with out := r.out ++ r.rbuf, rbuf := [] }, .ok true) := by
        unfold tryParse
        rw [if_pos hmethod, if_neg hbuf]
      have hgives : r.out ++ r.rbuf ≠ [] := by
        rw [hout]
        exact hbuf
      refine .inl ⟨_, later, parseFor_of_try htry hgives, hgives, .inl ⟨hmethod, rfl⟩, ?_, rfl⟩
      dsimp only
      rw [hout, List.nil_append]
  · cases records with
    | nil =>
      obtain ⟨hbuf, -⟩ := List.append_eq_nil_iff.mp hwire
      exact .inr ⟨parseFor_waits (tryParse_empty hbuf), fun _ => rfl⟩
    | cons record records =>
      obtain ⟨hposition, p', hnext, hrest⟩ := hlinks
      have hthis := hsealed record List.mem_cons_self
      rw [List.flatMap_cons] at hwire
      by_cases hshort : r.rbuf.length < record.wire.length
      · refine .inr ⟨parseFor_waits (tryParse_short hmethod hthis hwire hshort), fun hlater => ?_⟩
        rw [hlater, List.append_nil] at hwire
        rw [hwire, List.length_append] at hshort
        omega
      · have hfront : r.rbuf = record.wire ++ r.rbuf.drop record.wire.length ∧
            r.rbuf.drop record.wire.length ++ later = records.flatMap Record.wire := by
          have htake := congrArg (List.take record.wire.length) hwire
          have hdrop := congrArg (List.drop record.wire.length) hwire
          rw [List.take_append_of_le_length (Nat.not_lt.mp hshort), List.take_left] at htake
          rw [List.drop_append_of_le_length (Nat.not_lt.mp hshort), List.drop_left] at hdrop
          refine ⟨?_, hdrop⟩
          nth_rewrite 1 [← List.take_append_drop record.wire.length r.rbuf]
          rw [htake]
        have htry := (tryParse_record hmethod hthis hfront.1).1 (by rw [hposition]; exact hadmits)
        have hgives : r.out ++ record.plain ≠ [] := by
          rw [hout]
          exact hthis.ne_nil
        refine .inl ⟨_, records.flatMap Record.plain, parseFor_of_try htry hgives, hgives,
          .inr ⟨hmethod, p', q, records, ?_, hrest,
            fun rec hrec => hsealed rec (List.mem_cons_of_mem _ hrec), hfront.2, rfl⟩, ?_, rfl⟩
        · rw [← hposition] at hnext
          exact next_admits (r := r) hnext
        · dsimp only
          rw [List.flatMap_cons, hout, List.nil_append]

/-- A transport that goes on, or one that ends behind what it brings. -/
def Ends (closing : Bool) (script : List Arrival) : Prop :=
  ∃ front, Endless front ∧ script = front ++ if closing then [.data []] else []

variable (hmacSha256) in
/-- What a reader and its transport hold. -/
structure Holds (closing : Bool) (s : RecordReader × List Arrival) (bs : Bytes) : Prop where
  carries : ∃ rest, s.1.Carries hmacSha256 (arrived s.2) rest ∧ bs = s.1.out ++ rest
  ends : s.1.eof = false → Ends closing s.2
  eof : s.1.eof = true → closing = true ∧ s.2 = [] ∧ bs = s.1.out

variable (hmacSha256) in
/-- What a poll may be: no error, and the bytes that are given are in front of the rest. -/
structure Gives (closing : Bool) (script : List Arrival) (bs : Bytes) (p : ReadPoll) : Prop where
  gives : ∃ out rest, Holds hmacSha256 closing (p.reader, p.script) rest ∧ bs = out ++ rest ∧
    (p.res = .ready (.ok out) ∨ p.res = .pending ∧ out = []) ∧
    (out ≠ [] ∨ p.script.length < script.length ∨ p.script = [] ∧ rest = [])
  shrinks : p.script.length ≤ script.length

variable {closing : Bool} {script : List Arrival}

theorem Gives.give {cap : Nat} (hcap : 0 < cap) {rest : Bytes} (hne : r.out ≠ [])
    (hcarries : r.Carries hmacSha256 (arrived script) rest)
    (hends : r.eof = false → Ends closing script)
    (heof : r.eof = true → closing = true ∧ script = [] ∧ rest = []) :
    Gives hmacSha256 closing script (r.out ++ rest) (r.give cap script) where
  gives := by
    refine ⟨r.out.take cap, r.out.drop cap ++ rest, ⟨⟨rest, hcarries, rfl⟩, hends, fun h => ?_⟩, ?_,
      .inl rfl, .inl ?_⟩
    · obtain ⟨hclosing, hscript, hrest⟩ := heof h
      refine ⟨hclosing, hscript, ?_⟩
      rw [hrest, List.append_nil]
      rfl
    · rw [← List.append_assoc, List.take_append_drop]
    · intro hnil
      rcases List.take_eq_nil_iff.mp hnil with hzero | hnil
      · omega
      · exact hne hnil
  shrinks := Nat.le_refl _

theorem Ends.tail {a : Arrival} (h : Ends closing (a :: script)) (hne : a ≠ .data []) :
    Ends closing script := by
  obtain ⟨front, hend, hscript⟩ := h
  cases front with
  | nil =>
    cases closing with
    | true =>
      cases hscript
      exact absurd rfl hne
    | false => cases hscript
  | cons b front =>
    injection hscript with hfirst hscript
    exact ⟨front, fun hmem => hend (List.mem_cons_of_mem _ hmem), hscript⟩

theorem Ends.last (h : Ends closing (.data [] :: script)) : closing = true ∧ script = [] := by
  obtain ⟨front, hend, hscript⟩ := h
  cases front with
  | nil =>
    cases closing with
    | true =>
      cases hscript
      exact ⟨rfl, rfl⟩
    | false => cases hscript
  | cons b front =>
    injection hscript with hfirst hscript
    rw [← hfirst] at hend
    exact absurd List.mem_cons_self hend

end RecordReader

end RustCrash.Sudoku
