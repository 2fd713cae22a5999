import RustCrash.Dns.WireName

/-
  Parsing what `build_response` built (`response_roundtrip`). The header always comes
  back. The questions come back exactly when every name in them is `Writable`, and then
  every answer comes back as one record owned by the first of them. With no question the
  answers are counted in the header but not written, and the message does not parse.
-/

namespace RustCrash.Dns

open Lib

/-! ## What `parse` guarantees -/

theorem lower_join {ps : List Str} (h : ∀ p ∈ ps, Lower p) : Lower (Str.join '.' ps) := by
  induction ps with
  | nil => rfl
  | cons p ps ih =>
    have hp : Lower p := h p List.mem_cons_self
    cases ps with
    | nil => rwa [Str.join_singleton]
    | cons q qs =>
      have hdot : Lower ['.'] := by unfold Lower; decide
      rw [Str.join_cons_cons, ← List.singleton_append]
      exact lower_append.mpr ⟨hp, lower_append.mpr ⟨hdot, ih fun x hx => h x (List.mem_cons_of_mem _ hx)⟩⟩

variable {name : Str} {qs : List Question} {raw rest : Bytes} {answers : List (IpAddr × UInt32)}

/-- Every label `read_name` pushes is in lower case. -/
theorem readNameLoop_lower {raw : Bytes} {offset fuel pos consumed jumps used : Nat}
    {followed : Bool} {labels : List Str} (hl : ∀ p ∈ labels, Lower p)
    (h : readNameLoop raw offset fuel pos consumed followed jumps labels =
      some (.ok (name, used))) : Lower name := by
  induction fuel generalizing pos consumed jumps followed labels with
  | zero => simp [readNameLoop] at h
  | succ fuel ih =>
    unfold readNameLoop at h
    cases hb : raw[pos]? with
    | none => simp [hb] at h
    | some b =>
      rw [hb] at h
      dsimp only at h
      by_cases hlabel : b.toNat &&& 0xC0 = 0x00
      · rw [if_pos hlabel] at h
        by_cases hend : b.toNat = 0
        · rw [if_pos hend] at h
          simp only [Option.some.injEq, Except.ok.injEq, Prod.mk.injEq] at h
          rw [← h.1]
          exact lower_join hl
        · rw [if_neg hend] at h
          by_cases hpast : raw.length < pos + 1 + b.toNat
          · rw [if_pos hpast] at h
            simp at h
          · rw [if_neg hpast] at h
            refine ih ?_ h
            intro p hp
            rcases List.mem_append.mp hp with hp | hp
            · exact hl p hp
            · rw [List.mem_singleton.mp hp]
              exact asciiLower_idem _
      · rw [if_neg hlabel] at h
        by_cases hptr : b.toNat &&& 0xC0 = 0xC0
        · rw [if_pos hptr] at h
          cases hlo : raw[pos + 1]? with
          | none => simp [hlo] at h
          | some lo =>
            rw [hlo] at h
            dsimp only at h
            by_cases hback : pos ≤ ((b.toNat &&& 0x3F) <<< 8) ||| lo.toNat
            · rw [if_pos hback] at h
              simp at h
            · rw [if_neg hback] at h
              by_cases hmany : 32 < jumps + 1
              · rw [if_pos hmany] at h
                simp at h
              · rw [if_neg hmany] at h
                exact ih hl h
        · rw [if_neg hptr] at h
          simp at h

theorem readName_lower {raw : Bytes} {off used : Nat} (h : readName raw off = .ok (name, used)) :
    Lower name := by
  have heq := readName_eq raw off
  rw [h] at heq
  exact readNameLoop_lower (by simp) heq

theorem readQuestions_ok {raw : Bytes} {n off off' : Nat}
    (h : readQuestions raw n off = .ok (qs, off')) : qs.length = n ∧ ∀ q ∈ qs, Lower q.name := by
  induction n generalizing off off' qs with
  | zero =>
    simp only [readQuestions, Except.ok.injEq, Prod.mk.injEq] at h
    rw [← h.1]
    simp
  | succ n ih =>
    unfold readQuestions at h
    rw [bind_eq_ok] at h
    obtain ⟨⟨name, used⟩, hname, h⟩ := h
    dsimp only at h
    split_ifs at h
    · simp at h
    · rw [bind_eq_ok] at h
      obtain ⟨⟨qs', off''⟩, hqs, h⟩ := h
      simp only [pure_eq, Except.ok.injEq, Prod.mk.injEq] at h
      obtain ⟨hlen, hlow⟩ := ih hqs
      rw [← h.1]
      refine ⟨by simp [hlen], ?_⟩
      intro q hq
      rcases List.mem_cons.mp hq with rfl | hq
      · exact readName_lower hname
      · exact hlow q hq

/-- A message `parse` can return. -/
structure Parsed (m : DnsMessage) : Prop where
  opcode_lt : m.opcode.toNat < 16
  questions_lt : m.questions.length < 65536
  lower : ∀ q ∈ m.questions, Lower q.name

theorem opcode_lt (flags : UInt16) : ((flags >>> 11) &&& 0xF).toUInt8.toNat < 16 := by
  rw [UInt16.toNat_toUInt8, UInt16.toNat_and]
  have : (flags >>> 11).toNat &&& (0xF : UInt16).toNat ≤ 15 := Nat.and_le_right
  omega

theorem parse_parsed {raw : Bytes} {m : DnsMessage} (h : parse raw = .ok m) : Parsed m := by
  unfold parse at h
  split_ifs at h
  · simp at h
  · rw [bind_eq_ok] at h
    obtain ⟨⟨qs, off⟩, hqs, h⟩ := h
    rw [bind_eq_ok] at h
    obtain ⟨⟨rs, off'⟩, -, h⟩ := h
    simp only [pure_eq, Except.ok.injEq] at h
    obtain ⟨hlen, hlow⟩ := readQuestions_ok hqs
    rw [← h]
    refine ⟨opcode_lt _, ?_, hlow⟩
    dsimp only
    rw [hlen]
    exact (u16At raw 4).toNat_lt

/-! ## The questions -/

theorem readName_writable {off : Nat} (hl : Lower name) (hw : Writable name)
    (h : raw.drop off = writeName name ++ rest) :
    readName raw off = .ok (name, (writeName name).length) := by
  rw [readName_written h, (reread_eq_iff hl).mpr hw, writeName_of_writable hw, List.length_append]
  rfl

theorem writeName_ne_nil (name : Str) : writeName name ≠ [] := by
  rw [writeName_eq]
  simp

theorem readQuestions_cons {off n : Nat} {q : Question} (hl : Lower q.name) (hw : Writable q.name)
    (h : raw.drop off = writeQuestion q ++ rest) :
    readQuestions raw (n + 1) off =
      (readQuestions raw n (off + (writeQuestion q).length)).map fun p => (q :: p.1, p.2) := by
  unfold writeQuestion at h
  rw [List.append_assoc, List.append_assoc] at h
  have htype := drop_drop_append h
  have hclass := drop_drop_append htype
  have hwhole : raw.drop off = writeName q.name ++ (be16 q.qtype ++ be16 q.qclass) ++ rest := by
    rw [h, List.append_assoc, List.append_assoc]
  have hroom := length_le_of_drop hwhole (by simp [writeName_ne_nil])
  have hlen : (writeQuestion q).length = (writeName q.name).length + 4 := by
    simp [writeQuestion]
  rw [length_be16] at hclass
  simp only [List.length_append, length_be16] at hroom
  conv => lhs; unfold readQuestions
  rw [readName_writable hl hw h, bind_ok]
  dsimp only
  rw [if_neg (by omega), u16At_of_drop htype, u16At_of_drop hclass, hlen, Nat.add_assoc off]
  cases readQuestions raw n (off + ((writeName q.name).length + 4)) <;> rfl

theorem readQuestions_written {off : Nat} (hl : ∀ q ∈ qs, Lower q.name)
    (hw : ∀ q ∈ qs, Writable q.name) (h : raw.drop off = qs.flatMap writeQuestion ++ rest) :
    readQuestions raw qs.length off = .ok (qs, off + (qs.flatMap writeQuestion).length) := by
  induction qs generalizing off with
  | nil => rfl
  | cons q qs ih =>
    rw [List.flatMap_cons, List.append_assoc] at h
    rw [List.length_cons, readQuestions_cons (hl q List.mem_cons_self) (hw q List.mem_cons_self) h,
      ih (fun x hx => hl x (List.mem_cons_of_mem _ hx)) (fun x hx => hw x (List.mem_cons_of_mem _ hx))
        (drop_drop_append h), List.flatMap_cons, List.length_append, Nat.add_assoc]
    rfl

/-- The first name that does not survive is read as another one. -/
theorem writable_of_readQuestions {off off' : Nat} (hl : ∀ q ∈ qs, Lower q.name)
    (h : raw.drop off = qs.flatMap writeQuestion ++ rest)
    (hr : readQuestions raw qs.length off = .ok (qs, off')) : ∀ q ∈ qs, Writable q.name := by
  induction qs generalizing off with
  | nil => simp
  | cons q qs ih =>
    rw [List.flatMap_cons, List.append_assoc] at h
    have hlq : Lower q.name := hl q List.mem_cons_self
    have hwq : Writable q.name := by
      have hname : raw.drop off = writeName q.name ++ (be16 q.qtype ++ be16 q.qclass ++
          (qs.flatMap writeQuestion ++ rest)) := by
        rw [h, writeQuestion]
        simp only [List.append_assoc]
      unfold List.length readQuestions at hr
      rw [readName_written hname, bind_ok] at hr
      dsimp only at hr
      split_ifs at hr
      · simp at hr
      · rw [bind_eq_ok] at hr
        obtain ⟨p, -, hp⟩ := hr
        simp only [pure_eq, Except.ok.injEq, Prod.mk.injEq, List.cons.injEq] at hp
        exact (reread_eq_iff hlq).mp (congrArg Question.name hp.1.1)
    rw [List.length_cons, readQuestions_cons hlq hwq h] at hr
    cases ht : readQuestions raw qs.length (off + (writeQuestion q).length) with
    | error e => simp [ht, Except.map] at hr
    | ok p =>
      simp only [ht, Except.map, Except.ok.injEq, Prod.mk.injEq, List.cons.injEq] at hr
      obtain ⟨⟨-, hqs⟩, hoff⟩ := hr
      have hp : p = (qs, off') := Prod.ext hqs hoff
      have htail := ih (fun x hx => hl x (List.mem_cons_of_mem _ hx)) (drop_drop_append h)
        (by rw [ht, hp])
      intro x hx
      rcases List.mem_cons.mp hx with rfl | hx
      · exact hwq
      · exact htail x hx

/-! ## The answers -/

/-- The record of an answer. -/
def recordOf (owner : Str) (a : IpAddr × UInt32) : ResourceRecord :=
  ⟨owner, addrType a.1, 1, a.2, addrOctets a.1⟩

theorem length_addrOctets (ip : IpAddr) :
    (UInt16.ofNat (addrOctets ip).length).toNat = (addrOctets ip).length := by
  cases ip with
  | v4 a => simp [addrOctets, Net.length_octets4]
  | v6 a => simp [addrOctets, Net.length_octets6]

theorem readRecords_cons {raw rest rest12 : Bytes} {off n : Nat} {a : IpAddr × UInt32}
    (hl : Lower name) (hw : Writable name) (hoff : 12 < off)
    (h12 : raw.drop 12 = writeName name ++ rest12) (h : raw.drop off = writeAnswer a ++ rest) :
    readRecords raw (n + 1) off =
      (readRecords raw n (off + (writeAnswer a).length)).map
        fun p => (recordOf name a :: p.1, p.2) := by
  have hroom := length_le_of_drop h (by simp [writeAnswer])
  have hsize : (writeAnswer a).length = 12 + (addrOctets a.1).length := by
    simp [writeAnswer]
    omega
  unfold writeAnswer at h
  simp only [List.append_assoc] at h
  have htype : raw.drop (off + 2) = _ := drop_drop_append h
  have hclass : raw.drop (off + 2 + 2) = _ := drop_drop_append htype
  have httl : raw.drop (off + 2 + 4) = _ := drop_drop_append hclass
  have hlen : raw.drop (off + 2 + 8) = _ := drop_drop_append httl
  have hdata : raw.drop (off + 2 + 10) = _ := drop_drop_append hlen
  have hname := readName_pointer hoff (by rw [h]; rfl) h12
  rw [(reread_eq_iff hl).mpr hw] at hname
  conv => lhs; unfold readRecords
  rw [hname, bind_ok]
  dsimp only
  rw [u16At_of_drop hlen, length_addrOctets, if_neg (by omega), if_neg (by omega),
    u16At_of_drop htype, u16At_of_drop hclass, u32At_of_drop httl, hdata, List.take_left' rfl, hsize,
    show off + (12 + (addrOctets a.1).length) = off + 2 + 10 + (addrOctets a.1).length by omega]
  cases readRecords raw n (off + 2 + 10 + (addrOctets a.1).length) <;> rfl

theorem readRecords_written {raw rest rest12 : Bytes} {off : Nat} (hl : Lower name)
    (hw : Writable name) (hoff : 12 < off) (h12 : raw.drop 12 = writeName name ++ rest12)
    (h : raw.drop off = answers.flatMap writeAnswer ++ rest) :
    ∃ off', readRecords raw answers.length off = .ok (answers.map (recordOf name), off') := by
  induction answers generalizing off with
  | nil => exact ⟨off, rfl⟩
  | cons a answers ih =>
    rw [List.flatMap_cons, List.append_assoc] at h
    obtain ⟨off', hrest⟩ := ih (by omega) (drop_drop_append h)
    refine ⟨off', ?_⟩
    rw [List.length_cons, readRecords_cons hl hw hoff h12 h, hrest]
    rfl

/-! ## The header -/

theorem flags_table : ∀ o < 16, ∀ r < 16, ∀ rd : Bool,
    let flags : UInt16 := (0x8000 : UInt16) ||| ((UInt8.ofNat o).toUInt16 <<< 11) |||
      (if rd then (0x0100 : UInt16) else 0) ||| 0x0080 ||| UInt16.ofNat r
    (flags &&& 0x8000 != 0) = true ∧ ((flags >>> 11) &&& 0xF).toUInt8 = UInt8.ofNat o ∧
      (flags &&& 0x0100 != 0) = rd := by
  decide +kernel

/-- The flags of a response say so, and carry the query's opcode and RD bit. -/
theorem responseFlags_spec (q : DnsMessage) (hq : q.opcode.toNat < 16) (rcode : UInt8) :
    (responseFlags q rcode &&& 0x8000 != 0) = true ∧
    ((responseFlags q rcode >>> 11) &&& 0xF).toUInt8 = q.opcode ∧
    (responseFlags q rcode &&& 0x0100 != 0) = q.recursionDesired := by
  have hr : (rcode.toUInt16 &&& 0xF).toNat < 16 := by
    rw [UInt16.toNat_and]
    have : rcode.toUInt16.toNat &&& (0xF : UInt16).toNat ≤ 15 := Nat.and_le_right
    omega
  have h := flags_table q.opcode.toNat hq _ hr q.recursionDesired
  rw [UInt8.ofNat_toNat, UInt16.ofNat_toNat] at h
  exact h

theorem buildResponse_eq (q : DnsMessage) (rcode : UInt8) (answers : List (IpAddr × UInt32)) :
    buildResponse q rcode answers =
      be16 q.id ++ be16 (responseFlags q rcode) ++ be16 (UInt16.ofNat q.questions.length) ++
        be16 (UInt16.ofNat answers.length) ++ be16 0 ++ be16 0 ++
        q.questions.flatMap writeQuestion ++
        if q.questions = [] then [] else answers.flatMap writeAnswer := by
  unfold buildResponse
  cases q.questions <;> rfl

/-- A built response, section by section. -/
theorem buildResponse_parts (q : DnsMessage) (rcode : UInt8) (answers : List (IpAddr × UInt32)) :
    ∃ tail, (q.questions ≠ [] → tail = answers.flatMap writeAnswer) ∧ (q.questions = [] → tail = []) ∧
      u16At (buildResponse q rcode answers) 0 = q.id ∧
      u16At (buildResponse q rcode answers) 2 = responseFlags q rcode ∧
      u16At (buildResponse q rcode answers) 4 = UInt16.ofNat q.questions.length ∧
      u16At (buildResponse q rcode answers) 6 = UInt16.ofNat answers.length ∧
      u16At (buildResponse q rcode answers) 8 = 0 ∧
      u16At (buildResponse q rcode answers) 10 = 0 ∧
      12 ≤ (buildResponse q rcode answers).length ∧
      (buildResponse q rcode answers).drop 12 = q.questions.flatMap writeQuestion ++ tail := by
  refine ⟨if q.questions = [] then [] else answers.flatMap writeAnswer, fun hne => if_neg hne,
    fun he => if_pos he, ?_⟩
  have h0 : (buildResponse q rcode answers).drop 0 = _ := buildResponse_eq q rcode answers
  simp only [List.append_assoc] at h0
  have h2 : (buildResponse q rcode answers).drop 2 = _ := drop_drop_append h0
  have h4 : (buildResponse q rcode answers).drop 4 = _ := drop_drop_append h2
  have h6 : (buildResponse q rcode answers).drop 6 = _ := drop_drop_append h4
  have h8 : (buildResponse q rcode answers).drop 8 = _ := drop_drop_append h6
  have h10 : (buildResponse q rcode answers).drop 10 = _ := drop_drop_append h8
  have h12 : (buildResponse q rcode answers).drop 12 = _ := drop_drop_append h10
  exact ⟨u16At_of_drop h0, u16At_of_drop h2, u16At_of_drop h4, u16At_of_drop h6, u16At_of_drop h8,
    u16At_of_drop h10, length_le_of_drop h10 (by simp [be16, toBE]), h12⟩

/-! ## The whole message -/

/-- The name of the first question. -/
def ownerOf (q : DnsMessage) : Str := (q.firstQuestion.map Question.name).getD []

/-- What a reply to `q` with these answers has to say. -/
structure Replies (q : DnsMessage) (answers : List (IpAddr × UInt32)) (m : DnsMessage) : Prop where
  response : m.isResponse = true
  id : m.id = q.id
  opcode : m.opcode = q.opcode
  recursionDesired : m.recursionDesired = q.recursionDesired
  questions : m.questions = q.questions
  records : m.answers = answers.map (recordOf (ownerOf q))

theorem toNat_ofNat16 {n : Nat} (h : n ≤ 65535) : (UInt16.ofNat n).toNat = n := by
  rw [UInt16.toNat_ofNat']
  omega

/-- A response holds no records but its answers. -/
theorem toNat_recordCount {n : Nat} (h : n ≤ 65535) : (UInt16.ofNat n + 0 + 0).toNat = n := by
  rw [UInt16.add_zero, UInt16.add_zero, toNat_ofNat16 h]

/-- When the questions come back, so does everything else. -/
theorem parse_buildResponse {q : DnsMessage} (hq : Parsed q) (rcode : UInt8)
    (ha : answers.length ≤ 65535) (hw : ∀ x ∈ q.questions, Writable x.name)
    (hne : q.questions ≠ [] ∨ answers = []) :
    ∃ m, parse (buildResponse q rcode answers) = .ok m ∧ Replies q answers m := by
  obtain ⟨tail, htail, htail', hid, hflags, hqd, han, hns, har, hlen, hdrop⟩ :=
    buildResponse_parts q rcode answers
  obtain ⟨hresp, hop, hrd⟩ := responseFlags_spec q hq.opcode_lt rcode
  have hqn := toNat_ofNat16 (by have := hq.questions_lt; omega : q.questions.length ≤ 65535)
  have hqs := readQuestions_written hq.lower hw hdrop
  have hrs : ∃ off', readRecords (buildResponse q rcode answers) answers.length
      (12 + (q.questions.flatMap writeQuestion).length) =
        .ok (answers.map (recordOf (ownerOf q)), off') := by
    cases hc : q.questions with
    | nil =>
      rw [hc] at hne
      rw [hne.resolve_left (by simp)]
      exact ⟨_, rfl⟩
    | cons x xs =>
      have hx : x ∈ q.questions := by simp [hc]
      have howner : ownerOf q = x.name := by simp [ownerOf, DnsMessage.firstQuestion, hc]
      have hfirst := hdrop
      rw [hc, List.flatMap_cons, writeQuestion] at hfirst
      simp only [List.append_assoc] at hfirst
      have hnext := drop_drop_append hdrop
      rw [htail (by simp [hc]), ← List.append_nil (answers.flatMap writeAnswer)] at hnext
      have hpos : 0 < (writeName x.name).length := List.length_pos_iff.mpr (writeName_ne_nil _)
      rw [howner, ← hc]
      refine readRecords_written (hq.lower x hx) (hw x hx) ?_ hfirst hnext
      rw [hc, List.flatMap_cons, writeQuestion]
      simp only [List.length_append]
      omega
  obtain ⟨off', hrs⟩ := hrs
  have hparse : parse (buildResponse q rcode answers) = .ok ⟨q.id, responseFlags q rcode,
      ((responseFlags q rcode >>> 11) &&& 0xF).toUInt8, (responseFlags q rcode &&& 0xF).toUInt8,
      q.questions, answers.map (recordOf (ownerOf q)), buildResponse q rcode answers⟩ := by
    unfold parse
    rw [if_neg (by omega), hid, hflags, hqd, han, hns, har]
    dsimp only
    rw [hqn, hqs, toNat_recordCount ha, bind_ok]
    dsimp only
    rw [hrs]
    rfl
  exact ⟨_, hparse, hresp, rfl, hop, hrd, rfl, rfl⟩

/-- When the questions come back, every name in them survives, and no answer is lost. -/
theorem writable_of_replies {q m : DnsMessage} (hq : Parsed q) {rcode : UInt8}
    (ha : answers.length ≤ 65535) (h : parse (buildResponse q rcode answers) = .ok m)
    (hm : Replies q answers m) :
    (q.questions ≠ [] ∨ answers = []) ∧ ∀ x ∈ q.questions, Writable x.name := by
  obtain ⟨tail, -, htail, hid, hflags, hqd, han, hns, har, hlen, hdrop⟩ :=
    buildResponse_parts q rcode answers
  have hqn := toNat_ofNat16 (by have := hq.questions_lt; omega : q.questions.length ≤ 65535)
  unfold parse at h
  rw [if_neg (by omega), hid, hflags, hqd, han, hns, har] at h
  dsimp only at h
  rw [hqn, toNat_recordCount ha, bind_eq_ok] at h
  obtain ⟨⟨qs, off⟩, hqs, h⟩ := h
  rw [bind_eq_ok] at h
  obtain ⟨⟨rs, off'⟩, hrs, h⟩ := h
  simp only [pure_eq, Except.ok.injEq] at h
  have hback : qs = q.questions := by
    rw [← hm.questions, ← h]
  rw [hback] at hqs
  refine ⟨?_, writable_of_readQuestions hq.lower hdrop hqs⟩
  by_contra hno
  rw [not_or, not_not] at hno
  obtain ⟨hnil, hsome⟩ := hno
  -- no question, but answers: the record loop starts at the end of the message
  have hoff : off = 12 := by
    rw [hnil] at hqs
    simp only [List.length_nil, readQuestions, Except.ok.injEq, Prod.mk.injEq] at hqs
    exact hqs.2.symm
  rw [hnil, htail hnil, List.flatMap_nil, List.append_nil, List.drop_eq_nil_iff] at hdrop
  obtain ⟨a, as, rfl⟩ := List.exists_cons_of_ne_nil hsome
  dsimp only at hrs
  rw [List.length_cons, hoff] at hrs
  unfold readRecords at hrs
  rw [readName_past_end hdrop, bind_error] at hrs
  simp at hrs

/-- Over every query the parser accepts, a reply says what it should exactly when the query
    has a question to own the answers, and every name in it survives being written. -/
theorem response_roundtrip (raw : Bytes) (q : DnsMessage) (hq : parse raw = .ok q)
    (rcode : UInt8) (answers : List (IpAddr × UInt32)) (ha : answers.length ≤ 65535) :
    (∃ m, parse (buildResponse q rcode answers) = .ok m ∧ Replies q answers m) ↔
      (q.questions ≠ [] ∨ answers = []) ∧ ∀ x ∈ q.questions, Writable x.name := by
  have hp := parse_parsed hq
  constructor
  · rintro ⟨m, hparse, hm⟩
    exact writable_of_replies hp ha hparse hm
  · rintro ⟨hne, hw⟩
    exact parse_buildResponse hp rcode ha hw hne

/-- A query for the label `label`. -/
def queryFor (label : Bytes) : Bytes :=
  [0, 7, 1, 0, 0, 1, 0, 0, 0, 0, 0, 0] ++ UInt8.ofNat label.length :: label ++ [0, 0, 1, 0, 1]

def messageFor (name : Str) (label : Bytes) : DnsMessage :=
  ⟨7, 0x0100, 0, 0, [⟨name, 1, 1⟩], [], queryFor label⟩

theorem response_roundtrip_example :
    ∃ m, parse (buildResponse (messageFor ['a'] [0x61]) 3 [(.v4 0x01020304, 60)]) = .ok m ∧
      Replies (messageFor ['a'] [0x61]) [(.v4 0x01020304, 60)] m :=
  (response_roundtrip (queryFor [0x61]) (messageFor ['a'] [0x61]) (by decide +kernel) 3
    [(.v4 0x01020304, 60)] (by decide)).mpr ⟨Or.inl (by decide), by decide +kernel⟩

/-- A label of 22 bytes that are no UTF-8 grows to 66 bytes, of which 63 are echoed. -/
theorem response_not_echoed :
    parse (queryFor (List.replicate 22 0xFF)) =
      .ok (messageFor (List.replicate 22 replacementChar) (List.replicate 22 0xFF)) ∧
    ¬ ∃ m, parse (buildResponse
        (messageFor (List.replicate 22 replacementChar) (List.replicate 22 0xFF)) 0 []) = .ok m ∧
      Replies (messageFor (List.replicate 22 replacementChar) (List.replicate 22 0xFF)) [] m := by
  have hback : (parse (buildResponse (messageFor (List.replicate 22 replacementChar)
      (List.replicate 22 0xFF)) 0 [])).toOption.map DnsMessage.questions =
        some [⟨List.replicate 21 replacementChar, 1, 1⟩] := by decide +kernel
  refine ⟨by decide +kernel, ?_⟩
  rintro ⟨m, hm, hr⟩
  rw [hm] at hback
  have hq := hr.questions
  have hm' : m.questions = [⟨List.replicate 21 replacementChar, 1, 1⟩] := Option.some.inj hback
  rw [hm'] at hq
  exact absurd hq (by decide)

end RustCrash.Dns
