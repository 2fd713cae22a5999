import RustCrash.Lib.ByteReader
import RustCrash.Shadowsocks.Method

/-
  The readers of a Shadowsocks connection: `SsStream` of the client, which reads a salt and for a
  2022 method a header before the chunks, and `SsServerStream` of the server, whose request header
  was read before.

  `Chunks c parts plains` are chunks that the other end sealed from `c` on, and both readers open
  them (`Chunks.parts`, `Chunks.reads`).
-/

namespace RustCrash.Shadowsocks

open Lib Proto

/-- Opens a length chunk; `what` is how the reader calls itself in its errors. -/
def openLen (what : String) (dec : SsCrypto) (ct : Bytes) : SsCrypto × Result UInt16 :=
  let (dec, res) := dec.openNext ct
  (dec, match res with
    | .error e => .error (.protocol s!"{what} length chunk: {e.display}")
    | .ok pt => .ok (ofBE16 (pt.take 2)))

def openPayload (what : String) (dec : SsCrypto) (ct : Bytes) : SsCrypto × Result Bytes :=
  let (dec, res) := dec.openNext ct
  (dec, match res with
    | .error e => .error (.protocol s!"{what} payload chunk: {e.display}")
    | .ok pt => .ok pt)

/-- An `Err` of `advance_state`. -/
def invalidData (e : Error) : IoError := ⟨.invalidData, e.display⟩

def truncatedStream : IoError := ⟨.unexpectedEof, "shadowsocks: truncated stream"⟩

/-! ## The client -/

inductive ReadState where
  /-- Waiting for the response salt. -/
  | salt
  /-- Waiting for the 2022 fixed response header. -/
  | fixed2022
  | len
  | payload (len : UInt16)

/-- The reading half of `SsStream`. -/
structure SsDecoder where
  method : SsMethod
  derivedKey : ByteVec method.keyLen
  sentSalt : ByteVec method.keyLen
  dec : SsCrypto
  state : ReadState

def absDiff (a b : UInt64) : Nat := (a.toNat - b.toNat) + (b.toNat - a.toNat)

namespace SsDecoder

variable (H : Hashes) (now : UInt64)

def need (d : SsDecoder) : Nat :=
  match d.state with
  | .salt => d.method.keyLen
  | .fixed2022 => 11 + d.sentSalt.val.length + tagSize
  | .len => 2 + tagSize
  | .payload len => len.toNat + tagSize

/-- The fixed response header: the length of the first payload. -/
def checkFixed (sentSalt pt : Bytes) : Result UInt16 :=
  if pt.getD 0 0 ≠ 1 then .error (.protocol "ss2022 response: not a server frame")
  else if slice pt 9 sentSalt.length ≠ sentSalt then
    .error (.protocol "ss2022 response salt mismatch")
  else
    let drift := absDiff now (ofBE64 (slice pt 1 8))
    if 60 < drift then
      .error (.protocol s!"ss2022 response timestamp drift {drift}s exceeds replay window")
    else .ok (ofBE16 (slice pt (9 + sentSalt.length) 2))

/-- `advance_state`. A block that does not open stays in the buffer. -/
def step (d : SsDecoder) (piece : Bytes) : Taken SsDecoder UInt8 Error :=
  match d.state with
  | .salt =>
    match Aead.new d.method.kind (subkeyFor H d.method d.derivedKey.val piece) with
    | .error e => .failed d false e
    | .ok aead =>
      .ok { d with
        dec := SsCrypto.new aead
        state := if d.method.is2022 then .fixed2022 else .len } []
  | .fixed2022 =>
    match d.dec.openNext piece with
    | (dec, .error e) =>
      .failed { d with dec } true (.protocol s!"ss2022 response header: {e.display}")
    | (dec, .ok pt) =>
      match checkFixed now d.sentSalt.val pt with
      | .error e => .failed { d with dec } false e
      | .ok len => .ok { d with dec, state := .payload len } []
  | .len =>
    match openLen "ss" d.dec piece with
    | (dec, .error e) => .failed { d with dec } true e
    | (dec, .ok len) => .ok { d with dec, state := .payload len } []
  | .payload _ =>
    match openPayload "ss" d.dec piece with
    | (dec, .error e) => .failed { d with dec } true e
    | (dec, .ok pt) => .ok { d with dec, state := .len } pt

theorem need_pos (d : SsDecoder) : 0 < d.need := by
  unfold need
  have hkey := d.method.keyLen_pos
  have htag : tagSize = 16 := rfl
  cases d.state <;> dsimp only <;> omega

theorem rests (d : SsDecoder) : (some d.need) ≠ some 0 := by
  intro h
  have hpos := d.need_pos
  rw [Option.some.injEq] at h
  omega

/-- The response header is parsed once, at `now`. -/
def machine : Staged SsDecoder UInt8 Error where
  need d := some d.need
  step := step H now
  moves := fun {_ t _ _} _ _ => t.rests

end SsDecoder

/-! ## The server -/

inductive ServerReadState where
  | len
  | payload (len : UInt16)

/-- The reading half of `SsServerStream`. -/
structure SsServerDecoder where
  dec : SsCrypto
  state : ServerReadState

namespace SsServerDecoder

def need (d : SsServerDecoder) : Nat :=
  match d.state with
  | .len => 2 + tagSize
  | .payload len => len.toNat + tagSize

def step (d : SsServerDecoder) (piece : Bytes) : Taken SsServerDecoder UInt8 Error :=
  match d.state with
  | .len =>
    match openLen "shadowsocks" d.dec piece with
    | (dec, .error e) => .failed { d with dec } true e
    | (dec, .ok len) => .ok ⟨dec, .payload len⟩ []
  | .payload _ =>
    match openPayload "shadowsocks" d.dec piece with
    | (dec, .error e) => .failed { d with dec } true e
    | (dec, .ok pt) => .ok ⟨dec, .len⟩ pt

theorem rests (d : SsServerDecoder) : (some d.need) ≠ some 0 := by
  intro h
  rw [Option.some.injEq] at h
  unfold need tagSize at h
  cases hd : d.state <;> rw [hd] at h <;> dsimp only at h <;> omega

def machine : Staged SsServerDecoder UInt8 Error where
  need d := some d.need
  step := step
  moves := fun {_ t _ _} _ _ => t.rests

end SsServerDecoder

/-! ## Chunks -/

/-- Chunks with these payloads, sealed from `c` on. -/
inductive Chunks : SsCrypto → List (Part × Bytes) → List Bytes → SsCrypto → Prop
  | nil (c : SsCrypto) : Chunks c [] [] c
  | cons {c c₁ c₂ c' : SsCrypto} {plain lenCt ct : Bytes} {parts : List (Part × Bytes)}
      {plains : List Bytes} (hfits : plain.length ≤ 65535)
      (hlen : c.sealNext (be16 (UInt16.ofNat plain.length)) = .ok (c₁, lenCt))
      (hct : c₁.sealNext plain = .ok (c₂, ct)) (hrest : Chunks c₂ parts plains c') :
      Chunks c ((.length, lenCt) :: (.payload, ct) :: parts) (plain :: plains) c'

/-- A reader with a state for a length and one for a payload. -/
structure OpensChunks {S : Type} (m : Staged S UInt8 Error) (atLen : SsCrypto → S)
    (atPayload : SsCrypto → UInt16 → S) : Prop where
  needLen : ∀ c, m.need (atLen c) = some 18
  len : ∀ {c c' : SsCrypto} {ct : Bytes} {n : UInt16}, c.openNext ct = (c', .ok (be16 n)) →
    m.step (atLen c) ct = .ok (atPayload c' n) []
  needPayload : ∀ c n, m.need (atPayload c n) = some (n.toNat + 16)
  payload : ∀ {c c' : SsCrypto} {n : UInt16} {ct plain : Bytes},
    c.openNext ct = (c', .ok plain) → m.step (atPayload c n) ct = .ok (atLen c') plain

theorem openLen_ok {what : String} {c c' : SsCrypto} {ct : Bytes} {n : UInt16}
    (h : c.openNext ct = (c', .ok (be16 n))) : openLen what c ct = (c', .ok n) := by
  unfold openLen
  rw [h]
  dsimp only
  rw [List.take_of_length_le (Nat.le_of_eq (length_be16 n)), ofBE16_be16]

theorem openPayload_ok {what : String} {c c' : SsCrypto} {ct plain : Bytes}
    (h : c.openNext ct = (c', .ok plain)) : openPayload what c ct = (c', .ok plain) := by
  unfold openPayload
  rw [h]

theorem SsDecoder.opensChunks (H : Hashes) (now : UInt64) (d : SsDecoder) :
    OpensChunks (machine H now) (fun c => { d with dec := c, state := .len })
      (fun c n => { d with dec := c, state := .payload n }) where
  needLen _ := rfl
  len h := by
    unfold machine step
    dsimp only
    rw [openLen_ok h]
  needPayload _ _ := rfl
  payload h := by
    unfold machine step
    dsimp only
    rw [openPayload_ok h]

theorem SsServerDecoder.opensChunks :
    OpensChunks machine (fun c => ⟨c, .len⟩) (fun c n => ⟨c, .payload n⟩) where
  needLen _ := rfl
  len h := by
    unfold machine step
    dsimp only
    rw [openLen_ok h]
  needPayload _ _ := rfl
  payload h := by
    unfold machine step
    dsimp only
    rw [openPayload_ok h]

section

variable {S : Type} {m : Staged S UInt8 Error} {atLen : SsCrypto → S}
  {atPayload : SsCrypto → UInt16 → S}

theorem OpensChunks.rests_len (h : OpensChunks m atLen atPayload) (c : SsCrypto) :
    m.Rests (atLen c) := by
  unfold Staged.Rests
  rw [h.needLen]
  decide

theorem OpensChunks.rests_payload (h : OpensChunks m atLen atPayload) (c : SsCrypto) (n : UInt16) :
    m.Rests (atPayload c n) := by
  unfold Staged.Rests
  rw [h.needPayload]
  intro hnone
  rw [Option.some.injEq] at hnone
  omega

/-- A sealed length is taken. -/
theorem OpensChunks.reads_len (h : OpensChunks m atLen atPayload) {c c' : SsCrypto} {lenCt : Bytes}
    {n : UInt16} (hlen : c.sealNext (be16 n) = .ok (c', lenCt)) :
    m.need (atLen c) = some lenCt.length ∧ m.Reads (atLen c) lenCt [] (atPayload c' n) := by
  have hneed : m.need (atLen c) = some lenCt.length := by
    rw [h.needLen, SsCrypto.length_sealed hlen, length_be16]
    rfl
  exact ⟨hneed, .one hneed (h.len (SsCrypto.openNext_sealed hlen))⟩

/-- So is the payload of that length. -/
theorem OpensChunks.reads_payload (h : OpensChunks m atLen atPayload) {c c' : SsCrypto}
    {plain ct : Bytes} {n : UInt16} (hn : n.toNat = plain.length)
    (hct : c.sealNext plain = .ok (c', ct)) :
    m.need (atPayload c n) = some ct.length ∧ m.Reads (atPayload c n) ct plain (atLen c') := by
  have hneed : m.need (atPayload c n) = some ct.length := by
    rw [h.needPayload, SsCrypto.length_sealed hct, hn]
    rfl
  exact ⟨hneed, .one hneed (h.payload (SsCrypto.openNext_sealed hct))⟩

theorem Chunks.parts (h : OpensChunks m atLen atPayload) {c c' : SsCrypto}
    {parts : List (Part × Bytes)} {plains : List Bytes} (hchunks : Chunks c parts plains c') :
    m.Parts (atLen c) parts (atLen c') := by
  induction hchunks with
  | nil c => exact .nil _
  | @cons c c₁ c₂ c' plain lenCt ct parts plains hfits hlen hct _ ih =>
    have hn : (UInt16.ofNat plain.length).toNat = plain.length :=
      UInt16.toNat_ofNat_of_lt' (Nat.lt_succ_of_le hfits)
    obtain ⟨hneed₁, hread₁⟩ := h.reads_len hlen
    obtain ⟨hneed₂, hread₂⟩ := h.reads_payload hn hct
    exact .cons (SsCrypto.sealed_ne_nil hlen) hneed₁ hread₁ (h.rests_payload c₁ _)
      (.cons (SsCrypto.sealed_ne_nil hct) hneed₂ hread₂ (h.rests_len c₂) ih)

theorem Chunks.reads (h : OpensChunks m atLen atPayload) {c c' : SsCrypto}
    {parts : List (Part × Bytes)} {plains : List Bytes} (hchunks : Chunks c parts plains c') :
    m.Reads (atLen c) (Staged.wireOfParts parts) plains.flatten (atLen c') := by
  induction hchunks with
  | nil c => exact .done _
  | @cons c c₁ c₂ c' plain lenCt ct parts plains hfits hlen hct _ ih =>
    have hn : (UInt16.ofNat plain.length).toNat = plain.length :=
      UInt16.toNat_ofNat_of_lt' (Nat.lt_succ_of_le hfits)
    exact (h.reads_len hlen).2.trans ((h.reads_payload hn hct).2.trans ih)

end

/-! ## The answer of a server -/

/-- The plaintext of the fixed response header. -/
def fixedHeader (ts : UInt64) (clientSalt : Bytes) (take : UInt16) : Bytes :=
  [1] ++ be64 ts ++ clientSalt ++ be16 take

variable (H : Hashes) (now : UInt64)

theorem SsDecoder.checkFixed_fixedHeader {ts : UInt64} {clientSalt : Bytes} {n : UInt16}
    (hdrift : absDiff now ts ≤ 60) :
    checkFixed now clientSalt (fixedHeader ts clientSalt n) = .ok n := by
  have hts : slice (fixedHeader ts clientSalt n) (0 + 1) 8 = be64 ts := by
    have hone : ([1] : Bytes).length = 1 := rfl
    unfold fixedHeader
    rw [List.append_assoc, List.append_assoc, slice_skip hone, slice_here (length_be64 ts)]
  have hhead : ([1] ++ be64 ts).length = 9 := by
    rw [List.length_append, length_be64]
    rfl
  have hsalt : slice (fixedHeader ts clientSalt n) (0 + 9) clientSalt.length = clientSalt := by
    unfold fixedHeader
    rw [List.append_assoc, slice_skip hhead, slice_here rfl]
  have hlen : slice (fixedHeader ts clientSalt n) (clientSalt.length + 9) 2 = be16 n := by
    unfold fixedHeader
    rw [List.append_assoc, slice_skip hhead]
    conv_lhs => rw [← Nat.zero_add clientSalt.length]
    rw [slice_skip rfl, slice_all (length_be16 n)]
  have htype : ¬ (fixedHeader ts clientSalt n).getD 0 0 ≠ 1 := not_not.mpr rfl
  unfold checkFixed
  rw [if_neg htype, if_neg (not_not.mpr hsalt)]
  dsimp only
  rw [hts, ofBE64_be64, if_neg (by omega), Nat.add_comm 9, hlen, ofBE16_be16]

/-- What a server answers, in parts; `plains` are the payloads. -/
inductive Answer (d : SsDecoder) : List (Part × Bytes) → List Bytes → Prop
  /-- Nothing yet. -/
  | nothing : Answer d [] []
  | legacy {salt : ByteVec d.method.keyLen} {c' : SsCrypto} {parts : List (Part × Bytes)}
      {plains : List Bytes} (hmethod : d.method.is2022 = false)
      (hchunks : Chunks (.new (sessionAead H d.method d.derivedKey salt.val)) parts plains c') :
      Answer d ((.salt, salt.val) :: parts) plains
  /-- The header has the length of the first payload. -/
  | sip022 {salt : ByteVec d.method.keyLen} {ts : UInt64} {c₁ c₂ c' : SsCrypto}
      {plain fixedCt ct : Bytes} {parts : List (Part × Bytes)} {plains : List Bytes}
      (hmethod : d.method.is2022 = true) (hdrift : absDiff now ts ≤ 60)
      (hfits : plain.length ≤ 65535)
      (hfixed : (SsCrypto.new (sessionAead H d.method d.derivedKey salt.val)).sealNext
        (fixedHeader ts d.sentSalt.val (UInt16.ofNat plain.length)) = .ok (c₁, fixedCt))
      (hct : c₁.sealNext plain = .ok (c₂, ct)) (hchunks : Chunks c₂ parts plains c') :
      Answer d ((.salt, salt.val) :: (.header, fixedCt) :: (.payload, ct) :: parts)
        (plain :: plains)

variable {H now}

namespace SsDecoder

/-- After the salt. -/
def keyed (H : Hashes) (d : SsDecoder) (salt : Bytes) : SsDecoder :=
  { d with
    dec := .new (sessionAead H d.method d.derivedKey salt)
    state := if d.method.is2022 then .fixed2022 else .len }

variable (H now) in
theorem reads_salt {d : SsDecoder} (hstate : d.state = .salt) (salt : ByteVec d.method.keyLen) :
    (machine H now).need d = some salt.val.length ∧
      (machine H now).Reads d salt.val [] (d.keyed H salt.val) := by
  have hneed : (machine H now).need d = some salt.val.length := by
    unfold machine SsDecoder.need
    dsimp only
    rw [hstate, salt.property]
  have hstep : (machine H now).step d salt.val = .ok (d.keyed H salt.val) [] := by
    unfold machine SsDecoder.step
    dsimp only
    rw [hstate]
    dsimp only
    rw [new_subkeyFor]
    rfl
  exact ⟨hneed, .one hneed hstep⟩

theorem reads_fixed {d : SsDecoder} {c' : SsCrypto} {ts : UInt64} {n : UInt16} {ct : Bytes}
    (hstate : d.state = .fixed2022) (hdrift : absDiff now ts ≤ 60)
    (hct : d.dec.sealNext (fixedHeader ts d.sentSalt.val n) = .ok (c', ct)) :
    (machine H now).need d = some ct.length ∧
      (machine H now).Reads d ct [] { d with dec := c', state := .payload n } := by
  have hneed : (machine H now).need d = some ct.length := by
    unfold machine SsDecoder.need
    dsimp only
    rw [hstate, SsCrypto.length_sealed hct]
    unfold fixedHeader
    simp only [List.length_append, length_be64, length_be16, List.length_singleton]
    congr 1
    omega
  have hstep : (machine H now).step d ct = .ok { d with dec := c', state := .payload n } [] := by
    unfold machine SsDecoder.step
    dsimp only
    rw [hstate]
    dsimp only
    rw [SsCrypto.openNext_sealed hct]
    dsimp only
    rw [checkFixed_fixedHeader now hdrift]
  exact ⟨hneed, .one hneed hstep⟩

end SsDecoder

/-- The client takes an answer apart as it was put together, and opens it. -/
theorem Answer.parts {d : SsDecoder} {parts : List (Part × Bytes)} {plains : List Bytes}
    (h : Answer H now d parts plains) (hstate : d.state = .salt) :
    ∃ d', (SsDecoder.machine H now).Parts d parts d' ∧
      (SsDecoder.machine H now).Reads d (Staged.wireOfParts parts) plains.flatten d' := by
  cases h with
  | nothing => exact ⟨d, .nil d, .done d⟩
  | @legacy salt c' parts plains hmethod hchunks =>
    have hne : salt.val ≠ [] := by
      apply List.ne_nil_of_length_pos
      rw [salt.property]
      exact d.method.keyLen_pos
    obtain ⟨hneed, hread⟩ := SsDecoder.reads_salt H now hstate salt
    have hkeyed : d.keyed H salt.val =
        { d with dec := .new (sessionAead H d.method d.derivedKey salt.val), state := .len } := by
      unfold SsDecoder.keyed
      rw [hmethod]
      rfl
    rw [hkeyed] at hread
    have hopens := d.opensChunks H now
    exact ⟨_, .cons hne hneed hread (hopens.rests_len _) (hchunks.parts hopens),
      hread.trans (hchunks.reads hopens)⟩
  | @sip022 salt ts c₁ c₂ c' plain fixedCt ct parts plains hmethod hdrift hfits hfixed hct hchunks =>
    have hne : salt.val ≠ [] := by
      apply List.ne_nil_of_length_pos
      rw [salt.property]
      exact d.method.keyLen_pos
    have hn : (UInt16.ofNat plain.length).toNat = plain.length :=
      UInt16.toNat_ofNat_of_lt' (Nat.lt_succ_of_le hfits)
    obtain ⟨hneed, hread⟩ := SsDecoder.reads_salt H now hstate salt
    have hkeyed : d.keyed H salt.val =
        { d with dec := .new (sessionAead H d.method d.derivedKey salt.val), state := .fixed2022 } := by
      unfold SsDecoder.keyed
      rw [hmethod]
      rfl
    rw [hkeyed] at hread
    obtain ⟨hneed₁, hread₁⟩ := SsDecoder.reads_fixed (H := H) (d := { d with
      dec := .new (sessionAead H d.method d.derivedKey salt.val), state := .fixed2022 })
      rfl hdrift hfixed
    have hopens := d.opensChunks H now
    obtain ⟨hneed₂, hread₂⟩ := hopens.reads_payload hn hct
    exact ⟨_, .cons hne hneed hread (SsDecoder.rests _) (.cons (SsCrypto.sealed_ne_nil hfixed) hneed₁
        hread₁ (SsDecoder.rests _) (.cons (SsCrypto.sealed_ne_nil hct) hneed₂ hread₂
          (hopens.rests_len _) (hchunks.parts hopens))),
      hread.trans (hread₁.trans (hread₂.trans (hchunks.reads hopens)))⟩

end RustCrash.Shadowsocks
