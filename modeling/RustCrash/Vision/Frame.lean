import RustCrash.Lib.ByteVec

/-
  Vision: frames of padding around the first bytes of an inner TLS session.

  This module has what does not depend on a connection: the frame, the places where a buffer is
  cut, and the detector that decides when the padding ends.
-/

namespace RustCrash.Vision

open Lib

def paddingHeaderLen : Nat := 21
def xrayChunkSize : Nat := 8192
def frameContentLimit : Nat := xrayChunkSize - paddingHeaderLen

def paddingSeedContent : Nat := 900
def paddingSeedJitter : Nat := 500
def paddingSeedShort : Nat := 256

def tlsApplicationData : Bytes := [0x17, 0x03, 0x03]
def tlsServerHandshake : Bytes := [0x16, 0x03, 0x03]
def tlsClientHandshake : Bytes := [0x16, 0x03]
def tls13SupportedVersions : Bytes := [0x00, 0x2b, 0x00, 0x02, 0x03, 0x04]
def handshakeClientHello : UInt8 := 0x01
def handshakeServerHello : UInt8 := 0x02
def tls13CipherCcm8 : UInt16 := 0x1305

/-- A frame command. -/
inductive FrameCommand where
  | continue
  | end
  | direct
  deriving DecidableEq

namespace FrameCommand

def byte : FrameCommand → UInt8
  | .continue => 0
  | .end => 1
  | .direct => 2

def fromByte (byte : UInt8) : Option FrameCommand :=
  if byte = 0 then some .continue
  else if byte = 1 then some .end
  else if byte = 2 then some .direct
  else none

@[simp] theorem fromByte_byte (command : FrameCommand) : fromByte command.byte = some command := by
  cases command <;> rfl

end FrameCommand

/-! ## TLS records -/

def isApplicationData (pre : Bytes) : Bool :=
  6 ≤ pre.length && pre.take 3 == tlsApplicationData

/-- The loop of `is_complete_record`, with the bytes of a header and of a record that are due. -/
def completeFor : Nat → Nat → Nat → Bytes → Bool
  | _, headerLen, recordLen, [] => headerLen == 5 && recordLen == 0
  | 0, _, _, _ => false
  | n + 1, headerLen, recordLen, byte :: data =>
    if 0 < headerLen then
      if headerLen = 5 then byte == 0x17 && completeFor n 4 recordLen data
      else if headerLen = 4 ∨ headerLen = 3 then
        byte == 0x03 && completeFor n (headerLen - 1) recordLen data
      else if headerLen = 2 then completeFor n 1 (byte.toNat * 256) data
      else completeFor n 0 (recordLen + byte.toNat) data
    else if 0 < recordLen then
      if data.length + 1 < recordLen then false
      else completeFor n 5 0 ((byte :: data).drop recordLen)
    else false

def isCompleteRecord (data : Bytes) : Bool := completeFor data.length 5 0 data

def contains (haystack needle : Bytes) : Bool :=
  (List.range (haystack.length + 1 - needle.length)).any fun i =>
    (haystack.drop i).take needle.length == needle

def lastIndexOf (haystack needle : Bytes) : Option Nat :=
  if needle = [] ∨ haystack.length < needle.length then none
  else
    (List.range (haystack.length - needle.length + 1)).reverse.find? fun i =>
      (haystack.drop i).take needle.length == needle

/-! ## Frames -/

def paddingLenFrom (contentLen : Nat) (longPadding : Bool) (jitter : Nat) : Nat :=
  let padding :=
    if contentLen < paddingSeedContent ∧ longPadding then jitter + paddingSeedContent - contentLen
    else jitter
  min padding (frameContentLimit - contentLen)

/-- The `draw` of the random source is brought into the range that is asked for. -/
def paddingLen (contentLen : Nat) (longPadding : Bool) (draw : Nat) : Nat :=
  if contentLen < paddingSeedContent ∧ longPadding then
    paddingLenFrom contentLen longPadding (draw % paddingSeedJitter)
  else paddingLenFrom contentLen longPadding (draw % paddingSeedShort)

def frame (command : FrameCommand) (content : Bytes) (paddingLen : Nat)
    (firstUuid : Option (ByteVec 16)) : Bytes :=
  (firstUuid.map Subtype.val).getD [] ++ [command.byte] ++ be16 (UInt16.ofNat content.length) ++
    be16 (UInt16.ofNat paddingLen) ++ content ++ List.replicate paddingLen 0

/-- Where `reshape` cuts what is left of a buffer. -/
def cutOf (rest : Bytes) : Nat :=
  match lastIndexOf rest tlsApplicationData with
  | some i => if 21 ≤ i ∧ i ≤ frameContentLimit then i else xrayChunkSize / 2
  | none => xrayChunkSize / 2

def reshapeFor : Nat → Bytes → List Bytes
  | 0, rest => [rest]
  | n + 1, rest =>
    if rest.length < frameContentLimit then [rest]
    else rest.take (cutOf rest) :: reshapeFor n (rest.drop (cutOf rest))

/-- The pieces of a buffer, of which only the last one may be short of a cut. -/
def reshape (buf : Bytes) : List Bytes := reshapeFor buf.length buf

theorem paddingLen_le (contentLen : Nat) (longPadding : Bool) (draw : Nat) :
    paddingLen contentLen longPadding draw ≤ frameContentLimit - contentLen := by
  unfold paddingLen paddingLenFrom
  split_ifs <;> exact Nat.min_le_right _ _

theorem cutOf_pos (rest : Bytes) : 0 < cutOf rest := by
  unfold cutOf xrayChunkSize
  cases lastIndexOf rest tlsApplicationData with
  | none => decide
  | some i =>
    dsimp only
    split_ifs with h
    · omega
    · decide

theorem cutOf_le (rest : Bytes) : cutOf rest ≤ frameContentLimit := by
  unfold cutOf frameContentLimit xrayChunkSize paddingHeaderLen
  cases lastIndexOf rest tlsApplicationData with
  | none => decide
  | some i =>
    dsimp only
    split_ifs with h
    · exact h.2
    · decide

theorem flatten_reshapeFor (n : Nat) (rest : Bytes) : (reshapeFor n rest).flatten = rest := by
  induction n generalizing rest with
  | zero => exact List.append_nil rest
  | succ n ih =>
    unfold reshapeFor
    split_ifs
    · exact List.append_nil rest
    · rw [List.flatten_cons, ih, List.take_append_drop]

/-- The pieces are the buffer. -/
theorem flatten_reshape (buf : Bytes) : (reshape buf).flatten = buf :=
  flatten_reshapeFor buf.length buf

theorem length_piece_le {n : Nat} {rest piece : Bytes} (hn : rest.length ≤ n)
    (h : piece ∈ reshapeFor n rest) : piece.length ≤ frameContentLimit := by
  induction n generalizing rest with
  | zero =>
    rw [List.mem_singleton.mp h]
    exact Nat.le_trans hn (Nat.zero_le _)
  | succ n ih =>
    unfold reshapeFor at h
    split_ifs at h with hshort
    · rw [List.mem_singleton.mp h]
      exact Nat.le_of_lt hshort
    · rcases List.mem_cons.mp h with rfl | h
      · exact Nat.le_trans (List.length_take_le _ _) (cutOf_le rest)
      · refine ih ?_ h
        have hcut := cutOf_pos rest
        rw [List.length_drop]
        omega

/-- Every piece fits into a frame. -/
theorem length_reshape_le {buf piece : Bytes} (h : piece ∈ reshape buf) :
    piece.length ≤ frameContentLimit :=
  length_piece_le (Nat.le_refl _) h

/-! ## The cuts

A buffer is meant to be cut at the last record header in `[21, 8171]`, or at 4096 when there is
none in this range. The search goes through all that is left of the buffer, so a header beyond the
range hides those in it (`isCut_cutOf_iff`). -/

/-- A record header starts here. -/
def HeaderAt (rest : Bytes) (i : Nat) : Prop := (rest.drop i).take 3 = tlsApplicationData

/-- The headers that a buffer may be cut at. -/
def headersInRange (rest : Bytes) : Set Nat :=
  {i | 21 ≤ i ∧ i ≤ frameContentLimit ∧ HeaderAt rest i}

/-- The cut that the comment on `reshape` describes. -/
def IsCut (rest : Bytes) (cut : Nat) : Prop :=
  IsGreatest (headersInRange rest) cut ∨
    headersInRange rest = ∅ ∧ cut = xrayChunkSize / 2

/-- The pieces of a buffer that is cut by a rule. -/
inductive Pieces (rule : Bytes → Nat → Prop) : Bytes → List Bytes → Prop
  | last {rest : Bytes} (hshort : rest.length < frameContentLimit) : Pieces rule rest [rest]
  | cut {rest : Bytes} {index : Nat} {pieces : List Bytes} (hlong : frameContentLimit ≤ rest.length)
      (hrule : rule rest index) (hrest : Pieces rule (rest.drop index) pieces) :
      Pieces rule rest (rest.take index :: pieces)

/-- What is left of a buffer after some cuts by a rule. -/
inductive Left (rule : Bytes → Nat → Prop) : Bytes → Bytes → Prop
  | none {buf : Bytes} : Left rule buf buf
  | cut {buf rest : Bytes} {index : Nat} (hlong : frameContentLimit ≤ buf.length)
      (hrule : rule buf index) (hrest : Left rule (buf.drop index) rest) : Left rule buf rest

/-- A header beyond the range keeps the buffer from being cut at one in it. -/
def Hides (rest : Bytes) : Prop :=
  (∃ i, frameContentLimit < i ∧ HeaderAt rest i) ∧ (headersInRange rest).Nonempty ∧
    ¬ IsGreatest (headersInRange rest) (xrayChunkSize / 2)

variable {rest : Bytes}

theorem HeaderAt.lt_length {i : Nat} (h : HeaderAt rest i) : i + 3 ≤ rest.length := by
  have hlen := congrArg List.length h
  have hthree : tlsApplicationData.length = 3 := rfl
  rw [List.length_take, List.length_drop, hthree] at hlen
  omega

theorem find?_reverse_range {p : Nat → Bool} {n i : Nat} :
    (List.range n).reverse.find? p = some i ↔ IsGreatest {j | j < n ∧ p j = true} i := by
  induction n with
  | zero =>
    refine iff_of_false nofun fun h => ?_
    exact absurd h.1.1 (Nat.not_lt_zero i)
  | succ n ih =>
    rw [List.range_succ, List.reverse_append, List.reverse_singleton, List.singleton_append,
      List.find?_cons]
    cases hp : p n with
    | true =>
      have hn : IsGreatest {j | j < n + 1 ∧ p j = true} n :=
        ⟨⟨Nat.lt_succ_self n, hp⟩, fun j hj => Nat.le_of_lt_succ hj.1⟩
      exact ⟨fun h => Option.some.inj h ▸ hn, fun h => congrArg some (hn.unique h)⟩
    | false =>
      have hset : {j | j < n + 1 ∧ p j = true} = {j | j < n ∧ p j = true} := by
        ext j
        refine and_congr_left fun hj => ?_
        have hne : j ≠ n := by
          rintro rfl
          rw [hp] at hj
          cases hj
        omega
      rw [hset]
      exact ih

theorem lastIndexOf_eq_some {i : Nat} :
    lastIndexOf rest tlsApplicationData = some i ↔ IsGreatest {j | HeaderAt rest j} i := by
  have hthree : tlsApplicationData.length = 3 := rfl
  unfold lastIndexOf
  split
  · rename_i hshort
    have hlt : rest.length < 3 := (or_iff_right (by decide)).mp hshort
    refine iff_of_false nofun fun h => ?_
    have hlen := HeaderAt.lt_length h.1
    omega
  · rename_i hlong
    rw [not_or, hthree] at hlong
    rw [find?_reverse_range, hthree]
    have hset : {j | j < rest.length - 3 + 1 ∧
        ((rest.drop j).take 3 == tlsApplicationData) = true} = {j | HeaderAt rest j} := by
      ext j
      rw [Set.mem_ofPred_eq, Set.mem_ofPred_eq, beq_iff_eq]
      refine ⟨And.right, fun h => ⟨?_, h⟩⟩
      have hlen := HeaderAt.lt_length h
      omega
    rw [hset]

theorem headerAt_unbounded (h : lastIndexOf rest tlsApplicationData = none) (i : Nat) :
    ¬ HeaderAt rest i := by
  intro hi
  have hbdd : BddAbove {j | HeaderAt rest j} :=
    ⟨rest.length, fun j hj => by
      have hlen := HeaderAt.lt_length hj
      omega⟩
  have hgreatest : IsGreatest {j | HeaderAt rest j} (sSup {j | HeaderAt rest j}) :=
    ⟨Nat.sSup_mem ⟨i, hi⟩ hbdd, fun j hj => le_csSup hbdd hj⟩
  rw [lastIndexOf_eq_some.mpr hgreatest] at h
  cases h

/-- The cut is the one described, unless a header beyond the range hides it. -/
theorem isCut_cutOf_iff (rest : Bytes) : IsCut rest (cutOf rest) ↔ ¬ Hides rest := by
  unfold cutOf
  cases hlast : lastIndexOf rest tlsApplicationData with
  | none =>
    have hno := headerAt_unbounded hlast
    have hempty : headersInRange rest = ∅ :=
      Set.eq_empty_iff_forall_notMem.mpr fun i hi => hno i hi.2.2
    exact iff_of_true (.inr ⟨hempty, rfl⟩) fun h => h.1.elim fun i hi => hno i hi.2
  | some i =>
    have hgreatest := lastIndexOf_eq_some.mp hlast
    dsimp only
    split
    · rename_i hrange
      refine iff_of_true (.inl ⟨⟨hrange.1, hrange.2, hgreatest.1⟩, fun j hj => ?_⟩) ?_
      · exact hgreatest.2 hj.2.2
      · rintro ⟨⟨j, hj, hheader⟩, -⟩
        have hle := hgreatest.2 hheader
        omega
    · rename_i hrange
      by_cases hlow : i < 21
      · -- the last header is before the range
        have hempty : headersInRange rest = ∅ := by
          refine Set.eq_empty_iff_forall_notMem.mpr fun j hj => ?_
          have hle := hgreatest.2 hj.2.2
          have hge := hj.1
          omega
        refine iff_of_true (.inr ⟨hempty, rfl⟩) fun h => ?_
        exact Set.not_nonempty_iff_eq_empty.mpr hempty h.2.1
      · have hbeyond : ∃ j, frameContentLimit < j ∧ HeaderAt rest j :=
          ⟨i, by omega, hgreatest.1⟩
        unfold IsCut Hides
        rw [and_iff_right hbeyond, and_iff_left rfl, Set.nonempty_iff_ne_empty]
        tauto

theorem IsCut.unique {a b : Nat} (ha : IsCut rest a) (hb : IsCut rest b) : a = b := by
  rcases ha with ha | ⟨hnone, rfl⟩ <;> rcases hb with hb | ⟨hnone', rfl⟩
  · exact ha.unique hb
  · exact absurd ha.1 (by rw [hnone']; exact Set.notMem_empty a)
  · exact absurd hb.1 (by rw [hnone]; exact Set.notMem_empty b)
  · rfl

theorem IsCut.lt_length {a : Nat} (hlong : frameContentLimit ≤ rest.length) (h : IsCut rest a) :
    a < rest.length := by
  have hlimit : frameContentLimit = 8171 := rfl
  have hhalf : xrayChunkSize / 2 = 4096 := rfl
  rcases h with h | ⟨-, rfl⟩
  · have hlen := HeaderAt.lt_length h.1.2.2
    omega
  · omega

theorem cutOf_lt (hlong : frameContentLimit ≤ rest.length) : cutOf rest < rest.length := by
  have hlimit : frameContentLimit = 8171 := rfl
  have hhalf : xrayChunkSize / 2 = 4096 := rfl
  unfold cutOf
  cases hlast : lastIndexOf rest tlsApplicationData with
  | none =>
    dsimp only
    omega
  | some i =>
    have hlen := HeaderAt.lt_length (lastIndexOf_eq_some.mp hlast).1
    dsimp only
    split <;> omega

/-- The loop ends, having cut where the search says. -/
theorem pieces_reshapeFor {n : Nat} (hn : rest.length ≤ n) :
    Pieces (fun rest cut => cut = cutOf rest) rest (reshapeFor n rest) := by
  have hlimit : frameContentLimit = 8171 := rfl
  induction n generalizing rest with
  | zero => exact .last (by omega)
  | succ n ih =>
    unfold reshapeFor
    split
    · rename_i hshort
      exact .last hshort
    · rename_i hlong
      refine .cut (Nat.le_of_not_lt hlong) rfl (ih ?_)
      have hpos := cutOf_pos rest
      rw [List.length_drop]
      omega

theorem pieces_reshape (buf : Bytes) :
    Pieces (fun rest cut => cut = cutOf rest) buf (reshape buf) :=
  pieces_reshapeFor (Nat.le_refl _)

/-- Pieces that were cut by the search are as described exactly if no header is hidden. -/
theorem pieces_isCut_iff {buf : Bytes} {pieces : List Bytes}
    (h : Pieces (fun rest cut => cut = cutOf rest) buf pieces) :
    Pieces IsCut buf pieces ↔
      ∀ rest, Left IsCut buf rest → frameContentLimit ≤ rest.length → ¬ Hides rest := by
  induction h with
  | last hshort =>
    refine iff_of_true (.last hshort) fun rest hleft hlong => ?_
    cases hleft with
    | none => omega
    | cut hlong' => omega
  | @cut buf index pieces hlong hrule hrest ih =>
    subst hrule
    have hcut := isCut_cutOf_iff buf
    constructor
    · intro hpieces
      generalize hcons : buf.take (cutOf buf) :: pieces = all at hpieces
      cases hpieces with
      | last hshort => omega
      | @cut _ at' pieces' _ hrule' hrest' =>
        obtain ⟨htake, rfl⟩ := List.cons.inj hcons
        have hlens := congrArg List.length htake
        have hlt := cutOf_lt hlong
        have hlt' := hrule'.lt_length hlong
        rw [List.length_take, List.length_take, Nat.min_eq_left hlt.le,
          Nat.min_eq_left hlt'.le] at hlens
        subst hlens
        intro rest hleft hlong'
        cases hleft with
        | none => exact hcut.mp hrule'
        | cut _ hrule'' hleft =>
          rw [hrule''.unique hrule'] at hleft
          exact ih.mp hrest' rest hleft hlong'
    · intro hleft
      have hrule : IsCut buf (cutOf buf) := hcut.mpr (hleft buf .none hlong)
      exact .cut hlong hrule
        (ih.mpr fun rest hrest hlong' => hleft rest (.cut hlong hrule hrest) hlong')

/-! ## The frame of a piece -/

/-- A frame that is within the buffer, and the lengths in the five bytes of its header. -/
def FrameHolds (command : FrameCommand) (content : Bytes) (pad : Nat)
    (firstUuid : Option (ByteVec 16)) : Prop :=
  let out := frame command content pad firstUuid
  let header := slice out (firstUuid.map Subtype.val |>.getD []).length 5
  out.length ≤ xrayChunkSize ∧ (ofBE16 (slice header 1 2)).toNat = content.length ∧
    (ofBE16 (slice header 3 2)).toNat = pad

theorem frameHolds {content : Bytes} (hcontent : content.length ≤ frameContentLimit) {pad : Nat}
    (hpad : pad ≤ frameContentLimit - content.length) (command : FrameCommand)
    (firstUuid : Option (ByteVec 16)) : FrameHolds command content pad firstUuid := by
  have hlimit : frameContentLimit = 8171 := rfl
  have hsize : xrayChunkSize = 8192 := rfl
  have huuid : (firstUuid.map Subtype.val |>.getD []).length ≤ 16 := by
    cases firstUuid with
    | none => exact Nat.zero_le 16
    | some uuid => exact uuid.property.le
  unfold FrameHolds frame
  generalize (firstUuid.map Subtype.val |>.getD []) = uuid at huuid ⊢
  have hheader : ([command.byte] ++ be16 (UInt16.ofNat content.length) ++
      be16 (UInt16.ofNat pad)).length = 5 := by
    simp only [List.length_append, length_be16, List.length_singleton]
  have hsmall : ∀ n ≤ frameContentLimit, (UInt16.ofNat n).toNat = n := fun n hn =>
    UInt16.toNat_ofNat_of_lt' (by unfold UInt16.size; omega)
  dsimp only
  refine ⟨?_, ?_⟩
  · simp only [List.length_append, length_be16, List.length_singleton, List.length_replicate]
    omega
  · have hskip : slice (uuid ++ ([command.byte] ++ be16 (UInt16.ofNat content.length) ++
        be16 (UInt16.ofNat pad) ++ (content ++ List.replicate pad 0))) (0 + uuid.length) 5 =
          [command.byte] ++ be16 (UInt16.ofNat content.length) ++ be16 (UInt16.ofNat pad) := by
      rw [slice_skip rfl, slice_here hheader]
    rw [Nat.zero_add] at hskip
    have hout : uuid ++ [command.byte] ++ be16 (UInt16.ofNat content.length) ++
        be16 (UInt16.ofNat pad) ++ content ++ List.replicate pad 0 =
          uuid ++ ([command.byte] ++ be16 (UInt16.ofNat content.length) ++
            be16 (UInt16.ofNat pad) ++ (content ++ List.replicate pad 0)) := by
      simp only [List.append_assoc]
    rw [hout, hskip, List.append_assoc]
    constructor
    · rw [slice_skip (a := 0) (k := 1) rfl, slice_here (length_be16 _), ofBE16_be16,
        hsmall _ hcontent]
    · rw [slice_skip (a := 2) (k := 1) rfl, slice_skip (a := 0) (k := 2) (length_be16 _),
        slice_all (length_be16 _), ofBE16_be16, hsmall _ (by omega)]

/-- What is to hold of the pieces of a buffer and of their frames. -/
structure Reshaped (buf : Bytes) (pieces : List Bytes) : Prop where
  ends : Pieces (fun rest cut => cut = cutOf rest) buf pieces
  whole : pieces.flatten = buf
  short : ∀ piece ∈ pieces, piece.length ≤ 8171
  described : Pieces IsCut buf pieces
  framed : ∀ piece ∈ pieces, ∀ command longPadding jitter firstUuid,
    FrameHolds command piece (paddingLenFrom piece.length longPadding jitter) firstUuid

theorem reshaped_iff (buf : Bytes) :
    Reshaped buf (reshape buf) ↔
      ∀ rest, Left IsCut buf rest → frameContentLimit ≤ rest.length → ¬ Hides rest := by
  rw [← pieces_isCut_iff (pieces_reshape buf)]
  refine ⟨Reshaped.described, fun h => ⟨pieces_reshape buf, flatten_reshape buf, ?_, h, ?_⟩⟩
  · exact fun piece hpiece => length_reshape_le hpiece
  · intro piece hpiece command longPadding jitter firstUuid
    exact frameHolds (length_reshape_le hpiece) (Nat.min_le_right _ _) command firstUuid

/-- Record headers at 5000 and at 9000: the second hides the first. -/
def hiddenHeader : Bytes :=
  (List.replicate 5000 0 ++ tlsApplicationData) ++ (List.replicate 3997 0 ++ tlsApplicationData)

theorem hiddenHeader_cut : ¬ Reshaped hiddenHeader (reshape hiddenHeader) := by
  have hlen : hiddenHeader.length = 9003 := by
    unfold hiddenHeader
    simp only [List.length_append, List.length_replicate]
    rfl
  have hfirst : HeaderAt hiddenHeader 5000 := by
    unfold HeaderAt hiddenHeader
    rw [List.append_assoc, List.drop_left' List.length_replicate]
    rfl
  have hsecond : HeaderAt hiddenHeader 9000 := by
    unfold HeaderAt hiddenHeader
    rw [← List.append_assoc, List.drop_left' (by
      simp only [List.length_append, List.length_replicate]
      rfl)]
    rfl
  have hlong : frameContentLimit ≤ hiddenHeader.length := by
    rw [hlen]
    decide
  have hrange : 5000 ∈ headersInRange hiddenHeader := ⟨by decide, by decide, hfirst⟩
  intro h
  refine (pieces_isCut_iff (pieces_reshape hiddenHeader)).mp h.described _ .none hlong ?_
  refine ⟨⟨9000, by decide, hsecond⟩, ⟨5000, hrange⟩, fun hgreatest => ?_⟩
  exact absurd (hgreatest.2 hrange) (by decide)

/-! ## The detector -/

structure TlsFilter where
  packetsToFilter : Nat
  isTls : Bool
  isTls12OrAbove : Bool
  cipher : UInt16
  remainingServerHello : Int
  enableXtls : Bool
  deriving DecidableEq

def isTls13Cipher (cipher : UInt16) : Bool := 0x1301 ≤ cipher && cipher ≤ 0x1305

/-- A number as an `i32`. -/
def wrapI32 (x : Int) : Int := x.bmod (2 ^ 32)

namespace TlsFilter

def new : TlsFilter := ⟨8, false, false, 0, -1, false⟩

def cipherAt (f : TlsFilter) (buf : Bytes) : UInt16 :=
  let off := 43 + (buf.getD 43 0).toNat + 1
  if off + 2 ≤ buf.length then ofBE16 ((buf.drop off).take 2) else f.cipher

/-- A server hello or a client hello at the front of the buffer. -/
def hello (f : TlsFilter) (buf : Bytes) : TlsFilter :=
  if buf.length < 6 then f
  else if buf.take 3 = tlsServerHandshake ∧ buf.getD 5 0 = handshakeServerHello then
    let remaining : Int := (ofBE16 ((buf.drop 3).take 2)).toNat + 5
    { f with
      remainingServerHello := remaining
      isTls12OrAbove := true
      isTls := true
      cipher := if 79 ≤ buf.length ∧ 79 ≤ remaining then f.cipherAt buf else f.cipher }
  else if buf.take 2 = tlsClientHandshake ∧ buf.getD 5 0 = handshakeClientHello then
    { f with isTls := true }
  else f

/-- The rest of a server hello. -/
def serverHello (f : TlsFilter) (buf : Bytes) : TlsFilter :=
  if f.remainingServerHello ≤ 0 then f
  else
    let front := buf.take f.remainingServerHello.toNat
    let remaining := wrapI32 (f.remainingServerHello - wrapI32 buf.length)
    if contains front tls13SupportedVersions then
      { f with
        remainingServerHello := remaining
        enableXtls := f.enableXtls || isTls13Cipher f.cipher && f.cipher != tls13CipherCcm8
        packetsToFilter := 0 }
    else if remaining ≤ 0 then { f with remainingServerHello := remaining, packetsToFilter := 0 }
    else { f with remainingServerHello := remaining }

def observe (f : TlsFilter) (buf : Bytes) : TlsFilter :=
  if f.packetsToFilter = 0 then f
  else ({ f with packetsToFilter := f.packetsToFilter - 1 }.hello buf).serverHello buf

end TlsFilter

def transitionCommand (filter : TlsFilter) (content : Bytes) (requireCompleteRecords : Bool) :
    Option FrameCommand :=
  let appDataEnd :=
    filter.isTls && isApplicationData content &&
      (!requireCompleteRecords || isCompleteRecord content)
  let earlyEnd := !filter.isTls12OrAbove && decide (filter.packetsToFilter ≤ 1)
  if appDataEnd || earlyEnd then some .end else none

end RustCrash.Vision
