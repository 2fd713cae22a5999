import RustCrash.Lib.ByteReader
import RustCrash.Vmess.Body

/-
  The readers of a VMess connection: `VmessStream` of the client, which reads the response header
  before the chunks, and `VmessServerStream` of the server.

  `Bodies` and `Frames` are chunks that the other end sealed, for the client and for the server.
  Both may close with a chunk of length zero.
-/

namespace RustCrash.Vmess

open Lib Proto

def invalidData (e : Error) : IoError := ⟨.invalidData, e.display⟩

def truncatedStream : IoError := ⟨.unexpectedEof, "vmess: truncated stream"⟩

/-! ## The client -/

inductive RespState where
  | headerLen
  | headerPayload (len : UInt16)
  | bodyLen
  | bodyPayload (len : UInt16)

/-- The reading half of `VmessStream`. -/
structure VmessDecoder where
  dec : BodyCodec
  respKey : ByteVec 16
  respIv : ByteVec 16
  expectedResponseHeader : UInt8
  state : RespState

variable (H : Hashes)

/-- The AEAD and the nonce of the sealed length of the response header. -/
def respLenAead (respKey : ByteVec 16) : Aead := aesAead (kdf16 H respKey.val [kdfRespLenKey])

def respLenNonce (respIv : ByteVec 16) : ByteVec 12 := kdf12 H respIv.val [kdfRespLenIv]

/-- Those of the header itself. -/
def respPayloadAead (respKey : ByteVec 16) : Aead :=
  aesAead (kdf16 H respKey.val [kdfRespPayloadKey])

def respPayloadNonce (respIv : ByteVec 16) : ByteVec 12 := kdf12 H respIv.val [kdfRespPayloadIv]

namespace VmessDecoder

def need (d : VmessDecoder) : Nat :=
  match d.state with
  | .headerLen => 18
  | .headerPayload len => len.toNat + tagSize
  | .bodyLen => 2
  | .bodyPayload len => len.toNat

/-- What is wrong with a response header, if anything. -/
def checkHeader (expected : UInt8) (pt : Bytes) : Result Unit :=
  if pt.head? ≠ some expected then .error (.protocol "vmess response header mismatch")
  else if 4 ≤ pt.length ∧ pt.getD 2 0 ≠ 0 ∧ pt.length < 4 + (pt.getD 3 0).toNat then
    .error (.protocol "vmess response command truncated")
  else .ok ()

/-- `advance_state`. A block that does not open stays in the buffer. -/
def step (d : VmessDecoder) (piece : Bytes) : Taken VmessDecoder UInt8 Error :=
  match d.state with
  | .headerLen =>
    match (respLenAead H d.respKey).openCt (respLenNonce H d.respIv) [] piece with
    | .error e => .failed d true (.protocol s!"vmess resp len: {e.display}")
    | .ok pt => .ok { d with state := .headerPayload (ofBE16 (pt.take 2)) } []
  | .headerPayload _ =>
    match (respPayloadAead H d.respKey).openCt (respPayloadNonce H d.respIv) [] piece with
    | .error e => .failed d true (.protocol s!"vmess resp header: {e.display}")
    | .ok pt =>
      match checkHeader d.expectedResponseHeader pt with
      | .error e => .failed d false e
      | .ok () => .ok { d with state := .bodyLen } []
  | .bodyLen => .ok { d with state := .bodyPayload (ofBE16 (piece.take 2)) } []
  | .bodyPayload len =>
    -- A chunk of length zero: the end of the stream.
    if len = 0 then .ok { d with state := .bodyLen } []
    else
      match d.dec.kind with
      | none => .ok { d with state := .bodyLen } piece
      | some aead =>
        if len.toNat < tagSize then
          .failed d true (.protocol "vmess body chunk shorter than a tag")
        else
          match aead.openCt d.dec.nonce [] piece with
          | .error e =>
            .failed { d with dec := d.dec.past } true (.protocol s!"vmess body: {e.display}")
          | .ok pt => .ok { d with dec := d.dec.past, state := .bodyLen } pt

variable {H}

/-- A step without bytes is the one that takes the end of the stream. -/
theorem step_moves {d t : VmessDecoder} {piece : Bytes} {out : List UInt8}
    (hneed : some d.need = some 0) (hstep : step H d piece = .ok t out) :
    some t.need ≠ some 0 := by
  rw [Option.some.injEq] at hneed
  unfold need tagSize at hneed
  unfold step at hstep
  cases hd : d.state with
  | headerLen => rw [hd] at hneed; cases hneed
  | headerPayload len => rw [hd] at hneed; dsimp only at hneed; omega
  | bodyLen => rw [hd] at hneed; cases hneed
  | bodyPayload len =>
    rw [hd] at hneed hstep
    dsimp only at hneed hstep
    have hzero : len = 0 := UInt16.toNat_inj.mp hneed
    rw [if_pos hzero] at hstep
    cases hstep
    exact nofun

variable (H) in
def machine : Staged VmessDecoder UInt8 Error where
  need d := some d.need
  step := step H
  moves := step_moves

end VmessDecoder

/-! ## The server -/

inductive ReadState where
  | len
  /-- `n` bytes, the last `pad` of which are padding. -/
  | payload (n pad : Nat)
  /-- After the chunk of length zero. -/
  | finished

/-- The reading half of `VmessServerStream`. -/
structure VmessServerDecoder where
  dec : VmessBody
  state : ReadState

namespace VmessServerDecoder

def need (d : VmessServerDecoder) : Option Nat :=
  match d.state with
  | .len => some 2
  | .payload n _ => some n
  | .finished => none

def step (d : VmessServerDecoder) (piece : Bytes) : Taken VmessServerDecoder UInt8 Error :=
  match d.state with
  | .len =>
    let (framing, mask, pad) := d.dec.framing.next
    let dec := { d.dec with framing }
    let total := (ofBE16 (piece.take 2) ^^^ mask).toNat
    if total < pad then
      .failed ⟨dec, .len⟩ false (.protocol "vmess: chunk length below its padding")
    else if total - pad = 0 then .ok ⟨dec, .finished⟩ []
    else .ok ⟨dec, .payload total pad⟩ []
  | .payload n pad =>
    if n - pad < tagSize then .failed d true (.protocol "vmess body chunk shorter than a tag")
    else
      match d.dec.aead.openCt d.dec.nonce [] (piece.take (n - pad)) with
      | .error e =>
        .failed { d with dec := d.dec.past } true (.protocol s!"vmess body: {e.display}")
      | .ok pt => .ok ⟨d.dec.past, .len⟩ pt
  | .finished => .ok d []

theorem step_moves {d t : VmessServerDecoder} {piece : Bytes} {out : List UInt8}
    (hneed : d.need = some 0) (hstep : d.step piece = .ok t out) : t.need ≠ some 0 := by
  unfold need at hneed
  unfold step at hstep
  cases hd : d.state with
  | len => rw [hd] at hneed; cases hneed
  | payload n pad =>
    rw [hd] at hneed hstep
    dsimp only at hneed hstep
    rw [Option.some.injEq] at hneed
    rw [hneed, Nat.zero_sub, if_pos (by decide)] at hstep
    cases hstep
  | finished => rw [hd] at hneed; cases hneed

def machine : Staged VmessServerDecoder UInt8 Error where
  need := need
  step := step
  moves := step_moves

end VmessServerDecoder

/-! ## Chunks for the client -/

/-- Chunks with these payloads, sealed from `c` on, and the end of the stream perhaps. -/
inductive Bodies : BodyCodec → List (Part × Bytes) → List Bytes → BodyCodec → Prop
  | nil (c : BodyCodec) : Bodies c [] [] c
  | fin (c : BodyCodec) : Bodies c [(.length, be16 0)] [] c
  | raw {c c' : BodyCodec} {plain : Bytes} {parts : List (Part × Bytes)} {plains : List Bytes}
      (hkind : c.kind = none) (hne : plain ≠ []) (hfits : plain.length ≤ 65535)
      (hrest : Bodies c parts plains c') :
      Bodies c ((.length, be16 (UInt16.ofNat plain.length)) :: (.payload, plain) :: parts)
        (plain :: plains) c'
  | sealed {c c' : BodyCodec} {aead : Aead} {plain ct : Bytes} {parts : List (Part × Bytes)}
      {plains : List Bytes} (hkind : c.kind = some aead) (hfits : plain.length + 16 ≤ 65535)
      (hct : aead.sealed c.nonce [] plain = .ok ct) (hrest : Bodies c.past parts plains c') :
      Bodies c ((.length, be16 (UInt16.ofNat (plain.length + 16))) :: (.payload, ct) :: parts)
        (plain :: plains) c'

theorem be16_ne_nil (x : UInt16) : be16 x ≠ [] := List.cons_ne_nil _ _

theorem take_be16 (x : UInt16) : ofBE16 ((be16 x).take 2) = x := by
  rw [List.take_of_length_le (Nat.le_of_eq (length_be16 x)), ofBE16_be16]

theorem toNat_ofNat_of_le {n : Nat} (h : n ≤ 65535) : (UInt16.ofNat n).toNat = n :=
  UInt16.toNat_ofNat_of_lt' (Nat.lt_succ_of_le h)

namespace VmessDecoder

variable {H}

/-- In the body, with this codec. -/
def inBody (d : VmessDecoder) (c : BodyCodec) : VmessDecoder :=
  { d with dec := c, state := .bodyLen }

def atPayload (d : VmessDecoder) (c : BodyCodec) (n : UInt16) : VmessDecoder :=
  { d with dec := c, state := .bodyPayload n }

theorem rests_inBody (d : VmessDecoder) (c : BodyCodec) : (machine H).Rests (d.inBody c) := nofun

theorem rests_atPayload (d : VmessDecoder) (c : BodyCodec) {n : UInt16} (hn : n.toNat ≠ 0) :
    (machine H).Rests (d.atPayload c n) := by
  intro hzero
  unfold machine need atPayload at hzero
  rw [Option.some.injEq] at hzero
  exact hn hzero

theorem step_len (d : VmessDecoder) (c : BodyCodec) (n : UInt16) :
    (machine H).need (d.inBody c) = some (be16 n).length ∧
      (machine H).step (d.inBody c) (be16 n) = .ok (d.atPayload c n) [] := by
  refine ⟨rfl, ?_⟩
  unfold machine step inBody
  dsimp only
  rw [take_be16]
  rfl

theorem reads_len (d : VmessDecoder) (c : BodyCodec) (n : UInt16) :
    (machine H).need (d.inBody c) = some (be16 n).length ∧
      (machine H).Reads (d.inBody c) (be16 n) [] (d.atPayload c n) := by
  obtain ⟨hneed, hstep⟩ := step_len (H := H) d c n
  exact ⟨hneed, .one hneed hstep⟩

theorem reads_fin (d : VmessDecoder) (c : BodyCodec) :
    (machine H).Reads (d.inBody c) (be16 0) [] (d.inBody c) := by
  have hstep : (machine H).step (d.atPayload c 0) [] = .ok (d.inBody c) [] := rfl
  have h := (d.reads_len (H := H) c 0).2.trans (Staged.Reads.one rfl hstep)
  rwa [List.append_nil] at h

theorem step_raw (d : VmessDecoder) {c : BodyCodec} {plain : Bytes} (hkind : c.kind = none)
    (hne : plain ≠ []) (hfits : plain.length ≤ 65535) :
    (machine H).need (d.atPayload c (UInt16.ofNat plain.length)) = some plain.length ∧
      (machine H).step (d.atPayload c (UInt16.ofNat plain.length)) plain =
        .ok (d.inBody c) plain := by
  have hn := toNat_ofNat_of_le hfits
  have hneed : (machine H).need (d.atPayload c (UInt16.ofNat plain.length)) =
      some plain.length := by
    unfold machine need atPayload
    dsimp only
    rw [hn]
  have hzero : UInt16.ofNat plain.length ≠ 0 := by
    intro hzero
    rw [hzero] at hn
    exact hne (List.eq_nil_of_length_eq_zero hn.symm)
  refine ⟨hneed, ?_⟩
  unfold machine step atPayload
  dsimp only
  rw [if_neg hzero, hkind]
  rfl

theorem reads_raw (d : VmessDecoder) {c : BodyCodec} {plain : Bytes} (hkind : c.kind = none)
    (hne : plain ≠ []) (hfits : plain.length ≤ 65535) :
    (machine H).need (d.atPayload c (UInt16.ofNat plain.length)) = some plain.length ∧
      (machine H).Reads (d.atPayload c (UInt16.ofNat plain.length)) plain plain (d.inBody c) := by
  obtain ⟨hneed, hstep⟩ := step_raw (H := H) d hkind hne hfits
  exact ⟨hneed, .one hneed hstep⟩

theorem step_sealed (d : VmessDecoder) {c : BodyCodec} {aead : Aead} {plain ct : Bytes}
    (hkind : c.kind = some aead) (hfits : plain.length + 16 ≤ 65535)
    (hct : aead.sealed c.nonce [] plain = .ok ct) :
    (machine H).need (d.atPayload c (UInt16.ofNat (plain.length + 16))) = some ct.length ∧
      (machine H).step (d.atPayload c (UInt16.ofNat (plain.length + 16))) ct =
        .ok (d.inBody c.past) plain := by
  have hn := toNat_ofNat_of_le hfits
  have hneed : (machine H).need (d.atPayload c (UInt16.ofNat (plain.length + 16))) =
      some ct.length := by
    unfold machine need atPayload
    dsimp only
    rw [hn, Aead.length_sealed hct]
    rfl
  have hzero : UInt16.ofNat (plain.length + 16) ≠ 0 := by
    intro hzero
    rw [hzero, UInt16.toNat_zero] at hn
    omega
  have hlong : ¬ (UInt16.ofNat (plain.length + 16)).toNat < tagSize := by
    rw [hn]
    unfold tagSize
    omega
  refine ⟨hneed, ?_⟩
  unfold machine step atPayload
  dsimp only
  rw [if_neg hzero, hkind]
  dsimp only
  rw [if_neg hlong, Aead.openCt_sealed hct]
  rfl

theorem reads_sealed (d : VmessDecoder) {c : BodyCodec} {aead : Aead} {plain ct : Bytes}
    (hkind : c.kind = some aead) (hfits : plain.length + 16 ≤ 65535)
    (hct : aead.sealed c.nonce [] plain = .ok ct) :
    (machine H).need (d.atPayload c (UInt16.ofNat (plain.length + 16))) = some ct.length ∧
      (machine H).Reads (d.atPayload c (UInt16.ofNat (plain.length + 16))) ct plain
        (d.inBody c.past) := by
  obtain ⟨hneed, hstep⟩ := step_sealed (H := H) d hkind hfits hct
  exact ⟨hneed, .one hneed hstep⟩

/-- Both blocks of a header, one after the other. -/
theorem steps_header {d : VmessDecoder} (hstate : d.state = .headerLen) {header lenCt ct : Bytes}
    (hfits : header.length ≤ 65535) (hcheck : checkHeader d.expectedResponseHeader header = .ok ())
    (hlen : (respLenAead H d.respKey).sealed (respLenNonce H d.respIv) []
      (be16 (UInt16.ofNat header.length)) = .ok lenCt)
    (hct : (respPayloadAead H d.respKey).sealed (respPayloadNonce H d.respIv) [] header = .ok ct) :
    ∃ d₁, (machine H).need d = some lenCt.length ∧ (machine H).step d lenCt = .ok d₁ [] ∧
      (machine H).need d₁ = some ct.length ∧
      (machine H).step d₁ ct = .ok (d.inBody d.dec) [] := by
  refine ⟨{ d with state := .headerPayload (UInt16.ofNat header.length) }, ?_, ?_, ?_, ?_⟩
  · unfold machine need
    dsimp only
    rw [hstate, Aead.length_sealed hlen, length_be16]
    rfl
  · unfold machine step
    dsimp only
    rw [hstate]
    dsimp only
    rw [Aead.openCt_sealed hlen]
    dsimp only
    rw [take_be16]
  · unfold machine need
    dsimp only
    rw [toNat_ofNat_of_le hfits, Aead.length_sealed hct]
  · unfold machine step
    dsimp only
    rw [Aead.openCt_sealed hct]
    dsimp only
    rw [hcheck]
    rfl

end VmessDecoder

variable {H}

theorem Bodies.reads (d : VmessDecoder) {c c' : BodyCodec} {parts : List (Part × Bytes)}
    {plains : List Bytes} (h : Bodies c parts plains c') :
    (VmessDecoder.machine H).Parts (d.inBody c) parts (d.inBody c') ∧
      (VmessDecoder.machine H).Reads (d.inBody c) (Staged.wireOfParts parts) plains.flatten
        (d.inBody c') := by
  induction h with
  | nil c => exact ⟨.nil _, .done _⟩
  | fin c =>
    refine ⟨.cons (be16_ne_nil 0) rfl (d.reads_fin c) (d.rests_inBody c) (.nil _), ?_⟩
    exact d.reads_fin c
  | @raw c c' plain parts plains hkind hne hfits _ ih =>
    obtain ⟨hneed₁, hread₁⟩ := d.reads_len (H := H) c (UInt16.ofNat plain.length)
    obtain ⟨hneed₂, hread₂⟩ := d.reads_raw (H := H) hkind hne hfits
    have hpos : (UInt16.ofNat plain.length).toNat ≠ 0 := by
      rw [toNat_ofNat_of_le hfits]
      exact Nat.ne_of_gt (List.length_pos_of_ne_nil hne)
    exact ⟨.cons (be16_ne_nil _) hneed₁ hread₁ (d.rests_atPayload c hpos)
        (.cons hne hneed₂ hread₂ (d.rests_inBody c) ih.1),
      hread₁.trans (hread₂.trans ih.2)⟩
  | @sealed c c' aead plain ct parts plains hkind hfits hct _ ih =>
    obtain ⟨hneed₁, hread₁⟩ := d.reads_len (H := H) c (UInt16.ofNat (plain.length + 16))
    obtain ⟨hneed₂, hread₂⟩ := d.reads_sealed (H := H) hkind hfits hct
    have hpos : (UInt16.ofNat (plain.length + 16)).toNat ≠ 0 := by
      rw [toNat_ofNat_of_le hfits]
      omega
    exact ⟨.cons (be16_ne_nil _) hneed₁ hread₁ (d.rests_atPayload c hpos)
        (.cons (Aead.sealed_ne_nil hct) hneed₂ hread₂ (d.rests_inBody c.past) ih.1),
      hread₁.trans (hread₂.trans ih.2)⟩

/-! ## The answer of a server -/

variable (H) in
/-- What a server answers, in parts; `header` is the plaintext of the response header. -/
inductive Answer (d : VmessDecoder) : List (Part × Bytes) → List Bytes → Prop
  /-- Nothing yet. -/
  | nothing : Answer d [] []
  | header {header lenCt ct : Bytes} {c' : BodyCodec} {parts : List (Part × Bytes)}
      {plains : List Bytes} (hfits : header.length ≤ 65535)
      (hcheck : VmessDecoder.checkHeader d.expectedResponseHeader header = .ok ())
      (hlen : (respLenAead H d.respKey).sealed (respLenNonce H d.respIv) []
        (be16 (UInt16.ofNat header.length)) = .ok lenCt)
      (hct : (respPayloadAead H d.respKey).sealed (respPayloadNonce H d.respIv) [] header = .ok ct)
      (hbodies : Bodies d.dec parts plains c') :
      Answer d ((.header, lenCt) :: (.header, ct) :: parts) plains

/-- The client takes an answer apart as it was put together, and opens it. -/
theorem Answer.reads {d : VmessDecoder} {parts : List (Part × Bytes)} {plains : List Bytes}
    (h : Answer H d parts plains) (hstate : d.state = .headerLen) :
    ∃ d', (VmessDecoder.machine H).Parts d parts d' ∧
      (VmessDecoder.machine H).Reads d (Staged.wireOfParts parts) plains.flatten d' := by
  cases h with
  | nothing => exact ⟨d, .nil d, .done d⟩
  | @header header lenCt ct c' parts plains hfits hcheck hlen hct hbodies =>
    obtain ⟨d₁, hneed₁, hstep₁, hneed₂, hstep₂⟩ :=
      VmessDecoder.steps_header hstate hfits hcheck hlen hct
    have hrests₁ : (VmessDecoder.machine H).Rests d₁ := by
      intro hzero
      rw [hneed₂, Option.some.injEq] at hzero
      exact Aead.sealed_ne_nil hct (List.eq_nil_of_length_eq_zero hzero)
    obtain ⟨hparts, hreads⟩ := hbodies.reads (H := H) d
    exact ⟨_, .cons (Aead.sealed_ne_nil hlen) hneed₁ (.one hneed₁ hstep₁) hrests₁
        (.cons (Aead.sealed_ne_nil hct) hneed₂ (.one hneed₂ hstep₂) (d.rests_inBody d.dec) hparts),
      (Staged.Reads.one hneed₁ hstep₁).trans ((Staged.Reads.one hneed₂ hstep₂).trans hreads)⟩

/-! ## Chunks for the server -/

/-- Chunks with these payloads, sealed from `b` on, each with its padding, and the end of the
    stream perhaps. -/
inductive Frames : VmessBody → List (Part × Bytes) → List Bytes → Prop
  | nil (b : VmessBody) : Frames b [] []
  | fin {b : VmessBody} {framing : ChunkFraming} {mask : UInt16} {pad : Nat}
      (hnext : b.framing.next = (framing, mask, pad)) :
      Frames b [(.length, be16 (UInt16.ofNat pad ^^^ mask))] []
  | sealed {b : VmessBody} {framing : ChunkFraming} {mask : UInt16} {pad : Nat}
      {plain ct padding : Bytes} {parts : List (Part × Bytes)} {plains : List Bytes}
      (hnext : b.framing.next = (framing, mask, pad))
      (hfits : plain.length + (tagSize + pad) ≤ 65535)
      (hct : b.aead.sealed b.nonce [] plain = .ok ct) (hpadding : padding.length = pad)
      (hrest : Frames { b.past with framing } parts plains) :
      Frames b ((.length, be16 (UInt16.ofNat (plain.length + (tagSize + pad)) ^^^ mask)) ::
        (.payload, ct ++ padding) :: parts) (plain :: plains)

theorem ChunkFraming.next_pad {f framing : ChunkFraming} {mask : UInt16} {pad : Nat}
    (h : f.next = (framing, mask, pad)) : pad < 64 := by
  unfold ChunkFraming.next at h
  cases f with
  | plain => cases h; decide
  | mask s => cases h; decide
  | pad s => cases h; exact Nat.mod_lt _ (by decide)
  | maskPad s => cases h; exact Nat.mod_lt _ (by decide)

namespace VmessServerDecoder

/-- The mask comes off. -/
theorem unmask {n : Nat} (h : n ≤ 65535) (mask : UInt16) :
    (ofBE16 ((be16 (UInt16.ofNat n ^^^ mask)).take 2) ^^^ mask).toNat = n := by
  rw [take_be16, UInt16.xor_assoc, UInt16.xor_self, UInt16.xor_zero, toNat_ofNat_of_le h]

theorem reads_fin {b : VmessBody} {framing : ChunkFraming} {mask : UInt16} {pad : Nat}
    (hnext : b.framing.next = (framing, mask, pad)) :
    machine.Reads ⟨b, .len⟩ (be16 (UInt16.ofNat pad ^^^ mask)) []
      ⟨{ b with framing }, .finished⟩ := by
  have hpad := ChunkFraming.next_pad hnext
  have hstep : machine.step ⟨b, .len⟩ (be16 (UInt16.ofNat pad ^^^ mask)) =
      .ok ⟨{ b with framing }, .finished⟩ [] := by
    unfold machine step
    dsimp only
    rw [hnext]
    dsimp only
    rw [unmask (by omega), if_neg (Nat.lt_irrefl _), if_pos (Nat.sub_self _)]
  exact .one rfl hstep

theorem reads_len {b : VmessBody} {framing : ChunkFraming} {mask : UInt16} {pad n : Nat}
    (hnext : b.framing.next = (framing, mask, pad)) (hn : n ≤ 65535) (hpad : pad < n) :
    machine.Reads ⟨b, .len⟩ (be16 (UInt16.ofNat n ^^^ mask)) []
      ⟨{ b with framing }, .payload n pad⟩ := by
  have hstep : machine.step ⟨b, .len⟩ (be16 (UInt16.ofNat n ^^^ mask)) =
      .ok ⟨{ b with framing }, .payload n pad⟩ [] := by
    unfold machine step
    dsimp only
    rw [hnext]
    dsimp only
    rw [unmask hn, if_neg (by omega), if_neg (by omega)]
  exact .one rfl hstep

theorem reads_payload {b : VmessBody} {plain ct : Bytes} (padding : Bytes)
    (hct : b.aead.sealed b.nonce [] plain = .ok ct) :
    machine.need ⟨b, .payload (plain.length + (tagSize + padding.length)) padding.length⟩ =
        some (ct ++ padding).length ∧
      machine.Reads ⟨b, .payload (plain.length + (tagSize + padding.length)) padding.length⟩
        (ct ++ padding) plain ⟨b.past, .len⟩ := by
  have hlen := Aead.length_sealed hct
  have hneed : machine.need
      ⟨b, .payload (plain.length + (tagSize + padding.length)) padding.length⟩ =
        some (ct ++ padding).length := by
    rw [List.length_append, hlen, Nat.add_assoc]
    rfl
  have hdata : plain.length + (tagSize + padding.length) - padding.length = ct.length := by
    omega
  have hstep : machine.step
      ⟨b, .payload (plain.length + (tagSize + padding.length)) padding.length⟩ (ct ++ padding) =
        .ok ⟨b.past, .len⟩ plain := by
    unfold machine step
    dsimp only
    rw [hdata, if_neg (by omega), List.take_left, Aead.openCt_sealed hct]
  exact ⟨hneed, .one hneed hstep⟩

end VmessServerDecoder

theorem Frames.reads {b : VmessBody} {parts : List (Part × Bytes)} {plains : List Bytes}
    (h : Frames b parts plains) :
    ∃ d', VmessServerDecoder.machine.Parts ⟨b, .len⟩ parts d' ∧
      VmessServerDecoder.machine.Reads ⟨b, .len⟩ (Staged.wireOfParts parts) plains.flatten d' := by
  induction h with
  | nil b => exact ⟨_, .nil _, .done _⟩
  | @fin b framing mask pad hnext =>
    have hread := VmessServerDecoder.reads_fin hnext
    exact ⟨_, .cons (be16_ne_nil _) rfl hread nofun (.nil _), hread⟩
  | @sealed b framing mask pad plain ct padding parts plains hnext hfits hct hpadding _ ih =>
    subst hpadding
    have htag : tagSize = 16 := rfl
    obtain ⟨d', hparts, hreads⟩ := ih
    have hread₁ := VmessServerDecoder.reads_len hnext hfits (by omega)
    obtain ⟨hneed₂, hread₂⟩ := VmessServerDecoder.reads_payload (b := { b with framing }) padding hct
    have hne : ct ++ padding ≠ [] := List.append_ne_nil_of_left_ne_nil (Aead.sealed_ne_nil hct) _
    have hrests : VmessServerDecoder.machine.Rests
        ⟨{ b with framing }, .payload (plain.length + (tagSize + padding.length))
          padding.length⟩ := by
      intro hzero
      rw [hneed₂, Option.some.injEq] at hzero
      exact hne (List.eq_nil_of_length_eq_zero hzero)
    exact ⟨d', .cons (be16_ne_nil _) rfl hread₁ hrests (.cons hne hneed₂ hread₂ nofun hparts),
      hread₁.trans (hread₂.trans hreads)⟩

end RustCrash.Vmess
