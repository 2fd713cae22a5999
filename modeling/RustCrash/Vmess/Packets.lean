import RustCrash.Vmess.Reader

/-
  `read_packet`: the datagrams of a VMess connection, one to a chunk.

  A call reads one byte and takes what was opened with it. A chunk of one byte leaves nothing to
  take and is lost, and a chunk of length zero is passed over like any other without a byte, so
  exactly these two come out otherwise than they were sent (`chunkPackets_iff`).
-/

namespace RustCrash.Vmess

open Lib Proto

/-! ## What the server sends -/

inductive Chunk where
  | datagram (plain : Bytes)
  /-- The chunk of length zero. -/
  | fin
  deriving DecidableEq

/-- Chunks that are sealed one after the other. -/
def sealChunks : BodyCodec → List Chunk → Result Bytes
  | _, [] => .ok []
  | c, .datagram plain :: chunks => do
    let (c, frame) ← c.sealChunk plain
    let wire ← sealChunks c chunks
    return frame ++ wire
  | c, .fin :: chunks => do
    let wire ← sealChunks c chunks
    return be16 0 ++ wire

def datagramsOf : List Chunk → List Bytes
  | [] => []
  | .datagram plain :: chunks => plain :: datagramsOf chunks
  | .fin :: chunks => datagramsOf chunks

/-- The datagrams before the first chunk of length zero. -/
def beforeFin : List Chunk → List Bytes
  | .datagram plain :: chunks => plain :: beforeFin chunks
  | _ => []

/-- Those behind it. -/
def afterFin : List Chunk → List Bytes
  | [] => []
  | .datagram _ :: chunks => afterFin chunks
  | .fin :: chunks => datagramsOf chunks

theorem datagramsOf_split (chunks : List Chunk) :
    datagramsOf chunks = beforeFin chunks ++ afterFin chunks := by
  induction chunks with
  | nil => rfl
  | cons chunk chunks ih =>
    cases chunk with
    | datagram plain => exact congrArg (plain :: ·) ih
    | fin => rfl

section

variable (H : Hashes)

/-- What a server answers: its header, and chunks. -/
inductive Answers (d : VmessDecoder) (chunks : List Chunk) : Bytes → Prop
  | intro {header lenCt ct wire : Bytes} (hfits : header.length ≤ 65535)
      (hcheck : VmessDecoder.checkHeader d.expectedResponseHeader header = .ok ())
      (hlen : (respLenAead H d.respKey).sealed (respLenNonce H d.respIv) []
        (be16 (UInt16.ofNat header.length)) = .ok lenCt)
      (hct : (respPayloadAead H d.respKey).sealed (respPayloadNonce H d.respIv) [] header = .ok ct)
      (hchunks : sealChunks d.dec chunks = .ok wire) :
      Answers d chunks (lenCt ++ (ct ++ wire))

/-! ## The calls -/

/-- What `read_packet` returns; nothing while the transport brings nothing more. -/
def packetResult : ByteReader.PacketCall → Option (Result Bytes)
  | .packet bs => some (.ok bs)
  | .failed e => some (.error (.network s!"vmess packet read: {e.msg}"))
  | .eof => some (.error (.network "vmess: eof mid-packet"))
  | .waiting => none

/-- The first `n` calls of `read_packet`, as far as they give packets. -/
def packets (n : Nat) (d : VmessDecoder) (script : List Arrival) : List (Option (Result Bytes)) :=
  (ByteReader.readPackets (VmessDecoder.machine H) invalidData truncatedStream n ⟨d, [], []⟩
    script).map packetResult

end

/-- The end of a connection that was closed, or not. -/
def closing (closed : Bool) : List Arrival := if closed then [.data []] else []

/-- What the calls are to give: each datagram, and an error where the stream ends. -/
def wanted (chunks : List Chunk) (closed : Bool) : List (Option (Result Bytes)) :=
  (beforeFin chunks).map (fun bs => some (.ok bs)) ++
    [if .fin ∈ chunks ∨ closed = true then some (.error (.network "vmess: eof mid-packet"))
      else none]

/-! ## The wire -/

theorem sealChunk_some {c c' : BodyCodec} {plain frame : Bytes}
    (h : c.sealChunk plain = .ok (c', frame)) :
    (c.kind = none ∧ plain.length ≤ 65535 ∧ c' = c ∧
        frame = be16 (UInt16.ofNat plain.length) ++ plain) ∨
      ∃ aead ct, c.kind = some aead ∧ plain.length + 16 ≤ 65535 ∧ c' = c.past ∧
        aead.sealed c.nonce [] plain = .ok ct ∧
        frame = be16 (UInt16.ofNat (plain.length + 16)) ++ ct := by
  unfold BodyCodec.sealChunk at h
  cases hkind : c.kind with
  | none =>
    rw [hkind] at h
    dsimp only at h
    split_ifs at h with hlong
    obtain ⟨rfl, rfl⟩ := Prod.mk.inj (Except.ok.inj h)
    exact .inl ⟨rfl, Nat.le_of_not_lt hlong, rfl, rfl⟩
  | some aead =>
    rw [hkind] at h
    dsimp only at h
    split_ifs at h with hlong
    obtain ⟨ct, hct, h⟩ := bind_eq_ok.mp h
    obtain ⟨rfl, rfl⟩ := Prod.mk.inj (Except.ok.inj h)
    exact .inr ⟨aead, ct, rfl, Nat.le_of_not_lt hlong, rfl, hct, rfl⟩

variable {H : Hashes}

/-- The reader takes the chunks one by one, each datagram in one step. -/
theorem batches_chunks (d : VmessDecoder) {c : BodyCodec} {chunks : List Chunk} {wire : Bytes}
    (h : sealChunks c chunks = .ok wire) (hne : ∀ plain ∈ datagramsOf chunks, plain ≠ []) :
    ∃ c', (VmessDecoder.machine H).Batches (d.inBody c) wire (datagramsOf chunks)
      (d.inBody c') := by
  induction chunks generalizing c wire with
  | nil =>
    obtain rfl := Except.ok.inj h
    exact ⟨c, .done _⟩
  | cons chunk chunks ih =>
    cases chunk with
    | datagram plain =>
      obtain ⟨⟨c₁, frame⟩, hframe, h⟩ := bind_eq_ok.mp h
      obtain ⟨rest, hrest, h⟩ := bind_eq_ok.mp h
      obtain rfl := Except.ok.inj h
      obtain ⟨hplain, hne⟩ := List.forall_mem_cons.mp hne
      obtain ⟨c', hbatches⟩ := ih hrest hne
      obtain ⟨byte, plain, rfl⟩ := List.exists_cons_of_ne_nil hplain
      refine ⟨c', ?_⟩
      rcases sealChunk_some hframe with ⟨hkind, hfits, rfl, rfl⟩ |
        ⟨aead, ct, hkind, hfits, rfl, hct, rfl⟩
      · obtain ⟨hneed₁, hstep₁⟩ := d.step_len (H := H) c₁ (UInt16.ofNat (byte :: plain).length)
        obtain ⟨hneed₂, hstep₂⟩ := d.step_raw (H := H) hkind hplain hfits
        rw [List.append_assoc]
        exact .quiet hneed₁ hstep₁ (.batch hplain hneed₂ hstep₂ hbatches)
      · obtain ⟨hneed₁, hstep₁⟩ :=
          d.step_len (H := H) c (UInt16.ofNat ((byte :: plain).length + 16))
        obtain ⟨hneed₂, hstep₂⟩ := d.step_sealed (H := H) hkind hfits hct
        rw [List.append_assoc]
        exact .quiet hneed₁ hstep₁ (.batch (Aead.sealed_ne_nil hct) hneed₂ hstep₂ hbatches)
    | fin =>
      obtain ⟨rest, hrest, h⟩ := bind_eq_ok.mp h
      obtain rfl := Except.ok.inj h
      obtain ⟨c', hbatches⟩ := ih hrest hne
      obtain ⟨hneed₁, hstep₁⟩ := d.step_len (H := H) c 0
      have hstep₂ : (VmessDecoder.machine H).step (d.atPayload c 0) [] = .ok (d.inBody c) [] := rfl
      refine ⟨c', .quiet hneed₁ hstep₁ ?_⟩
      rw [← List.nil_append rest]
      exact .quiet rfl hstep₂ hbatches

theorem Answers.batches {d : VmessDecoder} {chunks : List Chunk} {wire : Bytes}
    (h : Answers H d chunks wire) (hstate : d.state = .headerLen)
    (hne : ∀ plain ∈ datagramsOf chunks, plain ≠ []) :
    ∃ c', (VmessDecoder.machine H).Batches d wire (datagramsOf chunks) (d.inBody c') := by
  obtain ⟨hfits, hcheck, hlen, hct, hchunks⟩ := h
  obtain ⟨d₁, hneed₁, hstep₁, hneed₂, hstep₂⟩ :=
    VmessDecoder.steps_header hstate hfits hcheck hlen hct
  obtain ⟨c', hbatches⟩ := batches_chunks (H := H) d hchunks hne
  exact ⟨c', .quiet hneed₁ hstep₁ (.quiet hneed₂ hstep₂ hbatches)⟩

/-! ## What the calls give -/

/-- What they do give: each datagram of more than a byte, before and behind a chunk of length
    zero. -/
def given (chunks : List Chunk) (closed : Bool) : List (Option (Result Bytes)) :=
  ((datagramsOf chunks).filter fun bs => decide (2 ≤ bs.length)).map (fun bs => some (.ok bs)) ++
    [if closed = true then some (.error (.network "vmess: eof mid-packet")) else none]

theorem packets_given {d : VmessDecoder} (hstate : d.state = .headerLen) {chunks : List Chunk}
    {wire : Bytes} (h : Answers H d chunks wire)
    (hne : ∀ plain ∈ datagramsOf chunks, plain ≠ []) {script : List Arrival}
    (hend : Endless script) (harrived : arrived script = wire) (closed : Bool) (n : Nat) :
    packets H n d (script ++ closing closed) = (given chunks closed).take n := by
  obtain ⟨c', hbatches⟩ := h.batches hstate hne
  rw [← harrived, ← List.nil_append (arrived script)] at hbatches
  have htail : closing closed = [] ∨ closing closed = [.data []] := by
    cases closed with
    | false => exact .inl rfl
    | true => exact .inr rfl
  have hread := ByteReader.readPackets_batches invalidData truncatedStream nofun htail
    (d.rests_inBody c') (r := ⟨d, [], []⟩) rfl hbatches hend n
  unfold packets
  rw [hread, List.map_take]
  congr 1
  unfold ByteReader.longBatches given
  rw [List.map_append, List.map_map]
  cases closed <;> rfl

theorem forall_take_iff {α : Type} {as bs : List α} : (∀ n, as.take n = bs.take n) ↔ as = bs := by
  constructor
  · intro h
    have hlong := h (max as.length bs.length)
    rwa [List.take_of_length_le (le_max_left _ _), List.take_of_length_le (le_max_right _ _)]
      at hlong
  · rintro rfl n
    rfl

theorem given_iff (chunks : List Chunk) (closed : Bool) :
    given chunks closed = wanted chunks closed ↔ (∀ plain ∈ beforeFin chunks, 2 ≤ plain.length) ∧
      (∀ plain ∈ afterFin chunks, plain.length < 2) ∧ (.fin ∈ chunks → closed = true) := by
  have hinj : Function.Injective fun bs : Bytes => (some (.ok bs) : Option (Result Bytes)) :=
    fun _ _ h => Except.ok.inj (Option.some.inj h)
  have hparts : given chunks closed = wanted chunks closed ↔
      (datagramsOf chunks).filter (fun bs => decide (2 ≤ bs.length)) = beforeFin chunks ∧
        (closed = true ↔ .fin ∈ chunks ∨ closed = true) := by
    have hlast : ∀ as bs : List (Option (Result Bytes)), ∀ a b,
        as ++ [a] = bs ++ [b] ↔ as = bs ∧ a = b := fun as bs a b =>
      ⟨fun h => (List.append_inj' h rfl).imp id List.singleton_inj.mp, fun h => by rw [h.1, h.2]⟩
    unfold given wanted
    rw [hlast, (List.map_injective_iff.mpr hinj).eq_iff]
    refine and_congr_right fun _ => ?_
    split_ifs with hclosed hwanted hwanted
    · exact iff_of_true rfl (iff_of_true hclosed hwanted)
    · exact absurd (.inr hclosed) hwanted
    · exact iff_of_false nofun fun h => hclosed (h.mpr hwanted)
    · exact iff_of_true rfl (iff_of_false hclosed hwanted)
  rw [hparts, datagramsOf_split, List.filter_append]
  constructor
  · rintro ⟨hfilter, hclosed⟩
    have hbefore : ∀ plain ∈ beforeFin chunks, 2 ≤ plain.length := by
      intro plain hplain
      rw [← hfilter, ← List.filter_append] at hplain
      exact of_decide_eq_true (List.mem_filter.mp hplain).2
    rw [List.filter_eq_self.mpr fun plain hplain => decide_eq_true (hbefore plain hplain),
      List.append_right_eq_self, List.filter_eq_nil_iff] at hfilter
    refine ⟨hbefore, fun plain hplain => ?_, fun hfin => hclosed.mpr (.inl hfin)⟩
    have hnot := hfilter plain hplain
    rw [decide_eq_true_iff] at hnot
    exact Nat.lt_of_not_le hnot
  · rintro ⟨hbefore, hafter, hclosed⟩
    rw [List.filter_eq_self.mpr fun plain hplain => decide_eq_true (hbefore plain hplain),
      List.append_right_eq_self, List.filter_eq_nil_iff]
    refine ⟨fun plain hplain => ?_, ⟨.inr, fun h => h.elim hclosed id⟩⟩
    rw [decide_eq_true_iff]
    exact Nat.not_le_of_lt (hafter plain hplain)

/-- Calls of `read_packet` give the datagrams one by one, and the end of the stream at the first
    chunk of length zero, exactly if no datagram before that chunk is of one byte, and only such
    come behind it before the transport ends. -/
theorem chunkPackets_iff {d : VmessDecoder} (hstate : d.state = .headerLen) {chunks : List Chunk}
    {wire : Bytes} (h : Answers H d chunks wire)
    (hne : ∀ plain ∈ datagramsOf chunks, plain ≠ []) {script : List Arrival}
    (hend : Endless script) (harrived : arrived script = wire) (closed : Bool) :
    (∀ n, packets H n d (script ++ closing closed) = (wanted chunks closed).take n) ↔
      (∀ plain ∈ beforeFin chunks, 2 ≤ plain.length) ∧
        (∀ plain ∈ afterFin chunks, plain.length < 2) ∧ (.fin ∈ chunks → closed = true) := by
  rw [← given_iff, ← forall_take_iff]
  refine forall_congr' fun n => ?_
  rw [packets_given hstate h hne hend harrived closed n]

/-! ## A datagram of one byte -/

def zeroHashes : Hashes where
  md5 _ := .zero 16
  sha256 _ := .zero 32
  hmacSha1 _ _ := .zero 20
  hmacSha256 _ _ := .zero 32
  blake3DeriveKey _ _ := .zero 32
  crc32 _ := 0

/-- The security `none`. -/
def sampleDecoder : VmessDecoder where
  dec := ⟨none, .zero 16, 0⟩
  respKey := .zero 16
  respIv := .zero 16
  expectedResponseHeader := 5
  state := .headerLen

theorem sample_answers (chunks : List Chunk) {body : Bytes}
    (h : sealChunks sampleDecoder.dec chunks = .ok body) :
    ∃ wire, Answers zeroHashes sampleDecoder chunks wire ∧ Endless [.data wire] ∧
      arrived [.data wire] = wire := by
  obtain ⟨lenCt, hlen⟩ := (respLenAead zeroHashes sampleDecoder.respKey).sealed_short
    (respLenNonce zeroHashes sampleDecoder.respIv)
    (by decide : (be16 (UInt16.ofNat 4)).length < _) (by decide : ([] : Bytes).length < _)
  obtain ⟨ct, hct⟩ := (respPayloadAead zeroHashes sampleDecoder.respKey).sealed_short
    (respPayloadNonce zeroHashes sampleDecoder.respIv)
    (by decide : ([5, 0, 0, 0] : Bytes).length < _) (by decide : ([] : Bytes).length < _)
  have hcheck : VmessDecoder.checkHeader sampleDecoder.expectedResponseHeader [5, 0, 0, 0] =
      .ok () := rfl
  refine ⟨lenCt ++ (ct ++ body), .intro (by decide) hcheck hlen hct h, ?_, ?_⟩
  · intro hmem
    have hnil := Arrival.data.inj (List.mem_singleton.mp hmem)
    exact List.append_ne_nil_of_left_ne_nil (Aead.sealed_ne_nil hlen) _ hnil.symm
  · rw [arrived_cons, arrived_nil, List.append_nil]
    rfl

theorem chunkPackets_iff_sample : ∃ wire, Answers zeroHashes sampleDecoder [.datagram [1, 2]] wire ∧
    ∀ n, packets zeroHashes n sampleDecoder ([.data wire] ++ closing true) =
      (wanted [.datagram [1, 2]] true).take n := by
  obtain ⟨wire, hanswers, hend, harrived⟩ := sample_answers [.datagram [1, 2]] rfl
  exact ⟨wire, hanswers, (chunkPackets_iff rfl hanswers (by decide) hend harrived true).mpr (by decide)⟩

/-- The first datagram is lost. -/
theorem oneByte_chunk_lost :
    ∃ wire, Answers zeroHashes sampleDecoder [.datagram [1], .datagram [2, 3]] wire ∧
      ¬ ∀ n, packets zeroHashes n sampleDecoder ([.data wire] ++ closing false) =
        (wanted [.datagram [1], .datagram [2, 3]] false).take n := by
  obtain ⟨wire, hanswers, hend, harrived⟩ :=
    sample_answers [.datagram [1], .datagram [2, 3]] rfl
  refine ⟨wire, hanswers, fun h => ?_⟩
  have hfirst := h 1
  rw [packets_given rfl hanswers (by decide) hend harrived false 1] at hfirst
  have hhead := Except.ok.inj (Option.some.inj (List.cons.inj hfirst).1)
  exact absurd hhead (by decide)

end RustCrash.Vmess
