import RustCrash.AnyTls.Frame
import RustCrash.Lib.Machine
import RustCrash.Lib.Str

/-
  The padding of an AnyTLS session: `PaddingFactory` and `padded_segments`, with the writes of
  a session one after the other (`Wire`).

  Only when all of a write is out does a scheme's size become waste frames, so what a write
  puts on the wire is its own bytes with waste frames behind them (`segments_flatten`). A waste
  frame says its length in two bytes. As long as that is its length, the reader gets the written
  frames (`padding_transparent`); a longer one (`long_waste`) leaves zeros behind that are read
  as headers.

  The digest of a scheme, which only the settings mention, is left out.
-/

namespace RustCrash.AnyTls

open Lib

/-! ## Schemes -/

/-- The bytes of a scheme and the write at which the padding stops. -/
structure PaddingFactory where
  raw : Bytes
  stop : UInt32
  deriving DecidableEq

/-- The `key=value` lines. -/
def schemeLines (raw : Bytes) : List (Str × Str) :=
  (raw.splitOn 10).filterMap fun line => Str.splitOnce '=' (fromUtf8Lossy line)

/-- An entry of a line: the sizes from the first to below the second, or the check mark. -/
inductive Entry where
  | check
  | range (min max : Nat)
  deriving DecidableEq

/-- `CHECK_MARK`. -/
def checkMark : Int := -1

/-- One entry; what is malformed is skipped. -/
def parseRange (range : Str) : Option Entry :=
  match Str.splitOnce '-' range with
  | none => if Str.trim range = ['c'] then some .check else none
  | some (minS, maxS) => do
    let a ← Str.parseI64 (Str.trim minS)
    let b ← Str.parseI64 (Str.trim maxS)
    if min a b ≤ 0 then none else some (.range (min a b).toNat (max a b).toNat)

/-- The size an entry gives; `draw` is the random number. -/
def Entry.size (draw : Nat) : Entry → Int
  | check => checkMark
  | range min max => if min = max then min else draw % (max - min) + min

namespace PaddingFactory

/-- There must be entries, and the last `stop` must parse. -/
def new (raw : Bytes) : Option PaddingFactory :=
  let lines := schemeLines raw
  let stop := lines.foldl (fun stop kv =>
    if kv.1 = "stop".toList then Str.parseUint (2 ^ 32 - 1) (Str.trim kv.2) else stop) none
  if lines = [] then none else stop.map fun n => ⟨raw, UInt32.ofNat n⟩

def entries (p : PaddingFactory) (pkt : UInt32) : List Entry :=
  (schemeLines p.raw).flatMap fun kv =>
    if kv.1 = Str.decimal pkt.toNat then (kv.2.splitOn ',').filterMap parseRange else []

/-- The sizes of one write; `draws i` is the random number for the entry `i`. -/
def generate (p : PaddingFactory) (pkt : UInt32) (draws : Nat → Nat) : List Int :=
  (p.entries pkt).mapIdx fun i e => e.size (draws i)

end PaddingFactory

/-! ## Segments -/

/-- One `cmdWaste` frame of `len` zero bytes; `len as u16`. -/
def wasteFrame (len : Nat) : Bytes :=
  cmdWaste :: (be32 0 ++ (be16 (UInt16.ofNat len) ++ List.replicate len 0))

/-- The loop over the sizes. -/
def segmentsOf : List Int → Bytes → List Bytes
  | [], rest => if rest = [] then [] else [rest]
  | l :: sizes, rest =>
    if l = checkMark then
      -- no payload left: stop
      if rest = [] then [] else segmentsOf sizes rest
    else if l.toNat < rest.length then
      rest.take l.toNat :: segmentsOf sizes (rest.drop l.toNat)
    else if rest ≠ [] then
      let paddingLen := l.toNat - (rest.length + headerSize)
      (rest ++ if 0 < paddingLen then wasteFrame paddingLen else []) :: segmentsOf sizes []
    else wasteFrame l.toNat :: segmentsOf sizes []

/-- `send_padding` and `pkt_counter`. -/
structure Writer where
  sendPadding : Bool
  pktCounter : UInt32

def paddedSegments (padding : PaddingFactory) (draws : Nat → Nat) (w : Writer) (b : Bytes) :
    Writer × List Bytes :=
  if w.sendPadding then
    let w := { w with pktCounter := w.pktCounter + 1 }
    if padding.stop ≤ w.pktCounter then ({ w with sendPadding := false }, [b])
    else (w, segmentsOf (padding.generate w.pktCounter draws) b)
  else (w, [b])

/-- One `write_conn`: the scheme in force and what it draws, and the frames. -/
structure Write where
  padding : PaddingFactory
  draws : Nat → Nat
  frames : List Frame

def Write.bytes (x : Write) : Bytes := x.frames.flatMap Frame.encode

/-- The writer of a session, with all it was given and all it put on the wire. -/
structure Wire where
  writer : Writer
  written : List Frame
  sent : Bytes

def Wire.start : Wire := ⟨⟨true, 0⟩, [], []⟩

def Wire.step (t : Wire) (x : Write) : Wire :=
  let s := paddedSegments x.padding x.draws t.writer x.bytes
  ⟨s.1, t.written ++ x.frames, t.sent ++ s.2.flatten⟩

/-- The wire is whole frames, and those that are no waste are the written ones, in order. -/
def Wire.Transparent (t : Wire) : Prop :=
  (parseFrames t.sent).1 = [] ∧
    (parseFrames t.sent).2.filter (fun f => f.cmd ≠ cmdWaste) =
      t.written.filter fun f => f.cmd ≠ cmdWaste

/-! ## The waste of a write -/

/-- How long the waste frames are that the sizes make behind a write of `n` bytes. -/
def wasteLens : List Int → Nat → List Nat
  | [], _ => []
  | l :: sizes, n =>
    if l = checkMark then if n = 0 then [] else wasteLens sizes n
    else if l.toNat < n then wasteLens sizes (n - l.toNat)
    else if n ≠ 0 then
      let paddingLen := l.toNat - (n + headerSize)
      (if 0 < paddingLen then [paddingLen] else []) ++ wasteLens sizes 0
    else l.toNat :: wasteLens sizes 0

/-- Each waste frame of the write is as long as its length field can say. -/
def Wire.WasteFits (t : Wire) (x : Write) : Prop :=
  t.writer.sendPadding = true → t.writer.pktCounter + 1 < x.padding.stop →
    ∀ n ∈ wasteLens (x.padding.generate (t.writer.pktCounter + 1) x.draws) x.bytes.length,
      n ≤ maxFrameData

theorem segments_flatten (sizes : List Int) (rest : Bytes) :
    (segmentsOf sizes rest).flatten = rest ++ (wasteLens sizes rest.length).flatMap wasteFrame := by
  induction sizes generalizing rest with
  | nil =>
    unfold segmentsOf wasteLens
    split_ifs with h
    · rw [h]
      rfl
    · simp
  | cons l sizes ih =>
    have hnil : (segmentsOf sizes []).flatten = (wasteLens sizes 0).flatMap wasteFrame := ih []
    unfold segmentsOf wasteLens
    by_cases hcheck : l = checkMark
    · by_cases hrest : rest = []
      · simp [hcheck, hrest]
      · simp [hcheck, hrest, ih]
    · by_cases hlt : l.toNat < rest.length
      · simp only [hcheck, hlt, if_true, if_false]
        rw [List.flatten_cons, ih, List.length_drop, ← List.append_assoc, List.take_append_drop]
      · by_cases hrest : rest = []
        · simp [hcheck, hrest, hnil]
        · by_cases hpad : 0 < l.toNat - (rest.length + headerSize)
          · simp [hcheck, hlt, hrest, hpad, hnil]
          · simp [hcheck, hlt, hrest, hpad, hnil]

/-- A frame of `n` zeros, as the reader takes it. -/
def zeroFrame (n : Nat) (h : n ≤ maxFrameData) : Frame :=
  ⟨cmdWaste, 0, List.replicate n 0, by rwa [List.length_replicate]⟩

theorem encode_zeroFrame {n : Nat} (h : n ≤ maxFrameData) :
    (zeroFrame n h).encode = cmdWaste :: (be32 0 ++ (be16 (UInt16.ofNat n) ++ List.replicate n 0)) := by
  unfold Frame.encode frameInto zeroFrame
  simp only [List.length_replicate, List.nil_append]

theorem wasteFrame_encode {n : Nat} (h : n ≤ maxFrameData) :
    wasteFrame n = (zeroFrame n h).encode := (encode_zeroFrame h).symm

theorem paddedSegments_flatten (padding : PaddingFactory) (draws : Nat → Nat) (w : Writer)
    (b : Bytes) :
    (paddedSegments padding draws w b).2.flatten = b ++
      if w.sendPadding = true ∧ w.pktCounter + 1 < padding.stop then
        (wasteLens (padding.generate (w.pktCounter + 1) draws) b.length).flatMap wasteFrame
      else [] := by
  unfold paddedSegments
  by_cases hsend : w.sendPadding = true
  · by_cases hstop : padding.stop ≤ w.pktCounter + 1
    · simp [hsend, hstop, UInt32.not_lt.mpr hstop]
    · simp only [hsend, hstop, if_true, if_false, true_and, UInt32.not_le.mp hstop]
      exact segments_flatten _ _
  · simp [hsend]

/-! ## Frames through the padding -/

theorem nonwaste_waste {ns : List Nat} (h : ∀ n ∈ ns, n ≤ maxFrameData) :
    ∃ fs : List Frame, ns.flatMap wasteFrame = fs.flatMap Frame.encode ∧
      fs.filter (fun f => f.cmd ≠ cmdWaste) = [] := by
  induction ns with
  | nil => exact ⟨[], rfl, rfl⟩
  | cons n ns ih =>
    obtain ⟨fs, hfs, hnone⟩ := ih fun m hm => h m (List.mem_cons_of_mem _ hm)
    have hn := h n List.mem_cons_self
    refine ⟨zeroFrame n hn :: fs, ?_, ?_⟩
    · rw [List.flatMap_cons, List.flatMap_cons, hfs, wasteFrame_encode hn]
    · rw [List.filter_cons_of_neg (by simp [zeroFrame]), hnone]

/-- The frames on the wire, with the waste among them. -/
def Wire.Framed (t : Wire) : Prop :=
  ∃ fs : List Frame, t.sent = fs.flatMap Frame.encode ∧
    fs.filter (fun f => f.cmd ≠ cmdWaste) = t.written.filter fun f => f.cmd ≠ cmdWaste

theorem Wire.Framed.transparent {t : Wire} (h : t.Framed) : t.Transparent := by
  obtain ⟨fs, hsent, hsame⟩ := h
  unfold Wire.Transparent
  rw [hsent, parseFrames_encode]
  exact ⟨rfl, hsame⟩

theorem Wire.Framed.step {t : Wire} {x : Write} (h : t.Framed) (hfits : t.WasteFits x) :
    (t.step x).Framed := by
  obtain ⟨fs, hsent, hsame⟩ := h
  have hwaste : ∃ ws : List Frame,
      (paddedSegments x.padding x.draws t.writer x.bytes).2.flatten =
        x.bytes ++ ws.flatMap Frame.encode ∧ ws.filter (fun f => f.cmd ≠ cmdWaste) = [] := by
    rw [paddedSegments_flatten]
    by_cases hpad : t.writer.sendPadding = true ∧ t.writer.pktCounter + 1 < x.padding.stop
    · rw [if_pos hpad]
      obtain ⟨ws, hws, hnone⟩ := nonwaste_waste (hfits hpad.1 hpad.2)
      exact ⟨ws, by rw [hws], hnone⟩
    · rw [if_neg hpad]
      exact ⟨[], rfl, rfl⟩
  obtain ⟨ws, hws, hnone⟩ := hwaste
  refine ⟨fs ++ (x.frames ++ ws), ?_, ?_⟩
  · unfold Wire.step
    dsimp only
    rw [hws, hsent, List.flatMap_append, List.flatMap_append]
    rfl
  · unfold Wire.step
    dsimp only
    rw [List.filter_append, List.filter_append, List.filter_append, hsame, hnone, List.append_nil]

/-- Through every sequence of writes, schemes and draws, as long as no waste frame is longer than
    its length field can say. -/
theorem padding_transparent (writes : List Write)
    (hfits : ∀ s ∈ Machine.steps Wire.step .start writes, s.1.WasteFits s.2) :
    ∀ t ∈ Machine.states Wire.step .start writes, t.Transparent := by
  intro t ht
  have hstart : Wire.start.Framed := ⟨[], rfl, rfl⟩
  exact (Machine.inv_of_good Wire.Framed Wire.WasteFits (fun s x h hx => h.step hx) hstart hfits t
    ht).transparent

/-- A `cmdFIN`, in a write under the scheme `stop=2`, `1=…`. -/
def finUnder (scheme : String) : Write :=
  ⟨⟨utf8 scheme.toList, 2⟩, fun _ => 0, [⟨cmdFin, 1, [], Nat.zero_le _⟩]⟩

theorem padding_transparent_sample : (Wire.start.step (finUnder "stop=2\n1=100-100")).Transparent := by
  refine padding_transparent [finUnder "stop=2\n1=100-100"] ?_ _ (Machine.step_mem_states _ _)
  intro s hs
  rw [List.mem_singleton.mp hs]
  intro _ _
  decide +kernel

/-! ### A waste frame that is too long -/

theorem mod_fits (n : Nat) : n % 2 ^ 16 ≤ maxFrameData :=
  Nat.le_of_lt_succ (Nat.mod_lt n (by decide))

/-- What the length field cannot say is left behind the frame, as zeros. -/
theorem long_waste (n : Nat) :
    wasteFrame n =
      (zeroFrame (n % 2 ^ 16) (mod_fits n)).encode ++ List.replicate (n - n % 2 ^ 16) 0 := by
  have hlen : be16 (UInt16.ofNat n) = be16 (UInt16.ofNat (n % 2 ^ 16)) := by
    unfold be16
    simp
  have hsplit : List.replicate n (0 : UInt8) =
      List.replicate (n % 2 ^ 16) 0 ++ List.replicate (n - n % 2 ^ 16) 0 := by
    rw [← List.replicate_add, Nat.add_sub_cancel' (Nat.mod_le n _)]
  rw [encode_zeroFrame]
  unfold wasteFrame
  rw [hlen, hsplit, List.cons_append, List.append_assoc, List.append_assoc]

/-- Zeros are empty waste frames, up to fewer than a header. -/
theorem parseFrames_zeros (k r : Nat) (hr : r < headerSize) :
    (parseFrames (List.replicate (k * headerSize + r) 0)).1 = List.replicate r 0 := by
  induction k with
  | zero =>
    have hshort : nextFrame (List.replicate (0 * headerSize + r) 0) = none := by
      unfold nextFrame parseHeader
      rw [List.length_replicate, if_pos (by omega)]
      rfl
    rw [parseFrames_short hshort, Nat.zero_mul, Nat.zero_add]
  | succ k ih =>
    have hnext : nextFrame (List.replicate ((k + 1) * headerSize + r) 0) =
        some (zeroFrame 0 (Nat.zero_le _), List.replicate (k * headerSize + r) 0) := by
      rw [show (k + 1) * headerSize + r = headerSize + (k * headerSize + r) by ring,
        List.replicate_add]
      exact nextFrame_encode (zeroFrame 0 (Nat.zero_le _)) _
    rw [parseFrames_cons hnext]
    exact ih

/-- What the reader is left with after a frame and a waste frame that is too long. -/
theorem long_waste_left (f : Frame) {n k r : Nat} (hr : r < headerSize)
    (hn : n - n % 2 ^ 16 = k * headerSize + r) :
    (parseFrames (f.encode ++ wasteFrame n)).1 = List.replicate r 0 := by
  rw [parseFrames_cons (nextFrame_encode _ _), long_waste, parseFrames_cons (nextFrame_encode _ _),
    hn]
  exact parseFrames_zeros k r hr

def longWrite : Write := finUnder "stop=2\n1=70000-70000"

/-- A size of 70000 makes a waste frame of 69986 bytes that says it has 4450. -/
theorem long_waste_desyncs :
    PaddingFactory.new (utf8 "stop=2\n1=70000-70000".toList) = some longWrite.padding ∧
      ¬ (Wire.start.step longWrite).Transparent := by
  refine ⟨by decide +kernel, fun h => ?_⟩
  have hgen : longWrite.padding.generate (Wire.start.writer.pktCounter + 1) longWrite.draws =
      [70000] := by
    decide +kernel
  have hlens : wasteLens [70000] longWrite.bytes.length = [69986] := by
    decide +kernel
  have hsent : (Wire.start.step longWrite).sent = longWrite.bytes ++ wasteFrame 69986 := by
    unfold Wire.step
    dsimp only
    rw [paddedSegments_flatten, if_pos (by decide +kernel), hgen, hlens, List.flatMap_singleton]
    rfl
  have hleft := long_waste_left ⟨cmdFin, 1, [], Nat.zero_le _⟩ (n := 69986) (k := 9362) (r := 2)
    (by decide) (by norm_num [headerSize])
  have hrest := h.1
  rw [hsent] at hrest
  exact absurd (hleft.symm.trans hrest) (by decide)

end RustCrash.AnyTls
