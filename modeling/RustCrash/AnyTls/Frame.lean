import RustCrash.Lib.ByteVec
import RustCrash.Lib.Chunked

/-
  The frames of an AnyTLS session (`proto/anytls.rs`): a command, a stream id, the length of
  the data in two bytes, the data.

  A frame that was written is read back, with what is behind it left over, and every frame that
  is read was written there. So a byte stream has one sequence of frames.
-/

namespace RustCrash.AnyTls

open Lib

def cmdWaste : UInt8 := 0
def cmdSyn : UInt8 := 1
def cmdPsh : UInt8 := 2
def cmdFin : UInt8 := 3
def cmdSettings : UInt8 := 4
def cmdAlert : UInt8 := 5
def cmdUpdatePadding : UInt8 := 6
def cmdSynack : UInt8 := 7
def cmdHeartRequest : UInt8 := 8
def cmdHeartResponse : UInt8 := 9
def cmdServerSettings : UInt8 := 10

def headerSize : Nat := 1 + 4 + 2

def maxFrameData : Nat := 0xFFFF

/-- A frame that the length field can describe. -/
structure Frame where
  cmd : UInt8
  sid : UInt32
  data : Bytes
  fits : data.length ≤ maxFrameData
  deriving DecidableEq

/-! ## Writing -/

/-- Append one session frame; `data.len() as u16`. -/
def frameInto (out : Bytes) (cmd : UInt8) (sid : UInt32) (data : Bytes) : Bytes :=
  out ++ cmd :: (be32 sid ++ (be16 (UInt16.ofNat data.length) ++ data))

def Frame.encode (f : Frame) : Bytes := frameInto [] f.cmd f.sid f.data

/-- The rounds of the loop of `psh_frames_into`. -/
def pshFramesFor (sid : UInt32) : Nat → Bytes → List Frame
  | 0, _ => []
  | n + 1, rest =>
    if rest = [] then []
    else
      ⟨cmdPsh, sid, rest.take maxFrameData, List.length_take_le _ _⟩ ::
        pshFramesFor sid n (rest.drop maxFrameData)

def pshFrames (sid : UInt32) (data : Bytes) : List Frame := pshFramesFor sid data.length data

/-- Append the PSH frames for `data`. -/
def pshFramesInto (out : Bytes) (sid : UInt32) (data : Bytes) : Bytes :=
  out ++ (pshFrames sid data).flatMap Frame.encode

/-- The frames carry the data, all of it, in order. -/
theorem pshFramesFor_data (sid : UInt32) {n : Nat} {data : Bytes} (h : data.length ≤ n) :
    (pshFramesFor sid n data).flatMap Frame.data = data := by
  induction n generalizing data with
  | zero =>
    rw [List.eq_nil_of_length_eq_zero (Nat.le_zero.mp h)]
    rfl
  | succ n ih =>
    unfold pshFramesFor
    split_ifs with hnil
    · rw [hnil]
      rfl
    · have hpos : 0 < data.length := List.length_pos_iff.mpr hnil
      have hrest : (data.drop maxFrameData).length ≤ n := by
        rw [List.length_drop]
        unfold maxFrameData
        omega
      rw [List.flatMap_cons, ih hrest, List.take_append_drop]

theorem pshFrames_data (sid : UInt32) (data : Bytes) :
    (pshFrames sid data).flatMap Frame.data = data := pshFramesFor_data sid (le_refl _)

/-! ## Reading -/

/-- `(cmd, sid, data_len)` once buffered. -/
def parseHeader (rbuf : Bytes) : Option (UInt8 × UInt32 × Nat) :=
  if rbuf.length < headerSize then none
  else some (rbuf.getD 0 0, ofBE32 (slice rbuf 1 4), (ofBE16 (slice rbuf 5 2)).toNat)

/-- The data behind a header, as a frame. -/
def frameOf (cmd : UInt8) (sid : UInt32) (len : UInt16) (rbuf : Bytes) : Frame :=
  ⟨cmd, sid, (rbuf.drop headerSize).take len.toNat, by
    have hlen := len.toNat_lt
    rw [List.length_take]
    unfold maxFrameData
    omega⟩

/-- The frame at the front of the buffer, and what is behind it. -/
def nextFrame (rbuf : Bytes) : Option (Frame × Bytes) := do
  let (cmd, sid, len) ← parseHeader rbuf
  if rbuf.length < headerSize + len then none
  else some (frameOf cmd sid (UInt16.ofNat len) rbuf, rbuf.drop (headerSize + len))

theorem length_encode (f : Frame) : f.encode.length = headerSize + f.data.length := by
  unfold Frame.encode frameInto headerSize
  simp only [List.nil_append, List.length_cons, List.length_append, length_be32, length_be16]
  omega

/-- A buffer that starts with the bytes of a frame. -/
theorem encode_append (f : Frame) (rest : Bytes) :
    f.encode ++ rest =
      [f.cmd] ++ (be32 f.sid ++ (be16 (UInt16.ofNat f.data.length) ++ (f.data ++ rest))) := by
  unfold Frame.encode frameInto
  simp only [List.nil_append, List.cons_append, List.append_assoc]

theorem parseHeader_encode (f : Frame) (rest : Bytes) :
    parseHeader (f.encode ++ rest) = some (f.cmd, f.sid, f.data.length) := by
  have hlen := length_encode f
  have hfits : f.data.length < 2 ^ 16 := Nat.lt_succ_of_le f.fits
  have hone : [f.cmd].length = 1 := rfl
  have hsid : slice (f.encode ++ rest) (0 + 1) 4 = be32 f.sid := by
    rw [encode_append, slice_skip hone, slice_here (length_be32 _)]
  have hsize : slice (f.encode ++ rest) (0 + 4 + 1) 2 = be16 (UInt16.ofNat f.data.length) := by
    rw [encode_append, slice_skip hone, slice_skip (length_be32 _), slice_here (length_be16 _)]
  unfold parseHeader
  rw [if_neg (by rw [List.length_append]; omega), hsid, hsize, ofBE32_be32, ofBE16_be16,
    UInt16.toNat_ofNat_of_lt' hfits]
  rfl

theorem nextFrame_encode (f : Frame) (rest : Bytes) :
    nextFrame (f.encode ++ rest) = some (f, rest) := by
  have hlen := length_encode f
  have hfits : f.data.length < 2 ^ 16 := Nat.lt_succ_of_le f.fits
  have hdata : ((f.encode ++ rest).drop headerSize).take f.data.length = f.data := by
    have hhead : ([f.cmd] ++ (be32 f.sid ++ be16 (UInt16.ofNat f.data.length))).length =
        headerSize := by
      simp [headerSize]
    rw [encode_append, ← List.append_assoc (be32 _), ← List.append_assoc [f.cmd], ← hhead,
      List.drop_left, List.take_left]
  unfold nextFrame
  rw [parseHeader_encode]
  dsimp only [Option.bind_eq_bind, Option.bind_some]
  rw [if_neg (by rw [List.length_append]; omega), ← hlen, List.drop_left]
  unfold frameOf
  simp only [UInt16.toNat_ofNat_of_lt' hfits, hdata]

/-- A frame that is read stands at the front of the buffer. -/
theorem nextFrame_some {buf rest : Bytes} {f : Frame} (h : nextFrame buf = some (f, rest)) :
    buf = f.encode ++ rest := by
  unfold nextFrame parseHeader at h
  by_cases hshort : buf.length < headerSize
  · rw [if_pos hshort] at h
    cases h
  · rw [if_neg hshort] at h
    dsimp only [Option.bind_eq_bind, Option.bind_some] at h
    split_ifs at h with hlen
    cases h
    cases buf with
    | nil => exact absurd (Nat.zero_lt_succ _) hshort
    | cons b tl =>
      have hseven : 7 ≤ tl.length + 1 := Nat.le_of_not_lt hshort
      have hsid : slice (b :: tl) 1 4 = tl.take 4 := rfl
      have hsize : slice (b :: tl) 5 2 = (tl.drop 4).take 2 := rfl
      unfold headerSize at hlen
      rw [hsize, List.length_cons] at hlen
      have hdata : (tl.drop 6).length ≥ (ofBE16 ((tl.drop 4).take 2)).toNat := by
        rw [List.length_drop]
        omega
      rw [encode_append]
      unfold frameOf headerSize
      simp only [hsid, hsize, UInt16.ofNat_toNat, List.getD_cons_zero, List.drop_succ_cons,
        List.length_take_of_le hdata, List.singleton_append, Nat.reduceAdd]
      rw [be32_ofBE32 (by rw [List.length_take]; omega),
        be16_ofBE16 (by rw [List.length_take, List.length_drop]; omega)]
      have hend : (b :: tl).drop (7 + (ofBE16 ((tl.drop 4).take 2)).toNat) =
          (tl.drop 6).drop (ofBE16 ((tl.drop 4).take 2)).toNat := by
        rw [List.drop_drop, show 7 = 6 + 1 from rfl, Nat.add_right_comm, List.drop_succ_cons]
      have hsix : tl.drop 6 = (tl.drop 4).drop 2 := by rw [List.drop_drop]
      rw [hend, List.take_append_drop, hsix, List.take_append_drop, List.take_append_drop]

theorem nextFrame_stable {buf rest : Bytes} {f : Frame} (more : Bytes)
    (h : nextFrame buf = some (f, rest)) : nextFrame (buf ++ more) = some (f, rest ++ more) := by
  rw [nextFrame_some h, List.append_assoc, nextFrame_encode]

theorem nextFrame_shrinks {buf rest : Bytes} {f : Frame} (h : nextFrame buf = some (f, rest)) :
    rest.length < buf.length := by
  rw [nextFrame_some h, List.length_append, length_encode]
  unfold headerSize
  omega

/-! ## A byte stream as frames -/

/-- The frames that have arrived, as `recv_loop` takes them off its buffer. -/
def frames : Chunked Unit UInt8 Frame where
  step _ buf := (nextFrame buf).map fun x => ((), x.2, [x.1])
  size _ buf := buf.length
  shrinks h := by
    obtain ⟨⟨f, rest⟩, hf, hx⟩ := Option.map_eq_some_iff.mp h
    cases hx
    exact nextFrame_shrinks hf
  stable more h := by
    obtain ⟨⟨f, rest⟩, hf, hx⟩ := Option.map_eq_some_iff.mp h
    cases hx
    rw [nextFrame_stable more hf]
    rfl

theorem frames_step (buf : Bytes) :
    frames.step () buf = (nextFrame buf).map fun x => ((), x.2, [x.1]) := rfl

/-- What is left over, and the frames in front of it. -/
def parseFrames (bs : Bytes) : Bytes × List Frame := (frames.drain () bs).2

theorem parseFrames_cons {buf rest : Bytes} {f : Frame} (h : nextFrame buf = some (f, rest)) :
    parseFrames buf = ((parseFrames rest).1, f :: (parseFrames rest).2) := by
  have hstep : frames.step () buf = some ((), rest, [f]) := by
    rw [frames_step, h]
    rfl
  unfold parseFrames
  rw [Chunked.drain_some hstep]
  rfl

theorem parseFrames_short {buf : Bytes} (h : nextFrame buf = none) :
    parseFrames buf = (buf, []) := by
  have hstep : frames.step () buf = none := by
    rw [frames_step, h]
    rfl
  unfold parseFrames
  rw [Chunked.drain_none hstep]

/-- Whole frames are read back, each once, with nothing left over. -/
theorem parseFrames_encode (fs : List Frame) : parseFrames (fs.flatMap Frame.encode) = ([], fs) := by
  induction fs with
  | nil => exact parseFrames_short rfl
  | cons f fs ih => rw [List.flatMap_cons, parseFrames_cons (nextFrame_encode _ _), ih]

/-- A byte stream is its frames and what is left over, too little for another. -/
theorem parseFrames_sound (bs : Bytes) :
    bs = (parseFrames bs).2.flatMap Frame.encode ++ (parseFrames bs).1 ∧
      nextFrame (parseFrames bs).1 = none := by
  induction hk : bs.length using Nat.strong_induction_on generalizing bs with
  | _ k ih =>
    cases h : nextFrame bs with
    | none =>
      rw [parseFrames_short h]
      exact ⟨rfl, h⟩
    | some x =>
      obtain ⟨f, rest⟩ := x
      have hbs := nextFrame_some h
      have hlt : rest.length < k := hk ▸ nextFrame_shrinks h
      obtain ⟨heq, hshort⟩ := ih _ hlt rest rfl
      rw [parseFrames_cons h]
      refine ⟨?_, hshort⟩
      rw [List.flatMap_cons, List.append_assoc, ← heq]
      exact hbs

end RustCrash.AnyTls
