import RustCrash.Lib.Staged
import RustCrash.Proto.Aead

/-
  The two framings of Snell: v1 to v3 with a sealed length in front of each chunk, and v4 with a
  sealed header, a ramp of frame sizes and padding on the first frame.

  A `Writer` and a `Reader` are the two halves of a `Conn`. `framing` is the staged parser
  `try_parse`, which opens a block only when all of it is in the buffer.
-/

namespace RustCrash.Snell

open Lib Proto

def maxLength : Nat := 0x3FFF
def v3Chunk : Nat := maxLength
def v4HeaderPlain : Nat := 7
def v4HeaderCipher : Nat := v4HeaderPlain + tagSize
def v4FrameSize : Int := 1460
def v4InitialPaddingMin : UInt16 := 0x100
/-- In nanoseconds. -/
def v4IdleReset : Nat := 30 * 10 ^ 9

/-- What a reader finds. -/
inductive Event where
  | payload (bs : Bytes)
  /-- A zero chunk: the peer's half-close. -/
  | zero
  deriving DecidableEq

section Kdf

-- `argon2id::hash` of a PSK and a salt, with the parameters of snell
variable (argon2id : Bytes → Bytes → ByteVec 32)

def snellKdf (psk salt : Bytes) (keySize : Nat) : Result Bytes := do
  let full := argon2id psk salt
  ensure (¬ full.val.length < keySize) (.crypto "snell: argon2 tag shorter than key")
  return full.val.take keySize

def snellAead (kind : AeadKind) (psk salt : Bytes) : Result Aead := do
  let key ← snellKdf argon2id psk salt kind.keyLen
  Aead.new kind key

theorem snellAead_ok (kind : AeadKind) (psk salt : Bytes) :
    ∃ a, snellAead argon2id kind psk salt = .ok a := by
  have hsize : kind.keyLen ≤ 32 := by cases kind <;> decide
  have hfull : ¬ (argon2id psk salt).val.length < kind.keyLen := by
    rw [ByteVec.length_val]
    omega
  have hkey : ((argon2id psk salt).val.take kind.keyLen).length = kind.keyLen := by
    rw [List.length_take, ByteVec.length_val]
    omega
  refine ⟨⟨kind, _, hkey⟩, ?_⟩
  unfold snellAead snellKdf
  dsimp only
  rw [ensure_of hfull]
  exact Aead.new_eq_ok hkey

end Kdf

/-! ## v3 writes -/

/-- The writing half of `V3Conn`. -/
structure V3Writer where
  psk : Bytes
  kind : AeadKind
  writer : Option SsCrypto

/-- A sealed length and the sealed chunk. -/
def frameChunk (w : SsCrypto) (chunk : Bytes) : Result (SsCrypto × Bytes) := do
  let len ← w.sealNext (be16 (UInt16.ofNat chunk.length))
  let body ← len.1.sealNext chunk
  return (body.1, len.2 ++ body.2)

/-- `for chunk in payload.chunks(V3_CHUNK)`; each takes a byte at least. -/
def frameChunks : Nat → SsCrypto → Bytes → Result (SsCrypto × Bytes)
  | 0, w, _ => .ok (w, [])
  | n + 1, w, payload =>
    if payload = [] then .ok (w, [])
    else do
      let head ← frameChunk w (payload.take v3Chunk)
      let rest ← frameChunks n head.1 (payload.drop v3Chunk)
      return (rest.1, head.2 ++ rest.2)

namespace V3Writer

variable (argon2id : Bytes → Bytes → ByteVec 32)

/-- The crypto of the direction, and the salt that goes out when it is made. -/
def start (w : V3Writer) (salt : ByteVec 16) : Result (SsCrypto × Bytes) :=
  match w.writer with
  | some c => .ok (c, [])
  | none => do
    let aead ← snellAead argon2id w.kind w.psk salt.val
    return (SsCrypto.new aead, salt.val)

/-- After the salt. An empty payload is a sealed length of zero and nothing else. -/
def frameWith (c : SsCrypto) (payload : Bytes) : Result (SsCrypto × Bytes) :=
  if payload = [] then c.sealNext (be16 0) else frameChunks payload.length c payload

def frame (w : V3Writer) (salt : ByteVec 16) (payload : Bytes) : Result (V3Writer × Bytes) := do
  let s ← w.start argon2id salt
  let r ← frameWith s.1 payload
  return ({ w with writer := some r.1 }, s.2 ++ r.2)

end V3Writer

/-! ## v4 writes -/

/-- Swaps every other byte, starting with this one or with the next. -/
def swapFrom : Bool → Bytes → Bytes → Bytes × Bytes
  | _, [], ct => ([], ct)
  | _, padding, [] => (padding, [])
  | true, a :: padding, b :: ct =>
    let r := swapFrom false padding ct
    (b :: r.1, a :: r.2)
  | false, a :: padding, b :: ct =>
    let r := swapFrom true padding ct
    (a :: r.1, b :: r.2)

def swapPadding (padding ct : Bytes) : Bytes × Bytes := swapFrom true padding ct

/-- What a write finds around it: the clock and the padding that comes out. -/
structure Draw where
  now : Nat
  padding : Nat → UInt8

/-- `make_v4_padding` balances the ones of the frame or draws at random; any bytes may come. -/
def makeV4Padding (d : Draw) (len : Nat) : Bytes := (List.range len).map d.padding

/-- `V4Writer`. -/
structure V4Writer where
  crypto : SsCrypto
  salt : ByteVec 16
  saltSent : Bool
  initialPaddingLength : UInt16
  payloadLimit : UInt16
  lastWrite : Option Nat

/-- The plaintext of a frame header. -/
def v4Header (paddingLen payloadLen : Nat) : Bytes :=
  [4, 0, 0] ++ be16 (UInt16.ofNat paddingLen) ++ be16 (UInt16.ofNat payloadLen)

namespace V4Writer

def new (argon2id : Bytes → Bytes → ByteVec 32) (psk : Bytes) (salt : ByteVec 16)
    (delta : Fin 0x100) : Result V4Writer := do
  let aead ← snellAead argon2id .aes128Gcm psk salt.val
  return ⟨SsCrypto.new aead, salt, false, v4InitialPaddingMin + UInt16.ofNat delta.val, 0, none⟩

def limitNow (w : V4Writer) (now : Nat) : Int :=
  match w.lastWrite with
  | none => v4FrameSize - 55 - w.initialPaddingLength.toNat
  | some last =>
    if v4IdleReset < now - last then v4FrameSize - 39 else w.payloadLimit.toNat

/-- The limit of the frame after one of `limit` bytes. -/
def rampFrom (limit : Int) : UInt16 :=
  if limit < maxLength then UInt16.ofInt (min (limit + v4FrameSize - 39) maxLength)
  else UInt16.ofNat maxLength

def nextPayloadLimit (w : V4Writer) (now : Nat) : V4Writer × Int :=
  ({ w with lastWrite := some now, payloadLimit := rampFrom (w.limitNow now) }, w.limitNow now)

def nextFramePaddingLength (w : V4Writer) (payloadLen : Nat) : Nat :=
  if w.saltSent ∨ payloadLen = 0 then 0 else w.initialPaddingLength.toNat

/-- The ciphertext of a payload; an empty one has none. -/
def sealPayload (c : SsCrypto) (payload : Bytes) : Result (SsCrypto × Bytes) :=
  if payload = [] then .ok (c, []) else c.sealNext payload

def writeFrame (w : V4Writer) (d : Draw) (payload : Bytes) (paddingLen : Nat) :
    Result (V4Writer × Bytes) := do
  ensure (¬ (maxLength < payload.length ∨ maxLength < paddingLen))
    (.protocol "snell v4: frame too large")
  ensure (¬ (payload = [] ∧ paddingLen ≠ 0)) (.protocol "snell v4: zero chunk with padding")
  let header ← w.crypto.sealNext (v4Header paddingLen payload.length)
  let body ← sealPayload header.1 payload
  let padded :=
    if 0 < paddingLen then swapPadding (makeV4Padding d paddingLen) body.2 else ([], body.2)
  let salt := if w.saltSent then [] else w.salt.val
  return ({ w with crypto := body.1, saltSent := true },
    salt ++ (header.2 ++ (padded.1 ++ padded.2)))

/-- The bytes of the next frame at most. -/
def clampLimit (limit : Int) : Nat :=
  if limit ≤ 0 ∨ maxLength < limit then maxLength else limit.toNat

/-- `while written < payload.len()`; each frame takes a byte at least. -/
def frameFor (draws : Nat → Draw) : Nat → Nat → V4Writer → Bytes → Result (V4Writer × Bytes)
  | 0, _, w, _ => .ok (w, [])
  | n + 1, i, w, payload =>
    if payload = [] then .ok (w, [])
    else do
      let limit := clampLimit (w.limitNow (draws i).now)
      let w := (w.nextPayloadLimit (draws i).now).1
      let piece := payload.take limit
      let head ← w.writeFrame (draws i) piece (w.nextFramePaddingLength piece.length)
      let rest ← frameFor draws n (i + 1) head.1 (payload.drop limit)
      return (rest.1, head.2 ++ rest.2)

def frame (w : V4Writer) (draws : Nat → Draw) (payload : Bytes) : Result (V4Writer × Bytes) :=
  if payload = [] then w.writeFrame (draws 0) [] 0
  else frameFor draws payload.length 0 w payload

end V4Writer

/-! ## Reads -/

inductive V3Stage where
  | len
  | payload (size : Nat)
  deriving DecidableEq

inductive V4Stage where
  | header
  /-- The lengths of padding and payload from a header. -/
  | body (paddingLen payloadLen : Nat)
  deriving DecidableEq

/-- The reading half of `V3Conn`. -/
structure V3Reader where
  psk : Bytes
  kind : AeadKind
  reader : Option SsCrypto
  stage : V3Stage

/-- The reading half of `V4Conn`. -/
structure V4Reader where
  psk : Bytes
  reader : Option SsCrypto
  stage : V4Stage

abbrev Step (S : Type) := Taken S Event Error

namespace V3Reader

variable (argon2id : Bytes → Bytes → ByteVec 32)

def need (r : V3Reader) : Nat :=
  match r.reader with
  | none => 16
  | some _ =>
    match r.stage with
    | .len => 2 + tagSize
    | .payload size => size + tagSize

/-- The salt. -/
def takeSalt (r : V3Reader) (piece : Bytes) : Step V3Reader :=
  match snellAead argon2id r.kind r.psk piece with
  | .error e => .failed r false e
  | .ok aead => .ok { r with reader := some (SsCrypto.new aead), stage := .len } []

def takeLen (r : V3Reader) (c : SsCrypto) (piece : Bytes) : Step V3Reader :=
  let r := { r with reader := some (c.openNext piece).1 }
  match (c.openNext piece).2 with
  | .error e => .failed r true e
  | .ok pt =>
    let size := (ofBE16 pt).toNat &&& maxLength
    if size = 0 then .ok { r with stage := .len } [.zero]
    else .ok { r with stage := .payload size } []

def takePayload (r : V3Reader) (c : SsCrypto) (piece : Bytes) : Step V3Reader :=
  let r := { r with reader := some (c.openNext piece).1 }
  match (c.openNext piece).2 with
  | .error e => .failed r false e
  | .ok payload => .ok { r with stage := .len } [.payload payload]

/-- One round of `try_parse`. -/
def step (r : V3Reader) (piece : Bytes) : Step V3Reader :=
  match r.reader with
  | none => r.takeSalt argon2id piece
  | some c =>
    match r.stage with
    | .len => r.takeLen c piece
    | .payload _ => r.takePayload c piece

end V3Reader

namespace V4Reader

variable (argon2id : Bytes → Bytes → ByteVec 32)

def need (r : V4Reader) : Nat :=
  match r.reader with
  | none => 16
  | some _ =>
    match r.stage with
    | .header => v4HeaderCipher
    | .body paddingLen payloadLen => paddingLen + payloadLen + tagSize

def takeSalt (r : V4Reader) (piece : Bytes) : Step V4Reader :=
  match snellAead argon2id .aes128Gcm r.psk piece with
  | .error e => .failed r false e
  | .ok aead => .ok { r with reader := some (SsCrypto.new aead), stage := .header } []

def takeHeader (r : V4Reader) (c : SsCrypto) (piece : Bytes) : Step V4Reader :=
  let r := { r with reader := some (c.openNext piece).1 }
  match (c.openNext piece).2 with
  | .error e => .failed r true e
  | .ok header =>
    let paddingLen := (ofBE16 (slice header 3 2)).toNat
    let payloadLen := (ofBE16 (slice header 5 2)).toNat
    if header.length ≠ v4HeaderPlain ∨ header.getD 0 0 ≠ 4 then
      .failed r true (.protocol "snell v4: invalid frame header")
    else if payloadLen = 0 then
      if paddingLen ≠ 0 then .failed r true (.protocol "snell v4: zero chunk with padding")
      else .ok { r with stage := .header } [.zero]
    else if maxLength < payloadLen ∨ maxLength < paddingLen then
      .failed r true (.protocol "snell v4: frame too large")
    else .ok { r with stage := .body paddingLen payloadLen } []

def takeBody (r : V4Reader) (c : SsCrypto) (paddingLen : Nat) (piece : Bytes) : Step V4Reader :=
  let ct :=
    if 0 < paddingLen then (swapPadding (piece.take paddingLen) (piece.drop paddingLen)).2
    else piece.drop paddingLen
  let r := { r with reader := some (c.openNext ct).1 }
  match (c.openNext ct).2 with
  | .error e => .failed r false e
  | .ok payload => .ok { r with stage := .header } [.payload payload]

def step (r : V4Reader) (piece : Bytes) : Step V4Reader :=
  match r.reader with
  | none => r.takeSalt argon2id piece
  | some c =>
    match r.stage with
    | .header => r.takeHeader c piece
    | .body paddingLen _ => r.takeBody c paddingLen piece

end V4Reader

/-! ## Either framing -/

inductive Writer where
  | v3 (w : V3Writer)
  | v4 (w : V4Writer)

inductive Reader where
  | v3 (r : V3Reader)
  | v4 (r : V4Reader)

/-- What the calls of a writer draw: the salt, and the clock and padding of each frame. -/
structure Draws where
  salt : ByteVec 16
  frames : Nat → Draw

section Framing

variable (argon2id : Bytes → Bytes → ByteVec 32)

def Writer.frame (d : Draws) (payload : Bytes) : Writer → Result (Writer × Bytes)
  | v3 w => do
    let r ← w.frame argon2id d.salt payload
    return (v3 r.1, r.2)
  | v4 w => do
    let r ← w.frame d.frames payload
    return (v4 r.1, r.2)

/-- One datagram as one frame: v4 leaves the ramp alone. -/
def Writer.framePacket (d : Draws) (packet : Bytes) : Writer → Result (Writer × Bytes)
  | v3 w => do
    let r ← w.frame argon2id d.salt packet
    return (v3 r.1, r.2)
  | v4 w => do
    let r ← w.writeFrame (d.frames 0) packet (w.nextFramePaddingLength packet.length)
    return (v4 r.1, r.2)

def Reader.need : Reader → Nat
  | v3 r => r.need
  | v4 r => r.need

theorem Reader.need_pos (r : Reader) : 0 < r.need := by
  have htag : tagSize = 16 := rfl
  cases r with
  | v3 r =>
    rcases r with ⟨_, _, _ | c, _ | size⟩
    · exact (by decide : 0 < 16)
    · exact (by decide : 0 < 16)
    · exact (by decide : 0 < 2 + tagSize)
    · show 0 < size + tagSize
      omega
  | v4 r =>
    rcases r with ⟨_, _ | c, _ | ⟨paddingLen, payloadLen⟩⟩
    · exact (by decide : 0 < 16)
    · exact (by decide : 0 < 16)
    · exact (by decide : 0 < v4HeaderCipher)
    · show 0 < paddingLen + payloadLen + tagSize
      omega

/-- `try_parse` stops at an event. -/
def framing : Staged Reader Event Error where
  need r := some r.need
  step
    | .v3 r, piece => (r.step argon2id piece).map .v3
    | .v4 r, piece => (r.step argon2id piece).map .v4
  moves := by
    intro s t piece out hs _
    have hpos := s.need_pos
    rw [Option.some.injEq] at hs
    omega

theorem framing_rests (r : Reader) : (framing argon2id).Rests r := by
  intro h
  have hpos := r.need_pos
  rw [show (framing argon2id).need r = some r.need from rfl, Option.some.injEq] at h
  omega

end Framing

end RustCrash.Snell
