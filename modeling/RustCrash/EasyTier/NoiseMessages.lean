import RustCrash.EasyTier.SessionStore
import RustCrash.Lib.Varint

/-
  `proto/easytier.rs`: the protobuf messages that cross inside the three Noise messages, as far as
  the responder reads and writes them.

  A reader is the bytes that are left. The loop over the fields ends with the bytes, and every field
  takes at least the byte of its tag, so as many rounds as there are bytes are enough.
-/

namespace RustCrash.EasyTier

open Lib Proto

/-! ## The wire format -/

def protoPutVarintLoop : (budget : Nat) → UInt64 → Bytes
  | 0, _ => []
  | budget + 1, value =>
    let byte := (value &&& 0x7f).toUInt8
    let value := value >>> 7
    if value = 0 then [byte] else (byte ||| 0x80) :: protoPutVarintLoop budget value

/-- Ten groups of seven bits hold any `u64`. -/
def protoPutVarint (value : UInt64) : Bytes := protoPutVarintLoop 10 value

def protoPutU32Field (field value : UInt32) : Bytes :=
  protoPutVarint (field <<< 3).toUInt64 ++ protoPutVarint value.toUInt64

def protoPutLenField (field : UInt32) (bytes : Bytes) : Bytes :=
  protoPutVarint (field <<< 3 ||| 2).toUInt64 ++ protoPutVarint (.ofNat bytes.length) ++ bytes

def protoPutMessageField (field : UInt32) (body : Bytes) : Bytes := protoPutLenField field body

namespace ProtoReader

/-- Ten bytes that all say that there is more are an overflow. -/
def varint (buf : Bytes) : Result (UInt64 × Bytes) :=
  match uvarint buf with
  | some r => .ok r
  | none =>
    if buf.length < 10 then .error (.protocol "easytier: truncated protobuf varint")
    else .error (.protocol "easytier: protobuf varint overflow")

def lenBytes (buf : Bytes) : Result (Bytes × Bytes) := do
  let (len, buf) ← varint buf
  ensure (len.toNat ≤ buf.length) (.protocol "easytier: truncated protobuf field")
  .ok (buf.take len.toNat, buf.drop len.toNat)

def skip (wireType : UInt64) (buf : Bytes) : Result Bytes := do
  if wireType = 0 then
    let (_, buf) ← varint buf
    .ok buf
  else if wireType = 1 then
    ensure (8 ≤ buf.length) (.protocol "easytier: truncated fixed64")
    .ok (buf.drop 8)
  else if wireType = 2 then
    let (_, buf) ← lenBytes buf
    .ok buf
  else if wireType = 5 then
    ensure (4 ≤ buf.length) (.protocol "easytier: truncated fixed32")
    .ok (buf.drop 4)
  else .error (.protocol "easytier: unknown protobuf wire type")

end ProtoReader

open ProtoReader

/-- What a decoder does with one field: its number, its wire type and the bytes behind its tag. -/
abbrev FieldStep (M : Type) := UInt32 → UInt64 → Bytes → M → Result (M × Bytes)

/-- `while reader.pos < buf.len()`. -/
def fieldLoop {M : Type} (step : FieldStep M) : (rounds : Nat) → Bytes → M → Result M
  | 0, _, msg => .ok msg
  | rounds + 1, buf, msg =>
    if buf = [] then .ok msg
    else do
      let (tag, buf) ← varint buf
      let (msg, buf) ← step (tag >>> 3).toUInt32 (tag &&& 7) buf msg
      fieldLoop step rounds buf msg

def decodeFields {M : Type} (step : FieldStep M) (msg : M) (buf : Bytes) : Result M :=
  fieldLoop step buf.length buf msg

/-- Read what a field holds and put it into the message. -/
def put {M A : Type} (r : Result (A × Bytes)) (set : A → M) : Result (M × Bytes) := do
  let (a, buf) ← r
  .ok (set a, buf)

/-- A field that the decoder does not know. -/
def pass {M : Type} (wireType : UInt64) (buf : Bytes) (msg : M) : Result (M × Bytes) := do
  let buf ← skip wireType buf
  .ok (msg, buf)

/-! ## The messages -/

/-- A UUID as `common.UUID` carries it, the 128 bits in four parts. -/
structure Uuid where
  part1 : UInt32
  part2 : UInt32
  part3 : UInt32
  part4 : UInt32
  deriving DecidableEq

namespace Uuid

/-- `default`. -/
def nil : Uuid := ⟨0, 0, 0, 0⟩

def protoEncode (id : Uuid) : Bytes :=
  protoPutU32Field 1 id.part1 ++ protoPutU32Field 2 id.part2 ++ protoPutU32Field 3 id.part3 ++
    protoPutU32Field 4 id.part4

def decodeField : FieldStep Uuid := fun field wireType buf id =>
  if field = 1 ∧ wireType = 0 then put (varint buf) fun v => { id with part1 := v.toUInt32 }
  else if field = 2 ∧ wireType = 0 then put (varint buf) fun v => { id with part2 := v.toUInt32 }
  else if field = 3 ∧ wireType = 0 then put (varint buf) fun v => { id with part3 := v.toUInt32 }
  else if field = 4 ∧ wireType = 0 then put (varint buf) fun v => { id with part4 := v.toUInt32 }
  else pass wireType buf id

def protoDecode (buf : Bytes) : Result Uuid := decodeFields decodeField nil buf

/-- A nested UUID message. -/
def field (buf : Bytes) : Result (Uuid × Bytes) := do
  let (body, buf) ← lenBytes buf
  let id ← protoDecode body
  .ok (id, buf)

end Uuid

structure NoiseMsg1 where
  version : UInt32
  aNetworkName : Str
  aSessionGeneration : Option UInt32
  aConnId : Uuid
  clientEncryptionAlgorithm : Str
  deriving DecidableEq

namespace NoiseMsg1

def empty : NoiseMsg1 := ⟨0, [], none, .nil, []⟩

def decodeField : FieldStep NoiseMsg1 := fun field wireType buf msg =>
  if field = 1 ∧ wireType = 0 then
    put (varint buf) fun v => { msg with version := v.toUInt32 }
  else if field = 2 ∧ wireType = 2 then
    put (lenBytes buf) fun bytes => { msg with aNetworkName := fromUtf8Lossy bytes }
  else if field = 3 ∧ wireType = 0 then
    put (varint buf) fun v => { msg with aSessionGeneration := some v.toUInt32 }
  else if field = 4 ∧ wireType = 2 then
    put (Uuid.field buf) fun id => { msg with aConnId := id }
  else if field = 5 ∧ wireType = 2 then
    put (lenBytes buf) fun bytes => { msg with clientEncryptionAlgorithm := fromUtf8Lossy bytes }
  else pass wireType buf msg

def decode (buf : Bytes) : Result NoiseMsg1 := decodeFields decodeField empty buf

end NoiseMsg1

/-- `to_wire`. -/
def PeerConnSessionAction.toWire : PeerConnSessionAction → UInt32
  | .join => 0
  | .sync => 1
  | .create => 2

structure NoiseMsg2 where
  bNetworkName : Str
  roleHint : UInt32
  action : PeerConnSessionAction
  bSessionGeneration : UInt32
  rootKey32 : Option (ByteVec 32)
  initialEpoch : UInt32
  bConnId : Uuid
  aConnIdEcho : Option Uuid
  secretProof32 : Option Bytes
  serverEncryptionAlgorithm : Str
  deriving DecidableEq

namespace NoiseMsg2

/-- A field that is there or is left out. -/
def optional {A : Type} (value : Option A) (field : A → Bytes) : Bytes := (value.map field).getD []

def encode (msg : NoiseMsg2) : Bytes :=
  protoPutLenField 1 (utf8 msg.bNetworkName) ++
  protoPutU32Field 2 msg.roleHint ++
  protoPutU32Field 3 msg.action.toWire ++
  protoPutU32Field 4 msg.bSessionGeneration ++
  optional msg.rootKey32 (fun root => protoPutLenField 5 root.val) ++
  protoPutU32Field 6 msg.initialEpoch ++
  protoPutMessageField 7 msg.bConnId.protoEncode ++
  optional msg.aConnIdEcho (fun echo => protoPutMessageField 8 echo.protoEncode) ++
  optional msg.secretProof32 (fun proof => protoPutLenField 9 proof) ++
  protoPutLenField 10 (utf8 msg.serverEncryptionAlgorithm)

end NoiseMsg2

structure NoiseMsg3 where
  aConnIdEcho : Uuid
  bConnIdEcho : Uuid
  secretProof32 : Option Bytes
  secretDigest : Bytes
  deriving DecidableEq

namespace NoiseMsg3

def empty : NoiseMsg3 := ⟨.nil, .nil, none, []⟩

def decodeField : FieldStep NoiseMsg3 := fun field wireType buf msg =>
  if field = 1 ∧ wireType = 2 then
    put (Uuid.field buf) fun id => { msg with aConnIdEcho := id }
  else if field = 2 ∧ wireType = 2 then
    put (Uuid.field buf) fun id => { msg with bConnIdEcho := id }
  else if field = 3 ∧ wireType = 2 then
    put (lenBytes buf) fun bytes => { msg with secretProof32 := some bytes }
  else if field = 4 ∧ wireType = 2 then
    put (lenBytes buf) fun bytes => { msg with secretDigest := bytes }
  else pass wireType buf msg

def decode (buf : Bytes) : Result NoiseMsg3 := decodeFields decodeField empty buf

end NoiseMsg3

/-! ## The loop ends with the bytes -/

section

variable {M A : Type} {buf : Bytes}

end

/-! ## How long message 2 is -/

theorem length_protoPutVarintLoop (budget : Nat) (value : UInt64) :
    (protoPutVarintLoop budget value).length ≤ budget := by
  induction budget generalizing value with
  | zero => exact Nat.le_refl 0
  | succ budget ih =>
    unfold protoPutVarintLoop
    dsimp only
    split_ifs
    · exact Nat.succ_le_succ (Nat.zero_le budget)
    · exact Nat.succ_le_succ (ih _)

theorem length_protoPutVarint (value : UInt64) : (protoPutVarint value).length ≤ 10 :=
  length_protoPutVarintLoop 10 value

theorem length_protoPutU32Field (field value : UInt32) :
    (protoPutU32Field field value).length ≤ 20 := by
  have htag := length_protoPutVarint (field <<< 3).toUInt64
  have hvalue := length_protoPutVarint value.toUInt64
  unfold protoPutU32Field
  rw [List.length_append]
  omega

theorem length_protoPutLenField (field : UInt32) (bytes : Bytes) :
    (protoPutLenField field bytes).length ≤ 20 + bytes.length := by
  have htag := length_protoPutVarint (field <<< 3 ||| 2).toUInt64
  have hlen := length_protoPutVarint (.ofNat bytes.length)
  unfold protoPutLenField
  rw [List.length_append, List.length_append]
  omega

theorem Uuid.length_protoEncode (id : Uuid) : id.protoEncode.length ≤ 80 := by
  have h1 := length_protoPutU32Field 1 id.part1
  have h2 := length_protoPutU32Field 2 id.part2
  have h3 := length_protoPutU32Field 3 id.part3
  have h4 := length_protoPutU32Field 4 id.part4
  unfold protoEncode
  simp only [List.length_append]
  omega

theorem NoiseMsg2.length_optional {A : Type} {value : Option A} {field : A → Bytes} {n : Nat}
    (h : ∀ a, value = some a → (field a).length ≤ n) : (optional value field).length ≤ n := by
  unfold optional
  cases value with
  | none => exact Nat.zero_le n
  | some a => exact h a rfl

/-- Beside the two names there is little in the message. -/
theorem NoiseMsg2.length_encode (msg : NoiseMsg2)
    (hproof : ∀ proof, msg.secretProof32 = some proof → proof.length = 32) :
    msg.encode.length ≤
      500 + (utf8 msg.bNetworkName).length + (utf8 msg.serverEncryptionAlgorithm).length := by
  have h1 := length_protoPutLenField 1 (utf8 msg.bNetworkName)
  have h2 := length_protoPutU32Field 2 msg.roleHint
  have h3 := length_protoPutU32Field 3 msg.action.toWire
  have h4 := length_protoPutU32Field 4 msg.bSessionGeneration
  have h5 : (optional msg.rootKey32 (fun root => protoPutLenField 5 root.val)).length ≤ 52 := by
    apply length_optional
    intro root _
    have hlen := length_protoPutLenField 5 root.val
    rw [ByteVec.length_val] at hlen
    exact hlen
  have h6 := length_protoPutU32Field 6 msg.initialEpoch
  have h7 := length_protoPutLenField 7 msg.bConnId.protoEncode
  have hid := msg.bConnId.length_protoEncode
  have h8 : (optional msg.aConnIdEcho
      (fun echo => protoPutMessageField 8 echo.protoEncode)).length ≤ 100 := by
    apply length_optional
    intro echo _
    have hlen := length_protoPutLenField 8 echo.protoEncode
    have hecho := echo.length_protoEncode
    unfold protoPutMessageField
    omega
  have h9 : (optional msg.secretProof32 (fun proof => protoPutLenField 9 proof)).length ≤ 52 := by
    apply length_optional
    intro proof hsome
    have hlen := length_protoPutLenField 9 proof
    have h32 := hproof proof hsome
    omega
  have h10 := length_protoPutLenField 10 (utf8 msg.serverEncryptionAlgorithm)
  unfold encode protoPutMessageField at *
  simp only [List.length_append]
  omega

end RustCrash.EasyTier
