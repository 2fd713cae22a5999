import RustCrash.Lib.Net
import RustCrash.Proto.Aead

/-
  The KDF of VMess, which nests HMACs along a path.

  The body of a VMess connection: `BodyCodec` of the client and `VmessBody` of the server, with
  SHAKE128 as the source has it, which masks the lengths and draws the paddings.
-/

namespace RustCrash.Vmess

open Lib Proto

/-! ## Keys -/

/-- A byte string literal. -/
def ascii (s : String) : Bytes := utf8 s.toList

def kdfRoot : Bytes := ascii "VMess AEAD KDF"
def kdfRespLenKey : Bytes := ascii "AEAD Resp Header Len Key"
def kdfRespLenIv : Bytes := ascii "AEAD Resp Header Len IV"
def kdfRespPayloadKey : Bytes := ascii "AEAD Resp Header Key"
def kdfRespPayloadIv : Bytes := ascii "AEAD Resp Header IV"

/-- HMAC over any hash with blocks of 64 bytes. -/
def hmacWithHash (hash : Bytes → ByteVec 32) (key msg : Bytes) : ByteVec 32 :=
  let k :=
    if 64 < key.length then (hash key).val ++ List.replicate 32 0
    else key ++ List.replicate (64 - key.length) 0
  let ih := hash (k.map (0x36 ^^^ ·) ++ msg)
  hash (k.map (0x5c ^^^ ·) ++ ih.val)

section

variable (H : Hashes)

/-- `level`, on the path from its end. -/
def level : List Bytes → Bytes → ByteVec 32
  | [], msg => H.hmacSha256 kdfRoot msg
  | last :: rest, msg => hmacWithHash (level rest) last msg

def vmessKdf (key : Bytes) (paths : List Bytes) : ByteVec 32 := level H paths.reverse key

def kdf16 (key : Bytes) (paths : List Bytes) : ByteVec 16 :=
  ⟨(vmessKdf H key paths).val.take 16, by
    rw [List.length_take, (vmessKdf H key paths).property]
    rfl⟩

def kdf12 (key : Bytes) (paths : List Bytes) : ByteVec 12 :=
  ⟨(vmessKdf H key paths).val.take 12, by
    rw [List.length_take, (vmessKdf H key paths).property]
    rfl⟩

end

/-! ## SHAKE128 -/

def keccakRc : List UInt64 :=
  [0x0000000000000001, 0x0000000000008082, 0x800000000000808a, 0x8000000080008000,
    0x000000000000808b, 0x0000000080000001, 0x8000000080008081, 0x8000000000008009,
    0x000000000000008a, 0x0000000000000088, 0x0000000080008009, 0x000000008000000a,
    0x000000008000808b, 0x800000000000008b, 0x8000000000008089, 0x8000000000008003,
    0x8000000000008002, 0x8000000000000080, 0x000000000000800a, 0x800000008000000a,
    0x8000000080008081, 0x8000000000008080, 0x0000000080000001, 0x8000000080008008]

def keccakRotc : List UInt64 :=
  [1, 3, 6, 10, 15, 21, 28, 36, 45, 55, 2, 14, 27, 41, 56, 8, 25, 43, 62, 18, 39, 61, 20, 44]

def keccakPiln : List Nat :=
  [10, 7, 11, 17, 18, 3, 5, 16, 8, 21, 24, 4, 15, 23, 19, 13, 12, 2, 20, 14, 22, 9, 6, 1]

def rotateLeft (x n : UInt64) : UInt64 := (x <<< n) ||| (x >>> (64 - n))

/-- The 25 lanes. -/
abbrev Lanes := List UInt64

def Lanes.lane (st : Lanes) (i : Nat) : UInt64 := st.getD i 0

def theta (st : Lanes) : Lanes :=
  let bc := (List.range 5).map fun i =>
    st.lane i ^^^ st.lane (i + 5) ^^^ st.lane (i + 10) ^^^ st.lane (i + 15) ^^^ st.lane (i + 20)
  (List.range 25).map fun k =>
    st.lane k ^^^ (Lanes.lane bc ((k % 5 + 4) % 5) ^^^
      rotateLeft (Lanes.lane bc ((k % 5 + 1) % 5)) 1)

def rhoPi (st : Lanes) : Lanes :=
  ((keccakPiln.zip keccakRotc).foldl
    (fun (acc : Lanes × UInt64) (jr : Nat × UInt64) =>
      (acc.1.set jr.1 (rotateLeft acc.2 jr.2), acc.1.lane jr.1))
    (st, st.lane 1)).1

def chi (st : Lanes) : Lanes :=
  (List.range 25).map fun k =>
    let j := k - k % 5
    st.lane k ^^^ (~~~st.lane (j + (k % 5 + 1) % 5) &&& st.lane (j + (k % 5 + 2) % 5))

def iota (rc : UInt64) (st : Lanes) : Lanes := st.set 0 (st.lane 0 ^^^ rc)

def keccakF (st : Lanes) : Lanes :=
  keccakRc.foldl (fun st rc => iota rc (chi (rhoPi (theta st)))) st

structure Shake128 where
  st : Lanes
  out : Bytes
  /-- The bytes of `out` that are used up. -/
  pos : Nat

namespace Shake128

/-- The seed is absorbed in one block. -/
def new (seed : ByteVec 16) : Shake128 :=
  let block := seed.val ++ [0x1f] ++ List.replicate 150 0 ++ [0x80]
  { st := (List.range 25).map fun lane => if lane < 21 then ofLE64 (slice block (8 * lane) 8) else 0
    out := List.replicate 168 0
    pos := 168 }

def nextU16 (s : Shake128) : Shake128 × UInt16 :=
  let s :=
    if 168 < s.pos + 2 then
      let st := keccakF s.st
      { st, out := (st.take 21).flatMap le64, pos := 0 }
    else s
  ({ s with pos := s.pos + 2 }, ofBE16 (slice s.out s.pos 2))

end Shake128

/-! ## The framing of the chunks -/

inductive ChunkFraming where
  | plain
  | mask (s : Shake128)
  | pad (s : Shake128)
  /-- One stream: the padding first. -/
  | maskPad (s : Shake128)

namespace ChunkFraming

def optChunkStream : UInt8 := 0x01
def optChunkMasking : UInt8 := 0x04
def optGlobalPadding : UInt8 := 0x08

def fromOpt (opt : UInt8) (iv : ByteVec 16) : ChunkFraming :=
  if opt &&& optChunkMasking ≠ 0 then
    if opt &&& optGlobalPadding ≠ 0 then .maskPad (.new iv) else .mask (.new iv)
  else if opt &&& optGlobalPadding ≠ 0 then .pad (.new iv)
  else .plain

/-- The mask and the length of the padding of the next chunk. -/
def next : ChunkFraming → ChunkFraming × UInt16 × Nat
  | plain => (.plain, 0, 0)
  | mask s =>
    let (s, m) := s.nextU16
    (.mask s, m, 0)
  | pad s =>
    let (s, p) := s.nextU16
    (.pad s, 0, p.toNat % 64)
  | maskPad s =>
    let (s, p) := s.nextU16
    let (s, m) := s.nextU16
    (.maskPad s, m, p.toNat % 64)

end ChunkFraming

/-! ## The codecs -/

/-- `ChunkNonce` and `VmessNonce`: the nonce that `advance` gives for a count. -/
def chunkNonce (iv : ByteVec 16) (count : UInt16) : ByteVec 12 :=
  ⟨be16 count ++ slice iv.val 2 10, by
    rw [List.length_append, length_be16, length_slice (by rw [iv.property]; decide)]⟩

def secAes128Gcm : UInt8 := 0x03
def secChacha20Poly1305 : UInt8 := 0x04

/-- `{:#x}`. -/
def hexByte (b : UInt8) : String := txt ('0' :: 'x' :: Net.hex b.toNat)

variable (H : Hashes)

def aesAead (key : ByteVec 16) : Aead := ⟨.aes128Gcm, key.val, key.property⟩

/-- The key is the MD5 of the given one, and the MD5 of that. -/
def chachaAead (key : ByteVec 16) : Aead :=
  ⟨.chacha20Poly1305, (H.md5 key.val).val ++ (H.md5 (H.md5 key.val).val).val, by
    rw [List.length_append, (H.md5 _).property, (H.md5 _).property]
    rfl⟩

structure BodyCodec where
  /-- Nothing for the security `none`. -/
  kind : Option Aead
  baseIv : ByteVec 16
  count : UInt16

namespace BodyCodec

/-- After a block. -/
def past (c : BodyCodec) : BodyCodec := { c with count := c.count + 1 }

def nonce (c : BodyCodec) : ByteVec 12 := chunkNonce c.baseIv c.count

/-- The length counts the tag. -/
def sealChunk (c : BodyCodec) (plain : Bytes) : Result (BodyCodec × Bytes) :=
  match c.kind with
  | Option.none =>
    if 65535 < plain.length then .error (.protocol "vmess chunk exceeds 65535 bytes")
    else .ok (c, be16 (UInt16.ofNat plain.length) ++ plain)
  | some aead =>
    if 65535 < plain.length + 16 then .error (.protocol "vmess chunk exceeds 65535 bytes")
    else do
      let ct ← aead.sealed c.nonce [] plain
      return (c.past, be16 (UInt16.ofNat (plain.length + 16)) ++ ct)

end BodyCodec

structure VmessBody where
  aead : Aead
  baseIv : ByteVec 16
  count : UInt16
  framing : ChunkFraming

namespace VmessBody

def new (security : UInt8) (key iv : ByteVec 16) (opt : UInt8) : Result VmessBody :=
  if security = secAes128Gcm then .ok ⟨aesAead key, iv, 0, .fromOpt opt iv⟩
  else if security = secChacha20Poly1305 then .ok ⟨chachaAead H key, iv, 0, .fromOpt opt iv⟩
  else .error (.protocol s!"vmess: unsupported security {hexByte security}")

def past (b : VmessBody) : VmessBody := { b with count := b.count + 1 }

def nonce (b : VmessBody) : ByteVec 12 := chunkNonce b.baseIv b.count

/-- `fill` is what the system's generator draws. The framing moves on, also for a plaintext that
    is too long. -/
def sealChunk (b : VmessBody) (fill : (n : Nat) → ByteVec n) (plain : Bytes) :
    VmessBody × Result Bytes :=
  let (framing, mask, pad) := b.framing.next
  let b := { b with framing }
  if 65535 < plain.length + (tagSize + pad) then
    (b, .error (.protocol "vmess chunk exceeds 65535 bytes"))
  else
    (b.past, do
      let ct ← b.aead.sealed b.nonce [] plain
      return be16 (UInt16.ofNat (plain.length + (tagSize + pad)) ^^^ mask) ++ ct ++ (fill pad).val)

end VmessBody

end RustCrash.Vmess
