import RustCrash.Error
import RustCrash.Lib.Net
import RustCrash.ZeroTier.Salsa

/-
  Node identities and physical addresses (`proto/zerotier.rs`): the binary forms, the key
  agreement, the signature check and the hashcash of an address.

  Curve25519, Ed25519 and SHA-512 are the crates `curve25519_dalek`, `ring` and `sha2`.
-/

namespace RustCrash.ZeroTier

open Lib Net

/-- The crates. -/
structure Crates where
  sha512 : Bytes → ByteVec 64
  /-- A point, then the scalar it is multiplied by. -/
  mulClamped : ByteVec 32 → ByteVec 32 → ByteVec 32
  /-- Public key, message, signature. -/
  ed25519Verify : ByteVec 32 → Bytes → Bytes → Bool

/-! ## Addresses -/

/-- 5 big-endian bytes → the 40-bit address value. -/
def be40 (bytes : Bytes) : UInt64 := ofBE64 bytes

/-- `address.to_be_bytes()[3..8]`. -/
def be40Bytes (address : UInt64) : Bytes := toBE 5 address.toNat

/-- Zero, or top byte 0xff. -/
def addressIsReserved (address : UInt64) : Bool := address == 0 || address >>> 32 == 0xff

/-! ## Identities -/

def identityGenMemory : Nat := 2 * 1024 * 1024

def identityHashcashThreshold : UInt8 := 17

/-- The CBC-like fill: each block is the block before it under the next key stream. -/
def fillLoop : Nat → SalsaStream → Bytes → Bytes → SalsaStream × Bytes
  | 0, stream, _, filled => (stream, filled)
  | n + 1, stream, prev, filled =>
    let (stream, block) := stream.xor prev
    fillLoop n stream block (filled ++ block)

/-- `slot[at..at + 8] = v`. -/
def put8 (slot : Bytes) (i : Nat) (v : Bytes) : Bytes := slot.take i ++ v ++ slot.drop (i + 8)

/-- The lookup phase: a digest word and a memory word change places, then the digest is
    encrypted again. -/
def lookupLoop : Nat → Nat → SalsaStream → Bytes → Bytes → Bytes
  | 0, _, _, _, digest => digest
  | n + 1, i, stream, genmem, digest =>
    let idx1 := ofBE (slice genmem i 8) % 8 * 8
    let idx2 := ofBE (slice genmem (i + 8) 8) % (identityGenMemory / 8) * 8
    let word := slice genmem idx2 8
    let genmem := put8 genmem idx2 (slice digest idx1 8)
    let (stream, digest) := stream.xor (put8 digest idx1 word)
    lookupLoop n (i + 16) stream genmem digest

/-- The memory-hard hashcash digest an address is derived from. -/
def memoryHardHash (c : Crates) (publicKey : ByteVec 64) : Bytes :=
  let digest := (c.sha512 publicKey.val).val
  let stream := SalsaStream.new (slice digest 0 32) (slice digest 32 8) 20
  let (stream, genmem) :=
    fillLoop (identityGenMemory / 64) stream (List.replicate 64 0) []
  lookupLoop (identityGenMemory / 16) 0 stream genmem digest

/-- A node identity: the 40-bit address, the public key set (X25519 and Ed25519) and perhaps
    the secret set. -/
structure NodeIdentity where
  address : UInt64
  publicKey : ByteVec 64
  secret : Option (ByteVec 64)
  deriving DecidableEq

namespace NodeIdentity

def fromParts (address : UInt64) (publicKey : ByteVec 64) (secret : Option (ByteVec 64)) :
    NodeIdentity := ⟨address, publicKey, secret⟩

/-- `address(5 BE) + type 0 + public(64) + [0 | privlen(64) + priv(64)]`. -/
def serializeBin (id : NodeIdentity) (includePrivate : Bool) : Bytes :=
  be40Bytes id.address ++ 0 :: id.publicKey.val ++
    match includePrivate, id.secret with
    | true, some s => 64 :: s.val
    | _, _ => [0]

/-- The identity and the bytes consumed. -/
def deserializeBin (buf : Bytes) : Result (NodeIdentity × Nat) :=
  if h : buf.length < 71 then .error (.crypto "zerotier: truncated binary identity")
  else
    let address := be40 (slice buf 0 5)
    if addressIsReserved address then .error (.crypto "zerotier: reserved identity address")
    else if buf[5] ≠ 0 then .error (.crypto "zerotier: unknown identity type")
    else
      let publicKey := sliceVec buf 6 64 (by omega)
      if buf[70] = 0 then .ok (⟨address, publicKey, none⟩, 71)
      else if buf[70] = 64 then
        if h : buf.length < 71 + 64 then
          .error (.crypto "zerotier: truncated secret identity")
        else .ok (⟨address, publicKey, some (sliceVec buf 71 64 (by omega))⟩, 71 + 64)
      else .error (.config s!"zerotier: bad private key length {buf[70].toNat}")

/-- Re-run the memory-hard hash, and check the hashcash condition and the address. -/
def locallyValidate (c : Crates) (id : NodeIdentity) : Bool :=
  if addressIsReserved id.address then false
  else
    let digest := memoryHardHash c id.publicKey
    digest.getD 0 0 < identityHashcashThreshold && be40 (slice digest 59 5) == id.address

/-- The 48-byte pairwise key. -/
def agree (c : Crates) (id peer : NodeIdentity) : Result (ByteVec 48) :=
  match id.secret with
  | none => .error (.crypto "zerotier: agreement needs a secret identity")
  | some secret =>
    let sk := sliceVec secret.val 0 32 (by simp)
    let pk := sliceVec peer.publicKey.val 0 32 (by simp)
    .ok (sliceVec (c.sha512 (c.mulClamped pk sk).val).val 0 48 (by simp))

/-- Digest check and Ed25519 verification of `R || s` under the digest. -/
def verify (c : Crates) (id : NodeIdentity) (msg signature : Bytes) : Bool :=
  if signature.length ≠ 96 then false
  else
    let digest := (c.sha512 msg).val
    if signature.drop 64 ≠ digest.take 32 then false
    else
      c.ed25519Verify (sliceVec id.publicKey.val 32 32 (by simp)) (digest.take 32)
        (signature.take 64)

end NodeIdentity

/-- What `deserialize_bin` consumed was there. -/
theorem deserializeBin_used {buf : Bytes} {id : NodeIdentity} {used : Nat}
    (h : NodeIdentity.deserializeBin buf = .ok (id, used)) : 0 < used ∧ used ≤ buf.length := by
  unfold NodeIdentity.deserializeBin at h
  dsimp only at h
  split_ifs at h with h1 h2 h3 h4 h5 h6
  · simp only [Except.ok.injEq, Prod.mk.injEq] at h
    omega
  · simp only [Except.ok.injEq, Prod.mk.injEq] at h
    omega

/-! ## Physical addresses -/

inductive PhysAddr where
  | none
  | v4 (ip : ByteVec 4) (port : UInt16)
  | v6 (ip : ByteVec 16) (port : UInt16)
  deriving DecidableEq

namespace PhysAddr

def serializeInto : PhysAddr → Bytes
  | none => [0]
  | v4 ip port => 0x04 :: (ip.val ++ be16 port)
  | v6 ip port => 0x06 :: (ip.val ++ be16 port)

/-- `buf.get(p..p + n)`. -/
def getVec (buf : Bytes) (p n : Nat) (what : String) : Result (ByteVec n) :=
  if h : p + n ≤ buf.length then .ok (sliceVec buf p n h) else .error (.crypto what)

/-- The address at an offset, and the bytes consumed. -/
def deserializeFrom (buf : Bytes) (start : Nat) : Result (PhysAddr × Nat) :=
  match buf[start]? with
  | Option.none => .error (.crypto "zerotier: truncated physical address")
  | some kind =>
    if kind = 0 then .ok (none, 1)
    else if kind = 0x04 then do
      let ip ← getVec buf (start + 1) 4 "zerotier: truncated IPv4 address"
      let port ← getVec buf (start + 5) 2 "zerotier: truncated physical address"
      return (v4 ip (ofBE16 port.val), 7)
    else if kind = 0x06 then do
      let ip ← getVec buf (start + 1) 16 "zerotier: truncated IPv6 address"
      let port ← getVec buf (start + 17) 2 "zerotier: truncated physical address"
      return (v6 ip (ofBE16 port.val), 19)
    else .error (.crypto s!"zerotier: unknown physical address type {kind.toNat}")

/-- The u16 field read as a port. -/
def toSocketAddr : PhysAddr → Option SocketAddr
  | none => Option.none
  | v4 ip port => some (.v4 (ofOctets4 ip.val) port)
  | v6 ip port => some (.v6 (ofOctets6 ip.val) port 0 0)

end PhysAddr

theorem getVec_eq_ok {buf : Bytes} {p n : Nat} {what : String} {v : ByteVec n}
    (h : PhysAddr.getVec buf p n what = .ok v) : p + n ≤ buf.length := by
  unfold PhysAddr.getVec at h
  split_ifs at h with hle
  exact hle

/-- What `deserialize_from` consumed was there. -/
theorem deserializeFrom_used {buf : Bytes} {start used : Nat} {ep : PhysAddr}
    (h : PhysAddr.deserializeFrom buf start = .ok (ep, used)) :
    0 < used ∧ start + used ≤ buf.length := by
  unfold PhysAddr.deserializeFrom at h
  split at h
  · cases h
  · rename_i kind hk
    have hstart := (List.getElem?_eq_some_iff.mp hk).1
    split_ifs at h with h0 h4 h6
    · simp only [Except.ok.injEq, Prod.mk.injEq] at h
      omega
    · obtain ⟨ip, _, h⟩ := bind_eq_ok.mp h
      obtain ⟨port, hport, h⟩ := bind_eq_ok.mp h
      have := getVec_eq_ok hport
      simp only [pure_eq, Except.ok.injEq, Prod.mk.injEq] at h
      omega
    · obtain ⟨ip, _, h⟩ := bind_eq_ok.mp h
      obtain ⟨port, hport, h⟩ := bind_eq_ok.mp h
      have := getVec_eq_ok hport
      simp only [pure_eq, Except.ok.injEq, Prod.mk.injEq] at h
      omega

end RustCrash.ZeroTier
