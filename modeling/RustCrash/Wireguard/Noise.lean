import RustCrash.Error
import RustCrash.Lib.ByteVec

/-
  The Noise_IKpsk2 handshake of `proto/wireguard.rs`: the messages and their codec, the
  initiator's side (`buildInitiation`, `consumeResponse`) and the responder's
  (`openInitiation`, `respondInitiation`), and the cookie reply.

  The curve, the two AEADs and base64 are other crates: `Crates` is what the code calls of
  them. What the code draws at random or reads from the clock is an argument.
-/

/-! ## BLAKE2s

The hand-rolled BLAKE2s-256 of `proto/wireguard.rs`, and what the handshake builds on it:
HMAC, the chain `kdf1`, `kdf2`, `kdf3`, the transport keys and the MAC keys.

The words of the state and of the work vector carry their number in the type, and so do
the digests. The handshake proofs use none of the values. -/

namespace RustCrash.Wireguard

open Lib

/-! ## Compression -/

def blake2sIv : Vector UInt32 8 :=
  #v[0x6a09e667, 0xbb67ae85, 0x3c6ef372, 0xa54ff53a, 0x510e527f, 0x9b05688c, 0x1f83d9ab,
    0x5be0cd19]

/-- The rows of the message schedule. -/
def sigma : Vector (Vector Nat 16) 10 :=
  #v[#v[0, 1, 2, 3, 4, 5, 6, 7, 8, 9, 10, 11, 12, 13, 14, 15],
    #v[14, 10, 4, 8, 9, 15, 13, 6, 1, 12, 0, 2, 11, 7, 5, 3],
    #v[11, 8, 12, 0, 5, 2, 15, 13, 10, 14, 3, 6, 7, 1, 9, 4],
    #v[7, 9, 3, 1, 13, 12, 11, 14, 2, 6, 5, 10, 4, 0, 15, 8],
    #v[9, 0, 5, 7, 2, 4, 10, 15, 14, 1, 11, 12, 6, 8, 3, 13],
    #v[2, 12, 6, 10, 0, 11, 8, 3, 4, 13, 7, 5, 15, 14, 1, 9],
    #v[12, 5, 1, 15, 14, 13, 4, 10, 0, 7, 6, 3, 9, 2, 8, 11],
    #v[13, 11, 7, 14, 12, 1, 3, 9, 5, 0, 15, 4, 8, 6, 2, 10],
    #v[6, 15, 14, 9, 11, 3, 0, 8, 12, 2, 13, 7, 1, 4, 10, 5],
    #v[10, 2, 8, 4, 7, 6, 1, 5, 15, 11, 9, 14, 3, 12, 13, 0]]

/-- `rotate_right`. -/
def rotateRight (x n : UInt32) : UInt32 := (x >>> n) ||| (x <<< (32 - n))

/-- An index into the 16 words of a block; every one below is in range. -/
def lane (i : Nat) : Fin 16 := ⟨i % 16, Nat.mod_lt i (by decide)⟩

def setLane (v : Vector UInt32 16) (i : Nat) (x : UInt32) : Vector UInt32 16 :=
  v.set (lane i).val x (lane i).isLt

def g (v : Vector UInt32 16) (a b c d : Nat) (x y : UInt32) : Vector UInt32 16 :=
  let word (v : Vector UInt32 16) (i : Nat) : UInt32 := v.get (lane i)
  let v := setLane v a (word v a + word v b + x)
  let v := setLane v d (rotateRight (word v d ^^^ word v a) 16)
  let v := setLane v c (word v c + word v d)
  let v := setLane v b (rotateRight (word v b ^^^ word v c) 12)
  let v := setLane v a (word v a + word v b + y)
  let v := setLane v d (rotateRight (word v d ^^^ word v a) 8)
  let v := setLane v c (word v c + word v d)
  setLane v b (rotateRight (word v b ^^^ word v c) 7)

/-- The body of the loop over the rounds. -/
def blake2sRound (m v : Vector UInt32 16) (s : Vector Nat 16) : Vector UInt32 16 :=
  let w (i : Nat) : UInt32 := m.get (lane (s.get (lane i)))
  let v := g v 0 4 8 12 (w 0) (w 1)
  let v := g v 1 5 9 13 (w 2) (w 3)
  let v := g v 2 6 10 14 (w 4) (w 5)
  let v := g v 3 7 11 15 (w 6) (w 7)
  let v := g v 0 5 10 15 (w 8) (w 9)
  let v := g v 1 6 11 12 (w 10) (w 11)
  let v := g v 2 7 8 13 (w 12) (w 13)
  g v 3 4 9 14 (w 14) (w 15)

def blake2sCompress (h : Vector UInt32 8) (block : Bytes) (t : UInt64) (last : Bool) :
    Vector UInt32 8 :=
  let m : Vector UInt32 16 := Vector.ofFn fun i => ofLE32 (slice block (i.val * 4) 4)
  let v : Vector UInt32 16 := h ++ blake2sIv
  let v := v.set 12 (v[12] ^^^ t.toUInt32)
  let v := v.set 13 (v[13] ^^^ (t >>> 32).toUInt32)
  let v := if last then v.set 14 (v[14] ^^^ 0xFFFFFFFF) else v
  let v := sigma.foldl (blake2sRound m) v
  Vector.ofFn fun i => h[i] ^^^ (v[i.val] ^^^ v[i.val + 8])

/-! ## Digests -/

/-- Zero-padded to the 64 bytes of a block. -/
def blake2sBlock (bs : Bytes) : Bytes := bs ++ List.replicate (64 - bs.length) 0

/-- The loop over `n` full blocks, then the last block; `t` counts the bytes. -/
def blake2sAbsorb : Nat → Vector UInt32 8 → UInt64 → Bytes → Vector UInt32 8
  | 0, h, t, data => blake2sCompress h (blake2sBlock data) (t + UInt64.ofNat data.length) true
  | n + 1, h, t, data =>
    blake2sAbsorb n (blake2sCompress h (data.take 64) (t + 64) false) (t + 64) (data.drop 64)

/-- BLAKE2s over `data`, optionally keyed, up to the writing of the digest. The loop leaves
    the last block, which is never empty unless `data` is, to the end. -/
def blake2sState (data : Bytes) (key : Option Bytes) (outLen : Nat) : Vector UInt32 8 :=
  let keyLen := (key.map List.length).getD 0
  let params := (0x01010000 : UInt32) ||| (UInt32.ofNat keyLen <<< (8 : UInt32)) |||
    UInt32.ofNat outLen
  let h := blake2sIv.mapIdx fun i w => if i = 0 then w ^^^ params else w
  let blocks := (data.length - 1) / 64
  match key with
  | none => blake2sAbsorb blocks h 0 data
  | some k =>
    if data = [] then blake2sCompress h (blake2sBlock k) 64 true
    else blake2sAbsorb blocks (blake2sCompress h (blake2sBlock k) 64 false) 64 data

/-- The first `n` words, little-endian. -/
def digestWords (h : Vector UInt32 8) (n : Nat) : Bytes := (h.toList.take n).flatMap le32

theorem length_digestWords (h : Vector UInt32 8) {n : Nat} (hn : n ≤ 8) :
    (digestWords h n).length = 4 * n := by
  unfold digestWords
  rw [length_flatMap_le32, List.length_take, Vector.length_toList, Nat.min_eq_left hn]

/-- Unkeyed BLAKE2s-256, the protocol's HASH(). -/
def blake2s256 (data : Bytes) : ByteVec 32 :=
  ⟨digestWords (blake2sState data none 32) 8, length_digestWords _ (by decide)⟩

/-- HASH(a || b). -/
def hash2 (a b : Bytes) : ByteVec 32 := blake2s256 (a ++ b)

/-- Keyed BLAKE2s with a 16-byte digest, the protocol's MAC(key, input). -/
def blake2sMac (key data : Bytes) : ByteVec 16 :=
  ⟨digestWords (blake2sState data (some key) 16) 4, length_digestWords _ (by decide)⟩

/-- HASH("abc"). -/
example : (blake2s256 [97, 98, 99]).val =
    [0x50, 0x8c, 0x5e, 0x8c, 0x32, 0x7c, 0x14, 0xe2, 0xe1, 0xa7, 0x2b, 0xa3, 0x4e, 0xeb, 0x45,
      0x2f, 0x37, 0x45, 0x8b, 0x20, 0x9e, 0xd6, 0x3a, 0x29, 0x4d, 0x99, 0x9b, 0x4c, 0x86, 0x67,
      0x59, 0x82] := by
  decide +kernel

/-! ## HMAC and the key chain -/

/-- HMAC over a 64-byte block. -/
def hmacBlake2s (key msg : Bytes) : ByteVec 32 :=
  let k0 := blake2sBlock (if 64 < key.length then (blake2s256 key).val else key)
  let inner := blake2s256 (k0.map (· ^^^ 0x36) ++ msg)
  blake2s256 (k0.map (· ^^^ 0x5c) ++ inner.val)

/-- temp = HMAC(ck, x); ck' = HMAC(temp, 0x1): the new chain key and temp. -/
def kdfAdvance (ck : ByteVec 32) (x : Bytes) : ByteVec 32 × ByteVec 32 :=
  let temp := hmacBlake2s ck.val x
  (hmacBlake2s temp.val [1], temp)

def kdf1 (ck : ByteVec 32) (x : Bytes) : ByteVec 32 := (kdfAdvance ck x).1

/-- key = HMAC(temp, ck' || 0x2). -/
def kdf2 (ck : ByteVec 32) (x : Bytes) : ByteVec 32 × ByteVec 32 :=
  let (ck2, temp) := kdfAdvance ck x
  (ck2, hmacBlake2s temp.val (ck2.val ++ [2]))

/-- temp2 = HMAC(temp, ck' || 0x2); key = HMAC(temp, temp2 || 0x3). -/
def kdf3 (ck : ByteVec 32) (x : Bytes) : ByteVec 32 × ByteVec 32 × ByteVec 32 :=
  let (ck2, temp) := kdfAdvance ck x
  let temp2 := hmacBlake2s temp.val (ck2.val ++ [2])
  (ck2, temp2, hmacBlake2s temp.val (temp2.val ++ [3]))

/-- The initiator sends with the first key and receives with the second. -/
def deriveTransportKeys (ck : ByteVec 32) : ByteVec 32 × ByteVec 32 :=
  let temp1 := hmacBlake2s ck.val []
  let first := hmacBlake2s temp1.val [1]
  (first, hmacBlake2s temp1.val (first.val ++ [2]))

/-- The bytes of an ASCII text. -/
def ascii (s : String) : Bytes := s.toList.map fun c => UInt8.ofNat c.toNat

def labelMac1 : Bytes := ascii "mac1----"

def labelCookie : Bytes := ascii "cookie--"

def mac1Key (peerStatic : ByteVec 32) : ByteVec 32 := blake2s256 (labelMac1 ++ peerStatic.val)

def cookieKey (peerStatic : ByteVec 32) : ByteVec 32 := blake2s256 (labelCookie ++ peerStatic.val)

end RustCrash.Wireguard

/-! ## The handshake -/

namespace RustCrash.Wireguard

open Lib

/-! ## The crates -/

/-- `curve25519_dalek` (`MontgomeryPoint`), `chacha20poly1305` and `base64`. -/
structure Crates where
  mulBaseClamped : ByteVec 32 → ByteVec 32
  /-- A point, then the scalar it is multiplied by. -/
  mulClamped : ByteVec 32 → ByteVec 32 → ByteVec 32
  /-- Key, nonce, message, associated data. -/
  encrypt : ByteVec 32 → ByteVec 12 → Bytes → Bytes → Option Bytes
  decrypt : ByteVec 32 → ByteVec 12 → Bytes → Bytes → Option Bytes
  xencrypt : ByteVec 32 → ByteVec 24 → Bytes → Bytes → Option Bytes
  xdecrypt : ByteVec 32 → ByteVec 24 → Bytes → Bytes → Option Bytes
  base64Standard : Str → Option Bytes
  base64NoPad : Str → Option Bytes

/-- What the handshake relies on: Diffie-Hellman commutes, and the AEAD seals what is not
    too long, adds a 16-byte tag and opens what it sealed. -/
structure Crates.Lawful (c : Crates) : Prop where
  dh_comm : ∀ a b, c.mulClamped (c.mulBaseClamped a) b = c.mulClamped (c.mulBaseClamped b) a
  seal_short : ∀ key nonce msg aad, msg.length / 64 < 2 ^ 32 - 1 →
    ∃ ct, c.encrypt key nonce msg aad = some ct
  length_seal : ∀ key nonce msg aad ct, c.encrypt key nonce msg aad = some ct →
    ct.length = msg.length + 16
  open_seal : ∀ key nonce msg aad ct, c.encrypt key nonce msg aad = some ct →
    c.decrypt key nonce ct aad = some msg

/-- A static (or ephemeral) X25519 keypair. -/
structure StaticKeys where
  sk : ByteVec 32
  pk : ByteVec 32

section

variable (c : Crates)

def StaticKeys.fromSecret (sk : ByteVec 32) : StaticKeys := ⟨sk, c.mulBaseClamped sk⟩

def x25519Dh (sk peer : ByteVec 32) : Result (ByteVec 32) :=
  let shared := c.mulClamped peer sk
  if shared = ByteVec.zero 32 then .error (.crypto "wg: X25519 peer key is a low-order point")
  else .ok shared

/-- AEAD nonce: 32 zero bits || 64-bit little-endian counter. -/
def aeadNonce (counter : UInt64) : ByteVec 12 :=
  ⟨List.replicate 4 0 ++ le64 counter, by simp⟩

def aeadSeal (key : ByteVec 32) (counter : UInt64) (plain aad : Bytes) : Result Bytes :=
  okOr (c.encrypt key (aeadNonce counter) plain aad) (.crypto "wg: AEAD seal failed")

def aeadOpen (key : ByteVec 32) (counter : UInt64) (ct aad : Bytes) : Result Bytes :=
  okOr (c.decrypt key (aeadNonce counter) ct aad) (.crypto "wg: AEAD open failed")

end

/-- The system time since the epoch. -/
structure UnixTime where
  secs : UInt64
  nanos : UInt32

/-- TAI64N timestamp of a time. -/
def tai64n (t : UnixTime) : ByteVec 12 :=
  ⟨be64 (0x4000000000000000 + t.secs) ++ be32 t.nanos, by simp⟩

/-! ## Wire codec -/

/-- One parsed WireGuard message (reserved header bytes ignored). -/
inductive WgMsg where
  | initiation (sender : UInt32) (ephemeral : ByteVec 32) (encStatic : ByteVec 48)
      (encTimestamp : ByteVec 28) (mac1 mac2 : ByteVec 16)
  | response (sender receiver : UInt32) (ephemeral : ByteVec 32) (encNothing : ByteVec 16)
      (mac1 mac2 : ByteVec 16)
  | cookie (receiver : UInt32) (nonce : ByteVec 24) (encCookie : ByteVec 32)
  | transport (receiver : UInt32) (counter : UInt64) (data : Bytes)

def WgMsg.isResponse : WgMsg → Bool
  | .response .. => true
  | _ => false

/-- Parse a (reserved-stripped) datagram. Lengths are exact. -/
def parseWgMsg (buf : Bytes) : Option WgMsg :=
  if buf.length < 4 then none
  else
    let msgType := buf.headD 0
    if h : msgType = 1 ∧ buf.length = 148 then
      some (.initiation (ofLE32 (slice buf 4 4)) (sliceVec buf 8 32 (by omega))
        (sliceVec buf 40 48 (by omega)) (sliceVec buf 88 28 (by omega))
        (sliceVec buf 116 16 (by omega)) (sliceVec buf 132 16 (by omega)))
    else if h : msgType = 2 ∧ buf.length = 92 then
      some (.response (ofLE32 (slice buf 4 4)) (ofLE32 (slice buf 8 4))
        (sliceVec buf 12 32 (by omega)) (sliceVec buf 44 16 (by omega))
        (sliceVec buf 60 16 (by omega)) (sliceVec buf 76 16 (by omega)))
    else if h : msgType = 3 ∧ buf.length = 64 then
      some (.cookie (ofLE32 (slice buf 4 4)) (sliceVec buf 8 24 (by omega))
        (sliceVec buf 32 32 (by omega)))
    else if msgType = 4 ∧ 32 ≤ buf.length then
      some (.transport (ofLE32 (slice buf 4 4)) (ofLE64 (slice buf 8 8)) (buf.drop 16))
    else none

/-- Bytes 1..4 of every outgoing datagram carry the configured bytes. -/
def applyReserved (msg : Bytes) (reserved : ByteVec 3) : Bytes :=
  if 3 < msg.length then setBytes msg 1 reserved.val else msg

/-- Inbound dual: zero bytes 1..4 before parsing. -/
def stripReserved (msg : Bytes) : Bytes :=
  if 3 < msg.length then setBytes msg 1 [0, 0, 0] else msg

/-- The bytes of an initiation that MAC1 covers. -/
def initiationBytes (sender : UInt32) (ephemeral : ByteVec 32) (encStatic encTimestamp : Bytes) :
    Bytes :=
  le32 1 ++ le32 sender ++ ephemeral.val ++ encStatic ++ encTimestamp

/-- The bytes of a response that MAC1 covers. -/
def responseBytes (sender receiver : UInt32) (ephemeral : ByteVec 32) (encNothing : Bytes) :
    Bytes :=
  le32 2 ++ le32 sender ++ le32 receiver ++ ephemeral.val ++ encNothing

/-! ## The initiator -/

def construction : Bytes := ascii "Noise_IKpsk2_25519_ChaChaPoly_BLAKE2s"

def identifier : Bytes := ascii "WireGuard v1 zx2c4 Jason@zx2c4.com"

/-- State kept between sending an initiation and consuming the response. -/
structure InitiationPending where
  localIndex : UInt32
  ePriv : ByteVec 32
  chainingKey : ByteVec 32
  hash : ByteVec 32
  lastMac1 : ByteVec 16
  attempts : UInt32

def InitiationPending.zero (p : InitiationPending) : InitiationPending :=
  { p with ePriv := ByteVec.zero 32, chainingKey := ByteVec.zero 32, hash := ByteVec.zero 32 }

/-- What an initiation draws: the ephemeral secret, and the time. -/
structure Draw where
  ephemeral : ByteVec 32
  time : UnixTime

section

variable (c : Crates)

/-- Build a handshake initiation message plus the state needed to consume the response. -/
def buildInitiation (statics : StaticKeys) (peerPk : ByteVec 32) (cookie : Option (ByteVec 16))
    (localIndex : UInt32) (d : Draw) : Result (Bytes × InitiationPending) := do
  let ck := blake2s256 construction
  let identHash := hash2 ck.val identifier
  let h := hash2 identHash.val peerPk.val
  let ephemeral := StaticKeys.fromSecret c d.ephemeral
  let h := hash2 h.val ephemeral.pk.val
  let ck := kdf1 ck ephemeral.pk.val
  let es ← x25519Dh c ephemeral.sk peerPk
  let (ck, keyEs) := kdf2 ck es.val
  let encStatic ← aeadSeal c keyEs 0 statics.pk.val h.val
  let h := hash2 h.val encStatic
  let ss ← x25519Dh c statics.sk peerPk
  let (ck, keySs) := kdf2 ck ss.val
  let timestamp := tai64n d.time
  let encTimestamp ← aeadSeal c keySs 0 timestamp.val h.val
  let h := hash2 h.val encTimestamp
  let msg := initiationBytes localIndex ephemeral.pk encStatic encTimestamp
  let mac1 := blake2sMac (mac1Key peerPk).val msg
  let msg := msg ++ mac1.val
  let mac2 := cookie.map fun ck => blake2sMac ck.val msg
  let msg := msg ++ (mac2.getD (ByteVec.zero 16)).val
  .ok (msg, ⟨localIndex, ephemeral.sk, ck, h, mac1, 1⟩)

/-- Result of a completed handshake. -/
structure HandshakeDone where
  localIndex : UInt32
  peerIndex : UInt32
  sendKey : ByteVec 32
  recvKey : ByteVec 32

/-- Consume a handshake response against a pending initiation. -/
def consumeResponse (statics : StaticKeys) (pending : InitiationPending) (msg : WgMsg)
    (psk : ByteVec 32) : Result (HandshakeDone × InitiationPending) :=
  match msg with
  | .response sender receiver ephemeral encNothing mac1 _ => do
    ensure (receiver = pending.localIndex) (.protocol "wg: response for a stale handshake")
    let raw := responseBytes sender receiver ephemeral encNothing.val
    ensure (blake2sMac (mac1Key statics.pk).val raw = mac1)
      (.crypto "wg: handshake response MAC1 mismatch")
    let h := hash2 pending.hash.val ephemeral.val
    let ck := kdf1 pending.chainingKey ephemeral.val
    let ee ← x25519Dh c pending.ePriv ephemeral
    let ck := kdf1 ck ee.val
    let se ← x25519Dh c statics.sk ephemeral
    let ck := kdf1 ck se.val
    let (ck, temp2, key) := kdf3 ck psk.val
    let h := hash2 h.val temp2.val
    let _ ← aeadOpen c key 0 encNothing.val h.val
    let (sendKey, recvKey) := deriveTransportKeys ck
    .ok (⟨pending.localIndex, sender, sendKey, recvKey⟩, pending.zero)
  | _ => .error (.protocol "wg: not a handshake response")

/-- Consume a cookie reply for a pending initiation. -/
def consumeCookieReply (peerPk : ByteVec 32) (pending : InitiationPending) (msg : WgMsg) :
    Result (ByteVec 16) :=
  match msg with
  | .cookie receiver nonce encCookie => do
    ensure (receiver = pending.localIndex) (.protocol "wg: cookie reply for a stale handshake")
    let plain ← okOr (c.xdecrypt (cookieKey peerPk) nonce encCookie.val pending.lastMac1.val)
      (.crypto "wg: cookie reply failed to decrypt")
    okOr (ByteVec.ofBytes? 16 plain) (.protocol "wg: cookie reply has wrong length")
  | _ => .error (.protocol "wg: not a cookie reply")

/-! ## The responder -/

/-- Everything learned from an authenticated initiation, before the PSK enters the math. -/
structure OpenInitiation where
  sender : UInt32
  ephemeral : ByteVec 32
  clientStatic : ByteVec 32
  timestamp : ByteVec 12
  chainingKey : ByteVec 32
  hash : ByteVec 32

/-- Verify a handshake initiation, up to (but excluding) the psk2 step. -/
def openInitiation (serverStatic : StaticKeys) (msg : WgMsg) : Result OpenInitiation :=
  match msg with
  | .initiation sender ephemeral encStatic encTimestamp mac1 _ => do
    let covered := initiationBytes sender ephemeral encStatic.val encTimestamp.val
    ensure (blake2sMac (mac1Key serverStatic.pk).val covered = mac1)
      (.crypto "endpoint: initiation MAC1 mismatch")
    let ck := blake2s256 construction
    let identHash := hash2 ck.val identifier
    let h := hash2 identHash.val serverStatic.pk.val
    let h := hash2 h.val ephemeral.val
    let ck := kdf1 ck ephemeral.val
    let es ← x25519Dh c serverStatic.sk ephemeral
    let (ck, keyEs) := kdf2 ck es.val
    let plain ← aeadOpen c keyEs 0 encStatic.val h.val
    let clientStatic ← okOr (ByteVec.ofBytes? 32 plain)
      (.protocol "endpoint: static has wrong length")
    let h := hash2 h.val encStatic.val
    let ss ← x25519Dh c serverStatic.sk clientStatic
    let (ck, keySs) := kdf2 ck ss.val
    let timestamp ← aeadOpen c keySs 0 encTimestamp.val h.val
    let h := hash2 h.val encTimestamp.val
    let timestamp ← okOr (ByteVec.ofBytes? 12 timestamp)
      (.protocol "endpoint: timestamp has wrong length")
    .ok ⟨sender, ephemeral, clientStatic, timestamp, ck, h⟩
  | _ => .error (.protocol "endpoint: not an initiation")

/-- Server index, peer index, client-send key, client-recv key. -/
structure ServerKeys where
  serverIndex : UInt32
  peerIndex : UInt32
  clientSend : ByteVec 32
  clientRecv : ByteVec 32

/-- Complete the handshake with the peer's PSK; `ephemeral` is the secret drawn. -/
def respondInitiation (o : OpenInitiation) (psk : ByteVec 32) (serverIndex : UInt32)
    (ephemeral : ByteVec 32) : Result (Bytes × ServerKeys) := do
  let e := StaticKeys.fromSecret c ephemeral
  let h := hash2 o.hash.val e.pk.val
  let ck := kdf1 o.chainingKey e.pk.val
  let ee ← x25519Dh c e.sk o.ephemeral
  let ck := kdf1 ck ee.val
  let se ← x25519Dh c e.sk o.clientStatic
  let ck := kdf1 ck se.val
  let (ck, temp2, key) := kdf3 ck psk.val
  let h := hash2 h.val temp2.val
  let encNothing ← aeadSeal c key 0 [] h.val
  let resp := responseBytes serverIndex o.sender e.pk encNothing
  let mac1 := blake2sMac (mac1Key o.clientStatic).val resp
  let resp := resp ++ mac1.val
  let resp := resp ++ (ByteVec.zero 16).val
  let (kClientSend, kClientRecv) := deriveTransportKeys ck
  .ok (resp, ⟨serverIndex, o.sender, kClientSend, kClientRecv⟩)

/-- Build a cookie reply for an initiation; `nonce` is the one drawn. -/
def buildCookieReply (serverStaticPk : ByteVec 32) (receiverIndex : UInt32)
    (initiationMac1 : ByteVec 16) (cookie : ByteVec 16) (nonce : ByteVec 24) : Result Bytes := do
  let enc ← okOr (c.xencrypt (cookieKey serverStaticPk) nonce cookie.val initiationMac1.val)
    (.crypto "endpoint: cookie seal failed")
  .ok (le32 3 ++ le32 receiverIndex ++ nonce.val ++ enc)

end

end RustCrash.Wireguard
