import RustCrash.ZeroTier.Identity

/-
  The packet wire codec (`proto/zerotier.rs`): the 28-byte header, the armor (Salsa20/12 and
  Poly1305 under a key that the header mangles) and the LZ4 block of a compressed payload.
-/

namespace RustCrash.ZeroTier

open Lib

def packetIdxDest : Nat := 8
def packetIdxSource : Nat := 13
def packetIdxFlags : Nat := 18
def packetIdxMac : Nat := 19
def packetIdxVerb : Nat := 27
def packetIdxPayload : Nat := 28

/-- The armored header. -/
def packetHeaderLen : Nat := packetIdxPayload

def flagFragmented : UInt8 := 0x40

def verbFlagCompressed : UInt8 := 0x80

def maxPacketLength : Nat := 7 * 1432

/-! ## Cipher suites and verbs -/

inductive CipherSuite where
  /-- MAC-only (cleartext HELLO). -/
  | c25519Poly1305None
  /-- MAC and Salsa20/12 payload encryption. -/
  | c25519Poly1305Salsa2012
  /-- AES-GMAC-SIV, which is never negotiated. -/
  | aesGmacSiv
  deriving DecidableEq, Repr

def CipherSuite.toBits : CipherSuite → UInt8
  | c25519Poly1305None => 0
  | c25519Poly1305Salsa2012 => 1
  | aesGmacSiv => 3

def CipherSuite.fromBits (bits : UInt8) : Result CipherSuite :=
  if bits = 0 then .ok c25519Poly1305None
  else if bits = 1 then .ok c25519Poly1305Salsa2012
  else if bits = 3 then .ok aesGmacSiv
  else .error (.crypto s!"zerotier: unknown cipher suite {bits.toNat}")

inductive Verb where
  | nop
  | hello
  | error
  | ok
  | whois
  | rendezvous
  | frame
  | echo
  | networkConfigRequest
  | networkConfig
  | pushDirectPaths
  deriving DecidableEq, Repr

def Verb.toByte : Verb → UInt8
  | nop => 0x00
  | hello => 0x01
  | error => 0x02
  | ok => 0x03
  | whois => 0x04
  | rendezvous => 0x05
  | frame => 0x06
  | echo => 0x08
  | networkConfigRequest => 0x0b
  | networkConfig => 0x0c
  | pushDirectPaths => 0x10

def Verb.all : List Verb :=
  [nop, hello, error, ok, whois, rendezvous, frame, echo, networkConfigRequest, networkConfig,
    pushDirectPaths]

/-- The two lower-case hex digits of a byte. -/
def hex2 (b : UInt8) : String :=
  String.ofList [Nat.digitChar (b.toNat / 16), Nat.digitChar (b.toNat % 16)]

def Verb.fromByte (b : UInt8) : Result Verb :=
  match Verb.all.find? (fun v => v.toByte == b) with
  | some v => .ok v
  | none => .error (.crypto s!"zerotier: unknown verb 0x{hex2 b}")

/-! ## Packets -/

/-- One wire packet: the header and the verb payload. -/
structure WirePacket where
  buf : Bytes
  header : packetHeaderLen ≤ buf.length
  deriving DecidableEq

/-- The pairwise key. -/
abbrev SymmetricKey := ByteVec 48

namespace WirePacket

def fromBytes (bytes : Bytes) : Result WirePacket :=
  if h : bytes.length < packetHeaderLen ∨ maxPacketLength < bytes.length then
    .error (.crypto "zerotier: bad packet length")
  else .ok ⟨bytes, by omega⟩

def len (p : WirePacket) : Nat := p.buf.length

/-- The IV read as a big-endian u64. -/
def packetId (p : WirePacket) : UInt64 := ofBE64 (slice p.buf 0 8)

def dest (p : WirePacket) : UInt64 := be40 (slice p.buf packetIdxDest 5)

def source (p : WirePacket) : UInt64 := be40 (slice p.buf packetIdxSource 5)

/-- The flags byte: `FFCCCHHH`. -/
def flags (p : WirePacket) : UInt8 := p.buf.getD packetIdxFlags 0

def verbByte (p : WirePacket) : UInt8 := p.buf.getD packetIdxVerb 0

def cipher (p : WirePacket) : Result CipherSuite :=
  CipherSuite.fromBits ((p.flags &&& 0x38) >>> (3 : UInt8))

/-- The verb bits, without the compressed flag. -/
def verb (p : WirePacket) : Result Verb := Verb.fromByte (p.verbByte &&& 0x1f)

def payload (p : WirePacket) : Bytes := p.buf.drop packetIdxPayload

def compressed (p : WirePacket) : Bool := (p.verbByte &&& verbFlagCompressed) != 0

def fragmented (p : WirePacket) : Bool := (p.flags &&& flagFragmented) != 0

/-- `self.buf[i] = b`. -/
def setByte (p : WirePacket) (i : Nat) (b : UInt8) : WirePacket :=
  ⟨p.buf.set i b, by simpa using p.header⟩

def setCipher (p : WirePacket) (suite : CipherSuite) : WirePacket :=
  p.setByte packetIdxFlags ((p.flags &&& 0xc7) ||| (suite.toBits <<< (3 : UInt8)))

def setCompressed (p : WirePacket) (on : Bool) : WirePacket :=
  p.setByte packetIdxVerb
    (if on then p.verbByte ||| verbFlagCompressed else p.verbByte &&& ~~~verbFlagCompressed)

def setFragmented (p : WirePacket) (on : Bool) : WirePacket :=
  p.setByte packetIdxFlags
    (if on then p.flags ||| flagFragmented else p.flags &&& ~~~flagFragmented)

/-- Replace the verb payload wholesale. -/
def setPayload (p : WirePacket) (payload : Bytes) : WirePacket :=
  ⟨p.buf.take packetIdxPayload ++ payload, by
    have := p.header
    rw [packetHeaderLen] at this
    rw [List.length_append, List.length_take, packetHeaderLen]
    omega⟩

/-- The packet from the verb byte on. -/
def body (p : WirePacket) : Bytes := p.buf.drop packetIdxVerb

/-- The body replaced by as many bytes. -/
def setBody (p : WirePacket) (body : Bytes) (h : body.length = p.body.length) : WirePacket :=
  ⟨p.buf.take packetIdxVerb ++ body, by
    have := p.header
    rw [List.length_append, List.length_take, h, WirePacket.body, List.length_drop]
    omega⟩

/-- The MAC field replaced. -/
def setMac (p : WirePacket) (mac : ByteVec 8) : WirePacket :=
  ⟨p.buf.take packetIdxMac ++ mac.val ++ p.buf.drop packetIdxVerb, by
    have := p.header
    rw [packetHeaderLen, packetIdxPayload] at this
    rw [List.length_append, List.length_append, List.length_take, List.length_drop,
      ByteVec.length_val, packetIdxMac, packetIdxVerb, packetHeaderLen, packetIdxPayload]
    omega⟩

def mac (p : WirePacket) : Bytes := slice p.buf packetIdxMac 8

def iv (p : WirePacket) : Bytes := slice p.buf 0 8

/-- The per-packet Salsa20 key: the pairwise key XORed with the header (without the hops) and
    the packet length. -/
def mangleKey (p : WirePacket) (key : SymmetricKey) : Bytes :=
  (key.val.take 18).zipWith (· ^^^ ·) (p.buf.take 18) ++
    [key.val.getD 18 0 ^^^ (p.flags &&& 0xf8),
      key.val.getD 19 0 ^^^ UInt8.ofNat p.buf.length,
      key.val.getD 20 0 ^^^ UInt8.ofNat (p.buf.length >>> 8)] ++ slice key.val 21 11

end WirePacket

/-! ## LZ4 blocks -/

/-- The 255-extension chain of a length, and what is behind it. -/
def lz4Length (what : String) : Bytes → Nat → Result (Nat × Bytes)
  | [], _ => .error (.crypto what)
  | b :: src, n =>
    if b = 255 then lz4Length what src (n + b.toNat) else .ok (n + b.toNat, src)

/-- Overlapping copy, byte by byte. -/
def lz4Copy : Nat → Nat → Bytes → Bytes
  | 0, _, out => out
  | n + 1, pos, out => lz4Copy n (pos + 1) (out ++ [out.getD pos 0])

theorem lz4Length_le {what : String} {src rest : Bytes} {n m : Nat}
    (h : lz4Length what src n = .ok (m, rest)) : rest.length ≤ src.length := by
  induction src generalizing n with
  | nil => cases h
  | cons b src ih =>
    unfold lz4Length at h
    split_ifs at h
    · have := ih h
      rw [List.length_cons]
      omega
    · simp only [Except.ok.injEq, Prod.mk.injEq] at h
      rw [← h.2, List.length_cons]
      omega

/-- The length a token's nibble stands for, and what is behind it. -/
def lz4Nibble (what : String) (nibble : Nat) (src : Bytes) : Result (Nat × Bytes) :=
  if nibble = 15 then lz4Length what src 15 else .ok (nibble, src)

theorem lz4Nibble_le {what : String} {nibble m : Nat} {src rest : Bytes}
    (h : lz4Nibble what nibble src = .ok (m, rest)) : rest.length ≤ src.length := by
  unfold lz4Nibble at h
  split_ifs at h
  · exact lz4Length_le h
  · simp only [Except.ok.injEq, Prod.mk.injEq] at h
    rw [h.2]

/-- The sequences of an LZ4 block behind the output so far. -/
def lz4Loop (cap : Nat) (src out : Bytes) : Result Bytes :=
  match src with
  | [] => .error (.crypto "zerotier: truncated LZ4 block")
  | token :: src =>
    match hl : lz4Nibble "zerotier: truncated LZ4 literals" (token >>> 4).toNat src with
    | .error e => .error e
    | .ok (litlen, src') =>
      if src'.length < litlen ∨ cap < out.length + litlen then
        .error (.crypto "zerotier: LZ4 literals out of bounds")
      else
        let out := out ++ src'.take litlen
        let src₁ := src'.drop litlen
        -- the final sequence is literals only
        if src₁ = [] then .ok out
        else if src₁.length < 2 then .error (.crypto "zerotier: truncated LZ4 match header")
        else
          let offset := ofLE (src₁.take 2)
          if offset = 0 ∨ out.length < offset then
            .error (.crypto "zerotier: LZ4 offset out of history")
          else
            match hm : lz4Nibble "zerotier: truncated LZ4 match length" (token &&& 0x0f).toNat
                (src₁.drop 2) with
            | .error e => .error e
            | .ok (matchlen, rest) =>
              if cap < out.length + (matchlen + 4) then
                .error (.crypto "zerotier: LZ4 output overflows packet cap")
              else
                have : rest.length ≤ src.length := by
                  have h1 := lz4Nibble_le hl
                  have h2 := lz4Nibble_le hm
                  simp only [src₁, List.length_drop] at h2
                  omega
                lz4Loop cap rest (lz4Copy (matchlen + 4) (out.length - offset) out)
termination_by src.length

def lz4BlockDecode (src : Bytes) (cap : Nat) : Result Bytes := lz4Loop cap src []

/-- The 255-extension chain of a length. -/
def lz4Extension (rem : Nat) : Bytes :=
  List.replicate (rem / 255) 255 ++ [UInt8.ofNat (rem % 255)]

/-- The literal-run-only encoder: one sequence. -/
def lz4LiteralEncode (data : Bytes) : Bytes :=
  if data = [] then [0]
  else if data.length < 15 then UInt8.ofNat data.length <<< 4 :: data
  else 0xf0 :: (lz4Extension (data.length - 15) ++ data)

namespace WirePacket

/-! ## Armor -/

/-- The key stream of a packet behind the 32 bytes that key its MAC, which drop the rest of
    their block. -/
def keyStream (p : WirePacket) (key : SymmetricKey) : SalsaStream :=
  ((SalsaStream.new (p.mangleKey key) p.iv 12).xor (List.replicate 32 0)).1

def macKey (p : WirePacket) (key : SymmetricKey) : ByteVec 32 :=
  ⟨((SalsaStream.new (p.mangleKey key) p.iv 12).xor (List.replicate 32 0)).2, by simp⟩

/-- The first 8 bytes of the tag of the body. -/
def tag (p : WirePacket) (key : SymmetricKey) : ByteVec 8 :=
  ⟨(poly1305 (p.macKey key) p.body).take 8, by simp [length_poly1305]⟩

/-- The body under the key stream. -/
def crypt (p : WirePacket) (key : SymmetricKey) : WirePacket :=
  p.setBody ((p.keyStream key).xor p.body).2 (by simp)

def armor (p : WirePacket) (key : SymmetricKey) (encryptPayload : Bool) : WirePacket :=
  let p := p.setCipher
    (if encryptPayload then .c25519Poly1305Salsa2012 else .c25519Poly1305None)
  let p := if encryptPayload then p.crypt key else p
  p.setMac (p.tag key)

/-- Verify the MAC, then decrypt. -/
def dearmor (p : WirePacket) (key : SymmetricKey) : Result WirePacket := do
  let suite ← p.cipher
  if suite = .aesGmacSiv then
    .error (.crypto ("zerotier: AES-GMAC-SIV suite received but not negotiated " ++
      "(we advertise protocol 11 for exactly this reason)"))
  else if ctEq (p.tag key).val p.mac = false then
    .error (.crypto "zerotier: packet MAC check failed")
  else return if suite = .c25519Poly1305Salsa2012 then p.crypt key else p

/-- LZ4-decompress the verb payload when the compressed flag is set. -/
def uncompress (p : WirePacket) : Result WirePacket :=
  if p.compressed = false then .ok p
  else do
    let plain ← lz4BlockDecode p.payload (maxPacketLength - packetIdxPayload)
    return (p.setPayload plain).setCompressed false

end WirePacket

end RustCrash.ZeroTier
