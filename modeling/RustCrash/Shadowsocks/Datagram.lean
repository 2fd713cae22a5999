import RustCrash.Lib.Checked
import RustCrash.Shadowsocks.Accept

/-
  Shadowsocks over UDP: the datagrams of the client (`SsUdp`) and of the server (`SsUdpServer`).

  A legacy datagram is a salt and one sealed block. A 2022 datagram has a separate header with a
  session id and a packet id, under the block cipher, and a sealed body; the key of the body comes
  from the session id and its nonce from the header.

  The parsers of the bodies differ: the server looks for the end of the padding first, and the
  client slices (`parseServerFrame_panics`).
-/

namespace RustCrash.Shadowsocks

open Lib Proto

/-! ## The separate header -/

def plainHeader (session packet : UInt64) : Aes.Block :=
  ⟨be64 session ++ be64 packet, by rw [List.length_append, length_be64, length_be64]⟩

def headerNonce (header : Aes.Block) : ByteVec 12 :=
  sliceVec header.val 4 12 (by rw [ByteVec.length_val])

/-- The first sixteen bytes. -/
def frontBlock (bs : Bytes) : Aes.Block := Aes.block fun i => bs.getD i 0

/-- What both ends send behind the fields of their bodies. -/
def addressed (addr : NetAddr) (data : Bytes) : Bytes :=
  encodeSocksAddr addr.host addr.port ++ data

section Client

/-! ## The client -/

variable (H : Hashes) {method : SsMethod}

/-- `SsUdp`, without its socket. -/
structure SsUdp (method : SsMethod) where
  key : ByteVec method.keyLen
  sessionId : UInt64
  packetId : UInt64
  aesBlock : Option BlockCipher

def SsUdp.bind (key : ByteVec method.keyLen) (sessionId : UInt64) : SsUdp method where
  key := key
  sessionId := sessionId
  packetId := 0
  aesBlock := if method.is2022 then some ⟨key.val⟩ else none

/-- The header on the wire, and in plain. The packet id wraps, as it does in a release build. -/
def SsUdp.separateHeader (c : SsUdp method) : SsUdp method × Aes.Block × Aes.Block :=
  let c := { c with packetId := c.packetId + 1 }
  let plain := plainHeader c.sessionId c.packetId
  let wire := match c.aesBlock with
    | some cipher => cipher.encrypt plain
    | none => plain
  (c, wire, plain)

def clientBody (now : UInt64) (target : NetAddr) (data : Bytes) : Bytes :=
  0 :: be64 now ++ be16 0 ++ addressed target data

/-- The packet for the relay; `salt` is the salt of a legacy one. -/
def SsUdp.send (c : SsUdp method) (salt : ByteVec method.keyLen) (now : UInt64) (target : NetAddr)
    (data : Bytes) : SsUdp method × Result Bytes :=
  if method.is2022 then
    let (c, wire, plain) := c.separateHeader
    (c, do
      let aead ← Aead.new method.kind (ss2022Subkey H c.key.val (plain.val.take 8) method.keyLen)
      let ct ← aead.sealed (headerNonce plain) [] (clientBody now target data)
      return wire.val ++ ct)
  else
    (c, do
      let aead ← Aead.new method.kind (ssSubkeyLegacy H c.key.val salt.val)
      let ct ← aead.sealed (.zero 12) [] (addressed target data)
      return salt.val ++ ct)

/-- `parse_udp_frame`; `none` when a slice panics. -/
def parseUdpFrame (data : Bytes) : Option (Option (NetAddr × Bytes)) :=
  match decodeSocksAddr data with
  | .error _ => some none
  | .ok (addr, used) => do
    let rest ← sliceChecked data used data.length
    return some (addr, rest)

/-- `parse_ss2022_udp_server_frame`; `none` when a slice panics. -/
def parseServerFrame (body : Bytes) : Option (Option (NetAddr × Bytes)) :=
  if body.length < 19 then some none
  else do
    let kind ← body[0]?
    if kind ≠ 1 then some none
    else do
      let padLen ← wordChecked body 17
      let rest ← sliceChecked body (19 + padLen.toNat) body.length
      parseUdpFrame rest

/-- What `recv` makes of one datagram: `some none` where it waits for the next, and `none` where
    it panics. -/
def SsUdp.recvDatagram (c : SsUdp method) (data : Bytes) : Option (Option (NetAddr × Bytes)) :=
  if method.is2022 then
    if data.length < 16 + tagSize then some none
    else
      let plain := match c.aesBlock with
        | some cipher => cipher.decrypt (frontBlock data)
        | none => frontBlock data
      let opened := do
        let aead ← Aead.new method.kind (ss2022Subkey H c.key.val (plain.val.take 8) method.keyLen)
        aead.openCt (headerNonce plain) [] (data.drop 16)
      match opened with
      | .error _ => some none
      | .ok body => parseServerFrame body
  else
    if data.length < method.keyLen + tagSize then some none
    else
      let opened := do
        let aead ← Aead.new method.kind (ssSubkeyLegacy H c.key.val (data.take method.keyLen))
        aead.openCt (.zero 12) [] (data.drop method.keyLen)
      match opened with
      | .error _ => some none
      | .ok payload => parseUdpFrame payload

end Client

/-! ## The state of a session -/

inductive U2022Scheme where
  | spec
  /-- Key and nonce from the header under the cipher. -/
  | engineClient
  deriving DecidableEq

namespace U2022Scheme

def other : U2022Scheme → U2022Scheme
  | spec => engineClient
  | engineClient => spec

/-- The scheme in use is tried first. -/
def candidates : Option U2022Scheme → List U2022Scheme
  | some scheme => [scheme, scheme.other]
  | none => [spec, engineClient]

/-- The header that key and nonce come from. -/
def source (scheme : U2022Scheme) (sep sepCt : Aes.Block) : Aes.Block :=
  match scheme with
  | spec => sep
  | engineClient => sepCt

end U2022Scheme

def nonce2022 (scheme : U2022Scheme) (sep sepCt : Aes.Block) : ByteVec 12 :=
  headerNonce (scheme.source sep sepCt)

structure ReplayWindow where
  started : Bool
  highest : UInt64
  seen : List UInt64

namespace ReplayWindow

def size : Nat := 1024

def new : ReplayWindow := ⟨false, 0, []⟩

def accept (w : ReplayWindow) (packetId : UInt64) : ReplayWindow × Bool :=
  if w.started = false then (⟨true, packetId, packetId :: w.seen⟩, true)
  else if packetId.toNat < w.highest.toNat - size then (w, false)
  else if packetId ∈ w.seen then (w, false)
  else
    let highest := if w.highest < packetId then packetId else w.highest
    let seen := (packetId :: w.seen).filter fun id => highest.toNat - size ≤ id.toNat
    (⟨true, highest, seen⟩, true)

end ReplayWindow

structure UdpCrypto where
  scheme : Option U2022Scheme
  user : Option Nat
  clientSessionId : UInt64
  serverSessionId : UInt64
  serverPacketId : UInt64
  replay : ReplayWindow

namespace UdpCrypto

def new (drawn : UInt64) : UdpCrypto := ⟨none, none, 0, drawn, 0, .new⟩

def udpTsWindow : Nat := 30

def splitSocksPayload (data : Bytes) : Result (NetAddr × Bytes) := do
  let (target, used) ← decodeSocksAddr data
  return (target, data.drop used)

/-- The seconds between two times. -/
def absDiff (a b : UInt64) : Nat := (a.toNat - b.toNat) + (b.toNat - a.toNat)

def parse2022Body (now : UInt64) (body : Bytes) : Result (NetAddr × Bytes) := do
  ensure (11 ≤ body.length ∧ body.getD 0 0 = 0) (.protocol "ss2022 udp: not a client packet")
  let drift := absDiff now (ofBE64 (slice body 1 8))
  ensure (drift ≤ udpTsWindow)
    (.protocol s!"ss2022 udp: timestamp drift {drift}s exceeds replay window")
  let padLen := (ofBE16 (slice body 9 2)).toNat
  ensure (11 + padLen ≤ body.length) (.protocol "ss2022 udp: padding overruns packet")
  splitSocksPayload (body.drop (11 + padLen))

/-- A body that is authentic under the header `sep`. -/
def admitted (c : UdpCrypto) (scheme : U2022Scheme) (sep : Aes.Block) (redrawn now : UInt64)
    (plain : Bytes) : UdpCrypto × Result (NetAddr × Bytes) :=
  let session := ofBE64 (sep.val.take 8)
  let serverSessionId := if c.serverSessionId = session then redrawn else c.serverSessionId
  let (replay, isNew) := c.replay.accept (ofBE64 (sep.val.drop 8))
  (⟨some scheme, c.user, session, serverSessionId, c.serverPacketId, replay⟩,
    if isNew then parse2022Body now plain
    else .error (.protocol "ss2022 udp replay: duplicate or stale (session, packet) id"))

end UdpCrypto

/-! ## The server -/

/-- `SsUdpServer`, without its socket and its sessions. -/
structure SsUdpServer (method : SsMethod) where
  key : ByteVec method.keyLen
  users : Option (List (ByteVec method.keyLen))
  block : Option BlockCipher

namespace SsUdpServer

/-- The cipher of the separate header, which legacy methods do not have. -/
def headerCipher (server : SsServer) : Result (Option BlockCipher) :=
  if server.method.is2022 then do
    let cipher ← BlockCipher.new server.method.kind server.key.val
    return some cipher
  else .ok none

def bind (server : SsServer) : Result (SsUdpServer server.method) := do
  let block ← headerCipher server
  return ⟨server.key, server.users, block⟩

variable (H : Hashes) (blake3 : Bytes → ByteVec 32) {method : SsMethod} (s : SsUdpServer method)

def aead2022 (scheme : U2022Scheme) (sep sepCt : Aes.Block) : Result Aead :=
  Aead.new method.kind
    (ss2022Subkey H s.key.val ((scheme.source sep sepCt).val.take 8) method.keyLen)

def openLegacy (datagram : Bytes) : Result (NetAddr × Bytes) := do
  ensure (method.keyLen + tagSize ≤ datagram.length) (.protocol "shadowsocks udp: runt packet")
  let aead ← Aead.new method.kind (ssSubkeyLegacy H s.key.val (datagram.take method.keyLen))
  let plain ← okOr (aead.openCt (.zero 12) [] (datagram.drop method.keyLen)).toOption
    (.protocol "shadowsocks udp: packet does not authenticate")
  UdpCrypto.splitSocksPayload plain

def sealLegacy (salt : ByteVec method.keyLen) (target : NetAddr) (payload : Bytes) :
    Result Bytes := do
  let aead ← Aead.new method.kind (ssSubkeyLegacy H s.key.val salt.val)
  let ct ← aead.sealed (.zero 12) [] (addressed target payload)
  return salt.val ++ ct

/-- The first of the schemes that the body opens under. -/
def firstOpen (sep sepCt : Aes.Block) (body : Bytes) :
    List U2022Scheme → Result (Option (U2022Scheme × Bytes))
  | [] => .ok none
  | scheme :: rest => do
    let aead ← s.aead2022 H scheme sep sepCt
    match aead.openCt (nonce2022 scheme sep sepCt) [] body with
    | .ok plain => return some (scheme, plain)
    | .error _ => firstOpen sep sepCt body rest

def missingBlock : Error := .crypto "ss2022 udp: missing block cipher"

/-- A listener with one user. A client with the server's session id makes it draw another. -/
def open2022Single (c : UdpCrypto) (datagram : Bytes) (now redrawn : UInt64) :
    UdpCrypto × Result (NetAddr × Bytes) :=
  if datagram.length < 16 + tagSize then
    (c, .error (.protocol "ss2022 udp: packet shorter than a separate header plus tag"))
  else
    match s.block with
    | none => (c, .error missingBlock)
    | some block =>
      let sepCt := frontBlock datagram
      let sep := block.decrypt sepCt
      match s.firstOpen H sep sepCt (datagram.drop 16) (U2022Scheme.candidates c.scheme) with
      | .error e => (c, .error e)
      | .ok none =>
        (c, .error (.protocol
          "ss2022 udp: packet does not authenticate (wrong key, replayed or corrupt)"))
      | .ok (some (scheme, plain)) => c.admitted scheme sep redrawn now plain

def openEihUdp (block : BlockCipher) (sep eihCt : Aes.Block) : Bytes :=
  (block.decrypt eihCt).val.zipWith (· ^^^ ·) sep.val

/-- The user of a token, and their index; of two with one token the later. -/
def userOf (users : List (ByteVec method.keyLen)) (token : Bytes) :
    Option (ByteVec method.keyLen × Nat) :=
  users.zipIdx.reverse.find? fun user => identityToken blake3 user.1.val = token

def open2022Multi (users : List (ByteVec method.keyLen)) (c : UdpCrypto) (datagram : Bytes)
    (now drawn redrawn : UInt64) : UdpCrypto × Result (NetAddr × Bytes) :=
  if datagram.length < 32 + tagSize then
    (c, .error (.protocol "ss2022 udp: multi-user packet shorter than sep + eih plus tag"))
  else
    match s.block with
    | none => (c, .error missingBlock)
    | some block =>
      let sep := block.decrypt (frontBlock datagram)
      match userOf blake3 users (openEihUdp block sep (frontBlock (datagram.drop 16))) with
      | none => (c, .error (.protocol "ss2022 udp eih: identity token matches no user"))
      | some (user, idx) =>
        -- the state is that of the user before the packet is known to be theirs
        let c := if c.user = some idx then c else { UdpCrypto.new drawn with user := some idx }
        let opened := do
          let aead ← Aead.new method.kind
            (ss2022Subkey H user.val (sep.val.take 8) method.keyLen)
          okOr (aead.openCt (headerNonce sep) [] (datagram.drop 32)).toOption
            (.protocol "ss2022 udp: packet does not authenticate")
        match opened with
        | .error e => (c, .error e)
        | .ok plain => c.admitted .spec sep redrawn now plain

/-- `drawn` is the session id for a new user, and `redrawn` the one for a clash. -/
def open2022 (c : UdpCrypto) (datagram : Bytes) (now drawn redrawn : UInt64) :
    UdpCrypto × Result (NetAddr × Bytes) :=
  match s.users with
  | some users => s.open2022Multi H blake3 users c datagram now drawn redrawn
  | none => s.open2022Single H c datagram now redrawn

/-- The header on the wire, the AEAD and the nonce of the reply with the packet id of `c`. -/
def sealing (c : UdpCrypto) : Result (Aes.Block × Aead × ByteVec 12) :=
  let sep := plainHeader c.serverSessionId c.serverPacketId
  let scheme := c.scheme.getD .spec
  match s.users.bind fun users => c.user.bind fun idx => users[idx]? with
  | some user => do
    let aead ← Aead.new method.kind
      (ss2022Subkey H user.val (be64 c.serverSessionId) method.keyLen)
    return (BlockCipher.encrypt ⟨user.val⟩ sep, aead, headerNonce sep)
  | none => do
    let block ← okOr s.block missingBlock
    let sepCt := block.encrypt sep
    let aead ← s.aead2022 H scheme sep sepCt
    return (sepCt, aead, nonce2022 scheme sep sepCt)

def serverBody (c : UdpCrypto) (now : UInt64) (target : NetAddr) (payload : Bytes) : Bytes :=
  1 :: be64 now ++ be64 c.clientSessionId ++ be16 0 ++ addressed target payload

def nextPacket (c : UdpCrypto) : UdpCrypto := { c with serverPacketId := c.serverPacketId + 1 }

def seal2022 (c : UdpCrypto) (now : UInt64) (target : NetAddr) (payload : Bytes) :
    UdpCrypto × Result Bytes :=
  let c := nextPacket c
  (c, do
    let (sepCt, aead, nonce) ← s.sealing H c
    let ct ← aead.sealed nonce [] (serverBody c now target payload)
    return sepCt.val ++ ct)

/-- A datagram that `run` takes from the socket. -/
def openDatagram (c : UdpCrypto) (datagram : Bytes) (now drawn redrawn : UInt64) :
    UdpCrypto × Result (NetAddr × Bytes) :=
  if method.is2022 then s.open2022 H blake3 c datagram now drawn redrawn
  else (c, s.openLegacy H datagram)

/-- A reply of `downlink`. -/
def sealDatagram (c : UdpCrypto) (salt : ByteVec method.keyLen) (now : UInt64) (target : NetAddr)
    (payload : Bytes) : UdpCrypto × Result Bytes :=
  if method.is2022 then s.seal2022 H c now target payload
  else (c, s.sealLegacy H salt target payload)

end SsUdpServer

/-! ## Addresses and bodies -/

theorem frontBlock_append (b : Aes.Block) (rest : Bytes) : frontBlock (b.val ++ rest) = b := by
  refine Aes.block_congr fun i hi => ?_
  have hlen : i < b.val.length := by rwa [ByteVec.length_val]
  unfold Aes.byteAt
  rw [List.getD_eq_getElem?_getD, List.getD_eq_getElem?_getD, List.getElem?_append_left hlen]

/-- An address is read back if it is one that the form holds. -/
theorem split_addressed (addr : NetAddr) (data : Bytes) :
    UdpCrypto.splitSocksPayload (addressed addr data) = .ok (addr, data) ↔
      HostForm.Wirable addr.host := by
  constructor
  · intro h
    unfold UdpCrypto.splitSocksPayload at h
    obtain ⟨⟨target, used⟩, hdecode, h⟩ := bind_eq_ok.mp h
    obtain ⟨rfl, -⟩ := Prod.mk.inj (Except.ok.inj h)
    obtain ⟨-, u, -, hword⟩ := socks_reads.taken hdecode
    exact hword.wirable
  · intro h
    have hword : SocksWord (encodeSocksAddr addr.host addr.port) addr :=
      ⟨_, rfl, HostForm.word_encode h socksForm⟩
    unfold UdpCrypto.splitSocksPayload addressed
    rw [socks_reads.append hword, bind_ok]
    dsimp only
    rw [List.drop_left]
    rfl

/-- The slice behind an address is never out of bounds. -/
theorem parseUdpFrame_eq (data : Bytes) :
    parseUdpFrame data = some (UdpCrypto.splitSocksPayload data).toOption := by
  unfold parseUdpFrame UdpCrypto.splitSocksPayload
  cases hdecode : decodeSocksAddr data with
  | error e => rfl
  | ok x =>
    obtain ⟨addr, used⟩ := x
    obtain ⟨hle, -⟩ := socks_reads.taken hdecode
    dsimp only
    rw [sliceChecked_of_le_of_le hle (Nat.le_refl _), Option.bind_eq_bind, Option.bind_some, bind_ok,
      List.take_of_length_le (by rw [List.length_drop])]
    rfl

theorem parse2022Body_clientBody (now sentAt : UInt64) (target : NetAddr) (data : Bytes) :
    UdpCrypto.parse2022Body now (clientBody sentAt target data) = .ok (target, data) ↔
      UdpCrypto.absDiff now sentAt ≤ UdpCrypto.udpTsWindow ∧ HostForm.Wirable target.host := by
  have hfront : ([0] ++ be64 sentAt ++ be16 0).length = 11 := by
    simp only [List.length_append, List.length_cons, List.length_nil, length_be64, length_be16]
  have hbody : clientBody sentAt target data =
      [0] ++ be64 sentAt ++ be16 0 ++ addressed target data := rfl
  have hlen : 11 ≤ (clientBody sentAt target data).length := by
    rw [hbody, List.length_append, hfront]
    exact Nat.le_add_right _ _
  have hts : slice (clientBody sentAt target data) 1 8 = be64 sentAt := by
    rw [hbody, List.append_assoc, List.append_assoc]
    exact (slice_skip rfl).trans (slice_here (length_be64 _))
  have hstamped : ([0] ++ be64 sentAt).length = 9 := by
    rw [List.length_append, List.length_cons, List.length_nil, length_be64]
  have hpad : slice (clientBody sentAt target data) 9 2 = be16 0 := by
    rw [hbody, List.append_assoc]
    exact (slice_skip (a := 0) hstamped).trans (slice_here (length_be16 _))
  have hrest : (clientBody sentAt target data).drop 11 = addressed target data := by
    rw [hbody]
    exact List.drop_left' hfront
  unfold UdpCrypto.parse2022Body
  rw [ensure_of ⟨hlen, rfl⟩, bind_ok]
  dsimp only
  rw [hts, hpad, ofBE64_be64, ofBE16_be16]
  by_cases hdrift : UdpCrypto.absDiff now sentAt ≤ UdpCrypto.udpTsWindow
  · rw [ensure_of hdrift, bind_ok, ensure_of (by exact hlen), bind_ok]
    have hzero : 11 + (0 : UInt16).toNat = 11 := rfl
    rw [hzero, hrest, split_addressed]
    exact (and_iff_right hdrift).symm
  · rw [ensure_of_not hdrift]
    exact iff_of_false nofun fun h => hdrift h.1

theorem parseServerFrame_serverBody (c : UdpCrypto) (now : UInt64) (target : NetAddr)
    (payload : Bytes) : parseServerFrame (SsUdpServer.serverBody c now target payload) =
      parseUdpFrame (addressed target payload) := by
  have hfront : ([1] ++ be64 now ++ be64 c.clientSessionId ++ be16 0).length = 19 := by
    simp only [List.length_append, List.length_cons, List.length_nil, length_be64, length_be16]
  have hbody : SsUdpServer.serverBody c now target payload =
      [1] ++ be64 now ++ be64 c.clientSessionId ++ be16 0 ++ addressed target payload := rfl
  have hlen : 19 ≤ (SsUdpServer.serverBody c now target payload).length := by
    rw [hbody, List.length_append, hfront]
    exact Nat.le_add_right _ _
  have hpad : wordChecked (SsUdpServer.serverBody c now target payload) 17 = some 0 := by
    rw [wordChecked_of_lt (by omega), hbody, List.append_assoc]
    have hdrop : ([1] ++ be64 now ++ be64 c.clientSessionId ++
        (be16 0 ++ addressed target payload)).drop 17 = be16 0 ++ addressed target payload :=
      List.drop_left' (by simp)
    rw [hdrop, List.take_left' (length_be16 0), ofBE16_be16]
  have hrest : (SsUdpServer.serverBody c now target payload).drop 19 =
      addressed target payload := by
    rw [hbody]
    exact List.drop_left' hfront
  unfold parseServerFrame
  rw [if_neg (by omega)]
  have hkind : (SsUdpServer.serverBody c now target payload)[0]? = some 1 := rfl
  rw [hkind, Option.bind_eq_bind, Option.bind_some, if_neg (by decide), hpad, Option.bind_eq_bind,
    Option.bind_some]
  have hzero : 19 + (0 : UInt16).toNat = 19 := rfl
  rw [hzero, sliceChecked_of_le_of_le hlen (Nat.le_refl _), hrest, Option.bind_eq_bind,
    Option.bind_some, List.take_of_length_le]
  rw [hbody, List.length_append, hfront]
  omega

/-- A server's body whose padding is longer than what follows. -/
def Overruns (body : Bytes) : Prop :=
  19 ≤ body.length ∧ body.getD 0 0 = 1 ∧ body.length < 19 + (ofBE16 (slice body 17 2)).toNat

/-- The client's parser leaves the bounds of a body exactly if the padding does. -/
theorem parseServerFrame_panics {body : Bytes} : parseServerFrame body = none ↔ Overruns body := by
  unfold parseServerFrame Overruns
  by_cases hlen : body.length < 19
  · rw [if_pos hlen]
    exact iff_of_false nofun fun h => absurd hlen (Nat.not_lt.mpr h.1)
  · rw [if_neg hlen, getElem?_of_getD (by omega), Option.bind_eq_bind, Option.bind_some]
    by_cases hkind : body.getD 0 0 = 1
    · rw [if_neg (not_not_intro hkind), wordChecked_of_lt (by omega), Option.bind_eq_bind,
        Option.bind_some]
      by_cases hpad : 19 + (ofBE16 (slice body 17 2)).toNat ≤ body.length
      · have hslice := sliceChecked_of_le_of_le hpad (Nat.le_refl body.length)
        unfold slice at hslice hpad ⊢
        rw [hslice, Option.bind_eq_bind, Option.bind_some, parseUdpFrame_eq]
        exact iff_of_false nofun fun h => absurd h.2.2 (Nat.not_lt.mpr hpad)
      · have hslice : sliceChecked body (19 + (ofBE16 (slice body 17 2)).toNat) body.length = none :=
          if_neg fun h => hpad h.1
        unfold slice at hslice hpad ⊢
        rw [hslice]
        exact iff_of_true rfl ⟨Nat.not_lt.mp hlen, hkind, Nat.not_le.mp hpad⟩
    · rw [if_pos hkind]
      exact iff_of_false nofun fun h => hkind h.2.1

/-! ## What one end seals the other opens -/

section Packets

variable {H : Hashes} {blake3 : Bytes → ByteVec 32} {method : SsMethod}

theorem new_ss2022Subkey (h : method.is2022 = true) (key : ByteVec method.keyLen) (salt : Bytes) :
    Aead.new method.kind (ss2022Subkey H key.val salt method.keyLen) =
      .ok (sessionAead H method key salt) := by
  have hnew := new_subkeyFor H method key salt
  unfold subkeyFor at hnew
  rwa [if_pos h] at hnew

theorem new_ssSubkeyLegacy (h : ¬ method.is2022 = true) (key : ByteVec method.keyLen)
    (salt : Bytes) :
    Aead.new method.kind (ssSubkeyLegacy H key.val salt) = .ok (sessionAead H method key salt) := by
  have hnew := new_subkeyFor H method key salt
  unfold subkeyFor at hnew
  rwa [if_neg h] at hnew

theorem take_plainHeader (session packet : UInt64) :
    (plainHeader session packet).val.take 8 = be64 session := List.take_left' (length_be64 _)

theorem drop_plainHeader (session packet : UInt64) :
    (plainHeader session packet).val.drop 8 = be64 packet := List.drop_left' (length_be64 _)

/-- A packet of the session and with the id of the header, under the key of the session. -/
def Seals (H : Hashes) (key : ByteVec method.keyLen) (session packet : UInt64)
    (body ct : Bytes) : Prop :=
  (sessionAead H method key (be64 session)).sealed (headerNonce (plainHeader session packet)) []
    body = .ok ct

variable {session packet : UInt64} {body ct : Bytes} {s : SsUdpServer method} {block : BlockCipher}
  {c : SsUdp method}

theorem Seals.length {key : ByteVec method.keyLen} (h : Seals H key session packet body ct)
    (wire : Aes.Block) : ¬ (wire.val ++ ct).length < 16 + tagSize := by
  rw [List.length_append, ByteVec.length_val, Aead.length_sealed h]
  omega

/-- The server opens it in the scheme of the specification, if it has no other for the client. -/
theorem open2022_seals (h2022 : method.is2022 = true) (husers : s.users = none)
    (hblock : s.block = some block) {c : UdpCrypto} (hscheme : c.scheme ≠ some .engineClient)
    (h : Seals H s.key session packet body ct) (now drawn redrawn : UInt64) :
    s.open2022 H blake3 c ((block.encrypt (plainHeader session packet)).val ++ ct) now drawn
        redrawn = c.admitted .spec (plainHeader session packet) redrawn now body := by
  have hfirst : ∃ rest, U2022Scheme.candidates c.scheme = .spec :: rest := by
    rcases hs : c.scheme with _ | scheme
    · exact ⟨_, rfl⟩
    · cases scheme with
      | spec => exact ⟨_, rfl⟩
      | engineClient => exact absurd hs hscheme
  obtain ⟨rest, hrest⟩ := hfirst
  unfold SsUdpServer.open2022 SsUdpServer.open2022Single
  rw [husers]
  dsimp only
  rw [if_neg (h.length _), hblock]
  dsimp only
  rw [frontBlock_append, BlockCipher.decrypt_encrypt, List.drop_left' (ByteVec.length_val _), hrest]
  unfold SsUdpServer.firstOpen SsUdpServer.aead2022 nonce2022 U2022Scheme.source
  dsimp only
  rw [take_plainHeader, new_ss2022Subkey h2022, bind_ok, Aead.openCt_sealed h]
  rfl

theorem recvDatagram_seals (h2022 : method.is2022 = true) (hblock : c.aesBlock = some block)
    (h : Seals H c.key session packet body ct) :
    c.recvDatagram H ((block.encrypt (plainHeader session packet)).val ++ ct) =
      parseServerFrame body := by
  unfold SsUdp.recvDatagram
  rw [if_pos h2022, if_neg (h.length _), hblock]
  dsimp only
  rw [frontBlock_append, BlockCipher.decrypt_encrypt, take_plainHeader, new_ss2022Subkey h2022,
    bind_ok, List.drop_left' (ByteVec.length_val _), Aead.openCt_sealed h]

/-- A legacy packet with this salt. -/
def SealsLegacy (H : Hashes) (key salt : ByteVec method.keyLen) (body ct : Bytes) : Prop :=
  (sessionAead H method key salt.val).sealed (.zero 12) [] body = .ok ct

theorem openLegacy_seals (hlegacy : ¬ method.is2022 = true) {salt : ByteVec method.keyLen}
    (h : SealsLegacy H s.key salt body ct) :
    s.openLegacy H (salt.val ++ ct) = UdpCrypto.splitSocksPayload body := by
  have hlen : method.keyLen + tagSize ≤ (salt.val ++ ct).length := by
    rw [List.length_append, ByteVec.length_val, Aead.length_sealed h]
    omega
  unfold SsUdpServer.openLegacy
  rw [ensure_of hlen, bind_ok, List.take_left' (ByteVec.length_val _),
    List.drop_left' (ByteVec.length_val _), new_ssSubkeyLegacy hlegacy, bind_ok,
    Aead.openCt_sealed h]
  rfl

theorem recvDatagram_sealsLegacy (hlegacy : ¬ method.is2022 = true) {salt : ByteVec method.keyLen}
    (h : SealsLegacy H c.key salt body ct) :
    c.recvDatagram H (salt.val ++ ct) = parseUdpFrame body := by
  have hlen : ¬ (salt.val ++ ct).length < method.keyLen + tagSize := by
    rw [List.length_append, ByteVec.length_val, Aead.length_sealed h]
    omega
  unfold SsUdp.recvDatagram
  rw [if_neg hlegacy, if_neg hlen, List.take_left' (ByteVec.length_val _),
    List.drop_left' (ByteVec.length_val _), new_ssSubkeyLegacy hlegacy, bind_ok,
    Aead.openCt_sealed h]

/-! ## Sending -/

theorem send_2022 (h2022 : method.is2022 = true) (hblock : c.aesBlock = some block)
    (salt : ByteVec method.keyLen) (now : UInt64) (target : NetAddr) (data : Bytes) :
    (c.send H salt now target data).1 = { c with packetId := c.packetId + 1 } ∧
      ∀ packet, (c.send H salt now target data).2 = .ok packet ↔
        ∃ ct, Seals H c.key c.sessionId (c.packetId + 1) (clientBody now target data) ct ∧
          packet = (block.encrypt (plainHeader c.sessionId (c.packetId + 1))).val ++ ct := by
  unfold SsUdp.send SsUdp.separateHeader
  rw [if_pos h2022]
  dsimp only
  rw [hblock]
  dsimp only
  rw [take_plainHeader, new_ss2022Subkey h2022, bind_ok]
  refine ⟨rfl, fun packet => ?_⟩
  rw [bind_eq_ok]
  refine exists_congr fun ct => and_congr_right fun _ => ?_
  exact ⟨fun h => (Except.ok.inj h).symm, fun h => congrArg Except.ok h.symm⟩

theorem send_legacy (hlegacy : ¬ method.is2022 = true) (salt : ByteVec method.keyLen) (now : UInt64)
    (target : NetAddr) (data : Bytes) :
    (c.send H salt now target data).1 = c ∧
      ∀ packet, (c.send H salt now target data).2 = .ok packet ↔
        ∃ ct, SealsLegacy H c.key salt (addressed target data) ct ∧ packet = salt.val ++ ct := by
  unfold SsUdp.send
  rw [if_neg hlegacy, new_ssSubkeyLegacy hlegacy, bind_ok]
  refine ⟨rfl, fun packet => ?_⟩
  rw [bind_eq_ok]
  refine exists_congr fun ct => and_congr_right fun _ => ?_
  exact ⟨fun h => (Except.ok.inj h).symm, fun h => congrArg Except.ok h.symm⟩

/-- The key of the replies: that of the user, where the session has one. -/
def replyKey (s : SsUdpServer method) (c : UdpCrypto) : ByteVec method.keyLen :=
  (s.users.bind fun users => c.user.bind fun idx => users[idx]?).getD s.key

theorem sealing_eq (h2022 : method.is2022 = true) (hblock : s.block = some ⟨s.key.val⟩)
    {c : UdpCrypto} (hscheme : c.scheme ≠ some .engineClient) :
    s.sealing H c = .ok
      (BlockCipher.encrypt ⟨(replyKey s c).val⟩ (plainHeader c.serverSessionId c.serverPacketId),
        sessionAead H method (replyKey s c) (be64 c.serverSessionId),
        headerNonce (plainHeader c.serverSessionId c.serverPacketId)) := by
  have hspec : c.scheme.getD .spec = .spec := by
    rcases hs : c.scheme with _ | scheme
    · rfl
    · cases scheme with
      | spec => rfl
      | engineClient => exact absurd hs hscheme
  unfold SsUdpServer.sealing replyKey
  dsimp only
  rw [hspec]
  cases s.users.bind fun users => c.user.bind fun idx => users[idx]? with
  | some user =>
    dsimp only
    rw [new_ss2022Subkey h2022]
    rfl
  | none =>
    dsimp only
    rw [hblock]
    unfold SsUdpServer.aead2022 nonce2022 U2022Scheme.source
    dsimp only [okOr, bind_ok]
    rw [take_plainHeader, new_ss2022Subkey h2022]
    rfl

theorem seal2022_ok (h2022 : method.is2022 = true) (hblock : s.block = some ⟨s.key.val⟩)
    {c : UdpCrypto} (hscheme : c.scheme ≠ some .engineClient) (now : UInt64) (target : NetAddr)
    (payload : Bytes) (packet : Bytes) : (s.seal2022 H c now target payload).2 = .ok packet ↔
      ∃ ct, Seals H (replyKey s c) c.serverSessionId (c.serverPacketId + 1)
          (SsUdpServer.serverBody c now target payload) ct ∧
        packet = (BlockCipher.encrypt ⟨(replyKey s c).val⟩
          (plainHeader c.serverSessionId (c.serverPacketId + 1))).val ++ ct := by
  have hsealing := sealing_eq (H := H) h2022 hblock (c := SsUdpServer.nextPacket c) hscheme
  unfold SsUdpServer.seal2022
  dsimp only
  rw [hsealing, bind_ok]
  dsimp only
  rw [bind_eq_ok]
  refine exists_congr fun ct => and_congr_right fun _ => ?_
  exact ⟨fun h => (Except.ok.inj h).symm, fun h => congrArg Except.ok h.symm⟩

theorem sealLegacy_ok (hlegacy : ¬ method.is2022 = true) (salt : ByteVec method.keyLen)
    (target : NetAddr) (payload packet : Bytes) :
    s.sealLegacy H salt target payload = .ok packet ↔
      ∃ ct, SealsLegacy H s.key salt (addressed target payload) ct ∧
        packet = salt.val ++ ct := by
  unfold SsUdpServer.sealLegacy
  rw [new_ssSubkeyLegacy hlegacy, bind_ok, bind_eq_ok]
  refine exists_congr fun ct => and_congr_right fun _ => ?_
  exact ⟨fun h => (Except.ok.inj h).symm, fun h => congrArg Except.ok h.symm⟩

end Packets

end RustCrash.Shadowsocks
