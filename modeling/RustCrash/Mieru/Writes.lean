import RustCrash.Lib.PollIo
import RustCrash.Mieru.Datagram
import RustCrash.Mieru.StreamCalls

/-
  The writing side of `MieruStream` over a whole run of `poll_write`, `poll_flush` and
  `poll_shutdown`, on a transport that takes parts or nothing for now.

  A segment is sealed once and waits in `wbuf`, so what has been handed over, followed by `wbuf`,
  is always a whole number of segments for the peer (`Inv`). Two calls seal again what is on its
  way: a write that is polled again after a flush has sent its segment, and every poll of the
  shutdown.
-/

namespace RustCrash.Mieru

open Lib StatefulCipher

/-! ## The stream -/

/-- The random numbers that go into a segment, and the time in minutes. -/
structure SegDraws where
  ts : UInt32
  nonce : ByteVec 24
  prefixSeed : UInt16
  suffixSeed : UInt16
  prefixBytes : (n : Nat) → ByteVec n
  suffixBytes : (n : Nat) → ByteVec n

/-- What the writing side has of `MieruStream`. -/
structure MieruStream where
  send : StatefulCipher
  sessionId : UInt32
  nextSend : UInt32
  openPending : Bool
  wbuf : Bytes
  pendingPlain : Nat
  closed : Bool

-- SHA-256
variable (sha256 : Bytes → ByteVec 32)

def openPaddingLen (username : Bytes) : Nat :=
  let digest := (sha256 username).val
  let least := 24 + (digest.getD 0 0).toNat % 17
  let slack := 255 - least
  least + (digest.getD 1 0).toNat % (slack + 1)

def dataPaddingLen (seed : UInt16) : Nat := seed.toNat % 256

def ioErr (e : Error) : IoError := ⟨.invalidData, e.display⟩

def zeroBytes : IoError := ⟨.writeZero, "mieru: underlay accepted zero bytes"⟩

def sessionClosed : IoError := ⟨.brokenPipe, "mieru: session closed"⟩

namespace MieruStream

def new (key : ByteVec 32) (username : Bytes) (sessionId : UInt32) : MieruStream :=
  ⟨StatefulCipher.new key username, sessionId, 0, true, [], 0, false⟩

/-- `self.send.encrypt`. -/
def encrypt (rng : ByteVec 24) (s : MieruStream) (plaintext : Bytes) :
    MieruStream × Result Bytes :=
  let (send, res) := s.send.encrypt sha256 rng plaintext
  ({ s with send }, res)

def buildSessionSegment (d : SegDraws) (protocol status : UInt8) (payload : Bytes)
    (s : MieruStream) : MieruStream × Result Bytes :=
  let suffix := openPaddingLen sha256 s.send.username
  let block := sessionStruct d.ts protocol s.sessionId s.nextSend status
    (UInt16.ofNat payload.length) (UInt8.ofNat suffix)
  match { s with nextSend := s.nextSend + 1 : MieruStream }.encrypt sha256 d.nonce block with
  | (s, .error e) => (s, .error e)
  | (s, .ok head) =>
    if payload = [] then (s, .ok (head ++ (d.suffixBytes suffix).val))
    else
      match s.encrypt sha256 d.nonce payload with
      | (s, .error e) => (s, .error e)
      | (s, .ok body) => (s, .ok (head ++ body ++ (d.suffixBytes suffix).val))

def buildDataSegment (d : SegDraws) (payload : Bytes) (s : MieruStream) :
    MieruStream × Result Bytes :=
  let before := dataPaddingLen d.prefixSeed
  let suffix := dataPaddingLen d.suffixSeed
  let window := UInt16.ofNat (min segmentTreeCapacity (2 ^ 16 - 1))
  let block := dataAckStruct d.ts dataClientToServer s.sessionId s.nextSend 0 window 0
    (UInt8.ofNat before) (UInt16.ofNat payload.length) (UInt8.ofNat suffix)
  match { s with nextSend := s.nextSend + 1 : MieruStream }.encrypt sha256 d.nonce block with
  | (s, .error e) => (s, .error e)
  | (s, .ok head) =>
    match s.encrypt sha256 d.nonce payload with
    | (s, .error e) => (s, .error e)
    | (s, .ok body) =>
      (s, .ok (head ++ (d.prefixBytes before).val ++ body ++ (d.suffixBytes suffix).val))

/-- What `poll_write` does first when nothing is on its way: `d` is for the open request, and
    `d'` for the data behind it or alone. -/
def begin (d d' : SegDraws) (buf : Bytes) (s : MieruStream) : MieruStream × Result Unit :=
  if s.openPending then
    if buf.length ≤ maxSessionOpenPayload then
      match s.buildSessionSegment sha256 d openSessionRequest 0 buf with
      | (s, .error e) => (s, .error e)
      | (s, .ok wire) =>
        ({ s with wbuf := wire, openPending := false, pendingPlain := buf.length }, .ok ())
    else
      match s.buildSessionSegment sha256 d openSessionRequest 0 [] with
      | (s, .error e) => (s, .error e)
      | (s, .ok first) =>
        let take := min buf.length maxPdu
        match s.buildDataSegment sha256 d' (buf.take take) with
        | (s, .error e) => (s, .error e)
        | (s, .ok data) =>
          ({ s with wbuf := first ++ data, openPending := false, pendingPlain := take }, .ok ())
  else
    let take := min buf.length maxPdu
    match s.buildDataSegment sha256 d' (buf.take take) with
    | (s, .error e) => (s, .error e)
    | (s, .ok wire) => ({ s with wbuf := wire, pendingPlain := take }, .ok ())

/-- A call: what the transport has taken, and the result. -/
structure Call (A : Type) where
  stream : MieruStream
  sent : Bytes
  res : Poll (IoResult A)

/-- `while !wbuf.is_empty()`. -/
def drain {A : Type} (grants : List Grant) (s : MieruStream) (done : Poll (IoResult A)) : Call A :=
  let w := writeOut zeroBytes grants s.wbuf
  let s := { s with wbuf := w.left }
  match w.res with
  | .ready (.ok ()) => ⟨s, w.sent, done⟩
  | .ready (.error e) => ⟨s, w.sent, .ready (.error e)⟩
  | .pending => ⟨s, w.sent, .pending⟩

def pollWrite (d d' : SegDraws) (buf : Bytes) (grants : List Grant) (s : MieruStream) : Call Nat :=
  if buf = [] then ⟨s, [], .ready (.ok 0)⟩
  else if s.closed then ⟨s, [], .ready (.error sessionClosed)⟩
  else if s.wbuf = [] then
    match s.begin sha256 d d' buf with
    | (s, .error e) => ⟨s, [], .ready (.error (ioErr e))⟩
    | (s, .ok ()) => s.drain grants (.ready (.ok s.pendingPlain))
  else s.drain grants (.ready (.ok s.pendingPlain))

/-- `inner` is what the transport says to the flush. -/
def pollFlush (grants : List Grant) (inner : Poll (IoResult Unit)) (s : MieruStream) : Call Unit :=
  s.drain grants inner

/-- `last` is what the transport says to the shutdown. -/
def pollShutdown (d : SegDraws) (grants : List Grant) (inner last : Poll (IoResult Unit))
    (s : MieruStream) : Call Unit :=
  match s.buildSessionSegment sha256 d closeSessionRequest 0 [] with
  | (s, .error e) => ⟨s, [], .ready (.error (ioErr e))⟩
  | (s, .ok wire) =>
    let c := { s with wbuf := s.wbuf ++ wire : MieruStream }.pollFlush grants inner
    match c.res with
    | .ready (.ok ()) => { c with res := last }
    | _ => c

end MieruStream

/-! ## Runs -/

/-- A stream in use: what the transport has taken, what the writes have reported, and the buffer
    of a write that is not ready. -/
structure Writing where
  stream : MieruStream
  wire : Bytes
  reported : Bytes
  writing : Option Bytes

inductive WriteCall where
  | write (d d' : SegDraws) (buf : Bytes) (grants : List Grant)
  | flush (grants : List Grant) (inner : Poll (IoResult Unit))

/-- The call brings bytes to write. -/
def WriteCall.Carries : WriteCall → Prop
  | write _ _ buf _ => buf ≠ []
  | flush _ _ => False

structure ShutdownPoll where
  draws : SegDraws
  grants : List Grant
  inner : Poll (IoResult Unit)
  last : Poll (IoResult Unit)

/-- The transport takes a close request whole, and has nothing to wait for. -/
def ShutdownPoll.Passes (username : Bytes) (p : ShutdownPoll) : Prop :=
  48 + openPaddingLen sha256 username ≤ granted p.grants ∧ p.inner = .ready (.ok ()) ∧
    p.last = .ready (.ok ())

/-- What a write reports of its buffer. -/
def reportedOf (buf : Bytes) : Poll (IoResult Nat) → Bytes
  | .ready (.ok n) => buf.take n
  | _ => []

namespace Writing

def new (key : ByteVec 32) (username : Bytes) (sessionId : UInt32) : Writing :=
  ⟨MieruStream.new key username sessionId, [], [], none⟩

def step (u : Writing) : WriteCall → Writing
  | .write d d' buf grants =>
    let c := u.stream.pollWrite sha256 d d' buf grants
    { stream := c.stream
      wire := u.wire ++ c.sent
      reported := u.reported ++ reportedOf buf c.res
      writing := if c.res = .pending then some buf else none }
  | .flush grants inner =>
    let c := u.stream.pollFlush grants inner
    { u with stream := c.stream, wire := u.wire ++ c.sent }

def shutdown (u : Writing) (p : ShutdownPoll) : Writing × Poll (IoResult Unit) :=
  let c := u.stream.pollShutdown sha256 p.draws p.grants p.inner p.last
  ({ u with stream := c.stream, wire := u.wire ++ c.sent }, c.res)

/-- `poll_shutdown` is polled until it is ready. -/
inductive ShutsDown : Writing → List ShutdownPoll → Writing → Prop where
  | ready {u : Writing} {p : ShutdownPoll} (h : (u.shutdown sha256 p).2 = .ready (.ok ())) :
    ShutsDown u [p] (u.shutdown sha256 p).1
  | again {u v : Writing} {p : ShutdownPoll} {polls : List ShutdownPoll}
    (h : (u.shutdown sha256 p).2 = .pending) (rest : ShutsDown (u.shutdown sha256 p).1 polls v) :
    ShutsDown u (p :: polls) v

/-- A write that is not ready is polled with the same buffer again. The transport takes parts, or
    nothing for now. -/
def Allowed (u : Writing) : WriteCall → Prop
  | .write _ _ buf grants => (u.writing = none ∨ u.writing = some buf) ∧ Smooth grants
  | .flush grants _ => Smooth grants

/-- A flush does not send all that is left of a write that is not ready. -/
def Spares (u : Writing) : WriteCall → Prop
  | .write _ _ _ _ => True
  | .flush grants _ => u.writing = none ∨ u.stream.wbuf = [] ∨ granted grants < u.stream.wbuf.length

end Writing

/-! ## The peer -/

/-- A peer takes a segment off the wire: the fields of its metadata and its payload, and what is
    behind it. -/
def peerRead (rx : StatefulCipher) (bs : Bytes) :
    Option (StatefulCipher × (InboundMeta × Bytes) × Bytes) :=
  let n := rx.nonceLen + (metadataLength + tagSize)
  if bs.length < n then none
  else
    match rx.decrypt (bs.take n) with
    | (_, .error _) => none
    | (rx, .ok block) =>
      let m := metadataFields block
      let want := if m.payloadLen.toNat = 0 then 0 else m.payloadLen.toNat + tagSize
      let body := bs.drop (n + m.prefixLen.toNat)
      if bs.length < n + m.prefixLen.toNat + (want + m.suffixLen.toNat) then none
      else if m.payloadLen.toNat = 0 then some (rx, (m, []), body.drop m.suffixLen.toNat)
      else
        match rx.decrypt (body.take want) with
        | (_, .error _) => none
        | (rx, .ok payload) => some (rx, (m, payload), body.drop (want + m.suffixLen.toNat))

/-- The peer takes `w` off, whatever stands behind it. -/
def Takes (rx : StatefulCipher) (w : Bytes) (seg : InboundMeta × Bytes) (rx' : StatefulCipher) :
    Prop := ∀ rest, peerRead rx (w ++ rest) = some (rx', seg, rest)

/-- The peer reads a wire to its end. -/
inductive PeerReads : StatefulCipher → Bytes → List (InboundMeta × Bytes) → StatefulCipher → Prop
    where
  | done (rx : StatefulCipher) : PeerReads rx [] [] rx
  | segment {rx rx' rx'' : StatefulCipher} {w bs : Bytes} {seg : InboundMeta × Bytes}
    {segs : List (InboundMeta × Bytes)} (h : Takes rx w seg rx')
    (rest : PeerReads rx' bs segs rx'') : PeerReads rx (w ++ bs) (seg :: segs) rx''

namespace PeerReads

variable {rx rx' rx'' : StatefulCipher} {bs w : Bytes} {segs : List (InboundMeta × Bytes)}

theorem append (h : PeerReads rx bs segs rx') {seg : InboundMeta × Bytes}
    (hw : Takes rx' w seg rx'') : PeerReads rx (bs ++ w) (segs ++ [seg]) rx'' := by
  induction h with
  | done rx =>
    rw [List.nil_append, List.nil_append, ← List.append_nil w]
    exact .segment hw (.done rx'')
  | segment h _ ih =>
    rw [List.append_assoc]
    exact .segment h (ih hw)

theorem takes_ne_nil {seg : InboundMeta × Bytes} (h : Takes rx w seg rx') : w ≠ [] := by
  rintro rfl
  have hnone : peerRead rx [] = none := by
    unfold peerRead
    exact if_pos (by simp only [List.length_nil, metadataLength, tagSize]; omega)
  have hsome := h []
  rw [List.append_nil, hnone] at hsome
  cases hsome

/-- A wire reads in one way. -/
theorem unique {segs' : List (InboundMeta × Bytes)} (h : PeerReads rx bs segs rx')
    (h' : PeerReads rx bs segs' rx'') : segs = segs' ∧ rx' = rx'' := by
  induction h generalizing segs' with
  | done rx =>
    generalize hnil : ([] : Bytes) = bs at h'
    cases h' with
    | done _ => exact ⟨rfl, rfl⟩
    | segment hw _ => exact absurd (List.append_eq_nil_iff.mp hnil.symm).1 (takes_ne_nil hw)
  | @segment rx rx₁ _ w bs seg segs hw hrest ih =>
    generalize hall : w ++ bs = all at h'
    cases h' with
    | done _ => exact absurd (List.append_eq_nil_iff.mp hall).1 (takes_ne_nil hw)
    | @segment _ rx₂ _ w' bs' seg' segs' hw' hrest' =>
      have hone := hw bs
      rw [hall, hw' bs'] at hone
      obtain ⟨hrx, hseg⟩ := Prod.mk.inj (Option.some.inj hone)
      obtain ⟨rfl, rfl⟩ := Prod.mk.inj hseg
      subst hrx
      obtain ⟨rfl, rfl⟩ := ih hrest'
      exact ⟨rfl, rfl⟩

end PeerReads

/-- The bytes that segments carry. -/
def payloads (segs : List (InboundMeta × Bytes)) : Bytes := (segs.map Prod.snd).flatten

/-- The open request, and data behind it. -/
def Opening (segs : List (InboundMeta × Bytes)) : Prop :=
  ∃ first datas, segs = first :: datas ∧ first.1.protocol = openSessionRequest ∧
    ∀ x ∈ datas, x.1.protocol = dataClientToServer

/-- One open request, data, and one close request, numbered from zero, that carry `bytes`. -/
structure OneSession (sessionId : UInt32) (bytes : Bytes) (segs : List (InboundMeta × Bytes)) :
    Prop where
  shape : ∃ opening close, segs = opening ++ [close] ∧ Opening opening ∧
    payloads opening = bytes ∧ close.1.protocol = closeSessionRequest ∧ close.2 = []
  numbered : segs.map (·.1.seq) = (List.range segs.length).map UInt32.ofNat
  session : ∀ x ∈ segs, x.1.sessionId = sessionId

/-- The peer reads the wire to its end, and finds one session that carries what was reported. -/
def Writing.Exact (key : ByteVec 32) (username : Bytes) (sessionId : UInt32) (v : Writing) : Prop :=
  ∃ segs rx, PeerReads (StatefulCipher.new key username) v.wire segs rx ∧
    OneSession sessionId v.reported segs

/-! ## One segment -/

variable {sha256}

/-- The peer opens the metadata, and looks at what is behind the prefix padding. -/
theorem peerRead_behind {rx rx₁ : StatefulCipher} {head block prefixPad : Bytes}
    (hopen : rx.decrypt head = (rx₁, .ok block))
    (hhead : head.length = rx.nonceLen + (metadataLength + tagSize))
    (hlead : (metadataFields block).prefixLen.toNat = prefixPad.length) (tail : Bytes) :
    peerRead rx (head ++ prefixPad ++ tail) =
      let m := metadataFields block
      let want := if m.payloadLen.toNat = 0 then 0 else m.payloadLen.toNat + tagSize
      if tail.length < want + m.suffixLen.toNat then none
      else if m.payloadLen.toNat = 0 then some (rx₁, (m, []), tail.drop m.suffixLen.toNat)
      else
        match rx₁.decrypt (tail.take want) with
        | (_, .error _) => none
        | (rx₂, .ok payload) => some (rx₂, (m, payload), tail.drop (want + m.suffixLen.toNat)) := by
  have htake : (head ++ prefixPad ++ tail).take (rx.nonceLen + (metadataLength + tagSize)) =
      head := by rw [List.append_assoc, List.take_left' hhead]
  have hdrop : (head ++ prefixPad ++ tail).drop (rx.nonceLen + (metadataLength + tagSize) +
      (metadataFields block).prefixLen.toNat) = tail := by
    rw [List.drop_left']
    rw [List.length_append, hhead, hlead]
  have hlen : (head ++ prefixPad ++ tail).length = rx.nonceLen + (metadataLength + tagSize) +
      (metadataFields block).prefixLen.toNat + tail.length := by
    rw [List.length_append, List.length_append, hhead, hlead]
  unfold peerRead
  dsimp only
  rw [if_neg (by rw [hlen]; omega), htake, hopen]
  dsimp only
  rw [hdrop, hlen]
  simp only [Nat.add_lt_add_iff_left]

/-- The peer takes what was sealed, and both ends have counted the same blocks. -/
theorem takes_sealed {tx tx₁ tx₂ rx : StatefulCipher} {rng : ByteVec 24}
    {block head payload body : Bytes} (prefixPad suffixPad : Bytes) (hstep : InStep tx rx)
    (hblock : block.length = metadataLength)
    (hhead : tx.encrypt sha256 rng block = (tx₁, .ok head))
    (hbody : SealsBody sha256 rng tx₁ tx₂ payload body)
    (hlead : (metadataFields block).prefixLen.toNat = prefixPad.length)
    (hlen : (metadataFields block).payloadLen.toNat = payload.length)
    (hsuffix : (metadataFields block).suffixLen.toNat = suffixPad.length) :
    ∃ rx₂, Takes rx (head ++ prefixPad ++ (body ++ suffixPad)) (metadataFields block, payload)
      rx₂ ∧ InStep tx₂ rx₂ ∧ rx₂.nonceLen = 0 := by
  obtain ⟨rx₁, hopen, hstep₁, hcount⟩ := decrypt_sealed hstep hhead
  have hheadLen := length_sealed hstep hhead
  rw [hblock, Nat.add_assoc] at hheadLen
  by_cases hp : payload = []
  · unfold SealsBody at hbody
    rw [if_pos hp] at hbody
    obtain ⟨rfl, rfl⟩ := hbody
    rw [hp, List.length_nil] at hlen
    refine ⟨rx₁, fun rest => ?_, hstep₁, hcount⟩
    rw [List.append_assoc, peerRead_behind hopen hheadLen hlead]
    dsimp only
    rw [if_pos hlen, if_pos hlen, if_neg, List.nil_append, List.drop_left' hsuffix.symm, hp]
    rw [List.nil_append, List.length_append, hsuffix]
    omega
  · have hbodyLen := length_body hstep₁ hcount hbody hp
    unfold SealsBody at hbody
    rw [if_neg hp] at hbody
    obtain ⟨rx₂, hopen₂, hstep₂, hcount₂⟩ := decrypt_sealed hstep₁ hbody
    have hpos : ¬ (metadataFields block).payloadLen.toNat = 0 := by
      rw [hlen]
      exact fun hzero => hp (List.eq_nil_of_length_eq_zero hzero)
    refine ⟨rx₂, fun rest => ?_, hstep₂, hcount₂⟩
    rw [List.append_assoc, peerRead_behind hopen hheadLen hlead]
    dsimp only
    rw [if_neg hpos, if_neg hpos, hlen, ← hbodyLen, if_neg, List.append_assoc, List.take_left,
      hopen₂]
    · dsimp only
      rw [← List.append_assoc, List.drop_left']
      rw [List.length_append, hsuffix]
    · rw [List.length_append, List.length_append, hsuffix]
      omega

/-- `s` has sealed a segment for the peer `rx`, and it is `s'` now. -/
structure Seals (rx : StatefulCipher) (s : MieruStream) (protocol : UInt8) (payload : Bytes)
    (s' : MieruStream) (w : Bytes) : Prop where
  stream : s' = { s with send := s'.send, nextSend := s.nextSend + 1 }
  username : s'.send.username = s.send.username
  takes : ∃ m rx', Takes rx w (m, payload) rx' ∧ InStep s'.send rx' ∧ rx'.nonceLen = 0 ∧
    m.protocol = protocol ∧ m.sessionId = s.sessionId ∧ m.seq = s.nextSend

theorem openPaddingLen_le (sha256 : Bytes → ByteVec 32) (username : Bytes) :
    openPaddingLen sha256 username ≤ 255 := by
  unfold openPaddingLen
  dsimp only
  have hleast := Nat.mod_lt ((sha256 username).val.getD 0 0).toNat (show 0 < 17 by decide)
  generalize ((sha256 username).val.getD 0 0).toNat % 17 = r at hleast
  have hdraw : ((sha256 username).val.getD 1 0).toNat % (255 - (24 + r) + 1) <
    255 - (24 + r) + 1 := Nat.mod_lt _ (Nat.succ_pos _)
  omega

theorem username_encrypt {tx tx' : StatefulCipher} {rng : ByteVec 24} {plain block : Bytes}
    (h : tx.encrypt sha256 rng plain = (tx', .ok block)) : tx'.username = tx.username := by
  obtain ⟨-, -, rfl, -⟩ := encrypt_ok h
  rfl

theorem stream_encrypt {s : MieruStream} {tx : StatefulCipher} {rng : ByteVec 24}
    {plain block : Bytes} (h : s.send.encrypt sha256 rng plain = (tx, .ok block)) :
    s.encrypt sha256 rng plain = ({ s with send := tx }, .ok block) := by
  unfold MieruStream.encrypt
  rw [h]

theorem buildSessionSegment_seals {rx : StatefulCipher} {s : MieruStream} (hstep : InStep s.send rx)
    (d : SegDraws) {p : UInt8} (status : UInt8) {payload : Bytes} (hp : isSessionProtocol p)
    (hlen : payload.length ≤ maxSessionOpenPayload) :
    ∃ s' w, s.buildSessionSegment sha256 d p status payload = (s', .ok w) ∧
      Seals rx s p payload s' w ∧ (payload = [] → w.length = rx.nonceLen + 48 +
        openPaddingLen sha256 s.send.username) := by
  have hlen' : payload.length ≤ 1024 := hlen
  have hpad := openPaddingLen_le sha256 s.send.username
  have hcount := toNat_length (show payload.length < 2 ^ 16 by omega)
  unfold MieruStream.buildSessionSegment
  dsimp only
  generalize openPaddingLen sha256 s.send.username = suffix at hpad ⊢
  have hparse := @parse_sessionStruct d.ts d.ts p s.sessionId s.nextSend status
    (UInt16.ofNat payload.length) (UInt8.ofNat suffix) hp (by simp [timestampOk])
    (by rw [hcount]; exact hlen)
  generalize sessionStruct d.ts p s.sessionId s.nextSend status (UInt16.ofNat payload.length)
    (UInt8.ofNat suffix) = block at hparse ⊢
  obtain ⟨hblock, -, -, hfields⟩ := parseMetadata_eq_ok.mp hparse
  obtain ⟨tx₁, head, hhead⟩ := @encrypt_short sha256 d.nonce s.send block
    (show block.length < 2 ^ 17 by rw [hblock]; decide)
  have hheadLen := length_sealed hstep hhead
  -- whatever the body is, the peer takes the segment
  have htakes : ∀ {tx₂ body}, SealsBody sha256 d.nonce tx₁ tx₂ payload body →
      Seals rx s p payload { s with send := tx₂, nextSend := s.nextSend + 1 }
        (head ++ body ++ (d.suffixBytes suffix).val) := by
    intro tx₂ body hbody
    obtain ⟨rx₂, htakes, hstep₂, hzero⟩ := takes_sealed [] (d.suffixBytes suffix).val hstep
      hblock hhead hbody (by rw [← hfields]; rfl) (by rw [← hfields]; exact hcount)
      (by rw [← hfields, ByteVec.length_val]; exact toNat_padding hpad)
    rw [← hfields, List.append_nil, ← List.append_assoc] at htakes
    refine ⟨rfl, ?_, _, rx₂, htakes, hstep₂, hzero, rfl, rfl, rfl⟩
    have huser := username_encrypt hhead
    unfold SealsBody at hbody
    split_ifs at hbody
    · rw [hbody.1, huser]
    · rw [← huser, username_encrypt hbody]
  rw [stream_encrypt (s := { s with nextSend := s.nextSend + 1 }) hhead]
  dsimp only
  by_cases hempty : payload = []
  · have hseals := htakes ((if_pos hempty).mpr ⟨rfl, rfl⟩ :
      SealsBody sha256 d.nonce tx₁ tx₁ payload [])
    rw [List.append_nil] at hseals
    rw [if_pos hempty]
    refine ⟨_, _, rfl, hseals, fun _ => ?_⟩
    rw [List.length_append, hheadLen, hblock, ByteVec.length_val]
    rfl
  · obtain ⟨tx₂, body, hbody⟩ := @encrypt_short sha256 d.nonce tx₁ payload
      (show payload.length < 2 ^ 17 by omega)
    have hseals := htakes ((if_neg hempty).mpr hbody :
      SealsBody sha256 d.nonce tx₁ tx₂ payload body)
    rw [if_neg hempty, stream_encrypt
      (s := { s with send := tx₁, nextSend := s.nextSend + 1 }) hbody]
    exact ⟨_, _, rfl, hseals, fun hnil => absurd hnil hempty⟩

theorem buildDataSegment_seals {rx : StatefulCipher} {s : MieruStream} (hstep : InStep s.send rx)
    (d : SegDraws) {payload : Bytes} (hne : payload ≠ []) (hlen : payload.length ≤ maxPdu) :
    ∃ s' w, s.buildDataSegment sha256 d payload = (s', .ok w) ∧
      Seals rx s dataClientToServer payload s' w := by
  have hlen' : payload.length ≤ 32768 := hlen
  have hcount := toNat_length (show payload.length < 2 ^ 16 by omega)
  have hbefore : dataPaddingLen d.prefixSeed ≤ 255 := Nat.le_of_lt_succ (Nat.mod_lt _ (by decide))
  have hpad : dataPaddingLen d.suffixSeed ≤ 255 := Nat.le_of_lt_succ (Nat.mod_lt _ (by decide))
  unfold MieruStream.buildDataSegment
  dsimp only
  generalize dataPaddingLen d.prefixSeed = before at hbefore ⊢
  generalize dataPaddingLen d.suffixSeed = suffix at hpad ⊢
  have hparse := @parse_dataAckStruct_all d.ts d.ts dataClientToServer s.sessionId s.nextSend 0
    (UInt16.ofNat (min segmentTreeCapacity (2 ^ 16 - 1))) 0 (UInt8.ofNat before)
    (UInt16.ofNat payload.length) (UInt8.ofNat suffix) (by decide) (by simp [timestampOk])
  generalize dataAckStruct d.ts dataClientToServer s.sessionId s.nextSend 0
    (UInt16.ofNat (min segmentTreeCapacity (2 ^ 16 - 1))) 0 (UInt8.ofNat before)
    (UInt16.ofNat payload.length) (UInt8.ofNat suffix) = block at hparse ⊢
  obtain ⟨hblock, -, -, hfields⟩ := parseMetadata_eq_ok.mp hparse
  obtain ⟨tx₁, head, hhead⟩ := @encrypt_short sha256 d.nonce s.send block
    (show block.length < 2 ^ 17 by rw [hblock]; decide)
  obtain ⟨tx₂, body, hbody⟩ := @encrypt_short sha256 d.nonce tx₁ payload
    (show payload.length < 2 ^ 17 by omega)
  obtain ⟨rx₂, htakes, hstep₂, hzero⟩ := takes_sealed (d.prefixBytes before).val
    (d.suffixBytes suffix).val hstep hblock hhead
    ((if_neg hne).mpr hbody : SealsBody sha256 d.nonce tx₁ tx₂ payload body)
    (by rw [← hfields, ByteVec.length_val]; exact toNat_padding hbefore)
    (by rw [← hfields]; exact hcount)
    (by rw [← hfields, ByteVec.length_val]; exact toNat_padding hpad)
  rw [← hfields, ← List.append_assoc] at htakes
  rw [stream_encrypt (s := { s with nextSend := s.nextSend + 1 }) hhead]
  dsimp only
  rw [stream_encrypt (s := { s with send := tx₁, nextSend := s.nextSend + 1 }) hbody]
  refine ⟨_, _, rfl, rfl, ?_, _, rx₂, htakes, hstep₂, hzero, rfl, rfl, rfl⟩
  rw [← username_encrypt hhead, ← username_encrypt hbody]

/-! ## What has been sealed -/

theorem payloads_append (xs ys : List (InboundMeta × Bytes)) :
    payloads (xs ++ ys) = payloads xs ++ payloads ys := by
  unfold payloads
  rw [List.map_append, List.flatten_append]

theorem payloads_singleton (x : InboundMeta × Bytes) : payloads [x] = x.2 := by
  unfold payloads
  rw [List.map_singleton, List.flatten_singleton]

/-- The peer finds `segs` in what was handed over, followed by `wbuf`: one session, numbered from
    zero. -/
structure Sealed (key : ByteVec 32) (username : Bytes) (sessionId : UInt32) (s : MieruStream)
    (wire : Bytes) (segs : List (InboundMeta × Bytes)) (rx : StatefulCipher) : Prop where
  reads : PeerReads (StatefulCipher.new key username) (wire ++ s.wbuf) segs rx
  inStep : InStep s.send rx
  user : s.send.username = username
  ident : s.sessionId = sessionId
  next : s.nextSend = UInt32.ofNat segs.length
  numbered : segs.map (·.1.seq) = (List.range segs.length).map UInt32.ofNat
  session : ∀ x ∈ segs, x.1.sessionId = sessionId
  nonce : segs ≠ [] → rx.nonceLen = 0

namespace Sealed

variable {key : ByteVec 32} {username : Bytes} {sessionId : UInt32} {s s' : MieruStream}
  {wire w : Bytes} {segs : List (InboundMeta × Bytes)} {rx : StatefulCipher}

theorem new (key : ByteVec 32) (username : Bytes) (sessionId : UInt32) :
    Sealed key username sessionId (MieruStream.new key username sessionId) [] []
      (StatefulCipher.new key username) where
  reads := .done _
  inStep := new_inStep key username username
  user := rfl
  ident := rfl
  next := rfl
  numbered := rfl
  session := nofun
  nonce := fun h => absurd rfl h

/-- Only the cipher, the numbers and the bytes in order count. -/
theorem congr (h : Sealed key username sessionId s wire segs rx) {t : MieruStream} {wire' : Bytes}
    (hsend : t.send = s.send) (hident : t.sessionId = s.sessionId) (hnext : t.nextSend = s.nextSend)
    (hall : wire' ++ t.wbuf = wire ++ s.wbuf) : Sealed key username sessionId t wire' segs rx where
  reads := by
    rw [hall]
    exact h.reads
  inStep := by
    rw [hsend]
    exact h.inStep
  user := by
    rw [hsend]
    exact h.user
  ident := hident.trans h.ident
  next := hnext.trans h.next
  numbered := h.numbered
  session := h.session
  nonce := h.nonce

/-- One more segment waits. -/
theorem sealing (h : Sealed key username sessionId s wire segs rx) {protocol : UInt8}
    {payload : Bytes} (hw : Seals rx s protocol payload s' w) :
    ∃ m rx', m.protocol = protocol ∧ Sealed key username sessionId
      { s' with wbuf := s.wbuf ++ w } wire (segs ++ [(m, payload)]) rx' := by
  obtain ⟨m, rx', htakes, hstep, hnonce, hprotocol, hsession, hseq⟩ := hw.takes
  refine ⟨m, rx', hprotocol, ?_, hstep, hw.username.trans h.user, ?_, ?_, ?_, ?_,
    fun _ => hnonce⟩
  · rw [← List.append_assoc]
    exact h.reads.append htakes
  · rw [hw.stream]
    exact h.ident
  · rw [hw.stream, List.length_append, UInt32.ofNat_add]
    exact congrArg (· + 1) h.next
  · rw [List.map_append, List.length_append, List.length_singleton, List.range_succ,
      List.map_append, h.numbered, List.map_singleton, List.map_singleton, hseq, h.next]
  · intro x hx
    rcases List.mem_append.mp hx with hx | hx
    · exact h.session x hx
    · rw [List.mem_singleton.mp hx]
      exact hsession.trans h.ident

end Sealed

variable {x : InboundMeta × Bytes} {segs : List (InboundMeta × Bytes)}

theorem Opening.single (h : x.1.protocol = openSessionRequest) :
    Opening [x] := ⟨x, [], rfl, h, nofun⟩

theorem Opening.protocol (h : Opening segs) (hx : x ∈ segs) :
    x.1.protocol ≠ closeSessionRequest := by
  obtain ⟨first, datas, rfl, hfirst, hdatas⟩ := h
  rcases List.mem_cons.mp hx with rfl | hx
  · rw [hfirst]
    decide
  · rw [hdatas x hx]
    decide

theorem Opening.snoc (h : Opening segs) (hx : x.1.protocol = dataClientToServer) :
    Opening (segs ++ [x]) := by
  obtain ⟨first, datas, rfl, hfirst, hdatas⟩ := h
  refine ⟨first, datas ++ [x], rfl, hfirst, fun y hy => ?_⟩
  rcases List.mem_append.mp hy with hy | hy
  · exact hdatas y hy
  · rw [List.mem_singleton.mp hy]
    exact hx

/-- `s'` has sealed a part of `buf` in `more`, behind `segs`. -/
structure Begun (s : MieruStream) (buf : Bytes) (segs more : List (InboundMeta × Bytes))
    (s' : MieruStream) : Prop where
  closed : s'.closed = s.closed
  opened : s'.openPending = false
  opening : Opening (segs ++ more)
  some : 0 < s'.pendingPlain
  carried : payloads more = buf.take s'.pendingPlain

theorem begin_seals {key : ByteVec 32} {username : Bytes} {sessionId : UInt32} {s : MieruStream}
    {wire : Bytes} {rx : StatefulCipher} (h : Sealed key username sessionId s wire segs rx)
    (hidle : s.wbuf = []) (hphase : if s.openPending then segs = [] else Opening segs) {buf : Bytes}
    (hne : buf ≠ []) (d d' : SegDraws) :
    ∃ s' more rx', s.begin sha256 d d' buf = (s', .ok ()) ∧
      Sealed key username sessionId s' wire (segs ++ more) rx' ∧ Begun s buf segs more s' := by
  have hpos := List.length_pos_of_ne_nil hne
  have hmax : 0 < min buf.length maxPdu := Nat.lt_min.mpr ⟨hpos, by decide⟩
  have hpart : (buf.take (min buf.length maxPdu)).length = min buf.length maxPdu :=
    List.length_take_of_le (Nat.min_le_left ..)
  have hpartNe : buf.take (min buf.length maxPdu) ≠ [] := by
    apply List.ne_nil_of_length_pos
    rw [hpart]
    exact hmax
  have hpartLe : (buf.take (min buf.length maxPdu)).length ≤ maxPdu := by
    rw [hpart]
    exact Nat.min_le_right ..
  unfold MieruStream.begin
  by_cases hpending : s.openPending = true
  · rw [if_pos hpending] at hphase ⊢
    subst hphase
    by_cases hshort : buf.length ≤ maxSessionOpenPayload
    · obtain ⟨s₁, w, hbuild, hseals, -⟩ := @buildSessionSegment_seals sha256 rx s h.inStep d
        openSessionRequest 0 buf (by decide) hshort
      obtain ⟨m, rx', hprotocol, hs₁⟩ := h.sealing hseals
      rw [if_pos hshort, hbuild]
      refine ⟨_, [(m, buf)], rx', rfl, hs₁.congr rfl rfl rfl ?_, ?_, rfl, .single hprotocol, hpos,
        ?_⟩
      · show wire ++ w = wire ++ (s.wbuf ++ w)
        rw [hidle, List.nil_append]
      · rw [hseals.stream]
      · show payloads [(m, buf)] = buf.take buf.length
        rw [payloads_singleton, List.take_length]
    · obtain ⟨s₁, w, hbuild, hseals, -⟩ := @buildSessionSegment_seals sha256 rx s h.inStep d
        openSessionRequest 0 [] (by decide) (Nat.zero_le _)
      obtain ⟨m, rx₁, hprotocol, hs₁⟩ := h.sealing hseals
      have hidle₁ : s₁.wbuf = [] := by
        rw [hseals.stream]
        exact hidle
      have hopened : Sealed key username sessionId s₁ (wire ++ w) [(m, [])] rx₁ := by
        refine hs₁.congr rfl rfl rfl ?_
        show wire ++ w ++ s₁.wbuf = wire ++ (s.wbuf ++ w)
        rw [hidle, hidle₁, List.append_nil, List.nil_append]
      obtain ⟨s₂, w', hbuild', hseals'⟩ :=
        @buildDataSegment_seals sha256 rx₁ s₁ hopened.inStep d' _ hpartNe hpartLe
      obtain ⟨m', rx₂, hprotocol', hs₂⟩ := hopened.sealing hseals'
      rw [if_neg hshort, hbuild]
      dsimp only
      rw [hbuild']
      refine ⟨_, [(m, []), (m', _)], rx₂, rfl, hs₂.congr rfl rfl rfl ?_, ?_, rfl,
        (Opening.single hprotocol).snoc hprotocol', hmax, ?_⟩
      · show wire ++ (w ++ w') = wire ++ w ++ (s₁.wbuf ++ w')
        rw [hidle₁, List.nil_append, List.append_assoc]
      · rw [hseals'.stream, hseals.stream]
      · exact List.append_nil _
  · rw [if_neg hpending] at hphase ⊢
    obtain ⟨s₁, w, hbuild, hseals⟩ :=
      @buildDataSegment_seals sha256 rx s h.inStep d' _ hpartNe hpartLe
    obtain ⟨m, rx', hprotocol, hs₁⟩ := h.sealing hseals
    dsimp only
    rw [hbuild]
    refine ⟨_, [(m, _)], rx', rfl, hs₁.congr rfl rfl rfl ?_, ?_, ?_, hphase.snoc hprotocol, hmax,
      payloads_singleton _⟩
    · show wire ++ w = wire ++ (s.wbuf ++ w)
      rw [hidle, List.nil_append]
    · rw [hseals.stream]
    · rw [hseals.stream]
      exact Bool.eq_false_iff.mpr hpending

/-! ## Handing over -/

namespace MieruStream

variable {A : Type} {grants : List Grant} {s : MieruStream}

/-- The transport takes all that waits. -/
theorem drain_through (h : Smooth grants) (hle : s.wbuf.length ≤ granted grants)
    (done : Poll (IoResult A)) :
    s.drain grants done = ⟨{ s with wbuf := [] }, s.wbuf, done⟩ := by
  have hleft := (@Smooth.writeOut_left_eq_nil_iff zeroBytes grants s.wbuf h).mpr hle
  have hsent := sent_writeOut hleft
  unfold drain
  dsimp only
  rcases @Smooth.writeOut_cases zeroBytes grants s.wbuf h with hres | ⟨-, hne⟩
  · rw [hres, hleft, hsent]
  · exact absurd hleft hne

/-- The transport stops before the end. -/
theorem drain_blocked (h : Smooth grants) (hlt : granted grants < s.wbuf.length)
    (done : Poll (IoResult A)) :
    ∃ sent left, sent ++ left = s.wbuf ∧ left ≠ [] ∧
      s.drain grants done = ⟨{ s with wbuf := left }, sent, .pending⟩ := by
  have hleft : (writeOut zeroBytes grants s.wbuf).left ≠ [] :=
    fun hnil => Nat.not_le.mpr hlt (h.writeOut_left_eq_nil_iff.mp hnil)
  refine ⟨_, _, writeOut_split zeroBytes grants s.wbuf, hleft, ?_⟩
  unfold drain
  dsimp only
  rcases @Smooth.writeOut_cases zeroBytes grants s.wbuf h with hres | ⟨hres, -⟩
  · exact absurd (left_writeOut hres) hleft
  · rw [hres]

end MieruStream

/-! ## Writes and flushes -/

/-- Nothing is on its way, and a segment is sealed. -/
theorem MieruStream.pollWrite_begins {s s' : MieruStream} {d d' : SegDraws} {buf : Bytes}
    (hlive : s.closed = false) (hne : buf ≠ []) (hidle : s.wbuf = [])
    (hbegin : s.begin sha256 d d' buf = (s', .ok ())) (grants : List Grant) :
    s.pollWrite sha256 d d' buf grants = s'.drain grants (.ready (.ok s'.pendingPlain)) := by
  unfold pollWrite
  rw [if_neg hne, hlive, if_neg Bool.false_ne_true, if_pos hidle, hbegin]

/-- A segment is on its way, and it is not sealed again. -/
theorem MieruStream.pollWrite_resumes {s : MieruStream} {buf : Bytes} (hlive : s.closed = false)
    (hne : buf ≠ []) (hbusy : s.wbuf ≠ []) (d d' : SegDraws) (grants : List Grant) :
    s.pollWrite sha256 d d' buf grants = s.drain grants (.ready (.ok s.pendingPlain)) := by
  unfold pollWrite
  rw [if_neg hne, hlive, if_neg Bool.false_ne_true, if_neg hbusy]

theorem MieruStream.openPending_drain {A : Type} (grants : List Grant) (s : MieruStream)
    (done : Poll (IoResult A)) : (s.drain grants done).stream.openPending = s.openPending := by
  unfold drain
  dsimp only
  split <;> rfl

namespace Writing

/-- The payload in `wbuf` that is not reported. -/
def waiting (u : Writing) : Bytes :=
  match u.writing with
  | none => []
  | some buf => if u.stream.wbuf = [] then [] else buf.take u.stream.pendingPlain

theorem waiting_idle {u : Writing} (h : u.stream.wbuf = []) : u.waiting = [] := by
  unfold waiting
  cases u.writing with
  | none => rfl
  | some buf => exact if_pos h

variable {key : ByteVec 32} {username : Bytes} {sessionId : UInt32}

/-- What is sealed is what is reported and what waits; more than that, once something was sealed
    again. -/
structure Inv (key : ByteVec 32) (username : Bytes) (sessionId : UInt32) (fine : Prop)
    (u : Writing) (segs : List (InboundMeta × Bytes)) (rx : StatefulCipher) : Prop where
  peer : Sealed key username sessionId u.stream u.wire segs rx
  live : u.stream.closed = false
  phase : if u.stream.openPending then segs = [] else Opening segs
  idle : u.writing = none → u.stream.wbuf = []
  carries : u.stream.wbuf ≠ [] → 0 < u.stream.pendingPlain
  nonempty : u.writing ≠ some []
  same : fine → payloads segs = u.reported ++ u.waiting
  again : ¬ fine → (u.reported ++ u.waiting).length < (payloads segs).length

variable {fine : Prop} {u : Writing} {segs : List (InboundMeta × Bytes)} {rx : StatefulCipher}

theorem new_inv (key : ByteVec 32) (username : Bytes) (sessionId : UInt32) :
    Inv key username sessionId True (new key username sessionId) []
      (StatefulCipher.new key username) where
  peer := .new key username sessionId
  live := rfl
  phase := rfl
  idle := fun _ => rfl
  carries := fun h => absurd rfl h
  nonempty := nofun
  same := fun _ => rfl
  again := fun h => absurd trivial h

theorem Inv.length_le (h : Inv key username sessionId fine u segs rx) :
    (u.reported ++ u.waiting).length ≤ (payloads segs).length := by
  by_cases hfine : fine
  · exact Nat.le_of_eq (congrArg List.length (h.same hfine)).symm
  · exact Nat.le_of_lt (h.again hfine)

variable {grants : List Grant} {polls : List ShutdownPoll}

/-- A write that has sealed hands over what waits. -/
theorem Inv.drain {s : MieruStream} {wire reported buf : Bytes}
    (hpeer : Sealed key username sessionId s wire segs rx) (hlive : s.closed = false)
    (hphase : if s.openPending then segs = [] else Opening segs) (hsome : 0 < s.pendingPlain)
    (hne : buf ≠ []) (hsmooth : Smooth grants)
    (hsame : fine → payloads segs = reported ++ buf.take s.pendingPlain)
    (hagain : ¬ fine → (reported ++ buf.take s.pendingPlain).length < (payloads segs).length) :
    let c := s.drain grants (.ready (.ok s.pendingPlain))
    Inv key username sessionId fine
      { stream := c.stream
        wire := wire ++ c.sent
        reported := reported ++ reportedOf buf c.res
        writing := if c.res = .pending then some buf else none } segs rx := by
  dsimp only
  by_cases hle : s.wbuf.length ≤ granted grants
  · rw [MieruStream.drain_through hsmooth hle, if_neg nofun]
    refine ⟨hpeer.congr rfl rfl rfl ?_, hlive, hphase, fun _ => rfl, fun h => absurd rfl h, nofun,
      fun h => ?_, fun h => ?_⟩
    · exact List.append_nil _
    · rw [waiting_idle rfl, List.append_nil]
      exact hsame h
    · rw [waiting_idle rfl, List.append_nil]
      exact hagain h
  · obtain ⟨sent, left, hsplit, hleft, hdrain⟩ :=
      MieruStream.drain_blocked hsmooth (Nat.not_le.mp hle) (.ready (.ok s.pendingPlain))
    have hwaiting : ∀ r, waiting ⟨{ s with wbuf := left }, wire ++ sent, r, some buf⟩ =
        buf.take s.pendingPlain := fun r => if_neg hleft
    rw [hdrain, if_pos rfl, show reportedOf buf .pending = [] from rfl, List.append_nil]
    refine ⟨hpeer.congr rfl rfl rfl ?_, hlive, hphase, nofun, fun _ => hsome, ?_, fun h => ?_,
      fun h => ?_⟩
    · show wire ++ sent ++ left = wire ++ s.wbuf
      rw [List.append_assoc, hsplit]
    · exact fun h => hne (Option.some.inj h)
    · rw [hwaiting]
      exact hsame h
    · rw [hwaiting]
      exact hagain h

/-- A write that is not empty, and what it has sealed when it hands over. -/
theorem Inv.write (h : Inv key username sessionId fine u segs rx) {d d' : SegDraws} {buf : Bytes}
    (hallowed : u.Allowed (.write d d' buf grants)) (hne : buf ≠ []) :
    ∃ segs' rx', Inv key username sessionId fine (u.step sha256 (.write d d' buf grants)) segs' rx' ∧
      (u.step sha256 (.write d d' buf grants)).stream.openPending = false := by
  obtain ⟨hwriting, hsmooth⟩ := hallowed
  unfold step
  by_cases hidle : u.stream.wbuf = []
  · obtain ⟨s', more, rx', hbegin, hpeer, hbegun⟩ :=
      @begin_seals sha256 _ _ _ _ _ _ _ h.peer hidle h.phase buf hne d d'
    have hcall := MieruStream.pollWrite_begins h.live hne hidle hbegin grants
    dsimp only
    rw [hcall]
    refine ⟨segs ++ more, rx', ?_, (MieruStream.openPending_drain ..).trans hbegun.opened⟩
    refine Inv.drain hpeer (hbegun.closed.trans h.live) ?_ hbegun.some hne hsmooth (fun hfine => ?_)
      (fun hfine => ?_)
    · rw [hbegun.opened]
      exact hbegun.opening
    · rw [payloads_append, hbegun.carried, h.same hfine, waiting_idle hidle, List.append_nil]
    · have hagain := h.again hfine
      rw [waiting_idle hidle, List.append_nil] at hagain
      rw [payloads_append, hbegun.carried, List.length_append, List.length_append]
      exact Nat.add_lt_add_right hagain _
  · -- the segment is sealed already, and `buf` is the buffer it was made from
    have hsame : u.writing = some buf :=
      hwriting.resolve_left fun hnone => hidle (h.idle hnone)
    have hwaiting : u.waiting = buf.take u.stream.pendingPlain := by
      unfold waiting
      rw [hsame]
      exact if_neg hidle
    have hstarted : u.stream.openPending = false := by
      refine Bool.eq_false_iff.mpr fun hpending => ?_
      have hphase := h.phase
      rw [if_pos hpending] at hphase
      have hreads := h.peer.reads
      rw [hphase] at hreads
      generalize hall : u.wire ++ u.stream.wbuf = all at hreads
      cases hreads
      exact hidle (List.append_eq_nil_iff.mp hall).2
    have hcall := @MieruStream.pollWrite_resumes sha256 _ _ h.live hne hidle d d' grants
    dsimp only
    rw [hcall]
    refine ⟨segs, rx, ?_, (MieruStream.openPending_drain ..).trans hstarted⟩
    refine Inv.drain h.peer h.live h.phase (h.carries hidle) hne hsmooth ?_ ?_
    · rw [← hwaiting]
      exact h.same
    · rw [← hwaiting]
      exact h.again

/-- A flush seals nothing; one that does not spare a write makes it seal again. -/
theorem Inv.flush (h : Inv key username sessionId fine u segs rx) (hsmooth : Smooth grants)
    (inner : Poll (IoResult Unit)) :
    Inv key username sessionId (fine ∧ u.Spares (.flush grants inner))
      (u.step sha256 (.flush grants inner)) segs rx ∧
      (u.step sha256 (.flush grants inner)).stream.openPending = u.stream.openPending := by
  unfold step MieruStream.pollFlush
  dsimp only
  by_cases hle : u.stream.wbuf.length ≤ granted grants
  · rw [MieruStream.drain_through hsmooth hle]
    have hnone : waiting ⟨{ u.stream with wbuf := [] }, u.wire ++ u.stream.wbuf, u.reported,
        u.writing⟩ = [] := waiting_idle rfl
    refine ⟨⟨h.peer.congr rfl rfl rfl (List.append_nil _), h.live, h.phase, fun _ => rfl,
      fun hne => absurd rfl hne, h.nonempty, fun ⟨hfine, hspares⟩ => ?_, fun hspoilt => ?_⟩, rfl⟩
    · rw [hnone, h.same hfine]
      rcases hspares with hwriting | hidle | hlt
      · rw [waiting_idle (h.idle hwriting)]
      · rw [waiting_idle hidle]
      · exact absurd hle (Nat.not_le.mpr hlt)
    · rw [hnone, List.append_nil]
      by_cases hwaiting : u.waiting = []
      · have hfine : ¬ fine := by
          refine fun hfine => hspoilt ⟨hfine, ?_⟩
          by_cases hidle : u.stream.wbuf = []
          · exact .inr (.inl hidle)
          · -- nothing waits only for a write that is ready
            left
            cases hwriting : u.writing with
            | none => rfl
            | some buf =>
              exfalso
              unfold waiting at hwaiting
              rw [hwriting] at hwaiting
              have htake := (if_neg hidle).symm.trans hwaiting
              rcases List.take_eq_nil_iff.mp htake with hzero | hnil
              · exact Nat.ne_of_gt (h.carries hidle) hzero
              · exact h.nonempty (hwriting.trans (congrArg some hnil))
        have hagain := h.again hfine
        rw [hwaiting, List.append_nil] at hagain
        exact hagain
      · have hlen := h.length_le
        rw [List.length_append] at hlen
        have hpos := List.length_pos_of_ne_nil hwaiting
        show u.reported.length < (payloads segs).length
        omega
  · have hlt := Nat.not_le.mp hle
    obtain ⟨sent, left, hsplit, hleft, hdrain⟩ := MieruStream.drain_blocked hsmooth hlt inner
    have hidle : u.stream.wbuf ≠ [] := by
      rintro hnil
      rw [hnil] at hlt
      exact Nat.not_lt_zero _ hlt
    have hwaiting : waiting ⟨{ u.stream with wbuf := left }, u.wire ++ sent, u.reported,
        u.writing⟩ = u.waiting := by
      unfold waiting
      cases u.writing with
      | none => rfl
      | some buf => exact (if_neg hleft).trans (if_neg hidle).symm
    rw [hdrain]
    refine ⟨⟨h.peer.congr rfl rfl rfl ?_, h.live, h.phase, fun hwriting => ?_,
      fun _ => h.carries hidle, h.nonempty, fun ⟨hfine, _⟩ => ?_, fun hspoilt => ?_⟩, rfl⟩
    · show u.wire ++ sent ++ left = u.wire ++ u.stream.wbuf
      rw [List.append_assoc, hsplit]
    · exact absurd (h.idle hwriting) hidle
    · rw [hwaiting]
      exact h.same hfine
    · rw [hwaiting]
      exact h.again fun hfine => hspoilt ⟨hfine, .inr (.inr hlt)⟩

theorem Inv.step (h : Inv key username sessionId fine u segs rx) {c : WriteCall}
    (hallowed : u.Allowed c) :
    ∃ segs' rx', Inv key username sessionId (fine ∧ u.Spares c) (u.step sha256 c) segs' rx' ∧
      ((u.step sha256 c).stream.openPending = false ↔
        u.stream.openPending = false ∨ c.Carries) := by
  cases c with
  | write d d' buf grants =>
    have hfine : (fine ∧ u.Spares (.write d d' buf grants)) = fine := and_true fine
    rw [hfine]
    by_cases hne : buf = []
    · subst hne
      have hnone : u.writing = none := hallowed.1.resolve_right h.nonempty
      have hsame : u.step sha256 (.write d d' [] grants) = u := by
        unfold Writing.step MieruStream.pollWrite
        dsimp only
        rw [if_pos rfl, if_neg nofun, List.append_nil, ← hnone]
        exact congrArg (fun r => { u with reported := r }) (List.append_nil u.reported)
      rw [hsame]
      exact ⟨segs, rx, h, (or_iff_left fun hne => hne rfl).symm⟩
    · obtain ⟨segs', rx', hinv, hopened⟩ := h.write hallowed hne
      exact ⟨segs', rx', hinv, iff_of_true hopened (.inr hne)⟩
  | flush grants inner =>
    obtain ⟨hinv, hopened⟩ := h.flush hallowed inner
    refine ⟨segs, rx, hinv, ?_⟩
    rw [hopened]
    exact (or_iff_left id).symm

theorem Inv.run (h : Inv key username sessionId fine u segs rx) {calls : List WriteCall}
    (hallowed : ∀ p ∈ Machine.steps (Writing.step sha256) u calls, p.1.Allowed p.2) :
    ∃ segs' rx', Inv key username sessionId
      (fine ∧ ∀ p ∈ Machine.steps (Writing.step sha256) u calls, p.1.Spares p.2)
      (calls.foldl (Writing.step sha256) u) segs' rx' ∧
      ((calls.foldl (Writing.step sha256) u).stream.openPending = false ↔
        u.stream.openPending = false ∨ ∃ c ∈ calls, c.Carries) := by
  induction calls generalizing fine u segs rx with
  | nil =>
    refine ⟨segs, rx, ?_, (or_iff_left ?_).symm⟩
    · have hfine : (fine ∧ ∀ p ∈ Machine.steps (Writing.step sha256) u [], p.1.Spares p.2) =
          fine := propext (and_iff_left nofun)
      rw [hfine]
      exact h
    · rintro ⟨c, hc, -⟩
      cases hc
  | cons c calls ih =>
    obtain ⟨segs₁, rx₁, hinv, hopened⟩ := h.step (hallowed (u, c) List.mem_cons_self)
    obtain ⟨segs₂, rx₂, hinv₂, hopened₂⟩ :=
      ih hinv fun p hp => hallowed p (List.mem_cons_of_mem _ hp)
    refine ⟨segs₂, rx₂, ?_, ?_⟩
    · have hfine : (fine ∧ ∀ p ∈ Machine.steps (Writing.step sha256) u (c :: calls),
          p.1.Spares p.2) = ((fine ∧ u.Spares c) ∧
            ∀ p ∈ Machine.steps (Writing.step sha256) (u.step sha256 c) calls, p.1.Spares p.2) := by
        rw [and_assoc]
        exact congrArg (fine ∧ ·) (propext List.forall_mem_cons)
      rw [hfine]
      exact hinv₂
    · rw [List.foldl_cons, hopened₂, hopened, or_assoc, List.exists_mem_cons_iff]

/-! ## The shutdown -/

/-- A poll of the shutdown seals a close request, whatever the polls before it have sealed. -/
theorem shutdown_seals (h : Sealed key username sessionId u.stream u.wire segs rx)
    {p : ShutdownPoll} (hsmooth : Smooth p.grants) :
    ∃ m rx', m.protocol = closeSessionRequest ∧
      Sealed key username sessionId (u.shutdown sha256 p).1.stream (u.shutdown sha256 p).1.wire
        (segs ++ [(m, [])]) rx' ∧
      (u.shutdown sha256 p).1.reported = u.reported ∧
      ((u.shutdown sha256 p).2 = .ready (.ok ()) → (u.shutdown sha256 p).1.stream.wbuf = []) ∧
      (u.stream.wbuf = [] → segs ≠ [] →
        ((u.shutdown sha256 p).2 = .ready (.ok ()) ↔ p.Passes sha256 username)) := by
  obtain ⟨s', w, hbuild, hseals, hlen⟩ := @buildSessionSegment_seals sha256 rx u.stream h.inStep
    p.draws closeSessionRequest 0 [] (by decide) (Nat.zero_le _)
  obtain ⟨m, rx', hprotocol, hs'⟩ := h.sealing hseals
  have hwbuf : s'.wbuf = u.stream.wbuf := by rw [hseals.stream]
  refine ⟨m, rx', hprotocol, ?_⟩
  unfold shutdown MieruStream.pollShutdown MieruStream.pollFlush
  rw [hbuild]
  dsimp only
  rw [hwbuf]
  by_cases hle : (u.stream.wbuf ++ w).length ≤ granted p.grants
  · have hdrain := @MieruStream.drain_through _ _ { s' with wbuf := u.stream.wbuf ++ w } hsmooth hle
      p.inner
    rw [hdrain]
    dsimp only
    have hpeer : Sealed key username sessionId { s' with wbuf := [] }
        (u.wire ++ (u.stream.wbuf ++ w)) (segs ++ [(m, [])]) rx' :=
      hs'.congr rfl rfl rfl (List.append_nil _)
    have hpasses : u.stream.wbuf = [] → segs ≠ [] →
        (p.Passes sha256 username ↔ p.inner = .ready (.ok ()) ∧ p.last = .ready (.ok ())) := by
      intro hidle hsegs
      refine and_iff_right ?_
      rw [hidle, List.nil_append, hlen rfl, h.nonce hsegs, h.user, Nat.zero_add] at hle
      exact hle
    by_cases hinner : p.inner = .ready (.ok ())
    · rw [hinner]
      refine ⟨hpeer, rfl, fun _ => rfl, fun hidle hsegs => ?_⟩
      rw [hpasses hidle hsegs]
      exact (and_iff_right hinner).symm
    · split
      · exact absurd ‹_› hinner
      · refine ⟨hpeer, rfl, fun _ => rfl, fun hidle hsegs => ?_⟩
        rw [hpasses hidle hsegs]
        exact iff_of_false hinner fun h => hinner h.1
  · obtain ⟨sent, left, hsplit, hleft, hdrain⟩ := @MieruStream.drain_blocked _ _
      { s' with wbuf := u.stream.wbuf ++ w } hsmooth (Nat.not_le.mp hle) p.inner
    rw [hdrain]
    dsimp only
    refine ⟨hs'.congr rfl rfl rfl ?_, rfl, nofun, fun hidle hsegs => iff_of_false nofun fun h' => ?_⟩
    · show u.wire ++ sent ++ left = u.wire ++ (u.stream.wbuf ++ w)
      rw [List.append_assoc]
      exact congrArg (u.wire ++ ·) hsplit
    · rw [hidle, List.nil_append, hlen rfl, h.nonce hsegs, h.user, Nat.zero_add] at hle
      exact hle h'.1

/-- Each poll leaves its close request on the wire. -/
theorem ShutsDown.closes {v : Writing} (h : ShutsDown sha256 u polls v)
    (hsmooth : ∀ p ∈ polls, Smooth p.grants)
    (hpeer : Sealed key username sessionId u.stream u.wire segs rx) :
    ∃ closes rx', closes.length = polls.length ∧
      (∀ x ∈ closes, x.1.protocol = closeSessionRequest ∧ x.2 = []) ∧
      Sealed key username sessionId v.stream v.wire (segs ++ closes) rx' ∧
      v.reported = u.reported ∧ v.stream.wbuf = [] := by
  induction h generalizing segs rx with
  | @ready u p h =>
    obtain ⟨m, rx', hprotocol, hs, hreported, hsent, -⟩ :=
      shutdown_seals hpeer (hsmooth p List.mem_cons_self)
    refine ⟨[(m, [])], rx', rfl, fun x hx => ?_, hs, hreported, hsent h⟩
    rw [List.mem_singleton.mp hx]
    exact ⟨hprotocol, rfl⟩
  | @again u v p polls h rest ih =>
    obtain ⟨m, rx₁, hprotocol, hs, hreported, -, -⟩ :=
      shutdown_seals hpeer (hsmooth p List.mem_cons_self)
    obtain ⟨closes, rx', hlen, hcloses, hs', hreported', hsent⟩ :=
      ih (fun p hp => hsmooth p (List.mem_cons_of_mem _ hp)) hs
    refine ⟨(m, []) :: closes, rx', congrArg (· + 1) hlen, fun x hx => ?_, ?_,
      hreported'.trans hreported, hsent⟩
    · rcases List.mem_cons.mp hx with rfl | hx
      · exact ⟨hprotocol, rfl⟩
      · exact hcloses x hx
    · rw [List.append_assoc] at hs'
      exact hs'

/-- One poll is enough exactly if the first passes. -/
theorem ShutsDown.once_iff {v : Writing} (h : ShutsDown sha256 u polls v)
    (hsmooth : ∀ p ∈ polls, Smooth p.grants)
    (hpeer : Sealed key username sessionId u.stream u.wire segs rx) (hidle : u.stream.wbuf = [])
    (hsegs : segs ≠ []) : polls.length = 1 ↔ ∃ p ∈ polls.head?, p.Passes sha256 username := by
  cases h with
  | @ready _ p h =>
    obtain ⟨-, -, -, -, -, -, hpasses⟩ := shutdown_seals hpeer (hsmooth p List.mem_cons_self)
    exact iff_of_true rfl ⟨p, rfl, (hpasses hidle hsegs).mp h⟩
  | @again _ _ p polls h rest =>
    obtain ⟨-, -, -, -, -, -, hpasses⟩ := shutdown_seals hpeer (hsmooth p List.mem_cons_self)
    refine iff_of_false (fun hone => ?_) ?_
    · cases rest <;> cases hone
    · rintro ⟨q, hq, hq'⟩
      obtain rfl := Option.some.inj hq
      rw [(hpasses hidle hsegs).mpr hq'] at h
      cases h

/-! ## Exact or not -/

/-- The close requests come last, so there is one of them, and what stands before them is the
    rest. -/
theorem oneSession_iff {s : MieruStream} {wire bytes : Bytes}
    {closes : List (InboundMeta × Bytes)} (pending : Bool)
    (hphase : if pending then segs = [] else Opening segs) (hne : closes ≠ [])
    (hcloses : ∀ x ∈ closes, x.1.protocol = closeSessionRequest ∧ x.2 = [])
    (hpeer : Sealed key username sessionId s wire (segs ++ closes) rx) :
    OneSession sessionId bytes (segs ++ closes) ↔
      pending = false ∧ payloads segs = bytes ∧ closes.length = 1 := by
  obtain ⟨others, last, rfl⟩ := (List.eq_nil_or_concat closes).resolve_left hne
  rw [List.concat_eq_append] at *
  constructor
  · rintro ⟨⟨opening, close, hsegs, hopening, hbytes, -, -⟩, -, -⟩
    rw [← List.append_assoc] at hsegs
    obtain ⟨rfl, -⟩ := List.append_inj' hsegs rfl
    have hothers : others = [] := by
      refine List.eq_nil_iff_forall_not_mem.mpr fun x hx => ?_
      exact hopening.protocol (List.mem_append_right _ hx)
        (hcloses x (List.mem_append_left _ hx)).1
    subst hothers
    rw [List.append_nil] at hopening hbytes
    refine ⟨Bool.eq_false_iff.mpr fun htrue => ?_, hbytes, rfl⟩
    rw [if_pos htrue] at hphase
    obtain ⟨first, datas, hcons, -, -⟩ := hopening
    rw [hphase] at hcons
    cases hcons
  · rintro ⟨hopened, hbytes, hone⟩
    have hothers : others = [] := by
      rw [List.length_append, List.length_singleton] at hone
      exact List.eq_nil_of_length_eq_zero (Nat.succ.inj hone)
    subst hothers
    rw [hopened] at hphase
    obtain ⟨hprotocol, hempty⟩ := hcloses last (List.mem_append_right _ List.mem_cons_self)
    exact ⟨⟨segs, last, rfl, hphase, hbytes, hprotocol, hempty⟩, hpeer.numbered, hpeer.session⟩

/-- The shutdown adds its close requests to what the writes have sealed. -/
theorem exact_closed (hinv : Inv key username sessionId fine u segs rx) (hdone : u.writing = none)
    {v : Writing} (hsmooth : ∀ p ∈ polls, Smooth p.grants) (hshut : ShutsDown sha256 u polls v) :
    v.Exact key username sessionId ↔
      u.stream.openPending = false ∧ fine ∧ polls.length = 1 := by
  have hidle := hinv.idle hdone
  obtain ⟨closes, rx', hlen, hcloses, hpeer, hreported, hsent⟩ := hshut.closes hsmooth hinv.peer
  have hne : closes ≠ [] := by
    rintro rfl
    cases hshut <;> cases hlen
  -- the peer reads the wire in one way
  have hreads := hpeer.reads
  rw [hsent, List.append_nil] at hreads
  have hunique : v.Exact key username sessionId ↔
      OneSession sessionId u.reported (segs ++ closes) := by
    rw [← hreported]
    constructor
    · rintro ⟨segs', rx'', hreads', hone⟩
      rw [(hreads.unique hreads').1]
      exact hone
    · intro hone
      exact ⟨_, rx', hreads, hone⟩
  have hcarried : payloads segs = u.reported ↔ fine := by
    constructor
    · intro hsame
      by_contra hfine
      have hagain := hinv.again hfine
      rw [waiting_idle hidle, List.append_nil, hsame] at hagain
      exact Nat.lt_irrefl _ hagain
    · intro hfine
      rw [hinv.same hfine, waiting_idle hidle, List.append_nil]
  rw [hunique, oneSession_iff u.stream.openPending hinv.phase hne hcloses hpeer, hcarried, hlen]

/-- The wire is exact just if something was written, no flush sent the rest of a write that was
    not ready, and the first poll of the shutdown passed. -/
theorem exact_iff (sha256 : Bytes → ByteVec 32) (key : ByteVec 32) (username : Bytes)
    (sessionId : UInt32) (calls : List WriteCall) (polls : List ShutdownPoll) (v : Writing)
    (hallowed : ∀ p ∈ Machine.steps (step sha256) (new key username sessionId) calls,
      p.1.Allowed p.2)
    (hdone : (calls.foldl (step sha256) (new key username sessionId)).writing = none)
    (hsmooth : ∀ p ∈ polls, Smooth p.grants)
    (hshut : ShutsDown sha256 (calls.foldl (step sha256) (new key username sessionId)) polls v) :
    v.Exact key username sessionId ↔
      (∃ c ∈ calls, c.Carries) ∧
      (∀ p ∈ Machine.steps (step sha256) (new key username sessionId) calls, p.1.Spares p.2) ∧
      ∃ p ∈ polls.head?, p.Passes sha256 username := by
  obtain ⟨segs, rx, hinv, hopened⟩ := (new_inv key username sessionId).run hallowed
  have hwrote : (calls.foldl (step sha256) (new key username sessionId)).stream.openPending =
      false ↔ ∃ c ∈ calls, c.Carries := hopened.trans (or_iff_right nofun)
  rw [true_and] at hinv
  rw [exact_closed hinv hdone hsmooth hshut, ← hwrote]
  refine and_congr_right fun hfalse => and_congr_right fun _ => ?_
  have hsegs : segs ≠ [] := by
    have hphase := hinv.phase
    rw [hfalse] at hphase
    obtain ⟨first, datas, rfl, -⟩ := hphase
    exact List.cons_ne_nil _ _
  exact hshut.once_iff hsmooth hinv.peer (hinv.idle hdone) hsegs

instance (u : Writing) (c : WriteCall) : Decidable (u.Allowed c) :=
  match c with
  | .write _ _ buf grants =>
    inferInstanceAs (Decidable ((u.writing = none ∨ u.writing = some buf) ∧ Smooth grants))
  | .flush grants _ => inferInstanceAs (Decidable (Smooth grants))

instance (u : Writing) (c : WriteCall) : Decidable (u.Spares c) :=
  match c with
  | .write _ _ _ _ => isTrue trivial
  | .flush grants _ => inferInstanceAs (Decidable (u.writing = none ∨ u.stream.wbuf = [] ∨
      granted grants < u.stream.wbuf.length))

/-- Nothing random. -/
def plainSegDraws : SegDraws where
  ts := 0
  nonce := ByteVec.zero 24
  prefixSeed := 0
  suffixSeed := 0
  prefixBytes := ByteVec.zero
  suffixBytes := ByteVec.zero

/-- Three bytes, taken in parts. -/
def threeBytes : List WriteCall :=
  [.write plainSegDraws plainSegDraws [1, 2, 3] [.ready (.ok 30), .pending],
    .flush [.ready (.ok 20)] .pending,
    .write plainSegDraws plainSegDraws [1, 2, 3] [.ready (.ok 300)]]

/-- A poll of the shutdown, for which the transport grants `n` bytes. -/
def closingPoll (n : Nat) : ShutdownPoll :=
  ⟨plainSegDraws, [.ready (.ok (n + 1))], .ready (.ok ()), .ready (.ok ())⟩

theorem exact_iff_sample :
    ((threeBytes.foldl (step fun _ => ByteVec.zero 32) (new (ByteVec.zero 32) [] 7)).shutdown
      (fun _ => ByteVec.zero 32) (closingPoll 300)).1.Exact (ByteVec.zero 32) [] 7 :=
  (exact_iff (fun _ => ByteVec.zero 32) (ByteVec.zero 32) [] 7 threeBytes [closingPoll 300] _
    (by decide +kernel) (by decide +kernel) (by decide +kernel)
    (.ready (by decide +kernel))).mpr
    ⟨⟨_, List.mem_cons_self, List.cons_ne_nil 1 [2, 3]⟩, by decide +kernel,
      ⟨_, rfl, by decide +kernel, rfl, rfl⟩⟩

/-- The transport takes 40 bytes of the close request at the first poll: the second seals
    another. -/
theorem closed_twice :
    (∀ p ∈ Machine.steps (step fun _ => ByteVec.zero 32) (new (ByteVec.zero 32) [] 7) threeBytes,
      p.1.Allowed p.2) ∧
    (threeBytes.foldl (step fun _ => ByteVec.zero 32) (new (ByteVec.zero 32) [] 7)).writing =
      none ∧
    ∃ v, ShutsDown (fun _ => ByteVec.zero 32)
      (threeBytes.foldl (step fun _ => ByteVec.zero 32) (new (ByteVec.zero 32) [] 7))
      [closingPoll 40, closingPoll 300] v ∧ ¬ v.Exact (ByteVec.zero 32) [] 7 := by
  have hallowed : ∀ p ∈ Machine.steps (step fun _ => ByteVec.zero 32)
      (new (ByteVec.zero 32) [] 7) threeBytes, p.1.Allowed p.2 := by decide +kernel
  have hdone : (threeBytes.foldl (step fun _ => ByteVec.zero 32)
      (new (ByteVec.zero 32) [] 7)).writing = none := by decide +kernel
  have hshut : ShutsDown (fun _ => ByteVec.zero 32)
      (threeBytes.foldl (step fun _ => ByteVec.zero 32) (new (ByteVec.zero 32) [] 7))
      [closingPoll 40, closingPoll 300] _ := .again (by decide +kernel) (.ready (by decide +kernel))
  obtain ⟨segs, rx, hinv, -⟩ := (new_inv (ByteVec.zero 32) [] 7).run hallowed
  refine ⟨hallowed, hdone, _, hshut, fun hexact => ?_⟩
  have hone := ((exact_closed hinv hdone (by decide +kernel) hshut).mp hexact).2.2
  cases hone

end Writing

end RustCrash.Mieru
