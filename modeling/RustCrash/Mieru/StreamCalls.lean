import RustCrash.Mieru.Blocks

/-
  One call of `parse_stream_segment` on what a peer has sealed.

  Between two calls the parser stands somewhere in the stream (`At`): it has opened the blocks
  of all earlier segments, and perhaps the metadata of the current one. A call that finds the
  whole segment takes it and a call that does not waits, unless a payload has arrived and its
  suffix padding has not: then the payload is opened and dropped (`parses`).
-/

/-! ## The parser

A segment is peeled off in up to four steps: the sealed metadata, the prefix padding, the
sealed payload, the suffix padding. When the bytes run out the parser returns and is called
again with more. It remembers that the metadata is open and that the prefix is gone, but not
the payload. -/

namespace RustCrash.Mieru

open Lib StatefulCipher

/-- What `parse_stream_segment` takes by reference. -/
structure StreamParser where
  recv : StatefulCipher
  rbuf : Bytes
  pendingMeta : Option InboundMeta
  prefixDone : Bool
  firstRead : Bool
  /-- What has been given to `decrypt`, in order; no part of the program reads it. -/
  opened : List Bytes

/-- The protocols that the peer may send. -/
def inboundProtocol (p : UInt8) : Bool :=
  isSessionProtocol p || p == dataServerToClient || p == ackServerToClient

namespace StreamParser

/-- `rbuf.split_to(n)`, then `decrypt`. -/
def openBlock (s : StreamParser) (n : Nat) : StreamParser × Result Bytes :=
  let enc := s.rbuf.take n
  let d := s.recv.decrypt enc
  ({ s with recv := d.1, rbuf := s.rbuf.drop n, opened := s.opened ++ [enc] }, d.2)

/-- The suffix padding. -/
def finish (s : StreamParser) (m : InboundMeta) (payload : Bytes) :
    StreamParser × Result (Option (InboundMeta × Bytes)) :=
  if 0 < m.suffixLen.toNat ∧ s.rbuf.length < m.suffixLen.toNat then (s, .ok none)
  else
    ({ s with rbuf := s.rbuf.drop m.suffixLen.toNat, pendingMeta := none },
      .ok (some (m, payload)))

/-- The payload. -/
def parsePayload (s : StreamParser) (m : InboundMeta) :
    StreamParser × Result (Option (InboundMeta × Bytes)) :=
  if 0 < m.payloadLen.toNat then
    let want := m.payloadLen.toNat + tagSize
    if s.rbuf.length < want then (s, .ok none)
    else
      match s.openBlock want with
      | (s, .error e) => (s, .error e)
      | (s, .ok payload) => s.finish m payload
  else s.finish m []

/-- The prefix padding. -/
def parseBody (s : StreamParser) (m : InboundMeta) :
    StreamParser × Result (Option (InboundMeta × Bytes)) :=
  if isSessionProtocol m.protocol = false ∧ s.prefixDone = false then
    if s.rbuf.length < m.prefixLen.toNat then (s, .ok none)
    else
      { s with rbuf := s.rbuf.drop m.prefixLen.toNat, prefixDone := true : StreamParser }.parsePayload m
  else s.parsePayload m

/-- The sealed metadata. -/
def parseHead (s : StreamParser) (now : UInt32) :
    StreamParser × Result (Option InboundMeta) :=
  let overhead := tagSize + (if s.firstRead then nonceSize else 0)
  if s.rbuf.length < metadataLength + overhead then (s, .ok none)
  else
    match s.openBlock (metadataLength + overhead) with
    | (s, .error e) => (s, .error e)
    | (s, .ok plain) =>
      let s := { s with firstRead := false }
      match parseMetadata now plain with
      | .error e => (s, .error e)
      | .ok m =>
        if inboundProtocol m.protocol then
          ({ s with pendingMeta := some m, prefixDone := false }, .ok (some m))
        else (s, .error (.protocol s!"mieru: unknown inbound protocol {m.protocol.toNat}"))

def parseStreamSegment (s : StreamParser) (now : UInt32) :
    StreamParser × Result (Option (InboundMeta × Bytes)) :=
  match s.pendingMeta with
  | some m => s.parseBody m
  | none =>
    match s.parseHead now with
    | (s, .error e) => (s, .error e)
    | (s, .ok none) => (s, .ok none)
    | (s, .ok (some m)) => s.parseBody m

end StreamParser

/-- The read loop, `run_tcp_underlay_reader`, with the segments it has handed on. -/
structure Reader where
  parser : StreamParser
  segments : List (InboundMeta × Bytes)
  /-- Why the loop ended. -/
  error : Option Error

/-- One `read` of the connection, in which the clock says `now`. -/
structure Read where
  now : UInt32
  bytes : Bytes

namespace Reader

def new (key : ByteVec 32) (username : Bytes) : Reader :=
  ⟨⟨StatefulCipher.new key username, [], none, false, true, []⟩, [], none⟩

/-- Call the parser until it wants more bytes or fails. -/
def parseFor (now : UInt32) : Nat → Reader → Reader
  | 0, r => r
  | n + 1, r =>
    match r.parser.parseStreamSegment now with
    | (p, .error e) => { r with parser := p, error := some e }
    | (p, .ok none) => { r with parser := p }
    | (p, .ok (some seg)) => parseFor now n { r with parser := p, segments := r.segments ++ [seg] }

/-- Every segment takes a byte or ends a pending one, so this many calls are enough. -/
def read (r : Reader) (a : Read) : Reader :=
  match r.error with
  | some _ => r
  | none =>
    let p := { r.parser with rbuf := r.parser.rbuf ++ a.bytes }
    parseFor a.now (p.rbuf.length + 2) { r with parser := p }

end Reader

end RustCrash.Mieru

/-! ## One call -/

namespace RustCrash.Mieru

open Lib StatefulCipher

/-! ## The peer -/

/-- A segment before it is sealed: the metadata as a block and as its fields, the payload and
    the two paddings. -/
structure Segment where
  block : Bytes
  info : InboundMeta
  prefixPad : Bytes
  payload : Bytes
  suffixPad : Bytes

/-- The metadata says what follows it, and a reader takes it at `now`. -/
structure Segment.WellFormed (g : Segment) (now : UInt32) : Prop where
  reads : parseMetadata now g.block = .ok g.info
  inbound : inboundProtocol g.info.protocol = true
  prefixLen : g.info.prefixLen.toNat = g.prefixPad.length
  payloadLen : g.info.payloadLen.toNat = g.payload.length
  suffixLen : g.info.suffixLen.toNat = g.suffixPad.length

/-- The segment handed on. -/
def Segment.pair (g : Segment) : InboundMeta × Bytes := (g.info, g.payload)

/-- A segment as it is sent. -/
structure SealedSegment where
  head : Bytes
  prefixPad : Bytes
  body : Bytes
  suffixPad : Bytes

namespace SealedSegment

def bytes (w : SealedSegment) : Bytes := w.head ++ (w.prefixPad ++ (w.body ++ w.suffixPad))

/-- The sealed blocks: an empty payload has none. -/
def blocks (w : SealedSegment) : List Bytes := w.head :: if w.body = [] then [] else [w.body]

/-- Where the suffix padding begins. -/
def bodyEnd (w : SealedSegment) : Nat := w.head.length + w.prefixPad.length + w.body.length

end SealedSegment

-- SHA-256
variable (sha256 : Bytes → ByteVec 32)

/-- `build_session_segment` and `build_data_segment`, for a metadata block that is given. -/
def Segment.seal (rng : ByteVec 24) (tx : StatefulCipher) (g : Segment) :
    StatefulCipher × Result SealedSegment :=
  match tx.encrypt sha256 rng g.block with
  | (tx, .error e) => (tx, .error e)
  | (tx, .ok head) =>
    if g.payload = [] then (tx, .ok ⟨head, g.prefixPad, [], g.suffixPad⟩)
    else
      match tx.encrypt sha256 rng g.payload with
      | (tx, .error e) => (tx, .error e)
      | (tx, .ok body) => (tx, .ok ⟨head, g.prefixPad, body, g.suffixPad⟩)

def sealAll (rng : ByteVec 24) : StatefulCipher → List Segment → Result (List SealedSegment)
  | _, [] => .ok []
  | tx, g :: gs =>
    match g.seal sha256 rng tx with
    | (_, .error e) => .error e
    | (tx, .ok w) => (sealAll rng tx gs).map (w :: ·)

/-- The bytes on the connection. -/
def wire (ws : List SealedSegment) : Bytes := (ws.map SealedSegment.bytes).flatten

/-! ## One segment -/

variable {sha256} {rng : ByteVec 24}

/-- How `tx` seals a payload, if there is one. -/
def SealsBody (sha256 : Bytes → ByteVec 32) (rng : ByteVec 24) (tx tx' : StatefulCipher)
    (payload body : Bytes) : Prop :=
  if payload = [] then tx' = tx ∧ body = [] else tx.encrypt sha256 rng payload = (tx', .ok body)

theorem seal_ok {tx tx' : StatefulCipher} {g : Segment} {w : SealedSegment}
    (h : g.seal sha256 rng tx = (tx', .ok w)) :
    ∃ txHead, tx.encrypt sha256 rng g.block = (txHead, .ok w.head) ∧
      SealsBody sha256 rng txHead tx' g.payload w.body ∧ w.prefixPad = g.prefixPad ∧
      w.suffixPad = g.suffixPad := by
  unfold Segment.seal at h
  unfold SealsBody
  cases hhead : tx.encrypt sha256 rng g.block with
  | mk txHead rhead =>
    rw [hhead] at h
    cases rhead with
    | error e => exact absurd (congrArg Prod.snd h) nofun
    | ok head =>
      dsimp only at h
      refine ⟨txHead, ?_⟩
      split_ifs at h ⊢ with hp
      · cases h
        exact ⟨rfl, ⟨rfl, rfl⟩, rfl, rfl⟩
      · cases hbody : txHead.encrypt sha256 rng g.payload with
        | mk txBody rbody =>
          rw [hbody] at h
          cases rbody with
          | error e => exact absurd (congrArg Prod.snd h) nofun
          | ok body =>
            cases h
            exact ⟨rfl, rfl, rfl, rfl⟩

/-- The body is the block that `parse_stream_segment` waits for and opens. -/
theorem length_body {tx tx' rx : StatefulCipher} {payload body : Bytes} (hstep : InStep tx rx)
    (hnonce : rx.nonceLen = 0) (h : SealsBody sha256 rng tx tx' payload body)
    (hp : payload ≠ []) : body.length = payload.length + tagSize := by
  unfold SealsBody at h
  rw [if_neg hp] at h
  rw [length_sealed hstep h, hnonce, Nat.zero_add]

theorem body_eq_nil {tx tx' : StatefulCipher} {payload body : Bytes}
    (h : SealsBody sha256 rng tx tx' payload body) : body = [] ↔ payload = [] := by
  unfold SealsBody at h
  by_cases hp : payload = []
  · rw [if_pos hp] at h
    exact iff_of_true h.2 hp
  · rw [if_neg hp] at h
    exact iff_of_false (sealed_ne_nil h) hp

/-- What a call of the parser does once the metadata of `g` is open. -/
structure Opened (sha256 : Bytes → ByteVec 32) (rng : ByteVec 24) (tx tx' : StatefulCipher)
    (g : Segment) (body : Bytes) (p : StreamParser) : Prop where
  now : ∃ now, g.WellFormed now
  inStep : InStep tx p.recv
  counted : p.recv.nonceLen = 0
  later : p.firstRead = false
  pending : p.pendingMeta = some g.info
  seals : SealsBody sha256 rng tx tx' g.payload body

namespace Opened

variable {tx tx' : StatefulCipher} {g : Segment} {body rest : Bytes} {p : StreamParser}

theorem payloadLen (h : Opened sha256 rng tx tx' g body p) :
    g.info.payloadLen.toNat = g.payload.length := h.now.choose_spec.payloadLen

theorem suffixLen (h : Opened sha256 rng tx tx' g body p) :
    g.info.suffixLen.toNat = g.suffixPad.length := h.now.choose_spec.suffixLen

theorem prefixLen (h : Opened sha256 rng tx tx' g body p) :
    g.info.prefixLen.toNat = g.prefixPad.length := h.now.choose_spec.prefixLen

/-- The payload is there: it is opened, and the suffix padding is looked at. -/
theorem parsePayload_some (h : Opened sha256 rng tx tx' g body p) (hp : g.payload ≠ [])
    (hrbuf : p.rbuf = body ++ rest) :
    ∃ rx, InStep tx' rx ∧ rx.nonceLen = 0 ∧ p.parsePayload g.info =
      (StreamParser.mk rx rest p.pendingMeta p.prefixDone p.firstRead
        (p.opened ++ [body])).finish g.info g.payload := by
  have hlen := length_body h.inStep h.counted h.seals hp
  have hseals := h.seals
  unfold SealsBody at hseals
  rw [if_neg hp] at hseals
  obtain ⟨rx, hopen, hstep, hcount⟩ := decrypt_sealed h.inStep hseals
  have hpos : 0 < g.info.payloadLen.toNat := by
    rw [h.payloadLen]
    exact List.length_pos_iff.mpr hp
  have hwant : g.info.payloadLen.toNat + tagSize = body.length := by
    rw [h.payloadLen, hlen]
  refine ⟨rx, hstep, hcount, ?_⟩
  unfold StreamParser.parsePayload StreamParser.openBlock
  dsimp only
  rw [if_pos hpos, hwant, hrbuf, List.length_append, if_neg (by omega), List.take_left,
    List.drop_left, hopen]

theorem parsePayload_nil (h : Opened sha256 rng tx tx' g body p) (hp : g.payload = []) :
    p.parsePayload g.info = p.finish g.info [] := by
  unfold StreamParser.parsePayload
  rw [if_neg (by rw [h.payloadLen, hp]; exact Nat.lt_irrefl 0)]

/-- All of the payload and the suffix padding. -/
theorem parsePayload_takes (h : Opened sha256 rng tx tx' g body p)
    (hrbuf : p.rbuf = body ++ (g.suffixPad ++ rest)) :
    ∃ rx, InStep tx' rx ∧ rx.nonceLen = 0 ∧ p.parsePayload g.info =
      (⟨rx, rest, none, p.prefixDone, p.firstRead, p.opened ++ if body = [] then [] else [body]⟩,
        .ok (some g.pair)) := by
  have hnil := body_eq_nil h.seals
  have hsuffix := h.suffixLen
  by_cases hp : g.payload = []
  · have hbody : body = [] := hnil.mpr hp
    have hseals := h.seals
    unfold SealsBody at hseals
    rw [if_pos hp] at hseals
    refine ⟨p.recv, hseals.1 ▸ h.inStep, h.counted, ?_⟩
    rw [h.parsePayload_nil hp, if_pos hbody, List.append_nil]
    unfold StreamParser.finish Segment.pair
    rw [hrbuf, hbody, List.nil_append, List.length_append, if_neg (by omega), hsuffix,
      List.drop_left, hp]
  · obtain ⟨rx, hstep, hcount, heq⟩ := h.parsePayload_some hp hrbuf
    refine ⟨rx, hstep, hcount, ?_⟩
    rw [heq, if_neg (fun hbody => hp (hnil.mp hbody))]
    unfold StreamParser.finish Segment.pair
    dsimp only
    rw [List.length_append, if_neg (by omega), hsuffix, List.drop_left]

/-- The payload is opened and dropped. -/
theorem parsePayload_loses (h : Opened sha256 rng tx tx' g body p) (hp : g.payload ≠ [])
    (hrbuf : p.rbuf = body ++ rest) (hshort : rest.length < g.suffixPad.length) :
    ∃ p', p.parsePayload g.info = (p', .ok none) ∧ p'.pendingMeta = some g.info ∧
      p'.opened = p.opened ++ [body] := by
  obtain ⟨rx, _, _, heq⟩ := h.parsePayload_some hp hrbuf
  refine ⟨{ p with recv := rx, rbuf := rest, opened := p.opened ++ [body] }, ?_, h.pending, rfl⟩
  rw [heq]
  unfold StreamParser.finish
  rw [if_pos (by rw [h.suffixLen]; exact ⟨by omega, hshort⟩)]

theorem parsePayload_waits (h : Opened sha256 rng tx tx' g body p)
    (hshort : if g.payload = [] then p.rbuf.length < g.suffixPad.length
      else p.rbuf.length < body.length) :
    p.parsePayload g.info = (p, .ok none) := by
  by_cases hp : g.payload = []
  · rw [if_pos hp] at hshort
    rw [h.parsePayload_nil hp]
    unfold StreamParser.finish
    rw [if_pos (by rw [h.suffixLen]; exact ⟨by omega, hshort⟩)]
  · rw [if_neg hp, length_body h.inStep h.counted h.seals hp, ← h.payloadLen] at hshort
    have hpos : 0 < g.info.payloadLen.toNat := by
      rw [h.payloadLen]
      exact List.length_pos_iff.mpr hp
    unfold StreamParser.parsePayload
    dsimp only
    rw [if_pos hpos, if_pos hshort]

/-- A session segment has no prefix padding to skip. -/
theorem prefixPad_session (h : Opened sha256 rng tx tx' g body p)
    (hs : isSessionProtocol g.info.protocol = true) : g.prefixPad = [] := by
  obtain ⟨now, hwf⟩ := h.now
  obtain ⟨_, _, _, hinfo⟩ := parseMetadata_eq_ok.mp hwf.reads
  have hzero : g.info.prefixLen = 0 := by
    rw [hinfo] at hs ⊢
    exact prefixLen_session hs
  apply List.eq_nil_of_length_eq_zero
  rw [← h.prefixLen, hzero]
  rfl

/-- The prefix padding is there, or has been skipped before. -/
theorem parseBody_skips (h : Opened sha256 rng tx tx' g body p)
    (hrbuf : p.rbuf = (if p.prefixDone then [] else g.prefixPad) ++ rest) :
    ∃ d, (d = true ∨ g.prefixPad = []) ∧
      p.parseBody g.info = { p with rbuf := rest, prefixDone := d : StreamParser }.parsePayload
        g.info := by
  unfold StreamParser.parseBody
  cases hdone : p.prefixDone with
  | true =>
    rw [hdone, if_pos rfl, List.nil_append] at hrbuf
    refine ⟨true, Or.inl rfl, ?_⟩
    rw [if_neg (by simp), ← hrbuf, ← hdone]
  | false =>
    rw [hdone, if_neg (by simp)] at hrbuf
    cases hs : isSessionProtocol g.info.protocol with
    | true =>
      have hnil := h.prefixPad_session hs
      rw [hnil, List.nil_append] at hrbuf
      refine ⟨false, Or.inr hnil, ?_⟩
      rw [if_neg (by simp), ← hrbuf, ← hdone]
    | false =>
      refine ⟨true, Or.inl rfl, ?_⟩
      rw [if_pos ⟨rfl, rfl⟩, hrbuf, List.length_append, h.prefixLen, if_neg (by omega),
        List.drop_left]

theorem parseBody_waits (h : Opened sha256 rng tx tx' g body p)
    (hshort : p.rbuf.length < (if p.prefixDone then [] else g.prefixPad).length) :
    p.parseBody g.info = (p, .ok none) := by
  unfold StreamParser.parseBody
  cases hdone : p.prefixDone with
  | true =>
    rw [hdone, if_pos rfl] at hshort
    exact absurd hshort (Nat.not_lt_zero _)
  | false =>
    rw [hdone, if_neg (by simp)] at hshort
    cases hs : isSessionProtocol g.info.protocol with
    | true =>
      rw [h.prefixPad_session hs] at hshort
      exact absurd hshort (Nat.not_lt_zero _)
    | false => rw [if_pos ⟨rfl, rfl⟩, h.prefixLen, if_pos hshort]

theorem skip (h : Opened sha256 rng tx tx' g body p) (d : Bool) (rest : Bytes) :
    Opened sha256 rng tx tx' g body { p with rbuf := rest, prefixDone := d } :=
  ⟨h.now, h.inStep, h.counted, h.later, h.pending, h.seals⟩

end Opened

/-! ## Where the parser stands -/

/-- The parser has opened the blocks `before` and, of what follows, holds or has taken the bytes
    `got`: either it waits for the metadata of the next segment, or this is open. -/
inductive At (sha256 : Bytes → ByteVec 32) (rng : ByteVec 24) (before : List Bytes)
    (tx : StatefulCipher) : List Segment → StreamParser → Bytes → Prop
  | between {gs : List Segment} {p : StreamParser} (hstep : InStep tx p.recv)
      (hfirst : p.firstRead = p.recv.nonce.isNone) (hpending : p.pendingMeta = none)
      (hopened : p.opened = before) : At sha256 rng before tx gs p p.rbuf
  | within {txHead : StatefulCipher} {g : Segment} {gs : List Segment} {p : StreamParser}
      {head : Bytes} (hhead : tx.encrypt sha256 rng g.block = (txHead, .ok head))
      (hstep : InStep txHead p.recv) (hcounted : p.recv.nonceLen = 0)
      (hlater : p.firstRead = false) (hpending : p.pendingMeta = some g.info)
      (hopened : p.opened = before ++ [head]) :
      At sha256 rng before tx (g :: gs) p
        (head ++ ((if p.prefixDone then g.prefixPad else []) ++ p.rbuf))

theorem append_of_prefix {a b r : Bytes} (h : r <+: a ++ b) (hlen : a.length ≤ r.length) :
    ∃ r', r = a ++ r' ∧ r' <+: b := by
  obtain ⟨r', rfl⟩ := List.prefix_of_prefix_length_le (List.prefix_append a b) h hlen
  exact ⟨r', rfl, (List.prefix_append_right_inj a).mp h⟩

/-- What a call gives, by how much of the segment `w` has arrived. -/
structure Parses (sha256 : Bytes → ByteVec 32) (rng : ByteVec 24) (before : List Bytes)
    (tx tx' : StatefulCipher) (g : Segment) (gs : List Segment) (w : SealedSegment) (got : Bytes)
    (out : StreamParser × Result (Option (InboundMeta × Bytes))) : Prop where
  /-- All of it. -/
  takes : w.bytes.length ≤ got.length → out.2 = .ok (some g.pair) ∧
    At sha256 rng (before ++ w.blocks) tx' gs out.1 (got.drop w.bytes.length)
  /-- The payload, but not its suffix padding. -/
  loses : w.body ≠ [] → w.bodyEnd ≤ got.length → got.length < w.bytes.length →
    out.2 = .ok none ∧ out.1.pendingMeta = some g.info ∧ out.1.opened = before ++ w.blocks
  /-- Less. -/
  waits : got.length < w.bytes.length → ¬ (w.body ≠ [] ∧ w.bodyEnd ≤ got.length) →
    out.2 = .ok none ∧ At sha256 rng before tx (g :: gs) out.1 got

section

variable {before : List Bytes} {tx txHead tx' : StatefulCipher} {g : Segment} {gs : List Segment}
  {w : SealedSegment} {p : StreamParser} {got later : Bytes}

/-- The call, once the metadata is open. -/
theorem parses_body (hhead : tx.encrypt sha256 rng g.block = (txHead, .ok w.head))
    (h : Opened sha256 rng txHead tx' g w.body p) (hopened : p.opened = before ++ [w.head])
    (hpfx : w.prefixPad = g.prefixPad) (hsuffix : w.suffixPad = g.suffixPad)
    (hgot : got = w.head ++ ((if p.prefixDone then g.prefixPad else []) ++ p.rbuf))
    (hwire : p.rbuf <+: (if p.prefixDone then [] else g.prefixPad) ++
      (w.body ++ (g.suffixPad ++ later))) :
    Parses sha256 rng before tx tx' g gs w got (p.parseBody g.info) := by
  have hbytes : w.bytes.length = w.head.length + (g.prefixPad.length + (w.body.length +
      g.suffixPad.length)) := by
    unfold SealedSegment.bytes
    rw [List.length_append, List.length_append, List.length_append, hpfx, hsuffix]
  have hend : w.bodyEnd = w.head.length + g.prefixPad.length + w.body.length := by
    unfold SealedSegment.bodyEnd
    rw [hpfx]
  have hsplit : (if p.prefixDone then g.prefixPad else []) ++
      (if p.prefixDone then [] else g.prefixPad) = g.prefixPad := by
    cases p.prefixDone <;> simp
  have hpads := congrArg List.length hsplit
  rw [List.length_append] at hpads
  have hlen : got.length = w.head.length + ((if p.prefixDone then g.prefixPad else []).length +
      p.rbuf.length) := by
    rw [hgot, List.length_append, List.length_append]
  by_cases hfront : p.rbuf.length < (if p.prefixDone then [] else g.prefixPad).length
  · -- in the prefix padding
    rw [h.parseBody_waits hfront]
    refine ⟨fun hall => absurd hall (by omega), fun _ hbody => absurd hbody (by omega),
      fun _ _ => ⟨rfl, ?_⟩⟩
    rw [hgot]
    exact At.within hhead h.inStep h.counted h.later h.pending hopened
  obtain ⟨r, hr, hr'⟩ := append_of_prefix hwire (by omega)
  obtain ⟨d, hd, hparse⟩ := h.parseBody_skips hr
  have hskip := h.skip d r
  have hgot' : got = w.head ++ ((if d then g.prefixPad else []) ++ r) := by
    rw [hgot, hr, ← List.append_assoc _ _ r, hsplit]
    rcases hd with rfl | hnil
    · rfl
    · rw [hnil]
      cases d <;> rfl
  have hlenr : got.length = w.head.length + (g.prefixPad.length + r.length) := by
    rw [hlen, hr, List.length_append]
    omega
  have hwaits : At sha256 rng before tx (g :: gs) { p with rbuf := r, prefixDone := d } got := by
    rw [hgot']
    exact At.within hhead h.inStep h.counted h.later h.pending hopened
  have hnil := body_eq_nil h.seals
  rw [hparse]
  by_cases hbody : r.length < w.body.length
  · -- in the payload
    have hp : g.payload ≠ [] := fun hp => by
      rw [hnil.mpr hp] at hbody
      exact absurd hbody (Nat.not_lt_zero _)
    rw [hskip.parsePayload_waits (by rw [if_neg hp]; exact hbody)]
    exact ⟨fun hall => absurd hall (by omega), fun _ hbody => absurd hbody (by omega),
      fun _ _ => ⟨rfl, hwaits⟩⟩
  obtain ⟨r2, rfl, hr2⟩ := append_of_prefix hr' (by omega)
  rw [List.length_append] at hlenr
  by_cases hsuf : r2.length < g.suffixPad.length
  · -- in the suffix padding
    by_cases hp : g.payload = []
    · have hbody : w.body = [] := hnil.mpr hp
      rw [hskip.parsePayload_waits (by rw [if_pos hp, hbody]; exact hsuf)]
      exact ⟨fun hall => absurd hall (by omega), fun hne => absurd hbody hne,
        fun _ _ => ⟨rfl, hwaits⟩⟩
    · have hne : w.body ≠ [] := fun hbody => hp (hnil.mp hbody)
      obtain ⟨p', heq, hpending, hopened'⟩ := hskip.parsePayload_loses hp rfl hsuf
      rw [heq]
      refine ⟨fun hall => absurd hall (by omega), fun _ _ _ => ⟨rfl, hpending, ?_⟩,
        fun _ hnot => absurd ⟨hne, by omega⟩ hnot⟩
      rw [hopened', hopened, List.append_assoc]
      unfold SealedSegment.blocks
      rw [if_neg hne]
      rfl
  · -- past it
    obtain ⟨r3, rfl, _⟩ := append_of_prefix hr2 (by omega)
    rw [List.length_append] at hlenr
    obtain ⟨rx, hstep, hcount, heq⟩ := hskip.parsePayload_takes rfl
    rw [heq]
    refine ⟨fun _ => ⟨rfl, ?_⟩, fun _ _ hlt => absurd hlt (by omega),
      fun hlt => absurd hlt (by omega)⟩
    have hdrop : got.drop w.bytes.length = r3 := by
      have hall : got = w.bytes ++ r3 := by
        unfold SealedSegment.bytes
        rw [hgot', hpfx, hsuffix]
        rcases hd with rfl | hnil
        · simp only [if_true, List.append_assoc]
        · rw [hnil]
          cases d <;> simp only [if_true, Bool.false_eq_true, if_false, List.append_assoc]
      rw [hall, List.drop_left]
    rw [hdrop]
    refine At.between hstep ?_ rfl ?_
    · have hsome : rx.nonce.isNone = false := by
        unfold nonceLen nonceSize at hcount
        cases hn : rx.nonce.isNone with
        | false => rfl
        | true => rw [hn] at hcount; cases hcount
      dsimp only
      rw [hsome, h.later]
    · dsimp only
      rw [hopened, List.append_assoc]
      rfl

/-- The head block, when all of it is there. -/
theorem parseHead_opens {now : UInt32} {head rest : Bytes} (hwf : g.WellFormed now)
    (hstep : InStep tx p.recv) (hfirst : p.firstRead = p.recv.nonce.isNone)
    (hhead : tx.encrypt sha256 rng g.block = (txHead, .ok head)) (hrbuf : p.rbuf = head ++ rest) :
    ∃ rx, InStep txHead rx ∧ rx.nonceLen = 0 ∧ p.parseHead now =
      (⟨rx, rest, some g.info, false, false, p.opened ++ [head]⟩, .ok (some g.info)) := by
  obtain ⟨rx, hopen, hstep', hcount⟩ := decrypt_sealed hstep hhead
  have hblock : g.block.length = metadataLength := (parseMetadata_eq_ok.mp hwf.reads).1
  have hlen : metadataLength + (tagSize + (if p.firstRead then nonceSize else 0)) =
      head.length := by
    rw [length_sealed hstep hhead, hblock, hfirst]
    unfold nonceLen
    omega
  refine ⟨rx, hstep', hcount, ?_⟩
  unfold StreamParser.parseHead StreamParser.openBlock
  dsimp only
  rw [hlen, hrbuf, List.length_append, if_neg (by omega), List.take_left, List.drop_left, hopen]
  dsimp only
  rw [hwf.reads]
  dsimp only
  rw [if_pos hwf.inbound]

theorem parseHead_waits {now : UInt32} {head : Bytes} (hblock : g.block.length = metadataLength)
    (hstep : InStep tx p.recv) (hfirst : p.firstRead = p.recv.nonce.isNone)
    (hhead : tx.encrypt sha256 rng g.block = (txHead, .ok head))
    (hshort : p.rbuf.length < head.length) : p.parseHead now = (p, .ok none) := by
  rw [length_sealed hstep hhead, hblock] at hshort
  unfold StreamParser.parseHead
  dsimp only
  rw [hfirst, if_pos]
  unfold nonceLen at hshort
  omega

/-- A call of the parser, from wherever it stands. -/
theorem parses {now : UInt32} (hwf : g.WellFormed now) (hseal : g.seal sha256 rng tx = (tx', .ok w))
    (hat : At sha256 rng before tx (g :: gs) p got) (hwire : got <+: w.bytes ++ later) :
    Parses sha256 rng before tx tx' g gs w got (p.parseStreamSegment now) := by
  obtain ⟨txHead, hhead, hbody, hpfx, hsuffix⟩ := seal_ok hseal
  have hbytes : w.bytes ++ later =
      w.head ++ (g.prefixPad ++ (w.body ++ (g.suffixPad ++ later))) := by
    unfold SealedSegment.bytes
    rw [hpfx, hsuffix]
    simp only [List.append_assoc]
  rw [hbytes] at hwire
  cases hat with
  | between hstep hfirst hpending hopened =>
    by_cases hshort : p.rbuf.length < w.head.length
    · have hnot : p.parseStreamSegment now = (p, .ok none) := by
        unfold StreamParser.parseStreamSegment
        rw [hpending]
        dsimp only
        rw [parseHead_waits (parseMetadata_eq_ok.mp hwf.reads).1 hstep hfirst hhead hshort]
      have hle : w.head.length ≤ w.bytes.length := by
        unfold SealedSegment.bytes
        rw [List.length_append]
        omega
      have hend : w.head.length ≤ w.bodyEnd := by
        unfold SealedSegment.bodyEnd
        omega
      rw [hnot]
      exact ⟨fun hall => absurd hall (by omega), fun _ hlt => absurd hlt (by omega),
        fun _ _ => ⟨rfl, At.between hstep hfirst hpending hopened⟩⟩
    · obtain ⟨r, hr, hr'⟩ := append_of_prefix hwire (by omega)
      obtain ⟨rx, hstep', hcount, heq⟩ := parseHead_opens hwf hstep hfirst hhead hr
      have hnext : p.parseStreamSegment now =
          (StreamParser.mk rx r (some g.info) false false (p.opened ++ [w.head])).parseBody
            g.info := by
        unfold StreamParser.parseStreamSegment
        rw [hpending]
        dsimp only
        rw [heq]
      rw [hnext]
      refine parses_body hhead ⟨⟨now, hwf⟩, hstep', hcount, rfl, rfl, hbody⟩ ?_ hpfx hsuffix hr hr'
      rw [hopened]
  | within hhead' hstep hcounted hlater hpending hopened =>
    rw [hhead] at hhead'
    cases hhead'
    have hnext : p.parseStreamSegment now = p.parseBody g.info := by
      unfold StreamParser.parseStreamSegment
      rw [hpending]
    rw [hnext]
    have hcancel := (List.prefix_append_right_inj w.head).mp hwire
    have hrest : p.rbuf <+: (if p.prefixDone then [] else g.prefixPad) ++
        (w.body ++ (g.suffixPad ++ later)) := by
      cases hdone : p.prefixDone with
      | true =>
        rw [hdone, if_pos rfl] at hcancel
        rw [if_pos rfl]
        exact (List.prefix_append_right_inj g.prefixPad).mp hcancel
      | false =>
        rw [hdone, if_neg (by simp), List.nil_append] at hcancel
        rw [if_neg (by simp)]
        exact hcancel
    exact parses_body hhead ⟨⟨now, hwf⟩, hstep, hcounted, hlater, hpending, hbody⟩ hopened
      hpfx hsuffix rfl hrest

end

variable {before : List Bytes} {tx : StatefulCipher} {p : StreamParser}

/-- Nothing is left of the stream. -/
theorem parses_nil {now : UInt32} {got : Bytes} (hat : At sha256 rng before tx [] p got)
    (hgot : got = []) : p.parseStreamSegment now = (p, .ok none) := by
  cases hat with
  | between hstep hfirst hpending hopened =>
    unfold StreamParser.parseStreamSegment
    rw [hpending]
    dsimp only
    unfold StreamParser.parseHead
    dsimp only
    rw [if_pos]
    rw [hgot]
    simp [metadataLength]

/-- More bytes arrive. -/
theorem At.arrive {gs : List Segment} {got : Bytes} (hat : At sha256 rng before tx gs p got)
    (more : Bytes) :
    At sha256 rng before tx gs { p with rbuf := p.rbuf ++ more } (got ++ more) := by
  cases hat with
  | between hstep hfirst hpending hopened => exact At.between hstep hfirst hpending hopened
  | within hhead hstep hcounted hlater hpending hopened =>
    rw [List.append_assoc, List.append_assoc]
    exact At.within hhead hstep hcounted hlater hpending hopened

/-! ## Counting blocks -/

/-- The blocks of a segment with this metadata. -/
def InboundMeta.blockCount (m : InboundMeta) : Nat := if 0 < m.payloadLen.toNat then 2 else 1

/-- A pending segment has its first block open. -/
def StreamParser.pendingCount (p : StreamParser) : Nat := if p.pendingMeta.isSome then 1 else 0

theorem StreamParser.pendingCount_le (p : StreamParser) : p.pendingCount ≤ 1 := by
  unfold pendingCount
  split_ifs <;> decide

theorem At.opened_length {gs : List Segment} {got : Bytes} (hat : At sha256 rng before tx gs p got) :
    before.length + p.pendingCount ≤ p.opened.length := by
  unfold StreamParser.pendingCount
  cases hat with
  | between hstep hfirst hpending hopened =>
    rw [hpending, hopened]
    exact Nat.le_refl _
  | within hhead hstep hcounted hlater hpending hopened =>
    rw [hpending, hopened, List.length_append]
    exact Nat.le_refl _

theorem InboundMeta.blockCount_pos (m : InboundMeta) : 1 ≤ m.blockCount := by
  unfold blockCount
  split_ifs <;> decide

/-- After a call, the blocks opened cover `k`, a segment that was handed on and one that is
    pending. A segment that was handed on left fewer than `b` bytes. -/
structure Handles (k b : Nat) (out : StreamParser × Result (Option (InboundMeta × Bytes))) :
    Prop where
  taken : ∀ {m payload}, out.2 = .ok (some (m, payload)) → out.1.pendingMeta = none ∧
    out.1.rbuf.length < b ∧ k + m.blockCount ≤ out.1.opened.length
  other : (∀ x, out.2 ≠ .ok (some x)) → k + out.1.pendingCount ≤ out.1.opened.length

theorem handles_other {k b : Nat} {res : Result (Option (InboundMeta × Bytes))}
    (hres : ∀ x, res ≠ .ok (some x)) (h : k + p.pendingCount ≤ p.opened.length) :
    Handles k b (p, res) :=
  ⟨fun {m payload} hsome => absurd hsome (hres (m, payload)), fun _ => h⟩

theorem finish_handles {k : Nat} {m : InboundMeta} {payload : Bytes}
    (h : k + m.blockCount ≤ p.opened.length) :
    Handles k (p.rbuf.length + 1) (p.finish m payload) := by
  have hpending := p.pendingCount_le
  have hblocks := m.blockCount_pos
  unfold StreamParser.finish
  split_ifs
  · exact handles_other nofun (by omega)
  · refine ⟨?_, fun hnot => absurd rfl (hnot (m, payload))⟩
    intro m' payload' heq
    cases heq
    refine ⟨rfl, ?_, h⟩
    dsimp only
    rw [List.length_drop]
    omega

theorem Handles.mono {k b b' : Nat} {out : StreamParser × Result (Option (InboundMeta × Bytes))}
    (h : Handles k b out) (hb : b ≤ b') : Handles k b' out := by
  refine ⟨fun hsome => ?_, h.other⟩
  obtain ⟨hnone, hrbuf, hcount⟩ := h.taken hsome
  exact ⟨hnone, Nat.lt_of_lt_of_le hrbuf hb, hcount⟩

/-- A block is opened once and its bytes are gone, whether it opens or not. -/
theorem openBlock_spends (p : StreamParser) (n : Nat) :
    (p.openBlock n).1.rbuf.length = p.rbuf.length - n ∧
      (p.openBlock n).1.opened.length = p.opened.length + 1 ∧
      (p.openBlock n).1.pendingMeta = p.pendingMeta :=
  ⟨List.length_drop, List.length_append, rfl⟩

theorem parsePayload_handles {k : Nat} (m : InboundMeta) (h : k + 1 ≤ p.opened.length) :
    Handles k (p.rbuf.length + 1) (p.parsePayload m) := by
  have hpending := p.pendingCount_le
  unfold StreamParser.parsePayload
  by_cases hpos : 0 < m.payloadLen.toNat
  · rw [if_pos hpos]
    dsimp only
    split_ifs
    · exact handles_other nofun (by omega)
    · obtain ⟨hrbuf, hopened, _⟩ := openBlock_spends p (m.payloadLen.toNat + tagSize)
      cases hopen : p.openBlock (m.payloadLen.toNat + tagSize) with
      | mk q res =>
        rw [hopen] at hrbuf hopened
        dsimp only at hrbuf hopened
        have hq := q.pendingCount_le
        cases res with
        | error e => exact handles_other nofun (by omega)
        | ok payload =>
          have hcount : k + m.blockCount ≤ q.opened.length := by
            unfold InboundMeta.blockCount
            rw [if_pos hpos]
            omega
          exact (finish_handles hcount).mono (by omega)
  · rw [if_neg hpos]
    refine finish_handles ?_
    unfold InboundMeta.blockCount
    rw [if_neg hpos]
    exact h

theorem parseBody_handles {k : Nat} (m : InboundMeta) (h : k + 1 ≤ p.opened.length) :
    Handles k (p.rbuf.length + 1) (p.parseBody m) := by
  have hpending := p.pendingCount_le
  unfold StreamParser.parseBody
  split_ifs
  · exact handles_other nofun (by omega)
  · refine Handles.mono (parsePayload_handles m h) ?_
    dsimp only
    rw [List.length_drop]
    omega
  · exact parsePayload_handles m h

/-- One call. A segment that was handed on took bytes, or was pending before. -/
theorem parse_handles {k : Nat} (now : UInt32) (h : k + p.pendingCount ≤ p.opened.length) :
    Handles k (p.rbuf.length + p.pendingCount) (p.parseStreamSegment now) := by
  unfold StreamParser.parseStreamSegment
  cases hpending : p.pendingMeta with
  | some m =>
    have hone : p.pendingCount = 1 := by
      unfold StreamParser.pendingCount
      rw [hpending]
      rfl
    exact (parseBody_handles m (by omega)).mono (by omega)
  | none =>
    have hzero : p.pendingCount = 0 := by
      unfold StreamParser.pendingCount
      rw [hpending]
      rfl
    unfold StreamParser.parseHead
    dsimp only
    generalize hn : metadataLength + (tagSize + if p.firstRead then nonceSize else 0) = n
    have hlong : 1 ≤ n := by
      rw [← hn]
      unfold metadataLength
      omega
    by_cases hshort : p.rbuf.length < n
    · rw [if_pos hshort]
      exact handles_other nofun h
    · rw [if_neg hshort]
      obtain ⟨hrbuf, hopened, hsame⟩ := openBlock_spends p n
      cases hopen : p.openBlock n with
      | mk q res =>
        rw [hopen] at hrbuf hopened hsame
        dsimp only at hrbuf hopened hsame
        have hq := q.pendingCount_le
        cases res with
        | error e => exact handles_other nofun (by omega)
        | ok plain =>
          dsimp only
          cases parseMetadata now plain with
          | error e =>
            refine handles_other nofun ?_
            have hle := StreamParser.pendingCount_le { q with firstRead := false }
            dsimp only at hle ⊢
            omega
          | ok m =>
            dsimp only
            split_ifs
            · exact (parseBody_handles m (by dsimp only; omega)).mono (by dsimp only; omega)
            · refine handles_other nofun ?_
              have hle := StreamParser.pendingCount_le { q with firstRead := false }
              dsimp only at hle ⊢
              omega

end RustCrash.Mieru
