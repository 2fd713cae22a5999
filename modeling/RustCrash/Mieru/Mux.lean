import RustCrash.Mieru.Receive

/-
  `MieruMux` on the UDP transport: underlays, each with a key of its own for the metadata of
  what arrives, and the sessions that are opened on them.

  The key is derived from the time, rounded to two minutes. An underlay derives it when it is
  made and a session when it joins, which may be much later: the two keys agree throughout a run
  exactly if every session joins at a time that rounds as that of its underlay does
  (`mux_coherent`).
-/

namespace RustCrash.Mieru

open Lib

/-! ## The key -/

def keyLen : Nat := 32
def keyIter : Nat := 64
def keyRefreshSecs : Int := 120

section Key

-- SHA-256, and HMAC over it of a key and a message
variable (sha256 : Bytes → ByteVec 32) (hmac : Bytes → Bytes → ByteVec 32)

def hashPassword (password username : Bytes) : ByteVec 32 := sha256 (password ++ 0 :: username)

/-- `iterations - 1` more rounds after `u`, each xored onto `t`. -/
def pbkdf2Rounds (password : Bytes) : Nat → ByteVec 32 → Bytes → Bytes
  | 0, _, t => t
  | n + 1, u, t =>
    let u := hmac password u.val
    pbkdf2Rounds password n u (t.zipWith (· ^^^ ·) u.val)

def pbkdf2Block (password salt : Bytes) (iterations : Nat) (block : UInt32) : Bytes :=
  let u := hmac password (salt ++ be32 block)
  pbkdf2Rounds hmac password (iterations - 1) u u.val

/-- Each block has 32 bytes, so `outLen / 32`, rounded up, are enough. -/
def pbkdf2HmacSha256 (password salt : Bytes) (iterations outLen : Nat) : Bytes :=
  ((List.range ((outLen + 31) / 32)).flatMap fun i =>
    pbkdf2Block hmac password salt iterations (UInt32.ofNat (i + 1))).take outLen

def roundToInterval (unixSecs : Int) : Int :=
  let q := unixSecs / keyRefreshSecs
  let r := unixSecs % keyRefreshSecs
  let quotient := if keyRefreshSecs ≤ r * 2 then q + 1 else q
  quotient * keyRefreshSecs

def saltAt (seconds : Int) : ByteVec 32 := sha256 (toBE 8 (seconds % 2 ^ 64).toNat)

def saltForTime (unixSecs : Int) : ByteVec 32 := saltAt sha256 (roundToInterval unixSecs)

variable {hmac}

theorem length_pbkdf2Rounds (password : Bytes) (n : Nat) (u : ByteVec 32) (t : Bytes)
    (ht : t.length = 32) : (pbkdf2Rounds hmac password n u t).length = 32 := by
  induction n generalizing u t with
  | zero => exact ht
  | succ n ih =>
    apply ih
    rw [List.length_zipWith, ht, ByteVec.length_val, Nat.min_self]

theorem length_pbkdf2Block (password salt : Bytes) (iterations : Nat) (block : UInt32) :
    (pbkdf2Block hmac password salt iterations block).length = 32 :=
  length_pbkdf2Rounds password _ _ _ (ByteVec.length_val _)

theorem length_pbkdf2 (password salt : Bytes) (iterations : Nat) :
    (pbkdf2HmacSha256 hmac password salt iterations keyLen).length = keyLen := by
  have hone : List.range ((keyLen + 31) / 32) = [0] := rfl
  unfold pbkdf2HmacSha256
  rw [hone, List.flatMap_singleton, List.length_take, length_pbkdf2Block]
  rfl

variable (hmac)

def clientKeyBytes (password username : Bytes) (unixSecs : Int) : Bytes :=
  pbkdf2HmacSha256 hmac (hashPassword sha256 password username).val
    (saltForTime sha256 unixSecs).val keyIter keyLen

theorem length_clientKeyBytes (password username : Bytes) (unixSecs : Int) :
    (clientKeyBytes sha256 hmac password username unixSecs).length = keyLen := by
  unfold clientKeyBytes
  apply length_pbkdf2

def clientKey (password username : Bytes) (unixSecs : Int) : ByteVec keyLen :=
  ⟨clientKeyBytes sha256 hmac password username unixSecs, length_clientKeyBytes _ _ _ _ _⟩

end Key

/-- The key depends on the rounded time only. -/
theorem clientKey_congr {sha256 : Bytes → ByteVec 32} {hmac : Bytes → Bytes → ByteVec 32}
    (password username : Bytes) {t u : Int} (h : roundToInterval t = roundToInterval u) :
    clientKey sha256 hmac password username t = clientKey sha256 hmac password username u := by
  unfold clientKey clientKeyBytes saltForTime
  simp only [h]

/-! ## The mux -/

inductive Multiplexing where
  | off
  | low
  | middle
  | high
  deriving DecidableEq

def Multiplexing.factor : Multiplexing → Nat
  | off => 0
  | low => 1
  | middle => 2
  | high => 3

/-- What the demux loop hands to a session. -/
structure DemuxedDgram where
  info : InboundMeta
  nonce : ByteVec 24
  rest : Bytes

/-- A session's engine and the channel to it. -/
structure MuxSession (F : Type) where
  engine : PacketEngine F
  inbox : List DemuxedDgram

def sessionChannel : Nat := 64

/-- `UnderlayHandle` with its `UdpUnderlay`. -/
structure UnderlayHandle (F : Type) where
  /-- When the key was derived. -/
  made : Int
  /-- The key of the demux loop. -/
  cipher : ByteVec 32
  /-- Every session opened on it; `sessions` has the places of those that get datagrams. -/
  opened : List (MuxSession F)
  sessions : AList fun _ : UInt32 => Nat
  alive : Bool
  disabled : Bool
  sessionCount : Nat
  inBytes : Nat
  outBytes : Nat

structure MieruMux (F : Type) where
  password : Bytes
  username : Bytes
  multiplexing : Multiplexing
  /-- Every underlay ever made. -/
  handles : List (UnderlayHandle F)
  /-- The places of those in the mux list. -/
  underlays : List Nat
  /-- The dials that have their underlay, and whether it was made for them. -/
  dialing : List (Nat × Bool)

/-- What one turn of an engine takes up. -/
inductive Turn where
  | app (bytes : Bytes)
  | appEof
  | inbox
  | timer

inductive MuxAction (F : Type) where
  /-- A dial takes an underlay. `draw` is the random number, and the clock is read when there
      is a key to derive. -/
  | pick (clock : Int) (draw : Nat)
  /-- A new underlay does not connect. -/
  | refused (k : Nat)
  /-- A dial opens its session. -/
  | join (k : Nat) (clock : Int) (sid : { id : UInt32 // id ≠ 0 }) (e : Env F)
  | datagram (i : Nat) (minutes : UInt32) (bytes : Bytes)
  | turn (i j : Nat) (e : Env F) (t : Turn)
  /-- The demux loop ends. -/
  | demuxEnd (i : Nat)

namespace UnderlayHandle

variable {F : Type}

def disable (h : UnderlayHandle F) : UnderlayHandle F := { h with disabled := true }

/-- `close`; the loop ends when it finds out. -/
def close (h : UnderlayHandle F) : UnderlayHandle F := h.disable

/-- One underlay in `clean_underlays`, and whether it is kept. -/
def swept (factor : Nat) (h : UnderlayHandle F) : UnderlayHandle F × Bool :=
  let limit := 512 * 2 ^ factor
  if h.alive = false then (h, false)
  else if h.sessionCount = 0 then (h.close, false)
  else if 0 < limit ∧ (limit < h.inBytes ∨ limit < h.outBytes) then (h.disable, true)
  else (h, true)

/-- The end of `dial`. -/
def addSession (h : UnderlayHandle F) (sid : UInt32) (engine : PacketEngine F) :
    UnderlayHandle F :=
  { h with
    sessionCount := h.sessionCount + 1
    opened := h.opened ++ [⟨engine, []⟩]
    sessions := h.sessions.insert sid h.opened.length }

/-- `try_send`. -/
def trySend (h : UnderlayHandle F) (j : Nat) (d : DemuxedDgram) : UnderlayHandle F :=
  { h with
    opened := h.opened.modify j fun x =>
      if x.inbox.length < sessionChannel then { x with inbox := x.inbox ++ [d] } else x }

/-- One round of `run_udp_demux`. -/
def demux (h : UnderlayHandle F) (minutes : UInt32) (bytes : Bytes) : UnderlayHandle F :=
  if h.alive = false then h
  else
    let h := { h with inBytes := h.inBytes + bytes.length }
    match PacketEngine.parseDatagramWith h.cipher minutes bytes with
    | none => h
    | some (m, nonce) =>
      match h.sessions.lookup m.sessionId with
      | none => h
      | some j => h.trySend j ⟨m, nonce, bytes.drop packetNonHeaderPosition⟩

def demuxEnd (h : UnderlayHandle F) : UnderlayHandle F :=
  { h with alive := false, sessions := ∅ }

/-- The session at place `j` still has a sender. -/
def connected (h : UnderlayHandle F) (j : Nat) : Bool :=
  h.sessions.entries.any fun x => x.2 == j

/-- A turn of the engine of `x`. An empty channel without a sender is closed. -/
def turned (fl : Floats F) (connected : Bool) (e : Env F) (t : Turn) (x : MuxSession F) :
    MuxSession F :=
  match t with
  | .app bytes => { x with engine := x.engine.step fl (e, .app bytes) }
  | .appEof => { x with engine := x.engine.step fl (e, .appEof) }
  | .timer => { x with engine := x.engine.step fl (e, .timer) }
  | .inbox =>
    match x.inbox with
    | d :: ds => { engine := x.engine.step fl (e, .demuxed d.info d.nonce d.rest), inbox := ds }
    | [] => if connected then x else { x with engine := x.engine.step fl (e, .sockErr) }

/-- When `run` returns the session no longer counts. -/
def turn (fl : Floats F) (h : UnderlayHandle F) (j : Nat) (e : Env F) (t : Turn) :
    UnderlayHandle F :=
  match h.opened[j]? with
  | none => h
  | some x =>
    let x' := turned fl (h.connected j) e t x
    { h with
      opened := h.opened.set j x'
      sessionCount :=
        if x'.engine.ended && !x.engine.ended then h.sessionCount - 1 else h.sessionCount }

end UnderlayHandle

namespace MieruMux

variable {F : Type}

def new (password username : Bytes) (multiplexing : Multiplexing) : MieruMux F :=
  ⟨password, username, multiplexing, [], [], []⟩

def sweep (s : MieruMux F) (i : Nat) (h : UnderlayHandle F) : UnderlayHandle F :=
  if i ∈ s.underlays then (h.swept s.multiplexing.factor).1 else h

/-- The underlay at place `i` stays in the list. -/
def stays (s : MieruMux F) (i : Nat) : Bool :=
  (s.handles[i]?).any fun h => (h.swept s.multiplexing.factor).2

def cleanUnderlays (s : MieruMux F) : MieruMux F :=
  { s with handles := s.handles.mapIdx s.sweep, underlays := s.underlays.filter s.stays }

def active (s : MieruMux F) : List Nat :=
  s.underlays.filter fun i => (s.handles[i]?).any fun h => h.alive && !h.disabled

def maybePickExisting (s : MieruMux F) (draw : Nat) : Option Nat :=
  let factor := s.multiplexing.factor
  if factor = 0 ∨ s.active = [] then none
  else
    let reuseFactor := s.active.length * factor
    let n := draw % (reuseFactor + 1)
    if n < reuseFactor then s.active[n / factor]? else none

section Step

variable (sha256 : Bytes → ByteVec 32) (hmac : Bytes → Bytes → ByteVec 32) (fl : Floats F)

def keyAt (s : MieruMux F) (clock : Int) : ByteVec 32 :=
  clientKey sha256 hmac s.password s.username clock

def newUnderlay (s : MieruMux F) (clock : Int) : UnderlayHandle F :=
  ⟨clock, s.keyAt sha256 hmac clock, [], ∅, true, false, 0, 0, 0⟩

/-- The first half of `dial`. -/
def pick (s : MieruMux F) (clock : Int) (draw : Nat) : MieruMux F :=
  let s := s.cleanUnderlays
  match s.maybePickExisting draw with
  | some i => { s with dialing := s.dialing ++ [(i, false)] }
  | none =>
    { s with
      handles := s.handles ++ [s.newUnderlay sha256 hmac clock]
      dialing := s.dialing ++ [(s.handles.length, true)] }

/-- The second half of `dial`. -/
def join (s : MieruMux F) (k : Nat) (clock : Int) (sid : UInt32) (e : Env F) : MieruMux F :=
  match s.dialing[k]? with
  | none => s
  | some (i, created) =>
    let engine := PacketEngine.new (s.keyAt sha256 hmac clock) sid e
    { s with
      handles := s.handles.modify i fun h => h.addSession sid engine
      dialing := s.dialing.eraseIdx k
      underlays := if created then s.underlays ++ [i] else s.underlays }

def step (s : MieruMux F) : MuxAction F → MieruMux F
  | .pick clock draw => s.pick sha256 hmac clock draw
  | .refused k => { s with dialing := s.dialing.eraseIdx k }
  | .join k clock sid e => s.join sha256 hmac k clock sid.val e
  | .datagram i minutes bytes =>
    { s with handles := s.handles.modify i fun h => h.demux minutes bytes }
  | .turn i j e t => { s with handles := s.handles.modify i fun h => h.turn fl j e t }
  | .demuxEnd i => { s with handles := s.handles.modify i UnderlayHandle.demuxEnd }

end Step

end MieruMux

/-! ## An engine keeps its key -/

namespace PacketEngine

variable {F : Type} (fl : Floats F)

theorem key_writeAll (s : PacketEngine F) (room : Option Nat) (payload : Bytes) :
    (s.writeAll room payload).1.key = s.key := by
  unfold writeAll
  cases room with
  | none => rfl
  | some k =>
    dsimp only
    split_ifs <;> rfl

theorem key_deliverFor (n : Nat) (room : Option Nat) (s : PacketEngine F) :
    (deliverFor n room s).key = s.key := by
  induction n generalizing room s with
  | zero => rfl
  | succ n ih =>
    unfold deliverFor
    cases s.recvBuf.lookup s.nextRecv with
    | none => rfl
    | some payload =>
      dsimp only
      split_ifs
      · rw [ih]
      · have hwrite := key_writeAll { s with
          recvBuf := s.recvBuf.erase s.nextRecv, nextRecv := s.nextRecv + 1 } room payload
        generalize writeAll _ room payload = r at hwrite ⊢
        obtain ⟨t, left⟩ := r
        cases left with
        | none => exact hwrite
        | some left => exact (ih left t).trans hwrite

theorem key_requestAck (s : PacketEngine F) (now : Nat) : (s.requestAck now).key = s.key := by
  unfold requestAck
  split_ifs <;> rfl

theorem key_ingestData (s : PacketEngine F) (e : Env F) (m : InboundMeta) (nonce : ByteVec 24)
    (rest : Bytes) : (s.ingestData e m nonce rest).key = s.key := by
  unfold ingestData
  cases s.openPayload m nonce rest with
  | none => rfl
  | some payload =>
    have hdeliver := key_deliverFor (s.recvBuf.insert m.seq payload).keys.length e.room
      { s with recvBuf := s.recvBuf.insert m.seq payload }
    have htaken := (key_requestAck _ e.now).trans hdeliver
    dsimp only
    unfold takeSegment
    split_ifs
    · rfl
    · exact htaken
    · exact htaken

theorem key_ingest (s : PacketEngine F) (e : Env F) (m : InboundMeta) (nonce : ByteVec 24)
    (rest : Bytes) : (s.ingest fl e m nonce rest).key = s.key := by
  have hack : (s.takeAck fl e m).key = s.key := (inbound_ext (inbound_takeAck fl s e m)).1
  unfold ingest
  split_ifs
  · exact key_ingestData s e m nonce rest
  · rfl
  · exact (key_ingestData _ e m nonce _).trans hack
  · exact hack
  · rfl
  · rfl
  · rfl
  · rfl
  · rfl

theorem key_finishTurn (s : PacketEngine F) (e : Env F) : (s.finishTurn fl e).key = s.key :=
  (inbound_ext (inbound_finishTurn fl s e)).1

theorem key_onDatagram (s : PacketEngine F) (e : Env F) (dgram : Bytes) :
    (s.onDatagram fl e dgram).key = s.key := by
  unfold onDatagram
  dsimp only
  cases parseDatagramWith (s.heard e).key e.minutes dgram with
  | none => rfl
  | some r =>
    obtain ⟨m, nonce⟩ := r
    dsimp only
    split_ifs
    · exact key_ingest fl _ e m nonce _
    · rfl

theorem key_step (s : PacketEngine F) (a : Env F × EngineEvent) : (s.step fl a).key = s.key := by
  unfold step
  dsimp only
  by_cases hended : s.ended
  · rw [if_pos hended]
  · rw [if_neg hended]
    cases a.2 with
    | app bytes =>
      dsimp only
      split_ifs
      · rfl
      · rw [key_finishTurn]
        exact (inbound_ext (inbound_sessionWrite s a.1.now bytes)).1
    | appEof =>
      dsimp only
      split_ifs
      · rfl
      · rw [key_finishTurn]
        exact (inbound_ext (inbound_queueClose _ a.1.now)).1
    | dgram bytes => exact (key_finishTurn fl _ a.1).trans (key_onDatagram fl s a.1 bytes)
    | demuxed m nonce rest =>
      exact (key_finishTurn fl _ a.1).trans (key_ingest fl (s.heard a.1) a.1 m nonce rest)
    | sockErr => rfl
    | timer => exact key_finishTurn fl s a.1

end PacketEngine

/-! ## The keys of an underlay -/

/-- The times and keys behind an underlay. -/
structure Keys where
  made : Int
  cipher : ByteVec 32
  engines : List (ByteVec 32)

/-- One more engine, with `key`. -/
def Keys.join (key : ByteVec 32) (ks : Keys) : Keys := { ks with engines := ks.engines ++ [key] }

namespace UnderlayHandle

variable {F : Type}

def keys (h : UnderlayHandle F) : Keys := ⟨h.made, h.cipher, h.opened.map fun x => x.engine.key⟩

theorem keys_swept (factor : Nat) (h : UnderlayHandle F) : (h.swept factor).1.keys = h.keys := by
  unfold swept
  dsimp only
  split_ifs <;> rfl

/-- A change of the sessions that leaves every engine its key. -/
theorem map_engineKey {l l' : List (MuxSession F)} (hlen : l'.length = l.length)
    (hkey : ∀ (i : Nat) (x x' : MuxSession F), l[i]? = some x → l'[i]? = some x' →
      x'.engine.key = x.engine.key) :
    l'.map (fun x => x.engine.key) = l.map fun x => x.engine.key := by
  apply List.ext_getElem
  · rw [List.length_map, List.length_map, hlen]
  · intro i h1 h2
    have hi' : i < l'.length := by rwa [List.length_map] at h1
    have hi : i < l.length := by rwa [List.length_map] at h2
    rw [List.getElem_map, List.getElem_map]
    exact hkey i _ _ (List.getElem?_eq_getElem hi) (List.getElem?_eq_getElem hi')

theorem keys_trySend (h : UnderlayHandle F) (j : Nat) (d : DemuxedDgram) :
    (h.trySend j d).keys = h.keys := by
  unfold keys trySend
  dsimp only
  rw [map_engineKey (List.length_modify ..)]
  intro i x x' hx hx'
  rw [List.getElem?_modify, hx] at hx'
  simp only [Option.map_eq_map, Option.map_some, Option.some.injEq] at hx'
  rw [← hx']
  split_ifs <;> rfl

theorem keys_demux (h : UnderlayHandle F) (minutes : UInt32) (bytes : Bytes) :
    (h.demux minutes bytes).keys = h.keys := by
  unfold demux
  dsimp only
  split_ifs
  · rfl
  · cases PacketEngine.parseDatagramWith h.cipher minutes bytes with
    | none => rfl
    | some r =>
      obtain ⟨m, nonce⟩ := r
      dsimp only
      cases h.sessions.lookup m.sessionId with
      | none => rfl
      | some j => exact keys_trySend _ j _

theorem key_turned (fl : Floats F) (connected : Bool) (e : Env F) (t : Turn) (x : MuxSession F) :
    (turned fl connected e t x).engine.key = x.engine.key := by
  cases t with
  | app bytes => exact PacketEngine.key_step fl _ _
  | appEof => exact PacketEngine.key_step fl _ _
  | timer => exact PacketEngine.key_step fl _ _
  | inbox =>
    unfold turned
    cases x.inbox with
    | cons d ds => exact PacketEngine.key_step fl _ _
    | nil =>
      dsimp only
      split_ifs
      · rfl
      · exact PacketEngine.key_step fl _ _

theorem keys_turn (fl : Floats F) (h : UnderlayHandle F) (j : Nat) (e : Env F) (t : Turn) :
    (h.turn fl j e t).keys = h.keys := by
  unfold turn
  cases hx : h.opened[j]? with
  | none => rfl
  | some x =>
    unfold keys
    dsimp only
    rw [map_engineKey List.length_set]
    intro i y y' hy hy'
    by_cases hij : j = i
    · subst hij
      rw [List.getElem?_set_self (List.getElem?_eq_some_iff.mp hx).1, Option.some.injEq] at hy'
      rw [hx, Option.some.injEq] at hy
      rw [← hy', ← hy, key_turned]
    · rw [List.getElem?_set_ne hij, hy, Option.some.injEq] at hy'
      rw [hy']

end UnderlayHandle

/-! ## Coherence -/

namespace MieruMux

variable {F : Type}

/-- Every engine seals with the key that its underlay opens with. -/
def Coherent (s : MieruMux F) : Prop :=
  ∀ h ∈ s.handles, ∀ x ∈ h.opened, x.engine.key = h.cipher

/-- When the underlay of a dial was made. -/
def madeFor (s : MieruMux F) (k : Nat) : Option Int :=
  (s.dialing[k]?).bind fun d => (s.handles[d.1]?).map UnderlayHandle.made

/-- A session joins in the same two minutes, rounded, in which its underlay was made. -/
def SameMark (s : MieruMux F) : MuxAction F → Prop
  | .join k clock _ _ => ∀ t ∈ s.madeFor k, roundToInterval clock = roundToInterval t
  | _ => True

instance (s : MieruMux F) : (a : MuxAction F) → Decidable (SameMark s a)
  | .join k clock _ _ =>
    inferInstanceAs (Decidable (∀ t ∈ s.madeFor k, roundToInterval clock = roundToInterval t))
  | .pick _ _ => isTrue trivial
  | .refused _ => isTrue trivial
  | .datagram _ _ _ => isTrue trivial
  | .turn _ _ _ _ => isTrue trivial
  | .demuxEnd _ => isTrue trivial

/-- The clock readings of a step. -/
def clocks : MuxAction F → List Int
  | .pick clock _ => [clock]
  | .join _ clock _ _ => [clock]
  | _ => []

variable {sha256 : Bytes → ByteVec 32} {hmac : Bytes → Bytes → ByteVec 32} (fl : Floats F)

def keys (s : MieruMux F) : List Keys := s.handles.map UnderlayHandle.keys

/-- A change of one underlay that leaves its keys. -/
theorem map_keys_modify (l : List (UnderlayHandle F)) (i : Nat)
    {f : UnderlayHandle F → UnderlayHandle F} (hf : ∀ h, (f h).keys = h.keys) :
    (l.modify i f).map UnderlayHandle.keys = l.map UnderlayHandle.keys := by
  apply List.ext_getElem?
  intro j
  rw [List.getElem?_map, List.getElem?_map, List.getElem?_modify]
  cases l[j]? with
  | none => rfl
  | some h =>
    simp only [Option.map_eq_map, Option.map_some, Option.some.injEq]
    split_ifs
    · exact hf h
    · rfl

theorem keys_cleanUnderlays (s : MieruMux F) : s.cleanUnderlays.keys = s.keys := by
  unfold keys cleanUnderlays
  apply List.ext_getElem?
  intro j
  rw [List.getElem?_map, List.getElem?_map, List.getElem?_mapIdx]
  cases s.handles[j]? with
  | none => rfl
  | some h =>
    simp only [Option.map_some, Option.some.injEq]
    unfold sweep
    split_ifs
    · exact UnderlayHandle.keys_swept _ h
    · rfl

theorem keyAt_cleanUnderlays (s : MieruMux F) (clock : Int) :
    s.cleanUnderlays.keyAt sha256 hmac clock = s.keyAt sha256 hmac clock := rfl

theorem keys_pick (s : MieruMux F) (clock : Int) (draw : Nat) :
    (s.pick sha256 hmac clock draw).keys = s.keys ∨
      (s.pick sha256 hmac clock draw).keys = s.keys ++ [⟨clock, s.keyAt sha256 hmac clock, []⟩] := by
  unfold pick
  dsimp only
  cases s.cleanUnderlays.maybePickExisting draw with
  | some i =>
    left
    exact keys_cleanUnderlays s
  | none =>
    right
    rw [← keys_cleanUnderlays s, ← keyAt_cleanUnderlays s clock]
    exact List.map_append

theorem keys_join (s : MieruMux F) (k : Nat) (clock : Int) (sid : UInt32) (e : Env F)
    {d : Nat × Bool} (hd : s.dialing[k]? = some d) :
    (s.join sha256 hmac k clock sid e).keys =
      s.keys.modify d.1 (Keys.join (s.keyAt sha256 hmac clock)) := by
  obtain ⟨i, created⟩ := d
  unfold join
  rw [hd]
  apply List.ext_getElem?
  intro j
  unfold keys
  rw [List.getElem?_map, List.getElem?_modify, List.getElem?_modify, List.getElem?_map]
  cases s.handles[j]? with
  | none => rfl
  | some h =>
    simp only [Option.map_eq_map, Option.map_some, Option.some.injEq]
    split_ifs
    · unfold UnderlayHandle.keys UnderlayHandle.addSession Keys.join
      rw [List.map_append]
      rfl
    · rfl

variable (sha256 hmac) in
/-- What a step does to the keys: nothing, unless an underlay is made or a session joins. -/
theorem keys_step (s : MieruMux F) (a : MuxAction F) :
    (s.step sha256 hmac fl a).keys = s.keys ∧ SameMark s a ∨
      (∃ clock draw, a = .pick clock draw ∧ (s.step sha256 hmac fl a).keys =
        s.keys ++ [⟨clock, s.keyAt sha256 hmac clock, []⟩]) ∨
      ∃ k clock sid e d, a = .join k clock sid e ∧ s.dialing[k]? = some d ∧
        (s.step sha256 hmac fl a).keys =
          s.keys.modify d.1 (Keys.join (s.keyAt sha256 hmac clock)) := by
  cases a with
  | pick clock draw =>
    rcases keys_pick s clock draw with hkeys | hkeys
    · exact .inl ⟨hkeys, trivial⟩
    · exact .inr (.inl ⟨clock, draw, rfl, hkeys⟩)
  | refused k => exact .inl ⟨rfl, trivial⟩
  | join k clock sid e =>
    cases hd : s.dialing[k]? with
    | none =>
      left
      constructor
      · unfold step join
        dsimp only
        rw [hd]
      · intro t ht
        unfold madeFor at ht
        rw [hd] at ht
        cases ht
    | some d => exact .inr (.inr ⟨k, clock, sid, e, d, rfl, hd, keys_join s k clock sid.val e hd⟩)
  | datagram i minutes bytes =>
    exact .inl ⟨map_keys_modify _ i fun h => h.keys_demux minutes bytes, trivial⟩
  | turn i j e t => exact .inl ⟨map_keys_modify _ i fun h => h.keys_turn fl j e t, trivial⟩
  | demuxEnd i => exact .inl ⟨map_keys_modify _ i fun _ => rfl, trivial⟩

theorem keyAt_step (s : MieruMux F) (a : MuxAction F) (clock : Int) :
    (s.step sha256 hmac fl a).keyAt sha256 hmac clock = s.keyAt sha256 hmac clock := by
  cases a with
  | pick clock draw =>
    unfold step pick
    dsimp only
    cases s.cleanUnderlays.maybePickExisting draw <;> rfl
  | join k clock sid e =>
    unfold step join
    dsimp only
    cases s.dialing[k]? <;> rfl
  | refused k => rfl
  | datagram i minutes bytes => rfl
  | turn i j e t => rfl
  | demuxEnd i => rfl

theorem mem_modify {α : Type} {l : List α} {i : Nat} {f : α → α} {x : α}
    (h : x ∈ l.modify i f) : x ∈ l ∨ ∃ y, l[i]? = some y ∧ x = f y := by
  obtain ⟨j, hj⟩ := List.mem_iff_getElem?.mp h
  rw [List.getElem?_modify] at hj
  cases hy : l[j]? with
  | none =>
    rw [hy] at hj
    cases hj
  | some y =>
    rw [hy] at hj
    simp only [Option.map_eq_map, Option.map_some, Option.some.injEq] at hj
    split_ifs at hj with hij
    · subst hij
      exact .inr ⟨y, hy, hj.symm⟩
    · rw [← hj]
      exact .inl (List.mem_of_getElem? hy)

theorem modified_mem {α : Type} {l : List α} {i : Nat} (f : α → α) {y : α} (h : l[i]? = some y) :
    f y ∈ l.modify i f := by
  apply List.mem_of_getElem? (i := i)
  rw [List.getElem?_modify, h]
  simp

theorem madeFor_eq {s : MieruMux F} {k : Nat} {d : Nat × Bool} (hd : s.dialing[k]? = some d)
    {t : Int} : t ∈ s.madeFor k ↔ ∃ h, s.handles[d.1]? = some h ∧ h.made = t := by
  unfold madeFor
  rw [hd, Option.bind_some, Option.mem_def, Option.map_eq_some_iff]

theorem coherent_iff (s : MieruMux F) :
    s.Coherent ↔ ∀ ks ∈ s.keys, ∀ key ∈ ks.engines, key = ks.cipher := by
  unfold Coherent keys
  constructor
  · intro h ks hks key hkey
    obtain ⟨u, hu, rfl⟩ := List.mem_map.mp hks
    obtain ⟨x, hx, rfl⟩ := List.mem_map.mp hkey
    exact h u hu x hx
  · intro h u hu x hx
    exact h _ (List.mem_map_of_mem hu) _ (List.mem_map_of_mem hx)

section Run

variable (sha256 hmac) in
/-- Every underlay has the key of the time at which it was made, one of `times`. -/
structure Keyed (key : Int → ByteVec 32) (times : List Int) (s : MieruMux F) : Prop where
  derives : s.keyAt sha256 hmac = key
  made : ∀ ks ∈ s.keys, ks.cipher = key ks.made ∧ ks.made ∈ times

variable {key : Int → ByteVec 32} {times : List Int} {s : MieruMux F} {a : MuxAction F}

theorem keyed_step (hs : s.Keyed sha256 hmac key times) (ha : ∀ t ∈ clocks a, t ∈ times) :
    (s.step sha256 hmac fl a).Keyed sha256 hmac key times := by
  constructor
  · rw [← hs.derives]
    funext clock
    exact keyAt_step fl s a clock
  · intro ks hks
    rcases keys_step sha256 hmac fl s a with ⟨hkeys, _⟩ | ⟨clock, draw, rfl, hkeys⟩ |
      ⟨k, clock, sid, e, d, rfl, _, hkeys⟩
    · exact hs.made ks (hkeys ▸ hks)
    · rw [hkeys, List.mem_append, List.mem_singleton] at hks
      rcases hks with hks | rfl
      · exact hs.made ks hks
      · rw [hs.derives]
        exact ⟨rfl, ha clock (List.mem_singleton_self clock)⟩
    · rw [hkeys] at hks
      rcases mem_modify hks with hks | ⟨ks', hks', rfl⟩
      · exact hs.made ks hks
      · exact hs.made ks' (List.mem_of_getElem? hks')

/-- A step keeps coherence exactly if it is not a join at another mark. -/
theorem coherent_step (hdistinct : ∀ t ∈ times, ∀ u ∈ times, key t = key u →
      roundToInterval t = roundToInterval u)
    (hround : ∀ t u, roundToInterval t = roundToInterval u → key t = key u)
    (hs : s.Keyed sha256 hmac key times) (ha : ∀ t ∈ clocks a, t ∈ times) (hc : s.Coherent) :
    (s.step sha256 hmac fl a).Coherent ↔ SameMark s a := by
  rw [coherent_iff] at hc ⊢
  rcases keys_step sha256 hmac fl s a with ⟨hkeys, hmark⟩ | ⟨clock, draw, rfl, hkeys⟩ |
    ⟨k, clock, sid, e, d, rfl, hd, hkeys⟩
  · rw [hkeys]
    exact iff_of_true hc hmark
  · rw [hkeys]
    refine iff_of_true ?_ trivial
    intro ks hks
    rw [List.mem_append, List.mem_singleton] at hks
    rcases hks with hks | rfl
    · exact hc ks hks
    · exact nofun
  · rw [hkeys, hs.derives]
    constructor
    · intro hall t ht
      obtain ⟨h, hh, rfl⟩ := (madeFor_eq hd).mp ht
      have hks : s.keys[d.1]? = some h.keys := by
        unfold keys
        rw [List.getElem?_map, hh]
        rfl
      obtain ⟨hcipher, hmade⟩ := hs.made h.keys (List.mem_of_getElem? hks)
      have hsame : key clock = h.keys.cipher := by
        apply hall _ (modified_mem (Keys.join (key clock)) hks)
        exact List.mem_append_right _ (List.mem_singleton_self _)
      rw [hcipher] at hsame
      exact hdistinct clock (ha clock (List.mem_singleton_self clock)) _ hmade hsame
    · intro hmark ks hks key' hkey'
      rcases mem_modify hks with hks | ⟨ks', hks', rfl⟩
      · exact hc ks hks key' hkey'
      · have hmem := List.mem_of_getElem? hks'
        rcases List.mem_append.mp hkey' with hold | hnew
        · exact hc ks' hmem key' hold
        · unfold keys at hks'
          rw [List.getElem?_map] at hks'
          obtain ⟨h, hh, rfl⟩ := Option.map_eq_some_iff.mp hks'
          rw [List.mem_singleton.mp hnew]
          have hsame := hmark h.made ((madeFor_eq hd).mpr ⟨h, hh, rfl⟩)
          exact (hround _ _ hsame).trans (hs.made _ hmem).1.symm

end Run

/-- The keys agree in every state of a run exactly if every session joins in the two minutes,
    rounded, in which its underlay was made. Of the key derivation only this is assumed, that
    the run's times with different marks have different keys. -/
theorem mux_coherent (sha256 : Bytes → ByteVec 32) (hmac : Bytes → Bytes → ByteVec 32)
    (fl : Floats F) (password username : Bytes) (multiplexing : Multiplexing)
    (as : List (MuxAction F))
    (hdistinct : ∀ t ∈ as.flatMap clocks, ∀ u ∈ as.flatMap clocks,
      clientKey sha256 hmac password username t = clientKey sha256 hmac password username u →
      roundToInterval t = roundToInterval u) :
    (∀ t ∈ Machine.states (step sha256 hmac fl) (new password username multiplexing) as,
        Coherent t) ↔
      ∀ p ∈ Machine.steps (step sha256 hmac fl) (new password username multiplexing) as,
        SameMark p.1 p.2 := by
  have hclocks : ∀ p ∈ Machine.steps (step sha256 hmac fl)
      (new password username multiplexing) as, ∀ t ∈ clocks p.2, t ∈ as.flatMap clocks :=
    fun p hp t ht => List.mem_flatMap.mpr ⟨p.2, Machine.action_mem hp, ht⟩
  have hnew : (new password username multiplexing : MieruMux F).Keyed sha256 hmac
      (clientKey sha256 hmac password username) (as.flatMap clocks) := ⟨rfl, nofun⟩
  have hkeyed := Machine.inv_of_good _ _ (fun s a => keyed_step fl) hnew hclocks
  have hcoherent : (new password username multiplexing : MieruMux F).Coherent := nofun
  have hiff := Machine.inv_iff_under
    (fun s => s.Keyed sha256 hmac (clientKey sha256 hmac password username) (as.flatMap clocks) ∧
      s.Coherent) _ SameMark
    (fun s a ha hs => by
      rw [← coherent_step fl hdistinct (fun _ _ => clientKey_congr password username) hs.1 ha hs.2]
      exact and_iff_right (keyed_step fl hs.1 ha))
    ⟨hnew, hcoherent⟩ hclocks
  rw [← hiff]
  exact ⟨fun h t ht => ⟨hkeyed t ht, h t ht⟩, fun h t ht => (h t ht).2⟩

/-! ### Two dials -/

/-- A stand-in for SHA-256 that keeps the time. -/
def stretch (bs : Bytes) : ByteVec 32 :=
  ⟨(bs ++ List.replicate 32 0).take 32, by
    rw [List.length_take, List.length_append, List.length_replicate]
    omega⟩

/-- A stand-in for HMAC that keeps the salt, in the first round. -/
def keepSalt (_ msg : Bytes) : ByteVec 32 :=
  if msg.length = 36 then stretch msg else ByteVec.zero 32

/-- Two dials that share an underlay, at two times. -/
def twoDials (first second : Int) : List (MuxAction Unit) :=
  [.pick first 0, .join 0 first ⟨1, by decide⟩ PacketEngine.calm, .pick second 0,
    .join 0 second ⟨2, by decide⟩ PacketEngine.calm]

def emptyMux : MieruMux Unit := new [7] [8] .low

theorem mux_coherent_sample :
    Coherent ((twoDials 60 179).foldl (step stretch keepSalt PacketEngine.exactFloats)
      emptyMux) ∧
    ((twoDials 60 179).foldl (step stretch keepSalt PacketEngine.exactFloats)
      emptyMux).handles.map (fun h => h.opened.length) = [2] := by
  refine ⟨?_, by decide +kernel⟩
  refine (mux_coherent stretch keepSalt PacketEngine.exactFloats [7] [8] .low (twoDials 60 179)
    ?_).mpr ?_ _ (Machine.foldl_mem_states _ _)
  · intro t ht u hu _
    have hall : ∀ t ∈ [60, 60, 179, 179], roundToInterval t = 120 := by decide
    rw [hall t ht, hall u hu]
  · decide +kernel

/-- One second apart, and the second session has another key than the underlay. -/
theorem boundary_splits :
    ¬ ∀ t ∈ Machine.states (step stretch keepSalt PacketEngine.exactFloats) emptyMux
      (twoDials 59 60), Coherent t := by
  intro h
  have hlast := (coherent_iff _).mp (h _ (Machine.foldl_mem_states _ _))
  revert hlast
  decide +kernel

end MieruMux

end RustCrash.Mieru
