import RustCrash.Quic.Packets

/-
  UDP replies on QUIC: `fragment_reply` and `send_udp_reply` of the servers, and the pumps of the
  engine's own client (`outbound.rs`), which read one datagram at a time and know nothing of
  fragments.
-/

namespace RustCrash.Quic

open Lib Routing Proto

/-! ## Pieces -/

/-- `data.chunks(n)`. -/
def chunksOf (n : Nat) (data : Bytes) : List Bytes :=
  (List.range ((data.length + n - 1) / n)).map fun i => slice data (i * n) n

theorem chunksOf_zero {n : Nat} {data : Bytes} (hn : 0 < n) (h : 0 < data.length) :
    (chunksOf n data)[0]? = some (data.take n) := by
  have hcount : 0 < (data.length + n - 1) / n := Nat.div_pos (by omega) hn
  unfold chunksOf
  rw [List.getElem?_map, List.getElem?_range hcount]
  simp [slice]

theorem length_of_mem_chunksOf {n : Nat} {data chunk : Bytes} (h : chunk ∈ chunksOf n data) :
    chunk.length ≤ data.length := by
  obtain ⟨i, -, rfl⟩ := List.mem_map.mp h
  unfold slice
  rw [List.length_take, List.length_drop]
  omega

/-! ## TUIC -/

/-- `packet_header_size`. -/
def packetHeaderSize (target : NetAddr) : Nat :=
  10 + match target.host with
    | .domain d => 4 + min (utf8 d).length 255
    | .ip (.v4 _) => 7
    | .ip (.v6 _) => 19

/-- What a datagram of the connection leaves for data. -/
def tuicBudget (maxDatagramSize : Option Nat) (target : NetAddr) : Nat :=
  maxDatagramSize.getD 1150 - packetHeaderSize target

def fragmentReply (maxDatagramSize : Option Nat) (sessionId packetId : UInt16)
    (target : NetAddr) (data : Bytes) : List Bytes :=
  let budget := tuicBudget maxDatagramSize target
  if data.length ≤ budget ∨ budget = 0 then
    [encodePacketFrame sessionId packetId 0 1 (some target) data]
  else
    let total := min (chunksOf budget data).length 255
    ((chunksOf budget data).take total).mapIdx fun i chunk =>
      encodePacketFrame sessionId packetId (UInt8.ofNat i) (UInt8.ofNat total)
        (if i = 0 then some target else none) chunk

/-- What the client's pump passes on for one datagram. -/
def tuicPump (dg : Bytes) : Option (NetAddr × Bytes) :=
  match decodePacketFrame dg with
  | .ok frame => frame.addr.map fun addr => (addr, frame.data)
  | .error _ => none

theorem tuicPump_first (sessionId packetId : UInt16) (fragId fragTotal : UInt8) (t : NetAddr)
    {data : Bytes} (h : data.length < 65536) :
    tuicPump (encodePacketFrame sessionId packetId fragId fragTotal (some t) data) =
      (wireHost t.host).map fun host => (⟨host, t.port⟩, data) := by
  unfold tuicPump
  rw [decodePacketFrame_encodePacketFrame _ _ _ _ _ h]
  cases wireHost t.host with
  | none => rfl
  | some host => rfl

theorem tuicPump_later (sessionId packetId : UInt16) (fragId fragTotal : UInt8)
    {data : Bytes} (h : data.length < 65536) :
    tuicPump (encodePacketFrame sessionId packetId fragId fragTotal none data) = none := by
  unfold tuicPump
  rw [decodePacketFrame_later _ _ _ _ h]
  rfl

/-- Every payload the client passes on, whatever is lost or comes in another order, is the
    reply. -/
def TuicWhole (maxDatagramSize : Option Nat) (sessionId packetId : UInt16) (target : NetAddr)
    (data : Bytes) : Prop :=
  ∀ got : List Bytes,
    (∀ dg ∈ got, dg ∈ fragmentReply maxDatagramSize sessionId packetId target data) →
      ∀ p ∈ got.filterMap tuicPump, p.2 = data

/-- One datagram at a time is enough. -/
theorem forall_filterMap_iff {frames : List Bytes} {pump : Bytes → Option (NetAddr × Bytes)}
    {data : Bytes} :
    (∀ got : List Bytes, (∀ dg ∈ got, dg ∈ frames) → ∀ p ∈ got.filterMap pump, p.2 = data) ↔
      ∀ dg ∈ frames, ∀ p, pump dg = some p → p.2 = data := by
  constructor
  · intro h dg hdg p hp
    refine h [dg] (fun x hx => ?_) p ?_
    · rw [List.mem_singleton.mp hx]
      exact hdg
    · simp [hp]
  · intro h got hgot p hp
    obtain ⟨dg, hdg, hpump⟩ := List.mem_filterMap.mp hp
    exact h dg (hgot dg hdg) p hpump

theorem tuicWhole_iff {maxDatagramSize : Option Nat} {sessionId packetId : UInt16}
    {target : NetAddr} {data : Bytes} (hdata : data.length ≤ 65535) :
    TuicWhole maxDatagramSize sessionId packetId target data ↔
      wireHost target.host = none ∨ data.length ≤ tuicBudget maxDatagramSize target ∨
        tuicBudget maxDatagramSize target = 0 := by
  unfold TuicWhole
  rw [forall_filterMap_iff]
  unfold fragmentReply
  dsimp only
  split_ifs with hone
  · simp only [List.mem_singleton, forall_eq, hone, or_true, iff_true]
    rw [tuicPump_first _ _ _ _ _ (by omega)]
    rintro p hp
    obtain ⟨host, -, rfl⟩ := Option.map_eq_some_iff.mp hp
    rfl
  · rw [not_or] at hone
    have hshort : ∀ chunk ∈ chunksOf (tuicBudget maxDatagramSize target) data,
        chunk.length < 65536 := fun chunk hc => by
      have := length_of_mem_chunksOf hc
      omega
    simp only [hone.1, hone.2, or_false]
    constructor
    · intro h
      by_contra hhost
      obtain ⟨host, hh⟩ := Option.ne_none_iff_exists'.mp hhost
      -- The first fragment carries the address, and less than the reply.
      have hzero := @chunksOf_zero (tuicBudget maxDatagramSize target) data
        (by omega) (by omega)
      have hpos : 0 < (chunksOf (tuicBudget maxDatagramSize target) data).length :=
        (List.getElem?_eq_some_iff.mp hzero).1
      have hget : ((chunksOf (tuicBudget maxDatagramSize target) data).take
          (min (chunksOf (tuicBudget maxDatagramSize target) data).length 255))[0]? =
          some (data.take (tuicBudget maxDatagramSize target)) := by
        rw [List.getElem?_take, if_pos (by omega), hzero]
      have hp := h _ (List.mem_of_getElem? (i := 0) (by
        rw [List.getElem?_mapIdx, hget]
        rfl)) (⟨host, target.port⟩, data.take (tuicBudget maxDatagramSize target)) (by
        rw [if_pos rfl, tuicPump_first _ _ _ _ _ (by rw [List.length_take]; omega), hh]
        rfl)
      have := congrArg List.length hp
      rw [List.length_take] at this
      omega
    · intro hhost dg hdg p hp
      obtain ⟨i, hi, rfl⟩ := List.mem_mapIdx.mp hdg
      have hc := hshort _ (List.mem_of_mem_take (List.getElem_mem hi))
      split_ifs at hp with h0
      · rw [tuicPump_first _ _ _ _ _ hc, hhost] at hp
        cases hp
      · rw [tuicPump_later _ _ _ _ hc] at hp
        cases hp

/-! ## Hysteria2 -/

/-- What a datagram of the connection leaves for data. -/
def hy2Budget (maxDatagramSize : Option Nat) (target : NetAddr) : Nat :=
  let addr := utf8 target.text
  maxDatagramSize.getD 1200 - (8 + varintLen addr.length + addr.length)

/-- The pieces of a reply. -/
def hy2Chunks (budget : Nat) (data : Bytes) : List Bytes :=
  if data.length ≤ budget ∨ budget = 0 then [data] else chunksOf budget data

def sendUdpReply (maxDatagramSize : Option Nat) (sessionId : UInt32) (packetId : UInt16)
    (target : NetAddr) (data : Bytes) : List Bytes :=
  let chunks := hy2Chunks (hy2Budget maxDatagramSize target) data
  let total := UInt8.ofNat (if chunks.length ≤ 255 then chunks.length else 255)
  chunks.mapIdx fun i chunk =>
    udpMessageHeader sessionId packetId (UInt8.ofNat i) total target.text ++ chunk

/-- What the client's pump passes on for one datagram. -/
def hy2Pump (dg : Bytes) : Option (NetAddr × Bytes) :=
  match parseUdpMessage dg with
  | .ok msg => (parseHostport msg.addr).map fun target => (target, msg.data)
  | .error _ => none

theorem hy2Pump_message (sessionId : UInt32) (packetId : UInt16) (fragId fragCount : UInt8)
    (addr : Str) (data : Bytes) :
    hy2Pump (udpMessageHeader sessionId packetId fragId fragCount addr ++ data) =
      (wireAddr addr).toOption.bind fun r =>
        (parseHostport r.1).map fun target => (target, r.2 ++ data) := by
  unfold hy2Pump
  rw [parseUdpMessage_header]
  cases wireAddr addr with
  | error e => rfl
  | ok r => rfl

def Hy2Whole (maxDatagramSize : Option Nat) (sessionId : UInt32) (packetId : UInt16)
    (target : NetAddr) (data : Bytes) : Prop :=
  ∀ got : List Bytes,
    (∀ dg ∈ got, dg ∈ sendUdpReply maxDatagramSize sessionId packetId target data) →
      ∀ p ∈ got.filterMap hy2Pump, p.2 = data

/-- The client makes a target of the text. -/
def hy2Reads (target : NetAddr) : Bool :=
  ((wireAddr target.text).toOption.bind fun r => parseHostport r.1).isSome

theorem wireAddr_rest {addr : Str} {r : Str × Bytes} (h : wireAddr addr = .ok r) :
    r.2.length = (utf8 addr).length - (utf8 addr).length % 2 ^ 62 := by
  unfold wireAddr at h
  obtain ⟨-, -, h⟩ := bind_eq_ok.mp h
  obtain ⟨s, -, h⟩ := bind_eq_ok.mp h
  cases h
  exact List.length_drop

/-- Every datagram of a reply passes on its piece, behind what the reader left of the
    address. -/
theorem hy2Whole_iff_pieces {maxDatagramSize : Option Nat} {sessionId : UInt32}
    {packetId : UInt16} {target : NetAddr} {data : Bytes} {r : Str × Bytes} {t : NetAddr}
    (hr : wireAddr target.text = .ok r) (ht : parseHostport r.1 = some t) :
    Hy2Whole maxDatagramSize sessionId packetId target data ↔
      ∀ chunk ∈ hy2Chunks (hy2Budget maxDatagramSize target) data, r.2 ++ chunk = data := by
  have hpump : ∀ (fragId fragCount : UInt8) (chunk : Bytes), hy2Pump
      (udpMessageHeader sessionId packetId fragId fragCount target.text ++ chunk) =
      some (t, r.2 ++ chunk) := by
    intro fragId fragCount chunk
    rw [hy2Pump_message, hr]
    simp [Except.toOption, ht]
  unfold Hy2Whole
  rw [forall_filterMap_iff]
  unfold sendUdpReply
  dsimp only
  constructor
  · intro h chunk hchunk
    obtain ⟨i, hi, rfl⟩ := List.mem_iff_getElem.mp hchunk
    exact h _ (List.mem_mapIdx.mpr ⟨i, hi, rfl⟩) _ (hpump _ _ _)
  · intro h dg hdg p hp
    obtain ⟨i, hi, rfl⟩ := List.mem_mapIdx.mp hdg
    rw [hpump] at hp
    cases hp
    exact h _ (List.getElem_mem hi)

theorem hy2Whole_iff {maxDatagramSize : Option Nat} {sessionId : UInt32} {packetId : UInt16}
    {target : NetAddr} {data : Bytes} (hdata : data.length ≤ 65535) :
    Hy2Whole maxDatagramSize sessionId packetId target data ↔
      hy2Reads target = false ∨ (utf8 target.text).length < 2 ^ 62 ∧
        (data.length ≤ hy2Budget maxDatagramSize target ∨
          hy2Budget maxDatagramSize target = 0) := by
  by_cases hreads : hy2Reads target = false
  · simp only [hreads, true_or, iff_true]
    unfold Hy2Whole
    rw [forall_filterMap_iff]
    intro dg hdg p hp
    obtain ⟨i, hi, rfl⟩ := List.mem_mapIdx.mp hdg
    rw [hy2Pump_message] at hp
    obtain ⟨r, hr, hp⟩ := Option.bind_eq_some_iff.mp hp
    obtain ⟨t, ht, -⟩ := Option.map_eq_some_iff.mp hp
    have hsome : hy2Reads target = true := by
      unfold hy2Reads
      rw [hr, Option.bind_some, ht]
      rfl
    rw [hreads] at hsome
    cases hsome
  · obtain ⟨r, t, hr, ht⟩ : ∃ r t, wireAddr target.text = .ok r ∧ parseHostport r.1 = some t := by
      rw [Bool.not_eq_false] at hreads
      obtain ⟨t, hbind⟩ := Option.isSome_iff_exists.mp hreads
      obtain ⟨r, hr, ht⟩ := Option.bind_eq_some_iff.mp hbind
      refine ⟨r, t, ?_, ht⟩
      cases hw : wireAddr target.text with
      | error e =>
        rw [hw] at hr
        cases hr
      | ok r' =>
        rw [hw] at hr
        cases hr
        rfl
    have hrest := wireAddr_rest hr
    have hmod : (utf8 target.text).length % 2 ^ 62 ≤ (utf8 target.text).length := Nat.mod_le _ _
    rw [hy2Whole_iff_pieces hr ht, or_iff_right hreads]
    unfold hy2Chunks
    split_ifs with hone
    · rw [and_iff_left hone]
      simp only [List.mem_singleton, forall_eq]
      rw [List.append_left_eq_self, ← List.length_eq_zero_iff, hrest]
      omega
    · refine ⟨fun h => ?_, fun h => absurd h.2 hone⟩
      rw [not_or] at hone
      have hzero := @chunksOf_zero (hy2Budget maxDatagramSize target) data
        (by omega) (by omega)
      have hp := congrArg List.length (h _ (List.mem_of_getElem? hzero))
      rw [List.length_append, List.length_take, hrest] at hp
      omega

/-! ## Both -/

/-- A reply reaches the application whole or not at all exactly when it goes in one datagram
    or the client reads no target from it. -/
theorem replies_whole_iff (maxDatagramSize : Option Nat) (tuicSession : UInt16)
    (hy2Session : UInt32) (packetId : UInt16) (target : NetAddr) (data : Bytes)
    (h : data.length ≤ 65535) :
    (TuicWhole maxDatagramSize tuicSession packetId target data ↔
      wireHost target.host = none ∨ data.length ≤ tuicBudget maxDatagramSize target ∨
        tuicBudget maxDatagramSize target = 0) ∧
    (Hy2Whole maxDatagramSize hy2Session packetId target data ↔
      hy2Reads target = false ∨ (utf8 target.text).length < 2 ^ 62 ∧
        (data.length ≤ hy2Budget maxDatagramSize target ∨
          hy2Budget maxDatagramSize target = 0)) :=
  ⟨tuicWhole_iff h, hy2Whole_iff h⟩

/-- 1.1.1.1:53. -/
def replyTarget : NetAddr := ⟨.ip (.v4 0x01010101), 53⟩

/-- A reply of 1200 bytes over datagrams of 1150. -/
theorem replies_cut :
    ¬ TuicWhole (some 1150) 1 7 replyTarget (List.replicate 1200 0) ∧
      ¬ Hy2Whole (some 1150) 1 7 replyTarget (List.replicate 1200 0) := by
  have hlen : (List.replicate 1200 (0 : UInt8)).length = 1200 := List.length_replicate
  constructor
  · rw [tuicWhole_iff (by rw [hlen]; decide), hlen]
    decide
  · rw [hy2Whole_iff (by rw [hlen]; decide), hlen]
    decide +kernel

theorem replies_whole_short :
    TuicWhole (some 1150) 1 7 replyTarget [0x61] ∧ Hy2Whole (some 1150) 1 7 replyTarget [0x61] :=
  ⟨(replies_whole_iff (some 1150) 1 1 7 replyTarget [0x61] (by decide)).1.mpr
      (Or.inr (Or.inl (by decide))),
    (replies_whole_iff (some 1150) 1 1 7 replyTarget [0x61] (by decide)).2.mpr
      (Or.inr ⟨by decide, Or.inl (by decide)⟩)⟩

end RustCrash.Quic
