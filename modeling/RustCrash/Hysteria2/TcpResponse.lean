import RustCrash.Error
import RustCrash.Lib.PollIo
import RustCrash.Quic.Varint

/-
  The relay stream of the Hysteria2 client (`proto/hysteria2.rs`): the server's response in front
  of the data is read off by `Hysteria2Stream::poll_read`.

  More bytes never change what `parse_tcp_response` has decided, so it waits on every beginning of a
  response. A poll gives the next bytes behind the response, or it waits (`pollRead_sound`).
-/

namespace RustCrash.Hysteria2

open Lib Quic

/-! ## The response -/

def maxMessageLength : Nat := 2048

def maxPaddingLength : Nat := 4096

/-- The offset where the padding ends; none when more bytes are needed. -/
def parseTcpResponse (data : Bytes) : Result (Option Nat) :=
  match data with
  | [] => .ok none
  | status :: rest =>
    match readVarint rest with
    | none => .ok none
    | some (msgLen, n) =>
      let off := n + 1
      if maxMessageLength < msgLen then .error (.protocol "tcp resp: invalid message length")
      else
        match getRange data off msgLen with
        | none => .ok none
        | some msg =>
          let off := off + msgLen
          match readVarint (data.drop off) with
          | none => .ok none
          | some (padLen, n) =>
            if maxPaddingLength < padLen then
              .error (.protocol "tcp resp: invalid padding length")
            else
              let off := off + (n + padLen)
              if data.length < off then .ok none
              else if status ≠ 0 then
                .error (.network s!"hysteria2 tcp: remote error: {txt (fromUtf8Lossy msg)}")
              else .ok (some off)

/-- A varint of any of the four lengths, not only the shortest: the two top bits give the
    length. -/
def IsVarint (n : Nat) (bs : Bytes) : Prop :=
  ∃ k < 4, bs.length = 2 ^ k ∧ n < 2 ^ (8 * 2 ^ k - 2) ∧ ofBE bs = k * 2 ^ (8 * 2 ^ k - 2) + n

/-- Status 0, a message and a padding, each behind its length. -/
inductive TcpResponse : Bytes → Prop where
  | success {msg pad msgLen padLen : Bytes} (hmsg : msg.length ≤ 2048) (hpad : pad.length ≤ 4096)
    (hmsgLen : IsVarint msg.length msgLen) (hpadLen : IsVarint pad.length padLen) :
    TcpResponse (0 :: (msgLen ++ (msg ++ (padLen ++ pad))))

/-! ## The parser -/

theorem foldl_ofBE (tail : Bytes) (a : Nat) :
    tail.foldl (fun v b => v * 256 + b.toNat) a = a * 256 ^ tail.length + ofBE tail := by
  induction tail generalizing a with
  | nil => simp [ofBE]
  | cons b tail ih =>
    rw [List.foldl_cons, ih, ofBE, List.length_cons, Nat.pow_succ]
    ring

theorem quotient_unique {a b x y m : Nat} (hx : x < m) (hy : y < m)
    (h : a * m + x = b * m + y) : a = b ∧ x = y := by
  have hm : 0 < m := Nat.zero_lt_of_lt hx
  have hdiv := congrArg (· / m) h
  simp only [Nat.mul_comm _ m, Nat.mul_add_div hm, Nat.div_eq_of_lt hx, Nat.div_eq_of_lt hy,
    Nat.add_zero] at hdiv
  exact ⟨hdiv, Nat.add_left_cancel (hdiv ▸ h)⟩

theorem readVarint_of_isVarint {n : Nat} {bs : Bytes} (h : IsVarint n bs) (rest : Bytes) :
    readVarint (bs ++ rest) = some (n, bs.length) := by
  obtain ⟨k, hk, hlen, hn, hvalue⟩ := h
  cases bs with
  | nil =>
    have hpos := Nat.two_pow_pos k
    rw [List.length_nil] at hlen
    omega
  | cons first tail =>
    rw [List.length_cons] at hlen
    have htail := ofBE_lt tail
    have hlow : (first &&& 0x3f).toNat = first.toNat % 64 := by
      rw [UInt8.toNat_and]
      exact Nat.and_two_pow_sub_one_eq_mod first.toNat 6
    -- the value without its two top bits fits what is left of the bytes
    have hpow : 2 ^ (8 * 2 ^ k - 2) = 64 * 256 ^ tail.length := by
      rw [← hlen, show 8 * (tail.length + 1) - 2 = 6 + 8 * tail.length by omega, Nat.pow_add,
        Nat.pow_mul]
    have hsplit : first.toNat / 64 * (64 * 256 ^ tail.length) +
        (first.toNat % 64 * 256 ^ tail.length + ofBE tail) =
        k * (64 * 256 ^ tail.length) + n := by
      rw [← hpow, ← hvalue, ofBE, hpow, ← Nat.add_assoc, ← Nat.mul_assoc, ← Nat.add_mul,
        Nat.div_add_mod']
    have hrem : first.toNat % 64 * 256 ^ tail.length + ofBE tail < 64 * 256 ^ tail.length := by
      have hmod : first.toNat % 64 ≤ 63 := Nat.le_of_lt_succ (Nat.mod_lt _ (by decide))
      have := Nat.mul_le_mul_right (256 ^ tail.length) hmod
      omega
    obtain ⟨hk', hn'⟩ := quotient_unique hrem (hpow ▸ hn) hsplit
    rw [readVarint_cons rest (by rw [hk', ← hlen]), foldl_ofBE, hlow, hn', List.length_cons]

/-- More bytes behind a varint do not matter. -/
theorem readVarint_append {data : Bytes} {x : Nat × Nat} (h : readVarint data = some x)
    (more : Bytes) : readVarint (data ++ more) = some x := by
  unfold readVarint at h ⊢
  obtain ⟨first, hfirst, h⟩ := Option.bind_eq_some_iff.mp h
  have hpos := Nat.two_pow_pos (first.toNat / 64)
  dsimp only at h
  split_ifs at h with hshort
  have hhead : (data ++ more).head? = some first := by
    rw [List.head?_append, hfirst, Option.some_or]
  have htake : ((data ++ more).drop 1).take (2 ^ (first.toNat / 64) - 1) =
      (data.drop 1).take (2 ^ (first.toNat / 64) - 1) := by
    rw [List.drop_append_of_le_length (by omega), List.take_append_of_le_length]
    rw [List.length_drop]
    omega
  rw [hhead, Option.bind_some]
  dsimp only
  rw [if_neg (by rw [List.length_append]; omega), htake]
  exact h

theorem getRange_more {data msg : Bytes} {a n : Nat} (h : getRange data a n = some msg)
    (more : Bytes) : getRange (data ++ more) a n = some msg := by
  unfold getRange at h ⊢
  split_ifs at h with hle
  rw [if_pos (by rw [List.length_append]; omega), ← h, slice_append_left hle]

/-- What is decided stays decided. -/
theorem parseTcpResponse_append {data : Bytes} {res : Result (Option Nat)}
    (h : parseTcpResponse data = res) (hres : res ≠ .ok none) (more : Bytes) :
    parseTcpResponse (data ++ more) = res := by
  cases data with
  | nil => exact absurd h.symm hres
  | cons status rest =>
    rw [List.cons_append]
    unfold parseTcpResponse at h ⊢
    dsimp only at h ⊢
    cases hmsgLen : readVarint rest with
    | none =>
      rw [hmsgLen] at h
      exact absurd h.symm hres
    | some x =>
      rw [hmsgLen] at h
      rw [readVarint_append hmsgLen]
      dsimp only at h ⊢
      by_cases hlong : maxMessageLength < x.1
      · rw [if_pos hlong] at h ⊢
        exact h
      rw [if_neg hlong] at h ⊢
      cases hmsg : getRange (status :: rest) (x.2 + 1) x.1 with
      | none =>
        rw [hmsg] at h
        exact absurd h.symm hres
      | some msg =>
        have hmore := getRange_more hmsg more
        have hle : x.2 + 1 + x.1 ≤ (status :: rest).length := by
          unfold getRange at hmsg
          split_ifs at hmsg with hle
          exact hle
        rw [List.cons_append] at hmore
        rw [hmsg] at h
        rw [hmore, ← List.cons_append, List.drop_append_of_le_length hle]
        dsimp only at h ⊢
        cases hpadLen : readVarint ((status :: rest).drop (x.2 + 1 + x.1)) with
        | none =>
          rw [hpadLen] at h
          exact absurd h.symm hres
        | some y =>
          rw [hpadLen] at h
          rw [readVarint_append hpadLen]
          dsimp only at h ⊢
          by_cases hwide : maxPaddingLength < y.1
          · rw [if_pos hwide] at h ⊢
            exact h
          rw [if_neg hwide] at h ⊢
          by_cases hshort : (status :: rest).length < x.2 + 1 + x.1 + (y.2 + y.1)
          · rw [if_pos hshort] at h
            exact absurd h.symm hres
          · rw [if_neg hshort] at h
            rw [if_neg (by rw [List.length_append]; omega)]
            exact h

/-- The padding ends in the bytes. -/
theorem le_of_parseTcpResponse {data : Bytes} {n : Nat}
    (h : parseTcpResponse data = .ok (some n)) : n ≤ data.length := by
  unfold parseTcpResponse at h
  split at h
  · exact absurd (Except.ok.inj h) (Option.some_ne_none n).symm
  · split at h
    · exact absurd (Except.ok.inj h) (Option.some_ne_none n).symm
    dsimp only at h
    split at h
    · cases h
    split at h
    · exact absurd (Except.ok.inj h) (Option.some_ne_none n).symm
    split at h
    · exact absurd (Except.ok.inj h) (Option.some_ne_none n).symm
    split at h
    · cases h
    split at h
    · exact absurd (Except.ok.inj h) (Option.some_ne_none n).symm
    · rename_i hlen
      split at h
      · cases h
      · rw [← Option.some.inj (Except.ok.inj h)]
        exact Nat.le_of_not_lt hlen

theorem parseTcpResponse_response {r : Bytes} (h : TcpResponse r) (d : Bytes) :
    parseTcpResponse (r ++ d) = .ok (some r.length) := by
  cases h with
  | @success msg pad msgLen padLen hmsg hpad hmsgLen hpadLen =>
    have hassoc : 0 :: (msgLen ++ (msg ++ (padLen ++ pad))) ++ d =
        0 :: (msgLen ++ (msg ++ (padLen ++ (pad ++ d)))) := by
      simp only [List.cons_append, List.append_assoc]
    have hget : getRange (0 :: (msgLen ++ (msg ++ (padLen ++ (pad ++ d)))))
        (msgLen.length + 1) msg.length = some msg := by
      rw [getRange_cons, ← Nat.add_zero msgLen.length, getRange_append, getRange_here]
    have hdrop : (0 :: (msgLen ++ (msg ++ (padLen ++ (pad ++ d))))).drop
        (msgLen.length + 1 + msg.length) = padLen ++ (pad ++ d) := by
      rw [Nat.add_right_comm, List.drop_succ_cons, ← List.drop_drop, List.drop_left,
        List.drop_left]
    have hlen : (0 :: (msgLen ++ (msg ++ (padLen ++ pad)))).length =
        msgLen.length + 1 + msg.length + (padLen.length + pad.length) := by
      simp only [List.length_cons, List.length_append]
      omega
    rw [hassoc, hlen]
    unfold parseTcpResponse
    dsimp only
    rw [readVarint_of_isVarint hmsgLen]
    dsimp only
    rw [if_neg (Nat.not_lt.mpr (show msg.length ≤ maxMessageLength from hmsg)), hget]
    dsimp only
    rw [hdrop, readVarint_of_isVarint hpadLen]
    dsimp only
    rw [if_neg (Nat.not_lt.mpr (show pad.length ≤ maxPaddingLength from hpad)), if_neg,
      if_neg (not_not.mpr rfl)]
    simp only [List.length_cons, List.length_append]
    omega

/-- Of a response that comes in, nothing is decided before it is whole. -/
theorem parseTcpResponse_part {r d buf later : Bytes} (h : TcpResponse r)
    (hbuf : buf ++ later = r ++ d) :
    parseTcpResponse buf = if buf.length < r.length then .ok none else .ok (some r.length) := by
  have hwhole := parseTcpResponse_response h d
  rw [← hbuf] at hwhole
  by_cases hshort : buf.length < r.length
  · rw [if_pos hshort]
    by_contra hdecided
    have hstays := parseTcpResponse_append rfl hdecided later
    have := le_of_parseTcpResponse (hstays ▸ hwhole)
    omega
  · rw [if_neg hshort]
    obtain ⟨more, rfl⟩ : r <+: buf :=
      List.prefix_of_prefix_length_le (List.prefix_append r d) (hbuf ▸ List.prefix_append buf later)
        (Nat.le_of_not_lt hshort)
    exact parseTcpResponse_response h more

/-! ## The stream -/

/-- `inner` is not a field: it is the script of the transport. -/
structure Hysteria2Stream where
  pending : Bytes
  respPending : Bool
  respBuf : Bytes

def Hysteria2Stream.new : Hysteria2Stream := ⟨[], true, []⟩

def beforeResponse : IoError := ⟨.unexpectedEof, "hysteria2 tcp: EOF before response frame"⟩

def chunkLen : Nat := 4096

/-- Where a read has got to. -/
structure RespRead where
  stream : Hysteria2Stream
  script : List Arrival
  res : Poll (IoResult Bytes)

/-- The loop that takes the response off; a success has no bytes yet. -/
def readResponse (script : List Arrival) (s : Hysteria2Stream) : RespRead :=
  match parseTcpResponse s.respBuf with
  | .ok (some used) =>
    ⟨{ s with pending := s.pending ++ s.respBuf.drop used, respPending := false }, script,
      .ready (.ok [])⟩
  | .error e => ⟨s, script, .ready (.error ⟨.invalidData, e.display⟩)⟩
  | .ok none =>
    match hread : transportRead chunkLen script with
    | (left, .pending) => ⟨s, left, .pending⟩
    | (left, .ready []) => ⟨s, left, .ready (.error beforeResponse)⟩
    | (left, .ready (b :: bs)) =>
      have := awaited_transportRead (by decide) hread
      readResponse left { s with respBuf := s.respBuf ++ b :: bs }
termination_by awaited script

namespace Hysteria2Stream

/-- What is pending, and then what the transport brings. -/
def relay (cap : Nat) (script : List Arrival) (s : Hysteria2Stream) : RespRead :=
  if s.pending ≠ [] then
    ⟨{ s with pending := s.pending.drop cap }, script, .ready (.ok (s.pending.take cap))⟩
  else
    match transportRead cap script with
    | (left, .pending) => ⟨s, left, .pending⟩
    | (left, .ready bs) => ⟨s, left, .ready (.ok bs)⟩

/-- `poll_read` into a buffer of `cap` bytes: the bytes that were put there. -/
def pollRead (cap : Nat) (script : List Arrival) (s : Hysteria2Stream) : RespRead :=
  if s.respPending then
    let w := readResponse script s
    match w.res with
    | .ready (.ok _) => w.stream.relay cap w.script
    | _ => w
  else s.relay cap script

def poll (caps : Nat → Nat) (i : Nat) (s : Hysteria2Stream × List Arrival) :
    (Hysteria2Stream × List Arrival) × Poll (IoResult Bytes) :=
  let w := pollRead (caps i) s.2 s.1
  ((w.stream, w.script), w.res)

end Hysteria2Stream

/-! ## The data behind the response -/

/-- A stream that has `rest` to give. -/
inductive Holds (closing : Bool) (rest : Bytes) : Hysteria2Stream → List Arrival → Prop where
  | waits {respBuf r : Bytes} {script : List Arrival} (hends : Finishes closing script)
    (hr : TcpResponse r) (hbytes : respBuf ++ arrived script = r ++ rest) :
    Holds closing rest ⟨[], true, respBuf⟩ script
  | relays {pending respBuf : Bytes} {script : List Arrival} (hends : Finishes closing script)
    (hbytes : pending ++ arrived script = rest) :
    Holds closing rest ⟨pending, false, respBuf⟩ script

/-- What the loop does on a stream that waits for its response: the response is taken off, or
    the transport has nothing now. -/
inductive Responded (closing : Bool) (rest : Bytes) (script : List Arrival) : RespRead → Prop where
  | taken {pending respBuf : Bytes} {left : List Arrival} (hends : Finishes closing left)
    (hbytes : pending ++ arrived left = rest) (hle : awaited left ≤ awaited script) :
    Responded closing rest script ⟨⟨pending, false, respBuf⟩, left, .ready (.ok [])⟩
  | waits {s : Hysteria2Stream} {left : List Arrival} (h : Holds closing rest s left)
    (hless : awaited left < awaited script) :
    Responded closing rest script ⟨s, left, .pending⟩

variable {closing : Bool} {rest : Bytes} {script : List Arrival} {caps : Nat → Nat}

theorem Responded.later {script left : List Arrival} {w : RespRead}
    (h : Responded closing rest left w) (hless : awaited left < awaited script) :
    Responded closing rest script w := by
  cases h with
  | taken hends hbytes hle => exact .taken hends hbytes (Nat.le_trans hle (Nat.le_of_lt hless))
  | waits h hless' => exact .waits h (Nat.lt_trans hless' hless)

theorem readResponse_responded {rest r : Bytes} (hr : TcpResponse r) {respBuf : Bytes}
    (hends : Finishes closing script) (hbytes : respBuf ++ arrived script = r ++ rest) :
    Responded closing rest script (readResponse script ⟨[], true, respBuf⟩) := by
  induction hn : awaited script using Nat.strong_induction_on generalizing script respBuf with
  | _ n ih =>
    subst hn
    have hpart := parseTcpResponse_part hr hbytes
    have hlen := congrArg List.length hbytes
    rw [List.length_append, List.length_append] at hlen
    unfold readResponse
    by_cases hshort : respBuf.length < r.length
    · rw [if_pos hshort] at hpart
      dsimp only
      rw [hpart]
      dsimp only
      obtain ⟨hends', hreads⟩ := transportRead_reads (show 0 < chunkLen by decide) hends
      split
      · rename_i left hread
        rw [hread] at hreads hends'
        dsimp only at hreads hends'
        cases hreads with
        | waits same less =>
          rcases less with hless | ⟨rfl, rfl⟩
          · exact .waits (.waits hends' hr (same ▸ hbytes)) hless
          · -- all that comes has come
            rw [arrived_nil, List.length_nil] at hlen
            omega
      · rename_i left hread
        rw [hread] at hreads
        dsimp only at hreads
        cases hreads with
        | brings hne front less => exact absurd rfl hne
        | ends last =>
          rw [last, arrived_cons, Arrival.bytes, arrived_nil, List.append_nil,
            List.length_nil] at hlen
          omega
      · rename_i left b bs hread
        rw [hread] at hreads hends'
        dsimp only at hreads hends'
        cases hreads with
        | brings hne front less =>
          refine (ih _ less hends' ?_ rfl).later less
          rw [List.append_assoc, ← front, hbytes]
    · rw [if_neg hshort] at hpart
      dsimp only
      rw [hpart]
      refine .taken hends ?_ (Nat.le_refl _)
      rw [List.nil_append, ← List.drop_append_of_le_length (Nat.le_of_not_lt hshort), hbytes,
        List.drop_left]

/-- What a poll does: it gives the next bytes, or there is less to wait for, or nothing is left.
    It never fails, and it reports the end only where the data ends. -/
structure Sound (closing : Bool) (rest : Bytes) (script : List Arrival) (w : RespRead) : Prop where
  holds : ∃ more, rest = given w.res ++ more ∧ Holds closing more w.stream w.script ∧
    (given w.res ≠ [] ∨ awaited w.script < awaited script ∨ awaited w.script = 0 ∧ more = [])
  le : awaited w.script ≤ awaited script
  noError : ∀ e, w.res ≠ .ready (.error e)
  atEnd : w.res = .ready (.ok []) → rest = [] ∧ closing = true

theorem take_ne_nil {cap : Nat} (hcap : 0 < cap) {bs : Bytes} (h : bs ≠ []) : bs.take cap ≠ [] := by
  intro htake
  rcases List.take_eq_nil_iff.mp htake with hzero | hnil
  · exact absurd hzero (Nat.ne_of_gt hcap)
  · exact h hnil

theorem relay_sound {cap : Nat} (hcap : 0 < cap) {pending respBuf : Bytes}
    (hends : Finishes closing script) :
    Sound closing (pending ++ arrived script) script
      (Hysteria2Stream.relay cap script ⟨pending, false, respBuf⟩) := by
  unfold Hysteria2Stream.relay
  by_cases hpending : pending ≠ []
  · rw [if_pos hpending]
    have hne := take_ne_nil hcap hpending
    refine ⟨⟨pending.drop cap ++ arrived script, ?_, .relays hends rfl, .inl hne⟩, Nat.le_refl _,
      fun e h => ?_, fun h => ?_⟩
    · show _ = pending.take cap ++ _
      rw [← List.append_assoc, List.take_append_drop]
    · cases h
    · exact absurd (Except.ok.inj (Poll.ready.inj h)) hne
  · rw [if_neg hpending]
    rw [not_not.mp hpending, List.nil_append]
    obtain ⟨hends', hreads⟩ := transportRead_reads hcap hends
    generalize transportRead cap script = t at hends' hreads
    obtain ⟨left, res⟩ := t
    dsimp only at hends' hreads
    cases hreads with
    | waits same less =>
      refine ⟨⟨arrived left, same.symm, .relays hends' rfl, ?_⟩, ?_, fun e h => (by cases h),
        fun h => (by cases h)⟩
      · rcases less with hless | ⟨rfl, rfl⟩
        · exact .inr (.inl hless)
        · exact .inr (.inr ⟨rfl, rfl⟩)
      · rcases less with hless | ⟨rfl, rfl⟩
        · exact Nat.le_of_lt hless
        · exact Nat.le_refl _
    | brings hne front less =>
      refine ⟨⟨arrived left, front, .relays hends' rfl, .inr (.inl less)⟩, Nat.le_of_lt less,
        fun e h => (by cases h), fun h => ?_⟩
      exact absurd (Except.ok.inj (Poll.ready.inj h)) hne
    | ends last =>
      subst last
      exact ⟨⟨[], rfl, .relays hends' rfl, .inr (.inr ⟨rfl, rfl⟩)⟩, Nat.le_refl _,
        fun e h => (by cases h), fun _ => ⟨rfl, hends'.2⟩⟩

theorem pollRead_sound {cap : Nat} (hcap : 0 < cap) {s : Hysteria2Stream}
    (h : Holds closing rest s script) : Sound closing rest script (s.pollRead cap script) := by
  unfold Hysteria2Stream.pollRead
  cases h with
  | waits hends hr hbytes =>
    rw [if_pos rfl]
    have hresponded := readResponse_responded hr hends hbytes
    generalize readResponse script _ = w at hresponded
    cases hresponded with
    | taken hends' hbytes' hle =>
      obtain ⟨⟨more, hsplit, hholds, hmoves⟩, hle', hnoError, hatEnd⟩ := hbytes' ▸
        relay_sound hcap hends'
      refine ⟨⟨more, hsplit, hholds, ?_⟩, Nat.le_trans hle' hle, hnoError, hatEnd⟩
      rcases hmoves with hne | hless | hend
      · exact .inl hne
      · exact .inr (.inl (Nat.lt_of_lt_of_le hless hle))
      · exact .inr (.inr hend)
    | waits h' hless =>
      exact ⟨⟨rest, rfl, h', .inr (.inl hless)⟩, Nat.le_of_lt hless, fun e h => (by cases h),
        fun h => (by cases h)⟩
  | relays hends hbytes =>
    rw [if_neg Bool.false_ne_true, ← hbytes]
    exact relay_sound hcap hends

theorem poll_drains (hcaps : ∀ i, 0 < caps i) :
    Drains (fun i s => ((Hysteria2Stream.poll caps i s).1, given (Hysteria2Stream.poll caps i s).2))
      (fun s rest => Holds closing rest s.1 s.2) (fun s => awaited s.2) := by
  rintro i ⟨s, script⟩ rest h
  obtain ⟨⟨more, hsplit, hholds, hmoves⟩, hle, -, -⟩ := pollRead_sound (hcaps i) h
  exact ⟨more, hholds, hsplit, hle, hmoves⟩

theorem answers_prefix (hcaps : ∀ i, 0 < caps i) (n i : Nat) {s : Hysteria2Stream × List Arrival}
    (h : Holds closing rest s.1 s.2) :
    (answers (Hysteria2Stream.poll caps) n i s).flatMap given <+: rest := by
  have hprefix := Drains.outputs_prefix (poll_drains hcaps) (i := i) h n
  rw [outputs_map, ← List.flatMap_def] at hprefix
  exact hprefix

theorem answers_all (hcaps : ∀ i, 0 < caps i) {n i : Nat} {s : Hysteria2Stream × List Arrival}
    (h : Holds closing rest s.1 s.2) (hn : rest.length + awaited s.2 ≤ n) :
    (answers (Hysteria2Stream.poll caps) n i s).flatMap given = rest := by
  have hall := (poll_drains hcaps).flatten_outputs (i := i) h hn
  rw [outputs_map, ← List.flatMap_def] at hall
  exact hall

/-- In any number of polls: none fails, and one that reports the end has all before it. -/
theorem answers_sound (hcaps : ∀ i, 0 < caps i) (n : Nat) {i : Nat} {s : Hysteria2Stream}
    (h : Holds closing rest s script) :
    (∀ e, .ready (.error e) ∉ answers (Hysteria2Stream.poll caps) n i (s, script)) ∧
      (.ready (.ok []) ∈ answers (Hysteria2Stream.poll caps) n i (s, script) →
        (answers (Hysteria2Stream.poll caps) n i (s, script)).flatMap given = rest ∧
          closing = true) := by
  induction n generalizing i rest s script with
  | zero => exact ⟨fun e => List.not_mem_nil, fun h => absurd h List.not_mem_nil⟩
  | succ n ih =>
    obtain ⟨⟨more, hsplit, hholds, -⟩, -, hnoError, hatEnd⟩ := pollRead_sound (hcaps i) h
    obtain ⟨ihError, ihEnd⟩ := ih (i := i + 1) hholds
    have hprefix := answers_prefix hcaps n (i + 1)
      (s := ((s.pollRead (caps i) script).stream, (s.pollRead (caps i) script).script)) hholds
    rw [answers, List.flatMap_cons]
    refine ⟨fun e hmem => ?_, fun hmem => ?_⟩
    · rcases List.mem_cons.mp hmem with hhead | htail
      · exact hnoError e hhead.symm
      · exact ihError e htail
    · rcases List.mem_cons.mp hmem with hhead | htail
      · obtain ⟨rfl, hclosing⟩ := hatEnd hhead.symm
        obtain ⟨hgiven, rfl⟩ := List.append_eq_nil_iff.mp hsplit.symm
        refine ⟨?_, hclosing⟩
        show given (s.pollRead (caps i) script).res ++ _ = []
        rw [hgiven, List.nil_append]
        exact List.prefix_nil.mp hprefix
      · obtain ⟨hgiven, hclosing⟩ := ihEnd htail
        refine ⟨?_, hclosing⟩
        rw [hsplit]
        exact congrArg _ hgiven

/-- Behind a success response, the reads give the data: nothing before it, each byte once and in
    order, and all of it when they go on. The response is not seen before it is whole. -/
theorem pollRead_relays {r d : Bytes} (hr : TcpResponse r) {closing : Bool}
    {script : List Arrival} (hends : Finishes closing script) (harrived : arrived script = r ++ d)
    {caps : Nat → Nat} (hcaps : ∀ i, 0 < caps i) :
    (∀ p, p <+: r → p ≠ r → parseTcpResponse p = .ok none) ∧
      ∀ n, let polls := answers (Hysteria2Stream.poll caps) n 0 (Hysteria2Stream.new, script)
        (∀ e, .ready (.error e) ∉ polls) ∧ polls.flatMap given <+: d ∧
          (.ready (.ok []) ∈ polls → polls.flatMap given = d ∧ closing = true) ∧
          (d.length + awaited script ≤ n → polls.flatMap given = d) := by
  have hholds : Holds closing d Hysteria2Stream.new script := .waits hends hr harrived
  refine ⟨fun p hp hne => ?_, fun n => ?_⟩
  · obtain ⟨later, rfl⟩ := hp
    rw [parseTcpResponse_part hr (List.append_nil (p ++ later)).symm, if_pos]
    rw [List.length_append, Nat.lt_add_right_iff_pos]
    exact List.length_pos_of_ne_nil fun hnil => hne (by rw [hnil, List.append_nil])
  · dsimp only
    obtain ⟨hnoError, hatEnd⟩ := answers_sound (i := 0) hcaps n hholds
    exact ⟨hnoError, answers_prefix (s := (_, script)) hcaps n 0 hholds, hatEnd,
      answers_all (s := (_, script)) hcaps hholds⟩

/-- Cut inside a length of two bytes, with a message of three. -/
theorem pollRead_relays_sample :
    let script : List Arrival := [.data [0, 0x40], .pending, .data [3, 97, 98, 99, 0, 7], .data [8]]
    (answers (Hysteria2Stream.poll fun _ => 1) 26 0 (Hysteria2Stream.new, script)).flatMap given =
      [7, 8] := by
  intro script
  have hr : TcpResponse [0, 0x40, 3, 97, 98, 99, 0] :=
    @TcpResponse.success [97, 98, 99] [] [0x40, 3] [0] (by decide) (by decide)
      ⟨1, by decide, rfl, by decide, by decide⟩ ⟨0, by decide, rfl, by decide, by decide⟩
  have hends : Finishes false script := rfl
  exact ((pollRead_relays hr hends rfl fun _ => Nat.one_pos).2 26).2.2.2 (by decide)

end RustCrash.Hysteria2
