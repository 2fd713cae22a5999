import RustCrash.Snell.RequestServed

/-
  Datagrams over a snell connection, one frame each.

  The server's `poll_read` takes a frame with `take_decrypted`, which copies the plaintext and
  leaves it in the connection, so each frame comes with all frames before it. The client's
  `read_packet` clears what it takes. The boundaries stay if and only if there is one datagram at
  most (`udp_boundaries_iff`).
-/

namespace RustCrash.Snell

open Lib Proto

/-! ## The server -/

/-- `take_decrypted`. -/
def Conn.takeDecrypted (c : Conn) : Option Bytes := if c.out = [] then none else some c.out

/-- The reading half of `SnellServerUdp`. -/
structure SnellServerUdp where
  conn : Conn
  failed : Bool
  leftover : Bytes

/-- What a poll leaves of a reader and of what the transport does. -/
structure Polling (S α : Type) where
  state : S
  script : List Arrival
  res : Poll (IoResult α)

def Polling.filled {S : Type} : Polling S Bytes → Bytes
  | ⟨_, _, .ready (.ok bs)⟩ => bs
  | _ => []

section Polls

variable (argon2id : Bytes → Bytes → ByteVec 32)

namespace SnellServerUdp

def pollReadFor : Nat → Nat → List Arrival → SnellServerUdp → Polling SnellServerUdp Bytes
  | 0, _, script, s => ⟨s, script, .pending⟩
  | k + 1, cap, script, s =>
    if cap = 0 then ⟨s, script, .ready (.ok [])⟩
    else if s.leftover ≠ [] then
      ⟨{ s with leftover := s.leftover.drop cap }, script, .ready (.ok (s.leftover.take cap))⟩
    else if s.failed then
      ⟨s, script, .ready (.error ⟨.brokenPipe, "snell: server udp stream failed"⟩)⟩
    else
      let f := s.conn.pollFill argon2id script
      match f.res with
      | .pending => ⟨{ s with conn := f.conn }, f.script, .pending⟩
      | .ready (.error e) => ⟨{ s with conn := f.conn, failed := true }, f.script, .ready (.error e)⟩
      | .ready (.ok true) =>
        pollReadFor k cap f.script
          { s with conn := f.conn, leftover := s.leftover ++ f.conn.takeDecrypted.getD [] }
      | .ready (.ok false) => ⟨{ s with conn := f.conn }, f.script, .ready (.ok [])⟩

/-- `poll_read` into `cap` bytes. -/
def pollRead (cap : Nat) (script : List Arrival) (s : SnellServerUdp) :
    Polling SnellServerUdp Bytes :=
  pollReadFor argon2id ((s.conn.rbuf ++ arrived script).length + 1) cap script s

/-- A read into `caps i` bytes. -/
def poll (caps : Nat → Nat) (i : Nat) (s : SnellServerUdp × List Arrival) :
    (SnellServerUdp × List Arrival) × Bytes :=
  let r := s.1.pollRead argon2id (caps i) s.2
  ((r.state, r.script), r.filled)

/-- The reads that give something, of the first `n`. -/
def received (caps : Nat → Nat) (n : Nat) (script : List Arrival) (s : SnellServerUdp) :
    List Bytes :=
  (outputs (poll argon2id caps) n 0 (s, script)).filter (· ≠ [])

end SnellServerUdp

/-! ## The client -/

/-- What the server's first bytes say. -/
inductive Reply where
  | pending
  | tunnel
  /-- So far. -/
  | error (buf : Bytes)
  deriving DecidableEq

namespace Reply

def feed : Reply → UInt8 → Reply × Result Unit
  | pending, b =>
    if b = cmdTunnel then (tunnel, .ok ())
    else if b = cmdError then (error [b], .ok ())
    else (pending, .error (.protocol "snell: command not support"))
  | tunnel, _ => (tunnel, .ok ())
  | error buf, b =>
    let buf := buf ++ [b]
    if buf.length < 3 then (error buf, .ok ())
    else
      let len := (buf.getD 2 0).toNat
      if buf.length < 3 + len then (error buf, .ok ())
      else
        let msg := fromUtf8Lossy (slice buf 3 len)
        (error buf, .error (.protocol
          s!"snell: server reported code: {(buf.getD 1 0).toNat}, message: {txt msg}"))

/-- `feed_reply`: what is left of the bytes. -/
def feedAll : Reply → Bytes → Reply × Bytes × Result Unit
  | tunnel, out => (tunnel, out, .ok ())
  | r, [] => (r, [], .ok ())
  | r, b :: out =>
    match r.feed b with
    | (r', .error e) => (r', b :: out, .error e)
    | (r', .ok ()) => feedAll r' out

end Reply

/-- The reading half of `SnellStream`. -/
structure SnellStream where
  conn : Conn
  reply : Reply
  failed : Bool

namespace SnellStream

/-- One poll of `read_packet`. -/
def pollPacketFor : Nat → List Arrival → SnellStream → Polling SnellStream Bytes
  | 0, script, s => ⟨s, script, .pending⟩
  | k + 1, script, s =>
    if s.failed then ⟨s, script, .ready (.error ⟨.brokenPipe, "snell: stream failed"⟩)⟩
    else
      let fed := s.reply.feedAll s.conn.out
      let s := { s with reply := fed.1, conn := { s.conn with out := fed.2.1 } }
      match fed.2.2 with
      | .error e => ⟨{ s with failed := true }, script, .ready (.error (ioInvalid e))⟩
      | .ok () =>
        if s.reply = .tunnel ∧ s.conn.out ≠ [] then
          ⟨{ s with conn := { s.conn with out := [] } }, script, .ready (.ok s.conn.out)⟩
        else
          let f := s.conn.pollFill argon2id script
          match f.res with
          | .pending => ⟨{ s with conn := f.conn }, f.script, .pending⟩
          | .ready (.error e) =>
            ⟨{ s with conn := f.conn, failed := true }, f.script, .ready (.error e)⟩
          | .ready (.ok true) => pollPacketFor k f.script { s with conn := f.conn }
          | .ready (.ok false) =>
            ⟨{ s with conn := f.conn, failed := true }, f.script, .ready (.error
              ⟨.unexpectedEof, "snell: session closed before a packet arrived"⟩)⟩

/-- One poll of `read_packet`; each chunk takes a byte of the wire. -/
def pollPacket (script : List Arrival) (s : SnellStream) : Polling SnellStream Bytes :=
  pollPacketFor argon2id ((s.conn.rbuf ++ arrived script).length + 1) script s

def readPacketFor : Nat → List Arrival → SnellStream →
    Except Stop (Bytes × List Arrival × SnellStream)
  | 0, _, _ => .error .waiting
  | k + 1, script, s =>
    let r := s.pollPacket argon2id script
    match r.res with
    | .pending => readPacketFor k r.script r.state
    | .ready (.error e) => .error (.failed (.io e.msg))
    | .ready (.ok packet) => .ok (packet, r.script, r.state)

/-- Polls until it is ready. -/
def readPacket (script : List Arrival) (s : SnellStream) :
    Except Stop (Bytes × List Arrival × SnellStream) :=
  readPacketFor argon2id (script.length + 1) script s

/-- What `n` calls of `read_packet` give, until one waits forever or fails. -/
def packets : Nat → List Arrival → SnellStream → List Bytes
  | 0, _, _ => []
  | n + 1, script, s =>
    match s.readPacket argon2id script with
    | .error _ => []
    | .ok (packet, script, s) => packet :: packets n script s

end SnellStream

end Polls

variable {argon2id : Bytes → Bytes → ByteVec 32}

/-! ## One read of the server -/

/-- What a read into `cap` bytes does: it goes on with a frame, begins one or waits. -/
inductive UdpRead (argon2id : Bytes → Bytes → ByteVec 32) (u : Reader) (cap : Nat)
    (s : SnellServerUdp) (script : List Arrival) :
    List Sealed → List Sealed → Polling SnellServerUdp Bytes → Prop
  | rest {todo : List Sealed} (hne : s.leftover ≠ []) :
      UdpRead argon2id u cap s script todo todo
        ⟨{ s with leftover := s.leftover.drop cap }, script, .ready (.ok (s.leftover.take cap))⟩
  | frame {plain wire : Bytes} {todo : List Sealed} {c : Conn} {script' : List Arrival}
      (hnone : s.leftover = []) (hne : plain ≠ []) (hout : c.out = s.conn.out ++ plain)
      (hreading : Reading argon2id u todo c script') (hless : script'.length ≤ script.length) :
      UdpRead argon2id u cap s script ((plain, wire) :: todo) todo
        ⟨⟨c, false, c.out.drop cap⟩, script', .ready (.ok (c.out.take cap))⟩
  | waits {todo : List Sealed} {c : Conn} {script' : List Arrival} (hnone : s.leftover = [])
      (hout : c.out = s.conn.out) (hreading : Reading argon2id u todo c script')
      (hless : script'.length < script.length ∨
        script' = [] ∧ script'.length ≤ script.length ∧ todo = []) :
      UdpRead argon2id u cap s script todo todo ⟨{ s with conn := c }, script', .pending⟩

variable {u : Reader} {todo : List Sealed} {s : SnellServerUdp} {script : List Arrival}
  {caps : Nat → Nat} {c : Conn} {reply : Reply}

theorem pollRead_read {cap : Nat} (hcap : 0 < cap) (h : Reading argon2id u todo s.conn script)
    (hf : s.failed = false) :
    ∃ todo', UdpRead argon2id u cap s script todo todo' (s.pollRead argon2id cap script) := by
  unfold SnellServerUdp.pollRead
  rw [SnellServerUdp.pollReadFor, if_neg (by omega)]
  by_cases hnone : s.leftover = []
  · have hopen : ¬ s.failed = true := by
      rw [hf]
      exact Bool.false_ne_true
    rw [if_neg (not_not_intro hnone), if_neg hopen]
    have hfill := h.fill
    generalize s.conn.pollFill argon2id script = f at hfill
    cases hfill with
    | @chunk plain wire todo c' used script' hscript hdata hne hout hreading hless =>
      have hsome : c'.out ≠ [] := by
        rw [hout]
        exact List.append_ne_nil_of_right_ne_nil _ hne
      obtain ⟨k, hk⟩ : ∃ k, (s.conn.rbuf ++ arrived script).length = k + 1 :=
        ⟨_, (Nat.succ_pred_eq_of_pos (Nat.lt_of_le_of_lt (Nat.zero_le _) hless)).symm⟩
      have htaken : s.leftover ++ c'.takeDecrypted.getD [] = c'.out := by
        unfold Conn.takeDecrypted
        rw [hnone, if_neg hsome]
        rfl
      have hlen := congrArg List.length hscript
      rw [List.length_append] at hlen
      rw [hk]
      dsimp only
      rw [SnellServerUdp.pollReadFor, if_neg (by omega), htaken, if_pos hsome]
      rw [hf]
      exact ⟨todo, .frame hnone hne hout hreading (by omega)⟩
    | @waits _ c' used last script' hscript hdata hlast hout hreading hlanded hall =>
      have hlen := congrArg List.length hscript
      rw [List.length_append, List.length_append] at hlen
      refine ⟨todo, .waits hnone hout hreading ?_⟩
      rcases hlast with rfl | ⟨rfl, rfl⟩
      · rw [List.length_singleton] at hlen
        exact .inl (by dsimp only; omega)
      · exact .inr ⟨rfl, Nat.zero_le _, hall rfl⟩
  · rw [if_pos hnone]
    exact ⟨todo, .rest hnone⟩

/-! ## All reads of the server -/

/-- What the server's reads give in all: each frame behind all frames before it. -/
def echoes : Bytes → List Sealed → Bytes
  | _, [] => []
  | out, (plain, _) :: todo => (out ++ plain) ++ echoes (out ++ plain) todo

/-- A reader of datagrams has the rest of the last one, and the echoes of the frames to come. -/
def HasEchoes (argon2id : Bytes → Bytes → ByteVec 32) (u : Reader)
    (s : SnellServerUdp × List Arrival) (bs : Bytes) : Prop :=
  ∃ todo, Reading argon2id u todo s.1.conn s.2 ∧ s.1.failed = false ∧
    bs = s.1.leftover ++ echoes s.1.conn.out todo

theorem poll_drains (hcaps : ∀ i, 0 < caps i) (u : Reader) :
    Drains (SnellServerUdp.poll argon2id caps) (HasEchoes argon2id u) (fun s => s.2.length) := by
  rintro i ⟨s, script⟩ bs ⟨todo, hreading, hf, rfl⟩
  have hsome : ∀ {out : Bytes}, out ≠ [] → out.take (caps i) ≠ [] := by
    intro out hne
    have := List.length_pos_of_ne_nil hne
    have := hcaps i
    apply List.ne_nil_of_length_pos
    rw [List.length_take]
    omega
  dsimp only at hreading hf
  obtain ⟨todo', hread⟩ := pollRead_read (hcaps i) hreading hf
  unfold SnellServerUdp.poll
  dsimp only
  generalize s.pollRead argon2id (caps i) script = r at hread
  cases hread with
  | rest hne =>
    refine ⟨_, ⟨todo, hreading, hf, rfl⟩, ?_, Nat.le_refl _, .inl (hsome hne)⟩
    dsimp only [Polling.filled]
    rw [← List.append_assoc, List.take_append_drop]
  | @frame plain wire _ c script' hnone hne hout hreading' hless =>
    have hsome' : c.out ≠ [] := by
      rw [hout]
      exact List.append_ne_nil_of_right_ne_nil _ hne
    refine ⟨_, ⟨todo', hreading', rfl, rfl⟩, ?_, hless, .inl (hsome hsome')⟩
    dsimp only [Polling.filled]
    rw [← List.append_assoc, List.take_append_drop, hnone, List.nil_append, echoes, ← hout]
  | @waits _ c script' hnone hout hreading' hless =>
    refine ⟨_, ⟨todo, hreading', hf, rfl⟩, ?_, ?_, ?_⟩
    · dsimp only [Polling.filled]
      rw [hout, List.nil_append]
    · rcases hless with hlt | ⟨-, hle, -⟩
      · exact Nat.le_of_lt hlt
      · exact hle
    · rcases hless with hlt | ⟨rfl, -, rfl⟩
      · exact .inr (.inl hlt)
      · refine .inr (.inr ⟨rfl, ?_⟩)
        dsimp only
        rw [hnone]
        rfl

theorem echoes_length (out : Bytes) (todo : List Sealed) :
    (plainOf todo).length ≤ (echoes out todo).length := by
  induction todo generalizing out with
  | nil => exact Nat.le_refl _
  | cons f todo ih =>
    have := ih (out ++ f.1)
    rw [echoes, plainOf_cons]
    simp only [List.length_append] at this ⊢
    omega

/-- From the second frame on there is more than was sent. -/
theorem echoes_ne (h : 1 < todo.length) (hne : ∀ f ∈ todo, f.1 ≠ []) :
    echoes [] todo ≠ plainOf todo := by
  match todo, h with
  | (p₁, w₁) :: (p₂, w₂) :: todo, _ =>
    intro heq
    have hpos := List.length_pos_of_ne_nil (hne _ List.mem_cons_self)
    have hle := echoes_length (p₁ ++ p₂) todo
    have hlen := congrArg List.length heq
    rw [echoes, echoes, plainOf_cons, plainOf_cons] at hlen
    simp only [List.length_append, List.nil_append] at hlen hpos
    omega

/-- Without frames nothing is read. -/
theorem outputs_quiet {n i : Nat} (h : Reading argon2id u [] s.conn script) (hf : s.failed = false)
    (hnone : s.leftover = []) :
    (outputs (SnellServerUdp.poll argon2id caps) n i (s, script)).filter (· ≠ []) = [] := by
  induction n generalizing s script i with
  | zero => rfl
  | succ n ih =>
    have hpoll : ∃ s' script', SnellServerUdp.poll argon2id caps i (s, script) =
        ((s', script'), []) ∧ Reading argon2id u [] s'.conn script' ∧ s'.failed = false ∧
          s'.leftover = [] := by
      unfold SnellServerUdp.poll
      dsimp only
      by_cases hcap : caps i = 0
      · have hzero : s.pollRead argon2id (caps i) script = ⟨s, script, .ready (.ok [])⟩ := if_pos hcap
        rw [hzero]
        exact ⟨s, script, rfl, h, hf, hnone⟩
      · obtain ⟨todo', hread⟩ := pollRead_read (Nat.pos_of_ne_zero hcap) h hf
        generalize s.pollRead argon2id (caps i) script = r at hread
        cases hread with
        | rest hne => exact absurd hnone hne
        | waits _ hout hreading _ => exact ⟨_, _, rfl, hreading, hf, hnone⟩
    obtain ⟨s', script', hs, hreading, hf', hnone'⟩ := hpoll
    rw [outputs, hs, List.filter_cons_of_neg (by simp)]
    exact ih hreading hf' hnone'

/-- The frames, each behind all frames before it. -/
def heaps : Bytes → List Sealed → List Bytes
  | _, [] => []
  | out, (plain, _) :: todo => (out ++ plain) :: heaps (out ++ plain) todo

/-- Into buffers that are large enough each read gives all frames so far. -/
theorem outputs_heaps {n i : Nat} (hcaps : ∀ i, (s.conn.out ++ plainOf todo).length ≤ caps i)
    (hne : ∀ f ∈ todo, f.1 ≠ []) (h : Reading argon2id u todo s.conn script) (hf : s.failed = false)
    (hnone : s.leftover = []) (hn : todo.length + script.length ≤ n) :
    (outputs (SnellServerUdp.poll argon2id caps) n i (s, script)).filter (· ≠ []) =
      heaps s.conn.out todo := by
  induction n generalizing s todo script i with
  | zero =>
    rw [List.eq_nil_of_length_eq_zero (by omega : todo.length = 0)]
    rfl
  | succ n ih =>
    match todo, h, hcaps, hne, hn with
    | [], h, _, _, _ => exact outputs_quiet h hf hnone
    | (plain, wire) :: todo, h, hcaps, hne, hn =>
      have hpos : 0 < plain.length := List.length_pos_of_ne_nil (hne _ List.mem_cons_self)
      have hcap : 0 < caps i := by
        have := hcaps i
        rw [plainOf_cons, List.length_append, List.length_append] at this
        omega
      obtain ⟨todo', hread⟩ := pollRead_read hcap h hf
      rw [outputs, SnellServerUdp.poll]
      dsimp only
      generalize s.pollRead argon2id (caps i) script = r at hread
      cases hread with
      | rest hleft => exact absurd hnone hleft
      | @frame _ _ _ c script' _ hne' hout hreading hless =>
        have hcaps' : ∀ i, (c.out ++ plainOf todo).length ≤ caps i := by
          intro i
          rw [hout, List.append_assoc, ← plainOf_cons plain wire]
          exact hcaps i
        have hfits : c.out.length ≤ caps i := by
          have := hcaps' i
          rw [List.length_append] at this
          omega
        have hsome : c.out ≠ [] := by
          rw [hout]
          exact List.append_ne_nil_of_right_ne_nil _ hne'
        dsimp only [Polling.filled]
        rw [List.take_of_length_le hfits, List.drop_of_length_le hfits,
          List.filter_cons_of_pos (by simpa using hsome), heaps, ← hout]
        rw [List.length_cons] at hn
        exact congrArg _ (ih hcaps' (fun f hf => hne f (List.mem_cons_of_mem _ hf)) hreading rfl rfl
          (by omega))
      | @waits _ c script' _ hout hreading hless =>
        rcases hless with hlt | ⟨-, -, hnil⟩
        · dsimp only [Polling.filled]
          rw [List.filter_cons_of_neg (by simp), ← hout]
          exact ih (s := { s with conn := c }) (hout ▸ hcaps) hne hreading hf hnone (by omega)
        · cases hnil

theorem flatten_filter_ne_nil (xs : List Bytes) : (xs.filter (· ≠ [])).flatten = xs.flatten := by
  induction xs with
  | nil => rfl
  | cons x xs ih =>
    by_cases hx : x = []
    · rw [List.filter_cons_of_neg (by simpa using hx), ih, hx, List.flatten_cons, List.nil_append]
    · rw [List.filter_cons_of_pos (by simpa using hx), List.flatten_cons, ih, List.flatten_cons]

/-- The server keeps the boundaries of one datagram at most. -/
theorem received_iff {frames : List Sealed} (h : Reading argon2id u frames c script)
    (hout : c.out = []) (hne : ∀ f ∈ frames, f.1 ≠ [])
    (hcaps : ∀ i, ∀ f ∈ frames, f.1.length ≤ caps i) :
    (∃ n, ∀ k, n ≤ k → SnellServerUdp.received argon2id caps k script ⟨c, false, []⟩ =
      frames.map Prod.fst) ↔ frames.length ≤ 1 := by
  constructor
  · rintro ⟨n, hn⟩
    by_contra hlen
    obtain ⟨f, hf⟩ := List.exists_mem_of_length_pos (by omega : 0 < frames.length)
    have hcaps' : ∀ i, 0 < caps i := fun i =>
      Nat.lt_of_lt_of_le (List.length_pos_of_ne_nil (hne f hf)) (hcaps i f hf)
    have hhas : HasEchoes argon2id u (⟨c, false, []⟩, script) (echoes c.out frames) :=
      ⟨frames, h, rfl, rfl⟩
    have hgot := congrArg List.flatten
      (hn (max n ((echoes c.out frames).length + script.length)) (Nat.le_max_left _ _))
    rw [SnellServerUdp.received, flatten_filter_ne_nil,
      (poll_drains hcaps' u).flatten_outputs hhas (Nat.le_max_right _ _), hout] at hgot
    exact echoes_ne (by omega) hne hgot
  · intro hlen
    match frames, hlen with
    | [], _ => exact ⟨0, fun k _ => outputs_quiet h rfl rfl⟩
    | [(plain, wire)], _ =>
      refine ⟨1 + script.length, fun k hk => ?_⟩
      have hfits : ∀ i, (c.out ++ plainOf [(plain, wire)]).length ≤ caps i := by
        intro i
        rw [hout, List.nil_append, plainOf_cons, plainOf_nil, List.append_nil]
        exact hcaps i _ List.mem_cons_self
      unfold SnellServerUdp.received
      rw [outputs_heaps (s := ⟨c, false, []⟩) hfits hne h rfl rfl hk]
      dsimp only
      rw [hout]
      rfl

/-! ## The client -/

/-- The reply is still to come as a frame of its own, or it came. -/
def Expects (reply : Reply) (todo packets : List Sealed) : Prop :=
  reply = .tunnel ∧ todo = packets ∨
    reply = .pending ∧ ∃ wire, todo = ([cmdTunnel], wire) :: packets

/-- What a poll of `read_packet` does: it has the next packet, or it waits. -/
inductive PacketPoll (argon2id : Bytes → Bytes → ByteVec 32) (u : Reader)
    (script : List Arrival) : List Sealed → Polling SnellStream Bytes → Prop
  | packet {plain wire : Bytes} {rest : List Sealed} {c : Conn} {script' : List Arrival}
      (hout : c.out = []) (hreading : Reading argon2id u rest c script') :
      PacketPoll argon2id u script ((plain, wire) :: rest)
        ⟨⟨c, .tunnel, false⟩, script', .ready (.ok plain)⟩
  | waits {todo packets : List Sealed} {c : Conn} {reply : Reply} {script' : List Arrival}
      (hout : c.out = []) (hreading : Reading argon2id u todo c script')
      (hexpects : Expects reply todo packets)
      (hless : script'.length < script.length ∨ packets = []) :
      PacketPoll argon2id u script packets ⟨⟨c, reply, false⟩, script', .pending⟩

theorem Reply.feedAll_tunnel (out : Bytes) : Reply.tunnel.feedAll out = (.tunnel, out, .ok ()) := by
  unfold Reply.feedAll
  rfl

/-- After the reply. -/
theorem pollPacketFor_tunnel {k : Nat} {packets : List Sealed}
    (h : Reading argon2id u packets c script) (hout : c.out = [])
    (hk : (c.rbuf ++ arrived script).length < k) :
    PacketPoll argon2id u script packets
      (SnellStream.pollPacketFor argon2id k script ⟨c, .tunnel, false⟩) := by
  obtain ⟨k, rfl⟩ : ∃ j, k = j + 1 := ⟨k - 1, by omega⟩
  have hempty : ¬ (Reply.tunnel = .tunnel ∧ c.out ≠ []) := fun hne => hne.2 hout
  rw [SnellStream.pollPacketFor, if_neg Bool.false_ne_true]
  dsimp only
  rw [Reply.feedAll_tunnel]
  dsimp only
  rw [if_neg hempty]
  have hfill := h.fill
  generalize c.pollFill argon2id script = f at hfill
  cases hfill with
  | @chunk plain wire todo c' used script' hscript hdata hne hout' hreading hless =>
    rw [hout, List.nil_append] at hout'
    obtain ⟨k, rfl⟩ : ∃ j, k = j + 1 := ⟨k - 1, by omega⟩
    have hfull : Reply.tunnel = .tunnel ∧ c'.out ≠ [] := ⟨rfl, hout' ▸ hne⟩
    dsimp only
    rw [SnellStream.pollPacketFor, if_neg Bool.false_ne_true]
    dsimp only
    rw [Reply.feedAll_tunnel]
    dsimp only
    rw [if_pos hfull, hout']
    exact .packet rfl ⟨hreading.zero, hreading.endless, hreading.place⟩
  | @waits _ c' used last script' hscript hdata hlast hout' hreading hlanded hall =>
    have hlen := congrArg List.length hscript
    rw [List.length_append, List.length_append] at hlen
    refine .waits (hout'.trans hout) hreading (.inl ⟨rfl, rfl⟩) ?_
    rcases hlast with rfl | ⟨rfl, rfl⟩
    · rw [List.length_singleton] at hlen
      exact .inl (by dsimp only; omega)
    · exact .inr (hall rfl)

theorem pollPacket_poll {todo packets : List Sealed} (h : Reading argon2id u todo c script)
    (hout : c.out = []) (hexpects : Expects reply todo packets) :
    PacketPoll argon2id u script packets
      (SnellStream.pollPacket argon2id script ⟨c, reply, false⟩) := by
  rcases hexpects with ⟨rfl, rfl⟩ | ⟨rfl, wire, rfl⟩
  · exact pollPacketFor_tunnel h hout (Nat.lt_succ_self _)
  · have hempty : ¬ (Reply.pending = .tunnel ∧ c.out ≠ []) := fun hne => nomatch hne.1
    have hfed : Reply.pending.feedAll c.out = (.pending, c.out, .ok ()) := by
      rw [hout]
      rfl
    unfold SnellStream.pollPacket
    rw [SnellStream.pollPacketFor, if_neg Bool.false_ne_true]
    dsimp only
    rw [hfed]
    dsimp only
    rw [if_neg hempty]
    have hfill := h.fill
    generalize c.pollFill argon2id script = f at hfill
    cases hfill with
    | @chunk _ _ _ c' used script' hscript hdata hne hout' hreading hless =>
      rw [hout, List.nil_append] at hout'
      have hlen := congrArg List.length hscript
      rw [List.length_append] at hlen
      dsimp only at hless ⊢
      obtain ⟨k, hk⟩ : ∃ k, (c.rbuf ++ arrived script).length = k + 1 :=
        ⟨_, (Nat.succ_pred_eq_of_pos (Nat.lt_of_le_of_lt (Nat.zero_le _) hless)).symm⟩
      -- The reply is taken out of the chunk, and the poll goes on as after it.
      have hround : SnellStream.pollPacketFor argon2id (k + 1) script' ⟨c', .pending, false⟩ =
          SnellStream.pollPacketFor argon2id (k + 1) script'
            ⟨{ c' with out := [] }, .tunnel, false⟩ := by
        rw [SnellStream.pollPacketFor, SnellStream.pollPacketFor, hout']
        rfl
      have hrest := pollPacketFor_tunnel (c := { c' with out := [] }) (k := k + 1)
        ⟨hreading.zero, hreading.endless, hreading.place⟩ rfl (by rw [← hk]; exact hless)
      rw [hk, hround]
      generalize SnellStream.pollPacketFor argon2id (k + 1) script'
        ⟨{ c' with out := [] }, .tunnel, false⟩ = r at hrest
      cases hrest with
      | packet hout'' hreading'' => exact .packet hout'' hreading''
      | waits hout'' hreading'' hexpects hless' =>
        exact .waits hout'' hreading'' hexpects (hless'.imp_left fun hlt => by omega)
    | @waits _ c' used last script' hscript hdata hlast hout' hreading hlanded hall =>
      have hlen := congrArg List.length hscript
      rw [List.length_append, List.length_append] at hlen
      refine .waits (hout'.trans hout) hreading (.inr ⟨rfl, wire, rfl⟩) ?_
      rcases hlast with rfl | ⟨rfl, rfl⟩
      · rw [List.length_singleton] at hlen
        exact .inl (by dsimp only; omega)
      · cases hall rfl

/-- A call of `read_packet` gives the next packet. -/
theorem readPacketFor_packet {k : Nat} {todo rest : List Sealed} {plain wire : Bytes}
    (h : Reading argon2id u todo c script) (hout : c.out = [])
    (hexpects : Expects reply todo ((plain, wire) :: rest)) (hk : script.length < k) :
    ∃ c' script', SnellStream.readPacketFor argon2id k script ⟨c, reply, false⟩ =
        .ok (plain, script', ⟨c', .tunnel, false⟩) ∧ c'.out = [] ∧
      Reading argon2id u rest c' script' := by
  induction k generalizing c reply todo script with
  | zero => omega
  | succ k ih =>
    have hpoll := pollPacket_poll h hout hexpects
    unfold SnellStream.readPacketFor
    dsimp only
    generalize SnellStream.pollPacket argon2id script ⟨c, reply, false⟩ = r at hpoll
    cases hpoll with
    | packet hout hreading => exact ⟨_, _, rfl, hout, hreading⟩
    | waits hout hreading hexpects hless =>
      rcases hless with hlt | hnil
      · exact ih hreading hout hexpects (by dsimp only; omega)
      · cases hnil

/-- Without packets it waits. -/
theorem readPacketFor_waits {k : Nat} (h : Reading argon2id u todo c script) (hout : c.out = [])
    (hexpects : Expects reply todo []) :
    SnellStream.readPacketFor argon2id k script ⟨c, reply, false⟩ = .error .waiting := by
  induction k generalizing c reply todo script with
  | zero => rfl
  | succ k ih =>
    have hpoll := pollPacket_poll h hout hexpects
    unfold SnellStream.readPacketFor
    dsimp only
    generalize SnellStream.pollPacket argon2id script ⟨c, reply, false⟩ = r at hpoll
    cases hpoll with
    | waits hout hreading hexpects _ => exact ih hreading hout hexpects

/-- The client's packets are the datagrams that were sent. -/
theorem packets_reading {n : Nat} {todo frames : List Sealed} (h : Reading argon2id u todo c script)
    (hout : c.out = []) (hexpects : Expects reply todo frames) (hn : frames.length ≤ n) :
    SnellStream.packets argon2id n script ⟨c, reply, false⟩ = frames.map Prod.fst := by
  induction n generalizing c reply todo frames script with
  | zero =>
    rw [List.eq_nil_of_length_eq_zero (Nat.le_zero.mp hn)]
    rfl
  | succ n ih =>
    unfold SnellStream.packets SnellStream.readPacket
    match frames, hn with
    | [], _ =>
      rw [readPacketFor_waits h hout hexpects]
      rfl
    | (plain, wire) :: rest, hn =>
      obtain ⟨c', script', hread, hout', hreading⟩ :=
        readPacketFor_packet h hout hexpects (Nat.lt_succ_self _)
      rw [hread]
      dsimp only
      rw [ih hreading hout' (.inl ⟨rfl, rfl⟩) (Nat.le_of_succ_le_succ hn)]
      rfl

/-! ## Both ends -/

/-- The connection has nothing that came after the frames it has read. -/
structure Idle (argon2id : Bytes → Bytes → ByteVec 32) (w : Writer) (c : Conn) : Prop where
  inStep : InStep argon2id w c.reader
  rbuf : c.rbuf = []
  out : c.out = []
  zero : c.pendingZero = false

theorem Peers.idle {a b : Conn} (h : Peers argon2id a b) : Idle argon2id a.writer b :=
  ⟨h.inStep.1, h.inStep.2.1, h.inStep.2.2.1, h.inStep.2.2.2⟩

/-- The frames of the packets are to come. -/
theorem Idle.reading {w : Writer} (h : Idle argon2id w c) {calls : List (Draws × Bytes)}
    (hcalls : ∀ call ∈ calls, call.2 ≠ [] ∧ call.2.length ≤ maxLength) :
    ∃ w' frames u, packetAll argon2id w calls = .ok (w', frames) ∧
      frames.map Prod.fst = calls.map Prod.snd ∧
      ∀ script, Endless script → arrived script = wireOf frames →
        Reading argon2id u frames c script := by
  obtain ⟨w', frames, u, hw, hplain, hframes, -⟩ := packetAll_framings h.inStep hcalls
  refine ⟨w', frames, u, hw, hplain, fun script hend hscript =>
    ⟨h.zero, hend, c.reader, [], hframes, .done _, ?_⟩⟩
  rw [h.rbuf, hscript]
  rfl

variable (argon2id) in
/-- The server's reads that give something are the datagrams. -/
def ServerKeeps (caps : Nat → Nat) (script : List Arrival) (c : Conn) (sent : List Bytes) : Prop :=
  ∃ n, ∀ k, n ≤ k → SnellServerUdp.received argon2id caps k script ⟨c, false, []⟩ = sent

variable (argon2id) in
/-- So are the client's packets. -/
def ClientKeeps (reply : Reply) (script : List Arrival) (c : Conn) (sent : List Bytes) : Prop :=
  ∃ n, ∀ k, n ≤ k → SnellStream.packets argon2id k script ⟨c, reply, false⟩ = sent

/-- The boundaries stay on both ends if and only if there is one datagram at most. On the client
    they always stay, also behind the reply. -/
theorem udp_boundaries_iff {w : Writer} {c : Conn} (h : Idle argon2id w c)
    {calls : List (Draws × Bytes)}
    (hcalls : ∀ call ∈ calls, call.2 ≠ [] ∧ call.2.length ≤ maxLength) :
    ∃ w' frames, packetAll argon2id w calls = .ok (w', frames) ∧
      ∀ script caps, Endless script → arrived script = wireOf frames →
        (∀ i, ∀ call ∈ calls, call.2.length ≤ caps i) →
        (ServerKeeps argon2id caps script c (calls.map Prod.snd) ∧
            ClientKeeps argon2id .tunnel script c (calls.map Prod.snd) ↔ calls.length ≤ 1) ∧
          ClientKeeps argon2id .tunnel script c (calls.map Prod.snd) ∧
          ∀ d rest, calls = (d, [cmdTunnel]) :: rest →
            ClientKeeps argon2id .pending script c (rest.map Prod.snd) := by
  obtain ⟨w', frames, u, hw, hplain, hreading⟩ := h.reading hcalls
  refine ⟨w', frames, hw, fun script caps hend hscript hcaps => ?_⟩
  have hread := hreading script hend hscript
  have hlen : frames.length = calls.length := by
    rw [← List.length_map Prod.fst, hplain, List.length_map]
  have hframes : ∀ f ∈ frames, ∃ call ∈ calls, call.2 = f.1 := by
    intro f hf
    have hmem : f.1 ∈ calls.map Prod.snd := hplain ▸ List.mem_map_of_mem hf
    obtain ⟨call, hcall, heq⟩ := List.mem_map.mp hmem
    exact ⟨call, hcall, heq⟩
  have hne : ∀ f ∈ frames, f.1 ≠ [] := by
    intro f hf
    obtain ⟨call, hcall, heq⟩ := hframes f hf
    exact heq ▸ (hcalls call hcall).1
  have hfits : ∀ i, ∀ f ∈ frames, f.1.length ≤ caps i := by
    intro i f hf
    obtain ⟨call, hcall, heq⟩ := hframes f hf
    exact heq ▸ hcaps i call hcall
  have hclient : ClientKeeps argon2id .tunnel script c (calls.map Prod.snd) :=
    ⟨frames.length, fun k hk => (packets_reading hread h.out (.inl ⟨rfl, rfl⟩) hk).trans hplain⟩
  have hserver := received_iff hread h.out hne hfits
  rw [hplain, hlen] at hserver
  refine ⟨⟨fun hboth => hserver.mp hboth.1, fun hle => ⟨hserver.mpr hle, hclient⟩⟩, hclient, ?_⟩
  rintro d rest rfl
  match frames, hplain with
  | (plain, wire) :: frames, hplain =>
    obtain ⟨rfl, hrest⟩ := List.cons.inj hplain
    exact ⟨frames.length, fun k hk =>
      (packets_reading hread h.out (.inr ⟨rfl, wire, rfl⟩) hk).trans hrest⟩

/-- Two datagrams of one byte each. -/
def sampleDatagrams : List (Draws × Bytes) := [(sampleDraws, [1]), (sampleDraws, [2])]

theorem udp_boundaries_iff_sample :
    ∃ w' frames, packetAll (fun _ _ => sampleHash) (V3Conn.new [1] .chacha20Poly1305).writer
        sampleDatagrams = .ok (w', frames) ∧
      ∀ script caps, Endless script → arrived script = wireOf frames →
        (∀ i, ∀ call ∈ sampleDatagrams, call.2.length ≤ caps i) →
        (ServerKeeps (fun _ _ => sampleHash) caps script (V3Conn.new [1] .chacha20Poly1305)
              (sampleDatagrams.map Prod.snd) ∧
            ClientKeeps (fun _ _ => sampleHash) .tunnel script (V3Conn.new [1] .chacha20Poly1305)
              (sampleDatagrams.map Prod.snd) ↔ sampleDatagrams.length ≤ 1) ∧
          ClientKeeps (fun _ _ => sampleHash) .tunnel script (V3Conn.new [1] .chacha20Poly1305)
            (sampleDatagrams.map Prod.snd) ∧
          ∀ d rest, sampleDatagrams = (d, [cmdTunnel]) :: rest →
            ClientKeeps (fun _ _ => sampleHash) .pending script
              (V3Conn.new [1] .chacha20Poly1305) (rest.map Prod.snd) :=
  udp_boundaries_iff (Peers.v3 [1] .chacha20Poly1305).idle (by decide)

/-- The second read gives both datagrams. -/
theorem second_datagram_merged :
    ∃ w' frames, packetAll (fun _ _ => sampleHash) (V3Conn.new [1] .chacha20Poly1305).writer
        sampleDatagrams = .ok (w', frames) ∧
      ∃ n, ∀ k, n ≤ k → SnellServerUdp.received (fun _ _ => sampleHash) (fun _ => 65535) k
        [.data (wireOf frames)] ⟨V3Conn.new [1] .chacha20Poly1305, false, []⟩ =
          [[1], [1, 2]] := by
  have hidle : Idle (fun _ _ => sampleHash) (V3Conn.new [1] .chacha20Poly1305).writer
      (V3Conn.new [1] .chacha20Poly1305) := (Peers.v3 [1] .chacha20Poly1305).idle
  obtain ⟨w', frames, u, hw, hplain, hframes, -⟩ :=
    packetAll_framings hidle.inStep (by decide : ∀ call ∈ sampleDatagrams, _)
  have hwire : wireOf frames ≠ [] := by
    cases hframes with
    | nil => cases hplain
    | cons _ hframe _ => exact List.append_ne_nil_of_left_ne_nil hframe.ne_nil _
  have hend : Endless [.data (wireOf frames)] := by
    intro hmem
    have heq := List.mem_singleton.mp hmem
    rw [Arrival.data.injEq] at heq
    exact hwire heq.symm
  have hread : Reading (fun _ _ => sampleHash) u frames (V3Conn.new [1] .chacha20Poly1305)
      [.data (wireOf frames)] := by
    refine ⟨rfl, hend, _, [], hframes, .done _, ?_⟩
    rw [arrived_cons, arrived_nil, List.append_nil]
    rfl
  refine ⟨w', frames, hw, frames.length + 1, fun k hk => ?_⟩
  match frames, hplain, hread, hk with
  | [(p₁, w₁), (p₂, w₂)], hplain, hread, hk =>
    obtain ⟨rfl, rfl⟩ : p₁ = [1] ∧ p₂ = [2] := by
      cases hplain
      exact ⟨rfl, rfl⟩
    have hfits : ([] ++ plainOf [([1], w₁), ([2], w₂)]).length ≤ 65535 := by
      rw [plainOf_cons, plainOf_cons, plainOf_nil]
      decide
    have hne : ∀ f ∈ [(([1] : Bytes), w₁), ([2], w₂)], f.1 ≠ [] := by
      intro f hf
      rcases List.mem_pair.mp hf with rfl | rfl <;> exact List.cons_ne_nil _ _
    exact outputs_heaps (s := ⟨V3Conn.new [1] .chacha20Poly1305, false, []⟩)
      (fun _ => hfits) hne hread rfl rfl hk

end RustCrash.Snell
