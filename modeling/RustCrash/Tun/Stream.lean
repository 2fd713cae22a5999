import RustCrash.Tun.Smoltcp

/-
  The bridge between a TCP socket of the stack and a byte stream of the relay: `TunStream` and
  the body of `service_conns` of `tun/netstack.rs`.

  The stream's calls and a pass of the stack each hold the queues' mutex from beginning to end,
  so they are functions of the queues. A waker is a flag here: it decides when a task runs, and
  the runs below take the calls in any order.
-/

namespace RustCrash.Tun

open Lib

/-- Per-direction cap on a bridged TCP stream. -/
def streamQueueMax : Nat := 128 * 1024

/-- Chunk size for moving bytes between a socket and a stream. -/
def pumpChunk : Nat := 32 * 1024

/-- Queues and wakers of one bridged TCP connection. -/
structure StreamBufs where
  /-- stack -> proxy. -/
  toProxy : Bytes
  /-- proxy -> stack. -/
  toStack : Bytes
  /-- The peer finished sending and the socket's rx is drained. -/
  readEof : Bool
  /-- The proxy half-closed; FIN once `toStack` drains. -/
  writeClosed : Bool
  /-- The proxy dropped the stream. -/
  aborted : Bool
  readWaker : Bool
  writeWaker : Bool

def StreamBufs.new : StreamBufs := ⟨[], [], false, false, false, false, false⟩

inductive Poll (α : Type) where
  | pending
  | ready (a : α)

namespace Poll

/-- The bytes a read fills in. -/
def filled : Poll Bytes → Bytes
  | ready bs => bs
  | pending => []

/-- The bytes of `buf` that a write accepts. -/
def accepted (buf : Bytes) : Poll (Except String Nat) → Bytes
  | ready (.ok n) => buf.take n
  | _ => []

end Poll

/-! ## The stream's half -/

namespace StreamBufs

/-- Read into a buffer with `remaining` bytes of room. A ready read that fills nothing is the
    end of the stream. -/
def pollRead (g : StreamBufs) (remaining : Nat) : StreamBufs × Poll Bytes :=
  if g.toProxy ≠ [] then
    let n := min g.toProxy.length remaining
    ({ g with toProxy := g.toProxy.drop n }, .ready (g.toProxy.take n))
  else if g.readEof then (g, .ready [])
  else ({ g with readWaker := true }, .pending)

/-- How many bytes were accepted, or the text of a `BrokenPipe`. -/
def pollWrite (g : StreamBufs) (buf : Bytes) : StreamBufs × Poll (Except String Nat) :=
  if g.aborted || g.writeClosed then (g, .ready (.error "tun: stream is closed"))
  else
    let space := streamQueueMax - g.toStack.length
    if space = 0 then ({ g with writeWaker := true }, .pending)
    else
      let n := min space buf.length
      ({ g with toStack := g.toStack ++ buf.take n }, .ready (.ok n))

/-- The FIN goes out once the queued bytes have been sent. -/
def pollShutdown (g : StreamBufs) : StreamBufs := { g with writeClosed := true }

/-- `drop` of the stream. -/
def dropped (g : StreamBufs) : StreamBufs :=
  { g with aborted := true, readEof := true, writeClosed := true }

/-- A read takes off the front of the queue. -/
theorem pollRead_spec (g : StreamBufs) (remaining : Nat) :
    ∃ toProxy readWaker, (g.pollRead remaining).1 =
        { g with toProxy := toProxy, readWaker := readWaker } ∧
      (g.pollRead remaining).2.filled ++ toProxy = g.toProxy := by
  unfold pollRead
  split_ifs with hne heof
  · refine ⟨_, _, rfl, ?_⟩
    show g.toProxy.take _ ++ g.toProxy.drop _ = g.toProxy
    rw [List.take_append_drop]
  · exact ⟨g.toProxy, g.readWaker, rfl, rfl⟩
  · exact ⟨g.toProxy, true, rfl, rfl⟩

/-- A write appends what it accepts, and accepts nothing on a closed stream. -/
theorem pollWrite_spec (g : StreamBufs) (buf : Bytes) :
    ∃ writeWaker, (g.pollWrite buf).1 = { g with
        toStack := g.toStack ++ (g.pollWrite buf).2.accepted buf, writeWaker := writeWaker } ∧
      (g.writeClosed = true → (g.pollWrite buf).2.accepted buf = []) := by
  unfold pollWrite
  by_cases hclosed : (g.aborted || g.writeClosed) = true
  · rw [if_pos hclosed]
    refine ⟨g.writeWaker, ?_, fun _ => rfl⟩
    show g = { g with toStack := g.toStack ++ [], writeWaker := g.writeWaker }
    rw [List.append_nil]
  · rw [if_neg hclosed]
    have hopen : g.writeClosed = false := by
      rw [Bool.or_eq_true, not_or] at hclosed
      exact Bool.eq_false_of_not_eq_true hclosed.2
    dsimp only
    rw [hopen]
    split_ifs
    · refine ⟨true, ?_, nofun⟩
      show _ = { g with toStack := g.toStack ++ [], writeWaker := true, writeClosed := false }
      rw [List.append_nil, ← hopen]
    · refine ⟨g.writeWaker, ?_, nofun⟩
      show _ = { g with toStack := _, writeWaker := _, writeClosed := false }
      rw [← hopen]
      rfl

end StreamBufs

/-! ## The stack's half -/

/-- A bridged connection: its socket and its queues. -/
structure Conn (Sock : Type) where
  sock : Sock
  bufs : StreamBufs
  /-- FIN already pushed to the stack. -/
  finSent : Bool

section

variable {Sock Net : Type} (a : TcpApi Sock Net)

/-- The loop from the socket to the proxy; each round takes at least one byte, so the bytes in
    the receive buffer bound the rounds. -/
def pumpIn : Nat → Sock → Bytes → Sock × Bytes
  | 0, sock, toProxy => (sock, toProxy)
  | fuel + 1, sock, toProxy =>
    if toProxy.length < streamQueueMax && a.canRecv sock then
      match a.recvSlice sock pumpChunk with
      | some (bs, sock) => pumpIn fuel sock (toProxy ++ bs)
      | none => (sock, toProxy)
    else (sock, toProxy)

/-- The loop from the proxy to the socket; each round sends at least one byte. -/
def pumpOut : Nat → Sock → Bytes → Sock × Bytes
  | 0, sock, toStack => (sock, toStack)
  | fuel + 1, sock, toStack =>
    if toStack ≠ [] && a.canSend sock then
      match a.sendSlice sock toStack with
      | some (n, sock) => pumpOut fuel sock (toStack.drop n)
      | none => (sock, toStack)
    else (sock, toStack)

/-- The body of the loop of `service_conns`, and whether the connection is gone: then its
    socket is removed. -/
def serviceConn (c : Conn Sock) : Conn Sock × Bool :=
  let (sock, toProxy) := pumpIn a (a.recvQueue c.sock) c.sock c.bufs.toProxy
  let readEof := c.bufs.readEof || (!a.mayRecv sock && a.recvQueue sock == 0)
  let (sock, toStack) := pumpOut a c.bufs.toStack.length sock c.bufs.toStack
  let fin := c.bufs.writeClosed && toStack.isEmpty && !c.finSent
  let sock := if fin then a.close sock else sock
  let sock := if c.bufs.aborted then a.abort sock else sock
  let gone := decide (a.state sock = .closed)
  let readEof := readEof || gone
  let wakeRead := !toProxy.isEmpty || readEof
  let wakeWrite := gone || decide (toStack.length < streamQueueMax)
  ({ sock := sock
     finSent := c.finSent || fin
     bufs := { c.bufs with
       toProxy := toProxy
       toStack := toStack
       readEof := readEof
       readWaker := c.bufs.readWaker && !wakeRead
       writeWaker := c.bufs.writeWaker && !wakeWrite } }, gone)

end

/-! ## What the loops do -/

section

variable {Sock Net : Type} {a : TcpApi Sock Net}

/-- All of `rx` bytes go into a queue that holds `queued` before the loop ends: the queue is
    below the cap when the last chunk is taken. -/
def Fits (queued rx : Nat) : Prop :=
  rx = 0 ∨ queued + pumpChunk * ((rx - 1) / pumpChunk) < streamQueueMax

theorem fits_chunk {queued rx : Nat} (hq : queued < streamQueueMax) (hrx : rx ≠ 0) :
    Fits (queued + min pumpChunk rx) (rx - pumpChunk) ↔ Fits queued rx := by
  unfold Fits
  rcases Nat.lt_or_ge pumpChunk rx with h | h
  · have hdiv : (rx - 1) / pumpChunk = (rx - pumpChunk - 1) / pumpChunk + 1 := by
      have hpos : 0 < pumpChunk := by decide
      rw [show rx - 1 = rx - pumpChunk - 1 + pumpChunk by omega, Nat.add_div_right _ hpos]
    rw [hdiv, Nat.mul_add, Nat.mul_one, Nat.min_eq_left h.le]
    omega
  · have hdiv : (rx - 1) / pumpChunk = 0 := Nat.div_eq_of_lt (by omega)
    rw [hdiv]
    omega

theorem not_fits_full {queued rx : Nat} (hq : streamQueueMax ≤ queued) :
    Fits queued rx ↔ rx = 0 := by
  unfold Fits
  omega

/-- The loop moves the front of the receive buffer to the back of the queue; it empties the
    buffer exactly if that fits. -/
theorem pumpIn_spec (hl : a.Lawful) (fuel : Nat) (sock : Sock) (toProxy : Bytes)
    (hfuel : (a.rxBuffer sock).length ≤ fuel) :
    ∃ moved, (pumpIn a fuel sock toProxy).2 = toProxy ++ moved ∧
      a.rxBuffer sock = moved ++ a.rxBuffer (pumpIn a fuel sock toProxy).1 ∧
      a.state (pumpIn a fuel sock toProxy).1 = a.state sock ∧
      a.txRoom (pumpIn a fuel sock toProxy).1 = a.txRoom sock ∧
      (toProxy.length ≤ streamQueueMax + pumpChunk →
        (toProxy ++ moved).length ≤ streamQueueMax + pumpChunk) ∧
      (a.rxBuffer (pumpIn a fuel sock toProxy).1 = [] ↔
        Fits toProxy.length (a.rxBuffer sock).length) := by
  induction fuel generalizing sock toProxy with
  | zero =>
    have hnil : a.rxBuffer sock = [] := List.eq_nil_of_length_eq_zero (by omega)
    refine ⟨[], ?_, ?_, rfl, rfl, ?_, ?_⟩
    · simp [pumpIn]
    · simp [pumpIn]
    · simp
    · simp [pumpIn, hnil, Fits]
  | succ fuel ih =>
    unfold pumpIn
    by_cases hgo : (toProxy.length < streamQueueMax && a.canRecv sock) = true
    · rw [if_pos hgo]
      rw [Bool.and_eq_true, decide_eq_true_eq, hl.can_recv] at hgo
      obtain ⟨hroom, hne⟩ := hgo
      obtain ⟨sock', hrecv, hrx, hstate, htx⟩ := hl.recv_slice sock pumpChunk hne
      rw [hrecv]
      dsimp only
      have hlen : (a.rxBuffer sock).length ≠ 0 := by simpa using hne
      have hdrop : (a.rxBuffer sock').length = (a.rxBuffer sock).length - pumpChunk := by
        rw [hrx, List.length_drop]
      have hchunk : 0 < pumpChunk := by decide
      obtain ⟨moved, hq, hsplit, hst, htr, hbound, hempty⟩ :=
        ih sock' (toProxy ++ (a.rxBuffer sock).take pumpChunk) (by omega)
      refine ⟨(a.rxBuffer sock).take pumpChunk ++ moved, ?_, ?_, hst.trans hstate,
        htr.trans htx, ?_, ?_⟩
      · rw [hq, List.append_assoc]
      · rw [List.append_assoc, ← hsplit, hrx, List.take_append_drop]
      · intro _
        rw [← List.append_assoc]
        refine hbound ?_
        rw [List.length_append, List.length_take]
        omega
      · rw [hempty, hdrop, List.length_append, List.length_take]
        exact fits_chunk hroom hlen
    · rw [if_neg hgo]
      refine ⟨[], by simp, by simp, rfl, rfl, by simp, ?_⟩
      rw [Bool.and_eq_true, decide_eq_true_eq, hl.can_recv, not_and_or, not_not] at hgo
      rcases hgo with hfull | hnil
      · rw [not_fits_full (by omega), List.length_eq_zero_iff]
      · simp [hnil, Fits]

/-- The loop hands over as much as the socket has room for. -/
theorem pumpOut_spec (hl : a.Lawful) (fuel : Nat) (sock : Sock) (toStack : Bytes)
    (hfuel : toStack.length ≤ fuel) :
    (pumpOut a fuel sock toStack).2 = toStack.drop (a.sendRoom sock) ∧
      a.state (pumpOut a fuel sock toStack).1 = a.state sock ∧
      a.rxBuffer (pumpOut a fuel sock toStack).1 = a.rxBuffer sock := by
  induction fuel generalizing sock toStack with
  | zero =>
    have hnil : toStack = [] := List.eq_nil_of_length_eq_zero (by omega)
    simp [pumpOut, hnil]
  | succ fuel ih =>
    unfold pumpOut
    by_cases hgo : (decide (toStack ≠ []) && a.canSend sock) = true
    · rw [if_pos hgo]
      rw [Bool.and_eq_true, decide_eq_true_eq] at hgo
      obtain ⟨hne, hsend⟩ := hgo
      obtain ⟨sock', hslice, htx, hstate, hrx⟩ := hl.send_slice sock toStack hsend
      obtain ⟨hsends, hroom⟩ := (hl.can_send sock).mp hsend
      have hlen : 0 < toStack.length := List.length_pos_iff.mpr hne
      rw [hslice]
      dsimp only
      obtain ⟨hq, hst, hr⟩ := ih sock' (toStack.drop (min (a.txRoom sock) toStack.length)) (by
        rw [List.length_drop]
        omega)
      refine ⟨?_, hst.trans hstate, hr.trans hrx⟩
      rw [hq, List.drop_drop]
      unfold TcpApi.sendRoom
      rw [hstate, htx, hsends, if_pos rfl, if_pos rfl]
      rcases Nat.lt_or_ge (a.txRoom sock) toStack.length with h | h
      · rw [Nat.min_eq_left h.le, Nat.sub_eq_zero_of_le h.le, Nat.add_zero]
      · rw [List.drop_eq_nil_of_le (by omega), List.drop_eq_nil_of_le h]
    · rw [if_neg hgo]
      refine ⟨?_, rfl, rfl⟩
      rw [Bool.and_eq_true, decide_eq_true_eq, hl.can_send, not_and_or, not_not] at hgo
      unfold TcpApi.sendRoom
      rcases hgo with hnil | hno
      · simp [hnil]
      · split_ifs with hs
        · rw [show a.txRoom sock = 0 by simpa [hs] using hno, List.drop_zero]
        · rw [List.drop_zero]

end

end RustCrash.Tun
