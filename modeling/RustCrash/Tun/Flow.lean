import RustCrash.Lib.Machine
import RustCrash.Tun.Stream

/-
  Runs of one bridged connection.

  The stack polls its socket and services the connection, the relay reads, writes, shuts down
  and drops the stream, in any order. Beside the state stand the bytes that went through so
  far: `received` by the socket, `returned` by the reads, `accepted` by the writes and `handed`
  to the socket. `serviced` says once what a pass of the stack does.
-/

namespace RustCrash.Tun

open Lib

/-! ## One pass -/

section

variable {Sock Net : Type} {a : TcpApi Sock Net}

/-- What a pass over the connection `c` leaves behind. -/
structure Serviced (a : TcpApi Sock Net) (c c' : Conn Sock) (gone : Bool) : Prop where
  writeClosed : c'.bufs.writeClosed = c.bufs.writeClosed
  aborted : c'.bufs.aborted = c.bufs.aborted
  toStack : c'.bufs.toStack = c.bufs.toStack.drop (a.sendRoom c.sock)
  finSent : c'.finSent = (c.finSent || (c.bufs.writeClosed && c'.bufs.toStack.isEmpty))
  removed : gone = decide (a.state c'.sock = .closed)
  readEof : c'.bufs.readEof = true ↔ c.bufs.readEof = true ∨ gone = true ∨
    (a.state c.sock).receives = false ∧
      Fits c.bufs.toProxy.length (a.rxBuffer c.sock).length
  state : c.bufs.aborted = false → a.state c'.sock =
    if c.bufs.writeClosed && c'.bufs.toStack.isEmpty && !c.finSent then
      (a.state c.sock).afterClose else a.state c.sock
  stateAborted : c.bufs.aborted = true → a.state c'.sock = .closed
  inbound : ∃ moved rest, c'.bufs.toProxy = c.bufs.toProxy ++ moved ∧
    a.rxBuffer c.sock = moved ++ rest ∧
    (c.bufs.toProxy.length ≤ streamQueueMax + pumpChunk →
      (c.bufs.toProxy ++ moved).length ≤ streamQueueMax + pumpChunk) ∧
    (rest = [] ↔ Fits c.bufs.toProxy.length (a.rxBuffer c.sock).length) ∧
    (c.bufs.aborted = false → a.rxBuffer c'.sock = rest)

theorem serviced (hl : a.Lawful) (c : Conn Sock) :
    Serviced a c (serviceConn a c).1 (serviceConn a c).2 := by
  obtain ⟨moved, hproxy, hsplit, hstate, htx, hbound, hempty⟩ :=
    pumpIn_spec hl (a.recvQueue c.sock) c.sock c.bufs.toProxy (hl.recv_queue c.sock).ge
  unfold serviceConn
  dsimp only
  generalize pumpIn a (a.recvQueue c.sock) c.sock c.bufs.toProxy = inn at *
  obtain ⟨hstack, hstate', hrx⟩ :=
    pumpOut_spec hl c.bufs.toStack.length inn.1 c.bufs.toStack (le_refl _)
  generalize pumpOut a c.bufs.toStack.length inn.1 c.bufs.toStack = out at *
  have hroom : a.sendRoom inn.1 = a.sendRoom c.sock := by
    unfold TcpApi.sendRoom
    rw [hstate, htx]
  have hidle : (!a.mayRecv inn.1 && a.recvQueue inn.1 == 0) = true ↔
      (a.state c.sock).receives = false ∧
        Fits c.bufs.toProxy.length (a.rxBuffer c.sock).length := by
    rw [← hempty, Bool.and_eq_true, beq_iff_eq, hl.recv_queue, List.length_eq_zero_iff,
      Bool.not_eq_true', ← Bool.not_eq_true, hl.may_recv, hstate]
    constructor
    · intro ⟨hno, hnil⟩
      exact ⟨by simpa using fun h => hno (Or.inl h), hnil⟩
    · intro ⟨hno, hnil⟩
      refine ⟨?_, hnil⟩
      intro h
      rcases h with h | h
      · rw [hno] at h
        cases h
      · exact h hnil
  refine
    { writeClosed := rfl
      aborted := rfl
      toStack := by rw [hstack, hroom]
      finSent := ?_
      removed := rfl
      readEof := ?_
      state := ?_
      stateAborted := ?_
      inbound := ⟨moved, a.rxBuffer inn.1, hproxy, hsplit, hbound, hempty, ?_⟩ }
  · dsimp only
    cases c.finSent <;> simp
  · dsimp only
    rw [Bool.or_eq_true, Bool.or_eq_true, hidle]
    tauto
  · intro hab
    dsimp only
    rw [hab, if_neg Bool.false_ne_true]
    split_ifs
    · rw [hl.state_close, hstate', hstate]
    · rw [hstate', hstate]
  · intro hab
    dsimp only
    rw [hab, if_pos rfl]
    exact hl.state_abort _
  · intro hab
    dsimp only
    rw [hab, if_neg Bool.false_ne_true]
    split_ifs
    · rw [hl.rxBuffer_close, hrx]
    · exact hrx

/-- The pass closed the socket's transmit half, or left its state alone. -/
theorem Serviced.state_or {c c' : Conn Sock} {gone : Bool} (h : Serviced a c c' gone)
    (hkept : c.bufs.aborted = false) : a.state c'.sock = a.state c.sock ∨
      c'.finSent = true ∧ a.state c'.sock = (a.state c.sock).afterClose := by
  have hst := h.state hkept
  split_ifs at hst with hfin
  · refine Or.inr ⟨?_, hst⟩
    rw [Bool.and_eq_true] at hfin
    rw [h.finSent, hfin.1, Bool.or_true]
  · exact Or.inl hst

end

/-! ## Runs -/

/-- A connection in the hands of the stack and the relay, and what went through it. -/
structure Flow (Sock : Type) where
  conn : Conn Sock
  /-- The stack removed the connection. -/
  gone : Bool
  /-- The relay dropped the stream. -/
  dropped : Bool
  /-- The relay shut the stream down. -/
  shut : Bool
  /-- The socket reached the peer's FIN. -/
  fin : Bool
  received : Bytes
  returned : Bytes
  accepted : Bytes
  handed : Bytes

inductive Event (Net : Type) where
  | poll (net : Net)
  | pass
  | read (remaining : Nat)
  | write (buf : Bytes)
  | shutdown
  | drop

namespace Flow

section

variable {Sock Net : Type} (a : TcpApi Sock Net)

/-- A connection as `convert_listeners` makes it, with what came along with the handshake. -/
def start (sock : Sock) : Flow Sock :=
  { conn := ⟨sock, .new, false⟩, gone := false, dropped := false, shut := false, fin := false,
    received := a.rxBuffer sock, returned := [], accepted := [], handed := [] }

/-- `iface.poll`. -/
def poll (f : Flow Sock) (net : Net) : Flow Sock :=
  { f with
    conn := { f.conn with sock := a.poll f.conn.sock net }
    fin := f.fin || a.finTaken f.conn.sock net
    received := f.received ++ a.taken f.conn.sock net }

/-- The connection's turn in `service_conns`. -/
def pass (f : Flow Sock) : Flow Sock :=
  let r := serviceConn a f.conn
  { f with
    conn := r.1
    gone := r.2
    handed := f.handed ++
      f.conn.bufs.toStack.take (f.conn.bufs.toStack.length - r.1.bufs.toStack.length) }

def read (f : Flow Sock) (remaining : Nat) : Flow Sock :=
  let r := f.conn.bufs.pollRead remaining
  { f with conn := { f.conn with bufs := r.1 }, returned := f.returned ++ r.2.filled }

def write (f : Flow Sock) (buf : Bytes) : Flow Sock :=
  let r := f.conn.bufs.pollWrite buf
  { f with conn := { f.conn with bufs := r.1 }, accepted := f.accepted ++ r.2.accepted buf }

def shutdown (f : Flow Sock) : Flow Sock :=
  { f with conn := { f.conn with bufs := f.conn.bufs.pollShutdown }, shut := true }

def drop (f : Flow Sock) : Flow Sock :=
  { f with conn := { f.conn with bufs := f.conn.bufs.dropped }, dropped := true }

/-- A removed connection is not polled or serviced any more, and a dropped stream has no calls. -/
def step (f : Flow Sock) : Event Net → Flow Sock
  | .poll net => if f.gone then f else f.poll a net
  | .pass => if f.gone then f else f.pass a
  | .read remaining => if f.dropped then f else f.read remaining
  | .write buf => if f.dropped then f else f.write buf
  | .shutdown => if f.dropped then f else f.shutdown
  | .drop => if f.dropped then f else f.drop

end

end Flow

end RustCrash.Tun
