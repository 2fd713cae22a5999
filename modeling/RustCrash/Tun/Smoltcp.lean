import RustCrash.Lib.Bytes

/-
  A TCP socket of the userspace stack, as far as the TUN inbound uses it.

  smoltcp is a dependency: its calls are parameters here (`TcpApi`), and `Lawful` says what its
  documentation says of them. Next to the calls stand the quantities the documentation speaks
  of: the receive buffer, the room in the send buffer, and what one poll of the interface
  takes off the wire for the socket.
-/

namespace RustCrash.Tun

open Lib

/-- The states of a TCP socket. -/
inductive TcpState where
  | closed | listen | synSent | synReceived | established | finWait1 | finWait2 | closeWait
  | closing | lastAck | timeWait
  deriving DecidableEq, Repr

namespace TcpState

/-- The receive half is open. -/
def receives : TcpState → Bool
  | established | finWait1 | finWait2 => true
  | _ => false

/-- The transmit half is open. -/
def sends : TcpState → Bool
  | established | closeWait => true
  | _ => false

/-- The receive half is over. -/
def ended : TcpState → Bool
  | closeWait | closing | lastAck | timeWait | closed => true
  | _ => false

/-- The state after a local `close`. -/
def afterClose : TcpState → TcpState
  | listen | synSent => closed
  | synReceived | established => finWait1
  | closeWait => lastAck
  | s => s

/-- The state after the peer's FIN. -/
def afterFin : TcpState → TcpState
  | established => closeWait
  | finWait1 => closing
  | finWait2 => timeWait
  | s => s

/-- The state after the peer acknowledged our FIN. -/
def afterFinAcked : TcpState → TcpState
  | finWait1 => finWait2
  | closing => timeWait
  | lastAck => closed
  | s => s

attribute [local simp] receives ended afterClose afterFin afterFinAcked

variable {s : TcpState}

/-- A socket whose handshake is done is not closed by `close`. -/
theorem afterClose_closed (h : s.receives = true ∨ s.ended = true) :
    s.afterClose = closed ↔ s = closed := by
  cases s <;> simp [afterClose, receives, ended] at h ⊢

theorem receives_afterClose (h : s.receives = true) : s.afterClose.receives = true := by
  cases s <;> simp [afterClose, receives] at h ⊢

theorem ended_afterClose (h : s.ended = true) : s.afterClose.ended = true := by
  cases s <;> simp [afterClose, ended] at h ⊢

theorem not_receives_of_ended (h : s.ended = true) : s.receives = false := by
  cases s <;> simp [ended, receives] at h ⊢

theorem live_afterFin (h : s.receives = true) :
    s.afterFin.receives = true ∨ s.afterFin.ended = true := by
  cases s <;> simp [afterFin, receives, ended] at h ⊢

theorem live_afterFinAcked (h : s.receives = true) :
    s.afterFinAcked.receives = true ∨ s.afterFinAcked.ended = true := by
  cases s <;> simp [afterFinAcked, receives, ended] at h ⊢

theorem ended_afterFin (h : s.ended = true) : s.afterFin.ended = true := by
  cases s <;> simp [afterFin, ended] at h ⊢

theorem ended_afterFinAcked (h : s.ended = true) : s.afterFinAcked.ended = true := by
  cases s <;> simp [afterFinAcked, ended] at h ⊢

end TcpState

/-- The calls on a socket, and `poll` of the interface with what the network brings. -/
structure TcpApi (Sock Net : Type) where
  state : Sock → TcpState
  canRecv : Sock → Bool
  mayRecv : Sock → Bool
  recvQueue : Sock → Nat
  /-- At most so many bytes off the receive buffer; `none` is an error. -/
  recvSlice : Sock → Nat → Option (Bytes × Sock)
  canSend : Sock → Bool
  /-- How many of the bytes went into the send buffer; `none` is an error. -/
  sendSlice : Sock → Bytes → Option (Nat × Sock)
  close : Sock → Sock
  abort : Sock → Sock
  poll : Sock → Net → Sock
  rxBuffer : Sock → Bytes
  txRoom : Sock → Nat
  /-- The bytes a poll puts into the receive buffer. -/
  taken : Sock → Net → Bytes
  /-- A poll reaches the end of the peer's stream, its FIN. -/
  finTaken : Sock → Net → Bool

namespace TcpApi

variable {Sock Net : Type}

structure Lawful (a : TcpApi Sock Net) : Prop where
  can_recv : ∀ s, a.canRecv s = true ↔ a.rxBuffer s ≠ []
  may_recv : ∀ s, a.mayRecv s = true ↔ (a.state s).receives = true ∨ a.rxBuffer s ≠ []
  recv_queue : ∀ s, a.recvQueue s = (a.rxBuffer s).length
  recv_slice : ∀ s n, a.rxBuffer s ≠ [] → ∃ s',
    a.recvSlice s n = some ((a.rxBuffer s).take n, s') ∧ a.rxBuffer s' = (a.rxBuffer s).drop n ∧
      a.state s' = a.state s ∧ a.txRoom s' = a.txRoom s
  can_send : ∀ s, a.canSend s = true ↔ (a.state s).sends = true ∧ 0 < a.txRoom s
  send_slice : ∀ s bs, a.canSend s = true → ∃ s',
    a.sendSlice s bs = some (min (a.txRoom s) bs.length, s') ∧
      a.txRoom s' = a.txRoom s - bs.length ∧ a.state s' = a.state s ∧
      a.rxBuffer s' = a.rxBuffer s
  state_close : ∀ s, a.state (a.close s) = (a.state s).afterClose
  rxBuffer_close : ∀ s, a.rxBuffer (a.close s) = a.rxBuffer s
  state_abort : ∀ s, a.state (a.abort s) = .closed
  poll_receives : ∀ s n, (a.state s).receives = true →
    (a.state (a.poll s n)).receives = true ∨ (a.state (a.poll s n)).ended = true
  poll_ended : ∀ s n, (a.state s).ended = true →
    (a.state (a.poll s n)).ended = true ∧ a.taken s n = []
  /-- A FIN is taken while the receive half is open. -/
  fin_receives : ∀ s n, a.finTaken s n = true → (a.state s).receives = true
  /-- A poll appends to the receive buffer, or closes the socket and clears it, as the end of
      TIME-WAIT does. -/
  poll_rxBuffer : ∀ s n, a.rxBuffer (a.poll s n) = a.rxBuffer s ++ a.taken s n ∨
    a.state (a.poll s n) = .closed ∧ a.rxBuffer (a.poll s n) = []

/-- The room for bytes to send. -/
def sendRoom (a : TcpApi Sock Net) (s : Sock) : Nat := if (a.state s).sends then a.txRoom s else 0

end TcpApi

/-! ## A socket

A socket as it is right after the handshake, with its states, its receive buffer and the room in
its send buffer, and what the network can bring. -/

/-- Read and write buffer per TCP socket. -/
def tcpRxBytes : Nat := 64 * 1024

def tcpTxBytes : Nat := 64 * 1024

structure SampleSock where
  state : TcpState
  rx : Bytes
  room : Nat

inductive SampleNet where
  | data (bs : Bytes)
  | fin
  | acked (n : Nat)
  | finAcked
  | reset
  /-- The end of TIME-WAIT. -/
  | expired

namespace SampleSock

def fresh : SampleSock := ⟨.established, [], tcpTxBytes⟩

def fits (s : SampleSock) (bs : Bytes) : Bytes :=
  if s.state.receives then bs.take (tcpRxBytes - s.rx.length) else []

def poll (s : SampleSock) : SampleNet → SampleSock
  | .data bs => { s with rx := s.rx ++ s.fits bs }
  | .fin => { s with state := s.state.afterFin }
  | .acked n => { s with room := min tcpTxBytes (s.room + n) }
  | .finAcked => { s with state := s.state.afterFinAcked }
  | .reset => { s with state := .closed }
  | .expired => if s.state = .timeWait then { s with state := .closed, rx := [] } else s

end SampleSock

def sampleApi : TcpApi SampleSock SampleNet where
  state s := s.state
  canRecv s := !s.rx.isEmpty
  mayRecv s := s.state.receives || !s.rx.isEmpty
  recvQueue s := s.rx.length
  recvSlice s n := some (s.rx.take n, { s with rx := s.rx.drop n })
  canSend s := s.state.sends && decide (0 < s.room)
  sendSlice s bs := some (min s.room bs.length, { s with room := s.room - bs.length })
  close s := { s with state := s.state.afterClose }
  abort s := { s with state := .closed }
  poll := SampleSock.poll
  rxBuffer s := s.rx
  txRoom s := s.room
  taken s
    | .data bs => s.fits bs
    | _ => []
  finTaken s
    | .fin => s.state.receives
    | _ => false

theorem sampleApi_lawful : sampleApi.Lawful where
  can_recv s := by simp [sampleApi]
  may_recv s := by simp [sampleApi]
  recv_queue s := rfl
  recv_slice s n _ := ⟨{ s with rx := s.rx.drop n }, rfl, rfl, rfl, rfl⟩
  can_send s := by simp [sampleApi]
  send_slice s bs _ := ⟨{ s with room := s.room - bs.length }, rfl, rfl, rfl, rfl⟩
  state_close s := rfl
  rxBuffer_close s := rfl
  state_abort s := rfl
  poll_receives s n h := by
    cases n with
    | data bs => exact Or.inl h
    | fin => exact TcpState.live_afterFin h
    | acked n => exact Or.inl h
    | finAcked => exact TcpState.live_afterFinAcked h
    | reset => exact Or.inr rfl
    | expired =>
      show (s.poll .expired).state.receives = true ∨ (s.poll .expired).state.ended = true
      unfold SampleSock.poll
      dsimp only
      split_ifs
      · exact Or.inr rfl
      · exact Or.inl h
  poll_ended s n h := by
    cases n with
    | data bs =>
      exact ⟨h, if_neg fun hrec => absurd (TcpState.not_receives_of_ended h) (by
        rw [show (sampleApi.state s).receives = true from hrec]
        decide)⟩
    | fin => exact ⟨TcpState.ended_afterFin h, rfl⟩
    | acked n => exact ⟨h, rfl⟩
    | finAcked => exact ⟨TcpState.ended_afterFinAcked h, rfl⟩
    | reset => exact ⟨rfl, rfl⟩
    | expired =>
      refine ⟨?_, rfl⟩
      show (s.poll .expired).state.ended = true
      unfold SampleSock.poll
      dsimp only
      split_ifs
      · rfl
      · exact h
  fin_receives s n h := by
    cases n with
    | fin => exact h
    | _ => cases h
  poll_rxBuffer s n := by
    cases n with
    | data bs => exact Or.inl rfl
    | fin => exact Or.inl (List.append_nil _).symm
    | acked n => exact Or.inl (List.append_nil _).symm
    | finAcked => exact Or.inl (List.append_nil _).symm
    | reset => exact Or.inl (List.append_nil _).symm
    | expired =>
      show (s.poll .expired).rx = s.rx ++ [] ∨
        (s.poll .expired).state = .closed ∧ (s.poll .expired).rx = []
      unfold SampleSock.poll
      dsimp only
      split_ifs
      · exact Or.inr ⟨rfl, rfl⟩
      · exact Or.inl (List.append_nil _).symm

end RustCrash.Tun
