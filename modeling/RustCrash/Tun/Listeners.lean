import RustCrash.Lib.Machine
import RustCrash.Tun.ClassifySafe
import RustCrash.Tun.Smoltcp

/-
  What the TUN inbound does with a packet before the stack sees it (`stage` of `tun/netstack.rs`),
  with the policy that gives a SYN its listening socket. Does every SYN of a batch find one?

  A TCP socket is what the policy sees of it. smoltcp refuses to listen on, or bind, port 0.
  What goes to the resolver, to the relay and to the ping responder is handed off.

  A listener is added per packet against sockets that only change at the next poll, where every
  SYN may take one of them (`Poller`). So what a batch leaves on a port is one listening
  socket, or as many as there were (`Batched`).
-/

namespace RustCrash.Tun

open Lib

/-! ## Staging -/

def maxTcpConns : Nat := 256

def maxUdpSockets : Nat := 256

/-- Cap on packets waiting to be handed to the stack in one batch. -/
def maxStagedPackets : Nat := 2048

/-- A TCP socket of the stack: its state and the ends of its connection. -/
structure Tcb where
  state : TcpState
  localEnd : Option (IpAddr × UInt16)
  remoteEnd : Option (IpAddr × UInt16)
  deriving DecidableEq

/-- A socket with the port it listens on. -/
abbrev Socket := Tcb × UInt16

structure SocketFacts where
  port : UInt16
  listening : Bool
  localEnd : Option (IpAddr × UInt16)
  remoteEnd : Option (IpAddr × UInt16)

def SocketFacts.covers (f : SocketFacts) (src dst : SocketAddr) : Bool :=
  f.port == dst.port && (f.listening ||
    (decide (f.localEnd = some (dst.ip, dst.port)) &&
      decide (f.remoteEnd = some (src.ip, src.port))))

def needsNewListener (facts : List SocketFacts) (src dst : SocketAddr) : Bool :=
  !facts.any fun f => f.covers src dst

/-- `None` = any address. -/
structure DnsHijack where
  ip : Option IpAddr
  port : UInt16

def isDnsHijack (dst : SocketAddr) (hijack : List DnsHijack) : Bool :=
  hijack.any fun h => h.port == dst.port && h.ip.all fun ip => decide (ip = dst.ip)

structure Netstack where
  /-- Listening sockets, until their handshake completes. -/
  listeners : List Socket
  conns : List Tcb
  ingress : List Bytes
  dropped : Nat
  udpPorts : List UInt16

/-- What a packet is handed off to besides the stack. -/
inductive Handoff where
  | dns (query : Bytes) (client dst : SocketAddr)
  | uplink (src dst : SocketAddr) (payload : Bytes)
  | ping (v6 : Bool) (pkt : Bytes)

namespace Netstack

def empty : Netstack := ⟨[], [], [], 0, []⟩

/-- Every TCP socket, a connected one under its local port. -/
def sockets (s : Netstack) : List Socket :=
  s.listeners ++ s.conns.map fun c => (c, (c.localEnd.map Prod.snd).getD 0)

def facts (s : Socket) : SocketFacts :=
  ⟨s.2, decide (s.1.state = .listen), s.1.localEnd, s.1.remoteEnd⟩

def socketFacts (s : Netstack) : List SocketFacts := s.sockets.map facts

def addListener (s : Netstack) (port : UInt16) : Netstack :=
  if maxTcpConns ≤ s.listeners.length + s.conns.length then s
  else if port = 0 then s
  else { s with listeners := s.listeners ++ [(⟨.listen, none, none⟩, port)] }

/-- `DeviceShim::stage`. -/
def enqueue (s : Netstack) (pkt : Bytes) : Netstack :=
  if maxStagedPackets ≤ s.ingress.length then { s with dropped := s.dropped + 1 }
  else { s with ingress := s.ingress ++ [pkt] }

def ensureUdpSocket (s : Netstack) (port : UInt16) : Option Netstack :=
  if port ∈ s.udpPorts then some s
  else if maxUdpSockets ≤ s.udpPorts.length then none
  else if port = 0 then none
  else some { s with udpPorts := port :: s.udpPorts }

/-- The TCP arm: a SYN gets a listener on its port before it is staged. -/
def stageTcp (s : Netstack) (src dst : SocketAddr) (syn : Bool) (pkt : Bytes) : Netstack :=
  let s := if syn && needsNewListener s.socketFacts src dst then s.addListener dst.port else s
  s.enqueue pkt

/-- Hand one raw packet to the stack. -/
def stage (hijack : List DnsHijack) (s : Netstack) (pkt : Bytes) : Netstack × Option Handoff :=
  match classifyPacket pkt with
  | .tcp src dst syn ext => if ext then (s, none) else (s.stageTcp src dst syn pkt, none)
  | .udp src dst payload ext =>
    match s.ensureUdpSocket dst.port with
    | none => (s, none)
    | some s =>
      let handoff := if isDnsHijack dst hijack then .dns payload src dst else .uplink src dst payload
      (if ext then s else s.enqueue pkt, some handoff)
  | .icmpEchoRequest _ _ v6 => (s, some (.ping v6 pkt))
  | .other _ _ => (s, none)
  | .unsupported _ => (s, none)
  | .malformed => (s, none)

/-- A batch: everything the reader had before the next poll. -/
def stageAll (hijack : List DnsHijack) (s : Netstack) (batch : List Bytes) : Netstack :=
  batch.foldl (fun s pkt => (s.stage hijack pkt).1) s

end Netstack

/-! ## The poll -/

/-- The connection of a SYN from `src` to `dst` is the socket's. -/
def Socket.boundTo (s : Socket) (src dst : SocketAddr) : Bool :=
  decide (s.1.state ≠ .listen ∧ s.1.state ≠ .closed ∧
    s.1.localEnd = some (dst.ip, dst.port) ∧ s.1.remoteEnd = some (src.ip, src.port))

def Socket.listensOn (s : Socket) (port : UInt16) : Bool :=
  decide (s.1.state = .listen ∧ s.2 = port)

/-- A listening socket matches by port, a connected one by its 4-tuple. -/
def Socket.accepts (s : Socket) (src dst : SocketAddr) : Bool :=
  s.listensOn dst.port || s.boundTo src dst

/-- What a poll is free to do: everything besides the SYNs, and which of the sockets that accept
    a SYN takes it. -/
structure Poller where
  /-- Up to this packet, and with it if it is not a SYN. -/
  work : List Socket → Bytes → List Socket
  pick : List Socket → SocketAddr → SocketAddr → Option Nat

/-- A listening socket goes on listening until it accepts a SYN, and no connection comes from
    anything else. -/
structure Poller.Lawful (p : Poller) : Prop where
  pick_some : ∀ socks src dst k, p.pick socks src dst = some k →
    ∃ s, socks[k]? = some s ∧ s.accepts src dst = true
  pick_none : ∀ socks src dst, p.pick socks src dst = none →
    ∀ s ∈ socks, s.accepts src dst = false
  work_listens : ∀ socks pkt (k : Nat) s, socks[k]? = some s → s.1.state = .listen →
    (p.work socks pkt)[k]? = some s
  work_bound : ∀ socks pkt s src dst, s ∈ p.work socks pkt → s.boundTo src dst = true →
    ∃ s' ∈ socks, s'.boundTo src dst = true

/-- What becomes of a SYN. -/
inductive Verdict where
  | listener
  | connection
  | reset
  deriving DecidableEq

/-- The socket that a SYN makes of a listening one. -/
def handshaking (src dst : SocketAddr) (port : UInt16) : Socket :=
  (⟨.synReceived, some (dst.ip, dst.port), some (src.ip, src.port)⟩, port)

def dispatch (p : Poller) (socks : List Socket) (src dst : SocketAddr) :
    List Socket × Verdict :=
  match p.pick socks src dst with
  | none => (socks, .reset)
  | some k =>
    match socks[k]? with
    | none => (socks, .reset)
    | some s =>
      if s.1.state = .listen then (socks.set k (handshaking src dst s.2), .listener)
      else (socks, .connection)

section

variable (opens : Bytes → Bool)

/-- The ends of the connection a staged packet opens; `opens` are the packets that smoltcp
    takes for a SYN. -/
def opening (pkt : Bytes) : Option (SocketAddr × SocketAddr) :=
  if opens pkt then
    match classifyPacket pkt with
    | .tcp src dst _ false => some (src, dst)
    | _ => none
  else none

/-- The SYNs among the packets, in order. -/
def syns (pkts : List Bytes) : List (SocketAddr × SocketAddr) := pkts.filterMap (opening opens)

/-- One packet of the batch. -/
def pollOne (p : Poller) (socks : List Socket) (pkt : Bytes) : List Socket :=
  match opening opens pkt with
  | some (src, dst) => (dispatch p (p.work socks pkt) src dst).1
  | none => p.work socks pkt

/-- What becomes of a SYN that comes behind the packets `earlier`. -/
def verdict (p : Poller) (socks : List Socket) (earlier : List Bytes) (pkt : Bytes)
    (src dst : SocketAddr) : Verdict :=
  (dispatch p (p.work (earlier.foldl (pollOne opens p) socks) pkt) src dst).2

/-- The SYN opens a connection that no socket of the stack and no earlier SYN has. -/
def NewSyn (net : Netstack) (earlier : List (SocketAddr × SocketAddr)) (src dst : SocketAddr) :
    Prop :=
  (∀ s ∈ net.sockets, s.boundTo src dst = false) ∧ (src, dst) ∉ earlier

/-- Every new SYN that a batch stages finds its own listening socket. -/
def SynsListened (p : Poller) (hijack : List DnsHijack) (net : Netstack) (batch : List Bytes) :
    Prop :=
  ∀ earlier pkt later src dst,
    (net.stageAll hijack batch).ingress = earlier ++ pkt :: later →
    opening opens pkt = some (src, dst) → NewSyn net (syns opens earlier) src dst →
    verdict opens p (net.stageAll hijack batch).sockets earlier pkt src dst = .listener

/-- smoltcp takes no packet for a SYN that has no SYN flag or goes to port 0. -/
def OpensSyns : Prop :=
  ∀ pkt, opens pkt = true → ∃ src dst ext,
    classifyPacket pkt = .tcp src dst true ext ∧ dst.port ≠ 0

/-- How many sockets listen on a port. -/
def listening (port : UInt16) (socks : List Socket) : Nat := socks.countP fun s => s.listensOn port

/-- How many of the SYNs go to a port. -/
def synsTo (port : UInt16) (es : List (SocketAddr × SocketAddr)) : Nat :=
  es.countP fun e => e.2.port == port

/-- A new SYN comes behind fewer SYNs to its port than sockets listen there, where one is
    always made. -/
def Uncrowded (net : Netstack) (batch : List Bytes) : Prop :=
  ∀ earlier src dst later, syns opens batch = earlier ++ (src, dst) :: later →
    NewSyn net earlier src dst →
    synsTo dst.port earlier < max 1 (listening dst.port net.sockets)

end

/-- What a poll leaves: an empty queue and, as smoltcp promises, no ends at a closed socket. -/
structure Polled (net : Netstack) : Prop where
  ingress : net.ingress = []
  closed : ∀ t ∈ net.sockets, t.1.state = .closed → t.1.localEnd = none

/-- There is room for a listener and for the packet, whenever one of the batch is staged. -/
def Roomy (hijack : List DnsHijack) (net : Netstack) (batch : List Bytes) : Prop :=
  ∀ x ∈ Machine.steps (fun s pkt => (Netstack.stage hijack s pkt).1) net batch,
    x.1.listeners.length + x.1.conns.length < maxTcpConns ∧ x.1.ingress.length < maxStagedPackets

/-! ## Staging -/

section

variable {opens : Bytes → Bool} {hijack : List DnsHijack}

variable {pkt : Bytes} {src dst : SocketAddr} {s : Netstack} {seen : List Bytes}

theorem opening_some (h : opening opens pkt = some (src, dst)) :
    opens pkt = true ∧ ∃ syn, classifyPacket pkt = .tcp src dst syn false := by
  unfold opening at h
  split_ifs at h with hopen
  refine ⟨hopen, ?_⟩
  split at h
  · next syn hc =>
    cases h
    exact ⟨syn, hc⟩
  · cases h

/-- A listener whose port nobody listens on. -/
def fresh (port : UInt16) : Socket := (⟨.listen, none, none⟩, port)

theorem listening_append (port : UInt16) (xs ys : List Socket) :
    listening port (xs ++ ys) = listening port xs + listening port ys := List.countP_append

theorem listening_sockets (port : UInt16) (s : Netstack) :
    listening port s.sockets = listening port s.listeners +
      listening port (s.conns.map fun c => (c, (c.localEnd.map Prod.snd).getD 0)) :=
  listening_append _ _ _

theorem listening_fresh (port port' : UInt16) :
    listening port [fresh port'] = if port' = port then 1 else 0 := by
  unfold listening fresh Socket.listensOn
  by_cases h : port' = port <;> simp [h]

/-- What staging a packet does to the TCP sockets and the queue. -/
structure Staged (opens : Bytes → Bool) (s s' : Netstack) (pkt : Bytes) : Prop where
  conns : s'.conns = s.conns
  ingress : syns opens s'.ingress = syns opens s.ingress ++ (opening opens pkt).toList
  listeners : s'.listeners = s.listeners ∨
    ∃ port, s'.listeners = s.listeners ++ [fresh port] ∧ listening port s.sockets = 0
  /-- A SYN whose connection nobody has finds its port listened on. -/
  ready : ∀ src dst, opening opens pkt = some (src, dst) →
    (∀ t ∈ s.sockets, t.boundTo src dst = false) →
    (∀ t ∈ s.sockets, t.1.state = .closed → t.1.localEnd = none) →
    0 < listening dst.port s'.sockets

theorem needsNewListener_iff :
    needsNewListener s.socketFacts src dst = true ↔
      ∀ t ∈ s.sockets, (Netstack.facts t).covers src dst = false := by
  unfold needsNewListener Netstack.socketFacts
  simp [List.any_map]

/-- Without a new listener the port is listened on. -/
theorem covered_listens (hno : needsNewListener s.socketFacts src dst = false)
    (hunbound : ∀ t ∈ s.sockets, t.boundTo src dst = false)
    (hclosed : ∀ t ∈ s.sockets, t.1.state = .closed → t.1.localEnd = none) :
    0 < listening dst.port s.sockets := by
  rw [← Bool.not_eq_true, needsNewListener_iff] at hno
  simp only [not_forall, Bool.not_eq_false] at hno
  obtain ⟨t, ht, hcover⟩ := hno
  refine List.countP_pos_iff.mpr ⟨t, ht, ?_⟩
  unfold SocketFacts.covers Netstack.facts at hcover
  simp only [Bool.and_eq_true, Bool.or_eq_true, beq_iff_eq,
    decide_eq_true_eq] at hcover
  obtain ⟨hport, hlisten | ⟨hlocal, hremote⟩⟩ := hcover
  · exact decide_eq_true ⟨hlisten, hport⟩
  · by_cases hstate : t.1.state = .listen
    · exact decide_eq_true ⟨hstate, hport⟩
    · have hopen : t.1.state ≠ .closed := by
        intro hc
        rw [hclosed t ht hc] at hlocal
        cases hlocal
      have hbound := hunbound t ht
      unfold Socket.boundTo at hbound
      rw [decide_eq_false_iff_not] at hbound
      exact absurd ⟨hstate, hopen, hlocal, hremote⟩ hbound

theorem uncovered_silent (hneed : needsNewListener s.socketFacts src dst = true) :
    listening dst.port s.sockets = 0 := by
  refine List.countP_eq_zero.mpr fun t ht hlisten => ?_
  have hcover := needsNewListener_iff.mp hneed t ht
  unfold Socket.listensOn at hlisten
  rw [decide_eq_true_eq] at hlisten
  unfold SocketFacts.covers Netstack.facts at hcover
  simp [hlisten.1, hlisten.2] at hcover

theorem enqueue_roomy (h : s.ingress.length < maxStagedPackets) :
    s.enqueue pkt = { s with ingress := s.ingress ++ [pkt] } := if_neg (by omega)

theorem syns_append (xs ys : List Bytes) :
    syns opens (xs ++ ys) = syns opens xs ++ syns opens ys := List.filterMap_append

theorem syns_singleton (pkt : Bytes) : syns opens [pkt] = (opening opens pkt).toList := by
  unfold syns
  cases h : opening opens pkt <;> simp [h]

theorem opening_of_ext {syn : Bool} (h : classifyPacket pkt = .tcp src dst syn true) :
    opening opens pkt = none := by
  unfold opening
  rw [h]
  split_ifs <;> rfl

theorem opening_of_plain {src dst src' dst' : SocketAddr} {syn : Bool}
    (hc : classifyPacket pkt = .tcp src dst syn false) (h : opening opens pkt = some (src', dst')) :
    src' = src ∧ dst' = dst := by
  obtain ⟨_, syn', hc'⟩ := opening_some h
  rw [hc] at hc'
  cases hc'
  exact ⟨rfl, rfl⟩

/-- A packet that opens nothing and makes no listener. -/
theorem Staged.quiet {s s' : Netstack} (hnone : opening opens pkt = none)
    (hconns : s'.conns = s.conns) (hlisteners : s'.listeners = s.listeners)
    (hingress : s'.ingress = s.ingress ∨ s'.ingress = s.ingress ++ [pkt]) :
    Staged opens s s' pkt where
  conns := hconns
  ingress := by
    rcases hingress with h | h
    · rw [h, hnone, Option.toList_none, List.append_nil]
    · rw [h, syns_append, syns_singleton]
  listeners := .inl hlisteners
  ready src dst h := by
    rw [hnone] at h
    cases h

theorem ensureUdpSocket_some {s s' : Netstack} {port : UInt16}
    (h : s.ensureUdpSocket port = some s') :
    s'.conns = s.conns ∧ s'.listeners = s.listeners ∧ s'.ingress = s.ingress := by
  unfold Netstack.ensureUdpSocket at h
  split_ifs at h <;> cases h <;> exact ⟨rfl, rfl, rfl⟩

/-- A TCP packet, with the listener it may get. -/
theorem staged_tcp (hopens : OpensSyns opens) {syn : Bool}
    (hc : classifyPacket pkt = .tcp src dst syn false)
    (hconns : s.listeners.length + s.conns.length < maxTcpConns)
    (hqueue : s.ingress.length < maxStagedPackets) :
    Staged opens s (s.stageTcp src dst syn pkt) pkt := by
  unfold Netstack.stageTcp
  dsimp only
  by_cases hneed : (syn && needsNewListener s.socketFacts src dst) = true ∧ dst.port ≠ 0
  · obtain ⟨hneed, hport⟩ := hneed
    have hadd : s.addListener dst.port =
        { s with listeners := s.listeners ++ [fresh dst.port] } := by
      unfold Netstack.addListener
      rw [if_neg (by omega), if_neg hport]
      rfl
    have hsilent := uncovered_silent (Bool.and_eq_true_iff.mp hneed).2
    rw [if_pos hneed, hadd, enqueue_roomy]
    swap
    · exact hqueue
    refine ⟨rfl, ?_, .inr ⟨dst.port, rfl, hsilent⟩, ?_⟩
    · rw [syns_append, syns_singleton]
    · intro src' dst' h _ _
      obtain ⟨-, rfl⟩ := opening_of_plain hc h
      rw [listening_sockets, listening_append, listening_fresh, if_pos rfl]
      omega
  · have hsame : (if (syn && needsNewListener s.socketFacts src dst) = true then
        s.addListener dst.port else s) = s := by
      by_cases h : (syn && needsNewListener s.socketFacts src dst) = true
      · have hzero : dst.port = 0 := by
          by_contra hport
          exact hneed ⟨h, hport⟩
        unfold Netstack.addListener
        rw [if_pos h, if_neg (by omega), if_pos hzero]
      · rw [if_neg h]
    rw [hsame, enqueue_roomy hqueue]
    refine ⟨rfl, ?_, .inl rfl, ?_⟩
    · rw [syns_append, syns_singleton]
    · intro src' dst' h hunbound hclosed
      obtain ⟨rfl, rfl⟩ := opening_of_plain hc h
      obtain ⟨_, _, _, hc', hport⟩ := hopens pkt (opening_some h).1
      rw [hc] at hc'
      cases hc'
      have hno : needsNewListener s.socketFacts src' dst' = false := by
        rw [← Bool.not_eq_true]
        exact fun hyes => hneed ⟨hyes, hport⟩
      exact covered_listens hno hunbound hclosed

theorem staged (hopens : OpensSyns opens)
    (hconns : s.listeners.length + s.conns.length < maxTcpConns)
    (hqueue : s.ingress.length < maxStagedPackets) : Staged opens s (s.stage hijack pkt).1 pkt := by
  have hother : (∀ src dst syn ext, classifyPacket pkt ≠ .tcp src dst syn ext) →
      opening opens pkt = none := by
    intro hno
    cases h : opening opens pkt with
    | none => rfl
    | some e =>
      obtain ⟨src, dst⟩ := e
      obtain ⟨_, syn, hc⟩ := opening_some h
      exact absurd hc (hno _ _ _ _)
  unfold Netstack.stage
  split
  · next src dst syn ext hc =>
    cases ext with
    | true => exact .quiet (opening_of_ext hc) rfl rfl (.inl rfl)
    | false => exact staged_tcp hopens hc hconns hqueue
  · next src dst payload ext hc =>
    have hnone := hother fun _ _ _ _ h => by rw [hc] at h; cases h
    split
    · exact .quiet hnone rfl rfl (.inl rfl)
    · next s' hudp =>
      obtain ⟨hc', hl', hi'⟩ := ensureUdpSocket_some hudp
      cases ext with
      | true => exact .quiet hnone hc' hl' (.inl hi')
      | false =>
        have henq : s'.enqueue pkt = { s' with ingress := s'.ingress ++ [pkt] } :=
          enqueue_roomy (by rw [hi']; exact hqueue)
        refine .quiet hnone ?_ ?_ (.inr ?_) <;> dsimp only <;> rw [if_neg nofun, henq]
        · exact hc'
        · exact hl'
        · dsimp only
          rw [hi']
  all_goals
    next hc =>
    exact .quiet (hother fun _ _ _ _ h => by rw [hc] at h; cases h) rfl rfl (.inl rfl)

/-- What the packets of a batch, up to `seen`, made of the sockets of `net`. -/
structure Batched (opens : Bytes → Bool) (net s : Netstack) (seen : List Bytes) : Prop where
  conns : s.conns = net.conns
  listeners : ∃ ports : List UInt16, s.listeners = net.listeners ++ ports.map fresh
  ingress : syns opens s.ingress = syns opens seen
  /-- A port never gets a second listener. -/
  scarce : ∀ port, listening port s.sockets ≤ max 1 (listening port net.sockets)
  ready : ∀ src dst, (src, dst) ∈ syns opens seen →
    (∀ t ∈ net.sockets, t.boundTo src dst = false) → 0 < listening dst.port s.sockets

theorem Batched.start {net : Netstack} (hnet : Polled net) : Batched opens net net [] where
  conns := rfl
  listeners := ⟨[], (List.append_nil _).symm⟩
  ingress := by rw [hnet.ingress]
  scarce _ := le_max_right _ _
  ready _ _ h := nomatch h

theorem Batched.grows {net s : Netstack} (h : Batched opens net s seen) (port : UInt16) :
    listening port net.sockets ≤ listening port s.sockets := by
  obtain ⟨ports, hl⟩ := h.listeners
  rw [listening_sockets, listening_sockets, hl, h.conns, listening_append]
  omega

/-- A socket is one of the stack's or has seen nothing yet. -/
theorem Batched.mem {net s : Netstack} (h : Batched opens net s seen) {t : Socket}
    (ht : t ∈ s.sockets) : t ∈ net.sockets ∨ ∃ port, t = fresh port := by
  obtain ⟨ports, hl⟩ := h.listeners
  unfold Netstack.sockets at ht ⊢
  rw [hl, h.conns, List.append_assoc, List.mem_append, List.mem_append, List.mem_map] at ht
  rcases ht with ht | ⟨port, _, rfl⟩ | ht
  · exact .inl (List.mem_append_left _ ht)
  · exact .inr ⟨port, rfl⟩
  · exact .inl (List.mem_append_right _ ht)

theorem fresh_unbound (port : UInt16) (src dst : SocketAddr) :
    (fresh port).boundTo src dst = false := by
  unfold Socket.boundTo fresh
  simp

theorem Batched.unbound {net s : Netstack} (h : Batched opens net s seen)
    (hunbound : ∀ t ∈ net.sockets, t.boundTo src dst = false) :
    ∀ t ∈ s.sockets, t.boundTo src dst = false := by
  intro t ht
  rcases h.mem ht with hold | ⟨port, rfl⟩
  · exact hunbound t hold
  · exact fresh_unbound port src dst

theorem Batched.step {net s s' : Netstack} (h : Batched opens net s seen)
    (hs : Staged opens s s' pkt) (hnet : Polled net) :
    Batched opens net s' (seen ++ [pkt]) where
  conns := hs.conns.trans h.conns
  listeners := by
    obtain ⟨ports, hl⟩ := h.listeners
    rcases hs.listeners with hsame | ⟨port, hadd, _⟩
    · exact ⟨ports, hsame.trans hl⟩
    · refine ⟨ports ++ [port], ?_⟩
      rw [hadd, hl, List.append_assoc, List.map_append]
      rfl
  ingress := by rw [hs.ingress, h.ingress, syns_append, syns_singleton]
  scarce port := by
    have hbound := h.scarce port
    rcases hs.listeners with hsame | ⟨port', hadd, hsilent⟩
    · rw [listening_sockets, hsame, hs.conns, ← listening_sockets]
      exact hbound
    · rw [listening_sockets] at hbound hsilent
      rw [listening_sockets, hadd, hs.conns, listening_append, listening_fresh]
      split_ifs with hp
      · subst hp
        omega
      · omega
  ready src dst hmem hunbound := by
    have hgrow : listening dst.port s.sockets ≤ listening dst.port s'.sockets := by
      rw [listening_sockets, listening_sockets, hs.conns]
      rcases hs.listeners with hsame | ⟨port, hadd, _⟩
      · rw [hsame]
      · rw [hadd, listening_append]
        omega
    rw [syns_append, syns_singleton, List.mem_append, Option.mem_toList] at hmem
    rcases hmem with hold | hnew
    · exact lt_of_lt_of_le (h.ready src dst hold hunbound) hgrow
    · refine hs.ready src dst hnew (h.unbound hunbound) fun t ht hstate => ?_
      rcases h.mem ht with hold | ⟨port, rfl⟩
      · exact hnet.closed t hold hstate
      · rfl

theorem batched (hopens : OpensSyns opens) {net s : Netstack} {seen batch : List Bytes}
    (hnet : Polled net)
    (h : Batched opens net s seen) (hroom : Roomy hijack s batch) :
    Batched opens net (s.stageAll hijack batch) (seen ++ batch) := by
  induction batch generalizing s seen with
  | nil =>
    rw [List.append_nil]
    exact h
  | cons pkt batch ih =>
    obtain ⟨hconns, hqueue⟩ := hroom (s, pkt) List.mem_cons_self
    have hstage : Staged opens s (s.stage hijack pkt).1 pkt := staged hopens hconns hqueue
    have hrest := ih (h.step hstage hnet) fun x hx => hroom x (List.mem_cons_of_mem _ hx)
    rwa [List.append_assoc, List.singleton_append] at hrest

end

end RustCrash.Tun
