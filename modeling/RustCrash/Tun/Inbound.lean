import RustCrash.Tun.Flow

/-
  From the socket to the relay.

  What the socket received is what the reads returned, then the queue, then the receive buffer,
  and nothing comes out of order (`Ordered`). A queue that is full leaves bytes in the receive
  buffer. They are lost when the socket is closed in the meantime: the pass that finds it closed
  removes it and raises the end of the stream. `inbound_stream` has the condition under which
  the end comes after all bytes (`Drains`).
-/

namespace RustCrash.Tun

open Lib

namespace Flow

section

variable {Sock Net : Type} {a : TcpApi Sock Net} {f : Flow Sock}

/-- The next read with room reports the end of the stream. -/
def ReportsEof (f : Flow Sock) : Prop :=
  ∃ remaining, 0 < remaining ∧ (f.conn.bufs.pollRead remaining).2 = .ready []

theorem reportsEof_iff :
    ReportsEof f ↔ f.conn.bufs.toProxy = [] ∧ f.conn.bufs.readEof = true := by
  unfold ReportsEof StreamBufs.pollRead
  constructor
  · intro ⟨remaining, hpos, h⟩
    split_ifs at h with hne heof
    · have htake := Poll.ready.inj h
      have hlen : 0 < f.conn.bufs.toProxy.length := List.length_pos_iff.mpr hne
      rw [List.take_eq_nil_iff] at htake
      rcases htake with h0 | h0
      · omega
      · exact absurd h0 hne
    · exact ⟨not_not.mp hne, heof⟩
  · intro ⟨hnil, heof⟩
    refine ⟨1, Nat.one_pos, ?_⟩
    rw [if_neg (not_not.mpr hnil), if_pos heof]

/-! ## The order of the bytes -/

/-- What is not lost is in order, and what is lost was the end of it. -/
structure Ordered (a : TcpApi Sock Net) (f : Flow Sock) : Prop where
  kept : f.conn.bufs.aborted = false
  connected : (a.state f.conn.sock).receives = true ∨ (a.state f.conn.sock).ended = true
  order : ∃ lost, f.received =
      f.returned ++ f.conn.bufs.toProxy ++ a.rxBuffer f.conn.sock ++ lost ∧
    (lost ≠ [] → a.rxBuffer f.conn.sock = [] ∧ (a.state f.conn.sock).ended = true)
  bounded : f.conn.bufs.toProxy.length ≤ streamQueueMax + pumpChunk
  /-- The end of the stream on a live connection: nothing is left, and nothing can come. -/
  eof : f.conn.bufs.readEof = true → f.gone = false →
    a.rxBuffer f.conn.sock = [] ∧ (a.state f.conn.sock).ended = true

theorem ordered_start {sock : Sock} (h : a.state sock = .established) :
    Ordered a (start a sock) where
  kept := rfl
  connected := Or.inl (by
    show (a.state sock).receives = true
    rw [h]
    rfl)
  order := by
    refine ⟨[], ?_, nofun⟩
    show a.rxBuffer sock = [] ++ [] ++ a.rxBuffer sock ++ []
    simp
  bounded := Nat.zero_le _
  eof := nofun

theorem ordered_poll (hl : a.Lawful) (h : Ordered a f) (net : Net) : Ordered a (f.poll a net) := by
  obtain ⟨lost, horder, hlost⟩ := h.order
  have hrx := hl.poll_rxBuffer f.conn.sock net
  have hended := hl.poll_ended f.conn.sock net
  -- after the end of the receive half the buffer only shrinks
  have hnil : a.rxBuffer f.conn.sock = [] → (a.state f.conn.sock).ended = true →
      a.rxBuffer (a.poll f.conn.sock net) = [] := by
    intro hbuf hend
    rcases hrx with hrx | ⟨-, hrx⟩
    · rw [hrx, hbuf, (hended hend).2, List.append_nil]
    · exact hrx
  refine
    { kept := h.kept
      connected := ?_
      order := ?_
      bounded := h.bounded
      eof := fun heof hlive => ?_ }
  · rcases h.connected with hrec | hend
    · exact hl.poll_receives f.conn.sock net hrec
    · exact Or.inr (hended hend).1
  · show ∃ lost', f.received ++ a.taken f.conn.sock net =
      f.returned ++ f.conn.bufs.toProxy ++ a.rxBuffer (a.poll f.conn.sock net) ++ lost' ∧ _
    rw [horder]
    by_cases hl0 : lost = []
    · rcases hrx with hrx | ⟨hclosed, hrx⟩
      · refine ⟨[], ?_, nofun⟩
        rw [hrx, hl0]
        simp
      · refine ⟨a.rxBuffer f.conn.sock ++ a.taken f.conn.sock net, ?_, fun _ => ⟨hrx, ?_⟩⟩
        · rw [hrx, hl0]
          simp
        · show (a.state (a.poll f.conn.sock net)).ended = true
          rw [hclosed]
          rfl
    · obtain ⟨hbuf, hend⟩ := hlost hl0
      refine ⟨lost, ?_, fun _ => ⟨hnil hbuf hend, (hended hend).1⟩⟩
      rw [hnil hbuf hend, hbuf, (hended hend).2, List.append_nil]
  · obtain ⟨hbuf, hend⟩ := h.eof heof hlive
    exact ⟨hnil hbuf hend, (hended hend).1⟩

theorem ordered_pass (hl : a.Lawful) (h : Ordered a f) (hlive : f.gone = false) :
    Ordered a (f.pass a) := by
  have hs := serviced hl f.conn
  obtain ⟨moved, rest, hproxy, hsplit, hbound, hempty, hrx⟩ := hs.inbound
  have hrest := hrx h.kept
  obtain ⟨lost, horder, hlost⟩ := h.order
  -- closing our half leaves the receive half as it is
  have hend : (a.state f.conn.sock).ended = true →
      (a.state (serviceConn a f.conn).1.sock).ended = true := by
    intro he
    rcases hs.state_or h.kept with hst | ⟨-, hst⟩
    · rw [hst, he]
    · rw [hst]
      exact TcpState.ended_afterClose he
  have hnil : a.rxBuffer f.conn.sock = [] → rest = [] := by
    intro hbuf
    rw [hsplit] at hbuf
    exact (List.append_eq_nil_iff.mp hbuf).2
  refine
    { kept := hs.aborted.trans h.kept
      connected := ?_
      order := ⟨lost, ?_, fun hne => ?_⟩
      bounded := ?_
      eof := fun heof hgone => ?_ }
  · rcases h.connected with hrec | he
    · rcases hs.state_or h.kept with hst | ⟨-, hst⟩
      · exact Or.inl (hst ▸ hrec)
      · exact Or.inl (hst ▸ TcpState.receives_afterClose hrec)
    · exact Or.inr (hend he)
  · show f.received = f.returned ++ (serviceConn a f.conn).1.bufs.toProxy ++
      a.rxBuffer (serviceConn a f.conn).1.sock ++ lost
    rw [horder, hproxy, hrest, hsplit]
    simp only [List.append_assoc]
  · obtain ⟨hbuf, he⟩ := hlost hne
    exact ⟨hrest.trans (hnil hbuf), hend he⟩
  · show (serviceConn a f.conn).1.bufs.toProxy.length ≤ _
    rw [hproxy]
    exact hbound h.bounded
  · rcases hs.readEof.mp heof with hbefore | hnow | ⟨hno, hfits⟩
    · obtain ⟨hbuf, he⟩ := h.eof hbefore hlive
      exact ⟨hrest.trans (hnil hbuf), hend he⟩
    · have hgone' : (serviceConn a f.conn).2 = false := hgone
      rw [hgone'] at hnow
      cases hnow
    · refine ⟨hrest.trans (hempty.mpr hfits), hend ?_⟩
      rcases h.connected with hrec | he
      · rw [hno] at hrec
        cases hrec
      · exact he

theorem ordered_read (h : Ordered a f) (remaining : Nat) : Ordered a (f.read remaining) := by
  obtain ⟨toProxy, readWaker, hbufs, hsplit⟩ := f.conn.bufs.pollRead_spec remaining
  obtain ⟨lost, horder, hlost⟩ := h.order
  have hlen : toProxy.length ≤ f.conn.bufs.toProxy.length := by
    rw [← hsplit, List.length_append]
    omega
  unfold read
  dsimp only
  rw [hbufs]
  refine
    { kept := h.kept
      connected := h.connected
      order := ⟨lost, ?_, hlost⟩
      bounded := hlen.trans h.bounded
      eof := h.eof }
  show f.received = f.returned ++ (f.conn.bufs.pollRead remaining).2.filled ++ toProxy ++
    a.rxBuffer f.conn.sock ++ lost
  rw [horder, ← hsplit]
  simp only [List.append_assoc]

/-- The relay's other calls touch neither the queue to the proxy nor the socket. -/
theorem ordered_step (hl : a.Lawful) (h : Ordered a f) {e : Event Net} (he : e ≠ .drop) :
    Ordered a (f.step a e) := by
  cases e with
  | poll net =>
    unfold step
    dsimp only
    split_ifs
    · exact h
    · exact ordered_poll hl h net
  | pass =>
    unfold step
    dsimp only
    split_ifs with hgone
    · exact h
    · exact ordered_pass hl h (by simpa using hgone)
  | read remaining =>
    unfold step
    dsimp only
    split_ifs
    · exact h
    · exact ordered_read h remaining
  | write buf =>
    unfold step
    dsimp only
    split_ifs
    · exact h
    · obtain ⟨writeWaker, hbufs, -⟩ := f.conn.bufs.pollWrite_spec buf
      unfold write
      dsimp only
      rw [hbufs]
      exact ⟨h.kept, h.connected, h.order, h.bounded, h.eof⟩
  | shutdown =>
    unfold step
    dsimp only
    split_ifs
    · exact h
    · exact ⟨h.kept, h.connected, h.order, h.bounded, h.eof⟩
  | drop => exact absurd rfl he

/-! ## The end of the stream -/

/-- An event that leaves no byte behind. A poll after which the FIN is in keeps the receive
    buffer, and a pass that finds the socket closed after a FIN has room for what is in it. -/
def Drains (a : TcpApi Sock Net) (f : Flow Sock) : Event Net → Prop
  | .poll net => f.gone = false → (f.fin || a.finTaken f.conn.sock net) = true →
      a.rxBuffer (a.poll f.conn.sock net) = a.rxBuffer f.conn.sock ++ a.taken f.conn.sock net
  | .pass => f.gone = false → f.fin = true → a.state f.conn.sock = .closed →
      Fits f.conn.bufs.toProxy.length (a.rxBuffer f.conn.sock).length
  | _ => True

/-- After the FIN nothing is lost. -/
structure Whole (a : TcpApi Sock Net) (f : Flow Sock) : Prop where
  order : f.fin = true →
    f.received = f.returned ++ f.conn.bufs.toProxy ++ a.rxBuffer f.conn.sock
  removed : f.fin = true → f.gone = true → a.rxBuffer f.conn.sock = []

theorem whole_poll (ho : Ordered a f) (h : Whole a f) (hl : a.Lawful) (hlive : f.gone = false)
    {net : Net} (hd : Drains a f (.poll net)) : Whole a (f.poll a net) := by
  refine ⟨fun hfin => ?_, fun _ hgone => ?_⟩
  · have hbefore : f.received =
        f.returned ++ f.conn.bufs.toProxy ++ a.rxBuffer f.conn.sock := by
      rcases Bool.or_eq_true_iff.mp hfin with hold | hnew
      · exact h.order hold
      · obtain ⟨lost, horder, hlost⟩ := ho.order
        by_cases hl0 : lost = []
        · rw [horder, hl0, List.append_nil]
        · have hrec := hl.fin_receives _ _ hnew
          rw [TcpState.not_receives_of_ended (hlost hl0).2] at hrec
          cases hrec
    show f.received ++ a.taken f.conn.sock net =
      f.returned ++ f.conn.bufs.toProxy ++ a.rxBuffer (a.poll f.conn.sock net)
    rw [hd hlive hfin, hbefore, List.append_assoc]
  · rw [show (f.poll a net).gone = f.gone from rfl, hlive] at hgone
    cases hgone

theorem whole_pass (ho : Ordered a f) (h : Whole a f) (hl : a.Lawful) (hlive : f.gone = false)
    (hd : Drains a f .pass) : Whole a (f.pass a) := by
  have hs := serviced hl f.conn
  obtain ⟨moved, rest, hproxy, hsplit, -, hempty, hrx⟩ := hs.inbound
  have hrest : a.rxBuffer (f.pass a).conn.sock = rest := hrx ho.kept
  refine ⟨fun hfin => ?_, fun hfin hgone => ?_⟩
  · rw [hrest]
    show f.received = f.returned ++ (serviceConn a f.conn).1.bufs.toProxy ++ rest
    rw [h.order hfin, hproxy, hsplit]
    simp only [List.append_assoc]
  · rw [hrest, hempty]
    refine hd hlive hfin ?_
    have hclosed : a.state (serviceConn a f.conn).1.sock = .closed :=
      of_decide_eq_true (hs.removed.symm.trans hgone)
    rcases hs.state_or ho.kept with hst | ⟨-, hst⟩
    · rw [← hst]
      exact hclosed
    · rw [hst] at hclosed
      exact (TcpState.afterClose_closed ho.connected).mp hclosed

theorem whole_step (ho : Ordered a f) (h : Whole a f) (hl : a.Lawful) {e : Event Net}
    (he : e ≠ .drop) (hd : Drains a f e) : Whole a (f.step a e) := by
  cases e with
  | poll net =>
    unfold step
    dsimp only
    split_ifs with hgone
    · exact h
    · exact whole_poll ho h hl (by simpa using hgone) hd
  | pass =>
    unfold step
    dsimp only
    split_ifs with hgone
    · exact h
    · exact whole_pass ho h hl (by simpa using hgone) hd
  | read remaining =>
    unfold step
    dsimp only
    split_ifs
    · exact h
    · obtain ⟨toProxy, readWaker, hbufs, hsplit⟩ := f.conn.bufs.pollRead_spec remaining
      unfold read
      dsimp only
      rw [hbufs]
      refine ⟨fun hfin => ?_, h.removed⟩
      show f.received = f.returned ++ (f.conn.bufs.pollRead remaining).2.filled ++ toProxy ++
        a.rxBuffer f.conn.sock
      rw [h.order hfin, ← hsplit]
      simp only [List.append_assoc]
  | write buf =>
    unfold step
    dsimp only
    split_ifs
    · exact h
    · obtain ⟨writeWaker, hbufs, -⟩ := f.conn.bufs.pollWrite_spec buf
      unfold write
      dsimp only
      rw [hbufs]
      exact ⟨h.order, h.removed⟩
  | shutdown =>
    unfold step
    dsimp only
    split_ifs
    · exact h
    · exact ⟨h.order, h.removed⟩
  | drop => exact absurd rfl he

/-- At the end of the stream everything has been returned. -/
theorem eof_returned (ho : Ordered a f) (h : Whole a f) (hfin : f.fin = true)
    (heof : ReportsEof f) : f.returned = f.received := by
  obtain ⟨hnil, hread⟩ := reportsEof_iff.mp heof
  have hrx : a.rxBuffer f.conn.sock = [] := by
    cases hgone : f.gone with
    | true => exact h.removed hfin hgone
    | false => exact (ho.eof hread hgone).1
  rw [h.order hfin, hnil, hrx, List.append_nil, List.append_nil]

/-! ## Whole runs -/

/-- What the reads of a run may rely on. -/
structure InboundStream (a : TcpApi Sock Net) (f : Flow Sock) (es : List (Event Net)) : Prop where
  inOrder : ∀ t ∈ Machine.states (step a) f es, t.returned <+: t.received
  bounded : ∀ t ∈ Machine.states (step a) f es,
    t.conn.bufs.toProxy.length ≤ streamQueueMax + pumpChunk
  whole : (∀ x ∈ Machine.steps (step a) f es, Drains a x.1 x.2) →
    ∀ t ∈ Machine.states (step a) f es, t.fin = true → ReportsEof t → t.returned = t.received

/-- Every run of a new connection whose stream is not dropped. -/
theorem inbound_stream (hl : a.Lawful) {sock : Sock} (hs : a.state sock = .established)
    {es : List (Event Net)} (hdrop : Event.drop ∉ es) :
    InboundStream a (start a sock) es := by
  have hkeep : ∀ x ∈ Machine.steps (step a) (start a sock) es, x.2 ≠ .drop := by
    intro x hx h
    rw [← h] at hdrop
    exact hdrop (Machine.action_mem hx)
  have hordered : ∀ t ∈ Machine.states (step a) (start a sock) es, Ordered a t :=
    Machine.inv_of_good (Ordered a) (fun _ e => e ≠ .drop) (fun t e ht he => ordered_step hl ht he)
      (ordered_start hs) hkeep
  refine ⟨fun t ht => ?_, fun t ht => (hordered t ht).bounded, fun hdrains t ht hfin heof => ?_⟩
  · obtain ⟨lost, horder, -⟩ := (hordered t ht).order
    rw [horder, List.append_assoc, List.append_assoc]
    exact List.prefix_append _ _
  · have hboth : ∀ t ∈ Machine.states (step a) (start a sock) es, Ordered a t ∧ Whole a t :=
      Machine.inv_of_good (fun t => Ordered a t ∧ Whole a t)
        (fun t e => e ≠ .drop ∧ Drains a t e)
        (fun t e ht he => ⟨ordered_step hl ht.1 he.1, whole_step ht.1 ht.2 hl he.1 he.2⟩)
        ⟨ordered_start hs, ⟨nofun, nofun⟩⟩ fun x hx => ⟨hkeep x hx, hdrains x hx⟩
    exact eof_returned (hboth t ht).1 (hboth t ht).2 hfin heof

/-! ## A full queue -/

/-- A pass with a full queue leaves the receive buffer as it is, up to what fits. -/
theorem full_pass (hl : a.Lawful) (ho : Ordered a f)
    (hfull : streamQueueMax ≤ f.conn.bufs.toProxy.length)
    (hleft : a.rxBuffer f.conn.sock ≠ []) :
    streamQueueMax ≤ (f.pass a).conn.bufs.toProxy.length ∧
      a.rxBuffer (f.pass a).conn.sock ≠ [] := by
  obtain ⟨moved, rest, hproxy, -, -, hempty, hrx⟩ := (serviced hl f.conn).inbound
  constructor
  · show streamQueueMax ≤ (serviceConn a f.conn).1.bufs.toProxy.length
    rw [hproxy, List.length_append]
    omega
  · intro hnil
    have hrest : rest = [] := (hrx ho.kept).symm.trans hnil
    rw [hempty, not_fits_full hfull, List.length_eq_zero_iff] at hrest
    exact hleft hrest

/-- The socket is closed while the queue is full and bytes wait in the receive buffer: the
    reader gets the queue, and then the end of the stream. -/
theorem closed_truncates (hl : a.Lawful) (ho : Ordered a f) (hlive : f.gone = false)
    (hheld : f.dropped = false) (hclosed : a.state f.conn.sock = .closed)
    (hfull : streamQueueMax ≤ f.conn.bufs.toProxy.length)
    (hleft : a.rxBuffer f.conn.sock ≠ []) {remaining : Nat}
    (hall : (f.pass a).conn.bufs.toProxy.length ≤ remaining) :
    ReportsEof (((f.step a .pass).step a (.read remaining))) ∧
      ((f.step a .pass).step a (.read remaining)).returned ≠
        ((f.step a .pass).step a (.read remaining)).received := by
  have hs := serviced hl f.conn
  have hpass : f.step a .pass = f.pass a := if_neg (by rw [hlive]; decide)
  have hread : (f.pass a).step a (.read remaining) = (f.pass a).read remaining :=
    if_neg (by rw [show (f.pass a).dropped = f.dropped from rfl, hheld]; decide)
  obtain ⟨hfull', hleft'⟩ := full_pass hl ho hfull hleft
  obtain ⟨lost, horder, -⟩ := (ordered_pass hl ho hlive).order
  have hgone : a.state (serviceConn a f.conn).1.sock = .closed := by
    rcases hs.state_or ho.kept with h | ⟨-, h⟩
    · rw [h, hclosed]
    · rw [h, hclosed]
      rfl
  have heof : (f.pass a).conn.bufs.readEof = true :=
    hs.readEof.mpr (Or.inr (Or.inl (by rw [hs.removed, hgone]; rfl)))
  have hne : (f.pass a).conn.bufs.toProxy ≠ [] := by
    intro h
    rw [h] at hfull'
    exact absurd hfull' (by decide)
  have hpoll : (f.pass a).conn.bufs.pollRead remaining =
      ({ (f.pass a).conn.bufs with toProxy := [] }, .ready (f.pass a).conn.bufs.toProxy) := by
    unfold StreamBufs.pollRead
    rw [if_pos hne]
    dsimp only
    rw [Nat.min_eq_left hall, List.drop_length, List.take_length]
  rw [hpass, hread, reportsEof_iff]
  unfold read
  dsimp only
  rw [hpoll]
  refine ⟨⟨rfl, heof⟩, ?_⟩
  show (f.pass a).returned ++ (f.pass a).conn.bufs.toProxy ≠ (f.pass a).received
  rw [horder, List.append_assoc _ _ lost]
  intro h
  have hlen := congrArg List.length h
  have hpos : 0 < (a.rxBuffer (f.pass a).conn.sock).length := List.length_pos_iff.mpr hleft'
  simp only [List.length_append] at hlen
  omega

theorem inbound_stream_sample :
    InboundStream sampleApi (start sampleApi .fresh) [.poll (.data [1, 2]), .pass, .read 1] :=
  inbound_stream sampleApi_lawful rfl (by simp)

end

/-! ## A full queue at the end

Twice the receive buffer fills the queue. The last byte and the FIN come while the reader is
slow, the relay has shut down its half, and the peer acknowledges our FIN. -/

/-- A pass with room for everything, before the relay shut the stream down. -/
theorem pass_drained {Sock Net : Type} {a : TcpApi Sock Net} {f : Flow Sock} (hl : a.Lawful)
    (ho : Ordered a f) (hopen : f.conn.bufs.writeClosed = false) (hsent : f.conn.finSent = false)
    (hstate : a.state f.conn.sock = .established)
    (hfits : Fits f.conn.bufs.toProxy.length (a.rxBuffer f.conn.sock).length) :
    (f.pass a).conn.bufs.toProxy = f.conn.bufs.toProxy ++ a.rxBuffer f.conn.sock ∧
      a.rxBuffer (f.pass a).conn.sock = [] ∧
      a.state (f.pass a).conn.sock = .established ∧
      (f.pass a).conn.bufs.writeClosed = false ∧ (f.pass a).conn.finSent = false ∧
      (f.pass a).gone = false := by
  have hs := serviced hl f.conn
  obtain ⟨moved, rest, hproxy, hsplit, -, hempty, hrx⟩ := hs.inbound
  have hrest := hempty.mpr hfits
  have hno : (serviceConn a f.conn).1.finSent = false := by
    rw [hs.finSent, hsent, hopen]
    rfl
  have hst : a.state (serviceConn a f.conn).1.sock = .established := by
    rcases hs.state_or ho.kept with h | ⟨h, -⟩
    · rw [h, hstate]
    · rw [hno] at h
      cases h
  refine ⟨?_, (hrx ho.kept).trans hrest, hst, hs.writeClosed.trans hopen, hno, ?_⟩
  · show (serviceConn a f.conn).1.bufs.toProxy = _
    rw [hproxy, hsplit, hrest, List.append_nil]
  · show (serviceConn a f.conn).2 = false
    rw [hs.removed, hst]
    rfl

/-- A new connection whose bytes lie in the queue and in the receive buffer. -/
structure Filling (f : Flow SampleSock) (queued rx : Nat) : Prop where
  ordered : Ordered sampleApi f
  live : f.gone = false
  undropped : f.dropped = false
  writeOpen : f.conn.bufs.writeClosed = false
  finUnsent : f.conn.finSent = false
  state : f.conn.sock.state = .established
  queued : f.conn.bufs.toProxy.length = queued
  rx : f.conn.sock.rx.length = rx
  idle : f.conn.bufs.toStack = []

theorem filling_data {f : Flow SampleSock} {queued : Nat} (h : Filling f queued 0) {bs : Bytes}
    (hbs : bs.length ≤ tcpRxBytes) :
    Filling (f.step sampleApi (.poll (.data bs))) queued bs.length := by
  have hnil : f.conn.sock.rx = [] := List.eq_nil_of_length_eq_zero h.rx
  have hstep : f.step sampleApi (.poll (.data bs)) = f.poll sampleApi (.data bs) :=
    if_neg (by rw [h.live]; decide)
  have hfits : f.conn.sock.fits bs = bs := by
    unfold SampleSock.fits
    rw [h.state, if_pos (show TcpState.established.receives = true from rfl), hnil, List.length_nil,
      Nat.sub_zero, List.take_of_length_le hbs]
  rw [hstep]
  refine ⟨ordered_poll sampleApi_lawful h.ordered _, h.live, h.undropped, h.writeOpen,
    h.finUnsent, h.state, h.queued, ?_, h.idle⟩
  show (f.conn.sock.rx ++ f.conn.sock.fits bs).length = bs.length
  rw [hnil, hfits, List.nil_append]

theorem filling_pass {f : Flow SampleSock} {queued rx : Nat} (h : Filling f queued rx)
    (hfits : Fits queued rx) : Filling (f.step sampleApi .pass) (queued + rx) 0 := by
  have hstep : f.step sampleApi (.pass : Event SampleNet) = f.pass sampleApi :=
    if_neg (by rw [h.live]; decide)
  rw [← h.queued, ← h.rx] at hfits
  obtain ⟨hproxy, hrx, hstate, hopen, hsent, hgone⟩ :=
    pass_drained sampleApi_lawful h.ordered h.writeOpen h.finUnsent h.state hfits
  have hidle := (serviced sampleApi_lawful f.conn).toStack
  rw [h.idle, List.drop_nil] at hidle
  rw [hstep]
  refine ⟨ordered_pass sampleApi_lawful h.ordered h.live, hgone, h.undropped, hopen, hsent, hstate,
    ?_, ?_, hidle⟩
  · rw [hproxy, List.length_append, h.queued]
    rw [← h.rx]
    rfl
  · show (sampleApi.rxBuffer (f.pass sampleApi).conn.sock).length = 0
    rw [hrx]
    rfl

/-- Deliveries that nobody reads; `block` is as much as the receive buffer holds. -/
def slowReader (block : Bytes) : List (Event SampleNet) :=
  [.poll (.data block), .pass, .poll (.data block), .pass, .poll (.data [1])]

theorem slowReader_fills {block : Bytes} (hblock : block.length = tcpRxBytes) :
    Filling ((slowReader block).foldl (step sampleApi) (start sampleApi .fresh))
      streamQueueMax 1 := by
  have h0 : Filling (start sampleApi .fresh) 0 0 :=
    ⟨ordered_start rfl, rfl, rfl, rfl, rfl, rfl, rfl, rfl, rfl⟩
  have h1 := filling_pass (filling_data h0 hblock.le) (by rw [hblock]; unfold Fits; decide)
  have h2 := filling_pass (filling_data h1 hblock.le) (by rw [hblock]; unfold Fits; decide)
  have h3 := filling_data h2 (show ([1] : Bytes).length ≤ tcpRxBytes by decide)
  rw [hblock, show 0 + tcpRxBytes + tcpRxBytes = streamQueueMax from rfl] at h3
  exact h3

/-- The peer's FIN, ours, and its acknowledgement. -/
def closing : List (Event SampleNet) := [.poll .fin, .shutdown, .pass, .poll .finAcked]

/-- A connection that closed with bytes in its receive buffer. -/
structure Stuck (f : Flow SampleSock) : Prop where
  ordered : Ordered sampleApi f
  live : f.gone = false
  held : f.dropped = false
  fin : f.fin = true
  state : f.conn.sock.state = .closed
  full : streamQueueMax ≤ f.conn.bufs.toProxy.length
  left : f.conn.sock.rx ≠ []

theorem closing_stuck {f : Flow SampleSock} (h : Filling f streamQueueMax 1) :
    Stuck (closing.foldl (step sampleApi) f) := by
  have hl := sampleApi_lawful
  -- the FIN, and the relay's shutdown
  let f2 := (f.poll sampleApi .fin).shutdown
  have h1 : f.step sampleApi (.poll .fin) = f.poll sampleApi .fin :=
    if_neg (by rw [h.live]; decide)
  have h2 : (f.poll sampleApi .fin).step sampleApi .shutdown = f2 :=
    if_neg (by rw [show (f.poll sampleApi .fin).dropped = f.dropped from rfl, h.undropped]; decide)
  have hlive : f2.gone = false := h.live
  have ho : Ordered sampleApi f2 := by
    rw [← h2]
    exact ordered_step hl (ordered_poll hl h.ordered .fin) nofun
  have hstate : f2.conn.sock.state = .closeWait := by
    show f.conn.sock.state.afterFin = .closeWait
    rw [h.state]
    rfl
  have hfull : streamQueueMax ≤ f2.conn.bufs.toProxy.length := h.queued.ge
  have hleft : f2.conn.sock.rx ≠ [] := by
    show f.conn.sock.rx ≠ []
    exact List.ne_nil_of_length_pos (by rw [h.rx]; decide)
  -- the pass that sends our FIN, and its acknowledgement
  have h3 : f2.step sampleApi (.pass : Event SampleNet) = f2.pass sampleApi :=
    if_neg (by rw [hlive]; decide)
  have hs := serviced hl f2.conn
  have hidle : (serviceConn sampleApi f2.conn).1.bufs.toStack = [] := by
    rw [hs.toStack, show f2.conn.bufs.toStack = [] from h.idle, List.drop_nil]
  have hlast : (serviceConn sampleApi f2.conn).1.sock.state = .lastAck := by
    have hst := hs.state ho.kept
    rw [hidle, show f2.conn.bufs.writeClosed = true from rfl,
      show f2.conn.finSent = false from h.finUnsent] at hst
    rw [show (serviceConn sampleApi f2.conn).1.sock.state =
      (sampleApi.state f2.conn.sock).afterClose from hst]
    show f2.conn.sock.state.afterClose = .lastAck
    rw [hstate]
    rfl
  have hlive3 : (f2.pass sampleApi).gone = false := by
    show (serviceConn sampleApi f2.conn).2 = false
    rw [hs.removed]
    show decide ((serviceConn sampleApi f2.conn).1.sock.state = .closed) = false
    rw [hlast]
    rfl
  obtain ⟨hfull3, hleft3⟩ := full_pass hl ho hfull hleft
  have h4 : (f2.pass sampleApi).step sampleApi (.poll .finAcked) =
      (f2.pass sampleApi).poll sampleApi .finAcked := if_neg (by rw [hlive3]; decide)
  have hrun : closing.foldl (step sampleApi) f = (f2.pass sampleApi).poll sampleApi .finAcked := by
    show (((f.step sampleApi (.poll .fin)).step sampleApi .shutdown).step sampleApi .pass).step
      sampleApi (.poll .finAcked) = _
    rw [h1, h2, h3, h4]
  rw [hrun]
  refine ⟨ordered_poll hl (ordered_pass hl ho hlive) .finAcked, hlive3, h.undropped, ?_, ?_, hfull3,
    hleft3⟩
  · show ((f.fin || f.conn.sock.state.receives) || false) = true
    rw [h.state]
    simp [TcpState.receives]
  · show (serviceConn sampleApi f2.conn).1.sock.state.afterFinAcked = .closed
    rw [hlast]
    rfl

/-- The whole run, with a last read that takes the whole queue. -/
def slowRun (block : Bytes) : List (Event SampleNet) :=
  slowReader block ++ closing ++ [.pass, .read (streamQueueMax + pumpChunk)]

theorem slowRun_truncates {block : Bytes} (hblock : block.length = tcpRxBytes) :
    ((slowRun block).foldl (step sampleApi) (start sampleApi .fresh)).fin = true ∧
      ReportsEof ((slowRun block).foldl (step sampleApi) (start sampleApi .fresh)) ∧
      ((slowRun block).foldl (step sampleApi) (start sampleApi .fresh)).returned ≠
        ((slowRun block).foldl (step sampleApi) (start sampleApi .fresh)).received := by
  have hstuck := closing_stuck (slowReader_fills hblock)
  unfold slowRun
  rw [List.foldl_append, List.foldl_append]
  generalize closing.foldl (step sampleApi) _ = f at *
  have hpass : f.step sampleApi (.pass : Event SampleNet) = f.pass sampleApi :=
    if_neg (by rw [hstuck.live]; decide)
  obtain ⟨heof, hne⟩ := closed_truncates sampleApi_lawful hstuck.ordered hstuck.live hstuck.held
    hstuck.state hstuck.full hstuck.left (ordered_pass sampleApi_lawful hstuck.ordered
      hstuck.live).bounded
  refine ⟨?_, heof, hne⟩
  show ((f.step sampleApi .pass).step sampleApi (.read _)).fin = true
  rw [hpass, show (f.pass sampleApi).step sampleApi (.read (streamQueueMax + pumpChunk)) =
    (f.pass sampleApi).read _ from if_neg (by
      rw [show (f.pass sampleApi).dropped = f.dropped from rfl, hstuck.held]
      decide)]
  exact hstuck.fin

/-- The reader sees the end of the stream without the last byte. -/
theorem eof_before_last_byte : ∃ block : Bytes, block.length = tcpRxBytes ∧
    Event.drop ∉ slowRun block ∧
    ((slowRun block).foldl (step sampleApi) (start sampleApi .fresh)).fin = true ∧
    ReportsEof ((slowRun block).foldl (step sampleApi) (start sampleApi .fresh)) ∧
    ((slowRun block).foldl (step sampleApi) (start sampleApi .fresh)).returned ≠
      ((slowRun block).foldl (step sampleApi) (start sampleApi .fresh)).received :=
  ⟨List.replicate tcpRxBytes 0, List.length_replicate, by simp [slowRun, slowReader, closing],
    slowRun_truncates List.length_replicate⟩

end Flow

end RustCrash.Tun
