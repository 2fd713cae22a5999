import RustCrash.Error

/-
  Packets over a TCP link, `Link::read_packet`, inside the loop of `run_client`.

  What a read has taken off the stream lives in its future, and the loop drops the future whenever
  a command, a wake-up or the timer comes first. The packets that the client gets are the framed
  ones if and only if no future is dropped that has taken something (`packets_framed_iff`).
-/

namespace RustCrash.OpenVpn

open Lib

/-! ## The read -/

/-- A call of `read_packet` that is not through: the length, or the packet behind it. -/
inductive ReadFuture where
  | len (got : Bytes)
  | body (size : Nat) (got : Bytes)

/-- The buffer of `run_client`. -/
def rxLen : Nat := 65536

inductive ReadPoll where
  | ready (packet rest : Bytes)
  | pending (future : ReadFuture)
  | failed (e : Error)

namespace ReadFuture

def fresh : ReadFuture := len []

/-- What the read took off the stream. -/
def taken : ReadFuture → Bytes
  | len got => got
  | body size got => be16 (UInt16.ofNat size) ++ got

def pollBody (size : Nat) (got inbox : Bytes) : ReadPoll :=
  let n := size - got.length
  if inbox.length < n then .pending (.body size (got ++ inbox))
  else .ready (got ++ inbox.take n) (inbox.drop n)

/-- `inbox` is what the socket has. -/
def poll (f : ReadFuture) (inbox : Bytes) : ReadPoll :=
  match f with
  | body size got => pollBody size got inbox
  | len got =>
    let n := 2 - got.length
    if inbox.length < n then .pending (.len (got ++ inbox))
    else
      let size := (ofBE16 (got ++ inbox.take n)).toNat
      if size = 0 then .failed (.network "empty openvpn TCP packet")
      else if rxLen < size then .failed (.network "openvpn TCP packet too large")
      else pollBody size [] (inbox.drop n)

end ReadFuture

/-! ## The loop -/

/-- What is there when the loop is polled: new bytes on the socket, and which of the other branches
    are ready. -/
structure LoopPoll where
  arrived : Bytes
  cmd : Bool
  wake : Bool
  timer : Bool

/-- The loop, with the packets that `on_packet` got. -/
structure ClientLoop where
  future : ReadFuture
  inbox : Bytes
  packets : List Bytes
  failed : Option Error

namespace ClientLoop

def start : ClientLoop := ⟨.fresh, [], [], none⟩

/-- The branches in their order; one that is through ends this turn of the loop, and the read of the
    next turn is a new one. -/
def poll (s : ClientLoop) (e : LoopPoll) : ClientLoop :=
  if s.failed ≠ none then s
  else
    let inbox := s.inbox ++ e.arrived
    if e.cmd ∨ e.wake then { s with inbox, future := .fresh }
    else
      match s.future.poll inbox with
      | .ready packet rest =>
        { s with future := .fresh, inbox := rest, packets := s.packets ++ [packet] }
      | .failed e => { s with inbox := [], failed := some e }
      | .pending future =>
        { s with inbox := [], future := if e.timer then .fresh else future }

def run (s : ClientLoop) (events : List LoopPoll) : ClientLoop := events.foldl poll s

/-- Only the socket. -/
def quiet : LoopPoll := ⟨[], false, false, false⟩

/-- All that arrives. -/
def arrivals (events : List LoopPoll) : Bytes := events.flatMap LoopPoll.arrived

/-- `write_packet` of the server. -/
def frame (packet : Bytes) : Bytes := be16 (UInt16.ofNat packet.length) ++ packet

def wire (packets : List Bytes) : Bytes := packets.flatMap frame

/-- A packet that a frame can hold. -/
def Frames (packets : List Bytes) : Prop := ∀ p ∈ packets, p ≠ [] ∧ p.length ≤ 65535

/-- The client gets exactly these packets, after what has happened, once nothing else comes. -/
def Delivers (events : List LoopPoll) (packets : List Bytes) : Prop :=
  ∃ n, ∀ k, n ≤ k → (start.run (events ++ List.replicate k quiet)).packets = packets

/-- This poll drops a read that has taken something. -/
def Drops (s : ClientLoop) (e : LoopPoll) : Prop :=
  s.failed = none ∧
    if e.cmd ∨ e.wake then s.future.taken ≠ []
    else e.timer = true ∧
      ∃ future, s.future.poll (s.inbox ++ e.arrived) = .pending future ∧ future.taken ≠ []

def NeverDrops : ClientLoop → List LoopPoll → Prop
  | _, [] => True
  | s, e :: events => ¬ s.Drops e ∧ NeverDrops (s.poll e) events

theorem run_append (s : ClientLoop) (xs ys : List LoopPoll) :
    s.run (xs ++ ys) = (s.run xs).run ys := List.foldl_append

theorem run_cons (s : ClientLoop) (e : LoopPoll) (events : List LoopPoll) :
    s.run (e :: events) = (s.poll e).run events := rfl

/-! ## What is lost -/

/-- The bytes that came out, and those that are still there. -/
def kept (s : ClientLoop) : Nat := (wire s.packets).length + s.future.taken.length + s.inbox.length

theorem kept_mk (future : ReadFuture) (inbox : Bytes) (packets : List Bytes)
    (failed : Option Error) : kept ⟨future, inbox, packets, failed⟩ =
      (wire packets).length + future.taken.length + inbox.length := rfl

theorem length_frame {p : Bytes} : (frame p).length = 2 + p.length := by
  unfold frame
  rw [List.length_append, length_be16]

theorem length_wire_append (ps : List Bytes) (p : Bytes) :
    (wire (ps ++ [p])).length = (wire ps).length + (2 + p.length) := by
  unfold wire
  rw [List.flatMap_append, List.length_append, List.flatMap_singleton, length_frame]

end ClientLoop

namespace ReadFuture

open ClientLoop

/-- A read between two polls: less than it wants. -/
def Waits : ReadFuture → Prop
  | len got => got.length < 2
  | body size got => got.length < size ∧ size ≤ 65535

theorem waits_fresh : fresh.Waits := Nat.zero_lt_two

/-- A poll keeps every byte, in the future or in the packet and behind it. -/
inductive Polled (taken inbox : Bytes) : ReadPoll → Prop
  | pending {f : ReadFuture} (hwaits : f.Waits) (htaken : f.taken = taken ++ inbox) :
      Polled taken inbox (.pending f)
  | ready {packet rest : Bytes} (hne : packet ≠ []) (hfits : packet.length ≤ 65535)
      (hbytes : taken ++ inbox = frame packet ++ rest) : Polled taken inbox (.ready packet rest)
  | failed {e : Error} {rest : Bytes} (hbytes : taken ++ inbox = be16 0 ++ rest) :
      Polled taken inbox (.failed e)

theorem pollBody_polled {size : Nat} (got inbox : Bytes) (h : got.length < size)
    (hsize : size ≤ 65535) :
    Polled (be16 (UInt16.ofNat size) ++ got) inbox (pollBody size got inbox) := by
  unfold pollBody
  dsimp only
  by_cases hshort : inbox.length < size - got.length
  · rw [if_pos hshort]
    refine .pending ⟨?_, hsize⟩ (List.append_assoc _ _ _).symm
    rw [List.length_append]
    omega
  · rw [if_neg hshort]
    have hlen : (got ++ inbox.take (size - got.length)).length = size := by
      rw [List.length_append, List.length_take]
      omega
    refine .ready (List.ne_nil_of_length_pos (by omega)) (by omega) ?_
    unfold frame
    rw [hlen, List.append_assoc, List.append_assoc, List.append_assoc, List.take_append_drop]

theorem poll_polled {f : ReadFuture} (h : f.Waits) (inbox : Bytes) :
    Polled f.taken inbox (f.poll inbox) := by
  cases f with
  | body size got => exact pollBody_polled got inbox h.1 h.2
  | len got =>
    have hgot : got.length < 2 := h
    unfold poll
    dsimp only
    by_cases hshort : inbox.length < 2 - got.length
    · rw [if_pos hshort]
      have hwaits : (got ++ inbox).length < 2 := by
        rw [List.length_append]
        omega
      exact .pending hwaits rfl
    · rw [if_neg hshort]
      have hlen : (got ++ inbox.take (2 - got.length)).length = 2 := by
        rw [List.length_append, List.length_take]
        omega
      have hsplit : got ++ inbox =
          (got ++ inbox.take (2 - got.length)) ++ inbox.drop (2 - got.length) := by
        rw [List.append_assoc, List.take_append_drop]
      have hlt := (ofBE16 (got ++ inbox.take (2 - got.length))).toNat_lt
      by_cases hzero : (ofBE16 (got ++ inbox.take (2 - got.length))).toNat = 0
      · rw [if_pos hzero]
        have hz : ofBE16 (got ++ inbox.take (2 - got.length)) = 0 := UInt16.toNat_inj.mp hzero
        have hbytes : got ++ inbox = be16 0 ++ inbox.drop (2 - got.length) := by
          rw [hsplit, ← hz, be16_ofBE16 hlen]
        exact .failed hbytes
      · rw [if_neg hzero, if_neg (by unfold rxLen; omega)]
        have hbody := pollBody_polled [] (inbox.drop (2 - got.length))
          (Nat.pos_of_ne_zero hzero) (by omega)
        rw [UInt16.ofNat_toNat, be16_ofBE16 hlen, List.append_nil] at hbody
        generalize pollBody _ [] (inbox.drop (2 - got.length)) = result at hbody
        cases hbody with
        | pending hwaits htaken => exact .pending hwaits (htaken.trans hsplit.symm)
        | ready hne hfits hbytes => exact .ready hne hfits (hsplit.trans hbytes)
        | failed hbytes => exact .failed (hsplit.trans hbytes)

end ReadFuture

namespace ClientLoop

variable {s : ClientLoop} {e : LoopPoll}

/-- No byte comes from nowhere, and a dropped read loses some. -/
theorem poll_kept (h : s.future.Waits) :
    (s.poll e).future.Waits ∧ (s.poll e).kept ≤ s.kept + e.arrived.length ∧
      (s.Drops e → (s.poll e).kept < s.kept + e.arrived.length) := by
  have hs : s.kept = (wire s.packets).length + s.future.taken.length + s.inbox.length := rfl
  have hfresh : ReadFuture.fresh.taken.length = 0 := rfl
  have hpos : ∀ {bs : Bytes}, bs ≠ [] → 0 < bs.length := List.length_pos_of_ne_nil
  unfold poll Drops
  by_cases hfailed : s.failed = none
  swap
  · rw [if_pos hfailed]
    exact ⟨h, Nat.le_add_right _ _, fun hdrops => absurd hdrops.1 hfailed⟩
  rw [if_neg (not_not.mpr hfailed)]
  dsimp only
  by_cases hother : e.cmd ∨ e.wake
  · rw [if_pos hother, if_pos hother]
    rw [kept_mk, List.length_append, hfresh]
    refine ⟨ReadFuture.waits_fresh, by omega, fun hdrops => ?_⟩
    have := hpos hdrops.2
    omega
  rw [if_neg hother, if_neg hother]
  have hpolled := ReadFuture.poll_polled h (s.inbox ++ e.arrived)
  generalize s.future.poll (s.inbox ++ e.arrived) = result at hpolled
  cases hpolled with
  | @pending f hwaits htaken =>
    have hlen := congrArg List.length htaken
    rw [List.length_append, List.length_append] at hlen
    dsimp only
    by_cases htimer : e.timer = true
    · rw [if_pos htimer]
      rw [kept_mk, hfresh, List.length_nil]
      refine ⟨ReadFuture.waits_fresh, by omega, fun hdrops => ?_⟩
      obtain ⟨-, -, f', hf', hne⟩ := hdrops
      cases hf'
      have := hpos hne
      omega
    · rw [if_neg htimer]
      refine ⟨hwaits, ?_, fun hdrops => absurd hdrops.2.1 htimer⟩
      rw [kept_mk, hlen, List.length_nil]
      omega
  | @ready packet rest hne hfits hbytes =>
    have hlen := congrArg List.length hbytes
    rw [List.length_append, List.length_append, List.length_append, length_frame] at hlen
    refine ⟨ReadFuture.waits_fresh, ?_, fun hdrops => ?_⟩
    · rw [kept_mk, length_wire_append, hfresh]
      omega
    · obtain ⟨-, -, f', hf', -⟩ := hdrops
      cases hf'
  | failed hbytes =>
    refine ⟨h, ?_, fun hdrops => ?_⟩
    · rw [kept_mk, List.length_nil]
      omega
    · obtain ⟨-, -, f', hf', -⟩ := hdrops
      cases hf'

theorem arrivals_cons (e : LoopPoll) (events : List LoopPoll) :
    (arrivals (e :: events)).length = e.arrived.length + (arrivals events).length := by
  unfold arrivals
  rw [List.flatMap_cons, List.length_append]

theorem run_kept (events : List LoopPoll) (h : s.future.Waits) :
    (s.run events).future.Waits ∧ (s.run events).kept ≤ s.kept + (arrivals events).length ∧
      (¬ s.NeverDrops events → (s.run events).kept < s.kept + (arrivals events).length) := by
  induction events generalizing s with
  | nil => exact ⟨h, Nat.le_refl _, fun hnot => absurd trivial hnot⟩
  | cons e events ih =>
    obtain ⟨hwaits, hle, hlt⟩ := poll_kept (e := e) h
    obtain ⟨hwaits', hle', hlt'⟩ := ih hwaits
    rw [run_cons, arrivals_cons]
    refine ⟨hwaits', by omega, fun hnot => ?_⟩
    unfold NeverDrops at hnot
    by_cases hdrops : s.Drops e
    · have := hlt hdrops
      omega
    · have := hlt' fun hnever => hnot ⟨hdrops, hnever⟩
      omega

/-! ## What comes out -/

/-- The loop is inside the wire of `rest`, of which `todo` is still to arrive. -/
structure Follows (s : ClientLoop) (todo : Bytes) (rest : List Bytes) : Prop where
  failed : s.failed = none
  waits : s.future.Waits
  frames : Frames rest
  bytes : s.future.taken ++ s.inbox ++ todo = wire rest

theorem frame_inj {p q xs ys : Bytes} (hp : p.length ≤ 65535) (hq : q.length ≤ 65535)
    (h : frame p ++ xs = frame q ++ ys) : p = q ∧ xs = ys := by
  unfold frame at h
  rw [List.append_assoc, List.append_assoc] at h
  obtain ⟨hlen, hrest⟩ := List.append_inj h (by rw [length_be16, length_be16])
  have hsame := congrArg (fun bs => (ofBE16 bs).toNat) hlen
  rw [ofBE16_be16, ofBE16_be16, UInt16.toNat_ofNat_of_lt' (Nat.lt_succ_of_le hp),
    UInt16.toNat_ofNat_of_lt' (Nat.lt_succ_of_le hq)] at hsame
  exact List.append_inj hrest hsame

theorem wire_cons (p : Bytes) (ps : List Bytes) : wire (p :: ps) = frame p ++ wire ps :=
  List.flatMap_cons

variable {rest : List Bytes} {events : List LoopPoll}

/-- A wire that begins with a frame is that of this packet and others. -/
theorem wire_ready (hframes : Frames rest) {p more : Bytes} (hfits : p.length ≤ 65535)
    (h : wire rest = frame p ++ more) : ∃ rest', rest = p :: rest' ∧ wire rest' = more := by
  cases rest with
  | nil =>
    have hlen := congrArg List.length h
    rw [List.length_append, length_frame] at hlen
    exact absurd hlen (by unfold wire; rw [List.flatMap_nil, List.length_nil]; omega)
  | cons q rest' =>
    rw [wire_cons] at h
    obtain ⟨rfl, hrest⟩ := frame_inj (hframes q List.mem_cons_self).2 hfits h
    exact ⟨rest', rfl, hrest⟩

/-- None begins with a length of zero. -/
theorem wire_not_empty (hframes : Frames rest) {more : Bytes} : wire rest ≠ be16 0 ++ more := by
  intro h
  obtain ⟨rest', rfl, -⟩ := wire_ready (p := []) hframes (Nat.zero_le _) h
  exact (hframes [] List.mem_cons_self).1 rfl

theorem Follows.poll {todo : Bytes} (h : s.Follows (e.arrived ++ todo) rest) (hdrops : ¬ s.Drops e) :
    ∃ done rest', rest = done ++ rest' ∧ (s.poll e).packets = s.packets ++ done ∧
      (s.poll e).Follows todo rest' := by
  unfold Drops at hdrops
  unfold ClientLoop.poll
  rw [if_neg (not_not.mpr h.failed)]
  have hbytes := h.bytes
  rw [List.append_assoc] at hbytes
  by_cases hother : e.cmd ∨ e.wake
  · rw [if_pos hother] at hdrops ⊢
    have htaken : s.future.taken = [] := not_not.mp fun hne => hdrops ⟨h.failed, hne⟩
    refine ⟨[], rest, rfl, (List.append_nil _).symm, h.failed, ReadFuture.waits_fresh, h.frames, ?_⟩
    rw [← hbytes, htaken, ← List.append_assoc s.inbox, ← List.append_assoc]
    rfl
  rw [if_neg hother] at hdrops ⊢
  have hpolled := ReadFuture.poll_polled h.waits (s.inbox ++ e.arrived)
  generalize s.future.poll (s.inbox ++ e.arrived) = result at hpolled hdrops
  rw [← List.append_assoc s.inbox, ← List.append_assoc] at hbytes
  cases hpolled with
  | @pending f hwaits htaken =>
    dsimp only
    refine ⟨[], rest, rfl, (List.append_nil _).symm, h.failed, ?_, h.frames, ?_⟩
    · dsimp only
      split_ifs
      · exact ReadFuture.waits_fresh
      · exact hwaits
    · rw [← hbytes, ← htaken]
      dsimp only
      rw [List.append_nil]
      by_cases htimer : e.timer = true
      · have hnil : f.taken = [] :=
          not_not.mp fun hne => hdrops ⟨h.failed, htimer, f, rfl, hne⟩
        rw [if_pos htimer, hnil]
        rfl
      · rw [if_neg htimer]
  | @ready packet more hne hfits hsplit =>
    rw [hsplit, List.append_assoc] at hbytes
    obtain ⟨rest', rfl, hrest⟩ := wire_ready h.frames hfits hbytes.symm
    exact ⟨[packet], rest', rfl, rfl, h.failed, ReadFuture.waits_fresh,
      fun p hp => h.frames p (List.mem_cons_of_mem _ hp), hrest.symm⟩
  | failed hsplit =>
    rw [hsplit, List.append_assoc] at hbytes
    exact absurd hbytes.symm (wire_not_empty h.frames)

theorem Follows.run {todo : Bytes} (h : s.Follows (arrivals events ++ todo) rest)
    (hnever : s.NeverDrops events) :
    ∃ done rest', rest = done ++ rest' ∧ (s.run events).packets = s.packets ++ done ∧
      (s.run events).Follows todo rest' := by
  induction events generalizing s rest with
  | nil => exact ⟨[], rest, rfl, (List.append_nil _).symm, h⟩
  | cons e events ih =>
    unfold arrivals at h
    rw [List.flatMap_cons, List.append_assoc] at h
    obtain ⟨done, rest₁, rfl, hpackets, h₁⟩ := h.poll hnever.1
    obtain ⟨done', rest₂, rfl, hpackets', h₂⟩ := ih h₁ hnever.2
    refine ⟨done ++ done', rest₂, (List.append_assoc _ _ _).symm, ?_, h₂⟩
    rw [run_cons, hpackets', hpackets, List.append_assoc]

theorem quiet_keeps (s : ClientLoop) : ¬ s.Drops quiet := by
  rintro ⟨-, h⟩
  rw [if_neg (by decide)] at h
  cases h.1

/-- A read that has the whole wire is not kept waiting. -/
theorem Follows.quiet_ready {p : Bytes} (h : s.Follows [] (p :: rest)) :
    (s.poll quiet).packets = s.packets ++ [p] ∧ (s.poll quiet).Follows [] rest := by
  obtain ⟨hne, hfits⟩ := h.frames p List.mem_cons_self
  have hbytes := h.bytes
  rw [List.append_nil, wire_cons] at hbytes
  unfold ClientLoop.poll
  rw [if_neg (not_not.mpr h.failed)]
  have hother : ¬ (quiet.cmd = true ∨ quiet.wake = true) := by decide
  have hinbox : s.inbox ++ quiet.arrived = s.inbox := List.append_nil _
  rw [if_neg hother, hinbox]
  have hpolled := ReadFuture.poll_polled h.waits s.inbox
  generalize s.future.poll s.inbox = result at hpolled
  cases hpolled with
  | @pending f hwaits htaken =>
    rw [← htaken] at hbytes
    exfalso
    cases f with
    | len got =>
      have hlen := congrArg List.length hbytes
      rw [List.length_append, length_frame] at hlen
      have hgot : got.length < 2 := hwaits
      have hsame : (ReadFuture.len got).taken.length = got.length := rfl
      omega
    | body size got =>
      unfold ReadFuture.taken frame at hbytes
      rw [List.append_assoc] at hbytes
      obtain ⟨hsize, hgot⟩ := List.append_inj hbytes (by rw [length_be16, length_be16])
      have hsame := congrArg (fun bs => (ofBE16 bs).toNat) hsize
      rw [ofBE16_be16, ofBE16_be16, UInt16.toNat_ofNat_of_lt' (Nat.lt_succ_of_le hwaits.2),
        UInt16.toNat_ofNat_of_lt' (Nat.lt_succ_of_le hfits)] at hsame
      have hlen := congrArg List.length hgot
      rw [List.length_append] at hlen
      have := hwaits.1
      omega
  | @ready packet more _ hfits' hsplit =>
    rw [hbytes] at hsplit
    obtain ⟨rfl, hmore⟩ := frame_inj hfits hfits' hsplit
    refine ⟨rfl, h.failed, ReadFuture.waits_fresh,
      fun q hq => h.frames q (List.mem_cons_of_mem _ hq), ?_⟩
    rw [hmore]
    exact List.append_nil _
  | failed hsplit =>
    rw [hbytes, ← wire_cons] at hsplit
    exact absurd hsplit (wire_not_empty h.frames)

theorem Follows.quiet_done (h : s.Follows [] []) :
    (s.poll quiet).packets = s.packets ∧ (s.poll quiet).Follows [] [] := by
  obtain ⟨done, rest', hnil, hpackets, h'⟩ := h.poll (e := quiet) (quiet_keeps s)
  obtain ⟨rfl, rfl⟩ := List.append_eq_nil_iff.mp hnil.symm
  rw [List.append_nil] at hpackets
  exact ⟨hpackets, h'⟩

theorem Follows.settles (h : s.Follows [] rest) {k : Nat} (hk : rest.length ≤ k) :
    (s.run (List.replicate k quiet)).packets = s.packets ++ rest := by
  induction k generalizing s rest with
  | zero =>
    rw [List.eq_nil_of_length_eq_zero (Nat.le_zero.mp hk), List.append_nil]
    rfl
  | succ k ih =>
    rw [List.replicate_succ, run_cons]
    cases rest with
    | nil =>
      obtain ⟨hpackets, h'⟩ := h.quiet_done
      rw [ih h' (Nat.zero_le k), hpackets]
    | cons p rest =>
      obtain ⟨hpackets, h'⟩ := h.quiet_ready
      rw [ih h' (Nat.le_of_succ_le_succ hk), hpackets, List.append_assoc]
      rfl

theorem arrivals_quiet (k : Nat) : (arrivals (List.replicate k quiet)).length = 0 := by
  induction k with
  | zero => rfl
  | succ k ih =>
    rw [List.replicate_succ, arrivals_cons, ih]
    rfl

theorem neverDrops_of_delivers {packets : List Bytes} (harrived : arrivals events = wire packets)
    (h : Delivers events packets) : start.NeverDrops events := by
  obtain ⟨n, hn⟩ := h
  by_contra hnot
  have hgot := hn n (Nat.le_refl n)
  obtain ⟨hwaits, -, hlt⟩ := run_kept events (s := start) ReadFuture.waits_fresh
  obtain ⟨-, hle, -⟩ := run_kept (List.replicate n quiet) hwaits
  have hlost := hlt hnot
  rw [← run_append, arrivals_quiet] at hle
  have hkept : (wire packets).length ≤ (start.run (events ++ List.replicate n quiet)).kept := by
    unfold kept
    rw [hgot]
    omega
  rw [harrived] at hlost
  have hstart : start.kept = 0 := rfl
  omega

theorem delivers_of_neverDrops {packets : List Bytes} (hframes : Frames packets)
    (harrived : arrivals events = wire packets) (hnever : start.NeverDrops events) :
    Delivers events packets := by
  have hstart : start.Follows (arrivals events ++ []) packets :=
    ⟨rfl, ReadFuture.waits_fresh, hframes, by rw [List.append_nil]; exact harrived⟩
  obtain ⟨done, rest, rfl, hpackets, h⟩ := hstart.run hnever
  refine ⟨rest.length, fun k hk => ?_⟩
  rw [run_append, h.settles hk, hpackets]
  rfl

/-- However the bytes arrive and whatever else happens, the client gets exactly the framed packets if
    and only if no read is dropped that has taken something. -/
theorem packets_framed_iff (packets : List Bytes) (events : List LoopPoll)
    (hframes : Frames packets) (harrived : arrivals events = wire packets) :
    Delivers events packets ↔ start.NeverDrops events :=
  ⟨neverDrops_of_delivers harrived, delivers_of_neverDrops hframes harrived⟩

/-! ## A wake-up inside a packet -/

def segment (bs : Bytes) : LoopPoll := ⟨bs, false, false, false⟩

theorem frames_sample : Frames [[7]] := by
  intro p hp
  rw [List.mem_singleton.mp hp]
  exact ⟨by decide, by decide⟩

theorem packets_framed_sample :
    Delivers [segment [0], segment [1, 7]] [[7]] ↔
      start.NeverDrops [segment [0], segment [1, 7]] :=
  packets_framed_iff [[7]] [segment [0], segment [1, 7]] frames_sample (by decide)

/-- The first byte of the length is lost with the read that took it. -/
theorem wake_loses_framing :
    ¬ Delivers [segment [0], ⟨[], false, true, false⟩, segment [1, 7]] [[7]] := by
  intro h
  have hnever := neverDrops_of_delivers (by decide) h
  exact hnever.2.1 ⟨rfl, (if_pos (.inr rfl)).mpr (by decide)⟩

end ClientLoop

end RustCrash.OpenVpn
