import RustCrash.Tun.Listeners

/-
  The poll of a staged batch, and the batches whose SYNs all find a listening socket.

  A SYN takes at most one listening socket, and one on its own port (`listening_pollAll`). So a port
  that starts with as many as a batch leaves still has one for a SYN that comes behind fewer.
-/

namespace RustCrash.Tun

open Lib

section

variable {opens : Bytes → Bool} {p : Poller}

/-! ## What the SYNs take -/

theorem countP_le_of_get {α : Type} {q : α → Bool} {xs ys : List α}
    (h : ∀ (k : Nat) a, xs[k]? = some a → q a = true → ys[k]? = some a) :
    xs.countP q ≤ ys.countP q := by
  induction xs generalizing ys with
  | nil => exact Nat.zero_le _
  | cons x xs ih =>
    have hrest : xs.countP q ≤ ys.tail.countP q := by
      refine ih fun k a hk ha => ?_
      rw [List.getElem?_tail]
      exact h (k + 1) a hk ha
    cases hx : q x with
    | false =>
      rw [List.countP_cons_of_neg (by rw [hx]; nofun)]
      exact le_trans hrest (List.Sublist.countP_le (List.tail_sublist ys))
    | true =>
      have hhead : ys[0]? = some x := h 0 x rfl hx
      cases ys with
      | nil => cases hhead
      | cons y ys =>
        cases hhead
        rw [List.countP_cons_of_pos hx, List.countP_cons_of_pos hx]
        exact Nat.succ_le_succ hrest

theorem listening_work (hp : p.Lawful) (port : UInt16) (socks : List Socket) (pkt : Bytes) :
    listening port socks ≤ listening port (p.work socks pkt) := by
  refine countP_le_of_get fun k s hk hs => ?_
  unfold Socket.listensOn at hs
  rw [decide_eq_true_eq] at hs
  exact hp.work_listens socks pkt k s hk hs.1

theorem handshaking_silent (src dst : SocketAddr) (port port' : UInt16) :
    (handshaking src dst port').listensOn port = false := by
  unfold Socket.listensOn handshaking
  simp

variable {src dst : SocketAddr}

theorem boundTo_state {s : Socket} (h : s.boundTo src dst = true) : s.1.state ≠ .listen := by
  unfold Socket.boundTo at h
  rw [decide_eq_true_eq] at h
  exact h.1

theorem accepts_listening {s : Socket} (h : s.accepts src dst = true)
    (hlisten : s.1.state = .listen) : s.2 = dst.port := by
  unfold Socket.accepts at h
  rw [Bool.or_eq_true] at h
  rcases h with h | h
  · unfold Socket.listensOn at h
    rw [decide_eq_true_eq] at h
    exact h.2
  · exact absurd hlisten (boundTo_state h)

/-- A SYN takes one listening socket of its port, if it takes any. -/
theorem listening_dispatch (hp : p.Lawful) (port : UInt16) (socks : List Socket)
    (src dst : SocketAddr) :
    listening port socks ≤
      listening port (dispatch p socks src dst).1 + if dst.port = port then 1 else 0 := by
  unfold dispatch
  split
  · exact Nat.le_add_right _ _
  · next k hk =>
    obtain ⟨s, hs, hacc⟩ := hp.pick_some socks src dst k hk
    rw [hs]
    dsimp only
    split_ifs with hlisten hport hport
    · unfold listening
      obtain ⟨hlt, _⟩ := List.getElem?_eq_some_iff.mp hs
      rw [List.countP_set hlt, handshaking_silent]
      split_ifs <;> omega
    · unfold listening
      obtain ⟨hlt, hget⟩ := List.getElem?_eq_some_iff.mp hs
      have hother : ¬ socks[k].listensOn port = true := by
        rw [hget]
        unfold Socket.listensOn
        rw [decide_eq_true_eq, accepts_listening hacc hlisten]
        exact fun h => hport h.2
      rw [List.countP_set hlt, if_neg hother]
      exact Nat.le_add_right _ _
    · exact Nat.le_add_right _ _
    · exact Nat.le_refl _

theorem opening_syns {pkt : Bytes} {pkts : List Bytes} :
    syns opens (pkt :: pkts) = (opening opens pkt).toList ++ syns opens pkts := by
  rw [← List.singleton_append, syns_append, syns_singleton]

theorem synsTo_cons (port : UInt16) (e : SocketAddr × SocketAddr)
    (es : List (SocketAddr × SocketAddr)) :
    synsTo port (e :: es) = synsTo port es + if e.2.port = port then 1 else 0 := by
  unfold synsTo
  rw [List.countP_cons]
  simp

theorem listening_pollAll (hp : p.Lawful) (port : UInt16) (pkts : List Bytes)
    (socks : List Socket) :
    listening port socks ≤
      listening port (pkts.foldl (pollOne opens p) socks) + synsTo port (syns opens pkts) := by
  induction pkts generalizing socks with
  | nil => exact Nat.le_add_right _ _
  | cons pkt pkts ih =>
    rw [List.foldl_cons, opening_syns]
    have hwork := listening_work hp port socks pkt
    have hrest := ih (pollOne opens p socks pkt)
    unfold pollOne at hrest ⊢
    split at hrest
    · next src dst ho =>
      have hsyn := listening_dispatch hp port (p.work socks pkt) src dst
      simp only [ho, Option.toList_some, List.singleton_append]
      rw [synsTo_cons]
      dsimp only
      omega
    · next ho =>
      simp only [ho, Option.toList_none, List.nil_append]
      omega

/-! ## Whose connections there are -/

theorem boundTo_handshaking {src dst src' dst' : SocketAddr} {port : UInt16}
    (h : (handshaking src dst port).boundTo src' dst' = true) :
    src.ip = src'.ip ∧ src.port = src'.port ∧ dst.ip = dst'.ip ∧ dst.port = dst'.port := by
  unfold Socket.boundTo handshaking at h
  simp only [ne_eq, reduceCtorEq, not_false_eq_true, Option.some.injEq, Prod.mk.injEq, true_and,
    decide_eq_true_eq] at h
  exact ⟨h.2.1, h.2.2, h.1.1, h.1.2⟩

theorem opening_plain {pkt : Bytes} (h : opening opens pkt = some (src, dst)) :
    src = .new src.ip src.port ∧ dst = .new dst.ip dst.port := by
  obtain ⟨_, syn, hc⟩ := opening_some h
  exact classifyPacket_plain hc

/-- A connection in the sockets has been there or is of a SYN of the batch. -/
theorem bound_pollAll (hp : p.Lawful) (hsrc : src = .new src.ip src.port)
    (hdst : dst = .new dst.ip dst.port) {pkts : List Bytes} {socks : List Socket} {s : Socket}
    (hs : s ∈ pkts.foldl (pollOne opens p) socks) (hbound : s.boundTo src dst = true) :
    (∃ s' ∈ socks, s'.boundTo src dst = true) ∨ (src, dst) ∈ syns opens pkts := by
  induction pkts generalizing socks with
  | nil => exact .inl ⟨s, hs, hbound⟩
  | cons pkt pkts ih =>
    rw [opening_syns, List.mem_append]
    rw [List.foldl_cons] at hs
    rcases ih hs with ⟨t, ht, htb⟩ | hlater
    · unfold pollOne at ht
      split at ht
      · next src' dst' ho =>
        have hcase : t ∈ p.work socks pkt ∨ ∃ port, t = handshaking src' dst' port := by
          unfold dispatch at ht
          split at ht
          · exact .inl ht
          · split at ht
            · exact .inl ht
            · split_ifs at ht
              · rcases List.mem_or_eq_of_mem_set ht with ht | ht
                · exact .inl ht
                · exact .inr ⟨_, ht⟩
              · exact .inl ht
        rcases hcase with hwork | ⟨port, rfl⟩
        · exact .inl (hp.work_bound socks pkt t src dst hwork htb)
        · obtain ⟨h₁, h₂, h₃, h₄⟩ := boundTo_handshaking htb
          obtain ⟨hsrc', hdst'⟩ := opening_plain ho
          have hends : (src', dst') = (src, dst) := by
            rw [hsrc', hdst', hsrc, hdst, h₁, h₂, h₃, h₄]
          rw [ho, Option.toList_some, hends]
          exact .inr (.inl (List.mem_singleton_self _))
      · exact .inl (hp.work_bound socks pkt t src dst ht htb)
    · exact .inr (.inr hlater)

/-- What a SYN meets, if none has its connection: a listening socket, unless no socket listens. -/
theorem dispatch_unbound (hp : p.Lawful) {socks : List Socket}
    (hunbound : ∀ s ∈ socks, s.boundTo src dst = false) :
    (dispatch p socks src dst).2 = .listener ↔ 0 < listening dst.port socks := by
  unfold dispatch
  split
  · next hk =>
    refine iff_of_false nofun ?_
    rw [listening, List.countP_pos_iff]
    rintro ⟨s, hs, hlisten⟩
    have hacc := hp.pick_none socks src dst hk s hs
    unfold Socket.accepts at hacc
    rw [hlisten] at hacc
    cases hacc
  · next k hk =>
    obtain ⟨s, hs, hacc⟩ := hp.pick_some socks src dst k hk
    have hmem : s ∈ socks := List.mem_of_getElem? hs
    have hlisten : s.listensOn dst.port = true := by
      unfold Socket.accepts at hacc
      rw [hunbound s hmem, Bool.or_false] at hacc
      exact hacc
    refine iff_of_true ?_ (List.countP_pos_iff.mpr ⟨s, hmem, hlisten⟩)
    unfold Socket.listensOn at hlisten
    rw [decide_eq_true_eq] at hlisten
    rw [hs]
    dsimp only
    rw [if_pos hlisten.1]

/-! ## A poll that wastes nothing -/

/-- Nothing happens besides the SYNs, and one takes a listening socket while there is one. -/
def eager : Poller where
  work socks _ := socks
  pick socks src dst :=
    (socks.findIdx? fun s => s.listensOn dst.port).or (socks.findIdx? fun s => s.boundTo src dst)

theorem eager_lawful : eager.Lawful where
  pick_some socks src dst k h := by
    unfold eager at h
    dsimp only at h
    rcases Option.or_eq_some_iff.mp h with h | ⟨_, h⟩
    · obtain ⟨hlt, hq, _⟩ := List.findIdx?_eq_some_iff_getElem.mp h
      refine ⟨socks[k], List.getElem?_eq_getElem hlt, ?_⟩
      unfold Socket.accepts
      rw [hq, Bool.true_or]
    · obtain ⟨hlt, hq, _⟩ := List.findIdx?_eq_some_iff_getElem.mp h
      refine ⟨socks[k], List.getElem?_eq_getElem hlt, ?_⟩
      unfold Socket.accepts
      rw [hq, Bool.or_true]
  pick_none socks src dst h s hs := by
    unfold eager at h
    dsimp only at h
    rw [Option.or_eq_none_iff, List.findIdx?_eq_none_iff, List.findIdx?_eq_none_iff] at h
    unfold Socket.accepts
    rw [h.1 s hs, h.2 s hs]
    rfl
  work_listens _ _ _ _ h _ := h
  work_bound _ _ s _ _ hs hb := ⟨s, hs, hb⟩

theorem eager_dispatch (port : UInt16) (socks : List Socket) (src dst : SocketAddr) :
    listening port (dispatch eager socks src dst).1 =
      listening port socks - if dst.port = port then 1 else 0 := by
  unfold dispatch eager
  dsimp only
  cases hk : socks.findIdx? fun s => s.listensOn dst.port with
  | some k =>
    obtain ⟨hlt, hq, _⟩ := List.findIdx?_eq_some_iff_getElem.mp hk
    have hq' := hq
    unfold Socket.listensOn at hq'
    rw [decide_eq_true_eq] at hq'
    rw [Option.some_or]
    dsimp only
    rw [List.getElem?_eq_getElem hlt]
    dsimp only
    rw [if_pos hq'.1]
    unfold listening
    rw [List.countP_set hlt, handshaking_silent]
    have hmine : socks[k].listensOn port = decide (dst.port = port) := by
      unfold Socket.listensOn
      rw [hq'.1, hq'.2]
      simp
    rw [hmine]
    simp
  | none =>
    have hsilent : listening dst.port socks = 0 := by
      refine List.countP_eq_zero.mpr fun s hs => ?_
      rw [List.findIdx?_eq_none_iff.mp hk s hs]
      nofun
    have hkeep : listening port socks =
        listening port socks - if dst.port = port then 1 else 0 := by
      split_ifs with hport
      · rw [← hport, hsilent]
      · rfl
    rw [Option.none_or]
    cases hb : socks.findIdx? fun s => s.boundTo src dst with
    | none => exact hkeep
    | some k =>
      obtain ⟨hlt, hq, _⟩ := List.findIdx?_eq_some_iff_getElem.mp hb
      dsimp only
      rw [List.getElem?_eq_getElem hlt]
      dsimp only
      rw [if_neg (boundTo_state hq)]
      exact hkeep

theorem eager_pollAll (port : UInt16) (pkts : List Bytes) (socks : List Socket) :
    listening port (pkts.foldl (pollOne opens eager) socks) =
      listening port socks - synsTo port (syns opens pkts) := by
  induction pkts generalizing socks with
  | nil => rfl
  | cons pkt pkts ih =>
    rw [List.foldl_cons, opening_syns, ih]
    unfold pollOne
    split
    · next src dst ho =>
      simp only [ho, Option.toList_some, List.singleton_append]
      rw [eager_dispatch, synsTo_cons]
      unfold eager
      dsimp only
      omega
    · next ho =>
      simp only [ho, Option.toList_none, List.nil_append]
      rfl

/-! ## Every SYN of a batch -/

/-- A new SYN of the staged batch, at its place among the SYNs of the batch. -/
theorem syns_split {hijack : List DnsHijack} {net : Netstack} {batch : List Bytes}
    (hstaged : Batched opens net (net.stageAll hijack batch) batch) {earlier later : List Bytes}
    {pkt : Bytes} (hat : (net.stageAll hijack batch).ingress = earlier ++ pkt :: later)
    (ho : opening opens pkt = some (src, dst)) :
    syns opens batch = syns opens earlier ++ (src, dst) :: syns opens later := by
  rw [← hstaged.ingress, hat, syns_append, opening_syns, ho]
  rfl

/-- Every new SYN of every batch finds a listening socket, whatever the poll does within what
    smoltcp promises, if and only if the batch is `Uncrowded`. -/
theorem every_syn_listened (hopens : OpensSyns opens) {hijack : List DnsHijack} {net : Netstack}
    {batch : List Bytes} (hnet : Polled net) (hroom : Roomy hijack net batch) :
    (∀ p : Poller, p.Lawful → SynsListened opens p hijack net batch) ↔
      Uncrowded opens net batch := by
  have hstaged : Batched opens net (net.stageAll hijack batch) batch :=
    batched hopens hnet (.start hnet) hroom
  have hmet : ∀ p : Poller, p.Lawful → ∀ earlier pkt src dst,
      opening opens pkt = some (src, dst) → NewSyn net (syns opens earlier) src dst →
      (verdict opens p (net.stageAll hijack batch).sockets earlier pkt src dst = .listener ↔
        0 < listening dst.port (p.work
          (earlier.foldl (pollOne opens p) (net.stageAll hijack batch).sockets) pkt)) := by
    intro p hp earlier pkt src dst ho hnew
    obtain ⟨hsrc, hdst⟩ := opening_plain ho
    refine dispatch_unbound hp fun s hs => ?_
    by_contra hb
    rw [Bool.not_eq_false] at hb
    obtain ⟨s', hs', hb'⟩ := hp.work_bound _ _ _ _ _ hs hb
    rcases bound_pollAll hp hsrc hdst hs' hb' with ⟨t, ht, htb⟩ | hmem
    · rw [hstaged.unbound hnew.1 t ht] at htb
      cases htb
    · exact hnew.2 hmem
  constructor
  · intro hall earlier src dst later hsplit hnew
    have hing := hstaged.ingress
    rw [hsplit] at hing
    obtain ⟨pkts₁, rest, hat, hearlier, hrest⟩ := List.filterMap_eq_append_iff.mp hing
    obtain ⟨pkts₂, pkt, pkts₃, hat', hnone, ho, hlater⟩ := List.filterMap_eq_cons_iff.mp hrest
    have hbehind : syns opens (pkts₁ ++ pkts₂) = earlier := by
      rw [syns_append, ← hearlier]
      have hquiet : syns opens pkts₂ = [] := List.filterMap_eq_nil_iff.mpr hnone
      rw [hquiet, List.append_nil]
      rfl
    have hnew' : NewSyn net (syns opens (pkts₁ ++ pkts₂)) src dst := by
      rw [hbehind]
      exact hnew
    have hwhere : (net.stageAll hijack batch).ingress = (pkts₁ ++ pkts₂) ++ pkt :: pkts₃ := by
      rw [hat, hat', List.append_assoc]
    have hfound := hall eager eager_lawful _ _ _ _ _ hwhere ho hnew'
    rw [hmet eager eager_lawful _ _ _ _ ho hnew'] at hfound
    have hleft : listening dst.port ((pkts₁ ++ pkts₂).foldl (pollOne opens eager)
        (net.stageAll hijack batch).sockets) = _ := eager_pollAll _ _ _
    rw [hbehind] at hleft
    have hscarce := hstaged.scarce dst.port
    unfold eager at hfound hleft
    dsimp only at hfound hleft
    omega
  · intro hcalm p hp earlier pkt later src dst hat ho hnew
    rw [hmet p hp earlier pkt src dst ho hnew]
    have hsplit := syns_split hstaged hat ho
    have hfew := hcalm _ _ _ _ hsplit hnew
    have hready : 0 < listening dst.port (net.stageAll hijack batch).sockets :=
      hstaged.ready src dst (by rw [hsplit]; simp) hnew.1
    have hgrows := hstaged.grows dst.port
    have hleft : _ ≤ listening dst.port (earlier.foldl (pollOne opens p) _) + _ :=
      listening_pollAll hp dst.port earlier (net.stageAll hijack batch).sockets
    have hwork := listening_work hp dst.port
      (earlier.foldl (pollOne opens p) (net.stageAll hijack batch).sockets) pkt
    omega

end

/-! ### Two SYNs to one port -/

/-- A SYN of 10.7.0.2 to 93.184.216.34:443, from one of two ports. -/
def synFrom (portLow checksumLow : UInt8) : Bytes :=
  [0x45, 0, 0, 40, 0, 1, 64, 0, 64, 6, 250, 235, 10, 7, 0, 2, 93, 184, 216, 34,
    156, portLow, 1, 187, 0, 0, 0, 1, 0, 0, 0, 0, 0x50, 2, 250, 240, 215, checksumLow, 0, 0]

def firstSyn : Bytes := synFrom 64 17

def secondSyn : Bytes := synFrom 65 16

def sampleSource (port : UInt16) : SocketAddr := .new (.v4 (Net.ofOctets4 [10, 7, 0, 2])) port

def sampleTarget : SocketAddr := .new (.v4 (Net.ofOctets4 [93, 184, 216, 34])) 443

/-- A packet is a SYN if the flag is set, to a port that is not 0. -/
def plainSyn (pkt : Bytes) : Bool :=
  match classifyPacket pkt with
  | .tcp _ dst true _ => dst.port != 0
  | _ => false

theorem plainSyn_opens : OpensSyns plainSyn := by
  intro pkt h
  unfold plainSyn at h
  split at h
  · next src dst ext hc => exact ⟨src, dst, ext, hc, bne_iff_ne.mp h⟩
  · cases h

theorem empty_polled : Polled .empty := ⟨rfl, nofun⟩

theorem syns_firstSyn : syns plainSyn [firstSyn] = [(sampleSource 40000, sampleTarget)] := by
  decide +kernel

theorem every_syn_listened_sample :
    Uncrowded plainSyn .empty [firstSyn] ∧
      ((∀ p : Poller, p.Lawful → SynsListened plainSyn p [] .empty [firstSyn]) ↔
        Uncrowded plainSyn .empty [firstSyn]) := by
  constructor
  · intro earlier src dst later hsplit _
    rw [syns_firstSyn] at hsplit
    cases earlier with
    | nil => exact Nat.lt_of_lt_of_le Nat.zero_lt_one (le_max_left _ _)
    | cons e earlier =>
      rw [List.cons_append, List.cons.injEq] at hsplit
      exact absurd hsplit.2 (by simp)
  · refine every_syn_listened plainSyn_opens empty_polled ?_
    unfold Roomy
    decide +kernel

/-- The listener of the first SYN is the second's too, who comes too late. -/
theorem second_syn_reset :
    OpensSyns plainSyn ∧ eager.Lawful ∧ Polled .empty ∧ Roomy [] .empty [firstSyn, secondSyn] ∧
      verdict plainSyn eager (Netstack.empty.stageAll [] [firstSyn, secondSyn]).sockets [firstSyn]
        secondSyn (sampleSource 40001) sampleTarget = .reset ∧
      ¬ SynsListened plainSyn eager [] .empty [firstSyn, secondSyn] := by
  have hreset : verdict plainSyn eager
      (Netstack.empty.stageAll [] [firstSyn, secondSyn]).sockets [firstSyn] secondSyn
      (sampleSource 40001) sampleTarget = .reset := by
    decide +kernel
  refine ⟨plainSyn_opens, eager_lawful, empty_polled, ?_, hreset, fun h => ?_⟩
  · unfold Roomy
    decide +kernel
  · have hlisten := h [firstSyn] secondSyn [] (sampleSource 40001) sampleTarget (by decide +kernel)
      (by decide +kernel) ⟨nofun, by decide +kernel⟩
    rw [hreset] at hlisten
    cases hlisten

end RustCrash.Tun
