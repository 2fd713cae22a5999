import RustCrash.Wireguard.Handshake

/-
  Packets through a transport session: sealed by one side, sent with any reserved bytes, parsed,
  opened and trimmed by the other, in the order they were sent.

  Every nonce is used once. An IPv4 packet is cut back to its total length. An IPv6 packet keeps
  the padding, and the window refuses the counter 2048 above one it has accepted (`Stale`):
  `exchanged_iff` says when all packets come back as they were. In any other order nothing comes out
  that was not sent, and nothing twice (`tunnel_delivers`).
-/

namespace RustCrash.Wireguard

open Lib

/-! ## A run of packets -/

/-- Packets sealed one after the other, each at some time, and the datagrams. -/
inductive Seals (c : Crates) : Session → List Bytes → List Bytes → Prop
  | nil (s : Session) : Seals c s [] []
  | cons {s s' : Session} {inner msg : Bytes} {now : Nat} {pkts msgs : List Bytes} :
      s.sealTransport c inner now = (s', .ok msg) → Seals c s' pkts msgs →
      Seals c s (inner :: pkts) (msg :: msgs)

/-- One datagram on the other side; `none` when nothing comes out of it. -/
def receive (c : Crates) (r : Session) (raw : Bytes) : Session × Option Bytes :=
  match parseWgMsg (stripReserved raw) with
  | some (.transport _ counter data) =>
    match r.openTransport c counter data with
    | (r, .ok plain) => (r, some (trimIpPacket plain))
    | (r, .error _) => (r, none)
  | _ => (r, none)

def receiveAll (c : Crates) : Session → List Bytes → List (Option Bytes)
  | _, [] => []
  | r, raw :: raws => (receive c r raw).2 :: receiveAll c (receive c r raw).1 raws

/-- The nonce that the counter of a datagram stands for. -/
def nonceOf (msg : Bytes) : ByteVec 12 := aeadNonce (ofLE64 (slice msg 8 8))

def isIpv6 (pkt : Bytes) : Prop := pkt.headD 0 >>> 4 = 6

instance (pkt : Bytes) : Decidable (isIpv6 pkt) := inferInstanceAs (Decidable (_ = _))

/-- An IPv4 or IPv6 packet whose length field is its length. -/
def WellFormed (pkt : Bytes) : Prop :=
  20 ≤ pkt.length ∧ pkt.headD 0 >>> 4 = 4 ∧ ofBE (slice pkt 2 2) = pkt.length ∨
    40 ≤ pkt.length ∧ isIpv6 pkt ∧ 40 + ofBE (slice pkt 4 2) = pkt.length

/-- Two sessions of one key: the window shows counters that the sender has used. -/
structure Paired (s r : Session) (accepted : List UInt64) : Prop where
  key : r.recv.cipher = s.send.cipher
  window : AntiReplay.Represents r.recv.replay accepted
  sent : ∀ m ∈ accepted, m.toNat < s.send.next.toNat

/-- The packets come back as they were, and no nonce is used twice. -/
def Exchanged (c : Crates) (r : Session) (reserved : ByteVec 3) (pkts msgs : List Bytes) : Prop :=
  receiveAll c r (msgs.map (applyReserved · reserved)) = pkts.map some ∧ (msgs.map nonceOf).Nodup

/-- The counters of `k` packets. -/
def counters (n : UInt64) : Nat → List UInt64
  | 0 => []
  | k + 1 => n :: counters (n + 1) k

/-- None of the counters finds the bit of the one 2048 below still set. -/
def NoneStale : List UInt64 → UInt64 → Nat → Prop
  | _, _, 0 => True
  | accepted, n, k + 1 =>
    ¬ AntiReplay.Stale accepted n ∧ NoneStale (accepted ++ [n]) (n + 1) k

/-! ## One packet -/

section

variable {c : Crates} {s s' r : Session} {inner msg : Bytes} {now : Nat}

theorem sealTransport_ok (h : s.sealTransport c inner now = (s', .ok msg)) :
    s.send.next < rejectAfterMessages ∧
      (∃ ct, c.encrypt s.send.cipher (aeadNonce s.send.next) (Session.padded inner) [] = some ct ∧
        msg = le32 4 ++ le32 s.peerIndex ++ le64 s.send.next ++ ct) ∧
      s'.send.cipher = s.send.cipher ∧ s'.send.next = s.send.next + 1 := by
  unfold Session.sealTransport at h
  split_ifs at h with hreject
  · simp at h
  dsimp only at h
  cases hct : c.encrypt s.send.cipher (aeadNonce s.send.next) (Session.padded inner) [] with
  | none => simp [hct] at h
  | some ct =>
    simp only [hct, Prod.mk.injEq, Except.ok.injEq] at h
    obtain ⟨rfl, rfl⟩ := h
    exact ⟨UInt64.not_le.mp hreject, ⟨ct, rfl, rfl⟩, rfl, rfl⟩

/-- The reserved bytes of a transport datagram are zero again when it is parsed. -/
theorem strip_apply (rest : Bytes) (reserved : ByteVec 3) :
    stripReserved (applyReserved (le32 4 ++ rest) reserved) = le32 4 ++ rest := by
  obtain ⟨bytes, hlen⟩ := reserved
  match bytes, hlen with
  | [x, y, z], _ =>
    have hfour : le32 4 = [4, 0, 0, 0] := by decide
    have happly : applyReserved (le32 4 ++ rest) ⟨[x, y, z], rfl⟩ = 4 :: x :: y :: z :: rest := by
      rw [hfour]
      unfold applyReserved
      rw [if_pos (by simp)]
      rfl
    rw [happly, hfour]
    unfold stripReserved
    rw [if_pos (by simp)]
    rfl

/-- A sealed packet is opened with its padding, if the window takes its counter. -/
theorem receive_sealed (hc : c.Lawful) (hkey : r.recv.cipher = s.send.cipher)
    (h : s.sealTransport c inner now = (s', .ok msg)) (reserved : ByteVec 3) :
    receive c r (applyReserved msg reserved) =
      ({ r with recv := { r.recv with replay := (r.recv.replay.accept s.send.next).2 } },
        if (r.recv.replay.accept s.send.next).1 then some (trimIpPacket (Session.padded inner))
        else none) := by
  obtain ⟨-, ⟨ct, hct, rfl⟩, -, -⟩ := sealTransport_ok h
  have hlen := hc.length_seal _ _ _ _ _ hct
  have hopen : c.decrypt r.recv.cipher (aeadNonce s.send.next) ct [] =
      some (Session.padded inner) := by
    rw [hkey]
    exact hc.open_seal _ _ _ _ _ hct
  have hparse := parseWgMsg_transport s.peerIndex s.send.next (show 16 ≤ ct.length by omega)
  unfold receive
  rw [List.append_assoc, List.append_assoc, strip_apply, ← List.append_assoc, ← List.append_assoc,
    hparse]
  dsimp only
  unfold Session.openTransport
  rw [hopen]
  dsimp only
  cases (r.recv.replay.accept s.send.next).1 <;> rfl

theorem nonceOf_sealed (h : s.sealTransport c inner now = (s', .ok msg)) :
    nonceOf msg = aeadNonce s.send.next := by
  obtain ⟨-, ⟨ct, -, rfl⟩, -, -⟩ := sealTransport_ok h
  have h8 : (le32 4 ++ le32 s.peerIndex).length = 0 + 8 := by simp
  unfold nonceOf
  rw [List.append_assoc, show (8 : Nat) = 0 + 8 from rfl, slice_skip h8, slice_here (by simp),
    ofLE64_le64]

end

/-! ## Padding -/

theorem length_padded_lt (inner : Bytes) : (Session.padded inner).length < inner.length + 16 := by
  have hlt := Nat.mod_lt (paddingMultiple - inner.length % paddingMultiple)
    (by decide : paddingMultiple > 0)
  unfold Session.padded
  rw [List.length_append, List.length_replicate]
  exact Nat.add_lt_add_left hlt _

theorem take_padded {inner : Bytes} {k : Nat} (h : k ≤ inner.length) :
    (Session.padded inner).take k = inner.take k := by
  unfold Session.padded
  rw [List.take_append_of_le_length h]

/-- What was padded is as long as before exactly when it was a multiple of 16 long. -/
theorem padded_eq_iff (inner : Bytes) : Session.padded inner = inner ↔ 16 ∣ inner.length := by
  unfold Session.padded paddingMultiple
  rw [List.append_right_eq_self, List.replicate_eq_nil_iff]
  omega

theorem headD_padded {inner : Bytes} (h : inner ≠ []) :
    (Session.padded inner).headD 0 = inner.headD 0 := by
  obtain ⟨b, rest, rfl⟩ := List.exists_cons_of_ne_nil h
  rfl

/-- The padding is cut off by the length field of IPv4. For IPv6 it stays. -/
theorem trim_padded_iff {inner : Bytes} (h : WellFormed inner) :
    trimIpPacket (Session.padded inner) = inner ↔ (isIpv6 inner → 16 ∣ inner.length) := by
  have hle : inner.length ≤ (Session.padded inner).length := by
    unfold Session.padded
    rw [List.length_append]
    omega
  rcases h with ⟨hlen, hversion, htotal⟩ | ⟨hlen, hversion, -⟩
  · have hne : inner ≠ [] := by
      rintro rfl
      simp at hlen
    have hslice : slice (Session.padded inner) 2 2 = slice inner 2 2 :=
      slice_of_take (k := 4) (take_padded (by omega)) (by omega)
    have hv6 : ¬ isIpv6 inner := by
      unfold isIpv6
      rw [hversion]
      decide
    unfold trimIpPacket
    rw [headD_padded hne, if_pos ⟨by omega, hversion⟩, hslice, htotal]
    dsimp only
    rw [if_pos ⟨hlen, hle⟩, take_padded (le_refl _), List.take_length]
    simp [hv6]
  · have hne : inner ≠ [] := by
      rintro rfl
      simp at hlen
    have hv4 : ¬ inner.headD 0 >>> 4 = 4 := by
      rw [show inner.headD 0 >>> 4 = 6 from hversion]
      decide
    unfold trimIpPacket
    rw [headD_padded hne, if_neg (fun h => hv4 h.2), padded_eq_iff]
    simp [hversion]

/-! ## A run -/

section

variable {c : Crates} {s r : Session} {accepted : List UInt64} {pkts msgs : List Bytes}

/-- A counter that the sender has not used yet is taken unless it is stale. -/
theorem Paired.accept_iff (h : Paired s r accepted) (hroom : s.send.next < rejectAfterMessages) :
    (r.recv.replay.accept s.send.next).1 = true ↔ ¬ AntiReplay.Stale accepted s.send.next := by
  have hallowed : AntiReplay.Allowed accepted s.send.next := by
    refine ⟨hroom, fun hmem => ?_, fun m hm => ?_⟩
    · exact lt_irrefl _ (h.sent _ hmem)
    · have := h.sent m hm
      omega
  rw [(AntiReplay.accept_spec h.window s.send.next).1]
  exact ⟨fun hboth => hboth.2, fun hfresh => ⟨hallowed, hfresh⟩⟩

theorem toNat_next {n : UInt64} (h : n < rejectAfterMessages) : (n + 1).toNat = n.toNat + 1 := by
  have hlt := UInt64.lt_iff_toNat_lt.mp h
  have hreject : rejectAfterMessages.toNat = 2 ^ 64 - 2 ^ 13 - 2 := by decide
  rw [UInt64.toNat_add, UInt64.toNat_one]
  exact Nat.mod_eq_of_lt (by omega)

/-- The packets come back exactly when each survives its padding and no counter is stale. -/
theorem receiveAll_iff (hc : c.Lawful) (hp : Paired s r accepted) (hs : Seals c s pkts msgs)
    (reserved : ByteVec 3) :
    receiveAll c r (msgs.map (applyReserved · reserved)) = pkts.map some ↔
      (∀ p ∈ pkts, trimIpPacket (Session.padded p) = p) ∧
        NoneStale accepted s.send.next pkts.length := by
  induction hs generalizing r accepted with
  | nil s => simp [receiveAll, NoneStale]
  | cons hseal hrest ih =>
    rename_i s s' inner msg now pkts msgs
    obtain ⟨hroom, -, hcipher, hnext⟩ := sealTransport_ok hseal
    have haccept := hp.accept_iff hroom
    have hreceive := receive_sealed hc hp.key hseal reserved
    have hspec := (AntiReplay.accept_spec hp.window s.send.next).2
    rw [List.map_cons, receiveAll, hreceive, List.map_cons, List.length_cons, NoneStale,
      List.forall_mem_cons, List.cons.injEq]
    by_cases htaken : (r.recv.replay.accept s.send.next).1 = true
    · have hfeed : AntiReplay.feed (r.recv.replay, accepted) s.send.next =
          ((r.recv.replay.accept s.send.next).2, accepted ++ [s.send.next]) := by
        unfold AntiReplay.feed
        cases hacc : r.recv.replay.accept s.send.next with
        | mk ok w =>
          rw [hacc] at htaken
          have hok : ok = true := htaken
          rw [hok]
      rw [hfeed] at hspec
      have hp' : Paired s' { r with recv := { r.recv with
          replay := (r.recv.replay.accept s.send.next).2 } } (accepted ++ [s.send.next]) := by
        refine ⟨hp.key.trans hcipher.symm, hspec, fun m hm => ?_⟩
        rw [hnext, toNat_next hroom]
        rcases List.mem_append.mp hm with hm | hm
        · have := hp.sent m hm
          omega
        · rw [List.mem_singleton.mp hm]
          omega
      rw [ih hp', hnext, if_pos htaken]
      simp only [Option.some.injEq, haccept.mp htaken, not_false_eq_true, true_and, and_assoc]
    · have hstale : ¬ ¬ AntiReplay.Stale accepted s.send.next := fun h => htaken (haccept.mpr h)
      rw [if_neg htaken]
      simp [hstale]

/-! ## Nonces -/

theorem Seals.room (hs : Seals c s pkts msgs) :
    pkts = [] ∨ s.send.next.toNat + pkts.length ≤ rejectAfterMessages.toNat := by
  induction hs with
  | nil s => exact .inl rfl
  | cons hseal hrest ih =>
    rename_i s s' inner msg now pkts msgs
    obtain ⟨hroom, -, -, hnext⟩ := sealTransport_ok hseal
    have hlt := UInt64.lt_iff_toNat_lt.mp hroom
    rw [hnext, toNat_next hroom] at ih
    right
    rcases ih with rfl | ih
    · simp
      omega
    · rw [List.length_cons]
      omega

theorem Seals.nonces (hs : Seals c s pkts msgs) :
    msgs.map nonceOf = (counters s.send.next pkts.length).map aeadNonce := by
  induction hs with
  | nil s => rfl
  | cons hseal hrest ih =>
    obtain ⟨-, -, -, hnext⟩ := sealTransport_ok hseal
    rw [List.map_cons, nonceOf_sealed hseal, ih, hnext, List.length_cons, counters, List.map_cons]

theorem aeadNonce_inj {a b : UInt64} (h : aeadNonce a = aeadNonce b) : a = b := by
  have hbytes := List.append_cancel_left (congrArg Subtype.val h)
  rw [← ofLE64_le64 a, ← ofLE64_le64 b, hbytes]

/-- Counters below 2^64 are different ones. -/
theorem counters_spec (k : Nat) {n : UInt64} (h : n.toNat + k < 2 ^ 64) :
    (∀ m ∈ counters n k, n.toNat ≤ m.toNat) ∧ (counters n k).Nodup := by
  induction k generalizing n with
  | zero => exact ⟨fun m hm => (by cases hm), List.nodup_nil⟩
  | succ k ih =>
    have hnext : (n + 1).toNat = n.toNat + 1 := by
      rw [UInt64.toNat_add, UInt64.toNat_one]
      exact Nat.mod_eq_of_lt (by omega)
    obtain ⟨hge, hnodup⟩ := ih (n := n + 1) (by omega)
    rw [counters]
    constructor
    · intro m hm
      rcases List.mem_cons.mp hm with rfl | hm
      · exact le_refl _
      · have := hge m hm
        omega
    · refine List.nodup_cons.mpr ⟨fun hmem => ?_, hnodup⟩
      have := hge n hmem
      omega

/-- No nonce of a session is used twice. -/
theorem Seals.nodup_nonces (hs : Seals c s pkts msgs) : (msgs.map nonceOf).Nodup := by
  have hreject : rejectAfterMessages.toNat < 2 ^ 64 := rejectAfterMessages.toNat_lt
  rw [hs.nonces]
  refine List.Nodup.map (fun a b => aeadNonce_inj) ?_
  rcases hs.room with hnil | hroom
  · rw [hnil]
    exact List.nodup_nil
  · exact (counters_spec pkts.length (by omega)).2

end

/-! ## The result -/

/-- The packets of a run come back, unless one is an IPv6 packet that was padded or a counter is
    stale when it arrives. -/
theorem exchanged_iff {c : Crates} {s r : Session} {accepted : List UInt64}
    {pkts msgs : List Bytes} (hc : c.Lawful) (hp : Paired s r accepted)
    (hw : ∀ p ∈ pkts, WellFormed p) (hs : Seals c s pkts msgs) (reserved : ByteVec 3) :
    Exchanged c r reserved pkts msgs ↔
      (∀ p ∈ pkts, isIpv6 p → 16 ∣ p.length) ∧ NoneStale accepted s.send.next pkts.length := by
  have htrim : (∀ p ∈ pkts, trimIpPacket (Session.padded p) = p) ↔
      ∀ p ∈ pkts, isIpv6 p → 16 ∣ p.length :=
    forall₂_congr fun p hmem => trim_padded_iff (hw p hmem)
  unfold Exchanged
  rw [receiveAll_iff hc hp hs reserved, htrim]
  exact ⟨fun h => h.1, fun h => ⟨h, hs.nodup_nonces⟩⟩

def sampleSession : Session := Session.fromResponder 7 9 (sampleSecret 1) (sampleSecret 1) 0

theorem sampleSession_paired : Paired sampleSession sampleSession [] :=
  ⟨rfl, AntiReplay.represents_new, fun m hm => (by cases hm)⟩

/-- Every packet of a packet's size is sealed. -/
theorem seals_one {c : Crates} (hc : c.Lawful) {s : Session} {inner : Bytes}
    (hroom : s.send.next < rejectAfterMessages) (h : inner.length < 2 ^ 17) :
    ∃ msg, Seals c s [inner] [msg] := by
  have hlen := length_padded_lt inner
  obtain ⟨ct, hct⟩ := hc.seal_short s.send.cipher (aeadNonce s.send.next) (Session.padded inner) []
    (by omega)
  have hseal : (s.sealTransport c inner 0).2 =
      .ok (le32 4 ++ le32 s.peerIndex ++ le64 s.send.next ++ ct) := by
    unfold Session.sealTransport
    rw [if_neg (UInt64.not_le.mpr hroom)]
    dsimp only
    rw [hct]
  exact ⟨_, .cons (Prod.ext rfl hseal) (.nil _)⟩

/-- An IPv4 packet that is a header only. -/
def headerV4 : Bytes := [0x45, 0, 0, 20] ++ List.replicate 16 0

theorem headerV4_exchanged : ∃ msg, Seals sampleCrates sampleSession [headerV4] [msg] ∧
    (Exchanged sampleCrates sampleSession (⟨[1, 2, 3], rfl⟩ : ByteVec 3) [headerV4] [msg] ↔
      (∀ p ∈ [headerV4], isIpv6 p → 16 ∣ p.length) ∧ NoneStale [] sampleSession.send.next 1) := by
  obtain ⟨msg, hseals⟩ : ∃ msg, Seals sampleCrates sampleSession [headerV4] [msg] :=
    seals_one sampleCrates_lawful (by decide) (by decide)
  refine ⟨msg, hseals, exchanged_iff sampleCrates_lawful sampleSession_paired ?_ hseals _⟩
  intro p hp
  rw [List.mem_singleton.mp hp]
  exact .inl (by decide)

/-- An IPv6 packet that is a header only: 40 bytes, padded to 48. -/
def headerV6 : Bytes := [0x60, 0, 0, 0, 0, 0, 59, 64] ++ List.replicate 32 0

/-- The packet comes back with the padding behind it. -/
theorem headerV6_padded : ¬ ∀ (c : Crates) (s r : Session) (accepted : List UInt64)
    (pkts msgs : List Bytes) (reserved : ByteVec 3), c.Lawful → Paired s r accepted →
    (∀ p ∈ pkts, WellFormed p) → Seals c s pkts msgs → Exchanged c r reserved pkts msgs := by
  intro hall
  obtain ⟨msg, hseals⟩ : ∃ msg, Seals sampleCrates sampleSession [headerV6] [msg] :=
    seals_one sampleCrates_lawful (by decide) (by decide)
  have hw : ∀ p ∈ [headerV6], WellFormed p := by
    intro p hp
    rw [List.mem_singleton.mp hp]
    exact .inr (by decide)
  have hexchanged := hall sampleCrates sampleSession sampleSession [] [headerV6] [msg]
    ⟨[0, 0, 0], rfl⟩ sampleCrates_lawful sampleSession_paired hw hseals
  have hback := ((receiveAll_iff sampleCrates_lawful sampleSession_paired hseals _).mp
    hexchanged.1).1 headerV6 (by simp)
  revert hback
  decide

/-! ## Datagrams in any order -/

variable {c : Crates} {s r : Session} {accepted : List UInt64} {pkts msgs : List Bytes}

theorem Seals.sealed_at (hs : Seals c s pkts msgs) {j : Nat} (hj : j < msgs.length) :
    ∃ (s₁ s₂ : Session) (now : Nat),
      s₁.sealTransport c (pkts.getD j []) now = (s₂, .ok (msgs.getD j [])) ∧
      s₁.send.cipher = s.send.cipher ∧ s₁.send.next = s.send.next + UInt64.ofNat j := by
  induction hs generalizing j with
  | nil s => cases hj
  | cons hseal hrest ih =>
    rename_i s s' inner msg now pkts msgs
    cases j with
    | zero => exact ⟨s, s', now, hseal, rfl, (UInt64.add_zero _).symm⟩
    | succ j =>
      obtain ⟨-, -, hcipher, hnext⟩ := sealTransport_ok hseal
      obtain ⟨s₁, s₂, now, h, hc, hn⟩ := ih (Nat.lt_of_succ_lt_succ hj)
      refine ⟨s₁, s₂, now, h, hc.trans hcipher, hn.trans ?_⟩
      rw [hnext, UInt64.ofNat_add, UInt64.add_assoc, UInt64.add_comm 1]
      rfl

/-- The datagrams that `s` seals come to `r` in any order, some never and some often, under any
    reserved bytes. What comes out, one after the other, are packets that were sent, each at most
    once, and none whose counter the window had accepted before. -/
def DeliversOnce (c : Crates) (s r : Session) (accepted : List UInt64) : Prop :=
  ∀ (pkts msgs : List Bytes) (order : List (Nat × ByteVec 3)), Seals c s pkts msgs →
    (∀ x ∈ order, x.1 < msgs.length) →
    ∃ js : List Nat, js.Sublist (order.map (·.1)) ∧ js.Nodup ∧
      (receiveAll c r (order.map fun x => applyReserved (msgs.getD x.1 []) x.2)).reduceOption =
        js.map (fun j => trimIpPacket (Session.padded (pkts.getD j []))) ∧
      ∀ j ∈ js, s.send.next + UInt64.ofNat j ∉ accepted

theorem delivers_once (hc : c.Lawful) (hkey : r.recv.cipher = s.send.cipher)
    (hw : AntiReplay.Represents r.recv.replay accepted) : DeliversOnce c s r accepted := by
  intro pkts msgs order hs hsent
  induction order generalizing r accepted with
  | nil => exact ⟨[], .slnil, List.nodup_nil, rfl, nofun⟩
  | cons x order ih =>
    obtain ⟨hx, hrest⟩ := List.forall_mem_cons.mp hsent
    obtain ⟨s₁, s₂, now, hseal, hcipher, hnext⟩ := hs.sealed_at hx
    have hreceive := receive_sealed hc (hkey.trans hcipher.symm) hseal x.2
    rw [hnext] at hreceive
    obtain ⟨hverdict, hspec⟩ := AntiReplay.accept_spec hw (s.send.next + UInt64.ofNat x.1)
    unfold AntiReplay.feed at hspec
    rw [List.map_cons, List.map_cons, receiveAll, hreceive]
    cases hacc : r.recv.replay.accept (s.send.next + UInt64.ofNat x.1) with
    | mk ok w =>
      let next : Session := { r with recv := { r.recv with replay := w } }
      rw [hacc] at hverdict hspec
      cases ok with
      | true =>
        obtain ⟨js, hsub, hnodup, hout, hnew⟩ := ih (r := next) hkey hspec hrest
        refine ⟨x.1 :: js, hsub.cons_cons _, ?_, congrArg _ hout, ?_⟩
        · exact List.nodup_cons.mpr ⟨fun hmem => hnew x.1 hmem (by simp), hnodup⟩
        · refine List.forall_mem_cons.mpr ⟨(hverdict.mp rfl).1.2.1, fun j hj hold => ?_⟩
          exact hnew j hj (List.mem_append_left _ hold)
      | false =>
        obtain ⟨js, hsub, hnodup, hout, hnew⟩ := ih (r := next) hkey hspec hrest
        exact ⟨js, hsub.cons _, hnodup, hout, hnew⟩

/-! ## A tunnel -/

/-- A tunnel between the secrets `i` and `r`: the handshake runs through, and what either session
    seals the other delivers at most once. -/
def Tunneled (c : Crates) (i r psk : ByteVec 32) (cookie : Option (ByteVec 16))
    (initiatorIndex responderIndex : UInt32) (d : Draw) (e : ByteVec 32) : Prop :=
  ∃ msg pending w o resp keys w' done pending',
    buildInitiation c (.fromSecret c i) (c.mulBaseClamped r) cookie initiatorIndex d =
      .ok (msg, pending) ∧
    parseWgMsg (stripReserved msg) = some w ∧ openInitiation c (.fromSecret c r) w = .ok o ∧
    respondInitiation c o psk responderIndex e = .ok (resp, keys) ∧
    parseWgMsg (stripReserved resp) = some w' ∧
    consumeResponse c (.fromSecret c i) pending w' psk = .ok (done, pending') ∧
    ∀ t t', let s := Session.fromHandshake done t
      let s' := Session.fromResponder keys.serverIndex keys.peerIndex keys.clientSend
        keys.clientRecv t'
      DeliversOnce c s s' [] ∧ DeliversOnce c s' s []

/-- Whatever the keys, the draws and the network, as long as none of the four shared secrets is
    zero. -/
theorem tunnel_delivers (hc : c.Lawful) (i r psk : ByteVec 32) (cookie : Option (ByteVec 16))
    (initiatorIndex responderIndex : UInt32) (d : Draw) (e : ByteVec 32)
    (hes : c.mulClamped (c.mulBaseClamped r) d.ephemeral ≠ ByteVec.zero 32)
    (hss : c.mulClamped (c.mulBaseClamped r) i ≠ ByteVec.zero 32)
    (hee : c.mulClamped (c.mulBaseClamped e) d.ephemeral ≠ ByteVec.zero 32)
    (hse : c.mulClamped (c.mulBaseClamped e) i ≠ ByteVec.zero 32) :
    Tunneled c i r psk cookie initiatorIndex responderIndex d e := by
  obtain ⟨msg, pending, w, o, hbuild, hstrip, hparse, hopen, hm, -, -, hpriv⟩ :=
    build_open hc i r cookie initiatorIndex d hes hss
  rw [← hpriv] at hee
  obtain ⟨resp, w', sendKey, recvKey, hrespond, hstrip', hparse', -, hconsume⟩ :=
    respond_consume hc hm psk responderIndex e hee hse
  have honce : ∀ s s' : Session, s'.recv = ⟨s.send.cipher, AntiReplay.new⟩ →
      DeliversOnce c s s' [] := by
    intro s s' hrecv
    exact delivers_once hc (by rw [hrecv]) (by rw [hrecv]; exact AntiReplay.represents_new)
  exact ⟨msg, pending, w, o, resp, _, w', _, _, hbuild, by rw [hstrip, hparse], hopen, hrespond,
    by rw [hstrip', hparse'], hconsume, fun t t' => ⟨honce _ _ rfl, honce _ _ rfl⟩⟩

theorem tunnel_delivers_sample :
    Tunneled sampleCrates (sampleSecret 1) (sampleSecret 2) (ByteVec.zero 32) none 7 9
      ⟨sampleSecret 3, ⟨1700000000, 5⟩⟩ (sampleSecret 4) :=
  tunnel_delivers sampleCrates_lawful (sampleSecret 1) (sampleSecret 2) (ByteVec.zero 32) none 7 9
    ⟨sampleSecret 3, ⟨1700000000, 5⟩⟩ (sampleSecret 4) (by decide +kernel) (by decide +kernel)
    (by decide +kernel) (by decide +kernel)

end RustCrash.Wireguard
