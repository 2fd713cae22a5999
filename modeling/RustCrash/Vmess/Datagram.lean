import RustCrash.Lib.ReadExact
import RustCrash.Vmess.Reader

/-
  The chunks of `VmessBody` on both ends: what `seal_chunk` writes for a sequence of plaintexts,
  and the two readers of it, `VmessServerStream` and `read_body_datagram`.

  Writer and reader each draw a mask and a padding for every chunk. A plaintext that is too long
  draws, and writes nothing; the reader then draws for the next chunk what the writer drew for the
  one that was dropped (`chunks_recovered_iff`).
-/

namespace RustCrash.Vmess

open Lib Proto

/-! ## The reader of datagrams -/

inductive BodyDatagram where
  | packet (plain : Bytes) (dec : VmessBody) (script : List Arrival)
  /-- The end of the stream. -/
  | closed
  | failed (e : Error)
  | waiting

def earlyEof : Error := .io "early eof"

def readBodyDatagram (dec : VmessBody) (script : List Arrival) : BodyDatagram :=
  match readExact 2 script with
  | .waiting => .waiting
  | .eof => .closed
  | .done len script =>
    let (framing, mask, pad) := dec.framing.next
    let dec := { dec with framing }
    let total := (ofBE16 len ^^^ mask).toNat
    if total < pad then .failed (.protocol "vmess udp: chunk length below its padding")
    else if total - pad = 0 then .closed
    else if total - pad < tagSize then
      .failed (.protocol "vmess udp: body chunk shorter than a tag")
    else
      match readExact total script with
      | .waiting => .waiting
      | .eof => .failed earlyEof
      | .done ct script =>
        match dec.aead.openCt dec.nonce [] (ct.take (total - pad)) with
        | .error e => .failed (.protocol s!"vmess udp body: {e.display}")
        | .ok plain => .packet plain dec.past script

/-- The uplink's loop, as far as `n` datagrams. -/
def datagrams : Nat → VmessBody → List Arrival → List Bytes
  | 0, _, _ => []
  | n + 1, dec, script =>
    match readBodyDatagram dec script with
    | .packet plain dec script => plain :: datagrams n dec script
    | _ => []

/-- A packet is as long as the reader's draw makes it. -/
theorem readBodyDatagram_packet {dec dec' : VmessBody} {script script₁ script₂ : List Arrival}
    {len plain : Bytes} (hlen : readExact 2 script = .done len script₁)
    (h : readBodyDatagram dec script = .packet plain dec' script₂)
    (hplain : plain.length < 2 ^ 32) :
    (ofBE16 len ^^^ dec.framing.next.2.1).toNat =
      plain.length + (tagSize + dec.framing.next.2.2) := by
  unfold readBodyDatagram at h
  rw [hlen] at h
  generalize dec.framing.next = next at h ⊢
  obtain ⟨framing, mask, pad⟩ := next
  dsimp only at h ⊢
  generalize (ofBE16 len ^^^ mask).toNat = total at h ⊢
  split_ifs at h with hpad hzero htag
  generalize hct : readExact total script₁ = read at h
  cases read with
  | waiting => cases h
  | eof => cases h
  | done ct script' =>
    dsimp only at h
    generalize hopen : dec.aead.openCt ({ dec with framing } : VmessBody).nonce []
      (ct.take (total - pad)) = opened at h
    cases opened with
    | error e => cases h
    | ok plain' =>
      cases h
      have hsealed := Aead.length_sealed (Aead.sealed_openCt hopen hplain)
      rw [List.length_take, length_readExact hct] at hsealed
      omega

/-! ## The writer -/

/-- A plaintext, and what the generator draws for its padding. -/
structure Call where
  fill : (n : Nat) → ByteVec n
  plain : Bytes

/-- The downlink's loop: the plaintexts that were accepted, and the wire. -/
def sealAll : VmessBody → List Call → List Bytes × Bytes
  | _, [] => ([], [])
  | b, call :: calls =>
    match b.sealChunk call.fill call.plain with
    | (b, .error _) => sealAll b calls
    | (b, .ok wire) => (call.plain :: (sealAll b calls).1, wire ++ (sealAll b calls).2)

/-- Both readers get what was accepted, however it is transported and read. -/
def Recovers (b : VmessBody) (calls : List Call) : Prop :=
  ∀ script, Endless script → arrived script = (sealAll b calls).2 →
    (∀ caps : Nat → Nat, (∀ i, 0 < caps i) → ∃ n, ∀ k, n ≤ k →
      (outputs (ByteReader.poll VmessServerDecoder.machine invalidData truncatedStream caps) k 0
        (⟨⟨b, .len⟩, [], []⟩, script)).flatten = (sealAll b calls).1.flatten) ∧
    ∃ n, ∀ k, n ≤ k → datagrams k b script = (sealAll b calls).1

/-! ## The draws -/

namespace ChunkFraming

/-- The mask and the padding of the next chunk. -/
def draw (f : ChunkFraming) : UInt16 × Nat := f.next.2

def after (f : ChunkFraming) : ChunkFraming := f.next.1

def afterN : Nat → ChunkFraming → ChunkFraming
  | 0, f => f
  | n + 1, f => afterN n f.after

/-- Every draw is the same, as without any option. -/
def Steady (f : ChunkFraming) : Prop := ∀ j, (f.afterN j).draw = f.draw

theorem afterN_after (f : ChunkFraming) (j : Nat) : (f.after).afterN j = f.afterN (j + 1) := rfl

theorem Steady.after {f : ChunkFraming} (h : f.Steady) : f.after.Steady := by
  intro j
  rw [afterN_after, h (j + 1)]
  exact (h 1).symm

theorem Steady.draw_after {f : ChunkFraming} (h : f.Steady) : f.after.draw = f.draw := h 1

/-- The reader draws for each plaintext that the writer accepts what the writer draws. -/
def InStep : ChunkFraming → ChunkFraming → List Bytes → Prop
  | _, _, [] => True
  | w, r, p :: ps =>
    if p.length + (tagSize + w.draw.2) ≤ 65535 then w.draw = r.draw ∧ InStep w.after r.after ps
    else InStep w.after r ps

theorem Steady.inStep {w r : ChunkFraming} (hw : w.Steady) (hr : r.Steady) (h : w.draw = r.draw)
    (ps : List Bytes) : InStep w r ps := by
  induction ps generalizing w r with
  | nil => trivial
  | cons p ps ih =>
    unfold InStep
    split_ifs
    · exact ⟨h, ih hw.after hr.after (by rw [hw.draw_after, hr.draw_after, h])⟩
    · exact ih hw.after hr (by rw [hw.draw_after, h])

end ChunkFraming

/-! ## What is written -/

variable {b : VmessBody}

theorem sealChunk_long (fill : (n : Nat) → ByteVec n) {plain : Bytes}
    (h : 65535 < plain.length + (tagSize + b.framing.draw.2)) :
    ∃ e, b.sealChunk fill plain = ({ b with framing := b.framing.after }, .error e) :=
  ⟨_, if_pos h⟩

theorem sealChunk_fits (fill : (n : Nat) → ByteVec n) {plain : Bytes}
    (h : plain.length + (tagSize + b.framing.draw.2) ≤ 65535) :
    ∃ ct, b.aead.sealed b.nonce [] plain = .ok ct ∧ b.sealChunk fill plain =
      ({ b.past with framing := b.framing.after },
        .ok (be16 (UInt16.ofNat (plain.length + (tagSize + b.framing.draw.2)) ^^^
          b.framing.draw.1) ++ ct ++ (fill b.framing.draw.2).val)) := by
  obtain ⟨ct, hct⟩ := b.aead.sealed_short b.nonce (by omega : plain.length < 2 ^ 32)
    (by decide : ([] : Bytes).length < 2 ^ 32)
  refine ⟨ct, hct, ?_⟩
  have hnot : ¬ 65535 < plain.length + (tagSize + b.framing.next.2.2) := by
    unfold ChunkFraming.draw at h
    omega
  have hct' : ({ b with framing := b.framing.next.1 } : VmessBody).aead.sealed
      ({ b with framing := b.framing.next.1 } : VmessBody).nonce [] plain = .ok ct := hct
  unfold VmessBody.sealChunk
  dsimp only
  rw [if_neg hnot, hct']
  rfl

/-- What a writer writes that stays in step is what the reader asks for, chunk after chunk. -/
theorem sealAll_frames {w r : VmessBody} {calls : List Call} (haead : w.aead = r.aead)
    (hiv : w.baseIv = r.baseIv) (hcount : w.count = r.count)
    (h : ChunkFraming.InStep w.framing r.framing (calls.map Call.plain)) :
    ∃ parts, Frames r parts (sealAll w calls).1 ∧
      Staged.wireOfParts parts = (sealAll w calls).2 := by
  induction calls generalizing w r with
  | nil => exact ⟨[], .nil r, rfl⟩
  | cons call calls ih =>
    rw [List.map_cons] at h
    unfold ChunkFraming.InStep at h
    unfold sealAll
    by_cases hfits : call.plain.length + (tagSize + w.framing.draw.2) ≤ 65535
    · rw [if_pos hfits] at h
      obtain ⟨hdraw, hrest⟩ := h
      obtain ⟨ct, hct, hseal⟩ := sealChunk_fits call.fill hfits
      obtain ⟨parts, hframes, hwire⟩ := ih (w := { w.past with framing := w.framing.after })
        (r := { r.past with framing := r.framing.after }) haead hiv
        (congrArg (· + 1) hcount) hrest
      have hct' : r.aead.sealed r.nonce [] call.plain = .ok ct := by
        rw [← haead, ← hct]
        unfold VmessBody.nonce
        rw [hiv, hcount]
      rw [hseal]
      have hdrawn : r.framing.next = (r.framing.after, w.framing.draw.1, w.framing.draw.2) := by
        rw [hdraw]
        rfl
      refine ⟨_, .sealed hdrawn hfits hct' (call.fill w.framing.draw.2).property hframes, ?_⟩
      · rw [Staged.wireOfParts_cons, Staged.wireOfParts_cons, hwire]
        simp only [List.append_assoc]
    · rw [if_neg hfits] at h
      obtain ⟨e, hseal⟩ := sealChunk_long call.fill (Nat.lt_of_not_le hfits)
      rw [hseal]
      exact ih (w := { w with framing := w.framing.after }) haead hiv hcount h

/-! ## What the readers recover -/

/-- The datagrams of chunks that the reader's own body would have sealed. -/
theorem Frames.datagrams {parts : List (Part × Bytes)} {plains : List Bytes}
    (h : Frames b parts plains) {script : List Arrival} (hend : Endless script)
    (hwire : arrived script = Staged.wireOfParts parts) {k : Nat} (hk : plains.length ≤ k) :
    datagrams k b script = plains := by
  induction h generalizing script k with
  | nil b =>
    have hshort : (arrived script).length < 2 := by
      rw [hwire]
      decide
    cases k with
    | zero => rfl
    | succ k =>
      unfold Vmess.datagrams readBodyDatagram
      rw [readExact_short hend hshort]
  | @fin b framing mask pad hnext =>
    cases k with
    | zero => rfl
    | succ k =>
      have hpad := ChunkFraming.next_pad hnext
      obtain ⟨script', hread, -, -⟩ := readExact_front hend hwire
      rw [length_be16] at hread
      unfold Vmess.datagrams readBodyDatagram
      rw [hread, hnext]
      dsimp only
      rw [ofBE16_be16, UInt16.xor_assoc, UInt16.xor_self, UInt16.xor_zero,
        toNat_ofNat_of_le (by omega), if_neg (Nat.lt_irrefl _), if_pos (Nat.sub_self _)]
  | @sealed b framing mask pad plain ct padding parts plains hnext hfits hct hpadding _ ih =>
    obtain ⟨k, rfl⟩ := Nat.exists_eq_add_one.mpr
      (Nat.lt_of_lt_of_le (Nat.succ_pos plains.length) hk)
    rw [Staged.wireOfParts_cons, Staged.wireOfParts_cons] at hwire
    obtain ⟨script₁, hread₁, hwire₁, hend₁⟩ := readExact_front hend hwire
    obtain ⟨script₂, hread₂, hwire₂, hend₂⟩ := readExact_front hend₁ hwire₁
    have hlen := Aead.length_sealed hct
    have hdata : plain.length + (tagSize + pad) - pad = ct.length := by omega
    have htotal : (ct ++ padding).length = plain.length + (tagSize + pad) := by
      rw [List.length_append, hpadding, hlen, Nat.add_assoc]
    rw [length_be16] at hread₁
    rw [htotal] at hread₂
    have hpos : 0 < tagSize := by decide
    have hpacket : readBodyDatagram b script =
        .packet plain { b.past with framing } script₂ := by
      unfold readBodyDatagram
      rw [hread₁, hnext]
      dsimp only
      rw [ofBE16_be16, UInt16.xor_assoc, UInt16.xor_self, UInt16.xor_zero,
        toNat_ofNat_of_le hfits, if_neg (by omega), if_neg (by omega), if_neg (by omega), hread₂]
      dsimp only
      rw [hdata, List.take_left]
      have hopen : b.aead.openCt ({ b with framing } : VmessBody).nonce [] ct = .ok plain :=
        Aead.openCt_sealed hct
      rw [hopen]
      rfl
    unfold Vmess.datagrams
    rw [hpacket]
    dsimp only
    rw [ih hend₂ hwire₂ (Nat.le_of_succ_le_succ hk)]

/-- A writer that stays in step is read as it was written. -/
theorem recovers_of_inStep {calls : List Call}
    (h : ChunkFraming.InStep b.framing b.framing (calls.map Call.plain)) : Recovers b calls := by
  intro script hend hwire
  obtain ⟨parts, hframes, hparts⟩ := sealAll_frames (w := b) (r := b) rfl rfl rfl h
  rw [← hparts] at hwire
  refine ⟨fun caps hcaps => ?_, _, fun k hk => hframes.datagrams hend hwire hk⟩
  obtain ⟨d', hpieces, hreads⟩ := hframes.reads
  have hrests : VmessServerDecoder.machine.Rests d' := hpieces.rests nofun
  refine ⟨_, fun k hk => (ByteReader.pollRead_drains hcaps hrests).flatten_outputs ?_ hk⟩
  refine ⟨hend, _, ?_, rfl⟩
  rw [List.nil_append, hwire]
  exact hreads

theorem sealAll_rejected (call : Call) (calls : List Call)
    (h : 65535 < call.plain.length + (tagSize + b.framing.draw.2)) :
    sealAll b (call :: calls) = sealAll { b with framing := b.framing.after } calls := by
  obtain ⟨e, he⟩ := sealChunk_long call.fill h
  rw [sealAll, he]

/-- A plaintext that no option makes room for. -/
def tooLong : Call := ⟨ByteVec.zero, List.replicate 65536 0⟩

theorem sealAll_tooLong (j : Nat) (b : VmessBody) (calls : List Call) :
    sealAll b (List.replicate j tooLong ++ calls) =
      sealAll { b with framing := b.framing.afterN j } calls := by
  induction j generalizing b with
  | zero => rfl
  | succ j ih =>
    have hlong : 65535 < tooLong.plain.length + (tagSize + b.framing.draw.2) := by
      unfold tooLong
      rw [List.length_replicate]
      omega
    rw [List.replicate_succ, List.cons_append, sealAll_rejected _ _ hlong, ih]
    rfl

/-- A chunk behind plaintexts that were too long comes out only if the reader's draw gives it the
    length that the writer's does. -/
theorem Recovers.draws {j : Nat} (call : Call) (h : Recovers b (List.replicate j tooLong ++ [call]))
    (hfits : call.plain.length + (tagSize + (b.framing.afterN j).draw.2) ≤ 65535) :
    (UInt16.ofNat (call.plain.length + (tagSize + (b.framing.afterN j).draw.2)) ^^^
        (b.framing.afterN j).draw.1 ^^^ b.framing.draw.1).toNat =
      call.plain.length + (tagSize + b.framing.draw.2) := by
  obtain ⟨ct, hct, hseal⟩ :=
    sealChunk_fits (b := { b with framing := b.framing.afterN j }) call.fill hfits
  unfold Recovers at h
  rw [sealAll_tooLong] at h
  unfold sealAll at h
  rw [hseal] at h
  dsimp only [sealAll] at h
  rw [List.append_nil, List.append_assoc] at h
  generalize hx : UInt16.ofNat (call.plain.length + (tagSize + (b.framing.afterN j).draw.2)) ^^^
    (b.framing.afterN j).draw.1 = x at h ⊢
  generalize hbody : ct ++ (call.fill (b.framing.afterN j).draw.2).val = body at h
  have hwire : arrived [.data (be16 x ++ body)] = be16 x ++ body := by
    rw [arrived_cons, arrived_nil, List.append_nil]
    rfl
  have hend : Endless [.data (be16 x ++ body)] := by
    intro hmem
    have hnil := List.mem_singleton.mp hmem
    rw [Arrival.data.injEq] at hnil
    exact List.append_ne_nil_of_left_ne_nil (be16_ne_nil x) _ hnil.symm
  obtain ⟨-, n, hn⟩ := h _ hend hwire
  have hgot := hn (n + 1) (Nat.le_succ n)
  obtain ⟨script₁, hread, -, -⟩ := readExact_front hend hwire
  unfold datagrams at hgot
  generalize hpacket : readBodyDatagram b [.data (be16 x ++ body)] = packet at hgot
  cases packet with
  | closed => cases hgot
  | failed e => cases hgot
  | waiting => cases hgot
  | packet plain dec' script₂ =>
    obtain ⟨rfl, -⟩ := List.cons.inj hgot
    have hlen := readBodyDatagram_packet hread hpacket (by omega)
    rw [ofBE16_be16] at hlen
    exact hlen

/-- Two lengths that a mask swaps are the same. -/
theorem mask_swaps {x : UInt16} {a b : Nat} (ha : a < 100) (hb : b < 100)
    (h : ∀ n, n + a ≤ 65535 → (UInt16.ofNat (n + a) ^^^ x).toNat = n + b) : x = 0 ∧ a = b := by
  have h₁ := h (1000 - a) (by omega)
  rw [Nat.sub_add_cancel (by omega)] at h₁
  have h₂ := h (1000 - a + b - a) (by omega)
  rw [Nat.sub_add_cancel (by omega), ← h₁, UInt16.ofNat_toNat, UInt16.xor_assoc,
    UInt16.xor_self, UInt16.xor_zero, UInt16.toNat_ofNat_of_lt' (by decide)] at h₂
  have hab : a = b := by omega
  refine ⟨?_, hab⟩
  have hsame : UInt16.ofNat 1000 ^^^ x = UInt16.ofNat 1000 := by
    apply UInt16.toNat_inj.mp
    rw [h₁, UInt16.toNat_ofNat_of_lt' (by decide)]
    omega
  rw [← UInt16.zero_xor (a := x), ← UInt16.xor_self (a := UInt16.ofNat 1000), UInt16.xor_assoc, hsame]

theorem draw_pad (f : ChunkFraming) : f.draw.2 < 64 := ChunkFraming.next_pad rfl

/-- A body whose chunks always come out draws the same for each of them. -/
theorem steady_of_recovers (h : ∀ calls, Recovers b calls) : b.framing.Steady := by
  intro j
  have hw := draw_pad (b.framing.afterN j)
  have hr := draw_pad b.framing
  have htag : tagSize = 16 := rfl
  obtain ⟨hmask, hpad⟩ := mask_swaps (x := (b.framing.afterN j).draw.1 ^^^ b.framing.draw.1)
    (a := tagSize + (b.framing.afterN j).draw.2) (b := tagSize + b.framing.draw.2)
    (by omega) (by omega) (by
      intro n hn
      have hdraws := Recovers.draws ⟨tooLong.fill, List.replicate n 0⟩ (h _)
        (by rw [List.length_replicate]; exact hn)
      rwa [List.length_replicate, UInt16.xor_assoc] at hdraws)
  exact Prod.ext (UInt16.xor_eq_zero_iff.mp hmask) (Nat.add_left_cancel hpad)

theorem steady_recovers (h : b.framing.Steady) (calls : List Call) :
    Recovers b calls := recovers_of_inStep (h.inStep h rfl _)

/-- The chunks of a body come out for every sequence of plaintexts exactly if it draws the same for
    each; whatever it draws, those of a sequence come out that never puts it out of step. -/
theorem chunks_recovered_iff (b : VmessBody) :
    ((∀ calls, Recovers b calls) ↔ b.framing.Steady) ∧
      ∀ calls, ChunkFraming.InStep b.framing b.framing (calls.map Call.plain) →
        Recovers b calls :=
  ⟨⟨steady_of_recovers, steady_recovers⟩, fun _ => recovers_of_inStep⟩

/-! ## A datagram behind one that is too long -/

/-- A body with masked lengths. -/
def maskedBody : VmessBody :=
  ⟨aesAead (ByteVec.zero 16), ByteVec.zero 16, 0,
    .fromOpt (ChunkFraming.optChunkStream ||| ChunkFraming.optChunkMasking) (ByteVec.zero 16)⟩

example (H : Hashes) : VmessBody.new H secAes128Gcm (ByteVec.zero 16) (ByteVec.zero 16)
    (ChunkFraming.optChunkStream ||| ChunkFraming.optChunkMasking) = .ok maskedBody := rfl

def shortCall : Call := ⟨ByteVec.zero, [1]⟩

theorem masked_draws : (maskedBody.framing.afterN 1).draw.1 ≠ maskedBody.framing.draw.1 ∧
    (maskedBody.framing.afterN 1).draw.2 = 0 ∧ maskedBody.framing.draw.2 = 0 := by
  decide +kernel

/-- The downlink drops the first datagram; the second one is lost with it. -/
theorem dropped_datagram_garbles : ¬ Recovers maskedBody [tooLong, shortCall] := by
  intro h
  obtain ⟨hmask, hw, hr⟩ := masked_draws
  have hdraws := Recovers.draws shortCall (j := 1) h (by rw [hw]; decide)
  rw [hw, hr, UInt16.xor_assoc] at hdraws
  have hsame : UInt16.ofNat 17 ^^^ ((maskedBody.framing.afterN 1).draw.1 ^^^
      maskedBody.framing.draw.1) = UInt16.ofNat 17 := UInt16.toNat_inj.mp hdraws
  have hzero : (maskedBody.framing.afterN 1).draw.1 ^^^ maskedBody.framing.draw.1 = 0 := by
    rw [← UInt16.zero_xor (a := _ ^^^ _), ← UInt16.xor_self (a := UInt16.ofNat 17),
      UInt16.xor_assoc, hsame]
  exact hmask (UInt16.xor_eq_zero_iff.mp hzero)

end RustCrash.Vmess
