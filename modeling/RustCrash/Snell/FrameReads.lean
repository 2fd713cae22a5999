import RustCrash.Snell.Framing

/-
  What one end frames the other end reads.

  A writer and the reader at the other end are in step when they have counted the same blocks
  under the same key. Framing a payload never fails, and what it writes the reader takes as the
  pieces of the payload, in order, or as one zero chunk (`frame_reads`).
-/

namespace RustCrash.Snell

open Lib Proto

/-! ## Pieces -/

/-- The pieces of a payload, none empty and none too long. -/
structure Cut (payload : Bytes) (pieces : List Bytes) : Prop where
  flatten : pieces.flatten = payload
  bounds : ∀ p ∈ pieces, p ≠ [] ∧ p.length ≤ maxLength

theorem Cut.nil : Cut [] [] := ⟨rfl, nofun⟩

theorem Cut.cons {piece rest : Bytes} {pieces : List Bytes} (hne : piece ≠ [])
    (hlen : piece.length ≤ maxLength) (h : Cut rest pieces) :
    Cut (piece ++ rest) (piece :: pieces) := by
  constructor
  · rw [List.flatten_cons, h.flatten]
  · intro p hp
    rcases List.mem_cons.mp hp with rfl | hp
    · exact ⟨hne, hlen⟩
    · exact h.bounds p hp

/-- What the other end finds of one call. -/
def Framed (payload : Bytes) (events : List Event) : Prop :=
  if payload = [] then events = [.zero]
  else ∃ pieces, Cut payload pieces ∧ events = pieces.map .payload

theorem Framed.nil : Framed [] [.zero] := by
  unfold Framed
  rw [if_pos rfl]

theorem Framed.of_cut {payload : Bytes} {pieces : List Bytes} (hne : payload ≠ [])
    (h : Cut payload pieces) : Framed payload (pieces.map .payload) := by
  unfold Framed
  rw [if_neg hne]
  exact ⟨pieces, h, rfl⟩

/-! ## v3 -/

section Reads

variable {argon2id : Bytes → Bytes → ByteVec 32}

variable (argon2id) in
/-- The sealed length of a chunk. -/
theorem v3_len_reads (psk : Bytes) (kind : AeadKind) {c c' : SsCrypto} {n : Nat} {ct : Bytes}
    (h : c.sealNext (be16 (UInt16.ofNat n)) = .ok (c', ct)) (hn : n ≤ maxLength) :
    (framing argon2id).Reads (.v3 ⟨psk, kind, some c, .len⟩) ct (if n = 0 then [.zero] else [])
      (.v3 ⟨psk, kind, some c', if n = 0 then .len else .payload n⟩) := by
  have hlen := SsCrypto.length_sealed h
  have hsize : (ofBE16 (be16 (UInt16.ofNat n))).toNat &&& maxLength = n := by
    have hmax : maxLength = 2 ^ 14 - 1 := rfl
    rw [ofBE16_be16, UInt16.toNat_ofNat_of_lt' (Nat.lt_of_le_of_lt hn (by decide)), hmax,
      Nat.and_two_pow_sub_one_eq_mod, Nat.mod_eq_of_lt (by omega)]
  refine Staged.Reads.one ?_ ?_
  · rw [hlen, length_be16]
    rfl
  · have hstep : (⟨psk, kind, some c, .len⟩ : V3Reader).step argon2id ct =
        .ok ⟨psk, kind, some c', if n = 0 then .len else .payload n⟩
          (if n = 0 then [.zero] else []) := by
      unfold V3Reader.step V3Reader.takeLen
      dsimp only
      rw [SsCrypto.openNext_sealed h]
      dsimp only
      rw [hsize]
      by_cases h0 : n = 0
      · rw [if_pos h0, if_pos h0, if_pos h0]
      · rw [if_neg h0, if_neg h0, if_neg h0]
    show Taken.map Reader.v3 _ = _
    rw [hstep]
    rfl

theorem v3_payload_frame {psk : Bytes} {kind : AeadKind} {c c' : SsCrypto} {chunk ct : Bytes}
    (h : c.sealNext chunk = .ok (c', ct)) :
    (framing argon2id).Frame (.v3 ⟨psk, kind, some c, .payload chunk.length⟩) ct (.payload chunk)
      (.v3 ⟨psk, kind, some c', .len⟩) := by
  refine Staged.Frame.of_one (SsCrypto.sealed_ne_nil h) ?_ ?_
  · rw [SsCrypto.length_sealed h]
    rfl
  · show Taken.map Reader.v3 (V3Reader.takePayload _ c ct) = _
    unfold V3Reader.takePayload
    rw [SsCrypto.openNext_sealed h]
    rfl

variable (argon2id) in
theorem frameChunk_frame (psk : Bytes) (kind : AeadKind) (c : SsCrypto) {chunk : Bytes}
    (hne : chunk ≠ []) (hlen : chunk.length ≤ maxLength) :
    ∃ c' wire, frameChunk c chunk = .ok (c', wire) ∧
      (framing argon2id).Frame (.v3 ⟨psk, kind, some c, .len⟩) wire (.payload chunk)
        (.v3 ⟨psk, kind, some c', .len⟩) := by
  have hmax : maxLength < 2 ^ 32 := by decide
  have hpos : chunk.length ≠ 0 := fun h => hne (List.eq_nil_of_length_eq_zero h)
  obtain ⟨c₁, ct₁, h₁⟩ := c.sealNext_short
    (by rw [length_be16]; decide : (be16 (UInt16.ofNat chunk.length)).length < 2 ^ 32)
  obtain ⟨c₂, ct₂, h₂⟩ := c₁.sealNext_short (by omega : chunk.length < 2 ^ 32)
  refine ⟨c₂, ct₁ ++ ct₂, ?_, ?_⟩
  · unfold frameChunk
    rw [h₁, bind_ok, h₂]
    rfl
  · have hreads := v3_len_reads argon2id psk kind h₁ hlen
    rw [if_neg hpos, if_neg hpos] at hreads
    exact hreads.frame (v3_payload_frame h₂)

variable (argon2id) in
theorem frameChunks_reads (psk : Bytes) (kind : AeadKind) {n : Nat} (c : SsCrypto)
    {payload : Bytes} (hn : payload.length ≤ n) :
    ∃ c' wire pieces, frameChunks n c payload = .ok (c', wire) ∧ Cut payload pieces ∧
      (framing argon2id).Reads (.v3 ⟨psk, kind, some c, .len⟩) wire (pieces.map .payload)
        (.v3 ⟨psk, kind, some c', .len⟩) := by
  induction n generalizing c payload with
  | zero =>
    obtain rfl := List.eq_nil_of_length_eq_zero (Nat.le_zero.mp hn)
    exact ⟨c, [], [], rfl, .nil, .done _⟩
  | succ n ih =>
    unfold frameChunks
    by_cases hnil : payload = []
    · rw [if_pos hnil, hnil]
      exact ⟨c, [], [], rfl, .nil, .done _⟩
    · have hpos : 0 < payload.length := List.length_pos_of_ne_nil hnil
      have hchunk : 0 < v3Chunk := by decide
      have hne : payload.take v3Chunk ≠ [] := by
        apply List.ne_nil_of_length_pos
        rw [List.length_take]
        omega
      have hlen : (payload.take v3Chunk).length ≤ maxLength := List.length_take_le _ _
      obtain ⟨c₁, w₁, h₁, hframe₁⟩ := frameChunk_frame argon2id psk kind c hne hlen
      obtain ⟨c₂, w₂, pieces, h₂, hcut, hreads₂⟩ :=
        ih c₁ (by rw [List.length_drop]; omega : (payload.drop v3Chunk).length ≤ n)
      refine ⟨c₂, w₁ ++ w₂, payload.take v3Chunk :: pieces, ?_, ?_,
        hframe₁.reads.trans hreads₂⟩
      · rw [if_neg hnil, h₁, bind_ok, h₂]
        rfl
      · have hcons := hcut.cons hne hlen
        rwa [List.take_append_drop] at hcons

variable (argon2id) in
/-- After the salt. -/
theorem V3Writer.frameWith_reads (psk : Bytes) (kind : AeadKind) (c : SsCrypto)
    (payload : Bytes) :
    ∃ c' wire events, V3Writer.frameWith c payload = .ok (c', wire) ∧ Framed payload events ∧
      (framing argon2id).Reads (.v3 ⟨psk, kind, some c, .len⟩) wire events
        (.v3 ⟨psk, kind, some c', .len⟩) := by
  unfold V3Writer.frameWith
  by_cases hnil : payload = []
  · obtain ⟨c', ct, h⟩ := c.sealNext_short (by decide : (be16 0).length < 2 ^ 32)
    have hreads := v3_len_reads argon2id psk kind h (Nat.zero_le maxLength)
    rw [if_pos rfl, if_pos rfl] at hreads
    rw [if_pos hnil, hnil]
    exact ⟨c', ct, [.zero], h, .nil, hreads⟩
  · obtain ⟨c', wire, pieces, h, hcut, hreads⟩ :=
      frameChunks_reads argon2id psk kind c (Nat.le_refl payload.length)
    rw [if_neg hnil]
    exact ⟨c', wire, _, h, .of_cut hnil hcut, hreads⟩

variable (argon2id) in
/-- The salt, if it is still to come. -/
theorem V3Writer.start_reads (w : V3Writer) (salt : ByteVec 16) :
    ∃ c wire, w.start argon2id salt = .ok (c, wire) ∧
      (framing argon2id).Reads (.v3 ⟨w.psk, w.kind, w.writer, .len⟩) wire []
        (.v3 ⟨w.psk, w.kind, some c, .len⟩) := by
  unfold V3Writer.start
  cases hw : w.writer with
  | some c => exact ⟨c, [], rfl, .done _⟩
  | none =>
    obtain ⟨a, ha⟩ := snellAead_ok argon2id w.kind w.psk salt.val
    refine ⟨SsCrypto.new a, salt.val, ?_, Staged.Reads.one ?_ ?_⟩
    · dsimp only
      rw [ha]
      rfl
    · rw [salt.length_val]
      rfl
    · show Taken.map Reader.v3 (V3Reader.takeSalt argon2id _ salt.val) = _
      unfold V3Reader.takeSalt
      dsimp only
      rw [ha]
      rfl

/-! ## v4 -/

theorem length_swapFrom : ∀ (b : Bool) (padding ct : Bytes),
    (swapFrom b padding ct).1.length = padding.length ∧
      (swapFrom b padding ct).2.length = ct.length
  | true, [], _ => ⟨rfl, rfl⟩
  | false, [], _ => ⟨rfl, rfl⟩
  | true, _ :: _, [] => ⟨rfl, rfl⟩
  | false, _ :: _, [] => ⟨rfl, rfl⟩
  | true, _ :: padding, _ :: ct =>
    (length_swapFrom false padding ct).imp (congrArg Nat.succ) (congrArg Nat.succ)
  | false, _ :: padding, _ :: ct =>
    (length_swapFrom true padding ct).imp (congrArg Nat.succ) (congrArg Nat.succ)

/-- Swapping twice puts every byte back. -/
theorem swapFrom_twice : ∀ (b : Bool) (padding ct : Bytes),
    swapFrom b (swapFrom b padding ct).1 (swapFrom b padding ct).2 = (padding, ct)
  | true, [], ct => by simp only [swapFrom]
  | false, [], ct => by simp only [swapFrom]
  | true, _ :: _, [] => by simp only [swapFrom]
  | false, _ :: _, [] => by simp only [swapFrom]
  | true, _ :: padding, _ :: ct => by simp only [swapFrom, swapFrom_twice false padding ct]
  | false, _ :: padding, _ :: ct => by simp only [swapFrom, swapFrom_twice true padding ct]

theorem length_v4Header (paddingLen payloadLen : Nat) :
    (v4Header paddingLen payloadLen).length = v4HeaderPlain := by
  unfold v4Header
  rw [List.length_append, List.length_append, length_be16, length_be16]
  rfl

theorem toNat_field {n : Nat} (hn : n ≤ maxLength) :
    (ofBE16 (be16 (UInt16.ofNat n))).toNat = n := by
  rw [ofBE16_be16, UInt16.toNat_ofNat_of_lt' (Nat.lt_of_le_of_lt hn (by decide))]

/-- The fields of a header. -/
theorem v4Header_fields {paddingLen payloadLen : Nat} (hpad : paddingLen ≤ maxLength)
    (hpay : payloadLen ≤ maxLength) :
    (ofBE16 (slice (v4Header paddingLen payloadLen) 3 2)).toNat = paddingLen ∧
      (ofBE16 (slice (v4Header paddingLen payloadLen) 5 2)).toNat = payloadLen := by
  have hpadding : slice (v4Header paddingLen payloadLen) 3 2 = be16 (UInt16.ofNat paddingLen) := by
    unfold v4Header
    rw [List.append_assoc]
    exact (slice_skip (a := 0) (k := 3) rfl).trans (slice_here (length_be16 _))
  have hpayload : slice (v4Header paddingLen payloadLen) 5 2 = be16 (UInt16.ofNat payloadLen) := by
    unfold v4Header
    have hskip : ([4, 0, 0] ++ be16 (UInt16.ofNat paddingLen)).length = 5 := by
      rw [List.length_append, length_be16]
      rfl
    have htail : slice ([4, 0, 0] ++ be16 (UInt16.ofNat paddingLen) ++
        be16 (UInt16.ofNat payloadLen)) (0 + 5) 2 = slice (be16 (UInt16.ofNat payloadLen)) 0 2 :=
      slice_skip hskip
    exact htail.trans (slice_all (length_be16 _))
  rw [hpadding, hpayload]
  exact ⟨toNat_field hpad, toNat_field hpay⟩

variable (argon2id) in
/-- A sealed header. -/
theorem v4_header_reads (psk : Bytes) {c c' : SsCrypto} {paddingLen payloadLen : Nat} {ct : Bytes}
    (h : c.sealNext (v4Header paddingLen payloadLen) = .ok (c', ct))
    (hpad : paddingLen ≤ maxLength) (hpay : payloadLen ≤ maxLength)
    (hzero : payloadLen = 0 → paddingLen = 0) :
    (framing argon2id).Reads (.v4 ⟨psk, some c, .header⟩) ct
      (if payloadLen = 0 then [.zero] else [])
      (.v4 ⟨psk, some c', if payloadLen = 0 then .header else .body paddingLen payloadLen⟩) := by
  refine Staged.Reads.one ?_ ?_
  · rw [SsCrypto.length_sealed h, length_v4Header]
    rfl
  · obtain ⟨hpadding, hpayload⟩ := v4Header_fields hpad hpay
    have hhead : ¬ ((v4Header paddingLen payloadLen).length ≠ v4HeaderPlain ∨
        (v4Header paddingLen payloadLen).getD 0 0 ≠ 4) := by
      rw [length_v4Header]
      rintro (h | h)
      · exact h rfl
      · exact h rfl
    have hstep : (⟨psk, some c, .header⟩ : V4Reader).takeHeader c ct =
        .ok ⟨psk, some c', if payloadLen = 0 then .header else .body paddingLen payloadLen⟩
          (if payloadLen = 0 then [.zero] else []) := by
      unfold V4Reader.takeHeader
      dsimp only
      rw [SsCrypto.openNext_sealed h]
      dsimp only
      rw [if_neg hhead, hpadding, hpayload]
      by_cases h0 : payloadLen = 0
      · rw [if_pos h0, if_neg (not_not_intro (hzero h0)), if_pos h0, if_pos h0]
      · rw [if_neg h0, if_neg (by omega), if_neg h0, if_neg h0]
    show Taken.map Reader.v4 (V4Reader.takeHeader _ c ct) = _
    rw [hstep]
    rfl

/-- What goes out for a sealed payload behind its padding. -/
def padded (padding ct : Bytes) : Bytes × Bytes :=
  if 0 < padding.length then swapPadding padding ct else ([], ct)

variable (argon2id) in
theorem v4_body_frame (psk : Bytes) {c c' : SsCrypto} {payload ct : Bytes} (padding : Bytes)
    (h : c.sealNext payload = .ok (c', ct)) :
    (framing argon2id).Frame (.v4 ⟨psk, some c, .body padding.length payload.length⟩)
      ((padded padding ct).1 ++ (padded padding ct).2) (.payload payload)
      (.v4 ⟨psk, some c', .header⟩) := by
  have hlen : (padded padding ct).1.length = padding.length ∧
      (padded padding ct).2.length = ct.length := by
    unfold padded
    split_ifs with hpos
    · exact length_swapFrom _ _ _
    · exact ⟨by simp only [List.length_nil]; omega, rfl⟩
  have hback : (if 0 < padding.length then
      (swapPadding (padded padding ct).1 (padded padding ct).2).2 else (padded padding ct).2) =
        ct := by
    unfold padded
    split_ifs with hpos
    · exact congrArg Prod.snd (swapFrom_twice true padding ct)
    · rfl
  have hne : (padded padding ct).2 ≠ [] := by
    intro h0
    rw [h0] at hlen
    exact SsCrypto.sealed_ne_nil h (List.eq_nil_of_length_eq_zero hlen.2.symm)
  refine Staged.Frame.of_one (List.append_ne_nil_of_right_ne_nil _ hne) ?_ ?_
  · rw [List.length_append, hlen.1, hlen.2, SsCrypto.length_sealed h, ← Nat.add_assoc]
    rfl
  · show Taken.map Reader.v4 (V4Reader.takeBody _ c padding.length _) = _
    unfold V4Reader.takeBody
    dsimp only
    rw [← hlen.1, List.take_left, List.drop_left, hlen.1, hback, SsCrypto.openNext_sealed h]
    rfl

theorem length_makeV4Padding (d : Draw) (n : Nat) : (makeV4Padding d n).length = n := by
  unfold makeV4Padding
  rw [List.length_map, List.length_range]

/-- The reader at the other end is between two frames and has counted the same blocks; before the
    first it has yet to see the salt. -/
structure V4InStep (argon2id : Bytes → Bytes → ByteVec 32) (w : V4Writer) (r : V4Reader) :
    Prop where
  stage : r.stage = .header
  sent : w.saltSent → r.reader = some w.crypto
  fresh : ¬ w.saltSent → r.reader = none ∧
    ∃ a, snellAead argon2id .aes128Gcm r.psk w.salt.val = .ok a ∧ w.crypto = SsCrypto.new a
  padding : w.initialPaddingLength.toNat ≤ maxLength

variable {w : V4Writer} {r : V4Reader}

/-- The salt, if it is still to come. -/
theorem V4InStep.salt_reads (h : V4InStep argon2id w r) :
    (framing argon2id).Reads (.v4 r) (if w.saltSent then [] else w.salt.val) []
      (.v4 ⟨r.psk, some w.crypto, .header⟩) := by
  rcases r with ⟨psk, reader, stage⟩
  obtain rfl : stage = .header := h.stage
  by_cases hsent : w.saltSent
  · obtain rfl : reader = some w.crypto := h.sent hsent
    rw [if_pos hsent]
    exact .done _
  · obtain ⟨rfl, a, ha, hcrypto⟩ : reader = none ∧ _ := h.fresh hsent
    rw [if_neg hsent, hcrypto]
    refine Staged.Reads.one ?_ ?_
    · rw [w.salt.length_val]
      rfl
    · show Taken.map Reader.v4 (V4Reader.takeSalt argon2id _ w.salt.val) = _
      unfold V4Reader.takeSalt
      dsimp only at ha ⊢
      rw [ha]
      rfl

theorem V4InStep.writeFrame_frame (h : V4InStep argon2id w r) (d : Draw) {payload : Bytes}
    {paddingLen : Nat} (hne : payload ≠ []) (hpay : payload.length ≤ maxLength)
    (hpad : paddingLen ≤ maxLength) :
    ∃ w' wire r', w.writeFrame d payload paddingLen = .ok (w', wire) ∧
      (framing argon2id).Frame (.v4 r) wire (.payload payload) (.v4 r') ∧
      V4InStep argon2id w' r' := by
  have hmax : maxLength < 2 ^ 32 := by decide
  have hpos : payload.length ≠ 0 := fun h => hne (List.eq_nil_of_length_eq_zero h)
  obtain ⟨c₁, ct₁, h₁⟩ := w.crypto.sealNext_short
    (by rw [length_v4Header]; decide : (v4Header paddingLen payload.length).length < 2 ^ 32)
  obtain ⟨c₂, ct₂, h₂⟩ := c₁.sealNext_short (by omega : payload.length < 2 ^ 32)
  have hheader := v4_header_reads argon2id r.psk h₁ hpad hpay
    (fun h0 => absurd h0 hpos)
  rw [if_neg hpos, if_neg hpos] at hheader
  have hbody := v4_body_frame argon2id r.psk (makeV4Padding d paddingLen) h₂
  unfold padded at hbody
  rw [length_makeV4Padding] at hbody
  refine ⟨{ w with crypto := c₂, saltSent := true }, _, ⟨r.psk, some c₂, .header⟩, ?_,
    h.salt_reads.frame (hheader.frame hbody), ⟨rfl, fun _ => rfl, fun hn => absurd rfl hn,
    h.padding⟩⟩
  have hsmall : ¬ (maxLength < payload.length ∨ maxLength < paddingLen) := by omega
  have hchunk : ¬ (payload = [] ∧ paddingLen ≠ 0) := fun hbad => hne hbad.1
  unfold V4Writer.writeFrame V4Writer.sealPayload
  rw [ensure_of hsmall, bind_ok, ensure_of hchunk, bind_ok, h₁, bind_ok, if_neg hne, h₂]
  rfl

theorem V4InStep.writeFrame_zero (h : V4InStep argon2id w r) (d : Draw) :
    ∃ w' wire r', w.writeFrame d [] 0 = .ok (w', wire) ∧
      (framing argon2id).Reads (.v4 r) wire [.zero] (.v4 r') ∧ V4InStep argon2id w' r' := by
  obtain ⟨c₁, ct₁, h₁⟩ := w.crypto.sealNext_short
    (by rw [length_v4Header]; decide : (v4Header 0 0).length < 2 ^ 32)
  have hheader := v4_header_reads argon2id r.psk h₁ (Nat.zero_le _)
    (Nat.zero_le _) (fun _ => rfl)
  rw [if_pos rfl, if_pos rfl] at hheader
  refine ⟨{ w with crypto := c₁, saltSent := true }, _, ⟨r.psk, some c₁, .header⟩, ?_,
    h.salt_reads.trans hheader, ⟨rfl, fun _ => rfl, fun hn => absurd rfl hn, h.padding⟩⟩
  have hsmall : ¬ (maxLength < ([] : Bytes).length ∨ maxLength < 0) := by
    rw [List.length_nil]
    omega
  have hchunk : ¬ (([] : Bytes) = [] ∧ 0 ≠ 0) := fun hbad => hbad.2 rfl
  unfold V4Writer.writeFrame V4Writer.sealPayload
  rw [ensure_of hsmall, bind_ok, ensure_of hchunk, bind_ok, List.length_nil, h₁, bind_ok,
    if_pos rfl, bind_ok, if_neg (Nat.lt_irrefl 0)]
  show Except.ok _ = Except.ok _
  simp only [List.append_nil]

theorem clampLimit_bounds (limit : Int) :
    0 < V4Writer.clampLimit limit ∧ V4Writer.clampLimit limit ≤ maxLength := by
  have hmax : 0 < maxLength := by decide
  unfold V4Writer.clampLimit
  split_ifs with h <;> omega

/-- Only the ramp moves. -/
theorem V4InStep.nextPayloadLimit (h : V4InStep argon2id w r) (now : Nat) :
    V4InStep argon2id (w.nextPayloadLimit now).1 r := ⟨h.1, h.2, h.3, h.4⟩

theorem V4InStep.nextFramePaddingLength_le (h : V4InStep argon2id w r) (n : Nat) :
    w.nextFramePaddingLength n ≤ maxLength := by
  unfold V4Writer.nextFramePaddingLength
  split_ifs
  · exact Nat.zero_le _
  · exact h.padding

theorem V4InStep.frameFor_reads {n : Nat} (h : V4InStep argon2id w r) (draws : Nat → Draw) (i : Nat)
    {payload : Bytes} (hn : payload.length ≤ n) :
    ∃ w' wire pieces r', w.frameFor draws n i payload = .ok (w', wire) ∧ Cut payload pieces ∧
      (framing argon2id).Reads (.v4 r) wire (pieces.map .payload) (.v4 r') ∧
      V4InStep argon2id w' r' := by
  induction n generalizing w r i payload with
  | zero =>
    obtain rfl := List.eq_nil_of_length_eq_zero (Nat.le_zero.mp hn)
    exact ⟨w, [], [], r, rfl, .nil, .done _, h⟩
  | succ n ih =>
    unfold V4Writer.frameFor
    by_cases hnil : payload = []
    · rw [if_pos hnil, hnil]
      exact ⟨w, [], [], r, rfl, .nil, .done _, h⟩
    · generalize hlimit : V4Writer.clampLimit (w.limitNow (draws i).now) = limit
      obtain ⟨hlimit0, hlimit1⟩ := hlimit ▸ clampLimit_bounds (w.limitNow (draws i).now)
      have hpos : 0 < payload.length := List.length_pos_of_ne_nil hnil
      have hlen : (payload.take limit).length ≤ maxLength :=
        Nat.le_trans (List.length_take_le _ _) hlimit1
      have hlen0 : (payload.take limit).length ≠ 0 := by
        rw [List.length_take]
        omega
      have hne : payload.take limit ≠ [] := fun h0 => hlen0 (congrArg List.length h0)
      have hstep := h.nextPayloadLimit (draws i).now
      obtain ⟨w₁, wire₁, r₁, h₁, hframe₁, hstep₁⟩ := hstep.writeFrame_frame (draws i) hne hlen
        (hstep.nextFramePaddingLength_le (payload.take limit).length)
      obtain ⟨w₂, wire₂, pieces, r₂, h₂, hcut, hreads₂, hstep₂⟩ := ih hstep₁ (i + 1)
        (by rw [List.length_drop]; omega : (payload.drop limit).length ≤ n)
      refine ⟨w₂, wire₁ ++ wire₂, payload.take limit :: pieces, r₂, ?_, ?_,
        hframe₁.reads.trans hreads₂, hstep₂⟩
      · rw [if_neg hnil]
        dsimp only
        rw [h₁, bind_ok, h₂]
        rfl
      · have hcons := hcut.cons hne hlen
        rwa [List.take_append_drop] at hcons

theorem V4InStep.frame_reads (h : V4InStep argon2id w r) (draws : Nat → Draw) (payload : Bytes) :
    ∃ w' wire events r', w.frame draws payload = .ok (w', wire) ∧ Framed payload events ∧
      (framing argon2id).Reads (.v4 r) wire events (.v4 r') ∧ V4InStep argon2id w' r' := by
  unfold V4Writer.frame
  by_cases hnil : payload = []
  · rw [if_pos hnil, hnil]
    obtain ⟨w', wire, r', hw, hreads, hstep⟩ := h.writeFrame_zero (draws 0)
    exact ⟨w', wire, [.zero], r', hw, .nil, hreads, hstep⟩
  · rw [if_neg hnil]
    obtain ⟨w', wire, pieces, r', hw, hcut, hreads, hstep⟩ :=
      h.frameFor_reads draws 0 (Nat.le_refl payload.length)
    exact ⟨w', wire, _, r', hw, .of_cut hnil hcut, hreads, hstep⟩

/-! ## Either framing -/

/-- The reader at the other end is between two chunks and has counted the same blocks. -/
inductive InStep (argon2id : Bytes → Bytes → ByteVec 32) : Writer → Reader → Prop
  | v3 (psk : Bytes) (kind : AeadKind) (c : Option SsCrypto) :
    InStep argon2id (.v3 ⟨psk, kind, c⟩) (.v3 ⟨psk, kind, c, .len⟩)
  | v4 {w : V4Writer} {r : V4Reader} (h : V4InStep argon2id w r) :
    InStep argon2id (.v4 w) (.v4 r)

/-- What one end frames the other end reads. -/
theorem frame_reads {w : Writer} {r : Reader} (h : InStep argon2id w r) (d : Draws)
    (payload : Bytes) :
    ∃ w' wire events r', w.frame argon2id d payload = .ok (w', wire) ∧ Framed payload events ∧
      (framing argon2id).Reads r wire events r' ∧ InStep argon2id w' r' := by
  cases h with
  | v3 psk kind c =>
    obtain ⟨c₁, wire₁, h₁, hreads₁⟩ :=
      V3Writer.start_reads argon2id ⟨psk, kind, c⟩ d.salt
    obtain ⟨c₂, wire₂, events, h₂, hframed, hreads₂⟩ :=
      V3Writer.frameWith_reads argon2id psk kind c₁ payload
    refine ⟨.v3 ⟨psk, kind, some c₂⟩, wire₁ ++ wire₂, events, _, ?_, hframed,
      hreads₁.trans hreads₂, .v3 psk kind (some c₂)⟩
    unfold Writer.frame V3Writer.frame
    dsimp only
    rw [h₁, bind_ok, h₂]
    rfl
  | v4 h =>
    obtain ⟨w', wire, events, r', hw, hframed, hreads, hstep⟩ := h.frame_reads d.frames payload
    refine ⟨.v4 w', wire, events, .v4 r', ?_, hframed, hreads, .v4 hstep⟩
    unfold Writer.frame
    dsimp only
    rw [hw]
    rfl

/-- A packet goes out as one frame. -/
theorem framePacket_frame {w : Writer} {r : Reader} (h : InStep argon2id w r) (d : Draws)
    {packet : Bytes} (hne : packet ≠ []) (hlen : packet.length ≤ maxLength) :
    ∃ w' wire r', w.framePacket argon2id d packet = .ok (w', wire) ∧
      (framing argon2id).Frame r wire (.payload packet) r' ∧ InStep argon2id w' r' := by
  cases h with
  | v3 psk kind c =>
    obtain ⟨c₁, wire₁, h₁, hreads₁⟩ :=
      V3Writer.start_reads argon2id ⟨psk, kind, c⟩ d.salt
    obtain ⟨c₂, wire₂, h₂, hframe₂⟩ := frameChunk_frame argon2id psk kind c₁ hne hlen
    refine ⟨.v3 ⟨psk, kind, some c₂⟩, wire₁ ++ wire₂, _, ?_, hreads₁.frame hframe₂,
      .v3 psk kind (some c₂)⟩
    have hpos : packet.length = (packet.length - 1) + 1 := by
      have := List.length_pos_of_ne_nil hne
      omega
    have hchunks : frameChunks packet.length c₁ packet = .ok (c₂, wire₂) := by
      have hall : packet.take v3Chunk = packet := List.take_of_length_le hlen
      have hdrop : packet.drop v3Chunk = [] := List.drop_of_length_le hlen
      have hrest : ∀ n, frameChunks n c₂ [] = .ok (c₂, []) := by
        intro n
        cases n with
        | zero => rfl
        | succ n => exact if_pos rfl
      rw [hpos, frameChunks, if_neg hne, hall, h₂, bind_ok, hdrop, hrest]
      show Except.ok _ = Except.ok _
      rw [List.append_nil]
    unfold Writer.framePacket V3Writer.frame V3Writer.frameWith
    dsimp only
    rw [h₁, bind_ok, if_neg hne, hchunks]
    rfl
  | @v4 w r h =>
    obtain ⟨w', wire, r', hw, hframe, hstep⟩ := h.writeFrame_frame (d.frames 0) hne hlen
      (h.nextFramePaddingLength_le packet.length)
    refine ⟨.v4 w', wire, .v4 r', ?_, hframe, .v4 hstep⟩
    unfold Writer.framePacket
    dsimp only
    rw [hw]
    rfl

end Reads

end RustCrash.Snell
