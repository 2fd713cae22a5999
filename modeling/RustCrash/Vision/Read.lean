import RustCrash.Vision.Write

/-
  What a connection makes of the stream of another one with its uuid.

  `Carries` says what the buffer and the bytes that are still to come amount to, phase by phase. A
  pass of the loop keeps it (`Carries.turn`), so that a read gives the next bytes, whatever the
  cuts are, or waits (`Holds.pollRead`).
-/

namespace RustCrash.Vision

open Lib

/-- What comes behind a frame with that command. -/
def Follows (command : FrameCommand) (wire bs : Bytes) : Prop :=
  command = .continue ∧ (∃ padding, Framed padding wire bs) ∨ command = .end ∧ bs = wire

namespace VisionConn

variable {c : VisionConn} {later bs : Bytes} {cap : Nat}

/-- The buffer and what is to come give these bytes. -/
def Carries (c : VisionConn) (later bs : Bytes) : Prop :=
  match c.phase with
  | .init => c.inBuf ++ later = [] ∧ bs = [] ∨
      ∃ padding wire, wire ≠ [] ∧ c.inBuf ++ later = c.uuid.val ++ wire ∧ Framed padding wire bs
  | .header => ∃ padding, Framed padding (c.inBuf ++ later) bs
  | .content => 0 < c.remainingContent ∧ ∃ content wire rest,
      content.length = c.remainingContent ∧
      c.inBuf ++ later = content ++ (List.replicate c.remainingPadding 0 ++ wire) ∧
      bs = content ++ rest ∧ Follows c.currentCommand wire rest
  | .padding => 0 < c.remainingPadding ∧ ∃ wire,
      c.inBuf ++ later = List.replicate c.remainingPadding 0 ++ wire ∧
      Follows c.currentCommand wire bs
  | .raw => bs = c.inBuf ++ later
  | _ => False

/-- The fields that reading goes by. -/
structure SameReader (c c' : VisionConn) : Prop where
  uuid : c'.uuid = c.uuid
  inBuf : c'.inBuf = c.inBuf
  phase : c'.phase = c.phase
  remainingContent : c'.remainingContent = c.remainingContent
  remainingPadding : c'.remainingPadding = c.remainingPadding
  currentCommand : c'.currentCommand = c.currentCommand
  eof : c'.eof = c.eof

theorem Carries.congr {c' : VisionConn} (h : c.Carries later bs) (hsame : SameReader c c') :
    c'.Carries later bs := by
  unfold Carries
  rw [hsame.phase, hsame.inBuf, hsame.uuid, hsame.remainingContent, hsame.remainingPadding,
    hsame.currentCommand]
  exact h

/-- More bytes in the buffer. -/
theorem Carries.feed {more : Bytes} (h : c.Carries (more ++ later) bs) :
    { c with inBuf := c.inBuf ++ more }.Carries later bs := by
  unfold Carries at h ⊢
  simp only [List.append_assoc]
  exact h

/-! ## A pass of the loop -/

/-- What a pass may come to. -/
def Passes (c : VisionConn) (later bs : Bytes) (cap : Nat) : Turn → Prop
  | .again c' => c'.Carries later bs ∧ c'.eof = c.eof
  | .gives c' out =>
    (∃ rest, c'.Carries later rest ∧ bs = out ++ rest) ∧ c'.eof = c.eof ∧ (0 < cap → out ≠ [])
  | .fails _ _ => False
  | .through => c.phase = .raw ∧ c.inBuf = []
  | .wants => later = [] → bs = [] ∧ c.inBuf = [] ∧ (c.phase = .init ∨ c.phase = .header)

theorem Carries.afterBlock {wire : Bytes} (h : Follows c.currentCommand wire bs)
    (hwire : c.inBuf ++ later = wire) : c.enterAfterBlock.Carries later bs := by
  unfold enterAfterBlock
  rcases h with ⟨hcommand, padding, hframed⟩ | ⟨hcommand, rfl⟩
  · rw [hcommand]
    exact ⟨padding, hwire ▸ hframed⟩
  · rw [hcommand]
    exact hwire.symm

theorem Carries.turnInit (h : c.Carries later bs) (hphase : c.phase = .init) :
    c.Passes later bs cap c.turnInit := by
  unfold Carries at h
  rw [hphase] at h
  rcases h with ⟨hnil, rfl⟩ | ⟨padding, wire, hne, hwire, hframed⟩
  · obtain ⟨hbuf, -⟩ := List.append_eq_nil_iff.mp hnil
    unfold VisionConn.turnInit
    rw [if_pos (by rw [hbuf]; decide)]
    exact fun _ => ⟨rfl, hbuf, .inl hphase⟩
  · have huuid := c.uuid.property
    have hlong : 21 ≤ (c.inBuf ++ later).length := by
      have hfive := hframed.length.resolve_left hne
      rw [hwire, List.length_append, huuid]
      omega
    have hshort : c.inBuf.length < 21 → c.Passes later bs cap .wants := by
      rintro hlt rfl
      rw [List.append_nil] at hlong
      omega
    have hheader : paddingHeaderLen = 21 := rfl
    unfold VisionConn.turnInit
    split_ifs with h16 heq h21
    · exact hshort (by omega)
    · exact hshort h21
    · refine ⟨⟨padding, ?_⟩, rfl⟩
      have hdrop := congrArg (List.drop 16) hwire
      rw [List.drop_append_of_le_length (by omega), List.drop_left' huuid] at hdrop
      dsimp only
      rw [hdrop]
      exact hframed
    · refine absurd ?_ heq
      have htake := congrArg (List.take 16) hwire
      rwa [List.take_append_of_le_length (by omega), List.take_left' huuid] at htake

/-- The five bytes of a header. -/
def headerBytes (command : FrameCommand) (contentLen pad : Nat) : Bytes :=
  [command.byte] ++ be16 (UInt16.ofNat contentLen) ++ be16 (UInt16.ofNat pad)

theorem length_headerBytes (command : FrameCommand) (contentLen pad : Nat) :
    (headerBytes command contentLen pad).length = 5 := by
  unfold headerBytes
  simp only [List.length_append, length_be16, List.length_singleton]

theorem frame_eq (command : FrameCommand) (content : Bytes) (pad : Nat) :
    frame command content pad none = headerBytes command content.length pad ++
      (content ++ List.replicate pad 0) := by
  unfold frame headerBytes
  simp only [Option.map_none, Option.getD_none, List.nil_append, List.append_assoc]

theorem toNat_ofNat_of_fits {n : Nat} (h : n ≤ frameContentLimit) :
    (UInt16.ofNat n).toNat = n := by
  have hlimit : frameContentLimit = 8171 := rfl
  apply UInt16.toNat_ofNat_of_lt'
  unfold UInt16.size
  omega

/-- A whole header leads into its frame. -/
theorem turnHeader_frame {command : FrameCommand} {content rest : Bytes} {pad : Nat}
    (hfits : Fits content pad)
    (hbuf : c.inBuf = headerBytes command content.length pad ++ rest) :
    c.turnHeader = .again ({ c with inBuf := rest }.enterFrame command content.length pad) := by
  have hlen := length_headerBytes command content.length pad
  have hbyte : c.inBuf.getD 0 0 = command.byte := by
    rw [hbuf]
    rfl
  have hcontent : (c.inBuf.drop 1).take 2 = be16 (UInt16.ofNat content.length) := by
    rw [hbuf]
    unfold headerBytes
    rw [List.append_assoc, List.append_assoc, List.drop_left' (List.length_singleton),
      List.take_left' (length_be16 _)]
  have hpad : (c.inBuf.drop 3).take 2 = be16 (UInt16.ofNat pad) := by
    rw [hbuf]
    unfold headerBytes
    rw [List.append_assoc, List.drop_left' (by rw [List.length_append, length_be16]; rfl),
      List.take_left' (length_be16 _)]
  have hdrop : c.inBuf.drop 5 = rest := by
    rw [hbuf, List.drop_left' hlen]
  have hpadlen : pad ≤ frameContentLimit := Nat.le_trans hfits.2 (Nat.sub_le _ _)
  unfold turnHeader
  dsimp only
  rw [if_neg (by rw [hbuf, List.length_append]; omega), hbyte, FrameCommand.fromByte_byte,
    hcontent, hpad, ofBE16_be16, ofBE16_be16, toNat_ofNat_of_fits hfits.1,
    toNat_ofNat_of_fits hpadlen, hdrop]

/-- Behind a header comes its content, its padding and what follows. -/
theorem Carries.enterFrame {command : FrameCommand} {content wire : Bytes} {pad : Nat}
    (hbuf : c.inBuf ++ later = content ++ (List.replicate pad 0 ++ wire))
    (h : Follows command wire bs) :
    (c.enterFrame command content.length pad).Carries later (content ++ bs) := by
  unfold VisionConn.enterFrame
  dsimp only
  split_ifs with hcontent hpad
  · exact ⟨hcontent, content, wire, bs, rfl, hbuf, rfl, h⟩
  · obtain rfl := List.eq_nil_of_length_eq_zero (Nat.eq_zero_of_not_pos hcontent)
    exact ⟨hpad, wire, hbuf, h⟩
  · obtain rfl := List.eq_nil_of_length_eq_zero (Nat.eq_zero_of_not_pos hcontent)
    obtain rfl := Nat.eq_zero_of_not_pos hpad
    exact Carries.afterBlock h hbuf

theorem eof_enterFrame (c : VisionConn) (command : FrameCommand) (contentLen pad : Nat) :
    (c.enterFrame command contentLen pad).eof = c.eof := by
  unfold VisionConn.enterFrame
  dsimp only
  split_ifs <;> rfl

theorem Carries.turnHeader_of {command : FrameCommand} {content wire : Bytes} {pad : Nat}
    (hfits : Fits content pad) (hlen : ¬ c.inBuf.length < 5)
    (hbuf : c.inBuf ++ later = frame command content pad none ++ wire)
    (h : Follows command wire bs) :
    c.Passes later (content ++ bs) cap c.turnHeader := by
  rw [frame_eq, List.append_assoc, List.append_assoc] at hbuf
  obtain ⟨rest, hrest⟩ : headerBytes command content.length pad <+: c.inBuf :=
    List.prefix_of_prefix_length_le ⟨_, hbuf.symm⟩ (List.prefix_append _ _)
      (by rw [length_headerBytes]; omega)
  have hafter : rest ++ later = content ++ (List.replicate pad 0 ++ wire) := by
    rw [← hrest, List.append_assoc] at hbuf
    exact List.append_cancel_left hbuf
  rw [turnHeader_frame hfits hrest.symm]
  exact ⟨Carries.enterFrame (c := { c with inBuf := rest }) hafter h, eof_enterFrame _ _ _ _⟩

theorem Carries.turnHeader (h : c.Carries later bs) (hphase : c.phase = .header) :
    c.Passes later bs cap c.turnHeader := by
  unfold Carries at h
  rw [hphase] at h
  obtain ⟨padding, hframed⟩ := h
  by_cases hlen : c.inBuf.length < 5
  · unfold VisionConn.turnHeader
    rw [if_pos hlen]
    rintro rfl
    rw [List.append_nil] at hframed
    have hbuf := hframed.length.resolve_right (by omega)
    rw [hbuf] at hframed
    generalize hnil : ([] : Bytes) = wire at hframed
    cases hframed with
    | done => exact ⟨rfl, hbuf, .inr hphase⟩
    | more =>
      have hzero := congrArg List.length hnil
      rw [List.length_append, length_frame, List.length_nil] at hzero
      omega
    | last =>
      have hzero := congrArg List.length hnil
      rw [List.length_append, length_frame, List.length_nil] at hzero
      omega
  · generalize hall : c.inBuf ++ later = wire at hframed
    cases hframed with
    | done =>
      obtain ⟨hbuf, -⟩ := List.append_eq_nil_iff.mp hall
      rw [hbuf] at hlen
      exact absurd (by decide) hlen
    | more hfits hrest => exact Carries.turnHeader_of hfits hlen hall (.inl ⟨rfl, _, hrest⟩)
    | last hfits => exact Carries.turnHeader_of hfits hlen hall (.inr ⟨rfl, rfl⟩)

/-- A piece of what is in front of the buffer. -/
theorem take_front {buf front wire : Bytes} {n : Nat} (hbuf : buf ++ later = front ++ wire)
    (hn : n ≤ buf.length) (hfront : n ≤ front.length) :
    buf.take n = front.take n ∧ buf.drop n ++ later = front.drop n ++ wire := by
  have htake := congrArg (List.take n) hbuf
  have hdrop := congrArg (List.drop n) hbuf
  rw [List.take_append_of_le_length hn, List.take_append_of_le_length hfront] at htake
  rw [List.drop_append_of_le_length hn, List.drop_append_of_le_length hfront] at hdrop
  exact ⟨htake, hdrop⟩

theorem Carries.turnContent (h : c.Carries later bs) (hphase : c.phase = .content) :
    c.Passes later bs cap (c.turnContent cap) := by
  have hcarries := h
  unfold Carries at h
  rw [hphase] at h
  obtain ⟨hpos, content, wire, rest, hlen, hbuf, rfl, hfollows⟩ := h
  unfold VisionConn.turnContent
  dsimp only
  split_ifs with hempty hzero hmore hpad
  · rintro rfl
    rw [hempty] at hbuf
    obtain ⟨hnil, -⟩ := List.append_eq_nil_iff.mp hbuf.symm
    rw [hnil] at hlen
    exact absurd hlen (Nat.ne_of_lt hpos)
  · have hne := List.length_pos_of_ne_nil hempty
    exact ⟨⟨_, hcarries, rfl⟩, rfl, fun hcap => by omega⟩
  all_goals
    generalize hn : min (min c.inBuf.length c.remainingContent) cap = n at *
    obtain ⟨htake, hdrop⟩ := take_front (n := n) hbuf (by omega) (by omega)
    have hne : c.inBuf.take n ≠ [] := by
      intro hnil
      rcases List.take_eq_nil_iff.mp hnil with h | h
      · exact hzero h
      · exact hempty h
  · refine ⟨⟨content.drop n ++ rest, ?_, ?_⟩, rfl, fun _ => hne⟩
    · unfold Carries
      dsimp only
      rw [hphase]
      exact ⟨hmore, content.drop n, wire, rest, by rw [List.length_drop, hlen], hdrop, rfl,
        hfollows⟩
    · rw [htake, ← List.append_assoc, List.take_append_drop]
  all_goals
    have hall : n = content.length := by omega
    rw [hall, List.take_length] at htake
    rw [hall, List.drop_length, List.nil_append] at hdrop
    rw [← hall] at hdrop
  · refine ⟨⟨rest, ⟨hpad, wire, hdrop, hfollows⟩, ?_⟩, rfl, fun _ => hne⟩
    rw [hall, htake]
  · have hnopad : c.remainingPadding = 0 := Nat.eq_zero_of_not_pos hpad
    rw [hnopad, List.replicate_zero, List.nil_append] at hdrop
    refine ⟨⟨rest, Carries.afterBlock hfollows hdrop, ?_⟩, rfl, fun _ => hne⟩
    rw [hall, htake]

theorem Carries.turnPadding (h : c.Carries later bs) (hphase : c.phase = .padding) :
    c.Passes later bs cap c.turnPadding := by
  unfold Carries at h
  rw [hphase] at h
  obtain ⟨hpos, wire, hbuf, hfollows⟩ := h
  unfold VisionConn.turnPadding
  dsimp only
  split_ifs with hempty hmore
  · rintro rfl
    rw [hempty] at hbuf
    have hzero := congrArg List.length hbuf
    rw [List.append_nil, List.length_nil, List.length_append, List.length_replicate] at hzero
    omega
  all_goals
    generalize hn : min c.inBuf.length c.remainingPadding = n at *
    obtain ⟨-, hdrop⟩ := take_front (n := n) hbuf (by omega)
      (by rw [List.length_replicate]; omega)
    rw [List.drop_replicate] at hdrop
  · refine ⟨?_, rfl⟩
    unfold Carries
    dsimp only
    rw [hphase]
    exact ⟨hmore, wire, hdrop, hfollows⟩
  · have hdone : c.remainingPadding - n = 0 := Nat.eq_zero_of_not_pos hmore
    rw [hdone, List.replicate_zero, List.nil_append] at hdrop
    exact ⟨Carries.afterBlock hfollows hdrop, rfl⟩

theorem Carries.turnRaw (h : c.Carries later bs) (hphase : c.phase = .raw) :
    c.Passes later bs cap (c.turnRaw cap) := by
  unfold Carries at h
  rw [hphase] at h
  unfold VisionConn.turnRaw
  by_cases hempty : c.inBuf = []
  · rw [if_pos hempty]
    exact ⟨hphase, hempty⟩
  · rw [if_neg hempty]
    refine ⟨⟨c.inBuf.drop cap ++ later, ?_, ?_⟩, rfl, fun hcap hnil => ?_⟩
    · unfold Carries
      dsimp only
      rw [hphase]
    · rw [← List.append_assoc, List.take_append_drop]
      exact h
    · rcases List.take_eq_nil_iff.mp hnil with h | h
      · omega
      · exact hempty h

/-- A pass of the loop. -/
theorem Carries.turn (h : c.Carries later bs) : c.Passes later bs cap (c.turn cap) := by
  unfold VisionConn.turn
  cases hphase : c.phase with
  | init => exact h.turnInit hphase
  | header => exact h.turnHeader hphase
  | content => exact h.turnContent hphase
  | padding => exact h.turnPadding hphase
  | raw => exact h.turnRaw hphase
  | unframed =>
    unfold Carries at h
    rw [hphase] at h
    exact h.elim
  | rawDirect =>
    unfold Carries at h
    rw [hphase] at h
    exact h.elim

end VisionConn

end RustCrash.Vision
