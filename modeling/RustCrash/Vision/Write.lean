import RustCrash.Vision.Conn

/-
  What a connection sends: its uuid, frames, and after the last of them the bytes as they are.

  `Framed` is that stream behind the uuid, and every call of the writer makes it longer by what it
  has accepted (`Emitted.pollWrite`), whatever the outer stream takes of it.
-/

namespace RustCrash.Vision

open Lib

/-- A frame that is within the limits of its header. -/
def Fits (content : Bytes) (pad : Nat) : Prop := content.length ≤ frameContentLimit ∧
  pad ≤ frameContentLimit - content.length

/-- Frames that carry some bytes, while the padding goes on or with what comes after it. -/
inductive Framed : Bool → Bytes → Bytes → Prop
  | done : Framed true [] []
  | more {padding : Bool} {content wire bs : Bytes} {pad : Nat} (hfits : Fits content pad)
      (hrest : Framed padding wire bs) :
      Framed padding (frame .continue content pad none ++ wire) (content ++ bs)
  | last {content raw : Bytes} {pad : Nat} (hfits : Fits content pad) :
      Framed false (frame .end content pad none ++ raw) (content ++ raw)

theorem length_frame (command : FrameCommand) (content : Bytes) (pad : Nat) :
    (frame command content pad none).length = 5 + content.length + pad := by
  unfold frame
  simp only [List.length_append, length_be16, List.length_replicate, Option.map_none,
    Option.getD_none, List.length_nil, List.length_singleton]

theorem frame_uuid (command : FrameCommand) (content : Bytes) (pad : Nat) (uuid : ByteVec 16) :
    frame command content pad (some uuid) = uuid.val ++ frame command content pad none := by
  unfold frame
  simp only [Option.map_some, Option.map_none, Option.getD_some, Option.getD_none,
    List.nil_append, List.append_assoc]

theorem Framed.length {padding : Bool} {wire bs : Bytes} (h : Framed padding wire bs) :
    wire = [] ∨ 5 ≤ wire.length := by
  cases h with
  | done => exact .inl rfl
  | more => rw [List.length_append, length_frame]; omega
  | last => rw [List.length_append, length_frame]; omega

/-- One more frame. -/
theorem Framed.frame {wire bs content : Bytes} {pad : Nat} {command : FrameCommand}
    (h : Framed true wire bs) (hfits : Fits content pad) (hcommand : command ≠ .direct) :
    Framed (command == .continue) (wire ++ frame command content pad none) (bs ++ content) := by
  generalize hpadding : true = padding at h
  induction h with
  | done =>
    cases command with
    | «continue» =>
      have h := Framed.more hfits .done
      rwa [List.append_nil, List.append_nil] at h
    | «end» =>
      have h : Framed false (Vision.frame .end content pad none ++ []) (content ++ []) :=
        Framed.last hfits
      rwa [List.append_nil, List.append_nil] at h
    | direct => exact absurd rfl hcommand
  | more hfits' _ ih =>
    rw [List.append_assoc, List.append_assoc]
    exact .more hfits' (ih hpadding)
  | last => cases hpadding

/-- Bytes behind the last frame. -/
theorem Framed.raw {wire bs : Bytes} (h : Framed false wire bs) (raw : Bytes) :
    Framed false (wire ++ raw) (bs ++ raw) := by
  generalize hpadding : false = padding at h
  induction h with
  | done => cases hpadding
  | more hfits _ ih =>
    rw [List.append_assoc, List.append_assoc]
    exact .more hfits (ih hpadding)
  | last hfits =>
    rw [List.append_assoc, List.append_assoc]
    exact .last hfits

/-! ## The writer -/

/-- All that a writer has queued so far, when it has accepted `plain`. -/
def Emitted (uuid : ByteVec 16) (c : VisionConn) (sent plain : Bytes) : Prop :=
  (c.onceUuid = some uuid ∧ c.padding = true ∧ sent ++ c.pending = [] ∧ plain = []) ∨
    (c.onceUuid = none ∧ ∃ wire, wire ≠ [] ∧ sent ++ c.pending = uuid.val ++ wire ∧
      Framed c.padding wire plain)

namespace Emitted

variable {uuid : ByteVec 16} {c : VisionConn} {sent plain : Bytes}

theorem new (uuid : ByteVec 16) (requireCompleteRecords : Bool) :
    Emitted uuid (.new uuid requireCompleteRecords) [] [] := .inl ⟨rfl, rfl, rfl, rfl⟩

/-- Only the padding, the uuid and the queue matter, with what was sent. -/
theorem congr {c' : VisionConn} {sent' : Bytes} (h : Emitted uuid c sent plain)
    (honce : c'.onceUuid = c.onceUuid) (hpadding : c'.padding = c.padding)
    (hall : sent' ++ c'.pending = sent ++ c.pending) : Emitted uuid c' sent' plain := by
  unfold Emitted
  rw [honce, hpadding, hall]
  exact h

theorem frame {content : Bytes} {pad : Nat} {command : FrameCommand}
    (h : Emitted uuid c sent plain) (hpadding : c.padding = true) (hfits : Fits content pad)
    (hcommand : command ≠ .direct) :
    Emitted uuid { c with
        pending := c.pending ++ Vision.frame command content pad c.onceUuid
        onceUuid := none
        padding := command == .continue } sent (plain ++ content) := by
  rcases h with ⟨honce, -, hall, rfl⟩ | ⟨honce, wire, hne, hall, hframed⟩
  · have hfirst := Framed.done.frame hfits hcommand
    refine .inr ⟨rfl, Vision.frame command content pad none, ?_, ?_, hfirst⟩
    · intro hnil
      have hlen := length_frame command content pad
      rw [hnil, List.length_nil] at hlen
      omega
    · rw [honce, frame_uuid, ← List.append_assoc, hall, List.nil_append]
  · rw [hpadding] at hframed
    refine .inr ⟨rfl, wire ++ Vision.frame command content pad none,
      List.append_ne_nil_of_left_ne_nil hne _, ?_, hframed.frame hfits hcommand⟩
    rw [honce, ← List.append_assoc, hall, List.append_assoc]

/-- Bytes as they are, queued or sent. -/
theorem raw {c' : VisionConn} {sent' bs : Bytes} (h : Emitted uuid c sent plain)
    (hpadding : c.padding = false) (honce : c'.onceUuid = c.onceUuid) (hsame : c'.padding = false)
    (hall : sent' ++ c'.pending = sent ++ c.pending ++ bs) :
    Emitted uuid c' sent' (plain ++ bs) := by
  rcases h with ⟨-, htrue, -⟩ | ⟨hnone, wire, hne, hwire, hframed⟩
  · exact absurd (htrue.symm.trans hpadding) nofun
  · rw [hpadding] at hframed
    refine .inr ⟨honce.trans hnone, wire ++ bs, List.append_ne_nil_of_left_ne_nil hne _, ?_, ?_⟩
    · rw [hall, hwire, List.append_assoc]
    · rw [hsame]
      exact hframed.raw bs

theorem decide_ne_direct (c : VisionConn) (content : Bytes) : (c.decide content).1 ≠ .direct := by
  unfold VisionConn.decide transitionCommand
  dsimp only
  split_ifs <;> nofun

theorem framePiece {piece : Bytes} (h : Emitted uuid c sent plain) (draw : Nat)
    (hlen : piece.length ≤ frameContentLimit) :
    Emitted uuid (c.framePiece draw piece) sent (plain ++ piece) := by
  unfold VisionConn.framePiece
  by_cases hpadding : c.padding = true
  · rw [if_pos hpadding]
    exact h.frame hpadding ⟨hlen, paddingLen_le _ _ _⟩ (decide_ne_direct c piece)
  · rw [if_neg hpadding]
    have hfalse := Bool.eq_false_of_not_eq_true hpadding
    exact h.raw hfalse rfl hfalse (List.append_assoc _ _ _).symm

theorem framePieces {pieces : List Bytes} {i : Nat} (h : Emitted uuid c sent plain)
    (draw : Nat → Nat) (hlen : ∀ piece ∈ pieces, piece.length ≤ frameContentLimit) :
    Emitted uuid (VisionConn.framePieces draw i c pieces) sent (plain ++ pieces.flatten) := by
  induction pieces generalizing i c plain with
  | nil =>
    rw [List.flatten_nil, List.append_nil]
    exact h
  | cons piece pieces ih =>
    rw [List.flatten_cons, ← List.append_assoc]
    exact ih (h.framePiece (draw i) (hlen piece List.mem_cons_self))
      fun p hp => hlen p (List.mem_cons_of_mem _ hp)

theorem frameIntoPending (h : Emitted uuid c sent plain) (draw : Nat → Nat) (data : Bytes) :
    Emitted uuid (c.frameIntoPending draw data) sent (plain ++ data) := by
  have hobserved : Emitted uuid { c with filter := c.filter.observe data } sent plain :=
    h.congr rfl rfl rfl
  have hpieces : ∀ piece ∈ reshape data, piece.length ≤ frameContentLimit :=
    fun _ => length_reshape_le
  have hframed := hobserved.framePieces (i := 0) draw hpieces
  rw [flatten_reshape] at hframed
  exact hframed

end Emitted

/-- What is drained was in front of the queue. -/
theorem VisionConn.sent_drain (grants : List Grant) (pending : Bytes) :
    (drain grants pending).sent ++ (drain grants pending).left = pending := by
  induction grants generalizing pending with
  | nil => cases pending <;> rfl
  | cons grant grants ih =>
    cases pending with
    | nil => rfl
    | cons b pending =>
      rcases grant with _ | ⟨e | n⟩
      · rfl
      · rfl
      · cases n with
        | zero => rfl
        | succ n =>
          unfold drain
          dsimp only
          rw [List.append_assoc, ih, List.take_append_drop]

/-- A drain that is through leaves nothing. -/
theorem VisionConn.left_drain {grants : List Grant} {pending : Bytes}
    (h : (drain grants pending).res = .ready (.ok ())) : (drain grants pending).left = [] := by
  induction grants generalizing pending with
  | nil =>
    cases pending with
    | nil => rfl
    | cons b pending => cases h
  | cons grant grants ih =>
    cases pending with
    | nil => rfl
    | cons b pending =>
      rcases grant with _ | ⟨e | n⟩
      · cases h
      · cases h
      · cases n with
        | zero => cases h
        | succ n => exact ih h

/-- What a write has accepted of its data. -/
def accepted (data : Bytes) : Poll (IoResult Nat) → Bytes
  | .ready (.ok n) => data.take n
  | _ => []

namespace Emitted

open VisionConn

variable {uuid : ByteVec 16} {c : VisionConn} {sent plain : Bytes}

/-- Draining moves bytes from the queue to the stream. -/
theorem drained (h : Emitted uuid c sent plain) (grants : List Grant) :
    Emitted uuid { c with pending := (drain grants c.pending).left }
      (sent ++ (drain grants c.pending).sent) plain := by
  refine h.congr rfl rfl ?_
  rw [List.append_assoc, sent_drain]

theorem writeThrough (h : Emitted uuid c sent plain) (hpadding : c.padding = false)
    (hpending : c.pending = []) (data : Bytes) (grants : List Grant) :
    Emitted uuid (c.writeThrough data grants).conn (sent ++ (c.writeThrough data grants).sent)
      (plain ++ accepted data (c.writeThrough data grants).res) := by
  have hnone : Emitted uuid c (sent ++ []) (plain ++ []) := by
    rw [List.append_nil, List.append_nil]
    exact h
  rcases grants with _ | ⟨_ | ⟨e | n⟩, grants⟩
  · exact hnone
  · exact hnone
  · exact hnone
  · refine h.raw hpadding rfl hpadding ?_
    have hmin : data.take (min n data.length) = data.take n := by
      rw [← List.take_take, List.take_length]
    unfold VisionConn.writeThrough accepted
    dsimp only
    rw [hpending, List.append_nil, List.append_nil, hmin]

theorem pollWrite (h : Emitted uuid c sent plain) (draw : Nat → Nat) (data : Bytes)
    (grants : List Grant) :
    Emitted uuid (c.pollWrite draw data grants).conn (sent ++ (c.pollWrite draw data grants).sent)
      (plain ++ accepted data (c.pollWrite draw data grants).res) := by
  have hfirst := h.drained grants
  unfold VisionConn.pollWrite
  dsimp only
  split_ifs with hthrough hempty hpadding
  · have hthis := hfirst.writeThrough hthrough.1 hthrough.2 data (drain grants c.pending).grants
    rwa [List.append_assoc] at hthis
  · rw [accepted, hempty, List.take_nil, List.append_nil]
    exact hfirst
  · have hframed := (hfirst.frameIntoPending draw data).drained (drain grants c.pending).grants
    rw [List.append_assoc] at hframed
    rw [accepted, List.take_length]
    exact hframed
  · have hfalse := Bool.eq_false_of_not_eq_true hpadding
    have hqueued : Emitted uuid { c with pending := (drain grants c.pending).left ++ data }
        (sent ++ (drain grants c.pending).sent) (plain ++ data) :=
      hfirst.raw hfalse rfl hfalse (List.append_assoc _ _ _).symm
    have hraw := hqueued.drained (drain grants c.pending).grants
    rw [List.append_assoc] at hraw
    rw [accepted, List.take_length]
    exact hraw

theorem pollFlush (h : Emitted uuid c sent plain) (grants : List Grant)
    (outer : Poll (IoResult Unit)) :
    Emitted uuid (c.pollFlush grants outer).conn (sent ++ (c.pollFlush grants outer).sent) plain :=
  h.drained grants

theorem hideVlessHeader (h : Emitted uuid c sent plain) (draw : Nat) :
    Emitted uuid (c.hideVlessHeader draw).1 sent plain := by
  unfold VisionConn.hideVlessHeader
  split_ifs with hpadding
  · exact h
  have htrue := Bool.eq_true_of_not_eq_false hpadding
  cases honce : c.onceUuid with
  | none => exact h
  | some u =>
    have hfits : Fits [] (paddingLen 0 true draw) :=
      ⟨Nat.zero_le _, paddingLen_le 0 true draw⟩
    have hcommand : FrameCommand.continue ≠ .direct := nofun
    have hframed := h.frame htrue hfits hcommand
    rw [List.append_nil, honce] at hframed
    exact hframed.congr rfl htrue rfl

end Emitted

end RustCrash.Vision
