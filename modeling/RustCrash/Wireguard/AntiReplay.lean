import RustCrash.Lib.Bits
import RustCrash.Lib.Windows

/-
  The anti-replay window of a WireGuard session (`AntiReplay` in `proto/wireguard.rs`).

  The 2048 bits are a ring window over the counters accepted so far (`Represents`), in every
  state. `accept` tests the bit of a new counter before the window slides, while the bit
  still stands for the counter 2048 below. So it refuses a fresh counter exactly when that
  one was accepted (`accept_iff`).
-/

namespace RustCrash.Wireguard

open Lib

def rejectAfterMessages : UInt64 := (0xFFFFFFFFFFFFFFFF : UInt64) - ((1 : UInt64) <<< 13) - 1

/-- Sliding replay window of 2048 counters. -/
structure AntiReplay where
  last : UInt64
  words : List UInt64
  length_words : words.length = 32

namespace AntiReplay

def new : AntiReplay := ⟨0, List.replicate 32 0, by simp⟩

/-- The word of a counter's bit, and its mask. -/
def bit (c : UInt64) : Nat × UInt64 :=
  let b := c.toNat % 2048
  (b / 64, oneBit (b % 64))

def marked (w : AntiReplay) (c : UInt64) : Bool := w.words.getD (bit c).1 0 &&& (bit c).2 != 0

def mark (w : AntiReplay) (c : UInt64) : AntiReplay where
  last := w.last
  words := w.words.modify (bit c).1 (· ||| (bit c).2)
  length_words := by rw [List.length_modify, w.length_words]

def unmark (w : AntiReplay) (c : UInt64) : AntiReplay where
  last := w.last
  words := w.words.modify (bit c).1 (· &&& ~~~ (bit c).2)
  length_words := by rw [List.length_modify, w.length_words]

/-- The body of the loop: the counter sliding out of the window frees its bit. -/
def advance (w : AntiReplay) : AntiReplay :=
  let w := { w with last := w.last + 1 }
  if 2048 ≤ w.last then w.unmark (w.last - 2048) else w

/-- The body of the loop, `n` times. -/
def advanceBy : Nat → AntiReplay → AntiReplay
  | 0, w => w
  | n + 1, w => advanceBy n w.advance

/-- `while self.last < counter`. -/
def slide (w : AntiReplay) (counter : UInt64) : AntiReplay :=
  advanceBy (counter.toNat - w.last.toNat) w

/-- A jump of 2048 or more forgets the window. -/
def reset (w : AntiReplay) (counter : UInt64) : AntiReplay :=
  if w.last < counter ∧ 2048 ≤ counter - w.last then { new with last := counter } else w

/-- Accept-and-mark; false for duplicates, too-old counters, and the reserved top values. -/
def accept (w : AntiReplay) (counter : UInt64) : Bool × AntiReplay :=
  if rejectAfterMessages ≤ counter then (false, w)
  else if counter ≤ w.last ∧ 2048 ≤ w.last - counter then (false, w)
  else
    let w := w.reset counter
    if w.marked counter then (false, w) else (true, (w.slide counter).mark counter)

/-- A window that is fed counters, and the counters it accepted. -/
def feed (s : AntiReplay × List UInt64) (c : UInt64) : AntiReplay × List UInt64 :=
  match s.1.accept c with
  | (true, w) => (w, s.2 ++ [c])
  | (false, w) => (w, s.2)

def feedAll (cs : List UInt64) : AntiReplay × List UInt64 := cs.foldl feed (new, [])

/-! ## Bits -/

theorem bit_lt (c : UInt64) : (bit c).1 < 32 := by
  unfold bit
  dsimp only
  omega

theorem getElem?_words (w : AntiReplay) (c : UInt64) :
    w.words[(bit c).1]? = some (w.words.getD (bit c).1 0) := by
  have h : (bit c).1 < w.words.length := by rw [w.length_words]; exact bit_lt c
  rw [List.getD_eq_getElem?_getD, List.getElem?_eq_getElem h, Option.getD_some]

theorem marked_eq (w : AntiReplay) (c : UInt64) :
    w.marked c = bitAt w.words (c.toNat % 2048) := by
  have hget := getElem?_words w c
  unfold bitAt
  rw [bitsOf_getElem?, show c.toNat % 2048 / 64 = (bit c).1 from rfl, hget]
  unfold marked
  rw [Bool.eq_iff_iff, bne_iff_ne, show (bit c).2 = oneBit (c.toNat % 2048 % 64) from rfl,
    and_oneBit _ (Nat.mod_lt _ (by decide))]
  rfl

/-- A bit after one word was changed. -/
theorem bitAt_modify (w : AntiReplay) (c : UInt64) (f : UInt64 → UInt64) (j : Nat) :
    bitAt (w.words.modify (bit c).1 f) j =
      if (bit c).1 = j / 64 then (f (w.words.getD (bit c).1 0)).toNat.testBit (j % 64)
      else bitAt w.words j := by
  unfold bitAt
  rw [bitsOf_getElem?, bitsOf_getElem?, List.getElem?_modify]
  split_ifs with h
  · rw [← h, getElem?_words]
    rfl
  · rw [Option.map_eq_map, Option.map_id']

theorem bitAt_mark (w : AntiReplay) (c : UInt64) (j : Nat) :
    bitAt (w.mark c).words j = (bitAt w.words j || decide (j = c.toNat % 2048)) := by
  unfold mark
  dsimp only
  rw [bitAt_modify]
  by_cases h : (bit c).1 = j / 64
  · rw [if_pos h, UInt64.toNat_or, Nat.testBit_or,
      show (bit c).2 = oneBit (c.toNat % 2048 % 64) from rfl,
      toNat_oneBit (Nat.mod_lt _ (by decide)), Nat.testBit_two_pow]
    unfold bitAt
    rw [bitsOf_getElem?, ← h, getElem?_words, Option.map_some, Option.getD_some]
    congr 1
    rw [decide_eq_decide]
    unfold bit at h
    dsimp only at h
    omega
  · rw [if_neg h, decide_eq_false, Bool.or_false]
    intro he
    rw [he] at h
    exact h rfl

theorem bitAt_unmark (w : AntiReplay) (c : UInt64) (j : Nat) :
    bitAt (w.unmark c).words j = (bitAt w.words j && !decide (j = c.toNat % 2048)) := by
  unfold unmark
  dsimp only
  rw [bitAt_modify]
  by_cases h : (bit c).1 = j / 64
  · have hj : j % 64 < 64 := Nat.mod_lt _ (by decide)
    have hnot : ∀ x : UInt64, (~~~ x).toNat.testBit (j % 64) = !x.toNat.testBit (j % 64) := by
      intro x
      rw [UInt64.toNat_not, show UInt64.size - 1 - x.toNat = 2 ^ 64 - (x.toNat + 1) by
        rw [show UInt64.size = 2 ^ 64 from rfl]; omega,
        Nat.testBit_two_pow_sub_succ x.toNat_lt, decide_eq_true hj, Bool.true_and]
    rw [if_pos h, UInt64.toNat_and, Nat.testBit_and, hnot,
      show (bit c).2 = oneBit (c.toNat % 2048 % 64) from rfl,
      toNat_oneBit (Nat.mod_lt _ (by decide)), Nat.testBit_two_pow]
    unfold bitAt
    rw [bitsOf_getElem?, ← h, getElem?_words, Option.map_some, Option.getD_some]
    congr 2
    rw [decide_eq_decide]
    unfold bit at h
    dsimp only at h
    omega
  · rw [if_neg h, decide_eq_false, Bool.not_false, Bool.and_true]
    intro he
    rw [he] at h
    exact h rfl

/-! ## The window -/

/-- The counters accepted, as numbers. -/
def members (accepted : List UInt64) : Set Nat := {x | ∃ m ∈ accepted, m.toNat = x}

theorem members_append (accepted : List UInt64) (c : UInt64) :
    members (accepted ++ [c]) = insert c.toNat (members accepted) := by
  ext x
  simp only [members, Set.mem_ofPred_eq, List.mem_append, List.mem_singleton, Set.mem_insert_iff]
  constructor
  · intro ⟨m, hm, hx⟩
    rcases hm with hm | hm
    · exact Or.inr ⟨m, hm, hx⟩
    · rw [hm] at hx
      exact Or.inl hx.symm
  · intro hx
    rcases hx with hx | ⟨m, hm, hx⟩
    · exact ⟨c, Or.inr rfl, hx.symm⟩
    · exact ⟨m, Or.inl hm, hx⟩

variable {accepted : List UInt64} {c : UInt64} {w : AntiReplay} {cs : List UInt64}

theorem toNat_mem_members : c.toNat ∈ members accepted ↔ c ∈ accepted := by
  constructor
  · intro ⟨m, hm, he⟩
    rw [← UInt64.toNat_inj.mp he]
    exact hm
  · intro h
    exact ⟨c, h, rfl⟩

/-- The window shows the counters accepted. -/
structure Represents (w : AntiReplay) (accepted : List UInt64) : Prop where
  le_last : ∀ m ∈ accepted, m.toNat ≤ w.last.toNat
  last : accepted = [] ∧ w.last = 0 ∨ w.last ∈ accepted
  ring : RingWindow.Holds 2048 (members accepted) w.last.toNat (bitAt w.words)

theorem bitAt_zeros (j : Nat) : bitAt new.words j = false := by
  have h := bitAt_append_zeros [] 32 j
  rw [List.nil_append] at h
  exact h

theorem represents_new : Represents new [] := by
  refine ⟨fun m hm => (by cases hm), Or.inl ⟨rfl, rfl⟩, ?_⟩
  have h : RingWindow.Holds 2048 (members []) 0 fun _ => false :=
    RingWindow.holds_reset fun x ⟨m, hm, _⟩ => by cases hm
  intro b hb
  rw [bitAt_zeros]
  exact h b hb

theorem advance_holds {A : Set Nat} (h : RingWindow.Holds 2048 A w.last.toNat (bitAt w.words))
    (hA : ∀ x ∈ A, x ≤ w.last.toNat) (hroom : w.last.toNat + 1 < 2 ^ 64) :
    w.advance.last.toNat = w.last.toNat + 1 ∧
      RingWindow.Holds 2048 A (w.last.toNat + 1) (bitAt w.advance.words) := by
  have hnext : (w.last + 1).toNat = w.last.toNat + 1 := by
    rw [UInt64.toNat_add, UInt64.toNat_one, Nat.mod_eq_of_lt hroom]
  unfold advance
  dsimp only
  by_cases hfull : (2048 : UInt64) ≤ w.last + 1
  · rw [if_pos hfull]
    have hle := UInt64.le_iff_toNat_le.mp hfull
    rw [hnext, show (2048 : UInt64).toNat = 2048 from rfl] at hle
    have hgone : (w.last + 1 - 2048).toNat = w.last.toNat + 1 - 2048 := by
      rw [UInt64.toNat_sub_of_le _ _ hfull, hnext]
      rfl
    refine ⟨hnext, RingWindow.holds_advance h hA fun b _ => ?_⟩
    rw [bitAt_unmark, hgone]
    simp [hle]
  · rw [if_neg hfull]
    have hlt : ¬ 2048 ≤ w.last.toNat + 1 := fun hle => hfull (UInt64.le_iff_toNat_le.mpr (by
      rw [hnext]; exact hle))
    refine ⟨hnext, RingWindow.holds_advance h hA fun b _ => ?_⟩
    simp [hlt]

theorem advanceBy_holds {A : Set Nat} (n : Nat)
    (h : RingWindow.Holds 2048 A w.last.toNat (bitAt w.words)) (hA : ∀ x ∈ A, x ≤ w.last.toNat)
    (hroom : w.last.toNat + n < 2 ^ 64) :
    (advanceBy n w).last.toNat = w.last.toNat + n ∧
      RingWindow.Holds 2048 A (w.last.toNat + n) (bitAt (advanceBy n w).words) := by
  induction n generalizing w with
  | zero => exact ⟨rfl, h⟩
  | succ n ih =>
    obtain ⟨hlast, hring⟩ := advance_holds h hA (by omega)
    rw [← hlast] at hring
    obtain ⟨hl, hr⟩ := ih hring (fun x hx => by have := hA x hx; omega) (by omega)
    rw [hlast, show w.last.toNat + 1 + n = w.last.toNat + (n + 1) by omega] at hl hr
    exact ⟨hl, hr⟩

/-- After the loop the window ends at the counter, or where it ended if that is later. -/
theorem slide_holds {A : Set Nat} (c : UInt64)
    (h : RingWindow.Holds 2048 A w.last.toNat (bitAt w.words)) (hA : ∀ x ∈ A, x ≤ w.last.toNat) :
    (w.slide c).last.toNat = max w.last.toNat c.toNat ∧
      RingWindow.Holds 2048 A (max w.last.toNat c.toNat) (bitAt (w.slide c).words) := by
  have hlt := c.toNat_lt
  have hlast := w.last.toNat_lt
  have hmax : w.last.toNat + (c.toNat - w.last.toNat) = max w.last.toNat c.toNat := by omega
  have hslide := advanceBy_holds (c.toNat - w.last.toNat) h hA (by omega)
  rw [hmax] at hslide
  exact hslide

/-- A counter inside the window or above it is marked. -/
theorem represents_mark (hle : ∀ m ∈ accepted, m.toNat ≤ w.last.toNat)
    (hlast : w.last = c ∨ w.last ∈ accepted ∨ w.last.toNat < c.toNat)
    (hring : RingWindow.Holds 2048 (members accepted) w.last.toNat (bitAt w.words))
    (hnear : w.last.toNat < c.toNat + 2048) :
    Represents ((w.slide c).mark c) (accepted ++ [c]) := by
  obtain ⟨hend, hslid⟩ := slide_holds c hring (fun x ⟨m, hm, hx⟩ => by rw [← hx]; exact hle m hm)
  have hmark : ((w.slide c).mark c).last = (w.slide c).last := rfl
  refine ⟨fun m hm => ?_, Or.inr ?_, ?_⟩
  · rw [hmark, hend]
    rcases List.mem_append.mp hm with hm | hm
    · have := hle m hm
      omega
    · rw [List.mem_singleton.mp hm]
      omega
  · rw [hmark, List.mem_append, List.mem_singleton]
    by_cases hge : w.last.toNat ≤ c.toNat
    · exact Or.inr (UInt64.toNat_inj.mp (by rw [hend]; omega))
    · rcases hlast with he | hmem | hlt
      · rw [he] at hge
        exact absurd (le_refl _) hge
      · have he : (w.slide c).last = w.last := UInt64.toNat_inj.mp (by rw [hend]; omega)
        rw [he]
        exact Or.inl hmem
      · omega
  · rw [hmark, hend, members_append]
    apply RingWindow.holds_insert hslid (by omega) (by omega)
    intro b _
    exact bitAt_mark _ c b

/-- The rule of the window: below the reserved values, not accepted before, and less than
    2048 behind the largest accepted. -/
def Allowed (accepted : List UInt64) (c : UInt64) : Prop :=
  c < rejectAfterMessages ∧ c ∉ accepted ∧ ∀ m ∈ accepted, m.toNat < c.toNat + 2048

/-- A new largest counter, less than 2048 above the last, that shares its bit with the
    accepted counter 2048 below. -/
def Stale (accepted : List UInt64) (c : UInt64) : Prop :=
  c < rejectAfterMessages ∧ (∀ m ∈ accepted, m.toNat < c.toNat) ∧
    (∃ m ∈ accepted, c.toNat < m.toNat + 2048) ∧ 2048 ≤ c.toNat ∧ c - 2048 ∈ accepted

theorem Stale.allowed (h : Stale accepted c) : Allowed accepted c := by
  obtain ⟨hreject, hnew, -⟩ := h
  refine ⟨hreject, fun hc => lt_irrefl _ (hnew c hc), fun m hm => ?_⟩
  have := hnew m hm
  omega

theorem toNat_sub_window (h : 2048 ≤ c.toNat) : (c - 2048).toNat = c.toNat - 2048 :=
  UInt64.toNat_sub_of_le _ _ (UInt64.le_iff_toNat_le.mpr h)

/-- Both range tests of `accept` compare the distance of two counters with 2048. -/
theorem distance_iff (a b : UInt64) : (a ≤ b ∧ 2048 ≤ b - a) ↔ a.toNat + 2048 ≤ b.toNat := by
  constructor
  · intro ⟨hle, hfar⟩
    have hab := UInt64.le_iff_toNat_le.mp hle
    rw [UInt64.le_iff_toNat_le, UInt64.toNat_sub_of_le _ _ hle,
      show (2048 : UInt64).toNat = 2048 from rfl] at hfar
    omega
  · intro hfar
    have hle : a ≤ b := UInt64.le_iff_toNat_le.mpr (by omega)
    refine ⟨hle, ?_⟩
    rw [UInt64.le_iff_toNat_le, UInt64.toNat_sub_of_le _ _ hle,
      show (2048 : UInt64).toNat = 2048 from rfl]
    omega

theorem jump_iff (a b : UInt64) : (a < b ∧ 2048 ≤ b - a) ↔ a.toNat + 2048 ≤ b.toNat := by
  rw [← distance_iff]
  constructor
  · intro ⟨hlt, hfar⟩
    exact ⟨UInt64.le_of_lt hlt, hfar⟩
  · intro h
    have hfar := (distance_iff a b).mp h
    exact ⟨UInt64.lt_iff_toNat_lt.mpr (by omega), h.2⟩

theorem Represents.last_mem (h : Represents w accepted) {m : UInt64} (hm : m ∈ accepted) :
    w.last ∈ accepted := by
  rcases h.last with ⟨hnil, -⟩ | hmem
  · rw [hnil] at hm
    cases hm
  · exact hmem

/-- The duplicate test, for a counter less than 2048 away from the last. -/
theorem marked_iff (h : Represents w accepted) (hbelow : c < rejectAfterMessages)
    (hnear : w.last.toNat < c.toNat + 2048) (hclose : c.toNat < w.last.toNat + 2048) :
    w.marked c = true ↔ c ∈ accepted ∨ Stale accepted c := by
  rw [marked_eq]
  by_cases hle : c.toNat ≤ w.last.toNat
  · rw [RingWindow.holds_test h.ring hle hnear, toNat_mem_members]
    refine ⟨Or.inl, fun hor => hor.elim id fun hs => ?_⟩
    obtain ⟨-, hnew, ⟨m, hm, -⟩, -⟩ := hs
    have := hnew w.last (h.last_mem hm)
    omega
  · rw [RingWindow.holds_test_above h.ring (by omega) hclose]
    constructor
    · intro ⟨hsize, hmem⟩
      rw [← toNat_sub_window hsize, toNat_mem_members] at hmem
      refine Or.inr ⟨hbelow, fun m hm => ?_, ⟨w.last, h.last_mem hmem, hclose⟩, hsize, hmem⟩
      have := h.le_last m hm
      omega
    · intro hor
      rcases hor with hc | ⟨-, -, -, hsize, hmem⟩
      · exact absurd (h.le_last c hc) hle
      · rw [← toNat_sub_window hsize, toNat_mem_members]
        exact ⟨hsize, hmem⟩

/-- A jump leaves nothing accepted in the window. -/
theorem accept_jump (h : Represents w accepted) (hjump : w.last.toNat + 2048 ≤ c.toNat) :
    (w.reset c).marked c = false ∧
      Represents (((w.reset c).slide c).mark c) (accepted ++ [c]) := by
  have hnew : ∀ m ∈ accepted, m.toNat + 2048 ≤ c.toNat := fun m hm => by
    have := h.le_last m hm
    omega
  unfold reset
  rw [if_pos ((jump_iff _ _).mpr hjump)]
  refine ⟨(marked_eq _ c).trans (bitAt_zeros _), ?_⟩
  refine represents_mark (fun m hm => ?_) (Or.inl rfl) ?_ (show c.toNat < c.toNat + 2048 by omega)
  · have := hnew m hm
    show m.toNat ≤ c.toNat
    omega
  · have hA : ∀ x ∈ members accepted, x + 2048 ≤ c.toNat := by
      intro x ⟨m, hm, hx⟩
      rw [← hx]
      exact hnew m hm
    intro b hb
    show bitAt new.words b = true ↔ _
    rw [bitAt_zeros]
    exact RingWindow.holds_reset hA b hb

/-- One call: the verdict, and that the window still shows the counters accepted. -/
theorem accept_spec (h : Represents w accepted) (c : UInt64) :
    ((w.accept c).1 = true ↔ Allowed accepted c ∧ ¬ Stale accepted c) ∧
      Represents (feed (w, accepted) c).1 (feed (w, accepted) c).2 := by
  unfold feed
  dsimp only
  unfold accept
  by_cases hreject : rejectAfterMessages ≤ c
  · rw [if_pos hreject]
    refine ⟨⟨fun hf => (by cases hf), fun ⟨ha, _⟩ => ?_⟩, h⟩
    exact absurd ha.1 (UInt64.not_lt.mpr hreject)
  have hbelow : c < rejectAfterMessages := UInt64.not_le.mp hreject
  rw [if_neg hreject]
  by_cases hold : c.toNat + 2048 ≤ w.last.toNat
  · rw [if_pos ((distance_iff _ _).mpr hold)]
    refine ⟨⟨fun hf => (by cases hf), fun ⟨ha, _⟩ => ?_⟩, h⟩
    rcases h.last with ⟨-, hzero⟩ | hmem
    · rw [hzero, UInt64.toNat_zero] at hold
      omega
    · have := ha.2.2 w.last hmem
      omega
  rw [if_neg (fun hd => hold ((distance_iff _ _).mp hd))]
  have hallowed : c ∉ accepted → Allowed accepted c := fun hc =>
    ⟨hbelow, hc, fun m hm => by have := h.le_last m hm; omega⟩
  by_cases hjump : w.last.toNat + 2048 ≤ c.toNat
  · obtain ⟨hfree, hrep⟩ := accept_jump h hjump
    dsimp only
    rw [hfree, if_neg Bool.false_ne_true]
    refine ⟨⟨fun _ => ⟨hallowed fun hc => ?_, fun hs => ?_⟩, fun _ => rfl⟩, hrep⟩
    · have := h.le_last c hc
      omega
    · obtain ⟨-, -, ⟨m, hm, hclose⟩, -⟩ := hs
      have := h.le_last m hm
      omega
  · have hmarked := marked_iff h hbelow (by omega) (show c.toNat < w.last.toNat + 2048 by omega)
    unfold reset
    rw [if_neg (fun hj => hjump ((jump_iff _ _).mp hj))]
    by_cases hm : w.marked c = true
    · rw [if_pos hm]
      refine ⟨⟨fun hf => (by cases hf), fun ⟨ha, hns⟩ => ?_⟩, h⟩
      rcases hmarked.mp hm with hc | hs
      · exact absurd hc ha.2.1
      · exact absurd hs hns
    · rw [if_neg hm]
      have hno : ¬ (c ∈ accepted ∨ Stale accepted c) := fun hor => hm (hmarked.mpr hor)
      rw [not_or] at hno
      refine ⟨⟨fun _ => ⟨hallowed hno.1, hno.2⟩, fun _ => rfl⟩, ?_⟩
      refine represents_mark h.le_last ?_ h.ring (by omega)
      rcases h.last with ⟨-, hzero⟩ | hmem
      · by_cases hc : c.toNat = 0
        · exact Or.inl (UInt64.toNat_inj.mp (by rw [hzero, hc]; rfl))
        · refine Or.inr (Or.inr ?_)
          rw [hzero, UInt64.toNat_zero]
          omega
      · exact Or.inr (Or.inl hmem)

/-! ## Sequences -/

/-- The state after some counters represents those accepted. -/
theorem represents_feedAll (cs : List UInt64) : Represents (feedAll cs).1 (feedAll cs).2 := by
  have hfold : ∀ (cs : List UInt64) (s : AntiReplay × List UInt64), Represents s.1 s.2 →
      Represents (cs.foldl feed s).1 (cs.foldl feed s).2 := by
    intro cs
    induction cs with
    | nil => exact fun s h => h
    | cons c cs ih => exact fun s h => ih (feed s c) (accept_spec h c).2
  exact hfold cs (new, []) represents_new

theorem feedAll_append (cs : List UInt64) (c : UInt64) : feedAll (cs ++ [c]) = feed (feedAll cs) c := by
  unfold feedAll
  rw [List.foldl_append]
  rfl

/-- The verdict on `c` after the counters `earlier` is the rule's. -/
def Meets (earlier : List UInt64) (c : UInt64) : Prop :=
  ((feedAll earlier).1.accept c).1 = true ↔ Allowed (feedAll earlier).2 c

/-- The next counter is a new largest one, less than 2048 above some earlier one, and the
    counter 2048 below it came before. Reserved values do not count. -/
def ReusesBit (earlier : List UInt64) (c : UInt64) : Prop :=
  c < rejectAfterMessages ∧ (∀ m ∈ earlier, m < rejectAfterMessages → m.toNat < c.toNat) ∧
    (∃ m ∈ earlier, m < rejectAfterMessages ∧ c.toNat < m.toNat + 2048) ∧ 2048 ≤ c.toNat ∧
      c - 2048 ∈ earlier

theorem meets_iff (earlier : List UInt64) (c : UInt64) :
    Meets earlier c ↔ ¬ Stale (feedAll earlier).2 c := by
  have h := (accept_spec (represents_feedAll earlier) c).1
  unfold Meets
  rw [h]
  constructor
  · intro heq hs
    exact (heq.mpr hs.allowed).2 hs
  · intro hns
    exact ⟨And.left, fun ha => ⟨ha, hns⟩⟩

theorem mem_feed {s : AntiReplay × List UInt64} {c m : UInt64} (hm : m ∈ (feed s c).2) :
    m ∈ s.2 ∨ m = c := by
  unfold feed at hm
  cases ha : s.1.accept c with
  | mk ok w =>
    rw [ha] at hm
    cases ok with
    | true => simpa using hm
    | false => exact Or.inl hm

/-- Only counters that were fed and are not reserved are accepted. -/
theorem fed_of_accepted {m : UInt64} (hm : m ∈ (feedAll cs).2) :
    m ∈ cs ∧ m < rejectAfterMessages := by
  induction cs using List.reverseRecOn with
  | nil => cases hm
  | append_singleton cs c ih =>
    rw [feedAll_append] at hm
    rw [List.mem_append, List.mem_singleton]
    by_cases hold : m ∈ (feedAll cs).2
    · exact ⟨Or.inl (ih hold).1, (ih hold).2⟩
    · have hmc : m = c := (mem_feed hm).resolve_left hold
      refine ⟨Or.inr hmc, ?_⟩
      have hok : ((feedAll cs).1.accept c).1 = true := by
        unfold feed at hm
        cases ha : (feedAll cs).1.accept c with
        | mk ok w =>
          rw [ha] at hm
          cases ok with
          | true => rfl
          | false => exact absurd hm hold
      rw [hmc]
      exact ((accept_spec (represents_feedAll cs) c).1.mp hok).1.1

/-- While every verdict was the rule's, a counter that was fed was accepted or is too old. -/
theorem accepted_of_fed (hmeets : ∀ pre c, pre ++ [c] <+: cs → Meets pre c) {m : UInt64}
    (hm : m ∈ cs) (hbelow : m < rejectAfterMessages) :
    m ∈ (feedAll cs).2 ∨ ∃ a ∈ (feedAll cs).2, m.toNat + 2048 ≤ a.toNat := by
  induction cs using List.reverseRecOn with
  | nil => cases hm
  | append_singleton cs c ih =>
    have hkeep : ∀ a ∈ (feedAll cs).2, a ∈ (feedAll (cs ++ [c])).2 := by
      intro a ha
      rw [feedAll_append]
      unfold feed
      cases (feedAll cs).1.accept c with
      | mk ok w =>
        cases ok with
        | true => exact List.mem_append_left _ ha
        | false => exact ha
    have hold : m ∈ cs → m ∈ (feedAll (cs ++ [c])).2 ∨
        ∃ a ∈ (feedAll (cs ++ [c])).2, m.toNat + 2048 ≤ a.toNat := by
      intro hmem
      rcases ih (fun pre d hpre => hmeets pre d (hpre.trans (List.prefix_append cs [c]))) hmem with
        hacc | ⟨a, ha, hfar⟩
      · exact Or.inl (hkeep m hacc)
      · exact Or.inr ⟨a, hkeep a ha, hfar⟩
    rcases List.mem_append.mp hm with hmem | hmc
    · exact hold hmem
    obtain rfl : m = c := List.mem_singleton.mp hmc
    have hverdict := hmeets cs m (List.prefix_refl _)
    by_cases hok : ((feedAll cs).1.accept m).1 = true
    · refine Or.inl ?_
      rw [feedAll_append]
      unfold feed
      cases ha : (feedAll cs).1.accept m with
      | mk ok w =>
        rw [ha] at hok
        cases ok with
        | true => exact List.mem_append_right _ (List.mem_singleton_self m)
        | false => cases hok
    · have hno : ¬ Allowed (feedAll cs).2 m := fun hal => hok (hverdict.mpr hal)
      unfold Allowed at hno
      push Not at hno
      by_cases hacc : m ∈ (feedAll cs).2
      · exact Or.inl (hkeep m hacc)
      · obtain ⟨a, ha, hfar⟩ := hno hbelow hacc
        exact Or.inr ⟨a, hkeep a ha, hfar⟩

theorem stale_iff (hmeets : ∀ pre c, pre ++ [c] <+: cs → Meets pre c) (c : UInt64) :
    Stale (feedAll cs).2 c ↔ ReusesBit cs c := by
  constructor
  · intro ⟨hbelow, hnew, ⟨m, hm, hclose⟩, hsize, hmem⟩
    refine ⟨hbelow, fun x hx hxb => ?_, ⟨m, (fed_of_accepted hm).1, (fed_of_accepted hm).2, hclose⟩,
      hsize, (fed_of_accepted hmem).1⟩
    rcases accepted_of_fed hmeets hx hxb with hacc | ⟨a, ha, hfar⟩
    · exact hnew x hacc
    · have := hnew a ha
      omega
  · intro ⟨hbelow, hnew, ⟨m, hm, hmb, hclose⟩, hsize, hmem⟩
    have hnew' : ∀ x ∈ (feedAll cs).2, x.toNat < c.toNat := fun x hx =>
      hnew x (fed_of_accepted hx).1 (fed_of_accepted hx).2
    refine ⟨hbelow, hnew', ?_, hsize, ?_⟩
    · rcases accepted_of_fed hmeets hm hmb with hacc | ⟨a, ha, hfar⟩
      · exact ⟨m, hacc, hclose⟩
      · exact ⟨a, ha, by omega⟩
    · have hsub := toNat_sub_window hsize
      have hlow : c - 2048 < rejectAfterMessages := by
        rw [UInt64.lt_iff_toNat_lt, hsub]
        have := UInt64.lt_iff_toNat_lt.mp hbelow
        omega
      rcases accepted_of_fed hmeets hmem hlow with hacc | ⟨a, ha, hfar⟩
      · exact hacc
      · have := hnew' a ha
        omega

/-- For a sequence without reuse every verdict is the rule's. -/
theorem meets_of_no_reuse (h : ∀ pre c, pre ++ [c] <+: cs → ¬ ReusesBit pre c) :
    ∀ pre c, pre ++ [c] <+: cs → Meets pre c := by
  induction cs using List.reverseRecOn with
  | nil =>
    intro pre c hpre
    exact absurd (List.prefix_nil.mp hpre) (by simp)
  | append_singleton cs d ih =>
    have hcs := ih fun pre c hpre => h pre c (hpre.trans (List.prefix_append cs [d]))
    intro pre c hpre
    rcases List.prefix_concat_iff.mp hpre with heq | hshort
    · obtain ⟨rfl, hcd⟩ := List.append_inj' heq rfl
      obtain rfl : c = d := by simpa using hcd
      rw [meets_iff, stale_iff hcs]
      exact h pre c (List.prefix_refl _)
    · exact hcs pre c hshort

/-- A sequence meets the rule of the window, call by call, exactly when no counter of it
    reuses the bit of an earlier one. -/
theorem replay_window (cs : List UInt64) :
    (∀ pre c, pre ++ [c] <+: cs → Meets pre c) ↔
      ∀ pre c, pre ++ [c] <+: cs → ¬ ReusesBit pre c := by
  refine ⟨fun hmeets pre c hpre => ?_, meets_of_no_reuse⟩
  have hearlier : ∀ p d, p ++ [d] <+: pre → Meets p d := fun p d hp =>
    hmeets p d (hp.trans ((List.prefix_append pre [c]).trans hpre))
  rw [← stale_iff hearlier, ← meets_iff]
  exact hmeets pre c hpre

/-- After 0 and 1 the fresh counter 2048 is refused: the bit of 0 is still set. -/
theorem fresh_counter_refused : ¬ Meets [0, 1] 2048 := by
  have hverdict : ((feedAll [0, 1]).1.accept 2048).1 = false := by decide +kernel
  have haccepted : (feedAll [0, 1]).2 = [0, 1] := by decide +kernel
  intro h
  unfold Meets at h
  rw [hverdict, haccepted] at h
  refine Bool.false_ne_true (h.mpr ⟨by decide, by decide, ?_⟩)
  intro m hm
  rcases List.mem_cons.mp hm with rfl | hm
  · decide
  · rw [List.mem_singleton.mp hm]
    decide

end AntiReplay

end RustCrash.Wireguard
