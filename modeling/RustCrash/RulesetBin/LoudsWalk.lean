import RustCrash.Lib.Louds
import RustCrash.RulesetBin.LoudsTrie

/-
  The reader on a well-formed encoding. `Encodes` says that three arrays hold the
  level-order encoding of a tree. Then `LoudsTrie::new` accepts them, its indexes answer
  rank and select on that encoding, a select position modulo 2^32 (`Answers`), and one
  step of the walk goes to a child. A tree with at most 2^31 edges has no position that is cut:
  `keys` walks it depth first and returns its words in that order (`keys_eq`).
-/

namespace RustCrash.RulesetBin

open Lib Lib.Louds

/-! ## The indexes -/

theorem sum_countOnes (ws : List UInt64) : (ws.map countOnes).sum = (bitsOf ws).count true := by
  induction ws with
  | nil => rfl
  | cons w ws ih =>
    rw [List.map_cons, List.sum_cons, ih, bitsOf_cons, List.count_append]
    rfl

theorem foldl_countOnes (ws : List UInt64) (a : UInt32) :
    ws.foldl (fun acc w => acc + UInt32.ofNat (countOnes w)) a =
      a + UInt32.ofNat ((bitsOf ws).count true) := by
  induction ws generalizing a with
  | nil => simp [bitsOf]
  | cons w ws ih =>
    rw [List.foldl_cons, ih, bitsOf_cons, List.count_append, UInt32.ofNat_add, UInt32.add_assoc]
    rfl

theorem rank1PrefixOf_getElem? {ws : List UInt64} {k : Nat} (h : k ≤ ws.length) :
    (rank1PrefixOf ws)[k]? = some (UInt32.ofNat ((bitsOf (ws.take k)).count true)) := by
  unfold rank1PrefixOf
  rw [List.getElem?_scanl, if_pos h, foldl_countOnes, UInt32.zero_add]

theorem wordPositions (w : UInt64) (k : Nat) :
    ((List.range 64).filter fun i => w &&& oneBit i ≠ 0).map
        (fun i => UInt32.ofNat ((k <<< 6) ||| i)) =
      (truePositions (64 * k) (wordBits w)).map UInt32.ofNat := by
  unfold wordBits
  rw [truePositions_map_range, List.map_map]
  have hfilter : (List.range 64).filter (fun i => w &&& oneBit i ≠ 0) =
      (List.range 64).filter w.toNat.testBit := by
    refine List.filter_congr fun i hi => ?_
    rw [Bool.eq_iff_iff, decide_eq_true_iff]
    exact and_oneBit w (List.mem_range.mp hi)
  rw [hfilter]
  refine List.map_congr_left fun i hi => ?_
  have hlt : i < 2 ^ 6 := List.mem_range.mp (List.mem_filter.mp hi).1
  rw [Function.comp_apply, ← Nat.shiftLeft_add_eq_or_of_lt hlt, Nat.shiftLeft_eq, Nat.mul_comm]

theorem onesPositionsOf_eq (ws : List UInt64) :
    onesPositionsOf ws = (truePositions 0 (bitsOf ws)).map UInt32.ofNat := by
  have hgen : ∀ k, (ws.zipIdx k).flatMap (fun p =>
      ((List.range 64).filter fun i => p.1 &&& oneBit i ≠ 0).map fun i =>
        UInt32.ofNat ((p.2 <<< 6) ||| i)) =
      (truePositions (64 * k) (bitsOf ws)).map UInt32.ofNat := by
    induction ws with
    | nil => intro k; rfl
    | cons w ws ih =>
      intro k
      rw [List.zipIdx_cons, List.flatMap_cons, wordPositions, ih, bitsOf_cons, truePositions_append,
        List.map_append, length_wordBits]
      rfl
  exact hgen 0

theorem bitsOf_take (ws : List UInt64) (k : Nat) : bitsOf (ws.take k) = (bitsOf ws).take (64 * k) := by
  induction ws generalizing k with
  | nil => simp [bitsOf]
  | cons w ws ih =>
    cases k with
    | zero => rfl
    | succ k =>
      rw [List.take_succ_cons, bitsOf_cons, bitsOf_cons, ih, Nat.mul_succ, Nat.add_comm,
        ← length_wordBits w, List.take_length_add_append, length_wordBits]

/-- The ones before bit `i`, from the prefix counts and one masked word. -/
theorem rank0Before_eq {t : LoudsTrie} (hr : t.rank1Prefix = rank1PrefixOf t.labelBitmap)
    (hlen : t.bitLen = t.labelBitmap.length * 64) {i : Nat} (hi : i ≤ 64 * t.labelBitmap.length)
    (hc : ((bitsOf t.labelBitmap).take i).count true < 2 ^ 32) :
    t.rank0Before i = some (i - ((bitsOf t.labelBitmap).take i).count true) := by
  have hk : i / 64 ≤ t.labelBitmap.length := by omega
  have hi64 : i = 64 * (i / 64) + i % 64 := (Nat.div_add_mod i 64).symm
  have hsplit : ((bitsOf t.labelBitmap).take i).count true =
      (bitsOf (t.labelBitmap.take (i / 64))).count true +
        (((bitsOf t.labelBitmap).drop (64 * (i / 64))).take (i % 64)).count true := by
    conv => lhs; rw [hi64]
    rw [List.take_add, List.count_append, bitsOf_take]
  have hword : (UInt32.ofNat ((bitsOf (t.labelBitmap.take (i / 64))).count true)).toNat =
      (bitsOf (t.labelBitmap.take (i / 64))).count true := by
    rw [UInt32.toNat_ofNat']
    exact Nat.mod_eq_of_lt (by omega)
  unfold LoudsTrie.rank0Before
  rw [if_neg (by omega), hr, rank1PrefixOf_getElem? hk]
  simp only [Option.bind_eq_bind, Option.bind_some, hword]
  by_cases hoff : 0 < i % 64
  · have hlt : i / 64 < t.labelBitmap.length := by omega
    rw [if_pos hoff, List.getElem?_eq_getElem hlt]
    have hdrop : (bitsOf t.labelBitmap).drop (64 * (i / 64)) =
        wordBits t.labelBitmap[i / 64] ++ bitsOf (t.labelBitmap.drop (i / 64 + 1)) := by
      conv => lhs; rw [← List.take_append_drop (i / 64) t.labelBitmap]
      rw [bitsOf_append, List.drop_left' (by simp; omega), List.drop_eq_getElem_cons hlt, bitsOf_cons]
    rw [hsplit, hdrop, List.take_append_of_le_length (by simp; omega)]
    simp only [Option.bind_some, countOnes_mask _ (Nat.mod_lt i (by decide : 64 > 0))]
    rfl
  · have hzero : i % 64 = 0 := by omega
    rw [if_neg hoff, hsplit, hzero]
    simp

theorem lastOne_eq {ws : List UInt64} {p : Nat} (hlen : ws.length = p / 64 + 1)
    (hp : bitAt ws p = true) (hgt : ∀ j, p < j → bitAt ws j = false) : lastOne ws = some p := by
  obtain ⟨init, w, rfl⟩ : ∃ init w, ws = init ++ [w] := by
    have hne : ws ≠ [] := by
      rintro rfl
      simp at hlen
    exact ⟨ws.dropLast, ws.getLast hne, (List.dropLast_append_getLast hne).symm⟩
  have hinit : init.length = p / 64 := by simpa using hlen
  have hword : ∀ i < 64, bitAt (init ++ [w]) (64 * (p / 64) + i) = w.toNat.testBit i := by
    intro i hi
    unfold bitAt
    rw [bitsOf_getElem?, show (64 * (p / 64) + i) / 64 = init.length by omega,
      show (64 * (p / 64) + i) % 64 = i by omega]
    simp
  have hbit : w.toNat.testBit (p % 64) = true := by
    rw [← hword _ (Nat.mod_lt p (by decide)), Nat.div_add_mod]
    exact hp
  have hhigh : ∀ i, p % 64 + 1 ≤ i → w.toNat.testBit i = false := by
    intro i hi
    by_cases h64 : i < 64
    · rw [← hword i h64]
      exact hgt _ (by omega)
    · refine Nat.testBit_lt_two_pow (Nat.lt_of_lt_of_le w.toNat_lt ?_)
      exact Nat.pow_le_pow_right (by decide) (by omega)
  have hw : w ≠ 0 := by
    rintro rfl
    simp at hbit
  have hlog : w.toNat.log2 = p % 64 := by
    have hle : 2 ^ (p % 64) ≤ w.toNat := Nat.ge_two_pow_of_testBit hbit
    have hlt : w.toNat < 2 ^ (p % 64 + 1) := Nat.lt_pow_two_of_testBit _ hhigh
    have hpos : 0 < 2 ^ (p % 64) := Nat.two_pow_pos _
    exact (Nat.log2_eq_iff (by omega)).mpr ⟨hle, hlt⟩
  have hfind : (init ++ [w]).zipIdx.reverse.find? (fun q => q.1 ≠ 0) = some (w, p / 64) := by
    rw [List.zipIdx_append, List.reverse_append, hinit]
    simp [hw]
  unfold lastOne
  rw [hfind, Option.map_some, leadingZeros, if_neg hw, hlog, Nat.shiftLeft_eq, Option.some.injEq]
  have := Nat.mod_lt p (by decide : 64 > 0)
  dsimp only
  omega

/-! ## Accepting an encoding -/

/-- The arrays hold the level-order encoding of the listed nodes. -/
structure Encodes {α : Type} (t : Shape UInt8 α) (nodes : List α) (leaves labelBitmap : List UInt64)
    (labels : Bytes) : Prop where
  leafWords : leaves.length ≤ (nodes.length + 63) / 64
  leaves : ∀ j, bitAt leaves j = ((nodes.map t.leaf)[j]?).getD false
  bits : ∀ j, bitAt labelBitmap j = ((t.bits nodes)[j]?).getD false
  words : labelBitmap.length = ((t.bits nodes).length + 63) / 64
  labels : labels = t.labels nodes

section

variable {α : Type} {t : Shape UInt8 α} {root : α} {nodes : List α} {leaves labelBitmap : List UInt64}
  {labels : Bytes}

theorem LevelOrder.ne_nil (h : t.LevelOrder root nodes) : nodes ≠ [] := by
  rw [h]
  simp

/-- A bitmap of `n` bits in as few words as they need is these bits and zeros. -/
theorem bitsOf_eq_append {ws : List UInt64} {bs : List Bool} (hb : ∀ j, bitAt ws j = bs[j]?.getD false)
    (hlen : bs.length ≤ 64 * ws.length) :
    bitsOf ws = bs ++ List.replicate (64 * ws.length - bs.length) false := by
  apply List.ext_getElem?
  intro j
  have hj := hb j
  unfold bitAt at hj
  by_cases h1 : j < bs.length
  · rw [List.getElem?_append_left h1]
    rw [List.getElem?_eq_getElem h1, List.getElem?_eq_getElem (by simp; omega)] at hj ⊢
    simpa using hj
  · rw [List.getElem?_append_right (by omega), List.getElem?_replicate]
    rw [List.getElem?_eq_none (by omega : bs.length ≤ j)] at hj
    by_cases h2 : j < 64 * ws.length
    · rw [if_pos (by omega)]
      rw [List.getElem?_eq_getElem (by simp; omega)] at hj ⊢
      simpa using hj
    · rw [if_neg (by omega), List.getElem?_eq_none (by simp; omega)]

theorem Encodes.bitsOf_eq (h : Encodes t nodes leaves labelBitmap labels) :
    bitsOf labelBitmap = t.bits nodes ++
      List.replicate (64 * labelBitmap.length - (t.bits nodes).length) false :=
  bitsOf_eq_append h.bits (by have := h.words; omega)

theorem Encodes.count_ones (h : Encodes t nodes leaves labelBitmap labels) :
    (labelBitmap.map countOnes).sum = nodes.length := by
  rw [sum_countOnes, h.bitsOf_eq, List.count_append, Shape.count_bits, List.count_replicate]
  simp

theorem Encodes.lastOne_eq (h : Encodes t nodes leaves labelBitmap labels) (hne : nodes ≠ []) :
    lastOne labelBitmap = some ((t.bits nodes).length - 1) := by
  have hpos : 0 < (t.bits nodes).length := by
    rw [Shape.length_bits]
    have := List.length_pos_iff.mpr hne
    omega
  have hlast : (t.bits nodes)[(t.bits nodes).length - 1]? = some true := by
    rw [← List.getLast?_eq_getElem?, ← List.dropLast_append_getLast hne, Shape.bits_append,
      Shape.bits_cons, List.getLast?_append_of_ne_nil _ (by simp),
      List.getLast?_append_of_ne_nil _ (by simp)]
    rfl
  refine RulesetBin.lastOne_eq ?_ ?_ ?_
  · rw [h.words]
    omega
  · rw [h.bits, hlast]
    rfl
  · intro j hj
    rw [h.bits, List.getElem?_eq_none (by omega)]
    rfl

/-- The reader a well-formed encoding makes. -/
def readerOf (nodes : Nat) (leaves labelBitmap : List UInt64) (labels : Bytes) : LoudsTrie where
  leaves := leaves ++ List.replicate ((nodes + 63) / 64 - leaves.length) 0
  labelBitmap := labelBitmap
  labels := labels
  rank1Prefix := rank1PrefixOf labelBitmap
  onesPositions := onesPositionsOf labelBitmap
  bitLen := labelBitmap.length * 64

theorem Encodes.new_eq (h : Encodes t nodes leaves labelBitmap labels)
    (hl : t.LevelOrder root nodes) :
    LoudsTrie.new leaves labelBitmap labels =
      .ok (readerOf nodes.length leaves labelBitmap labels) := by
  have hedges := hl.length_labels
  have hbits := Shape.length_bits (t := t) nodes
  have hzeros : (t.bits nodes).length - 1 + 1 - nodes.length = (t.labels nodes).length := by omega
  have hones : nodes.length = (t.labels nodes).length + 1 := hedges.symm
  unfold LoudsTrie.new
  rw [h.count_ones, h.lastOne_eq (LevelOrder.ne_nil hl), h.labels]
  dsimp only
  rw [hzeros, if_neg (by rw [not_or, not_not, not_not]; exact ⟨hones, rfl⟩),
    Nat.shiftRight_eq_div_pow]
  rfl

/-! ## What the indexes answer -/

/-- A reader whose bit, rank, select and leaf queries are those of the encoded tree, but for
    positions from 2^32 on. -/
structure Answers (t : Shape UInt8 α) (nodes : List α) (r : LoudsTrie) : Prop where
  bit : ∀ i b, (t.bits nodes)[i]? = some b → r.bit i = some (if b then 1 else 0)
  rank0 : ∀ i, i ≤ (t.bits nodes).length →
    r.rank0Before i = some (i - ((t.bits nodes).take i).count true)
  select1 : ∀ i p, i + 1 < nodes.length → (truePositions 0 (t.bits nodes))[i]? = some p →
    r.select1 i = some (p % 2 ^ 32)
  leaf : ∀ i x, nodes[i]? = some x → r.leaf i = some (t.leaf x)
  labels : r.labels = t.labels nodes
  ones : r.onesPositions.length = nodes.length

theorem shift_and_one_eq (w : UInt64) {i : Nat} (h : i < 64) :
    (w >>> UInt64.ofNat i) &&& 1 = if w.toNat.testBit i then 1 else 0 := by
  split_ifs with hb
  · exact (shift_and_one w h).mpr hb
  · have hne := mt (shift_and_one w h).mp hb
    have hle : ((w >>> UInt64.ofNat i) &&& 1).toNat ≤ 1 := by
      rw [UInt64.toNat_and]
      exact Nat.and_le_right
    have h1 : ((w >>> UInt64.ofNat i) &&& 1).toNat ≠ 1 := fun he =>
      hne (UInt64.toNat_inj.mp he)
    exact UInt64.toNat_inj.mp (show _ = 0 by omega)

/-- Prefix counts below 2^32 are not cut. -/
theorem Encodes.answers (h : Encodes t nodes leaves labelBitmap labels)
    (hlen : nodes.length < 2 ^ 32) :
    Answers t nodes (readerOf nodes.length leaves labelBitmap labels) := by
  have hbits := Shape.length_bits (t := t) nodes
  have hwords := h.words
  have heq := h.bitsOf_eq
  have hcount : ∀ i, i ≤ (t.bits nodes).length →
      ((bitsOf labelBitmap).take i).count true = ((t.bits nodes).take i).count true := by
    intro i hi
    rw [heq, List.take_append_of_le_length hi]
  refine ⟨?_, ?_, ?_, ?_, h.labels, ?_⟩
  · intro i b hb
    have hi := (List.getElem?_eq_some_iff.mp hb).1
    have hword : (bitsOf labelBitmap)[i]? = some b := by
      rw [heq, List.getElem?_append_left hi, hb]
    rw [bitsOf_getElem?, Option.map_eq_some_iff] at hword
    obtain ⟨w, hw, hwb⟩ := hword
    show (labelBitmap[i / 64]?.map fun w => (w >>> UInt64.ofNat (i % 64)) &&& 1) = _
    rw [hw, Option.map_some, shift_and_one_eq w (Nat.mod_lt i (by decide)), hwb]
  · intro i hi
    have hle : ((t.bits nodes).take i).count true ≤ nodes.length := by
      rw [← Shape.count_bits (t := t) nodes]
      exact (List.take_sublist i _).count_le true
    have hrank := rank0Before_eq (t := readerOf nodes.length leaves labelBitmap labels) rfl rfl
      (i := i) (by show i ≤ 64 * labelBitmap.length; omega)
      (by show ((bitsOf labelBitmap).take i).count true < 2 ^ 32; rw [hcount i hi]; omega)
    rw [hrank]
    show some (i - ((bitsOf labelBitmap).take i).count true) = _
    rw [hcount i hi]
  · intro i p hi hp
    show (onesPositionsOf labelBitmap)[i]?.map UInt32.toNat = _
    rw [onesPositionsOf_eq, heq, truePositions_append, truePositions_replicate_false,
      List.append_nil, List.getElem?_map, hp]
    simp only [Option.map_some, UInt32.toNat_ofNat']
  · intro i x hx
    have hi := (List.getElem?_eq_some_iff.mp hx).1
    have hleaf := h.leaves i
    rw [← bitAt_append_zeros leaves ((nodes.length + 63) / 64 - leaves.length) i] at hleaf
    have hword : i / 64 < (leaves ++ List.replicate ((nodes.length + 63) / 64 - leaves.length)
        (0 : UInt64)).length := by
      rw [List.length_append, List.length_replicate]
      omega
    unfold bitAt at hleaf
    rw [bitsOf_getElem?, List.getElem?_eq_getElem hword, List.getElem?_map, hx] at hleaf
    show ((leaves ++ List.replicate ((nodes.length + 63) / 64 - leaves.length)
      (0 : UInt64))[i / 64]?.map fun w => (w >>> UInt64.ofNat (i % 64)) &&& 1 == 1) = _
    rw [List.getElem?_eq_getElem hword, Option.map_some, shift_and_one_eq _ (Nat.mod_lt i (by decide))]
    simp only [Option.map_some, Option.getD_some] at hleaf
    rw [hleaf]
    cases t.leaf x <;> rfl
  · show (onesPositionsOf labelBitmap).length = nodes.length
    rw [onesPositionsOf_eq, List.length_map, length_truePositions, heq, List.count_append,
      Shape.count_bits, List.count_replicate]
    simp

/-! ## The walk -/

/-- What follows when the top frame is popped. -/
def leave (r : LoudsTrie) (budget : Nat) (stack : List (Nat × Nat)) (current : Bytes)
    (result : List Bytes) : Result (List Bytes) :=
  match stack with
  | [] => r.walk budget [] current result
  | (parent, edge) :: stack => r.walk budget ((parent, edge + 1) :: stack) current.dropLast result

/-- The words below the edges `todo`, after the path `current`. -/
def wordsAfter (t : Shape UInt8 α) (current : Bytes) (todo : List (UInt8 × α)) : List Bytes :=
  todo.flatMap fun p => (t.words p.2).map fun w => current ++ p.1 :: w

/-- Steps to walk the edges `todo`: two for each node below them. -/
def stepsFor (t : Shape UInt8 α) (todo : List (UInt8 × α)) : Nat :=
  (todo.map fun p => 2 * t.count p.2).sum

theorem two_mul_count (x : α) : 2 * t.count x = stepsFor t (t.kids x) + 2 := by
  unfold stepsFor
  rw [t.count_eq, List.sum_map_mul_left]
  omega

/-- The words below an edge: the node it leads to, if it ends one, and what follows. -/
theorem words_of_kid (current : Bytes) (b : UInt8) (y : α) :
    (t.words y).map (fun w => current ++ b :: w) =
      (if t.leaf y then [current ++ [b]] else []) ++ wordsAfter t (current ++ [b]) (t.kids y) := by
  rw [t.words_eq, List.map_append]
  congr 1
  · split_ifs <;> rfl
  · unfold wordsAfter
    rw [List.map_flatMap]
    congr 1
    funext p
    rw [List.map_map]
    refine List.map_congr_left fun w _ => ?_
    simp

/-- Walking one edge pushes the node it leads to. -/
theorem walk_edge {r : LoudsTrie} (ha : Answers t nodes r) (hl : t.LevelOrder root nodes)
    {pre post : List α} {x y : α} {b : UInt8} {done more : List (UInt8 × α)} {k : Nat}
    (hn : nodes = pre ++ x :: post) (hd : t.kids x = done ++ (b, y) :: more)
    (hk : k = (t.labels pre).length + done.length + 1)
    (budget : Nat) (stack : List (Nat × Nat)) (current : Bytes) (result : List Bytes) :
    nodes = nodes.take k ++ y :: nodes.drop (k + 1) ∧
      r.walk (budget + 1) ((pre.length, (t.bits pre).length + done.length) :: stack) current result =
        r.walk budget ((k, ((t.bits (nodes.take k)).length - 1) % 2 ^ 32 + 1) ::
            (pre.length, (t.bits pre).length + done.length) :: stack) (current ++ [b])
          (if t.leaf y then result ++ [current ++ [b]] else result) := by
  have hchild := hl
  rw [hn] at hchild
  obtain ⟨hy, hb⟩ := hchild.child hd
  rw [← hn] at hy hb
  have hpos := Shape.length_bits (t := t) pre
  -- the child is the node after as many edges as there are before this one
  have hlt := (List.getElem?_eq_some_iff.mp hy).1
  have hbit : r.bit ((t.bits pre).length + done.length) = some 0 := by
    have h0 : (t.bits nodes)[(t.bits pre).length + done.length]? = some false := by
      rw [hn]
      exact Shape.bits_getElem? pre post hd
    simpa using ha.bit _ _ h0
  have hrank : r.rank0Before ((t.bits pre).length + done.length + 1) = some k := by
    have hd' : t.kids x = (done ++ [(b, y)]) ++ more := by
      rw [hd]
      simp
    have hcount := Shape.count_bits_take pre post hd'
    rw [← hn, List.length_append, List.length_singleton, ← Nat.add_assoc] at hcount
    have hle : (t.bits pre).length + done.length + 1 ≤ (t.bits nodes).length := by
      have h1 := Shape.bits_getElem? pre post hd'
      rw [← hn, List.length_append, List.length_singleton, ← Nat.add_assoc] at h1
      exact Nat.le_of_lt (List.getElem?_eq_some_iff.mp h1).1
    rw [ha.rank0 _ hle, hcount]
    congr 1
    omega
  have hselect : r.select1 (k - 1) = some (((t.bits (nodes.take k)).length - 1) % 2 ^ 32) := by
    refine ha.select1 _ _ (by omega) ?_
    rw [Shape.truePositions_bits 0 nodes _ (by omega), Nat.zero_add, Nat.sub_add_cancel (by omega)]
  rw [← hk] at hy
  have hleaf := ha.leaf _ _ hy
  constructor
  · conv => lhs; rw [← List.take_append_drop k nodes]
    rw [List.drop_eq_getElem_cons (by omega : k < nodes.length)]
    rw [List.getElem?_eq_getElem (by omega : k < nodes.length), Option.some.injEq] at hy
    rw [hy]
  · conv => lhs; unfold LoudsTrie.walk
    rw [hbit, okOr_some, bind_ok, if_neg (by decide), if_pos (by omega), ha.labels,
      show (t.bits pre).length + done.length - pre.length =
        (t.labels pre).length + done.length by omega, hb, okOr_some, bind_ok]
    dsimp only
    rw [hrank, okOr_some, bind_ok, if_pos (by omega), okOr_some, bind_ok, hselect, okOr_some, bind_ok,
      hleaf, okOr_some, bind_ok]

/-- With at most 2^31 edges, the edges of every node but the root start below 2^32. -/
theorem position_exact (hl : t.LevelOrder root nodes) (hsmall : nodes.length ≤ 2 ^ 31 + 1)
    {pre post : List α} {y : α} (hn : nodes = pre ++ y :: post) (hpos : pre ≠ []) :
    ((t.bits pre).length - 1) % 2 ^ 32 + 1 = (t.bits pre).length := by
  have hlab := hl.length_labels
  have hpre := Shape.length_bits (t := t) pre
  have hlen := congrArg List.length hn
  have hlabels := congrArg List.length (congrArg t.labels hn)
  rw [Shape.labels_append, List.length_append] at hlabels
  rw [List.length_append, List.length_cons] at hlen
  have := List.length_pos_iff.mpr hpos
  rw [Nat.mod_eq_of_lt (by omega)]
  omega

/-- Walking what is left of a node returns the words below it and pops its frame. -/
theorem walk_node {r : LoudsTrie} (ha : Answers t nodes r) (hl : t.LevelOrder root nodes)
    (hsmall : nodes.length ≤ 2 ^ 31 + 1) (n : Nat)
    (pre post : List α) (x : α) (done todo : List (UInt8 × α)) (hx : t.height x ≤ n)
    (hn : nodes = pre ++ x :: post) (hd : t.kids x = done ++ todo)
    (budget : Nat) (stack : List (Nat × Nat)) (current : Bytes) (result : List Bytes) :
    r.walk (budget + stepsFor t todo + 1)
        ((pre.length, (t.bits pre).length + done.length) :: stack) current result =
      leave r budget stack current (result ++ wordsAfter t current todo) := by
  induction n using Nat.strong_induction_on generalizing pre post x done todo budget stack current
    result with
  | _ n ihn =>
    induction todo generalizing done result with
    | nil =>
      have hbit : r.bit ((t.bits pre).length + done.length) = some 1 := by
        have h1 : (t.bits nodes)[(t.bits pre).length + done.length]? = some true := by
          rw [hn]
          exact Shape.bits_getElem? pre post hd
        simpa using ha.bit _ _ h1
      unfold LoudsTrie.walk
      rw [hbit, okOr_some, bind_ok, if_pos rfl]
      simp only [stepsFor, wordsAfter, List.map_nil, List.sum_nil, List.flatMap_nil, Nat.add_zero,
        List.append_nil]
      cases stack <;> rfl
    | cons p more ih =>
      obtain ⟨b, y⟩ := p
      have hmem : (b, y) ∈ t.kids x := by
        rw [hd]
        simp
      have hlt : t.height y < t.height x := t.height_lt x (b, y) hmem
      generalize hk : (t.labels pre).length + done.length + 1 = k
      obtain ⟨hn', hedge⟩ := walk_edge ha hl hn hd hk.symm
        (budget + stepsFor t more + 1 + stepsFor t (t.kids y) + 1) stack current result
      have hlen : (nodes.take k).length = k := by
        have := congrArg List.length hn'
        rw [List.length_append, List.length_cons, List.length_drop] at this
        rw [List.length_take] at this ⊢
        omega
      have hne : nodes.take k ≠ [] := by
        rw [← List.length_pos_iff]
        omega
      have hcost : budget + stepsFor t ((b, y) :: more) + 1 =
          budget + stepsFor t more + 1 + stepsFor t (t.kids y) + 1 + 1 := by
        have := two_mul_count (t := t) y
        have hsteps : stepsFor t ((b, y) :: more) = 2 * t.count y + stepsFor t more := rfl
        omega
      rw [hcost, hedge, position_exact hl hsmall hn' hne]
      have hsub := ihn (t.height y) (by omega) (nodes.take k) (nodes.drop (k + 1)) y [] (t.kids y)
        (Nat.le_refl _) hn' rfl
        (budget + stepsFor t more + 1) ((pre.length, (t.bits pre).length + done.length) :: stack)
        (current ++ [b]) (if t.leaf y then result ++ [current ++ [b]] else result)
      simp only [hlen, List.length_nil, Nat.add_zero] at hsub
      rw [hsub]
      unfold leave
      dsimp only
      rw [List.dropLast_concat]
      have hd' : t.kids x = done ++ [(b, y)] ++ more := by
        rw [hd]
        simp
      have hnext := ih (done ++ [(b, y)]) hd'
        ((if t.leaf y then result ++ [current ++ [b]] else result) ++
          wordsAfter t (current ++ [b]) (t.kids y))
      rw [List.length_append, List.length_singleton, ← Nat.add_assoc] at hnext
      rw [hnext]
      have hwords : wordsAfter t current ((b, y) :: more) =
          (t.words y).map (fun w => current ++ b :: w) ++ wordsAfter t current more := rfl
      rw [hwords, words_of_kid]
      congr 1
      split_ifs <;> simp

/-- `keys` returns the words of the encoded tree. -/
theorem keys_eq {r : LoudsTrie} (ha : Answers t nodes r) (hl : t.LevelOrder root nodes)
    (hsmall : nodes.length ≤ 2 ^ 31 + 1) : r.keys = .ok (t.words root) := by
  have hroot : nodes = [] ++ root :: t.childList nodes := hl
  have hcount := hl.count_root
  have htwo := two_mul_count (t := t) root
  have hlab := hl.length_labels
  have hwalk := walk_node ha hl hsmall (t.height root) [] _ root [] (t.kids root) (Nat.le_refl _) hroot rfl
    (8 * (r.labels.length + r.onesPositions.length + 64) - stepsFor t (t.kids root) - 1)
    [] [] (if t.leaf root then [[]] else [])
  have hbudget : 8 * (r.labels.length + r.onesPositions.length + 64) - stepsFor t (t.kids root) - 1 +
      stepsFor t (t.kids root) + 1 = 8 * (r.labels.length + r.onesPositions.length + 64) := by
    rw [ha.labels, ha.ones]
    omega
  rw [hbudget] at hwalk
  unfold LoudsTrie.keys
  rw [ha.leaf 0 root (by rw [hl]; rfl), okOr_some, bind_ok]
  dsimp only
  have hstart : (([] : List α).length, (t.bits ([] : List α)).length + ([] : List (UInt8 × α)).length) =
      (0, 0) := rfl
  rw [hstart] at hwalk
  rw [hwalk]
  unfold leave
  have hdone : ∀ budget current result, r.walk budget [] current result = .ok result := by
    intro budget current result
    cases budget <;> rfl
  rw [hdone, t.words_eq]
  rfl

end

end RustCrash.RulesetBin
