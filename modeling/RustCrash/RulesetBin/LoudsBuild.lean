import RustCrash.RulesetBin.LoudsWalk

/-
  The builder. A node of the trie is the list of what is left of the keys that reach it, in strict
  byte order (`keyShape`); its children are the runs of equal first bytes (`groups`). The builder's
  frames are ranges of the sorted key list, and a frame at column `col` stands for the keys in its
  range without their first `col` bytes (`Frame`).
-/

namespace RustCrash.RulesetBin

open Lib Lib.Louds

/-! ## The tree of a key list -/

def startsWith (b : UInt8) (k : Bytes) : Bool := k.head? == some b

/-- Runs of equal first bytes, each with what is left of its keys. -/
def groups : List Bytes → List (UInt8 × List Bytes)
  | [] => []
  | [] :: ks => groups ks
  | (b :: k) :: ks =>
    (b, k :: (ks.takeWhile (startsWith b)).map List.tail) :: groups (ks.dropWhile (startsWith b))
termination_by ks => ks.length
decreasing_by
  · simp
  · have := (List.dropWhile_suffix (l := ks) (startsWith b)).length_le
    simp
    omega

/-- The keys that continue below a node. -/
def continuing (ks : List Bytes) : List Bytes :=
  if ks.head? = some [] then ks.tail else ks

variable {ks : List Bytes} {keys : List Bytes} {col : Nat} {done : List (List Bytes)}
  {ds : DomainSet} {nodes : List (List Bytes)}

theorem longest_le_iff {n : Nat} : longest ks ≤ n ↔ ∀ k ∈ ks, k.length ≤ n := by
  induction ks with
  | nil => simp [longest]
  | cons k ks ih =>
    unfold longest at ih ⊢
    rw [List.map_cons, List.foldr_cons, Nat.max_le, ih, List.forall_mem_cons]

theorem length_le_longest {k : Bytes} (h : k ∈ ks) : k.length ≤ longest ks :=
  longest_le_iff.mp (Nat.le_refl _) k h

theorem startsWith_iff {b : UInt8} {k : Bytes} : startsWith b k = true ↔ ∃ r, k = b :: r := by
  cases k with
  | nil => simp [startsWith]
  | cons c r => simp [startsWith]

theorem mem_groups {g : UInt8 × List Bytes} (hg : g ∈ groups ks) :
    g.2 ≠ [] ∧ ∀ r ∈ g.2, g.1 :: r ∈ ks := by
  induction ks using groups.induct with
  | case1 => simp [groups] at hg
  | case2 ks ih =>
    rw [groups] at hg
    obtain ⟨hne, hmem⟩ := ih hg
    exact ⟨hne, fun r hr => List.mem_cons_of_mem _ (hmem r hr)⟩
  | case3 b k ks ih =>
    rw [groups, List.mem_cons] at hg
    rcases hg with rfl | hg
    · refine ⟨by simp, ?_⟩
      intro r hr
      rcases List.mem_cons.mp hr with rfl | hr
      · exact List.mem_cons_self
      · obtain ⟨k', hk', rfl⟩ := List.mem_map.mp hr
        obtain ⟨r, rfl⟩ := startsWith_iff.mp (List.mem_takeWhile_imp hk')
        exact List.mem_cons_of_mem _ ((List.takeWhile_prefix _).subset hk')
    · obtain ⟨hne, hmem⟩ := ih hg
      exact ⟨hne, fun r hr =>
        List.mem_cons_of_mem _ ((List.dropWhile_suffix _).subset (hmem r hr))⟩

theorem continuing_subset (ks : List Bytes) : continuing ks ⊆ ks := by
  unfold continuing
  split_ifs
  · exact List.tail_subset ks
  · exact List.Subset.refl ks

/-- The trie of a key list. -/
def keyShape : Shape UInt8 (List Bytes) where
  leaf ks := ks.head? == some []
  kids ks := groups (continuing ks)
  height := longest
  height_lt := by
    intro ks g hg
    obtain ⟨hne, hmem⟩ := mem_groups hg
    obtain ⟨r, hr⟩ := List.exists_mem_of_ne_nil _ hne
    have hpos := length_le_longest (continuing_subset ks (hmem r hr))
    rw [List.length_cons] at hpos
    have hle : longest g.2 ≤ longest ks - 1 := by
      rw [longest_le_iff]
      intro k hk
      have := length_le_longest (continuing_subset ks (hmem k hk))
      rw [List.length_cons] at this
      omega
    omega

/-! ## Its words -/

/-- Strictly increasing in byte order. -/
def Increasing (ks : List Bytes) : Prop := ks.Pairwise (· < ·)

theorem groups_flatMap (h : ∀ k ∈ ks, k ≠ []) :
    (groups ks).flatMap (fun g => g.2.map (g.1 :: ·)) = ks := by
  induction ks using groups.induct with
  | case1 => simp [groups]
  | case2 ks ih => exact absurd rfl (h [] List.mem_cons_self)
  | case3 b k ks ih =>
    have htail : ((ks.takeWhile (startsWith b)).map List.tail).map (b :: ·) =
        ks.takeWhile (startsWith b) := by
      rw [List.map_map]
      conv => rhs; rw [← List.map_id (ks.takeWhile (startsWith b))]
      refine List.map_congr_left fun k' hk' => ?_
      obtain ⟨r, rfl⟩ := startsWith_iff.mp (List.mem_takeWhile_imp hk')
      rfl
    rw [groups, List.flatMap_cons, ih fun k' hk' =>
      h k' (List.mem_cons_of_mem _ ((List.dropWhile_suffix _).subset hk'))]
    dsimp only
    rw [List.map_cons, htail, List.cons_append, List.takeWhile_append_dropWhile]

theorem Increasing.ne_nil_of_continuing (h : Increasing ks) : ∀ k ∈ continuing ks, k ≠ [] := by
  cases ks with
  | nil => simp [continuing]
  | cons k ks =>
    have hlt := (List.pairwise_cons.mp h).1
    have hrest : ∀ k' ∈ ks, k' ≠ [] := by
      rintro k' hk' rfl
      exact List.not_lt_nil k (hlt [] hk')
    unfold continuing
    split_ifs with hk
    · exact hrest
    · intro k' hk'
      rcases List.mem_cons.mp hk' with rfl | hk'
      · intro he
        exact hk (by rw [he]; rfl)
      · exact hrest k' hk'

theorem Increasing.continuing (h : Increasing ks) : Increasing (continuing ks) := by
  unfold RulesetBin.continuing
  split_ifs
  · exact List.Pairwise.sublist (List.tail_sublist ks) h
  · exact h

theorem increasing_of_map_cons {b : UInt8} (h : Increasing (ks.map (b :: ·))) : Increasing ks := by
  unfold Increasing at h ⊢
  rw [List.pairwise_map] at h
  refine h.imp fun {k k'} hlt => ?_
  rcases List.cons_lt_cons_iff.mp hlt with hb | ⟨-, hlt⟩
  · exact absurd hb (UInt8.lt_irrefl b)
  · exact hlt

/-- What is left of a run is increasing again. -/
theorem Increasing.group (h : Increasing ks) (hne : ∀ k ∈ ks, k ≠ []) {g : UInt8 × List Bytes}
    (hg : g ∈ groups ks) : Increasing g.2 := by
  rw [← groups_flatMap hne] at h
  apply increasing_of_map_cons (b := g.1)
  obtain ⟨l, r, hs⟩ := List.append_of_mem hg
  rw [hs, List.flatMap_append, List.flatMap_cons] at h
  exact ((List.pairwise_append.mp h).2.1 |> List.pairwise_append.mp).1

/-- The words of the trie of a key list are the keys, in order. -/
theorem words_keyShape (n : Nat) (hn : longest ks ≤ n) (h : Increasing ks) :
    keyShape.words ks = ks := by
  induction n using Nat.strong_induction_on generalizing ks with
  | _ n ih =>
    have hne := h.ne_nil_of_continuing
    have hkids : (keyShape.kids ks).flatMap (fun p => (keyShape.words p.2).map (p.1 :: ·)) =
        continuing ks := by
      rw [← groups_flatMap hne]
      show (groups (continuing ks)).flatMap _ = _
      rw [groups_flatMap hne]
      conv => rhs; rw [← groups_flatMap hne]
      refine List.flatMap_congr fun g hg => ?_
      have hlt : longest g.2 < longest ks := keyShape.height_lt ks g hg
      rw [ih (longest g.2) (by omega) (Nat.le_refl _) (h.continuing.group hne hg)]
    rw [keyShape.words_eq, hkids]
    cases ks with
    | nil => rfl
    | cons k ks =>
      cases k with
      | nil => rfl
      | cons b k => rfl

theorem increasing_sortedKeys (ks : List Bytes) : Increasing (sortedKeys ks) :=
  pairwise_sortDedup ks

theorem mem_sortedKeys {k : Bytes} : k ∈ sortedKeys ks ↔ k ∈ ks :=
  mem_sortDedup

theorem Increasing.nodup (h : Increasing ks) : ks.Nodup :=
  nodup_of_pairwise_lt h

/-! ## Frames -/

/-- What the keys of a frame have left at a column. -/
def suffixes (keys : List Bytes) (col : Nat) (f : Nat × Nat) : List Bytes :=
  ((keys.drop f.1).take (f.2 - f.1)).map (List.drop col)

/-- A frame of the builder stands for a node of the trie. -/
structure Frame (keys : List Bytes) (col : Nat) (f : Nat × Nat) (ks : List Bytes) : Prop where
  lt : f.1 < f.2
  le : f.2 ≤ keys.length
  suffixes : suffixes keys col f = ks
  col_le : ∀ k ∈ (keys.drop f.1).take (f.2 - f.1), col ≤ k.length

theorem keyByte_eq {j col : Nat} (h : j < keys.length) :
    keyByte keys j col = (keys[j].drop col).head? := by
  unfold keyByte
  rw [List.getElem?_eq_getElem h]
  simp

/-- The keys of a range, first one apart. -/
theorem suffixes_cons {col j e : Nat} (hj : j < e) (he : e ≤ keys.length) :
    suffixes keys col (j, e) = (keys[j]).drop col :: suffixes keys col (j + 1, e) := by
  unfold suffixes
  dsimp only
  rw [List.drop_eq_getElem_cons (by omega : j < keys.length),
    show e - j = (e - (j + 1)) + 1 by omega, List.take_succ_cons, List.map_cons]

theorem suffixes_nil {col j : Nat} : suffixes keys col (j, j) = [] := by
  simp [suffixes]

theorem runEnd_spec (b : UInt8) (n j : Nat) (he : j + n ≤ keys.length)
    (hne : ∀ k ∈ suffixes keys col (j, j + n), k ≠ []) :
    runEnd keys col b n j =
      some (j + ((suffixes keys col (j, j + n)).takeWhile (startsWith b)).length) := by
  induction n generalizing j with
  | zero => simp [runEnd, suffixes_nil]
  | succ n ih =>
    have hcons : suffixes keys col (j, j + (n + 1)) = (keys[j]).drop col ::
        suffixes keys col (j + 1, j + (n + 1)) := suffixes_cons (by omega) he
    rw [hcons] at hne ⊢
    obtain ⟨c, r, hk⟩ := List.exists_cons_of_ne_nil (hne _ List.mem_cons_self)
    unfold runEnd
    rw [keyByte_eq (by omega), hk]
    simp only [List.head?_cons, Option.bind_eq_bind, Option.bind_some]
    by_cases hc : c = b
    · have hrest := ih (j + 1) (by omega) (by
        rw [show j + 1 + n = j + (n + 1) by omega]
        exact fun k hk => hne k (List.mem_cons_of_mem _ hk))
      rw [if_pos hc, hrest, show j + 1 + n = j + (n + 1) by omega,
        List.takeWhile_cons_of_pos (by simp [startsWith, hc]), List.length_cons]
      congr 1
      omega
    · rw [if_neg hc, List.takeWhile_cons_of_neg (by simp [startsWith, hc])]
      rfl

theorem suffixes_take {col j m e : Nat} (h : j + m ≤ e) :
    suffixes keys col (j, j + m) = (suffixes keys col (j, e)).take m := by
  unfold suffixes
  dsimp only
  rw [← List.map_take, List.take_take, Nat.add_sub_cancel_left, Nat.min_eq_left (by omega)]

theorem suffixes_drop {col j m e : Nat} :
    suffixes keys col (j + m, e) = (suffixes keys col (j, e)).drop m := by
  unfold suffixes
  dsimp only
  rw [← List.map_drop, List.drop_take, List.drop_drop, show e - (j + m) = e - j - m by omega]

theorem suffixes_succ {f : Nat × Nat} :
    suffixes keys (col + 1) f = (suffixes keys col f).map List.tail := by
  unfold suffixes
  rw [List.map_map]
  refine List.map_congr_left fun k _ => ?_
  rw [Function.comp_apply, List.tail_drop]

theorem length_suffixes {col j e : Nat} (he : e ≤ keys.length) :
    (suffixes keys col (j, e)).length = e - j := by
  unfold suffixes
  rw [List.length_map, List.length_take, List.length_drop]
  dsimp only
  omega

theorem groups_eq {b : UInt8} {k : Bytes} (hks : ks.head? = some (b :: k)) :
    groups ks = (b, (ks.takeWhile (startsWith b)).map List.tail) ::
      groups (ks.dropWhile (startsWith b)) := by
  cases ks with
  | nil => simp at hks
  | cons x ks =>
    have hx : x = b :: k := by simpa using hks
    subst hx
    have hb : startsWith b (b :: k) = true := startsWith_iff.mpr ⟨k, rfl⟩
    rw [groups, List.takeWhile_cons_of_pos hb, List.dropWhile_cons_of_pos hb]
    rfl

/-- The column bound of a frame, read off what its keys have left. -/
theorem col_lt_of_suffix {col j e : Nat} {b : UInt8}
    (h : ∀ s ∈ suffixes keys col (j, e), startsWith b s = true) :
    ∀ k ∈ (keys.drop j).take (e - j), col + 1 ≤ k.length := by
  intro k hk
  obtain ⟨r, hr⟩ := startsWith_iff.mp (h (k.drop col) (List.mem_map_of_mem hk))
  have := congrArg List.length hr
  rw [List.length_drop, List.length_cons] at this
  omega

/-- The runs of a range are its groups, each with a frame at the next column. -/
theorem runs_spec (keys : List Bytes) (col : Nat) {e : Nat} (n j : Nat) (hj : j ≤ e) (hn : e - j ≤ n)
    (he : e ≤ keys.length) (hne : ∀ k ∈ suffixes keys col (j, e), k ≠ []) :
    ∃ rs, runs keys col e n j = some rs ∧
      List.Forall₂ (fun r g => r.1 = g.1 ∧ Frame keys (col + 1) r.2 g.2) rs
        (groups (suffixes keys col (j, e))) := by
  induction n generalizing j with
  | zero =>
    obtain rfl : j = e := by omega
    exact ⟨[], rfl, by rw [suffixes_nil, groups]; exact List.Forall₂.nil⟩
  | succ n ih =>
    unfold runs
    by_cases hlt : j < e
    · have hcons : suffixes keys col (j, e) = (keys[j]).drop col ::
          suffixes keys col (j + 1, e) := suffixes_cons hlt he
      obtain ⟨b, r, hk⟩ : ∃ b r, (keys[j]).drop col = b :: r :=
        List.exists_cons_of_ne_nil (hne _ (by rw [hcons]; exact List.mem_cons_self))
      have hhead : (suffixes keys col (j, e)).head? = some (b :: r) := by
        rw [hcons, hk]
        rfl
      have hend : runEnd keys col b (e - j) j = some (j +
          ((suffixes keys col (j, j + (e - j))).takeWhile (startsWith b)).length) :=
        runEnd_spec b (e - j) j (by omega) (by
          rw [show j + (e - j) = e by omega]
          exact hne)
      rw [show j + (e - j) = e by omega] at hend
      generalize hm : ((suffixes keys col (j, e)).takeWhile (startsWith b)).length = m at hend
      have hpre : (suffixes keys col (j, e)).takeWhile (startsWith b) <+: suffixes keys col (j, e) :=
        List.takeWhile_prefix _
      have htake : suffixes keys col (j, j + m) =
          (suffixes keys col (j, e)).takeWhile (startsWith b) := by
        have hle := hpre.length_le
        rw [length_suffixes he] at hle
        rw [suffixes_take (by omega : j + m ≤ e), ← hm]
        exact (List.prefix_iff_eq_take.mp hpre).symm
      have hdrop : suffixes keys col (j + m, e) =
          (suffixes keys col (j, e)).dropWhile (startsWith b) := by
        rw [suffixes_drop, ← hm]
        conv => lhs; arg 2; rw [← List.takeWhile_append_dropWhile (p := startsWith b)
          (l := suffixes keys col (j, e))]
        exact List.drop_left' rfl
      have hle : m ≤ e - j := by
        have := hpre.length_le
        rw [length_suffixes he] at this
        omega
      have hpos : 0 < m := by
        rw [← hm, hcons, hk, List.takeWhile_cons_of_pos (startsWith_iff.mpr ⟨r, rfl⟩)]
        simp
      obtain ⟨rs, hrs, hall⟩ := ih (j + m) (by omega) (by omega) (by
        intro k hk
        rw [hdrop] at hk
        exact hne k ((List.dropWhile_suffix _).subset hk))
      refine ⟨(b, j, j + m) :: rs, ?_, ?_⟩
      · rw [if_pos hlt, keyByte_eq (by omega), hk]
        simp only [List.head?_cons, Option.bind_eq_bind, Option.bind_some, hend, hrs]
      · rw [groups_eq hhead, ← hdrop]
        refine List.Forall₂.cons ⟨rfl, ?_⟩ hall
        refine ⟨by show j < j + m; omega, by show j + m ≤ keys.length; omega, ?_, ?_⟩
        · rw [suffixes_succ, htake]
        · refine col_lt_of_suffix (b := b) ?_
          intro s hs
          rw [htake] at hs
          exact List.mem_takeWhile_imp hs
    · obtain rfl : j = e := by omega
      rw [if_neg hlt, suffixes_nil, groups]
      exact ⟨[], rfl, List.Forall₂.nil⟩

/-! ## One node -/

/-- What the builder has written after the nodes `done`. -/
structure Built (done : List (List Bytes)) (ds : DomainSet) : Prop where
  encodes : Encodes keyShape done ds.leaves ds.labelBitmap ds.labels
  lIdx : ds.lIdx = (keyShape.bits done).length
  nodeId : ds.nodeId = done.length

theorem Built.start : Built [] ⟨[], [], [], 0, 0⟩ := by
  refine ⟨⟨Nat.zero_le _, ?_, ?_, rfl, rfl⟩, rfl, rfl⟩
  · intro j
    simp [bitAt, bitsOf]
  · intro j
    simp [bitAt, bitsOf, Shape.bits]

/-- The arrays after one more node. -/
theorem Built.push (h : Built done ds) (ks : List Bytes) :
    Built (done ++ [ks]) {
      leaves := if keyShape.leaf ks then setBit ds.leaves ds.nodeId else ds.leaves
      labelBitmap := setBit ds.labelBitmap (ds.lIdx + (keyShape.kids ks).length)
      labels := ds.labels ++ (keyShape.kids ks).map Prod.fst
      lIdx := ds.lIdx + (keyShape.kids ks).length + 1
      nodeId := ds.nodeId + 1 } := by
  have hbits : keyShape.bits (done ++ [ks]) = keyShape.bits done ++
      (List.replicate (keyShape.kids ks).length false ++ [true]) := by
    rw [Shape.bits_append, Shape.bits_cons]
    rfl
  have hlen : (keyShape.bits (done ++ [ks])).length =
      (keyShape.bits done).length + (keyShape.kids ks).length + 1 := by
    rw [hbits]
    simp
    omega
  refine ⟨⟨?_, ?_, ?_, ?_, ?_⟩, ?_, ?_⟩
  · have hwords := h.encodes.leafWords
    dsimp only
    rw [List.length_append, List.length_singleton]
    split_ifs
    · rw [length_setBit, h.nodeId]
      omega
    · omega
  · intro j
    have hleaf := h.encodes.leaves j
    have hold : bitAt (if keyShape.leaf ks then setBit ds.leaves ds.nodeId else ds.leaves) j =
        (bitAt ds.leaves j || (keyShape.leaf ks && decide (done.length = j))) := by
      split_ifs with hk
      · rw [bitAt_setBit, h.nodeId, hk, Bool.true_and]
      · rw [Bool.not_eq_true] at hk
        rw [hk, Bool.false_and, Bool.or_false]
    dsimp only
    rw [hold, hleaf, List.map_append]
    rcases Nat.lt_trichotomy j done.length with hj | rfl | hj
    · rw [List.getElem?_append_left (by simpa using hj), decide_eq_false (by omega), Bool.and_false,
        Bool.or_false]
    · simp
    · rw [List.getElem?_eq_none (by simpa using Nat.le_of_lt hj), List.getElem?_eq_none (by simpa using hj),
        decide_eq_false (by omega), Bool.and_false, Bool.or_false]
  · intro j
    dsimp only
    rw [bitAt_setBit, h.encodes.bits, h.lIdx, hbits]
    rcases Nat.lt_or_ge j (keyShape.bits done).length with hj | hj
    · rw [List.getElem?_append_left hj, decide_eq_false (by omega), Bool.or_false]
    · rw [List.getElem?_append_right hj, List.getElem?_eq_none hj, Option.getD_none, Bool.false_or,
        List.getElem?_append, List.length_replicate]
      split_ifs with hk
      · rw [List.getElem?_replicate, if_pos hk, decide_eq_false (by omega)]
        rfl
      · rcases Nat.eq_or_lt_of_le (Nat.not_lt.mp hk) with heq | hlt
        · rw [← heq, Nat.sub_self, decide_eq_true (by omega)]
          rfl
        · rw [List.getElem?_eq_none (by simp; omega), decide_eq_false (by omega)]
          rfl
  · have hwords := h.encodes.words
    dsimp only
    rw [length_setBit, h.lIdx, hlen]
    omega
  · dsimp only
    rw [Shape.labels_append, h.encodes.labels]
    simp [Shape.labels]
  · dsimp only
    rw [hlen, h.lIdx]
  · dsimp only
    rw [h.nodeId, List.length_append, List.length_singleton]

/-- The frame's first key ends here exactly if its node ends a word. -/
theorem Frame.head {f : Nat × Nat} (h : Frame keys col f ks) :
    ∃ k rest, keys[f.1]? = some k ∧ ks = k.drop col :: rest ∧
      rest = RulesetBin.suffixes keys col (f.1 + 1, f.2) ∧
      (k.length = col ↔ keyShape.leaf ks = true) := by
  have hlt := h.lt
  have hle := h.le
  have hcons : RulesetBin.suffixes keys col f = (keys[f.1]).drop col ::
      RulesetBin.suffixes keys col (f.1 + 1, f.2) := suffixes_cons hlt hle
  have hcol : col ≤ (keys[f.1]).length := by
    apply h.col_le
    rw [List.drop_eq_getElem_cons (by omega : f.1 < keys.length),
      show f.2 - f.1 = (f.2 - (f.1 + 1)) + 1 by omega, List.take_succ_cons]
    exact List.mem_cons_self
  refine ⟨_, _, List.getElem?_eq_getElem (by omega), by rw [← h.suffixes, hcons], rfl, ?_⟩
  rw [← h.suffixes, hcons]
  simp only [keyShape, List.head?_cons, beq_iff_eq, Option.some.injEq, List.drop_eq_nil_iff]
  omega

theorem addNode_spec {f : Nat × Nat} (hb : Built done ds) (hf : Frame keys col f ks)
    (hks : Increasing ks) (next : List (Nat × Nat)) :
    ∃ ds' fs, addNode keys col (ds, next) f = some (ds', next ++ fs) ∧ Built (done ++ [ks]) ds' ∧
      List.Forall₂ (Frame keys (col + 1)) fs ((keyShape.kids ks).map Prod.snd) := by
  obtain ⟨k, rest, hk, hcons, hrest, hterm⟩ := hf.head
  have hlt := hf.lt
  -- past a key that ends here, the range holds the keys that continue
  have hcont : suffixes keys col (if k.length = col then f.1 + 1 else f.1, f.2) = continuing ks := by
    unfold continuing
    by_cases hc : k.length = col
    · have hnil : k.drop col = [] := List.drop_eq_nil_iff.mpr (Nat.le_of_eq hc)
      rw [if_pos hc, ← hrest, hcons, hnil]
      rfl
    · have hne : ks.head? ≠ some [] := by
        intro he
        exact hc (hterm.mpr (by simp [keyShape, he]))
      rw [if_neg hc, if_neg hne]
      exact hf.suffixes
  obtain ⟨rs, hrs, hall⟩ := runs_spec keys col
    (f.2 - if k.length = col then f.1 + 1 else f.1) (if k.length = col then f.1 + 1 else f.1)
    (by split_ifs <;> omega) (Nat.le_refl _) hf.le (by rw [hcont]; exact hks.ne_nil_of_continuing)
  rw [hcont] at hall
  have hlen : rs.length = (keyShape.kids ks).length := hall.length_eq
  have hfst : rs.map Prod.fst = (keyShape.kids ks).map Prod.fst := by
    rw [← List.forall₂_eq_eq_eq, List.forall₂_map_left_iff, List.forall₂_map_right_iff]
    exact hall.imp fun _ _ h => h.1
  refine ⟨_, rs.map Prod.snd, ?_, hb.push ks, ?_⟩
  · unfold addNode
    simp only [hk, hrs, Option.bind_eq_bind, Option.bind_some, hlen, hfst]
    by_cases hc : k.length = col
    · simp only [if_pos hc, hterm.mp hc]
      rfl
    · have hleaf : keyShape.leaf ks = false := by
        rw [← Bool.not_eq_true, ← hterm]
        exact hc
      simp only [if_neg hc, hleaf]
      rfl
  · rw [List.forall₂_map_left_iff, List.forall₂_map_right_iff]
    exact hall.imp fun _ _ h => h.2

/-! ## Levels -/

theorem Increasing.kids (h : Increasing ks) :
    ∀ x ∈ (keyShape.kids ks).map Prod.snd, Increasing x := by
  intro x hx
  obtain ⟨g, hg, rfl⟩ := List.mem_map.mp hx
  exact h.continuing.group h.ne_nil_of_continuing hg

theorem increasing_childList (h : ∀ ks ∈ nodes, Increasing ks) :
    ∀ ks ∈ keyShape.childList nodes, Increasing ks := by
  intro x hx
  obtain ⟨ks, hks, hx⟩ := List.mem_flatMap.mp hx
  exact (h ks hks).kids x hx

/-- One level: its nodes are written and their children queued. -/
theorem addLevel_spec {queue : List (Nat × Nat)} (hq : List.Forall₂ (Frame keys col) queue nodes)
    (hi : ∀ ks ∈ nodes, Increasing ks) (hb : Built done ds) (next : List (Nat × Nat)) :
    ∃ ds' fs, queue.foldlM (addNode keys col) (ds, next) = some (ds', next ++ fs) ∧
      Built (done ++ nodes) ds' ∧
      List.Forall₂ (Frame keys (col + 1)) fs (keyShape.childList nodes) := by
  induction hq generalizing done ds next with
  | nil => exact ⟨ds, [], by simp, by simpa using hb, List.Forall₂.nil⟩
  | @cons f ks queue nodes hf hq ih =>
    obtain ⟨ds₁, fs₁, hstep, hb₁, hfs₁⟩ := addNode_spec hb hf (hi ks List.mem_cons_self) next
    obtain ⟨ds₂, fs₂, hrest, hb₂, hfs₂⟩ :=
      ih (fun k hk => hi k (List.mem_cons_of_mem _ hk)) hb₁ (next ++ fs₁)
    refine ⟨ds₂, fs₁ ++ fs₂, ?_, by simpa using hb₂, ?_⟩
    · rw [List.foldlM_cons, hstep, Option.bind_eq_bind, Option.bind_some, hrest, List.append_assoc]
    · unfold Shape.childList at hfs₂ ⊢
      rw [List.flatMap_cons]
      exact List.rel_append hfs₁ hfs₂

theorem addLevels_spec (n col : Nat) {queue : List (Nat × Nat)}
    (hq : List.Forall₂ (Frame keys col) queue nodes) (hi : ∀ ks ∈ nodes, Increasing ks)
    (hn : ∀ ks ∈ nodes, longest ks < n) (hb : Built done ds) :
    ∃ ds' all, addLevels keys n col queue ds = some ds' ∧ Built (done ++ all) ds' ∧
      all = nodes ++ keyShape.childList all := by
  induction n generalizing col queue nodes done ds with
  | zero =>
    cases hq with
    | nil => exact ⟨ds, [], rfl, by simpa using hb, rfl⟩
    | @cons _ ks _ _ _ _ => exact absurd (hn ks List.mem_cons_self) (Nat.not_lt_zero _)
  | succ n ih =>
    cases hq with
    | nil => exact ⟨ds, [], rfl, by simpa using hb, rfl⟩
    | @cons f ks queue nodes hf hq =>
      obtain ⟨ds₁, fs, hlevel, hb₁, hfs⟩ := addLevel_spec (List.Forall₂.cons hf hq) hi hb []
      have hlt : ∀ x ∈ keyShape.childList (ks :: nodes), longest x < n := by
        intro x hx
        obtain ⟨y, hy, hx⟩ := List.mem_flatMap.mp hx
        obtain ⟨g, hg, rfl⟩ := List.mem_map.mp hx
        have hheight : longest g.2 < longest y := keyShape.height_lt y g hg
        have := hn y hy
        omega
      obtain ⟨ds₂, all, hrest, hb₂, hall⟩ := ih (col + 1) hfs (increasing_childList hi) hlt hb₁
      refine ⟨ds₂, ks :: nodes ++ all, ?_, by simpa using hb₂, ?_⟩
      · unfold addLevels
        rw [hlevel]
        simp only [List.nil_append, Option.bind_eq_bind, Option.bind_some, hrest]
      · rw [Shape.childList_append, ← hall]

/-- The builder writes the encoding of the trie of the sorted keys. -/
theorem buildDomainSet_encodes (hne : ks ≠ []) :
    ∃ leaves labelBitmap labels nodes,
      buildDomainSet ks = some (leaves, labelBitmap, labels) ∧
        Encodes keyShape nodes leaves labelBitmap labels ∧
        keyShape.LevelOrder (sortedKeys ks) nodes := by
  have hpos : 0 < (sortedKeys ks).length := by
    obtain ⟨k, hk⟩ := List.exists_mem_of_ne_nil ks hne
    exact List.length_pos_of_mem (mem_sortedKeys.mpr hk)
  have hroot : Frame (sortedKeys ks) 0 (0, (sortedKeys ks).length) (sortedKeys ks) :=
    ⟨hpos, Nat.le_refl _, by simp [suffixes, show (List.drop 0 : Bytes → Bytes) = id from rfl],
      by simp⟩
  obtain ⟨ds, nodes, hds, hb, hnodes⟩ := addLevels_spec (longest (sortedKeys ks) + 1) 0
    (List.Forall₂.cons hroot List.Forall₂.nil)
    (by simpa using increasing_sortedKeys ks) (by simp) Built.start
  refine ⟨ds.leaves, ds.labelBitmap, ds.labels, nodes, ?_, hb.encodes, hnodes⟩
  unfold buildDomainSet
  simp only [hds, Option.bind_eq_bind, Option.bind_some]
  rfl

end RustCrash.RulesetBin
