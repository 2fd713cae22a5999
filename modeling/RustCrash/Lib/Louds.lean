import RustCrash.Lib.Bits

/-
  Level-order succinct trees (LOUDS). A `Shape` is a finite labelled tree given by its nodes'
  children. Its nodes in level order satisfy one equation (`LevelOrder`): the children of the listed
  nodes, in the order of the list, are the listed nodes after the root.

  The encoding has one 0 for each edge and a 1 after each node's edges (`bits`), and the edge labels
  in the same order (`labels`).
-/

namespace RustCrash.Lib.Louds

variable {α β : Type}

/-- A finite labelled tree: which nodes end a word, and the children of each node. -/
structure Shape (β α : Type) where
  leaf : α → Bool
  kids : α → List (β × α)
  height : α → Nat
  height_lt : ∀ x, ∀ p ∈ kids x, height p.2 < height x

namespace Shape

variable (t : Shape β α)

/-- The number of nodes below and including a node. -/
def count (x : α) : Nat := 1 + ((t.kids x).attach.map fun p => count p.1.2).sum
termination_by t.height x
decreasing_by exact t.height_lt x p.1 p.2

/-- The words below a node, in depth-first order. -/
def words (x : α) : List (List β) :=
  (if t.leaf x then [[]] else []) ++
    (t.kids x).attach.flatMap fun p => (words p.1.2).map (p.1.1 :: ·)
termination_by t.height x
decreasing_by exact t.height_lt x p.1 p.2

theorem count_eq (x : α) : t.count x = 1 + ((t.kids x).map fun p => t.count p.2).sum := by
  rw [count]
  rw [List.map_subtype (g := fun p => t.count p.2) (fun _ _ => rfl), List.unattach_attach]

theorem words_eq (x : α) : t.words x =
    (if t.leaf x then [[]] else []) ++ (t.kids x).flatMap fun p => (t.words p.2).map (p.1 :: ·) := by
  rw [words]
  rw [List.flatMap_subtype (g := fun p => (t.words p.2).map (p.1 :: ·)) (fun _ _ => rfl),
    List.unattach_attach]

/-! ## Level order -/

def childList (nodes : List α) : List α := nodes.flatMap fun x => (t.kids x).map Prod.snd

def labels (nodes : List α) : List β := nodes.flatMap fun x => (t.kids x).map Prod.fst

def bits (nodes : List α) : List Bool :=
  nodes.flatMap fun x => List.replicate (t.kids x).length false ++ [true]

/-- The nodes of a tree in level order. -/
def LevelOrder (root : α) (nodes : List α) : Prop := nodes = root :: t.childList nodes

variable {t} {root x y : α} {b : β} {nodes pre post : List α} {done todo : List (β × α)}

theorem childList_append (xs ys : List α) :
    t.childList (xs ++ ys) = t.childList xs ++ t.childList ys := List.flatMap_append

theorem labels_append (xs ys : List α) : t.labels (xs ++ ys) = t.labels xs ++ t.labels ys :=
  List.flatMap_append

theorem bits_append (xs ys : List α) : t.bits (xs ++ ys) = t.bits xs ++ t.bits ys :=
  List.flatMap_append

theorem bits_cons (x : α) (xs : List α) :
    t.bits (x :: xs) = List.replicate (t.kids x).length false ++ true :: t.bits xs := by
  unfold bits
  rw [List.flatMap_cons, List.append_assoc]
  rfl

theorem length_labels (nodes : List α) : (t.labels nodes).length = (t.childList nodes).length := by
  unfold labels childList
  rw [List.length_flatMap, List.length_flatMap]
  simp

/-! ## Counting -/

theorem LevelOrder.length_labels (h : t.LevelOrder root nodes) :
    (t.labels nodes).length + 1 = nodes.length := by
  conv => rhs; rw [h]
  rw [Shape.length_labels, List.length_cons]

theorem sum_count (nodes : List α) :
    (nodes.map t.count).sum = nodes.length + ((t.childList nodes).map t.count).sum := by
  induction nodes with
  | nil => rfl
  | cons x xs ih =>
    unfold childList at ih ⊢
    rw [List.map_cons, List.sum_cons, ih, t.count_eq, List.flatMap_cons, List.map_append,
      List.sum_append, List.length_cons, List.map_map]
    have : (List.map (fun p => t.count p.2) (t.kids x)).sum =
        (List.map (t.count ∘ Prod.snd) (t.kids x)).sum := rfl
    omega

theorem LevelOrder.count_root (h : t.LevelOrder root nodes) : t.count root = nodes.length := by
  have hs : (nodes.map t.count).sum = _ := sum_count nodes
  conv at hs => lhs; rw [h]
  rw [List.map_cons, List.sum_cons] at hs
  omega

theorem length_bits (nodes : List α) :
    (t.bits nodes).length = (t.labels nodes).length + nodes.length := by
  induction nodes with
  | nil => rfl
  | cons x xs ih =>
    rw [bits_cons, List.length_append, List.length_cons, ih, List.length_replicate]
    unfold labels
    rw [List.flatMap_cons, List.length_append, List.length_map, List.length_cons]
    omega

theorem count_bits (nodes : List α) : (t.bits nodes).count true = nodes.length := by
  induction nodes with
  | nil => rfl
  | cons x xs ih =>
    rw [bits_cons, List.count_append, List.count_cons_self, ih, List.length_cons,
      List.count_replicate]
    simp

/-! ## Positions -/

/-- Bit `d` of a node with at least `d` edges is 0 for an edge and 1 after the last. -/
theorem bits_getElem? (pre post : List α) (hd : t.kids x = done ++ todo) :
    (t.bits (pre ++ x :: post))[(t.bits pre).length + done.length]? = some todo.isEmpty := by
  rw [bits_append, List.getElem?_append_right (by omega), Nat.add_sub_cancel_left, bits_cons, hd,
    List.length_append]
  cases todo with
  | nil =>
    rw [List.getElem?_append_right (by simp)]
    simp
  | cons p ps =>
    rw [List.getElem?_append_left (by simp), List.getElem?_replicate, if_pos (by simp)]
    rfl

/-- As many ones as nodes stand before the edges of a node. -/
theorem count_bits_take (pre post : List α) (hd : t.kids x = done ++ todo) :
    ((t.bits (pre ++ x :: post)).take ((t.bits pre).length + done.length)).count true =
      pre.length := by
  rw [bits_append, List.take_length_add_append, List.count_append, count_bits, bits_cons, hd,
    List.length_append, List.take_append_of_le_length (by simp), List.take_replicate,
    List.count_replicate]
  simp

theorem truePositions_bits (n : Nat) (nodes : List α) (i : Nat) (hi : i < nodes.length) :
    (truePositions n (t.bits nodes))[i]? = some (n + (t.bits (nodes.take (i + 1))).length - 1) := by
  induction nodes generalizing n i with
  | nil => exact absurd hi (Nat.not_lt_zero i)
  | cons x xs ih =>
    rw [bits_cons, truePositions_append, truePositions_replicate_false, List.nil_append,
      truePositions, if_pos rfl, List.take_succ_cons, bits_cons, List.length_append,
      List.length_cons, List.length_replicate]
    cases i with
    | zero =>
      simp [bits]
    | succ i =>
      rw [List.getElem?_cons_succ, ih _ _ (by simpa using hi), Option.some.injEq]
      have hpos : 0 < (t.bits (xs.take (i + 1))).length := by
        rw [length_bits, List.length_take]
        simp at hi
        omega
      omega

theorem LevelOrder.mem_kid (h : t.LevelOrder root nodes) (hx : x ∈ nodes) {p : β × α}
    (hp : p ∈ t.kids x) : p.2 ∈ nodes := by
  rw [h]
  exact List.mem_cons_of_mem _ (List.mem_flatMap.mpr ⟨x, hx, List.mem_map_of_mem hp⟩)

/-- A tree with a word has a node that ends one. -/
theorem LevelOrder.exists_leaf (h : t.LevelOrder root nodes) (hw : t.words root ≠ []) :
    ∃ x ∈ nodes, t.leaf x = true := by
  by_contra hnone
  have hempty : ∀ n, ∀ x ∈ nodes, t.height x ≤ n → t.words x = [] := by
    intro n
    induction n using Nat.strong_induction_on with
    | _ n ih =>
      intro x hx hn
      have hkids : (t.kids x).flatMap (fun p => (t.words p.2).map (p.1 :: ·)) = [] := by
        rw [List.flatMap_eq_nil_iff]
        intro p hp
        have hlt := t.height_lt x p hp
        rw [ih (t.height p.2) (by omega) p.2 (h.mem_kid hx hp) (Nat.le_refl _), List.map_nil]
      rw [t.words_eq, hkids, if_neg (fun hl => hnone ⟨x, hx, hl⟩)]
      rfl
  exact hw (hempty _ root (by rw [h]; exact List.mem_cons_self) (Nat.le_refl _))

/-- A tree with a nonempty word has an edge. -/
theorem LevelOrder.labels_ne_nil (h : t.LevelOrder root nodes) {w : List β} (hw : w ∈ t.words root)
    (hne : w ≠ []) : t.labels nodes ≠ [] := by
  intro hnil
  have hroot : root ∈ nodes := by
    rw [h]
    exact List.mem_cons_self
  have hkids : t.kids root = [] := List.map_eq_nil_iff.mp (List.flatMap_eq_nil_iff.mp hnil root hroot)
  rw [t.words_eq, hkids] at hw
  split_ifs at hw <;> simp at hw
  exact hne hw

/-- The edge after `z` others leads to node `z + 1`. -/
theorem LevelOrder.child (h : t.LevelOrder root (pre ++ x :: post))
    (hd : t.kids x = done ++ (b, y) :: todo) :
    (pre ++ x :: post)[(t.labels pre).length + done.length + 1]? = some y ∧
      (t.labels (pre ++ x :: post))[(t.labels pre).length + done.length]? = some b := by
  constructor
  · rw [h, List.getElem?_cons_succ, childList_append, Shape.length_labels,
      List.getElem?_append_right (by omega), Nat.add_sub_cancel_left]
    unfold childList
    rw [List.flatMap_cons, hd, List.map_append, List.append_assoc,
      List.getElem?_append_right (by simp)]
    simp
  · rw [labels_append, List.getElem?_append_right (by omega), Nat.add_sub_cancel_left]
    unfold labels
    rw [List.flatMap_cons, hd, List.map_append, List.append_assoc,
      List.getElem?_append_right (by simp)]
    simp

end Shape

end RustCrash.Lib.Louds
