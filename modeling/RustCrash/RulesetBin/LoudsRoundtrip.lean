import RustCrash.RulesetBin.LoudsBuild

/-
  Writing a domain trie and reading it back. The trie of a key list has a node for each
  prefix of a key. With at most 2^31 edges the keys come back, sorted and without
  repetition (`domain_set_roundtrip`). The select index holds `u32` positions, and the
  edges of the last node of a larger trie start at a position it cannot hold.
-/

namespace RustCrash.RulesetBin

open Lib Lib.Louds

/-- The builder's output is accepted, and what is read from it is each key once. -/
def RoundTrips (ks : List Bytes) : Prop :=
  ∃ leaves labelBitmap labels t result,
    buildDomainSet ks = some (leaves, labelBitmap, labels) ∧
      LoudsTrie.new leaves labelBitmap labels = .ok t ∧
      t.keys = .ok result ∧ result.Nodup ∧ ∀ k, k ∈ result ↔ k ∈ ks

/-- The number of edges of the trie of a key list. -/
def trieEdges (ks : List Bytes) : Nat := keyShape.count (sortedKeys ks) - 1

/-- The arrays of a trie with at most 2^31 edges, and what is read from them. -/
structure Written (ks : List Bytes) (leaves labelBitmap : List UInt64) (labels : Bytes)
    (t : LoudsTrie) : Prop where
  build : buildDomainSet ks = some (leaves, labelBitmap, labels)
  new : LoudsTrie.new leaves labelBitmap labels = .ok t
  keys : t.keys = .ok (sortedKeys ks)
  leaves_pos : leaves ≠ []
  leaves_le : leaves.length ≤ 2 ^ 31
  bitmap_pos : labelBitmap ≠ []
  bitmap_le : labelBitmap.length ≤ 2 ^ 31
  labels_le : labels.length ≤ 2 ^ 31
  labels_pos : (∀ k ∈ ks, k ≠ []) → labels ≠ []

theorem written {ks : List Bytes} (hne : ks ≠ []) (hsmall : trieEdges ks ≤ 2 ^ 31) :
    ∃ leaves labelBitmap labels t, Written ks leaves labelBitmap labels t := by
  obtain ⟨leaves, labelBitmap, labels, nodes, hbuild, henc, hlevel⟩ := buildDomainSet_encodes hne
  have hcount : keyShape.count (sortedKeys ks) = nodes.length := hlevel.count_root
  have hedges := hlevel.length_labels
  unfold trieEdges at hsmall
  have hlen : nodes.length ≤ 2 ^ 31 + 1 := by omega
  have hwords := words_keyShape _ (Nat.le_refl _) (increasing_sortedKeys ks)
  have hkeys := keys_eq (henc.answers (by omega)) hlevel hlen
  rw [hwords] at hkeys
  have hbits := Shape.length_bits (t := keyShape) nodes
  have hbitmap := henc.words
  have hleaves := henc.leafWords
  obtain ⟨k, hk⟩ := List.exists_mem_of_ne_nil ks hne
  have hmem : k ∈ keyShape.words (sortedKeys ks) := by
    rw [hwords]
    exact mem_sortedKeys.mpr hk
  refine ⟨leaves, labelBitmap, labels, _, hbuild, henc.new_eq hlevel, hkeys, ?_, by omega, ?_,
    by omega, by rw [henc.labels]; omega, ?_⟩
  · rintro rfl
    obtain ⟨x, hx, hleaf⟩ := hlevel.exists_leaf (List.ne_nil_of_mem hmem)
    obtain ⟨i, hi, rfl⟩ := List.getElem_of_mem hx
    have hbit := henc.leaves i
    simp [bitAt, bitsOf, hi, hleaf] at hbit
  · rintro rfl
    rw [List.length_nil] at hbitmap
    omega
  · intro hall
    rw [henc.labels]
    exact hlevel.labels_ne_nil hmem (hall k hk)

/-- Keys whose trie has at most 2^31 edges are read back as written. -/
theorem domain_set_roundtrip {ks : List Bytes} (hne : ks ≠ []) (hsmall : trieEdges ks ≤ 2 ^ 31) :
    RoundTrips ks := by
  obtain ⟨leaves, labelBitmap, labels, t, h⟩ := written hne hsmall
  exact ⟨leaves, labelBitmap, labels, t, sortedKeys ks, h.build, h.new, h.keys,
    (increasing_sortedKeys ks).nodup, fun _ => mem_sortedKeys⟩

/-- The trie has at most as many edges as its keys have bytes. -/
theorem count_le (n : Nat) {ks : List Bytes} (hn : longest ks ≤ n) (h : Increasing ks) :
    keyShape.count ks ≤ 1 + (ks.map List.length).sum := by
  induction n using Nat.strong_induction_on generalizing ks with
  | _ n ih =>
    have hcont : ((continuing ks).map List.length).sum ≤ (ks.map List.length).sum := by
      unfold continuing
      split_ifs
      · exact List.Sublist.sum_le_sum ((List.tail_sublist ks).map _) (fun _ _ => Nat.zero_le _)
      · exact Nat.le_refl _
    have hgroups : ((continuing ks).map List.length).sum =
        ((keyShape.kids ks).map fun g => (g.2.map fun r => r.length + 1).sum).sum := by
      conv => lhs; rw [← groups_flatMap h.ne_nil_of_continuing]
      rw [List.flatMap_def, List.map_flatten, List.sum_flatten, List.map_map, List.map_map]
      congr 1
      refine List.map_congr_left fun g _ => ?_
      simp [Function.comp_def]
    have hkid : ∀ g ∈ keyShape.kids ks,
        keyShape.count g.2 ≤ (g.2.map fun r => r.length + 1).sum := by
      intro g hg
      have hlt : longest g.2 < longest ks := keyShape.height_lt ks g hg
      have hinc := h.continuing.group h.ne_nil_of_continuing hg
      have hcount := ih (longest g.2) (by omega) (Nat.le_refl _) hinc
      have hpos := List.length_pos_iff.mpr (mem_groups hg).1
      have hsum : (g.2.map fun r => r.length + 1).sum = (g.2.map List.length).sum + g.2.length := by
        rw [List.sum_map_add]
        simp
      omega
    have hsum := List.sum_le_sum hkid
    rw [Shape.count_eq]
    omega

theorem trieEdges_le (ks : List Bytes) : trieEdges ks ≤ (ks.map List.length).sum := by
  have hcount := count_le _ (Nat.le_refl _) (increasing_sortedKeys ks)
  have hsub : (sortedKeys ks).Sublist (ks.insertionSort (· ≤ ·)) := dedup_sublist _
  have hle := List.Sublist.sum_le_sum (hsub.map List.length) (fun _ _ => Nat.zero_le _)
  rw [((List.perm_insertionSort (· ≤ ·) ks).map List.length).sum_eq] at hle
  unfold trieEdges
  omega

theorem domain_set_roundtrip_three : RoundTrips [[98, 97], [97], [98, 97], [98, 98]] :=
  domain_set_roundtrip (by decide) (Nat.le_trans (trieEdges_le _) (by decide))

/-! ## One long key -/

section

variable {k : Bytes}

theorem kids_single {r : Bytes} {b : UInt8} : keyShape.kids [b :: r] = [(b, [r])] := by
  simp [keyShape, continuing, groups]

theorem kids_single_nil : keyShape.kids [[]] = [] := by
  simp [keyShape, continuing, groups]

/-- The trie of one key is a path. -/
theorem count_single (k : Bytes) : keyShape.count [k] = k.length + 1 := by
  induction k with
  | nil =>
    rw [Shape.count_eq, kids_single_nil]
    rfl
  | cons b r ih =>
    rw [Shape.count_eq, kids_single]
    simp only [List.map_cons, List.map_nil, List.sum_cons, List.sum_nil, ih, List.length_cons]
    omega

theorem sortedKeys_single (k : Bytes) : sortedKeys [k] = [k] := sortDedup_singleton k

theorem kids_path {i : Nat} (h : i < k.length) :
    keyShape.kids [k.drop i] = [] ++ (k[i], [k.drop (i + 1)]) :: [] := by
  rw [List.drop_eq_getElem_cons h, kids_single]
  rfl

/-- Node `i` of the path stands for the key without its first `i` bytes; one bit and one
    label lead to each node, and one bit ends it. -/
structure PathNode (k : Bytes) (nodes : List (List Bytes)) (i : Nat) : Prop where
  split : nodes = nodes.take i ++ [k.drop i] :: nodes.drop (i + 1)
  length : (nodes.take i).length = i
  bits : (keyShape.bits (nodes.take i)).length = 2 * i
  labels : (keyShape.labels (nodes.take i)).length = i

theorem pathNode {nodes : List (List Bytes)} (hl : keyShape.LevelOrder [k] nodes) (i : Nat)
    (hi : i ≤ k.length) : PathNode k nodes i := by
  induction i with
  | zero =>
    refine ⟨?_, rfl, rfl, rfl⟩
    have hlevel : nodes = [k] :: keyShape.childList nodes := hl
    rw [hlevel]
    rfl
  | succ i ih =>
    obtain ⟨hn, hlen, hbits, hlabels⟩ := ih (by omega)
    have hd := kids_path (k := k) (i := i) hi
    have hchild := hl
    rw [hn] at hchild
    have hnext := (hchild.child hd).1
    rw [← hn, hlabels, List.length_nil, Nat.add_zero] at hnext
    obtain ⟨hlt, hget⟩ := List.getElem?_eq_some_iff.mp hnext
    have htake : nodes.take (i + 1) = nodes.take i ++ [[k.drop i]] := by
      have hget : nodes[i]? = some [k.drop i] := by
        rw [hn, List.getElem?_append_right (by omega), hlen, Nat.sub_self]
        rfl
      rw [List.take_add_one, hget]
      rfl
    refine ⟨?_, ?_, ?_, ?_⟩
    · conv => lhs; rw [← List.take_append_drop (i + 1) nodes]
      rw [List.drop_eq_getElem_cons hlt, hget]
    · rw [List.length_take]
      omega
    · rw [htake, Shape.bits_append, List.length_append, hbits, Shape.bits_cons, hd]
      simp [Shape.bits]
      omega
    · rw [htake, Shape.labels_append, List.length_append, hlabels]
      simp [Shape.labels, hd]

variable {nodes : List (List Bytes)} {r : LoudsTrie} (ha : Answers keyShape nodes r)
  (hl : keyShape.LevelOrder [k] nodes) (budget : Nat)

include ha hl

/-- One step down the path. -/
theorem walk_path_step {i : Nat} (hi : i < k.length) (stack : List (Nat × Nat)) (current : Bytes)
    (result : List Bytes) :
    ∃ stack' current' result', r.walk (budget + 1) ((i, 2 * i) :: stack) current result =
      r.walk budget ((i + 1, (2 * i + 1) % 2 ^ 32 + 1) :: stack') current' result' := by
  obtain ⟨hn, hlen, hbits, hlabels⟩ := pathNode hl i (Nat.le_of_lt hi)
  have hedge := (walk_edge ha hl hn (kids_path hi) (k := i + 1) (by rw [hlabels]; rfl) budget stack
    current result).2
  rw [(pathNode hl (i + 1) hi).bits, hlen, hbits] at hedge
  exact ⟨_, _, _, hedge⟩

/-- The reader goes down the path as long as positions are not cut. -/
theorem walk_path (result : List Bytes) (i : Nat) (hi : i ≤ k.length) (hcut : i ≤ 2 ^ 31) :
    ∃ stack current result', r.walk (budget + i) [(0, 0)] [] result =
      r.walk budget ((i, 2 * i) :: stack) current result' := by
  induction i generalizing budget with
  | zero => exact ⟨[], [], result, rfl⟩
  | succ i ih =>
    obtain ⟨stack, current, result', hwalk⟩ := ih (budget + 1) (by omega) (by omega)
    obtain ⟨stack', current', result'', hstep⟩ :=
      walk_path_step ha hl budget hi stack current result'
    refine ⟨stack', current', result'', ?_⟩
    rw [show budget + (i + 1) = budget + 1 + i by omega, hwalk, hstep,
      show (2 * i + 1) % 2 ^ 32 + 1 = 2 * (i + 1) by omega]

/-- Below depth 2^31 the walk goes on at a position that was cut, and stops there. -/
theorem walk_cut (hlong : 2 ^ 31 < k.length) (result : List Bytes) :
    r.walk (budget + 2 + 2 ^ 31) [(0, 0)] [] result =
      .error (.config "malformed domain trie: bad label index") := by
  obtain ⟨stack, current, result', hwalk⟩ :=
    walk_path ha hl (budget + 2) result (2 ^ 31) (by omega) (Nat.le_refl _)
  obtain ⟨stack', current', result'', hstep⟩ :=
    walk_path_step ha hl (budget + 1) hlong stack current result'
  -- bit 2 belongs to node 1, which has an edge
  have hbit : r.bit 2 = some 0 := by
    have h1 := pathNode hl 1 (by omega)
    have h0 := Shape.bits_getElem? (nodes.take 1) (nodes.drop (1 + 1))
      (kids_path (by omega : 1 < k.length))
    rw [← h1.split, h1.bits] at h0
    simpa using ha.bit _ _ h0
  rw [hwalk, hstep]
  unfold LoudsTrie.walk
  rw [show (2 * 2 ^ 31 + 1) % 2 ^ 32 + 1 = 2 by decide, hbit, okOr_some, bind_ok,
    if_neg (by decide), if_neg (by decide)]
  rfl

end

/-- A key of more than 2^31 bytes, alone, is not read back. -/
theorem long_key_unreadable {k : Bytes} (hlong : 2 ^ 31 < k.length) (hk : k.length + 1 < 2 ^ 32) :
    ¬ RoundTrips [k] := by
  rintro ⟨leaves, labelBitmap, labels, t, result, hbuild, hnew, hkeys, -, -⟩
  obtain ⟨leaves', labelBitmap', labels', nodes, hbuild', henc, hlevel⟩ :=
    buildDomainSet_encodes (List.cons_ne_nil k [])
  rw [hbuild] at hbuild'
  obtain ⟨rfl, rfl, rfl⟩ : leaves = leaves' ∧ labelBitmap = labelBitmap' ∧ labels = labels' := by
    simpa using hbuild'
  rw [henc.new_eq hlevel] at hnew
  obtain rfl := Except.ok.inj hnew
  rw [sortedKeys_single] at hlevel
  have hcount := hlevel.count_root
  rw [count_single] at hcount
  have ha := henc.answers (by omega)
  have hleaf := ha.leaf 0 [k] (by rw [hlevel]; rfl)
  generalize readerOf nodes.length leaves labelBitmap labels = r at ha hkeys hleaf
  have hones : r.onesPositions.length = k.length + 1 := by rw [ha.ones, hcount]
  obtain ⟨budget, hbudget⟩ : ∃ b, 8 * (r.labels.length + r.onesPositions.length + 64) =
      b + 2 + 2 ^ 31 := ⟨8 * (r.labels.length + r.onesPositions.length + 64) - 2 - 2 ^ 31, by omega⟩
  unfold LoudsTrie.keys at hkeys
  rw [hleaf, okOr_some, bind_ok] at hkeys
  dsimp only at hkeys
  rw [hbudget, walk_cut ha hlevel budget hlong] at hkeys
  cases hkeys

theorem zeros_unreadable : ¬ RoundTrips [List.replicate (2 ^ 31 + 1) 0] :=
  long_key_unreadable (by rw [List.length_replicate]; decide) (by rw [List.length_replicate]; decide)

end RustCrash.RulesetBin
