import RustCrash.Dns.Wire

/-
  What `read_name` makes of a name that `write_name` wrote. Every `.`-separated piece is
  cut to 63 bytes, read back lossily and lower-cased (`rereadLabel`), and reading stops at
  the first empty piece (`reread`). A lower-case name is read back as it was exactly when
  it is `Writable`: empty, or all its pieces are non-empty and fit in a label.
-/

namespace RustCrash.Dns

open Lib String

/-! ## Reading at an offset -/

variable {off : Nat} {raw rest : Bytes} {name : Str}

theorem drop_drop_append {raw a rest : Bytes} (h : raw.drop off = a ++ rest) :
    raw.drop (off + a.length) = rest := by
  rw [← List.drop_drop, h, List.drop_left]

theorem length_le_of_drop {raw a rest : Bytes} (h : raw.drop off = a ++ rest) (ha : a ≠ []) :
    off + a.length ≤ raw.length := by
  have hl := congrArg List.length h
  have hp := List.length_pos_iff.mpr ha
  rw [List.length_drop, List.length_append] at hl
  omega

theorem getElem?_of_drop {b : UInt8} (h : raw.drop off = b :: rest) : raw[off]? = some b := by
  rw [← List.head?_drop, h]
  rfl

theorem u16At_of_drop {v : UInt16} (h : raw.drop off = be16 v ++ rest) : u16At raw off = v := by
  unfold u16At
  rw [h, List.take_left' (length_be16 v), ofBE16_be16]

theorem u32At_of_drop {v : UInt32} (h : raw.drop off = be32 v ++ rest) : u32At raw off = v := by
  unfold u32At
  rw [h, List.take_left' (length_be32 v), ofBE32_be32]

/-! ## One label -/

/-- A label after it was written and read back. -/
def rereadLabel (p : Str) : Str := Str.asciiLower (fromUtf8Lossy ((utf8 p).take 63))

/-- A piece that survives: at most 63 bytes, or cut inside a final U+FFFD, which reads as
    U+FFFD again. -/
def LabelFits (p : Str) : Prop :=
  (utf8 p).length ≤ 63 ∨ ((utf8 p).length ≤ 65 ∧ p.getLast? = some replacementChar)

instance : DecidablePred LabelFits := fun p =>
  inferInstanceAs (Decidable ((utf8 p).length ≤ 63 ∨
    ((utf8 p).length ≤ 65 ∧ p.getLast? = some replacementChar)))

/-- What `to_ascii_lowercase` leaves alone. -/
def Lower (s : Str) : Prop := Str.asciiLower s = s

theorem lower_append {s t : Str} : Lower (s ++ t) ↔ Lower s ∧ Lower t := by
  unfold Lower Str.asciiLower
  rw [List.map_append]
  constructor
  · intro h
    exact List.append_inj h (by simp)
  · rintro ⟨hs, ht⟩
    rw [hs, ht]

theorem asciiLower_idem (s : Str) : Lower (Str.asciiLower s) := Str.asciiLower_asciiLower s

theorem length_replacementChar : (utf8 [replacementChar]).length = 3 := by decide

theorem rereadLabel_eq_iff {p : Str} (hl : Lower p) : rereadLabel p = p ↔ LabelFits p := by
  unfold rereadLabel
  by_cases hshort : (utf8 p).length ≤ 63
  · rw [List.take_of_length_le hshort, fromUtf8Lossy_utf8]
    exact ⟨fun _ => Or.inl hshort, fun _ => hl⟩
  rcases take_utf8 p 63 with ⟨q, r, hp, ht⟩ | ⟨q, c, r, k, hp, h0, hk, ht, he⟩
  · -- the cut falls between two characters, so characters are lost
    rw [ht, fromUtf8Lossy_utf8]
    have hlen : (utf8 q).length = 63 := by
      rw [← ht, List.length_take]
      omega
    have hr : r ≠ [] := by
      rintro rfl
      rw [hp, List.append_nil] at hshort
      omega
    constructor
    · intro h
      have := congrArg List.length h
      rw [Str.asciiLower, List.length_map, hp, List.length_append] at this
      have := List.length_pos_iff.mpr hr
      omega
    · rintro (h | ⟨h, hlast⟩)
      · exact absurd h hshort
      · obtain ⟨r', rfl⟩ : ∃ r', r = r' ++ [replacementChar] := by
          rw [hp, List.getLast?_append_of_ne_nil _ hr] at hlast
          exact ⟨r.dropLast, (List.dropLast_append_getLast? _ hlast).symm⟩
        rw [hp, utf8_append, utf8_append, List.length_append, List.length_append,
          length_replacementChar] at h
        omega
  · -- the cut falls inside `c`, which is read as U+FFFD
    rw [ht, fromUtf8Lossy_cut q c k h0 hk]
    have hlow : Str.asciiLower (q ++ [replacementChar]) = q ++ [replacementChar] := by
      have hq : Lower q := by
        rw [hp] at hl
        exact (lower_append.mp hl).1
      exact lower_append.mpr ⟨hq, by unfold Lower; decide⟩
    rw [hlow]
    constructor
    · intro h
      refine Or.inr ⟨?_, ?_⟩
      · rw [← h, utf8_append, List.length_append, length_replacementChar]
        omega
      · rw [← h]
        simp
    · rintro (h | ⟨h, hlast⟩)
      · exact absurd h hshort
      · have hr : r = [] := by
          by_contra hr
          obtain ⟨r', rfl⟩ : ∃ r', r = r' ++ [replacementChar] := by
            rw [hp, List.getLast?_append_of_ne_nil _ (by simp),
              List.getLast?_cons_of_ne_nil hr] at hlast
            exact ⟨r.dropLast, (List.dropLast_append_getLast? _ hlast).symm⟩
          rw [hp, utf8_append, utf8_cons, utf8_append, List.length_append, List.length_append,
            List.length_append, length_replacementChar] at h
          omega
        rw [hp, hr] at hlast
        have hc : c = replacementChar := by simpa using hlast
        rw [hp, hr, hc]

theorem lossy_take_subset (p : Str) (n : Nat) :
    ∀ c ∈ fromUtf8Lossy ((utf8 p).take n), c ∈ p ∨ c = replacementChar := by
  intro x hx
  rcases take_utf8 p n with ⟨q, r, hp, ht⟩ | ⟨q, c, r, k, hp, h0, hk, ht, -⟩
  · rw [ht, fromUtf8Lossy_utf8] at hx
    exact Or.inl (by rw [hp]; exact List.mem_append_left _ hx)
  · rw [ht, fromUtf8Lossy_cut q c k h0 hk, List.mem_append, List.mem_singleton] at hx
    rcases hx with hx | hx
    · exact Or.inl (by rw [hp]; exact List.mem_append_left _ hx)
    · exact Or.inr hx

theorem dot_not_mem_rereadLabel {p : Str} (h : '.' ∉ p) : '.' ∉ rereadLabel p := by
  unfold rereadLabel Str.asciiLower
  rw [List.mem_map]
  rintro ⟨c, hc, he⟩
  rcases lossy_take_subset p 63 c hc with hm | hm
  · rw [Str.eq_of_toLower (by decide) he] at hm
    exact h hm
  · rw [hm] at he
    exact absurd he (by decide)

/-! ## A whole name -/

/-- The pieces `write_name` writes as labels. -/
def namePieces (name : Str) : List Str :=
  if name = [] ∨ name = ['.'] then [] else (Str.trimEndMatches '.' name).splitOn '.'

/-- The pieces before the first empty one, whose length byte ends the name. -/
def livePieces (name : Str) : List Str := (namePieces name).takeWhile (· ≠ [])

/-- A name after it was written and read back. -/
def reread (name : Str) : Str := Str.join '.' ((livePieces name).map rereadLabel)

/-- A name that survives: the root, or non-empty pieces that fit. -/
def Writable (name : Str) : Prop :=
  name = [] ∨ ∀ p ∈ name.splitOn '.', p ≠ [] ∧ LabelFits p

instance : DecidablePred Writable := fun name =>
  inferInstanceAs (Decidable (name = [] ∨ ∀ p ∈ name.splitOn '.', p ≠ [] ∧ LabelFits p))

theorem writeName_eq (name : Str) : writeName name = (namePieces name).flatMap writeLabel ++ [0] := by
  unfold writeName namePieces
  split_ifs <;> rfl

theorem writeLabel_nil : writeLabel [] = [0] := by decide

/-- The written name up to its first zero length byte. -/
theorem writeName_live (name : Str) :
    ∃ more, writeName name = (livePieces name).flatMap writeLabel ++ 0 :: more ∧
      (livePieces name = namePieces name → more = []) := by
  rw [writeName_eq]
  unfold livePieces
  generalize namePieces name = ps
  induction ps with
  | nil => exact ⟨[], rfl, fun _ => rfl⟩
  | cons p ps ih =>
    by_cases hp : p = []
    · refine ⟨ps.flatMap writeLabel ++ [0], ?_, fun h => ?_⟩
      · simp [hp, writeLabel_nil]
      · simp [hp] at h
    · obtain ⟨more, he, hm⟩ := ih
      have htw : (p :: ps).takeWhile (· ≠ []) = p :: ps.takeWhile (· ≠ []) := by
        simp [hp]
      refine ⟨more, ?_, ?_⟩
      · rw [htw, List.flatMap_cons, List.flatMap_cons, List.append_assoc, he, List.append_assoc]
      · intro h
        rw [htw, List.cons.injEq] at h
        exact hm h.2

theorem map_eq_self_iff {α : Type} {f : α → α} {l : List α} :
    l.map f = l ↔ ∀ x ∈ l, f x = x := by
  induction l with
  | nil => simp
  | cons x xs ih => simp [ih]

theorem lower_iff {s : Str} : Lower s ↔ ∀ c ∈ s, c.toLower = c := by
  unfold Lower Str.asciiLower
  exact map_eq_self_iff

theorem lower_of_mem_splitOn {name p : Str} (h : Lower name) (hp : p ∈ name.splitOn '.') :
    Lower p :=
  lower_iff.mpr fun c hc => lower_iff.mp h c (Str.mem_of_mem_splitOn hp hc)

/-- A name whose pieces are all non-empty is written whole. -/
theorem namePieces_of_ne_nil (hne : name ≠ []) (h : ∀ p ∈ name.splitOn '.', p ≠ []) :
    namePieces name = name.splitOn '.' := by
  have hdot : name ≠ ['.'] := by
    rintro rfl
    exact h [] (by decide) rfl
  unfold namePieces
  rw [if_neg (by simp [hne, hdot]), Str.trimEndMatches_eq_self h]

theorem livePieces_of_ne_nil (hne : name ≠ []) (h : ∀ p ∈ name.splitOn '.', p ≠ []) :
    livePieces name = name.splitOn '.' := by
  unfold livePieces
  rw [namePieces_of_ne_nil hne h, List.takeWhile_eq_self_iff]
  intro p hp
  simpa using h p hp

theorem map_rereadLabel_eq {ps : List Str} (hl : ∀ p ∈ ps, Lower p) :
    ps.map rereadLabel = ps ↔ ∀ p ∈ ps, LabelFits p := by
  rw [map_eq_self_iff]
  exact forall₂_congr fun p hp => rereadLabel_eq_iff (hl p hp)

theorem dot_not_mem_livePieces {name p : Str} (hp : p ∈ livePieces name) : '.' ∉ p := by
  have hm : p ∈ namePieces name := (List.takeWhile_prefix _).subset hp
  unfold namePieces at hm
  split_ifs at hm
  · simp at hm
  · exact Str.not_mem_splitOn hm

theorem length_livePieces_le (name : Str) : (livePieces name).length ≤ (namePieces name).length :=
  (List.takeWhile_prefix _).length_le

/-- When a name other than the root comes back as it was, nothing was trimmed and no piece
    is empty. -/
theorem livePieces_of_reread (hne : name ≠ []) (h : reread name = name) :
    name.splitOn '.' = (livePieces name).map rereadLabel ∧
      livePieces name = name.splitOn '.' := by
  have hlive : livePieces name ≠ [] := by
    intro he
    rw [reread, he] at h
    exact hne h.symm
  have hsplit : name.splitOn '.' = (livePieces name).map rereadLabel := by
    conv => lhs; rw [← h]
    refine Str.splitOn_join (by simpa using hlive) ?_
    intro p hp
    obtain ⟨q, hq, rfl⟩ := List.mem_map.mp hp
    exact dot_not_mem_rereadLabel (dot_not_mem_livePieces hq)
  refine ⟨hsplit, ?_⟩
  have hlen : (name.splitOn '.').length = (livePieces name).length := by
    rw [hsplit, List.length_map]
  have hpieces : namePieces name = (Str.trimEndMatches '.' name).splitOn '.' := by
    unfold namePieces
    rw [if_neg]
    rintro he
    exact hlive (by unfold livePieces namePieces; rw [if_pos he]; rfl)
  have hle := length_livePieces_le name
  have htrim : Str.trimEndMatches '.' name = name := by
    by_contra htrim
    have := Str.length_splitOn_trimEndMatches htrim
    rw [hpieces] at hle
    omega
  rw [hpieces, htrim] at hle
  have hpre : livePieces name <+: name.splitOn '.' := by
    unfold livePieces
    rw [hpieces, htrim]
    exact List.takeWhile_prefix _
  exact hpre.eq_of_length hlen.symm

theorem reread_eq_iff (hl : Lower name) : reread name = name ↔ Writable name := by
  have hlow : ∀ p ∈ name.splitOn '.', Lower p := fun p hp => lower_of_mem_splitOn hl hp
  constructor
  · intro h
    by_cases hne : name = []
    · exact Or.inl hne
    · obtain ⟨hmap, hlive⟩ := livePieces_of_reread hne h
      rw [hlive] at hmap
      have hfits := (map_rereadLabel_eq hlow).mp hmap.symm
      refine Or.inr fun p hp => ⟨?_, hfits p hp⟩
      rw [← hlive] at hp
      simpa using List.mem_takeWhile_imp hp
  · rintro (rfl | h)
    · rfl
    · by_cases hne : name = []
      · rw [hne]
        rfl
      · have hlive := livePieces_of_ne_nil hne fun p hp => (h p hp).1
        rw [reread, hlive, (map_rereadLabel_eq hlow).mpr fun p hp => (h p hp).2]
        exact Str.join_splitOn '.' name

/-- The whole written name of a name that comes back is read. -/
theorem writeName_of_writable (h : Writable name) :
    writeName name = (livePieces name).flatMap writeLabel ++ [0] := by
  have hlive : livePieces name = namePieces name := by
    rcases h with rfl | h
    · rfl
    · by_cases hne : name = []
      · rw [hne]
        rfl
      · rw [livePieces_of_ne_nil hne fun p hp => (h p hp).1,
          namePieces_of_ne_nil hne fun p hp => (h p hp).1]
  rw [writeName_eq, hlive]

theorem readName_past_end {raw : Bytes} (h : raw.length ≤ off) :
    readName raw off = .error (.dns "name runs past end") := by
  have hloop : ∀ fuel, readNameLoop raw off (fuel + 1) off 0 false 0 [] =
      some (.error (.dns "name runs past end")) := by
    intro fuel
    unfold readNameLoop
    rw [List.getElem?_eq_none h]
  have heq := (readName_eq raw off).symm.trans (hloop (33 * raw.length + 32))
  exact Option.some.inj heq

/-! ## Reading a written name -/

theorem and_c0_of_lt {n : Nat} (h : n < 64) : n &&& 0xC0 = 0 := by
  have hall : ∀ k < 64, k &&& 0xC0 = 0 := by decide
  exact hall n h

theorem length_writeLabel (p : Str) : (writeLabel p).length = min (utf8 p).length 63 + 1 := by
  unfold writeLabel
  rw [List.length_cons, List.length_take, Nat.min_comm]

/-- The loop of `read_name` over written labels and the zero byte after them. -/
theorem readNameLoop_labels {raw : Bytes} {offset : Nat} (ps : List Str) (hne : ∀ p ∈ ps, p ≠ [])
    {fuel pos consumed jumps : Nat} {followed : Bool} {labels : List Str} {rest : Bytes}
    (hf : ps.length < fuel) (h : raw.drop pos = ps.flatMap writeLabel ++ 0 :: rest) :
    readNameLoop raw offset fuel pos consumed followed jumps labels =
      some (.ok (Str.join '.' (labels ++ ps.map rereadLabel),
        if followed then consumed else consumed + (ps.flatMap writeLabel).length + 1)) := by
  induction ps generalizing fuel pos consumed labels with
  | nil =>
    obtain ⟨fuel, rfl⟩ : ∃ k, fuel = k + 1 := ⟨fuel - 1, by simp at hf; omega⟩
    unfold readNameLoop
    rw [getElem?_of_drop h]
    simp
  | cons p ps ih =>
    obtain ⟨fuel, rfl⟩ : ∃ k, fuel = k + 1 := ⟨fuel - 1, by simp at hf; omega⟩
    have hpos : 0 < (utf8 p).length := utf8_length_pos (hne p List.mem_cons_self)
    have hlen : (UInt8.ofNat (min (utf8 p).length 63)).toNat = min (utf8 p).length 63 := by
      rw [UInt8.toNat_ofNat']
      omega
    have hdrop : raw.drop pos = writeLabel p ++ (ps.flatMap writeLabel ++ 0 :: rest) := by
      rw [h, List.flatMap_cons, List.append_assoc]
    have hnext := drop_drop_append hdrop
    have hroom := length_le_of_drop hdrop (by simp [writeLabel])
    rw [length_writeLabel] at hnext hroom
    -- the bytes of the label
    have hbytes : (raw.drop (pos + 1)).take (min (utf8 p).length 63) = (utf8 p).take 63 := by
      rw [← List.drop_drop, hdrop, writeLabel, List.cons_append, List.drop_one, List.tail_cons]
      exact List.take_left' (by rw [List.length_take, Nat.min_comm])
    unfold readNameLoop
    rw [getElem?_of_drop (by rw [hdrop]; rfl)]
    dsimp only
    rw [hlen, if_pos (and_c0_of_lt (by omega)), if_neg (by omega), if_neg (by omega), hbytes,
      show pos + 1 + min (utf8 p).length 63 = pos + (min (utf8 p).length 63 + 1) by omega,
      ih (fun q hq => hne q (List.mem_cons_of_mem _ hq)) (by simp at hf; omega) hnext]
    simp only [List.map_cons, List.flatMap_cons, List.length_append, length_writeLabel,
      List.append_assoc, List.singleton_append]
    cases followed
    · simp [rereadLabel]
      omega
    · simp [rereadLabel]

theorem length_flatMap_writeLabel (ps : List Str) : ps.length ≤ (ps.flatMap writeLabel).length := by
  induction ps with
  | nil => simp
  | cons p ps ih =>
    rw [List.flatMap_cons, List.length_append, length_writeLabel, List.length_cons]
    omega

theorem livePieces_ne_nil {name p : Str} (hp : p ∈ livePieces name) : p ≠ [] := by
  simpa using List.mem_takeWhile_imp hp

theorem length_livePieces_le_raw {pos : Nat} {ps : List Str}
    (h : raw.drop pos = ps.flatMap writeLabel ++ 0 :: rest) : ps.length < raw.length := by
  have hl := congrArg List.length h
  have hps := length_flatMap_writeLabel ps
  rw [List.length_drop, List.length_append, List.length_cons] at hl
  omega

/-- A written name is read as `reread` of it, up to its first zero length byte. -/
theorem readName_written (h : raw.drop off = writeName name ++ rest) :
    readName raw off =
      .ok (reread name, ((livePieces name).flatMap writeLabel).length + 1) := by
  obtain ⟨more, hw, -⟩ := writeName_live name
  rw [hw, List.append_assoc] at h
  have hshort := length_livePieces_le_raw h
  have heq := (readName_eq raw off).symm.trans
    (readNameLoop_labels (livePieces name) (fun p hp => livePieces_ne_nil hp) (by omega) h)
  simpa [reread] using heq

/-- A pointer to a written name is read as that name, and takes two bytes. -/
theorem readName_pointer {raw rest rest12 : Bytes} (hoff : 12 < off)
    (h : raw.drop off = 0xC0 :: 0x0C :: rest) (h12 : raw.drop 12 = writeName name ++ rest12) :
    readName raw off = .ok (reread name, 2) := by
  obtain ⟨more, hw, -⟩ := writeName_live name
  rw [hw, List.append_assoc] at h12
  have hshort := length_livePieces_le_raw h12
  have hnext : raw.drop (off + 1) = 0x0C :: rest := by
    rw [← List.drop_drop, h]
    rfl
  have hptr : ((0xC0 : UInt8).toNat &&& 0x3F) <<< 8 ||| (0x0C : UInt8).toNat = 12 := by decide
  have hloop : readNameLoop raw off (33 * (raw.length + 1)) off 0 false 0 [] =
      some (.ok (Str.join '.' ([] ++ (livePieces name).map rereadLabel), 2)) := by
    rw [show 33 * (raw.length + 1) = 33 * raw.length + 32 + 1 by omega]
    unfold readNameLoop
    rw [getElem?_of_drop h]
    dsimp only
    rw [if_neg (by decide), if_pos (by decide), getElem?_of_drop hnext]
    dsimp only
    rw [hptr, if_neg (by omega), if_neg (by omega),
      readNameLoop_labels (livePieces name) (fun p hp => livePieces_ne_nil hp) (by omega) h12]
    simp
  have heq := (readName_eq raw off).symm.trans hloop
  simpa [reread] using heq

end RustCrash.Dns
