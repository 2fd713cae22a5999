import RustCrash.Dns.WireResponse

/-
  Names of ASCII labels through `write_name` and `read_name`. Wherever such a name stands in
  a message, `read_name` gives it back in lower case and takes exactly the bytes that
  `write_name` wrote (`name_codec`). A pointer to it gives the same name and takes two
  bytes, whatever stands between them.
-/

namespace RustCrash.Dns

open Lib

/-- A label of 1 to 63 ASCII bytes without a dot. -/
structure AsciiLabel (p : Str) : Prop where
  ne_nil : p ≠ []
  length_le : p.length ≤ 63
  ascii : ∀ c ∈ p, c.toNat < 128
  dot_not_mem : '.' ∉ p

/-- A label that fits the wire: 1 to 63 bytes of UTF-8 without a dot. -/
structure LegalLabel (p : Str) : Prop where
  ne_nil : p ≠ []
  length_le : (utf8 p).length ≤ 63
  dot_not_mem : '.' ∉ p

/-- The dotted name of labels, with or without a dot at the end. -/
def dotted (labels : List Str) (trailing : Bool) : Str :=
  Str.join '.' labels ++ if trailing then ['.'] else []

/-- The two bytes of a pointer to an offset. -/
def pointerTo (off : Nat) : Bytes := [UInt8.ofNat (0xC0 + off / 256), UInt8.ofNat (off % 256)]

/-! ## Labels -/

theorem length_utf8_ascii {p : Str} (h : ∀ c ∈ p, c.toNat < 128) : (utf8 p).length = p.length := by
  induction p with
  | nil => rfl
  | cons c p ih =>
    have hc : c.toNat < 128 := h c List.mem_cons_self
    have hone : (String.utf8EncodeChar c).length = 1 := by
      rw [String.length_utf8EncodeChar, Char.utf8Size_eq_one_iff]
      exact (UInt32.le_iff_toNat_le).mpr (by
        have hval : c.val.toNat = c.toNat := rfl
        have h7f : (0x7f : UInt32).toNat = 127 := rfl
        omega)
    rw [utf8_cons, List.length_append, hone, ih fun x hx => h x (List.mem_cons_of_mem _ hx),
      List.length_cons]
    omega

theorem AsciiLabel.legal {p : Str} (h : AsciiLabel p) : LegalLabel p :=
  ⟨h.ne_nil, by rw [length_utf8_ascii h.ascii]; exact h.length_le, h.dot_not_mem⟩

theorem rereadLabel_legal {p : Str} (h : LegalLabel p) : rereadLabel p = Str.asciiLower p := by
  unfold rereadLabel
  rw [List.take_of_length_le h.length_le, fromUtf8Lossy_utf8]

theorem asciiLower_join (ps : List Str) :
    Str.join '.' (ps.map Str.asciiLower) = Str.asciiLower (Str.join '.' ps) := by
  induction ps with
  | nil => rfl
  | cons p ps ih =>
    cases ps with
    | nil => simp only [List.map_cons, List.map_nil, Str.join_singleton]
    | cons q qs =>
      have hdot : Char.toLower '.' = '.' := by decide
      rw [List.map_cons] at ih
      rw [List.map_cons, List.map_cons, Str.join_cons_cons, Str.join_cons_cons, ih]
      simp only [Str.asciiLower, List.map_append, List.map_cons, hdot]

/-! ## The pieces of a dotted name -/

theorem trimEndMatches_trailing (c : Char) (s : Str) :
    Str.trimEndMatches c (s ++ [c]) = Str.trimEndMatches c s := by
  unfold Str.trimEndMatches
  rw [List.rdropWhile_concat_pos]
  simp

theorem namePieces_dotted {labels : List Str} (h : ∀ p ∈ labels, LegalLabel p) (trailing : Bool) :
    namePieces (dotted labels trailing) = labels := by
  by_cases hnil : labels = []
  · subst hnil
    cases trailing <;> rfl
  have hsplit : (Str.join '.' labels).splitOn '.' = labels :=
    Str.splitOn_join hnil fun p hp => (h p hp).dot_not_mem
  have hne : ∀ p ∈ (Str.join '.' labels).splitOn '.', p ≠ [] := by
    rw [hsplit]
    exact fun p hp => (h p hp).ne_nil
  have htrim : Str.trimEndMatches '.' (dotted labels trailing) = Str.join '.' labels := by
    unfold dotted
    cases trailing with
    | false =>
      rw [if_neg Bool.false_ne_true, List.append_nil]
      exact Str.trimEndMatches_eq_self hne
    | true =>
      rw [if_pos rfl, trimEndMatches_trailing]
      exact Str.trimEndMatches_eq_self hne
  -- neither the empty name nor the root
  have hroot : ¬ (dotted labels trailing = [] ∨ dotted labels trailing = ['.']) := by
    intro hroot
    have hempty : Str.join '.' labels = [] := by
      rw [← htrim]
      rcases hroot with hroot | hroot
      · rw [hroot]
        rfl
      · rw [hroot]
        decide
    rw [hempty] at hne
    exact hne [] (by decide) rfl
  unfold namePieces
  rw [if_neg hroot, htrim, hsplit]

theorem livePieces_dotted {labels : List Str} (h : ∀ p ∈ labels, LegalLabel p) (trailing : Bool) :
    livePieces (dotted labels trailing) = labels := by
  unfold livePieces
  rw [namePieces_dotted h, List.takeWhile_eq_self_iff]
  intro p hp
  simpa using (h p hp).ne_nil

theorem reread_dotted {labels : List Str} (h : ∀ p ∈ labels, LegalLabel p) (trailing : Bool) :
    reread (dotted labels trailing) = Str.asciiLower (Str.join '.' labels) := by
  unfold reread
  rw [livePieces_dotted h, ← asciiLower_join,
    List.map_congr_left fun p hp => rereadLabel_legal (h p hp)]

theorem length_writeName_dotted {labels : List Str} (h : ∀ p ∈ labels, LegalLabel p)
    (trailing : Bool) : ((livePieces (dotted labels trailing)).flatMap writeLabel).length + 1 =
      (writeName (dotted labels trailing)).length := by
  rw [writeName_eq, namePieces_dotted h, livePieces_dotted h, List.length_append]
  rfl

/-! ## Pointers -/

/-- A pointer to a written name that stands before it is read as that name. -/
theorem readName_pointerTo {raw rest rest' : Bytes} {off target : Nat} {name : Str}
    (htarget : target < 2 ^ 14) (hoff : target < off) (h : raw.drop off = pointerTo target ++ rest)
    (hname : raw.drop target = writeName name ++ rest') :
    readName raw off = .ok (reread name, 2) := by
  obtain ⟨more, hw, -⟩ := writeName_live name
  rw [hw, List.append_assoc] at hname
  have hshort := length_livePieces_le_raw hname
  have hhi : (UInt8.ofNat (0xC0 + target / 256)).toNat = 0xC0 + target / 256 := by
    rw [UInt8.toNat_ofNat']
    omega
  have hlo : (UInt8.ofNat (target % 256)).toNat = target % 256 := by
    rw [UInt8.toNat_ofNat']
    omega
  have hbits : ∀ k < 64, (0xC0 + k) &&& 0xC0 = 0xC0 ∧ (0xC0 + k) &&& 0x3F = k := by decide
  obtain ⟨htag, hlow⟩ := hbits (target / 256) (by omega)
  have hptr : (target / 256) <<< 8 ||| target % 256 = target := by
    rw [← Nat.shiftLeft_add_eq_or_of_lt (by omega : target % 256 < 2 ^ 8), Nat.shiftLeft_eq]
    omega
  have hfirst : raw[off]? = some (UInt8.ofNat (0xC0 + target / 256)) := getElem?_of_drop h
  have hnext : raw.drop (off + 1) = UInt8.ofNat (target % 256) :: rest := by
    rw [← List.drop_drop, h]
    rfl
  have hsecond : raw[off + 1]? = some (UInt8.ofNat (target % 256)) := getElem?_of_drop hnext
  have hloop : readNameLoop raw off (33 * (raw.length + 1)) off 0 false 0 [] =
      some (.ok (Str.join '.' ([] ++ (livePieces name).map rereadLabel), 2)) := by
    rw [show 33 * (raw.length + 1) = 33 * raw.length + 32 + 1 by omega]
    unfold readNameLoop
    rw [hfirst]
    dsimp only
    rw [hhi, htag, if_neg (by decide), if_pos rfl, hsecond]
    dsimp only
    rw [hlow, hlo, hptr, if_neg (by omega), if_neg (by omega),
      readNameLoop_labels (livePieces name) (fun p hp => livePieces_ne_nil hp) (by omega) hname]
    simp
  have heq := (readName_eq raw off).symm.trans hloop
  simpa [reread] using heq

/-! ## The result -/

/-- A name of ASCII labels is read back in lower case from where it was written, and from a
    pointer to it. -/
theorem name_codec (labels : List Str) (h : ∀ p ∈ labels, AsciiLabel p) (trailing : Bool)
    (before after : Bytes) :
    readName (before ++ writeName (dotted labels trailing) ++ after) before.length =
        .ok (Str.asciiLower (Str.join '.' labels), (writeName (dotted labels trailing)).length) ∧
      (before.length < 2 ^ 14 → ∀ between,
        readName (before ++ writeName (dotted labels trailing) ++ between ++
            pointerTo before.length ++ after)
          (before ++ writeName (dotted labels trailing) ++ between).length =
          .ok (Str.asciiLower (Str.join '.' labels), 2)) := by
  have hlegal : ∀ p ∈ labels, LegalLabel p := fun p hp => (h p hp).legal
  constructor
  · have hdrop : (before ++ writeName (dotted labels trailing) ++ after).drop before.length =
        writeName (dotted labels trailing) ++ after := by
      rw [List.append_assoc, List.drop_left]
    rw [readName_written hdrop, reread_dotted hlegal, length_writeName_dotted hlegal]
  · intro hlow between
    have hname : (before ++ writeName (dotted labels trailing) ++ between ++
        pointerTo before.length ++ after).drop before.length =
          writeName (dotted labels trailing) ++ (between ++ pointerTo before.length ++ after) := by
      simp only [List.append_assoc, List.drop_left]
    have hpointer : (before ++ writeName (dotted labels trailing) ++ between ++
        pointerTo before.length ++ after).drop
          (before ++ writeName (dotted labels trailing) ++ between).length =
          pointerTo before.length ++ after := by
      rw [List.append_assoc (before ++ writeName (dotted labels trailing) ++ between),
        List.drop_left]
    have hpos := List.length_pos_iff.mpr (writeName_ne_nil (dotted labels trailing))
    rw [readName_pointerTo hlow (by simp only [List.length_append]; omega) hpointer hname,
      reread_dotted hlegal]

theorem asciiLabel_example : ∀ p ∈ ["Ab".toList, "c".toList], AsciiLabel p := by
  intro p hp
  simp only [List.mem_cons, List.not_mem_nil, or_false] at hp
  rcases hp with rfl | rfl
  · exact ⟨by decide, by decide, by simp, by decide⟩
  · exact ⟨by decide, by decide, by simp, by decide⟩

theorem name_codec_example :
    readName ([7] ++ writeName "Ab.c.".toList ++ [9]) 1 = .ok ("ab.c".toList, 6) ∧
      readName ([7] ++ writeName "Ab.c.".toList ++ [5] ++ pointerTo 1 ++ [9]) 8 =
        .ok ("ab.c".toList, 2) :=
  ⟨(name_codec ["Ab".toList, "c".toList] asciiLabel_example true [7] [9]).1,
    (name_codec ["Ab".toList, "c".toList] asciiLabel_example true [7] [9]).2 (by decide) [5]⟩

end RustCrash.Dns
