import RustCrash.Hysteria2.EncoderStream

/-
  What the client writes of QPACK (`proto/hysteria2.rs`): numbers behind a prefix, and the lines of
  a field section, each with its name and its value as they are.

  A number goes into as many groups of seven bits as it needs; the reader takes nine of them. So
  all numbers below 2^63 are read back, and those that reach 2^63 above the prefix are not.
-/

namespace RustCrash.Hysteria2

open Lib

/-! ## Numbers -/

/-- `while rest >= 0x80`. Nine shifts by seven leave one bit of a `u64`. -/
def putGroups : Nat → UInt64 → Bytes
  | 0, rest => [rest.toUInt8]
  | n + 1, rest =>
    if 0x80 ≤ rest then (rest.toUInt8 ||| 0x80) :: putGroups n (rest >>> 7) else [rest.toUInt8]

def putPrefixedInt (flags : UInt8) (prefixBits v : UInt64) : Bytes :=
  let max : UInt64 := (1 <<< prefixBits) - 1
  if v < max then [flags ||| v.toUInt8]
  else (flags ||| max.toUInt8) :: putGroups 9 (v - max)

/-- The low seven bits with the top bit set, and the other bits. -/
theorem group_of (rest : UInt64) :
    ∃ b : UInt8, b < 0x80 ∧ rest.toUInt8 ||| 0x80 = b ||| 0x80 ∧
      rest.toNat = b.toNat + 128 * (rest >>> 7).toNat := by
  have hlow : ∀ b : UInt8, b ||| 0x80 = UInt8.ofNat (b.toNat % 128) ||| 0x80 := by
    rintro ⟨⟨b⟩⟩
    revert b
    decide +kernel
  have hmod : rest.toUInt8.toNat % 128 = rest.toNat % 128 := by
    rw [UInt64.toNat_toUInt8]
    omega
  have hb : (UInt8.ofNat (rest.toNat % 128)).toNat = rest.toNat % 128 :=
    UInt8.toNat_ofNat_of_lt' (by show rest.toNat % 128 < 2 ^ 8; omega)
  refine ⟨UInt8.ofNat (rest.toNat % 128), ?_, ?_, ?_⟩
  · rw [UInt8.lt_iff_toNat_lt, hb]
    exact Nat.mod_lt _ (by decide)
  · rw [hlow, hmod]
  · have hshift : (rest >>> 7).toNat = rest.toNat / 128 := by
      rw [UInt64.toNat_shiftRight, Nat.shiftRight_eq_div_pow]
      rfl
    rw [hb, hshift]
    omega

theorem putGroups_last {rest : UInt64} (h : rest < 0x80) : Groups rest.toNat [rest.toUInt8] := by
  have hlt : rest.toNat < 128 := UInt64.lt_iff_toNat_lt.mp h
  have hb : rest.toUInt8.toNat = rest.toNat := by
    rw [UInt64.toNat_toUInt8]
    omega
  rw [← hb]
  refine .last ?_
  rw [UInt8.lt_iff_toNat_lt, hb]
  exact hlt

/-- The bytes are the groups of the number, no more of them than it needs. -/
theorem putGroups_groups {n : Nat} {rest : UInt64} (h : rest.toNat < 128 ^ (n + 1)) :
    Groups rest.toNat (putGroups n rest) ∧
      ∀ k, rest.toNat < 128 ^ (k + 1) → (putGroups n rest).length ≤ k + 1 := by
  induction n generalizing rest with
  | zero =>
    have hlt : rest < 0x80 := UInt64.lt_iff_toNat_lt.mpr h
    exact ⟨putGroups_last hlt, fun k _ => Nat.le_add_left 1 k⟩
  | succ n ih =>
    unfold putGroups
    by_cases hlast : rest < 0x80
    · rw [if_neg (UInt64.not_le.mpr hlast)]
      exact ⟨putGroups_last hlast, fun k _ => Nat.le_add_left 1 k⟩
    · obtain ⟨b, hb, hbyte, hsum⟩ := group_of rest
      have hpow : ∀ k, rest.toNat < 128 ^ (k + 2) → (rest >>> 7).toNat < 128 ^ (k + 1) := by
        intro k hk
        rw [Nat.pow_succ] at hk
        omega
      obtain ⟨hgroups, hlen⟩ := ih (hpow n h)
      rw [if_pos (UInt64.not_lt.mp hlast), hbyte]
      refine ⟨hsum ▸ .more hb hgroups, fun k hk => ?_⟩
      cases k with
      | zero => exact absurd (UInt64.lt_iff_toNat_lt.mpr hk) hlast
      | succ k => exact Nat.succ_le_succ (hlen k (hpow k hk))

/-- A number of more than 63 bits has nine groups with another one behind them. -/
theorem putGroups_long {n : Nat} {rest : UInt64} (h : 128 ^ n ≤ rest.toNat) :
    ∃ front last, front.length = n ∧ (∀ b ∈ front, b &&& 0x80 ≠ 0) ∧
      putGroups n rest = front ++ [last] := by
  induction n generalizing rest with
  | zero => exact ⟨[], rest.toUInt8, rfl, by simp, rfl⟩
  | succ n ih =>
    have hmore : ¬ rest < 0x80 := by
      rw [UInt64.lt_iff_toNat_lt, Nat.not_lt]
      exact (Nat.pow_le_pow_right (by decide) (Nat.le_add_left 1 n)).trans h
    obtain ⟨b, hb, hbyte, hsum⟩ := group_of rest
    have hlt : b.toNat < 128 := UInt8.lt_iff_toNat_lt.mp hb
    have hrest : 128 ^ n ≤ (rest >>> 7).toNat := by
      rw [Nat.pow_succ] at h
      omega
    obtain ⟨front, last, hlen, hfront, hput⟩ := ih hrest
    refine ⟨(b ||| 0x80) :: front, last, by rw [List.length_cons, hlen], ?_, ?_⟩
    · intro c hc
      rcases List.mem_cons.mp hc with rfl | hc
      · exact (group_byte b hb).2.2
      · exact hfront c hc
    · rw [putGroups, if_pos (UInt64.not_lt.mp hmore), hbyte, hput, List.cons_append]

/-- The reader stops at the tenth group. -/
theorem readGroups_long {bs rest : Bytes} {s : Nat} {v : UInt64} {off : Nat}
    (hbs : ∀ b ∈ bs, b &&& 0x80 ≠ 0) (hs : s ≤ 63) (hlen : s + 7 * bs.length = 63) :
    readGroups (bs ++ rest) v (UInt64.ofNat s) off = none := by
  induction bs generalizing s v off with
  | nil =>
    have hbeyond : (56 : UInt64) < UInt64.ofNat s := by
      rw [UInt64.lt_iff_toNat_lt, UInt64.toNat_ofNat_of_lt' (by show s < 2 ^ 64; omega)]
      show 56 < s
      simp only [List.length_nil] at hlen
      omega
    cases rest with
    | nil => rfl
    | cons b rest => exact if_pos hbeyond
  | cons b bs ih =>
    rw [List.length_cons] at hlen
    have hshift : UInt64.ofNat s + 7 = UInt64.ofNat (s + 7) := (UInt64.ofNat_add s 7).symm
    rw [List.cons_append, readGroups, if_neg (not_beyond (by omega : s ≤ 56)), hshift]
    refine Option.bind_eq_none_iff.mpr fun w _ => ?_
    rw [if_neg (hbs b List.mem_cons_self)]
    exact ih (fun c hc => hbs c (List.mem_cons_of_mem b hc)) (by omega) (by omega)

/-- The mask of a prefix, as a byte. -/
theorem toUInt8_prefixMax {k : Nat} (hk : k ≤ 8) :
    ((1 : UInt64) <<< UInt64.ofNat k - 1).toUInt8 = UInt8.ofNat (2 ^ k - 1) := by
  interval_cases k <;> rfl

theorem toUInt8_eq_ofNat (v : UInt64) : v.toUInt8 = UInt8.ofNat v.toNat := by
  apply UInt8.toNat_inj.mp
  rw [UInt64.toNat_toUInt8, UInt8.toNat_ofNat']

theorem sub_prefixMax {k : Nat} (hk : k ≤ 8) {v : UInt64}
    (h : ¬ v < (1 : UInt64) <<< UInt64.ofNat k - 1) :
    (v - ((1 : UInt64) <<< UInt64.ofNat k - 1)).toNat + (2 ^ k - 1) = v.toNat := by
  have hle := UInt64.le_iff_toNat_le.mp (UInt64.not_lt.mp h)
  rw [UInt64.toNat_sub_of_le _ _ (UInt64.not_lt.mp h), toNat_prefixMax hk] at *
  omega

theorem putPrefixedInt_head {k : Nat} (hk : k ≤ 8) (flags : UInt8) (v : UInt64) :
    ∃ x < 2 ^ k, ∃ tail, putPrefixedInt flags (UInt64.ofNat k) v =
      (flags ||| UInt8.ofNat x) :: tail := by
  have hpos : 0 < (2 : Nat) ^ k := Nat.two_pow_pos k
  unfold putPrefixedInt
  dsimp only
  split_ifs with hshort
  · rw [UInt64.lt_iff_toNat_lt, toNat_prefixMax hk] at hshort
    exact ⟨v.toNat, by omega, [], by rw [toUInt8_eq_ofNat]⟩
  · exact ⟨2 ^ k - 1, by omega, _, by rw [toUInt8_prefixMax hk]⟩

/-- What is written is one of the encodings. -/
theorem prefixedInt_put {k : Nat} (hk : k ≤ 8) (flags : UInt8) {v : UInt64}
    (h : v.toNat < 2 ^ k - 1 + 2 ^ 63) :
    PrefixedInt k flags v.toNat (putPrefixedInt flags (UInt64.ofNat k) v) := by
  unfold putPrefixedInt
  dsimp only
  by_cases hshort : v < (1 : UInt64) <<< UInt64.ofNat k - 1
  · rw [if_pos hshort, toUInt8_eq_ofNat]
    rw [UInt64.lt_iff_toNat_lt, toNat_prefixMax hk] at hshort
    exact .short hshort
  · have hsum := sub_prefixMax hk hshort
    rw [if_neg hshort, toUInt8_prefixMax hk, ← hsum, Nat.add_comm]
    have hlt : (v - ((1 : UInt64) <<< UInt64.ofNat k - 1)).toNat < 128 ^ (8 + 1) := by omega
    obtain ⟨hgroups, hlen⟩ := putGroups_groups (n := 9) (hlt.trans (by decide))
    exact .long hgroups (hlen 8 hlt)

/-- A number is read back, wherever it stands and whatever follows it, unless it is 2^63 or more
    above its prefix: then it is refused. -/
theorem readPrefixedInt_put {k : Nat} (hk : k ≤ 8) {flags : UInt8}
    (hflags : flags.toNat % 2 ^ k = 0) (v : UInt64) (pre rest : Bytes) :
    readPrefixedInt (pre ++ putPrefixedInt flags (UInt64.ofNat k) v ++ rest) pre.length
        (UInt64.ofNat k) =
      if v.toNat < 2 ^ k - 1 + 2 ^ 63 then
        some (v, pre.length + (putPrefixedInt flags (UInt64.ofNat k) v).length)
      else none := by
  have hdrop : (pre ++ putPrefixedInt flags (UInt64.ofNat k) v ++ rest).drop pre.length =
      putPrefixedInt flags (UInt64.ofNat k) v ++ rest := by
    rw [List.append_assoc, List.drop_left]
  have hahead := readPrefixedInt_ahead pre.length
    (pre ++ putPrefixedInt flags (UInt64.ofNat k) v ++ rest) 0 (UInt64.ofNat k)
  rw [Nat.add_zero, hdrop] at hahead
  rw [hahead]
  by_cases h : v.toNat < 2 ^ k - 1 + 2 ^ 63
  · rw [if_pos h, readPrefixedInt_encoded hk hflags (prefixedInt_put hk flags h), Option.map_some,
      UInt64.ofNat_toNat]
    rfl
  · have hbound : (2 : Nat) ^ k ≤ 2 ^ 8 := Nat.pow_le_pow_right (by decide) hk
    have hlong : ¬ v < (1 : UInt64) <<< UInt64.ofNat k - 1 := by
      rw [UInt64.lt_iff_toNat_lt, toNat_prefixMax hk]
      omega
    have hsum := sub_prefixMax hk hlong
    have hmax : UInt64.ofNat (2 ^ k - 1) = (1 : UInt64) <<< UInt64.ofNat k - 1 := by
      apply UInt64.toNat_inj.mp
      rw [toNat_prefixMax hk, UInt64.toNat_ofNat_of_lt' (by show 2 ^ k - 1 < 2 ^ 64; omega)]
    obtain ⟨front, last, hlen, hfront, hput⟩ := putGroups_long (n := 9)
      (by omega : 128 ^ 9 ≤ (v - ((1 : UInt64) <<< UInt64.ofNat k - 1)).toNat)
    have hnone := @readGroups_long front ([last] ++ rest) 0
      ((1 : UInt64) <<< UInt64.ofNat k - 1) 1 hfront (by decide) (by omega)
    rw [if_neg h, Option.map_eq_none_iff]
    unfold putPrefixedInt readPrefixedInt
    dsimp only
    rw [if_neg hlong, toUInt8_prefixMax hk, hput, List.cons_append, List.getElem?_cons_zero,
      Option.bind_some, prefix_value hk hflags (Nat.sub_lt (Nat.two_pow_pos k) Nat.one_pos), hmax,
      if_neg (UInt64.lt_irrefl _), List.append_assoc]
    exact hnone

/-! ## Lines -/

/-- A line with its name and its value as they are. -/
def putQpackLiteral (name value : Bytes) : Bytes :=
  putPrefixedInt 0x20 3 (UInt64.ofNat name.length) ++ name ++
    (putPrefixedInt 0x00 7 (UInt64.ofNat value.length) ++ value)

theorem le_length_putQpackLiteral (name value : Bytes) :
    name.length + value.length ≤ (putQpackLiteral name value).length := by
  simp only [putQpackLiteral, List.length_append]
  omega

/-- A field section with required insert count 0 and base 0. -/
def literalSection (fields : List Entry) : Bytes :=
  [0x00, 0x00] ++ fields.flatMap fun e => putQpackLiteral (utf8 e.1) (utf8 e.2)

theorem stringLiteral_put {k : Nat} {flags mask : UInt8} (hf : LiteralFlags k flags mask)
    {s : Bytes} (hlen : s.length ≤ isizeMax) :
    StringLiteral k flags mask s
      (putPrefixedInt flags (UInt64.ofNat k) (UInt64.ofNat s.length) ++ s) := by
  have hsize : s.length < 2 ^ 63 := by
    unfold isizeMax at hlen
    omega
  have hn : (UInt64.ofNat s.length).toNat = s.length :=
    UInt64.toNat_ofNat_of_lt' (by show s.length < 2 ^ 64; omega)
  have hput := @prefixedInt_put k hf.le flags (UInt64.ofNat s.length) (by rw [hn]; omega)
  rw [hn] at hput
  exact .plain hput

theorem readStringLiteral_at {k : Nat} {flags mask : UInt8} {s bs : Bytes}
    (hf : LiteralFlags k flags mask) (h : StringLiteral k flags mask s bs) (pre rest : Bytes) :
    readStringLiteral (pre ++ (bs ++ rest)) pre.length (UInt64.ofNat k) mask =
      some (s, (pre ++ bs).length) := by
  have hahead := readStringLiteral_ahead pre.length (pre ++ (bs ++ rest)) 0 (UInt64.ofNat k) mask
  rw [Nat.add_zero, List.drop_left, readStringLiteral_encoded hf h rest] at hahead
  rw [hahead, List.length_append]
  rfl

theorem literalNameFlags : LiteralFlags 3 0x20 0x08 :=
  ⟨by decide, by decide, by decide, by decide, by decide⟩

namespace QpackDecoder

variable {pre : String → UInt64 → QpackResult Entry} {post : UInt64 → QpackResult Entry}

/-- A line is read back from where it stands. -/
theorem fieldLine_literal {name value : Str} (hname : (utf8 name).length ≤ isizeMax)
    (hvalue : (utf8 value).length ≤ isizeMax) (front rest : Bytes) :
    fieldLine pre post (front ++ (putQpackLiteral (utf8 name) (utf8 value) ++ rest))
        front.length =
      .ok ((name, value), (front ++ putQpackLiteral (utf8 name) (utf8 value)).length) := by
  have hn := stringLiteral_put literalNameFlags hname
  have hv := stringLiteral_put valueFlags hvalue
  have hput : putQpackLiteral (utf8 name) (utf8 value) =
      putPrefixedInt 0x20 (UInt64.ofNat 3) (UInt64.ofNat (utf8 name).length) ++ utf8 name ++
        (putPrefixedInt 0x00 (UInt64.ofNat 7) (UInt64.ofNat (utf8 value).length) ++
          utf8 value) := rfl
  obtain ⟨x, hx, tail, hhead⟩ := @putPrefixedInt_head 3 (by decide) 0x20
    (UInt64.ofNat (utf8 name).length)
  have hfirst : (putPrefixedInt 0x20 (UInt64.ofNat 3) (UInt64.ofNat (utf8 name).length) ++
      utf8 name)[0]? = some (0x20 ||| UInt8.ofNat x) := by
    rw [hhead, List.cons_append, List.getElem?_cons_zero]
  rw [hput]
  generalize putPrefixedInt 0x20 (UInt64.ofNat 3) (UInt64.ofNat (utf8 name).length) ++
    utf8 name = n at hn hfirst
  generalize putPrefixedInt 0x00 (UInt64.ofNat 7) (UInt64.ofNat (utf8 value).length) ++
    utf8 value = v at hv
  have htag : ∀ x < 8, ((0x20 : UInt8) ||| UInt8.ofNat x) &&& 0x80 = 0 ∧
      ((0x20 : UInt8) ||| UInt8.ofNat x) &&& 0xc0 ≠ 0x40 ∧
      ((0x20 : UInt8) ||| UInt8.ofNat x) &&& 0xe0 = 0x20 := by decide
  have hb : (front ++ (n ++ v ++ rest)).getD front.length 0 = 0x20 ||| UInt8.ofNat x := by
    rw [List.getD_eq_getElem?_getD, List.getElem?_append_right (Nat.le_refl _), Nat.sub_self,
      List.append_assoc, getElem?_append_some (v ++ rest) hfirst, Option.getD_some]
  have hreadName := readStringLiteral_at literalNameFlags hn front (v ++ rest)
  have hreadValue := readStringLiteral_at valueFlags hv (front ++ n) rest
  rw [List.append_assoc front n] at hreadValue
  unfold fieldLine
  dsimp only
  rw [hb, if_neg (not_not.mpr (htag x hx).1), if_neg (htag x hx).2.1, if_pos (htag x hx).2.2,
    List.append_assoc n]
  rw [show (3 : UInt64) = UInt64.ofNat 3 from rfl, hreadName]
  show valueBehind _ _ _ = _
  unfold valueBehind
  rw [show (7 : UInt64) = UInt64.ofNat 7 from rfl, hreadValue, fromUtf8Lossy_utf8,
    List.append_assoc]
  show Except.ok ((name, fromUtf8Lossy (utf8 value)), _) = _
  rw [fromUtf8Lossy_utf8]

theorem fieldLines_literal (fields : List Entry) (front : Bytes) (before : List Entry)
    (hfits : ∀ e ∈ fields, (utf8 e.1).length ≤ isizeMax ∧ (utf8 e.2).length ≤ isizeMax) :
    fieldLines pre post
        (front ++ fields.flatMap fun e => putQpackLiteral (utf8 e.1) (utf8 e.2))
        front.length before = .ok (before ++ fields) := by
  induction fields generalizing front before with
  | nil => exact fieldLines_done (by simp) |>.trans (by rw [List.append_nil])
  | cons e fields ih =>
    obtain ⟨hname, hvalue⟩ := hfits e List.mem_cons_self
    have hline := @fieldLine_literal pre post e.1 e.2 hname hvalue front
      (fields.flatMap fun e => putQpackLiteral (utf8 e.1) (utf8 e.2))
    have hlt : front.length < (front ++ (putQpackLiteral (utf8 e.1) (utf8 e.2) ++
        fields.flatMap fun e => putQpackLiteral (utf8 e.1) (utf8 e.2))).length := by
      have hnext := fieldLine_advances hline
      rw [List.length_append] at hnext ⊢
      rw [List.length_append]
      omega
    have hrest := ih (front ++ putQpackLiteral (utf8 e.1) (utf8 e.2)) (before ++ [e])
      fun e' he' => hfits e' (List.mem_cons_of_mem e he')
    rw [List.append_assoc, List.append_assoc, List.singleton_append] at hrest
    rw [List.flatMap_cons, fieldLines_next hlt hline]
    exact hrest

/-- A fresh decoder reads a section of lines back. -/
theorem decodeFieldSection_lines (fields : List Entry)
    (hlen : (literalSection fields).length ≤ isizeMax) :
    fresh.decodeFieldSection (literalSection fields) = .ok (some ⟨fields, 0⟩) := by
  have hfits : ∀ e ∈ fields, (utf8 e.1).length ≤ isizeMax ∧ (utf8 e.2).length ≤ isizeMax := by
    intro e he
    have hmem : (putQpackLiteral (utf8 e.1) (utf8 e.2)).length ≤
        (fields.flatMap fun e => putQpackLiteral (utf8 e.1) (utf8 e.2)).length := by
      rw [List.flatMap_def]
      refine (List.sublist_flatten_of_mem ?_).length_le
      exact List.mem_map_of_mem (f := fun e : Entry => putQpackLiteral (utf8 e.1) (utf8 e.2)) he
    unfold literalSection at hlen
    rw [List.length_append] at hlen
    have hparts := le_length_putQpackLiteral (utf8 e.1) (utf8 e.2)
    omega
  have hbase : fresh.sectionPrefix (literalSection fields) = .ok (some ⟨0, false, 0, 2⟩) := rfl
  have hlines := @fieldLines_literal (fresh.preBase 0) (fresh.postBase 0) fields [0x00, 0x00] []
    hfits
  unfold decodeFieldSection
  rw [hbase]
  show (do
    let fields ← fieldLines (fresh.preBase 0) (fresh.postBase 0) (literalSection fields) 2 []
    return some ⟨fields, 0⟩ : QpackResult (Option DecodedSection)) = _
  rw [show (2 : Nat) = ([0x00, 0x00] : Bytes).length from rfl, literalSection, hlines]
  rfl

end QpackDecoder

/-- Lines are read back, and so are numbers, but for those that are 2^63 or more above their
    prefix. -/
theorem qpack_literals {k : Nat} (hk : 1 ≤ k ∧ k ≤ 8) {flags : UInt8}
    (hflags : flags.toNat % 2 ^ k = 0) (v : UInt64) (pre rest : Bytes) (fields : List Entry)
    (hlen : (literalSection fields).length ≤ isizeMax) :
    QpackDecoder.fresh.decodeFieldSection (literalSection fields) = .ok (some ⟨fields, 0⟩) ∧
      readPrefixedInt (pre ++ putPrefixedInt flags (UInt64.ofNat k) v ++ rest) pre.length
          (UInt64.ofNat k) =
        if v.toNat < 2 ^ k - 1 + 2 ^ 63 then
          some (v, pre.length + (putPrefixedInt flags (UInt64.ofNat k) v).length)
        else none :=
  ⟨QpackDecoder.decodeFieldSection_lines fields hlen,
    readPrefixedInt_put hk.2 hflags v pre rest⟩

/-- The line `a: b`, and 200 in seven bits. -/
theorem qpack_literals_sample :
    QpackDecoder.fresh.decodeFieldSection (literalSection [(['a'], ['b'])]) =
        .ok (some ⟨[(['a'], ['b'])], 0⟩) ∧
      readPrefixedInt (putPrefixedInt 0x80 7 200) 0 7 = some (200, 2) := by
  have hk : 1 ≤ 7 ∧ 7 ≤ 8 := by decide
  have hflags : (0x80 : UInt8).toNat % 2 ^ 7 = 0 := by decide
  have h := qpack_literals hk hflags 200 [] [] [(['a'], ['b'])] (by decide)
  rw [List.append_nil, List.nil_append] at h
  exact h

/-- The largest number, in eight bits. -/
theorem u64_max_refused :
    readPrefixedInt (putPrefixedInt 0 8 0xffffffffffffffff) 0 8 = none := by
  decide +kernel

end RustCrash.Hysteria2
