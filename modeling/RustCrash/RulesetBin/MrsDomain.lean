import RustCrash.RulesetBin.LoudsRoundtrip
import RustCrash.RulesetBin.MrsKeys

/-
  Domain rule sets written and read back. The payload's arrays are read as written, and the
  trie gives back every key (`Written`). The writer lets a `*` stand anywhere; the reader takes
  it at the front of a longer domain only, and rejects the whole file otherwise.
-/

namespace RustCrash.RulesetBin

open Lib Lib.Net

/-! ## The arrays -/

theorem readMrsU64WordsLoop_append (ws : List UInt64) (rest : Bytes) :
    readMrsU64WordsLoop ws.length (ws.flatMap be64 ++ rest) = .ok (ws, rest) := by
  induction ws with
  | nil => rfl
  | cons w ws ih =>
    rw [List.length_cons, List.flatMap_cons, List.append_assoc]
    unfold readMrsU64WordsLoop
    rw [beU64_append, okOr_some, bind_ok]
    dsimp only
    rw [ih, bind_ok]
    rfl

theorem readMrsU64Words_append {ws : List UInt64} (hne : ws ≠ []) (hlen : ws.length < 2 ^ 63)
    (rest : Bytes) : readMrsU64Words (countedWords ws ++ rest) = .ok (ws, rest) := by
  have hpos := List.length_pos_iff.mpr hne
  unfold readMrsU64Words countedWords
  rw [List.append_assoc, beI64_append hlen, okOr_some, bind_ok]
  dsimp only
  rw [ensure_of (by omega), bind_ok, Int.toNat_natCast, readMrsU64WordsLoop_append]

/-- A written domain payload is read as its trie is. -/
theorem readMrsDomainPayload_written {leaves labelBitmap : List UInt64} {labels : Bytes}
    (h1 : leaves ≠ [] ∧ leaves.length < 2 ^ 63) (h2 : labelBitmap ≠ [] ∧ labelBitmap.length < 2 ^ 63)
    (h3 : labels ≠ [] ∧ labels.length < 2 ^ 63) :
    readMrsDomainPayload ([1] ++ countedWords leaves ++ countedWords labelBitmap ++
        be64 (UInt64.ofNat labels.length) ++ labels) = (do
      let trie ← LoudsTrie.new leaves labelBitmap labels
      let keys ← trie.keys
      readMrsKeys keys) := by
  have hpos := List.length_pos_iff.mpr h3.1
  have hbody : Cursor.bytes labels.length labels = some (labels, []) := by
    have h : Cursor.bytes labels.length (labels ++ []) = some (labels, []) := bytes_append rfl
    rwa [List.append_nil] at h
  unfold readMrsDomainPayload
  rw [List.append_assoc, List.append_assoc, List.append_assoc, List.singleton_append, byte_cons,
    okOr_some, bind_ok]
  dsimp only
  rw [ensure_of rfl, bind_ok, readMrsU64Words_append h1.1 h1.2, bind_ok]
  dsimp only
  rw [readMrsU64Words_append h2.1 h2.2, bind_ok]
  dsimp only
  rw [beI64_append h3.2, okOr_some, bind_ok]
  dsimp only
  rw [ensure_of (by omega), bind_ok, Int.toNat_natCast, hbody, okOr_some, bind_ok]

/-! ## The keys of a file -/

section

variable (toLowercase : Str → Str) (rules : List Str)

/-- The rules the writer accepts. -/
def Accepted (r : Str) : Prop := r ∈ rules ∧ (acceptDomain toLowercase r).isSome

/-- The keys the writer puts in the trie. -/
def mrsKeys : List Bytes := (rules.filterMap (acceptDomain toLowercase)).flatten

/-- The texts the reader makes exacts. -/
def IsExact (d : Str) : Prop :=
  ∃ r, Accepted toLowercase rules r ∧ storedPlain (toLowercase r) = some d ∧ '*' ∉ d

/-- The texts the reader makes suffixes. -/
def IsSuffix (x : Str) : Prop :=
  ∃ r, Accepted toLowercase rules r ∧
    (storedSuffix (toLowercase r) = some x ∨ storedPlain (toLowercase r) = some ('*' :: '.' :: x))

/-- The plain key of every accepted rule is one the reader takes. -/
def AllReadable : Prop :=
  ∀ r, Accepted toLowercase rules r → ∀ d, storedPlain (toLowercase r) = some d → Readable d

variable {toLowercase rules} {r : Str} {key : Bytes}

theorem Accepted.stored (h : Accepted toLowercase rules r) :
    acceptDomain toLowercase r = some (storedKeys (toLowercase r)) ∧
      (∀ d, storedPlain (toLowercase r) = some d → FullLabels d ∧ '+' ∉ d) ∧
      (∀ x, storedSuffix (toLowercase r) = some x → FullLabels x) := by
  obtain ⟨keys, hkeys⟩ := Option.isSome_iff_exists.mp h.2
  obtain ⟨hstored, hplain, hsuffix⟩ := acceptDomain_stored hkeys
  exact ⟨by rw [hkeys, hstored], hplain, hsuffix⟩

theorem mem_storedKeys {l : Str} : key ∈ storedKeys l ↔
    (∃ d, storedPlain l = some d ∧ key = plainKey d) ∨
      ∃ x, storedSuffix l = some x ∧ key = suffixKey x := by
  simp [storedKeys, eq_comm]

theorem mem_mrsKeys : key ∈ mrsKeys toLowercase rules ↔
    ∃ r, Accepted toLowercase rules r ∧ key ∈ storedKeys (toLowercase r) := by
  unfold mrsKeys
  rw [List.mem_flatten]
  constructor
  · rintro ⟨ks, hks, hkey⟩
    obtain ⟨r, hr, haccept⟩ := List.mem_filterMap.mp hks
    rw [(acceptDomain_stored haccept).1] at hkey
    exact ⟨r, ⟨hr, by rw [haccept]; rfl⟩, hkey⟩
  · rintro ⟨r, hr, hkey⟩
    exact ⟨_, List.mem_filterMap.mpr ⟨r, hr.1, hr.stored.1⟩, hkey⟩

theorem mrsKey_ne_nil (h : key ∈ mrsKeys toLowercase rules) : key ≠ [] := by
  obtain ⟨r, hr, hkey⟩ := mem_mrsKeys.mp h
  obtain ⟨-, hplain, -⟩ := hr.stored
  rcases mem_storedKeys.mp hkey with ⟨d, hd, rfl⟩ | ⟨x, -, rfl⟩
  · intro he
    have hne := (hplain d hd).1.ne_nil
    exact hne (List.reverse_eq_nil_iff.mp (utf8_eq_nil_iff.mp he))
  · intro he
    have := getLast?_suffixKey x
    rw [he] at this
    cases this

/-- What a stored key adds, when the reader takes every plain key. -/
theorem adds_of_stored (hread : AllReadable toLowercase rules) (hr : Accepted toLowercase rules r)
    (hkey : key ∈ storedKeys (toLowercase r)) :
    (∃ x, IsSuffix toLowercase rules x ∧ Adds key [x] []) ∨
      ∃ d, IsExact toLowercase rules d ∧ Adds key [] [d] := by
  obtain ⟨-, hplain, hsuffix⟩ := hr.stored
  rcases mem_storedKeys.mp hkey with ⟨d, hd, rfl⟩ | ⟨x, hx, rfl⟩
  · obtain ⟨hfull, hplus⟩ := hplain d hd
    by_cases hs : '*' ∈ d
    · obtain ⟨rest, rfl⟩ := hread r hr d hd hs
      exact Or.inl ⟨rest, ⟨r, hr, Or.inr hd⟩, adds_wildcard hfull hplus⟩
    · exact Or.inr ⟨d, ⟨r, hr, hd, hs⟩, adds_exact hfull hplus hs⟩
  · exact Or.inl ⟨x, ⟨r, hr, Or.inl hx⟩, adds_suffix (hsuffix x hx).ne_nil⟩

theorem IsExact.added {d : Str} (h : IsExact toLowercase rules d) :
    ∃ key ∈ mrsKeys toLowercase rules, Adds key [] [d] := by
  obtain ⟨r, hr, hd, hs⟩ := h
  obtain ⟨hfull, hplus⟩ := hr.stored.2.1 d hd
  exact ⟨plainKey d, mem_mrsKeys.mpr ⟨r, hr, mem_storedKeys.mpr (Or.inl ⟨d, hd, rfl⟩)⟩,
    adds_exact hfull hplus hs⟩

theorem IsSuffix.added {x : Str} (h : IsSuffix toLowercase rules x) :
    ∃ key ∈ mrsKeys toLowercase rules, Adds key [x] [] := by
  obtain ⟨r, hr, hx | hd⟩ := h
  · exact ⟨suffixKey x, mem_mrsKeys.mpr ⟨r, hr, mem_storedKeys.mpr (Or.inr ⟨x, hx, rfl⟩)⟩,
      adds_suffix (hr.stored.2.2 x hx).ne_nil⟩
  · obtain ⟨hfull, hplus⟩ := hr.stored.2.1 _ hd
    exact ⟨_, mem_mrsKeys.mpr ⟨r, hr, mem_storedKeys.mpr (Or.inl ⟨_, hd, rfl⟩)⟩,
      adds_wildcard hfull hplus⟩

/-- The reader's sets, when it takes every plain key. -/
theorem readMrsKeys_ok (hread : AllReadable toLowercase rules) {keys : List Bytes}
    (hkeys : ∀ k, k ∈ keys ↔ k ∈ mrsKeys toLowercase rules) :
    ∃ set, readMrsKeys keys = .ok set ∧ (∀ d, d ∈ set.exacts ↔ IsExact toLowercase rules d) ∧
      (∀ x, x ∈ set.suffixes ↔ IsSuffix toLowercase rules x) ∧ set.ipCidrs = [] := by
  have hadds : ∀ key ∈ keys, (∃ x, IsSuffix toLowercase rules x ∧ Adds key [x] []) ∨
      ∃ d, IsExact toLowercase rules d ∧ Adds key [] [d] := by
    intro key hkey
    obtain ⟨r, hr, hstored⟩ := mem_mrsKeys.mp ((hkeys key).mp hkey)
    exact adds_of_stored hread hr hstored
  have hall : ∀ key ∈ keys, ∃ s e, Adds key s e := by
    intro key hkey
    rcases hadds key hkey with ⟨x, -, h⟩ | ⟨d, -, h⟩
    · exact ⟨_, _, h⟩
    · exact ⟨_, _, h⟩
  obtain ⟨out, hout, hs, he⟩ := foldlM_adds hall ([], [])
  refine ⟨⟨sortDedup out.1, sortDedup out.2, []⟩, ?_, ?_, ?_, rfl⟩
  · unfold readMrsKeys
    rw [hout, bind_ok]
    rfl
  · intro d
    rw [mem_sortDedup, he]
    constructor
    · rintro (h | ⟨key, hkey, s, e, ha, hd⟩)
      · exact absurd h List.not_mem_nil
      · rcases hadds key hkey with ⟨x, -, h⟩ | ⟨d', hd', h⟩
        · rw [(ha.unique h).2] at hd
          exact absurd hd List.not_mem_nil
        · rw [(ha.unique h).2, List.mem_singleton] at hd
          rwa [hd]
    · intro h
      obtain ⟨key, hkey, ha⟩ := h.added
      exact Or.inr ⟨key, (hkeys key).mpr hkey, _, _, ha, List.mem_singleton_self d⟩
  · intro x
    rw [mem_sortDedup, hs]
    constructor
    · rintro (h | ⟨key, hkey, s, e, ha, hx⟩)
      · exact absurd h List.not_mem_nil
      · rcases hadds key hkey with ⟨x', hx', h⟩ | ⟨d, -, h⟩
        · rw [(ha.unique h).1, List.mem_singleton] at hx
          rwa [hx]
        · rw [(ha.unique h).1] at hx
          exact absurd hx List.not_mem_nil
    · intro h
      obtain ⟨key, hkey, ha⟩ := h.added
      exact Or.inr ⟨key, (hkeys key).mpr hkey, _, _, ha, List.mem_singleton_self x⟩

/-- A plain key the reader does not take makes it fail. -/
theorem readMrsKeys_error (hread : ¬ AllReadable toLowercase rules) {keys : List Bytes}
    (hkeys : ∀ k, k ∈ keys ↔ k ∈ mrsKeys toLowercase rules) :
    ∃ e, readMrsKeys keys = .error e := by
  unfold AllReadable at hread
  simp only [not_forall] at hread
  obtain ⟨r, hr, d, hd, hbad⟩ := hread
  obtain ⟨hfull, hplus⟩ := hr.stored.2.1 d hd
  have hmem : plainKey d ∈ keys := (hkeys _).mpr
    (mem_mrsKeys.mpr ⟨r, hr, mem_storedKeys.mpr (Or.inl ⟨d, hd, rfl⟩)⟩)
  obtain ⟨e, he⟩ := foldlM_rejected hmem (fun found => by
    rw [readMrsKey_plain hfull hplus]
    exact readMrsPlain_rejected hbad found) ([], [])
  refine ⟨e, ?_⟩
  unfold readMrsKeys
  rw [he, bind_error]

/-! ## The file -/

/-- A written domain file is read as its keys are. -/
theorem parseMrs_written {zstd : Bytes → Except String Bytes} (hz : Decodes zstd)
    (hlen : rules.length < 2 ^ 63) (hsmall : trieEdges (mrsKeys toLowercase rules) ≤ 2 ^ 31)
    {file : Bytes} (hw : writeMrs toLowercase .domain rules = some (.ok file)) :
    parseMrs zstd file = readMrsKeys (sortedKeys (mrsKeys toLowercase rules)) := by
  unfold writeMrs at hw
  dsimp only at hw
  split_ifs at hw with hcount
  · cases Option.some.inj hw
  · have hne : mrsKeys toLowercase rules ≠ [] := by
      obtain ⟨ks, hks⟩ := List.exists_mem_of_length_pos (Nat.pos_of_ne_zero hcount)
      obtain ⟨r, hr, haccept⟩ := List.mem_filterMap.mp hks
      have hr' : Accepted toLowercase rules r := ⟨hr, by rw [haccept]; rfl⟩
      obtain ⟨key, hkey⟩ : ∃ key, key ∈ storedKeys (toLowercase r) := by
        unfold storedKeys storedPlain storedSuffix
        split <;> simp
      exact List.ne_nil_of_mem (mem_mrsKeys.mpr ⟨r, hr', hkey⟩)
    obtain ⟨leaves, labelBitmap, labels, t, h⟩ := written hne hsmall
    have hlabels := h.labels_pos fun k hk => mrsKey_ne_nil hk
    have h1 := h.leaves_le
    have h2 := h.bitmap_le
    have h3 := h.labels_le
    have hbuild : mrsDomainPayloadFromKeys (rules.filterMap (acceptDomain toLowercase)).flatten =
        some ([1] ++ countedWords leaves ++ countedWords labelBitmap ++
          be64 (UInt64.ofNat labels.length) ++ labels) := by
      unfold mrsDomainPayloadFromKeys
      have := h.build
      unfold mrsKeys at this
      rw [this]
      rfl
    rw [hbuild, Option.map_some, Option.some.injEq, Except.ok.injEq] at hw
    have hwords : ∀ ws : List UInt64, (countedWords ws).length = 8 + 8 * ws.length := by
      intro ws
      unfold countedWords
      rw [List.length_append, length_be64, List.length_flatMap]
      simp [Nat.mul_comm]
    rw [← hw, parseMrs_mrsFile hz (Nat.lt_of_le_of_lt (List.length_filterMap_le _ _) hlen) _ (by
      simp only [List.length_append, hwords, length_be64, List.length_singleton]
      omega)]
    show readMrsDomainPayload _ = _
    rw [readMrsDomainPayload_written ⟨h.leaves_pos, by omega⟩ ⟨h.bitmap_pos, by omega⟩
      ⟨hlabels, by omega⟩, h.new, bind_ok, h.keys, bind_ok]

/-- A written domain file is accepted exactly if the reader takes the plain key of every
    accepted rule; then the exacts are the plain keys without `*`, and the suffixes are the
    suffix keys and what follows `*.` in a plain key. -/
theorem mrs_domain_roundtrip {zstd : Bytes → Except String Bytes} (hz : Decodes zstd)
    (hlen : rules.length < 2 ^ 63) (hsmall : trieEdges (mrsKeys toLowercase rules) ≤ 2 ^ 31)
    {file : Bytes} (hw : writeMrs toLowercase .domain rules = some (.ok file)) :
    ((∃ set, parseMrs zstd file = .ok set) ↔ AllReadable toLowercase rules) ∧
      ∀ set, parseMrs zstd file = .ok set →
        (∀ d, d ∈ set.exacts ↔ IsExact toLowercase rules d) ∧
          (∀ x, x ∈ set.suffixes ↔ IsSuffix toLowercase rules x) ∧ set.ipCidrs = [] := by
  rw [parseMrs_written hz hlen hsmall hw]
  by_cases hread : AllReadable toLowercase rules
  · obtain ⟨set, hset, hspec⟩ := readMrsKeys_ok hread fun k => mem_sortedKeys
    refine ⟨⟨fun _ => hread, fun _ => ⟨set, hset⟩⟩, ?_⟩
    intro set' hset'
    rw [hset, Except.ok.injEq] at hset'
    rwa [← hset']
  · obtain ⟨e, he⟩ := readMrsKeys_error hread fun k => mem_sortedKeys
    refine ⟨⟨?_, fun h => absurd h hread⟩, ?_⟩
    · rintro ⟨set, hset⟩
      rw [he] at hset
      cases hset
    · intro set hset
      rw [he] at hset
      cases hset

end

/-- The writer succeeds as soon as it accepts a rule. -/
theorem writeMrs_domain_ok (toLowercase : Str → Str) (rules : List Str)
    (h : mrsKeys toLowercase rules ≠ []) :
    ∃ file, writeMrs toLowercase .domain rules = some (.ok file) := by
  obtain ⟨leaves, labelBitmap, labels, -, hbuild, -⟩ := buildDomainSet_encodes h
  have hcount : (rules.filterMap (acceptDomain toLowercase)).length ≠ 0 := by
    intro h0
    apply h
    unfold mrsKeys
    rw [List.length_eq_zero_iff.mp h0]
    rfl
  unfold writeMrs
  dsimp only
  rw [if_neg hcount]
  unfold mrsKeys at hbuild
  unfold mrsDomainPayloadFromKeys
  rw [hbuild]
  exact ⟨_, rfl⟩

/-- `+.a.b` and `*.C`. -/
def sampleRules : List Str := ["+.a.b".toList, "*.C".toList]

theorem mrsKeys_sample : mrsKeys Str.asciiLower sampleRules =
    [plainKey "a.b".toList, suffixKey "a.b".toList, plainKey "*.c".toList] := by
  decide +kernel

theorem allReadable_sample : AllReadable Str.asciiLower sampleRules := by
  intro r hr d hd hs
  rcases List.mem_cons.mp hr.1 with rfl | hr
  · obtain rfl : d = "a.b".toList := (Option.some.inj hd).symm
    exact absurd hs (by decide)
  · rw [List.mem_singleton.mp hr] at hd
    exact ⟨['c'], (Option.some.inj hd).symm⟩

theorem mrs_domain_roundtrip_sample : ∃ file set,
    writeMrs Str.asciiLower .domain sampleRules = some (.ok file) ∧
      parseMrs rawDecoder file = .ok set ∧ "a.b".toList ∈ set.exacts ∧ "c".toList ∈ set.suffixes := by
  have haccepted : ∀ r ∈ sampleRules, Accepted Str.asciiLower sampleRules r := by
    intro r hr
    refine ⟨hr, ?_⟩
    rcases List.mem_cons.mp hr with rfl | hr
    · decide +kernel
    · rw [List.mem_singleton.mp hr]
      decide +kernel
  obtain ⟨file, hw⟩ := writeMrs_domain_ok Str.asciiLower sampleRules (by
    rw [mrsKeys_sample]
    exact List.cons_ne_nil _ _)
  have hsmall : trieEdges (mrsKeys Str.asciiLower sampleRules) ≤ 2 ^ 31 :=
    Nat.le_trans (trieEdges_le _) (by rw [mrsKeys_sample]; decide +kernel)
  obtain ⟨hok, hsets⟩ := mrs_domain_roundtrip decodes_rawDecoder (by decide) hsmall hw
  obtain ⟨set, hset⟩ := hok.mpr allReadable_sample
  obtain ⟨hexact, hsuffix, -⟩ := hsets set hset
  refine ⟨file, set, hw, hset, (hexact _).mpr ?_, (hsuffix _).mpr ?_⟩
  · exact ⟨_, haccepted _ List.mem_cons_self, rfl, by decide⟩
  · exact ⟨_, haccepted _ (List.mem_cons_of_mem _ List.mem_cons_self), Or.inr rfl⟩

/-- The writer accepts `*`, the reader does not. -/
theorem bare_wildcard_rejected : ∃ file,
    writeMrs Str.asciiLower .domain [['*']] = some (.ok file) ∧
      parseMrs rawDecoder file =
        .error (.config "mrs: bare '*' wildcard pattern is not supported") := by
  have hkeys : mrsKeys Str.asciiLower [['*']] = [plainKey ['*']] := by decide +kernel
  obtain ⟨file, hw⟩ := writeMrs_domain_ok Str.asciiLower [['*']] (by
    rw [hkeys]
    exact List.cons_ne_nil _ _)
  refine ⟨file, hw, ?_⟩
  rw [parseMrs_written decodes_rawDecoder (by decide)
    (Nat.le_trans (trieEdges_le _) (by rw [hkeys]; decide)) hw, hkeys, sortedKeys_single]
  decide +kernel

end RustCrash.RulesetBin
