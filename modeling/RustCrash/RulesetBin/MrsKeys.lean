import RustCrash.RulesetBin.Mrs

/-
  The keys of a domain rule set, on both sides. A rule the writer accepts is stored,
  lower-cased, as a plain key, as a suffix key, or as both. `Adds` says what the reader makes of
  one key: a suffix key is a suffix, a plain key an exact or, for `*.x`, a suffix.
-/

namespace RustCrash.RulesetBin

open Lib Lib.Net

/-! ## What is stored for a rule -/

/-- The text stored as a plain key for a lower-cased rule: the rule, or what follows `+.`. -/
def storedPlain : Str → Option Str
  | '+' :: '.' :: x => some x
  | '.' :: _ => none
  | l => some l

/-- The text stored as a suffix key for a lower-cased rule: what follows `+.` or `.`. -/
def storedSuffix : Str → Option Str
  | '+' :: '.' :: x => some x
  | '.' :: x => some x
  | _ => none

def plainKey (d : Str) : Bytes := utf8 d.reverse

def suffixKey (x : Str) : Bytes := utf8 ('+' :: '.' :: x).reverse

def storedKeys (l : Str) : List Bytes :=
  (storedPlain l).toList.map plainKey ++ (storedSuffix l).toList.map suffixKey

/-- No label is empty. -/
def FullLabels (d : Str) : Prop := ∀ p ∈ d.splitOn '.', p ≠ []

variable {d : Str} {key : Bytes}

theorem FullLabels.ne_nil (h : FullLabels d) : d ≠ [] := by
  rintro rfl
  exact h [] (by simp) rfl

theorem fullLabels_join {ps : List Str} (hne : ps ≠ []) (hdot : ∀ p ∈ ps, '.' ∉ p)
    (hps : ∀ p ∈ ps, p ≠ []) : FullLabels (Str.join '.' ps) := by
  unfold FullLabels
  rw [Str.splitOn_join hne hdot]
  exact hps

/-- The labels of a domain the writer accepts. -/
structure DomainParts (parts : List Str) : Prop where
  tail_ne : ∀ p ∈ parts.tail, p ≠ []
  ne_empty : parts ≠ [[]]
  plus : ∀ i p, parts[i]? = some p → '+' ∈ p → p = ['+'] ∧ i = 0 ∧ parts.length ≠ 1

theorem forM_ok {α : Type} {f : α → Result Unit} {l : List α} (h : l.forM f = .ok ()) :
    ∀ x ∈ l, f x = .ok () := by
  induction l with
  | nil => simp
  | cons a l ih =>
    rw [List.forM_eq_forM, List.forM_cons, bind_eq_ok] at h
    obtain ⟨u, ha, hl⟩ := h
    intro x hx
    rcases List.mem_cons.mp hx with rfl | hx
    · exact ha
    · exact ih hl x hx

theorem checkLabel_ok {invalid : String → Error} {count i : Nat} {part : Str}
    (h : checkLabel invalid count i part = .ok ()) (hp : '+' ∈ part) :
    part = ['+'] ∧ i = 0 ∧ count ≠ 1 := by
  unfold checkLabel at h
  simp only [bind_eq_ok, ensure_eq_ok] at h
  obtain ⟨_, h1, _, h2, _, h3, _⟩ := h
  exact ⟨h1 hp, h2 hp, h3 hp⟩

theorem checkEmptyLabels_ok {invalid : String → Error} {parts : List Str}
    (h : checkEmptyLabels invalid parts = .ok ()) : parts ≠ [[]] ∧ ∀ p ∈ parts.tail, p ≠ [] := by
  unfold checkEmptyLabels at h
  split_ifs at h with h1
  · rw [ensure_eq_ok] at h
    refine ⟨h, ?_⟩
    obtain ⟨p, rfl⟩ := List.length_eq_one_iff.mp h1
    simp
  · cases hf : parts.tail.findIdx? (· = []) with
    | some i => simp [hf] at h
    | none =>
      rw [List.findIdx?_eq_none_iff] at hf
      refine ⟨fun he => h1 (by rw [he]; rfl), ?_⟩
      intro p hp
      simpa using hf p hp

theorem validAndSplitDomain_ok {toLowercase : Str → Str} {domain : Str} {parts : List Str}
    (h : validAndSplitDomain toLowercase domain = .ok parts) :
    parts = (toLowercase domain).splitOn '.' ∧ DomainParts parts := by
  unfold validAndSplitDomain at h
  simp only [bind_eq_ok, pure_eq, Except.ok.injEq] at h
  obtain ⟨_, -, _, -, _, -, _, -, _, hempty, _, hlabels, rfl⟩ := h
  obtain ⟨hne, htail⟩ := checkEmptyLabels_ok hempty
  refine ⟨rfl, htail, hne, ?_⟩
  intro i p hi hp
  refine checkLabel_ok (forM_ok hlabels (p, i) ?_) hp
  exact List.mem_zipIdx_iff_getElem?.mpr hi

theorem storedPlain_of_head {l : Str} (hplus : l.head? ≠ some '+') (hdot : l.head? ≠ some '.') :
    storedPlain l = some l ∧ storedSuffix l = none := by
  cases l with
  | nil => exact ⟨rfl, rfl⟩
  | cons c l =>
    have h1 : c ≠ '+' := by simpa using hplus
    have h2 : c ≠ '.' := by simpa using hdot
    unfold storedPlain storedSuffix
    constructor <;> split <;> simp_all

/-- An accepted rule is stored under its plain and suffix keys. -/
theorem acceptDomain_stored {toLowercase : Str → Str} {rule : Str} {keys : List Bytes}
    (h : acceptDomain toLowercase rule = some keys) :
    keys = storedKeys (toLowercase rule) ∧
      (∀ d, storedPlain (toLowercase rule) = some d → FullLabels d ∧ '+' ∉ d) ∧
      (∀ x, storedSuffix (toLowercase rule) = some x → FullLabels x) := by
  unfold acceptDomain at h
  split_ifs at h with hslash
  have hk : domainSetKeys toLowercase rule = .ok keys := by
    cases hd : domainSetKeys toLowercase rule with
    | error e => rw [hd] at h; cases h
    | ok ks =>
      rw [hd] at h
      rw [Option.some.inj h]
  unfold domainSetKeys at hk
  rw [bind_eq_ok] at hk
  obtain ⟨parts, hvalid, hk⟩ := hk
  obtain ⟨hsplit, htail, hne, hplus⟩ := validAndSplitDomain_ok hvalid
  have hdot : ∀ p ∈ parts, '.' ∉ p := by
    intro p hp
    rw [hsplit] at hp
    exact Str.not_mem_splitOn hp
  have hjoin : toLowercase rule = Str.join '.' parts := by
    rw [hsplit, Str.join_splitOn]
  generalize toLowercase rule = l at hjoin
  cases parts with
  | nil => exact absurd hsplit.symm (List.splitOn_ne_nil _ _)
  | cons p rest =>
    rw [List.head?_cons, List.tail_cons] at hk
    rw [List.tail_cons] at htail
    have hfull : rest ≠ [] → FullLabels (Str.join '.' rest) := fun hr =>
      fullLabels_join hr (fun q hq => hdot q (List.mem_cons_of_mem _ hq)) htail
    by_cases hplusLabel : p = ['+']
    · -- `+.x`: both keys
      subst hplusLabel
      have hrest : rest ≠ [] := by
        rintro rfl
        exact (hplus 0 ['+'] rfl (by simp)).2.2 rfl
      obtain ⟨q, qs, rfl⟩ := List.exists_cons_of_ne_nil hrest
      have hq : q ≠ [] := htail q List.mem_cons_self
      rw [Str.join_cons_cons] at hjoin
      have hl : l = '+' :: '.' :: Str.join '.' (q :: qs) := hjoin
      have hkeys : keys = [plainKey (Str.join '.' (q :: qs)), suffixKey (Str.join '.' (q :: qs))] := by
        rw [if_pos rfl] at hk
        rw [← Except.ok.inj hk]
        obtain ⟨c, q', rfl⟩ := List.exists_cons_of_ne_nil hq
        unfold domainSetPushKey suffixKey plainKey
        dsimp only
        rw [Str.join_cons_cons]
        rfl
      have hnoplus : '+' ∉ Str.join '.' (q :: qs) := by
        intro hmem
        rcases Str.mem_of_mem_join hmem with h | ⟨p, hp, hx⟩
        · exact absurd h (by decide)
        · obtain ⟨i, hi⟩ := List.getElem?_of_mem hp
          have := (hplus (i + 1) p hi hx).2.1
          omega
      rw [hl]
      refine ⟨hkeys, ?_, ?_⟩
      · intro d hd
        obtain rfl := Option.some.inj hd
        exact ⟨hfull hrest, hnoplus⟩
      · intro x hx
        obtain rfl := Option.some.inj hx
        exact hfull hrest
    · have hhead : ¬ some p = some ['+'] := fun he => hplusLabel (Option.some.inj he)
      rw [if_neg hhead] at hk
      by_cases hempty : p = []
      · -- `.x`: a suffix key only
        subst hempty
        have hrest : rest ≠ [] := by
          rintro rfl
          exact hne rfl
        obtain ⟨q, qs, rfl⟩ := List.exists_cons_of_ne_nil hrest
        rw [Str.join_cons_cons] at hjoin
        have hl : l = '.' :: Str.join '.' (q :: qs) := hjoin
        have hkeys : keys = [suffixKey (Str.join '.' (q :: qs))] := by
          rw [← Except.ok.inj hk]
          unfold domainSetPushKey suffixKey
          dsimp only
          rw [Str.join_cons_cons]
          rfl
        rw [hl]
        refine ⟨hkeys, ?_, ?_⟩
        · intro d hd
          cases hd
        · intro x hx
          obtain rfl := Option.some.inj hx
          exact hfull hrest
      · -- anything else: a plain key only
        have hnoplus : '+' ∉ Str.join '.' (p :: rest) := by
          intro hmem
          rcases Str.mem_of_mem_join hmem with h | ⟨q, hq, hx⟩
          · exact absurd h (by decide)
          · obtain ⟨i, hi⟩ := List.getElem?_of_mem hq
            obtain ⟨rfl, rfl, -⟩ := hplus i q hi hx
            exact hplusLabel (Option.some.inj hi)
        obtain ⟨c, p', rfl⟩ := List.exists_cons_of_ne_nil hempty
        have hlhead : l.head? = some c := by
          rw [hjoin]
          cases rest with
          | nil => rfl
          | cons q qs => rw [Str.join_cons_cons]; rfl
        have hcdot : c ≠ '.' := by
          rintro rfl
          exact hdot _ List.mem_cons_self List.mem_cons_self
        have hcplus : c ≠ '+' := by
          rintro rfl
          exact hnoplus (Str.mem_join List.mem_cons_self List.mem_cons_self)
        obtain ⟨hplain, hsuffix⟩ := storedPlain_of_head (l := l) (by rw [hlhead]; simpa using hcplus)
          (by rw [hlhead]; simpa using hcdot)
        unfold storedKeys
        rw [hplain, hsuffix]
        refine ⟨?_, ?_, by simp⟩
        · rw [← Except.ok.inj hk, hjoin]
          rfl
        · intro d hd
          obtain rfl := Option.some.inj hd
          rw [hjoin]
          exact ⟨fullLabels_join (List.cons_ne_nil _ _) hdot (List.forall_mem_cons.mpr
            ⟨hempty, htail⟩), hnoplus⟩

/-! ## Reading the keys -/

/-- A plain key the reader takes: no `*` in it, or `*.` in front. -/
def Readable (d : Str) : Prop := '*' ∈ d → ∃ rest, d = '*' :: '.' :: rest

theorem getLast?_suffixKey (x : Str) : (suffixKey x).getLast? = some 43 := by
  unfold suffixKey
  rw [List.reverse_cons, utf8_append, List.getLast?_append_of_ne_nil _ (by decide)]
  rfl

theorem dropLast_suffixKey (x : Str) : (suffixKey x).dropLast = utf8 ('.' :: x).reverse := by
  unfold suffixKey
  rw [List.reverse_cons, utf8_append]
  exact List.dropLast_concat

theorem getLast?_plainKey (hd : d ≠ []) (hp : '+' ∉ d) : (plainKey d).getLast? ≠ some 43 := by
  obtain ⟨c, d, rfl⟩ := List.exists_cons_of_ne_nil hd
  unfold plainKey
  intro h
  have hc : utf8 [c] = String.utf8EncodeChar c := List.append_nil _
  rw [List.reverse_cons, utf8_append, hc, List.getLast?_append_of_ne_nil _ (by
    rw [← hc]
    exact fun he => List.cons_ne_nil c [] (utf8_eq_nil_iff.mp he))] at h
  have := getLast_utf8EncodeChar h (by decide)
  exact hp (by rw [this]; exact List.mem_cons_self)

theorem unreverseKey_utf8 (s : Str) : unreverseKey (utf8 s.reverse) = .ok s := by
  unfold unreverseKey
  rw [fromUtf8_utf8, okOr_some, bind_ok, List.reverse_reverse]
  rfl

theorem readMrsKey_suffix {x : Str} (hx : x ≠ []) (found : Found) :
    readMrsKey found (suffixKey x) = .ok (found.1 ++ [x], found.2) := by
  unfold readMrsKey
  rw [if_pos (getLast?_suffixKey x), dropLast_suffixKey, unreverseKey_utf8, bind_ok]
  rw [readMrsSuffix, if_neg hx]
  rfl

theorem readMrsKey_plain (hd : FullLabels d) (hp : '+' ∉ d) (found : Found) :
    readMrsKey found (plainKey d) = readMrsPlain found d := by
  unfold readMrsKey
  rw [if_neg (getLast?_plainKey hd.ne_nil hp)]
  unfold plainKey
  rw [unreverseKey_utf8, bind_ok]

/-- A plain key without `*` is an exact. -/
theorem readMrsPlain_exact (hne : d ≠ []) (hs : '*' ∉ d) (found : Found) :
    readMrsPlain found d = .ok (found.1, found.2 ++ [d]) := by
  unfold readMrsPlain
  split
  · simp at hs
  · simp at hs
  · rw [if_neg hs, if_neg hne]

/-- `*.x` is a suffix. -/
theorem readMrsPlain_wildcard {rest : Str} (hd : FullLabels ('*' :: '.' :: rest)) (found : Found) :
    readMrsPlain found ('*' :: '.' :: rest) = .ok (found.1 ++ [rest], found.2) := by
  have hne : rest ≠ [] := by
    rintro rfl
    exact hd [] (by decide) rfl
  rw [readMrsPlain, if_neg hne]

theorem readMrsPlain_rejected (h : ¬ Readable d) (found : Found) :
    ∃ e, readMrsPlain found d = .error e := by
  unfold Readable at h
  rw [Classical.not_imp] at h
  unfold readMrsPlain
  split
  · exact ⟨_, rfl⟩
  · rename_i rest
    exact absurd ⟨rest, rfl⟩ h.2
  · rw [if_pos h.1]
    exact ⟨_, rfl⟩

/-- What a key adds to the suffixes and to the exacts, when the reader takes it. -/
structure Adds (key : Bytes) (suffixes exacts : List Str) : Prop where
  reads : ∀ found : Found, readMrsKey found key = .ok (found.1 ++ suffixes, found.2 ++ exacts)

theorem adds_suffix {x : Str} (hx : x ≠ []) : Adds (suffixKey x) [x] [] := by
  refine ⟨fun found => ?_⟩
  rw [readMrsKey_suffix hx, List.append_nil]

theorem adds_exact (hd : FullLabels d) (hp : '+' ∉ d) (hs : '*' ∉ d) :
    Adds (plainKey d) [] [d] := by
  refine ⟨fun found => ?_⟩
  rw [readMrsKey_plain hd hp, readMrsPlain_exact hd.ne_nil hs, List.append_nil]

theorem adds_wildcard {rest : Str} (hd : FullLabels ('*' :: '.' :: rest))
    (hp : '+' ∉ '*' :: '.' :: rest) : Adds (plainKey ('*' :: '.' :: rest)) [rest] [] := by
  refine ⟨fun found => ?_⟩
  rw [readMrsKey_plain hd hp, readMrsPlain_wildcard hd, List.append_nil]

theorem Adds.unique {s s' e e' : List Str} (h : Adds key s e) (h' : Adds key s' e') :
    s = s' ∧ e = e' := by
  have := (h.reads ([], [])).symm.trans (h'.reads ([], []))
  simpa using this

theorem Adds.mem_suffixes {s e : List Str} (h : Adds key s e) (d : Str) :
    d ∈ s ↔ ∃ s' e', Adds key s' e' ∧ d ∈ s' :=
  ⟨fun hd => ⟨s, e, h, hd⟩, fun ⟨_, _, h', hd⟩ => (h.unique h').1 ▸ hd⟩

theorem Adds.mem_exacts {s e : List Str} (h : Adds key s e) (d : Str) :
    d ∈ e ↔ ∃ s' e', Adds key s' e' ∧ d ∈ e' :=
  ⟨fun hd => ⟨s, e, h, hd⟩, fun ⟨_, _, h', hd⟩ => (h.unique h').2 ▸ hd⟩

/-- Reading a list of keys, each of which is taken. -/
theorem foldlM_adds {keys : List Bytes} (h : ∀ key ∈ keys, ∃ s e, Adds key s e) (found : Found) :
    ∃ out, keys.foldlM readMrsKey found = .ok out ∧
      (∀ d, d ∈ out.1 ↔ d ∈ found.1 ∨ ∃ key ∈ keys, ∃ s e, Adds key s e ∧ d ∈ s) ∧
      (∀ d, d ∈ out.2 ↔ d ∈ found.2 ∨ ∃ key ∈ keys, ∃ s e, Adds key s e ∧ d ∈ e) := by
  induction keys generalizing found with
  | nil => exact ⟨found, rfl, by simp, by simp⟩
  | cons key keys ih =>
    obtain ⟨s, e, ha⟩ := h key List.mem_cons_self
    obtain ⟨out, hout, hs, he⟩ :=
      ih (fun k hk => h k (List.mem_cons_of_mem _ hk)) (found.1 ++ s, found.2 ++ e)
    refine ⟨out, ?_, ?_, ?_⟩
    · rw [List.foldlM_cons, ha.reads, bind_ok, hout]
    · intro d
      rw [hs, List.mem_append, or_assoc, ha.mem_suffixes, List.exists_mem_cons_iff]
    · intro d
      rw [he, List.mem_append, or_assoc, ha.mem_exacts, List.exists_mem_cons_iff]

theorem foldlM_rejected {keys : List Bytes} (hk : key ∈ keys)
    (hr : ∀ found, ∃ e, readMrsKey found key = .error e) (found : Found) :
    ∃ e, keys.foldlM readMrsKey found = .error e := by
  induction keys generalizing found with
  | nil => exact absurd hk List.not_mem_nil
  | cons k keys ih =>
    rw [List.foldlM_cons]
    rcases List.mem_cons.mp hk with rfl | hk
    · obtain ⟨e, he⟩ := hr found
      exact ⟨e, by rw [he, bind_error]⟩
    · cases hstep : readMrsKey found k with
      | error e => exact ⟨e, rfl⟩
      | ok found' => exact ih hk found'

end RustCrash.RulesetBin
