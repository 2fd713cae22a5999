import RustCrash.Routing.Parse

/-
  Logic rules as trees (`rule.rs`): the lines `AND/OR/NOT,((sub),(sub)...),target` that a
  configuration writes, and what `Rule::parse` makes of them.

  `parse_sub_rule` appends the stub target behind a sub-rule as it stands. Behind a trailing
  `no-resolve` the stub hides that word: the sub-rule has four parts then, and no kind takes
  four. A tree is read back exactly when none of its leaves carries `no-resolve`.
-/

namespace RustCrash.Routing

open Lib Lib.Net

/-! ## Leaves -/

/-- The kinds that carry a payload. -/
def payloadKinds : List Str :=
  ["DOMAIN", "DOMAIN-SUFFIX", "DOMAIN-KEYWORD", "DOMAIN-REGEX", "DOMAIN-WILDCARD", "IP-CIDR",
    "IP-CIDR6", "SRC-IP-CIDR", "SRC-PORT", "DST-PORT", "GEOIP", "GEOSITE", "RULE-SET",
    "CLASH-MODE", "NETWORK", "IN-PORT", "IN-NAME", "IN-TYPE", "UID", "IN-USER", "DSCP", "IP-ASN",
    "IP-SUFFIX", "PROCESS-NAME", "PROCESS-PATH"].map String.toList

/-- The kinds that resolve the destination unless told not to. -/
def resolvingKinds : List Str :=
  ["IP-CIDR", "IP-CIDR6", "GEOIP", "IP-ASN", "IP-SUFFIX", "RULE-SET"].map String.toList

/-- The characters that structure a logic rule. -/
def isMark (c : Char) : Bool := c = ',' || c = '&' || c = '(' || c = ')'

/-- A rule without its target: a kind, a payload the kind accepts, and the matcher they name. -/
structure Leaf (re : Regex) where
  kind : Str
  payload : Str
  noResolve : Bool
  matcher : RuleMatcher
  clean : payload.all (fun c => ! isMark c) = true
  flagged : noResolve = true → kind ∈ resolvingKinds
  names : payloadMatcher re kind (Str.trim payload) noResolve = some (.ok matcher)

/-- These are the kinds a payload matcher is read for. -/
theorem mem_payloadKinds {re : Regex} {kind payload : Str} {noResolve : Bool}
    {r : Result RuleMatcher} (h : payloadMatcher re kind payload noResolve = some r) :
    kind ∈ payloadKinds := by
  have hkind : ∀ k : String, String.ofList kind = k → k.toList ∈ payloadKinds →
      kind ∈ payloadKinds := by
    intro k hk hm
    rwa [← hk, String.toList_ofList] at hm
  unfold payloadMatcher at h
  split at h <;> first | exact hkind _ ‹_› (by decide +kernel) | cases h

theorem Leaf.kind_mem {re : Regex} (l : Leaf re) : l.kind ∈ payloadKinds :=
  mem_payloadKinds l.names

/-- The word behind a leaf that must not resolve. -/
def flagText (noResolve : Bool) : Str := if noResolve then ",no-resolve".toList else []

def Leaf.text {re : Regex} (l : Leaf re) : Str :=
  l.kind ++ ',' :: (l.payload ++ flagText l.noResolve)

/-- What stands behind the sub-rules of a nested logic rule. -/
def stub : Str := ['-']

/-! ## Trees -/

/-- What may stand between two sub-rules. -/
inductive Separator where
  | comma
  | ampersands
  deriving DecidableEq, Repr

def Separator.text : Separator → Str
  | comma => [',']
  | ampersands => ['&', '&']

/-- The operators that take any number of sub-rules. -/
inductive Joiner where
  | and
  | or
  deriving DecidableEq, Repr

def Joiner.text : Joiner → Str
  | and => "AND".toList
  | or => "OR".toList

def Joiner.mode : Joiner → LogicMode
  | and => .and
  | or => .or

mutual

/-- A logic rule without its target. -/
inductive Node (re : Regex) where
  | not (only : SubRule re)
  | join (op : Joiner) (first : SubRule re) (rest : SubRules re)

inductive SubRule (re : Regex) where
  | leaf (l : Leaf re)
  | node (n : Node re)

/-- The sub-rules behind the first one, each with the separator before it. -/
inductive SubRules (re : Regex) where
  | nil
  | cons (sep : Separator) (s : SubRule re) (rest : SubRules re)

end

/-- A text in its parentheses. -/
def wrap (s : Str) : Str := '(' :: (s ++ [')'])

variable {re : Regex}

mutual

/-- `OP,((sub),(sub)...)`. -/
def Node.text : Node re → Str
  | .not only => "NOT".toList ++ ',' :: wrap (wrap only.text)
  | .join op first rest => op.text ++ ',' :: wrap (wrap first.text ++ rest.text)

def SubRule.text : SubRule re → Str
  | .leaf l => l.text
  | .node n => n.text

def SubRules.text : SubRules re → Str
  | .nil => []
  | .cons sep s rest => sep.text ++ (wrap s.text ++ rest.text)

end

mutual

/-- The matcher a tree stands for. -/
def Node.matcher : Node re → RuleMatcher
  | .not only => .logic .not [only.rule]
  | .join op first rest => .logic op.mode (first.rule :: rest.rules)

/-- A sub-rule has the stub for its target. -/
def SubRule.rule : SubRule re → Rule
  | .leaf l => .mk l.matcher stub
  | .node n => .mk n.matcher stub

def SubRules.rules : SubRules re → List Rule
  | .nil => []
  | .cons _ s rest => s.rule :: rest.rules

end

mutual

/-- No leaf carries `no-resolve`. -/
def Node.unflagged : Node re → Bool
  | .not only => only.unflagged
  | .join _ first rest => first.unflagged && rest.unflagged

def SubRule.unflagged : SubRule re → Bool
  | .leaf l => ! l.noResolve
  | .node n => n.unflagged

def SubRules.unflagged : SubRules re → Bool
  | .nil => true
  | .cons _ s rest => s.unflagged && rest.unflagged

end

/-- The texts of the sub-rules, in their parentheses. -/
def SubRules.pieces : SubRules re → List Str
  | .nil => []
  | .cons _ s rest => wrap s.text :: rest.pieces

/-! ## Balanced texts -/

/-- Texts that close every parenthesis they open, and no other. -/
inductive Balanced : Str → Prop where
  | nil : Balanced []
  | char {c : Char} {s : Str} (h1 : c ≠ '(') (h2 : c ≠ ')') (hs : Balanced s) :
      Balanced (c :: s)
  | group {s t : Str} (hs : Balanced s) (ht : Balanced t) : Balanced ('(' :: (s ++ ')' :: t))

theorem Balanced.append {s t : Str} (hs : Balanced s) (ht : Balanced t) : Balanced (s ++ t) := by
  induction hs with
  | nil => exact ht
  | char h1 h2 _ ih => exact .char h1 h2 ih
  | group hs _ _ ih =>
    rw [List.cons_append, List.append_assoc, List.cons_append]
    exact .group hs ih

variable {s : Str}

theorem Balanced.wrap (hs : Balanced s) : Balanced (wrap s) := .group hs .nil

theorem Balanced.of_clean (h : s.all (fun c => ! isMark c) = true) : Balanced s := by
  induction s with
  | nil => exact .nil
  | cons c s ih =>
    simp only [List.all_cons, Bool.and_eq_true, isMark, Bool.not_eq_true', Bool.or_eq_false_iff,
      decide_eq_false_iff_not] at h
    exact .char h.1.1.2 h.1.2 (ih (by simpa [isMark] using h.2))

/-- Inside a group a balanced text is passed over whole. -/
theorem splitGroup_balanced (hs : Balanced s) (depth : Nat) (t : Str) :
    splitGroup (depth + 1) (s ++ t) =
      (splitGroup (depth + 1) t).map fun p => (s ++ p.1, p.2) := by
  induction hs generalizing depth t with
  | nil => simp
  | char h1 h2 _ ih =>
    rw [List.cons_append, splitGroup.eq_4 _ _ _ h1 h2, ih, Option.map_map]
    rfl
  | @group s u _ _ ihs iht =>
    rw [List.cons_append, List.append_assoc, List.cons_append, splitGroup, ihs, splitGroup,
      if_neg (by omega), Nat.add_sub_cancel, iht, Option.map_map, Option.map_map, Option.map_map]
    simp only [Function.comp_def, List.cons_append, List.append_assoc]

theorem splitGroup_close (hs : Balanced s) (t : Str) :
    splitGroup 1 (s ++ ')' :: t) = some (s, t) := by
  rw [splitGroup_balanced hs 0, splitGroup]
  simp

/-- Inside parentheses a balanced text is kept in the piece being read. -/
theorem splitSubRulesLoop_balanced (hs : Balanced s) {depth : Int} (hd : 0 < depth) (cur : Str)
    (out : List Str) (t : Str) :
    splitSubRulesLoop depth cur out (s ++ t) = splitSubRulesLoop depth (cur ++ s) out t := by
  induction hs generalizing depth cur t with
  | nil => simp
  | char h1 h2 _ ih =>
    rw [List.cons_append, splitSubRulesLoop, if_neg h1, if_neg h2, if_neg (by omega), ih hd,
      List.append_assoc, List.singleton_append]
  | group _ _ ihs iht =>
    rw [List.cons_append, List.append_assoc, List.cons_append, splitSubRulesLoop, if_pos rfl,
      ihs (by omega), splitSubRulesLoop, if_neg (by decide), if_pos rfl, Int.add_sub_cancel,
      iht hd]
    simp

/-! ## Lines of parts -/

/-- What the proofs use of a kind's spelling. -/
structure KindText (kind : Str) : Prop where
  clean : kind.all (fun c => ! isMark c) = true
  head : kind.head?.any (fun c => ! Str.isWhitespace c && c != '#') = true
  upper : Str.asciiUpper kind = kind
  trimmed : Str.trim kind = kind
  plain : isLogicHead kind = false

theorem kindText {kind : Str} (h : kind ∈ payloadKinds) : KindText kind := by
  have hall : ∀ k ∈ payloadKinds, k.all (fun c => ! isMark c) = true ∧
      k.head?.any (fun c => ! Str.isWhitespace c && c != '#') = true ∧ Str.asciiUpper k = k ∧
      Str.trim k = k ∧ isLogicHead k = false := by
    decide +kernel
  obtain ⟨h1, h2, h3, h4, h5⟩ := hall kind h
  exact ⟨h1, h2, h3, h4, h5⟩

theorem comma_not_mem (h : s.all (fun c => ! isMark c) = true) : ',' ∉ s := by
  intro hm
  have := List.all_eq_true.mp h _ hm
  revert this
  decide

theorem ruleHead_append {head : Str} (h : ',' ∉ head) (t : Str) :
    ruleHead (head ++ ',' :: t) = head := by
  rw [ruleHead, List.takeWhile_append_of_pos, List.takeWhile_cons_of_neg (by simp),
    List.append_nil]
  intro x hx
  simpa using fun hxc : x = ',' => h (hxc ▸ hx)

/-- The first character of a keyword is neither whitespace nor the mark of a comment. -/
theorem exists_head (h : s.head?.any (fun c => ! Str.isWhitespace c && c != '#') = true) :
    ∃ c cs, s = c :: cs ∧ Str.isWhitespace c = false ∧ c ≠ '#' := by
  cases s with
  | nil => simp at h
  | cons c cs =>
    rw [List.head?_cons, Option.any_some, Bool.and_eq_true, Bool.not_eq_true', bne_iff_ne] at h
    exact ⟨c, cs, rfl, h.1, h.2⟩

/-- A line of comma-free parts under a payload kind is read as these parts. -/
theorem parse_parts {kind last : Str} {ps : List Str} (hk : kind ∈ payloadKinds)
    (hps : ∀ p ∈ ps, ',' ∉ p) (hlast : ',' ∉ last) (hne : last ≠ [])
    (hend : last.getLast?.any Str.isWhitespace = false) :
    parse re (Str.join ',' (kind :: ps ++ [last])) =
      parseParts re (Str.join ',' (kind :: ps ++ [last]))
        (kind :: ps.map Str.trim ++ [Str.trim last]) := by
  have hkind := kindText hk
  have hcomma := comma_not_mem hkind.clean
  obtain ⟨tl, htl⟩ : ∃ tl, Str.join ',' (kind :: ps ++ [last]) = kind ++ ',' :: tl := by
    obtain ⟨q, qs, hq⟩ := List.exists_cons_of_ne_nil (l := ps ++ [last]) (by simp)
    exact ⟨Str.join ',' (q :: qs), by rw [List.cons_append, hq, Str.join_cons_cons]⟩
  have hl : Str.join ',' (kind :: ps ++ [last]) = Str.join ',' (kind :: ps) ++ ',' :: last :=
    Str.join_append_singleton (by simp) last
  obtain ⟨c, cs, hc, hw, hmark⟩ := exists_head hkind.head
  have htrim : Str.trim (Str.join ',' (kind :: ps ++ [last])) =
      Str.join ',' (kind :: ps ++ [last]) := by
    apply Str.trim_eq_self
    · rw [htl, hc]
      simpa using hw
    · rw [hl, List.getLast?_append_of_ne_nil _ (List.cons_ne_nil _ _), List.getLast?_cons,
        List.getLast?_eq_getLast_of_ne_nil hne, Option.getD_some]
      rwa [List.getLast?_eq_getLast_of_ne_nil hne] at hend
  have hrule : ruleHead (Str.join ',' (kind :: ps ++ [last])) = kind := by
    rw [htl, ruleHead_append hcomma]
  rw [parse_of_plain re htrim, parsePlain, Str.splitOn_join (by simp), if_neg]
  · simp [hkind.trimmed]
  · simp
  · intro p hp
    simp only [List.cons_append, List.mem_cons, List.mem_append, List.not_mem_nil, or_false] at hp
    rcases hp with rfl | hp | rfl
    · exact hcomma
    · exact hps p hp
    · exact hlast
  · rw [htl, hc]
    simpa using hmark
  · rw [hrule]
    exact hkind.plain

/-! ## Sub-rules that are leaves -/

theorem wrap_trimmed (s : Str) : Str.trim (wrap s) = wrap s := by
  apply Str.trim_eq_self
  · rfl
  · rw [wrap, ← List.cons_append, List.getLast?_concat]
    decide

theorem stripParens_wrap (s : Str) : stripParens (wrap s) = Str.trim s := by
  unfold stripParens
  dsimp only
  rw [wrap_trimmed, if_pos]
  · simp [wrap]
  · refine ⟨rfl, ?_⟩
    rw [wrap, ← List.cons_append, List.getLast?_concat]

/-- A leaf between its parentheses, without the whitespace behind it. -/
theorem Leaf.trim_text (l : Leaf re) :
    ∃ p, ',' ∉ p ∧ Str.trim p = Str.trim l.payload ∧
      Str.trim l.text = l.kind ++ ',' :: (p ++ flagText l.noResolve) := by
  have hkind := kindText l.kind_mem
  obtain ⟨c, cs, hc, hw, _⟩ := exists_head hkind.head
  cases hn : l.noResolve with
  | true =>
    refine ⟨l.payload, comma_not_mem l.clean, rfl, ?_⟩
    rw [Leaf.text, hn]
    apply Str.trim_eq_self
    · rw [hc]
      simpa using hw
    · rw [List.getLast?_append_of_ne_nil _ (by simp), ← List.singleton_append,
        ← List.append_assoc, List.getLast?_append_of_ne_nil _ (by decide)]
      decide
  | false =>
    refine ⟨l.payload.rdropWhile Str.isWhitespace, ?_, ?_, ?_⟩
    · intro hm
      exact comma_not_mem l.clean ((List.rdropWhile_prefix _ _).subset hm)
    · conv => rhs; rw [← List.rdropWhile_append_rtakeWhile (p := Str.isWhitespace)
        (l := l.payload)]
      rw [Str.trim_append_space]
      intro x hx
      exact List.mem_rtakeWhile_imp hx
    · have hsplit : l.text = (l.kind ++ ',' :: l.payload.rdropWhile Str.isWhitespace) ++
          l.payload.rtakeWhile Str.isWhitespace := by
        rw [Leaf.text, hn, List.append_assoc, List.cons_append, List.rdropWhile_append_rtakeWhile]
        simp [flagText]
      rw [hsplit, Str.trim_append_space _ fun x hx => List.mem_rtakeWhile_imp hx]
      rw [show flagText false = [] from rfl, List.append_nil]
      apply Str.trim_eq_self
      · rw [hc]
        simpa using hw
      · rw [List.getLast?_append_of_ne_nil _ (List.cons_ne_nil _ _), List.getLast?_cons,
          Option.any_some]
        by_cases he : l.payload.rdropWhile Str.isWhitespace = []
        · rw [he]
          decide
        · rw [List.getLast?_eq_getLast_of_ne_nil he, Option.getD_some]
          exact Bool.eq_false_iff.mpr (List.rdropWhile_last_not _ _ he)

/-- The sub-rule of a leaf: its matcher under the stub, unless `no-resolve` gets between. -/
theorem parseSubRule_leaf (l : Leaf re) :
    (l.noResolve = false → parseSubRule re (wrap l.text) = .ok (.mk l.matcher stub)) ∧
    (l.noResolve = true → ∃ e, parseSubRule re (wrap l.text) = .error e) := by
  have hkind := kindText l.kind_mem
  have hcomma := comma_not_mem hkind.clean
  obtain ⟨p, hp, hpt, htext⟩ := l.trim_text
  have hbody : parseSubRule re (wrap l.text) = parse re (Str.trim l.text ++ ',' :: stub) := by
    rw [parseSubRule, stripParens_wrap, if_neg, if_neg]
    · rfl
    · rw [htext, ruleHead_append hcomma, hkind.plain]
      exact Bool.false_ne_true
    · rw [htext]
      simp
  rw [hbody, htext]
  refine ⟨fun hn => ?_, fun hn => ?_⟩
  · have hline : l.kind ++ ',' :: (p ++ flagText l.noResolve) ++ ',' :: stub =
        Str.join ',' (l.kind :: [p] ++ [stub]) := by
      simp [hn, flagText, Str.join, List.intercalate]
    rw [hline, parse_parts l.kind_mem (by simpa using hp) (by decide) (by decide) (by decide),
      List.map_singleton, hpt]
    have hm := l.names
    rw [hn] at hm
    unfold parseParts
    simp only [List.cons_append, List.nil_append]
    rw [show Str.trim stub = stub by decide]
    simp [hkind.upper, hm, stub, Except.map]
  · have hline : l.kind ++ ',' :: (p ++ flagText l.noResolve) ++ ',' :: stub =
        Str.join ',' (l.kind :: [p, "no-resolve".toList] ++ [stub]) := by
      simp [hn, flagText, Str.join, List.intercalate]
    rw [hline, parse_parts l.kind_mem ?_ (by decide) (by decide) (by decide)]
    · exact ⟨_, rfl⟩
    · simp [hp]

/-! ## The texts of trees -/

theorem Leaf.balanced (l : Leaf re) : Balanced l.text := by
  have hflag : Balanced (flagText l.noResolve) := by
    cases l.noResolve with
    | true => exact .char (by decide) (by decide) (.of_clean (by decide))
    | false => exact .nil
  have hkind : Balanced l.kind := .of_clean (kindText l.kind_mem).clean
  have hpayload : Balanced l.payload := .of_clean l.clean
  exact hkind.append (.char (by decide) (by decide) (hpayload.append hflag))

theorem Joiner.balanced (op : Joiner) : Balanced op.text := by
  cases op with
  | and => exact .of_clean (by decide)
  | or => exact .of_clean (by decide)

theorem Separator.balanced (sep : Separator) : Balanced sep.text := by
  cases sep with
  | comma => exact .char (by decide) (by decide) .nil
  | ampersands => exact .char (by decide) (by decide) (.char (by decide) (by decide) .nil)

mutual

theorem Node.balanced : (n : Node re) → Balanced n.text
  | .not only =>
    (Balanced.of_clean (by decide)).append
      (.char (by decide) (by decide) only.balanced.wrap.wrap)
  | .join op first rest =>
    op.balanced.append
      (.char (by decide) (by decide) (first.balanced.wrap.append rest.balanced).wrap)

theorem SubRule.balanced : (s : SubRule re) → Balanced s.text
  | .leaf l => l.balanced
  | .node n => n.balanced

theorem SubRules.balanced : (rest : SubRules re) → Balanced rest.text
  | .nil => .nil
  | .cons sep s rest => sep.balanced.append (s.balanced.wrap.append rest.balanced)

end

/-! ## Splitting a payload into its sub-rules -/

theorem flushPiece_wrap (out : List Str) (s : Str) :
    flushPiece out (wrap s) = out ++ [wrap s] := by
  rw [flushPiece, wrap_trimmed]
  exact if_neg (List.cons_ne_nil _ _)

theorem splitSubRulesLoop_wrap {s : Str} (hs : Balanced s) (out : List Str) (t : Str) :
    splitSubRulesLoop 0 [] out (wrap s ++ t) = splitSubRulesLoop 0 (wrap s) out t := by
  rw [wrap, List.cons_append, List.append_assoc, List.singleton_append, splitSubRulesLoop,
    if_pos rfl, splitSubRulesLoop_balanced hs (by decide), splitSubRulesLoop,
    if_neg (by decide), if_pos rfl]
  rfl

/-- A separator ends the piece before it; the second `&` ends an empty one. -/
theorem splitSubRulesLoop_separator (sep : Separator) (s : Str) (out : List Str) (t : Str) :
    splitSubRulesLoop 0 (wrap s) out (sep.text ++ t) =
      splitSubRulesLoop 0 [] (out ++ [wrap s]) t := by
  have hempty : ∀ out, flushPiece out [] = out := fun out => by
    rw [flushPiece, if_pos (by rfl)]
  cases sep with
  | comma =>
    rw [Separator.text, List.singleton_append, splitSubRulesLoop, if_neg (by decide),
      if_neg (by decide), if_pos (by decide), flushPiece_wrap]
  | ampersands =>
    rw [Separator.text, List.cons_append, List.singleton_append, splitSubRulesLoop,
      if_neg (by decide), if_neg (by decide), if_pos (by decide), flushPiece_wrap,
      splitSubRulesLoop, if_neg (by decide), if_neg (by decide), if_pos (by decide), hempty]

theorem splitSubRulesLoop_rest (s : Str) (out : List Str) :
    (rest : SubRules re) →
      splitSubRulesLoop 0 (wrap s) out rest.text = out ++ wrap s :: rest.pieces
  | .nil => by rw [SubRules.text, splitSubRulesLoop, flushPiece_wrap, SubRules.pieces]
  | .cons sep t rest => by
    rw [SubRules.text, splitSubRulesLoop_separator, splitSubRulesLoop_wrap t.balanced,
      splitSubRulesLoop_rest t.text (out ++ [wrap s]) rest, SubRules.pieces, List.append_assoc,
      List.singleton_append]

theorem splitSubRules_text (first : SubRule re) (rest : SubRules re) :
    splitSubRules (wrap first.text ++ rest.text) = wrap first.text :: rest.pieces := by
  rw [splitSubRules, splitSubRulesLoop_wrap first.balanced, splitSubRulesLoop_rest]
  rfl

/-! ## Logic rules -/

/-- The target behind a logic rule's payload. -/
def targetOf (after : Str) : Str :=
  let outbound := Str.trim (Str.trimStartMatches ',' (Str.trim after))
  if outbound = [] then stub else outbound

/-- A logic rule over the sub-rules it has read. -/
def logicRule (line op after : Str) (sub : List Rule) : Result Rule :=
  if sub = [] then .error (.config s!"logic rule has no sub-rules: {Str.debug line}")
  else if logicMode op = .not ∧ 1 < sub.length then
    .error (.config s!"NOT rule takes exactly one sub-rule: {Str.debug line}")
  else .ok (.mk (.logic (logicMode op) sub) (targetOf after))

/-- `parse_logic` reads the keyword, the balanced payload and what stands behind it. -/
theorem parseLogic_group {line op g after : Str} (hop : ',' ∉ op) (hg : Balanced g)
    (hne : g ≠ []) (ht : Str.trim g = g) (hrest : Str.trim (wrap g ++ after) = wrap g ++ after)
    (hline : line = op ++ ',' :: (wrap g ++ after)) :
    parseLogic re line = (splitSubRules g).mapM (parseSubRule re) >>= logicRule line op after := by
  have hgroup : wrap g ++ after = '(' :: (g ++ ')' :: after) := by simp [wrap]
  have honce : Str.splitOnce ',' line = some (op, wrap g ++ after) := by
    rw [hline, Str.splitOnce_append hop]
  rw [parseLogic]
  split
  · rename_i hk
    rw [honce] at hk
    cases hk
  · rename_i kind rest hk
    obtain ⟨rfl, rfl⟩ : op = kind ∧ wrap g ++ after = rest := by
      rw [honce, Option.some_inj, Prod.mk.injEq] at hk
      exact hk
    split
    · rename_i cs hr
      obtain rfl : g ++ ')' :: after = cs := by
        rw [hrest, hgroup] at hr
        exact List.tail_eq_of_cons_eq hr
      split
      · rename_i hs
        rw [splitGroup_close hg] at hs
        cases hs
      · rename_i group tail hs
        obtain ⟨rfl, rfl⟩ : g = group ∧ after = tail := by
          rw [splitGroup_close hg, Option.some_inj, Prod.mk.injEq] at hs
          exact hs
        dsimp only
        rw [if_neg (by rwa [ht]), List.mapM_subtype fun x _ => rfl, List.unattach_attach, ht]
        rfl
    · rename_i hr
      exact absurd (by rw [hrest, hgroup]) (hr _)

/-! ## Trees are read back -/

/-- What reading gives: the value where nothing stands in the way, and an error else. -/
structure Reads {α : Type} (r : Result α) (plain : Bool) (v : α) : Prop where
  value : plain = true → r = .ok v
  fails : plain = false → ∃ e, r = .error e

theorem Reads.mapM_nil {α : Type} (f : Str → Result α) : Reads ([].mapM f) true [] :=
  ⟨fun _ => rfl, fun h => by cases h⟩

theorem Reads.mapM_cons {α : Type} {f : Str → Result α} {p : Str} {ps : List Str} {b b' : Bool}
    {v : α} {vs : List α} (hp : Reads (f p) b v) (hps : Reads (ps.mapM f) b' vs) :
    Reads ((p :: ps).mapM f) (b && b') (v :: vs) := by
  rw [List.mapM_cons]
  refine ⟨fun h => ?_, fun h => ?_⟩
  · rw [Bool.and_eq_true] at h
    rw [hp.value h.1, hps.value h.2]
    rfl
  · cases b with
    | false =>
      obtain ⟨e, he⟩ := hp.fails rfl
      exact ⟨e, by rw [he]; rfl⟩
    | true =>
      obtain ⟨e, he⟩ := hps.fails (by simpa using h)
      exact ⟨e, by rw [hp.value rfl, he]; rfl⟩

theorem getLast?_pieces (s : Str) :
    (rest : SubRules re) → (wrap s ++ rest.text).getLast? = some ')'
  | .nil => by
    rw [SubRules.text, List.append_nil, wrap, ← List.cons_append, List.getLast?_concat]
  | .cons sep t rest => by
    rw [SubRules.text, ← List.append_assoc, List.getLast?_append, getLast?_pieces t.text rest,
      Option.some_or]

theorem getLast?_after (g : Str) {after : Str}
    (ha : after.getLast?.any Str.isWhitespace = false) :
    (wrap g ++ after).getLast?.any Str.isWhitespace = false := by
  cases after with
  | nil =>
    rw [List.append_nil, wrap, ← List.cons_append, List.getLast?_concat]
    decide
  | cons c cs => rwa [List.getLast?_append_of_ne_nil _ (List.cons_ne_nil _ _)]

/-- A node over sub-rules that are read is read itself. -/
theorem Reads.node (op : Str) {after : Str} (first : SubRule re) (rest : SubRules re) {b : Bool}
    {subs : List Rule} (hop : ',' ∉ op) (ha : after.getLast?.any Str.isWhitespace = false)
    (hne : subs ≠ []) (hone : logicMode op = .not → subs.length ≤ 1)
    (h : Reads ((wrap first.text :: rest.pieces).mapM (parseSubRule re)) b subs) :
    Reads (parseLogic re (op ++ ',' :: (wrap (wrap first.text ++ rest.text) ++ after))) b
      (.mk (.logic (logicMode op) subs) (targetOf after)) := by
  have hcommas : Balanced (wrap first.text ++ rest.text) :=
    first.balanced.wrap.append rest.balanced
  have hgroup : Str.trim (wrap first.text ++ rest.text) = wrap first.text ++ rest.text := by
    apply Str.trim_eq_self
    · rfl
    · rw [getLast?_pieces]
      decide
  have hrest : Str.trim (wrap (wrap first.text ++ rest.text) ++ after) =
      wrap (wrap first.text ++ rest.text) ++ after := by
    exact Str.trim_eq_self rfl (getLast?_after _ ha)
  have hread :
      parseLogic re (op ++ ',' :: (wrap (wrap first.text ++ rest.text) ++ after)) = _ :=
    parseLogic_group hop hcommas (List.cons_ne_nil _ _) hgroup hrest rfl
  rw [splitSubRules_text] at hread
  rw [hread]
  refine ⟨fun hb => ?_, fun hb => ?_⟩
  · rw [h.value hb]
    change logicRule _ op after subs = _
    rw [logicRule, if_neg hne, if_neg]
    intro hnot
    have := hone hnot.1
    omega
  · obtain ⟨e, he⟩ := h.fails hb
    exact ⟨e, by rw [he]; rfl⟩

/-- A node is its keyword before a parenthesized payload. -/
theorem Node.text_eq (n : Node re) :
    ∃ op g, isLogicHead op = true ∧ ',' ∉ op ∧
      op.head?.any (fun c => ! Str.isWhitespace c && c != '#') = true ∧
      n.text = op ++ ',' :: wrap g := by
  cases n with
  | not only => exact ⟨"NOT".toList, _, by decide, by decide, by decide, rfl⟩
  | join op first rest =>
    cases op with
    | and => exact ⟨"AND".toList, _, by decide, by decide, by decide, rfl⟩
    | or => exact ⟨"OR".toList, _, by decide, by decide, by decide, rfl⟩

/-- What `parse` and `parse_sub_rule` see of a node: a trimmed text under a logic keyword. -/
structure LogicLine (line : Str) : Prop where
  ne_nil : line ≠ []
  no_comment : line.head? ≠ some '#'
  trimmed : Str.trim line = line
  logic : isLogicHead (ruleHead line) = true

theorem Node.logicLine (n : Node re) (after : Str)
    (ha : after.getLast?.any Str.isWhitespace = false) : LogicLine (n.text ++ after) := by
  obtain ⟨op, g, hop, hcomma, hhead, htext⟩ := n.text_eq
  obtain ⟨c, cs, hc, hw, hmark⟩ := exists_head hhead
  have hline : n.text ++ after = op ++ ',' :: (wrap g ++ after) := by
    rw [htext, List.append_assoc, List.cons_append]
  have hlast : ((wrap g ++ after).getLast?).any Str.isWhitespace = false := getLast?_after g ha
  rw [hline]
  refine ⟨by simp, ?_, ?_, by rw [ruleHead_append hcomma, hop]⟩
  · rw [hc]
    simpa using hmark
  · apply Str.trim_eq_self
    · rw [hc]
      simpa using hw
    · rwa [List.getLast?_append_of_ne_nil _ (List.cons_ne_nil _ _), ← List.singleton_append,
        List.getLast?_append_of_ne_nil _ (by simp [wrap])]

mutual

/-- `parse_logic` on the text of a node, whatever stands behind it. -/
theorem Node.reads : (n : Node re) → (after : Str) →
    (ha : after.getLast?.any Str.isWhitespace = false) →
    Reads (parseLogic re (n.text ++ after)) n.unflagged (.mk n.matcher (targetOf after))
  | .not only, after, ha => by
    have h := Reads.mapM_cons only.reads (Reads.mapM_nil (parseSubRule re))
    rw [Bool.and_true] at h
    have hn := Reads.node "NOT".toList only .nil (by decide) ha (List.cons_ne_nil _ _)
      (fun _ => le_refl 1) h
    rw [SubRules.text, List.append_nil] at hn
    rw [Node.text, List.append_assoc, List.cons_append]
    exact hn
  | .join op first rest, after, ha => by
    have h := Reads.mapM_cons first.reads rest.reads
    have hmode : logicMode op.text = op.mode := by
      cases op with
      | and => decide
      | or => decide
    have hnot : logicMode op.text = .not → (first.rule :: rest.rules).length ≤ 1 := by
      rw [hmode]
      cases op with
      | and => exact fun hc => absurd hc (by decide)
      | or => exact fun hc => absurd hc (by decide)
    have hop : ',' ∉ op.text := by
      cases op with
      | and => decide
      | or => decide
    have hn := Reads.node op.text first rest hop ha (List.cons_ne_nil _ _) hnot h
    rw [hmode] at hn
    rw [Node.text, List.append_assoc, List.cons_append]
    exact hn

theorem SubRule.reads : (s : SubRule re) →
    Reads (parseSubRule re (wrap s.text)) s.unflagged s.rule
  | .leaf l => by
    obtain ⟨hplain, hflag⟩ := parseSubRule_leaf l
    refine ⟨fun h => hplain ?_, fun h => hflag ?_⟩
    · simpa [SubRule.unflagged] using h
    · simpa [SubRule.unflagged] using h
  | .node n => by
    have hn := n.reads [] rfl
    have hl := n.logicLine [] rfl
    rw [List.append_nil] at hn hl
    rw [parseSubRule, SubRule.text, stripParens_wrap, hl.trimmed, if_neg hl.ne_nil, hl.logic,
      if_pos rfl]
    exact hn

theorem SubRules.reads : (rest : SubRules re) →
    Reads (rest.pieces.mapM (parseSubRule re)) rest.unflagged rest.rules
  | .nil => Reads.mapM_nil _
  | .cons _ s rest => Reads.mapM_cons s.reads rest.reads

end

/-! ## Rule lines -/

/-- A target as a rule line names it. -/
structure Target (target : Str) : Prop where
  ne_nil : target ≠ []
  trimmed : Str.trim target = target
  no_comma : target.head? ≠ some ','

variable {target : Str}

theorem Target.getLast? (h : Target target) : target.getLast?.any Str.isWhitespace = false := by
  have := Str.getLast?_trim target
  rwa [h.trimmed] at this

theorem Target.getLast?_comma (h : Target target) :
    (',' :: target).getLast?.any Str.isWhitespace = false := by
  rw [← List.singleton_append, List.getLast?_append_of_ne_nil _ h.ne_nil]
  exact h.getLast?

theorem Target.targetOf_comma (h : Target target) : targetOf (',' :: target) = target := by
  have hcomma : Str.trimStartMatches ',' (',' :: target) = target := by
    obtain ⟨c, cs, rfl⟩ := List.exists_cons_of_ne_nil h.ne_nil
    rw [Str.trimStartMatches, List.dropWhile_cons_of_pos (by decide), List.dropWhile_cons_of_neg]
    simpa using h.no_comma
  rw [targetOf, Str.trim_eq_self rfl h.getLast?_comma, hcomma, h.trimmed]
  exact if_neg h.ne_nil

theorem parse_tree (n : Node re) (ht : Target target) :
    Reads (parse re (n.text ++ ',' :: target)) n.unflagged (.mk n.matcher target) := by
  have hl := n.logicLine _ ht.getLast?_comma
  have hn := n.reads _ ht.getLast?_comma
  rw [ht.targetOf_comma] at hn
  rwa [parse, hl.trimmed, if_neg (not_or.mpr ⟨hl.ne_nil, hl.no_comment⟩), hl.logic, if_pos rfl]

/-- A logic rule is read back, tree and target, exactly when no leaf carries `no-resolve`. -/
theorem parse_tree_iff (re : Regex) (n : Node re) (target : Str) (ht : Target target) :
    parse re (n.text ++ ',' :: target) = .ok (.mk n.matcher target) ↔ n.unflagged = true := by
  have hn := parse_tree n ht
  refine ⟨fun h => ?_, fun h => hn.value h⟩
  by_contra hb
  obtain ⟨e, he⟩ := hn.fails (Bool.eq_false_iff.mpr hb)
  rw [he] at h
  cases h

/-! ## Two trees -/

/-- No pattern compiles. -/
def noRegex : Regex where
  new _ := .error "no pattern"
  isMatch _ _ := false

def tcpLeaf : Leaf noRegex where
  kind := "NETWORK".toList
  payload := "tcp".toList
  noResolve := false
  matcher := .network .tcp
  clean := by decide
  flagged := fun h => by cases h
  names := rfl

def geoLeaf (noResolve : Bool) : Leaf noRegex where
  kind := "GEOIP".toList
  payload := "CN".toList
  noResolve := noResolve
  matcher := .geoIp "CN".toList noResolve
  clean := by decide
  flagged := fun _ => by decide +kernel
  names := rfl

/-- `AND,((GEOIP,CN)&&(NOT,((NETWORK,tcp))))`, with or without `no-resolve`. -/
def geoTree (noResolve : Bool) : Node noRegex :=
  .join .and (.leaf (geoLeaf noResolve))
    (.cons .ampersands (.node (.not (.leaf tcpLeaf))) .nil)

theorem target_p : Target "P".toList := ⟨by decide, by decide, by decide⟩

theorem parse_tree_iff_geo :
    (geoTree false).text = "AND,((GEOIP,CN)&&(NOT,((NETWORK,tcp))))".toList ∧
      parse noRegex ((geoTree false).text ++ ',' :: "P".toList) =
        .ok (.mk (.logic .and [.mk (.geoIp "CN".toList false) stub,
          .mk (.logic .not [.mk (.network .tcp) stub]) stub]) "P".toList) :=
  ⟨by rfl, (parse_tree_iff noRegex (geoTree false) "P".toList target_p).mpr rfl⟩

/-- `no-resolve` on the GEOIP sub-rule: the line is refused. -/
theorem flagged_tree_refused :
    (geoTree true).text = "AND,((GEOIP,CN,no-resolve)&&(NOT,((NETWORK,tcp))))".toList ∧
      parse noRegex ((geoTree true).text ++ ',' :: "P".toList) ≠
        .ok (.mk (geoTree true).matcher "P".toList) := by
  refine ⟨by rfl, fun h => ?_⟩
  obtain ⟨e, he⟩ := (parse_tree (geoTree true) target_p).fails rfl
  rw [he] at h
  cases h

end RustCrash.Routing
