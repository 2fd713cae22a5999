import RustCrash.Routing.Matcher

/-
  Rule lines (`rule.rs`): `Rule::parse` with the logic forms. `parsePlain` is what `parse`
  does with a trimmed line whose head is no logic keyword. The recursion of the logic forms
  is on the length of the line: a sub-rule lies inside its parentheses.
-/

namespace RustCrash.Routing

open Lib Lib.Net

/-! ## Payloads -/

/-- The inbound kinds a `PROXY,<outbound>` rule compiles to. -/
def proxyRuleInboundKinds : Str :=
  "vmess/vless/trojan/shadowsocks/hysteria2/tuic/snell/anytls/jls/restls/tlsmirror".toList

/-- Check an IN-TYPE / IN-USER list: entries are trimmed, and none may be empty. -/
def parseInList (payload : Str) (lowercase : Bool) : Result Str := do
  let entries ← (payload.splitOn '/').mapM fun entry =>
    let e := Str.trim entry
    if e = [] then
      Except.error (Error.config s!"rule payload {Str.debug payload} has an empty entry")
    else .ok (if lowercase then Str.asciiLower e else e)
  return Str.join '/' entries

/-- Check and normalize an IP-SUFFIX payload. -/
def parseIpSuffix (payload : Str) : Result Str :=
  let segments := (payload.splitOn '.').map fun s => Str.asciiLower (Str.trim s)
  if segments.any (· = []) ∨ 8 < segments.length then
    .error (.config s!"bad IP-SUFFIX {Str.debug payload}")
  else .ok (Str.join '.' segments)

/-- Translate a DOMAIN-WILDCARD pattern to an anchored regex. -/
def wildcardToRegex (pattern : Str) : Str :=
  '^' :: (Str.asciiLower pattern).flatMap (fun ch =>
    if ch = '*' then ['.', '*']
    else if ch = '?' then ['.']
    else if ch.isAlphanum then [ch]
    else ['\\', ch]) ++ ['$']

def parseRegex (re : Regex) (pattern : Str) (bad : String → Error) : Result RuleMatcher :=
  match re.new pattern with
  | .ok () => .ok (.domainRegex pattern)
  | .error e => .error (bad e)

def parseNetwork (payload : Str) : Result RuleMatcher :=
  if payload = "tcp".toList then .ok (.network .tcp)
  else if payload = "udp".toList then .ok (.network .udp)
  else .error (.config s!"NETWORK rule must be tcp or udp, got {Str.debug payload}")

def parseDscp (payload : Str) : Result RuleMatcher := do
  let dscp ← okOr (Str.parseUint 255 payload) (.config s!"bad DSCP value {Str.debug payload}")
  if 63 < dscp then .error (.config s!"DSCP must be 0-63, got {dscp}")
  else return .dscp dscp

/-- The matcher of `KIND,payload,outbound`, or none for a kind without that form. -/
def payloadMatcher (re : Regex) (kind payload : Str) (noResolve : Bool) :
    Option (Result RuleMatcher) :=
  match String.ofList kind with
  | "DOMAIN" => some (.ok (.domain (Str.asciiLower payload)))
  | "DOMAIN-SUFFIX" =>
    some (.ok (.domainSuffix (Str.asciiLower (Str.trimStartMatches '.' payload))))
  | "DOMAIN-KEYWORD" => some (.ok (.domainKeyword (Str.asciiLower payload)))
  | "DOMAIN-REGEX" => some (parseRegex re payload fun e =>
      .config s!"bad rule regex {Str.debug payload}: {e}")
  | "DOMAIN-WILDCARD" => some (parseRegex re (wildcardToRegex payload) fun e =>
      .config s!"bad domain wildcard {Str.debug payload}: {e}")
  | "IP-CIDR" | "IP-CIDR6" =>
    some ((IpNet.parse payload).map fun net => .ipCidr net false noResolve)
  | "SRC-IP-CIDR" => some ((IpNet.parse payload).map fun net => .ipCidr net true false)
  | "SRC-PORT" => some ((PortRange.parse payload).map .portSrc)
  | "DST-PORT" => some ((PortRange.parse payload).map .portDst)
  | "GEOIP" => some (.ok (.geoIp (Str.asciiUpper payload) noResolve))
  | "GEOSITE" => some (.ok (.geosite (Str.asciiLower payload)))
  | "RULE-SET" => some (.ok (.ruleSet payload noResolve))
  | "CLASH-MODE" => some (.ok (.clashMode (Str.asciiLower payload)))
  | "NETWORK" => some (parseNetwork payload)
  | "IN-PORT" => some ((PortRange.parse payload).map .inPort)
  | "IN-NAME" => some (.ok (.inName payload))
  | "IN-TYPE" => some ((parseInList payload true).map .inType)
  | "UID" => some ((U32Range.parse payload).map .uid)
  | "IN-USER" => some ((parseInList payload false).map .inUser)
  | "DSCP" => some (parseDscp payload)
  | "IP-ASN" => some ((okOr (Str.parseUint (2 ^ 32 - 1) payload)
      (.config s!"bad ASN {Str.debug payload}")).map fun asn => .ipAsn asn noResolve)
  | "IP-SUFFIX" => some ((parseIpSuffix payload).map fun suffix => .ipSuffix suffix noResolve)
  | "PROCESS-NAME" => some (.ok (.process payload false))
  | "PROCESS-PATH" => some (.ok (.process payload true))
  | _ => none

/-- The matcher of `KIND,outbound`. -/
def bareMatcher (kind : Str) : Option RuleMatcher :=
  match String.ofList kind with
  | "MATCH" => some .matchAll
  | "PROXY" => some (.inType proxyRuleInboundKinds)
  | _ => none

def supportedRules : String :=
  "DOMAIN, DOMAIN-SUFFIX, DOMAIN-KEYWORD, DOMAIN-REGEX, IP-CIDR, IP-CIDR6, SRC-IP-CIDR, " ++
  "DST-PORT, SRC-PORT, GEOIP, GEOSITE, RULE-SET, CLASH-MODE, MATCH, PROXY, AND/OR/NOT, " ++
  "NETWORK, IN-PORT, IN-NAME, IN-TYPE, UID, IN-USER, DSCP, IP-ASN, IP-SUFFIX, " ++
  "PROCESS-NAME/PATH"

def unsupportedRule (line : Str) : Error :=
  .config s!"unsupported rule {Str.debug line} (supported: {supportedRules})"

/-- A rule of trimmed parts: kind, payload and outbound, or kind and outbound, and
    `no-resolve` behind. -/
def parseParts (re : Regex) (line : Str) (parts : List Str) : Result Rule :=
  let noResolve : Bool := parts.getLast? = some "no-resolve".toList
  let fields := if noResolve then parts.dropLast else parts
  match fields with
  | [kind, payload, outbound] =>
    match payloadMatcher re (Str.asciiUpper kind) payload noResolve with
    | some matcher => matcher.map fun m => .mk m outbound
    | none => .error (unsupportedRule line)
  | [kind, outbound] =>
    match bareMatcher (Str.asciiUpper kind) with
    | some m => .ok (.mk m outbound)
    | none => .error (unsupportedRule line)
  | _ => .error (unsupportedRule line)

/-- A trimmed line that is no logic rule. -/
def parsePlain (re : Regex) (line : Str) : Result Rule :=
  let parts := (line.splitOn ',').map Str.trim
  if parts.length < 2 then .error (.config s!"malformed rule {Str.debug line}")
  else parseParts re line parts

/-! ## Logic rules -/

/-- The text before the first comma. -/
def ruleHead (line : Str) : Str := line.takeWhile (· ≠ ',')

def isLogicHead (head : Str) : Bool :=
  ["AND".toList, "OR".toList, "NOT".toList].contains (Str.asciiUpper head)

def logicMode (kind : Str) : LogicMode :=
  if Str.asciiUpper (Str.trim kind) = "AND".toList then .and
  else if Str.asciiUpper (Str.trim kind) = "OR".toList then .or
  else .not

/-- The text up to the `)` that closes the first group, and the text behind it. -/
def splitGroup : (depth : Nat) → Str → Option (Str × Str)
  | _, [] => none
  | depth, '(' :: cs => (splitGroup (depth + 1) cs).map fun p => ('(' :: p.1, p.2)
  | depth, ')' :: cs =>
    if depth - 1 = 0 then some ([], cs)
    else (splitGroup (depth - 1) cs).map fun p => (')' :: p.1, p.2)
  | depth, c :: cs => (splitGroup depth cs).map fun p => (c :: p.1, p.2)

/-- The pieces of a logic payload so far, with the piece being read. -/
def flushPiece (out : List Str) (cur : Str) : List Str :=
  if Str.trim cur = [] then out else out ++ [Str.trim cur]

/-- Split at depth-0 separators, keeping each parenthesized sub-rule whole. -/
def splitSubRulesLoop : (depth : Int) → (cur : Str) → (out : List Str) → Str → List Str
  | _, cur, out, [] => flushPiece out cur
  | depth, cur, out, ch :: chs =>
    if ch = '(' then splitSubRulesLoop (depth + 1) (cur ++ [ch]) out chs
    else if ch = ')' then splitSubRulesLoop (depth - 1) (cur ++ [ch]) out chs
    else if (ch = ',' ∨ ch = '&') ∧ depth = 0 then
      splitSubRulesLoop depth [] (flushPiece out cur) chs
    else splitSubRulesLoop depth (cur ++ [ch]) out chs

def splitSubRules (payload : Str) : List Str := splitSubRulesLoop 0 [] [] payload

/-- Strip exactly one wrapping pair of parentheses. -/
def stripParens (s : Str) : Str :=
  let s := Str.trim s
  Str.trim (if s.head? = some '(' ∧ s.getLast? = some ')' then s.tail.dropLast else s)

/-! ## Lengths -/

theorem length_trim_le (s : Str) : (Str.trim s).length ≤ s.length := by
  unfold Str.trim
  have h1 := (s.dropWhile_suffix Str.isWhitespace).length_le
  have h2 := (List.rdropWhile_prefix Str.isWhitespace (s.dropWhile Str.isWhitespace)).length_le
  omega

theorem length_splitGroup {depth : Nat} {s a b : Str} (h : splitGroup depth s = some (a, b)) :
    a.length + b.length + 1 = s.length := by
  induction depth, s using splitGroup.induct generalizing a with
  | case1 depth => simp [splitGroup] at h
  | case2 depth cs ih =>
    obtain ⟨p, hp, hab⟩ := Option.map_eq_some_iff.mp h
    obtain ⟨rfl, rfl⟩ := Prod.mk.inj hab
    have := ih hp
    simp only [List.length_cons]
    omega
  | case3 depth cs hd =>
    rw [splitGroup, if_pos hd] at h
    obtain ⟨rfl, rfl⟩ := Prod.mk.inj (Option.some.inj h)
    simp
  | case4 depth cs hd ih =>
    rw [splitGroup, if_neg hd] at h
    obtain ⟨p, hp, hab⟩ := Option.map_eq_some_iff.mp h
    obtain ⟨rfl, rfl⟩ := Prod.mk.inj hab
    have := ih hp
    simp only [List.length_cons]
    omega
  | case5 depth c cs h1 h2 ih =>
    rw [splitGroup] at h
    · obtain ⟨p, hp, hab⟩ := Option.map_eq_some_iff.mp h
      obtain ⟨rfl, rfl⟩ := Prod.mk.inj hab
      have := ih hp
      simp only [List.length_cons]
      omega
    · exact h1
    · exact h2

theorem mem_flushPiece {out : List Str} {cur s : Str} (h : s ∈ flushPiece out cur) :
    s ∈ out ∨ s.length ≤ cur.length := by
  unfold flushPiece at h
  split_ifs at h
  · exact Or.inl h
  · rcases List.mem_append.mp h with h | h
    · exact Or.inl h
    · rw [List.mem_singleton.mp h]
      exact Or.inr (length_trim_le cur)

theorem mem_splitSubRulesLoop {depth : Int} {cur : Str} {out : List Str} {text s : Str}
    (h : s ∈ splitSubRulesLoop depth cur out text) :
    s ∈ out ∨ s.length ≤ cur.length + text.length := by
  induction text generalizing depth cur out with
  | nil => exact (mem_flushPiece h).imp id fun hle => by simpa using hle
  | cons ch chs ih =>
    have hgrow : ∀ {d : Int}, s ∈ splitSubRulesLoop d (cur ++ [ch]) out chs →
        s ∈ out ∨ s.length ≤ cur.length + (ch :: chs).length := by
      intro d hs
      refine (ih hs).imp id fun hle => ?_
      rw [List.length_append, List.length_singleton] at hle
      rw [List.length_cons]
      omega
    unfold splitSubRulesLoop at h
    split_ifs at h
    · exact hgrow h
    · exact hgrow h
    · rcases ih h with h | hle
      · exact (mem_flushPiece h).imp id fun hle => by omega
      · right
        rw [List.length_nil] at hle
        rw [List.length_cons]
        omega
    · exact hgrow h

theorem length_of_mem_splitSubRules {payload s : Str} (h : s ∈ splitSubRules payload) :
    s.length ≤ payload.length := by
  rcases mem_splitSubRulesLoop h with h | hle
  · exact absurd h List.not_mem_nil
  · simpa using hle

theorem length_stripParens_le (s : Str) : (stripParens s).length ≤ s.length := by
  unfold stripParens
  dsimp only
  have h1 := length_trim_le s
  split_ifs
  · have h2 := length_trim_le (Str.trim s).tail.dropLast
    rw [List.length_dropLast, List.length_tail] at h2
    omega
  · exact Nat.le_trans (length_trim_le _) h1

theorem length_of_splitOnce {c : Char} {s a b : Str} (h : Str.splitOnce c s = some (a, b)) :
    b.length < s.length := by
  rw [(Str.splitOnce_eq_some h).1, List.length_append, List.length_cons]
  omega

/-- A sub-rule is shorter than its line by the keyword's comma and the two parentheses. -/
theorem length_subRule {line kind rest cs group after s : Str}
    (hk : Str.splitOnce ',' line = some (kind, rest)) (hr : Str.trim rest = '(' :: cs)
    (hg : splitGroup 1 cs = some (group, after)) (hs : s ∈ splitSubRules (Str.trim group)) :
    s.length + 2 < line.length := by
  have h1 := length_of_splitOnce hk
  have h2 := length_trim_le rest
  have h3 := length_splitGroup hg
  have h4 := length_of_mem_splitSubRules hs
  have h5 := length_trim_le group
  rw [hr, List.length_cons] at h2
  omega

/-! ## `Rule::parse` -/

mutual

/-- `AND/OR/NOT,((sub),(sub)[...]),outbound`. -/
def parseLogic (re : Regex) (line : Str) : Result Rule :=
  match hk : Str.splitOnce ',' line with
  | none => .error (.config s!"malformed logic rule {Str.debug line}")
  | some (kind, rest) =>
    match hr : Str.trim rest with
    | '(' :: cs =>
      match hg : splitGroup 1 cs with
      | none => .error (.config s!"unbalanced parens in {Str.debug line}")
      | some (group, after) =>
        let payload := Str.trim group
        let outbound := Str.trim (Str.trimStartMatches ',' (Str.trim after))
        if payload = [] then .error (.config s!"logic rule has no sub-rules: {Str.debug line}")
        else do
          -- a missing outbound (nested form) gets a stub
          let outbound := if outbound = [] then ['-'] else outbound
          let sub ← (splitSubRules payload).attach.mapM fun s =>
            have := length_subRule hk hr hg s.2
            parseSubRule re s.1
          if sub = [] then .error (.config s!"logic rule has no sub-rules: {Str.debug line}")
          else if logicMode kind = .not ∧ 1 < sub.length then
            .error (.config s!"NOT rule takes exactly one sub-rule: {Str.debug line}")
          else return .mk (.logic (logicMode kind) sub) outbound
    | _ => .error (.config s!"logic rule payload must be parenthesized: {Str.debug line}")
termination_by 3 * line.length

/-- A sub-rule carries no outbound, so a stub target is appended. -/
def parseSubRule (re : Regex) (s : Str) : Result Rule :=
  let body := stripParens s
  have := length_stripParens_le s
  if body = [] then .error (.config "empty logic sub-rule")
  else if isLogicHead (ruleHead body) then parseLogic re body
  else parse re (body ++ [',', '-'])
termination_by 3 * (s.length + 2) + 2

/-- `TYPE,payload,outbound[,no-resolve]`, and the logic forms. -/
def parse (re : Regex) (line : Str) : Result Rule :=
  let line' := Str.trim line
  have := length_trim_le line
  if line' = [] ∨ line'.head? = some '#' then .error (.config "empty rule")
  else if isLogicHead (ruleHead line') then parseLogic re line'
  else parsePlain re line'
termination_by 3 * line.length + 1

end

theorem parse_of_plain (re : Regex) {line : Str} (ht : Str.trim line = line)
    (hne : ¬ (line = [] ∨ line.head? = some '#')) (hl : isLogicHead (ruleHead line) = false) :
    parse re line = parsePlain re line := by
  rw [parse, ht, if_neg hne, if_neg (by rw [hl]; exact Bool.false_ne_true)]

end RustCrash.Routing
