import RustCrash.Lib.Net

/-
  Reading an address back from its text. `parseIpAddr_ipText` is the round trip for both
  families. The number lemmas are stated for any radix from 2 to 16: octets are read in
  radix 10 and hextets in radix 16.
-/

namespace RustCrash.Lib.Net

/-! ## Numbers in a radix -/

theorem toDigit_digitChar {b d : Nat} (hb : b ≤ 16) (hd : d < b) :
    toDigit b (Nat.digitChar d) = some d := by
  have h16 : ∀ d < 16, toDigit 16 (Nat.digitChar d) = some d := by decide
  have h := h16 d (by omega)
  unfold toDigit at h ⊢
  dsimp only at h ⊢
  rw [Option.filter_eq_some_iff] at h ⊢
  exact ⟨h.1, by simpa using hd⟩

theorem isDigit_digitChar {b d : Nat} (hb : b ≤ 16) (hd : d < b) :
    isDigit b (Nat.digitChar d) = true := by
  rw [isDigit, toDigit_digitChar hb hd]
  rfl

variable {c : Char} {s : Str} {gs : List Nat}

/-- Every character of a number is a digit of the radix. -/
theorem mem_toDigits {b : Nat} (h1 : 1 < b) (n : Nat) (h : c ∈ Nat.toDigits b n) :
    ∃ d, d < b ∧ c = Nat.digitChar d := by
  induction n using Nat.strongRecOn with
  | ind n ih =>
    rw [Nat.toDigits_eq_if h1] at h
    split_ifs at h with hn
    · exact ⟨n, hn, by simpa using h⟩
    · rw [List.mem_append, List.mem_singleton] at h
      rcases h with h | h
      · exact ih (n / b) (Nat.div_lt_self (by omega) h1) h
      · exact ⟨n % b, Nat.mod_lt _ (by omega), h⟩

theorem isDigit_of_mem_toDigits {b : Nat} (h1 : 1 < b) (hb : b ≤ 16) {n : Nat}
    (h : c ∈ Nat.toDigits b n) : isDigit b c = true := by
  obtain ⟨d, hd, rfl⟩ := mem_toDigits h1 n h
  exact isDigit_digitChar hb hd

theorem digitsValue_toDigits {b : Nat} (h1 : 1 < b) (hb : b ≤ 16) (n : Nat) :
    digitsValue b (Nat.toDigits b n) = n := by
  induction n using Nat.strongRecOn with
  | ind n ih =>
    rw [Nat.toDigits_eq_if h1]
    split_ifs with hn
    · simp [digitsValue, toDigit_digitChar hb hn]
    · have hm : n % b < b := Nat.mod_lt _ (by omega)
      have hi := ih (n / b) (Nat.div_lt_self (by omega) h1)
      unfold digitsValue at hi ⊢
      rw [List.foldl_append, hi]
      simp only [List.foldl_cons, List.foldl_nil, toDigit_digitChar hb hm, Option.getD_some]
      rw [Nat.mul_comm]
      exact Nat.div_add_mod n b

theorem head_toDigits {b : Nat} (h1 : 1 < b) (hb : b ≤ 16) {n : Nat} (hn : 0 < n) :
    (Nat.toDigits b n).head? ≠ some '0' := by
  induction n using Nat.strongRecOn with
  | ind n ih =>
    rw [Nat.toDigits_eq_if h1]
    split_ifs with hlt
    · have hd := toDigit_digitChar hb hlt
      intro h
      simp only [List.head?_cons, Option.some.injEq] at h
      rw [h] at hd
      have h0 : toDigit b '0' = some 0 := toDigit_digitChar (d := 0) hb (by omega)
      rw [h0, Option.some.injEq] at hd
      omega
    · have hdiv : 0 < n / b := Nat.div_pos (by omega) (by omega)
      rw [List.head?_append_of_ne_nil _ Nat.toDigits_ne_nil]
      exact ih (n / b) (Nat.div_lt_self (by omega) h1) hdiv

/-- The rest of the input does not continue a number. -/
def NoDigit (radix : Nat) (s : Str) : Prop := ∀ c, s.head? = some c → isDigit radix c = false

theorem noDigit_nil (radix : Nat) : NoDigit radix [] := by simp [NoDigit]

theorem noDigit_cons {radix : Nat} (h : isDigit radix c = false) : NoDigit radix (c :: s) := by
  intro x hx
  simp only [List.head?_cons, Option.some.injEq] at hx
  rw [← hx]
  exact h

theorem takeWhile_append_noDigit {radix : Nat} (ds rest : Str)
    (hd : ∀ c ∈ ds, isDigit radix c = true) (hr : NoDigit radix rest) :
    (ds ++ rest).takeWhile (isDigit radix) = ds ∧
      (ds ++ rest).dropWhile (isDigit radix) = rest := by
  induction ds with
  | nil =>
    cases rest with
    | nil => exact ⟨rfl, rfl⟩
    | cons c s =>
      have := hr c rfl
      simp [this]
  | cons d ds ih =>
    have hi := ih fun c hc => hd c (List.mem_cons_of_mem _ hc)
    have h0 := hd d List.mem_cons_self
    simp [h0, hi.1, hi.2]

theorem readNumber_toDigits {b k bound n : Nat} {zeros : Bool} (h1 : 1 < b) (hb : b ≤ 16)
    (hk : 0 < k) (hlen : n < b ^ k) (hn : n < bound) {rest : Str} (hr : NoDigit b rest) :
    readNumber b k zeros bound (Nat.toDigits b n ++ rest) = some (n, rest) := by
  obtain ⟨ht, hd⟩ := takeWhile_append_noDigit _ rest
    (fun c hc => isDigit_of_mem_toDigits h1 hb (n := n) hc) hr
  have hl : (Nat.toDigits b n).length ≤ k := (Nat.length_toDigits_le_iff h1 hk).mpr hlen
  unfold readNumber
  dsimp only
  rw [ht, hd, if_neg (by omega), if_neg Nat.toDigits_ne_nil, if_neg, digitsValue_toDigits h1 hb,
    if_pos hn]
  -- a leading zero with a second digit: the number would be 0, which has one digit
  rintro ⟨-, hz, h2⟩
  rcases Nat.eq_zero_or_pos n with rfl | hpos
  · rw [Nat.toDigits_zero] at h2
    exact absurd h2 (by decide)
  · exact head_toDigits h1 hb hpos hz

theorem readNumber_eq_none {b k bound : Nat} {zeros : Bool} (h : NoDigit b s) :
    readNumber b k zeros bound s = none := by
  obtain ⟨ht, -⟩ := takeWhile_append_noDigit [] s (by simp) h
  rw [List.nil_append] at ht
  unfold readNumber
  dsimp only
  rw [ht]
  simp

/-! ## IPv4 -/

theorem text4_eq (a : Ipv4Addr) : ∃ w x y z : UInt8, octets4 a = [w, x, y, z] ∧
    text4 a = Str.decimal w.toNat ++ '.' :: (Str.decimal x.toNat ++ '.' ::
      (Str.decimal y.toNat ++ '.' :: Str.decimal z.toNat)) := by
  match h : octets4 a, length_octets4 a with
  | [w, x, y, z], _ =>
    refine ⟨w, x, y, z, rfl, ?_⟩
    simp [text4, h, Str.join_cons_cons]

theorem isDigit_dot : isDigit 10 '.' = false := by decide

theorem isDigit_colon : isDigit 10 ':' = false ∧ isDigit 16 ':' = false := by decide

theorem readNumber_octet (b : UInt8) {rest : Str} (hr : NoDigit 10 rest) :
    readNumber 10 3 false 256 (Str.decimal b.toNat ++ rest) = some (b.toNat, rest) := by
  have hb : b.toNat < 256 := UInt8.toNat_lt b
  exact readNumber_toDigits (by decide) (by decide) (by decide) (by omega) hb hr

theorem readIpv4_text4 (a : Ipv4Addr) (rest : Str) (hr : NoDigit 10 rest) :
    readIpv4 (text4 a ++ rest) = some (a, rest) := by
  obtain ⟨w, x, y, z, ho, ht⟩ := text4_eq a
  have hdot : ∀ s, NoDigit 10 ('.' :: s) := fun s => noDigit_cons isDigit_dot
  have hbe : ofBE [w, x, y, z] =
      ((w.toNat * 256 + x.toNat) * 256 + y.toNat) * 256 + z.toNat := by
    simp only [ofBE, List.length_cons, List.length_nil]
    ring
  have hval : BitVec.ofNat 32 (((w.toNat * 256 + x.toNat) * 256 + y.toNat) * 256 + z.toNat) = a := by
    rw [← hbe, ← ho]
    exact ofOctets4_octets4 a
  rw [ht]
  simp only [List.append_assoc, List.cons_append]
  simp only [readIpv4, bind, Option.bind, pure, readNumber_octet _ (hdot _), readChar, if_true,
    readNumber_octet _ hr, hval]

theorem readChar_eq_some {s t : Str} (h : readChar c s = some t) : s = c :: t := by
  cases s with
  | nil => simp [readChar] at h
  | cons x xs =>
    by_cases hx : x = c
    · simp only [readChar, hx, if_true, Option.some.injEq] at h
      rw [hx, h]
    · simp [readChar, hx] at h

theorem readNumber_suffix {b k bound n : Nat} {zeros : Bool} {s t : Str}
    (h : readNumber b k zeros bound s = some (n, t)) : t <:+ s := by
  unfold readNumber at h
  dsimp only at h
  split_ifs at h
  simp only [Option.some.injEq, Prod.mk.injEq] at h
  rw [← h.2]
  exact List.dropWhile_suffix _

theorem readIpv4_of_noDigit (h : NoDigit 10 s) : readIpv4 s = none := by
  simp [readIpv4, readNumber_eq_none h]

/-- Without a dot there is no IPv4 address to read. -/
theorem readIpv4_eq_none (h : '.' ∉ s) : readIpv4 s = none := by
  cases hn : readNumber 10 3 false 256 s with
  | none => simp [readIpv4, hn]
  | some p =>
    obtain ⟨n, t⟩ := p
    have ht : '.' ∉ t := fun hm => h ((readNumber_suffix hn).subset hm)
    have hc : readChar '.' t = none := by
      cases hc : readChar '.' t with
      | none => rfl
      | some u =>
        rw [readChar_eq_some hc] at ht
        simp at ht
    simp [readIpv4, hn, hc]

/-! ## IPv6 -/

/-- Hextets that follow others: each behind its colon. -/
def hexTail (gs : List Nat) : Str := gs.flatMap fun g => ':' :: hex g

theorem hexJoin_cons (g : Nat) (gs : List Nat) : hexJoin (g :: gs) = hex g ++ hexTail gs := by
  induction gs generalizing g with
  | nil => simp [hexJoin, hexTail]
  | cons g' gs ih =>
    have hi := ih g'
    unfold hexJoin at hi ⊢
    rw [List.map_cons, List.map_cons, Str.join_cons_cons, ← List.map_cons, hi]
    simp [hexTail]

theorem mem_hex {g : Nat} (h : c ∈ hex g) : isDigit 16 c = true :=
  isDigit_of_mem_toDigits (by decide) (by decide) h

theorem dot_not_mem_hexTail (gs : List Nat) : '.' ∉ hexTail gs := by
  simp only [hexTail, List.mem_flatMap, List.mem_cons, not_exists, not_and, not_or]
  intro g _
  exact ⟨by decide, fun h => absurd (mem_hex h) (by decide)⟩

theorem dot_not_mem_hexJoin (gs : List Nat) : '.' ∉ hexJoin gs := by
  cases gs with
  | nil => simp [hexJoin]
  | cons g gs =>
    rw [hexJoin_cons, List.mem_append, not_or]
    exact ⟨fun h => absurd (mem_hex h) (by decide), dot_not_mem_hexTail gs⟩

/-- What may follow a list of hextets: the end, or `::`. -/
def HexEnd (s : Str) : Prop := s = [] ∨ ∃ t, s = ':' :: ':' :: t

theorem noDigit_of_hexEnd (h : HexEnd s) : NoDigit 16 s := by
  rcases h with rfl | ⟨t, rfl⟩
  · exact noDigit_nil _
  · exact noDigit_cons isDigit_colon.2

theorem noDigit_hexTail (h : HexEnd s) : NoDigit 16 (hexTail gs ++ s) := by
  cases gs with
  | nil => exact noDigit_of_hexEnd h
  | cons g gs => exact noDigit_cons isDigit_colon.2

theorem readNumber_hex {g : Nat} (hg : g < 65536) {rest : Str} (hr : NoDigit 16 rest) :
    readNumber 16 4 true 65536 (hex g ++ rest) = some (g, rest) :=
  readNumber_toDigits (by decide) (by decide) (by decide) (by omega) hg hr

/-- One hextet, and on. -/
theorem readGroups_step {n g : Nat} {first : Bool} {s t : Str} (hg : g < 65536)
    (hs : (if first then some s else readChar ':' s) = some (hex g ++ t))
    (hdot : '.' ∉ hex g ++ t) (ht : NoDigit 16 t) :
    readGroups (n + 1) first s =
      (g :: (readGroups n false t).1, (readGroups n false t).2.1, (readGroups n false t).2.2) := by
  rw [readGroups]
  dsimp only
  rw [hs, Option.bind_some, Option.bind_some, readIpv4_eq_none hdot, ite_self,
    readNumber_hex hg ht]

/-- The hextets end where neither a number nor an address follows. -/
theorem readGroups_stop {n : Nat} {first : Bool} (hs : HexEnd s) :
    readGroups n first s = ([], false, s) := by
  cases n with
  | zero => rfl
  | succ n =>
    have hsep : ∀ u, (if first then some s else readChar ':' s) = some u → NoDigit 16 u ∧
        NoDigit 10 u := by
      intro u hu
      rcases hs with rfl | ⟨t, rfl⟩
      · cases first <;> simp [readChar] at hu
        subst hu
        exact ⟨noDigit_nil _, noDigit_nil _⟩
      · cases first <;> simp only [readChar, if_true, Bool.false_eq_true, if_false,
          Option.some.injEq] at hu <;> subst hu <;>
          exact ⟨noDigit_cons isDigit_colon.2, noDigit_cons isDigit_colon.1⟩
    rw [readGroups]
    dsimp only
    cases hu : (if first then some s else readChar ':' s) with
    | none => simp
    | some u =>
      obtain ⟨h16, h10⟩ := hsep u hu
      rw [Option.bind_some, Option.bind_some, readIpv4_of_noDigit h10, ite_self,
        readNumber_eq_none h16]

theorem readGroups_hexTail (n : Nat) (rest : Str) (hn : gs.length ≤ n) (hg : ∀ g ∈ gs, g < 65536)
    (hr : HexEnd rest) (hdot : '.' ∉ rest) :
    readGroups n false (hexTail gs ++ rest) = (gs, false, rest) := by
  induction gs generalizing n with
  | nil => exact readGroups_stop hr
  | cons g gs ih =>
    cases n with
    | zero => simp at hn
    | succ n =>
      have hi := ih (n := n) (by simpa using hn) fun x hx => hg x (List.mem_cons_of_mem _ hx)
      have hsep : (if false then some (hexTail (g :: gs) ++ rest)
          else readChar ':' (hexTail (g :: gs) ++ rest)) = some (hex g ++ (hexTail gs ++ rest)) := by
        simp [hexTail, readChar]
      have hd : '.' ∉ hex g ++ (hexTail gs ++ rest) := by
        simp only [List.mem_append, not_or]
        exact ⟨fun h => absurd (mem_hex h) (by decide), dot_not_mem_hexTail gs, hdot⟩
      rw [readGroups_step (hg g List.mem_cons_self) hsep hd (noDigit_hexTail hr), hi]

theorem readGroups_hexJoin (n : Nat) (rest : Str) (hn : gs.length ≤ n) (hg : ∀ g ∈ gs, g < 65536)
    (hr : HexEnd rest) (hdot : '.' ∉ rest) :
    readGroups n true (hexJoin gs ++ rest) = (gs, false, rest) := by
  cases gs with
  | nil => exact readGroups_stop hr
  | cons g gs =>
    cases n with
    | zero => simp at hn
    | succ n =>
      have hi := readGroups_hexTail n rest (by simpa using hn)
        (fun x hx => hg x (List.mem_cons_of_mem _ hx)) hr hdot
      have hsep : (if true then some (hexJoin (g :: gs) ++ rest)
          else readChar ':' (hexJoin (g :: gs) ++ rest)) = some (hex g ++ (hexTail gs ++ rest)) := by
        simp [hexJoin_cons]
      have hd : '.' ∉ hex g ++ (hexTail gs ++ rest) := by
        simp only [List.mem_append, not_or]
        exact ⟨fun h => absurd (mem_hex h) (by decide), dot_not_mem_hexTail gs, hdot⟩
      rw [readGroups_step (hg g List.mem_cons_self) hsep hd (noDigit_hexTail hr), hi]

/-! ## The longest run of zeros -/

/-- A run of zeros of `gs` inside its first `i` entries. -/
def ZeroRun (gs : List Nat) (i : Nat) (r : Nat × Nat) : Prop :=
  r.1 + r.2 ≤ i ∧ ∀ j, r.1 ≤ j → j < r.1 + r.2 → gs[j]? = some 0

/-- The longest run found is a run of zeros. -/
theorem longestZeros_zeroRun (gs : List Nat) : ZeroRun gs gs.length (longestZeros gs) := by
  -- after each prefix: the run being read ends at the prefix, and both runs are zeros
  have key : ∀ (post pre : List Nat) (cur best : Nat × Nat), gs = pre ++ post →
      (0 < cur.2 → cur.1 + cur.2 = pre.length) → (cur.2 = 0 → cur.1 = 0) →
      ZeroRun gs pre.length cur → ZeroRun gs pre.length best →
      ZeroRun gs gs.length (post.foldl (fun (st : Nat × (Nat × Nat) × (Nat × Nat)) (g : Nat) =>
        if g = 0 then
          (st.1 + 1, (if st.2.1.2 = 0 then st.1 else st.2.1.1, st.2.1.2 + 1),
            if st.2.1.2 + 1 > st.2.2.2 then
              (if st.2.1.2 = 0 then st.1 else st.2.1.1, st.2.1.2 + 1) else st.2.2)
        else (st.1 + 1, (0, 0), st.2.2)) (pre.length, cur, best)).2.2 := by
    intro post
    induction post with
    | nil =>
      intro pre cur best hgs _ _ _ hb
      rw [hgs, List.append_nil]
      rw [hgs, List.append_nil] at hb
      exact hb
    | cons g post ih =>
      intro pre cur best hgs hc1 hc0 hcur hbest
      have hgs' : gs = (pre ++ [g]) ++ post := by simp [hgs]
      have hlen : (pre ++ [g]).length = pre.length + 1 := by simp
      have hmono : ∀ r, ZeroRun gs pre.length r → ZeroRun gs (pre.length + 1) r :=
        fun r hr => ⟨Nat.le_succ_of_le hr.1, hr.2⟩
      rw [List.foldl_cons, ← hlen]
      dsimp only
      by_cases hg : g = 0
      · rw [if_pos hg]
        have hat : gs[pre.length]? = some 0 := by simp [hgs, hg]
        have hnew : ZeroRun gs (pre.length + 1)
            (if cur.2 = 0 then pre.length else cur.1, cur.2 + 1) := by
          by_cases h0 : cur.2 = 0
          · rw [if_pos h0]
            refine ⟨by simp [h0], fun j h1 h2 => ?_⟩
            obtain rfl : j = pre.length := by simp [h0] at h1 h2; omega
            exact hat
          · rw [if_neg h0]
            have he := hc1 (by omega)
            refine ⟨by simp; omega, fun j h1 h2 => ?_⟩
            simp only at h1 h2
            rcases (by omega : j < cur.1 + cur.2 ∨ j = pre.length) with hj | rfl
            · exact hcur.2 j h1 hj
            · exact hat
        have hbest' : ZeroRun gs (pre.length + 1) (if cur.2 + 1 > best.2 then
            (if cur.2 = 0 then pre.length else cur.1, cur.2 + 1) else best) := by
          split_ifs
          · simpa [*] using hnew
          · simpa [*] using hnew
          · exact hmono _ hbest
        have := ih (pre ++ [g]) (if cur.2 = 0 then pre.length else cur.1, cur.2 + 1)
          (if cur.2 + 1 > best.2 then
            (if cur.2 = 0 then pre.length else cur.1, cur.2 + 1) else best) hgs'
          (fun _ => by
            rw [hlen]
            by_cases h0 : cur.2 = 0
            · simp [h0]
            · have := hc1 (by omega)
              simp [h0]; omega)
          (fun h => absurd h (by simp)) (by rw [hlen]; exact hnew) (by rw [hlen]; exact hbest')
        exact this
      · rw [if_neg hg]
        exact ih (pre ++ [g]) (0, 0) best hgs' (fun h => absurd h (by simp)) (fun _ => rfl)
          ⟨by simp, fun j h1 h2 => absurd h2 (by simp)⟩ (by rw [hlen]; exact hmono _ hbest)
  exact key gs [] (0, 0) (0, 0) rfl (fun h => absurd h (by simp)) (fun _ => rfl)
    ⟨by simp, fun j h1 h2 => absurd h2 (by simp)⟩ ⟨by simp, fun j h1 h2 => absurd h2 (by simp)⟩

theorem zeroRun_split {r : Nat × Nat} (h : ZeroRun gs gs.length r) :
    gs = gs.take r.1 ++ List.replicate r.2 0 ++ gs.drop (r.1 + r.2) := by
  have hmid : (gs.drop r.1).take r.2 = List.replicate r.2 0 := by
    apply List.ext_getElem?
    intro j
    rw [List.getElem?_take, List.getElem?_drop, List.getElem?_replicate]
    split_ifs with hj
    · exact h.2 (r.1 + j) (by omega) (by omega)
    · rfl
  rw [← hmid, ← List.drop_drop, List.append_assoc, List.take_append_drop, List.take_append_drop]

/-! ## Addresses -/

theorem toNat_lt6 (a : Ipv6Addr) : a.toNat < 2 ^ 128 := a.isLt

theorem ofSegments_octets6 (a : Ipv6Addr) :
    ofOctets6 (ofSegments (segments (octets6 a))) = a := by
  rw [ofSegments_segments (k := 8) (length_octets6 a), ofOctets6_octets6]

theorem readIpv6_hexJoin (hl : gs.length = 8) (hg : ∀ g ∈ gs, g < 65536) :
    readIpv6 (hexJoin gs) = some (ofOctets6 (ofSegments gs), []) := by
  have h := readGroups_hexJoin 8 [] (by omega) hg (Or.inl rfl) (by simp)
  rw [List.append_nil] at h
  unfold readIpv6
  rw [h]
  exact if_pos hl

theorem readIpv6_compressed {p q : List Nat} {k : Nat} (hk : 0 < k)
    (hl : p.length + k + q.length = 8) (hp : ∀ g ∈ p, g < 65536) (hq : ∀ g ∈ q, g < 65536) :
    readIpv6 (hexJoin p ++ "::".toList ++ hexJoin q) =
      some (ofOctets6 (ofSegments (p ++ List.replicate k 0 ++ q)), []) := by
  have hrest : HexEnd ("::".toList ++ hexJoin q) := Or.inr ⟨hexJoin q, rfl⟩
  have hdot : '.' ∉ "::".toList ++ hexJoin q := by
    rw [List.mem_append, not_or]
    exact ⟨by decide, dot_not_mem_hexJoin q⟩
  have h1 := readGroups_hexJoin 8 ("::".toList ++ hexJoin q) (by omega) hp hrest hdot
  have h2 := readGroups_hexJoin (8 - (p.length + 1)) [] (by omega) hq
    (Or.inl rfl) (by simp)
  rw [List.append_nil] at h2
  have hz : 8 - p.length - q.length = k := by omega
  unfold readIpv6
  rw [List.append_assoc, h1]
  dsimp only
  rw [if_neg (by omega), if_neg (by simp)]
  have e : "::".toList ++ hexJoin q = ':' :: ':' :: hexJoin q := rfl
  simp only [e, readChar, if_true, bind, Option.bind, pure, h2, hz]

/-- The octets of an IPv4-mapped address: zeros, `ffff`, and the IPv4 octets. -/
theorem ofSegments_mapped {a : Ipv6Addr} {v : Ipv4Addr} (h : toIpv4Mapped a = some v) :
    ofOctets6 (ofSegments (List.replicate 5 0 ++ 0xFFFF :: segments (octets4 v))) = a := by
  unfold toIpv4Mapped at h
  split_ifs at h with ha
  simp only [Option.some.injEq] at h
  have hv : v.toNat = a.toNat % 2 ^ 32 := by rw [← h]; simp
  have hseg : ofSegments (List.replicate 5 0 ++ 0xFFFF :: segments (octets4 v)) =
      toBE 12 0xFFFF ++ octets4 v := by
    have h4 : ofSegments (segments (octets4 v)) = octets4 v :=
      ofSegments_segments (k := 2) (length_octets4 v)
    unfold ofSegments at h4 ⊢
    rw [List.flatMap_append, List.flatMap_cons, h4, ← List.append_assoc]
    rfl
  have hbe : ∀ xs ys : Bytes, ofBE (xs ++ ys) = ofBE xs * 256 ^ ys.length + ofBE ys := by
    intro xs ys
    induction xs with
    | nil => simp [ofBE]
    | cons x xs ih =>
      simp only [List.cons_append, ofBE, ih, List.length_append, Nat.pow_add, Nat.add_mul]
      rw [Nat.mul_assoc, Nat.add_assoc]
  have hoct : ofBE (octets4 v) = v.toNat := ofBE_toBE_of_lt (by simpa using v.isLt)
  apply BitVec.eq_of_toNat_eq
  rw [hseg, ofOctets6, hbe, hoct, ofBE_toBE_of_lt (by decide), length_octets4, hv,
    BitVec.toNat_ofNat]
  have := toNat_lt6 a
  omega

theorem readIpv6_mapped {a : Ipv6Addr} {v : Ipv4Addr} (h : toIpv4Mapped a = some v) :
    readIpv6 ("::ffff:".toList ++ text4 v) = some (a, []) := by
  have e : "::ffff:".toList ++ text4 v = ':' :: ':' :: (hex 0xFFFF ++ ':' :: text4 v) := rfl
  have h1 : readGroups 8 true ("::ffff:".toList ++ text4 v) =
      ([], false, "::ffff:".toList ++ text4 v) := readGroups_stop (Or.inr ⟨_, e⟩)
  have h4 : readIpv4 (text4 v) = some (v, []) := by
    simpa using readIpv4_text4 v [] (noDigit_nil _)
  -- the IPv4 reader stops at the first `f`, so the group is read as a hextet
  have hf : readIpv4 (hex 0xFFFF ++ ':' :: text4 v) = none :=
    readIpv4_of_noDigit (noDigit_cons (by decide))
  have hx : readNumber 16 4 true 65536 (hex 0xFFFF ++ ':' :: text4 v) =
      some (0xFFFF, ':' :: text4 v) :=
    readNumber_hex (by decide) (noDigit_cons isDigit_colon.2)
  have h2 : readGroups 7 true (hex 0xFFFF ++ ':' :: text4 v) =
      (0xFFFF :: segments (octets4 v), true, []) := by
    rw [readGroups]
    dsimp only
    rw [if_pos rfl, if_pos (by decide), Option.bind_some, hf, Option.bind_some, hx]
    dsimp only
    rw [readGroups]
    simp [readChar, h4]
  have hs : (segments (octets4 v)).length = 2 := length_segments (k := 2) (length_octets4 v)
  unfold readIpv6
  rw [h1]
  dsimp only
  rw [if_neg (by simp), if_neg (by simp), e]
  have h8 : 8 - (([] : List Nat).length + 1) = 7 := rfl
  have hz : 8 - ([] : List Nat).length - (65535 :: segments (octets4 v)).length = 5 := by
    simp [hs]
  simp only [readChar, if_true, bind, Option.bind, pure, h8, h2, hz, List.nil_append,
    ofSegments_mapped h]

theorem readIpv6_text6 (a : Ipv6Addr) : readIpv6 (text6 a) = some (a, []) := by
  unfold text6
  cases hm : toIpv4Mapped a with
  | some v => exact readIpv6_mapped hm
  | none =>
    have hl : (segments (octets6 a)).length = 8 := length_segments (k := 8) (length_octets6 a)
    have hg : ∀ g ∈ segments (octets6 a), g < 65536 := fun g hg => segments_lt hg
    dsimp only
    split_ifs with hlen
    · have hz := longestZeros_zeroRun (segments (octets6 a))
      have hsplit := zeroRun_split hz
      rw [readIpv6_compressed (k := (longestZeros (segments (octets6 a))).2) (by omega) ?_
        (fun g h => hg g (List.mem_of_mem_take h)) (fun g h => hg g (List.mem_of_mem_drop h)),
        ← hsplit, ofSegments_octets6]
      have := hz.1
      rw [List.length_take, List.length_drop]
      omega
    · rw [readIpv6_hexJoin hl hg, ofSegments_octets6]

theorem text6_head (a : Ipv6Addr) : readIpv4 (text6 a) = none := by
  unfold text6
  cases hm : toIpv4Mapped a with
  | some v => exact readIpv4_of_noDigit (noDigit_cons (by decide))
  | none =>
    dsimp only
    split_ifs
    · apply readIpv4_eq_none
      simp only [List.mem_append, not_or]
      exact ⟨⟨dot_not_mem_hexJoin _, by decide⟩, dot_not_mem_hexJoin _⟩
    · exact readIpv4_eq_none (dot_not_mem_hexJoin _)

/-- An address is read back from its text. -/
theorem parseIpAddr_ipText (a : IpAddr) : parseIpAddr (ipText a) = some a := by
  cases a with
  | v4 a =>
    have h := readIpv4_text4 a [] (noDigit_nil _)
    rw [List.append_nil] at h
    simp [parseIpAddr, readIpAddr, ipText, h, parseWith]
  | v6 a =>
    simp [parseIpAddr, readIpAddr, ipText, text6_head, readIpv6_text6, parseWith]

/-! ## The characters of an address -/

theorem slash_not_mem_text4 (a : Ipv4Addr) : '/' ∉ text4 a := by
  intro h
  rcases Str.mem_of_mem_join h with h | ⟨p, hp, hc⟩
  · exact absurd h (by decide)
  · obtain ⟨b, -, rfl⟩ := List.mem_map.mp hp
    exact absurd (Str.isDigit_of_mem_decimal hc) (by decide)

theorem slash_not_mem_hexJoin (gs : List Nat) : '/' ∉ hexJoin gs := by
  intro h
  rcases Str.mem_of_mem_join h with h | ⟨p, hp, hc⟩
  · exact absurd h (by decide)
  · obtain ⟨g, -, rfl⟩ := List.mem_map.mp hp
    exact absurd (mem_hex hc) (by decide)

theorem slash_not_mem_ipText (a : IpAddr) : '/' ∉ ipText a := by
  cases a with
  | v4 a => exact slash_not_mem_text4 a
  | v6 a =>
    show '/' ∉ text6 a
    unfold text6
    split
    · rw [List.mem_append, not_or]
      exact ⟨by decide, slash_not_mem_text4 _⟩
    · dsimp only
      split_ifs
      · simp only [List.mem_append, not_or]
        exact ⟨⟨slash_not_mem_hexJoin _, by decide⟩, slash_not_mem_hexJoin _⟩
      · exact slash_not_mem_hexJoin _

end RustCrash.Lib.Net
