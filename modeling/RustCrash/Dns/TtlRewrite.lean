import RustCrash.Dns.WireChecked

/-
  What `rewrite_ttl` overwrites.

  `ttlWalk` is its walk over the answers without the writes: where the TTL fields are that it
  reaches, and how it ends. No write changes what is still to be read, so the message after
  `rewrite_ttl` is the one before with these fields overwritten (`rewriteTtl_eq`).
-/

namespace RustCrash.Lib

/-! ## The same bytes at several places -/

/-- The bytes `bs` at each of the places. -/
def overwriteAll (bs : Bytes) (ps : List Nat) (raw : Bytes) : Bytes :=
  ps.foldl (fun r p => setBytes r p bs) raw

variable {raw bs : Bytes} {ps : List Nat} {p i : Nat}

theorem getElem?_setBytes_of_not_mem (hp : p + bs.length ≤ raw.length)
    (hi : i < p ∨ p + bs.length ≤ i) : (setBytes raw p bs)[i]? = raw[i]? := by
  rcases hi with hi | hi
  · have h := congrArg (fun l => l[i]?) (take_setBytes hp (le_refl p))
    simpa [List.getElem?_take, hi] using h
  · have h := congrArg (fun l => l[i - (p + bs.length)]?) (drop_setBytes hp (le_refl _))
    simpa [List.getElem?_drop, Nat.add_sub_cancel' hi] using h

theorem slice_setBytes (hp : p + bs.length ≤ raw.length) :
    ((setBytes raw p bs).drop p).take bs.length = bs := by
  unfold setBytes
  rw [List.append_assoc, List.drop_left' (by rw [List.length_take]; omega), List.take_left' rfl]

theorem setBytes_self (hp : p + bs.length ≤ raw.length) (h : (raw.drop p).take bs.length = bs) :
    setBytes raw p bs = raw := by
  unfold setBytes
  rw [← h, List.length_take, List.length_drop, Nat.min_eq_left (by omega), ← List.drop_drop,
    List.append_assoc, List.take_append_drop, List.take_append_drop]

theorem length_overwriteAll (hfit : ∀ p ∈ ps, p + bs.length ≤ raw.length) :
    (overwriteAll bs ps raw).length = raw.length := by
  induction ps generalizing raw with
  | nil => rfl
  | cons p ps ih =>
    have hlen := length_setBytes (hfit p List.mem_cons_self)
    have hrest : ∀ q ∈ ps, q + bs.length ≤ (setBytes raw p bs).length := fun q hq => by
      rw [hlen]
      exact hfit q (List.mem_cons_of_mem p hq)
    exact (ih hrest).trans hlen

/-- Nothing else is touched. -/
theorem getElem?_overwriteAll (hfit : ∀ p ∈ ps, p + bs.length ≤ raw.length)
    (hi : ∀ p ∈ ps, i < p ∨ p + bs.length ≤ i) : (overwriteAll bs ps raw)[i]? = raw[i]? := by
  induction ps generalizing raw with
  | nil => rfl
  | cons p ps ih =>
    have hp := hfit p List.mem_cons_self
    have hrest : ∀ q ∈ ps, q + bs.length ≤ (setBytes raw p bs).length := fun q hq => by
      rw [length_setBytes hp]
      exact hfit q (List.mem_cons_of_mem p hq)
    have hsame := getElem?_setBytes_of_not_mem hp (hi p List.mem_cons_self)
    exact (ih hrest fun q hq => hi q (List.mem_cons_of_mem p hq)).trans hsame

/-- Places that do not overlap all hold the bytes afterwards. -/
theorem slice_overwriteAll (hfit : ∀ p ∈ ps, p + bs.length ≤ raw.length)
    (happart : ps.Pairwise fun p q => p + bs.length ≤ q) (hp : p ∈ ps) :
    ((overwriteAll bs ps raw).drop p).take bs.length = bs := by
  induction ps generalizing raw with
  | nil => cases hp
  | cons q ps ih =>
    have hq := hfit q List.mem_cons_self
    have hrest : ∀ x ∈ ps, x + bs.length ≤ (setBytes raw q bs).length := fun x hx => by
      rw [length_setBytes hq]
      exact hfit x (List.mem_cons_of_mem q hx)
    obtain ⟨hahead, hpairs⟩ := List.pairwise_cons.mp happart
    rcases List.mem_cons.mp hp with rfl | hp
    · -- the later places are behind this one
      conv => rhs; rw [← slice_setBytes hq]
      apply List.ext_getElem?
      intro i
      simp only [List.getElem?_take, List.getElem?_drop]
      split_ifs with hi
      · refine getElem?_overwriteAll hrest fun x hx => ?_
        have := hahead x hx
        omega
      · rfl
    · exact ih hrest hpairs hp

theorem overwriteAll_self (hfit : ∀ p ∈ ps, p + bs.length ≤ raw.length)
    (h : ∀ p ∈ ps, (raw.drop p).take bs.length = bs) : overwriteAll bs ps raw = raw := by
  induction ps with
  | nil => rfl
  | cons p ps ih =>
    unfold overwriteAll
    rw [List.foldl_cons, setBytes_self (hfit p List.mem_cons_self) (h p List.mem_cons_self)]
    exact ih (fun q hq => hfit q (List.mem_cons_of_mem p hq))
      fun q hq => h q (List.mem_cons_of_mem p hq)

end RustCrash.Lib

namespace RustCrash.Dns

open Lib

variable {raw raw' : Bytes} {n off : Nat} {ttl : UInt32}

/-! ## The walk -/

/-- The TTL fields that the loop over the answers reaches, and its result. -/
def ttlWalk (msg : Bytes) : Nat → Nat → List Nat × Result Unit
  | 0, _ => ([], .ok ())
  | n + 1, off =>
    match skipName msg off with
    | .error e => ([], .error e)
    | .ok off =>
      if msg.length < off + 10 then ([], .error (.dns "truncated record"))
      else
        let stop := off + 10 + (u16At msg (off + 8)).toNat
        if msg.length < stop then ([off + 4], .error (.dns "truncated rdata"))
        else
          let rest := ttlWalk msg n stop
          ((off + 4) :: rest.1, rest.2)

/-- The walk of `rewrite_ttl` over a message. -/
def walked (msg : Bytes) : List Nat × Result Unit :=
  if msg.length < 12 then ([], .error (.dns "message shorter than header"))
  else
    match skipQuestions msg (u16At msg 4).toNat 12 with
    | .error e => ([], .error e)
    | .ok off => ttlWalk msg (u16At msg 6).toNat off

/-- The fields are behind the start, apart, and whole. -/
theorem ttlWalk_places (msg : Bytes) (n off : Nat) :
    (∀ p ∈ (ttlWalk msg n off).1, off + 4 ≤ p ∧ p + 4 ≤ msg.length) ∧
      (ttlWalk msg n off).1.Pairwise fun p q => p + 4 ≤ q := by
  induction n generalizing off with
  | zero => simp [ttlWalk]
  | succ n ih =>
    unfold ttlWalk
    cases hs : skipName msg off with
    | error e => simp
    | ok o =>
      have hbounds := skipName_bounds hs
      dsimp only
      split_ifs with hroom hdata
      · simp
      · simp
        omega
      · obtain ⟨hplaces, hpairs⟩ := ih (o + 10 + (u16At msg (o + 8)).toNat)
        refine ⟨fun p hp => ?_, List.pairwise_cons.mpr ⟨fun p hp => ?_, hpairs⟩⟩
        · rcases List.mem_cons.mp hp with rfl | hp
          · omega
          · have := hplaces p hp
            omega
        · have := hplaces p hp
          omega

/-- Nothing before the start matters. -/
theorem ttlWalk_drop {p : Nat} (hlen : raw'.length = raw.length) (hd : raw'.drop p = raw.drop p)
    (n : Nat) {off : Nat} (hp : p ≤ off) : ttlWalk raw' n off = ttlWalk raw n off := by
  induction n generalizing off with
  | zero => rfl
  | succ n ih =>
    unfold ttlWalk
    rw [skipName_drop hlen hd hp, hlen]
    cases hs : skipName raw off with
    | error e => rfl
    | ok o =>
      have hbounds := skipName_bounds hs
      dsimp only
      rw [u16At_of_drop_eq hd (by omega), ih (by omega)]

/-- The loop overwrites the fields of its walk. -/
theorem rewriteRecords_eq (ttl : UInt32) (n : Nat) (msg : Bytes) (off : Nat) :
    rewriteRecords ttl n msg off =
      (overwriteAll (be32 ttl) (ttlWalk msg n off).1 msg, (ttlWalk msg n off).2) := by
  induction n generalizing msg off with
  | zero => rfl
  | succ n ih =>
    unfold rewriteRecords ttlWalk
    cases hs : skipName msg off with
    | error e => rfl
    | ok o =>
      dsimp only
      by_cases hroom : msg.length < o + 10
      · simp [hroom, overwriteAll]
      have hfit : o + 4 + (be32 ttl).length ≤ msg.length := by
        rw [length_be32]
        omega
      have hlen := length_setBytes hfit
      have hd : (setBytes msg (o + 4) (be32 ttl)).drop (o + 8) = msg.drop (o + 8) :=
        drop_setBytes hfit (by rw [length_be32])
      rw [if_neg hroom, if_neg hroom, hlen, u16At_of_drop_eq hd (le_refl _)]
      by_cases hdata : msg.length < o + 10 + (u16At msg (o + 8)).toNat
      · simp [hdata, overwriteAll]
      · rw [if_neg hdata, if_neg hdata, ih, ttlWalk_drop hlen hd n (by omega)]
        rfl

theorem rewriteTtl_eq (msg : Bytes) (ttl : UInt32) :
    rewriteTtl msg ttl = (overwriteAll (be32 ttl) (walked msg).1 msg, (walked msg).2) := by
  unfold rewriteTtl walked
  split_ifs
  · rfl
  · cases skipQuestions msg (u16At msg 4).toNat 12 with
    | error e => rfl
    | ok off => exact rewriteRecords_eq ttl _ msg off

theorem walked_places (msg : Bytes) : (∀ p ∈ (walked msg).1, p + 4 ≤ msg.length) ∧
    (walked msg).1.Pairwise fun p q => p + 4 ≤ q := by
  unfold walked
  split_ifs
  · simp
  · cases skipQuestions msg (u16At msg 4).toNat 12 with
    | error e => simp
    | ok off =>
      obtain ⟨hplaces, hpairs⟩ := ttlWalk_places msg (u16At msg 6).toNat off
      exact ⟨fun p hp => (hplaces p hp).2, hpairs⟩

/-! ## The records of the parser -/

/-- Where `parse` finds the TTLs of the `n` records at an offset. -/
def parsedTtls (raw : Bytes) : Nat → Nat → List Nat
  | 0, _ => []
  | n + 1, off =>
    match readName raw off with
    | .error _ => []
    | .ok (_, used) =>
      (off + used + 4) ::
        parsedTtls raw n (off + used + 10 + (u16At raw (off + used + 8)).toNat)

/-- Where `parse` finds the TTLs of the first ANCOUNT records. -/
def answerTtls (raw : Bytes) : List Nat :=
  match readQuestions raw (u16At raw 4).toNat 12 with
  | .error _ => []
  | .ok (_, off) => parsedTtls raw (u16At raw 6).toNat off

/-- The first records that are read: their TTLs, and the walk over them. -/
theorem ttlWalk_of_read {k : Nat} {rs : List ResourceRecord} {stop : Nat} (hk : k ≤ n)
    (h : readRecords raw n off = .ok (rs, stop)) :
    ttlWalk raw k off = (parsedTtls raw k off, .ok ()) ∧
      (parsedTtls raw k off).map (u32At raw) = (rs.take k).map (·.ttl) := by
  induction k generalizing n off rs with
  | zero => simp [ttlWalk, parsedTtls]
  | succ k ih =>
    obtain ⟨n, rfl⟩ : ∃ m, n = m + 1 := ⟨n - 1, by omega⟩
    unfold readRecords at h
    obtain ⟨⟨name, used⟩, hname, h⟩ := bind_eq_ok.mp h
    dsimp only at h
    by_cases hroom : raw.length < off + used + 10
    · rw [if_pos hroom] at h
      cases h
    rw [if_neg hroom] at h
    by_cases hdata : raw.length < off + used + 10 + (u16At raw (off + used + 8)).toNat
    · rw [if_pos hdata] at h
      cases h
    rw [if_neg hdata] at h
    obtain ⟨⟨rs', stop'⟩, hrs, h⟩ := bind_eq_ok.mp h
    cases h
    obtain ⟨hwalk, httls⟩ := ih (by omega) hrs
    unfold ttlWalk parsedTtls
    rw [skipName_of_readName hname, hname]
    simp [hroom, hdata, hwalk, httls]

/-- On a message that `parse` accepts, the fields are those of the first ANCOUNT records. -/
theorem walked_of_parse {m : DnsMessage} (h : parse raw = .ok m) (hsum : countSum raw < 2 ^ 16) :
    walked raw = (answerTtls raw, .ok ()) ∧
      (answerTtls raw).map (u32At raw) = (m.answers.take (u16At raw 6).toNat).map (·.ttl) := by
  unfold parse at h
  by_cases hheader : raw.length < 12
  · rw [if_pos hheader] at h
    cases h
  rw [if_neg hheader] at h
  obtain ⟨⟨qs, mid⟩, hqs, h⟩ := bind_eq_ok.mp h
  obtain ⟨⟨rs, stop⟩, hrs, h⟩ := bind_eq_ok.mp h
  cases h
  rw [toNat_countSum hsum] at hrs
  have hle : (u16At raw 6).toNat ≤ countSum raw := by
    unfold countSum
    omega
  unfold walked answerTtls
  rw [if_neg hheader, hqs, skipQuestions_of_read hqs]
  exact ttlWalk_of_read hle hrs

/-! ## The result -/

/-- `out` is `raw` with `ttl` at each of the places. -/
structure OnlyTtls (raw out : Bytes) (places : List Nat) (ttl : UInt32) : Prop where
  length : out.length = raw.length
  becomes : ∀ p ∈ places, u32At out p = ttl
  rest : ∀ i, (∀ p ∈ places, i < p ∨ p + 4 ≤ i) → out[i]? = raw[i]?

/-- An accepted message gets the TTL in its answers and nothing else, and a refused one stays as
    it was. -/
structure RewritesTtls (raw : Bytes) (ttl : UInt32) : Prop where
  accepts : ∀ m, parse raw = .ok m → countSum raw < 2 ^ 16 → (rewriteTtl raw ttl).2 = .ok ()
  answers : ∀ m, parse raw = .ok m → countSum raw < 2 ^ 16 →
    (answerTtls raw).map (u32At raw) = (m.answers.take (u16At raw 6).toNat).map (·.ttl) ∧
      OnlyTtls raw (rewriteTtl raw ttl).1 (answerTtls raw) ttl
  refuses : ∀ e, (rewriteTtl raw ttl).2 = .error e → (rewriteTtl raw ttl).1 = raw

/-- The walk over the unchanged message reaches the end of the answers. -/
def WalkEnds (raw : Bytes) : Prop := (walked raw).2 = .ok ()

/-- Every TTL field that the walk reaches holds `ttl` already. -/
def HoldsTtl (raw : Bytes) (ttl : UInt32) : Prop := ∀ p ∈ (walked raw).1, u32At raw p = ttl

theorem onlyTtls_walked (raw : Bytes) (ttl : UInt32) :
    OnlyTtls raw (rewriteTtl raw ttl).1 (walked raw).1 ttl := by
  obtain ⟨hfit, happart⟩ := walked_places raw
  rw [← length_be32 ttl] at hfit happart
  rw [rewriteTtl_eq]
  refine ⟨length_overwriteAll hfit, fun p hp => ?_, fun i hi => getElem?_overwriteAll hfit ?_⟩
  · have hslice := slice_overwriteAll hfit happart hp
    rw [length_be32] at hslice
    unfold u32At
    rw [hslice, ofBE32_be32]
  · rw [length_be32]
    exact hi

theorem unchanged_iff (raw : Bytes) (ttl : UInt32) :
    (rewriteTtl raw ttl).1 = raw ↔ HoldsTtl raw ttl := by
  constructor
  · intro hsame p hp
    have hbecomes := (onlyTtls_walked raw ttl).becomes p hp
    rwa [hsame] at hbecomes
  · intro hholds
    obtain ⟨hfit, _⟩ := walked_places raw
    rw [← length_be32 ttl] at hfit
    rw [rewriteTtl_eq]
    apply overwriteAll_self hfit
    intro p hp
    have hp4 := hfit p hp
    rw [length_be32] at hp4 ⊢
    rw [← hholds p hp]
    refine (be32_ofBE32 ?_).symm
    rw [List.length_take, List.length_drop]
    omega

/-- Exactly when the walk ends, or finds only TTLs that are right already. -/
theorem ttl_rewrite_iff (raw : Bytes) (ttl : UInt32) :
    RewritesTtls raw ttl ↔ WalkEnds raw ∨ HoldsTtl raw ttl := by
  have hresult : (rewriteTtl raw ttl).2 = (walked raw).2 := by rw [rewriteTtl_eq]
  constructor
  · intro h
    cases hend : (walked raw).2 with
    | ok u => exact .inl hend
    | error e => exact .inr ((unchanged_iff raw ttl).mp (h.refuses e (hresult.trans hend)))
  · intro h
    refine ⟨fun m hm hsum => ?_, fun m hm hsum => ?_, fun e he => ?_⟩
    · rw [hresult, (walked_of_parse hm hsum).1]
    · obtain ⟨hwalked, httls⟩ := walked_of_parse hm hsum
      have honly := onlyTtls_walked raw ttl
      rw [hwalked] at honly
      exact ⟨httls, honly⟩
    · rcases h with hend | hholds
      · rw [hresult, hend] at he
        cases he
      · exact (unchanged_iff raw ttl).mpr hholds

/-- Two answers are announced, and the message ends behind the first one, which has no data. -/
def cutAnswers : Bytes :=
  [0, 1, 0x81, 0x80, 0, 0, 0, 2, 0, 0, 0, 0, 0, 0, 1, 0, 1, 0, 0, 0, 0, 0, 0]

theorem walked_cutAnswers :
    walked cutAnswers = ([17], .error (.dns "name runs past end")) := by
  have hname : skipName cutAnswers 12 = .ok 13 := by
    rw [skipName_eq]
    rfl
  have hpast : skipName cutAnswers 23 = .error (.dns "name runs past end") := by
    rw [skipName_eq]
    rfl
  have hwalk : ttlWalk cutAnswers 2 12 = ([17], .error (.dns "name runs past end")) := by
    unfold ttlWalk
    rw [hname]
    dsimp only
    rw [if_neg (by decide), if_neg (by decide)]
    unfold ttlWalk
    rw [show 13 + 10 + (u16At cutAnswers (13 + 8)).toNat = 23 by decide, hpast]
  exact hwalk

/-- The first TTL is written before the second answer is found missing. -/
theorem cutAnswers_changed : ¬ RewritesTtls cutAnswers 300 := by
  intro h
  have hresult : rewriteTtl cutAnswers 300 =
      (setBytes cutAnswers 17 (be32 300), .error (.dns "name runs past end")) := by
    rw [rewriteTtl_eq, walked_cutAnswers]
    rfl
  have hsame := h.refuses (.dns "name runs past end") (by rw [hresult])
  rw [hresult] at hsame
  exact absurd hsame (by decide)

end RustCrash.Dns
