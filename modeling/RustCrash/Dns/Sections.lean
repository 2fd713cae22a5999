import RustCrash.Dns.Resolver
import RustCrash.Dns.WireResponse

/-
  The records of a message without their names: type and data, section by section.

  Names are stepped past with `skipName`, so no pointer is followed and nothing depends on
  bytes elsewhere. `parse` reads the same records (`parse_records`), and overwriting the id
  changes none of them (`recordsAt_setId`).
-/

namespace RustCrash.Dns

open Lib

/-- `n` records from an offset, and where they end. -/
def sectionRecords (msg : Bytes) : Nat → Nat → Result (List (UInt16 × Bytes) × Nat)
  | 0, off => .ok ([], off)
  | n + 1, off => do
    let off ← skipName msg off
    ensure (off + 10 ≤ msg.length) (.dns "truncated record")
    let rdlen := (u16At msg (off + 8)).toNat
    ensure (off + 10 + rdlen ≤ msg.length) (.dns "truncated rdata")
    let (rs, off') ← sectionRecords msg n (off + 10 + rdlen)
    return ((u16At msg off, (msg.drop (off + 10)).take rdlen) :: rs, off')

/-- The first `n` records after the questions. -/
def recordsAt (msg : Bytes) (n : Nat) : Result (List (UInt16 × Bytes)) := do
  let off ← skipQuestions msg (u16At msg 4).toNat 12
  let (rs, _) ← sectionRecords msg n off
  return rs

/-- How many records `parse` reads: the three counts, added as `u16`. -/
def recordCount (msg : Bytes) : Nat := (u16At msg 6 + u16At msg 8 + u16At msg 10).toNat

/-- The records `parse` lists. -/
def listedRecords (msg : Bytes) : Result (List (UInt16 × Bytes)) := recordsAt msg (recordCount msg)

/-- The records of the answer section. -/
def answerRecords (msg : Bytes) : Result (List (UInt16 × Bytes)) := recordsAt msg (u16At msg 6).toNat

/-! ## Names -/

/-- One name step, without the proof the recursion carries. -/
theorem skipName_eq (msg : Bytes) (off : Nat) :
    skipName msg off =
      match msg[off]? with
      | none => .error (.dns "name runs past end")
      | some b =>
        if b.toNat &&& 0xC0 = 0x00 then
          if b.toNat = 0 then .ok (off + 1)
          else if msg.length < off + 1 + b.toNat then .error (.dns "label runs past end")
          else skipName msg (off + 1 + b.toNat)
        else if b.toNat &&& 0xC0 = 0xC0 then
          if msg.length < off + 2 then .error (.dns "truncated pointer") else .ok (off + 2)
        else .error (.dns "reserved label type") := by
  conv => lhs; rw [skipName]
  split <;> rename_i h <;> rw [h]

variable {raw raw' : Bytes} {p i : Nat}

theorem getElem?_of_drop_eq (h : raw'.drop p = raw.drop p) (hi : p ≤ i) : raw'[i]? = raw[i]? := by
  have hget := congrArg (fun l => l[i - p]?) h
  simpa only [List.getElem?_drop, Nat.add_sub_cancel' hi] using hget

theorem drop_of_drop_eq (h : raw'.drop p = raw.drop p) (hi : p ≤ i) : raw'.drop i = raw.drop i := by
  rw [← Nat.add_sub_cancel' hi, ← List.drop_drop, ← List.drop_drop, h]

theorem getElem?_of_take_eq (h : raw'.take p = raw.take p) (hi : i < p) : raw'[i]? = raw[i]? := by
  rw [← List.getElem?_take_of_lt hi, h, List.getElem?_take_of_lt hi]

theorem take_of_take_eq (h : raw'.take p = raw.take p) (hi : i ≤ p) : raw'.take i = raw.take i := by
  rw [← Nat.min_eq_left hi, ← List.take_take, ← List.take_take, h]

/-- Nothing before the start matters. -/
theorem skipName_drop {p off : Nat} (hlen : raw'.length = raw.length)
    (hd : raw'.drop p = raw.drop p) (hp : p ≤ off) : skipName raw' off = skipName raw off := by
  induction hk : raw.length - off using Nat.strong_induction_on generalizing off with
  | _ k ih =>
    rw [skipName_eq raw', skipName_eq raw, getElem?_of_drop_eq hd hp, hlen]
    cases hb : raw[off]? with
    | none => rfl
    | some b =>
      have hoff : off < raw.length := (List.getElem?_eq_some_iff.mp hb).1
      dsimp only
      rw [ih (raw.length - (off + 1 + b.toNat)) (by omega) (by omega) rfl]

/-- Nothing after the end matters. -/
theorem skipName_take {off off' : Nat} (hlen : raw'.length = raw.length)
    (h : skipName raw off = .ok off') (ht : raw'.take off' = raw.take off') :
    skipName raw' off = .ok off' ∧ off < off' ∧ off' ≤ raw.length := by
  induction hk : raw.length - off using Nat.strong_induction_on generalizing off with
  | _ k ih =>
    have hrest := h
    rw [skipName_eq] at h
    cases hb : raw[off]? with
    | none =>
      rw [hb] at h
      cases h
    | some b =>
      have hoff : off < raw.length := (List.getElem?_eq_some_iff.mp hb).1
      rw [hb] at h
      dsimp only at h
      have hsame : off < off' → raw'[off]? = some b := fun hlt => by
        rw [getElem?_of_take_eq ht hlt, hb]
      split_ifs at h with hlabel hend hpast hptr hcut
      · cases h
        rw [skipName_eq, hsame (by omega)]
        dsimp only
        rw [if_pos hlabel, if_pos hend]
        exact ⟨rfl, by omega, by omega⟩
      · obtain ⟨hstep, hlt, hle⟩ := ih _ (by omega) h rfl
        rw [skipName_eq, hsame (by omega)]
        dsimp only
        rw [if_pos hlabel, if_neg hend, hlen, if_neg hpast]
        exact ⟨hstep, by omega, hle⟩
      · cases h
        rw [skipName_eq, hsame (by omega)]
        dsimp only
        rw [if_neg hlabel, if_pos hptr, hlen, if_neg hcut]
        exact ⟨rfl, by omega, by omega⟩

theorem skipName_bounds {raw : Bytes} {off off' : Nat} (h : skipName raw off = .ok off') :
    off < off' ∧ off' ≤ raw.length :=
  (skipName_take rfl h rfl).2

/-- Once a pointer was followed, the number of bytes taken is settled. -/
theorem readNameLoop_followed {raw : Bytes} {offset fuel pos consumed jumps used : Nat}
    {labels : List Str} {name : Str}
    (h : readNameLoop raw offset fuel pos consumed true jumps labels = some (.ok (name, used))) :
    used = consumed := by
  induction fuel generalizing pos jumps labels with
  | zero => cases h
  | succ fuel ih =>
    unfold readNameLoop at h
    cases hb : raw[pos]? with
    | none =>
      rw [hb] at h
      cases h
    | some b =>
      rw [hb] at h
      dsimp only at h
      rw [if_pos rfl, if_pos rfl, if_pos rfl] at h
      by_cases hlabel : b.toNat &&& 0xC0 = 0x00
      · rw [if_pos hlabel] at h
        split_ifs at h
        · cases h
          rfl
        · cases h
        · exact ih h
      · rw [if_neg hlabel] at h
        by_cases hptr : b.toNat &&& 0xC0 = 0xC0
        · rw [if_pos hptr] at h
          cases hlo : raw[pos + 1]? with
          | none =>
            rw [hlo] at h
            cases h
          | some lo =>
            rw [hlo] at h
            dsimp only at h
            split_ifs at h
            · cases h
            · cases h
            · exact ih h
        · rw [if_neg hptr] at h
          cases h

theorem skipName_of_readNameLoop {raw : Bytes} {offset fuel pos jumps used : Nat}
    {labels : List Str} {name : Str} (hpos : offset ≤ pos)
    (h : readNameLoop raw offset fuel pos (pos - offset) false jumps labels =
      some (.ok (name, used))) : skipName raw pos = .ok (offset + used) := by
  induction fuel generalizing pos jumps labels with
  | zero => cases h
  | succ fuel ih =>
    unfold readNameLoop at h
    rw [skipName_eq]
    cases hb : raw[pos]? with
    | none =>
      rw [hb] at h
      cases h
    | some b =>
      rw [hb] at h
      dsimp only at h ⊢
      rw [if_neg Bool.false_ne_true, if_neg Bool.false_ne_true, if_neg Bool.false_ne_true] at h
      by_cases hlabel : b.toNat &&& 0xC0 = 0x00
      · rw [if_pos hlabel] at h ⊢
        by_cases hend : b.toNat = 0
        · rw [if_pos hend] at h ⊢
          cases h
          congr 1
          omega
        · rw [if_neg hend] at h ⊢
          split_ifs at h ⊢
          · cases h
          · rw [show pos - offset + 1 + b.toNat = pos + 1 + b.toNat - offset by omega] at h
            exact ih (by omega) h
      · rw [if_neg hlabel] at h ⊢
        by_cases hptr : b.toNat &&& 0xC0 = 0xC0
        · rw [if_pos hptr] at h ⊢
          cases hlo : raw[pos + 1]? with
          | none =>
            rw [hlo] at h
            cases h
          | some lo =>
            have hroom : pos + 1 < raw.length := (List.getElem?_eq_some_iff.mp hlo).1
            rw [hlo] at h
            dsimp only at h
            split_ifs at h
            · cases h
            · cases h
            · rw [readNameLoop_followed h, if_neg (by omega)]
              congr 1
              omega
        · rw [if_neg hptr] at h
          cases h

/-- A name that is read is stepped past to the same place. -/
theorem skipName_of_readName {raw : Bytes} {off used : Nat} {name : Str}
    (h : readName raw off = .ok (name, used)) : skipName raw off = .ok (off + used) := by
  have heq := readName_eq raw off
  rw [h] at heq
  apply skipName_of_readNameLoop (le_refl off)
  rw [Nat.sub_self]
  exact heq

/-! ## Questions and records -/

theorem u16At_of_drop_eq (h : raw'.drop p = raw.drop p) (hi : p ≤ i) :
    u16At raw' i = u16At raw i := by
  unfold u16At
  rw [drop_of_drop_eq h hi]

theorem slice_of_take_eq {p i k : Nat} (h : raw'.take p = raw.take p) (hi : i + k ≤ p) :
    (raw'.drop i).take k = (raw.drop i).take k := by
  rw [List.take_drop, List.take_drop, take_of_take_eq h hi]

theorem u16At_of_take_eq (h : raw'.take p = raw.take p) (hi : i + 2 ≤ p) :
    u16At raw' i = u16At raw i := by
  unfold u16At
  rw [slice_of_take_eq h hi]

theorem skipQuestions_drop {p : Nat} (hlen : raw'.length = raw.length)
    (hd : raw'.drop p = raw.drop p) (n : Nat) {off : Nat} (hp : p ≤ off) :
    skipQuestions raw' n off = skipQuestions raw n off := by
  induction n generalizing off with
  | zero => rfl
  | succ n ih =>
    unfold skipQuestions
    rw [skipName_drop hlen hd hp, hlen]
    cases hs : skipName raw off with
    | error e => rfl
    | ok o =>
      have hbounds := skipName_bounds hs
      rw [bind_ok, bind_ok, ih (by omega)]

theorem skipQuestions_take (hlen : raw'.length = raw.length) {n off off' : Nat}
    (h : skipQuestions raw n off = .ok off') (ht : raw'.take off' = raw.take off') :
    skipQuestions raw' n off = .ok off' ∧ off ≤ off' := by
  induction n generalizing off with
  | zero =>
    cases h
    exact ⟨rfl, le_refl _⟩
  | succ n ih =>
    unfold skipQuestions at h ⊢
    obtain ⟨o, hs, h⟩ := bind_eq_ok.mp h
    obtain ⟨u, hroom, h⟩ := bind_eq_ok.mp h
    obtain ⟨hrest, hle⟩ := ih h
    obtain ⟨hstep, hlt, -⟩ := skipName_take hlen hs (take_of_take_eq ht (by omega))
    rw [hstep, bind_ok, hlen, hroom, bind_ok]
    exact ⟨hrest, by omega⟩

theorem skipQuestions_of_read {raw : Bytes} {n off off' : Nat} {qs : List Question}
    (h : readQuestions raw n off = .ok (qs, off')) : skipQuestions raw n off = .ok off' := by
  induction n generalizing off qs with
  | zero =>
    cases h
    rfl
  | succ n ih =>
    unfold readQuestions at h
    obtain ⟨⟨name, used⟩, hname, h⟩ := bind_eq_ok.mp h
    dsimp only at h
    split_ifs at h with hroom
    · cases h
    · obtain ⟨⟨qs', off''⟩, hqs, h⟩ := bind_eq_ok.mp h
      cases h
      unfold skipQuestions
      rw [skipName_of_readName hname, bind_ok, ensure_of (by omega), bind_ok, ih hqs]

theorem sectionRecords_drop {p : Nat} (hlen : raw'.length = raw.length)
    (hd : raw'.drop p = raw.drop p) (n : Nat) {off : Nat} (hp : p ≤ off) :
    sectionRecords raw' n off = sectionRecords raw n off := by
  induction n generalizing off with
  | zero => rfl
  | succ n ih =>
    unfold sectionRecords
    rw [skipName_drop hlen hd hp, hlen]
    cases hs : skipName raw off with
    | error e => rfl
    | ok o =>
      have hbounds := skipName_bounds hs
      rw [bind_ok, bind_ok, u16At_of_drop_eq hd (by omega), u16At_of_drop_eq hd (by omega),
        drop_of_drop_eq hd (by omega)]
      dsimp only
      rw [ih (by omega)]

theorem sectionRecords_of_read {raw : Bytes} {n off off' : Nat} {rs : List ResourceRecord}
    (h : readRecords raw n off = .ok (rs, off')) :
    sectionRecords raw n off = .ok (rs.map fun r => (r.rtype, r.rdata), off') := by
  induction n generalizing off rs with
  | zero =>
    cases h
    rfl
  | succ n ih =>
    unfold readRecords at h
    obtain ⟨⟨name, used⟩, hname, h⟩ := bind_eq_ok.mp h
    dsimp only at h
    by_cases hroom : raw.length < off + used + 10
    · rw [if_pos hroom] at h
      cases h
    rw [if_neg hroom] at h
    by_cases hdata : raw.length < off + used + 10 + (u16At raw (off + used + 8)).toNat
    · rw [if_pos hdata] at h
      cases h
    rw [if_neg hdata] at h
    obtain ⟨⟨rs', off''⟩, hrs, h⟩ := bind_eq_ok.mp h
    cases h
    unfold sectionRecords
    rw [skipName_of_readName hname, bind_ok, ensure_of (by omega), bind_ok]
    dsimp only
    rw [ensure_of (by omega), bind_ok, ih hrs, bind_ok, pure_eq, List.map_cons]

/-- The records of a message that parses. -/
theorem parse_records {raw : Bytes} {m : DnsMessage} (h : parse raw = .ok m) :
    listedRecords raw = .ok (m.answers.map fun r => (r.rtype, r.rdata)) := by
  unfold parse at h
  split_ifs at h
  · cases h
  · obtain ⟨⟨qs, off⟩, hqs, h⟩ := bind_eq_ok.mp h
    obtain ⟨⟨rs, off'⟩, hrs, h⟩ := bind_eq_ok.mp h
    cases h
    unfold listedRecords recordsAt recordCount
    rw [skipQuestions_of_read hqs, bind_ok, sectionRecords_of_read hrs]
    rfl

/-! ## Overwriting -/

theorem recordsAt_congr (hqd : u16At raw' 4 = u16At raw 4)
    (hq : skipQuestions raw' (u16At raw 4).toNat 12 = skipQuestions raw (u16At raw 4).toNat 12)
    (hs : ∀ off, skipQuestions raw (u16At raw 4).toNat 12 = .ok off →
      ∀ k, sectionRecords raw' k off = sectionRecords raw k off) (n : Nat) :
    recordsAt raw' n = recordsAt raw n := by
  unfold recordsAt
  rw [hqd, hq]
  cases hoff : skipQuestions raw (u16At raw 4).toNat 12 with
  | error e => rfl
  | ok off => rw [bind_ok, bind_ok, hs off hoff n]

theorem recordsAt_setId {raw : Bytes} (h : 2 ≤ raw.length) (id : UInt16) (n : Nat) :
    recordsAt (setBytes raw 0 (be16 id)) n = recordsAt raw n := by
  have hfit : 0 + (be16 id).length ≤ raw.length := by simpa using h
  have hlen := length_setBytes hfit
  have hd := drop_setBytes hfit (p := 2) (by simp)
  apply recordsAt_congr (u16At_of_drop_eq hd (by omega)) (skipQuestions_drop hlen hd _ (by omega))
  intro off hoff k
  have hle := (skipQuestions_take rfl hoff rfl).2
  exact sectionRecords_drop hlen hd k (by omega)

/-- One record, changed in neither type, length nor data. -/
theorem sectionRecords_step {off o : Nat} (hlen : raw'.length = raw.length)
    (hs : skipName raw off = .ok o) (ht : raw'.take (o + 4) = raw.take (o + 4))
    (hl : u16At raw' (o + 8) = u16At raw (o + 8))
    (hdata : (raw'.drop (o + 10)).take (u16At raw (o + 8)).toNat =
      (raw.drop (o + 10)).take (u16At raw (o + 8)).toNat)
    (hrest : o + 10 + (u16At raw (o + 8)).toNat ≤ raw.length → ∀ k,
      sectionRecords raw' k (o + 10 + (u16At raw (o + 8)).toNat) =
        sectionRecords raw k (o + 10 + (u16At raw (o + 8)).toNat)) (k : Nat) :
    sectionRecords raw' k off = sectionRecords raw k off := by
  cases k with
  | zero => rfl
  | succ k =>
    unfold sectionRecords
    rw [(skipName_take hlen hs (take_of_take_eq ht (by omega))).1, hs, hlen, bind_ok, bind_ok, hl]
    dsimp only
    rw [hdata, u16At_of_take_eq ht (by omega)]
    by_cases hroom : o + 10 + (u16At raw (o + 8)).toNat ≤ raw.length
    · rw [hrest hroom k]
    · rw [ensure_of_not hroom]
      rfl

theorem rewriteRecords_spec (ttl : UInt32) (n : Nat) (raw : Bytes) (off : Nat) :
    (rewriteRecords ttl n raw off).1.length = raw.length ∧
      (rewriteRecords ttl n raw off).1.take off = raw.take off ∧
      ∀ k, sectionRecords (rewriteRecords ttl n raw off).1 k off = sectionRecords raw k off := by
  induction n generalizing raw off with
  | zero => exact ⟨rfl, rfl, fun _ => rfl⟩
  | succ n ih =>
    unfold rewriteRecords
    cases hs : skipName raw off with
    | error e => exact ⟨rfl, rfl, fun _ => rfl⟩
    | ok o =>
      have hbounds := skipName_bounds hs
      dsimp only
      by_cases hroom : raw.length < o + 10
      · rw [if_pos hroom]
        exact ⟨rfl, rfl, fun _ => rfl⟩
      rw [if_neg hroom]
      have hfit : o + 4 + (be32 ttl).length ≤ raw.length := by
        rw [length_be32]
        omega
      have hlen := length_setBytes hfit
      have ht : (setBytes raw (o + 4) (be32 ttl)).take (o + 4) = raw.take (o + 4) :=
        take_setBytes hfit (le_refl _)
      have hd : (setBytes raw (o + 4) (be32 ttl)).drop (o + 8) = raw.drop (o + 8) :=
        drop_setBytes hfit (by rw [length_be32])
      generalize setBytes raw (o + 4) (be32 ttl) = msg at hlen ht hd ⊢
      have hl : u16At msg (o + 8) = u16At raw (o + 8) := u16At_of_drop_eq hd (le_refl _)
      have hdrop : msg.drop (o + 10) = raw.drop (o + 10) := drop_of_drop_eq hd (by omega)
      rw [hl, hlen]
      by_cases hdata : raw.length < o + 10 + (u16At raw (o + 8)).toNat
      · rw [if_pos hdata]
        refine ⟨hlen, take_of_take_eq ht (by omega), ?_⟩
        exact sectionRecords_step hlen hs ht hl (by rw [hdrop]) (fun hle => absurd hdata (by omega))
      · rw [if_neg hdata]
        obtain ⟨hlen', ht', hs'⟩ := ih msg (o + 10 + (u16At raw (o + 8)).toNat)
        have htake := (take_of_take_eq ht' (show o + 4 ≤ _ by omega)).trans ht
        refine ⟨hlen'.trans hlen, take_of_take_eq htake (by omega), ?_⟩
        apply sectionRecords_step (hlen'.trans hlen) hs htake
        · rw [u16At_of_take_eq ht' (by omega), hl]
        · rw [slice_of_take_eq ht' (le_refl _), hdrop]
        · intro hle k
          rw [hs' k, sectionRecords_drop hlen hd k (by omega)]

theorem rewriteTtl_spec (raw : Bytes) (ttl : UInt32) :
    (rewriteTtl raw ttl).1.length = raw.length ∧
      (rewriteTtl raw ttl).1.take 12 = raw.take 12 ∧
      ∀ n, recordsAt (rewriteTtl raw ttl).1 n = recordsAt raw n := by
  unfold rewriteTtl
  split_ifs
  · exact ⟨rfl, rfl, fun _ => rfl⟩
  cases hoff : skipQuestions raw (u16At raw 4).toNat 12 with
  | error e => exact ⟨rfl, rfl, fun _ => rfl⟩
  | ok off =>
    obtain ⟨hlen, ht, hs⟩ := rewriteRecords_spec ttl (u16At raw 6).toNat raw off
    obtain ⟨hq, hle⟩ := skipQuestions_take hlen hoff ht
    refine ⟨hlen, take_of_take_eq ht hle, fun n => ?_⟩
    apply recordsAt_congr (u16At_of_take_eq ht (by omega)) (hq.trans hoff.symm)
    intro o ho
    rw [hoff] at ho
    cases ho
    exact hs

end RustCrash.Dns
