import RustCrash.Hysteria2.Qpack

/-
  The dynamic table over every run of the encoder stream.

  Whatever the instructions are, the entries are the last ones inserted, the size is the sum of
  theirs and below the capacity, and `insert_count` is the number of inserts modulo `2^64`
  (`Stored`). While the number is smaller, an absolute index names what was inserted under it.

  A field section means what its lines say with indexes in unbounded numbers
  (`sectionMeaning`).
-/

namespace RustCrash.Hysteria2

open Lib

namespace QpackDecoder

variable {s t : QpackDecoder}

/-! ## Eviction -/

theorem evictOldest_spec (cap : Nat) {es : List Entry} {size : Nat}
    (hsize : size = (es.map entrySize).sum) :
    (evictOldest cap es size).1 <:+ es ∧
      (evictOldest cap es size).2 = ((evictOldest cap es size).1.map entrySize).sum ∧
      (evictOldest cap es size).2 ≤ cap := by
  induction es generalizing size with
  | nil =>
    rw [hsize]
    exact ⟨List.suffix_rfl, rfl, Nat.zero_le cap⟩
  | cons e rest ih =>
    rw [List.map_cons, List.sum_cons] at hsize
    unfold evictOldest
    split_ifs with hlt
    · have hleft : size - entrySize e = (rest.map entrySize).sum := by omega
      obtain ⟨hsuffix, hsum, hle⟩ := ih hleft
      exact ⟨hsuffix.trans (List.suffix_cons e rest), hsum, hle⟩
    · refine ⟨List.suffix_rfl, ?_, Nat.le_of_not_lt hlt⟩
      rw [List.map_cons, List.sum_cons, hsize]

/-- The newest entry stays when it fits. -/
theorem evictOldest_ne_nil {cap : Nat} {es : List Entry} {e : Entry} {size : Nat}
    (hsize : size = ((es ++ [e]).map entrySize).sum) (he : entrySize e ≤ cap) :
    (evictOldest cap (es ++ [e]) size).1 ≠ [] := by
  induction es generalizing size with
  | nil =>
    have hfits : ¬ cap < size := by
      rw [hsize, List.nil_append, List.map_singleton, List.sum_singleton]
      exact Nat.not_lt_of_le he
    rw [List.nil_append]
    unfold evictOldest
    rw [if_neg hfits]
    exact List.cons_ne_nil _ _
  | cons x rest ih =>
    rw [List.cons_append, List.map_cons, List.sum_cons] at hsize
    rw [List.cons_append]
    unfold evictOldest
    split_ifs
    · have hleft : size - entrySize x = ((rest ++ [e]).map entrySize).sum := by omega
      exact ih hleft
    · exact List.cons_ne_nil _ _

/-! ## The table -/

structure Listed (s : QpackDecoder) : Prop where
  size : s.size = (s.entries.map entrySize).sum
  capped : s.capacity ≤ qpackLenientMaxCapacity
  recent : s.entries.reverse <:+ s.history
  counted : s.insertCount = UInt64.ofNat s.history.length

structure Stored (s : QpackDecoder) : Prop extends Listed s where
  fits : s.size ≤ s.capacity

theorem Listed.evict (h : Listed s) : Stored s.evictToCapacity := by
  have hsum : s.size = (s.entries.reverse.map entrySize).sum := by
    rw [List.map_reverse, List.sum_reverse, h.size]
  obtain ⟨hsuffix, hsize, hle⟩ := evictOldest_spec s.capacity hsum
  refine ⟨⟨?_, h.capped, ?_, h.counted⟩, hle⟩
  · unfold evictToCapacity
    dsimp only
    rw [List.map_reverse, List.sum_reverse]
    exact hsize
  · unfold evictToCapacity
    dsimp only
    rw [List.reverse_reverse]
    exact hsuffix.trans h.recent

theorem Listed.push (h : Listed s) (e : Entry) : Listed (s.pushEntry e) := by
  refine ⟨?_, h.capped, ?_, ?_⟩
  · unfold pushEntry
    dsimp only
    rw [List.map_cons, List.sum_cons, h.size, Nat.add_comm]
  · unfold pushEntry
    dsimp only
    obtain ⟨old, hold⟩ := h.recent
    rw [List.reverse_cons, ← hold, List.append_assoc]
    exact List.suffix_append old _
  · unfold pushEntry
    dsimp only
    rw [h.counted, List.length_append, List.length_singleton, ← UInt64.ofNat_one, UInt64.ofNat_add]

theorem insert_eq_ok {e : Entry} : s.insert e = .ok t ↔
    entrySize e ≤ s.capacity ∧ t = (s.pushEntry e).evictToCapacity := by
  unfold insert
  split_ifs with hlt
  · exact iff_of_false nofun fun h => by omega
  · rw [Except.ok.injEq, eq_comm, and_iff_right (Nat.le_of_not_lt hlt)]

theorem Stored.instructs (h : Stored s) (hi : Instructs s t) : Stored t := by
  cases hi with
  | insert hins =>
    rw [(insert_eq_ok.mp hins).2]
    exact (h.toListed.push _).evict
  | capacity hcap =>
    exact Listed.evict ⟨h.size, hcap, h.recent, h.counted⟩

theorem fresh_stored : Stored fresh := ⟨⟨rfl, by decide, List.suffix_rfl, rfl⟩, by decide⟩

/-- The entry inserted under a number, while the table has it. -/
def entryAt (s : QpackDecoder) (abs : Nat) : QpackResult Entry :=
  if s.history.length - s.entries.length ≤ abs then orErr s.history[abs]? (.outOfRange abs)
  else .error (.outOfRange abs)

theorem Stored.length_le (h : Stored s) : s.entries.length ≤ s.history.length := by
  have hle := h.recent.length_le
  rw [List.length_reverse] at hle
  exact hle

theorem Stored.count (h : Stored s) (hn : s.history.length < 2 ^ 64) :
    s.insertCount.toNat = s.history.length := by
  rw [h.counted]
  exact UInt64.toNat_ofNat_of_lt' hn

/-- The table has its entries at the end of the history, the newest in front. -/
theorem Stored.entries_get (h : Stored s) {i : Nat}
    (hold : s.history.length - s.entries.length ≤ i) (hi : i < s.history.length) :
    s.entries[s.history.length - 1 - i]? = s.history[i]? := by
  have hlen := h.length_le
  obtain ⟨old, hhist⟩ := h.recent
  have hsplit : s.history.length = old.length + s.entries.length := by
    rw [← hhist, List.length_append, List.length_reverse]
  rw [← hhist, List.getElem?_append_right (by omega), List.getElem?_reverse (by omega), hhist]
  congr 1
  omega

theorem Stored.lookup (h : Stored s) (hn : s.history.length < 2 ^ 64) (abs : UInt64) :
    s.lookupAbsolute abs = s.entryAt abs.toNat := by
  have hcount := h.count hn
  have hlen := h.length_le
  have hentries : (UInt64.ofNat s.entries.length).toNat = s.entries.length :=
    UInt64.toNat_ofNat_of_lt' (Nat.lt_of_le_of_lt hlen hn)
  have hsub : UInt64.ofNat s.entries.length ≤ s.insertCount := by
    rw [UInt64.le_iff_toNat_le, hentries, hcount]
    exact hlen
  have holdest : (s.insertCount - UInt64.ofNat s.entries.length).toNat =
      s.history.length - s.entries.length := by
    rw [UInt64.toNat_sub_of_le _ _ hsub, hcount, hentries]
  unfold lookupAbsolute checkedSub entryAt
  rw [if_pos hsub]
  dsimp only
  simp only [UInt64.lt_iff_toNat_lt, UInt64.le_iff_toNat_le, holdest, hcount]
  by_cases hbefore : abs.toNat < s.history.length - s.entries.length
  · rw [if_pos (Or.inl hbefore), if_neg (by omega)]
  by_cases hafter : s.history.length ≤ abs.toNat
  · rw [if_pos (Or.inr hafter), if_pos (by omega), List.getElem?_eq_none hafter]
    rfl
  · have hone : (1 : UInt64) ≤ s.insertCount := by
      rw [UInt64.le_iff_toNat_le, hcount, UInt64.toNat_one]
      omega
    have hprev : (s.insertCount - 1).toNat = s.history.length - 1 := by
      rw [UInt64.toNat_sub_of_le _ _ hone, hcount, UInt64.toNat_one]
    have hpos : (s.insertCount - 1 - abs).toNat = s.history.length - 1 - abs.toNat := by
      rw [UInt64.toNat_sub_of_le _ _ (UInt64.le_iff_toNat_le.mpr (by omega)), hprev]
    rw [if_neg (by omega), if_pos (by omega), hpos, h.entries_get (by omega) (by omega),
      List.getElem?_eq_getElem (by omega)]
    rfl

/-! ## Runs of the encoder stream -/

/-- The table before each instruction and after the last. -/
def visitedFrom (s : QpackDecoder) (data : Bytes) (off : Nat) : List QpackDecoder :=
  s :: (if _ : off < data.length then
    match _ : s.encoderStep data off with
    | .error _ => []
    | .ok none => []
    | .ok (some (t, n)) => t.visitedFrom data n
  else [])
termination_by data.length - off
decreasing_by exact left_shrinks ‹_› (encoderStep_cases ‹_›).1

def visited (s : QpackDecoder) (data : Bytes) : List QpackDecoder :=
  match s.fatal with
  | some _ => [s]
  | none => s.visitedFrom data 0

/-- All times of a run of `apply_encoder_instructions`, up to the first error. -/
def timeline : QpackDecoder → List Bytes → List QpackDecoder
  | s, [] => [s]
  | s, data :: rest =>
    s.visited data ++
      match s.applyEncoderInstructions data with
      | (_, .error _) => []
      | (t, .ok _) => t.timeline rest

theorem visitedFrom_next {data : Bytes} {off n : Nat} (hoff : off < data.length)
    (hstep : s.encoderStep data off = .ok (some (t, n))) :
    s.visitedFrom data off = s :: t.visitedFrom data n := by
  rw [visitedFrom, dif_pos hoff]
  congr 1
  split
  · rename_i he
    rw [hstep] at he
    cases he
  · rename_i he
    rw [hstep] at he
    cases he
  · rename_i he
    rw [hstep] at he
    cases he
    rfl

theorem visitedFrom_stop {data : Bytes} {off : Nat}
    (h : ∀ t n, off < data.length → s.encoderStep data off ≠ .ok (some (t, n))) :
    s.visitedFrom data off = [s] := by
  rw [visitedFrom]
  split_ifs with hoff
  · split
    · rfl
    · rfl
    · rename_i hstep
      exact absurd hstep (h _ _ hoff)
  · rfl

theorem self_mem_visitedFrom (s : QpackDecoder) (data : Bytes) (off : Nat) :
    s ∈ s.visitedFrom data off := by
  rw [visitedFrom]
  exact List.mem_cons_self

theorem applyFrom_mem_visitedFrom (s : QpackDecoder) (data : Bytes) (off : Nat) :
    (s.applyFrom data off).1 ∈ s.visitedFrom data off := by
  fun_induction applyFrom s data off with
  | case1 s off hoff e hstep => exact self_mem_visitedFrom s data off
  | case2 s off hoff hstep => exact self_mem_visitedFrom s data off
  | case3 s off hoff t n hstep ih =>
    rw [visitedFrom_next hoff hstep]
    exact List.mem_cons_of_mem _ ih
  | case4 s off hoff => exact self_mem_visitedFrom s data off

theorem apply_mem_visited (s : QpackDecoder) (data : Bytes) :
    (s.applyEncoderInstructions data).1 ∈ s.visited data := by
  unfold applyEncoderInstructions visited
  cases s.fatal with
  | some why => exact List.mem_singleton_self s
  | none => exact applyFrom_mem_visitedFrom s data 0

section Induction

variable {P Q : QpackDecoder → Prop}

/-- What every instruction keeps, as long as `Q` holds of what it leaves. -/
theorem visitedFrom_all (hstep : ∀ s t, P s → Instructs s t → Q t → P t) {data : Bytes}
    {off : Nat} (hs : P s) (hQ : ∀ t ∈ s.visitedFrom data off, Q t) :
    ∀ t ∈ s.visitedFrom data off, P t := by
  have hstop : ∀ {s : QpackDecoder} {off : Nat}, P s →
      (∀ t n, off < data.length → s.encoderStep data off ≠ .ok (some (t, n))) →
      ∀ t ∈ s.visitedFrom data off, P t := by
    intro s off hs hnone t ht
    rw [visitedFrom_stop hnone] at ht
    rw [List.mem_singleton.mp ht]
    exact hs
  fun_induction applyFrom s data off with
  | case1 s off hoff e he =>
    exact hstop hs fun t n _ h => by rw [he] at h; cases h
  | case2 s off hoff he =>
    exact hstop hs fun t n _ h => by rw [he] at h; cases h
  | case3 s off hoff t n he ih =>
    rw [visitedFrom_next hoff he] at hQ ⊢
    have ht : P t := hstep s t hs (encoderStep_cases he).2
      (hQ t (List.mem_cons_of_mem _ (self_mem_visitedFrom t data n)))
    intro u hu
    rcases List.mem_cons.mp hu with rfl | hu
    · exact hs
    · exact ih ht (fun v hv => hQ v (List.mem_cons_of_mem _ hv)) u hu
  | case4 s off hoff => exact hstop hs fun t n hlt => absurd hlt hoff

theorem visited_all (hstep : ∀ s t, P s → Instructs s t → Q t → P t) {data : Bytes} (hs : P s)
    (hQ : ∀ t ∈ s.visited data, Q t) : ∀ t ∈ s.visited data, P t := by
  unfold visited at hQ ⊢
  cases hf : s.fatal with
  | some why =>
    intro t ht
    rw [List.mem_singleton.mp ht]
    exact hs
  | none =>
    rw [hf] at hQ
    exact visitedFrom_all hstep hs hQ

theorem timeline_all (hstep : ∀ s t, P s → Instructs s t → Q t → P t) {run : List Bytes}
    (hs : P s) (hQ : ∀ t ∈ s.timeline run, Q t) : ∀ t ∈ s.timeline run, P t := by
  induction run generalizing s with
  | nil =>
    intro t ht
    rw [List.mem_singleton.mp ht]
    exact hs
  | cons data rest ih =>
    unfold timeline at hQ ⊢
    have hvisited := visited_all hstep hs fun t ht => hQ t (List.mem_append_left _ ht)
    have hlast := hvisited _ (apply_mem_visited s data)
    intro t ht
    rcases List.mem_append.mp ht with ht | ht
    · exact hvisited t ht
    · cases hout : s.applyEncoderInstructions data with
      | mk u r =>
        rw [hout] at hQ ht hlast
        cases r with
        | error e => cases ht
        | ok n => exact ih hlast (fun v hv => hQ v (List.mem_append_right _ hv)) t ht

end Induction

/-- The size is that of the entries, and an index from the oldest entry on names what was
    inserted under it. -/
structure TableSound (s : QpackDecoder) : Prop where
  size : s.size = (s.entries.map entrySize).sum
  fits : s.size ≤ s.capacity
  count : s.entries.length ≤ s.insertCount.toNat
  named : ∀ i : UInt64, s.insertCount.toNat - s.entries.length ≤ i.toNat →
    i.toNat < s.insertCount.toNat →
      ∃ e, s.lookupAbsolute i = .ok e ∧ s.history[i.toNat]? = some e

theorem Stored.sound (h : Stored s) (hn : s.history.length < 2 ^ 64) : TableSound s := by
  have hcount := h.count hn
  refine ⟨h.size, h.fits, ?_, fun i hold hi => ?_⟩
  · rw [hcount]
    exact h.length_le
  · rw [hcount] at hold hi
    refine ⟨s.history[i.toNat], ?_, List.getElem?_eq_getElem hi⟩
    rw [h.lookup hn]
    unfold entryAt
    rw [if_pos hold, List.getElem?_eq_getElem hi]
    rfl

/-- An insert leaves the new entry in the table. -/
theorem Stored.grows (h : Stored s) (hi : Instructs s t) :
    t.history = s.history ∨ t.history.length = s.history.length + 1 ∧ t.entries ≠ [] := by
  cases hi with
  | capacity _ => exact Or.inl rfl
  | @insert e _ hins =>
    obtain ⟨hfits, rfl⟩ := insert_eq_ok.mp hins
    refine Or.inr ⟨List.length_append, fun hnil => ?_⟩
    have hsum : (s.pushEntry e).size = ((s.entries.reverse ++ [e]).map entrySize).sum := by
      have hpush := (h.toListed.push e).size
      rw [hpush, ← List.sum_reverse, ← List.map_reverse]
      exact congrArg (fun es : List Entry => (es.map entrySize).sum) List.reverse_cons
    have hkept := evictOldest_ne_nil hsum hfits
    unfold evictToCapacity at hnil
    dsimp only [pushEntry] at hnil hkept
    rw [List.reverse_eq_nil_iff, List.reverse_cons] at hnil
    exact hkept hnil

/-- The count comes back to zero only with an entry in the table. -/
theorem Stored.counts (h : Stored s) (hn : s.history.length < 2 ^ 64) (hi : Instructs s t)
    (ht : TableSound t) : t.history.length < 2 ^ 64 := by
  have hstored := h.instructs hi
  rcases h.grows hi with hsame | ⟨hlen, hne⟩
  · rw [hsame]
    exact hn
  · by_contra hle
    have hfull : t.history.length = 2 ^ 64 := by omega
    have hcount := ht.count
    rw [hstored.counted, hfull] at hcount
    exact hne (List.length_eq_zero_iff.mp (Nat.le_zero.mp hcount))

/-! ## What a section means -/

/-- The base as an unbounded number. -/
def SectionPrefix.baseAt (p : SectionPrefix) : QpackResult Nat :=
  if p.sign then
    if p.delta.toNat + 1 ≤ p.ric.toNat then .ok (p.ric.toNat - (p.delta.toNat + 1))
    else .error .basePrecedes
  else .ok (p.ric.toNat + p.delta.toNat)

def preBaseAt (s : QpackDecoder) (base : Nat) (what : String) (idx : UInt64) :
    QpackResult Entry :=
  if idx.toNat + 1 ≤ base then s.entryAt (base - (idx.toNat + 1)) else .error (.beforeStart what)

def postBaseAt (s : QpackDecoder) (base : Nat) (idx : UInt64) : QpackResult Entry :=
  s.entryAt (base + idx.toNat)

/-- The section with its indexes in unbounded numbers, each naming what was inserted under it. -/
def sectionMeaning (s : QpackDecoder) (buf : Bytes) : QpackResult (Option DecodedSection) := do
  match ← s.sectionPrefix buf with
  | none => return none
  | some p =>
    let base ← p.baseAt
    let fields ← fieldLines (s.preBaseAt base) (s.postBaseAt base) buf p.off []
    return some ⟨fields, p.ric⟩

/-- The index of a line that counts from the base upwards. -/
def postBaseIndex (buf : Bytes) (off : Nat) : Option UInt64 :=
  let b := buf.getD off 0
  if b &&& 0x80 ≠ 0 then none
  else if b &&& 0xc0 = 0x40 then none
  else if b &&& 0xe0 = 0x20 then none
  else if b &&& 0xf0 = 0x10 then (readPrefixedInt buf off 4).map Prod.fst
  else (readPrefixedInt buf off 3).map Prod.fst

section Lines

variable {pre pre' : String → UInt64 → QpackResult Entry} {post post' : UInt64 → QpackResult Entry}
  {buf : Bytes} {off n : Nat} {e : Entry} {fields : List Entry}

/-- The lines from `off` on come to the one at a later offset. -/
inductive Comes (pre : String → UInt64 → QpackResult Entry) (post : UInt64 → QpackResult Entry)
    (buf : Bytes) : Nat → Nat → Prop where
  | here {off : Nat} (hoff : off < buf.length) : Comes pre post buf off off
  | next {off n m : Nat} {e : Entry} (hoff : off < buf.length)
      (hline : fieldLine pre post buf off = .ok (e, n)) (hrest : Comes pre post buf n m) :
      Comes pre post buf off m

theorem fieldLine_congr (hpre : pre = pre')
    (hpost : ∀ idx, postBaseIndex buf off = some idx → post idx = post' idx) :
    fieldLine pre post buf off = fieldLine pre' post' buf off := by
  subst hpre
  unfold postBaseIndex at hpost
  unfold fieldLine
  dsimp only at hpost ⊢
  split_ifs at hpost ⊢
  · rfl
  · rfl
  · rfl
  · cases hidx : readPrefixedInt buf off 4 with
    | none => rfl
    | some x =>
      have hsame : post x.1 = post' x.1 := hpost x.1 (by rw [hidx]; rfl)
      change (post x.1 >>= _) = (post' x.1 >>= _)
      rw [hsame]
  · cases hidx : readPrefixedInt buf off 3 with
    | none => rfl
    | some x =>
      have hsame : post x.1 = post' x.1 := hpost x.1 (by rw [hidx]; rfl)
      change (post x.1 >>= _) = (post' x.1 >>= _)
      rw [hsame]

theorem fieldLine_of_post {idx : UInt64} {err : QpackError}
    (hidx : postBaseIndex buf off = some idx) (herr : post idx = .error err) :
    fieldLine pre post buf off = .error err := by
  unfold postBaseIndex at hidx
  unfold fieldLine
  dsimp only at hidx ⊢
  split_ifs at hidx ⊢
  · obtain ⟨x, hx, rfl⟩ := Option.map_eq_some_iff.mp hidx
    rw [hx]
    change (post x.1 >>= _) = _
    rw [herr]
    rfl
  · obtain ⟨x, hx, rfl⟩ := Option.map_eq_some_iff.mp hidx
    rw [hx]
    change (post x.1 >>= _) = _
    rw [herr]
    rfl

theorem fieldLines_next (hoff : off < buf.length)
    (hline : fieldLine pre post buf off = .ok (e, n)) :
    fieldLines pre post buf off fields = fieldLines pre post buf n (fields ++ [e]) := by
  rw [fieldLines, dif_pos hoff]
  split
  · rename_i h
    rw [hline] at h
    cases h
  · rename_i h
    rw [hline] at h
    cases h
    rfl

theorem fieldLines_error {err : QpackError} (hoff : off < buf.length)
    (hline : fieldLine pre post buf off = .error err) :
    fieldLines pre post buf off fields = .error err := by
  rw [fieldLines, dif_pos hoff]
  split
  · rename_i h
    rw [hline] at h
    cases h
    rfl
  · rename_i h
    rw [hline] at h
    cases h

theorem fieldLines_done (hoff : ¬ off < buf.length) :
    fieldLines pre post buf off fields = .ok fields := by
  rw [fieldLines, dif_neg hoff]

end Lines

/-! ## The decoder finds it -/

theorem checkedAdd_one (idx : UInt64) : checkedAdd idx 1 =
    if idx.toNat + 1 < 2 ^ 64 then some (idx + 1) else none := by
  unfold checkedAdd
  rw [UInt64.toNat_one]

theorem Stored.preBase (h : Stored s) (hn : s.history.length < 2 ^ 64) (base : UInt64) :
    s.preBase base = s.preBaseAt base.toNat := by
  funext what idx
  have hbase := base.toNat_lt
  unfold QpackDecoder.preBase preBaseAt
  rw [checkedAdd_one]
  by_cases hlt : idx.toNat + 1 < 2 ^ 64
  · have hnext : (idx + 1).toNat = idx.toNat + 1 := by
      rw [UInt64.toNat_add, UInt64.toNat_one, Nat.mod_eq_of_lt hlt]
    rw [if_pos hlt, Option.bind_some]
    unfold checkedSub
    simp only [UInt64.le_iff_toNat_le, hnext]
    split_ifs with hle
    · have hsub : (base - (idx + 1)).toNat = base.toNat - (idx.toNat + 1) := by
        rw [UInt64.toNat_sub_of_le _ _ (by rw [UInt64.le_iff_toNat_le, hnext]; exact hle), hnext]
      rw [← hsub, ← h.lookup hn]
      rfl
    · rfl
  · rw [if_neg hlt, if_neg (by omega)]
    rfl

theorem Stored.postBase (h : Stored s) (hn : s.history.length < 2 ^ 64) {base idx : UInt64}
    (hfits : base.toNat + idx.toNat < 2 ^ 64) :
    s.postBase base idx = s.postBaseAt base.toNat idx := by
  unfold QpackDecoder.postBase postBaseAt
  rw [h.lookup hn, UInt64.toNat_add, Nat.mod_eq_of_lt hfits]

/-- Out of 64 bits nothing has been inserted. -/
theorem postBaseAt_out (hn : s.history.length < 2 ^ 64) {base : Nat} {idx : UInt64}
    (hout : ¬ base + idx.toNat < 2 ^ 64) :
    s.postBaseAt base idx = .error (.outOfRange (base + idx.toNat)) := by
  unfold postBaseAt entryAt
  rw [if_pos (by omega), List.getElem?_eq_none (by omega)]
  rfl

/-- An index in an error has 64 bits. -/
def Bounded {α : Type} (r : QpackResult α) : Prop := ∀ n, r = .error (.outOfRange n) → n < 2 ^ 64

theorem bounded_orErr {α : Type} (o : Option α) {e : QpackError} (he : ∀ n, e ≠ .outOfRange n) :
    Bounded (orErr o e) := by
  intro n h
  cases o with
  | none => exact absurd (Except.error.inj h) (he n)
  | some a => cases h

theorem bounded_bind {α β : Type} {r : QpackResult α} {f : α → QpackResult β} (hr : Bounded r)
    (hf : ∀ a, Bounded (f a)) : Bounded (r >>= f) := by
  intro n h
  cases r with
  | error e =>
    rw [bind_error] at h
    cases h
    exact hr n rfl
  | ok a => exact hf a n h

theorem bounded_ok {α : Type} (a : α) : Bounded (.ok a : QpackResult α) := nofun

theorem bounded_lookup (s : QpackDecoder) (abs : UInt64) : Bounded (s.lookupAbsolute abs) := by
  unfold lookupAbsolute
  split
  · exact nofun
  · split_ifs
    · intro n h
      cases h
      exact abs.toNat_lt
    · exact bounded_orErr _ nofun

theorem bounded_staticOr {isStatic : Bool} {idx : UInt64} {bad : QpackError}
    {dynamic : QpackResult Entry} (hbad : ∀ n, bad ≠ .outOfRange n) (h : Bounded dynamic) :
    Bounded (staticOr isStatic idx bad dynamic) := by
  unfold staticOr
  split_ifs
  · exact bounded_orErr _ hbad
  · exact h

section Lines

variable {pre : String → UInt64 → QpackResult Entry} {post : UInt64 → QpackResult Entry}
  {buf : Bytes}

theorem bounded_valueBehind (off : Nat) (name : Str) : Bounded (valueBehind buf off name) :=
  bounded_bind (bounded_orErr _ nofun) fun _ => bounded_ok _

theorem bounded_fieldLine (hpre : ∀ what idx, Bounded (pre what idx))
    (hpost : ∀ idx, Bounded (post idx)) (off : Nat) : Bounded (fieldLine pre post buf off) := by
  unfold fieldLine
  dsimp only
  split_ifs
  · exact bounded_bind (bounded_orErr _ nofun) fun x =>
      bounded_bind (bounded_staticOr nofun (hpre _ _)) fun e => bounded_ok _
  · exact bounded_bind (bounded_orErr _ nofun) fun x =>
      bounded_bind (bounded_staticOr nofun (hpre _ _)) fun e => bounded_valueBehind _ _
  · exact bounded_bind (bounded_orErr _ nofun) fun x => bounded_valueBehind _ _
  · exact bounded_bind (bounded_orErr _ nofun) fun x =>
      bounded_bind (hpost _) fun e => bounded_ok _
  · exact bounded_bind (bounded_orErr _ nofun) fun x =>
      bounded_bind (hpost _) fun e => bounded_valueBehind _ _

theorem bounded_fieldLines (hpre : ∀ what idx, Bounded (pre what idx))
    (hpost : ∀ idx, Bounded (post idx)) (off : Nat) (fields : List Entry) :
    Bounded (fieldLines pre post buf off fields) := by
  fun_induction fieldLines pre post buf off fields with
  | case1 off fields hoff err herr =>
    intro n h
    rw [Except.error.injEq] at h
    rw [h] at herr
    exact bounded_fieldLine hpre hpost off n herr
  | case2 off fields hoff e n hline ih => exact ih
  | case3 off fields hoff => exact nofun

end Lines

theorem bounded_preBase (s : QpackDecoder) (base : UInt64) (what : String) (idx : UInt64) :
    Bounded (s.preBase base what idx) :=
  bounded_bind (bounded_orErr _ nofun) fun abs => bounded_lookup s abs

variable {buf : Bytes}

/-- The post-base indexes that the lines from `off` on come to stay inside 64 bits. -/
def PostFits (s : QpackDecoder) (base : Nat) (buf : Bytes) (off : Nat) : Prop :=
  ∀ m, Comes (s.preBaseAt base) (s.postBaseAt base) buf off m →
    ∀ idx, postBaseIndex buf m = some idx → base + idx.toNat < 2 ^ 64

theorem Stored.lines_of_fits (h : Stored s) (hn : s.history.length < 2 ^ 64) {base : UInt64}
    {off : Nat} (hfits : s.PostFits base.toNat buf off) (fields : List Entry) :
    fieldLines (s.preBase base) (s.postBase base) buf off fields =
      fieldLines (s.preBaseAt base.toNat) (s.postBaseAt base.toNat) buf off fields := by
  have hpre := h.preBase hn base
  have hline : ∀ off, off < buf.length → s.PostFits base.toNat buf off →
      fieldLine (s.preBase base) (s.postBase base) buf off =
        fieldLine (s.preBaseAt base.toNat) (s.postBaseAt base.toNat) buf off :=
    fun off hoff hfits => fieldLine_congr hpre fun idx hidx =>
      h.postBase hn (hfits off (.here hoff) idx hidx)
  fun_induction fieldLines (s.preBaseAt base.toNat) (s.postBaseAt base.toNat) buf off fields with
  | case1 off fields hoff err herr =>
    exact fieldLines_error hoff ((hline off hoff hfits).trans herr)
  | case2 off fields hoff e n hok ih =>
    rw [fieldLines_next hoff ((hline off hoff hfits).trans hok)]
    exact ih fun m hm => hfits m (.next hoff hok hm)
  | case3 off fields hoff => exact fieldLines_done hoff

/-- Where the decoder gives the meaning, no index on the way has left 64 bits. -/
theorem Stored.fits_of_lines (h : Stored s) (hn : s.history.length < 2 ^ 64) {base : UInt64}
    {off : Nat} {fields : List Entry}
    (heq : fieldLines (s.preBase base) (s.postBase base) buf off fields =
      fieldLines (s.preBaseAt base.toNat) (s.postBaseAt base.toNat) buf off fields) :
    s.PostFits base.toNat buf off := by
  have hpre := h.preBase hn base
  -- a line with an index outside ends the meaning with an error that the decoder never gives
  have hhead : ∀ {off : Nat} {fields : List Entry}, off < buf.length →
      fieldLines (s.preBase base) (s.postBase base) buf off fields =
        fieldLines (s.preBaseAt base.toNat) (s.postBaseAt base.toNat) buf off fields →
      ∀ idx, postBaseIndex buf off = some idx → base.toNat + idx.toNat < 2 ^ 64 := by
    intro off fields hoff heq idx hidx
    by_contra hout
    rw [fieldLines_error hoff (fieldLine_of_post hidx (postBaseAt_out hn hout))] at heq
    exact hout (bounded_fieldLines (bounded_preBase s base)
      (fun idx => bounded_lookup s (base + idx)) off fields _ heq)
  intro m hm
  induction hm generalizing fields with
  | here hoff => exact hhead hoff heq
  | next hoff hline hrest ih =>
    have hfits := hhead hoff heq
    have hsame := fieldLine_congr hpre fun idx hidx => h.postBase hn (hfits idx hidx)
    rw [fieldLines_next hoff hline, fieldLines_next hoff (hsame.trans hline)] at heq
    exact ih heq

/-- The addition in front of the lines stays inside 64 bits. -/
def BaseFits (s : QpackDecoder) (buf : Bytes) : Prop :=
  ∀ p, s.sectionPrefix buf = .ok (some p) → p.sign = false → p.ric.toNat + p.delta.toNat < 2 ^ 64

/-- The decoder gives the meaning of the section, and the base does not wrap. -/
structure SectionSound (s : QpackDecoder) (buf : Bytes) : Prop where
  base : s.BaseFits buf
  meaning : s.decodeFieldSection buf = s.sectionMeaning buf

/-- No addition on the way through the section leaves 64 bits. -/
structure IndexesFit (s : QpackDecoder) (buf : Bytes) : Prop where
  base : s.BaseFits buf
  post : ∀ p base, s.sectionPrefix buf = .ok (some p) → p.baseAt = .ok base →
    s.PostFits base buf p.off

theorem base_eq {p : SectionPrefix} (h : p.sign = false → p.ric.toNat + p.delta.toNat < 2 ^ 64) :
    (∃ base : UInt64, p.base = .ok base ∧ p.baseAt = .ok base.toNat) ∨
      ∃ e, p.base = .error e ∧ p.baseAt = .error e := by
  unfold SectionPrefix.base SectionPrefix.baseAt
  cases hsign : p.sign with
  | false =>
    refine Or.inl ⟨p.ric + p.delta, rfl, ?_⟩
    rw [UInt64.toNat_add, Nat.mod_eq_of_lt (h hsign)]
    rfl
  | true =>
    simp only [if_true]
    unfold checkedSub
    by_cases hdelta : p.delta ≤ p.ric
    · have hsub := UInt64.toNat_sub_of_le _ _ hdelta
      have hle := UInt64.le_iff_toNat_le.mp hdelta
      rw [if_pos hdelta, Option.bind_some]
      by_cases hone : 1 ≤ p.ric - p.delta
      · have hone' := UInt64.le_iff_toNat_le.mp hone
        rw [hsub, UInt64.toNat_one] at hone'
        rw [if_pos hone, if_pos (by omega)]
        refine Or.inl ⟨_, rfl, ?_⟩
        rw [UInt64.toNat_sub_of_le _ _ hone, hsub, UInt64.toNat_one]
        congr 1
      · have hone' : ¬ 1 ≤ p.ric.toNat - p.delta.toNat := by
          rw [← hsub]
          exact fun hle => hone (UInt64.le_iff_toNat_le.mpr hle)
        rw [if_neg hone, if_neg (by omega)]
        exact Or.inr ⟨_, rfl, rfl⟩
    · have hlt : ¬ p.delta.toNat ≤ p.ric.toNat := fun hle =>
        hdelta (UInt64.le_iff_toNat_le.mpr hle)
      rw [if_neg hdelta, if_neg (by omega)]
      exact Or.inr ⟨_, rfl, rfl⟩

/-- The lines make the section. -/
theorem section_inj {ric : UInt64} {l l' : QpackResult (List Entry)} :
    ((do let fields ← l; return some ⟨fields, ric⟩ : QpackResult (Option DecodedSection)) =
      do let fields ← l'; return some ⟨fields, ric⟩) ↔ l = l' := by
  cases l with
  | error e =>
    cases l' with
    | error e' => simp
    | ok fields' => simp
  | ok fields =>
    cases l' with
    | error e' => simp
    | ok fields' => simp

theorem decode_iff (h : Stored s) (hn : s.history.length < 2 ^ 64) (buf : Bytes) :
    SectionSound s buf ↔ IndexesFit s buf := by
  have hmeaning : s.BaseFits buf → (s.decodeFieldSection buf = s.sectionMeaning buf ↔
      ∀ p base, s.sectionPrefix buf = .ok (some p) → p.baseAt = .ok base →
        s.PostFits base buf p.off) := by
    intro hbase
    unfold decodeFieldSection sectionMeaning
    cases hhead : s.sectionPrefix buf with
    | error e => exact iff_of_true rfl nofun
    | ok o =>
      cases o with
      | none => exact iff_of_true rfl nofun
      | some p =>
        rw [bind_ok, bind_ok]
        dsimp only
        rcases base_eq (hbase p hhead) with ⟨base, hb, hbat⟩ | ⟨e, hb, hbat⟩
        · rw [hb, hbat, bind_ok, bind_ok, section_inj]
          constructor
          · rintro heq q b hq hqb
            cases hq
            rw [hbat] at hqb
            cases hqb
            exact h.fits_of_lines hn heq
          · exact fun hfits => h.lines_of_fits hn (hfits p _ rfl hbat) []
        · rw [hb, hbat]
          refine iff_of_true rfl ?_
          rintro q b hq hqb
          cases hq
          rw [hbat] at hqb
          cases hqb
  exact ⟨fun hs => ⟨hs.base, (hmeaning hs.base).mp hs.meaning⟩,
    fun hf => ⟨hf.base, (hmeaning hf.base).mpr hf.post⟩⟩

/-- At all times of a run of the encoder stream the table is sound and a field section has its
    meaning, if and only if fewer than `2^64` entries are inserted and no addition of a base and
    an index on the way through the section leaves 64 bits. -/
theorem qpack_sound (run : List Bytes) (buf : Bytes) :
    (∀ t ∈ fresh.timeline run, TableSound t ∧ SectionSound t buf) ↔
      ∀ t ∈ fresh.timeline run, t.history.length < 2 ^ 64 ∧ IndexesFit t buf := by
  have hstored : ∀ t ∈ fresh.timeline run, Stored t :=
    timeline_all (fun s t hs hi (_ : True) => hs.instructs hi) fresh_stored fun _ _ => trivial
  constructor
  · intro hall
    have hcounts : ∀ t ∈ fresh.timeline run, Stored t ∧ t.history.length < 2 ^ 64 :=
      timeline_all (fun s t hs hi ht => ⟨hs.1.instructs hi, hs.1.counts hs.2 hi ht⟩)
        ⟨fresh_stored, by decide⟩ fun t ht => (hall t ht).1
    intro t ht
    obtain ⟨hs, hn⟩ := hcounts t ht
    exact ⟨hn, (decode_iff hs hn buf).mp (hall t ht).2⟩
  · intro hall t ht
    obtain ⟨hn, hfit⟩ := hall t ht
    exact ⟨(hstored t ht).sound hn, (decode_iff (hstored t ht) hn buf).mpr hfit⟩

/-! ### An index beyond 64 bits -/

/-- `a` and `b` are inserted. -/
def oneInsert : Bytes := [0x41, 0x61, 0x01, 0x62]

/-- The base `2^63`, and the index `2^63` behind it. -/
def beyond : Bytes :=
  [0x00, 0x7f, 0x81, 0xff, 0xff, 0xff, 0xff, 0xff, 0xff, 0xff, 0x7f,
    0x1f, 0xf1, 0xff, 0xff, 0xff, 0xff, 0xff, 0xff, 0xff, 0x7f]

/-- The index wraps onto the first entry. -/
theorem beyond_wraps :
    (fresh.applyEncoderInstructions oneInsert).1.decodeFieldSection beyond =
      .ok (some ⟨[(['a'], ['b'])], 0⟩) ∧
    ¬ ∀ t ∈ fresh.timeline [oneInsert], TableSound t ∧ SectionSound t beyond := by
  have hdecoded : (fresh.applyEncoderInstructions oneInsert).1.decodeFieldSection beyond =
      .ok (some ⟨[(['a'], ['b'])], 0⟩) := by decide +kernel
  have hmeant : (fresh.applyEncoderInstructions oneInsert).1.sectionMeaning beyond =
      .error (.outOfRange (2 ^ 64)) := by decide +kernel
  refine ⟨hdecoded, fun hall => ?_⟩
  have hmem : (fresh.applyEncoderInstructions oneInsert).1 ∈ fresh.timeline [oneInsert] :=
    List.mem_append_left _ (apply_mem_visited fresh oneInsert)
  have heq := (hall _ hmem).2.meaning
  rw [hdecoded, hmeant] at heq
  cases heq

end QpackDecoder

end RustCrash.Hysteria2
