import Mathlib.Tactic
import Mathlib.Data.List.AList

/-
  Messages that come in numbered fragments, put together in a table with one set of slots for
  each message. A table that holds `cap` sets is emptied before the next fragment goes in, and
  a set whose total is not the fragment's is begun anew.

  A set that is whole gives its parts away and stays in the table without a slot, so a further
  fragment of it has nowhere to go: `FragSet.add` is `none` there, an index out of bounds.
-/

namespace RustCrash.Lib

/-- A fragment: the message it is of, how many there are, which one it is, what it carries
    beside the data, and the data. -/
structure Fragment (κ ι β : Type) where
  key : κ
  total : Nat
  fragId : Nat
  head : ι
  data : List β
  total_pos : 0 < total

/-- A message in assembly. -/
structure FragSet (η β : Type) where
  total : Nat
  head : η
  parts : List (Option (List β))

namespace FragSet

variable {η β : Type}

def new (fresh : η) (total : Nat) : FragSet η β := ⟨total, fresh, List.replicate total none⟩

/-- Put one fragment in its slot, `head` being what the set knows behind it; the whole message
    when no slot is empty any more. `none`: there is no such slot. -/
def add (s : FragSet η β) (fragId : Nat) (head : η) (data : List β) :
    Option (FragSet η β × Option (η × List β)) :=
  if s.total ≤ fragId then some (s, none)
  else if fragId < s.parts.length then
    let parts := s.parts.set fragId (some data)
    if parts.all Option.isSome then
      some ({ s with head := head, parts := [] }, some (head, parts.flatMap fun p => p.getD []))
    else some ({ s with head := head, parts := parts }, none)
  else none

/-- Each slot is there, and one of them is empty. -/
def Gathering (s : FragSet η β) : Prop := s.parts.length = s.total ∧ none ∈ s.parts

/-- The parts are given away. -/
def Assembled (s : FragSet η β) : Prop := s.parts = [] ∧ 0 < s.total

theorem gathering_new (fresh : η) {total : Nat} (h : 0 < total) :
    (new fresh total : FragSet η β).Gathering :=
  ⟨List.length_replicate, List.mem_replicate.mpr ⟨by omega, rfl⟩⟩

theorem not_assembled_of_gathering {s : FragSet η β} (h : s.Gathering) : ¬ s.Assembled := by
  intro ha
  have hmem := h.2
  rw [ha.1] at hmem
  exact List.not_mem_nil hmem

/-- What `add` does, by case: out of range, the last part, one part of several. -/
theorem add_cases {s : FragSet η β} (hs : s.Gathering ∨ s.Assembled) (fragId : Nat) (head : η)
    (data : List β) :
    (s.total ≤ fragId ∧ s.add fragId head data = some (s, none)) ∨
    (fragId < s.total ∧ s.Assembled ∧ s.add fragId head data = none) ∨
    (fragId < s.total ∧ s.Gathering ∧ none ∉ s.parts.set fragId (some data) ∧
      s.add fragId head data = some ({ s with head := head, parts := [] },
        some (head, (s.parts.set fragId (some data)).flatMap fun p => p.getD []))) ∨
    (fragId < s.total ∧ s.Gathering ∧ none ∈ s.parts.set fragId (some data) ∧
      s.add fragId head data =
        some ({ s with head := head, parts := s.parts.set fragId (some data) }, none)) := by
  unfold add
  by_cases hlt : fragId < s.total
  · rw [if_neg (by omega)]
    refine Or.inr ?_
    rcases hs with hg | ha
    · refine Or.inr ?_
      rw [if_pos (by rw [hg.1]; exact hlt)]
      by_cases hall : (s.parts.set fragId (some data)).all Option.isSome = true
      · refine Or.inl ⟨hlt, hg, fun hmem => ?_, if_pos hall⟩
        exact absurd (List.all_eq_true.mp hall none hmem) (by simp)
      · refine Or.inr ⟨hlt, hg, ?_, if_neg hall⟩
        by_contra hmem
        refine hall (List.all_eq_true.mpr fun p hp => ?_)
        cases p with
        | none => exact absurd hp hmem
        | some d => rfl
    · exact Or.inl ⟨hlt, ha, if_neg (by rw [ha.1]; simp)⟩
  · exact Or.inl ⟨by omega, if_pos (by omega)⟩

theorem head_of_add {s t : FragSet η β} {fragId : Nat} {head : η} {data : List β}
    {w : η × List β} (h : s.add fragId head data = some (t, some w)) : w.1 = head := by
  unfold add at h
  dsimp only at h
  split_ifs at h <;> simp only [Option.some.injEq, Prod.mk.injEq, and_false, reduceCtorEq] at h
  rw [← h.2]

/-- The fragment fills the last empty slot. -/
def LastPart (s : FragSet η β) (fragId : Nat) : Prop :=
  fragId < s.total ∧ fragId < s.parts.length ∧ ∀ j, s.parts[j]? = some none → j = fragId

/-- `add` gives the message exactly with the fragment that was missing. -/
theorem add_gives_iff {s : FragSet η β} {fragId : Nat} {head : η} {data : List β} :
    (∃ t w, s.add fragId head data = some (t, some w)) ↔ s.LastPart fragId := by
  have hfull : fragId < s.parts.length →
      ((s.parts.set fragId (some data)).all Option.isSome = true ↔
        ∀ j, s.parts[j]? = some none → j = fragId) := by
    intro hlen
    rw [List.all_eq_true]
    constructor
    · intro h j hj
      by_contra hne
      have hset : (s.parts.set fragId (some data))[j]? = some none := by
        rw [List.getElem?_set_ne (fun e => hne e.symm), hj]
      exact absurd (h none (List.mem_of_getElem? hset)) (by simp)
    · intro h p hp
      obtain ⟨j, hj⟩ := List.mem_iff_getElem?.mp hp
      cases p with
      | some d => rfl
      | none =>
        by_cases he : fragId = j
        · subst he
          rw [List.getElem?_set_self hlen] at hj
          cases hj
        · rw [List.getElem?_set_ne he] at hj
          exact absurd (h j hj).symm he
  unfold add LastPart
  by_cases htot : s.total ≤ fragId
  · rw [if_pos htot]
    refine ⟨fun ⟨t, w, h⟩ => by simp at h, fun h => by omega⟩
  · rw [if_neg htot]
    by_cases hlen : fragId < s.parts.length
    · rw [if_pos hlen]
      by_cases hall : (s.parts.set fragId (some data)).all Option.isSome = true
      · simp only [hall, if_true]
        exact ⟨fun _ => ⟨by omega, hlen, (hfull hlen).mp hall⟩, fun _ => ⟨_, _, rfl⟩⟩
      · simp only [hall]
        refine ⟨fun ⟨t, w, h⟩ => by simp at h, fun h => absurd ((hfull hlen).mpr h.2.2) hall⟩
    · rw [if_neg hlen]
      exact ⟨fun ⟨t, w, h⟩ => (by cases h), fun h => absurd h.2.1 hlen⟩

end FragSet

/-- The sets in assembly. -/
abbrev FragSets (κ η β : Type) := AList fun _ : κ => FragSet η β

/-- What a message is to the table: nothing, or something given as it is; or a fragment, with
    what a whole set is given as. -/
inductive Item (κ η ι β δ : Type) where
  | other (out : Option δ)
  | fragment (f : Fragment κ ι β) (emit : η → List β → Option δ)

namespace FragSets

variable {κ η ι β δ : Type} [DecidableEq κ]

def len (sets : FragSets κ η β) : Nat := sets.keys.length

/-- The set a fragment goes to: that of its key, or a new one. -/
def entry (fresh : η) (sets : FragSets κ η β) (f : Fragment κ ι β) : FragSet η β :=
  let e := (sets.lookup f.key).getD (.new fresh f.total)
  if e.total ≠ f.total then .new fresh f.total else e

section Table

variable (cap : Nat) (fresh : η) (keep : η → ι → η)

/-- One fragment. -/
def enter (sets : FragSets κ η β) (f : Fragment κ ι β) :
    Option (FragSets κ η β × Option (η × List β)) :=
  let sets := if cap ≤ sets.len then ∅ else sets
  let e := sets.entry fresh f
  (e.add f.fragId (keep e.head f.head) f.data).map fun r => (sets.insert f.key r.1, r.2)

/-- One message. -/
def handle (sets : FragSets κ η β) : Item κ η ι β δ → Option (FragSets κ η β × Option δ)
  | .other out => some (sets, out)
  | .fragment f emit =>
    (sets.enter cap fresh keep f).map fun r => (r.1, r.2.bind fun w => emit w.1 w.2)

/-- Messages one after the other, with what each gives. -/
def run (sets : FragSets κ η β) :
    List (Item κ η ι β δ) → Option (FragSets κ η β × List (Option δ))
  | [] => some (sets, [])
  | item :: items =>
    (sets.handle cap fresh keep item).bind fun r =>
      (run r.1 items).map fun t => (t.1, r.2 :: t.2)

/-- A fragment of a set whose parts are given away already, and that still lies in the
    table. -/
def ToAssembled (sets : FragSets κ η β) : Item κ η ι β δ → Prop
  | .other _ => False
  | .fragment f _ =>
    sets.len < cap ∧ f.fragId < f.total ∧
      ∃ s, sets.lookup f.key = some s ∧ s.total = f.total ∧ s.Assembled

/-- No message of the run is a fragment of a set already assembled. -/
def NeverToAssembled (sets : FragSets κ η β) : List (Item κ η ι β δ) → Prop
  | [] => True
  | item :: items =>
    ¬ sets.ToAssembled cap item ∧
      ∀ r, sets.handle cap fresh keep item = some r → NeverToAssembled r.1 items

end Table

/-- The fragments among messages. -/
def fragments : List (Item κ η ι β δ) → List (Fragment κ ι β)
  | [] => []
  | .other _ :: items => fragments items
  | .fragment f _ :: items => f :: fragments items

/-- `data` is a message of `total` fragments received for `key`, each in its place. -/
def WholeOf (log : List (Fragment κ ι β)) (key : κ) (total : Nat) (data : List β) : Prop :=
  ∃ ds : List (List β), ds.length = total ∧ data = ds.flatten ∧
    ∀ i d, ds[i]? = some d →
      ∃ f ∈ log, f.key = key ∧ f.total = total ∧ f.fragId = i ∧ f.data = d

/-! ## What the sets hold -/

section Parts

omit [DecidableEq κ]

/-- Every part in the set was received for it. -/
def PartsOf (log : List (Fragment κ ι β)) (key : κ) (s : FragSet η β) : Prop :=
  ∀ i d, s.parts[i]? = some (some d) →
    ∃ f ∈ log, f.key = key ∧ f.total = s.total ∧ f.fragId = i ∧ f.data = d

theorem PartsOf.mono {log more : List (Fragment κ ι β)} {key : κ} {s : FragSet η β}
    (h : PartsOf log key s) : PartsOf (log ++ more) key s := by
  intro i d hi
  obtain ⟨f, hf, rest⟩ := h i d hi
  exact ⟨f, List.mem_append_left _ hf, rest⟩

theorem partsOf_nil (log : List (Fragment κ ι β)) (key : κ) {s : FragSet η β}
    (h : s.parts = []) : PartsOf log key s := by
  intro i d hi
  rw [h] at hi
  cases hi

theorem partsOf_new (log : List (Fragment κ ι β)) (key : κ) (fresh : η) (total : Nat) :
    PartsOf log key (.new fresh total) := by
  intro i d hi
  simp only [FragSet.new, List.getElem?_replicate] at hi
  split at hi
  · cases hi
  · cases hi

/-- A fragment in its slot. -/
theorem PartsOf.set {log : List (Fragment κ ι β)} {f : Fragment κ ι β} {s t : FragSet η β}
    (h : PartsOf log f.key s) (htotal : f.total = s.total) (ht : t.total = s.total)
    (hparts : t.parts = s.parts.set f.fragId (some f.data)) :
    PartsOf (log ++ [f]) f.key t := by
  intro i d hi
  rw [hparts, List.getElem?_set] at hi
  by_cases hif : f.fragId = i
  · rw [if_pos hif] at hi
    split at hi
    · exact ⟨f, by simp, rfl, by rw [ht, htotal], hif, by simpa using hi⟩
    · cases hi
  · rw [if_neg hif] at hi
    obtain ⟨g, hg, hkey, htot, hid, hdata⟩ := h i d hi
    exact ⟨g, List.mem_append_left _ hg, hkey, by rw [ht, htot], hid, hdata⟩

/-- The parts of a set without an empty slot. -/
theorem PartsOf.whole {log : List (Fragment κ ι β)} {key : κ} {s : FragSet η β}
    (h : PartsOf log key s) (hlen : s.parts.length = s.total) (hfull : none ∉ s.parts) :
    WholeOf log key s.total (s.parts.flatMap fun p => p.getD []) := by
  refine ⟨s.parts.map fun p => p.getD [], by rw [List.length_map, hlen], ?_, ?_⟩
  · rw [List.flatMap_def]
  · intro i d hi
    rw [List.getElem?_map] at hi
    cases hp : s.parts[i]? with
    | none =>
      rw [hp] at hi
      cases hi
    | some p =>
      cases p with
      | none => exact absurd (List.mem_of_getElem? hp) hfull
      | some d' =>
        rw [hp] at hi
        cases hi
        exact h i _ hp

end Parts

/-- The invariant: a set gathers or is assembled, and holds received parts only. -/
def Holds (log : List (Fragment κ ι β)) (sets : FragSets κ η β) : Prop :=
  ∀ k s, sets.lookup k = some s → (s.Gathering ∨ s.Assembled) ∧ PartsOf log k s

theorem holds_empty (log : List (Fragment κ ι β)) : Holds log (∅ : FragSets κ η β) := by
  intro k s h
  rw [AList.lookup_empty] at h
  cases h

variable {sets : FragSets κ η β}

theorem Holds.mono {log more : List (Fragment κ ι β)} (h : Holds log sets) :
    Holds (log ++ more) sets := fun k s hs =>
  ⟨(h k s hs).1, (h k s hs).2.mono⟩

theorem Holds.insert {log : List (Fragment κ ι β)} {key : κ} {s : FragSet η β} (h : Holds log sets)
    (hs : s.Gathering ∨ s.Assembled) (hparts : PartsOf log key s) :
    Holds log (sets.insert key s) := by
  intro k t ht
  by_cases hk : k = key
  · subst hk
    rw [AList.lookup_insert] at ht
    cases ht
    exact ⟨hs, hparts⟩
  · rw [AList.lookup_insert_ne hk] at ht
    exact h k t ht

/-- What a fragment finds. -/
theorem Holds.entry {log : List (Fragment κ ι β)} (h : Holds log sets) (fresh : η)
    (f : Fragment κ ι β) :
    ((sets.entry fresh f).Gathering ∨ (sets.entry fresh f).Assembled) ∧
      (sets.entry fresh f).total = f.total ∧ PartsOf log f.key (sets.entry fresh f) := by
  have hnew : (FragSet.new fresh f.total : FragSet η β).Gathering :=
    FragSet.gathering_new fresh f.total_pos
  unfold FragSets.entry
  cases hl : sets.lookup f.key with
  | none =>
    simp only [Option.getD_none, ite_self]
    exact ⟨Or.inl hnew, rfl, partsOf_new log f.key fresh f.total⟩
  | some s =>
    simp only [Option.getD_some]
    split
    · exact ⟨Or.inl hnew, rfl, partsOf_new log f.key fresh f.total⟩
    · exact ⟨(h _ _ hl).1, not_not.mp ‹_›, (h _ _ hl).2⟩

theorem assembled_entry_iff {fresh : η} {f : Fragment κ ι β} :
    (sets.entry fresh f).Assembled ↔
      ∃ s, sets.lookup f.key = some s ∧ s.total = f.total ∧ s.Assembled := by
  have hnew : ¬ (FragSet.new fresh f.total : FragSet η β).Assembled :=
    FragSet.not_assembled_of_gathering (FragSet.gathering_new fresh f.total_pos)
  unfold FragSets.entry
  cases hl : sets.lookup f.key with
  | none => simp [hnew]
  | some s =>
    by_cases ht : s.total = f.total
    · simp [ht]
    · simp [ht, hnew]

/-! ## One fragment -/

variable {cap : Nat} {fresh : η} {keep : η → ι → η}

variable {log : List (Fragment κ ι β)} {sets : FragSets κ η β}

/-- The table a fragment goes into. -/
theorem Holds.cleared (h : Holds log sets) (cap : Nat) :
    Holds log (if cap ≤ sets.len then ∅ else sets) := by
  split
  · exact holds_empty log
  · exact h

theorem enter_eq_none_iff (h : Holds log sets) (f : Fragment κ ι β) (emit : η → List β → Option δ) :
    sets.enter cap fresh keep f = none ↔ sets.ToAssembled cap (.fragment f emit) := by
  have hent := (h.cleared cap).entry fresh f
  have hadd : sets.enter cap fresh keep f = none ↔ f.fragId < f.total ∧
      (entry fresh (if cap ≤ sets.len then ∅ else sets) f).Assembled := by
    unfold enter
    rw [Option.map_eq_none_iff, ← hent.2.1]
    rcases FragSet.add_cases hent.1 f.fragId (keep _ f.head) f.data with
      ⟨hge, he⟩ | ⟨hlt, ha, he⟩ | ⟨hlt, hg, -, he⟩ | ⟨hlt, hg, -, he⟩
    · rw [he]
      simp; omega
    · rw [he]
      simp [hlt, ha]
    · rw [he]
      simp [FragSet.not_assembled_of_gathering hg]
    · rw [he]
      simp [FragSet.not_assembled_of_gathering hg]
  rw [hadd, assembled_entry_iff]
  unfold ToAssembled
  by_cases hcap : cap ≤ sets.len
  · rw [if_pos hcap]
    simp; omega
  · rw [if_neg hcap]
    simp; omega

/-- A fragment keeps the invariant, and what it completes is whole. -/
theorem Holds.enter {sets t : FragSets κ η β} {f : Fragment κ ι β} {out : Option (η × List β)}
    (h : Holds log sets) (hr : sets.enter cap fresh keep f = some (t, out)) :
    Holds (log ++ [f]) t ∧
      ∀ head data, out = some (head, data) → WholeOf (log ++ [f]) f.key f.total data := by
  have hc := h.cleared cap
  obtain ⟨hst, htotal, hparts⟩ := hc.entry fresh f
  unfold FragSets.enter at hr
  obtain ⟨⟨e, o⟩, he, hto⟩ := Option.map_eq_some_iff.mp hr
  cases hto
  rcases FragSet.add_cases hst f.fragId (keep _ f.head) f.data with
    ⟨-, ha⟩ | ⟨-, -, ha⟩ | ⟨hlt, hg, hfull, ha⟩ | ⟨hlt, hg, hgap, ha⟩
  · rw [ha] at he
    cases he
    exact ⟨hc.mono.insert hst hparts.mono, fun _ _ ho => by cases ho⟩
  · rw [ha] at he
    cases he
  · rw [ha] at he
    cases he
    refine ⟨hc.mono.insert (Or.inr ⟨rfl, ?_⟩) (partsOf_nil _ _ rfl), ?_⟩
    · dsimp only
      omega
    · intro head data ho
      cases ho
      have hset := hparts.set htotal.symm (t := ⟨f.total, fresh, _⟩) htotal.symm rfl
      exact hset.whole (by rw [List.length_set, hg.1, htotal]) hfull
  · rw [ha] at he
    cases he
    refine ⟨hc.mono.insert (Or.inl ⟨?_, hgap⟩) (hparts.set htotal.symm rfl rfl), ?_⟩
    · rw [List.length_set]
      exact hg.1
    · intro head data ho
      cases ho

/-! ## Runs -/

theorem handle_eq_none_iff (h : Holds log sets) (item : Item κ η ι β δ) :
    sets.handle cap fresh keep item = none ↔ sets.ToAssembled cap item := by
  cases item with
  | other out => simp [handle, ToAssembled]
  | fragment f emit =>
    rw [handle, Option.map_eq_none_iff]
    exact enter_eq_none_iff h f emit

theorem Holds.handle {sets t : FragSets κ η β} {item : Item κ η ι β δ} {out : Option δ}
    (h : Holds log sets) (hr : sets.handle cap fresh keep item = some (t, out)) :
    Holds (log ++ fragments [item]) t ∧
      ∀ f emit d, item = .fragment f emit → out = some d → ∃ head data,
        WholeOf (log ++ [f]) f.key f.total data ∧ emit head data = some d := by
  cases item with
  | other o =>
    cases hr
    exact ⟨h.mono, fun f emit d hi => by cases hi⟩
  | fragment f emit =>
    obtain ⟨⟨t', w⟩, ha, hto⟩ := Option.map_eq_some_iff.mp hr
    cases hto
    obtain ⟨hholds, hwhole⟩ := h.enter ha
    refine ⟨hholds, fun g em d hi hd => ?_⟩
    cases hi
    obtain ⟨⟨head, data⟩, hw, he⟩ := Option.bind_eq_some_iff.mp hd
    exact ⟨head, data, hwhole head data hw, he⟩

section Fragments

omit [DecidableEq κ]

@[simp] theorem fragments_nil : fragments ([] : List (Item κ η ι β δ)) = [] := rfl

theorem fragments_append (xs ys : List (Item κ η ι β δ)) :
    fragments (xs ++ ys) = fragments xs ++ fragments ys := by
  induction xs with
  | nil => rfl
  | cons x xs ih =>
    cases x with
    | other o => exact ih
    | fragment f emit => simp only [List.cons_append, fragments, ih]

theorem fragments_cons (item : Item κ η ι β δ) (items : List (Item κ η ι β δ)) :
    fragments (item :: items) = fragments [item] ++ fragments items :=
  fragments_append [item] items

theorem mem_fragments {items : List (Item κ η ι β δ)} {f : Fragment κ ι β}
    {emit : η → List β → Option δ} (h : Item.fragment f emit ∈ items) : f ∈ fragments items := by
  obtain ⟨pre, post, rfl⟩ := List.append_of_mem h
  rw [fragments_append, fragments]
  simp

theorem mem_of_mem_take {items : List (Item κ η ι β δ)} {f : Fragment κ ι β} {n : Nat}
    (h : f ∈ fragments (items.take n)) : f ∈ fragments items := by
  rw [← List.take_append_drop n items, fragments_append]
  exact List.mem_append_left _ h

end Fragments

variable {sets t : FragSets κ η β} {items : List (Item κ η ι β δ)} {outs : List (Option δ)}
  {f : Fragment κ ι β} {ds : List (List β)} {seen : List (Fragment κ ι β)}

theorem run_cons {item : Item κ η ι β δ}
    (h : sets.run cap fresh keep (item :: items) = some (t, outs)) :
    ∃ mid out rest, sets.handle cap fresh keep item = some (mid, out) ∧
      mid.run cap fresh keep items = some (t, rest) ∧ outs = out :: rest := by
  obtain ⟨⟨mid, out⟩, hh, hm⟩ := Option.bind_eq_some_iff.mp h
  obtain ⟨⟨t', rest⟩, hrest, hto⟩ := Option.map_eq_some_iff.mp hm
  cases hto
  exact ⟨mid, out, rest, hh, hrest, rfl⟩

/-- A run stays in bounds exactly when no fragment of an assembled set comes. -/
theorem run_isSome_iff {log : List (Fragment κ ι β)} {sets : FragSets κ η β}
    (h : Holds log sets) (items : List (Item κ η ι β δ)) :
    (sets.run cap fresh keep items).isSome ↔ sets.NeverToAssembled cap fresh keep items := by
  induction items generalizing log sets with
  | nil => simp [run, NeverToAssembled]
  | cons item items ih =>
    rw [run, NeverToAssembled, ← @handle_eq_none_iff _ _ _ _ _ _ cap fresh keep _ _ h]
    cases hr : sets.handle cap fresh keep item with
    | none => simp
    | some r =>
      have hi := ih (h.handle hr).1
      simpa using hi

/-- What a fragment gives is made of the fragments received so far. -/
theorem run_exact {log : List (Fragment κ ι β)} (h : Holds log sets)
    (hr : sets.run cap fresh keep items = some (t, outs)) {i : Nat} {emit : η → List β → Option δ}
    {d : δ} (hi : items[i]? = some (.fragment f emit)) (ho : outs[i]? = some (some d)) :
    ∃ head data, WholeOf (log ++ fragments (items.take (i + 1))) f.key f.total data ∧
      emit head data = some d := by
  induction items generalizing log sets outs i with
  | nil => cases hi
  | cons item items ih =>
    obtain ⟨mid, out, rest, hh, hrest, rfl⟩ := run_cons hr
    cases i with
    | zero =>
      have hitem : item = .fragment f emit := by simpa using hi
      have hout : out = some d := by simpa using ho
      subst hitem
      have hw := (h.handle hh).2 f emit d rfl hout
      simpa [fragments] using hw
    | succ i =>
      have hw := ih (h.handle hh).1 hrest (by simpa using hi) (by simpa using ho)
      rw [List.append_assoc, ← fragments_cons] at hw
      simpa using hw

/-! ## A message that comes whole -/

/-- The slots of a message `ds` when the fragments `ids` are there. -/
def slotsOf (ds : List (List β)) (ids : List Nat) : List (Option (List β)) :=
  ds.mapIdx fun i d => if i ∈ ids then some d else none

@[simp] theorem length_slotsOf (ds : List (List β)) (ids : List Nat) :
    (slotsOf ds ids).length = ds.length := List.length_mapIdx

theorem slotsOf_nil (ds : List (List β)) :
    slotsOf ds [] = List.replicate ds.length none := by
  refine List.ext_getElem? fun i => ?_
  simp only [slotsOf, List.getElem?_mapIdx, List.not_mem_nil, if_false, List.getElem?_replicate]
  split
  · rw [List.getElem?_eq_getElem ‹_›]
    rfl
  · rw [List.getElem?_eq_none (by omega)]
    rfl

theorem slotsOf_set {ids : List Nat} {i : Nat} {d : List β} (h : ds[i]? = some d) :
    (slotsOf ds ids).set i (some d) = slotsOf ds (ids ++ [i]) := by
  refine List.ext_getElem? fun j => ?_
  rw [List.getElem?_set, length_slotsOf]
  simp only [slotsOf, List.getElem?_mapIdx, List.mem_append, List.mem_singleton]
  by_cases hij : i = j
  · subst hij
    rw [h, if_pos rfl, if_pos (List.getElem?_eq_some_iff.mp h).1]
    simp
  · rw [if_neg hij]
    have hji : j ≠ i := fun e => hij e.symm
    simp [hji]

theorem none_mem_slotsOf {ids : List Nat} : none ∈ slotsOf ds ids ↔ ∃ i < ds.length, i ∉ ids := by
  constructor
  · intro h
    obtain ⟨i, hi⟩ := List.mem_iff_getElem?.mp h
    have hlt : i < ds.length := by
      have := (List.getElem?_eq_some_iff.mp hi).1
      rwa [length_slotsOf] at this
    refine ⟨i, hlt, fun hmem => ?_⟩
    simp [slotsOf, List.getElem?_mapIdx, List.getElem?_eq_getElem hlt, hmem] at hi
  · rintro ⟨i, hlt, hmem⟩
    refine List.mem_of_getElem? (i := i) ?_
    simp [slotsOf, List.getElem?_mapIdx, List.getElem?_eq_getElem hlt, hmem]

theorem flatten_slotsOf {ids : List Nat} (h : ∀ i < ds.length, i ∈ ids) :
    ((slotsOf ds ids).flatMap fun p => p.getD []) = ds.flatten := by
  have hmap : (slotsOf ds ids).map (fun p => p.getD []) = ds := by
    refine List.ext_getElem? fun i => ?_
    simp only [slotsOf, List.getElem?_map, List.getElem?_mapIdx, Option.map_map]
    by_cases hlt : i < ds.length
    · rw [List.getElem?_eq_getElem hlt]
      simp [h i hlt]
    · rw [List.getElem?_eq_none (by omega)]
      rfl
  rw [List.flatMap_def, hmap]

/-- The set of a message of which the fragments `seen` have come, as the next one finds it. -/
def Gathers (fresh : η) (keep : η → ι → η) (ds : List (List β)) (seen : List (Fragment κ ι β))
    (s : FragSet η β) : Prop :=
  s.total = ds.length ∧ s.parts = slotsOf ds (seen.map (·.fragId)) ∧
    s.head = (seen.map (·.head)).foldl keep fresh

/-- The table while the message of `key` comes in: no set of its total is there before the
    first fragment. -/
def Awaits (fresh : η) (keep : η → ι → η) (key : κ) (ds : List (List β))
    (seen : List (Fragment κ ι β)) (sets : FragSets κ η β) : Prop :=
  ((∀ s, sets.lookup key = some s → s.total ≠ ds.length) ∧ seen = []) ∨
    ∃ s, sets.lookup key = some s ∧ Gathers fresh keep ds seen s

theorem Awaits.entry {key : κ} {sets : FragSets κ η β} (h : Awaits fresh keep key ds seen sets)
    (hkey : f.key = key) (htotal : f.total = ds.length) :
    Gathers fresh keep ds seen (sets.entry fresh f) := by
  unfold FragSets.entry
  rw [hkey]
  rcases h with ⟨hl, rfl⟩ | ⟨s, hl, hs⟩
  · have hnew : Gathers fresh keep ds ([] : List (Fragment κ ι β)) (.new fresh f.total) :=
      ⟨htotal, by rw [List.map_nil, slotsOf_nil, ← htotal]; rfl, rfl⟩
    cases hs : sets.lookup key with
    | none =>
      simp only [Option.getD_none, ite_self]
      exact hnew
    | some s =>
      simp only [Option.getD_some]
      rw [if_pos (by rw [htotal]; exact hl s hs)]
      exact hnew
  · simp only [hl, Option.getD_some]
    rw [if_neg (by rw [hs.1, htotal]; exact not_not_intro rfl)]
    exact hs

/-- The next fragment of the message: the last one gives it, another one fills its slot. -/
theorem Awaits.own {key : κ} {sets : FragSets κ η β} (h : Awaits fresh keep key ds seen sets)
    (hroom : sets.len < cap) (hkey : f.key = key) (htotal : f.total = ds.length)
    (hdata : ds[f.fragId]? = some f.data) :
    ((∀ i < ds.length, i ∈ (seen ++ [f]).map (·.fragId)) ∧ ∃ t,
      sets.enter cap fresh keep f =
        some (t, some (((seen ++ [f]).map (·.head)).foldl keep fresh, ds.flatten))) ∨
    ((∃ i < ds.length, i ∉ (seen ++ [f]).map (·.fragId)) ∧ ∃ t,
      sets.enter cap fresh keep f = some (t, none) ∧
        Awaits fresh keep key ds (seen ++ [f]) t) := by
  obtain ⟨ht, hp, hh⟩ := h.entry hkey htotal
  have hlt : f.fragId < ds.length := (List.getElem?_eq_some_iff.mp hdata).1
  have hids : (seen ++ [f]).map (·.fragId) = seen.map (·.fragId) ++ [f.fragId] := by simp
  have hhead : ((seen ++ [f]).map (·.head)).foldl keep fresh =
      keep (sets.entry fresh f).head f.head := by
    rw [hh]
    simp
  have hset : (sets.entry fresh f).parts.set f.fragId (some f.data) =
      slotsOf ds (seen.map (·.fragId) ++ [f.fragId]) := by rw [hp, slotsOf_set hdata]
  have hlen : f.fragId < (sets.entry fresh f).parts.length := by
    rw [hp, length_slotsOf]
    exact hlt
  simp only [enter, if_neg (show ¬ cap ≤ sets.len by omega), FragSet.add,
    if_neg (show ¬ (sets.entry fresh f).total ≤ f.fragId by omega), if_pos hlen, hset, hids,
    hhead]
  by_cases hall : ∀ i < ds.length, i ∈ seen.map (·.fragId) ++ [f.fragId]
  · refine Or.inl ⟨hall, ?_⟩
    rw [if_pos, flatten_slotsOf hall]
    · exact ⟨_, rfl⟩
    · refine List.all_eq_true.mpr fun p hmem => ?_
      cases p with
      | none =>
        obtain ⟨i, hi, hnot⟩ := none_mem_slotsOf.mp hmem
        exact absurd (hall i hi) hnot
      | some d => rfl
  · push Not at hall
    refine Or.inr ⟨hall, ?_⟩
    rw [if_neg]
    · have hgath : Gathers fresh keep ds (seen ++ [f]) (⟨(sets.entry fresh f).total,
          keep (sets.entry fresh f).head f.head,
          slotsOf ds (seen.map (·.fragId) ++ [f.fragId])⟩ : FragSet η β) :=
        ⟨ht, by rw [hids], hhead.symm⟩
      refine ⟨_, rfl, Or.inr ⟨_, ?_, hgath⟩⟩
      rw [← hkey]
      exact AList.lookup_insert _
    · intro hsome
      exact absurd (List.all_eq_true.mp hsome none (none_mem_slotsOf.mpr hall)) (by simp)

/-- A fragment of another message leaves it as it is. -/
theorem Awaits.foreign {key : κ} {out : Option (η × List β)}
    (h : Awaits fresh keep key ds seen sets) (hroom : sets.len < cap) (hkey : f.key ≠ key)
    (hr : sets.enter cap fresh keep f = some (t, out)) : Awaits fresh keep key ds seen t := by
  unfold enter at hr
  rw [if_neg (by omega)] at hr
  obtain ⟨⟨e, o⟩, -, hto⟩ := Option.map_eq_some_iff.mp hr
  cases hto
  have hl : (sets.insert f.key e).lookup key = sets.lookup key :=
    AList.lookup_insert_ne hkey.symm
  unfold Awaits
  rw [hl]
  exact h

/-- The fragments of one message among others. -/
def ofKey (key : κ) (fs : List (Fragment κ ι β)) : List (Fragment κ ι β) :=
  fs.filter fun f => f.key = key

/-- There is room for every set at each message of the run. -/
def Roomy (cap : Nat) (fresh : η) (keep : η → ι → η) (sets : FragSets κ η β) :
    List (Item κ η ι β δ) → Prop
  | [] => True
  | item :: items =>
    sets.len < cap ∧
      ∀ r, sets.handle cap fresh keep item = some r → Roomy cap fresh keep r.1 items

/-- While a message's fragments come in, with its key used for nothing else, it is given as a
    whole with the last fragment that was missing. -/
theorem run_whole {key : κ} (h : Awaits fresh keep key ds seen sets)
    (hgap : ∃ i < ds.length, i ∉ seen.map (·.fragId)) (hown : ∀ f ∈ fragments items, f.key = key →
      f.total = ds.length ∧ ds[f.fragId]? = some f.data)
    (hall : ∀ i < ds.length, i ∈ (seen ++ ofKey key (fragments items)).map (·.fragId))
    (hroom : Roomy cap fresh keep sets items) (hr : sets.run cap fresh keep items = some (t, outs)) :
    ∃ n f emit, items[n]? = some (.fragment f emit) ∧ f.key = key ∧
      (∀ i < ds.length,
        i ∈ (seen ++ ofKey key (fragments (items.take (n + 1)))).map (·.fragId)) ∧
      outs[n]? = some (emit
        (((seen ++ ofKey key (fragments (items.take (n + 1)))).map (·.head)).foldl keep fresh)
        ds.flatten) := by
  induction items generalizing seen sets outs with
  | nil =>
    obtain ⟨i, hi, hnot⟩ := hgap
    exact absurd (by simpa [ofKey] using hall i hi) hnot
  | cons item items ih =>
    obtain ⟨mid, out, rest, hh, hrest, rfl⟩ := run_cons hr
    have hroom' := hroom.2 _ hh
    -- What is left of the run when this message completes nothing.
    have later : ∀ seen', Awaits fresh keep key ds seen' mid →
        (∃ i < ds.length, i ∉ seen'.map (·.fragId)) →
        seen' = seen ++ ofKey key (fragments [item]) →
        ∃ n f emit, (item :: items)[n]? = some (.fragment f emit) ∧ f.key = key ∧
          (∀ i < ds.length,
            i ∈ (seen ++ ofKey key (fragments ((item :: items).take (n + 1)))).map (·.fragId)) ∧
          (out :: rest)[n]? = some (emit
            (((seen ++ ofKey key (fragments ((item :: items).take (n + 1)))).map
              (·.head)).foldl keep fresh) ds.flatten) := by
      intro seen' haw hgap' hseen
      have hsplit : ∀ l : List (Item κ η ι β δ), seen' ++ ofKey key (fragments l) =
          seen ++ ofKey key (fragments (item :: l)) := by
        intro l
        rw [hseen, fragments_cons item l, ofKey, ofKey, ofKey, List.filter_append,
          List.append_assoc]
      obtain ⟨n, f, emit, hn, hk, hcov, ho⟩ := ih haw hgap'
        (fun f hf => hown f (by rw [fragments_cons]; exact List.mem_append_right _ hf))
        (by rw [hsplit]; exact hall) hroom' hrest
      rw [hsplit] at hcov ho
      exact ⟨n + 1, f, emit, by simpa using hn, hk, by simpa using hcov, by simpa using ho⟩
    cases item with
    | other o =>
      cases hh
      exact later seen h hgap (by simp [fragments, ofKey])
    | fragment f emit =>
      obtain ⟨⟨t', w⟩, ha, hto⟩ := Option.map_eq_some_iff.mp hh
      cases hto
      by_cases hk : f.key = key
      · obtain ⟨htot, hdata⟩ := hown f (by simp [fragments]) hk
        have hone : ofKey key (fragments [Item.fragment f emit]) = [f] := by
          simp [fragments, ofKey, hk]
        rcases h.own hroom.1 hk htot hdata with ⟨hcov, t₂, he⟩ | ⟨hgap', t₂, he, haw⟩
        · rw [he] at ha
          cases ha
          refine ⟨0, f, emit, rfl, hk, ?_, ?_⟩
          · simpa [hone] using hcov
          · simp [hone]
        · rw [he] at ha
          cases ha
          exact later (seen ++ [f]) haw hgap' (by rw [hone])
      · refine later seen (h.foreign hroom.1 hk ha) hgap ?_
        simp [fragments, ofKey, hk]

end FragSets

end RustCrash.Lib
