import RustCrash.Tls13.Stream

/-
  The other end of the writing half: it takes whole records off the wire one after the other and
  opens each under its own count and key, and a KeyUpdate that it opens changes the key.

  A record sealed by the writing half opens for a peer that has the same key and count
  (`openOne_sealRecord`).
-/

namespace RustCrash.Tls13

open Lib Proto

inductive Event where
  | appData (data : Bytes)
  | keyUpdate
  | closeNotify
  deriving DecidableEq

def Event.data : Event → Bytes
  | appData data => data
  | _ => []

/-- The application data of what was opened. -/
def appData (events : List Event) : Bytes := events.flatMap Event.data

@[simp] theorem appData_append (xs ys : List Event) :
    appData (xs ++ ys) = appData xs ++ appData ys := List.flatMap_append

structure Peer (suite : CipherSuite) where
  key : RecordProtector
  secret : Secret suite

namespace Peer

variable (K : Hkdf) {suite : CipherSuite}

def start (secret : Secret suite) : Peer suite := ⟨.new K secret, secret⟩

def rotate (p : Peer suite) : Peer suite := start K (nextTrafficSecret K p.secret)

/-- The messages that a client sends. -/
def event (p : Peer suite) (innerType : UInt8) (data : Bytes) : Option (Event × Peer suite) :=
  if innerType = recordApp then some (.appData data, p)
  else if innerType = recordHandshake ∧ data = hsMessage hsKeyUpdate [0] then
    some (.keyUpdate, p.rotate K)
  else if innerType = recordAlert ∧ data = [1, 0] then some (.closeNotify, p)
  else none

def openOne (p : Peer suite) (wire : Bytes) : Option (Event × Peer suite × Bytes) :=
  if Whole wire then
    let len := 5 + recordLen wire
    let (key, r) := p.key.openRecord (wire.take len)
    match r with
    | .error _ => none
    | .ok (innerType, data) =>
      (event K { p with key := key } innerType data).map fun (e, p) => (e, p, wire.drop len)
  else none

def openFor : (rounds : Nat) → Peer suite → Bytes → Option (List Event × Peer suite)
  | 0, p, wire => if wire = [] then some ([], p) else none
  | rounds + 1, p, wire =>
    if wire = [] then some ([], p)
    else do
      let (e, p, wire) ← p.openOne K wire
      let (events, p) ← openFor rounds p wire
      some (e :: events, p)

/-- The whole wire opens; every record takes bytes. -/
def openAll (p : Peer suite) (wire : Bytes) : Option (List Event × Peer suite) :=
  openFor K wire.length p wire

variable {K} {p q r : Peer suite} {wire rest : Bytes} {e : Event}

theorem openOne_eq_some (h : p.openOne K wire = some (e, q, rest)) :
    Whole wire ∧ rest = wire.drop (5 + recordLen wire) := by
  unfold openOne at h
  split_ifs at h with hwhole
  dsimp only at h
  cases hr : (p.key.openRecord (wire.take (5 + recordLen wire))).2 with
  | error err =>
    rw [hr] at h
    cases h
  | ok data =>
    rw [hr] at h
    obtain ⟨⟨e', q'⟩, -, h⟩ := Option.map_eq_some_iff.mp h
    cases h
    exact ⟨hwhole, rfl⟩

theorem openOne_rest (h : p.openOne K wire = some (e, q, rest)) : rest.length < wire.length := by
  obtain ⟨⟨hhead, -⟩, rfl⟩ := openOne_eq_some h
  rw [List.length_drop]
  omega

theorem Whole.append {more : Bytes} (h : Whole wire) : Whole (wire ++ more) := by
  obtain ⟨hhead, hbody⟩ := h
  unfold Whole
  rw [recordLen_append hhead, List.length_append]
  omega

/-- More bytes behind a record do not change how it opens. -/
theorem openOne_append (more : Bytes) (h : p.openOne K wire = some (e, q, rest)) :
    p.openOne K (wire ++ more) = some (e, q, rest ++ more) := by
  obtain ⟨hwhole, hrest⟩ := openOne_eq_some h
  unfold openOne at h ⊢
  rw [if_pos hwhole] at h
  rw [if_pos (Whole.append hwhole), recordLen_append hwhole.1]
  dsimp only at h ⊢
  rw [List.take_append_of_le_length hwhole.2, List.drop_append_of_le_length hwhole.2]
  cases hr : (p.key.openRecord (wire.take (5 + recordLen wire))).2 with
  | error err =>
    rw [hr] at h
    cases h
  | ok data =>
    rw [hr] at h
    dsimp only at h ⊢
    obtain ⟨⟨e', q'⟩, hevent, h⟩ := Option.map_eq_some_iff.mp h
    cases h
    rw [hevent]
    rfl

@[simp] theorem openFor_nil (rounds : Nat) : openFor K rounds p [] = some ([], p) := by
  cases rounds <;> rfl

theorem openFor_succ {rounds : Nat} {events : List Event}
    (h : openFor K (rounds + 1) p wire = some (events, r)) :
    wire = [] ∧ events = [] ∧ r = p ∨
      ∃ e q rest events', p.openOne K wire = some (e, q, rest) ∧
        openFor K rounds q rest = some (events', r) ∧ events = e :: events' := by
  unfold openFor at h
  split_ifs at h with hnil
  · cases h
    exact .inl ⟨hnil, rfl, rfl⟩
  · obtain ⟨⟨e, q, rest⟩, hone, h⟩ := Option.bind_eq_some_iff.mp h
    obtain ⟨⟨events', r'⟩, hmore, h⟩ := Option.bind_eq_some_iff.mp h
    cases h
    exact .inr ⟨e, q, rest, events', hone, hmore, rfl⟩

theorem openFor_cons {rounds : Nat} {events : List Event}
    (hone : p.openOne K wire = some (e, q, rest)) (h : openFor K rounds q rest = some (events, r)) :
    openFor K (rounds + 1) p wire = some (e :: events, r) := by
  have hne : wire ≠ [] := by
    rintro rfl
    exact absurd (openOne_rest hone) (Nat.not_lt_zero _)
  unfold openFor
  rw [if_neg hne, hone, Option.bind_eq_bind, Option.bind_some]
  dsimp only
  rw [h]
  rfl

theorem openFor_more {rounds rounds' : Nat} (hrounds : rounds ≤ rounds') {events : List Event}
    (h : openFor K rounds p wire = some (events, r)) :
    openFor K rounds' p wire = some (events, r) := by
  induction rounds' generalizing rounds p wire events with
  | zero =>
    rw [Nat.le_zero.mp hrounds] at h
    exact h
  | succ rounds' ih =>
    cases rounds with
    | zero =>
      unfold openFor at h
      split_ifs at h with hnil
      rw [hnil, openFor_nil]
      exact h
    | succ rounds =>
      rcases openFor_succ h with ⟨rfl, rfl, rfl⟩ | ⟨e, q, rest, events', hone, hmore, rfl⟩
      · rw [openFor_nil]
      · exact openFor_cons hone (ih (Nat.le_of_succ_le_succ hrounds) hmore)

/-- As many rounds as there are bytes are enough. -/
theorem openAll_of_openFor {rounds : Nat} {events : List Event}
    (h : openFor K rounds p wire = some (events, r)) : p.openAll K wire = some (events, r) := by
  unfold openAll
  induction rounds generalizing p wire events with
  | zero =>
    unfold openFor at h
    split_ifs at h with hnil
    rw [hnil, openFor_nil]
    exact h
  | succ rounds ih =>
    rcases openFor_succ h with ⟨rfl, rfl, rfl⟩ | ⟨e, q, rest, events', hone, hmore, rfl⟩
    · rw [openFor_nil]
    · have hrest := openOne_rest hone
      have hsucc : wire.length = wire.length - 1 + 1 := by omega
      rw [hsucc]
      exact openFor_cons hone (openFor_more (by omega) (ih hmore))

/-- A wire that opens, and another that opens behind it. -/
theorem openAll_append {events events' : List Event} {more : Bytes}
    (h : p.openAll K wire = some (events, q)) (h' : q.openAll K more = some (events', r)) :
    p.openAll K (wire ++ more) = some (events ++ events', r) := by
  unfold openAll at h
  generalize wire.length = rounds at h
  induction rounds generalizing p wire events with
  | zero =>
    unfold openFor at h
    split_ifs at h with hnil
    cases h
    rw [hnil]
    exact h'
  | succ rounds ih =>
    rcases openFor_succ h with ⟨rfl, rfl, rfl⟩ | ⟨e, q', rest, events', hone, hmore, rfl⟩
    · exact h'
    · exact openAll_of_openFor (openFor_cons (openOne_append more hone) (ih hmore))

/-- A record of the writing half, for a peer that has got as far. -/
theorem openOne_sealRecord {key : RecordProtector} {innerType : UInt8} {data record : Bytes}
    (htype : innerType ≠ 0) (h : p.key.sealRecord innerType data = (key, .ok record))
    (hevent : event K { p with key := key } innerType data = some (e, q)) :
    p.openAll K record = some ([e], q) := by
  obtain ⟨hshort, hinner⟩ := RecordProtector.sealRecord_eq_ok h
  have hinnerLen : (data ++ [innerType] ++ List.replicate 0 0).length = data.length + 1 := by
    simp
  have hlen := RecordProtector.length_sealInner hinner
  have hbody := RecordProtector.recordLen_sealInner hinner (by
    unfold maxPlaintext at hshort
    omega)
  have hwhole : Whole record := ⟨by omega, by omega⟩
  have hone : p.openOne K record = some (e, q, []) := by
    unfold openOne
    rw [if_pos hwhole]
    dsimp only
    rw [List.take_of_length_le (by omega), RecordProtector.openRecord_sealRecord htype h]
    dsimp only
    rw [hevent, List.drop_of_length_le (by omega)]
    rfl
  exact openAll_of_openFor (openFor_cons hone (openFor_nil 0))

end Peer

end RustCrash.Tls13
