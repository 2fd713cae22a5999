import RustCrash.Lib.Varint

/-
  Protobuf messages: a message is a run of fields, each a header (field number and wire
  type in one varint) and a value whose wire type says where it ends.

  `FieldReader.readMessage` is the loop of a hand-written decoder, which reads a header and leaves
  the value to its reader.
-/

namespace RustCrash.Lib

namespace Protobuf

/-! ## Reading -/

/-- The next `n` bytes. -/
def takeLen (n : Nat) (bs : Bytes) : Option (Bytes × Bytes) :=
  if n ≤ bs.length then some (bs.take n, bs.drop n) else none

/-- A field's number and wire type. -/
def fieldHeader (bs : Bytes) : Option ((UInt32 × UInt8) × Bytes) :=
  (uvarint bs).map fun (key, rest) => (((key >>> 3).toUInt32, (key &&& 0x7).toUInt8), rest)

/-- The bytes behind a value of wire type `wire`. -/
def skipField (wire : UInt8) (bs : Bytes) : Option Bytes :=
  match wire.toNat with
  | 0 => (uvarint bs).map (·.2)
  | 1 => (takeLen 8 bs).map (·.2)
  | 2 => (uvarint bs).bind fun (len, rest) => (takeLen len.toNat rest).map (·.2)
  | 5 => (takeLen 4 bs).map (·.2)
  | _ => none

theorem takeLen_append {n : Nat} {bs : Bytes} (h : bs.length = n) (rest : Bytes) :
    takeLen n (bs ++ rest) = some (bs, rest) := by
  simp [takeLen, ← h]

theorem takeLen_length_le {n : Nat} {bs out rest : Bytes} (h : takeLen n bs = some (out, rest)) :
    rest.length ≤ bs.length := by
  unfold takeLen at h
  split_ifs at h
  simp only [Option.some.injEq, Prod.mk.injEq] at h
  simp [← h.2]

theorem fieldHeader_length_lt {bs rest : Bytes} {key : UInt32 × UInt8}
    (h : fieldHeader bs = some (key, rest)) : rest.length < bs.length := by
  obtain ⟨⟨k, rest'⟩, hk, he⟩ := Option.map_eq_some_iff.mp h
  simp only [Prod.mk.injEq] at he
  rw [← he.2]
  exact uvarint_length_lt hk

theorem skipField_length_le {wire : UInt8} {bs rest : Bytes} (h : skipField wire bs = some rest) :
    rest.length ≤ bs.length := by
  unfold skipField at h
  split at h
  · obtain ⟨⟨v, rest'⟩, hv, rfl⟩ := Option.map_eq_some_iff.mp h
    exact (uvarint_length_lt hv).le
  · obtain ⟨⟨out, rest'⟩, ht, rfl⟩ := Option.map_eq_some_iff.mp h
    exact takeLen_length_le ht
  · obtain ⟨⟨len, mid⟩, hl, h⟩ := Option.bind_eq_some_iff.mp h
    obtain ⟨⟨out, rest'⟩, ht, rfl⟩ := Option.map_eq_some_iff.mp h
    exact (takeLen_length_le ht).trans (uvarint_length_lt hl).le
  · obtain ⟨⟨out, rest'⟩, ht, rfl⟩ := Option.map_eq_some_iff.mp h
    exact takeLen_length_le ht
  · cases h

/-- What a decoder does with one field: it reads the value behind the header. -/
structure FieldReader (σ ε : Type) where
  read : σ → UInt32 → UInt8 → Bytes → Except ε (σ × Bytes)
  keeps {s s' : σ} {number : UInt32} {wire : UInt8} {bs rest : Bytes} :
    read s number wire bs = .ok (s', rest) → rest.length ≤ bs.length

namespace FieldReader

variable {σ ε : Type} (r : FieldReader σ ε) (truncated : ε)

/-- At most `budget` fields. -/
def readFields : (budget : Nat) → σ → Bytes → Except ε σ
  | 0, s, _ => .ok s
  | budget + 1, s, bs =>
    if bs = [] then .ok s
    else
      match fieldHeader bs with
      | none => .error truncated
      | some ((number, wire), rest) =>
        match r.read s number wire rest with
        | .error e => .error e
        | .ok (s', rest') => readFields budget s' rest'

/-- Every field of the message. -/
def readMessage (s : σ) (bs : Bytes) : Except ε σ := r.readFields truncated bs.length s bs

/-- Every turn takes a byte, so a budget as large as the message is never used up. -/
theorem readFields_of_le {n m : Nat} {s : σ} {bs : Bytes} (hn : bs.length ≤ n)
    (hm : bs.length ≤ m) : r.readFields truncated n s bs = r.readFields truncated m s bs := by
  induction n generalizing m s bs with
  | zero =>
    rw [List.length_eq_zero_iff.mp (Nat.le_zero.mp hn)]
    cases m <;> rfl
  | succ n ih =>
    cases m with
    | zero => rw [List.length_eq_zero_iff.mp (Nat.le_zero.mp hm)]; rfl
    | succ m =>
      unfold readFields
      split_ifs with hnil
      · rfl
      · split
        · rfl
        · rename_i number wire rest hhead
          split
          · rfl
          · rename_i s' rest' hread
            have hlt := fieldHeader_length_lt hhead
            have hle := r.keeps hread
            exact ih (by omega) (by omega)

/-- One turn of the loop. -/
theorem readMessage_eq (s : σ) (bs : Bytes) :
    r.readMessage truncated s bs =
      if bs = [] then .ok s
      else
        match fieldHeader bs with
        | none => .error truncated
        | some ((number, wire), rest) =>
          match r.read s number wire rest with
          | .error e => .error e
          | .ok (s', rest') => r.readMessage truncated s' rest' := by
  unfold readMessage
  cases bs with
  | nil => rfl
  | cons b bs =>
    rw [List.length_cons, readFields]
    simp only [reduceCtorEq, if_false]
    split
    · rfl
    · rename_i number wire rest hhead
      split
      · rfl
      · rename_i s' rest' hread
        have hlt := fieldHeader_length_lt hhead
        have hle := r.keeps hread
        rw [List.length_cons] at hlt
        exact r.readFields_of_le truncated (by omega) le_rfl

end FieldReader

/-! ## Messages -/

/-- The bytes of a varint; more groups than the number needs are allowed, up to ten. -/
structure Varint (n : Nat) (bs : Bytes) : Prop where
  groups : Groups n bs
  length_le : bs.length ≤ 10
  lt : n < 2 ^ 64

/-- A number below 128 in its one byte. -/
theorem Varint.single {n : Nat} {b : UInt8} (hb : b < 0x80) (hn : b.toNat = n) : Varint n [b] where
  groups := hn ▸ .last hb
  length_le := by simp
  lt := hn ▸ b.toNat_lt.trans (by decide)

theorem Varint.read {n : Nat} {bs : Bytes} (h : Varint n bs) (rest : Bytes) :
    uvarint (bs ++ rest) = some (UInt64.ofNat n, rest) :=
  uvarint_groups h.groups h.length_le h.lt rest

inductive Value where
  | varint (n : UInt64)
  | fixed64 (bs : Bytes) (h : bs.length = 8)
  | len (payload : Bytes)
  | fixed32 (bs : Bytes) (h : bs.length = 4)

namespace Value

/-- The wire type. -/
def wire : Value → UInt8
  | varint _ => 0
  | fixed64 _ _ => 1
  | len _ => 2
  | fixed32 _ _ => 5

/-- The bytes of a value, behind its header. -/
inductive Encodes : Value → Bytes → Prop where
  | varint {n : UInt64} {bs : Bytes} (h : Varint n.toNat bs) : Encodes (.varint n) bs
  | fixed64 {bs : Bytes} (h : bs.length = 8) : Encodes (.fixed64 bs h) bs
  | len {payload size : Bytes} (h : Varint payload.length size) :
    Encodes (.len payload) (size ++ payload)
  | fixed32 {bs : Bytes} (h : bs.length = 4) : Encodes (.fixed32 bs h) bs

/-- A payload whose length is one byte. -/
theorem Encodes.len_byte (payload : Bytes) (size : UInt8) (hlt : size < 0x80)
    (hsize : size.toNat = payload.length) : Encodes (.len payload) (size :: payload) :=
  .len (.single hlt hsize)

theorem wire_lt (v : Value) : v.wire.toNat < 8 := by cases v <;> simp [wire]

/-- The payload of a length-delimited value is found. -/
theorem read_len {payload size : Bytes} (h : Varint payload.length size) (rest : Bytes) :
    ∃ len, uvarint (size ++ (payload ++ rest)) = some (len, payload ++ rest) ∧
      takeLen len.toNat (payload ++ rest) = some (payload, rest) := by
  refine ⟨UInt64.ofNat payload.length, h.read _, ?_⟩
  rw [UInt64.toNat_ofNat_of_lt' h.lt]
  exact takeLen_append rfl rest

theorem Encodes.skip {v : Value} {bs : Bytes} (h : v.Encodes bs) (rest : Bytes) :
    skipField v.wire (bs ++ rest) = some rest := by
  cases h with
  | varint h => simp [skipField, wire, h.read]
  | fixed64 h => simp [skipField, wire, takeLen_append h]
  | len h =>
    obtain ⟨len, hlen, htake⟩ := read_len h rest
    simp [skipField, wire, hlen, htake]
  | fixed32 h => simp [skipField, wire, takeLen_append h]

end Value

/-- A field; its number is one that a schema can give. -/
structure Field where
  number : Nat
  value : Value
  pos : 0 < number := by decide
  lt : number < 2 ^ 29 := by decide

/-- The bytes of a message. -/
inductive Encodes : List Field → Bytes → Prop where
  | nil : Encodes [] []
  | cons {f : Field} {fs : List Field} {key bs rest : Bytes}
    (hkey : Varint (8 * f.number + f.value.wire.toNat) key) (hvalue : f.value.Encodes bs)
    (more : Encodes fs rest) : Encodes (f :: fs) (key ++ (bs ++ rest))

/-- A message with the fields `known`, and others whose numbers are not among `used`
    anywhere between them. -/
def MessageOf (used : List Nat) (known : List Field) (bs : Bytes) : Prop :=
  ∃ fs, Encodes fs bs ∧ fs.filter (fun f => f.number ∈ used) = known

/-- A field whose header is one byte. -/
theorem Encodes.cons_byte (f : Field) (key : UInt8) {fs : List Field} {bs rest : Bytes}
    (hlt : key < 0x80) (hkey : key.toNat = 8 * f.number + f.value.wire.toNat)
    (hvalue : f.value.Encodes bs) (more : Encodes fs rest) :
    Encodes (f :: fs) (key :: (bs ++ rest)) :=
  .cons (.single hlt hkey) hvalue more

theorem messageOf_self {used : List Nat} {fs : List Field} {bs : Bytes} (h : Encodes fs bs)
    (hused : ∀ f ∈ fs, f.number ∈ used) : MessageOf used fs bs :=
  ⟨fs, h, List.filter_eq_self.mpr fun f hf => by simpa using hused f hf⟩

theorem Field.toNat_number (f : Field) : (UInt32.ofNat f.number).toNat = f.number :=
  UInt32.toNat_ofNat_of_lt' (f.lt.trans (by decide))

theorem Field.header (f : Field) {key : Bytes}
    (h : Varint (8 * f.number + f.value.wire.toNat) key) (rest : Bytes) :
    fieldHeader (key ++ rest) = some ((UInt32.ofNat f.number, f.value.wire), rest) := by
  have hw := f.value.wire_lt
  have hn := f.lt
  have hkey := UInt64.toNat_ofNat_of_lt' h.lt
  have hnumber : (UInt64.ofNat (8 * f.number + f.value.wire.toNat) >>> 3).toUInt32 =
      UInt32.ofNat f.number := by
    apply UInt32.toNat_inj.mp
    rw [UInt64.toNat_toUInt32, UInt64.toNat_shiftRight, hkey, UInt32.toNat_ofNat']
    congr 1
    show (8 * f.number + f.value.wire.toNat) >>> 3 = f.number
    rw [Nat.shiftRight_eq_div_pow]
    omega
  have hwire : (UInt64.ofNat (8 * f.number + f.value.wire.toNat) &&& 0x7).toUInt8 =
      f.value.wire := by
    apply UInt8.toNat_inj.mp
    rw [UInt64.toNat_toUInt8, UInt64.toNat_and, hkey]
    show ((8 * f.number + f.value.wire.toNat) &&& (2 ^ 3 - 1)) % 2 ^ 8 = _
    rw [Nat.and_two_pow_sub_one_eq_mod]
    omega
  simp only [fieldHeader, h.read, Option.map_some, hnumber, hwire]

namespace FieldReader

variable {σ ε : Type} (r : FieldReader σ ε) (truncated : ε)

/-- The reader takes the value of `f`, and `effect` is what it does to the state. -/
def Does (f : Field) (effect : σ → Except ε σ) : Prop :=
  ∀ s bs rest, f.value.Encodes bs →
    r.read s (UInt32.ofNat f.number) f.value.wire (bs ++ rest) =
      (effect s).map fun s' => (s', rest)

/-- A message does what the fields that are used do, one after the other. -/
theorem readMessage_of {used : List Nat} (hother : ∀ f : Field, f.number ∉ used → r.Does f .ok)
    {known : List Field} {effects : List (σ → Except ε σ)}
    (hknown : List.Forall₂ r.Does known effects) {bs : Bytes} (h : MessageOf used known bs)
    (s : σ) : r.readMessage truncated s bs = effects.foldlM (fun s effect => effect s) s := by
  obtain ⟨fs, henc, hfs⟩ := h
  induction henc generalizing known effects s with
  | nil =>
    subst hfs
    cases hknown
    rfl
  | @cons f fs key vb rest hkey hvalue _ ih =>
    have hne : key ++ (vb ++ rest) ≠ [] := List.append_ne_nil_of_left_ne_nil hkey.groups.ne_nil _
    rw [readMessage_eq, if_neg hne, f.header hkey]
    by_cases hf : f.number ∈ used
    · rw [List.filter_cons_of_pos (by simpa using hf)] at hfs
      subst hfs
      obtain ⟨effect, effects, hdoes, hrest, rfl⟩ := List.forall₂_cons_left_iff.mp hknown
      simp only [hdoes s vb rest hvalue, List.foldlM_cons]
      cases effect s with
      | error e => rfl
      | ok s' => exact ih hrest s' rfl
    · rw [List.filter_cons_of_neg (by simpa using hf)] at hfs
      simp only [hother f hf s vb rest hvalue]
      exact ih hknown s hfs

end FieldReader

end Protobuf

end RustCrash.Lib
