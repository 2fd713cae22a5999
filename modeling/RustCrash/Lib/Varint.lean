import RustCrash.Lib.Bytes

/-
  Unsigned LEB128 numbers of 64 bits: seven bits a byte, low ones first, and the top bit
  set on every byte but the last. A number of more than ten bytes is refused, and bits
  beyond the 64th are lost.
-/

namespace RustCrash.Lib

/-! ## Groups of seven bits -/

/-- The bytes of a number; its last group may be zero. -/
inductive Groups : Nat → Bytes → Prop where
  | last {b : UInt8} (hb : b < 0x80) : Groups b.toNat [b]
  | more {b : UInt8} {n : Nat} {bs : Bytes} (hb : b < 0x80) (rest : Groups n bs) :
    Groups (b.toNat + 128 * n) ((b ||| 0x80) :: bs)

/-- A group as the last byte, and with more behind it. -/
theorem group_byte (b : UInt8) (hb : b < 0x80) :
    (b &&& 0x7f = b ∧ b &&& 0x80 = 0) ∧
      (b ||| 0x80) &&& 0x7f = b ∧ (b ||| 0x80) &&& 0x80 ≠ 0 := by
  obtain ⟨⟨b⟩⟩ := b
  revert b
  decide +kernel

theorem Groups.ne_nil {n : Nat} {bs : Bytes} (h : Groups n bs) : bs ≠ [] := by
  cases h <;> exact List.cons_ne_nil _ _

theorem Groups.lt {n : Nat} {bs : Bytes} (h : Groups n bs) : n < 128 ^ bs.length := by
  induction h with
  | last hb =>
    rw [UInt8.lt_iff_toNat_lt] at hb
    simpa using hb
  | @more b n bs hb rest ih =>
    rw [UInt8.lt_iff_toNat_lt] at hb
    have hb' : b.toNat < 128 := hb
    rw [List.length_cons, Nat.pow_succ]
    omega

/-! ## Reading -/

/-- The loop of a varint reader; the budget is the number of bytes still allowed. -/
def uvarintLoop : (budget : Nat) → (shift value : UInt64) → Bytes → Option (UInt64 × Bytes)
  | 0, _, _, _ => none
  | _, _, _, [] => none
  | budget + 1, shift, value, b :: rest =>
    let value := value ||| ((b &&& 0x7F).toUInt64 <<< shift)
    if b &&& 0x80 = 0 then some (value, rest) else uvarintLoop budget (shift + 7) value rest

def uvarint (bs : Bytes) : Option (UInt64 × Bytes) := uvarintLoop 10 0 0 bs

theorem uvarintLoop_length_lt {budget : Nat} {shift value v : UInt64} {bs rest : Bytes}
    (h : uvarintLoop budget shift value bs = some (v, rest)) : rest.length < bs.length := by
  fun_induction uvarintLoop budget shift value bs with
  | case1 | case2 => cases h
  | case3 budget shift value b rest' value' hlast =>
    simp only [Option.some.injEq, Prod.mk.injEq] at h
    simp [h.2]
  | case4 budget shift value b rest' value' hlast ih => exact (ih h).trans (Nat.lt_succ_self _)

theorem uvarint_length_lt {v : UInt64} {bs rest : Bytes} (h : uvarint bs = some (v, rest)) :
    rest.length < bs.length := uvarintLoop_length_lt h

theorem toNat_group {g : UInt8} {s : Nat} (hs : s < 64) (hfit : g.toNat * 2 ^ s < 2 ^ 64) :
    (g.toUInt64 <<< UInt64.ofNat s).toNat = g.toNat * 2 ^ s := by
  have hlt : s < UInt64.size := by
    show s < 2 ^ 64
    omega
  rw [UInt64.toNat_shiftLeft, UInt8.toNat_toUInt64, UInt64.toNat_ofNat_of_lt' hlt,
    Nat.mod_eq_of_lt hs, Nat.shiftLeft_eq, Nat.mod_eq_of_lt hfit]

/-- A group put on top of the bits read so far. -/
theorem or_group {g : UInt8} {s v : Nat} (hs : s < 64) (hv : v < 2 ^ s)
    (hfit : v + g.toNat * 2 ^ s < 2 ^ 64) :
    UInt64.ofNat v ||| (g.toUInt64 <<< UInt64.ofNat s) = UInt64.ofNat (v + g.toNat * 2 ^ s) := by
  have hv' : v < 2 ^ 64 := by omega
  apply UInt64.toNat_inj.mp
  rw [UInt64.toNat_or, toNat_group hs (by omega), UInt64.toNat_ofNat_of_lt' hv',
    UInt64.toNat_ofNat_of_lt' hfit, Nat.or_comm, ← Nat.shiftLeft_eq,
    ← Nat.shiftLeft_add_eq_or_of_lt hv, Nat.add_comm]

theorem uvarintLoop_groups {n : Nat} {bs : Bytes} (h : Groups n bs) {budget s v : Nat}
    (hlen : bs.length ≤ budget) (hs : s + 7 * budget = 70) (hv : v < 2 ^ s)
    (hfit : v + n * 2 ^ s < 2 ^ 64) (rest : Bytes) :
    uvarintLoop budget (UInt64.ofNat s) (UInt64.ofNat v) (bs ++ rest) =
      some (UInt64.ofNat (v + n * 2 ^ s), rest) := by
  induction h generalizing budget s v with
  | @last b hb =>
    obtain ⟨k, rfl⟩ : ∃ k, budget = k + 1 := ⟨budget - 1, by simp at hlen; omega⟩
    obtain ⟨⟨hlow, hlast⟩, -⟩ := group_byte b hb
    simp [uvarintLoop, hlow, hlast, or_group (by omega) hv hfit]
  | @more b n bs hb _ ih =>
    obtain ⟨k, rfl⟩ : ∃ k, budget = k + 1 := ⟨budget - 1, by simp at hlen; omega⟩
    obtain ⟨-, hhigh, hmore⟩ := group_byte b hb
    have hpow : 2 ^ (s + 7) = 2 ^ s * 128 := Nat.pow_add 2 s 7
    have hsum : v + (b.toNat + 128 * n) * 2 ^ s = v + b.toNat * 2 ^ s + n * 2 ^ (s + 7) := by
      rw [hpow]
      ring
    have hb' : b.toNat < 128 := UInt8.lt_iff_toNat_lt.mp hb
    have hv' : v + b.toNat * 2 ^ s < 2 ^ (s + 7) := by
      rw [hpow]
      nlinarith
    rw [hsum] at hfit ⊢
    rw [List.cons_append, uvarintLoop, hhigh, if_neg hmore, or_group (by omega) hv (by omega)]
    have hshift : UInt64.ofNat s + 7 = UInt64.ofNat (s + 7) := (UInt64.ofNat_add s 7).symm
    rw [hshift]
    exact ih (by simpa using hlen) (by omega) hv' hfit

/-- A number of at most ten bytes that fits 64 bits is read back. -/
theorem uvarint_groups {n : Nat} {bs : Bytes} (h : Groups n bs) (hlen : bs.length ≤ 10)
    (hfit : n < 2 ^ 64) (rest : Bytes) : uvarint (bs ++ rest) = some (UInt64.ofNat n, rest) := by
  have := uvarintLoop_groups h hlen rfl (by decide : 0 < 2 ^ 0) (by simpa using hfit) rest
  simpa [uvarint] using this

end RustCrash.Lib
