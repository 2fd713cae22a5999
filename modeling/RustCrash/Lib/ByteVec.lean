import RustCrash.Lib.Bytes

/-
  Byte arrays of a fixed length (`[u8; n]`), slices of a byte string, and the little-endian
  integers of the WireGuard messages.

  A message is fields of known lengths, one after the other. `slice_skip` and `slice_here`
  walk a slice over the fields in front of it, so reading a field back from a message that
  was put together is rewriting.
-/

namespace RustCrash.Lib

/-- `[u8; n]`. -/
abbrev ByteVec (n : Nat) := { bs : Bytes // bs.length = n }

namespace ByteVec

/-- `[0u8; n]`. -/
def zero (n : Nat) : ByteVec n := ⟨List.replicate n 0, List.length_replicate⟩

/-- `try_into`. -/
def ofBytes? (n : Nat) (bs : Bytes) : Option (ByteVec n) :=
  if h : bs.length = n then some ⟨bs, h⟩ else none

@[simp] theorem length_val {n : Nat} (v : ByteVec n) : v.val.length = n := v.property

theorem ofBytes?_val {n : Nat} (v : ByteVec n) : ofBytes? n v.val = some v := dif_pos v.property

end ByteVec

/-! ## Slices -/

/-- `bs[a..a + n]`. -/
def slice (bs : Bytes) (a n : Nat) : Bytes := (bs.drop a).take n

theorem length_slice {bs : Bytes} {a n : Nat} (h : a + n ≤ bs.length) :
    (slice bs a n).length = n := by
  unfold slice
  rw [List.length_take, List.length_drop]
  omega

/-- `bs[a..a + n].try_into().unwrap()`. -/
def sliceVec (bs : Bytes) (a n : Nat) (h : a + n ≤ bs.length) : ByteVec n :=
  ⟨slice bs a n, length_slice h⟩

theorem slice_skip {x rest : Bytes} {k a n : Nat} (hx : x.length = k) :
    slice (x ++ rest) (a + k) n = slice rest a n := by
  unfold slice
  rw [List.drop_append, List.drop_eq_nil_of_le (by omega), List.nil_append, hx,
    Nat.add_sub_cancel]

theorem slice_here {x rest : Bytes} {n : Nat} (hx : x.length = n) :
    slice (x ++ rest) 0 n = x := by
  unfold slice
  rw [List.drop_zero, List.take_append_of_le_length (by omega), List.take_of_length_le (by omega)]

theorem slice_all {x : Bytes} {n : Nat} (hx : x.length = n) : slice x 0 n = x := by
  unfold slice
  rw [List.drop_zero, List.take_of_length_le (by omega)]

/-- A slice of the first bytes. -/
theorem slice_of_take {xs ys : Bytes} {k a n : Nat} (h : xs.take k = ys.take k)
    (hk : a + n ≤ k) : slice xs a n = slice ys a n := by
  have hslice (zs : Bytes) : slice zs a n = slice (zs.take k) a n := by
    rw [slice, slice, List.drop_take, List.take_take, Nat.min_eq_left (by omega)]
  rw [hslice xs, h, ← hslice ys]

theorem getD_of_take {xs ys : Bytes} {k i : Nat} (h : xs.take k = ys.take k) (hi : i < k) :
    xs.getD i 0 = ys.getD i 0 := by
  have hget (zs : Bytes) : zs.getD i 0 = (zs.take k).getD i 0 := by
    rw [List.getD_eq_getElem?_getD, List.getD_eq_getElem?_getD, List.getElem?_take_of_lt hi]
  rw [hget xs, h, ← hget ys]

theorem slice_take {xs : Bytes} {k a n : Nat} (h : a + n ≤ k) : slice (xs.take k) a n = slice xs a n :=
  slice_of_take (by rw [List.take_take, Nat.min_self]) h

theorem slice_append_left {xs ys : Bytes} {a n : Nat} (h : a + n ≤ xs.length) :
    slice (xs ++ ys) a n = slice xs a n :=
  slice_of_take (k := xs.length) (by rw [List.take_left, List.take_length]) h

/-! ## Slices of what was written in place -/

section

variable {raw bs : Bytes} {p a n : Nat}

theorem slice_setBytes_self (h : p + bs.length ≤ raw.length) :
    slice (setBytes raw p bs) p bs.length = bs := by
  have htake : (raw.take p).length = p := by rw [List.length_take, Nat.min_eq_left (by omega)]
  unfold slice setBytes
  rw [List.append_assoc, List.drop_left' htake, List.take_left]

theorem slice_setBytes_before (h : p + bs.length ≤ raw.length) (ha : a + n ≤ p) :
    slice (setBytes raw p bs) a n = slice raw a n :=
  slice_of_take (take_setBytes h (le_refl p)) ha

theorem slice_setBytes_after (h : p + bs.length ≤ raw.length) (ha : p + bs.length ≤ a) :
    slice (setBytes raw p bs) a n = slice raw a n := by
  unfold slice
  rw [drop_setBytes h ha]

end

/-- Two fields written, the second behind the first. -/
def setPair (out : Bytes) (a : Nat) (x y : Bytes) : Bytes :=
  setBytes (setBytes out a x) (a + x.length) y

section

variable {out x y : Bytes} {a : Nat}

theorem length_setPair (h : a + x.length + y.length ≤ out.length) :
    (setPair out a x y).length = out.length := by
  have hx : (setBytes out a x).length = out.length := length_setBytes (by omega)
  unfold setPair
  rw [length_setBytes (by omega), hx]

theorem slice_setPair_fst (h : a + x.length + y.length ≤ out.length) :
    slice (setPair out a x y) a x.length = x := by
  have hx : (setBytes out a x).length = out.length := length_setBytes (by omega)
  unfold setPair
  rw [slice_setBytes_before (by omega) (le_refl _), slice_setBytes_self (by omega)]

theorem slice_setPair_snd (h : a + x.length + y.length ≤ out.length) :
    slice (setPair out a x y) (a + x.length) y.length = y := by
  have hx : (setBytes out a x).length = out.length := length_setBytes (by omega)
  exact slice_setBytes_self (by omega)

theorem take_setPair (h : a + x.length + y.length ≤ out.length) {k : Nat} (hk : k ≤ a) :
    (setPair out a x y).take k = out.take k := by
  have hx : (setBytes out a x).length = out.length := length_setBytes (by omega)
  unfold setPair
  rw [take_setBytes (by omega) (by omega), take_setBytes (by omega) hk]

theorem drop_setPair (h : a + x.length + y.length ≤ out.length) {k : Nat}
    (hk : a + x.length + y.length ≤ k) : (setPair out a x y).drop k = out.drop k := by
  have hx : (setBytes out a x).length = out.length := length_setBytes (by omega)
  unfold setPair
  rw [drop_setBytes (by omega) hk, drop_setBytes (by omega) (by omega)]

theorem setPair_append (h : a + x.length + y.length ≤ out.length) (m : Bytes) :
    setPair (out ++ m) a x y = setPair out a x y ++ m := by
  have hx : (setBytes out a x).length = out.length := length_setBytes (by omega)
  unfold setPair
  rw [setBytes_append (by omega), setBytes_append (by omega)]

end

/-- A mask that is put on twice. -/
theorem zipWith_xor_twice : ∀ {xs ks : Bytes}, xs.length ≤ ks.length →
    (xs.zipWith (· ^^^ ·) ks).zipWith (· ^^^ ·) ks = xs
  | [], _, _ => by simp
  | x :: xs, [], h => by simp at h
  | x :: xs, k :: ks, h => by
    have hrest : xs.length ≤ ks.length := by simpa using h
    rw [List.zipWith_cons_cons, List.zipWith_cons_cons, zipWith_xor_twice hrest,
      UInt8.xor_assoc, UInt8.xor_self, UInt8.xor_zero]

/-- A mask that is longer than it needs to be. -/
theorem zipWith_xor_append : ∀ {xs ks : Bytes} (more : Bytes), xs.length ≤ ks.length →
    xs.zipWith (· ^^^ ·) (ks ++ more) = xs.zipWith (· ^^^ ·) ks
  | [], _, _, _ => by simp
  | x :: xs, [], _, h => by simp at h
  | x :: xs, k :: ks, more, h => by
    have hrest : xs.length ≤ ks.length := by simpa using h
    rw [List.cons_append, List.zipWith_cons_cons, List.zipWith_cons_cons,
      zipWith_xor_append more hrest]

/-! ## Little-endian integers -/

def le32 (x : UInt32) : Bytes := toLE 4 x.toNat

def ofLE32 (bs : Bytes) : UInt32 := UInt32.ofNat (ofLE bs)

def ofLE64 (bs : Bytes) : UInt64 := UInt64.ofNat (ofLE bs)

@[simp] theorem length_le32 (x : UInt32) : (le32 x).length = 4 := length_toLE _ _

@[simp] theorem length_le64 (x : UInt64) : (le64 x).length = 8 := length_toLE _ _

@[simp] theorem ofLE32_le32 (x : UInt32) : ofLE32 (le32 x) = x := by
  unfold ofLE32 le32
  rw [ofLE_toLE, Nat.mod_eq_of_lt (by simpa using x.toNat_lt), UInt32.ofNat_toNat]

@[simp] theorem ofLE64_le64 (x : UInt64) : ofLE64 (le64 x) = x := by
  unfold ofLE64 le64
  rw [ofLE_toLE, Nat.mod_eq_of_lt (by simpa using x.toNat_lt), UInt64.ofNat_toNat]

theorem length_flatMap_le32 (ws : List UInt32) : (ws.flatMap le32).length = 4 * ws.length := by
  induction ws with
  | nil => rfl
  | cons w ws ih =>
    rw [List.flatMap_cons, List.length_append, ih, length_le32, List.length_cons]
    omega

end RustCrash.Lib
