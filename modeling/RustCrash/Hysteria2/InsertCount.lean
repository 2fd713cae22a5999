import RustCrash.Hysteria2.Qpack

/-
  The Required Insert Count of a field section (`decode_required_insert_count`).

  A count `r` is sent as `r % (2 * M) + 1`, `M` being the entries the advertised capacity has
  room for, and is read back as the one number of that residue among the `2 * M` that end at
  `T + M`, `T` being the inserts so far. The source computes this in `u64` without checks: it
  is right as long as the next multiple of `2 * M` above `T + M` is not above `2 ^ 64`.
-/

namespace RustCrash.Lib

variable {top width a b r : Nat}

/-! ## A window of numbers

The `width` numbers that end at `top` have each residue once. -/

def InWindow (top width n : Nat) : Prop := n ≤ top ∧ top < n + width

theorem InWindow.unique (ha : InWindow top width a) (hb : InWindow top width b)
    (h : a % width = b % width) : a = b := by
  wlog hle : a ≤ b generalizing a b
  · exact (this hb ha h.symm (Nat.le_of_not_le hle)).symm
  have hdvd : width ∣ b - a := (Nat.modEq_iff_dvd' hle).mp h
  have hlt : b - a < width := by
    have := ha.2
    have := hb.1
    omega
  have := Nat.eq_zero_of_dvd_of_lt hdvd hlt
  omega

/-- The last multiple of `width` that is not above `top`. -/
def wrapped (top width : Nat) : Nat := top / width * width

theorem wrapped_le : wrapped top width ≤ top := Nat.div_mul_le_self top width

theorem lt_wrapped_add (h : 0 < width) : top < wrapped top width + width := by
  have := Nat.lt_mul_div_succ top h
  unfold wrapped
  rw [Nat.mul_succ, Nat.mul_comm] at this
  exact this

theorem wrapped_add_mod (hr : r < width) : (wrapped top width + r) % width = r := by
  unfold wrapped
  rw [Nat.mul_comm, Nat.mul_add_mod, Nat.mod_eq_of_lt hr]

theorem wrapped_eq_zero_or (top width : Nat) :
    wrapped top width = 0 ∨ width ≤ wrapped top width := by
  unfold wrapped
  rcases Nat.eq_zero_or_pos (top / width) with h | h
  · exact .inl (by rw [h, Nat.zero_mul])
  · exact .inr (Nat.le_mul_of_pos_left width h)

end RustCrash.Lib

namespace RustCrash.Hysteria2.QpackDecoder

open Lib

variable {enc total cap r : UInt64}

/-! ## Reading a count back -/

/-- `max_capacity / 32`. -/
def maxEntries (cap : UInt64) : Nat := cap.toNat / 32

/-- The encoder's side. -/
def encodeRequiredInsertCount (r maxEntries : Nat) : Nat := r % (2 * maxEntries) + 1

/-- The counts a section may have after `total` inserts. -/
def Required (total maxEntries r : Nat) : Prop :=
  1 ≤ r ∧ r ≤ total + maxEntries ∧ total < r + maxEntries

/-- The decoder reads every count back, and what it reads is a count that is sent so. -/
structure ReadsBack (total cap : UInt64) : Prop where
  inverts : ∀ r : UInt64, Required total.toNat (maxEntries cap) r.toNat →
    decodeRequiredInsertCount
      (UInt64.ofNat (encodeRequiredInsertCount r.toNat (maxEntries cap))) total cap = .ok r
  reencodes : ∀ enc r : UInt64, decodeRequiredInsertCount enc total cap = .ok r → 0 < r →
    Required total.toNat (maxEntries cap) r.toNat ∧
      enc.toNat = encodeRequiredInsertCount r.toNat (maxEntries cap)

/-- No step of the decoder leaves `u64`. -/
def Unwrapped (total maxEntries : Nat) : Prop :=
  wrapped (total + maxEntries) (2 * maxEntries) + 2 * maxEntries ≤ 2 ^ 64

/-- The counts a section may have are a window of `2 * maxEntries` numbers. -/
theorem required_iff {t m n : Nat} (hn : 1 ≤ n) :
    Required t m n ↔ InWindow (t + m) (2 * m) n := by
  unfold Required InWindow
  omega

theorem maxEntries_lt (cap : UInt64) : maxEntries cap < 2 ^ 59 := by
  have := cap.toNat_lt
  unfold maxEntries
  omega

theorem toNat_entries (cap : UInt64) : (cap / 32).toNat = maxEntries cap := by
  rw [UInt64.toNat_div]
  rfl

theorem toNat_range (cap : UInt64) : (2 * (cap / 32)).toNat = 2 * maxEntries cap := by
  have := maxEntries_lt cap
  rw [UInt64.toNat_mul, toNat_entries]
  show 2 * maxEntries cap % 2 ^ 64 = _
  omega

theorem entries_ne_zero (hM : 0 < maxEntries cap) : cap / 32 ≠ 0 := by
  intro hzero
  have hentries := toNat_entries cap
  rw [hzero] at hentries
  exact absurd hentries.symm hM.ne'

theorem toNat_top (hsum : total.toNat + maxEntries cap < 2 ^ 64) :
    (total + cap / 32).toNat = total.toNat + maxEntries cap := by
  rw [UInt64.toNat_add, toNat_entries, Nat.mod_eq_of_lt hsum]

theorem toNat_wrapped (hsum : total.toNat + maxEntries cap < 2 ^ 64) :
    ((total + cap / 32) / (2 * (cap / 32)) * (2 * (cap / 32))).toNat =
      wrapped (total.toNat + maxEntries cap) (2 * maxEntries cap) := by
  have hle : wrapped (total.toNat + maxEntries cap) (2 * maxEntries cap) ≤
      total.toNat + maxEntries cap := wrapped_le
  rw [UInt64.toNat_mul, UInt64.toNat_div, toNat_top hsum, toNat_range]
  exact Nat.mod_eq_of_lt (by unfold wrapped at hle; omega)

/-- The sum the decoder starts with, without the 1 that is sent on top. -/
theorem toNat_count (hsum : total.toNat + maxEntries cap < 2 ^ 64)
    (h : Unwrapped total.toNat (maxEntries cap)) (he : 1 ≤ enc.toNat)
    (hrange : enc.toNat ≤ 2 * maxEntries cap) :
    ((total + cap / 32) / (2 * (cap / 32)) * (2 * (cap / 32)) + enc - 1).toNat =
      wrapped (total.toNat + maxEntries cap) (2 * maxEntries cap) + (enc.toNat - 1) := by
  unfold Unwrapped at h
  rw [UInt64.toNat_sub, UInt64.toNat_add, toNat_wrapped hsum]
  show (2 ^ 64 - 1 + _) % 2 ^ 64 = _
  omega

/-- A decoded value with the residue that was sent, in the window. -/
theorem required_unique {n e : Nat} {x r : UInt64} (hr : 0 < r)
    (hx : x.toNat = n) (hwin : InWindow (total.toNat + maxEntries cap) (2 * maxEntries cap) n)
    (hmod : n % (2 * maxEntries cap) = e - 1) (he : 1 ≤ e) :
    (if x = 0 then .error .countZero else .ok x : QpackResult UInt64) = .ok r ↔
      Required total.toNat (maxEntries cap) r.toNat ∧
        e = encodeRequiredInsertCount r.toNat (maxEntries cap) := by
  have hr' : 1 ≤ r.toNat := UInt64.lt_iff_toNat_lt.mp hr
  rw [required_iff hr']
  unfold encodeRequiredInsertCount
  constructor
  · intro h
    split_ifs at h
    cases h
    rw [hx]
    exact ⟨hwin, by omega⟩
  · rintro ⟨hwin', hmod'⟩
    have hn : r.toNat = n := hwin'.unique hwin (by omega)
    have hxr : x = r := UInt64.toNat_inj.mp (hx.trans hn.symm)
    rw [hxr, if_neg]
    rintro rfl
    exact absurd hr (by decide)

theorem decode_ok_iff (hM : 0 < maxEntries cap) (h : Unwrapped total.toNat (maxEntries cap))
    (hr : 0 < r) : decodeRequiredInsertCount enc total cap = .ok r ↔
      Required total.toNat (maxEntries cap) r.toNat ∧
        enc.toNat = encodeRequiredInsertCount r.toNat (maxEntries cap) := by
  have hlt : total.toNat + maxEntries cap <
      wrapped (total.toNat + maxEntries cap) (2 * maxEntries cap) + 2 * maxEntries cap :=
    lt_wrapped_add (by omega)
  have hle : wrapped (total.toNat + maxEntries cap) (2 * maxEntries cap) ≤
      total.toNat + maxEntries cap := wrapped_le
  have hzero := wrapped_eq_zero_or (total.toNat + maxEntries cap) (2 * maxEntries cap)
  have hsum : total.toNat + maxEntries cap < 2 ^ 64 := hlt.trans_le h
  have hrange := toNat_range cap
  unfold decodeRequiredInsertCount
  dsimp only
  by_cases henc : enc = 0
  · rw [if_pos henc, henc]
    constructor
    · intro hok
      cases hok
      exact absurd hr (by decide)
    · rintro ⟨-, he⟩
      cases he
  have hpos : 0 < enc := UInt64.pos_iff_ne_zero.mpr henc
  have he : 1 ≤ enc.toNat := UInt64.lt_iff_toNat_lt.mp hpos
  rw [if_neg henc, if_neg (entries_ne_zero hM)]
  by_cases hrangeLt : 2 * (cap / 32) < enc
  · rw [if_pos hrangeLt]
    rw [UInt64.lt_iff_toNat_lt, hrange] at hrangeLt
    constructor
    · nofun
    · rintro ⟨-, he'⟩
      have := Nat.mod_lt r.toNat (by omega : 0 < 2 * maxEntries cap)
      unfold encodeRequiredInsertCount at he'
      omega
  rw [if_neg hrangeLt]
  rw [UInt64.lt_iff_toNat_lt, hrange, Nat.not_lt] at hrangeLt
  have hric := toNat_count hsum h he hrangeLt
  have hmod : (wrapped (total.toNat + maxEntries cap) (2 * maxEntries cap) + (enc.toNat - 1)) %
      (2 * maxEntries cap) = enc.toNat - 1 := wrapped_add_mod (by omega)
  generalize (total + cap / 32) / (2 * (cap / 32)) * (2 * (cap / 32)) + enc - 1 = ric at hric ⊢
  generalize wrapped (total.toNat + maxEntries cap) (2 * maxEntries cap) = base at *
  have habove : total + cap / 32 < ric ↔
      total.toNat + maxEntries cap < base + (enc.toNat - 1) := by
    rw [UInt64.lt_iff_toNat_lt, toNat_top hsum, hric]
  have hsmall : ric ≤ 2 * (cap / 32) ↔ base + (enc.toNat - 1) ≤ 2 * maxEntries cap := by
    rw [UInt64.le_iff_toNat_le, hrange, hric]
  by_cases hin : total + cap / 32 < ric
  · have hin' := habove.mp hin
    rw [if_pos hin]
    by_cases hlow : ric ≤ 2 * (cap / 32)
    · -- below the first multiple of the range nothing is above the window
      have hlow' := hsmall.mp hlow
      rw [if_pos hlow]
      constructor
      · nofun
      · rintro ⟨⟨_, hreq, _⟩, he'⟩
        have hr' : r.toNat % (2 * maxEntries cap) = r.toNat := Nat.mod_eq_of_lt (by omega)
        unfold encodeRequiredInsertCount at he'
        omega
    · have hlow' := (not_congr hsmall).mp hlow
      have hback : (ric - 2 * (cap / 32)).toNat =
          base + (enc.toNat - 1) - 2 * maxEntries cap := by
        rw [UInt64.toNat_sub_of_le _ _ (UInt64.le_of_lt (UInt64.not_le.mp hlow)), hric, hrange]
      rw [if_neg hlow]
      refine required_unique hr hback ⟨by omega, by omega⟩ ?_ he
      rw [← Nat.mod_eq_sub_mod (by omega), hmod]
  · have hin' := (not_congr habove).mp hin
    rw [if_neg hin]
    exact required_unique hr hric ⟨by omega, by omega⟩ hmod he

/-- Within `u64` every count is read back. -/
theorem readsBack_of_unwrapped (hM : 0 < maxEntries cap)
    (h : Unwrapped total.toNat (maxEntries cap)) : ReadsBack total cap := by
  refine ⟨fun r hreq => ?_, fun enc r hok hr => (decode_ok_iff hM h hr).mp hok⟩
  have hr : 0 < r := UInt64.lt_iff_toNat_lt.mpr hreq.1
  have hfit : encodeRequiredInsertCount r.toNat (maxEntries cap) < 2 ^ 64 := by
    have := maxEntries_lt cap
    have := Nat.mod_lt r.toNat (by omega : 0 < 2 * maxEntries cap)
    unfold encodeRequiredInsertCount
    omega
  exact (decode_ok_iff hM h hr).mpr ⟨hreq, UInt64.toNat_ofNat_of_lt' hfit⟩

/-! ## Beyond `u64` -/

/-- The sum of the inserts and the room wraps: the count of all inserts is not read back. -/
theorem not_readsBack_of_top (h : 2 ^ 64 ≤ total.toNat + maxEntries cap) :
    ¬ ReadsBack total cap := by
  intro hback
  have hT := total.toNat_lt
  have hM := maxEntries_lt cap
  have hok := hback.inverts total ⟨by omega, by omega, by omega⟩
  have hmod := Nat.mod_lt total.toNat (by omega : 0 < 2 * maxEntries cap)
  have henc : (UInt64.ofNat (encodeRequiredInsertCount total.toNat (maxEntries cap))).toNat =
      total.toNat % (2 * maxEntries cap) + 1 :=
    UInt64.toNat_ofNat_of_lt' (by
      show encodeRequiredInsertCount total.toNat (maxEntries cap) < 2 ^ 64
      unfold encodeRequiredInsertCount
      omega)
  generalize UInt64.ofNat (encodeRequiredInsertCount total.toNat (maxEntries cap)) = enc at hok henc
  have htop : (total + cap / 32).toNat = total.toNat + maxEntries cap - 2 ^ 64 := by
    rw [UInt64.toNat_add, toNat_entries]
    omega
  have hric : ((total + cap / 32) / (2 * (cap / 32)) * (2 * (cap / 32)) + enc - 1).toNat =
      total.toNat % (2 * maxEntries cap) := by
    have hdiv : (total + cap / 32) / (2 * (cap / 32)) = 0 := by
      apply UInt64.toNat_inj.mp
      rw [UInt64.toNat_div, htop, toNat_range]
      exact Nat.div_eq_of_lt (by omega)
    rw [hdiv, UInt64.zero_mul, UInt64.zero_add, UInt64.toNat_sub_of_le _ _
      (UInt64.le_iff_toNat_le.mpr (by rw [henc]; exact Nat.le_add_left 1 _)), henc]
    rfl
  have h0 : enc ≠ 0 := by
    rintro rfl
    cases henc
  unfold decodeRequiredInsertCount at hok
  dsimp only at hok
  generalize (total + cap / 32) / (2 * (cap / 32)) * (2 * (cap / 32)) + enc - 1 = ric at hok hric
  have hlow : ric ≤ 2 * (cap / 32) := by
    rw [UInt64.le_iff_toNat_le, hric, toNat_range]
    omega
  rw [if_neg h0, if_neg (entries_ne_zero (by omega))] at hok
  split_ifs at hok with hrange habove hzero
  cases hok
  rw [UInt64.not_lt, UInt64.le_iff_toNat_le, htop] at habove
  omega

/-- The last count below `2 ^ 64` of residue 0 is read back as nothing. -/
theorem not_readsBack_of_wrap (hM : 0 < maxEntries cap)
    (hsum : total.toNat + maxEntries cap < 2 ^ 64)
    (h : ¬ Unwrapped total.toNat (maxEntries cap)) : ¬ ReadsBack total cap := by
  intro hback
  unfold Unwrapped at h
  have hM' := maxEntries_lt cap
  have hle : wrapped (total.toNat + maxEntries cap) (2 * maxEntries cap) ≤
      total.toNat + maxEntries cap := wrapped_le
  have hwrapped := toNat_wrapped hsum
  have hdvd : 2 * maxEntries cap ∣ wrapped (total.toNat + maxEntries cap) (2 * maxEntries cap) :=
    Dvd.intro_left _ rfl
  generalize wrapped (total.toNat + maxEntries cap) (2 * maxEntries cap) = base at *
  have hr : (UInt64.ofNat (2 ^ 64 - 2 * maxEntries cap)).toNat = 2 ^ 64 - 2 * maxEntries cap :=
    UInt64.toNat_ofNat_of_lt' (by show 2 ^ 64 - 2 * maxEntries cap < 2 ^ 64; omega)
  have hmod : (2 ^ 64 - 2 * maxEntries cap) % (2 * maxEntries cap) = 2 ^ 64 - base := by
    have hsplit : 2 ^ 64 - 2 * maxEntries cap = (base - 2 * maxEntries cap) + (2 ^ 64 - base) := by
      omega
    obtain ⟨q, rfl⟩ := hdvd
    rw [hsplit, ← Nat.mul_sub_one, Nat.mul_add_mod, Nat.mod_eq_of_lt (by omega)]
  have hok := hback.inverts (UInt64.ofNat (2 ^ 64 - 2 * maxEntries cap)) (by
    rw [hr]
    exact ⟨by omega, by omega, by omega⟩)
  rw [hr] at hok
  unfold encodeRequiredInsertCount at hok
  rw [hmod] at hok
  have henc : (UInt64.ofNat (2 ^ 64 - base + 1)).toNat = 2 ^ 64 - base + 1 :=
    UInt64.toNat_ofNat_of_lt' (by show 2 ^ 64 - base + 1 < 2 ^ 64; omega)
  generalize UInt64.ofNat (2 ^ 64 - base + 1) = enc at hok henc
  have hric : (total + cap / 32) / (2 * (cap / 32)) * (2 * (cap / 32)) + enc - 1 = 0 := by
    apply UInt64.toNat_inj.mp
    rw [UInt64.toNat_sub, UInt64.toNat_add, hwrapped, henc]
    show (2 ^ 64 - 1 + (base + (2 ^ 64 - base + 1)) % 2 ^ 64) % 2 ^ 64 = 0
    omega
  have h0 : enc ≠ 0 := by
    rintro rfl
    cases henc
  unfold decodeRequiredInsertCount at hok
  dsimp only at hok
  rw [hric, if_neg h0, if_neg (entries_ne_zero hM)] at hok
  split_ifs at hok with hrange habove
  · exact absurd habove (UInt64.not_lt.mpr (UInt64.zero_le))
  · exact absurd rfl ‹¬ (0 : UInt64) = 0›

/-! ## The result -/

theorem maxEntries_pos (hcap : 32 ≤ cap) : 0 < maxEntries cap := by
  have hcap' : 32 ≤ cap.toNat := UInt64.le_iff_toNat_le.mp hcap
  unfold maxEntries
  omega

/-- Every count is read back, and only counts are, as long as the multiple of `2 * M` above
    `T + M` is at most `2 ^ 64`. -/
theorem insert_count_inverts (hcap : 32 ≤ cap) :
    ReadsBack total cap ↔ Unwrapped total.toNat (maxEntries cap) := by
  have hM := maxEntries_pos hcap
  refine ⟨fun hback => ?_, readsBack_of_unwrapped hM⟩
  by_contra h
  by_cases hsum : total.toNat + maxEntries cap < 2 ^ 64
  · exact not_readsBack_of_wrap hM hsum h hback
  · exact not_readsBack_of_top (Nat.not_lt.mp hsum) hback

/-- After 100 inserts, with room for ten entries. -/
theorem insert_count_inverts_sample : ReadsBack 100 320 :=
  (insert_count_inverts (by decide)).mpr (by unfold Unwrapped wrapped maxEntries; decide)

/-- The count of all inserts, when there are as many as a `u64` can tell. -/
theorem insert_count_lost :
    Required (18446744073709551615 : UInt64).toNat (maxEntries 32)
        (18446744073709551615 : UInt64).toNat ∧
      decodeRequiredInsertCount (UInt64.ofNat (encodeRequiredInsertCount
        (18446744073709551615 : UInt64).toNat (maxEntries 32))) 18446744073709551615 32 =
          .error .countOutOfRange := by
  unfold Required maxEntries encodeRequiredInsertCount
  decide +kernel

end RustCrash.Hysteria2.QpackDecoder
