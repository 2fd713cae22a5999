import RustCrash.Proto.Aead

/-
  `proto/easytier.rs`: the Noise_XX handshake (`NoiseXxHandshake`), as far as the responder needs it.

  The curve is another crate, `Curve`. The ephemeral secrets, which are drawn at random, are
  arguments. Where the source has `expect` or copies into an array of fixed length the step stops
  with a panic (`Stop.panic`).
-/

namespace RustCrash.EasyTier

open Lib Proto

/-! ## How a step stops -/

inductive Stop where
  | panic
  | err (e : Error)
  deriving DecidableEq

/-- `?`. -/
def propagate {A : Type} (r : Result A) : Except Stop A := r.mapError .err

/-- `expect` on an option, and `copy_from_slice` on bytes that may have another length. -/
def expect {A : Type} (o : Option A) : Except Stop A :=
  match o with
  | some a => .ok a
  | none => .error .panic

/-- `expect` on a result. -/
def expectOk {A : Type} (r : Result A) : Except Stop A := expect r.toOption

theorem propagate_eq_ok {A : Type} {r : Result A} {a : A} : propagate r = .ok a ↔ r = .ok a := by
  cases r <;> simp [propagate, Except.mapError]

theorem propagate_ne_panic {A : Type} (r : Result A) : propagate r ≠ .error .panic := by
  cases r <;> simp [propagate, Except.mapError]

theorem expect_eq_ok {A : Type} {o : Option A} {a : A} : expect o = .ok a ↔ o = some a := by
  cases o <;> simp [expect]

theorem expectOk_eq_ok {A : Type} {r : Result A} {a : A} : expectOk r = .ok a ↔ r = .ok a := by
  cases r <;> simp [expectOk, expect, Except.toOption]

/-- A chain panics where one of its steps does. -/
theorem bind_eq_panic {A B : Type} {x : Except Stop A} {f : A → Except Stop B} :
    (x >>= f) = .error .panic ↔
      x = .error .panic ∨ ∃ a, x = .ok a ∧ f a = .error .panic := by
  cases x <;> simp

/-! ## X25519 and the hash -/

/-- `curve25519_dalek`. -/
structure Curve where
  mulBaseClamped : ByteVec 32 → ByteVec 32
  /-- A point, then the scalar it is multiplied by. -/
  mulClamped : ByteVec 32 → ByteVec 32 → ByteVec 32

structure SecureStaticKeys where
  sk : ByteVec 32
  pk : ByteVec 32

variable (C : Curve) (H : Hashes)

def SecureStaticKeys.fromSecret (sk : ByteVec 32) : SecureStaticKeys := ⟨sk, C.mulBaseClamped sk⟩

@[simp] theorem SecureStaticKeys.pk_fromSecret (sk : ByteVec 32) :
    (fromSecret C sk).pk = C.mulBaseClamped sk := rfl

@[simp] theorem SecureStaticKeys.sk_fromSecret (sk : ByteVec 32) :
    (fromSecret C sk).sk = sk := rfl

def secureX25519Dh (sk peer : ByteVec 32) : Result (ByteVec 32) :=
  let shared := C.mulClamped peer sk
  if shared = .zero 32 then .error (.crypto "easytier: X25519 peer key is a low-order point")
  else .ok shared

def noiseHkdf2 (ck : ByteVec 32) (ikm : Bytes) : ByteVec 32 × ByteVec 32 :=
  let temp := H.hmacSha256 ck.val ikm
  let out1 := H.hmacSha256 temp.val [1]
  let out2 := H.hmacSha256 temp.val (out1.val ++ [2])
  (out1, out2)

def secretProof (networkSecret : Str) (challenge : Bytes) : ByteVec 32 :=
  H.hmacSha256 (utf8 networkSecret) (utf8 "easytier secret proof".toList ++ challenge)

/-- 32 zero bits and the counter. -/
theorem length_noiseNonce (n : UInt64) : (List.replicate 4 (0 : UInt8) ++ le64 n).length = 12 := by
  simp

def noiseNonce (n : UInt64) : ByteVec 12 := ⟨List.replicate 4 0 ++ le64 n, length_noiseNonce n⟩

/-! ## The state -/

/-- The fields that both ends have in common. -/
structure SymmetricState where
  h : ByteVec 32
  ck : ByteVec 32
  k : Option (ByteVec 32)
  n : UInt64

structure NoiseXxHandshake extends SymmetricState where
  s : SecureStaticKeys
  e : Option SecureStaticKeys
  re : Option (ByteVec 32)
  rs : Option (ByteVec 32)

namespace SymmetricState

def mixHash (st : SymmetricState) (data : Bytes) : SymmetricState :=
  { st with h := H.sha256 (st.h.val ++ data) }

def mixKey (st : SymmetricState) (ikm : Bytes) : SymmetricState :=
  let (ck, k) := noiseHkdf2 H st.ck ikm
  { st with ck := ck, k := some k, n := 0 }

def encryptAndHash (st : SymmetricState) (plaintext : Bytes) :
    Except Stop (SymmetricState × Bytes) :=
  match st.k with
  | some key => do
    let ct ← expect (ChaChaPoly.encrypt key (noiseNonce st.n) plaintext st.h.val)
    .ok ({ st with n := st.n + 1 }.mixHash H ct, ct)
  | none => .ok (st.mixHash H plaintext, plaintext)

/-- `none` is a payload in the clear. -/
def decryptAndHash (st : SymmetricState) (ciphertext : Bytes) :
    Result (SymmetricState × Option Bytes) :=
  match st.k with
  | none => .ok (st.mixHash H ciphertext, none)
  | some key => do
    let pt ← okOr (ChaChaPoly.decrypt key (noiseNonce st.n) ciphertext st.h.val)
      (.crypto "easytier: noise read msg failed: decrypt failed")
    .ok ({ st with n := st.n + 1 }.mixHash H ciphertext, some pt)

end SymmetricState

namespace NoiseXxHandshake

def protocolName : ByteVec 32 := ⟨utf8 "Noise_XX_25519_ChaChaPoly_SHA256".toList, by decide⟩

def noisePrologue : Bytes := utf8 "easytier-peerconn-noise".toList

def new (staticKeys : SecureStaticKeys) : NoiseXxHandshake :=
  { SymmetricState.mixHash H ⟨protocolName, protocolName, none, 0⟩ noisePrologue with
    s := staticKeys
    e := none
    re := none
    rs := none }

/-- Put a new symmetric state into the handshake. -/
def withState (hs : NoiseXxHandshake) (st : SymmetricState) : NoiseXxHandshake :=
  { hs with toSymmetricState := st }

def readMsg1 (hs : NoiseXxHandshake) (wire : Bytes) : Result (NoiseXxHandshake × Bytes) :=
  if h : wire.length < 32 then .error (.protocol "easytier: noise msg1 too short")
  else do
    let re := sliceVec wire 0 32 (by omega)
    let rest := wire.drop 32
    let (st, pt) ← (hs.mixHash H re.val).decryptAndHash H rest
    .ok ({ hs.withState st with re := some re }, pt.getD rest)

def writeMsg2 (hs : NoiseXxHandshake) (ephemeral : ByteVec 32) (payload : Bytes) :
    Except Stop (NoiseXxHandshake × Bytes) := do
  let e := SecureStaticKeys.fromSecret C ephemeral
  let st := hs.mixHash H e.pk.val
  let re ← expect hs.re
  let ee ← expectOk (secureX25519Dh C e.sk re)
  let (st, sCt) ← (st.mixKey H ee.val).encryptAndHash H hs.s.pk.val
  let se ← expectOk (secureX25519Dh C hs.s.sk re)
  let (st, payloadCt) ← (st.mixKey H se.val).encryptAndHash H payload
  .ok ({ hs.withState st with e := some e }, e.pk.val ++ sCt ++ payloadCt)

def readMsg3 (hs : NoiseXxHandshake) (wire : Bytes) : Except Stop (NoiseXxHandshake × Bytes) :=
  if wire.length < 48 then .error (.err (.protocol "easytier: noise msg3 too short"))
  else do
    let (st, sPt) ← propagate (hs.decryptAndHash H (wire.take 48))
    let sPt ← propagate (okOr sPt (.protocol "easytier: noise msg3 static was not sealed"))
    let rs ← expect (ByteVec.ofBytes? 32 sPt)
    let e ← expect hs.e
    let se ← propagate (secureX25519Dh C e.sk rs)
    let (st, pt) ← propagate ((st.mixKey H se.val).decryptAndHash H (wire.drop 48))
    let pt ← propagate (okOr pt (.protocol "easytier: noise msg3 payload was not sealed"))
    .ok ({ hs.withState st with rs := some rs }, pt)

def handshakeHash (hs : NoiseXxHandshake) : ByteVec 32 := hs.h

def remoteStatic (hs : NoiseXxHandshake) : Option (ByteVec 32) := hs.rs

end NoiseXxHandshake

/-! ## What a step does -/

variable {C H}

theorem secureX25519Dh_eq_ok {sk peer shared : ByteVec 32} :
    secureX25519Dh C sk peer = .ok shared ↔
      C.mulClamped peer sk = shared ∧ C.mulClamped peer sk ≠ .zero 32 := by
  unfold secureX25519Dh
  dsimp only
  split_ifs with hzero <;> simp [hzero]

theorem secureX25519Dh_of_ne {sk peer : ByteVec 32} (h : C.mulClamped peer sk ≠ .zero 32) :
    secureX25519Dh C sk peer = .ok (C.mulClamped peer sk) := secureX25519Dh_eq_ok.mpr ⟨rfl, h⟩

namespace SymmetricState

variable {st st' : SymmetricState} {ikm plaintext ct : Bytes}

/-- A message that is not longer than the cipher's counter reaches is sealed. -/
theorem encryptAndHash_short (st : SymmetricState) (h : plaintext.length / 64 < 2 ^ 32 - 1) :
    ∃ r, st.encryptAndHash H plaintext = .ok r := by
  unfold encryptAndHash
  cases st.k with
  | none => exact ⟨_, rfl⟩
  | some key =>
    obtain ⟨ct, hct⟩ := ChaChaPoly.encrypt_short key (noiseNonce st.n) st.h.val h
    dsimp only
    rw [hct]
    exact ⟨_, rfl⟩

theorem decryptAndHash_length {pt : Bytes}
    (h : st.decryptAndHash H ct = .ok (st', some pt)) : pt.length + 16 = ct.length := by
  unfold decryptAndHash at h
  cases hk : st.k with
  | none =>
    rw [hk] at h
    cases h
  | some key =>
    rw [hk] at h
    dsimp only at h
    obtain ⟨pt', hpt, h⟩ := bind_eq_ok.mp h
    cases h
    exact (ChaChaPoly.length_encrypt (ChaChaPoly.seal_open (okOr_eq_ok.mp hpt))).symm

end SymmetricState

namespace NoiseXxHandshake

variable {hs hs' : NoiseXxHandshake} {ephemeral re : ByteVec 32} {payload wire : Bytes}

theorem readMsg1_eq_ok (h : hs.readMsg1 H wire = .ok (hs', payload)) :
    hs'.s = hs.s ∧ ∃ re, hs'.re = some re ∧ re.val = wire.take 32 := by
  unfold readMsg1 at h
  split_ifs at h with hlen
  obtain ⟨⟨st, pt⟩, -, h⟩ := bind_eq_ok.mp h
  cases h
  exact ⟨rfl, _, rfl, rfl⟩

/-- Message 2 panics on a low-order ephemeral, and on a payload beyond the cipher's counter. -/
theorem writeMsg2_panic (hre : hs.re = some re)
    (h : hs.writeMsg2 C H ephemeral payload = .error .panic) :
    C.mulClamped re ephemeral = .zero 32 ∨ C.mulClamped re hs.s.sk = .zero 32 ∨
      2 ^ 32 - 1 ≤ payload.length / 64 := by
  by_contra hgood
  simp only [not_or, Nat.not_le] at hgood
  obtain ⟨hee, hse, hshort⟩ := hgood
  have hstatic : hs.s.pk.val.length / 64 < 2 ^ 32 - 1 := by
    rw [ByteVec.length_val]
    decide
  have hstep : ∃ r, hs.writeMsg2 C H ephemeral payload = .ok r := by
    unfold writeMsg2
    simp only [hre, expect_eq_ok.mpr rfl, bind_ok, expectOk_eq_ok.mpr (secureX25519Dh_of_ne hse)]
    rw [show (SecureStaticKeys.fromSecret C ephemeral).sk = ephemeral from rfl,
      expectOk_eq_ok.mpr (secureX25519Dh_of_ne hee), bind_ok]
    obtain ⟨⟨st, sCt⟩, hs1⟩ := SymmetricState.encryptAndHash_short (H := H) _ hstatic
    rw [hs1, bind_ok]
    obtain ⟨⟨st', payloadCt⟩, hs2⟩ := SymmetricState.encryptAndHash_short (H := H) _ hshort
    dsimp only
    rw [hs2]
    exact ⟨_, rfl⟩
  obtain ⟨r, hr⟩ := hstep
  rw [hr] at h
  cases h

theorem writeMsg2_e {r : NoiseXxHandshake × Bytes}
    (h : hs.writeMsg2 C H ephemeral payload = .ok r) :
    r.1.e = some (.fromSecret C ephemeral) := by
  unfold writeMsg2 at h
  obtain ⟨re, -, h⟩ := bind_eq_ok.mp h
  obtain ⟨ee, -, h⟩ := bind_eq_ok.mp h
  obtain ⟨⟨st, sCt⟩, -, h⟩ := bind_eq_ok.mp h
  obtain ⟨se, -, h⟩ := bind_eq_ok.mp h
  obtain ⟨⟨st', payloadCt⟩, -, h⟩ := bind_eq_ok.mp h
  cases h
  rfl

/-- The static of message 3 is 48 bytes sealed, so 32 when it is opened. -/
theorem readMsg3_ne_panic {e : SecureStaticKeys} (he : hs.e = some e) :
    hs.readMsg3 C H wire ≠ .error .panic := by
  intro h
  unfold readMsg3 at h
  split_ifs at h with hlen
  · cases h
  · rcases bind_eq_panic.mp h with hp | ⟨⟨st, sPt⟩, hst, hopened⟩
    · exact propagate_ne_panic _ hp
    rcases bind_eq_panic.mp hopened with hp | ⟨pt, hpt, hstatic⟩
    · exact propagate_ne_panic _ hp
    rw [okOr_eq_ok.mp (propagate_eq_ok.mp hpt)] at hst
    have h48 := SymmetricState.decryptAndHash_length (propagate_eq_ok.mp hst)
    rw [List.length_take_of_le (Nat.not_lt.mp hlen)] at h48
    have h32 : ByteVec.ofBytes? 32 pt = some ⟨pt, by omega⟩ := dif_pos (by omega)
    rw [h32, expect_eq_ok.mpr rfl, bind_ok, he, expect_eq_ok.mpr rfl, bind_ok] at hstatic
    rcases bind_eq_panic.mp hstatic with hp | ⟨se, -, hse⟩
    · exact propagate_ne_panic _ hp
    rcases bind_eq_panic.mp hse with hp | ⟨⟨st', pt'⟩, -, hpayload⟩
    · exact propagate_ne_panic _ hp
    rcases bind_eq_panic.mp hpayload with hp | ⟨pt'', -, hdone⟩
    · exact propagate_ne_panic _ hp
    · cases hdone

/-! ### Message 2 opens -/

end NoiseXxHandshake

end RustCrash.EasyTier
