import RustCrash.Proto.Aead

/-
  The methods of Shadowsocks, and the key of a session out of the main key and a salt.
-/

namespace RustCrash.Shadowsocks

open Lib Proto

inductive SsMethod where
  | aes128Gcm
  | aes256Gcm
  | chacha20IetfPoly1305
  | blake3Aes128Gcm
  | blake3Aes256Gcm
  deriving DecidableEq

namespace SsMethod

def kind : SsMethod → AeadKind
  | aes128Gcm | blake3Aes128Gcm => .aes128Gcm
  | aes256Gcm | blake3Aes256Gcm => .aes256Gcm
  | chacha20IetfPoly1305 => .chacha20Poly1305

/-- The salt has the length of the key. -/
def keyLen (method : SsMethod) : Nat := method.kind.keyLen

def is2022 : SsMethod → Bool
  | blake3Aes128Gcm | blake3Aes256Gcm => true
  | _ => false

theorem keyLen_le (method : SsMethod) : method.keyLen ≤ 32 := by
  cases method <;> decide

theorem keyLen_pos (method : SsMethod) : 0 < method.keyLen := by
  cases method <;> decide

end SsMethod

variable (H : Hashes)

/-! ## The key of a session -/

def hkdfFor (prk info : Bytes) (len : Nat) : Nat → Bytes → UInt8 → Bytes → Bytes
  | 0, _, _, out => out
  | k + 1, t, counter, out =>
    if out.length < len then
      let block := (H.hmacSha1 prk (t ++ info ++ [counter])).val
      hkdfFor prk info len k block (counter + 1) (out ++ block.take (min (len - out.length) 20))
    else out

/-- A round adds a byte at least, while some are missing. -/
def hkdfSha1 (ikm salt info : Bytes) (len : Nat) : Bytes :=
  hkdfFor H (H.hmacSha1 salt ikm).val info len len [] 1 []

theorem length_hkdfFor {prk info t out : Bytes} {len k : Nat} {counter : UInt8}
    (hout : out.length ≤ len) (hk : len ≤ out.length + k) :
    (hkdfFor H prk info len k t counter out).length = len := by
  induction k generalizing t counter out with
  | zero => exact Nat.le_antisymm hout hk
  | succ k ih =>
    unfold hkdfFor
    split_ifs with hshort
    · have htake : ((H.hmacSha1 prk (t ++ info ++ [counter])).val.take
          (min (len - out.length) 20)).length = min (len - out.length) 20 := by
        rw [List.length_take, (H.hmacSha1 _ _).property]
        omega
      exact ih (by rw [List.length_append, htake]; omega) (by rw [List.length_append, htake]; omega)
    · omega

def ssSubkeyLegacy (key salt : Bytes) : Bytes :=
  hkdfSha1 H key salt (utf8 "ss-subkey".toList) key.length

def ss2022Subkey (key salt : Bytes) (outLen : Nat) : Bytes :=
  (H.blake3DeriveKey "shadowsocks 2022 session subkey" (key ++ salt)).val.take outLen

def subkeyFor (method : SsMethod) (key salt : Bytes) : Bytes :=
  if method.is2022 then ss2022Subkey H key salt method.keyLen else ssSubkeyLegacy H key salt

theorem length_subkeyFor {method : SsMethod} {key : Bytes} (hkey : key.length = method.keyLen)
    (salt : Bytes) : (subkeyFor H method key salt).length = method.kind.keyLen := by
  unfold subkeyFor
  split_ifs
  · rw [ss2022Subkey, List.length_take, (H.blake3DeriveKey _ _).property]
    exact Nat.min_eq_left method.keyLen_le
  · exact (length_hkdfFor H (Nat.zero_le _) (by rw [List.length_nil]; omega)).trans hkey

/-- The AEAD of a session, for a key of the method. -/
def sessionAead (method : SsMethod) (key : ByteVec method.keyLen) (salt : Bytes) : Aead :=
  ⟨method.kind, subkeyFor H method key.val salt, length_subkeyFor H key.property salt⟩

theorem new_subkeyFor (method : SsMethod) (key : ByteVec method.keyLen) (salt : Bytes) :
    Aead.new method.kind (subkeyFor H method key.val salt) = .ok (sessionAead H method key salt) :=
  Aead.new_eq_ok _

end RustCrash.Shadowsocks
