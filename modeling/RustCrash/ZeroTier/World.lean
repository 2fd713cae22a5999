import RustCrash.Lib.Checked
import RustCrash.ZeroTier.Identity

/-
  Worlds (`proto/zerotier.rs`): a planet or a moon, the set of roots a node trusts, signed.

  `from_bytes` reads a world from the front of a buffer. The one step of it that could panic is
  the slice of the buffer that an identity is read from, and the cursor never leaves the buffer
  before that.
-/

namespace RustCrash.ZeroTier

open Lib

def worldTypePlanet : UInt8 := 1

def worldTypeMoon : UInt8 := 127

def worldMaxRoots : Nat := 4

def worldMaxEndpointsPerRoot : Nat := 32

def worldSignPrefix : UInt64 := 0x7f7f7f7f7f7f7f7f

def worldSignSuffix : UInt64 := 0xf7f7f7f7f7f7f7f7

/-- One root of a world: its identity and its stable physical endpoints. -/
structure WorldRoot where
  identity : NodeIdentity
  endpoints : List PhysAddr
  deriving DecidableEq

/-- A planet or moon. -/
structure World where
  /-- 1 = planet, 127 = moon. -/
  worldType : UInt8
  id : UInt64
  timestamp : UInt64
  /-- The public key set that must sign the next revision of this world. -/
  mustBeSignedBy : ByteVec 64
  /-- The signature of the `forSign` form of this world. -/
  signature : ByteVec 96
  roots : List WorldRoot
  deriving DecidableEq

/-! ## The cursor of `from_bytes` -/

def bad (what : String) : Error := .crypto s!"zerotier: malformed world: {what}"

def Cur.u8 (buf : Bytes) (pos : Nat) : Result (UInt8 × Nat) :=
  match buf[pos]? with
  | some b => .ok (b, pos + 1)
  | none => .error (bad "truncated")

def Cur.take (buf : Bytes) (pos n : Nat) : Result (ByteVec n × Nat) :=
  if h : pos + n ≤ buf.length then .ok (sliceVec buf pos n h, pos + n)
  else .error (bad "truncated")

def Cur.u16 (buf : Bytes) (pos : Nat) : Result (UInt16 × Nat) :=
  (Cur.take buf pos 2).map fun p => (ofBE16 p.1.val, p.2)

def Cur.u64 (buf : Bytes) (pos : Nat) : Result (UInt64 × Nat) :=
  (Cur.take buf pos 8).map fun p => (ofBE64 p.1.val, p.2)

/-- `&buf[pos..]`. -/
def sliceFrom (buf : Bytes) (pos : Nat) : Except (Stop Error) Bytes :=
  if pos ≤ buf.length then .ok (buf.drop pos) else .error .panic

def readEndpoints (buf : Bytes) : Nat → Nat → Result (List PhysAddr × Nat)
  | 0, pos => .ok ([], pos)
  | n + 1, pos => do
    let (ep, used) ← PhysAddr.deserializeFrom buf pos
    let (endpoints, pos) ← readEndpoints buf n (pos + used)
    return (ep :: endpoints, pos)

def readRoots (buf : Bytes) : Nat → Nat → Except (Stop Error) (List WorldRoot × Nat)
  | 0, pos => .ok ([], pos)
  | n + 1, pos => do
    let tail ← sliceFrom buf pos
    let (identity, used) ← Stop.propagate (NodeIdentity.deserializeBin tail)
    let (numEps, pos) ← Stop.propagate (Cur.u8 buf (pos + used))
    if worldMaxEndpointsPerRoot < numEps.toNat then
      .error (.err (bad "too many stable endpoints"))
    else do
      let (endpoints, pos) ← Stop.propagate (readEndpoints buf numEps.toNat pos)
      let (roots, pos) ← readRoots buf n pos
      return (⟨identity, endpoints⟩ :: roots, pos)

namespace World

/-- The world at the front of a buffer, and the bytes consumed. A moon carries a trailing
    dictionary length, and the dictionary is skipped unread. -/
def fromBytes (buf : Bytes) : Except (Stop Error) (World × Nat) := do
  let (worldType, pos) ← Stop.propagate (Cur.u8 buf 0)
  if worldType ≠ 0 ∧ worldType ≠ worldTypePlanet ∧ worldType ≠ worldTypeMoon then
    .error (.err (bad "unknown world type"))
  else do
    let (id, pos) ← Stop.propagate (Cur.u64 buf pos)
    let (timestamp, pos) ← Stop.propagate (Cur.u64 buf pos)
    let (mustBeSignedBy, pos) ← Stop.propagate (Cur.take buf pos 64)
    let (signature, pos) ← Stop.propagate (Cur.take buf pos 96)
    let (numRoots, pos) ← Stop.propagate (Cur.u8 buf pos)
    if worldMaxRoots < numRoots.toNat then .error (.err (bad "too many roots"))
    else do
      let (roots, pos) ← readRoots buf numRoots.toNat pos
      let world : World := ⟨worldType, id, timestamp, mustBeSignedBy, signature, roots⟩
      if worldType = worldTypeMoon then do
        let (dlen, pos) ← Stop.propagate (Cur.u16 buf pos)
        return (world, pos + dlen.toNat)
      else return (world, pos)

/-- `for_sign` adds the bracket words and omits the signature. -/
def serialize (world : World) (forSign : Bool) : Bytes :=
  (if forSign then be64 worldSignPrefix else []) ++
    world.worldType :: be64 world.id ++ be64 world.timestamp ++ world.mustBeSignedBy.val ++
    (if forSign then [] else world.signature.val) ++
    UInt8.ofNat world.roots.length :: world.roots.flatMap (fun root =>
      root.identity.serializeBin false ++
        UInt8.ofNat root.endpoints.length :: root.endpoints.flatMap PhysAddr.serializeInto) ++
    (if world.worldType = worldTypeMoon then be16 0 else []) ++
    (if forSign then be64 worldSignSuffix else [])

/-- The signature is one of the `forSign` form under the Ed25519 half of a key set. -/
def signedUnder (c : Crates) (keys : ByteVec 64) (world : World) : Bool :=
  (NodeIdentity.fromParts 0 keys none).verify c (world.serialize true) world.signature.val

/-- The embedded signature against the key set the world names itself. -/
def signatureIsValid (c : Crates) (world : World) : Bool :=
  signedUnder c world.mustBeSignedBy world

end World

/-! ## `from_bytes` does not panic -/

/-- A read from `pos` on: it does not panic, and where it gets to is behind `pos` and still in
    the buffer. -/
structure Within {A : Type} (buf : Bytes) (pos : Nat) (r : Except (Stop Error) (A × Nat)) :
    Prop where
  ne_panic : r ≠ .error .panic
  stop : ∀ a pos', r = .ok (a, pos') → pos ≤ pos' ∧ pos' ≤ buf.length

section

variable {A B : Type} {buf : Bytes} {pos : Nat}

theorem Within.ok (a : A) (h : pos ≤ buf.length) : Within buf pos (.ok (a, pos)) := by
  refine ⟨by simp, fun b pos' hb => ?_⟩
  simp only [Except.ok.injEq, Prod.mk.injEq] at hb
  omega

variable {r : Except (Stop Error) (A × Nat)}

theorem Within.mono {pos₁ : Nat} (h : Within buf pos₁ r) (hle : pos ≤ pos₁) : Within buf pos r := by
  refine ⟨h.ne_panic, fun a pos' ha => ?_⟩
  have := h.stop a pos' ha
  omega

theorem Within.err (e : Error) : Within buf pos (.error (.err e) : Except _ (A × Nat)) :=
  ⟨by simp, fun a pos' h => by cases h⟩

theorem Within.propagate {r : Result (A × Nat)}
    (h : ∀ a pos', r = .ok (a, pos') → pos ≤ pos' ∧ pos' ≤ buf.length) :
    Within buf pos (Stop.propagate r) :=
  ⟨Stop.propagate_ne_panic r, fun a pos' hr => h a pos' (Stop.propagate_eq_ok.mp hr)⟩

theorem Within.bind {f : A × Nat → Except (Stop Error) (B × Nat)} (h : Within buf pos r)
    (hf : ∀ a pos', pos' ≤ buf.length → Within buf pos' (f (a, pos'))) :
    Within buf pos (r >>= f) := by
  refine ⟨Stop.bind_ne_panic h.ne_panic fun p hp => ?_, fun b stop hb => ?_⟩
  · exact (hf p.1 p.2 (h.stop p.1 p.2 hp).2).ne_panic
  · obtain ⟨p, hp, hb⟩ := bind_eq_ok.mp hb
    have hle := h.stop p.1 p.2 hp
    have := (hf p.1 p.2 hle.2).stop b stop hb
    omega

theorem Within.u8 (buf : Bytes) (pos : Nat) :
    Within buf pos (Stop.propagate (Cur.u8 buf pos)) := by
  refine Within.propagate fun b pos' h => ?_
  unfold Cur.u8 at h
  split at h
  · rename_i b' hb
    have := (List.getElem?_eq_some_iff.mp hb).1
    simp only [Except.ok.injEq, Prod.mk.injEq] at h
    omega
  · cases h

theorem cur_take_stop {n pos' : Nat} {v : ByteVec n} (h : Cur.take buf pos n = .ok (v, pos')) :
    pos ≤ pos' ∧ pos' ≤ buf.length := by
  unfold Cur.take at h
  split_ifs at h with hle
  simp only [Except.ok.injEq, Prod.mk.injEq] at h
  omega

theorem Within.take (buf : Bytes) (pos n : Nat) :
    Within buf pos (Stop.propagate (Cur.take buf pos n)) :=
  Within.propagate fun _ _ h => cur_take_stop h

/-- An integer that is taken as bytes first. -/
theorem Within.map_take (buf : Bytes) (pos n : Nat) (g : ByteVec n → A) :
    Within buf pos
      (Stop.propagate ((Cur.take buf pos n).map fun p => (g p.1, p.2))) := by
  refine Within.propagate fun a pos' h => ?_
  cases ht : Cur.take buf pos n with
  | error e =>
    rw [ht] at h
    cases h
  | ok p =>
    rw [ht] at h
    simp only [Except.map, Except.ok.injEq, Prod.mk.injEq] at h
    have hstop : pos ≤ p.2 ∧ p.2 ≤ buf.length := cur_take_stop ht
    omega

theorem readEndpoints_stop {n pos' : Nat} {eps : List PhysAddr} (hpos : pos ≤ buf.length)
    (h : readEndpoints buf n pos = .ok (eps, pos')) : pos ≤ pos' ∧ pos' ≤ buf.length := by
  induction n generalizing pos eps with
  | zero =>
    simp only [readEndpoints, Except.ok.injEq, Prod.mk.injEq] at h
    omega
  | succ n ih =>
    obtain ⟨⟨ep, used⟩, hep, h⟩ := bind_eq_ok.mp h
    obtain ⟨⟨rest, stop⟩, hrest, h⟩ := bind_eq_ok.mp h
    have hused := deserializeFrom_used hep
    simp only [pure_eq, Except.ok.injEq, Prod.mk.injEq] at h
    have := ih hused.2 (by rw [hrest, h.2])
    omega

theorem Within.readRoots (n : Nat) (h : pos ≤ buf.length) :
    Within buf pos (readRoots buf n pos) := by
  induction n generalizing pos with
  | zero => exact Within.ok [] h
  | succ n ih =>
    rw [ZeroTier.readRoots, sliceFrom, if_pos h, bind_ok]
    cases hid : NodeIdentity.deserializeBin (buf.drop pos) with
    | error e => exact Within.err e
    | ok p =>
      have hused := (deserializeBin_used hid).2
      rw [List.length_drop] at hused
      change Within buf pos (Stop.propagate (Cur.u8 buf (pos + p.2)) >>= _)
      refine Within.mono (Within.bind (Within.u8 buf (pos + p.2)) ?_) (Nat.le_add_right _ _)
      intro numEps pos₁ h₁
      dsimp only
      split_ifs
      · exact Within.err _
      · refine Within.bind (Within.propagate fun _ _ => readEndpoints_stop h₁) ?_
        intro endpoints pos₂ h₂
        refine Within.bind (ih h₂) ?_
        intro roots pos₃ h₃
        exact Within.ok _ h₃

/-- A read that may leave the buffer at its end. -/
structure Behind (pos : Nat) (r : Except (Stop Error) (A × Nat)) : Prop where
  ne_panic : r ≠ .error .panic
  stop : ∀ a pos', r = .ok (a, pos') → pos ≤ pos'

theorem Behind.ok (a : A) {pos' : Nat} (h : pos ≤ pos') : Behind pos (.ok (a, pos')) := by
  refine ⟨by simp, fun b stop hb => ?_⟩
  simp only [Except.ok.injEq, Prod.mk.injEq] at hb
  omega

theorem Behind.err (e : Error) : Behind pos (.error (.err e) : Except _ (A × Nat)) :=
  ⟨by simp, fun a pos' h => by cases h⟩

theorem Within.behind {f : A × Nat → Except (Stop Error) (B × Nat)} (h : Within buf pos r)
    (hf : ∀ a pos', pos' ≤ buf.length → Behind pos' (f (a, pos'))) : Behind pos (r >>= f) := by
  refine ⟨Stop.bind_ne_panic h.ne_panic fun p hp => ?_, fun b stop hb => ?_⟩
  · exact (hf p.1 p.2 (h.stop p.1 p.2 hp).2).ne_panic
  · obtain ⟨p, hp, hb⟩ := bind_eq_ok.mp hb
    have hle := h.stop p.1 p.2 hp
    have := (hf p.1 p.2 hle.2).stop b stop hb
    omega

end

theorem fromBytes_behind (worldType : UInt8) (tail : Bytes) :
    Behind 1 (World.fromBytes (worldType :: tail)) := by
  have hfirst : Cur.u8 (worldType :: tail) 0 = .ok (worldType, 1) := rfl
  unfold World.fromBytes
  rw [hfirst, Stop.propagate_ok, bind_ok]
  generalize worldType :: tail = buf
  dsimp only
  split
  · exact Behind.err _
  · refine Within.behind (Within.map_take buf 1 8 fun v => ofBE64 v.val) fun id pos₁ _ => ?_
    refine Within.behind (Within.map_take buf _ 8 fun v => ofBE64 v.val) fun time pos₂ _ => ?_
    refine Within.behind (Within.take buf _ 64) fun keys pos₃ _ => ?_
    refine Within.behind (Within.take buf _ 96) fun signature pos₄ _ => ?_
    refine Within.behind (Within.u8 buf _) fun numRoots pos₅ h₅ => ?_
    dsimp only
    split
    · exact Behind.err _
    · refine Within.behind (Within.readRoots _ h₅) fun roots pos₆ _ => ?_
      dsimp only
      split
      · refine Within.behind (Within.map_take buf _ 2 fun v => ofBE16 v.val) fun dlen pos₇ _ => ?_
        exact Behind.ok _ (Nat.le_add_right _ _)
      · exact Behind.ok _ le_rfl

/-- A world is read without a panic, and at least its type is consumed. -/
theorem World.fromBytes_total (buf : Bytes) :
    World.fromBytes buf ≠ .error .panic ∧
      ∀ world used, World.fromBytes buf = .ok (world, used) → 0 < used := by
  cases buf with
  | nil =>
    have hnil : World.fromBytes [] = .error (.err (bad "truncated")) := rfl
    rw [hnil]
    exact ⟨by simp, fun _ _ h => by cases h⟩
  | cons worldType tail =>
    have hread := fromBytes_behind worldType tail
    exact ⟨hread.ne_panic, fun world used h => hread.stop world used h⟩

end RustCrash.ZeroTier
