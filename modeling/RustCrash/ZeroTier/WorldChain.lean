import RustCrash.ZeroTier.Stack

/-
  Which worlds replace which (`adopt_worlds` in `proto/zerotier.rs`).

  A world names the key set that must sign its next revision. `signature_is_valid` checks a world
  against the key set the world names itself, so a revision that names another key set is taken
  on its own word; and an adopted moon has used up its seed, without which no later copy of it is
  adopted.
-/

namespace RustCrash.ZeroTier

open Lib

/-! ## A block as its worlds -/

/-- The worlds of a block, up to the first bytes that are none. -/
def worldsOf (block : Bytes) : List World :=
  if hb : block = [] then []
  else
    match World.fromBytes block with
    | .ok (world, used) =>
      if hu : 0 < used then
        have : (block.drop used).length < block.length := ZtStack.length_drop_lt hb hu
        world :: worldsOf (block.drop used)
      else []
    | .error _ => []
termination_by block.length

/-- One call of `adopt_worlds`. -/
structure AdoptCall where
  sender : UInt64
  block : Bytes
  now : Nat

/-- One world that a call comes to. -/
structure Turn where
  before : ZtStack
  sender : UInt64
  isPlanetRoot : Bool
  now : Nat
  world : World

def Turn.after (c : Crates) (t : Turn) : ZtStack :=
  ZtStack.adoptWorld c t.sender t.isPlanetRoot t.now t.before t.world

def runCalls (c : Crates) (st : ZtStack) (calls : List AdoptCall) : Option ZtStack :=
  calls.foldlM (fun st call => st.adoptWorlds c call.sender call.block call.now) st

/-- The turns over a list of worlds. -/
def worldTurns (c : Crates) (sender : UInt64) (isPlanetRoot : Bool) (now : Nat) :
    ZtStack → List World → List Turn
  | _, [] => []
  | st, world :: worlds =>
    let t : Turn := ⟨st, sender, isPlanetRoot, now, world⟩
    t :: worldTurns c sender isPlanetRoot now (t.after c) worlds

/-- Where a call leaves the node. -/
def afterCall (c : Crates) (st : ZtStack) (call : AdoptCall) : ZtStack :=
  (worldsOf call.block).foldl
    (ZtStack.adoptWorld c call.sender (ZtStack.rootOf st.world call.sender) call.now) st

/-- The turns of a run of calls. -/
def turns (c : Crates) : ZtStack → List AdoptCall → List Turn
  | _, [] => []
  | st, call :: calls =>
    worldTurns c call.sender (ZtStack.rootOf st.world call.sender) call.now st
      (worldsOf call.block) ++ turns c (afterCall c st call) calls

theorem adoptWorldsLoop_eq (c : Crates) (sender : UInt64) (isPlanetRoot : Bool) (now : Nat)
    (st : ZtStack) (block : Bytes) :
    ZtStack.adoptWorldsLoop c sender isPlanetRoot now st block =
      some ((worldsOf block).foldl (ZtStack.adoptWorld c sender isPlanetRoot now) st) := by
  induction block using worldsOf.induct generalizing st with
  | case1 => simp [ZtStack.adoptWorldsLoop, worldsOf]
  | case2 block hb world used hw hu hlt ih =>
    rw [ZtStack.adoptWorldsLoop, worldsOf]
    simp only [hb, hw, hu, dite_true, dite_false]
    exact ih _
  | case3 block hb world used hw hu =>
    exact absurd ((World.fromBytes_total block).2 world used hw) hu
  | case4 block hb e hw =>
    rw [ZtStack.adoptWorldsLoop, worldsOf]
    cases e with
    | panic => exact absurd hw (World.fromBytes_total block).1
    | err e => simp only [hb, hw, dite_false, List.foldl_nil]

/-- A call ends, and without a panic. -/
theorem adoptWorlds_eq (c : Crates) (st : ZtStack) (call : AdoptCall) :
    st.adoptWorlds c call.sender call.block call.now = some (afterCall c st call) :=
  adoptWorldsLoop_eq c call.sender _ call.now st call.block

theorem runCalls_eq (c : Crates) (st : ZtStack) (calls : List AdoptCall) :
    runCalls c st calls = some (calls.foldl (afterCall c) st) := by
  induction calls generalizing st with
  | nil => rfl
  | cons call calls ih =>
    have h := ih (afterCall c st call)
    unfold runCalls at h ⊢
    rw [List.foldlM_cons, adoptWorlds_eq]
    exact h

/-! ## What one world does -/

theorem learnRoots_worlds (c : Crates) (st : ZtStack) (roots : List WorldRoot) (now : Nat) :
    (st.learnRoots c roots now).world = st.world ∧
      (st.learnRoots c roots now).moons = st.moons := by
  induction roots generalizing st with
  | nil => exact ⟨rfl, rfl⟩
  | cons r roots ih =>
    unfold ZtStack.learnRoots at ih ⊢
    rw [List.foldl_cons]
    split
    · exact ih _
    · exact ih st

variable (c : Crates)

/-- The gate on who may send a moon. -/
def Turn.senderOk (t : Turn) : Bool :=
  t.isPlanetRoot || t.before.moonSeeds.any (fun s => s.1 == t.world.id && s.2 == t.sender) ||
    t.before.moons.any (fun m => m.id == t.world.id && ZtStack.rootOf m t.sender)

/-- A seed of the world is pending, and one of the world's roots is the seed. -/
def Turn.SeedPending (t : Turn) : Prop :=
  ∃ s ∈ t.before.moonSeeds, s.1 = t.world.id ∧ ZtStack.rootOf t.world s.2 = true

/-- The world is adopted as a moon. -/
structure Turn.TakesMoon (t : Turn) : Prop where
  isMoon : t.world.worldType = worldTypeMoon
  selfSigned : t.world.signatureIsValid c = true
  senderOk : t.senderOk = true
  seed : t.SeedPending
  newer : ∀ m ∈ t.before.moons, m.id = t.world.id → m.timestamp < t.world.timestamp

/-- The world becomes the planet. -/
structure Turn.TakesPlanet (t : Turn) : Prop where
  isPlanet : t.world.worldType = worldTypePlanet
  root : t.isPlanetRoot = true
  id_eq : t.world.id = t.before.world.id
  newer : t.before.world.timestamp < t.world.timestamp
  selfSigned : t.world.signatureIsValid c = true

theorem seedPending_iff (t : Turn) :
    t.SeedPending ↔ ∃ idx, t.before.moonSeeds.findIdx?
      (fun s => s.1 == t.world.id && ZtStack.rootOf t.world s.2) = some idx := by
  rw [← Option.isSome_iff_exists, List.findIdx?_isSome, List.any_eq_true]
  simp [Turn.SeedPending]

/-- The three things a turn can do. -/
theorem turn_cases (t : Turn) :
    (t.TakesMoon c ∧ (t.after c).world = t.before.world ∧ (t.after c).moons =
        t.before.moons.filter (fun m => m.id != t.world.id) ++ [t.world]) ∨
      (t.TakesPlanet c ∧ (t.after c).world = t.world ∧ (t.after c).moons = t.before.moons) ∨
      (¬ t.TakesMoon c ∧ ¬ t.TakesPlanet c ∧ (t.after c).world = t.before.world ∧
        (t.after c).moons = t.before.moons) := by
  unfold Turn.after ZtStack.adoptWorld
  by_cases hmoon : t.world.worldType = worldTypeMoon ∧ t.world.signatureIsValid c = true
  · rw [if_pos hmoon]
    have hplanet : ¬ t.TakesPlanet c := fun h => by
      have := h.isPlanet.symm.trans hmoon.1
      revert this
      decide
    dsimp only
    split
    · rename_i hs
      refine .inr (.inr ⟨fun h => ?_, hplanet, rfl, rfl⟩)
      have := h.senderOk
      unfold Turn.senderOk at this
      rw [hs] at this
      cases this
    · rename_i hs
      split
      · rename_i hnone
        refine .inr (.inr ⟨fun h => ?_, hplanet, rfl, rfl⟩)
        obtain ⟨idx, hidx⟩ := (seedPending_iff t).mp h.seed
        rw [hnone] at hidx
        cases hidx
      · rename_i idx hidx
        split
        · rename_i hold
          refine .inr (.inr ⟨fun h => ?_, hplanet, rfl, rfl⟩)
          obtain ⟨m, hm, ht⟩ := List.any_eq_true.mp hold
          simp only [Bool.and_eq_true, beq_iff_eq, decide_eq_true_eq] at ht
          exact absurd (h.newer m hm ht.1) (UInt64.not_lt.mpr ht.2)
        · rename_i hnew
          refine .inl ⟨⟨hmoon.1, hmoon.2, Bool.eq_true_of_not_eq_false hs,
            (seedPending_iff t).mpr ⟨idx, hidx⟩, fun m hm hid => ?_⟩, ?_, ?_⟩
          · by_contra hlt
            refine hnew (List.any_eq_true.mpr ⟨m, hm, ?_⟩)
            simpa [hid] using hlt
          · exact (learnRoots_worlds c _ _ _).1
          · rw [(learnRoots_worlds c _ _ _).2]
  · rw [if_neg hmoon]
    have hnot : ¬ t.TakesMoon c := fun h => hmoon ⟨h.isMoon, h.selfSigned⟩
    split
    · rename_i hp
      exact .inr (.inl ⟨⟨hp.1, hp.2.1, hp.2.2.1, hp.2.2.2.1, hp.2.2.2.2⟩, rfl, rfl⟩)
    · rename_i hp
      refine .inr (.inr ⟨hnot, fun h => hp ?_, rfl, rfl⟩)
      exact ⟨h.isPlanet, h.root, h.id_eq, h.newer, h.selfSigned⟩

/-! ## Replacement along the signing chain -/

/-- `new` is a later revision of `old`, signed by the key set that `old` names. -/
structure Succeeds (old new : World) : Prop where
  id_eq : new.id = old.id
  newer : old.timestamp < new.timestamp
  signed : World.signedUnder c old.mustBeSignedBy new = true

/-- What a turn owes: the planet and the moons are replaced by their successors only, and the
    successor of an adopted moon that one of the moon's own roots sends is adopted. -/
structure Turn.Lawful (t : Turn) : Prop where
  planet : (t.after c).world = t.before.world ∨
    (t.after c).world = t.world ∧ Succeeds c t.before.world t.world
  moons : ∀ m ∈ t.before.moons,
    m ∈ (t.after c).moons ∨ ∃ m' ∈ (t.after c).moons, Succeeds c m m'
  follows : ∀ m ∈ t.before.moons, Succeeds c m t.world → t.world.worldType = worldTypeMoon →
    ZtStack.rootOf m t.sender = true → t.world ∈ (t.after c).moons

/-- When it does: a world that passes under the key set it names itself passes under the key set
    of the copy it replaces, and a successor of an adopted moon passes under its own key set and
    finds a seed pending. -/
structure Turn.Fits (t : Turn) : Prop where
  planet : t.TakesPlanet c → World.signedUnder c t.before.world.mustBeSignedBy t.world = true
  moons : t.TakesMoon c → ∀ m ∈ t.before.moons, m.id = t.world.id →
    World.signedUnder c m.mustBeSignedBy t.world = true
  follows : ∀ m ∈ t.before.moons, Succeeds c m t.world → t.world.worldType = worldTypeMoon →
    ZtStack.rootOf m t.sender = true → t.world.signatureIsValid c = true ∧ t.SeedPending

/-- No two moons have the same id. -/
def Distinct (st : ZtStack) : Prop := (st.moons.map World.id).Nodup

theorem Distinct.eq_of_id {st : ZtStack} (h : Distinct st) {a b : World} (ha : a ∈ st.moons)
    (hb : b ∈ st.moons) (hid : a.id = b.id) : a = b :=
  List.inj_on_of_nodup_map h ha hb hid

variable {c}

variable {t : Turn} {st : ZtStack}

theorem Turn.TakesMoon.not_planet (h : t.TakesMoon c) : ¬ t.TakesPlanet c := fun hp => by
  have := h.isMoon.symm.trans hp.isPlanet
  revert this
  decide

/-- Among the moons behind an adoption, only the new one has its id. -/
theorem eq_of_mem_adopted {moons : List World} {w m : World}
    (hm : m ∈ moons.filter (fun m => m.id != w.id) ++ [w]) (hid : m.id = w.id) : m = w := by
  rcases List.mem_append.mp hm with hm | hm
  · rw [List.mem_filter, bne_iff_ne] at hm
    exact absurd hid hm.2
  · exact List.mem_singleton.mp hm

theorem Turn.Lawful.fits (hd : Distinct t.before) (h : t.Lawful c) : t.Fits c := by
  refine ⟨fun hp => ?_, fun hmoon m hm hid => ?_, fun m hm hs htype hroot => ?_⟩
  · rcases h.planet with heq | ⟨_, hs⟩
    · rcases turn_cases c t with ⟨hmoon, _⟩ | ⟨_, hw, _⟩ | ⟨_, hnot, _⟩
      · exact absurd hp hmoon.not_planet
      · have hnewer := hp.newer
        rw [← heq, hw] at hnewer
        exact absurd hnewer (UInt64.lt_irrefl _)
      · exact absurd hp hnot
    · exact hs.signed
  · rcases turn_cases c t with ⟨_, _, hms⟩ | ⟨hp, _⟩ | ⟨hnot, _⟩
    · have hnewer := hmoon.newer m hm hid
      rcases h.moons m hm with hstay | ⟨m', hm', hs⟩
      · rw [hms] at hstay
        rw [eq_of_mem_adopted hstay hid] at hnewer
        exact absurd hnewer (UInt64.lt_irrefl _)
      · rw [hms] at hm'
        rw [eq_of_mem_adopted hm' (hs.id_eq.trans hid)] at hs
        exact hs.signed
    · exact absurd hp hmoon.not_planet
    · exact absurd hmoon hnot
  · have hin := h.follows m hm hs htype hroot
    have hold : t.world ∉ t.before.moons := fun hmem => by
      have hnewer := hs.newer
      rw [hd.eq_of_id hmem hm hs.id_eq] at hnewer
      exact UInt64.lt_irrefl _ hnewer
    rcases turn_cases c t with ⟨hmoon, _⟩ | ⟨_, _, hms⟩ | ⟨_, _, _, hms⟩
    · exact ⟨hmoon.selfSigned, hmoon.seed⟩
    · rw [hms] at hin
      exact absurd hin hold
    · rw [hms] at hin
      exact absurd hin hold

theorem Turn.Fits.lawful (hd : Distinct t.before) (h : t.Fits c) : t.Lawful c := by
  refine ⟨?_, fun m hm => ?_, fun m hm hs htype hroot => ?_⟩
  · rcases turn_cases c t with ⟨_, hw, _⟩ | ⟨hp, hw, _⟩ | ⟨_, _, hw, _⟩
    · exact .inl hw
    · exact .inr ⟨hw, hp.id_eq, hp.newer, h.planet hp⟩
    · exact .inl hw
  · rcases turn_cases c t with ⟨hmoon, _, hms⟩ | ⟨_, _, hms⟩ | ⟨_, _, _, hms⟩
    · rw [hms]
      by_cases hid : m.id = t.world.id
      · exact .inr ⟨t.world, by simp, hid.symm, hmoon.newer m hm hid, h.moons hmoon m hm hid⟩
      · exact .inl (List.mem_append_left _ (List.mem_filter.mpr ⟨hm, by simpa using hid⟩))
    · exact .inl (by rwa [hms])
    · exact .inl (by rwa [hms])
  · obtain ⟨hself, hseed⟩ := h.follows m hm hs htype hroot
    have hsender : t.senderOk = true := by
      have hany : t.before.moons.any
          (fun m => m.id == t.world.id && ZtStack.rootOf m t.sender) = true :=
        List.any_eq_true.mpr ⟨m, hm, by simp [hs.id_eq, hroot]⟩
      rw [Turn.senderOk, hany, Bool.or_true]
    have hmoon : t.TakesMoon c := by
      refine ⟨htype, hself, hsender, hseed, fun m' hm' hid => ?_⟩
      rw [hd.eq_of_id hm' hm (hid.trans hs.id_eq)]
      exact hs.newer
    rcases turn_cases c t with ⟨_, _, hms⟩ | ⟨hp, _⟩ | ⟨hnot, _⟩
    · rw [hms]
      exact List.mem_append_right _ (List.mem_singleton_self _)
    · exact absurd hp hmoon.not_planet
    · exact absurd hmoon hnot

/-! ## Runs -/

theorem Distinct.after (hd : Distinct t.before) : Distinct (t.after c) := by
  unfold Distinct at hd ⊢
  rcases turn_cases c t with ⟨_, _, hms⟩ | ⟨_, _, hms⟩ | ⟨_, _, _, hms⟩
  · rw [hms, List.map_append, List.nodup_append]
    refine ⟨hd.sublist (List.filter_sublist.map _), List.nodup_singleton _, ?_⟩
    intro a ha b hb
    obtain ⟨m, hm, rfl⟩ := List.mem_map.mp ha
    rw [List.mem_filter, bne_iff_ne] at hm
    rw [List.map_singleton, List.mem_singleton] at hb
    rw [hb]
    exact hm.2
  · rwa [hms]
  · rwa [hms]

theorem worldTurns_distinct {sender : UInt64} {isPlanetRoot : Bool} {now : Nat}
    (worlds : List World) (hd : Distinct st) :
    (∀ t ∈ worldTurns c sender isPlanetRoot now st worlds, Distinct t.before) ∧
      Distinct (worlds.foldl (ZtStack.adoptWorld c sender isPlanetRoot now) st) := by
  induction worlds generalizing st with
  | nil => exact ⟨fun t ht => absurd ht List.not_mem_nil, hd⟩
  | cons world worlds ih =>
    have hafter := Distinct.after (c := c) (t := ⟨st, sender, isPlanetRoot, now, world⟩) hd
    obtain ⟨hrest, hend⟩ := ih hafter
    refine ⟨fun t ht => ?_, hend⟩
    rcases List.mem_cons.mp ht with rfl | ht
    · exact hd
    · exact hrest t ht

theorem turns_distinct (calls : List AdoptCall) (hd : Distinct st) :
    ∀ t ∈ turns c st calls, Distinct t.before := by
  induction calls generalizing st with
  | nil => exact fun t ht => absurd ht List.not_mem_nil
  | cons call calls ih =>
    obtain ⟨hcall, hend⟩ := worldTurns_distinct (c := c) (worldsOf call.block) hd
    intro t ht
    rcases List.mem_append.mp ht with ht | ht
    · exact hcall t ht
    · exact ih hend t ht

/-- Where the signing chain leads from a world. -/
def Descends (c : Crates) : World → World → Prop := Relation.ReflTransGen (Succeeds c)

/-- A node whose worlds descend from those of another. -/
structure Follows (c : Crates) (st st' : ZtStack) : Prop where
  planet : Descends c st.world st'.world
  moons : ∀ m ∈ st.moons, ∃ m' ∈ st'.moons, Descends c m m'

theorem Follows.refl (st : ZtStack) : Follows c st st := ⟨.refl, fun m hm => ⟨m, hm, .refl⟩⟩

theorem Follows.trans {st st' st'' : ZtStack} (h : Follows c st st') (h' : Follows c st' st'') :
    Follows c st st'' := by
  refine ⟨h.planet.trans h'.planet, fun m hm => ?_⟩
  obtain ⟨m', hm', hd⟩ := h.moons m hm
  obtain ⟨m'', hm'', hd'⟩ := h'.moons m' hm'
  exact ⟨m'', hm'', hd.trans hd'⟩

theorem Turn.Lawful.follows_after (h : t.Lawful c) : Follows c t.before (t.after c) := by
  refine ⟨?_, fun m hm => ?_⟩
  · rcases h.planet with heq | ⟨heq, hs⟩
    · rw [heq]
      exact .refl
    · rw [heq]
      exact .single hs
  · rcases h.moons m hm with hstay | ⟨m', hm', hs⟩
    · exact ⟨m, hstay, .refl⟩
    · exact ⟨m', hm', .single hs⟩

theorem worldTurns_follow {sender : UInt64} {isPlanetRoot : Bool} {now : Nat} (worlds : List World)
    (h : ∀ t ∈ worldTurns c sender isPlanetRoot now st worlds, t.Lawful c) :
    Follows c st (worlds.foldl (ZtStack.adoptWorld c sender isPlanetRoot now) st) := by
  induction worlds generalizing st with
  | nil => exact .refl st
  | cons world worlds ih =>
    have hfirst := (h _ List.mem_cons_self).follows_after
    exact hfirst.trans (ih fun t ht => h t (List.mem_cons_of_mem _ ht))

/-- Over a run whose turns all do what they owe, the worlds descend from those at its start. -/
theorem calls_follow (calls : List AdoptCall) (h : ∀ t ∈ turns c st calls, t.Lawful c) :
    Follows c st (calls.foldl (afterCall c) st) := by
  induction calls generalizing st with
  | nil => exact .refl st
  | cons call calls ih =>
    have hfirst := worldTurns_follow (worldsOf call.block) fun t ht =>
      h t (List.mem_append_left _ ht)
    exact hfirst.trans (ih fun t ht => h t (List.mem_append_right _ ht))

/-- In every run of calls from a fresh node, no call panics, each world that a call comes to does
    what it owes exactly when it fits, and where all fit, the worlds descend from the first. -/
theorem worlds_evolve_iff (c : Crates) (identity : NodeIdentity) (world : World)
    (networkId : UInt64) (orbit : List (UInt64 × UInt64)) (calls : List AdoptCall) :
    (∃ st, runCalls c (.new identity world networkId orbit) calls = some st ∧
        ((∀ t ∈ turns c (.new identity world networkId orbit) calls, t.Fits c) →
          Follows c (.new identity world networkId orbit) st)) ∧
      ∀ t ∈ turns c (.new identity world networkId orbit) calls, t.Lawful c ↔ t.Fits c := by
  have hd : Distinct (.new identity world networkId orbit) := List.nodup_nil
  have hturns := turns_distinct (c := c) calls hd
  refine ⟨⟨_, runCalls_eq c _ calls, fun hfits => ?_⟩, fun t ht => ?_⟩
  · exact calls_follow calls fun t ht => (hfits t ht).lawful (hturns t ht)
  · exact ⟨fun h => h.fits (hturns t ht), fun h => h.lawful (hturns t ht)⟩

/-! ## A planet that signs for itself -/

/-- Signatures that begin with the public key they verify under, over a fixed digest. -/
def plainCrates : Crates where
  sha512 _ := ByteVec.zero 64
  mulClamped point _ := point
  ed25519Verify publicKey _ signature := publicKey.val == signature.take 32

def rootIdentity : NodeIdentity :=
  .fromParts 0x1122334455 ⟨List.replicate 64 7, List.length_replicate⟩ none

/-- The planet of the node: it names the key set of ones. -/
def homePlanet : World where
  worldType := worldTypePlanet
  id := 9
  timestamp := 1
  mustBeSignedBy := ⟨List.replicate 64 1, List.length_replicate⟩
  signature := ⟨List.replicate 32 1 ++ List.replicate 64 0, by simp⟩
  roots := [⟨rootIdentity, []⟩]

/-- A later planet that names the key set of twos, and is signed by that one. -/
def roguePlanet : World where
  worldType := worldTypePlanet
  id := 9
  timestamp := 2
  mustBeSignedBy := ⟨List.replicate 64 2, List.length_replicate⟩
  signature := ⟨List.replicate 32 2 ++ List.replicate 64 0, by simp⟩
  roots := []

theorem worldsOf_rogue : worldsOf (roguePlanet.serialize false) = [roguePlanet] := by
  have hread : World.fromBytes (roguePlanet.serialize false) = .ok (roguePlanet, 178) := by
    decide +kernel
  have hrest : worldsOf ((roguePlanet.serialize false).drop 178) = [] := by
    rw [worldsOf, dif_pos (by decide)]
  rw [worldsOf, dif_neg (by decide), hread]
  simp only [hrest]
  rfl

/-- The rogue planet replaces the home planet, though the home planet's key set did not sign it. -/
theorem rogue_planet_adopted :
    ∃ t ∈ turns plainCrates (.new rootIdentity homePlanet 0 [])
        [⟨0x1122334455, roguePlanet.serialize false, 0⟩],
      (t.after plainCrates).world = roguePlanet ∧ ¬ t.Lawful plainCrates := by
  let t : Turn := ⟨.new rootIdentity homePlanet 0 [], 0x1122334455, true, 0, roguePlanet⟩
  have ht : t.TakesPlanet plainCrates := ⟨rfl, rfl, rfl, by decide, by decide⟩
  refine ⟨t, ?_, rfl, fun h => ?_⟩
  · unfold turns
    rw [worldsOf_rogue]
    exact List.mem_cons_self
  · have hfits := Turn.Lawful.fits (t := t) List.nodup_nil h
    have := hfits.planet ht
    revert this
    decide

end RustCrash.ZeroTier
