import RustCrash.Error
import RustCrash.Lib.Bits
import RustCrash.Lib.Intervals

/-
  The succinct domain trie of both binary rule-set formats (`ruleset_bin.rs`): the reader
  `LoudsTrie` with its rank and select indexes, and `build_domain_set`, which writes one.

  The indexes hold `u32` values, cut without a check. A slice index out of range, which
  panics in the source, is `none` in the builder. `keys` stops after a number of steps
  fixed beforehand; `walk` takes that number as its budget.
-/

namespace RustCrash.RulesetBin

open Lib

def truncated (what : String) : Error := .config s!"{what}: truncated data"

/-! ## The reader -/

structure LoudsTrie where
  leaves : List UInt64
  labelBitmap : List UInt64
  labels : Bytes
  /-- Per-word prefix popcount of the bitmap. -/
  rank1Prefix : List UInt32
  /-- Positions of every 1-bit of the bitmap. -/
  onesPositions : List UInt32
  bitLen : Nat

/-- The position of the last 1-bit. -/
def lastOne (ws : List UInt64) : Option Nat :=
  (ws.zipIdx.reverse.find? fun p => p.1 ≠ 0).map fun p => (p.2 <<< 6) + (63 - leadingZeros p.1)

def rank1PrefixOf (ws : List UInt64) : List UInt32 :=
  ws.scanl (fun acc w => acc + UInt32.ofNat (countOnes w)) 0

def onesPositionsOf (ws : List UInt64) : List UInt32 :=
  ws.zipIdx.flatMap fun p =>
    ((List.range 64).filter fun i => p.1 &&& oneBit i ≠ 0).map fun i =>
      UInt32.ofNat ((p.2 <<< 6) ||| i)

namespace LoudsTrie

/-- Check the counts and build the indexes. -/
def new (leaves labelBitmap : List UInt64) (labels : Bytes) : Result LoudsTrie :=
  let ones := (labelBitmap.map countOnes).sum
  let zeros := match lastOne labelBitmap with
    | some pos => pos + 1 - ones
    | none => 0
  if ones ≠ zeros + 1 ∨ labels.length ≠ zeros then
    .error (.config "malformed domain trie: labels do not match the LOUDS bitmap")
  else
    let wordsNeeded := (ones + 63) >>> 6
    .ok {
      leaves := leaves ++ List.replicate (wordsNeeded - leaves.length) 0
      labelBitmap := labelBitmap
      labels := labels
      rank1Prefix := rank1PrefixOf labelBitmap
      onesPositions := onesPositionsOf labelBitmap
      bitLen := labelBitmap.length * 64 }

variable (t : LoudsTrie)

def bit (i : Nat) : Option UInt64 :=
  t.labelBitmap[i / 64]?.map fun w => (w >>> UInt64.ofNat (i % 64)) &&& 1

def leaf (node : Nat) : Option Bool :=
  t.leaves[node / 64]?.map fun w => (w >>> UInt64.ofNat (node % 64)) &&& 1 == 1

/-- Number of 0-bits (edges) before bit `i`. -/
def rank0Before (i : Nat) : Option Nat :=
  if t.bitLen < i then none
  else do
    let ones ← t.rank1Prefix[i / 64]?
    if 0 < i % 64 then
      let w ← t.labelBitmap[i / 64]?
      return i - (ones.toNat + countOnes (w &&& (oneBit (i % 64) - 1)))
    else return i - ones.toNat

/-- Position of the (i+1)-th 1-bit. -/
def select1 (i : Nat) : Option Nat := t.onesPositions[i]?.map UInt32.toNat

/-- The loop of `keys`: a stack of (node id, first-edge bitmap index) frames, top first. -/
def walk : Nat → List (Nat × Nat) → Bytes → List Bytes → Result (List Bytes)
  | _, [], _, result => .ok result
  | 0, _ :: _, _, _ => .error (.config "malformed domain trie: walk does not terminate")
  | budget + 1, (nodeId, bmIdx) :: stack, current, result => do
    let b ← okOr (t.bit bmIdx) (truncated "domain trie")
    if b = 1 then
      match stack with
      | [] => walk budget [] current result
      | (parent, edge) :: stack => walk budget ((parent, edge + 1) :: stack) current.dropLast result
    else
      let label ← okOr (if nodeId ≤ bmIdx then t.labels[bmIdx - nodeId]? else none)
        (.config "malformed domain trie: bad label index")
      let current := current ++ [label]
      let nextNode ← okOr (t.rank0Before (bmIdx + 1)) (truncated "domain trie")
      let i ← okOr (if 1 ≤ nextNode then some (nextNode - 1) else none)
        (.config "malformed domain trie: bad child node id")
      let p ← okOr (t.select1 i) (truncated "domain trie")
      let leaf ← okOr (t.leaf nextNode) (truncated "domain trie")
      walk budget ((nextNode, p + 1) :: (nodeId, bmIdx) :: stack) current
        (if leaf then result ++ [current] else result)

/-- Recover every stored key. -/
def keys : Result (List Bytes) := do
  let root ← okOr (t.leaf 0) (truncated "domain trie")
  let stepCap := 8 * (t.labels.length + t.onesPositions.length + 64)
  t.walk stepCap [(0, 0)] [] (if root then [[]] else [])

end LoudsTrie

/-! ## The builder -/

/-- `sort_unstable` and `dedup`. -/
def sortedKeys (keys : List Bytes) : List Bytes := sortDedup keys

/-- The bitmaps and counters `build_domain_set` fills. -/
structure DomainSet where
  leaves : List UInt64
  labelBitmap : List UInt64
  labels : Bytes
  lIdx : Nat
  nodeId : Nat

/-- `keys[j][col]`. -/
def keyByte (keys : List Bytes) (j col : Nat) : Option UInt8 := do
  let k ← keys[j]?
  k[col]?

/-- The end of the run of keys from `j` whose byte at `col` is `b`, among the next `n`. -/
def runEnd (keys : List Bytes) (col : Nat) (b : UInt8) : Nat → Nat → Option Nat
  | 0, j => some j
  | n + 1, j => do
    let c ← keyByte keys j col
    if c = b then runEnd keys col b n (j + 1) else some j

/-- The runs of equal next bytes in `j..e`, each with its byte. The first number bounds how
    many there are. -/
def runs (keys : List Bytes) (col e : Nat) : Nat → Nat → Option (List (UInt8 × Nat × Nat))
  | 0, _ => some []
  | n + 1, j =>
    if j < e then do
      let b ← keyByte keys j col
      let j' ← runEnd keys col b (e - j) j
      let more ← runs keys col e n j'
      some ((b, j, j') :: more)
    else some []

/-- One node: its terminal bit, its edges and the 1-bit that ends them. -/
def addNode (keys : List Bytes) (col : Nat) (st : DomainSet × List (Nat × Nat))
    (frame : Nat × Nat) : Option (DomainSet × List (Nat × Nat)) := do
  let (ds, next) := st
  let (s0, e) := frame
  let first ← keys[s0]?
  let terminal := first.length = col
  let s := if terminal then s0 + 1 else s0
  let rs ← runs keys col e (e - s) s
  let lIdx := ds.lIdx + rs.length
  some (
    { leaves := if terminal then setBit ds.leaves ds.nodeId else ds.leaves
      labelBitmap := setBit ds.labelBitmap lIdx
      labels := ds.labels ++ rs.map Prod.fst
      lIdx := lIdx + 1
      nodeId := ds.nodeId + 1 },
    next ++ rs.map Prod.snd)

/-- The level loop; the first number bounds how many levels there are. -/
def addLevels (keys : List Bytes) : Nat → Nat → List (Nat × Nat) → DomainSet → Option DomainSet
  | _, _, [], ds => some ds
  | 0, _, _ :: _, _ => none
  | n + 1, col, queue, ds => do
    let (ds, next) ← queue.foldlM (addNode keys col) (ds, [])
    addLevels keys n (col + 1) next ds

/-- The length of the longest key. -/
def longest (keys : List Bytes) : Nat := (keys.map List.length).foldr max 0

/-- The words of the terminal bitmap, of the edge bitmap, and the edge labels. -/
def buildDomainSet (keys : List Bytes) : Option (List UInt64 × List UInt64 × Bytes) := do
  let keys := sortedKeys keys
  let ds ← addLevels keys (longest keys + 1) 0 [(0, keys.length)] ⟨[], [], [], 0, 0⟩
  return (ds.leaves, ds.labelBitmap, ds.labels)

end RustCrash.RulesetBin
