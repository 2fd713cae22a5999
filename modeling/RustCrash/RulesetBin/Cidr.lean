import RustCrash.Error
import RustCrash.Lib.Net

/-
  IP ranges of the binary rule sets (`ruleset_bin.rs`): CIDR text to a range, ranges
  merged, a range to and from its 16-byte endpoints, and a range to CIDR text. A `u128`
  is a natural number below 2^128.
-/

namespace RustCrash.RulesetBin

open Lib Lib.Net

/-! ## CIDR text to ranges -/

/-- One parsed CIDR as an inclusive numeric range within its address family. -/
structure IpRange where
  v6 : Bool
  lo : Nat
  hi : Nat
  deriving DecidableEq, Repr

/-- `uN::MAX << (N - plen)`, and 0 for no prefix. -/
def prefixMask (w plen : Nat) : BitVec w :=
  if plen = 0 then 0 else BitVec.allOnes w <<< (w - plen)

/-- Parse `a.b.c.d/pl` (or v6), masking the host bits. -/
def parseCidrRange (rule : Str) : Result IpRange := do
  let (addr, plen) ← okOr (Str.splitOnce '/' rule)
    (.config s!"missing /prefix length in {Str.debug rule}")
  let plen ← okOr (Str.parseUint (2 ^ 32 - 1) plen) (.config s!"bad prefix length {Str.debug plen}")
  match parseIpAddr addr with
  | some (.v4 a) =>
    if 32 < plen then .error (.config s!"prefix length {plen} exceeds 32 for v4")
    else
      let mask := prefixMask 32 plen
      let lo := a &&& mask
      .ok ⟨false, lo.toNat, (lo ||| ~~~mask).toNat⟩
  | some (.v6 a) =>
    if 128 < plen then .error (.config s!"prefix length {plen} exceeds 128 for v6")
    else
      let mask := prefixMask 128 plen
      let lo := a &&& mask
      .ok ⟨true, lo.toNat, (lo ||| ~~~mask).toNat⟩
  | none => .error (.config s!"bad address {Str.debug addr}")

/-! ## Merging -/

/-- The order of `sort_by_key(|r| (r.v6, r.lo, r.hi))`. -/
def rangeLe (r s : IpRange) : Bool :=
  (!r.v6 && s.v6) ||
    (r.v6 == s.v6 && (r.lo < s.lo || (r.lo == s.lo && r.hi ≤ s.hi)))

/-- Add a range to the merged ones, of which `last` is the last. -/
def coalesce : IpRange → List IpRange → List IpRange
  | last, [] => [last]
  | last, r :: rs =>
    if last.v6 = r.v6 ∧ r.lo ≤ min (last.hi + 1) (2 ^ 128 - 1) then
      coalesce { last with hi := max last.hi r.hi } rs
    else last :: coalesce r rs

def mergeRanges (ranges : List IpRange) : List IpRange :=
  match ranges.mergeSort rangeLe with
  | [] => []
  | r :: rs => coalesce r rs

/-! ## 16-byte endpoints -/

/-- v6 in full, v4 embedded as `::ffff:a.b.c.d`. -/
def addrAs16Prod (v : Nat) (v6 : Bool) : Bytes :=
  if v6 then toBE 16 v else List.replicate 10 0 ++ [0xff, 0xff] ++ toBE 4 v

/-- Decode a 16-byte address, unmapping the IPv4-mapped form. -/
def addrFrom16 (arr : Bytes) : Result IpAddr :=
  if arr.length ≠ 16 then .error (.config "ip range address: truncated data")
  else if arr.take 10 = List.replicate 10 0 ∧ arr[10]? = some 0xff ∧ arr[11]? = some 0xff then
    .ok (.v4 (ofOctets4 (arr.drop 12)))
  else .ok (.v6 (ofOctets6 arr))

/-! ## Ranges to CIDR text -/

/-- `u128::leading_zeros`. -/
def leadingZeros128 (n : Nat) : Nat := if n = 0 then 128 else 127 - n.log2

/-- `u128::trailing_zeros`. -/
def trailingZeros128 (n : Nat) : Nat := ((List.range 128).find? n.testBit).getD 128

/-- The size exponent of the largest block aligned at `cur` that fits under `hi`. -/
def blockBits (cur hi bits : Nat) : Nat :=
  let span := hi - cur
  let k := if span = 2 ^ 128 - 1 then 128
    else if span = 0 then 0
    else 127 - leadingZeros128 (span + 1)
  let tz := if cur = 0 then bits else min (trailingZeros128 cur) bits
  min k tz

def cidrText (cur bits k : Nat) : Str :=
  let addr : IpAddr := if bits = 32 then .v4 (BitVec.ofNat 32 cur) else .v6 (BitVec.ofNat 128 cur)
  ipText addr ++ '/' :: Str.decimal (bits - k)

/-- The loop of `ip_range_to_cidrs`. -/
def cidrLoop (hi bits cur : Nat) : List Str :=
  if cur ≤ hi then
    let k := blockBits cur hi bits
    cidrText cur bits k ::
      if 128 ≤ k then []
      else if cur + 2 ^ k < 2 ^ 128 then cidrLoop hi bits (cur + 2 ^ k)
      else []
  else []
termination_by hi + 1 - cur
decreasing_by
  have := Nat.two_pow_pos (blockBits cur hi bits)
  omega

def ipRangeToCidrs (fromAddr toAddr : IpAddr) : Result (List Str) :=
  let check := fun (lo hi bits : Nat) =>
    if hi < lo then
      .error (.config s!"invalid ip range: {txt (ipText fromAddr)} > {txt (ipText toAddr)}")
    else .ok (cidrLoop hi bits lo)
  match fromAddr, toAddr with
  | .v4 a, .v4 b => check a.toNat b.toNat 32
  | .v6 a, .v6 b => check a.toNat b.toNat 128
  | _, _ => .error (.config
      s!"invalid ip range: {txt (ipText fromAddr)}..{txt (ipText toAddr)} mixes address families")

end RustCrash.RulesetBin
