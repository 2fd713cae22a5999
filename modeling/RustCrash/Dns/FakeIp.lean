import Mathlib.Data.List.AList
import RustCrash.Error
import RustCrash.Lib.NetText

/-
  The fake-IP pool (`dns/fakeip.rs`): addresses of a reserved range handed out to domains,
  with an approximate LRU list for eviction, and the store file it is saved to.

  `u32` is `BitVec 32`, so `+` wraps as it does in a release build. The hash maps are
  association lists without duplicate keys. The JSON codec of the store file is a
  parameter: nothing below depends on what it does.
-/

namespace RustCrash.Dns

open Lib

abbrev U32 := BitVec 32

/-- `HashMap<String, IpAddr>`. -/
abbrev DomainMap := AList (fun _ : Str => IpAddr)

/-- `HashMap<IpAddr, String>`. -/
abbrev IpMap := AList (fun _ : IpAddr => Str)

structure Inner where
  /-- Next candidate offset (wraps; skips in-use entries). -/
  cursor : U32
  byDomain : DomainMap
  byIp : IpMap
  /-- Approximate LRU: append on (re)use, evict front. -/
  order : List Str

structure FakeIpPool where
  base : U32
  prefixLen : Nat
  size : U32
  inner : Inner

/-- On-disk shape of the pool. -/
structure StoreFile where
  version : U32
  range : Str
  next : U32
  mappings : List (Str × Str)

/-- The JSON form of the store file (`serde_json`). -/
structure StoreCodec where
  encode : StoreFile → Bytes
  decode : Bytes → Except String StoreFile

/-! ## The range -/

def maskOf (p : Nat) : U32 :=
  if p = 0 then 0 else BitVec.allOnes 32 <<< (32 - p)

/-- Split `a.b.c.d/p` into base, prefix length and usable size. -/
def parseRange (cidr : Str) : Result (U32 × Nat × U32) := do
  let (addr, plen) ← okOr (Str.splitOnce '/' cidr)
    (.config s!"bad fake-ip-range {Str.debug cidr}")
  let addr ← okOr (Net.parseIpv4 addr) (.config s!"bad fake-ip address {Str.debug addr}")
  let p ← okOr (Str.parseUint (2 ^ 32 - 1) plen)
    (.config s!"bad fake-ip prefix {Str.debug plen}")
  if ¬ (2 ≤ p ∧ p ≤ 32) then
    throw (.config s!"fake-ip prefix /{p} out of range")
  let base := addr &&& maskOf p
  -- (1 << (32 - p)).saturating_sub(2).max(1)
  let size := BitVec.ofNat 32 (max (2 ^ (32 - p) - 2) 1)
  return (base, p, size)

def Inner.empty : Inner := ⟨0, ∅, ∅, []⟩

namespace FakeIpPool

def new (cidr : Str) : Result FakeIpPool := do
  let (base, p, size) ← parseRange cidr
  return ⟨base, p, size, Inner.empty⟩

/-- Canonical `network/prefix` of the pool. -/
def canonicalRange (pool : FakeIpPool) : Str :=
  Net.text4 pool.base ++ '/' :: Str.decimal pool.prefixLen

/-- Membership: within [base+1, base+1+size]. -/
def contains (pool : FakeIpPool) : IpAddr → Bool
  | .v4 v => pool.base < v && v ≤ pool.base + 1 + pool.size
  | .v6 _ => false

def len (pool : FakeIpPool) : Nat := pool.inner.byDomain.keys.length

end FakeIpPool

/-! ## Allocation -/

/-- Move a domain to the back of the LRU list. -/
def touch (order : List Str) (domain : Str) : List Str :=
  if domain ∈ order then order.erase domain ++ [domain] else order

/-- The address at a cursor value. -/
def candidate (base size cursor : U32) : IpAddr := .v4 (base + 1 + cursor % size)

/-- Evict the least recently used domain when the pool is full. -/
def evict (size : U32) (inner : Inner) : Inner :=
  if size ≤ BitVec.ofNat 32 inner.byDomain.keys.length then
    match inner.order with
    | [] => inner
    | victim :: order =>
      match inner.byDomain.lookup victim with
      | some ip =>
        { inner with
          byDomain := inner.byDomain.erase victim, byIp := inner.byIp.erase ip, order := order }
      | none => { inner with order := order }
  else inner

/-- The scan for a free slot: at most `n` cursor values. Returns the slot, if one was
    found, and the cursor after the last value looked at. -/
def findFree (base size : U32) (byIp : IpMap) : Nat → U32 → Option IpAddr × U32
  | 0, cursor => (none, cursor)
  | n + 1, cursor =>
    let ip := candidate base size cursor
    let cursor := cursor + 1
    if (byIp.lookup ip).isNone then (some ip, cursor) else findFree base size byIp n cursor

namespace FakeIpPool

/-- Get or allocate the fake address of a domain, and whether it was freshly allocated. -/
def lookupOrAllocFlagged (pool : FakeIpPool) (domain : Str) :
    Result (IpAddr × Bool) × FakeIpPool :=
  if (utf8 domain).length > 255 then
    (.error (.protocol s!"domain name too long for fakeip ({(utf8 domain).length} bytes, max 255)"),
      pool)
  else
    match pool.inner.byDomain.lookup domain with
    | some ip =>
      (.ok (ip, false),
        { pool with inner := { pool.inner with order := touch pool.inner.order domain } })
    | none =>
      let inner := evict pool.size pool.inner
      let (found, cursor) := findFree pool.base pool.size inner.byIp pool.size.toNat inner.cursor
      -- no free slot among them: the slot at the cursor, whatever it holds
      let ip := found.getD (candidate pool.base pool.size cursor)
      (.ok (ip, true),
        { pool with
          inner :=
            { cursor := cursor
              byDomain := inner.byDomain.insert domain ip
              byIp := inner.byIp.insert ip domain
              order := inner.order ++ [domain] } })

def lookupOrAlloc (pool : FakeIpPool) (domain : Str) : Result IpAddr × FakeIpPool :=
  let (r, pool) := pool.lookupOrAllocFlagged domain
  (r.map Prod.fst, pool)

/-- Reverse lookup: the domain of a fake address. -/
def reverse (pool : FakeIpPool) (ip : IpAddr) : Option Str × FakeIpPool :=
  match pool.inner.byIp.lookup ip with
  | none => (none, pool)
  | some domain =>
    (some domain,
      { pool with inner := { pool.inner with order := touch pool.inner.order domain } })

/-- Drop every mapping and restart allocation. -/
def flush (pool : FakeIpPool) : FakeIpPool := { pool with inner := Inner.empty }

/-! ## The store file -/

/-- What `persist_to` serializes: the mappings in LRU order. -/
def store (pool : FakeIpPool) : StoreFile :=
  { version := 1
    range := pool.canonicalRange
    next := pool.inner.cursor
    mappings := pool.inner.order.filterMap fun d =>
      (pool.inner.byDomain.lookup d).map fun ip => (d, Net.ipText ip) }

/-- One mapping of a store file, checked and added. -/
def loadMapping (pool : FakeIpPool) (path : Str) (inner : Inner) (m : Str × Str) :
    Result Inner := do
  let (domain, text) := m
  let ip ← okOr (Net.parseIpAddr text)
    (.config s!"fake-ip store {txt path}: bad address {Str.debug text} for {Str.debug domain}")
  if ¬ pool.contains ip then
    throw (.config
      s!"fake-ip store {txt path}: address {txt (Net.ipText ip)} outside {txt pool.canonicalRange}")
  if (inner.byDomain.lookup domain).isSome ∨ (inner.byIp.lookup ip).isSome then
    throw (.config s!"fake-ip store {txt path}: duplicate mapping for {Str.debug domain}")
  return { inner with
    byDomain := inner.byDomain.insert domain ip
    byIp := inner.byIp.insert ip domain
    order := inner.order ++ [domain] }

/-- `load_from`, over the contents of the file (`none`: the file is missing). -/
def loadFrom (codec : StoreCodec) (cidr path : Str) (raw : Option Bytes) :
    Result FakeIpPool := do
  let pool ← new cidr
  match raw with
  | none => return pool
  | some raw =>
    match codec.decode raw with
    | .error e => throw (.config s!"fake-ip store {txt path}: corrupt ({e})")
    | .ok store =>
      if store.version ≠ 1 then
        throw (.config s!"fake-ip store {txt path}: unsupported version {store.version.toNat}")
      else if store.range ≠ pool.canonicalRange then
        -- the addresses mean something else now: start over
        return pool
      else if pool.size < BitVec.ofNat 32 store.mappings.length then
        throw (.config
          s!"fake-ip store {txt path}: {store.mappings.length} mappings exceed pool size {pool.size.toNat}")
      else do
        let inner ← store.mappings.foldlM (loadMapping pool path) pool.inner
        return { pool with inner := { inner with cursor := store.next % pool.size } }

end FakeIpPool

/-! ## Runs -/

/-- One operation on the pool of a running engine. `loadFrom` stands for a restart; the
    file may have been written by this program or by anything else. -/
inductive Op where
  | lookupOrAlloc (domain : Str)
  | reverse (ip : IpAddr)
  | flush
  | persistTo
  | loadFrom (cidr : Str)
  | overwriteFile (raw : Option Bytes)

/-- The pool and the store file. -/
structure Sys where
  pool : FakeIpPool
  file : Option Bytes

/-- One operation. A `load_from` that fails leaves the running pool as it was. -/
def step (codec : StoreCodec) (path : Str) (s : Sys) : Op → Sys
  | .lookupOrAlloc domain => { s with pool := (s.pool.lookupOrAlloc domain).2 }
  | .reverse ip => { s with pool := (s.pool.reverse ip).2 }
  | .flush => { s with pool := s.pool.flush }
  | .persistTo => { s with file := some (codec.encode s.pool.store) }
  | .loadFrom cidr =>
    match FakeIpPool.loadFrom codec cidr path s.file with
    | .ok pool => { s with pool := pool }
    | .error _ => s
  | .overwriteFile raw => { s with file := raw }

def run (codec : StoreCodec) (path : Str) (s : Sys) (ops : List Op) : Sys :=
  ops.foldl (step codec path) s

end RustCrash.Dns
