import RustCrash.Lib.SeenPool
import RustCrash.Proto.SocksAddr
import RustCrash.Shadowsocks.Method

/-
  `SsServer::accept`: the request header of a connection, and the pool of salts that keeps a 2022
  request from being accepted twice.

  A salt is kept for 60 s from its arrival, and a timestamp passes from 60 s before its second to
  60 s after. So the pool is long enough for a request whose timestamp is past when its salt is
  claimed, and any other accepted request can be sent again after 60 s (`salts_iff`).
-/

namespace RustCrash.Shadowsocks

open Lib Proto

/-! ## The block cipher and the users -/

/-- AES over single blocks. -/
structure BlockCipher where
  key : Bytes

namespace BlockCipher

def new (kind : AeadKind) (key : Bytes) : Result BlockCipher :=
  match kind with
  | .aes128Gcm | .aes256Gcm =>
    if key.length = kind.keyLen then .ok ⟨key⟩
    else .error (.crypto "ss2022 udp block cipher: Invalid Length")
  | .chacha20Poly1305 =>
    .error (.crypto s!"ss2022 udp needs an AES method, got {kind.debug}")

def encrypt (c : BlockCipher) (b : Aes.Block) : Aes.Block := Aes.encryptBlock c.key b

def decrypt (c : BlockCipher) (b : Aes.Block) : Aes.Block := Aes.decryptBlock c.key b

theorem eq_of_new {kind : AeadKind} {key : Bytes} {c : BlockCipher} (h : new kind key = .ok c) :
    c = ⟨key⟩ := by
  unfold new at h
  cases kind with
  | chacha20Poly1305 => cases h
  | aes128Gcm | aes256Gcm =>
    dsimp only at h
    split_ifs at h
    exact (Except.ok.inj h).symm

theorem decrypt_encrypt (c : BlockCipher) (b : Aes.Block) : c.decrypt (c.encrypt b) = b :=
  Aes.decryptBlock_encryptBlock c.key b

end BlockCipher

/-- The server: the method, its main key and the keys of the users, if there are any. -/
structure SsServer where
  method : SsMethod
  key : ByteVec method.keyLen
  users : Option (List (ByteVec method.keyLen))

section Hashing

variable (H : Hashes) (blake3 : Bytes → ByteVec 32)

def identityToken (userKey : Bytes) : Bytes := (blake3 userKey).val.take 16

def identitySubkey (serverKey salt : Bytes) (keyLen : Nat) : Bytes :=
  (H.blake3DeriveKey "shadowsocks 2022 identity subkey" (serverKey ++ salt)).val.take keyLen

def openEihTcp (kind : AeadKind) (serverKey salt : Bytes) (eihCt : Aes.Block) : Result Bytes := do
  let cipher ← BlockCipher.new kind (identitySubkey H serverKey salt salt.length)
  return (cipher.decrypt eihCt).val

/-- Of two users with one token the later is found. -/
def SsServer.findUser (s : SsServer) (users : List (ByteVec s.method.keyLen)) (token : Bytes) :
    Option (ByteVec s.method.keyLen) :=
  users.reverse.find? fun user => identityToken blake3 user.val = token

/-! ## The request header -/

/-- `read_exact_vec`, on a connection that brings `bs` and ends. -/
def readVec (n : Nat) (bs : Bytes) : Result (Bytes × Bytes) :=
  if n ≤ bs.length then .ok (bs.take n, bs.drop n) else .error (.io "early eof")

/-- The next block opened. -/
def openHeader (what : String) (dec : SsCrypto) (ct : Bytes) : Result (Bytes × SsCrypto) :=
  match dec.openNext ct with
  | (_, .error e) => .error (.protocol s!"{what}: {e.display}")
  | (dec, .ok plain) => .ok (plain, dec)

/-- The key of the session, with the identity header read where there are users. -/
def SsServer.sessionKey (s : SsServer) (salt bs : Bytes) :
    Result (ByteVec s.method.keyLen × Bytes) :=
  match s.users with
  | none => .ok (s.key, bs)
  | some users => do
    let (eihCt, bs) ← readVec 16 bs
    let token ← openEihTcp H s.method.kind s.key.val salt (Aes.block fun i => eihCt.getD i 0)
    let user ← okOr (s.findUser blake3 users token)
      (.protocol "ss2022 eih: identity token matches no user")
    return (user, bs)

/-- The fixed header of a 2022 request: its timestamp and the length of the next block. -/
def readFixedHeader (dec : SsCrypto) (bs : Bytes) : Result (UInt64 × UInt16 × SsCrypto × Bytes) := do
  let (ct, bs) ← readVec (11 + tagSize) bs
  let (fixed, dec) ← openHeader "ss2022 request header" dec ct
  ensure (fixed.getD 0 0 = 0) (.protocol "ss2022 request: not a client stream header")
  return (ofBE64 (slice fixed 1 8), ofBE16 (slice fixed 9 2), dec, bs)

def tsWindow : Nat := 60

def checkStamp (now : Nat) (ts : UInt64) : Result Unit :=
  let drift := (now - ts.toNat) + (ts.toNat - now)
  ensure (drift ≤ tsWindow)
    (.protocol s!"ss2022 request timestamp drift {drift}s exceeds replay window")

def maxPadding : Nat := 900

/-- The variable header: the target, and the payload that comes with it. -/
def varHeader (varLen : UInt16) (dec : SsCrypto) (bs : Bytes) : Result (NetAddr × Bytes) := do
  let (ct, _) ← readVec (varLen.toNat + tagSize) bs
  let (var, _) ← openHeader "ss2022 request header" dec ct
  let (target, used) ← decodeSocksAddr var
  let rest := var.drop used
  ensure (2 ≤ rest.length) (.protocol "ss2022 request: no padding length")
  let padLen := (ofBE16 (rest.take 2)).toNat
  ensure (padLen ≤ maxPadding) (.protocol s!"ss2022 request: padding {padLen} exceeds {maxPadding}")
  ensure (2 + padLen ≤ rest.length) (.protocol "ss2022 request: padding overruns header")
  let body := rest.drop (2 + padLen)
  ensure (¬ (body = [] ∧ padLen = 0))
    (.protocol "ss2022 request header carries neither payload nor padding")
  return (target, body)

/-- The header of a legacy request. -/
def legacyHeader (dec : SsCrypto) (bs : Bytes) : Result (NetAddr × Bytes) := do
  let (ct, bs) ← readVec (2 + tagSize) bs
  let (lp, dec) ← openHeader "shadowsocks request length" dec ct
  let (ct, _) ← readVec ((ofBE16 (lp.take 2)).toNat + tagSize) bs
  let (hdr, _) ← openHeader "shadowsocks request header" dec ct
  let (target, used) ← decodeSocksAddr hdr
  return (target, hdr.drop used)

/-- What is known of a request before its salt is claimed; a legacy one has no timestamp. -/
structure Request where
  salt : Bytes
  stamp : Option UInt64
  sessionKey : Bytes
  target : NetAddr
  initial : Bytes

def SsServer.readRequest (s : SsServer) (now : Nat) (stream : Bytes) : Result Request := do
  let (salt, bs) ← readVec s.method.keyLen stream
  let (sessionKey, bs) ← s.sessionKey H blake3 salt bs
  let aead ← Aead.new s.method.kind (subkeyFor H s.method sessionKey.val salt)
  if s.method.is2022 then
    let (ts, varLen, dec, bs) ← readFixedHeader (SsCrypto.new aead) bs
    checkStamp now ts
    let (target, initial) ← varHeader varLen dec bs
    return ⟨salt, some ts, sessionKey.val, target, initial⟩
  else
    let (target, initial) ← legacyHeader (SsCrypto.new aead) bs
    return ⟨salt, none, sessionKey.val, target, initial⟩

/-! ## Accepting -/

/-- A call of `accept`. Its timestamp check and its claim are at these times, in nanoseconds. -/
structure Call where
  server : SsServer
  stream : Bytes
  respSalt : Bytes
  checkedAt : Nat
  claimedAt : Nat

/-- How long a salt is kept. -/
def retention : Nat := tsWindow * 10 ^ 9

def duplicateSalt : Error := .protocol "ss2022 replay: duplicate client salt"

/-- The process started `epoch` nanoseconds after 1970. -/
def nowSecs (epoch t : Nat) : Nat := (epoch + t) / 10 ^ 9

/-- The response direction. -/
def Call.respond (c : Call) (r : Request) : Result Request := do
  let _ ← Aead.new c.server.method.kind (subkeyFor H c.server.method r.sessionKey c.respSalt)
  return r

def accept (epoch : Nat) (pool : SeenPool Bytes) (c : Call) : SeenPool Bytes × Result Request :=
  match c.server.readRequest H blake3 (nowSecs epoch c.checkedAt) c.stream with
  | .error e => (pool, .error e)
  | .ok r =>
    if c.server.method.is2022 then
      match SeenPool.claim retention pool r.salt c.claimedAt with
      | (pool, false) => (pool, .error duplicateSalt)
      | (pool, true) => (pool, c.respond H r)
    else (pool, c.respond H r)

/-- What a call does to the pool, which is one for all servers. -/
def acceptStep (epoch : Nat) (pool : SeenPool Bytes) (c : Call) : SeenPool Bytes :=
  (accept H blake3 epoch pool c).1

/-- Claims are made in the order of their times, and after the timestamp was checked. -/
def InOrder (calls : List Call) : Prop :=
  calls.Pairwise (fun a b => a.claimedAt ≤ b.claimedAt) ∧ ∀ c ∈ calls, c.checkedAt ≤ c.claimedAt

/-- At `t` the timestamp passes. -/
def Passes (epoch : Nat) (ts : UInt64) (t : Nat) : Prop := checkStamp (nowSecs epoch t) ts = .ok ()

/-- Whatever comes after a request that a run accepts, its salt is not accepted again while its
    timestamp would pass. -/
def SingleUse (epoch : Nat) (calls : List Call) : Prop :=
  ∀ x ∈ Machine.steps (acceptStep H blake3 epoch) [] calls, ∀ r ts,
    (accept H blake3 epoch x.1 x.2).2 = .ok r → r.stamp = some ts →
    ∀ future, InOrder (x.2 :: future) →
    ∀ y ∈ Machine.steps (acceptStep H blake3 epoch) (acceptStep H blake3 epoch x.1 x.2) future,
    ∀ r' ts', (accept H blake3 epoch y.1 y.2).2 = .ok r' → r'.stamp = some ts' →
      r'.salt = r.salt → ¬ Passes epoch ts y.2.claimedAt

/-- A rejection that is not for a duplicate salt leaves the pool as it was. -/
def RejectsCleanly (epoch : Nat) (calls : List Call) : Prop :=
  ∀ x ∈ Machine.steps (acceptStep H blake3 epoch) [] calls, ∀ e,
    (accept H blake3 epoch x.1 x.2).2 = .error e → e ≠ duplicateSalt →
    acceptStep H blake3 epoch x.1 x.2 = x.1

end Hashing

/-! ## One call -/

variable {H : Hashes} {blake3 : Bytes → ByteVec 32}

variable {ts : UInt64} {r : Request} {pool : SeenPool Bytes}

theorem checkStamp_eq_ok {now : Nat} :
    checkStamp now ts = .ok () ↔ now ≤ ts.toNat + 60 ∧ ts.toNat ≤ now + 60 := by
  unfold checkStamp tsWindow
  dsimp only
  rw [ensure_eq_ok]
  omega

/-- A request is read at one time as at another, but for its timestamp. -/
theorem readRequest_ok {s : SsServer} {now : Nat} {stream : Bytes}
    (h : s.readRequest H blake3 now stream = .ok r) :
    r.sessionKey.length = s.method.keyLen ∧ (r.stamp ≠ none ↔ s.method.is2022 = true) ∧
      ∀ ts, r.stamp = some ts → checkStamp now ts = .ok () ∧
        ∀ now', checkStamp now' ts = .ok () → s.readRequest H blake3 now' stream = .ok r := by
  unfold SsServer.readRequest at h
  obtain ⟨⟨salt, bs⟩, hsalt, h⟩ := bind_eq_ok.mp h
  obtain ⟨⟨sessionKey, bs'⟩, hkey, h⟩ := bind_eq_ok.mp h
  obtain ⟨aead, haead, h⟩ := bind_eq_ok.mp h
  dsimp only at hkey haead h
  by_cases h2022 : s.method.is2022 = true
  · rw [if_pos h2022] at h
    obtain ⟨⟨ts, varLen, dec, bs''⟩, hfixed, h⟩ := bind_eq_ok.mp h
    obtain ⟨_, hstamp, h⟩ := bind_eq_ok.mp h
    obtain ⟨⟨target, initial⟩, hvar, h⟩ := bind_eq_ok.mp h
    obtain rfl := Except.ok.inj h
    refine ⟨ByteVec.length_val _, iff_of_true nofun h2022, fun ts' hts => ?_⟩
    obtain rfl := Option.some.inj hts
    refine ⟨hstamp, fun now' hstamp' => ?_⟩
    unfold SsServer.readRequest
    rw [hsalt, bind_ok]
    dsimp only
    rw [hkey, bind_ok]
    dsimp only
    rw [haead, bind_ok, if_pos h2022, hfixed, bind_ok]
    dsimp only
    rw [hstamp', bind_ok, hvar, bind_ok]
    rfl
  · rw [if_neg h2022] at h
    obtain ⟨⟨target, initial⟩, -, h⟩ := bind_eq_ok.mp h
    obtain rfl := Except.ok.inj h
    exact ⟨ByteVec.length_val _, iff_of_false (not_not_intro rfl) h2022, nofun⟩

/-- The response direction has a key of the right length, so it does not fail. -/
theorem respond_ok (c : Call) (h : r.sessionKey.length = c.server.method.keyLen) :
    c.respond H r = .ok r := by
  unfold Call.respond
  rw [new_subkeyFor H c.server.method ⟨r.sessionKey, h⟩ c.respSalt]
  rfl

/-- What a call that reads a request does. -/
theorem accept_read {epoch : Nat} {c : Call}
    (h : c.server.readRequest H blake3 (nowSecs epoch c.checkedAt) c.stream = .ok r) :
    accept H blake3 epoch pool c =
      if r.stamp = none then (pool, .ok r)
      else ((SeenPool.claim retention pool r.salt c.claimedAt).1,
        if (SeenPool.claim retention pool r.salt c.claimedAt).2 then .ok r
        else .error duplicateSalt) := by
  obtain ⟨hkey, h2022, -⟩ := readRequest_ok h
  unfold accept
  rw [h]
  dsimp only
  by_cases hstamp : r.stamp = none
  · have hlegacy : ¬ c.server.method.is2022 = true := fun hm => h2022.mpr hm hstamp
    rw [if_pos hstamp, if_neg hlegacy, respond_ok c hkey]
  · rw [if_neg hstamp, if_pos (h2022.mp hstamp)]
    rcases SeenPool.claim retention pool r.salt c.claimedAt with ⟨pool', _ | _⟩
    · rfl
    · dsimp only
      rw [respond_ok c hkey]
      rfl

theorem accept_failed {epoch : Nat} {c : Call} {e : Error}
    (h : c.server.readRequest H blake3 (nowSecs epoch c.checkedAt) c.stream = .error e) :
    accept H blake3 epoch pool c = (pool, .error e) := by
  unfold accept
  rw [h]

/-- An accepted 2022 request was read, and its salt was claimed. -/
theorem accept_eq_ok {epoch : Nat} {c : Call} (hstamp : r.stamp = some ts) :
    (accept H blake3 epoch pool c).2 = .ok r ↔
      c.server.readRequest H blake3 (nowSecs epoch c.checkedAt) c.stream = .ok r ∧
        (SeenPool.claim retention pool r.salt c.claimedAt).2 = true := by
  have hsome : r.stamp ≠ none := by
    rw [hstamp]
    exact nofun
  constructor
  · intro h
    cases hread : c.server.readRequest H blake3 (nowSecs epoch c.checkedAt) c.stream with
    | error e =>
      rw [accept_failed hread] at h
      cases h
    | ok r' =>
      rw [accept_read hread] at h
      by_cases hlegacy : r'.stamp = none
      · rw [if_pos hlegacy] at h
        obtain rfl := Except.ok.inj h
        exact absurd hlegacy hsome
      · rw [if_neg hlegacy] at h
        dsimp only at h
        split_ifs at h with hclaim
        obtain rfl := Except.ok.inj h
        exact ⟨rfl, hclaim⟩
  · rintro ⟨hread, hclaim⟩
    rw [accept_read hread, if_neg hsome, if_pos hclaim]

theorem acceptStep_claims (epoch : Nat) :
    SeenPool.Claims retention Call.claimedAt (acceptStep H blake3 epoch) := by
  intro pool c
  unfold acceptStep
  cases hread : c.server.readRequest H blake3 (nowSecs epoch c.checkedAt) c.stream with
  | error e =>
    rw [accept_failed hread]
    exact .inl rfl
  | ok r =>
    rw [accept_read hread]
    by_cases hlegacy : r.stamp = none
    · rw [if_pos hlegacy]
      exact .inl rfl
    · rw [if_neg hlegacy]
      exact .inr ⟨r.salt, rfl⟩

/-- What a rejection leaves of the pool. -/
theorem rejects_cleanly (epoch : Nat) (calls : List Call) :
    RejectsCleanly H blake3 epoch calls := by
  rintro ⟨pool, c⟩ - e herror hother
  unfold acceptStep
  cases hread : c.server.readRequest H blake3 (nowSecs epoch c.checkedAt) c.stream with
  | error e' => rw [accept_failed hread]
  | ok r =>
    rw [accept_read hread] at herror ⊢
    by_cases hlegacy : r.stamp = none
    · rw [if_pos hlegacy]
    · rw [if_neg hlegacy] at herror
      dsimp only at herror
      split_ifs at herror
      exact absurd (Except.error.inj herror).symm hother

/-! ## The two windows -/

/-- A timestamp that was past when the salt was claimed does not outlive the salt. -/
theorem age_lt_retention {epoch t t' : Nat} (hpast : ts.toNat < nowSecs epoch t)
    (hpasses : Passes epoch ts t') : t' - t < retention := by
  obtain ⟨hnow, -⟩ := checkStamp_eq_ok.mp hpasses
  unfold nowSecs at hpast hnow
  unfold retention tsWindow
  omega

/-- A timestamp that was not past passes when the salt is forgotten. -/
theorem passes_later {epoch checked t : Nat} (hle : checked ≤ t)
    (hchecked : Passes epoch ts checked) (hfuture : nowSecs epoch t ≤ ts.toNat) :
    Passes epoch ts (t + retention) := by
  obtain ⟨-, hts⟩ := checkStamp_eq_ok.mp hchecked
  refine checkStamp_eq_ok.mpr ?_
  unfold nowSecs at hts hfuture ⊢
  unfold retention tsWindow
  omega

/-! ## Runs -/

/-- The same bytes at `t`. -/
def Call.again (c : Call) (t : Nat) : Call := { c with checkedAt := t, claimedAt := t }

/-- An accepted request is accepted again, when its salt is forgotten and its timestamp passes. -/
theorem accepted_again {epoch t : Nat} {c : Call} (hpool : ∀ x ∈ pool, x.2 ≤ c.claimedAt)
    (haccept : (accept H blake3 epoch pool c).2 = .ok r) (hstamp : r.stamp = some ts)
    (hlate : c.claimedAt + retention ≤ t) (hpasses : Passes epoch ts t) :
    (accept H blake3 epoch (acceptStep H blake3 epoch pool c) (c.again t)).2 = .ok r := by
  obtain ⟨hread, -⟩ := (accept_eq_ok hstamp).mp haccept
  obtain ⟨-, -, hany⟩ := readRequest_ok hread
  have hold : ∀ x ∈ acceptStep H blake3 epoch pool c, retention ≤ t - x.2 := by
    intro x hx
    have htime : x.2 ≤ c.claimedAt := by
      rcases acceptStep_claims epoch pool c with hsame | ⟨k, hk⟩
      · rw [hsame] at hx
        exact hpool x hx
      · rw [hk] at hx
        rcases SeenPool.of_mem_claim hx with hx | rfl
        · exact hpool x hx
        · exact Nat.le_refl _
    omega
  exact (accept_eq_ok hstamp).mpr ⟨(hany ts hstamp).2 _ hpasses, SeenPool.claim_old hold⟩

/-- The salts of a run are single-use, whatever follows, exactly if each request that it accepts
    has a timestamp before the second in which its salt is claimed. -/
theorem salts_iff (H : Hashes) (blake3 : Bytes → ByteVec 32) (epoch : Nat) (calls : List Call)
    (horder : InOrder calls) :
    SingleUse H blake3 epoch calls ∧ RejectsCleanly H blake3 epoch calls ↔
      ∀ x ∈ Machine.steps (acceptStep H blake3 epoch) [] calls, ∀ r ts,
        (accept H blake3 epoch x.1 x.2).2 = .ok r → r.stamp = some ts →
        ts.toNat < nowSecs epoch x.2.claimedAt := by
  constructor
  · rintro ⟨hsingle, -⟩ ⟨pool, first⟩ hx r ts haccept hstamp
    by_contra hnot
    have hfuture := Nat.not_lt.mp hnot
    obtain ⟨hread, -⟩ := (accept_eq_ok hstamp).mp haccept
    obtain ⟨-, -, hany⟩ := readRequest_ok hread
    have hle := horder.2 first (Machine.action_mem hx)
    have hpasses : Passes epoch ts (first.claimedAt + retention) :=
      passes_later hle (hany ts hstamp).1 hfuture
    -- the same request once more, when its salt is forgotten
    have hnone : ∀ e ∈ ([] : SeenPool Bytes), ∀ c ∈ calls, e.2 ≤ c.claimedAt :=
      fun _ he => absurd he List.not_mem_nil
    have hpool := (acceptStep_claims epoch).times horder.1 hnone _ hx
    have hsecond := accepted_again hpool haccept hstamp (Nat.le_refl _) hpasses
    refine hsingle (pool, first) hx r ts haccept hstamp [first.again _] ⟨?_, ?_⟩
      (_, first.again _) List.mem_cons_self r ts hsecond hstamp rfl hpasses
    · exact List.pairwise_pair.mpr (Nat.le_add_right _ _)
    · intro c hc
      rcases List.mem_pair.mp hc with rfl | rfl
      · exact hle
      · exact Nat.le_refl _
  · intro hpast
    refine ⟨?_, rejects_cleanly epoch calls⟩
    rintro ⟨pool, first⟩ hx r ts haccept hstamp future hfuture ⟨pool', second⟩ hy r' ts' haccept'
      hstamp' hsalt hpasses
    have hage := age_lt_retention (hpast _ hx r ts haccept hstamp) hpasses
    obtain ⟨hread, hclaim⟩ := (accept_eq_ok hstamp).mp haccept
    obtain ⟨-, hclaim'⟩ := (accept_eq_ok hstamp').mp haccept'
    have hthere : (r.salt, first.claimedAt) ∈ acceptStep H blake3 epoch pool first := by
      have hsome : r.stamp ≠ none := by
        rw [hstamp]
        exact nofun
      unfold acceptStep
      rw [accept_read hread, if_neg hsome]
      exact SeenPool.claimed hclaim
    have hkept := (acceptStep_claims epoch).mem_steps (List.pairwise_cons.mp hfuture.1).2 hthere _ hy hage
    rw [hsalt, SeenPool.claim_seen hkept hage] at hclaim'
    cases hclaim'

/-! ## A replay -/

/-- Hash functions that give zeros. -/
def zeroHashes : Hashes where
  md5 _ := .zero 16
  sha256 _ := .zero 32
  hmacSha1 _ _ := .zero 20
  hmacSha256 _ _ := .zero 32
  blake3DeriveKey _ _ := .zero 32
  crc32 _ := 0

def sampleServer : SsServer := ⟨.blake3Aes128Gcm, .zero 16, none⟩

/-- A salt of zeros, and a request of second 1000 for `1.2.3.4:80` with one byte of payload. -/
def sampleStream : Bytes :=
  let aead : Aead := sessionAead zeroHashes .blake3Aes128Gcm (.zero 16) (ByteVec.zero 16).val
  let fixed := 0 :: be64 1000 ++ be16 10
  let var : Bytes := [1, 1, 2, 3, 4, 0, 80, 0, 0, 7]
  let parts := do
    let first ← aead.sealed (ssNonce 0) [] fixed
    let second ← aead.sealed (ssNonce 1) [] var
    return first ++ second
  (ByteVec.zero 16).val ++ parts.toOption.getD []

/-- The stream arrives at second `s`. -/
def sampleCall (s : Nat) : Call := ⟨sampleServer, sampleStream, [], s * 10 ^ 9, s * 10 ^ 9⟩

theorem nowSecs_mul (s : Nat) : nowSecs 0 (s * 10 ^ 9) = s := by
  unfold nowSecs
  omega

theorem sampleCall_accepted : ∃ r, r.stamp = some 1000 ∧ ∀ s, 1000 ≤ s → s ≤ 1060 →
    (accept zeroHashes (fun _ => .zero 32) 0 [] (sampleCall s)).2 = .ok r := by
  have hread : (sampleServer.readRequest zeroHashes (fun _ => .zero 32) 1000
      sampleStream).toOption.bind Request.stamp = some 1000 := by
    decide +kernel
  generalize hres : sampleServer.readRequest zeroHashes (fun _ => .zero 32) 1000 sampleStream = res
    at hread
  cases res with
  | error e => cases hread
  | ok r =>
    obtain ⟨-, -, hany⟩ := readRequest_ok hres
    refine ⟨r, hread, fun s hlow hhigh => (accept_eq_ok hread).mpr ⟨(hany _ hread).2 _ ?_, ?_⟩⟩
    · refine checkStamp_eq_ok.mpr ?_
      have hnow : nowSecs 0 (sampleCall s).checkedAt = s := nowSecs_mul s
      have hts : (1000 : UInt64).toNat = 1000 := rfl
      omega
    · exact SeenPool.claim_old fun _ hx => absurd hx List.not_mem_nil

theorem salts_iff_sample :
    SingleUse zeroHashes (fun _ => .zero 32) 0 [sampleCall 1001] ∧
      RejectsCleanly zeroHashes (fun _ => .zero 32) 0 [sampleCall 1001] := by
  have horder : InOrder [sampleCall 1001] := by
    refine ⟨List.pairwise_singleton _ _, fun c hc => ?_⟩
    rw [List.mem_singleton.mp hc]
    exact Nat.le_refl _
  obtain ⟨r, hstamp, haccept⟩ := sampleCall_accepted
  refine (salts_iff zeroHashes (fun _ => .zero 32) 0 [sampleCall 1001] horder).mpr ?_
  intro x hx r' ts haccept' hstamp'
  rw [List.mem_singleton.mp hx] at haccept' ⊢
  have hsame := haccept'.symm.trans (haccept 1001 (by decide) (by decide))
  obtain rfl := Except.ok.inj hsame
  obtain rfl := Option.some.inj (hstamp'.symm.trans hstamp)
  have hnow : nowSecs 0 (sampleCall 1001).claimedAt = 1001 := nowSecs_mul 1001
  rw [hnow]
  decide

/-- The same request twice, 60 s apart, with the second of its arrival for a timestamp. -/
theorem salt_used_twice :
    InOrder [sampleCall 1000, sampleCall 1060] ∧
      ¬ SingleUse zeroHashes (fun _ => .zero 32) 0 [sampleCall 1000, sampleCall 1060] := by
  have horder : InOrder [sampleCall 1000, sampleCall 1060] := by
    refine ⟨List.pairwise_pair.mpr ?_, fun c hc => ?_⟩
    · exact Nat.mul_le_mul_right _ (by decide)
    · rcases List.mem_pair.mp hc with rfl | rfl
      · exact Nat.le_refl _
      · exact Nat.le_refl _
  obtain ⟨r, hstamp, haccept⟩ := sampleCall_accepted
  have hfirst := haccept 1000 (by decide) (by decide)
  have hpasses : Passes 0 1000 (1060 * 10 ^ 9) := by
    refine checkStamp_eq_ok.mpr ?_
    rw [nowSecs_mul]
    have hts : (1000 : UInt64).toNat = 1000 := rfl
    omega
  have hlate : (sampleCall 1000).claimedAt + retention ≤ 1060 * 10 ^ 9 := Nat.le_of_eq rfl
  have hsecond := accepted_again (fun _ hx => absurd hx List.not_mem_nil) hfirst hstamp hlate
    hpasses
  have hagain : (sampleCall 1000).again (1060 * 10 ^ 9) = sampleCall 1060 := rfl
  rw [hagain] at hsecond
  refine ⟨horder, fun hsingle => ?_⟩
  have hreplay := hsingle ([], sampleCall 1000) List.mem_cons_self r 1000 hfirst hstamp
    [sampleCall 1060] horder (_, sampleCall 1060) List.mem_cons_self r 1000
  dsimp only at hreplay
  exact hreplay hsecond hstamp rfl hpasses

end RustCrash.Shadowsocks
