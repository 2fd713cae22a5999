import RustCrash.Proto.SocksAddr

/-
  The datagrams of `MieruUdp`: each goes into the stream of the session behind its length, with the
  address of its target in front of its payload.

  `send_to` bounds the payload, and the length counts the address too, so it can wrap. A frame that
  wraps is never read back as it was sent, and one that does not is (`recvAll_iff`).
-/

namespace RustCrash.Mieru

open Lib Lib.Net Proto

/-! ## The two calls -/

/-- Why a call gives no datagram. -/
inductive RecvStop where
  /-- The stream brings nothing more. -/
  | waiting
  | failed (e : Error)

/-- `?`. -/
def orFail {α : Type} : Result α → Except RecvStop α
  | .ok a => .ok a
  | .error e => .error (.failed e)

/-- `self.stream.read_exact`. -/
def readStream (n : Nat) (script : List Arrival) : Except RecvStop (Bytes × List Arrival) :=
  match readExact n script with
  | .done bs rest => .ok (bs, rest)
  | .waiting => .error .waiting
  | .eof => .error (.failed (.io "early eof"))

/-- What is framed: the reserved bytes, the address and the payload. -/
def associateInner (target : NetAddr) (payload : Bytes) : Bytes :=
  [0x00, 0x00, 0x00] ++ encodeSocksAddr target.host target.port ++ payload

/-- What `send_to` writes. -/
def sendTo (target : NetAddr) (payload : Bytes) : Result Bytes :=
  if 65535 < payload.length then .error (.protocol "mieru: udp datagram exceeds 65535 bytes")
  else
    let inner := associateInner target payload
    .ok (0x00 :: be16 (UInt16.ofNat inner.length) ++ inner ++ [0xff])

/-- `UDPAssociateWrapper.ReadFrom`. -/
def unwrapAssociate (cap : Nat) (inner : Bytes) : Result (NetAddr × Bytes) := do
  ensure (inner.getD 0 0 = 0x00 ∧ inner.getD 1 0 = 0x00) (.protocol "mieru: invalid UDP header")
  ensure (inner.getD 2 0 = 0x00) (.protocol "mieru: UDP fragment is not supported")
  let (addr, used) ← decodeSocksAddr (inner.drop 3)
  ensure (addr.host.asDomain = none)
    (.protocol "mieru: peer used FQDN in UDP associate header, which is unsupported")
  let payload := inner.drop (3 + used)
  ensure (payload.length ≤ cap) (.protocol
    s!"mieru: udp read: {payload.length} byte datagram exceeds the {cap} byte buffer")
  return (addr, payload)

/-- `recv_from` into a buffer of `cap` bytes: the origin and the payload, and what is to come. -/
def recvFrom (cap : Nat) (script : List Arrival) :
    Except RecvStop ((NetAddr × Bytes) × List Arrival) := do
  let (head, script) ← readStream 3 script
  orFail (ensure (head.getD 0 0 = 0x00)
    (.protocol s!"mieru: packet prefix 0x{txt (hex (head.getD 0 0).toNat)} is not 0x00"))
  let len := (ofBE16 (head.drop 1)).toNat
  orFail (ensure (7 ≤ len)
    (.protocol s!"mieru: packet size {len} is too short to hold UDP associate header"))
  let (inner, script) ← readStream len script
  let (suffix, script) ← readStream 1 script
  orFail (ensure (suffix.getD 0 0 = 0xff)
    (.protocol s!"mieru: packet suffix 0x{txt (hex (suffix.getD 0 0).toNat)} is not 0xff"))
  let d ← orFail (unwrapAssociate cap inner)
  return (d, script)

/-! ## Sequences -/

/-- The frames of accepted datagrams, one behind the other. -/
def sendAll : List (NetAddr × Bytes) → Result Bytes
  | [] => .ok []
  | (target, payload) :: ds => do
    let frame ← sendTo target payload
    let frames ← sendAll ds
    return frame ++ frames

/-- One datagram for each buffer. -/
def recvAll : List Nat → List Arrival → Except RecvStop (List (NetAddr × Bytes) × List Arrival)
  | [], script => .ok ([], script)
  | cap :: caps, script => do
    let (d, script) ← recvFrom cap script
    let (ds, script) ← recvAll caps script
    return (d :: ds, script)

/-- The length of what is framed fits its two bytes. -/
def FrameFits (d : NetAddr × Bytes) : Prop := (associateInner d.1 d.2).length ≤ 65535

/-! ## One datagram -/

theorem readStream_front {bs more : Bytes} {script : List Arrival} (hend : Endless script)
    (h : arrived script = bs ++ more) :
    ∃ rest, readStream bs.length script = .ok (bs, rest) ∧ arrived rest = more ∧ Endless rest := by
  obtain ⟨rest, hread, hrest, hend'⟩ := readExact_front hend h
  unfold readStream
  rw [hread]
  exact ⟨rest, rfl, hrest, hend'⟩

theorem length_readStream {n : Nat} {script rest : List Arrival} {bs : Bytes}
    (h : readStream n script = .ok (bs, rest)) : bs.length = n := by
  unfold readStream at h
  generalize hread : readExact n script = read at h
  cases read with
  | waiting => cases h
  | eof => cases h
  | done bs' rest' =>
    cases h
    exact length_readExact hread

theorem orFail_eq_ok {α : Type} {r : Result α} {a : α} (h : orFail r = .ok a) : r = .ok a := by
  cases r with
  | error e => cases h
  | ok a' =>
    cases h
    rfl

theorem sendTo_eq_ok {target : NetAddr} {payload frame : Bytes}
    (h : sendTo target payload = .ok frame) : payload.length ≤ 65535 ∧
      frame = 0x00 :: be16 (UInt16.ofNat (associateInner target payload).length) ++
        (associateInner target payload ++ [0xff]) := by
  unfold sendTo at h
  split_ifs at h with hlong
  refine ⟨Nat.not_lt.mp hlong, ?_⟩
  rw [← List.append_assoc]
  exact (Except.ok.inj h).symm

/-- An address has seven bytes, or nineteen. -/
theorem length_encodeSocksAddr {target : NetAddr} {ip : IpAddr} (hip : target.host = .ip ip) :
    7 ≤ (encodeSocksAddr target.host target.port).length ∧
      (encodeSocksAddr target.host target.port).length ≤ 19 := by
  unfold encodeSocksAddr HostForm.encode
  rw [hip, List.length_append, length_be16]
  cases ip with
  | v4 v4 =>
    dsimp only
    rw [List.length_cons, length_octets4]
    omega
  | v6 v6 =>
    dsimp only
    rw [List.length_cons, length_octets6]
    omega

theorem length_associateInner (target : NetAddr) (payload : Bytes) :
    (associateInner target payload).length =
      3 + (encodeSocksAddr target.host target.port).length + payload.length := by
  unfold associateInner
  rw [List.length_append, List.length_append]
  rfl

theorem unwrapAssociate_inner {target : NetAddr} {ip : IpAddr} (hip : target.host = .ip ip)
    {payload : Bytes} {cap : Nat} (hcap : payload.length ≤ cap) :
    unwrapAssociate cap (associateInner target payload) = .ok (target, payload) := by
  have haddr : decodeSocksAddr ((associateInner target payload).drop 3) =
      .ok (target, (encodeSocksAddr target.host target.port).length) := by
    have hword : SocksWord (encodeSocksAddr target.host target.port) target :=
      ⟨_, rfl, HostForm.word_encode (by rw [hip]; trivial) socksForm⟩
    exact socks_reads.append hword payload
  have hpayload : (associateInner target payload).drop
      (3 + (encodeSocksAddr target.host target.port).length) = payload := by
    apply List.drop_left'
    rw [List.length_append]
    rfl
  have hdomain : target.host.asDomain = none := by
    rw [hip]
    rfl
  unfold unwrapAssociate
  rw [ensure_of ⟨rfl, rfl⟩, bind_ok, ensure_of (by rfl), bind_ok, haddr, bind_ok]
  dsimp only
  rw [ensure_of hdomain, bind_ok, hpayload, ensure_of hcap, bind_ok]
  rfl

/-- The payload is a part of what was framed. -/
theorem unwrapAssociate_le {cap : Nat} {inner : Bytes} {d : NetAddr × Bytes}
    (h : unwrapAssociate cap inner = .ok d) : d.2.length ≤ inner.length := by
  unfold unwrapAssociate at h
  obtain ⟨-, -, h⟩ := bind_eq_ok.mp h
  obtain ⟨-, -, h⟩ := bind_eq_ok.mp h
  obtain ⟨⟨addr, used⟩, -, h⟩ := bind_eq_ok.mp h
  dsimp only at h
  obtain ⟨-, -, h⟩ := bind_eq_ok.mp h
  obtain ⟨-, -, h⟩ := bind_eq_ok.mp h
  obtain rfl := Except.ok.inj h
  dsimp only
  rw [List.length_drop]
  exact Nat.sub_le _ _

/-- A frame that fits is read back. -/
theorem recvFrom_fits {target : NetAddr} {ip : IpAddr} (hip : target.host = .ip ip)
    {payload frame : Bytes} (hsend : sendTo target payload = .ok frame)
    (hfits : FrameFits (target, payload)) {cap : Nat} (hcap : payload.length ≤ cap)
    {script : List Arrival} {more : Bytes} (hend : Endless script)
    (harrived : arrived script = frame ++ more) :
    ∃ rest, recvFrom cap script = .ok ((target, payload), rest) ∧ arrived rest = more ∧
      Endless rest := by
  obtain ⟨-, rfl⟩ := sendTo_eq_ok hsend
  obtain ⟨hleast, -⟩ := length_encodeSocksAddr hip
  have hlen := length_associateInner target payload
  have hcount : (UInt16.ofNat (associateInner target payload).length).toNat =
      (associateInner target payload).length :=
    UInt16.toNat_ofNat_of_lt' (Nat.lt_succ_of_le hfits)
  rw [List.append_assoc, List.append_assoc] at harrived
  obtain ⟨script₁, hread₁, harrived₁, hend₁⟩ := readStream_front hend harrived
  obtain ⟨script₂, hread₂, harrived₂, hend₂⟩ := readStream_front hend₁ harrived₁
  obtain ⟨script₃, hread₃, harrived₃, hend₃⟩ := readStream_front hend₂ harrived₂
  rw [List.length_cons, length_be16] at hread₁
  refine ⟨script₃, ?_, harrived₃, hend₃⟩
  unfold recvFrom
  rw [hread₁, bind_ok]
  dsimp only
  rw [ensure_of (by rfl), List.drop_succ_cons, List.drop_zero, ofBE16_be16, hcount,
    ensure_of (by omega)]
  dsimp only [orFail]
  rw [bind_ok, bind_ok, hread₂, bind_ok]
  dsimp only
  rw [show readStream 1 script₂ = .ok ([0xff], script₃) from hread₃, bind_ok]
  dsimp only
  rw [ensure_of (by rfl), unwrapAssociate_inner hip hcap]
  rfl

/-- What is read is no longer than the length in front says. -/
theorem recvFrom_le {cap : Nat} {x : UInt16} {script rest : List Arrival} {more : Bytes}
    {d : NetAddr × Bytes} (hend : Endless script)
    (harrived : arrived script = (0x00 :: be16 x) ++ more)
    (h : recvFrom cap script = .ok (d, rest)) : d.2.length ≤ x.toNat := by
  obtain ⟨script₁, hread₁, -, -⟩ := readStream_front hend harrived
  rw [List.length_cons, length_be16] at hread₁
  unfold recvFrom at h
  rw [hread₁, bind_ok] at h
  dsimp only at h
  rw [List.drop_succ_cons, List.drop_zero, ofBE16_be16] at h
  obtain ⟨-, -, h⟩ := bind_eq_ok.mp h
  obtain ⟨-, -, h⟩ := bind_eq_ok.mp h
  obtain ⟨⟨inner, script₂⟩, hinner, h⟩ := bind_eq_ok.mp h
  obtain ⟨⟨suffix, script₃⟩, -, h⟩ := bind_eq_ok.mp h
  dsimp only at h
  obtain ⟨-, -, h⟩ := bind_eq_ok.mp h
  obtain ⟨d', hd', h⟩ := bind_eq_ok.mp h
  obtain ⟨rfl, -⟩ := Prod.mk.inj (Except.ok.inj h)
  have hle := unwrapAssociate_le (orFail_eq_ok hd')
  rwa [length_readStream hinner] at hle

/-- A frame that wraps is never read back: less is read than was sent. -/
theorem fits_of_recvFrom {target : NetAddr} {ip : IpAddr} (hip : target.host = .ip ip)
    {payload frame more : Bytes} (hsend : sendTo target payload = .ok frame) {cap : Nat}
    {script rest : List Arrival} (hend : Endless script)
    (harrived : arrived script = frame ++ more)
    (h : recvFrom cap script = .ok ((target, payload), rest)) : FrameFits (target, payload) := by
  obtain ⟨hmax, rfl⟩ := sendTo_eq_ok hsend
  obtain ⟨hleast, hmost⟩ := length_encodeSocksAddr hip
  have hlen := length_associateInner target payload
  rw [List.append_assoc] at harrived
  have hle := recvFrom_le hend harrived h
  rw [UInt16.toNat_ofNat'] at hle
  unfold FrameFits
  dsimp only at hle ⊢
  by_contra hwraps
  have hmod : (associateInner target payload).length % 65536 =
      (associateInner target payload).length - 65536 := by omega
  omega

/-! ## All of them -/

/-- What was sent comes back, in order and to the last byte, exactly if every frame fits. -/
theorem recvAll_iff (ds : List (NetAddr × Bytes)) (hip : ∀ d ∈ ds, ∃ ip, d.1.host = .ip ip)
    {wire more : Bytes} (hsend : sendAll ds = .ok wire) {caps : List Nat}
    (hcaps : List.Forall₂ (fun d cap => d.2.length ≤ cap) ds caps) {script : List Arrival}
    (hend : Endless script) (harrived : arrived script = wire ++ more) :
    (∃ rest, recvAll caps script = .ok (ds, rest) ∧ arrived rest = more) ↔
      ∀ d ∈ ds, FrameFits d := by
  induction hcaps generalizing wire script with
  | nil =>
    obtain rfl := Except.ok.inj hsend
    exact iff_of_true ⟨script, rfl, harrived⟩ nofun
  | @cons d cap ds caps hcap _ ih =>
    obtain ⟨target, payload⟩ := d
    obtain ⟨ip, hhost⟩ := hip _ List.mem_cons_self
    obtain ⟨frame, hframe, hsend⟩ := bind_eq_ok.mp hsend
    obtain ⟨frames, hframes, hsend⟩ := bind_eq_ok.mp hsend
    obtain rfl := Except.ok.inj hsend
    rw [List.append_assoc] at harrived
    have hlater := fun script' => @ih (fun d hd => hip d (List.mem_cons_of_mem _ hd)) frames hframes
      script'
    rw [List.forall_mem_cons]
    constructor
    · rintro ⟨rest, h, hrest⟩
      obtain ⟨⟨d', script'⟩, hd', h⟩ := bind_eq_ok.mp h
      obtain ⟨⟨ds', script''⟩, hds', h⟩ := bind_eq_ok.mp h
      obtain ⟨hcons, rfl⟩ := Prod.mk.inj (Except.ok.inj h)
      obtain ⟨rfl, rfl⟩ := List.cons.inj hcons
      have hfits := fits_of_recvFrom hhost hframe hend harrived hd'
      obtain ⟨script₁, hread, harrived₁, hend₁⟩ :=
        recvFrom_fits hhost hframe hfits hcap hend harrived
      obtain ⟨-, rfl⟩ := Prod.mk.inj (Except.ok.inj (hread.symm.trans hd'))
      exact ⟨hfits, (hlater _ hend₁ harrived₁).mp ⟨script'', hds', hrest⟩⟩
    · rintro ⟨hfits, hds⟩
      obtain ⟨script₁, hread, harrived₁, hend₁⟩ :=
        recvFrom_fits hhost hframe hfits hcap hend harrived
      obtain ⟨rest, hall, hrest⟩ := (hlater _ hend₁ harrived₁).mpr hds
      refine ⟨rest, ?_, hrest⟩
      unfold recvAll
      rw [hread, bind_ok]
      dsimp only
      rw [hall, bind_ok]
      rfl

/-- `1.2.3.4:53`. -/
def sampleOrigin : NetAddr := .ip (.v4 0x01020304) 53

theorem recvAll_iff_sample : ∃ wire, sendAll [(sampleOrigin, [9])] = .ok wire ∧
    ∃ rest, recvAll [1] [.data wire] = .ok ([(sampleOrigin, [9])], rest) ∧ arrived rest = [] :=
  ⟨_, rfl, (recvAll_iff [(sampleOrigin, [9])]
    (fun d hd => ⟨.v4 0x01020304, by rw [List.mem_singleton.mp hd]; rfl⟩) rfl
    (.cons (Nat.le_refl 1) .nil) (by simp [Endless]) (List.append_nil _).symm).mpr
    fun d hd => by
      rw [List.mem_singleton.mp hd]
      unfold FrameFits
      decide⟩

/-- The longest payload that is accepted: the length wraps to nine. -/
theorem longest_payload_lost :
    ∃ wire, sendAll [(sampleOrigin, List.replicate 65535 0)] = .ok wire ∧
      ∀ script rest, Endless script → arrived script = wire →
        recvAll [65535] script ≠ .ok ([(sampleOrigin, List.replicate 65535 0)], rest) := by
  have hlen : (List.replicate 65535 (0 : UInt8)).length = 65535 := List.length_replicate
  generalize List.replicate 65535 (0 : UInt8) = payload at hlen ⊢
  obtain ⟨frame, hframe⟩ : ∃ frame, sendTo sampleOrigin payload = .ok frame := by
    unfold sendTo
    rw [if_neg (by omega)]
    exact ⟨_, rfl⟩
  refine ⟨frame ++ [], ?_, fun script rest hend harrived h => ?_⟩
  · unfold sendAll
    rw [hframe]
    rfl
  · obtain ⟨⟨d, script'⟩, hd, h⟩ := bind_eq_ok.mp h
    obtain ⟨⟨ds, script''⟩, -, h⟩ := bind_eq_ok.mp h
    obtain ⟨hcons, -⟩ := Prod.mk.inj (Except.ok.inj h)
    obtain ⟨rfl, -⟩ := List.cons.inj hcons
    have hfits := @fits_of_recvFrom sampleOrigin (.v4 0x01020304) rfl _ frame [] hframe 65535
      script script' hend harrived hd
    unfold FrameFits at hfits
    have hip := @length_encodeSocksAddr sampleOrigin (.v4 0x01020304) rfl
    rw [length_associateInner] at hfits
    dsimp only at hfits
    omega

end RustCrash.Mieru
