import RustCrash.Proto.SocksAddr

/-
  `proto/sudoku.rs`: KIP messages and UoT datagrams, one behind the other in a stream.

  Both have lengths of 16 bits and bound what they take by 65536, so one length is taken and wraps
  to 0.
-/

namespace RustCrash.Sudoku

open Lib Lib.Net Proto Routing

/-! ## Addresses -/

/-- The port comes last. -/
def encodeAddress (target : NetAddr) : Bytes :=
  (match target.host with
  | .domain d =>
    0x03 :: UInt8.ofNat (min (utf8 d).length 255) :: (utf8 d).take (min (utf8 d).length 255)
  | .ip (.v4 v4) => 0x01 :: octets4 v4
  | .ip (.v6 v6) => 0x04 :: octets6 v6) ++ be16 target.port

/-- The address in front, and how many bytes it takes. -/
def decodeAddress (data : Bytes) : Result (NetAddr × Nat) := do
  let atyp ← okOr data.head? (.protocol "sudoku: address: empty")
  if atyp = 0x01 then
    ensure (1 + 4 + 2 ≤ data.length) (.protocol "sudoku: address: short ipv4")
    return (.ip (.v4 (ofOctets4 (slice data 1 4))) (ofBE16 (slice data 5 2)), 7)
  else if atyp = 0x04 then
    ensure (1 + 16 + 2 ≤ data.length) (.protocol "sudoku: address: short ipv6")
    return (.ip (.v6 (ofOctets6 (slice data 1 16))) (ofBE16 (slice data 17 2)), 19)
  else if atyp = 0x03 then
    let len ← okOr data[1]? (.protocol "sudoku: address: short domain len")
    ensure (2 + len.toNat + 2 ≤ data.length) (.protocol "sudoku: address: short domain")
    let host ← okOr (fromUtf8 (slice data 2 len.toNat))
      (.protocol "sudoku: address: bad utf-8 domain")
    return (⟨.domain host, ofBE16 (slice data (2 + len.toNat) 2)⟩, 4 + len.toNat)
  else .error (.protocol s!"sudoku: unknown address type: {atyp.toNat}")

/-! ## Frames -/

def kipMagic : Bytes := [0x6b, 0x69, 0x70]
def kipMaxPayload : Nat := 64 * 1024
def maxUotPayload : Nat := 64 * 1024

/-- What `write_kip_message` writes. -/
def kipMessage (typ : UInt8) (payload : Bytes) : Result Bytes := do
  ensure (payload.length ≤ kipMaxPayload)
    (.protocol s!"sudoku: kip payload too large: {payload.length}")
  return kipMagic ++ [typ] ++ be16 (UInt16.ofNat payload.length) ++ payload

def uotDatagram (target : NetAddr) (payload : Bytes) : Result Bytes := do
  let addrBuf := encodeAddress target
  ensure (¬ (addrBuf = [] ∨ maxUotPayload < addrBuf.length))
    (.protocol s!"sudoku: address too long: {addrBuf.length}")
  ensure (payload.length ≤ maxUotPayload)
    (.protocol s!"sudoku: payload too large: {payload.length}")
  return be16 (UInt16.ofNat addrBuf.length) ++ be16 (UInt16.ofNat payload.length) ++ addrBuf ++
    payload

/-- Why a read gives no frame. -/
inductive ReadStop where
  /-- The stream brings nothing more. -/
  | waiting
  | failed (e : Error)

/-- `read_exact` of the stream. -/
def readStream : Nat → List Arrival → Except ReadStop (Bytes × List Arrival) :=
  readExactOr .waiting (.failed (.io "early eof"))

/-- `?` on a check. -/
def checked {α : Type} (r : Result α) : Except ReadStop α := r.mapError .failed

def readKipMessage (script : List Arrival) :
    Except ReadStop ((UInt8 × Bytes) × List Arrival) := do
  let (hdr, script) ← readStream 6 script
  checked (ensure (hdr.take 3 = kipMagic) (.protocol "sudoku: kip bad magic"))
  let n := (ofBE16 (hdr.drop 4)).toNat
  checked (ensure (n ≤ kipMaxPayload) (.protocol s!"sudoku: kip invalid payload length: {n}"))
  let (payload, script) ← readStream n script
  return ((hdr.getD 3 0, payload), script)

def readUotDatagram (script : List Arrival) :
    Except ReadStop ((NetAddr × Bytes) × List Arrival) := do
  let (header, script) ← readStream 4 script
  let addrLen := (ofBE16 (header.take 2)).toNat
  let payloadLen := (ofBE16 (header.drop 2)).toNat
  checked (ensure (¬ (addrLen = 0 ∨ maxUotPayload < addrLen))
    (.protocol s!"sudoku: invalid address length: {addrLen}"))
  checked (ensure (payloadLen ≤ maxUotPayload)
    (.protocol s!"sudoku: invalid payload length: {payloadLen}"))
  let (addrBuf, script) ← readStream addrLen script
  let (addr, used) ← checked (decodeAddress addrBuf)
  checked (ensure (used = addrBuf.length) (.protocol "sudoku: trailing bytes in uot address"))
  let (payload, script) ← readStream payloadLen script
  return ((addr, payload), script)

/-! ## Sequences -/

inductive Frame where
  | kip (typ : UInt8) (payload : Bytes)
  | uot (target : NetAddr) (payload : Bytes)

/-- Which of the readers is for a frame. -/
inductive FrameKind where
  | kip
  | uot

namespace Frame

def kind : Frame → FrameKind
  | kip .. => .kip
  | uot .. => .uot

def write : Frame → Result Bytes
  | kip typ payload => kipMessage typ payload
  | uot target payload => uotDatagram target payload

def read (script : List Arrival) : FrameKind → Except ReadStop (Frame × List Arrival)
  | .kip => do
    let ((typ, payload), script) ← readKipMessage script
    return (kip typ payload, script)
  | .uot => do
    let ((target, payload), script) ← readUotDatagram script
    return (uot target payload, script)

end Frame

def writeAll : List Frame → Result Bytes
  | [] => .ok []
  | f :: fs => do
    let frame ← f.write
    let frames ← writeAll fs
    return frame ++ frames

def readFrames : List FrameKind → List Arrival → Except ReadStop (List Frame × List Arrival)
  | [], script => .ok ([], script)
  | kind :: kinds, script => do
    let (f, script) ← Frame.read script kind
    let (fs, script) ← readFrames kinds script
    return (f :: fs, script)

/-- A name that is written whole. -/
def NameFits : Host → Prop
  | .domain d => (utf8 d).length ≤ 255
  | .ip _ => True

/-- The lengths of a frame fit their fields. -/
def Frame.Fits : Frame → Prop
  | kip _ payload => payload.length ≤ 65535
  | uot target payload => NameFits target.host ∧ payload.length ≤ 65535

/-! ## One address -/

theorem length_encodeAddress (target : NetAddr) :
    0 < (encodeAddress target).length ∧ (encodeAddress target).length ≤ 259 := by
  obtain ⟨d | v4 | v6, port⟩ := target <;> unfold encodeAddress <;> dsimp only
  · rw [List.length_append, List.length_cons, List.length_cons, List.length_take, length_be16]
    omega
  · rw [List.length_append, List.length_cons, length_octets4, length_be16]
    omega
  · rw [List.length_append, List.length_cons, length_octets6, length_be16]
    omega

theorem decodeAddress_v4 (v4 : Ipv4Addr) (port : UInt16) (more : Bytes) :
    decodeAddress (0x01 :: (octets4 v4 ++ (be16 port ++ more))) =
      .ok (.ip (.v4 v4) port, 7) := by
  have hlen : 1 + 4 + 2 ≤ (0x01 :: (octets4 v4 ++ (be16 port ++ more))).length := by
    simp only [List.length_append, List.length_cons, length_octets4, length_be16]
    omega
  have hip : slice (0x01 :: (octets4 v4 ++ (be16 port ++ more))) 1 4 = octets4 v4 :=
    slice_here (length_octets4 v4)
  have hport : slice (0x01 :: (octets4 v4 ++ (be16 port ++ more))) 5 2 = be16 port :=
    (slice_skip (a := 0) (length_octets4 v4)).trans (slice_here (length_be16 port))
  unfold decodeAddress
  rw [List.head?_cons, okOr_some, bind_ok, if_pos rfl, ensure_of hlen, bind_ok, hip, hport,
    ofOctets4_octets4, ofBE16_be16]
  rfl

theorem decodeAddress_v6 (v6 : Ipv6Addr) (port : UInt16) (more : Bytes) :
    decodeAddress (0x04 :: (octets6 v6 ++ (be16 port ++ more))) =
      .ok (.ip (.v6 v6) port, 19) := by
  have hlen : 1 + 16 + 2 ≤ (0x04 :: (octets6 v6 ++ (be16 port ++ more))).length := by
    simp only [List.length_append, List.length_cons, length_octets6, length_be16]
    omega
  have hip : slice (0x04 :: (octets6 v6 ++ (be16 port ++ more))) 1 16 = octets6 v6 :=
    slice_here (length_octets6 v6)
  have hport : slice (0x04 :: (octets6 v6 ++ (be16 port ++ more))) 17 2 = be16 port :=
    (slice_skip (a := 0) (length_octets6 v6)).trans (slice_here (length_be16 port))
  unfold decodeAddress
  rw [List.head?_cons, okOr_some, bind_ok, if_neg (by decide), if_pos rfl, ensure_of hlen, bind_ok,
    hip, hport, ofOctets6_octets6, ofBE16_be16]
  rfl

theorem decodeAddress_domain {d : Str} (h : (utf8 d).length ≤ 255) (port : UInt16)
    (more : Bytes) :
    decodeAddress (0x03 :: UInt8.ofNat (utf8 d).length :: (utf8 d ++ (be16 port ++ more))) =
      .ok (⟨.domain d, port⟩, 4 + (utf8 d).length) := by
  have hnat : (UInt8.ofNat (utf8 d).length).toNat = (utf8 d).length := by
    rw [UInt8.toNat_ofNat', Nat.mod_eq_of_lt (by omega)]
  generalize hbyte : UInt8.ofNat (utf8 d).length = len at hnat
  have hlen : 2 + len.toNat + 2 ≤
      (0x03 :: len :: (utf8 d ++ (be16 port ++ more))).length := by
    simp only [List.length_append, List.length_cons, length_be16]
    omega
  have hhost : slice (0x03 :: len :: (utf8 d ++ (be16 port ++ more))) 2 len.toNat = utf8 d :=
    slice_here hnat.symm
  have hport : slice (0x03 :: len :: (utf8 d ++ (be16 port ++ more))) (2 + len.toNat) 2 =
      be16 port := by
    rw [Nat.add_comm]
    have hskip : slice (utf8 d ++ (be16 port ++ more)) (0 + len.toNat) 2 = be16 port := by
      rw [slice_skip hnat.symm, slice_here (length_be16 port)]
    rw [Nat.zero_add] at hskip
    exact hskip
  unfold decodeAddress
  rw [List.head?_cons, okOr_some, bind_ok, if_neg (by decide), if_neg (by decide), if_pos rfl,
    List.getElem?_cons_succ, List.getElem?_cons_zero, okOr_some, bind_ok, ensure_of hlen, bind_ok,
    hhost, hport, fromUtf8_utf8, okOr_some, bind_ok, ofBE16_be16, hnat]
  rfl

variable {target : NetAddr} {script : List Arrival}

theorem decodeAddress_append (h : NameFits target.host) (more : Bytes) :
    decodeAddress (encodeAddress target ++ more) =
      .ok (target, (encodeAddress target).length) := by
  obtain ⟨d | v4 | v6, port⟩ := target
  · have hle : (utf8 d).length ≤ 255 := h
    have hencode : encodeAddress ⟨.domain d, port⟩ =
        0x03 :: UInt8.ofNat (utf8 d).length :: (utf8 d ++ be16 port) := by
      unfold encodeAddress
      dsimp only
      rw [Nat.min_eq_left hle, List.take_length]
      rfl
    have hlen : (encodeAddress ⟨.domain d, port⟩).length = 4 + (utf8 d).length := by
      rw [hencode, List.length_cons, List.length_cons, List.length_append, length_be16]
      omega
    rw [hlen, hencode, List.cons_append, List.cons_append, List.append_assoc]
    exact decodeAddress_domain hle port more
  · have hencode : encodeAddress ⟨.ip (.v4 v4), port⟩ = 0x01 :: (octets4 v4 ++ be16 port) := rfl
    have hlen : (encodeAddress ⟨.ip (.v4 v4), port⟩).length = 7 := by
      rw [hencode, List.length_cons, List.length_append, length_octets4, length_be16]
    rw [hlen, hencode, List.cons_append, List.append_assoc]
    exact decodeAddress_v4 v4 port more
  · have hencode : encodeAddress ⟨.ip (.v6 v6), port⟩ = 0x04 :: (octets6 v6 ++ be16 port) := rfl
    have hlen : (encodeAddress ⟨.ip (.v6 v6), port⟩).length = 19 := by
      rw [hencode, List.length_cons, List.length_append, length_octets6, length_be16]
    rw [hlen, hencode, List.cons_append, List.append_assoc]
    exact decodeAddress_v6 v6 port more

theorem nameFits_of_decode {data : Bytes} {used : Nat} (h : decodeAddress data = .ok (target, used)) :
    NameFits target.host := by
  unfold decodeAddress at h
  obtain ⟨atyp, -, h⟩ := bind_eq_ok.mp h
  split_ifs at h
  · obtain ⟨-, -, h⟩ := bind_eq_ok.mp h
    obtain ⟨rfl, -⟩ := Prod.mk.inj (Except.ok.inj h)
    trivial
  · obtain ⟨-, -, h⟩ := bind_eq_ok.mp h
    obtain ⟨rfl, -⟩ := Prod.mk.inj (Except.ok.inj h)
    trivial
  · obtain ⟨len, -, h⟩ := bind_eq_ok.mp h
    obtain ⟨-, -, h⟩ := bind_eq_ok.mp h
    obtain ⟨host, hhost, h⟩ := bind_eq_ok.mp h
    obtain ⟨rfl, -⟩ := Prod.mk.inj (Except.ok.inj h)
    have hbytes := fromUtf8_eq_some_iff.mp (okOr_eq_ok.mp hhost)
    have hlt := UInt8.toNat_lt len
    have hle : (slice data 2 len.toNat).length ≤ len.toNat := List.length_take_le _ _
    rw [hbytes] at hle
    exact hle.trans (by omega)

/-! ## One frame -/

theorem readStream_front {bs more : Bytes} (hend : Endless script) (h : arrived script = bs ++ more) :
    ∃ rest, readStream bs.length script = .ok (bs, rest) ∧ arrived rest = more ∧ Endless rest :=
  readExactOr_front _ _ hend h

theorem readStream_take {n : Nat} {payload more : Bytes} (hn : n ≤ payload.length)
    (hend : Endless script) (h : arrived script = payload ++ more) :
    ∃ rest, readStream n script = .ok (payload.take n, rest) ∧
      arrived rest = payload.drop n ++ more ∧ Endless rest := by
  rw [← List.take_append_drop n payload, List.append_assoc] at h
  have hread := readStream_front hend h
  rwa [List.length_take, Nat.min_eq_left hn] at hread

theorem checked_eq_ok {α : Type} {r : Result α} {a : α} : checked r = .ok a ↔ r = .ok a := by
  cases r with
  | ok b =>
    have hmap : checked (.ok b) = .ok b := rfl
    rw [hmap, Except.ok.injEq, Except.ok.injEq]
  | error e => exact iff_of_false nofun nofun

theorem checked_ensure {c : Prop} [Decidable c] (h : c) (e : Error) :
    checked (ensure c e) = .ok () := checked_eq_ok.mpr (ensure_of h e)

/-- What a length of at most 65536 is in its field. -/
theorem toNat_ofNat_length {n : Nat} (h : n ≤ 65536) :
    (UInt16.ofNat n).toNat ≤ n ∧ ((UInt16.ofNat n).toNat = n ↔ n ≤ 65535) := by
  rw [UInt16.toNat_ofNat']
  omega

theorem kipMessage_eq_ok {typ : UInt8} {payload wire : Bytes}
    (h : kipMessage typ payload = .ok wire) : payload.length ≤ 65536 ∧
      wire = kipMagic ++ [typ] ++ be16 (UInt16.ofNat payload.length) ++ payload := by
  obtain ⟨_, hmax, hwire⟩ := bind_eq_ok.mp h
  exact ⟨ensure_eq_ok.mp hmax, (Except.ok.inj hwire).symm⟩

theorem uotDatagram_eq_ok {payload wire : Bytes} (h : uotDatagram target payload = .ok wire) :
    payload.length ≤ 65536 ∧
      wire = be16 (UInt16.ofNat (encodeAddress target).length) ++
        be16 (UInt16.ofNat payload.length) ++ encodeAddress target ++ payload := by
  obtain ⟨_, -, h⟩ := bind_eq_ok.mp h
  obtain ⟨_, hmax, hwire⟩ := bind_eq_ok.mp h
  exact ⟨ensure_eq_ok.mp hmax, (Except.ok.inj hwire).symm⟩

/-- Of the payload comes back what its length field gives. -/
theorem readKipMessage_front {typ : UInt8} {payload wire more : Bytes}
    (hwrite : kipMessage typ payload = .ok wire) (hend : Endless script)
    (harrived : arrived script = wire ++ more) :
    ∃ rest, readKipMessage script =
        .ok ((typ, payload.take (UInt16.ofNat payload.length).toNat), rest) ∧
      arrived rest = payload.drop (UInt16.ofNat payload.length).toNat ++ more ∧
      Endless rest := by
  obtain ⟨hmax, rfl⟩ := kipMessage_eq_ok hwrite
  have hle := (toNat_ofNat_length hmax).1
  have hbound : (UInt16.ofNat payload.length).toNat ≤ kipMaxPayload := hle.trans hmax
  rw [List.append_assoc] at harrived
  obtain ⟨script₁, hread₁, harrived₁, hend₁⟩ := readStream_front hend harrived
  obtain ⟨script₂, hread₂, harrived₂, hend₂⟩ := readStream_take hle hend₁ harrived₁
  refine ⟨script₂, ?_, harrived₂, hend₂⟩
  have hsix : (kipMagic ++ [typ] ++ be16 (UInt16.ofNat payload.length)).length = 6 := by
    rw [List.length_append, length_be16]
    rfl
  have hmagic : (kipMagic ++ [typ] ++ be16 (UInt16.ofNat payload.length)).take 3 = kipMagic := rfl
  have htyp : (kipMagic ++ [typ] ++ be16 (UInt16.ofNat payload.length)).getD 3 0 = typ := rfl
  have hfield : (kipMagic ++ [typ] ++ be16 (UInt16.ofNat payload.length)).drop 4 =
      be16 (UInt16.ofNat payload.length) := rfl
  rw [hsix] at hread₁
  unfold readKipMessage
  rw [hread₁, bind_ok]
  dsimp only
  rw [checked_ensure hmagic, bind_ok, hfield, ofBE16_be16,
    checked_ensure hbound, bind_ok, hread₂, bind_ok, htyp]
  rfl

theorem readUotDatagram_front (hname : NameFits target.host) {payload wire more : Bytes}
    (hwrite : uotDatagram target payload = .ok wire) (hend : Endless script)
    (harrived : arrived script = wire ++ more) :
    ∃ rest, readUotDatagram script =
        .ok ((target, payload.take (UInt16.ofNat payload.length).toNat), rest) ∧
      arrived rest = payload.drop (UInt16.ofNat payload.length).toNat ++ more ∧
      Endless rest := by
  obtain ⟨hmax, rfl⟩ := uotDatagram_eq_ok hwrite
  obtain ⟨hpos, hshort⟩ := length_encodeAddress target
  have hle := (toNat_ofNat_length hmax).1
  have hbound : (UInt16.ofNat payload.length).toNat ≤ maxUotPayload := hle.trans hmax
  have haddrLen : (UInt16.ofNat (encodeAddress target).length).toNat =
      (encodeAddress target).length := (toNat_ofNat_length (by omega)).2.mpr (by omega)
  rw [List.append_assoc, List.append_assoc] at harrived
  obtain ⟨script₁, hread₁, harrived₁, hend₁⟩ := readStream_front hend harrived
  obtain ⟨script₂, hread₂, harrived₂, hend₂⟩ := readStream_front hend₁ harrived₁
  obtain ⟨script₃, hread₃, harrived₃, hend₃⟩ := readStream_take hle hend₂ harrived₂
  refine ⟨script₃, ?_, harrived₃, hend₃⟩
  have hdecode := decodeAddress_append hname []
  rw [List.append_nil] at hdecode
  have hfour : (be16 (UInt16.ofNat (encodeAddress target).length) ++
      be16 (UInt16.ofNat payload.length)).length = 4 := by
    rw [List.length_append, length_be16, length_be16]
  rw [hfour] at hread₁
  unfold readUotDatagram
  rw [hread₁, bind_ok]
  dsimp only
  rw [List.take_left' (length_be16 _), List.drop_left' (length_be16 _), ofBE16_be16, ofBE16_be16,
    haddrLen, checked_ensure (by unfold maxUotPayload; omega), bind_ok,
    checked_ensure hbound, bind_ok, hread₂, bind_ok]
  dsimp only
  rw [checked_eq_ok.mpr hdecode, bind_ok]
  dsimp only
  rw [checked_ensure rfl, bind_ok, hread₃, bind_ok]
  rfl

theorem nameFits_of_read {script rest : List Arrival} {payload : Bytes}
    (h : readUotDatagram script = .ok ((target, payload), rest)) : NameFits target.host := by
  obtain ⟨⟨header, script₁⟩, -, h⟩ := bind_eq_ok.mp h
  obtain ⟨-, -, h⟩ := bind_eq_ok.mp h
  obtain ⟨-, -, h⟩ := bind_eq_ok.mp h
  obtain ⟨⟨addrBuf, script₂⟩, -, h⟩ := bind_eq_ok.mp h
  obtain ⟨⟨addr, used⟩, hdecode, h⟩ := bind_eq_ok.mp h
  obtain ⟨-, -, h⟩ := bind_eq_ok.mp h
  obtain ⟨⟨payload', script₃⟩, -, h⟩ := bind_eq_ok.mp h
  obtain ⟨heq, -⟩ := Prod.mk.inj (Except.ok.inj h)
  obtain ⟨rfl, -⟩ := Prod.mk.inj heq
  exact nameFits_of_decode (checked_eq_ok.mp hdecode)

namespace Frame

/-- A frame that fits is read, with what is behind it left to come. -/
theorem read_front {f : Frame} (hfits : f.Fits) {wire more : Bytes} (hwrite : f.write = .ok wire)
    {script : List Arrival} (hend : Endless script) (harrived : arrived script = wire ++ more) :
    ∃ rest, read script f.kind = .ok (f, rest) ∧ arrived rest = more ∧ Endless rest := by
  cases f with
  | kip typ payload =>
    have hlen : (UInt16.ofNat payload.length).toNat = payload.length :=
      (toNat_ofNat_length (Nat.le_succ_of_le hfits)).2.mpr hfits
    obtain ⟨rest, hread, hrest, hend'⟩ := readKipMessage_front hwrite hend harrived
    rw [hlen, List.take_length] at hread
    rw [hlen, List.drop_length, List.nil_append] at hrest
    refine ⟨rest, ?_, hrest, hend'⟩
    unfold read kind
    rw [hread]
    rfl
  | uot target payload =>
    have hlen : (UInt16.ofNat payload.length).toNat = payload.length :=
      (toNat_ofNat_length (Nat.le_succ_of_le hfits.2)).2.mpr hfits.2
    obtain ⟨rest, hread, hrest, hend'⟩ := readUotDatagram_front hfits.1 hwrite hend harrived
    rw [hlen, List.take_length] at hread
    rw [hlen, List.drop_length, List.nil_append] at hrest
    refine ⟨rest, ?_, hrest, hend'⟩
    unfold read kind
    rw [hread]
    rfl

/-- A frame that is read as it was written fits. -/
theorem fits_of_read {f : Frame} {wire more : Bytes} (hwrite : f.write = .ok wire)
    {script rest : List Arrival} (hend : Endless script) (harrived : arrived script = wire ++ more)
    (h : read script f.kind = .ok (f, rest)) : f.Fits := by
  cases f with
  | kip typ payload =>
    have hmax := (kipMessage_eq_ok hwrite).1
    obtain ⟨rest', hread, -⟩ := readKipMessage_front hwrite hend harrived
    unfold read kind at h
    dsimp only at h
    rw [hread, bind_ok] at h
    obtain ⟨heq, -⟩ := Prod.mk.inj (Except.ok.inj h)
    obtain ⟨-, hsame⟩ := Frame.kip.inj heq
    have hlen := congrArg List.length hsame
    rw [List.length_take, Nat.min_eq_left (toNat_ofNat_length hmax).1] at hlen
    exact (toNat_ofNat_length hmax).2.mp hlen
  | uot target payload =>
    have hmax := (uotDatagram_eq_ok hwrite).1
    have hname : NameFits target.host := by
      unfold read kind at h
      obtain ⟨⟨⟨target', payload'⟩, rest'⟩, hread, h⟩ := bind_eq_ok.mp h
      obtain ⟨heq, -⟩ := Prod.mk.inj (Except.ok.inj h)
      obtain ⟨rfl, -⟩ := Frame.uot.inj heq
      exact nameFits_of_read hread
    obtain ⟨rest', hread, -⟩ := readUotDatagram_front hname hwrite hend harrived
    unfold read kind at h
    dsimp only at h
    rw [hread, bind_ok] at h
    obtain ⟨heq, -⟩ := Prod.mk.inj (Except.ok.inj h)
    obtain ⟨-, hsame⟩ := Frame.uot.inj heq
    have hlen := congrArg List.length hsame
    rw [List.length_take, Nat.min_eq_left (toNat_ofNat_length hmax).1] at hlen
    exact ⟨hname, (toNat_ofNat_length hmax).2.mp hlen⟩

end Frame

/-! ## All of them -/

theorem readFrames_fits {fs : List Frame} {wire more : Bytes} (hwrite : writeAll fs = .ok wire)
    {script : List Arrival} (hend : Endless script) (harrived : arrived script = wire ++ more) :
    (∃ rest, readFrames (fs.map Frame.kind) script = .ok (fs, rest) ∧ arrived rest = more) ↔
      ∀ f ∈ fs, f.Fits := by
  induction fs generalizing wire script with
  | nil =>
    obtain rfl := Except.ok.inj hwrite
    exact iff_of_true ⟨script, rfl, harrived⟩ nofun
  | cons f fs ih =>
    obtain ⟨frame, hframe, hwrite⟩ := bind_eq_ok.mp hwrite
    obtain ⟨frames, hframes, hwrite⟩ := bind_eq_ok.mp hwrite
    obtain rfl := Except.ok.inj hwrite
    rw [List.append_assoc] at harrived
    rw [List.forall_mem_cons]
    constructor
    · rintro ⟨rest, h, hrest⟩
      obtain ⟨⟨f', script'⟩, hf', h⟩ := bind_eq_ok.mp h
      obtain ⟨⟨fs', script''⟩, hfs', h⟩ := bind_eq_ok.mp h
      obtain ⟨hcons, rfl⟩ := Prod.mk.inj (Except.ok.inj h)
      obtain ⟨rfl, rfl⟩ := List.cons.inj hcons
      have hfits := Frame.fits_of_read hframe hend harrived hf'
      obtain ⟨script₁, hread, harrived₁, hend₁⟩ := Frame.read_front hfits hframe hend harrived
      obtain ⟨-, rfl⟩ := Prod.mk.inj (Except.ok.inj (hread.symm.trans hf'))
      exact ⟨hfits, (ih hframes hend₁ harrived₁).mp ⟨script'', hfs', hrest⟩⟩
    · rintro ⟨hfits, hfs⟩
      obtain ⟨script₁, hread, harrived₁, hend₁⟩ := Frame.read_front hfits hframe hend harrived
      obtain ⟨rest, hall, hrest⟩ := (ih hframes hend₁ harrived₁).mpr hfs
      refine ⟨rest, ?_, hrest⟩
      rw [List.map_cons]
      unfold readFrames
      rw [hread, bind_ok]
      dsimp only
      rw [hall, bind_ok]
      rfl

/-- Frames come back as they were written, and their addresses also when read alone. -/
def FramesBack (fs : List Frame) (script : List Arrival) (more : Bytes) : Prop :=
  (∃ rest, readFrames (fs.map Frame.kind) script = .ok (fs, rest) ∧ arrived rest = more) ∧
    ∀ target payload, .uot target payload ∈ fs → ∀ behind,
      decodeAddress (encodeAddress target ++ behind) = .ok (target, (encodeAddress target).length)

theorem framesBack_iff {fs : List Frame} {wire more : Bytes} (hwrite : writeAll fs = .ok wire)
    {script : List Arrival} (hend : Endless script) (harrived : arrived script = wire ++ more) :
    FramesBack fs script more ↔ ∀ f ∈ fs, f.Fits := by
  unfold FramesBack
  rw [readFrames_fits hwrite hend harrived]
  refine and_iff_left_of_imp fun hfits target payload hmem behind => ?_
  exact decodeAddress_append (hfits _ hmem).1 behind

/-- `1.2.3.4:53`. -/
def sampleTarget : NetAddr := .ip (.v4 0x01020304) 53

theorem framesBack_iff_sample : ∃ wire, writeAll [.kip 0x12 [], .uot sampleTarget [9]] = .ok wire ∧
    FramesBack [.kip 0x12 [], .uot sampleTarget [9]] [.data wire] [] :=
  ⟨_, rfl, (framesBack_iff rfl (by simp [Endless]) (List.append_nil _).symm).mpr
    (by simp [Frame.Fits, NameFits, sampleTarget, NetAddr.ip])⟩

/-- The longest payload that is taken: its length wraps to 0. -/
theorem longest_frame_lost :
    ∃ wire, writeAll [.uot sampleTarget (List.replicate 65536 0)] = .ok wire ∧
      ∀ script, Endless script → arrived script = wire →
        ¬ FramesBack [.uot sampleTarget (List.replicate 65536 0)] script [] := by
  have hlen : (List.replicate 65536 (0 : UInt8)).length = 65536 := List.length_replicate
  generalize List.replicate 65536 (0 : UInt8) = payload at hlen ⊢
  obtain ⟨frame, hframe⟩ : ∃ frame, writeAll [.uot sampleTarget payload] = .ok frame := by
    unfold writeAll Frame.write uotDatagram
    dsimp only
    rw [ensure_of (by decide), bind_ok, ensure_of (by rw [hlen]; decide), bind_ok]
    exact ⟨_, rfl⟩
  refine ⟨frame, hframe, fun script hend harrived h => ?_⟩
  rw [← List.append_nil frame] at harrived
  have hfits := (readFrames_fits hframe hend harrived).mp h.1 _ (List.mem_singleton_self _)
  have hle : payload.length ≤ 65535 := hfits.2
  omega

end RustCrash.Sudoku
