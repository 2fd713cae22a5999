import RustCrash.ZeroTier.Armor
import RustCrash.ZeroTier.Reassembly

/-
  What `armor_and_fragment` sends are the pieces of the armored packet (`proto/zerotier.rs`).

  All fragments but the last one are filled up to the MTU, so only the last one can be shorter
  than a packet header; `LastFits` says when it is not.
-/

namespace RustCrash.ZeroTier

open Lib

/-! ## Addresses -/

/-- The top byte of a 40-bit address. -/
theorem be40_top {b : UInt8} {bs : Bytes} (h : bs.length = 4) :
    be40 (b :: bs) >>> 32 = b.toUInt64 := by
  have hlt := ofBE_lt bs
  have hb := b.toNat_lt
  rw [h] at hlt
  have hval : (be40 (b :: bs)).toNat = b.toNat * 256 ^ 4 + ofBE bs := by
    rw [be40, ofBE64, ofBE, h]
    exact UInt64.toNat_ofNat_of_lt' (show _ < 18446744073709551616 by omega)
  apply UInt64.toNat_inj.mp
  rw [UInt64.toNat_shiftRight, hval, UInt8.toNat_toUInt64]
  change (b.toNat * 256 ^ 4 + ofBE bs) >>> 32 = b.toNat
  rw [Nat.shiftRight_eq_div_pow]
  omega

/-- The address at an offset, byte by byte. -/
theorem be40_slice_top {dg : Bytes} {i : Nat} (h : i + 5 ≤ dg.length) :
    be40 (slice dg i 5) >>> 32 = (dg.getD i 0).toUInt64 := by
  have hi : i < dg.length := by omega
  have hslice : slice dg i 5 = dg.getD i 0 :: (dg.drop (i + 1)).take 4 := by
    rw [slice, List.drop_eq_getElem_cons hi, List.take_succ_cons, List.getD_eq_getElem?_getD,
      List.getElem?_eq_getElem hi, Option.getD_some]
  rw [hslice, be40_top]
  rw [List.length_take, List.length_drop]
  omega

/-- A datagram whose indicator is set has no source that a node can have. -/
theorem indicator_reserved {dg : Bytes} (hlen : packetHeaderLen ≤ dg.length)
    (h : dg.getD fragmentIdxIndicator 0 = fragmentIndicator) :
    addressIsReserved (be40 (slice dg packetIdxSource 5)) = true := by
  rw [packetHeaderLen, packetIdxPayload] at hlen
  have htop : be40 (slice dg packetIdxSource 5) >>> 32 = 0xff := by
    rw [be40_slice_top (by rw [packetIdxSource]; omega)]
    change (dg.getD fragmentIdxIndicator 0).toUInt64 = 0xff
    rw [h]
    rfl
  rw [addressIsReserved, htop]
  simp

/-- The source of a packet from a node does not set the indicator. -/
theorem indicator_of_source {pkt : WirePacket} (h : addressIsReserved pkt.source = false) :
    pkt.buf.getD fragmentIdxIndicator 0 ≠ fragmentIndicator := fun hind => by
  have hres := indicator_reserved pkt.header hind
  rw [WirePacket.source] at h
  rw [h] at hres
  cases hres

/-! ## Fragments -/

/-- The datagrams of a packet that needs fragments. -/
def cutPiece (armored : Bytes) (mtu total : Nat) : Nat → Bytes
  | 0 => armored.take mtu
  | k + 1 =>
    let start := mtu + k * (mtu - fragmentHeaderLen)
    buildFragment armored start (min (armored.length - start) (mtu - fragmentHeaderLen))
      (UInt8.ofNat (k + 1)) (UInt8.ofNat total)

theorem fragmentLoop_eq {armored : Bytes} {mtu total : Nat} {n k : Nat}
    (h : mtu + (k + n) * (mtu - fragmentHeaderLen) <
      armored.length + (mtu - fragmentHeaderLen)) :
    fragmentLoop armored (mtu - fragmentHeaderLen) total n (k + 1)
        (mtu + k * (mtu - fragmentHeaderLen)) =
      (List.range n).map fun j => cutPiece armored mtu total (k + j + 1) := by
  induction n generalizing k with
  | zero => rfl
  | succ n ih =>
    have htail : fragmentLoop armored (mtu - fragmentHeaderLen) total n (k + 1 + 1)
        (mtu + k * (mtu - fragmentHeaderLen) +
          min (armored.length - (mtu + k * (mtu - fragmentHeaderLen)))
            (mtu - fragmentHeaderLen)) =
        (List.range n).map fun j => cutPiece armored mtu total (k + 1 + j + 1) := by
      cases n with
      | zero => rfl
      | succ n =>
        have hfull : (mtu - fragmentHeaderLen) ≤
            armored.length - (mtu + k * (mtu - fragmentHeaderLen)) := by
          have : (k + (n + 1 + 1)) * (mtu - fragmentHeaderLen) =
              k * (mtu - fragmentHeaderLen) + n * (mtu - fragmentHeaderLen) +
                (mtu - fragmentHeaderLen) + (mtu - fragmentHeaderLen) := by ring
          omega
        rw [Nat.min_eq_right hfull, Nat.add_assoc mtu, ← Nat.succ_mul]
        exact ih (by rwa [show k + 1 + (n + 1) = k + (n + 1 + 1) by ring])
    rw [List.range_succ_eq_map, List.map_cons, List.map_map, fragmentLoop, htail]
    congr 1
    refine List.map_congr_left fun j _ => ?_
    rw [Function.comp_apply]
    congr 1
    omega

theorem drop_buildFragment {armored : Bytes} (h : packetHeaderLen ≤ armored.length)
    (start len : Nat) (no total : UInt8) :
    (buildFragment armored start len no total).drop fragmentHeaderLen =
      slice armored start len := by
  refine List.drop_left' ?_
  rw [packetHeaderLen, packetIdxPayload] at h
  rw [List.length_append, List.length_take, packetIdxDest, fragmentHeaderLen]
  simp only [List.length_cons, List.length_nil]
  omega

/-- The cuts behind the head, joined. -/
theorem flatMap_cuts {armored : Bytes} (h : packetHeaderLen ≤ armored.length)
    (mtu total n : Nat) :
    ((List.range n).flatMap fun j =>
        (cutPiece armored mtu total (j + 1)).drop fragmentHeaderLen) =
      (armored.drop mtu).take (n * (mtu - fragmentHeaderLen)) := by
  induction n with
  | zero => simp
  | succ n ih =>
    have hcut : (cutPiece armored mtu total (n + 1)).drop fragmentHeaderLen =
        ((armored.drop mtu).drop (n * (mtu - fragmentHeaderLen))).take
          (mtu - fragmentHeaderLen) := by
      rw [cutPiece, drop_buildFragment h, slice, List.drop_drop, List.take_eq_take_iff,
        List.length_drop]
      omega
    rw [List.range_succ, List.flatMap_append, ih, List.flatMap_cons, List.flatMap_nil,
      List.append_nil, hcut, Nat.succ_mul, List.take_add]

theorem length_cutPiece {armored : Bytes} {mtu total k : Nat}
    (h : packetHeaderLen ≤ armored.length) :
    (cutPiece armored mtu total (k + 1)).length = fragmentHeaderLen +
      min (armored.length - (mtu + k * (mtu - fragmentHeaderLen))) (mtu - fragmentHeaderLen) := by
  rw [packetHeaderLen, packetIdxPayload] at h
  rw [cutPiece, buildFragment, List.length_append, List.length_append, List.length_take,
    packetIdxDest, slice, List.length_take, List.length_drop, fragmentHeaderLen]
  simp only [List.length_cons, List.length_nil]
  omega

theorem take_cutPiece {armored : Bytes} {mtu : Nat} (h : packetHeaderLen ≤ armored.length)
    (hmtu : packetHeaderLen ≤ mtu) (total i : Nat) :
    (cutPiece armored mtu total i).take fragmentIdxIndicator =
      armored.take fragmentIdxIndicator := by
  rw [packetHeaderLen, packetIdxPayload] at h hmtu
  cases i with
  | zero =>
    rw [cutPiece, List.take_take, Nat.min_eq_left]
    rw [fragmentIdxIndicator, packetIdxSource]
    omega
  | succ k =>
    rw [cutPiece, buildFragment, List.append_assoc]
    refine List.take_left' ?_
    rw [List.length_take, packetIdxDest, fragmentIdxIndicator, packetIdxSource]
    omega

theorem take_head (armored : Bytes) {mtu : Nat} (hmtu : packetHeaderLen ≤ mtu) (total : Nat) :
    (cutPiece armored mtu total 0).take packetHeaderLen = armored.take packetHeaderLen := by
  rw [cutPiece, List.take_take, Nat.min_eq_left hmtu]

/-- The bytes behind the destination of a fragment. -/
theorem getD_cutPiece {armored : Bytes} (h : packetHeaderLen ≤ armored.length)
    (mtu total k : Nat) :
    (cutPiece armored mtu total (k + 1)).getD fragmentIdxIndicator 0 = fragmentIndicator ∧
      (cutPiece armored mtu total (k + 1)).getD 14 0 =
        ((UInt8.ofNat total &&& 0x0f) <<< (4 : UInt8)) ||| (UInt8.ofNat (k + 1) &&& 0x0f) := by
  have hlen : (armored.take (packetIdxDest + 5)).length = 13 := by
    rw [packetHeaderLen, packetIdxPayload] at h
    rw [List.length_take, packetIdxDest]
    omega
  have hget (i : Nat) : (cutPiece armored mtu total (k + 1)).getD (13 + i) 0 =
      ([fragmentIndicator, ((UInt8.ofNat total &&& 0x0f) <<< (4 : UInt8)) |||
          (UInt8.ofNat (k + 1) &&& 0x0f), 0] ++
        slice armored (mtu + k * (mtu - fragmentHeaderLen))
          (min (armored.length - (mtu + k * (mtu - fragmentHeaderLen)))
            (mtu - fragmentHeaderLen))).getD i 0 := by
    rw [cutPiece, buildFragment, List.append_assoc, List.getD_eq_getElem?_getD,
      List.getD_eq_getElem?_getD, List.getElem?_append_right (by omega), hlen,
      Nat.add_sub_cancel_left]
  exact ⟨hget 0, hget 1⟩

/-- The cuts of a packet are its pieces. -/
theorem pieces_cut {p : WirePacket} {mtu total : Nat} (hmtu : packetHeaderLen ≤ mtu)
    (hmany : 2 ≤ total) (hfew : total ≤ 15) (hflag : p.fragmented = true)
    (hhead : p.buf.getD fragmentIdxIndicator 0 ≠ fragmentIndicator) :
    Pieces p.packetId total (cutPiece p.buf mtu total) where
  some := by omega
  few := hfew
  id i _ := congrArg ofBE64
    (slice_of_take (take_cutPiece p.header hmtu total i) (by decide))
  head_length := by
    rw [cutPiece, List.length_take]
    exact Nat.le_min.mpr ⟨hmtu, p.header⟩
  head := by
    rwa [getD_of_take (take_head p.buf hmtu total) (by decide)]
  flag := by
    rw [getD_of_take (take_head p.buf hmtu total) (by decide)]
    exact iff_of_false (bne_iff_ne.mp hflag) (by omega)
  length i _ hi0 := by
    obtain ⟨k, rfl⟩ := Nat.exists_eq_succ_of_ne_zero hi0
    rw [length_cutPiece p.header]
    exact Nat.le_add_right _ _
  indicator i _ hi0 := by
    obtain ⟨k, rfl⟩ := Nat.exists_eq_succ_of_ne_zero hi0
    exact (getD_cutPiece p.header mtu total k).1
  packed i _ hi0 := by
    obtain ⟨k, rfl⟩ := Nat.exists_eq_succ_of_ne_zero hi0
    exact (getD_cutPiece p.header mtu total k).2

/-- A packet that needs no fragments is its only piece. -/
theorem pieces_single {p : WirePacket} (hflag : p.fragmented = false)
    (hhead : p.buf.getD fragmentIdxIndicator 0 ≠ fragmentIndicator) :
    Pieces p.packetId 1 fun _ => p.buf where
  some := Nat.one_pos
  few := by decide
  id _ _ := rfl
  head_length := p.header
  head := hhead
  flag := iff_of_true (bne_eq_false_iff_eq.mp hflag) rfl
  length i hi hi0 := by omega
  indicator i hi hi0 := by omega
  packed i hi hi0 := by omega

/-! ## What is sent -/

/-- The last datagram of a packet is no shorter than a packet header. -/
def LastFits (len mtu : Nat) : Prop :=
  len ≤ mtu ∨ (len - mtu) % (mtu - fragmentHeaderLen) = 0 ∨
    packetHeaderLen - fragmentHeaderLen ≤ (len - mtu) % (mtu - fragmentHeaderLen)

/-- The datagrams of a packet: its pieces, of which only the last may be shorter than a packet
    header, under the packet's destination. -/
structure Datagrams (p : WirePacket) (mtu : Nat) (total : Nat) (piece : Nat → Bytes) : Prop where
  pieces : Pieces p.packetId total piece
  whole : whole piece total = p.buf
  dest : ∀ i < total, slice (piece i) packetIdxDest 5 = slice p.buf packetIdxDest 5
  source : slice (piece 0) packetIdxSource 5 = slice p.buf packetIdxSource 5
  long : ∀ i < total, i + 1 ≠ total → packetHeaderLen ≤ (piece i).length
  last : packetHeaderLen ≤ (piece (total - 1)).length ↔ LastFits p.len mtu

/-- How many fragments `remaining` bytes fill, and what the last one carries. -/
theorem fragments_remaining {remaining perFrag count : Nat} (hper : 0 < perFrag)
    (hrem : 0 < remaining)
    (hcount : count = if remaining / perFrag * perFrag < remaining then remaining / perFrag + 1
      else remaining / perFrag) :
    ∃ n, count = n + 1 ∧ n * perFrag < remaining ∧ remaining ≤ count * perFrag ∧
      remaining - n * perFrag =
        if remaining % perFrag = 0 then perFrag else remaining % perFrag := by
  have hdiv := Nat.div_add_mod' remaining perFrag
  have hmod := Nat.mod_lt remaining hper
  split_ifs at hcount with hlt
  · refine ⟨remaining / perFrag, hcount, hlt, ?_, ?_⟩
    · rw [hcount, Nat.succ_mul]
      omega
    · rw [if_neg (by omega)]
      omega
  · have hzero : remaining % perFrag = 0 := by omega
    have hq : remaining / perFrag ≠ 0 := fun hq => by
      rw [hq, Nat.zero_mul] at hdiv
      omega
    obtain ⟨n, hn⟩ := Nat.exists_eq_succ_of_ne_zero hq
    rw [hn, Nat.succ_mul] at hdiv
    refine ⟨n, by omega, by omega, ?_, ?_⟩
    · rw [hcount, hn, Nat.succ_mul]
      omega
    · rw [if_pos hzero]
      omega

theorem cut_datagrams {p : WirePacket} {mtu n : Nat} (hmtu : 64 ≤ mtu) (hlong : mtu < p.len)
    (hfew : n + 2 ≤ 15) (hflag : p.fragmented = true)
    (hhead : p.buf.getD fragmentIdxIndicator 0 ≠ fragmentIndicator)
    (hn : n * (mtu - fragmentHeaderLen) < p.len - mtu)
    (hall : p.len - mtu ≤ (n + 1) * (mtu - fragmentHeaderLen))
    (hlast : p.len - mtu - n * (mtu - fragmentHeaderLen) =
      if (p.len - mtu) % (mtu - fragmentHeaderLen) = 0 then mtu - fragmentHeaderLen
      else (p.len - mtu) % (mtu - fragmentHeaderLen)) :
    Datagrams p mtu (n + 2) (cutPiece p.buf mtu (n + 2)) where
  pieces := pieces_cut (Nat.le_trans (by decide) hmtu) (by omega) hfew hflag hhead
  whole := by
    rw [RustCrash.ZeroTier.whole, show n + 2 - 1 = n + 1 from rfl,
      flatMap_cuts p.header, List.take_of_length_le, cutPiece, List.take_append_drop]
    rwa [List.length_drop]
  dest i _ := slice_of_take (take_cutPiece p.header (Nat.le_trans (by decide) hmtu) _ i)
    (by decide)
  source := slice_of_take (take_head p.buf (Nat.le_trans (by decide) hmtu) _) (by decide)
  long i hi hne := by
    have hheader := p.header
    rw [WirePacket.len] at hlong
    cases i with
    | zero =>
      rw [cutPiece, List.length_take, packetHeaderLen, packetIdxPayload]
      omega
    | succ k =>
      have hk : (k + 1) * (mtu - fragmentHeaderLen) ≤ n * (mtu - fragmentHeaderLen) :=
        Nat.mul_le_mul_right _ (by omega)
      rw [Nat.succ_mul] at hk
      rw [WirePacket.len] at hn
      rw [length_cutPiece p.header, packetHeaderLen, packetIdxPayload]
      rw [fragmentHeaderLen] at hk hn ⊢
      omega
  last := by
    have hlen : (cutPiece p.buf mtu (n + 2) (n + 2 - 1)).length =
        fragmentHeaderLen + (p.len - mtu - n * (mtu - fragmentHeaderLen)) := by
      rw [show n + 2 - 1 = n + 1 from rfl, length_cutPiece p.header, WirePacket.len]
      rw [WirePacket.len, Nat.succ_mul] at hall
      rw [WirePacket.len] at hlong
      rw [Nat.min_eq_left (by omega)]
      omega
    unfold LastFits
    rw [hlen, hlast, or_iff_right (Nat.not_le.mpr hlong)]
    rw [packetHeaderLen, packetIdxPayload, fragmentHeaderLen]
    split_ifs with hzero
    · exact iff_of_true (by omega) (.inl hzero)
    · rw [or_iff_right hzero]
      omega

theorem fragmentPacket_datagrams {p : WirePacket} {mtu : Nat} {dgs : List Bytes}
    (hmtu : 64 ≤ mtu) (hflag : p.fragmented = decide (mtu < p.len))
    (hhead : p.buf.getD fragmentIdxIndicator 0 ≠ fragmentIndicator)
    (h : fragmentPacket p.buf mtu = .ok dgs) :
    ∃ total piece, dgs = (List.range total).map piece ∧ Datagrams p mtu total piece := by
  unfold fragmentPacket at h
  rw [if_neg (by rw [fragmentHeaderLen]; omega)] at h
  dsimp only at h
  by_cases hlong : mtu < p.len
  · rw [decide_eq_true hlong] at hflag
    have hmin : min p.buf.length mtu = mtu := Nat.min_eq_right (Nat.le_of_lt hlong)
    have hne : mtu ≠ p.buf.length := Nat.ne_of_lt hlong
    obtain ⟨n, hcount, hn, hall, hlast⟩ := fragments_remaining
      (by rw [fragmentHeaderLen]; omega : 0 < mtu - fragmentHeaderLen)
      (Nat.sub_pos_of_lt hlong) rfl
    rw [hcount] at hall
    rw [WirePacket.len] at hcount
    rw [hmin, if_neg hne, hcount] at h
    split_ifs at h with hmany
    rw [maxPacketFragments, Nat.not_lt] at hmany
    refine ⟨n + 2, cutPiece p.buf mtu (n + 2), ?_,
      cut_datagrams hmtu hlong (by omega) hflag hhead hn hall hlast⟩
    have hloop : fragmentLoop p.buf (mtu - fragmentHeaderLen) (n + 2) (n + 1) (0 + 1)
        (mtu + 0 * (mtu - fragmentHeaderLen)) =
        (List.range (n + 1)).map fun j => cutPiece p.buf mtu (n + 2) (0 + j + 1) := by
      refine fragmentLoop_eq ?_
      rw [Nat.zero_add, Nat.succ_mul]
      rw [WirePacket.len] at hn hlong
      omega
    rw [Nat.zero_mul, Nat.add_zero] at hloop
    rw [← Except.ok.inj h, List.range_succ_eq_map, List.map_cons, List.map_map]
    refine congrArg (List.cons _) (hloop.trans (List.map_congr_left fun j _ => ?_))
    rw [Function.comp_apply, Nat.zero_add]
  · rw [decide_eq_false hlong] at hflag
    have hmin : min p.buf.length mtu = p.buf.length := Nat.min_eq_left (Nat.not_lt.mp hlong)
    rw [hmin, if_pos rfl, Except.ok.injEq] at h
    refine ⟨1, fun _ => p.buf, h.symm, pieces_single hflag hhead, List.append_nil _,
      fun _ _ => rfl, rfl, fun i hi hne => by omega, ?_⟩
    exact iff_of_true p.header (.inl (Nat.not_lt.mp hlong))

theorem fragmentCount_gt_one {len mtu : Nat} (hmtu : 64 ≤ mtu) :
    1 < fragmentCount len mtu ↔ mtu < len := by
  unfold fragmentCount
  split_ifs with hle
  · exact iff_of_false (lt_irrefl 1) (Nat.not_lt.mpr hle)
  · have hper : 0 < mtu - fragmentHeaderLen := by
      rw [fragmentHeaderLen]
      omega
    have hpos := Nat.div_pos
      (by omega : mtu - fragmentHeaderLen ≤ len - mtu + (mtu - fragmentHeaderLen) - 1) hper
    exact iff_of_true (Nat.lt_add_of_pos_right hpos) (Nat.not_le.mp hle)

theorem fragmented_setFragmented (p : WirePacket) (on : Bool) :
    (p.setFragmented on).fragmented = on := by
  have hbits : ∀ f : UInt8, (f ||| flagFragmented) &&& flagFragmented ≠ 0 ∧
      (f &&& ~~~flagFragmented) &&& flagFragmented = 0 := by
    rintro ⟨⟨f⟩⟩
    revert f
    decide +kernel
  rw [WirePacket.fragmented, WirePacket.setFragmented, WirePacket.flags_setFlags]
  cases on with
  | false => exact bne_eq_false_iff_eq.mpr (hbits p.flags).2
  | true => exact bne_iff_ne.mpr (hbits p.flags).1

theorem fragmented_armor (p : WirePacket) (key : SymmetricKey) :
    (p.armor key true).fragmented = p.fragmented := by
  have hbits : ∀ f : UInt8, ((f &&& 0xc7) ||| ((1 : UInt8) <<< (3 : UInt8))) &&&
      flagFragmented = f &&& flagFragmented := by
    rintro ⟨⟨f⟩⟩
    revert f
    decide +kernel
  rw [WirePacket.fragmented, WirePacket.fragmented, WirePacket.flags_armor, hbits]

/-- The armored packet that `armor_and_fragment` cuts. -/
def armored (pkt : WirePacket) (key : SymmetricKey) (mtu : Nat) : WirePacket :=
  (armorAndFragment pkt key mtu).1

theorem take_armored (pkt : WirePacket) (key : SymmetricKey) (mtu : Nat) :
    (armored pkt key mtu).buf.take packetIdxFlags = pkt.buf.take packetIdxFlags :=
  (WirePacket.take_flags_armor _ key).trans (WirePacket.sameContent_setFlags pkt _).head

theorem length_armored (pkt : WirePacket) (key : SymmetricKey) (mtu : Nat) :
    (armored pkt key mtu).len = pkt.len :=
  (WirePacket.length_armor _ key).trans List.length_set

/-- What `armor_and_fragment` sends are the datagrams of the armored packet. -/
theorem armorAndFragment_datagrams {pkt : WirePacket} {key : SymmetricKey} {mtu : Nat}
    {dgs : List Bytes} (hmtu : 64 ≤ mtu) (hsource : addressIsReserved pkt.source = false)
    (h : (armorAndFragment pkt key mtu).2 = .ok dgs) :
    ∃ total piece, dgs = (List.range total).map piece ∧
      Datagrams (armored pkt key mtu) mtu total piece := by
  refine fragmentPacket_datagrams hmtu ?_ (indicator_of_source ?_) h
  · rw [length_armored]
    refine (fragmented_armor _ key).trans ((fragmented_setFragmented pkt _).trans ?_)
    exact decide_eq_decide.mpr (fragmentCount_gt_one hmtu)
  · rw [WirePacket.source, slice_of_take (take_armored pkt key mtu) (by decide)]
    exact hsource

end RustCrash.ZeroTier
