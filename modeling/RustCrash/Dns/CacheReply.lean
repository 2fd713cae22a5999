import RustCrash.Dns.Sections

/-
  What `extract_ips` finds in a message: the addresses among its records of one type, in
  all sections (`extractIps_eq_some`). For a reply `forward` built from cached addresses the
  records are those addresses (`listedRecords_reply`). The question of the reply comes from
  a query the engine wrote itself, so its name is written whole.
-/

namespace RustCrash.Dns

open Lib

/-! ## Addresses of records -/

/-- The addresses of the records of one type. -/
def ipsOf (qtype : UInt16) (rs : List (UInt16 × Bytes)) : List IpAddr :=
  (rs.filter fun r => r.1 = qtype).filterMap fun r => rdataIp r.2

theorem recordIps_eq (qtype : UInt16) (m : DnsMessage) :
    recordIps qtype m = ipsOf qtype (m.answers.map fun r => (r.rtype, r.rdata)) := by
  unfold recordIps recordsOf ipsOf
  rw [List.filter_map, List.filterMap_map]
  rfl

theorem extractIps_eq_some {resp : Bytes} {qtype : UInt16} {ips : List IpAddr}
    (h : extractIps resp qtype = some ips) :
    ∃ rs, listedRecords resp = .ok rs ∧ ips = ipsOf qtype rs ∧ ips ≠ [] := by
  unfold extractIps at h
  cases hp : parse resp with
  | error e =>
    rw [hp] at h
    cases h
  | ok m =>
    rw [hp] at h
    dsimp only at h
    split_ifs at h with hnil
    cases h
    exact ⟨_, parse_records hp, recordIps_eq qtype m, hnil⟩

theorem rdataIp_addrOctets (ip : IpAddr) : rdataIp (addrOctets ip) = some ip := by
  unfold rdataIp
  cases ip with
  | v4 a => simp [addrOctets]
  | v6 a => simp [addrOctets]

/-- Cached addresses written out as records and read again. -/
theorem ipsOf_addresses (qtype : UInt16) (ips : List IpAddr) :
    ipsOf qtype (ips.map fun ip => (addrType ip, addrOctets ip)) =
      ips.filter fun ip => addrType ip = qtype := by
  unfold ipsOf
  rw [List.filter_map, List.filterMap_map]
  have hread : (fun r : UInt16 × Bytes => rdataIp r.2) ∘ (fun ip => (addrType ip, addrOctets ip)) =
      some := by
    funext ip
    exact rdataIp_addrOctets ip
  rw [hread, List.filterMap_some]
  rfl

/-! ## Names written whole -/

/-- No piece is empty, so nothing ends the written name early. -/
def WholeName (name : Str) : Prop := name = [] ∨ ∀ p ∈ name.splitOn '.', p ≠ []

theorem writeName_of_whole {name : Str} (h : WholeName name) :
    writeName name = (livePieces name).flatMap writeLabel ++ [0] := by
  have hlive : livePieces name = namePieces name := by
    rcases h with hnil | h
    · rw [hnil]
      rfl
    · by_cases hne : name = []
      · rw [hne]
        rfl
      · rw [livePieces_of_ne_nil hne h, namePieces_of_ne_nil hne h]
  rw [writeName_eq, hlive]

theorem rereadLabel_ne_nil {p : Str} (h : p ≠ []) : rereadLabel p ≠ [] := by
  have hpos := utf8_length_pos h
  have hlossy : fromUtf8Lossy ((utf8 p).take 63) ≠ [] := by
    rcases take_utf8 p 63 with ⟨q, r, -, ht⟩ | ⟨q, c, r, k, -, h0, hk, ht, -⟩
    · rw [ht, fromUtf8Lossy_utf8]
      intro hq
      have hlen := congrArg List.length ht
      rw [hq, utf8_nil, List.length_take, List.length_nil] at hlen
      omega
    · rw [ht, fromUtf8Lossy_cut q c k h0 hk]
      simp
  unfold rereadLabel Str.asciiLower
  simpa using hlossy

/-- What is read back of a written name is written whole. -/
theorem whole_reread (name : Str) : WholeName (reread name) := by
  by_cases hlive : livePieces name = []
  · refine Or.inl ?_
    unfold reread
    rw [hlive]
    rfl
  · refine Or.inr ?_
    have hsplit : (reread name).splitOn '.' = (livePieces name).map rereadLabel := by
      refine Str.splitOn_join (by simpa using hlive) ?_
      intro p hp
      obtain ⟨q, hq, rfl⟩ := List.mem_map.mp hp
      exact dot_not_mem_rereadLabel (dot_not_mem_livePieces hq)
    intro p hp
    rw [hsplit] at hp
    obtain ⟨q, hq, rfl⟩ := List.mem_map.mp hp
    exact rereadLabel_ne_nil (livePieces_ne_nil hq)

theorem skipName_written {raw rest : Bytes} {off : Nat} {name : Str} (hw : WholeName name)
    (h : raw.drop off = writeName name ++ rest) :
    skipName raw off = .ok (off + (writeName name).length) := by
  rw [skipName_of_readName (readName_written h), writeName_of_whole hw, List.length_append]
  rfl

/-! ## Records of a reply -/

theorem sectionRecords_written {raw rest : Bytes} {off : Nat} {answers : List (IpAddr × UInt32)}
    (h : raw.drop off = answers.flatMap writeAnswer ++ rest) :
    ∃ off', sectionRecords raw answers.length off =
      .ok (answers.map fun a => (addrType a.1, addrOctets a.1), off') := by
  induction answers generalizing off with
  | nil => exact ⟨off, rfl⟩
  | cons a answers ih =>
    rw [List.flatMap_cons, List.append_assoc] at h
    have hroom := length_le_of_drop h (by simp [writeAnswer])
    have hsize : (writeAnswer a).length = 12 + (addrOctets a.1).length := by
      simp [writeAnswer]
      omega
    obtain ⟨off', hrest⟩ := ih (drop_drop_append h)
    unfold writeAnswer at h
    simp only [List.append_assoc] at h
    have htype : raw.drop (off + 2) = _ := drop_drop_append h
    have hclass : raw.drop (off + 2 + 2) = _ := drop_drop_append htype
    have httl : raw.drop (off + 2 + 4) = _ := drop_drop_append hclass
    have hlen : raw.drop (off + 2 + 8) = _ := drop_drop_append httl
    have hdata : raw.drop (off + 2 + 10) = _ := drop_drop_append hlen
    have hname : skipName raw off = .ok (off + 2) := by
      rw [skipName_eq, getElem?_of_drop h]
      dsimp only
      rw [if_neg (by decide), if_pos (by decide), if_neg (by omega)]
    refine ⟨off', ?_⟩
    rw [List.length_cons]
    unfold sectionRecords
    rw [hname, bind_ok, ensure_of (by omega), bind_ok, u16At_of_drop hlen, length_addrOctets]
    dsimp only
    rw [ensure_of (by omega), bind_ok, u16At_of_drop htype, hdata, List.take_left' rfl,
      show off + 2 + 10 + (addrOctets a.1).length = off + (writeAnswer a).length by omega, hrest]
    rfl

theorem listedRecords_buildResponse {q : DnsMessage} {name : Str} {t c : UInt16}
    (hq : q.questions = [⟨name, t, c⟩]) (hw : WholeName name) (rcode : UInt8)
    {answers : List (IpAddr × UInt32)} (ha : answers.length ≤ 65535) :
    listedRecords (buildResponse q rcode answers) =
      .ok (answers.map fun a => (addrType a.1, addrOctets a.1)) := by
  obtain ⟨tail, htail, -, -, -, hqd, han, hns, har, -, hdrop⟩ := buildResponse_parts q rcode answers
  have hcount : recordCount (buildResponse q rcode answers) = answers.length := by
    unfold recordCount
    rw [han, hns, har, toNat_recordCount ha]
  rw [htail (by rw [hq]; simp), hq, List.flatMap_singleton] at hdrop
  have hrest := drop_drop_append hdrop
  have hroom := length_le_of_drop hdrop (by simp [writeQuestion, writeName_ne_nil])
  unfold writeQuestion at hdrop hrest hroom
  rw [List.append_assoc, List.append_assoc] at hdrop
  simp only [List.length_append, length_be16] at hrest hroom
  rw [← List.append_nil (answers.flatMap writeAnswer)] at hrest
  obtain ⟨off', hrs⟩ := sectionRecords_written hrest
  unfold listedRecords recordsAt
  rw [hqd, hq, hcount, show (UInt16.ofNat [(⟨name, t, c⟩ : Question)].length).toNat = 1 from rfl]
  unfold skipQuestions
  rw [skipName_written hw hdrop, bind_ok, ensure_of (by omega), bind_ok]
  unfold skipQuestions
  rw [bind_ok, show 12 + (writeName name).length + 4 = 12 + ((writeName name).length + 2 + 2) by omega,
    hrs]
  rfl

/-- The question of a query the engine wrote. -/
theorem questions_of_buildQuery {id qtype : UInt16} {name : Str} {q : DnsMessage}
    (h : parse (buildQuery id name qtype) = .ok q) :
    ∃ t c, q.questions = [⟨reread name, t, c⟩] := by
  have h0 : (buildQuery id name qtype).drop 0 = buildQuery id name qtype := rfl
  conv at h0 => rhs; unfold buildQuery
  simp only [List.append_assoc] at h0
  have h2 : (buildQuery id name qtype).drop 2 = _ := drop_drop_append h0
  have h4 : (buildQuery id name qtype).drop 4 = _ := drop_drop_append h2
  have h6 : (buildQuery id name qtype).drop 6 = _ := drop_drop_append h4
  have h8 : (buildQuery id name qtype).drop 8 = _ := drop_drop_append h6
  have h10 : (buildQuery id name qtype).drop 10 = _ := drop_drop_append h8
  have h12 : (buildQuery id name qtype).drop 12 = _ := drop_drop_append h10
  unfold parse at h
  split_ifs at h
  · cases h
  obtain ⟨⟨qs, off⟩, hqs, h⟩ := bind_eq_ok.mp h
  obtain ⟨⟨rs, off'⟩, -, h⟩ := bind_eq_ok.mp h
  cases h
  rw [u16At_of_drop h4, show (1 : UInt16).toNat = 1 from rfl] at hqs
  unfold readQuestions at hqs
  rw [readName_written h12, bind_ok] at hqs
  dsimp only at hqs
  split_ifs at hqs
  · cases hqs
  · unfold readQuestions at hqs
    rw [bind_ok] at hqs
    cases hqs
    exact ⟨_, _, rfl⟩

/-- The records of a reply from the cache to a query the engine wrote. -/
theorem listedRecords_reply {id qtype : UInt16} {name : Str} {q : DnsMessage}
    (h : parse (buildQuery id name qtype) = .ok q) (rcode : UInt8) {ips : List IpAddr}
    (hlen : ips.length ≤ 65535) (ttl : UInt32) :
    listedRecords (buildResponse q rcode (ips.map fun ip => (ip, ttl))) =
      .ok (ips.map fun ip => (addrType ip, addrOctets ip)) := by
  obtain ⟨t, c, hq⟩ := questions_of_buildQuery h
  rw [listedRecords_buildResponse hq (whole_reread name) rcode (by rwa [List.length_map]),
    List.map_map]
  rfl

/-- A reply without answers has no addresses. -/
theorem extractIps_empty (q : DnsMessage) (rcode : UInt8) (qtype : UInt16) :
    extractIps (buildResponse q rcode []) qtype = none := by
  cases he : extractIps (buildResponse q rcode []) qtype with
  | none => rfl
  | some ips =>
    obtain ⟨rs, hrs, hips, hne⟩ := extractIps_eq_some he
    obtain ⟨tail, -, -, -, -, -, han, hns, har, -, -⟩ := buildResponse_parts q rcode []
    have hcount : recordCount (buildResponse q rcode []) = 0 := by
      unfold recordCount
      rw [han, hns, har]
      rfl
    unfold listedRecords recordsAt at hrs
    rw [hcount] at hrs
    obtain ⟨off, -, hrs⟩ := bind_eq_ok.mp hrs
    cases hrs
    exact absurd hips hne

end RustCrash.Dns
