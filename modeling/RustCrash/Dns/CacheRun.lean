import RustCrash.Dns.CacheReply
import RustCrash.Lib.Machine

/-
  Where the addresses come from that `forward` answers from the cache and `resolve`
  returns.

  The cache holds, for a name and type, the addresses of the records of that type an
  upstream listed for it (`Cached`), and every reply on its way is traced to a response
  (`CallOk`).
-/

namespace RustCrash.Dns

open Lib

variable {U : Type}

/-! ## Responses -/

variable {raw : Bytes} {rs : List (UInt16 × Bytes)}

theorem length_sectionRecords {n off off' : Nat} (h : sectionRecords raw n off = .ok (rs, off')) :
    rs.length = n := by
  induction n generalizing off rs with
  | zero =>
    cases h
    rfl
  | succ n ih =>
    unfold sectionRecords at h
    obtain ⟨o, -, h⟩ := bind_eq_ok.mp h
    obtain ⟨_, -, h⟩ := bind_eq_ok.mp h
    obtain ⟨_, -, h⟩ := bind_eq_ok.mp h
    obtain ⟨⟨rs', o'⟩, hrs, h⟩ := bind_eq_ok.mp h
    cases h
    rw [List.length_cons, ih hrs]

/-- Fewer records are the first ones. -/
theorem sectionRecords_take {n k off off' : Nat} (h : sectionRecords raw n off = .ok (rs, off'))
    (hk : k ≤ n) : ∃ o, sectionRecords raw k off = .ok (rs.take k, o) := by
  induction n generalizing off rs k with
  | zero =>
    obtain rfl : k = 0 := by omega
    exact ⟨off, rfl⟩
  | succ n ih =>
    cases k with
    | zero => exact ⟨off, rfl⟩
    | succ k =>
      unfold sectionRecords at h ⊢
      obtain ⟨o, hs, h⟩ := bind_eq_ok.mp h
      obtain ⟨_, hroom, h⟩ := bind_eq_ok.mp h
      obtain ⟨_, hdata, h⟩ := bind_eq_ok.mp h
      obtain ⟨⟨rs', o'⟩, hrs, h⟩ := bind_eq_ok.mp h
      cases h
      obtain ⟨o'', hrest⟩ := ih hrs (Nat.le_of_succ_le_succ hk)
      refine ⟨o'', ?_⟩
      rw [hs, bind_ok, hroom, bind_ok]
      dsimp only at hdata ⊢
      rw [hdata, bind_ok, hrest]
      rfl

theorem recordsAt_take {n k : Nat} (h : recordsAt raw n = .ok rs) (hk : k ≤ n) :
    recordsAt raw k = .ok (rs.take k) := by
  unfold recordsAt at h ⊢
  obtain ⟨off, hoff, h⟩ := bind_eq_ok.mp h
  obtain ⟨⟨rs', off'⟩, hrs, h⟩ := bind_eq_ok.mp h
  cases h
  obtain ⟨o, htake⟩ := sectionRecords_take hrs hk
  rw [hoff, bind_ok, htake]
  rfl

theorem length_listedRecords (h : listedRecords raw = .ok rs) : rs.length ≤ 65535 := by
  unfold listedRecords recordsAt at h
  obtain ⟨off, -, h⟩ := bind_eq_ok.mp h
  obtain ⟨⟨rs', off'⟩, hrs, h⟩ := bind_eq_ok.mp h
  cases h
  have hlt := (u16At raw 6 + u16At raw 8 + u16At raw 10).toNat_lt
  rw [length_sectionRecords hrs, recordCount]
  omega

/-- The addresses of a response's answer section. -/
def answerIps (qtype : UInt16) (resp : Bytes) : List IpAddr :=
  match answerRecords resp with
  | .ok rs => ipsOf qtype rs
  | .error _ => []

/-- The addresses of all sections. -/
def listedIps (qtype : UInt16) (resp : Bytes) : List IpAddr :=
  match listedRecords resp with
  | .ok rs => ipsOf qtype rs
  | .error _ => []

/-- The counts do not wrap, records of the type asked are in the answer section only, and
    an address in one has the length of its type. -/
structure PlainFor (qtype : UInt16) (resp : Bytes) : Prop where
  count : (u16At resp 6).toNat + (u16At resp 8).toNat + (u16At resp 10).toNat < 65536
  others : ∀ rs, listedRecords resp = .ok rs → ∀ r ∈ rs.drop (u16At resp 6).toNat, r.1 ≠ qtype
  widths : ∀ rs, listedRecords resp = .ok rs → ∀ r ∈ rs, r.1 = qtype →
    ∀ ip, rdataIp r.2 = some ip → addrType ip = qtype

theorem ipsOf_append (qtype : UInt16) (a b : List (UInt16 × Bytes)) :
    ipsOf qtype (a ++ b) = ipsOf qtype a ++ ipsOf qtype b := by
  unfold ipsOf
  rw [List.filter_append, List.filterMap_append]

theorem PlainFor.listed_eq_answer {qtype : UInt16} {resp : Bytes} (h : PlainFor qtype resp)
    (hrs : listedRecords resp = .ok rs) : ipsOf qtype rs = answerIps qtype resp := by
  have hcount : recordCount resp =
      (u16At resp 6).toNat + (u16At resp 8).toNat + (u16At resp 10).toNat := by
    have hlt := h.count
    unfold recordCount
    rw [UInt16.toNat_add, UInt16.toNat_add]
    omega
  have htake : answerRecords resp = .ok (rs.take (u16At resp 6).toNat) :=
    recordsAt_take hrs (by rw [hcount]; omega)
  have hnone : ipsOf qtype (rs.drop (u16At resp 6).toNat) = [] := by
    unfold ipsOf
    rw [List.filter_eq_nil_iff.mpr, List.filterMap_nil]
    intro r hr
    simpa using h.others rs hrs r hr
  unfold answerIps
  rw [htake]
  conv => lhs; rw [← List.take_append_drop (u16At resp 6).toNat rs]
  rw [ipsOf_append, hnone, List.append_nil]

theorem PlainFor.typed {qtype : UInt16} {resp : Bytes} (h : PlainFor qtype resp)
    (hrs : listedRecords resp = .ok rs) : ∀ ip ∈ ipsOf qtype rs, addrType ip = qtype := by
  intro ip hip
  obtain ⟨r, hr, hread⟩ := List.mem_filterMap.mp hip
  obtain ⟨hmem, htype⟩ := List.mem_filter.mp hr
  exact h.widths rs hrs r hmem (of_decide_eq_true htype) ip hread

namespace DnsConfig

/-- Overwriting id and TTLs keeps the records. -/
theorem listedRecords_finish (cfg : DnsConfig U) (name : Str) (qtype : UInt16)
    (query : DnsMessage) {resp : Bytes} (h : 2 ≤ resp.length) :
    listedRecords (cfg.finish name qtype query resp) = listedRecords resp := by
  have hfit : 0 + (be16 query.id).length ≤ resp.length := by simpa using h
  have hd : (setBytes resp 0 (be16 query.id)).drop 2 = resp.drop 2 :=
    drop_setBytes hfit (by simp)
  have hid : listedRecords (setBytes resp 0 (be16 query.id)) = listedRecords resp := by
    unfold listedRecords recordCount
    rw [recordsAt_setId h, u16At_of_drop_eq hd (by omega), u16At_of_drop_eq hd (by omega),
      u16At_of_drop_eq hd (by omega)]
  unfold finish
  dsimp only
  cases (cfg.rule name qtype).bind DnsRule.rewriteTtl with
  | none => exact hid
  | some ttl =>
    obtain ⟨-, ht, hrs⟩ := rewriteTtl_spec (setBytes resp 0 (be16 query.id)) ttl
    dsimp only
    rw [← hid]
    unfold listedRecords recordCount
    rw [hrs, u16At_of_take_eq ht (by omega), u16At_of_take_eq ht (by omega),
      u16At_of_take_eq ht (by omega)]

end DnsConfig

/-! ## The invariant -/

/-- The addresses of all records of the type in one response to the question. -/
def Cached (received : List Received) (name : Str) (qtype : UInt16) (addrs : List IpAddr) : Prop :=
  ∃ resp rs, (⟨name, qtype, resp⟩ : Received) ∈ received ∧ listedRecords resp = .ok rs ∧
    addrs = ipsOf qtype rs

/-- What `resolve` makes of such a response: all of them, or those a reply that was built
    from them carries under the type asked. -/
def Extracted (received : List Received) (name : Str) (qtype : UInt16) (addrs : List IpAddr) :
    Prop :=
  ∃ resp rs, (⟨name, qtype, resp⟩ : Received) ∈ received ∧ listedRecords resp = .ok rs ∧
    (addrs = ipsOf qtype rs ∨ addrs = (ipsOf qtype rs).filter fun ip => addrType ip = qtype)

def ReplyOk (received : List Received) (call : Call U) : Reply → Prop
  | .cached hits => Cached received call.name call.qtype hits
  | .answered out => ∃ resp, (⟨call.name, call.qtype, resp⟩ : Received) ∈ received ∧
      listedRecords out = listedRecords resp
  | .refused | .exhausted => True

/-- The query of a call of `resolve` is one the engine wrote. -/
def Asked (cfg : DnsConfig U) (call : Call U) (query : DnsMessage) : Prop :=
  call.resolves = true → cfg.hostsIpv4 call.name = [] ∧
    ∃ id, parse (buildQuery id call.name call.qtype) = .ok query

def CallOk (cfg : DnsConfig U) (received : List Received) (call : Call U) : Prop :=
  match call.phase with
  | .resolving | .dropped => True
  | .lookup query | .guard query | .walking query _ => Asked cfg call query
  | .leaving query reply | .returned query reply =>
    Asked cfg call query ∧ ReplyOk received call reply
  | .resolved addrs => ∀ a, addrs = some a →
      cfg.hostsIpv4 call.name ≠ [] ∧ a = cfg.hostsIpv4 call.name ∨
        cfg.hostsIpv4 call.name = [] ∧ Extracted received call.name call.qtype a

structure Traced (cfg : DnsConfig U) (s : DnsEngine U) : Prop where
  entries : ∀ k e, s.cache.entries k = some e → Cached s.received k.1 k.2 e.addrs
  calls : ∀ call ∈ s.calls, CallOk cfg s.received call

theorem Cached.extracted {received : List Received} {name : Str} {qtype : UInt16}
    {addrs : List IpAddr} (h : Cached received name qtype addrs) :
    Extracted received name qtype addrs := by
  obtain ⟨resp, rs, hmem, hrs, hips⟩ := h
  exact ⟨resp, rs, hmem, hrs, Or.inl hips⟩

theorem Cached.mono {received received' : List Received} (hsub : received ⊆ received') {name : Str}
    {qtype : UInt16} {addrs : List IpAddr} (h : Cached received name qtype addrs) :
    Cached received' name qtype addrs := by
  obtain ⟨resp, rs, hmem, h⟩ := h
  exact ⟨resp, rs, hsub hmem, h⟩

theorem CallOk.mono {cfg : DnsConfig U} {received received' : List Received}
    (hsub : received ⊆ received') {call : Call U} (h : CallOk cfg received call) :
    CallOk cfg received' call := by
  have hreply : ∀ reply, ReplyOk received call reply → ReplyOk received' call reply := by
    intro reply hr
    cases reply with
    | cached hits => exact Cached.mono hsub hr
    | refused => trivial
    | answered out =>
      obtain ⟨resp, hmem, hrs⟩ := hr
      exact ⟨resp, hsub hmem, hrs⟩
    | exhausted => trivial
  unfold CallOk at h ⊢
  cases hp : call.phase with
  | resolving => trivial
  | dropped => trivial
  | lookup query => rw [hp] at h; exact h
  | guard query => rw [hp] at h; exact h
  | walking query upstreams => rw [hp] at h; exact h
  | leaving query reply => rw [hp] at h; exact ⟨h.1, hreply reply h.2⟩
  | returned query reply => rw [hp] at h; exact ⟨h.1, hreply reply h.2⟩
  | resolved addrs =>
    rw [hp] at h
    intro a ha
    refine (h a ha).imp_right fun hext => ⟨hext.1, ?_⟩
    obtain ⟨resp, rs, hmem, hrest⟩ := hext.2
    exact ⟨resp, rs, hsub hmem, hrest⟩

/-! ## One step -/

namespace DnsEngine

variable {cfg : DnsConfig U} {s s' : DnsEngine U} {i : Nat} {call : Call U}

theorem traced_start (now : Nat) : Traced cfg (start now : DnsEngine U) := by
  refine ⟨fun k e h => ?_, fun call h => ?_⟩
  · cases h
  · cases h

/-- A call changes phase and responses may have come in. -/
theorem traced_setPhase (h : Traced cfg s) (hcalls : s'.calls = s.calls)
    (hsub : s.received ⊆ s'.received)
    (hentries : ∀ k e, s'.cache.entries k = some e → Cached s'.received k.1 k.2 e.addrs)
    (p : Phase U) (hp : CallOk cfg s'.received { call with phase := p }) :
    Traced cfg (s'.setPhase i call p) := by
  refine ⟨hentries, fun c hc => ?_⟩
  rcases List.mem_or_eq_of_mem_set hc with hold | hnew
  · rw [hcalls] at hold
    exact (h.calls c hold).mono hsub
  · rw [hnew]
    exact hp

/-- A call changes phase; cache and responses are as they were. -/
theorem traced_phase (h : Traced cfg s) (hcalls : s'.calls = s.calls)
    (hreceived : s'.received = s.received) (hcache : s'.cache = s.cache) (p : Phase U)
    (hp : CallOk cfg s.received { call with phase := p }) : Traced cfg (s'.setPhase i call p) := by
  apply traced_setPhase h hcalls (by rw [hreceived]; exact List.Subset.refl _)
  · rw [hcache, hreceived]
    exact h.entries
  · rw [hreceived]
    exact hp

theorem cached_of_traced (h : Traced cfg s) {hits : List IpAddr}
    (hc : s.cached cfg call = some hits) : Cached s.received call.name call.qtype hits := by
  unfold cached at hc
  split_ifs at hc
  unfold Cache.get at hc
  cases he : s.cache.entries (call.name, call.qtype) with
  | none =>
    rw [he] at hc
    cases hc
  | some e =>
    rw [he] at hc
    dsimp only at hc
    split_ifs at hc
    cases hc
    exact h.entries _ e he

theorem entries_cacheInsert {cache : Cache} {now : Nat} {name : Str} {qtype : UInt16} {out : Bytes}
    {k : Str × UInt16} {e : CacheEntry}
    (h : (cacheInsert cache now name qtype out).entries k = some e) :
    cache.entries k = some e ∨
      k = (name, qtype) ∧ ∃ rs, listedRecords out = .ok rs ∧ e.addrs = ipsOf qtype rs := by
  unfold cacheInsert at h
  cases hp : parse out with
  | error err =>
    rw [hp] at h
    exact Or.inl h
  | ok m =>
    rw [hp] at h
    dsimp only at h
    split_ifs at h
    · exact Or.inl h
    have hupdate : ∀ (entry : CacheEntry), entry.addrs = recordIps qtype m →
        Function.update cache.entries (name, qtype) (some entry) k = some e →
        cache.entries k = some e ∨
          k = (name, qtype) ∧ ∃ rs, listedRecords out = .ok rs ∧ e.addrs = ipsOf qtype rs := by
      intro entry haddrs hget
      by_cases hk : k = (name, qtype)
      · rw [hk, Function.update_self] at hget
        cases hget
        exact Or.inr ⟨hk, _, parse_records hp, haddrs.trans (recordIps_eq qtype m)⟩
      · rw [Function.update_of_ne hk] at hget
        exact Or.inl hget
    unfold Cache.insert Cache.sweep at h
    split_ifs at h
    · exact hupdate _ rfl h
    · exact hupdate _ rfl (Option.filter_eq_some_iff.mp h).1

theorem traced_resolving (h : Traced cfg s) : Traced cfg (s.stepResolving cfg i call) := by
  unfold stepResolving
  by_cases hhosts : cfg.hostsIpv4 call.name = []
  · rw [if_neg (by simpa using hhosts)]
    cases hc : s.cached cfg call with
    | some hit =>
      refine traced_phase h rfl rfl rfl _ fun a ha => Or.inr ⟨hhosts, ?_⟩
      cases ha
      exact (cached_of_traced h hc).extracted
    | none =>
      dsimp only
      cases hq : parse (buildQuery s.queryId.toUInt16 call.name call.qtype) with
      | error e =>
        refine traced_phase h ?_ ?_ ?_ (.resolved none) fun a ha => ?_ <;> first | rfl | cases ha
      | ok query =>
        refine traced_phase h ?_ ?_ ?_ (.lookup query) fun _ => ⟨hhosts, _, hq⟩ <;> rfl
  · rw [if_pos hhosts]
    refine traced_phase h rfl rfl rfl _ fun a ha => Or.inl ⟨hhosts, ?_⟩
    cases ha
    rfl

variable {query : DnsMessage}

theorem traced_lookup (h : Traced cfg s) (hq : Asked cfg call query) :
    Traced cfg (s.stepLookup cfg i call query) := by
  unfold stepLookup
  cases hc : s.cached cfg call with
  | some hits => exact traced_phase h rfl rfl rfl _ ⟨hq, cached_of_traced h hc⟩
  | none => exact traced_phase h rfl rfl rfl _ hq

theorem traced_guard (h : Traced cfg s) (hq : Asked cfg call query) :
    Traced cfg (s.stepGuard cfg i call query) := by
  unfold stepGuard
  split_ifs
  · exact traced_phase h rfl rfl rfl _ ⟨hq, trivial⟩
  · refine traced_phase h ?_ ?_ ?_ (.walking query _) hq <;> rfl

theorem traced_answer (h : Traced cfg s) (hq : Asked cfg call query) (resp : Bytes) :
    Traced cfg (s.stepAnswer cfg i call query resp) := by
  unfold stepAnswer
  by_cases hshort : resp.length < 2
  · rw [if_pos hshort]
    refine traced_phase h ?_ ?_ ?_ .dropped trivial <;> rfl
  rw [if_neg hshort]
  have hout := cfg.listedRecords_finish call.name call.qtype query (show 2 ≤ resp.length by omega)
  refine traced_setPhase h ?_ ?_ ?_ _ ⟨hq, resp, List.mem_cons_self, hout⟩
  · rfl
  · exact List.subset_cons_self _ _
  · intro k e he
    dsimp only at he ⊢
    have hold : s.cache.entries k = some e →
        Cached (⟨call.name, call.qtype, resp⟩ :: s.received) k.1 k.2 e.addrs := fun hk =>
      (h.entries k e hk).mono (List.subset_cons_self _ _)
    split_ifs at he
    · rcases entries_cacheInsert he with hk | ⟨hk, rs, hrs, haddrs⟩
      · exact hold hk
      · rw [hk]
        exact ⟨resp, rs, List.mem_cons_self, by rw [← hout, hrs], haddrs⟩
    · exact hold he

/-- The addresses in the reply `resolve` got from `forward`. -/
theorem extracted_of_reply {received : List Received} {reply : Reply} {a : List IpAddr}
    (hreply : ReplyOk received call reply) {id : UInt16}
    (hq : parse (buildQuery id call.name call.qtype) = .ok query)
    (ha : extractIps (reply.bytes query) call.qtype = some a) :
    Extracted received call.name call.qtype a := by
  cases reply with
  | refused =>
    rw [Reply.bytes, extractIps_empty] at ha
    cases ha
  | exhausted =>
    rw [Reply.bytes, extractIps_empty] at ha
    cases ha
  | answered out =>
    obtain ⟨resp, hmem, hout⟩ := hreply
    obtain ⟨rs, hrs, haddrs, -⟩ := extractIps_eq_some ha
    exact ⟨resp, rs, hmem, by rw [← hout]; exact hrs, Or.inl haddrs⟩
  | cached hits =>
    obtain ⟨resp, rs, hmem, hrs, hhits⟩ := hreply
    have hlen : hits.length ≤ 65535 := by
      rw [hhits]
      exact ((List.length_filterMap_le _ _).trans (List.length_filter_le _ _)).trans
        (length_listedRecords hrs)
    obtain ⟨rs', hrs', haddrs, -⟩ := extractIps_eq_some ha
    rw [Reply.bytes, listedRecords_reply hq _ hlen] at hrs'
    cases hrs'
    refine ⟨resp, rs, hmem, hrs, Or.inr ?_⟩
    rw [haddrs, ipsOf_addresses, hhits]

theorem traced_returned (h : Traced cfg s) {reply : Reply} (hq : Asked cfg call query)
    (hreply : ReplyOk s.received call reply) :
    Traced cfg (s.stepReturned cfg i call query reply) := by
  unfold stepReturned
  split_ifs with hres
  · obtain ⟨hhosts, id, hid⟩ := hq hres
    cases hc : s.cached cfg call with
    | some hit =>
      refine traced_phase h rfl rfl rfl _ fun a ha => Or.inr ⟨hhosts, ?_⟩
      cases ha
      exact (cached_of_traced h hc).extracted
    | none =>
      refine traced_phase h rfl rfl rfl _ fun a ha => Or.inr ⟨hhosts, ?_⟩
      exact extracted_of_reply hreply hid ha
  · exact h

theorem traced_stepCall (h : Traced cfg s) (hi : s.calls[i]? = some call)
    (answer : Option Bytes) : Traced cfg (s.stepCall cfg i call answer) := by
  have hcall := h.calls call (List.mem_of_getElem? hi)
  unfold CallOk at hcall
  unfold stepCall
  cases hp : call.phase with
  | resolving => exact traced_resolving h
  | lookup query => rw [hp] at hcall; exact traced_lookup h hcall
  | guard query => rw [hp] at hcall; exact traced_guard h hcall
  | walking query upstreams =>
    rw [hp] at hcall
    cases upstreams with
    | nil => exact traced_phase h rfl rfl rfl _ ⟨hcall, trivial⟩
    | cons u upstreams =>
      cases answer with
      | none => exact traced_phase h rfl rfl rfl _ hcall
      | some resp => exact traced_answer h hcall resp
  | leaving query reply =>
    rw [hp] at hcall
    refine traced_phase h ?_ ?_ ?_ (.returned query reply) hcall <;> rfl
  | returned query reply => rw [hp] at hcall; exact traced_returned h hcall.1 hcall.2
  | resolved addrs => exact h
  | dropped => exact h

theorem traced_cancelCall (h : Traced cfg s) : Traced cfg (s.cancelCall i call) := by
  unfold cancelCall
  cases call.phase with
  | walking query upstreams => refine traced_phase h ?_ ?_ ?_ .dropped trivial <;> rfl
  | leaving query reply => refine traced_phase h ?_ ?_ ?_ .dropped trivial <;> rfl
  | resolving => exact traced_phase h rfl rfl rfl _ trivial
  | lookup query => exact traced_phase h rfl rfl rfl _ trivial
  | guard query => exact traced_phase h rfl rfl rfl _ trivial
  | returned query reply => exact h
  | resolved addrs => exact h
  | dropped => exact h

theorem traced_append (h : Traced cfg s) (hc : CallOk cfg s.received call) :
    Traced cfg { s with calls := s.calls ++ [call] } := by
  refine ⟨h.entries, fun c hmem => ?_⟩
  rcases List.mem_append.mp hmem with hold | hnew
  · exact h.calls c hold
  · rw [List.mem_singleton.mp hnew]
    exact hc

theorem traced_step (h : Traced cfg s) (a : Action) : Traced cfg (step cfg s a) := by
  cases a with
  | forward query name qtype => exact traced_append h (fun hres => by cases hres)
  | resolve name qtype => exact traced_append h trivial
  | run i answer =>
    cases hi : s.calls[i]? with
    | none =>
      rw [(step_missing hi answer).1]
      exact h
    | some call =>
      rw [step_run hi]
      exact traced_stepCall h hi answer
  | cancel i =>
    cases hi : s.calls[i]? with
    | none =>
      rw [(step_missing hi none).2]
      exact h
    | some call =>
      rw [step_cancel hi]
      exact traced_cancelCall h
  | tick d => exact ⟨h.entries, h.calls⟩
  | clearCache => exact ⟨fun k e he => (by cases he), h.calls⟩

theorem traced_run (cfg : DnsConfig U) (now : Nat) (as : List Action) :
    ∀ s ∈ Machine.states (step cfg) (start now) as, Traced cfg s :=
  Machine.inv_of_good (Traced cfg) (fun _ _ => True) (fun _ a h _ => traced_step h a)
    (traced_start now) (fun _ _ => trivial)

/-! ## What is answered -/

/-- The addresses come from one response to the question: they are addresses of records of
    the type asked, and if that response is plain, those of its answer section, each of the
    type asked. -/
def FromResponse (s : DnsEngine U) (name : Str) (qtype : UInt16) (addrs : List IpAddr) : Prop :=
  ∃ resp, (⟨name, qtype, resp⟩ : Received) ∈ s.received ∧ addrs.Sublist (listedIps qtype resp) ∧
    (PlainFor qtype resp → addrs = answerIps qtype resp ∧ ∀ ip ∈ addrs, addrType ip = qtype)

structure Faithful (cfg : DnsConfig U) (s : DnsEngine U) : Prop where
  forward : ∀ call ∈ s.calls, ∀ query hits, call.phase = .returned query (.cached hits) →
    FromResponse s call.name call.qtype hits
  /-- `hosts` answers before any upstream. -/
  resolve : ∀ call ∈ s.calls, ∀ addrs, call.phase = .resolved (some addrs) →
    cfg.hostsIpv4 call.name ≠ [] ∧ addrs = cfg.hostsIpv4 call.name ∨
      cfg.hostsIpv4 call.name = [] ∧ FromResponse s call.name call.qtype addrs

theorem fromResponse_of_extracted {name : Str} {qtype : UInt16} {addrs : List IpAddr}
    (h : Extracted s.received name qtype addrs) : FromResponse s name qtype addrs := by
  obtain ⟨resp, rs, hmem, hrs, haddrs⟩ := h
  have hlisted : listedIps qtype resp = ipsOf qtype rs := by rw [listedIps, hrs]
  refine ⟨resp, hmem, ?_, fun hplain => ?_⟩
  · rw [hlisted]
    rcases haddrs with ha | ha <;> rw [ha]
    exact List.filter_sublist
  · have htyped := hplain.typed hrs
    have hall : addrs = ipsOf qtype rs := by
      rcases haddrs with ha | ha
      · exact ha
      · rw [ha, List.filter_eq_self]
        intro ip hip
        exact decide_eq_true (htyped ip hip)
    rw [hall]
    exact ⟨hplain.listed_eq_answer hrs, htyped⟩

/-- Every address answered from the cache or returned by `resolve` is accounted for, in every
    run of queries, upstream responses and cancellations. -/
theorem cache_faithful (cfg : DnsConfig U) (now : Nat) (as : List Action) :
    ∀ s ∈ Machine.states (step cfg) (start now) as, Faithful cfg s := by
  intro s hs
  have h := traced_run cfg now as s hs
  refine ⟨fun call hcall query hits hp => ?_, fun call hcall addrs hp => ?_⟩
  · have hok := h.calls call hcall
    unfold CallOk at hok
    rw [hp] at hok
    exact fromResponse_of_extracted (Cached.extracted hok.2)
  · have hok := h.calls call hcall
    unfold CallOk at hok
    rw [hp] at hok
    exact (hok addrs rfl).imp_right fun hr => ⟨hr.1, fromResponse_of_extracted hr.2⟩

/-! ## Two runs -/

/-- A response without answers and one A record in another section. -/
def glueResponse : Bytes :=
  [0, 7, 0x80, 0, 0, 0, 0, 0, 0, 0, 0, 1] ++ [0, 0, 1, 0, 1, 0, 0, 0, 60, 0, 4, 192, 0, 2, 1]

/-- One query is answered by the upstream, the next from the cache. -/
def glueRun : List Action :=
  [.forward sampleQuery ['a'] typeA, .run 0 none, .run 0 none, .run 0 (some glueResponse),
    .run 0 none, .forward sampleQuery ['a'] typeA, .run 1 none]

def hostsRun : List Action := [.resolve ['a'] typeA, .run 0 none]

theorem cache_faithful_sample :
    Faithful (sampleConfig ∅) (glueRun.foldl (step (sampleConfig ∅)) (start 0)) :=
  cache_faithful (sampleConfig ∅) 0 glueRun _ (Machine.foldl_mem_states _ _)

/-- The addresses are those of the answer section of a response, for A and AAAA only. -/
def AnswersOnly (s : DnsEngine U) (name : Str) (qtype : UInt16) (addrs : List IpAddr) : Prop :=
  (qtype = typeA ∨ qtype = typeAAAA) ∧
    ∃ resp, (⟨name, qtype, resp⟩ : Received) ∈ s.received ∧ addrs = answerIps qtype resp

/-- The addresses a finished call of `forward` took from the cache, or `resolve` returned. -/
def answered (call : Call U) : Option (List IpAddr) :=
  match call.phase with
  | .returned _ (.cached hits) => some hits
  | .resolved addrs => addrs
  | _ => none

def OnlyFromAnswers (s : DnsEngine U) : Prop :=
  ∀ call ∈ s.calls, ∀ addrs, answered call = some addrs →
    AnswersOnly s call.name call.qtype addrs

/-- `hosts` answers without an upstream, and a record of another section is cached. -/
theorem answers_of_other_origin :
    (∃ s ∈ Machine.states (step (sampleConfig (AList.singleton ['a'] [.v4 0xC0000201]))) (start 0)
        hostsRun, ¬ OnlyFromAnswers s) ∧
      ∃ s ∈ Machine.states (step (sampleConfig ∅)) (start 0) glueRun, ¬ OnlyFromAnswers s := by
  constructor
  · refine ⟨_, Machine.foldl_mem_states _ _, fun h => ?_⟩
    obtain ⟨-, resp, hmem, -⟩ := h _ List.mem_cons_self [.v4 0xC0000201] rfl
    cases hmem
  · refine ⟨_, Machine.foldl_mem_states _ _, fun h => ?_⟩
    have hcall : (glueRun.foldl (step (sampleConfig ∅)) (start 0)).calls[1]?.bind answered =
        some [.v4 0xC0000201] := by decide +kernel
    have hreceived : (glueRun.foldl (step (sampleConfig ∅)) (start 0)).received =
        [⟨['a'], typeA, glueResponse⟩] := by decide +kernel
    have hempty : answerIps typeA glueResponse = [] := by decide +kernel
    obtain ⟨call, hc, ha⟩ := Option.bind_eq_some_iff.mp hcall
    obtain ⟨-, resp, hmem, hips⟩ := h call (List.mem_of_getElem? hc) _ ha
    rw [hreceived, List.mem_singleton] at hmem
    injection hmem with hname hqtype hresp
    rw [hqtype, hresp, hempty] at hips
    cases hips

end DnsEngine

end RustCrash.Dns
