import RustCrash.Snell.RequestReads

/-
  When a server reads the request that was sent.

  A header is read field by field. No pause inside a field means that each field is filled with its
  own bytes, the request is the one that was sent and the relay gets exactly what follows.
-/

namespace RustCrash.Snell

open Lib Proto

namespace Fields

/-- The lengths fit their bytes. -/
def Valid : Fields → Prop
  | ping => False
  | connect id host _ _ => id.length ≤ 255 ∧ host ≠ [] ∧ host.length ≤ 255
  | udp id => id.length ≤ 255

def lengthByte (bs : Bytes) : Bytes := [UInt8.ofNat bs.length]

/-- The fields of the header that a client sends. -/
def pieces : Fields → List Bytes
  | ping => [[protocolVersion], [cmdPing]]
  | connect id host port reuse =>
    [[protocolVersion], [if reuse then cmdConnectV2 else cmdConnect], lengthByte id, id,
      lengthByte host, host, be16 port]
  | udp id => [[protocolVersion], [cmdUdp], lengthByte id, id]

def encode (f : Fields) : Bytes := f.pieces.flatten

end Fields

/-- So many bytes end inside a piece. -/
def Inside : List Bytes → Nat → Prop
  | [], _ => False
  | p :: ps, j => if j < p.length then 0 < j else Inside ps (j - p.length)

theorem not_inside_zero (ps : List Bytes) : ¬ Inside ps 0 := by
  induction ps with
  | nil => exact id
  | cons p ps ih =>
    unfold Inside
    split_ifs with h
    · exact Nat.lt_irrefl 0
    · rwa [Nat.zero_sub]

variable {argon2id : Bytes → Bytes → ByteVec 32}

/-! ## Pieces one after another -/

variable (argon2id) in
def readAll : List Nat → Await (List Bytes)
  | [] => fun l => .ok ([], l)
  | n :: ns => do
    let bs ← readExactDec argon2id n
    let rest ← readAll ns
    return bs :: rest

variable {l l' : Link} {bss : List Bytes} {u : Reader} {todo : List Sealed} {f : Fields}

theorem readAll_cons {n : Nat} {ns : List Nat} :
    readAll argon2id (n :: ns) l = .ok (bss, l') ↔ ∃ bs l₁ rest,
      readExactDec argon2id n l = .ok (bs, l₁) ∧ readAll argon2id ns l₁ = .ok (rest, l') ∧
        bss = bs :: rest := by
  rw [readAll, await_bind, bind_eq_ok]
  constructor
  · rintro ⟨⟨bs, l₁⟩, h₁, h⟩
    rw [await_bind, bind_eq_ok] at h
    obtain ⟨⟨rest, l₂⟩, h₂, h⟩ := h
    cases h
    exact ⟨bs, l₁, rest, h₁, h₂, rfl⟩
  · rintro ⟨bs, l₁, rest, h₁, h₂, rfl⟩
    refine ⟨(bs, l₁), h₁, ?_⟩
    rw [await_bind, h₂]
    rfl

theorem readAll_nil : readAll argon2id [] l = .ok (bss, l') ↔ bss = [] ∧ l' = l := by
  unfold readAll
  constructor
  · intro h
    cases h
    exact ⟨rfl, rfl⟩
  · rintro ⟨rfl, rfl⟩
    rfl

/-- Without a pause inside a piece every piece is read. -/
theorem readAll_steady {ps : List Bytes} {data : Bytes} {l : Link} (h : l.Reading argon2id u todo)
    (hleft : l.left todo = ps.flatten ++ data) (hsteady : ∀ j ∈ l.pauses todo, ¬ Inside ps j) :
    ∃ l' todo', readAll argon2id (ps.map List.length) l = .ok (ps, l') ∧
      l'.Reading argon2id u todo' ∧ l'.left todo' = data := by
  induction ps generalizing l todo with
  | nil => exact ⟨l, todo, rfl, h, hleft⟩
  | cons p ps ih =>
    rw [List.flatten_cons, List.append_assoc] at hleft
    have hn : p.length ≤ (l.left todo).length := by
      rw [hleft, List.length_append]
      omega
    have hfirst : ∀ j ∈ l.pauses todo, j = 0 ∨ p.length ≤ j := by
      intro j hj
      have hout := hsteady j hj
      unfold Inside at hout
      split_ifs at hout with hlt
      · omega
      · omega
    obtain ⟨bs, l₁, todo₁, hread, hreading, hlen, hsplit, hback, -⟩ :=
      readExactDec_steady h hn hfirst
    rw [hleft] at hsplit
    obtain ⟨rfl, hrest⟩ := List.append_inj hsplit hlen.symm
    have hsteady₁ : ∀ j ∈ l₁.pauses todo₁, ¬ Inside ps j := by
      intro j hj
      have hout := hsteady _ (hback j hj)
      unfold Inside at hout
      rwa [if_neg (by omega), Nat.add_sub_cancel_left] at hout
    obtain ⟨l', todo', hreads, hreading', hleft'⟩ := ih hreading hrest.symm hsteady₁
    exact ⟨l', todo', readAll_cons.mpr ⟨p, l₁, ps, hread, hreads, rfl⟩, hreading', hleft'⟩

/-- Reading takes the lengths that are read, whatever happens. -/
theorem readAll_takes {ns : List Nat} (h : l.Reading argon2id u todo)
    (hread : readAll argon2id ns l = .ok (bss, l')) :
    ∃ todo', l'.Reading argon2id u todo' ∧
      (l'.left todo').length + ns.sum ≤ (l.left todo).length := by
  induction ns generalizing l todo bss with
  | nil =>
    obtain ⟨-, rfl⟩ := readAll_nil.mp hread
    exact ⟨todo, h, Nat.le_refl _⟩
  | cons n ns ih =>
    obtain ⟨bs, l₁, rest, h₁, hrest, rfl⟩ := readAll_cons.mp hread
    obtain ⟨-, todo₁, taken, hreading, hsplit, hle, -⟩ := readExactDec_takes h h₁
    obtain ⟨todo', hreading', hsum⟩ := ih hreading hrest
    refine ⟨todo', hreading', ?_⟩
    rw [hsplit, List.length_append, List.sum_cons]
    omega

/-- A pause inside a piece loses bytes. -/
theorem readAll_unsteady {ps : List Bytes} {data : Bytes} (h : l.Reading argon2id u todo)
    (hleft : l.left todo = ps.flatten ++ data) (hpause : ∃ j ∈ l.pauses todo, Inside ps j)
    (hread : readAll argon2id (ps.map List.length) l = .ok (bss, l')) :
    ∃ todo', l'.Reading argon2id u todo' ∧ (l'.left todo').length < data.length := by
  induction ps generalizing l todo bss with
  | nil =>
    obtain ⟨j, -, hin⟩ := hpause
    exact absurd hin id
  | cons p ps ih =>
    rw [List.map_cons] at hread
    obtain ⟨bs, l₁, rest, h₁, hrest, rfl⟩ := readAll_cons.mp hread
    rw [List.flatten_cons, List.append_assoc] at hleft
    by_cases hinside : ∃ j ∈ l.pauses todo, 0 < j ∧ j < p.length
    · obtain ⟨-, todo₁, taken, hreading, hsplit, -, hmore⟩ := readExactDec_takes h h₁
      obtain ⟨todo', hreading', hsum⟩ := readAll_takes hreading hrest
      refine ⟨todo', hreading', ?_⟩
      have hlen := congrArg List.length (hleft.symm.trans hsplit)
      rw [List.length_append, List.length_append, List.length_append, List.length_flatten] at hlen
      have := hmore hinside
      omega
    · have hn : p.length ≤ (l.left todo).length := by
        rw [hleft, List.length_append]
        omega
      have hfirst : ∀ j ∈ l.pauses todo, j = 0 ∨ p.length ≤ j := by
        intro j hj
        by_contra hout
        exact hinside ⟨j, hj, by omega, by omega⟩
      obtain ⟨bs', l₁', todo₁, hread₁, hreading, hlen, hsplit, -, hforth⟩ :=
        readExactDec_steady h hn hfirst
      rw [hread₁] at h₁
      cases h₁
      rw [hleft] at hsplit
      obtain ⟨rfl, hrest'⟩ := List.append_inj hsplit hlen.symm
      obtain ⟨j, hj, hin⟩ := hpause
      have hlater : ∃ j ∈ l₁.pauses todo₁, Inside ps j := by
        unfold Inside at hin
        split_ifs at hin with hlt
        · exact absurd ⟨j, hj, hin, hlt⟩ hinside
        · rcases hforth j hj with rfl | ⟨j', hj', rfl⟩
          · exfalso
            rw [Nat.zero_sub] at hin
            exact not_inside_zero ps hin
          · rw [Nat.add_sub_cancel_left] at hin
            exact ⟨j', hj', hin⟩
      exact ih hreading hrest'.symm hlater hrest

/-! ## The header -/

theorem readByte_of {b : UInt8} (h : readExactDec argon2id 1 l = .ok ([b], l')) :
    readByte argon2id l = .ok (b, l') := by
  unfold readByte
  rw [await_bind, h]
  rfl

theorem pollExactFor_length {k n : Nat} {filled bs : Bytes} {script script' : List Arrival}
    {c c' : Conn} (h : c.pollExactFor argon2id k n filled script =
      ⟨c', script', .ready (.ok bs)⟩) : bs.length = n := by
  induction k generalizing c script filled with
  | zero =>
    unfold Conn.pollExactFor at h
    cases h
  | succ k ih =>
    unfold Conn.pollExactFor at h
    dsimp only at h
    split_ifs at h with hfull
    · cases h
      exact hfull
    · split at h
      · cases h
      · cases h
      · exact ih h
      · cases h

theorem readExactDec_length {n : Nat} {bs : Bytes} (h : readExactDec argon2id n l = .ok (bs, l')) :
    bs.length = n := by
  unfold readExactDec at h
  generalize l.script.length + 1 = k at h
  induction k generalizing l with
  | zero => cases h
  | succ k ih =>
    unfold awaitExactFor at h
    dsimp only at h
    rcases hf : l.conn.pollExact argon2id n l.script with ⟨c', script', _ | e | bs'⟩
    · rw [hf] at h
      exact ih h
    · rw [hf] at h
      cases h
    · rw [hf] at h
      cases h
      exact pollExactFor_length hf

theorem readByte_eq_ok {b : UInt8} :
    readByte argon2id l = .ok (b, l') ↔ readExactDec argon2id 1 l = .ok ([b], l') := by
  refine ⟨fun h => ?_, readByte_of⟩
  unfold readByte at h
  rw [await_bind, bind_eq_ok] at h
  obtain ⟨⟨bs, l₁⟩, hread, h⟩ := h
  cases h
  obtain ⟨b, rfl⟩ := List.length_eq_one_iff.mp (readExactDec_length hread)
  exact hread

theorem toNat_lengthByte {bs : Bytes} (h : bs.length ≤ 255) :
    (UInt8.ofNat bs.length).toNat = bs.length :=
  UInt8.toNat_ofNat_of_lt' (Nat.lt_succ_of_le h)

theorem readConnect_eq_ok {id : Bytes} {reuse : Bool} :
    readConnect argon2id id reuse l = .ok (f, l') ↔ ∃ hostLen l₁ host l₂ port,
      readByte argon2id l = .ok (hostLen, l₁) ∧ hostLen ≠ 0 ∧
      readExactDec argon2id hostLen.toNat l₁ = .ok (host, l₂) ∧
      readExactDec argon2id 2 l₂ = .ok (port, l') ∧ f = .connect id host (ofBE16 port) reuse := by
  unfold readConnect
  rw [await_bind, bind_eq_ok]
  constructor
  · rintro ⟨⟨hostLen, l₁⟩, h₁, h⟩
    dsimp only at h
    split_ifs at h with hzero
    · cases h
    · rw [await_bind, bind_eq_ok] at h
      obtain ⟨⟨host, l₂⟩, h₂, h⟩ := h
      rw [await_bind, bind_eq_ok] at h
      obtain ⟨⟨port, l₃⟩, h₃, h⟩ := h
      cases h
      exact ⟨hostLen, l₁, host, l₂, port, h₁, hzero, h₂, h₃, rfl⟩
  · rintro ⟨hostLen, l₁, host, l₂, port, h₁, hzero, h₂, h₃, rfl⟩
    refine ⟨(hostLen, l₁), h₁, ?_⟩
    dsimp only
    rw [if_neg hzero, await_bind, h₂, bind_ok, await_bind, h₃]
    rfl

theorem readCommand_eq_ok {command : UInt8} :
    readCommand argon2id command l = .ok (f, l') ↔ ∃ idLen l₁ id l₂,
      readByte argon2id l = .ok (idLen, l₁) ∧ readExactDec argon2id idLen.toNat l₁ = .ok (id, l₂) ∧
      ((command = cmdConnect ∨ command = cmdConnectV2) ∧
          readConnect argon2id id (command = cmdConnectV2) l₂ = .ok (f, l') ∨
        command = cmdUdp ∧ f = .udp id ∧ l' = l₂) := by
  unfold readCommand
  rw [await_bind, bind_eq_ok]
  constructor
  · rintro ⟨⟨idLen, l₁⟩, h₁, h⟩
    rw [await_bind, bind_eq_ok] at h
    obtain ⟨⟨id, l₂⟩, h₂, h⟩ := h
    dsimp only at h
    refine ⟨idLen, l₁, id, l₂, h₁, h₂, ?_⟩
    split_ifs at h with hconnect hudp
    · exact .inl ⟨hconnect, h⟩
    · cases h
      exact .inr ⟨hudp, rfl, rfl⟩
    · cases h
  · rintro ⟨idLen, l₁, id, l₂, h₁, h₂, h⟩
    refine ⟨(idLen, l₁), h₁, ?_⟩
    rw [await_bind, h₂, bind_ok]
    dsimp only
    rcases h with ⟨hconnect, h⟩ | ⟨rfl, rfl, rfl⟩
    · rw [if_pos hconnect]
      exact h
    · rw [if_neg (by decide), if_pos rfl]
      rfl

/-- A request that is no ping. -/
theorem readFields_eq_ok {d : Draws} (hping : f ≠ .ping) :
    readFields argon2id d l = .ok (f, l') ↔ ∃ l₁ command l₂,
      readByte argon2id l = .ok (protocolVersion, l₁) ∧
      readByte argon2id l₁ = .ok (command, l₂) ∧ command ≠ cmdPing ∧
      readCommand argon2id command l₂ = .ok (f, l') := by
  unfold readFields
  rw [await_bind, bind_eq_ok]
  constructor
  · rintro ⟨⟨version, l₁⟩, h₁, h⟩
    dsimp only at h
    split_ifs at h with hversion
    · cases h
    · obtain rfl := not_not.mp hversion
      rw [await_bind, bind_eq_ok] at h
      obtain ⟨⟨command, l₂⟩, h₂, h⟩ := h
      dsimp only at h
      split_ifs at h with hcommand
      · rw [await_bind, bind_eq_ok] at h
        obtain ⟨⟨_, l₃⟩, _, h⟩ := h
        cases h
        exact absurd rfl hping
      · exact ⟨l₁, command, l₂, h₁, h₂, hcommand, h⟩
  · rintro ⟨l₁, command, l₂, h₁, h₂, hcommand, h⟩
    refine ⟨(protocolVersion, l₁), h₁, ?_⟩
    dsimp only
    rw [if_neg (not_not_intro rfl), await_bind, h₂, bind_ok]
    dsimp only
    rw [if_neg hcommand]
    exact h

/-- The pieces of a header are its fields. -/
theorem readFields_of_readAll (hvalid : f.Valid) (d : Draws)
    (h : readAll argon2id (f.pieces.map List.length) l = .ok (f.pieces, l')) :
    readFields argon2id d l = .ok (f, l') := by
  cases f with
  | ping => exact absurd hvalid id
  | connect id host port reuse =>
    obtain ⟨hid, hne, hhost⟩ := hvalid
    obtain ⟨_, l₁, _, h₁, h, heq⟩ := readAll_cons.mp h
    obtain ⟨rfl, rfl⟩ := List.cons.inj heq
    obtain ⟨_, l₂, _, h₂, h, heq⟩ := readAll_cons.mp h
    obtain ⟨rfl, rfl⟩ := List.cons.inj heq
    obtain ⟨_, l₃, _, h₃, h, heq⟩ := readAll_cons.mp h
    obtain ⟨rfl, rfl⟩ := List.cons.inj heq
    obtain ⟨_, l₄, _, h₄, h, heq⟩ := readAll_cons.mp h
    obtain ⟨rfl, rfl⟩ := List.cons.inj heq
    obtain ⟨_, l₅, _, h₅, h, heq⟩ := readAll_cons.mp h
    obtain ⟨rfl, rfl⟩ := List.cons.inj heq
    obtain ⟨_, l₆, _, h₆, h, heq⟩ := readAll_cons.mp h
    obtain ⟨rfl, rfl⟩ := List.cons.inj heq
    obtain ⟨_, l₇, _, h₇, h, heq⟩ := readAll_cons.mp h
    obtain ⟨rfl, rfl⟩ := List.cons.inj heq
    obtain ⟨-, rfl⟩ := readAll_nil.mp h
    have hlen : UInt8.ofNat host.length ≠ 0 := by
      intro h0
      have hnat := toNat_lengthByte hhost
      rw [h0] at hnat
      exact hne (List.eq_nil_of_length_eq_zero hnat.symm)
    have hcommand : (if reuse then cmdConnectV2 else cmdConnect) = cmdConnect ∨
        (if reuse then cmdConnectV2 else cmdConnect) = cmdConnectV2 := by
      cases reuse
      · exact .inl rfl
      · exact .inr rfl
    have hreuse : decide ((if reuse then cmdConnectV2 else cmdConnect) = cmdConnectV2) = reuse := by
      cases reuse <;> rfl
    have hping : Fields.connect id host port reuse ≠ .ping := nofun
    refine (readFields_eq_ok hping).mpr ⟨l₁, _, l₂, readByte_of h₁, readByte_of h₂, ?_, ?_⟩
    · cases reuse <;> decide
    · refine readCommand_eq_ok.mpr ⟨_, l₃, id, l₄, readByte_of h₃, ?_, .inl ⟨hcommand, ?_⟩⟩
      · rw [toNat_lengthByte hid]
        exact h₄
      · rw [hreuse]
        refine readConnect_eq_ok.mpr ⟨_, l₅, host, l₆, be16 port, readByte_of h₅, hlen, ?_, ?_, ?_⟩
        · rw [toNat_lengthByte hhost]
          exact h₆
        · exact h₇
        · rw [ofBE16_be16]
  | udp id =>
    obtain ⟨_, l₁, _, h₁, h, heq⟩ := readAll_cons.mp h
    obtain ⟨rfl, rfl⟩ := List.cons.inj heq
    obtain ⟨_, l₂, _, h₂, h, heq⟩ := readAll_cons.mp h
    obtain ⟨rfl, rfl⟩ := List.cons.inj heq
    obtain ⟨_, l₃, _, h₃, h, heq⟩ := readAll_cons.mp h
    obtain ⟨rfl, rfl⟩ := List.cons.inj heq
    obtain ⟨_, l₄, _, h₄, h, heq⟩ := readAll_cons.mp h
    obtain ⟨rfl, rfl⟩ := List.cons.inj heq
    obtain ⟨-, rfl⟩ := readAll_nil.mp h
    have hping : Fields.udp id ≠ .ping := nofun
    refine (readFields_eq_ok hping).mpr ⟨l₁, _, l₂, readByte_of h₁, readByte_of h₂, by decide, ?_⟩
    refine readCommand_eq_ok.mpr ⟨_, l₃, id, l', readByte_of h₃, ?_, .inr ⟨rfl, rfl, rfl⟩⟩
    rw [toNat_lengthByte hvalid]
    exact h₄

/-- A header that was read was read piece by piece. -/
theorem readAll_of_readFields (hvalid : f.Valid) {d : Draws}
    (h : readFields argon2id d l = .ok (f, l')) :
    ∃ bss, readAll argon2id (f.pieces.map List.length) l = .ok (bss, l') := by
  have hping : f ≠ .ping := by
    rintro rfl
    exact hvalid
  obtain ⟨l₁, command, l₂, h₁, h₂, hcommand, h⟩ := (readFields_eq_ok hping).mp h
  obtain ⟨idLen, l₃, id, l₄, h₃, h₄, h⟩ := readCommand_eq_ok.mp h
  have hid := readExactDec_length h₄
  rw [readByte_eq_ok] at h₁ h₂ h₃
  rw [← hid] at h₄
  rcases h with ⟨_, h⟩ | ⟨_, rfl, rfl⟩
  · obtain ⟨hostLen, l₅, host, l₆, port, h₅, _, h₆, h₇, rfl⟩ := readConnect_eq_ok.mp h
    rw [readByte_eq_ok] at h₅
    rw [← readExactDec_length h₆] at h₆
    rw [← length_be16 (ofBE16 port)] at h₇
    have r₇ := readAll_cons.mpr ⟨port, l', [], h₇, readAll_nil.mpr ⟨rfl, rfl⟩, rfl⟩
    have r₆ := readAll_cons.mpr ⟨host, l₆, _, h₆, r₇, rfl⟩
    have r₅ := readAll_cons.mpr ⟨[hostLen], l₅, _, h₅, r₆, rfl⟩
    have r₄ := readAll_cons.mpr ⟨id, l₄, _, h₄, r₅, rfl⟩
    have r₃ := readAll_cons.mpr ⟨[idLen], l₃, _, h₃, r₄, rfl⟩
    have r₂ := readAll_cons.mpr ⟨[command], l₂, _, h₂, r₃, rfl⟩
    exact ⟨_, readAll_cons.mpr ⟨[protocolVersion], l₁, _, h₁, r₂, rfl⟩⟩
  · have r₄ := readAll_cons.mpr ⟨id, l', [], h₄, readAll_nil.mpr ⟨rfl, rfl⟩, rfl⟩
    have r₃ := readAll_cons.mpr ⟨[idLen], l₃, _, h₃, r₄, rfl⟩
    have r₂ := readAll_cons.mpr ⟨[command], l₂, _, h₂, r₃, rfl⟩
    exact ⟨_, readAll_cons.mpr ⟨[protocolVersion], l₁, _, h₁, r₂, rfl⟩⟩

/-! ## The relay -/

/-- What a read of the relay takes. -/
theorem pollRead_reading {cap : Nat} (hcap : 0 < cap) {c : Conn} {script : List Arrival}
    (h : Reading argon2id u todo c script) :
    ∃ todo' r, SnellServerTcp.pollRead argon2id cap script c = r ∧
      Reading argon2id u todo' r.conn r.script ∧
      c.out ++ plainOf todo = r.filled ++ (r.conn.out ++ plainOf todo') ∧
      r.script.length ≤ script.length ∧
      (r.filled ≠ [] ∨ r.script.length < script.length ∨
        r.script = [] ∧ r.conn.out ++ plainOf todo' = []) := by
  have htake : ∀ {out : Bytes} {frames : List Sealed},
      out ++ plainOf frames = out.take cap ++ (out.drop cap ++ plainOf frames) := by
    intro out frames
    rw [← List.append_assoc, List.take_append_drop]
  have hsome : ∀ {out : Bytes}, out ≠ [] → out.take cap ≠ [] := by
    intro out hne
    have := List.length_pos_of_ne_nil hne
    apply List.ne_nil_of_length_pos
    rw [List.length_take]
    omega
  unfold SnellServerTcp.pollRead
  rw [SnellServerTcp.pollReadFor, if_neg (by omega)]
  by_cases hout : c.out = []
  · rw [if_neg (not_not_intro hout)]
    have hfill := h.fill
    generalize c.pollFill argon2id script = f at hfill
    cases hfill with
    | @chunk plain wire todo c' used script' hscript hdata hne hout' hreading hless =>
      rw [hout, List.nil_append] at hout'
      obtain ⟨k, hk⟩ : ∃ k, (c.rbuf ++ arrived script).length = k + 1 :=
        ⟨_, (Nat.succ_pred_eq_of_pos (Nat.lt_of_le_of_lt (Nat.zero_le _) hless)).symm⟩
      have hlen := congrArg List.length hscript
      rw [List.length_append] at hlen
      rw [hk]
      dsimp only
      rw [SnellServerTcp.pollReadFor, if_neg (by omega), if_pos (hout' ▸ hne)]
      refine ⟨todo, _, rfl, ⟨hreading.zero, hreading.endless, hreading.place⟩, ?_, ?_,
        .inl (hsome (hout' ▸ hne))⟩
      · rw [hout, List.nil_append, plainOf_cons, ← hout']
        exact htake
      · dsimp only
        omega
    | @waits _ c' used last script' hscript hdata hlast hout' hreading hlanded hall =>
      have hlen := congrArg List.length hscript
      rw [List.length_append, List.length_append] at hlen
      refine ⟨todo, _, rfl, hreading, ?_, ?_, ?_⟩
      · dsimp only [Outcome.filled]
        rw [hout', List.nil_append]
      · dsimp only
        omega
      · rcases hlast with rfl | ⟨rfl, rfl⟩
        · rw [List.length_singleton] at hlen
          exact .inr (.inl (by dsimp only; omega))
        · refine .inr (.inr ⟨rfl, ?_⟩)
          dsimp only
          rw [hout', hout, hall rfl]
          rfl
  · rw [if_pos hout]
    exact ⟨todo, _, rfl, ⟨h.zero, h.endless, h.place⟩, htake, Nat.le_refl _, .inl (hsome hout)⟩

/-- A relay's connection has the rest of the last frame and the frames to come. -/
def Has (argon2id : Bytes → Bytes → ByteVec 32) (u : Reader) (s : Conn × List Arrival)
    (bs : Bytes) : Prop := ∃ todo, Reading argon2id u todo s.1 s.2 ∧ bs = s.1.out ++ plainOf todo

theorem relayPoll_drains {caps : Nat → Nat} (hcaps : ∀ i, 0 < caps i) (u : Reader) :
    Drains (relayPoll argon2id caps) (Has argon2id u) (fun s => s.2.length) := by
  rintro i ⟨c, script⟩ bs ⟨todo, hreading, rfl⟩
  obtain ⟨todo', r, hr, hreading', hsplit, hle, hmoves⟩ := pollRead_reading (hcaps i) hreading
  unfold relayPoll
  dsimp only
  rw [hr]
  refine ⟨r.conn.out ++ plainOf todo', ⟨todo', hreading', rfl⟩, hsplit, hle, ?_⟩
  rcases hmoves with hne | hless | ⟨hnil, hend⟩
  · exact .inl hne
  · exact .inr (.inl hless)
  · exact .inr (.inr ⟨congrArg List.length hnil, hend⟩)

/-- The relay gets all that is left. -/
theorem relayed_reading {caps : Nat → Nat} (hcaps : ∀ i, 0 < caps i) {n : Nat} {c : Conn}
    {script : List Arrival} (h : Reading argon2id u todo c script)
    (hn : (c.out ++ plainOf todo).length + script.length ≤ n) :
    relayed argon2id caps n script c = c.out ++ plainOf todo :=
  (relayPoll_drains hcaps u).flatten_outputs ⟨todo, h, rfl⟩ hn

/-! ## Frames of a client -/

variable (argon2id) in
/-- Each packet of a client goes out as a frame. -/
def packetAll : Writer → List (Draws × Bytes) → Result (Writer × List Sealed)
  | w, [] => .ok (w, [])
  | w, (d, packet) :: calls => do
    let first ← w.framePacket argon2id d packet
    let rest ← packetAll first.1 calls
    return (rest.1, (packet, first.2) :: rest.2)

theorem packetAll_framings {w : Writer} {r : Reader} (h : InStep argon2id w r)
    {calls : List (Draws × Bytes)}
    (hcalls : ∀ call ∈ calls, call.2 ≠ [] ∧ call.2.length ≤ maxLength) :
    ∃ w' frames u, packetAll argon2id w calls = .ok (w', frames) ∧
      frames.map Prod.fst = calls.map Prod.snd ∧ Framings argon2id r frames u ∧
      InStep argon2id w' u := by
  induction calls generalizing w r with
  | nil => exact ⟨w, [], r, rfl, rfl, .nil r, h⟩
  | cons call calls ih =>
    obtain ⟨hne, hlen⟩ := hcalls call List.mem_cons_self
    obtain ⟨w₁, wire, r₁, h₁, hframe, hstep⟩ := framePacket_frame h call.1 hne hlen
    obtain ⟨w₂, frames, u, h₂, hplain, hframes, hstep'⟩ :=
      ih hstep fun call hmem => hcalls call (List.mem_cons_of_mem _ hmem)
    refine ⟨w₂, (call.2, wire) :: frames, u, ?_, ?_, .cons hne hframe hframes, hstep'⟩
    · rw [packetAll, h₁, bind_ok, h₂]
      rfl
    · rw [List.map_cons, List.map_cons, hplain]

variable (argon2id) in
/-- The server reads the fields of the header, so that the request is the one that was sent, and
    leaves `data` to the relay. -/
def Serves (header : Fields) (data : Bytes) (d : Draws) (l : Link) : Prop :=
  ∃ l', readFields argon2id d l = .ok (header, l') ∧
    readRequest argon2id d l = .ok (header.request, l') ∧
    ∀ caps : Nat → Nat, (∀ i, 0 < caps i) →
      ∃ n, ∀ k, n ≤ k → relayed argon2id caps k l'.script l'.conn = data

/-- A header and the data behind it, in any frames: the server serves them if and only if no
    `Pending` comes when the bytes that were decrypted end inside a field. -/
theorem request_served_iff {a b : Conn} (h : Peers argon2id a b) {header : Fields}
    (hvalid : header.Valid) {data : Bytes} {calls : List (Draws × Bytes)}
    (hcalls : ∀ call ∈ calls, call.2 ≠ [] ∧ call.2.length ≤ maxLength)
    (hbytes : (calls.map Prod.snd).flatten = header.encode ++ data) :
    ∃ w frames, packetAll argon2id a.writer calls = .ok (w, frames) ∧
      ∀ script d, Endless script → arrived script = wireOf frames →
        (Serves argon2id header data d ⟨b, script, []⟩ ↔
          ∀ j ∈ pauses frames 0 script, ¬ Inside header.pieces j) := by
  obtain ⟨hstep, hrbuf, hout, hzero⟩ := h.inStep
  obtain ⟨w, frames, u, hw, hplain, hframes, -⟩ := packetAll_framings hstep hcalls
  refine ⟨w, frames, hw, fun script d hend hscript => ?_⟩
  have hreading : (⟨b, script, []⟩ : Link).Reading argon2id u frames := by
    refine ⟨hzero, hend, b.reader, [], hframes, .done _, ?_⟩
    rw [hrbuf, hscript]
    rfl
  have hleft : (⟨b, script, []⟩ : Link).left frames = header.pieces.flatten ++ data := by
    unfold Link.left
    rw [hout, List.nil_append, plainOf, hplain, hbytes]
    rfl
  have hpauses : (⟨b, script, []⟩ : Link).pauses frames = pauses frames 0 script := by
    unfold Link.pauses
    rw [hout]
    rfl
  constructor
  · rintro ⟨l', hread, -, hrelay⟩ j hj hin
    obtain ⟨bss, hall⟩ := readAll_of_readFields hvalid hread
    obtain ⟨todo', hreading', hshort⟩ := readAll_unsteady hreading hleft ⟨j, hpauses ▸ hj, hin⟩ hall
    obtain ⟨n, hn⟩ := hrelay (fun _ => 1) (fun _ => Nat.one_pos)
    have hgets := relayed_reading (fun _ => Nat.one_pos) hreading'
      (Nat.le_max_right n ((l'.left todo').length + l'.script.length))
    rw [hn _ (Nat.le_max_left _ _)] at hgets
    have hlen := congrArg List.length hgets
    unfold Link.left at hshort
    omega
  · intro hsteady
    obtain ⟨l', todo', hall, hreading', hdata⟩ :=
      readAll_steady hreading hleft (hpauses ▸ hsteady)
    have hread := readFields_of_readAll hvalid d hall
    refine ⟨l', hread, ?_, fun caps hcaps =>
      ⟨(l'.conn.out ++ plainOf todo').length + l'.script.length, fun k hk => ?_⟩⟩
    · unfold readRequest
      rw [await_bind, hread]
      rfl
    · exact (relayed_reading hcaps hreading' hk).trans hdata

/-! ## A pause inside the host -/

def sampleHeader : Fields := .connect [] [0x61, 0x62] 0x6364 false

def sampleDraws : Draws := ⟨ByteVec.zero 16, fun _ => ⟨0, fun _ => 0⟩⟩

/-- The frame ends inside the host. -/
def sampleCalls : List (Draws × Bytes) :=
  [(sampleDraws, [1, 1, 0, 2, 0x61]), (sampleDraws, [0x62, 0x63, 0x64, 7])]

theorem request_served_iff_sample :
    ∃ w frames, packetAll (fun _ _ => sampleHash) (V3Conn.new [1] .chacha20Poly1305).writer
        sampleCalls = .ok (w, frames) ∧
      ∀ script d, Endless script → arrived script = wireOf frames →
        (Serves (fun _ _ => sampleHash) sampleHeader [7] d
            ⟨V3Conn.new [1] .chacha20Poly1305, script, []⟩ ↔
          ∀ j ∈ pauses frames 0 script, ¬ Inside sampleHeader.pieces j) :=
  have hvalid : sampleHeader.Valid := ⟨by decide, by decide, by decide⟩
  request_served_iff (.v3 [1] .chacha20Poly1305) hvalid (by decide) (by decide)

/-- A piece in front of the only place of pauses. -/
theorem readExactDec_before (piece : Bytes) {rest : Bytes} {j : Nat} {u : Reader} {todo : List Sealed}
    {l : Link} (h : l.Reading argon2id u todo) (hleft : l.left todo = piece ++ rest)
    (hpause : j ∈ l.pauses todo) (hall : ∀ i ∈ l.pauses todo, i = j) (hpos : 0 < j)
    (hj : piece.length ≤ j) :
    ∃ l' todo', readExactDec argon2id piece.length l = .ok (piece, l') ∧
      l'.Reading argon2id u todo' ∧ l'.left todo' = rest ∧ j - piece.length ∈ l'.pauses todo' ∧
      ∀ i ∈ l'.pauses todo', i = j - piece.length := by
  have hn : piece.length ≤ (l.left todo).length := by
    rw [hleft, List.length_append]
    omega
  obtain ⟨bs, l', todo', hread, hreading, hlen, hsplit, hback, hforth⟩ :=
    readExactDec_steady h hn fun i hi => .inr (hall i hi ▸ hj)
  obtain ⟨rfl, hrest⟩ := List.append_inj (hleft.symm.trans hsplit) hlen.symm
  refine ⟨l', todo', hread, hreading, hrest.symm, ?_, ?_⟩
  · rcases hforth j hpause with h0 | ⟨j', hj', rfl⟩
    · omega
    · rwa [Nat.add_sub_cancel_left]
  · intro i hi
    have := hall _ (hback i hi)
    omega

/-- The header of the sample, with a pause behind the first byte of the host. -/
theorem readFields_shifted (d : Draws) {u : Reader} {todo : List Sealed} {l : Link}
    (h : l.Reading argon2id u todo)
    (hleft : l.left todo = [1, 1, 0, 2, 0x61, 0x62, 0x63, 0x64, 7]) (hpause : 5 ∈ l.pauses todo)
    (hall : ∀ i ∈ l.pauses todo, i = 5) :
    ∃ l', readFields argon2id d l = .ok (.connect [] [0x62, 0x63] 0x6407 false, l') := by
  obtain ⟨l₁, t₁, h₁, r₁, e₁, p₁, a₁⟩ :=
    readExactDec_before [1] h hleft hpause hall (by decide) (by decide)
  obtain ⟨l₂, t₂, h₂, r₂, e₂, p₂, a₂⟩ :=
    readExactDec_before [1] r₁ e₁ p₁ a₁ (by decide) (by decide)
  obtain ⟨l₃, t₃, h₃, r₃, e₃, p₃, a₃⟩ :=
    readExactDec_before [0] r₂ e₂ p₂ a₂ (by decide) (by decide)
  obtain ⟨l₄, t₄, h₄, r₄, e₄, p₄, a₄⟩ :=
    readExactDec_before [] r₃ e₃ p₃ a₃ (by decide) (by decide)
  obtain ⟨l₅, t₅, h₅, r₅, e₅, p₅, a₅⟩ :=
    readExactDec_before [2] r₄ e₄ p₄ a₄ (by decide) (by decide)
  obtain ⟨lost, host, l₆, t₆, h₆, r₆, hlost, hhost, e₆, p₆⟩ :=
    readExactDec_lost (n := 2) r₅ p₅ a₅ (by decide) (by rw [e₅]; decide)
  rw [e₅] at e₆
  obtain ⟨-, hafter⟩ := List.append_inj
    (show [0x61] ++ [0x62, 0x63, 0x64, 7] = lost ++ (host ++ l₆.left t₆) from e₆) hlost.symm
  obtain ⟨rfl, hrest⟩ := List.append_inj
    (show [0x62, 0x63] ++ [0x64, 7] = host ++ l₆.left t₆ from hafter) hhost.symm
  obtain ⟨port, l₇, t₇, h₇, r₇, hport, e₇, -, -⟩ :=
    readExactDec_steady (n := 2) r₆ (by rw [← hrest]; decide)
      (fun i hi => absurd (p₆ ▸ hi) List.not_mem_nil)
  obtain ⟨rfl, -⟩ := List.append_inj
    (show [0x64, 7] ++ [] = port ++ l₇.left t₇ from hrest.trans e₇) hport.symm
  have hfields : Fields.connect [] [0x62, 0x63] 0x6407 false ≠ .ping := nofun
  refine ⟨l₇, (readFields_eq_ok hfields).mpr ⟨l₁, 1, l₂, readByte_of h₁, readByte_of h₂, by decide,
    readCommand_eq_ok.mpr ⟨0, l₃, [], l₄, readByte_of h₃, h₄, .inl ⟨.inl rfl, ?_⟩⟩⟩⟩
  exact readConnect_eq_ok.mpr ⟨2, l₅, [0x62, 0x63], l₆, [0x64, 7], readByte_of h₅, by decide, h₆, h₇,
    rfl⟩

/-- The client asks for `ab` at port 25444 and the server dials `bc` at port 25607. -/
theorem request_shifted :
    ∃ w frames script l', packetAll (fun _ _ => sampleHash)
        (V3Conn.new [1] .chacha20Poly1305).writer sampleCalls = .ok (w, frames) ∧
      Endless script ∧ arrived script = wireOf frames ∧
      sampleHeader.request = .connect ⟨.domain ['a', 'b'], 25444⟩ [] false ∧
      readRequest (fun _ _ => sampleHash) sampleDraws
          ⟨V3Conn.new [1] .chacha20Poly1305, script, []⟩ =
        .ok (.connect ⟨.domain ['b', 'c'], 25607⟩ [] false, l') := by
  have hstep : InStep (fun _ _ => sampleHash) (V3Conn.new [1] .chacha20Poly1305).writer
      (V3Conn.new [1] .chacha20Poly1305).reader := .v3 _ _ _
  obtain ⟨w, frames, u, hw, hplain, hframes, -⟩ :=
    packetAll_framings hstep (by decide : ∀ call ∈ sampleCalls, _)
  obtain _ | @⟨_, t, _, p₁, w₁, _, hne₁, hframe₁, hframes₂⟩ := hframes
  · cases hplain
  obtain _ | @⟨_, t', _, p₂, w₂, _, hne₂, hframe₂, hframes₃⟩ := hframes₂
  · cases hplain
  obtain _ | @⟨_, t'', _, p₃, w₃, _, hne₃, hframe₃, hframes₄⟩ := hframes₃
  swap
  · cases hplain
  obtain ⟨rfl, rfl⟩ : p₁ = [1, 1, 0, 2, 0x61] ∧ p₂ = [0x62, 0x63, 0x64, 7] := by
    cases hplain
    exact ⟨rfl, rfl⟩
  have hw₁ := hframe₁.ne_nil
  have hw₂ := hframe₂.ne_nil
  have hend : Endless [.data w₁, .pending, .data w₂] := by
    intro hmem
    simp only [List.mem_cons, Arrival.data.injEq, List.not_mem_nil, or_false, reduceCtorEq,
      false_or] at hmem
    rcases hmem with h | h
    · exact hw₁ h.symm
    · exact hw₂ h.symm
  have hwire : arrived [.data w₁, .pending, .data w₂] =
      wireOf [([1, 1, 0, 2, 0x61], w₁), ([0x62, 0x63, 0x64, 7], w₂)] := rfl
  have hreading : (⟨V3Conn.new [1] .chacha20Poly1305, [.data w₁, .pending, .data w₂], []⟩ :
      Link).Reading (fun _ _ => sampleHash) u
        [([1, 1, 0, 2, 0x61], w₁), ([0x62, 0x63, 0x64, 7], w₂)] :=
    ⟨rfl, hend, _, [], .cons hne₁ hframe₁ (.cons hne₂ hframe₂ (.nil _)), .done _, rfl⟩
  have hpauses : (⟨V3Conn.new [1] .chacha20Poly1305, [.data w₁, .pending, .data w₂], []⟩ :
      Link).pauses [([1, 1, 0, 2, 0x61], w₁), ([0x62, 0x63, 0x64, 7], w₂)] = [5] := by
    have hlen : (wireOf [([1, 1, 0, 2, 0x61], w₁), ([0x62, 0x63, 0x64, 7], w₂)]).length -
        (arrived [.data w₂]).length = w₁.length := by
      rw [← hwire]
      simp [Arrival.bytes]
    have hpos := List.length_pos_of_ne_nil hw₂
    show [0 + landed _ ((wireOf _).length - (arrived [.data w₂]).length)] = [5]
    rw [hlen, landed, if_neg (Nat.lt_irrefl _), Nat.sub_self, landed, if_pos hpos]
    rfl
  obtain ⟨l', hread⟩ := readFields_shifted sampleDraws hreading rfl
    (hpauses ▸ List.mem_singleton_self 5)
    (fun i hi => List.mem_singleton.mp (hpauses ▸ hi))
  refine ⟨w, _, [.data w₁, .pending, .data w₂], l', hw, hend, hwire, by decide, ?_⟩
  unfold readRequest
  rw [await_bind, hread]
  rfl

end RustCrash.Snell
