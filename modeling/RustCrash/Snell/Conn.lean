import RustCrash.Lib.PollIo
import RustCrash.Snell.FrameReads

/-
  `Conn`: the framing of one end over its transport. `poll_fill` reads until a chunk is
  decrypted, or a zero chunk, or the transport ends.

  Two new connections with one PSK understand each other: whatever one of them frames, and
  however it is cut on the way, the other decrypts the same payloads, with a zero chunk where an
  empty payload was, and opens each block that was sealed once (`peers_roundtrip`).
-/

namespace RustCrash.Snell

open Lib Proto

structure Conn where
  reader : Reader
  writer : Writer
  rbuf : Bytes
  out : Bytes
  pendingZero : Bool

def V3Conn.new (psk : Bytes) (kind : AeadKind) : Conn :=
  ⟨.v3 ⟨psk, kind, none, .len⟩, .v3 ⟨psk, kind, none⟩, [], [], false⟩

def V4Conn.new (argon2id : Bytes → Bytes → ByteVec 32) (psk : Bytes) (salt : ByteVec 16)
    (delta : Fin 0x100) : Result Conn := do
  let writer ← V4Writer.new argon2id psk salt delta
  return ⟨.v4 ⟨psk, none, .header⟩, .v4 writer, [], [], false⟩

/-- `io_invalid`. -/
def ioInvalid (e : Error) : IoError := ⟨.invalidData, e.display⟩

/-- What a poll leaves of the connection and of what the transport does. -/
structure Outcome (α : Type) where
  conn : Conn
  script : List Arrival
  res : Poll (IoResult α)

/-- Progress, or the end. -/
abbrev Fill := Outcome Bool

namespace Conn

section

variable (argon2id : Bytes → Bytes → ByteVec 32)

def tryParse (c : Conn) : Conn × Result Bool :=
  match (framing argon2id).pull c.reader c.rbuf with
  | (r, rest, .error e) => ({ c with reader := r, rbuf := rest }, .error e)
  | (r, rest, .ok (.payload p :: _)) =>
    ({ c with reader := r, rbuf := rest, out := c.out ++ p }, .ok true)
  | (r, rest, .ok (.zero :: _)) =>
    ({ c with reader := r, rbuf := rest, pendingZero := true }, .ok false)
  | (r, rest, .ok []) => ({ c with reader := r, rbuf := rest }, .ok false)

/-- After `try_parse`: the end of a fill, unless it `waits` for the transport. -/
def settle (script : List Arrival) (waits : Conn → Fill) : Conn × Result Bool → Fill
  | (c, .error e) => ⟨c, script, .ready (.error (ioInvalid e))⟩
  | (c, .ok true) => ⟨c, script, .ready (.ok true)⟩
  | (c, .ok false) => if c.pendingZero then ⟨c, script, .ready (.ok false)⟩ else waits c

def pollFill : List Arrival → Conn → Fill
  | [], c => settle [] (fun c => ⟨c, [], .pending⟩) (c.tryParse argon2id)
  | .pending :: script, c =>
    settle (.pending :: script) (fun c => ⟨c, script, .pending⟩) (c.tryParse argon2id)
  | .data bs :: script, c =>
    settle (.data bs :: script)
      (fun c =>
        if bs = [] then ⟨c, script, .ready (.ok false)⟩
        else pollFill script { c with rbuf := c.rbuf ++ bs })
      (c.tryParse argon2id)

/-- `reset_zero`. -/
def resetZero (c : Conn) : Conn := { c with pendingZero := false }

/-- What a caller of `poll_fill` takes: the chunk, or the zero chunk, which it clears. -/
def taken (f : Fill) : IoResult (Conn × List Event) :=
  match f.res with
  | .pending => .ok (f.conn, [])
  | .ready (.error e) => .error e
  | .ready (.ok true) => .ok ({ f.conn with out := [] }, [.payload f.conn.out])
  | .ready (.ok false) =>
    if f.conn.pendingZero then .ok (f.conn.resetZero, [.zero]) else .ok (f.conn, [])

/-- Fills, each of which is taken up. -/
def recv : Nat → List Arrival → Conn → IoResult (Conn × List Event)
  | 0, _, c => .ok (c, [])
  | n + 1, script, c => do
    let f := c.pollFill argon2id script
    let first ← taken f
    let rest ← recv n f.script first.1
    return (rest.1, first.2 ++ rest.2)

end

variable {argon2id : Bytes → Bytes → ByteVec 32}

/-! ## One fill -/

/-- A step of either framing gives one event at most. -/
theorem step_single {r t : Reader} {piece : Bytes} {out : List Event}
    (h : (framing argon2id).step r piece = .ok t out) : out.length ≤ 1 := by
  have hmap : ∀ {S T : Type} {x : Step S} {f : S → T} {t : T},
      x.map f = .ok t out → ∃ s, x = .ok s out := by
    intro S T x f t hx
    cases x with
    | ok s o =>
      cases hx
      exact ⟨s, rfl⟩
    | failed s kept e => cases hx
  cases r with
  | v3 r =>
    obtain ⟨s, hs⟩ := hmap h
    unfold V3Reader.step V3Reader.takeSalt V3Reader.takeLen V3Reader.takePayload at hs
    grind
  | v4 r =>
    obtain ⟨s, hs⟩ := hmap h
    unfold V4Reader.step V4Reader.takeSalt V4Reader.takeHeader V4Reader.takeBody at hs
    grind

/-- What a fill on the beginning of a wire leaves: of what the transport does it uses up `used`,
    and of the bytes it then has it reads `seen`. -/
inductive Fills (argon2id : Bytes → Bytes → ByteVec 32) (c : Conn) (script : List Arrival)
    (later : Bytes) (u : Reader) : List Event → Fill → Prop
  | chunk {t : Reader} {rest seen p : Bytes} (used : List Arrival) {script' : List Arrival} {left : List Event}
      (hscript : script = used ++ script') (hdata : .pending ∉ used)
      (hbytes : c.rbuf ++ arrived used = seen ++ rest)
      (hseen : (framing argon2id).Reads c.reader seen [.payload p] t)
      (hreads : (framing argon2id).Reads t (rest ++ (arrived script' ++ later)) left u) :
      Fills argon2id c script later u (.payload p :: left)
        ⟨{ c with reader := t, rbuf := rest, out := c.out ++ p }, script', .ready (.ok true)⟩
  | zero {t : Reader} {rest seen : Bytes} (used : List Arrival) {script' : List Arrival} {left : List Event}
      (hscript : script = used ++ script') (hdata : .pending ∉ used)
      (hbytes : c.rbuf ++ arrived used = seen ++ rest)
      (hseen : (framing argon2id).Reads c.reader seen [.zero] t)
      (hreads : (framing argon2id).Reads t (rest ++ (arrived script' ++ later)) left u) :
      Fills argon2id c script later u (.zero :: left)
        ⟨{ c with reader := t, rbuf := rest, pendingZero := true }, script', .ready (.ok false)⟩
  | waits {t : Reader} {rest seen : Bytes} (used : List Arrival) {last script' : List Arrival}
      {outs : List Event}
      (hscript : script = used ++ last ++ script') (hdata : .pending ∉ used)
      (hlast : last = [.pending] ∨ last = [] ∧ script' = []) (hbytes : c.rbuf ++ arrived used = seen ++ rest)
      (hseen : (framing argon2id).Reads c.reader seen [] t)
      (hreads : (framing argon2id).Reads t (rest ++ (arrived script' ++ later)) outs u)
      (hwaits : (framing argon2id).Waits t rest) :
      Fills argon2id c script later u outs
        ⟨{ c with reader := t, rbuf := rest }, script', .pending⟩

variable {c : Conn} {script : List Arrival} {outs : List Event}

/-- The reading goes on with the next bytes. -/
theorem Fills.data {t u : Reader} {rest seen later bs : Bytes} {f : Fill}
    (hbytes : c.rbuf = seen ++ rest) (hseen : (framing argon2id).Reads c.reader seen [] t)
    (h : Fills argon2id { c with reader := t, rbuf := rest ++ bs } script later u outs f) :
    Fills argon2id c (.data bs :: script) later u outs f := by
  have happend : ∀ {used seen' rest' : Bytes}, rest ++ bs ++ used = seen' ++ rest' →
      c.rbuf ++ (bs ++ used) = seen ++ seen' ++ rest' := by
    intro used seen' rest' heq
    rw [hbytes, List.append_assoc, ← List.append_assoc rest, heq, List.append_assoc]
  have hdata' : ∀ {used : List Arrival}, .pending ∉ used → .pending ∉ Arrival.data bs :: used :=
    fun h => List.not_mem_cons_of_ne_of_not_mem nofun h
  cases h with
  | chunk used hscript hdata hbytes' hseen' hreads =>
    exact .chunk (.data bs :: used) (congrArg _ hscript) (hdata' hdata) (happend hbytes')
      (hseen.trans hseen') hreads
  | zero used hscript hdata hbytes' hseen' hreads =>
    exact .zero (.data bs :: used) (congrArg _ hscript) (hdata' hdata) (happend hbytes')
      (hseen.trans hseen') hreads
  | waits used hscript hdata hlast hbytes' hseen' hreads hwaits =>
    exact .waits (.data bs :: used) (congrArg _ hscript) (hdata' hdata) hlast
      (happend hbytes') (hseen.trans hseen') hreads hwaits

theorem settle_reads {u : Reader} {later : Bytes} {waits : Conn → Fill} (hz : c.pendingZero = false)
    (h : (framing argon2id).Reads c.reader (c.rbuf ++ (arrived script ++ later)) outs u)
    (hwaits : ∀ t rest seen, c.rbuf = seen ++ rest →
      (framing argon2id).Reads c.reader seen [] t →
      (framing argon2id).Reads t (rest ++ (arrived script ++ later)) outs u →
      (framing argon2id).Waits t rest →
      Fills argon2id c script later u outs (waits { c with reader := t, rbuf := rest })) :
    Fills argon2id c script later u outs (settle script waits (c.tryParse argon2id)) := by
  obtain ⟨t, rest, out, left, seen, hpull, rfl, hbuf, hseen, hreads, hwait⟩ :=
    h.pull (framing_rests argon2id u)
  have hsingle : out.length ≤ 1 :=
    Staged.pull_out (P := fun out => out.length ≤ 1) (Nat.zero_le _) step_single hpull
  have hbytes : c.rbuf ++ arrived [] = seen ++ rest := by
    rw [arrived_nil, List.append_nil, hbuf]
  unfold tryParse
  rw [hpull]
  match out, hsingle with
  | [], _ =>
    have hopen : ¬ c.pendingZero = true := by
      rw [hz]
      exact Bool.false_ne_true
    unfold settle
    dsimp only
    rw [if_neg hopen]
    exact hwaits t rest seen hbuf hseen hreads (hwait rfl)
  | [.payload p], _ => exact .chunk [] rfl List.not_mem_nil hbytes hseen hreads
  | [.zero], _ =>
    unfold settle
    dsimp only
    rw [if_pos rfl]
    exact .zero [] rfl List.not_mem_nil hbytes hseen hreads

/-- A fill on the beginning of a wire never fails, and what is left of the wire still reads. -/
theorem pollFill_reads {u : Reader} {later : Bytes} (hz : c.pendingZero = false)
    (h : (framing argon2id).Reads c.reader (c.rbuf ++ (arrived script ++ later)) outs u)
    (hend : Endless script) :
    Fills argon2id c script later u outs (c.pollFill argon2id script) := by
  induction script generalizing c with
  | nil =>
    refine settle_reads hz h fun t rest seen hbuf hseen hreads hwait => ?_
    exact .waits [] rfl List.not_mem_nil (.inr ⟨rfl, rfl⟩) (hbuf ▸ List.append_nil _)
      hseen hreads hwait
  | cons a script ih =>
    cases a with
    | pending =>
      refine settle_reads hz h fun t rest seen hbuf hseen hreads hwait => ?_
      exact .waits [] rfl List.not_mem_nil (.inl rfl) (hbuf ▸ List.append_nil _)
        hseen hreads hwait
    | data bs =>
      have hbs : bs ≠ [] := by
        rintro rfl
        exact hend List.mem_cons_self
      refine settle_reads hz h fun t rest seen hbuf hseen hreads _ => ?_
      rw [if_neg hbs]
      rw [arrived_cons, Arrival.bytes, List.append_assoc, ← List.append_assoc] at hreads
      exact (ih (c := { c with reader := t, rbuf := rest ++ bs }) hz hreads
        fun hmem => hend (List.mem_cons_of_mem _ hmem)).data hbuf hseen

/-! ## All of the wire -/

/-- Nothing more comes. -/
theorem recv_done (hz : c.pendingZero = false) (n : Nat)
    (hwaits : (framing argon2id).Waits c.reader c.rbuf) : c.recv argon2id n [] = .ok (c, []) := by
  have hopen : ¬ c.pendingZero = true := by
    rw [hz]
    exact Bool.false_ne_true
  induction n with
  | zero => rfl
  | succ n ih =>
    have hfill : c.pollFill argon2id [] = ⟨c, [], .pending⟩ := by
      unfold pollFill tryParse
      rw [Staged.pull_waits hwaits]
      exact if_neg hopen
    unfold recv
    rw [hfill]
    dsimp only [taken]
    rw [bind_ok, ih]
    rfl

/-- Each fill takes an event or uses up some of what the transport does. -/
theorem recv_reads {u : Reader} {n : Nat} (hz : c.pendingZero = false) (hout : c.out = [])
    (h : (framing argon2id).Reads c.reader (c.rbuf ++ arrived script) outs u)
    (hend : Endless script) (hn : outs.length + script.length < n) :
    c.recv argon2id n script = .ok ({ c with reader := u, rbuf := [] }, outs) := by
  induction n generalizing c outs script with
  | zero => omega
  | succ n ih =>
    rw [← List.append_nil (arrived script)] at h
    have hfill := pollFill_reads hz h hend
    unfold recv
    dsimp only
    generalize c.pollFill argon2id script = f at hfill
    cases hfill with
    | @chunk t rest seen p used script' left hscript _ hbytes hseen hreads =>
      have hlen := congrArg List.length hscript
      rw [List.length_append] at hlen
      rw [List.length_cons] at hn
      rw [List.append_nil] at hreads
      have hrest := ih (c := { c with reader := t, rbuf := rest, out := [] }) hz rfl hreads
        (hend.of_append hscript) (by omega)
      dsimp only [taken]
      rw [hout, List.nil_append, bind_ok, hrest, bind_ok]
      rfl
    | @zero t rest seen used script' left hscript _ hbytes hseen hreads =>
      have hlen := congrArg List.length hscript
      rw [List.length_append] at hlen
      rw [List.length_cons] at hn
      rw [List.append_nil] at hreads
      have hrest := ih (c := { c with reader := t, rbuf := rest, pendingZero := false }) rfl hout
        hreads (hend.of_append hscript) (by omega)
      dsimp only [taken, resetZero]
      rw [if_pos rfl, bind_ok, hrest, bind_ok]
      rw [hz]
      rfl
    | @waits t rest seen used last script' outs hscript _ hlast hbytes hseen hreads hwaits =>
      dsimp only [taken]
      rw [bind_ok]
      rw [List.append_nil] at hreads
      rcases hlast with rfl | ⟨rfl, rfl⟩
      · have hlen := congrArg List.length hscript
        rw [List.length_append, List.length_append, List.length_singleton] at hlen
        rw [ih (c := { c with reader := t, rbuf := rest }) hz hout hreads
          (hend.of_append hscript) (by omega)]
        rfl
      · rw [arrived_nil, List.append_nil] at hreads
        obtain ⟨rfl, rfl, rfl⟩ := hreads.waits_done hwaits
        have hdone := recv_done (c := { c with reader := u, rbuf := [] }) hz n hwaits
        dsimp only
        rw [hdone]
        rfl

end Conn

/-! ## Both ends -/

/-- The blocks of a direction. -/
def Writer.blocks : Writer → List (UInt64 × Bytes)
  | v3 w => (w.writer.map SsCrypto.blocks).getD []
  | v4 w => w.crypto.blocks

def Reader.blocks : Reader → List (UInt64 × Bytes)
  | v3 r => (r.reader.map SsCrypto.blocks).getD []
  | v4 r => (r.reader.map SsCrypto.blocks).getD []

/-- Two new connections with one PSK. -/
inductive Peers (argon2id : Bytes → Bytes → ByteVec 32) : Conn → Conn → Prop
  | v3 (psk : Bytes) (kind : AeadKind) : Peers argon2id (V3Conn.new psk kind) (V3Conn.new psk kind)
  | v4 {psk : Bytes} {salt salt' : ByteVec 16} {delta delta' : Fin 0x100} {a b : Conn}
      (ha : V4Conn.new argon2id psk salt delta = .ok a)
      (hb : V4Conn.new argon2id psk salt' delta' = .ok b) : Peers argon2id a b

/-- The calls of `frame` on one end. -/
def frameAll (argon2id : Bytes → Bytes → ByteVec 32) :
    Writer → List (Draws × Bytes) → Result (Writer × Bytes)
  | w, [] => .ok (w, [])
  | w, (d, payload) :: calls => do
    let first ← w.frame argon2id d payload
    let rest ← frameAll argon2id first.1 calls
    return (rest.1, first.2 ++ rest.2)

/-- What the other end finds of all calls. -/
inductive FramedAll : List Bytes → List Event → Prop
  | nil : FramedAll [] []
  | cons {payload : Bytes} {payloads : List Bytes} {events rest : List Event}
      (h : Framed payload events) (hrest : FramedAll payloads rest) :
      FramedAll (payload :: payloads) (events ++ rest)

variable {argon2id : Bytes → Bytes → ByteVec 32}

theorem frameAll_reads {w : Writer} {r : Reader} (h : InStep argon2id w r)
    (calls : List (Draws × Bytes)) :
    ∃ w' wire events r', frameAll argon2id w calls = .ok (w', wire) ∧
      FramedAll (calls.map Prod.snd) events ∧ (framing argon2id).Reads r wire events r' ∧
      InStep argon2id w' r' := by
  induction calls generalizing w r with
  | nil => exact ⟨w, [], [], r, rfl, .nil, .done _, h⟩
  | cons call calls ih =>
    obtain ⟨w₁, wire₁, events₁, r₁, h₁, hframed₁, hreads₁, hstep₁⟩ := frame_reads h call.1 call.2
    obtain ⟨w₂, wire₂, events₂, r₂, h₂, hframed₂, hreads₂, hstep₂⟩ := ih hstep₁
    refine ⟨w₂, wire₁ ++ wire₂, events₁ ++ events₂, r₂, ?_, .cons hframed₁ hframed₂,
      hreads₁.trans hreads₂, hstep₂⟩
    rw [frameAll, h₁, bind_ok, h₂]
    rfl

theorem InStep.blocks_eq {w : Writer} {r : Reader} (h : InStep argon2id w r) :
    r.blocks = w.blocks := by
  cases h with
  | v3 psk kind c => rfl
  | @v4 w r h =>
    by_cases hsent : w.saltSent
    · unfold Reader.blocks
      dsimp only
      rw [h.sent hsent]
      rfl
    · obtain ⟨hnone, a, _, hnew⟩ := h.fresh hsent
      unfold Reader.blocks Writer.blocks
      dsimp only
      rw [hnone, hnew]
      rfl

/-- A new v4 connection. -/
theorem v4Conn_new_eq {psk : Bytes} {salt : ByteVec 16} {delta : Fin 0x100} {c : Conn}
    (h : V4Conn.new argon2id psk salt delta = .ok c) :
    ∃ a, snellAead argon2id .aes128Gcm psk salt.val = .ok a ∧
      c = ⟨.v4 ⟨psk, none, .header⟩, .v4 ⟨SsCrypto.new a, salt, false,
        v4InitialPaddingMin + UInt16.ofNat delta.val, 0, none⟩, [], [], false⟩ := by
  unfold V4Conn.new V4Writer.new at h
  obtain ⟨w, hw, hc⟩ := bind_eq_ok.mp h
  obtain ⟨a, ha, hw⟩ := bind_eq_ok.mp hw
  cases hw
  cases hc
  exact ⟨a, ha, rfl⟩

/-- New peers are in step, and the one that reads has read nothing. -/
theorem Peers.inStep {a b : Conn} (h : Peers argon2id a b) :
    InStep argon2id a.writer b.reader ∧ b.rbuf = [] ∧ b.out = [] ∧ b.pendingZero = false := by
  cases h with
  | v3 psk kind => exact ⟨.v3 psk kind none, rfl, rfl, rfl⟩
  | @v4 psk salt salt' delta delta' a b ha hb =>
    obtain ⟨x, hx, rfl⟩ := v4Conn_new_eq ha
    obtain ⟨y, _, rfl⟩ := v4Conn_new_eq hb
    have hpad : (v4InitialPaddingMin + UInt16.ofNat delta.val).toNat ≤ maxLength := by
      have hdelta := delta.isLt
      have hlt : delta.val < UInt16.size := Nat.lt_trans hdelta (by decide)
      rw [UInt16.toNat_add, UInt16.toNat_ofNat_of_lt' hlt]
      show (0x100 + delta.val) % 2 ^ 16 ≤ 0x3FFF
      omega
    exact ⟨.v4 ⟨rfl, nofun, fun _ => ⟨rfl, x, hx, rfl⟩, hpad⟩, rfl, rfl, rfl⟩

/-- Framing never fails, and however the wire is cut the other end reads the payloads, each in
    pieces of at most `maxLength` bytes, and the zero chunks, and opens every block once. -/
theorem peers_roundtrip {a b : Conn} (h : Peers argon2id a b) (calls : List (Draws × Bytes)) :
    ∃ w wire, frameAll argon2id a.writer calls = .ok (w, wire) ∧
      ∀ script, Endless script → arrived script = wire →
        ∃ events r, FramedAll (calls.map Prod.snd) events ∧ r.blocks = w.blocks ∧
          ∃ n, ∀ k, n ≤ k →
            b.recv argon2id k script = .ok ({ b with reader := r }, events) := by
  obtain ⟨hstep, hrbuf, hout, hzero⟩ := h.inStep
  obtain ⟨w, wire, events, r, hw, hframed, hreads, hstep'⟩ := frameAll_reads hstep calls
  refine ⟨w, wire, hw, fun script hend hscript => ⟨events, r, hframed, hstep'.blocks_eq,
    events.length + script.length + 1, fun k hk => ?_⟩⟩
  have hrecv := Conn.recv_reads (n := k) hzero hout
    (by rw [hrbuf, List.nil_append, hscript]; exact hreads) hend (by omega)
  rw [hrecv, hrbuf]

/-- What the hash gives for the PSK `[1]` and a salt of zeros. -/
def sampleHash : ByteVec 32 :=
  ⟨[1, 45, 105, 202, 86, 217, 141, 29, 255, 32, 169, 34, 249, 213, 170, 45, 126, 226, 85, 72, 63,
    134, 82, 74, 131, 13, 179, 97, 230, 82, 242, 34], rfl⟩

/-- Two v1 connections that carry three bytes and a half-close, read in two parts. -/
theorem peers_roundtrip_sample :
    ∃ w wire,
      frameAll (fun _ _ => sampleHash) (V3Conn.new [1] .chacha20Poly1305).writer
        [(⟨ByteVec.zero 16, fun _ => ⟨0, fun _ => 0⟩⟩, [1, 2, 3]),
          (⟨ByteVec.zero 16, fun _ => ⟨0, fun _ => 0⟩⟩, [])] = .ok (w, wire) ∧
      ∀ script, Endless script → arrived script = wire →
        ∃ events r, FramedAll [[1, 2, 3], []] events ∧ r.blocks = w.blocks ∧
          ∃ n, ∀ k, n ≤ k →
            (V3Conn.new [1] .chacha20Poly1305).recv (fun _ _ => sampleHash) k script =
              .ok ({ V3Conn.new [1] .chacha20Poly1305 with reader := r }, events) :=
  peers_roundtrip (.v3 [1] .chacha20Poly1305) _

end RustCrash.Snell
