import RustCrash.Proto.Addr
import RustCrash.Snell.Conn

/-
  Where the reads of a server stand in a wire of frames.

  `Reading` says that a connection is somewhere in the next of its frames, and what is still to
  come. A fill goes to the end of that frame, or it stops at a `Pending` before that
  (`Reading.fill`). What is left for a reader is what it has not taken of the last frame, and the
  plaintext of the frames to come.
-/

/-! ## The request header

The server's request header: `read_exact_dec`, `read_request`, and the reads of the relay that
takes the connection over.

A future is polled again after each `Pending`. `read_exact_dec` counts what it has filled in a
variable of the poll, so bytes that it has taken out of the connection are gone when the poll
returns `Pending` (`pollExact`). -/

namespace RustCrash.Snell

open Lib Lib.Net Proto Routing

def protocolVersion : UInt8 := 0x01
def cmdConnect : UInt8 := 0x01
def cmdConnectV2 : UInt8 := 0x05
def cmdUdp : UInt8 := 0x06
def cmdTunnel : UInt8 := 0x00
def cmdError : UInt8 := 0x02
def cmdPong : UInt8 := 0x01
def cmdPing : UInt8 := 0x00

/-! ## Reading exactly -/

namespace Conn

variable (argon2id : Bytes → Bytes → ByteVec 32)

/-- The loop of a poll of `read_exact_dec`. Each chunk takes a byte of the wire at least. -/
def pollExactFor : Nat → Nat → Bytes → List Arrival → Conn → Outcome Bytes
  | 0, _, _, script, c => ⟨c, script, .pending⟩
  | k + 1, n, filled, script, c =>
    let filled' := filled ++ c.out.take (n - filled.length)
    let c := { c with out := c.out.drop (n - filled.length) }
    if filled'.length = n then ⟨c, script, .ready (.ok filled')⟩
    else
      let f := c.pollFill argon2id script
      match f.res with
      | .pending => ⟨f.conn, f.script, .pending⟩
      | .ready (.error e) => ⟨f.conn, f.script, .ready (.error e)⟩
      | .ready (.ok true) => pollExactFor k n filled' f.script f.conn
      | .ready (.ok false) =>
        ⟨f.conn, f.script, .ready (.error
          ⟨.unexpectedEof, "snell: connection closed inside the request header"⟩)⟩

/-- One poll of `read_exact_dec`: `filled` starts at nothing. -/
def pollExact (n : Nat) (script : List Arrival) (c : Conn) : Outcome Bytes :=
  pollExactFor argon2id ((c.rbuf ++ arrived script).length + 1) n [] script c

end Conn

/-- A connection that a future of the server holds: what its transport does, and what was sent. -/
structure Link where
  conn : Conn
  script : List Arrival
  sent : Bytes

inductive Stop where
  /-- The transport brings nothing more. -/
  | waiting
  | failed (e : Error)
  deriving DecidableEq

abbrev Await := StateT Link (Except Stop)

theorem await_bind {α β : Type} (x : Await α) (f : α → Await β) (l : Link) :
    (x >>= f) l = x l >>= fun r => f r.1 r.2 := rfl

def Await.fail {α : Type} (e : Error) : Await α := fun _ => .error (.failed e)

section Server

variable (argon2id : Bytes → Bytes → ByteVec 32)

/-- Polls until it is ready. -/
def awaitExactFor : Nat → Nat → Await Bytes
  | 0, _, _ => .error .waiting
  | k + 1, n, l =>
    let f := l.conn.pollExact argon2id n l.script
    match f.res with
    | .pending => awaitExactFor k n { l with conn := f.conn, script := f.script }
    | .ready (.error e) => .error (.failed (.io e.msg))
    | .ready (.ok bs) => .ok (bs, { l with conn := f.conn, script := f.script })

def readExactDec (n : Nat) : Await Bytes := fun l =>
  awaitExactFor argon2id (l.script.length + 1) n l

/-- `write_framed`; the transport takes all of it. -/
def writeFramed (d : Draws) (payload : Bytes) : Await Unit := fun l =>
  match l.conn.writer.frame argon2id d payload with
  | .error e => .error (.failed e)
  | .ok (w, wire) =>
    .ok ((), { l with conn := { l.conn with writer := w }, sent := l.sent ++ wire })

/-- The fields of a header, as their bytes. -/
inductive Fields where
  | ping
  | connect (id host : Bytes) (port : UInt16) (reuse : Bool)
  | udp (id : Bytes)
  deriving DecidableEq

inductive SnellServerRequest where
  | ping
  | connect (target : NetAddr) (clientId : Str) (reuse : Bool)
  | udp (clientId : Str)
  deriving DecidableEq

/-- `metadata()`: an address if the text is one. -/
def targetOf (host : Str) (port : UInt16) : NetAddr :=
  match parseIpAddr host with
  | some a => .ip a port
  | none => ⟨.domain host, port⟩

def Fields.request : Fields → SnellServerRequest
  | ping => .ping
  | connect id host port reuse => .connect (targetOf (fromUtf8Lossy host) port) (fromUtf8Lossy id) reuse
  | udp id => .udp (fromUtf8Lossy id)

def readByte : Await UInt8 := do
  let b ← readExactDec argon2id 1
  return b.getD 0 0

/-- `handleTCP`. -/
def readConnect (id : Bytes) (reuse : Bool) : Await Fields := do
  let hostLen ← readByte argon2id
  if hostLen = 0 then Await.fail (.protocol "snell connect host is empty")
  else do
    let host ← readExactDec argon2id hostLen.toNat
    let port ← readExactDec argon2id 2
    return .connect id host (ofBE16 port) reuse

/-- After the version and the command of a request that is no ping. -/
def readCommand (command : UInt8) : Await Fields := do
  let idLen ← readByte argon2id
  let id ← readExactDec argon2id idLen.toNat
  if command = cmdConnect ∨ command = cmdConnectV2 then
    readConnect argon2id id (command = cmdConnectV2)
  else if command = cmdUdp then return .udp id
  else Await.fail (.protocol s!"snell unknown command: {command.toNat}")

/-- A ping is answered. -/
def readFields (d : Draws) : Await Fields := do
  let version ← readByte argon2id
  if version ≠ protocolVersion then
    Await.fail (.protocol s!"snell invalid protocol version: {version.toNat}")
  else do
    let command ← readByte argon2id
    if command = cmdPing then do
      writeFramed argon2id d [cmdPong]
      return .ping
    else readCommand argon2id command

def readRequest (d : Draws) : Await SnellServerRequest := do
  let fields ← readFields argon2id d
  return fields.request

/-! ## The relay -/

namespace SnellServerTcp

def pollReadFor : Nat → Nat → List Arrival → Conn → Outcome Bytes
  | 0, _, script, c => ⟨c, script, .pending⟩
  | k + 1, cap, script, c =>
    if cap = 0 then ⟨c, script, .ready (.ok [])⟩
    else if c.out ≠ [] then ⟨{ c with out := c.out.drop cap }, script, .ready (.ok (c.out.take cap))⟩
    else
      let f := c.pollFill argon2id script
      match f.res with
      | .pending => ⟨f.conn, f.script, .pending⟩
      | .ready (.error e) => ⟨f.conn, f.script, .ready (.error e)⟩
      | .ready (.ok true) => pollReadFor k cap f.script f.conn
      | .ready (.ok false) => ⟨f.conn, f.script, .ready (.ok [])⟩

/-- `poll_read` into `cap` bytes; the end is a read of nothing. -/
def pollRead (cap : Nat) (script : List Arrival) (c : Conn) : Outcome Bytes :=
  pollReadFor argon2id ((c.rbuf ++ arrived script).length + 1) cap script c

end SnellServerTcp

/-- The bytes of a poll. -/
def Outcome.filled : Outcome Bytes → Bytes
  | ⟨_, _, .ready (.ok bs)⟩ => bs
  | _ => []

/-- A read of the relay into `caps i` bytes. -/
def relayPoll (caps : Nat → Nat) (i : Nat) (s : Conn × List Arrival) :
    (Conn × List Arrival) × Bytes :=
  let r := SnellServerTcp.pollRead argon2id (caps i) s.2 s.1
  ((r.conn, r.script), r.filled)

/-- What the relay gets in `n` reads. -/
def relayed (caps : Nat → Nat) (n : Nat) (script : List Arrival) (c : Conn) : Bytes :=
  (outputs (relayPoll argon2id caps) n 0 (c, script)).flatten

end Server

end RustCrash.Snell

/-! ## Where the reads stand -/

namespace RustCrash.Snell

open Lib Proto

/-- A frame: its plaintext and its wire. -/
abbrev Sealed := Bytes × Bytes

def plainOf (frames : List Sealed) : Bytes := (frames.map Prod.fst).flatten
def wireOf (frames : List Sealed) : Bytes := frames.flatMap Prod.snd

@[simp] theorem plainOf_cons (plain wire : Bytes) (frames : List Sealed) :
    plainOf ((plain, wire) :: frames) = plain ++ plainOf frames := List.flatten_cons

@[simp] theorem wireOf_cons (plain wire : Bytes) (frames : List Sealed) :
    wireOf ((plain, wire) :: frames) = wire ++ wireOf frames := List.flatMap_cons

@[simp] theorem plainOf_nil : plainOf [] = [] := rfl

@[simp] theorem wireOf_nil : wireOf [] = [] := rfl

/-- Frames that a reader takes one after another. -/
inductive Framings (argon2id : Bytes → Bytes → ByteVec 32) :
    Reader → List Sealed → Reader → Prop
  | nil (r : Reader) : Framings argon2id r [] r
  | cons {r s u : Reader} {plain wire : Bytes} {frames : List Sealed} (hne : plain ≠ [])
      (h : (framing argon2id).Frame r wire (.payload plain) s)
      (hrest : Framings argon2id s frames u) : Framings argon2id r ((plain, wire) :: frames) u

/-- The plaintext of the frames that are whole in the first `n` bytes of their wire. -/
def landed : List Sealed → Nat → Nat
  | [], _ => 0
  | f :: frames, n => if n < f.2.length then 0 else f.1.length + landed frames (n - f.2.length)

variable {argon2id : Bytes → Bytes → ByteVec 32}

theorem Framings.reads {r u : Reader} {frames : List Sealed} (h : Framings argon2id r frames u) :
    (framing argon2id).Reads r (wireOf frames) (frames.map fun f => .payload f.1) u := by
  induction h with
  | nil r => exact .done r
  | cons _ h _ ih =>
    rw [wireOf_cons]
    exact h.reads.trans ih

/-- The connection has read the beginning of the next frame, and `todo` is to come. -/
structure Reading (argon2id : Bytes → Bytes → ByteVec 32) (u : Reader) (todo : List Sealed)
    (c : Conn) (script : List Arrival) : Prop where
  zero : c.pendingZero = false
  endless : Endless script
  place : ∃ t seen, Framings argon2id t todo u ∧ (framing argon2id).Reads t seen [] c.reader ∧
    wireOf todo = seen ++ (c.rbuf ++ arrived script)

/-- What a fill does there. -/
inductive Filled (argon2id : Bytes → Bytes → ByteVec 32) (u : Reader) (c : Conn)
    (script : List Arrival) : List Sealed → Fill → Prop
  | chunk {plain wire : Bytes} {todo : List Sealed} {c' : Conn} (used : List Arrival)
      {script' : List Arrival} (hscript : script = used ++ script') (hdata : .pending ∉ used)
      (hne : plain ≠ []) (hout : c'.out = c.out ++ plain) (hreading : Reading argon2id u todo c' script')
      (hless : (c'.rbuf ++ arrived script').length < (c.rbuf ++ arrived script).length) :
      Filled argon2id u c script ((plain, wire) :: todo) ⟨c', script', .ready (.ok true)⟩
  | waits {todo : List Sealed} {c' : Conn} (used last : List Arrival) {script' : List Arrival}
      (hscript : script = used ++ last ++ script') (hdata : .pending ∉ used)
      (hlast : last = [.pending] ∨ last = [] ∧ script' = []) (hout : c'.out = c.out)
      (hreading : Reading argon2id u todo c' script')
      (hlanded : landed todo ((wireOf todo).length - (arrived script').length) = 0)
      (hall : script' = [] → todo = []) :
      Filled argon2id u c script todo ⟨c', script', .pending⟩

/-- Whatever a reader gives, it takes a byte for it. -/
theorem seen_ne_nil {r t : Reader} {seen : Bytes} {e : Event} {outs : List Event}
    (h : (framing argon2id).Reads r seen (e :: outs) t) : seen ≠ [] := by
  generalize hout : e :: outs = all at h
  cases h with
  | done => cases hout
  | @step _ _ _ piece rest _ _ hneed _ _ =>
    have hpos := r.need_pos
    rw [show (framing argon2id).need r = some r.need from rfl, Option.some.injEq] at hneed
    apply List.append_ne_nil_of_left_ne_nil
    apply List.ne_nil_of_length_pos
    omega

variable {u : Reader} {todo : List Sealed} {script : List Arrival}

theorem Reading.fill {c : Conn} (h : Reading argon2id u todo c script) :
    Filled argon2id u c script todo (c.pollFill argon2id script) := by
  obtain ⟨t, seen, hframes, hseen, hwire⟩ := h.place
  obtain ⟨outs, houts, hleft⟩ := hseen.rest (hwire ▸ hframes.reads) (framing_rests argon2id u)
  rw [List.nil_append] at houts
  rw [← List.append_nil (arrived script)] at hleft
  have hfill := Conn.pollFill_reads h.zero hleft h.endless
  generalize c.pollFill argon2id script = f at hfill
  cases hfill with
  | @chunk t' rest seen' p used script' left hscript hdata hbytes hseen' hreads =>
    have hbuf : c.rbuf ++ arrived script = seen' ++ rest ++ arrived script' := by
      rw [hscript, arrived_append, ← List.append_assoc, hbytes]
    cases hframes with
    | nil => cases houts
    | @cons _ s _ plain wire todo hne hframe hrest =>
      rw [wireOf_cons, hbuf, List.append_assoc seen' rest, ← List.append_assoc seen] at hwire
      have hpre : seen ++ seen' <+: wire ++ wireOf todo := by
        rw [hwire]
        exact List.prefix_append _ _
      obtain ⟨seen₂, hsplit, hp, hread₂⟩ := hframe.first (hseen.trans hseen') hpre
      obtain rfl : p = plain := by
        cases hp
        rfl
      rw [hsplit, List.append_assoc] at hwire
      have hpos := List.length_pos_of_ne_nil (seen_ne_nil hseen')
      have hless : (rest ++ arrived script').length < (c.rbuf ++ arrived script).length := by
        have hlen := congrArg List.length hbuf
        simp only [List.length_append] at hlen ⊢
        omega
      exact .chunk used hscript hdata hne rfl ⟨h.zero, h.endless.of_append hscript, s, seen₂, hrest,
        hread₂, List.append_cancel_left hwire⟩ hless
  | @zero t' rest seen' used script' left hscript hdata hbytes hseen' hreads =>
    exfalso
    cases todo with
    | nil => cases houts
    | cons f todo => cases houts
  | @waits t' rest seen' used last script' outs hscript hdata hlast hbytes hseen' hreads hwaits =>
    have hquiet : arrived last = [] := by
      rcases hlast with rfl | ⟨rfl, -⟩ <;> rfl
    have hbuf : c.rbuf ++ arrived script = seen' ++ rest ++ arrived script' := by
      rw [hscript, arrived_append, arrived_append, hquiet, List.append_nil, ← List.append_assoc,
        hbytes]
    rw [hbuf, List.append_assoc seen' rest, ← List.append_assoc seen] at hwire
    have hread := hseen.trans hseen'
    have hreading : Reading argon2id u todo { c with reader := t', rbuf := rest } script' :=
      ⟨h.zero, h.endless.of_append hscript, t, seen ++ seen', hframes, hread, hwire⟩
    have hhere : (wireOf todo).length - (arrived script').length = (seen ++ seen' ++ rest).length := by
      rw [hwire, ← List.append_assoc, List.length_append, Nat.add_sub_cancel]
    refine .waits used last hscript hdata hlast rfl hreading ?_ ?_
    · cases hframes with
      | nil => rfl
      | @cons _ s _ plain wire todo hne hframe hrest =>
        rw [landed, hhere]
        refine if_pos (Nat.lt_of_not_le fun hle => ?_)
        rw [wireOf_cons] at hwire
        have hpre : wire <+: seen ++ seen' ++ rest := by
          refine List.prefix_of_prefix_length_le (List.prefix_append wire (wireOf todo)) ?_ hle
          rw [hwire, ← List.append_assoc]
          exact List.prefix_append _ _
        have hnone := hframe.reads.ahead hread hwaits hpre
        exact absurd (List.prefix_nil.mp hnone) (List.cons_ne_nil _ _)
    · rintro rfl
      rw [arrived_nil, List.append_nil, List.append_nil] at hreads
      obtain ⟨-, hnone, -⟩ := hreads.waits_done hwaits
      rw [hnone, List.map_eq_nil_iff] at houts
      exact houts

/-! ## Pauses -/

/-- For each `Pending` of the transport, how many of the bytes that are left have been decrypted
    when it comes; `out` of them are there at once. -/
def pauses (todo : List Sealed) (out : Nat) : List Arrival → List Nat
  | [] => []
  | .data _ :: script => pauses todo out script
  | .pending :: script =>
    (out + landed todo ((wireOf todo).length - (arrived script).length)) :: pauses todo out script

theorem pauses_data {out : Nat} {used : List Arrival} (script : List Arrival) (h : .pending ∉ used) :
    pauses todo out (used ++ script) = pauses todo out script := by
  induction used with
  | nil => rfl
  | cons a used ih =>
    cases a with
    | pending => exact absurd List.mem_cons_self h
    | data bs => exact ih fun hmem => h (List.mem_cons_of_mem _ hmem)

/-- Bytes that were there at once are taken. -/
theorem pauses_take (todo : List Sealed) {out k : Nat} (hk : k ≤ out) (script : List Arrival) :
    pauses todo out script = (pauses todo (out - k) script).map (k + ·) := by
  induction script with
  | nil => rfl
  | cons a script ih =>
    cases a with
    | data bs => exact ih
    | pending =>
      rw [pauses, pauses, List.map_cons, ih, ← Nat.add_assoc, Nat.add_sub_cancel' hk]

/-- A frame lands. -/
theorem pauses_chunk {plain wire : Bytes} (out : Nat)
    (hfits : (arrived script).length ≤ (wireOf todo).length) :
    pauses ((plain, wire) :: todo) out script = pauses todo (out + plain.length) script := by
  induction script with
  | nil => rfl
  | cons a script ih =>
    have hsuffix : (arrived script).length ≤ (wireOf todo).length := by
      rw [arrived_cons, List.length_append] at hfits
      omega
    cases a with
    | data bs => exact ih hsuffix
    | pending =>
      have hlen : (wireOf ((plain, wire) :: todo)).length - (arrived script).length =
          wire.length + ((wireOf todo).length - (arrived script).length) := by
        rw [wireOf_cons, List.length_append]
        omega
      rw [pauses, pauses, ih hsuffix, hlen, landed, if_neg (by dsimp only; omega),
        Nat.add_sub_cancel_left, ← Nat.add_assoc]

theorem Reading.fits {c : Conn} (h : Reading argon2id u todo c script) :
    (arrived script).length ≤ (wireOf todo).length := by
  obtain ⟨t, seen, _, _, hwire⟩ := h.place
  rw [hwire, List.length_append, List.length_append]
  omega

/-! ## Reading exactly -/

/-- What a poll of `read_exact_dec` does: it has the bytes, or it has lost what it had. -/
inductive Exact (argon2id : Bytes → Bytes → ByteVec 32) (u : Reader) (todo : List Sealed)
    (c : Conn) (script : List Arrival) (filled : Bytes) (n : Nat) : Outcome Bytes → Prop
  | done {todo' : List Sealed} {c' : Conn} {script' : List Arrival} (bs : Bytes)
      (hlen : filled.length + bs.length = n)
      (hleft : c.out ++ plainOf todo = bs ++ (c'.out ++ plainOf todo'))
      (hreading : Reading argon2id u todo' c' script')
      (hpauses : pauses todo c.out.length script =
        (pauses todo' c'.out.length script').map (bs.length + ·)) :
      Exact argon2id u todo c script filled n ⟨c', script', .ready (.ok (filled ++ bs))⟩
  | lost {todo' : List Sealed} {c' : Conn} {script' : List Arrival} (bs : Bytes)
      (hlen : filled.length + bs.length < n)
      (hleft : c.out ++ plainOf todo = bs ++ (c'.out ++ plainOf todo'))
      (hout : c'.out = []) (hreading : Reading argon2id u todo' c' script')
      (hpauses : script'.length < script.length ∧ pauses todo c.out.length script =
          bs.length :: (pauses todo' c'.out.length script').map (bs.length + ·) ∨
        script' = [] ∧ todo' = [] ∧ pauses todo c.out.length script = []) :
      Exact argon2id u todo c script filled n ⟨c', script', .pending⟩

theorem pollExactFor_exact {k n : Nat} {c : Conn} {filled : Bytes}
    (h : Reading argon2id u todo c script) (hk : (c.rbuf ++ arrived script).length < k)
    (hfilled : filled.length ≤ n) :
    Exact argon2id u todo c script filled n (c.pollExactFor argon2id k n filled script) := by
  induction k generalizing todo c script filled with
  | zero => omega
  | succ k ih =>
    unfold Conn.pollExactFor
    dsimp only
    generalize hd : n - filled.length = d
    by_cases henough : d ≤ c.out.length
    · have hfull : (filled ++ c.out.take d).length = n := by
        rw [List.length_append, List.length_take, Nat.min_eq_left henough]
        omega
      rw [if_pos hfull]
      have htake : (c.out.take d).length = d := by
        rw [List.length_take, Nat.min_eq_left henough]
      have hdrained : Reading argon2id u todo { c with out := c.out.drop d } script :=
        ⟨h.zero, h.endless, h.place⟩
      refine .done (c.out.take d) ?_ ?_ hdrained ?_
      · rw [← List.length_append]
        exact hfull
      · rw [← List.append_assoc, List.take_append_drop]
      · rw [htake, List.length_drop]
        exact pauses_take todo henough script
    · have htake : c.out.take d = c.out := List.take_of_length_le (by omega)
      have hdrop : c.out.drop d = [] := List.drop_of_length_le (by omega)
      have hshort : ¬ (filled ++ c.out).length = n := by
        rw [List.length_append]
        omega
      rw [htake, hdrop, if_neg hshort]
      have hdrained : Reading argon2id u todo { c with out := [] } script :=
        ⟨h.zero, h.endless, h.place⟩
      have hpauses : pauses todo c.out.length script =
          (pauses todo 0 script).map (c.out.length + ·) := by
        have := pauses_take todo (Nat.le_refl c.out.length) script
        rwa [Nat.sub_self] at this
      have hfill := hdrained.fill
      generalize Conn.pollFill argon2id script { c with out := [] } = f at hfill
      cases hfill with
      | @chunk plain wire todo c' used script' hscript hdata hne hout hreading hless =>
        dsimp only at hout hless ⊢
        rw [List.nil_append] at hout
        have hrest := ih hreading (by omega : _ < k)
          (by rw [List.length_append]; omega : (filled ++ c.out).length ≤ n)
        have hstep : pauses ((plain, wire) :: todo) 0 script = pauses todo c'.out.length script' := by
          rw [hscript, pauses_data _ hdata, pauses_chunk 0 hreading.fits, hout, Nat.zero_add]
        have hsplit : c.out ++ plainOf ((plain, wire) :: todo) = c.out ++ (c'.out ++ plainOf todo) := by
          rw [plainOf_cons, hout]
        rw [hstep] at hpauses
        generalize c'.pollExactFor argon2id k n (filled ++ c.out) script' = r at hrest
        have hshift : ∀ (bs : Bytes) (js : List Nat),
            (js.map (bs.length + ·)).map (c.out.length + ·) = js.map ((c.out ++ bs).length + ·) := by
          intro bs js
          rw [List.map_map, List.length_append]
          refine List.map_congr_left fun j _ => ?_
          exact (Nat.add_assoc _ _ _).symm
        cases hrest with
        | done bs hlen hleft hreading' hpauses' =>
          rw [List.append_assoc]
          rw [List.length_append, Nat.add_assoc, ← List.length_append] at hlen
          refine .done (c.out ++ bs) hlen ?_ hreading' ?_
          · rw [hsplit, hleft, List.append_assoc]
          · rw [hpauses, hpauses', hshift]
        | lost bs hlen hleft hout' hreading' hpauses' =>
          rw [List.length_append, Nat.add_assoc, ← List.length_append] at hlen
          refine .lost (c.out ++ bs) hlen ?_ hout' hreading' ?_
          · rw [hsplit, hleft, List.append_assoc]
          · rcases hpauses' with ⟨hshorter, hpauses'⟩ | ⟨hnil, hall, hpauses'⟩
            · refine .inl ⟨?_, ?_⟩
              · rw [hscript, List.length_append]
                omega
              · rw [hpauses, hpauses', List.map_cons, hshift, List.length_append]
            · refine .inr ⟨hnil, hall, ?_⟩
              rw [hpauses, hpauses', List.map_nil]
      | @waits _ c' used last script' hscript hdata hlast hout hreading hlanded hall =>
        dsimp only at hout ⊢
        refine .lost c.out ?_ ?_ hout hreading ?_
        · rw [List.length_append] at hshort
          omega
        · rw [hout, List.nil_append]
        · rw [hpauses, hscript, List.append_assoc, pauses_data _ hdata, hout]
          rcases hlast with rfl | ⟨rfl, rfl⟩
          · refine .inl ⟨?_, ?_⟩
            · rw [List.length_append, List.length_append]
              simp only [List.length_singleton]
              omega
            · rw [List.singleton_append, pauses, hlanded, List.map_cons]
              rfl
          · exact .inr ⟨rfl, hall rfl, rfl⟩

theorem pollExact_exact {n : Nat} {c : Conn} (h : Reading argon2id u todo c script) :
    Exact argon2id u todo c script [] n (c.pollExact argon2id n script) :=
  pollExactFor_exact h (Nat.lt_succ_self _) (Nat.zero_le _)

/-! ## Until it is ready -/

/-- The connection and the transport of a future. -/
abbrev Link.Reading (l : Link) (argon2id : Bytes → Bytes → ByteVec 32) (u : Reader)
    (todo : List Sealed) : Prop := Snell.Reading argon2id u todo l.conn l.script

abbrev Link.pauses (l : Link) (todo : List Sealed) : List Nat :=
  Snell.pauses todo l.conn.out.length l.script

/-- What is left for whoever reads the connection. -/
def Link.left (l : Link) (todo : List Sealed) : Bytes := l.conn.out ++ plainOf todo

theorem awaitExactFor_steady {k n : Nat} {l : Link} (h : l.Reading argon2id u todo)
    (hn : n ≤ (l.left todo).length) (hsteady : ∀ j ∈ l.pauses todo, j = 0 ∨ n ≤ j)
    (hlt : l.script.length < k) :
    ∃ bs l' todo', awaitExactFor argon2id k n l = .ok (bs, l') ∧ l'.Reading argon2id u todo' ∧
      bs.length = n ∧ l.left todo = bs ++ l'.left todo' ∧
      (∀ j ∈ l'.pauses todo', n + j ∈ l.pauses todo) ∧
      ∀ j ∈ l.pauses todo, j = 0 ∨ ∃ j' ∈ l'.pauses todo', j = n + j' := by
  induction k generalizing l todo with
  | zero => omega
  | succ k ih =>
    unfold awaitExactFor
    dsimp only
    have hpoll := pollExact_exact (n := n) h
    generalize l.conn.pollExact argon2id n l.script = f at hpoll
    cases hpoll with
    | @done todo' c' script' bs hlen hleft hreading hpauses =>
      rw [List.length_nil, Nat.zero_add] at hlen
      refine ⟨bs, ⟨c', script', l.sent⟩, todo', rfl, hreading, hlen, hleft, ?_, ?_⟩
      · intro j hj
        unfold Link.pauses
        rw [hpauses, ← hlen]
        exact List.mem_map_of_mem hj
      · intro j hj
        unfold Link.pauses at hj
        rw [hpauses] at hj
        obtain ⟨j', hj', rfl⟩ := List.mem_map.mp hj
        exact .inr ⟨j', hj', by rw [hlen]⟩
    | @lost todo' c' script' bs hlen hleft hout hreading hpauses =>
      rw [List.length_nil, Nat.zero_add] at hlen
      rcases hpauses with ⟨hshorter, hpauses⟩ | ⟨rfl, rfl, hpauses⟩
      · have hzero : bs.length = 0 := by
          have hmem : bs.length ∈ l.pauses todo := by
            unfold Link.pauses
            rw [hpauses]
            exact List.mem_cons_self
          rcases hsteady _ hmem with h0 | hle
          · exact h0
          · omega
        obtain rfl := List.eq_nil_of_length_eq_zero hzero
        have hsame : l.pauses todo = 0 :: Snell.pauses todo' c'.out.length script' := by
          unfold Link.pauses
          rw [hpauses]
          simp only [List.length_nil, Nat.zero_add, List.map_id']
        rw [List.nil_append] at hleft
        have hn' : n ≤ (c'.out ++ plainOf todo').length := by
          rw [← hleft]
          exact hn
        obtain ⟨bs, l', todo'', hread, hreading', hlen', hleft', hback, hforth⟩ :=
          ih (l := ⟨c', script', l.sent⟩) hreading hn'
            (fun j hj => hsteady j (hsame ▸ List.mem_cons_of_mem _ hj)) (by dsimp only; omega)
        refine ⟨bs, l', todo'', hread, hreading', hlen', hleft.trans hleft', ?_, ?_⟩
        · intro j hj
          rw [hsame]
          exact List.mem_cons_of_mem _ (hback j hj)
        · intro j hj
          rw [hsame] at hj
          rcases List.mem_cons.mp hj with h0 | hj
          · exact .inl h0
          · exact hforth j hj
      · exfalso
        rw [hout, plainOf_nil, List.append_nil, List.append_nil] at hleft
        rw [show l.left todo = bs from hleft] at hn
        omega

/-- No pause comes inside the next `n` bytes: they are read. -/
theorem readExactDec_steady {n : Nat} {l : Link} (h : l.Reading argon2id u todo)
    (hn : n ≤ (l.left todo).length) (hsteady : ∀ j ∈ l.pauses todo, j = 0 ∨ n ≤ j) :
    ∃ bs l' todo', readExactDec argon2id n l = .ok (bs, l') ∧ l'.Reading argon2id u todo' ∧
      bs.length = n ∧ l.left todo = bs ++ l'.left todo' ∧
      (∀ j ∈ l'.pauses todo', n + j ∈ l.pauses todo) ∧
      ∀ j ∈ l.pauses todo, j = 0 ∨ ∃ j' ∈ l'.pauses todo', j = n + j' :=
  awaitExactFor_steady h hn hsteady (Nat.lt_succ_self _)

/-- All pauses come at one place inside the next `n` bytes: the `n` bytes behind it are read. -/
theorem readExactDec_lost {n j : Nat} {l : Link} (h : l.Reading argon2id u todo)
    (hpause : j ∈ l.pauses todo) (hall : ∀ i ∈ l.pauses todo, i = j) (hj : j < n)
    (hn : j + n ≤ (l.left todo).length) :
    ∃ lost bs l' todo', readExactDec argon2id n l = .ok (bs, l') ∧
      l'.Reading argon2id u todo' ∧ lost.length = j ∧ bs.length = n ∧
      l.left todo = lost ++ (bs ++ l'.left todo') ∧ l'.pauses todo' = [] := by
  unfold Link.pauses at hpause hall
  unfold readExactDec awaitExactFor
  dsimp only
  have hpoll := pollExact_exact (n := n) h
  generalize l.conn.pollExact argon2id n l.script = f at hpoll
  cases hpoll with
  | @done todo' c' script' bs hlen hleft hreading hpauses =>
    rw [List.length_nil, Nat.zero_add] at hlen
    rw [hpauses] at hpause
    obtain ⟨j', -, rfl⟩ := List.mem_map.mp hpause
    omega
  | @lost todo' c' script' lost hlen hleft hout hreading hpauses =>
    rcases hpauses with ⟨hshorter, hpauses⟩ | ⟨-, -, hpauses⟩
    · rw [hpauses] at hall
      have hlost := hall _ List.mem_cons_self
      have hzero : ∀ i ∈ (⟨c', script', l.sent⟩ : Link).pauses todo', i = 0 := by
        intro i hi
        have := hall _ (List.mem_cons_of_mem _ (List.mem_map_of_mem hi))
        omega
      have hsplit : l.left todo = lost ++ (⟨c', script', l.sent⟩ : Link).left todo' := hleft
      rw [hsplit, List.length_append] at hn
      obtain ⟨bs, l', todo'', hread, hreading', hbs, hleft', hback, -⟩ :=
        awaitExactFor_steady (n := n) (l := ⟨c', script', l.sent⟩) hreading (by omega)
          (fun i hi => .inl (hzero i hi)) hshorter
      refine ⟨lost, bs, l', todo'', hread, hreading', hlost, hbs, ?_, ?_⟩
      · rw [hsplit, hleft']
      · refine List.eq_nil_iff_forall_not_mem.mpr fun i hi => ?_
        have := hzero _ (hback i hi)
        omega
    · rw [hpauses] at hpause
      cases hpause

/-- What a read takes: `n` bytes at least, and more if a pause came inside them. -/
theorem readExactDec_takes {n : Nat} {l l' : Link} {bs : Bytes} (h : l.Reading argon2id u todo)
    (hread : readExactDec argon2id n l = .ok (bs, l')) :
    bs.length = n ∧ ∃ todo' taken, l'.Reading argon2id u todo' ∧
      l.left todo = taken ++ l'.left todo' ∧ n ≤ taken.length ∧
      ((∃ j ∈ l.pauses todo, 0 < j ∧ j < n) → n < taken.length) := by
  unfold readExactDec at hread
  generalize l.script.length + 1 = k at hread
  induction k generalizing l todo with
  | zero => cases hread
  | succ k ih =>
    unfold awaitExactFor at hread
    dsimp only at hread
    have hpoll := pollExact_exact (n := n) h
    generalize l.conn.pollExact argon2id n l.script = f at hpoll hread
    cases hpoll with
    | @done todo' c' script' bs' hlen hleft hreading hpauses =>
      rw [List.length_nil, Nat.zero_add] at hlen
      cases hread
      refine ⟨hlen, todo', bs', hreading, hleft, Nat.le_of_eq hlen.symm, ?_⟩
      rintro ⟨j, hj, -, hlt⟩
      unfold Link.pauses at hj
      rw [hpauses] at hj
      obtain ⟨j', -, rfl⟩ := List.mem_map.mp hj
      omega
    | @lost todo' c' script' bs' hlen hleft hout hreading hpauses =>
      obtain ⟨hbs, todo'', taken, hreading', hleft', hle, hinside⟩ :=
        ih (l := ⟨c', script', l.sent⟩) hreading hread
      refine ⟨hbs, todo'', bs' ++ taken, hreading', ?_, ?_, ?_⟩
      · rw [List.append_assoc, ← hleft']
        exact hleft
      · rw [List.length_append]
        omega
      · rintro ⟨j, hj, hpos, hlt⟩
        rw [List.length_append]
        unfold Link.pauses at hj
        rcases hpauses with ⟨-, hpauses⟩ | ⟨-, -, hpauses⟩
        · rw [hpauses] at hj
          by_cases hzero : bs'.length = 0
          · rcases List.mem_cons.mp hj with rfl | hj
            · omega
            · obtain ⟨j', hj', rfl⟩ := List.mem_map.mp hj
              have := hinside ⟨j', hj', by omega, by omega⟩
              omega
          · omega
        · rw [hpauses] at hj
          cases hj

end RustCrash.Snell
