import RustCrash.Lib.Str
import RustCrash.Lib.Staged

/-
  What an asynchronous call returns: `Poll`, and the `io::Error` of a failed one.

  A reader that is polled again and again takes what it gives off the front of what is left, and
  it gives something, or there is less to wait for. So enough polls give everything, in order
  (`Drains.flatten_outputs`).
-/

namespace RustCrash.Lib

inductive Poll (α : Type) where
  | pending
  | ready (a : α)
  deriving DecidableEq

inductive IoKind where
  | invalidData
  | unexpectedEof
  | brokenPipe
  | writeZero
  deriving DecidableEq

structure IoError where
  kind : IoKind
  msg : String
  deriving DecidableEq

abbrev IoResult (α : Type) := Except IoError α

/-! ## Polling until nothing is left -/

variable {S : Type}

/-- What `n` polls give; the first of them is poll `i`. -/
def outputs (poll : Nat → S → S × Bytes) : Nat → Nat → S → List Bytes
  | 0, _, _ => []
  | n + 1, i, s => (poll i s).2 :: outputs poll n (i + 1) (poll i s).1

/-- What `n` polls answer. -/
def answers {A : Type} (poll : Nat → S → S × A) : Nat → Nat → S → List A
  | 0, _, _ => []
  | n + 1, i, s => (poll i s).2 :: answers poll n (i + 1) (poll i s).1

theorem outputs_map {A : Type} (poll : Nat → S → S × A) (f : A → Bytes) (n i : Nat) (s : S) :
    outputs (fun i s => ((poll i s).1, f (poll i s).2)) n i s = (answers poll n i s).map f := by
  induction n generalizing i s with
  | zero => rfl
  | succ n ih => exact congrArg _ (ih (i + 1) (poll i s).1)

/-- A reader that `has` some bytes to give, and something to wait for. -/
def Drains (poll : Nat → S → S × Bytes) (has : S → Bytes → Prop) (wait : S → Nat) : Prop :=
  ∀ i s bs, has s bs → ∃ rest, has (poll i s).1 rest ∧ bs = (poll i s).2 ++ rest ∧
    wait (poll i s).1 ≤ wait s ∧
    ((poll i s).2 ≠ [] ∨ wait (poll i s).1 < wait s ∨ wait (poll i s).1 = 0 ∧ rest = [])

variable {poll : Nat → S → S × Bytes} {has : S → Bytes → Prop} {wait : S → Nat}

/-- What is given is in front of what there is. -/
theorem Drains.outputs_prefix (h : Drains poll has wait) {i : Nat} {s : S} {bs : Bytes}
    (hs : has s bs) (n : Nat) : (outputs poll n i s).flatten <+: bs := by
  induction n generalizing i s bs with
  | zero => exact List.nil_prefix
  | succ n ih =>
    obtain ⟨rest, hrest, hsplit, -, -⟩ := h i s bs hs
    rw [outputs, List.flatten_cons, hsplit]
    exact (List.prefix_append_right_inj _).mpr (ih hrest)

theorem Drains.flatten_outputs (h : Drains poll has wait) {n i : Nat} {s : S} {bs : Bytes}
    (hs : has s bs) (hn : bs.length + wait s ≤ n) : (outputs poll n i s).flatten = bs := by
  induction n generalizing i s bs with
  | zero =>
    rw [List.eq_nil_of_length_eq_zero (by omega : bs.length = 0)]
    rfl
  | succ n ih =>
    obtain ⟨rest, hrest, hsplit, hwait, hmoves⟩ := h i s bs hs
    have hlen : bs.length = (poll i s).2.length + rest.length := by
      rw [hsplit, List.length_append]
    rw [outputs, List.flatten_cons, hsplit, ih hrest]
    rcases hmoves with hne | hless | ⟨hzero, hnil⟩
    · have := List.length_pos_of_ne_nil hne
      omega
    · omega
    · rw [hzero, hnil]
      exact Nat.zero_le _

end RustCrash.Lib

/-! ## Writing out a buffer

Handing a buffer to a transport that takes it in parts: `while !buf.is_empty() { poll_write }`.

A grant is one answer of the transport: how many bytes it takes, that it takes none now, or that
it has failed. What is taken comes off the front of the buffer (`writeOut_split`), and a loop that
is through leaves nothing (`left_writeOut`). -/

namespace RustCrash.Lib

abbrev Grant := Poll (IoResult Nat)

/-- What the loop leaves of the buffer, what the transport has taken, and what the transport has
    yet to say. -/
structure WrittenOut where
  left : Bytes
  sent : Bytes
  grants : List Grant
  res : Poll (IoResult Unit)

/-- The error is that of a transport that takes zero bytes. -/
def writeOut (zero : IoError) : List Grant → Bytes → WrittenOut
  | grants, [] => ⟨[], [], grants, .ready (.ok ())⟩
  | [], buf => ⟨buf, [], [], .pending⟩
  | .pending :: grants, buf => ⟨buf, [], grants, .pending⟩
  | .ready (.error e) :: grants, buf => ⟨buf, [], grants, .ready (.error e)⟩
  | .ready (.ok 0) :: grants, buf => ⟨buf, [], grants, .ready (.error zero)⟩
  | .ready (.ok (n + 1)) :: grants, buf =>
    let w := writeOut zero grants (buf.drop (n + 1))
    { w with sent := buf.take (n + 1) ++ w.sent }

/-- A transport that does not fail, and takes something when it takes. -/
def Smooth (grants : List Grant) : Prop :=
  ∀ g ∈ grants, g = .pending ∨ ∃ n : Nat, g = .ready (.ok (n + 1))

/-- A transport that takes nothing in a call. -/
def TakesNothing (grants : List Grant) : Prop := ∀ g ∈ grants, g = .pending

instance (g : Grant) : Decidable (∃ n : Nat, g = .ready (.ok (n + 1))) :=
  match g with
  | .ready (.ok (n + 1)) => isTrue ⟨n, rfl⟩
  | .ready (.ok 0) => isFalse (by simp)
  | .ready (.error _) => isFalse (by simp)
  | .pending => isFalse (by simp)

instance (grants : List Grant) : Decidable (Smooth grants) :=
  inferInstanceAs (Decidable (∀ g ∈ grants, g = .pending ∨ ∃ n : Nat, g = .ready (.ok (n + 1))))

instance (grants : List Grant) : Decidable (TakesNothing grants) :=
  inferInstanceAs (Decidable (∀ g ∈ grants, g = .pending))

variable {zero : IoError} {grants : List Grant} {buf : Bytes}

@[simp] theorem writeOut_nil (zero : IoError) (grants : List Grant) :
    writeOut zero grants [] = ⟨[], [], grants, .ready (.ok ())⟩ := by
  cases grants with
  | nil => rfl
  | cons g grants => rcases g with _ | ⟨_ | _ | _⟩ <;> rfl

/-- What is taken was in front. -/
theorem writeOut_split (zero : IoError) (grants : List Grant) (buf : Bytes) :
    (writeOut zero grants buf).sent ++ (writeOut zero grants buf).left = buf := by
  induction grants generalizing buf with
  | nil => cases buf <;> rfl
  | cons g grants ih =>
    cases buf with
    | nil => rw [writeOut_nil, List.append_nil]
    | cons b buf =>
      rcases g with _ | ⟨e | _ | n⟩
      · rfl
      · rfl
      · rfl
      · unfold writeOut
        dsimp only
        rw [List.append_assoc, ih, List.take_append_drop]

theorem left_writeOut (h : (writeOut zero grants buf).res = .ready (.ok ())) :
    (writeOut zero grants buf).left = [] := by
  induction grants generalizing buf with
  | nil =>
    cases buf with
    | nil => rfl
    | cons b buf => cases h
  | cons g grants ih =>
    cases buf with
    | nil => rw [writeOut_nil]
    | cons b buf =>
      rcases g with _ | ⟨e | _ | n⟩
      · cases h
      · cases h
      · cases h
      · exact ih h

/-- A loop that is through has handed over everything. -/
theorem sent_writeOut (h : (writeOut zero grants buf).left = []) :
    (writeOut zero grants buf).sent = buf := by
  have hsplit := writeOut_split zero grants buf
  rw [h, List.append_nil] at hsplit
  exact hsplit

/-- On a transport that does not fail the loop is through, or something is left. -/
theorem Smooth.writeOut_cases (h : Smooth grants) :
    (writeOut zero grants buf).res = .ready (.ok ()) ∨
      (writeOut zero grants buf).res = .pending ∧ (writeOut zero grants buf).left ≠ [] := by
  induction grants generalizing buf with
  | nil =>
    cases buf with
    | nil => exact .inl rfl
    | cons b buf => exact .inr ⟨rfl, List.cons_ne_nil b buf⟩
  | cons g grants ih =>
    cases buf with
    | nil =>
      rw [writeOut_nil]
      exact .inl rfl
    | cons b buf =>
      obtain rfl | ⟨n, rfl⟩ := h g List.mem_cons_self
      · exact .inr ⟨rfl, List.cons_ne_nil b buf⟩
      · exact ih fun g' hg' => h g' (List.mem_cons_of_mem _ hg')

/-- How many bytes the transport takes before it says that it takes none now. -/
def granted : List Grant → Nat
  | .ready (.ok n) :: grants => n + granted grants
  | _ => 0

/-- What is left is what was not granted. -/
theorem Smooth.writeOut_left_eq_nil_iff (h : Smooth grants) :
    (writeOut zero grants buf).left = [] ↔ buf.length ≤ granted grants := by
  induction grants generalizing buf with
  | nil =>
    cases buf with
    | nil => exact iff_of_true rfl (Nat.le_refl 0)
    | cons b buf => exact iff_of_false (List.cons_ne_nil b buf) (Nat.not_succ_le_zero _)
  | cons g grants ih =>
    cases buf with
    | nil =>
      rw [writeOut_nil]
      exact iff_of_true rfl (Nat.zero_le _)
    | cons b buf =>
      obtain rfl | ⟨n, rfl⟩ := h g List.mem_cons_self
      · exact iff_of_false (List.cons_ne_nil b buf) (Nat.not_succ_le_zero _)
      · have hrest := @ih ((b :: buf).drop (n + 1)) fun g' hg' => h g' (List.mem_cons_of_mem _ hg')
        rw [List.length_drop] at hrest
        unfold writeOut granted
        dsimp only
        rw [hrest]
        omega

theorem TakesNothing.rest (h : TakesNothing grants) :
    TakesNothing (writeOut zero grants buf).grants := by
  cases buf with
  | nil =>
    rw [writeOut_nil]
    exact h
  | cons b buf =>
    cases grants with
    | nil => exact h
    | cons g grants =>
      obtain rfl := h g List.mem_cons_self
      exact fun g' hg' => h g' (List.mem_cons_of_mem _ hg')

theorem TakesNothing.left (h : TakesNothing grants) :
    (writeOut zero grants buf).left = buf ∧ (writeOut zero grants buf).sent = [] := by
  cases buf with
  | nil =>
    rw [writeOut_nil]
    exact ⟨rfl, rfl⟩
  | cons b buf =>
    cases grants with
    | nil => exact ⟨rfl, rfl⟩
    | cons g grants =>
      obtain rfl := h g List.mem_cons_self
      exact ⟨rfl, rfl⟩

end RustCrash.Lib

/-! ## Reading from a transport

A read takes what the caller's buffer has room for; the rest of an arrival stays. -/

namespace RustCrash.Lib

/-- An empty arrival is the end, and it stays. -/
def transportRead (cap : Nat) : List Arrival → List Arrival × Poll Bytes
  | [] => ([], .pending)
  | .pending :: script => (script, .pending)
  | .data bs :: script =>
    if bs = [] then (.data [] :: script, .ready [])
    else (if bs.drop cap = [] then script else .data (bs.drop cap) :: script, .ready (bs.take cap))

/-- A transport that ends behind what it brings, or that goes on. -/
def Finishes (closing : Bool) : List Arrival → Prop
  | [] => closing = false
  | .data [] :: script => script = [] ∧ closing = true
  | .data (_ :: _) :: script => Finishes closing script
  | .pending :: script => Finishes closing script

/-- The bytes and the answers that there are to wait for. -/
def awaited : List Arrival → Nat
  | [] => 0
  | .data [] :: script => awaited script
  | .data (_ :: bs) :: script => bs.length + 2 + awaited script
  | .pending :: script => awaited script + 1

/-- The bytes of a ready read. -/
def given : Poll (IoResult Bytes) → Bytes
  | .ready (.ok bs) => bs
  | _ => []

theorem awaited_transportRead {cap : Nat} (hcap : 0 < cap) {script left : List Arrival} {b : UInt8}
    {bs : Bytes} (h : transportRead cap script = (left, .ready (b :: bs))) :
    awaited left < awaited script := by
  rcases script with _ | ⟨(_ | ⟨c, cs⟩) | _, script⟩
  · cases h
  · cases h
  · obtain ⟨cap, rfl⟩ : ∃ k, cap = k + 1 := ⟨cap - 1, by omega⟩
    unfold transportRead at h
    simp only [List.cons_ne_nil, if_false, List.drop_succ_cons, Prod.mk.injEq] at h
    rw [← h.1]
    cases hdrop : cs.drop cap with
    | nil =>
      rw [if_pos rfl]
      show awaited script < cs.length + 2 + awaited script
      omega
    | cons d rest =>
      have hlen := congrArg List.length hdrop
      rw [List.length_drop, List.length_cons] at hlen
      rw [if_neg (List.cons_ne_nil d rest)]
      show rest.length + 2 + awaited script < cs.length + 2 + awaited script
      omega
  · cases h

/-- What a read may do. -/
inductive TransportReads (script : List Arrival) : List Arrival → Poll Bytes → Prop where
  | waits {left : List Arrival} (same : arrived left = arrived script)
    (less : awaited left < awaited script ∨ left = [] ∧ script = []) :
    TransportReads script left .pending
  | brings {left : List Arrival} {bs : Bytes} (hne : bs ≠ [])
    (front : arrived script = bs ++ arrived left) (less : awaited left < awaited script) :
    TransportReads script left (.ready bs)
  | ends (last : script = [.data []]) : TransportReads script script (.ready [])

theorem transportRead_reads {closing : Bool} {cap : Nat} (hcap : 0 < cap) {script : List Arrival}
    (h : Finishes closing script) :
    Finishes closing (transportRead cap script).1 ∧
      TransportReads script (transportRead cap script).1 (transportRead cap script).2 := by
  rcases script with _ | ⟨(_ | ⟨b, bs⟩) | _, script⟩
  · exact ⟨h, .waits rfl (.inr ⟨rfl, rfl⟩)⟩
  · obtain ⟨rfl, hclosing⟩ := h
    exact ⟨⟨rfl, hclosing⟩, .ends rfl⟩
  · obtain ⟨cap, rfl⟩ : ∃ k, cap = k + 1 := ⟨cap - 1, by omega⟩
    have hsplit := List.take_append_drop cap bs
    have hlen := congrArg List.length hsplit
    rw [List.length_append] at hlen
    unfold transportRead
    simp only [List.cons_ne_nil, if_false, List.drop_succ_cons, List.take_succ_cons]
    cases hdrop : bs.drop cap with
    | nil =>
      rw [hdrop, List.append_nil] at hsplit
      rw [if_pos rfl, hsplit]
      refine ⟨h, .brings (List.cons_ne_nil b bs) (arrived_cons ..) ?_⟩
      show awaited script < bs.length + 2 + awaited script
      omega
    | cons c rest =>
      rw [hdrop] at hsplit hlen
      rw [if_neg (List.cons_ne_nil c rest)]
      refine ⟨h, .brings (List.cons_ne_nil b _) ?_ ?_⟩
      · rw [arrived_cons, arrived_cons, Arrival.bytes, Arrival.bytes, List.cons_append,
          List.cons_append, ← List.append_assoc, hsplit]
      · rw [List.length_cons] at hlen
        show rest.length + 2 + awaited script < bs.length + 2 + awaited script
        omega
  · refine ⟨h, .waits rfl (.inl ?_)⟩
    exact Nat.lt_succ_self _

end RustCrash.Lib
