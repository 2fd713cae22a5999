import RustCrash.OpenVpn.ControlText

/-
  The control messages that come behind the handshake, `on_control_payload` of an established
  client.

  It looks for messages in the bytes of the TLS records as they came and keeps all of them, so it
  understands the server if and only if these bytes say what the decrypted text says
  (`understood_iff`).
-/

namespace RustCrash.OpenVpn

open Lib

structure EstablishedClient where
  leftoverTls : Bytes
  fail : Option Error

namespace EstablishedClient

/-- `leftover` is what came behind the key exchange. -/
def start (leftover : Bytes) : EstablishedClient := ⟨leftover, none⟩

def failTunnel (c : EstablishedClient) (e : Error) : EstablishedClient :=
  if c.fail.isNone then { c with fail := some e } else c

/-- Outside a rekey. -/
def onControlPayload (c : EstablishedClient) (opcode : UInt8) (payload : Bytes) :
    EstablishedClient :=
  if opcode ≠ pControlV1 ∨ payload = [] then c
  else
    let c := { c with leftoverTls := c.leftoverTls ++ payload }
    if maxTlsControlBuffer < c.leftoverTls.length then
      c.failTunnel (.protocol "openvpn TLS control buffer overflow")
    else
      match controlMessageError c.leftoverTls with
      | .ok () => c
      | .error e => c.failTunnel e

def run (c : EstablishedClient) (payloads : List Bytes) : EstablishedClient :=
  payloads.foldl (fun c payload => c.onControlPayload pControlV1 payload) c

/-! ## What the client looks at -/

/-- The bytes are too many, or a message in them is terminal. -/
def Refused (bytes : Bytes) : Prop := maxTlsControlBuffer < bytes.length ∨ Terminal bytes

theorem refused_append {a : Bytes} (h : Refused a) (b : Bytes) : Refused (a ++ b) := by
  rcases h with hlong | hterminal
  · refine .inl ?_
    rw [List.length_append]
    omega
  · exact .inr (terminal_append hterminal b)

variable {c : EstablishedClient}

theorem failTunnel_fails (c : EstablishedClient) (e : Error) : (c.failTunnel e).fail ≠ none := by
  unfold failTunnel
  split_ifs with hfail
  · exact Option.some_ne_none e
  · exact fun hnone => hfail (Option.isNone_iff_eq_none.mpr hnone)

theorem failTunnel_leftover (c : EstablishedClient) (e : Error) :
    (c.failTunnel e).leftoverTls = c.leftoverTls := by
  unfold failTunnel
  split_ifs
  · rfl
  · rfl

/-- A payload is appended to what came before, and the whole of it is looked at. -/
theorem onControlPayload_kept (c : EstablishedClient) {payload : Bytes} (hne : payload ≠ []) :
    (c.onControlPayload pControlV1 payload).leftoverTls = c.leftoverTls ++ payload ∧
      ((c.onControlPayload pControlV1 payload).fail ≠ none ↔
        c.fail ≠ none ∨ Refused (c.leftoverTls ++ payload)) := by
  unfold onControlPayload Refused
  rw [if_neg (not_or.mpr ⟨not_not.mpr rfl, hne⟩)]
  dsimp only
  by_cases hlong : maxTlsControlBuffer < (c.leftoverTls ++ payload).length
  · rw [if_pos hlong, failTunnel_leftover]
    exact ⟨rfl, iff_of_true (failTunnel_fails _ _) (.inr (.inl hlong))⟩
  · rw [if_neg hlong]
    cases herror : controlMessageError (c.leftoverTls ++ payload) with
    | ok u =>
      have hquiet := controlMessageError_eq_ok.mp herror
      refine ⟨rfl, ?_⟩
      rw [or_iff_left (not_or.mpr ⟨hlong, hquiet⟩)]
    | error e =>
      have hterminal : Terminal (c.leftoverTls ++ payload) := by
        by_contra hquiet
        cases herror.symm.trans (controlMessageError_eq_ok.mpr hquiet)
      dsimp only
      rw [failTunnel_leftover]
      exact ⟨rfl, iff_of_true (failTunnel_fails _ _) (.inr (.inr hterminal))⟩

/-- A run fails if and only if all the bytes together are refused. -/
theorem run_kept (c : EstablishedClient) (payloads : List Bytes) :
    (c.run payloads).leftoverTls = c.leftoverTls ++ payloads.flatten ∧
      ((c.run payloads).fail ≠ none ↔ c.fail ≠ none ∨
        payloads.flatten ≠ [] ∧ Refused (c.leftoverTls ++ payloads.flatten)) := by
  induction payloads generalizing c with
  | nil =>
    refine ⟨(List.append_nil _).symm, ?_⟩
    rw [or_iff_left fun h => h.1 rfl]
    rfl
  | cons payload payloads ih =>
    rw [List.flatten_cons]
    obtain ⟨hleftover, hfail⟩ := ih (c.onControlPayload pControlV1 payload)
    change (run (c.onControlPayload pControlV1 payload) payloads).leftoverTls = _ ∧
      ((run (c.onControlPayload pControlV1 payload) payloads).fail ≠ none ↔ _)
    by_cases hne : payload = []
    · have hsame : c.onControlPayload pControlV1 payload = c := if_pos (.inr hne)
      rw [hsame] at hleftover hfail ⊢
      rw [hne, List.nil_append]
      exact ⟨hleftover, hfail⟩
    · obtain ⟨hstep, hstepFail⟩ := c.onControlPayload_kept hne
      rw [hleftover, hfail, hstepFail, hstep, List.append_assoc]
      refine ⟨rfl, ?_⟩
      constructor
      · rintro ((h | h) | ⟨-, h⟩)
        · exact .inl h
        · refine .inr ⟨fun hnil => hne (List.append_eq_nil_iff.mp hnil).1, ?_⟩
          rw [← List.append_assoc]
          exact refused_append h _
        · exact .inr ⟨fun hnil => hne (List.append_eq_nil_iff.mp hnil).1, h⟩
      · rintro (h | ⟨-, h⟩)
        · exact .inl (.inl h)
        · by_cases hlast : payloads.flatten = []
          · rw [hlast, List.append_nil] at h
            exact .inl (.inr h)
          · exact .inr ⟨hlast, h⟩

/-! ## What the server says -/

variable {S : Type} (feed : S → Bytes → S × Bytes)

/-- What a TLS session delivers for the payloads. -/
def plaintext : S → List Bytes → Bytes
  | _, [] => []
  | s, payload :: payloads => (feed s payload).2 ++ plaintext (feed s payload).1 payloads

/-- All that the server has said. -/
def serverText (s : S) (leftover : Bytes) (payloads : List Bytes) : Bytes :=
  leftover ++ plaintext feed s payloads

/-- The tunnel fails for a terminal message and for nothing else, and no more bytes are kept than
    those of the message that has not come to its end. -/
def Understood (s : S) (leftover : Bytes) (payloads : List Bytes) : Prop :=
  (((start leftover).run payloads).fail ≠ none ↔ Terminal (serverText feed s leftover payloads)) ∧
    (((start leftover).run payloads).fail = none → ((start leftover).run payloads).leftoverTls.length
      ≤ (splitControlMessages (serverText feed s leftover payloads)).2.length)

/-- There is a payload, and the bytes as they came are refused. -/
def CipherRefused (leftover : Bytes) (payloads : List Bytes) : Prop :=
  payloads.flatten ≠ [] ∧ Refused (leftover ++ payloads.flatten)

/-- The client understands the server if and only if the bytes as they came are refused just when
    the decrypted text has a terminal message, and otherwise are no longer than its unfinished
    message. -/
theorem understood_iff (s : S) (leftover : Bytes) (payloads : List Bytes) :
    Understood feed s leftover payloads ↔
      (CipherRefused leftover payloads ↔ Terminal (serverText feed s leftover payloads)) ∧
      (¬ CipherRefused leftover payloads → (leftover ++ payloads.flatten).length ≤
        (splitControlMessages (serverText feed s leftover payloads)).2.length) := by
  obtain ⟨hleftover, hfail⟩ := (start leftover).run_kept payloads
  have hrefused : ((start leftover).run payloads).fail ≠ none ↔ CipherRefused leftover payloads :=
    hfail.trans (or_iff_right fun h => h rfl)
  unfold Understood
  rw [hrefused, hleftover, ← not_iff_not.mpr hrefused, not_not]
  rfl

/-! ## A message that is not seen -/

/-- A TLS record with twelve bytes of text and a tag. -/
def sampleRecord : Bytes := [0x17, 0x03, 0x03, 0x00, 0x1d] ++ List.replicate 29 0xa5

/-- A session that is about to decrypt that record. -/
def sampleFeed (s : Bool) (wire : Bytes) : Bool × Bytes :=
  if s = false ∧ wire = sampleRecord then (true, messageText "AUTH_FAILED" ++ [0]) else (s, [])

theorem sampleRecord_quiet : ¬ CipherRefused [] [sampleRecord] := by
  rintro ⟨-, hlong | hterminal⟩
  · exact absurd hlong (by decide +kernel)
  · exact controlMessageError_eq_ok.mp (by decide +kernel) hterminal

theorem auth_failed_unseen : ¬ Understood sampleFeed false [] [sampleRecord] := by
  rintro ⟨hfails, -⟩
  have hterminal : Terminal (serverText sampleFeed false [] [sampleRecord]) := by
    by_contra hquiet
    exact absurd (controlMessageError_eq_ok.mpr hquiet) (by decide +kernel)
  obtain ⟨-, hfail⟩ := (start []).run_kept [sampleRecord]
  rcases hfail.mp (hfails.mpr hterminal) with hnone | hrefused
  · exact hnone rfl
  · exact sampleRecord_quiet hrefused

end EstablishedClient

end RustCrash.OpenVpn
