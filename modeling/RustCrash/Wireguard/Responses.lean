import RustCrash.Wireguard.Stack

/-
  Handshake responses that the WireGuard client rejects.

  `on_datagram` takes the pending handshake out of the state before it verifies a response,
  and puts nothing back when the verification fails. So a response that is rejected, for
  whatever reason, ends the handshake: the genuine response finds nothing pending and is
  ignored (`rejected_response_forfeits`).
-/

namespace RustCrash.Wireguard

open Lib

section

variable (c : Crates)

/-- The datagram parses as a response, and the verification against the pending handshake
    gives `r`. -/
def Verdict (s : Stack) (raw : Bytes) (r : Result (HandshakeDone × InitiationPending)) : Prop :=
  ∃ p w, s.pendingHs = some p ∧ parseWgMsg (stripReserved raw) = some w ∧ w.isResponse = true ∧
    consumeResponse c s.statics p w s.psk = r

def Rejects (s : Stack) (raw : Bytes) : Prop := ∃ e, Verdict c s raw (.error e)

def Accepts (s : Stack) (raw : Bytes) : Prop := ∃ r, Verdict c s raw (.ok r)

variable {c}

variable {s : Stack} {raw : Bytes}

theorem onDatagram_response {w : WgMsg} (hparse : parseWgMsg (stripReserved raw) = some w)
    (hw : w.isResponse = true) (t : Clock) (d : Draw) (localIndex : UInt32) :
    s.onDatagram c raw t d localIndex = s.onResponse c w t localIndex := by
  unfold Stack.onDatagram
  rw [hparse]
  cases w with
  | response => rfl
  | initiation => cases hw
  | cookie => cases hw
  | transport => cases hw

/-- A rejected response takes the pending handshake with it. -/
theorem onDatagram_rejected (h : Rejects c s raw) (t : Clock) (d : Draw) (localIndex : UInt32) :
    s.onDatagram c raw t d localIndex = ({ s with pendingHs := none }, []) := by
  obtain ⟨e, p, w, hp, hparse, hw, herr⟩ := h
  rw [onDatagram_response hparse hw]
  unfold Stack.onResponse
  rw [hp]
  dsimp only
  rw [herr]

/-- With nothing pending a response changes nothing. -/
theorem onDatagram_idle (hs : s.pendingHs = none) {w : WgMsg}
    (hparse : parseWgMsg (stripReserved raw) = some w) (hw : w.isResponse = true) (t : Clock)
    (d : Draw) (localIndex : UInt32) : s.onDatagram c raw t d localIndex = (s, []) := by
  rw [onDatagram_response hparse hw]
  unfold Stack.onResponse
  rw [hs]

/-! ## What a rejected response costs -/

variable (c) in
/-- Every response accepted before the datagram is still accepted after it. -/
def StillCompletes (s : Stack) (raw : Bytes) : Prop :=
  ∀ t d localIndex genuine, Accepts c s genuine →
    Accepts c (s.onDatagram c raw t d localIndex).1 genuine

/-- After a rejected response no datagram completes the handshake any more: a response that
    was acceptable before is ignored. -/
theorem rejected_response_forfeits (s : Stack) (bad genuine : Bytes) (hbad : Rejects c s bad)
    (hgenuine : Accepts c s genuine) :
    ¬ StillCompletes c s bad ∧
      ∀ t d i t' d' i', (s.onDatagram c bad t d i).1.onDatagram c genuine t' d' i' =
        ((s.onDatagram c bad t d i).1, []) := by
  have hnone : ∀ t d i, (s.onDatagram c bad t d i).1.pendingHs = none := by
    intro t d i
    rw [onDatagram_rejected hbad]
  constructor
  · intro hstill
    obtain ⟨r, p, w, hp, -⟩ := hstill ⟨0, 0, 0, le_refl 0, le_refl 0⟩
      ⟨ByteVec.zero 32, 0, 0⟩ 0 genuine hgenuine
    rw [hnone] at hp
    cases hp
  · intro t d i t' d' i'
    obtain ⟨r, p, w, hp, hparse, hw, hok⟩ := hgenuine
    exact onDatagram_idle (hnone t d i) hparse hw t' d' i'

end

/-! ## An exchange with four keys -/

/-- The client after its first initiation. -/
def sampleDialing : Stack := (sampleStack.ensureSession sampleCrates sampleClock sampleDraw).1

/-- A response to another index than the client's 7. -/
def sampleStale : Bytes :=
  responseBytes 9 8 (ByteVec.zero 32) (ByteVec.zero 16).val ++ (ByteVec.zero 16).val ++
    (ByteVec.zero 16).val

theorem sampleDialing_eq : ∃ pending o,
    Matches sampleCrates (sampleSecret 1) pending o ∧ pending.localIndex = 7 ∧
      pending.ePriv = sampleSecret 3 ∧ sampleDialing.pendingHs = some pending ∧
      sampleDialing.statics = .fromSecret sampleCrates (sampleSecret 1) ∧
      sampleDialing.psk = ByteVec.zero 32 := by
  obtain ⟨msg, pending, w, o, hbuild, -, -, -, hm, -, hindex, hpriv⟩ :=
    build_open sampleCrates_lawful (sampleSecret 1) (sampleSecret 2) none 7 sampleDraw
      (by decide +kernel) (by decide +kernel)
  obtain ⟨msg', pending', hbuild', heq⟩ :=
    @initiate_built _ sampleCrates_lawful sampleStack false 0 _ sample_buildable rfl rfl
  have hsame : pending' = pending := by
    have := hbuild'.symm.trans hbuild
    cases this
    rfl
  have hens : sampleDialing = (sampleStack.initiate sampleCrates false 0 sampleDraw).1 := rfl
  rw [hens, heq, hsame]
  exact ⟨{ pending with attempts := 1 }, o,
    ⟨hm.sender, hm.ephemeral, hm.clientStatic, hm.chainingKey, hm.hash⟩, hindex, hpriv, rfl, rfl,
    rfl⟩

theorem sampleStale_rejected : Rejects sampleCrates sampleDialing sampleStale := by
  obtain ⟨pending, o, -, hindex, -, hpending, -⟩ := sampleDialing_eq
  refine ⟨.protocol "wg: response for a stale handshake", pending,
    .response 9 8 (ByteVec.zero 32) (ByteVec.zero 16) (ByteVec.zero 16) (ByteVec.zero 16),
    hpending, ?_, rfl, ?_⟩
  · unfold sampleStale
    rw [stripReserved_response]
    exact parseWgMsg_response _ _ _ _ _ _
  · unfold consumeResponse
    dsimp only
    rw [ensure_of_not (by rw [hindex]; decide), bind_error]

theorem sample_genuine : ∃ genuine, Accepts sampleCrates sampleDialing genuine := by
  obtain ⟨pending, o, hm, -, hpriv, hpending, hstatics, hpsk⟩ := sampleDialing_eq
  obtain ⟨resp, w, sendKey, recvKey, -, hstrip, hparse, hw, hconsume⟩ :=
    respond_consume sampleCrates_lawful hm (ByteVec.zero 32) 9 (sampleSecret 4)
      (by rw [hpriv]; decide +kernel) (by decide +kernel)
  have hparse' : parseWgMsg (stripReserved resp) = some w := by
    rw [hstrip]
    exact hparse
  rw [← hstatics, ← hpsk] at hconsume
  exact ⟨resp, _, pending, w, hpending, hparse', hw, hconsume⟩

/-- The stale response makes the client ignore the genuine one. -/
theorem rejected_response_forfeits_sample : ∃ genuine,
    ¬ StillCompletes sampleCrates sampleDialing sampleStale ∧
      ∀ t d i t' d' i',
        (sampleDialing.onDatagram sampleCrates sampleStale t d i).1.onDatagram sampleCrates
            genuine t' d' i' =
          ((sampleDialing.onDatagram sampleCrates sampleStale t d i).1, []) := by
  obtain ⟨genuine, hgenuine⟩ := sample_genuine
  exact ⟨genuine, rejected_response_forfeits sampleDialing sampleStale genuine
    sampleStale_rejected hgenuine⟩

/-- Not every rejected response leaves the handshake able to complete. -/
theorem stale_response_forfeits :
    ¬ ∀ s raw, Rejects sampleCrates s raw → StillCompletes sampleCrates s raw := by
  intro hall
  obtain ⟨genuine, hgenuine⟩ := sample_genuine
  obtain ⟨r, p, w, hp, -⟩ := hall sampleDialing sampleStale sampleStale_rejected sampleClock
    sampleDraw 0 genuine hgenuine
  rw [onDatagram_rejected sampleStale_rejected] at hp
  cases hp

end RustCrash.Wireguard
