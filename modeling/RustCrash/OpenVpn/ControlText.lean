import RustCrash.Lib.Net
import RustCrash.OpenVpn.Packet

/-
  The control messages of OpenVPN, text that ends with a zero byte: `PUSH_REPLY` and the messages
  that end a tunnel.

  A text that is longer has the messages of the shorter one in front
  (`splitControlMessages_append`), so what was terminal once stays terminal (`terminal_append`).
-/

namespace RustCrash.OpenVpn

open Lib Net

/-- The most text that is kept while a message is unfinished. -/
def maxTlsControlBuffer : Nat := 2 ^ 20

/-! ## Push replies -/

structure PushReply where
  prefixes : List (IpAddr × Nat)
  routes : List (IpAddr × Nat)
  dns : List IpAddr
  peerId : UInt32
  redirect : Bool
  blockIpv6 : Bool
  dataCiphers : List Str
  cipher : Str
  authTokenUser : Str
  authTokenPass : Str
  pushContinuation : Nat
  hasPushReply : Bool
  authPendingSecs : Nat

/-- The bits of an address, the first one first. -/
def addressBits (a : Ipv4Addr) : List Bool :=
  (octets4 a).flatMap fun b => (List.range 8).reverse.map fun i => b.toNat.testBit i

/-- Nothing for a mask with a one behind a zero. -/
def ipv4MaskSize (mask : Ipv4Addr) : Option Nat :=
  let bits := addressBits mask
  let ones := (bits.takeWhile id).length
  if (bits.drop ones).contains true then none else some ones

/-- How a number that does not parse is reported. -/
def parseIntError (max : Nat) (s : Str) : String :=
  match s with
  | [] => "cannot parse integer from empty string"
  | ['+'] => "invalid digit found in string"
  | '+' :: digits => go digits 0
  | digits => go digits 0
where
  go : Str → Nat → String
    | [], _ => ""
    | c :: digits, n =>
      if c.isDigit = false then "invalid digit found in string"
      else
        let next := 10 * n + (c.toNat - '0'.toNat)
        if max < next then "number too large to fit in target type" else go digits next

def addrParseError : String := "invalid IP address syntax"

def parseAddr (s : Str) : Except String IpAddr :=
  match parseIpAddr s with
  | some a => .ok a
  | none => .error addrParseError

def parseCidr (s : Str) : Except String (IpAddr × Nat) :=
  match Str.splitOnce '/' s with
  | none => .error s!"expected addr/prefix, got {Str.debug s}"
  | some (addr, bits) => do
    let addr ← parseAddr addr
    match Str.parseUint 255 bits with
    | none => .error (parseIntError 255 bits)
    | some bits =>
      let max := match addr with
        | .v4 _ => 32
        | .v6 _ => 128
      if max < bits then .error s!"prefix {bits} too long" else .ok (addr, bits)

/-- `split_whitespace`. -/
def splitWhitespace (s : Str) : List Str :=
  (s.splitOnP Str.isWhitespace).filter (· ≠ [])

def pushReply : Str := "PUSH_REPLY".toList

def splitPushOptions (message : Str) : List Str :=
  let parts := (Str.trimEndMatches '\x00' message).splitOn ','
  let parts := if Str.trim (parts.headD []) = pushReply then parts.drop 1 else parts
  (parts.map Str.trim).filter (· ≠ [])

def applyIfconfig (reply : PushReply) (addr mask : Str) : Result PushReply :=
  match parseAddr addr with
  | .error e => .error (.protocol s!"parse pushed ipv4 address {Str.debug addr}: {e}")
  | .ok a =>
    match parseAddr mask with
    | .error e => .error (.protocol s!"parse pushed ipv4 mask {Str.debug mask}: {e}")
    | .ok m =>
      match a, m with
      | .v4 _, .v4 m =>
        .ok { reply with prefixes := reply.prefixes ++ [(a, (ipv4MaskSize m).getD 32)] }
      | _, _ => .error (.protocol "openvpn ifconfig requires ipv4 address and mask")

def applyRoute (reply : PushReply) (addr mask : Str) : PushReply :=
  match parseIpAddr addr, parseIpAddr mask with
  | some a, some (.v4 m) =>
    match ipv4MaskSize m with
    | some ones => { reply with routes := reply.routes ++ [(a, ones)] }
    | none => reply
  | _, _ => reply

def applyContinuation (reply : PushReply) : List Str → Result PushReply
  | [field] =>
    match Str.parseUint (2 ^ 64 - 1) field with
    | none => .error (.protocol s!"invalid push-continuation {Str.debug field}")
    | some n =>
      if 2 < n then .error (.protocol s!"invalid push-continuation {Str.debug field}")
      else .ok { reply with pushContinuation := n }
  | _ => .error (.protocol "invalid push-continuation")

/-- An option by its name and its further fields. -/
def applyOption (reply : PushReply) (name : Str) (fields : List Str) : Result PushReply :=
  if name = "push-continuation".toList then applyContinuation reply fields
  else if name = "redirect-gateway".toList then .ok { reply with redirect := true }
  else if name = "block-ipv6".toList then .ok { reply with blockIpv6 := true }
  else
    match fields with
    | [] => .ok reply
    | first :: rest =>
      if name = "ifconfig-ipv6".toList then
        match parseCidr first with
        | .error e => .error (.protocol s!"parse pushed ipv6 address {Str.debug first}: {e}")
        | .ok p => .ok { reply with prefixes := reply.prefixes ++ [p] }
      else if name = "route-ipv6".toList then
        match parseCidr first with
        | .error _ => .ok reply
        | .ok p => .ok { reply with routes := reply.routes ++ [p] }
      else if name = "peer-id".toList then
        match Str.parseUint (2 ^ 32 - 1) first with
        | none => .ok reply
        | some id => .ok { reply with peerId := UInt32.ofNat (min id 0x00ffffff) }
      else if name = "data-ciphers".toList ∨ name = "ncp-ciphers".toList then
        let ciphers := ((first.splitOn ':').map Str.trim).filter (· ≠ [])
        .ok { reply with dataCiphers := reply.dataCiphers ++ ciphers }
      else if name = "cipher".toList then .ok { reply with cipher := Str.trim first }
      else if name = "auth-token".toList then .ok { reply with authTokenPass := Str.trim first }
      else if name = "auth-token-user".toList then
        let raw := Str.trim first
        match (Base64.decodeStandard raw).or (Base64.decodeNoPad raw) with
        | none => .ok reply
        | some bytes => .ok { reply with authTokenUser := fromUtf8Lossy bytes }
      else
        match rest with
        | [] => .ok reply
        | second :: _ =>
          if name = "ifconfig".toList then applyIfconfig reply first second
          else if name = "route".toList then .ok (applyRoute reply first second)
          else if name = "dhcp-option".toList ∧ first = "DNS".toList then
            match parseIpAddr second with
            | none => .ok reply
            | some addr => .ok { reply with dns := reply.dns ++ [addr] }
          else .ok reply

def emptyReply : PushReply where
  prefixes := []
  routes := []
  dns := []
  peerId := 0x00ffffff
  redirect := false
  blockIpv6 := false
  dataCiphers := []
  cipher := []
  authTokenUser := []
  authTokenPass := []
  pushContinuation := 0
  hasPushReply := true
  authPendingSecs := 0

def parsePushReplyInner (message : Str) : Result PushReply :=
  let message := Str.trimEndMatches '\x00' message
  if ¬ pushReply.isPrefixOf message then
    .error (.protocol s!"unexpected openvpn push message {Str.debug message}")
  else
    (splitPushOptions message).foldlM (fun reply option =>
      match splitWhitespace option with
      | [] => .ok reply
      | name :: fields => applyOption reply name fields) emptyReply

/-! ## Control messages -/

/-- The messages that have come to their end, and what is behind them. -/
def splitControlMessages : Bytes → List Bytes × Bytes
  | [] => ([], [])
  | b :: buf =>
    match splitControlMessages buf with
    | (msgs, rest) =>
      if b = 0 then ([] :: msgs, rest)
      else
        match msgs with
        | [] => ([], b :: rest)
        | m :: msgs => ((b :: m) :: msgs, rest)

def messageText (name : String) : Bytes := utf8 name.toList

def sessionEnds : List Bytes := ["RESTART", "HALT", "EXIT"].map messageText

/-- What one message says. -/
def messageError (m : Bytes) : Result Unit :=
  let s := fromUtf8Lossy m
  if (messageText "AUTH_FAILED").isPrefixOf m then
    .error (.protocol s!"openvpn authentication failed: {txt (Str.trim s)}")
  else if sessionEnds.any (·.isPrefixOf m) then
    .error (.protocol s!"openvpn server terminated the control session: {txt (Str.trim s)}")
  else if (messageText "PUSH_REPLY").isPrefixOf m then
    match parsePushReplyInner s with
    | .ok _ => .ok ()
    | .error e => .error (.protocol s!"invalid openvpn push reply: {e.display}")
  else .ok ()

def controlMessageError (buf : Bytes) : Result Unit :=
  (splitControlMessages buf).1.forM messageError

/-! ## What is terminal -/

/-- The messages that end a tunnel. -/
def TerminalMessage (m : Bytes) : Prop :=
  (messageText "AUTH_FAILED").isPrefixOf m ∨ (∃ name ∈ sessionEnds, name.isPrefixOf m) ∨
    (messageText "PUSH_REPLY").isPrefixOf m ∧
      ∃ e, parsePushReplyInner (fromUtf8Lossy m) = .error e

/-- A message of the text that has come to its end is terminal. -/
def Terminal (text : Bytes) : Prop := ∃ m ∈ (splitControlMessages text).1, TerminalMessage m

theorem messageError_eq_ok {m : Bytes} : messageError m = .ok () ↔ ¬ TerminalMessage m := by
  unfold messageError TerminalMessage
  dsimp only
  by_cases hauth : (messageText "AUTH_FAILED").isPrefixOf m
  · rw [if_pos hauth]
    exact iff_of_false nofun (not_not.mpr (.inl hauth))
  rw [if_neg hauth]
  by_cases hends : sessionEnds.any (·.isPrefixOf m) = true
  · rw [if_pos hends]
    exact iff_of_false nofun (not_not.mpr (.inr (.inl (List.any_eq_true.mp hends))))
  rw [if_neg hends]
  have hends' : ¬ ∃ name ∈ sessionEnds, name.isPrefixOf m = true := fun h =>
    hends (List.any_eq_true.mpr h)
  by_cases hpush : (messageText "PUSH_REPLY").isPrefixOf m
  · rw [if_pos hpush]
    cases hparse : parsePushReplyInner (fromUtf8Lossy m) with
    | ok reply =>
      refine iff_of_true rfl ?_
      rintro (h | h | ⟨-, e, he⟩)
      · exact hauth h
      · exact hends' h
      · cases he
    | error e => exact iff_of_false nofun (not_not.mpr (.inr (.inr ⟨hpush, e, rfl⟩)))
  · rw [if_neg hpush]
    refine iff_of_true rfl ?_
    rintro (h | h | ⟨h, -⟩)
    · exact hauth h
    · exact hends' h
    · exact hpush h

theorem forM_eq_ok {msgs : List Bytes} :
    msgs.forM messageError = .ok () ↔ ∀ m ∈ msgs, ¬ TerminalMessage m := by
  induction msgs with
  | nil => exact iff_of_true rfl nofun
  | cons m msgs ih =>
    change (messageError m >>= fun _ => msgs.forM messageError) = .ok () ↔ _
    rw [List.forall_mem_cons, ← messageError_eq_ok, ← ih]
    cases messageError m with
    | ok _ => exact (and_iff_right rfl).symm
    | error e => exact iff_of_false nofun fun h => nomatch h.1

theorem controlMessageError_eq_ok {text : Bytes} :
    controlMessageError text = .ok () ↔ ¬ Terminal text := by
  unfold controlMessageError Terminal
  rw [forM_eq_ok]
  constructor
  · rintro h ⟨m, hm, hterminal⟩
    exact h m hm hterminal
  · intro h m hm hterminal
    exact h ⟨m, hm, hterminal⟩

theorem split_zero (buf : Bytes) : splitControlMessages (0 :: buf) =
    ([] :: (splitControlMessages buf).1, (splitControlMessages buf).2) := rfl

theorem split_first {b : UInt8} (hb : b ≠ 0) {buf m : Bytes} {msgs : List Bytes}
    (h : (splitControlMessages buf).1 = m :: msgs) :
    splitControlMessages (b :: buf) = ((b :: m) :: msgs, (splitControlMessages buf).2) := by
  rw [splitControlMessages]
  dsimp only
  rw [if_neg hb, h]

theorem split_unfinished {buf : Bytes} (h : (splitControlMessages buf).1 = []) :
    (splitControlMessages buf).2 = buf ∧ ∀ b, b ≠ 0 →
      splitControlMessages (b :: buf) = ([], b :: buf) := by
  induction buf with
  | nil =>
    refine ⟨rfl, fun b hb => ?_⟩
    unfold splitControlMessages
    exact if_neg hb
  | cons x buf ih =>
    have hx : x ≠ 0 := by
      rintro rfl
      cases h
    cases hmsgs : (splitControlMessages buf).1 with
    | nil =>
      have hsplit := (ih hmsgs).2 x hx
      refine ⟨congrArg Prod.snd hsplit, fun b hb => ?_⟩
      rw [splitControlMessages, hsplit]
      dsimp only
      rw [if_neg hb]
    | cons m msgs =>
      rw [split_first hx hmsgs] at h
      cases h

/-- What comes behind a text ends its unfinished message. -/
theorem splitControlMessages_append (a b : Bytes) :
    (splitControlMessages (a ++ b)).1 =
      (splitControlMessages a).1 ++ (splitControlMessages ((splitControlMessages a).2 ++ b)).1 := by
  induction a with
  | nil => rfl
  | cons x a ih =>
    rw [List.cons_append]
    by_cases hx : x = 0
    · rw [hx, split_zero, split_zero, ih]
      rfl
    · cases hmsgs : (splitControlMessages a).1 with
      | nil => rw [(split_unfinished hmsgs).2 x hx, List.nil_append, List.cons_append]
      | cons m msgs =>
        rw [hmsgs, List.cons_append] at ih
        rw [split_first hx ih, split_first hx hmsgs]
        rfl

theorem terminal_append {a : Bytes} (h : Terminal a) (b : Bytes) : Terminal (a ++ b) := by
  obtain ⟨m, hm, hterminal⟩ := h
  refine ⟨m, ?_, hterminal⟩
  rw [splitControlMessages_append]
  exact List.mem_append_left _ hm

end RustCrash.OpenVpn
