import RustCrash.OpenVpn.DataRun

/-
  The data epochs of a client: the current one and the retiring one, and the one that packets go
  out with.

  In every state behind the first `install_data_channel` the current and the outbound key are those
  of an epoch that is there, no other epoch than these is kept, and a write comes to an end with
  what the channel or the link says (`epochs_hold`).
-/

namespace RustCrash.OpenVpn

open Lib

def authDeferredExpire : Nat := 60
def preSessionQueueMax : Nat := 512

def openvpnPingPacket : Bytes :=
  [0x2a, 0x18, 0x7b, 0xf3, 0x64, 0x1e, 0xb4, 0xcb, 0x07, 0xed, 0x2d, 0x0a, 0x98, 0x1f, 0xc7, 0x48]

def lzoFrame (packet : Bytes) : Bytes := 0xFA :: packet

def lzoUnframe : Bytes → Result Bytes
  | [] => .ok []
  | first :: rest =>
    if first = 0xFA then .ok rest
    else if first = 0x66 then .error (.protocol ("openvpn: comp-lzo compressed packet (0x66) " ++
      "received, but the engine has no LZO decompressor (upstream vendors rasky/go-lzo); the " ++
      "port frames uncompressed packets with 0xFA like upstream's lzo1xCompressSafe"))
    else .error (.protocol ("openvpn: bad comp-lzo framing byte 0x" ++
      String.ofList (Nat.toDigits 16 first.toNat)))

inductive Link where
  | tcp
  | udp

/-- `io` is what the socket says. -/
def Link.writePacket (link : Link) (io : Except String Unit) (packet : Bytes) : Result Unit :=
  match link with
  | .tcp =>
    if 0xffff < packet.length then
      .error (.network s!"openvpn TCP packet too large: {packet.length}")
    else io.mapError .network
  | .udp => io.mapError .network

/-- What a client has of its data epochs. -/
structure DataClient where
  transitionWindow : Nat
  compLzo : Bool
  data : UInt8 → Option DataChannel
  currentKey : Option UInt8
  outboundKey : Option UInt8
  outboundStart : Nat
  retiring : Option (UInt8 × Nat)
  lastSend : Nat
  lastReceive : Nat
  ingress : List Bytes
  fail : Option Error

structure Selected where
  current : Option UInt8
  outbound : Option UInt8
  promote : Bool

/-- A call of `write_data_packet`: `clock` are the readings of the clock one after another. -/
structure DataWrite where
  packet : Bytes
  compress : Bool
  iv : Aes.Block
  clock : Nat → Nat
  link : Link
  io : Except String Unit

inductive DataEvent where
  | install (newData : DataChannel) (expiryFrom start : Nat)
  | inbound (packet : Bytes) (now received : Nat)
  | write (w : DataWrite)

namespace DataClient

def new (transitionWindow : Nat) (compLzo : Bool) (now : Nat) : DataClient where
  transitionWindow := transitionWindow
  compLzo := compLzo
  data _ := none
  currentKey := none
  outboundKey := none
  outboundStart := now
  retiring := none
  lastSend := now
  lastReceive := now
  ingress := []
  fail := none

def failTunnel (c : DataClient) (e : Error) : DataClient :=
  if c.fail.isNone then { c with fail := some e } else c

def insert (c : DataClient) (key : UInt8) (channel : DataChannel) : DataClient :=
  { c with data := Function.update c.data key (some channel) }

def retain (c : DataClient) (keep : List UInt8) : DataClient :=
  { c with data := fun key => if key ∈ keep then c.data key else none }

/-! ## A new epoch -/

def retiringOf (c : DataClient) (newKey : UInt8) (expiryFrom : Nat) : Option (UInt8 × Nat) :=
  match c.currentKey with
  | some oldKey =>
    if oldKey ≠ newKey then some (oldKey, expiryFrom + c.transitionWindow) else c.retiring
  | none => c.retiring

def installDataChannel (c : DataClient) (newData : DataChannel) (expiryFrom start : Nat) :
    DataClient :=
  let newKey := newData.keyId
  let c := { c with
    currentKey := some newKey
    retiring := c.retiringOf newKey expiryFrom
    outboundKey := some (c.currentKey.getD newKey)
    outboundStart := start }
  (c.insert newKey newData).retain ([c.currentKey, c.retiring.map Prod.fst].filterMap id)

/-! ## Packets -/

variable (hmac : Hmac)

/-- The epoch is the retiring one, and its time is over. -/
def isExpired (c : DataClient) (key : UInt8) (now : Nat) : Bool :=
  match c.retiring with
  | some (kid, expiry) => kid = key && expiry < now
  | none => false

/-- A packet that an epoch has decrypted. -/
def received (c : DataClient) (plain : Bytes) (now : Nat) : DataClient :=
  let c := { c with lastReceive := now }
  match if c.compLzo && plain ≠ [] then lzoUnframe plain else .ok plain with
  | .error e => c.failTunnel e
  | .ok plain =>
    if plain = openvpnPingPacket then c
    else if c.ingress.length < preSessionQueueMax then { c with ingress := c.ingress ++ [plain] }
    else c

def onDataPacket (c : DataClient) (packet : Bytes) (now received : Nat) : DataClient :=
  let keyId := (parseOpcodeKeyId (packet.headD 0)).2
  if c.isExpired keyId now then c
  else
    match c.data keyId with
    | none => c
    | some channel =>
      match channel.decrypt hmac packet with
      | (channel, .error _) => c.insert keyId channel
      | (channel, .ok plain) =>
        let active := c.currentKey = some keyId || channel.peerActive
        (c.insert keyId { channel with peerActive := active }).received plain received

def selectOutbound (c : DataClient) (selectionNow retiringNow : Nat) : Selected :=
  match c.currentKey, c.outboundKey.or c.currentKey with
  | none, _ => ⟨none, none, false⟩
  | some cur, none => ⟨some cur, none, false⟩
  | some cur, some out =>
    if out = cur then ⟨some cur, some out, false⟩
    else
      let peerActive := (c.data cur).any DataChannel.peerActive
      let selectionExpired := c.outboundStart + authDeferredExpire < selectionNow
      let retiringExpired := c.isExpired out retiringNow
      ⟨some cur, some out, peerActive || selectionExpired || retiringExpired⟩

/-- The outbound key is that of the new epoch. -/
def promote (c : DataClient) (current : UInt8) (now : Nat) : DataClient :=
  { c with outboundKey := some current, outboundStart := now }

/-- Only an epoch that packets do not go out with yet is promoted. -/
theorem select_promote {c : DataClient} {selectionNow retiringNow : Nat}
    (h : (c.selectOutbound selectionNow retiringNow).promote = true) :
    c.outboundKey ≠ c.currentKey ∧
      (c.selectOutbound selectionNow retiringNow).current = c.currentKey := by
  unfold selectOutbound at h ⊢
  cases hcurrent : c.currentKey with
  | none =>
    rw [hcurrent] at h
    cases h
  | some cur =>
    cases houtbound : c.outboundKey with
    | none =>
      rw [hcurrent, houtbound] at h
      dsimp only [Option.or] at h
      rw [if_pos rfl] at h
      cases h
    | some out =>
      rw [hcurrent, houtbound] at h
      dsimp only [Option.or] at h ⊢
      by_cases hsame : out = cur
      · rw [if_pos hsame] at h
        cases h
      · rw [if_neg hsame]
        exact ⟨fun heq => hsame (Option.some.inj heq), rfl⟩

def notReady : Error := .network "openvpn data channel is not ready"
def epochVanished : Error := .network "openvpn data epoch vanished mid-write"

/-- The loop comes to an end: what is promoted is selected in the next round. Nothing where the
    source panics. -/
def writeLoop (c : DataClient) (w : DataWrite) (packet : Bytes) (round : Nat) :
    DataClient × Option (Result Unit) :=
  let s := c.selectOutbound (w.clock (3 * round)) (w.clock (3 * round + 1))
  match _hcurrent : s.current, s.outbound with
  | none, _ => (c, some (.error notReady))
  | some _, none => (c, some (.error notReady))
  | some current, some outbound =>
    if hpromote : s.promote = true then
      writeLoop (c.promote current (w.clock (3 * round + 2))) w packet (round + 1)
    else
      match c.data outbound with
      | none => (c, some (.error epochVanished))
      | some channel =>
        match channel.encrypt hmac w.iv packet with
        | none => (c, none)
        | some (channel, .error e) => (c.insert outbound channel, some (.error e))
        | some (channel, .ok encrypted) =>
          match w.link.writePacket w.io encrypted with
          | .error e => (c.insert outbound channel, some (.error e))
          | .ok () =>
            ({ c.insert outbound channel with lastSend := w.clock (3 * round + 2) }, some (.ok ()))
termination_by if c.outboundKey = c.currentKey then 0 else 1
decreasing_by
  obtain ⟨hne, hsame⟩ := select_promote hpromote
  rw [if_neg hne, if_pos]
  · exact Nat.one_pos
  · exact _hcurrent.symm.trans hsame

def writeDataPacket (c : DataClient) (w : DataWrite) : DataClient × Option (Result Unit) :=
  c.writeLoop hmac w (if w.compress && c.compLzo then lzoFrame w.packet else w.packet) 0

/-! ## Runs -/

def step (c : DataClient) : DataEvent → DataClient
  | .install newData expiryFrom start => c.installDataChannel newData expiryFrom start
  | .inbound packet now received => c.onDataPacket hmac packet now received
  | .write w =>
    match c.writeDataPacket hmac w with
    | (c, some (.error e)) => c.failTunnel e
    | (c, _) => c

def run (c : DataClient) (events : List DataEvent) : DataClient := events.foldl (step hmac) c

/-! ## What holds of the epochs -/

/-- The epochs behind the first `install_data_channel`. -/
structure EpochsHold (c : DataClient) : Prop where
  current : ∃ key, c.currentKey = some key ∧ c.data key ≠ none
  outbound : ∃ key, c.outboundKey = some key ∧ c.data key ≠ none
  held : ∀ key, c.data key ≠ none → c.currentKey = some key ∨ c.retiring.map Prod.fst = some key
  retiring : c.retiring.map Prod.fst ≠ c.currentKey

/-- No epoch so far. -/
structure NoEpochs (c : DataClient) : Prop where
  data : ∀ key, c.data key = none
  current : c.currentKey = none
  retiring : c.retiring = none

variable {hmac} {c : DataClient} {key : UInt8}

theorem insert_data_ne (hkey : c.data key ≠ none) (channel : DataChannel) (k : UInt8) :
    (c.insert key channel).data k ≠ none ↔ c.data k ≠ none := by
  unfold insert
  dsimp only
  by_cases hk : k = key
  · rw [hk, Function.update_self]
    exact iff_of_true (Option.some_ne_none _) hkey
  · rw [Function.update_of_ne hk]

theorem EpochsHold.insert (h : c.EpochsHold) (hkey : c.data key ≠ none) (channel : DataChannel) :
    (c.insert key channel).EpochsHold where
  current := by
    obtain ⟨k, hcurrent, hk⟩ := h.current
    exact ⟨k, hcurrent, (insert_data_ne hkey channel k).mpr hk⟩
  outbound := by
    obtain ⟨k, houtbound, hk⟩ := h.outbound
    exact ⟨k, houtbound, (insert_data_ne hkey channel k).mpr hk⟩
  held k hk := h.held k ((insert_data_ne hkey channel k).mp hk)
  retiring := h.retiring

theorem EpochsHold.promote (h : c.EpochsHold) (hcurrent : c.currentKey = some key) (now : Nat) :
    (c.promote key now).EpochsHold where
  current := h.current
  outbound := by
    obtain ⟨k, hk, hdata⟩ := h.current
    cases hcurrent.symm.trans hk
    exact ⟨key, rfl, hdata⟩
  held := h.held
  retiring := h.retiring

theorem EpochsHold.failTunnel (h : c.EpochsHold) (e : Error) : (c.failTunnel e).EpochsHold := by
  unfold DataClient.failTunnel
  split_ifs
  · exact ⟨h.current, h.outbound, h.held, h.retiring⟩
  · exact h

/-- The retiring epoch is the one that was current, or stays the one it was. -/
theorem retiringOf_ne (h : c.NoEpochs ∨ c.EpochsHold) (newKey : UInt8) (expiryFrom : Nat) :
    (c.retiringOf newKey expiryFrom).map Prod.fst ≠ some newKey := by
  unfold retiringOf
  rcases h with hnone | h
  · rw [hnone.current, hnone.retiring]
    exact nofun
  · obtain ⟨oldKey, hcurrent, -⟩ := h.current
    have hne := h.retiring
    rw [hcurrent] at hne ⊢
    dsimp only
    by_cases hsame : oldKey ≠ newKey
    · rw [if_pos hsame]
      exact fun heq => hsame (Option.some.inj heq)
    · rw [if_neg hsame, ← not_not.mp hsame]
      exact hne

/-- An epoch that is installed becomes the current one, whatever its key. -/
theorem install_holds (h : c.NoEpochs ∨ c.EpochsHold) (newData : DataChannel)
    (expiryFrom start : Nat) : (c.installDataChannel newData expiryFrom start).EpochsHold := by
  have hne := retiringOf_ne h newData.keyId expiryFrom
  have hmem : ∀ k, k ∈ [some newData.keyId, (c.retiringOf newData.keyId expiryFrom).map
      Prod.fst].filterMap id ↔
      k = newData.keyId ∨ (c.retiringOf newData.keyId expiryFrom).map Prod.fst = some k := by
    intro k
    simp only [List.mem_filterMap, List.mem_cons, List.not_mem_nil, or_false, id_eq,
      exists_eq_right, Option.some.injEq]
    exact or_congr_right eq_comm
  have hdata : ∀ k, (c.installDataChannel newData expiryFrom start).data k ≠ none ↔
      k = newData.keyId ∨ (c.retiringOf newData.keyId expiryFrom).map Prod.fst = some k ∧
        c.data k ≠ none := by
    intro k
    unfold installDataChannel retain DataClient.insert
    dsimp only
    rw [if_congr (hmem k) rfl rfl]
    by_cases hk : k = newData.keyId
    · rw [if_pos (.inl hk), hk, Function.update_self]
      exact iff_of_true (Option.some_ne_none _) (.inl rfl)
    · rw [Function.update_of_ne hk]
      simp only [hk, false_or, ne_eq, ite_eq_right_iff, Classical.not_imp]
  refine ⟨⟨newData.keyId, rfl, (hdata _).mpr (.inl rfl)⟩,
    ⟨c.currentKey.getD newData.keyId, rfl, (hdata _).mpr ?_⟩, fun k hk => ?_, hne⟩
  · rcases h with hnone | h
    · rw [hnone.current]
      exact .inl rfl
    · obtain ⟨oldKey, hcurrent, hold⟩ := h.current
      unfold retiringOf
      rw [hcurrent]
      dsimp only [Option.getD_some]
      by_cases hsame : oldKey ≠ newData.keyId
      · rw [if_pos hsame]
        exact .inr ⟨rfl, hold⟩
      · exact .inl (not_not.mp hsame)
  · rcases (hdata k).mp hk with rfl | ⟨hretiring, -⟩
    · exact .inl rfl
    · exact .inr hretiring

theorem EpochsHold.received (h : c.EpochsHold) (plain : Bytes) (now : Nat) :
    (c.received plain now).EpochsHold := by
  have hsame : ({ c with lastReceive := now } : DataClient).EpochsHold :=
    ⟨h.current, h.outbound, h.held, h.retiring⟩
  unfold DataClient.received
  dsimp only
  split
  · exact hsame.failTunnel _
  · split_ifs
    · exact hsame
    · exact ⟨h.current, h.outbound, h.held, h.retiring⟩
    · exact hsame

theorem EpochsHold.onDataPacket (h : c.EpochsHold) (packet : Bytes) (now received : Nat) :
    (c.onDataPacket hmac packet now received).EpochsHold := by
  unfold DataClient.onDataPacket
  dsimp only
  split_ifs
  · exact h
  · cases hdata : c.data (parseOpcodeKeyId (packet.headD 0)).2 with
    | none => exact h
    | some channel =>
      have hne : c.data (parseOpcodeKeyId (packet.headD 0)).2 ≠ none := by
        rw [hdata]
        exact Option.some_ne_none _
      dsimp only
      split
      · exact h.insert hne _
      · exact (h.insert hne _).received _ _

/-- How a write ends: the channel has no ids left, or what the link says is the result. Nothing
    where the source panics. -/
def Ended (w : DataWrite) (result : Option (Result Unit)) : Prop :=
  result = none ∨
    result = some (.error (.network "openvpn data packet id reached rekey threshold")) ∨
    ∃ encrypted, result = some (w.link.writePacket w.io encrypted)

theorem encrypt_error {channel channel' : DataChannel} {iv : Aes.Block} {packet : Bytes} {e : Error}
    (h : channel.encrypt hmac iv packet = some (channel', .error e)) :
    e = .network "openvpn data packet id reached rekey threshold" := by
  rcases channel.encrypt_cases hmac iv packet with
    hnone | ⟨-, herror⟩ | ⟨_, _, hok, -, -, -⟩
  · rw [hnone] at h
    cases h
  · rw [herror] at h
    cases h
    rfl
  · rw [hok] at h
    cases h

theorem select_keys {current outbound : UInt8} (hcurrent : c.currentKey = some current)
    (houtbound : c.outboundKey = some outbound) (selectionNow retiringNow : Nat) :
    (c.selectOutbound selectionNow retiringNow).current = some current ∧
      (c.selectOutbound selectionNow retiringNow).outbound = some outbound := by
  unfold selectOutbound
  rw [hcurrent, houtbound]
  dsimp only [Option.or]
  split_ifs
  · exact ⟨rfl, rfl⟩
  · exact ⟨rfl, rfl⟩

/-- The epoch that is selected is there, in the first round and behind a promotion. -/
theorem EpochsHold.writeLoop (h : c.EpochsHold) (w : DataWrite) (packet : Bytes) (round : Nat) :
    (c.writeLoop hmac w packet round).1.EpochsHold ∧
      Ended w (c.writeLoop hmac w packet round).2 := by
  have hkeys : ∀ {c : DataClient}, c.EpochsHold → ∃ current outbound, c.currentKey = some current ∧
      c.data outbound ≠ none ∧ ∀ a b, (c.selectOutbound a b).current = some current ∧
        (c.selectOutbound a b).outbound = some outbound := by
    intro c h
    obtain ⟨current, hcurrent, -⟩ := h.current
    obtain ⟨outbound, houtbound, hdata⟩ := h.outbound
    exact ⟨current, outbound, hcurrent, hdata, select_keys hcurrent houtbound⟩
  fun_induction DataClient.writeLoop hmac c w packet round
  all_goals obtain ⟨current, outbound, hcurrent, hdata, hselect⟩ := hkeys h
  case case1 hnone =>
    cases hnone.symm.trans (hselect _ _).1
  case case2 hnone =>
    cases hnone.symm.trans (hselect _ _).2
  case case3 hsome _ _ ih =>
    cases hsome.symm.trans (hselect _ _).1
    exact ih (h.promote hcurrent _)
  all_goals
    rename (Selected.outbound _ = some _) => hsome
    cases hsome.symm.trans (hselect _ _).2
  case case4 hnone =>
    exact absurd hnone hdata
  case case5 =>
    exact ⟨h, .inl rfl⟩
  case case6 hencrypt =>
    rw [encrypt_error hencrypt]
    exact ⟨h.insert hdata _, .inr (.inl rfl)⟩
  case case7 hlink =>
    exact ⟨h.insert hdata _, .inr (.inr ⟨_, congrArg some hlink.symm⟩)⟩
  case case8 hlink =>
    have hinsert := h.insert hdata ‹DataChannel›
    exact ⟨⟨hinsert.current, hinsert.outbound, hinsert.held, hinsert.retiring⟩,
      .inr (.inr ⟨_, congrArg some hlink.symm⟩)⟩

variable (hmac) in
theorem EpochsHold.writeDataPacket (h : c.EpochsHold) (w : DataWrite) :
    (c.writeDataPacket hmac w).1.EpochsHold ∧ Ended w (c.writeDataPacket hmac w).2 := by
  unfold DataClient.writeDataPacket
  exact h.writeLoop w _ 0

theorem EpochsHold.step (h : c.EpochsHold) (event : DataEvent) : (c.step hmac event).EpochsHold := by
  cases event with
  | install newData expiryFrom start => exact install_holds (.inr h) newData expiryFrom start
  | inbound packet now received => exact h.onDataPacket packet now received
  | write w =>
    have hwrite := (h.writeDataPacket hmac w).1
    unfold DataClient.step
    dsimp only
    split
    · rename_i heq
      rw [heq] at hwrite
      exact hwrite.failTunnel _
    · rename_i heq
      rw [heq] at hwrite
      exact hwrite

theorem NoEpochs.writeLoop (h : c.NoEpochs) (w : DataWrite) (packet : Bytes) (round : Nat) :
    c.writeLoop hmac w packet round = (c, some (.error notReady)) := by
  have hselect : ∀ {c : DataClient}, c.NoEpochs → ∀ a b, (c.selectOutbound a b).current = none := by
    intro c h a b
    unfold selectOutbound
    rw [h.current]
  fun_induction DataClient.writeLoop hmac c w packet round
  case case1 => rfl
  case case2 => rfl
  all_goals
    rename (Selected.current _ = some _) => hsome
    cases hsome.symm.trans (hselect h _ _)

/-- Nothing that comes in front of the first epoch makes one. -/
theorem NoEpochs.step (h : c.NoEpochs) (event : DataEvent) :
    (c.step hmac event).NoEpochs ∨ (c.step hmac event).EpochsHold := by
  cases event with
  | install newData expiryFrom start => exact .inr (install_holds (.inl h) newData expiryFrom start)
  | inbound packet now received =>
    refine .inl ?_
    unfold DataClient.step onDataPacket
    dsimp only
    rw [h.data]
    split_ifs
    · exact h
    · exact h
  | write w =>
    refine .inl ?_
    unfold DataClient.step writeDataPacket
    dsimp only
    rw [h.writeLoop]
    dsimp only
    unfold DataClient.failTunnel
    split_ifs
    · exact ⟨h.data, h.current, h.retiring⟩
    · exact h

theorem EpochsHold.run (h : c.EpochsHold) (events : List DataEvent) :
    (c.run hmac events).EpochsHold := by
  induction events generalizing c with
  | nil => exact h
  | cons event events ih => exact ih (h.step event)

theorem run_epochs (h : c.NoEpochs ∨ c.EpochsHold) (events : List DataEvent) :
    (c.run hmac events).NoEpochs ∨ (c.run hmac events).EpochsHold := by
  induction events generalizing c with
  | nil => exact h
  | cons event events ih =>
    apply ih
    rcases h with h | h
    · exact h.step event
    · exact .inr (h.step event)

theorem noEpochs_new (transitionWindow : Nat) (compLzo : Bool) (now : Nat) :
    (new transitionWindow compLzo now).NoEpochs := ⟨fun _ => rfl, rfl, rfl⟩

/-- Whatever has come before and comes behind an epoch is installed, in any order and at any time:
    the current and the outbound epoch are there, no other than the current and the retiring one
    is, these two differ, and a write ends with what the link says or with no ids left, and so
    never with an epoch that is missing but for a link that says so. -/
theorem epochs_hold (hmac : Hmac) (transitionWindow : Nat) (compLzo : Bool) (now : Nat)
    (before after : List DataEvent) (newData : DataChannel) (expiryFrom start : Nat) (w : DataWrite) :
    let c := (new transitionWindow compLzo now).run hmac
      (before ++ .install newData expiryFrom start :: after)
    c.EpochsHold ∧ Ended w (c.writeDataPacket hmac w).2 ∧
      ∀ e, e = notReady ∨ e = epochVanished → (c.writeDataPacket hmac w).2 = some (.error e) →
        ∃ encrypted, w.link.writePacket w.io encrypted = .error e := by
  have hold : ((new transitionWindow compLzo now).run hmac
      (before ++ .install newData expiryFrom start :: after)).EpochsHold := by
    unfold DataClient.run
    rw [List.foldl_append, List.foldl_cons]
    apply EpochsHold.run
    exact install_holds (run_epochs (.inl (noEpochs_new transitionWindow compLzo now)) before)
      newData expiryFrom start
  have hended := (hold.writeDataPacket hmac w).2
  refine ⟨hold, hended, fun e he hresult => ?_⟩
  rcases hended with hnone | hthreshold | ⟨encrypted, hlink⟩
  · cases hnone.symm.trans hresult
  · cases hthreshold.symm.trans hresult
    rcases he with he | he
    · exact absurd he (by decide)
    · exact absurd he (by decide)
  · exact ⟨encrypted, Option.some.inj (hlink.symm.trans hresult)⟩

end DataClient

end RustCrash.OpenVpn
