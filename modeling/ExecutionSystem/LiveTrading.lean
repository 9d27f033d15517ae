import ExecutionSystem.Machine
import ExecutionSystem.Models

/-!
# The live-trading gate

The connection of `IBKRBrokerClient` in `src/broker/ibkr_broker.py`, as far
as it decides which account an order goes to. The gate is in three places:
`connect` tests its configuration before it dials and the managed accounts
once it is connected; `place_order` tests the accounts again before every
order; and `_auto_reconnect` dials without a test of its own.

Only `connect` asks that a configured account be among the accounts the
gateway manages, and `place_order` awaits the qualification of the contract
between its test and the transmission. So an order is transmitted on an
account it is meant for exactly when, at the transmission, the accounts
connected still pass the test of `place_order`, and a configured account is
among them or all of them are paper accounts.
-/

/-- What the gates read of `BrokerConfig`, and the environment variable
`ALLOW_LIVE_TRADING` that they read with it. -/
structure BrokerConfig where
  /-- `live_trading.enabled` -/
  liveTrading : Bool
  /-- `account.account_id`, empty where none is configured. -/
  accountId : String
  /-- `account.allowlist` -/
  allowlist : List String
  /-- `reconnection.enabled` -/
  reconnection : Bool
  /-- `reconnection.max_retries` -/
  maxRetries : ℕ
  /-- `os.environ.get("ALLOW_LIVE_TRADING")` -/
  allowLiveTrading : Option String

/-- A paper account is named by its prefix, `DU` or `DF`. The name is taken to be an
ASCII text, of which `toUpper` is `upper()`. -/
def isPaperAccount (account : String) : Bool :=
  account.toUpper.startsWith "DU" || account.toUpper.startsWith "DF"

/-- What a gate raises. -/
inductive GateError where
  | environmentNotSet
  | allowlistEmpty
  | noManagedAccounts
  | accountNotManaged (accountId : String)
  | accountNotAllowed (accountId : String)
  /-- `connect` names the live accounts it found. -/
  | liveAccounts (accounts : List String)
  | liveTradingDisabled
  deriving DecidableEq

namespace BrokerConfig

variable (cfg : BrokerConfig)

/-- The environment confirms live trading. -/
def confirmed : Bool :=
  cfg.allowLiveTrading = some "I_UNDERSTAND_THIS_CAN_LOSE_MONEY"

/-- The accounts that have to be on the allowlist: the one configured, or
else all that are connected. -/
def tradedAccounts (accounts : List String) : List String :=
  if cfg.accountId = "" then accounts else [cfg.accountId]

/-- The first of these that is not on the allowlist. -/
def notAllowed (accounts : List String) : Option GateError :=
  ((cfg.tradedAccounts accounts).find? (· ∉ cfg.allowlist)).map .accountNotAllowed

/-- **What `connect` tests before it dials.** -/
def connectGate : Option GateError :=
  if cfg.liveTrading then
    if !cfg.confirmed then some .environmentNotSet
    else if cfg.allowlist = [] then some .allowlistEmpty
    else cfg.notAllowed []
  else none

/-- **What `connect` tests once it is connected.** -/
def connectedGate (accounts : List String) : Option GateError :=
  if cfg.liveTrading then
    if accounts = [] then some .noManagedAccounts
    else if cfg.accountId ≠ "" ∧ cfg.accountId ∉ accounts then
      some (.accountNotManaged cfg.accountId)
    else cfg.notAllowed accounts
  else if accounts.all isPaperAccount then none
  else some (.liveAccounts (accounts.filter (!isPaperAccount ·)))

/-- **What `place_order` tests before every order.** -/
def submissionGate (accounts : List String) : Option GateError :=
  if accounts.all isPaperAccount then none
  else if !cfg.liveTrading then some .liveTradingDisabled
  else if !cfg.confirmed then some .environmentNotSet
  else cfg.notAllowed accounts

/-- **An order may be transmitted on these accounts**: they are all paper
accounts, or live trading is enabled and confirmed, and the configured
account is connected and allowed, or none is configured and all are
allowed. -/
def Permits (accounts : List String) : Prop :=
  (∀ acc ∈ accounts, isPaperAccount acc = true)
    ∨ cfg.liveTrading = true ∧ cfg.confirmed = true
      ∧ (cfg.accountId ≠ "" ∧ cfg.accountId ∈ accounts ∧ cfg.accountId ∈ cfg.allowlist
        ∨ cfg.accountId = "" ∧ ∀ acc ∈ accounts, acc ∈ cfg.allowlist)

/-- **The account traded on is connected**: a configured one is among the
accounts, unless all of them are paper accounts. -/
def AccountConnected (accounts : List String) : Prop :=
  (∀ acc ∈ accounts, isPaperAccount acc = true) ∨ cfg.accountId = ""
    ∨ cfg.accountId ∈ accounts

instance : DecidablePred cfg.Permits := fun _ => inferInstanceAs (Decidable (_ ∨ _))

variable {cfg} {accounts : List String}

theorem notAllowed_eq_none :
    cfg.notAllowed accounts = none ↔ ∀ acc ∈ cfg.tradedAccounts accounts, acc ∈ cfg.allowlist := by
  rw [notAllowed, Option.map_eq_none_iff, List.find?_eq_none]
  exact forall₂_congr fun acc _ => by rw [decide_eq_true_eq, not_not]

/-- The gate of `place_order` is open. -/
theorem submissionGate_eq_none :
    cfg.submissionGate accounts = none
      ↔ (∀ acc ∈ accounts, isPaperAccount acc = true)
        ∨ cfg.liveTrading = true ∧ cfg.confirmed = true
          ∧ ∀ acc ∈ cfg.tradedAccounts accounts, acc ∈ cfg.allowlist := by
  unfold submissionGate
  rw [← List.all_eq_true, ← notAllowed_eq_none]
  by_cases hpaper : accounts.all isPaperAccount = true
  · simp [hpaper]
  · cases hlive : cfg.liveTrading <;> cases hconf : cfg.confirmed <;> simp [hpaper]

/-- **What the gate of `place_order` leaves to `connect`** is that the
account traded on is connected. -/
theorem permits_iff :
    cfg.Permits accounts
      ↔ cfg.submissionGate accounts = none ∧ cfg.AccountConnected accounts := by
  rw [submissionGate_eq_none, Permits, AccountConnected, tradedAccounts]
  by_cases hpaper : ∀ acc ∈ accounts, isPaperAccount acc = true
  · exact iff_of_true (.inl hpaper) ⟨.inl hpaper, .inl hpaper⟩
  · rw [or_iff_right hpaper, or_iff_right hpaper, or_iff_right hpaper]
    by_cases hid : cfg.accountId = ""
    · simp [hid]
    · simp only [hid, if_false, List.forall_mem_singleton, false_or, ne_eq,
        not_false_eq_true, true_and, false_and, or_false]
      tauto

/-- The two tests of `connect` leave nothing open: an account list that
`_auto_reconnect` would have tested like this may be traded on. -/
theorem permits_of_connect (h : cfg.connectGate = none)
    (h' : cfg.connectedGate accounts = none) : cfg.Permits accounts := by
  unfold connectGate at h
  unfold connectedGate at h'
  split_ifs at h h' with hlive hconf hlist hnone hmanaged hpaper
  · rw [notAllowed_eq_none, tradedAccounts] at h'
    have hconf : cfg.confirmed = true := by simpa using hconf
    by_cases hid : cfg.accountId = ""
    · rw [if_pos hid] at h'
      exact .inr ⟨hlive, hconf, .inr ⟨hid, h'⟩⟩
    · rw [if_neg hid, List.forall_mem_singleton] at h'
      have hmem : cfg.accountId ∈ accounts := by
        by_contra hmem
        exact hmanaged ⟨hid, hmem⟩
      exact .inr ⟨hlive, hconf, .inl ⟨hid, hmem, h'⟩⟩
  · exact .inl (List.all_eq_true.mp hpaper)

end BrokerConfig

/-- A coroutine that dials: a call of `connect`, or a task of
`_auto_reconnect` at the head of its loop, in its sleep or awaiting
`connectAsync`. While `connectAsync` is awaited the connection may be up
already. -/
inductive Dialer where
  | connect (up : Bool)
  | loop (retries : ℕ)
  | sleeping (retries : ℕ)
  | reconnect (retries : ℕ) (up : Bool)
  | done
  deriving DecidableEq

/-- A call of `place_order` that has passed its gate and awaits the
qualification of its contract. -/
structure Placement where
  plan : OrderPlan
  emergencyFlatten : Bool
  /-- The accounts the gate saw. -/
  accounts : List String
  deriving DecidableEq

/-- Market orders are for an emergency only. -/
def Placement.supported (p : Placement) : Bool :=
  p.plan.orderType = .lmt || p.emergencyFlatten

/-- **The client**: its connection – the accounts it manages, `none` while
it is down – and the coroutines under way. -/
structure IBKRBrokerClient where
  connection : Option (List String) := none
  intentionalDisconnect : Bool := false
  dialers : List Dialer := []
  placements : List (Option Placement) := []
  deriving DecidableEq

namespace IBKRBrokerClient

/-- What happens next. -/
inductive Label where
  /-- `connect` is called. -/
  | connect
  /-- `disconnect` is called. -/
  | disconnect
  /-- The connection is lost. -/
  | lost
  /-- A dialer goes on: from the head of its loop, from its sleep, or
  because `connectAsync` returned. -/
  | proceed (t : ℕ)
  /-- The connection a dialer waits for is up, with these accounts. -/
  | established (t : ℕ) (accounts : List String)
  /-- `connectAsync` raised or timed out. -/
  | failed (t : ℕ)
  /-- `place_order` is called. -/
  | placeOrder (plan : OrderPlan) (emergencyFlatten : Bool)
  /-- The contract of a placement is qualified. -/
  | qualified (i : ℕ)
  /-- It could not be qualified. -/
  | unqualified (i : ℕ)

/-- A dialer is where it says now. -/
def move (s : IBKRBrokerClient) (t : ℕ) (d : Dialer) : IBKRBrokerClient :=
  { s with dialers := s.dialers.set t d }

/-- A placement has returned or raised. -/
def finish (s : IBKRBrokerClient) (i : ℕ) : IBKRBrokerClient :=
  { s with placements := s.placements.set i none }

/-- The connection goes down: `_on_disconnected`. -/
def onDisconnected (cfg : BrokerConfig) (s : IBKRBrokerClient) : IBKRBrokerClient :=
  { s with
    connection := none
    dialers := if !s.intentionalDisconnect && cfg.reconnection then s.dialers ++ [.loop 0]
      else s.dialers }

/-- `ib.disconnect()`, which tells the handler if there was a connection. -/
def drop (cfg : BrokerConfig) (s : IBKRBrokerClient) : IBKRBrokerClient :=
  if s.connection.isSome then s.onDisconnected cfg else s

/-- `connect` up to its `await`. -/
def connect (cfg : BrokerConfig) (s : IBKRBrokerClient) : IBKRBrokerClient :=
  let s := { s with intentionalDisconnect := false }
  match cfg.connectGate with
  | some _ => s
  | none => { s with dialers := s.dialers ++ [.connect false] }

/-- `connect` after its `await`. -/
def connected (cfg : BrokerConfig) (s : IBKRBrokerClient) (t : ℕ) : IBKRBrokerClient :=
  match cfg.connectedGate (s.connection.getD []) with
  | some _ => (s.move t .done).drop cfg
  | none => s.move t .done

/-- A dialer goes on. -/
def proceed (cfg : BrokerConfig) (s : IBKRBrokerClient) (t : ℕ) : Option IBKRBrokerClient :=
  match s.dialers[t]? with
  | some (.connect true) => some (s.connected cfg t)
  | some (.loop retries) =>
    some (s.move t (if retries < cfg.maxRetries && s.connection.isNone
      then .sleeping (retries + 1) else .done))
  | some (.sleeping retries) => some (s.move t (.reconnect retries false))
  | some (.reconnect _ true) => some (s.move t .done)
  | _ => none

/-- The connection a dialer waits for is up. -/
def established (s : IBKRBrokerClient) (t : ℕ) (accounts : List String) :
    Option IBKRBrokerClient :=
  match s.dialers[t]? with
  | some (.connect false) => some { s.move t (.connect true) with connection := some accounts }
  | some (.reconnect retries false) =>
    some { s.move t (.reconnect retries true) with connection := some accounts }
  | _ => none

/-- `connectAsync` raised: so does `connect`, and `_auto_reconnect` tries
again. -/
def failed (s : IBKRBrokerClient) (t : ℕ) : Option IBKRBrokerClient :=
  match s.dialers[t]? with
  | some (.connect _) => some (s.move t .done)
  | some (.reconnect retries _) => some (s.move t (.loop retries))
  | _ => none

/-- **`place_order` up to its `await`**: without a connection or where the
gate is closed it raises. -/
def placeOrder (cfg : BrokerConfig) (s : IBKRBrokerClient) (plan : OrderPlan)
    (emergencyFlatten : Bool) : IBKRBrokerClient :=
  match s.connection with
  | none => s
  | some accounts =>
    match cfg.submissionGate accounts with
    | some _ => s
    | none => { s with placements := s.placements ++ [some ⟨plan, emergencyFlatten, accounts⟩] }

/-- The placement at a place. -/
def placement (s : IBKRBrokerClient) (i : ℕ) : Option Placement := s.placements[i]?.join

/-- One step. -/
def step (cfg : BrokerConfig) (s : IBKRBrokerClient) : Label → Option IBKRBrokerClient
  | .connect => some (s.connect cfg)
  | .disconnect => some ({ s with intentionalDisconnect := true }.drop cfg)
  | .lost => s.connection.map fun _ => s.onDisconnected cfg
  | .proceed t => s.proceed cfg t
  | .established t accounts => s.established t accounts
  | .failed t => s.failed t
  | .placeOrder plan emergencyFlatten => some (s.placeOrder cfg plan emergencyFlatten)
  | .qualified i | .unqualified i => (s.placement i).map fun _ => s.finish i

/-- The client as a machine. -/
def machine (cfg : BrokerConfig) : Machine IBKRBrokerClient Label := ⟨step cfg⟩

def initial : IBKRBrokerClient := {}

/-- **What a step transmits** to the gateway, and on which accounts: a
placement whose contract is qualified, if the order is of a supported type
and the connection is up. -/
def transmits (s : IBKRBrokerClient) : Label → Option (Placement × List String)
  | .qualified i =>
    ((s.placement i).filter Placement.supported).bind fun p =>
      s.connection.map fun accounts => (p, accounts)
  | _ => none

/-- **What is transmitted goes to accounts it may go to.** -/
def TransmitsSafely (cfg : BrokerConfig) (s : IBKRBrokerClient) (l : Label) : Prop :=
  ∀ p accounts, s.transmits l = some (p, accounts) → cfg.Permits accounts

instance (cfg : BrokerConfig) (s : IBKRBrokerClient) (l : Label) :
    Decidable (s.TransmitsSafely cfg l) :=
  match h : s.transmits l with
  | none => isTrue fun _ _ heq => by rw [h] at heq; cases heq
  | some (p, accounts) => decidable_of_iff (cfg.Permits accounts)
      ⟨fun hsafe _ _ heq => by rw [h] at heq; cases heq; exact hsafe,
        fun hsafe => hsafe p accounts h⟩

/-- **The gate still stands when an order is transmitted**: the accounts are
the ones it saw, or it would let these pass as well; and the account traded
on is connected. -/
def GateStands (cfg : BrokerConfig) (s : IBKRBrokerClient) (l : Label) : Prop :=
  ∀ p accounts, s.transmits l = some (p, accounts) →
    (accounts = p.accounts ∨ cfg.submissionGate accounts = none)
      ∧ cfg.AccountConnected accounts

/-- Every placement under way has passed the gate. -/
def Gated (cfg : BrokerConfig) (s : IBKRBrokerClient) : Prop :=
  ∀ i p, s.placement i = some p → cfg.submissionGate p.accounts = none

/-! ## One step -/

variable {cfg : BrokerConfig} {s t : IBKRBrokerClient} {l : Label}

@[simp] theorem placements_move (i : ℕ) (d : Dialer) :
    (s.move i d).placements = s.placements := rfl

@[simp] theorem placements_drop : (s.drop cfg).placements = s.placements := by
  unfold drop
  split_ifs <;> rfl

@[simp] theorem placements_connect : (s.connect cfg).placements = s.placements := by
  unfold connect
  cases cfg.connectGate <;> rfl

@[simp] theorem placements_connected (i : ℕ) :
    (s.connected cfg i).placements = s.placements := by
  unfold connected
  cases cfg.connectedGate (s.connection.getD []) <;> simp

theorem placements_proceed {i : ℕ} (h : s.proceed cfg i = some t) :
    t.placements = s.placements := by
  unfold proceed at h
  split at h <;> cases h <;> simp

theorem placements_established {i : ℕ} {accounts : List String}
    (h : s.established i accounts = some t) : t.placements = s.placements := by
  unfold established at h
  split at h <;> cases h <;> rfl

theorem placements_failed {i : ℕ} (h : s.failed i = some t) :
    t.placements = s.placements := by
  unfold failed at h
  split at h <;> cases h <;> rfl

/-- **What a step does to the placements**: one that passes the gate is
added, or one is finished, or they stay. -/
theorem step_placements (h : s.step cfg l = some t) :
    t.placements = s.placements
      ∨ (∃ i, t.placements = s.placements.set i none)
      ∨ ∃ p : Placement, cfg.submissionGate p.accounts = none
        ∧ t.placements = s.placements ++ [some p] := by
  cases l with
  | connect =>
    obtain rfl := Option.some.inj h
    exact .inl placements_connect
  | disconnect =>
    obtain rfl := Option.some.inj h
    exact .inl placements_drop
  | lost =>
    obtain ⟨_, -, rfl⟩ := Option.map_eq_some_iff.mp h
    exact .inl rfl
  | proceed i => exact .inl (placements_proceed h)
  | established i accounts => exact .inl (placements_established h)
  | failed i => exact .inl (placements_failed h)
  | placeOrder plan emergencyFlatten =>
    obtain rfl := Option.some.inj h
    unfold placeOrder
    split
    · exact .inl rfl
    · split
      · exact .inl rfl
      · exact .inr (.inr ⟨⟨plan, emergencyFlatten, _⟩, ‹_›, rfl⟩)
  | qualified i | unqualified i =>
    obtain ⟨_, -, rfl⟩ := Option.map_eq_some_iff.mp h
    exact .inr (.inl ⟨i, rfl⟩)

theorem placement_eq_some {i : ℕ} {p : Placement} :
    s.placement i = some p ↔ s.placements[i]? = some (some p) := by
  rw [placement, Option.join_eq_some_iff]

theorem Gated.step (hs : s.Gated cfg) (h : s.step cfg l = some t) : t.Gated cfg := by
  intro i p hp
  rw [placement_eq_some] at hp
  rcases step_placements h with heq | ⟨j, heq⟩ | ⟨q, hq, heq⟩
  · exact hs i p (placement_eq_some.mpr (heq ▸ hp))
  · rw [heq, List.getElem?_set] at hp
    split_ifs at hp with hij hlt
    · cases hp
    · exact hs i p (placement_eq_some.mpr hp)
  · rcases List.mem_append.mp (heq ▸ List.mem_of_getElem? hp) with hmem | hmem
    · obtain ⟨j, hj⟩ := List.mem_iff_getElem?.mp hmem
      exact hs j p (placement_eq_some.mpr hj)
    · obtain rfl := Option.some.inj (List.mem_singleton.mp hmem)
      exact hq

/-- Only a placement under way is transmitted. -/
theorem placement_of_transmits {p : Placement} {accounts : List String}
    (h : s.transmits l = some (p, accounts)) : ∃ i, s.placement i = some p := by
  cases l with
  | qualified i =>
    obtain ⟨q, hq, hp⟩ := Option.bind_eq_some_iff.mp h
    obtain ⟨_, -, heq⟩ := Option.map_eq_some_iff.mp hp
    obtain rfl := congrArg Prod.fst heq
    exact ⟨i, (Option.filter_eq_some_iff.mp hq).1⟩
  | _ => cases h

/-- **A step transmits safely exactly when the gate still stands.** -/
theorem transmitsSafely_step_iff (hs : s.Gated cfg) :
    s.TransmitsSafely cfg l ↔ s.GateStands cfg l := by
  refine forall_congr' fun p => forall_congr' fun accounts => forall_congr' fun h => ?_
  obtain ⟨i, hi⟩ := placement_of_transmits h
  rw [BrokerConfig.permits_iff]
  refine and_congr_left fun _ => ⟨.inr, ?_⟩
  rintro (rfl | hopen)
  · exact hs i p hi
  · exact hopen

/-! ## Every run -/

theorem gated_initial : initial.Gated cfg := fun i p h => by
  rw [placement_eq_some] at h
  cases h

/-- **Orders are transmitted on accounts they may go to exactly in the runs
in which the gate still stands at every transmission.** -/
theorem transmitsSafely_iff_gateStands (cfg : BrokerConfig) (ls : List Label) :
    (machine cfg).Along (fun s l _ => s.TransmitsSafely cfg l) initial ls
      ↔ (machine cfg).Along (fun s l _ => s.GateStands cfg l) initial ls :=
  Machine.along_iff_of_step (J := Gated cfg) (fun _ _ _ hs h => Gated.step hs h)
    (fun _ _ _ hs _ => transmitsSafely_step_iff hs) gated_initial

/-- Live trading on the account `U1`. -/
def sampleConfig : BrokerConfig where
  liveTrading := true
  accountId := "U1"
  allowlist := ["U1"]
  reconnection := true
  maxRetries := 5
  allowLiveTrading := some "I_UNDERSTAND_THIS_CAN_LOSE_MONEY"

/-- A plan to buy. -/
def samplePlan : OrderPlan where
  positionId := none
  isEntry := true
  strategyId := "orb"
  contract := sampleContract
  side := .buy
  quantity := 1
  orderType := .lmt
  limitPrice := 1
  orderRef := none
  algo := none
  quantity_pos := Nat.one_pos
  limit_pos := one_dollar_pos

/-- The gateway comes back with another account. -/
def sampleReconnection : List Label :=
  [.connect, .established 0 ["U1"], .proceed 0, .lost, .proceed 1, .proceed 1,
    .established 1 ["U2"], .proceed 1, .placeOrder samplePlan false]

/-- Orders do not always go to accounts they may go to: after an automatic
reconnection to another account the order is transmitted on that one. -/
theorem not_transmitsSafely : ¬ ∀ cfg ls,
    (machine cfg).Along (fun s l _ => s.TransmitsSafely cfg l) initial ls := by
  intro h
  exact absurd (h sampleConfig (sampleReconnection ++ [.qualified 0])) (by decide +kernel)

end IBKRBrokerClient
