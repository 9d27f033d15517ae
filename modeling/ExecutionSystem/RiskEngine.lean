import ExecutionSystem.Quotes

/-!
# The risk engine

`RiskEngine` of `src/risk/risk_engine.py`, with the checks of a quote of
`src/marketdata/data_quality.py` that it calls. A signal is judged against
a snapshot of the system. Every check that objects adds its reason, none
stops the others, and a signal is approved where nothing objects.

The engine sees the outside world only through the snapshot, and it counts
what is in it: the positions that are open and the orders that are active
when the snapshot is taken, against limits that another one may just reach
(`RiskEngine.below_of_approved`).
-/

/-! ## Configuration -/

/-- The configuration of a strategy, as far as the runner and the risk
engine read it. -/
structure StrategyConfig where
  strategyId : StrategyId
  enabled : Bool := true
  underlying : String := ""
  allowReentry : Bool := false
  signalSource : String := ""
  entryTime : Option String := none
  entryWindowMinutes : Option ℕ := none
  orderTimeoutSeconds : Time := 60
  stopLossPct : Option ℚ := none
  takeProfitPct : Option ℚ := none
  /-- `exit.time_exit_utc`. -/
  timeExit : Option String := none
  maxHoldSeconds : Option Time := none
  useMidForExits : Bool := false
  cooldownSeconds : Time := 60

/-- Trading mode. -/
inductive TradingMode where
  | paper
  | live
  | disabled
  deriving DecidableEq

/-- Global risk parameters. -/
structure GlobalRiskConfig where
  tradingMode : TradingMode := .paper
  dailyLossLimit : ℚ
  maxOpenPositions : ℕ
  maxOpenOrders : ℕ
  maxContractsPerTrade : ℕ
  maxPremiumPerTrade : ℚ
  /-- `no_new_trades_cutoff_utc`, and its time of the day in seconds. -/
  noNewTradesCutoffUtc : String
  cutoffTime : Time
  loss_pos : 0 < dailyLossLimit
  positions_pos : 0 < maxOpenPositions
  orders_pos : 0 < maxOpenOrders
  contracts_pos : 0 < maxContractsPerTrade
  premium_pos : 0 < maxPremiumPerTrade

/-- Per-strategy risk limits. -/
structure PerStrategyRiskConfig where
  maxDailyLoss : ℚ
  maxPositions : ℕ
  loss_pos : 0 < maxDailyLoss
  positions_pos : 0 < maxPositions

/-- Per-underlying risk limits. -/
structure PerUnderlyingRiskConfig where
  maxPositions : ℕ
  positions_pos : 0 < maxPositions

/-- The risk configuration, as far as the engine reads it. -/
structure FullRiskConfig where
  globalRisk : GlobalRiskConfig
  perStrategy : PerStrategyRiskConfig
  perUnderlying : PerUnderlyingRiskConfig
  /-- `spread_limits.max_spread_pct`. -/
  maxSpreadPct : ℚ
  /-- `quote_freshness.max_age_seconds`. -/
  maxAgeSeconds : Time
  spread_pos : 0 < maxSpreadPct
  age_pos : 0 < maxAgeSeconds

/-- The manual overrides. -/
structure OverridesConfig where
  pausedStrategies : List StrategyId := []
  disabledSymbols : List String := []
  reduceOnly : Bool := false
  systemLocked : Bool := false
  reduceOnlyStrategies : List StrategyId := []

/-! ## The snapshot -/

/-- An open position as the risk engine sees it. -/
structure PositionInfo where
  strategyId : StrategyId
  underlying : String
  status : PositionStatus
  quantity : ℕ

/-- The state the risk engine judges a signal by. -/
structure SystemState where
  openPositions : List PositionInfo
  openOrderCount : ℕ
  dailyPnl : ℚ
  strategyDailyPnl : StrategyId → ℚ := fun _ => 0
  quote : Option QuoteSnapshot
  killSwitchEngaged : Bool := false
  currentTime : Time
  lastTradeTimes : StrategyId → Option Time := fun _ => none

/-- `_ACTIVE_POSITION_STATUSES`. -/
def PositionStatus.active : PositionStatus → Bool
  | .opening | .opened | .partiallyClosed => true
  | _ => false

/-- **The risk engine**, with what prints its numbers: `floatRepr` as
`str` does, `fixed` with a number of decimals. -/
structure RiskEngine where
  risk : FullRiskConfig
  strategies : List StrategyConfig
  overrides : OverridesConfig := {}
  floatRepr : ℚ → String
  fixed : ℕ → ℚ → String

/-- A reason, where there is one to give. -/
def reasonIf (p : Prop) [Decidable p] (reason : String) : List String :=
  if p then [reason] else []

@[simp] theorem reasonIf_eq_nil {p : Prop} [Decidable p] {reason : String} :
    reasonIf p reason = [] ↔ ¬ p := by
  by_cases h : p <;> simp [reasonIf, h]

namespace RiskEngine

variable (engine : RiskEngine) (signal : StrategySignal) (state : SystemState)

/-- The configuration of the signal's strategy. -/
def strategy : Option StrategyConfig :=
  engine.strategies.find? (·.strategyId = signal.strategyId)

/-! ## Quotes -/

/-- `validate_quote_freshness`. -/
def validateQuoteFreshness : Option QuoteSnapshot → List String
  | none => ["quote_missing"]
  | some quote =>
    let age := state.currentTime - quote.timestamp
    reasonIf (engine.risk.maxAgeSeconds < age)
      s!"quote_stale:age={engine.fixed 1 age}s,max={engine.floatRepr engine.risk.maxAgeSeconds}s"

/-- `validate_quote_prices`: the first thing that is wrong with them. -/
def validateQuotePrices (quote : QuoteSnapshot) : List String :=
  match quote.bid, quote.ask with
  | some bid, some ask =>
    let mid := (bid + ask) / 2
    let spread := (ask - bid) / mid * 100
    if ask ≤ 0 then ["quote_invalid:ask_is_zero_or_negative"]
    else if mid ≤ 0 then ["quote_invalid:mid_is_zero_or_negative"]
    else reasonIf (engine.risk.maxSpreadPct < spread)
      s!"spread_too_wide:spread={engine.fixed 1 spread}%,max={engine.floatRepr engine.risk.maxSpreadPct}%"
  | _, _ => ["quote_incomplete:missing_bid_or_ask"]

/-! ## The checks, in their order -/

def checkKillSwitch : List String :=
  reasonIf (state.killSwitchEngaged = true) "kill_switch_engaged"

def checkTradingMode : List String :=
  reasonIf (engine.risk.globalRisk.tradingMode = .disabled) "trading_mode_disabled"

def checkSystemLocked : List String :=
  reasonIf (engine.overrides.systemLocked = true) "system_locked"

def checkStrategyEnabled : List String :=
  match engine.strategy signal with
  | none => [s!"strategy_unknown:{signal.strategyId}"]
  | some cfg => reasonIf (cfg.enabled = false) s!"strategy_disabled:{signal.strategyId}"

def checkStrategyPaused : List String :=
  reasonIf (signal.strategyId ∈ engine.overrides.pausedStrategies)
    s!"strategy_paused:{signal.strategyId}"

def checkSymbolDisabled : List String :=
  reasonIf (signal.contract.symbol ∈ engine.overrides.disabledSymbols)
    s!"symbol_disabled:{signal.contract.symbol}"

/-- Reduce-only rejects new entries; exits are no signals. -/
def checkReduceOnly : List String :=
  reasonIf (engine.overrides.reduceOnly = true
      ∨ signal.strategyId ∈ engine.overrides.reduceOnlyStrategies) "reduce_only_mode"

/-- The time of the day, in seconds. -/
def timeOfDay (now : Time) : Time := now - 86400 * (now / 86400).floor

def checkCutoffTime : List String :=
  reasonIf (engine.risk.globalRisk.cutoffTime ≤ timeOfDay state.currentTime)
    s!"no_new_trades_cutoff:{engine.risk.globalRisk.noNewTradesCutoffUtc}"

/-- The daily profit is negative when money is lost. -/
def checkDailyLossLimit : List String :=
  let limit := engine.risk.globalRisk.dailyLossLimit
  reasonIf (state.dailyPnl ≤ -limit)
    s!"daily_loss_limit_exceeded:pnl={engine.floatRepr state.dailyPnl},limit={engine.floatRepr limit}"

def checkStrategyDailyLossLimit : List String :=
  let pnl := state.strategyDailyPnl signal.strategyId
  let limit := engine.risk.perStrategy.maxDailyLoss
  reasonIf (pnl ≤ -limit) (s!"strategy_daily_loss_limit_exceeded:strategy={signal.strategyId},"
    ++ s!"pnl={engine.floatRepr pnl},limit={engine.floatRepr limit}")

/-- The number of active positions in the snapshot that meet `p`. -/
def countActive (p : PositionInfo → Bool) : ℕ :=
  state.openPositions.countP fun pos => p pos && pos.status.active

def checkMaxOpenPositions : List String :=
  let active := countActive state fun _ => true
  let limit := engine.risk.globalRisk.maxOpenPositions
  reasonIf (limit ≤ active) s!"max_open_positions_exceeded:count={active},limit={limit}"

def checkMaxPositionsPerStrategy : List String :=
  let count := countActive state fun pos => pos.strategyId = signal.strategyId
  let limit := engine.risk.perStrategy.maxPositions
  reasonIf (limit ≤ count)
    (s!"max_positions_per_strategy_exceeded:strategy={signal.strategyId},"
      ++ s!"count={count},limit={limit}")

def checkMaxPositionsPerUnderlying : List String :=
  let count := countActive state fun pos => pos.underlying = signal.contract.symbol
  let limit := engine.risk.perUnderlying.maxPositions
  reasonIf (limit ≤ count)
    (s!"max_positions_per_underlying_exceeded:underlying={signal.contract.symbol},"
      ++ s!"count={count},limit={limit}")

def checkMaxOpenOrders : List String :=
  let limit := engine.risk.globalRisk.maxOpenOrders
  reasonIf (limit ≤ state.openOrderCount)
    s!"max_open_orders_exceeded:count={state.openOrderCount},limit={limit}"

def checkQuoteFreshness : List String := engine.validateQuoteFreshness state state.quote

/-- A missing quote was caught before. -/
def checkQuoteValidity : List String :=
  match state.quote with
  | none => []
  | some quote => engine.validateQuotePrices quote

def checkCooldown : List String :=
  match engine.strategy signal, state.lastTradeTimes signal.strategyId with
  | some cfg, some last =>
    let elapsed := state.currentTime - last
    reasonIf (0 < cfg.cooldownSeconds ∧ elapsed < cfg.cooldownSeconds)
      (s!"cooldown_active:strategy={signal.strategyId},"
        ++ s!"elapsed={engine.fixed 0 elapsed}s,required={engine.floatRepr cfg.cooldownSeconds}s")
  | _, _ => []

/-- **All that speaks against a signal.** -/
def blocking : List String :=
  checkKillSwitch state ++ engine.checkTradingMode ++ engine.checkSystemLocked
    ++ engine.checkStrategyEnabled signal ++ engine.checkStrategyPaused signal
    ++ engine.checkSymbolDisabled signal ++ engine.checkReduceOnly signal
    ++ engine.checkCutoffTime state ++ engine.checkDailyLossLimit state
    ++ engine.checkStrategyDailyLossLimit signal state
    ++ engine.checkMaxOpenPositions state
    ++ engine.checkMaxPositionsPerStrategy signal state
    ++ engine.checkMaxPositionsPerUnderlying signal state
    ++ engine.checkMaxOpenOrders state ++ engine.checkQuoteFreshness state
    ++ engine.checkQuoteValidity state ++ engine.checkCooldown signal state

/-- `_compute_allowed_quantity`: the quantity may be reduced, by the number
of contracts and by the premium, and is at least `1`. -/
def computeAllowedQuantity : ℕ :=
  let quantity := min signal.requestedQuantity engine.risk.globalRisk.maxContractsPerTrade
  let quantity := match signal.limitPrice with
    | some price =>
      let perContract := binary64 (|price| * 100)
      if 0 < perContract then
        min quantity
          (binary64 (engine.risk.globalRisk.maxPremiumPerTrade / perContract)).floor.toNat
      else quantity
    | none => quantity
  max quantity 1

/-- **`evaluate`.** -/
def evaluate : RiskDecision :=
  let blocking := engine.blocking signal state
  -- a decision id is only compared with that of the intent made from it
  if blocking.isEmpty then ⟨0, .approved, engine.computeAllowedQuantity signal, []⟩
  else ⟨0, .rejected, 0, blocking⟩

/-! ## What is approved -/

variable {engine signal state}

/-- **A signal is approved exactly where nothing speaks against it.** -/
theorem approved_iff :
    (engine.evaluate signal state).approved = true ↔ engine.blocking signal state = [] := by
  unfold evaluate
  dsimp only
  rw [← List.isEmpty_iff]
  split_ifs with h
  · exact iff_of_true rfl h
  · exact iff_of_false nofun h

/-- **Where a signal is approved every count of the snapshot is below its
limit.** -/
theorem below_of_approved (h : (engine.evaluate signal state).approved = true) :
    countActive state (fun _ => true) < engine.risk.globalRisk.maxOpenPositions
      ∧ countActive state (·.strategyId = signal.strategyId)
        < engine.risk.perStrategy.maxPositions
      ∧ countActive state (·.underlying = signal.contract.symbol)
        < engine.risk.perUnderlying.maxPositions
      ∧ state.openOrderCount < engine.risk.globalRisk.maxOpenOrders := by
  have hblocking := approved_iff.mp h
  simp only [blocking, List.append_eq_nil_iff, and_assoc] at hblocking
  obtain ⟨-, -, -, -, -, -, -, -, -, -, hall, hstrategy, hunderlying, horders, -⟩ := hblocking
  exact ⟨not_le.mp (reasonIf_eq_nil.mp hall), not_le.mp (reasonIf_eq_nil.mp hstrategy),
    not_le.mp (reasonIf_eq_nil.mp hunderlying), not_le.mp (reasonIf_eq_nil.mp horders)⟩

end RiskEngine
