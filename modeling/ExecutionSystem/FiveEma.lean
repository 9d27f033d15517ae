import ExecutionSystem.BarBuilder
import ExecutionSystem.PythonData
import ExecutionSystem.Quotes

/-!
# The five-minute breakout strategy

`XSP5EMAStrategyProvider` of `src/strategies/xsp_5_ema.py`. Its two
strategies share one state of the market: the exponential average of the
five-minute closes of the day, the armed signal bar, and the entry trigger.
It is brought up to date by every poll and every exit check, boundary by
boundary, from live one-minute bars or from history.

Every boundary is looked at once, so what the broker has to say about it is
a function of the boundary (`MarketFeed`). The wall clock of New York, in
seconds, is a parameter (`NyClock`); it goes back only at night. Days are
counted from a Monday.
-/

/-! ## The wall clock -/

/-- The date of a wall-clock time, as a number. -/
def Time.date (t : Time) : ℤ := ⌊t / 86400⌋

/-- The time of the day, in seconds. -/
def Time.timeOfDay (t : Time) : Time := t - t.date * 86400

/-- `datetime.combine`. -/
def Time.combine (date : ℤ) (timeOfDay : Time) : Time := date * 86400 + timeOfDay

/-- The time of the day with the given hour and minute. -/
def hhmm (hour minute : ℕ) : Time := hour * 3600 + minute * 60

/-- **The wall clock of New York**, as a function of the instant: dates never
go back, and within a date the clock does not go back once it has reached the
opening of the exchange. -/
structure NyClock where
  wall : Time → Time
  /-- `strftime("%Y%m%d")` of a date. -/
  dateText : ℤ → String
  date_le : ∀ s t, s ≤ t → (wall s).date ≤ (wall t).date
  session_le : ∀ s t, s ≤ t → (wall s).date = (wall t).date →
    hhmm 9 30 ≤ (wall s).timeOfDay → wall s ≤ wall t

/-! ## Parameters -/

/-- How a variant leaves a position. -/
inductive EmaVariant where
  | base (rrTarget : ℚ)
  | trail (stepPct lockPct : ℚ)
  deriving DecidableEq

structure EmaParams where
  variant : EmaVariant
  maxTradesPerDay : ℕ
  deriving DecidableEq

/-- `STRATEGY_PARAMS`. -/
def strategyParams : StrategyId → Option EmaParams
  | "xsp_5ema_base" => some ⟨.base 3, 5⟩
  | "xsp_5ema_trail" => some ⟨.trail (1 / 5) (3 / 20), 5⟩
  | _ => none

def putsOnly : Bool := true
def entryCutoffNy : Time := hhmm 15 30
def timeExitNy : Time := hhmm 15 45
def fallbackPremiumStopPct : ℚ := 1 / 5
def maxBackfillFetchesPerUpdate : ℕ := 3
def rthOpen : Time := hhmm 9 30
def rthClose : Time := hhmm 16 0

/-- Five minutes. -/
def fiveMinutes : Time := 300

/-! ## What the provider keeps -/

/-- A five-minute bar. -/
structure FiveMinBar where
  openPrice : Price
  high : Price
  low : Price
  closePrice : Price
  deriving DecidableEq

/-- The armed signal bar. -/
structure SignalBar where
  direction : OptionRight
  high : Price
  low : Price
  barTime : Time
  deriving DecidableEq

/-- The entry intent of a bar that closed through the level. -/
structure EntryTrigger where
  direction : OptionRight
  stopUnderlying : Price
  entryUnderlying : Price
  barTime : Time
  deriving DecidableEq

/-- What is emitted with a signal, until a fill creates the position. -/
structure PendingContext where
  direction : OptionRight
  stopUnderlying : Price
  entryUnderlying : Price
  deriving DecidableEq

/-- **The exit context of a position.** -/
structure PositionContext where
  strategyId : StrategyId
  direction : OptionRight
  stopUnderlying : Option Price
  entryUnderlying : Option Price
  entryPrice : Price
  peakPrice : Price
  lockedFloor : Option Price := none
  /-- The mids the trailing floor has seen; the program keeps no such
  record. -/
  midsSeen : List Price := []
  deriving DecidableEq

/-- A boundary that was processed. -/
structure ProcessedBar where
  closeTime : Time
  closePrice : Price
  bar : Option FiveMinBar
  /-- The average with this close in it. -/
  ema : ℚ
  deriving DecidableEq

/-- **The state of the market**, which the strategies share. -/
structure MarketState where
  day : Option ℤ := none
  ema : Option ℚ := none
  next5minClose : Option Time := none
  signalBar : Option SignalBar := none
  entryTrigger : Option EntryTrigger := none
  backfillFailedDay : Option ℤ := none
  /-- The boundaries processed so far; the program keeps no such record. -/
  processed : List ProcessedBar := []

/-- **The state of the provider.** -/
structure XSP5EMAStrategyProvider extends MarketState where
  tradesToday : StrategyId → ℕ := fun _ => 0
  consumedBarTime : StrategyId → Option Time := fun _ => none
  posCtx : PositionId → Option PositionContext := fun _ => none
  pendingCtx : StrategyId → Option PendingContext := fun _ => none

/-- **What the broker says about the boundaries** during one update: its
one-minute bars, or `none` where the call raises, and the historical close,
or `none` where it has none or raises. -/
structure MarketFeed where
  completedBars : Time → Option (List OhlcBar)
  historicalClose : Time → Option Price

/-- The start of the minute on the wall clock. -/
def OhlcBar.minuteStart (bar : OhlcBar) : Time := bar.minuteStartNy * 60

/-- **`_build_5min_bar_live`**: nothing unless the builder has a bar from the
start of the window on or before. -/
def build5minBarLive (bars : Option (List OhlcBar)) (windowStart windowEnd : Time) :
    Option FiveMinBar :=
  match bars with
  | none | some [] => none
  | some (oldest :: bars) =>
    if windowStart < oldest.minuteStart then none
    else
      match (oldest :: bars).filter
        (fun b => windowStart ≤ b.minuteStart ∧ b.minuteStart < windowEnd) with
      | [] => none
      | first :: rest =>
        some
          { openPrice := first.openPrice
            high := rest.foldl (fun high b => max high b.high) first.high
            low := rest.foldl (fun low b => min low b.low) first.low
            closePrice := ((first :: rest).getLast (List.cons_ne_nil _ _)).closePrice }

/-! ## The market -/

namespace MarketState

/-- `_reset_day`, as far as the market goes. -/
def reset (s : MarketState) (date : ℤ) : MarketState :=
  { s with
    day := some date
    ema := none
    signalBar := none
    entryTrigger := none
    next5minClose := some (.combine date (hhmm 9 35)) }

/-- The average after one more close, in floats; the first of the day seeds
it. -/
def nextEma (s : MarketState) (close : Price) : ℚ :=
  match s.ema with
  | none => close
  | some ema =>
    binary64 (binary64 (close * binary64 (1 / 3)) + binary64 (ema * binary64 (2 / 3)))

/-- The entry trigger that a close fires: it breaks the level of a bar that
was armed before. -/
def fires (s : MarketState) (closeT : Time) (close : Price) : Option EntryTrigger :=
  match s.signalBar with
  | none => none
  | some sig =>
    if sig.barTime < closeT then
      match sig.direction with
      | .put =>
        if close ≤ sig.low then some ⟨.put, sig.high, close, closeT⟩ else none
      | .call =>
        if sig.high ≤ close ∧ !putsOnly then some ⟨.call, sig.low, close, closeT⟩ else none
    else none

/-- The signal bar after a bar that fires nothing: a bar beside the average
is armed, one that touches it cancels, and a close alone does neither. -/
def armed (s : MarketState) (ema : ℚ) (closeT : Time) (bar : Option FiveMinBar) :
    Option SignalBar :=
  match bar with
  | none => s.signalBar
  | some bar =>
    if ema < bar.low then some ⟨.put, bar.high, bar.low, closeT⟩
    else if bar.high < ema ∧ !putsOnly then some ⟨.call, bar.high, bar.low, closeT⟩
    else none

/-- **A boundary is processed** with its close, and with its bar where that
is live: the average, the entry confirmation, and the signal bar. -/
def processClose (s : MarketState) (closeT : Time) (close : Price)
    (bar : Option FiveMinBar) : MarketState :=
  let ema := s.nextEma close
  let trigger := s.fires closeT close
  { s with
    ema := some ema
    entryTrigger := trigger
    signalBar := if trigger.isSome then none else s.armed ema closeT bar
    next5minClose := some (closeT + fiveMinutes)
    processed := s.processed ++ [(⟨closeT, close, bar, ema⟩ : ProcessedBar)] }

/-- A boundary without data is passed over. -/
def skipClose (s : MarketState) (closeT : Time) : MarketState :=
  { s with next5minClose := some (closeT + fiveMinutes) }

/-- The history of the day is given up. -/
def backfillFailed (s : MarketState) : MarketState :=
  { s with backfillFailedDay := s.day }

/-- The boundary that the loop looks at: it is over, and of the session. -/
def due (s : MarketState) (now : Time) : Option Time :=
  s.next5minClose.filter fun closeT => closeT ≤ now && closeT.timeOfDay ≤ rthClose

/-- **One turn of the loop**, with the fetches spent so far: the boundary is
processed, passed over, or – once the fetches are spent – left for the next
update. -/
def turn (feed : MarketFeed) (fetches : ℕ) (s : MarketState) (closeT : Time) :
    Option (ℕ × MarketState) :=
  match build5minBarLive (feed.completedBars closeT) (closeT - fiveMinutes) closeT with
  | some bar => some (fetches, s.processClose closeT bar.closePrice (some bar))
  | none =>
    if s.backfillFailedDay = s.day then some (fetches, s.skipClose closeT)
    else if maxBackfillFetchesPerUpdate ≤ fetches then none
    else
      match feed.historicalClose closeT with
      | some close => some (fetches + 1, s.processClose closeT close none)
      | none => some (fetches + 1, s.backfillFailed.skipClose closeT)

/-- **The loop of `_update_market_state`.** -/
def updateLoop (feed : MarketFeed) (now : Time) : ℕ → ℕ → MarketState → MarketState
  | 0, _, s => s
  | fuel + 1, fetches, s =>
    match s.due now with
    | none => s
    | some closeT =>
      match s.turn feed fetches closeT with
      | none => s
      | some (fetches, s) => updateLoop feed now fuel fetches s

/-- The boundaries up to now, and one more: the loop takes no more turns. -/
def fuelFor (s : MarketState) (now : Time) : ℕ :=
  match s.next5minClose with
  | none => 0
  | some next => ⌊(now - next) / fiveMinutes⌋.toNat + 1

/-- Every completed bar up to now is looked at. -/
def update (s : MarketState) (feed : MarketFeed) (now : Time) : MarketState :=
  s.updateLoop feed now (s.fuelFor now) 0

end MarketState

namespace XSP5EMAStrategyProvider

/-- `_reset_day`. -/
def resetDay (s : XSP5EMAStrategyProvider) (date : ℤ) : XSP5EMAStrategyProvider :=
  { s with
    toMarketState := s.reset date
    tradesToday := fun _ => 0
    consumedBarTime := fun _ => none }

/-- The state is reset on the first update of a day. -/
def onDay (s : XSP5EMAStrategyProvider) (date : ℤ) : XSP5EMAStrategyProvider :=
  if s.day ≠ some date then s.resetDay date else s

/-- **`_update_market_state`.** -/
def updateMarketState (s : XSP5EMAStrategyProvider) (feed : MarketFeed) (now : Time) :
    XSP5EMAStrategyProvider :=
  let s := s.onDay now.date
  { s with toMarketState := s.update feed now }

/-! ## Position contexts -/

/-- The open positions of a strategy; none without a position manager. -/
def openPositions (positions : Option (List Position)) (sid : StrategyId) : List Position :=
  (positions.getD []).filter fun pos => pos.strategyId = sid && pos.status.isOpen

/-- The contexts of a strategy's closed positions are dropped. -/
def dropStale (s : XSP5EMAStrategyProvider) (sid : StrategyId) (opened : List Position) :
    XSP5EMAStrategyProvider :=
  { s with
    posCtx := fun p => (s.posCtx p).filter fun ctx =>
      ctx.strategyId ≠ sid || (opened.map (·.positionId)).contains p }

/-- The context of a new position: what was emitted with the signal, or that
of a position adopted after a restart. -/
def newContext (sid : StrategyId) (pos : Position) : Option PendingContext → PositionContext
  | some pending =>
    { strategyId := sid
      direction := pending.direction
      stopUnderlying := some pending.stopUnderlying
      entryUnderlying := some pending.entryUnderlying
      entryPrice := pos.averageEntryPrice
      peakPrice := pos.averageEntryPrice }
  | none =>
    { strategyId := sid
      direction := pos.contract.right
      stopUnderlying := none
      entryUnderlying := none
      entryPrice := pos.averageEntryPrice
      peakPrice := pos.averageEntryPrice }

/-- A position without a context gets one. -/
def bindContext (sid : StrategyId) (s : XSP5EMAStrategyProvider) (pos : Position) :
    XSP5EMAStrategyProvider :=
  match s.posCtx pos.positionId with
  | some _ => s
  | none =>
    { s with
      posCtx := Function.update s.posCtx pos.positionId
        (some (newContext sid pos (s.pendingCtx sid)))
      pendingCtx := Function.update s.pendingCtx sid none }

/-- **`_sync_position_contexts`**, with the open positions it returns. -/
def syncPositionContexts (s : XSP5EMAStrategyProvider) (positions : Option (List Position))
    (sid : StrategyId) : XSP5EMAStrategyProvider × List Position :=
  match positions with
  | none => (s, [])
  | some _ =>
    let opened := openPositions positions sid
    (opened.foldl (bindContext sid) (s.dropStale sid opened), opened)

end XSP5EMAStrategyProvider

/-! ## Signals -/

/-- What a strategy's sizing is configured by. -/
structure SizingConfig where
  strategyId : StrategyId
  maxContracts : ℕ
  positionSizingPct : Option ℚ := some (binary64 (25 / 1000))
  maxContracts_pos : 0 < maxContracts
  sizing_pos : ∀ pct ∈ positionSizingPct, 0 < pct

/-- The default share is positive. -/
theorem SizingConfig.default_pos :
    ∀ pct ∈ (some (binary64 (25 / 1000)) : Option ℚ), 0 < pct := by
  rintro _ ⟨⟩
  decide +kernel

/-- A signal, with the metadata of the breakout. -/
structure EmaSignal where
  signal : StrategySignal
  timestamp : Time
  stopUnderlying : Price
  entry5minCloseTime : Time
  ema : Option ℚ
  underlyingAtEntry : Price
  trailEnabled : Bool

/-- What a poll raises: a validator refuses a value. -/
inductive PollError where
  | invalidStrike
  | invalidLimit
  deriving DecidableEq

/-- A price where there is one: the middle, or the last trade. -/
def QuoteSnapshot.midOrLast (quote : QuoteSnapshot) : Option Price :=
  match quote.mid with
  | some mid => some mid
  | none => quote.last

/-- Whether the variant trails its premium. -/
def EmaVariant.trailEnabled : EmaVariant → Bool
  | base _ => false
  | trail .. => true

/-- The quantity: what a share of the account pays for, at least one, and at
most what is configured; one where an input is missing. -/
def SizingConfig.emaQuantity (cfg : SizingConfig) (mid netLiquidation : Option Price) : ℕ :=
  match mid, netLiquidation with
  | some mid, some cap =>
    if 0 < mid ∧ 0 < cap then
      let share := binary64 (cap * cfg.positionSizingPct.getD (binary64 (1 / 100)))
      let buys := binary64 (share / binary64 (mid * 100))
      min (max 1 (PyValue.truncate buys)).toNat cfg.maxContracts
    else 1
  | _, _ => 1

theorem SizingConfig.emaQuantity_pos (cfg : SizingConfig) (mid netLiquidation : Option Price) :
    0 < cfg.emaQuantity mid netLiquidation := by
  unfold emaQuantity
  split
  · have := cfg.maxContracts_pos
    dsimp only
    split_ifs
    · omega
    · exact Nat.one_pos
  · exact Nat.one_pos

/-- The limit price is rounded to cents; none for a price of zero. -/
def emaLimit (mid : Option Price) : Option Price :=
  (mid.filter (· ≠ 0)).map roundToCents

namespace XSP5EMAStrategyProvider

/-- Whether a poll gets as far as the entry trigger. -/
def mayEnter (s : XSP5EMAStrategyProvider) (sid : StrategyId) (params : EmaParams) (now : Time)
    (positions : Option (List Position)) : Bool :=
  now.date % 7 < 5 && rthOpen ≤ now.timeOfDay && now.timeOfDay < entryCutoffNy
    && s.tradesToday sid < params.maxTradesPerDay && (openPositions positions sid).isEmpty

/-- The trigger is consumed by the strategy. -/
def consume (s : XSP5EMAStrategyProvider) (sid : StrategyId) (trigger : EntryTrigger) :
    XSP5EMAStrategyProvider :=
  { s with
    consumedBarTime := Function.update s.consumedBarTime sid (some trigger.barTime)
    tradesToday := Function.update s.tradesToday sid (s.tradesToday sid + 1)
    pendingCtx := Function.update s.pendingCtx sid
      (some ⟨trigger.direction, trigger.stopUnderlying, trigger.entryUnderlying⟩) }

/-- **The entry of a poll**, once the trigger is there: the contract, the
size, and the signal. The trigger is consumed before the signal is built. -/
def enter (clock : NyClock) (s : XSP5EMAStrategyProvider) (cfg : SizingConfig)
    (params : EmaParams) (trigger : EntryTrigger) (currentTime : Time)
    (quote : Option QuoteSnapshot) (netLiquidation : Option Price) :
    XSP5EMAStrategyProvider × Except PollError (List EmaSignal) :=
  let strike : Price := roundHalfEven trigger.entryUnderlying
  if hstrike : 0 < strike then
    let mid := quote.bind (·.midOrLast)
    let limit := emaLimit mid
    let s' := s.consume cfg.strategyId trigger
    if hlimit : ∀ p ∈ limit, 0 < p then
      (s', .ok
        [{ signal :=
            { strategyId := cfg.strategyId
              direction := .long
              contract :=
                { symbol := "XSP"
                  expiry := clock.dateText (clock.wall currentTime).date
                  strike := strike
                  right := trigger.direction
                  strike_pos := hstrike
                  multiplier_pos := OptionContract.hundred_pos }
              requestedQuantity := cfg.emaQuantity mid netLiquidation
              limitPrice := limit
              requested_pos := cfg.emaQuantity_pos mid netLiquidation
              limit_pos := hlimit }
           timestamp := currentTime
           stopUnderlying := trigger.stopUnderlying
           entry5minCloseTime := trigger.barTime
           ema := s.ema
           underlyingAtEntry := trigger.entryUnderlying
           trailEnabled := params.variant.trailEnabled }])
    else (s', .error .invalidLimit)
  else (s, .error .invalidStrike)

/-- The state in which a poll looks for an entry. -/
def polled (clock : NyClock) (s : XSP5EMAStrategyProvider) (sid : StrategyId)
    (currentTime : Time) (feed : MarketFeed) (positions : Option (List Position)) :
    XSP5EMAStrategyProvider :=
  ((s.updateMarketState feed (clock.wall currentTime)).syncPositionContexts positions sid).1

/-- **`poll`.** -/
def poll (clock : NyClock) (s : XSP5EMAStrategyProvider) (cfg : SizingConfig)
    (currentTime : Time) (feed : MarketFeed) (positions : Option (List Position))
    (quote : Option QuoteSnapshot) (netLiquidation : Option Price) :
    XSP5EMAStrategyProvider × Except PollError (List EmaSignal) :=
  match strategyParams cfg.strategyId with
  | none => (s, .ok [])
  | some params =>
    let s := s.polled clock cfg.strategyId currentTime feed positions
    if s.mayEnter cfg.strategyId params (clock.wall currentTime) positions then
      match s.entryTrigger with
      | none => (s, .ok [])
      | some trigger =>
        if s.consumedBarTime cfg.strategyId = some trigger.barTime then (s, .ok [])
        else s.enter clock cfg params trigger currentTime quote netLiquidation
    else (s, .ok [])

/-! ## Exits -/

end XSP5EMAStrategyProvider

/-- Why a position is flagged. -/
inductive EmaExitReason where
  | time
  | underlyingStop
  | target3R
  | trailFloor
  | fallbackPremiumStop
  deriving DecidableEq

/-- A quote with the fields that only strategies read. -/
structure StrategyQuote extends QuoteSnapshot where
  delta : Option ℚ := none
  close : Option Price := none

/-- **What an exit check reads of the market**, call by call. -/
structure ExitMarket where
  latestBar : Option OhlcBar
  underlyingQuote : Option StrategyQuote
  /-- The quote of a position's option for the trailing floor. -/
  trailQuote : PositionId → Option QuoteSnapshot
  /-- … and for the fallback stop. -/
  fallbackQuote : PositionId → Option QuoteSnapshot

/-- `_underlying_price`: the last one-minute close, or the live quote. -/
def ExitMarket.underlyingPrice (market : ExitMarket) : Option Price :=
  match market.latestBar with
  | some bar => some bar.closePrice
  | none => market.underlyingQuote.bind fun q =>
    match q.mid with
    | some mid => some mid
    | none => (q.last.filter (· ≠ 0)).or q.close

namespace PositionContext

/-- The underlying has reached the stop. -/
def stopped (ctx : PositionContext) (underlying : Option Price) : Bool :=
  match underlying, ctx.stopUnderlying with
  | some underlying, some stop =>
    match ctx.direction with
    | .call => underlying ≤ stop
    | .put => stop ≤ underlying
  | _, _ => false

/-- The underlying has reached the profit target. -/
def onTarget (ctx : PositionContext) (rr : ℚ) (underlying : Option Price) : Bool :=
  match underlying, ctx.stopUnderlying, ctx.entryUnderlying with
  | some underlying, some stop, some entry =>
    let risk := |entry - stop|
    0 < risk &&
      match ctx.direction with
      | .call => entry + rr * risk ≤ underlying
      | .put => underlying ≤ entry - rr * risk
  | _, _, _ => false

/-- `entry_price`, or the average price of the position where it is zero. -/
def entryOf (ctx : PositionContext) (pos : Position) : Price :=
  if ctx.entryPrice ≠ 0 then ctx.entryPrice else pos.averageEntryPrice

/-- The floor that a peak locks in: a lock for every whole step that it is
above the entry. -/
def floorFrom (stepPct lockPct : ℚ) (entry peak : Price) : Option Price :=
  let steps := if peak ≠ 0 then PyValue.truncate ((peak - entry) / (entry * stepPct)) else 0
  if 0 < steps then some (entry + steps * (entry * lockPct)) else none

/-- The floor is locked from the peak so far, and only then the peak follows
the mid. -/
def trailed (ctx : PositionContext) (stepPct lockPct : ℚ) (entry mid : Price) :
    PositionContext :=
  { ctx with
    lockedFloor := (floorFrom stepPct lockPct entry ctx.peakPrice).or ctx.lockedFloor
    peakPrice := if ctx.peakPrice < mid then mid else ctx.peakPrice
    midsSeen := ctx.midsSeen ++ [mid] }

/-- The reason there is before the variant's own: the time, or the underlying
stop. -/
def firstReason (ctx : PositionContext) (now : Time) (underlying : Option Price) :
    Option EmaExitReason :=
  if timeExitNy ≤ now.timeOfDay then some .time
  else if ctx.stopped underlying then some .underlyingStop
  else none

/-- **The variant's own exit**: the profit target, or the trailing floor –
which is kept up to date whether or not there is a reason already. -/
def variantExit (ctx : PositionContext) (variant : EmaVariant) (pos : Position)
    (underlying mid : Option Price) (reason : Option EmaExitReason) :
    PositionContext × Option EmaExitReason :=
  match variant with
  | .base rr =>
    (ctx, reason.or (if ctx.onTarget rr underlying then some .target3R else none))
  | .trail stepPct lockPct =>
    match mid with
    | none => (ctx, reason)
    | some mid =>
      let entry := ctx.entryOf pos
      if 0 < entry then
        let ctx := ctx.trailed stepPct lockPct entry mid
        (ctx, reason.or (if ctx.lockedFloor.any (mid ≤ ·) then some .trailFloor else none))
      else (ctx, reason)

/-- The premium stop of a position without an underlying stop. -/
def fallbackReason (ctx : PositionContext) (pos : Position) (mid : Option Price) :
    Option EmaExitReason :=
  if ctx.stopUnderlying.isNone && mid.any (fun mid =>
      ctx.entryOf pos ≠ 0 && mid ≤ ctx.entryOf pos * (1 - fallbackPremiumStopPct)) then
    some .fallbackPremiumStop
  else none

/-- **The exit check of one position**, with its context afterwards. -/
def check (ctx : PositionContext) (params : EmaParams) (now : Time) (market : ExitMarket)
    (pos : Position) : PositionContext × Option EmaExitReason :=
  let underlying := market.underlyingPrice
  let own := ctx.variantExit params.variant pos underlying
    ((market.trailQuote pos.positionId).bind (·.midOrLast)) (ctx.firstReason now underlying)
  (own.1, own.2.or
    (own.1.fallbackReason pos ((market.fallbackQuote pos.positionId).bind (·.midOrLast))))

end PositionContext

namespace XSP5EMAStrategyProvider

/-- One position of the loop of `collect_exits`. -/
def checkExit (params : EmaParams) (now : Time) (market : ExitMarket)
    (found : XSP5EMAStrategyProvider × List PositionId) (pos : Position) :
    XSP5EMAStrategyProvider × List PositionId :=
  match found.1.posCtx pos.positionId with
  | none => found
  | some ctx =>
    let checked := ctx.check params now market pos
    ({ found.1 with posCtx := Function.update found.1.posCtx pos.positionId (some checked.1) },
      if checked.2.isSome then found.2 ++ [pos.positionId] else found.2)

/-- **`collect_exits`.** -/
def collectExits (clock : NyClock) (s : XSP5EMAStrategyProvider) (sid : StrategyId)
    (currentTime : Time) (feed : MarketFeed) (positions : Option (List Position))
    (market : ExitMarket) : XSP5EMAStrategyProvider × List PositionId :=
  match strategyParams sid with
  | none => (s, [])
  | some params =>
    let now := clock.wall currentTime
    let synced := (s.updateMarketState feed now).syncPositionContexts positions sid
    synced.2.foldl (checkExit params now market) (synced.1, [])

end XSP5EMAStrategyProvider

/-! ## Polls and exit checks over time -/

/-- The provider, the instant of its last call, and the signals it has
emitted. -/
structure EmaSession where
  provider : XSP5EMAStrategyProvider := {}
  time : Time
  emitted : List EmaSignal := []

namespace EmaSession

/-- What can happen next. -/
inductive Label where
  | poll (cfg : SizingConfig) (currentTime : Time) (feed : MarketFeed)
      (positions : Option (List Position)) (quote : Option QuoteSnapshot)
      (netLiquidation : Option Price)
  | collectExits (sid : StrategyId) (currentTime : Time) (feed : MarketFeed)
      (positions : Option (List Position)) (market : ExitMarket)

/-- The signals that a poll returns; none where it raises. -/
def returned (result : Except PollError (List EmaSignal)) : List EmaSignal :=
  match result with
  | .ok signals => signals
  | .error _ => []

/-- **One call**, no earlier than the one before. -/
def step (clock : NyClock) (s : EmaSession) : Label → Option EmaSession
  | .poll cfg currentTime feed positions quote netLiquidation =>
    if s.time ≤ currentTime then
      let result := s.provider.poll clock cfg currentTime feed positions quote netLiquidation
      some ⟨result.1, currentTime, s.emitted ++ returned result.2⟩
    else none
  | .collectExits sid currentTime feed positions market =>
    if s.time ≤ currentTime then
      some { s with
        provider := (s.provider.collectExits clock sid currentTime feed positions market).1
        time := currentTime }
    else none

/-- The provider with an arbitrary market and arbitrary positions. -/
def machine (clock : NyClock) : Machine EmaSession Label where
  step := step clock

/-- A new provider. -/
def initial (time : Time) : EmaSession where
  time := time

end EmaSession
