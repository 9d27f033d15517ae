import ExecutionSystem.ListFacts
import ExecutionSystem.PositionManager

/-!
# The exit manager

`ExitManager` of `src/portfolio/exit_manager.py`, with the quote checks of
`src/marketdata/data_quality.py` it relies on: which open positions are to
be exited now, why, and at which limit.

The maps the manager is given hold the quotes and bars of the options
under their own keys and those of the underlyings under their symbols.
Everything but the two lookups is a function of the quote and the bar
found for a position, so it is stated for these.
-/

/-! ## Bars and the quality of quotes -/

/-- A completed one-minute bar, as far as a stop looks at it. -/
structure Bar where
  /-- The instant its minute starts. -/
  minuteStart : Time
  high : Price
  low : Price

/-- A map of the latest completed bars by symbol or quote key. -/
abbrev BarMap := String → Option Bar

/-- An instant truncated to its minute. -/
def Time.minute (t : Time) : Time := (t / 60).floor * 60

/-- Why a quote is not good enough to evaluate a stop on. -/
inductive QuoteDefect where
  | missing
  | stale (age maxAge : Time)
  | missingBidOrAsk
  | askIsZeroOrNegative
  | midIsZeroOrNegative
  | spreadTooWide (spread maxSpread : ℚ)

/-- `validate_quote_freshness`: what is wrong with the age of a quote. -/
def validateQuoteFreshness (quote : Option QuoteSnapshot) (now maxAge : Time) :
    Option QuoteDefect :=
  match quote with
  | none => some .missing
  | some quote =>
    if maxAge < now - quote.timestamp then some (.stale (now - quote.timestamp) maxAge)
    else none

/-- `validate_quote_prices`: what is wrong with its prices. -/
def validateQuotePrices (quote : Option QuoteSnapshot) (maxSpreadPct : ℚ) :
    Option QuoteDefect :=
  match quote with
  | none => some .missing
  | some quote =>
    match quote.bid, quote.ask with
    | some bid, some ask =>
      let mid := (bid + ask) / 2
      let spread := (ask - bid) / mid * 100
      if ask ≤ 0 then some .askIsZeroOrNegative
      else if mid ≤ 0 then some .midIsZeroOrNegative
      else if maxSpreadPct < spread then some (.spreadTooWide spread maxSpreadPct)
      else none
    | _, _ => some .missingBidOrAsk

/-! ## What triggers an exit -/

/-- The triggers, in the order they are looked at. -/
inductive ExitTrigger where
  | forceFlatten
  | timeExit
  | strategyExit
  | stopLoss
  | takeProfit
  deriving DecidableEq

/-- What `check_exits` is told besides the positions and the market data. -/
structure ExitPolicy where
  currentTime : Time
  forceFlattenAll : Bool := false
  /-- The positions flagged by strategies for exit. -/
  strategyExits : List PositionId := []
  maxSpreadPct : Option ℚ := none
  maxAgeSeconds : Option Time := none

/-- The middle of the quote must breach the stop by this extra fraction
before a stop fires without waiting for the bar. -/
def intrabarGuardBuffer : ℚ := 15 / 100

namespace Position

/-- The side of the quote an exit of the position trades at. -/
def touch (pos : Position) (quote : QuoteSnapshot) : Option Price :=
  match pos.side with
  | .buy => quote.bid
  | .sell => quote.ask

/-- The limit of an exit that does not need a quote: the touch, otherwise
the current price. -/
def limitOrCurrent (pos : Position) (quote : Option QuoteSnapshot) : Option Price :=
  (quote.bind pos.touch).or pos.currentPrice

/-- The price stop and target are evaluated at. -/
def evalPrice (pos : Position) (quote : QuoteSnapshot) : Option Price :=
  if pos.useMidForExits then quote.mid.or (pos.touch quote) else pos.touch quote

/-- Whether a price is through a stop level, on the losing side. -/
def breaches (pos : Position) (stop price : Price) : Bool :=
  match pos.side with
  | .buy => price ≤ stop
  | .sell => stop ≤ price

/-- Whether a price has reached a target, on the winning side. -/
def reaches (pos : Position) (target price : Price) : Bool :=
  match pos.side with
  | .buy => target ≤ price
  | .sell => price ≤ target

/-- The worst price of a bar for the position. -/
def worst (pos : Position) (bar : Bar) : Price :=
  match pos.side with
  | .buy => bar.low
  | .sell => bar.high

/-- The level of the intrabar guard. -/
def guardLevel (pos : Position) (stop : Price) : Price :=
  match pos.side with
  | .buy => stop * (1 - intrabarGuardBuffer)
  | .sell => stop * (1 + intrabarGuardBuffer)

/-- `entry_time or created_at`. -/
def enteredAt (pos : Position) : Time := pos.entryTime.getD pos.createdAt

/-- Only a bar strictly after the entry minute counts. -/
def countedBar (pos : Position) (bar : Option Bar) : Option Bar :=
  bar.filter fun bar => pos.enteredAt.minute < bar.minuteStart

/-- **The hybrid stop**: on the worst price of the completed bar or the
guarded middle where there is a bar, on the evaluation price where there
is none. -/
def stopHit (pos : Position) (quote : QuoteSnapshot) (bar : Option Bar) : Bool :=
  match pos.stopPrice with
  | none => false
  | some stop =>
    match bar with
    | some bar =>
      pos.breaches stop (pos.worst bar)
        || quote.mid.any (pos.breaches (pos.guardLevel stop))
    | none => (pos.evalPrice quote).any (pos.breaches stop)

/-- The target, always on the evaluation price. -/
def targetHit (pos : Position) (quote : QuoteSnapshot) : Bool :=
  match pos.evalPrice quote, pos.targetPrice with
  | some price, some target => pos.reaches target price
  | _, _ => false

/-- Whether stop and target are evaluated at all: on a fresh quote with an
acceptable spread, and not in the first ten seconds. -/
def evaluated (pos : Position) (policy : ExitPolicy) (quote : QuoteSnapshot) : Bool :=
  policy.maxAgeSeconds.all
      (fun maxAge => (validateQuoteFreshness quote policy.currentTime maxAge).isNone)
    && policy.maxSpreadPct.all
      (fun maxSpread => (validateQuotePrices quote maxSpread).isNone)
    && 10 ≤ policy.currentTime - pos.enteredAt

/-- Stop loss and take profit, with the limit as far as the quote gives
one. -/
def stopOrTarget (pos : Position) (policy : ExitPolicy) (quote : QuoteSnapshot)
    (bar : Option Bar) : Option (ExitTrigger × Option Price) :=
  if !pos.evaluated policy quote then none
  else if pos.stopHit quote (pos.countedBar bar) then
    some (.stopLoss, (pos.touch quote).or (pos.evalPrice quote))
  else if pos.targetHit quote then some (.takeProfit, pos.evalPrice quote)
  else none

/-- **Whether and why the position is exited**, in order of priority, and
the limit as far as there is one. -/
def trigger (pos : Position) (policy : ExitPolicy) (quote : Option QuoteSnapshot)
    (bar : Option Bar) : Option (ExitTrigger × Option Price) :=
  if policy.forceFlattenAll then some (.forceFlatten, pos.limitOrCurrent quote)
  else if pos.timeExitUtc.any (· ≤ policy.currentTime) then
    some (.timeExit, pos.limitOrCurrent quote)
  else if pos.positionId ∈ policy.strategyExits then
    some (.strategyExit, pos.limitOrCurrent quote)
  else quote.bind fun quote => pos.stopOrTarget policy quote bar

/-- The limit that goes out: none defers the exit to the next tick, except
that a forced one may use the current price; never below a cent, and in
whole cents. -/
def exitLimit (pos : Position) (trigger : ExitTrigger) (limit : Option Price) :
    Option Price :=
  (limit.or (if trigger = .forceFlatten then pos.currentPrice else none)).map
    fun price => roundToCents (if price ≤ 0 then 1 / 100 else price)

end Position

/-! ## The exits of a list of positions -/

/-- How the validators of an intent refuse it. -/
inductive IntentError where
  | quantityNotPositive
  | limitPriceNotPositive
  deriving DecidableEq

/-- An intent that only reduces. -/
abbrev ExitIntent := { intent : OrderIntent // intent.isEntry = false }

/-- The intent of an exit: the opposite side, for the whole position. -/
def Position.exitIntent (riskDecisionId : RiskDecisionId) (limitPrice : Price)
    (pos : Position) : Except IntentError ExitIntent :=
  if hquantity : 0 < pos.quantity then
    if hlimit : 0 < limitPrice then
      let intent : OrderIntent :=
        { riskDecisionId := riskDecisionId
          positionId := some pos.positionId
          isEntry := false
          strategyId := pos.strategyId
          contract := pos.contract
          side := pos.side.opposite
          quantity := pos.quantity
          limitPrice := limitPrice
          quantity_pos := hquantity
          limit_pos := hlimit }
      .ok ⟨intent, rfl⟩
    else .error .limitPriceNotPositive
  else .error .quantityNotPositive

/-- An exit to make: the position, the intent and the trigger. -/
abbrev ExitSignal := Position × ExitIntent × ExitTrigger

/-- One turn of the loop of `check_exits`, with the quote and the bar found
for the position. `freshId` stands for `uuid4()`. -/
def Position.exitSignal (freshId : PositionId → RiskDecisionId) (policy : ExitPolicy)
    (pos : Position) (quote : Option QuoteSnapshot) (bar : Option Bar) :
    Except IntentError (Option ExitSignal) :=
  if !pos.status.isOpen then .ok none
  else match pos.trigger policy quote bar with
    | none => .ok none
    | some (trigger, limit) =>
      match pos.exitLimit trigger limit with
      | none => .ok none
      | some price =>
        (pos.exitIntent (freshId pos.positionId) price).map
          fun intent => some (pos, intent, trigger)

/-- **`check_exits`.** -/
def checkExits (floatRepr : Price → String) (freshId : PositionId → RiskDecisionId)
    (positions : List Position) (quotes : QuoteMap) (policy : ExitPolicy)
    (bars : BarMap) : Except IntentError (List ExitSignal) :=
  (positions.mapM fun (pos : Position) => pos.exitSignal freshId policy
    (pos.contract.lookup floatRepr quotes) (pos.contract.lookup floatRepr bars)).map
      List.reduceOption

/-! ## Whose data an exit or a mark uses

The quote and the bar of a position are those of its own key where the
maps have them. Where they do not, both `check_exits` and
`update_position_prices` take what the maps have under the underlying. -/

/-- Two maps have the same entries for every open position. -/
def SameForOpen {α : Type} (floatRepr : Price → String) (positions : List Position)
    (entries entries' : String → Option α) : Prop :=
  ∀ pos ∈ positions, pos.status.isOpen = true →
    pos.contract.SameEntries floatRepr entries entries'

/-- A position that is not open has no exit, whatever the data. -/
theorem Position.exitSignal_of_not_open {freshId : PositionId → RiskDecisionId}
    {policy : ExitPolicy} {pos : Position} (h : pos.status.isOpen = false)
    (quote : Option QuoteSnapshot) (bar : Option Bar) :
    pos.exitSignal freshId policy quote bar = .ok none := by
  simp [exitSignal, h]

/-- `check_exits` sees the maps through the entries of the open positions. -/
theorem checkExits_congr {floatRepr : Price → String}
    {freshId : PositionId → RiskDecisionId} {positions : List Position}
    {quotes quotes' : QuoteMap} {policy : ExitPolicy} {bars bars' : BarMap}
    (hquotes : SameForOpen floatRepr positions quotes quotes')
    (hbars : SameForOpen floatRepr positions bars bars') :
    checkExits floatRepr freshId positions quotes policy bars
      = checkExits floatRepr freshId positions quotes' policy bars' := by
  unfold checkExits
  congr 1
  refine List.mapM_eq_of_forall_mem fun pos hpos => ?_
  cases hopen : pos.status.isOpen with
  | true => rw [(hquotes pos hpos hopen).lookup_eq, (hbars pos hpos hopen).lookup_eq]
  | false => simp only [Position.exitSignal_of_not_open hopen]

/-- So does `update_position_prices`. -/
theorem PositionManager.updatePositionPrices_congr {floatRepr : Price → String}
    {pm : PositionManager} {quotes quotes' : QuoteMap}
    (hquotes : SameForOpen floatRepr pm.positions quotes quotes') (now : Time) :
    pm.updatePositionPrices floatRepr quotes now
      = pm.updatePositionPrices floatRepr quotes' now := by
  unfold updatePositionPrices
  congr 1
  refine List.map_congr_left fun pos hpos => ?_
  unfold Position.marked
  cases hopen : pos.status.isOpen with
  | true => rw [(hquotes pos hpos hopen).lookup_eq]
  | false => rfl

/-- **Exits and marks use the underlying's data for want of an own entry
only**: with maps that agree on the own entries of the open positions, and
on the underlying of each that has none, the exits, their limits and the
marks are the same. -/
theorem exits_and_marks_eq_of_sameEntries (floatRepr : Price → String)
    (freshId : PositionId → RiskDecisionId) (pm : PositionManager)
    (policy : ExitPolicy) (now : Time) (quotes quotes' : QuoteMap) (bars bars' : BarMap)
    (hquotes : SameForOpen floatRepr pm.positions quotes quotes')
    (hbars : SameForOpen floatRepr pm.positions bars bars') :
    checkExits floatRepr freshId pm.positions quotes policy bars
        = checkExits floatRepr freshId pm.positions quotes' policy bars'
      ∧ pm.updatePositionPrices floatRepr quotes now
        = pm.updatePositionPrices floatRepr quotes' now :=
  ⟨checkExits_congr hquotes hbars, PositionManager.updatePositionPrices_congr hquotes now⟩

/-- A long call bought at `10` with a target of `20`. -/
def samplePosition : Position where
  positionId := 0
  strategyId := "orb"
  contract := sampleContract
  side := .buy
  quantity := 2
  filledQuantity := 2
  averageEntryPrice := 10
  status := .opened
  entryOrderId := 0
  targetPrice := some 20
  createdAt := 0
  updatedAt := 0

/-- The level of its index. -/
def sampleIndexQuote : QuoteSnapshot where
  bid := some 5999
  ask := some 6001
  timestamp := 60
  bid_le_ask := by rintro _ ⟨⟩ _ ⟨⟩; decide

/-- Its own quote. -/
def sampleOptionQuote : QuoteSnapshot where
  bid := some 12
  ask := some 13
  timestamp := 60
  bid_le_ask := by rintro _ ⟨⟩ _ ⟨⟩; decide

/-- The maps with an entry for the index, and perhaps one for the option. -/
def sampleQuotes (index own : Option QuoteSnapshot) : QuoteMap := fun key =>
  if key = sampleContract.symbol then index else own

/-- An index level next to the option's own quote changes nothing. -/
theorem exits_and_marks_eq_beside_own_quote :
    checkExits (fun _ => "") id [samplePosition]
        (sampleQuotes (some sampleIndexQuote) (some sampleOptionQuote))
        { currentTime := 60 } (fun _ => none)
      = checkExits (fun _ => "") id [samplePosition]
        (sampleQuotes none (some sampleOptionQuote)) { currentTime := 60 } (fun _ => none)
    ∧ PositionManager.updatePositionPrices (fun _ => "") ⟨[samplePosition]⟩
        (sampleQuotes (some sampleIndexQuote) (some sampleOptionQuote)) 60
      = PositionManager.updatePositionPrices (fun _ => "") ⟨[samplePosition]⟩
        (sampleQuotes none (some sampleOptionQuote)) 60 := by
  have hown : ∀ index, sampleQuotes index (some sampleOptionQuote)
      (sampleContract.toQuoteSymbol fun _ => "") = some sampleOptionQuote :=
    fun _ => if_neg (OptionContract.toQuoteSymbol_ne_symbol _ _)
  refine exits_and_marks_eq_of_sameEntries _ id ⟨[samplePosition]⟩ _ 60 _ _ _ _ ?_ ?_
  · rintro pos hpos -
    obtain rfl := List.mem_singleton.mp hpos
    exact ⟨(hown _).trans (hown _).symm, fun hnone => nomatch (hown _).symm.trans hnone⟩
  · exact fun _ _ _ => ⟨rfl, fun _ => rfl⟩

theorem checkExits_singleton (floatRepr : Price → String)
    (freshId : PositionId → RiskDecisionId) (pos : Position) (quotes : QuoteMap)
    (policy : ExitPolicy) (bars : BarMap) :
    checkExits floatRepr freshId [pos] quotes policy bars
      = (pos.exitSignal freshId policy (pos.contract.lookup floatRepr quotes)
          (pos.contract.lookup floatRepr bars)).map Option.toList := by
  rw [checkExits, List.mapM_cons, List.mapM_nil]
  cases pos.exitSignal freshId policy (pos.contract.lookup floatRepr quotes)
      (pos.contract.lookup floatRepr bars) with
  | error e => rfl
  | ok signal => cases signal <;> rfl

/-- Without an own entry the call gets the one of its index. -/
theorem lookup_sampleQuotes (index : Option QuoteSnapshot) :
    samplePosition.contract.lookup (fun _ => "") (sampleQuotes index none) = index := by
  have hkey := sampleContract.toQuoteSymbol_ne_symbol fun _ => ""
  simp [OptionContract.lookup, sampleQuotes, samplePosition, hkey]

/-- No exit and no mark reads anything but the own entries of the open
positions. -/
def OwnEntriesOnly : Prop :=
  ∀ (floatRepr : Price → String) (freshId : PositionId → RiskDecisionId)
    (pm : PositionManager) (policy : ExitPolicy) (now : Time)
    (quotes quotes' : QuoteMap) (bars bars' : BarMap),
    (∀ pos ∈ pm.positions, quotes (pos.contract.toQuoteSymbol floatRepr)
        = quotes' (pos.contract.toQuoteSymbol floatRepr)) →
    (∀ pos ∈ pm.positions, bars (pos.contract.toQuoteSymbol floatRepr)
        = bars' (pos.contract.toQuoteSymbol floatRepr)) →
    checkExits floatRepr freshId pm.positions quotes policy bars
        = checkExits floatRepr freshId pm.positions quotes' policy bars'
      ∧ pm.updatePositionPrices floatRepr quotes now
        = pm.updatePositionPrices floatRepr quotes' now

/-- **The underlying's data is used where there is no own entry**: with no
quote of the call, the level of its index takes its profit. -/
theorem not_ownEntriesOnly : ¬ OwnEntriesOnly := by
  intro h
  have hexits := (h (fun _ => "") id ⟨[samplePosition]⟩ { currentTime := 60 } 60
    (sampleQuotes (some sampleIndexQuote) none) (sampleQuotes none none)
    (fun _ => none) (fun _ => none)
    (fun pos hpos => by
      obtain rfl := List.mem_singleton.mp hpos
      have hkey := sampleContract.toQuoteSymbol_ne_symbol fun _ => ""
      exact (if_neg hkey).trans (if_neg hkey).symm)
    (fun _ _ => rfl)).1
  rw [checkExits_singleton, checkExits_singleton, lookup_sampleQuotes,
    lookup_sampleQuotes] at hexits
  have htaken : ((samplePosition.exitSignal id { currentTime := 60 }
      (some sampleIndexQuote) none).map Option.toList).toOption.any (·.length = 1)
        = true := by
    decide +kernel
  have hnot : ((samplePosition.exitSignal id { currentTime := 60 } none
      none).map Option.toList).toOption.any (·.length = 1) = false := by
    decide +kernel
  exact absurd (htaken.symm.trans
    ((congrArg (fun exits => exits.toOption.any (·.length = 1)) hexits).trans hnot))
    (by decide)
