import ExecutionSystem.AllowedQuantity
import Mathlib.Data.List.Perm.Subperm

/-!
# Caution

Two evaluations of the same signal, at the same time and with the same
quote, of which the second is at least as restrictive in everything else:
tighter limits, fewer strategies, more overrides, and a snapshot with more
in it and more money lost. Then what the first rejects the second rejects,
and it allows no more (`RiskEngine.evaluate_of_stricter`).

Every check is a comparison, so it is enough that each of them goes on
objecting; the quantity is a minimum of bounds, each of which shrinks.
-/

/-! ## Stricter configurations -/

/-- **One configuration is at least as strict as another.** -/
structure FullRiskConfig.Stricter (risk risk' : FullRiskConfig) : Prop where
  tradingMode : risk'.globalRisk.tradingMode = risk.globalRisk.tradingMode
    ∨ risk'.globalRisk.tradingMode = .disabled
  dailyLossLimit : risk'.globalRisk.dailyLossLimit ≤ risk.globalRisk.dailyLossLimit
  maxOpenPositions : risk'.globalRisk.maxOpenPositions ≤ risk.globalRisk.maxOpenPositions
  maxOpenOrders : risk'.globalRisk.maxOpenOrders ≤ risk.globalRisk.maxOpenOrders
  maxContractsPerTrade :
    risk'.globalRisk.maxContractsPerTrade ≤ risk.globalRisk.maxContractsPerTrade
  maxPremiumPerTrade : risk'.globalRisk.maxPremiumPerTrade ≤ risk.globalRisk.maxPremiumPerTrade
  cutoffTime : risk'.globalRisk.cutoffTime ≤ risk.globalRisk.cutoffTime
  maxDailyLoss : risk'.perStrategy.maxDailyLoss ≤ risk.perStrategy.maxDailyLoss
  perStrategy : risk'.perStrategy.maxPositions ≤ risk.perStrategy.maxPositions
  perUnderlying : risk'.perUnderlying.maxPositions ≤ risk.perUnderlying.maxPositions
  maxSpreadPct : risk'.maxSpreadPct ≤ risk.maxSpreadPct
  maxAgeSeconds : risk'.maxAgeSeconds ≤ risk.maxAgeSeconds

/-- One set of overrides has all that another has. -/
structure OverridesConfig.Extends (overrides overrides' : OverridesConfig) : Prop where
  paused : overrides.pausedStrategies ⊆ overrides'.pausedStrategies
  disabled : overrides.disabledSymbols ⊆ overrides'.disabledSymbols
  reduceOnly : overrides.reduceOnly = true → overrides'.reduceOnly = true
  systemLocked : overrides.systemLocked = true → overrides'.systemLocked = true
  reduceOnlyStrategies :
    overrides.reduceOnlyStrategies ⊆ overrides'.reduceOnlyStrategies

/-- The configuration of a strategy. -/
def RiskEngine.config (engine : RiskEngine) (sid : StrategyId) : Option StrategyConfig :=
  engine.strategies.find? (·.strategyId = sid)

/-- **One engine is at least as strict as another.** -/
structure RiskEngine.Stricter (engine engine' : RiskEngine) : Prop where
  risk : engine.risk.Stricter engine'.risk
  overrides : engine.overrides.Extends engine'.overrides
  /-- No strategy is enabled in the second only. -/
  enabled : ∀ sid, (engine'.config sid).any (·.enabled) = true →
    (engine.config sid).any (·.enabled) = true
  cooldown : ∀ sid, ∀ cfg ∈ engine.config sid, ∀ cfg' ∈ engine'.config sid,
    cfg.cooldownSeconds ≤ cfg'.cooldownSeconds

/-- **One snapshot is at least as grave as another**, at the same time and
with the same quote. -/
structure SystemState.Graver (state state' : SystemState) : Prop where
  openPositions : state.openPositions.Subperm state'.openPositions
  openOrderCount : state.openOrderCount ≤ state'.openOrderCount
  dailyPnl : state'.dailyPnl ≤ state.dailyPnl
  strategyDailyPnl : ∀ sid, state'.strategyDailyPnl sid ≤ state.strategyDailyPnl sid
  killSwitch : state.killSwitchEngaged = true → state'.killSwitchEngaged = true
  lastTradeTimes : ∀ sid, ∀ last ∈ state.lastTradeTimes sid,
    ∃ last' ∈ state'.lastTradeTimes sid, last ≤ last'
  quote : state'.quote = state.quote
  currentTime : state'.currentTime = state.currentTime

namespace RiskEngine

variable {engine engine' : RiskEngine} {signal : StrategySignal} {state state' : SystemState}

/-! ## The checks, in their order -/

/-- A check that objects on account of more objects still. -/
theorem reasonIf_mono {p q : Prop} [Decidable p] [Decidable q] {reason reason' : String}
    (h : p → q) (hnone : reasonIf q reason' = []) : reasonIf p reason = [] :=
  reasonIf_eq_nil.mpr fun hp => reasonIf_eq_nil.mp hnone (h hp)

theorem countActive_mono (h : state.Graver state') (p : PositionInfo → Bool) :
    countActive state p ≤ countActive state' p :=
  h.openPositions.countP_le _

section Checks

variable (hengine : engine.Stricter engine') (hstate : state.Graver state')

include hengine

theorem checkTradingMode_mono (h : engine'.checkTradingMode = []) :
    engine.checkTradingMode = [] := by
  refine reasonIf_mono (fun hdisabled => ?_) h
  rcases hengine.risk.tradingMode with heq | heq
  · exact heq.trans hdisabled
  · exact heq

theorem checkSystemLocked_mono (h : engine'.checkSystemLocked = []) :
    engine.checkSystemLocked = [] := reasonIf_mono hengine.overrides.systemLocked h

/-- A strategy that the second engine knows and has enabled is known to the
first, and enabled. -/
theorem checkStrategyEnabled_mono (h : engine'.checkStrategyEnabled signal = []) :
    engine.checkStrategyEnabled signal = [] := by
  have henabled := hengine.enabled signal.strategyId
  unfold checkStrategyEnabled at h ⊢
  rw [show engine'.strategy signal = engine'.config signal.strategyId from rfl] at h
  rw [show engine.strategy signal = engine.config signal.strategyId from rfl]
  cases hcfg' : engine'.config signal.strategyId with
  | none =>
    rw [hcfg'] at h
    cases h
  | some cfg' =>
    rw [hcfg'] at h henabled
    have hon : cfg'.enabled = true := Bool.eq_true_of_not_eq_false (reasonIf_eq_nil.mp h)
    have hany := henabled hon
    cases hcfg : engine.config signal.strategyId with
    | none =>
      rw [hcfg] at hany
      cases hany
    | some cfg =>
      rw [hcfg] at hany
      refine reasonIf_eq_nil.mpr fun hoff => ?_
      exact absurd (hany.symm.trans hoff) (by decide)

theorem checkStrategyPaused_mono (h : engine'.checkStrategyPaused signal = []) :
    engine.checkStrategyPaused signal = [] :=
  reasonIf_mono (fun hmem => hengine.overrides.paused hmem) h

theorem checkSymbolDisabled_mono (h : engine'.checkSymbolDisabled signal = []) :
    engine.checkSymbolDisabled signal = [] :=
  reasonIf_mono (fun hmem => hengine.overrides.disabled hmem) h

theorem checkReduceOnly_mono (h : engine'.checkReduceOnly signal = []) :
    engine.checkReduceOnly signal = [] := by
  refine reasonIf_mono (fun hreduce => ?_) h
  exact hreduce.imp hengine.overrides.reduceOnly
    fun hmem => hengine.overrides.reduceOnlyStrategies hmem

/-- What is wrong with the prices of a quote does not depend on the limit;
how wide it may be does. -/
theorem validateQuotePrices_mono {quote : QuoteSnapshot}
    (h : engine'.validateQuotePrices quote = []) : engine.validateQuotePrices quote = [] := by
  unfold validateQuotePrices at h ⊢
  cases hbid : quote.bid with
  | none =>
    rw [hbid] at h
    cases h
  | some bid =>
    cases hask : quote.ask with
    | none =>
      rw [hbid, hask] at h
      cases h
    | some ask =>
      rw [hbid, hask] at h
      dsimp only at h ⊢
      split_ifs at h ⊢
      exact reasonIf_mono (fun hwide => hengine.risk.maxSpreadPct.trans_lt hwide) h

include hstate

theorem checkCutoffTime_mono (h : engine'.checkCutoffTime state' = []) :
    engine.checkCutoffTime state = [] := by
  refine reasonIf_mono (fun hlate => ?_) h
  rw [hstate.currentTime]
  exact hengine.risk.cutoffTime.trans hlate

theorem checkDailyLossLimit_mono (h : engine'.checkDailyLossLimit state' = []) :
    engine.checkDailyLossLimit state = [] := by
  refine reasonIf_mono (fun hloss => ?_) h
  calc state'.dailyPnl ≤ state.dailyPnl := hstate.dailyPnl
    _ ≤ -engine.risk.globalRisk.dailyLossLimit := hloss
    _ ≤ -engine'.risk.globalRisk.dailyLossLimit := neg_le_neg hengine.risk.dailyLossLimit

theorem checkStrategyDailyLossLimit_mono
    (h : engine'.checkStrategyDailyLossLimit signal state' = []) :
    engine.checkStrategyDailyLossLimit signal state = [] := by
  refine reasonIf_mono (fun hloss => ?_) h
  calc state'.strategyDailyPnl signal.strategyId
      ≤ state.strategyDailyPnl signal.strategyId := hstate.strategyDailyPnl _
    _ ≤ -engine.risk.perStrategy.maxDailyLoss := hloss
    _ ≤ -engine'.risk.perStrategy.maxDailyLoss := neg_le_neg hengine.risk.maxDailyLoss

theorem checkMaxOpenPositions_mono (h : engine'.checkMaxOpenPositions state' = []) :
    engine.checkMaxOpenPositions state = [] :=
  reasonIf_mono (fun hfull => hengine.risk.maxOpenPositions.trans
    (hfull.trans (countActive_mono hstate _))) h

theorem checkMaxPositionsPerStrategy_mono
    (h : engine'.checkMaxPositionsPerStrategy signal state' = []) :
    engine.checkMaxPositionsPerStrategy signal state = [] :=
  reasonIf_mono (fun hfull => hengine.risk.perStrategy.trans
    (hfull.trans (countActive_mono hstate _))) h

theorem checkMaxPositionsPerUnderlying_mono
    (h : engine'.checkMaxPositionsPerUnderlying signal state' = []) :
    engine.checkMaxPositionsPerUnderlying signal state = [] :=
  reasonIf_mono (fun hfull => hengine.risk.perUnderlying.trans
    (hfull.trans (countActive_mono hstate _))) h

theorem checkMaxOpenOrders_mono (h : engine'.checkMaxOpenOrders state' = []) :
    engine.checkMaxOpenOrders state = [] :=
  reasonIf_mono (fun hfull => hengine.risk.maxOpenOrders.trans
    (hfull.trans hstate.openOrderCount)) h

theorem checkQuoteFreshness_mono (h : engine'.checkQuoteFreshness state' = []) :
    engine.checkQuoteFreshness state = [] := by
  unfold checkQuoteFreshness at h ⊢
  rw [hstate.quote] at h
  cases hquote : state.quote with
  | none =>
    rw [hquote] at h
    cases h
  | some quote =>
    rw [hquote] at h
    unfold validateQuoteFreshness at h ⊢
    refine reasonIf_mono (fun hstale => ?_) h
    rw [hstate.currentTime]
    exact hengine.risk.maxAgeSeconds.trans_lt hstale

theorem checkQuoteValidity_mono (h : engine'.checkQuoteValidity state' = []) :
    engine.checkQuoteValidity state = [] := by
  unfold checkQuoteValidity at h ⊢
  rw [hstate.quote] at h
  cases hquote : state.quote with
  | none => rfl
  | some quote =>
    rw [hquote] at h
    exact validateQuotePrices_mono hengine h

/-- A strategy that is still cooling down cools down longer after a later
trade. -/
theorem checkCooldown_mono (henabled : engine'.checkStrategyEnabled signal = [])
    (h : engine'.checkCooldown signal state' = []) :
    engine.checkCooldown signal state = [] := by
  unfold checkStrategyEnabled at henabled
  unfold checkCooldown at h ⊢
  cases hcfg : engine.strategy signal with
  | none => rfl
  | some cfg =>
    cases hlast : state.lastTradeTimes signal.strategyId with
    | none => rfl
    | some last =>
      obtain ⟨last', hlast', hle⟩ := hstate.lastTradeTimes _ last hlast
      -- the second engine knows the strategy, since it has it enabled
      cases hcfg' : engine'.strategy signal with
      | none =>
        rw [hcfg'] at henabled
        cases henabled
      | some cfg' =>
        have hcooldown := hengine.cooldown _ cfg hcfg cfg' hcfg'
        rw [hcfg', Option.mem_def.mp hlast'] at h
        refine reasonIf_mono (fun ⟨hpos, helapsed⟩ => ⟨hpos.trans_le hcooldown, ?_⟩) h
        calc state'.currentTime - last' ≤ state.currentTime - last := by
              rw [hstate.currentTime]
              exact sub_le_sub_left hle _
          _ < cfg.cooldownSeconds := helapsed
          _ ≤ cfg'.cooldownSeconds := hcooldown

/-- **What nothing speaks against in the second evaluation, nothing spoke
against in the first.** -/
theorem blocking_mono (h : engine'.blocking signal state' = []) :
    engine.blocking signal state = [] := by
  simp only [blocking, List.append_eq_nil_iff, and_assoc] at h ⊢
  obtain ⟨hkill, hmode, hlocked, henabled, hpaused, hsymbol, hreduce, hcutoff, hloss,
    hstrategyLoss, hpositions, hstrategy, hunderlying, horders, hfresh, hvalid, hcooldown⟩ := h
  exact ⟨reasonIf_mono hstate.killSwitch hkill, checkTradingMode_mono hengine hmode,
    checkSystemLocked_mono hengine hlocked, checkStrategyEnabled_mono hengine henabled,
    checkStrategyPaused_mono hengine hpaused, checkSymbolDisabled_mono hengine hsymbol,
    checkReduceOnly_mono hengine hreduce, checkCutoffTime_mono hengine hstate hcutoff,
    checkDailyLossLimit_mono hengine hstate hloss,
    checkStrategyDailyLossLimit_mono hengine hstate hstrategyLoss,
    checkMaxOpenPositions_mono hengine hstate hpositions,
    checkMaxPositionsPerStrategy_mono hengine hstate hstrategy,
    checkMaxPositionsPerUnderlying_mono hengine hstate hunderlying,
    checkMaxOpenOrders_mono hengine hstate horders,
    checkQuoteFreshness_mono hengine hstate hfresh,
    checkQuoteValidity_mono hengine hstate hvalid,
    checkCooldown_mono hengine hstate henabled hcooldown⟩

omit hstate

/-! ## The quantity -/

/-- **The quantity shrinks with the limits.** -/
theorem computeAllowedQuantity_mono :
    engine'.computeAllowedQuantity signal ≤ engine.computeAllowedQuantity signal := by
  have hcontracts : min signal.requestedQuantity engine'.risk.globalRisk.maxContractsPerTrade
      ≤ min signal.requestedQuantity engine.risk.globalRisk.maxContractsPerTrade :=
    min_le_min_left _ hengine.risk.maxContractsPerTrade
  cases hprice : signal.limitPrice with
  | none =>
    unfold computeAllowedQuantity
    rw [hprice]
    exact max_le_max_right 1 hcontracts
  | some price =>
    -- what the smaller budget is counted to pay for, the larger one is too
    refine (le_computeAllowedQuantity_iff hprice _).mpr ?_
    refine ((le_computeAllowedQuantity_iff hprice _).mp le_rfl).imp_right fun h => ?_
    refine ⟨h.1.trans hcontracts, fun hcost => (h.2 hcost).trans ?_⟩
    exact binary64_isRounding.monotone
      (div_le_div_of_nonneg_right hengine.risk.maxPremiumPerTrade hcost.le)

end Checks

/-! ## Two evaluations -/

/-- A decision is approved, with the quantity computed, or rejected. -/
theorem evaluate_cases (engine : RiskEngine) (signal : StrategySignal) (state : SystemState) :
    (engine.blocking signal state = []
        ∧ (engine.evaluate signal state).status = .approved
        ∧ (engine.evaluate signal state).allowedQuantity = engine.computeAllowedQuantity signal)
      ∨ (engine.blocking signal state ≠ []
        ∧ (engine.evaluate signal state).status = .rejected
        ∧ (engine.evaluate signal state).allowedQuantity = 0) := by
  unfold evaluate
  dsimp only
  split_ifs with h
  · exact .inl ⟨List.isEmpty_iff.mp h, rfl, rfl⟩
  · exact .inr ⟨mt List.isEmpty_iff.mpr h, rfl, rfl⟩

/-- **The risk engine is monotone in caution**: a stricter engine on a
graver snapshot rejects every signal that was rejected, and allows no
greater quantity. -/
theorem evaluate_of_stricter (engine engine' : RiskEngine) (state state' : SystemState)
    (signal : StrategySignal) (hengine : engine.Stricter engine')
    (hstate : state.Graver state') :
    ((engine.evaluate signal state).status = .rejected →
        (engine'.evaluate signal state').status = .rejected)
      ∧ (engine'.evaluate signal state').allowedQuantity
        ≤ (engine.evaluate signal state).allowedQuantity := by
  rcases engine'.evaluate_cases signal state' with
    ⟨hnone', hstatus', hquantity'⟩ | ⟨-, hstatus', hquantity'⟩
  · have hnone := blocking_mono hengine hstate hnone'
    rcases engine.evaluate_cases signal state with
      ⟨-, hstatus, hquantity⟩ | ⟨hsome, -, -⟩
    · refine ⟨fun hrejected => absurd (hstatus.symm.trans hrejected) (by decide), ?_⟩
      rw [hquantity, hquantity']
      exact computeAllowedQuantity_mono hengine
    · exact absurd hnone hsome
  · exact ⟨fun _ => hstatus', hquantity'.le.trans (Nat.zero_le _)⟩

/-- The sample limits with a smaller spread and a budget of `500`. -/
def strictRisk : FullRiskConfig :=
  { sampleRisk with
    globalRisk := { sampleRisk.globalRisk with maxPremiumPerTrade := 500, premium_pos := by decide }
    maxSpreadPct := 9
    spread_pos := by decide }

/-- The quoted snapshot after a trade and with a loss. -/
def graveState : SystemState :=
  { quotedState with
    openOrderCount := 1
    dailyPnl := -1
    lastTradeTimes := fun _ => some 0 }

/-- Less may be spent, the spread may be smaller, and money has been lost. -/
theorem evaluate_of_stricter_sample :
    ((sampleEngine.evaluate expensiveSignal quotedState).status = .rejected →
        (({ sampleEngine with risk := strictRisk } : RiskEngine).evaluate expensiveSignal
          graveState).status = .rejected)
      ∧ (({ sampleEngine with risk := strictRisk } : RiskEngine).evaluate expensiveSignal
          graveState).allowedQuantity
        ≤ (sampleEngine.evaluate expensiveSignal quotedState).allowedQuantity := by
  refine evaluate_of_stricter sampleEngine { sampleEngine with risk := strictRisk } quotedState
    graveState expensiveSignal ⟨?_, ?_, fun _ h => h, ?_⟩ ?_
  · exact ⟨.inl rfl, le_rfl, le_rfl, le_rfl, le_rfl, by decide +kernel, le_rfl, le_rfl, le_rfl,
      le_rfl, by decide +kernel, le_rfl⟩
  · exact ⟨List.Subset.refl _, List.Subset.refl _, id, id, List.Subset.refl _⟩
  · rintro sid cfg hcfg cfg' hcfg'
    obtain rfl := Option.some.inj (hcfg.symm.trans hcfg')
    exact le_rfl
  · exact
      { openPositions := List.Subperm.refl _
        openOrderCount := Nat.zero_le _
        dailyPnl := by decide +kernel
        strategyDailyPnl := fun _ => le_rfl
        killSwitch := id
        lastTradeTimes := fun _ _ hlast => by cases hlast
        quote := rfl
        currentTime := rfl }

end RiskEngine
