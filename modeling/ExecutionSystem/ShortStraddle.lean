import ExecutionSystem.ExitManager
import ExecutionSystem.ListFacts
import ExecutionSystem.TickPrices
import ExecutionSystem.TriggerFreshness
import Mathlib.Data.List.MinMax

/-!
# The short straddle

`_build_signals` of `src/strategies/xsp_short_straddle.py`: a call and a put
of the day are sold, each at the strike whose quote is closest to the target.

The scans are two loops with a strict comparison, so each returns the first
of the closest candidates (`Leg.scan_eq_argmin`). The candidates are kept in a
dictionary by their quote symbols, and no two of them share one
(`candidates_nodup`), so none is lost. A leg that is sold has therefore the
least distance of all candidates with a valid quote, and its size is covered
by the share of the account (`XSPShortStraddleStrategyProvider.buildSignals_chosen`).

Targets, distances and sizes are computed in floats. A quotient that is
rounded up to a whole number buys one contract more than the share pays for
(`XSPShortStraddleStrategyProvider.not_paid`), so what a size costs is covered
up to rounding only (`PaysFor`).

What the provider logs, and when, is left out.
-/

/-! ## What is read and returned -/

inductive StrikeSelection where
  | premiumTarget
  | deltaTarget
  deriving DecidableEq

/-- What the strategy's size and strikes are configured by. -/
structure StraddleConfig extends SizingConfig where
  leverage : Option ℚ := some 12
  strikeSelection : StrikeSelection := .premiumTarget
  targetDelta : Option ℚ := none
  leverage_pos : ∀ l ∈ leverage, 0 < l

/-- **What the broker says** during one call: its quotes for the underlying,
those for the options, and the value of the account; `none` where the call
raises. -/
structure StraddleMarket where
  underlyingQuotes : Option (String → Option StrategyQuote)
  optionQuotes : Option (String → Option StrategyQuote)
  netLiquidation : Option Price

structure StraddleMetadata where
  underlyingPriceAtEntry : Price
  targetPremium : Price
  leverage : ℚ
  positionSizingPct : ℚ
  availableCapital : Price
  marginPerLeg : Price
  strikeSelection : StrikeSelection
  targetDelta : Option ℚ
  leg : OptionRight
  optionMid : Price
  optionDelta : Option ℚ

/-- A signal, with the metadata of the straddle. -/
structure StraddleSignal where
  signal : StrategySignal
  timestamp : Time
  metadata : StraddleMetadata

/-- A strike that was selected, and how far it is from the target. -/
structure Leg where
  contract : OptionContract
  mid : Price
  delta : Option ℚ
  diff : ℚ

structure XSPShortStraddleStrategyProvider where
  maxSpreadPct : ℚ := 15

namespace StraddleConfig

variable (cfg : StraddleConfig)

def leverageOrDefault : ℚ := cfg.leverage.getD 12
def sizingPctOrDefault : ℚ := cfg.positionSizingPct.getD (binary64 (25 / 1000))
def targetDeltaOrDefault : ℚ := (cfg.targetDelta.filter (· ≠ 0)).getD (binary64 (3 / 10))

/-- The premium that the strikes are to have. -/
def targetPremium (underlying : Price) : Price :=
  binary64 (binary64 (binary64 (underlying * 2) * cfg.sizingPctOrDefault) / cfg.leverageOrDefault)

def margin (underlying : Price) : Price :=
  binary64 (binary64 (binary64 (underlying * 100) * 2) / cfg.leverageOrDefault)

/-- The quantity of a leg: what a share of the account pays for, at least
one, and at most what is configured. -/
def legQuantity (underlying availableCap price : Price) : ℕ :=
  let upside := binary64 (binary64 (price * 100) / cfg.margin underlying)
  let ps := min upside cfg.sizingPctOrDefault
  let buys := binary64 (binary64 (availableCap * ps) / binary64 (price * 100))
  min (max 1 (PyValue.truncate buys)).toNat cfg.maxContracts

theorem legQuantity_pos (underlying availableCap price : Price) :
    0 < cfg.legQuantity underlying availableCap price := by
  have := cfg.maxContracts_pos
  unfold legQuantity
  dsimp only
  omega

/-- How far a quote is from the target; a quote without delta is passed over
where the delta is matched. -/
def distance (right : OptionRight) (underlying mid : Price) (delta : Option ℚ) : Option ℚ :=
  match cfg.strikeSelection, right with
  | .premiumTarget, _ => some |binary64 (mid - cfg.targetPremium underlying)|
  | .deltaTarget, .call => delta.map fun delta => |binary64 (delta - cfg.targetDeltaOrDefault)|
  | .deltaTarget, .put => delta.map fun delta => |binary64 (delta + cfg.targetDeltaOrDefault)|

end StraddleConfig

/-- The price of the underlying: the middle, the last trade, or the close. -/
def StrategyQuote.underlyingPrice (quote : StrategyQuote) : Option Price :=
  match quote.mid, quote.last with
  | some mid, _ => some mid
  | none, some last => some last
  | none, none => quote.close

/-- … as the broker quotes it. -/
def StraddleMarket.underlyingPrice (market : StraddleMarket) : Option Price :=
  (market.underlyingQuotes.bind (· "XSP")).bind (·.underlyingPrice)

/-- The net liquidation value, or a default where the account is unknown. -/
def StraddleMarket.availableCap (market : StraddleMarket) : Price :=
  market.netLiquidation.getD 100000

/-! ## The candidates -/

/-- Twelve strikes on either side of the rounded price. -/
def strikeRange (atm : ℤ) : List ℤ := (List.range 25).map fun i : ℕ => atm - 12 + (i : ℤ)

/-- The contract of a strike; the validator refuses one that is not positive. -/
def candidate (expiry : String) (right : OptionRight) (strike : ℤ) :
    Except PollError OptionContract :=
  if h : (0 : Price) < strike then
    .ok
      { symbol := "XSP"
        expiry := expiry
        strike := strike
        right := right
        strike_pos := h
        multiplier_pos := OptionContract.hundred_pos }
  else .error .invalidStrike

def candidates (expiry : String) (right : OptionRight) (atm : ℤ) :
    Except PollError (List OptionContract) :=
  (strikeRange atm).mapM (candidate expiry right)

/-- The dictionary of the candidates by their quote symbols. -/
def bySymbol (floatRepr : Price → String) (contracts : List OptionContract) :
    List OptionContract :=
  contracts.foldl (List.put (·.toQuoteSymbol floatRepr)) []

/-! ## The scan -/

/-- A leg replaces the best one if it is closer. -/
def Leg.closer (best leg : Option Leg) : Option Leg :=
  match leg, best with
  | none, best => best
  | some leg, none => some leg
  | some leg, some best => if leg.diff < best.diff then some leg else some best

/-- **The scan of the candidates**, as far as they make a leg. -/
def Leg.scan (appraise : OptionContract → Option Leg) (contracts : List OptionContract) :
    Option Leg :=
  contracts.foldl (fun best contract => closer best (appraise contract)) none

namespace XSPShortStraddleStrategyProvider

variable (provider : XSPShortStraddleStrategyProvider) (floatRepr : Price → String)
  (clock : NyClock) (cfg : StraddleConfig)

/-- What a candidate offers: nothing without a valid quote of two sides. -/
def appraise (right : OptionRight) (underlying : Price) (quotes : String → Option StrategyQuote)
    (contract : OptionContract) : Option Leg :=
  (quotes (contract.toQuoteSymbol floatRepr)).bind fun quote =>
    match quote.bid, quote.ask with
    | some bid, some ask =>
      if (validateQuotePrices quote.toQuoteSnapshot provider.maxSpreadPct).isNone then
        let mid := binary64 (binary64 (bid + ask) / 2)
        (cfg.distance right underlying mid quote.delta).map fun diff =>
          ⟨contract, mid, quote.delta, diff⟩
      else none
    | _, _ => none

/-- The best leg of a side. -/
def bestLeg (right : OptionRight) (underlying : Price) (quotes : String → Option StrategyQuote)
    (contracts : List OptionContract) : Option Leg :=
  Leg.scan (provider.appraise floatRepr cfg right underlying quotes)
    (bySymbol floatRepr contracts)

/-- The signal for a leg; the validator refuses a limit that rounds to zero. -/
def legSignal (currentTime : Time) (underlying availableCap : Price) (right : OptionRight)
    (leg : Leg) : Except PollError StraddleSignal :=
  if hlimit : 0 < roundToCents leg.mid then
    .ok
      { signal :=
          { strategyId := cfg.strategyId
            direction := .short
            contract := leg.contract
            requestedQuantity := cfg.legQuantity underlying availableCap leg.mid
            limitPrice := some (roundToCents leg.mid)
            requested_pos := cfg.legQuantity_pos underlying availableCap leg.mid
            limit_pos := by rintro _ ⟨⟩; exact hlimit }
        timestamp := currentTime
        metadata :=
          { underlyingPriceAtEntry := underlying
            targetPremium := cfg.targetPremium underlying
            leverage := cfg.leverageOrDefault
            positionSizingPct := cfg.sizingPctOrDefault
            availableCapital := availableCap
            marginPerLeg := cfg.margin underlying
            strikeSelection := cfg.strikeSelection
            targetDelta := match cfg.strikeSelection with
              | .deltaTarget => some cfg.targetDeltaOrDefault
              | .premiumTarget => none
            leg := right
            optionMid := leg.mid
            optionDelta := leg.delta } }
  else .error .invalidLimit

/-- **`_build_signals`.** -/
def buildSignals (currentTime : Time) (market : StraddleMarket) :
    Except PollError (List StraddleSignal) :=
  match market.underlyingPrice with
  | none => .ok []
  | some underlying => do
    let expiry := clock.dateText (clock.wall currentTime).date
    let calls ← candidates expiry .call (roundHalfEven underlying)
    let puts ← candidates expiry .put (roundHalfEven underlying)
    match market.optionQuotes with
    | none => .ok []
    | some quotes =>
      match provider.bestLeg floatRepr cfg .call underlying quotes calls,
        provider.bestLeg floatRepr cfg .put underlying quotes puts with
      | some call, some put => do
        let callSignal ← legSignal cfg currentTime underlying market.availableCap .call call
        let putSignal ← legSignal cfg currentTime underlying market.availableCap .put put
        .ok [callSignal, putSignal]
      | _, _ => .ok []

end XSPShortStraddleStrategyProvider

/-! ## The candidates and their keys -/

/-- A number is read back from its digits. -/
theorem Nat.toString_inj {m n : ℕ} (h : toString m = toString n) : m = n := by
  rw [Nat.toString_eq_repr, Nat.toString_eq_repr] at h
  have hdigits := congrArg (fun text => Nat.ofDigitChars 10 text.toList 0) h
  simpa only [Nat.toList_repr, Nat.ofDigitChars_ten_toDigits] using hdigits

/-- **Positive whole strikes have different keys.** -/
theorem OptionContract.strike_eq_of_toQuoteSymbol {floatRepr : Price → String}
    {c c' : OptionContract} {strike strike' : ℤ} (hsymbol : c.symbol = c'.symbol)
    (hexpiry : c.expiry = c'.expiry) (hright : c.right = c'.right)
    (hstrike : c.strike = strike) (hstrike' : c'.strike = strike')
    (h : c.toQuoteSymbol floatRepr = c'.toQuoteSymbol floatRepr) : c.strike = c'.strike := by
  have hpos : 0 < strike := by exact_mod_cast hstrike ▸ c.strike_pos
  have hpos' : 0 < strike' := by exact_mod_cast hstrike' ▸ c'.strike_pos
  -- a whole strike is printed as its digits, after the same text on both sides
  simp only [toQuoteSymbol, hsymbol, hexpiry, hright, hstrike, hstrike', Rat.den_intCast,
    if_true, Rat.num_intCast, String.append_left_inj, String.append_right_inj] at h
  obtain ⟨m, rfl⟩ := Int.eq_ofNat_of_zero_le hpos.le
  obtain ⟨n, rfl⟩ := Int.eq_ofNat_of_zero_le hpos'.le
  rw [hstrike, hstrike', Nat.toString_inj h]

theorem mem_strikeRange {atm strike : ℤ} : strike ∈ strikeRange atm ↔ |strike - atm| ≤ 12 := by
  rw [strikeRange, List.mem_map, abs_le]
  constructor
  · rintro ⟨i, hi, rfl⟩
    have := List.mem_range.mp hi
    omega
  · rintro ⟨hlo, hhi⟩
    exact ⟨(strike - atm + 12).toNat, List.mem_range.mpr (by omega), by omega⟩

theorem strikeRange_nodup (atm : ℤ) : (strikeRange atm).Nodup :=
  List.nodup_range.map fun i j h => by omega

/-- What a monadic map returns, where the elements can be read back from it. -/
theorem mapM_eq_ok {α β ε : Type} {f : α → Except ε β} {g : β → α} {xs : List α} {ys : List β}
    (hg : ∀ x y, f x = .ok y → g y = x) (h : xs.mapM f = .ok ys) :
    ys.map g = xs ∧ ∀ y ∈ ys, f (g y) = .ok y := by
  induction xs generalizing ys with
  | nil =>
    cases h
    exact ⟨rfl, by simp⟩
  | cons x xs ih =>
    rw [List.mapM_cons] at h
    cases hx : f x with
    | error e =>
      rw [hx] at h
      cases h
    | ok y =>
      cases hxs : xs.mapM f with
      | error e =>
        rw [hx, hxs] at h
        cases h
      | ok ys' =>
        rw [hx, hxs] at h
        cases h
        obtain ⟨hmap, hall⟩ := ih hxs
        rw [List.map_cons, hg x y hx, hmap]
        refine ⟨rfl, fun z hz => ?_⟩
        rcases List.mem_cons.mp hz with rfl | hz
        · rw [hg x z hx, hx]
        · exact hall z hz

/-- It returns where the function does at every element. -/
theorem exists_mapM_eq_ok {α β ε : Type} {f : α → Except ε β} {xs : List α}
    (h : ∀ x ∈ xs, ∃ y, f x = .ok y) : ∃ ys, xs.mapM f = .ok ys := by
  induction xs with
  | nil => exact ⟨[], rfl⟩
  | cons x xs ih =>
    obtain ⟨y, hy⟩ := h x List.mem_cons_self
    obtain ⟨ys, hys⟩ := ih fun z hz => h z (List.mem_cons_of_mem x hz)
    exact ⟨y :: ys, by rw [List.mapM_cons, hy, hys]; rfl⟩

/-- The contract of a strike. -/
structure IsCandidate (expiry : String) (right : OptionRight) (strike : ℤ)
    (contract : OptionContract) : Prop where
  symbol : contract.symbol = "XSP"
  expiry : contract.expiry = expiry
  strike : contract.strike = strike
  right : contract.right = right
  multiplier : contract.multiplier = 100

/-- There is one at most. -/
theorem IsCandidate.eq {expiry : String} {right : OptionRight} {strike : ℤ}
    {c c' : OptionContract} (h : IsCandidate expiry right strike c)
    (h' : IsCandidate expiry right strike c') : c = c' := by
  obtain ⟨symbol, _, _, _, _, _, _⟩ := c
  obtain ⟨symbol', _, _, _, _, _, _⟩ := c'
  obtain ⟨rfl, rfl, rfl, rfl, rfl⟩ := h
  obtain ⟨rfl, rfl, rfl, rfl, rfl⟩ := h'
  rfl

theorem isCandidate_of_ok {expiry : String} {right : OptionRight} {strike : ℤ}
    {contract : OptionContract} (h : candidate expiry right strike = .ok contract) :
    IsCandidate expiry right strike contract := by
  unfold candidate at h
  split_ifs at h
  cases h
  exact ⟨rfl, rfl, rfl, rfl, rfl⟩

section Candidates

variable {expiry : String} {right : OptionRight} {atm : ℤ} {contracts : List OptionContract}

/-- The strikes are read back from the candidates. -/
theorem candidates_strikes (h : candidates expiry right atm = .ok contracts) :
    contracts.map (·.strike.num) = strikeRange atm
      ∧ ∀ contract ∈ contracts, IsCandidate expiry right contract.strike.num contract := by
  have hread : ∀ strike contract, candidate expiry right strike = .ok contract →
      contract.strike.num = strike := by
    intro strike contract hok
    rw [(isCandidate_of_ok hok).strike]
    exact Rat.num_intCast strike
  obtain ⟨hmap, hall⟩ := mapM_eq_ok hread h
  exact ⟨hmap, fun contract hmem => isCandidate_of_ok (hall contract hmem)⟩

/-- Around a price above 13 there are 25 candidates. -/
theorem exists_candidates (expiry : String) (right : OptionRight) (hatm : 13 ≤ atm) :
    ∃ contracts, candidates expiry right atm = .ok contracts := by
  refine exists_mapM_eq_ok fun strike hstrike => ?_
  have hnear := abs_le.mp (mem_strikeRange.mp hstrike)
  have hpos : (0 : Price) < strike := by exact_mod_cast (by omega : 0 < strike)
  exact ⟨_, dif_pos hpos⟩

/-- **The candidates are the contracts of the 25 strikes.** -/
theorem mem_candidates (h : candidates expiry right atm = .ok contracts)
    {contract : OptionContract} :
    contract ∈ contracts ↔ ∃ strike : ℤ, |strike - atm| ≤ 12
      ∧ IsCandidate expiry right strike contract := by
  obtain ⟨hmap, hall⟩ := candidates_strikes h
  constructor
  · intro hmem
    refine ⟨contract.strike.num, mem_strikeRange.mp ?_, hall contract hmem⟩
    rw [← hmap]
    exact List.mem_map_of_mem hmem
  · rintro ⟨strike, hnear, hof⟩
    have hmem : strike ∈ contracts.map (·.strike.num) := by
      rw [hmap]
      exact mem_strikeRange.mpr hnear
    obtain ⟨other, hother, rfl⟩ := List.mem_map.mp hmem
    exact hof.eq (hall other hother) ▸ hother

/-- **No two candidates share a key.** -/
theorem candidates_nodup (floatRepr : Price → String)
    (h : candidates expiry right atm = .ok contracts) :
    (contracts.map (·.toQuoteSymbol floatRepr)).Nodup := by
  obtain ⟨hmap, hall⟩ := candidates_strikes h
  have hnodup : (contracts.map (·.strike.num)).Nodup := hmap ▸ strikeRange_nodup atm
  refine (List.Nodup.of_map _ hnodup).map_on fun c hc c' hc' hkey => ?_
  -- equal keys print equal strikes, and the strikes are told apart
  obtain ⟨hsymbol, hexpiry, hstrike, hright, -⟩ := hall c hc
  obtain ⟨hsymbol', hexpiry', hstrike', hright', -⟩ := hall c' hc'
  have heq := OptionContract.strike_eq_of_toQuoteSymbol (hsymbol.trans hsymbol'.symm)
    (hexpiry.trans hexpiry'.symm) (hright.trans hright'.symm) hstrike hstrike' hkey
  exact List.inj_on_of_nodup_map hnodup hc hc' (congrArg Rat.num heq)

/-- **The dictionary has every candidate.** -/
theorem mem_bySymbol (floatRepr : Price → String)
    (h : candidates expiry right atm = .ok contracts) {contract : OptionContract} :
    contract ∈ bySymbol floatRepr contracts ↔ contract ∈ contracts := by
  constructor
  · intro hmem
    rcases List.mem_foldl_put hmem with hmem | ⟨hmem, -⟩
    · exact hmem
    · cases hmem
  · exact List.mem_foldl_put_of_nodup (candidates_nodup floatRepr h)

end Candidates

/-! ## The closest leg -/

/-- **The scan returns the first of the closest legs.** -/
theorem Leg.scan_eq_argmin (appraise : OptionContract → Option Leg)
    (contracts : List OptionContract) :
    scan appraise contracts = (contracts.filterMap appraise).argmin (·.diff) := by
  -- the induction is on the candidates, for every leg that may be the best so far
  have hfold : ∀ best, contracts.foldl (fun best contract => closer best (appraise contract)) best
      = (contracts.filterMap appraise).foldl
        (List.argAux fun b c => b.diff < c.diff) best := by
    induction contracts with
    | nil => exact fun _ => rfl
    | cons contract contracts ih =>
      intro best
      rw [List.foldl_cons, ih]
      -- a candidate without a leg leaves the best one, on both sides
      cases happraise : appraise contract with
      | none => rw [List.filterMap_cons_none happraise]; rfl
      | some leg => rw [List.filterMap_cons_some happraise]; cases best <;> rfl
  exact hfold none

/-- **The leg that is returned was found, and none is closer.** -/
theorem Leg.scan_eq_some {appraise : OptionContract → Option Leg}
    {contracts : List OptionContract} {leg : Leg} (h : scan appraise contracts = some leg) :
    (∃ contract ∈ contracts, appraise contract = some leg)
      ∧ ∀ contract ∈ contracts, ∀ other, appraise contract = some other →
        leg.diff ≤ other.diff := by
  rw [scan_eq_argmin] at h
  refine ⟨List.mem_filterMap.mp (List.argmin_mem h), fun contract hmem other hother => ?_⟩
  exact List.le_of_mem_argmin (List.mem_filterMap.mpr ⟨contract, hmem, hother⟩) h

/-! ## Sizes -/

/-- **An amount pays for a quantity**, up to rounding: that of the amount, of
the price of a contract, and of their quotient. -/
def PaysFor (amount price : Price) (quantity : ℕ) : Prop :=
  quantity * (price * 100 - 2 * underflow)
    ≤ (amount + 2 * underflow) * (1 + 4 * unitRoundoff)

/-- Whole numbers of contracts, from one up to what is configured. -/
theorem capped_spec {maxContracts : ℕ} (hmax : 0 < maxContracts) (buys : ℚ) :
    min (max 1 (PyValue.truncate buys)).toNat maxContracts = 1
      ∨ ((min (max 1 (PyValue.truncate buys)).toNat maxContracts : ℕ) : ℚ) ≤ buys := by
  -- below two the floor at one decides; above, truncation rounds down
  rcases le_or_gt (PyValue.truncate buys) 1 with hone | hmore
  · left
    omega
  · right
    have hsign : 0 ≤ buys := by
      by_contra hneg
      have hceil : ⌈buys⌉ ≤ 0 := Int.ceil_le.mpr (by exact_mod_cast (not_le.mp hneg).le)
      rw [PyValue.truncate, if_neg hneg] at hmore
      omega
    rw [PyValue.truncate, if_pos hsign] at hmore ⊢
    have hle : ((min (max 1 ⌊buys⌋).toNat maxContracts : ℕ) : ℤ) ≤ ⌊buys⌋ := by omega
    exact_mod_cast Int.le_floor.mp hle

/-- **What is bought for an amount is paid for by it.** -/
theorem paysFor_of_le {amount price : Price} {quantity : ℕ} (hprice : 0 ≤ price)
    (hquantity : 0 < quantity)
    (h : (quantity : ℚ) ≤ binary64 (binary64 amount / binary64 (price * 100))) :
    PaysFor amount price quantity := by
  have hone : (1 : ℚ) ≤ quantity := by exact_mod_cast hquantity
  have hcost : 0 < binary64 (price * 100) := by
    refine (binary64_nonneg (by positivity)).lt_of_ne fun hzero => ?_
    rw [← hzero, div_zero, binary64_zero] at h
    linarith
  have hcovered := mul_le_of_le_binary64_div hone hcost h
  have hamount : 0 ≤ amount := by
    by_contra hneg
    have hnone := binary64_isRounding.le_of_kept binary64_zero (not_le.mp hneg).le
    have hpositive := mul_pos (zero_lt_one.trans_le hone) hcost
    unfold unitRoundoff at hcovered
    linarith
  have hshare := (abs_le.mp (abs_binary64_sub_le amount)).2
  have hcontract := (abs_le.mp (abs_binary64_sub_le (price * 100))).1
  rw [abs_of_nonneg hamount] at hshare
  rw [abs_of_nonneg (by positivity)] at hcontract
  have hcosts : quantity * (price * 100 * (1 - unitRoundoff) - underflow)
      ≤ quantity * binary64 (price * 100) :=
    mul_le_mul_of_nonneg_left (by linarith) (zero_le_one.trans hone)
  have hleast := mul_pos (zero_lt_one.trans_le hone) underflow_pos
  have hleast' := underflow_pos
  unfold PaysFor
  unfold unitRoundoff at *
  linarith

/-! ## The straddle -/

namespace XSPShortStraddleStrategyProvider

variable {provider : XSPShortStraddleStrategyProvider} {floatRepr : Price → String}
  {clock : NyClock} {cfg : StraddleConfig} {currentTime : Time} {market : StraddleMarket}
  {right : OptionRight} {underlying : Price} {quotes : String → Option StrategyQuote}

/-- **A candidate with a valid quote of two sides**, its middle, and how far
it is from the target. -/
structure Offers (provider : XSPShortStraddleStrategyProvider) (floatRepr : Price → String)
    (expiry : String) (cfg : StraddleConfig) (right : OptionRight) (underlying : Price)
    (quotes : String → Option StrategyQuote) (contract : OptionContract) (mid : Price) (diff : ℚ) :
    Prop where
  /-- The strike is one of the 25 around the rounded price. -/
  strike : ∃ strike : ℤ, |strike - roundHalfEven underlying| ≤ 12
    ∧ IsCandidate expiry right strike contract
  /-- Its quote has two sides and is valid, with a delta where that is
  matched. -/
  quote : ∃ quote, quotes (contract.toQuoteSymbol floatRepr) = some quote
    ∧ (∃ bid ask, quote.bid = some bid ∧ quote.ask = some ask
      ∧ mid = binary64 (binary64 (bid + ask) / 2))
    ∧ validateQuotePrices quote.toQuoteSnapshot provider.maxSpreadPct = none
    ∧ cfg.distance right underlying mid quote.delta = some diff

/-- **A leg of the straddle**: sold short at the candidate closest to the
target, in a quantity that the share of the account pays for. -/
structure SellsClosest (provider : XSPShortStraddleStrategyProvider) (floatRepr : Price → String)
    (today : String) (cfg : StraddleConfig) (market : StraddleMarket) (side : OptionRight)
    (underlying : Price) (quotes : String → Option StrategyQuote) (sold : StraddleSignal) :
    Prop where
  direction : sold.signal.direction = .short
  right : sold.signal.contract.right = side
  expiry : sold.signal.contract.expiry = today
  closest : ∃ diff, Offers provider floatRepr today cfg side underlying quotes
      sold.signal.contract sold.metadata.optionMid diff
    ∧ ∀ contract mid other,
      Offers provider floatRepr today cfg side underlying quotes contract mid other →
        diff ≤ other
  quantity_pos : 1 ≤ sold.signal.requestedQuantity
  quantity_le : sold.signal.requestedQuantity ≤ cfg.maxContracts
  paid : sold.signal.requestedQuantity = 1
    ∨ PaysFor (market.availableCap * cfg.sizingPctOrDefault) sold.metadata.optionMid
      sold.signal.requestedQuantity

/-- What a candidate offers is what its quote says. -/
theorem appraise_eq_some {contract : OptionContract} {leg : Leg} :
    provider.appraise floatRepr cfg right underlying quotes contract = some leg
      ↔ leg.contract = contract ∧ ∃ quote, quotes (contract.toQuoteSymbol floatRepr) = some quote
        ∧ (∃ bid ask, quote.bid = some bid ∧ quote.ask = some ask
          ∧ leg.mid = binary64 (binary64 (bid + ask) / 2))
        ∧ validateQuotePrices quote.toQuoteSnapshot provider.maxSpreadPct = none
        ∧ quote.delta = leg.delta
        ∧ cfg.distance right underlying leg.mid leg.delta = some leg.diff := by
  rw [appraise, Option.bind_eq_some_iff]
  constructor
  · rintro ⟨quote, hquote, h⟩
    split at h
    · rename_i bid ask hbid hask
      obtain ⟨hvalid, h⟩ := Option.ite_none_right_eq_some.mp h
      obtain ⟨diff, hdiff, rfl⟩ := Option.map_eq_some_iff.mp h
      exact ⟨rfl, quote, hquote, ⟨bid, ask, hbid, hask, rfl⟩, Option.isNone_iff_eq_none.mp hvalid,
        rfl, hdiff⟩
    · cases h
  · rintro ⟨rfl, quote, hquote, ⟨bid, ask, hbid, hask, hmid⟩, hvalid, hdelta, hdiff⟩
    refine ⟨quote, hquote, ?_⟩
    rw [hbid, hask]
    dsimp only
    rw [hvalid, hdelta, ← hmid, hdiff]
    rfl

/-- **The best leg of a side is a candidate that is closest.** -/
theorem bestLeg_closest {expiry : String} {contracts : List OptionContract} {leg : Leg}
    (hcandidates : candidates expiry right (roundHalfEven underlying) = .ok contracts)
    (h : provider.bestLeg floatRepr cfg right underlying quotes contracts = some leg) :
    Offers provider floatRepr expiry cfg right underlying quotes leg.contract leg.mid leg.diff
      ∧ ∀ contract mid other,
        Offers provider floatRepr expiry cfg right underlying quotes contract mid other →
          leg.diff ≤ other := by
  obtain ⟨⟨contract, hmem, hfound⟩, hleast⟩ := Leg.scan_eq_some h
  constructor
  · obtain ⟨rfl, quote, hquote, hmid, hvalid, hdelta, hdiff⟩ := appraise_eq_some.mp hfound
    have hstrike := (mem_candidates hcandidates).mp ((mem_bySymbol floatRepr hcandidates).mp hmem)
    exact ⟨hstrike, quote, hquote, hmid, hvalid, hdelta.symm ▸ hdiff⟩
  · rintro other mid diff ⟨hstrike, quote, hquote, hmid, hvalid, hdiff⟩
    have hother := (mem_bySymbol floatRepr hcandidates).mpr
      ((mem_candidates hcandidates).mpr hstrike)
    exact hleast other hother ⟨other, mid, quote.delta, diff⟩
      (appraise_eq_some.mpr ⟨rfl, quote, hquote, hmid, hvalid, rfl, hdiff⟩)

/-- A valid quote has no negative middle. -/
theorem Offers.mid_nonneg {expiry : String} {contract : OptionContract} {mid diff : ℚ}
    (h : Offers provider floatRepr expiry cfg right underlying quotes contract mid diff) :
    0 ≤ mid := by
  obtain ⟨quote, -, ⟨bid, ask, hbid, hask, rfl⟩, hvalid, -⟩ := h.quote
  unfold validateQuotePrices at hvalid
  dsimp only at hvalid
  rw [hbid, hask] at hvalid
  dsimp only at hvalid
  split_ifs at hvalid with _ hmid
  have hsum : 0 ≤ bid + ask := by linarith
  exact binary64_nonneg (div_nonneg (binary64_nonneg hsum) two_pos.le)

/-- **The quantity is paid for**: one, or what the share of the account
buys. -/
theorem legQuantity_spec (cfg : StraddleConfig) {availableCap price : Price}
    (hcap : 0 ≤ availableCap) (hprice : 0 ≤ price) (underlying : Price) :
    cfg.legQuantity underlying availableCap price = 1
      ∨ PaysFor (availableCap * cfg.sizingPctOrDefault) price
        (cfg.legQuantity underlying availableCap price) := by
  refine (capped_spec cfg.maxContracts_pos _).imp_right fun hle => ?_
  refine paysFor_of_le hprice (cfg.legQuantity_pos _ _ _) (hle.trans ?_)
  -- the share is at most the one that is configured
  refine binary64_isRounding.monotone (div_le_div_of_nonneg_right ?_ (binary64_nonneg ?_))
  · exact binary64_isRounding.monotone (mul_le_mul_of_nonneg_left (min_le_right _ _) hcap)
  · exact mul_nonneg hprice (by norm_num)

/-- **The signal for the best leg sells it.** -/
theorem legSignal_sells {today : String} {contracts : List OptionContract} {leg : Leg}
    {sold : StraddleSignal} (hcap : 0 ≤ market.availableCap)
    (hcandidates : candidates today right (roundHalfEven underlying) = .ok contracts)
    (hbest : provider.bestLeg floatRepr cfg right underlying quotes contracts = some leg)
    (h : legSignal cfg currentTime underlying market.availableCap right leg = .ok sold) :
    SellsClosest provider floatRepr today cfg market right underlying quotes sold := by
  obtain ⟨hoffers, hleast⟩ := bestLeg_closest hcandidates hbest
  obtain ⟨strike, -, -, hexpiry, -, hright, -⟩ := hoffers.strike
  unfold legSignal at h
  split_ifs at h
  cases h
  exact
    { direction := rfl
      right := hright
      expiry := hexpiry
      closest := ⟨leg.diff, hoffers, hleast⟩
      quantity_pos := cfg.legQuantity_pos _ _ _
      quantity_le := min_le_right _ _
      paid := legQuantity_spec cfg hcap hoffers.mid_nonneg underlying }

/-- From a computation that returns, its parts. -/
theorem bind_eq_ok {α β ε : Type} {x : Except ε α} {f : α → Except ε β} {b : β}
    (h : x >>= f = .ok b) : ∃ a, x = .ok a ∧ f a = .ok b := by
  cases x with
  | error e => cases h
  | ok a => exact ⟨a, rfl, h⟩

/-- What is returned where something is. -/
theorem eq_ok_of_toOption {α ε : Type} {x : Except ε α} {a : α} (h : x.toOption = some a) :
    x = .ok a := by
  cases x with
  | error e => cases h
  | ok b => exact congrArg _ (Option.some.inj h)

/-- … and where it raises. -/
theorem bind_eq_error {α β ε : Type} {x : Except ε α} {f : α → Except ε β} {e : ε}
    (h : x >>= f = .error e) : x = .error e ∨ ∃ a, x = .ok a ∧ f a = .error e := by
  cases x with
  | error e' =>
    cases h
    exact .inl rfl
  | ok a => exact .inr ⟨a, rfl, h⟩

/-- **A straddle is nothing, or a call and a put sold at the closest
candidates.** -/
theorem buildSignals_chosen (provider : XSPShortStraddleStrategyProvider)
    (floatRepr : Price → String) (clock : NyClock) (cfg : StraddleConfig) (currentTime : Time)
    (market : StraddleMarket) (signals : List StraddleSignal)
    (hequity : ∀ cap ∈ market.netLiquidation, 0 ≤ cap)
    (h : provider.buildSignals floatRepr clock cfg currentTime market = .ok signals) :
    signals = [] ∨ ∃ underlying quotes call put, market.underlyingPrice = some underlying
      ∧ market.optionQuotes = some quotes ∧ signals = [call, put]
      ∧ SellsClosest provider floatRepr (clock.dateText (clock.wall currentTime).date) cfg market
        .call underlying quotes call
      ∧ SellsClosest provider floatRepr (clock.dateText (clock.wall currentTime).date) cfg market
        .put underlying quotes put := by
  have hcap : 0 ≤ market.availableCap := by
    unfold StraddleMarket.availableCap
    cases hnet : market.netLiquidation with
    | none => norm_num
    | some cap => exact hequity cap hnet
  unfold buildSignals at h
  cases hprice : market.underlyingPrice with
  | none =>
    rw [hprice] at h
    cases h
    exact .inl rfl
  | some underlying =>
    rw [hprice] at h
    -- both lists of candidates are made before the broker is asked for quotes
    obtain ⟨calls, hcalls, h⟩ := bind_eq_ok h
    obtain ⟨puts, hputs, h⟩ := bind_eq_ok h
    cases hquotes : market.optionQuotes with
    | none =>
      rw [hquotes] at h
      cases h
      exact .inl rfl
    | some quotes =>
      rw [hquotes] at h
      dsimp only at h
      split at h
      · rename_i call put hcall hput
        obtain ⟨callSignal, hcallSignal, h⟩ := bind_eq_ok h
        obtain ⟨putSignal, hputSignal, h⟩ := bind_eq_ok h
        cases h
        exact .inr ⟨underlying, quotes, callSignal, putSignal, rfl, rfl, rfl,
          legSignal_sells hcap hcalls hcall hcallSignal,
          legSignal_sells hcap hputs hput hputSignal⟩
      · cases h
        exact .inl rfl

/-- **Above 13 only a limit that rounds to zero is refused.** -/
theorem eq_invalidLimit_of_error {e : PollError} (hprice : market.underlyingPrice = some underlying)
    (habove : 13 < underlying)
    (h : provider.buildSignals floatRepr clock cfg currentTime market = .error e) :
    e = .invalidLimit := by
  have hatm : 13 ≤ roundHalfEven underlying :=
    (roundHalfEven_isNearest.intCast 13).ge.trans (roundHalfEven_monotone habove.le)
  have hlimit : ∀ right leg e,
      legSignal cfg currentTime underlying market.availableCap right leg = .error e →
        e = .invalidLimit := by
    intro right leg e herror
    unfold legSignal at herror
    split_ifs at herror
    cases herror
    rfl
  have hreturns : ∀ right e,
      candidates (clock.dateText (clock.wall currentTime).date) right (roundHalfEven underlying)
        ≠ .error e := by
    intro right e herror
    obtain ⟨contracts, hok⟩ := exists_candidates _ right hatm
    rw [hok] at herror
    cases herror
  unfold buildSignals at h
  rw [hprice] at h
  -- the candidates are made without an error, so a leg raises
  rcases bind_eq_error h with h | ⟨calls, -, h⟩
  · exact absurd h (hreturns _ _)
  rcases bind_eq_error h with h | ⟨puts, -, h⟩
  · exact absurd h (hreturns _ _)
  split at h
  · cases h
  · split at h
    · rcases bind_eq_error h with h | ⟨callSignal, -, h⟩
      · exact hlimit _ _ _ h
      · rcases bind_eq_error h with h | ⟨putSignal, -, h⟩
        · exact hlimit _ _ _ h
        · cases h
    · cases h

/-! ## A straddle on a fixed input -/

/-- The strategy in which every option is quoted at the same two sides. -/
def sampleStraddle : StraddleConfig where
  strategyId := "xsp_straddle_1000_20"
  maxContracts := 5
  maxContracts_pos := by norm_num
  sizing_pos := SizingConfig.default_pos
  leverage_pos := by rintro _ ⟨⟩; norm_num

def quoted (bid ask : Price) (h : bid ≤ ask) : StrategyQuote where
  bid := some bid
  ask := some ask
  timestamp := 0
  bid_le_ask := by rintro _ ⟨⟩ _ ⟨⟩; exact h

def sampleMarket : StraddleMarket where
  underlyingQuotes := some fun _ => some (quoted 600 600 le_rfl)
  optionQuotes := some fun _ => some (quoted 1 (11 / 10) (by norm_num))
  netLiquidation := some 50000

theorem buildSignals_chosen_sampleMarket :
    ∃ underlying quotes call put, buildSignals {} (fun _ => "") EmaSession.sampleClock
        sampleStraddle 0 sampleMarket = .ok [call, put]
      ∧ SellsClosest {} (fun _ => "") "20260608" sampleStraddle sampleMarket .call underlying
        quotes call
      ∧ SellsClosest {} (fun _ => "") "20260608" sampleStraddle sampleMarket .put underlying
        quotes put := by
  have hlength : ((buildSignals {} (fun _ => "") EmaSession.sampleClock sampleStraddle 0
      sampleMarket).toOption.map List.length) = some 2 := by decide +kernel
  obtain ⟨signals, hsome, hlength⟩ := Option.map_eq_some_iff.mp hlength
  have hok : buildSignals {} (fun _ => "") EmaSession.sampleClock sampleStraddle 0 sampleMarket
      = .ok signals := eq_ok_of_toOption hsome
  rcases buildSignals_chosen {} (fun _ => "") EmaSession.sampleClock sampleStraddle 0 sampleMarket
    signals (by rintro _ ⟨⟩; norm_num) hok with rfl | ⟨underlying, quotes, call, put, -, -, rfl, h⟩
  · cases hlength
  · exact ⟨underlying, quotes, call, put, hok, h⟩

/-- Every option at `2.68`, and `32160.0` in the account. -/
def roundMarket : StraddleMarket where
  underlyingQuotes := some fun _ => some (quoted 600 600 le_rfl)
  optionQuotes := some fun _ =>
    some (quoted (binary64 (268 / 100)) (binary64 (268 / 100)) le_rfl)
  netLiquidation := some 32160

theorem roundMarket_sold :
    ((buildSignals {} (fun _ => "") EmaSession.sampleClock sampleStraddle 0
      roundMarket).toOption.map fun signals => signals.map fun sold =>
        (sold.signal.requestedQuantity, sold.metadata.optionMid))
      = some [(3, binary64 (268 / 100)), (3, binary64 (268 / 100))] := by
  decide +kernel

/-- **A leg may cost more than the share of the account**: `32160.0 * 0.025`
is `804.0`, and three contracts at `2.68` cost more. -/
theorem not_paid :
    ¬ ∀ (provider : XSPShortStraddleStrategyProvider) (floatRepr : Price → String)
      (clock : NyClock) (cfg : StraddleConfig) (currentTime : Time) (market : StraddleMarket)
      (signals : List StraddleSignal), (∀ cap ∈ market.netLiquidation, 0 ≤ cap) →
      provider.buildSignals floatRepr clock cfg currentTime market = .ok signals →
      ∀ sold ∈ signals, sold.signal.requestedQuantity = 1
        ∨ sold.signal.requestedQuantity * sold.metadata.optionMid * 100
          ≤ market.availableCap * cfg.sizingPctOrDefault := by
  intro h
  obtain ⟨signals, hsome, hsold⟩ := Option.map_eq_some_iff.mp roundMarket_sold
  have hok : buildSignals {} (fun _ => "") EmaSession.sampleClock sampleStraddle 0 roundMarket
      = .ok signals := eq_ok_of_toOption hsome
  obtain ⟨sold, rest, rfl, hfirst, -⟩ := List.map_eq_cons_iff.mp hsold
  obtain ⟨hquantity, hmid⟩ := Prod.mk.inj hfirst
  have hpaid := h {} (fun _ => "") EmaSession.sampleClock sampleStraddle 0 roundMarket _
    (by rintro _ ⟨⟩; norm_num) hok sold List.mem_cons_self
  rw [hquantity, hmid] at hpaid
  exact absurd hpaid (by decide +kernel)

end XSPShortStraddleStrategyProvider
