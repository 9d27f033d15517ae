import ExecutionSystem.ExposureLimits
import Mathlib.Tactic.Linarith
import Mathlib.Tactic.NormNum

/-!
# The quantity that is allowed

An approved signal is allowed a quantity: what it asked for, cut down to the
contracts a trade may have and to the premium it may cost. The premium is
counted at a multiplier of `100`, whatever the contract's is, and in floats;
and the quantity is raised to `1` in the end, whatever one contract costs. So
every limit is respected but the last: the premium stays within its budget
exactly where the budget pays for one contract, and the least number of
contracts that costs more is not to be had, or not counted as paid for
(`RiskEngine.respectsLimits_iff`).
-/

namespace RiskEngine

variable (engine : RiskEngine) (signal : StrategySignal)

/-- **A decision respects every limit of a quantity.** -/
def RespectsLimits (d : RiskDecision) : Prop :=
  (d.status = .approved → d.blockingReasons = [] ∧ 1 ≤ d.allowedQuantity
    ∧ d.allowedQuantity ≤ min signal.requestedQuantity engine.risk.globalRisk.maxContractsPerTrade
    ∧ ∀ p ∈ signal.limitPrice, d.allowedQuantity * p * signal.contract.multiplier
        ≤ engine.risk.globalRisk.maxPremiumPerTrade)
  ∧ (d.status = .rejected → d.allowedQuantity = 0 ∧ d.blockingReasons ≠ [])

/-- A number of contracts that the budget is counted to pay for: at `100` a
contract, in floats. -/
def CountedAffordable (price : Price) (k : ℕ) : Prop :=
  0 < binary64 (price * 100) →
    (k : ℚ) ≤ binary64 (engine.risk.globalRisk.maxPremiumPerTrade / binary64 (price * 100))

/-- The least number of contracts that costs more than the budget, at the
contract's own multiplier. -/
def firstBeyond (price : Price) : ℕ :=
  (engine.risk.globalRisk.maxPremiumPerTrade
    / (price * signal.contract.multiplier)).floor.toNat + 1

/-- **The budget suffices**: it pays for one contract, and the least number of
contracts that it does not pay for is more than was asked for or may be traded,
or is not counted as paid for. -/
def Affordable : Prop :=
  ∀ p ∈ signal.limitPrice,
    p * signal.contract.multiplier ≤ engine.risk.globalRisk.maxPremiumPerTrade
      ∧ (min signal.requestedQuantity engine.risk.globalRisk.maxContractsPerTrade
          < engine.firstBeyond signal p
        ∨ ¬ engine.CountedAffordable p (engine.firstBeyond signal p))

variable {engine signal} {state : SystemState}

/-! ## What the budget pays for -/

section Budget

variable {p : Price} {k : ℕ}

theorem lt_firstBeyond_iff (hp : signal.limitPrice = some p) :
    k < engine.firstBeyond signal p
      ↔ k * (p * signal.contract.multiplier) ≤ engine.risk.globalRisk.maxPremiumPerTrade := by
  have hcost : 0 < p * signal.contract.multiplier :=
    mul_pos (signal.limit_pos p hp) (Nat.cast_pos.mpr signal.contract.multiplier_pos)
  have hfloor : 0 ≤ (engine.risk.globalRisk.maxPremiumPerTrade
      / (p * signal.contract.multiplier)).floor :=
    Rat.le_floor_iff.mpr (div_nonneg engine.risk.globalRisk.premium_pos.le hcost.le)
  rw [firstBeyond, Nat.lt_succ_iff, Int.le_toNat hfloor, Rat.le_floor_iff, Int.cast_natCast,
    le_div_iff₀ hcost]

/-- Fewer contracts are counted as paid for where more are. -/
theorem CountedAffordable.mono {m : ℕ} (h : engine.CountedAffordable p m) (hk : k ≤ m) :
    engine.CountedAffordable p k :=
  fun hcounted => (Nat.cast_le.mpr hk).trans (h hcounted)

/-- **What is counted as paid for is paid for**, up to a number of contracts,
where the first that is not is beyond that number, or not counted. -/
theorem forall_paid_iff (hp : signal.limitPrice = some p) {n : ℕ} :
    (∀ k ≤ n, engine.CountedAffordable p k →
        k * (p * signal.contract.multiplier) ≤ engine.risk.globalRisk.maxPremiumPerTrade)
      ↔ n < engine.firstBeyond signal p
        ∨ ¬ engine.CountedAffordable p (engine.firstBeyond signal p) := by
  constructor
  · intro h
    by_contra hnot
    obtain ⟨hle, hcounted⟩ := not_or.mp hnot
    have hpaid := h _ (not_lt.mp hle) (not_not.mp hcounted)
    exact absurd ((lt_firstBeyond_iff hp).mpr hpaid) (lt_irrefl _)
  · intro h k hk hcounted
    by_contra hnot
    have hbeyond : engine.firstBeyond signal p ≤ k :=
      not_lt.mp fun hlt => hnot ((lt_firstBeyond_iff hp).mp hlt)
    rcases h with hlt | hcount
    · exact absurd (hbeyond.trans hk) (not_le.mpr hlt)
    · exact hcount (hcounted.mono hbeyond)

end Budget

/-! ## The clamps -/

/-- The quantity is at least `1`. -/
theorem one_le_computeAllowedQuantity : 1 ≤ engine.computeAllowedQuantity signal :=
  Nat.le_max_right _ _

/-- **The quantity is never raised**, but for the floor, which is below
both limits. -/
theorem computeAllowedQuantity_le : engine.computeAllowedQuantity signal
    ≤ min signal.requestedQuantity engine.risk.globalRisk.maxContractsPerTrade := by
  have hone : 1 ≤ min signal.requestedQuantity engine.risk.globalRisk.maxContractsPerTrade :=
    Nat.le_min.mpr ⟨signal.requested_pos, engine.risk.globalRisk.contracts_pos⟩
  unfold computeAllowedQuantity
  refine Nat.max_le.mpr ⟨?_, hone⟩
  cases signal.limitPrice with
  | none => exact le_rfl
  | some price =>
    dsimp only
    split_ifs
    · exact Nat.min_le_left _ _
    · exact le_rfl

/-- **With a limit price, the quantity is the largest number of contracts that
were asked for, may be traded and are counted affordable**, or one. -/
theorem le_computeAllowedQuantity_iff {p : Price} (hp : signal.limitPrice = some p) (k : ℕ) :
    k ≤ engine.computeAllowedQuantity signal ↔ k ≤ 1
      ∨ k ≤ min signal.requestedQuantity engine.risk.globalRisk.maxContractsPerTrade
        ∧ engine.CountedAffordable p k := by
  have hpos : 0 < p := signal.limit_pos p hp
  unfold computeAllowedQuantity CountedAffordable
  rw [hp, le_max_iff, or_comm]
  refine or_congr_right ?_
  dsimp only
  rw [abs_of_pos hpos]
  split_ifs with hcost
  · have hbuys : 0 ≤ binary64
        (engine.risk.globalRisk.maxPremiumPerTrade / binary64 (p * 100)) :=
      binary64_nonneg (div_nonneg engine.risk.globalRisk.premium_pos.le hcost.le)
    have hfloor : 0 ≤ (binary64
        (engine.risk.globalRisk.maxPremiumPerTrade / binary64 (p * 100))).floor :=
      Rat.le_floor_iff.mpr hbuys
    rw [forall_prop_of_true hcost]
    refine le_min_iff.trans (and_congr_right fun _ => ?_)
    rw [Int.le_toNat hfloor, Rat.le_floor_iff, Int.cast_natCast]
  · rw [forall_prop_of_false hcost, and_true]

/-- **The allowed quantity is within the budget exactly where the budget
suffices.** -/
theorem premium_le_iff : (∀ p ∈ signal.limitPrice,
      engine.computeAllowedQuantity signal * p * signal.contract.multiplier
        ≤ engine.risk.globalRisk.maxPremiumPerTrade)
    ↔ engine.Affordable signal := by
  refine forall_congr' fun p => forall_congr' fun hp => ?_
  have hspec : ∀ k, k ≤ engine.computeAllowedQuantity signal ↔ k ≤ 1
      ∨ k ≤ min signal.requestedQuantity engine.risk.globalRisk.maxContractsPerTrade
        ∧ engine.CountedAffordable p k := le_computeAllowedQuantity_iff hp
  have hcost : 0 ≤ p * signal.contract.multiplier :=
    mul_nonneg (signal.limit_pos p hp).le (Nat.cast_nonneg _)
  rw [mul_assoc, ← forall_paid_iff hp]
  constructor
  · intro h
    have hmono : ∀ k ≤ engine.computeAllowedQuantity signal,
        (k : ℚ) * (p * signal.contract.multiplier) ≤ engine.risk.globalRisk.maxPremiumPerTrade :=
      fun k hk => (mul_le_mul_of_nonneg_right (Nat.cast_le.mpr hk) hcost).trans h
    refine ⟨?_, fun k hk hcounted => hmono k ((hspec k).mpr (.inr ⟨hk, hcounted⟩))⟩
    have hone := hmono 1 one_le_computeAllowedQuantity
    rwa [Nat.cast_one, one_mul] at hone
  · rintro ⟨hone, hcounted⟩
    rcases (hspec _).mp le_rfl with hle | ⟨hle, haffordable⟩
    · rw [le_antisymm hle one_le_computeAllowedQuantity, Nat.cast_one, one_mul]
      exact hone
    · exact hcounted _ hle haffordable

/-- Below a multiplier of `100`, the budget suffices where it suffices for one
contract. -/
theorem affordable_iff_of_multiplier_lt (hm : signal.contract.multiplier < 100)
    (hfloat : ∀ p ∈ signal.limitPrice, 2 * underflow ≤ p) :
    engine.Affordable signal ↔ ∀ p ∈ signal.limitPrice,
      p * signal.contract.multiplier ≤ engine.risk.globalRisk.maxPremiumPerTrade := by
  refine forall_congr' fun p => forall_congr' fun hp => and_iff_left ?_
  refine (forall_paid_iff hp).mp fun k _ hcounted => ?_
  have hleast := underflow_pos
  have hsmall := hfloat p hp
  have hcost := (abs_le.mp (abs_binary64_sub_le (p * 100))).1
  rw [abs_of_nonneg (by linarith : 0 ≤ p * 100)] at hcost
  rcases Nat.eq_zero_or_pos k with rfl | hk
  · rw [Nat.cast_zero, zero_mul]
    exact engine.risk.globalRisk.premium_pos.le
  have hone : (1 : ℚ) ≤ k := by exact_mod_cast hk
  have hm' : (signal.contract.multiplier : ℚ) ≤ 99 := by exact_mod_cast Nat.le_of_lt_succ hm
  -- what rounding loses is less than a contract at `99` leaves
  have hunit : p * (99 + 1 / 4) ≤ binary64 (p * 100) := by
    unfold unitRoundoff at hcost
    linarith
  have hpaid := mul_le_of_le_binary64_div hone (by linarith) (hcounted (by linarith))
  have hown : (k : ℚ) * (p * signal.contract.multiplier) ≤ k * (p * 99) :=
    mul_le_mul_of_nonneg_left (mul_le_mul_of_nonneg_left hm' (by linarith))
      (zero_le_one.trans hone)
  have hcounts : (k : ℚ) * (p * (99 + 1 / 4)) ≤ k * binary64 (p * 100) :=
    mul_le_mul_of_nonneg_left hunit (zero_le_one.trans hone)
  have hbudget := engine.risk.globalRisk.premium_pos
  unfold unitRoundoff at hpaid
  linarith

/-! ## The decision -/

/-- **A decision respects every limit exactly where the signal is rejected
or the budget suffices.** -/
theorem respectsLimits_iff : engine.RespectsLimits signal (engine.evaluate signal state)
    ↔ engine.blocking signal state ≠ [] ∨ engine.Affordable signal := by
  unfold evaluate
  dsimp only
  by_cases hblocking : engine.blocking signal state = []
  · rw [hblocking, or_iff_right fun h => h rfl, ← premium_le_iff]
    constructor
    · exact fun h => (h.1 rfl).2.2.2
    · exact fun h => ⟨fun _ => ⟨rfl, one_le_computeAllowedQuantity, computeAllowedQuantity_le, h⟩,
        nofun⟩
  · rw [if_neg fun h => hblocking (List.isEmpty_iff.mp h)]
    exact iff_of_true ⟨nofun, fun _ => ⟨rfl, hblocking⟩⟩ (.inl hblocking)

/-- One call at `20.00`: `2000` for a contract, where a trade may cost
`1000`. -/
def expensiveSignal : StrategySignal :=
  { ExecutionRunner.sampleSignal with limitPrice := some 20, limit_pos := by rintro _ ⟨⟩; decide }

/-- A snapshot with nothing in it but a quote. -/
def quotedState : SystemState where
  openPositions := []
  openOrderCount := 0
  dailyPnl := 0
  quote := some sampleOptionQuote
  currentTime := 60

/-- **A contract that costs more than a trade may is approved.** -/
theorem not_respectsLimits : ¬ ∀ (engine : RiskEngine) (signal : StrategySignal)
    (state : SystemState), engine.RespectsLimits signal (engine.evaluate signal state) := by
  intro h
  have hdecision : sampleEngine.evaluate expensiveSignal quotedState = ⟨0, .approved, 1, []⟩ := by
    decide +kernel
  have hlimits := h sampleEngine expensiveSignal quotedState
  rw [hdecision] at hlimits
  have hpremium := (hlimits.1 rfl).2.2.2 20 rfl
  have : ¬ ((1 : ℕ) : ℚ) * 20 * expensiveSignal.contract.multiplier
      ≤ sampleEngine.risk.globalRisk.maxPremiumPerTrade := by decide +kernel
  exact this hpremium

end RiskEngine
