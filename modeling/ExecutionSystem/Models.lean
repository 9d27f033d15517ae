import Mathlib.Algebra.Order.Field.Rat
import Mathlib.Data.Int.Notation

/-!
# Typed domain objects

The enumerations of `src/core/enums.py` and the records of
`src/core/models.py` that the modelled components exchange. A constraint
that the validators of a record enforce at construction and that no later
assignment can break is a field of the record, so that a value violating
it cannot be built; one that an assignment can break – a position's
quantity becomes `0` when it is closed – is not.

Prices, amounts of money and instants are exact rationals, instants
counted in seconds. Identifiers are natural numbers: a fresh `uuid4()` is
a number not used before, and where a dictionary only ever grows the
identifier is the position in insertion order.
-/

abbrev Price := ℚ
abbrev Time := ℚ
abbrev StrategyId := String
abbrev OrderId := ℕ
abbrev BrokerOrderId := ℕ
abbrev PositionId := ℕ
abbrev RiskDecisionId := ℕ
/-- The tag the legs of one submission share (`metadata["entry_batch"]`). -/
abbrev BatchId := ℕ

/-! ## Enumerations -/

/-- Order lifecycle states. -/
inductive OrderStatus where
  | new
  | riskChecked
  | submitted
  | partiallyFilled
  | filled
  | cancelPending
  | cancelled
  | rejected
  | error
  deriving DecidableEq, Repr

namespace OrderStatus

/-- The statuses the code tests for when it asks whether an order is done:
`FILLED`, `CANCELLED`, `REJECTED`, `ERROR`. -/
def terminal : OrderStatus → Bool
  | filled | cancelled | rejected | error => true
  | _ => false

/-- The statuses the code tests for when it asks whether an order is still
alive: `NEW`, `RISK_CHECKED`, `SUBMITTED`, `PARTIALLY_FILLED`,
`CANCEL_PENDING`. -/
def active : OrderStatus → Bool
  | new | riskChecked | submitted | partiallyFilled | cancelPending => true
  | _ => false

/-- The active statuses without `CANCEL_PENDING`: the orders a sweep of
the runner still has to cancel. -/
def cancellable : OrderStatus → Bool
  | new | riskChecked | submitted | partiallyFilled => true
  | _ => false

/-- The two tests the code spells out are complementary. -/
theorem active_eq_not_terminal (s : OrderStatus) : s.active = !s.terminal := by
  cases s <;> rfl

@[simp] theorem active_eq_false_iff {s : OrderStatus} :
    s.active = false ↔ s.terminal = true := by
  cases s <;> decide

@[simp] theorem terminal_eq_false_iff {s : OrderStatus} :
    s.terminal = false ↔ s.active = true := by
  cases s <;> decide

theorem active_of_cancellable {s : OrderStatus} (h : s.cancellable = true) :
    s.active = true := by
  cases s <;> simp_all [cancellable, active]

end OrderStatus

/-- Position lifecycle states. -/
inductive PositionStatus where
  | opening
  | opened
  | partiallyClosed
  | closed
  | forceClosed
  deriving DecidableEq, Repr

/-- The statuses `get_open_positions` keeps: `OPENING` and `OPEN`. -/
def PositionStatus.isOpen : PositionStatus → Bool
  | .opening | .opened => true
  | _ => false

/-- Buy or sell. -/
inductive OrderSide where
  | buy
  | sell
  deriving DecidableEq, Repr

namespace OrderSide

/-- The side that closes. -/
def opposite : OrderSide → OrderSide
  | buy => sell
  | sell => buy

/-- The sign of a quantity on this side: buying is positive. -/
def sign : OrderSide → ℤ
  | buy => 1
  | sell => -1

@[simp] theorem sign_buy : buy.sign = 1 := rfl
@[simp] theorem sign_sell : sell.sign = -1 := rfl

theorem sign_of_ne {s t : OrderSide} (h : s ≠ t) : t.sign = -s.sign := by
  cases s <;> cases t <;> simp_all

end OrderSide

/-- Option type: call or put. -/
inductive OptionRight where
  | call
  | put
  deriving DecidableEq, Repr

/-- `value` of a right, the text that is stored for it. -/
def OptionRight.value : OptionRight → String
  | .call => "CALL"
  | .put => "PUT"

/-- Outcome of a risk check. -/
inductive RiskDecisionStatus where
  | approved
  | rejected
  deriving DecidableEq, Repr

/-- Direction of a strategy signal. -/
inductive SignalDirection where
  | long
  | short
  deriving DecidableEq, Repr

/-! ## Records -/

/-- An option contract without any broker-specific fields. -/
structure OptionContract where
  symbol : String
  /-- Expiration date as a `YYYYMMDD` string. -/
  expiry : String
  strike : Price
  right : OptionRight
  multiplier : ℕ := 100
  strike_pos : 0 < strike
  multiplier_pos : 0 < multiplier
  deriving DecidableEq

/-- An option is of a hundred shares. -/
theorem OptionContract.hundred_pos : 0 < 100 := by decide

/-- What two contracts must agree on to be the same option for the
position book: symbol, expiry, strike and right. -/
def OptionContract.identity (c : OptionContract) :
    String × String × Price × OptionRight :=
  (c.symbol, c.expiry, c.strike, c.right)

/-- A point-in-time quote. A missing side is `none`; `bid > ask` is
rejected at construction. -/
structure QuoteSnapshot where
  bid : Option Price := none
  ask : Option Price := none
  last : Option Price := none
  timestamp : Time
  bid_le_ask : ∀ b ∈ bid, ∀ a ∈ ask, b ≤ a

/-- Emitted by a strategy. -/
structure StrategySignal where
  strategyId : StrategyId
  direction : SignalDirection
  contract : OptionContract
  requestedQuantity : ℕ
  limitPrice : Option Price := none
  requested_pos : 0 < requestedQuantity
  limit_pos : ∀ p ∈ limitPrice, 0 < p

/-- Output of the risk engine for a signal. -/
structure RiskDecision where
  riskDecisionId : RiskDecisionId
  status : RiskDecisionStatus
  allowedQuantity : ℕ
  blockingReasons : List String := []
  deriving DecidableEq

/-- Whether the decision lets the order through. -/
def RiskDecision.approved (d : RiskDecision) : Bool :=
  d.status = .approved

/-- What the execution planner wants to do before broker translation. -/
structure OrderIntent where
  riskDecisionId : RiskDecisionId
  positionId : Option PositionId := none
  isEntry : Bool := true
  strategyId : StrategyId
  contract : OptionContract
  side : OrderSide
  quantity : ℕ
  limitPrice : Price
  /-- `metadata.get("entry_batch")`. -/
  entryBatch : Option BatchId := none
  quantity_pos : 0 < quantity
  limit_pos : 0 < limitPrice
  deriving DecidableEq

/-- The audit reference `{strategy}:{position_id|new}:{leg}:{side}:{unix_ms}`,
field by field. -/
structure OrderRef where
  strategyId : StrategyId
  positionId : Option PositionId
  leg : OptionRight
  side : OrderSide
  unixMs : ℤ
  deriving DecidableEq

/-- Limit or market. -/
inductive OrderPlan.OrderType where
  | lmt
  | mkt
  deriving DecidableEq, Repr

/-- Broker-neutral order plan ready for submission. -/
structure OrderPlan where
  positionId : Option PositionId
  isEntry : Bool
  strategyId : StrategyId
  contract : OptionContract
  side : OrderSide
  quantity : ℕ
  orderType : OrderPlan.OrderType
  limitPrice : Price
  orderRef : Option OrderRef
  algo : Option String
  quantity_pos : 0 < quantity
  limit_pos : 0 < limitPrice
  deriving DecidableEq

/-- **The current state of an order through its lifecycle.** The quantity
is validated at construction and never assigned afterwards, so it stays
positive. -/
structure OrderState where
  positionId : Option PositionId
  isEntry : Bool
  strategyId : StrategyId
  contract : OptionContract
  side : OrderSide
  quantity : ℕ
  filledQuantity : ℕ
  limitPrice : Price
  /-- Original submit-time limit, preserved across reprices. -/
  firstLimitPrice : Option Price
  orderRef : Option OrderRef
  /-- Replacement chain: the order this one was resubmitted as. -/
  supersededBy : Option OrderId
  status : OrderStatus
  brokerOrderId : Option BrokerOrderId
  errorMessage : Option String
  createdAt : Time
  updatedAt : Time
  /-- `metadata.get("hard_cancel")`. -/
  hardCancel : Bool
  /-- `metadata.get("entry_batch")`. -/
  entryBatch : Option BatchId
  /-- `metadata.get("algo")`. -/
  algo : Option String
  quantity_pos : 0 < quantity
  deriving DecidableEq

/-- What a broker order callback carries of the broker's order state. -/
structure BrokerUpdate where
  brokerOrderId : BrokerOrderId
  status : OrderStatus
  filledQuantity : ℕ
  errorMessage : Option String := none
  deriving DecidableEq

/-- Reported when a fill, full or partial, is received. -/
structure FillEvent where
  orderId : OrderId
  strategyId : StrategyId
  contract : OptionContract
  side : OrderSide
  filledQuantity : ℕ
  fillPrice : Price
  timestamp : Time
  /-- `metadata["broker_order_id"]`. -/
  brokerOrderId : Option BrokerOrderId := none
  filled_pos : 0 < filledQuantity
  price_pos : 0 < fillPrice
  deriving DecidableEq

/-- **Internal position tracking.** The quantity is positive at
construction and assigned `0` when the position is closed. -/
structure Position where
  positionId : PositionId
  strategyId : StrategyId
  contract : OptionContract
  side : OrderSide
  quantity : ℕ
  filledQuantity : ℕ
  averageEntryPrice : Price
  currentPrice : Option Price := none
  unrealizedPnl : Option ℚ := none
  realizedPnl : ℚ := 0
  status : PositionStatus
  entryOrderId : OrderId
  exitOrderIds : List OrderId := []
  entryTime : Option Time := none
  exitTime : Option Time := none
  stopPrice : Option Price := none
  targetPrice : Option Price := none
  timeExitUtc : Option Time := none
  useMidForExits : Bool := false
  createdAt : Time
  updatedAt : Time
  deriving DecidableEq

/-! ## A contract and an intent, for runs on fixed inputs -/

/-- An index call. -/
def sampleContract : OptionContract where
  symbol := "SPX"
  expiry := "20260612"
  strike := 6000
  right := .call
  strike_pos := by decide
  multiplier_pos := by decide

theorem one_dollar_pos : (0 : Price) < 1 := by decide

/-- The intent to buy or sell some of it. -/
def sampleIntent (positionId : Option PositionId) (isEntry : Bool)
    (side : OrderSide) : OrderIntent where
  riskDecisionId := 0
  positionId := positionId
  isEntry := isEntry
  strategyId := "orb"
  contract := sampleContract
  side := side
  quantity := 2
  limitPrice := 1
  quantity_pos := by decide
  limit_pos := by decide

/-- Its approved decision. -/
def sampleDecision : RiskDecision where
  riskDecisionId := 0
  status := .approved
  allowedQuantity := 2
