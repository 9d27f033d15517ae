import ExecutionSystem.OrderManager
import ExecutionSystem.PositionManager

/-!
# Reconciliation

`ReconciliationEngine.reconcile` of `src/portfolio/reconciliation.py`: the
internal positions and orders against the broker's. The coroutine awaits
the broker twice, and what it has read by then is what it compares: the
internal positions are read before the first await, the broker ids of the
internal orders between the two, the parameters of the orders after the
second. So it is three functions here, one for each stretch.
-/

/-- The normalised key of a contract. -/
abbrev ContractKey := String × String × Price × OptionRight

/-- `_get_contract_key`. A symbol is taken to be an ASCII text, of which `toUpper` is
`upper()`. -/
def OptionContract.key (c : OptionContract) : ContractKey :=
  (c.symbol.toUpper, c.expiry, c.strike, c.right)

/-- A position as it is compared: of the internal book or of the
broker. -/
structure Holding where
  contract : OptionContract
  side : OrderSide
  quantity : ℕ
  deriving DecidableEq

/-- An internal position as it is compared. -/
def Position.holding (pos : Position) : Holding :=
  ⟨pos.contract, pos.side, pos.quantity⟩

/-- An open order at the broker. -/
structure WorkingOrder where
  brokerOrderId : Option BrokerOrderId
  contract : OptionContract
  side : OrderSide
  quantity : ℕ
  limitPrice : Price
  deriving DecidableEq

/-- **A discrepancy.** -/
inductive Mismatch where
  | internalOnlyPosition (contract : ContractKey) (internalQuantity : ℤ)
      (positionIds : List PositionId)
  | brokerOnlyPosition (contract : ContractKey) (brokerQuantity : ℤ)
  | positionQuantityMismatch (contract : ContractKey)
      (internalQuantity brokerQuantity : ℤ) (positionIds : List PositionId)
  | unknownBrokerOrder (order : WorkingOrder)
  | orderParameterMismatch (internalOrderId : OrderId) (order : WorkingOrder)
  | internalOrderNotAtBroker (brokerOrderId : BrokerOrderId)
      (internalOrderId : OrderId)
  deriving DecidableEq

/-- Whether a discrepancy locks the system by itself. -/
def Mismatch.severe : Mismatch → Bool
  | internalOnlyPosition .. | positionQuantityMismatch .. => true
  | _ => false

/-- The report of a reconciliation. -/
structure ReconciliationReport where
  matched : ℕ
  details : List Mismatch

namespace ReconciliationReport

def isClean (report : ReconciliationReport) : Bool := report.details.isEmpty

def severe (report : ReconciliationReport) : Bool := report.details.any Mismatch.severe

end ReconciliationReport

/-! ## Positions -/

/-- The holdings that count, of those given. -/
def countedHoldings (holdings : List Holding) : List Holding :=
  holdings.filter (0 < ·.quantity)

/-- The net quantity held of a contract. -/
def netHolding (holdings : List Holding) (k : ContractKey) : ℤ :=
  (((countedHoldings holdings).filter (·.contract.key = k)).map
    fun (h : Holding) => h.side.sign * (h.quantity : ℤ)).sum

/-- The union of the contracts held on either side. -/
def heldContracts (internal broker : List Holding) : List ContractKey :=
  ((countedHoldings internal ++ countedHoldings broker).map (·.contract.key)).eraseDups

/-- The positions of one contract against the broker's. -/
def comparePosition (internal : List Position) (broker : List Holding)
    (k : ContractKey) : Option Mismatch :=
  let internalQuantity := netHolding (internal.map Position.holding) k
  let brokerQuantity := netHolding broker k
  let positionIds := (internal.filter fun pos =>
    0 < pos.quantity ∧ pos.contract.key = k).map (·.positionId)
  if internalQuantity = brokerQuantity then none
  else if internalQuantity ≠ 0 ∧ brokerQuantity = 0 then
    some (.internalOnlyPosition k internalQuantity positionIds)
  else if brokerQuantity ≠ 0 ∧ internalQuantity = 0 then
    some (.brokerOnlyPosition k brokerQuantity)
  else some (.positionQuantityMismatch k internalQuantity brokerQuantity positionIds)

/-- What is found once the broker's positions are known. -/
def comparePositions (internal : List Position) (broker : List Holding) :
    ReconciliationReport :=
  let held := heldContracts (internal.map Position.holding) broker
  { matched := (held.filter fun k => comparePosition internal broker k = none
      ∧ netHolding (internal.map Position.holding) k ≠ 0).length
    details := held.filterMap (comparePosition internal broker) }

/-! ## Orders -/

/-- The internal orders by their broker ids; a later one takes the place
of an earlier one with the same id. -/
abbrev OrderIndex := BrokerOrderId → Option OrderId

/-- `internal_orders_by_broker_id`. -/
def indexOrders (orders : List OrderState) (openOrders : List OrderId) : OrderIndex := fun b =>
  openOrders.reverse.find? fun o => (orders[o]?.bind (·.brokerOrderId)) = some b

/-- Whether an internal order is the one the broker has: the limit may
differ by one tick. -/
def sameOrder (x : OrderState) (order : WorkingOrder) : Bool :=
  x.contract.key = order.contract.key ∧ x.side = order.side
    ∧ x.quantity = order.quantity ∧ |x.limitPrice - order.limitPrice| ≤ 501 / 10000

/-- One open order of the broker against the internal ones. -/
def compareOrder (orders : List OrderState) (index : OrderIndex)
    (order : WorkingOrder) : Option Mismatch :=
  order.brokerOrderId.bind fun b =>
    match index b with
    | none => some (.unknownBrokerOrder order)
    | some o =>
      if orders[o]?.any (sameOrder · order) then none
      else some (.orderParameterMismatch o order)

/-- An internal order that the broker does not have. -/
def missingAtBroker (orders : List OrderState) (broker : List WorkingOrder)
    (o : OrderId) : Option Mismatch :=
  (orders[o]?.bind (·.brokerOrderId)).bind fun b =>
    if broker.any (·.brokerOrderId = some b) then none
    else some (.internalOrderNotAtBroker b o)

/-- **The report, once the broker's open orders are known too.** -/
def compareOrders (positions : ReconciliationReport) (orders : List OrderState)
    (openOrders : List OrderId) (index : OrderIndex) (broker : List WorkingOrder) :
    ReconciliationReport :=
  { matched := positions.matched
      + (broker.filter fun order => order.brokerOrderId.isSome
          && (compareOrder orders index order).isNone).length
    details := positions.details ++ broker.filterMap (compareOrder orders index)
      ++ openOrders.filterMap (missingAtBroker orders broker) }

/-- **`reconcile`**, where nothing changes while it awaits the broker: the
report, and whether the system is locked afterwards. -/
def reconcile (internal : List Position) (orders : List OrderState)
    (openOrders : List OrderId) (locked : Bool) (brokerPositions : List Holding)
    (brokerOrders : List WorkingOrder) : ReconciliationReport × Bool :=
  let report := compareOrders (comparePositions internal brokerPositions) orders openOrders
    (indexOrders orders openOrders) brokerOrders
  (report, locked || report.severe)
