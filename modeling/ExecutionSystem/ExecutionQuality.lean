import ExecutionSystem.BrokerAdapter
import ExecutionSystem.Executions
import ExecutionSystem.FifoLots
import ExecutionSystem.PositionStore
import Mathlib.Data.List.Perm.Subperm
import Mathlib.Data.List.Sort

/-!
# Execution quality

The aggregators of `src/analytics/execution_quality.py` over the events that
the broker adapter and the order manager write into the one event store.
`compute_realized_pnl` matches fills first in first out, and so does the
ledger of lots (`computeRealizedPnl`); `compute_execution_quality` keeps a
dictionary of statuses by order id, and counts its keys.

Both accept several types of events, with fallback names for the keys of the
payload. One message of IBKR is written down several times: an execution as a
raw callback and as a `FillEvent`, and by the order manager again; an order
under its own id, the id the adapter has made up for it, and IBKR's number.
The raw fill has no strategy and no contract, and its side, `BOT` or `SLD`,
is not `BUY`: it is a sale of nothing, and is never matched. The other two
are both counted. So the profit is twice that of the executions as they were
delivered, and the number of orders is right as long as no status has been
reported (`AuditedSession.along_counted_iff`).
-/

/-! ## Events -/

/-- The id of an order in an event: the order manager's, the one that the
adapter has made up, or the number that IBKR gives. -/
inductive LoggedOrderId where
  | order (o : OrderId)
  | client (o : OrderId)
  | ib (b : BrokerOrderId)
  deriving DecidableEq

/-- **The payload of an event**, as far as the aggregators read it. -/
structure EventData where
  /-- `order_id`. -/
  orderId : Option LoggedOrderId := none
  /-- `orderId`. -/
  ibOrderId : Option BrokerOrderId := none
  newStatus : Option String := none
  status : Option String := none
  strategyId : Option StrategyId := none
  contract : Option OptionContract := none
  side : Option String := none
  fillPrice : Option Price := none
  price : Option Price := none
  filledQuantity : Option ℕ := none
  shares : Option ℕ := none

/-- An event of the store. -/
structure LoggedEvent where
  type : String
  timestamp : Time
  data : EventData

/-- `normalize_events`: the events by their time. -/
def normalizeEvents (events : List LoggedEvent) : List LoggedEvent :=
  events.insertionSort fun a b => a.timestamp ≤ b.timestamp

namespace EventData

/-- `data.get("order_id") or data.get("orderId")`, where it is not false. -/
def orderRef (data : EventData) : Option LoggedOrderId :=
  data.orderId.or ((data.ibOrderId.filter (· ≠ 0)).map .ib)

/-- `data.get("new_status") or data.get("status")`, in capitals. -/
def statusText (data : EventData) : String :=
  (((data.newStatus.filter (· ≠ "")).or data.status).getD "None").toUpper

/-- `data.get("strategy_id") or "unknown"`. -/
def strategy (data : EventData) : StrategyId :=
  (data.strategyId.filter (· ≠ "")).getD "unknown"

/-- `data.get("fill_price") or data.get("price")`. -/
def tradePrice (data : EventData) : Option Price :=
  (data.fillPrice.filter (· ≠ 0)).or data.price

/-- `data.get("filled_quantity") or data.get("shares")`. -/
def tradeQuantity (data : EventData) : Option ℕ :=
  (data.filledQuantity.filter (· ≠ 0)).or data.shares

end EventData

/-- The symbol of `_normalize_contract`. -/
def contractSymbol : Option OptionContract → String
  | some contract => contract.symbol
  | none => "unknown"

/-- The key of a contract; without one its parts are the text of `None`. -/
def contractKey (floatRepr : Price → String) : Option OptionContract → String
  | some contract => contract.symbol ++ "_" ++ contract.expiry ++ "_"
      ++ floatRepr contract.strike ++ "_" ++ contract.right.value
  | none => "unknown_None_None_None"

/-! ## The aggregators -/

/-- A trade of a strategy in a contract, for its account in the symbol. -/
abbrev FillTrade := Trade (StrategyId × String) (StrategyId × String) ℚ

/-- **The trade of a fill**, where the payload has a price, a quantity and a
side; every side that is not `BUY` sells. -/
def EventData.trade (floatRepr : Price → String) (data : EventData) : Option FillTrade :=
  match data.tradePrice, data.tradeQuantity, data.side with
  | some price, some quantity, some side =>
    some
      { key := (data.strategy, contractKey floatRepr data.contract)
        account := (data.strategy, contractSymbol data.contract)
        quantity := quantity
        price := price
        buy := side.toUpper = "BUY" }
  | _, _, _ => none

namespace LoggedEvent

/-- The types of events that are fills. -/
def fillTypes : List String := ["fill_event", "fill_callback", "fill_received"]

/-- The types of events that report on an order. -/
def orderTypes : List String := ["order_event", "order_callback", "order_state_transition"]

/-- The fill that an event tells of. -/
def trade (floatRepr : Price → String) (e : LoggedEvent) : Option FillTrade :=
  if e.type ∈ fillTypes then e.data.trade floatRepr else none

/-- The status of an order that an event tells of. -/
def orderStatus (e : LoggedEvent) : Option (LoggedOrderId × String) :=
  if e.type ∈ orderTypes then e.data.orderRef.map fun id => (id, e.data.statusText) else none

/-- The order of a fill that is collected with its price and quantity. -/
def filledOrder (e : LoggedEvent) : Option LoggedOrderId :=
  if e.type ∈ fillTypes ∧ e.data.tradePrice.isSome ∧ e.data.tradeQuantity.isSome then
    e.data.orderRef
  else none

end LoggedEvent

/-- **`compute_realized_pnl`**, by strategy and underlying; a pair that is not
in the result has none. -/
def computeRealizedPnl (floatRepr : Price → String) (events : List LoggedEvent)
    (strategy : StrategyId) (symbol : String) : ℚ :=
  (Ledger.books (events.filterMap (·.trade floatRepr))).profit (strategy, symbol)

/-- The assignment to a key of `order_statuses`. -/
def setStatus (statuses : List (LoggedOrderId × String)) (entry : LoggedOrderId × String) :
    List (LoggedOrderId × String) :=
  statuses.upsert (·.1) entry.1 entry fun _ => entry

/-- The dictionary `order_statuses`: the last status of each id. -/
def orderStatuses (events : List LoggedEvent) : List (LoggedOrderId × String) :=
  (events.filterMap (·.orderStatus)).foldl setStatus []

/-- The counts and rates of `compute_execution_quality`. -/
structure ExecutionQuality where
  totalOrders : ℕ
  fillRate : ℚ
  cancelRate : ℚ
  partialFillRate : ℚ
  rejectionCount : ℕ

/-- **`compute_execution_quality`**, but for slippage and times. -/
def computeExecutionQuality (events : List LoggedEvent) : ExecutionQuality :=
  let statuses := orderStatuses events
  let fills := events.filterMap (·.filledOrder)
  let rate := fun n : ℕ => if 0 < statuses.length then (n : ℚ) / statuses.length else 0
  { totalOrders := statuses.length
    fillRate := rate (statuses.countP (·.2 = "FILLED"))
    cancelRate := rate (statuses.countP (·.2 = "CANCELLED"))
    partialFillRate := rate (statuses.countP fun entry =>
      entry.2 ≠ "FILLED" ∧ entry.1 ∈ fills)
    rejectionCount := statuses.countP (·.2 ∈ ["REJECTED", "ERROR"]) }

/-! ## What is written down -/

/-- The text of a status of IBKR. -/
def IbStatus.text : IbStatus → String
  | pendingSubmit => "PendingSubmit"
  | pendingCancel => "PendingCancel"
  | preSubmitted => "PreSubmitted"
  | submitted => "Submitted"
  | filled => "Filled"
  | cancelled => "Cancelled"
  | inactive => "Inactive"
  | apiPending => "ApiPending"
  | apiCancelled => "ApiCancelled"
  | validationError => "ValidationError"
  | other text => text

/-- The text of a status of ours. -/
def OrderStatus.value : OrderStatus → String
  | new => "NEW"
  | riskChecked => "RISK_CHECKED"
  | submitted => "SUBMITTED"
  | partiallyFilled => "PARTIALLY_FILLED"
  | filled => "FILLED"
  | cancelPending => "CANCEL_PENDING"
  | cancelled => "CANCELLED"
  | rejected => "REJECTED"
  | error => "ERROR"

/-- The text of a side. -/
def OrderSide.value : OrderSide → String
  | buy => "BUY"
  | sell => "SELL"

/-- The side of an execution, as IBKR reports it. -/
inductive ExecutionSide where
  | bot
  | sld
  deriving DecidableEq

def ExecutionSide.text : ExecutionSide → String
  | bot => "BOT"
  | sld => "SLD"

namespace LoggedEvent

/-- The raw status message. -/
def orderCallback (now : Time) (b : BrokerOrderId) (msg : IbOrderStatus) : LoggedEvent where
  type := "order_callback"
  timestamp := now
  data := { ibOrderId := some b, status := some msg.status.text }

/-- The adapter's `OrderEvent`. -/
def orderEvent (now : Time) (o : OrderId) (status : OrderStatus) : LoggedEvent where
  type := "order_event"
  timestamp := now
  data := { orderId := some (.client o), newStatus := some status.value }

/-- The order manager's `OrderEvent`. -/
def orderStateTransition (now : Time) (entry : OrderId × OrderStatus) : LoggedEvent where
  type := "order_state_transition"
  timestamp := now
  data := { orderId := some (.order entry.1), newStatus := some entry.2.value }

/-- The raw execution. -/
def fillCallback (now : Time) (e : Execution) (side : ExecutionSide) : LoggedEvent where
  type := "fill_callback"
  timestamp := now
  data :=
    { ibOrderId := some e.orderId, shares := some e.shares, price := some e.price,
      side := some side.text }

/-- A `FillEvent`, with the id that its order has in it. -/
def ofFill (type : String) (now : Time) (id : LoggedOrderId) (fill : FillEvent) :
    LoggedEvent where
  type := type
  timestamp := now
  data :=
    { orderId := some id, strategyId := some fill.strategyId, contract := some fill.contract,
      side := some fill.side.value, fillPrice := some fill.fillPrice,
      filledQuantity := some fill.filledQuantity }

end LoggedEvent

/-- **The adapter and the order manager with the event store they share.** -/
structure AuditedSession where
  adapter : AdapterSession := {}
  /-- `_order_metadata`. -/
  orderMetadata : List (BrokerOrderId × OrderMetadata) := []
  now : Time := 0
  events : List LoggedEvent := []
  /-- The executions of our orders as they were delivered, with what is known
  of their orders; the program keeps no such list. -/
  executions : List (OrderMetadata × Execution) := []
  /-- The reports on our orders; the program keeps no such list. -/
  reported : List BrokerOrderId := []

/-- Whether `place_order` of an order is under way. -/
def OrderManager.isPlacing (om : OrderManager) (o : OrderId) : Bool :=
  om.tasks.any fun c => c.placing = some o

/-- **What the order manager writes down in a step**: transitions of its
orders, and one at least of an order that its step is done with placing. -/
def OrderManager.Logs (om om' : OrderManager) (transitions : List (OrderId × OrderStatus)) :
    Prop :=
  (∀ entry ∈ transitions, entry.1 < om'.orders.length)
    ∧ ∀ o < om'.orders.length, om'.isPlacing o = false →
        om.isPlacing o = true ∨ om.orders.length ≤ o → o ∈ transitions.map (·.1)

instance (om om' : OrderManager) (transitions : List (OrderId × OrderStatus)) :
    Decidable (om.Logs om' transitions) :=
  inferInstanceAs (Decidable (_ ∧ _))

namespace AuditedSession

/-- What can happen next. -/
inductive Label where
  /-- A step of the order manager, or of its callers, with what it writes
  down. A placed order has the id that the adapter has made up. -/
  | program (l : OrderManager.Label) (orderId : OrderId)
      (transitions : List (OrderId × OrderStatus))
  /-- IBKR reports on an order. -/
  | orderStatus (b : BrokerOrderId) (msg : IbOrderStatus)
      (transitions : List (OrderId × OrderStatus))
  /-- IBKR reports an execution. -/
  | execDetails (e : Execution) (side : ExecutionSide)
  /-- Time passes. -/
  | wait (seconds : Time)

/-- What is kept of the order with a broker id. -/
def metadata (s : AuditedSession) (b : BrokerOrderId) : Option OrderMetadata :=
  s.orderMetadata.lookup b

/-- What `place_order` keeps of the order that it has placed. -/
def placedMetadata (s : AuditedSession) (orderId : OrderId) :
    OrderManager.Label → Option (List (BrokerOrderId × OrderMetadata))
  | .resume t (.placed b _) =>
    (s.adapter.om.tasks[t]?.bind (·.placing)).bind fun o =>
      (s.adapter.om.placeCalls.find? (·.order = o)).map fun call =>
        [(b, .ofPlan orderId call.plan)]
  | _ => some []

/-- What the adapter writes down of a status message. -/
def statusEvents (s : AuditedSession) (b : BrokerOrderId) (msg : IbOrderStatus) :
    List LoggedEvent :=
  match s.metadata b with
  | none => []
  | some md =>
    .orderCallback s.now b msg ::
      if s.adapter.notices b msg then [.orderEvent s.now md.orderId msg.callbackStatus] else []

/-- **What is written down of an execution**: the raw message, and where its
`FillEvent` can be built, the adapter's and the order manager's. -/
def fillEvents (s : AuditedSession) (md : OrderMetadata) (e : Execution)
    (side : ExecutionSide) : List LoggedEvent :=
  .fillCallback s.now e side ::
    if h : 0 < e.price ∧ 0 < e.shares then
      let fill : FillEvent :=
        { orderId := md.orderId
          strategyId := md.strategyId
          contract := md.contract
          side := md.side
          filledQuantity := e.shares
          fillPrice := e.price
          timestamp := s.now
          brokerOrderId := some e.orderId
          filled_pos := h.2
          price_pos := h.1 }
      -- the runner has given the fill the order manager's id in between
      let id := ((s.adapter.om.findOrderByBrokerId e.orderId).map .order).getD
        (.client md.orderId)
      [.ofFill "fill_event" s.now (.client md.orderId) fill, .ofFill "fill_received" s.now id fill]
    else []

/-- **One step.** -/
def step (s : AuditedSession) : Label → Option AuditedSession
  | .program l orderId transitions =>
    (s.placedMetadata orderId l).bind fun placed =>
      (s.adapter.step (.program l)).bind fun adapter =>
        if s.adapter.om.Logs adapter.om transitions then
          some { s with
            adapter := adapter
            orderMetadata := placed ++ s.orderMetadata
            events := s.events ++ transitions.map (.orderStateTransition s.now) }
        else none
  | .orderStatus b msg transitions =>
    (s.adapter.step (.orderStatus b msg)).bind fun adapter =>
      if s.adapter.om.Logs adapter.om transitions then
        some { s with
          adapter := adapter
          events := s.events ++ s.statusEvents b msg
            ++ transitions.map (.orderStateTransition s.now)
          reported := if (s.metadata b).isSome then s.reported ++ [b] else s.reported }
      else none
  | .execDetails e side =>
    if s.adapter.om.running.isNone then
      some <| match s.metadata e.orderId with
        | none => s
        | some md =>
          { s with
            events := s.events ++ s.fillEvents md e side
            executions := s.executions ++ [(md, e)] }
    else none
  | .wait seconds => if 0 ≤ seconds then some { s with now := s.now + seconds } else none

/-- The adapter and the order manager, on arbitrary messages. -/
def machine : Machine AuditedSession Label where
  step := step

/-- No orders, and no events. -/
def initial : AuditedSession := {}

end AuditedSession

/-! ## Each execution once, and each order once -/

/-- The trade of an execution. -/
def Execution.trade (floatRepr : Price → String) (md : OrderMetadata) (e : Execution) :
    FillTrade :=
  let strategy := if md.strategyId = "" then "unknown" else md.strategyId
  { key := (strategy, contractKey floatRepr (some md.contract))
    account := (strategy, md.contract.symbol)
    quantity := e.shares
    price := e.price
    buy := md.side = .buy }

/-- **The profit of executions**, matched first in first out. -/
def fifoPnl (floatRepr : Price → String) (executions : List (OrderMetadata × Execution))
    (strategy : StrategyId) (symbol : String) : ℚ :=
  (Ledger.books (executions.map fun x => x.2.trade floatRepr x.1)).profit (strategy, symbol)

/-- Each execution at its first delivery. -/
def firstDeliveries (executions : List (OrderMetadata × Execution)) :
    List (OrderMetadata × Execution) :=
  executions.foldl (fun seen x =>
    if x.2.execId ∈ seen.map (·.2.execId) then seen else seen ++ [x]) []

/-- A `FillEvent` can be built of the execution. -/
def Execution.valid (e : Execution) : Bool := 0 < e.shares ∧ 0 < e.price

theorem Execution.valid_iff {e : Execution} : e.valid = true ↔ 0 < e.shares ∧ 0 < e.price :=
  decide_eq_true_iff

namespace AuditedSession

/-- No `place_order` is under way. -/
def Settled (s : AuditedSession) : Prop :=
  ∀ o < s.adapter.om.orders.length, s.adapter.om.isPlacing o = false

/-- **The aggregators count each execution and each order once**: the profit
is that of the executions taken once each, and, when no order is just being
placed, the number of orders is that of the orders placed. -/
structure Counted (floatRepr : Price → String) (s : AuditedSession) : Prop where
  pnl : ∀ strategy symbol,
    computeRealizedPnl floatRepr (normalizeEvents s.events) strategy symbol
      = fifoPnl floatRepr (firstDeliveries s.executions) strategy symbol
  orders : s.Settled → (computeExecutionQuality (normalizeEvents s.events)).totalOrders
    = s.adapter.om.orders.length

/-- **Nothing is there to be counted again**: twice the profit of the
executions as they were delivered is that of the executions taken once each –
where none is delivered again, there is no profit – and, when no order is
just being placed, nothing was reported on an order. -/
structure Uncounted (floatRepr : Price → String) (s : AuditedSession) : Prop where
  pnl : ∀ strategy symbol,
    2 * fifoPnl floatRepr (s.executions.filter (·.2.valid)) strategy symbol
      = fifoPnl floatRepr (firstDeliveries s.executions) strategy symbol
  orders : s.Settled → s.reported = []

end AuditedSession

/-! ## What the events are counted as -/

/-- The key of a fill without a strategy and a contract. -/
def rawKey (floatRepr : Price → String) : StrategyId × String :=
  ("unknown", contractKey floatRepr none)

/-- The key of a contract ends with its right. -/
theorem contractKey_ne (floatRepr : Price → String) (contract : OptionContract) :
    contractKey floatRepr (some contract) ≠ contractKey floatRepr none := by
  have hends : ∀ text : String, text ++ "CALL" ≠ "unknown_None_None_None"
      ∧ text ++ "PUT" ≠ "unknown_None_None_None" := by
    refine fun text => ⟨fun h => ?_, fun h => ?_⟩
    all_goals
      have hlast := congrArg (fun text : String => text.toList.reverse) h
      simp at hlast
  show _ ++ contract.right.value ≠ "unknown_None_None_None"
  cases contract.right with
  | call => exact (hends _).1
  | put => exact (hends _).2

theorem toUpper_side (side : OrderSide) : side.value.toUpper = "BUY" ↔ side = .buy := by
  cases side with
  | buy => exact iff_of_true (by decide +kernel) rfl
  | sell => exact iff_of_false (by decide +kernel) (by decide)

theorem toUpper_executionSide (side : ExecutionSide) : side.text.toUpper ≠ "BUY" := by
  cases side with
  | bot | sld => decide +kernel

namespace LoggedEvent

variable {floatRepr : Price → String} {now : Time}

theorem trade_of_mem {e : LoggedEvent} (h : e.type ∈ fillTypes) :
    e.trade floatRepr = e.data.trade floatRepr := if_pos h

theorem orderStatus_of_mem {e : LoggedEvent} (h : e.type ∈ orderTypes) :
    e.orderStatus.map (·.1) = e.data.orderRef := by
  rw [orderStatus, if_pos h, Option.map_map]
  exact Option.map_id'

theorem trade_orderCallback (b : BrokerOrderId) (msg : IbOrderStatus) :
    (orderCallback now b msg).trade floatRepr = none :=
  if_neg (show "order_callback" ∉ fillTypes by simp [fillTypes])

theorem trade_orderEvent (o : OrderId) (status : OrderStatus) :
    (orderEvent now o status).trade floatRepr = none :=
  if_neg (show "order_event" ∉ fillTypes by simp [fillTypes])

theorem trade_orderStateTransition (entry : OrderId × OrderStatus) :
    (orderStateTransition now entry).trade floatRepr = none :=
  if_neg (show "order_state_transition" ∉ fillTypes by simp [fillTypes])

/-- **The raw execution is a sale of nothing.** -/
theorem trade_fillCallback (e : Execution) (side : ExecutionSide) :
    (fillCallback now e side).trade floatRepr
      = some ⟨rawKey floatRepr, ("unknown", "unknown"), e.shares, e.price, false⟩ := by
  rw [@trade_of_mem _ (fillCallback now e side)
    (show "fill_callback" ∈ fillTypes by simp [fillTypes])]
  show some (Trade.mk _ _ _ _ (decide (side.text.toUpper = "BUY"))) = _
  rw [decide_eq_false (toUpper_executionSide side)]
  rfl

/-- **A `FillEvent` is the trade of its execution**, under either type. -/
theorem trade_ofFill {type : String} {id : LoggedOrderId} {fill : FillEvent}
    {md : OrderMetadata} {e : Execution} (htype : type ∈ fillTypes)
    (hstrategy : fill.strategyId = md.strategyId) (hcontract : fill.contract = md.contract)
    (hside : fill.side = md.side) (hquantity : fill.filledQuantity = e.shares)
    (hprice : fill.fillPrice = e.price) :
    (ofFill type now id fill).trade floatRepr = some (e.trade floatRepr md) := by
  rw [@trade_of_mem _ (ofFill type now id fill) htype]
  have hp : (some fill.fillPrice).filter (fun p => decide (p ≠ 0)) = some fill.fillPrice :=
    Option.filter_eq_some_iff.mpr ⟨rfl, decide_eq_true (ne_of_gt fill.price_pos)⟩
  have hq : (some fill.filledQuantity).filter (fun q => decide (q ≠ 0))
      = some fill.filledQuantity :=
    Option.filter_eq_some_iff.mpr ⟨rfl, decide_eq_true (ne_of_gt fill.filled_pos)⟩
  have hs : (ofFill type now id fill).data.strategy
      = if md.strategyId = "" then "unknown" else md.strategyId := by
    show ((some fill.strategyId).filter fun s => decide (s ≠ "")).getD "unknown" = _
    rw [hstrategy, Option.filter_some]
    by_cases h : md.strategyId = ""
    · rw [if_pos h, if_neg (by simp [h])]
      rfl
    · rw [if_neg h, if_pos (decide_eq_true h)]
      rfl
  unfold EventData.trade EventData.tradePrice EventData.tradeQuantity
  rw [show (ofFill type now id fill).data.fillPrice = some fill.fillPrice from rfl,
    show (ofFill type now id fill).data.filledQuantity = some fill.filledQuantity from rfl, hp, hq]
  show some (Trade.mk _ _ _ _ _) = some (Trade.mk _ _ _ _ _)
  rw [hs]
  show some (Trade.mk (_, contractKey floatRepr (some fill.contract))
    (_, fill.contract.symbol) fill.filledQuantity fill.fillPrice
      (decide (fill.side.value.toUpper = "BUY"))) = _
  rw [hcontract, hquantity, hprice, hside, decide_eq_decide.mpr (toUpper_side md.side)]

theorem orderStatus_ofFill {type : String} {id : LoggedOrderId} {fill : FillEvent}
    (htype : type ∉ orderTypes) : (ofFill type now id fill).orderStatus = none := if_neg htype

theorem orderStatus_fillCallback (e : Execution) (side : ExecutionSide) :
    (fillCallback now e side).orderStatus = none :=
  if_neg (show "fill_callback" ∉ orderTypes by simp [orderTypes])

theorem orderStatus_orderEvent (o : OrderId) (status : OrderStatus) :
    (orderEvent now o status).orderStatus.map (·.1) = some (.client o) :=
  orderStatus_of_mem (show "order_event" ∈ orderTypes by simp [orderTypes])

theorem orderStatus_orderStateTransition (entry : OrderId × OrderStatus) :
    (orderStateTransition now entry).orderStatus.map (·.1) = some (.order entry.1) :=
  orderStatus_of_mem (show "order_state_transition" ∈ orderTypes by simp [orderTypes])

theorem orderStatus_orderCallback (b : BrokerOrderId) (msg : IbOrderStatus) :
    (orderCallback now b msg).orderStatus.map (·.1)
      = ((some b).filter fun b => b ≠ 0).map .ib :=
  orderStatus_of_mem (show "order_callback" ∈ orderTypes by simp [orderTypes])

end LoggedEvent

/-- The ids under which the events report on orders. -/
def reportedIds (events : List LoggedEvent) : List LoggedOrderId :=
  events.filterMap fun e => e.orderStatus.map (·.1)

/-- The keys after some assignments. -/
theorem keys_foldl_setStatus (entries : List (LoggedOrderId × String))
    {statuses : List (LoggedOrderId × String)} (h : (statuses.map (·.1)).Nodup) :
    ((entries.foldl setStatus statuses).map (·.1)).Nodup
      ∧ ∀ id, id ∈ (entries.foldl setStatus statuses).map (·.1)
        ↔ id ∈ statuses.map (·.1) ∨ id ∈ entries.map (·.1) := by
  induction entries generalizing statuses with
  | nil =>
    refine ⟨h, fun id => ?_⟩
    rw [List.map_nil, or_iff_left List.not_mem_nil]
    rfl
  | cons entry entries ih =>
    obtain ⟨hnodup, hmem⟩ := @ih (setStatus statuses entry)
      (List.nodup_upsert rfl (fun _ _ => rfl) h)
    refine ⟨hnodup, fun id => ?_⟩
    rw [List.foldl_cons, hmem, setStatus, List.mem_map_upsert rfl (fun _ _ => rfl), List.map_cons,
      List.mem_cons, or_assoc, or_left_comm]

/-- **The keys of `order_statuses` are the ids reported on.** -/
theorem keys_orderStatuses (events : List LoggedEvent) :
    ((orderStatuses events).map (·.1)).Nodup
      ∧ ∀ id, id ∈ (orderStatuses events).map (·.1) ↔ id ∈ reportedIds events := by
  obtain ⟨hnodup, hmem⟩ := @keys_foldl_setStatus (events.filterMap (·.orderStatus)) []
    List.nodup_nil
  refine ⟨hnodup, fun id => (hmem id).trans ?_⟩
  rw [List.map_nil, or_iff_right List.not_mem_nil, List.map_filterMap]
  rfl

/-- Where just our own ids are reported on, they are counted. -/
theorem length_orderStatuses {events : List LoggedEvent} {n : ℕ}
    (h : ∀ id, id ∈ reportedIds events ↔ ∃ o < n, id = .order o) :
    (orderStatuses events).length = n := by
  obtain ⟨hnodup, hmem⟩ := keys_orderStatuses events
  have hperm : ((orderStatuses events).map (·.1)).Perm
      ((List.range n).map LoggedOrderId.order) := by
    refine (List.perm_ext_iff_of_nodup hnodup ?_).mpr fun id => ?_
    · exact List.nodup_range.map fun a b heq => LoggedOrderId.order.inj heq
    · rw [hmem, h, List.mem_map]
      exact exists_congr fun o => and_congr List.mem_range.symm eq_comm
  rw [← List.length_map (f := fun entry : LoggedOrderId × String => entry.1), hperm.length_eq,
    List.length_map, List.length_range]

/-- Where another one is, there are more. -/
theorem lt_length_orderStatuses {events : List LoggedEvent} {n : ℕ} {o : OrderId}
    (h : ∀ o < n, .order o ∈ reportedIds events) (hclient : .client o ∈ reportedIds events) :
    n < (orderStatuses events).length := by
  obtain ⟨-, hmem⟩ := keys_orderStatuses events
  have hnodup : (LoggedOrderId.client o :: (List.range n).map LoggedOrderId.order).Nodup := by
    refine List.nodup_cons.mpr ⟨fun hin => ?_, ?_⟩
    · obtain ⟨_, -, heq⟩ := List.mem_map.mp hin
      cases heq
    · exact List.nodup_range.map fun a b heq => LoggedOrderId.order.inj heq
  have hsub : LoggedOrderId.client o :: (List.range n).map LoggedOrderId.order
      ⊆ (orderStatuses events).map (·.1) := by
    refine List.cons_subset.mpr ⟨(hmem _).mpr hclient, fun id hid => ?_⟩
    obtain ⟨o', ho', rfl⟩ := List.mem_map.mp hid
    exact (hmem _).mpr (h o' (List.mem_range.mp ho'))
  have hle := (hnodup.subperm hsub).length_le
  rwa [List.length_cons, List.length_map, List.length_map, List.length_range] at hle

namespace AuditedSession

variable {floatRepr : Price → String} {s t : AuditedSession} {l : Label}

/-! ## What the events hold -/

/-- The events are in the order of their times. -/
def InOrder (s : AuditedSession) : Prop :=
  s.events.Pairwise (fun a b => a.timestamp ≤ b.timestamp) ∧ ∀ e ∈ s.events, e.timestamp ≤ s.now

/-- The trades of events. -/
def trades (floatRepr : Price → String) (events : List LoggedEvent) : List FillTrade :=
  events.filterMap (·.trade floatRepr)

/-- **Every execution of which a fill was built is there twice**, and all other
trades are raw sales. -/
structure TradesTwice (floatRepr : Price → String) (s : AuditedSession) : Prop where
  twice : (trades floatRepr s.events).filter (·.key ≠ rawKey floatRepr)
    = ((s.executions.filter (·.2.valid)).map fun x => x.2.trade floatRepr x.1).flatMap
        (List.replicate 2)
  sold : ∀ t ∈ trades floatRepr s.events, t.key = rawKey floatRepr → t.buy = false

/-- **Which orders were reported on**: those of the order manager that are
placed, and, once IBKR has reported on one, others. -/
structure IdsTracked (s : AuditedSession) : Prop where
  keys : s.orderMetadata.map (·.1) = s.adapter.metadata
  own : ∀ o, .order o ∈ reportedIds s.events → o < s.adapter.om.orders.length
  placed : ∀ o < s.adapter.om.orders.length,
    s.adapter.om.isPlacing o = true ∨ .order o ∈ reportedIds s.events
  unreported : s.reported = [] → ∀ id ∈ reportedIds s.events, ∃ o, id = .order o
  remembered : ∀ b status, s.adapter.orderStatuses b = some status →
    ∃ o, .client o ∈ reportedIds s.events
  reported : s.reported ≠ [] → ∃ o, .client o ∈ reportedIds s.events

/-! ### They count what they hold -/

/-- **The profit is twice that of the executions.** -/
theorem computeRealizedPnl_eq (h : s.TradesTwice floatRepr) (strategy : StrategyId)
    (symbol : String) : computeRealizedPnl floatRepr s.events strategy symbol
      = 2 * fifoPnl floatRepr (s.executions.filter (·.2.valid)) strategy symbol := by
  unfold computeRealizedPnl fifoPnl
  have hunmatched := Ledger.profit_filter h.sold
  rw [h.twice] at hunmatched
  have hdouble := Ledger.profit_replicate Nat.zero_lt_two
    ((s.executions.filter (·.2.valid)).map fun x => x.2.trade floatRepr x.1) (strategy, symbol)
  exact (congrFun hunmatched (strategy, symbol)).trans hdouble

/-- **The number of orders is right where nothing was reported.** -/
theorem totalOrders_eq_iff (h : s.IdsTracked) (hsettled : s.Settled) :
    (orderStatuses s.events).length = s.adapter.om.orders.length ↔ s.reported = [] := by
  have hall : ∀ o < s.adapter.om.orders.length, .order o ∈ reportedIds s.events := by
    intro o ho
    refine (h.placed o ho).resolve_left fun hplacing => ?_
    rw [hsettled o ho] at hplacing
    cases hplacing
  constructor
  · intro hlength
    by_contra hreported
    obtain ⟨o, ho⟩ := h.reported hreported
    exact Nat.ne_of_gt (lt_length_orderStatuses hall ho) hlength
  · intro hreported
    refine length_orderStatuses fun id => ⟨fun hid => ?_, ?_⟩
    · obtain ⟨o, rfl⟩ := h.unreported hreported id hid
      exact ⟨o, h.own o hid, rfl⟩
    · rintro ⟨o, ho, rfl⟩
      exact hall o ho

/-- Events that are in order stay as they are. -/
theorem normalizeEvents_eq (h : s.InOrder) : normalizeEvents s.events = s.events :=
  h.1.insertionSort_eq

/-- **What is counted right**, by what the events hold. -/
theorem counted_iff (horder : s.InOrder) (htrades : s.TradesTwice floatRepr)
    (hids : s.IdsTracked) : s.Counted floatRepr ↔ s.Uncounted floatRepr := by
  constructor
  · intro h
    refine ⟨fun strategy symbol => ?_, fun hsettled => ?_⟩
    · rw [← computeRealizedPnl_eq htrades, ← h.pnl, normalizeEvents_eq horder]
    · have hlength := h.orders hsettled
      rw [normalizeEvents_eq horder] at hlength
      exact (totalOrders_eq_iff hids hsettled).mp hlength
  · intro h
    refine ⟨fun strategy symbol => ?_, fun hsettled => ?_⟩
    · rw [normalizeEvents_eq horder, computeRealizedPnl_eq htrades, h.pnl]
    · rw [normalizeEvents_eq horder]
      exact (totalOrders_eq_iff hids hsettled).mpr (h.orders hsettled)

/-! ### What is written down -/

/-- The order manager's events. -/
def transitionEvents (now : Time) (transitions : List (OrderId × OrderStatus)) :
    List LoggedEvent :=
  transitions.map (.orderStateTransition now)

theorem trades_append (events events' : List LoggedEvent) :
    trades floatRepr (events ++ events') = trades floatRepr events ++ trades floatRepr events' :=
  List.filterMap_append

theorem trades_transitionEvents (now : Time) (transitions : List (OrderId × OrderStatus)) :
    trades floatRepr (transitionEvents now transitions) = [] := by
  refine List.filterMap_eq_nil_iff.mpr fun e he => ?_
  obtain ⟨entry, -, rfl⟩ := List.mem_map.mp he
  exact LoggedEvent.trade_orderStateTransition entry

theorem trades_statusEvents (b : BrokerOrderId) (msg : IbOrderStatus) :
    trades floatRepr (s.statusEvents b msg) = [] := by
  refine List.filterMap_eq_nil_iff.mpr fun e he => ?_
  unfold statusEvents at he
  split at he
  · cases he
  · rcases List.mem_cons.mp he with rfl | he
    · exact LoggedEvent.trade_orderCallback b msg
    · split_ifs at he
      · rw [List.mem_singleton.mp he]
        exact LoggedEvent.trade_orderEvent _ _
      · cases he

/-- **An execution is a raw sale, and where it is valid two trades.** -/
theorem trades_fillEvents (md : OrderMetadata) (e : Execution) (side : ExecutionSide) :
    trades floatRepr (s.fillEvents md e side)
      = ⟨rawKey floatRepr, ("unknown", "unknown"), e.shares, e.price, false⟩
        :: if e.valid then List.replicate 2 (e.trade floatRepr md) else [] := by
  unfold trades fillEvents
  rw [List.filterMap_cons_some (LoggedEvent.trade_fillCallback e side)]
  by_cases h : 0 < e.price ∧ 0 < e.shares
  · rw [dif_pos h, if_pos (Execution.valid_iff.mpr h.symm)]
    dsimp only
    have hevent : "fill_event" ∈ LoggedEvent.fillTypes := by simp [LoggedEvent.fillTypes]
    have hreceived : "fill_received" ∈ LoggedEvent.fillTypes := by simp [LoggedEvent.fillTypes]
    rw [List.filterMap_cons_some (LoggedEvent.trade_ofFill hevent rfl rfl rfl rfl rfl),
      List.filterMap_cons_some (LoggedEvent.trade_ofFill hreceived rfl rfl rfl rfl rfl)]
    rfl
  · rw [dif_neg h, if_neg (mt Execution.valid_iff.mp fun hvalid => h hvalid.symm)]
    rfl

theorem reportedIds_append (events events' : List LoggedEvent) :
    reportedIds (events ++ events') = reportedIds events ++ reportedIds events' :=
  List.filterMap_append

theorem reportedIds_transitionEvents (now : Time)
    (transitions : List (OrderId × OrderStatus)) :
    reportedIds (transitionEvents now transitions)
      = transitions.map fun entry => .order entry.1 := by
  unfold reportedIds transitionEvents
  rw [List.filterMap_map]
  exact List.filterMap_eq_map_iff_forall_eq_some.mpr fun entry _ =>
    LoggedEvent.orderStatus_orderStateTransition entry

theorem reportedIds_fillEvents (md : OrderMetadata) (e : Execution) (side : ExecutionSide) :
    reportedIds (s.fillEvents md e side) = [] := by
  refine List.filterMap_eq_nil_iff.mpr fun x hx => Option.map_eq_none_iff.mpr ?_
  unfold fillEvents at hx
  rcases List.mem_cons.mp hx with rfl | hx
  · exact LoggedEvent.orderStatus_fillCallback e side
  · split_ifs at hx with h
    · dsimp only at hx
      rcases List.mem_cons.mp hx with rfl | hx
      · exact LoggedEvent.orderStatus_ofFill
          (show "fill_event" ∉ LoggedEvent.orderTypes by simp [LoggedEvent.orderTypes])
      · rw [List.mem_singleton.mp hx]
        exact LoggedEvent.orderStatus_ofFill
          (show "fill_received" ∉ LoggedEvent.orderTypes by simp [LoggedEvent.orderTypes])
    · cases hx

/-! ### One step -/

theorem InOrder.append (h : s.InOrder) {events : List LoggedEvent}
    (hnow : ∀ e ∈ events, e.timestamp = s.now) :
    (s.events ++ events).Pairwise (fun a b => a.timestamp ≤ b.timestamp)
      ∧ ∀ e ∈ s.events ++ events, e.timestamp ≤ s.now := by
  refine ⟨List.pairwise_append.mpr ⟨h.1, ?_, fun a ha b hb => ?_⟩, fun e he => ?_⟩
  · refine List.pairwise_of_forall_mem_list fun a ha b hb => ?_
    rw [hnow a ha, hnow b hb]
  · rw [hnow b hb]
    exact h.2 a ha
  · rcases List.mem_append.mp he with he | he
    · exact h.2 e he
    · exact (hnow e he).le

theorem timestamp_transitionEvents {now : Time} {transitions : List (OrderId × OrderStatus)}
    {e : LoggedEvent} (he : e ∈ transitionEvents now transitions) : e.timestamp = now := by
  obtain ⟨entry, -, rfl⟩ := List.mem_map.mp he
  rfl

theorem timestamp_statusEvents {b : BrokerOrderId} {msg : IbOrderStatus} {e : LoggedEvent}
    (he : e ∈ s.statusEvents b msg) : e.timestamp = s.now := by
  unfold statusEvents at he
  split at he
  · cases he
  · rcases List.mem_cons.mp he with rfl | he
    · rfl
    · split_ifs at he
      · rw [List.mem_singleton.mp he]
        rfl
      · cases he

theorem timestamp_fillEvents {md : OrderMetadata} {x : Execution} {side : ExecutionSide}
    {e : LoggedEvent} (he : e ∈ s.fillEvents md x side) : e.timestamp = s.now := by
  unfold fillEvents at he
  rcases List.mem_cons.mp he with rfl | he
  · rfl
  · split_ifs at he
    · dsimp only at he
      rcases List.mem_cons.mp he with rfl | he
      · rfl
      · rw [List.mem_singleton.mp he]
        rfl
    · cases he

/-- **What a step writes down**: of a step of the order manager, of a report,
or of an execution. -/
inductive Effect (s : AuditedSession) (t : AuditedSession) : Prop
  | program (l : OrderManager.Label) (orderId : OrderId)
      (transitions : List (OrderId × OrderStatus))
      (placed : List (BrokerOrderId × OrderMetadata))
      (hplaced : s.placedMetadata orderId l = some placed)
      (hstep : s.adapter.step (.program l) = some t.adapter)
      (hlogs : s.adapter.om.Logs t.adapter.om transitions)
      (h : t = { s with
        adapter := t.adapter
        orderMetadata := placed ++ s.orderMetadata
        events := s.events ++ transitionEvents s.now transitions })
  | reported (b : BrokerOrderId) (msg : IbOrderStatus)
      (transitions : List (OrderId × OrderStatus))
      (hstep : s.adapter.step (.orderStatus b msg) = some t.adapter)
      (hlogs : s.adapter.om.Logs t.adapter.om transitions)
      (h : t = { s with
        adapter := t.adapter
        events := s.events ++ (s.statusEvents b msg ++ transitionEvents s.now transitions)
        reported := if (s.metadata b).isSome then s.reported ++ [b] else s.reported })
  | executed (md : OrderMetadata) (e : Execution) (side : ExecutionSide)
      (h : t = { s with
        events := s.events ++ s.fillEvents md e side
        executions := s.executions ++ [(md, e)] })
  | waited (seconds : Time) (hpos : 0 ≤ seconds) (h : t = { s with now := s.now + seconds })

theorem step_effect (h : s.step l = some t) : s.Effect t := by
  cases l with
  | program l orderId transitions =>
    obtain ⟨placed, hplaced, h⟩ := Option.bind_eq_some_iff.mp h
    obtain ⟨adapter, hstep, h⟩ := Option.bind_eq_some_iff.mp h
    obtain ⟨hlogs, h⟩ := Option.ite_none_right_eq_some.mp h
    obtain rfl := Option.some.inj h
    exact .program l orderId transitions placed hplaced hstep hlogs rfl
  | orderStatus b msg transitions =>
    obtain ⟨adapter, hstep, h⟩ := Option.bind_eq_some_iff.mp h
    obtain ⟨hlogs, h⟩ := Option.ite_none_right_eq_some.mp h
    obtain rfl := Option.some.inj h
    exact .reported b msg transitions hstep hlogs (by rw [← List.append_assoc]; rfl)
  | execDetails e side =>
    obtain ⟨-, h⟩ := Option.ite_none_right_eq_some.mp h
    obtain rfl := Option.some.inj h
    split
    · exact .waited 0 le_rfl (by rw [add_zero])
    · exact .executed _ e side rfl
  | wait seconds =>
    obtain ⟨hpos, h⟩ := Option.ite_none_right_eq_some.mp h
    obtain rfl := Option.some.inj h
    exact .waited seconds hpos rfl

theorem inOrder_step (hs : s.InOrder) (h : s.step l = some t) : t.InOrder := by
  cases step_effect h with
  | program l orderId transitions placed hplaced hstep hlogs h =>
    rw [h]
    exact hs.append fun e he => timestamp_transitionEvents he
  | reported b msg transitions hstep hlogs h =>
    rw [h]
    refine hs.append fun e he => ?_
    rcases List.mem_append.mp he with he | he
    · exact timestamp_statusEvents he
    · exact timestamp_transitionEvents he
  | executed md e side h =>
    rw [h]
    exact hs.append fun e he => timestamp_fillEvents he
  | waited seconds hpos h =>
    rw [h]
    exact ⟨hs.1, fun e he => (hs.2 e he).trans (le_add_of_nonneg_right hpos)⟩

/-- **An execution is logged as two fills of one key**, where it is valid, and
under a key of its own as the callback reads it. -/
theorem TradesTwice.executed (hs : s.TradesTwice floatRepr) (md : OrderMetadata) (e : Execution)
    (side : ExecutionSide)
    (h : t = { s with
      events := s.events ++ s.fillEvents md e side
      executions := s.executions ++ [(md, e)] }) : t.TradesTwice floatRepr := by
  have hevents : trades floatRepr (s.events ++ s.fillEvents md e side) = _ :=
    (trades_append _ _).trans (congrArg _ (trades_fillEvents md e side))
  have hkey : (e.trade floatRepr md).key ≠ rawKey floatRepr := fun heq =>
    contractKey_ne floatRepr md.contract (congrArg Prod.snd heq)
  rw [h]
  constructor
  · show (trades floatRepr (s.events ++ s.fillEvents md e side)).filter _
      = (((s.executions ++ [(md, e)]).filter _).map _).flatMap _
    rw [hevents, List.filter_append, hs.twice, List.filter_cons_of_neg (by simp),
      List.filter_append, List.map_append, List.flatMap_append]
    congr 1
    by_cases hvalid : e.valid = true
    · rw [if_pos hvalid, @List.filter_cons_of_pos _ (fun x => x.2.valid) (md, e) _ hvalid]
      rw [List.filter_eq_self.mpr fun x hx => ?_]
      · rfl
      · rw [List.eq_of_mem_replicate hx]
        exact decide_eq_true hkey
    · rw [if_neg hvalid, @List.filter_cons_of_neg _ (fun x => x.2.valid) (md, e) _ hvalid]
      rfl
  · intro x hx hraw
    replace hx : x ∈ trades floatRepr (s.events ++ s.fillEvents md e side) := hx
    rw [hevents] at hx
    rcases List.mem_append.mp hx with hx | hx
    · exact hs.sold x hx hraw
    · rcases List.mem_cons.mp hx with rfl | hx
      · rfl
      · split_ifs at hx
        · rw [List.eq_of_mem_replicate hx] at hraw
          exact absurd hraw hkey
        · cases hx

/-- **One step.** -/
theorem tradesTwice_step (hs : s.TradesTwice floatRepr) (h : s.step l = some t) :
    t.TradesTwice floatRepr := by
  -- what is no trade leaves both clauses
  have hsame : ∀ {events}, trades floatRepr events = [] →
      trades floatRepr (s.events ++ events) = trades floatRepr s.events := fun hnil => by
    rw [trades_append, hnil, List.append_nil]
  cases step_effect h with
  | program l orderId transitions placed hplaced hstep hlogs h =>
    have hevents := hsame (trades_transitionEvents s.now transitions)
    rw [h]
    exact ⟨hevents.symm ▸ hs.twice, hevents.symm ▸ hs.sold⟩
  | reported b msg transitions hstep hlogs h =>
    have hnil : trades floatRepr (s.statusEvents b msg ++ transitionEvents s.now transitions)
        = [] := by
      rw [trades_append, trades_statusEvents, trades_transitionEvents, List.append_nil]
    have hevents := hsame hnil
    rw [h]
    exact ⟨hevents.symm ▸ hs.twice, hevents.symm ▸ hs.sold⟩
  | executed md e side h => exact hs.executed md e side h
  | waited seconds hpos h =>
    rw [h]
    exact ⟨hs.twice, hs.sold⟩

/-- What the order manager writes down keeps track of its orders. -/
theorem IdsTracked.logs (hs : s.IdsTracked) {om : OrderManager}
    {transitions : List (OrderId × OrderStatus)} (hlogs : s.adapter.om.Logs om transitions)
    (hle : s.adapter.om.orders.length ≤ om.orders.length) {events : List LoggedEvent}
    (hids : ∀ o, .order o ∈ reportedIds events
      ↔ .order o ∈ reportedIds s.events ∨ o ∈ transitions.map (·.1)) :
    (∀ o, .order o ∈ reportedIds events → o < om.orders.length)
      ∧ ∀ o < om.orders.length, om.isPlacing o = true ∨ .order o ∈ reportedIds events := by
  constructor
  · intro o ho
    rcases (hids o).mp ho with ho | ho
    · exact Nat.lt_of_lt_of_le (hs.own o ho) hle
    · obtain ⟨entry, hentry, rfl⟩ := List.mem_map.mp ho
      exact hlogs.1 entry hentry
  · intro o ho
    rw [hids]
    by_cases hplacing : om.isPlacing o = true
    · exact .inl hplacing
    · have hdone := hlogs.2 o ho (Bool.eq_false_of_not_eq_true hplacing)
      rcases Nat.lt_or_ge o s.adapter.om.orders.length with hold | hnew
      · rcases hs.placed o hold with hplaced | hplaced
        · exact .inr (.inr (hdone (.inl hplaced)))
        · exact .inr (.inl hplaced)
      · exact .inr (.inr (hdone (.inr hnew)))

/-- A step of the adapter, taken by the order manager. -/
theorem program_cases {a a' : AdapterSession} {ol : OrderManager.Label}
    (h : a.step (.program ol) = some a') :
    a.om.step ol = some a'.om ∧ a'.orderStatuses = a.orderStatuses
      ∧ a'.metadata = (AdapterSession.placed ol).toList ++ a.metadata := by
  obtain ⟨-, h⟩ := Option.ite_none_right_eq_some.mp h
  obtain ⟨om, hom, rfl⟩ := Option.map_eq_some_iff.mp h
  exact ⟨hom, rfl, rfl⟩

/-- A report on an order. -/
theorem report_cases {a a' : AdapterSession} {b : BrokerOrderId} {msg : IbOrderStatus}
    (h : a.step (.orderStatus b msg) = some a') :
    a.om.orders.length ≤ a'.om.orders.length ∧ a'.metadata = a.metadata
      ∧ ∀ b' status, a'.orderStatuses b' = some status →
        a.orderStatuses b' = some status ∨ a.notices b msg = true := by
  obtain ⟨hrun, h⟩ := Option.ite_none_right_eq_some.mp h
  obtain rfl := Option.some.inj h
  unfold AdapterSession.onOrderStatus
  split_ifs with hnotices
  · have hstep : a.om.step (.callback (msg.toInternalOrderState b))
        = some (a.om.onBrokerOrderUpdate (msg.toInternalOrderState b)) := if_pos hrun
    exact ⟨(OrderManager.step_effect hstep).length_le, rfl, fun _ _ _ => .inr hnotices⟩
  · exact ⟨le_rfl, rfl, fun _ _ h => .inl h⟩

/-- What is kept of placed orders is of those the adapter knows. -/
theorem keys_placedMetadata {orderId : OrderId} {ol : OrderManager.Label}
    {placed : List (BrokerOrderId × OrderMetadata)}
    (h : s.placedMetadata orderId ol = some placed) :
    placed.map (·.1) = (AdapterSession.placed ol).toList := by
  cases ol with
  | resume t reply =>
    cases reply with
    | placed b status =>
      obtain ⟨o, -, h⟩ := Option.bind_eq_some_iff.mp h
      obtain ⟨call, -, rfl⟩ := Option.map_eq_some_iff.mp h
      rfl
    | cancelled | orderStatus | quote | modified | raised =>
      obtain rfl := Option.some.inj h
      rfl
  | advance | submit | cancel | sweep | callback | wake | go =>
    obtain rfl := Option.some.inj h
    rfl

/-- The adapter knows the orders of which something is kept. -/
theorem IdsTracked.contains_iff (hs : s.IdsTracked) {b : BrokerOrderId} :
    s.adapter.metadata.contains b = true ↔ ∃ md, s.metadata b = some md := by
  rw [← hs.keys, List.contains_iff_mem, metadata, ← Option.isSome_iff_exists,
    List.lookup_isSome_iff, List.mem_map]
  exact exists_congr fun entry => and_congr_right fun _ => by rw [beq_iff_eq, eq_comm]

/-- A report on an order of others is not written down. -/
theorem statusEvents_none {b : BrokerOrderId} (h : s.metadata b = none) (msg : IbOrderStatus) :
    s.statusEvents b msg = [] := by
  unfold statusEvents
  rw [h]

/-- A report is not under an id of the order manager. -/
theorem order_not_mem_statusEvents {b : BrokerOrderId} {msg : IbOrderStatus} {o : OrderId} :
    .order o ∉ reportedIds (s.statusEvents b msg) := by
  intro hmem
  obtain ⟨e, he, hid⟩ := List.mem_filterMap.mp hmem
  unfold statusEvents at he
  split at he
  · cases he
  · rcases List.mem_cons.mp he with rfl | he
    · rw [LoggedEvent.orderStatus_orderCallback] at hid
      obtain ⟨_, -, heq⟩ := Option.map_eq_some_iff.mp hid
      cases heq
    · split_ifs at he
      · rw [List.mem_singleton.mp he, LoggedEvent.orderStatus_orderEvent] at hid
        cases Option.some.inj hid
      · cases he

/-- **A report that is handed on is written down under the adapter's id.** -/
theorem client_mem_statusEvents {b : BrokerOrderId} {msg : IbOrderStatus} {md : OrderMetadata}
    (h : s.metadata b = some md) (hnotices : s.adapter.notices b msg = true) :
    .client md.orderId ∈ reportedIds (s.statusEvents b msg) := by
  unfold statusEvents
  rw [h]
  dsimp only
  rw [if_pos hnotices]
  exact List.mem_filterMap.mpr ⟨.orderEvent s.now md.orderId msg.callbackStatus,
    List.mem_cons_of_mem _ List.mem_cons_self, LoggedEvent.orderStatus_orderEvent _ _⟩

/-- The order manager's own events are under its ids. -/
theorem order_mem_append_transitions {ids : List LoggedOrderId}
    {transitions : List (OrderId × OrderStatus)} {o : OrderId} :
    .order o ∈ ids ++ transitions.map (fun entry => .order entry.1)
      ↔ .order o ∈ ids ∨ o ∈ transitions.map (·.1) := by
  rw [List.mem_append, List.mem_map, List.mem_map]
  exact or_congr_right (exists_congr fun entry => and_congr_right fun _ =>
    ⟨fun heq => LoggedOrderId.order.inj heq, congrArg _⟩)

theorem exists_order_append_transitions {ids : List LoggedOrderId}
    {transitions : List (OrderId × OrderStatus)} (h : ∀ id ∈ ids, ∃ o, id = .order o) :
    ∀ id ∈ ids ++ transitions.map (fun entry => .order entry.1), ∃ o, id = .order o := by
  intro id hid
  rcases List.mem_append.mp hid with hid | hid
  · exact h id hid
  · obtain ⟨entry, -, rfl⟩ := List.mem_map.mp hid
    exact ⟨entry.1, rfl⟩

/-- **A step of the order manager.** -/
theorem IdsTracked.program (hs : s.IdsTracked) {ol : OrderManager.Label} {orderId : OrderId}
    {transitions : List (OrderId × OrderStatus)} {placed : List (BrokerOrderId × OrderMetadata)}
    (hplaced : s.placedMetadata orderId ol = some placed)
    (hstep : s.adapter.step (.program ol) = some t.adapter)
    (hlogs : s.adapter.om.Logs t.adapter.om transitions)
    (h : t = { s with
      adapter := t.adapter
      orderMetadata := placed ++ s.orderMetadata
      events := s.events ++ transitionEvents s.now transitions }) : t.IdsTracked := by
  obtain ⟨hom, hstatuses, hmetadata⟩ := program_cases hstep
  have hevents : reportedIds t.events = reportedIds s.events
      ++ transitions.map fun entry => .order entry.1 := by
    rw [h, reportedIds_append, reportedIds_transitionEvents]
  have hkept : ∀ {o}, .client o ∈ reportedIds s.events → .client o ∈ reportedIds t.events :=
    fun ho => hevents ▸ List.mem_append_left _ ho
  have hreported : t.reported = s.reported := by rw [h]
  obtain ⟨hown, hplacing⟩ := hs.logs hlogs (OrderManager.step_effect hom).length_le
    fun o => by rw [hevents, order_mem_append_transitions]
  refine ⟨?_, hown, hplacing, fun hnone => ?_, fun b status hb => ?_, fun hsome => ?_⟩
  · rw [hmetadata, ← hs.keys, ← keys_placedMetadata hplaced, h]
    exact List.map_append
  · rw [hevents]
    exact exists_order_append_transitions (hs.unreported (hreported ▸ hnone))
  · rw [hstatuses] at hb
    exact (hs.remembered b status hb).imp fun _ => hkept
  · exact (hs.reported (hreported ▸ hsome)).imp fun _ => hkept

/-- **A report of IBKR**, on an order of which something is kept or on
another. -/
theorem IdsTracked.report (hs : s.IdsTracked) {b : BrokerOrderId} {msg : IbOrderStatus}
    {transitions : List (OrderId × OrderStatus)}
    (hstep : s.adapter.step (.orderStatus b msg) = some t.adapter)
    (hlogs : s.adapter.om.Logs t.adapter.om transitions)
    (h : t = { s with
      adapter := t.adapter
      events := s.events ++ (s.statusEvents b msg ++ transitionEvents s.now transitions)
      reported := if (s.metadata b).isSome then s.reported ++ [b] else s.reported }) :
    t.IdsTracked := by
  obtain ⟨hle, hmetadata, hremembered⟩ := report_cases hstep
  have hevents : reportedIds t.events
      = (reportedIds s.events ++ reportedIds (s.statusEvents b msg))
        ++ transitions.map fun entry => .order entry.1 := by
    rw [h, ← List.append_assoc, reportedIds_append, reportedIds_append,
      reportedIds_transitionEvents]
  have hold : ∀ {id}, id ∈ reportedIds s.events → id ∈ reportedIds t.events := fun hid =>
    hevents ▸ List.mem_append_left _ (List.mem_append_left _ hid)
  have hnotices : s.adapter.notices b msg = true →
      ∃ o, .client o ∈ reportedIds t.events := by
    intro hnotices
    obtain ⟨md, hmd⟩ := hs.contains_iff.mp (Bool.and_eq_true_iff.mp hnotices).1
    refine ⟨md.orderId, ?_⟩
    rw [hevents]
    exact List.mem_append_left _ (List.mem_append_right _ (client_mem_statusEvents hmd hnotices))
  have hreported : t.reported = if (s.metadata b).isSome then s.reported ++ [b] else s.reported :=
    by rw [h]
  obtain ⟨hown, hplacing⟩ := hs.logs hlogs hle fun o => by
    rw [hevents, order_mem_append_transitions, List.mem_append,
      or_iff_left order_not_mem_statusEvents]
  refine ⟨?_, hown, hplacing, fun hnone => ?_, fun b' status hb => ?_, fun hsome => ?_⟩
  · rw [hmetadata, ← hs.keys, h]
  · -- the report was on an order of others
    rw [hreported] at hnone
    split_ifs at hnone with hmd
    · exact absurd hnone (List.append_ne_nil_of_right_ne_nil _ (List.cons_ne_nil _ _))
    · rw [hevents, statusEvents_none (Option.not_isSome_iff_eq_none.mp hmd),
        show reportedIds [] = [] from rfl, List.append_nil]
      exact exists_order_append_transitions (hs.unreported hnone)
  · rcases hremembered b' status hb with hearlier | hnew
    · exact (hs.remembered b' status hearlier).imp fun _ => hold
    · exact hnotices hnew
  · by_cases hmd : (s.metadata b).isSome = true
    · -- the report is handed on, unless its status is remembered
      by_cases hnew : s.adapter.notices b msg = true
      · exact hnotices hnew
      · have hcontains := hs.contains_iff.mpr (Option.isSome_iff_exists.mp hmd)
        have hremembered : s.adapter.orderStatuses b = some msg.callbackStatus := by
          by_contra hne
          exact hnew (Bool.and_eq_true_iff.mpr ⟨hcontains, decide_eq_true hne⟩)
        exact (hs.remembered b _ hremembered).imp fun _ => hold
    · rw [hreported, if_neg hmd] at hsome
      exact (hs.reported hsome).imp fun _ => hold

/-- **One step.** -/
theorem idsTracked_step (hs : s.IdsTracked) (h : s.step l = some t) : t.IdsTracked := by
  cases step_effect h with
  | program l orderId transitions placed hplaced hstep hlogs h =>
    exact hs.program hplaced hstep hlogs h
  | reported b msg transitions hstep hlogs h => exact hs.report hstep hlogs h
  | executed md e side h =>
    have hevents : reportedIds t.events = reportedIds s.events := by
      rw [h, reportedIds_append, reportedIds_fillEvents, List.append_nil]
    rw [h]
    rw [h] at hevents
    exact ⟨hs.keys, hevents.symm ▸ hs.own, hevents.symm ▸ hs.placed, hevents.symm ▸ hs.unreported,
      hevents.symm ▸ hs.remembered, hevents.symm ▸ hs.reported⟩
  | waited seconds hpos h =>
    rw [h]
    exact ⟨hs.keys, hs.own, hs.placed, hs.unreported, hs.remembered, hs.reported⟩

/-! ## Every run -/

/-- **The aggregators count each execution and each order once along a run
exactly where nothing is there to be counted again.** -/
theorem along_counted_iff (floatRepr : Price → String) (ls : List Label) :
    machine.Along (fun _ _ t => t.Counted floatRepr) initial ls
      ↔ machine.Along (fun _ _ t => t.Uncounted floatRepr) initial ls := by
  refine Machine.along_iff_of_step
    (J := fun s => s.InOrder ∧ s.TradesTwice floatRepr ∧ s.IdsTracked) ?_ ?_ ?_
  · rintro s l t ⟨horder, htrades, hids⟩ h
    exact ⟨inOrder_step horder h, tradesTwice_step htrades h, idsTracked_step hids h⟩
  · rintro s l t ⟨horder, htrades, hids⟩ h
    exact counted_iff (inOrder_step horder h) (tradesTwice_step htrades h)
      (idsTracked_step hids h)
  · refine ⟨⟨List.Pairwise.nil, List.forall_mem_nil _⟩, ⟨rfl, List.forall_mem_nil _⟩, rfl,
      fun o ho => absurd ho List.not_mem_nil, fun o ho => absurd ho (Nat.not_lt_zero o),
      fun _ => List.forall_mem_nil _, ?_, fun h => absurd rfl h⟩
    intro b status h
    cases h

/-- Executions that are delivered once. -/
theorem firstDeliveries_eq {executions : List (OrderMetadata × Execution)}
    (h : (executions.map (·.2.execId)).Nodup) : firstDeliveries executions = executions := by
  have hfold : ∀ (executions seen : List (OrderMetadata × Execution)),
      ((seen ++ executions).map (·.2.execId)).Nodup →
        executions.foldl (fun seen x =>
          if x.2.execId ∈ seen.map (·.2.execId) then seen else seen ++ [x]) seen
          = seen ++ executions := by
    intro executions
    induction executions with
    | nil => exact fun seen _ => (List.append_nil seen).symm
    | cons x executions ih =>
      intro seen h
      have hnew : x.2.execId ∉ seen.map (·.2.execId) := fun hmem => by
        rw [List.map_append, List.map_cons] at h
        exact (List.nodup_append.mp h).2.2 _ hmem _ List.mem_cons_self rfl
      rw [List.foldl_cons, if_neg hnew, ih (seen ++ [x]) (by rwa [List.append_assoc]),
        List.append_assoc]
      rfl
  exact hfold executions [] h

/-- **Where no execution is delivered again, the profit is counted right only
where there is none.** -/
theorem pnl_uncounted_iff {floatRepr : Price → String} {s : AuditedSession}
    (honce : (s.executions.map (·.2.execId)).Nodup) (hvalid : ∀ x ∈ s.executions, x.2.valid = true)
    (strategy : StrategyId) (symbol : String) :
    2 * fifoPnl floatRepr (s.executions.filter (·.2.valid)) strategy symbol
        = fifoPnl floatRepr (firstDeliveries s.executions) strategy symbol
      ↔ fifoPnl floatRepr s.executions strategy symbol = 0 := by
  rw [firstDeliveries_eq honce, List.filter_eq_self.mpr hvalid, two_mul, add_eq_left]

/-- Two contracts are bought for a dollar and sold for two. -/
def roundTrip : List Label :=
  [ .program (.submit (sampleIntent none true .buy) sampleDecision false none none) 0
      [(0, .new), (0, .riskChecked)],
    .program (.resume 0 (.placed 7 .new)) 100 [(0, .new)],
    .execDetails ⟨"0001", 7, 2, 1⟩ .bot,
    .program (.submit (sampleIntent (some 1) false .sell) sampleDecision false none none) 0
      [(1, .new), (1, .riskChecked)],
    .program (.resume 1 (.placed 8 .new)) 101 [(1, .new)],
    .execDetails ⟨"0002", 8, 2, 2⟩ .sld ]

/-- **Executions are counted twice**: the round trip earns two dollars, and
four are counted. -/
theorem not_along_counted : ¬ ∀ floatRepr ls,
    machine.Along (fun _ _ t => t.Counted floatRepr) initial ls := by
  intro h
  have hrun : (machine.run initial roundTrip).map (fun s =>
      (computeRealizedPnl (fun _ => "") (normalizeEvents s.events) "orb" "SPX",
        fifoPnl (fun _ => "") (firstDeliveries s.executions) "orb" "SPX")) = some (4, 2) := by
    decide +kernel
  obtain ⟨t, ht, hpnl⟩ := Option.map_eq_some_iff.mp hrun
  obtain ⟨hcounted, honce⟩ := Prod.mk.inj hpnl
  have hinitial : initial.Counted fun _ => "" := ⟨fun _ _ => rfl, fun _ => rfl⟩
  have hall := Machine.throughout_iff_along.mpr ⟨hinitial, h (fun _ => "") roundTrip⟩
  have heq := (hall roundTrip t List.prefix_rfl ht).pnl "orb" "SPX"
  rw [hcounted, honce] at heq
  exact absurd heq (by decide)

end AuditedSession
