import ExecutionSystem.Machine
import ExecutionSystem.Quotes
import Mathlib.Data.List.Basic

/-!
# The order manager

`OrderManager` of `src/execution/order_manager.py` as a machine. The
program is a set of coroutines on one event loop: a coroutine runs
without interruption from one `await` to the next, and while it waits
any other coroutine and any broker callback may run. So the state is the
dictionary of orders together with, for every coroutine, the place in
the source where it stands (`Coroutine`), and a step is one block of
source code between two such places.

A coroutine that stands at an `await` of a broker call is resumed with
the call's `Reply`; one that sleeps is woken once the clock has reached
its time; one that stands anywhere else is in the middle of a stretch of
code without `await`, it is then the `running` one, and no other step is
enabled until it waits again. Awaiting another coroutine is an ordinary
call and does not yield by itself: `CancelCaller` records who called
`cancel_order` and therefore where the code goes on when it returns.

The broker's answers are labels, so nothing is assumed of the broker
here: every call may return anything of its type or raise. The order
dictionary only ever grows, and an order is named by its position in
it.
-/

/-! ## Repricing -/

/-- Configuration options for limit order repricing. -/
structure RepriceConfig where
  enabled : Bool := false
  maxAttempts : ℤ := 3
  repriceIntervalSeconds : Time := 5
  maxAcceptableBuyPrice : Price := 999999
  minAcceptableSellPrice : Price := binary64 (1 / 100)
  timeoutSeconds : Time := 30
  /-- After this many attempts, price through the touch; `none` = never. -/
  crossTouchAfterAttempts : Option ℤ := none
  crossTouchOffset : Price := binary64 (5 / 100)
  useInPlaceModify : Bool := false
  deriving DecidableEq

namespace RepriceConfig

/-- Whether this attempt prices through the touch. -/
def cross (config : RepriceConfig) (attempts : ℕ) : Bool :=
  match config.crossTouchAfterAttempts with
  | none => false
  | some n => n ≤ attempts

/-- **The price of the next attempt**: halfway to the touch first, at the
touch from then on, through it once `cross` says so – the old limit
where the touch is outside the acceptable range – conformed to the
minimum price variation, all of it in floats. -/
def newPrice (config : RepriceConfig) (attempts : ℕ) (side : OrderSide)
    (limit bid ask : Price) : Price :=
  conformTickFloat <|
    match side with
    | .buy =>
      if 0 < ask ∧ ask ≤ config.maxAcceptableBuyPrice then
        if config.cross attempts then
          min (binary64 (ask + config.crossTouchOffset)) config.maxAcceptableBuyPrice
        else min (if attempts = 0 then binary64 (binary64 (limit + ask) / 2) else ask) ask
      else limit
    | .sell =>
      if 0 < bid ∧ config.minAcceptableSellPrice ≤ bid then
        if config.cross attempts then
          max (binary64 (bid - config.crossTouchOffset)) config.minAcceptableSellPrice
        else max (if attempts = 0 then binary64 (binary64 (limit + bid) / 2) else bid) bid
      else limit

end RepriceConfig

/-! ## What is written to an order

Each place of the source that assigns to an order is one function on the
order. -/

namespace OrderState

/-- The state created for a plan, at `NEW`. -/
def ofPlan (plan : OrderPlan) (first : Option Price) (now : Time) : OrderState where
  positionId := plan.positionId
  isEntry := plan.isEntry
  strategyId := plan.strategyId
  contract := plan.contract
  side := plan.side
  quantity := plan.quantity
  filledQuantity := 0
  limitPrice := plan.limitPrice
  firstLimitPrice := first
  orderRef := plan.orderRef
  supersededBy := none
  status := .new
  brokerOrderId := none
  errorMessage := none
  createdAt := now
  updatedAt := now
  hardCancel := false
  entryBatch := none
  algo := plan.algo.filter (fun a => a ≠ "")
  quantity_pos := plan.quantity_pos

/-- `place_order` returned: adopt the broker's id and status. -/
def placed (b : BrokerOrderId) (status : OrderStatus) (now : Time)
    (x : OrderState) : OrderState :=
  { x with brokerOrderId := some b, status := status, updatedAt := now }

/-- A broker call for the order raised: `place_order` or `cancel_order`. -/
def failed (message : String) (now : Time) (x : OrderState) : OrderState :=
  { x with status := .error, errorMessage := some message, updatedAt := now }

/-- What `cancel_order` does to the order before it calls the broker: the
hard-cancel mark first, whatever the status, then `CANCEL_PENDING`, and
from there at once `CANCELLED` when there is no broker id yet. -/
def cancelRequested (hard : Bool) (now : Time) (x : OrderState) : OrderState :=
  let x := if hard then { x with hardCancel := true } else x
  if x.status.terminal then x
  else match x.brokerOrderId with
    | none => { x with status := .cancelled, updatedAt := now }
    | some _ => { x with status := .cancelPending, updatedAt := now }

/-- The stuck-cancel sweep settles the order at a terminal status. -/
def swept (status : OrderStatus) (now : Time) (x : OrderState) : OrderState :=
  { x with status := status, updatedAt := now }

/-- The sweep re-issued the cancel: restart the age clock. -/
def recancelled (now : Time) (x : OrderState) : OrderState :=
  { x with updatedAt := now }

/-- The working order was amended in place. -/
def repriced (price : Price) (now : Time) (x : OrderState) : OrderState :=
  { x with limitPrice := price, updatedAt := now }

/-- The replacement-chain link. -/
def superseded (n : OrderId) (x : OrderState) : OrderState :=
  { x with supersededBy := some n }

/-- Whether a callback is dropped as stale: the order is already done. -/
def ignoresUpdate (x : OrderState) : Bool := x.status.terminal

/-- The benign modify-vs-cancel race: a reject while we are cancelling. -/
def rejectWhileCancelling (upd : BrokerUpdate) (x : OrderState) : Bool :=
  x.status = .cancelPending && (upd.status = .rejected || upd.status = .error)

/-- The status an update that is neither stale nor the race leaves: a
cancel in flight is not undone by a report that the order is working. -/
def updatedStatus (upd : BrokerUpdate) (x : OrderState) : OrderStatus :=
  if x.status = .cancelPending ∧
      (upd.status = .submitted ∨ upd.status = .partiallyFilled ∨ upd.status = .new)
  then .cancelPending else upd.status

/-- `_on_broker_order_update`, as far as the order goes. -/
def brokerUpdated (upd : BrokerUpdate) (now : Time) (x : OrderState) : OrderState :=
  if x.ignoresUpdate then x
  else if x.rejectWhileCancelling upd then
    { x with status := .cancelled, updatedAt := now }
  else
    { x with
      status := x.updatedStatus upd
      filledQuantity := upd.filledQuantity
      errorMessage := upd.errorMessage
      updatedAt := now }

/-- Whether the update is one the fail-closed rule reacts to: a cancel we
did not ask for, or a reject. -/
def failClosed (upd : BrokerUpdate) (x : OrderState) : Bool :=
  (upd.status = .cancelled && x.status ≠ .cancelPending)
    || upd.status = .rejected || upd.status = .error

end OrderState

/-! ## Where a coroutine stands -/

/-- The local variables of one `_run_repricer`. -/
structure Repricer where
  config : RepriceConfig
  startTime : Time
  attempts : ℕ
  /-- `current_order_id`. -/
  current : OrderId
  deriving DecidableEq

/-- Who called `cancel_order`, that is, where the code goes on when it
returns. -/
inductive CancelCaller where
  /-- A caller outside the order manager, or a task of its own. -/
  | outside
  /-- The repricer on timeout or out of attempts: it leaves its loop. -/
  | giveUp (r : Repricer)
  /-- The repricer about to replace the order at a new price. -/
  | replace (r : Repricer) (newPrice : Price)
  deriving DecidableEq

/-- **The place in the source where a coroutine stands**, with the local
variables it still needs. -/
inductive Coroutine where
  /-- `submit_intent`, awaiting `place_order`; `reprice` is the repricer it
  will start. -/
  | placeAwait (o : OrderId) (reprice : Option RepriceConfig)
  /-- At the head of `cancel_order`. -/
  | cancelStart (o : OrderId) (hard : Bool) (k : CancelCaller)
  /-- `cancel_order`, awaiting the broker. -/
  | cancelAwait (o : OrderId) (k : CancelCaller)
  /-- `resolve_stuck_cancels`, at the head of its loop. -/
  | sweepLoop (now maxAge : Time) (rest : List OrderId)
  /-- … awaiting `get_order_status`. -/
  | sweepQuery (now maxAge : Time) (o : OrderId) (rest : List OrderId)
  /-- … awaiting the re-issued cancel. -/
  | sweepRecancel (now maxAge : Time) (o : OrderId) (rest : List OrderId)
  /-- A spawned `_run_repricer` that has not run yet. -/
  | repricerStart (o : OrderId) (config : RepriceConfig)
  /-- `_run_repricer`, in the sleep at the head of its loop. -/
  | repricerSleep (r : Repricer) (wakeAt : Time)
  /-- … awaiting `get_quotes`. -/
  | quoteAwait (r : Repricer)
  /-- … awaiting `modify_order`. -/
  | modifyAwait (r : Repricer) (newPrice : Price)
  /-- … about to cancel the order it will replace. -/
  | repricerCancel (r : Repricer) (newPrice : Price)
  /-- … looking whether the cancel was acknowledged. -/
  | pollCheck (r : Repricer) (newPrice : Price)
  /-- … in the sleep between two looks. -/
  | pollSleep (r : Repricer) (newPrice : Price) (wakeAt : Time)
  /-- … awaiting `place_order` for the replacement `n`. -/
  | replaceAwait (r : Repricer) (n : OrderId)
  /-- Returned; the value is the one `cancel_order` returns. -/
  | done (result : Bool)
  deriving DecidableEq

/-- What an awaited broker call answers. -/
inductive Reply where
  | placed (b : BrokerOrderId) (status : OrderStatus)
  | cancelled (accepted : Bool)
  | orderStatus (status : Option OrderStatus)
  | quote (q : Option QuoteSnapshot)
  | modified (accepted : Bool)
  | raised (message : String)

abbrev TaskId := ℕ

/-- A call of `broker.place_order` that was started. -/
structure PlaceCall where
  /-- The order it is placed for. -/
  order : OrderId
  plan : OrderPlan
  /-- The order a repricer replaces with it. -/
  supersedes : Option OrderId
  deriving DecidableEq

/-- **The state of the order manager**: its orders in insertion order, its
coroutines, and the calls of `place_order` it has started so far. -/
structure OrderManager where
  orders : List OrderState := []
  tasks : List Coroutine := []
  /-- The coroutine in the middle of a stretch of code without `await`. -/
  running : Option TaskId := none
  brokerRejectedOrderIds : List OrderId := []
  clock : Time := 0
  placeCalls : List PlaceCall := []

/-- The ways `submit_intent` raises before it creates an order. -/
inductive SubmitError where
  | notApproved
  | riskDecisionMismatch
  | duplicate (active : OrderId) (p : PositionId)
  /-- The plan's validator refuses a quantity of `0`. -/
  | invalidQuantity
  deriving DecidableEq

namespace OrderManager

/-! ### Moving a coroutine -/

/-- Write to one order. -/
def update (om : OrderManager) (o : OrderId) (f : OrderState → OrderState) :
    OrderManager :=
  { om with orders := om.orders.modify o f }

/-- The coroutine waits, or is done. -/
def suspend (om : OrderManager) (t : TaskId) (c : Coroutine) : OrderManager :=
  { om with tasks := om.tasks.set t c, running := none }

/-- The coroutine goes on without yielding. -/
def goOn (om : OrderManager) (t : TaskId) (c : Coroutine) : OrderManager :=
  { om with tasks := om.tasks.set t c, running := some t }

/-- `_spawn`: a new task, to run later. -/
def spawn (om : OrderManager) (c : Coroutine) : OrderManager :=
  { om with tasks := om.tasks ++ [c] }

/-- Call a coroutine from outside: it starts at once. -/
def call (om : OrderManager) (c : Coroutine) : OrderManager :=
  { om with tasks := om.tasks ++ [c], running := some om.tasks.length }

/-! ### `submit_intent` -/

/-- The active order already held for a position. -/
def activeOrderFor (om : OrderManager) (p : PositionId) : Option OrderId :=
  om.orders.findIdx? (fun x => x.positionId = some p && x.status.active)

/-- The plan of an intent, clamped to the risk limit. -/
def planOf (intent : OrderIntent) (quantity : ℕ) (h : 0 < quantity)
    (emergencyFlatten : Bool) (algo : Option String) (now : Time) : OrderPlan where
  positionId := intent.positionId
  isEntry := intent.isEntry
  strategyId := intent.strategyId
  contract := intent.contract
  side := intent.side
  quantity := quantity
  orderType := if emergencyFlatten then .mkt else .lmt
  limitPrice := intent.limitPrice
  orderRef := some
    { strategyId := intent.strategyId
      positionId := intent.positionId
      leg := intent.contract.right
      side := intent.side
      unixMs := (now * 1000).floor }
  algo := algo
  quantity_pos := h
  limit_pos := intent.limit_pos

/-- The order of an intent once it is risk-checked: created at `NEW`,
tagged with its batch, and moved to `RISK_CHECKED` before any `await`. -/
def orderOf (intent : OrderIntent) (plan : OrderPlan) (now : Time) : OrderState :=
  { OrderState.ofPlan plan (some plan.limitPrice) now with
    entryBatch := intent.entryBatch
    status := .riskChecked }

/-- The repricer `submit_intent` will start once the order is placed. -/
def repricerFor (reprice : Option RepriceConfig) (emergencyFlatten : Bool) :
    Option RepriceConfig :=
  reprice.filter (fun config => config.enabled && !emergencyFlatten)

/-- **`submit_intent` up to its `await`**: the verification gates, the
duplicate check, the new order, and the call of `place_order`. -/
def submitIntent (om : OrderManager) (intent : OrderIntent)
    (decision : RiskDecision) (emergencyFlatten : Bool)
    (reprice : Option RepriceConfig) (algo : Option String) :
    Except SubmitError OrderManager :=
  if !decision.approved then .error .notApproved
  else if decision.riskDecisionId ≠ intent.riskDecisionId then
    .error .riskDecisionMismatch
  else match intent.positionId.bind
      (fun p => (om.activeOrderFor p).map (fun o => (o, p))) with
    | some (o, p) => .error (.duplicate o p)
    | none =>
      if h : 0 < decision.allowedQuantity then
        let plan := planOf intent decision.allowedQuantity h emergencyFlatten
          algo om.clock
        .ok { om with
          orders := om.orders ++ [orderOf intent plan om.clock]
          tasks := om.tasks
            ++ [.placeAwait om.orders.length (repricerFor reprice emergencyFlatten)]
          placeCalls := om.placeCalls ++ [⟨om.orders.length, plan, none⟩] }
      else .error .invalidQuantity

/-- `submit_intent` after its `await`. -/
def placeReturned (om : OrderManager) (t : TaskId) (o : OrderId)
    (reprice : Option RepriceConfig) : Reply → Option OrderManager
  | .placed b status =>
    let om := (om.update o (.placed b status om.clock)).suspend t (.done true)
    some <| match reprice with
      | some config => om.spawn (.repricerStart o config)
      | none => om
  | .raised message =>
    some ((om.update o (.failed message om.clock)).suspend t (.done true))
  | _ => none

/-! ### `cancel_order` -/

/-- The repricer goes back to the sleep at the head of its loop. -/
def sleep (om : OrderManager) (t : TaskId) (r : Repricer) : OrderManager :=
  om.suspend t (.repricerSleep r (om.clock + r.config.repriceIntervalSeconds))

/-- `cancel_order` returns `result` to its caller. -/
def returnFromCancel (om : OrderManager) (t : TaskId) (result : Bool) :
    CancelCaller → OrderManager
  | .outside => om.suspend t (.done result)
  | .giveUp _ => om.suspend t (.done result)
  | .replace r newPrice =>
    if result then om.goOn t (.pollCheck r newPrice) else om.sleep t r

/-- **`cancel_order` up to its `await`.** -/
def cancelOrder (om : OrderManager) (t : TaskId) (o : OrderId) (hard : Bool)
    (k : CancelCaller) : OrderManager :=
  match om.orders[o]? with
  | none => om.returnFromCancel t false k
  | some order =>
    let om := om.update o (.cancelRequested hard om.clock)
    if order.status.terminal then om.returnFromCancel t false k
    else match order.brokerOrderId with
      | none => om.returnFromCancel t true k
      | some _ => om.suspend t (.cancelAwait o k)

/-- `cancel_order` after its `await`. -/
def cancelReturned (om : OrderManager) (t : TaskId) (o : OrderId)
    (k : CancelCaller) : Reply → Option OrderManager
  | .cancelled accepted => some (om.returnFromCancel t accepted k)
  | .raised message =>
    some ((om.update o (.failed message om.clock)).returnFromCancel t false k)
  | _ => none

/-! ### `resolve_stuck_cancels` -/

/-- One turn of the sweep's loop, up to its `await`. `now` is read once,
when the sweep starts. -/
def sweepNext (om : OrderManager) (t : TaskId) (now maxAge : Time) :
    List OrderId → OrderManager
  | [] => om.suspend t (.done true)
  | o :: rest =>
    match om.orders[o]? with
    | none => om.goOn t (.sweepLoop now maxAge rest)
    | some order =>
      if order.status ≠ .cancelPending ∨ now - order.updatedAt < maxAge then
        om.goOn t (.sweepLoop now maxAge rest)
      else match order.brokerOrderId with
        | some _ => om.suspend t (.sweepQuery now maxAge o rest)
        | none =>
          (om.update o (.swept .cancelled now)).goOn t (.sweepLoop now maxAge rest)

/-- The sweep learns the broker's status: a terminal one is adopted, an
order the broker does not know is taken for cancelled, a working one is
cancelled again. -/
def sweepQueried (om : OrderManager) (t : TaskId) (now maxAge : Time)
    (o : OrderId) (rest : List OrderId) : Reply → Option OrderManager
  | .orderStatus (some status) =>
    some <|
      if status.terminal then
        (om.update o (.swept status now)).goOn t (.sweepLoop now maxAge rest)
      else om.suspend t (.sweepRecancel now maxAge o rest)
  | .orderStatus none =>
    some ((om.update o (.swept .cancelled now)).goOn t (.sweepLoop now maxAge rest))
  | .raised _ => some (om.goOn t (.sweepLoop now maxAge rest))
  | _ => none

/-- The sweep after its re-issued cancel. -/
def sweepRecancelled (om : OrderManager) (t : TaskId) (now maxAge : Time)
    (o : OrderId) (rest : List OrderId) : Reply → Option OrderManager
  | .cancelled _ =>
    some ((om.update o (.recancelled now)).goOn t (.sweepLoop now maxAge rest))
  | .raised _ => some (om.goOn t (.sweepLoop now maxAge rest))
  | _ => none

/-! ### `_on_broker_order_update` -/

/-- `_find_order_by_broker_id`. -/
def findOrderByBrokerId (om : OrderManager) (b : BrokerOrderId) : Option OrderId :=
  om.orders.findIdx? (fun x => x.brokerOrderId = some b)

/-- **A broker order callback.** A stale one and the modify/cancel race
return early; any other may set off the fail-closed rule, and a partial
fill of an entry cancels its remainder in a task of its own. -/
def onBrokerOrderUpdate (om : OrderManager) (upd : BrokerUpdate) : OrderManager :=
  match om.findOrderByBrokerId upd.brokerOrderId with
  | none => om
  | some o =>
    match om.orders[o]? with
    | none => om
    | some order =>
      let om := om.update o (.brokerUpdated upd om.clock)
      if order.ignoresUpdate || order.rejectWhileCancelling upd then om
      else
        let om := if order.failClosed upd then
            { om with brokerRejectedOrderIds := om.brokerRejectedOrderIds.insert o }
          else om
        if order.updatedStatus upd = .partiallyFilled ∧ order.isEntry then
          om.spawn (.cancelStart o true .outside)
        else om

/-! ### `_run_repricer` -/

/-- The repricer after the sleep at the head of its loop, up to
`get_quotes`. -/
def repricerWoken (om : OrderManager) (t : TaskId) (r : Repricer) : OrderManager :=
  match om.orders[r.current]? with
  | none => om.suspend t (.done true)
  | some order =>
    if order.hardCancel || order.status.terminal then om.suspend t (.done true)
    else if r.config.timeoutSeconds ≤ om.clock - r.startTime
        ∨ r.config.maxAttempts ≤ r.attempts then
      om.goOn t (.cancelStart r.current true (.giveUp r))
    else om.suspend t (.quoteAwait r)

/-- The repricer with its quote: compute the price, and amend the order in
place or go on to cancel it. -/
def repricerQuoted (om : OrderManager) (t : TaskId) (r : Repricer) :
    Reply → Option OrderManager
  | .quote (some q) =>
    some <| match q.bid, q.ask, om.orders[r.current]? with
      | some bid, some ask, some order =>
        let newPrice := r.config.newPrice r.attempts order.side order.limitPrice
          bid ask
        if |binary64 (newPrice - order.limitPrice)| < binary64 (1 / 100) then om.sleep t r
        else if order.quantity - order.filledQuantity = 0 then
          om.suspend t (.done true)
        else if r.config.useInPlaceModify ∧ order.brokerOrderId.isSome then
          om.suspend t (.modifyAwait r newPrice)
        else om.goOn t (.repricerCancel r newPrice)
      | _, _, _ => om.sleep t r
  | .quote none => some (om.sleep t r)
  | .raised _ => some (om.sleep t r)
  | _ => none

/-- The repricer after `modify_order`: done, or fall back to
cancel/replace. -/
def repricerModified (om : OrderManager) (t : TaskId) (r : Repricer)
    (newPrice : Price) : Reply → Option OrderManager
  | .modified true =>
    some ((om.update r.current (.repriced newPrice om.clock)).sleep t
      { r with attempts := r.attempts + 1 })
  | .modified false => some (om.goOn t (.repricerCancel r newPrice))
  | .raised _ => some (om.goOn t (.repricerCancel r newPrice))
  | _ => none

/-- The repricer cancels the order it will replace, unless a hard cancel
came first. -/
def repricerCancels (om : OrderManager) (t : TaskId) (r : Repricer)
    (newPrice : Price) : OrderManager :=
  match om.orders[r.current]? with
  | none => om.suspend t (.done true)
  | some order =>
    if order.hardCancel then om.suspend t (.done true)
    else om.goOn t (.cancelStart r.current false (.replace r newPrice))

/-- The plan of a replacement. -/
def replacementPlan (order : OrderState) (quantity : ℕ) (h : 0 < quantity)
    (newPrice : Price) (hp : 0 < newPrice) : OrderPlan where
  positionId := order.positionId
  isEntry := order.isEntry
  strategyId := order.strategyId
  contract := order.contract
  side := order.side
  quantity := quantity
  orderType := .lmt
  limitPrice := newPrice
  orderRef := order.orderRef
  algo := order.algo
  quantity_pos := h
  limit_pos := hp

/-- The state of a replacement: the first limit and the batch tag are
carried through the chain. -/
def replacementOf (order : OrderState) (plan : OrderPlan) (now : Time) : OrderState :=
  { OrderState.ofPlan plan (some (order.firstLimitPrice.getD order.limitPrice)) now
    with entryBatch := order.entryBatch }

/-- Whether the repricer, looking at its order now, will replace it: the
cancel is acknowledged, it was not a hard one, and something is left. -/
def replaceable (order : OrderState) : Bool :=
  order.status = .cancelled && !order.hardCancel
    && 0 < order.quantity - order.filledQuantity

/-- **The repricer looks whether its cancel was acknowledged**: it waits on
while the cancel is pending and in time, gives up unless the order is
cancelled, and otherwise submits the replacement for what is left and
links it. A new price of `0` or less would be refused by the plan's
validator, and the coroutine would end there. -/
def pollChecked (om : OrderManager) (t : TaskId) (r : Repricer)
    (newPrice : Price) : OrderManager :=
  match om.orders[r.current]? with
  | none => om.suspend t (.done true)
  | some order =>
    if order.status = .cancelPending then
      if r.config.timeoutSeconds ≤ om.clock - r.startTime then
        om.suspend t (.done true)
      else om.suspend t (.pollSleep r newPrice (om.clock + 1 / 10))
    else if order.status ≠ .cancelled ∨ order.hardCancel then
      om.suspend t (.done true)
    else if h : 0 < order.quantity - order.filledQuantity then
      if hp : 0 < newPrice then
        let plan := replacementPlan order (order.quantity - order.filledQuantity) h
          newPrice hp
        let n := om.orders.length
        let om' : OrderManager :=
          { om with
            orders := om.orders.modify r.current (.superseded n)
              ++ [replacementOf order plan om.clock]
            placeCalls := om.placeCalls ++ [⟨n, plan, some r.current⟩] }
        om'.suspend t (.replaceAwait { r with attempts := r.attempts + 1 } n)
      else om.suspend t (.done true)
    else om.suspend t (.done true)

/-- The repricer after `place_order`: chase the replacement from now on. -/
def replaceReturned (om : OrderManager) (t : TaskId) (r : Repricer) (n : OrderId) :
    Reply → Option OrderManager
  | .placed b status =>
    some ((om.update n (.placed b status om.clock)).sleep t { r with current := n })
  | .raised message =>
    some ((om.update n (.failed message om.clock)).suspend t (.done true))
  | _ => none

/-! ### The machine -/

/-- Whether a coroutine that waits for no broker call can be run now. -/
def wakeable (clock : Time) : Coroutine → Bool
  | .cancelStart .. => true
  | .repricerStart .. => true
  | .repricerSleep _ wakeAt => wakeAt ≤ clock
  | .pollSleep _ _ wakeAt => wakeAt ≤ clock
  | _ => false

/-- The next block of the coroutine that is running. -/
def block (om : OrderManager) (t : TaskId) : Coroutine → Option OrderManager
  | .cancelStart o hard k => some (om.cancelOrder t o hard k)
  | .sweepLoop now maxAge rest => some (om.sweepNext t now maxAge rest)
  | .repricerStart o config => some (om.sleep t ⟨config, om.clock, 0, o⟩)
  | .repricerSleep r _ => some (om.repricerWoken t r)
  | .repricerCancel r newPrice => some (om.repricerCancels t r newPrice)
  | .pollCheck r newPrice => some (om.pollChecked t r newPrice)
  | .pollSleep r newPrice _ => some (om.pollChecked t r newPrice)
  | _ => none

/-- The block that follows an awaited broker call. -/
def resume (om : OrderManager) (t : TaskId) (reply : Reply) :
    Coroutine → Option OrderManager
  | .placeAwait o reprice => om.placeReturned t o reprice reply
  | .cancelAwait o k => om.cancelReturned t o k reply
  | .sweepQuery now maxAge o rest => om.sweepQueried t now maxAge o rest reply
  | .sweepRecancel now maxAge o rest => om.sweepRecancelled t now maxAge o rest reply
  | .quoteAwait r => om.repricerQuoted t r reply
  | .modifyAwait r newPrice => om.repricerModified t r newPrice reply
  | .replaceAwait r n => om.replaceReturned t r n reply
  | _ => none

/-- What can happen next. -/
inductive Label where
  /-- Time passes. -/
  | advance (d : Time)
  /-- Someone calls `submit_intent`. -/
  | submit (intent : OrderIntent) (decision : RiskDecision)
      (emergencyFlatten : Bool) (reprice : Option RepriceConfig)
      (algo : Option String)
  /-- Someone calls `cancel_order`. -/
  | cancel (o : OrderId) (hard : Bool)
  /-- Someone calls `resolve_stuck_cancels`. -/
  | sweep (maxAge : Time)
  /-- The broker reports on an order. -/
  | callback (upd : BrokerUpdate)
  /-- The event loop runs a task that sleeps no longer. -/
  | wake (t : TaskId)
  /-- A broker call a coroutine awaits returns or raises. -/
  | resume (t : TaskId) (reply : Reply)
  /-- The running coroutine takes its next block. -/
  | go

/-- **One step of the order manager.** Only `go` is enabled while a
coroutine runs, and only the rest while none does. -/
def step (om : OrderManager) : Label → Option OrderManager
  | .go => om.running.bind fun t => om.tasks[t]?.bind fun c => om.block t c
  | .advance d =>
    if om.running.isNone ∧ 0 ≤ d then some { om with clock := om.clock + d } else none
  | .submit intent decision emergencyFlatten reprice algo =>
    if om.running.isNone then
      some ((om.submitIntent intent decision emergencyFlatten reprice algo).toOption.getD om)
    else none
  | .cancel o hard =>
    if om.running.isNone then some (om.call (.cancelStart o hard .outside)) else none
  | .sweep maxAge =>
    if om.running.isNone then
      some (om.call (.sweepLoop om.clock maxAge (List.range om.orders.length)))
    else none
  | .callback upd =>
    if om.running.isNone then some (om.onBrokerOrderUpdate upd) else none
  | .wake t =>
    if om.running.isNone ∧ (om.tasks[t]?.any (wakeable om.clock)) then
      some { om with running := some t }
    else none
  | .resume t reply =>
    if om.running.isNone then om.tasks[t]?.bind (om.resume t reply) else none

/-- The order manager with arbitrary callers and an arbitrary broker. -/
def machine : Machine OrderManager Label where
  step := step

/-- No orders and no coroutines. -/
def initial : OrderManager := {}

end OrderManager
