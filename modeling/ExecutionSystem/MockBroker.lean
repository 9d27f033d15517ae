import ExecutionSystem.InsertionDict
import ExecutionSystem.OrderLifecycle

/-!
# The mock broker's orders

`MockBrokerClient` of `src/broker/mock_broker.py`, the broker of a paper
session. Every order that is placed gets a task that accepts or rejects it and
then fills it, in one piece or in two; the task sleeps between, and other tasks
run, fills of other orders come, and the order may be cancelled. So the broker
is a machine whose labels are the calls and the stretches of the tasks between
two sleeps.

Under any interleaving, what the callbacks are told of an order is a run of its
lifecycle (`MockBroker.refines_lifecycle`), and a task that goes on four times
has its order done with (`MockBroker.settles`).
-/

/-! ## One order and its task -/

/-- `MockBrokerConfig`. -/
structure MockBrokerConfig where
  connectedInitially : Bool := true
  acceptanceDelaySeconds : ℚ := 0
  fillDelaySeconds : ℚ := 0
  autoFill : Bool := true
  rejectProbability : ℚ := 0
  rejectReason : String := "Simulated order rejection"
  partialFillQty : Option ℤ := none
  partialFillDelaySeconds : ℚ := 0
  simulatedPositions : List Position := []

/-- **The broker's own order**: the plan it was made of, and what its lifecycle
assigns. The filled quantity is assigned without being validated. -/
structure MockOrder where
  orderId : OrderId
  plan : OrderPlan
  filledQuantity : ℤ := 0
  status : OrderStatus := .new
  errorMessage : Option String := none
  createdAt : Time
  updatedAt : Time

/-- Where the task of an order is: before its first sleep, in one of its
sleeps, or at its end. The last sleep is with the quantity already filled. -/
inductive LifecycleStage where
  | starting
  | accepting
  | filling
  | finishing (partialQty : ℤ)
  | ended
  deriving DecidableEq

/-- How many more times a task goes on, at most. -/
def LifecycleStage.rank : LifecycleStage → ℕ
  | starting => 4
  | accepting => 3
  | filling => 2
  | finishing _ => 1
  | ended => 0

/-- What a task does between two sleeps: to its order, and what it tells the
callbacks. -/
structure Turn where
  order : MockOrder
  callbacks : List BrokerCallback := []
  stage : LifecycleStage := .ended

/-- A turn that starts with some calls of the callbacks. -/
def Turn.after (callbacks : List BrokerCallback) (turn : Turn) : Turn :=
  { turn with callbacks := callbacks ++ turn.callbacks }

namespace MockOrder

/-- How the order stands, as its lifecycle has it. -/
def standing (order : MockOrder) : Standing := ⟨order.status, order.filledQuantity.toNat⟩

/-- The event of a change of status. -/
def event (order : MockOrder) (status : OrderStatus) (message : String) (now : Time) :
    OrderEvent where
  orderId := order.orderId
  previousStatus := order.status
  newStatus := status
  message := message
  timestamp := now

/-- The fill of some of the order. There is none of a quantity that is not
positive: the validator raises, and the task is at its end. -/
def fillEvent (order : MockOrder) (qty : ℤ) (now : Time) : Option FillEvent :=
  if h : 0 < qty then
    some
      { orderId := order.orderId
        strategyId := order.plan.strategyId
        contract := order.plan.contract
        side := order.plan.side
        filledQuantity := qty.toNat
        fillPrice := order.plan.limitPrice
        timestamp := now
        filled_pos := Int.lt_toNat.mpr h
        price_pos := order.plan.limit_pos }
  else none

/-- The order with a status and what is filled of it. -/
def assigned (order : MockOrder) (status : OrderStatus) (filledQuantity : ℤ) (now : Time) :
    MockOrder :=
  { order with status := status, filledQuantity := filledQuantity, updatedAt := now }

/-- The order is filled with `qty` more. -/
def fillUp (order : MockOrder) (qty : ℤ) (message : String) (now : Time) : Turn where
  order := order.assigned .filled order.plan.quantity now
  callbacks := .order (order.event .filled message now)
    :: ((order.fillEvent qty now).map .fill).toList

/-- The rest of an order that is filled in part. -/
def finish (order : MockOrder) (partialQty : ℤ) (now : Time) : Turn :=
  if order.status = .cancelled then { order := order }
  else
    let remainingQty := order.plan.quantity - partialQty
    order.fillUp remainingQty
      s!"Order fully filled. Final partial fill: {remainingQty} shares" now

/-- The first part of an order that is filled in two. -/
def fillPart (cfg : MockBrokerConfig) (order : MockOrder) (partialQty : ℤ) (now : Time) :
    Turn :=
  let told := BrokerCallback.order
    (order.event .partiallyFilled s!"Partial fill executed: {partialQty} shares" now)
  let filled := order.assigned .partiallyFilled partialQty now
  match order.fillEvent partialQty now with
  | none => { order := filled, callbacks := [told] }
  | some fill =>
    Turn.after [told, .fill fill]
      (if 0 < cfg.partialFillDelaySeconds then { order := filled, stage := .finishing partialQty }
        else filled.finish partialQty now)

/-- **The fill phase.** -/
def fillPhase (cfg : MockBrokerConfig) (order : MockOrder) (now : Time) : Turn :=
  if order.status = .cancelled then { order := order }
  else match cfg.partialFillQty.filter (fun qty : ℤ => qty < order.plan.quantity) with
    | some partialQty => order.fillPart cfg partialQty now
    | none => order.fillUp order.plan.quantity "Order filled completely" now

/-- **The acceptance phase**, with the number that was drawn. -/
def acceptPhase (cfg : MockBrokerConfig) (order : MockOrder) (draw : ℚ) (now : Time) : Turn :=
  if order.status = .cancelled then { order := order }
  else if draw < cfg.rejectProbability then
    { order :=
        { order with
          status := .rejected
          errorMessage := some cfg.rejectReason
          updatedAt := now }
      callbacks := [.order (order.event .rejected cfg.rejectReason now)] }
  else
    let submitted := order.assigned .submitted order.filledQuantity now
    Turn.after
      [.order (order.event .submitted "Order accepted by mock broker exchange" now)]
      (if ¬ cfg.autoFill then { order := submitted }
        else if 0 < cfg.fillDelaySeconds then { order := submitted, stage := .filling }
        else submitted.fillPhase cfg now)

/-- **`_simulate_order_lifecycle`**, from a sleep to the next. -/
def turn (cfg : MockBrokerConfig) (order : MockOrder) (draw : ℚ) (now : Time) :
    LifecycleStage → Turn
  | .starting =>
    if 0 < cfg.acceptanceDelaySeconds then { order := order, stage := .accepting }
    else order.acceptPhase cfg draw now
  | .accepting => order.acceptPhase cfg draw now
  | .filling => order.fillPhase cfg now
  | .finishing partialQty => order.finish partialQty now
  | .ended => { order := order }

/-! ### A turn and the lifecycle -/

/-- What is filled of the order is no negative number, unless that is
configured. -/
def Counted (cfg : MockBrokerConfig) (order : MockOrder) : Prop :=
  0 ≤ order.filledQuantity ∨ cfg.partialFillQty = some order.filledQuantity

/-- **The order is as the place of its task has it.** -/
def AtStage (cfg : MockBrokerConfig) (order : MockOrder) : LifecycleStage → Prop
  | .starting | .accepting =>
    (order.status = .new ∨ order.status = .cancelled) ∧ order.filledQuantity = 0
  | .filling =>
    (order.status = .submitted ∨ order.status = .cancelled) ∧ order.filledQuantity = 0
  | .finishing partialQty =>
    (order.status = .partiallyFilled ∨ order.status = .cancelled)
      ∧ order.filledQuantity = partialQty ∧ 0 < partialQty ∧ partialQty < order.plan.quantity
  | .ended =>
    (order.status = .cancelled ∨ order.status = .rejected)
        ∧ order.filledQuantity < order.plan.quantity ∧ order.Counted cfg
      ∨ order.status = .filled ∧ order.filledQuantity = order.plan.quantity
      ∨ order.status = .submitted ∧ cfg.autoFill = false ∧ order.filledQuantity = 0
      ∨ order.status = .partiallyFilled ∧ order.filledQuantity ≤ 0
        ∧ cfg.partialFillQty = some order.filledQuantity

/-- An order is filled when all of it is. -/
theorem AtStage.filled_iff {cfg : MockBrokerConfig} {order : MockOrder} {stage : LifecycleStage}
    (h : order.AtStage cfg stage) :
    order.status = .filled ↔ order.filledQuantity = order.plan.quantity := by
  have hquantity := order.plan.quantity_pos
  have hno : ∀ status, order.status = status → status ≠ .filled →
      order.filledQuantity < order.plan.quantity →
      (order.status = .filled ↔ order.filledQuantity = order.plan.quantity) :=
    fun status hs hne hlt => iff_of_false (fun heq => hne (hs.symm.trans heq)) hlt.ne
  cases stage with
  | starting | accepting | filling =>
    rcases h with ⟨hs | hs, hnone⟩
    · exact hno _ hs nofun (by omega)
    · exact hno _ hs nofun (by omega)
  | finishing partialQty =>
    rcases h with ⟨hs | hs, hfilled, -, hlt⟩
    · exact hno _ hs nofun (hfilled ▸ hlt)
    · exact hno _ hs nofun (hfilled ▸ hlt)
  | ended =>
    rcases h with ⟨hs | hs, hlt, -⟩ | ⟨hs, hall⟩ | ⟨hs, -, hnone⟩ | ⟨hs, hnone, -⟩
    · exact hno _ hs nofun hlt
    · exact hno _ hs nofun hlt
    · exact iff_of_true hs hall
    · exact hno _ hs nofun (by omega)
    · exact hno _ hs nofun (by omega)

theorem AtStage.counted {cfg : MockBrokerConfig} {order : MockOrder} {stage : LifecycleStage}
    (h : order.AtStage cfg stage) : order.Counted cfg := by
  cases stage with
  | starting | accepting | filling => exact .inl h.2.ge
  | finishing partialQty => exact .inl (h.2.1 ▸ h.2.2.1.le)
  | ended =>
    rcases h with ⟨-, -, hcounted⟩ | ⟨-, hall⟩ | ⟨-, -, hnone⟩ | ⟨-, -, hqty⟩
    · exact hcounted
    · exact .inl (by omega)
    · exact .inl hnone.ge
    · exact .inr hqty

end MockOrder

/-- **A turn is a piece of the lifecycle** of its order, and leaves it as the
place of the task has it. -/
structure Turn.Sound (cfg : MockBrokerConfig) (order : MockOrder) (turn : Turn) : Prop where
  orderId : turn.order.orderId = order.orderId
  plan : turn.order.plan = order.plan
  about : ∀ callback ∈ turn.callbacks, callback.orderId = order.orderId
  run : (lifecycle order.plan).run order.standing turn.callbacks = some turn.order.standing
  stage : turn.order.AtStage cfg turn.stage

section Turns

variable {cfg : MockBrokerConfig} {order : MockOrder} {turn : Turn} {now : Time}

/-- A turn that does nothing. -/
theorem Turn.Sound.idle {stage : LifecycleStage} (h : order.AtStage cfg stage) :
    Turn.Sound cfg order { order := order, stage := stage } where
  orderId := rfl
  plan := rfl
  about := fun _ hmem => absurd hmem List.not_mem_nil
  run := rfl
  stage := h

/-- A turn after some calls of the callbacks. -/
theorem Turn.Sound.after (mid : MockOrder) {callbacks : List BrokerCallback}
    (hid : mid.orderId = order.orderId)
    (hplan : mid.plan = order.plan)
    (habout : ∀ callback ∈ callbacks, callback.orderId = order.orderId)
    (hrun : (lifecycle order.plan).run order.standing callbacks = some mid.standing)
    (h : turn.Sound cfg mid) : (turn.after callbacks).Sound cfg order where
  orderId := h.orderId.trans hid
  plan := h.plan.trans hplan
  about := fun callback hmem => (List.mem_append.mp hmem).elim (habout callback)
    fun hmem => (h.about callback hmem).trans hid
  run := Machine.run_append_some.mpr ⟨_, hrun, hplan ▸ h.run⟩
  stage := h.stage

namespace MockOrder

/-- A change of status that there is. -/
theorem run_event {status : OrderStatus} {message : String} {executed : ℕ}
    (hmay : order.status.mayBecome status = true)
    (hexecuted : order.filledQuantity.toNat = executed) :
    (lifecycle order.plan).step order.standing (.order (order.event status message now))
      = some ⟨status, executed⟩ := by
  subst hexecuted
  exact if_pos ⟨rfl, hmay⟩

/-- What the fill of some of an order has of it. -/
theorem of_fillEvent {fill : FillEvent} {qty : ℤ} (h : order.fillEvent qty now = some fill) :
    0 < qty ∧ fill.orderId = order.orderId ∧ fill.Matches order.plan
      ∧ fill.filledQuantity = qty.toNat := by
  unfold fillEvent at h
  rw [Option.dite_none_right_eq_some] at h
  obtain ⟨hpos, heq⟩ := h
  obtain rfl := Option.some.inj heq
  exact ⟨hpos, rfl, ⟨rfl, rfl, rfl, rfl⟩, rfl⟩

/-- A fill of an order that is being filled. -/
theorem run_fillEvent {status : OrderStatus} {fill : FillEvent} {qty : ℤ} {executed : ℕ}
    (hstatus : status = .partiallyFilled ∨ status = .filled)
    (hfill : order.fillEvent qty now = some fill)
    (hle : executed + qty.toNat ≤ order.plan.quantity) :
    (lifecycle order.plan).step ⟨status, executed⟩ (.fill fill)
      = some ⟨status, executed + qty.toNat⟩ := by
  obtain ⟨-, -, hmatches, hqty⟩ := of_fillEvent hfill
  rw [← hqty] at hle ⊢
  exact if_pos ⟨hstatus, hmatches, hle⟩

/-- The order is filled up by what is missing of it. -/
theorem sound_fillUp {message : String} {qty : ℤ} (hpos : 0 < qty)
    (hmay : order.status.mayBecome .filled = true) (hfilled : 0 ≤ order.filledQuantity)
    (hqty : order.filledQuantity + qty = order.plan.quantity) :
    (order.fillUp qty message now).Sound cfg order := by
  obtain ⟨fill, hfill⟩ : ∃ fill, order.fillEvent qty now = some fill := ⟨_, dif_pos hpos⟩
  have hcallbacks : (order.fillUp qty message now).callbacks
      = [.order (order.event .filled message now), .fill fill] := by
    unfold fillUp
    rw [hfill]
    rfl
  have hsum : order.filledQuantity.toNat + qty.toNat = order.plan.quantity := by omega
  refine ⟨rfl, rfl, ?_, ?_, .inr (.inl ⟨rfl, rfl⟩)⟩
  · rw [hcallbacks]
    simp [BrokerCallback.orderId, event, (of_fillEvent hfill).2.1]
  · rw [hcallbacks, Machine.run_cons, run_event hmay rfl, Option.bind_some, Machine.run_cons,
      run_fillEvent (.inr rfl) hfill hsum.le, hsum]
    rfl

theorem sound_finish {partialQty : ℤ} (h : order.AtStage cfg (.finishing partialQty)) :
    (order.finish partialQty now).Sound cfg order := by
  obtain ⟨hstatus, hfilled, hpos, hlt⟩ := h
  unfold finish
  split_ifs with hcancelled
  · exact .idle (.inl ⟨.inl hcancelled, hfilled ▸ hlt, .inl (hfilled ▸ hpos.le)⟩)
  · have hpart := hstatus.resolve_right hcancelled
    exact sound_fillUp (Int.sub_pos.mpr hlt) (by rw [hpart]; rfl) (hfilled ▸ hpos.le)
      (by rw [hfilled, add_sub_cancel])

theorem sound_fillPart {partialQty : ℤ} (hsubmitted : order.status = .submitted)
    (hnone : order.filledQuantity = 0) (hcfg : cfg.partialFillQty = some partialQty)
    (hlt : partialQty < order.plan.quantity) :
    (order.fillPart cfg partialQty now).Sound cfg order := by
  have hmay : order.status.mayBecome .partiallyFilled = true := by rw [hsubmitted]; rfl
  have hevent : (lifecycle order.plan).step order.standing (.order
      (order.event .partiallyFilled s!"Partial fill executed: {partialQty} shares" now))
      = some ⟨.partiallyFilled, 0⟩ := run_event hmay (by rw [hnone]; rfl)
  unfold fillPart
  cases hfill : order.fillEvent partialQty now with
  | none =>
    -- the quantity of the configuration is no quantity to fill
    have hle : partialQty ≤ 0 := not_lt.mp fun hpos => by
      rw [fillEvent, dif_pos hpos] at hfill
      cases hfill
    refine ⟨rfl, rfl, by simp [BrokerCallback.orderId, event], ?_,
      .inr (.inr (.inr ⟨rfl, hle, hcfg⟩))⟩
    rw [Machine.run_cons, hevent, Option.bind_some, Machine.run_nil, standing,
      show (order.assigned .partiallyFilled partialQty now).filledQuantity.toNat = 0 from
        Int.toNat_of_nonpos hle]
    rfl
  | some fill =>
    obtain ⟨hpos, hid, -, -⟩ := of_fillEvent hfill
    have hstage : (order.assigned .partiallyFilled partialQty now).AtStage cfg
        (.finishing partialQty) := ⟨.inl rfl, rfl, hpos, hlt⟩
    refine Turn.Sound.after (order.assigned .partiallyFilled partialQty now) rfl rfl ?_ ?_ ?_
    · simp [BrokerCallback.orderId, event, hid]
    · rw [Machine.run_cons, hevent, Option.bind_some, Machine.run_cons,
        run_fillEvent (.inl rfl) hfill (by omega), zero_add]
      rfl
    · split_ifs
      · exact .idle hstage
      · exact sound_finish hstage

theorem sound_fillPhase (h : order.AtStage cfg .filling) :
    (order.fillPhase cfg now).Sound cfg order := by
  have hquantity := order.plan.quantity_pos
  obtain ⟨hstatus, hnone⟩ := h
  unfold fillPhase
  split_ifs with hcancelled
  · exact .idle (.inl ⟨.inl hcancelled, by omega, .inl hnone.ge⟩)
  · have hsubmitted := hstatus.resolve_right hcancelled
    cases hpartial : cfg.partialFillQty.filter (fun qty : ℤ => qty < order.plan.quantity) with
    | none =>
      exact sound_fillUp (Int.natCast_pos.mpr hquantity) (by rw [hsubmitted]; rfl) hnone.ge
        (by rw [hnone, zero_add])
    | some partialQty =>
      obtain ⟨hcfg, hlt⟩ := Option.filter_eq_some_iff.mp hpartial
      exact sound_fillPart hsubmitted hnone hcfg (of_decide_eq_true hlt)

theorem sound_acceptPhase {draw : ℚ} (h : order.AtStage cfg .accepting) :
    (order.acceptPhase cfg draw now).Sound cfg order := by
  have hquantity := order.plan.quantity_pos
  obtain ⟨hstatus, hnone⟩ := h
  have hlt : order.filledQuantity < order.plan.quantity := by omega
  unfold acceptPhase
  by_cases hcancelled : order.status = .cancelled
  · rw [if_pos hcancelled]
    exact .idle (.inl ⟨.inl hcancelled, hlt, .inl hnone.ge⟩)
  have hnew := hstatus.resolve_right hcancelled
  rw [if_neg hcancelled]
  by_cases hdraw : draw < cfg.rejectProbability
  · rw [if_pos hdraw]
    refine ⟨rfl, rfl, by simp [BrokerCallback.orderId, event], ?_,
      .inl ⟨.inr rfl, hlt, .inl hnone.ge⟩⟩
    rw [Machine.run_cons, run_event (by rw [hnew]; rfl) rfl]
    rfl
  · have hstage : (order.assigned .submitted order.filledQuantity now).AtStage cfg .filling :=
      ⟨.inl rfl, hnone⟩
    rw [if_neg hdraw]
    refine Turn.Sound.after (order.assigned .submitted order.filledQuantity now) rfl rfl
      (by simp [BrokerCallback.orderId, event]) ?_ ?_
    · rw [Machine.run_cons, run_event (by rw [hnew]; rfl) rfl]
      rfl
    · split_ifs with hauto
      · exact .idle hstage
      · exact sound_fillPhase hstage
      · exact .idle (.inr (.inr (.inl ⟨rfl, by simpa using hauto, hnone⟩)))

/-- **Every turn is a piece of the lifecycle.** -/
theorem sound_turn {draw : ℚ} {stage : LifecycleStage} (h : order.AtStage cfg stage) :
    (order.turn cfg draw now stage).Sound cfg order := by
  cases stage with
  | starting =>
    unfold turn
    split_ifs
    · exact .idle h
    · exact sound_acceptPhase h
  | accepting => exact sound_acceptPhase h
  | filling => exact sound_fillPhase h
  | finishing partialQty => exact sound_finish h
  | ended => exact .idle h

end MockOrder

end Turns

/-! ## The broker -/

/-- A task of `active_tasks`: of which order, and where it is. -/
structure LifecycleTask where
  brokerOrderId : BrokerOrderId
  stage : LifecycleStage
  deriving DecidableEq

/-- **The state of `MockBrokerClient`**: its connection, its orders and their
tasks, the positions that the fills have led to, and the calls of its callbacks
so far. -/
structure MockBroker where
  connected : Bool
  orders : InsertionDict BrokerOrderId MockOrder := .empty
  tasks : List LifecycleTask := []
  dynamicPositions : List Position := []
  callbacks : List BrokerCallback := []

/-- The net of a position and of a fill for it. -/
def Position.newNet (fill : FillEvent) (pos : Position) : ℤ :=
  pos.side.sign * pos.quantity + fill.side.sign * fill.filledQuantity

/-- The position with that net. -/
def Position.updatedBy (fill : FillEvent) (pos : Position) : Position :=
  { pos with
    quantity := (pos.newNet fill).natAbs
    side := if 0 < pos.newNet fill then .buy else .sell
    status := .opened
    updatedAt := fill.timestamp }

/-- The position of a fill that there was none for. -/
def Position.simulated (pid : PositionId) (fill : FillEvent) : Position where
  positionId := pid
  strategyId := fill.strategyId
  contract := fill.contract
  side := fill.side
  quantity := fill.filledQuantity
  filledQuantity := 0
  averageEntryPrice := fill.fillPrice
  status := .opened
  entryOrderId := fill.orderId
  createdAt := fill.timestamp
  updatedAt := fill.timestamp

/-- The position is of the strategy and the contract of the fill. -/
def Position.isOf (fill : FillEvent) (pos : Position) : Bool :=
  pos.strategyId = fill.strategyId ∧ pos.contract.identity = fill.contract.identity

/-- **`_update_dynamic_positions`**, for an order and a quantity that are those of
its fill. -/
def updateDynamicPositions (pid : PositionId) (fill : FillEvent) (positions : List Position) :
    List Position :=
  match positions.findIdx? (Position.isOf fill) with
  | some i =>
    if positions[i]?.any fun pos => pos.newNet fill = 0 then positions.eraseIdx i
    else positions.modify i (.updatedBy fill)
  | none => positions ++ [.simulated pid fill]

namespace MockBroker

/-- The state before any call. -/
def initial (cfg : MockBrokerConfig) : MockBroker where
  connected := cfg.connectedInitially

/-- The callbacks are called, and after a fill its position is brought up to
date. -/
def tell (broker : MockBroker) : BrokerCallback → MockBroker
  | .order event => { broker with callbacks := broker.callbacks ++ [.order event] }
  | .fill event =>
    { broker with
      callbacks := broker.callbacks ++ [.fill event]
      dynamicPositions :=
        updateDynamicPositions broker.callbacks.length event broker.dynamicPositions }

/-- **`place_order`**, where the broker id that is drawn is `id`. -/
def placeOrder (broker : MockBroker) (plan : OrderPlan) (id : BrokerOrderId) (now : Time) :
    Except String MockBroker :=
  if ¬ broker.connected then .error "Cannot place order: Broker disconnected"
  else
    .ok
      { broker with
        orders := broker.orders.set id
          { orderId := broker.tasks.length, plan := plan, createdAt := now, updatedAt := now }
        tasks := broker.tasks ++ [⟨id, .starting⟩] }

/-- **`cancel_order`**: the broker afterwards, and whether the order was
cancelled. -/
def cancelOrder (broker : MockBroker) (id : BrokerOrderId) (now : Time) :
    Except String (MockBroker × Bool) :=
  if ¬ broker.connected then .error "Cannot cancel order: Broker disconnected"
  else
    match broker.orders.get? id with
    | none => .ok (broker, false)
    | some order =>
      if order.status.terminal then .ok (broker, false)
      else
        let cancelled := order.assigned .cancelled order.filledQuantity now
        let event := order.event .cancelled "Order cancelled by user" now
        .ok (tell { broker with orders := broker.orders.set id cancelled } (.order event), true)

/-- `get_order_status`. -/
def getOrderStatus (broker : MockBroker) (id : BrokerOrderId) : Option OrderStatus :=
  (broker.orders.get? id).map (·.status)

/-- **`get_positions`**: those of the configuration, where it has some. -/
def getPositions (cfg : MockBrokerConfig) (broker : MockBroker) :
    Except String (List Position) :=
  if ¬ broker.connected then .error "Cannot fetch positions: Broker disconnected"
  else .ok (if cfg.simulatedPositions ≠ [] then cfg.simulatedPositions
    else broker.dynamicPositions)

/-- **The task at a place goes on**, with what it draws; a task at its end does
not. -/
def resume (cfg : MockBrokerConfig) (broker : MockBroker) (i : ℕ) (draw : ℚ) (now : Time) :
    Option MockBroker :=
  (broker.tasks[i]?.filter (·.stage ≠ .ended)).map fun task =>
    match broker.orders.get? task.brokerOrderId with
    | none => { broker with tasks := broker.tasks.set i ⟨task.brokerOrderId, .ended⟩ }
    | some order =>
      let turn := order.turn cfg draw now task.stage
      turn.callbacks.foldl tell
        { broker with
          orders := broker.orders.set task.brokerOrderId turn.order
          tasks := broker.tasks.set i ⟨task.brokerOrderId, turn.stage⟩ }

/-- A step: a call of the broker, or a task that goes on. -/
inductive Label where
  | connect
  | disconnect
  | place (plan : OrderPlan) (id : BrokerOrderId) (now : Time)
  | cancel (id : BrokerOrderId) (now : Time)
  | resume (i : ℕ) (draw : ℚ) (now : Time)

/-- The task that goes on. -/
def Label.resumed : Label → Option ℕ
  | .resume i _ _ => some i
  | _ => none

/-- A step; a call that raises has none. -/
def step (cfg : MockBrokerConfig) (broker : MockBroker) : Label → Option MockBroker
  | .connect => some { broker with connected := true }
  | .disconnect => some { broker with connected := false }
  | .place plan id now => (broker.placeOrder plan id now).toOption
  | .cancel id now => (broker.cancelOrder id now).toOption.map Prod.fst
  | .resume i draw now => broker.resume cfg i draw now

/-- **The mock broker**, under its calls and its tasks in any order. -/
def machine (cfg : MockBrokerConfig) : Machine MockBroker Label := ⟨step cfg⟩

/-- The broker id that an order is placed with is not in use: it has eight
digits of a fresh `uuid4()`. -/
def FreshId (broker : MockBroker) : Label → Prop
  | .place _ id _ => id ∉ broker.orders.keys
  | _ => True

instance (broker : MockBroker) : ∀ l, Decidable (broker.FreshId l)
  | .place _ id _ => inferInstanceAs (Decidable (id ∉ broker.orders.keys))
  | .connect | .disconnect | .cancel .. | .resume .. => isTrue trivial

/-- What the callbacks were told of an order. -/
def callbacksOf (broker : MockBroker) (o : OrderId) : List BrokerCallback :=
  broker.callbacks.filter (·.orderId = o)

/-- What the callbacks were told of fills. -/
def fills (broker : MockBroker) : List FillEvent := fillsOf broker.callbacks

/-! ### What the broker keeps -/

variable {cfg : MockBrokerConfig} {broker : MockBroker}

theorem foldl_tell (callbacks : List BrokerCallback) :
    (callbacks.foldl tell broker).orders = broker.orders
      ∧ (callbacks.foldl tell broker).tasks = broker.tasks
      ∧ (callbacks.foldl tell broker).callbacks = broker.callbacks ++ callbacks := by
  induction callbacks generalizing broker with
  | nil => exact ⟨rfl, rfl, (List.append_nil _).symm⟩
  | cons callback callbacks ih =>
    obtain ⟨horders, htasks, hcallbacks⟩ := @ih (broker.tell callback)
    rw [List.foldl_cons, horders, htasks, hcallbacks]
    cases callback <;> exact ⟨rfl, rfl, List.append_assoc ..⟩

/-- The order of a task is as the place of the task has it, and what was told of
it is a run of its lifecycle. -/
structure Accounts (cfg : MockBrokerConfig) (broker : MockBroker) (i : ℕ)
    (task : LifecycleTask) (order : MockOrder) : Prop where
  get : broker.orders.get? task.brokerOrderId = some order
  orderId : order.orderId = i
  stage : order.AtStage cfg task.stage
  run : (lifecycle order.plan).run ⟨.new, 0⟩ (broker.callbacksOf i) = some order.standing

/-- **What the broker keeps**: a task for each order, in the order in which they
were placed, and the accounts of each. -/
structure Kept (cfg : MockBrokerConfig) (broker : MockBroker) : Prop where
  keys : broker.orders.keys = broker.tasks.map (·.brokerOrderId)
  told : ∀ callback ∈ broker.callbacks, callback.orderId < broker.tasks.length
  accounts : ∀ i task, broker.tasks[i]? = some task →
    ∃ order, Accounts cfg broker i task order

theorem kept_initial : Kept cfg (initial cfg) where
  keys := rfl
  told := fun _ h => absurd h List.not_mem_nil
  accounts := fun _ _ h => by cases h

/-- The task of an order. -/
theorem Kept.task_of_get (h : Kept cfg broker) {id : BrokerOrderId} {order : MockOrder}
    (hget : broker.orders.get? id = some order) :
    ∃ i task, broker.tasks[i]? = some task ∧ task.brokerOrderId = id
      ∧ Accounts cfg broker i task order := by
  have hid : id ∈ broker.orders.keys := InsertionDict.isSome_get?.mp (by rw [hget]; rfl)
  rw [h.keys] at hid
  obtain ⟨task, hmem, rfl⟩ := List.mem_map.mp hid
  obtain ⟨i, hi⟩ := List.mem_iff_getElem?.mp hmem
  obtain ⟨order', haccounts⟩ := h.accounts i task hi
  obtain rfl := Option.some.inj (hget.symm.trans haccounts.get)
  exact ⟨i, task, hi, rfl, haccounts⟩

/-- Two tasks of one order are one. -/
theorem Kept.index_eq (h : Kept cfg broker) {i j : ℕ} {task other : LifecycleTask}
    (hi : broker.tasks[i]? = some task) (hj : broker.tasks[j]? = some other)
    (hid : other.brokerOrderId = task.brokerOrderId) : j = i := by
  have hnodup : (broker.tasks.filterMap (some ·.brokerOrderId)).Nodup := by
    rw [List.filterMap_eq_map', ← h.keys]
    exact broker.orders.nodup_keys
  exact List.index_eq_of_filterMap_nodup hnodup hj hi rfl (congrArg some hid.symm)

/-- What is told of one order is told of no other. -/
theorem callbacksOf_append {callbacks : List BrokerCallback} {i : ℕ}
    (h : ∀ callback ∈ callbacks, callback.orderId = i) (j : ℕ) :
    (broker.callbacks ++ callbacks).filter (·.orderId = j)
      = broker.callbacksOf j ++ if i = j then callbacks else [] := by
  rw [List.filter_append, callbacksOf]
  congr 1
  split_ifs with hj
  · exact List.filter_eq_self.mpr fun callback hmem => decide_eq_true ((h callback hmem).trans hj)
  · exact List.filter_eq_nil_iff.mpr fun callback hmem hid =>
      hj ((h callback hmem).symm.trans (of_decide_eq_true hid))

/-- **A turn of one order keeps the accounts of all.** -/
theorem Kept.turn (h : Kept cfg broker) {i : ℕ} {task : LifecycleTask} {order : MockOrder}
    {turn : Turn} (hi : broker.tasks[i]? = some task) (haccounts : Accounts cfg broker i task order)
    (hsound : turn.Sound cfg order) :
    Kept cfg (turn.callbacks.foldl tell
      { broker with
        orders := broker.orders.set task.brokerOrderId turn.order
        tasks := broker.tasks.set i ⟨task.brokerOrderId, turn.stage⟩ }) := by
  have hid : ∀ callback ∈ turn.callbacks, callback.orderId = i :=
    fun callback hmem => (hsound.about callback hmem).trans haccounts.orderId
  obtain ⟨horders, htasks, hcallbacks⟩ := @foldl_tell
    { broker with
      orders := broker.orders.set task.brokerOrderId turn.order
      tasks := broker.tasks.set i ⟨task.brokerOrderId, turn.stage⟩ } turn.callbacks
  have hlt : i < broker.tasks.length := (List.getElem?_eq_some_iff.mp hi).1
  have hmem : task.brokerOrderId ∈ broker.orders.keys :=
    InsertionDict.isSome_get?.mp (by rw [haccounts.get]; rfl)
  refine ⟨?_, ?_, ?_⟩
  · rw [horders, htasks, InsertionDict.keys_set, if_pos hmem, h.keys]
    exact (List.map_set_eq (g := (·.brokerOrderId)) (b := ⟨task.brokerOrderId, turn.stage⟩)
      hi rfl).symm
  · rw [htasks, hcallbacks, List.length_set]
    exact fun callback hcallback => (List.mem_append.mp hcallback).elim (h.told callback)
      fun hnew => (hid callback hnew).symm ▸ hlt
  · intro j other hj
    rw [htasks, List.getElem?_set] at hj
    by_cases hij : i = j
    · subst hij
      rw [if_pos rfl, if_pos hlt] at hj
      obtain rfl := Option.some.inj hj
      refine ⟨turn.order, ?_, hsound.orderId.trans haccounts.orderId, hsound.stage, ?_⟩
      · rw [horders, InsertionDict.get?_set, if_pos rfl]
      · rw [callbacksOf, hcallbacks, callbacksOf_append hid, if_pos rfl, hsound.plan]
        exact Machine.run_append_some.mpr ⟨_, haccounts.run, hsound.run⟩
    · rw [if_neg hij] at hj
      obtain ⟨order', hother⟩ := h.accounts j other hj
      refine ⟨order', ?_, hother.orderId, hother.stage, ?_⟩
      · rw [horders, InsertionDict.get?_set, if_neg fun heq => hij (h.index_eq hi hj heq).symm]
        exact hother.get
      · rw [callbacksOf, hcallbacks, callbacksOf_append hid, if_neg hij, List.append_nil]
        exact hother.run

/-- A cancellation is a turn that leaves the task where it is. -/
theorem sound_cancel {order : MockOrder} {stage : LifecycleStage} (now : Time)
    (h : order.AtStage cfg stage) (hactive : order.status.terminal = false) :
    Turn.Sound cfg order
      { order := order.assigned .cancelled order.filledQuantity now
        callbacks := [.order (order.event .cancelled "Order cancelled by user" now)]
        stage := stage } := by
  have hquantity := order.plan.quantity_pos
  have hmay : order.status.mayBecome .cancelled = true
      ∧ (order.assigned .cancelled order.filledQuantity now).AtStage cfg stage := by
    cases stage with
    | starting | accepting =>
      rcases h with ⟨hs | hs, hnone⟩
      · exact ⟨by rw [hs]; rfl, .inr rfl, hnone⟩
      · rw [hs] at hactive; cases hactive
    | filling =>
      rcases h with ⟨hs | hs, hnone⟩
      · exact ⟨by rw [hs]; rfl, .inr rfl, hnone⟩
      · rw [hs] at hactive; cases hactive
    | finishing partialQty =>
      rcases h with ⟨hs | hs, hpart⟩
      · exact ⟨by rw [hs]; rfl, .inr rfl, hpart⟩
      · rw [hs] at hactive; cases hactive
    | ended =>
      rcases h with ⟨hs | hs, -⟩ | ⟨hs, -⟩ | ⟨hs, -, hnone⟩ | ⟨hs, hnone, hqty⟩
      · rw [hs] at hactive; cases hactive
      · rw [hs] at hactive; cases hactive
      · rw [hs] at hactive; cases hactive
      · refine ⟨by rw [hs]; rfl, .inl ⟨.inl rfl, ?_, .inl hnone.ge⟩⟩
        show order.filledQuantity < order.plan.quantity
        omega
      · refine ⟨by rw [hs]; rfl, .inl ⟨.inl rfl, ?_, .inr hqty⟩⟩
        show order.filledQuantity < order.plan.quantity
        omega
  refine ⟨rfl, rfl, by simp [BrokerCallback.orderId, MockOrder.event], ?_, hmay.2⟩
  rw [Machine.run_cons, MockOrder.run_event hmay.1 rfl]
  rfl

/-- **What a step does**: nothing to the orders, or one order is placed, or one
takes a turn. -/
inductive Effect (cfg : MockBrokerConfig) (broker : MockBroker) : MockBroker → Prop
  | connection (connected : Bool) : Effect cfg broker { broker with connected := connected }
  | placed (plan : OrderPlan) (id : BrokerOrderId) (now : Time) :
    id ∉ broker.orders.keys → Effect cfg broker
      { broker with
        orders := broker.orders.set id
          { orderId := broker.tasks.length, plan := plan, createdAt := now, updatedAt := now }
        tasks := broker.tasks ++ [⟨id, .starting⟩] }
  | turned (i : ℕ) (task : LifecycleTask) (order : MockOrder) (turn : Turn) :
    broker.tasks[i]? = some task → Accounts cfg broker i task order → turn.Sound cfg order →
    Effect cfg broker (turn.callbacks.foldl tell
      { broker with
        orders := broker.orders.set task.brokerOrderId turn.order
        tasks := broker.tasks.set i ⟨task.brokerOrderId, turn.stage⟩ })

theorem eq_ok_of_toOption {α : Type} {result : Except String α} {a : α}
    (h : result.toOption = some a) : result = .ok a := by
  cases result with
  | error message => cases h
  | ok b => exact congrArg _ (Option.some.inj h)

theorem Kept.effect_cancelOrder (h : Kept cfg broker) {id : BrokerOrderId} {now : Time}
    {result : MockBroker × Bool} (hcancel : broker.cancelOrder id now = .ok result) :
    Effect cfg broker result.1 := by
  unfold MockBroker.cancelOrder at hcancel
  split_ifs at hcancel
  split at hcancel
  · obtain rfl := Except.ok.inj hcancel
    exact .connection _
  · next order hget =>
    split_ifs at hcancel with hterminal
    · obtain rfl := Except.ok.inj hcancel
      exact .connection _
    · obtain rfl := Except.ok.inj hcancel
      obtain ⟨i, task, hi, rfl, haccounts⟩ := h.task_of_get hget
      have heffect := Effect.turned i task order _ hi haccounts
        (sound_cancel now haccounts.stage (by simpa using hterminal))
      -- the task is where it was
      have hsame : broker.tasks.set i ⟨task.brokerOrderId, task.stage⟩ = broker.tasks := by
        obtain ⟨hlt, heq⟩ := List.getElem?_eq_some_iff.mp hi
        show broker.tasks.set i task = broker.tasks
        rw [← heq, List.set_getElem_self]
      rwa [hsame] at heffect

/-- **Every step has such an effect**, where the ids that orders are placed with
are fresh. -/
theorem Kept.effect (h : Kept cfg broker) {l : Label} {t : MockBroker}
    (hstep : (machine cfg).step broker l = some t) (hfresh : broker.FreshId l) :
    Effect cfg broker t := by
  cases l with
  | connect =>
    obtain rfl := Option.some.inj hstep
    exact .connection true
  | disconnect =>
    obtain rfl := Option.some.inj hstep
    exact .connection false
  | place plan id now =>
    have hplace := eq_ok_of_toOption hstep
    unfold placeOrder at hplace
    split_ifs at hplace
    obtain rfl := Except.ok.inj hplace
    exact .placed plan id now hfresh
  | cancel id now =>
    obtain ⟨result, hresult, rfl⟩ := Option.map_eq_some_iff.mp hstep
    exact h.effect_cancelOrder (eq_ok_of_toOption hresult)
  | resume i draw now =>
    obtain ⟨task, htask, rfl⟩ := Option.map_eq_some_iff.mp hstep
    obtain ⟨hi, -⟩ := Option.filter_eq_some_iff.mp htask
    obtain ⟨order, haccounts⟩ := h.accounts i task hi
    rw [haccounts.get]
    exact .turned i task order _ hi haccounts (MockOrder.sound_turn haccounts.stage)

theorem Kept.placed (h : Kept cfg broker) {plan : OrderPlan} {id : BrokerOrderId} {now : Time}
    (hfresh : id ∉ broker.orders.keys) :
    Kept cfg
      { broker with
        orders := broker.orders.set id
          { orderId := broker.tasks.length, plan := plan, createdAt := now, updatedAt := now }
        tasks := broker.tasks ++ [⟨id, .starting⟩] } := by
  refine ⟨?_, ?_, ?_⟩
  · show (broker.orders.set id _).keys = (broker.tasks ++ [_]).map _
    rw [InsertionDict.keys_set, if_neg hfresh, List.map_append, h.keys]
    rfl
  · intro callback hcallback
    show _ < (broker.tasks ++ [_]).length
    rw [List.length_append]
    exact Nat.lt_add_right 1 (h.told callback hcallback)
  · intro j other hj
    rcases List.getElem?_append_cases hj with hj | ⟨rfl, rfl⟩
    · obtain ⟨order, hother⟩ := h.accounts j other hj
      refine ⟨order, ?_, hother.orderId, hother.stage, hother.run⟩
      have hne : other.brokerOrderId ≠ id := fun heq => hfresh (by
        rw [← heq, h.keys]
        exact List.mem_map_of_mem (List.mem_of_getElem? hj))
      rw [InsertionDict.get?_set, if_neg hne]
      exact hother.get
    · refine ⟨_, by rw [InsertionDict.get?_set, if_pos rfl], rfl, ⟨.inl rfl, rfl⟩, ?_⟩
      have hnil : broker.callbacksOf broker.tasks.length = [] :=
        List.filter_eq_nil_iff.mpr fun callback hmem hid =>
          (h.told callback hmem).ne (of_decide_eq_true hid)
      show (lifecycle plan).run ⟨.new, 0⟩ (broker.callbacksOf _) = _
      rw [hnil]
      rfl

theorem Effect.kept {t : MockBroker} (heffect : Effect cfg broker t) (h : Kept cfg broker) :
    Kept cfg t := by
  cases heffect with
  | connection connected =>
    exact ⟨h.keys, h.told, fun i task hi =>
      (h.accounts i task hi).imp fun order ha => ⟨ha.get, ha.orderId, ha.stage, ha.run⟩⟩
  | placed plan id now hfresh => exact h.placed hfresh
  | turned i task order turn hi haccounts hsound => exact h.turn hi haccounts hsound

/-- **No order goes away**, nor what was told of it: its plan and its id stay, and
what is told only grows. -/
theorem Effect.order {t : MockBroker} (heffect : Effect cfg broker t) {id : BrokerOrderId}
    {order : MockOrder} (hget : broker.orders.get? id = some order) :
    broker.callbacks <+: t.callbacks ∧ ∃ order', t.orders.get? id = some order'
      ∧ order'.plan = order.plan ∧ order'.orderId = order.orderId := by
  cases heffect with
  | connection connected => exact ⟨List.prefix_rfl, order, hget, rfl, rfl⟩
  | placed plan other now hfresh =>
    have hne : id ≠ other := fun heq =>
      hfresh (InsertionDict.isSome_get?.mp (by rw [← heq, hget]; rfl))
    refine ⟨List.prefix_rfl, order, ?_, rfl, rfl⟩
    rw [InsertionDict.get?_set, if_neg hne, hget]
  | turned i task other turn hi haccounts hsound =>
    obtain ⟨horders, -, hcallbacks⟩ := @foldl_tell
      { broker with
        orders := broker.orders.set task.brokerOrderId turn.order
        tasks := broker.tasks.set i ⟨task.brokerOrderId, turn.stage⟩ } turn.callbacks
    refine ⟨⟨_, hcallbacks.symm⟩, ?_⟩
    rw [horders, InsertionDict.get?_set]
    by_cases hid : id = task.brokerOrderId
    · subst hid
      obtain rfl := Option.some.inj (hget.symm.trans haccounts.get)
      exact ⟨_, if_pos rfl, hsound.plan, hsound.orderId⟩
    · exact ⟨order, by rw [if_neg hid, hget], rfl, rfl⟩

variable {ls ms : List Label} {s t : MockBroker}

theorem Kept.run (h : Kept cfg s) (hfresh : (machine cfg).Along (fun s l _ => s.FreshId l) s ls)
    (hrun : (machine cfg).run s ls = some t) : Kept cfg t :=
  Machine.run_invariant (fun _ _ _ hs hstep hfresh => (hs.effect hstep hfresh).kept hs) h
    hfresh hrun

theorem Kept.order_run (h : Kept cfg s)
    (hfresh : (machine cfg).Along (fun s l _ => s.FreshId l) s ls)
    (hrun : (machine cfg).run s ls = some t) {id : BrokerOrderId} {order : MockOrder}
    (hget : s.orders.get? id = some order) :
    s.callbacks <+: t.callbacks ∧ ∃ order', t.orders.get? id = some order'
      ∧ order'.plan = order.plan ∧ order'.orderId = order.orderId := by
  refine (Machine.run_invariant (J := fun t => Kept cfg t ∧ s.callbacks <+: t.callbacks
    ∧ ∃ order', t.orders.get? id = some order' ∧ order'.plan = order.plan
      ∧ order'.orderId = order.orderId) ?_ ⟨h, List.prefix_rfl, order, hget, rfl, rfl⟩
    hfresh hrun).2
  rintro t l u ⟨hkept, hprefix, order', hget', hplan, hid⟩ hstep hfresh
  have heffect := hkept.effect hstep hfresh
  obtain ⟨hgrow, order'', hget'', hplan', hid'⟩ := heffect.order hget'
  exact ⟨heffect.kept hkept, hprefix.trans hgrow, order'', hget'', hplan'.trans hplan,
    hid'.trans hid⟩

/-- **What the callbacks are told of an order is a run of its lifecycle**, to how
the order stands. Its fills add up to what is filled of it – a negative number
counts as none, and there is none where the first part is configured positive –,
never to more than was ordered, and to all of that exactly when it is `FILLED`. -/
theorem refines_lifecycle
    (hfresh : (machine cfg).Along (fun s l _ => s.FreshId l) (initial cfg) ls)
    (hrun : (machine cfg).run (initial cfg) ls = some s) {id : BrokerOrderId} {order : MockOrder}
    (hget : s.orders.get? id = some order) :
    (lifecycle order.plan).run ⟨.new, 0⟩ (s.callbacksOf order.orderId) = some order.standing
      ∧ ((fillsOf (s.callbacksOf order.orderId)).map FillEvent.filledQuantity).sum
        = order.filledQuantity.toNat
      ∧ ((∀ qty ∈ cfg.partialFillQty, 0 < qty) →
        (((fillsOf (s.callbacksOf order.orderId)).map FillEvent.filledQuantity).sum : ℤ)
          = order.filledQuantity)
      ∧ order.filledQuantity ≤ order.plan.quantity
      ∧ (order.status = .filled ↔ order.filledQuantity = order.plan.quantity) := by
  obtain ⟨i, task, -, -, haccounts⟩ := (kept_initial.run hfresh hrun).task_of_get hget
  have hlife := haccounts.run
  rw [← haccounts.orderId] at hlife
  have hsum := executed_of_run hlife
  rw [zero_add] at hsum
  refine ⟨hlife, hsum.symm, fun hpart => ?_, ?_, ?_⟩
  · have hnonneg : 0 ≤ order.filledQuantity :=
      haccounts.stage.counted.elim (fun h => h) fun hqty => (hpart _ hqty).le
    rw [← hsum]
    exact Int.toNat_of_nonneg hnonneg
  · have hle : order.filledQuantity.toNat ≤ order.plan.quantity :=
      executed_le_of_run (Nat.zero_le _) hlife
    omega
  · exact haccounts.stage.filled_iff

/-- A broker that sleeps wherever it may, and fills three first. -/
def sampleConfig : MockBrokerConfig where
  acceptanceDelaySeconds := 1
  fillDelaySeconds := 1
  partialFillQty := some 3
  partialFillDelaySeconds := 1

/-- A plan to buy five. -/
def samplePlan : OrderPlan where
  positionId := none
  isEntry := true
  strategyId := "orb"
  contract := sampleContract
  side := .buy
  quantity := 5
  orderType := .lmt
  limitPrice := 1
  orderRef := none
  algo := none
  quantity_pos := Nat.succ_pos 4
  limit_pos := one_dollar_pos

/-- The order is placed, accepted and filled in part. -/
def sampleLabels : List Label :=
  [.place samplePlan 7 0, .resume 0 0 1, .resume 0 0 2, .resume 0 0 3]

/-- An order that is cancelled between its two fills. -/
theorem refines_lifecycle_sampleLabels : ∃ s order,
    (machine sampleConfig).run (initial sampleConfig) (sampleLabels ++ [.cancel 7 4]) = some s
      ∧ s.orders.get? 7 = some order ∧ order.status = .cancelled
      ∧ (lifecycle order.plan).run ⟨.new, 0⟩ (s.callbacksOf order.orderId) = some order.standing
      ∧ ((fillsOf (s.callbacksOf order.orderId)).map FillEvent.filledQuantity).sum
        = order.filledQuantity.toNat
      ∧ ((∀ qty ∈ sampleConfig.partialFillQty, 0 < qty) →
        (((fillsOf (s.callbacksOf order.orderId)).map FillEvent.filledQuantity).sum : ℤ)
          = order.filledQuantity)
      ∧ order.filledQuantity ≤ order.plan.quantity
      ∧ (order.status = .filled ↔ order.filledQuantity = order.plan.quantity) := by
  have hfresh : (machine sampleConfig).Along (fun s l _ => s.FreshId l) (initial sampleConfig)
      (sampleLabels ++ [.cancel 7 4]) := by decide +kernel
  have hrun : ((machine sampleConfig).run (initial sampleConfig)
      (sampleLabels ++ [.cancel 7 4])).any (fun s =>
        (s.orders.get? 7).any (·.status = .cancelled)) = true := by decide +kernel
  obtain ⟨s, hs, hany⟩ := (Option.any_eq_true _ _).mp hrun
  obtain ⟨order, hget, hstatus⟩ := (Option.any_eq_true _ _).mp hany
  exact ⟨s, order, hs, hget, of_decide_eq_true hstatus, refines_lifecycle hfresh hs hget⟩

/-- **Of an order that is done with nothing more is told**, whatever the broker
goes on to do, and it stays as it stands. -/
theorem final_forever
    (hfresh : (machine cfg).Along (fun s l _ => s.FreshId l) (initial cfg) (ls ++ ms))
    (hls : (machine cfg).run (initial cfg) ls = some s) (hms : (machine cfg).run s ms = some t)
    {id : BrokerOrderId} {order : MockOrder} (hget : s.orders.get? id = some order)
    (hfinal : order.standing.Final order.plan) :
    t.callbacksOf order.orderId = s.callbacksOf order.orderId
      ∧ ∃ order', t.orders.get? id = some order' ∧ order'.standing = order.standing := by
  obtain ⟨hfirst, hrest⟩ := Machine.along_append.mp hfresh
  have hkept := kept_initial.run hfirst hls
  obtain ⟨⟨more, hmore⟩, order', hget', hplan, hid⟩ := hkept.order_run (hrest s hls) hms hget
  obtain ⟨i, task, -, -, haccounts⟩ := hkept.task_of_get hget
  obtain ⟨j, task', -, -, haccounts'⟩ := (hkept.run (hrest s hls) hms).task_of_get hget'
  obtain rfl : j = i := haccounts'.orderId.symm.trans (hid.trans haccounts.orderId)
  have hsplit : t.callbacksOf j = s.callbacksOf j ++ more.filter (·.orderId = j) := by
    rw [callbacksOf, ← hmore, List.filter_append, callbacksOf]
  -- what is told later goes on from how the order stands
  have hlife := haccounts'.run
  rw [hsplit, hplan] at hlife
  obtain ⟨u, hu, hlater⟩ := Machine.run_append_some.mp hlife
  obtain rfl := Option.some.inj (haccounts.run.symm.trans hu)
  have hnil := hfinal.nil_of_run hlater
  rw [hnil] at hlater
  rw [haccounts.orderId, hsplit, hnil, List.append_nil]
  exact ⟨rfl, order', hget', (Option.some.inj hlater).symm⟩

/-- The task of the cancelled order goes on and does nothing. -/
theorem final_forever_sampleLabels : ∃ s t order,
    (machine sampleConfig).run (initial sampleConfig) (sampleLabels ++ [.cancel 7 4]) = some s
      ∧ (machine sampleConfig).run s [.resume 0 0 5] = some t
      ∧ s.orders.get? 7 = some order
      ∧ t.callbacksOf order.orderId = s.callbacksOf order.orderId
      ∧ ∃ order', t.orders.get? 7 = some order' ∧ order'.standing = order.standing := by
  have hfresh : (machine sampleConfig).Along (fun s l _ => s.FreshId l) (initial sampleConfig)
      ((sampleLabels ++ [.cancel 7 4]) ++ [.resume 0 0 5]) := by decide +kernel
  have hrun : ((machine sampleConfig).run (initial sampleConfig)
      (sampleLabels ++ [.cancel 7 4])).any (fun s =>
        ((machine sampleConfig).run s [.resume 0 0 5]).isSome
          && (s.orders.get? 7).any (·.status = .cancelled)) = true := by decide +kernel
  obtain ⟨s, hs, hrest⟩ := (Option.any_eq_true _ _).mp hrun
  obtain ⟨hsome, hany⟩ := Bool.and_eq_true_iff.mp hrest
  obtain ⟨t, ht⟩ := Option.isSome_iff_exists.mp hsome
  obtain ⟨order, hget, hstatus⟩ := (Option.any_eq_true _ _).mp hany
  exact ⟨s, t, order, hs, ht, hget,
    final_forever hfresh hs ht hget (.inl (of_decide_eq_true hstatus))⟩

/-! ### How long a task goes on -/

/-- How often a task may go on from there. -/
def rank (broker : MockBroker) (i : ℕ) : ℕ :=
  (broker.tasks[i]?).elim 4 (·.stage.rank)

/-- How often the task at a place went on. -/
def resumes (i : ℕ) (ls : List Label) : ℕ := ls.countP (·.resumed = some i)

/-- A turn of a task leaves less to go on. -/
theorem rank_turn (order : MockOrder) (draw : ℚ) (now : Time) {stage : LifecycleStage}
    (hstage : stage ≠ .ended) : (order.turn cfg draw now stage).stage.rank < stage.rank := by
  have hfinish : ∀ (order : MockOrder) (qty : ℤ), (order.finish qty now).stage.rank = 0 := by
    intro order qty
    unfold MockOrder.finish
    split_ifs <;> rfl
  have hfill : ∀ order : MockOrder, (order.fillPhase cfg now).stage.rank ≤ 1 := by
    intro order
    unfold MockOrder.fillPhase
    split_ifs
    · exact Nat.zero_le 1
    · split
      · unfold MockOrder.fillPart
        split
        · exact Nat.zero_le 1
        · split_ifs
          · exact le_rfl
          · exact (hfinish ..).trans_le (Nat.zero_le 1)
      · exact Nat.zero_le 1
  have haccept : (order.acceptPhase cfg draw now).stage.rank ≤ 2 := by
    unfold MockOrder.acceptPhase
    by_cases hcancelled : order.status = .cancelled
    · rw [if_pos hcancelled]
      exact Nat.zero_le 2
    rw [if_neg hcancelled]
    by_cases hdraw : draw < cfg.rejectProbability
    · rw [if_pos hdraw]
      exact Nat.zero_le 2
    rw [if_neg hdraw]
    show (ite _ _ _ : Turn).stage.rank ≤ 2
    split_ifs
    · exact le_rfl
    · exact (hfill _).trans (Nat.le_succ 1)
    · exact Nat.zero_le 2
  cases stage with
  | starting =>
    unfold MockOrder.turn
    split_ifs
    · exact Nat.lt_succ_self 3
    · exact haccept.trans_lt (by decide)
  | accepting => exact haccept.trans_lt (by decide)
  | filling => exact (hfill order).trans_lt (by decide)
  | finishing qty => exact (hfinish order qty).trans_lt Nat.one_pos
  | ended => exact absurd rfl hstage

/-- The rank of a task that is put in its place. -/
theorem elim_rank_set {tasks : List LifecycleTask} {i j : ℕ} {task : LifecycleTask}
    (hj : j < tasks.length) :
    ((tasks.set j task)[i]?).elim 4 (·.stage.rank)
      = if j = i then task.stage.rank else (tasks[i]?).elim 4 (·.stage.rank) := by
  rw [List.getElem?_set]
  by_cases hij : j = i
  · rw [if_pos hij, if_pos hij, if_pos (hij ▸ hj)]
    rfl
  · rw [if_neg hij, if_neg hij]

/-- Each time it goes on takes from what is left. -/
theorem rank_step {l : Label} (hstep : (machine cfg).step s l = some t) (i : ℕ) :
    t.rank i + resumes i [l] ≤ s.rank i := by
  cases l with
  | connect =>
    obtain rfl := Option.some.inj hstep
    exact le_rfl
  | disconnect =>
    obtain rfl := Option.some.inj hstep
    exact le_rfl
  | place plan id now =>
    have hplace := eq_ok_of_toOption hstep
    unfold placeOrder at hplace
    split_ifs at hplace
    obtain rfl := Except.ok.inj hplace
    show (((s.tasks ++ [_])[i]?).elim 4 _) + 0 ≤ ((s.tasks)[i]?).elim 4 _
    rcases Nat.lt_trichotomy i s.tasks.length with hlt | rfl | hgt
    · rw [List.getElem?_append_left hlt]
      exact le_rfl
    · rw [List.getElem?_append_new _ rfl, List.getElem?_eq_none le_rfl]
      exact le_rfl
    · have hend : (s.tasks ++ [(⟨id, .starting⟩ : LifecycleTask)])[i]? = none :=
        List.getElem?_eq_none (by rw [List.length_append]; exact hgt)
      rw [hend, List.getElem?_eq_none hgt.le]
      exact le_rfl
  | cancel id now =>
    obtain ⟨result, hresult, rfl⟩ := Option.map_eq_some_iff.mp hstep
    have hcancel := eq_ok_of_toOption hresult
    unfold cancelOrder at hcancel
    split_ifs at hcancel
    split at hcancel
    · obtain rfl := Except.ok.inj hcancel
      exact le_rfl
    · split_ifs at hcancel
      · obtain rfl := Except.ok.inj hcancel
        exact le_rfl
      · obtain rfl := Except.ok.inj hcancel
        exact le_rfl
  | resume j draw now =>
    obtain ⟨task, htask, rfl⟩ := Option.map_eq_some_iff.mp hstep
    obtain ⟨hj, hstage⟩ := Option.filter_eq_some_iff.mp htask
    have hlt := (List.getElem?_eq_some_iff.mp hj).1
    -- whatever the turn does, the task is put back with less to go on
    have hput : ∀ (u : MockBroker) (stage : LifecycleStage),
        u.tasks = s.tasks.set j ⟨task.brokerOrderId, stage⟩ → stage.rank < task.stage.rank →
        u.rank i + resumes i [.resume j draw now] ≤ s.rank i := by
      intro u stage htasks hless
      rw [rank, rank, htasks, elim_rank_set hlt, resumes, List.countP_singleton]
      by_cases hij : j = i
      · subst hij
        rw [hj]
        simpa [Label.resumed] using Nat.succ_le_of_lt hless
      · simp [Label.resumed, hij]
    split
    · refine hput _ .ended rfl ?_
      have hended : task.stage ≠ .ended := of_decide_eq_true hstage
      revert hended
      cases task.stage <;> simp [LifecycleStage.rank]
    · exact hput _ _ (foldl_tell _).2.1 (rank_turn _ _ _ (of_decide_eq_true hstage))

theorem rank_run (hrun : (machine cfg).run s ls = some t) (i : ℕ) :
    t.rank i + resumes i ls ≤ s.rank i := by
  induction ls generalizing s with
  | nil =>
    obtain rfl := Option.some.inj hrun
    exact le_rfl
  | cons l ls ih =>
    obtain ⟨u, hu, hrun⟩ := Option.bind_eq_some_iff.mp hrun
    have hstep := rank_step hu i
    have hrest := ih hrun
    have hcount : resumes i (l :: ls) = resumes i [l] + resumes i ls := by
      rw [← List.singleton_append]
      exact List.countP_append
    omega

/-- **Every order comes to be done with**: where orders are filled automatically,
and not first with a quantity that is none, an order whose task has gone on four
times is cancelled, rejected or filled in full. -/
theorem settles (hauto : cfg.autoFill = true) (hpart : ∀ qty ∈ cfg.partialFillQty, 0 < qty)
    (hfresh : (machine cfg).Along (fun s l _ => s.FreshId l) (initial cfg) ls)
    (hrun : (machine cfg).run (initial cfg) ls = some s) {id : BrokerOrderId} {order : MockOrder}
    (hget : s.orders.get? id = some order) (hfour : 4 ≤ resumes order.orderId ls) :
    order.standing.Final order.plan := by
  obtain ⟨i, task, hi, -, haccounts⟩ := (kept_initial.run hfresh hrun).task_of_get hget
  have hrank := rank_run hrun i
  rw [haccounts.orderId] at hfour
  rw [rank, hi] at hrank
  have hzero : task.stage.rank = 0 := by
    have hfull : (initial cfg).rank i = 4 := rfl
    have hsome : (some task).elim 4 (fun task => task.stage.rank) = task.stage.rank := rfl
    omega
  have hstage := haccounts.stage
  obtain hended : task.stage = .ended := by
    revert hzero
    cases task.stage <;> simp [LifecycleStage.rank]
  rw [hended] at hstage
  rcases hstage with ⟨hs | hs, -⟩ | ⟨hs, hall⟩ | ⟨-, hmanual, -⟩ | ⟨-, hnone, hqty⟩
  · exact .inl hs
  · exact .inr (.inl hs)
  · exact .inr (.inr ⟨hs, by rw [MockOrder.standing, hall, Int.toNat_natCast]⟩)
  · exact absurd (hauto.symm.trans hmanual) nofun
  · exact absurd (hpart _ hqty) hnone.not_gt

/-- The fourth time it goes on, the order is filled in full. -/
theorem settles_sampleLabels : ∃ s order,
    (machine sampleConfig).run (initial sampleConfig) (sampleLabels ++ [.resume 0 0 4])
        = some s
      ∧ s.orders.get? 7 = some order ∧ order.standing.Final order.plan := by
  have hfresh : (machine sampleConfig).Along (fun s l _ => s.FreshId l) (initial sampleConfig)
      (sampleLabels ++ [.resume 0 0 4]) := by decide +kernel
  have hpart : ∀ qty ∈ sampleConfig.partialFillQty, 0 < qty := by decide
  have hrun : ((machine sampleConfig).run (initial sampleConfig)
      (sampleLabels ++ [.resume 0 0 4])).any (fun s =>
        (s.orders.get? 7).any fun order =>
          4 ≤ resumes order.orderId (sampleLabels ++ [.resume 0 0 4])) = true := by
    decide +kernel
  obtain ⟨s, hs, hany⟩ := (Option.any_eq_true _ _).mp hrun
  obtain ⟨order, hget, hfour⟩ := (Option.any_eq_true _ _).mp hany
  exact ⟨s, order, hs, hget, settles rfl hpart hfresh hs hget (of_decide_eq_true hfour)⟩

end MockBroker
