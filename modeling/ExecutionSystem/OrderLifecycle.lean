import ExecutionSystem.Machine
import ExecutionSystem.Models

/-!
# The lifecycle of an order

What the callbacks of a broker are told of one order: events that change its
status, and fills. An order has a status and a quantity executed, and a callback
is a step of it (`lifecycle`), so what the callbacks are told is a run of a small
machine – whatever the broker does between them. What a subscriber may rely on
is proved here, of any run: the fills add up to what is executed and to no more
than was ordered, and nothing more comes of an order that is done with.
-/

/-! ## What the callbacks are told -/

/-- An event in the lifecycle of an order. -/
structure OrderEvent where
  orderId : OrderId
  previousStatus : OrderStatus
  newStatus : OrderStatus
  message : String
  timestamp : Time

/-- A call of the order callbacks or of the fill callbacks. -/
inductive BrokerCallback where
  | order (event : OrderEvent)
  | fill (event : FillEvent)

/-- The order a callback is about. -/
def BrokerCallback.orderId : BrokerCallback → OrderId
  | .order event => event.orderId
  | .fill event => event.orderId

/-- The fill a callback tells of. -/
def BrokerCallback.fill? : BrokerCallback → Option FillEvent
  | .order _ => none
  | .fill event => some event

/-- The fills that were told, in order. -/
def fillsOf (callbacks : List BrokerCallback) : List FillEvent :=
  callbacks.filterMap BrokerCallback.fill?

@[simp] theorem fillsOf_nil : fillsOf [] = [] := rfl

@[simp] theorem fillsOf_order (event : OrderEvent) (callbacks : List BrokerCallback) :
    fillsOf (.order event :: callbacks) = fillsOf callbacks := rfl

@[simp] theorem fillsOf_fill (event : FillEvent) (callbacks : List BrokerCallback) :
    fillsOf (.fill event :: callbacks) = event :: fillsOf callbacks := rfl

theorem fillsOf_append (as bs : List BrokerCallback) :
    fillsOf (as ++ bs) = fillsOf as ++ fillsOf bs := List.filterMap_append

/-! ## The lifecycle of an order -/

/-- How an order stands: its status, and what of it is executed. -/
structure Standing where
  status : OrderStatus
  executed : ℕ
  deriving DecidableEq

/-- The changes of status there are. -/
def OrderStatus.mayBecome : OrderStatus → OrderStatus → Bool
  | .new, .submitted | .new, .rejected | .new, .cancelled => true
  | .submitted, .partiallyFilled | .submitted, .filled | .submitted, .cancelled => true
  | .partiallyFilled, .filled | .partiallyFilled, .cancelled => true
  | _, _ => false

/-- The fill is one of the plan: of its strategy and contract, on its side and
at its limit. -/
structure FillEvent.Matches (fill : FillEvent) (plan : OrderPlan) : Prop where
  strategyId : fill.strategyId = plan.strategyId
  contract : fill.contract = plan.contract
  side : fill.side = plan.side
  price : fill.fillPrice = plan.limitPrice

instance (fill : FillEvent) (plan : OrderPlan) : Decidable (fill.Matches plan) :=
  decidable_of_iff (fill.strategyId = plan.strategyId ∧ fill.contract = plan.contract
      ∧ fill.side = plan.side ∧ fill.fillPrice = plan.limitPrice)
    ⟨fun ⟨hs, hc, hside, hp⟩ => ⟨hs, hc, hside, hp⟩,
      fun h => ⟨h.strategyId, h.contract, h.side, h.price⟩⟩

/-- **What becomes of an order, as the callbacks see it**: its status changes
from the one it has, and while it is being filled some of it is executed. -/
def lifecycle (plan : OrderPlan) : Machine Standing BrokerCallback where
  step
    | s, .order event =>
      if event.previousStatus = s.status ∧ s.status.mayBecome event.newStatus then
        some { s with status := event.newStatus }
      else none
    | s, .fill event =>
      if (s.status = .partiallyFilled ∨ s.status = .filled) ∧ event.Matches plan
          ∧ s.executed + event.filledQuantity ≤ plan.quantity then
        some { s with executed := s.executed + event.filledQuantity }
      else none

section Lifecycle

variable {plan : OrderPlan} {s t : Standing} {callbacks : List BrokerCallback}

theorem lifecycle_order {event : OrderEvent}
    (h : (lifecycle plan).step s (.order event) = some t) :
    event.previousStatus = s.status ∧ s.status.mayBecome event.newStatus = true
      ∧ t = { s with status := event.newStatus } := by
  unfold lifecycle at h
  rw [Option.ite_none_right_eq_some] at h
  exact ⟨h.1.1, h.1.2, (Option.some.inj h.2).symm⟩

theorem lifecycle_fill {event : FillEvent}
    (h : (lifecycle plan).step s (.fill event) = some t) :
    (s.status = .partiallyFilled ∨ s.status = .filled) ∧ event.Matches plan
      ∧ s.executed + event.filledQuantity ≤ plan.quantity
      ∧ t = { s with executed := s.executed + event.filledQuantity } := by
  unfold lifecycle at h
  rw [Option.ite_none_right_eq_some] at h
  exact ⟨h.1.1, h.1.2.1, h.1.2.2, (Option.some.inj h.2).symm⟩

/-- **What is executed is what the fills add up to.** -/
theorem executed_of_run (h : (lifecycle plan).run s callbacks = some t) :
    t.executed = s.executed + ((fillsOf callbacks).map FillEvent.filledQuantity).sum := by
  induction callbacks generalizing s with
  | nil => rw [← Option.some.inj h]; rfl
  | cons callback callbacks ih =>
    obtain ⟨u, hu, hrun⟩ := Option.bind_eq_some_iff.mp h
    rw [ih hrun]
    cases callback with
    | order event =>
      obtain ⟨-, -, rfl⟩ := lifecycle_order hu
      rfl
    | fill event =>
      obtain ⟨-, -, -, rfl⟩ := lifecycle_fill hu
      rw [fillsOf_fill, List.map_cons, List.sum_cons, add_assoc]

/-- No more is executed than was ordered. -/
theorem executed_le_of_run (hs : s.executed ≤ plan.quantity)
    (h : (lifecycle plan).run s callbacks = some t) : t.executed ≤ plan.quantity := by
  refine Machine.run_invariant' (J := fun s => s.executed ≤ plan.quantity) ?_ hs h
  intro s callback t hs hstep
  cases callback with
  | order event =>
    obtain ⟨-, -, rfl⟩ := lifecycle_order hstep
    exact hs
  | fill event =>
    obtain ⟨-, -, hle, rfl⟩ := lifecycle_fill hstep
    exact hle

/-- Every fill of the lifecycle is one of the plan. -/
theorem matches_of_run (h : (lifecycle plan).run s callbacks = some t) :
    ∀ fill ∈ fillsOf callbacks, fill.Matches plan := by
  induction callbacks generalizing s with
  | nil => exact fun _ hfill => absurd hfill List.not_mem_nil
  | cons callback callbacks ih =>
    obtain ⟨u, hu, hrun⟩ := Option.bind_eq_some_iff.mp h
    cases callback with
    | order event => exact ih hrun
    | fill event =>
      obtain ⟨-, hmatches, -, -⟩ := lifecycle_fill hu
      rw [fillsOf_fill]
      exact List.forall_mem_cons.mpr ⟨hmatches, ih hrun⟩

/-- **An order is done with** when it is cancelled or rejected, or filled in
full. -/
def Standing.Final (plan : OrderPlan) (s : Standing) : Prop :=
  s.status = .cancelled ∨ s.status = .rejected
    ∨ s.status = .filled ∧ s.executed = plan.quantity

/-- **Nothing more is told of an order that is done with.** -/
theorem Standing.Final.nil_of_run (hfinal : s.Final plan)
    (h : (lifecycle plan).run s callbacks = some t) : callbacks = [] := by
  cases callbacks with
  | nil => rfl
  | cons callback callbacks =>
    exfalso
    obtain ⟨u, hu, -⟩ := Option.bind_eq_some_iff.mp h
    cases callback with
    | order event =>
      obtain ⟨-, hmay, -⟩ := lifecycle_order hu
      rcases hfinal with hs | hs | ⟨hs, -⟩ <;> rw [hs] at hmay <;> cases hmay
    | fill event =>
      obtain ⟨hfilling, -, hle, -⟩ := lifecycle_fill hu
      have hpos := event.filled_pos
      rcases hfinal with hs | hs | ⟨-, heq⟩
      · rw [hs] at hfilling; exact hfilling.elim nofun nofun
      · rw [hs] at hfilling; exact hfilling.elim nofun nofun
      · omega

end Lifecycle
