import ExecutionSystem.OrderSteps
import Mathlib.Logic.Function.Basic

/-!
# The broker adapter

What `IBKRBrokerClient` of `src/broker/ibkr_broker.py` makes of the
order-status messages of IBKR, together with the order manager it hands
them to. The adapter knows the orders it has placed itself
(`_order_metadata`) and remembers a status for each (`_order_statuses`).
A message is converted twice. `_on_order_status` computes a status for
itself, and where it is the one remembered the message goes no further;
`_to_internal_order_state` makes the order state that is handed on, and
there an order with nothing remaining is filled whatever the status says.

So a message can say something new and be dropped: a second partial fill
under the same status, or the last one. What it says has reached the order
manager afterwards exactly when it was not dropped, or was known already
(`AdapterSession.along_lossless_iff`).
-/

/-! ## Order-status messages -/

/-- The status texts of IBKR. -/
inductive IbStatus where
  | pendingSubmit
  | pendingCancel
  | preSubmitted
  | submitted
  | filled
  | cancelled
  | inactive
  | apiPending
  | apiCancelled
  | validationError
  /-- A text that is not in the table. -/
  | other (text : String)
  deriving DecidableEq

/-- **`IB_TO_INTERNAL_STATUS`**; a text that is not in it counts as
`SUBMITTED`. -/
def IbStatus.internal : IbStatus → OrderStatus
  | pendingSubmit | preSubmitted | submitted | apiPending => .submitted
  | pendingCancel => .cancelPending
  | filled => .filled
  | cancelled | apiCancelled => .cancelled
  | inactive | validationError => .rejected
  | other _ => .submitted

/-- What `trade.orderStatus` says of an order. -/
structure IbOrderStatus where
  status : IbStatus
  filled : ℕ
  remaining : ℕ
  deriving DecidableEq

namespace IbOrderStatus

/-- The status that `_on_order_status` computes for itself. -/
def callbackStatus (msg : IbOrderStatus) : OrderStatus :=
  if msg.status.internal = .submitted ∧ 0 < msg.filled ∧ 0 < msg.remaining then
    .partiallyFilled
  else msg.status.internal

/-- The status of `_to_internal_order_state`. -/
def internalStatus (msg : IbOrderStatus) : OrderStatus :=
  if msg.remaining = 0 ∧ 0 < msg.filled then .filled
  else if msg.status.internal = .submitted ∧ 0 < msg.filled ∧ 0 < msg.remaining then
    .partiallyFilled
  else msg.status.internal

/-- **`_to_internal_order_state`**, as far as the order manager reads
it. -/
def toInternalOrderState (msg : IbOrderStatus) (b : BrokerOrderId) : BrokerUpdate where
  brokerOrderId := b
  status := msg.internalStatus
  filledQuantity := msg.filled

/-- **Where the two conversions differ**: on an order with nothing
remaining that is not reported as filled. -/
theorem callbackStatus_eq_internalStatus_iff (msg : IbOrderStatus) :
    msg.callbackStatus = msg.internalStatus
      ↔ (msg.remaining = 0 → 0 < msg.filled → msg.status.internal = .filled) := by
  unfold callbackStatus internalStatus
  by_cases hdone : msg.remaining = 0 ∧ 0 < msg.filled
  · have hno : ¬ (msg.status.internal = .submitted ∧ 0 < msg.filled ∧ 0 < msg.remaining) := by
      rintro ⟨-, -, h⟩
      omega
    rw [if_neg hno, if_pos hdone]
    exact ⟨fun h _ _ => h, fun h => h hdone.1 hdone.2⟩
  · rw [if_neg hdone]
    exact iff_of_true rfl fun h h' => absurd ⟨h, h'⟩ hdone

end IbOrderStatus

/-! ## The adapter and the order manager -/

/-- **The adapter beside the order manager.** -/
structure AdapterSession where
  om : OrderManager := {}
  /-- The keys of `_order_metadata`. -/
  metadata : List BrokerOrderId := []
  /-- `_order_statuses`. -/
  orderStatuses : BrokerOrderId → Option OrderStatus := fun _ => none

namespace AdapterSession

/-- The broker id that a step is told of a placed order. -/
def placed : OrderManager.Label → Option BrokerOrderId
  | .resume _ (.placed b _) => some b
  | _ => none

/-- **What the adapter can answer**: a placed order has a fresh id, and is
`NEW`. What the broker reports comes as a message. -/
def answers (s : AdapterSession) : OrderManager.Label → Bool
  | .callback _ => false
  | .resume _ (.placed b status) => b ∉ s.metadata ∧ status = .new
  | _ => true

/-- Whether `_on_order_status` hands the message on. -/
def notices (s : AdapterSession) (b : BrokerOrderId) (msg : IbOrderStatus) : Bool :=
  s.metadata.contains b && s.orderStatuses b ≠ some msg.callbackStatus

/-- **`_on_order_status`**: a message for an order of ours whose status is
not the one remembered is remembered and handed on. -/
def onOrderStatus (s : AdapterSession) (b : BrokerOrderId) (msg : IbOrderStatus) :
    AdapterSession :=
  if s.notices b msg then
    { s with
      orderStatuses := Function.update s.orderStatuses b (some msg.callbackStatus)
      om := s.om.onBrokerOrderUpdate (msg.toInternalOrderState b) }
  else s

/-- What can happen next. -/
inductive Label where
  /-- A step of the order manager, or of its callers. -/
  | program (l : OrderManager.Label)
  /-- IBKR reports on an order. -/
  | orderStatus (b : BrokerOrderId) (msg : IbOrderStatus)

/-- **One step.** `place_order` keeps the metadata of an order in the block
in which it returns. -/
def step (s : AdapterSession) : Label → Option AdapterSession
  | .program l =>
    if s.answers l then
      (s.om.step l).map fun om =>
        { s with om := om, metadata := (placed l).toList ++ s.metadata }
    else none
  | .orderStatus b msg => if s.om.running.isNone then some (s.onOrderStatus b msg) else none

/-- The adapter and the order manager, on arbitrary messages. -/
def machine : Machine AdapterSession Label where
  step := step

/-- No orders. -/
def initial : AdapterSession := {}

/-! ## Whether a message is lost -/

/-- **The message, where one is processed for a known order that is
neither done nor being cancelled**, with that order. -/
def concerns (s : AdapterSession) (l : Label) (msg : IbOrderStatus) (o : OrderId)
    (x : OrderState) : Prop :=
  ∃ b, l = .orderStatus b msg ∧ s.om.findOrderByBrokerId b = some o
    ∧ s.om.orders[o]? = some x ∧ x.status.terminal = false ∧ x.status ≠ .cancelPending

/-- **Nothing of the message is lost**: afterwards the order has the status
and the filled quantity that the message is converted to. -/
def Lossless (s : AdapterSession) (l : Label) (t : AdapterSession) : Prop :=
  ∀ msg o x, s.concerns l msg o x →
    ∃ y, t.om.orders[o]? = some y
      ∧ (y.status, y.filledQuantity) = (msg.internalStatus, msg.filled)

/-- **The message is handed on, or says what is known**: the status that
`_on_order_status` computes is not the one remembered, or the order has
the status and the filled quantity already. -/
def Noticed (s : AdapterSession) (l : Label) : Prop :=
  ∀ b msg o x, l = .orderStatus b msg → s.concerns l msg o x →
    s.orderStatuses b ≠ some msg.callbackStatus
      ∨ (x.status, x.filledQuantity) = (msg.internalStatus, msg.filled)

/-- The adapter knows every order that has a broker id. -/
def Registered (s : AdapterSession) : Prop :=
  ∀ (o : OrderId) (x : OrderState) (b : BrokerOrderId),
    s.om.orders[o]? = some x → x.brokerOrderId = some b → b ∈ s.metadata

variable {s t : AdapterSession} {l : Label}

/-- A callback changes no broker id. -/
theorem brokerOrderId_callback {om : OrderManager} {upd : BrokerUpdate} {o : OrderId}
    {y : OrderState} (hrun : om.running.isNone = true)
    (hy : (om.onBrokerOrderUpdate upd).orders[o]? = some y) :
    ∃ x, om.orders[o]? = some x ∧ y.brokerOrderId = x.brokerOrderId := by
  have hstep : om.step (.callback upd) = some (om.onBrokerOrderUpdate upd) := if_pos hrun
  rcases (OrderManager.step_effect hstep).lookup hy with ⟨x, hx, htouch⟩ | ⟨-, hnew⟩
  · refine ⟨x, hx, ?_⟩
    rcases htouch.brokerOrderId with h | ⟨_, _, _, h, -⟩
    · exact h
    · cases h
  · exact absurd hnew (OrderManager.not_created rfl rfl)

theorem Registered.step (hs : s.Registered) (h : s.step l = some t) : t.Registered := by
  cases l with
  | program l =>
    simp only [AdapterSession.step, Option.ite_none_right_eq_some, Option.map_eq_some_iff] at h
    obtain ⟨-, om, hom, rfl⟩ := h
    intro o y b hy hyb
    rcases (OrderManager.step_effect hom).lookup hy with ⟨x, hx, htouch⟩ | ⟨-, hnew⟩
    · rcases htouch.brokerOrderId with hsame | ⟨_, b', _, rfl, -, hb'⟩
      · exact List.mem_append_right _ (hs o x b hx (hsame ▸ hyb))
      · obtain rfl := Option.some.inj (hyb.symm.trans hb')
        exact List.mem_append_left _ (List.mem_singleton_self _)
    · cases hnew <;> cases hyb
  | orderStatus b msg =>
    simp only [AdapterSession.step, Option.ite_none_right_eq_some] at h
    obtain ⟨hrun, h⟩ := h
    obtain rfl := Option.some.inj h
    intro o y b' hy hyb
    unfold onOrderStatus at hy ⊢
    split_ifs at hy ⊢
    · obtain ⟨x, hx, hsame⟩ := brokerOrderId_callback hrun hy
      exact hs o x b' hx (hsame ▸ hyb)
    · exact hs o y b' hy hyb

/-- What a callback leaves of an order that is neither done nor being
cancelled. -/
theorem brokerUpdated_of_working {x : OrderState} (hlive : x.status.terminal = false)
    (hnot : x.status ≠ .cancelPending) (upd : BrokerUpdate) (now : Time) :
    ((x.brokerUpdated upd now).status, (x.brokerUpdated upd now).filledQuantity)
      = (upd.status, upd.filledQuantity) := by
  unfold OrderState.brokerUpdated OrderState.ignoresUpdate OrderState.rejectWhileCancelling
    OrderState.updatedStatus
  simp [hlive, hnot]

/-- **A message is lost exactly when it is dropped and says something
new.** -/
theorem lossless_iff_noticed (hs : s.Registered) (h : s.step l = some t) :
    s.Lossless l t ↔ s.Noticed l := by
  constructor
  · rintro hkept b msg o x rfl hx
    obtain ⟨y, hy, hsame⟩ := hkept msg o x hx
    by_contra hlost
    rw [not_or, not_not] at hlost
    simp only [step, Option.ite_none_right_eq_some] at h
    obtain rfl := Option.some.inj h.2
    obtain ⟨_, -, -, hxo, -⟩ := hx
    have hdrop : s.notices b msg = false := by simp [notices, hlost.1]
    rw [onOrderStatus, hdrop] at hy
    obtain rfl := Option.some.inj (hy.symm.trans hxo)
    exact hlost.2 hsame
  · rintro hnoticed msg o x hx
    obtain ⟨b, rfl, ho, hxo, hlive, hnot⟩ := id hx
    simp only [step, Option.ite_none_right_eq_some] at h
    obtain ⟨hrun, h⟩ := h
    obtain rfl := Option.some.inj h
    by_cases hnew : s.orderStatuses b = some msg.callbackStatus
    · -- the message is dropped, and the order is what it was
      have hdrop : s.notices b msg = false := by simp [notices, hnew]
      rw [onOrderStatus, hdrop]
      exact ⟨x, hxo, (hnoticed b msg o x rfl hx).resolve_left fun h => h hnew⟩
    · obtain ⟨z, hz, hzb⟩ := OrderManager.findOrderByBrokerId_eq_some ho
      have hnotice : s.notices b msg = true := by
        simp [notices, hnew, hs o z b hz hzb]
      rw [onOrderStatus, hnotice]
      have hstep : s.om.step (.callback (msg.toInternalOrderState b))
          = some (s.om.onBrokerOrderUpdate (msg.toInternalOrderState b)) := if_pos hrun
      exact ⟨_, OrderManager.step_callback hstep ho hxo,
        brokerUpdated_of_working hlive hnot _ _⟩

/-- **No message of a run is lost exactly when each that concerns a working
order is handed on, or says what is known.** -/
theorem along_lossless_iff (ls : List Label) :
    machine.Along Lossless initial ls ↔ machine.Along (fun s l _ => s.Noticed l) initial ls :=
  Machine.along_iff_of_step (J := Registered) (fun _ _ _ hs h => hs.step h)
    (fun _ _ _ hs h => lossless_iff_noticed hs h) (fun _ _ _ h => by cases h)

/-- An exit of three contracts is placed, one of them is executed, and then
another one. -/
def partialFills : List Label :=
  [ .program (.submit { sampleIntent (some 0) false .sell with
        quantity := 3, quantity_pos := Nat.zero_lt_succ 2 }
      { sampleDecision with allowedQuantity := 3 } false none none),
    .program (.resume 0 (.placed 7 .new)), .orderStatus 7 ⟨.submitted, 1, 2⟩ ]

/-- **The second partial fill does not reach the order manager.** -/
theorem not_along_lossless : ¬ ∀ ls, machine.Along Lossless initial ls := by
  intro h
  have hrun : (machine.run initial partialFills).map (fun s =>
      (s.om.findOrderByBrokerId 7, s.om.orders[0]?.map fun x => (x.status, x.filledQuantity)))
        = some (some 0, some (.partiallyFilled, 1)) := by
    decide +kernel
  have hlast : (machine.run initial (partialFills ++ [.orderStatus 7 ⟨.submitted, 2, 1⟩])).map
      (fun s => s.om.orders[0]?.map (·.filledQuantity)) = some (some 1) := by
    decide +kernel
  obtain ⟨s, hs, hstate⟩ := Option.map_eq_some_iff.mp hrun
  obtain ⟨ho, horder⟩ := Prod.mk.inj hstate
  obtain ⟨x, hx, hstatus⟩ := Option.map_eq_some_iff.mp horder
  obtain ⟨hstatus, -⟩ := Prod.mk.inj hstatus
  obtain ⟨t, ht, hfill⟩ := Option.map_eq_some_iff.mp hlast
  obtain ⟨s', hs', hstep⟩ := Machine.run_snoc.mp ht
  obtain rfl := Option.some.inj (hs'.symm.trans hs)
  obtain ⟨y, hy, hsame⟩ := Machine.along_step
    (h (partialFills ++ [.orderStatus 7 ⟨.submitted, 2, 1⟩])) hs' hstep ⟨.submitted, 2, 1⟩ 0 x
    ⟨7, rfl, ho, hx, by rw [hstatus]; rfl, by rw [hstatus]; decide⟩
  rw [hy, Option.map_some, Option.some.injEq] at hfill
  rw [hfill] at hsame
  exact absurd (Prod.mk.inj hsame).2 (by decide)

end AdapterSession
