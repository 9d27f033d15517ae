import ExecutionSystem.ListFacts
import ExecutionSystem.OrderManager

/-!
# What a step of the order manager can do

The step function of the order manager is taken apart once, here.
`OrderManager.step_effect` lists what a step can do to the orders, to
the coroutines and to the calls of `place_order`: nothing, start a
coroutine, move one, move one that also writes to an order, handle a
callback, create an order, create a replacement. Where a coroutine can
move is the relation `Next`, what it writes on the way is the relation
`Write`, and both record what the code has tested at that point.

Everything proved of the order manager goes through this list; no later
proof looks into `OrderManager.step` again, other than to name the two
steps that the program takes without looking: a status written when an
await returns (`OrderManager.written`) and a replacement
(`OrderManager.replacing`).
-/

/-- Where the code goes on when the `cancel_order` it called returns. -/
def CancelCaller.returned (now : Time) (result : Bool) : CancelCaller → Coroutine
  | .outside => .done result
  | .giveUp _ => .done result
  | .replace r newPrice =>
    if result then .pollCheck r newPrice
    else .repricerSleep r (now + r.config.repriceIntervalSeconds)

namespace Coroutine

/-- The order whose `place_order` the coroutine awaits. -/
def placing : Coroutine → Option OrderId
  | placeAwait o _ => some o
  | replaceAwait _ n => some n
  | _ => none

/-- The repricer that looks whether its cancel was acknowledged, with the
price it will replace at. -/
def polling : Coroutine → Option (Repricer × Price)
  | pollCheck r newPrice => some (r, newPrice)
  | pollSleep r newPrice _ => some (r, newPrice)
  | _ => none

/-- **The status a coroutine writes when its await returns**, without
looking at the status the order has by then. -/
def written (c : Coroutine) (reply : Reply) : Option (OrderId × OrderStatus) :=
  match c with
  | placeAwait o _ | replaceAwait _ o =>
    match reply with
    | .placed _ status => some (o, status)
    | .raised _ => some (o, .error)
    | _ => none
  | cancelAwait o _ =>
    match reply with
    | .raised _ => some (o, .error)
    | _ => none
  | sweepQuery _ _ o _ =>
    match reply with
    | .orderStatus (some status) => if status.terminal then some (o, status) else none
    | .orderStatus none => some (o, .cancelled)
    | _ => none
  | _ => none

end Coroutine

/-- **A request to cancel writes the mark, the status and the time**, and
leaves the rest of the order. -/
theorem OrderState.cancelRequested_eq (hard : Bool) (now : Time) (x : OrderState) :
    x.cancelRequested hard now =
      { x with
        hardCancel := hard || x.hardCancel
        status := (x.cancelRequested hard now).status
        updatedAt := (x.cancelRequested hard now).updatedAt } := by
  unfold cancelRequested
  cases hard with
  | false =>
    rw [if_neg Bool.false_ne_true]
    dsimp only
    split_ifs <;> try split
    all_goals rfl
  | true =>
    rw [if_pos rfl]
    dsimp only
    split_ifs <;> try split
    all_goals rfl

namespace OrderManager

/-! ## The pieces of a step -/

section Fields

variable (om : OrderManager) (t : TaskId) (o : OrderId) (c : Coroutine)
  (f : OrderState → OrderState) (r : Repricer) (b : Bool) (k : CancelCaller)

@[simp] theorem update_orders : (om.update o f).orders = om.orders.modify o f := rfl
@[simp] theorem update_tasks : (om.update o f).tasks = om.tasks := rfl
@[simp] theorem update_placeCalls : (om.update o f).placeCalls = om.placeCalls := rfl
@[simp] theorem update_clock : (om.update o f).clock = om.clock := rfl
@[simp] theorem suspend_orders : (om.suspend t c).orders = om.orders := rfl
@[simp] theorem suspend_tasks : (om.suspend t c).tasks = om.tasks.set t c := rfl
@[simp] theorem suspend_placeCalls : (om.suspend t c).placeCalls = om.placeCalls := rfl
@[simp] theorem goOn_orders : (om.goOn t c).orders = om.orders := rfl
@[simp] theorem goOn_tasks : (om.goOn t c).tasks = om.tasks.set t c := rfl
@[simp] theorem goOn_placeCalls : (om.goOn t c).placeCalls = om.placeCalls := rfl
@[simp] theorem spawn_orders : (om.spawn c).orders = om.orders := rfl
@[simp] theorem spawn_tasks : (om.spawn c).tasks = om.tasks ++ [c] := rfl
@[simp] theorem spawn_placeCalls : (om.spawn c).placeCalls = om.placeCalls := rfl
@[simp] theorem call_orders : (om.call c).orders = om.orders := rfl
@[simp] theorem call_tasks : (om.call c).tasks = om.tasks ++ [c] := rfl
@[simp] theorem call_placeCalls : (om.call c).placeCalls = om.placeCalls := rfl
@[simp] theorem sleep_orders : (om.sleep t r).orders = om.orders := rfl
@[simp] theorem sleep_tasks :
    (om.sleep t r).tasks = om.tasks.set t
      (.repricerSleep r (om.clock + r.config.repriceIntervalSeconds)) := rfl
@[simp] theorem sleep_placeCalls : (om.sleep t r).placeCalls = om.placeCalls := rfl

@[simp] theorem returnFromCancel_orders :
    (om.returnFromCancel t b k).orders = om.orders := by
  cases k <;> cases b <;> rfl

@[simp] theorem returnFromCancel_tasks :
    (om.returnFromCancel t b k).tasks = om.tasks.set t (k.returned om.clock b) := by
  cases k <;> cases b <;> rfl

@[simp] theorem returnFromCancel_placeCalls :
    (om.returnFromCancel t b k).placeCalls = om.placeCalls := by
  cases k <;> cases b <;> rfl

end Fields

/-! ## The relations -/

/-- **Where a coroutine can go in one step** that creates no order. -/
inductive Next (om : OrderManager) : Coroutine → Coroutine → Prop
  | placed {o reprice} : Next om (.placeAwait o reprice) (.done true)
  | cancelUnknown {o hard k} (hx : om.orders[o]? = none) :
      Next om (.cancelStart o hard k) (k.returned om.clock false)
  | cancelDone {o hard k x} (hx : om.orders[o]? = some x)
      (hd : x.status.terminal = true) :
      Next om (.cancelStart o hard k) (k.returned om.clock false)
  | cancelLocally {o hard k x} (hx : om.orders[o]? = some x)
      (hd : x.status.active = true) (hb : x.brokerOrderId = none) :
      Next om (.cancelStart o hard k) (k.returned om.clock true)
  | cancelSent {o hard k x b} (hx : om.orders[o]? = some x)
      (hd : x.status.active = true) (hb : x.brokerOrderId = some b) :
      Next om (.cancelStart o hard k) (.cancelAwait o k)
  | cancelReturned (result : Bool) {o k} :
      Next om (.cancelAwait o k) (k.returned om.clock result)
  | sweepEnds {now maxAge} : Next om (.sweepLoop now maxAge []) (.done true)
  | sweepSkips {now maxAge o rest} :
      Next om (.sweepLoop now maxAge (o :: rest)) (.sweepLoop now maxAge rest)
  | sweepAsks {now maxAge o rest x} (hx : om.orders[o]? = some x)
      (hp : x.status = .cancelPending) :
      Next om (.sweepLoop now maxAge (o :: rest)) (.sweepQuery now maxAge o rest)
  | sweepAnswered {now maxAge o rest} :
      Next om (.sweepQuery now maxAge o rest) (.sweepLoop now maxAge rest)
  | sweepRecancels {now maxAge o rest} :
      Next om (.sweepQuery now maxAge o rest) (.sweepRecancel now maxAge o rest)
  | sweepRecancelled {now maxAge o rest} :
      Next om (.sweepRecancel now maxAge o rest) (.sweepLoop now maxAge rest)
  | repricerStarts {o config wakeAt} :
      Next om (.repricerStart o config)
        (.repricerSleep ⟨config, om.clock, 0, o⟩ wakeAt)
  | repricerEnds {r wakeAt} : Next om (.repricerSleep r wakeAt) (.done true)
  | repricerGivesUp {r wakeAt x} (hx : om.orders[r.current]? = some x)
      (hh : x.hardCancel = false) (hd : x.status.active = true) :
      Next om (.repricerSleep r wakeAt) (.cancelStart r.current true (.giveUp r))
  | repricerAsks {r wakeAt x} (hx : om.orders[r.current]? = some x)
      (hh : x.hardCancel = false) (hd : x.status.active = true) :
      Next om (.repricerSleep r wakeAt) (.quoteAwait r)
  | quoteSleeps {r wakeAt} : Next om (.quoteAwait r) (.repricerSleep r wakeAt)
  | quoteEnds {r} : Next om (.quoteAwait r) (.done true)
  | quoteModifies {r p} : Next om (.quoteAwait r) (.modifyAwait r p)
  | quoteReplaces {r p} : Next om (.quoteAwait r) (.repricerCancel r p)
  | modified {r p wakeAt} : Next om (.modifyAwait r p)
      (.repricerSleep { r with attempts := r.attempts + 1 } wakeAt)
  | modifyReplaces {r p} : Next om (.modifyAwait r p) (.repricerCancel r p)
  | repricerCancelEnds {r p} : Next om (.repricerCancel r p) (.done true)
  | repricerCancels {r p} :
      Next om (.repricerCancel r p) (.cancelStart r.current false (.replace r p))
  | pollEnds {c r p} (hc : c.polling = some (r, p)) : Next om c (.done true)
  | pollWaits {c r p wakeAt} (hc : c.polling = some (r, p)) :
      Next om c (.pollSleep r p wakeAt)
  | replaced {r n wakeAt} :
      Next om (.replaceAwait r n) (.repricerSleep { r with current := n } wakeAt)
  | replaceFailed {r n} : Next om (.replaceAwait r n) (.done true)

/-- **What a coroutine `t` writes to an order in one step**, with the label
under which it does. -/
inductive Write (om : OrderManager) (t : TaskId) :
    Label → Coroutine → OrderId → (OrderState → OrderState) → Prop
  | placed {c o b status} (hc : c.placing = some o) :
      Write om t (.resume t (.placed b status)) c o (.placed b status om.clock)
  | placeRaised {c o message} (hc : c.placing = some o) :
      Write om t (.resume t (.raised message)) c o (.failed message om.clock)
  | cancelRequested {o hard k} :
      Write om t .go (.cancelStart o hard k) o (.cancelRequested hard om.clock)
  | cancelRaised {o k message} :
      Write om t (.resume t (.raised message)) (.cancelAwait o k) o
        (.failed message om.clock)
  | sweptUnsent {now maxAge o rest x} (hx : om.orders[o]? = some x)
      (hp : x.status = .cancelPending) (hage : maxAge ≤ now - x.updatedAt)
      (hb : x.brokerOrderId = none) :
      Write om t .go (.sweepLoop now maxAge (o :: rest)) o (.swept .cancelled now)
  | sweptSettled {now maxAge o rest status} (hs : status.terminal = true) :
      Write om t (.resume t (.orderStatus (some status)))
        (.sweepQuery now maxAge o rest) o (.swept status now)
  | sweptUnknown {now maxAge o rest} :
      Write om t (.resume t (.orderStatus none)) (.sweepQuery now maxAge o rest) o
        (.swept .cancelled now)
  | recancelled {now maxAge o rest accepted} :
      Write om t (.resume t (.cancelled accepted)) (.sweepRecancel now maxAge o rest) o
        (.recancelled now)
  | repriced {r p} :
      Write om t (.resume t (.modified true)) (.modifyAwait r p) r.current
        (.repriced p om.clock)

/-- The three parts of the state that the steps are described by. -/
structure Holds (om : OrderManager) (orders : List OrderState)
    (tasks : List Coroutine) (calls : List PlaceCall) : Prop where
  orders : om.orders = orders
  tasks : om.tasks = tasks
  placeCalls : om.placeCalls = calls

/-- **What a step can do.** -/
inductive Effect (om : OrderManager) (l : Label) (om' : OrderManager) : Prop
  /-- Time passes, a task is woken, a call is refused, a callback is for no
  order of ours. -/
  | idle (h : om'.Holds om.orders om.tasks om.placeCalls)
  /-- `cancel_order` or the sweep is called from outside. -/
  | called (c : Coroutine)
      (hc : (∃ o hard, l = .cancel o hard ∧ c = .cancelStart o hard .outside)
        ∨ ∃ now maxAge os, l = .sweep maxAge ∧ c = .sweepLoop now maxAge os)
      (h : om'.Holds om.orders (om.tasks ++ [c]) om.placeCalls)
  /-- A coroutine moves on. -/
  | moved (t : TaskId) (c c' : Coroutine) (ht : om.tasks[t]? = some c)
      (hn : om.Next c c')
      (h : om'.Holds om.orders (om.tasks.set t c') om.placeCalls)
  /-- … and writes to an order. -/
  | wrote (t : TaskId) (c c' : Coroutine) (o : OrderId)
      (f : OrderState → OrderState) (ht : om.tasks[t]? = some c)
      (hn : om.Next c c') (hw : om.Write t l c o f)
      (hrun : l = .go → om.running = some t)
      (h : om'.Holds (om.orders.modify o f) (om.tasks.set t c') om.placeCalls)
  /-- `submit_intent` returns and leaves a repricer behind. -/
  | chased (t : TaskId) (o : OrderId) (config : RepriceConfig)
      (b : BrokerOrderId) (status : OrderStatus)
      (ht : om.tasks[t]? = some (.placeAwait o (some config)))
      (hl : l = .resume t (.placed b status))
      (h : om'.Holds (om.orders.modify o (.placed b status om.clock))
        (om.tasks.set t (.done true) ++ [.repricerStart o config]) om.placeCalls)
  /-- A callback for an order; a partial fill may spawn a cancel. -/
  | reported (upd : BrokerUpdate) (o : OrderId) (spawned : List Coroutine)
      (hl : l = .callback upd)
      (ho : om.findOrderByBrokerId upd.brokerOrderId = some o)
      (hs : spawned = [] ∨ spawned = [.cancelStart o true .outside])
      (h : om'.Holds (om.orders.modify o (.brokerUpdated upd om.clock))
        (om.tasks ++ spawned) om.placeCalls)
  /-- `submit_intent` passes its gates. -/
  | submitted (intent : OrderIntent) (decision : RiskDecision)
      (emergencyFlatten : Bool) (reprice : Option RepriceConfig)
      (algo : Option String) (plan : OrderPlan) (q : 0 < decision.allowedQuantity)
      (hl : l = .submit intent decision emergencyFlatten reprice algo)
      (hplan : plan = planOf intent _ q emergencyFlatten algo om.clock)
      (hfree : ∀ p, intent.positionId = some p → om.activeOrderFor p = none)
      (h : om'.Holds (om.orders ++ [orderOf intent plan om.clock])
        (om.tasks ++ [.placeAwait om.orders.length (repricerFor reprice emergencyFlatten)])
        (om.placeCalls ++ [⟨om.orders.length, plan, none⟩]))
  /-- A repricer replaces its order. -/
  | replaced (t : TaskId) (c : Coroutine) (r : Repricer) (p : Price)
      (x : OrderState) (q : 0 < x.quantity - x.filledQuantity) (hp : 0 < p)
      (hl : l = .go) (hrun : om.running = some t) (ht : om.tasks[t]? = some c)
      (hc : c.polling = some (r, p)) (hx : om.orders[r.current]? = some x)
      (hrep : replaceable x = true)
      (h : om'.Holds
        (om.orders.modify r.current (.superseded om.orders.length)
          ++ [replacementOf x (replacementPlan x _ q p hp) om.clock])
        (om.tasks.set t
          (.replaceAwait { r with attempts := r.attempts + 1 } om.orders.length))
        (om.placeCalls ++
          [⟨om.orders.length, replacementPlan x _ q p hp, some r.current⟩]))

/-! ## The inversion -/

variable {om om' : OrderManager} {l : Label} {t : TaskId} {c : Coroutine}

/-- What the repricer's look at the acknowledgement does. -/
theorem pollChecked_effect {r : Repricer} {p : Price} (hrun : om.running = some t)
    (ht : om.tasks[t]? = some c) (hc : c.polling = some (r, p)) :
    Effect om .go (om.pollChecked t r p) := by
  have hends : Effect om .go (om.suspend t (.done true)) :=
    .moved t _ _ ht (.pollEnds hc) ⟨rfl, rfl, rfl⟩
  unfold pollChecked
  cases hx : om.orders[r.current]? with
  | none => exact hends
  | some x =>
    dsimp only
    split_ifs with hpend hover hstop hleft hpos
    · exact hends
    · exact .moved t _ _ ht (.pollWaits hc) ⟨rfl, rfl, rfl⟩
    · exact hends
    · have hrep : replaceable x = true := by
        simp only [ne_eq, not_or, Decidable.not_not, Bool.not_eq_true] at hstop
        simp [replaceable, hstop, hleft]
      exact .replaced t c r p x hleft hpos rfl hrun ht hc hx hrep ⟨rfl, rfl, rfl⟩
    · exact hends
    · exact hends

/-- What `cancel_order` does up to its `await`. -/
theorem cancelOrder_effect {o : OrderId} {hard : Bool} {k : CancelCaller}
    (hrun : om.running = some t) (ht : om.tasks[t]? = some (.cancelStart o hard k)) :
    Effect om .go (om.cancelOrder t o hard k) := by
  unfold cancelOrder
  cases hx : om.orders[o]? with
  | none => exact .moved t _ _ ht (.cancelUnknown hx) ⟨by simp, by simp, by simp⟩
  | some x =>
    dsimp only
    split_ifs with hd
    · exact .wrote t _ _ o _ ht (.cancelDone hx hd) .cancelRequested
        (fun _ => hrun) ⟨by simp, by simp, by simp⟩
    · have hd : x.status.active = true := by
        rw [OrderStatus.active_eq_not_terminal]; simp [hd]
      cases hb : x.brokerOrderId with
      | none =>
        exact .wrote t _ _ o _ ht (.cancelLocally hx hd hb) .cancelRequested
          (fun _ => hrun) ⟨by simp, by simp, by simp⟩
      | some b =>
        exact .wrote t _ _ o _ ht (.cancelSent hx hd hb) .cancelRequested
          (fun _ => hrun) ⟨rfl, rfl, rfl⟩

/-- What one turn of the sweep does. -/
theorem sweepNext_effect {now maxAge : Time} {os : List OrderId}
    (hrun : om.running = some t) (ht : om.tasks[t]? = some (.sweepLoop now maxAge os)) :
    Effect om .go (om.sweepNext t now maxAge os) := by
  unfold sweepNext
  cases os with
  | nil => exact .moved t _ _ ht .sweepEnds ⟨rfl, rfl, rfl⟩
  | cons o rest =>
    cases hx : om.orders[o]? with
    | none => simp only [hx]; exact .moved t _ _ ht .sweepSkips ⟨rfl, rfl, rfl⟩
    | some x =>
      simp only [hx]
      split_ifs with hskip
      · exact .moved t _ _ ht .sweepSkips ⟨rfl, rfl, rfl⟩
      · obtain ⟨hp, hage⟩ : x.status = .cancelPending
            ∧ maxAge ≤ now - x.updatedAt := by
          simpa only [ne_eq, not_or, not_not, not_lt] using hskip
        cases hb : x.brokerOrderId with
        | none =>
          exact .wrote t _ _ o _ ht .sweepSkips (.sweptUnsent hx hp hage hb)
            (fun _ => hrun) ⟨rfl, rfl, rfl⟩
        | some b => exact .moved t _ _ ht (.sweepAsks hx hp) ⟨rfl, rfl, rfl⟩

/-- What the repricer does when it wakes up. -/
theorem repricerWoken_effect {r : Repricer} {wakeAt : Time}
    (ht : om.tasks[t]? = some (.repricerSleep r wakeAt)) :
    Effect om .go (om.repricerWoken t r) := by
  unfold repricerWoken
  cases hx : om.orders[r.current]? with
  | none => exact .moved t _ _ ht .repricerEnds ⟨rfl, rfl, rfl⟩
  | some x =>
    dsimp only
    split_ifs with hdone hover
    · exact .moved t _ _ ht .repricerEnds ⟨rfl, rfl, rfl⟩
    all_goals
      simp only [Bool.or_eq_true, not_or, Bool.not_eq_true,
        OrderStatus.terminal_eq_false_iff] at hdone
    · exact .moved t _ _ ht (.repricerGivesUp hx hdone.1 hdone.2) ⟨rfl, rfl, rfl⟩
    · exact .moved t _ _ ht (.repricerAsks hx hdone.1 hdone.2) ⟨rfl, rfl, rfl⟩

/-- What it does about the order it will replace. -/
theorem repricerCancels_effect {r : Repricer} {p : Price}
    (ht : om.tasks[t]? = some (.repricerCancel r p)) :
    Effect om .go (om.repricerCancels t r p) := by
  unfold repricerCancels
  cases hx : om.orders[r.current]? with
  | none => exact .moved t _ _ ht .repricerCancelEnds ⟨rfl, rfl, rfl⟩
  | some x =>
    dsimp only
    split_ifs
    · exact .moved t _ _ ht .repricerCancelEnds ⟨rfl, rfl, rfl⟩
    · exact .moved t _ _ ht .repricerCancels ⟨rfl, rfl, rfl⟩

/-- **What a coroutine's own block does.** -/
theorem block_effect (hrun : om.running = some t) (ht : om.tasks[t]? = some c)
    (h : om.block t c = some om') : Effect om .go om' := by
  cases c with
  | cancelStart o hard k => obtain rfl := Option.some.inj h; exact cancelOrder_effect hrun ht
  | sweepLoop now maxAge os => obtain rfl := Option.some.inj h; exact sweepNext_effect hrun ht
  | repricerStart o config =>
    obtain rfl := Option.some.inj h
    exact .moved t _ _ ht .repricerStarts ⟨rfl, rfl, rfl⟩
  | repricerSleep r wakeAt => obtain rfl := Option.some.inj h; exact repricerWoken_effect ht
  | repricerCancel r p => obtain rfl := Option.some.inj h; exact repricerCancels_effect ht
  | pollCheck r p => obtain rfl := Option.some.inj h; exact pollChecked_effect hrun ht rfl
  | pollSleep r p wakeAt =>
    obtain rfl := Option.some.inj h
    exact pollChecked_effect hrun ht rfl
  | _ => cases h

/-! ### The answers of the broker -/

variable {reply : Reply}

theorem placeReturned_effect {o : OrderId} {reprice : Option RepriceConfig}
    (ht : om.tasks[t]? = some (.placeAwait o reprice))
    (h : om.placeReturned t o reprice reply = some om') : Effect om (.resume t reply) om' := by
  cases reply with
  | placed b status =>
    obtain rfl := Option.some.inj h
    cases reprice with
    | none => exact .wrote t _ _ o _ ht .placed (.placed rfl) nofun ⟨rfl, rfl, rfl⟩
    | some config => exact .chased t o config b status ht rfl ⟨rfl, rfl, rfl⟩
  | raised message =>
    obtain rfl := Option.some.inj h
    exact .wrote t _ _ o _ ht .placed (.placeRaised rfl) nofun ⟨rfl, rfl, rfl⟩
  | _ => cases h

theorem cancelReturned_effect {o : OrderId} {k : CancelCaller}
    (ht : om.tasks[t]? = some (.cancelAwait o k))
    (h : om.cancelReturned t o k reply = some om') : Effect om (.resume t reply) om' := by
  cases reply with
  | cancelled accepted =>
    obtain rfl := Option.some.inj h
    exact .moved t _ _ ht (.cancelReturned accepted) ⟨by simp, by simp, by simp⟩
  | raised message =>
    obtain rfl := Option.some.inj h
    exact .wrote t _ _ o _ ht (.cancelReturned false) .cancelRaised nofun
      ⟨by simp, by simp, by simp⟩
  | _ => cases h

/-- The sweep settles the order, or cancels it again. -/
theorem sweepQueried_effect {now maxAge : Time} {o : OrderId} {rest : List OrderId}
    (ht : om.tasks[t]? = some (.sweepQuery now maxAge o rest))
    (h : om.sweepQueried t now maxAge o rest reply = some om') :
    Effect om (.resume t reply) om' := by
  cases reply with
  | orderStatus status =>
    cases status with
    | none =>
      obtain rfl := Option.some.inj h
      exact .wrote t _ _ o _ ht .sweepAnswered .sweptUnknown nofun ⟨rfl, rfl, rfl⟩
    | some status =>
      obtain rfl := Option.some.inj h
      split_ifs with hs
      · exact .wrote t _ _ o _ ht .sweepAnswered (.sweptSettled hs) nofun ⟨rfl, rfl, rfl⟩
      · exact .moved t _ _ ht .sweepRecancels ⟨rfl, rfl, rfl⟩
  | raised message =>
    obtain rfl := Option.some.inj h
    exact .moved t _ _ ht .sweepAnswered ⟨rfl, rfl, rfl⟩
  | _ => cases h

theorem sweepRecancelled_effect {now maxAge : Time} {o : OrderId} {rest : List OrderId}
    (ht : om.tasks[t]? = some (.sweepRecancel now maxAge o rest))
    (h : om.sweepRecancelled t now maxAge o rest reply = some om') :
    Effect om (.resume t reply) om' := by
  cases reply with
  | cancelled accepted =>
    obtain rfl := Option.some.inj h
    exact .wrote t _ _ o _ ht .sweepRecancelled .recancelled nofun ⟨rfl, rfl, rfl⟩
  | raised message =>
    obtain rfl := Option.some.inj h
    exact .moved t _ _ ht .sweepRecancelled ⟨rfl, rfl, rfl⟩
  | _ => cases h

/-- The repricer amends the order, goes on to replace it, or sleeps. -/
theorem repricerQuoted_effect {r : Repricer} (ht : om.tasks[t]? = some (.quoteAwait r))
    (h : om.repricerQuoted t r reply = some om') : Effect om (.resume t reply) om' := by
  have hsleeps : Effect om (.resume t reply) (om.sleep t r) :=
    .moved t _ _ ht .quoteSleeps ⟨rfl, rfl, rfl⟩
  cases reply with
  | quote q =>
    cases q with
    | none => obtain rfl := Option.some.inj h; exact hsleeps
    | some q =>
      obtain rfl := Option.some.inj h
      dsimp only
      split
      · split_ifs
        · exact hsleeps
        · exact .moved t _ _ ht .quoteEnds ⟨rfl, rfl, rfl⟩
        · exact .moved t _ _ ht .quoteModifies ⟨rfl, rfl, rfl⟩
        · exact .moved t _ _ ht .quoteReplaces ⟨rfl, rfl, rfl⟩
      · exact hsleeps
  | raised message => obtain rfl := Option.some.inj h; exact hsleeps
  | _ => cases h

theorem repricerModified_effect {r : Repricer} {p : Price}
    (ht : om.tasks[t]? = some (.modifyAwait r p))
    (h : om.repricerModified t r p reply = some om') : Effect om (.resume t reply) om' := by
  cases reply with
  | modified accepted =>
    cases accepted with
    | true =>
      obtain rfl := Option.some.inj h
      exact .wrote t _ _ _ _ ht .modified .repriced nofun ⟨rfl, rfl, rfl⟩
    | false =>
      obtain rfl := Option.some.inj h
      exact .moved t _ _ ht .modifyReplaces ⟨rfl, rfl, rfl⟩
  | raised message =>
    obtain rfl := Option.some.inj h
    exact .moved t _ _ ht .modifyReplaces ⟨rfl, rfl, rfl⟩
  | _ => cases h

theorem replaceReturned_effect {r : Repricer} {n : OrderId}
    (ht : om.tasks[t]? = some (.replaceAwait r n))
    (h : om.replaceReturned t r n reply = some om') : Effect om (.resume t reply) om' := by
  cases reply with
  | placed b status =>
    obtain rfl := Option.some.inj h
    exact .wrote t _ _ n _ ht .replaced (.placed rfl) nofun ⟨rfl, rfl, rfl⟩
  | raised message =>
    obtain rfl := Option.some.inj h
    exact .wrote t _ _ n _ ht .replaceFailed (.placeRaised rfl) nofun ⟨rfl, rfl, rfl⟩
  | _ => cases h

/-- **What a returning broker call does.** -/
theorem resume_effect (ht : om.tasks[t]? = some c) (h : om.resume t reply c = some om') :
    Effect om (.resume t reply) om' := by
  cases c with
  | placeAwait o reprice => exact placeReturned_effect ht h
  | cancelAwait o k => exact cancelReturned_effect ht h
  | sweepQuery now maxAge o rest => exact sweepQueried_effect ht h
  | sweepRecancel now maxAge o rest => exact sweepRecancelled_effect ht h
  | quoteAwait r => exact repricerQuoted_effect ht h
  | modifyAwait r p => exact repricerModified_effect ht h
  | replaceAwait r n => exact replaceReturned_effect ht h
  | _ => cases h

/-! ### Callbacks and calls -/

/-- What a callback does. -/
theorem onBrokerOrderUpdate_effect (upd : BrokerUpdate) :
    Effect om (.callback upd) (om.onBrokerOrderUpdate upd) := by
  unfold onBrokerOrderUpdate
  split
  · exact .idle ⟨rfl, rfl, rfl⟩
  · rename_i o ho
    split
    · exact .idle ⟨rfl, rfl, rfl⟩
    · dsimp only
      split_ifs
      · exact .reported upd o [] rfl ho (.inl rfl) ⟨rfl, by simp, rfl⟩
      · exact .reported upd o [_] rfl ho (.inr rfl) ⟨rfl, rfl, rfl⟩
      · exact .reported upd o [_] rfl ho (.inr rfl) ⟨rfl, rfl, rfl⟩
      · exact .reported upd o [] rfl ho (.inl rfl) ⟨rfl, by simp, rfl⟩
      · exact .reported upd o [] rfl ho (.inl rfl) ⟨rfl, by simp, rfl⟩

/-- What `submit_intent` leaves where it creates an order. -/
theorem submitIntent_holds {intent : OrderIntent} {decision : RiskDecision}
    {emergencyFlatten : Bool} {reprice : Option RepriceConfig}
    {algo : Option String}
    (h : om.submitIntent intent decision emergencyFlatten reprice algo = .ok om') :
    ∃ q : 0 < decision.allowedQuantity,
      (∀ p, intent.positionId = some p → om.activeOrderFor p = none)
        ∧ om'.Holds
          (om.orders ++ [orderOf intent (planOf intent _ q emergencyFlatten algo om.clock)
            om.clock])
          (om.tasks
            ++ [.placeAwait om.orders.length (repricerFor reprice emergencyFlatten)])
          (om.placeCalls
            ++ [⟨om.orders.length, planOf intent _ q emergencyFlatten algo om.clock, none⟩]) := by
  unfold submitIntent at h
  split_ifs at h with happroved hid hq
  all_goals split at h
  all_goals try cases h
  · rename_i hdup
    refine ⟨hq, fun p hp => ?_, rfl, rfl, rfl⟩
    simpa [hp] using hdup

/-- So it is one of the effects. -/
theorem submitIntent_effect {intent : OrderIntent} {decision : RiskDecision}
    {emergencyFlatten : Bool} {reprice : Option RepriceConfig}
    {algo : Option String}
    (h : om.submitIntent intent decision emergencyFlatten reprice algo = .ok om') :
    Effect om (.submit intent decision emergencyFlatten reprice algo) om' := by
  obtain ⟨q, hfree, h⟩ := submitIntent_holds h
  exact .submitted intent decision emergencyFlatten reprice algo _ q rfl rfl hfree h

/-- A step that calls `submit_intent` creates its order, or nothing. -/
theorem step_submit {intent : OrderIntent} {decision : RiskDecision}
    {emergencyFlatten : Bool} {reprice : Option RepriceConfig}
    {algo : Option String}
    (h : om.step (.submit intent decision emergencyFlatten reprice algo) = some om') :
    om'.Holds om.orders om.tasks om.placeCalls
      ∨ ∃ q : 0 < decision.allowedQuantity, om'.Holds
          (om.orders ++ [orderOf intent (planOf intent _ q emergencyFlatten algo om.clock)
            om.clock])
          (om.tasks
            ++ [.placeAwait om.orders.length (repricerFor reprice emergencyFlatten)])
          (om.placeCalls
            ++ [⟨om.orders.length, planOf intent _ q emergencyFlatten algo om.clock, none⟩]) := by
  simp only [step, Option.ite_none_right_eq_some] at h
  obtain rfl := Option.some.inj h.2
  cases hsub : om.submitIntent intent decision emergencyFlatten reprice algo with
  | error e => exact .inl ⟨rfl, rfl, rfl⟩
  | ok om' =>
    obtain ⟨q, -, h⟩ := submitIntent_holds hsub
    exact .inr ⟨q, h⟩

/-- **Every step is one of the effects.** -/
theorem step_effect (h : om.step l = some om') : Effect om l om' := by
  cases l with
  | go =>
    obtain ⟨t, hrun, h⟩ := Option.bind_eq_some_iff.mp h
    obtain ⟨c, ht, h⟩ := Option.bind_eq_some_iff.mp h
    exact block_effect hrun ht h
  | advance d =>
    simp only [step, Option.ite_none_right_eq_some] at h
    obtain rfl := Option.some.inj h.2
    exact .idle ⟨rfl, rfl, rfl⟩
  | submit intent decision emergencyFlatten reprice algo =>
    simp only [step, Option.ite_none_right_eq_some] at h
    obtain rfl := Option.some.inj h.2
    cases hsub : om.submitIntent intent decision emergencyFlatten reprice algo with
    | error e => exact .idle ⟨rfl, rfl, rfl⟩
    | ok om' => exact submitIntent_effect hsub
  | cancel o hard =>
    simp only [step, Option.ite_none_right_eq_some] at h
    obtain rfl := Option.some.inj h.2
    exact .called _ (.inl ⟨o, hard, rfl, rfl⟩) ⟨rfl, rfl, rfl⟩
  | sweep maxAge =>
    simp only [step, Option.ite_none_right_eq_some] at h
    obtain rfl := Option.some.inj h.2
    exact .called _ (.inr ⟨_, _, _, rfl, rfl⟩) ⟨rfl, rfl, rfl⟩
  | callback upd =>
    simp only [step, Option.ite_none_right_eq_some] at h
    obtain rfl := Option.some.inj h.2
    exact onBrokerOrderUpdate_effect upd
  | wake t =>
    simp only [step, Option.ite_none_right_eq_some] at h
    obtain rfl := Option.some.inj h.2
    exact .idle ⟨rfl, rfl, rfl⟩
  | resume t reply =>
    simp only [step, Option.ite_none_right_eq_some] at h
    obtain ⟨c, ht, h⟩ := Option.bind_eq_some_iff.mp h.2
    exact resume_effect ht h

/-! ## One order in one step -/

/-- The status the step writes to an order without looking at it. -/
def written (om : OrderManager) : Label → Option (OrderId × OrderStatus)
  | .resume t reply => om.tasks[t]?.bind (fun c => c.written reply)
  | _ => none

/-- The order the step moves to `CANCELLED` on its own because no broker id
is known for it. -/
def cancelsLocally (om : OrderManager) : Label → Option OrderId
  | .go => om.running.bind fun t => om.tasks[t]?.bind fun
    | .cancelStart o _ _ => om.orders[o]?.bind fun x =>
      if x.status.active ∧ x.brokerOrderId = none then some o else none
    | .sweepLoop now maxAge (o :: _) => om.orders[o]?.bind fun x =>
      if x.status = .cancelPending ∧ maxAge ≤ now - x.updatedAt
          ∧ x.brokerOrderId = none then some o else none
    | _ => none
  | _ => none

/-- The order the step replaces, and the price it is replaced at. -/
def replacing (om : OrderManager) : Label → Option (OrderId × OrderState × Price)
  | .go => do
    let t ← om.running
    let c ← om.tasks[t]?
    let (r, p) ← c.polling
    let x ← om.orders[r.current]?
    if replaceable x ∧ 0 < p then some (r.current, x, p) else none
  | _ => none

theorem replacing_eq_some {o : OrderId} {x : OrderState} {p : Price} :
    om.replacing l = some (o, x, p) ↔
      l = .go ∧ ∃ t c r, om.running = some t ∧ om.tasks[t]? = some c
        ∧ c.polling = some (r, p) ∧ r.current = o ∧ om.orders[o]? = some x
        ∧ replaceable x = true ∧ 0 < p := by
  cases l with
  | go =>
    simp only [replacing, Option.bind_eq_bind, Option.bind_eq_some_iff,
      Option.ite_none_right_eq_some, Option.some.injEq, Prod.mk.injEq, true_and]
    constructor
    · rintro ⟨t, ht, c, hc, ⟨r, q⟩, hp, y, hy, ⟨hrep, hq⟩, rfl, rfl, rfl⟩
      exact ⟨t, c, r, ht, hc, hp, rfl, hy, hrep, hq⟩
    · rintro ⟨t, c, r, ht, hc, hp, rfl, hy, hrep, hq⟩
      exact ⟨t, ht, c, hc, (r, p), hp, x, hy, ⟨hrep, hq⟩, rfl, rfl, rfl⟩
  | _ => simp [replacing]

/-- **A replacement, from what is known before the step.** -/
theorem step_replacing {o : OrderId} {x : OrderState} {p : Price}
    (h : om.step l = some om') (hr : om.replacing l = some (o, x, p)) :
    ∃ (t : TaskId) (c : Coroutine) (r : Repricer)
      (q : 0 < x.quantity - x.filledQuantity) (hp : 0 < p),
      om.tasks[t]? = some c ∧ c.polling = some (r, p) ∧ r.current = o ∧
      om'.Holds
        (om.orders.modify o (.superseded om.orders.length)
          ++ [replacementOf x (replacementPlan x _ q p hp) om.clock])
        (om.tasks.set t
          (.replaceAwait { r with attempts := r.attempts + 1 } om.orders.length))
        (om.placeCalls ++
          [⟨om.orders.length, replacementPlan x _ q p hp, some o⟩]) := by
  obtain ⟨rfl, t, c, r, hrun, ht, hc, rfl, hx, hrep, hp⟩ := replacing_eq_some.mp hr
  have hblock : om.block t c = some (om.pollChecked t r p) := by
    cases c <;> cases hc <;> rfl
  simp only [step, hrun, ht, Option.bind_some, hblock, Option.some.injEq] at h
  simp only [replaceable, Bool.and_eq_true, decide_eq_true_eq,
    Bool.not_eq_true'] at hrep
  obtain ⟨⟨hstatus, hhard⟩, hq⟩ := hrep
  refine ⟨t, c, r, hq, hp, ht, hc, rfl, ?_⟩
  subst h
  simp only [pollChecked, hx, hstatus, hhard, reduceCtorEq, if_false, ne_eq,
    not_true_eq_false, Bool.false_eq_true, or_self, dif_pos hq, dif_pos hp]
  exact ⟨rfl, rfl, rfl⟩

/-- The label is a call of `submit_intent`. -/
def Label.submits : Label → Bool
  | .submit .. => true
  | _ => false

/-- Only `submit_intent` and a replacement call `place_order`. -/
theorem Effect.placeCalls_eq (he : Effect om l om') (hr : om.replacing l = none)
    (hs : l.submits = false) : om'.placeCalls = om.placeCalls := by
  cases he with
  | idle h | called _ _ h | moved _ _ _ _ _ h => exact h.placeCalls
  | wrote _ _ _ _ _ _ _ _ _ h | chased _ _ _ _ _ _ _ h | reported _ _ _ _ _ _ h =>
    exact h.placeCalls
  | submitted _ _ _ _ _ _ _ hl =>
    rw [hl] at hs
    cases hs
  | replaced t c r p x q hp hl hrun ht hc hx hrep =>
    rw [replacing_eq_some.mpr ⟨hl, t, c, r, hrun, ht, hc, rfl, hx, hrep, hp⟩] at hr
    cases hr

/-- An order, from what is known of all of them. -/
theorem lookup_of_map {β : Type*} {f : OrderState → β} {ys : List β} {y : β}
    (o : OrderId) (h : om.orders.map f = ys) (hy : ys[o]? = some y) :
    ∃ x, om.orders[o]? = some x ∧ f x = y := by
  subst h
  simpa using hy

/-- **What one step does to one order that is already there.** -/
inductive Touch (om : OrderManager) (l : Label) (o : OrderId) (x : OrderState) :
    OrderState → Prop
  | kept : Touch om l o x x
  | wrote {t : TaskId} {c f} (ht : om.tasks[t]? = some c) (hw : om.Write t l c o f)
      (hrun : l = .go → om.running = some t) :
      Touch om l o x (f x)
  | reported {upd} (hl : l = .callback upd)
      (ho : om.findOrderByBrokerId upd.brokerOrderId = some o) :
      Touch om l o x (x.brokerUpdated upd om.clock)
  | superseded {p} (h : om.replacing l = some (o, x, p)) :
      Touch om l o x (x.superseded om.orders.length)

/-- **The order a step creates**, if it creates one. -/
inductive Created (om : OrderManager) (l : Label) (om' : OrderManager) :
    OrderState → Prop
  | submitted {intent decision emergencyFlatten reprice algo plan}
      (q : 0 < decision.allowedQuantity)
      (hl : l = .submit intent decision emergencyFlatten reprice algo)
      (hplan : plan = planOf intent _ q emergencyFlatten algo om.clock)
      (hfree : ∀ p, intent.positionId = some p → om.activeOrderFor p = none)
      (hcall : om'.placeCalls = om.placeCalls ++ [⟨om.orders.length, plan, none⟩]) :
      Created om l om' (orderOf intent plan om.clock)
  | replaced {o x p} (h : om.replacing l = some (o, x, p))
      (q : 0 < x.quantity - x.filledQuantity) (hp : 0 < p)
      (hcall : om'.placeCalls = om.placeCalls
        ++ [⟨om.orders.length, replacementPlan x _ q p hp, some o⟩]) :
      Created om l om' (replacementOf x (replacementPlan x _ q p hp) om.clock)

/-- Only `submit_intent` and a replacement create an order. -/
theorem not_created {y : OrderState} (hr : om.replacing l = none) (hs : l.submits = false) :
    ¬ Created om l om' y := by
  intro hy
  cases hy with
  | submitted _ hl =>
    rw [hl] at hs
    cases hs
  | replaced h =>
    rw [hr] at h
    cases h

/-- An order is where it was, touched or not; the one order there may be
beyond those is the created one. -/
theorem Effect.lookup (he : Effect om l om') {o : OrderId} {y : OrderState} :
    om'.orders[o]? = some y →
      (∃ x, om.orders[o]? = some x ∧ Touch om l o x y)
        ∨ o = om.orders.length ∧ Created om l om' y := by
  cases he with
  | idle h | called c hc h | moved t c c' ht hn h =>
    rw [h.orders]
    exact fun hy => .inl ⟨y, hy, .kept⟩
  | wrote t c c' i f ht hn hw hrun h =>
    rw [h.orders, List.getElem?_modify_iff]
    rintro ⟨x, hx, rfl⟩
    split_ifs with hi
    · exact .inl ⟨x, hx, .wrote ht (hi ▸ hw) hrun⟩
    · exact .inl ⟨x, hx, .kept⟩
  | chased t i config b status ht hl h =>
    rw [h.orders, List.getElem?_modify_iff]
    rintro ⟨x, hx, rfl⟩
    split_ifs with hi
    · subst hl hi
      exact .inl ⟨x, hx, .wrote ht (.placed rfl) nofun⟩
    · exact .inl ⟨x, hx, .kept⟩
  | reported upd i spawned hl ho hs h =>
    rw [h.orders, List.getElem?_modify_iff]
    rintro ⟨x, hx, rfl⟩
    split_ifs with hi
    · exact .inl ⟨x, hx, .reported hl (hi ▸ ho)⟩
    · exact .inl ⟨x, hx, .kept⟩
  | submitted intent decision emergencyFlatten reprice algo plan q hl hplan hfree h =>
    rw [h.orders, List.getElem?_append]
    split_ifs with hlt
    · exact fun hy => .inl ⟨y, hy, .kept⟩
    · intro hy
      obtain ⟨hi, rfl⟩ := List.getElem?_eq_some_iff.mp hy
      refine .inr ⟨List.eq_of_not_lt hlt hi, ?_⟩
      simpa using Created.submitted q hl hplan hfree h.placeCalls
  | replaced t c r p x q hp hl hrun ht hc hx hrep h =>
    -- the old order is superseded in place, and the new one is appended
    have hrepl : om.replacing l = some (r.current, x, p) :=
      replacing_eq_some.mpr ⟨hl, t, c, r, hrun, ht, hc, rfl, hx, hrep, hp⟩
    rw [h.orders, List.getElem?_append]
    split_ifs with hlt
    · rw [List.getElem?_modify_iff]
      rintro ⟨z, hz, rfl⟩
      split_ifs with hi
      · subst hi
        obtain rfl := Option.some.inj (hz.symm.trans hx)
        exact .inl ⟨z, hz, .superseded hrepl⟩
      · exact .inl ⟨z, hz, .kept⟩
    · intro hy
      obtain ⟨hi, rfl⟩ := List.getElem?_eq_some_iff.mp hy
      rw [List.length_modify] at hlt hi
      refine .inr ⟨List.eq_of_not_lt hlt hi, ?_⟩
      simpa using Created.replaced hrepl q hp h.placeCalls

/-- Orders are never lost. -/
theorem Effect.length_le (he : Effect om l om') :
    om.orders.length ≤ om'.orders.length := by
  cases he with
  | idle h | called _ _ h | moved _ _ _ _ _ h => rw [h.orders]
  | wrote _ _ _ _ _ _ _ _ _ h | chased _ _ _ _ _ _ _ h | reported _ _ _ _ _ _ h =>
    rw [h.orders, List.length_modify]
  | submitted _ _ _ _ _ _ _ _ _ _ h => rw [h.orders, List.length_append]; omega
  | replaced _ _ _ _ _ _ _ _ _ _ _ _ _ h =>
    rw [h.orders, List.length_append, List.length_modify]; omega

/-- **The step seen from one order.** -/
theorem Effect.touch (he : Effect om l om') {o : OrderId} {x : OrderState}
    (hx : om.orders[o]? = some x) :
    ∃ y, om'.orders[o]? = some y ∧ Touch om l o x y := by
  have hlt : o < om.orders.length := (List.getElem?_eq_some_iff.mp hx).1
  obtain ⟨y, hy⟩ : ∃ y, om'.orders[o]? = some y :=
    ⟨_, List.getElem?_eq_getElem (hlt.trans_le he.length_le)⟩
  rcases he.lookup hy with ⟨z, hz, h⟩ | ⟨ho, -⟩
  · obtain rfl := Option.some.inj (hz.symm.trans hx)
    exact ⟨y, hy, h⟩
  · exact absurd ho hlt.ne

/-! ## One coroutine in one step -/

/-- **What one step does to one coroutine that is already there.** -/
inductive Turn (om : OrderManager) (c : Coroutine) : Coroutine → Prop
  | kept : Turn om c c
  | moved {c'} (hn : om.Next c c') : Turn om c c'
  | replaces {r p} (attempts : ℕ) (hc : c.polling = some (r, p)) :
      Turn om c (.replaceAwait { r with attempts := attempts } om.orders.length)

/-- **The coroutine a step starts**, if it starts one. -/
inductive Started (om : OrderManager) (l : Label) : Coroutine → Prop
  | cancels {o hard} : Started om l (.cancelStart o hard .outside)
  | sweeps {now maxAge os} (hl : l = .sweep maxAge) :
      Started om l (.sweepLoop now maxAge os)
  | places {reprice} : Started om l (.placeAwait om.orders.length reprice)
  | chases {t : TaskId} {o : OrderId} {config : RepriceConfig}
      (ht : om.tasks[t]? = some (.placeAwait o (some config))) :
      Started om l (.repricerStart o config)

/-- A coroutine set in its place, seen from any place. -/
theorem turn_of_set {t u : TaskId} {c c' d : Coroutine} (ht : om.tasks[t]? = some c)
    (hturn : om.Turn c c') (hd : (om.tasks.set t c')[u]? = some d) :
    ∃ e, om.tasks[u]? = some e ∧ om.Turn e d := by
  rw [List.getElem?_set] at hd
  split_ifs at hd with hu hlt
  · subst hu
    obtain rfl := Option.some.inj hd
    exact ⟨c, ht, hturn⟩
  · exact ⟨d, hd, .kept⟩

/-- **The step seen from one coroutine**: it is where it was, or it is one
that the step starts. -/
theorem Effect.task (he : Effect om l om') {u : TaskId} {d : Coroutine}
    (hd : om'.tasks[u]? = some d) :
    (∃ c, om.tasks[u]? = some c ∧ om.Turn c d)
      ∨ u = om.tasks.length ∧ om.Started l d := by
  -- a task that is found after an append was there, or is the appended one
  have happend : ∀ {cs : List Coroutine} {c : Coroutine},
      cs.length = om.tasks.length → (cs ++ [c])[u]? = some d →
      cs[u]? = some d ∨ u = om.tasks.length ∧ d = c := by
    intro cs c hlen hu
    rw [List.getElem?_append] at hu
    split_ifs at hu with hlt
    · exact .inl hu
    · obtain ⟨hi, rfl⟩ := List.getElem?_eq_some_iff.mp hu
      exact .inr ⟨hlen ▸ List.eq_of_not_lt hlt hi, by simp⟩
  have hkept : om.tasks[u]? = some d → ∃ c, om.tasks[u]? = some c ∧ om.Turn c d :=
    fun hu => ⟨d, hu, .kept⟩
  cases he with
  | idle h => exact .inl (hkept (h.tasks ▸ hd))
  | called c hc h =>
    rcases happend rfl (h.tasks ▸ hd) with hu | ⟨hu, rfl⟩
    · exact .inl (hkept hu)
    · refine .inr ⟨hu, ?_⟩
      rcases hc with ⟨o, hard, -, rfl⟩ | ⟨now, maxAge, os, hl, rfl⟩
      · exact .cancels
      · exact .sweeps hl
  | moved t c c' ht hn h | wrote t c c' o f ht hn hw hrun h =>
    exact .inl (turn_of_set ht (.moved hn) (h.tasks ▸ hd))
  | chased t o config b status ht hl h =>
    rcases happend (List.length_set ..) (h.tasks ▸ hd) with hu | ⟨hu, rfl⟩
    · exact .inl (turn_of_set ht (.moved .placed) hu)
    · exact .inr ⟨hu, .chases ht⟩
  | reported upd o spawned hl ho hs h =>
    rcases hs with rfl | rfl
    · exact .inl (hkept (by rw [h.tasks] at hd; simpa using hd))
    · rcases happend rfl (h.tasks ▸ hd) with hu | ⟨hu, rfl⟩
      · exact .inl (hkept hu)
      · exact .inr ⟨hu, .cancels⟩
  | submitted intent decision e reprice algo plan q hl hplan hfree h =>
    rcases happend rfl (h.tasks ▸ hd) with hu | ⟨hu, rfl⟩
    · exact .inl (hkept hu)
    · exact .inr ⟨hu, .places⟩
  | replaced t c r p x q hp hl hrun ht hc hx hrep h =>
    exact .inl (turn_of_set ht (.replaces _ hc) (h.tasks ▸ hd))

/-! ### What a step leaves of an order -/

/-- What an order is for never changes. -/
theorem Touch.fixed {o : OrderId} {x y : OrderState} (h : Touch om l o x y) :
    y.positionId = x.positionId ∧ y.isEntry = x.isEntry
      ∧ y.strategyId = x.strategyId ∧ y.contract = x.contract ∧ y.side = x.side
      ∧ y.quantity = x.quantity ∧ y.entryBatch = x.entryBatch := by
  have hfixed : ∀ f : OrderState → OrderState, (∃ c t, om.Write t l c o f) →
      (f x).positionId = x.positionId ∧ (f x).isEntry = x.isEntry
        ∧ (f x).strategyId = x.strategyId ∧ (f x).contract = x.contract
        ∧ (f x).side = x.side ∧ (f x).quantity = x.quantity
        ∧ (f x).entryBatch = x.entryBatch := by
    rintro f ⟨c, t, hw⟩
    cases hw with
    | cancelRequested =>
      rw [OrderState.cancelRequested_eq]
      exact ⟨rfl, rfl, rfl, rfl, rfl, rfl, rfl⟩
    | _ => exact ⟨rfl, rfl, rfl, rfl, rfl, rfl, rfl⟩
  cases h with
  | kept | superseded => exact ⟨rfl, rfl, rfl, rfl, rfl, rfl, rfl⟩
  | wrote ht hw _ => exact hfixed _ ⟨_, _, hw⟩
  | reported =>
    unfold OrderState.brokerUpdated
    split_ifs <;> exact ⟨rfl, rfl, rfl, rfl, rfl, rfl, rfl⟩

/-- A coroutine writes a status it does not look at, or it has seen the
order active and starts to cancel it or cancels it at once, or it leaves
the status. -/
theorem Write.status {o : OrderId} {f : OrderState → OrderState} {x : OrderState}
    (ht : om.tasks[t]? = some c) (hrun : l = .go → om.running = some t)
    (hw : om.Write t l c o f) (hx : om.orders[o]? = some x) :
    (f x).status = x.status
      ∨ om.written l = some (o, (f x).status)
      ∨ x.status.active = true
        ∧ ((f x).status = .cancelPending
          ∨ om.cancelsLocally l = some o ∧ (f x).status = .cancelled) := by
  cases hw with
  | placed hc | placeRaised hc =>
    refine .inr (.inl ?_)
    simp only [written, ht, Option.bind_some]
    cases c <;> cases hc <;> rfl
  | @cancelRequested _ hard k =>
    -- a terminal order is left as it is; another is asked to cancel, or cancelled at once
    cases hd : x.status.terminal with
    | true => left; cases hard <;> simp [OrderState.cancelRequested, hd]
    | false =>
      have ha := OrderStatus.terminal_eq_false_iff.mp hd
      refine .inr (.inr ⟨ha, ?_⟩)
      cases hb : x.brokerOrderId <;> cases hard <;>
        simp [OrderState.cancelRequested, hd, hb, cancelsLocally, hrun, ht, hx, ha]
  | sweptUnsent hx' hp hage hb =>
    obtain rfl := Option.some.inj (hx'.symm.trans hx)
    refine .inr (.inr ⟨by rw [hp]; rfl, .inr ⟨?_, rfl⟩⟩)
    simp [cancelsLocally, hrun, ht, hx, hp, hage, hb]
  | sweptSettled hs =>
    refine .inr (.inl ?_)
    simp [written, ht, Coroutine.written, hs, OrderState.swept]
  | cancelRaised | sweptUnknown =>
    refine .inr (.inl ?_)
    simp only [written, ht, Option.bind_some]
    rfl
  | recancelled | repriced => exact .inl rfl

/-- **The status of an order after a step**: written unseen, or as it was,
or – from an active one – set by a cancel or by a callback. -/
theorem Touch.status {o : OrderId} {x y : OrderState} (h : Touch om l o x y)
    (hx : om.orders[o]? = some x) :
    om.written l = some (o, y.status) ∨ y.status = x.status
      ∨ x.status.active = true
        ∧ (y.status = .cancelPending
          ∨ om.cancelsLocally l = some o ∧ y.status = .cancelled
          ∨ ∃ upd, l = .callback upd
            ∧ om.findOrderByBrokerId upd.brokerOrderId = some o
            ∧ y = x.brokerUpdated upd om.clock) := by
  cases h with
  | kept => exact .inr (.inl rfl)
  | wrote ht hw hrun =>
    rcases hw.status ht hrun hx with h | h | ⟨ha, h | h⟩
    · exact .inr (.inl h)
    · exact .inl h
    · exact .inr (.inr ⟨ha, .inl h⟩)
    · exact .inr (.inr ⟨ha, .inr (.inl h)⟩)
  | @reported upd hl ho =>
    cases hd : x.status.terminal with
    | true =>
      right; left
      simp [OrderState.brokerUpdated, OrderState.ignoresUpdate, hd]
    | false =>
      exact .inr (.inr ⟨OrderStatus.terminal_eq_false_iff.mp hd,
        .inr (.inr ⟨upd, hl, ho, rfl⟩)⟩)
  | superseded => exact .inr (.inl rfl)

/-- The status that is written unseen is the status the order then has. -/
theorem step_written {o : OrderId} {status : OrderStatus} {x : OrderState}
    (h : om.step l = some om') (hw : om.written l = some (o, status))
    (hx : om.orders[o]? = some x) :
    ∃ y, om'.orders[o]? = some y ∧ y.status = status := by
  cases l with
  | resume t reply =>
    simp only [step, Option.ite_none_right_eq_some] at h
    obtain ⟨c, ht, h⟩ := Option.bind_eq_some_iff.mp h.2
    simp only [written, ht, Option.bind_some] at hw
    have hlook (f : OrderState → OrderState) :
        (om.orders.modify o f)[o]? = some (f x) := by
      rw [List.getElem?_modify_eq, hx]; rfl
    cases c with
    | placeAwait i reprice =>
      cases reply <;> cases hw <;> obtain rfl := Option.some.inj h
      · cases reprice <;> exact ⟨_, hlook _, rfl⟩
      · exact ⟨_, hlook _, rfl⟩
    | replaceAwait r n =>
      cases reply <;> cases hw <;> obtain rfl := Option.some.inj h
      · exact ⟨_, hlook _, rfl⟩
      · exact ⟨_, hlook _, rfl⟩
    | cancelAwait i k =>
      cases reply <;> cases hw
      obtain rfl := Option.some.inj h
      -- the return to the caller leaves the orders
      rw [returnFromCancel_orders]
      exact ⟨_, hlook _, rfl⟩
    | sweepQuery now maxAge i rest =>
      cases reply with
      | orderStatus s =>
        cases s with
        | none =>
          cases hw
          obtain rfl := Option.some.inj h
          exact ⟨_, hlook _, rfl⟩
        | some s =>
          simp only [Coroutine.written, Option.ite_none_right_eq_some] at hw
          obtain ⟨hs, hw⟩ := hw
          cases hw
          simp only [resume, sweepQueried, hs, if_true] at h
          obtain rfl := Option.some.inj h
          exact ⟨_, hlook _, rfl⟩
      | _ => cases hw
    | _ => cases reply <;> cases hw
  | _ => cases hw

/-- An order the step cancels locally is `CANCELLED` then. -/
theorem step_cancelsLocally {o : OrderId} (h : om.step l = some om')
    (hl : om.cancelsLocally l = some o) :
    ∃ y, om'.orders[o]? = some y ∧ y.status = .cancelled := by
  cases l with
  | go =>
    obtain ⟨t, hrun, h⟩ := Option.bind_eq_some_iff.mp h
    obtain ⟨c, ht, h⟩ := Option.bind_eq_some_iff.mp h
    simp only [cancelsLocally, hrun, ht, Option.bind_some] at hl
    cases c with
    | cancelStart i hard k =>
      simp only [Option.bind_eq_some_iff, Option.ite_none_right_eq_some] at hl
      obtain ⟨x, hx, ⟨ha, hb⟩, hi⟩ := hl
      obtain rfl := Option.some.inj hi
      have hd : x.status.terminal = false := by simpa using ha
      refine ⟨x.cancelRequested hard om.clock, ?_, ?_⟩
      · obtain rfl := Option.some.inj h
        simp [cancelOrder, hx, hd, hb]
      · cases hard <;> simp [OrderState.cancelRequested, hd, hb]
    | sweepLoop now maxAge os =>
      cases os with
      | nil => cases hl
      | cons i rest =>
        simp only [Option.bind_eq_some_iff, Option.ite_none_right_eq_some] at hl
        obtain ⟨x, hx, ⟨hp, hage, hb⟩, hi⟩ := hl
        obtain rfl := Option.some.inj hi
        refine ⟨x.swept .cancelled now, ?_, rfl⟩
        obtain rfl := Option.some.inj h
        simp [sweepNext, hx, hp, hb, not_lt.mpr hage]
    | _ => cases hl
  | _ => cases hl

/-- The broker id of an order comes from the broker's answer to its
`place_order`. -/
theorem Touch.brokerOrderId {o : OrderId} {x y : OrderState} (h : Touch om l o x y) :
    y.brokerOrderId = x.brokerOrderId
      ∨ ∃ t b status, l = .resume t (.placed b status)
        ∧ om.tasks[t]?.bind (·.placing) = some o ∧ y.brokerOrderId = some b := by
  cases h with
  | kept | superseded => exact .inl rfl
  | reported =>
    left
    unfold OrderState.brokerUpdated
    split_ifs <;> rfl
  | wrote ht hw hrun =>
    cases hw with
    | placed hc => exact .inr ⟨_, _, _, rfl, by simp [ht, hc], rfl⟩
    | cancelRequested =>
      left
      rw [OrderState.cancelRequested_eq]
    | _ => exact .inl rfl

/-- The stored fill of an order comes from a callback. -/
theorem Touch.filledQuantity {o : OrderId} {x y : OrderState} (h : Touch om l o x y) :
    y.filledQuantity = x.filledQuantity
      ∨ ∃ upd, l = .callback upd
        ∧ om.findOrderByBrokerId upd.brokerOrderId = some o
        ∧ y.filledQuantity = upd.filledQuantity := by
  cases h with
  | kept | superseded => exact .inl rfl
  | @reported upd hl ho =>
    unfold OrderState.brokerUpdated
    split_ifs
    · exact .inl rfl
    · exact .inl rfl
    · exact .inr ⟨upd, hl, ho, rfl⟩
  | wrote ht hw hrun =>
    left
    cases hw with
    | cancelRequested =>
      rw [OrderState.cancelRequested_eq]
    | _ => rfl

/-- `_find_order_by_broker_id` finds an order with that id. -/
theorem findOrderByBrokerId_eq_some {b : BrokerOrderId} {o : OrderId}
    (h : om.findOrderByBrokerId b = some o) :
    ∃ x, om.orders[o]? = some x ∧ x.brokerOrderId = some b := by
  obtain ⟨hlt, hb, -⟩ := List.findIdx?_eq_some_iff_getElem.mp h
  exact ⟨_, List.getElem?_eq_getElem hlt, by simpa using hb⟩

/-- A callback is written to the order it is for. -/
theorem step_callback {upd : BrokerUpdate} {o : OrderId} {x : OrderState}
    (h : om.step (.callback upd) = some om')
    (ho : om.findOrderByBrokerId upd.brokerOrderId = some o)
    (hx : om.orders[o]? = some x) :
    om'.orders[o]? = some (x.brokerUpdated upd om.clock) := by
  have hlook : (om.orders.modify o (.brokerUpdated upd om.clock))[o]?
      = some (x.brokerUpdated upd om.clock) := by
    rw [List.getElem?_modify_eq, hx]; rfl
  simp only [step, Option.ite_none_right_eq_some] at h
  obtain rfl := Option.some.inj h.2
  simp only [onBrokerOrderUpdate, ho, hx]
  split_ifs <;> exact hlook

end OrderManager
