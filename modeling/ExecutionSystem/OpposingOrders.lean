import ExecutionSystem.EventLoop
import ExecutionSystem.RunnerSteps

/-!
# Orders that oppose an exit

The broker rejects an order while the other side of the same option is
working. So before the exit check submits an exit it looks at the orders one
after the other and cancels those on the other side. It looks for three of
the five statuses an order can work in, it compares whole contracts, and
what it awaits of a cancel is that the broker was asked.

Where it looks closely enough – every such order is collected, its cancel is
acknowledged by the time the request returns, and meanwhile no other
coroutine brings the other side back – an exit meets no opposing order
(`ExecutionRunner.exitsUnopposed_of_clears`).
-/

/-- The order is for the other side of the option of an exit. -/
def OrderState.against (signal : ExitSignal) (x : OrderState) : Bool :=
  x.contract.identity = signal.2.1.val.contract.identity && x.side ≠ signal.2.1.val.side

/-- **The exit whose way is being cleared**, with the orders that are still
to be looked at. -/
def RunnerPc.clearing : RunnerPc → Option (List OrderId × ExitSignal)
  | exitCancels orders signal _ | awaiting _ (exitCancels orders signal _) =>
    some (orders, signal)
  | _ => none

namespace ExecutionRunner

/-! ## The property and its condition -/

/-- **No exit meets an opposing order**: where the exit check is about to
call `submit_intent`, no order on the other side of the option is in a
status that is not terminal. -/
def ExitsUnopposed (s : ExecutionRunner) : Prop :=
  ∀ (signal : ExitSignal) (rest : List ExitSignal), s.pc = .exitCancels [] signal rest →
    ∀ (o : OrderId) (x : OrderState), s.om.orders[o]? = some x → x.against signal = true →
      x.status.terminal = true

/-- **The step clears the way of an exit.** -/
structure Clears (s : ExecutionRunner) (l : Label) : Prop where
  /-- An opposing order is one that the exit check cancels. -/
  collected : ∀ (o : OrderId) (orders : List OrderId) (signal : ExitSignal)
    (rest : List ExitSignal) (x : OrderState),
    s.pc = .exitCancels (o :: orders) signal rest → s.om.orders[o]? = some x →
      x.against signal = true → x.status.active = true → s.opposes signal o = true
  /-- A request to cancel returns when the cancel is acknowledged. -/
  acknowledged : ∀ (t : TaskId) (orders : List OrderId) (signal : ExitSignal)
    (rest : List ExitSignal) (o : OrderId) (x : OrderState) (accepted : Bool),
    s.pc = .awaiting t (.exitCancels orders signal rest) →
      s.om.tasks[t]? = some (.cancelAwait o .outside) →
      l = .orders (.resume t (.cancelled accepted)) → s.om.orders[o]? = some x →
      x.against signal = true → x.status.terminal = true
  /-- Meanwhile no opposing order is replaced. -/
  unreplaced : ∀ (t : TaskId) (orders : List OrderId) (signal : ExitSignal)
    (rest : List ExitSignal) (ol : OrderManager.Label) (o : OrderId) (x : OrderState)
    (p : Price),
    s.pc = .awaiting t (.exitCancels orders signal rest) → l = .orders ol →
      s.om.replacing ol = some (o, x, p) → x.against signal = false
  /-- Meanwhile no opposing order that is terminal is revived. -/
  unrevived : ∀ (t : TaskId) (orders : List OrderId) (signal : ExitSignal)
    (rest : List ExitSignal) (ol : OrderManager.Label) (o : OrderId) (x : OrderState)
    (status : OrderStatus),
    s.pc = .awaiting t (.exitCancels orders signal rest) → l = .orders ol →
      s.om.written ol = some (o, status) → s.om.orders[o]? = some x →
      x.against signal = true → x.status.terminal = true → status.terminal = true

/-! ## Where the runner clears the way -/

variable {env : RunnerEnv} {s s' : ExecutionRunner} {l : Label}

theorem clearing_awaiting_eq_none {t : TaskId} {pc : RunnerPc} (h : pc.clearing = none) :
    (RunnerPc.awaiting t pc).clearing = none := by
  cases pc <;> first | rfl | cases h

/-- Only the exit check, and what it awaits, leads there. -/
theorem Flow.clearing {pc pc' : RunnerPc} (h : Flow env s l s' pc pc') :
    pc'.clearing = none ∨ pc.exiting = true ∨ ∃ t, pc = .awaiting t pc' := by
  cases h with
  | returned ht => exact .inr (.inr ⟨_, rfl⟩)
  | managed _ hpc' => left; cases pc' <;> first | rfl | cases hpc'
  | manageAwaits _ hpc' =>
    exact .inl (clearing_awaiting_eq_none (by cases ‹RunnerPc› <;> first | rfl | cases hpc'))
  | exitsGoOn hpc | exitAwaits hpc => exact .inr (.inl hpc)
  | _ => exact .inl rfl

/-- **How the runner comes to clear the way of an exit.** -/
inductive Clearing (s s' : ExecutionRunner) : List OrderId → ExitSignal → Prop
  /-- An exit is due. -/
  | begins (signal : ExitSignal) (rest : List ExitSignal) (hom : s'.om = s.om)
      (hpc : s'.pc = .exitCancels (List.range s.om.orders.length) signal rest) :
      Clearing s s' (List.range s.om.orders.length) signal
  /-- The next order is looked at. -/
  | looks (o : OrderId) (orders : List OrderId) (signal : ExitSignal)
      (rest : List ExitSignal) (hpc : s.pc = .exitCancels (o :: orders) signal rest)
      (hs' : s' = if s.opposes signal o then
          s.awaitCancel o true (.exitCancels orders signal rest)
        else s.at' (.exitCancels orders signal rest)) :
      Clearing s s' orders signal
  /-- A cancel has returned. -/
  | returns (t : TaskId) (orders : List OrderId) (signal : ExitSignal)
      (rest : List ExitSignal) {result : Bool}
      (hpc : s.pc = .awaiting t (.exitCancels orders signal rest))
      (ht : s.om.tasks[t]? = some (.done result))
      (hs' : s' = s.at' (.exitCancels orders signal rest)) :
      Clearing s s' orders signal

/-- Before the exits are evaluated nothing is cleared. -/
theorem startExits_clearing : s.startExits.pc.clearing = none := by
  simp only [startExits]
  split_ifs <;> rfl

theorem exitsCollected_clearing (eligible : List ℕ) (quotes : QuoteMap) (bars : BarMap)
    (flagged : List PositionId) :
    (s.exitsCollected env eligible quotes bars flagged).pc.clearing = none := by
  unfold exitsCollected
  split <;> rfl

/-- An exit is throttled, or its way is cleared. -/
theorem exitSignal_clearing {orders : List OrderId} {signal : ExitSignal}
    (rest : List ExitSignal) (h : (s.exitSignal rest).pc.clearing = some (orders, signal)) :
    Clearing s (s.exitSignal rest) orders signal := by
  cases rest with
  | nil => cases h
  | cons next rest =>
    simp only [exitSignal] at h ⊢
    split_ifs at h ⊢
    · cases h
    · cases h
      exact .begins signal rest rfl rfl

/-- The exit is submitted, or the next order is looked at. -/
theorem exitCancel_clearing {orders looked : List OrderId} {signal due : ExitSignal}
    {rest : List ExitSignal} (hpc : s.pc = .exitCancels looked due rest)
    (h : (s.exitCancel env due rest looked).pc.clearing = some (orders, signal)) :
    Clearing s (s.exitCancel env due rest looked) orders signal := by
  cases looked with
  | nil =>
    rcases @awaitSubmit_pc env s due.2.1.val (exitDecision due.2.1)
      (exitReprice env) (.exitSignals rest) with hsub | hsub <;>
    · simp only [exitCancel, hsub] at h
      cases h
  | cons o looked =>
    have hsame : orders = looked ∧ signal = due := by
      simp only [exitCancel] at h
      split_ifs at h <;> cases h <;> exact ⟨rfl, rfl⟩
    obtain ⟨rfl, rfl⟩ := hsame
    exact .looks o orders signal rest hpc rfl

/-- **Every block that leads there is one of these.** -/
theorem block_clearing {orders : List OrderId} {signal : ExitSignal}
    (hwell : s.pc.wellFormed = true) (h : s.block env s.pc = some s')
    (hclear : s'.pc.clearing = some (orders, signal)) : Clearing s s' orders signal := by
  have hflow : Flow env s .run s' s.pc s'.pc := block_flow h
  rcases hflow.clearing with hnone | hexiting | ⟨t, hawait⟩
  · rw [hnone] at hclear
    cases hclear
  · generalize hpc : s.pc = pc at h hexiting
    cases block_cases h with
    | exits =>
      rw [startExits_clearing] at hclear
      cases hclear
    | exitsCollected =>
      rw [exitsCollected_clearing] at hclear
      cases hclear
    | exitSignals rest => exact exitSignal_clearing rest hclear
    | exitCancels looked due rest => exact exitCancel_clearing hpc hclear
    | _ => cases hexiting
  · generalize s'.pc = next at hawait hclear
    rw [hawait] at h hwell
    cases block_cases h with
    | returned _ _ ht =>
      cases next with
      | exitCancels looked due rest =>
        cases hclear
        exact .returns t orders signal rest hawait ht rfl
      | awaiting u inner => cases hwell
      | _ => cases hclear

/-- An answer leads to no such place. -/
theorem answered_clearing {reply : RunnerReply} (h : s.answered env reply s.pc = some s') :
    s'.pc.clearing = none := by
  have hflow : Flow env s (.reply reply) s' s.pc s'.pc := answered_flow rfl h
  rcases hflow.clearing with hnone | hexiting | ⟨t, hawait⟩
  · exact hnone
  · generalize s.pc = pc at h hexiting
    cases answered_cases h with
    | exitsQuoted | exitsFlagged => rfl
    | _ => cases hexiting
  · rw [hawait] at h
    cases h

/-! ## What is still in the way -/

/-- The runner awaits the cancel of the order. -/
def Cancelling (s : ExecutionRunner) (o : OrderId) : Prop :=
  ∃ t next, s.pc = .awaiting t next ∧
    (s.om.tasks[t]? = some (.cancelStart o true .outside)
      ∨ s.om.tasks[t]? = some (.cancelAwait o .outside))

/-- **What may still be in the way of an exit**: the orders that were not
looked at yet, and the one whose cancel is awaited. -/
structure Cleared (s : ExecutionRunner) : Prop where
  wellFormed : s.pc.wellFormed = true
  looked : ∀ (orders : List OrderId) (signal : ExitSignal),
    s.pc.clearing = some (orders, signal) → ∀ (o : OrderId) (x : OrderState),
      s.om.orders[o]? = some x → x.against signal = true → x.status.active = true →
      o ∈ orders ∨ s.Cancelling o

theorem cleared_initial (start : Startup) : (initial start).Cleared where
  wellFormed := rfl
  looked _ _ h := by cases h

/-- Where the orders and the place of the runner stay, so does this. -/
theorem Cleared.of_eq (hs : s.Cleared) (hom : s'.om = s.om) (hpc : s'.pc = s.pc) :
    s'.Cleared := by
  refine ⟨hpc ▸ hs.wellFormed, fun orders signal hclear o x hx hagainst hactive => ?_⟩
  rw [hpc] at hclear
  rw [hom] at hx
  have := hs.looked orders signal hclear o x hx hagainst hactive
  rwa [Cancelling, hom, hpc]

/-- What is for the other side stays so. -/
theorem against_of_touch {signal : ExitSignal} {ol : OrderManager.Label} {o : OrderId}
    {x y : OrderState} (h : s.om.Touch ol o x y) : y.against signal = x.against signal := by
  obtain ⟨-, -, -, hcontract, hside, -⟩ := h.fixed
  rw [OrderState.against, OrderState.against, hcontract, hside]

/-- `cancel_order` leaves an order that works cancelled, or awaits the
broker. -/
theorem cancelOrder_or_awaits {om : OrderManager} {t : TaskId} {o : OrderId}
    {x y : OrderState} {hard : Bool} {k : CancelCaller} (ht : t < om.tasks.length)
    (hx : om.orders[o]? = some x) (hactive : x.status.active = true)
    (hy : (om.cancelOrder t o hard k).orders[o]? = some y) :
    (om.cancelOrder t o hard k).tasks[t]? = some (.cancelAwait o k)
      ∨ y.status.terminal = true := by
  have hterminal : x.status.terminal = false := OrderStatus.terminal_eq_false_iff.mpr hactive
  simp only [OrderManager.cancelOrder, hx, hterminal, Bool.false_eq_true, if_false] at hy ⊢
  cases hb : x.brokerOrderId with
  | none =>
    right
    simp only [hb, OrderManager.returnFromCancel_orders, OrderManager.update_orders,
      List.getElem?_modify_eq, hx] at hy
    obtain rfl := Option.some.inj hy
    have hcancelled : (x.cancelRequested hard om.clock).status = .cancelled := by
      cases hard <;> simp [OrderState.cancelRequested, hterminal, hb]
    rw [hcancelled]
    rfl
  | some b =>
    left
    simp only [OrderManager.suspend_tasks, OrderManager.update_tasks]
    exact List.getElem?_set_self ht

/-- **A cancel that is awaited no more has left its order terminal**, unless
the broker has only been asked. -/
theorem cancelled_or_awaited {om om' : OrderManager} {ol : OrderManager.Label} {t : TaskId}
    {o : OrderId} {x y : OrderState} (h : om.step ol = some om')
    (ht : om.tasks[t]? = some (.cancelStart o true .outside)
      ∨ om.tasks[t]? = some (.cancelAwait o .outside))
    (hx : om.orders[o]? = some x) (hactive : x.status.active = true)
    (hy : om'.orders[o]? = some y) :
    (om'.tasks[t]? = some (.cancelStart o true .outside)
        ∨ om'.tasks[t]? = some (.cancelAwait o .outside))
      ∨ y.status.terminal = true
      ∨ ∃ accepted, ol = .resume t (.cancelled accepted)
        ∧ om.tasks[t]? = some (.cancelAwait o .outside) := by
  rcases ht with ht | ht
  · -- the task has not begun: only its own block changes it
    rcases OrderManager.step_own h ht with hsame | ⟨-, hblock⟩ | ⟨reply, -, hresume⟩
    · exact .inl (.inl hsame)
    · obtain rfl := Option.some.inj hblock
      have hlt : t < om.tasks.length := (List.getElem?_eq_some_iff.mp ht).1
      exact (cancelOrder_or_awaits hlt hx hactive hy).imp .inr .inl
    · cases hresume
  · -- the task awaits the broker: only a reply to it does
    rcases OrderManager.step_own h ht with hsame | ⟨-, hblock⟩ | ⟨reply, hl, hresume⟩
    · exact .inl (.inr hsame)
    · cases hblock
    · cases reply with
      | cancelled accepted => exact .inr (.inr ⟨accepted, hl, ht⟩)
      | raised message =>
        obtain rfl := Option.some.inj hresume
        simp only [OrderManager.returnFromCancel_orders, OrderManager.update_orders,
          List.getElem?_modify_eq, hx] at hy
        obtain rfl := Option.some.inj hy
        exact .inr (.inl rfl)
      | _ => cases hresume

/-- An opposing order that works after a step of the order manager worked
before it. -/
theorem Clears.worked {t : TaskId} {orders : List OrderId} {signal : ExitSignal}
    {rest : List ExitSignal} {ol : OrderManager.Label} {om' : OrderManager} {o : OrderId}
    {y : OrderState} (hclears : s.Clears (.orders ol))
    (hpc : s.pc = .awaiting t (.exitCancels orders signal rest))
    (h : s.om.step ol = some om') (hback : background ol = true)
    (hy : om'.orders[o]? = some y) (hagainst : y.against signal = true)
    (hactive : y.status.active = true) :
    ∃ x, s.om.orders[o]? = some x ∧ x.against signal = true ∧ x.status.active = true := by
  rcases (OrderManager.step_effect h).lookup hy with ⟨x, hx, htouch⟩ | ⟨-, hcreated⟩
  · have hagainst' : x.against signal = true := against_of_touch htouch ▸ hagainst
    refine ⟨x, hx, hagainst', ?_⟩
    rcases htouch.status hx with hwritten | hsame | ⟨hactive', -⟩
    · -- a status that is written over a terminal one would revive the order
      by_contra hdone
      rw [OrderStatus.active_eq_not_terminal, Bool.not_eq_true', Bool.not_eq_false] at hdone
      have := hclears.unrevived t orders signal rest ol o x _ hpc rfl hwritten hx hagainst' hdone
      rw [OrderStatus.active_eq_not_terminal, this] at hactive
      cases hactive
    · exact hsame ▸ hactive
    · exact hactive'
  · cases hr : s.om.replacing ol with
    | none =>
      have hsubmits : ol.submits = false := by cases ol <;> first | rfl | cases hback
      exact absurd hcreated (OrderManager.not_created hr hsubmits)
    | some replaced =>
      obtain ⟨o', x, p⟩ := replaced
      have hnot := hclears.unreplaced t orders signal rest ol o' x p hpc rfl hr
      cases hcreated with
      | submitted _ hl => rw [hl] at hback; cases hback
      | replaced hr' =>
        obtain ⟨-, rfl, -⟩ : _ ∧ _ ∧ _ := by simpa using hr.symm.trans hr'
        exact absurd (hnot.symm.trans hagainst) Bool.false_ne_true

/-- **A step of the order manager** leaves in the way what was in it. -/
theorem Cleared.orders {ol : OrderManager.Label} {om' : OrderManager} (hs : s.Cleared)
    (hclears : s.Clears (.orders ol)) (hbusy : s.busy = false) (hback : background ol = true)
    (h : s.om.step ol = some om') : Cleared { s with om := om' } := by
  refine ⟨hs.wellFormed, fun orders signal hclear o y hy hagainst hactive => ?_⟩
  have hclear' : s.pc.clearing = some (orders, signal) := hclear
  -- while a step of the order manager is taken, the runner awaits something
  obtain ⟨t, rest, hpc⟩ : ∃ t rest, s.pc = .awaiting t (.exitCancels orders signal rest) := by
    cases hpc : s.pc with
    | exitCancels => rw [busy, hpc] at hbusy; cases hbusy
    | awaiting t next =>
      rw [hpc] at hclear'
      cases next with
      | exitCancels looked due rest => cases hclear'; exact ⟨t, rest, rfl⟩
      | _ => cases hclear'
    | _ => rw [hpc] at hclear'; cases hclear'
  obtain ⟨x, hx, hagainst', hactive'⟩ := hclears.worked hpc h hback hy hagainst hactive
  refine (hs.looked orders signal hclear' o x hx hagainst' hactive').imp_right ?_
  rintro ⟨u, next, hpc', hu⟩
  obtain ⟨rfl, rfl⟩ : t = u ∧ _ = next := by simpa using hpc.symm.trans hpc'
  rcases cancelled_or_awaited h hu hx hactive' hy with hu' | hdone | ⟨accepted, hl, ht⟩
  · exact ⟨t, _, hpc, hu'⟩
  · rw [OrderStatus.active_eq_not_terminal, hdone] at hactive
    cases hactive
  · have := hclears.acknowledged t orders signal rest o x accepted hpc ht (hl ▸ rfl) hx hagainst'
    rw [OrderStatus.active_eq_not_terminal, this] at hactive'
    cases hactive'

/-- While the way is cleared, what opposes the exit is still to be looked at. -/
theorem Cleared.mem_of_clearing (hs : s.Cleared) {orders : List OrderId} {signal : ExitSignal}
    {rest : List ExitSignal} (hpc : s.pc = .exitCancels orders signal rest) {o : OrderId}
    {x : OrderState} (hx : s.om.orders[o]? = some x) (hagainst : x.against signal = true)
    (hactive : x.status.active = true) : o ∈ orders := by
  refine (hs.looked orders signal (by rw [hpc]; rfl) o x hx hagainst hactive).resolve_right ?_
  rintro ⟨t, next, hpc', -⟩
  rw [hpc] at hpc'
  cases hpc'

/-- **A block of the runner** takes out of the way what it looks at. -/
theorem Cleared.block (hs : s.Cleared) (hclears : s.Clears .run)
    (h : s.block env s.pc = some s') : s'.Cleared := by
  have hstep : Flow env s .run s' s.pc s'.pc := block_flow h
  refine ⟨hstep.wellFormed hs.wellFormed, fun orders signal hclear o x hx hagainst hactive => ?_⟩
  cases block_clearing hs.wellFormed h hclear with
  | begins signal rest hom =>
    rw [hom] at hx
    exact .inl (List.mem_range.mpr (List.getElem?_eq_some_iff.mp hx).1)
  | looks i orders signal rest hpc hs' =>
    subst hs'
    split_ifs at hx ⊢ with hopposes
    · -- the order that is looked at opposes the exit, and its cancel is awaited
      rcases List.mem_cons.mp (hs.mem_of_clearing hpc hx hagainst hactive) with rfl | hmem
      · refine .inr ⟨s.om.tasks.length, _, rfl, .inl ?_⟩
        exact List.getElem?_append_new _ rfl
      · exact .inl hmem
    · rcases List.mem_cons.mp (hs.mem_of_clearing hpc hx hagainst hactive) with rfl | hmem
      · exact absurd (hclears.collected o orders signal rest x hpc hx hagainst hactive) hopposes
      · exact .inl hmem
  | returns t orders signal rest hpc ht hs' =>
    subst hs'
    -- the task that has returned awaits nothing any more
    have hway := hs.looked orders signal (by rw [hpc]; rfl) o x hx hagainst hactive
    refine .inl (hway.resolve_right ?_)
    rintro ⟨u, next, hpc', hu⟩
    obtain ⟨rfl, rfl⟩ : t = u ∧ _ = next := by simpa using hpc.symm.trans hpc'
    rw [ht] at hu
    rcases hu with hu | hu <;> cases hu

/-- **A step that clears the way keeps account of what is in it.** -/
theorem Cleared.step (hs : s.Cleared) (h : s.step env l = some s') (hclears : s.Clears l) :
    s'.Cleared := by
  cases l with
  | orders ol =>
    simp only [step, Option.ite_none_right_eq_some, Option.map_eq_some_iff] at h
    obtain ⟨⟨hback, hbusy⟩, om, hom, rfl⟩ := h
    exact hs.orders hclears (Bool.not_eq_true _ ▸ hbusy) hback hom
  | fill fill | stop | pause | resume =>
    simp only [step, Option.ite_none_right_eq_some] at h
    obtain rfl := Option.some.inj h.2
    exact hs.of_eq rfl rfl
  | reply reply =>
    simp only [step, Option.ite_none_right_eq_some] at h
    have hflow : Flow env s (.reply reply) s' s.pc s'.pc := answered_flow rfl h.2
    refine ⟨hflow.wellFormed hs.wellFormed, fun orders signal hclear => ?_⟩
    rw [answered_clearing h.2] at hclear
    cases hclear
  | run =>
    simp only [step, Option.ite_none_right_eq_some] at h
    exact hs.block hclears h.2

/-- Once every order has been looked at, nothing is in the way. -/
theorem Cleared.exitsUnopposed (hs : s.Cleared) : s.ExitsUnopposed := by
  intro signal rest hpc o x hx hagainst
  by_contra hdone
  have hactive : x.status.active = true :=
    OrderStatus.terminal_eq_false_iff.mp (Bool.not_eq_true _ ▸ hdone)
  cases hs.mem_of_clearing hpc hx hagainst hactive

/-- **No exit meets an opposing order** in a run that clears the way of each. -/
theorem exitsUnopposed_of_clears (env : RunnerEnv) (start : Startup) (ls : List Label)
    (h : (machine env).Along (fun s l _ => s.Clears l) (initial start) ls) :
    (machine env).Throughout ExitsUnopposed (initial start) ls := by
  rw [Machine.throughout_iff_along]
  exact ⟨(cleared_initial start).exitsUnopposed,
    Machine.along_of_step (fun _ _ _ hs h hclears => hs.step h hclears)
      (fun _ _ _ hs h hclears => (hs.step h hclears).exitsUnopposed) (cleared_initial start) h⟩

/-! ## Runs on fixed inputs -/

/-- What the exit check is about to do clears the way, as far as it can be seen from
the state and the label. -/
def clearsNow (s : ExecutionRunner) (l : Label) : Bool :=
  match s.pc with
  | .exitCancels (o :: _) signal _ =>
    s.om.orders[o]?.all fun x => !(x.against signal && x.status.active) || s.opposes signal o
  | .awaiting t (.exitCancels _ signal _) =>
    match l with
    | .orders ol =>
      ((s.om.replacing ol).all fun r => !r.2.1.against signal)
        && ((s.om.written ol).all fun w => s.om.orders[w.1]?.all fun x =>
          !(x.against signal && x.status.terminal) || w.2.terminal)
        && match ol with
          | .resume u (.cancelled _) => u ≠ t || match s.om.tasks[t]? with
            | some (.cancelAwait o .outside) => s.om.orders[o]?.all fun x =>
              !x.against signal || x.status.terminal
            | _ => true
          | _ => true
    | _ => true
  | _ => true

theorem clears_of_clearsNow (h : clearsNow s l = true) : s.Clears l := by
  refine ⟨?_, ?_, ?_, ?_⟩
  · intro o orders signal rest x hpc hx hagainst hactive
    unfold clearsNow at h
    simpa [hpc, hx, hagainst, hactive] using h
  · rintro t orders signal rest o x accepted hpc htask rfl hx hagainst
    unfold clearsNow at h
    simp [hpc, htask, hx, hagainst] at h
    exact h.2
  · rintro t orders signal rest ol o x p hpc rfl hr
    unfold clearsNow at h
    simp only [hpc, hr, Option.all_some, Bool.and_eq_true, Bool.not_eq_true'] at h
    exact h.1.1
  · rintro t orders signal rest ol o x status hpc rfl hw hx hagainst hterminal
    unfold clearsNow at h
    simp only [hpc, hw, hx, hagainst, hterminal, Option.all_some, Bool.and_eq_true,
      Bool.and_true, Bool.not_true, Bool.false_or] at h
    exact h.1.2

/-- The statuses of the orders that oppose the exit about to be submitted. -/
def opposing (s : ExecutionRunner) : List OrderStatus :=
  match s.pc with
  | .exitCancels [] signal _ => (s.om.orders.filter (·.against signal)).map (·.status)
  | _ => []

theorem ExitsUnopposed.opposing (h : s.ExitsUnopposed) :
    ∀ status ∈ s.opposing, status.terminal = true := by
  intro status hmem
  unfold ExecutionRunner.opposing at hmem
  split at hmem
  · rename_i signal rest hpc
    obtain ⟨x, hx, rfl⟩ := List.mem_map.mp hmem
    obtain ⟨hx, hagainst⟩ := List.mem_filter.mp hx
    obtain ⟨o, hx⟩ := List.getElem?_of_mem hx
    exact h signal rest hpc o x hx hagainst
  · cases hmem

/-- A position on the option is held by another strategy. -/
def heldElsewhere : Startup :=
  { sampleStartup with positions := [{ samplePosition with strategyId := "held" }] }

/-- The operator flattens the book in the first tick, up to its entry
phase. -/
def flattenFirst : List Label :=
  tickStart [.flattenAll] ++ [.run, .run, .run, .orders .go, .run, .run, .run, .run]

/-- The exit phase gets its quotes and comes to the exit. -/
def exitDue : List Label :=
  [ .run, .reply (.marketData (sampleQuotes none (some sampleOptionQuote)) fun _ => none),
    .run, .run ]

/-- The broker acknowledges the cancel before the request returns, and the exit is
submitted. -/
def exitAcknowledged : List Label :=
  flattenFirst ++ sampleEntry ++ [.orders (.resume 1 (.placed 0 .submitted)), .run, .run, .run]
    ++ exitDue ++ [.run, .orders .go,
      .orders (.callback { brokerOrderId := 0, status := .cancelled, filledQuantity := 0 }),
      .orders (.resume 3 (.cancelled true)), .run]

/-- **The other side is cancelled** by the time the exit is submitted. -/
theorem exitsUnopposed_exitAcknowledged :
    ((machine sampleEnv).run (initial heldElsewhere) exitAcknowledged).map (·.opposing)
        = some [.cancelled]
      ∧ (machine sampleEnv).Throughout ExitsUnopposed (initial heldElsewhere)
        (exitAcknowledged ++ [.run]) := by
  refine ⟨by decide +kernel, ?_⟩
  have hclears : (machine sampleEnv).Along (fun s l _ => clearsNow s l = true)
      (initial heldElsewhere) (exitAcknowledged ++ [.run]) := by decide +kernel
  exact exitsUnopposed_of_clears sampleEnv heldElsewhere _
    (hclears.mono fun _ _ _ h => clears_of_clearsNow h)

/-- The strategy enters on the other side; the broker accepts the entry,
and then the request to cancel it. -/
def exitOpposed : List Label :=
  flattenFirst ++ sampleEntry ++ [.orders (.resume 1 (.placed 0 .submitted)), .run, .run, .run]
    ++ exitDue ++ [.run, .orders .go, .orders (.resume 3 (.cancelled true)), .run]

/-- **An exit is submitted while the cancel of the other side is pending.** -/
theorem not_exitsUnopposed :
    ¬ ∀ env start ls, (machine env).Throughout ExitsUnopposed (initial start) ls := by
  intro h
  have hrun : ((machine sampleEnv).run (initial heldElsewhere) exitOpposed).map (·.opposing)
      = some [.cancelPending] := by decide +kernel
  obtain ⟨s, hs, hopposing⟩ := Option.map_eq_some_iff.mp hrun
  have hdone := (h sampleEnv heldElsewhere exitOpposed exitOpposed s List.prefix_rfl hs).opposing
    .cancelPending (hopposing ▸ List.mem_singleton_self _)
  cases hdone

end ExecutionRunner
