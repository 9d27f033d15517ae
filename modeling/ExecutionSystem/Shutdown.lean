import ExecutionSystem.Clock
import ExecutionSystem.EventLoop
import ExecutionSystem.FlattenLatch
import ExecutionSystem.HardCancel

/-!
# The shutdown

`_shutdown` of the runner, with everything that goes on beside it. It
collects the orders in `NEW`, `SUBMITTED` and `PARTIALLY_FILLED`, cancels
them one after the other – each of these calls awaits the broker –, waits up
to five seconds for the acknowledgements and disconnects. It looks at no
coroutine: the repricers of the orders go on during its awaits, and after.
-/

/-! ## `_shutdown` -/

/-- The orders the shutdown cancels. -/
def OrderStatus.collected : OrderStatus → Bool
  | new | submitted | partiallyFilled => true
  | _ => false

/-- The orders it waits for. -/
def OrderStatus.unacknowledged : OrderStatus → Bool
  | new | submitted | partiallyFilled | cancelPending => true
  | _ => false

/-- The coroutine has returned. -/
def Coroutine.isDone : Coroutine → Bool
  | done _ => true
  | _ => false

/-- **The place in the source where the shutdown stands.** -/
inductive ShutdownPc where
  /-- About to collect the active orders. -/
  | collecting
  /-- At the head of the loop that cancels them. -/
  | cancelling (active rest : List OrderId)
  /-- … awaiting `cancel_order`, the coroutine `t`. -/
  | awaitCancel (t : TaskId) (active rest : List OrderId)
  /-- About to look whether all are acknowledged, with so many looks left. -/
  | waiting (active : List OrderId) (looks : ℕ)
  /-- In the sleep between two looks. -/
  | sleeping (active : List OrderId) (looks : ℕ) (wakeAt : Time)
  /-- About to call `broker.disconnect`. -/
  | disconnecting
  | disconnected
  deriving DecidableEq

namespace OrderManager

/-- The orders in dictionary order whose status is one of those collected. -/
def collected (om : OrderManager) : List OrderId :=
  (List.range om.orders.length).filter fun o => om.orders[o]?.any (·.status.collected)

/-- Whether all of these are acknowledged. -/
def acknowledged (om : OrderManager) (active : List OrderId) : Bool :=
  active.all fun o => !om.orders[o]?.any (·.status.unacknowledged)

end OrderManager

/-- **The state of the shutdown**: the order manager with the broker, and
where `_shutdown` stands. -/
structure Shutdown where
  session : BrokerSession
  pc : ShutdownPc := .collecting

namespace Shutdown

/-- What can happen next. -/
inductive Label where
  /-- The repricers, and the broker. -/
  | session (l : BrokerSession.Label)
  /-- The shutdown takes its next block. -/
  | run

/-- Whether the shutdown is in a stretch of code without `await`. -/
def busy (s : Shutdown) : Bool :=
  match s.pc with
  | .collecting | .cancelling .. | .waiting .. | .disconnecting => true
  | .awaitCancel t _ _ => s.session.om.tasks[t]?.any (·.isDone)
  | .sleeping .. | .disconnected => false

/-- Whether the step can be taken beside the shutdown. The main loop is
over, so nothing is submitted, cancelled or swept from outside. -/
def admits (s : Shutdown) : BrokerSession.Label → Bool
  | .program l => ExecutionRunner.background l && !s.busy
  | .deliver _ => !s.busy
  | _ => true

/-- The shutdown goes on at another place. -/
def at' (s : Shutdown) (pc : ShutdownPc) : Shutdown := { s with pc := pc }

/-- `await self.order_manager.cancel_order(o.order_id)`: a hard cancel. -/
def awaitCancel (s : Shutdown) (o : OrderId) (active rest : List OrderId) : Shutdown where
  session := { s.session with om := s.session.om.call (.cancelStart o true .outside) }
  pc := .awaitCancel s.session.om.tasks.length active rest

/-- The next block of the shutdown. -/
def block (s : Shutdown) : ShutdownPc → Option Shutdown
  | .collecting => some (s.at' (.cancelling s.session.om.collected s.session.om.collected))
  | .cancelling active [] =>
    some (s.at' (if active.isEmpty then .disconnecting else .waiting active 50))
  | .cancelling active (o :: rest) => some (s.awaitCancel o active rest)
  | .awaitCancel t active rest =>
    if s.session.om.tasks[t]?.any (·.isDone) then some (s.at' (.cancelling active rest)) else none
  | .waiting _ 0 => some (s.at' .disconnecting)
  | .waiting active (looks + 1) =>
    if s.session.om.acknowledged active then some (s.at' .disconnecting)
    else some (s.at' (.sleeping active looks (s.session.om.clock + 1 / 10)))
  | .sleeping active looks wakeAt =>
    if wakeAt ≤ s.session.om.clock then some (s.at' (.waiting active looks)) else none
  | .disconnecting => some (s.at' .disconnected)
  | .disconnected => none

/-- **One step of the shutdown, or of something beside it.** -/
def step (s : Shutdown) : Label → Option Shutdown
  | .session l =>
    if s.admits l then (s.session.step l).map fun b => { s with session := b } else none
  | .run => if s.session.om.running.isNone then s.block s.pc else none

/-- The shutdown, the repricers and the broker, interleaved. -/
def machine : Machine Shutdown Label where
  step := step

/-- Steps beside the shutdown. -/
def beside (ls : List BrokerSession.Label) : List Label := ls.map .session

end Shutdown

/-- `_shutdown` starts. -/
def TradingSession.shutdown (s : TradingSession) : Shutdown where
  session := s.session

/-! ## Repricers that are spent -/

/-- **The repricer will not ask for another quote**: it is giving up, or
will be out of time or of attempts when its sleep is over. -/
def Coroutine.givesUp (now : Time) : Coroutine → Bool
  | repricerSleep r wakeAt =>
    r.config.timeoutSeconds ≤ max now wakeAt - r.startTime || r.config.maxAttempts ≤ r.attempts
  | cancelStart _ _ (.giveUp _) => true
  | cancelAwait _ (.giveUp _) => true
  | _ => false

namespace OrderManager

/-- **The coroutine that owns the order will not replace it**: the order is
hard-cancelled, or over, or the repricer gives up. -/
def Spent (om : OrderManager) (c : Coroutine) (o : OrderId) : Prop :=
  (∃ x, om.orders[o]? = some x ∧ x.hardCancel = true) ∨ om.Retired o
    ∨ c.givesUp om.clock = true

/-- **Nothing is placed, or going to be** – but for what is to be replaced
of some orders. -/
structure Quiet (om : OrderManager) (exempt : OrderId → Prop) : Prop where
  placing : ∀ (t : TaskId) (c : Coroutine), om.tasks[t]? = some c → c.placing = none
  repricers : ∀ (t : TaskId) (c : Coroutine) (o : OrderId), om.tasks[t]? = some c →
    c.owner = some o → exempt o ∨ om.Spent c o

variable {om om' : OrderManager} {l : Label} {exempt : OrderId → Prop}

theorem Quiet.mono {exempt' : OrderId → Prop} (h : om.Quiet exempt)
    (hle : ∀ o, exempt o → exempt' o) : om.Quiet exempt' where
  placing := h.placing
  repricers t c o ht hc := (h.repricers t c o ht hc).imp_left (hle o)

/-- Nothing is replaced: the repricer that runs is about no order that is
being hard-cancelled. -/
theorem Quiet.not_replacing (h : om.Quiet om.HardCancelling) : om.replacing l = none := by
  refine Option.eq_none_iff_forall_ne_some.mpr fun ⟨o, x, p⟩ hr => ?_
  obtain ⟨-, t, c, r, hrun, ht, hc, rfl, hx, hrep, -⟩ := replacing_eq_some.mp hr
  rcases h.repricers t c _ ht (Coroutine.owner_of_polling hc) with
    ⟨u, k, hu, htask⟩ | ⟨y, hy, hmark⟩ | hretired | hgives
  · obtain rfl := Option.some.inj (hrun.symm.trans hu)
    obtain rfl := Option.some.inj (ht.symm.trans htask)
    cases hc
  · exact not_replacing_of_marked hy hmark hr
  · exact hretired.not_replacing hr
  · cases c <;> cases hc <;> cases hgives

/-- **Where a coroutine was before a step that places nothing**: it had its
order already. -/
theorem turn_of_quiet (h : om.Quiet exempt) (hown : om.Owned) (hstep : om.step l = some om')
    (hr : om.replacing l = none) (hs : l.submits = false) {u : TaskId} {d : Coroutine}
    (hd : om'.tasks[u]? = some d) :
    d.placing = none ∧ ∀ o, d.owner = some o →
      ∃ c, om.tasks[u]? = some c ∧ c.owner = some o ∧ (d = c ∨ om.Next c d) := by
  have he := step_effect hstep
  have hnew : d.owner ≠ some om.orders.length := by
    intro howner
    obtain ⟨y, hy, -⟩ := (hown.step hstep).free _ (mem_owners hd howner)
    rcases he.lookup hy with ⟨x, hx, -⟩ | ⟨-, hcreated⟩
    · exact absurd (List.getElem?_eq_some_iff.mp hx).1 (lt_irrefl _)
    · exact not_created hr hs hcreated
  rcases he.task hd with ⟨c, hc, hturn⟩ | ⟨-, hstart⟩
  · cases hturn with
    | kept => exact ⟨h.placing u d hc, fun o ho => ⟨d, hc, ho, .inl rfl⟩⟩
    | replaces => exact absurd rfl hnew
    | moved hn =>
      refine ⟨hn.placing, fun o ho => ⟨c, hc, ?_, .inr hn⟩⟩
      rcases hn.owner with hsame | hnone
      · exact hsame.symm.trans ho
      · rw [hnone] at ho
        cases ho
  · cases hstart with
    | cancels | sweeps => exact ⟨rfl, fun o ho => by cases ho⟩
    | places => exact absurd rfl hnew
    | chases ht => cases h.placing _ _ ht

/-- A repricer that gives up goes on doing so, or is done. -/
theorem givesUp_step (hstep : om.step l = some om') (hwoken : om.Woken) {u : TaskId}
    {c d : Coroutine} (hc : om.tasks[u]? = some c) (hd : om'.tasks[u]? = some d)
    (hturn : d = c ∨ om.Next c d) (hgives : c.givesUp om.clock = true) :
    d.givesUp om'.clock = true ∨ d.owner = none := by
  have hclock := clock_step hstep
  cases c with
  | repricerSleep r wakeAt =>
    have hover : r.config.timeoutSeconds ≤ max om.clock wakeAt - r.startTime
        ∨ r.config.maxAttempts ≤ r.attempts := by
      simpa [Coroutine.givesUp] using hgives
    rcases step_sleeper hstep hc with hsame | ⟨hrun, rfl⟩
    · left
      obtain rfl := Option.some.inj (hd.symm.trans hsame)
      have hmax : max om.clock wakeAt ≤ max om'.clock wakeAt := max_le_max_right _ hclock
      simp only [Coroutine.givesUp, Bool.or_eq_true, decide_eq_true_eq]
      exact hover.imp_left fun h => h.trans (sub_le_sub_right hmax _)
    · -- it was woken after its sleep, so it sees what was foreseen
      rw [max_eq_left (hwoken u r wakeAt hrun hc)] at hover
      have hset (e : Coroutine) : (om.tasks.set u e)[u]? = some e :=
        List.getElem?_set_self (List.getElem?_eq_some_iff.mp hc).1
      simp only [repricerWoken, if_pos hover] at hd
      split at hd
      · right
        rw [suspend_tasks, hset] at hd
        exact Option.some.inj hd ▸ rfl
      · split_ifs at hd
        · right
          rw [suspend_tasks, hset] at hd
          exact Option.some.inj hd ▸ rfl
        · left
          rw [goOn_tasks, hset] at hd
          exact Option.some.inj hd ▸ rfl
  | cancelStart o hard k =>
    cases k with
    | outside | replace => cases hgives
    | giveUp r =>
      rcases hturn with rfl | hn
      · exact .inl rfl
      · cases hn with
        | cancelSent => exact .inl rfl
        | cancelUnknown | cancelDone | cancelLocally => exact .inr rfl
        | pollEnds hpoll | pollWaits hpoll => cases hpoll
  | cancelAwait o k =>
    cases k with
    | outside | replace => cases hgives
    | giveUp r =>
      rcases hturn with rfl | hn
      · exact .inl rfl
      · cases hn with
        | cancelReturned => exact .inr rfl
        | pollEnds hpoll | pollWaits hpoll => cases hpoll
  | _ => cases hgives

/-- **Nothing is placed, and one step of the hard cancel later no order is
left that could be replaced.** -/
theorem Quiet.step (h : om.Quiet om.HardCancelling) (hown : om.Owned) (haimed : om.Aimed)
    (hwoken : om.Woken) (hstep : om.step l = some om') (hs : l.submits = false) :
    om'.placeCalls = om.placeCalls ∧ om'.Quiet fun _ => False := by
  have he := step_effect hstep
  have hr := h.not_replacing (l := l)
  refine ⟨he.placeCalls_eq hr hs, fun u d hd => (turn_of_quiet h hown hstep hr hs hd).1,
    fun u d o hd ho => .inr ?_⟩
  obtain ⟨c, hc, hco, hturn⟩ := (turn_of_quiet h hown hstep hr hs hd).2 o ho
  rcases h.repricers u c o hc hco with hcancel | ⟨x, hx, hmark⟩ | hretired | hgives
  · obtain ⟨x, hx, hfree⟩ := hown.free o (mem_owners hc hco)
    obtain ⟨y, hy, hmark, -⟩ := (hcancel.step hx hfree hstep).marked
    exact .inl ⟨y, hy, hmark⟩
  · obtain ⟨y, hy, htouch⟩ := he.touch hx
    exact .inl ⟨y, hy, htouch.hardCancel hmark⟩
  · exact .inr (.inl (hretired.step haimed he))
  · rcases givesUp_step hstep hwoken hc hd hturn hgives with hgives | hnone
    · exact .inr (.inr hgives)
    · rw [hnone] at ho
      cases ho

/-- `cancel_order` can be called while no coroutine runs. -/
theorem step_cancel_of_idle (hidle : om.running = none) (o : OrderId) :
    om.step (.cancel o true) = some (om.call (.cancelStart o true .outside)) := by
  simp [OrderManager.step, hidle]

/-- The call of a hard cancel adds nothing that could place an order. -/
theorem Quiet.call (h : om.Quiet exempt) (hidle : om.running = none) (haimed : om.Aimed)
    {o : OrderId} (hexempt : ∀ i, exempt i → i = o) :
    (om.call (.cancelStart o true .outside)).Quiet
      (om.call (.cancelStart o true .outside)).HardCancelling := by
  have he := step_effect (step_cancel_of_idle hidle o)
  refine ⟨fun t c hc => ?_, fun t c i hc hi => ?_⟩
  · rcases List.getElem?_append_cases hc with hc | ⟨-, rfl⟩
    · exact h.placing t c hc
    · rfl
  · rcases List.getElem?_append_cases hc with hc | ⟨-, rfl⟩
    · rcases h.repricers t c i hc hi with hi | hmark | hretired | hgives
      · obtain rfl := hexempt i hi
        exact .inl ⟨om.tasks.length, .outside, rfl, List.getElem?_append_new _ rfl⟩
      · exact .inr (.inl hmark)
      · exact .inr (.inr (.inl (hretired.step haimed he)))
      · exact .inr (.inr (.inr hgives))
    · cases hi

end OrderManager

/-! ## The property and its condition -/

/-- The orders that are to be seen off from here on. -/
def ShutdownPc.active (om : OrderManager) : ShutdownPc → List OrderId
  | collecting => om.collected
  | cancelling active _ | awaitCancel _ active _ => active
  | waiting active _ | sleeping active _ _ => active
  | disconnecting | disconnected => []

namespace Shutdown

/-- A call of the broker raises. -/
def Label.raises : Label → Bool
  | .session (.program (.resume _ (.raised _))) => true
  | _ => false

/-- A report is delivered that refuses a request about an order, and says
nothing of the order. -/
def refuses (s : Shutdown) : Label → Bool
  | .session (.deliver i) => s.session.reports[i]?.any fun upd =>
    (upd.status = .rejected || upd.status = .error)
      && !s.session.broker[upd.brokerOrderId]?.any (·.status = upd.status)
  | _ => false

/-- **The orders the shutdown has to see off** before it disconnects. -/
def active (s : Shutdown) : List OrderId := s.pc.active s.session.om

/-- **The broker's calls succeed, and it acknowledges within the wait**: the
connection is up, no call raises and no request is refused; and when the
shutdown goes on to disconnect, the orders it has cancelled are over as far
as it knows. -/
structure Succeeds (s : Shutdown) (l : Label) (t : Shutdown) : Prop where
  connected : s.session.connected = true
  returns : l.raises = false
  accepts : s.refuses l = false
  acknowledges : t.pc = .disconnecting → ∀ o ∈ s.active,
    s.session.om.orders[o]?.any (·.status.terminal) = true

instance (s : Shutdown) (l : Label) (t : Shutdown) : Decidable (s.Succeeds l t) :=
  decidable_of_iff (s.session.connected = true ∧ l.raises = false ∧ s.refuses l = false
      ∧ (t.pc = .disconnecting → ∀ o ∈ s.active,
        s.session.om.orders[o]?.any (·.status.terminal) = true))
    ⟨fun ⟨h₁, h₂, h₃, h₄⟩ => ⟨h₁, h₂, h₃, h₄⟩, fun ⟨h₁, h₂, h₃, h₄⟩ => ⟨h₁, h₂, h₃, h₄⟩⟩

/-- **The shutdown leaves nothing behind**: no call of `place_order` starts
after it, and no order works at the broker when it disconnects where the
broker's calls succeed and it acknowledges in time. -/
structure LeavesNothing (s : Shutdown) (ls : List Label) : Prop where
  places : machine.Throughout (fun t => t.session.om.placeCalls = s.session.om.placeCalls) s ls
  works : machine.Along Succeeds s ls →
    machine.Throughout (fun t => t.pc = .disconnecting → ∀ o, ¬ t.session.Working o) s ls

end Shutdown

/-- **The session can be shut down**: no `place_order` is in flight; the
repricers that could still replace an order are about the first one to be
collected, and so about none that is in the middle of a routine cancel; and
what works at the broker is collected, and known by its broker id. -/
structure TradingSession.CanStop (s : TradingSession) : Prop where
  quiet : s.runner.om.Quiet fun o =>
    s.runner.om.orders.findIdx? (·.status.collected) = some o
  working : ∀ o, s.session.Working o → ∃ x b, s.runner.om.orders[o]? = some x
    ∧ x.status.collected = true ∧ x.brokerOrderId = some b

/-! ## One step -/

/-- The order whose repricer is about to be stopped. -/
def ShutdownPc.exempt (om : OrderManager) (o : OrderId) : ShutdownPc → Prop
  | collecting => om.collected.head? = some o
  | cancelling active rest => rest = active ∧ active.head? = some o
  | awaitCancel .. => om.HardCancelling o
  | _ => False

/-- **Where the shutdown goes** in a block that calls nothing. -/
inductive ShutdownPc.Move (om : OrderManager) : ShutdownPc → ShutdownPc → Prop
  | collects : Move om .collecting (.cancelling om.collected om.collected)
  | cancelled {active} : Move om (.cancelling active []) (.waiting active 50)
  | idle : Move om (.cancelling [] []) .disconnecting
  | returned {t active rest} : Move om (.awaitCancel t active rest) (.cancelling active rest)
  | waited {active looks} : Move om (.waiting active looks) .disconnecting
  | sleeps {active looks wakeAt} :
      Move om (.waiting active (looks + 1)) (.sleeping active looks wakeAt)
  | wakes {active looks wakeAt} :
      Move om (.sleeping active looks wakeAt) (.waiting active looks)
  | ends : Move om .disconnecting .disconnected

theorem ShutdownPc.Move.exempt {om : OrderManager} {pc pc' : ShutdownPc} (h : Move om pc pc')
    (hidle : om.running = none) {o : OrderId} (ho : pc.exempt om o) : pc'.exempt om o := by
  cases h with
  | collects => exact ⟨rfl, ho⟩
  | cancelled | idle =>
    obtain ⟨hrest, hhead⟩ := ho
    rw [← hrest] at hhead
    cases hhead
  | returned =>
    obtain ⟨t, k, hrun, -⟩ := ho
    rw [hidle] at hrun
    cases hrun
  | waited | sleeps | wakes | ends => exact ho

/-- What is to be seen off stays, unless the shutdown goes on to
disconnect. -/
theorem ShutdownPc.Move.active {om : OrderManager} {pc pc' : ShutdownPc} (h : Move om pc pc') :
    pc'.active om = pc.active om ∨ pc' = .disconnecting := by
  cases h with
  | idle | waited => exact .inr rfl
  | _ => exact .inl rfl

namespace Shutdown

variable {s t : Shutdown} {l : Label}

/-- **A block of the shutdown** moves it, or calls `cancel_order`. -/
theorem step_run (h : s.step .run = some t) :
    s.session.om.running = none
      ∧ (t.session = s.session ∧ s.pc.Move s.session.om t.pc
        ∨ ∃ o active rest, s.pc = .cancelling active (o :: rest)
          ∧ t = s.awaitCancel o active rest) := by
  obtain ⟨hidle, h⟩ := Option.ite_none_right_eq_some.mp h
  refine ⟨Option.isNone_iff_eq_none.mp hidle, ?_⟩
  cases hpc : s.pc with
  | collecting =>
    rw [hpc] at h
    obtain rfl := Option.some.inj h
    exact .inl ⟨rfl, .collects⟩
  | cancelling active rest =>
    rw [hpc] at h
    cases rest with
    | nil =>
      obtain rfl := Option.some.inj h
      refine .inl ⟨rfl, ?_⟩
      cases active with
      | nil => exact .idle
      | cons o active => exact .cancelled
    | cons o rest => exact .inr ⟨o, active, rest, rfl, (Option.some.inj h).symm⟩
  | awaitCancel u active rest =>
    rw [hpc] at h
    obtain ⟨-, h⟩ := Option.ite_none_right_eq_some.mp h
    obtain rfl := Option.some.inj h
    exact .inl ⟨rfl, .returned⟩
  | waiting active looks =>
    rw [hpc] at h
    cases looks with
    | zero =>
      obtain rfl := Option.some.inj h
      exact .inl ⟨rfl, .waited⟩
    | succ looks =>
      simp only [block] at h
      split_ifs at h
      · obtain rfl := Option.some.inj h
        exact .inl ⟨rfl, .waited⟩
      · obtain rfl := Option.some.inj h
        exact .inl ⟨rfl, .sleeps⟩
  | sleeping active looks wakeAt =>
    rw [hpc] at h
    obtain ⟨-, h⟩ := Option.ite_none_right_eq_some.mp h
    obtain rfl := Option.some.inj h
    exact .inl ⟨rfl, .wakes⟩
  | disconnecting =>
    rw [hpc] at h
    obtain rfl := Option.some.inj h
    exact .inl ⟨rfl, .ends⟩
  | disconnected =>
    rw [hpc] at h
    cases h

/-- **A step for the order manager and the broker**: none, or one beside
the shutdown, or a call of `cancel_order`. -/
theorem step_session (h : s.step l = some t) :
    t.session = s.session ∨ ∃ bl, s.session.step bl = some t.session
      ∧ (l = .session bl ∧ s.admits bl = true ∧ t.pc = s.pc
        ∨ ∃ o, bl = .program (.cancel o true)) := by
  cases l with
  | session bl =>
    obtain ⟨hadmits, h⟩ := Option.ite_none_right_eq_some.mp h
    obtain ⟨b, hb, rfl⟩ := Option.map_eq_some_iff.mp h
    exact .inr ⟨bl, hb, .inl ⟨rfl, hadmits, rfl⟩⟩
  | run =>
    obtain ⟨hidle, ⟨hsame, -⟩ | ⟨o, active, rest, -, rfl⟩⟩ := step_run h
    · exact .inl hsame
    · refine .inr ⟨.program (.cancel o true), ?_, .inr ⟨o, rfl⟩⟩
      simp [BrokerSession.step, BrokerSession.answers, OrderManager.step, hidle, awaitCancel]

/-! ## Nothing is placed -/

/-- **What holds from the start of the shutdown on**: no call of
`place_order` has been added to the first ones, and none is going to be. -/
structure Stopping (calls : List PlaceCall) (s : Shutdown) : Prop where
  calls : s.session.om.placeCalls = calls
  sound : s.session.Sound
  aimed : s.session.om.Aimed
  woken : s.session.om.Woken
  quiet : s.session.om.Quiet fun o => s.pc.exempt s.session.om o

/-- While a program step can be taken beside the shutdown, no order is
exempt but one that is being hard-cancelled. -/
theorem exempt_of_not_busy (h : s.busy = false) {o : OrderId}
    (ho : s.pc.exempt s.session.om o) : s.session.om.HardCancelling o := by
  rw [busy] at h
  cases hpc : s.pc with
  | awaitCancel => rwa [hpc] at ho
  | sleeping | disconnected =>
    rw [hpc] at ho
    cases ho
  | _ =>
    rw [hpc] at h
    cases h

/-- The order manager's part in a step beside the shutdown. -/
theorem admits_program {bl : BrokerSession.Label} {k : OrderManager.Label}
    (h : s.admits bl = true) (hk : s.session.program? bl = some k) :
    s.busy = false ∧ k.submits = false := by
  cases bl with
  | program ol =>
    obtain rfl := Option.some.inj hk
    simp only [admits, Bool.and_eq_true, Bool.not_eq_true'] at h
    exact ⟨h.2, by cases ol <;> first | rfl | cases h.1⟩
  | deliver i =>
    obtain ⟨upd, -, rfl⟩ := Option.map_eq_some_iff.mp hk
    simpa [admits, OrderManager.Label.submits] using h
  | _ => cases hk

theorem Stopping.step {calls : List PlaceCall} (h : s.Stopping calls)
    (hstep : s.step l = some t) : t.Stopping calls := by
  have hsound : t.session.Sound := by
    rcases step_session hstep with hsame | ⟨bl, hbl, -⟩
    · exact hsame ▸ h.sound
    · exact h.sound.step hbl
  cases l with
  | session bl =>
    obtain ⟨hadmits, hmap⟩ := Option.ite_none_right_eq_some.mp hstep
    obtain ⟨b, hb, rfl⟩ := Option.map_eq_some_iff.mp hmap
    rcases BrokerSession.step_om hb with ⟨-, hom⟩ | ⟨k, hk, hom, -⟩
    · refine ⟨?_, hsound, ?_, ?_, ?_⟩ <;> simp only [hom]
      · exact h.calls
      · exact h.aimed
      · exact h.woken
      · exact h.quiet
    · obtain ⟨hbusy, hsubmits⟩ := admits_program hadmits hk
      have hquiet := h.quiet.mono fun _ => exempt_of_not_busy hbusy
      obtain ⟨hcalls, hquiet⟩ := hquiet.step h.sound.chained.owned h.aimed h.woken hom hsubmits
      exact ⟨hcalls.trans h.calls, hsound, h.aimed.step (OrderManager.step_effect hom),
        OrderManager.woken_step hom, hquiet.mono fun _ => False.elim⟩
  | run =>
    obtain ⟨hidle, ⟨hsame, hmove⟩ | ⟨o, active, rest, hpc, rfl⟩⟩ := step_run hstep
    · refine ⟨?_, hsound, ?_, ?_, ?_⟩ <;> simp only [hsame]
      · exact h.calls
      · exact h.aimed
      · exact h.woken
      · exact h.quiet.mono fun _ => hmove.exempt hidle
    · have hom := OrderManager.step_cancel_of_idle hidle o
      refine ⟨h.calls, hsound, h.aimed.step (OrderManager.step_effect hom),
        OrderManager.woken_step hom, h.quiet.call hidle h.aimed fun i hi => ?_⟩
      rw [hpc] at hi
      obtain ⟨rfl, hhead⟩ := hi
      exact (Option.some.inj hhead).symm

end Shutdown

/-! ## No order is left working -/

namespace OrderManager

/-- An order that is cancelled on the spot has no broker id. -/
theorem brokerOrderId_of_cancelsLocally {om : OrderManager} {l : Label} {o : OrderId}
    (h : om.cancelsLocally l = some o) :
    ∃ x, om.orders[o]? = some x ∧ x.brokerOrderId = none := by
  cases l with
  | go =>
    obtain ⟨t, -, h⟩ := Option.bind_eq_some_iff.mp h
    obtain ⟨c, -, h⟩ := Option.bind_eq_some_iff.mp h
    cases c with
    | cancelStart i hard k =>
      obtain ⟨x, hx, h⟩ := Option.bind_eq_some_iff.mp h
      obtain ⟨⟨-, hb⟩, h⟩ := Option.ite_none_right_eq_some.mp h
      exact ⟨x, Option.some.inj h ▸ hx, hb⟩
    | sweepLoop now maxAge os =>
      cases os with
      | nil => cases h
      | cons i rest =>
        obtain ⟨x, hx, h⟩ := Option.bind_eq_some_iff.mp h
        obtain ⟨⟨-, -, hb⟩, h⟩ := Option.ite_none_right_eq_some.mp h
        exact ⟨x, Option.some.inj h ▸ hx, hb⟩
    | _ => cases h
  | _ => cases h

end OrderManager

namespace BrokerSession

variable {s : BrokerSession} {o : OrderId}

/-- The order that is known by a broker id works exactly when the broker's
does. -/
theorem Sound.working_of_id (hs : s.Sound) {x : OrderState} {b : BrokerOrderId}
    (hx : s.om.orders[o]? = some x) (hb : x.brokerOrderId = some b) :
    ∃ bo, s.broker[b]? = some bo ∧ (s.Working o ↔ bo.status.active = true) := by
  obtain ⟨bo, hbo, rfl⟩ := hs.known o x b hx hb
  exact ⟨bo, hbo, hs.working_iff hbo⟩

/-- While the connection is up, what the sweep concludes from the broker's
answer is so. -/
theorem Sound.notWorking_of_written (hs : s.Sound) (hup : s.connected = true) {u : TaskId}
    {reply : Reply} {now maxAge : Time} {i : OrderId} {rest : List OrderId}
    (hc : s.om.tasks[u]? = some (.sweepQuery now maxAge i rest))
    (ha : s.answers (.resume u reply) = true) {status : OrderStatus}
    (hw : s.om.written (.resume u reply) = some (o, status)) : ¬ s.Working o := by
  rw [OrderManager.written, hc, Option.bind_some] at hw
  cases reply with
  | orderStatus answer =>
    simp only [answers, hc, Option.any_eq_true] at ha
    obtain ⟨b, hb, ha⟩ := ha
    obtain ⟨x, hx, hxb⟩ := Option.bind_eq_some_iff.mp hb
    obtain ⟨bo, hbo, hworking⟩ := hs.working_of_id hx hxb
    have hi : i = o ∧ bo.status.active = false := by
      cases answer with
      | none =>
        obtain ⟨rfl, -⟩ := Prod.mk.inj (Option.some.inj hw)
        refine ⟨rfl, ?_⟩
        simpa [hup, hbo] using ha
      | some answer =>
        simp only [Coroutine.written, Option.ite_none_right_eq_some] at hw
        obtain ⟨hdone, hw⟩ := hw
        obtain ⟨rfl, -⟩ := Prod.mk.inj (Option.some.inj hw)
        simp only [hbo, Option.any_some, hdone, Bool.not_true, Bool.false_or,
          decide_eq_true_eq] at ha
        exact ⟨rfl, OrderStatus.active_eq_false_iff.mpr (ha ▸ hdone)⟩
    obtain ⟨rfl, hactive⟩ := hi
    rw [hworking, hactive]
    exact Bool.false_ne_true
  | _ => cases hw

end BrokerSession

namespace Shutdown

variable {s t : Shutdown} {l : Label}

/-- **What holds while the broker's calls succeed**: what is believed to be
over is, and what works at the broker is known by its broker id, and is to
be seen off. -/
structure SeesOff (s : Shutdown) : Prop where
  filled : s.session.FilledThere
  dead : s.session.DeadMeansDone
  working : ∀ o, s.session.Working o → o ∈ s.active
    ∧ ∃ x b, s.session.om.orders[o]? = some x ∧ x.brokerOrderId = some b

/-- An order that is over does not work. -/
theorem SeesOff.notWorking (h : s.SeesOff) (hs : s.session.Sound) {o : OrderId} {x : OrderState}
    (hx : s.session.om.orders[o]? = some x) (hdone : x.status.terminal = true) :
    ¬ s.session.Working o := by
  by_cases hfilled : x.status = .filled
  · exact h.filled.notWorking hs hx hfilled
  · refine h.dead o x hx ?_
    cases hstatus : x.status <;> rw [hstatus] at hdone hfilled <;>
      first | rfl | exact absurd rfl hfilled | cases hdone

/-- What is concluded in a step that succeeds is so. -/
theorem Succeeds.grounded {calls : List PlaceCall} {bl : BrokerSession.Label}
    {b : BrokerSession} (h : s.Succeeds (.session bl) t) (hs : s.Stopping calls)
    (hsees : s.SeesOff) (hbl : s.session.step bl = some b) : s.session.Grounded bl where
  unseen k o status hk hw hdead := by
    -- only an answer to a query, or an exception, could write a status that is dead
    rcases BrokerSession.step_om hbl with ⟨hnone, -⟩ | ⟨k', hk', -, -, ⟨ha, -⟩ | ⟨i, upd, rfl, -⟩⟩
    · rw [hk] at hnone
      cases hnone
    · obtain rfl := Option.some.inj (hk.symm.trans hk')
      cases k with
      | resume u reply =>
        obtain ⟨c, hc, hwritten⟩ := Option.bind_eq_some_iff.mp hw
        cases c with
        | placeAwait | replaceAwait => cases hs.quiet.placing u _ hc
        | sweepQuery => exact hs.sound.notWorking_of_written h.connected hc ha hw
        | cancelAwait i caller =>
          cases reply with
          | raised message =>
            cases bl with
            | program ol =>
              obtain rfl := Option.some.inj hk
              cases h.returns
            | deliver i => simp [BrokerSession.program?] at hk
            | _ => cases hk
          | _ => cases hwritten
        | _ => cases hwritten
      | _ => cases hw
    · obtain rfl := Option.some.inj (hk.symm.trans hk')
      cases hw
  localCancel k o hk hlocal hworking := by
    -- an order cancelled locally has no broker id, and one that works has one
    obtain ⟨x, hx, hnone⟩ := OrderManager.brokerOrderId_of_cancelsLocally hlocal
    obtain ⟨-, y, b, hy, hsome⟩ := hsees.working o hworking
    rw [Option.some.inj (hx.symm.trans hy), hsome] at hnone
    cases hnone
  reject upd o x hk ho hx hignore hrej := by
    obtain ⟨y, hy, hyb⟩ := OrderManager.findOrderByBrokerId_eq_some ho
    obtain ⟨bo, hbo, hworking⟩ := hs.sound.working_of_id hy hyb
    cases bl with
    | program ol =>
      obtain rfl := Option.some.inj hk
      cases hbl
    | deliver i =>
      obtain ⟨upd', hi, hupd⟩ := Option.map_eq_some_iff.mp hk
      cases hupd
      have haccepts := h.accepts
      simp only [refuses, hi, hbo, Option.any_some, Bool.and_eq_false_iff] at haccepts
      -- a report that is no refusal tells the status that the broker has
      have hstatus : bo.status = upd.status := by
        rcases haccepts with hnone | hsame
        · rcases hrej with hrej | hrej <;> simp [hrej] at hnone
        · simpa using hsame
      rw [hworking, hstatus]
      rcases hrej with hrej | hrej <;> rw [hrej] <;> exact Bool.false_ne_true
    | _ => cases hk
  accept u o x hl hu hx := by
    obtain ⟨c, hc, hplacing⟩ := Option.bind_eq_some_iff.mp hu
    rw [hs.quiet.placing u c hc] at hplacing
    cases hplacing

/-- What is to be seen off stays so, unless the shutdown goes on to
disconnect. -/
theorem active_step (h : s.step l = some t) : t.active = s.active ∨ t.pc = .disconnecting := by
  cases l with
  | session bl =>
    left
    obtain ⟨hadmits, hmap⟩ := Option.ite_none_right_eq_some.mp h
    obtain ⟨b, hb, rfl⟩ := Option.map_eq_some_iff.mp hmap
    rw [active, active]
    rcases BrokerSession.step_om hb with ⟨-, hom⟩ | ⟨k, hk, -⟩
    · exact congrArg (s.pc.active ·) hom
    · have hbusy := (admits_program hadmits hk).1
      rw [busy] at hbusy
      cases hpc : s.pc with
      | collecting =>
        rw [hpc] at hbusy
        cases hbusy
      | _ => rfl
  | run =>
    obtain ⟨-, ⟨hsame, hmove⟩ | ⟨o, os, rest, hpc, rfl⟩⟩ := step_run h
    · rw [active, active, hsame]
      exact hmove.active
    · rw [active, active, hpc]
      exact .inl rfl

/-- A broker id that is known stays known. -/
theorem known_step (h : s.step l = some t) {o : OrderId} {x : OrderState} {b : BrokerOrderId}
    (hx : s.session.om.orders[o]? = some x) (hb : x.brokerOrderId = some b) :
    ∃ y b', t.session.om.orders[o]? = some y ∧ y.brokerOrderId = some b' := by
  rcases step_session h with hsame | ⟨bl, hbl, -⟩
  · exact ⟨x, b, hsame ▸ hx, hb⟩
  · rcases BrokerSession.step_om hbl with ⟨-, hom⟩ | ⟨k, -, hom, -⟩
    · exact ⟨x, b, hom ▸ hx, hb⟩
    · obtain ⟨y, hy, htouch⟩ := (OrderManager.step_effect hom).touch hx
      rcases htouch.brokerOrderId with hsame | ⟨-, b', -, -, -, hb'⟩
      · exact ⟨y, b, hy, hsame.trans hb⟩
      · exact ⟨y, b', hy, hb'⟩

theorem SeesOff.step {calls : List PlaceCall} (h : s.SeesOff) (hs : s.Stopping calls)
    (hstep : s.step l = some t) (hsucceeds : s.Succeeds l t) : t.SeesOff := by
  refine ⟨?_, ?_, fun o hworking => ?_⟩
  · rcases step_session hstep with hsame | ⟨bl, hbl, -⟩
    · exact hsame ▸ h.filled
    · exact BrokerSession.filledThere_step hs.sound h.filled hbl
  · rcases step_session hstep with hsame | ⟨bl, hbl, ⟨rfl, -⟩ | ⟨o, rfl⟩⟩
    · exact hsame ▸ h.dead
    · exact BrokerSession.deadMeansDone_step hs.sound h.dead hbl (hsucceeds.grounded hs h hbl)
    · exact fun i y hy hdead => BrokerSession.notWorking_step hs.sound (h.dead i) hbl
        (BrokerSession.groundedAt_of_call rfl i) hy hdead
  · have hbefore : s.session.Working o := by
      rcases step_session hstep with hsame | ⟨bl, hbl, -⟩
      · exact hsame ▸ hworking
      · rcases BrokerSession.working_origin hbl hworking with hbefore | ⟨u, -, hu⟩
        · exact hbefore
        · obtain ⟨c, hc, hplacing⟩ := Option.bind_eq_some_iff.mp hu
          rw [hs.quiet.placing u c hc] at hplacing
          cases hplacing
    obtain ⟨hactive, x, b, hx, hb⟩ := h.working o hbefore
    refine ⟨?_, known_step hstep hx hb⟩
    rcases active_step hstep with hsame | hpc
    · exact hsame ▸ hactive
    · have hdone := hsucceeds.acknowledges hpc o hactive
      rw [hx] at hdone
      exact absurd hbefore (h.notWorking hs.sound hx hdone)

end Shutdown

/-! ## Every run -/

namespace TradingSession

variable {s : TradingSession}

/-- The first order whose status is collected is the first one collected. -/
theorem collected_head {om : OrderManager} {o : OrderId}
    (h : om.orders.findIdx? (·.status.collected) = some o) : om.collected.head? = some o := by
  obtain ⟨hlt, ho, hfirst⟩ := List.findIdx?_eq_some_iff_getElem.mp h
  rw [OrderManager.collected, List.head?_filter, List.find?_range_eq_some]
  refine ⟨by rw [List.getElem?_eq_getElem hlt]; exact ho, List.mem_range.mpr hlt, fun i hi => ?_⟩
  rw [List.getElem?_eq_getElem (hi.trans hlt)]
  simpa using hfirst i hi

theorem CanStop.stopping (h : s.CanStop) (hs : s.Regular) (hidle : s.runner.om.running = none) :
    s.shutdown.Stopping s.runner.om.placeCalls where
  calls := rfl
  sound := hs.sound
  aimed := hs.aimed
  woken := OrderManager.woken_of_idle hidle
  quiet := h.quiet.mono fun _ => collected_head

theorem CanStop.seesOff (h : s.CanStop) (hs : s.Regular) : s.shutdown.SeesOff where
  filled := hs.filled
  dead o x hx hdead hworking := by
    obtain ⟨y, b, hy, hcollected, -⟩ := h.working o hworking
    obtain rfl := Option.some.inj (hy.symm.trans hx)
    cases hstatus : y.status <;> rw [hstatus] at hcollected hdead
    case cancelled | rejected | error => cases hcollected
    all_goals exact Bool.false_ne_true hdead
  working o hworking := by
    obtain ⟨x, b, hx, hcollected, hb⟩ := h.working o hworking
    refine ⟨List.mem_filter.mpr ⟨?_, ?_⟩, x, b, hx, hb⟩
    · exact List.mem_range.mpr (List.getElem?_eq_some_iff.mp hx).1
    · rw [show s.shutdown.session.om.orders[o]? = some x from hx]
      exact hcollected

/-- **A session that can be shut down leaves nothing behind**, whatever the
repricers and the broker do meanwhile. -/
theorem leavesNothing_of_canStop (env : RunnerEnv) (start : ExecutionRunner.Startup)
    (ls : List Label) (hrun : (machine env).run (initial start) ls = some s)
    (hidle : s.runner.om.running = none) (h : s.CanStop) (ks : List Shutdown.Label) :
    s.shutdown.LeavesNothing ks := by
  have hregular : s.Regular :=
    Machine.run_invariant' (fun _ _ _ hs h => hs.step h) (regular_initial start) hrun
  have hstopping := h.stopping hregular hidle
  have hstep : ∀ (t : Shutdown) l u, t.Stopping s.runner.om.placeCalls →
      t.step l = some u → u.Stopping s.runner.om.placeCalls := fun _ _ _ ht h => ht.step h
  refine ⟨fun ms t _ ht => (Machine.run_invariant' hstep hstopping ht).calls, ?_⟩
  rintro hsucceeds ms t ⟨rest, rfl⟩ ht hpc o hworking
  have hends : t.Stopping s.runner.om.placeCalls ∧ t.SeesOff :=
    Machine.run_invariant (J := fun t => t.Stopping s.runner.om.placeCalls ∧ t.SeesOff)
      (fun _ _ _ hs h hl => ⟨hs.1.step h, hs.2.step hs.1 h hl⟩)
      ⟨hstopping, h.seesOff hregular⟩ (Machine.along_append.mp hsucceeds).1 ht
  have hactive := (hends.2.working o hworking).1
  rw [Shutdown.active, hpc] at hactive
  cases hactive

/-- Where one order works, and no coroutine is about another, the session
can be shut down. -/
theorem canStop_of_single {o : OrderId} {b : BrokerOrderId}
    (hfirst : s.runner.om.orders.findIdx? (·.status.collected) = some o)
    (hid : s.runner.om.orders[o]?.bind (·.brokerOrderId) = some b)
    (htasks : ∀ c ∈ s.runner.om.tasks, c.placing = none ∧ (c.owner = none ∨ c.owner = some o))
    (hbroker : ∀ bo ∈ s.broker, bo.forOrder = o) : s.CanStop where
  quiet := by
    refine ⟨fun t c hc => (htasks c (List.mem_of_getElem? hc)).1, fun t c i hc hi => .inl ?_⟩
    rcases (htasks c (List.mem_of_getElem? hc)).2 with hnone | ho
    · rw [hnone] at hi
      cases hi
    · rw [hfirst, ← ho, hi]
  working i := by
    rintro ⟨bo, hbo, rfl, -⟩
    obtain ⟨x, hx, hxb⟩ := Option.bind_eq_some_iff.mp hid
    obtain ⟨hlt, hcollected, -⟩ := List.findIdx?_eq_some_iff_getElem.mp hfirst
    rw [hbroker bo hbo]
    rw [List.getElem?_eq_getElem hlt, Option.some.injEq] at hx
    exact ⟨x, b, hx ▸ List.getElem?_eq_getElem hlt, hx ▸ hcollected, hxb⟩

/-- One entry works, its repricer sleeps, and the main loop stops. -/
def stoppedEntry : List Label :=
  workingEntry ++ runnerSteps [.orders (.wake 2), .orders .go, .stop, .run]

/-- The shutdown cancels the entry; the repricer wakes and ends; the cancel
is acknowledged. -/
def cancelledEntry : List Shutdown.Label :=
  [.run, .run]
    ++ Shutdown.beside [ .program .go, .program (.advance 2), .program (.wake 2), .program .go,
      .settle 0 .cancelled, .report 0, .deliver 0, .program (.resume 3 (.cancelled true)) ]
    ++ [.run, .run, .run]

theorem stoppedEntry_eq :
    ((machine sampleEnv).run (initial sampleStartup) stoppedEntry).map (fun s =>
      (s.runner.om.orders.findIdx? (·.status.collected),
        s.runner.om.orders[0]?.bind (·.brokerOrderId),
        s.runner.om.tasks.map fun c => (c.placing, c.owner)))
      = some (some 0, some 0, [(none, none), (none, none), (none, some 0)]) := by
  decide +kernel

theorem cancelledEntry_eq :
    ((machine sampleEnv).run (initial sampleStartup) stoppedEntry).map (fun s =>
      (s.runner.om.running, s.broker.map (·.forOrder),
        decide (Shutdown.machine.Along Shutdown.Succeeds s.shutdown cancelledEntry),
        (Shutdown.machine.run s.shutdown cancelledEntry).map (·.pc)))
      = some (none, [0], true, some .disconnecting) := by
  decide +kernel

/-- `leavesNothing_of_canStop` on that run. -/
theorem leavesNothing_cancelledEntry :
    ∃ s t, (machine sampleEnv).run (initial sampleStartup) stoppedEntry = some s
      ∧ Shutdown.machine.run s.shutdown cancelledEntry = some t
      ∧ t.session.om.placeCalls = s.runner.om.placeCalls
      ∧ t.pc = .disconnecting ∧ ∀ o, ¬ t.session.Working o := by
  obtain ⟨s, hs, hstate⟩ := Option.map_eq_some_iff.mp stoppedEntry_eq
  obtain ⟨s', hs', hshut⟩ := Option.map_eq_some_iff.mp cancelledEntry_eq
  obtain rfl := Option.some.inj (hs.symm.trans hs')
  simp only [Prod.mk.injEq, decide_eq_true_eq] at hstate hshut
  obtain ⟨hfirst, hid, htasks⟩ := hstate
  obtain ⟨hidle, hbroker, hsucceeds, hends⟩ := hshut
  obtain ⟨t, ht, hpc⟩ := Option.map_eq_some_iff.mp hends
  have hcan : s.CanStop := by
    refine canStop_of_single hfirst hid (fun c hc => ?_) fun bo hbo => ?_
    · have hmem := List.mem_map_of_mem (f := fun c => (c.placing, c.owner)) hc
      rw [htasks] at hmem
      simp only [List.mem_cons, Prod.mk.injEq, List.not_mem_nil, or_false] at hmem
      rcases hmem with ⟨hp, ho⟩ | ⟨hp, ho⟩ | ⟨hp, ho⟩
      · exact ⟨hp, .inl ho⟩
      · exact ⟨hp, .inl ho⟩
      · exact ⟨hp, .inr ho⟩
    · have hmem := List.mem_map_of_mem (f := (·.forOrder)) hbo
      rw [hbroker] at hmem
      exact List.mem_singleton.mp hmem
  have hnothing := leavesNothing_of_canStop sampleEnv sampleStartup stoppedEntry hs hidle hcan
    cancelledEntry
  exact ⟨s, t, hs, ht, hnothing.places cancelledEntry t List.prefix_rfl ht, hpc,
    hnothing.works hsucceeds cancelledEntry t List.prefix_rfl ht hpc⟩

/-- Both legs of a batch work, the repricer of the first is in the middle of
a routine cancel, and the main loop stops. -/
def stoppedPair : List Label :=
  runnerSteps (ExecutionRunner.tickStart []
    ++ [.run, .run, .orders .go, .run, .run, .run, .run]
    ++ [ .reply (.tradedToday []), .run,
      .reply (.signals [ExecutionRunner.sampleSignal, ExecutionRunner.sampleSignal]),
      .reply .raised, .reply .raised, .run ])
  ++ [.broker (.accept 1)]
  ++ runnerSteps [.orders (.resume 1 (.placed 0 .submitted)), .run, .run]
  ++ [.broker (.accept 3)]
  ++ runnerSteps [ .orders (.resume 3 (.placed 1 .submitted)), .run, .run, .run, .run,
    .reply .done, .run ]
  ++ runnerSteps [ .orders (.wake 2), .orders .go, .orders (.advance 2), .orders (.wake 2),
    .orders .go, .orders (.resume 2 (.quote (some sampleOptionQuote))), .orders .go,
    .orders .go, .stop, .run ]

/-- The shutdown cancels the second leg and waits; both cancels are
acknowledged, and the repricer places the replacement of the first. -/
def replacedMeanwhile : List Shutdown.Label :=
  [.run, .run]
    ++ Shutdown.beside [ .program .go, .settle 0 .cancelled, .settle 1 .cancelled,
      .report 0, .report 1, .program (.resume 5 (.cancelled true)) ]
    ++ [.run, .run, .run]
    ++ Shutdown.beside [ .deliver 0, .deliver 0, .program (.resume 2 (.cancelled true)),
      .program .go, .accept 2, .program (.resume 2 (.placed 2 .submitted)),
      .program (.advance (1 / 10)) ]
    ++ [.run, .run]

theorem stoppedPair_eq :
    ((machine sampleEnv).run (initial sampleStartup) stoppedPair).map (fun s =>
      (s.runner.om.running, s.runner.om.placeCalls.length,
        decide (Shutdown.machine.Along Shutdown.Succeeds s.shutdown replacedMeanwhile)))
      = some (none, 2, true) := by
  decide +kernel

theorem replacedMeanwhile_eq :
    ((machine sampleEnv).run (initial sampleStartup) stoppedPair).map (fun s =>
      (Shutdown.machine.run s.shutdown replacedMeanwhile).map fun t =>
        (t.pc, t.session.om.placeCalls.length, t.session.broker.map (·.status.active)))
      = some (some (.disconnecting, 3, [false, false, true])) := by
  decide +kernel

/-- **A replacement is placed after the sweep, and works when the shutdown
disconnects**: neither half holds of every run. -/
theorem not_leavesNothing :
    (¬ ∀ env start ls s, (machine env).run (initial start) ls = some s →
      s.runner.om.running = none → ∀ ks, Shutdown.machine.Throughout
        (fun t => t.session.om.placeCalls = s.shutdown.session.om.placeCalls) s.shutdown ks)
    ∧ ¬ ∀ env start ls s, (machine env).run (initial start) ls = some s →
      s.runner.om.running = none → ∀ ks, Shutdown.machine.Along Shutdown.Succeeds s.shutdown ks →
        Shutdown.machine.Throughout
          (fun t => t.pc = .disconnecting → ∀ o, ¬ t.session.Working o) s.shutdown ks := by
  obtain ⟨s, hs, hstate⟩ := Option.map_eq_some_iff.mp stoppedPair_eq
  simp only [Prod.mk.injEq, decide_eq_true_eq] at hstate
  obtain ⟨hidle, hcalls, hsucceeds⟩ := hstate
  obtain ⟨t, ht, hends⟩ : ∃ t, Shutdown.machine.run s.shutdown replacedMeanwhile = some t
      ∧ (t.pc, t.session.om.placeCalls.length, t.session.broker.map (·.status.active))
        = (.disconnecting, 3, [false, false, true]) := by
    have h := replacedMeanwhile_eq
    rw [hs] at h
    exact Option.map_eq_some_iff.mp (Option.some.inj h)
  simp only [Prod.mk.injEq] at hends
  obtain ⟨hpc, hthree, hbroker⟩ := hends
  constructor
  · intro h
    have hsame := h sampleEnv sampleStartup stoppedPair s hs hidle replacedMeanwhile
      replacedMeanwhile t List.prefix_rfl ht
    rw [hsame] at hthree
    exact absurd (hcalls.symm.trans hthree) (by decide)
  · intro h
    obtain ⟨bo, hbo, hactive⟩ : ∃ bo ∈ t.session.broker, bo.status.active = true := by
      have hmem : true ∈ t.session.broker.map (·.status.active) := by
        rw [hbroker]
        decide
      exact List.mem_map.mp hmem
    exact h sampleEnv sampleStartup stoppedPair s hs hidle replacedMeanwhile hsucceeds
      replacedMeanwhile t List.prefix_rfl ht hpc bo.forOrder ⟨bo, hbo, rfl, hactive⟩

end TradingSession
