import ExecutionSystem.LegCoordination
import ExecutionSystem.WorkingOrders

/-!
# The runner and a broker

The runner with the order manager inside, together with the broker of
`BrokerSession`. A step of the session is a step of the runner in which
the order manager is told only what the broker can answer, or a step of the
broker, or a report that is delivered. Forgetting the runner gives a
session of the order manager and the broker (`TradingSession.session`), and
what is true of all of these is true of it: `sound_step`.
-/

/-- **The joint state** of the runner and the broker. -/
structure TradingSession where
  runner : ExecutionRunner
  broker : List BrokerOrder := []
  reports : List BrokerUpdate := []
  connected : Bool := true

namespace TradingSession

/-- What can happen next. -/
inductive Label where
  /-- The runner, the order manager, or someone who calls them. -/
  | runner (l : ExecutionRunner.Label)
  /-- A report reaches the order manager. -/
  | deliver (i : ℕ)
  /-- The broker by itself. -/
  | broker (l : BrokerSession.Label)

/-- The session of the order manager and the broker. -/
def session (s : TradingSession) : BrokerSession where
  om := s.runner.om
  broker := s.broker
  reports := s.reports
  connected := s.connected

/-- The broker's side of a session. -/
def withBroker (s : TradingSession) (b : BrokerSession) : TradingSession :=
  { s with broker := b.broker, reports := b.reports, connected := b.connected }

/-- The order manager is told what the broker can answer. -/
def admits (s : TradingSession) : ExecutionRunner.Label → Bool
  | .orders ol => s.session.answers ol
  | _ => true

/-- The step is one the broker takes by itself. -/
def ownStep : BrokerSession.Label → Bool
  | .program _ | .deliver _ => false
  | _ => true

/-- One step. -/
def step (env : RunnerEnv) (s : TradingSession) : Label → Option TradingSession
  | .runner l =>
    if s.admits l then (s.runner.step env l).map fun r => { s with runner := r } else none
  | .deliver i => s.reports[i]?.bind fun upd =>
    (s.runner.step env (.orders (.callback upd))).map fun r =>
      { s with runner := r, reports := s.reports.eraseIdx i }
  | .broker l => if ownStep l then (s.session.step l).map s.withBroker else none

/-- The runner and the broker, interleaved. -/
def machine (env : RunnerEnv) : Machine TradingSession Label where
  step := step env

/-- The main loop starts; the broker has no order of ours. -/
def initial (start : ExecutionRunner.Startup) : TradingSession where
  runner := .initial start

/-! ## The order manager and the broker -/

/-- The label under which a step is one of the order manager and the
broker; the runner's own blocks have none. -/
def label? : Label → Option BrokerSession.Label
  | .runner (.orders ol) => some (.program ol)
  | .runner _ => none
  | .deliver i => some (.deliver i)
  | .broker l => some l

end TradingSession

namespace OrderManager

variable {om om' : OrderManager}

theorem Chain.of_orders (h : om'.orders = om.orders) {root last : OrderId}
    {earlier : List OrderId} (hchain : om.Chain root earlier last) :
    om'.Chain root earlier last := by
  induction hchain with
  | single => exact .single
  | link _ hx hn ih => exact .link ih (h ▸ hx) hn

theorem Chained.of_holds (h : om.Chained) (hsame : om'.Holds om.orders om.tasks om.placeCalls) :
    om'.Chained where
  owned :=
    { nodup := by rw [owners, hsame.tasks]; exact h.owned.nodup
      free := by rw [owners, hsame.tasks, hsame.orders]; exact h.owned.free }
  linked := by rw [Linked, hsame.orders]; exact h.linked
  called :=
    { order := by rw [hsame.placeCalls, hsame.orders]; exact h.called.order
      rooted := by
        rw [hsame.placeCalls, hsame.orders]
        intro o ho
        obtain ⟨call, hmem, hroot, earlier, hchain⟩ := h.called.rooted o ho
        exact ⟨call, hmem, hroot, earlier, hchain.of_orders hsame.orders⟩ }

theorem chained_start (clock : Time) : ({ clock := clock } : OrderManager).Chained where
  owned := (orderly_initial clock).owned
  linked := (orderly_initial clock).linked
  called := ⟨fun _ h => (by cases h), fun _ h => absurd h (Nat.not_lt_zero _)⟩

end OrderManager

namespace BrokerSession

variable {s t : BrokerSession} {l : Label}

/-- Soundness asks nothing of the rest of the order manager. -/
theorem Sound.of_holds (hs : s.Sound)
    (hsame : t.om.Holds s.om.orders s.om.tasks s.om.placeCalls)
    (hbroker : t.broker = s.broker) (hreports : t.reports = s.reports) : t.Sound where
  chained := hs.chained.of_holds hsame
  known := by rw [hsame.orders, hbroker]; exact hs.known
  ordered := by rw [hsame.orders, hbroker]; exact hs.ordered
  unique := by rw [hbroker]; exact hs.unique
  reports := by rw [hbroker, hreports]; exact hs.reports
  stored := by
    intro o x hx
    rw [filledFor, hbroker]
    rw [hsame.orders] at hx
    exact hs.stored o x hx

/-! ## Orders believed filled -/

/-- **An order that is filled here is filled at the broker.** -/
def FilledThere (s : BrokerSession) : Prop :=
  ∀ (o : OrderId) (x : OrderState), s.om.orders[o]? = some x → x.status = .filled →
    ∃ (b : BrokerOrderId) (bo : BrokerOrder), s.broker[b]? = some bo ∧ bo.forOrder = o
      ∧ bo.status = .filled

/-- A filled order does not work. -/
theorem FilledThere.notWorking (h : s.FilledThere) (hs : s.Sound) {o : OrderId} {x : OrderState}
    (hx : s.om.orders[o]? = some x) (hfilled : x.status = .filled) : ¬ s.Working o := by
  obtain ⟨b, bo, hbo, rfl, hstatus⟩ := h o x hx hfilled
  rw [hs.working_iff hbo, hstatus]
  exact Bool.false_ne_true

theorem FilledThere.of_holds (h : s.FilledThere)
    (hsame : t.om.Holds s.om.orders s.om.tasks s.om.placeCalls)
    (hbroker : t.broker = s.broker) : t.FilledThere := by
  rw [FilledThere, hsame.orders, hbroker]
  exact h

/-- What is written unseen of an order as filled, the broker has
answered. -/
theorem filled_of_written (hs : s.Sound) {k : OrderManager.Label} {o : OrderId}
    (ha : s.answers k = true) (hw : s.om.written k = some (o, .filled)) :
    ∃ (b : BrokerOrderId) (bo : BrokerOrder), s.broker[b]? = some bo ∧ bo.forOrder = o
      ∧ bo.status = .filled := by
  cases k with
  | resume u reply =>
    obtain ⟨c, hc, hw⟩ := Option.bind_eq_some_iff.mp hw
    cases c with
    | placeAwait i _ | replaceAwait _ i =>
      cases reply with
      | placed b status =>
        obtain ⟨rfl, rfl⟩ := Prod.mk.inj (Option.some.inj hw)
        obtain ⟨bo, hbo, hfor, hstatus⟩ := answers_placed ha (o := i) (by rw [hc]; rfl)
        exact ⟨b, bo, hbo, hfor, hstatus rfl⟩
      | raised _ => cases hw
      | _ => cases hw
    | cancelAwait i k =>
      cases reply with
      | raised _ => cases hw
      | _ => cases hw
    | sweepQuery now maxAge i rest =>
      cases reply with
      | orderStatus answer =>
        cases answer with
        | none => cases hw
        | some status =>
          simp only [Coroutine.written, Option.ite_none_right_eq_some] at hw
          obtain ⟨hdone, hw⟩ := hw
          obtain ⟨rfl, rfl⟩ := Prod.mk.inj (Option.some.inj hw)
          simp only [answers, hc, Option.any_eq_true] at ha
          -- the broker answers the query by what it holds of the order
          obtain ⟨b, hb, bo, hbo, hstatus⟩ := ha
          obtain ⟨x, hx, hxb⟩ := Option.bind_eq_some_iff.mp hb
          obtain ⟨bo', hbo', hfor⟩ := hs.known i x b hx hxb
          obtain rfl := Option.some.inj (hbo.symm.trans hbo')
          exact ⟨b, bo, hbo, hfor, by simpa [OrderStatus.terminal] using hstatus⟩
      | _ => cases hw
    | _ => cases hw
  | _ => cases hw

/-- A callback that leaves a working order filled says so. -/
theorem filled_brokerUpdated {upd : BrokerUpdate} {x : OrderState} {now : Time}
    (hx : x.status.active = true) (h : (x.brokerUpdated upd now).status = .filled) :
    upd.status = .filled := by
  have hignore : x.ignoresUpdate = false := by
    simpa [OrderState.ignoresUpdate] using hx
  simp only [OrderState.brokerUpdated, hignore, Bool.false_eq_true, if_false] at h
  split_ifs at h with hrace
  simp only [OrderState.updatedStatus] at h
  split_ifs at h with hpending
  exact h

/-- **Filled orders stay filled at the broker.** -/
theorem filledThere_step (hs : s.Sound) (hfilled : s.FilledThere) (h : s.step l = some t) :
    t.FilledThere := by
  intro o y hy hyfilled
  suffices ∃ (b : BrokerOrderId) (bo : BrokerOrder), s.broker[b]? = some bo ∧ bo.forOrder = o
      ∧ bo.status = .filled by
    obtain ⟨b, bo, hbo, hfor, hstatus⟩ := this
    obtain ⟨bo', hbo', hfor', -, hdone⟩ := (step_broker h).lookup hbo
    exact ⟨b, bo', hbo', hfor'.trans hfor, (hdone (by rw [hstatus]; rfl)).trans hstatus⟩
  rcases step_lookup h hy with ⟨x, hx, rfl | ⟨k, hk, htouch, ha⟩⟩ | ⟨k, -, hnew⟩
  · exact hfilled o y hx hyfilled
  · rcases htouch.status hx with
      hwr | hsame | ⟨hactive, hpend | ⟨-, hlocal⟩ | ⟨upd, rfl, ho, rfl⟩⟩
    · rcases ha with ha | ⟨i, upd, rfl, -⟩
      · exact filled_of_written hs ha (hyfilled ▸ hwr)
      · cases hwr
    · exact hfilled o x hx (hsame ▸ hyfilled)
    · rw [hpend] at hyfilled
      cases hyfilled
    · rw [hlocal] at hyfilled
      cases hyfilled
    · obtain ⟨i, _, heq, hi⟩ := ha.resolve_left (by rintro ⟨⟩)
      cases heq
      have hupd := filled_brokerUpdated hactive hyfilled
      obtain ⟨z, hz, hzb⟩ := OrderManager.findOrderByBrokerId_eq_some ho
      obtain ⟨bo, hbo, hfor⟩ := hs.known o z _ hz hzb
      obtain ⟨bo', hbo', -, hstatus⟩ := hs.reports upd (List.mem_of_getElem? hi)
      obtain rfl := Option.some.inj (hbo.symm.trans hbo')
      exact ⟨_, bo, hbo, hfor, by simpa [hupd, OrderStatus.terminal] using hstatus⟩
  · cases hnew <;> cases hyfilled

end BrokerSession

/-! ## One step of the session -/

namespace ExecutionRunner

variable {env : RunnerEnv} {s s' : ExecutionRunner} {l : Label}

/-- A step of the runner is one of the background, or a call of its own, or
leaves the orders and the coroutines. -/
theorem Effect.call_cases (he : Effect env s l s') :
    s'.om.Holds s.om.orders s.om.tasks s.om.placeCalls
      ∨ ∃ ol, s.om.step ol = some s'.om
        ∧ (l = .orders ol ∨ ExecutionRunner.background ol = false) := by
  cases he with
  | keeps h => exact .inl h.orders
  | batched _ _ _ _ h => exact .inl h.orders
  | background ol hl _ _ h => exact .inr ⟨ol, h.step, .inl hl⟩
  | cancels _ _ _ h | sweeps _ _ _ h | leaves _ _ h | enters _ _ _ _ _ _ _ _ _ _ h =>
    exact .inr ⟨_, h.step, .inr rfl⟩
  | filled fill hl h =>
    subst h
    exact .inl (holds_refl _)
  | raised _ _ h | unlocked _ _ _ _ _ _ _ _ _ h => exact .inl (h ▸ holds_refl _)

end ExecutionRunner

namespace BrokerSession

variable {s : BrokerSession} {ol : OrderManager.Label}

/-- A call of the runner's own is no answer. -/
theorem answers_of_call (h : ExecutionRunner.background ol = false) : s.answers ol = true := by
  cases ol <;> first | rfl | exact absurd h Bool.noConfusion

/-- A call of the runner's own concludes nothing about an order. -/
theorem groundedAt_of_call (h : ExecutionRunner.background ol = false) (o : OrderId) :
    s.GroundedAt (.program ol) o := by
  cases ol with
  | submit | cancel | sweep =>
    refine ⟨?_, ?_, ?_, ?_⟩
    · rintro k status ⟨⟩ hw
      cases hw
    · rintro k ⟨⟩ hw
      cases hw
    · rintro upd x ⟨⟩
    · rintro u x ⟨⟩
  | _ => cases h

end BrokerSession

namespace TradingSession

variable {env : RunnerEnv} {s t : TradingSession} {l : Label}

/-- **What a step is for the order manager and the broker**: a step of
theirs, a call of the runner's, or nothing. -/
theorem step_session (h : s.step env l = some t) :
    (t.runner.om.Holds s.runner.om.orders s.runner.om.tasks s.runner.om.placeCalls
        ∧ t.broker = s.broker ∧ t.reports = s.reports)
      ∨ ∃ bl, s.session.step bl = some t.session
        ∧ (label? l = some bl
          ∨ ∃ ol, bl = .program ol ∧ ExecutionRunner.background ol = false) := by
  cases l with
  | runner rl =>
    simp only [step, Option.ite_none_right_eq_some, Option.map_eq_some_iff] at h
    obtain ⟨hadmits, r, hr, rfl⟩ := h
    rcases (ExecutionRunner.step_effect hr).call_cases with hsame | ⟨ol, hol, rfl | hcall⟩
    · exact .inl ⟨hsame, rfl, rfl⟩
    · refine .inr ⟨.program ol, ?_, .inl rfl⟩
      rw [BrokerSession.step, if_pos (show s.session.answers ol = true from hadmits)]
      exact Option.map_eq_some_iff.mpr ⟨r.om, hol, rfl⟩
    · refine .inr ⟨.program ol, ?_, .inr ⟨ol, rfl, hcall⟩⟩
      rw [BrokerSession.step, if_pos (BrokerSession.answers_of_call hcall)]
      exact Option.map_eq_some_iff.mpr ⟨r.om, hol, rfl⟩
  | deliver i =>
    obtain ⟨upd, hupd, h⟩ := Option.bind_eq_some_iff.mp h
    obtain ⟨r, hr, rfl⟩ := Option.map_eq_some_iff.mp h
    refine .inr ⟨.deliver i, ?_, .inl rfl⟩
    simp only [ExecutionRunner.step, Option.ite_none_right_eq_some, Option.map_eq_some_iff] at hr
    obtain ⟨-, om, hom, rfl⟩ := hr
    exact Option.bind_eq_some_iff.mpr ⟨upd, hupd, Option.map_eq_some_iff.mpr ⟨om, hom, rfl⟩⟩
  | broker bl =>
    simp only [step, Option.ite_none_right_eq_some, Option.map_eq_some_iff] at h
    obtain ⟨hown, b, hb, rfl⟩ := h
    refine .inr ⟨bl, ?_, .inl rfl⟩
    have hom : b.om = s.runner.om := by
      rcases BrokerSession.step_om hb with ⟨-, hom⟩ | ⟨k, hk, -⟩
      · exact hom
      · cases bl with
        | program | deliver => cases hown
        | _ => cases hk
    rw [hb]
    show some b = some ⟨s.runner.om, b.broker, b.reports, b.connected⟩
    rw [← hom]

/-- **The session of the order manager and the broker is sound.** -/
theorem sound_step (hs : s.session.Sound) (h : s.step env l = some t) : t.session.Sound := by
  rcases step_session h with ⟨hsame, hbroker, hreports⟩ | ⟨bl, hbl, -⟩
  · exact hs.of_holds hsame hbroker hreports
  · exact hs.step hbl

theorem sound_initial (start : ExecutionRunner.Startup) : (initial start).session.Sound where
  chained := OrderManager.chained_start start.clock
  known _ _ _ hx := by cases hx
  ordered _ hbo := by cases hbo
  unique := List.nodup_nil
  reports _ hupd := by cases hupd
  stored _ _ hx := by cases hx

/-! ## Every reachable state -/

/-- **What holds in every reachable state** of the runner and the broker. -/
structure Regular (s : TradingSession) : Prop where
  sound : s.session.Sound
  aimed : s.runner.om.Aimed
  filled : s.session.FilledThere

theorem Regular.step (hs : s.Regular) (h : s.step env l = some t) : t.Regular := by
  refine ⟨sound_step hs.sound h, ?_, ?_⟩
  all_goals rcases step_session h with ⟨hsame, hbroker, -⟩ | ⟨bl, hbl, -⟩
  · rw [OrderManager.Aimed, hsame.tasks]
    exact hs.aimed
  · rcases BrokerSession.step_om hbl with ⟨-, hom⟩ | ⟨k, -, hom, -⟩
    · exact (show t.runner.om = s.runner.om from hom) ▸ hs.aimed
    · exact hs.aimed.step (OrderManager.step_effect hom)
  · exact hs.filled.of_holds hsame hbroker
  · exact BrokerSession.filledThere_step hs.sound hs.filled hbl

theorem regular_initial (start : ExecutionRunner.Startup) : (initial start).Regular where
  sound := sound_initial start
  aimed := (OrderManager.orderly_initial start.clock).aimed
  filled _ _ hx := by cases hx

end TradingSession
