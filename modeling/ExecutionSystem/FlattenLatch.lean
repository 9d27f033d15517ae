import ExecutionSystem.ExposureLimits
import ExecutionSystem.RunnerSettings
import ExecutionSystem.TradingSession
import ExecutionSystem.WaitUntilFlat

/-!
# The flatten latch

`flatten_all` sets a latch, and while it is set the exit phase exits every
open position. The latch is released at the start of the first exit phase
that finds no position open. What it is released by is the positions
alone: an entry order that works, whose `place_order` has not returned, or
that a repricer is about to replace, is not looked at, and fills into a
book that nobody flattens any more.

So the release is safe where the entries are over by then as well
(`ExecutionRunner.releasesLatch`, `OrderManager.unsettled`), and where what
was concluded of them on the way – that an order is dead – was so. Then
nothing of theirs works at the broker, and what is over stays over.
-/

namespace ExecutionRunner

/-- The exit phase is about to release the latch. -/
def releasesLatch (s : ExecutionRunner) : Bool :=
  match s.pc with
  | .exits => s.flattenAllActive && s.pm.getOpenPositions.isEmpty
  | _ => false

variable {env : RunnerEnv} {s s' : ExecutionRunner} {l : Label}

/-- **Only the exit phase releases the latch**, and it finds the book flat
when it does. -/
theorem latch_released (h : s.step env l = some s') (hset : s.flattenAllActive = true)
    (hreleased : s'.flattenAllActive = false) :
    l = .run ∧ s.releasesLatch = true ∧ s' = s.startExits := by
  have hne : s'.flattenAllActive ≠ s.flattenAllActive := by
    rw [hset, hreleased]
    exact Bool.false_ne_true
  cases step_settings h with
  | same hsame => exact absurd hsame.flattenAllActive hne
  | commanded c rest hpc hl hs' =>
    subst hs'
    cases c with
    | flattenAll => exact absurd hreleased Bool.noConfusion
    | _ => exact absurd (command_flattenAllActive _ rest (by rintro ⟨⟩)) hne
  | exitsBegin hpc hl hs' =>
    refine ⟨hl, ?_, hs'⟩
    subst hs'
    rw [releasesLatch, hpc, hset, Bool.true_and, List.isEmpty_iff]
    by_contra hopen
    have hids : (s.pm.getOpenPositions.map (·.positionId)).isEmpty = false := by
      rw [List.isEmpty_eq_false_iff]
      exact fun hnil => hopen (List.map_eq_nil_iff.mp hnil)
    refine hne ?_
    simp only [startExits, hids, Bool.false_eq_true, if_false]

theorem startExits_om : s.startExits.om = s.om := by
  simp only [startExits]
  split_ifs <;> rfl

theorem startExits_pm : s.startExits.pm = s.pm := by
  simp only [startExits]
  split_ifs <;> rfl

end ExecutionRunner

namespace TradingSession

/-! ## The property and its condition -/

/-- **The book cannot reopen by an entry that is there**: no position is
open, no entry order works at the broker, and none is ever replaced. -/
structure CannotReopen (env : RunnerEnv) (s : TradingSession) : Prop where
  flat : s.runner.pm.getOpenPositions = []
  idle : ∀ (o : OrderId) (x : OrderState), s.runner.om.orders[o]? = some x →
    x.isEntry = true → ¬ s.session.Working o
  ended : ∀ (o : OrderId) (x : OrderState), s.runner.om.orders[o]? = some x →
    x.isEntry = true → ExecutionRunner.NeverReplaced env s.runner o

/-- The step releases the latch. -/
def ReleasesLatch (s t : TradingSession) : Prop :=
  s.runner.flattenAllActive = true ∧ t.runner.flattenAllActive = false

/-- **The latch waits for the entries**: where the exit phase is about to
release it, every entry order is over; and where an entry order is
concluded to be dead, it does not work. -/
structure LatchWaits (s : TradingSession) (l : Label) : Prop where
  settled : l = .runner .run → s.runner.releasesLatch = true →
    ∀ (o : OrderId) (x : OrderState), s.runner.om.orders[o]? = some x → x.isEntry = true →
      s.runner.om.unsettled o x = false
  grounded : ∀ bl, label? l = some bl → ∀ (o : OrderId) (x : OrderState),
    s.runner.om.orders[o]? = some x → x.isEntry = true → s.session.GroundedAt bl o

/-! ## What is known of the entries -/

/-- **What is known of the entries in a run that meets the condition.** -/
structure EntriesKnown (s : TradingSession) : Prop where
  sound : s.session.Sound
  aimed : s.runner.om.Aimed
  filled : s.session.FilledThere
  dead : ∀ (o : OrderId) (x : OrderState), s.runner.om.orders[o]? = some x →
    x.isEntry = true → BrokerSession.dead x.status = true → ¬ s.session.Working o

variable {env : RunnerEnv} {s t : TradingSession} {l : Label}

/-- An order after a step was there before it and is as much an entry, or
is new and not dead. -/
theorem order_origin {bl : BrokerSession.Label} (h : s.session.step bl = some t.session)
    {o : OrderId} {y : OrderState} (hy : t.runner.om.orders[o]? = some y) :
    (∃ x, s.runner.om.orders[o]? = some x ∧ x.isEntry = y.isEntry)
      ∨ BrokerSession.dead y.status = false := by
  rcases BrokerSession.step_lookup h hy with ⟨x, hx, rfl | ⟨k, -, htouch, -⟩⟩ | ⟨k, -, hnew⟩
  · exact .inl ⟨y, hx, rfl⟩
  · exact .inl ⟨x, hx, htouch.fixed.2.1.symm⟩
  · cases hnew <;> exact .inr rfl

/-- What a step of the session concludes of an entry is so. -/
theorem LatchWaits.groundedAt {bl : BrokerSession.Label} (h : s.LatchWaits l)
    (hbl : label? l = some bl
      ∨ ∃ ol, bl = .program ol ∧ ExecutionRunner.background ol = false)
    {o : OrderId} {x : OrderState} (hx : s.runner.om.orders[o]? = some x)
    (hentry : x.isEntry = true) : s.session.GroundedAt bl o := by
  rcases hbl with hbl | ⟨ol, rfl, hcall⟩
  · exact h.grounded bl hbl o x hx hentry
  · exact BrokerSession.groundedAt_of_call hcall o

theorem EntriesKnown.step (hs : s.EntriesKnown) (h : s.step env l = some t)
    (hwaits : s.LatchWaits l) : t.EntriesKnown := by
  have hregular := (Regular.mk hs.sound hs.aimed hs.filled).step h
  refine ⟨hregular.sound, hregular.aimed, hregular.filled, fun o y hy hentry hdead => ?_⟩
  rcases step_session h with ⟨hsame, hbroker, -⟩ | ⟨bl, hbl, hlabel⟩
  · rintro ⟨bo, hbo, hworking⟩
    have hbo' : bo ∈ s.broker := hbroker ▸ hbo
    exact hs.dead o y (hsame.orders ▸ hy) hentry hdead ⟨bo, hbo', hworking⟩
  · rcases order_origin hbl hy with ⟨x, hx, hsame⟩ | hnew
    · have hxentry : x.isEntry = true := hsame.trans hentry
      refine BrokerSession.notWorking_step hs.sound (fun z hz => ?_) hbl
        (hwaits.groundedAt hlabel hx hxentry) hy hdead
      obtain rfl := Option.some.inj (hx.symm.trans hz)
      exact hs.dead o x hx hxentry
    · rw [hnew] at hdead
      cases hdead

theorem entriesKnown_initial (start : ExecutionRunner.Startup) :
    (initial start).EntriesKnown where
  sound := sound_initial start
  aimed := (OrderManager.orderly_initial start.clock).aimed
  filled _ _ hx := by cases hx
  dead _ _ hx := by cases hx

/-- Only the runner's exit phase releases the latch of a session. -/
theorem ReleasesLatch.startExits (hreleases : s.ReleasesLatch t) (h : s.step env l = some t) :
    l = .runner .run ∧ s.runner.releasesLatch = true
      ∧ t = { s with runner := s.runner.startExits } := by
  obtain ⟨hset, hreleased⟩ := hreleases
  cases l with
  | runner rl =>
    simp only [step, Option.ite_none_right_eq_some, Option.map_eq_some_iff] at h
    obtain ⟨-, r, hr, rfl⟩ := h
    obtain ⟨rfl, hlatch, rfl⟩ := ExecutionRunner.latch_released hr hset hreleased
    exact ⟨rfl, hlatch, rfl⟩
  | deliver i =>
    obtain ⟨upd, -, h⟩ := Option.bind_eq_some_iff.mp h
    obtain ⟨r, hr, rfl⟩ := Option.map_eq_some_iff.mp h
    obtain ⟨hl, -⟩ := ExecutionRunner.latch_released hr hset hreleased
    cases hl
  | broker bl =>
    simp only [step, Option.ite_none_right_eq_some, Option.map_eq_some_iff] at h
    obtain ⟨-, b, -, rfl⟩ := h
    rw [show (s.withBroker b).runner = s.runner from rfl, hset] at hreleased
    cases hreleased

/-- An entry that is over does not work. -/
theorem EntriesKnown.notWorking (hs : s.EntriesKnown) {o : OrderId} {x : OrderState}
    (hx : s.runner.om.orders[o]? = some x) (hentry : x.isEntry = true)
    (hdone : x.status.terminal = true) : ¬ s.session.Working o := by
  cases hstatus : x.status with
  | filled => exact hs.filled.notWorking hs.sound hx hstatus
  | cancelled | rejected | error =>
    exact hs.dead o x hx hentry (by rw [hstatus]; rfl)
  | _ => rw [hstatus] at hdone; cases hdone

/-- **A release that waits leaves a book that cannot reopen.** -/
theorem EntriesKnown.cannotReopen (hs : s.EntriesKnown) (h : s.step env l = some t)
    (hwaits : s.LatchWaits l) (hreleases : s.ReleasesLatch t) : t.CannotReopen env := by
  obtain ⟨rfl, hlatch, rfl⟩ := hreleases.startExits h
  have hflat : s.runner.pm.getOpenPositions = [] := by
    rw [ExecutionRunner.releasesLatch] at hlatch
    split at hlatch
    · exact List.isEmpty_iff.mp (Bool.and_eq_true_iff.mp hlatch).2
    · cases hlatch
  have hom : s.runner.startExits.om = s.runner.om := ExecutionRunner.startExits_om
  have hretired : ∀ (o : OrderId) (x : OrderState), s.runner.om.orders[o]? = some x →
      x.isEntry = true → s.runner.om.Retired o := fun o x hx hentry =>
    (OrderManager.unsettled_eq_false_iff hx).mp (hwaits.settled rfl hlatch o x hx hentry)
  refine ⟨?_, fun o x hx hentry => ?_, fun o x hx hentry => ?_⟩
  · show s.runner.startExits.pm.getOpenPositions = []
    rw [ExecutionRunner.startExits_pm, hflat]
  · have hx' : s.runner.om.orders[o]? = some x := hom ▸ hx
    obtain ⟨y, hy, hdone, -⟩ := (hretired o x hx' hentry).done
    obtain rfl := Option.some.inj (hx'.symm.trans hy)
    exact hs.notWorking hx' hentry hdone
  · have hx' : s.runner.om.orders[o]? = some x := hom ▸ hx
    exact ExecutionRunner.neverReplaced_of_retired (hom ▸ hs.aimed)
      (hom ▸ hretired o x hx' hentry)

/-- **The latch is released into a book that cannot reopen**, in a run in
which it waits for the entries. -/
theorem cannotReopen_of_latchWaits (env : RunnerEnv) (start : ExecutionRunner.Startup)
    (ls : List Label) (h : (machine env).Along (fun s l _ => s.LatchWaits l) (initial start) ls) :
    (machine env).Along (fun s _ t => s.ReleasesLatch t → t.CannotReopen env)
      (initial start) ls :=
  Machine.along_of_step (J := EntriesKnown) (fun _ _ _ hs h hwaits => hs.step h hwaits)
    (fun _ _ _ hs h hwaits => hs.cannotReopen h hwaits) (entriesKnown_initial start) h

/-- Nothing is concluded of an order but what the broker says of it. -/
def concludesNothing (b : BrokerSession) (bl : BrokerSession.Label) : Bool :=
  ((b.program? bl).all fun k =>
    ((b.om.written k).all fun w => !BrokerSession.dead w.2) && (b.om.cancelsLocally k).isNone
      && match k with
        | .callback upd => upd.status ≠ .rejected && upd.status ≠ .error
        | _ => true)
    && match bl with
      | .accept u => ((b.om.tasks[u]?.bind (·.placing)).bind (b.om.orders[·]?)).all
          fun x => !BrokerSession.dead x.status
      | _ => true

theorem groundedAt_of_concludesNothing {b : BrokerSession} {bl : BrokerSession.Label}
    (h : concludesNothing b bl = true) (o : OrderId) : b.GroundedAt bl o := by
  obtain ⟨hprogram, haccept⟩ := Bool.and_eq_true_iff.mp h
  have hcalm : ∀ k, b.program? bl = some k →
      (b.om.written k).all (fun w => !BrokerSession.dead w.2) = true
        ∧ b.om.cancelsLocally k = none
        ∧ (match k with
          | .callback upd => upd.status ≠ .rejected && upd.status ≠ .error
          | _ => true) = true := by
    intro k hk
    rw [hk, Option.all_some] at hprogram
    obtain ⟨hboth, hreport⟩ := Bool.and_eq_true_iff.mp hprogram
    obtain ⟨hwritten, hlocal⟩ := Bool.and_eq_true_iff.mp hboth
    exact ⟨hwritten, Option.isNone_iff_eq_none.mp hlocal, hreport⟩
  refine ⟨fun k status hk hw hdead => ?_, fun k hk hc => ?_, fun upd _ hk _ _ _ hstatus => ?_,
    fun u x hl ho hx => ?_⟩
  · have hwritten := (hcalm k hk).1
    rw [hw, Option.all_some, hdead] at hwritten
    cases hwritten
  · rw [(hcalm k hk).2.1] at hc
    cases hc
  · have hreport := (hcalm _ hk).2.2
    rcases hstatus with hstatus | hstatus <;> simp [hstatus] at hreport
  · subst hl
    have haccept : (((b.om.tasks[u]?.bind (·.placing)).bind (b.om.orders[·]?)).all
        fun x => !BrokerSession.dead x.status) = true := haccept
    rw [ho, Option.bind_some, hx, Option.all_some] at haccept
    simpa using haccept

/-- Every entry order is over. -/
def entriesOver (om : OrderManager) : Bool :=
  (List.range om.orders.length).all fun o =>
    om.orders[o]?.all fun x => !(x.isEntry && om.unsettled o x)

/-- What is enough for the latch to wait. -/
theorem latchWaits_of_concludesNothing
    (hover : s.runner.releasesLatch = true → entriesOver s.runner.om = true)
    (hcalm : ((label? l).all fun bl => concludesNothing s.session bl) = true) :
    s.LatchWaits l where
  settled := by
    intro _ hreleases o x hx hentry
    have hall := List.all_eq_true.mp (hover hreleases) o
      (List.mem_range.mpr (List.getElem?_eq_some_iff.mp hx).1)
    rw [hx, Option.all_some, hentry, Bool.true_and, Bool.not_eq_true'] at hall
    exact hall
  grounded := by
    intro bl hbl o _ _ _
    rw [hbl, Option.all_some] at hcalm
    exact groundedAt_of_concludesNothing hcalm o

/-- Steps of the runner. -/
def runnerSteps (ls : List ExecutionRunner.Label) : List Label := ls.map .runner

/-- The first tick submits an entry that the broker accepts. -/
def workingEntry : List Label :=
  runnerSteps (ExecutionRunner.tickStart []
    ++ [.run, .run, .orders .go, .run, .run, .run, .run] ++ ExecutionRunner.sampleEntry)
  ++ [.broker (.accept 1)]
  ++ runnerSteps [ .orders (.resume 1 (.placed 0 .submitted)), .run, .run, .run, .run,
    .reply .done, .run ]

/-- The broker cancels the entry, and says so. -/
def entryCancelled : List Label :=
  workingEntry ++ [.broker (.settle 0 .cancelled), .broker (.report 0), .deliver 0]

/-- The operator flattens the book in the second tick, up to its exit phase: the
entry is over. -/
def flattenAfterwards : List Label :=
  runnerSteps ([.orders (.advance 1), .run] ++ ExecutionRunner.tickStart [.flattenAll]
    ++ [ .run, .run, .run, .orders .go, .orders .go, .run, .run, .run, .run,
      .reply (.tradedToday []) ])

/-- **An entry that has worked is over** when the latch is released. -/
theorem cannotReopen_flattenAfterwards :
    ((machine sampleEnv).run (initial sampleStartup) workingEntry).map
        (fun s => (s.runner.om.orders.map (·.isEntry), s.broker.map (·.status)))
        = some ([true], [.submitted])
      ∧ ((machine sampleEnv).run (initial sampleStartup)
        (entryCancelled ++ flattenAfterwards)).map (·.runner.flattenAllActive) = some true
      ∧ ((machine sampleEnv).run (initial sampleStartup)
        (entryCancelled ++ flattenAfterwards ++ [.runner .run])).map (·.runner.flattenAllActive)
        = some false
      ∧ (machine sampleEnv).Along (fun s _ t => s.ReleasesLatch t → t.CannotReopen sampleEnv)
        (initial sampleStartup) (entryCancelled ++ flattenAfterwards ++ [.runner .run]) := by
  refine ⟨by decide +kernel, by decide +kernel, by decide +kernel, ?_⟩
  have hwaits : (machine sampleEnv).Along (fun s l _ =>
      (s.runner.releasesLatch = true → entriesOver s.runner.om = true)
        ∧ ((label? l).all fun bl => concludesNothing s.session bl) = true)
      (initial sampleStartup) (entryCancelled ++ flattenAfterwards ++ [.runner .run]) := by
    decide +kernel
  exact cannotReopen_of_latchWaits sampleEnv sampleStartup _
    (hwaits.mono fun _ _ _ h => latchWaits_of_concludesNothing h.1 h.2)

/-- The operator flattens the book in the second tick, up to its exit
phase. -/
def flattenTick : List Label :=
  runnerSteps ([.orders (.advance 1), .run] ++ ExecutionRunner.tickStart [.flattenAll]
    ++ [ .run, .run, .run, .orders .go, .orders .go, .run, .run, .run, .run, .run, .run,
      .reply (.tradedToday []), .run, .run ])

/-- **The latch is released while an entry works.** -/
theorem not_cannotReopen :
    ¬ ∀ env start ls, (machine env).Along (fun s _ t => s.ReleasesLatch t → t.CannotReopen env)
      (initial start) ls := by
  intro h
  have hset : ((machine sampleEnv).run (initial sampleStartup) (workingEntry ++ flattenTick)).map
      (fun s => s.runner.flattenAllActive) = some true := by
    decide +kernel
  have hreleased : ((machine sampleEnv).run (initial sampleStartup)
      (workingEntry ++ flattenTick ++ [.runner .run])).map (fun s =>
        (s.runner.flattenAllActive, s.runner.om.orders.map (·.isEntry),
          s.broker.map fun bo => (bo.forOrder, bo.status)))
        = some (false, [true], [(0, .submitted)]) := by
    decide +kernel
  obtain ⟨s, hs, hlatched⟩ := Option.map_eq_some_iff.mp hset
  obtain ⟨t, ht, hstate⟩ := Option.map_eq_some_iff.mp hreleased
  obtain ⟨hoff, horders, hbroker⟩ := Prod.mk.inj hstate |>.imp_right Prod.mk.inj
  obtain ⟨u, hu, hstep⟩ := Machine.run_snoc.mp ht
  obtain rfl := Option.some.inj (hs.symm.trans hu)
  have hclosed := Machine.along_step
    (h sampleEnv sampleStartup (workingEntry ++ flattenTick ++ [.runner .run])) hs hstep
    ⟨hlatched, hoff⟩
  obtain ⟨x, hx, hentry⟩ : ∃ x, t.runner.om.orders[0]? = some x ∧ x.isEntry = true := by
    have h0 := congrArg (·[0]?) horders
    simpa using h0
  obtain ⟨bo, hbo, hworking⟩ : ∃ bo, t.broker[0]? = some bo ∧ (bo.forOrder, bo.status)
      = ((0 : OrderId), OrderStatus.submitted) := by
    have h0 := congrArg (·[0]?) hbroker
    simpa using h0
  obtain ⟨hfor, hstatus⟩ := Prod.mk.inj hworking
  exact hclosed.idle 0 x hx hentry
    ⟨bo, List.mem_of_getElem? hbo, hfor, hstatus ▸ rfl⟩

end TradingSession
