import ExecutionSystem.Retirement
import ExecutionSystem.RunnerSteps

/-!
# Wait until flat

Before a strategy is polled, the tick asks whether the strategy is flat: no
open position of it, and no order of it with an active status. Flatness is
read off the statuses at one instant, and between that instant and the
submission of the batch the tick awaits the provider, a quote for every
signal, and the broker.

A strategy that looks flat may not be. A repricer whose cancel has been
acknowledged and which has not looked yet has an order that is
`CANCELLED`, and will place another; an order whose `place_order` is in
flight may be written to again. And a strategy that is flat may be so no
longer when its batch goes out, if a fill is handled meanwhile.

Where the check meets none of these (`FlatForGood`), it is right for good:
every entry order of the strategy is retired from there on, whatever
happens.
-/

/-- The strategy whose entry is under way, from the poll to its last
submission. -/
def RunnerPc.entering : RunnerPc → Option StrategyId
  | pollAwait cfg _ _ => some cfg.strategyId
  | quoteAwait cfg .. => some cfg.strategyId
  | submissions cfg _ _ (_ :: _) => some cfg.strategyId
  | awaiting _ next => next.entering
  | _ => none

/-- The batch that is being submitted. -/
def RunnerPc.tagged : RunnerPc → Option BatchId
  | submissions _ _ batch _ => some batch
  | awaiting _ next => next.tagged
  | _ => none

/-- The strategy whose provider is being awaited. -/
def RunnerPc.polled : RunnerPc → Option StrategyId
  | pollAwait cfg _ _ => some cfg.strategyId
  | _ => none

/-- The signals at hand are those of the strategy that was polled. -/
def RunnerPc.ofStrategy : RunnerPc → Bool
  | quoteAwait cfg _ decided signal pending _ =>
    decided.all (·.signal.strategyId = cfg.strategyId)
      && (signal :: pending).all (·.strategyId = cfg.strategyId)
  | submissions cfg _ _ decided => decided.all (·.signal.strategyId = cfg.strategyId)
  | awaiting _ next => next.ofStrategy
  | _ => true

namespace ExecutionRunner

/-- The fill the step handles. -/
def Label.filling : Label → Option FillEvent
  | .fill event => some event
  | _ => none

/-- The signals the step receives. -/
def Label.signalled : Label → List StrategySignal
  | .reply (.signals batch) => batch
  | _ => []

/-! ## The property and its condition -/

/-- Whatever happens from here on, the order is not replaced. -/
def NeverReplaced (env : RunnerEnv) (s : ExecutionRunner) (o : OrderId) : Prop :=
  ∀ (ls : List Label) (t : ExecutionRunner) (l : Label) (t' : ExecutionRunner),
    (machine env).run s ls = some t → t.step env l = some t' →
      ∀ call ∈ newCalls t t', call.supersedes ≠ some o

/-- **A strategy waits until it is flat**: where the step submits an entry,
no position of its strategy is open, and no entry order of the strategy
from another batch is working or can still be replaced. -/
def WaitsUntilFlat (env : RunnerEnv) (s s' : ExecutionRunner) : Prop :=
  ∀ call ∈ newCalls s s', call.plan.isEntry = true → call.supersedes = none →
    ∀ y, s'.om.orders[call.order]? = some y →
      s.occupied y.strategyId = false
        ∧ ∀ (o : OrderId) (x : OrderState), s.om.orders[o]? = some x →
          x.isEntry = true → x.strategyId = y.strategyId → x.entryBatch ≠ y.entryBatch →
            x.status.terminal = true ∧ NeverReplaced env s' o

/-- The strategy that the gates are about to let through. -/
def letsThrough (env : RunnerEnv) (s : ExecutionRunner) : Option StrategyId :=
  match s.pc with
  | .entries (cfg :: _) =>
    if !(!cfg.enabled || s.pausedStrategies.contains cfg.strategyId) && s.admits env cfg then
      some cfg.strategyId
    else none
  | _ => none

/-- No coroutine could make something of the terminal entry orders of a
strategy. -/
def quiet (s : ExecutionRunner) (sid : StrategyId) : Bool :=
  (List.range s.om.orders.length).all fun o => s.om.orders[o]?.all fun x =>
    !(x.isEntry && x.strategyId = sid) || s.om.tasks.all fun c => !c.revives o x

/-- **What the flat check says stays true**: where it lets a strategy
through, no `place_order` of its entry orders is in flight and no repricer
is about to replace one of them; no fill of a strategy is handled while its
entry is under way; and a provider gives signals of its own strategy. -/
structure FlatForGood (env : RunnerEnv) (s : ExecutionRunner) (l : Label) : Prop where
  settled : ∀ sid ∈ s.letsThrough env, s.quiet sid = true
  filled : ∀ fill ∈ l.filling, s.pc.entering ≠ some fill.strategyId
  signalled : ∀ sid ∈ s.pc.polled, ∀ signal ∈ l.signalled, signal.strategyId = sid

instance (env : RunnerEnv) (s : ExecutionRunner) (l : Label) :
    Decidable (s.FlatForGood env l) :=
  decidable_of_iff
    ((∀ sid ∈ s.letsThrough env, s.quiet sid = true)
      ∧ (∀ fill ∈ l.filling, s.pc.entering ≠ some fill.strategyId)
      ∧ ∀ sid ∈ s.pc.polled, ∀ signal ∈ l.signalled, signal.strategyId = sid)
    ⟨fun ⟨h, h', h''⟩ => ⟨h, h', h''⟩, fun ⟨h, h', h''⟩ => ⟨h, h', h''⟩⟩

/-! ## What the entry of a strategy relies on -/

/-- **No position of the strategy is open, and its entry orders are retired**
but for those of the batch that is being submitted. -/
structure Vacant (s : ExecutionRunner) (sid : StrategyId) (batch : Option BatchId) :
    Prop where
  free : s.occupied sid = false
  retired : ∀ (o : OrderId) (x : OrderState), s.om.orders[o]? = some x →
    x.isEntry = true → x.strategyId = sid →
      (∃ b, batch = some b ∧ x.entryBatch = some b) ∨ s.om.Retired o

variable {env : RunnerEnv} {s s' : ExecutionRunner} {l : Label} {sid : StrategyId}
  {batch : Option BatchId}

/-- Exit rules leave what does not read them. -/
theorem any_applyExitRules {p : Position → Bool} (pos : Position) (reference : Time)
    (hp : ∀ (pos : Position) stop target timeExit useMid now,
      p (pos.withExitRules stop target timeExit useMid now) = p pos) :
    (s.applyExitRules env pos reference).positions.any p = s.pm.positions.any p := by
  unfold applyExitRules
  split
  · rfl
  · dsimp only
    split_ifs
    · exact PositionManager.any_setExitRules fun pos => hp pos _ _ _ _ _
    · rfl

/-- A fill of another strategy opens and closes none of this one's
positions. -/
theorem occupied_filled {fill : FillEvent} (h : fill.strategyId ≠ sid) :
    (s.filled env fill).occupied sid = s.occupied sid := by
  have hfill : (s.attributed fill).strategyId = fill.strategyId := by
    unfold attributed
    split <;> rfl
  simp only [occupied, PositionManager.getOpenPositions, List.any_filter, filled]
  rw [any_applyExitRules _ _ fun _ _ _ _ _ _ => rfl]
  refine PositionManager.any_handleFill fun pos hpos => ?_
  simp [hpos, hfill, h]

/-- Only a fill of its own changes whether a strategy holds a position. -/
theorem Effect.occupied (he : Effect env s l s')
    (hfill : ∀ fill ∈ l.filling, fill.strategyId ≠ sid) :
    s'.occupied sid = s.occupied sid := by
  have hpm : s'.pm = s.pm → s'.occupied sid = s.occupied sid := fun h => by
    rw [ExecutionRunner.occupied, h, ExecutionRunner.occupied]
  cases he with
  | keeps h => exact h.occupied sid
  | batched _ _ _ _ h => exact h.occupied sid
  | background _ _ _ _ h | cancels _ _ _ h | sweeps _ _ _ h | leaves _ _ h
  | enters _ _ _ _ _ _ _ _ _ _ h => exact hpm h.pm
  | filled fill hl h =>
    subst hl h
    exact occupied_filled (hfill fill rfl)
  | raised _ _ _ h | unlocked _ _ _ _ _ _ _ _ _ _ h => exact hpm h

/-- **Where an entry order comes from**: it replaces one of the same batch,
or it is submitted. -/
inductive NewEntry (s : ExecutionRunner) (ol : OrderManager.Label) (y : OrderState) : Prop
  | replaced (o : OrderId) (x : OrderState) (p : Price)
      (hr : s.om.replacing ol = some (o, x, p)) (hx : s.om.orders[o]? = some x)
      (hentry : x.isEntry = true) (hstrategy : y.strategyId = x.strategyId)
      (hbatch : y.entryBatch = x.entryBatch)
  | entered (cfg : StrategyConfig) (rest : List StrategyConfig) (b : BatchId) (d : Decided)
      (decided : List Decided) (hpc : s.pc = .submissions cfg rest b (d :: decided))
      (hbatch : y.entryBatch = some b)

/-- What the step is for the order manager. -/
theorem Effect.om (he : Effect env s l s') :
    ∃ ol, OrderManager.Effect s.om ol s'.om ∧
      ∀ y, OrderManager.Created s.om ol s'.om y → y.isEntry = true → NewEntry s ol y := by
  -- a step that creates nothing, as time that passes
  have hidle : s'.om.Holds s.om.orders s.om.tasks s.om.placeCalls →
      ∃ ol, OrderManager.Effect s.om ol s'.om ∧
        ∀ y, OrderManager.Created s.om ol s'.om y → y.isEntry = true → NewEntry s ol y := by
    exact fun h => ⟨.advance 0, .idle h, fun y hy => absurd hy (OrderManager.not_created rfl rfl)⟩
  have hsame : s'.om = s.om → s'.om.Holds s.om.orders s.om.tasks s.om.placeCalls :=
    fun h => h ▸ holds_refl _
  have hreplaced : ∀ {ol o x p y}, s.om.replacing ol = some (o, x, p) →
      y.isEntry = x.isEntry → y.strategyId = x.strategyId → y.entryBatch = x.entryBatch →
      y.isEntry = true → NewEntry s ol y := by
    intro ol o x p y hr hentry hstrategy hbatch hy
    obtain ⟨-, _, _, _, _, _, _, _, hx, _⟩ := OrderManager.replacing_eq_some.mp hr
    exact .replaced o x p hr hx (hentry.symm.trans hy) hstrategy hbatch
  cases he with
  | keeps h => exact hidle h.orders
  | batched _ _ _ _ h => exact hidle h.orders
  | filled fill hl h =>
    subst h
    exact hidle (holds_refl _)
  | raised _ _ h | unlocked _ _ _ _ _ _ _ _ _ h => exact hidle (hsame h)
  | cancels o hard hl h =>
    exact ⟨_, OrderManager.step_effect h.step, fun y hy =>
      absurd hy (OrderManager.not_created rfl rfl)⟩
  | sweeps maxAge hl hpc h =>
    exact ⟨_, OrderManager.step_effect h.step, fun y hy =>
      absurd hy (OrderManager.not_created rfl rfl)⟩
  | background ol hl hol hpc h =>
    refine ⟨_, OrderManager.step_effect h.step, fun y hy hentry => ?_⟩
    cases hy with
    | submitted _ hl =>
      subst hl
      cases hol
    | replaced hr => exact hreplaced hr rfl rfl rfl hentry
  | enters cfg rest b d decided limit hquantity hlimit hl hpc h =>
    refine ⟨_, OrderManager.step_effect h.step, fun y hy hentry => ?_⟩
    cases hy with
    | submitted _ hl =>
      cases hl
      exact .entered cfg rest b d decided hpc rfl
    | replaced hr => exact hreplaced hr rfl rfl rfl hentry
  | leaves intent hl h =>
    refine ⟨_, OrderManager.step_effect h.step, fun y hy hentry => ?_⟩
    cases hy with
    | submitted _ hl hplan =>
      cases hl
      subst hplan
      exact absurd hentry (Bool.eq_false_iff.mp intent.property)
    | replaced hr => exact hreplaced hr rfl rfl rfl hentry

/-- **A step leaves a strategy vacant**, if it handles no fill of it and
submits nothing but the batch. -/
theorem Vacant.step (hs : s.Vacant sid batch) (haimed : s.om.Aimed)
    (he : Effect env s l s') (hfill : ∀ fill ∈ l.filling, fill.strategyId ≠ sid)
    (hbatch : ∀ cfg rest b decided, s.pc = .submissions cfg rest b decided →
      batch = some b) : s'.Vacant sid batch := by
  refine ⟨(he.occupied hfill).trans hs.free, fun o y hy hentry hstrategy => ?_⟩
  obtain ⟨ol, hom, hnew⟩ := he.om
  rcases hom.lookup hy with ⟨x, hx, htouch⟩ | ⟨-, hcreated⟩
  · have hfixed := htouch.fixed
    rcases hs.retired o x hx (hfixed.2.1 ▸ hentry) (hfixed.2.2.1 ▸ hstrategy) with
      ⟨b, hb, hxb⟩ | hretired
    · exact .inl ⟨b, hb, hfixed.2.2.2.2.2.2.trans hxb⟩
    · exact .inr (hretired.step haimed hom)
  · cases hnew y hcreated hentry with
    | replaced i x p hr hx hxentry hystrategy hybatch =>
      rcases hs.retired i x hx hxentry (hystrategy ▸ hstrategy) with
        ⟨b, hb, hxb⟩ | hretired
      · exact .inl ⟨b, hb, hybatch.trans hxb⟩
      · exact absurd hr hretired.not_replacing
    | entered cfg rest b d decided hpc hyb => exact .inl ⟨b, hbatch _ _ _ _ hpc, hyb⟩

/-- Before a batch has its tag nothing is excepted. -/
theorem Vacant.mono (hs : s.Vacant sid none) : s.Vacant sid batch :=
  ⟨hs.free, fun o x hx hentry hstrategy =>
    .inr ((hs.retired o x hx hentry hstrategy).resolve_left nofun)⟩

/-! ## The entry phase -/

/-- An entry is under way because it was, or because the gates let the
strategy through. -/
theorem Flow.entering {pc pc' : RunnerPc} (h : Flow env s l s' pc pc')
    (hpc' : pc'.entering = some sid) :
    pc.entering = some sid ∧ (pc'.tagged = pc.tagged ∨ pc.tagged = none)
      ∨ ∃ cfg rest, pc = .entries (cfg :: rest) ∧ cfg.strategyId = sid
        ∧ (!cfg.enabled || s.pausedStrategies.contains cfg.strategyId) = false
        ∧ s.admits env cfg = true ∧ pc'.tagged = none := by
  cases h with
  | polls hgate hadmits => exact .inr ⟨_, _, rfl, Option.some.inj hpc', hgate, hadmits, rfl⟩
  | returned => exact .inl ⟨hpc', .inl rfl⟩
  | signalled | judged => exact .inl ⟨hpc', .inl rfl⟩
  | @batched _ _ decided _ _ d =>
    refine .inl ⟨?_, .inr rfl⟩
    cases decided <;> exact hpc'
  | @submissionSkipped _ _ _ _ decided =>
    cases decided with
    | nil => cases hpc'
    | cons => exact .inl ⟨hpc', .inl rfl⟩
  | @submits _ _ _ _ decided =>
    cases decided with
    | nil => cases hpc'
    | cons => exact .inl ⟨hpc', .inl rfl⟩
  | managed _ hmanaging => cases pc' <;> cases hmanaging <;> cases hpc'
  | exitsGoOn _ hexiting => cases pc' <;> cases hexiting <;> cases hpc'
  | @manageAwaits _ next _ hmanaging => cases next <;> cases hmanaging <;> cases hpc'
  | @exitAwaits _ next _ hexiting => cases next <;> cases hexiting <;> cases hpc'
  | _ => cases hpc'

/-- The signals at hand stay those of the strategy that was polled. -/
theorem Flow.ofStrategy {pc pc' : RunnerPc} (h : Flow env s l s' pc pc')
    (hsignals : ∀ sid ∈ pc.polled, ∀ signal ∈ l.signalled, signal.strategyId = sid)
    (hpc : pc.ofStrategy = true) : pc'.ofStrategy = true := by
  cases h with
  | returned => exact hpc
  | signalled hl =>
    subst hl
    exact List.all_eq_true.mpr fun signal hmem => decide_eq_true (hsignals _ rfl signal hmem)
  | judged d hd =>
    simp only [RunnerPc.ofStrategy, List.all_cons, List.all_append, List.all_nil,
      Bool.and_true, Bool.and_eq_true, hd] at hpc ⊢
    exact ⟨⟨hpc.1, hpc.2.1⟩, hpc.2.2⟩
  | batched d hd =>
    simp only [RunnerPc.ofStrategy, List.all_cons, List.all_append, List.all_nil,
      Bool.and_true, Bool.and_eq_true, hd] at hpc ⊢
    exact hpc
  | submissionSkipped | submits => exact (Bool.and_eq_true_iff.mp hpc).2
  | managed _ hmanaging => cases pc' <;> first | rfl | cases hmanaging
  | exitsGoOn _ hexiting => cases pc' <;> first | rfl | cases hexiting
  | @manageAwaits _ next _ hmanaging => cases next <;> first | rfl | cases hmanaging
  | @exitAwaits _ next _ hexiting => cases next <;> first | rfl | cases hexiting
  | _ => rfl

/-- A runner that awaits a coroutine goes on only when that is done. -/
theorem Flow.awaited {t : TaskId} {next pc' : RunnerPc}
    (h : Flow env s l s' (.awaiting t next) pc') :
    ∃ result, s.om.tasks[t]? = some (.done result) := by
  generalize hpc : RunnerPc.awaiting t next = pc at h
  cases h with
  | returned ht =>
    cases hpc
    exact ⟨_, ht⟩
  | reconcileCrashes h | resumeReconciled h | unlockReconciled h | managed h | manageAwaits h
  | manageEnds h | exitsGoOn h | exitAwaits h | exitsEnd h =>
    subst hpc
    cases h
  | _ => cases hpc

/-! ## Sweeps -/

/-- The stuck-cancel sweep runs only where the runner awaits it. -/
def SweepAwaited (s : ExecutionRunner) : Prop :=
  ∀ (t : TaskId) (c : Coroutine), s.om.tasks[t]? = some c →
    c.sweeping = true → s.pc = .awaiting t .manageSwept

/-- Where the runner moves, no sweep is under way. -/
theorem SweepAwaited.no_sweep (hs : s.SweepAwaited) (hflow : Flow env s l s' s.pc s'.pc)
    {t : TaskId} {c : Coroutine} (hc : s.om.tasks[t]? = some c) : c.sweeping = false := by
  by_contra hsweep
  rw [hs t c hc (Bool.not_eq_false _ ▸ hsweep)] at hflow
  obtain ⟨result, ht⟩ := hflow.awaited
  rw [Option.some.inj (hc.symm.trans ht)] at hsweep
  exact hsweep rfl

/-- A sweep after a step was one before, or is called by it. -/
theorem Effect.sweeping (he : Effect env s l s') {t : TaskId} {c : Coroutine}
    (hc : s'.om.tasks[t]? = some c) (hsweep : c.sweeping = true) :
    (∃ d, s.om.tasks[t]? = some d ∧ d.sweeping = true)
      ∨ s'.pc = .awaiting t .manageSwept := by
  have hsame : s'.om.tasks = s.om.tasks → ∃ d, s.om.tasks[t]? = some d ∧ d.sweeping = true :=
    fun h => ⟨c, h ▸ hc, hsweep⟩
  have hlets : ∀ {ol}, Lets s ol s' → (∃ d, s.om.tasks[t]? = some d ∧ d.sweeping = true)
      ∨ t = s.om.tasks.length ∧ ∃ maxAge, ol = .sweep maxAge := by
    intro ol h
    rcases (OrderManager.step_effect h.step).task hc with ⟨d, hd, hturn⟩ | ⟨ht, hstart⟩
    · exact .inl ⟨d, hd, hturn.sweeping hsweep⟩
    · cases hstart with
      | sweeps hl => exact .inr ⟨ht, _, hl⟩
      | _ => cases hsweep
  cases he with
  | keeps h => exact .inl (hsame h.orders.tasks)
  | batched _ _ _ _ h => exact .inl (hsame h.orders.tasks)
  | filled fill hl h =>
    subst h
    exact .inl (hsame rfl)
  | raised _ _ h | unlocked _ _ _ _ _ _ _ _ _ h => exact .inl (hsame (congrArg _ h))
  | sweeps maxAge hl hpc h =>
    rcases hlets h with h | ⟨ht, -⟩
    · exact .inl h
    · exact .inr (ht ▸ hpc)
  | background ol hl hol hpc h =>
    rcases hlets h with h | ⟨-, maxAge, rfl⟩
    · exact .inl h
    · cases hol
  | cancels _ _ _ h | leaves _ _ h | enters _ _ _ _ _ _ _ _ _ _ h =>
    rcases hlets h with h | ⟨-, maxAge, hol⟩
    · exact .inl h
    · cases hol

theorem SweepAwaited.step (hs : s.SweepAwaited) (h : s.step env l = some s') :
    s'.SweepAwaited := by
  intro t c hc hsweep
  rcases (step_effect h).sweeping hc hsweep with ⟨d, hd, hsweep'⟩ | hpc
  · rcases step_flow h with ⟨-, hsame⟩ | ⟨-, hflow⟩
    · rw [hsame]
      exact hs t d hd hsweep'
    · rw [hs.no_sweep hflow hd] at hsweep'
      cases hsweep'
  · exact hpc

/-! ## The invariant -/

/-- **While an entry is under way its strategy is vacant.** The rest is what
that takes: repricers cancel the orders they chase, the sweep runs only
where it is awaited, and signals are of the strategy that was polled. -/
structure Waiting (s : ExecutionRunner) : Prop where
  aimed : s.om.Aimed
  swept : ∀ (t : TaskId) (c : Coroutine), s.om.tasks[t]? = some c →
    c.sweeping = true → s.pc = .awaiting t .manageSwept
  ofStrategy : s.pc.ofStrategy = true
  vacant : ∀ sid, s.pc.entering = some sid → s.Vacant sid s.pc.tagged

/-- **A strategy that the gates let through is vacant**, where the check
stays true. -/
theorem Waiting.vacant_of_admits (hs : s.Waiting) (hflow : Flow env s l s' s.pc s'.pc)
    {cfg : StrategyConfig} (hadmits : s.admits env cfg = true)
    (hquiet : s.quiet cfg.strategyId = true) : s.Vacant cfg.strategyId none := by
  have hflat : s.flat cfg.strategyId = true := (Bool.and_eq_true_iff.mp hadmits).2
  simp only [flat, Bool.and_eq_true, Bool.not_eq_true', List.any_eq_false,
    decide_eq_true_eq, not_and, Bool.not_eq_true] at hflat
  simp only [quiet, List.all_eq_true, List.mem_range] at hquiet
  refine ⟨hflat.1, fun o x hx hentry hstrategy => .inr ⟨⟨x, hx, ?_, fun t c hc => ?_⟩, ?_⟩⟩
  · have := hflat.2 x (List.mem_of_getElem? hx) hstrategy
    rwa [OrderStatus.active_eq_not_terminal, Bool.not_eq_false'] at this
  · have := hquiet o (List.getElem?_eq_some_iff.mp hx).1
    simp only [hx, Option.all_some, hentry, hstrategy, decide_true, Bool.and_self,
      Bool.not_true, Bool.false_or, List.all_eq_true, Bool.not_eq_true'] at this
    exact this c (List.mem_of_getElem? hc)
  · intro t c hc htarget
    have hsweep := SweepAwaited.no_sweep hs.swept hflow hc
    cases c <;> cases htarget
    cases hsweep

theorem Waiting.step (hs : s.Waiting) (h : s.step env l = some s')
    (hC : s.FlatForGood env l) : s'.Waiting := by
  have he := step_effect h
  have hvacant : ∀ sid, s.pc.entering = some sid → s'.Vacant sid s.pc.tagged := by
    refine fun sid hsid => (hs.vacant sid hsid).step hs.aimed he ?_ ?_
    · exact fun fill hfill heq => hC.filled fill hfill (heq ▸ hsid)
    · rintro cfg rest b decided hpc
      rw [hpc]
      rfl
  obtain ⟨ol, hom, -⟩ := he.om
  refine ⟨hs.aimed.step hom, SweepAwaited.step hs.swept h, ?_, fun sid hsid => ?_⟩
  · rcases step_flow h with ⟨-, hsame⟩ | ⟨-, hflow⟩
    · exact hsame ▸ hs.ofStrategy
    · exact hflow.ofStrategy hC.signalled hs.ofStrategy
  · rcases step_flow h with ⟨-, hsame⟩ | ⟨-, hflow⟩
    · rw [hsame] at hsid ⊢
      exact hvacant sid hsid
    · rcases hflow.entering hsid with ⟨hpc, htag⟩ | ⟨cfg, rest, hpc, rfl, hgate, hadmits, htag⟩
      · have hv := hvacant sid hpc
        rcases htag with htag | htag
        · exact htag ▸ hv
        · exact (htag ▸ hv).mono
      · have hlets : s.letsThrough env = some cfg.strategyId := by
          simp only [letsThrough, hpc, hgate, hadmits]
          rfl
        have hv := hs.vacant_of_admits hflow hadmits (hC.settled _ hlets)
        rw [htag]
        refine hv.step hs.aimed he (fun fill hfill => ?_) fun cfg' rest' b decided hpc' => ?_
        · -- the gates are passed by a block of the runner's, not by a fill
          cases l with
          | fill fill' =>
            rcases step_flow h with ⟨-, hsame⟩ | ⟨hrunner, -⟩
            · rw [hsame, hpc] at hsid
              cases hsid
            · cases hrunner
          | _ => cases hfill
        · rw [hpc] at hpc'
          cases hpc'

/-- **A retired order is never replaced.** -/
theorem neverReplaced_of_retired {o : OrderId} (haimed : s.om.Aimed)
    (h : s.om.Retired o) : NeverReplaced env s o := by
  intro ls t l t' hrun hstep call hmem hsupersedes
  obtain ⟨-, hretired⟩ : t.om.Aimed ∧ t.om.Retired o := by
    refine Machine.run_invariant' (M := machine env)
      (J := fun s => s.om.Aimed ∧ s.om.Retired o) (fun s l s' hs hs' => ?_)
      ⟨haimed, h⟩ hrun
    obtain ⟨ol, hom, -⟩ := (step_effect hs').om
    exact ⟨hs.1.step hom, hs.2.step hs.1 hom⟩
  cases newCall_of_mem hstep hmem with
  | entered => cases hsupersedes
  | left => cases hsupersedes
  | replaced ol i x p plan hl hr =>
    cases hsupersedes
    exact hretired.not_replacing hr

/-- **A step from such a state waits until its strategy is flat.** -/
theorem Waiting.waitsUntilFlat (hs : s.Waiting) (h : s.step env l = some s') :
    WaitsUntilFlat env s s' := by
  intro call hmem hentry hsupersedes y hy
  cases newCall_of_mem h hmem with
  | left plan hexit => rw [hexit] at hentry; cases hentry
  | replaced => cases hsupersedes
  | entered cfg rest batch d decided intent plan hl hpc hstrategy hbatch _ hplan horders =>
    rw [horders, List.getElem?_append_new _ rfl] at hy
    obtain rfl := Option.some.inj hy
    have hsid : plan.strategyId = cfg.strategyId := by
      have hof := hs.ofStrategy
      rw [hpc] at hof
      have hd := (Bool.and_eq_true_iff.mp hof).1
      exact (hplan.trans hstrategy).trans (of_decide_eq_true hd)
    have hv : s.Vacant cfg.strategyId (some batch) := by
      have := hs.vacant cfg.strategyId (by rw [hpc]; rfl)
      rwa [hpc] at this
    have hfree : s.occupied plan.strategyId = false := hsid ▸ hv.free
    refine ⟨hfree, fun o x hx hxentry hxstrategy hother => ?_⟩
    rcases hv.retired o x hx hxentry (hxstrategy.trans hsid) with ⟨b, hb, hxb⟩ | hretired
    · exact absurd (hxb.trans (hb.symm.trans hbatch.symm)) hother
    · obtain ⟨z, hz, hdone, -⟩ := hretired.done
      obtain ⟨ol, hom, -⟩ := (step_effect h).om
      exact ⟨Option.some.inj (hx.symm.trans hz) ▸ hdone,
        neverReplaced_of_retired (hs.aimed.step hom) (hretired.step hs.aimed hom)⟩

theorem waiting_initial (start : Startup) : (initial start).Waiting where
  aimed _ _ h := nomatch h
  swept _ _ h := nomatch h
  ofStrategy := rfl
  vacant _ h := nomatch h

/-- **In a run in which the flat check stays true a strategy always waits
until it is flat.** -/
theorem waitsUntilFlat_of_flatForGood (env : RunnerEnv) (start : Startup)
    (ls : List Label) :
    (machine env).Along (fun s l _ => s.FlatForGood env l) (initial start) ls →
      (machine env).Along (fun s _ s' => WaitsUntilFlat env s s') (initial start) ls :=
  Machine.along_of_step (J := Waiting) (fun _ _ _ hs h hC => hs.step h hC)
    (fun _ _ _ hs h _ => hs.waitsUntilFlat h) (waiting_initial start)

/-- An order that the broker refused to place is followed by another batch. -/
theorem waitsUntilFlat_after_error :
    (machine sampleEnv).Along (fun s _ s' => WaitsUntilFlat sampleEnv s s')
      (initial sampleStartup)
      (entryTick (.raised "") ++ [.orders (.advance 1)] ++ nextTick [] ++ sampleEntry) :=
  waitsUntilFlat_of_flatForGood sampleEnv sampleStartup _ (by decide +kernel)

/-- The order is being repriced when the next tick finds the strategy flat
and polls it. -/
def polledRepricing : List Label :=
  entryTick (.placed 0 .submitted) ++ repricing ++ nextTick []
    ++ [.reply (.tradedToday []), .run, .reply (.signals [sampleSignal]), .reply .raised]

/-- The entry order that is there, in its place and with its batch. -/
def sampleOrders (s : ExecutionRunner) : List (Bool × StrategyId × Option BatchId) :=
  s.om.orders.map fun x => (x.isEntry, x.strategyId, x.entryBatch)

theorem sampleOrders_get {o : OrderId} {entry : Bool} {b : Option BatchId}
    (h : s.sampleOrders[o]? = some (entry, sid, b)) :
    ∃ x, s.om.orders[o]? = some x ∧ x.isEntry = entry ∧ x.strategyId = sid
      ∧ x.entryBatch = b := by
  rw [sampleOrders, List.getElem?_map, Option.map_eq_some_iff] at h
  obtain ⟨x, hx, heq⟩ := h
  simp only [Prod.mk.injEq] at heq
  exact ⟨x, hx, heq⟩

/-- **A new batch is submitted, and then the order of the batch before is
replaced.** -/
theorem not_waitsUntilFlat :
    ¬ ∀ env start ls, (machine env).Along (fun s _ s' => WaitsUntilFlat env s s')
      (initial start) ls := by
  intro h
  have hrun : ((machine sampleEnv).run (initial sampleStartup) polledRepricing).map
      (fun s => (s.om.placeCalls.length, s.sampleOrders))
        = some (1, [(true, "orb", some 0)]) := by
    decide +kernel
  have hsubmit : ((machine sampleEnv).run (initial sampleStartup)
      (polledRepricing ++ [.run])).map (fun s => (s.om.placeCalls.drop 1).map
        (fun call => (call.order, call.plan.isEntry, call.supersedes)))
        = some [(1, true, none)] := by
    decide +kernel
  have hbatches : ((machine sampleEnv).run (initial sampleStartup)
      (polledRepricing ++ [.run])).map sampleOrders
        = some [(true, "orb", some 0), (true, "orb", some 1)] := by
    decide +kernel
  have hwake : ((machine sampleEnv).run (initial sampleStartup)
      (polledRepricing ++ [.run] ++ [.orders (.wake 2)])).map
        (fun s => s.om.placeCalls.length) = some 2 := by
    decide +kernel
  have hreplace : ((machine sampleEnv).run (initial sampleStartup)
      (polledRepricing ++ [.run] ++ [.orders (.wake 2)] ++ [.orders .go])).map
        (fun s => (s.om.placeCalls.drop 2).map (·.supersedes)) = some [some 0] := by
    decide +kernel
  obtain ⟨s, hs, hstate⟩ := Option.map_eq_some_iff.mp hrun
  obtain ⟨s₁, hs₁, hnew⟩ := Option.map_eq_some_iff.mp hsubmit
  rw [hs₁] at hbatches
  have horders₁ := Option.some.inj hbatches
  obtain ⟨s₂, hs₂, hcalls₂⟩ := Option.map_eq_some_iff.mp hwake
  obtain ⟨s₃, hs₃, hsupersedes⟩ := Option.map_eq_some_iff.mp hreplace
  obtain ⟨hcalls, horders⟩ := Prod.mk.inj hstate
  -- the step that submits the batch, and the two that follow it
  obtain ⟨t, ht, hstep⟩ := Machine.run_snoc.mp hs₁
  obtain rfl := Option.some.inj (ht.symm.trans hs)
  obtain ⟨u, hu, hsleep⟩ := Machine.run_append_some.mp hs₂
  obtain rfl := Option.some.inj (hu.symm.trans hs₁)
  obtain ⟨v, hv, hstep₂⟩ := Machine.run_snoc.mp hs₃
  obtain rfl := Option.some.inj (hv.symm.trans hs₂)
  have hwaits := Machine.along_step
    (h sampleEnv sampleStartup (polledRepricing ++ [.run])) ht hstep
  obtain ⟨call, hcall, heq⟩ := List.map_eq_singleton_iff.mp hnew
  simp only [Prod.mk.injEq] at heq
  obtain ⟨horder, hentry, hnone⟩ := heq
  have hmem : call ∈ newCalls t u := by
    rw [newCalls, hcalls, hcall]
    exact List.mem_singleton_self _
  obtain ⟨x, hx, hxentry, hxsid, hxbatch⟩ :=
    sampleOrders_get (s := t) (o := 0) (by rw [horders]; rfl)
  obtain ⟨y, hy, -, hysid, hybatch⟩ :=
    sampleOrders_get (s := u) (o := 1) (by rw [horders₁]; rfl)
  obtain ⟨-, hothers⟩ := hwaits call hmem hentry hnone y (horder ▸ hy)
  obtain ⟨-, hnever⟩ := hothers 0 x hx hxentry (hxsid.trans hysid.symm)
    (by rw [hxbatch, hybatch]; decide)
  obtain ⟨call₂, hcall₂, heq₂⟩ := List.map_eq_singleton_iff.mp hsupersedes
  refine hnever [.orders (.wake 2)] v (.orders .go) s₃ hsleep hstep₂ call₂ ?_ heq₂
  rw [newCalls, hcalls₂, hcall₂]
  exact List.mem_singleton_self _

end ExecutionRunner
