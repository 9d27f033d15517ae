import ExecutionSystem.RunnerSteps

/-!
# Time only passes

The clock of the order manager is the only one there is, and it moves with
the label `advance` alone: a block between two awaits takes no time. So
along a run, whoever takes the steps, it never goes back.
-/

namespace OrderManager

/-! ## The order manager -/

section Fields

variable (om : OrderManager) (t : TaskId) (c : Coroutine) (r : Repricer) (b : Bool)
  (k : CancelCaller)

@[simp] theorem suspend_clock : (om.suspend t c).clock = om.clock := rfl
@[simp] theorem goOn_clock : (om.goOn t c).clock = om.clock := rfl
@[simp] theorem spawn_clock : (om.spawn c).clock = om.clock := rfl
@[simp] theorem call_clock : (om.call c).clock = om.clock := rfl
@[simp] theorem sleep_clock : (om.sleep t r).clock = om.clock := rfl

@[simp] theorem returnFromCancel_clock : (om.returnFromCancel t b k).clock = om.clock := by
  cases k <;> cases b <;> rfl

end Fields

variable {om om' : OrderManager} {t : TaskId} {reply : Reply}

theorem cancelOrder_clock (o : OrderId) (hard : Bool) (k : CancelCaller) :
    (om.cancelOrder t o hard k).clock = om.clock := by
  unfold cancelOrder
  split
  · exact returnFromCancel_clock ..
  · dsimp only
    split_ifs
    · exact returnFromCancel_clock ..
    · split
      · exact returnFromCancel_clock ..
      · rfl

theorem sweepNext_clock (now maxAge : Time) (rest : List OrderId) :
    (om.sweepNext t now maxAge rest).clock = om.clock := by
  cases rest with
  | nil => rfl
  | cons o rest =>
    simp only [sweepNext]
    split
    · rfl
    · split_ifs
      · rfl
      · split <;> rfl

theorem repricerWoken_clock (r : Repricer) : (om.repricerWoken t r).clock = om.clock := by
  unfold repricerWoken
  split
  · rfl
  · split_ifs <;> rfl

theorem repricerCancels_clock (r : Repricer) (p : Price) :
    (om.repricerCancels t r p).clock = om.clock := by
  unfold repricerCancels
  split
  · rfl
  · split_ifs <;> rfl

theorem pollChecked_clock (r : Repricer) (p : Price) :
    (om.pollChecked t r p).clock = om.clock := by
  unfold pollChecked
  split
  · rfl
  · split_ifs <;> rfl

/-- A block of a coroutine takes no time. -/
theorem block_clock {c : Coroutine} (h : om.block t c = some om') : om'.clock = om.clock := by
  cases c with
  | cancelStart o hard k => obtain rfl := Option.some.inj h; exact cancelOrder_clock ..
  | sweepLoop now maxAge rest => obtain rfl := Option.some.inj h; exact sweepNext_clock ..
  | repricerStart o config => obtain rfl := Option.some.inj h; rfl
  | repricerSleep r wakeAt => obtain rfl := Option.some.inj h; exact repricerWoken_clock r
  | repricerCancel r p => obtain rfl := Option.some.inj h; exact repricerCancels_clock r p
  | pollCheck r p => obtain rfl := Option.some.inj h; exact pollChecked_clock r p
  | pollSleep r p wakeAt => obtain rfl := Option.some.inj h; exact pollChecked_clock r p
  | _ => cases h

theorem placeReturned_clock {o : OrderId} {reprice : Option RepriceConfig}
    (h : om.placeReturned t o reprice reply = some om') : om'.clock = om.clock := by
  cases reply with
  | placed b status => obtain rfl := Option.some.inj h; cases reprice <;> rfl
  | raised message => obtain rfl := Option.some.inj h; rfl
  | _ => cases h

theorem cancelReturned_clock {o : OrderId} {k : CancelCaller}
    (h : om.cancelReturned t o k reply = some om') : om'.clock = om.clock := by
  cases reply with
  | cancelled accepted => obtain rfl := Option.some.inj h; exact returnFromCancel_clock ..
  | raised message => obtain rfl := Option.some.inj h; exact returnFromCancel_clock ..
  | _ => cases h

theorem sweepQueried_clock {now maxAge : Time} {o : OrderId} {rest : List OrderId}
    (h : om.sweepQueried t now maxAge o rest reply = some om') : om'.clock = om.clock := by
  cases reply with
  | orderStatus status =>
    cases status with
    | none => obtain rfl := Option.some.inj h; rfl
    | some status =>
      obtain rfl := Option.some.inj h
      split_ifs <;> rfl
  | raised message => obtain rfl := Option.some.inj h; rfl
  | _ => cases h

theorem sweepRecancelled_clock {now maxAge : Time} {o : OrderId} {rest : List OrderId}
    (h : om.sweepRecancelled t now maxAge o rest reply = some om') : om'.clock = om.clock := by
  cases reply with
  | cancelled _ | raised _ => obtain rfl := Option.some.inj h; rfl
  | _ => cases h

theorem repricerQuoted_clock {r : Repricer} (h : om.repricerQuoted t r reply = some om') :
    om'.clock = om.clock := by
  cases reply with
  | quote q =>
    cases q with
    | none => obtain rfl := Option.some.inj h; rfl
    | some q =>
      obtain rfl := Option.some.inj h
      dsimp only
      split
      · split_ifs <;> rfl
      · rfl
  | raised message => obtain rfl := Option.some.inj h; rfl
  | _ => cases h

theorem repricerModified_clock {r : Repricer} {p : Price}
    (h : om.repricerModified t r p reply = some om') : om'.clock = om.clock := by
  cases reply with
  | modified accepted => cases accepted <;> obtain rfl := Option.some.inj h <;> rfl
  | raised message => obtain rfl := Option.some.inj h; rfl
  | _ => cases h

theorem replaceReturned_clock {r : Repricer} {n : OrderId}
    (h : om.replaceReturned t r n reply = some om') : om'.clock = om.clock := by
  cases reply with
  | placed _ _ | raised _ => obtain rfl := Option.some.inj h; rfl
  | _ => cases h

/-- Neither does what follows an answer of the broker. -/
theorem resume_clock {c : Coroutine} (h : om.resume t reply c = some om') :
    om'.clock = om.clock := by
  cases c with
  | placeAwait o reprice => exact placeReturned_clock h
  | cancelAwait o k => exact cancelReturned_clock h
  | sweepQuery now maxAge o rest => exact sweepQueried_clock h
  | sweepRecancel now maxAge o rest => exact sweepRecancelled_clock h
  | quoteAwait r => exact repricerQuoted_clock h
  | modifyAwait r p => exact repricerModified_clock h
  | replaceAwait r n => exact replaceReturned_clock h
  | _ => cases h

theorem onBrokerOrderUpdate_clock (upd : BrokerUpdate) :
    (om.onBrokerOrderUpdate upd).clock = om.clock := by
  unfold onBrokerOrderUpdate
  split
  · rfl
  · split
    · rfl
    · dsimp only
      split_ifs <;> rfl

theorem submitIntent_clock {intent : OrderIntent} {decision : RiskDecision} {e : Bool}
    {reprice : Option RepriceConfig} {algo : Option String}
    (h : om.submitIntent intent decision e reprice algo = .ok om') : om'.clock = om.clock := by
  unfold submitIntent at h
  split_ifs at h
  · split at h <;> cases h
    rfl
  · split at h <;> cases h

/-- **Time only passes.** -/
theorem clock_step {l : Label} (h : om.step l = some om') : om.clock ≤ om'.clock := by
  cases l with
  | go =>
    obtain ⟨t, -, h⟩ := Option.bind_eq_some_iff.mp h
    obtain ⟨c, -, h⟩ := Option.bind_eq_some_iff.mp h
    exact (block_clock h).ge
  | resume t reply =>
    obtain ⟨-, h⟩ := Option.ite_none_right_eq_some.mp h
    obtain ⟨c, -, h⟩ := Option.bind_eq_some_iff.mp h
    exact (resume_clock h).ge
  | advance d =>
    obtain ⟨⟨-, hd⟩, h⟩ := Option.ite_none_right_eq_some.mp h
    obtain rfl := Option.some.inj h
    exact le_add_of_nonneg_right hd
  | submit intent decision e reprice algo =>
    obtain ⟨-, h⟩ := Option.ite_none_right_eq_some.mp h
    obtain rfl := Option.some.inj h
    cases hsubmit : om.submitIntent intent decision e reprice algo with
    | error _ => exact le_rfl
    | ok om' => exact (submitIntent_clock hsubmit).ge
  | callback upd =>
    obtain ⟨-, h⟩ := Option.ite_none_right_eq_some.mp h
    obtain rfl := Option.some.inj h
    exact (onBrokerOrderUpdate_clock upd).ge
  | cancel _ _ | sweep _ | wake _ =>
    obtain ⟨-, h⟩ := Option.ite_none_right_eq_some.mp h
    obtain rfl := Option.some.inj h
    exact le_rfl

end OrderManager

/-! ## The runner -/

namespace ExecutionRunner

variable {env : RunnerEnv} {s s' : ExecutionRunner} {l : Label}

theorem awaitSubmit_clock (intent : OrderIntent) (decision : RiskDecision)
    (reprice : RepriceConfig) (next : RunnerPc) :
    (s.awaitSubmit env intent decision reprice next).om.clock = s.om.clock := by
  unfold awaitSubmit
  split
  · rename_i hsubmit
    exact OrderManager.submitIntent_clock hsubmit
  · rfl

theorem command_clock (rest : List Command) (c : Command) :
    (s.command env rest c).om.clock = s.om.clock := by
  cases c with
  | exitPosition p =>
    simp only [command]
    split_ifs <;> rfl
  | pauseStrategy sid paused => cases paused <;> rfl
  | fireStraddle sid =>
    show (s.fireStraddle env _).om.clock = s.om.clock
    unfold fireStraddle
    split
    · rfl
    · split_ifs <;> rfl
  | _ => rfl

theorem submission_clock (cfg : StrategyConfig) (rest : List StrategyConfig) (batch : BatchId)
    (decided : List Decided) :
    (s.submission env cfg rest batch decided).om.clock = s.om.clock := by
  cases decided with
  | nil => rfl
  | cons d decided =>
    simp only [submission]
    split
    · rfl
    · split_ifs
      · exact awaitSubmit_clock ..
      · rfl
      · rfl

theorem startExits_clock : s.startExits.om.clock = s.om.clock := by
  unfold startExits
  dsimp only
  split_ifs <;> rfl

/-- A block of the runner takes no time. -/
theorem block_clock {pc : RunnerPc} (h : s.block env pc = some s') :
    s'.om.clock = s.om.clock := by
  cases block_cases h with
  | loopTop | commandsEnd | manage | sleepEnds | wakes | returned => rfl
  | pauseWait =>
    unfold afterPause
    split_ifs <;> rfl
  | command c rest => exact command_clock rest c
  | manageSwept =>
    unfold manageSwept
    split_ifs <;> rfl
  | rejectionCancels rest =>
    cases rest with
    | nil => rfl
    | cons o rest => simp only [rejectionCancel]; split_ifs <;> rfl
  | timeouts rest groups =>
    cases rest with
    | nil => rfl
    | cons o rest => simp only [timeout]; split_ifs <;> rfl
  | legs groups openPositions =>
    cases groups with
    | nil => rfl
    | cons group groups => simp only [leg]; split <;> rfl
  | legCancels failed peers group groups openPositions =>
    cases peers with
    | nil => rfl
    | cons o peers => simp only [legCancel]; split_ifs <;> rfl
  | entries rest =>
    cases rest with
    | nil => rfl
    | cons cfg rest => simp only [entry]; split_ifs <;> rfl
  | submissions cfg rest batch decided => exact submission_clock cfg rest batch decided
  | exits => exact startExits_clock
  | exitsCollected =>
    unfold exitsCollected
    split <;> rfl
  | exitSignals rest =>
    cases rest with
    | nil => rfl
    | cons signal rest => simp only [exitSignal]; split_ifs <;> rfl
  | exitCancels orders signal rest =>
    cases orders with
    | nil => exact awaitSubmit_clock ..
    | cons o orders => simp only [exitCancel]; split_ifs <;> rfl
  | tickDone =>
    unfold afterTick
    split_ifs <;> rfl

theorem reconcileRaised_clock (site : ReconcileSite) :
    (s.reconcileRaised site).om.clock = s.om.clock := by
  cases site <;> rfl

theorem reconciled_clock (report : ReconciliationReport) (site : ReconcileSite) :
    (s.reconciled env report site).om.clock = s.om.clock := by
  cases site <;> simp only [reconciled] <;> split_ifs <;> rfl

theorem quoted_clock (cfg : StrategyConfig) (rest : List StrategyConfig)
    (decided : List Decided) (signal : StrategySignal) (pending : List StrategySignal)
    (state : SystemState) (quote : Option QuoteSnapshot) :
    (s.quoted env cfg rest decided signal pending state quote).om.clock = s.om.clock := by
  cases pending with
  | nil => simp only [quoted, decide]; split_ifs <;> rfl
  | cons next pending => rfl

/-- Neither does what follows an answer. -/
theorem answered_clock {reply : RunnerReply} {pc : RunnerPc}
    (h : s.answered env reply pc = some s') : s'.om.clock = s.om.clock := by
  cases answered_cases h with
  | openOrders => exact reconciled_clock ..
  | positionsRaised site | ordersRaised site => exact reconcileRaised_clock site
  | tradedToday stored =>
    simp only [startEntries, refreshTradedToday]
    split_ifs <;> rfl
  | quoted => exact quoted_clock ..
  | _ => rfl

/-- **Time only passes**, whoever takes the step. -/
theorem clock_step (h : s.step env l = some s') : s.om.clock ≤ s'.om.clock := by
  cases l with
  | orders ol =>
    obtain ⟨-, h⟩ := Option.ite_none_right_eq_some.mp h
    obtain ⟨om, hom, rfl⟩ := Option.map_eq_some_iff.mp h
    exact OrderManager.clock_step hom
  | fill _ | stop | pause | resume =>
    obtain ⟨-, h⟩ := Option.ite_none_right_eq_some.mp h
    obtain rfl := Option.some.inj h
    exact le_rfl
  | reply reply =>
    obtain ⟨-, h⟩ := Option.ite_none_right_eq_some.mp h
    exact (answered_clock h).ge
  | run =>
    obtain ⟨-, h⟩ := Option.ite_none_right_eq_some.mp h
    exact (block_clock h).ge

end ExecutionRunner
