import ExecutionSystem.Runner

/-!
# The blocks of the runner, one by one

Which block the runner takes next is decided by where it stands, and which
one follows an answer by where it awaits it. Both functions are taken apart
here, once: `ExecutionRunner.block_cases` for the blocks and
`ExecutionRunner.answered_cases` for the answers, each with the guards that
the code has tested and with what the block leaves. What is proved of a
block afterwards is proved by cases on these.
-/

namespace ExecutionRunner

variable {env : RunnerEnv} {s s' : ExecutionRunner}

/-! ## Blocks -/

/-- **The runner's own blocks**: which one is next where the runner stands,
and what it leaves. -/
inductive Block (env : RunnerEnv) (s : ExecutionRunner) : RunnerPc → ExecutionRunner → Prop
  | loopTop : Block env s .loopTop (s.at' (if s.stopRequested then .exited else .pauseWait))
  | pauseWait (hpaused : ¬ s.paused = true) : Block env s .pauseWait s.afterPause
  | commandsEnd : Block env s (.commands []) (s.at' .manage)
  | command (c rest) : Block env s (.commands (c :: rest)) (s.command env rest c)
  | manage : Block env s .manage (s.awaitSweep .manageSwept)
  | manageSwept : Block env s .manageSwept s.manageSwept
  | rejectionCancels (rest) : Block env s (.rejectionCancels rest) (s.rejectionCancel rest)
  | timeouts (rest groups) : Block env s (.timeouts rest groups) (s.timeout groups rest)
  | legs (groups openPositions) :
      Block env s (.legs groups openPositions) (s.leg openPositions groups)
  | legCancels (failed peers group groups openPositions) :
      Block env s (.legCancels failed peers group groups openPositions)
        (s.legCancel failed group groups openPositions peers)
  | entries (rest) : Block env s (.entries rest) (s.entry env rest)
  | submissions (cfg rest batch decided) :
      Block env s (.submissions cfg rest batch decided) (s.submission env cfg rest batch decided)
  | exits : Block env s .exits s.startExits
  | exitsCollected (eligible quotes bars flagged) :
      Block env s (.exitCollect [] eligible quotes bars flagged)
        (s.exitsCollected env eligible quotes bars flagged)
  | exitSignals (rest) : Block env s (.exitSignals rest) (s.exitSignal rest)
  | exitCancels (orders signal rest) :
      Block env s (.exitCancels orders signal rest) (s.exitCancel env signal rest orders)
  | tickDone : Block env s .tickDone (s.afterTick env)
  | sleepEnds (wakeAt) (hstop : s.stopRequested = true) :
      Block env s (.sleeping wakeAt) (s.at' .exited)
  | wakes (wakeAt) (hwake : wakeAt ≤ s.om.clock) : Block env s (.sleeping wakeAt) (s.at' .loopTop)
  | returned (t next) {result} (ht : s.om.tasks[t]? = some (.done result)) :
      Block env s (.awaiting t next) (s.at' next)

/-- **Every block is one of these.** -/
theorem block_cases {pc : RunnerPc} (h : s.block env pc = some s') : Block env s pc s' := by
  cases pc with
  | loopTop => obtain rfl := Option.some.inj h; exact .loopTop
  | pauseWait =>
    simp only [block, Option.ite_none_left_eq_some] at h
    obtain rfl := Option.some.inj h.2
    exact .pauseWait h.1
  | commands rest =>
    cases rest with
    | nil => obtain rfl := Option.some.inj h; exact .commandsEnd
    | cons c rest => obtain rfl := Option.some.inj h; exact .command c rest
  | manage => obtain rfl := Option.some.inj h; exact .manage
  | manageSwept => obtain rfl := Option.some.inj h; exact .manageSwept
  | rejectionCancels rest => obtain rfl := Option.some.inj h; exact .rejectionCancels rest
  | timeouts rest groups => obtain rfl := Option.some.inj h; exact .timeouts rest groups
  | legs groups openPositions => obtain rfl := Option.some.inj h; exact .legs groups openPositions
  | legCancels failed peers group groups openPositions =>
    obtain rfl := Option.some.inj h
    exact .legCancels failed peers group groups openPositions
  | entries rest => obtain rfl := Option.some.inj h; exact .entries rest
  | submissions cfg rest batch decided =>
    obtain rfl := Option.some.inj h
    exact .submissions cfg rest batch decided
  | exits => obtain rfl := Option.some.inj h; exact .exits
  | exitCollect rest eligible quotes bars flagged =>
    cases rest with
    | nil => obtain rfl := Option.some.inj h; exact .exitsCollected eligible quotes bars flagged
    | cons sid rest => cases h
  | exitSignals rest => obtain rfl := Option.some.inj h; exact .exitSignals rest
  | exitCancels orders signal rest =>
    obtain rfl := Option.some.inj h
    exact .exitCancels orders signal rest
  | tickDone => obtain rfl := Option.some.inj h; exact .tickDone
  | sleeping wakeAt =>
    simp only [block] at h
    split_ifs at h with hstop hwake <;> obtain rfl := Option.some.inj h
    · exact .sleepEnds wakeAt hstop
    · exact .wakes wakeAt hwake
  | awaiting t next =>
    simp only [block] at h
    split at h
    · rename_i ht
      obtain rfl := Option.some.inj h
      exact .returned t next ht
    · cases h
  | _ => cases h

/-! ## Answers -/

/-- **What follows an answer**: which ones there are where the runner stands,
and what each leaves. A read that raises is an empty one. -/
inductive Answer (env : RunnerEnv) (s : ExecutionRunner) :
    RunnerReply → RunnerPc → ExecutionRunner → Prop
  | reconnected :
      Answer env s (.connected true) .resumeConnected (s.startReconcile .autoResume)
  | resumeEnds {reply} (hreply : reply = .connected false ∨ reply = .raised) :
      Answer env s reply .resumeConnected s.beginTick
  | positions (broker site orders internal) :
      Answer env s (.positions broker) (.reconcilePositions site orders internal)
        (s.at' (.reconcileOrders site orders (indexOrders s.om.orders orders)
          (comparePositions internal broker)))
  | openOrders (broker site orders index found) :
      Answer env s (.openOrders broker) (.reconcileOrders site orders index found)
        (s.reconciled env (compareOrders found s.om.orders orders index broker) site)
  | positionsRaised (site orders internal) :
      Answer env s .raised (.reconcilePositions site orders internal) (s.reconcileRaised site)
  | ordersRaised (site orders index found) :
      Answer env s .raised (.reconcileOrders site orders index found) (s.reconcileRaised site)
  | connected : Answer env s (.connected true) .tickConnected (s.at' .fetchCommands)
  | disconnected : Answer env s (.connected false) .tickConnected
      ({ s.lock .disconnect with lockedByDisconnect := true }.at' .tickDone)
  | tickRaised : Answer env s .raised .tickConnected (s.at' .tickDone)
  | fetched (pending) : Answer env s (.commands pending) .fetchCommands (s.at' (.commands pending))
  | fetchRaised : Answer env s .raised .fetchCommands (s.at' .manage)
  | tradedToday {reply} (stored)
      (hreply : reply = .tradedToday stored ∨ reply = .raised ∧ stored = []) :
      Answer env s reply .entryStart (s.startEntries env stored)
  | signalled (signal pending cfg manual rest) :
      Answer env s (.signals (signal :: pending)) (.pollAwait cfg manual rest)
        (s.at' (.quoteAwait cfg rest [] signal pending s.systemState))
  | pollEnds {reply} (cfg manual rest) (hreply : reply = .signals [] ∨ reply = .raised) :
      Answer env s reply (.pollAwait cfg manual rest) (s.at' (.entries rest))
  | quoted {reply} (cfg rest decided signal pending state) (quote : Option QuoteSnapshot)
      (hreply : (∃ quotes, reply = .quotes quotes
          ∧ quote = quotes (signal.contract.toQuoteSymbol env.floatRepr))
        ∨ reply = .raised ∧ quote = none) :
      Answer env s reply (.quoteAwait cfg rest decided signal pending state)
        (s.quoted env cfg rest decided signal pending state quote)
  | exitsQuoted (eligible quotes bars) :
      Answer env s (.marketData quotes bars) (.exitQuotes eligible)
        (s.exitsQuoted env eligible quotes bars)
  | exitsFlagged {reply} (sid rest eligible quotes bars flagged) (more : List PositionId)
      (hreply : reply = .flagged more ∨ reply = .raised ∧ more = []) :
      Answer env s reply (.exitCollect (sid :: rest) eligible quotes bars flagged)
        (s.at' (.exitCollect rest eligible quotes bars (flagged ++ more)))
  | snapshotEnds {reply} (hreply : reply = .done ∨ reply = .raised) :
      Answer env s reply .snapshot (s.at' .tickDone)

/-- **Every answer is one of these.** -/
theorem answered_cases {reply : RunnerReply} {pc : RunnerPc}
    (h : s.answered env reply pc = some s') : Answer env s reply pc s' := by
  cases pc with
  | resumeConnected =>
    cases reply with
    | connected value =>
      cases value <;> obtain rfl := Option.some.inj h
      · exact .resumeEnds (.inl rfl)
      · exact .reconnected
    | raised => obtain rfl := Option.some.inj h; exact .resumeEnds (.inr rfl)
    | _ => cases h
  | reconcilePositions site orders internal =>
    cases reply with
    | positions broker => obtain rfl := Option.some.inj h; exact .positions broker site orders _
    | raised => obtain rfl := Option.some.inj h; exact .positionsRaised site orders internal
    | _ => cases h
  | reconcileOrders site orders index found =>
    cases reply with
    | openOrders broker =>
      obtain rfl := Option.some.inj h
      exact .openOrders broker site orders index found
    | raised => obtain rfl := Option.some.inj h; exact .ordersRaised site orders index found
    | _ => cases h
  | tickConnected =>
    cases reply with
    | connected value =>
      cases value <;> obtain rfl := Option.some.inj h
      · exact .disconnected
      · exact .connected
    | raised => obtain rfl := Option.some.inj h; exact .tickRaised
    | _ => cases h
  | fetchCommands =>
    cases reply with
    | commands pending => obtain rfl := Option.some.inj h; exact .fetched pending
    | raised => obtain rfl := Option.some.inj h; exact .fetchRaised
    | _ => cases h
  | entryStart =>
    cases reply with
    | tradedToday stored => obtain rfl := Option.some.inj h; exact .tradedToday stored (.inl rfl)
    | raised => obtain rfl := Option.some.inj h; exact .tradedToday [] (.inr ⟨rfl, rfl⟩)
    | _ => cases h
  | pollAwait cfg manual rest =>
    cases reply with
    | signals signals =>
      cases signals <;> obtain rfl := Option.some.inj h
      · exact .pollEnds cfg manual rest (.inl rfl)
      · exact .signalled ..
    | raised => obtain rfl := Option.some.inj h; exact .pollEnds cfg manual rest (.inr rfl)
    | _ => cases h
  | quoteAwait cfg rest decided signal pending state =>
    cases reply with
    | quotes quotes =>
      obtain rfl := Option.some.inj h
      exact .quoted cfg rest decided signal pending state _ (.inl ⟨quotes, rfl, rfl⟩)
    | raised =>
      obtain rfl := Option.some.inj h
      exact .quoted cfg rest decided signal pending state none (.inr ⟨rfl, rfl⟩)
    | _ => cases h
  | exitQuotes eligible =>
    cases reply with
    | marketData quotes bars =>
      obtain rfl := Option.some.inj h
      exact .exitsQuoted eligible quotes bars
    | _ => cases h
  | exitCollect rest eligible quotes bars flagged =>
    cases rest with
    | nil => cases h
    | cons sid rest =>
      cases reply with
      | flagged more =>
        obtain rfl := Option.some.inj h
        exact .exitsFlagged sid rest eligible quotes bars flagged more (.inl rfl)
      | raised =>
        obtain rfl := Option.some.inj h
        have hnone := @Answer.exitsFlagged env s .raised sid rest eligible quotes bars
          flagged [] (.inr ⟨rfl, rfl⟩)
        rwa [List.append_nil] at hnone
      | _ => cases h
  | snapshot =>
    cases reply with
    | done => obtain rfl := Option.some.inj h; exact .snapshotEnds (.inl rfl)
    | raised => obtain rfl := Option.some.inj h; exact .snapshotEnds (.inr rfl)
    | _ => cases h
  | _ => cases h

end ExecutionRunner
