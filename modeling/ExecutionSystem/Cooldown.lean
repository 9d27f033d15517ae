import ExecutionSystem.TradedToday

/-!
# Cooldown

A strategy with a cooldown is not to trade again before it is over. The
check of the risk engine compares the instant of the tick with the time of
the last trade, and passes where there is none; the runner never gives it
one, so that it passes always.

The check is enough where it is told of a trade no earlier than the last fill,
and no fill of the strategy is handled between the check and the submission
(`TellsTrades`): time only passes, so a strategy that is past its cooldown stays
so until it trades.
-/

namespace RiskEngine

variable {engine : RiskEngine} {signal : StrategySignal} {state : SystemState}

/-- **The check is silent where the strategy is past its cooldown.** -/
theorem checkCooldown_eq_nil_iff :
    engine.checkCooldown signal state = []
      ↔ ∀ cfg ∈ engine.strategy signal, 0 < cfg.cooldownSeconds →
        ∀ last ∈ state.lastTradeTimes signal.strategyId,
          cfg.cooldownSeconds ≤ state.currentTime - last := by
  unfold checkCooldown
  cases hcfg : engine.strategy signal with
  | none => exact iff_of_true rfl fun _ h => by cases h
  | some cfg =>
    cases hlast : state.lastTradeTimes signal.strategyId with
    | none => exact iff_of_true rfl fun _ _ _ _ h => by cases h
    | some last =>
      dsimp only
      rw [reasonIf_eq_nil, not_and, not_lt]
      constructor
      · intro h cfg' hcfg' hpos last' hlast'
        obtain rfl := Option.some.inj hcfg'
        obtain rfl := Option.some.inj hlast'
        exact h hpos
      · exact fun h hpos => h cfg rfl hpos last rfl

/-- What is approved is past the cooldown, by what the engine is told. -/
theorem checkCooldown_of_approved (h : (engine.evaluate signal state).approved = true) :
    engine.checkCooldown signal state = [] := by
  have hblocking := approved_iff.mp h
  simp only [blocking, List.append_eq_nil_iff, and_assoc] at hblocking
  exact hblocking.2.2.2.2.2.2.2.2.2.2.2.2.2.2.2.2

end RiskEngine

namespace ExecutionRunner

variable {env : RunnerEnv} {s s' : ExecutionRunner} {l : Label}

/-- The instant of the tick stays, or a tick begins. -/
theorem now_step (h : s.step env l = some s') : s'.now = s.now ∨ s'.now = s.om.clock := by
  by_cases hl : s.leavesTraded l = true
  · exact (step_keepsTraded h hl).now.imp_right And.left
  cases l with
  | fill fill =>
    obtain ⟨-, h⟩ := Option.ite_none_right_eq_some.mp h
    obtain rfl := Option.some.inj h
    exact .inl rfl
  | reply reply =>
    obtain ⟨-, h⟩ := Option.ite_none_right_eq_some.mp h
    by_cases hpc : s.pc = .entryStart
    · rw [hpc] at h
      cases answered_cases h with
      | tradedToday stored =>
        by_cases hold : s.tradedTodayNyDate = some (env.nyDate s.now)
        · exact (startEntries_keepsTraded stored hold).now.imp_right And.left
        · exact .inl (startEntries_loads stored hold).2.2.2.2
    · exact (answered_keepsTraded h hpc).now.imp_right And.left
  | _ => exact absurd rfl hl

end ExecutionRunner

namespace RecordedSession

/-- **The cooldown separates trades**: where the tick submits an entry
order, the cooldown of its strategy has passed since the last fill. -/
def Cooled (s t : RecordedSession) : Prop :=
  ∀ call ∈ ExecutionRunner.newCalls s.runner t.runner,
    call.plan.isEntry = true → call.supersedes = none →
      ∀ cfg ∈ s.runner.config call.plan.strategyId, 0 < cfg.cooldownSeconds →
        ∀ last ∈ s.record.lastTradeTimes call.plan.strategyId,
          cfg.cooldownSeconds ≤ s.runner.om.clock - last

instance (s t : RecordedSession) : Decidable (s.Cooled t) :=
  inferInstanceAs (Decidable (∀ _ ∈ _, _ → _ → ∀ _ ∈ _, _ → ∀ _ ∈ _, _))

/-- A strategy with a cooldown. -/
def HasCooldown (s : RecordedSession) (sid : StrategyId) : Prop :=
  ∃ cfg ∈ s.runner.config sid, 0 < cfg.cooldownSeconds

instance (s : RecordedSession) (sid : StrategyId) : Decidable (s.HasCooldown sid) :=
  inferInstanceAs (Decidable (∃ _ ∈ _, _))

/-- **The engine is told of the trades**: where it judges a leg of a strategy
with a cooldown, of one no earlier than its last fill; and no fill is handled of
such a strategy that has a leg waiting. -/
structure TellsTrades (s : RecordedSession) (l : Label) : Prop where
  told : ∀ p ∈ s.judging l, s.HasCooldown p.1.strategyId →
    ∀ last ∈ s.record.lastTradeTimes p.1.strategyId,
      ∃ trade ∈ p.2.lastTradeTimes p.1.strategyId, last ≤ trade
  traded : ∀ sid ∈ l.trader, s.HasCooldown sid →
    ∀ d ∈ s.runner.pc.waiting, d.signal.strategyId ≠ sid

instance (s : RecordedSession) (l : Label) : Decidable (s.TellsTrades l) :=
  decidable_of_iff
    ((∀ p ∈ s.judging l, s.HasCooldown p.1.strategyId →
        ∀ last ∈ s.record.lastTradeTimes p.1.strategyId,
          ∃ trade ∈ p.2.lastTradeTimes p.1.strategyId, last ≤ trade)
      ∧ ∀ sid ∈ l.trader, s.HasCooldown sid →
        ∀ d ∈ s.runner.pc.waiting, d.signal.strategyId ≠ sid)
    ⟨fun ⟨h, h'⟩ => ⟨h, h'⟩, fun ⟨h, h'⟩ => ⟨h, h'⟩⟩

/-- A strategy is past its cooldown. -/
def Past (s : RecordedSession) (sid : StrategyId) : Prop :=
  ∀ cfg ∈ s.runner.config sid, 0 < cfg.cooldownSeconds →
    ∀ last ∈ s.record.lastTradeTimes sid, cfg.cooldownSeconds ≤ s.runner.om.clock - last

/-- **The legs that wait are past the cooldown**, and what is judged is not of
later than now. -/
structure PastCooldown (s : RecordedSession) : Prop where
  past : ∀ d ∈ s.runner.pc.waiting, s.Past d.signal.strategyId
  now : s.runner.now ≤ s.runner.om.clock
  judging : ∀ p ∈ s.runner.pc.judging, p.2.currentTime ≤ s.runner.om.clock

variable {env : RunnerEnv} {engine : RiskEngine} {s t : RecordedSession} {l : Label}
  {sid : StrategyId}

/-- The last trade of a strategy that does not trade. -/
theorem lastTradeTimes_step (h : s.step env engine l = some t) (hsid : sid ∉ l.trader) :
    t.record.lastTradeTimes sid = s.record.lastTradeTimes sid := by
  cases l with
  | runner k =>
    obtain ⟨runner, -, rfl⟩ := Option.map_eq_some_iff.mp h
    cases k with
    | fill fill => exact if_neg fun heq => hsid (congrArg some heq.symm)
    | _ => rfl
  | commission o commission =>
    obtain ⟨-, h⟩ := Option.ite_none_right_eq_some.mp h
    obtain rfl := Option.some.inj h
    rfl
  | missed sid' pnl =>
    obtain rfl := Option.some.inj h
    exact if_neg fun heq => hsid (congrArg some heq.symm)
  | restart start =>
    obtain ⟨-, h⟩ := Option.ite_none_right_eq_some.mp h
    obtain rfl := Option.some.inj h
    rfl

/-- **Past its cooldown, a strategy stays so** until it trades. -/
theorem Past.step (hs : s.Past sid) (h : s.step env engine l = some t)
    (hconfigs : t.runner.strategyConfigs = s.runner.strategyConfigs)
    (hsid : s.HasCooldown sid → sid ∉ l.trader) : t.Past sid := by
  intro cfg hcfg hpos last hlast
  have hcfg' : cfg ∈ s.runner.config sid := by
    unfold ExecutionRunner.config at hcfg ⊢
    rwa [hconfigs] at hcfg
  rw [lastTradeTimes_step h (hsid ⟨cfg, hcfg', hpos⟩)] at hlast
  calc cfg.cooldownSeconds ≤ s.runner.om.clock - last := hs cfg hcfg' hpos last hlast
    _ ≤ t.runner.om.clock - last := sub_le_sub_right (clock_step h) last

/-- **What the engine approves is past its cooldown**, where it is told of the
trades. -/
theorem past_of_judged {signal : StrategySignal} {state : SystemState}
    {quote : Option QuoteSnapshot} (hjudged : s.judging l = some (signal, state))
    (htells : s.TellsTrades l) (hnow : state.currentTime ≤ s.runner.om.clock)
    (happroved : ((s.runner.wired engine).evaluate signal
      { state with quote := quote }).approved = true) : s.Past signal.strategyId := by
  intro cfg hcfg hpos last hlast
  obtain ⟨trade, htrade, hle⟩ := htells.told _ hjudged ⟨cfg, hcfg, hpos⟩ last hlast
  have hcooled := RiskEngine.checkCooldown_eq_nil_iff.mp
    (RiskEngine.checkCooldown_of_approved happroved) cfg hcfg hpos trade htrade
  calc cfg.cooldownSeconds ≤ state.currentTime - trade := hcooled
    _ ≤ s.runner.om.clock - last := sub_le_sub hnow hle

/-- **One step in which the engine is told of the trades.** -/
theorem PastCooldown.step (hs : s.PastCooldown) (h : s.step env engine l = some t)
    (htells : s.TellsTrades l) : t.PastCooldown where
  past := fun d hd => by
    obtain ⟨hconfigs, hwaits⟩ := waiting_step h hd
    rcases hwaits with hold | ⟨state, quote, hjudged, happroved⟩
    · exact (hs.past d hold).step h hconfigs fun hcooldown htrader =>
        htells.traded _ htrader hcooldown d hold rfl
    · obtain ⟨hjudging, htrader⟩ := judging_eq_some hjudged
      have hpast := past_of_judged hjudged htells (hs.judging (d.signal, state) hjudging) happroved
      exact hpast.step h hconfigs fun _ htrades => by rw [htrader] at htrades; cases htrades
  now := by
    rcases step_cases h with ⟨k, -, hk, -⟩ | ⟨-, hom, -, -, hnow⟩ | ⟨start, -, -, rfl⟩
    · rcases ExecutionRunner.now_step hk with hnow | hnow
      · exact hnow.trans_le (hs.now.trans (clock_step h))
      · exact hnow.trans_le (clock_step h)
    · rw [hom, hnow]
      exact hs.now
    · exact le_rfl
  judging := fun p hp => by
    rcases step_cases h with ⟨k, -, hk, -⟩ | ⟨-, hom, hpc, -⟩ | ⟨start, -, -, rfl⟩
    · rcases ExecutionRunner.judging_step hk hp with hold | hnew
      · exact (hs.judging p hold).trans (clock_step h)
      · rw [hnew]
        exact hs.now.trans (clock_step h)
    · rw [hom]
      exact hs.judging p (hpc ▸ hp)
    · cases hp

/-- **An entry order is a leg that has waited.** -/
theorem PastCooldown.cooled (hs : s.PastCooldown) (h : s.step env engine l = some t) :
    s.Cooled t := by
  intro call hcall hentry hfresh
  obtain ⟨k, -, hnew⟩ := newCall_of_mem h hcall
  cases hnew with
  | entered cfg' rest batch d decided intent plan hl hpc hstrategy hbatch _ hplan horders =>
    have hwaits : d ∈ s.runner.pc.waiting := by
      rw [hpc]
      exact List.mem_cons_self
    show s.Past plan.strategyId
    rw [hplan, hstrategy]
    exact hs.past d hwaits
  | left plan hleft => exact absurd hentry (hleft ▸ Bool.false_ne_true)
  | replaced ol o x p plan hl hr => cases hfresh

end RecordedSession
