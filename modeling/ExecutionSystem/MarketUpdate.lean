import ExecutionSystem.FiveEma
import Mathlib.Tactic.Linarith
import Mathlib.Tactic.NormNum

/-!
# Bringing the market up to date

What an update of the market does is said here once. A turn of its loop
processes a boundary or passes it over (`MarketState.turn_cases`), so what
both keep, and a new day begins with, is kept by every update
(`MarketState.update_invariant`). Polls and exit checks do nothing else to
the market (`EmaSession.step_cases`).
-/

/-! ## Dates and times of the day -/

namespace Time

variable {s t x : Time} {d : ℤ}

theorem combine_date_timeOfDay (t : Time) : combine t.date t.timeOfDay = t := by
  rw [combine, timeOfDay]
  ring

theorem timeOfDay_nonneg (t : Time) : 0 ≤ t.timeOfDay := by
  have := Int.floor_le (t / 86400)
  rw [timeOfDay, date]
  linarith

theorem timeOfDay_lt (t : Time) : t.timeOfDay < 86400 := by
  have := Int.lt_floor_add_one (t / 86400)
  rw [timeOfDay, date]
  linarith

/-- A date and a time of the day are read back. -/
theorem date_combine (hx : 0 ≤ x) (hlt : x < 86400) : (combine d x).date = d := by
  rw [date, combine, Int.floor_eq_iff]
  constructor <;> linarith

theorem timeOfDay_combine (hx : 0 ≤ x) (hlt : x < 86400) : (combine d x).timeOfDay = x := by
  rw [timeOfDay, date_combine hx hlt, combine]
  ring

/-- Before midnight the date stays. -/
theorem date_add (hx : 0 ≤ x) (hlt : t.timeOfDay + x < 86400) : (t + x).date = t.date := by
  have hsum : t + x = combine t.date (t.timeOfDay + x) := by
    rw [combine, timeOfDay]
    ring
  rw [hsum, date_combine (add_nonneg t.timeOfDay_nonneg hx) hlt]

theorem timeOfDay_add (hx : 0 ≤ x) (hlt : t.timeOfDay + x < 86400) :
    (t + x).timeOfDay = t.timeOfDay + x := by
  rw [timeOfDay, date_add hx hlt, timeOfDay]
  ring

theorem date_mono (h : s ≤ t) : s.date ≤ t.date :=
  Int.floor_le_floor (div_le_div_of_nonneg_right h (by norm_num))

/-- An earlier date is earlier. -/
theorem lt_of_date_lt (h : s.date < t.date) : s < t := by
  by_contra hle
  exact absurd (date_mono (not_lt.mp hle)) (not_le.mpr h)

/-- On one date the time of the day decides. -/
theorem le_iff_timeOfDay (h : s.date = t.date) : s ≤ t ↔ s.timeOfDay ≤ t.timeOfDay := by
  rw [timeOfDay, timeOfDay, h]
  exact (sub_le_sub_iff_right _).symm

end Time

/-- **What the wall clock has passed in a session it has passed for good.** -/
theorem NyClock.passed (clock : NyClock) {b s t : Time} (hb : hhmm 9 30 ≤ b.timeOfDay)
    (hs : b ≤ clock.wall s) (hst : s ≤ t) : b ≤ clock.wall t := by
  -- the wall clock may go back within a day, but not within a session
  rcases (clock.date_le s t hst).lt_or_eq with hlt | heq
  · exact hs.trans (Time.lt_of_date_lt hlt).le
  · rcases (Time.date_mono hs).lt_or_eq with hbefore | hsame
    · exact (Time.lt_of_date_lt (heq ▸ hbefore)).le
    · have hopen : hhmm 9 30 ≤ (clock.wall s).timeOfDay :=
        hb.trans ((Time.le_iff_timeOfDay hsame).mp hs)
      exact hs.trans (clock.session_le s t hst heq hopen)

/-! ## The loop -/

namespace MarketState

variable {feed : MarketFeed} {now : Time} {s s' : MarketState} {fetches fetches' : ℕ}
  {closeT : Time}

theorem due_eq_some_iff :
    s.due now = some closeT
      ↔ s.next5minClose = some closeT ∧ closeT ≤ now ∧ closeT.timeOfDay ≤ rthClose := by
  simp [due, Option.filter_eq_some_iff]

/-- The live bar of a boundary. -/
def liveBar (feed : MarketFeed) (closeT : Time) : Option FiveMinBar :=
  build5minBarLive (feed.completedBars closeT) (closeT - fiveMinutes) closeT

/-- **What a turn of the loop can do.** -/
inductive Turn (feed : MarketFeed) (s : MarketState) (closeT : Time) : MarketState → Prop
  /-- There is a live bar. -/
  | live (bar : FiveMinBar) (hbar : liveBar feed closeT = some bar) :
      Turn feed s closeT (s.processClose closeT bar.closePrice (some bar))
  /-- There is a close of history. -/
  | history (close : Price) (hbar : liveBar feed closeT = none)
      (hclose : feed.historicalClose closeT = some close) :
      Turn feed s closeT (s.processClose closeT close none)
  /-- The history of the day was given up. -/
  | skipped (hbar : liveBar feed closeT = none) (hfailed : s.backfillFailedDay = s.day) :
      Turn feed s closeT (s.skipClose closeT)
  /-- It is given up now. -/
  | failed (hbar : liveBar feed closeT = none) (hclose : feed.historicalClose closeT = none) :
      Turn feed s closeT (s.backfillFailed.skipClose closeT)

/-- **Every turn is one of these.** -/
theorem turn_cases (h : s.turn feed fetches closeT = some (fetches', s')) :
    Turn feed s closeT s' := by
  unfold turn at h
  split at h
  · rename_i bar hbar
    cases h
    exact .live bar hbar
  · rename_i hbar
    -- with the fetches spent there is no turn
    split_ifs at h with hfailed hspent
    · cases h
      exact .skipped hbar hfailed
    · split at h
      · rename_i close hclose
        cases h
        exact .history close hbar hclose
      · rename_i hclose
        cases h
        exact .failed hbar hclose

/-- The next boundary is five minutes later. -/
theorem Turn.next5minClose (h : Turn feed s closeT s') :
    s'.next5minClose = some (closeT + fiveMinutes) := by
  cases h <;> rfl

/-- **The invariant rule of the loop**: what every turn at a due boundary
keeps, the loop keeps. -/
theorem updateLoop_invariant {I : MarketState → Prop}
    (hturn : ∀ s closeT s', I s → s.due now = some closeT → Turn feed s closeT s' → I s')
    (fuel fetches : ℕ) (hs : I s) : I (s.updateLoop feed now fuel fetches) := by
  induction fuel generalizing fetches s with
  | zero => exact hs
  | succ fuel ih =>
    rw [updateLoop]
    cases hdue : s.due now with
    | none => exact hs
    | some closeT =>
      dsimp only
      cases hnext : s.turn feed fetches closeT with
      | none => exact hs
      | some next => exact ih _ (hturn s closeT _ hs hdue (turn_cases hnext))

/-- The boundaries are those of the session, and of the day. -/
def InSession (s : MarketState) : Prop :=
  ∀ closeT, s.next5minClose = some closeT →
    s.day = some closeT.date ∧ hhmm 9 35 ≤ closeT.timeOfDay ∧ closeT.timeOfDay ≤ hhmm 16 5

/-- Five minutes after a boundary of the session it is still that day. -/
theorem next_timeOfDay (h : closeT.timeOfDay ≤ rthClose) :
    (closeT + fiveMinutes).date = closeT.date
      ∧ (closeT + fiveMinutes).timeOfDay = closeT.timeOfDay + fiveMinutes := by
  have hlt : closeT.timeOfDay + fiveMinutes < 86400 := by
    rw [rthClose, hhmm] at h
    rw [fiveMinutes]
    norm_num at h ⊢
    linarith
  have hnonneg : (0 : Time) ≤ fiveMinutes := by decide +kernel
  exact ⟨Time.date_add hnonneg hlt, Time.timeOfDay_add hnonneg hlt⟩

theorem inSession_reset (s : MarketState) (date : ℤ) : (s.reset date).InSession := by
  intro closeT h
  obtain rfl := Option.some.inj h
  have hnonneg : (0 : Time) ≤ hhmm 9 35 := by decide +kernel
  have hlt : hhmm 9 35 < (86400 : Time) := by decide +kernel
  have hle : hhmm 9 35 ≤ hhmm 16 5 := by decide +kernel
  rw [Time.date_combine hnonneg hlt, Time.timeOfDay_combine hnonneg hlt]
  exact ⟨rfl, le_rfl, hle⟩

theorem Turn.day (h : Turn feed s closeT s') : s'.day = s.day := by
  cases h <;> rfl

/-- A turn leads to the next boundary of the session. -/
theorem InSession.turn (hs : s.InSession) (hdue : s.due now = some closeT)
    (h : Turn feed s closeT s') : s'.InSession := by
  obtain ⟨hnext, -, hclose⟩ := due_eq_some_iff.mp hdue
  obtain ⟨hday, hopen, -⟩ := hs closeT hnext
  obtain ⟨hdate, htime⟩ := next_timeOfDay hclose
  intro next hnext'
  obtain rfl := Option.some.inj (h.next5minClose.symm.trans hnext')
  have hfive : (0 : Time) ≤ fiveMinutes := by decide +kernel
  have hsum : rthClose + fiveMinutes ≤ hhmm 16 5 := by decide +kernel
  rw [h.day, hdate, htime]
  exact ⟨hday, hopen.trans (le_add_of_nonneg_right hfive),
    (add_le_add_left hclose fiveMinutes).trans hsum⟩

/-- A trigger is of the boundary that fires it, and of a bar armed before. -/
theorem fires_eq_some {close : Price} {trigger : EntryTrigger}
    (h : s.fires closeT close = some trigger) :
    ∃ sig, s.signalBar = some sig ∧ sig.direction = .put ∧ sig.barTime < closeT
      ∧ close ≤ sig.low ∧ trigger = ⟨.put, sig.high, close, closeT⟩ := by
  unfold fires at h
  split at h
  · cases h
  · rename_i sig hsig
    obtain ⟨hlt, h⟩ := Option.ite_none_right_eq_some.mp h
    split at h
    · rename_i hdirection
      obtain ⟨hlow, h⟩ := Option.ite_none_right_eq_some.mp h
      exact ⟨sig, hsig, hdirection, hlt, hlow, (Option.some.inj h).symm⟩
    · -- calls are switched off
      obtain ⟨hcall, -⟩ := Option.ite_none_right_eq_some.mp h
      exact absurd hcall.2 (by decide)

end MarketState

namespace XSP5EMAStrategyProvider

variable {feed : MarketFeed} {now : Time}

/-- **The invariant rule of an update**: what a new day begins with and what
every turn keeps. -/
theorem updateMarketState_invariant {I : MarketState → Prop} {s : XSP5EMAStrategyProvider}
    (hday : ∀ m : MarketState, I m → m.day ≠ some now.date → I (m.reset now.date))
    (hturn : ∀ m closeT m', I m → m.due now = some closeT →
      MarketState.Turn feed m closeT m' → I m')
    (hs : I s.toMarketState) : I (s.updateMarketState feed now).toMarketState := by
  refine MarketState.updateLoop_invariant hturn _ _ ?_
  unfold onDay
  split_ifs with hne
  · exact hday _ hs hne
  · exact hs

/-- After an update the day is that of the update. -/
theorem updateMarketState_day (s : XSP5EMAStrategyProvider) :
    (s.updateMarketState feed now).day = some now.date := by
  refine MarketState.updateLoop_invariant (I := fun m => m.day = some now.date)
    (fun m closeT m' hm _ hturn => ?_) _ _ ?_
  · cases hturn <;> exact hm
  · unfold onDay
    split_ifs with hne
    · rfl
    · exact not_not.mp hne

/-! ## What else a call does -/

/-- The calls leave the market, and what is counted by strategy. -/
structure SameMarket (s s' : XSP5EMAStrategyProvider) : Prop where
  market : s'.toMarketState = s.toMarketState
  tradesToday : s'.tradesToday = s.tradesToday
  consumedBarTime : s'.consumedBarTime = s.consumedBarTime

theorem SameMarket.refl (s : XSP5EMAStrategyProvider) : SameMarket s s := ⟨rfl, rfl, rfl⟩

theorem SameMarket.trans {s t u : XSP5EMAStrategyProvider} (h : SameMarket s t)
    (h' : SameMarket t u) : SameMarket s u :=
  ⟨h'.market.trans h.market, h'.tradesToday.trans h.tradesToday,
    h'.consumedBarTime.trans h.consumedBarTime⟩

theorem bindContext_sameMarket (sid : StrategyId) (s : XSP5EMAStrategyProvider)
    (pos : Position) : SameMarket s (bindContext sid s pos) := by
  unfold bindContext
  split <;> exact ⟨rfl, rfl, rfl⟩

/-- A fold of such steps is one. -/
theorem foldl_sameMarket {α β : Type} (f : α → XSP5EMAStrategyProvider) (g : α → β → α)
    (hg : ∀ a b, SameMarket (f a) (f (g a b))) (bs : List β) (a : α) :
    SameMarket (f a) (f (bs.foldl g a)) := by
  induction bs generalizing a with
  | nil => exact .refl _
  | cons b bs ih => exact (hg a b).trans (ih _)

theorem syncPositionContexts_sameMarket (s : XSP5EMAStrategyProvider)
    (positions : Option (List Position)) (sid : StrategyId) :
    SameMarket s (s.syncPositionContexts positions sid).1 := by
  unfold syncPositionContexts
  split
  · exact .refl s
  · exact .trans (t := s.dropStale sid _) ⟨rfl, rfl, rfl⟩
      (foldl_sameMarket id _ (bindContext_sameMarket sid) _ _)

theorem checkExit_sameMarket (params : EmaParams) (market : ExitMarket)
    (found : XSP5EMAStrategyProvider × List PositionId) (pos : Position) :
    SameMarket found.1 (checkExit params now market found pos).1 := by
  unfold checkExit
  split
  · exact .refl _
  · exact ⟨rfl, rfl, rfl⟩

end XSP5EMAStrategyProvider

/-! ## The calls -/

/-- The signal is the strategy's, of a trigger. -/
structure EmaSignal.Of (signal : EmaSignal) (sid : StrategyId) (trigger : EntryTrigger)
    (currentTime : Time) : Prop where
  strategyId : signal.signal.strategyId = sid
  right : signal.signal.contract.right = trigger.direction
  timestamp : signal.timestamp = currentTime
  stopUnderlying : signal.stopUnderlying = trigger.stopUnderlying
  entry5minCloseTime : signal.entry5minCloseTime = trigger.barTime
  underlyingAtEntry : signal.underlyingAtEntry = trigger.entryUnderlying

namespace EmaSession

open XSP5EMAStrategyProvider

/-- The strategy, the instant and the market of a call. -/
def Label.call : Label → StrategyId × Time × MarketFeed
  | .poll cfg currentTime feed .. => (cfg.strategyId, currentTime, feed)
  | .collectExits sid currentTime feed .. => (sid, currentTime, feed)

/-- **What a call can do** to the market, to what is counted by strategy, and
to the signals. -/
inductive Call (clock : NyClock) (s : EmaSession) (sid : StrategyId) (feed : MarketFeed)
    (s' : EmaSession) : Prop
  /-- The strategy is not known. -/
  | idle (h : SameMarket s.provider s'.provider) (hemitted : s'.emitted = s.emitted)
  /-- The market is brought up to date. -/
  | updates (hknown : strategyParams sid ≠ none)
      (h : SameMarket (s.provider.updateMarketState feed (clock.wall s'.time)) s'.provider)
      (hemitted : s'.emitted = s.emitted)
  /-- … and the trigger is consumed; the signal is emitted, or refused. -/
  | enters (params : EmaParams) (trigger : EntryTrigger) (u : XSP5EMAStrategyProvider)
      (positions : Option (List Position)) (signals : List EmaSignal)
      (hparams : strategyParams sid = some params)
      (hu : SameMarket (s.provider.updateMarketState feed (clock.wall s'.time)) u)
      (hmay : u.mayEnter sid params (clock.wall s'.time) positions = true)
      (htrigger : u.entryTrigger = some trigger)
      (hconsumed : u.consumedBarTime sid ≠ some trigger.barTime)
      (hs' : s'.provider = u.consume sid trigger)
      (hemitted : s'.emitted = s.emitted ++ signals)
      (hsignals : signals = []
        ∨ ∃ signal : EmaSignal, signals = [signal] ∧ signal.Of sid trigger s'.time)

variable {clock : NyClock} {s s' : EmaSession} {l : Label}

/-- What a poll does. -/
theorem poll_call (cfg : SizingConfig) (currentTime : Time) (feed : MarketFeed)
    (positions : Option (List Position)) (quote : Option QuoteSnapshot)
    (netLiquidation : Option Price) :
    let result := s.provider.poll clock cfg currentTime feed positions quote netLiquidation
    Call clock s cfg.strategyId feed
      ⟨result.1, currentTime, s.emitted ++ returned result.2⟩ := by
  have hnone : s.emitted ++ returned (.ok []) = s.emitted := List.append_nil _
  unfold poll
  cases hparams : strategyParams cfg.strategyId with
  | none => exact .idle (.refl _) hnone
  | some params =>
    have hknown : strategyParams cfg.strategyId ≠ none := by
      rw [hparams]
      exact Option.some_ne_none _
    have hu : SameMarket (s.provider.updateMarketState feed (clock.wall currentTime))
        (s.provider.polled clock cfg.strategyId currentTime feed positions) :=
      syncPositionContexts_sameMarket _ positions _
    dsimp only
    split_ifs with hmay
    · split
      · exact .updates hknown hu hnone
      · rename_i trigger htrigger
        split_ifs with hconsumed
        · exact .updates hknown hu hnone
        · -- a refused limit comes after the trigger is consumed, a refused strike before
          unfold enter
          dsimp only
          split_ifs
          · exact .enters params trigger _ positions _ hparams hu hmay htrigger hconsumed rfl rfl
              (.inr ⟨_, rfl, rfl, rfl, rfl, rfl, rfl, rfl⟩)
          · exact .enters params trigger _ positions _ hparams hu hmay htrigger hconsumed rfl rfl
              (.inl rfl)
          · exact .updates hknown hu hnone
    · exact .updates hknown hu hnone

/-- What an exit check does. -/
theorem collectExits_call (sid : StrategyId) (currentTime : Time) (feed : MarketFeed)
    (positions : Option (List Position)) (market : ExitMarket) :
    Call clock s sid feed
      ⟨(s.provider.collectExits clock sid currentTime feed positions market).1, currentTime,
        s.emitted⟩ := by
  unfold collectExits
  cases hparams : strategyParams sid with
  | none => exact .idle (.refl _) rfl
  | some params =>
    refine .updates (by rw [hparams]; exact Option.some_ne_none _) ?_ rfl
    exact (syncPositionContexts_sameMarket _ positions sid).trans
      (foldl_sameMarket Prod.fst _ (checkExit_sameMarket params market) _ (_, []))

/-- **Every step is such a call**, no earlier than the one before. -/
theorem step_cases (h : s.step clock l = some s') :
    s.time ≤ s'.time ∧ ∃ sid feed, l.call = (sid, s'.time, feed) ∧ Call clock s sid feed s' := by
  cases l with
  | poll cfg currentTime feed positions quote netLiquidation =>
    obtain ⟨hle, h⟩ := Option.ite_none_right_eq_some.mp h
    obtain rfl := Option.some.inj h
    exact ⟨hle, _, _, rfl, poll_call cfg currentTime feed positions quote netLiquidation⟩
  | collectExits sid currentTime feed positions market =>
    obtain ⟨hle, h⟩ := Option.ite_none_right_eq_some.mp h
    obtain rfl := Option.some.inj h
    exact ⟨hle, _, _, rfl, collectExits_call sid currentTime feed positions market⟩

end EmaSession
