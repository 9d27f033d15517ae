import ExecutionSystem.TriggerFreshness
import Mathlib.Data.List.Induction

/-!
# The market of a day, replayed

The market of the five-minute strategies is brought up to date by whatever
polls and exit checks there are, and takes at most three boundaries from
history in each. None of this may show: at a boundary the market should be
what is known of the boundaries up to it.

`MarketState.replay` says what that is. It goes through the boundaries of a
date in turn, with what is known of each: a live bar, a close of history, or
nothing. In every run the market of a date is the replay of its first
boundaries; none is taken before it is over, and every call takes three, or
all that are due (`EmaSession.market_replays`).

So a process that is restarted knows the average of one that never stopped as
soon as it has caught up. Its signal bar is lost, for a bar is armed only
live; but the two have the same signal bar and the same trigger again after
the first live boundary at which neither fires
(`EmaSession.restart_agrees`).
-/

/-! ## The boundaries of a date -/

/-- The boundaries of a date, from `9:35` on. -/
def boundary (date : ℤ) (k : ℕ) : Time := .combine date (hhmm 9 35) + k * fiveMinutes

variable {date : ℤ} {k : ℕ}

theorem boundary_succ (date : ℤ) (k : ℕ) :
    boundary date (k + 1) = boundary date k + fiveMinutes := by
  rw [boundary, boundary, add_assoc]
  congr 1
  push_cast
  ring

theorem boundary_strictMono (date : ℤ) : StrictMono (boundary date) := by
  refine strictMono_nat_of_lt_succ fun k => ?_
  have hfive : (0 : Time) < fiveMinutes := by decide +kernel
  rw [boundary_succ]
  exact lt_add_of_pos_right _ hfive

/-- The last boundary of a session is the seventy-eighth. -/
theorem boundary_timeOfDay (date : ℤ) (hk : k ≤ 78) :
    (boundary date k).date = date
      ∧ (boundary date k).timeOfDay = hhmm 9 35 + k * fiveMinutes := by
  have hopen : (0 : Time) ≤ hhmm 9 35 := by decide +kernel
  have hlt : hhmm 9 35 < (86400 : Time) := by decide +kernel
  have hfive : (0 : Time) ≤ fiveMinutes := by decide +kernel
  have hnonneg : (0 : Time) ≤ k * fiveMinutes := mul_nonneg (Nat.cast_nonneg k) hfive
  have hday : (Time.combine date (hhmm 9 35)).timeOfDay + k * fiveMinutes < 86400 := by
    have hle : (k : Time) ≤ 78 := by exact_mod_cast hk
    have hend : hhmm 9 35 + 78 * fiveMinutes < (86400 : Time) := by decide +kernel
    rw [Time.timeOfDay_combine hopen hlt]
    linarith [mul_le_mul_of_nonneg_right hle hfive]
  rw [boundary, Time.date_add hnonneg hday, Time.timeOfDay_add hnonneg hday,
    Time.date_combine hopen hlt, Time.timeOfDay_combine hopen hlt]
  exact ⟨rfl, rfl⟩

/-- Up to there they are of the session. -/
theorem boundary_le_rthClose_iff (date : ℤ) (hk : k ≤ 78) :
    (boundary date k).timeOfDay ≤ rthClose ↔ k < 78 := by
  rw [(boundary_timeOfDay date hk).2]
  have hfive : (0 : Time) < fiveMinutes := by decide +kernel
  have hclose : rthClose = hhmm 9 35 + (77 : ℕ) * fiveMinutes := by decide +kernel
  rw [hclose, add_le_add_iff_left, mul_le_mul_iff_left₀ hfive, Nat.cast_le]
  omega

/-! ## What is known of a boundary -/

/-- What is known of a boundary. -/
inductive BoundaryData where
  | live (bar : FiveMinBar)
  | history (close : Price)
  | missing
  deriving DecidableEq

/-- The close, where one is known. -/
def BoundaryData.close? : BoundaryData → Option Price
  | live bar => some bar.closePrice
  | history close => some close
  | missing => none

namespace MarketFeed

/-- There is neither a live bar nor a close of history. -/
def silent (feed : MarketFeed) (closeT : Time) : Bool :=
  (MarketState.liveBar feed closeT).isNone && (feed.historicalClose closeT).isNone

/-- At an earlier boundary there was neither, and no history is asked for
again. -/
def gaveUp (feed : MarketFeed) (date : ℤ) (k : ℕ) : Bool :=
  (List.range k).any fun j => feed.silent (boundary date j)

/-- **The data of a date**, boundary by boundary. -/
def tape (feed : MarketFeed) (date : ℤ) (k : ℕ) : BoundaryData :=
  match MarketState.liveBar feed (boundary date k) with
  | some bar => .live bar
  | none =>
    if feed.gaveUp date k then .missing
    else
      match feed.historicalClose (boundary date k) with
      | some close => .history close
      | none => .missing

/-- A feed that says what another says of the boundaries up to now. -/
def Says (feed whole : MarketFeed) (date : ℤ) (now : Time) : Prop :=
  ∀ k < 78, boundary date k ≤ now →
    MarketState.liveBar feed (boundary date k) = MarketState.liveBar whole (boundary date k)
      ∧ feed.historicalClose (boundary date k) = whole.historicalClose (boundary date k)

theorem gaveUp_succ (feed : MarketFeed) (date : ℤ) (k : ℕ) :
    feed.gaveUp date (k + 1) = (feed.gaveUp date k || feed.silent (boundary date k)) := by
  rw [gaveUp, gaveUp, List.range_succ, List.any_append]
  simp

end MarketFeed

/-! ## The replay -/

namespace MarketState

/-- A boundary is taken with what is known of it. -/
def take (s : MarketState) (closeT : Time) : BoundaryData → MarketState
  | .live bar => s.processClose closeT bar.closePrice (some bar)
  | .history close => s.processClose closeT close none
  | .missing => s.skipClose closeT

/-- **The market of a date** after its first `k` boundaries. -/
def replay (tape : ℕ → BoundaryData) (date : ℤ) : ℕ → MarketState
  | 0 => reset {} date
  | k + 1 => (replay tape date k).take (boundary date k) (tape k)

/-- What a strategy sees of the market. -/
def view (s : MarketState) : Option ℚ × Option SignalBar × Option EntryTrigger :=
  (s.ema, s.signalBar, s.entryTrigger)

/-- What is seen after a close rests on what was seen before. -/
theorem processClose_view {s t : MarketState} (h : s.view = t.view) (closeT : Time)
    (close : Price) (bar : Option FiveMinBar) :
    (s.processClose closeT close bar).view = (t.processClose closeT close bar).view := by
  obtain ⟨hema, hrest⟩ := Prod.mk.inj h
  obtain ⟨hsignal, -⟩ := Prod.mk.inj hrest
  have hnext : s.nextEma close = t.nextEma close := by rw [nextEma, nextEma, hema]
  have hfires : s.fires closeT close = t.fires closeT close := by rw [fires, fires, hsignal]
  have harmed : ∀ ema, s.armed ema closeT bar = t.armed ema closeT bar := fun ema => by
    simp only [armed, hsignal]
  simp only [view, processClose, hnext, hfires, harmed]

theorem take_view {s t : MarketState} (h : s.view = t.view) (closeT : Time)
    (data : BoundaryData) : (s.take closeT data).view = (t.take closeT data).view := by
  cases data with
  | live bar => exact processClose_view h closeT _ _
  | history close => exact processClose_view h closeT _ _
  | missing => exact h

variable {feed call : MarketFeed} {now : Time} {m m' : MarketState} {fetches fetches' : ℕ}
  {date : ℤ} {k : ℕ}

/-- **The market is the replay** of the first `k` boundaries of the date. -/
structure Replays (feed : MarketFeed) (date : ℤ) (k : ℕ) (m : MarketState) : Prop where
  day : m.day = some date
  next5minClose : m.next5minClose = some (boundary date k)
  view : m.view = (replay (feed.tape date) date k).view
  gaveUp : m.backfillFailedDay = some date ↔ feed.gaveUp date k = true

/-- A day begins where its history has not been given up. -/
theorem replays_reset (hfailed : m.backfillFailedDay ≠ some date) :
    (m.reset date).Replays feed date 0 where
  day := rfl
  next5minClose := by
    rw [boundary, Nat.cast_zero, zero_mul, add_zero]
    rfl
  view := rfl
  gaveUp := iff_of_false hfailed Bool.false_ne_true

/-- The boundary that is due is the next of the replay. -/
theorem Replays.due_iff (h : m.Replays feed date k) (hk : k ≤ 78) {closeT : Time} :
    m.due now = some closeT ↔ closeT = boundary date k ∧ k < 78 ∧ boundary date k ≤ now := by
  rw [due_eq_some_iff, h.next5minClose, Option.some_inj]
  constructor
  · rintro ⟨rfl, hle, hclose⟩
    exact ⟨rfl, (boundary_le_rthClose_iff date hk).mp hclose, hle⟩
  · rintro ⟨rfl, hlt, hle⟩
    exact ⟨rfl, hle, (boundary_le_rthClose_iff date hk).mpr hlt⟩

/-- The turn that takes the next boundary with what is known of it. -/
theorem Replays.take (h : m.Replays feed date k)
    (hm : m'.view = (m.take (boundary date k) (feed.tape date k)).view) (hday : m'.day = m.day)
    (hnext : m'.next5minClose = some (boundary date k + fiveMinutes))
    (hgaveUp : m'.backfillFailedDay = some date ↔ feed.gaveUp date (k + 1) = true) :
    m'.Replays feed date (k + 1) where
  day := hday.trans h.day
  next5minClose := by rw [hnext, boundary_succ]
  view := hm.trans (take_view h.view _ _)
  gaveUp := hgaveUp

/-- **A turn goes on with the replay**, and fetches at most once. -/
theorem Replays.turn (h : m.Replays feed date k)
    (hlive : liveBar call (boundary date k) = liveBar feed (boundary date k))
    (hhistory : call.historicalClose (boundary date k) = feed.historicalClose (boundary date k))
    (hturn : m.turn call fetches (boundary date k) = some (fetches', m')) :
    m'.Replays feed date (k + 1) ∧ fetches' ≤ fetches + 1 := by
  unfold MarketState.turn at hturn
  rw [← liveBar, hlive, hhistory] at hturn
  split at hturn
  · rename_i bar hbar
    cases hturn
    refine ⟨h.take ?_ rfl rfl ?_, Nat.le_succ _⟩
    · rw [MarketFeed.tape, hbar]
      rfl
    · rw [MarketFeed.gaveUp_succ, MarketFeed.silent, hbar, Option.isNone_some, Bool.false_and,
        Bool.or_false]
      exact h.gaveUp
  · rename_i hbar
    split_ifs at hturn with hfailed hspent
    · -- the history has been given up, here and in the replay
      cases hturn
      have hgave : feed.gaveUp date k = true := h.gaveUp.mp (hfailed.trans h.day)
      refine ⟨h.take ?_ rfl rfl ?_, Nat.le_succ _⟩
      · rw [MarketFeed.tape, hbar, hgave]
        rfl
      · rw [MarketFeed.gaveUp_succ, hgave]
        exact iff_of_true (hfailed.trans h.day) rfl
    · have hgave : feed.gaveUp date k = false := by
        rw [← Bool.not_eq_true, ← h.gaveUp, ← h.day]
        exact hfailed
      split at hturn
      · rename_i close hclose
        cases hturn
        refine ⟨h.take ?_ rfl rfl ?_, le_rfl⟩
        · rw [MarketFeed.tape, hbar, hgave, hclose]
          rfl
        · rw [MarketFeed.gaveUp_succ, MarketFeed.silent, hclose, Option.isNone_some,
            Bool.and_false, Bool.or_false]
          exact h.gaveUp
      · rename_i hclose
        cases hturn
        refine ⟨h.take ?_ rfl rfl ?_, le_rfl⟩
        · rw [MarketFeed.tape, hbar, hgave, hclose]
          rfl
        · rw [MarketFeed.gaveUp_succ, MarketFeed.silent, hbar, hclose]
          exact iff_of_true h.day (Bool.or_true _)

/-- A boundary is left only when the fetches are spent. -/
theorem fetches_of_turn (h : m.turn feed fetches (boundary date k) = none) : 3 ≤ fetches := by
  unfold MarketState.turn at h
  split at h
  · cases h
  · split_ifs at h with hfailed hspent
    · exact hspent
    · split at h <;> cases h

/-- Where no boundary is due, every boundary that is over has been taken. -/
theorem Replays.taken_of_due_eq_none (h : m.Replays feed date k) (hk : k ≤ 78)
    (hdue : m.due now = none) {j : ℕ} (hj : j < 78) (hle : boundary date j ≤ now) : j < k := by
  by_contra hkj
  rw [not_lt] at hkj
  have hnow : boundary date k ≤ now := ((boundary_strictMono date).monotone hkj).trans hle
  rw [(h.due_iff hk).mpr ⟨rfl, hkj.trans_lt hj, hnow⟩] at hdue
  cases hdue

/-- **Boundaries are taken** from the `k`-th on up to the `n`-th: all are over, and
they are all there are now, or at least as many as fetches were left. -/
structure Takes (date : ℤ) (now : Time) (fetches k n : ℕ) : Prop where
  le : k ≤ n
  le_end : n ≤ 78
  isOver : ∀ j < n, k ≤ j → boundary date j ≤ now
  enough : (∀ j < 78, boundary date j ≤ now → j < n) ∨ k + 3 ≤ n + fetches

/-- No boundary is taken. -/
theorem takes_self (hk : k ≤ 78)
    (henough : (∀ j < 78, boundary date j ≤ now → j < k) ∨ 3 ≤ fetches) :
    Takes date now fetches k k where
  le := le_rfl
  le_end := hk
  isOver _ hj hkj := absurd hj (not_lt.mpr hkj)
  enough := henough.imp id (by omega)

/-- One boundary is taken before the others. -/
theorem Takes.cons {n : ℕ} (h : Takes date now fetches' (k + 1) n)
    (hfetches : fetches' ≤ fetches + 1) (hnow : boundary date k ≤ now) :
    Takes date now fetches k n where
  le := (Nat.le_succ k).trans h.le
  le_end := h.le_end
  isOver j hj hkj := by
    rcases hkj.eq_or_lt with rfl | hlt
    · exact hnow
    · exact h.isOver j hj hlt
  enough := h.enough.imp id (by omega)

/-- **The loop goes on with the replay.** -/
theorem Replays.updateLoop {fuel : ℕ} (htold : call.Says feed date now)
    (hfuel : ∀ closeT, m.next5minClose = some closeT → now < closeT + fuel * fiveMinutes)
    (h : m.Replays feed date k) (hk : k ≤ 78) :
    ∃ n, (m.updateLoop call now fuel fetches).Replays feed date n
      ∧ Takes date now fetches k n := by
  -- the induction is on the turns; the loop ends where nothing is due, or for want of
  -- fetches
  induction fuel generalizing m k fetches with
  | zero =>
    have hdue := due_of_no_fuel fun closeT hnext => by simpa using hfuel closeT hnext
    exact ⟨k, h, takes_self hk (.inl fun j => h.taken_of_due_eq_none hk hdue)⟩
  | succ fuel ih =>
    rw [MarketState.updateLoop]
    cases hdue : m.due now with
    | none => exact ⟨k, h, takes_self hk (.inl fun j => h.taken_of_due_eq_none hk hdue)⟩
    | some closeT =>
      obtain ⟨rfl, hlt, hnow⟩ := (h.due_iff hk).mp hdue
      dsimp only
      cases hturn : m.turn call fetches (boundary date k) with
      | none => exact ⟨k, h, takes_self hk (.inr (fetches_of_turn hturn))⟩
      | some next =>
        obtain ⟨hlive, hhistory⟩ := htold k hlt hnow
        obtain ⟨hnext, hfetches⟩ := h.turn hlive hhistory hturn
        obtain ⟨n, hn, htakes⟩ := ih (fun closeT hclose => by
          obtain rfl := Option.some.inj (hnext.next5minClose.symm.trans hclose)
          have := hfuel _ h.next5minClose
          rw [boundary_succ]
          push_cast at this
          linarith) hnext hlt
        exact ⟨n, hn, htakes.cons hfetches hnow⟩

end MarketState

/-! ## Runs -/

namespace XSP5EMAStrategyProvider

/-- **An update goes on with the replay of its date.** -/
theorem updateMarketState_replays {feed call : MarketFeed} {now : Time} {k : ℕ}
    {s : XSP5EMAStrategyProvider} (htold : call.Says feed now.date now)
    (h : (s.onDay now.date).Replays feed now.date k) (hk : k ≤ 78) :
    ∃ n, (s.updateMarketState call now).Replays feed now.date n
      ∧ MarketState.Takes now.date now 0 k n :=
  h.updateLoop htold (MarketState.now_lt_fuelFor _ now) hk

/-- The day is never later than the last update, and no history is given up
before its day. -/
theorem updateMarketState_days {call : MarketFeed} {now : Time} {s : XSP5EMAStrategyProvider}
    (hday : ∀ d, s.day = some d → d ≤ now.date)
    (hfailed : ∀ d, s.backfillFailedDay = some d → ∃ e, s.day = some e ∧ d ≤ e) :
    ∀ d, (s.updateMarketState call now).backfillFailedDay = some d →
      ∃ e, (s.updateMarketState call now).day = some e ∧ d ≤ e := by
  have hkept := @updateMarketState_invariant call now
    (fun m => (∀ d, m.day = some d → d ≤ now.date)
      ∧ ∀ d, m.backfillFailedDay = some d → ∃ e, m.day = some e ∧ d ≤ e) s
    (fun m hm _ => ⟨fun d hd => (Option.some.inj hd).ge, fun d hd => ?_⟩)
    (fun m closeT m' hm _ hturn => ?_) ⟨hday, hfailed⟩
  · exact hkept.2
  · obtain ⟨e, he, hle⟩ := hm.2 d hd
    exact ⟨now.date, rfl, hle.trans (hm.1 e he)⟩
  · cases hturn with
    | live | history | skipped => exact hm
    | failed => exact ⟨hm.1, fun d hd => ⟨d, hd, le_rfl⟩⟩

end XSP5EMAStrategyProvider

namespace EmaSession

open XSP5EMAStrategyProvider

/-- The call brings the market of the date up to date. -/
def Label.updates (clock : NyClock) (date : ℤ) (l : Label) : Bool :=
  (strategyParams l.call.1).isSome && decide ((clock.wall l.call.2.1).date = date)

/-- … once a boundary of the date is over. -/
def Label.updatesAfter (clock : NyClock) (date : ℤ) (k : ℕ) (l : Label) : Bool :=
  l.updates clock date && decide (boundary date k ≤ clock.wall l.call.2.1)

/-- The feed of the call says what is known of the boundaries of the date. -/
def Label.Says (clock : NyClock) (feed : MarketFeed) (date : ℤ) (l : Label) : Prop :=
  l.updates clock date = true → l.call.2.2.Says feed date (clock.wall l.call.2.1)

variable {clock : NyClock} {feed : MarketFeed} {date : ℤ} {k : ℕ} {s s' t : EmaSession} {l : Label}
  {ls ms : List Label}

/-- The strategy is known, or the market stays. -/
theorem poll_market (p : XSP5EMAStrategyProvider) (cfg : SizingConfig) (currentTime : Time)
    (call : MarketFeed) (positions : Option (List Position)) (quote : Option QuoteSnapshot)
    (netLiquidation : Option Price) :
    (p.poll clock cfg currentTime call positions quote netLiquidation).1.toMarketState
      = if (strategyParams cfg.strategyId).isSome then
          (p.updateMarketState call (clock.wall currentTime)).toMarketState
        else p.toMarketState := by
  have hpolled : (p.polled clock cfg.strategyId currentTime call positions).toMarketState
      = (p.updateMarketState call (clock.wall currentTime)).toMarketState :=
    (syncPositionContexts_sameMarket _ positions _).market
  unfold poll
  split
  · rename_i hparams
    rw [hparams]
    rfl
  · rename_i params hparams
    rw [hparams, Option.isSome_some, if_pos rfl, ← hpolled]
    dsimp only
    split_ifs with hmay
    · split
      · rfl
      · split_ifs with hconsumed
        · rfl
        · -- consuming the trigger leaves the market
          unfold enter
          dsimp only
          split_ifs <;> rfl
    · rfl

theorem collectExits_market (p : XSP5EMAStrategyProvider) (sid : StrategyId) (currentTime : Time)
    (call : MarketFeed) (positions : Option (List Position)) (market : ExitMarket) :
    (p.collectExits clock sid currentTime call positions market).1.toMarketState
      = if (strategyParams sid).isSome then
          (p.updateMarketState call (clock.wall currentTime)).toMarketState
        else p.toMarketState := by
  unfold collectExits
  split
  · rename_i hparams
    rw [hparams]
    rfl
  · rename_i params hparams
    rw [hparams, Option.isSome_some, if_pos rfl]
    exact ((syncPositionContexts_sameMarket _ positions sid).trans
      (foldl_sameMarket Prod.fst _ (checkExit_sameMarket params market) _ (_, []))).market

/-- **What a call does to the market**: it is brought up to date, where the
strategy is known. -/
theorem step_market (h : s.step clock l = some s') :
    s.time ≤ s'.time ∧ s'.time = l.call.2.1
      ∧ s'.provider.toMarketState = if (strategyParams l.call.1).isSome then
          (s.provider.updateMarketState l.call.2.2 (clock.wall s'.time)).toMarketState
        else s.provider.toMarketState := by
  cases l with
  | poll cfg currentTime call positions quote netLiquidation =>
    obtain ⟨hle, h⟩ := Option.ite_none_right_eq_some.mp h
    obtain rfl := Option.some.inj h
    exact ⟨hle, rfl, poll_market s.provider cfg currentTime call positions quote netLiquidation⟩
  | collectExits sid currentTime call positions market =>
    obtain ⟨hle, h⟩ := Option.ite_none_right_eq_some.mp h
    obtain rfl := Option.some.inj h
    exact ⟨hle, rfl, collectExits_market s.provider sid currentTime call positions market⟩

/-- **The market has reached the `k`-th boundary of the date** in the calls:
every boundary taken was over in one of them, and of one that is not taken
there have been too few calls since it was over. -/
structure Reached (clock : NyClock) (feed : MarketFeed) (date : ℤ) (ls : List Label) (k : ℕ)
    (m : MarketState) : Prop where
  replays : m.Replays feed date k
  le_end : k ≤ 78
  isOver : ∀ j < k, ∃ l ∈ ls, l.updatesAfter clock date j = true
  enough : ∀ j < 78, j < k ∨ 3 * ls.countP (Label.updatesAfter clock date j) ≤ k

/-- **What is known of the market of a date** after the calls. -/
structure Replayed (clock : NyClock) (feed : MarketFeed) (date : ℤ) (ls : List Label)
    (s : EmaSession) : Prop where
  day_le : ∀ d, s.provider.day = some d → d ≤ (clock.wall s.time).date
  failed_le : ∀ d, s.provider.backfillFailedDay = some d →
    ∃ e, s.provider.day = some e ∧ d ≤ e
  untouched : s.provider.day ≠ some date → (clock.wall s.time).date ≤ date →
    ∀ l ∈ ls, l.updates clock date = false
  reached : s.provider.day = some date →
    ∃ k, Reached clock feed date ls k s.provider.toMarketState

/-- At the first call of a date its replay begins. -/
theorem Replayed.onDay (h : s.Replayed clock feed date ls)
    (hle : (clock.wall s.time).date ≤ date) :
    ∃ k, Reached clock feed date ls k (s.provider.onDay date).toMarketState := by
  unfold XSP5EMAStrategyProvider.onDay
  split_ifs with hday
  · have hnone : ∀ j, ls.countP (Label.updatesAfter clock date j) = 0 := fun j =>
      List.countP_eq_zero.mpr fun l hl => by simp [Label.updatesAfter, h.untouched hday hle l hl]
    refine ⟨0, MarketState.replays_reset fun hfailed => ?_, Nat.zero_le _, nofun, fun j _ =>
      .inr (by rw [hnone])⟩
    obtain ⟨e, he, hde⟩ := h.failed_le _ hfailed
    exact hday (he.trans (congrArg some (((h.day_le e he).trans hle).antisymm hde)))
  · exact h.reached (not_not.mp hday)

/-- A call that leaves the market is not counted. -/
theorem Reached.snoc_of_not {m : MarketState} (h : Reached clock feed date ls k m)
    (hl : l.updates clock date = false) : Reached clock feed date (ls ++ [l]) k m := by
  refine ⟨h.replays, h.le_end, fun j hj => ?_, fun j hj => ?_⟩
  · obtain ⟨l', hl', hafter⟩ := h.isOver j hj
    exact ⟨l', List.mem_append_left _ hl', hafter⟩
  · rw [List.countP_append, List.countP_singleton, Label.updatesAfter, hl]
    exact h.enough j hj

/-- **A call goes on from the boundary that was reached.** -/
theorem Reached.snoc {m m' : MarketState} {n : ℕ} (h : Reached clock feed date ls k m)
    (hl : l.updates clock date = true) (hm' : m'.Replays feed date n)
    (htakes : MarketState.Takes date (clock.wall l.call.2.1) 0 k n) :
    Reached clock feed date (ls ++ [l]) n m' := by
  refine ⟨hm', htakes.le_end, fun j hj => ?_, fun j hj => ?_⟩
  · rcases lt_or_ge j k with hjk | hkj
    · obtain ⟨l', hl', hafter⟩ := h.isOver j hjk
      exact ⟨l', List.mem_append_left _ hl', hafter⟩
    · have hnow := htakes.isOver j hj hkj
      exact ⟨l, List.mem_append_right _ (List.mem_singleton_self l),
        by rw [Label.updatesAfter, hl, decide_eq_true hnow]; rfl⟩
  · rw [List.countP_append, List.countP_singleton]
    rcases h.enough j hj with hjk | hcount
    · exact .inl (hjk.trans_le htakes.le)
    · -- the call takes the boundary, or three others
      by_cases hnow : boundary date j ≤ clock.wall l.call.2.1
      · rcases htakes.enough with hall | hthree
        · exact .inl (hall j hj hnow)
        · refine .inr ?_
          split_ifs <;> omega
      · rw [Label.updatesAfter, decide_eq_false hnow, Bool.and_false, if_neg Bool.false_ne_true]
        exact .inr (hcount.trans htakes.le)

theorem replayed_initial (time : Time) : (initial time).Replayed clock feed date [] where
  day_le _ h := by cases h
  failed_le _ h := by cases h
  untouched _ _ _ h := by cases h
  reached h := by cases h

/-- A call that leaves the market keeps what is known of it. -/
theorem Replayed.snoc_of_not (hs : s.Replayed clock feed date ls)
    (hl : l.updates clock date = false) (hle : s.time ≤ s'.time)
    (hmarket : s'.provider.toMarketState = s.provider.toMarketState) :
    s'.Replayed clock feed date (ls ++ [l]) := by
  have hdates := clock.date_le s.time s'.time hle
  refine ⟨fun d hd => ?_, ?_, fun hne hbefore l' hl' => ?_, fun hon => ?_⟩
  · rw [hmarket] at hd
    exact (hs.day_le d hd).trans hdates
  · rw [hmarket]
    exact hs.failed_le
  · rw [hmarket] at hne
    rcases List.mem_append.mp hl' with hmem | hmem
    · exact hs.untouched hne (hdates.trans hbefore) l' hmem
    · rw [List.mem_singleton.mp hmem, hl]
  · rw [hmarket] at hon ⊢
    obtain ⟨k, hreached⟩ := hs.reached hon
    exact ⟨k, hreached.snoc_of_not hl⟩

/-- **A call of another date** leaves the date as it was, or behind. -/
theorem Replayed.snoc_other (hs : s.Replayed clock feed date ls) (hle : s.time ≤ s'.time)
    (hmarket : s'.provider.toMarketState
      = (s.provider.updateMarketState l.call.2.2 (clock.wall s'.time)).toMarketState)
    (hother : (clock.wall s'.time).date ≠ date) (hl : l.updates clock date = false) :
    s'.Replayed clock feed date (ls ++ [l]) := by
  have hdates := clock.date_le s.time s'.time hle
  have hday : s'.provider.day = some (clock.wall s'.time).date := by
    rw [hmarket]
    exact updateMarketState_day _
  refine ⟨fun d hd => (Option.some.inj (hd.symm.trans hday)).le, ?_,
    fun _ hbefore l' hl' => ?_, fun hon => ?_⟩
  · rw [hmarket]
    exact updateMarketState_days (fun d hd => (hs.day_le d hd).trans hdates) hs.failed_le
  · have hold : s.provider.day ≠ some date := fun hd =>
      hother (hbefore.antisymm ((hs.day_le date hd).trans hdates))
    rcases List.mem_append.mp hl' with hmem | hmem
    · exact hs.untouched hold (hdates.trans hbefore) l' hmem
    · rw [List.mem_singleton.mp hmem, hl]
  · exact absurd (Option.some.inj (hday.symm.trans hon)) hother

/-- **A call of the date goes on with its replay**, or begins it. -/
theorem Replayed.snoc (hs : s.Replayed clock feed date ls) (hle : s.time ≤ s'.time)
    (htime : s'.time = l.call.2.1)
    (hmarket : s'.provider.toMarketState
      = (s.provider.updateMarketState l.call.2.2 (clock.wall s'.time)).toMarketState)
    (hdate : (clock.wall s'.time).date = date) (hl : l.updates clock date = true)
    (htold : l.Says clock feed date) : s'.Replayed clock feed date (ls ++ [l]) := by
  have hdates := clock.date_le s.time s'.time hle
  have hday : s'.provider.day = some (clock.wall s'.time).date := by
    rw [hmarket]
    exact updateMarketState_day _
  refine ⟨fun d hd => (Option.some.inj (hd.symm.trans hday)).le, ?_,
    fun hne => absurd (hday.trans (congrArg some hdate)) hne, fun _ => ?_⟩
  · rw [hmarket]
    exact updateMarketState_days (fun d hd => (hs.day_le d hd).trans hdates) hs.failed_le
  · subst hdate
    have hcall := htold hl
    rw [← htime] at hcall
    obtain ⟨k, hreached⟩ := hs.onDay hdates
    obtain ⟨n, hn, htakes⟩ := updateMarketState_replays hcall hreached.replays hreached.le_end
    rw [← hmarket] at hn
    refine ⟨n, hreached.snoc hl hn ?_⟩
    rw [← htime]
    exact htakes

/-- **A call keeps what is known of the market of a date.** -/
theorem Replayed.step (hs : s.Replayed clock feed date ls) (h : s.step clock l = some s')
    (htold : l.Says clock feed date) : s'.Replayed clock feed date (ls ++ [l]) := by
  obtain ⟨hle, htime, hmarket⟩ := step_market h
  by_cases hknown : (strategyParams l.call.1).isSome = true
  · rw [if_pos hknown] at hmarket
    have hupdates : l.updates clock date = decide ((clock.wall s'.time).date = date) := by
      rw [Label.updates, hknown, htime, Bool.true_and]
    by_cases hdate : (clock.wall s'.time).date = date
    · exact hs.snoc hle htime hmarket hdate (hupdates.trans (decide_eq_true hdate)) htold
    · exact hs.snoc_other hle hmarket hdate (hupdates.trans (decide_eq_false hdate))
  · rw [if_neg hknown] at hmarket
    refine hs.snoc_of_not ?_ hle hmarket
    rw [Label.updates, Bool.eq_false_of_not_eq_true hknown, Bool.false_and]

/-- **A run keeps what is known of the market of a date.** -/
theorem replayed_of_run {time : Time} (htold : ∀ l ∈ ls, l.Says clock feed date)
    (hrun : (machine clock).run (initial time) ls = some s) : s.Replayed clock feed date ls := by
  induction ls using List.reverseRecOn generalizing s with
  | nil => exact Option.some.inj hrun ▸ replayed_initial time
  | append_singleton ls l ih =>
    obtain ⟨t, ht, hstep⟩ := Machine.run_snoc.mp hrun
    exact (ih (fun l' hl' => htold l' (List.mem_append_left _ hl')) ht).step hstep
      (htold l (List.mem_append_right _ (List.mem_singleton_self l)))

/-- **However the calls are made, the market is the replay of the date.** In
every run whose calls of a date are told the same of its boundaries, what the
strategies see of the market is the replay of the boundaries up to the next one.
Each of these was over in a call, and none is left that was over in a third as
many calls as there are boundaries up to it. -/
theorem market_replays {time : Time} (htold : ∀ l ∈ ls, l.Says clock feed date)
    (hrun : (machine clock).run (initial time) ls = some s) (hday : s.provider.day = some date) :
    ∃ k ≤ 78, s.provider.next5minClose = some (boundary date k)
      ∧ s.provider.view = (MarketState.replay (feed.tape date) date k).view
      ∧ (∀ j < k, ∃ l ∈ ls, l.updatesAfter clock date j = true)
      ∧ ∀ j < 78, j < 3 * ls.countP (Label.updatesAfter clock date j) → j < k := by
  obtain ⟨k, hreached⟩ := (replayed_of_run htold hrun).reached hday
  refine ⟨k, hreached.le_end, hreached.replays.next5minClose, hreached.replays.view,
    hreached.isOver, fun j hj hlt => ?_⟩
  rcases hreached.enough j hj with hjk | hcount
  · exact hjk
  · exact hlt.trans_le hcount

/-- The two strategies call in turn: a poll after the first boundary, an exit
check after the third, and a poll after the fourth. -/
def inTurns : List Label :=
  [ samplePoll 34501 breakdown [],
    .collectExits "xsp_5ema_trail" 35101 breakdown (some [])
      { latestBar := none
        underlyingQuote := none
        trailQuote := fun _ => none
        fallbackQuote := fun _ => none },
    samplePoll 35401 breakdown [] ]

/-- Of the boundaries that the calls take. -/
theorem market_replays_inTurns : ∃ s,
    (machine sampleClock).run (initial 0) inTurns = some s
      ∧ ∃ k ≤ 78, s.provider.next5minClose = some (boundary 0 k)
        ∧ s.provider.view = (MarketState.replay (breakdown.tape 0) 0 k).view
        ∧ (∀ j < k, ∃ l ∈ inTurns, l.updatesAfter sampleClock 0 j = true)
        ∧ ∀ j < 78, j < 3 * inTurns.countP (Label.updatesAfter sampleClock 0 j) → j < k := by
  have hrun : ((machine sampleClock).run (initial 0) inTurns).any
      (fun s => s.provider.day = some 0) = true := by decide +kernel
  obtain ⟨s, hs, hday⟩ := (Option.any_eq_true _ _).mp hrun
  refine ⟨s, hs, market_replays (fun l hl => ?_) hs (of_decide_eq_true hday)⟩
  simp only [inTurns, List.mem_cons, List.not_mem_nil, or_false] at hl
  rcases hl with rfl | rfl | rfl <;> exact fun _ _ _ _ => ⟨rfl, rfl⟩

end EmaSession

/-! ## Two replays of one date -/

namespace MarketState

variable {f g : ℕ → BoundaryData} {date : ℤ} {k n : ℕ}

/-- The average after a boundary rests on the average before, and on the close. -/
theorem take_ema {s t : MarketState} (h : s.ema = t.ema) (closeT : Time) {a b : BoundaryData}
    (hclose : a.close? = b.close?) : (s.take closeT a).ema = (t.take closeT b).ema := by
  have htake : ∀ (s : MarketState) (data : BoundaryData), (s.take closeT data).ema
      = (data.close?.map s.nextEma).or s.ema := fun s data => by cases data <;> rfl
  have hnext : s.nextEma = t.nextEma := by
    funext close
    rw [nextEma, nextEma, h]
  rw [htake, htake, hclose, hnext, h]

/-- **The average is that of the closes.** -/
theorem replay_ema (hcloses : ∀ j < n, (f j).close? = (g j).close?) :
    (replay f date n).ema = (replay g date n).ema := by
  induction n with
  | zero => rfl
  | succ n ih =>
    exact take_ema (ih fun j hj => hcloses j (hj.trans (Nat.lt_succ_self n))) _
      (hcloses n (Nat.lt_succ_self n))

/-- A live boundary at which nothing fires leaves what the average and its bar
say. -/
theorem take_live_view {s t : MarketState} (hema : s.ema = t.ema) (closeT : Time)
    (bar : FiveMinBar) (hs : (s.take closeT (.live bar)).entryTrigger = none)
    (ht : (t.take closeT (.live bar)).entryTrigger = none) :
    (s.take closeT (.live bar)).view = (t.take closeT (.live bar)).view := by
  have hs' : s.fires closeT bar.closePrice = none := hs
  have ht' : t.fires closeT bar.closePrice = none := ht
  have hnext : s.nextEma bar.closePrice = t.nextEma bar.closePrice := by
    rw [nextEma, nextEma, hema]
  simp only [take, view, processClose, armed, hs', ht', hnext]

/-- **Two replays with the same closes come to agree** at the first live boundary
at which neither fires, and agree for as long as they are told the same. -/
theorem replay_view {bar : FiveMinBar} (hcloses : ∀ j < n, (f j).close? = (g j).close?)
    (hk : k < n) (hf : f k = .live bar) (hg : g k = .live bar)
    (hquiet : (replay f date (k + 1)).entryTrigger = none)
    (hquiet' : (replay g date (k + 1)).entryTrigger = none)
    (hsame : ∀ j < n, k < j → f j = g j) : (replay f date n).view = (replay g date n).view := by
  induction n, hk using Nat.le_induction with
  | base =>
    have hema := @replay_ema f g date k fun j hj => hcloses j (hj.trans (Nat.lt_succ_self k))
    rw [replay, hf] at hquiet ⊢
    rw [replay, hg] at hquiet' ⊢
    exact take_live_view hema _ bar hquiet hquiet'
  | succ n hkn ih =>
    rw [replay, replay, hsame n (Nat.lt_succ_self n) hkn]
    exact take_view (ih (fun j hj => hcloses j (hj.trans (Nat.lt_succ_self n)))
      fun j hj => hsame j (hj.trans (Nat.lt_succ_self n))) _ _

end MarketState

namespace EmaSession

variable {clock : NyClock} {feed feed' : MarketFeed} {date : ℤ} {k n : ℕ} {s t : EmaSession}
  {ls ms : List Label}

/-- **A restart is made up for.** Let one process and another, which may have been
started later and have its closes from history, have come to the same boundary, with
the same closes known to both. Then they have the same average; and they see the
same of the market altogether once there was a live boundary at which neither had
an entry, and both were told the same since. -/
theorem restart_agrees {time time' : Time} (htold : ∀ l ∈ ls, l.Says clock feed date)
    (htold' : ∀ l ∈ ms, l.Says clock feed' date)
    (hrun : (machine clock).run (initial time) ls = some s)
    (hrun' : (machine clock).run (initial time') ms = some t)
    (hday : s.provider.day = some date) (hday' : t.provider.day = some date)
    (hnext : s.provider.next5minClose = some (boundary date n))
    (hnext' : t.provider.next5minClose = some (boundary date n))
    (hcloses : ∀ j < n, (feed.tape date j).close? = (feed'.tape date j).close?) :
    s.provider.ema = t.provider.ema
      ∧ ∀ k bar, k < n → feed.tape date k = .live bar → feed'.tape date k = .live bar →
        (MarketState.replay (feed.tape date) date (k + 1)).entryTrigger = none →
        (MarketState.replay (feed'.tape date) date (k + 1)).entryTrigger = none →
        (∀ j < n, k < j → feed.tape date j = feed'.tape date j) →
        s.provider.view = t.provider.view := by
  have hview {feed : MarketFeed} {ls : List Label} {time : Time} {s : EmaSession}
      (htold : ∀ l ∈ ls, l.Says clock feed date)
      (hrun : (machine clock).run (initial time) ls = some s)
      (hday : s.provider.day = some date)
      (hnext : s.provider.next5minClose = some (boundary date n)) :
      s.provider.view = (MarketState.replay (feed.tape date) date n).view := by
    obtain ⟨m, hreached⟩ := (replayed_of_run htold hrun).reached hday
    have hm := Option.some.inj (hreached.replays.next5minClose.symm.trans hnext)
    obtain rfl := (boundary_strictMono date).injective hm
    exact hreached.replays.view
  have hs := hview htold hrun hday hnext
  have ht := hview htold' hrun' hday' hnext'
  refine ⟨?_, fun k bar hk hlive hlive' hquiet hquiet' hsame => ?_⟩
  · have hema := @MarketState.replay_ema _ _ date n hcloses
    exact (Prod.mk.inj hs).1.trans (hema.trans (Prod.mk.inj ht).1.symm)
  · rw [hs, ht]
    exact MarketState.replay_view hcloses hk hlive hlive' hquiet hquiet' hsame

/-- The first three windows of a day that stays above its average. -/
def calm : MarketFeed where
  completedBars _ := some [minuteBar 570 101 100 100, minuteBar 575 104 102 103,
    minuteBar 580 105 103 104]
  historicalClose _ := none

/-- The same for a process that was started in the third window. -/
def calmRestarted : MarketFeed where
  completedBars _ := some [minuteBar 580 105 103 104]
  historicalClose closeT := if closeT = boundary 0 0 then some 100 else some 103

theorem restart_agrees_calm : ∃ s t,
    (machine sampleClock).run (initial 0) [samplePoll 35101 calm []] = some s
      ∧ (machine sampleClock).run (initial 0) [samplePoll 35101 calmRestarted []] = some t
      ∧ s.provider.ema = t.provider.ema ∧ s.provider.view = t.provider.view := by
  have hrun : ((machine sampleClock).run (initial 0) [samplePoll 35101 calm []]).any
      (fun s => s.provider.day = some 0 ∧ s.provider.next5minClose = some (boundary 0 3))
        = true := by decide +kernel
  have hrun' : ((machine sampleClock).run (initial 0) [samplePoll 35101 calmRestarted []]).any
      (fun s => s.provider.day = some 0 ∧ s.provider.next5minClose = some (boundary 0 3))
        = true := by decide +kernel
  obtain ⟨s, hs, hknown⟩ := (Option.any_eq_true _ _).mp hrun
  obtain ⟨t, ht, hknown'⟩ := (Option.any_eq_true _ _).mp hrun'
  obtain ⟨hday, hnext⟩ := of_decide_eq_true hknown
  obtain ⟨hday', hnext'⟩ := of_decide_eq_true hknown'
  have htold : ∀ feed, ∀ l ∈ [samplePoll 35101 feed []], l.Says sampleClock feed 0 := by
    intro feed l hl
    obtain rfl := List.mem_singleton.mp hl
    exact fun _ _ _ _ => ⟨rfl, rfl⟩
  have h := restart_agrees (htold calm) (htold calmRestarted) hs ht hday hday' hnext hnext'
    (by decide +kernel)
  exact ⟨s, t, hs, ht, h.1, h.2 2 ⟨103, 105, 103, 104⟩ (by decide) (by decide +kernel)
    (by decide +kernel) (by decide +kernel) (by decide +kernel) (by decide +kernel)⟩

end EmaSession
