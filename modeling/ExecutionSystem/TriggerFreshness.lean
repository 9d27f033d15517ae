import ExecutionSystem.MarketUpdate

/-!
# Fresh entry triggers

An entry trigger is meant for the five minutes after the bar that fired it:
the next boundary processed replaces it or clears it. But a boundary without
data is passed over, and the loop of an update ends early when its fetches
are spent, and both leave the trigger standing. A strategy that was not flat
when the bar closed finds it there later.

So every signal is fresh in a run in which no update leaves a trigger
standing at a gap: where it has no close for a boundary, the boundary is not
left for the next update, and another one is due after it
(`EmaSession.emitsFresh_of_onTime`).
-/

namespace MarketState

/-- **The standing trigger is that of the last boundary.** -/
def Fresh (s : MarketState) : Prop :=
  ∀ trigger, s.entryTrigger = some trigger →
    s.next5minClose = some (trigger.barTime + fiveMinutes)

/-- Whether there is a close for a boundary: of a live bar, or of history,
where a fetch is left. -/
def gets (feed : MarketFeed) (fetches : ℕ) (s : MarketState) (closeT : Time) : Bool :=
  (liveBar feed closeT).isSome
    || s.backfillFailedDay ≠ s.day && fetches < maxBackfillFetchesPerUpdate
      && (feed.historicalClose closeT).isSome

/-- Whether the boundary is left for the next update. -/
def putsOff (feed : MarketFeed) (fetches : ℕ) (s : MarketState) (closeT : Time) : Bool :=
  (s.turn feed fetches closeT).isNone

/-- Whether another boundary is due after this one. -/
def followed (now closeT : Time) : Bool :=
  closeT + fiveMinutes ≤ now && (closeT + fiveMinutes).timeOfDay ≤ rthClose

/-- A gap leaves no trigger standing: where there is no close for a boundary
while a trigger stands, the boundary is passed over, and another one is
due. -/
def gapIsFollowed (feed : MarketFeed) (now : Time) (fetches : ℕ) (s : MarketState)
    (closeT : Time) : Bool :=
  s.entryTrigger.isNone || s.gets feed fetches closeT
    || !s.putsOff feed fetches closeT && followed now closeT

/-- **No trigger is left standing at a gap**, in any turn of the loop. -/
def onTime (feed : MarketFeed) (now : Time) : ℕ → ℕ → MarketState → Bool
  | 0, _, _ => true
  | fuel + 1, fetches, s =>
    match s.due now with
    | none => true
    | some closeT =>
      s.gapIsFollowed feed now fetches closeT &&
        match s.turn feed fetches closeT with
        | none => true
        | some (fetches, s) => onTime feed now fuel fetches s

variable {feed : MarketFeed} {now : Time} {s s' : MarketState} {fetches fetches' fuel : ℕ}
  {closeT : Time}

/-- A boundary with a close is not left. -/
theorem putsOff_of_gets (h : s.gets feed fetches closeT = true) :
    s.putsOff feed fetches closeT = false := by
  unfold putsOff turn
  split
  · rfl
  · rename_i hnone
    have hbar : liveBar feed closeT = none := hnone
    simp only [gets, hbar, Option.isSome_none, Bool.false_or, Bool.and_eq_true,
      decide_eq_true_eq] at h
    obtain ⟨⟨hday, hleft⟩, hclose⟩ := h
    rw [if_neg hday, if_neg (not_le.mpr hleft)]
    split <;> rfl

/-- A turn that finds a close leaves a fresh trigger. -/
theorem fresh_processClose (close : Price) (bar : Option FiveMinBar) :
    (s.processClose closeT close bar).Fresh := by
  intro trigger h
  obtain ⟨sig, -, -, -, -, rfl⟩ := fires_eq_some h
  rfl

/-- **A turn leaves a fresh trigger, or the one that stood**, at a gap. -/
theorem Turn.fresh_or_gap (h : Turn feed s closeT s') :
    s'.Fresh ∨ s.gets feed fetches closeT = false ∧ s'.entryTrigger = s.entryTrigger := by
  cases h with
  | live bar hbar => exact .inl (fresh_processClose _ _)
  | history close hbar hclose => exact .inl (fresh_processClose _ _)
  | skipped hbar hfailed => exact .inr ⟨by simp [gets, hbar, hfailed], rfl⟩
  | failed hbar hclose => exact .inr ⟨by simp [gets, hbar, hclose], rfl⟩

/-- **Where the fetches are spent, no trigger stands.** -/
theorem entryTrigger_of_putsOff (hgap : s.gapIsFollowed feed now fetches closeT = true)
    (hput : s.putsOff feed fetches closeT = true) : s.entryTrigger = none := by
  have hgets : s.gets feed fetches closeT = false := by
    by_contra hgets
    rw [putsOff_of_gets (Bool.eq_true_of_not_eq_false hgets)] at hput
    cases hput
  simpa [gapIsFollowed, hgets, hput] using hgap

/-- **After a turn the trigger is fresh, or another boundary is due.** -/
theorem Turn.fresh_or_due (hgap : s.gapIsFollowed feed now fetches closeT = true)
    (h : Turn feed s closeT s') : s'.Fresh ∨ (s'.due now).isSome = true := by
  rcases @Turn.fresh_or_gap feed s s' fetches closeT h with hfresh | ⟨hgets, htrigger⟩
  · exact .inl hfresh
  · cases hstands : s.entryTrigger with
    | none =>
      refine .inl fun trigger h => ?_
      rw [htrigger, hstands] at h
      cases h
    | some trigger =>
      have hfollowed : s.putsOff feed fetches closeT = false ∧ followed now closeT = true := by
        simpa [gapIsFollowed, hgets, hstands] using hgap
      obtain ⟨hdue, hclose⟩ := Bool.and_eq_true_iff.mp hfollowed.2
      refine .inr (Option.isSome_iff_exists.mpr ⟨closeT + fiveMinutes, ?_⟩)
      exact due_eq_some_iff.mpr ⟨h.next5minClose, of_decide_eq_true hdue,
        of_decide_eq_true hclose⟩

/-- Once the turns are used up, no boundary is due. -/
theorem due_of_no_fuel (hfuel : ∀ closeT, s.next5minClose = some closeT → now < closeT) :
    s.due now = none := by
  by_contra hdue
  obtain ⟨closeT, hdue⟩ := Option.ne_none_iff_exists'.mp hdue
  obtain ⟨hnext, hle, -⟩ := due_eq_some_iff.mp hdue
  exact absurd hle (not_le.mpr (hfuel closeT hnext))

/-- **An update that is on time ends with a fresh trigger**, and with no
boundary due where one stands. -/
theorem updateLoop_fresh
    (hfuel : ∀ closeT, s.next5minClose = some closeT → now < closeT + fuel * fiveMinutes)
    (hfresh : s.Fresh ∨ (s.due now).isSome = true)
    (h : s.onTime feed now fuel fetches = true) :
    (s.updateLoop feed now fuel fetches).Fresh
      ∧ ((s.updateLoop feed now fuel fetches).entryTrigger.isSome = true →
        (s.updateLoop feed now fuel fetches).due now = none) := by
  have hends : s.due now = none → s.Fresh ∧ (s.entryTrigger.isSome = true → s.due now = none) :=
    fun hdue => ⟨hfresh.resolve_right (by rw [hdue]; exact Bool.false_ne_true), fun _ => hdue⟩
  -- the induction is on the turns; the loop ends where nothing is due, or for want of
  -- fetches
  induction fuel generalizing fetches s with
  | zero =>
    rw [updateLoop]
    exact hends (due_of_no_fuel fun closeT hnext => by simpa using hfuel closeT hnext)
  | succ fuel ih =>
    rw [updateLoop]
    cases hdue : s.due now with
    | none => exact hends hdue
    | some closeT =>
      rw [onTime, hdue] at h
      obtain ⟨hgap, hrest⟩ := Bool.and_eq_true_iff.mp h
      dsimp only
      cases hturn : s.turn feed fetches closeT with
      | none =>
        -- the boundary is left for the next update, so no trigger stands
        have hnone := entryTrigger_of_putsOff hgap (by rw [putsOff, hturn]; rfl)
        refine ⟨fun trigger htrigger => ?_, fun hsome => ?_⟩
        · rw [hnone] at htrigger
          cases htrigger
        · rw [hnone] at hsome
          cases hsome
      | some next =>
        have hcases := turn_cases hturn
        rw [hturn] at hrest
        have hfresh' := Turn.fresh_or_due hgap hcases
        refine ih (fun later hlater => ?_) hfresh' hrest fun hdue' =>
          ⟨hfresh'.resolve_right (by rw [hdue']; exact Bool.false_ne_true), fun _ => hdue'⟩
        obtain ⟨hnext, -, -⟩ := due_eq_some_iff.mp hdue
        obtain rfl := Option.some.inj (hcases.next5minClose.symm.trans hlater)
        have := hfuel closeT hnext
        push_cast at this
        linarith

/-- The loop is given turns enough. -/
theorem now_lt_fuelFor (s : MarketState) (now : Time) :
    ∀ closeT, s.next5minClose = some closeT → now < closeT + s.fuelFor now * fiveMinutes := by
  intro closeT h
  have hlt := Int.lt_floor_add_one ((now - closeT) / fiveMinutes)
  have hle : ⌊(now - closeT) / fiveMinutes⌋ ≤ (⌊(now - closeT) / fiveMinutes⌋.toNat : ℤ) :=
    Int.self_le_toNat _
  have hcast : ((⌊(now - closeT) / fiveMinutes⌋ : ℤ) : ℚ)
      ≤ ((⌊(now - closeT) / fiveMinutes⌋.toNat : ℕ) : ℚ) := by exact_mod_cast hle
  rw [fuelFor, h]
  push_cast
  have hfive : (0 : Time) < fiveMinutes := by decide +kernel
  rw [div_lt_iff₀ hfive] at hlt
  have hmono := mul_le_mul_of_nonneg_right hcast hfive.le
  linarith

/-- A trigger that stands is of the day, and of a boundary that is over. -/
def Standing (s : MarketState) (now : Time) : Prop :=
  ∀ trigger, s.entryTrigger = some trigger →
    s.day = some trigger.barTime.date ∧ hhmm 9 35 ≤ trigger.barTime.timeOfDay
      ∧ trigger.barTime ≤ now

theorem Standing.turn (hs : s.Standing now) (hsession : s.InSession)
    (hdue : s.due now = some closeT) (h : Turn feed s closeT s') : s'.Standing now := by
  obtain ⟨hnext, hle, -⟩ := due_eq_some_iff.mp hdue
  obtain ⟨hday, hopen, -⟩ := hsession closeT hnext
  -- a new trigger is of the boundary that is processed
  have hprocessed : ∀ close bar, (s.processClose closeT close bar).Standing now := by
    intro close bar trigger htrigger
    obtain ⟨sig, -, -, -, -, rfl⟩ := fires_eq_some htrigger
    exact ⟨hday, hopen, hle⟩
  cases h with
  | live | history => exact hprocessed _ _
  | skipped | failed => exact hs

end MarketState

namespace EmaSession

open XSP5EMAStrategyProvider

variable {clock : NyClock} {s s' : EmaSession} {l : Label}

/-- **The update of the call is on time**, if there is one. -/
def onTime (clock : NyClock) (s : EmaSession) (l : Label) : Bool :=
  let now := clock.wall l.call.2.1
  let market := (s.provider.onDay now.date).toMarketState
  (strategyParams l.call.1).isNone || market.onTime l.call.2.2 now (market.fuelFor now) 0

/-- **Every signal is emitted within five minutes of the bar that triggered
it.** -/
def EmitsFresh (clock : NyClock) (s : EmaSession) : Prop :=
  ∀ signal ∈ s.emitted, signal.entry5minCloseTime ≤ clock.wall signal.timestamp
    ∧ clock.wall signal.timestamp < signal.entry5minCloseTime + fiveMinutes

/-- What is known of the market between two calls. -/
structure MarketKnown (m : MarketState) (now : Time) : Prop where
  session : m.InSession
  standing : m.Standing now
  fresh : m.Fresh

/-- Time passes over what stands. -/
theorem MarketKnown.later {m : MarketState} {t u : Time} (h : MarketKnown m (clock.wall t))
    (htu : t ≤ u) : MarketKnown m (clock.wall u) := by
  refine ⟨h.session, fun trigger htrigger => ?_, h.fresh⟩
  obtain ⟨hday, hopen, hle⟩ := h.standing trigger htrigger
  have hrth : hhmm 9 30 ≤ hhmm 9 35 := by decide +kernel
  exact ⟨hday, hopen, clock.passed (hrth.trans hopen) hle htu⟩

/-- **An update on time keeps what is known**, and leaves no boundary due where
a trigger stands. -/
theorem MarketKnown.update {p : XSP5EMAStrategyProvider} {now : Time} {feed : MarketFeed}
    (h : MarketKnown p.toMarketState now)
    (hontime : (p.onDay now.date).onTime feed now ((p.onDay now.date).fuelFor now) 0 = true) :
    MarketKnown (p.updateMarketState feed now).toMarketState now
      ∧ ((p.updateMarketState feed now).entryTrigger.isSome = true →
        (p.updateMarketState feed now).due now = none) := by
  have hkept := @updateMarketState_invariant feed now
    (fun m => m.InSession ∧ m.Standing now) p
    (fun m _ _ => ⟨m.inSession_reset _, fun _ ht => by cases ht⟩)
    (fun m closeT m' hm hdue hturn =>
      ⟨hm.1.turn hdue hturn, hm.2.turn hm.1 hdue hturn⟩) ⟨h.session, h.standing⟩
  have hfresh : (p.onDay now.date).Fresh := by
    unfold onDay
    split_ifs
    · intro trigger ht
      cases ht
    · exact h.fresh
  have hloop := MarketState.updateLoop_fresh (MarketState.now_lt_fuelFor _ now)
    (.inl hfresh) hontime
  exact ⟨⟨hkept.1, hkept.2, hloop.1⟩, hloop.2⟩

/-- **What is known in a run on time.** -/
structure Known (clock : NyClock) (s : EmaSession) : Prop where
  market : MarketKnown s.provider.toMarketState (clock.wall s.time)
  emitsFresh : s.EmitsFresh clock

/-- **A poll that enters does so within five minutes of the bar.** -/
theorem fresh_of_mayEnter {p : XSP5EMAStrategyProvider} {sid : StrategyId} {params : EmaParams}
    {now : Time} {positions : Option (List Position)} {trigger : EntryTrigger}
    (hknown : MarketKnown p.toMarketState now) (hdue : p.due now = none)
    (hday : p.day = some now.date) (hmay : p.mayEnter sid params now positions = true)
    (htrigger : p.entryTrigger = some trigger) : now < trigger.barTime + fiveMinutes := by
  have hnext := hknown.fresh trigger htrigger
  by_contra hle
  rw [not_lt] at hle
  obtain ⟨hdate, -, -⟩ := hknown.session _ hnext
  have hcutoff : now.timeOfDay < entryCutoffNy := by
    simp only [mayEnter, Bool.and_eq_true, decide_eq_true_eq] at hmay
    exact hmay.1.1.2
  -- else the next boundary would be due: it is of the day, and the cutoff is before the
  -- close
  have hsame : (trigger.barTime + fiveMinutes).date = now.date :=
    Option.some.inj (hdate.symm.trans hday)
  have htime := (Time.le_iff_timeOfDay hsame).mp hle
  have hclose : entryCutoffNy ≤ rthClose := by decide +kernel
  have : p.due now = some (trigger.barTime + fiveMinutes) :=
    MarketState.due_eq_some_iff.mpr ⟨hnext, hle, (htime.trans hcutoff.le).trans hclose⟩
  rw [hdue] at this
  cases this

theorem known_initial (time : Time) : (initial time).Known clock where
  market :=
    { session := fun _ h => by cases h
      standing := fun _ h => by cases h
      fresh := fun _ h => by cases h }
  emitsFresh := fun _ h => by cases h

/-- **A call on time keeps what is known.** -/
theorem Known.step (hs : s.Known clock) (h : s.step clock l = some s')
    (hontime : s.onTime clock l = true) : s'.Known clock := by
  obtain ⟨hle, sid, feed, hcall, hcases⟩ := step_cases h
  have hlater := hs.market.later hle
  have hupdate (hknown : strategyParams sid ≠ none) :=
    @MarketKnown.update s.provider (clock.wall s'.time) feed hlater
      (by simpa [onTime, hcall, hknown] using hontime)
  cases hcases with
  | idle hsame hemitted =>
    refine ⟨hsame.market ▸ hlater, ?_⟩
    rw [EmitsFresh, hemitted]
    exact hs.emitsFresh
  | updates hknown hsame hemitted =>
    obtain ⟨hmarket, -⟩ := hupdate hknown
    refine ⟨hsame.market ▸ hmarket, ?_⟩
    rw [EmitsFresh, hemitted]
    exact hs.emitsFresh
  | enters params trigger u positions signals hparams hu hmay htrigger hconsumed hs' hemitted
      hsignals =>
    have hknown : strategyParams sid ≠ none := by rw [hparams]; exact Option.some_ne_none _
    obtain ⟨hmarket, hdue⟩ := hupdate hknown
    rw [← hu.market] at hmarket hdue
    have hnone : u.due (clock.wall s'.time) = none := hdue (by rw [htrigger]; rfl)
    have hday : u.day = some (clock.wall s'.time).date := by
      rw [hu.market]
      exact updateMarketState_day _
    refine ⟨by rw [hs']; exact hmarket, fun signal hmem => ?_⟩
    rw [hemitted] at hmem
    rcases List.mem_append.mp hmem with hold | hnew
    · exact hs.emitsFresh signal hold
    · rcases hsignals with rfl | ⟨new, rfl, hof⟩
      · cases hnew
      · obtain rfl := List.mem_singleton.mp hnew
        rw [hof.entry5minCloseTime, hof.timestamp]
        exact ⟨(hmarket.standing trigger htrigger).2.2,
          fresh_of_mayEnter hmarket hnone hday hmay htrigger⟩

/-- **Every signal is emitted within five minutes of its trigger**, in a run
whose updates are on time. -/
theorem emitsFresh_of_onTime (clock : NyClock) (time : Time) (ls : List Label)
    (h : (machine clock).Along (fun s l _ => s.onTime clock l = true) (initial time) ls) :
    (machine clock).Throughout (EmitsFresh clock) (initial time) ls := by
  rw [Machine.throughout_iff_along]
  exact ⟨(known_initial time).emitsFresh,
    Machine.along_of_step (J := Known clock) (fun _ _ _ hs h hontime => hs.step h hontime)
      (fun _ _ _ hs h hontime => (hs.step h hontime).emitsFresh) (known_initial time) h⟩

/-! ## Runs on fixed inputs -/

/-- A wall clock that is never changed. -/
def sampleClock : NyClock where
  wall t := t
  dateText _ := "20260608"
  date_le _ _ h := Time.date_mono h
  session_le _ _ h _ _ := h

/-- A bar of one minute. -/
def minuteBar (minute : ℤ) (high low close : Price) : OhlcBar :=
  ⟨"XSP", minute, low, high, low, close, 1⟩

/-- The first three windows of the day: the average is `100`, a bar above it
arms a put, and the next closes at its low. -/
def breakdown : MarketFeed where
  completedBars _ := some [minuteBar 570 101 100 100, minuteBar 575 104 102 103,
    minuteBar 580 103 102 102]
  historicalClose _ := none

/-- No data at all. -/
def noData : MarketFeed := ⟨fun _ => none, fun _ => none⟩

def baseSizing : SizingConfig where
  strategyId := "xsp_5ema_base"
  maxContracts := 1
  maxContracts_pos := Nat.one_pos
  sizing_pos := SizingConfig.default_pos

/-- A poll of the strategy without quotes. -/
def samplePoll (currentTime : Time) (feed : MarketFeed) (positions : List Position) : Label :=
  .poll baseSizing currentTime feed (some positions) none none

/-- A position of the strategy. -/
def heldPosition : Position where
  positionId := 0
  strategyId := "xsp_5ema_base"
  contract := sampleContract
  side := .buy
  quantity := 1
  filledQuantity := 1
  averageEntryPrice := 1
  status := .opened
  entryOrderId := 0
  createdAt := 0
  updatedAt := 0

/-- The strategy is flat when the bar closes. -/
def entersAtOnce : List Label := [samplePoll 35101 breakdown []]

theorem emitsFresh_entersAtOnce :
    (machine sampleClock).Throughout (EmitsFresh sampleClock) (initial 0) entersAtOnce :=
  emitsFresh_of_onTime sampleClock 0 entersAtOnce (by decide +kernel)

/-- The strategy holds a position when the bar closes at `9:45`, and is flat
when the next window has no data. -/
def entersLate : List Label :=
  [samplePoll 35101 breakdown [heldPosition], samplePoll 35401 noData []]

/-- **A signal is emitted from a trigger of the window before.** -/
theorem not_emitsFresh :
    ¬ ∀ clock time ls, (machine clock).Throughout (EmitsFresh clock) (initial time) ls := by
  intro h
  have hrun : ((machine sampleClock).run (initial 0) entersLate).map
      (fun s => s.emitted.map fun signal => (signal.entry5minCloseTime, signal.timestamp))
        = some [(35100, 35401)] := by decide +kernel
  obtain ⟨s, hs, hemitted⟩ := Option.map_eq_some_iff.mp hrun
  obtain ⟨signal, hsignal, hpair⟩ := List.map_eq_singleton_iff.mp hemitted
  obtain ⟨hclose, htime⟩ := Prod.mk.inj hpair
  have hfresh := (h sampleClock 0 entersLate entersLate s List.prefix_rfl hs signal
    (hsignal ▸ List.mem_singleton_self _)).2
  rw [hclose, htime] at hfresh
  exact absurd hfresh (by decide +kernel)

end EmaSession
