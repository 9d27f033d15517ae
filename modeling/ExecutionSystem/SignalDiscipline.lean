import ExecutionSystem.TriggerFreshness

/-!
# Signal discipline of the breakout

Every signal is a put whose trigger bar closed at or below the low of a live
bar that was armed before it on that day, above the average. A trigger bar
yields one signal to a strategy at most, and a day no more than are
configured (`EmaSession.disciplined_of_ordered`). The average is computed in
floats, and rounding may carry it out of the range of the closes
(`EmaSession.not_between`); since every update moves it two thirds of the way
at most, what is rounded off does not add up (`NearlyBetween.nextEma`).

The market remembers what it processed, and the armed bar and the trigger are
found there (`MarketState.Sound`). The boundaries of the signals lie before
the next one to be processed, so a new trigger is of none of them, and one
that stands was consumed by the strategies that it has a signal of
(`SignalLedger`).
-/

/-! ## Bars in order -/

/-- A running maximum only rises. -/
theorem le_foldl_max {α : Type} (f : α → Price) (xs : List α) (a : Price) :
    a ≤ xs.foldl (fun m x => max m (f x)) a := by
  induction xs generalizing a with
  | nil => exact le_rfl
  | cons x xs ih => exact (le_max_left _ _).trans (ih (max a (f x)))

/-- … and a running minimum only falls. -/
theorem foldl_min_le {α : Type} (f : α → Price) (xs : List α) (a : Price) :
    xs.foldl (fun m x => min m (f x)) a ≤ a := by
  induction xs generalizing a with
  | nil => exact le_rfl
  | cons x xs ih => exact (ih (min a (f x))).trans (min_le_left _ _)

/-- The close of the bar is between its low and its high. -/
def OhlcBar.Ordered (bar : OhlcBar) : Prop :=
  bar.low ≤ bar.closePrice ∧ bar.closePrice ≤ bar.high

/-- … in every bar that the broker has. -/
def MarketFeed.Ordered (feed : MarketFeed) : Prop :=
  ∀ closeT bars, feed.completedBars closeT = some bars → ∀ bar ∈ bars, bar.Ordered

/-- **A live bar of ordered bars is ordered.** -/
theorem build5minBarLive_le {bars : List OhlcBar} {windowStart windowEnd : Time}
    {live : FiveMinBar} (hordered : ∀ bar ∈ bars, bar.Ordered)
    (h : build5minBarLive (some bars) windowStart windowEnd = some live) :
    live.low ≤ live.high := by
  unfold build5minBarLive at h
  split at h
  · cases h
  · cases h
  · rename_i oldest rest hbars
    obtain rfl := Option.some.inj hbars
    split_ifs at h
    split at h
    · cases h
    · rename_i first window hwindow
      obtain rfl := Option.some.inj h
      have hfirst : first ∈ oldest :: rest :=
        (List.mem_filter.mp (hwindow ▸ List.mem_cons_self)).1
      -- the low of the window is not above the first bar, and its high is not below
      calc window.foldl (fun low b => min low b.low) first.low
          ≤ first.low := foldl_min_le _ _ _
        _ ≤ first.closePrice := (hordered first hfirst).1
        _ ≤ first.high := (hordered first hfirst).2
        _ ≤ window.foldl (fun high b => max high b.high) first.high := le_foldl_max _ _ _

/-! ## What was processed -/

/-- What rounding moves an average by, over a day whose closes lie between two
values. -/
def averageDrift (lo hi : ℚ) : ℚ := max |lo| |hi| * (8 * unitRoundoff) + 16 * underflow

/-- Between two values, up to rounding. -/
structure NearlyBetween (lo hi ema : ℚ) : Prop where
  le : lo ≤ hi
  low : lo - averageDrift lo hi ≤ ema
  high : ema ≤ hi + averageDrift lo hi

/-- **The average is between two closes of the day**, up to rounding. -/
def Averaged (rows : List ProcessedBar) (date : ℤ) (ema : ℚ) : Prop :=
  ∃ lo ∈ rows, ∃ hi ∈ rows, lo.closeTime.date = date ∧ hi.closeTime.date = date
    ∧ NearlyBetween lo.closePrice hi.closePrice ema

theorem Averaged.mono {rows rows' : List ProcessedBar} {date : ℤ} {ema : ℚ}
    (hsub : rows ⊆ rows') (h : Averaged rows date ema) : Averaged rows' date ema := by
  obtain ⟨lo, hlo, hi, hhi, h⟩ := h
  exact ⟨lo, hsub hlo, hi, hsub hhi, h⟩

theorem averageDrift_nonneg (lo hi : ℚ) : 0 ≤ averageDrift lo hi := by
  have hunit : (0 : ℚ) ≤ 8 * unitRoundoff := by norm_num [unitRoundoff]
  have hleast := underflow_pos
  have := mul_nonneg ((abs_nonneg lo).trans (le_max_left _ |hi|)) hunit
  unfold averageDrift
  linarith

/-- A close is between itself and itself. -/
theorem nearlyBetween_self (q : ℚ) : NearlyBetween q q q where
  le := le_rfl
  low := sub_le_self q (averageDrift_nonneg q q)
  high := le_add_of_nonneg_right (averageDrift_nonneg q q)

/-- **What an update of the average rounds off.** -/
theorem MarketState.abs_nextEma_sub_le {s : MarketState} {ema close bound : ℚ}
    (hema : s.ema = some ema) (hclose : |close| ≤ bound) (hold : |ema| ≤ bound) :
    |s.nextEma close - (close * (1 / 3) + ema * (2 / 3))|
      ≤ bound * (21 / 8 * unitRoundoff) + 4 * underflow := by
  have hnext : s.nextEma close
      = binary64 (binary64 (close * binary64 (1 / 3)) + binary64 (ema * binary64 (2 / 3))) := by
    rw [nextEma, hema]
  have hthird : binary64 (1 / 3) = 6004799503160661 / 2 ^ 54 := by decide +kernel
  have htwo : binary64 (2 / 3) = 6004799503160661 / 2 ^ 53 := by decide +kernel
  rw [hnext, hthird, htwo]
  -- the two products, and then their sum
  have hfirst := abs_binary64_sub_le (close * (6004799503160661 / 2 ^ 54))
  have hsecond := abs_binary64_sub_le (ema * (6004799503160661 / 2 ^ 53))
  have hsum := abs_binary64_sub_le (binary64 (close * (6004799503160661 / 2 ^ 54))
    + binary64 (ema * (6004799503160661 / 2 ^ 53)))
  generalize binary64 (close * (6004799503160661 / 2 ^ 54)) = x at hfirst hsum ⊢
  generalize binary64 (ema * (6004799503160661 / 2 ^ 53)) = y at hsecond hsum ⊢
  generalize binary64 (x + y) = z at hsum ⊢
  rw [abs_mul, abs_of_pos (by norm_num : (0 : ℚ) < 6004799503160661 / 2 ^ 54)] at hfirst
  rw [abs_mul, abs_of_pos (by norm_num : (0 : ℚ) < 6004799503160661 / 2 ^ 53)] at hsecond
  have hleast := underflow_pos
  obtain ⟨hlowFirst, hhighFirst⟩ := abs_le.mp hfirst
  obtain ⟨hlowSecond, hhighSecond⟩ := abs_le.mp hsecond
  obtain ⟨hlowClose, hhighClose⟩ := abs_le.mp hclose
  obtain ⟨hlowOld, hhighOld⟩ := abs_le.mp hold
  unfold unitRoundoff at *
  have htotal : |x + y| ≤ bound * (1 + 1 / 2 ^ 53) + 2 * underflow :=
    abs_le.mpr ⟨by linarith, by linarith⟩
  obtain ⟨hlowSum, hhighSum⟩ := abs_le.mp hsum
  exact abs_le.mpr ⟨by linarith, by linarith⟩

/-- **An update keeps the average between the closes**, this one among
them. -/
theorem NearlyBetween.nextEma {s : MarketState} {lo hi ema close : ℚ}
    (h : NearlyBetween lo hi ema) (hema : s.ema = some ema) :
    NearlyBetween (min lo close) (max hi close) (s.nextEma close) := by
  obtain ⟨hle, hlow, hhigh⟩ := h
  have hlo : min lo close ≤ lo := min_le_left _ _
  have hhi : hi ≤ max hi close := le_max_left _ _
  have hlo' : min lo close ≤ close := min_le_right _ _
  have hhi' : close ≤ max hi close := le_max_right _ _
  generalize min lo close = lo' at *
  generalize max hi close = hi' at *
  -- the closes that there were are among those that there are
  have hlargest : max |lo| |hi| ≤ max |lo'| |hi'| :=
    max_le (abs_le_max_abs_abs hlo (hle.trans hhi)) (abs_le_max_abs_abs (hlo.trans hle) hhi)
  have hclose : |close| ≤ max |lo'| |hi'| := abs_le_max_abs_abs hlo' hhi'
  have hlow' : |lo'| ≤ max |lo'| |hi'| := le_max_left _ _
  have hhigh' : |hi'| ≤ max |lo'| |hi'| := le_max_right _ _
  suffices h : lo' ≤ hi' ∧ lo' - averageDrift lo' hi' ≤ s.nextEma close
      ∧ s.nextEma close ≤ hi' + averageDrift lo' hi' from ⟨h.1, h.2.1, h.2.2⟩
  unfold averageDrift at *
  generalize max |lo'| |hi'| = bound at *
  have hleast := underflow_pos
  have hold : |ema| ≤ bound + (bound * (8 * unitRoundoff) + 16 * underflow) := by
    obtain ⟨hlowLo, -⟩ := abs_le.mp hlow'
    obtain ⟨-, hhighHi⟩ := abs_le.mp hhigh'
    unfold unitRoundoff at *
    exact abs_le.mpr ⟨by linarith, by linarith⟩
  have hnonneg : 0 ≤ bound := (abs_nonneg close).trans hclose
  have hgrown : bound ≤ bound + (bound * (8 * unitRoundoff) + 16 * underflow) := by
    unfold unitRoundoff
    linarith
  obtain ⟨hdown, hup⟩ :=
    abs_le.mp (MarketState.abs_nextEma_sub_le hema (hclose.trans hgrown) hold)
  unfold unitRoundoff at *
  exact ⟨by linarith, by linarith, by linarith⟩

/-- **A live bar above the average is armed**, with what the signal bar keeps
of it. -/
structure ArmedAt (rows : List ProcessedBar) (date : ℤ) (armed : ProcessedBar)
    (low high : Price) : Prop where
  mem : armed ∈ rows
  date : armed.closeTime.date = date
  live : ∃ bar, armed.bar = some bar ∧ armed.ema < bar.low ∧ bar.low = low ∧ bar.high = high

theorem ArmedAt.mono {rows rows' : List ProcessedBar} {date : ℤ} {armed : ProcessedBar}
    {low high : Price} (hsub : rows ⊆ rows') (h : ArmedAt rows date armed low high) :
    ArmedAt rows' date armed low high :=
  ⟨hsub h.mem, h.date, h.live⟩

/-- **The breakdown behind a trigger**: a boundary of the day closed at or
below the low of a bar that was armed before, and the stop is its high. -/
def Breakdown (rows : List ProcessedBar) (date : ℤ) (barTime : Time) (entry stop : Price) :
    Prop :=
  ∃ armed low, ArmedAt rows date armed low stop ∧ ∃ trigger ∈ rows,
    trigger.closeTime = barTime ∧ trigger.closePrice = entry ∧ barTime.date = date
      ∧ armed.closeTime < barTime ∧ entry ≤ low

theorem Breakdown.mono {rows rows' : List ProcessedBar} {date : ℤ} {barTime : Time}
    {entry stop : Price} (hsub : rows ⊆ rows') (h : Breakdown rows date barTime entry stop) :
    Breakdown rows' date barTime entry stop := by
  obtain ⟨armed, low, harmed, trigger, hmem, h⟩ := h
  exact ⟨armed, low, harmed.mono hsub, trigger, hsub hmem, h⟩

namespace MarketState

variable {feed : MarketFeed} {now : Time} {s s' : MarketState} {closeT : Time}

/-- The boundary lies before the next one. -/
def Past (s : MarketState) (barTime : Time) : Prop :=
  ∃ next, s.next5minClose = some next ∧ barTime < next

/-- **What the market holds was processed**: the armed bar, the trigger, and
the closes around the average. -/
structure Sound (s : MarketState) : Prop where
  session : s.InSession
  ordered : ∀ row ∈ s.processed, ∀ bar, row.bar = some bar → bar.low ≤ bar.high
  averages : ∀ rows row, rows ++ [row] <+: s.processed →
    Averaged (rows ++ [row]) row.closeTime.date row.ema
  averaged : ∀ ema, s.ema = some ema → ∃ date, s.day = some date ∧ Averaged s.processed date ema
  armed : ∀ sig, s.signalBar = some sig → sig.direction = .put → ∃ date armed,
    s.day = some date ∧ ArmedAt s.processed date armed sig.low sig.high
      ∧ armed.closeTime = sig.barTime
  trigger : ∀ trigger, s.entryTrigger = some trigger → trigger.direction = .put
    ∧ s.Past trigger.barTime ∧ ∃ date, s.day = some date
      ∧ Breakdown s.processed date trigger.barTime trigger.entryUnderlying trigger.stopUnderlying

theorem sound_initial : ({} : MarketState).Sound where
  session := by intro _ h; cases h
  ordered := by intro _ h; cases h
  averages := by simp
  averaged := by intro _ h; cases h
  armed := by intro _ h; cases h
  trigger := by intro _ h; cases h

/-- A new day keeps what was processed, and nothing of the market. -/
theorem Sound.reset (hs : s.Sound) (date : ℤ) : (s.reset date).Sound where
  session := inSession_reset s date
  ordered := hs.ordered
  averages := hs.averages
  averaged := by intro _ h; cases h
  armed := by intro _ h; cases h
  trigger := by intro _ h; cases h

/-- A boundary that is processed is past, with those before it. -/
theorem Past.turn {barTime : Time} (hnext : s.next5minClose = some closeT)
    (h : Turn feed s closeT s') (hpast : s.Past barTime ∨ barTime = closeT) :
    s'.Past barTime := by
  have hfive : (0 : Time) < fiveMinutes := by norm_num [fiveMinutes]
  have hle : barTime ≤ closeT := by
    rcases hpast with ⟨next, hnext', hlt⟩ | rfl
    · exact Option.some.inj (hnext.symm.trans hnext') ▸ hlt.le
    · exact le_rfl
  exact ⟨_, h.next5minClose, hle.trans_lt (lt_add_of_pos_right _ hfive)⟩

/-- **The new average is between the closes of the day**, this one among
them. -/
theorem Sound.nextEma_averaged (hs : s.Sound) (hday : s.day = some closeT.date)
    (row : ProcessedBar) (hrow : row.closeTime = closeT) :
    Averaged (s.processed ++ [row]) closeT.date (s.nextEma row.closePrice) := by
  have hmem : row ∈ s.processed ++ [row] := List.mem_append_right _ (List.mem_singleton_self _)
  have hdate : row.closeTime.date = closeT.date := by rw [hrow]
  cases hema : s.ema with
  | none =>
    rw [nextEma, hema]
    exact ⟨row, hmem, row, hmem, hdate, hdate, nearlyBetween_self _⟩
  | some ema =>
    obtain ⟨date, hdate', lo, hlo, hi, hhi, hlodate, hhidate, hbetween⟩ := hs.averaged ema hema
    obtain rfl := Option.some.inj (hday.symm.trans hdate')
    have hnext : NearlyBetween (min lo.closePrice row.closePrice) (max hi.closePrice row.closePrice)
        (s.nextEma row.closePrice) := hbetween.nextEma hema
    -- the least of the closes is the old one or this one, and so is the greatest
    have hlow : ∃ lo' ∈ s.processed ++ [row], lo'.closeTime.date = closeT.date
        ∧ lo'.closePrice = min lo.closePrice row.closePrice := by
      rcases min_choice lo.closePrice row.closePrice with h | h <;> rw [h]
      · exact ⟨lo, List.mem_append_left _ hlo, hlodate, rfl⟩
      · exact ⟨row, hmem, hdate, rfl⟩
    have hhigh : ∃ hi' ∈ s.processed ++ [row], hi'.closeTime.date = closeT.date
        ∧ hi'.closePrice = max hi.closePrice row.closePrice := by
      rcases max_choice hi.closePrice row.closePrice with h | h <;> rw [h]
      · exact ⟨hi, List.mem_append_left _ hhi, hhidate, rfl⟩
      · exact ⟨row, hmem, hdate, rfl⟩
    obtain ⟨lo', hlo', hlodate', hlow⟩ := hlow
    obtain ⟨hi', hhi', hhidate', hhigh⟩ := hhigh
    rw [← hlow, ← hhigh] at hnext
    exact ⟨lo', hlo', hi', hhi', hlodate', hhidate', hnext⟩

/-- A put is armed by a live bar above the average, or was armed before. -/
theorem armed_eq_some {ema : ℚ} {bar : Option FiveMinBar} {sig : SignalBar}
    (h : s.armed ema closeT bar = some sig) (hput : sig.direction = .put) :
    s.signalBar = some sig ∨ ∃ live, bar = some live ∧ ema < live.low
      ∧ sig = ⟨.put, live.high, live.low, closeT⟩ := by
  unfold MarketState.armed at h
  split at h
  · exact .inl h
  · rename_i live
    split_ifs at h with habove hbelow
    · exact .inr ⟨live, rfl, habove, (Option.some.inj h).symm⟩
    · obtain rfl := Option.some.inj h
      cases hput

/-- **A processed boundary keeps the market sound.** -/
theorem Sound.processClose (hs : s.Sound) (hdue : s.due now = some closeT) (close : Price)
    (bar : Option FiveMinBar) (hbar : ∀ live, bar = some live → live.low ≤ live.high)
    (h : Turn feed s closeT (s.processClose closeT close bar)) :
    (s.processClose closeT close bar).Sound := by
  obtain ⟨hnext, -, -⟩ := due_eq_some_iff.mp hdue
  obtain ⟨hday, -, -⟩ := hs.session closeT hnext
  let row : ProcessedBar := ⟨closeT, close, bar, s.nextEma close⟩
  have hrow : row ∈ s.processed ++ [row] := List.mem_append_right _ (List.mem_singleton_self _)
  have hsub : s.processed ⊆ s.processed ++ [row] := List.subset_append_left _ _
  have hema : Averaged (s.processed ++ [row]) closeT.date (s.nextEma close) :=
    hs.nextEma_averaged hday row rfl
  refine ⟨hs.session.turn hdue h, ?_, ?_, ?_, ?_, ?_⟩
  · intro old hold live hlive
    rcases List.mem_append.mp hold with hold | hnew
    · exact hs.ordered old hold live hlive
    · obtain rfl := List.mem_singleton.mp hnew
      exact hbar live hlive
  · -- a prefix ends with the new boundary, or before it
    intro rows last hprefix
    rcases List.prefix_concat_iff.mp hprefix with hall | hprefix
    · obtain ⟨rfl, hlast⟩ := List.append_inj' hall rfl
      obtain rfl := (List.cons.inj hlast).1
      exact hema
    · exact hs.averages rows last hprefix
  · intro ema h
    obtain rfl := Option.some.inj h
    exact ⟨_, hday, hema⟩
  · -- a bar that is armed was so before, or is this live one
    intro sig hsig hput
    obtain ⟨-, hsig⟩ := Option.ite_none_left_eq_some.mp hsig
    rcases armed_eq_some hsig hput with hold | ⟨live, hlive, habove, rfl⟩
    · obtain ⟨date, armed, hdate, harmed, htime⟩ := hs.armed sig hold hput
      exact ⟨date, armed, hdate, harmed.mono hsub, htime⟩
    · exact ⟨_, row, hday, ⟨hrow, rfl, live, hlive, habove, rfl, rfl⟩, rfl⟩
  · -- the close breaks a bar that was armed at an earlier boundary
    intro trigger htrigger
    obtain ⟨sig, hsig, hput, hlt, hlow, rfl⟩ := fires_eq_some htrigger
    obtain ⟨date, armed, hdate, harmed, htime⟩ := hs.armed sig hsig hput
    obtain rfl := Option.some.inj (hday.symm.trans hdate)
    exact ⟨rfl, Past.turn hnext h (.inr rfl), _, hday, armed, sig.low, harmed.mono hsub, row,
      hrow, rfl, rfl, rfl, htime ▸ hlt, hlow⟩

/-- A boundary passed over keeps it sound. -/
theorem Sound.pass (hs : s.Sound) (hdue : s.due now = some closeT)
    (h : Turn feed s closeT s') (hprocessed : s'.processed = s.processed)
    (hema : s'.ema = s.ema) (hsig : s'.signalBar = s.signalBar)
    (htrigger : s'.entryTrigger = s.entryTrigger) : s'.Sound := by
  obtain ⟨hnext, -, -⟩ := due_eq_some_iff.mp hdue
  refine ⟨hs.session.turn hdue h, ?_, ?_, ?_, ?_, ?_⟩
  · rw [hprocessed]
    exact hs.ordered
  · rw [hprocessed]
    exact hs.averages
  · rw [hprocessed, hema, h.day]
    exact hs.averaged
  · rw [hprocessed, hsig, h.day]
    exact hs.armed
  · rw [hprocessed, htrigger, h.day]
    intro trigger ht
    obtain ⟨hput, hpast, hbreak⟩ := hs.trigger trigger ht
    exact ⟨hput, Past.turn hnext h (.inl hpast), hbreak⟩

/-- **Every turn keeps the market sound.** -/
theorem Sound.turn (hfeed : feed.Ordered) (hs : s.Sound) (hdue : s.due now = some closeT)
    (h : Turn feed s closeT s') : s'.Sound := by
  cases h with
  | live bar hbar =>
    refine hs.processClose hdue _ _ (fun live hlive => ?_) (.live bar hbar)
    obtain rfl := Option.some.inj hlive
    unfold liveBar at hbar
    cases hbars : feed.completedBars closeT with
    | none =>
      rw [hbars] at hbar
      cases hbar
    | some bars =>
      rw [hbars] at hbar
      exact build5minBarLive_le (hfeed closeT bars hbars) hbar
  | history close hbar hclose =>
    exact hs.processClose hdue _ _ (by intro _ h; cases h) (.history close hbar hclose)
  | skipped hbar hfailed => exact hs.pass hdue (.skipped hbar hfailed) rfl rfl rfl rfl
  | failed hbar hclose => exact hs.pass hdue (.failed hbar hclose) rfl rfl rfl rfl

/-- A turn forgets nothing that was processed. -/
theorem Turn.processed_subset (h : Turn feed s closeT s') : s.processed ⊆ s'.processed := by
  cases h with
  | live | history => exact List.subset_append_left _ _
  | skipped | failed => exact List.Subset.refl _

end MarketState

/-! ## What was emitted -/

/-- **The evidence for a signal.** -/
structure EmaSignal.Evident (clock : NyClock) (rows : List ProcessedBar) (signal : EmaSignal) :
    Prop where
  right : signal.signal.contract.right = .put
  breakdown : Breakdown rows (clock.wall signal.timestamp).date signal.entry5minCloseTime
    signal.underlyingAtEntry signal.stopUnderlying

/-- The signals of a strategy on a date. -/
def signalsOn (clock : NyClock) (emitted : List EmaSignal) (sid : StrategyId) (date : ℤ) :
    List EmaSignal :=
  emitted.filter fun g => g.signal.strategyId = sid && (clock.wall g.timestamp).date = date

/-- **What the market has to do with the signals**: their trigger bars were
processed, and where one of them still stands, it is consumed. -/
structure MarketLedger (clock : NyClock) (emitted : List EmaSignal)
    (consumed : StrategyId → Option Time) (m : MarketState) : Prop where
  sound : m.Sound
  evident : ∀ g ∈ emitted, g.Evident clock m.processed
  past : ∀ g ∈ emitted, m.Past g.entry5minCloseTime
  consumed : ∀ trigger, m.entryTrigger = some trigger → ∀ g ∈ emitted,
    g.entry5minCloseTime = trigger.barTime → consumed g.signal.strategyId = some trigger.barTime

/-- **The ledger of the provider**: the trades of the day are counted. -/
structure SignalLedger (clock : NyClock) (emitted : List EmaSignal) (now : Time)
    (p : XSP5EMAStrategyProvider) : Prop where
  market : MarketLedger clock emitted p.consumedBarTime p.toMarketState
  day : ∀ date, p.day = some date → date ≤ now.date
  counted : ∀ sid date, p.day = some date →
    (signalsOn clock emitted sid date).length ≤ p.tradesToday sid

variable {clock : NyClock} {emitted : List EmaSignal} {now : Time} {feed : MarketFeed}
  {p p' : XSP5EMAStrategyProvider}

theorem signalsOn_append (emitted new : List EmaSignal) (sid : StrategyId) (date : ℤ) :
    signalsOn clock (emitted ++ new) sid date
      = signalsOn clock emitted sid date ++ signalsOn clock new sid date :=
  List.filter_append ..

theorem mem_signalsOn {sid : StrategyId} {date : ℤ} {g : EmaSignal} :
    g ∈ signalsOn clock emitted sid date
      ↔ g ∈ emitted ∧ g.signal.strategyId = sid ∧ (clock.wall g.timestamp).date = date := by
  simp [signalsOn]

/-- Where none of the signals are of the strategy and the date. -/
theorem signalsOn_eq_nil {sid : StrategyId} {date : ℤ}
    (h : ∀ g ∈ emitted, ¬ (g.signal.strategyId = sid ∧ (clock.wall g.timestamp).date = date)) :
    signalsOn clock emitted sid date = [] :=
  List.eq_nil_iff_forall_not_mem.mpr fun g hg => h g (mem_signalsOn.mp hg).1 (mem_signalsOn.mp hg).2

/-- One more signal counts for its strategy and its date, and for no other. -/
theorem signalsOn_snoc (emitted : List EmaSignal) (g : EmaSignal) (sid : StrategyId) (date : ℤ) :
    signalsOn clock (emitted ++ [g]) sid date = signalsOn clock emitted sid date
      ∨ g.signal.strategyId = sid ∧ (clock.wall g.timestamp).date = date
        ∧ signalsOn clock (emitted ++ [g]) sid date = signalsOn clock emitted sid date ++ [g] := by
  rw [signalsOn_append]
  by_cases hmine : g.signal.strategyId = sid ∧ (clock.wall g.timestamp).date = date
  · refine .inr ⟨hmine.1, hmine.2, congrArg (signalsOn clock emitted sid date ++ ·) ?_⟩
    simp [signalsOn, hmine.1, hmine.2]
  · have hnone : signalsOn clock [g] sid date = [] :=
      signalsOn_eq_nil fun g' hg' => List.mem_singleton.mp hg' ▸ hmine
    rw [hnone, List.append_nil]
    exact .inl rfl

/-- A signal's trigger bar is of the date of the signal. -/
theorem EmaSignal.Evident.date_eq {rows : List ProcessedBar} {g : EmaSignal}
    (h : g.Evident clock rows) :
    g.entry5minCloseTime.date = (clock.wall g.timestamp).date := by
  obtain ⟨armed, low, harmed, trigger, htrigger, -, -, hdate, -⟩ := h.breakdown
  exact hdate

/-- **Every turn keeps the ledger**: a new trigger is of a boundary after
those of the signals. -/
theorem MarketLedger.turn {consumed : StrategyId → Option Time} {m m' : MarketState}
    {closeT : Time} (hfeed : feed.Ordered) (hm : MarketLedger clock emitted consumed m)
    (hdue : m.due now = some closeT) (h : MarketState.Turn feed m closeT m') :
    MarketLedger clock emitted consumed m' := by
  obtain ⟨hnext, -, -⟩ := MarketState.due_eq_some_iff.mp hdue
  refine ⟨hm.sound.turn hfeed hdue h, fun g hg => ?_, fun g hg => ?_, ?_⟩
  · obtain ⟨hput, hbreak⟩ := hm.evident g hg
    exact ⟨hput, hbreak.mono h.processed_subset⟩
  · exact MarketState.Past.turn hnext h (.inl (hm.past g hg))
  · -- a new trigger is of this boundary, and the signals are of earlier ones
    have hnew : ∀ close bar trigger,
        (m.processClose closeT close bar).entryTrigger = some trigger → ∀ g ∈ emitted,
          g.entry5minCloseTime = trigger.barTime →
            consumed g.signal.strategyId = some trigger.barTime := by
      intro close bar trigger htrigger g hg htime
      obtain ⟨sig, -, -, -, -, rfl⟩ := MarketState.fires_eq_some htrigger
      obtain ⟨next, hnext', hlt⟩ := hm.past g hg
      obtain rfl := Option.some.inj (hnext.symm.trans hnext')
      exact absurd htime hlt.ne
    cases h with
    | live | history => exact hnew _ _
    | skipped | failed => exact hm.consumed

/-- The dates of the signals are not after the day of the market. -/
theorem MarketLedger.date_le {consumed : StrategyId → Option Time} {m : MarketState}
    (hm : MarketLedger clock emitted consumed m) {date : ℤ} (hday : m.day = some date)
    {g : EmaSignal} (hg : g ∈ emitted) : (clock.wall g.timestamp).date ≤ date := by
  obtain ⟨next, hnext, hlt⟩ := hm.past g hg
  obtain ⟨hdate, -, -⟩ := hm.sound.session next hnext
  obtain rfl := Option.some.inj (hday.symm.trans hdate)
  rw [← (hm.evident g hg).date_eq]
  exact Time.date_mono hlt.le

/-- **A new day begins a new count.** -/
theorem SignalLedger.onDay (h : SignalLedger clock emitted now p) :
    SignalLedger clock emitted now (p.onDay now.date) := by
  unfold XSP5EMAStrategyProvider.onDay
  split_ifs with hne
  · -- the signals are of days before
    have hbefore : ∀ g ∈ emitted, ∃ next, p.next5minClose = some next
        ∧ g.entry5minCloseTime < next ∧ next.date < now.date := by
      intro g hg
      obtain ⟨next, hnext, hlt⟩ := h.market.past g hg
      obtain ⟨hdate, -, -⟩ := h.market.sound.session next hnext
      refine ⟨next, hnext, hlt, lt_of_le_of_ne (h.day _ hdate) fun heq => hne ?_⟩
      rw [hdate, heq]
    refine ⟨⟨h.market.sound.reset _, h.market.evident, fun g hg => ?_, ?_⟩, ?_, ?_⟩
    · obtain ⟨next, -, hlt, hdate⟩ := hbefore g hg
      refine ⟨_, rfl, hlt.trans (Time.lt_of_date_lt ?_)⟩
      rwa [Time.date_combine (by norm_num [hhmm]) (by norm_num [hhmm])]
    · intro _ htrigger
      cases htrigger
    · intro date hdate
      exact (Option.some.inj hdate).ge
    · intro sid date hdate
      obtain rfl := Option.some.inj hdate
      rw [signalsOn_eq_nil]
      · exact le_rfl
      · rintro g hg ⟨-, hdate⟩
        obtain ⟨next, hnext, -, hlt⟩ := hbefore g hg
        obtain ⟨hday, -, -⟩ := h.market.sound.session next hnext
        exact absurd (h.market.date_le hday hg) (not_le.mpr (hdate ▸ hlt))
  · exact h

/-- **An update keeps the ledger.** -/
theorem SignalLedger.update (hfeed : feed.Ordered) (h : SignalLedger clock emitted now p) :
    SignalLedger clock emitted now (p.updateMarketState feed now) := by
  have hday := h.onDay
  have hloop : MarketLedger clock emitted (p.onDay now.date).consumedBarTime
        (p.updateMarketState feed now).toMarketState
      ∧ (p.updateMarketState feed now).day = (p.onDay now.date).day :=
    MarketState.updateLoop_invariant
      (I := fun m => MarketLedger clock emitted (p.onDay now.date).consumedBarTime m
        ∧ m.day = (p.onDay now.date).day)
      (fun m closeT m' hm hdue hturn => ⟨hm.1.turn hfeed hdue hturn, hturn.day.trans hm.2⟩)
      _ _ ⟨hday.market, rfl⟩
  refine ⟨hloop.1, fun date hdate => hday.day date (hloop.2.symm.trans hdate), ?_⟩
  exact fun sid date hdate => hday.counted sid date (hloop.2.symm.trans hdate)

/-- What leaves the market and the counts keeps the ledger. -/
theorem SignalLedger.congr (h : SignalLedger clock emitted now p)
    (hsame : XSP5EMAStrategyProvider.SameMarket p p') : SignalLedger clock emitted now p' := by
  obtain ⟨hmarket, htrades, hconsumed⟩ := hsame
  refine ⟨?_, ?_, ?_⟩
  · rw [hconsumed, hmarket]
    exact h.market
  · rw [hmarket]
    exact h.day
  · rw [hmarket, htrades]
    exact h.counted

/-- Time passes over the ledger. -/
theorem SignalLedger.later {later : Time} (h : SignalLedger clock emitted now p)
    (hle : now.date ≤ later.date) : SignalLedger clock emitted later p :=
  ⟨h.market, fun date hdate => (h.day date hdate).trans hle, h.counted⟩

/-- **A signal of the trigger that stands** has the trigger's evidence, and is
consumed by its strategy. -/
theorem MarketLedger.consume {consumed : StrategyId → Option Time} {m : MarketState}
    {sid : StrategyId} {trigger : EntryTrigger} {currentTime : Time} {signals : List EmaSignal}
    (hm : MarketLedger clock emitted consumed m)
    (hday : m.day = some (clock.wall currentTime).date)
    (htrigger : m.entryTrigger = some trigger)
    (hof : ∀ g ∈ signals, g.Of sid trigger currentTime) :
    MarketLedger clock (emitted ++ signals)
      (Function.update consumed sid (some trigger.barTime)) m := by
  obtain ⟨hput, hpast, date, hdate, hbreak⟩ := hm.sound.trigger trigger htrigger
  obtain rfl := Option.some.inj (hday.symm.trans hdate)
  refine ⟨hm.sound, fun g hg => ?_, fun g hg => ?_, ?_⟩
  · rcases List.mem_append.mp hg with hold | hnew
    · exact hm.evident g hold
    · obtain ⟨-, hright, htime, hstop, hbar, hentry⟩ := hof g hnew
      refine ⟨hright.trans hput, ?_⟩
      rw [htime, hbar, hentry, hstop]
      exact hbreak
  · rcases List.mem_append.mp hg with hold | hnew
    · exact hm.past g hold
    · rw [(hof g hnew).entry5minCloseTime]
      exact hpast
  · intro standing hstanding g hg htime
    obtain rfl := Option.some.inj (htrigger.symm.trans hstanding)
    -- a signal of the trigger is consumed now, an older one was before
    rcases List.mem_append.mp hg with hold | hnew
    · by_cases hsid : g.signal.strategyId = sid
      · rw [hsid, Function.update_self]
      · rw [Function.update_of_ne hsid]
        exact hm.consumed trigger htrigger g hold htime
    · rw [(hof g hnew).strategyId, Function.update_self]

/-- **A trigger that is consumed enters the ledger**, with the signal, if one
is emitted. -/
theorem SignalLedger.consume {sid : StrategyId} {trigger : EntryTrigger} {currentTime : Time}
    {signals : List EmaSignal} (h : SignalLedger clock emitted (clock.wall currentTime) p)
    (hday : p.day = some (clock.wall currentTime).date)
    (htrigger : p.entryTrigger = some trigger)
    (hof : ∀ g ∈ signals, g.Of sid trigger currentTime) (hone : signals.length ≤ 1) :
    SignalLedger clock (emitted ++ signals) (clock.wall currentTime) (p.consume sid trigger) := by
  refine ⟨h.market.consume hday htrigger hof, h.day, fun other date hdate => ?_⟩
  show _ ≤ Function.update p.tradesToday sid (p.tradesToday sid + 1) other
  have hcounted := h.counted other date hdate
  rw [signalsOn_append, List.length_append]
  by_cases hsid : other = sid
  · subst hsid
    rw [Function.update_self]
    exact add_le_add hcounted ((List.length_filter_le _ _).trans hone)
  · have hnone : signalsOn clock signals other date = [] := signalsOn_eq_nil fun g hg hmine =>
      hsid (hmine.1.symm.trans (hof g hg).strategyId)
    rw [Function.update_of_ne hsid, hnone]
    exact hcounted

namespace EmaSession

variable {s s' : EmaSession} {l : Label}

/-- **The signals of a run are disciplined.** -/
structure Disciplined (clock : NyClock) (s : EmaSession) : Prop where
  /-- A day has no more signals than are configured. -/
  trades : ∀ sid params, strategyParams sid = some params → ∀ date,
    (signalsOn clock s.emitted sid date).length ≤ params.maxTradesPerDay
  /-- A trigger bar has one. -/
  once : ∀ sid date,
    ((signalsOn clock s.emitted sid date).map (·.entry5minCloseTime)).Nodup
  /-- Every signal is a put with a breakdown behind it. -/
  evident : ∀ g ∈ s.emitted, g.Evident clock s.provider.processed
  /-- The stop is not below the entry. -/
  stops : ∀ g ∈ s.emitted, g.underlyingAtEntry ≤ g.stopUnderlying
  /-- The average is between the closes of the day. -/
  averaged : ∀ ema, s.provider.ema = some ema →
    ∃ date, s.provider.day = some date ∧ Averaged s.provider.processed date ema
  /-- … and it was after every boundary. -/
  averages : ∀ rows row, rows ++ [row] <+: s.provider.processed →
    Averaged (rows ++ [row]) row.closeTime.date row.ema

/-- Every bar that the call sees is in order. -/
def Label.Ordered (l : Label) : Prop := l.call.2.2.Ordered

/-- **What is kept along a run.** -/
structure Kept (clock : NyClock) (s : EmaSession) : Prop where
  ledger : SignalLedger clock s.emitted (clock.wall s.time) s.provider
  trades : ∀ sid params, strategyParams sid = some params → ∀ date,
    (signalsOn clock s.emitted sid date).length ≤ params.maxTradesPerDay
  once : ∀ sid date,
    ((signalsOn clock s.emitted sid date).map (·.entry5minCloseTime)).Nodup

theorem kept_initial (time : Time) : (initial time).Kept clock where
  ledger :=
    { market :=
        { sound := MarketState.sound_initial
          evident := fun _ h => by cases h
          past := fun _ h => by cases h
          consumed := fun _ h => by cases h }
      day := fun _ h => by cases h
      counted := fun _ _ h => by cases h }
  trades := fun _ _ _ _ => Nat.zero_le _
  once := fun _ _ => List.nodup_nil

/-- **What is kept makes the signals disciplined.** -/
theorem Kept.disciplined (h : s.Kept clock) : s.Disciplined clock where
  trades := h.trades
  once := h.once
  evident := h.ledger.market.evident
  stops g hg := by
    obtain ⟨armed, low, ⟨hmem, -, bar, hbar, -, rfl, hstop⟩, -, -, -, -, -, -, hlow⟩ :=
      (h.ledger.market.evident g hg).breakdown
    calc g.underlyingAtEntry ≤ bar.low := hlow
      _ ≤ bar.high := h.ledger.market.sound.ordered armed hmem bar hbar
      _ = g.stopUnderlying := hstop
  averaged := h.ledger.market.sound.averaged
  averages := h.ledger.market.sound.averages

/-- **A signal of a trigger not consumed** is within the count, and the only
one of its trigger bar. -/
theorem Kept.snoc {sid : StrategyId} {params : EmaParams} {trigger : EntryTrigger}
    {u : XSP5EMAStrategyProvider} {signal : EmaSignal} (hs : s.Kept clock)
    (hledger : SignalLedger clock s.emitted (clock.wall s'.time) u)
    (hday : u.day = some (clock.wall s'.time).date)
    (hparams : strategyParams sid = some params)
    (hleft : u.tradesToday sid < params.maxTradesPerDay)
    (htrigger : u.entryTrigger = some trigger)
    (hconsumed : u.consumedBarTime sid ≠ some trigger.barTime)
    (hof : signal.Of sid trigger s'.time) :
    (∀ other params', strategyParams other = some params' → ∀ date,
        (signalsOn clock (s.emitted ++ [signal]) other date).length ≤ params'.maxTradesPerDay)
      ∧ ∀ other date, ((signalsOn clock (s.emitted ++ [signal]) other date).map
        (·.entry5minCloseTime)).Nodup := by
  refine ⟨fun other params' hparams' date => ?_, fun other date => ?_⟩
  · rcases signalsOn_snoc s.emitted signal other date with hsame | ⟨hsid, hdate, hmore⟩
    · rw [hsame]
      exact hs.trades other params' hparams' date
    · obtain rfl : sid = other := hof.strategyId.symm.trans hsid
      obtain rfl := Option.some.inj (hparams.symm.trans hparams')
      rw [hof.timestamp] at hdate
      rw [hmore, List.length_append, List.length_singleton]
      -- the count of the day was below the limit, or the poll would not enter
      exact (Nat.succ_le_succ (hledger.counted sid date (hdate ▸ hday))).trans hleft
  · rcases signalsOn_snoc s.emitted signal other date with hsame | ⟨hsid, -, hmore⟩
    · rw [hsame]
      exact hs.once other date
    · obtain rfl : sid = other := hof.strategyId.symm.trans hsid
      rw [hmore, List.map_append, List.map_singleton]
      refine (hs.once sid date).append (List.nodup_singleton _) ?_
      rw [List.disjoint_singleton]
      intro hmem
      obtain ⟨g, hg, htime⟩ := List.mem_map.mp hmem
      obtain ⟨hg, hsid', -⟩ := mem_signalsOn.mp hg
      rw [hof.entry5minCloseTime] at htime
      -- an earlier signal of this trigger bar would have had it consumed
      exact hconsumed (hsid' ▸ hledger.market.consumed trigger htrigger g hg htime)

/-- **An entry keeps what is kept.** -/
theorem Kept.enter {sid : StrategyId} {params : EmaParams} {trigger : EntryTrigger}
    {u : XSP5EMAStrategyProvider} {positions : Option (List Position)}
    {signals : List EmaSignal} (hs : s.Kept clock)
    (hledger : SignalLedger clock s.emitted (clock.wall s'.time) u)
    (hday : u.day = some (clock.wall s'.time).date)
    (hparams : strategyParams sid = some params)
    (hmay : u.mayEnter sid params (clock.wall s'.time) positions = true)
    (htrigger : u.entryTrigger = some trigger)
    (hconsumed : u.consumedBarTime sid ≠ some trigger.barTime)
    (hs' : s'.provider = u.consume sid trigger) (hemitted : s'.emitted = s.emitted ++ signals)
    (hsignals : signals = []
      ∨ ∃ signal : EmaSignal, signals = [signal] ∧ signal.Of sid trigger s'.time) :
    s'.Kept clock := by
  rcases hsignals with rfl | ⟨signal, rfl, hof⟩
  · -- the signal was refused, but the trigger is consumed
    have hledger' : SignalLedger clock (s.emitted ++ []) _ (u.consume sid trigger) :=
      hledger.consume hday htrigger (by simp) (Nat.zero_le 1)
    rw [← hs', ← hemitted] at hledger'
    rw [List.append_nil] at hemitted
    exact ⟨hledger', hemitted ▸ hs.trades, hemitted ▸ hs.once⟩
  · have hleft : u.tradesToday sid < params.maxTradesPerDay := by
      simp only [XSP5EMAStrategyProvider.mayEnter, Bool.and_eq_true, decide_eq_true_eq] at hmay
      exact hmay.1.2
    have hledger' : SignalLedger clock (s.emitted ++ [signal]) _ (u.consume sid trigger) :=
      hledger.consume hday htrigger (by simpa using hof) le_rfl
    obtain ⟨htrades, honce⟩ := hs.snoc hledger hday hparams hleft htrigger hconsumed hof
    rw [← hs', ← hemitted] at hledger'
    rw [← hemitted] at htrades honce
    exact ⟨hledger', htrades, honce⟩

/-- **Every call keeps it.** -/
theorem Kept.step (hs : s.Kept clock) (h : s.step clock l = some s') (hbars : l.Ordered) :
    s'.Kept clock := by
  obtain ⟨hle, sid, feed, hcall, hcases⟩ := step_cases h
  have hfeed : feed.Ordered := by
    rw [Label.Ordered, hcall] at hbars
    exact hbars
  have hlater := hs.ledger.later (clock.date_le _ _ hle)
  have hupdate := hlater.update hfeed
  cases hcases with
  | idle hsame hemitted =>
    refine ⟨?_, ?_, ?_⟩ <;> rw [hemitted]
    · exact hlater.congr hsame
    · exact hs.trades
    · exact hs.once
  | updates hknown hsame hemitted =>
    refine ⟨?_, ?_, ?_⟩ <;> rw [hemitted]
    · exact hupdate.congr hsame
    · exact hs.trades
    · exact hs.once
  | enters params trigger u positions signals hparams hu hmay htrigger hconsumed hs' hemitted
      hsignals =>
    have hday : u.day = some (clock.wall s'.time).date := by
      rw [hu.market]
      exact XSP5EMAStrategyProvider.updateMarketState_day _
    exact hs.enter (hupdate.congr hu) hday hparams hmay htrigger hconsumed hs' hemitted hsignals

/-- **The signals of every run over ordered bars are disciplined.** -/
theorem disciplined_of_ordered (clock : NyClock) (time : Time) (ls : List Label)
    (hbars : (machine clock).Along (fun _ l _ => l.Ordered) (initial time) ls) :
    (machine clock).Throughout (Disciplined clock) (initial time) ls := by
  rw [Machine.throughout_iff_along]
  exact ⟨(kept_initial time).disciplined,
    Machine.along_of_step (J := Kept clock) (fun _ _ _ hs h hl => hs.step h hl)
      (fun _ _ _ hs h hl => (hs.step h hl).disciplined) (kept_initial time) hbars⟩

/-- The bars of the sample run are in order. -/
theorem disciplined_entersAtOnce :
    (machine sampleClock).Throughout (Disciplined sampleClock) (initial 0) entersAtOnce :=
  disciplined_of_ordered sampleClock 0 entersAtOnce (by
    refine fun t ht => ⟨?_, trivial⟩
    rintro _ _ ⟨⟩ bar hbar
    simp only [List.mem_cons, List.not_mem_nil, or_false] at hbar
    rcases hbar with rfl | rfl | rfl <;> norm_num [OhlcBar.Ordered, minuteBar])

/-- No live bars, and a history that closes at `600.57`. -/
def unchanged : MarketFeed where
  completedBars _ := none
  historicalClose _ := some (binary64 (60057 / 100))

/-- **The average is not always between the closes**: that of two closes of
`600.57` is below both. -/
theorem not_between :
    ¬ ∀ (clock : NyClock) (time : Time) (ls : List Label),
      (machine clock).Along (fun _ l _ => l.Ordered) (initial time) ls →
      (machine clock).Throughout (fun s => ∀ ema, s.provider.ema = some ema →
        ∃ date, s.provider.day = some date
          ∧ ∃ lo ∈ s.provider.processed, ∃ hi ∈ s.provider.processed,
            lo.closeTime.date = date ∧ hi.closeTime.date = date
              ∧ lo.closePrice ≤ ema ∧ ema ≤ hi.closePrice) (initial time) ls := by
  intro h
  have hrun : ((machine sampleClock).run (initial 0) [samplePoll 34801 unchanged []]).any
      (fun s => s.provider.ema.any fun ema =>
        s.provider.processed.all fun row => ema < row.closePrice) = true := by decide +kernel
  obtain ⟨s, hs, hema⟩ := (Option.any_eq_true _ _).mp hrun
  obtain ⟨ema, hema, hbelow⟩ := (Option.any_eq_true _ _).mp hema
  have hordered : (machine sampleClock).Along (fun _ l _ => l.Ordered) (initial 0)
      [samplePoll 34801 unchanged []] := fun _ _ => ⟨fun _ _ hbars => (by cases hbars), trivial⟩
  obtain ⟨date, -, lo, hlo, hi, -, -, -, hle, -⟩ :=
    h sampleClock 0 _ hordered _ s List.prefix_rfl hs ema hema
  exact absurd (of_decide_eq_true (List.all_eq_true.mp hbelow lo hlo)) (not_lt.mpr hle)

end EmaSession
