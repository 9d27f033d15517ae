import ExecutionSystem.Breakout
import ExecutionSystem.Sampling

/-!
# Live signals and replayed signals

The shadow replay is the acceptance test of the live system: the bars that the
builder recorded are run through the rules of the backtest, and the signal that
comes out is held against what the strategy did. The two decide by the same
comparison, but not on the same bars. The replay walks through the bars of the
day from the minute of the scan on; a poll sees the last bar completed, whatever
its minute is, or a live quote where there is no bar, and of the bars that
complete between two polls it sees the last.

In a run whose bars are all recorded the first live signal of a date is the one
of the replay – in its bar, its right and its strike – exactly when the bar of
the replay is looked at, and no poll before has found a move in a price that is
not of a bar of the date from the scan on (`BreakoutSession.agrees_iff_watched`).
-/

/-! ## The scan of the replay -/

/-- A bar is of the time of the day that is scanned. -/
def ReplayBar.Scanned (scanFrom : Time) (bar : ReplayBar) : Prop :=
  scanFrom ≤ bar.minuteNy.timeOfDay

instance (scanFrom : Time) (bar : ReplayBar) : Decidable (bar.Scanned scanFrom) :=
  inferInstanceAs (Decidable (_ ≤ _))

/-- **The scan finds the first bar that has moved**, of those it looks at; with a
reference of zero it must not look at any. -/
theorem scanSignal_eq_ok {ref triggerPct : ℚ} {scanFrom : Time} {bars : List ReplayBar}
    {found : Option (ReplayBar × OptionRight)}
    (h : scanSignal ref triggerPct scanFrom bars = .ok found) :
    found = (bars.filter (·.Scanned scanFrom)).findSome? fun bar =>
      (breakoutRight bar.close ref triggerPct).map (bar, ·) := by
  induction bars with
  | nil => exact (Except.ok.inj h).symm
  | cons bar bars ih =>
    rw [scanSignal] at h
    by_cases hscan : bar.Scanned scanFrom
    · rw [if_neg (not_lt.mpr hscan)] at h
      rw [List.filter_cons, if_pos (decide_eq_true hscan), List.findSome?_cons]
      split_ifs at h with hzero hup hdown
      · simp only [breakoutRight, if_pos hup, Option.map_some]
        exact (Except.ok.inj h).symm
      · simp only [breakoutRight, if_neg hup, if_pos hdown, Option.map_some]
        exact (Except.ok.inj h).symm
      · simp only [breakoutRight, if_neg hup, if_neg hdown, Option.map_none]
        exact ih h
    · rw [if_pos (not_le.mp hscan)] at h
      rw [List.filter_cons, if_neg (by simpa using hscan)]
      exact ih h

/-- **The signal of the replay** is the first of the bars scanned that has moved
from the reference. -/
theorem breakoutSignal_eq_ok {bars : List ReplayBar} {hour minute : ℕ} {triggerPct ref : ℚ}
    {found : Option (ReplayBar × OptionRight)} (href : referencePrice bars = some ref)
    (h : breakoutSignal bars hour minute triggerPct = .ok found) :
    found = (bars.filter (·.Scanned (hhmm hour minute))).findSome? fun bar =>
      (breakoutRight bar.close ref triggerPct).map (bar, ·) := by
  rw [breakoutSignal, href] at h
  split_ifs at h
  exact scanSignal_eq_ok h

/-- The bar of a look, if it is at one. -/
def Look.bar? (look : Look) : Option OhlcBar :=
  match look.source with
  | .barClose bar => some bar
  | .quote _ => none

/-- The signal of a look, where it comes to one. -/
def Look.signal? (floatRepr : Price → String) (look : Look) : Option BreakoutSignal :=
  (look.outcome floatRepr).toOption.join

/-- The look is at the bar of the replayed signal. -/
def Look.AtReplayed (look : Look) (replay : Option (ReplayBar × OptionRight)) : Prop :=
  ∃ bar right, replay = some (bar, right) ∧ look.bar?.map OhlcBar.replayBar = some bar

/-- The look is at a bar of its date, from the scan on. -/
def Look.FromScan (look : Look) (scanFrom : ℤ) : Prop :=
  ∃ bar ∈ look.bar?, NyZone.date bar.minuteStartNy = look.date
    ∧ scanFrom ≤ bar.minuteStartNy % 1440

/-- There is a reference unless there are no bars. -/
theorem referencePrice_eq_none {bars : List ReplayBar} (h : referencePrice bars = none) :
    bars = [] := by
  cases bars with
  | nil => rfl
  | cons bar bars => simp [referencePrice] at h

namespace BreakoutSession

variable {py : Builtins} {zone : NyZone} {variant : BreakoutVariant} {s t : BreakoutSession}

/-! ## What a session records -/

/-- A label whose prices are read back, and whose writes succeed. -/
def Label.Records (py : Builtins) : Label → Prop
  | .bars l => l.Keeps py ∧ l.ok = true
  | .poll p => p.writeOk = true

/-- A tick that starts a bar where there is none is later than the last bar
completed. -/
def InOrder (zone : NyZone) (s : BreakoutSession) (l : Label) : Prop :=
  ∀ k, l = .bars k → s.recorder.feed.InOrder zone.minute k.feed

/-- A read starts no bar. -/
theorem inOrder_latest (nyMinute : Time → ℤ) (feed : BarFeed) (symbol : String) (now : Time) :
    feed.InOrder nyMinute (.latest symbol now) := by
  rintro _ _ _ ⟨⟩

/-- **A session runs its recorder**: by the labels of its bars, and by the reads
of its polls. -/
theorem exists_recorder_run {ls : List Label} (hrecords : ∀ l ∈ ls, l.Records py)
    (horder : (machine py zone variant).Along (fun s l _ => s.InOrder zone l) s ls)
    (hrun : (machine py zone variant).run s ls = some t) :
    ∃ ks : List BarRecorder.Label, (∀ k ∈ ks, k.Keeps py) ∧ (∀ k ∈ ks, k.ok = true)
      ∧ (BarFeed.machine zone.minute).Along (fun feed k _ => feed.InOrder zone.minute k)
        s.recorder.feed (ks.map BarRecorder.Label.feed)
      ∧ (BarRecorder.machine py zone).run s.recorder ks = some t.recorder := by
  induction ls generalizing s with
  | nil =>
    obtain rfl := Option.some.inj hrun
    exact ⟨[], by simp, by simp, trivial, rfl⟩
  | cons l ls ih =>
    obtain ⟨hl, hls⟩ := List.forall_mem_cons.mp hrecords
    obtain ⟨u, hu, hrest⟩ := Option.bind_eq_some_iff.mp hrun
    obtain ⟨hin, horder'⟩ := horder u hu
    obtain ⟨ks, hkeeps, hok, halong, hks⟩ := ih hls horder' hrest
    -- one more label of the recorder, or none
    have hcons : ∀ k : BarRecorder.Label, k.Keeps py → k.ok = true →
        s.recorder.feed.InOrder zone.minute k.feed → s.recorder.step py zone k = some u.recorder →
        ∃ ks : List BarRecorder.Label, (∀ k ∈ ks, k.Keeps py) ∧ (∀ k ∈ ks, k.ok = true)
          ∧ (BarFeed.machine zone.minute).Along (fun feed k _ => feed.InOrder zone.minute k)
            s.recorder.feed (ks.map BarRecorder.Label.feed)
          ∧ (BarRecorder.machine py zone).run s.recorder ks = some t.recorder := by
      intro k hkeep hk hkin hstep
      refine ⟨k :: ks, List.forall_mem_cons.mpr ⟨hkeep, hkeeps⟩,
        List.forall_mem_cons.mpr ⟨hk, hok⟩, ?_, ?_⟩
      · rw [List.map_cons]
        exact (Machine.along_cons_some (BarRecorder.feed_step hstep)).mpr ⟨hkin, halong⟩
      · exact Option.bind_eq_some_iff.mpr ⟨u.recorder, hstep, hks⟩
    cases l with
    | bars k =>
      obtain ⟨recorder, hstep, rfl⟩ := Option.map_eq_some_iff.mp hu
      exact hcons k hl.1 hl.2 (hin k rfl) hstep
    | poll p =>
      have hreads : ReadsOnce py zone p s.recorder u.recorder := by
        obtain rfl := Option.some.inj hu
        cases polls py zone variant s p with
        | stops recorder hreads hstate _ => rw [hstate]; exact hreads
        | looks recorder hreads _ _ _ _ _ _ _ _ _ hstate _ => rw [hstate]; exact hreads
      rcases hreads with hsame | ⟨now, hstep⟩
      · rw [hsame] at hks halong
        exact ⟨ks, hkeeps, hok, halong, hks⟩
      · exact hcons ⟨.latest "XSP" now, p.writeOk⟩ (by rintro _ _ _ ⟨⟩) hl
          (inOrder_latest _ _ _ _) hstep

/-! ## The order of the looks -/

/-- What is completed stays. -/
theorem persisted_grows {nyMinute : Time → ℤ} {feed feed' : BarFeed} {l : BarFeed.Label}
    (h : feed.step nyMinute l = some feed') (symbol : String) :
    feed.builder.persisted symbol <+: feed'.builder.persisted symbol := by
  have hroll : ∀ (b : BarBuilder) (other : String) (bar : OhlcBar),
      b.persisted symbol <+: (b.roll other bar).persisted symbol := by
    intro b other bar
    by_cases hsymbol : symbol = other
    · subst hsymbol
      simp [BarBuilder.roll]
    · simp [BarBuilder.roll, hsymbol]
  cases l with
  | tick other price ts =>
    obtain rfl := Option.some.inj h
    simp only [BarBuilder.onTick]
    split
    · exact List.prefix_rfl
    · split_ifs
      · exact List.prefix_rfl
      · split
        · exact List.prefix_rfl
        · split_ifs
          · exact hroll _ _ _
          · exact List.prefix_rfl
          · exact List.prefix_rfl
  | latest other now | recent other count now =>
    obtain rfl := Option.some.inj h
    simp only [BarBuilder.getLatestCompletedBar, BarBuilder.getCompletedBars,
      BarBuilder.maybeRollStaleWorking]
    split
    · exact List.prefix_rfl
    · split_ifs
      · exact hroll _ _ _
      · exact List.prefix_rfl

/-- The last of bars with increasing minutes has the greatest. -/
theorem minute_le_of_getLast? {bars : List OhlcBar}
    (h : bars.Pairwise fun bar next => bar.minuteStartNy < next.minuteStartNy) {bar last : OhlcBar}
    (hbar : bar ∈ bars) (hlast : last ∈ bars.getLast?) :
    bar.minuteStartNy ≤ last.minuteStartNy := by
  obtain ⟨init, rfl⟩ := List.getLast?_eq_some_iff.mp hlast
  rcases List.mem_append.mp hbar with hinit | hsame
  · exact ((List.pairwise_append.mp h).2.2 bar hinit last (List.mem_singleton_self _)).le
  · rw [List.mem_singleton.mp hsame]

/-- **Looks come in the order of the bars**, which are of those completed. -/
structure SeesInOrder (s : BreakoutSession) : Prop where
  increasing : ∀ symbol, s.recorder.feed.Increasing symbol
  retains : RetainsLast s.recorder
  completed : ∀ look ∈ s.looks, ∀ bar ∈ look.bar?,
    bar ∈ s.recorder.feed.builder.persisted "XSP"
  ordered : s.looks.Pairwise fun look next => ∀ bar ∈ look.bar?, ∀ bar' ∈ next.bar?,
    bar.minuteStartNy ≤ bar'.minuteStartNy

theorem seesInOrder_initial {maxCompleted : ℕ} (h : 0 < maxCompleted) (mock : Option Price) :
    (initial maxCompleted mock).SeesInOrder where
  increasing _ := List.Pairwise.nil
  retains := retainsLast_initial h
  completed := by rintro look ⟨⟩
  ordered := List.Pairwise.nil

/-- **A step keeps the looks in order.** -/
theorem SeesInOrder.step {l : Label} (hs : s.SeesInOrder) (hin : s.InOrder zone l)
    (h : s.step py zone variant l = some t) : t.SeesInOrder := by
  have hstep : ∀ {k : BarRecorder.Label} {r : BarRecorder},
      s.recorder.feed.InOrder zone.minute k.feed → s.recorder.step py zone k = some r →
      (∀ symbol, r.feed.Increasing symbol) ∧ RetainsLast r ∧ ∀ look ∈ s.looks, ∀ bar ∈ look.bar?,
        bar ∈ r.feed.builder.persisted "XSP" := by
    intro k r hkin hk
    have hfeed := BarRecorder.feed_step hk
    exact ⟨(BarFeed.increasing_step_iff hs.increasing hfeed).mpr hkin, hs.retains.step hk,
      fun look hlook bar hbar =>
        (persisted_grows hfeed _).subset (hs.completed look hlook bar hbar)⟩
  have hreads : ∀ {p : BreakoutPoll} {r : BarRecorder}, ReadsOnce py zone p s.recorder r →
      (∀ symbol, r.feed.Increasing symbol) ∧ RetainsLast r ∧ ∀ look ∈ s.looks, ∀ bar ∈ look.bar?,
        bar ∈ r.feed.builder.persisted "XSP" := by
    rintro p r (rfl | ⟨now, hk⟩)
    · exact ⟨hs.increasing, hs.retains, hs.completed⟩
    · exact hstep (inOrder_latest _ _ _ _) hk
  cases l with
  | bars k =>
    obtain ⟨recorder, hk, rfl⟩ := Option.map_eq_some_iff.mp h
    obtain ⟨hincreasing, hretains, hcompleted⟩ := hstep (hin k rfl) hk
    exact ⟨hincreasing, hretains, hcompleted, hs.ordered⟩
  | poll p =>
    obtain rfl := Option.some.inj h
    cases polls py zone variant s p with
    | stops recorder hread hstate _ =>
      obtain ⟨hincreasing, hretains, hcompleted⟩ := hreads hread
      rw [hstate]
      exact ⟨hincreasing, hretains, hcompleted, hs.ordered⟩
    | looks recorder hread params ref _ quote _ bar hbar source hsource hstate _ =>
      obtain ⟨hincreasing, hretains, hcompleted⟩ := hreads hread
      -- the bar looked at is the last one completed
      have hlast : ∀ b ∈ (p.look zone ref params.triggerPct source).bar?,
          b ∈ (recorder.feed.builder.persisted "XSP").getLast? := by
        intro b hb
        rw [← hretains.getLast?_eq]
        obtain ⟨b', hb', rfl⟩ | ⟨-, -, hquote⟩ := priceSource_eq_some hsource
        · exact hbar b (hb'.trans hb)
        · rw [BreakoutPoll.look, hquote] at hb
          cases hb
      have hpersisted := (List.pairwise_append.mp (hincreasing "XSP")).1
      rw [hstate]
      refine ⟨hincreasing, hretains, fun look hlook b hb => ?_, ?_⟩
      · rcases List.mem_append.mp hlook with hold | hnew
        · exact hcompleted look hold b hb
        · exact List.mem_of_getLast? (hlast b (List.mem_singleton.mp hnew ▸ hb))
      · refine List.pairwise_append.mpr ⟨hs.ordered, List.pairwise_singleton _ _, ?_⟩
        intro look hlook next hnext b hb b' hb'
        exact minute_le_of_getLast? hpersisted (hcompleted look hlook b hb)
          (hlast b' (List.mem_singleton.mp hnext ▸ hb'))

/-! ## Live and replayed signals -/

/-- The looks of a strategy on a date. -/
def looksOn (s : BreakoutSession) (sid : StrategyId) (date : CivilDate) : List Look :=
  s.looks.filter fun look => look.cfg.strategyId = sid && look.date = date

/-- **The first signal of a strategy on a date**, with its look. -/
def firstSignal (floatRepr : Price → String) (s : BreakoutSession) (sid : StrategyId)
    (date : CivilDate) : Option (Look × BreakoutSignal) :=
  Sampling.firstMove (Look.signal? floatRepr) (s.looksOn sid date)

/-- **The live signal is that of the replay**: there is neither, or it is on the
close of the same bar, for the same right and strike. -/
def Agrees (live : Option (Look × BreakoutSignal)) (replay : Option (ReplayBar × OptionRight)) :
    Prop :=
  match live, replay with
  | none, none => True
  | some (look, sig), some (bar, right) =>
    look.bar?.map OhlcBar.replayBar = some bar ∧ sig.signal.contract.right = right
      ∧ sig.signal.contract.strike = roundHalfEven bar.close
  | _, _ => False

/-- **The signal of the replay is watched**: there is a look at its bar, and no
look before has found a move in a price that is not of a bar of the date from the
scan on. -/
structure Watched (looks : List Look) (scanFrom : ℤ)
    (replay : Option (ReplayBar × OptionRight)) : Prop where
  seen : replay.isSome → ∃ look ∈ looks, look.AtReplayed replay
  fresh : ∀ before look after, looks = before ++ look :: after → look.right.isSome →
    ¬ look.FromScan scanFrom → ∃ earlier ∈ before, earlier.AtReplayed replay

/-! ## The signals of the looks -/

/-- A look that returns signals where it finds a move, for the contract at the
money. -/
theorem signal?_of_right {floatRepr : Price → String} {look : Look} {r : Option BreakoutSignal}
    (h : look.outcome floatRepr = .ok r) :
    (look.right = none → look.signal? floatRepr = none) ∧ ∀ right, look.right = some right →
      ∃ sig, look.signal? floatRepr = some sig ∧ sig.signal.contract.right = right
        ∧ sig.signal.contract.strike = roundHalfEven look.source.price := by
  have hsignal : look.signal? floatRepr = r := by
    rw [Look.signal?, h]
    cases r <;> rfl
  constructor
  · intro hright
    cases r with
    | none => exact hsignal
    | some sig =>
      obtain ⟨right, -, hright', -⟩ := outcome_eq_some h
      cases hright.symm.trans hright'
  · intro right hright
    cases r with
    | some sig =>
      obtain ⟨right', hstrike, hright', -, hsig⟩ := outcome_eq_some h
      obtain ⟨-, -, -, -, hcontract, -⟩ := signalFor_eq hsig
      cases hright.symm.trans hright'
      exact ⟨sig, hsignal, by rw [hcontract]; rfl, by rw [hcontract]; rfl⟩
    | none =>
      -- a look that finds a move returns its signal, or raises
      unfold Look.outcome at h
      rw [ite_eq_iff] at h
      obtain ⟨-, h⟩ | ⟨-, h⟩ := h
      · cases h
      simp only [hright] at h
      split_ifs at h with hstrike
      cases hsig : look.signalFor floatRepr (look.contract right hstrike) with
      | error e => rw [hsig] at h; cases h
      | ok sig => rw [hsig] at h; cases h

/-- **The first signal is on the first look that finds a move**, where no look
raises. -/
theorem firstSignal_eq {floatRepr : Price → String} {sid : StrategyId} {date : CivilDate}
    (hreturns : ∀ look ∈ s.looksOn sid date, ∃ r, look.outcome floatRepr = .ok r) :
    (Sampling.firstMove Look.right (s.looksOn sid date) = none →
      s.firstSignal floatRepr sid date = none)
    ∧ ∀ look right, Sampling.firstMove Look.right (s.looksOn sid date) = some (look, right) →
      ∃ sig, s.firstSignal floatRepr sid date = some (look, sig)
        ∧ sig.signal.contract.right = right
        ∧ sig.signal.contract.strike = roundHalfEven look.source.price := by
  constructor
  · intro hnone
    refine Sampling.firstMove_eq_none_iff.mpr fun look hlook => ?_
    obtain ⟨r, hr⟩ := hreturns look hlook
    exact (signal?_of_right hr).1 (Sampling.firstMove_eq_none_iff.mp hnone look hlook)
  · intro look right hfirst
    obtain ⟨as, bs, hsplit, hright, has⟩ := Sampling.firstMove_eq_some_iff.mp hfirst
    obtain ⟨r, hr⟩ := hreturns look (by rw [hsplit]; simp)
    obtain ⟨sig, hsig, hcontract⟩ := (signal?_of_right hr).2 right hright
    refine ⟨sig, Sampling.firstMove_eq_some_iff.mpr ⟨as, bs, hsplit, hsig, fun other hother => ?_⟩,
      hcontract⟩
    obtain ⟨r', hr'⟩ := hreturns other (by rw [hsplit]; exact List.mem_append_left _ hother)
    exact (signal?_of_right hr').1 (has other hother)

/-! ## The bars that are scanned -/

/-- The time of the day of a minute. -/
theorem timeOfDay_minuteStart (bar : OhlcBar) :
    bar.minuteStart.timeOfDay = (bar.minuteStartNy % 1440 : ℤ) * 60 := by
  have hdate : bar.minuteStart.date = bar.minuteStartNy / 1440 := by
    rw [Time.date, OhlcBar.minuteStart, Int.floor_eq_iff]
    have hdiv := Int.emod_add_mul_ediv bar.minuteStartNy 1440
    have hlow := Int.emod_nonneg bar.minuteStartNy (by norm_num : (1440 : ℤ) ≠ 0)
    have hhigh := Int.emod_lt_of_pos bar.minuteStartNy (by norm_num : (0 : ℤ) < 1440)
    have hq : (bar.minuteStartNy : ℚ)
        = (bar.minuteStartNy % 1440 : ℤ) + 1440 * (bar.minuteStartNy / 1440 : ℤ) := by
      exact_mod_cast hdiv.symm
    have hlow' : (0 : ℚ) ≤ (bar.minuteStartNy % 1440 : ℤ) := by exact_mod_cast hlow
    have hhigh' : ((bar.minuteStartNy % 1440 : ℤ) : ℚ) < 1440 := by exact_mod_cast hhigh
    constructor <;> linarith
  rw [Time.timeOfDay, hdate, OhlcBar.minuteStart]
  have hdiv := Int.emod_add_mul_ediv bar.minuteStartNy 1440
  have hq : (bar.minuteStartNy : ℚ)
      = (bar.minuteStartNy % 1440 : ℤ) + 1440 * (bar.minuteStartNy / 1440 : ℤ) := by
    exact_mod_cast hdiv.symm
  linarith

theorem scanned_replayBar_iff (hour minute : ℕ) (bar : OhlcBar) :
    bar.replayBar.Scanned (hhmm hour minute)
      ↔ (hour : ℤ) * 60 + minute ≤ bar.minuteStartNy % 1440 := by
  show hhmm hour minute ≤ bar.minuteStart.timeOfDay ↔ _
  rw [timeOfDay_minuteStart, hhmm]
  have hcast : ((hour : ℚ) * 3600 + minute * 60 ≤ (bar.minuteStartNy % 1440 : ℤ) * 60)
      ↔ (((hour : ℤ) * 60 + minute : ℤ) : ℚ) ≤ (bar.minuteStartNy % 1440 : ℤ) := by
    push_cast
    constructor <;> intro h <;> linarith
  rw [hcast]
  exact Int.cast_le

/-- The completed bars that the replay scans. -/
def scannedBars (date : CivilDate) (scanFrom : ℤ) (bars : List OhlcBar) : List OhlcBar :=
  bars.filter fun bar => NyZone.date bar.minuteStartNy = date && scanFrom ≤ bar.minuteStartNy % 1440

/-- What a bar moves to. -/
def barRight (ref triggerPct : ℚ) (bar : OhlcBar) : Option OptionRight :=
  breakoutRight bar.closePrice ref triggerPct

/-- **The signal of the replay is on the first scanned bar that moves.** -/
theorem replay_eq_firstMove {bars : List OhlcBar} {date : CivilDate} {hour minute : ℕ}
    {triggerPct ref : ℚ} {replay : Option (ReplayBar × OptionRight)}
    (href : referencePrice ((bars.filter (NyZone.date ·.minuteStartNy = date)).map
      OhlcBar.replayBar) = some ref)
    (h : breakoutSignal ((bars.filter (NyZone.date ·.minuteStartNy = date)).map
      OhlcBar.replayBar) hour minute triggerPct = .ok replay) :
    replay = (Sampling.firstMove (barRight ref triggerPct)
      (scannedBars date (hour * 60 + minute) bars)).map fun first =>
        (first.1.replayBar, first.2) := by
  have hfilter : (bars.filter (NyZone.date ·.minuteStartNy = date)).filter
      ((fun bar : ReplayBar => decide (bar.Scanned (hhmm hour minute))) ∘ OhlcBar.replayBar)
      = scannedBars date (hour * 60 + minute) bars := by
    rw [List.filter_filter, scannedBars]
    refine List.filter_congr fun bar _ => ?_
    simp only [Function.comp_apply, scanned_replayBar_iff, Bool.and_comm]
  rw [breakoutSignal_eq_ok href h, List.filter_map, hfilter, List.findSome?_map,
    Sampling.firstMove, List.map_findSome?]
  congr 1
  funext bar
  show (breakoutRight bar.closePrice ref triggerPct).map _ = _
  simp only [Function.comp_apply, barRight, Option.map_map]
  rfl

/-! ## The agreement -/

/-- Bars with increasing minutes are told apart by what the replay has of them. -/
theorem replayBar_inj {bars : List OhlcBar}
    (h : bars.Pairwise fun bar next => bar.minuteStartNy < next.minuteStartNy) {bar bar' : OhlcBar}
    (hbar : bar ∈ bars) (hbar' : bar' ∈ bars) (heq : bar.replayBar = bar'.replayBar) :
    bar = bar' := by
  have hminute : bar.minuteStart = bar'.minuteStart := congrArg ReplayBar.minuteNy heq
  unfold OhlcBar.minuteStart at hminute
  refine Sampling.eq_of_key_eq h hbar hbar' ?_
  exact_mod_cast mul_right_cancel₀ (by norm_num : (60 : ℚ) ≠ 0) hminute

theorem mem_scannedBars {date : CivilDate} {scanFrom : ℤ} {bars : List OhlcBar} {bar : OhlcBar} :
    bar ∈ scannedBars date scanFrom bars ↔ bar ∈ bars
      ∧ NyZone.date bar.minuteStartNy = date ∧ scanFrom ≤ bar.minuteStartNy % 1440 := by
  simp [scannedBars, List.mem_filter]

section Agreement

variable {sid : StrategyId} {date : CivilDate} {scanFrom : ℤ} {ref triggerPct : ℚ}
  {replay : Option (ReplayBar × OptionRight)}
  (hs : s.SeesInOrder)
  (hreplay : replay = (Sampling.firstMove (barRight ref triggerPct) (scannedBars date scanFrom
    (s.recorder.feed.builder.persisted "XSP"))).map fun first => (first.1.replayBar, first.2))

include hs in
/-- The completed bars are in the order of their minutes. -/
theorem SeesInOrder.completed_increasing : (s.recorder.feed.builder.persisted "XSP").Pairwise
    fun bar next => bar.minuteStartNy < next.minuteStartNy :=
  (List.pairwise_append.mp (hs.increasing "XSP")).1

include hs in
/-- A look is at a completed bar where the replay has the two for one. -/
theorem bar?_eq_iff {look : Look} (hlook : look ∈ s.looks) {bar : OhlcBar}
    (hbar : bar ∈ s.recorder.feed.builder.persisted "XSP") :
    look.bar?.map OhlcBar.replayBar = some bar.replayBar ↔ look.bar? = some bar := by
  refine ⟨fun h => ?_, fun h => by rw [h, Option.map_some]⟩
  obtain ⟨bar', hbar', heq⟩ := Option.map_eq_some_iff.mp h
  rw [hbar', replayBar_inj hs.completed_increasing (hs.completed look hlook bar' hbar') hbar heq]

include hs hreplay in
/-- A look is at the replayed signal where it is at the first move. -/
theorem atReplayed_iff {look : Look} (hlook : look ∈ s.looks) :
    look.AtReplayed replay ↔ Sampling.AtFirst Look.bar? (barRight ref triggerPct)
      (scannedBars date scanFrom (s.recorder.feed.builder.persisted "XSP")) look := by
  unfold Look.AtReplayed Sampling.AtFirst
  rw [hreplay]
  constructor
  · rintro ⟨bar, right, hfirst, hat⟩
    obtain ⟨first, hmove, hpair⟩ := Option.map_eq_some_iff.mp hfirst
    cases hpair
    obtain ⟨as, bs, hsplit, -, -⟩ := Sampling.firstMove_eq_some_iff.mp hmove
    have hmem := (mem_scannedBars.mp (hsplit ▸ List.mem_append_right as List.mem_cons_self)).1
    exact ⟨first.1, first.2, hmove, (bar?_eq_iff hs hlook hmem).mp hat⟩
  · rintro ⟨bar, right, hmove, hat⟩
    exact ⟨bar.replayBar, right, by rw [hmove]; rfl, by rw [hat]; rfl⟩

include hs in
/-- A look is at a bar of its date from the scan on where that bar is scanned. -/
theorem fromScan_iff {look : Look} (hlook : look ∈ s.looksOn sid date) :
    look.FromScan scanFrom ↔ ∃ bar ∈ look.bar?,
      bar ∈ scannedBars date scanFrom (s.recorder.feed.builder.persisted "XSP") := by
  obtain ⟨hmem, hof⟩ := List.mem_filter.mp hlook
  have hdate : look.date = date := by simpa using (Bool.and_eq_true_iff.mp hof).2
  unfold Look.FromScan
  rw [hdate]
  refine exists_congr fun bar => and_congr_right fun hbar => ?_
  rw [mem_scannedBars, and_iff_right (hs.completed look hmem bar hbar)]

include hs hreplay in
/-- **It is watched** as in sampling. -/
theorem watched_iff : Watched (s.looksOn sid date) scanFrom replay
    ↔ Sampling.Watched Look.bar? Look.right (barRight ref triggerPct) (s.looksOn sid date)
      (scannedBars date scanFrom (s.recorder.feed.builder.persisted "XSP")) := by
  have hall : ∀ look ∈ s.looksOn sid date, look ∈ s.looks := fun _ => List.mem_of_mem_filter
  have hsome : replay.isSome ↔ (Sampling.firstMove (barRight ref triggerPct)
      (scannedBars date scanFrom (s.recorder.feed.builder.persisted "XSP"))).isSome := by
    rw [hreplay, Option.isSome_map]
  have hstale : ∀ look ∈ s.looksOn sid date, ¬ look.FromScan scanFrom ↔ ∀ bar ∈ look.bar?,
      bar ∉ scannedBars date scanFrom (s.recorder.feed.builder.persisted "XSP") := by
    intro look hlook
    rw [fromScan_iff hs hlook]
    push Not
    rfl
  constructor
  · intro h
    constructor
    · intro hfirst
      obtain ⟨look, hlook, hat⟩ := h.seen (hsome.mpr hfirst)
      exact ⟨look, hlook, (atReplayed_iff hs hreplay (hall look hlook)).mp hat⟩
    · intro before look after hsplit hmove hnot
      obtain ⟨earlier, hearlier, hat⟩ := h.fresh before look after hsplit hmove
        ((hstale look (by rw [hsplit]; simp)).mpr hnot)
      exact ⟨earlier, hearlier, (atReplayed_iff hs hreplay
        (hall earlier (by rw [hsplit]; exact List.mem_append_left _ hearlier))).mp hat⟩
  · intro h
    constructor
    · intro hfirst
      obtain ⟨look, hlook, hat⟩ := h.seen (hsome.mp hfirst)
      exact ⟨look, hlook, (atReplayed_iff hs hreplay (hall look hlook)).mpr hat⟩
    · intro before look after hsplit hmove hnot
      obtain ⟨earlier, hearlier, hat⟩ := h.fresh before look after hsplit hmove
        ((hstale look (by rw [hsplit]; simp)).mp hnot)
      exact ⟨earlier, hearlier, (atReplayed_iff hs hreplay
        (hall earlier (by rw [hsplit]; exact List.mem_append_left _ hearlier))).mpr hat⟩

/-- A look at a bar is at its close. -/
theorem price_of_bar? {look : Look} {bar : OhlcBar} (h : look.bar? = some bar) :
    look.source.price = bar.closePrice := by
  unfold Look.bar? at h
  cases hsource : look.source with
  | barClose b =>
    rw [hsource] at h
    exact congrArg OhlcBar.closePrice (Option.some.inj h)
  | quote price =>
    rw [hsource] at h
    cases h

/-- A look at a bar finds what the replay finds in it, where both compare with
one reference. -/
theorem right_eq_barRight {look : Look} (href : look.ref = ref)
    (htrigger : look.triggerPct = triggerPct) {bar : OhlcBar} (hbar : look.bar? = some bar) :
    look.right = barRight ref triggerPct bar := by
  rw [Look.right, barRight, price_of_bar? hbar, href, htrigger]

include hs hreplay in
/-- **They agree** as two observers do. -/
theorem agrees_iff_sees {floatRepr : Price → String}
    (hreturns : ∀ look ∈ s.looksOn sid date, ∃ r, look.outcome floatRepr = .ok r)
    (hmoves : ∀ look ∈ s.looksOn sid date, ∀ bar ∈ look.bar?,
      bar ∈ scannedBars date scanFrom (s.recorder.feed.builder.persisted "XSP") →
        look.right = barRight ref triggerPct bar) :
    Agrees (s.firstSignal floatRepr sid date) replay
      ↔ Sampling.Sees Look.bar? Look.right (barRight ref triggerPct) (s.looksOn sid date)
        (scannedBars date scanFrom (s.recorder.feed.builder.persisted "XSP")) := by
  obtain ⟨hnone, hsome⟩ := firstSignal_eq hreturns
  unfold Agrees Sampling.Sees
  rw [hreplay]
  cases hlook : Sampling.firstMove Look.right (s.looksOn sid date) with
  | none =>
    rw [hnone hlook]
    cases Sampling.firstMove (barRight ref triggerPct) (scannedBars date scanFrom
      (s.recorder.feed.builder.persisted "XSP")) <;> rfl
  | some found =>
    obtain ⟨look, right⟩ := found
    obtain ⟨sig, hsig, hright, hstrike⟩ := hsome look right hlook
    rw [hsig]
    cases hfirst : Sampling.firstMove (barRight ref triggerPct) (scannedBars date scanFrom
      (s.recorder.feed.builder.persisted "XSP")) with
    | none => rfl
    | some first =>
      obtain ⟨bar, right'⟩ := first
      obtain ⟨as, bs, hlooks, hmove, -⟩ := Sampling.firstMove_eq_some_iff.mp hlook
      obtain ⟨cs, ds, hbars, hmove', -⟩ := Sampling.firstMove_eq_some_iff.mp hfirst
      have hmem : look ∈ s.looksOn sid date := by rw [hlooks]; simp
      have hbar : bar ∈ scannedBars date scanFrom (s.recorder.feed.builder.persisted "XSP") := by
        rw [hbars]
        simp
      have hat := bar?_eq_iff hs (List.mem_of_mem_filter hmem) (mem_scannedBars.mp hbar).1
      refine ⟨fun h => hat.mp h.1, fun h => ⟨hat.mpr h, ?_, ?_⟩⟩
      · rw [hright]
        exact Option.some.inj (hmove.symm.trans ((hmoves look hmem bar h hbar).trans hmove'))
      · rw [hstrike, price_of_bar? h]
        rfl

end Agreement

/-- **The live signal is the replayed one exactly where it is watched.** In every
run that records all its bars, with ticks in order and one offset over the date,
let the polls of a strategy be configured as the replay is and raise nothing, and
let the historical close be the recorded reference. Then the first live signal of
the date is that of the replay – on the close of the same bar, for the same right
and strike, or neither – exactly when the bar of the replay is looked at, and no
poll before finds a move in a price that is not of a bar of the date from the scan
on: a quote, or the last bar before the scan. -/
theorem agrees_iff_watched (py : Builtins) (zone : NyZone) (variant : BreakoutVariant)
    {maxCompleted : ℕ} (hmax : 0 < maxCompleted) {ls : List Label}
    (hrecords : ∀ l ∈ ls, l.Records py)
    (horder : (machine py zone variant).Along (fun s l _ => s.InOrder zone l)
      (initial maxCompleted none) ls)
    (hrun : (machine py zone variant).run (initial maxCompleted none) ls = some s)
    {date : CivilDate} (hdate : date.year < 10000)
    (hoffset : ∀ m n, NyZone.date m = date → NyZone.date n = date →
      zone.offset m = zone.offset n)
    {d : InsertionDict String (List ReplayBar)}
    (hload : loadBars py s.recorder.disk (barsFile date) = .ok d)
    {hour minute : ℕ} {triggerPct : ℚ} {replay : Option (ReplayBar × OptionRight)}
    (hreplay : breakoutSignal ((d.get? "XSP").getD []) hour minute triggerPct = .ok replay)
    (href : ∀ ref price, referencePrice ((d.get? "XSP").getD []) = some ref →
      (date, some price) ∈ s.provider.fetches → price = ref)
    (sid : StrategyId)
    (htrigger : ∀ look ∈ s.looksOn sid date, look.triggerPct = triggerPct)
    (hreturns : ∀ look ∈ s.looksOn sid date,
      ∃ r, look.outcome (fun x => py.floatRepr (.finite x)) = .ok r) :
    Agrees (s.firstSignal (fun x => py.floatRepr (.finite x)) sid date) replay
      ↔ Watched (s.looksOn sid date) (hour * 60 + minute) replay := by
  have hs : s.SeesInOrder := Machine.run_invariant (J := SeesInOrder)
    (C := fun s l _ => s.InOrder zone l) (fun _ _ _ hs h hin => hs.step hin h)
    (seesInOrder_initial hmax none) horder hrun
  obtain ⟨ks, hkeeps, hok, hkin, hks⟩ := exists_recorder_run hrecords horder hrun
  obtain ⟨-, d', hload', hseries⟩ :=
    BarRecorder.loadBars_completed py zone maxCompleted hkeeps hok hkin hks hdate hoffset
  obtain rfl : d' = d := Except.ok.inj (hload'.symm.trans hload)
  rw [hseries "XSP"] at hreplay href
  -- the reference of the looks at scanned bars, and of the replay
  obtain ⟨ref, hfirst, hrefs⟩ : ∃ ref, replay = (Sampling.firstMove (barRight ref triggerPct)
        (scannedBars date (hour * 60 + minute) (s.recorder.feed.builder.persisted "XSP"))).map
        (fun first => (first.1.replayBar, first.2))
      ∧ ∀ look ∈ s.looksOn sid date, ∀ bar ∈ scannedBars date (hour * 60 + minute)
        (s.recorder.feed.builder.persisted "XSP"), look.ref = ref := by
    cases hseriesRef : referencePrice (((s.recorder.feed.builder.persisted "XSP").filter
        (NyZone.date ·.minuteStartNy = date)).map OhlcBar.replayBar) with
    | some ref =>
      refine ⟨ref, replay_eq_firstMove hseriesRef hreplay, fun look hlook _ _ => ?_⟩
      obtain ⟨hmem, hof⟩ := List.mem_filter.mp hlook
      have hday : look.date = date := by simpa using (Bool.and_eq_true_iff.mp hof).2
      rcases (reference_once hrun).2 look hmem with hmock | ⟨-, hfetched⟩
      · cases hmock
      · exact href ref look.ref hseriesRef (hday ▸ hfetched)
    | none =>
      -- no bar of the date is recorded
      have hnil := referencePrice_eq_none hseriesRef
      have hscanned : scannedBars date (hour * 60 + minute)
          (s.recorder.feed.builder.persisted "XSP") = [] := by
        refine List.eq_nil_iff_forall_not_mem.mpr fun bar hbar => ?_
        obtain ⟨hmem, hday, -⟩ := mem_scannedBars.mp hbar
        have hin : bar ∈ (s.recorder.feed.builder.persisted "XSP").filter
            (NyZone.date ·.minuteStartNy = date) := List.mem_filter.mpr ⟨hmem, decide_eq_true hday⟩
        rw [List.map_eq_nil_iff.mp hnil] at hin
        cases hin
      rw [hscanned]
      refine ⟨0, ?_, fun _ _ _ hbar => by cases hbar⟩
      rw [hnil] at hreplay
      exact (Except.ok.inj hreplay).symm
  rw [agrees_iff_sees hs hfirst hreturns fun look hlook bar hbar hscanned =>
      right_eq_barRight (hrefs look hlook bar hscanned) (htrigger look hlook) hbar,
    watched_iff hs hfirst]
  refine Sampling.sees_iff_watched OhlcBar.minuteStartNy
    (hs.completed_increasing.filter _) (hs.ordered.filter _) fun look hlook bar hbar hscanned => ?_
  exact right_eq_barRight (hrefs look hlook bar hscanned) (htrigger look hlook) hbar

section Sample

open BarRecorder (twoPrices winterClock)

/-- The bar of 10:00 in the sample session. -/
def sampleBar : OhlcBar := ⟨"XSP", 1065086520, 6, 6, 6, 6, 1⟩

/-- The end of the sample session. -/
def sampleEnd : BreakoutSession :=
  ((machine twoPrices winterClock xspBreakout).run (initial 480 none) sampleSession).getD
    (initial 480 none)

theorem run_sampleSession : (machine twoPrices winterClock xspBreakout).run (initial 480 none)
    sampleSession = some sampleEnd := rfl

theorem inOrder_sampleSession : (machine twoPrices winterClock xspBreakout).Along
    (fun s l _ => s.InOrder winterClock l) (initial 480 none) sampleSession := by
  refine (Machine.along_cons_some rfl).mpr ⟨?_, (Machine.along_cons_some rfl).mpr
    ⟨?_, (Machine.along_cons_some rfl).mpr ⟨?_, trivial⟩⟩⟩
  · rintro _ ⟨⟩ symbol price ts ⟨⟩ - - bar ⟨⟩
  · rintro _ ⟨⟩ symbol price ts ⟨⟩ - hnone
    exact absurd hnone (by decide +kernel)
  · rintro _ ⟨⟩

theorem records_sampleSession : ∀ l ∈ sampleSession, l.Records twoPrices := by
  have hkeeps : twoPrices.KeepsPrice (11 / 2) ∧ twoPrices.KeepsPrice 6 := by
    refine ⟨⟨?_, ?_⟩, ⟨?_, ?_⟩⟩ <;> decide +kernel
  intro l hl
  simp only [sampleSession, List.mem_cons, List.not_mem_nil, or_false] at hl
  rcases hl with rfl | rfl | rfl
  · exact ⟨by rintro _ _ _ ⟨⟩; exact hkeeps.1, rfl⟩
  · exact ⟨by rintro _ _ _ ⟨⟩; exact hkeeps.2, rfl⟩
  · rfl

theorem agrees_iff_watched_sampleSession : ∃ d,
    loadBars twoPrices sampleEnd.recorder.disk (barsFile (NyZone.date 1065086520)) = .ok d
      ∧ breakoutSignal ((d.get? "XSP").getD []) 10 0 (2 / 1000)
        = .ok (some (sampleBar.replayBar, .call))
      ∧ Agrees (sampleEnd.firstSignal (fun x => twoPrices.floatRepr (.finite x)) "xsp_0dte_1000"
        (NyZone.date 1065086520)) (some (sampleBar.replayBar, .call)) := by
  have hseries : (loadBars twoPrices sampleEnd.recorder.disk
      (barsFile (NyZone.date 1065086520))).toOption.map (fun d => (d.get? "XSP").getD [])
      = some [⟨"XSP", 1065086490 * 60, 11 / 2, 11 / 2, 11 / 2, 11 / 2⟩, sampleBar.replayBar] := by
    decide +kernel
  cases hload : loadBars twoPrices sampleEnd.recorder.disk (barsFile (NyZone.date 1065086520)) with
  | error e => rw [hload] at hseries; cases hseries
  | ok d =>
    rw [hload] at hseries
    have hbars : (d.get? "XSP").getD [] = _ := Option.some.inj hseries
    have hreplay : breakoutSignal ((d.get? "XSP").getD []) 10 0 (2 / 1000)
        = .ok (some (sampleBar.replayBar, .call)) := by
      rw [hbars]
      decide +kernel
    have hbarsSeen : (sampleEnd.looksOn "xsp_0dte_1000" (NyZone.date 1065086520)).map
        (fun look => (look.bar?, look.triggerPct, (look.outcome fun x =>
          twoPrices.floatRepr (.finite x)).toOption.isSome))
        = [(some sampleBar, 2 / 1000, true)] := by decide +kernel
    obtain ⟨look, hlooks, hvalues⟩ := List.map_eq_singleton_iff.mp hbarsSeen
    obtain ⟨hbar, hvalues⟩ := Prod.mk.inj hvalues
    obtain ⟨htrigger, hreturns⟩ := Prod.mk.inj hvalues
    have hlookDate : look.date = NyZone.date 1065086520 := by
      have hmem : look ∈ sampleEnd.looksOn "xsp_0dte_1000" (NyZone.date 1065086520) := by
        rw [hlooks]
        exact List.mem_singleton_self _
      simpa using (Bool.and_eq_true_iff.mp (List.mem_filter.mp hmem).2).2
    refine ⟨d, rfl, hreplay, (agrees_iff_watched twoPrices winterClock xspBreakout (by decide)
      records_sampleSession inOrder_sampleSession run_sampleSession
      (NyZone.year_date_lt (m := 1065086520) (by decide)) (fun _ _ _ _ => rfl) hload hreplay ?_
      "xsp_0dte_1000" ?_ ?_).mpr ⟨fun _ => ?_, ?_⟩⟩
    · intro ref price href hfetched
      have hfetches : sampleEnd.provider.fetches
          = [(NyZone.date 1065086520, some (11 / 2))] := by decide +kernel
      have hfirst : referencePrice ((d.get? "XSP").getD []) = some (11 / 2) := by
        rw [hbars]
        decide +kernel
      have hprice : (NyZone.date 1065086520, some price)
          = (NyZone.date 1065086520, some (11 / 2)) :=
        List.mem_singleton.mp (hfetches ▸ hfetched)
      rw [Option.some.inj (Prod.mk.inj hprice).2]
      exact Option.some.inj (hfirst.symm.trans href)
    · intro other hother
      rw [hlooks, List.mem_singleton] at hother
      rw [hother]
      exact htrigger
    · intro other hother
      rw [hlooks, List.mem_singleton] at hother
      rw [hother]
      cases houtcome : look.outcome fun x => twoPrices.floatRepr (.finite x) with
      | error e => rw [houtcome] at hreturns; cases hreturns
      | ok r => exact ⟨r, rfl⟩
    · exact ⟨look, hlooks ▸ List.mem_singleton_self _, _, _, rfl, by rw [hbar]; rfl⟩
    · intro before other after hsplit _ hnot
      have hother : other ∈ [look] := by
        rw [← hlooks, hsplit]
        simp
      rw [List.mem_singleton.mp hother] at hnot
      refine absurd ⟨sampleBar, hbar, ?_⟩ hnot
      rw [hlookDate]
      exact ⟨rfl, by decide +kernel⟩

end Sample

end BreakoutSession
