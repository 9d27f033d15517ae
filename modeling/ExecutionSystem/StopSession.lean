import ExecutionSystem.ExitManager
import ExecutionSystem.LiveReplay

/-!
# Stops on live bars and stops of the replay

A stop is evaluated on the last completed bar of the option, so that it fires where
the backtest fires: on the worst price of a minute, not on a quote. A check looks at
that bar only if its minute is after that of the entry; it falls back on the bars of
the underlying where the option has none; and the middle of a quote that is far
through the stop fires at once.

The checks are run here together with the builder that they read. A stop on a bar
is one on a price that was accepted in its minute, after that of the entry
(`StopSession.stops_exact`). And the first stop of a position is that of the shadow
replay exactly when the bar of the replay is looked at, and no check before has
fired on anything else (`StopSession.stop_agrees_iff_watched`).
-/

open BreakoutSession (RetainsLast retainsLast_initial persisted_grows minute_le_of_getLast?
  inOrder_latest)

/-! ## The exit on the bar that counts -/

/-- What a stop looks at in a bar. -/
def OhlcBar.stopBar (bar : OhlcBar) : Bar := ⟨bar.minuteStart, bar.high, bar.low⟩

namespace Position

/-- **The exit of a position, told the bar that counts.** -/
def triggerOn (pos : Position) (policy : ExitPolicy) (quote : Option QuoteSnapshot)
    (counted : Option Bar) : Option (ExitTrigger × Option Price) :=
  if policy.forceFlattenAll then some (.forceFlatten, pos.limitOrCurrent quote)
  else if pos.timeExitUtc.any (· ≤ policy.currentTime) then
    some (.timeExit, pos.limitOrCurrent quote)
  else if pos.positionId ∈ policy.strategyExits then
    some (.strategyExit, pos.limitOrCurrent quote)
  else quote.bind fun quote =>
    if !pos.evaluated policy quote then none
    else if pos.stopHit quote counted then
      some (.stopLoss, (pos.touch quote).or (pos.evalPrice quote))
    else if pos.targetHit quote then some (.takeProfit, pos.evalPrice quote)
    else none

/-- The exit is that on the bar of those given that counts. -/
theorem trigger_eq_triggerOn (pos : Position) (policy : ExitPolicy)
    (quote : Option QuoteSnapshot) (bar : Option Bar) :
    pos.trigger policy quote bar = pos.triggerOn policy quote (pos.countedBar bar) := rfl

/-- The quote that the stop is evaluated on: the position is open, nothing that comes
before a stop triggers, the quote is good, and it gives a limit. -/
def attended (pos : Position) (policy : ExitPolicy) (quote : Option QuoteSnapshot) :
    Option QuoteSnapshot :=
  if pos.status.isOpen ∧ policy.forceFlattenAll = false
      ∧ pos.timeExitUtc.any (· ≤ policy.currentTime) = false
      ∧ pos.positionId ∉ policy.strategyExits then
    quote.filter fun quote => pos.evaluated policy quote
      && ((pos.touch quote).or (pos.evalPrice quote)).isSome
  else none

/-- Whether the stop triggers, with a limit to exit at. -/
def stops (pos : Position) (policy : ExitPolicy) (quote : Option QuoteSnapshot)
    (counted : Option Bar) : Bool :=
  pos.status.isOpen && (pos.triggerOn policy quote counted).any fun exit =>
    exit.1 = .stopLoss && exit.2.isSome

/-- **A stop triggers where it is hit, on a quote that is attended.** -/
theorem stops_iff {pos : Position} {policy : ExitPolicy} {quote : Option QuoteSnapshot}
    {counted : Option Bar} : pos.stops policy quote counted
      ↔ ∃ q ∈ pos.attended policy quote, pos.stopHit q counted = true := by
  unfold stops triggerOn attended
  cases hopen : pos.status.isOpen with
  | false => simp
  | true =>
    cases hflatten : policy.forceFlattenAll with
    | true => simp
    | false =>
      cases htime : pos.timeExitUtc.any (· ≤ policy.currentTime) with
      | true => simp
      | false =>
        by_cases hstrategy : pos.positionId ∈ policy.strategyExits
        · simp [hstrategy]
        · cases quote with
          | none => simp [hstrategy]
          | some q =>
            cases heval : pos.evaluated policy q <;> cases hhit : pos.stopHit q counted <;>
              cases htarget : pos.targetHit q <;>
              simp [hstrategy, heval, hhit, htarget, Option.filter]

end Position

/-! ## A session -/

/-- **What a check of a position is told**: the position as it stands, what the check
is told besides, the quote found for it, when the bars of the option and of its
underlying are read, and whether the writes of the two reads succeed. -/
structure StopCheck where
  pos : Position
  policy : ExitPolicy
  quote : Option QuoteSnapshot
  ownReadAt : Time
  indexReadAt : Time
  ownOk : Bool
  indexOk : Bool

/-- The key of the bars of the option. -/
def StopCheck.key (py : Builtins) (c : StopCheck) : String :=
  c.pos.contract.toQuoteSymbol fun x => py.floatRepr (.finite x)

/-- What a check looks at: the last completed bars of the option and of its
underlying. -/
structure StopLook where
  check : StopCheck
  ownBar : Option OhlcBar
  indexBar : Option OhlcBar

namespace StopLook

/-- The bar of the look: that of the underlying where the option has none. -/
def bar (look : StopLook) : Option OhlcBar := look.ownBar.or look.indexBar

/-- **The bar that counts**: it is of a minute after that of the entry, by the clock
of New York. -/
def counted (zone : NyZone) (look : StopLook) : Option OhlcBar :=
  look.bar.filter fun bar => zone.minute look.check.pos.enteredAt < bar.minuteStartNy

/-- The symbol whose bar it is. -/
def symbol (py : Builtins) (look : StopLook) : String :=
  if look.ownBar.isSome then look.check.key py else look.check.pos.contract.symbol

/-- Whether the stop triggers at the look. -/
def stops (zone : NyZone) (look : StopLook) : Bool :=
  look.check.pos.stops look.check.policy look.check.quote
    ((look.counted zone).map OhlcBar.stopBar)

end StopLook

/-- **The checks with the recorder that they read.** The program keeps no record of
the looks. -/
structure StopSession where
  recorder : BarRecorder
  looks : List StopLook := []

namespace StopSession

variable (py : Builtins) (zone : NyZone)

/-- What can happen next: a tick or a read, and a check. -/
inductive Label where
  | bars (l : BarRecorder.Label)
  | check (c : StopCheck)

/-- What a label does to the recorder. -/
def Label.reads : Label → List BarRecorder.Label
  | .bars l => [l]
  | .check c =>
    [⟨.latest (c.key py) c.ownReadAt, c.ownOk⟩,
      ⟨.latest c.pos.contract.symbol c.indexReadAt, c.indexOk⟩]

/-- What a check that has read its bars looks at. -/
def look (r : BarRecorder) (c : StopCheck) : StopLook where
  check := c
  ownBar := (r.feed.builder.completed (c.key py)).getLast?
  indexBar := (r.feed.builder.completed c.pos.contract.symbol).getLast?

/-- The looks after a label. -/
def looksAfter (s : StopSession) (r : BarRecorder) : Label → List StopLook
  | .bars _ => s.looks
  | .check c => s.looks ++ [look py r c]

/-- One step. -/
def step (s : StopSession) (l : Label) : Option StopSession :=
  ((BarRecorder.machine py zone).run s.recorder (l.reads py)).map fun r =>
    ⟨r, s.looksAfter py r l⟩

/-- Ticks, reads and checks in any order. -/
def machine : Machine StopSession Label where
  step := step py zone

/-- No bars yet. -/
def initial (maxCompleted : ℕ) : StopSession where
  recorder := .initial maxCompleted

variable {py zone} {s t : StopSession}

/-! ## What a session records -/

/-- A tick that starts a bar where there is none is later than the last bar
completed. -/
def InOrder (zone : NyZone) (s : StopSession) (l : Label) : Prop :=
  ∀ k, l = .bars k → s.recorder.feed.InOrder zone.minute k.feed

/-- A label whose prices are read back, and whose writes succeed. -/
def Label.Records (py : Builtins) (l : Label) : Prop :=
  ∀ k ∈ l.reads py, k.Keeps py ∧ k.ok = true

/-- The labels of the recorder are in order where the label is. -/
theorem InOrder.along {l : Label} (h : s.InOrder zone l) :
    (BarFeed.machine zone.minute).Along (fun feed k _ => feed.InOrder zone.minute k)
      s.recorder.feed ((l.reads py).map BarRecorder.Label.feed) := by
  cases l with
  | bars k => exact fun _ _ => ⟨h k rfl, trivial⟩
  | check c =>
    exact fun _ _ => ⟨inOrder_latest _ _ _ _, fun _ _ => ⟨inOrder_latest _ _ _ _, trivial⟩⟩

/-- **A session runs its recorder**, in order where it is. -/
theorem recorder_run {ls : List Label}
    (horder : (machine py zone).Along (fun s l _ => s.InOrder zone l) s ls)
    (hrun : (machine py zone).run s ls = some t) :
    (BarFeed.machine zone.minute).Along (fun feed k _ => feed.InOrder zone.minute k)
        s.recorder.feed ((ls.flatMap (Label.reads py)).map BarRecorder.Label.feed)
      ∧ (BarRecorder.machine py zone).run s.recorder (ls.flatMap (Label.reads py))
        = some t.recorder := by
  induction ls generalizing s with
  | nil =>
    obtain rfl := Option.some.inj hrun
    exact ⟨trivial, rfl⟩
  | cons l ls ih =>
    obtain ⟨u, hu, hrest⟩ := Option.bind_eq_some_iff.mp hrun
    obtain ⟨hin, horder'⟩ := horder u hu
    obtain ⟨halong, hks⟩ := ih horder' hrest
    obtain ⟨r, hreads, rfl⟩ := Option.map_eq_some_iff.mp hu
    rw [List.flatMap_cons, List.map_append]
    refine ⟨Machine.along_append.mpr ⟨hin.along, fun feed hfeed => ?_⟩,
      Machine.run_append_some.mpr ⟨r, hreads, hks⟩⟩
    rw [BarRecorder.run_feed hreads] at hfeed
    exact Option.some.inj hfeed ▸ halong

/-! ## The order of the looks -/

/-- What a run of the recorder keeps: the order of the minutes, the last bars, and
what is completed. -/
structure Keeps (r r' : BarRecorder) : Prop where
  increasing : (∀ symbol, r.feed.Increasing symbol) → ∀ symbol, r'.feed.Increasing symbol
  retains : RetainsLast r → RetainsLast r'
  grows : ∀ symbol, r.feed.builder.persisted symbol <+: r'.feed.builder.persisted symbol

theorem keeps_of_run {r r' : BarRecorder} {ks : List BarRecorder.Label}
    (halong : (BarFeed.machine zone.minute).Along (fun feed k _ => feed.InOrder zone.minute k)
      r.feed (ks.map BarRecorder.Label.feed))
    (hrun : (BarRecorder.machine py zone).run r ks = some r') : Keeps r r' := by
  induction ks generalizing r with
  | nil =>
    obtain rfl := Option.some.inj hrun
    exact ⟨id, id, fun _ => List.prefix_rfl⟩
  | cons k ks ih =>
    obtain ⟨u, hu, hrest⟩ := Option.bind_eq_some_iff.mp hrun
    have hfeed := BarRecorder.feed_step hu
    obtain ⟨hin, hlater⟩ := halong u.feed hfeed
    obtain ⟨hincreasing, hretains, hgrows⟩ := ih hlater hrest
    exact ⟨fun h => hincreasing ((BarFeed.increasing_step_iff h hfeed).mpr hin),
      fun h => hretains (h.step hu), fun symbol => (persisted_grows hfeed symbol).trans
        (hgrows symbol)⟩

/-- **Looks come in the order of the bars**, which are of those completed. -/
structure SeesInOrder (py : Builtins) (s : StopSession) : Prop where
  increasing : ∀ symbol, s.recorder.feed.Increasing symbol
  retains : RetainsLast s.recorder
  own : ∀ look ∈ s.looks, ∀ bar ∈ look.ownBar,
    bar ∈ s.recorder.feed.builder.persisted (look.check.key py)
  index : ∀ look ∈ s.looks, ∀ bar ∈ look.indexBar,
    bar ∈ s.recorder.feed.builder.persisted look.check.pos.contract.symbol
  ordered : s.looks.Pairwise fun look next => look.check.key py = next.check.key py →
    ∀ bar ∈ look.ownBar, ∀ bar' ∈ next.ownBar, bar.minuteStartNy ≤ bar'.minuteStartNy

theorem seesInOrder_initial {maxCompleted : ℕ} (h : 0 < maxCompleted) :
    (initial maxCompleted).SeesInOrder py where
  increasing _ := List.Pairwise.nil
  retains := retainsLast_initial h
  own := by rintro look ⟨⟩
  index := by rintro look ⟨⟩
  ordered := List.Pairwise.nil

/-- **A step keeps the looks in order.** -/
theorem SeesInOrder.step {l : Label} (hs : s.SeesInOrder py) (hin : s.InOrder zone l)
    (h : s.step py zone l = some t) : t.SeesInOrder py := by
  obtain ⟨r, hreads, rfl⟩ := Option.map_eq_some_iff.mp h
  obtain ⟨hincreasing, hretains, hgrows⟩ := keeps_of_run hin.along hreads
  have hown : ∀ look ∈ s.looks, ∀ bar ∈ look.ownBar,
      bar ∈ r.feed.builder.persisted (look.check.key py) := fun look hlook bar hbar =>
    (hgrows _).subset (hs.own look hlook bar hbar)
  have hindex : ∀ look ∈ s.looks, ∀ bar ∈ look.indexBar,
      bar ∈ r.feed.builder.persisted look.check.pos.contract.symbol := fun look hlook bar hbar =>
    (hgrows _).subset (hs.index look hlook bar hbar)
  cases l with
  | bars k => exact ⟨hincreasing hs.increasing, hretains hs.retains, hown, hindex, hs.ordered⟩
  | check c =>
    -- what is looked at is the last bar completed
    have hlast : ∀ symbol, ∀ bar ∈ (r.feed.builder.completed symbol).getLast?,
        bar ∈ (r.feed.builder.persisted symbol).getLast? := fun symbol bar hbar =>
      (hretains hs.retains).getLast?_eq symbol ▸ hbar
    refine ⟨hincreasing hs.increasing, hretains hs.retains, ?_, ?_, ?_⟩
    · intro look' hlook' bar hbar
      rcases List.mem_append.mp hlook' with hold | hnew
      · exact hown look' hold bar hbar
      · obtain rfl := List.mem_singleton.mp hnew
        exact List.mem_of_getLast? (hlast _ bar hbar)
    · intro look' hlook' bar hbar
      rcases List.mem_append.mp hlook' with hold | hnew
      · exact hindex look' hold bar hbar
      · obtain rfl := List.mem_singleton.mp hnew
        exact List.mem_of_getLast? (hlast _ bar hbar)
    · refine List.pairwise_append.mpr ⟨hs.ordered, List.pairwise_singleton _ _, ?_⟩
      intro earlier hearlier next hnext hkey bar hbar bar' hbar'
      obtain rfl := List.mem_singleton.mp hnext
      have hpersisted := (List.pairwise_append.mp (hincreasing hs.increasing (c.key py))).1
      exact minute_le_of_getLast? hpersisted (hkey ▸ hown earlier hearlier bar hbar)
        (hlast _ bar' hbar')

/-! ## What a stop is on -/

/-- A bar is through a stop exactly when a price that it tells of is. -/
theorem breaches_worst_iff (pos : Position) (stop : Price) {bar : OhlcBar} {prices : List Price}
    (h : bar.replayBar.Summarises prices) :
    pos.breaches stop (pos.worst bar.stopBar) = true
      ↔ ∃ p ∈ prices, pos.breaches stop p = true := by
  unfold Position.breaches Position.worst
  cases pos.side with
  | buy =>
    obtain ⟨hmem, hle⟩ := List.min?_eq_some_iff.mp h.least
    simp only [decide_eq_true_eq]
    exact ⟨fun hlow => ⟨_, hmem, hlow⟩, fun ⟨p, hp, hlow⟩ => (hle p hp).trans hlow⟩
  | sell =>
    obtain ⟨hmem, hle⟩ := List.max?_eq_some_iff.mp h.greatest
    simp only [decide_eq_true_eq]
    exact ⟨fun hhigh => ⟨_, hmem, hhigh⟩, fun ⟨p, hp, hhigh⟩ => hhigh.trans (hle p hp)⟩

/-- **What is through the stop**, at a look with a good quote: a price accepted in the
minute of the bar that counts, after that of the entry, or the middle of the quote
beyond the guard; where no bar counts, the price the quote is evaluated at. -/
def Through (py : Builtins) (zone : NyZone) (s : StopSession) (look : StopLook)
    (quote : QuoteSnapshot) (stop : Price) : Prop :=
  match look.counted zone with
  | some bar =>
    (∃ t ∈ s.recorder.feed.accepted (look.symbol py), zone.minute t.ts = bar.minuteStartNy
        ∧ zone.minute look.check.pos.enteredAt < zone.minute t.ts
        ∧ look.check.pos.breaches stop t.price = true)
      ∨ ∃ mid ∈ quote.mid, look.check.pos.breaches (look.check.pos.guardLevel stop) mid = true
  | none => ∃ price ∈ look.check.pos.evalPrice quote, look.check.pos.breaches stop price = true

/-- The bar that a look is at is one completed of its symbol. -/
theorem SeesInOrder.bar_mem (hs : s.SeesInOrder py) {look : StopLook} (hlook : look ∈ s.looks)
    {bar : OhlcBar} (hbar : bar ∈ look.bar) :
    bar ∈ s.recorder.feed.builder.persisted (look.symbol py) := by
  unfold StopLook.bar at hbar
  unfold StopLook.symbol
  cases hown : look.ownBar with
  | some own =>
    rw [hown] at hbar
    exact hs.own look hlook bar (hown ▸ hbar)
  | none =>
    rw [hown] at hbar
    exact hs.index look hlook bar hbar

/-- **Stops are exact.** In every run whose ticks are in order – with reads and checks
of any positions at any times – a check triggers the stop exactly when the position is
open, nothing that comes before triggers, the quote is good, and something is through
the stop: on a bar, a price that was accepted after the minute of the entry. -/
theorem stops_exact {maxCompleted : ℕ} (hmax : 0 < maxCompleted) {ls : List Label}
    (horder : (machine py zone).Along (fun s l _ => s.InOrder zone l) (initial maxCompleted) ls)
    (hrun : (machine py zone).run (initial maxCompleted) ls = some s) {look : StopLook}
    (hlook : look ∈ s.looks) :
    look.stops zone = true
      ↔ ∃ quote ∈ look.check.pos.attended look.check.policy look.check.quote,
        ∃ stop ∈ look.check.pos.stopPrice, s.Through py zone look quote stop := by
  have hs : s.SeesInOrder py := Machine.run_invariant (J := SeesInOrder py)
    (C := fun s l _ => s.InOrder zone l) (fun _ _ _ hs h hin => hs.step hin h)
    (seesInOrder_initial hmax) horder hrun
  obtain ⟨halong, hks⟩ := recorder_run horder hrun
  have hexact : s.recorder.feed.BarsExact zone.minute :=
    (BarFeed.barsExact_iff_inOrder zone.minute maxCompleted _).mpr halong _ _ List.prefix_rfl
      (BarRecorder.run_feed hks)
  rw [StopLook.stops, Position.stops_iff]
  refine exists_congr fun quote => and_congr_right fun _ => ?_
  unfold Position.stopHit Through
  cases look.check.pos.stopPrice with
  | none => simp
  | some stop =>
    cases hcounted : look.counted zone with
    | none => simp [Option.any_eq_true]
    | some bar =>
      obtain ⟨hbar, hafter⟩ := Option.filter_eq_some_iff.mp hcounted
      have hsummarises := BarRecorder.summarises_of_barsExact hexact
        (List.mem_append_left _ (hs.bar_mem hlook hbar))
      have hminute : ∀ t : Tick, (zone.minute t.ts : Time) * 60 = bar.minuteStart
          ↔ zone.minute t.ts = bar.minuteStartNy := fun t => by
        rw [OhlcBar.minuteStart, mul_left_inj' (by norm_num)]
        exact Int.cast_inj
      simp only [Option.map_some, Bool.or_eq_true, Option.any_eq_true, Option.mem_def,
        Option.some.injEq, exists_eq_left', breaches_worst_iff _ _ hsummarises,
        BarRecorder.pricesOf, List.mem_map, List.mem_filter, decide_eq_true_eq, hminute]
      refine or_congr_left ?_
      constructor
      · rintro ⟨p, ⟨t, ⟨ht, hmin⟩, rfl⟩, hbreaches⟩
        exact ⟨t, ht, hmin, hmin ▸ of_decide_eq_true hafter, hbreaches⟩
      · rintro ⟨t, ht, hmin, -, hbreaches⟩
        exact ⟨t.price, ⟨t, ⟨ht, hmin⟩, rfl⟩, hbreaches⟩

section Sample

open BarRecorder (twoPrices winterClock)

theorem sampleBid_le : ∀ b ∈ some (5 : Price), ∀ a ∈ some (6 : Price), b ≤ a := by
  rintro _ ⟨⟩ _ ⟨⟩
  decide

/-- A check of a call sold in the minute before its bar, with a stop at `6`. -/
def sampleCheck : StopCheck where
  pos :=
    { samplePosition with
      side := .sell
      stopPrice := some 6
      targetPrice := none
      createdAt := 63905200140 }
  policy := { currentTime := 63905200261 }
  quote := some
    { bid := some 5
      ask := some 6
      timestamp := 63905200261
      bid_le_ask := sampleBid_le }
  ownReadAt := 63905200260
  indexReadAt := 63905200261
  ownOk := true
  indexOk := true

/-- Two ticks of the call, the second at its stop, and the check after their minute. -/
def sampleSession : List Label :=
  [.bars ⟨.tick (sampleCheck.key twoPrices) (some (11 / 2)) 63905200200, true⟩,
    .bars ⟨.tick (sampleCheck.key twoPrices) (some 6) 63905200230, true⟩, .check sampleCheck]

/-- The end of the session. -/
def sampleEnd : StopSession :=
  ((machine twoPrices winterClock).run (initial 480) sampleSession).getD (initial 480)

theorem run_sampleSession :
    (machine twoPrices winterClock).run (initial 480) sampleSession = some sampleEnd := rfl

theorem inOrder_sampleSession : (machine twoPrices winterClock).Along
    (fun s l _ => s.InOrder winterClock l) (initial 480) sampleSession := by
  refine (Machine.along_cons_some rfl).mpr ⟨?_, (Machine.along_cons_some rfl).mpr
    ⟨?_, (Machine.along_cons_some rfl).mpr ⟨?_, trivial⟩⟩⟩
  · rintro _ ⟨⟩ symbol price ts ⟨⟩ - - bar ⟨⟩
  · rintro _ ⟨⟩ symbol price ts ⟨⟩ - hnone
    exact absurd hnone (by decide +kernel)
  · rintro _ ⟨⟩

theorem stops_exact_sampleSession :
    (machine twoPrices winterClock).run (initial 480) sampleSession = some sampleEnd
      ∧ ∀ look ∈ sampleEnd.looks, look.stops winterClock = true
        ↔ ∃ quote ∈ look.check.pos.attended look.check.policy look.check.quote,
          ∃ stop ∈ look.check.pos.stopPrice,
            sampleEnd.Through twoPrices winterClock look quote stop :=
  ⟨rfl, fun _ hlook => stops_exact (by decide) inOrder_sampleSession run_sampleSession hlook⟩

end Sample

end StopSession

/-! ## The exits of the replay -/

def nyExitShort : Time := hhmm 15 30

/-- The exit of a short leg at one of its bars. -/
def shortExitAt (slPrice : Price) (b : ReplayBar) : Option ReplayExit :=
  if slPrice ≤ b.high then some ⟨b.minuteNy, slPrice, .stopLoss⟩
  else if nyExitShort ≤ b.minuteNy.timeOfDay then some ⟨b.minuteNy, b.close, .timeExit⟩
  else none

/-- **`replay_short_leg_exit`**; there is none without bars. -/
def replayShortLegExit (legBars : List ReplayBar) (entryPrice : Price) (entryMinute : Time)
    (stopLossPct : ℚ) : Option ReplayExit :=
  ((legBars.filter (entryMinute ≤ ·.minuteNy)).findSome?
      (shortExitAt (entryPrice * (1 + stopLossPct)))).or
    (legBars.getLast?.map fun last => ⟨last.minuteNy, last.close, .endOfData⟩)

/-- **The exit that the replay gives a position** of a side, with its stop, over the
bars of its option from a minute on: that of the loop of `replay_breakout` for a long
one, and that of `replay_short_leg_exit` for a short one. -/
inductive Replayed (bars : List ReplayBar) (start : Time) :
    OrderSide → Price → Option ReplayExit → Prop
  | long (slPrice : Price) :
    Replayed bars start .buy slPrice (longExit slPrice (bars.filter (start ≤ ·.minuteNy)))
  | short (entryPrice : Price) (stopLossPct : ℚ) :
    Replayed bars start .sell (entryPrice * (1 + stopLossPct))
      (replayShortLegExit bars entryPrice start stopLossPct)

/-- The time of the day from which the replay exits a position of a side. -/
def nyExit : OrderSide → Time
  | .buy => nyExitLong
  | .sell => nyExitShort

/-- Whether a recorded bar is through a stop. -/
def ReplayBar.through (side : OrderSide) (slPrice : Price) (b : ReplayBar) : Bool :=
  match side with
  | .buy => b.low ≤ slPrice
  | .sell => slPrice ≤ b.high

/-- The stop at a bar, if it is through. -/
def stopAt (side : OrderSide) (slPrice : Price) (b : ReplayBar) : Option Unit :=
  if b.through side slPrice then some () else none

/-- The bars that the replay can stop at: up to the first from the time of its exit
on. -/
def upToExit (side : OrderSide) : List ReplayBar → List ReplayBar
  | [] => []
  | b :: bars =>
    if nyExit side ≤ b.minuteNy.timeOfDay then [b] else b :: upToExit side bars

theorem isPrefix_upToExit (side : OrderSide) (bars : List ReplayBar) :
    upToExit side bars <+: bars := by
  induction bars with
  | nil => exact List.prefix_rfl
  | cons b bars ih =>
    rw [upToExit]
    split_ifs with hlate
    · exact List.prefix_append [b] bars
    · exact List.cons_prefix_cons.mpr ⟨rfl, ih⟩

/-- The minute of an exit, where it is a stop. -/
def ReplayExit.stopMinute (e : ReplayExit) : Option Time :=
  if e.exitReason = .stopLoss then some e.exitMinute else none

/-- **A scan that stops or is out of time** stops at the first bar through the stop, of
those up to its time. -/
theorem stopMinute_findSome {side : OrderSide} {slPrice : Price}
    {exitAt : ReplayBar → Option ReplayExit}
    (hexit : ∀ b, exitAt b = if b.through side slPrice then some ⟨b.minuteNy, slPrice, .stopLoss⟩
      else if nyExit side ≤ b.minuteNy.timeOfDay then some ⟨b.minuteNy, b.close, .timeExit⟩
      else none)
    (bars : List ReplayBar) {last : Option ReplayExit}
    (hlast : ∀ e ∈ last, e.exitReason = .endOfData) :
    ((bars.findSome? exitAt).or last).bind ReplayExit.stopMinute
      = (Sampling.firstMove (stopAt side slPrice) (upToExit side bars)).map (·.1.minuteNy) := by
  induction bars with
  | nil =>
    cases last with
    | none => rfl
    | some e => simp [ReplayExit.stopMinute, hlast e rfl, Sampling.firstMove, upToExit]
  | cons b bars ih =>
    rw [List.findSome?_cons, hexit b]
    by_cases hthrough : b.through side slPrice = true
    · have hfirst : Sampling.firstMove (stopAt side slPrice) (upToExit side (b :: bars))
          = some (b, ()) := by
        rw [upToExit]
        split_ifs <;> simp [Sampling.firstMove, stopAt, hthrough]
      rw [hfirst, if_pos hthrough]
      rfl
    · rw [if_neg hthrough, upToExit]
      by_cases hlate : nyExit side ≤ b.minuteNy.timeOfDay
      · rw [if_pos hlate, if_pos hlate]
        simp [ReplayExit.stopMinute, Sampling.firstMove, stopAt, hthrough]
      · rw [if_neg hlate, if_neg hlate]
        refine ih.trans ?_
        simp [Sampling.firstMove, stopAt, hthrough]

/-- **The stop of the replay** is at the first bar through it, of those from its start
to the time of its exit. -/
theorem Replayed.stopMinute_eq {bars : List ReplayBar} {start : Time} {side : OrderSide}
    {slPrice : Price} {replay : Option ReplayExit} (h : Replayed bars start side slPrice replay) :
    replay.bind ReplayExit.stopMinute
      = (Sampling.firstMove (stopAt side slPrice)
          (upToExit side (bars.filter (start ≤ ·.minuteNy)))).map (·.1.minuteNy) := by
  cases h with
  | long slPrice =>
    refine stopMinute_findSome (fun b => ?_) _ fun e he => ?_
    · simp only [longExitAt, ReplayBar.through, decide_eq_true_eq]
      rfl
    · obtain ⟨b, -, rfl⟩ := Option.map_eq_some_iff.mp he
      rfl
  | short entryPrice stopLossPct =>
    refine stopMinute_findSome (fun b => ?_) _ fun e he => ?_
    · simp only [shortExitAt, ReplayBar.through, decide_eq_true_eq]
      rfl
    · obtain ⟨b, -, rfl⟩ := Option.map_eq_some_iff.mp he
      rfl

/-! ## The first stop -/

namespace StopLook

variable (zone : NyZone)

/-- Whether the bar that counts is through the stop. -/
def barThrough (look : StopLook) : Bool :=
  (look.counted zone).any fun bar => look.check.pos.stopPrice.any fun stop =>
    look.check.pos.breaches stop (look.check.pos.worst bar.stopBar)

/-- **The bar that a look rests on**: that of the option, where it counts and the quote
is attended, unless the stop triggers on something else. -/
def restsOn (look : StopLook) : Option ReplayBar :=
  if look.ownBar.isSome
      ∧ (look.check.pos.attended look.check.policy look.check.quote).isSome
      ∧ (look.stops zone → look.barThrough zone) then
    (look.counted zone).map OhlcBar.replayBar
  else none

/-- The stop of a look, if it triggers. -/
def stop? (look : StopLook) : Option Unit := if look.stops zone then some () else none

variable {zone} {look : StopLook}

/-- What a look rests on is the bar of the option. -/
theorem restsOn_eq_some {b : ReplayBar} (h : b ∈ look.restsOn zone) : ∃ bar ∈ look.ownBar,
    zone.minute look.check.pos.enteredAt < bar.minuteStartNy ∧ look.counted zone = some bar
      ∧ (look.check.pos.attended look.check.policy look.check.quote).isSome
      ∧ (look.stops zone → look.barThrough zone) ∧ bar.replayBar = b := by
  unfold restsOn at h
  split_ifs at h with hrests
  · obtain ⟨hown, hattended, hthrough⟩ := hrests
    obtain ⟨bar, hcounted, rfl⟩ := Option.map_eq_some_iff.mp h
    obtain ⟨hbar, hafter⟩ := Option.filter_eq_some_iff.mp hcounted
    obtain ⟨own, heq⟩ := Option.isSome_iff_exists.mp hown
    obtain rfl : own = bar := by
      rw [StopLook.bar, heq] at hbar
      exact Option.some.inj hbar
    exact ⟨own, heq, of_decide_eq_true hafter, hcounted, hattended, hthrough, rfl⟩
  · cases h

/-- **A look that rests on a bar stops where the replay does.** -/
theorem stop?_eq_stopAt {side : OrderSide} {slPrice : Price} (hside : look.check.pos.side = side)
    (hstop : look.check.pos.stopPrice = some slPrice) {b : ReplayBar}
    (h : b ∈ look.restsOn zone) : look.stop? zone = stopAt side slPrice b := by
  obtain ⟨bar, -, -, hcounted, hattended, hthrough, rfl⟩ := restsOn_eq_some h
  have hbar : look.barThrough zone = bar.replayBar.through side slPrice := by
    rw [barThrough, hcounted, hstop, Option.any_some, Option.any_some]
    unfold Position.breaches Position.worst
    rw [hside]
    cases side <;> rfl
  have hstops : look.stops zone = true ↔ bar.replayBar.through side slPrice = true := by
    refine ⟨fun hstops => hbar ▸ hthrough hstops, fun hback => ?_⟩
    obtain ⟨quote, hquote⟩ := Option.isSome_iff_exists.mp hattended
    refine Position.stops_iff.mpr ⟨quote, hquote, ?_⟩
    rw [← hbar, barThrough, hcounted, hstop, Option.any_some, Option.any_some] at hback
    simp only [Position.stopHit, hstop, hcounted, Option.map_some, hback, Bool.true_or]
  unfold stop? stopAt
  exact if_congr hstops rfl rfl

end StopLook

namespace StopSession

variable {zone : NyZone} {s : StopSession}

/-- The looks at a position. -/
def looksOf (s : StopSession) (pid : PositionId) : List StopLook :=
  s.looks.filter (·.check.pos.positionId = pid)

/-- **The first stop of a position**, with its look. -/
def firstStop (zone : NyZone) (s : StopSession) (pid : PositionId) : Option (StopLook × Unit) :=
  Sampling.firstMove (StopLook.stop? zone) (s.looksOf pid)

/-- **The live stop is that of the replay**: there is neither, or it rests on the bar of
its minute. -/
def Agrees (zone : NyZone) (live : Option (StopLook × Unit)) (replay : Option ReplayExit) : Prop :=
  match live, replay.bind ReplayExit.stopMinute with
  | none, none => True
  | some (look, _), some minute => ∃ bar ∈ look.restsOn zone, bar.minuteNy = minute
  | _, _ => False

/-- The minutes of what is replayed increase. -/
theorem replayed_increasing {bars : List OhlcBar}
    (h : bars.Pairwise fun bar next => bar.minuteStartNy < next.minuteStartNy)
    {ys : List ReplayBar} (hys : ys.Sublist (bars.map OhlcBar.replayBar)) :
    ys.Pairwise fun bar next => bar.minuteNy < next.minuteNy := by
  refine List.Pairwise.sublist hys (List.pairwise_map.mpr (h.imp fun {bar next} hlt => ?_))
  show bar.minuteStart < next.minuteStart
  unfold OhlcBar.minuteStart
  have hcast : (bar.minuteStartNy : Time) < next.minuteStartNy := by exact_mod_cast hlt
  linarith

/-- **They agree** as two observers do. -/
theorem agrees_iff_sees {pid : PositionId} {side : OrderSide} {slPrice : Price}
    {replay : Option ReplayExit} {ys : List ReplayBar} {bars : List OhlcBar}
    (hbars : bars.Pairwise fun bar next => bar.minuteStartNy < next.minuteStartNy)
    (hys : ys.Sublist (bars.map OhlcBar.replayBar))
    (hrests : ∀ look ∈ s.looksOf pid, ∀ b ∈ look.restsOn zone, b ∈ bars.map OhlcBar.replayBar)
    (hreplay : replay.bind ReplayExit.stopMinute
      = (Sampling.firstMove (stopAt side slPrice) ys).map (·.1.minuteNy)) :
    Agrees zone (s.firstStop zone pid) replay
      ↔ Sampling.Sees (StopLook.restsOn zone) (StopLook.stop? zone) (stopAt side slPrice)
        (s.looksOf pid) ys := by
  unfold Agrees Sampling.Sees firstStop
  rw [hreplay]
  cases hlook : Sampling.firstMove (StopLook.stop? zone) (s.looksOf pid) with
  | none =>
    cases Sampling.firstMove (stopAt side slPrice) ys <;> rfl
  | some found =>
    cases hfirst : Sampling.firstMove (stopAt side slPrice) ys with
    | none => rfl
    | some first =>
      obtain ⟨look, u⟩ := found
      obtain ⟨y, v⟩ := first
      obtain ⟨as, bs, hlooks, -, -⟩ := Sampling.firstMove_eq_some_iff.mp hlook
      obtain ⟨cs, ds, rfl, -, -⟩ := Sampling.firstMove_eq_some_iff.mp hfirst
      refine ⟨fun ⟨b, hb, hminute⟩ => ?_, fun h => ⟨y, h, rfl⟩⟩
      -- of the completed bars one is of that minute
      have hb' := hrests look (by rw [hlooks]; simp) b hb
      have hy : y ∈ bars.map OhlcBar.replayBar := hys.subset (by simp)
      rw [← Sampling.eq_of_key_eq (replayed_increasing hbars (List.Sublist.refl _)) hb' hy hminute]
      exact hb

/-- **The live stop is the replayed one exactly where it is watched.** In every run that
records all its bars, with ticks in order and one offset over the date, let the checks
of a position be of one option, side and stop, those of the replay. Then its first stop
is that of the replay – on the bar of the same minute, or neither – exactly when the bar
of the replay is looked at with a good quote, and no check before has stopped on
anything but a bar of the replay: a quote, a bar of the underlying, or one after the
time of the exit. -/
theorem stop_agrees_iff_watched (py : Builtins) (zone : NyZone) {maxCompleted : ℕ}
    (hmax : 0 < maxCompleted) {ls : List Label} (hrecords : ∀ l ∈ ls, l.Records py)
    (horder : (machine py zone).Along (fun s l _ => s.InOrder zone l) (initial maxCompleted) ls)
    (hrun : (machine py zone).run (initial maxCompleted) ls = some s)
    {date : CivilDate} (hdate : date.year < 10000)
    (hoffset : ∀ m n, NyZone.date m = date → NyZone.date n = date →
      zone.offset m = zone.offset n)
    {d : InsertionDict String (List ReplayBar)}
    (hload : loadBars py s.recorder.disk (barsFile date) = .ok d)
    {key : String} {start : Time} {side : OrderSide} {slPrice : Price} {replay : Option ReplayExit}
    (hreplay : Replayed ((d.get? key).getD []) start side slPrice replay) {pid : PositionId}
    (hleg : ∀ look ∈ s.looksOf pid, look.check.key py = key ∧ look.check.pos.side = side
      ∧ look.check.pos.stopPrice = some slPrice) :
    Agrees zone (s.firstStop zone pid) replay
      ↔ Sampling.Watched (StopLook.restsOn zone) (StopLook.stop? zone) (stopAt side slPrice)
        (s.looksOf pid) (upToExit side (((d.get? key).getD []).filter (start ≤ ·.minuteNy))) := by
  have hs : s.SeesInOrder py := Machine.run_invariant (J := SeesInOrder py)
    (C := fun s l _ => s.InOrder zone l) (fun _ _ _ hs h hin => hs.step hin h)
    (seesInOrder_initial hmax) horder hrun
  obtain ⟨hkin, hks⟩ := recorder_run horder hrun
  have hkeeps : ∀ k ∈ ls.flatMap (Label.reads py), k.Keeps py ∧ k.ok = true := fun k hk => by
    obtain ⟨l, hl, hkl⟩ := List.mem_flatMap.mp hk
    exact hrecords l hl k hkl
  obtain ⟨-, d', hload', hseries⟩ := BarRecorder.loadBars_completed py zone maxCompleted
    (fun k hk => (hkeeps k hk).1) (fun k hk => (hkeeps k hk).2) hkin hks hdate hoffset
  obtain rfl : d' = d := Except.ok.inj (hload'.symm.trans hload)
  have hbars := (List.pairwise_append.mp (hs.increasing key)).1
  have hys : (upToExit side (((d'.get? key).getD []).filter (start ≤ ·.minuteNy))).Sublist
      ((s.recorder.feed.builder.persisted key).map OhlcBar.replayBar) := by
    rw [hseries key]
    exact (isPrefix_upToExit side _).sublist.trans
      (List.filter_sublist.trans (List.filter_sublist.map _))
  have hrests : ∀ look ∈ s.looksOf pid, ∀ b ∈ look.restsOn zone,
      ∃ bar ∈ look.ownBar, bar ∈ s.recorder.feed.builder.persisted key ∧ bar.replayBar = b := by
    intro look hlook b hb
    obtain ⟨bar, hown, -, -, -, -, rfl⟩ := StopLook.restsOn_eq_some hb
    exact ⟨bar, hown, (hleg look hlook).1 ▸ hs.own look (List.mem_of_mem_filter hlook) bar hown,
      rfl⟩
  rw [agrees_iff_sees hbars hys (fun look hlook b hb => by
    obtain ⟨bar, -, hmem, rfl⟩ := hrests look hlook b hb
    exact List.mem_map_of_mem hmem) hreplay.stopMinute_eq]
  refine Sampling.sees_iff_watched ReplayBar.minuteNy (replayed_increasing hbars hys) ?_ ?_
  · refine (hs.ordered.filter _).imp_of_mem fun {look next} hlook hnext h b hb b' hb' => ?_
    obtain ⟨bar, hown, -, rfl⟩ := hrests look hlook b hb
    obtain ⟨bar', hown', -, rfl⟩ := hrests next hnext b' hb'
    have hle := h ((hleg look hlook).1.trans (hleg next hnext).1.symm) bar hown bar' hown'
    show bar.minuteStart ≤ bar'.minuteStart
    unfold OhlcBar.minuteStart
    have hcast : (bar.minuteStartNy : Time) ≤ bar'.minuteStartNy := by exact_mod_cast hle
    linarith
  · intro look hlook b hb _
    obtain ⟨-, hside, hstop⟩ := hleg look hlook
    exact StopLook.stop?_eq_stopAt hside hstop hb

section Sample

open BarRecorder (twoPrices winterClock)

theorem records_sampleSession : ∀ l ∈ sampleSession, l.Records twoPrices := by
  have hkeeps : twoPrices.KeepsPrice (11 / 2) ∧ twoPrices.KeepsPrice 6 := by
    refine ⟨⟨?_, ?_⟩, ⟨?_, ?_⟩⟩ <;> decide +kernel
  intro l hl k hk
  simp only [sampleSession, List.mem_cons, List.not_mem_nil, or_false] at hl
  rcases hl with rfl | rfl | rfl
  · obtain rfl := List.mem_singleton.mp hk
    exact ⟨by rintro _ _ _ ⟨⟩; exact hkeeps.1, rfl⟩
  · obtain rfl := List.mem_singleton.mp hk
    exact ⟨by rintro _ _ _ ⟨⟩; exact hkeeps.2, rfl⟩
  · simp only [Label.reads, List.mem_cons, List.not_mem_nil, or_false] at hk
    rcases hk with rfl | rfl <;> exact ⟨by rintro _ _ _ ⟨⟩, rfl⟩

theorem stop_agrees_iff_watched_sampleSession : ∃ d,
    loadBars twoPrices sampleEnd.recorder.disk (barsFile (NyZone.date 1065086370)) = .ok d
      ∧ Sampling.Watched (StopLook.restsOn winterClock) (StopLook.stop? winterClock)
        (stopAt .sell (5 * (1 + 1 / 5))) (sampleEnd.looksOf 0) (upToExit .sell
          (((d.get? (sampleCheck.key twoPrices)).getD []).filter (63905182200 ≤ ·.minuteNy))) := by
  have hseries : (loadBars twoPrices sampleEnd.recorder.disk
      (barsFile (NyZone.date 1065086370))).toOption.map
        (fun d => (d.get? (sampleCheck.key twoPrices)).getD [])
      = some [⟨sampleCheck.key twoPrices, 63905182200, 11 / 2, 6, 11 / 2, 6⟩] := by
    decide +kernel
  cases hload : loadBars twoPrices sampleEnd.recorder.disk (barsFile (NyZone.date 1065086370)) with
  | error e => rw [hload] at hseries; cases hseries
  | ok d =>
    rw [hload] at hseries
    have hbars : (d.get? (sampleCheck.key twoPrices)).getD [] = _ := Option.some.inj hseries
    have hreplay : (replayShortLegExit ((d.get? (sampleCheck.key twoPrices)).getD []) 5
        63905182200 (1 / 5)).bind ReplayExit.stopMinute = some 63905182200 := by
      rw [hbars]
      decide +kernel
    have hlive : (sampleEnd.firstStop winterClock 0).map
        (fun first => (first.1.restsOn winterClock).map (·.minuteNy))
        = some (some 63905182200) := by decide +kernel
    obtain ⟨⟨look, u⟩, hfirst, hrests⟩ := Option.map_eq_some_iff.mp hlive
    obtain ⟨bar, hbar, hminute⟩ := Option.map_eq_some_iff.mp hrests
    have hlooks : ∀ look ∈ sampleEnd.looksOf 0, look.check = sampleCheck := by
      intro look hlook
      have hall : sampleEnd.looks.map StopLook.check = [sampleCheck] := rfl
      have hmem : look.check ∈ sampleEnd.looks.map StopLook.check :=
        List.mem_map_of_mem (List.mem_of_mem_filter hlook)
      rw [hall] at hmem
      exact List.mem_singleton.mp hmem
    refine ⟨d, rfl, (stop_agrees_iff_watched twoPrices winterClock (by decide)
      records_sampleSession inOrder_sampleSession run_sampleSession
      (NyZone.year_date_lt (m := 1065086370) (by decide)) (fun _ _ _ _ => rfl) hload
      (.short 5 (1 / 5)) fun look hlook => ?_).mp ?_⟩
    · rw [hlooks look hlook]
      exact ⟨rfl, rfl, by decide +kernel⟩
    · unfold Agrees
      rw [hfirst, hreplay]
      exact ⟨bar, hbar, hminute⟩

end Sample

end StopSession
