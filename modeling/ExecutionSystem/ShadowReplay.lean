import ExecutionSystem.FiveEma
import ExecutionSystem.InsertionDict
import ExecutionSystem.QuoteKeys
import Mathlib.Data.List.Infix

/-!
# Shadow replay

At the end of a day the recorded one-minute bars are run through the rules of
the backtest, and what comes out is held against what the live system did
(`src/replay/shadow.py`). A breakout is known when the bar of its minute has
closed, so the trade is owed the open of the traded contract's next bar, as
the module promises.

`replay_breakout` takes the bars from the minute of the signal on instead of
those after it. A trade that is priced is free of look-ahead exactly when the
bars of that one minute make no difference (`QuietMinute`): there is none, or
they open where the next bar opens and none of them exits.

The minute of a bar is its wall-clock time in New York. Whether a recorded
symbol is that of the traded contract is for `_symbol_matches` to say, of
which only the outcome matters here.
-/

/-! ## Records -/

/-- `ReplayBar`. -/
structure ReplayBar where
  symbol : String
  minuteNy : Time
  open_ : Price
  high : Price
  low : Price
  close : Price
  deriving DecidableEq

/-- The reason for which a replayed trade is over. -/
inductive ReplayExitReason where
  | stopLoss
  | timeExit
  | endOfData
  deriving DecidableEq

/-- The three exit fields of a replayed trade, which are set together. -/
structure ReplayExit where
  exitMinute : Time
  exitPrice : Price
  exitReason : ReplayExitReason
  deriving DecidableEq

/-- **`ReplayTrade`**: what the rules say should have happened. -/
structure ReplayTrade where
  strategyId : StrategyId
  symbol : String
  direction : String := "long"
  signalMinute : Option Time := none
  entryPrice : Option Price := none
  exit : Option ReplayExit := none
  deriving DecidableEq

/-- What `replay_breakout` raises. -/
inductive ReplayError where
  /-- `time(...)` of an hour or a minute that there is not. -/
  | valueError
  | zeroDivisionError
  deriving DecidableEq

def nyExitLong : Time := hhmm 15 20

/-! ## The match of a symbol -/

/-- `symbol.upper().replace(" ", "")`. -/
def upperNoBlanks (symbol : String) : List Char :=
  (symbol.toList.map upperChar).filter (· ≠ ' ')

/-- The character of a right. -/
def OptionRight.letter : OptionRight → Char
  | .call => 'C'
  | .put => 'P'

/-- The digits of a strike in a symbol of the OCC, in thousandths. -/
def occStrike (digits : List Char) : List Char := ['0', '0'] ++ digits ++ ['0', '0', '0']

/-- The texts that `_symbol_matches` looks for, with the digits of the
strike. -/
def matchCandidates (digits : List Char) (r : Char) : List (List Char) :=
  [digits ++ [r], r :: digits, digits ++ ['.', '0'] ++ [r], r :: (digits ++ ['.', '0']),
    r :: occStrike digits]

/-- **`_symbol_matches`** of a strike without a fraction, as the replay has
them, and of a right that is one of the two letters. -/
def symbolMatches (symbol : String) (strike : ℤ) (right : OptionRight) : Bool :=
  let s := upperNoBlanks symbol
  let digits := (toString strike).toList
  (matchCandidates digits right.letter).any (fun c => c <:+: s)
    || (digits <:+: s && right.letter ∈ s.drop (s.length - 12))

/-! ## The signal -/

/-- The reference price: the close of the bar of 09:30, or else of the first
bar. -/
def referencePrice (underlyingBars : List ReplayBar) : Option Price :=
  ((underlyingBars.find? (·.minuteNy.timeOfDay = hhmm 9 30)).or underlyingBars.head?).map
    ReplayBar.close

/-- The scan for the first bar that closes far enough from the reference. -/
def scanSignal (ref triggerPct : ℚ) (scanFrom : Time) :
    List ReplayBar → Except ReplayError (Option (ReplayBar × OptionRight))
  | [] => .ok none
  | b :: bars =>
    if b.minuteNy.timeOfDay < scanFrom then scanSignal ref triggerPct scanFrom bars
    else if ref = 0 then .error .zeroDivisionError
    else if triggerPct ≤ (b.close - ref) / ref then .ok (some (b, .call))
    else if (b.close - ref) / ref ≤ -triggerPct then .ok (some (b, .put))
    else scanSignal ref triggerPct scanFrom bars

/-- The signal of the day: its bar, and what is bought. -/
def breakoutSignal (underlyingBars : List ReplayBar) (entryHour entryMinute : ℕ)
    (triggerPct : ℚ) : Except ReplayError (Option (ReplayBar × OptionRight)) :=
  match referencePrice underlyingBars with
  | none => .ok none
  | some ref =>
    if entryHour < 24 ∧ entryMinute < 60 then
      scanSignal ref triggerPct (hhmm entryHour entryMinute) underlyingBars
    else .error .valueError

/-! ## The trade -/

/-- The exit of a long trade at one of its bars. -/
def longExitAt (slPrice : Price) (b : ReplayBar) : Option ReplayExit :=
  if b.low ≤ slPrice then some ⟨b.minuteNy, slPrice, .stopLoss⟩
  else if nyExitLong ≤ b.minuteNy.timeOfDay then some ⟨b.minuteNy, b.close, .timeExit⟩
  else none

/-- The exit of a long trade that is held over the bars: the first there is,
or else the last bar. -/
def longExit (slPrice : Price) (bars : List ReplayBar) : Option ReplayExit :=
  (bars.findSome? (longExitAt slPrice)).or
    (bars.getLast?.map fun b => ⟨b.minuteNy, b.close, .endOfData⟩)

/-- The entry and the exit over the bars from the entry on. -/
def ReplayTrade.priced (trade : ReplayTrade) (stopLossPct : ℚ) (after : List ReplayBar) :
    ReplayTrade :=
  match after with
  | [] => trade
  | first :: _ =>
    { trade with
      entryPrice := some first.open_
      exit := longExit (first.open_ * (1 - stopLossPct)) after }

/-- The recorded bars of the traded option, with the symbol they are recorded
under. -/
def tradedBars (optionBars : InsertionDict String (List ReplayBar)) (strike : ℤ)
    (right : OptionRight) : Option (String × List ReplayBar) :=
  optionBars.entries.find? fun e => symbolMatches e.1 strike right

/-- What `replay_breakout` makes of its signal. -/
def replaySignal (py : Builtins) (optionBars : InsertionDict String (List ReplayBar))
    (strategyId : StrategyId) (stopLossPct : ℚ) (signalBar : ReplayBar)
    (right : OptionRight) : ReplayTrade :=
  let strike := roundHalfEven signalBar.close
  match tradedBars optionBars strike right with
  | none =>
    { strategyId := strategyId
      symbol := "XSP " ++ py.floatRepr (.finite strike) ++ " " ++ right.char
      signalMinute := some signalBar.minuteNy }
  | some (optSym, opt) =>
    { strategyId := strategyId
      symbol := optSym
      signalMinute := some signalBar.minuteNy : ReplayTrade }.priced stopLossPct
        (opt.filter fun b => signalBar.minuteNy ≤ b.minuteNy)

/-- **`replay_breakout`.** -/
def replayBreakout (py : Builtins) (underlyingBars : List ReplayBar)
    (optionBars : InsertionDict String (List ReplayBar)) (strategyId : StrategyId)
    (entryHour entryMinute : ℕ) (triggerPct stopLossPct : ℚ) :
    Except ReplayError (Option ReplayTrade) :=
  match breakoutSignal underlyingBars entryHour entryMinute triggerPct with
  | .error e => .error e
  | .ok none => .ok none
  | .ok (some (signalBar, right)) =>
    .ok (some (replaySignal py optionBars strategyId stopLossPct signalBar right))

/-! ## What the trade is owed -/

/-- The minute and the price of an exit. -/
def ReplayExit.fill (e : ReplayExit) : Time × Price := (e.exitMinute, e.exitPrice)

/-- **The trade has no look-ahead**: of the bars of its symbol, it enters at
the open of the first one after the minute of the signal, and its exit is
that of the bars after that minute. -/
def ReplayTrade.NoLookAhead (optionBars : InsertionDict String (List ReplayBar))
    (stopLossPct : ℚ) (trade : ReplayTrade) : Prop :=
  ∀ entry m, trade.entryPrice = some entry → trade.signalMinute = some m →
    ∃ bars next, optionBars.get? trade.symbol = some bars
      ∧ bars.find? (fun b => m < b.minuteNy) = some next
      ∧ entry = next.open_
      ∧ trade.exit.map ReplayExit.fill
        = (longExit (next.open_ * (1 - stopLossPct)) (bars.filter fun b => m < b.minuteNy)).map
          ReplayExit.fill

/-- **The bars of the minute make no difference**: there is none, or there is
a later bar, the first of either opens at the same price, and none of the
minute is at the stop or at the time exit. -/
def QuietMinute (m : Time) (stopLossPct : ℚ) (bars : List ReplayBar) : Prop :=
  bars.filter (fun b => b.minuteNy = m) = []
    ∨ ∃ first next, bars.find? (fun b => b.minuteNy = m) = some first
      ∧ bars.find? (fun b => m < b.minuteNy) = some next
      ∧ first.open_ = next.open_
      ∧ ∀ b ∈ bars, b.minuteNy = m →
        first.open_ * (1 - stopLossPct) < b.low ∧ m.timeOfDay < nyExitLong

/-- The bars are in the order of their minutes. -/
def SortedByMinute (bars : List ReplayBar) : Prop :=
  bars.Pairwise fun a b => a.minuteNy ≤ b.minuteNy

theorem longExitAt_eq_none_iff {slPrice : Price} {b : ReplayBar} : longExitAt slPrice b = none
    ↔ slPrice < b.low ∧ b.minuteNy.timeOfDay < nyExitLong := by
  unfold longExitAt
  split_ifs with hlow htime
  · simp [hlow.not_gt]
  · simp [htime.not_gt]
  · simp [not_le.mp hlow, not_le.mp htime]

/-- An exit at a bar has its minute. -/
theorem exitMinute_of_longExitAt {slPrice : Price} {b : ReplayBar} {e : ReplayExit}
    (h : longExitAt slPrice b = some e) : e.exitMinute = b.minuteNy := by
  unfold longExitAt at h
  split_ifs at h
  · rw [← Option.some.inj h]
  · rw [← Option.some.inj h]

/-- An exit has the minute of one of the bars. -/
theorem exitMinute_of_longExit {slPrice : Price} {bars : List ReplayBar} {e : ReplayExit}
    (h : longExit slPrice bars = some e) : ∃ b ∈ bars, e.exitMinute = b.minuteNy := by
  rw [longExit, Option.or_eq_some_iff] at h
  rcases h with h | ⟨-, h⟩
  · obtain ⟨b, hb, hexit⟩ := List.exists_of_findSome?_eq_some h
    exact ⟨b, hb, exitMinute_of_longExitAt hexit⟩
  · obtain ⟨b, hlast, rfl⟩ := Option.map_eq_some_iff.mp h
    exact ⟨b, List.mem_of_getLast? hlast, rfl⟩

/-- Bars that do not exit, before others, do not change the exit. -/
theorem longExit_append {slPrice : Price} {own later : List ReplayBar} (hlater : later ≠ [])
    (h : ∀ b ∈ own, longExitAt slPrice b = none) :
    longExit slPrice (own ++ later) = longExit slPrice later := by
  rw [longExit, longExit, List.findSome?_append, List.findSome?_eq_none_iff.mpr h,
    Option.none_or, List.getLast?_append_of_ne_nil _ hlater]

/-- A bar that exits, before others, makes the exit one of its minute. -/
theorem longExit_append_of_exit {slPrice : Price} {own : List ReplayBar} (later : List ReplayBar)
    {m : Time} (hown : ∀ b ∈ own, b.minuteNy = m) (h : ¬ ∀ b ∈ own, longExitAt slPrice b = none) :
    ∃ e, longExit slPrice (own ++ later) = some e ∧ e.exitMinute = m := by
  rw [← List.findSome?_eq_none_iff] at h
  obtain ⟨e, he⟩ := Option.ne_none_iff_exists'.mp h
  obtain ⟨b, hb, hexit⟩ := List.exists_of_findSome?_eq_some he
  refine ⟨e, ?_, (exitMinute_of_longExitAt hexit).trans (hown b hb)⟩
  rw [longExit, List.findSome?_append, he]
  rfl

/-- **The bars of a minute make no difference to the exit from later bars**
exactly where none of them exits. -/
theorem fill_longExit_append_iff {slPrice : Price} {own later : List ReplayBar} {m : Time}
    (hown : ∀ b ∈ own, b.minuteNy = m) (hlater : ∀ b ∈ later, m < b.minuteNy)
    (hne : later ≠ []) :
    (longExit slPrice (own ++ later)).map ReplayExit.fill
        = (longExit slPrice later).map ReplayExit.fill
      ↔ ∀ b ∈ own, longExitAt slPrice b = none := by
  constructor
  · intro hexit
    -- an exit within the minute is none of the later bars
    by_contra hnot
    obtain ⟨e, he, hminute⟩ := longExit_append_of_exit later hown hnot
    rw [he, Option.map_some] at hexit
    obtain ⟨e', he', hfill⟩ := Option.map_eq_some_iff.mp hexit.symm
    obtain ⟨b, hb, hb'⟩ := exitMinute_of_longExit he'
    have hsame : e'.exitMinute = e.exitMinute := congrArg Prod.fst hfill
    exact (hlater b hb).ne' (hb'.symm.trans (hsame.trans hminute))
  · intro hnone
    rw [longExit_append hne hnone]

/-! ## The bars of one minute decide -/

section Priced

variable {m : Time} {stopLossPct : ℚ} {bars : List ReplayBar}

/-- **What a trade over the bars from the minute of the signal on makes of
them** is what the bars after it would make, exactly in a quiet minute. -/
theorem priced_eq_iff (hsorted : SortedByMinute bars) :
    (∀ first rest, bars.filter (fun b => m ≤ b.minuteNy) = first :: rest →
      ∃ next, bars.find? (fun b => m < b.minuteNy) = some next ∧ first.open_ = next.open_
        ∧ (longExit (first.open_ * (1 - stopLossPct)) (first :: rest)).map ReplayExit.fill
          = (longExit (next.open_ * (1 - stopLossPct))
            (bars.filter fun b => m < b.minuteNy)).map ReplayExit.fill)
      ↔ QuietMinute m stopLossPct bars := by
  unfold QuietMinute
  rw [List.filter_le_eq_append hsorted, ← List.head?_filter, ← List.head?_filter]
  have hown : ∀ b ∈ bars.filter (fun b => b.minuteNy = m), b.minuteNy = m := fun b hb => by
    simpa using (List.mem_filter.mp hb).2
  have hlater : ∀ b ∈ bars.filter (fun b => m < b.minuteNy), m < b.minuteNy := fun b hb => by
    simpa using (List.mem_filter.mp hb).2
  have hmem : ∀ b, b ∈ bars ∧ b.minuteNy = m ↔ b ∈ bars.filter (fun b => b.minuteNy = m) :=
    fun b => by simp
  have hquiet : ∀ sl, (∀ b ∈ bars, b.minuteNy = m → sl < b.low ∧ m.timeOfDay < nyExitLong)
      ↔ ∀ b ∈ bars.filter (fun b => b.minuteNy = m), longExitAt sl b = none := fun sl => by
    simp only [← hmem, and_imp, longExitAt_eq_none_iff]
    exact forall_congr' fun b => forall_congr' fun _ => forall_congr' fun hb => by rw [hb]
  simp only [hquiet]
  generalize bars.filter (fun b => b.minuteNy = m) = own at *
  generalize bars.filter (fun b => m < b.minuteNy) = later at *
  cases own with
  | nil =>
    refine iff_of_true (fun first rest h => ⟨first, ?_, rfl, ?_⟩) (.inl rfl)
    · rw [List.nil_append] at h
      rw [h, List.head?_cons]
    · rw [List.nil_append] at h
      rw [h]
  | cons first rest =>
    simp only [List.cons_append, List.cons.injEq, reduceCtorEq, false_or, List.head?_cons,
      Option.some.injEq]
    have hne : ∀ next, later.head? = some next → later ≠ [] := fun next hnext hnil => by
      rw [hnil] at hnext
      cases hnext
    constructor
    · intro h
      obtain ⟨next, hnext, hopen, hexit⟩ := h first (rest ++ later) ⟨rfl, rfl⟩
      rw [← hopen, ← List.cons_append,
        fill_longExit_append_iff hown hlater (hne next hnext)] at hexit
      exact ⟨first, next, rfl, hnext, hopen, hexit⟩
    · rintro ⟨_, next, rfl, hnext, hopen, hnone⟩ _ _ ⟨rfl, rfl⟩
      refine ⟨next, hnext, hopen, ?_⟩
      rw [← hopen, ← List.cons_append, fill_longExit_append_iff hown hlater (hne next hnext)]
      exact hnone

end Priced

section Replay

variable {py : Builtins} {underlyingBars : List ReplayBar}
  {optionBars : InsertionDict String (List ReplayBar)} {strategyId : StrategyId}
  {entryHour entryMinute : ℕ} {triggerPct stopLossPct : ℚ}

/-- What is returned is what is made of the signal. -/
theorem replayBreakout_eq_some {trade : ReplayTrade} :
    replayBreakout py underlyingBars optionBars strategyId entryHour entryMinute triggerPct
        stopLossPct = .ok (some trade)
      ↔ ∃ signalBar right, breakoutSignal underlyingBars entryHour entryMinute triggerPct
          = .ok (some (signalBar, right))
        ∧ trade = replaySignal py optionBars strategyId stopLossPct signalBar right := by
  unfold replayBreakout
  cases breakoutSignal underlyingBars entryHour entryMinute triggerPct with
  | error e => simp
  | ok signal =>
    cases signal with
    | none => simp
    | some s =>
      obtain ⟨signalBar, right⟩ := s
      simp only [Except.ok.injEq, Option.some.injEq, Prod.mk.injEq]
      exact ⟨fun h => ⟨_, _, ⟨rfl, rfl⟩, h.symm⟩, fun ⟨_, _, ⟨hb, hr⟩, h⟩ => by rw [h, hb, hr]⟩

/-- Pricing leaves the symbol. -/
theorem ReplayTrade.priced_symbol (trade : ReplayTrade) (after : List ReplayBar) :
    (trade.priced stopLossPct after).symbol = trade.symbol := by
  cases after with
  | nil => rfl
  | cons first rest => rfl

/-- Without bars of the option, the trade is not priced. -/
theorem replaySignal_of_none {signalBar : ReplayBar} {right : OptionRight}
    (h : tradedBars optionBars (roundHalfEven signalBar.close) right = none) :
    (replaySignal py optionBars strategyId stopLossPct signalBar right).entryPrice = none := by
  simp only [replaySignal, h]

/-- With bars of the option, the trade is priced by those from the signal
on. -/
theorem replaySignal_of_some {signalBar : ReplayBar} {right : OptionRight} {optSym : String}
    {opt : List ReplayBar}
    (h : tradedBars optionBars (roundHalfEven signalBar.close) right = some (optSym, opt)) :
    replaySignal py optionBars strategyId stopLossPct signalBar right
      = ReplayTrade.priced
        { strategyId := strategyId, symbol := optSym, signalMinute := some signalBar.minuteNy }
        stopLossPct (opt.filter fun b => signalBar.minuteNy ≤ b.minuteNy) := by
  simp only [replaySignal, h]

/-- **What is made of a signal has no look-ahead** exactly where the minute
of the signal is quiet for the traded option. -/
theorem noLookAhead_replaySignal_iff (signalBar : ReplayBar) (right : OptionRight)
    (hsorted : ∀ e ∈ optionBars.entries, SortedByMinute e.2) :
    (replaySignal py optionBars strategyId stopLossPct signalBar right).NoLookAhead optionBars
        stopLossPct
      ↔ ∀ e, tradedBars optionBars (roundHalfEven signalBar.close) right = some e →
        QuietMinute signalBar.minuteNy stopLossPct e.2 := by
  cases htraded : tradedBars optionBars (roundHalfEven signalBar.close) right with
  | none =>
    refine iff_of_true (fun entry m hentry => ?_) (fun e h => ?_)
    · rw [replaySignal_of_none htraded] at hentry
      cases hentry
    · cases h
  | some traded =>
    obtain ⟨optSym, opt⟩ := traded
    have hmem : (optSym, opt) ∈ optionBars.entries := List.mem_of_find?_eq_some htraded
    have hget : optionBars.get? optSym = some opt := InsertionDict.get?_eq_some_iff.mpr hmem
    simp only [Option.some.injEq, forall_eq']
    rw [← priced_eq_iff (hsorted _ hmem), replaySignal_of_some htraded]
    generalize opt.filter (fun b => signalBar.minuteNy ≤ b.minuteNy) = after
    cases after with
    | nil =>
      refine iff_of_true (fun entry m hentry => ?_) (fun first rest h => ?_)
      · cases hentry
      · cases h
    | cons first rest =>
      constructor
      · rintro h _ _ ⟨rfl, rfl⟩
        obtain ⟨bars, next, hbars, hnext, hopen, hexit⟩ := h _ _ rfl rfl
        obtain rfl := Option.some.inj (hget.symm.trans hbars)
        exact ⟨next, hnext, hopen, hexit⟩
      · rintro h _ _ ⟨⟩ ⟨⟩
        obtain ⟨next, hnext, hopen, hexit⟩ := h first rest rfl
        exact ⟨opt, next, hget, hnext, hopen, hexit⟩

/-- **The replay has no look-ahead exactly in quiet minutes.** -/
theorem replayBreakout_noLookAhead_iff (py : Builtins) (underlyingBars : List ReplayBar)
    (optionBars : InsertionDict String (List ReplayBar)) (strategyId : StrategyId)
    (entryHour entryMinute : ℕ) (triggerPct stopLossPct : ℚ)
    (hsorted : ∀ e ∈ optionBars.entries, SortedByMinute e.2) :
    (∀ trade, replayBreakout py underlyingBars optionBars strategyId entryHour entryMinute
        triggerPct stopLossPct = .ok (some trade) → trade.NoLookAhead optionBars stopLossPct)
      ↔ ∀ signalBar right, breakoutSignal underlyingBars entryHour entryMinute triggerPct
          = .ok (some (signalBar, right)) →
        ∀ e, tradedBars optionBars (roundHalfEven signalBar.close) right = some e →
          QuietMinute signalBar.minuteNy stopLossPct e.2 := by
  simp only [replayBreakout_eq_some]
  constructor
  · intro h signalBar right hsignal
    exact (noLookAhead_replaySignal_iff signalBar right hsorted).mp
      (h _ ⟨signalBar, right, hsignal, rfl⟩)
  · rintro h trade ⟨signalBar, right, hsignal, rfl⟩
    exact (noLookAhead_replaySignal_iff signalBar right hsorted).mpr (h signalBar right hsignal)

end Replay

/-- The underlying goes up by a quarter of a percent at 10:00. -/
def risingBars : List ReplayBar :=
  [⟨"XSP", hhmm 9 30, 700, 700, 700, 700⟩,
    ⟨"XSP", hhmm 10 0, 700, 702, 700, 70175 / 100⟩]

/-- The call that is bought, from the minute of the signal on. -/
def callBars : List ReplayBar :=
  [⟨"XSP260611C00702000", hhmm 10 0, 2, 21 / 10, 19 / 10, 205 / 100⟩,
    ⟨"XSP260611C00702000", hhmm 10 1, 205 / 100, 205 / 100, 135 / 100, 3 / 2⟩]

theorem sortedByMinute_callBars : SortedByMinute callBars := by
  unfold SortedByMinute callBars
  decide +kernel

/-- A recording of one contract. -/
def recordingOf (symbol : String) (bars : List ReplayBar) :
    InsertionDict String (List ReplayBar) :=
  InsertionDict.empty.set symbol bars

/-- The trade enters at the open of the bar whose close is its signal. -/
theorem replayBreakout_looks_ahead :
    (∀ e ∈ (recordingOf "XSP260611C00702000" callBars).entries, SortedByMinute e.2)
      ∧ ¬ ∀ trade, replayBreakout sampleBuiltins risingBars
          (recordingOf "XSP260611C00702000" callBars) "xsp_0dte_1000" 10 0 (2 / 1000) (3 / 10)
            = .ok (some trade) →
        trade.NoLookAhead (recordingOf "XSP260611C00702000" callBars) (3 / 10) := by
  refine ⟨fun e he => ?_, fun h => ?_⟩
  · obtain rfl := List.mem_singleton.mp he
    exact sortedByMinute_callBars
  · have hreplay : replayBreakout sampleBuiltins risingBars
        (recordingOf "XSP260611C00702000" callBars) "xsp_0dte_1000" 10 0 (2 / 1000) (3 / 10)
          = .ok (some
            { strategyId := "xsp_0dte_1000"
              symbol := "XSP260611C00702000"
              signalMinute := some (hhmm 10 0)
              entryPrice := some 2
              exit := some ⟨hhmm 10 1, 14 / 10, .stopLoss⟩ }) := by decide +kernel
    obtain ⟨bars, next, hbars, hnext, hopen, -⟩ := h _ hreplay 2 (hhmm 10 0) rfl rfl
    obtain rfl : callBars = bars := Option.some.inj hbars
    have hnext' : callBars.find? (fun b => hhmm 10 0 < b.minuteNy)
        = some ⟨"XSP260611C00702000", hhmm 10 1, 205 / 100, 205 / 100, 135 / 100, 3 / 2⟩ := by
      rw [callBars, List.find?_cons_of_neg (by decide +kernel),
        List.find?_cons_of_pos (by decide +kernel)]
    rw [hnext'] at hnext
    obtain rfl := Option.some.inj hnext
    exact absurd hopen (by decide +kernel)

/-- Where the first bar of the option is the one after the signal, the trade
enters at its open, and has no look-ahead. -/
theorem replayBreakout_noLookAhead_next :
    ∃ trade, replayBreakout sampleBuiltins risingBars
        (recordingOf "XSP260611C00702000" (callBars.drop 1)) "xsp_0dte_1000" 10 0 (2 / 1000)
        (3 / 10) = .ok (some trade)
      ∧ trade.entryPrice = some (205 / 100)
      ∧ trade.NoLookAhead (recordingOf "XSP260611C00702000" (callBars.drop 1)) (3 / 10) := by
  have hentry : ∀ e ∈ (recordingOf "XSP260611C00702000" (callBars.drop 1)).entries,
      e = ("XSP260611C00702000", callBars.drop 1) := fun e he => List.mem_singleton.mp he
  have hsorted : ∀ e ∈ (recordingOf "XSP260611C00702000" (callBars.drop 1)).entries,
      SortedByMinute e.2 := fun e he => by
    rw [hentry e he]
    exact List.pairwise_singleton _ _
  have hsignal : breakoutSignal risingBars 10 0 (2 / 1000)
      = .ok (some (⟨"XSP", hhmm 10 0, 700, 702, 700, 70175 / 100⟩, .call)) := by
    decide +kernel
  have hreplay : replayBreakout sampleBuiltins risingBars
      (recordingOf "XSP260611C00702000" (callBars.drop 1)) "xsp_0dte_1000" 10 0 (2 / 1000)
      (3 / 10) = .ok (some
        { strategyId := "xsp_0dte_1000"
          symbol := "XSP260611C00702000"
          signalMinute := some (hhmm 10 0)
          entryPrice := some (205 / 100)
          exit := some ⟨hhmm 10 1, 287 / 200, .stopLoss⟩ }) := by decide +kernel
  refine ⟨_, hreplay, rfl, (replayBreakout_noLookAhead_iff sampleBuiltins risingBars _
    "xsp_0dte_1000" 10 0 (2 / 1000) (3 / 10) hsorted).mpr (fun signalBar right h e he => .inl ?_)
    _ hreplay⟩
  rw [hsignal] at h
  obtain ⟨rfl, -⟩ := Prod.mk.inj (Option.some.inj (Except.ok.inj h))
  rw [hentry e (List.mem_of_find?_eq_some he)]
  decide +kernel
