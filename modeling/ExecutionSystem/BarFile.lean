import ExecutionSystem.IsoTime
import ExecutionSystem.Json
import ExecutionSystem.ShadowReplay
import ExecutionSystem.StableSort

/-!
# The bar file

Every bar that the builder completes is appended to the file of its day, one
JSON object on a line (`_persist` of `src/marketdata/bars.py`), and the shadow
replay reads the file back after the close (`load_bars` of
`src/replay/shadow.py`): the bars under their symbols, sorted by their minutes.

What is on the disk at the end of a run are the lines of the bars whose write
succeeded, in the order in which they were completed; so the replay sees, of
each symbol, these bars with the prices and minutes that the builder had, in
the order of their minutes (`BarRecorder.loadBars_recorded`). Where the ticks
that start a bar come in order and no write fails, these are the bars of the
day as they were completed (`BarRecorder.loadBars_inOrder`).

The wall clock of New York gives each instant its minute, and each minute its
offset from UTC (`NyZone`). A minute that the clock shows twice has one offset
here.
-/

/-! ## Numbers -/

/-- A number: an integer, or a float. -/
inductive PyNumber where
  | int (n : ℤ)
  | float (x : PyFloat)
  deriving DecidableEq

/-- **The numbers of a JSON text**: one without a fraction and an exponent is
an integer. -/
def Builtins.jsonNumbers (py : Builtins) : JsonNumbers PyNumber where
  text
    | .int n => if n < 0 then '-' :: Nat.toDigits 10 n.natAbs else Nat.toDigits 10 n.natAbs
    | .float x => (py.floatRepr x).toList
  read token :=
    if token.all Char.isDigit then some (.int (Nat.ofDigitChars 10 token 0))
    else if token.head? = some '-' ∧ token.tail.all Char.isDigit then
      some (.int (-Nat.ofDigitChars 10 token.tail 0))
    else (py.parseFloat (String.ofList token)).map .float

/-- A price that is read back from its text. -/
def Builtins.KeepsPrice (py : Builtins) (p : Price) : Prop :=
  py.jsonNumbers.ReadsBack (.float (.finite p))

/-! ## The wall clock -/

/-- The first day of the year 10000. -/
def dayLimit : ℕ := 3652059

/-- **The wall clock of New York**, in whole minutes from the first day of the
year 1 on, with the offsets from UTC that it has. -/
structure NyZone where
  minute : Time → ℤ
  offset : ℤ → ℤ
  minute_mem : ∀ t, 0 ≤ minute t ∧ minute t < dayLimit * 1440
  offset_lt : ∀ m, (offset m).natAbs < 1440

namespace NyZone

/-- The date of a minute. -/
def date (m : ℤ) : CivilDate := .ofDayNumber (m / 1440).toNat

theorem dayLimit_eq : Calendar.daysBeforeYear 10000 = dayLimit := by
  norm_num [Calendar.daysBeforeYear, dayLimit]

/-- A minute before the limit is of a year with four digits. -/
theorem year_date_lt {m : ℤ} (h : 0 ≤ m ∧ m < dayLimit * 1440) : (date m).year < 10000 := by
  refine CivilDate.year_lt_of_dayNumber_lt (by decide) ?_
  rw [date, CivilDate.dayNumber_ofDayNumber, dayLimit_eq]
  unfold dayLimit at *
  omega

/-- The date time of a minute; there is none out of range. -/
def isoTime (zone : NyZone) (m : ℤ) : Option IsoTime :=
  if h : 0 ≤ m ∧ m < dayLimit * 1440 then
    some
      { date := date m
        secondOfDay := (m % 1440).toNat * 60
        microsecond := 0
        offsetMinutes := zone.offset m
        year_le := year_date_lt h
        second_lt := by omega
        microsecond_lt := by decide
        offset_lt := zone.offset_lt m }
  else none

end NyZone

/-! ## Writing -/

/-- The files of the directory, by their names. -/
abbrev Disk := String → Option (List Char)

/-- `bars_YYYYMMDD.jsonl`. -/
def barsFile (date : CivilDate) : String := "bars_" ++ String.ofList date.digits ++ ".jsonl"

/-- The object of a bar. -/
def OhlcBar.json (bar : OhlcBar) (time : IsoTime) : Json PyNumber :=
  .obj
    [("symbol", .str bar.symbol),
      ("minute_ny", .str (String.ofList time.isoformat)),
      ("open", .num (.float (.finite bar.openPrice))),
      ("high", .num (.float (.finite bar.high))),
      ("low", .num (.float (.finite bar.low))),
      ("close", .num (.float (.finite bar.closePrice))),
      ("ticks", .num (.int bar.tickCount))]

/-- **`_persist`**: what it raises is ignored. The write may fail. -/
def Disk.persist (disk : Disk) (py : Builtins) (zone : NyZone) (bar : OhlcBar) (ok : Bool) :
    Disk :=
  match zone.isoTime bar.minuteStartNy with
  | none => disk
  | some time =>
    if ok then
      let name := barsFile time.date
      Function.update disk name
        (some ((disk name).getD [] ++ (Json.dumps py.jsonNumbers (bar.json time) ++ ['\n'])))
    else disk

/-! ## Reading -/

/-- What `load_bars` does not expect. -/
inductive LoadError where
  | typeError
  deriving DecidableEq

/-- A price of a record. -/
def Json.price? : Json PyNumber → Except LoadError Price
  | .num (.int n) => .ok n
  | .num (.float (.finite q)) => .ok q
  | _ => .error .typeError

/-- A text of a record. -/
def Json.text? : Json PyNumber → Except LoadError String
  | .str s => .ok s
  | _ => .error .typeError

/-- The wall-clock time of a date time, in seconds. -/
def IsoTime.wall (t : IsoTime) : Time := t.wallSeconds + t.microsecond / 1000000

/-- **A bar of the file**, with the instant its minute is sorted by. -/
structure LoadedBar where
  bar : ReplayBar
  instant : ℤ
  deriving DecidableEq

/-- **The bar of an object**, member by member in the order in which they are
looked at: `none` where a member is missing or the minute cannot be read, for
such a line is skipped. A symbol that is no text and a price that is no number
are left out: the record would hold them, and they are an error here. -/
def readBar : Json PyNumber → Except LoadError (Option LoadedBar)
  | .obj members =>
    match Json.get? members "symbol", Json.get? members "minute_ny" with
    | some symbol, some minute => do
      let text ← minute.text?
      match IsoTime.fromIsoformat text.toList with
      | none => .ok none
      | some time =>
        match Json.get? members "open", Json.get? members "high",
          Json.get? members "low", Json.get? members "close" with
        | some o, some h, some l, some c => do
          let symbol ← symbol.text?
          let o ← o.price?
          let h ← h.price?
          let l ← l.price?
          let c ← c.price?
          .ok (some ⟨⟨symbol, time.wall, o, h, l, c⟩, time.instant⟩)
        | _, _, _, _ => .ok none
    | _, _ => .ok none
  | _ => .error .typeError

/-- The bars under their symbols, in the order of the lines. -/
def groupBySymbol (rows : List LoadedBar) : InsertionDict String (List LoadedBar) :=
  InsertionDict.empty.collectAll (fun row => some (row.bar.symbol, row)) rows

/-- `bars.sort(key=lambda b: b.minute_ny)`. -/
def sortByMinute (rows : List LoadedBar) : List ReplayBar :=
  (rows.insertionSort fun a b => a.instant ≤ b.instant).map LoadedBar.bar

/-- **`load_bars`.** -/
def loadBars (py : Builtins) (disk : Disk) (name : String) :
    Except LoadError (InsertionDict String (List ReplayBar)) :=
  match disk name with
  | none => .ok .empty
  | some text => do
    let rows ← (Json.loadsLines py.jsonNumbers text).mapM readBar
    .ok ((groupBySymbol (rows.filterMap id)).mapValues sortByMinute)

/-! ## Numbers are read back -/

theorem isDigit_of_mem_toDigits {n : ℕ} {c : Char} (h : c ∈ Nat.toDigits 10 n) :
    c.isDigit = true :=
  Nat.isDigit_of_mem_toDigits (by decide) (by decide) h

/-- A positive number has no leading zero. -/
theorem exists_toDigits_eq_cons {n : ℕ} (h : 0 < n) :
    ∃ c cs, Nat.toDigits 10 n = c :: cs ∧ c ≠ '0' := by
  induction n using Nat.strong_induction_on with
  | _ n ih =>
    by_cases hlt : n < 10
    · refine ⟨n.digitChar, [], Nat.toDigits_of_lt_base hlt, ?_⟩
      interval_cases n <;> decide
    · obtain ⟨c, cs, htext, hc⟩ := ih (n / 10) (by omega) (by omega)
      rw [Nat.toDigits_of_base_le (by decide) (not_lt.mp hlt), htext]
      exact ⟨c, _, rfl, hc⟩

theorem span_isDigit_eq {cs : List Char} (h : ∀ c ∈ cs, c.isDigit = true) :
    cs.span Char.isDigit = (cs, []) := by
  rw [List.span_eq_takeWhile_dropWhile, List.takeWhile_eq_self_iff.mpr h,
    List.dropWhile_eq_nil_iff.mpr h]

/-- The digits of a number are one number. -/
theorem scanNumber_toDigits (n : ℕ) :
    Json.scanNumber (Nat.toDigits 10 n) = some (Nat.toDigits 10 n, []) := by
  have hdigit : ∀ c ∈ Nat.toDigits 10 n, c.isDigit = true := fun c => isDigit_of_mem_toDigits
  rcases Nat.eq_zero_or_pos n with rfl | hpos
  · rfl
  · obtain ⟨c, cs, htext, hc⟩ := exists_toDigits_eq_cons hpos
    rw [htext] at hdigit ⊢
    obtain ⟨hcd, hcs⟩ := List.forall_mem_cons.mp hdigit
    have hsign : c ≠ '-' := by rintro rfl; cases hcd
    rw [Json.scanNumber, if_neg hsign, Json.scanUnsigned, Json.scanWhole, if_neg hc, if_pos hcd,
      span_isDigit_eq hcs]
    simp [Json.scanFraction, Json.scanExponent]

/-- **A count is read back.** -/
theorem Builtins.readsBack_int (py : Builtins) (n : ℕ) :
    py.jsonNumbers.ReadsBack (.int n) := by
  have htext : py.jsonNumbers.text (.int n) = Nat.toDigits 10 n := by
    simp only [jsonNumbers, Int.natAbs_natCast]
    exact if_neg (by omega)
  refine ⟨by rw [htext]; exact scanNumber_toDigits n, ?_⟩
  have hall : (Nat.toDigits 10 n).all Char.isDigit = true :=
    List.all_eq_true.mpr fun c => isDigit_of_mem_toDigits
  rw [htext]
  simp only [jsonNumbers, if_pos hall, Nat.ofDigitChars_ten_toDigits]

/-! ## A line is read back -/

/-- What the file gives back of a bar. -/
def OhlcBar.loaded (bar : OhlcBar) (time : IsoTime) : LoadedBar where
  bar := ⟨bar.symbol, time.wall, bar.openPrice, bar.high, bar.low, bar.closePrice⟩
  instant := time.instant

/-- The bar that the replay has. -/
def OhlcBar.replayBar (bar : OhlcBar) : ReplayBar :=
  ⟨bar.symbol, bar.minuteStart, bar.openPrice, bar.high, bar.low, bar.closePrice⟩

/-- All four prices of a bar. -/
def OhlcBar.AllPrices (P : Price → Prop) (bar : OhlcBar) : Prop :=
  P bar.openPrice ∧ P bar.high ∧ P bar.low ∧ P bar.closePrice

theorem OhlcBar.readable_json {py : Builtins} {bar : OhlcBar} (h : bar.AllPrices py.KeepsPrice)
    (time : IsoTime) : (bar.json time).Readable py.jsonNumbers := by
  simp only [json, Json.Readable, Json.ReadableMembers, true_and, and_true]
  exact ⟨h.1, h.2.1, h.2.2.1, h.2.2.2, py.readsBack_int _⟩

/-- **The object of a bar is read as the bar.** -/
theorem readBar_json (bar : OhlcBar) (time : IsoTime) :
    readBar (bar.json time) = .ok (some (bar.loaded time)) := by
  simp [readBar, OhlcBar.json, Json.get?, Json.text?, Json.price?, bind, Except.bind,
    IsoTime.fromIsoformat_isoformat, OhlcBar.loaded]

/-! ## What a bar says of prices -/

/-- **A bar tells of prices** the first, the extremes, and the last. -/
structure ReplayBar.Summarises (bar : ReplayBar) (prices : List Price) : Prop where
  first : prices.head? = some bar.open_
  greatest : prices.max? = some bar.high
  least : prices.min? = some bar.low
  last : prices.getLast? = some bar.close

namespace MinuteTicks

variable {nyMinute : Time → ℤ}

/-- What ticks are folded to, member by member. -/
theorem foldl_update (ts : List Tick) (bar : OhlcBar) :
    (ts.foldl (fun bar t => bar.update t.price) bar).symbol = bar.symbol
      ∧ (ts.foldl (fun bar t => bar.update t.price) bar).openPrice = bar.openPrice
      ∧ (ts.foldl (fun bar t => bar.update t.price) bar).high
        = (ts.map Tick.price).foldl max bar.high
      ∧ (ts.foldl (fun bar t => bar.update t.price) bar).low
        = (ts.map Tick.price).foldl min bar.low
      ∧ (ts.foldl (fun bar t => bar.update t.price) bar).closePrice
        = (ts.map Tick.price).getLast?.getD bar.closePrice := by
  induction ts generalizing bar with
  | nil => exact ⟨rfl, rfl, rfl, rfl, rfl⟩
  | cons t ts ih =>
    obtain ⟨hsymbol, hopen, hhigh, hlow, hclose⟩ := ih (bar.update t.price)
    refine ⟨hsymbol, hopen, hhigh, hlow, hclose.trans ?_⟩
    rw [List.map_cons, List.getLast?_cons, Option.getD_some]
    rfl

/-- **The bar of a minute's ticks tells of their prices.** -/
theorem summarises (g : MinuteTicks nyMinute) (symbol : String) :
    (g.bar symbol).replayBar.Summarises (g.ticks.map Tick.price) := by
  obtain ⟨-, hopen, hhigh, hlow, hclose⟩ :=
    foldl_update g.rest (.ofPrice symbol (nyMinute g.first.ts) g.first.price)
  refine ⟨congrArg some hopen.symm, ?_, ?_, ?_⟩
  · rw [ticks, List.map_cons, List.max?_cons']
    exact congrArg some hhigh.symm
  · rw [ticks, List.map_cons, List.min?_cons']
    exact congrArg some hlow.symm
  · rw [ticks, List.map_cons, List.getLast?_cons]
    exact congrArg some hclose.symm

/-- The ticks of a minute are those of the one group that is of it. -/
theorem filter_flatMap_ticks {groups : List (MinuteTicks nyMinute)}
    (hgroups : groups.Pairwise fun g k => nyMinute g.first.ts < nyMinute k.first.ts)
    {g : MinuteTicks nyMinute} (hg : g ∈ groups) :
    (groups.flatMap ticks).filter (nyMinute ·.ts = nyMinute g.first.ts) = g.ticks := by
  have hminute : ∀ k : MinuteTicks nyMinute, ∀ t ∈ k.ticks, nyMinute t.ts = nyMinute k.first.ts :=
    fun k t ht => (List.mem_cons.mp ht).elim (fun h => h ▸ rfl) (k.sameMinute t)
  have hnone : ∀ ks : List (MinuteTicks nyMinute),
      (∀ k ∈ ks, nyMinute k.first.ts ≠ nyMinute g.first.ts) →
      (ks.flatMap ticks).filter (nyMinute ·.ts = nyMinute g.first.ts) = [] := by
    intro ks hks
    refine List.filter_eq_nil_iff.mpr fun t ht => ?_
    obtain ⟨k, hk, htk⟩ := List.mem_flatMap.mp ht
    simpa [hminute k t htk] using hks k hk
  obtain ⟨before, after, rfl⟩ := List.append_of_mem hg
  obtain ⟨-, hafter, hbefore⟩ := List.pairwise_append.mp hgroups
  have hown : g.ticks.filter (nyMinute ·.ts = nyMinute g.first.ts) = g.ticks :=
    List.filter_eq_self.mpr fun t ht => decide_eq_true (hminute g t ht)
  rw [List.flatMap_append, List.flatMap_cons, List.filter_append, List.filter_append, hown,
    hnone before fun k hk => (hbefore k hk g List.mem_cons_self).ne,
    hnone after fun k hk => ((List.pairwise_cons.mp hafter).1 k hk).ne', List.nil_append,
    List.append_nil]

end MinuteTicks

/-! ## The recorder -/

/-- **The builder with its directory.** `written` are the bars whose line is
on the disk; the program keeps no such record. -/
structure BarRecorder where
  feed : BarFeed
  disk : Disk := fun _ => none
  written : List OhlcBar := []

namespace BarRecorder

/-- What can happen next to the builder, and whether a write succeeds. -/
structure Label where
  feed : BarFeed.Label
  ok : Bool

/-- The bar that a step completes: the working bar of the symbol, where a tick
is of a later minute or a read finds its minute over. -/
def completes (nyMinute : Time → ℤ) (b : BarBuilder) : BarFeed.Label → Option OhlcBar
  | .tick symbol price ts =>
    if price.any (0 < ·) then (b.working symbol).filter (·.minuteStartNy < nyMinute ts) else none
  | .latest symbol now | .recent symbol _ now =>
    (b.working symbol).filter (·.minuteStartNy < nyMinute now)

variable (py : Builtins) (zone : NyZone)

/-- The bar is written, where its minute has a date and the write succeeds. -/
def write (s : BarRecorder) (bar : OhlcBar) (ok : Bool) : BarRecorder :=
  { s with
    disk := s.disk.persist py zone bar ok
    written := if ok ∧ (zone.isoTime bar.minuteStartNy).isSome then s.written ++ [bar]
      else s.written }

/-- One step: what the builder does, and the file of a bar it completes. -/
def step (s : BarRecorder) (l : Label) : Option BarRecorder :=
  (s.feed.step zone.minute l.feed).map fun feed =>
    match completes zone.minute s.feed.builder l.feed with
    | none => { s with feed := feed }
    | some bar => { s.write py zone bar l.ok with feed := feed }

/-- Ticks, reads and writes in any order. -/
def machine : Machine BarRecorder Label where
  step := step py zone

/-- No bars, and an empty directory. -/
def initial (maxCompleted : ℕ) : BarRecorder where
  feed := .initial maxCompleted

/-- The tick of a label, where its price is one that the builder folds in. -/
def Label.Keeps (py : Builtins) (l : Label) : Prop :=
  ∀ symbol price ts, l.feed = .tick symbol (some price) ts → py.KeepsPrice price

/-! ## What a step completes -/

variable {py zone} {s s' : BarRecorder} {l : Label}

/-- **The steps of the recorder are those of its feed.** -/
theorem feed_step (h : s.step py zone l = some s') :
    s.feed.step zone.minute l.feed = some s'.feed := by
  obtain ⟨feed, hfeed, rfl⟩ := Option.map_eq_some_iff.mp h
  rw [hfeed]
  split <;> rfl

/-- A tick completes what a read at its instant would. -/
theorem persisted_onTick (nyMinute : Time → ℤ) (b : BarBuilder) (symbol : String) {price : Price}
    (h : 0 < price) (ts : Time) : (b.onTick nyMinute symbol (some price) ts).persisted
      = (b.maybeRollStaleWorking nyMinute symbol ts).persisted := by
  simp only [BarBuilder.onTick, BarBuilder.maybeRollStaleWorking, if_neg (not_le.mpr h)]
  cases b.working symbol with
  | none => rfl
  | some bar =>
    dsimp only
    split_ifs with hne hlt hlt
    · rfl
    · rfl
    · exact absurd hlt (not_lt.mpr (not_not.mp hne).ge)
    · rfl

/-- A read completes the working bar where its minute is over. -/
theorem persisted_maybeRollStaleWorking (nyMinute : Time → ℤ) {b : BarBuilder}
    (hsymbol : ∀ symbol, ∀ bar ∈ b.working symbol, bar.symbol = symbol) (other : String)
    (now : Time) (symbol : String) :
    (b.maybeRollStaleWorking nyMinute other now).persisted symbol
      = b.persisted symbol ++ (((b.working other).filter (·.minuteStartNy < nyMinute now)).filter
        (·.symbol = symbol)).toList := by
  unfold BarBuilder.maybeRollStaleWorking
  cases hw : b.working other with
  | none => simp
  | some bar =>
    have hbar := hsymbol other bar hw
    by_cases hstale : bar.minuteStartNy < nyMinute now
    · by_cases hother : symbol = other
      · subst hother
        simp [hstale, hbar, BarBuilder.roll, BarBuilder.setWorking, Option.filter]
      · simp [hstale, hbar, hother, Ne.symm hother, BarBuilder.roll, BarBuilder.setWorking,
          Option.filter]
    · simp [hstale, Option.filter]

/-- **What a step completes is what the builder keeps of it.** -/
theorem persisted_step (nyMinute : Time → ℤ) {feed feed' : BarFeed} {l : BarFeed.Label}
    (hsymbol : ∀ symbol, ∀ bar ∈ feed.builder.working symbol, bar.symbol = symbol)
    (h : feed.step nyMinute l = some feed') (symbol : String) :
    feed'.builder.persisted symbol = feed.builder.persisted symbol
      ++ ((completes nyMinute feed.builder l).filter (·.symbol = symbol)).toList := by
  cases l with
  | latest other now =>
    obtain rfl := Option.some.inj h
    exact persisted_maybeRollStaleWorking nyMinute hsymbol other now symbol
  | recent other count now =>
    obtain rfl := Option.some.inj h
    exact persisted_maybeRollStaleWorking nyMinute hsymbol other now symbol
  | tick other price ts =>
    obtain rfl := Option.some.inj h
    cases price with
    | none => simp [BarBuilder.onTick, completes]
    | some p =>
      by_cases hp : 0 < p
      · simp only [persisted_onTick nyMinute _ _ hp, completes, Option.any_some, decide_eq_true hp,
          if_true]
        exact persisted_maybeRollStaleWorking nyMinute hsymbol other ts symbol
      · simp [BarBuilder.onTick, completes, hp, not_lt.mp hp]

/-! ## The bars are sound -/

/-- **A bar of a symbol that can be written**: its minute has a date, and its
prices are read back. -/
structure Sound (py : Builtins) (symbol : String) (bar : OhlcBar) : Prop where
  symbol_eq : bar.symbol = symbol
  minute_mem : 0 ≤ bar.minuteStartNy ∧ bar.minuteStartNy < dayLimit * 1440
  prices : bar.AllPrices py.KeepsPrice

theorem Sound.ofPrice {symbol : String} {price : Price} (hprice : py.KeepsPrice price)
    (ts : Time) : Sound py symbol (.ofPrice symbol (zone.minute ts) price) :=
  ⟨rfl, zone.minute_mem ts, hprice, hprice, hprice, hprice⟩

theorem Sound.update {symbol : String} {bar : OhlcBar} (h : Sound py symbol bar) {price : Price}
    (hprice : py.KeepsPrice price) : Sound py symbol (bar.update price) := by
  obtain ⟨hopen, hhigh, hlow, -⟩ := h.prices
  refine ⟨h.symbol_eq, h.minute_mem, hopen, ?_, ?_, hprice⟩
  · show py.KeepsPrice (max bar.high price)
    rcases max_choice bar.high price with hmax | hmax <;> rw [hmax] <;> assumption
  · show py.KeepsPrice (min bar.low price)
    rcases min_choice bar.low price with hmin | hmin <;> rw [hmin] <;> assumption

/-- The working bars are sound. -/
def WorkingSound (py : Builtins) (b : BarBuilder) : Prop :=
  ∀ symbol, ∀ bar ∈ b.working symbol, Sound py symbol bar

/-- **A step keeps the working bars sound.** -/
theorem WorkingSound.step {feed feed' : BarFeed} {l : BarFeed.Label}
    (hs : WorkingSound py feed.builder)
    (hl : ∀ symbol price ts, l = .tick symbol (some price) ts → py.KeepsPrice price)
    (h : feed.step zone.minute l = some feed') : WorkingSound py feed'.builder := by
  have hset : ∀ (b : BarBuilder) (symbol : String) (bar : Option OhlcBar),
      WorkingSound py b → (∀ bar' ∈ bar, Sound py symbol bar') →
      WorkingSound py (b.setWorking symbol bar) := by
    intro b symbol bar hb hbar other bar' hbar'
    by_cases hother : other = symbol
    · subst hother
      simp only [BarBuilder.setWorking, Function.update_self] at hbar'
      exact hbar bar' hbar'
    · simp only [BarBuilder.setWorking, Function.update_of_ne hother] at hbar'
      exact hb other bar' hbar'
  have hstale : ∀ symbol now, WorkingSound py
      (feed.builder.maybeRollStaleWorking zone.minute symbol now) := by
    intro symbol now
    unfold BarBuilder.maybeRollStaleWorking
    split
    · exact hs
    · split_ifs
      · exact hset (feed.builder.roll symbol _) symbol none hs (by simp)
      · exact hs
  cases l with
  | latest symbol now => obtain rfl := Option.some.inj h; exact hstale symbol now
  | recent symbol count now => obtain rfl := Option.some.inj h; exact hstale symbol now
  | tick symbol price ts =>
    obtain rfl := Option.some.inj h
    cases price with
    | none => exact hs
    | some price =>
      have hprice := hl symbol price ts rfl
      simp only [BarBuilder.onTick]
      split_ifs
      · exact hs
      · split
        · exact hset _ _ _ hs (by rintro _ ⟨⟩; exact .ofPrice hprice ts)
        · rename_i bar hbar
          split_ifs
          · exact hset (feed.builder.roll symbol bar) _ _ hs
              (by rintro _ ⟨⟩; exact .ofPrice hprice ts)
          · exact hs
          · exact hset _ _ _ hs (by rintro _ ⟨⟩; exact (hs symbol bar hbar).update hprice)

/-- What a step completes is sound. -/
theorem WorkingSound.completes {b : BarBuilder} (hs : WorkingSound py b) {l : BarFeed.Label}
    {bar : OhlcBar} (h : BarRecorder.completes zone.minute b l = some bar) :
    Sound py bar.symbol bar := by
  have hworking : ∀ symbol (p : OhlcBar → Bool), (b.working symbol).filter p = some bar →
      Sound py bar.symbol bar := fun symbol p hbar => by
    have hsound := hs symbol bar (Option.filter_eq_some_iff.mp hbar).1
    exact hsound.symbol_eq ▸ hsound
  cases l with
  | tick symbol price ts =>
    rw [BarRecorder.completes] at h
    split_ifs at h
    exact hworking symbol _ h
  | latest symbol now => exact hworking symbol _ h
  | recent symbol count now => exact hworking symbol _ h

/-! ## What is on the disk -/

/-- The line of a bar, in the file of a name. -/
def lineOf (zone : NyZone) (name : String) (bar : OhlcBar) : Option (Json PyNumber) :=
  (zone.isoTime bar.minuteStartNy).bind fun time =>
    if barsFile time.date = name then some (bar.json time) else none

/-- **A file has the lines of the bars written to it.** -/
structure Recorded (py : Builtins) (zone : NyZone) (s : BarRecorder) : Prop where
  working : WorkingSound py s.feed.builder
  written : ∀ bar ∈ s.written, Sound py bar.symbol bar
  disk : ∀ name, (s.disk name).getD []
    = Json.dumpsLines py.jsonNumbers (s.written.filterMap (lineOf zone name))

/-- A write keeps the files. -/
theorem Recorded.write (hs : Recorded py zone s) {bar : OhlcBar}
    (hbar : Sound py bar.symbol bar) (ok : Bool) : Recorded py zone (s.write py zone bar ok) := by
  unfold BarRecorder.write Disk.persist
  cases htime : zone.isoTime bar.minuteStartNy with
  | none => simpa using hs
  | some time =>
    cases ok with
    | false => simpa using hs
    | true =>
      refine ⟨hs.working, ?_, fun name => ?_⟩
      · simpa [or_imp, forall_and] using ⟨hs.written, hbar⟩
      · have hwritten : (if true = true ∧ (some time).isSome = true then s.written ++ [bar]
            else s.written) = s.written ++ [bar] := if_pos ⟨rfl, rfl⟩
        dsimp only
        rw [if_pos rfl, hwritten, List.filterMap_append, Json.dumpsLines_append, ← hs.disk]
        by_cases hname : barsFile time.date = name
        · subst hname
          have hline : lineOf zone (barsFile time.date) bar = some (bar.json time) := by
            rw [lineOf, htime, Option.bind_some, if_pos rfl]
          rw [Function.update_self, List.filterMap_cons_some hline]
          simp [Json.dumpsLines]
        · have hline : lineOf zone name bar = none := by
            rw [lineOf, htime, Option.bind_some, if_neg hname]
          rw [Function.update_of_ne (Ne.symm hname), List.filterMap_cons_none hline]
          simp [Json.dumpsLines]

/-- **A step keeps the files.** -/
theorem Recorded.step (hs : Recorded py zone s) (hl : l.Keeps py)
    (h : s.step py zone l = some s') : Recorded py zone s' := by
  obtain ⟨feed, hfeed, rfl⟩ := Option.map_eq_some_iff.mp h
  have hworking := hs.working.step hl hfeed
  cases hcompletes : BarRecorder.completes zone.minute s.feed.builder l.feed with
  | none => exact ⟨hworking, hs.written, hs.disk⟩
  | some bar =>
    have hwrite := hs.write (hs.working.completes hcompletes) l.ok
    exact ⟨hworking, hwrite.written, hwrite.disk⟩

theorem workingSound_initial (maxCompleted : ℕ) :
    WorkingSound py (initial maxCompleted).feed.builder := by
  rintro symbol bar ⟨⟩

theorem recorded_initial (maxCompleted : ℕ) : Recorded py zone (initial maxCompleted) where
  working := workingSound_initial maxCompleted
  written := by
    rintro bar ⟨⟩
  disk _ := rfl

/-! ## What is loaded -/

/-- The bars of a day, with the date times of their minutes. -/
def dayBars (zone : NyZone) (date : CivilDate) (bars : List OhlcBar) :
    List (OhlcBar × IsoTime) :=
  bars.filterMap fun bar =>
    ((zone.isoTime bar.minuteStartNy).filter (·.date = date)).map (bar, ·)

/-- The bars of a day, as the file gives them back. -/
def dayRows (zone : NyZone) (date : CivilDate) (bars : List OhlcBar) : List LoadedBar :=
  (dayBars zone date bars).map fun row => row.1.loaded row.2

/-- An absent file is as good as an empty one. -/
theorem loadBars_eq (disk : Disk) (name : String) : loadBars py disk name
    = ((Json.loadsLines py.jsonNumbers ((disk name).getD [])).mapM readBar).map fun rows =>
        (groupBySymbol (rows.filterMap id)).mapValues sortByMinute := by
  unfold loadBars
  cases disk name with
  | none => rfl
  | some text =>
    simp only [Option.getD_some]
    cases (Json.loadsLines py.jsonNumbers text).mapM readBar <;> rfl

/-- **Dates have files of their own.** -/
theorem barsFile_inj {d e : CivilDate} (hd : d.year < 10000) (he : e.year < 10000)
    (h : barsFile d = barsFile e) : d = e := by
  have hlists := congrArg String.toList h
  simp only [barsFile, String.toList_append, String.toList_ofList, List.append_assoc,
    List.append_cancel_left_eq, List.append_cancel_right_eq] at hlists
  exact d.digits_inj hd he hlists

/-- The lines in the file of a day are those of its bars. -/
theorem filterMap_lineOf {date : CivilDate} (hdate : date.year < 10000) (bars : List OhlcBar) :
    bars.filterMap (lineOf zone (barsFile date))
      = (dayBars zone date bars).map fun row => row.1.json row.2 := by
  rw [dayBars, List.map_filterMap]
  refine List.filterMap_congr fun bar _ => ?_
  rw [lineOf]
  cases zone.isoTime bar.minuteStartNy with
  | none => rfl
  | some time =>
    by_cases hsame : time.date = date
    · simp [hsame]
    · have hname : barsFile time.date ≠ barsFile date := fun h =>
        hsame (barsFile_inj time.year_le hdate h)
      simp [hsame, hname]

/-- The lines of bars are read as the bars. -/
theorem mapM_readBar (rows : List (OhlcBar × IsoTime)) :
    (rows.map fun row => row.1.json row.2).mapM readBar
      = .ok (rows.map fun row => some (row.1.loaded row.2)) := by
  induction rows with
  | nil => rfl
  | cons row rows ih =>
    rw [List.map_cons, List.mapM_cons, readBar_json, ih]
    rfl

/-- **The file of a day is read as the bars written of it.** -/
theorem Recorded.loadBars_file (hs : Recorded py zone s) {date : CivilDate}
    (hdate : date.year < 10000) : loadBars py s.disk (barsFile date)
      = .ok ((groupBySymbol (dayRows zone date s.written)).mapValues sortByMinute) := by
  have hreadable : ∀ v ∈ (dayBars zone date s.written).map fun row => row.1.json row.2,
      v.Readable py.jsonNumbers := by
    intro v hv
    obtain ⟨row, hrow, rfl⟩ := List.mem_map.mp hv
    obtain ⟨bar, hbar, htime⟩ := List.mem_filterMap.mp hrow
    obtain ⟨time, -, rfl⟩ := Option.map_eq_some_iff.mp htime
    exact OhlcBar.readable_json (hs.written bar hbar).prices time
  rw [loadBars_eq, hs.disk, filterMap_lineOf hdate, Json.loadsLines_dumpsLines hreadable,
    mapM_readBar, Except.map, dayRows, List.filterMap_map]
  have hid : (id ∘ fun row : OhlcBar × IsoTime => some (row.1.loaded row.2))
      = some ∘ fun row => row.1.loaded row.2 := rfl
  rw [hid, ← List.filterMap_map, List.filterMap_some]

/-- What is loaded of a symbol. -/
theorem getD_groupBySymbol (rows : List LoadedBar) (symbol : String) :
    ((((groupBySymbol rows).mapValues sortByMinute).get? symbol).getD [])
      = sortByMinute (rows.filter (·.bar.symbol = symbol)) := by
  have hgroup := InsertionDict.getD_collectAll (f := fun row : LoadedBar =>
    some (row.bar.symbol, row)) InsertionDict.empty rows symbol
  have hassigned : rows.filterMap (InsertionDict.assigned (fun row : LoadedBar =>
      some (row.bar.symbol, row)) symbol) = rows.filter (·.bar.symbol = symbol) := by
    rw [← List.filterMap_eq_filter]
    refine List.filterMap_congr fun row _ => ?_
    by_cases h : symbol = row.bar.symbol
    · simp [InsertionDict.assigned, h]
    · simp [InsertionDict.assigned, Ne.symm h, Option.guard]
  rw [InsertionDict.get?_empty, Option.getD_none, List.nil_append, hassigned] at hgroup
  rw [InsertionDict.get?_mapValues, groupBySymbol]
  cases hget : (InsertionDict.empty.collectAll
      (fun row : LoadedBar => some (row.bar.symbol, row)) rows).get? symbol with
  | none => rw [hget] at hgroup; rw [← hgroup]; rfl
  | some l => rw [hget] at hgroup; rw [← hgroup]; rfl

/-- The rows of a symbol are those of its bars. -/
theorem filter_dayRows (date : CivilDate) (bars : List OhlcBar) (symbol : String) :
    (dayRows zone date bars).filter (·.bar.symbol = symbol)
      = dayRows zone date (bars.filter (·.symbol = symbol)) := by
  rw [dayRows, dayRows, List.filter_map, dayBars, dayBars, List.filter_filterMap]
  congr 1
  rw [List.filterMap_filter]
  refine List.filterMap_congr fun bar _ => ?_
  by_cases hsymbol : bar.symbol = symbol
  · cases hday : (zone.isoTime bar.minuteStartNy).filter (·.date = date) <;>
      simp [hsymbol, OhlcBar.loaded]
  · cases hday : (zone.isoTime bar.minuteStartNy).filter (·.date = date) <;>
      simp [hsymbol, OhlcBar.loaded]

/-! ## What is written -/

/-- **What a step writes**: the bar it completes, if the write succeeds. -/
theorem written_step (hs : WorkingSound py s.feed.builder) (h : s.step py zone l = some s') :
    s'.written = s.written
      ++ if l.ok then (completes zone.minute s.feed.builder l.feed).toList else [] := by
  obtain ⟨feed, -, rfl⟩ := Option.map_eq_some_iff.mp h
  cases hcompletes : completes zone.minute s.feed.builder l.feed with
  | none => simp
  | some bar =>
    have hmem := (hs.completes hcompletes).minute_mem
    have htime : (zone.isoTime bar.minuteStartNy).isSome := by
      rw [NyZone.isoTime, dif_pos hmem]
      rfl
    cases l.ok with
    | false => simp [BarRecorder.write]
    | true => simp [BarRecorder.write, htime]

/-- The steps keep the working bars sound, and the bars written some of those
completed, in their order. -/
structure WritesSome (py : Builtins) (s : BarRecorder) : Prop where
  working : WorkingSound py s.feed.builder
  sublist : ∀ symbol, (s.written.filter (·.symbol = symbol)).Sublist
    (s.feed.builder.persisted symbol)

theorem WritesSome.step (hs : WritesSome py s) (hl : l.Keeps py)
    (h : s.step py zone l = some s') : WritesSome py s' := by
  refine ⟨hs.working.step hl (feed_step h), fun symbol => ?_⟩
  rw [persisted_step zone.minute (fun symbol bar hbar => (hs.working symbol bar hbar).symbol_eq)
    (feed_step h) symbol, written_step hs.working h, List.filter_append, Option.toList_filter]
  refine (hs.sublist symbol).append (List.Sublist.filter _ ?_)
  split_ifs
  · exact List.Sublist.refl _
  · exact List.nil_sublist _

/-- All bars completed are written. -/
structure WritesAll (py : Builtins) (s : BarRecorder) : Prop where
  working : WorkingSound py s.feed.builder
  eq : ∀ symbol, s.written.filter (·.symbol = symbol) = s.feed.builder.persisted symbol

/-- **A step whose write succeeds leaves no bar unwritten.** -/
theorem WritesAll.step (hs : WritesAll py s) (hl : l.Keeps py) (hok : l.ok = true)
    (h : s.step py zone l = some s') : WritesAll py s' := by
  refine ⟨hs.working.step hl (feed_step h), fun symbol => ?_⟩
  rw [persisted_step zone.minute (fun symbol bar hbar => (hs.working symbol bar hbar).symbol_eq)
    (feed_step h) symbol, written_step hs.working h, List.filter_append, Option.toList_filter,
    hs.eq, if_pos hok]

/-- A run all of whose labels meet `P` meets it along. -/
theorem along_of_forall {P : Label → Prop} {ls : List Label} (h : ∀ l ∈ ls, P l) :
    (machine py zone).Along (fun _ l _ => P l) s ls := by
  induction ls generalizing s with
  | nil => trivial
  | cons l ls ih =>
    obtain ⟨hl, hls⟩ := List.forall_mem_cons.mp h
    exact fun t _ => ⟨hl, ih hls⟩

/-! ## The run -/

section Run

variable {maxCompleted : ℕ} {ls : List Label}

/-- **In every state of a run a file has the lines of the bars written to it.** -/
theorem recorded_of_run (hkeeps : ∀ l ∈ ls, l.Keeps py)
    (hrun : (machine py zone).run (initial maxCompleted) ls = some s) : Recorded py zone s :=
  Machine.run_invariant (C := fun _ l _ => l.Keeps py) (fun _ _ _ hs h hl => hs.step hl h)
    (recorded_initial maxCompleted) (along_of_forall hkeeps) hrun

theorem writesSome_of_run (hkeeps : ∀ l ∈ ls, l.Keeps py)
    (hrun : (machine py zone).run (initial maxCompleted) ls = some s) : WritesSome py s :=
  Machine.run_invariant (C := fun _ l _ => l.Keeps py) (fun _ _ _ hs h hl => hs.step hl h)
    ⟨workingSound_initial maxCompleted, fun _ => List.Sublist.refl _⟩ (along_of_forall hkeeps)
    hrun

theorem writesAll_of_run (hkeeps : ∀ l ∈ ls, l.Keeps py) (hok : ∀ l ∈ ls, l.ok = true)
    (hrun : (machine py zone).run (initial maxCompleted) ls = some s) : WritesAll py s :=
  Machine.run_invariant (C := fun _ l _ => l.Keeps py ∧ l.ok = true)
    (fun _ _ _ hs h hl => hs.step hl.1 hl.2 h)
    ⟨workingSound_initial maxCompleted, fun _ => rfl⟩
    (along_of_forall fun l hl => ⟨hkeeps l hl, hok l hl⟩) hrun

end Run

/-- Numbers of which two are printed. -/
def twoPrices : Builtins where
  parseInt _ := none
  parseFloat text :=
    if text = "5.5" then some (.finite (11 / 2))
    else if text = "6.0" then some (.finite 6)
    else none
  intToFloat n := some (.finite n)
  floatRepr x := if x = .finite 6 then "6.0" else "5.5"
  strip text := text
  isDecimal := Char.isDigit

/-- A clock of New York in winter. -/
def winterClock : NyZone where
  minute t := max 0 (min ((t / 60).floor - 300) (dayLimit * 1440 - 1))
  offset _ := -300
  minute_mem t := by
    unfold dayLimit
    omega
  offset_lt _ := by decide

/-- Two ticks of one minute and a read after it, where the write succeeds. -/
def twoTicks : List Label :=
  [⟨.tick "XSP" (some (11 / 2)) 63905200200, true⟩, ⟨.tick "XSP" (some 6) 63905200230, true⟩,
    ⟨.latest "XSP" 63905200260, true⟩]

theorem keeps_twoTicks : ∀ l ∈ twoTicks, l.Keeps twoPrices := by
  have hkeeps : twoPrices.KeepsPrice (11 / 2) ∧ twoPrices.KeepsPrice 6 := by
    refine ⟨⟨?_, ?_⟩, ⟨?_, ?_⟩⟩ <;> decide +kernel
  intro l hl symbol price ts hlabel
  simp only [twoTicks, List.mem_cons, List.not_mem_nil, or_false] at hl
  rcases hl with rfl | rfl | rfl <;> cases hlabel
  · exact hkeeps.1
  · exact hkeeps.2

/-- **The file of a day is read as the bars written of it**, after any ticks and
reads and any failures to write: of each symbol some of the bars completed, and
all where no write fails, in the order of their minutes. -/
theorem loadBars_recorded (py : Builtins) (zone : NyZone) (maxCompleted : ℕ) {ls : List Label}
    (hkeeps : ∀ l ∈ ls, l.Keeps py)
    (hrun : (machine py zone).run (initial maxCompleted) ls = some s) {date : CivilDate}
    (hdate : date.year < 10000) :
    ∃ d, loadBars py s.disk (barsFile date) = .ok d ∧ ∀ symbol, ∃ bars : List OhlcBar,
      bars.Sublist (s.feed.builder.persisted symbol)
        ∧ ((∀ l ∈ ls, l.ok = true) → bars = s.feed.builder.persisted symbol)
        ∧ (d.get? symbol).getD [] = sortByMinute (dayRows zone date bars) := by
  refine ⟨_, (recorded_of_run hkeeps hrun).loadBars_file hdate, fun symbol =>
    ⟨_, (writesSome_of_run hkeeps hrun).sublist symbol, fun hok => ?_, ?_⟩⟩
  · exact (writesAll_of_run hkeeps hok hrun).eq symbol
  · rw [getD_groupBySymbol, filter_dayRows]

theorem loadBars_recorded_twoTicks : ∃ s d,
    (machine twoPrices winterClock).run (initial 480) twoTicks = some s
      ∧ loadBars twoPrices s.disk (barsFile (NyZone.date 1065086370)) = .ok d
      ∧ ∀ symbol, ∃ bars : List OhlcBar, bars.Sublist (s.feed.builder.persisted symbol)
        ∧ ((∀ l ∈ twoTicks, l.ok = true) → bars = s.feed.builder.persisted symbol)
        ∧ (d.get? symbol).getD []
          = sortByMinute (dayRows winterClock (NyZone.date 1065086370) bars) := by
  obtain ⟨s, hrun⟩ : ∃ s, (machine twoPrices winterClock).run (initial 480) twoTicks = some s :=
    ⟨_, rfl⟩
  obtain ⟨d, hload, hd⟩ := loadBars_recorded twoPrices winterClock 480 keeps_twoTicks hrun
    (NyZone.year_date_lt (m := 1065086370) (by decide))
  exact ⟨s, d, hrun, hload, hd⟩

/-! ## Bars in the order of their minutes -/

/-- What the date time of a minute says. -/
theorem isoTime_eq (zone : NyZone) {m : ℤ} (h : 0 ≤ m ∧ m < dayLimit * 1440) :
    ∃ time, zone.isoTime m = some time ∧ time.date = NyZone.date m ∧ time.wall = m * 60
      ∧ time.instant = (m - zone.offset m) * 60000000 := by
  have hsplit : ((NyZone.date m).dayNumber : ℤ) * 1440 + (m % 1440).toNat = m := by
    rw [NyZone.date, CivilDate.dayNumber_ofDayNumber]
    omega
  refine ⟨_, dif_pos h, rfl, ?_, ?_⟩
  · simp only [IsoTime.wall, IsoTime.wallSeconds, Nat.cast_zero, zero_div, add_zero]
    have hseconds : (((NyZone.date m).dayNumber * 86400 + (m % 1440).toNat * 60 : ℕ) : ℤ)
        = m * 60 := by
      push_cast
      omega
    exact_mod_cast hseconds
  · simp only [IsoTime.instant, IsoTime.wallSeconds]
    push_cast
    omega

/-- A bar of a day that is given back is the bar. -/
theorem bar_loaded {bar : OhlcBar} {time : IsoTime} (h : time.wall = bar.minuteStartNy * 60) :
    (bar.loaded time).bar = bar.replayBar := by
  rw [OhlcBar.loaded, OhlcBar.replayBar, h]
  rfl

/-- The bars of a day that are in the order of their minutes stay so, where the
clock keeps its offset. -/
theorem sortByMinute_dayRows {date : CivilDate} {bars : List OhlcBar}
    (hmem : ∀ bar ∈ bars, 0 ≤ bar.minuteStartNy ∧ bar.minuteStartNy < dayLimit * 1440)
    (hbars : bars.Pairwise fun bar next => bar.minuteStartNy < next.minuteStartNy)
    (hoffset : ∀ m n, NyZone.date m = date → NyZone.date n = date → zone.offset m = zone.offset n) :
    sortByMinute (dayRows zone date bars)
      = (bars.filter (NyZone.date ·.minuteStartNy = date)).map OhlcBar.replayBar := by
  have hrows : ∀ bar ∈ bars, ∀ row ∈ ((zone.isoTime bar.minuteStartNy).filter (·.date = date)).map
      (bar, ·), NyZone.date bar.minuteStartNy = date ∧ row.1 = bar
        ∧ row.2.instant = (bar.minuteStartNy - zone.offset bar.minuteStartNy) * 60000000 := by
    intro bar hbar row hrow
    obtain ⟨time, htime, hdate, -, hinstant⟩ := isoTime_eq zone (hmem bar hbar)
    rw [htime] at hrow
    obtain ⟨time', htime', rfl⟩ := Option.map_eq_some_iff.mp hrow
    obtain ⟨hsame, hday⟩ := Option.filter_eq_some_iff.mp htime'
    obtain rfl := Option.some.inj hsame
    exact ⟨hdate ▸ of_decide_eq_true hday, rfl, hinstant⟩
  have hsorted : (dayRows zone date bars).Pairwise fun a b => a.instant ≤ b.instant := by
    rw [dayRows, List.pairwise_map, dayBars, List.pairwise_filterMap]
    refine hbars.imp_of_mem fun {bar next} hbar hnext hlt row hrow row' hrow' => ?_
    obtain ⟨hday, -, hinstant⟩ := hrows bar hbar row hrow
    obtain ⟨hday', -, hinstant'⟩ := hrows next hnext row' hrow'
    show row.2.instant ≤ row'.2.instant
    have hsame := hoffset _ _ hday hday'
    omega
  rw [sortByMinute, hsorted.insertionSort_eq, dayRows, List.map_map, dayBars, List.map_filterMap,
    ← List.filterMap_eq_filter, List.map_filterMap]
  refine List.filterMap_congr fun bar hbar => ?_
  obtain ⟨time, htime, hdate, hwall, -⟩ := isoTime_eq zone (hmem bar hbar)
  rw [htime]
  by_cases hday : NyZone.date bar.minuteStartNy = date
  · simp [hday, hdate, Option.guard, bar_loaded hwall]
  · simp [hday, hdate, Option.guard]

/-! ## The bars of the ticks -/

/-- A run of the recorder is one of its feed. -/
theorem run_feed {ls : List Label} (h : (machine py zone).run s ls = some s') :
    (BarFeed.machine zone.minute).run s.feed (ls.map Label.feed) = some s'.feed := by
  induction ls generalizing s with
  | nil => exact congrArg some (congrArg feed (Option.some.inj h))
  | cons l ls ih =>
    obtain ⟨t, ht, hrun⟩ := Option.bind_eq_some_iff.mp h
    rw [List.map_cons, Machine.run_cons]
    exact Option.bind_eq_some_iff.mpr ⟨t.feed, feed_step ht, ih hrun⟩

/-- The prices accepted in a minute. -/
def pricesOf (nyMinute : Time → ℤ) (feed : BarFeed) (symbol : String) (minute : Time) :
    List Price :=
  ((feed.accepted symbol).filter fun t => (nyMinute t.ts : Time) * 60 = minute).map Tick.price

/-- **An exact bar tells of the prices accepted in its minute.** -/
theorem summarises_of_barsExact {nyMinute : Time → ℤ} {feed : BarFeed}
    (hexact : feed.BarsExact nyMinute) {symbol : String} {bar : OhlcBar}
    (hbar : bar ∈ feed.bars symbol) :
    bar.replayBar.Summarises (pricesOf nyMinute feed symbol bar.minuteStart) := by
  obtain ⟨groups, hgroups, hticks⟩ := hexact.split symbol
  have hincreasing := hexact.increasing symbol
  rw [← hgroups] at hbar
  rw [BarFeed.Increasing, ← hgroups, List.pairwise_map] at hincreasing
  simp only [MinuteTicks.bar_minuteStartNy] at hincreasing
  obtain ⟨g, hg, rfl⟩ := List.mem_map.mp hbar
  have hminute : ∀ t : Tick, ((nyMinute t.ts : Time) * 60 = (g.bar symbol).minuteStart)
      ↔ nyMinute t.ts = nyMinute g.first.ts := fun t => by
    rw [OhlcBar.minuteStart, MinuteTicks.bar_minuteStartNy, mul_left_inj' (by norm_num)]
    exact Int.cast_inj
  rw [pricesOf, ← hticks]
  simp only [hminute]
  rw [MinuteTicks.filter_flatMap_ticks hincreasing hg]
  exact g.summarises symbol

/-- An accepted tick is in a bar of its minute. -/
theorem exists_bar_of_accepted {nyMinute : Time → ℤ} {feed : BarFeed} {symbol : String}
    (hsplit : feed.Split nyMinute symbol) {t : Tick} (ht : t ∈ feed.accepted symbol) :
    ∃ bar ∈ feed.bars symbol, bar.minuteStartNy = nyMinute t.ts := by
  obtain ⟨groups, hgroups, hticks⟩ := hsplit
  rw [← hticks] at ht
  obtain ⟨g, hg, htg⟩ := List.mem_flatMap.mp ht
  refine ⟨g.bar symbol, hgroups ▸ List.mem_map_of_mem hg, ?_⟩
  rw [MinuteTicks.bar_minuteStartNy]
  exact (List.mem_cons.mp htg).elim (fun h => h ▸ rfl) fun h => (g.sameMinute t h).symm

/-- **The bars that are read back are those completed.** -/
theorem loadBars_completed (py : Builtins) (zone : NyZone) (maxCompleted : ℕ) {ls : List Label}
    (hkeeps : ∀ l ∈ ls, l.Keeps py) (hok : ∀ l ∈ ls, l.ok = true)
    (horder : (BarFeed.machine zone.minute).Along (fun s l _ => s.InOrder zone.minute l)
      (.initial maxCompleted) (ls.map Label.feed))
    (hrun : (machine py zone).run (initial maxCompleted) ls = some s) {date : CivilDate}
    (hdate : date.year < 10000)
    (hoffset : ∀ m n, NyZone.date m = date → NyZone.date n = date →
      zone.offset m = zone.offset n) :
    s.feed.BarsExact zone.minute ∧ ∃ d, loadBars py s.disk (barsFile date) = .ok d
      ∧ ∀ symbol, (d.get? symbol).getD [] = ((s.feed.builder.persisted symbol).filter
        (NyZone.date ·.minuteStartNy = date)).map OhlcBar.replayBar := by
  have hexact : s.feed.BarsExact zone.minute :=
    (BarFeed.barsExact_iff_inOrder zone.minute maxCompleted _).mpr horder _ _ List.prefix_rfl
      (run_feed hrun)
  have hrecorded := recorded_of_run hkeeps hrun
  refine ⟨hexact, _, hrecorded.loadBars_file hdate, fun symbol => ?_⟩
  have hall := (writesAll_of_run hkeeps hok hrun).eq symbol
  have hmem : ∀ bar ∈ s.feed.builder.persisted symbol,
      0 ≤ bar.minuteStartNy ∧ bar.minuteStartNy < dayLimit * 1440 := fun bar hbar =>
    (hrecorded.written bar (List.mem_of_mem_filter (hall ▸ hbar))).minute_mem
  obtain ⟨hincreasing, -, -⟩ := List.pairwise_append.mp (hexact.increasing symbol)
  rw [getD_groupBySymbol, filter_dayRows, hall, sortByMinute_dayRows hmem hincreasing hoffset]

/-- **The replay sees the market.** Where the ticks that start a bar come in
order, no write fails and the clock keeps its offset over the day, the bars that
are read back of a symbol are in the order of their minutes; each tells of
exactly the prices accepted in its minute; and no accepted price of the day is
missing but those of the bar that is not complete. -/
theorem loadBars_inOrder (py : Builtins) (zone : NyZone) (maxCompleted : ℕ) {ls : List Label}
    (hkeeps : ∀ l ∈ ls, l.Keeps py) (hok : ∀ l ∈ ls, l.ok = true)
    (horder : (BarFeed.machine zone.minute).Along (fun s l _ => s.InOrder zone.minute l)
      (.initial maxCompleted) (ls.map Label.feed))
    (hrun : (machine py zone).run (initial maxCompleted) ls = some s) {date : CivilDate}
    (hdate : date.year < 10000)
    (hoffset : ∀ m n, NyZone.date m = date → NyZone.date n = date →
      zone.offset m = zone.offset n) :
    ∃ d, loadBars py s.disk (barsFile date) = .ok d ∧ ∀ symbol,
      ((d.get? symbol).getD []).Pairwise (fun bar next => bar.minuteNy < next.minuteNy)
        ∧ (∀ bar ∈ (d.get? symbol).getD [],
          bar.Summarises (pricesOf zone.minute s.feed symbol bar.minuteNy))
        ∧ ∀ t ∈ s.feed.accepted symbol, NyZone.date (zone.minute t.ts) = date →
          (∃ bar ∈ (d.get? symbol).getD [], bar.minuteNy = zone.minute t.ts * 60)
            ∨ ∃ bar ∈ s.feed.builder.working symbol, bar.minuteStartNy = zone.minute t.ts := by
  obtain ⟨hexact, d, hload, hseries⟩ :=
    loadBars_completed py zone maxCompleted hkeeps hok horder hrun hdate hoffset
  refine ⟨d, hload, fun symbol => ?_⟩
  obtain ⟨hincreasing, -, -⟩ := List.pairwise_append.mp (hexact.increasing symbol)
  rw [hseries symbol]
  refine ⟨?_, ?_, ?_⟩
  · rw [List.pairwise_map]
    refine (hincreasing.filter _).imp fun {bar next} hlt => ?_
    show bar.minuteStart < next.minuteStart
    unfold OhlcBar.minuteStart
    have hcast : (bar.minuteStartNy : Time) < next.minuteStartNy := by exact_mod_cast hlt
    linarith
  · rintro _ hloaded
    obtain ⟨bar, hbar, rfl⟩ := List.mem_map.mp hloaded
    exact summarises_of_barsExact hexact
      (List.mem_append_left _ (List.mem_of_mem_filter hbar))
  · intro t ht hday
    obtain ⟨bar, hbar, hminute⟩ := exists_bar_of_accepted (hexact.split symbol) ht
    rcases List.mem_append.mp hbar with hdone | hworking
    · refine .inl ⟨bar.replayBar, List.mem_map_of_mem (List.mem_filter.mpr ⟨hdone, ?_⟩), ?_⟩
      · rw [hminute]
        exact decide_eq_true hday
      · show bar.minuteStart = _
        rw [OhlcBar.minuteStart, hminute]
    · exact .inr ⟨bar, Option.mem_toList.mp hworking, hminute⟩

theorem inOrder_twoTicks : (BarFeed.machine winterClock.minute).Along
    (fun s l _ => s.InOrder winterClock.minute l) (.initial 480) (twoTicks.map Label.feed) := by
  refine (Machine.along_cons_some rfl).mpr ⟨?_, (Machine.along_cons_some rfl).mpr
    ⟨?_, (Machine.along_cons_some rfl).mpr ⟨?_, trivial⟩⟩⟩
  · rintro symbol price ts ⟨⟩ - - bar ⟨⟩
  · rintro symbol price ts ⟨⟩ - hnone
    exact absurd hnone (by decide +kernel)
  · rintro symbol price ts ⟨⟩

theorem loadBars_inOrder_twoTicks : ∃ s d,
    (machine twoPrices winterClock).run (initial 480) twoTicks = some s
      ∧ loadBars twoPrices s.disk (barsFile (NyZone.date 1065086370)) = .ok d
      ∧ ∀ bar ∈ (d.get? "XSP").getD [],
        bar.Summarises (pricesOf winterClock.minute s.feed "XSP" bar.minuteNy) := by
  obtain ⟨s, hrun⟩ : ∃ s, (machine twoPrices winterClock).run (initial 480) twoTicks = some s :=
    ⟨_, rfl⟩
  have hok : ∀ l ∈ twoTicks, l.ok = true := by simp [twoTicks]
  obtain ⟨d, hload, hd⟩ := loadBars_inOrder twoPrices winterClock 480 keeps_twoTicks hok
    inOrder_twoTicks hrun (NyZone.year_date_lt (m := 1065086370) (by decide)) fun _ _ _ _ => rfl
  exact ⟨s, d, hrun, hload, (hd "XSP").2.1⟩

end BarRecorder
