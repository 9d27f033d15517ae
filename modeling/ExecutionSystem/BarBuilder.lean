import ExecutionSystem.Machine
import ExecutionSystem.Models
import Mathlib.Data.List.Pairwise
import Mathlib.Logic.Function.Basic

/-!
# One-minute bars

`BarBuilder` of `src/marketdata/bars.py`. A tick is folded into the bar of
its New York minute; a bar is completed by the first tick of a later minute,
or by a read that finds its minute over. The second way removes the working
bar, and the guard against late ticks compares with the working bar alone.

So what a bar is made of is always right: the ticks that were accepted are
split, in their order, into stretches of one minute, and the bars are what
these stretches fold to (`BarFeed.Split`). But a stretch may be of a minute
that has had its bar. The minutes increase exactly where a tick that finds no
working bar is later than the last bar completed
(`BarFeed.barsExact_iff_inOrder`).

What the New York minute of an instant is – a count of minutes, as the wall
clock there shows them – is a parameter.
-/

/-! ## Bars and ticks -/

/-- A single one-minute bar of traded prices. -/
structure OhlcBar where
  symbol : String
  minuteStartNy : ℤ
  openPrice : Price
  high : Price
  low : Price
  closePrice : Price
  tickCount : ℕ := 0
  deriving DecidableEq

namespace OhlcBar

/-- The bar of a first price. -/
def ofPrice (symbol : String) (minute : ℤ) (price : Price) : OhlcBar :=
  ⟨symbol, minute, price, price, price, price, 1⟩

def update (price : Price) (bar : OhlcBar) : OhlcBar :=
  { bar with
    high := max bar.high price
    low := min bar.low price
    closePrice := price
    tickCount := bar.tickCount + 1 }

/-- The extremes bound what is between them. -/
def Bounded (bar : OhlcBar) : Prop :=
  bar.low ≤ bar.openPrice ∧ bar.openPrice ≤ bar.high
    ∧ bar.low ≤ bar.closePrice ∧ bar.closePrice ≤ bar.high

theorem bounded_ofPrice (symbol : String) (minute : ℤ) (price : Price) :
    (ofPrice symbol minute price).Bounded :=
  ⟨le_rfl, le_rfl, le_rfl, le_rfl⟩

theorem Bounded.update {bar : OhlcBar} (h : bar.Bounded) (price : Price) :
    (bar.update price).Bounded :=
  ⟨(min_le_left _ _).trans h.1, h.2.1.trans (le_max_left _ _), min_le_right _ _,
    le_max_right _ _⟩

end OhlcBar

/-- An observed price. -/
structure Tick where
  price : Price
  ts : Time
  deriving DecidableEq

/-- **The ticks of one minute**, of which there is a first. -/
structure MinuteTicks (nyMinute : Time → ℤ) where
  first : Tick
  rest : List Tick
  sameMinute : ∀ t ∈ rest, nyMinute t.ts = nyMinute first.ts

namespace MinuteTicks

variable {nyMinute : Time → ℤ}

/-- All of them, in their order. -/
def ticks (g : MinuteTicks nyMinute) : List Tick := g.first :: g.rest

/-- **The bar they fold to.** -/
def bar (symbol : String) (g : MinuteTicks nyMinute) : OhlcBar :=
  g.rest.foldl (fun bar t => bar.update t.price)
    (.ofPrice symbol (nyMinute g.first.ts) g.first.price)

/-- A tick alone. -/
def single (nyMinute : Time → ℤ) (t : Tick) : MinuteTicks nyMinute := ⟨t, [], by simp⟩

/-- One more tick of the minute. -/
def add (g : MinuteTicks nyMinute) (t : Tick) (h : nyMinute t.ts = nyMinute g.first.ts) :
    MinuteTicks nyMinute where
  first := g.first
  rest := g.rest ++ [t]
  sameMinute u hu := by
    rcases List.mem_append.mp hu with hu | hu
    · exact g.sameMinute u hu
    · exact List.mem_singleton.mp hu ▸ h

@[simp] theorem ticks_single (t : Tick) : (single nyMinute t).ticks = [t] := rfl

@[simp] theorem bar_single (symbol : String) (t : Tick) :
    (single nyMinute t).bar symbol = .ofPrice symbol (nyMinute t.ts) t.price := rfl

variable (g : MinuteTicks nyMinute) (symbol : String) (t : Tick)
  (h : nyMinute t.ts = nyMinute g.first.ts)

@[simp] theorem ticks_add : (g.add t h).ticks = g.ticks ++ [t] := rfl

@[simp] theorem bar_add : (g.add t h).bar symbol = (g.bar symbol).update t.price := by
  simp [bar, add]

/-- Folding leaves the minute. -/
theorem minuteStartNy_foldl (ts : List Tick) (bar : OhlcBar) :
    (ts.foldl (fun bar t => bar.update t.price) bar).minuteStartNy = bar.minuteStartNy := by
  induction ts generalizing bar with
  | nil => rfl
  | cons t ts ih => exact ih _

/-- Folding keeps the bounds. -/
theorem bounded_foldl (ts : List Tick) {bar : OhlcBar} (hbar : bar.Bounded) :
    (ts.foldl (fun bar t => bar.update t.price) bar).Bounded := by
  induction ts generalizing bar with
  | nil => exact hbar
  | cons t ts ih => exact ih (hbar.update t.price)

/-- **The bar is one of their minute.** -/
theorem bar_minuteStartNy : (g.bar symbol).minuteStartNy = nyMinute g.first.ts :=
  minuteStartNy_foldl _ _

/-- **It is bounded.** -/
theorem bar_bounded : (g.bar symbol).Bounded :=
  bounded_foldl _ (OhlcBar.bounded_ofPrice _ _ _)

end MinuteTicks

/-! ## The builder -/

/-- The last `n` elements: what a queue of that length retains. -/
def keepLast {α : Type} (n : ℕ) (xs : List α) : List α := xs.drop (xs.length - n)

/-- **The state of the builder.** -/
structure BarBuilder where
  working : String → Option OhlcBar := fun _ => none
  completed : String → List OhlcBar := fun _ => []
  maxCompleted : ℕ := 480
  /-- Every bar completed so far; the program only appends it to a file. -/
  persisted : String → List OhlcBar := fun _ => []

namespace BarBuilder

/-- `_roll`. -/
def roll (b : BarBuilder) (symbol : String) (bar : OhlcBar) : BarBuilder :=
  { b with
    completed := Function.update b.completed symbol
      (keepLast b.maxCompleted (b.completed symbol ++ [bar]))
    persisted := Function.update b.persisted symbol (b.persisted symbol ++ [bar]) }

/-- The working bar is set. -/
def setWorking (b : BarBuilder) (symbol : String) (bar : Option OhlcBar) : BarBuilder :=
  { b with working := Function.update b.working symbol bar }

variable (nyMinute : Time → ℤ)

/-- **`on_tick`**: the first tick of a minute completes the working bar and
starts its own, a tick of its minute is folded into it, and one of an earlier
minute is ignored. -/
def onTick (b : BarBuilder) (symbol : String) (price : Option Price) (ts : Time) :
    BarBuilder :=
  match price with
  | none => b
  | some price =>
    if price ≤ 0 then b
    else
      let minute := nyMinute ts
      match b.working symbol with
      | none => b.setWorking symbol (some (.ofPrice symbol minute price))
      | some bar =>
        if bar.minuteStartNy ≠ minute then
          if bar.minuteStartNy < minute then
            (b.roll symbol bar).setWorking symbol (some (.ofPrice symbol minute price))
          else b
        else b.setWorking symbol (some (bar.update price))

/-- `_maybe_roll_stale_working`: the working bar is completed, and removed,
where its minute is over. -/
def maybeRollStaleWorking (b : BarBuilder) (symbol : String) (now : Time) : BarBuilder :=
  match b.working symbol with
  | none => b
  | some bar =>
    if bar.minuteStartNy < nyMinute now then (b.roll symbol bar).setWorking symbol none
    else b

/-- **`get_latest_completed_bar`.** -/
def getLatestCompletedBar (b : BarBuilder) (symbol : String) (now : Time) :
    BarBuilder × Option OhlcBar :=
  let b := b.maybeRollStaleWorking nyMinute symbol now
  (b, (b.completed symbol).getLast?)

/-- The slice `xs[-count:]`. -/
def lastSlice {α : Type} (count : ℤ) (xs : List α) : List α :=
  if 0 < count then keepLast count.toNat xs else xs.drop (-count).toNat

/-- **`get_completed_bars`.** -/
def getCompletedBars (b : BarBuilder) (symbol : String) (count : ℤ) (now : Time) :
    BarBuilder × List OhlcBar :=
  let b := b.maybeRollStaleWorking nyMinute symbol now
  (b, lastSlice count (b.completed symbol))

/-- Whether `on_tick` folds the price into a bar. -/
def accepts (b : BarBuilder) (symbol : String) (price : Option Price) (ts : Time) : Bool :=
  price.any (0 < ·) && (b.working symbol).all (·.minuteStartNy ≤ nyMinute ts)

/-- Otherwise `on_tick` returns early. -/
theorem onTick_of_not_accepts {b : BarBuilder} {symbol : String} {price : Option Price}
    {ts : Time} (h : b.accepts nyMinute symbol price ts = false) :
    b.onTick nyMinute symbol price ts = b := by
  cases price with
  | none => rfl
  | some p =>
    by_cases hp : p ≤ 0
    · simp [onTick, hp]
    · cases hw : b.working symbol with
      | none => simp [accepts, hw, not_le.mp hp] at h
      | some bar =>
        have hgt : nyMinute ts < bar.minuteStartNy := by
          simpa [accepts, hw, not_le.mp hp] using h
        simp [onTick, hp, hw, hgt.ne', not_lt.mpr hgt.le]

end BarBuilder

/-! ## Feeding and reading -/

/-- The builder, with the ticks it has accepted of each symbol. -/
structure BarFeed where
  builder : BarBuilder
  accepted : String → List Tick := fun _ => []

namespace BarFeed

/-- What can happen next: a tick, and the two reads, at any instant. -/
inductive Label where
  | tick (symbol : String) (price : Option Price) (ts : Time)
  | latest (symbol : String) (now : Time)
  | recent (symbol : String) (count : ℤ) (now : Time)

variable (nyMinute : Time → ℤ)

/-- The ticks accepted after one more. -/
def record (s : BarFeed) (symbol : String) (price : Option Price) (ts : Time) :
    String → List Tick :=
  match price with
  | none => s.accepted
  | some p =>
    if s.builder.accepts nyMinute symbol price ts then
      Function.update s.accepted symbol (s.accepted symbol ++ [⟨p, ts⟩])
    else s.accepted

/-- One step of the feed. -/
def step (s : BarFeed) : Label → Option BarFeed
  | .tick symbol price ts =>
    some ⟨s.builder.onTick nyMinute symbol price ts, s.record nyMinute symbol price ts⟩
  | .latest symbol now =>
    some { s with builder := (s.builder.getLatestCompletedBar nyMinute symbol now).1 }
  | .recent symbol count now =>
    some { s with builder := (s.builder.getCompletedBars nyMinute symbol count now).1 }

/-- Ticks and reads in any order. -/
def machine : Machine BarFeed Label where
  step := step nyMinute

/-- No bars yet. -/
def initial (maxCompleted : ℕ) : BarFeed where
  builder := { maxCompleted := maxCompleted }

/-- **The bars of a symbol**, in the order in which they are completed; the
working bar is the last. -/
def bars (s : BarFeed) (symbol : String) : List OhlcBar :=
  s.builder.persisted symbol ++ (s.builder.working symbol).toList

/-- **The accepted ticks are split into the bars**: each is in exactly one,
which is of its minute. -/
def Split (s : BarFeed) (symbol : String) : Prop :=
  ∃ groups : List (MinuteTicks nyMinute),
    groups.map (·.bar symbol) = s.bars symbol
      ∧ groups.flatMap (·.ticks) = s.accepted symbol

/-- The minutes of the bars increase. -/
def Increasing (s : BarFeed) (symbol : String) : Prop :=
  (s.bars symbol).Pairwise fun bar next => bar.minuteStartNy < next.minuteStartNy

instance (s : BarFeed) (symbol : String) : Decidable (s.Increasing symbol) :=
  inferInstanceAs (Decidable (List.Pairwise _ _))

/-- **The bars are exact.** -/
structure BarsExact (s : BarFeed) : Prop where
  increasing : ∀ symbol, s.Increasing symbol
  bounded : ∀ symbol, ∀ bar ∈ s.bars symbol, bar.Bounded
  split : ∀ symbol, s.Split nyMinute symbol

/-- **A tick that starts a bar where there is none is later than the last bar
completed.** -/
def InOrder (s : BarFeed) (l : Label) : Prop :=
  ∀ symbol price ts, l = .tick symbol price ts →
    s.builder.accepts nyMinute symbol price ts = true → s.builder.working symbol = none →
      ∀ bar ∈ (s.builder.persisted symbol).getLast?, bar.minuteStartNy < nyMinute ts

/-! ## What a step does to the bars -/

/-- **What a step does to the bars of a symbol** and to the ticks accepted of
it. -/
inductive Change (s s' : BarFeed) (symbol : String) (l : Label) : Prop
  | same (hl : ∀ price ts, l = .tick symbol price ts →
        s.builder.accepts nyMinute symbol price ts = false)
      (hbars : s'.bars symbol = s.bars symbol)
      (haccepted : s'.accepted symbol = s.accepted symbol)
  /-- A tick starts a bar. -/
  | starts (p : Price) (ts : Time) (hl : l = .tick symbol (some p) ts)
      (haccepts : s.builder.accepts nyMinute symbol (some p) ts = true)
      (hworking : ∀ bar ∈ s.builder.working symbol, bar.minuteStartNy < nyMinute ts)
      (hbars : s'.bars symbol = s.bars symbol ++ [.ofPrice symbol (nyMinute ts) p])
      (haccepted : s'.accepted symbol = s.accepted symbol ++ [⟨p, ts⟩])
  /-- A tick is folded into the working bar. -/
  | folds (p : Price) (ts : Time) (earlier : List OhlcBar) (bar : OhlcBar)
      (hminute : bar.minuteStartNy = nyMinute ts)
      (hworking : s.builder.working symbol = some bar)
      (hbefore : s.bars symbol = earlier ++ [bar])
      (hbars : s'.bars symbol = earlier ++ [bar.update p])
      (haccepted : s'.accepted symbol = s.accepted symbol ++ [⟨p, ts⟩])

variable {nyMinute} {s s' : BarFeed} {l : Label}

/-- A read only moves the working bar to the completed ones. -/
theorem bars_maybeRollStaleWorking (s : BarFeed) (symbol other : String) (now : Time) :
    bars { s with builder := s.builder.maybeRollStaleWorking nyMinute other now } symbol
      = s.bars symbol := by
  unfold BarBuilder.maybeRollStaleWorking
  cases hw : s.builder.working other with
  | none => rfl
  | some bar =>
    dsimp only
    split_ifs
    · -- the working bar was the last of the bars, and is that still
      by_cases hsym : symbol = other
      · subst hsym
        simp [bars, BarBuilder.roll, BarBuilder.setWorking, hw]
      · simp [bars, BarBuilder.roll, BarBuilder.setWorking, hsym]
    · rfl

/-- A tick of another symbol changes nothing. -/
theorem onTick_of_ne (b : BarBuilder) {symbol other : String} (h : symbol ≠ other)
    (price : Option Price) (ts : Time) :
    (b.onTick nyMinute other price ts).working symbol = b.working symbol
      ∧ (b.onTick nyMinute other price ts).persisted symbol = b.persisted symbol := by
  unfold BarBuilder.onTick
  split
  · exact ⟨rfl, rfl⟩
  · dsimp only
    split_ifs
    · exact ⟨rfl, rfl⟩
    · split
      · simp [BarBuilder.setWorking, h]
      · split_ifs <;> simp [BarBuilder.setWorking, BarBuilder.roll, h]

theorem record_of_ne {symbol other : String} (h : symbol ≠ other) (price : Option Price)
    (ts : Time) : s.record nyMinute other price ts symbol = s.accepted symbol := by
  unfold record
  split
  · rfl
  · split_ifs
    · exact Function.update_of_ne h _ _
    · rfl

/-- **What a tick does to the bars of its symbol.** -/
theorem tick_change (s : BarFeed) (symbol : String) (price : Option Price) (ts : Time) :
    Change nyMinute s
      ⟨s.builder.onTick nyMinute symbol price ts, s.record nyMinute symbol price ts⟩
      symbol (.tick symbol price ts) := by
  cases price with
  | none => exact .same (by rintro _ _ ⟨⟩; rfl) rfl rfl
  | some p =>
    by_cases hp : p ≤ 0
    · refine .same ?_ ?_ ?_
      · rintro _ _ ⟨⟩
        simp [BarBuilder.accepts, not_lt.mpr hp]
      · simp [bars, BarBuilder.onTick, hp]
      · simp [record, BarBuilder.accepts, not_lt.mpr hp]
    have hpos : 0 < p := not_le.mp hp
    cases hw : s.builder.working symbol with
    | none =>
      have haccepts : s.builder.accepts nyMinute symbol (some p) ts = true := by
        simp [BarBuilder.accepts, hw, hpos]
      refine .starts p ts rfl haccepts (by simp [hw]) ?_ ?_
      · simp [bars, BarBuilder.onTick, hp, hw, BarBuilder.setWorking]
      · simp [record, haccepts]
    | some bar =>
      -- a later minute completes the working bar, its own is folded in, an earlier is late
      rcases lt_trichotomy bar.minuteStartNy (nyMinute ts) with hlt | heq | hgt
      · have haccepts : s.builder.accepts nyMinute symbol (some p) ts = true := by
          simp [BarBuilder.accepts, hw, hpos, hlt.le]
        refine .starts p ts rfl haccepts (by simp [hw, hlt]) ?_ ?_
        · simp [bars, BarBuilder.onTick, hp, hw, hlt, hlt.ne, BarBuilder.setWorking,
            BarBuilder.roll]
        · simp [record, haccepts]
      · have haccepts : s.builder.accepts nyMinute symbol (some p) ts = true := by
          simp [BarBuilder.accepts, hw, hpos, heq.le]
        refine .folds p ts (s.builder.persisted symbol) bar heq hw ?_ ?_ ?_
        · simp [bars, hw]
        · simp [bars, BarBuilder.onTick, hp, hw, heq, BarBuilder.setWorking]
        · simp [record, haccepts]
      · have haccepts : s.builder.accepts nyMinute symbol (some p) ts = false := by
          simp [BarBuilder.accepts, hw, not_le.mpr hgt]
        refine .same (by rintro _ _ ⟨⟩; exact haccepts) ?_ ?_
        · simp [bars, BarBuilder.onTick, hp, hw, hgt.ne', not_lt.mpr hgt.le]
        · simp [record, haccepts]

/-- **What a step does to the bars of any symbol.** -/
theorem step_change (h : s.step nyMinute l = some s') (symbol : String) :
    Change nyMinute s s' symbol l := by
  cases l with
  | tick other price ts =>
    obtain rfl := Option.some.inj h
    by_cases hsym : symbol = other
    · subst hsym
      exact tick_change s symbol price ts
    · obtain ⟨hworking, hpersisted⟩ := @onTick_of_ne nyMinute s.builder _ _ hsym price ts
      refine .same ?_ (by rw [bars, bars, hworking, hpersisted]) (record_of_ne hsym price ts)
      rintro _ _ ⟨⟩
      exact absurd rfl hsym
  | latest other now =>
    obtain rfl := Option.some.inj h
    exact .same (by rintro _ _ ⟨⟩) (bars_maybeRollStaleWorking s symbol other now) rfl
  | recent other count now =>
    obtain rfl := Option.some.inj h
    exact .same (by rintro _ _ ⟨⟩) (bars_maybeRollStaleWorking s symbol other now) rfl

/-! ## The ticks of the bars -/

/-- **A step keeps the accepted ticks split into the bars.** -/
theorem Split.step {symbol : String} (hs : s.Split nyMinute symbol)
    (h : s.step nyMinute l = some s') : s'.Split nyMinute symbol := by
  obtain ⟨groups, hbars, hticks⟩ := hs
  cases step_change h symbol with
  | same _ hbars' haccepted => exact ⟨groups, hbars'.symm ▸ hbars, haccepted.symm ▸ hticks⟩
  | starts p ts _ _ _ hbars' haccepted =>
    refine ⟨groups ++ [.single nyMinute ⟨p, ts⟩], ?_, ?_⟩
    · rw [List.map_append, hbars, hbars', List.map_singleton, MinuteTicks.bar_single]
    · rw [List.flatMap_append, hticks, haccepted, List.flatMap_singleton,
        MinuteTicks.ticks_single]
  | folds p ts earlier bar hminute _ hbefore hbars' haccepted =>
    rw [hbefore] at hbars
    obtain ⟨init, last, rfl, hinit, hlast⟩ := List.map_eq_append_iff.mp hbars
    obtain ⟨g, rfl, rfl⟩ := List.map_eq_singleton_iff.mp hlast
    have hsame : nyMinute ts = nyMinute g.first.ts := by
      rw [← hminute, MinuteTicks.bar_minuteStartNy]
    refine ⟨init ++ [g.add ⟨p, ts⟩ hsame], ?_, ?_⟩
    · rw [List.map_append, hinit, hbars', List.map_singleton, MinuteTicks.bar_add]
    · rw [haccepted, ← hticks]
      simp

/-- Bars that ticks fold to are bounded. -/
theorem Split.bounded {symbol : String} (hs : s.Split nyMinute symbol) :
    ∀ bar ∈ s.bars symbol, bar.Bounded := by
  obtain ⟨groups, hbars, -⟩ := hs
  intro bar hbar
  rw [← hbars] at hbar
  obtain ⟨g, -, rfl⟩ := List.mem_map.mp hbar
  exact g.bar_bounded symbol

theorem split_initial (maxCompleted : ℕ) (symbol : String) :
    (initial maxCompleted).Split nyMinute symbol := ⟨[], rfl, rfl⟩

/-! ## The order of the bars -/

/-- One more bar keeps the minutes increasing where it is later than the
last. -/
theorem pairwise_append_iff {bars : List OhlcBar} {bar : OhlcBar}
    (h : bars.Pairwise fun bar next => bar.minuteStartNy < next.minuteStartNy) :
    (bars ++ [bar]).Pairwise (fun bar next => bar.minuteStartNy < next.minuteStartNy)
      ↔ ∀ last ∈ bars.getLast?, last.minuteStartNy < bar.minuteStartNy := by
  rw [List.pairwise_append, and_iff_right h, and_iff_right (List.pairwise_singleton _ _)]
  constructor
  · intro hall last hlast
    exact hall last (List.mem_of_getLast? hlast) bar (List.mem_singleton_self _)
  · intro hlast other hother next hnext
    obtain rfl := List.mem_singleton.mp hnext
    have hne : bars ≠ [] := List.ne_nil_of_mem hother
    obtain ⟨init, last, rfl⟩ : ∃ init last, bars = init ++ [last] :=
      ⟨_, _, (List.dropLast_concat_getLast hne).symm⟩
    have hlt := hlast last (by simp)
    rcases List.mem_append.mp hother with hinit | hinit
    · exact ((List.pairwise_append.mp h).2.2 other hinit last
        (List.mem_singleton_self _)).trans hlt
    · exact List.mem_singleton.mp hinit ▸ hlt

/-- **A step keeps the minutes of a symbol increasing exactly when it is in
order.** -/
theorem increasing_step_iff (hs : ∀ symbol, s.Increasing symbol)
    (h : s.step nyMinute l = some s') :
    (∀ symbol, s'.Increasing symbol) ↔ s.InOrder nyMinute l := by
  constructor
  · rintro hs' symbol price ts rfl haccepts hnone bar hbar
    cases step_change h symbol with
    | same hnot => cases haccepts.symm.trans (hnot price ts rfl)
    | starts p ts' hl _ _ hbars =>
      cases hl
      have hnext := hs' symbol
      rw [Increasing, hbars, pairwise_append_iff (hs symbol)] at hnext
      exact hnext bar (by simpa [BarFeed.bars, hnone] using hbar)
    | folds _ _ _ _ _ hworking =>
      rw [hnone] at hworking
      cases hworking
  · intro horder symbol
    cases step_change h symbol with
    | same _ hbars => rw [Increasing, hbars]; exact hs symbol
    | starts p ts hl haccepts hworking hbars =>
      rw [Increasing, hbars, pairwise_append_iff (hs symbol)]
      intro last hlast
      cases hw : s.builder.working symbol with
      | none =>
        exact horder symbol _ ts hl haccepts hw last (by simpa [BarFeed.bars, hw] using hlast)
      | some bar =>
        obtain rfl : bar = last := by simpa [BarFeed.bars, hw] using hlast
        exact hworking bar hw
    | folds p ts earlier bar _ _ hbefore hbars =>
      have hbefore' := hs symbol
      rw [Increasing, hbefore, List.pairwise_append] at hbefore'
      rw [Increasing, hbars, List.pairwise_append]
      -- the bar that is folded keeps its minute
      refine ⟨hbefore'.1, List.pairwise_singleton _ _, fun other hother next hnext => ?_⟩
      obtain rfl := List.mem_singleton.mp hnext
      exact hbefore'.2.2 other hother bar (List.mem_singleton_self _)

/-- **The bars are exact exactly when the ticks that start a bar come in
order.** -/
theorem barsExact_iff_inOrder (nyMinute : Time → ℤ) (maxCompleted : ℕ) (ls : List Label) :
    (machine nyMinute).Throughout (BarsExact nyMinute) (initial maxCompleted) ls
      ↔ (machine nyMinute).Along (fun s l _ => s.InOrder nyMinute l) (initial maxCompleted)
        ls := by
  have hsplit : ∀ s l t, (∀ symbol, s.Split nyMinute symbol) →
      (machine nyMinute).step s l = some t → ∀ symbol, t.Split nyMinute symbol :=
    fun _ _ _ hs h symbol => (hs symbol).step h
  have hincreasing : ∀ symbol, (initial maxCompleted).Increasing symbol :=
    fun _ => List.Pairwise.nil
  have hexact : ∀ s : BarFeed, (∀ symbol, s.Split nyMinute symbol) →
      (s.BarsExact nyMinute ↔ ∀ symbol, s.Increasing symbol) := fun s hs =>
    ⟨fun h => h.increasing, fun h => ⟨h, fun symbol => (hs symbol).bounded, hs⟩⟩
  rw [Machine.throughout_iff_along,
    and_iff_right ((hexact _ (split_initial maxCompleted)).mpr hincreasing),
    ← Machine.along_target_iff (P := fun s => ∀ symbol, s.Increasing symbol) hsplit
      (fun s l t hs hinc h => increasing_step_iff hinc h) (split_initial maxCompleted) hincreasing]
  exact Machine.along_iff_of_step hsplit (fun s l t hs h => hexact t (hsplit s l t hs h))
    (split_initial maxCompleted)

/-- A tick, a read after its minute, and a tick of that minute that is
late. -/
def lateTick : List Label :=
  [.tick "XSP" (some 5) 30, .latest "XSP" 60, .tick "XSP" (some 6) 59]

/-- **A late tick starts a second bar of its minute.** -/
theorem not_barsExact :
    ¬ ∀ nyMinute maxCompleted ls,
      (machine nyMinute).Throughout (BarsExact nyMinute) (initial maxCompleted) ls := by
  intro h
  have hexact := h (fun ts => (ts / 60).floor) 480 lateTick lateTick _ List.prefix_rfl rfl
  exact absurd (hexact.increasing "XSP") (by decide +kernel)

/-! ## What is retained -/

/-- The queue holds the last of the bars completed. -/
def Retains (s : BarFeed) : Prop :=
  ∀ symbol, s.builder.completed symbol
    = keepLast s.builder.maxCompleted (s.builder.persisted symbol)

/-- What is appended to a queue pushes out the same as from the whole. -/
theorem keepLast_keepLast_append {α : Type} (n : ℕ) (xs : List α) (x : α) :
    keepLast n (keepLast n xs ++ [x]) = keepLast n (xs ++ [x]) := by
  have hdrop : keepLast n xs ++ [x] = (xs ++ [x]).drop (xs.length - n) :=
    (List.drop_append_of_le_length (Nat.sub_le _ _)).symm
  rw [hdrop, keepLast, keepLast, List.drop_drop, List.length_drop, List.length_append]
  congr 1
  simp only [List.length_singleton]
  omega

theorem getLast?_keepLast {α : Type} {n : ℕ} (hn : 0 < n) (xs : List α) :
    (keepLast n xs).getLast? = xs.getLast? := by
  rw [keepLast, List.getLast?_drop]
  split_ifs with hlen
  · have hnil : xs = [] := List.eq_nil_of_length_eq_zero (by omega)
    rw [hnil, List.getLast?_nil]
  · rfl

theorem retains_roll {b : BarBuilder} {symbol : String} (bar : OhlcBar)
    (working : String → Option OhlcBar) (accepted : String → List Tick)
    (hs : ∀ symbol, b.completed symbol = keepLast b.maxCompleted (b.persisted symbol)) :
    Retains ⟨{ b.roll symbol bar with working := working }, accepted⟩ := by
  intro other
  by_cases hsym : other = symbol
  · subst hsym
    simp [BarBuilder.roll, hs other, keepLast_keepLast_append]
  · simp [BarBuilder.roll, hsym, hs other]

/-- **A step keeps the queue at the last of the bars completed.** -/
theorem Retains.step (hs : s.Retains) (h : s.step nyMinute l = some s') : s'.Retains := by
  cases l with
  | tick symbol price ts =>
    obtain rfl := Option.some.inj h
    unfold BarBuilder.onTick
    split
    · exact hs
    · dsimp only
      split_ifs
      · exact hs
      · split
        · exact hs
        · split_ifs
          · exact retains_roll _ _ _ hs
          · exact hs
          · exact hs
  | latest symbol now | recent symbol count now =>
    obtain rfl := Option.some.inj h
    simp only [BarBuilder.getLatestCompletedBar, BarBuilder.getCompletedBars,
      BarBuilder.maybeRollStaleWorking]
    split
    · exact hs
    · split_ifs
      · exact retains_roll _ _ _ hs
      · exact hs

/-- **A read gives the last bar completed**, in every state of a run of a
builder that retains any. -/
theorem getLatestCompletedBar_eq {maxCompleted : ℕ} {ls : List Label}
    (hrun : (machine nyMinute).run (initial maxCompleted) ls = some s) (symbol : String)
    (now : Time) (hretains : 0 < s.builder.maxCompleted) :
    (s.builder.getLatestCompletedBar nyMinute symbol now).2
      = ((s.builder.getLatestCompletedBar nyMinute symbol now).1.persisted symbol).getLast? := by
  have hs : s.Retains := Machine.run_invariant' (J := Retains) (fun _ _ _ hs h => hs.step h)
    (fun _ => List.drop_nil.symm) hrun
  have hread : Retains { s with
      builder := (s.builder.getLatestCompletedBar nyMinute symbol now).1 } :=
    hs.step (l := .latest symbol now) rfl
  have hcap : (s.builder.getLatestCompletedBar nyMinute symbol now).1.maxCompleted
      = s.builder.maxCompleted := by
    simp only [BarBuilder.getLatestCompletedBar, BarBuilder.maybeRollStaleWorking]
    split
    · rfl
    · split_ifs <;> rfl
  refine (congrArg List.getLast? (hread symbol)).trans ?_
  dsimp only
  rw [hcap]
  exact getLast?_keepLast hretains _

end BarFeed
