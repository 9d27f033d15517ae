import ExecutionSystem.BarFile
import ExecutionSystem.ShortStraddle

/-!
# The breakout strategy

`XSPBreakoutStrategyProvider` of `src/strategies/xsp_breakout.py`, with its
variant of the afternoon. A poll that passes the gates of its strategy looks at
a price of the underlying – the close of the last completed bar, or the live
quote where there is no bar – and signals where it has moved far enough from the
reference price of the day (`BreakoutSession.poll`).

A session is the provider with the bar builder that its polls read, and every
look of its polls is kept (`Look`). Over any run the reference of a date is
fetched once, and every signal is one of a look that the gates let through
(`BreakoutSession.signals_sound`).
-/

/-! ## Parameters -/

/-- What a breakout strategy is configured by. -/
structure BreakoutConfig extends SizingConfig where
  entryTime : Option String := none
  triggerPct : Option ℚ := none
  allowReentry : Bool := false
  trigger_pos : ∀ pct ∈ triggerPct, 0 < pct

/-- When to look for a breakout, and for which. -/
structure BreakoutParams where
  hour : ℤ
  minute : ℤ
  triggerPct : ℚ
  deriving DecidableEq

/-- **A provider's variant**: its table of parameters, and the minute of the day
after the bar of the reference. -/
structure BreakoutVariant where
  strategyParams : StrategyId → Option BreakoutParams
  referenceBarTime : ℤ

/-- `XSPBreakoutStrategyProvider`. -/
def xspBreakout : BreakoutVariant where
  strategyParams
    | "xsp_0dte_1000" => some ⟨10, 0, 2 / 1000⟩
    | "xsp_0dte_1030" => some ⟨10, 30, 2 / 1000⟩
    | "xsp_0dte_1100" => some ⟨11, 0, 3 / 1000⟩
    | "xsp_0dte_1200" => some ⟨12, 0, 2 / 1000⟩
    | "xsp_0dte_1230" => some ⟨12, 30, 3 / 1000⟩
    | _ => none
  referenceBarTime := 9 * 60 + 31

/-- `XSPBreakoutLateStrategyProvider`. -/
def xspBreakoutLate : BreakoutVariant where
  strategyParams
    | "xsp_late_1300" => some ⟨13, 0, 2 / 1000⟩
    | "xsp_late_1330" => some ⟨13, 30, 2 / 1000⟩
    | "xsp_late_1400" => some ⟨14, 0, 3 / 1000⟩
    | "xsp_late_1430" => some ⟨14, 30, 3 / 1000⟩
    | _ => none
  referenceBarTime := 12 * 60 + 1

/-- The hour and the minute of a configured time; `none` where it is not two
integers around a colon. -/
def BreakoutConfig.entryClock (py : Builtins) (cfg : BreakoutConfig) : Option (ℤ × ℤ) :=
  cfg.entryTime.bind fun text =>
    match text.splitOn ":" with
    | [hh, mm] => (py.parseInt hh).bind fun hour => (py.parseInt mm).map (hour, ·)
    | _ => none

/-- **The parameters of a poll**: what is configured, or else what the table
has. -/
def BreakoutVariant.params (variant : BreakoutVariant) (py : Builtins) (cfg : BreakoutConfig) :
    Option BreakoutParams :=
  let codeParams := variant.strategyParams cfg.strategyId
  match (cfg.entryClock py).or (codeParams.map fun p => (p.hour, p.minute)),
    cfg.triggerPct.or (codeParams.map (·.triggerPct)) with
  | some (hour, minute), some triggerPct => some ⟨hour, minute, triggerPct⟩
  | _, _ => none

/-- Whether there is such a time of the day. -/
def BreakoutParams.Valid (params : BreakoutParams) : Prop :=
  (0 ≤ params.hour ∧ params.hour < 24) ∧ 0 ≤ params.minute ∧ params.minute < 60

instance (params : BreakoutParams) : Decidable params.Valid :=
  inferInstanceAs (Decidable ((_ ∧ _) ∧ _ ∧ _))

/-- The minute of the day from which on the poll scans. -/
def BreakoutParams.scanFrom (params : BreakoutParams) : ℤ := params.hour * 60 + params.minute

/-! ## Looking and signalling -/

/-- Where a price of the underlying is from. -/
inductive PriceSource where
  | barClose (bar : OhlcBar)
  | quote (price : Price)
  deriving DecidableEq

def PriceSource.price : PriceSource → Price
  | barClose bar => bar.closePrice
  | quote price => price

/-- The close of the last completed bar, or else what the quote has. -/
def priceSource (bar : Option OhlcBar) (quote : StrategyQuote) : Option PriceSource :=
  match bar with
  | some bar => some (.barClose bar)
  | none => quote.underlyingPrice.map .quote

/-- What a move buys: a call far enough above the reference, a put far enough
below. -/
def breakoutRight (price ref triggerPct : ℚ) : Option OptionRight :=
  if triggerPct ≤ (price - ref) / ref then some .call
  else if (price - ref) / ref ≤ -triggerPct then some .put
  else none

/-- A signal, with its metadata. -/
structure BreakoutSignal where
  signal : StrategySignal
  timestamp : Time
  referencePrice : Price
  underlyingPriceAtEntry : Price
  atmStrike : Price
  optionMidAtSignal : Option Price
  netLiquidation : Option Price
  positionSizingPct : ℚ

/-- What a poll raises: of a time that there is not, of a reference of zero, and
of a value that a validator refuses. -/
inductive BreakoutError where
  | valueError
  | zeroDivisionError
  | invalidStrike
  | invalidLimit
  deriving DecidableEq

/-- **One look of a poll** at a price: with what it is compared, and what the
signal is made of. -/
structure Look where
  cfg : BreakoutConfig
  date : CivilDate
  timestamp : Time
  ref : Price
  triggerPct : ℚ
  source : PriceSource
  optionQuote : String → Option QuoteSnapshot
  netLiquidation : Option Price

namespace Look

/-- What the look finds. -/
def right (look : Look) : Option OptionRight :=
  breakoutRight look.source.price look.ref look.triggerPct

/-- The contract at the money that expires on the date. -/
def contract (look : Look) (right : OptionRight)
    (h : (0 : Price) < roundHalfEven look.source.price) : OptionContract where
  symbol := "XSP"
  expiry := String.ofList look.date.digits
  strike := roundHalfEven look.source.price
  right := right
  strike_pos := h
  multiplier_pos := OptionContract.hundred_pos

/-- The signal for a contract; it is sized as that of the five-minute
breakout. -/
def signalFor (floatRepr : Price → String) (look : Look) (contract : OptionContract) :
    Except BreakoutError BreakoutSignal :=
  let mid := (look.optionQuote (contract.toQuoteSymbol floatRepr)).bind (·.midOrLast)
  let limit := emaLimit mid
  if hlimit : ∀ p ∈ limit, 0 < p then
    .ok
      { signal :=
          { strategyId := look.cfg.strategyId
            direction := .long
            contract := contract
            requestedQuantity := look.cfg.emaQuantity mid look.netLiquidation
            limitPrice := limit
            requested_pos := look.cfg.emaQuantity_pos mid look.netLiquidation
            limit_pos := hlimit }
        timestamp := look.timestamp
        referencePrice := look.ref
        underlyingPriceAtEntry := look.source.price
        atmStrike := contract.strike
        optionMidAtSignal := mid
        netLiquidation := look.netLiquidation
        positionSizingPct := look.cfg.positionSizingPct.getD (1 / 100) }
  else .error .invalidLimit

/-- **What a look comes to.** -/
def outcome (floatRepr : Price → String) (look : Look) :
    Except BreakoutError (Option BreakoutSignal) :=
  if look.ref = 0 then .error .zeroDivisionError
  else
    match look.right with
    | none => .ok none
    | some right =>
      if h : (0 : Price) < roundHalfEven look.source.price then
        (look.signalFor floatRepr (look.contract right h)).map some
      else .error .invalidStrike

end Look

/-! ## The provider -/

/-- **The state of the provider.** What it has traded is looked up and never
recorded. -/
structure XSPBreakoutStrategyProvider where
  refPrices : CivilDate → Option Price := fun _ => none
  failedFetches : CivilDate → Bool := fun _ => false
  tradedToday : CivilDate → StrategyId → Bool := fun _ _ => false
  mockReferencePrice : Option Price := none
  /-- The historical closes that were fetched, by date; the program keeps no
  such record. -/
  fetches : List (CivilDate × Option Price) := []

/-- **What is there during one poll**: the configuration, the instant, the
positions – none without a position manager – and what the broker says. Its
completed bars are read at an instant of their own, or the read raises. -/
structure BreakoutPoll where
  cfg : BreakoutConfig
  currentTime : Time
  positions : Option (List Position)
  historicalClose : ℤ → Option Price
  underlyingQuote : Option StrategyQuote
  readAt : Option Time
  writeOk : Bool
  optionQuote : String → Option QuoteSnapshot
  netLiquidation : Option Price

/-- The look that a poll takes at a price. -/
def BreakoutPoll.look (zone : NyZone) (p : BreakoutPoll) (ref : Price) (triggerPct : ℚ)
    (source : PriceSource) : Look where
  cfg := p.cfg
  date := NyZone.date (zone.minute p.currentTime)
  timestamp := p.currentTime
  ref := ref
  triggerPct := triggerPct
  source := source
  optionQuote := p.optionQuote
  netLiquidation := p.netLiquidation

namespace XSPBreakoutStrategyProvider

variable (zone : NyZone) (variant : BreakoutVariant)

/-- The strategy may not enter again on the date. -/
def blocked (s : XSPBreakoutStrategyProvider) (p : BreakoutPoll) (date : CivilDate) : Bool :=
  !p.cfg.allowReentry && (s.tradedToday date p.cfg.strategyId
    || (p.positions.getD []).any fun pos => pos.strategyId = p.cfg.strategyId
      && NyZone.date (zone.minute pos.enteredAt) = date)

/-- The minute whose historical close is the reference of a date. -/
def referenceMinute (date : CivilDate) : ℤ := date.dayNumber * 1440 + variant.referenceBarTime

/-- **The reference price of a date**: fetched once, and given up for the date
where that fails. -/
def reference (s : XSPBreakoutStrategyProvider) (p : BreakoutPoll) (date : CivilDate) :
    XSPBreakoutStrategyProvider × Option Price :=
  match s.refPrices date with
  | some ref => (s, some ref)
  | none =>
    if s.failedFetches date then (s, none)
    else
      match s.mockReferencePrice with
      | some ref => ({ s with refPrices := Function.update s.refPrices date (some ref) }, some ref)
      | none =>
        let price := p.historicalClose (referenceMinute variant date)
        let s := { s with fetches := s.fetches ++ [(date, price)] }
        match price with
        | some ref =>
          ({ s with refPrices := Function.update s.refPrices date (some ref) }, some ref)
        | none => ({ s with failedFetches := Function.update s.failedFetches date true }, none)

/-- A poll up to the price: the gates of the strategy, and the reference. -/
def gates (py : Builtins) (s : XSPBreakoutStrategyProvider) (p : BreakoutPoll) :
    XSPBreakoutStrategyProvider × Except BreakoutError (Option (BreakoutParams × Price)) :=
  match variant.params py p.cfg with
  | none => (s, .ok none)
  | some params =>
    let minute := zone.minute p.currentTime
    if ¬ params.Valid then (s, .error .valueError)
    else if minute % 1440 < params.scanFrom then (s, .ok none)
    else if s.blocked zone p (NyZone.date minute) then (s, .ok none)
    else
      let (s, ref) := s.reference variant p (NyZone.date minute)
      (s, .ok (ref.map (params, ·)))

/-! ## The reference -/

variable {zone variant} {s : XSPBreakoutStrategyProvider} {p : BreakoutPoll}

/-- **What the gates let through.** -/
theorem gates_eq_some {py : Builtins} {params : BreakoutParams} {ref : Price}
    (h : (s.gates zone variant py p).2 = .ok (some (params, ref))) :
    variant.params py p.cfg = some params ∧ params.Valid
      ∧ params.scanFrom ≤ zone.minute p.currentTime % 1440
      ∧ s.blocked zone p (NyZone.date (zone.minute p.currentTime)) = false
      ∧ (s.reference variant p (NyZone.date (zone.minute p.currentTime))).2 = some ref := by
  unfold gates at h
  cases hparams : variant.params py p.cfg with
  | none => simp only [hparams] at h; cases h
  | some params' =>
    simp only [hparams] at h
    split_ifs at h with hvalid hscan hblocked
    · cases h
    · cases h
    · obtain ⟨ref', href, heq⟩ := Option.map_eq_some_iff.mp (Except.ok.inj h)
      cases heq
      exact ⟨rfl, hvalid, not_lt.mp hscan, Bool.not_eq_true _ ▸ hblocked, href⟩

/-- The gates change the provider by looking up the reference alone. -/
theorem gates_fst (zone : NyZone) (variant : BreakoutVariant) (py : Builtins)
    (s : XSPBreakoutStrategyProvider) (p : BreakoutPoll) :
    (s.gates zone variant py p).1 = s ∨ (s.gates zone variant py p).1
      = (s.reference variant p (NyZone.date (zone.minute p.currentTime))).1 := by
  unfold gates
  split
  · exact .inl rfl
  · dsimp only
    split_ifs
    · exact .inl rfl
    · exact .inl rfl
    · exact .inr rfl
    · exact .inl rfl

/-- **A reference is fetched once**: what is kept of a date is its one fetch, and
a date that was fetched is kept or given up. -/
structure FetchesOnce (s : XSPBreakoutStrategyProvider) : Prop where
  kept : ∀ date ref, s.refPrices date = some ref →
    s.mockReferencePrice = some ref ∨ (date, some ref) ∈ s.fetches
  settled : ∀ e ∈ s.fetches, s.mockReferencePrice = none
    ∧ ((s.refPrices e.1).isSome ∨ s.failedFetches e.1 = true)
  nodup : (s.fetches.map Prod.fst).Nodup

/-- What a look-up of the reference does. -/
inductive Refers (variant : BreakoutVariant) (s : XSPBreakoutStrategyProvider) (p : BreakoutPoll)
    (date : CivilDate) : Prop
  | kept (ref : Price) (hkept : s.refPrices date = some ref)
      (h : s.reference variant p date = (s, some ref))
  | failed (h : s.reference variant p date = (s, none))
  | mocked (ref : Price) (hmock : s.mockReferencePrice = some ref)
      (hnone : s.refPrices date = none)
      (h : s.reference variant p date
        = ({ s with refPrices := Function.update s.refPrices date (some ref) }, some ref))
  | fetched (ref : Price) (hmock : s.mockReferencePrice = none)
      (hnone : s.refPrices date = none) (hfailed : s.failedFetches date = false)
      (hprice : p.historicalClose (referenceMinute variant date) = some ref)
      (h : s.reference variant p date
        = ({ s with
            fetches := s.fetches ++ [(date, some ref)]
            refPrices := Function.update s.refPrices date (some ref) }, some ref))
  | gaveUp (hmock : s.mockReferencePrice = none) (hnone : s.refPrices date = none)
      (hfailed : s.failedFetches date = false)
      (h : s.reference variant p date
        = ({ s with
            fetches := s.fetches ++ [(date, none)]
            failedFetches := Function.update s.failedFetches date true }, none))

theorem refers (variant : BreakoutVariant) (s : XSPBreakoutStrategyProvider) (p : BreakoutPoll)
    (date : CivilDate) : Refers variant s p date := by
  cases hkept : s.refPrices date with
  | some ref => exact .kept ref hkept (by simp only [reference, hkept])
  | none =>
    cases hfailed : s.failedFetches date with
    | true => exact .failed (by simp only [reference, hkept, hfailed, if_true])
    | false =>
      cases hmock : s.mockReferencePrice with
      | some ref =>
        exact .mocked ref hmock hkept (by simp [reference, hkept, hfailed, hmock])
      | none =>
        cases hprice : p.historicalClose (referenceMinute variant date) with
        | some ref =>
          exact .fetched ref hmock hkept hfailed hprice
            (by simp [reference, hkept, hfailed, hmock, hprice])
        | none =>
          exact .gaveUp hmock hkept hfailed (by simp [reference, hkept, hfailed, hmock, hprice])

/-- A date that was neither kept nor given up was not fetched. -/
theorem FetchesOnce.not_mem (hs : s.FetchesOnce) {date : CivilDate}
    (hnone : s.refPrices date = none) (hfailed : s.failedFetches date = false) :
    date ∉ s.fetches.map Prod.fst := by
  intro hmem
  obtain ⟨e, he, rfl⟩ := List.mem_map.mp hmem
  rcases (hs.settled e he).2 with hkept | hgaveUp
  · rw [hnone] at hkept; cases hkept
  · rw [hfailed] at hgaveUp; cases hgaveUp

/-- **A look-up keeps this.** -/
theorem FetchesOnce.reference (hs : s.FetchesOnce) (p : BreakoutPoll) (date : CivilDate) :
    (s.reference variant p date).1.FetchesOnce := by
  cases refers variant s p date with
  | kept ref hkept h => rw [h]; exact hs
  | failed h => rw [h]; exact hs
  | mocked ref hmock hnone h =>
    rw [h]
    refine ⟨fun d r hd => ?_, fun e he => ?_, hs.nodup⟩
    · dsimp only at hd
      by_cases hdate : d = date
      · subst hdate
        rw [Function.update_self] at hd
        exact .inl (hd ▸ hmock)
      · rw [Function.update_of_ne hdate] at hd
        exact hs.kept d r hd
    · cases hmock.symm.trans (hs.settled e he).1
  | fetched ref hmock hnone hfailed hprice h =>
    rw [h]
    refine ⟨fun d r hd => ?_, fun e he => ⟨hmock, ?_⟩, ?_⟩
    · dsimp only at hd
      by_cases hdate : d = date
      · subst hdate
        rw [Function.update_self] at hd
        exact .inr (List.mem_append_right _ (hd ▸ List.mem_singleton_self _))
      · rw [Function.update_of_ne hdate] at hd
        exact (hs.kept d r hd).imp_right (List.mem_append_left _)
    · dsimp only
      by_cases hdate : e.1 = date
      · rw [hdate, Function.update_self]
        exact .inl rfl
      · rw [Function.update_of_ne hdate]
        rcases List.mem_append.mp he with hold | hnew
        · exact (hs.settled e hold).2
        · exact absurd (congrArg Prod.fst (List.mem_singleton.mp hnew)) hdate
    · rw [List.map_append, List.map_singleton, ← List.concat_eq_append]
      exact hs.nodup.concat (hs.not_mem hnone hfailed)
  | gaveUp hmock hnone hfailed h =>
    rw [h]
    refine ⟨fun d r hd => ?_, fun e he => ⟨hmock, ?_⟩, ?_⟩
    · exact (hs.kept d r hd).imp_right (List.mem_append_left _)
    · dsimp only
      by_cases hdate : e.1 = date
      · rw [hdate, Function.update_self]
        exact .inr rfl
      · rw [Function.update_of_ne hdate]
        rcases List.mem_append.mp he with hold | hnew
        · exact (hs.settled e hold).2
        · exact absurd (congrArg Prod.fst (List.mem_singleton.mp hnew)) hdate
    · rw [List.map_append, List.map_singleton, ← List.concat_eq_append]
      exact hs.nodup.concat (hs.not_mem hnone hfailed)

/-- What is kept stays, and what is found is kept. -/
theorem refPrices_reference (s : XSPBreakoutStrategyProvider) (p : BreakoutPoll)
    (date : CivilDate) :
    (∀ d ref, s.refPrices d = some ref → (s.reference variant p date).1.refPrices d = some ref)
      ∧ ((s.reference variant p date).2 = none
        ∨ (s.reference variant p date).1.refPrices date = (s.reference variant p date).2)
      ∧ (s.reference variant p date).1.mockReferencePrice = s.mockReferencePrice := by
  have hupdate : s.refPrices date = none → ∀ ref d r, s.refPrices d = some r →
      Function.update s.refPrices date (some ref) d = some r := by
    intro hnone ref d r hd
    have hne : d ≠ date := by
      rintro rfl
      cases hnone.symm.trans hd
    rw [Function.update_of_ne hne, hd]
  cases refers variant s p date with
  | kept ref hkept h => rw [h]; exact ⟨fun _ _ hd => hd, .inr hkept, rfl⟩
  | failed h => rw [h]; exact ⟨fun _ _ hd => hd, .inl rfl, rfl⟩
  | mocked ref _ hnone h =>
    rw [h]
    exact ⟨hupdate hnone ref, .inr (Function.update_self ..), rfl⟩
  | fetched ref _ hnone _ _ h =>
    rw [h]
    exact ⟨hupdate hnone ref, .inr (Function.update_self ..), rfl⟩
  | gaveUp _ _ _ h => rw [h]; exact ⟨fun _ _ hd => hd, .inl rfl, rfl⟩

end XSPBreakoutStrategyProvider

/-! ## A session -/

/-- The last completed bar of a symbol is read, which may complete one. -/
def BarRecorder.readLatest (py : Builtins) (zone : NyZone) (r : BarRecorder) (symbol : String)
    (now : Time) (ok : Bool) : BarRecorder :=
  (r.step py zone ⟨.latest symbol now, ok⟩).getD r

/-- **The provider with the bar builder that it reads.** The program keeps no
record of the looks. -/
structure BreakoutSession where
  recorder : BarRecorder
  provider : XSPBreakoutStrategyProvider := {}
  looks : List Look := []

namespace BreakoutSession

variable (py : Builtins) (zone : NyZone) (variant : BreakoutVariant)

/-- The last completed bar, which is read where the call does not raise. -/
def readBar (s : BreakoutSession) (p : BreakoutPoll) : BreakoutSession × Option OhlcBar :=
  match p.readAt with
  | none => (s, none)
  | some now =>
    let recorder := s.recorder.readLatest py zone "XSP" now p.writeOk
    ({ s with recorder := recorder }, (recorder.feed.builder.completed "XSP").getLast?)

/-- **`poll`.** -/
def poll (s : BreakoutSession) (p : BreakoutPoll) :
    BreakoutSession × Except BreakoutError (Option BreakoutSignal) :=
  let (provider, gated) := s.provider.gates zone variant py p
  let s := { s with provider := provider }
  match gated with
  | .error e => (s, .error e)
  | .ok none => (s, .ok none)
  | .ok (some (params, ref)) =>
    match p.underlyingQuote with
    | none => (s, .ok none)
    | some quote =>
      let (s, bar) := s.readBar py zone p
      match priceSource bar quote with
      | none => (s, .ok none)
      | some source =>
        let look := p.look zone ref params.triggerPct source
        ({ s with looks := s.looks ++ [look] }, look.outcome fun x => py.floatRepr (.finite x))

/-- What can happen next: something to the bars, or a poll. -/
inductive Label where
  | bars (l : BarRecorder.Label)
  | poll (p : BreakoutPoll)

/-- One step of a session. -/
def step (s : BreakoutSession) : Label → Option BreakoutSession
  | .bars l => (s.recorder.step py zone l).map fun recorder => { s with recorder := recorder }
  | .poll p => some (s.poll py zone variant p).1

/-- Ticks, reads and polls in any order. -/
def machine : Machine BreakoutSession Label where
  step := step py zone variant

/-- Nothing has happened. -/
def initial (maxCompleted : ℕ) (mockReferencePrice : Option Price) : BreakoutSession where
  recorder := .initial maxCompleted
  provider := { mockReferencePrice := mockReferencePrice }

/-! ## What a poll does -/

variable {py zone variant} {s t : BreakoutSession}

/-- What a poll leaves of the bars: they are as they were, or read once. -/
def ReadsOnce (py : Builtins) (zone : NyZone) (p : BreakoutPoll) (r r' : BarRecorder) : Prop :=
  r' = r ∨ ∃ now, r.step py zone ⟨.latest "XSP" now, p.writeOk⟩ = some r'

/-- A read gives the last bar that is retained, or none where the call raises. -/
theorem readBar_spec (py : Builtins) (zone : NyZone) (s : BreakoutSession) (p : BreakoutPoll) :
    ∃ recorder, (s.readBar py zone p).1 = { s with recorder := recorder }
      ∧ ReadsOnce py zone p s.recorder recorder
      ∧ ∀ bar ∈ (s.readBar py zone p).2,
        bar ∈ (recorder.feed.builder.completed "XSP").getLast? := by
  unfold readBar
  cases p.readAt with
  | none => exact ⟨s.recorder, rfl, .inl rfl, by rintro bar ⟨⟩⟩
  | some now => exact ⟨_, rfl, .inr ⟨now, rfl⟩, fun _ hbar => hbar⟩

/-- **What a poll does**: it stops before the price, or it looks at one. -/
inductive Polls (py : Builtins) (zone : NyZone) (variant : BreakoutVariant) (s : BreakoutSession)
    (p : BreakoutPoll) : Prop
  | stops (recorder : BarRecorder) (hreads : ReadsOnce py zone p s.recorder recorder)
      (hstate : (s.poll py zone variant p).1
        = ⟨recorder, (s.provider.gates zone variant py p).1, s.looks⟩)
      (hresult : ∀ sig, (s.poll py zone variant p).2 ≠ .ok (some sig))
  | looks (recorder : BarRecorder) (hreads : ReadsOnce py zone p s.recorder recorder)
      (params : BreakoutParams) (ref : Price)
      (hgates : (s.provider.gates zone variant py p).2 = .ok (some (params, ref)))
      (quote : StrategyQuote) (hquote : p.underlyingQuote = some quote)
      (bar : Option OhlcBar)
      (hbar : ∀ b ∈ bar, b ∈ (recorder.feed.builder.completed "XSP").getLast?)
      (source : PriceSource) (hsource : priceSource bar quote = some source)
      (hstate : (s.poll py zone variant p).1
        = ⟨recorder, (s.provider.gates zone variant py p).1,
          s.looks ++ [p.look zone ref params.triggerPct source]⟩)
      (hresult : (s.poll py zone variant p).2
        = (p.look zone ref params.triggerPct source).outcome fun x => py.floatRepr (.finite x))

/-- **A poll stops before the price, or looks at one.** -/
theorem polls (py : Builtins) (zone : NyZone) (variant : BreakoutVariant) (s : BreakoutSession)
    (p : BreakoutPoll) : Polls py zone variant s p := by
  have hstops : ∀ r, (∀ sig, r ≠ .ok (some sig)) → s.poll py zone variant p
      = (⟨s.recorder, (s.provider.gates zone variant py p).1, s.looks⟩, r) →
      Polls py zone variant s p := fun r hr h =>
    .stops s.recorder (.inl rfl) (congrArg Prod.fst h) (by rw [h]; exact hr)
  cases hgates : (s.provider.gates zone variant py p).2 with
  | error e =>
    refine hstops (.error e) (by rintro _ ⟨⟩) ?_
    rw [poll]
    simp only [hgates]
  | ok gated =>
    cases gated with
    | none =>
      refine hstops (.ok none) (by rintro _ ⟨⟩) ?_
      rw [poll]
      simp only [hgates]
    | some opened =>
      obtain ⟨params, ref⟩ := opened
      cases hquote : p.underlyingQuote with
      | none =>
        refine hstops (.ok none) (by rintro _ ⟨⟩) ?_
        rw [poll]
        simp only [hgates, hquote]
      | some quote =>
        obtain ⟨recorder, hstate, hreads, hbar⟩ := readBar_spec py zone
          { s with provider := (s.provider.gates zone variant py p).1 } p
        cases hsource : priceSource (readBar py zone
            { s with provider := (s.provider.gates zone variant py p).1 } p).2 quote with
        | none =>
          have h : s.poll py zone variant p
              = (⟨recorder, (s.provider.gates zone variant py p).1, s.looks⟩, .ok none) := by
            rw [poll]
            simp only [hgates, hquote, hsource, hstate]
          exact .stops recorder hreads (congrArg Prod.fst h) (by rw [h]; rintro _ ⟨⟩)
        | some source =>
          have h : s.poll py zone variant p
              = (⟨recorder, (s.provider.gates zone variant py p).1,
                  s.looks ++ [p.look zone ref params.triggerPct source]⟩,
                (p.look zone ref params.triggerPct source).outcome
                  fun x => py.floatRepr (.finite x)) := by
            rw [poll]
            simp only [hgates, hquote, hsource, hstate]
          exact .looks recorder hreads params ref hgates quote hquote _ hbar source hsource
            (congrArg Prod.fst h) (congrArg Prod.snd h)

/-! ## One reference a date -/

/-- **References are fetched once, and every look is at the one of its date.** -/
structure LooksOnce (s : BreakoutSession) : Prop where
  fetches : s.provider.FetchesOnce
  kept : ∀ look ∈ s.looks, s.provider.refPrices look.date = some look.ref

theorem looksOnce_initial (maxCompleted : ℕ) (mock : Option Price) :
    (initial maxCompleted mock).LooksOnce where
  fetches :=
    { kept := by rintro date ref ⟨⟩
      settled := by rintro e ⟨⟩
      nodup := List.nodup_nil }
  kept := by rintro look ⟨⟩

/-- The gates keep the fetches, and what is kept of a date. -/
theorem gates_keep (py : Builtins) (zone : NyZone) (variant : BreakoutVariant)
    (hs : s.provider.FetchesOnce) (p : BreakoutPoll) :
    (s.provider.gates zone variant py p).1.FetchesOnce
      ∧ (∀ d ref, s.provider.refPrices d = some ref →
        (s.provider.gates zone variant py p).1.refPrices d = some ref)
      ∧ (s.provider.gates zone variant py p).1.mockReferencePrice
        = s.provider.mockReferencePrice := by
  rcases s.provider.gates_fst zone variant py p with h | h
  · rw [h]
    exact ⟨hs, fun _ _ hd => hd, rfl⟩
  · rw [h]
    obtain ⟨hkept, -, hmock⟩ := s.provider.refPrices_reference p
      (NyZone.date (zone.minute p.currentTime))
    exact ⟨hs.reference p _, hkept, hmock⟩

/-- What the gates let through is kept of its date. -/
theorem refPrices_gates {p : BreakoutPoll} {params : BreakoutParams} {ref : Price}
    (h : (s.provider.gates zone variant py p).2 = .ok (some (params, ref))) :
    (s.provider.gates zone variant py p).1.refPrices (NyZone.date (zone.minute p.currentTime))
      = some ref := by
  obtain ⟨hparams, hvalid, hscan, hblocked, href⟩ := XSPBreakoutStrategyProvider.gates_eq_some h
  have hstate : (s.provider.gates zone variant py p).1
      = (s.provider.reference variant p (NyZone.date (zone.minute p.currentTime))).1 := by
    simp only [XSPBreakoutStrategyProvider.gates, hparams, not_true_eq_false, hvalid, if_false,
      if_neg (not_lt.mpr hscan), hblocked, Bool.false_eq_true]
  rw [hstate]
  rcases (s.provider.refPrices_reference p _).2.1 with hnone | hkept
  · cases hnone.symm.trans href
  · exact hkept.trans href

/-- **A step keeps this.** -/
theorem LooksOnce.step {l : Label} (hs : s.LooksOnce)
    (h : s.step py zone variant l = some t) : t.LooksOnce := by
  cases l with
  | bars l =>
    obtain ⟨recorder, -, rfl⟩ := Option.map_eq_some_iff.mp h
    exact ⟨hs.fetches, hs.kept⟩
  | poll p =>
    obtain rfl := Option.some.inj h
    obtain ⟨hfetches, hkept, -⟩ := gates_keep py zone variant hs.fetches p
    cases polls py zone variant s p with
    | stops recorder _ hstate _ =>
      rw [hstate]
      exact ⟨hfetches, fun look hlook => hkept _ _ (hs.kept look hlook)⟩
    | looks recorder _ params ref hgates _ _ _ _ source _ hstate _ =>
      rw [hstate]
      refine ⟨hfetches, fun look hlook => ?_⟩
      rcases List.mem_append.mp hlook with hold | hnew
      · exact hkept _ _ (hs.kept look hold)
      · obtain rfl := List.mem_singleton.mp hnew
        exact refPrices_gates hgates

theorem mock_step {l : Label} (hs : s.LooksOnce) (h : s.step py zone variant l = some t) :
    t.provider.mockReferencePrice = s.provider.mockReferencePrice := by
  cases l with
  | bars l =>
    obtain ⟨recorder, -, rfl⟩ := Option.map_eq_some_iff.mp h
    rfl
  | poll p =>
    obtain rfl := Option.some.inj h
    obtain ⟨-, -, hmock⟩ := gates_keep py zone variant hs.fetches p
    cases polls py zone variant s p with
    | stops recorder _ hstate _ => rw [hstate]; exact hmock
    | looks recorder _ params ref _ _ _ _ _ source _ hstate _ => rw [hstate]; exact hmock

/-- **One reference a date.** In every run the historical close of a date is
fetched at most once, and all looks of a date compare with what that fetch gave –
or with the mocked price, where there is one. -/
theorem reference_once {maxCompleted : ℕ} {mock : Option Price} {ls : List Label}
    (hrun : (machine py zone variant).run (initial maxCompleted mock) ls = some s) :
    (s.provider.fetches.map Prod.fst).Nodup ∧ ∀ look ∈ s.looks,
      mock = some look.ref ∨ mock = none ∧ (look.date, some look.ref) ∈ s.provider.fetches := by
  obtain ⟨hs, hmock⟩ : s.LooksOnce ∧ s.provider.mockReferencePrice = mock :=
    Machine.run_invariant' (J := fun s => s.LooksOnce ∧ s.provider.mockReferencePrice = mock)
      (fun _ _ _ hs h => ⟨hs.1.step h, (mock_step hs.1 h).trans hs.2⟩)
      ⟨looksOnce_initial maxCompleted mock, rfl⟩ hrun
  refine ⟨hs.fetches.nodup, fun look hlook => ?_⟩
  rcases hs.fetches.kept _ _ (hs.kept look hlook) with hmocked | hfetched
  · exact .inl (hmock ▸ hmocked)
  · exact .inr ⟨hmock ▸ (hs.fetches.settled _ hfetched).1, hfetched⟩

theorem noBid_le : ∀ b ∈ (none : Option Price), ∀ a ∈ (none : Option Price), b ≤ a := by
  rintro _ ⟨⟩

/-- A poll at 10:01. -/
def samplePoll : BreakoutPoll where
  cfg :=
    { strategyId := "xsp_0dte_1000"
      maxContracts := 1
      maxContracts_pos := Nat.one_pos
      sizing_pos := SizingConfig.default_pos
      trigger_pos := by rintro _ ⟨⟩ }
  currentTime := 63905209260
  positions := none
  historicalClose _ := some (11 / 2)
  underlyingQuote := some
    { last := some 6
      timestamp := 63905209260
      bid_le_ask := noBid_le }
  readAt := some 63905209260
  writeOk := true
  optionQuote _ := none
  netLiquidation := none

/-- A tick at 9:30, one at 10:00, and the poll. -/
def sampleSession : List Label :=
  [.bars ⟨.tick "XSP" (some (11 / 2)) 63905207400, true⟩,
    .bars ⟨.tick "XSP" (some 6) 63905209200, true⟩, .poll samplePoll]

theorem reference_once_sampleSession : ∃ s,
    (machine BarRecorder.twoPrices BarRecorder.winterClock xspBreakout).run (initial 480 none)
        sampleSession = some s
      ∧ s.looks.length = 1 ∧ (s.provider.fetches.map Prod.fst).Nodup
      ∧ ∀ look ∈ s.looks, (none : Option Price) = some look.ref
        ∨ (none : Option Price) = none ∧ (look.date, some look.ref) ∈ s.provider.fetches := by
  obtain ⟨s, hrun, hlength⟩ : ∃ s, (machine BarRecorder.twoPrices BarRecorder.winterClock
      xspBreakout).run (initial 480 none) sampleSession = some s ∧ s.looks.length = 1 :=
    ⟨_, rfl, by decide +kernel⟩
  obtain ⟨hnodup, hlooks⟩ := reference_once hrun
  exact ⟨s, hrun, hlength, hnodup, hlooks⟩

/-! ## What a signal is -/

/-- Cents are near. -/
theorem abs_roundToCents_sub_le (p : Price) : |roundToCents p - p| ≤ 1 / 200 := by
  have h := abs_roundHalfEven_sub_le (p * 100)
  rw [abs_le] at h ⊢
  unfold roundToCents
  constructor <;> linarith [h.1, h.2]

/-- **What a signal of a poll is.** -/
structure SignalSound (py : Builtins) (zone : NyZone) (variant : BreakoutVariant)
    (mock : Option Price) (p : BreakoutPoll) (t : BreakoutSession) (sig : BreakoutSignal) :
    Prop where
  /-- The scan of the strategy has begun, and the price has moved far enough. -/
  moved : ∃ params, variant.params py p.cfg = some params ∧ params.Valid
    ∧ params.scanFrom ≤ zone.minute p.currentTime % 1440
    ∧ (sig.signal.contract.right = .call ∧ params.triggerPct
        ≤ (sig.underlyingPriceAtEntry - sig.referencePrice) / sig.referencePrice
      ∨ sig.signal.contract.right = .put
        ∧ (sig.underlyingPriceAtEntry - sig.referencePrice) / sig.referencePrice
          ≤ -params.triggerPct)
  /-- No position of the strategy was entered on the date, unless it may enter
  again. -/
  first : p.cfg.allowReentry = false → ∀ pos ∈ p.positions.getD [],
    pos.strategyId = p.cfg.strategyId →
      NyZone.date (zone.minute pos.enteredAt) ≠ NyZone.date (zone.minute p.currentTime)
  /-- The price is the close of the last bar, or else that of the quote. -/
  priced : (∃ bar ∈ (t.recorder.feed.builder.persisted "XSP").getLast?,
      sig.underlyingPriceAtEntry = bar.closePrice)
    ∨ ∃ quote ∈ p.underlyingQuote, quote.underlyingPrice = some sig.underlyingPriceAtEntry
  /-- The reference is the one of the date. -/
  reference : mock = some sig.referencePrice
    ∨ (NyZone.date (zone.minute p.currentTime), some sig.referencePrice) ∈ t.provider.fetches
  /-- The contract is at the money, and expires on the date. -/
  strike : |sig.signal.contract.strike - sig.underlyingPriceAtEntry| ≤ 1 / 2
  expiry : sig.signal.contract.expiry
    = String.ofList (NyZone.date (zone.minute p.currentTime)).digits
  /-- The quantity is at most what is configured, and one or paid for by the
  share of the account, up to rounding. -/
  quantity_le : sig.signal.requestedQuantity ≤ p.cfg.maxContracts
  paid : sig.signal.requestedQuantity = 1 ∨ ∃ mid cap, sig.optionMidAtSignal = some mid
    ∧ p.netLiquidation = some cap
    ∧ PaysFor
      (cap * p.cfg.positionSizingPct.getD (binary64 (1 / 100))) mid sig.signal.requestedQuantity
  /-- The limit is the middle of the option, to cents. -/
  limit : ∀ limit ∈ sig.signal.limitPrice, 0 < limit
    ∧ ∃ mid, sig.optionMidAtSignal = some mid ∧ |limit - mid| ≤ 1 / 200

/-- The quantity is at most what is configured, and one or paid for. -/
theorem emaQuantity_spec (cfg : SizingConfig) (mid netLiquidation : Option Price) :
    cfg.emaQuantity mid netLiquidation ≤ cfg.maxContracts
      ∧ (cfg.emaQuantity mid netLiquidation = 1 ∨ ∃ m cap, mid = some m
        ∧ netLiquidation = some cap ∧ PaysFor
          (cap * cfg.positionSizingPct.getD (binary64 (1 / 100))) m
          (cfg.emaQuantity mid netLiquidation)) := by
  have hone : 1 ≤ cfg.maxContracts := cfg.maxContracts_pos
  unfold SizingConfig.emaQuantity
  split
  · rename_i m cap
    dsimp only
    split_ifs with hinputs
    · refine ⟨min_le_right _ _, (capped_spec hone _).imp_right fun hle => ⟨m, cap, rfl, rfl, ?_⟩⟩
      exact paysFor_of_le hinputs.1.le (by omega) hle
    · exact ⟨hone, .inl rfl⟩
  · exact ⟨hone, .inl rfl⟩

/-- **What a look comes to**, where it comes to a signal. -/
theorem outcome_eq_some {floatRepr : Price → String} {look : Look} {sig : BreakoutSignal}
    (h : look.outcome floatRepr = .ok (some sig)) :
    ∃ right hstrike, look.right = some right ∧ look.ref ≠ 0
      ∧ look.signalFor floatRepr (look.contract right hstrike) = .ok sig := by
  unfold Look.outcome at h
  rw [ite_eq_iff] at h
  obtain ⟨-, h⟩ | ⟨href, h⟩ := h
  · cases h
  cases hright : look.right with
  | none => rw [hright] at h; cases h
  | some right =>
    simp only [hright] at h
    split_ifs at h with hstrike
    cases hsignal : look.signalFor floatRepr (look.contract right hstrike) with
    | error e => rw [hsignal] at h; cases h
    | ok sig' =>
      rw [hsignal] at h
      cases h
      exact ⟨right, hstrike, rfl, href, hsignal⟩

/-- What a signal for a contract holds. -/
theorem signalFor_eq {floatRepr : Price → String} {look : Look} {contract : OptionContract}
    {sig : BreakoutSignal} (h : look.signalFor floatRepr contract = .ok sig) :
    ∃ mid, sig.optionMidAtSignal = mid ∧ sig.signal.limitPrice = emaLimit mid
      ∧ (∀ p ∈ emaLimit mid, 0 < p) ∧ sig.signal.contract = contract
      ∧ sig.signal.requestedQuantity = look.cfg.emaQuantity mid look.netLiquidation
      ∧ sig.referencePrice = look.ref ∧ sig.underlyingPriceAtEntry = look.source.price := by
  unfold Look.signalFor at h
  dsimp only at h
  split_ifs at h with hlimit
  cases h
  exact ⟨_, rfl, rfl, hlimit, rfl, rfl, rfl, rfl⟩

/-- What is found is a call far enough above, or a put far enough below. -/
theorem breakoutRight_eq_some {price ref triggerPct : ℚ} {right : OptionRight}
    (h : breakoutRight price ref triggerPct = some right) :
    right = .call ∧ triggerPct ≤ (price - ref) / ref
      ∨ right = .put ∧ (price - ref) / ref ≤ -triggerPct := by
  unfold breakoutRight at h
  split_ifs at h with hup hdown
  · exact .inl ⟨(Option.some.inj h).symm, hup⟩
  · exact .inr ⟨(Option.some.inj h).symm, hdown⟩

/-! ## The bars that are read -/

/-- The length of the queues stays. -/
theorem maxCompleted_step {nyMinute : Time → ℤ} {feed feed' : BarFeed} {l : BarFeed.Label}
    (h : feed.step nyMinute l = some feed') :
    feed'.builder.maxCompleted = feed.builder.maxCompleted := by
  cases l with
  | tick symbol price ts =>
    obtain rfl := Option.some.inj h
    simp only [BarBuilder.onTick]
    split
    · rfl
    · split_ifs
      · rfl
      · split
        · rfl
        · split_ifs <;> rfl
  | latest symbol now | recent symbol count now =>
    obtain rfl := Option.some.inj h
    simp only [BarBuilder.getLatestCompletedBar, BarBuilder.getCompletedBars,
      BarBuilder.maybeRollStaleWorking]
    split
    · rfl
    · split_ifs <;> rfl

/-- The queues hold the last of the bars completed, and at least one. -/
structure RetainsLast (r : BarRecorder) : Prop where
  retains : r.feed.Retains
  capacity : 0 < r.feed.builder.maxCompleted

theorem retainsLast_initial {maxCompleted : ℕ} (h : 0 < maxCompleted) :
    RetainsLast (.initial maxCompleted) where
  retains _ := List.drop_nil.symm
  capacity := h

theorem RetainsLast.step {r r' : BarRecorder} {l : BarRecorder.Label} (hr : RetainsLast r)
    (h : r.step py zone l = some r') : RetainsLast r' := by
  have hfeed := BarRecorder.feed_step h
  refine ⟨hr.retains.step hfeed, ?_⟩
  rw [maxCompleted_step hfeed]
  exact hr.capacity

theorem RetainsLast.reads {r r' : BarRecorder} {p : BreakoutPoll} (hr : RetainsLast r)
    (h : ReadsOnce py zone p r r') : RetainsLast r' := by
  rcases h with rfl | ⟨now, h⟩
  · exact hr
  · exact hr.step h

/-- The last bar of a queue is the last bar completed. -/
theorem RetainsLast.getLast?_eq {r : BarRecorder} (hr : RetainsLast r) (symbol : String) :
    (r.feed.builder.completed symbol).getLast?
      = (r.feed.builder.persisted symbol).getLast? := by
  rw [hr.retains symbol]
  exact BarFeed.getLast?_keepLast hr.capacity _

theorem retainsLast_step {l : Label} (hs : RetainsLast s.recorder)
    (h : s.step py zone variant l = some t) : RetainsLast t.recorder := by
  cases l with
  | bars l =>
    obtain ⟨recorder, hstep, rfl⟩ := Option.map_eq_some_iff.mp h
    exact hs.step hstep
  | poll p =>
    obtain rfl := Option.some.inj h
    cases polls py zone variant s p with
    | stops recorder hreads hstate _ => rw [hstate]; exact hs.reads hreads
    | looks recorder hreads _ _ _ _ _ _ _ _ _ hstate _ => rw [hstate]; exact hs.reads hreads

/-- A price is the close of the bar that was read, or that of the quote. -/
theorem priceSource_eq_some {bar : Option OhlcBar} {quote : StrategyQuote} {source : PriceSource}
    (h : priceSource bar quote = some source) :
    (∃ b, bar = some b ∧ source = .barClose b)
      ∨ bar = none ∧ quote.underlyingPrice = some source.price ∧ source = .quote source.price := by
  cases bar with
  | some b => exact .inl ⟨b, rfl, (Option.some.inj h).symm⟩
  | none =>
    obtain ⟨price, hprice, rfl⟩ := Option.map_eq_some_iff.mp h
    exact .inr ⟨rfl, hprice, rfl⟩

/-- **Every signal is sound.** In every run – ticks, reads and polls in any
order, with any configurations, positions and answers of the broker – a poll
signals only once its scan has begun and while the strategy has no position of
the date or may enter again, on a move of the last close from the one reference
of the date, for the contract at the money, in a size that is one or paid for. -/
theorem signals_sound (py : Builtins) (zone : NyZone) (variant : BreakoutVariant)
    {maxCompleted : ℕ} (hmax : 0 < maxCompleted) (mock : Option Price) (ls : List Label) :
    (machine py zone variant).Along (fun s l t => ∀ p sig, l = .poll p →
      (s.poll py zone variant p).2 = .ok (some sig) → SignalSound py zone variant mock p t sig)
      (initial maxCompleted mock) ls := by
  refine Machine.along_of_step' (J := fun s => s.LooksOnce
    ∧ s.provider.mockReferencePrice = mock ∧ RetainsLast s.recorder) ?_ ?_
    ⟨looksOnce_initial maxCompleted mock, rfl, retainsLast_initial hmax⟩
  · rintro s l t ⟨hlooks, hmock, hretains⟩ h
    exact ⟨hlooks.step h, (mock_step hlooks h).trans hmock, retainsLast_step hretains h⟩
  rintro s _ t ⟨hlooks, hmock, hretains⟩ h p sig rfl hsig
  have hstep : s.step py zone variant (.poll p) = some t := h
  have hlooks' := hlooks.step hstep
  have hmock' := (mock_step hlooks hstep).trans hmock
  obtain rfl := Option.some.inj hstep
  cases polls py zone variant s p with
  | stops _ _ _ hresult => exact absurd hsig (hresult sig)
  | looks recorder hreads params ref hgates quote hquote bar hbar source hsource hstate hresult =>
    obtain ⟨hparams, hvalid, hscan, hblocked, -⟩ :=
      XSPBreakoutStrategyProvider.gates_eq_some hgates
    rw [hresult] at hsig
    obtain ⟨right, hstrike, hright, -, hsignal⟩ := outcome_eq_some hsig
    obtain ⟨mid, hmid, hlimit, hlimitPos, hcontract, hquantity, href, hprice⟩ :=
      signalFor_eq hsignal
    obtain ⟨hquantityLe, hpaid⟩ := emaQuantity_spec p.cfg.toSizingConfig mid p.netLiquidation
    have hretains' := hretains.reads hreads
    have hkept := hlooks'.kept (p.look zone ref params.triggerPct source) (by rw [hstate]; simp)
    exact
      { moved := by
          refine ⟨params, hparams, hvalid, hscan, ?_⟩
          rw [hcontract, hprice, href]
          exact breakoutRight_eq_some hright
        first := by
          intro hreentry pos hpos hstrategy hdate
          have hblocked' : s.provider.blocked zone p
              (NyZone.date (zone.minute p.currentTime)) = true := by
            have hany : ((p.positions.getD []).any fun pos => pos.strategyId = p.cfg.strategyId
                && NyZone.date (zone.minute pos.enteredAt)
                  = NyZone.date (zone.minute p.currentTime)) = true :=
              List.any_eq_true.mpr ⟨pos, hpos, by simp [hstrategy, hdate]⟩
            rw [XSPBreakoutStrategyProvider.blocked, hreentry, hany]
            simp
          cases hblocked.symm.trans hblocked'
        priced := by
          rw [hstate, hprice]
          rcases priceSource_eq_some hsource with ⟨b, rfl, rfl⟩ | ⟨-, hquoted, -⟩
          · exact .inl ⟨b, hretains'.getLast?_eq "XSP" ▸ hbar b rfl, rfl⟩
          · exact .inr ⟨quote, hquote, hquoted⟩
        reference := by
          rw [href]
          rcases hlooks'.fetches.kept _ _ hkept with hmocked | hfetched
          · exact .inl (hmock'.symm.trans hmocked)
          · exact .inr hfetched
        strike := by
          rw [hcontract, hprice]
          exact abs_roundHalfEven_sub_le _
        expiry := by rw [hcontract]; rfl
        quantity_le := hquantity ▸ hquantityLe
        paid := by
          rw [hquantity, hmid]
          exact hpaid
        limit := by
          intro limit hlim
          rw [hlimit] at hlim
          refine ⟨hlimitPos limit hlim, ?_⟩
          obtain ⟨m, hm, rfl⟩ := Option.map_eq_some_iff.mp hlim
          exact ⟨m, hmid.trans (Option.filter_eq_some_iff.mp hm).1, abs_roundToCents_sub_le m⟩ }

theorem signals_sound_sampleSession :
    (machine BarRecorder.twoPrices BarRecorder.winterClock xspBreakout).Along
      (fun s l t => ∀ p sig, l = .poll p →
        (s.poll BarRecorder.twoPrices BarRecorder.winterClock xspBreakout p).2 = .ok (some sig) →
          SignalSound BarRecorder.twoPrices BarRecorder.winterClock xspBreakout none p t sig)
      (initial 480 none) sampleSession :=
  signals_sound BarRecorder.twoPrices BarRecorder.winterClock xspBreakout (by decide) none
    sampleSession

end BreakoutSession
