import ExecutionSystem.ExecutionQuality
import ExecutionSystem.InsertionDict
import ExecutionSystem.StableSort

/-!
# The analytics and the clocks of the log

The event store stamps with an aware time, in UTC. Where the time of an event
is missing or cannot be read, `normalize_events` takes `datetime.now()`
instead, which is naive; so does the search for the price at arrival, for an
order whose submission is not in the list. An aware time and a naive one
cannot be compared, and a comparison of the two raises.

So a list is analysed exactly where no two such times meet (`Analysable`):
its events all have a time that can be read, or none has; and where they
have, an order that was filled without a submission has no quotes to look for
its price in. This is the whole of `compute_execution_quality`, with slippage
and times; what it counts is in `ExecutionQuality`.

A payload has the types that the writers of the log give it. An event whose
data are no dictionary is skipped, as one with an empty payload is.
-/

/-! ## Times -/

/-- A `datetime`: aware, as an instant, or naive. -/
structure Stamp where
  aware : Bool
  time : Time
  deriving DecidableEq

namespace Stamp

/-- `a < b`; `none` where it raises. -/
def lt? (a b : Stamp) : Option Bool :=
  if a.aware = b.aware then some (a.time < b.time) else none

/-- `a <= b`; `none` where it raises. -/
def le? (a b : Stamp) : Option Bool :=
  if a.aware = b.aware then some (a.time ≤ b.time) else none

/-- `(a - b).total_seconds()`; `none` where it raises. -/
def sub? (a b : Stamp) : Option Time := if a.aware = b.aware then some (a.time - b.time) else none

/-- What `datetime.now()` returns: a naive time. -/
def naive (now : Time) : Stamp := ⟨false, now⟩

end Stamp

/-! ## Events as they come -/

/-- The two sides of a quote in a payload. -/
structure QuoteSides where
  bid : Option Price := none
  ask : Option Price := none

/-- **The payload of an event**, with the quotes that are in signals and
snapshots. -/
structure EventPayload extends EventData where
  symbol : Option String := none
  bid : Option Price := none
  ask : Option Price := none
  quote : Option QuoteSides := none
  underlyingQuote : Option QuoteSides := none

/-- The value of `timestamp` in a raw dictionary. -/
inductive RawTimestamp where
  /-- There is none, or it is neither a text nor a `datetime`. -/
  | missing
  | text (s : String)
  | datetime (t : Stamp)

/-- **An event as it comes**: a record of the repository, a raw dictionary, or
something else, which is left out. The payload of a dictionary is `none` where
its data are no dictionary. -/
inductive RawEvent where
  | record (eventType timestamp : String) (strategyId : Option StrategyId)
      (payload : EventPayload)
  | dict (type : Option String) (timestamp : RawTimestamp) (strategyId : Option StrategyId)
      (data : Option EventPayload)
  | other

/-- An event of `normalize_events`. -/
structure NormalizedEvent where
  type : String
  timestamp : Stamp
  strategyId : Option StrategyId
  data : Option EventPayload

section Normalize

variable (fromIso : String → Option Stamp)

/-- The time that is read from a timestamp, where one is. -/
def RawTimestamp.wellFormed : RawTimestamp → Option Stamp
  | missing => none
  | text s => fromIso s
  | datetime t => some t

namespace RawEvent

/-- The timestamp of an event that is kept. -/
def timestamp : RawEvent → Option RawTimestamp
  | record _ timestamp _ _ => some (.text timestamp)
  | dict _ timestamp _ _ => some timestamp
  | other => none

/-- One event in the loop of `normalize_events`. -/
def normalize (now : Time) : RawEvent → Option NormalizedEvent
  | record eventType timestamp strategyId payload =>
    some
      { type := eventType
        timestamp := ((RawTimestamp.text timestamp).wellFormed fromIso).getD (.naive now)
        strategyId := strategyId
        data := some payload }
  | dict type timestamp strategyId data =>
    some
      { type := (type.filter (· ≠ "")).getD "unknown"
        timestamp := (timestamp.wellFormed fromIso).getD (.naive now)
        strategyId := (strategyId.filter (· ≠ "")).or (data.bind fun payload => payload.strategyId)
        data := data }
  | other => none

end RawEvent

/-- `normalized`, before it is sorted. The clock is read anew for each
event. -/
def normalizeAll (now : ℕ → Time) (events : List RawEvent) : List NormalizedEvent :=
  events.zipIdx.filterMap fun e => e.1.normalize fromIso (now e.2)

/-- **`normalize_events`**; `none` where the sort raises. -/
def normalizeEvents? (now : ℕ → Time) (events : List RawEvent) : Option (List NormalizedEvent) :=
  (normalizeAll fromIso now events).sortBy? fun a b => a.timestamp.lt? b.timestamp

end Normalize

/-! ## What an event tells of -/

namespace NormalizedEvent

variable (floatRepr : Price → String)

/-- The payload; data that are no dictionary are skipped. -/
def payload (e : NormalizedEvent) : EventPayload := e.data.getD {}

/-- The event, as far as orders are counted and fills matched by it. -/
def logged (e : NormalizedEvent) : LoggedEvent where
  type := e.type
  timestamp := e.timestamp.time
  data := e.payload.toEventData

/-- The middle of two sides. -/
def mid? (bid ask : Option Price) : Option Price :=
  match bid, ask with
  | some bid, some ask => some ((bid + ask) / 2)
  | _, _ => none

/-- The middle price that an event adds to the history of a key: that of a
signal to its contract, that of a snapshot to its symbol. -/
def quoted (e : NormalizedEvent) : Option (String × Stamp × Price) :=
  if e.type = "signal" then
    match e.payload.contract, e.payload.quote.or e.payload.underlyingQuote with
    | some contract, some sides => (mid? sides.bid sides.ask).map fun mid =>
      (contractKey floatRepr (some contract), e.timestamp, mid)
    | _, _ => none
  else if e.type = "quote_snapshot" then
    (e.payload.symbol.filter (· ≠ "")).bind fun symbol =>
      (mid? e.payload.bid e.payload.ask).map fun mid => (symbol, e.timestamp, mid)
  else none

/-- An order with its time, where the status is one of those given. -/
def reached (statuses : List String) (e : NormalizedEvent) : Option (LoggedOrderId × Stamp) :=
  (e.logged.orderStatus.filter fun entry => entry.2 ∈ statuses).map fun entry =>
    (entry.1, e.timestamp)

/-- The submission that an event may be. -/
def submission : NormalizedEvent → Option (LoggedOrderId × Stamp) := reached ["NEW", "SUBMITTED"]

/-- The completion that an event may be. -/
def completion : NormalizedEvent → Option (LoggedOrderId × Stamp) :=
  reached ["FILLED", "CANCELLED", "REJECTED", "ERROR"]

/-- A field of the payload, for the order of an event of one of the types. -/
def fieldOf {α : Type} (types : List String) (field : EventPayload → Option α)
    (e : NormalizedEvent) : Option (LoggedOrderId × α) :=
  if e.type ∈ types then e.payload.orderRef.bind fun id => (field e.payload).map fun v => (id, v)
  else none

/-- The price and the quantity that a fill adds to its order. -/
def fill (e : NormalizedEvent) : Option (LoggedOrderId × Price × ℕ) :=
  fieldOf LoggedEvent.fillTypes (fun payload =>
    match payload.tradePrice, payload.tradeQuantity with
    | some price, some quantity => some (price, quantity)
    | _, _ => none) e

/-- The side in a payload: whatever is not `BUY` sells. -/
def sideOf (payload : EventPayload) : Option OrderSide :=
  payload.side.map fun side => if side.toUpper = "BUY" then .buy else .sell

end NormalizedEvent

/-! ## The dictionaries of the first loop -/

section Dictionaries

variable (floatRepr : Price → String) (events : List NormalizedEvent)

/-- A dictionary that order events overwrite, and fills only complete. -/
def orderField {α : Type} (field : EventPayload → Option α) : InsertionDict LoggedOrderId α :=
  InsertionDict.empty.recordAll (NormalizedEvent.fieldOf LoggedEvent.orderTypes field)
    (NormalizedEvent.fieldOf LoggedEvent.fillTypes field) events

/-- `order_submissions`. -/
def orderSubmissions : InsertionDict LoggedOrderId Stamp :=
  InsertionDict.empty.recordAll (fun _ => none) NormalizedEvent.submission events

/-- `order_completions`. -/
def orderCompletions : InsertionDict LoggedOrderId Stamp :=
  InsertionDict.empty.recordAll (fun _ => none) NormalizedEvent.completion events

/-- `order_statuses`. -/
def orderStatusTexts : InsertionDict LoggedOrderId String :=
  InsertionDict.empty.assignAll (fun e : NormalizedEvent => e.logged.orderStatus) events

/-- `order_sides`. -/
def orderSides : InsertionDict LoggedOrderId OrderSide :=
  orderField events NormalizedEvent.sideOf

/-- `order_contracts`. -/
def orderContracts : InsertionDict LoggedOrderId OptionContract :=
  orderField events fun payload => payload.contract

/-- `order_strategies`. -/
def orderStrategies : InsertionDict LoggedOrderId StrategyId :=
  orderField events fun payload => payload.strategyId

/-- `order_fills`. -/
def orderFills : InsertionDict LoggedOrderId (List (Price × ℕ)) :=
  InsertionDict.empty.collectAll NormalizedEvent.fill events

/-- `quote_history`. -/
def quoteHistory : InsertionDict String (List (Stamp × Price)) :=
  InsertionDict.empty.collectAll (NormalizedEvent.quoted floatRepr) events

end Dictionaries

/-! ## Slippage and times -/

section Report

variable (floatRepr : Price → String)

/-- `contract_key` of the search; a contract that is not known is an empty
dictionary. -/
def arrivalKey : Option OptionContract → String
  | some contract => contractKey floatRepr (some contract)
  | none => "None_None_0.0_None"

/-- The last price up to the target, in a history in the order of its times;
`none` where a comparison raises. -/
def priceUpTo (target : Stamp) : Option Price → List (Stamp × Price) → Option (Option Price)
  | best, [] => some best
  | best, (t, mid) :: rest => (t.le? target).bind fun le =>
    if le then priceUpTo target (some mid) rest else some best

/-- The search for the price at arrival, under one key after the other.
`targetTs` is the time of the submission, or what the clock says. -/
def arrivalMid (history : InsertionDict String (List (Stamp × Price)))
    (targetTs : String → Stamp) : List String → Option (Option Price)
  | [] => some none
  | key :: keys =>
    match history.get? key with
    | none => arrivalMid history targetTs keys
    | some quotes => (priceUpTo (targetTs key) none quotes).bind fun best =>
      match best with
      | some mid => some (some mid)
      | none => arrivalMid history targetTs keys

/-- The sums over all fills. -/
structure SlippageTotals where
  totalSlippageCost : ℚ := 0
  slippageSum : ℚ := 0
  slippageCounts : ℕ := 0
  strategyCost : InsertionDict StrategyId ℚ := .empty
  underlyingCost : InsertionDict String ℚ := .empty

/-- A fill of an order with a known price at arrival. -/
def SlippageTotals.add (side : OrderSide) (strategy : StrategyId) (symbol : String) (mid : Price)
    (t : SlippageTotals) (fill : Price × ℕ) : SlippageTotals :=
  let sign : ℚ := match side with
    | .buy => 1
    | .sell => -1
  let slippage := (fill.1 - mid) * sign
  let cost := slippage * fill.2
  { totalSlippageCost := t.totalSlippageCost + cost
    slippageSum := t.slippageSum + slippage
    slippageCounts := t.slippageCounts + 1
    strategyCost := t.strategyCost.set strategy ((t.strategyCost.get? strategy).getD 0 + cost)
    underlyingCost := t.underlyingCost.set symbol ((t.underlyingCost.get? symbol).getD 0 + cost) }

variable (now : LoggedOrderId → String → Time) (events : List NormalizedEvent)

/-- The price at arrival of an order. -/
def orderArrival (id : LoggedOrderId) : Option (Option Price) :=
  let contract := (orderContracts events).get? id
  arrivalMid (quoteHistory floatRepr events)
    (fun key => ((orderSubmissions events).get? id).getD (.naive (now id key)))
    [arrivalKey floatRepr contract, contractSymbol contract]

/-- One order in the loop over `order_fills`. -/
def addOrder (t : SlippageTotals) (order : LoggedOrderId × List (Price × ℕ)) :
    Option SlippageTotals :=
  (orderArrival floatRepr now events order.1).map fun mid =>
    match mid with
    | none => t
    | some mid =>
      order.2.foldl (SlippageTotals.add (((orderSides events).get? order.1).getD .buy)
        (((orderStrategies events).get? order.1).getD "unknown")
        (contractSymbol ((orderContracts events).get? order.1)) mid) t

/-- The time from submission to completion, of an order that is filled and
has both. -/
def timeToFill (order : LoggedOrderId × Stamp) : Option (Option Time) :=
  if (orderStatusTexts events).get? order.1 = some "FILLED" then
    match (orderSubmissions events).get? order.1 with
    | some sub => (order.2.sub? sub).map some
    | none => some none
  else some none

/-- **What `compute_execution_quality` returns.** -/
structure ExecutionQualityReport extends ExecutionQuality where
  totalSlippageCost : ℚ
  avgSlippage : ℚ
  avgTimeToFillSeconds : ℚ
  executionCostByStrategy : InsertionDict StrategyId ℚ
  executionCostByUnderlying : InsertionDict String ℚ

/-- **`compute_execution_quality`**; `none` where it raises. -/
def computeExecutionQuality? : Option ExecutionQualityReport :=
  ((orderFills events).entries.foldlM (addOrder floatRepr now events) {}).bind fun totals =>
    ((orderCompletions events).entries.mapM (timeToFill events)).map fun times =>
      let timeToFills := times.reduceOption
      { toExecutionQuality := computeExecutionQuality (events.map (·.logged))
        totalSlippageCost := totals.totalSlippageCost
        avgSlippage :=
          if 0 < totals.slippageCounts then totals.slippageSum / totals.slippageCounts else 0
        avgTimeToFillSeconds :=
          if timeToFills = [] then 0 else timeToFills.sum / timeToFills.length
        executionCostByStrategy := totals.strategyCost
        executionCostByUnderlying := totals.underlyingCost }

/-- What the panel computes from the events of the log. -/
structure Analytics where
  normalized : List NormalizedEvent
  metrics : ExecutionQualityReport
  realizedPnl : StrategyId → String → ℚ

/-- **The analytics of a log**: `normalize_events`, and with its events
`compute_execution_quality` and `compute_realized_pnl`; `none` where one of
them raises. `clock` is read for the events, `now` in the search. -/
def analyse? (fromIso : String → Option Stamp) (clock : ℕ → Time) (events : List RawEvent) :
    Option Analytics :=
  (normalizeEvents? fromIso clock events).bind fun normalized =>
    (computeExecutionQuality? floatRepr now normalized).map fun metrics =>
      { normalized := normalized
        metrics := metrics
        realizedPnl := computeRealizedPnl floatRepr (normalized.map (·.logged)) }

end Report

/-! ## Where times of two kinds meet -/

theorem Stamp.isSome_le?_iff {a b : Stamp} : (a.le? b).isSome ↔ a.aware = b.aware := by
  unfold le?
  split_ifs with h
  · exact iff_of_true rfl h
  · exact iff_of_false Bool.false_ne_true h

theorem Stamp.isSome_sub?_iff {a b : Stamp} : (a.sub? b).isSome ↔ a.aware = b.aware := by
  unfold sub?
  split_ifs with h
  · exact iff_of_true rfl h
  · exact iff_of_false Bool.false_ne_true h

/-- A search among times of its own kind returns. -/
theorem isSome_priceUpTo {target : Stamp} (best : Option Price) {quotes : List (Stamp × Price)}
    (h : ∀ q ∈ quotes, q.1.aware = target.aware) : (priceUpTo target best quotes).isSome := by
  induction quotes generalizing best with
  | nil => rfl
  | cons q quotes ih =>
    obtain ⟨le, hle⟩ := Option.isSome_iff_exists.mp
      (Stamp.isSome_le?_iff.mpr (h q List.mem_cons_self))
    rw [priceUpTo, hle, Option.bind_some]
    cases le with
    | false => rfl
    | true => exact ih _ fun q' hq' => h q' (List.mem_cons_of_mem q hq')

/-- The first time of the other kind ends the search. -/
theorem priceUpTo_eq_none {target : Stamp} {best : Option Price} {q : Stamp × Price}
    {quotes : List (Stamp × Price)} (h : q.1.aware ≠ target.aware) :
    priceUpTo target best (q :: quotes) = none := by
  have hle : q.1.le? target = none := if_neg h
  rw [priceUpTo, hle, Option.bind_none]

section ArrivalMid

variable {history : InsertionDict String (List (Stamp × Price))} {targetTs : String → Stamp}
  {keys : List String}

theorem isSome_arrivalMid (h : ∀ key quotes, history.get? key = some quotes →
    ∀ q ∈ quotes, q.1.aware = (targetTs key).aware) :
    (arrivalMid history targetTs keys).isSome := by
  induction keys with
  | nil => rfl
  | cons key keys ih =>
    rw [arrivalMid]
    cases hquotes : history.get? key with
    | none => exact ih
    | some quotes =>
      obtain ⟨best, hbest⟩ := Option.isSome_iff_exists.mp
        (isSome_priceUpTo none (h key quotes hquotes))
      show ((priceUpTo (targetTs key) none quotes).bind _).isSome
      rw [hbest, Option.bind_some]
      cases best with
      | none => exact ih
      | some mid => rfl

/-- **The search for the price at arrival**, at a time of the other kind, ends
at the first key that has quotes. -/
theorem isSome_arrivalMid_iff (h : ∀ key quotes, history.get? key = some quotes →
    ∃ q rest, quotes = q :: rest ∧ q.1.aware ≠ (targetTs key).aware) :
    (arrivalMid history targetTs keys).isSome ↔ ∀ key ∈ keys, key ∉ history.keys := by
  induction keys with
  | nil => simp [arrivalMid]
  | cons key keys ih =>
    rw [arrivalMid, List.forall_mem_cons, ← InsertionDict.get?_eq_none_iff]
    cases hquotes : history.get? key with
    | none => simpa using ih
    | some quotes =>
      obtain ⟨q, rest, rfl, hne⟩ := h key quotes hquotes
      show ((priceUpTo (targetTs key) none (q :: rest)).bind _).isSome ↔ _
      rw [priceUpTo_eq_none hne]
      simp

end ArrivalMid

/-! ## What the dictionaries hold -/

namespace NormalizedEvent

variable {floatRepr : Price → String} {e : NormalizedEvent}

theorem quoted_stamp {key : String} {t : Stamp} {mid : Price}
    (h : e.quoted floatRepr = some (key, t, mid)) : t = e.timestamp := by
  unfold quoted at h
  split_ifs at h
  · split at h
    · obtain ⟨m, -, hm⟩ := Option.map_eq_some_iff.mp h
      cases hm
      rfl
    · cases h
  · obtain ⟨symbol, -, hsymbol⟩ := Option.bind_eq_some_iff.mp h
    obtain ⟨m, -, hm⟩ := Option.map_eq_some_iff.mp hsymbol
    cases hm
    rfl

theorem reached_stamp {statuses : List String} {id : LoggedOrderId} {t : Stamp}
    (h : e.reached statuses = some (id, t)) : t = e.timestamp := by
  obtain ⟨entry, -, hentry⟩ := Option.map_eq_some_iff.mp h
  cases hentry
  rfl

end NormalizedEvent

/-- The events in the order of their times. -/
def inTimeOrder (events : List NormalizedEvent) : List NormalizedEvent :=
  events.insertionSort fun a b => a.timestamp.time ≤ b.timestamp.time

theorem mem_inTimeOrder {events : List NormalizedEvent} {e : NormalizedEvent} :
    e ∈ inTimeOrder events ↔ e ∈ events := List.mem_insertionSort _

/-- **The contract of an order**: that of its latest order event that has one,
or else of its earliest fill that has one. -/
def contractOf (events : List NormalizedEvent) (id : LoggedOrderId) : Option OptionContract :=
  let contracts := fun types => InsertionDict.assigned
    (NormalizedEvent.fieldOf types fun payload => payload.contract) id
  (events.latest? (·.timestamp.time) (contracts LoggedEvent.orderTypes)).or
    (events.earliest? (·.timestamp.time) (contracts LoggedEvent.fillTypes))

section Dictionaries

variable {floatRepr : Price → String} {events : List NormalizedEvent} {id : LoggedOrderId}

theorem get?_orderContracts_inTimeOrder :
    (orderContracts (inTimeOrder events)).get? id = contractOf events id := by
  show (InsertionDict.recordAll ..).get? id = _
  rw [InsertionDict.get?_recordAll, inTimeOrder, List.findSome?_reverse_insertionSort,
    List.findSome?_insertionSort, InsertionDict.get?_empty, Option.none_or]
  rfl

/-- What is kept of the orders that have reached a status has the time of an
event. -/
theorem exists_of_get?_reached {statuses : List String} {t : Stamp}
    (h : (InsertionDict.empty.recordAll (fun _ => none) (NormalizedEvent.reached statuses)
      events).get? id = some t) : ∃ e ∈ events, t = e.timestamp := by
  rw [InsertionDict.get?_recordAll_none] at h
  obtain ⟨e, he, ht⟩ := List.exists_of_findSome?_eq_some h
  exact ⟨e, he, NormalizedEvent.reached_stamp (InsertionDict.assigned_eq_some_iff.mp ht)⟩

theorem get?_orderSubmissions_eq_none_iff :
    (orderSubmissions events).get? id = none
      ↔ ∀ e ∈ events, ∀ t, e.submission ≠ some (id, t) := by
  rw [orderSubmissions, InsertionDict.get?_recordAll_none, List.findSome?_eq_none_iff]
  exact forall₂_congr fun e _ => InsertionDict.assigned_eq_none_iff

theorem mem_keys_orderFills :
    id ∈ (orderFills events).keys ↔ ∃ e ∈ events, ∃ f, e.fill = some (id, f) := by
  simp [orderFills, InsertionDict.mem_keys_collectAll]

theorem mem_keys_quoteHistory {key : String} : key ∈ (quoteHistory floatRepr events).keys
    ↔ ∃ e ∈ events, ∃ q, e.quoted floatRepr = some (key, q) := by
  simp [quoteHistory, InsertionDict.mem_keys_collectAll]

/-- The times of the quotes are those of events. -/
theorem exists_of_get?_quoteHistory {key : String} {quotes : List (Stamp × Price)}
    (h : (quoteHistory floatRepr events).get? key = some quotes) :
    ∀ q ∈ quotes, ∃ e ∈ events, q.1 = e.timestamp := by
  rw [InsertionDict.get?_collectAll_eq_some h]
  intro q hq
  obtain ⟨e, he, hassigned⟩ := List.mem_filterMap.mp hq
  exact ⟨e, he, NormalizedEvent.quoted_stamp (InsertionDict.assigned_eq_some_iff.mp hassigned)⟩

/-- A key that is there has a quote. -/
theorem ne_nil_of_get?_quoteHistory {key : String} {quotes : List (Stamp × Price)}
    (h : (quoteHistory floatRepr events).get? key = some quotes) : quotes ≠ [] := by
  obtain ⟨e, he, q, hq⟩ := mem_keys_quoteHistory.mp
    (InsertionDict.isSome_get?.mp (Option.isSome_iff_exists.mpr ⟨quotes, h⟩))
  rw [InsertionDict.get?_collectAll_eq_some h]
  exact List.ne_nil_of_mem (List.mem_filterMap.mpr
    ⟨e, he, InsertionDict.assigned_eq_some_iff.mpr hq⟩)

end Dictionaries

/-! ## Events with times of one kind -/

/-- **The arrivals can be told**: for an order that was filled without a
submission among the events, none of the keys that are searched has a
quote. -/
def ArrivalsTold (floatRepr : Price → String) (events : List NormalizedEvent) : Prop :=
  ∀ e ∈ events, ∀ id f, e.fill = some (id, f) →
    (∀ s ∈ events, ∀ t, s.submission ≠ some (id, t)) →
    ∀ q ∈ events, ∀ key quote, q.quoted floatRepr = some (key, quote) →
      key ∉ [arrivalKey floatRepr (contractOf events id), contractSymbol (contractOf events id)]

section OneKind

variable {floatRepr : Price → String} {now : LoggedOrderId → String → Time}
  {events : List NormalizedEvent} {aware : Bool}

theorem isSome_timeToFill (hkind : ∀ e ∈ events, e.timestamp.aware = aware)
    {order : LoggedOrderId × Stamp} (h : order ∈ (orderCompletions events).entries) :
    (timeToFill events order).isSome := by
  unfold timeToFill
  split_ifs
  · cases hsub : (orderSubmissions events).get? order.1 with
    | none => rfl
    | some sub =>
      obtain ⟨e, he, hcomp⟩ := exists_of_get?_reached (InsertionDict.get?_eq_some_iff.mpr h)
      obtain ⟨s, hs, rfl⟩ := exists_of_get?_reached hsub
      rw [Option.isSome_map, Stamp.isSome_sub?_iff, hcomp, hkind e he, hkind s hs]
  · rfl

/-- Quotes and a target of one kind: the price at arrival is looked up. -/
theorem isSome_orderArrival_of_kind (hkind : ∀ e ∈ events, e.timestamp.aware = aware)
    {id : LoggedOrderId} (htarget : ∀ key,
      (((orderSubmissions events).get? id).getD (.naive (now id key))).aware = aware) :
    (orderArrival floatRepr now events id).isSome :=
  isSome_arrivalMid fun key quotes hquotes q hq => by
    obtain ⟨e, he, hstamp⟩ := exists_of_get?_quoteHistory hquotes q hq
    rw [hstamp, hkind e he, htarget]

/-- **The price at arrival, where the events have aware times**: it is looked
up unless the order has no submission and there are quotes to look in. -/
theorem isSome_orderArrival_iff (hkind : ∀ e ∈ events, e.timestamp.aware = true)
    {id : LoggedOrderId} :
    (orderArrival floatRepr now events id).isSome
      ↔ ((∀ s ∈ events, ∀ t, s.submission ≠ some (id, t)) →
        ∀ q ∈ events, ∀ key quote, q.quoted floatRepr = some (key, quote) →
          key ∉ [arrivalKey floatRepr ((orderContracts events).get? id),
            contractSymbol ((orderContracts events).get? id)]) := by
  rw [← get?_orderSubmissions_eq_none_iff]
  cases hsub : (orderSubmissions events).get? id with
  | some t =>
    refine iff_of_true (isSome_orderArrival_of_kind hkind fun key => ?_) fun h => by cases h
    obtain ⟨s, hs, rfl⟩ := exists_of_get?_reached hsub
    rw [hsub]
    exact hkind s hs
  | none =>
    simp only [forall_const]
    unfold orderArrival
    rw [isSome_arrivalMid_iff]
    · simp only [mem_keys_quoteHistory]
      constructor
      · exact fun h q hq key quote hquote hmem => h key hmem ⟨q, hq, quote, hquote⟩
      · rintro h key hmem ⟨q, hq, quote, hquote⟩
        exact h q hq key quote hquote hmem
    · intro key quotes hquotes
      obtain ⟨q, rest, rfl⟩ := List.exists_cons_of_ne_nil (ne_nil_of_get?_quoteHistory hquotes)
      obtain ⟨e, he, hstamp⟩ := exists_of_get?_quoteHistory hquotes q List.mem_cons_self
      refine ⟨q, rest, rfl, ?_⟩
      rw [hstamp, hkind e he, hsub]
      exact Bool.noConfusion

/-- **The report is made** where the price at arrival of each filled order is
looked up. -/
theorem isSome_computeExecutionQuality?_iff (hkind : ∀ e ∈ events, e.timestamp.aware = aware) :
    (computeExecutionQuality? floatRepr now events).isSome
      ↔ ∀ id ∈ (orderFills events).keys, (orderArrival floatRepr now events id).isSome := by
  obtain ⟨times, htimes⟩ := Option.isSome_iff_exists.mp
    (List.isSome_mapM.mpr fun order horder => isSome_timeToFill hkind horder)
  have hstep : ∀ t order, (addOrder floatRepr now events t order).isSome
      ↔ (orderArrival floatRepr now events order.1).isSome := fun t order => by
    rw [addOrder, Option.isSome_map]
  have hkeys : (∀ id ∈ (orderFills events).keys, (orderArrival floatRepr now events id).isSome)
      ↔ ((orderFills events).entries.foldlM (addOrder floatRepr now events) {}).isSome := by
    rw [List.isSome_foldlM hstep]
    exact List.forall_mem_map
  unfold computeExecutionQuality?
  rw [hkeys, htimes]
  cases (orderFills events).entries.foldlM (addOrder floatRepr now events) {} with
  | none => rfl
  | some totals => rfl

/-- Sorting changes neither what is filled, submitted and quoted, nor which
contract an order has. -/
theorem isSome_orderArrival_inTimeOrder_iff (hkind : ∀ e ∈ events, e.timestamp.aware = true) :
    (∀ id ∈ (orderFills (inTimeOrder events)).keys,
        (orderArrival floatRepr now (inTimeOrder events) id).isSome)
      ↔ ArrivalsTold floatRepr events := by
  simp only [isSome_orderArrival_iff fun e he => hkind e (mem_inTimeOrder.mp he),
    mem_keys_orderFills, get?_orderContracts_inTimeOrder, mem_inTimeOrder]
  constructor
  · exact fun h e he id f hf => h id ⟨e, he, f, hf⟩
  · rintro h id ⟨e, he, f, hf⟩
    exact h e he id f hf

end OneKind

/-! ## Logs that are analysed -/

section Analysable

variable (fromIso : String → Option Stamp) (floatRepr : Price → String) (clock : ℕ → Time)
  (events : List RawEvent)

/-- The times that can be read are aware. -/
def AwareTimes : Prop :=
  ∀ e ∈ events, ∀ raw, e.timestamp = some raw → ∀ t, raw.wellFormed fromIso = some t →
    t.aware = true

/-- The times of all events that are kept are read, or those of none. -/
def TimesRead (read : Bool) : Prop :=
  ∀ e ∈ events, ∀ raw, e.timestamp = some raw → (raw.wellFormed fromIso).isSome = read

/-- **What a log must be to be analysed**: its times can all be read, or none
can; and where they are read, the arrivals can be told. -/
structure Analysable : Prop where
  times : ∃ read, TimesRead fromIso events read
  arrivals : TimesRead fromIso events true →
    ArrivalsTold floatRepr (normalizeAll fromIso clock events)

variable {fromIso floatRepr clock events}

/-- The time of a normalized event is that which is read, or else the
clock's. -/
theorem RawEvent.map_timestamp_normalize (fromIso : String → Option Stamp) (e : RawEvent)
    (now : Time) :
    (e.normalize fromIso now).map (·.timestamp)
      = e.timestamp.map fun raw => (raw.wellFormed fromIso).getD (.naive now) := by
  cases e with
  | record => rfl
  | dict => rfl
  | other => rfl

theorem forall_mem_normalizeAll {p : NormalizedEvent → Prop} :
    (∀ n ∈ normalizeAll fromIso clock events, p n)
      ↔ ∀ (i : ℕ) (e : RawEvent), events[i]? = some e →
        ∀ n, e.normalize fromIso (clock i) = some n → p n := by
  unfold normalizeAll
  simp only [List.mem_filterMap, List.mem_zipIdx_iff_getElem?, Prod.exists]
  exact ⟨fun h i e he n hn => h n ⟨e, i, he, hn⟩, fun h n ⟨e, i, he, hn⟩ => h i e he n hn⟩

/-- **The times of the log are aware where they are read**, and naive where
the clock has given them. -/
theorem forall_aware_iff (haware : AwareTimes fromIso events) (clock : ℕ → Time) (read : Bool) :
    (∀ n ∈ normalizeAll fromIso clock events, n.timestamp.aware = read)
      ↔ TimesRead fromIso events read := by
  have hread : ∀ e ∈ events, ∀ now raw, e.timestamp = some raw →
      ((raw.wellFormed fromIso).getD (.naive now)).aware = (raw.wellFormed fromIso).isSome := by
    intro e he now raw hraw
    cases hstamp : raw.wellFormed fromIso with
    | none => rfl
    | some t => exact haware e he raw hraw t hstamp
  rw [forall_mem_normalizeAll]
  constructor
  · intro h e he raw hraw
    obtain ⟨i, hi⟩ := List.mem_iff_getElem?.mp he
    have hmap := e.map_timestamp_normalize fromIso (clock i)
    rw [hraw, Option.map_some, Option.map_eq_some_iff] at hmap
    obtain ⟨n, hn, hstamp⟩ := hmap
    rw [← hread e he (clock i) raw hraw, ← hstamp]
    exact h i e hi n hn
  · intro h i e hi n hn
    have he := List.mem_of_getElem? hi
    have hmap := e.map_timestamp_normalize fromIso (clock i)
    rw [hn, Option.map_some] at hmap
    obtain ⟨raw, hraw, hstamp⟩ := Option.map_eq_some_iff.mp hmap.symm
    rw [← hstamp, hread e he (clock i) raw hraw]
    exact h e he raw hraw

/-- **`normalize_events` returns** where the times are all read, or none is,
and then it has sorted the events by them. -/
theorem normalizeEvents?_eq_some_iff (haware : AwareTimes fromIso events)
    {normalized : List NormalizedEvent} :
    normalizeEvents? fromIso clock events = some normalized
      ↔ (∃ read, TimesRead fromIso events read)
        ∧ normalized = inTimeOrder (normalizeAll fromIso clock events) := by
  have hkinds : (∀ a ∈ normalizeAll fromIso clock events,
      ∀ b ∈ normalizeAll fromIso clock events, a.timestamp.aware = b.timestamp.aware)
      ↔ ∃ read, TimesRead fromIso events read := by
    simp only [← forall_aware_iff haware clock]
    constructor
    · intro h
      cases hall : normalizeAll fromIso clock events with
      | nil => exact ⟨true, fun a ha => absurd ha List.not_mem_nil⟩
      | cons n ns => exact ⟨n.timestamp.aware, fun a ha => h a (hall ▸ ha) n (by simp [hall])⟩
    · exact fun ⟨read, h⟩ a ha b hb => (h a ha).trans (h b hb).symm
  rw [← hkinds]
  show (normalizeAll fromIso clock events).sortBy? (List.ltOfKind
    (fun n : NormalizedEvent => n.timestamp.aware) fun n => n.timestamp.time) = _ ↔ _
  exact List.sortBy?_eq_some_iff

/-- The analytics return where both parts do, and the sort puts the events in
the order of their times. -/
theorem exists_analyse?_iff {now : LoggedOrderId → String → Time}
    (haware : AwareTimes fromIso events) :
    (∃ a, analyse? floatRepr now fromIso clock events = some a
      ∧ a.normalized.Perm (normalizeAll fromIso clock events)
      ∧ a.normalized.Pairwise fun x y => x.timestamp.le? y.timestamp = some true)
      ↔ (∃ read, TimesRead fromIso events read)
        ∧ (computeExecutionQuality? floatRepr now
          (inTimeOrder (normalizeAll fromIso clock events))).isSome := by
  constructor
  · rintro ⟨a, ha, -⟩
    obtain ⟨normalized, hnormalized, hrest⟩ := Option.bind_eq_some_iff.mp ha
    obtain ⟨metrics, hmetrics, -⟩ := Option.map_eq_some_iff.mp hrest
    obtain ⟨hread, rfl⟩ := (normalizeEvents?_eq_some_iff haware).mp hnormalized
    exact ⟨hread, Option.isSome_of_eq_some hmetrics⟩
  · rintro ⟨⟨read, hread⟩, hmetrics⟩
    obtain ⟨metrics, hmetrics⟩ := Option.isSome_iff_exists.mp hmetrics
    have hkind := (forall_aware_iff haware clock read).mpr hread
    obtain ⟨a, ha, hsorted⟩ : ∃ a, analyse? floatRepr now fromIso clock events = some a
        ∧ a.normalized = inTimeOrder (normalizeAll fromIso clock events) := by
      rw [analyse?, (normalizeEvents?_eq_some_iff haware).mpr ⟨⟨read, hread⟩, rfl⟩,
        Option.bind_some, hmetrics, Option.map_some]
      exact ⟨_, rfl, rfl⟩
    refine ⟨a, ha, hsorted ▸ List.perm_insertionSort _ _, ?_⟩
    rw [hsorted]
    refine (List.pairwise_insertionSort_le _ _).imp_of_mem fun {x y} hx hy hle => ?_
    have hsame : x.timestamp.aware = y.timestamp.aware :=
      (hkind x (mem_inTimeOrder.mp hx)).trans (hkind y (mem_inTimeOrder.mp hy)).symm
    rw [Stamp.le?, if_pos hsame, decide_eq_true hle]

/-- **A log is analysed exactly where no aware time is compared with one of
the clock**, and its events are then in the order of their times. -/
theorem analytics_returns_iff (fromIso : String → Option Stamp) (floatRepr : Price → String)
    (clock : ℕ → Time) (now : LoggedOrderId → String → Time) (events : List RawEvent)
    (haware : AwareTimes fromIso events) :
    (∃ a, analyse? floatRepr now fromIso clock events = some a
      ∧ a.normalized.Perm (normalizeAll fromIso clock events)
      ∧ a.normalized.Pairwise fun x y => x.timestamp.le? y.timestamp = some true)
      ↔ Analysable fromIso floatRepr clock events := by
  have hkind : ∀ read, TimesRead fromIso events read →
      ∀ e ∈ inTimeOrder (normalizeAll fromIso clock events), e.timestamp.aware = read :=
    fun read hread e he =>
      (forall_aware_iff haware clock read).mpr hread e (mem_inTimeOrder.mp he)
  rw [exists_analyse?_iff haware]
  constructor
  · rintro ⟨hread, hmetrics⟩
    refine ⟨hread, fun htrue => ?_⟩
    have harrival := (isSome_computeExecutionQuality?_iff (hkind true htrue)).mp hmetrics
    exact (isSome_orderArrival_inTimeOrder_iff
      ((forall_aware_iff haware clock true).mpr htrue)).mp harrival
  · rintro ⟨⟨read, hread⟩, harrivals⟩
    refine ⟨⟨read, hread⟩, (isSome_computeExecutionQuality?_iff (hkind read hread)).mpr ?_⟩
    cases read with
    | true =>
      exact (isSome_orderArrival_inTimeOrder_iff
        ((forall_aware_iff haware clock true).mpr hread)).mpr (harrivals hread)
    | false =>
      -- all times are the clock's, as that of an order without submission is
      refine fun id _ => isSome_orderArrival_of_kind (hkind false hread) fun key => ?_
      cases hsub : (orderSubmissions _).get? id with
      | none => rfl
      | some t =>
        obtain ⟨s, hs, rfl⟩ := exists_of_get?_reached hsub
        exact hkind false hread s hs

end Analysable

/-- A quote, and a fill of an order whose submission is not in the list. -/
def filledLog : List RawEvent :=
  [.dict "quote_snapshot" (.datetime ⟨true, 36000⟩) none
      (some { symbol := "SPX", bid := some (49 / 10), ask := some (51 / 10) }),
    .dict "fill_event" (.datetime ⟨true, 36002⟩) none
      (some
        { orderId := some (.order 1)
          contract := some sampleContract
          fillPrice := some (505 / 100)
          filledQuantity := some 10 })]

/-- The submission of the order, and the fill. -/
def submittedLog : List RawEvent :=
  .dict "order_event" (.datetime ⟨true, 36001⟩) none
    (some { orderId := some (.order 1), newStatus := "SUBMITTED" }) :: filledLog

/-- A quote with a time, and one without. -/
def untimedLog : List RawEvent :=
  filledLog.take 1 ++ [.dict "quote_snapshot" .missing none none]

theorem awareTimes_of_datetime {events : List RawEvent}
    (h : ∀ e ∈ events, e.timestamp = some .missing
      ∨ ∃ t, e.timestamp = some (.datetime ⟨true, t⟩)) : AwareTimes (fun _ => none) events := by
  intro e he raw hraw t ht
  rcases h e he with hmissing | ⟨t', htime⟩
  · obtain rfl := Option.some.inj (hmissing.symm.trans hraw)
    cases ht
  · obtain rfl := Option.some.inj (htime.symm.trans hraw)
    obtain rfl := Option.some.inj ht
    rfl

/-- The sort raises for the one log, the search for the other. -/
theorem analytics_raises :
    (AwareTimes (fun _ => none) untimedLog ∧ analyse? (fun _ => "6000.0") (fun _ _ => 40000)
        (fun _ => none) (fun _ => 40000) untimedLog = none)
      ∧ AwareTimes (fun _ => none) filledLog ∧ analyse? (fun _ => "6000.0") (fun _ _ => 40000)
        (fun _ => none) (fun _ => 40000) filledLog = none := by
  refine ⟨⟨awareTimes_of_datetime ?_, Option.isNone_iff_eq_none.mp (by decide +kernel)⟩,
    awareTimes_of_datetime ?_, Option.isNone_iff_eq_none.mp (by decide +kernel)⟩
  · simp [untimedLog, filledLog, RawEvent.timestamp]
  · simp [filledLog, RawEvent.timestamp]

/-- With the submission the log is analysed. -/
theorem analytics_returns_submitted : ∃ a, analyse? (fun _ => "6000.0") (fun _ _ => 40000)
      (fun _ => none) (fun _ => 40000) submittedLog = some a
    ∧ a.normalized.Perm (normalizeAll (fun _ => none) (fun _ => 40000) submittedLog)
    ∧ a.normalized.Pairwise fun x y => x.timestamp.le? y.timestamp = some true := by
  have hfill : ∀ e ∈ normalizeAll (fun _ => none) (fun _ => 40000) submittedLog,
      ∀ id ∈ e.fill.map Prod.fst, id = .order 1 := by decide +kernel
  have hsubmission : ∃ s ∈ normalizeAll (fun _ => none) (fun _ => 40000) submittedLog,
      s.submission = some (.order 1, ⟨true, 36001⟩) := by decide +kernel
  refine (analytics_returns_iff (fun _ => none) (fun _ => "6000.0") (fun _ => 40000)
    (fun _ _ => 40000) submittedLog (awareTimes_of_datetime ?_)).mpr ⟨⟨true, ?_⟩, fun _ => ?_⟩
  · simp [submittedLog, filledLog, RawEvent.timestamp]
  · simp [TimesRead, submittedLog, filledLog, RawEvent.timestamp, RawTimestamp.wellFormed]
  · intro e he id f hf hnone
    obtain rfl : id = .order 1 := hfill e he id (by simp [hf])
    obtain ⟨s, hs, hsub⟩ := hsubmission
    exact absurd hsub (hnone s hs _)
