import ExecutionSystem.Calendar
import ExecutionSystem.ExitManager
import ExecutionSystem.FiveEma
import ExecutionSystem.InsertionDict
import ExecutionSystem.RiskEngine
import ExecutionSystem.StableSort
import Mathlib.Data.List.Induction

/-!
# The selection of a contract

`OptionContractSelector` of `src/marketdata/contract_selector.py` puts every
contract of a list through seven filters, collects the reasons of those that
fail, and returns the first of the closest that pass: closest in delta where
a delta is asked for, and else in strike.

What a contract is judged by is a parameter here: a function that gives each
contract a quote (`rejections`, `candidate`). The selector looks its quotes
up under the symbol of the contract, and that is its underlying; it files the
reasons under the symbol too. So all contracts of one underlying are judged
by one quote, and the last that is rejected leaves its reasons for all.
`selectContract_correct_iff` says what that comes to: of contracts that the
quotes under their symbols judge as their own do, and that share a symbol only
where they share their reasons too (`SymbolsServe`), every list is answered
correctly, and of no others.
-/

/-! ## Dates -/

/-- `datetime.strptime(expiry, "%Y%m%d").date()`; `none` where it raises. -/
def parseExpiry (expiry : String) : Option CivilDate :=
  let digits := expiry.toList
  let year := Nat.ofDigitChars 10 (digits.take 4) 0
  let month := Nat.ofDigitChars 10 ((digits.drop 4).take 2) 0
  let day := Nat.ofDigitChars 10 (digits.drop 6) 0
  if digits.length = 8 ∧ digits.all Char.isDigit then
    if h : 0 < year ∧ 0 < month ∧ month ≤ 12 ∧ 0 < day
        ∧ day ≤ Calendar.daysInMonth (Calendar.isLeap year) month then
      some ⟨year, month, day, h.1, h.2.1, h.2.2.1, h.2.2.2.1, h.2.2.2.2⟩
    else none
  else none

/-! ## The selector -/

/-- What a quote is rejected for, in words: `fixed` prints a number with so
many decimals, and `floatRepr` as `str` does. -/
def QuoteDefect.text (fixed : ℕ → ℚ → String) (floatRepr : ℚ → String) : QuoteDefect → String
  | .missing => "quote_missing"
  | .stale age maxAge => s!"quote_stale:age={fixed 1 age}s,max={floatRepr maxAge}s"
  | .missingBidOrAsk => "quote_incomplete:missing_bid_or_ask"
  | .askIsZeroOrNegative => "quote_invalid:ask_is_zero_or_negative"
  | .midIsZeroOrNegative => "quote_invalid:mid_is_zero_or_negative"
  | .spreadTooWide spread maxSpread =>
    s!"spread_too_wide:spread={fixed 1 spread}%,max={floatRepr maxSpread}%"

/-- **`OptionContractSelector`**, with what prints its numbers. -/
structure OptionContractSelector where
  maxAgeSeconds : Time
  maxSpreadPct : ℚ
  minBid : Price := 1 / 100
  floatRepr : ℚ → String
  fixed : ℕ → ℚ → String

/-- What `select_contract` is asked for. -/
structure SelectionTarget where
  underlyingPrice : Price
  right : OptionRight
  dteTarget : ℤ
  currentTime : Time
  targetDelta : Option ℚ := none
  maxStrikeDistancePct : Option ℚ := none
  underlying_pos : 0 < underlyingPrice

namespace OptionContractSelector

variable (selector : OptionContractSelector) (target : SelectionTarget)

def rightReasons (contract : OptionContract) : List String :=
  reasonIf (contract.right ≠ target.right)
    s!"right_mismatch:contract={contract.right.value},target={target.right.value}"

def expiryReasons (contract : OptionContract) : List String :=
  match parseExpiry contract.expiry with
  | none => ["invalid_expiry_format"]
  | some expiryDate =>
    let dte := expiryDate.dayNumber - target.currentTime.date
    reasonIf (dte ≠ target.dteTarget) s!"dte_mismatch:dte={dte},target={target.dteTarget}"

def strikeReasons (contract : OptionContract) : List String :=
  match target.maxStrikeDistancePct with
  | none => []
  | some maxDist =>
    let dist := |contract.strike - target.underlyingPrice| / target.underlyingPrice
    reasonIf (maxDist < dist)
      s!"strike_out_of_bounds:dist={selector.fixed 4 dist},max={selector.fixed 4 maxDist}"

/-- The reasons that are in the quote: its age, its prices, its bid, and its
delta where one is needed. -/
def quoteReasons : Option StrategyQuote → List String
  | none => ["quote_missing"]
  | some quote =>
    let print := selector.floatRepr
    let text := QuoteDefect.text selector.fixed print
    ((validateQuoteFreshness quote.toQuoteSnapshot target.currentTime
        selector.maxAgeSeconds).map text).toList
      ++ ((validateQuotePrices quote.toQuoteSnapshot selector.maxSpreadPct).map text).toList
      ++ (match quote.bid with
        | none => []
        | some bid => reasonIf (bid < selector.minBid)
            s!"bid_below_threshold:bid={print bid},min={print selector.minBid}")
      ++ reasonIf (target.targetDelta.isSome ∧ quote.delta = none) "delta_unavailable"

/-- `reasons` of a contract that is judged by the quote. -/
def reasons (contract : OptionContract) (quote : Option StrategyQuote) : List String :=
  rightReasons target contract ++ expiryReasons target contract
    ++ selector.strikeReasons target contract ++ selector.quoteReasons target quote

/-- How far a candidate is from what is asked for. A candidate has a delta
where one is needed. -/
def distance (candidate : OptionContract × StrategyQuote) : ℚ :=
  match target.targetDelta with
  | some delta => candidate.2.delta.elim 0 fun d => |(|d| - |delta|)|
  | none => |candidate.1.strike - target.underlyingPrice|

variable (look : OptionContract → Option StrategyQuote)

/-- The candidate that a contract makes, where nothing speaks against it. -/
def candidate (contract : OptionContract) : Option (OptionContract × StrategyQuote) :=
  if selector.reasons target contract (look contract) = [] then
    (look contract).map fun quote => (contract, quote)
  else none

/-- The entry of a contract in the map of reasons. -/
def rejection (contract : OptionContract) : Option (String × List String) :=
  if selector.reasons target contract (look contract) = [] then none
  else some (contract.symbol, selector.reasons target contract (look contract))

/-- `eligible_candidates` and `rejection_reasons`. -/
structure Screening where
  eligibleCandidates : List (OptionContract × StrategyQuote) := []
  rejectionReasons : InsertionDict String (List String) := .empty

/-- One contract in the loop of `select_contract`. -/
def screen (quotes : String → Option StrategyQuote) (s : Screening)
    (contract : OptionContract) : Screening :=
  let quote := quotes contract.symbol
  let reasons := selector.reasons target contract quote
  if reasons ≠ [] then
    { s with rejectionReasons := s.rejectionReasons.set contract.symbol reasons }
  else
    match quote with
    | some quote => { s with eligibleCandidates := s.eligibleCandidates ++ [(contract, quote)] }
    | none => s

/-- **`select_contract`.** -/
def selectContract (contracts : List OptionContract) (quotes : String → Option StrategyQuote) :
    Option OptionContract × InsertionDict String (List String) :=
  let s := contracts.foldl (selector.screen target quotes) {}
  (((s.eligibleCandidates.insertionSort fun a b =>
      distance target a ≤ distance target b).head?).map Prod.fst, s.rejectionReasons)

/-! ## What the loop makes -/

section Loop

variable {selector} {target} {look}

theorem candidate_eq_some_iff {contract : OptionContract} {e : OptionContract × StrategyQuote} :
    selector.candidate target look contract = some e
      ↔ e.1 = contract ∧ look contract = some e.2
        ∧ selector.reasons target contract (look contract) = [] := by
  unfold candidate
  split_ifs with h
  · rw [Option.map_eq_some_iff]
    constructor
    · rintro ⟨quote, hquote, rfl⟩
      exact ⟨rfl, hquote, h⟩
    · rintro ⟨rfl, hquote, -⟩
      exact ⟨e.2, hquote, rfl⟩
  · simp [h]

variable (look) in
/-- What is not rejected has a quote. -/
theorem exists_quote_of_reasons {contract : OptionContract}
    (h : selector.reasons target contract (look contract) = []) :
    ∃ quote, look contract = some quote := by
  cases hlook : look contract with
  | some quote => exact ⟨quote, rfl⟩
  | none =>
    rw [hlook] at h
    simp [reasons, quoteReasons] at h

theorem rejection_eq_some_iff {contract : OptionContract} {key : String} {rs : List String} :
    selector.rejection target look contract = some (key, rs)
      ↔ contract.symbol = key ∧ selector.reasons target contract (look contract) = rs
        ∧ rs ≠ [] := by
  unfold rejection
  split_ifs with h
  · refine iff_of_false (by simp) ?_
    rintro ⟨-, rfl, hne⟩
    exact hne h
  · rw [Option.some.injEq, Prod.mk.injEq]
    exact ⟨fun ⟨hkey, hrs⟩ => ⟨hkey, hrs, hrs ▸ h⟩, fun ⟨hkey, hrs, _⟩ => ⟨hkey, hrs⟩⟩

/-- **The loop** collects the candidates, and assigns the reasons of the
others. -/
theorem foldl_screen (quotes : String → Option StrategyQuote) (contracts : List OptionContract) :
    contracts.foldl (selector.screen target quotes) {}
      = ⟨contracts.filterMap (selector.candidate target fun c => quotes c.symbol),
        InsertionDict.empty.assignAll (selector.rejection target fun c => quotes c.symbol)
          contracts⟩ := by
  induction contracts using List.reverseRecOn with
  | nil => rfl
  | append_singleton contracts contract ih =>
    rw [List.foldl_concat, ih, List.filterMap_append, InsertionDict.assignAll,
      InsertionDict.assignAll, List.foldl_concat]
    unfold screen candidate rejection
    dsimp only
    by_cases hreasons : selector.reasons target contract (quotes contract.symbol) = []
    · obtain ⟨quote, hquote⟩ := exists_quote_of_reasons (fun c => quotes c.symbol) hreasons
      rw [hquote] at hreasons
      simp [hquote, hreasons, InsertionDict.assign?]
    · simp [hreasons, InsertionDict.assign?]

/-- **What is selected** is the first closest of the candidates by the quotes
under the symbols. -/
theorem selectContract_eq_some_iff {contracts : List OptionContract}
    {quotes : String → Option StrategyQuote} {contract : OptionContract} :
    (selector.selectContract target contracts quotes).1 = some contract
      ↔ ∃ candidate, contracts.IsFirstLeast
        (selector.candidate target fun c => quotes c.symbol) (distance target) contract
          candidate := by
  unfold selectContract
  rw [foldl_screen]
  dsimp only
  rw [Option.map_eq_some_iff]
  simp only [List.head?_insertionSort_filterMap_eq_some_iff]
  constructor
  · rintro ⟨candidate, ⟨c, hfirst⟩, rfl⟩
    obtain rfl := (candidate_eq_some_iff.mp hfirst.made).1
    exact ⟨candidate, hfirst⟩
  · rintro ⟨candidate, hfirst⟩
    exact ⟨candidate, ⟨contract, hfirst⟩, (candidate_eq_some_iff.mp hfirst.made).1⟩

/-- Nothing is selected where there is no candidate. -/
theorem selectContract_eq_none_iff {contracts : List OptionContract}
    {quotes : String → Option StrategyQuote} :
    (selector.selectContract target contracts quotes).1 = none
      ↔ ∀ c ∈ contracts, selector.reasons target c (quotes c.symbol) ≠ [] := by
  unfold selectContract
  rw [foldl_screen]
  dsimp only
  rw [Option.map_eq_none_iff, List.head?_eq_none_iff, ← List.length_eq_zero_iff,
    List.length_insertionSort, List.length_eq_zero_iff, List.filterMap_eq_nil_iff]
  refine forall_congr' fun c => forall_congr' fun _ => ?_
  rw [Option.eq_none_iff_forall_ne_some]
  constructor
  · intro h hreasons
    obtain ⟨quote, hquote⟩ := exists_quote_of_reasons (fun c => quotes c.symbol) hreasons
    exact h (c, quote) (candidate_eq_some_iff.mpr ⟨rfl, hquote, hreasons⟩)
  · exact fun h e he => h (candidate_eq_some_iff.mp he).2.2

/-- **What is reported under a symbol** is what the last contract of it that
is rejected is rejected for. -/
theorem rejectionReasons_eq_some_iff {contracts : List OptionContract}
    {quotes : String → Option StrategyQuote} {key : String} {rs : List String} :
    (selector.selectContract target contracts quotes).2.get? key = some rs
      ↔ ∃ as c bs, contracts = as ++ c :: bs ∧ c.symbol = key
        ∧ selector.reasons target c (quotes c.symbol) = rs ∧ rs ≠ []
        ∧ ∀ x ∈ bs, x.symbol = key → selector.reasons target x (quotes x.symbol) = [] := by
  unfold selectContract
  rw [foldl_screen]
  dsimp only
  rw [InsertionDict.get?_assignAll_eq_some_iff]
  simp only [ne_eq, rejection_eq_some_iff, and_assoc]
  refine exists_congr fun as => exists_congr fun c => exists_congr fun bs =>
    and_congr_right fun _ => and_congr_right fun _ => and_congr_right fun _ =>
    and_congr_right fun _ => forall_congr' fun x => forall_congr' fun _ => ?_
  constructor
  · exact fun h hkey => by_contra fun hne => h _ ⟨hkey, rfl, hne⟩
  · rintro h b ⟨hkey, rfl, hne⟩
    exact hne (h hkey)

/-- A contract that is rejected leaves an entry under its symbol. -/
theorem exists_rejectionReasons {contracts : List OptionContract}
    {quotes : String → Option StrategyQuote} {contract : OptionContract}
    (hmem : contract ∈ contracts)
    (h : selector.reasons target contract (quotes contract.symbol) ≠ []) :
    ∃ rs, (selector.selectContract target contracts quotes).2.get? contract.symbol = some rs := by
  refine Option.ne_none_iff_exists'.mp fun hnone => ?_
  unfold selectContract at hnone
  rw [foldl_screen] at hnone
  dsimp only at hnone
  rw [InsertionDict.get?_assignAll, Option.or_eq_none_iff, List.findSome?_eq_none_iff] at hnone
  exact InsertionDict.assigned_eq_none_iff.mp (hnone.1 contract (List.mem_reverse.mpr hmem)) _
    (rejection_eq_some_iff.mpr ⟨rfl, rfl, h⟩)

end Loop

/-! ## What the selection owes -/

section Correct

variable (contracts : List OptionContract) (quotes : String → Option StrategyQuote)

/-- A contract is eligible by the quote it is given. -/
def Eligible (contract : OptionContract) : Prop :=
  selector.reasons target contract (look contract) = []

/-- How far a contract is from what is asked for, by the quote it is given. -/
def distanceBy (contract : OptionContract) : ℚ :=
  (look contract).elim 0 fun quote => distance target (contract, quote)

/-- **What the selection owes** where each contract is to be judged by the
quote `look` gives it: it fails only where no contract is eligible, what it
returns is eligible and none that is eligible is closer, and for each
contract that is not it reports this contract's own reasons. -/
structure SelectsCorrectly : Prop where
  none_iff : (selector.selectContract target contracts quotes).1 = none
    ↔ ∀ c ∈ contracts, ¬ selector.Eligible target look c
  optimal : ∀ c, (selector.selectContract target contracts quotes).1 = some c →
    c ∈ contracts ∧ selector.Eligible target look c
      ∧ ∀ c' ∈ contracts, selector.Eligible target look c' →
        distanceBy target look c ≤ distanceBy target look c'
  reported : ∀ c ∈ contracts, ¬ selector.Eligible target look c →
    (selector.selectContract target contracts quotes).2.get? c.symbol
      = some (selector.reasons target c (look c))

/-- Ineligible contracts of one symbol have the same reasons. -/
def SharedReasons : Prop :=
  ∀ c ∈ contracts, ∀ c' ∈ contracts, c.symbol = c'.symbol →
    ¬ selector.Eligible target look c → ¬ selector.Eligible target look c' →
      selector.reasons target c (look c) = selector.reasons target c' (look c')

/-- **The quotes under the symbols serve** for those that `look` gives: each
contract has the same reasons by both, of two eligible contracts the closer by
the former is no farther by the latter, and ineligible contracts of one symbol
have the same reasons. -/
structure SymbolsServe : Prop where
  reasons_eq : ∀ c ∈ contracts,
    selector.reasons target c (quotes c.symbol) = selector.reasons target c (look c)
  closer : ∀ c ∈ contracts, ∀ c' ∈ contracts,
    selector.Eligible target look c → selector.Eligible target look c' →
      distanceBy target (fun c => quotes c.symbol) c
        ≤ distanceBy target (fun c => quotes c.symbol) c' →
      distanceBy target look c ≤ distanceBy target look c'
  shared : selector.SharedReasons target look contracts

variable {selector} {target} {look} {contracts} {quotes}

/-- The distance of a candidate is that of its contract. -/
theorem distance_eq_distanceBy {contract : OptionContract} {e : OptionContract × StrategyQuote}
    (h : selector.candidate target look contract = some e) :
    distance target e = distanceBy target look contract := by
  obtain ⟨hc, hlook, -⟩ := candidate_eq_some_iff.mp h
  rw [distanceBy, hlook, Option.elim_some, ← hc]

/-- An eligible contract makes a candidate. -/
theorem exists_candidate {contract : OptionContract}
    (h : selector.Eligible target look contract) :
    ∃ e, selector.candidate target look contract = some e := by
  obtain ⟨quote, hquote⟩ := exists_quote_of_reasons look h
  exact ⟨(contract, quote), candidate_eq_some_iff.mpr ⟨rfl, hquote, h⟩⟩

/-- **What is returned** is eligible by the quote under its symbol, and closest
by these quotes. -/
theorem closest_of_selectContract {contract : OptionContract}
    (h : (selector.selectContract target contracts quotes).1 = some contract) :
    contract ∈ contracts ∧ selector.Eligible target (fun c => quotes c.symbol) contract
      ∧ ∀ x ∈ contracts, selector.Eligible target (fun c => quotes c.symbol) x →
        distanceBy target (fun c => quotes c.symbol) contract
          ≤ distanceBy target (fun c => quotes c.symbol) x := by
  obtain ⟨candidate, as, bs, rfl, hmade, has, hbs⟩ := selectContract_eq_some_iff.mp h
  refine ⟨by simp, (candidate_eq_some_iff.mp hmade).2.2, fun x hx heligible => ?_⟩
  obtain ⟨e, he⟩ := exists_candidate heligible
  rw [← distance_eq_distanceBy hmade, ← distance_eq_distanceBy he]
  rcases List.mem_append.mp hx with hx | hx
  · exact (has x hx e he).le
  · rcases List.mem_cons.mp hx with rfl | hx
    · exact (congrArg (distance target) (Option.some.inj (hmade.symm.trans he))).le
    · exact hbs x hx e he

/-- The first of two is returned where it is no farther. -/
theorem selectContract_pair {c c' : OptionContract}
    (hc : selector.Eligible target (fun c => quotes c.symbol) c)
    (hle : distanceBy target (fun c => quotes c.symbol) c
      ≤ distanceBy target (fun c => quotes c.symbol) c') :
    (selector.selectContract target [c, c'] quotes).1 = some c := by
  obtain ⟨candidate, hmade⟩ := exists_candidate hc
  refine selectContract_eq_some_iff.mpr ⟨candidate, [], [c'], rfl, hmade, by simp, ?_⟩
  intro x hx e he
  obtain rfl := List.mem_singleton.mp hx
  rwa [distance_eq_distanceBy hmade, distance_eq_distanceBy he]

/-- **A correct report** has one list of reasons for each symbol. -/
theorem SelectsCorrectly.sharedReasons
    (h : selector.SelectsCorrectly target look contracts quotes) :
    selector.SharedReasons target look contracts := by
  intro c hc c' hc' hsymbol hrejected hrejected'
  have hreported := h.reported c hc hrejected
  rw [hsymbol, h.reported c' hc' hrejected'] at hreported
  exact (Option.some.inj hreported).symm

/-- A contract alone is answered for correctly only where both quotes give it
the same reasons. -/
theorem SelectsCorrectly.reasons_eq {c : OptionContract}
    (h : selector.SelectsCorrectly target look [c] quotes) :
    selector.reasons target c (quotes c.symbol) = selector.reasons target c (look c) := by
  by_cases heligible : selector.Eligible target look c
  · -- something is selected, and it is this contract
    have hsome := mt h.none_iff.mp fun hall => hall c List.mem_cons_self heligible
    rw [selectContract_eq_none_iff, List.forall_mem_singleton, not_not] at hsome
    exact hsome.trans heligible.symm
  · obtain ⟨as, c', bs, hsplit, -, hreasons, -⟩ :=
      rejectionReasons_eq_some_iff.mp (h.reported c List.mem_cons_self heligible)
    have hmem : c' ∈ [c] := by rw [hsplit]; simp
    rwa [List.mem_singleton.mp hmem] at hreasons

/-- **Where the quotes under the symbols serve**, the selection is correct. -/
theorem SymbolsServe.selectsCorrectly
    (h : selector.SymbolsServe target look contracts quotes) :
    selector.SelectsCorrectly target look contracts quotes where
  none_iff := by
    rw [selectContract_eq_none_iff]
    refine forall_congr' fun c => forall_congr' fun hc => ?_
    rw [h.reasons_eq c hc]
    rfl
  optimal := fun c hselected => by
    obtain ⟨hc, heligible, hclosest⟩ := closest_of_selectContract hselected
    have hown : selector.Eligible target look c := (h.reasons_eq c hc).symm.trans heligible
    refine ⟨hc, hown, fun c' hc' heligible' => ?_⟩
    exact h.closer c hc c' hc' hown heligible'
      (hclosest c' hc' ((h.reasons_eq c' hc').trans heligible'))
  reported := fun c hc hrejected => by
    obtain ⟨rs, hget⟩ := exists_rejectionReasons hc
      fun heligible => hrejected ((h.reasons_eq c hc).symm.trans heligible)
    obtain ⟨as, c', bs, hsplit, hsymbol, rfl, hne, -⟩ := rejectionReasons_eq_some_iff.mp hget
    have hc' : c' ∈ contracts := by rw [hsplit]; simp
    -- the reasons that stand there are of another contract of the symbol
    rw [h.reasons_eq c' hc'] at hne hget
    rw [hget, h.shared c' hc' c hc hsymbol hne hrejected]

theorem SymbolsServe.mono {part : List OptionContract} (hpart : part ⊆ contracts)
    (h : selector.SymbolsServe target look contracts quotes) :
    selector.SymbolsServe target look part quotes where
  reasons_eq := fun c hc => h.reasons_eq c (hpart hc)
  closer := fun c hc c' hc' => h.closer c (hpart hc) c' (hpart hc')
  shared := fun c hc c' hc' => h.shared c (hpart hc) c' (hpart hc')

/-- They serve where they are the contracts' own, and no two contracts share a
symbol. -/
theorem symbolsServe_of_quotes_eq (hquotes : ∀ c ∈ contracts, quotes c.symbol = look c)
    (hsymbols : ∀ c ∈ contracts, ∀ c' ∈ contracts, c.symbol = c'.symbol → c = c') :
    selector.SymbolsServe target look contracts quotes where
  reasons_eq := fun c hc => by rw [hquotes c hc]
  closer := fun c hc c' hc' _ _ hle => by
    simpa only [distanceBy, hquotes c hc, hquotes c' hc'] using hle
  shared := fun c hc c' hc' hsymbol _ _ => by rw [hsymbols c hc c' hc' hsymbol]

/-- **The selection is correct for every list of some contracts** exactly where
the quotes under their symbols serve. -/
theorem forall_selectsCorrectly_iff :
    (∀ part ⊆ contracts, selector.SelectsCorrectly target look part quotes)
      ↔ selector.SymbolsServe target look contracts quotes := by
  refine ⟨fun h => ?_, fun h part hpart => (h.mono hpart).selectsCorrectly⟩
  have hreasons : ∀ c ∈ contracts,
      selector.reasons target c (quotes c.symbol) = selector.reasons target c (look c) :=
    fun c hc => (h [c] (by simpa using hc)).reasons_eq
  refine ⟨hreasons, fun c hc c' hc' heligible heligible' hle => ?_,
    (h contracts (List.Subset.refl _)).sharedReasons⟩
  have hselected := selectContract_pair ((hreasons c hc).trans heligible) hle
  exact ((h [c, c'] (by simp [hc, hc'])).optimal c hselected).2.2 c' (by simp) heligible'

/-- **Judged by the quotes under the symbols**, the selection is optimal, and
only the report can fail. -/
theorem selectsCorrectly_symbol_iff :
    selector.SelectsCorrectly target (fun c => quotes c.symbol) contracts quotes
      ↔ selector.SharedReasons target (fun c => quotes c.symbol) contracts := by
  refine ⟨fun h => h.sharedReasons, fun h => SymbolsServe.selectsCorrectly ?_⟩
  exact ⟨fun _ _ => rfl, fun _ _ _ _ _ _ hle => hle, h⟩

/-- **The selection is correct where the quotes under the symbols serve**, and
it is correct for every list of these contracts only there; judged by the
quotes under the symbols themselves it is correct exactly where contracts that
share a symbol share their reasons. -/
theorem selectContract_correct_iff (selector : OptionContractSelector) (target : SelectionTarget)
    (contracts : List OptionContract) (quotes : String → Option StrategyQuote) :
    ((∀ part ⊆ contracts, selector.SelectsCorrectly target
        (fun c => quotes (c.toQuoteSymbol selector.floatRepr)) part quotes)
      ↔ selector.SymbolsServe target (fun c => quotes (c.toQuoteSymbol selector.floatRepr))
        contracts quotes)
    ∧ (selector.SelectsCorrectly target (fun c => quotes c.symbol) contracts quotes
      ↔ selector.SharedReasons target (fun c => quotes c.symbol) contracts) :=
  ⟨forall_selectsCorrectly_iff, selectsCorrectly_symbol_iff⟩

end Correct

/-! ## Two contracts of one underlying -/

/-- An option on XSP that expires on 2026-05-20. -/
def mayOption (strike : ℕ) (right : OptionRight) (h : 0 < strike) : OptionContract where
  symbol := "XSP"
  expiry := "20260520"
  strike := strike
  right := right
  strike_pos := by exact_mod_cast h
  multiplier_pos := OptionContract.hundred_pos

/-- 2026-05-20. -/
def mayTwentieth : CivilDate :=
  ⟨2026, 5, 20, by decide, by decide, by decide, by decide, by decide⟩

/-- A selector that prints no numbers. -/
def plainSelector : OptionContractSelector where
  maxAgeSeconds := 60
  maxSpreadPct := 10
  floatRepr _ := ""
  fixed _ _ := ""

/-- A call at the money that expires today. -/
def callToday : SelectionTarget where
  underlyingPrice := 600
  right := .call
  dteTarget := 0
  currentTime := .combine mayTwentieth.dayNumber (hhmm 10 0)
  underlying_pos := by norm_num

/-- A quote under the key of the call, and none under the underlying. -/
def quoteOfCall (key : String) : Option StrategyQuote :=
  if key = "XSP 20260520 600 C" then
    some
      { bid := some 3
        ask := some (31 / 10)
        timestamp := .combine mayTwentieth.dayNumber (hhmm 10 0)
        bid_le_ask := by
          rintro _ ⟨⟩ _ ⟨⟩
          norm_num }
  else none

/-- The call is eligible by its own quote, and nothing is selected; and what
is reported for it is what the put was rejected for. -/
theorem selectContract_one_underlying :
    ¬ plainSelector.SelectsCorrectly callToday
        (fun c => quoteOfCall (c.toQuoteSymbol plainSelector.floatRepr))
        [mayOption 600 .call (by decide), mayOption 610 .put (by decide)] quoteOfCall
    ∧ ¬ plainSelector.SelectsCorrectly callToday (fun c => quoteOfCall c.symbol)
        [mayOption 600 .call (by decide), mayOption 610 .put (by decide)] quoteOfCall := by
  have hselected : (plainSelector.selectContract callToday
      [mayOption 600 .call (by decide), mayOption 610 .put (by decide)] quoteOfCall).1 = none := by
    decide +kernel
  have hreported : (plainSelector.selectContract callToday
      [mayOption 600 .call (by decide), mayOption 610 .put (by decide)] quoteOfCall).2.get? "XSP"
        = some ["right_mismatch:contract=PUT,target=CALL", "quote_missing"] := by
    decide +kernel
  constructor
  · intro h
    refine h.none_iff.mp hselected (mayOption 600 .call (by decide)) List.mem_cons_self ?_
    show plainSelector.reasons callToday _ _ = []
    decide +kernel
  · intro h
    have hown := h.reported (mayOption 600 .call (by decide)) List.mem_cons_self (by
      show ¬ plainSelector.reasons callToday _ _ = []
      decide +kernel)
    rw [show (mayOption 600 .call (by decide)).symbol = "XSP" from rfl, hreported] at hown
    revert hown
    decide +kernel

end OptionContractSelector
