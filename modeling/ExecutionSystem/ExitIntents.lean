import ExecutionSystem.ExitManager
import ExecutionSystem.TickPrices

/-!
# The intents of exits

`check_exits` looks at one position after the other and collects the exits.
A limit that is not positive is replaced by a cent, and only then is the
limit rounded to cents. So a positive limit of half a cent or less is
rounded to nothing, the intent refuses it, and the exception leaves the loop
with the exits of all the other positions.

In everything else the positions do not matter to one another: what is
returned for a list is what is returned for its positions, one after the
other, exactly when no exit has such a limit (`exitsPointwise_iff`).
-/

/-! ## Rounding to cents -/

theorem roundToCents_isRounding : IsRounding roundToCents :=
  gridRound_isRounding roundHalfEven_isNearest (by norm_num : (0 : ℚ) < 100)

/-- **Exactly these prices are rounded to a price.** -/
theorem roundToCents_pos_iff (p : Price) : 0 < roundToCents p ↔ 1 / 200 < p := by
  constructor
  · intro h
    by_contra hle
    have hzero : roundToCents (1 / 200) = 0 := by decide +kernel
    have := roundToCents_isRounding.monotone (not_lt.mp hle)
    rw [hzero] at this
    exact absurd h (not_lt.mpr this)
  · intro h
    have hmove := abs_le.mp (abs_gridRound_sub_le roundHalfEven_isNearest
      (by norm_num : (0 : ℚ) < 100) p)
    have : gridRound roundHalfEven 100 p = roundToCents p := rfl
    linarith [hmove.1]

/-- A price in whole cents is a cent at least. -/
theorem one_cent_le_roundToCents {p : Price} (h : 0 < roundToCents p) :
    1 / 100 ≤ roundToCents p := by
  unfold roundToCents at h ⊢
  have hcents : 0 < (roundHalfEven (p * 100) : ℚ) := (div_pos_iff_of_pos_right (by norm_num)).mp h
  exact div_le_div_of_nonneg_right (by exact_mod_cast hcents) (by norm_num)

/-! ## One position -/

namespace Position

variable {freshId : PositionId → RiskDecisionId} {policy : ExitPolicy} {pos : Position}
  {quote : Option QuoteSnapshot} {bar : Option Bar}

/-- The limit of an exit before it is replaced or rounded. -/
def givenLimit (pos : Position) (trigger : ExitTrigger) (limit : Option Price) :
    Option Price :=
  limit.or (if trigger = .forceFlatten then pos.currentPrice else none)

/-- **The exit of the position, if there is one, can be made into an
intent**: its limit is not positive, or it is more than half a cent. A
position that is open has a quantity. -/
def Exitable (pos : Position) (policy : ExitPolicy) (quote : Option QuoteSnapshot)
    (bar : Option Bar) : Prop :=
  pos.status.isOpen = true → ∀ trigger limit, pos.trigger policy quote bar = some (trigger, limit) →
    ∀ price ∈ pos.givenLimit trigger limit, 0 < pos.quantity ∧ (price ≤ 0 ∨ 1 / 200 < price)

/-- **An exit closes the position**: it only reduces, it is for the whole of
it, on the other side, at a cent or more. -/
structure ClosedBySignal (pos : Position) (signal : ExitSignal) : Prop where
  position : signal.1 = pos
  reduceOnly : signal.2.1.val.isEntry = false
  positionId : signal.2.1.val.positionId = some pos.positionId
  strategyId : signal.2.1.val.strategyId = pos.strategyId
  contract : signal.2.1.val.contract = pos.contract
  quantity : signal.2.1.val.quantity = pos.quantity
  side : signal.2.1.val.side = pos.side.opposite
  limitPrice : 1 / 100 ≤ signal.2.1.val.limitPrice

theorem exitLimit_eq (trigger : ExitTrigger) (limit : Option Price) :
    pos.exitLimit trigger limit = (pos.givenLimit trigger limit).map
      fun price => roundToCents (if price ≤ 0 then 1 / 100 else price) := rfl

/-- The limit that goes out is positive except for a price of half a cent or
less. -/
theorem exitLimit_pos_iff (price : Price) :
    0 < roundToCents (if price ≤ 0 then 1 / 100 else price) ↔ price ≤ 0 ∨ 1 / 200 < price := by
  rw [roundToCents_pos_iff]
  split_ifs with h
  · exact iff_of_true (by norm_num) (.inl h)
  · exact (or_iff_right h).symm

/-- **The intent is made where quantity and limit are positive.** -/
theorem exitIntent_ok_iff {riskDecisionId : RiskDecisionId} {limitPrice : Price} :
    (∃ intent, pos.exitIntent riskDecisionId limitPrice = .ok intent)
      ↔ 0 < pos.quantity ∧ 0 < limitPrice := by
  unfold exitIntent
  split_ifs with hquantity hlimit
  · exact iff_of_true ⟨_, rfl⟩ ⟨hquantity, hlimit⟩
  · exact iff_of_false (fun ⟨_, h⟩ => by cases h) fun h => hlimit h.2
  · exact iff_of_false (fun ⟨_, h⟩ => by cases h) fun h => hquantity h.1

/-- What the intent of an exit says. -/
theorem closedBySignal_of_exitIntent {riskDecisionId : RiskDecisionId} {limitPrice : Price}
    {intent : ExitIntent} (trigger : ExitTrigger) (hlimit : 1 / 100 ≤ limitPrice)
    (h : pos.exitIntent riskDecisionId limitPrice = .ok intent) :
    pos.ClosedBySignal (pos, intent, trigger) := by
  unfold exitIntent at h
  split_ifs at h
  obtain rfl := Except.ok.inj h
  exact ⟨rfl, rfl, rfl, rfl, rfl, rfl, rfl, hlimit⟩

/-- **A turn of the loop does not raise exactly where the exit of its
position can be made.** -/
theorem exitSignal_ok_iff :
    (∃ signal, pos.exitSignal freshId policy quote bar = .ok signal)
      ↔ pos.Exitable policy quote bar := by
  unfold exitSignal Exitable
  cases hopen : pos.status.isOpen with
  | false => exact iff_of_true ⟨none, rfl⟩ fun h => by cases h
  | true =>
    rw [Bool.not_true, if_neg Bool.false_ne_true]
    cases htrigger : pos.trigger policy quote bar with
    | none => exact iff_of_true ⟨none, rfl⟩ fun _ _ _ h => by cases h
    | some exit =>
      obtain ⟨trigger, limit⟩ := exit
      dsimp only
      rw [exitLimit_eq]
      -- an exit without a limit is passed over, so only one with a limit can raise
      cases hlimit : pos.givenLimit trigger limit with
      | none =>
        refine iff_of_true ⟨none, rfl⟩ fun _ trigger' limit' h price hprice => ?_
        cases h
        rw [hlimit] at hprice
        cases hprice
      | some price =>
        dsimp only [Option.map_some]
        constructor
        · rintro ⟨signal, h⟩ - trigger' limit' htrigger' price' hprice'
          cases htrigger'
          obtain rfl := Option.some.inj (hlimit.symm.trans hprice')
          cases hintent : pos.exitIntent (freshId pos.positionId)
              (roundToCents (if price ≤ 0 then 1 / 100 else price)) with
          | error e =>
            rw [hintent] at h
            cases h
          | ok intent =>
            rw [← exitLimit_pos_iff]
            exact exitIntent_ok_iff.mp ⟨intent, hintent⟩
        · intro h
          have hmade := h rfl trigger limit rfl price hlimit
          rw [← exitLimit_pos_iff] at hmade
          obtain ⟨intent, hintent⟩ := exitIntent_ok_iff.mpr hmade
          exact ⟨some (pos, intent, trigger), by rw [hintent]; rfl⟩

/-- What an exit that is returned is like. -/
theorem closedBySignal_of_exitSignal {signal : ExitSignal}
    (h : pos.exitSignal freshId policy quote bar = .ok (some signal)) :
    pos.ClosedBySignal signal := by
  unfold exitSignal at h
  -- a position that is closed, without a trigger or without a limit has no exit
  split at h
  · cases h
  · split at h
    · cases h
    · split at h
      · cases h
      · rename_i trigger limit _ _ price hlimit
        cases hintent : pos.exitIntent (freshId pos.positionId) price with
        | error e =>
          rw [hintent] at h
          cases h
        | ok intent =>
          rw [hintent] at h
          obtain rfl := Option.some.inj (Except.ok.inj h)
          have hpos := (exitIntent_ok_iff.mp ⟨intent, hintent⟩).2
          rw [exitLimit_eq] at hlimit
          obtain ⟨given, -, rfl⟩ := Option.map_eq_some_iff.mp hlimit
          exact closedBySignal_of_exitIntent trigger (one_cent_le_roundToCents hpos) hintent

end Position

/-! ## The list of positions -/

section Pointwise

variable (floatRepr : Price → String) (freshId : PositionId → RiskDecisionId)
  (positions : List Position) (quotes : QuoteMap) (policy : ExitPolicy) (bars : BarMap)

/-- **`check_exits` is pointwise**: it returns for a list what it returns for
the positions in it, and each exit closes its position. -/
def ExitsPointwise : Prop :=
  ∃ exits : Position → List ExitSignal,
    (∀ pos ∈ positions, checkExits floatRepr freshId [pos] quotes policy bars = .ok (exits pos)
        ∧ ∀ signal ∈ exits pos, pos.ClosedBySignal signal)
      ∧ checkExits floatRepr freshId positions quotes policy bars
        = .ok (positions.flatMap exits)

variable {floatRepr freshId positions quotes policy bars}

/-- Where no turn of the loop raises, its results are collected. -/
theorem checkExits_of_ok {exit : Position → Option ExitSignal}
    (h : ∀ pos ∈ positions, pos.exitSignal freshId policy (pos.contract.lookup floatRepr quotes)
      (pos.contract.lookup floatRepr bars) = .ok (exit pos)) :
    checkExits floatRepr freshId positions quotes policy bars
      = .ok (positions.flatMap fun pos => (exit pos).toList) := by
  unfold checkExits
  rw [List.mapM_eq_of_forall_mem (g := fun pos => pure (exit pos)) h, List.mapM_pure]
  show Except.ok ((positions.map exit).filterMap id) = _
  rw [List.filterMap_map, Function.id_comp, List.filterMap_eq_flatMap_toList]

/-- **The exits are pointwise exactly where each of them can be made.** -/
theorem exitsPointwise_iff :
    ExitsPointwise floatRepr freshId positions quotes policy bars
      ↔ ∀ pos ∈ positions, pos.Exitable policy (pos.contract.lookup floatRepr quotes)
        (pos.contract.lookup floatRepr bars) := by
  constructor
  · rintro ⟨exits, hexits, -⟩ pos hpos
    have hown := (hexits pos hpos).1
    -- the loop over the position alone raises where its one turn does
    rw [checkExits_singleton] at hown
    refine (@Position.exitSignal_ok_iff freshId policy pos _ _).mp ?_
    cases hsignal : pos.exitSignal freshId policy (pos.contract.lookup floatRepr quotes)
        (pos.contract.lookup floatRepr bars) with
    | error e =>
      rw [hsignal] at hown
      cases hown
    | ok signal => exact ⟨signal, rfl⟩
  · intro h
    have hexit : ∀ pos : Position, ∃ exit : Option ExitSignal, pos ∈ positions →
        pos.exitSignal freshId policy (pos.contract.lookup floatRepr quotes)
          (pos.contract.lookup floatRepr bars) = .ok exit := by
      intro pos
      by_cases hpos : pos ∈ positions
      · obtain ⟨exit, hexit⟩ :=
          (@Position.exitSignal_ok_iff freshId policy pos _ _).mpr (h pos hpos)
        exact ⟨exit, fun _ => hexit⟩
      · exact ⟨none, fun hmem => absurd hmem hpos⟩
    choose exit hexit using hexit
    refine ⟨fun pos => (exit pos).toList, fun pos hpos => ⟨?_, fun signal hsignal => ?_⟩,
      checkExits_of_ok hexit⟩
    · rw [checkExits_singleton, hexit pos hpos]
      rfl
    · have hown := hexit pos hpos
      rw [Option.mem_toList.mp hsignal] at hown
      exact Position.closedBySignal_of_exitSignal hown

end Pointwise

/-- The option is worth next to nothing. -/
def worthlessQuote : QuoteSnapshot where
  bid := some (1 / 250)
  ask := some (1 / 100)
  timestamp := 60
  bid_le_ask := by rintro _ ⟨⟩ _ ⟨⟩; norm_num

/-- **A bid of less than half a cent stops the exits**: the call is to be
closed, and its exit cannot be made. -/
theorem not_exitsPointwise :
    ¬ ∀ (floatRepr : Price → String) (freshId : PositionId → RiskDecisionId)
      (positions : List Position) (quotes : QuoteMap) (policy : ExitPolicy) (bars : BarMap),
      ExitsPointwise floatRepr freshId positions quotes policy bars := by
  intro h
  obtain ⟨exits, hexits, -⟩ := h (fun _ => "") id [samplePosition]
    (fun _ => some worthlessQuote) { currentTime := 60, forceFlattenAll := true } fun _ => none
  have hown := (hexits samplePosition (List.mem_singleton_self _)).1
  rw [checkExits_singleton] at hown
  have hraised : (samplePosition.exitSignal id { currentTime := 60, forceFlattenAll := true }
      (some worthlessQuote) none).toOption.isSome = false := by decide +kernel
  have hlookup : samplePosition.contract.lookup (fun _ => "")
      (fun _ => some worthlessQuote : QuoteMap) = some worthlessQuote := rfl
  have hbars : samplePosition.contract.lookup (fun _ => "")
      (fun _ => none : BarMap) = none := rfl
  rw [hlookup, hbars] at hown
  cases hsignal : samplePosition.exitSignal id { currentTime := 60, forceFlattenAll := true }
      (some worthlessQuote) none with
  | error e =>
    rw [hsignal] at hown
    cases hown
  | ok signal =>
    rw [hsignal] at hraised
    cases hraised
