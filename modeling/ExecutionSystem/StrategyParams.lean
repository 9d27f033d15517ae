import ExecutionSystem.Persistence
import ExecutionSystem.PythonData
import ExecutionSystem.Runner

/-!
# Strategy parameters and their overlay

`_apply_strategy_update` and `_apply_strategy_overrides_file` of
`src/app/runner.py`. The dashboard changes the parameters of a strategy by
`update_strategy`. The update takes the changes one after the other: each
is converted and assigned to the live configuration at once, and the first
that is not editable, or cannot be converted, ends it. Only an update that
comes to its end is recorded in `configs/strategy_overrides.yaml`, which
a restart layers over `strategies.yaml`, key by key and as it is.

So an update that fails part-way leaves what it has assigned in memory and
nowhere else. The configurations in memory are those a restart would load,
after every command of a run, exactly when no command does that
(`ParamSession.along_agrees_iff`).
-/

/-! ## The parameters -/

/-- The entry parameters that can be edited. -/
structure StrategyEntryParams where
  maxContracts : PyValue
  entryTime : PyValue
  triggerPct : PyValue
  strikeSelection : PyValue
  targetDelta : PyValue
  deriving DecidableEq

/-- The exit parameters that can be edited. -/
structure StrategyExitParams where
  stopLossPct : PyValue
  takeProfitPct : PyValue
  timeExitUtc : PyValue
  deriving DecidableEq

/-- **A `StrategyConfig`, as far as it can be edited.** An assignment is not
validated, so a parameter may hold any value. -/
structure StrategyParams where
  enabled : PyValue
  entry : StrategyEntryParams
  exit : StrategyExitParams
  positionSizingPct : PyValue
  leverage : PyValue
  allowReentry : PyValue
  deriving DecidableEq

/-- The keys of `EDITABLE_STRATEGY_PARAMS`. -/
inductive EditableParam where
  | enabled
  | stopLossPct
  | takeProfitPct
  | timeExitUtc
  | maxContracts
  | entryTime
  | triggerPct
  | strikeSelection
  | targetDelta
  | positionSizingPct
  | leverage
  | allowReentry
  deriving DecidableEq

namespace EditableParam

/-- The dotted path of a parameter. -/
def path : EditableParam → String
  | enabled => "enabled"
  | stopLossPct => "exit.stop_loss_pct"
  | takeProfitPct => "exit.take_profit_pct"
  | timeExitUtc => "exit.time_exit_utc"
  | maxContracts => "entry.max_contracts"
  | entryTime => "entry.entry_time"
  | triggerPct => "entry.trigger_pct"
  | strikeSelection => "entry.strike_selection"
  | targetDelta => "entry.target_delta"
  | positionSizingPct => "position_sizing_pct"
  | leverage => "leverage"
  | allowReentry => "allow_reentry"

/-- The parameters, in the order of the table. -/
def all : List EditableParam :=
  [enabled, stopLossPct, takeProfitPct, timeExitUtc, maxContracts, entryTime, triggerPct,
    strikeSelection, targetDelta, positionSizingPct, leverage, allowReentry]

/-- The parameter that a key names. -/
def ofKey (key : String) : Option EditableParam := all.find? (·.path = key)

/-- A key names the parameter whose path it is. -/
theorem ofKey_eq_some_iff {key : String} {p : EditableParam} :
    ofKey key = some p ↔ key = p.path := by
  constructor
  · intro h
    have := List.find?_some h
    exact (of_decide_eq_true this).symm
  · rintro rfl
    cases p <;> decide

theorem path_injective : Function.Injective path := fun _ _ h =>
  Option.some.inj ((ofKey_eq_some_iff.mpr rfl).symm.trans (ofKey_eq_some_iff.mpr h))

/-- **The conversion of a parameter's value.** -/
def coerce (py : Builtins) (p : EditableParam) (raw : PyValue) :
    Except ConversionError PyValue :=
  match p with
  | enabled | allowReentry => .ok (.bool (raw.toBool py))
  | maxContracts => (raw.toInt py).map .int
  | timeExitUtc | entryTime | strikeSelection => .ok (.str (raw.toStr py))
  | stopLossPct | takeProfitPct | triggerPct | targetDelta | positionSizingPct | leverage =>
    (raw.toFloat py).map .float

end EditableParam

namespace StrategyParams

/-- The value at a path. -/
def get (cfg : StrategyParams) : EditableParam → PyValue
  | .enabled => cfg.enabled
  | .stopLossPct => cfg.exit.stopLossPct
  | .takeProfitPct => cfg.exit.takeProfitPct
  | .timeExitUtc => cfg.exit.timeExitUtc
  | .maxContracts => cfg.entry.maxContracts
  | .entryTime => cfg.entry.entryTime
  | .triggerPct => cfg.entry.triggerPct
  | .strikeSelection => cfg.entry.strikeSelection
  | .targetDelta => cfg.entry.targetDelta
  | .positionSizingPct => cfg.positionSizingPct
  | .leverage => cfg.leverage
  | .allowReentry => cfg.allowReentry

/-- The assignment at a path. -/
def set (cfg : StrategyParams) (p : EditableParam) (v : PyValue) : StrategyParams :=
  match p with
  | .enabled => { cfg with enabled := v }
  | .stopLossPct => { cfg with exit := { cfg.exit with stopLossPct := v } }
  | .takeProfitPct => { cfg with exit := { cfg.exit with takeProfitPct := v } }
  | .timeExitUtc => { cfg with exit := { cfg.exit with timeExitUtc := v } }
  | .maxContracts => { cfg with entry := { cfg.entry with maxContracts := v } }
  | .entryTime => { cfg with entry := { cfg.entry with entryTime := v } }
  | .triggerPct => { cfg with entry := { cfg.entry with triggerPct := v } }
  | .strikeSelection => { cfg with entry := { cfg.entry with strikeSelection := v } }
  | .targetDelta => { cfg with entry := { cfg.entry with targetDelta := v } }
  | .positionSizingPct => { cfg with positionSizingPct := v }
  | .leverage => { cfg with leverage := v }
  | .allowReentry => { cfg with allowReentry := v }

@[simp] theorem get_set_self (cfg : StrategyParams) (p : EditableParam) (v : PyValue) :
    (cfg.set p v).get p = v := by
  cases p <;> rfl

theorem get_set_of_ne (cfg : StrategyParams) {p q : EditableParam} (v : PyValue) (h : q ≠ p) :
    (cfg.set p v).get q = cfg.get q := by
  cases p <;> cases q <;> first | rfl | exact absurd rfl h

/-- **A configuration is what its parameters are.** -/
theorem ext_get {cfg cfg' : StrategyParams} (h : ∀ p, cfg.get p = cfg'.get p) : cfg = cfg' := by
  obtain ⟨e, ⟨n, t, g, k, d⟩, ⟨l, w, x⟩, z, v, r⟩ := cfg
  obtain ⟨e', ⟨n', t', g', k', d'⟩, ⟨l', w', x'⟩, z', v', r'⟩ := cfg'
  obtain rfl : e = e' := h .enabled
  obtain rfl : n = n' := h .maxContracts
  obtain rfl : t = t' := h .entryTime
  obtain rfl : g = g' := h .triggerPct
  obtain rfl : k = k' := h .strikeSelection
  obtain rfl : d = d' := h .targetDelta
  obtain rfl : l = l' := h .stopLossPct
  obtain rfl : w = w' := h .takeProfitPct
  obtain rfl : x = x' := h .timeExitUtc
  obtain rfl : z = z' := h .positionSizingPct
  obtain rfl : v = v' := h .leverage
  obtain rfl : r = r' := h .allowReentry
  rfl

/-- Several assignments, one after the other. -/
def setAll (cfg : StrategyParams) (cs : List (EditableParam × PyValue)) : StrategyParams :=
  cs.foldl (fun cfg c => cfg.set c.1 c.2) cfg

theorem setAll_cons (cfg : StrategyParams) (c : EditableParam × PyValue)
    (cs : List (EditableParam × PyValue)) :
    cfg.setAll (c :: cs) = (cfg.set c.1 c.2).setAll cs := rfl

/-- What is not assigned stays. -/
theorem get_setAll_of_notMem {cs : List (EditableParam × PyValue)} {p : EditableParam}
    (hp : p ∉ cs.map Prod.fst) (cfg : StrategyParams) : (cfg.setAll cs).get p = cfg.get p := by
  induction cs generalizing cfg with
  | nil => rfl
  | cons c cs ih =>
    rw [List.map_cons, List.mem_cons, not_or] at hp
    rw [setAll_cons, ih hp.2, get_set_of_ne _ _ hp.1]

/-- What is assigned once is there. -/
theorem get_setAll_of_mem {cs : List (EditableParam × PyValue)}
    (hnodup : (cs.map Prod.fst).Nodup) {c : EditableParam × PyValue} (hc : c ∈ cs)
    (cfg : StrategyParams) : (cfg.setAll cs).get c.1 = c.2 := by
  induction cs generalizing cfg with
  | nil => cases hc
  | cons d cs ih =>
    rw [List.map_cons, List.nodup_cons] at hnodup
    rw [setAll_cons]
    rcases List.mem_cons.mp hc with rfl | hc
    · rw [get_setAll_of_notMem hnodup.1, get_set_self]
    · exact ih hnodup.2 hc _

/-- **Assignments change nothing exactly when each assigns what is there.** -/
theorem setAll_eq_self_iff {cs : List (EditableParam × PyValue)}
    (hnodup : (cs.map Prod.fst).Nodup) (cfg : StrategyParams) :
    cfg.setAll cs = cfg ↔ ∀ c ∈ cs, cfg.get c.1 = c.2 := by
  constructor
  · intro h c hc
    rw [← get_setAll_of_mem hnodup hc cfg, h]
  · intro h
    refine ext_get fun p => ?_
    by_cases hp : p ∈ cs.map Prod.fst
    · obtain ⟨c, hc, rfl⟩ := List.mem_map.mp hp
      rw [get_setAll_of_mem hnodup hc, h c hc]
    · exact get_setAll_of_notMem hp cfg

end StrategyParams

/-! ## An update -/

/-- How an update ends. -/
inductive UpdateOutcome where
  /-- `error: unknown strategy …`. -/
  | unknownStrategy (strategyId : StrategyId)
  /-- `error: param … is not editable`. -/
  | notEditable (key : String)
  /-- `error: bad value … for …`. -/
  | badValue (raw : PyValue) (key : String)
  /-- A conversion raises an exception that is not expected. -/
  | raised
  /-- `error: no changes supplied`. -/
  | noChanges
  /-- `applied …`. -/
  | applied (values : PyDict PyValue)

/-- The outcome is a success. -/
def UpdateOutcome.ok : UpdateOutcome → Bool
  | applied _ => true
  | _ => false

/-- A conversion failed: `ValueError` and `TypeError` are expected. -/
def conversionFailed (key : String) (raw : PyValue) : ConversionError → UpdateOutcome
  | .valueError | .typeError => .badValue raw key
  | .overflowError => .raised

/-- **The loop of an update**: the configuration as it is assigned to, what
has been applied, and what ended the loop early. -/
def applyChanges (py : Builtins) : List (Σ _ : String, PyValue) → StrategyParams →
    PyDict PyValue → StrategyParams × PyDict PyValue × Option UpdateOutcome
  | [], cfg, applied => (cfg, applied, none)
  | ⟨key, raw⟩ :: changes, cfg, applied =>
    match EditableParam.ofKey key with
    | none => (cfg, applied, some (.notEditable key))
    | some p =>
      match p.coerce py raw with
      | .error e => (cfg, applied, some (conversionFailed key raw e))
      | .ok val => applyChanges py changes (cfg.set p val) (applied.insert key val)

/-- A change, where it is accepted. -/
def acceptedChange (py : Builtins) (change : Σ _ : String, PyValue) :
    Option (EditableParam × PyValue) :=
  (EditableParam.ofKey change.1).bind fun p =>
    (p.coerce py change.2).toOption.map fun val => (p, val)

/-- **The changes before the first one that is refused.** -/
def acceptedChanges (py : Builtins) : List (Σ _ : String, PyValue) →
    List (EditableParam × PyValue)
  | [] => []
  | change :: changes =>
    match acceptedChange py change with
    | none => []
    | some c => c :: acceptedChanges py changes

/-- All changes are accepted. -/
def AllAccepted (py : Builtins) (changes : List (Σ _ : String, PyValue)) : Prop :=
  ∀ change ∈ changes, (acceptedChange py change).isSome = true

variable {py : Builtins} {changes : List (Σ _ : String, PyValue)}

/-- A change that is accepted is one of its own key. -/
theorem acceptedChange_path {change : Σ _ : String, PyValue} {c : EditableParam × PyValue}
    (h : acceptedChange py change = some c) : change.1 = c.1.path := by
  obtain ⟨p, hp, h⟩ := Option.bind_eq_some_iff.mp h
  obtain ⟨val, -, rfl⟩ := Option.map_eq_some_iff.mp h
  exact EditableParam.ofKey_eq_some_iff.mp hp

theorem acceptedChange_mk_eq_none {key : String} {raw : PyValue}
    (h : EditableParam.ofKey key = none) : acceptedChange py ⟨key, raw⟩ = none := by
  simp [acceptedChange, h]

theorem acceptedChange_mk {key : String} {raw : PyValue} {p : EditableParam}
    (h : EditableParam.ofKey key = some p) :
    acceptedChange py ⟨key, raw⟩ = (p.coerce py raw).toOption.map fun val => (p, val) := by
  simp [acceptedChange, h]

/-- **What the loop does to the configuration** is the changes before the
first one that is refused. -/
theorem applyChanges_fst (cfg : StrategyParams) (applied : PyDict PyValue) :
    (applyChanges py changes cfg applied).1 = cfg.setAll (acceptedChanges py changes) := by
  induction changes generalizing cfg applied with
  | nil => rfl
  | cons change changes ih =>
    obtain ⟨key, raw⟩ := change
    rw [applyChanges, acceptedChanges]
    cases hp : EditableParam.ofKey key with
    | none => rw [acceptedChange_mk_eq_none hp]; rfl
    | some p =>
      rw [acceptedChange_mk hp]
      dsimp only
      cases hval : p.coerce py raw with
      | error e => rfl
      | ok val => exact ih (cfg.set p val) (applied.insert key val)

/-- **The loop comes to its end exactly when all changes are accepted.** -/
theorem applyChanges_error_eq_none_iff (cfg : StrategyParams) (applied : PyDict PyValue) :
    (applyChanges py changes cfg applied).2.2 = none ↔ AllAccepted py changes := by
  induction changes generalizing cfg applied with
  | nil => exact iff_of_true rfl fun _ h => nomatch h
  | cons change changes ih =>
    obtain ⟨key, raw⟩ := change
    rw [applyChanges, AllAccepted, List.forall_mem_cons]
    cases hp : EditableParam.ofKey key with
    | none =>
      rw [acceptedChange_mk_eq_none hp]
      exact iff_of_false (Option.some_ne_none _) fun h => Bool.noConfusion h.1
    | some p =>
      rw [acceptedChange_mk hp]
      dsimp only
      cases hval : p.coerce py raw with
      | error e => exact iff_of_false (Option.some_ne_none _) fun h => Bool.noConfusion h.1
      | ok val => exact (ih _ _).trans ⟨fun h => ⟨rfl, h⟩, fun h => h.2⟩

/-- The dictionary of some assignments, over another one. -/
def recorded (d : PyDict PyValue) (cs : List (EditableParam × PyValue)) : PyDict PyValue :=
  cs.foldl (fun d c => d.insert c.1.path c.2) d

/-- What has been applied is what was accepted. -/
theorem applyChanges_applied (cfg : StrategyParams) (applied : PyDict PyValue) :
    (applyChanges py changes cfg applied).2.1
      = recorded applied (acceptedChanges py changes) := by
  induction changes generalizing cfg applied with
  | nil => rfl
  | cons change changes ih =>
    obtain ⟨key, raw⟩ := change
    rw [applyChanges, acceptedChanges]
    cases hp : EditableParam.ofKey key with
    | none => rw [acceptedChange_mk_eq_none hp]; rfl
    | some p =>
      rw [acceptedChange_mk hp]
      dsimp only
      cases hval : p.coerce py raw with
      | error e => rfl
      | ok val =>
        obtain rfl := EditableParam.ofKey_eq_some_iff.mp hp
        exact ih (cfg.set p val) (applied.insert p.path val)

/-- An accepted change is to a parameter that has a key. -/
theorem path_mem_keys {p : EditableParam}
    (hp : p ∈ (acceptedChanges py changes).map Prod.fst) : p.path ∈ changes.keys := by
  induction changes with
  | nil => cases hp
  | cons change changes ih =>
    rw [acceptedChanges] at hp
    cases hc : acceptedChange py change with
    | none => rw [hc] at hp; cases hp
    | some c =>
      rw [hc] at hp
      rcases List.mem_cons.mp hp with rfl | hp
      · rw [List.keys_cons, ← acceptedChange_path hc]
        exact List.mem_cons_self
      · rw [List.keys_cons]
        exact List.mem_cons_of_mem _ (ih hp)

/-- The changes of a dictionary are to different parameters. -/
theorem nodup_acceptedChanges (hnodup : changes.NodupKeys) :
    ((acceptedChanges py changes).map Prod.fst).Nodup := by
  induction changes with
  | nil => exact List.nodup_nil
  | cons change changes ih =>
    obtain ⟨hnew, hnodup⟩ := List.nodupKeys_cons.mp hnodup
    rw [acceptedChanges]
    cases hc : acceptedChange py change with
    | none => exact List.nodup_nil
    | some c =>
      refine List.nodup_cons.mpr ⟨fun hmem => hnew ?_, ih hnodup⟩
      rw [acceptedChange_path hc]
      exact path_mem_keys hmem

/-! ## The overlay -/

/-- The entry of a strategy in the overlay file. -/
inductive OverlayEntry where
  | changes (values : PyDict PyValue)
  /-- Anything else: the loader skips it. -/
  | other
  deriving DecidableEq

/-- A document of `strategy_overrides.yaml`. -/
abbrev Overlay := PyDict OverlayEntry

/-- The configurations by strategy. -/
abbrev StrategyConfigs := StrategyId → Option StrategyParams

/-- One key of an overlay entry, assigned as it is. -/
def StrategyParams.layer (cfg : StrategyParams) (change : Σ _ : String, PyValue) :
    StrategyParams :=
  match EditableParam.ofKey change.1 with
  | none => cfg
  | some p => cfg.set p change.2

/-- **The entry of a strategy is layered over its configuration.** -/
def StrategyParams.layered (cfg : StrategyParams) : OverlayEntry → StrategyParams
  | .changes values => values.entries.foldl .layer cfg
  | .other => cfg

/-- **`_apply_strategy_overrides_file`**, where the file can be read. -/
def Overlay.apply (data : Overlay) (configs : StrategyConfigs) : StrategyConfigs :=
  data.entries.foldl (fun configs entry =>
    Function.update configs entry.1 ((configs entry.1).map (·.layered entry.2))) configs

/-- **`data.setdefault(strategy_id, {}).update(applied)`**; it raises where
the entry of the strategy is not a mapping. -/
def Overlay.updated (data : Overlay) (sid : StrategyId) (applied : PyDict PyValue) :
    Option Overlay :=
  match data.lookup sid with
  | none => some (data.insert sid (.changes applied))
  | some (.changes values) => some (data.insert sid (.changes (applied ∪ values)))
  | some .other => none

/-! ### What layering gives -/

/-- A parameter of a layered configuration is the overlay's, where it has
one. -/
theorem get_foldl_layer {l : List (Σ _ : String, PyValue)} (hnodup : l.NodupKeys)
    (cfg : StrategyParams) (p : EditableParam) :
    (l.foldl .layer cfg).get p = (l.dlookup p.path).getD (cfg.get p) := by
  induction l generalizing cfg with
  | nil => rfl
  | cons change l ih =>
    obtain ⟨hnew, hrest⟩ := List.nodupKeys_cons.mp hnodup
    obtain ⟨key, val⟩ := change
    rw [List.foldl_cons, ih hrest]
    by_cases hkey : p.path = key
    · subst hkey
      rw [List.dlookup_cons_eq, List.dlookup_eq_none.mpr hnew, StrategyParams.layer,
        EditableParam.ofKey_eq_some_iff.mpr rfl]
      exact StrategyParams.get_set_self cfg p val
    · rw [List.dlookup_cons_ne _ _ hkey]
      refine congrArg _ ?_
      unfold StrategyParams.layer
      split
      · rfl
      · rename_i q hq
        refine StrategyParams.get_set_of_ne cfg val ?_
        rintro rfl
        exact hkey (EditableParam.ofKey_eq_some_iff.mp hq).symm

theorem get_layered (cfg : StrategyParams) (values : PyDict PyValue) (p : EditableParam) :
    (cfg.layered (.changes values)).get p = (values.lookup p.path).getD (cfg.get p) :=
  get_foldl_layer values.nodupKeys cfg p

/-- **The overlay layers each strategy's entry over its configuration.** -/
theorem Overlay.apply_eq (data : Overlay) (configs : StrategyConfigs) (sid : StrategyId) :
    data.apply configs sid
      = (configs sid).map fun cfg => (data.lookup sid).elim cfg cfg.layered := by
  obtain ⟨l, hnodup⟩ := data
  show l.foldl _ configs sid = (configs sid).map fun cfg => (l.dlookup sid).elim cfg cfg.layered
  induction l generalizing configs with
  | nil => exact Option.map_id'.symm
  | cons entry l ih =>
    obtain ⟨hnew, hrest⟩ := List.nodupKeys_cons.mp hnodup
    obtain ⟨id, e⟩ := entry
    rw [List.foldl_cons, ih _ hrest]
    by_cases hid : sid = id
    · subst hid
      rw [Function.update_self, List.dlookup_cons_eq, List.dlookup_eq_none.mpr hnew,
        Option.map_map]
      rfl
    · rw [Function.update_of_ne hid, List.dlookup_cons_ne _ _ hid]

/-- A dictionary of assignments says of a parameter what they assign. -/
theorem get_setAll_recorded (cs : List (EditableParam × PyValue)) {cfg cfg₀ : StrategyParams}
    {d : PyDict PyValue} (h : ∀ p, cfg.get p = (d.lookup p.path).getD (cfg₀.get p))
    (p : EditableParam) :
    (cfg.setAll cs).get p = ((recorded d cs).lookup p.path).getD (cfg₀.get p) := by
  induction cs generalizing cfg d with
  | nil => exact h p
  | cons c cs ih =>
    refine ih fun q => ?_
    by_cases hq : q = c.1
    · subst hq
      rw [StrategyParams.get_set_self, AList.lookup_insert]
      rfl
    · rw [StrategyParams.get_set_of_ne _ _ hq,
        AList.lookup_insert_ne fun hpath => hq (EditableParam.path_injective hpath), h q]

/-- **What is recorded, layered over a configuration, is what was assigned
to it.** -/
theorem layered_recorded (cs : List (EditableParam × PyValue)) (cfg : StrategyParams) :
    cfg.layered (.changes (recorded ∅ cs)) = cfg.setAll cs :=
  StrategyParams.ext_get fun p => (get_layered cfg _ p).trans
    (get_setAll_recorded cs (fun q => by rw [AList.lookup_empty]; rfl) p).symm

/-- Where nothing is recorded, nothing is assigned. -/
theorem setAll_of_recorded_eq_empty {cs : List (EditableParam × PyValue)}
    (h : recorded ∅ cs = ∅) {cfg : StrategyParams} : cfg.setAll cs = cfg := by
  rw [← layered_recorded, h]
  rfl

/-- Later changes are layered over earlier ones. -/
theorem layered_union (cfg : StrategyParams) (d e : PyDict PyValue) :
    cfg.layered (.changes (d ∪ e)) = (cfg.layered (.changes e)).layered (.changes d) := by
  refine StrategyParams.ext_get fun p => ?_
  rw [get_layered, get_layered, get_layered]
  by_cases hp : p.path ∈ d
  · rw [AList.lookup_union_left hp]
    obtain ⟨val, hval⟩ := Option.isSome_iff_exists.mp (AList.lookup_isSome.mpr hp)
    rw [hval]
    rfl
  · rw [AList.lookup_union_right hp, AList.lookup_eq_none.mpr hp]
    rfl

/-- **What an update records is what a restart layers.** -/
theorem Overlay.apply_updated {data data' : Overlay} {sid : StrategyId}
    {cs : List (EditableParam × PyValue)} (h : data.updated sid (recorded ∅ cs) = some data')
    (configs : StrategyConfigs) :
    data'.apply configs
      = Function.update (data.apply configs) sid
          ((data.apply configs sid).map (·.setAll cs)) := by
  have hentry : ∃ e, data' = data.insert sid e ∧ ∀ cfg : StrategyParams,
      cfg.layered e = ((data.lookup sid).elim cfg cfg.layered).setAll cs := by
    unfold Overlay.updated at h
    split at h
    · rename_i hnone
      refine ⟨_, (Option.some.inj h).symm, fun cfg => ?_⟩
      rw [hnone, layered_recorded]
      rfl
    · rename_i values hvalues
      refine ⟨_, (Option.some.inj h).symm, fun cfg => ?_⟩
      rw [hvalues, layered_union, layered_recorded]
      rfl
    · cases h
  obtain ⟨e, rfl, he⟩ := hentry
  funext id
  by_cases hid : id = sid
  · subst hid
    rw [Function.update_self, Overlay.apply_eq, Overlay.apply_eq, AList.lookup_insert,
      Option.map_map]
    exact congrArg (fun f => (configs id).map f) (funext he)
  · rw [Function.update_of_ne hid, Overlay.apply_eq, Overlay.apply_eq,
      AList.lookup_insert_ne hid]

/-! ## The file, the commands and the restarts -/

/-- **The configurations in memory, beside the overlay file**, which may not
exist yet. -/
abbrev ParamSession (Text : Type) := Persisted StrategyConfigs (Option Text)

namespace ParamSession

variable {Text : Type}

/-- What can happen next. -/
inductive Label where
  /-- `update_strategy`. -/
  | update (sid : StrategyId) (changes : PyDict PyValue)
  /-- The runner starts again. -/
  | restart

section Step

variable (yaml : YamlCodec Overlay Text) (py : Builtins) (base : StrategyConfigs)

/-- The overlay on disk; `none` where the file cannot be read. A file is taken to be
either that or a mapping: on a document of another kind the loader raises, and no
runner starts. -/
def readOverlay : Option Text → Option Overlay
  | none => some ∅
  | some text => yaml.safeLoad text

/-- **What a restart loads**: `strategies.yaml`, and the overlay over it
where that can be read. -/
def load (file : Option Text) : StrategyConfigs :=
  (readOverlay yaml file).elim base (·.apply base)

/-- The update is recorded in the file; whatever is raised there is
logged. -/
def persist (s : ParamSession Text) (sid : StrategyId) (applied : PyDict PyValue) :
    ParamSession Text :=
  match (readOverlay yaml s.file).bind (·.updated sid applied) with
  | none => s
  | some data => { s with file := some (yaml.dump data) }

/-- **`_apply_strategy_update`.** -/
def applyStrategyUpdate (s : ParamSession Text) (sid : StrategyId)
    (changes : PyDict PyValue) : ParamSession Text × UpdateOutcome :=
  match s.memory sid with
  | none => (s, .unknownStrategy sid)
  | some cfg =>
    let result := applyChanges py changes.entries cfg ∅
    let s := s.assign (Function.update s.memory sid (some result.1))
    match result.2.2 with
    | some outcome => (s, outcome)
    | none =>
      if result.2.1 = ∅ then (s, .noChanges)
      else (persist yaml s sid result.2.1, .applied result.2.1)

/-- **One step.** -/
def step (s : ParamSession Text) : Label → Option (ParamSession Text)
  | .update sid changes => some (applyStrategyUpdate yaml py s sid changes).1
  | .restart => some (s.assign (load yaml base s.file))

/-- The runner and its restarts, on the commands of a dashboard. -/
def machine : Machine (ParamSession Text) Label where
  step := step yaml py base

/-- The runner has just started. -/
def initial (file : Option Text) : ParamSession Text := ⟨load yaml base file, file⟩

/-- The command fails. -/
def Fails (s : ParamSession Text) : Label → Prop
  | .update sid changes => (applyStrategyUpdate yaml py s sid changes).2.ok = false
  | .restart => False

/-- **Memory is what a restart would load, and a command that fails has
changed nothing.** -/
def Agrees (s : ParamSession Text) (l : Label) (t : ParamSession Text) : Prop :=
  t.Saved (fun file => some (load yaml base file))
    ∧ (Fails yaml py s l → t.memory = s.memory)

/-- The update comes to its end, and the overlay can be read and takes
it. -/
def Records (s : ParamSession Text) (sid : StrategyId) (changes : PyDict PyValue) : Prop :=
  AllAccepted py changes.entries
    ∧ ∃ data, readOverlay yaml s.file = some data ∧ data.lookup sid ≠ some .other

/-- **The update is recorded, or what it assigns is there already**: before
the first change that is refused, where one is. -/
def Clean (s : ParamSession Text) : Label → Prop
  | .update sid changes => ∀ cfg, s.memory sid = some cfg →
      Records yaml py s sid changes
        ∨ ∀ c ∈ acceptedChanges py changes.entries, cfg.get c.1 = c.2
  | .restart => True

end Step

variable {yaml : YamlCodec Overlay Text} {py : Builtins} {base : StrategyConfigs}
  {s t : ParamSession Text} {l : Label} {sid : StrategyId} {changes : PyDict PyValue}

/-! ### What an update does -/

@[simp] theorem memory_persist (applied : PyDict PyValue) :
    (persist yaml s sid applied).memory = s.memory := by
  unfold persist
  split <;> rfl

/-- **The configurations after an update**: the changes before the first
one that is refused are assigned. -/
theorem memory_update :
    (applyStrategyUpdate yaml py s sid changes).1.memory
      = Function.update s.memory sid
          ((s.memory sid).map (·.setAll (acceptedChanges py changes.entries))) := by
  unfold applyStrategyUpdate
  cases hcfg : s.memory sid with
  | none => exact (hcfg ▸ Function.update_eq_self sid s.memory).symm
  | some cfg =>
    rw [Option.map_some, ← applyChanges_fst cfg ∅]
    dsimp only
    split
    · rfl
    · split_ifs
      · rfl
      · exact memory_persist _

/-- An update that is not recorded leaves the file. -/
theorem file_update (h : ¬ Records yaml py s sid changes) :
    (applyStrategyUpdate yaml py s sid changes).1.file = s.file := by
  unfold applyStrategyUpdate
  cases hcfg : s.memory sid with
  | none => rfl
  | some cfg =>
    dsimp only
    split
    · rfl
    · rename_i hend
      split_ifs
      · rfl
      · have hall := (applyChanges_error_eq_none_iff cfg ∅).mp hend
        unfold persist
        split
        · rfl
        · rename_i data' hdata'
          obtain ⟨data, hdata, hnew⟩ := Option.bind_eq_some_iff.mp hdata'
          refine absurd ⟨hall, data, hdata, fun hother => ?_⟩ h
          rw [Overlay.updated, hother] at hnew
          cases hnew

/-- **A restart after a recorded update loads the same assignments.** -/
theorem load_update (h : Records yaml py s sid changes) (hsid : s.memory sid ≠ none) :
    load yaml base (applyStrategyUpdate yaml py s sid changes).1.file
      = Function.update (load yaml base s.file) sid
          ((load yaml base s.file sid).map
            (·.setAll (acceptedChanges py changes.entries))) := by
  obtain ⟨hall, data, hdata, hentry⟩ := h
  have hload : load yaml base s.file = data.apply base := by rw [load, hdata]; rfl
  obtain ⟨cfg, hcfg⟩ := Option.ne_none_iff_exists'.mp hsid
  unfold applyStrategyUpdate
  rw [hcfg]
  dsimp only
  rw [(applyChanges_error_eq_none_iff cfg ∅).mpr hall, applyChanges_applied]
  dsimp only
  split_ifs with hempty
  · -- nothing is assigned, and nothing written
    rw [show (fun x : StrategyParams => x.setAll (acceptedChanges py changes.entries)) = id from
      funext fun x => setAll_of_recorded_eq_empty hempty, Option.map_id, id,
      Function.update_eq_self]
    rfl
  · have hnew : ∃ data', data.updated sid
        (recorded ∅ (acceptedChanges py changes.entries)) = some data' := by
      unfold Overlay.updated
      cases hlookup : data.lookup sid with
      | none => exact ⟨_, rfl⟩
      | some e =>
        cases e with
        | changes values => exact ⟨_, rfl⟩
        | other => exact absurd hlookup hentry
    obtain ⟨data', hdata'⟩ := hnew
    rw [hload, ← Overlay.apply_updated hdata' base, persist, Persisted.file_assign, hdata,
      Option.bind_some, hdata']
    show (yaml.safeLoad (yaml.dump data')).elim base (·.apply base) = data'.apply base
    rw [yaml.safeLoad_dump]
    rfl

/-- What is assigned is there already. -/
theorem update_eq_self_iff {cfg : StrategyParams} (hcfg : s.memory sid = some cfg) :
    (applyStrategyUpdate yaml py s sid changes).1.memory = s.memory
      ↔ ∀ c ∈ acceptedChanges py changes.entries, cfg.get c.1 = c.2 := by
  rw [memory_update, Function.update_eq_self_iff, hcfg, Option.map_some, Option.some.injEq]
  exact StrategyParams.setAll_eq_self_iff (nodup_acceptedChanges changes.nodupKeys) cfg

/-! ### Whether memory and file agree -/

/-- **A step keeps them in agreement exactly when it records its update, or
assigns what is there already.** -/
theorem saved_step_iff (hs : s.Saved fun file => some (load yaml base file))
    (h : step yaml py base s l = some t) :
    (t.Saved fun file => some (load yaml base file)) ↔ Clean yaml py s l := by
  cases l with
  | restart => obtain rfl := Option.some.inj h; exact iff_of_true rfl trivial
  | update sid changes =>
    obtain rfl := Option.some.inj h
    have hload : load yaml base s.file = s.memory := Option.some.inj hs
    show some (load yaml base (applyStrategyUpdate yaml py s sid changes).1.file)
      = some (applyStrategyUpdate yaml py s sid changes).1.memory ↔ _
    rw [Option.some.injEq]
    cases hcfg : s.memory sid with
    | none =>
      have hsame : applyStrategyUpdate yaml py s sid changes = (s, .unknownStrategy sid) := by
        rw [applyStrategyUpdate, hcfg]
      refine iff_of_true (hsame ▸ hload) fun cfg h => ?_
      rw [hcfg] at h
      cases h
    | some cfg =>
      have hclean : Clean yaml py s (.update sid changes)
          ↔ Records yaml py s sid changes
            ∨ ∀ c ∈ acceptedChanges py changes.entries, cfg.get c.1 = c.2 :=
        ⟨fun h => h cfg hcfg, fun h cfg' hcfg' => Option.some.inj (hcfg.symm.trans hcfg') ▸ h⟩
      rw [hclean]
      by_cases hrec : Records yaml py s sid changes
      · refine iff_of_true ?_ (.inl hrec)
        rw [load_update hrec (by rw [hcfg]; exact Option.some_ne_none cfg), hload, memory_update]
      · rw [file_update hrec, hload, eq_comm, update_eq_self_iff hcfg]
        exact ⟨.inr, fun h => h.resolve_left hrec⟩

/-- An update that comes to its end fails only where it has no changes. -/
theorem recorded_of_fails {cfg : StrategyParams} (hrec : Records yaml py s sid changes)
    (hcfg : s.memory sid = some cfg) (hfails : Fails yaml py s (.update sid changes)) :
    recorded ∅ (acceptedChanges py changes.entries) = ∅ := by
  by_contra hsome
  rw [Fails, applyStrategyUpdate, hcfg] at hfails
  dsimp only at hfails
  rw [(applyChanges_error_eq_none_iff cfg ∅).mpr hrec.1, applyChanges_applied] at hfails
  dsimp only at hfails
  rw [if_neg hsome] at hfails
  cases hfails

/-- A command that fails, and assigns nothing that is not recorded, assigns
nothing. -/
theorem Clean.memory_of_fails (hclean : Clean yaml py s l) (hfails : Fails yaml py s l)
    (h : step yaml py base s l = some t) : t.memory = s.memory := by
  cases l with
  | restart => exact hfails.elim
  | update sid changes =>
    obtain rfl := Option.some.inj h
    show (applyStrategyUpdate yaml py s sid changes).1.memory = s.memory
    cases hcfg : s.memory sid with
    | none => rw [memory_update, hcfg, Option.map_none, ← hcfg, Function.update_eq_self]
    | some cfg =>
      rcases hclean cfg hcfg with hrec | hsame
      · rw [memory_update, hcfg, Option.map_some,
          setAll_of_recorded_eq_empty (recorded_of_fails hrec hcfg hfails), ← hcfg,
          Function.update_eq_self]
      · exact (update_eq_self_iff hcfg).mpr hsame

theorem saved_initial (file : Option Text) :
    (initial yaml base file).Saved fun file => some (load yaml base file) := rfl

/-- **Memory and file agree after every command, and a command that fails
changes nothing, exactly when every command is recorded or assigns what is
there already.** -/
theorem along_agrees_iff (yaml : YamlCodec Overlay Text) (py : Builtins)
    (base : StrategyConfigs) (file : Option Text) (ls : List Label) :
    (machine yaml py base).Along (Agrees yaml py base) (initial yaml base file) ls
      ↔ (machine yaml py base).Along (fun s l _ => Clean yaml py s l)
          (initial yaml base file) ls := by
  constructor
  · intro h
    have htarget := @Machine.along_target_iff _ _ (machine yaml py base) (fun _ => True)
      (fun s l _ => Clean yaml py s l)
      (fun s => s.Saved fun file => some (load yaml base file)) (fun _ _ _ _ _ => trivial)
      (fun _ _ _ _ hs h => saved_step_iff hs h) _ ls trivial (saved_initial file)
    exact htarget.mp (h.mono fun _ _ _ hagrees => hagrees.1)
  · refine Machine.along_of_step
      (J := fun s : ParamSession Text => s.Saved fun file => some (load yaml base file))
      (fun _ _ _ hs h hclean => (saved_step_iff hs h).mpr hclean) ?_ (saved_initial file)
    exact fun _ _ _ hs h hclean =>
      ⟨(saved_step_iff hs h).mpr hclean, fun hfails => hclean.memory_of_fails hfails h⟩

end ParamSession

/-! ## A strategy that is disabled and then renamed -/

/-- The defaults, and five contracts. -/
def sampleParams : StrategyParams where
  enabled := .bool true
  entry := ⟨.int 5, .none, .none, .str "premium_target", .none⟩
  exit := ⟨.none, .none, .none⟩
  positionSizingPct := .float (.finite (1 / 40))
  leverage := .float (.finite 12)
  allowReentry := .bool false

/-- A strategy with these parameters. -/
def sampleBase : StrategyConfigs := fun sid => if sid = "orb" then some sampleParams else none

/-- The first change can be made, and the second one not. -/
def failingChanges : PyDict PyValue :=
  ⟨[⟨"enabled", .bool false⟩, ⟨"signal_source", .str "evil"⟩],
    show ["enabled", "signal_source"].Nodup by decide⟩

namespace ParamSession

/-- **A command that fails disables the strategy until the next restart.** -/
theorem not_along_agrees :
    ¬ ∀ (Text : Type) (yaml : YamlCodec Overlay Text) (py : Builtins) (base : StrategyConfigs)
      (file : Option Text) (ls : List Label),
      (machine yaml py base).Along (Agrees yaml py base) (initial yaml base file) ls := by
  intro h
  obtain ⟨⟨hsaved, -⟩, -⟩ := h _ (.plain _) sampleBuiltins sampleBase none
    [.update "orb" failingChanges] _ rfl
  have hclean : Clean (.plain _) sampleBuiltins (initial (.plain _) sampleBase none)
      (.update "orb" failingChanges) :=
    (saved_step_iff (saved_initial none) rfl).mp hsaved
  rcases hclean sampleParams rfl with ⟨hall, -⟩ | hsame
  · exact absurd (hall ⟨"signal_source", .str "evil"⟩ (by decide)) (by decide)
  · exact absurd (hsame (.enabled, .bool false) (by decide)) (by decide)

end ParamSession

/-! ## The runner's own view

The runner model has the parameters it reads itself as typed values
(`StrategyConfig`), and an update as the list of changes to them
(`ParamChange`). That update is this one, seen through the values that the
view has. -/

/-- The change of the view that a parameter's new value is. -/
def EditableParam.viewed : EditableParam → PyValue → Option ParamChange
  | enabled, .bool b => some (.enabled b)
  | allowReentry, .bool b => some (.allowReentry b)
  | stopLossPct, .float (.finite q) => some (.stopLossPct q)
  | takeProfitPct, .float (.finite q) => some (.takeProfitPct q)
  | timeExitUtc, .str text => some (.timeExit text)
  | entryTime, .str text => some (.entryTime text)
  | maxContracts, _ | triggerPct, _ | strikeSelection, _ | targetDelta, _
  | positionSizingPct, _ | leverage, _ => some .ofProvider
  | _, _ => none

/-- A change as the runner model has it. -/
def viewedChange (py : Builtins) (change : Σ _ : String, PyValue) : ParamChange :=
  ((acceptedChange py change).bind fun c => c.1.viewed c.2).getD .refused

/-- **The view of a configuration.** -/
structure StrategyConfig.Views (cfg : StrategyConfig) (params : StrategyParams) : Prop where
  enabled : params.enabled = .bool cfg.enabled
  allowReentry : params.allowReentry = .bool cfg.allowReentry
  stopLossPct : params.exit.stopLossPct = cfg.stopLossPct.elim .none (.float ∘ .finite)
  takeProfitPct : params.exit.takeProfitPct = cfg.takeProfitPct.elim .none (.float ∘ .finite)
  timeExit : params.exit.timeExitUtc = cfg.timeExit.elim .none .str
  entryTime : params.entry.entryTime = cfg.entryTime.elim .none .str

/-- An assignment is a change of the view. -/
theorem StrategyConfig.Views.changed {cfg : StrategyConfig} {params : StrategyParams}
    (h : cfg.Views params) {p : EditableParam} {v : PyValue} {change : ParamChange}
    (hview : p.viewed v = some change) : (cfg.changed change).Views (params.set p v) := by
  obtain ⟨h₁, h₂, h₃, h₄, h₅, h₆⟩ := h
  unfold EditableParam.viewed at hview
  split at hview
  all_goals first
    | (obtain rfl := Option.some.inj hview; constructor <;> first | rfl | assumption)
    | cases hview

theorem EditableParam.viewed_ne_refused {p : EditableParam} {v : PyValue} :
    p.viewed v ≠ some .refused := by
  unfold viewed
  split <;> rintro ⟨⟩

/-- **The update of the runner model is the update.** -/
theorem StrategyConfig.Views.updated {py : Builtins} {changes : List (Σ _ : String, PyValue)}
    (hviewed : ∀ c ∈ acceptedChanges py changes, (c.1.viewed c.2).isSome = true)
    {cfg : StrategyConfig} {params : StrategyParams} (h : cfg.Views params) :
    (cfg.updated (changes.map (viewedChange py))).Views
      (params.setAll (acceptedChanges py changes)) := by
  induction changes generalizing cfg params with
  | nil => exact h
  | cons change changes ih =>
    rw [acceptedChanges] at hviewed ⊢
    cases hc : acceptedChange py change with
    | none =>
      have hrefused : viewedChange py change = .refused := by rw [viewedChange, hc]; rfl
      rw [StrategyConfig.updated, List.map_cons, hrefused]
      exact h
    | some c =>
      rw [hc] at hviewed
      obtain ⟨view, hview⟩ := Option.isSome_iff_exists.mp (hviewed c List.mem_cons_self)
      have hchange : viewedChange py change = view := by
        rw [viewedChange, hc, Option.bind_some, hview]
        rfl
      have hkept : view ≠ .refused := fun heq => EditableParam.viewed_ne_refused (heq ▸ hview)
      have hrest := ih (fun d hd => hviewed d (List.mem_cons_of_mem _ hd)) (h.changed hview)
      rw [StrategyConfig.updated, List.map_cons, hchange, List.takeWhile_cons_of_pos
        (by cases view <;> first | rfl | exact absurd rfl hkept)]
      exact hrest
