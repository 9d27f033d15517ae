import ExecutionSystem.StrategyParams

/-!
# Whether the parameters stay valid

The validators of `StrategyConfig` and its parts in `src/core/config.py`
run when `strategies.yaml` is loaded, and only then. An update converts a
value to the type of its parameter and assigns it, and the overlay assigns
what it finds. So a value of the right type that the validators would
refuse – no contracts at all, a stop of `-5`, an exit time that is no
time – is live from the command on and after every restart.

The configurations stay valid along a run exactly when every value that a
command assigns is one its own field accepts
(`ParamSession.along_valid_iff`): no constraint is about two parameters,
and none is repaired by the overlay.
-/

/-! ## The constraints -/

/-- `gt=0` on a number. -/
def PyFloat.positive : PyFloat → Bool
  | finite q => 0 < q
  | inf negative => !negative
  | nan => false

/-- `gt=0, lt=1`. -/
def PyFloat.magnitude : PyFloat → Bool
  | finite q => 0 < q ∧ q < 1
  | _ => false

namespace PyValue

variable (py : Builtins)

/-- `Optional[float]` with a constraint. -/
def optionalFloat (ok : PyFloat → Bool) : PyValue → Bool
  | none => true
  | float x => ok x
  | _ => false

/-- `^\d{2}:\d{2}$`. -/
def clockPattern : List Char → Bool
  | [a, b, colon, c, d] =>
    py.isDecimal a && py.isDecimal b && colon = ':' && py.isDecimal c && py.isDecimal d
  | _ => false

/-- **`_parse_hhmm`** accepts the text. -/
def parsesAsTime (text : String) : Bool :=
  match (py.strip text).toList.splitOn ':' with
  | [h, m] =>
    (py.parseInt (String.ofList h)).any fun h => (py.parseInt (String.ofList m)).any fun m =>
      (0 ≤ h ∧ h ≤ 23) ∧ 0 ≤ m ∧ m ≤ 59
  | _ => false

/-- An optional text with a constraint. -/
def optionalText (ok : String → Bool) : PyValue → Bool
  | none => true
  | str s => ok s
  | _ => false

end PyValue

/-- **What the validator of a parameter accepts.** -/
def EditableParam.valid (py : Builtins) (p : EditableParam) (v : PyValue) : Bool :=
  match p with
  | enabled | allowReentry =>
    match v with
    | .bool _ => true
    | _ => false
  | maxContracts =>
    match v with
    | .int n => 0 < n
    | _ => false
  | strikeSelection => v = .str "premium_target" ∨ v = .str "delta_target"
  | entryTime => v.optionalText fun s => PyValue.clockPattern py s.toList
  | timeExitUtc => v.optionalText (PyValue.parsesAsTime py)
  | targetDelta => v.optionalFloat PyFloat.magnitude
  | stopLossPct | takeProfitPct | triggerPct | positionSizingPct | leverage =>
    v.optionalFloat PyFloat.positive

/-- **A configuration that its validators accept.** -/
def StrategyParams.Valid (py : Builtins) (cfg : StrategyParams) : Prop :=
  ∀ p : EditableParam, p.valid py (cfg.get p) = true

/-- A configuration as it is loaded. -/
abbrev ValidParams (py : Builtins) := { cfg : StrategyParams // cfg.Valid py }

/-- All configurations are valid. -/
def StrategyConfigs.Valid (py : Builtins) (configs : StrategyConfigs) : Prop :=
  ∀ sid cfg, configs sid = some cfg → cfg.Valid py

/-- `strategies.yaml`, as it is loaded. -/
def validated {py : Builtins} (base : StrategyId → Option (ValidParams py)) :
    StrategyConfigs := fun sid => (base sid).map Subtype.val

variable {py : Builtins}

theorem valid_validated (base : StrategyId → Option (ValidParams py)) :
    (validated base).Valid py := by
  intro sid cfg h
  obtain ⟨v, -, rfl⟩ := Option.map_eq_some_iff.mp h
  exact v.2

/-- **Assignments leave a valid configuration valid exactly when each value
is valid for its own parameter.** -/
theorem valid_setAll_iff {cs : List (EditableParam × PyValue)}
    (hnodup : (cs.map Prod.fst).Nodup) {cfg : StrategyParams} (hcfg : cfg.Valid py) :
    (cfg.setAll cs).Valid py ↔ ∀ c ∈ cs, c.1.valid py c.2 = true := by
  constructor
  · intro h c hc
    rw [← StrategyParams.get_setAll_of_mem hnodup hc cfg]
    exact h c.1
  · intro h p
    by_cases hp : p ∈ cs.map Prod.fst
    · obtain ⟨c, hc, rfl⟩ := List.mem_map.mp hp
      rw [StrategyParams.get_setAll_of_mem hnodup hc]
      exact h c hc
    · rw [StrategyParams.get_setAll_of_notMem hp]
      exact hcfg p

/-- The configurations stay valid where the one that is assigned to
does. -/
theorem StrategyConfigs.Valid.update {configs : StrategyConfigs} (hvalid : configs.Valid py)
    (sid : StrategyId) {f : StrategyParams → StrategyParams}
    (hf : ∀ cfg, cfg.Valid py → (f cfg).Valid py) :
    StrategyConfigs.Valid py (Function.update configs sid ((configs sid).map f)) := by
  intro id cfg h
  by_cases hid : id = sid
  · subst hid
    rw [Function.update_self] at h
    obtain ⟨old, hold, rfl⟩ := Option.map_eq_some_iff.mp h
    exact hf old (hvalid id old hold)
  · rw [Function.update_of_ne hid] at h
    exact hvalid id cfg h

/-! ## Along a run -/

namespace ParamSession

variable {Text : Type} {yaml : YamlCodec Overlay Text} {base : StrategyConfigs}
  {s t : ParamSession Text} {l : Label}

/-- **Every value the command assigns is valid for its parameter**: before
the first change that is refused, where one is. -/
def AssignsValid (py : Builtins) (s : ParamSession Text) : Label → Prop
  | .update sid changes => s.memory sid ≠ none →
      ∀ c ∈ acceptedChanges py changes.entries, c.1.valid py c.2 = true
  | .restart => True

/-- The configurations in memory are valid, and so are those a restart would
load. -/
structure StaysValid (py : Builtins) (yaml : YamlCodec Overlay Text) (base : StrategyConfigs)
    (s : ParamSession Text) : Prop where
  memory : s.memory.Valid py
  loaded : (load yaml base s.file).Valid py

/-- **A step that assigns valid values keeps everything valid.** -/
theorem StaysValid.step (hs : s.StaysValid py yaml base) (h : step yaml py base s l = some t)
    (hassigns : AssignsValid py s l) : t.StaysValid py yaml base := by
  cases l with
  | restart => obtain rfl := Option.some.inj h; exact ⟨hs.loaded, hs.loaded⟩
  | update sid changes =>
    obtain rfl := Option.some.inj h
    by_cases hsid : s.memory sid = none
    · have hsame : applyStrategyUpdate yaml py s sid changes = (s, .unknownStrategy sid) := by
        rw [applyStrategyUpdate, hsid]
      rw [hsame]
      exact hs
    · have hset : ∀ cfg : StrategyParams, cfg.Valid py →
          (cfg.setAll (acceptedChanges py changes.entries)).Valid py := fun cfg hcfg =>
        (valid_setAll_iff (nodup_acceptedChanges changes.nodupKeys) hcfg).mpr (hassigns hsid)
      constructor
      · rw [memory_update]
        exact hs.memory.update sid hset
      · by_cases hrec : Records yaml py s sid changes
        · rw [load_update hrec hsid]
          exact hs.loaded.update sid hset
        · rw [file_update hrec]
          exact hs.loaded

/-- **A step that leaves the configurations valid has assigned valid
values.** -/
theorem assignsValid_of_valid (h : step yaml py base s l = some t)
    (ht : t.memory.Valid py) : AssignsValid py s l := by
  cases l with
  | restart => trivial
  | update sid changes =>
    obtain rfl := Option.some.inj h
    intro hsid c hc
    obtain ⟨cfg, hcfg⟩ := Option.ne_none_iff_exists'.mp hsid
    have hvalid : (cfg.setAll (acceptedChanges py changes.entries)).Valid py :=
      ht sid _ (by rw [memory_update, Function.update_self, hcfg]; rfl)
    rw [← StrategyParams.get_setAll_of_mem (nodup_acceptedChanges changes.nodupKeys) hc cfg]
    exact hvalid c.1

/-- **The configurations are valid after every command and every restart
exactly when every value that is assigned is valid for its parameter.** -/
theorem along_valid_iff (yaml : YamlCodec Overlay Text) (py : Builtins)
    (base : StrategyId → Option (ValidParams py)) (ls : List Label) :
    (machine yaml py (validated base)).Along (fun _ _ t => t.memory.Valid py)
        (initial yaml (validated base) none) ls
      ↔ (machine yaml py (validated base)).Along (fun s l _ => AssignsValid py s l)
          (initial yaml (validated base) none) ls := by
  constructor
  · intro h
    exact Machine.along_of_step (J := fun _ => True) (fun _ _ _ _ _ _ => trivial)
      (fun _ _ _ _ h ht => assignsValid_of_valid h ht) trivial h
  · refine Machine.along_of_step (J := StaysValid py yaml (validated base))
      (fun _ _ _ hs h hassigns => hs.step h hassigns)
      (fun _ _ _ hs h hassigns => (hs.step h hassigns).memory) ?_
    exact ⟨valid_validated base, valid_validated base⟩

/-- The parameters of the sample are valid. -/
theorem valid_sampleParams : sampleParams.Valid sampleBuiltins := by
  intro p
  cases p <;> decide +kernel

/-- One strategy, as it is loaded. -/
def sampleLoaded : StrategyId → Option (ValidParams sampleBuiltins) := fun sid =>
  if sid = "orb" then some ⟨sampleParams, valid_sampleParams⟩ else none

/-- No contracts at all. -/
def noContracts : PyDict PyValue :=
  ⟨[⟨"entry.max_contracts", .int 0⟩], List.nodupKeys_singleton _⟩

/-- **A command can leave a strategy without contracts.** -/
theorem not_along_valid :
    ¬ ∀ (Text : Type) (yaml : YamlCodec Overlay Text) (py : Builtins)
      (base : StrategyId → Option (ValidParams py)) (ls : List Label),
      (machine yaml py (validated base)).Along (fun _ _ t => t.memory.Valid py)
        (initial yaml (validated base) none) ls := by
  intro h
  obtain ⟨hvalid, -⟩ := h _ (.plain _) sampleBuiltins sampleLoaded [.update "orb" noContracts]
    _ rfl
  have hassigns : AssignsValid sampleBuiltins
      (initial (.plain _) (validated sampleLoaded) none) (.update "orb" noContracts) :=
    @assignsValid_of_valid sampleBuiltins _ (.plain _) (validated sampleLoaded) _ _
      (.update "orb" noContracts) rfl hvalid
  exact absurd (hassigns (Option.some_ne_none _) (.maxContracts, .int 0) (by decide)) (by decide)

end ParamSession
