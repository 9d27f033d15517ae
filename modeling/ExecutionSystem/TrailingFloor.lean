import ExecutionSystem.TriggerFreshness
import Mathlib.Data.List.Induction
import Mathlib.Order.Bounds.Basic

/-!
# The trailing floor of the breakout

The trail variant locks a floor under the premium of its option: for every
20 % of the entry that the peak has risen, the floor rises by 15 %. It is
computed from the peak so far, and only then the peak follows the mid.

The floor of a context is therefore a function of the mids it has seen, less
the last (`PositionContext.Trails`). It only rises, since the peak only
rises (`PositionContext.floorFrom_mono`), and it is below the peak it was
computed from, since the lock is smaller than the step
(`PositionContext.floorFrom_lt`). An exit check passes every position once,
so a position is flagged by its own check alone (`EmaSession.trailing`).
-/

/-- The highest of the entry and the mids. -/
def peakOver (entry : Price) (mids : List Price) : Price := mids.foldl max entry

theorem peakOver_snoc (entry : Price) (mids : List Price) (mid : Price) :
    peakOver entry (mids ++ [mid]) = max (peakOver entry mids) mid := by
  rw [peakOver, List.foldl_append]
  rfl

/-- It is one of them, and none is higher. -/
theorem isGreatest_peakOver (entry : Price) (mids : List Price) :
    IsGreatest {price | price ∈ entry :: mids} (peakOver entry mids) := by
  induction mids using List.reverseRecOn with
  | nil => exact ⟨List.mem_cons_self, fun _ h => (List.mem_singleton.mp h).le⟩
  | append_singleton mids mid ih =>
    -- the last mid is one price more, and the peak is its maximum with the old one
    have hset : {price | price ∈ entry :: (mids ++ [mid])}
        = {price | price ∈ entry :: mids} ∪ {mid} := by
      ext price
      simp only [Set.mem_ofPred_eq, Set.mem_union, Set.mem_singleton_iff, List.mem_cons,
        List.mem_append, List.not_mem_nil, or_false, or_assoc]
    rw [hset, peakOver_snoc]
    exact ih.union isGreatest_singleton

theorem le_peakOver (entry : Price) (mids : List Price) : entry ≤ peakOver entry mids :=
  (isGreatest_peakOver entry mids).2 List.mem_cons_self

/-- The peak only rises. -/
theorem peakOver_mono {entry : Price} {seen mids : List Price} (h : seen <+: mids) :
    peakOver entry seen ≤ peakOver entry mids := by
  obtain ⟨later, rfl⟩ := h
  induction later using List.reverseRecOn with
  | nil => rw [List.append_nil]
  | append_singleton later mid ih =>
    rw [← List.append_assoc, peakOver_snoc]
    exact ih.trans (le_max_left _ _)

namespace PositionContext

/-! ## The floor of a peak -/

section Floor

variable {stepPct lockPct : ℚ} {entry peak peak' floor : Price}

/-- The whole steps that the peak is above the entry. -/
def stepsAbove (stepPct : ℚ) (entry peak : Price) : ℤ := ⌊(peak - entry) / (entry * stepPct)⌋

/-- From the entry on, the steps are counted by the floor of the quotient. -/
theorem floorFrom_eq (hentry : 0 < entry) (hstep : 0 < stepPct) (hpeak : entry ≤ peak) :
    floorFrom stepPct lockPct entry peak = if 0 < stepsAbove stepPct entry peak then
      some (entry + stepsAbove stepPct entry peak * (entry * lockPct)) else none := by
  have hne : peak ≠ 0 := (hentry.trans_le hpeak).ne'
  have hnonneg : 0 ≤ (peak - entry) / (entry * stepPct) :=
    div_nonneg (sub_nonneg.mpr hpeak) (mul_pos hentry hstep).le
  simp only [floorFrom, if_pos hne, PyValue.truncate, if_pos hnonneg, stepsAbove]
  rfl

/-- A whole step above the entry is the peak that locks a first floor. -/
theorem stepsAbove_pos_iff (hentry : 0 < entry) (hstep : 0 < stepPct) :
    0 < stepsAbove stepPct entry peak ↔ entry + entry * stepPct ≤ peak := by
  have hone : (0 : ℤ) < ⌊(peak - entry) / (entry * stepPct)⌋
      ↔ (1 : ℤ) ≤ ⌊(peak - entry) / (entry * stepPct)⌋ := Iff.rfl
  rw [stepsAbove, hone, Int.le_floor, Int.cast_one, one_le_div (mul_pos hentry hstep)]
  exact le_sub_iff_add_le'

/-- The steps stay below the peak. -/
theorem stepsAbove_mul_le (hentry : 0 < entry) (hstep : 0 < stepPct) :
    stepsAbove stepPct entry peak * (entry * stepPct) ≤ peak - entry :=
  (le_div_iff₀ (mul_pos hentry hstep)).mp (Int.floor_le _)

theorem stepsAbove_mono (hentry : 0 < entry) (hstep : 0 < stepPct) (h : peak ≤ peak') :
    stepsAbove stepPct entry peak ≤ stepsAbove stepPct entry peak' :=
  Int.floor_le_floor
    (div_le_div_of_nonneg_right (sub_le_sub_right h entry) (mul_pos hentry hstep).le)

/-- **No floor is locked below the first step.** -/
theorem floorFrom_eq_none_iff (hentry : 0 < entry) (hstep : 0 < stepPct)
    (hpeak : entry ≤ peak) :
    floorFrom stepPct lockPct entry peak = none ↔ peak < entry + entry * stepPct := by
  rw [floorFrom_eq hentry hstep hpeak, ite_eq_right_iff, ← @not_le _ _ _ peak,
    ← stepsAbove_pos_iff hentry hstep]
  exact ⟨fun h hpos => Option.some_ne_none _ (h hpos), fun h hpos => absurd hpos h⟩

theorem floorFrom_eq_some (hentry : 0 < entry) (hstep : 0 < stepPct) (hpeak : entry ≤ peak)
    (h : floorFrom stepPct lockPct entry peak = some floor) :
    0 < stepsAbove stepPct entry peak
      ∧ floor = entry + stepsAbove stepPct entry peak * (entry * lockPct) := by
  rw [floorFrom_eq hentry hstep hpeak] at h
  obtain ⟨hpos, h⟩ := Option.ite_none_right_eq_some.mp h
  exact ⟨hpos, (Option.some.inj h).symm⟩

/-- **A floor is a lock above the entry at least.** -/
theorem le_floorFrom (hentry : 0 < entry) (hstep : 0 < stepPct) (hlock : 0 ≤ lockPct)
    (hpeak : entry ≤ peak) (h : floorFrom stepPct lockPct entry peak = some floor) :
    entry + entry * lockPct ≤ floor := by
  obtain ⟨hpos, rfl⟩ := floorFrom_eq_some hentry hstep hpeak h
  have hone : (1 : ℚ) ≤ stepsAbove stepPct entry peak := by exact_mod_cast hpos
  have := le_mul_of_one_le_left (mul_nonneg hentry.le hlock) hone
  linarith

/-- **A floor is below its peak**, since a lock is less than a step. -/
theorem floorFrom_lt (hentry : 0 < entry) (hlock : lockPct < stepPct) (hstep : 0 < stepPct)
    (hpeak : entry ≤ peak) (h : floorFrom stepPct lockPct entry peak = some floor) :
    floor < peak := by
  obtain ⟨hpos, rfl⟩ := floorFrom_eq_some hentry hstep hpeak h
  have hsteps : (0 : ℚ) < stepsAbove stepPct entry peak := by exact_mod_cast hpos
  calc entry + stepsAbove stepPct entry peak * (entry * lockPct)
      < entry + stepsAbove stepPct entry peak * (entry * stepPct) :=
        (add_lt_add_iff_left entry).mpr
          (mul_lt_mul_of_pos_left (mul_lt_mul_of_pos_left hlock hentry) hsteps)
    _ ≤ peak := by linarith [@stepsAbove_mul_le _ _ peak hentry hstep]

/-- **A higher peak locks no lower floor.** -/
theorem floorFrom_mono (hentry : 0 < entry) (hstep : 0 < stepPct) (hlock : 0 ≤ lockPct)
    (hpeak : entry ≤ peak) (hle : peak ≤ peak')
    (h : floorFrom stepPct lockPct entry peak = some floor) :
    ∃ floor', floorFrom stepPct lockPct entry peak' = some floor' ∧ floor ≤ floor' := by
  obtain ⟨hpos, rfl⟩ := floorFrom_eq_some hentry hstep hpeak h
  have hsteps := stepsAbove_mono hentry hstep hle
  refine ⟨_, (floorFrom_eq hentry hstep (hpeak.trans hle)).trans (if_pos (hpos.trans_le hsteps)),
    ?_⟩
  have hcast : (stepsAbove stepPct entry peak : ℚ) ≤ stepsAbove stepPct entry peak' := by
    exact_mod_cast hsteps
  have := mul_le_mul_of_nonneg_right hcast (mul_nonneg hentry.le hlock)
  linarith

end Floor

/-! ## The floor of a context -/

/-- **The peak and the floor follow the mids**: the floor is that of the peak
before the last of them. -/
structure Trails (ctx : PositionContext) : Prop where
  peak : ctx.peakPrice = peakOver ctx.entryPrice ctx.midsSeen
  floor : ctx.lockedFloor = floorFrom (1 / 5) (3 / 20) ctx.entryPrice
    (peakOver ctx.entryPrice ctx.midsSeen.dropLast)

variable {ctx : PositionContext} {params : EmaParams} {now : Time} {market : ExitMarket}
  {pos : Position}

/-- A new context has seen no mid. -/
theorem trails_newContext (sid : StrategyId) (pos : Position) (pending : Option PendingContext)
    (hentry : 0 < (XSP5EMAStrategyProvider.newContext sid pos pending).entryPrice) :
    (XSP5EMAStrategyProvider.newContext sid pos pending).Trails := by
  have hnone : ∀ entry : Price, 0 < entry → floorFrom (1 / 5) (3 / 20) entry entry = none := by
    intro entry hpos
    rw [floorFrom_eq_none_iff hpos (by norm_num) le_rfl]
    linarith
  cases pending with
  | none => exact ⟨rfl, (hnone _ hentry).symm⟩
  | some pending => exact ⟨rfl, (hnone _ hentry).symm⟩

/-- **A mid is trailed**: the floor is that of the peak before it. -/
theorem Trails.trailed (h : ctx.Trails) (hentry : 0 < ctx.entryPrice) (mid : Price) :
    (ctx.trailed (1 / 5) (3 / 20) ctx.entryPrice mid).Trails := by
  refine ⟨?_, ?_⟩
  · show (if ctx.peakPrice < mid then mid else ctx.peakPrice)
      = peakOver ctx.entryPrice (ctx.midsSeen ++ [mid])
    rw [peakOver_snoc, ← h.peak]
    split_ifs with hlt
    · exact (max_eq_right hlt.le).symm
    · exact (max_eq_left (not_lt.mp hlt)).symm
  · show (floorFrom (1 / 5) (3 / 20) ctx.entryPrice ctx.peakPrice).or ctx.lockedFloor
      = floorFrom (1 / 5) (3 / 20) ctx.entryPrice
        (peakOver ctx.entryPrice (ctx.midsSeen ++ [mid]).dropLast)
    rw [List.dropLast_concat, h.peak]
    cases hnew : floorFrom (1 / 5) (3 / 20) ctx.entryPrice
        (peakOver ctx.entryPrice ctx.midsSeen) with
    | some floor => rfl
    | none =>
      -- no floor now, and none of a lower peak before
      rw [Option.none_or, h.floor]
      cases hold : floorFrom (1 / 5) (3 / 20) ctx.entryPrice
          (peakOver ctx.entryPrice ctx.midsSeen.dropLast) with
      | none => rfl
      | some floor =>
        obtain ⟨floor', hfloor', -⟩ := floorFrom_mono hentry (by norm_num) (by norm_num)
          (le_peakOver _ _) (peakOver_mono (List.dropLast_prefix _)) hold
        rw [hnew] at hfloor'
        cases hfloor'

/-- The strategy's variant is the trailing one. -/
def trails (sid : StrategyId) : Bool := (strategyParams sid).any (·.variant.trailEnabled)

/-- There is one, with these steps. -/
theorem variant_eq {sid : StrategyId} (h : strategyParams sid = some params)
    (htrails : trails sid = true) : params.variant = .trail (1 / 5) (3 / 20) := by
  unfold trails at htrails
  unfold strategyParams at h htrails
  split at h
  · cases htrails
  · exact Option.some.inj h ▸ rfl
  · cases h

/-- Every trailing variant has these steps. -/
theorem trail_eq {sid : StrategyId} {stepPct lockPct : ℚ}
    (h : strategyParams sid = some params) (hvariant : params.variant = .trail stepPct lockPct) :
    stepPct = 1 / 5 ∧ lockPct = 3 / 20 := by
  have htrails : trails sid = true := by
    rw [trails, h, Option.any_some, hvariant]
    rfl
  have := (variant_eq h htrails).symm.trans hvariant
  injection this with hstep hlock
  exact ⟨hstep.symm, hlock.symm⟩

theorem entryOf_eq (h : 0 < ctx.entryPrice) (pos : Position) : ctx.entryOf pos = ctx.entryPrice :=
  if_pos h.ne'

/-- **What an exit check does to the context**: nothing, or it trails the
mid. -/
theorem check_fst {sid : StrategyId} (h : strategyParams sid = some params)
    (hentry : 0 < ctx.entryPrice) :
    (ctx.check params now market pos).1 = ctx
      ∨ ∃ mid, (ctx.check params now market pos).1
          = ctx.trailed (1 / 5) (3 / 20) ctx.entryPrice mid := by
  unfold check variantExit
  dsimp only
  split
  · exact .inl rfl
  · rename_i stepPct lockPct hvariant
    obtain ⟨rfl, rfl⟩ := trail_eq h hvariant
    split
    · exact .inl rfl
    · rename_i mid _
      rw [entryOf_eq hentry, if_pos hentry]
      exact .inr ⟨mid, rfl⟩

/-- A check leaves the entry. -/
theorem check_entryPrice : (ctx.check params now market pos).1.entryPrice = ctx.entryPrice := by
  unfold check variantExit
  dsimp only
  split
  · rfl
  · split
    · rfl
    · split_ifs <;> rfl

/-- What a context only gains by a check. -/
structure Rises (ctx ctx' : PositionContext) : Prop where
  entryPrice : ctx'.entryPrice = ctx.entryPrice
  midsSeen : ctx.midsSeen <+: ctx'.midsSeen
  floor : ∀ floor, ctx.lockedFloor = some floor →
    ∃ floor', ctx'.lockedFloor = some floor' ∧ floor ≤ floor'

theorem Rises.refl (ctx : PositionContext) : ctx.Rises ctx :=
  ⟨rfl, List.prefix_rfl, fun floor h => ⟨floor, h, le_rfl⟩⟩

theorem Rises.trans {ctx' ctx'' : PositionContext} (h : ctx.Rises ctx')
    (h' : ctx'.Rises ctx'') : ctx.Rises ctx'' := by
  refine ⟨h'.entryPrice.trans h.entryPrice, h.midsSeen.trans h'.midsSeen, fun floor hfloor => ?_⟩
  obtain ⟨floor', hfloor', hle⟩ := h.floor floor hfloor
  obtain ⟨floor'', hfloor'', hle'⟩ := h'.floor floor' hfloor'
  exact ⟨floor'', hfloor'', hle.trans hle'⟩

/-- No look-ahead: the floor is that of the peak before the mid. -/
theorem Trails.lockedFloor_trailed (h : ctx.Trails) (hentry : 0 < ctx.entryPrice) (mid : Price) :
    (ctx.trailed (1 / 5) (3 / 20) ctx.entryPrice mid).lockedFloor
      = floorFrom (1 / 5) (3 / 20) ctx.entryPrice (peakOver ctx.entryPrice ctx.midsSeen) := by
  rw [(h.trailed hentry mid).floor]
  show floorFrom _ _ ctx.entryPrice
    (peakOver ctx.entryPrice (ctx.midsSeen ++ [mid]).dropLast) = _
  rw [List.dropLast_concat]

/-- **The floor never decreases** when a mid is trailed. -/
theorem Trails.rises (h : ctx.Trails) (hentry : 0 < ctx.entryPrice) (mid : Price) :
    ctx.Rises (ctx.trailed (1 / 5) (3 / 20) ctx.entryPrice mid) := by
  refine ⟨rfl, List.prefix_append _ _, fun floor hfloor => ?_⟩
  rw [h.floor] at hfloor
  obtain ⟨floor', hfloor', hle⟩ := floorFrom_mono hentry (by norm_num) (by norm_num)
    (le_peakOver _ _) (peakOver_mono (List.dropLast_prefix _)) hfloor
  exact ⟨floor', (h.lockedFloor_trailed hentry mid).trans hfloor', hle⟩

/-- A check keeps a context trailing, and its floor only rises. -/
theorem Trails.check {sid : StrategyId} (h : ctx.Trails) (hentry : 0 < ctx.entryPrice)
    (hparams : strategyParams sid = some params) :
    (ctx.check params now market pos).1.Trails
      ∧ ctx.Rises (ctx.check params now market pos).1 := by
  rcases @check_fst ctx params now market pos sid hparams hentry with heq | ⟨mid, heq⟩
  · rw [heq]
    exact ⟨h, .refl ctx⟩
  · rw [heq]
    exact ⟨h.trailed hentry mid, h.rises hentry mid⟩

/-- **Another reason to leave** than the trailing floor: the time, the
underlying stop, or the stop of a position without one. -/
def otherReason (ctx : PositionContext) (now : Time) (market : ExitMarket) (pos : Position) :
    Option EmaExitReason :=
  (ctx.firstReason now market.underlyingPrice).or
    (ctx.fallbackReason pos ((market.fallbackQuote pos.positionId).bind (·.midOrLast)))

/-- **A check of the trail variant**: the mid is trailed, and without another
reason the position is flagged at its floor. -/
theorem Trails.check_trail {sid : StrategyId} {mid : Price} (h : ctx.Trails)
    (hentry : 0 < ctx.entryPrice) (hparams : strategyParams sid = some params)
    (htrails : trails sid = true)
    (hmid : (market.trailQuote pos.positionId).bind (·.midOrLast) = some mid) :
    (ctx.check params now market pos).1 = ctx.trailed (1 / 5) (3 / 20) ctx.entryPrice mid
      ∧ ((ctx.check params now market pos).1.otherReason now market pos = none →
        ((ctx.check params now market pos).2.isSome = true ↔
          ∃ floor, floorFrom (1 / 5) (3 / 20) ctx.entryPrice
            (peakOver ctx.entryPrice ctx.midsSeen) = some floor ∧ mid ≤ floor)) := by
  have hown : ∀ underlying reason, ctx.variantExit params.variant pos underlying (some mid) reason
      = (ctx.trailed (1 / 5) (3 / 20) ctx.entryPrice mid,
          reason.or (if (ctx.trailed (1 / 5) (3 / 20) ctx.entryPrice mid).lockedFloor.any (mid ≤ ·)
            then some .trailFloor else none)) := by
    intro underlying reason
    rw [variant_eq hparams htrails]
    simp only [variantExit, entryOf_eq hentry, if_pos hentry]
  refine ⟨by rw [PositionContext.check, hmid, hown], fun hother => ?_⟩
  rw [PositionContext.check, hmid, hown] at hother ⊢
  obtain ⟨hfirst, hfallback⟩ := Option.or_eq_none_iff.mp hother
  have hfirst' : ctx.firstReason now market.underlyingPrice = none := hfirst
  -- without another reason only the floor decides
  rw [hfallback, hfirst', Option.none_or, Option.or_none, h.lockedFloor_trailed hentry]
  simp [Option.any_eq_true]

end PositionContext

/-! ## The contexts of the provider -/

namespace XSP5EMAStrategyProvider

variable {s : XSP5EMAStrategyProvider} {sid : StrategyId} {p : PositionId}
  {ctx ctx' : PositionContext} {params : EmaParams} {now : Time} {market : ExitMarket}
  {found : XSP5EMAStrategyProvider × List PositionId}

/-- A context is bound once. -/
theorem bindContext_posCtx (pos : Position) :
    (bindContext sid s pos).posCtx p = s.posCtx p
      ∨ s.posCtx p = none ∧ pos.positionId = p
        ∧ ∃ pending, (bindContext sid s pos).posCtx p = some (newContext sid pos pending) := by
  unfold bindContext
  split
  · exact .inl rfl
  · rename_i hnone
    by_cases hp : p = pos.positionId
    · subst hp
      exact .inr ⟨hnone, rfl, _, Function.update_self _ _ _⟩
    · exact .inl (Function.update_of_ne hp _ _)

/-- A bound context is an old one, or a new one of an open position. -/
theorem foldl_bindContext_cases {opened : List Position}
    (h : (opened.foldl (bindContext sid) s).posCtx p = some ctx') :
    s.posCtx p = some ctx' ∨ s.posCtx p = none ∧ ∃ pos ∈ opened, pos.positionId = p
      ∧ ∃ pending, ctx' = newContext sid pos pending := by
  induction opened generalizing s with
  | nil => exact .inl h
  | cons pos opened ih =>
    -- the context was there after the first position, or one of the rest binds it
    rcases ih h with hold | ⟨hnone, new, hnew, hid, hctx⟩
    · rcases @bindContext_posCtx s sid p pos with hsame | ⟨hnone, hid, pending, hctx⟩
      · exact .inl (hsame.symm.trans hold)
      · refine .inr ⟨hnone, pos, List.mem_cons_self, hid, pending, ?_⟩
        exact Option.some.inj (hold.symm.trans hctx)
    · rcases @bindContext_posCtx s sid p pos with hsame | ⟨-, -, pending, hsome⟩
      · exact .inr ⟨hsame.symm.trans hnone, new, List.mem_cons_of_mem _ hnew, hid, hctx⟩
      · rw [hsome] at hnone
        cases hnone

/-- A context that is bound stays. -/
theorem foldl_bindContext_of_some {opened : List Position} (h : s.posCtx p = some ctx) :
    (opened.foldl (bindContext sid) s).posCtx p = some ctx := by
  induction opened generalizing s with
  | nil => exact h
  | cons pos opened ih =>
    rcases @bindContext_posCtx s sid p pos with hsame | ⟨hnone, -⟩
    · exact ih (hsame.trans h)
    · rw [h] at hnone
      cases hnone

/-- **Every open position is bound.** -/
theorem exists_foldl_bindContext {opened : List Position} {pos : Position} (hpos : pos ∈ opened) :
    ∃ ctx, (opened.foldl (bindContext sid) s).posCtx pos.positionId = some ctx := by
  induction opened generalizing s with
  | nil => cases hpos
  | cons head opened ih =>
    rcases List.mem_cons.mp hpos with rfl | hpos
    · rw [List.foldl_cons]
      cases hctx : s.posCtx pos.positionId with
      | some ctx =>
        rcases @bindContext_posCtx s sid pos.positionId pos with hsame | ⟨hnone, -⟩
        · exact ⟨ctx, foldl_bindContext_of_some (hsame.trans hctx)⟩
        · rw [hctx] at hnone
          cases hnone
      | none =>
        refine ⟨newContext sid pos (s.pendingCtx sid), foldl_bindContext_of_some ?_⟩
        unfold bindContext
        rw [hctx]
        exact Function.update_self _ _ _
    · exact ih hpos

/-- **A synchronisation keeps the contexts of open positions**, and those of
other strategies. -/
theorem syncPositionContexts_keeps (positions : Option (List Position))
    (h : s.posCtx p = some ctx) :
    (s.syncPositionContexts positions sid).1.posCtx p = some ctx
      ∨ ctx.strategyId = sid ∧ p ∉ (openPositions positions sid).map (·.positionId) := by
  cases positions with
  | none => exact .inl h
  | some held =>
    by_cases hkept : ctx.strategyId ≠ sid
        ∨ p ∈ (openPositions (some held) sid).map (·.positionId)
    · refine .inl (foldl_bindContext_of_some ?_)
      refine Option.filter_eq_some_iff.mpr ⟨h, ?_⟩
      simpa using hkept
    · rw [not_or, not_not] at hkept
      exact .inr hkept

/-- **After a synchronisation a context is the old one**, or a new one of an
open position that had none. -/
theorem syncPositionContexts_cases {positions : Option (List Position)}
    (h : (s.syncPositionContexts positions sid).1.posCtx p = some ctx') :
    s.posCtx p = some ctx' ∨ s.posCtx p = none
      ∧ ∃ pos ∈ openPositions positions sid, pos.positionId = p
        ∧ ∃ pending, ctx' = newContext sid pos pending := by
  cases positions with
  | none => exact .inl h
  | some held =>
    rcases foldl_bindContext_cases h with hold | ⟨hnone, pos, hpos, hid, pending, hctx⟩
    · exact .inl (Option.filter_eq_some_iff.mp hold).1
    · refine .inr ⟨?_, pos, hpos, hid, pending, hctx⟩
      cases hctx' : s.posCtx p with
      | none => rfl
      | some ctx =>
        -- the context of an open position is not dropped
        have hmem : ((openPositions (some held) sid).map (·.positionId)).contains p = true :=
          List.contains_iff_mem.mpr (List.mem_map.mpr ⟨pos, hpos, hid⟩)
        change Option.filter _ (s.posCtx p) = none at hnone
        rw [hctx', Option.filter_some, hmem, Bool.or_true, if_pos rfl] at hnone
        cases hnone

theorem syncPositionContexts_snd (positions : Option (List Position)) :
    (s.syncPositionContexts positions sid).2 = openPositions positions sid := by
  unfold syncPositionContexts
  split <;> rfl

/-- An update of the market leaves the contexts. -/
theorem updateMarketState_posCtx (feed : MarketFeed) :
    (s.updateMarketState feed now).posCtx = s.posCtx := by
  show (s.onDay now.date).posCtx = s.posCtx
  unfold onDay
  split_ifs <;> rfl

/-- The contexts that a call looks at. -/
theorem polled_cases {clock : NyClock} {currentTime : Time} {feed : MarketFeed}
    {positions : Option (List Position)}
    (h : (s.polled clock sid currentTime feed positions).posCtx p = some ctx') :
    s.posCtx p = some ctx' ∨ s.posCtx p = none
      ∧ ∃ pos ∈ openPositions positions sid, pos.positionId = p
        ∧ ∃ pending, ctx' = newContext sid pos pending := by
  rw [← @updateMarketState_posCtx s (clock.wall currentTime) feed]
  exact syncPositionContexts_cases h

/-- … which are kept for the open positions, and for other strategies. -/
theorem polled_keeps {clock : NyClock} (currentTime : Time) (feed : MarketFeed)
    (positions : Option (List Position)) (h : s.posCtx p = some ctx) :
    (s.polled clock sid currentTime feed positions).posCtx p = some ctx
      ∨ ctx.strategyId = sid ∧ p ∉ (openPositions positions sid).map (·.positionId) := by
  rw [← @updateMarketState_posCtx s (clock.wall currentTime) feed] at h
  exact syncPositionContexts_keeps positions h

/-- **Every open position has a context**, with its old entry or else its
average price. -/
theorem exists_polled {clock : NyClock} {currentTime : Time} {feed : MarketFeed}
    {positions : Option (List Position)} {pos : Position}
    (hnodup : ((openPositions positions sid).map (·.positionId)).Nodup)
    (hpos : pos ∈ openPositions positions sid) :
    ∃ ctx, (s.polled clock sid currentTime feed positions).posCtx pos.positionId = some ctx
      ∧ ctx.entryPrice
        = ((s.posCtx pos.positionId).map (·.entryPrice)).getD pos.averageEntryPrice := by
  obtain ⟨ctx, hctx⟩ : ∃ ctx,
      (s.polled clock sid currentTime feed positions).posCtx pos.positionId = some ctx := by
    cases positions with
    | none => cases hpos
    | some held => exact exists_foldl_bindContext hpos
  refine ⟨ctx, hctx, ?_⟩
  rcases polled_cases hctx with hold | ⟨hnone, other, hother, hid, pending, rfl⟩
  · rw [hold]
    rfl
  · obtain rfl := List.inj_on_of_nodup_map hnodup hother hpos hid
    rw [hnone]
    cases pending <;> rfl

/-- A poll leaves the contexts, or synchronises them. -/
theorem poll_posCtx (clock : NyClock) (cfg : SizingConfig) (currentTime : Time)
    (feed : MarketFeed) (positions : Option (List Position)) (quote : Option QuoteSnapshot)
    (netLiquidation : Option Price) :
    (s.poll clock cfg currentTime feed positions quote netLiquidation).1.posCtx = s.posCtx
      ∨ (s.poll clock cfg currentTime feed positions quote netLiquidation).1.posCtx
        = (s.polled clock cfg.strategyId currentTime feed positions).posCtx := by
  unfold poll
  split
  · exact .inl rfl
  · refine .inr ?_
    dsimp only
    split_ifs
    · split
      · rfl
      · split_ifs
        · rfl
        · unfold enter
          dsimp only
          split_ifs <;> rfl
    · rfl

/-- An exit check looks at every open position in turn. -/
theorem collectExits_eq (clock : NyClock) (currentTime : Time) (feed : MarketFeed)
    (positions : Option (List Position)) (hparams : strategyParams sid = some params) :
    s.collectExits clock sid currentTime feed positions market
      = (openPositions positions sid).foldl (checkExit params (clock.wall currentTime) market)
        (s.polled clock sid currentTime feed positions, []) := by
  unfold collectExits
  rw [hparams]
  dsimp only
  rw [syncPositionContexts_snd]
  rfl

/-! ## The loop over the positions -/

/-- A position is checked against its own context. -/
theorem checkExit_self {pos : Position} (h : found.1.posCtx pos.positionId = some ctx) :
    (checkExit params now market found pos).1.posCtx pos.positionId
        = some (ctx.check params now market pos).1
      ∧ (pos.positionId ∈ (checkExit params now market found pos).2
        ↔ (ctx.check params now market pos).2.isSome = true ∨ pos.positionId ∈ found.2) := by
  unfold checkExit
  rw [h]
  refine ⟨Function.update_self _ _ _, ?_⟩
  dsimp only
  split_ifs with hsome
  · simp [hsome]
  · simp [hsome]

/-- … and no other position is. -/
theorem checkExit_of_ne {pos : Position} (h : p ≠ pos.positionId) :
    (checkExit params now market found pos).1.posCtx p = found.1.posCtx p
      ∧ (p ∈ (checkExit params now market found pos).2 ↔ p ∈ found.2) := by
  unfold checkExit
  split
  · exact ⟨rfl, Iff.rfl⟩
  · refine ⟨Function.update_of_ne h _ _, ?_⟩
    dsimp only
    split_ifs
    · simp [h]
    · exact Iff.rfl

theorem foldl_checkExit_of_notMem {opened : List Position}
    (h : p ∉ opened.map (·.positionId)) :
    (opened.foldl (checkExit params now market) found).1.posCtx p = found.1.posCtx p
      ∧ (p ∈ (opened.foldl (checkExit params now market) found).2 ↔ p ∈ found.2) := by
  induction opened generalizing found with
  | nil => exact ⟨rfl, Iff.rfl⟩
  | cons pos opened ih =>
    rw [List.map_cons, List.mem_cons, not_or] at h
    obtain ⟨hctx, hflag⟩ := @checkExit_of_ne p params now market found pos h.1
    obtain ⟨hctx', hflag'⟩ := @ih (checkExit params now market found pos) h.2
    exact ⟨hctx'.trans hctx, hflag'.trans hflag⟩

/-- **Every position is checked once.** -/
theorem foldl_checkExit_self {opened : List Position} {pos : Position}
    (hnodup : (opened.map (·.positionId)).Nodup) (hpos : pos ∈ opened)
    (h : found.1.posCtx pos.positionId = some ctx) (hfound : pos.positionId ∉ found.2) :
    (opened.foldl (checkExit params now market) found).1.posCtx pos.positionId
        = some (ctx.check params now market pos).1
      ∧ (pos.positionId ∈ (opened.foldl (checkExit params now market) found).2
        ↔ (ctx.check params now market pos).2.isSome = true) := by
  induction opened generalizing found with
  | nil => cases hpos
  | cons head opened ih =>
    obtain ⟨hhead, hnodup⟩ := List.nodup_cons.mp hnodup
    rcases List.mem_cons.mp hpos with rfl | hpos
    · -- it is checked now; the positions after it have other ids
      obtain ⟨hctx, hflag⟩ := @checkExit_self ctx params now market found pos h
      obtain ⟨hctx', hflag'⟩ := @foldl_checkExit_of_notMem _ params now market
        (checkExit params now market found pos) opened hhead
      refine ⟨hctx'.trans hctx, (hflag'.trans hflag).trans ?_⟩
      exact or_iff_left hfound
    · -- another one is checked, which leaves its context and its flag
      have hne : pos.positionId ≠ head.positionId := by
        intro heq
        exact hhead (List.mem_map.mpr ⟨pos, hpos, heq⟩)
      obtain ⟨hctx, hflag⟩ := @checkExit_of_ne _ params now market found head hne
      exact ih hnodup hpos (hctx.trans h) (hflag.not.mpr hfound)

/-- **The loop drops no context**, and leaves its entry. -/
theorem exists_foldl_checkExit {opened : List Position} (h : found.1.posCtx p = some ctx) :
    ∃ ctx', (opened.foldl (checkExit params now market) found).1.posCtx p = some ctx'
      ∧ ctx'.entryPrice = ctx.entryPrice := by
  induction opened generalizing found ctx with
  | nil => exact ⟨ctx, h, rfl⟩
  | cons pos opened ih =>
    by_cases hp : p = pos.positionId
    · subst hp
      obtain ⟨ctx', hctx', hprice⟩ :=
        ih (@checkExit_self ctx params now market found pos h).1
      exact ⟨ctx', hctx', hprice.trans PositionContext.check_entryPrice⟩
    · exact ih ((checkExit_of_ne hp).1.trans h)

/-- **The loop keeps contexts trailing**, and a floor only rises. -/
theorem foldl_checkExit_trails {opened : List Position}
    (hparams : strategyParams sid = some params)
    (h : (opened.foldl (checkExit params now market) found).1.posCtx p = some ctx') :
    ∃ ctx, found.1.posCtx p = some ctx ∧ ctx'.entryPrice = ctx.entryPrice
      ∧ (0 < ctx.entryPrice → ctx.Trails → ctx'.Trails ∧ ctx.Rises ctx') := by
  induction opened generalizing found with
  | nil => exact ⟨ctx', h, rfl, fun _ htrails => ⟨htrails, .refl ctx'⟩⟩
  | cons pos opened ih =>
    obtain ⟨ctx, hctx, hprice, hkept⟩ := ih h
    by_cases hp : p = pos.positionId
    · subst hp
      cases hold : found.1.posCtx pos.positionId with
      | none =>
        -- a position without a context is passed over
        unfold checkExit at hctx
        rw [hold] at hctx
        exact absurd (hold.symm.trans hctx) (Option.some_ne_none ctx).symm
      | some old =>
        obtain ⟨hchecked, -⟩ := @checkExit_self old params now market found pos hold
        obtain rfl := Option.some.inj (hctx.symm.trans hchecked)
        refine ⟨old, rfl, hprice.trans PositionContext.check_entryPrice, fun hentry htrails => ?_⟩
        obtain ⟨htrails', hrises⟩ :=
          @PositionContext.Trails.check old params now market pos sid htrails hentry hparams
        obtain ⟨htrails'', hrises'⟩ := hkept (hrises.entryPrice.symm ▸ hentry) htrails'
        exact ⟨htrails'', hrises.trans hrises'⟩
    · rw [(checkExit_of_ne hp).1] at hctx
      exact ⟨ctx, hctx, hprice, hkept⟩

end XSP5EMAStrategyProvider

/-! ## Runs -/

/-- **The floor of a context by the mids it has seen.** -/
structure PositionContext.FloorKept (ctx : PositionContext) : Prop where
  /-- The peak is the highest of the entry and the mids. -/
  peak : IsGreatest {price | price ∈ ctx.entryPrice :: ctx.midsSeen} ctx.peakPrice
  /-- There is no floor while no earlier peak was 20 % above the entry. -/
  unset : ctx.lockedFloor = none ↔ ∀ seen mid, seen ++ [mid] <+: ctx.midsSeen →
    peakOver ctx.entryPrice seen < 6 / 5 * ctx.entryPrice
  /-- A floor is 15 % above the entry at least, and below the peak that it was
  computed from. -/
  floor : ∀ floor, ctx.lockedFloor = some floor → 23 / 20 * ctx.entryPrice ≤ floor
    ∧ ∃ seen mid, ctx.midsSeen = seen ++ [mid]
      ∧ floorFrom (1 / 5) (3 / 20) ctx.entryPrice (peakOver ctx.entryPrice seen) = some floor
      ∧ floor < peakOver ctx.entryPrice seen

/-- A context that trails has such a floor. -/
theorem PositionContext.Trails.floorKept {ctx : PositionContext} (h : ctx.Trails)
    (hentry : 0 < ctx.entryPrice) : ctx.FloorKept where
  peak := h.peak ▸ isGreatest_peakOver ctx.entryPrice ctx.midsSeen
  unset := by
    rw [h.floor, floorFrom_eq_none_iff hentry (by norm_num) (le_peakOver _ _)]
    have hstep : ctx.entryPrice + ctx.entryPrice * (1 / 5) = 6 / 5 * ctx.entryPrice := by ring
    rw [hstep]
    constructor
    · rintro hlast seen mid ⟨later, hmids⟩
      -- what was seen before an earlier mid was seen before the last
      refine lt_of_le_of_lt (peakOver_mono ?_) hlast
      rw [← hmids, List.append_assoc, List.singleton_append,
        List.dropLast_append_of_ne_nil (List.cons_ne_nil _ _)]
      exact List.prefix_append _ _
    · intro hall
      rcases List.eq_nil_or_concat' ctx.midsSeen with hnil | ⟨seen, mid, hsnoc⟩
      · rw [hnil]
        show ctx.entryPrice < _
        linarith
      · rw [hsnoc, List.dropLast_concat]
        exact hall seen mid ⟨[], by rw [hsnoc, List.append_nil]⟩
  floor floor hfloor := by
    rw [h.floor] at hfloor
    have hle := le_floorFrom hentry (by norm_num) (by norm_num) (le_peakOver _ _) hfloor
    refine ⟨by linarith, ?_⟩
    rcases List.eq_nil_or_concat' ctx.midsSeen with hnil | ⟨seen, mid, hsnoc⟩
    · -- without a mid there is no floor
      rw [hnil, (floorFrom_eq_none_iff hentry (by norm_num) (le_peakOver _ _)).mpr] at hfloor
      · cases hfloor
      · show ctx.entryPrice < _
        linarith
    · rw [hsnoc, List.dropLast_concat] at hfloor
      exact ⟨seen, mid, hsnoc, hfloor,
        floorFrom_lt hentry (by norm_num) (by norm_num) (le_peakOver _ _) hfloor⟩

namespace EmaSession

open XSP5EMAStrategyProvider

variable {clock : NyClock} {s t : EmaSession} {l : Label}

/-- The positions of an exit check are a dictionary. -/
def Label.Keyed : Label → Prop
  | .poll .. => True
  | .collectExits _ _ _ positions _ => ((positions.getD []).map (·.positionId)).Nodup

/-- The open positions of the strategy that a call is for. -/
def Label.opened : Label → List Position
  | .poll cfg _ _ positions _ _ => openPositions positions cfg.strategyId
  | .collectExits sid _ _ positions _ => openPositions positions sid

/-- Every context that is bound at a positive entry trails. -/
def Trails (s : EmaSession) : Prop :=
  ∀ p ctx, s.provider.posCtx p = some ctx → 0 < ctx.entryPrice → ctx.Trails

/-- The mids that the floor of a position has seen. -/
def midsSeen (s : EmaSession) (p : PositionId) : List Price :=
  ((s.provider.posCtx p).map (·.midsSeen)).getD []

/-- **A check of a position flags it at its floor**: the mid is the next that
the floor sees, and without another reason the position is flagged exactly
when the floor of the peak before the mid is not below it. -/
def FlagsAtFloor (clock : NyClock) (s t : EmaSession) (sid : StrategyId) (currentTime : Time)
    (feed : MarketFeed) (positions : Option (List Position)) (market : ExitMarket) : Prop :=
  ∀ pos ∈ openPositions positions sid, ∀ ctx, t.provider.posCtx pos.positionId = some ctx →
    0 < ctx.entryPrice →
    ∀ mid, (market.trailQuote pos.positionId).bind (·.midOrLast) = some mid →
      ctx.midsSeen = s.midsSeen pos.positionId ++ [mid]
        ∧ (ctx.otherReason (clock.wall currentTime) market pos = none →
          (pos.positionId ∈ (s.provider.collectExits clock sid currentTime feed positions market).2
            ↔ ∃ floor, PositionContext.floorFrom (1 / 5) (3 / 20) ctx.entryPrice
                (peakOver ctx.entryPrice (s.midsSeen pos.positionId)) = some floor
              ∧ mid ≤ floor))

/-- **What a call does to the floors**: a position keeps its context until a
call for its strategy does not find it open, and an exit check gives one to
every open position; while a position has its context the floor never
decreases, and an exit check of the trail variant flags a position at its
floor. -/
structure FloorStep (clock : NyClock) (s : EmaSession) (l : Label) (t : EmaSession) : Prop where
  keeps : ∀ p ctx, s.provider.posCtx p = some ctx →
    (∃ ctx', t.provider.posCtx p = some ctx' ∧ ctx'.entryPrice = ctx.entryPrice)
      ∨ ctx.strategyId = l.call.1 ∧ p ∉ l.opened.map (·.positionId)
  /-- The entry is that of the old context, or else the average price. -/
  binds : ∀ sid currentTime feed positions market,
    l = .collectExits sid currentTime feed positions market → (strategyParams sid).isSome = true →
    ∀ pos ∈ openPositions positions sid, ∃ ctx, t.provider.posCtx pos.positionId = some ctx
      ∧ ctx.entryPrice
        = ((s.provider.posCtx pos.positionId).map (·.entryPrice)).getD pos.averageEntryPrice
  rises : ∀ p ctx ctx', s.provider.posCtx p = some ctx → t.provider.posCtx p = some ctx' →
    0 < ctx.entryPrice → ctx.Rises ctx'
  flags : ∀ sid currentTime feed positions market,
    l = .collectExits sid currentTime feed positions market →
    PositionContext.trails sid = true →
    FlagsAtFloor clock s t sid currentTime feed positions market

/-- The contexts that a call looks at trail. -/
theorem Trails.polled (hs : s.Trails) {sid : StrategyId} {currentTime : Time} {feed : MarketFeed}
    {positions : Option (List Position)} {p : PositionId} {ctx : PositionContext}
    (h : (s.provider.polled clock sid currentTime feed positions).posCtx p = some ctx)
    (hentry : 0 < ctx.entryPrice) : ctx.Trails := by
  rcases polled_cases h with hold | ⟨-, pos, -, -, pending, rfl⟩
  · exact hs p ctx hold hentry
  · exact PositionContext.trails_newContext sid pos pending hentry

/-- … and are the ones before it, where there was one. -/
theorem polled_eq {sid : StrategyId} {currentTime : Time} {feed : MarketFeed}
    {positions : Option (List Position)} {p : PositionId} {ctx ctx' : PositionContext}
    (h : s.provider.posCtx p = some ctx)
    (h' : (s.provider.polled clock sid currentTime feed positions).posCtx p = some ctx') :
    ctx' = ctx := by
  rcases polled_cases h' with hold | ⟨hnone, -⟩
  · exact Option.some.inj (hold.symm.trans h)
  · rw [h] at hnone
    cases hnone

/-- They have seen what the session has. -/
theorem midsSeen_polled {sid : StrategyId} {currentTime : Time} {feed : MarketFeed}
    {positions : Option (List Position)} {p : PositionId} {ctx : PositionContext}
    (h : (s.provider.polled clock sid currentTime feed positions).posCtx p = some ctx) :
    ctx.midsSeen = s.midsSeen p := by
  rcases polled_cases h with hold | ⟨hnone, -, -, -, pending, rfl⟩
  · rw [midsSeen, hold]
    rfl
  · rw [midsSeen, hnone]
    cases pending <;> rfl

/-- **What a call does to a context**: it stays, or is looked at and perhaps
checked. -/
theorem posCtx_step (h : s.step clock l = some t) {p : PositionId} {ctx' : PositionContext}
    (h' : t.provider.posCtx p = some ctx') :
    s.provider.posCtx p = some ctx' ∨ ∃ sid currentTime feed positions ctx,
      (s.provider.polled clock sid currentTime feed positions).posCtx p = some ctx
        ∧ ctx'.entryPrice = ctx.entryPrice
        ∧ (0 < ctx.entryPrice → ctx.Trails → ctx'.Trails ∧ ctx.Rises ctx') := by
  cases l with
  | poll cfg currentTime feed positions quote netLiquidation =>
    obtain ⟨-, h⟩ := Option.ite_none_right_eq_some.mp h
    obtain rfl := Option.some.inj h
    rcases s.provider.poll_posCtx clock cfg currentTime feed positions quote netLiquidation with
      hsame | hpolled
    · exact .inl (hsame ▸ h')
    · exact .inr ⟨_, _, _, _, ctx', hpolled ▸ h', rfl,
        fun _ htrails => ⟨htrails, .refl ctx'⟩⟩
  | collectExits sid currentTime feed positions market =>
    obtain ⟨-, h⟩ := Option.ite_none_right_eq_some.mp h
    obtain rfl := Option.some.inj h
    change (s.provider.collectExits clock sid currentTime feed positions market).1.posCtx p
      = some ctx' at h'
    cases hparams : strategyParams sid with
    | none =>
      unfold XSP5EMAStrategyProvider.collectExits at h'
      rw [hparams] at h'
      exact .inl h'
    | some params =>
      rw [collectExits_eq clock currentTime feed positions hparams] at h'
      obtain ⟨ctx, hctx, hprice, hkept⟩ := foldl_checkExit_trails hparams h'
      exact .inr ⟨_, _, _, _, ctx, hctx, hprice, hkept⟩

/-- **Every call keeps the contexts trailing.** -/
theorem Trails.step (hs : s.Trails) (h : s.step clock l = some t) : t.Trails := by
  intro p ctx' h' hentry
  rcases posCtx_step h h' with hsame | ⟨sid, currentTime, feed, positions, ctx, hctx, hprice, hkept⟩
  · exact hs p ctx' hsame hentry
  · rw [hprice] at hentry
    exact (hkept hentry (hs.polled hctx hentry)).1

/-- An exit check of the trail variant flags the positions at their floors. -/
theorem Trails.flagsAtFloor (hs : s.Trails) {sid : StrategyId} {currentTime : Time}
    {feed : MarketFeed} {positions : Option (List Position)} {market : ExitMarket}
    (h : s.step clock (.collectExits sid currentTime feed positions market) = some t)
    (hkeyed : ((positions.getD []).map (·.positionId)).Nodup)
    (htrails : PositionContext.trails sid = true) :
    FlagsAtFloor clock s t sid currentTime feed positions market := by
  intro pos hpos ctx' h' hentry mid hmid
  obtain ⟨-, h⟩ := Option.ite_none_right_eq_some.mp h
  obtain rfl := Option.some.inj h
  obtain ⟨params, hparams⟩ : ∃ params, strategyParams sid = some params := by
    rw [PositionContext.trails, Option.any_eq_true] at htrails
    obtain ⟨params, hparams, -⟩ := htrails
    exact ⟨params, hparams⟩
  -- the positions have different ids, so each is passed once
  have hnodup : ((openPositions positions sid).map (·.positionId)).Nodup :=
    hkeyed.sublist (List.filter_sublist.map _)
  have hcollect := @collectExits_eq s.provider sid params market clock currentTime feed positions
    hparams
  change (s.provider.collectExits clock sid currentTime feed positions market).1.posCtx _
    = some ctx' at h'
  rw [hcollect] at h' ⊢
  obtain ⟨ctx, hctx, hprice, -⟩ := foldl_checkExit_trails hparams h'
  obtain ⟨hchecked, hflagged⟩ := foldl_checkExit_self hnodup hpos hctx (List.not_mem_nil)
  obtain rfl := Option.some.inj (h'.symm.trans hchecked)
  rw [hprice] at hentry ⊢
  obtain ⟨htrailed, hflag⟩ := (hs.polled hctx hentry).check_trail hentry hparams htrails hmid
  rw [hflagged, ← midsSeen_polled hctx]
  refine ⟨?_, hflag⟩
  rw [htrailed]
  rfl

/-- **A call drops only the contexts of its strategy's closed positions.** -/
theorem keeps_step (h : s.step clock l = some t) {p : PositionId} {ctx : PositionContext}
    (hctx : s.provider.posCtx p = some ctx) :
    (∃ ctx', t.provider.posCtx p = some ctx' ∧ ctx'.entryPrice = ctx.entryPrice)
      ∨ ctx.strategyId = l.call.1 ∧ p ∉ l.opened.map (·.positionId) := by
  cases l with
  | poll cfg currentTime feed positions quote netLiquidation =>
    obtain ⟨-, h⟩ := Option.ite_none_right_eq_some.mp h
    obtain rfl := Option.some.inj h
    rcases s.provider.poll_posCtx clock cfg currentTime feed positions quote netLiquidation with
      hsame | hpolled
    · exact .inl ⟨ctx, (congrFun hsame p).trans hctx, rfl⟩
    · exact (polled_keeps currentTime feed positions hctx).imp_left fun hkept =>
        ⟨ctx, (congrFun hpolled p).trans hkept, rfl⟩
  | collectExits sid currentTime feed positions market =>
    obtain ⟨-, h⟩ := Option.ite_none_right_eq_some.mp h
    obtain rfl := Option.some.inj h
    cases hparams : strategyParams sid with
    | none =>
      refine .inl ⟨ctx, ?_, rfl⟩
      unfold XSP5EMAStrategyProvider.collectExits
      rw [hparams]
      exact hctx
    | some params =>
      rw [collectExits_eq clock currentTime feed positions hparams]
      exact (polled_keeps currentTime feed positions hctx).imp_left exists_foldl_checkExit

/-- **An exit check gives every open position a context.** -/
theorem binds_step {sid : StrategyId} {currentTime : Time} {feed : MarketFeed}
    {positions : Option (List Position)} {market : ExitMarket}
    (h : s.step clock (.collectExits sid currentTime feed positions market) = some t)
    (hkeyed : ((positions.getD []).map (·.positionId)).Nodup)
    (hknown : (strategyParams sid).isSome = true) {pos : Position}
    (hpos : pos ∈ openPositions positions sid) :
    ∃ ctx, t.provider.posCtx pos.positionId = some ctx ∧ ctx.entryPrice
      = ((s.provider.posCtx pos.positionId).map (·.entryPrice)).getD pos.averageEntryPrice := by
  obtain ⟨-, h⟩ := Option.ite_none_right_eq_some.mp h
  obtain rfl := Option.some.inj h
  obtain ⟨params, hparams⟩ := Option.isSome_iff_exists.mp hknown
  have hnodup : ((openPositions positions sid).map (·.positionId)).Nodup :=
    hkeyed.sublist (List.filter_sublist.map _)
  obtain ⟨ctx, hctx, hprice⟩ := @exists_polled s.provider sid clock currentTime feed positions
    pos hnodup hpos
  rw [collectExits_eq clock currentTime feed positions hparams]
  refine Exists.imp (fun ctx' h => ⟨h.1, h.2.trans hprice⟩) (exists_foldl_checkExit ?_)
  exact hctx

/-- **Every call lets the floors rise, and flags at them.** -/
theorem Trails.floorStep (hs : s.Trails) (h : s.step clock l = some t) (hkeyed : l.Keyed) :
    FloorStep clock s l t where
  keeps _ _ hctx := keeps_step h hctx
  binds sid currentTime feed positions market hl hknown pos hpos := by
    subst hl
    exact binds_step h hkeyed hknown hpos
  rises p ctx ctx' hctx hctx' hentry := by
    rcases posCtx_step h hctx' with
      hsame | ⟨sid, currentTime, feed, positions, seen, hseen, hprice, hkept⟩
    · exact Option.some.inj (hctx.symm.trans hsame) ▸ .refl ctx
    · obtain rfl := polled_eq hctx hseen
      exact (hkept hentry (hs p _ hctx hentry)).2
  flags sid currentTime feed positions market hl htrails := by
    subst hl
    exact hs.flagsAtFloor h hkeyed htrails

/-- **The trailing floor in every run**: every context has the floor of the
mids it has seen, and every call keeps the contexts, binds the open positions,
lets the floors rise and flags at them. -/
theorem trailing (clock : NyClock) (time : Time) (ls : List Label)
    (hkeyed : (machine clock).Along (fun _ l _ => l.Keyed) (initial time) ls) :
    (machine clock).Throughout (fun s => ∀ p ctx, s.provider.posCtx p = some ctx →
        0 < ctx.entryPrice → ctx.FloorKept) (initial time) ls
      ∧ (machine clock).Along (FloorStep clock) (initial time) ls := by
  have hinitial : (initial time).Trails := by
    intro p ctx h
    cases h
  refine ⟨fun ks s _ hrun p ctx hctx hentry => ?_, ?_⟩
  · have htrails : s.Trails := Machine.run_invariant' (J := Trails)
      (fun _ _ _ hs h => hs.step h) hinitial hrun
    exact (htrails p ctx hctx hentry).floorKept hentry
  · exact Machine.along_of_step (J := Trails) (fun _ _ _ hs h _ => hs.step h)
      (fun _ _ _ hs h hl => hs.floorStep h hl) hinitial hkeyed

/-- A position of the trail variant, bought at `1`. -/
def trailedPosition : Position :=
  { heldPosition with strategyId := "xsp_5ema_trail" }

/-- The last trade of an option without sides. -/
def tradedAt (price : Price) : QuoteSnapshot where
  timestamp := 0
  last := some price
  bid_le_ask := by rintro _ ⟨⟩

/-- What an exit check sees of an option that trades at the price. -/
def marketAt (price : Price) : ExitMarket where
  latestBar := none
  underlyingQuote := none
  trailQuote _ := some (tradedAt price)
  fallbackQuote _ := some (tradedAt price)

def checkAt (price : Price) : Label :=
  .collectExits "xsp_5ema_trail" 36000 noData (some [trailedPosition]) (marketAt price)

/-- The premium rises by 30 %. -/
def risen : List Label := [checkAt (13 / 10)]

/-- … and falls back to the floor: the position was bound at its average price,
has its first floor, and is flagged there. -/
theorem trailing_risesAndFalls :
    ∃ s t ctx, (machine sampleClock).run (initial 0) risen = some s
      ∧ s.step sampleClock (checkAt (23 / 20)) = some t
      ∧ s.midsSeen 0 = [13 / 10]
      ∧ t.provider.posCtx 0 = some ctx ∧ ctx.entryPrice = 1 ∧ ctx.FloorKept
      ∧ ctx.peakPrice = 13 / 10 ∧ ctx.lockedFloor = some (23 / 20)
      ∧ 0 ∈ (s.provider.collectExits sampleClock "xsp_5ema_trail" 36000 noData
        (some [trailedPosition]) (marketAt (23 / 20))).2 := by
  have hkeyed : (machine sampleClock).Along (fun _ l _ => l.Keyed) (initial 0)
      (risen ++ [checkAt (23 / 20)]) :=
    fun _ _ => ⟨List.nodup_singleton _, fun _ _ => ⟨List.nodup_singleton _, trivial⟩⟩
  have hrun : ((machine sampleClock).run (initial 0) risen).any (fun s =>
      s.midsSeen 0 = [13 / 10] ∧ (s.step sampleClock (checkAt (23 / 20))).any fun t =>
        (t.provider.posCtx 0).any fun ctx => ctx.entryPrice = 1 ∧ ctx.peakPrice = 13 / 10
          ∧ ctx.lockedFloor = some (23 / 20)
          ∧ ctx.otherReason (sampleClock.wall 36000) (marketAt (23 / 20)) trailedPosition = none)
        = true := by
    decide +kernel
  obtain ⟨s, hs, h⟩ := (Option.any_eq_true _ _).mp hrun
  obtain ⟨hseen, h⟩ := of_decide_eq_true h
  obtain ⟨t, ht, h⟩ := (Option.any_eq_true _ _).mp h
  obtain ⟨ctx, hctx, h⟩ := (Option.any_eq_true _ _).mp h
  obtain ⟨hentry, hpeak, hfloor, hother⟩ := of_decide_eq_true h
  obtain ⟨hfloors, hsteps⟩ := trailing sampleClock 0 (risen ++ [checkAt (23 / 20)]) hkeyed
  have hstep := ((Machine.along_append.mp hsteps).2 s hs t ht).1
  have hkept := hfloors _ t List.prefix_rfl (Machine.run_snoc.mpr ⟨s, hs, ht⟩) 0 ctx hctx
    (by rw [hentry]; norm_num)
  obtain ⟨-, hflag⟩ := hstep.flags _ _ _ _ _ rfl (by decide) trailedPosition
    (by decide +kernel) ctx hctx (by rw [hentry]; norm_num) (23 / 20) rfl
  refine ⟨s, t, ctx, hs, ht, hseen, hctx, hentry, hkept, hpeak, hfloor, (hflag hother).mpr ?_⟩
  have hseen' : s.midsSeen trailedPosition.positionId = [13 / 10] := hseen
  rw [hentry, hseen']
  exact ⟨23 / 20, by decide +kernel, le_rfl⟩

end EmaSession
