import ExecutionSystem.LegCoordination
import Mathlib.Data.Finset.Card
import Mathlib.Data.Finset.Image

/-!
# Exposure limits

The risk engine approves a signal while fewer positions are open, and fewer
orders active, than the limits say. What it counts is what is there at
that instant. An entry order that works is no position yet, and the legs
of one batch are all judged before the first of them is submitted, so
each of them may be the one that just fits.

What has to stay within the limits is the `exposure`: the open positions
together with the entries that are still outstanding – orders that work,
that the broker has not answered for, or that a repricer is about to
replace. It grows only where a leg is submitted, and where a fill opens a
position that nothing outstanding stands for; repricing, callbacks,
cancels and sweeps never add to it. So the limits hold in a run in which
those two find room (`HasRoom`), and where nothing is outstanding the
engine's approval of a single leg is just that (`room_of_approved`).
-/

/-! ## Sets with a limit for each group -/

section AtMostPer

variable {α κ γ : Type*} [DecidableEq γ] {group : κ → γ} {n : ℕ}
  {keys keys' : Finset κ}

/-- **No group has more than `n` members.** -/
def AtMostPer (group : κ → γ) (n : ℕ) (keys : Finset κ) : Prop :=
  ∀ k ∈ keys, (keys.filter fun k' => group k' = group k).card ≤ n

instance : Decidable (AtMostPer group n keys) :=
  inferInstanceAs (Decidable (∀ _ ∈ _, _))

theorem AtMostPer.card_le (h : AtMostPer group n keys) (g : γ) :
    (keys.filter fun k => group k = g).card ≤ n := by
  rcases (keys.filter fun k => group k = g).eq_empty_or_nonempty with hempty | ⟨k, hk⟩
  · rw [hempty]
    exact Nat.zero_le n
  · obtain ⟨hmem, rfl⟩ := Finset.mem_filter.mp hk
    exact h k hmem

theorem AtMostPer.empty : AtMostPer group n ∅ := fun k hk =>
  absurd hk (Finset.notMem_empty k)

theorem AtMostPer.mono (h : AtMostPer group n keys) (hsub : keys' ⊆ keys) :
    AtMostPer group n keys' := fun k hk =>
  (Finset.card_le_card (Finset.filter_subset_filter _ hsub)).trans (h k (hsub hk))

/-- There is room for one more in a group that is not full. -/
theorem AtMostPer.insert [DecidableEq κ] (h : AtMostPer group n keys) {k : κ}
    (hlt : (keys.filter fun k' => group k' = group k).card < n) :
    AtMostPer group n (insert k keys) := by
  intro k' _
  rw [Finset.filter_insert]
  split_ifs with hgroup
  · rw [← hgroup]
    exact (Finset.card_insert_le _ _).trans hlt
  · exact h.card_le _

/-- A list of things with different keys of the set. -/
theorem AtMostPer.length_filter_le [DecidableEq κ] (h : AtMostPer group n keys)
    {key : α → κ} {xs : List α} (hnodup : (xs.map key).Nodup)
    (hmem : ∀ x ∈ xs, key x ∈ keys) (g : γ) :
    (xs.filter fun x => group (key x) = g).length ≤ n := by
  refine le_trans ?_ (h.card_le g)
  rw [← List.length_map (f := key), ← List.toFinset_card_of_nodup
    (hnodup.sublist (List.filter_sublist.map key))]
  refine Finset.card_le_card fun k hk => ?_
  obtain ⟨x, hx, rfl⟩ := List.mem_map.mp (List.mem_toFinset.mp hk)
  obtain ⟨hx, hg⟩ := List.mem_filter.mp hx
  exact Finset.mem_filter.mpr ⟨hmem x hx, of_decide_eq_true hg⟩

/-- The different keys of a list are no more than the list. -/
theorem card_filter_map_le [DecidableEq κ] (key : α → κ) (xs : List α) (p : κ → Bool) :
    ((xs.map key).toFinset.filter fun k => p k = true).card
      ≤ xs.countP fun x => p (key x) := by
  rw [← List.toFinset_filter, List.countP_eq_length_filter]
  refine (List.toFinset_card_le _).trans (le_of_eq ?_)
  rw [List.filter_map, List.length_map]
  rfl

end AtMostPer

/-! ## The limits and the exposure -/

/-- What an entry order counts for, once it is a position. -/
def OrderState.key (x : OrderState) : PositionKey := (x.strategyId, x.contract.identity)

/-- What a signal counts for. -/
def StrategySignal.key (signal : StrategySignal) : PositionKey :=
  (signal.strategyId, signal.contract.identity)

/-- **A set of positions is within the limits**: of all, of those of one
strategy, and of those on one underlying. -/
structure FullRiskConfig.Allows (risk : FullRiskConfig) (keys : Finset PositionKey) :
    Prop where
  total : AtMostPer (fun _ => ()) risk.globalRisk.maxOpenPositions keys
  perStrategy : AtMostPer (·.1) risk.perStrategy.maxPositions keys
  perUnderlying : AtMostPer (·.2.1) risk.perUnderlying.maxPositions keys

instance (risk : FullRiskConfig) (keys : Finset PositionKey) : Decidable (risk.Allows keys) :=
  decidable_of_iff
    (AtMostPer (fun _ => ()) risk.globalRisk.maxOpenPositions keys
      ∧ AtMostPer (·.1) risk.perStrategy.maxPositions keys
      ∧ AtMostPer (·.2.1) risk.perUnderlying.maxPositions keys)
    ⟨fun ⟨h, h', h''⟩ => ⟨h, h', h''⟩, fun ⟨h, h', h''⟩ => ⟨h, h', h''⟩⟩

theorem FullRiskConfig.Allows.mono {risk : FullRiskConfig} {keys keys' : Finset PositionKey}
    (h : risk.Allows keys) (hsub : keys' ⊆ keys) : risk.Allows keys' :=
  ⟨h.total.mono hsub, h.perStrategy.mono hsub, h.perUnderlying.mono hsub⟩

namespace OrderManager

/-- The order is not over: it is active, its `place_order` or a query of
its status is in flight, or a repricer is about to replace it. -/
def unsettled (om : OrderManager) (o : OrderId) (x : OrderState) : Bool :=
  x.status.active || om.tasks.any fun c => c.revives o x || c.sweepTarget = some o

/-- An entry that may still come to work. -/
def outstanding (om : OrderManager) (o : OrderId) (x : OrderState) : Bool :=
  x.isEntry && x.supersededBy = none && om.unsettled o x

/-- **The outstanding entries.** -/
def pendingEntries (om : OrderManager) : List OrderId :=
  (List.range om.orders.length).filter fun o => om.orders[o]?.any (om.outstanding o)

/-- What they count for. -/
def pendingKeys (om : OrderManager) : List PositionKey :=
  om.pendingEntries.filterMap fun o => om.orders[o]?.map OrderState.key

end OrderManager

namespace ExecutionRunner

/-- **The exposure**: the open positions and the outstanding entries. -/
def exposure (s : ExecutionRunner) : Finset PositionKey :=
  (s.pm.openKeys ++ s.om.pendingKeys).toFinset

/-- The entry orders that are active. -/
def activeEntries (s : ExecutionRunner) : List OrderId :=
  s.activeOrders.filter fun o => s.om.orders[o]?.any (·.isEntry)

/-- **The limits hold**: of open positions, of all, of one strategy and on
one underlying, and of active entry orders. -/
structure WithinLimits (risk : FullRiskConfig) (s : ExecutionRunner) : Prop where
  positions : s.pm.getOpenPositions.length ≤ risk.globalRisk.maxOpenPositions
  perStrategy : ∀ sid, (s.pm.getOpenPositions.filter (·.strategyId = sid)).length
    ≤ risk.perStrategy.maxPositions
  perUnderlying : ∀ symbol, (s.pm.getOpenPositions.filter (·.contract.symbol = symbol)).length
    ≤ risk.perUnderlying.maxPositions
  orders : s.activeEntries.length ≤ risk.globalRisk.maxOpenOrders

/-- What the leg that is about to be submitted counts for. -/
def submitting (s : ExecutionRunner) : Option PositionKey :=
  match s.pc with
  | .submissions _ _ _ (d :: _) =>
    if (entryLimit d.signal d.quote).any (0 < ·) && 0 < d.decision.allowedQuantity then
      some d.signal.key
    else none
  | _ => none

/-- **The step finds room**: where a leg is submitted, the exposure with the
leg is within the limits and fewer entries are outstanding than there may
be active; and where a fill is handled that no open position and no
outstanding entry stands for, the exposure with its position is within the
limits. -/
structure HasRoom (risk : FullRiskConfig) (s : ExecutionRunner) (l : Label) : Prop where
  submitted : ∀ k ∈ s.submitting, risk.Allows (insert k s.exposure)
    ∧ s.om.pendingEntries.length < risk.globalRisk.maxOpenOrders
  filled : ∀ fill ∈ l.filling, fill.key ∉ s.exposure →
    risk.Allows (insert fill.key s.exposure)

instance (risk : FullRiskConfig) (s : ExecutionRunner) (l : Label) :
    Decidable (s.HasRoom risk l) :=
  decidable_of_iff
    ((∀ k ∈ s.submitting, risk.Allows (insert k s.exposure)
        ∧ s.om.pendingEntries.length < risk.globalRisk.maxOpenOrders)
      ∧ ∀ fill ∈ l.filling, fill.key ∉ s.exposure →
        risk.Allows (insert fill.key s.exposure))
    ⟨fun ⟨h, h'⟩ => ⟨h, h'⟩, fun ⟨h, h'⟩ => ⟨h, h'⟩⟩

end ExecutionRunner

/-! ## Outstanding entries in one step -/

namespace OrderManager

variable {om om' : OrderManager} {l : Label} {o : OrderId} {x : OrderState}

/-- An order is over exactly when it is retired. -/
theorem unsettled_eq_false_iff (hx : om.orders[o]? = some x) :
    om.unsettled o x = false ↔ om.Retired o := by
  simp only [unsettled, Bool.or_eq_false_iff, OrderStatus.active_eq_false_iff, List.any_eq_false,
    Bool.not_eq_true, decide_eq_false_iff_not]
  constructor
  · rintro ⟨hdone, hquiet⟩
    exact ⟨⟨x, hx, hdone, fun t c hc => (hquiet c (List.mem_of_getElem? hc)).1⟩,
      fun t c hc => (hquiet c (List.mem_of_getElem? hc)).2⟩
  · rintro ⟨⟨y, hy, hdone, hquiet⟩, hswept⟩
    obtain rfl := Option.some.inj (hx.symm.trans hy)
    refine ⟨hdone, fun c hc => ?_⟩
    obtain ⟨t, ht⟩ := List.getElem?_of_mem hc
    exact ⟨hquiet t c ht, hswept t c ht⟩

theorem mem_pendingEntries :
    o ∈ om.pendingEntries ↔ ∃ x, om.orders[o]? = some x ∧ om.outstanding o x = true := by
  simp only [pendingEntries, List.mem_filter, List.mem_range, Option.any_eq_true]
  exact and_iff_right_of_imp fun ⟨x, hx, _⟩ => (List.getElem?_eq_some_iff.mp hx).1

theorem nodup_pendingEntries : om.pendingEntries.Nodup :=
  List.nodup_range.filter _

theorem mem_pendingKeys {k : PositionKey} :
    k ∈ om.pendingKeys
      ↔ ∃ o x, om.orders[o]? = some x ∧ om.outstanding o x = true ∧ x.key = k := by
  simp only [pendingKeys, List.mem_filterMap, mem_pendingEntries, Option.map_eq_some_iff]
  constructor
  · rintro ⟨o, ⟨x, hx, hout⟩, y, hy, hkey⟩
    obtain rfl := Option.some.inj (hx.symm.trans hy)
    exact ⟨o, x, hx, hout, hkey⟩
  · rintro ⟨o, x, hx, hout, hkey⟩
    exact ⟨o, ⟨x, hx, hout⟩, x, hx, hkey⟩

/-- **An entry that is outstanding after a step was so before, or is new.** -/
theorem outstanding_back (haimed : om.Aimed) (he : Effect om l om') {y : OrderState}
    (hy : om'.orders[o]? = some y) (hout : om'.outstanding o y = true) :
    (∃ x, om.orders[o]? = some x ∧ om.outstanding o x = true ∧ x.key = y.key
        ∧ y.supersededBy = none)
      ∨ o = om.orders.length ∧ Created om l om' y := by
  simp only [outstanding, Bool.and_eq_true, decide_eq_true_eq] at hout
  obtain ⟨⟨hentry, hfree⟩, hunsettled⟩ := hout
  rcases he.lookup hy with ⟨x, hx, htouch⟩ | hnew
  · left
    have hfixed := htouch.fixed
    have hfree' : x.supersededBy = none := by
      rcases htouch.supersededBy with hsame | ⟨rfl, -⟩
      · exact hsame ▸ hfree
      · cases hfree
    have hunsettled' : om.unsettled o x = true := by
      by_contra hover
      have hretired := (unsettled_eq_false_iff hx).mp (Bool.eq_false_of_not_eq_true hover)
      rw [(unsettled_eq_false_iff hy).mpr (hretired.step haimed he)] at hunsettled
      cases hunsettled
    refine ⟨x, hx, ?_, ?_, hfree⟩
    · simp [outstanding, hfixed.2.1 ▸ hentry, hfree', hunsettled']
    · rw [OrderState.key, OrderState.key, hfixed.2.2.1, hfixed.2.2.2.1]
  · exact .inr hnew

/-- The order that a repricer replaces is outstanding. -/
theorem outstanding_of_replacing (hown : om.Owned) {p : Price}
    (hr : om.replacing l = some (o, x, p)) (hentry : x.isEntry = true) :
    om.orders[o]? = some x ∧ om.outstanding o x = true := by
  obtain ⟨-, t, c, r, -, ht, hc, rfl, hx, hrest⟩ := replacing_eq_some.mp hr
  obtain ⟨z, hz, hfree⟩ := hown.free _ (mem_owners ht (Coroutine.owner_of_polling hc))
  obtain rfl := Option.some.inj (hx.symm.trans hz)
  have hunsettled : om.unsettled r.current x = true := by
    by_contra hover
    exact ((unsettled_eq_false_iff hx).mp (Bool.eq_false_of_not_eq_true hover)).not_replacing hr
  exact ⟨hx, by simp [outstanding, hentry, hfree, hunsettled]⟩

/-- **At most `k` is added to the outstanding entries.** -/
structure PendingAdds (k : Option PositionKey) (om om' : OrderManager) : Prop where
  length : om'.pendingEntries.length ≤ om.pendingEntries.length + k.toList.length
  keys : om'.pendingKeys ⊆ k.toList ++ om.pendingKeys

theorem PendingAdds.of_none {k : Option PositionKey} (h : PendingAdds none om om') :
    PendingAdds k om om' where
  length := h.length.trans (Nat.add_le_add_left (Nat.zero_le _) _)
  keys := List.Subset.trans h.keys (List.subset_append_right _ _)

/-- The key of an intent to enter. -/
def Label.entering : Label → Option PositionKey
  | .submit intent _ _ _ _ =>
    if intent.isEntry then some (intent.strategyId, intent.contract.identity) else none
  | _ => none

/-- Nothing new is outstanding. -/
theorem pendingAdds_of_old (hold : ∀ {o z}, om'.orders[o]? = some z →
    om'.outstanding o z = true →
      ∃ x, om.orders[o]? = some x ∧ om.outstanding o x = true ∧ x.key = z.key) :
    PendingAdds none om om' where
  length := by
    refine (nodup_pendingEntries.subperm fun o hmem => ?_).length_le
    obtain ⟨z, hz, hzout⟩ := mem_pendingEntries.mp hmem
    obtain ⟨x, hx, hxout, -⟩ := hold hz hzout
    exact mem_pendingEntries.mpr ⟨x, hx, hxout⟩
  keys := by
    intro k hk
    obtain ⟨o, z, hz, hzout, hkey⟩ := mem_pendingKeys.mp hk
    obtain ⟨x, hx, hxout, hsame⟩ := hold hz hzout
    exact mem_pendingKeys.mpr ⟨o, x, hx, hxout, hsame.trans hkey⟩

/-- With a new order, what was outstanding may stay, and the new one is
added. -/
theorem pendingEntries_subset_of_created (haimed : om.Aimed) (he : Effect om l om') :
    om'.pendingEntries ⊆ om.orders.length :: om.pendingEntries := by
  intro o hmem
  obtain ⟨z, hz, hzout⟩ := mem_pendingEntries.mp hmem
  rcases outstanding_back haimed he hz hzout with ⟨x, hx, hxout, -⟩ | ⟨rfl, -⟩
  · exact List.mem_cons_of_mem _ (mem_pendingEntries.mpr ⟨x, hx, hxout⟩)
  · exact List.mem_cons_self

theorem pendingKeys_subset_of_created (haimed : om.Aimed) (he : Effect om l om')
    {y : OrderState} (hy : om'.orders[om.orders.length]? = some y) :
    om'.pendingKeys ⊆ y.key :: om.pendingKeys := by
  intro k hk
  obtain ⟨o, z, hz, hzout, hkey⟩ := mem_pendingKeys.mp hk
  rcases outstanding_back haimed he hz hzout with ⟨x, hx, hxout, hsame, -⟩ | ⟨rfl, -⟩
  · exact List.mem_cons_of_mem _ (mem_pendingKeys.mpr ⟨o, x, hx, hxout, hsame.trans hkey⟩)
  · obtain rfl := Option.some.inj (hy.symm.trans hz)
    exact hkey ▸ List.mem_cons_self

/-- The order that was replaced is not outstanding any more. -/
theorem not_mem_pendingEntries_of_replaced {p : Price} (hstep : om.step l = some om')
    (hr : om.replacing l = some (o, x, p)) (hx : om.orders[o]? = some x) :
    o ∉ om'.pendingEntries := by
  intro ho
  obtain ⟨z, hz, hzout⟩ := mem_pendingEntries.mp ho
  obtain ⟨t, c, r, q, hp, -, -, -, hh⟩ := step_replacing hstep hr
  have hlt := (List.getElem?_eq_some_iff.mp hx).1
  rw [hh.orders, List.getElem?_append_left (by rwa [List.length_modify])] at hz
  obtain ⟨w, hw, rfl⟩ := List.getElem?_modify_iff.mp hz
  simp [outstanding, OrderState.superseded] at hzout

/-- A replacement goes for the order it replaces. -/
theorem pendingAdds_of_replaced (haimed : om.Aimed) (hown : om.Owned)
    (hstep : om.step l = some om') {p : Price} (hr : om.replacing l = some (o, x, p))
    {y : OrderState} (hy : om'.orders[om.orders.length]? = some y) (hkey : y.key = x.key)
    (hentry : x.isEntry = true) : PendingAdds none om om' := by
  have he := step_effect hstep
  obtain ⟨hx, hxout⟩ := outstanding_of_replacing hown hr hentry
  have hmem := mem_pendingEntries.mpr ⟨x, hx, hxout⟩
  have hgone := not_mem_pendingEntries_of_replaced hstep hr hx
  constructor
  · have hsub : om'.pendingEntries ⊆ om.orders.length :: om.pendingEntries.erase o := by
      intro i hi
      rcases List.mem_cons.mp (pendingEntries_subset_of_created haimed he hi) with rfl | hold
      · exact List.mem_cons_self
      · refine List.mem_cons_of_mem _ ((List.mem_erase_of_ne ?_).mpr hold)
        rintro rfl
        exact hgone hi
    have hle := (nodup_pendingEntries.subperm hsub).length_le
    rwa [List.length_cons, List.length_erase_of_mem hmem,
      Nat.sub_add_cancel (List.length_pos_of_mem hmem)] at hle
  · intro k hk
    rcases List.mem_cons.mp (pendingKeys_subset_of_created haimed he hy hk) with rfl | hold
    · exact mem_pendingKeys.mpr ⟨o, x, hx, hxout, hkey.symm⟩
    · exact hold

/-- **Only a new intent to enter adds to the outstanding entries**, and it
adds one. -/
theorem pending_step (ho : om.Orderly) (hstep : om.step l = some om') :
    PendingAdds l.entering om om' := by
  have he := step_effect hstep
  by_cases hnew : ∃ y, om'.orders[om.orders.length]? = some y
      ∧ om'.outstanding om.orders.length y ∧ Created om l om' y
  · obtain ⟨y, hy, hout, hcreated⟩ := hnew
    have hentry : y.isEntry = true := by
      simp only [outstanding, Bool.and_eq_true] at hout
      exact hout.1.1
    cases hcreated with
    | @submitted intent decision e reprice algo plan q hl hplan =>
      subst hplan hl
      have hentering : (Label.submit intent decision e reprice algo).entering
          = some (intent.strategyId, intent.contract.identity) := if_pos hentry
      rw [hentering]
      exact ⟨(nodup_pendingEntries.subperm
        (pendingEntries_subset_of_created ho.aimed he)).length_le,
        pendingKeys_subset_of_created ho.aimed he hy⟩
    | @replaced i x p hr q hp =>
      exact (pendingAdds_of_replaced ho.aimed ho.owned hstep hr hy rfl hentry).of_none
  · refine (pendingAdds_of_old fun {o z} hz hzout => ?_).of_none
    rcases outstanding_back ho.aimed he hz hzout with ⟨x, hx, hxout, hkey, -⟩ | ⟨rfl, hcreated⟩
    · exact ⟨x, hx, hxout, hkey⟩
    · exact absurd ⟨z, hz, hzout, hcreated⟩ hnew

theorem pendingAdds_of_holds (h : om'.Holds om.orders om.tasks om.placeCalls) :
    PendingAdds none om om' := by
  have houtstanding : om'.outstanding = om.outstanding := by
    funext o x
    rw [outstanding, outstanding, unsettled, unsettled, h.tasks]
  have hentries : om'.pendingEntries = om.pendingEntries := by
    rw [pendingEntries, pendingEntries, houtstanding, h.orders]
  have hkeys : om'.pendingKeys = om.pendingKeys := by
    rw [pendingKeys, pendingKeys, hentries, h.orders]
  exact ⟨hentries ▸ Nat.le_refl _, hkeys ▸ List.Subset.refl _⟩

end OrderManager

/-! ## The exposure in one step -/

namespace ExecutionRunner

variable {env : RunnerEnv} {risk : FullRiskConfig} {s s' : ExecutionRunner} {l : Label}

theorem mem_exposure {k : PositionKey} :
    k ∈ s.exposure ↔ k ∈ s.pm.openKeys ∨ k ∈ s.om.pendingKeys := by
  rw [exposure, List.mem_toFinset, List.mem_append]

/-- The open positions are known by status and key. -/
theorem openKeys_congr {pm pm' : PositionManager}
    (h : pm'.positions.map (fun pos => (pos.status.isOpen, pos.key))
      = pm.positions.map fun pos => (pos.status.isOpen, pos.key)) :
    pm'.openKeys = pm.openKeys := by
  have hkeys : ∀ pm : PositionManager, pm.openKeys
      = ((pm.positions.map fun pos => (pos.status.isOpen, pos.key)).filter (·.1)).map (·.2) := by
    intro pm
    rw [List.filter_map, List.map_map]
    rfl
  rw [hkeys, hkeys, h]

/-- What a fill does to the open positions is what the position manager
does with it. -/
theorem openKeys_filled (fill : FillEvent) :
    (s.filled env fill).pm.openKeys = (s.pm.handleFill (s.attributed fill)).1.openKeys :=
  openKeys_congr (map_filled _ (fun _ _ _ _ _ _ => rfl) fill)

theorem key_attributed (fill : FillEvent) : (s.attributed fill).key = fill.key := by
  unfold attributed
  split <;> rfl

/-- **Only a fill changes the open positions.** -/
theorem Effect.openKeys (he : Effect env s l s') :
    s'.pm.openKeys = s.pm.openKeys ∨ ∃ fill, l = .fill fill ∧ s' = s.filled env fill := by
  cases he with
  | keeps h => exact .inl h.openKeys
  | batched _ _ _ _ h => exact .inl h.openKeys
  | filled fill hl h => exact .inr ⟨fill, hl, h⟩
  | background _ _ _ _ h | cancels _ _ _ h | sweeps _ _ _ h | leaves _ _ h
  | enters _ _ _ _ _ _ _ _ _ _ h => exact .inl (by rw [h.pm])
  | raised _ _ _ h | unlocked _ _ _ _ _ _ _ _ _ _ h => exact .inl (by rw [h])

theorem entering_of_background {ol : OrderManager.Label} (h : background ol = true) :
    ol.entering = none := by
  cases ol with
  | submit => cases h
  | _ => rfl

theorem submitting_eq_none {cfg : StrategyConfig} {rest : List StrategyConfig} {batch : BatchId}
    {d : Decided} {decided : List Decided}
    (hpc : s.pc = .submissions cfg rest batch (d :: decided))
    (h : s.submitting ≠ some d.signal.key) : s.submitting = none := by
  simp only [submitting, hpc] at h ⊢
  split_ifs at h ⊢
  · exact absurd rfl h
  · rfl

/-- A leg that has no price or no quantity is not submitted. -/
theorem om_submission {cfg : StrategyConfig} {rest : List StrategyConfig} {batch : BatchId}
    {d : Decided} {decided : List Decided}
    (hpc : s.pc = .submissions cfg rest batch (d :: decided)) (hnone : s.submitting = none) :
    (s.submission env cfg rest batch (d :: decided)).om = s.om := by
  simp only [submitting, hpc, Bool.and_eq_true, decide_eq_true_eq, ite_eq_right_iff,
    reduceCtorEq, imp_false, not_and] at hnone
  cases hlimit : entryLimit d.signal d.quote with
  | none => simp only [submission, hlimit, at']
  | some limit =>
    rw [hlimit, Option.any_some, decide_eq_true_eq] at hnone
    by_cases hpos : 0 < limit
    · simp only [submission, hlimit, dif_pos hpos, dif_neg (hnone hpos), at']
    · simp only [submission, hlimit, dif_neg hpos, at']

/-- **Only a leg that is submitted adds to the outstanding entries.** -/
theorem pending_step (hs : s.om.Orderly) (h : s.step env l = some s') :
    OrderManager.PendingAdds s.submitting s.om s'.om := by
  have hsame : s'.om.Holds s.om.orders s.om.tasks s.om.placeCalls →
      OrderManager.PendingAdds s.submitting s.om s'.om :=
    fun hholds => (OrderManager.pendingAdds_of_holds hholds).of_none
  have hother : ∀ {ol}, Lets s ol s' → ol.entering = none →
      OrderManager.PendingAdds s.submitting s.om s'.om := fun hlets hnone =>
    (hnone ▸ OrderManager.pending_step hs hlets.step).of_none
  have he := step_effect h
  cases he with
  | keeps hk | batched _ _ _ _ hk => exact hsame hk.orders
  | filled fill hl hf =>
    subst hf
    exact hsame (holds_refl _)
  | raised _ _ hom | unlocked _ _ _ _ _ _ _ _ _ hom => exact hsame (hom ▸ holds_refl _)
  | background ol hl hol hpc hlets => exact hother hlets (entering_of_background hol)
  | cancels _ _ _ hlets | sweeps _ _ _ hlets => exact hother hlets rfl
  | leaves intent hl hlets =>
    refine hother hlets ?_
    rw [OrderManager.Label.entering, intent.property, if_neg Bool.false_ne_true]
  | enters cfg rest batch d decided limit hquantity hlimit hl hpc hlets =>
    -- a leg that has no price or no quantity is not submitted
    by_cases hsubmitting : s.submitting = some d.signal.key
    · rw [hsubmitting]
      exact OrderManager.pending_step hs hlets.step
    · subst hl
      have hblock := block_of_run h
      rw [hpc] at hblock
      have hom : s'.om = s.om := by
        rw [← Option.some.inj hblock]
        exact om_submission hpc (submitting_eq_none hpc hsubmitting)
      exact hsame (hom ▸ holds_refl _)

end ExecutionRunner

/-! ## Runs with room -/

namespace ExecutionRunner

variable {env : RunnerEnv} {risk : FullRiskConfig} {s s' : ExecutionRunner} {l : Label}

/-- **The exposure is bounded.** -/
structure Bounded (risk : FullRiskConfig) (s : ExecutionRunner) : Prop where
  orderly : s.om.Orderly
  nodup : s.pm.openKeys.Nodup
  allows : risk.Allows s.exposure
  pending : s.om.pendingEntries.length ≤ risk.globalRisk.maxOpenOrders

/-- **The exposure grows where a leg is submitted or a fill is handled**, and
by no more than that. -/
theorem exposure_step (hs : s.om.Orderly) (h : s.step env l = some s') :
    s'.exposure ⊆ s.exposure ∨ (∃ k ∈ s.submitting, s'.exposure ⊆ insert k s.exposure)
      ∨ ∃ fill ∈ l.filling, s'.exposure ⊆ insert fill.key s.exposure := by
  rcases (step_effect h).openKeys with hsame | ⟨fill, rfl, rfl⟩
  · have hsub : ∀ k ∈ s'.exposure, s.submitting = some k ∨ k ∈ s.exposure := by
      intro k hk
      rcases mem_exposure.mp hk with hopen | hpending
      · exact .inr (mem_exposure.mpr (.inl (hsame ▸ hopen)))
      · rcases List.mem_append.mp ((pending_step hs h).keys hpending) with hnew | hold
        · exact .inl (Option.mem_toList.mp hnew)
        · exact .inr (mem_exposure.mpr (.inr hold))
    cases hk : s.submitting with
    | none =>
      rw [hk] at hsub
      exact .inl fun k hmem => (hsub k hmem).resolve_left nofun
    | some k =>
      rw [hk] at hsub
      exact .inr (.inl ⟨k, rfl, fun k' hmem =>
        Finset.mem_insert.mpr ((hsub k' hmem).imp_left fun heq => (Option.some.inj heq).symm)⟩)
  · refine .inr (.inr ⟨fill, rfl, fun k hk => ?_⟩)
    rw [Finset.mem_insert]
    rcases mem_exposure.mp hk with hopen | hpending
    · rw [openKeys_filled] at hopen
      rcases s.pm.openKeys_handleFill (s.attributed fill) with ⟨-, heq⟩ | hsub
      · rw [heq, List.mem_append, List.mem_singleton, key_attributed] at hopen
        exact hopen.symm.imp_right fun hopen => mem_exposure.mpr (.inl hopen)
      · exact .inr (mem_exposure.mpr (.inl (hsub.subset hopen)))
    · exact .inr (mem_exposure.mpr (.inr hpending))

/-- **Room at one step keeps the exposure bounded.** -/
theorem Bounded.step (hs : s.Bounded risk) (h : s.step env l = some s')
    (hroom : s.HasRoom risk l) : s'.Bounded risk where
  orderly := orderly_step hs.orderly h
  nodup := by
    rcases (step_effect h).openKeys with hsame | ⟨fill, -, rfl⟩
    · exact hsame ▸ hs.nodup
    · rw [openKeys_filled]
      exact PositionManager.nodup_openKeys_handleFill hs.nodup
  allows := by
    rcases exposure_step hs.orderly h with hsub | ⟨k, hk, hsub⟩ | ⟨fill, hfill, hsub⟩
    · exact hs.allows.mono hsub
    · exact (hroom.submitted k hk).1.mono hsub
    · by_cases hmem : fill.key ∈ s.exposure
      · rw [Finset.insert_eq_of_mem hmem] at hsub
        exact hs.allows.mono hsub
      · exact (hroom.filled fill hfill hmem).mono hsub
  pending := by
    have hlength := (pending_step hs.orderly h).length
    cases hk : s.submitting with
    | none => exact (hk ▸ hlength).trans hs.pending
    | some k => exact (hk ▸ hlength).trans (hroom.submitted k hk).2

/-- An entry order that is active is outstanding. -/
theorem activeEntries_subset (hs : s.om.Orderly) : s.activeEntries ⊆ s.om.pendingEntries := by
  intro o ho
  obtain ⟨hactive, hentry⟩ := List.mem_filter.mp ho
  obtain ⟨x, hx, hentry⟩ := (Option.any_eq_true _ _).mp hentry
  obtain ⟨y, hy, hactive⟩ := (Option.any_eq_true _ _).mp (List.mem_filter.mp hactive).2
  obtain rfl := Option.some.inj (hx.symm.trans hy)
  have hfree : x.supersededBy = none := by
    by_contra hlink
    obtain ⟨n, hn⟩ := Option.ne_none_iff_exists'.mp hlink
    rw [OrderStatus.active_eq_false_iff.mpr (hs.linked o x n hx hn).1] at hactive
    cases hactive
  exact OrderManager.mem_pendingEntries.mpr
    ⟨x, hx, by simp [OrderManager.outstanding, OrderManager.unsettled, hentry, hfree, hactive]⟩

/-- **A bounded exposure is within the limits.** -/
theorem Bounded.withinLimits (hs : s.Bounded risk) : s.WithinLimits risk := by
  have hmem : ∀ pos ∈ s.pm.getOpenPositions, pos.key ∈ s.exposure := fun pos hpos =>
    mem_exposure.mpr (.inl (List.mem_map_of_mem hpos))
  refine ⟨?_, fun sid => hs.allows.perStrategy.length_filter_le hs.nodup hmem sid,
    fun symbol => hs.allows.perUnderlying.length_filter_le hs.nodup hmem symbol, ?_⟩
  · have hall := hs.allows.total.length_filter_le hs.nodup hmem ()
    rwa [List.filter_eq_self.mpr fun _ _ => decide_eq_true rfl] at hall
  · have hnodup : s.activeEntries.Nodup := (List.nodup_range.filter _).filter _
    exact (hnodup.subperm (activeEntries_subset hs.orderly)).length_le.trans hs.pending

/-- Flat at the start, nothing is exposed. -/
theorem bounded_initial (risk : FullRiskConfig) {start : Startup}
    (hflat : ∀ pos ∈ start.positions, pos.status.isOpen = false) :
    (initial start).Bounded risk := by
  have hopen : (initial start).pm.openKeys = [] := by
    rw [PositionManager.openKeys, List.map_eq_nil_iff]
    refine List.filter_eq_nil_iff.mpr fun pos hpos => ?_
    rw [hflat pos hpos]
    exact Bool.false_ne_true
  have hempty : (initial start).exposure = ∅ := by
    rw [exposure, hopen]
    rfl
  refine ⟨OrderManager.orderly_initial start.clock, hopen ▸ List.nodup_nil, ?_, Nat.zero_le _⟩
  rw [hempty]
  exact ⟨.empty, .empty, .empty⟩

/-- **In a run in which legs and fills find room the limits hold in every
state**, whatever is approved. -/
theorem withinLimits_of_hasRoom (env : RunnerEnv) (risk : FullRiskConfig) (start : Startup)
    (hflat : ∀ pos ∈ start.positions, pos.status.isOpen = false) (ls : List Label) :
    (machine env).Along (fun s l _ => s.HasRoom risk l) (initial start) ls →
      (machine env).Throughout (WithinLimits risk) (initial start) ls := by
  intro hroom
  have hstart := bounded_initial risk hflat
  refine Machine.throughout_iff_along.mpr ⟨hstart.withinLimits, ?_⟩
  exact Machine.along_of_step (J := Bounded risk) (fun _ _ _ hs h hC => hs.step h hC)
    (fun _ _ _ hs h hC => (hs.step h hC).withinLimits) hstart hroom

end ExecutionRunner

/-! ## What the risk engine sees -/

/-- The runner with the risk engine. -/
def RunnerEnv.judgedBy (env : RunnerEnv) (engine : RiskEngine) : RunnerEnv :=
  { env with evaluate := engine.evaluate }

namespace ExecutionRunner

variable {engine : RiskEngine} {s : ExecutionRunner} {signal : StrategySignal}
  {quote : Option QuoteSnapshot}

/-- The engine counts the open positions. -/
theorem countActive_systemState (p : PositionInfo → Bool) :
    RiskEngine.countActive { s.systemState with quote := quote } p
      = s.pm.getOpenPositions.countP fun pos =>
          p ⟨pos.strategyId, pos.contract.symbol, pos.status, pos.quantity⟩ := by
  rw [RiskEngine.countActive, systemState, List.countP_map]
  refine List.countP_congr fun pos hpos => ?_
  have hopen := (List.mem_filter.mp hpos).2
  have hactive : pos.status.active = true := by
    cases hstatus : pos.status <;> rw [hstatus] at hopen <;> first | rfl | cases hopen
  simp [hactive]

/-- **With nothing outstanding, what the engine approves finds room.** -/
theorem room_of_approved (hs : s.Bounded engine.risk) (hnone : s.om.pendingEntries = [])
    (happroved : (engine.evaluate signal { s.systemState with quote := quote }).approved = true) :
    engine.risk.Allows (insert signal.key s.exposure)
      ∧ s.om.pendingEntries.length < engine.risk.globalRisk.maxOpenOrders := by
  obtain ⟨hall, hstrategy, hunderlying, -⟩ := RiskEngine.below_of_approved happroved
  rw [countActive_systemState] at hall hstrategy hunderlying
  have hexposure : s.exposure = (s.pm.getOpenPositions.map Position.key).toFinset := by
    rw [exposure, OrderManager.pendingKeys, hnone, List.filterMap_nil, List.append_nil]
    rfl
  have hcard : ∀ p : PositionKey → Bool, (s.exposure.filter fun k => p k = true).card
      ≤ s.pm.getOpenPositions.countP fun pos => p pos.key :=
    fun p => hexposure ▸ card_filter_map_le _ _ p
  refine ⟨⟨?_, ?_, ?_⟩, ?_⟩
  · refine hs.allows.total.insert (lt_of_le_of_lt ?_ hall)
    simpa using hcard fun _ => true
  · refine hs.allows.perStrategy.insert (lt_of_le_of_lt ?_ hstrategy)
    have := hcard fun k => k.1 = signal.strategyId
    simp only [decide_eq_true_eq] at this
    exact this
  · refine hs.allows.perUnderlying.insert (lt_of_le_of_lt ?_ hunderlying)
    have := hcard fun k => k.2.1 = signal.contract.symbol
    simp only [decide_eq_true_eq] at this
    exact this
  · rw [hnone]
    exact engine.risk.globalRisk.orders_pos

end ExecutionRunner

/-! ## A straddle -/

/-- One strategy that may have one position. -/
def sampleRisk : FullRiskConfig where
  globalRisk :=
    { dailyLossLimit := 1
      maxOpenPositions := 1
      maxOpenOrders := 1
      maxContractsPerTrade := 2
      maxPremiumPerTrade := 1000
      noNewTradesCutoffUtc := "19:30"
      cutoffTime := 70200
      loss_pos := one_dollar_pos
      positions_pos := Nat.one_pos
      orders_pos := Nat.one_pos
      contracts_pos := Nat.zero_lt_two
      premium_pos := by decide }
  perStrategy := ⟨1, 1, one_dollar_pos, Nat.one_pos⟩
  perUnderlying := ⟨1, Nat.one_pos⟩
  maxSpreadPct := 15
  maxAgeSeconds := 5
  spread_pos := by decide
  age_pos := by decide

def sampleEngine : RiskEngine where
  risk := sampleRisk
  strategies := [{ strategyId := "orb" }]
  floatRepr _ := ""
  fixed _ _ := ""

namespace ExecutionRunner

/-- The put of the straddle. -/
def samplePut : StrategySignal :=
  { sampleSignal with contract := { sampleContract with right := .put } }

/-- The first tick submits the legs, each with its quote, gets the broker's
answers, and ends. -/
def legsTick (legs : List StrategySignal) (answers : List Label) : List Label :=
  tickStart [] ++ [.run, .run, .orders .go, .run, .run, .run, .run]
    ++ [.reply (.tradedToday []), .run, .reply (.signals legs)]
    ++ legs.map (fun _ => .reply (.quotes fun _ => some sampleOptionQuote))
    ++ [.run] ++ answers ++ [.run, .run, .run, .run]

/-- A fill of the call, and one of the put. -/
def callFill : Label := .fill (sampleFill .buy 2 Nat.zero_lt_two)

def putFill : Label :=
  .fill { sampleFill .buy 2 Nat.zero_lt_two with orderId := 1, contract := samplePut.contract }

/-- A single leg that is filled. -/
def callTick : List Label :=
  legsTick [sampleSignal] [.orders (.resume 1 (.placed 0 .submitted))] ++ [callFill]

/-- Both legs are filled. -/
def straddleTick : List Label :=
  legsTick [sampleSignal, samplePut]
    [ .orders (.resume 1 (.placed 0 .submitted)), .run, .run,
      .orders (.resume 3 (.placed 1 .submitted)) ]
    ++ [callFill, putFill]

/-- The single leg stays within the limits. -/
theorem withinLimits_callTick :
    (machine (sampleEnv.judgedBy sampleEngine)).Throughout (WithinLimits sampleRisk)
      (initial sampleStartup) callTick :=
  withinLimits_of_hasRoom (sampleEnv.judgedBy sampleEngine) sampleRisk sampleStartup
    (List.forall_mem_nil _) callTick (by decide +kernel)

/-- **Both legs of the straddle are approved where one position may be
open**, and both are opened. -/
theorem not_withinLimits :
    ¬ ∀ (engine : RiskEngine) (env : RunnerEnv) (start : Startup),
      (∀ pos ∈ start.positions, pos.status.isOpen = false) → ∀ ls,
        (machine (env.judgedBy engine)).Throughout (WithinLimits engine.risk)
          (initial start) ls := by
  intro h
  have hrun : ((machine (sampleEnv.judgedBy sampleEngine)).run (initial sampleStartup)
      straddleTick).map (fun s => s.pm.getOpenPositions.length) = some 2 := by
    decide +kernel
  obtain ⟨s, hs, hopen⟩ := Option.map_eq_some_iff.mp hrun
  have hlimits := h sampleEngine sampleEnv sampleStartup (List.forall_mem_nil _) straddleTick
    straddleTick s List.prefix_rfl hs
  have hle : s.pm.getOpenPositions.length ≤ 1 := hlimits.positions
  rw [hopen] at hle
  exact absurd hle (by decide)

end ExecutionRunner
