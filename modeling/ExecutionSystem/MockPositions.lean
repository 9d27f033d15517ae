import ExecutionSystem.CleanReport
import ExecutionSystem.MockBroker
import ExecutionSystem.NetQuantity
import Mathlib.Algebra.BigOperators.Group.Finset.Basic
import Mathlib.Algebra.BigOperators.Group.List.Basic

/-!
# The mock broker's positions against the book

The mock broker nets its fills into positions of its own, and the runner's book
takes the same fills one by one from the callbacks; a reconciliation compares
the two. They agree in what they hold of a contract for as long as no fill has
taken a net through zero – the book stops there and the broker turns the
position over – and the first fill that does is found by the next reconciliation
(`MockBroker.reconcile_clean_iff`).

Both are lists of positions that hold certain nets (`HoldsNets`), one position for
each net that is not zero, and lists that hold the same nets hold the same of
every contract.
-/

/-- **The positions hold the nets `n`**: one for each strategy and contract whose
net is not zero, and none of them empty. -/
structure HoldsNets (positions : List Position) (n : PositionKey → ℤ) : Prop where
  nodup : (positions.map Position.key).Nodup
  positive : ∀ pos ∈ positions, 0 < pos.quantity
  signed : ∀ pos ∈ positions, pos.signed = n pos.key
  held : ∀ k, n k ≠ 0 → k ∈ positions.map Position.key

/-- The contract of a strategy and a contract. -/
def contractKeyOf (k : PositionKey) : ContractKey := (k.2.1.toUpper, k.2.2)

namespace HoldsNets

variable {positions others : List Position} {n m : PositionKey → ℤ}

theorem nil : HoldsNets [] fun _ => 0 where
  nodup := List.nodup_nil
  positive := fun _ hpos => absurd hpos List.not_mem_nil
  signed := fun _ hpos => absurd hpos List.not_mem_nil
  held := fun _ hk => absurd rfl hk

/-- **What is held of a contract** is the sum of the nets of its strategies. -/
theorem netHolding_eq (h : HoldsNets positions n) {keys : Finset PositionKey}
    (hkeys : ∀ k ∈ positions.map Position.key, k ∈ keys) (c : ContractKey) :
    netHolding (positions.map Position.holding) c
      = ∑ k ∈ keys with contractKeyOf k = c, n k := by
  have hcounted : countedHoldings (positions.map Position.holding)
      = positions.map Position.holding := by
    refine List.filter_eq_self.mpr fun holding hmem => ?_
    obtain ⟨pos, hpos, rfl⟩ := List.mem_map.mp hmem
    exact decide_eq_true (h.positive pos hpos)
  have hlist : netHolding (positions.map Position.holding) c
      = (((positions.map Position.key).filter (contractKeyOf · = c)).map n).sum := by
    rw [netHolding, hcounted, List.filter_map, List.map_map, List.filter_map, List.map_map]
    refine congrArg List.sum (List.map_congr_left fun pos hpos => ?_)
    exact h.signed pos (List.mem_of_mem_filter hpos)
  have hnodup : ((positions.map Position.key).filter (contractKeyOf · = c)).Nodup :=
    h.nodup.filter _
  rw [hlist, ← List.sum_toFinset n hnodup]
  refine Finset.sum_subset (fun k hk => ?_) fun k hk hnot => ?_
  · obtain ⟨hmem, hc⟩ := List.mem_filter.mp (List.mem_toFinset.mp hk)
    exact Finset.mem_filter.mpr ⟨hkeys k hmem, of_decide_eq_true hc⟩
  · -- a key that is not held has no net
    by_contra hne
    refine hnot (List.mem_toFinset.mpr (List.mem_filter.mpr ⟨h.held k hne, ?_⟩))
    exact decide_eq_true (Finset.mem_filter.mp hk).2

/-- **Positions are reconciled clean** exactly when the nets of each contract add
up to the same. -/
theorem clean_iff (h : HoldsNets positions n) (h' : HoldsNets others m) {keys : Finset PositionKey}
    (hkeys : ∀ k ∈ positions.map Position.key, k ∈ keys)
    (hkeys' : ∀ k ∈ others.map Position.key, k ∈ keys) :
    (comparePositions positions (others.map Position.holding)).details = []
      ↔ ∀ c, ∑ k ∈ keys with contractKeyOf k = c, n k
        = ∑ k ∈ keys with contractKeyOf k = c, m k := by
  rw [comparePositions_details_eq_nil]
  exact forall_congr' fun c => by rw [h.netHolding_eq hkeys, h'.netHolding_eq hkeys']

/-- Positions that hold the same nets are reconciled clean. -/
theorem clean (h : HoldsNets positions n) (h' : HoldsNets others n) :
    (comparePositions positions (others.map Position.holding)).details = [] := by
  have hleft : ∀ k ∈ positions.map Position.key,
      k ∈ (positions.map Position.key ++ others.map Position.key).toFinset :=
    fun k hk => List.mem_toFinset.mpr (List.mem_append_left _ hk)
  have hright : ∀ k ∈ others.map Position.key,
      k ∈ (positions.map Position.key ++ others.map Position.key).toFinset :=
    fun k hk => List.mem_toFinset.mpr (List.mem_append_right _ hk)
  exact (h.clean_iff h' hleft hright).mpr fun _ => rfl

/-- Nets that differ in one place at most are reconciled clean exactly when they
do not differ there. -/
theorem clean_iff_of_ne (h : HoldsNets positions n) (h' : HoldsNets others m) (j : PositionKey)
    (hsame : ∀ k, k ≠ j → n k = m k) :
    (comparePositions positions (others.map Position.holding)).details = [] ↔ n j = m j := by
  obtain ⟨keys, hmem, hkeys, hkeys'⟩ : ∃ keys : Finset PositionKey, j ∈ keys
      ∧ (∀ k ∈ positions.map Position.key, k ∈ keys)
      ∧ ∀ k ∈ others.map Position.key, k ∈ keys :=
    ⟨insert j (positions.map Position.key ++ others.map Position.key).toFinset,
      Finset.mem_insert_self .., fun k hk => by simp [List.mem_map.mp hk],
      fun k hk => by simp [List.mem_map.mp hk]⟩
  rw [h.clean_iff h' hkeys hkeys']
  constructor
  · intro hsum
    have hsum := hsum (contractKeyOf j)
    have hfilter : j ∈ keys.filter (contractKeyOf · = contractKeyOf j) :=
      Finset.mem_filter.mpr ⟨hmem, rfl⟩
    have hrest : ∑ k ∈ (keys.filter (contractKeyOf · = contractKeyOf j)).erase j, n k
        = ∑ k ∈ (keys.filter (contractKeyOf · = contractKeyOf j)).erase j, m k :=
      Finset.sum_congr rfl fun k hk => hsame k (Finset.ne_of_mem_erase hk)
    rw [← Finset.add_sum_erase _ _ hfilter, ← Finset.add_sum_erase _ _ hfilter, hrest] at hsum
    exact add_right_cancel hsum
  · intro hj c
    refine Finset.sum_congr rfl fun k _ => ?_
    by_cases hk : k = j
    · rw [hk, hj]
    · exact hsame k hk

/-- Two of the positions have different keys. -/
theorem key_ne (h : HoldsNets positions n) {i j : ℕ} {pos other : Position}
    (hi : positions[i]? = some pos) (hj : positions[j]? = some other) (hij : i ≠ j) :
    other.key ≠ pos.key := by
  intro heq
  refine hij (List.index_eq_of_filterMap_nodup (f := (some ·.key)) ?_ hi hj rfl
    (congrArg some heq))
  rw [List.filterMap_eq_map']
  exact h.nodup

/-- **A position of a new key** holds its net. -/
theorem append (h : HoldsNets positions n) {pos : Position} (hpos : 0 < pos.quantity)
    (hnew : pos.key ∉ positions.map Position.key) :
    HoldsNets (positions ++ [pos]) (Function.update n pos.key pos.signed) := by
  have hne : ∀ old ∈ positions, old.key ≠ pos.key :=
    fun old hold heq => hnew (List.mem_map.mpr ⟨old, hold, heq⟩)
  refine ⟨?_, ?_, ?_, ?_⟩
  · rw [List.map_append, List.nodup_append_comm]
    exact List.nodup_cons.mpr ⟨hnew, h.nodup⟩
  · intro x hx
    rcases List.mem_append.mp hx with hx | hx
    · exact h.positive x hx
    · obtain rfl := List.mem_singleton.mp hx
      exact hpos
  · intro x hx
    rcases List.mem_append.mp hx with hx | hx
    · rw [Function.update_of_ne (hne x hx)]
      exact h.signed x hx
    · obtain rfl := List.mem_singleton.mp hx
      rw [Function.update_self]
  · intro k hk
    rw [List.map_append, List.mem_append]
    by_cases hkey : k = pos.key
    · exact .inr (List.mem_singleton.mpr hkey)
    · rw [Function.update_of_ne hkey] at hk
      exact .inl (h.held k hk)

/-- **Without a position** its net is zero. -/
theorem eraseIdx (h : HoldsNets positions n) {i : ℕ} {pos : Position}
    (hi : positions[i]? = some pos) :
    HoldsNets (positions.eraseIdx i) (Function.update n pos.key 0) := by
  refine ⟨h.nodup.sublist ((List.eraseIdx_sublist ..).map _), ?_, ?_, ?_⟩
  · exact fun x hx => h.positive x (List.mem_of_mem_eraseIdx hx)
  · intro x hx
    obtain ⟨j, hj, hx⟩ := List.mem_eraseIdx_iff_getElem?.mp hx
    rw [Function.update_of_ne (h.key_ne hi hx hj.symm)]
    exact h.signed x (List.mem_of_getElem? hx)
  · intro k hk
    by_cases hkey : k = pos.key
    · rw [hkey, Function.update_self] at hk
      exact absurd rfl hk
    · rw [Function.update_of_ne hkey] at hk
      obtain ⟨x, hx, rfl⟩ := List.mem_map.mp (h.held k hk)
      obtain ⟨j, hj⟩ := List.mem_iff_getElem?.mp hx
      refine List.mem_map.mpr ⟨x, List.mem_eraseIdx_iff_getElem?.mpr ⟨j, ?_, hj⟩, rfl⟩
      rintro rfl
      obtain rfl := Option.some.inj (hi.symm.trans hj)
      exact hkey rfl

/-- **A position that keeps its key** holds the net that it has then. -/
theorem modify (h : HoldsNets positions n) {i : ℕ} {pos : Position} {f : Position → Position}
    (hi : positions[i]? = some pos) (hkey : ∀ x, (f x).key = x.key) (hpos : 0 < (f pos).quantity) :
    HoldsNets (positions.modify i f) (Function.update n pos.key (f pos).signed) := by
  have hkeys : (positions.modify i f).map Position.key = positions.map Position.key :=
    List.map_modify_eq hkey
  refine ⟨hkeys ▸ h.nodup, ?_, ?_, ?_⟩
  · intro x hx
    rcases List.mem_of_mem_modify hx with hx | ⟨old, hold, rfl⟩
    · exact h.positive x hx
    · obtain rfl := Option.some.inj (hi.symm.trans hold)
      exact hpos
  · intro x hx
    obtain ⟨j, hj⟩ := List.mem_iff_getElem?.mp hx
    obtain ⟨old, hold, rfl⟩ := List.getElem?_modify_iff.mp hj
    split_ifs with hij
    · subst hij
      obtain rfl := Option.some.inj (hi.symm.trans hold)
      rw [hkey, Function.update_self]
    · rw [Function.update_of_ne (h.key_ne hi hold hij)]
      exact h.signed old (List.mem_of_getElem? hold)
  · intro k hk
    rw [hkeys]
    by_cases hk' : k = pos.key
    · rw [hk']
      exact List.mem_map_of_mem (List.mem_of_getElem? hi)
    · rw [Function.update_of_ne hk'] at hk
      exact h.held k hk

end HoldsNets

/-! ## The broker's positions -/

section Update

variable {positions : List Position} {n : PositionKey → ℤ} {fill : FillEvent}

theorem isOf_iff {pos : Position} : pos.isOf fill = true ↔ pos.key = fill.key := by
  unfold Position.isOf
  rw [decide_eq_true_eq]
  exact Prod.mk.injEq .. ▸ Iff.rfl

theorem newNet_eq {pos : Position} (h : pos.signed = n pos.key) (hkey : pos.key = fill.key) :
    pos.newNet fill = n fill.key + fill.signed := by
  rw [← hkey, ← h]
  rfl

/-- What is updated by a fill has the new net. -/
theorem signed_updatedBy {pos : Position} : (pos.updatedBy fill).signed = pos.newNet fill := by
  show (if 0 < pos.newNet fill then OrderSide.buy else .sell).sign
    * ((pos.newNet fill).natAbs : ℤ) = _
  split_ifs with hpos
  · rw [OrderSide.sign_buy]
    omega
  · rw [OrderSide.sign_sell]
    omega

/-- **A fill adds its signed quantity to the net** that the positions hold of its
strategy and contract. -/
theorem HoldsNets.update (h : HoldsNets positions n) (pid : PositionId) (fill : FillEvent) :
    HoldsNets (updateDynamicPositions pid fill positions)
      (Function.update n fill.key (n fill.key + fill.signed)) := by
  unfold updateDynamicPositions
  cases hfind : positions.findIdx? (Position.isOf fill) with
  | none =>
    have hnew : fill.key ∉ positions.map Position.key := by
      intro hmem
      obtain ⟨pos, hpos, hkey⟩ := List.mem_map.mp hmem
      exact absurd (List.findIdx?_eq_none_iff.mp hfind pos hpos) (by simp [isOf_iff.mpr hkey])
    have hzero : n fill.key = 0 := by
      by_contra hne
      exact hnew (h.held _ hne)
    rw [hzero, zero_add]
    exact h.append fill.filled_pos hnew
  | some i =>
    obtain ⟨hlt, hof, -⟩ := List.findIdx?_eq_some_iff_getElem.mp hfind
    have hi : positions[i]? = some positions[i] := List.getElem?_eq_getElem hlt
    have hkey : positions[i].key = fill.key := isOf_iff.mp hof
    have hnet := newNet_eq (h.signed _ (List.getElem_mem hlt)) hkey
    simp only [hi, Option.any_some, decide_eq_true_eq]
    rw [← hnet, ← hkey]
    split_ifs with hzero
    · rw [hzero]
      exact h.eraseIdx hi
    · rw [← signed_updatedBy]
      exact h.modify hi (fun _ => rfl) (Int.natAbs_pos.mpr hzero)

end Update

namespace MockBroker

variable {cfg : MockBrokerConfig} {broker : MockBroker}

/-- The positions hold what the fills add up to. -/
def Booked (broker : MockBroker) : Prop :=
  HoldsNets broker.dynamicPositions (signedFills · broker.fills)

theorem Booked.tell (h : broker.Booked) (callback : BrokerCallback) :
    (broker.tell callback).Booked := by
  cases callback with
  | order event =>
    have hfills : (broker.tell (.order event)).fills = broker.fills := by
      show fillsOf (broker.callbacks ++ [_]) = _
      rw [fillsOf_append]
      exact List.append_nil _
    unfold Booked
    rw [hfills]
    exact h
  | fill event =>
    have hnets : (signedFills · (broker.tell (.fill event)).fills)
        = Function.update (signedFills · broker.fills) event.key
          (signedFills event.key broker.fills + event.signed) := by
      funext k
      show signedFills k (fillsOf (broker.callbacks ++ [_])) = _
      rw [fillsOf_append, signedFills_append]
      show signedFills k broker.fills + signedFills k [event] = _
      rw [signedFills_singleton]
      by_cases hk : k = event.key
      · rw [hk, if_pos rfl, Function.update_self]
      · rw [if_neg (Ne.symm hk), add_zero, Function.update_of_ne hk]
    unfold Booked
    rw [hnets]
    exact h.update broker.callbacks.length event

theorem Booked.foldl_tell (h : broker.Booked) (callbacks : List BrokerCallback) :
    (callbacks.foldl MockBroker.tell broker).Booked := by
  induction callbacks generalizing broker with
  | nil => exact h
  | cons callback callbacks ih => exact ih (h.tell callback)

theorem Booked.step {l : Label} {t : MockBroker} (h : broker.Booked)
    (hstep : (machine cfg).step broker l = some t) : t.Booked := by
  cases l with
  | connect =>
    obtain rfl := Option.some.inj hstep
    exact h
  | disconnect =>
    obtain rfl := Option.some.inj hstep
    exact h
  | place plan id now =>
    have hplace := eq_ok_of_toOption hstep
    unfold placeOrder at hplace
    split_ifs at hplace
    obtain rfl := Except.ok.inj hplace
    exact h
  | cancel id now =>
    obtain ⟨result, hresult, rfl⟩ := Option.map_eq_some_iff.mp hstep
    have hcancel := eq_ok_of_toOption hresult
    unfold cancelOrder at hcancel
    split_ifs at hcancel
    split at hcancel
    · obtain rfl := Except.ok.inj hcancel
      exact h
    · split_ifs at hcancel
      · obtain rfl := Except.ok.inj hcancel
        exact h
      · obtain rfl := Except.ok.inj hcancel
        refine Booked.tell ?_ _
        exact h
  | resume i draw now =>
    obtain ⟨task, -, rfl⟩ := Option.map_eq_some_iff.mp hstep
    split
    · exact h
    · refine Booked.foldl_tell ?_ _
      exact h

variable {ls : List Label} {s : MockBroker} {positions : List Position}

/-- **The positions of the broker hold what its fills add up to.** -/
theorem holds_signedFills (hrun : (machine cfg).run (initial cfg) ls = some s)
    (hpreset : cfg.simulatedPositions = []) (hget : s.getPositions cfg = .ok positions) :
    HoldsNets positions (signedFills · s.fills) := by
  have hdynamic : positions = s.dynamicPositions := by
    unfold getPositions at hget
    split_ifs at hget with hconnected hsimulated
    · exact absurd hpreset hsimulated
    · exact (Except.ok.inj hget).symm
  rw [hdynamic]
  have hinitial : (initial cfg).Booked := HoldsNets.nil
  exact Machine.run_invariant' (fun _ _ _ h hstep => Booked.step h hstep) hinitial hrun

theorem getPositions_eq_ok (hpreset : cfg.simulatedPositions = [])
    (hconnected : s.connected = true) : s.getPositions cfg = .ok s.dynamicPositions := by
  unfold getPositions
  rw [if_neg (not_not.mpr hconnected), if_neg (not_not.mpr hpreset)]

/-- The position of a first fill of three. -/
theorem holds_signedFills_sampleLabels : ∃ s positions,
    (machine sampleConfig).run (initial sampleConfig) sampleLabels = some s
      ∧ s.getPositions sampleConfig = .ok positions
      ∧ HoldsNets positions (signedFills · s.fills) := by
  have hrun : ((machine sampleConfig).run (initial sampleConfig) sampleLabels).any (·.connected)
      = true := by decide +kernel
  obtain ⟨s, hs, hconnected⟩ := (Option.any_eq_true _ _).mp hrun
  have hget := @getPositions_eq_ok sampleConfig s rfl hconnected
  exact ⟨s, _, hs, hget, holds_signedFills hs rfl hget⟩

end MockBroker

/-! ## The book's positions -/

namespace PositionManager

/-- Open positions of different strategies or contracts hold their nets. -/
theorem OnePerKey.holds {pm : PositionManager} (h : pm.OnePerKey) :
    HoldsNets pm.getOpenPositions pm.net where
  nodup := h.nodup
  positive := fun pos hpos =>
    h.positive pos (List.mem_of_mem_filter hpos) (List.mem_filter.mp hpos).2
  signed := fun pos hpos =>
    (h.net_eq (List.mem_of_mem_filter hpos) (List.mem_filter.mp hpos).2).symm
  held := fun k hk => by
    by_contra hnot
    exact hk (net_of_not_mem_openKeys hnot)

end PositionManager

/-- The last of some fills is the only one that can have passed through zero. -/
theorem noFlip_append_iff {gs : List FillEvent} {fill : FillEvent} (h : NoFlip gs) :
    NoFlip (gs ++ [fill])
      ↔ ¬ signedFills fill.key gs * (signedFills fill.key gs + fill.signed) < 0 := by
  constructor
  · exact fun hall => hall gs fill [] rfl
  · intro hlast as other bs hsplit
    rcases List.eq_nil_or_concat' bs with rfl | ⟨cs, last, rfl⟩
    · obtain ⟨rfl, rfl⟩ := List.append_inj' hsplit rfl |>.imp id List.singleton_inj.mp
      exact hlast
    · rw [← List.cons_append, ← List.append_assoc] at hsplit
      obtain ⟨rfl, -⟩ := List.append_inj' hsplit rfl
      exact h as other cs rfl

/-- A single fill starts from nothing. -/
theorem noFlip_singleton (fill : FillEvent) : NoFlip [fill] :=
  (noFlip_append_iff (fun _ _ _ h => by simp at h : NoFlip [])).mpr (by simp [signedFills])

namespace MockBroker

variable {cfg : MockBrokerConfig} {ls : List Label} {s : MockBroker} {positions : List Position}

/-- **A reconciliation finds the first fill through zero**: where no earlier fill
of the mock broker has taken a net through zero, the positions of the book that
took the fills agree with the broker's exactly when the last has not either. -/
theorem reconcile_clean_iff (hrun : (machine cfg).run (initial cfg) ls = some s)
    (hpreset : cfg.simulatedPositions = []) (hget : s.getPositions cfg = .ok positions)
    (hbefore : ∀ gs fill, s.fills = gs ++ [fill] → NoFlip gs) :
    (comparePositions (PositionManager.afterFills s.fills).getOpenPositions
        (positions.map Position.holding)).details = []
      ↔ NoFlip s.fills := by
  have hbook := (PositionManager.onePerKey_empty.foldl s.fills).1.holds
  have hbroker := holds_signedFills hrun hpreset hget
  rcases List.eq_nil_or_concat' s.fills with hnil | ⟨gs, fill, hfills⟩
  · rw [hnil] at hbook hbroker ⊢
    exact iff_of_true (hbook.clean hbroker) fun gs fill hs hsplit => by simp at hsplit
  · have hgs := hbefore gs fill hfills
    rw [hfills] at hbook hbroker ⊢
    -- the nets of the book before the last fill are those of the fills
    have hnet : ∀ k, (PositionManager.afterFills (gs ++ [fill])).net k
        = if fill.key = k then stopAtZero (signedFills k gs) fill.signed
          else signedFills k gs := by
      intro k
      rw [← conserves_iff.mpr hgs gs List.prefix_rfl k, PositionManager.net_afterFills,
        PositionManager.net_afterFills, List.foldl_append]
      rfl
    refine (hbook.clean_iff_of_ne hbroker fill.key fun k hk => ?_).trans ?_
    · refine (hnet k).trans ?_
      rw [if_neg (Ne.symm hk), signedFills_append, signedFills_singleton, if_neg (Ne.symm hk),
        add_zero]
    · have hlast := hnet fill.key
      rw [if_pos rfl] at hlast
      show (PositionManager.afterFills _).net _ = _ ↔ _
      rw [hlast, signedFills_append, signedFills_singleton, if_pos rfl, noFlip_append_iff hgs]
      exact stopAtZero_eq_add_iff

/-- Five are bought, and then eight sold. -/
def flipLabels : List Label :=
  [.connect, .place samplePlan 7 0, .resume 0 0 1,
    .place { samplePlan with side := .sell, quantity := 8, quantity_pos := Nat.succ_pos 7 } 9 2,
    .resume 1 0 3]

/-- The sale goes through zero, and the reconciliation finds it. -/
theorem reconcile_clean_iff_flipLabels : ∃ s positions,
    (machine {}).run (initial {}) flipLabels = some s
      ∧ s.getPositions {} = .ok positions
      ∧ ¬ NoFlip s.fills
      ∧ ((comparePositions (PositionManager.afterFills s.fills).getOpenPositions
          (positions.map Position.holding)).details = [] ↔ NoFlip s.fills) := by
  let k : PositionKey := ("orb", sampleContract.identity)
  have hrun : ((machine {}).run (initial {}) flipLabels).any (fun s =>
      s.connected && s.fills.map (fun fill => (fill.key, fill.signed)) = [(k, 5), (k, -8)])
      = true := by decide +kernel
  obtain ⟨s, hs, hfacts⟩ := (Option.any_eq_true _ _).mp hrun
  obtain ⟨hconnected, htwo⟩ := Bool.and_eq_true_iff.mp hfacts
  obtain ⟨buy, rest, hfills, hbuy, hrest⟩ := List.map_eq_cons_iff.mp (of_decide_eq_true htwo)
  obtain ⟨sell, rfl, hsell⟩ := List.map_eq_singleton_iff.mp hrest
  obtain ⟨hkey, hfive⟩ := Prod.mk.inj hbuy
  obtain ⟨hkey', height⟩ := Prod.mk.inj hsell
  have hget := @getPositions_eq_ok {} s rfl hconnected
  refine ⟨s, _, hs, hget, fun hno => hno [buy] sell [] hfills ?_,
    reconcile_clean_iff hs rfl hget fun gs fill hsplit => ?_⟩
  · rw [signedFills_singleton, if_pos (hkey.trans hkey'.symm), hfive, height]
    decide
  · rw [hfills] at hsplit
    have happend : [buy] ++ [sell] = gs ++ [fill] := hsplit
    obtain ⟨rfl, -⟩ := List.append_inj' happend rfl
    exact noFlip_singleton buy

end MockBroker
