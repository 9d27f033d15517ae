import ExecutionSystem.BrokerSession
import Mathlib.Algebra.Order.BigOperators.Group.List
import Mathlib.Algebra.Order.Ring.Nat

/-!
# The fills of a replacement chain

A replacement is sized as the quantity of the order it replaces less what
is stored of that order's fills. Along a chain this leaves exactly what
the stored fills leave of the quantity `submit_intent` was given, so a
replacement over-asks exactly when the broker has filled something of an
earlier order that was not reported – and three of the ways in which the
order manager takes an order for cancelled do not look at its fills.

Once an order is superseded nothing watches it any more. For the whole
chain to stay within the quantity, the broker must also not fill it then.
-/

namespace BrokerSession

variable {s t : BrokerSession} {l : Label}

/-- **The bound at the moment a replacement is placed**: for the chain of
every order that `submit_intent` placed, what the broker has filled of the
earlier orders and the quantity asked for now are within the quantity
asked for then. -/
def ReplacementWithin (s : BrokerSession) (_ : Label) (t : BrokerSession) : Prop :=
  ∀ call, t.om.placeCalls = s.om.placeCalls ++ [call] → call.supersedes ≠ none →
    ∀ root ∈ t.om.placeCalls, root.supersedes = none →
      ∀ earlier, t.om.Chain root.order earlier call.order →
        (earlier.map t.filledFor).sum + call.plan.quantity ≤ root.plan.quantity

/-- **The whole chain fills no more than was asked for.** -/
def ChainsWithin (s : BrokerSession) : Prop :=
  ∀ root ∈ s.om.placeCalls, root.supersedes = none →
    ∀ earlier last, s.om.Chain root.order earlier last →
      (earlier.map s.filledFor).sum + s.filledFor last ≤ root.plan.quantity

/-- **All fills are reported where an order is replaced**: of that order
and of those before it in its chain. -/
def FillsReported (s : BrokerSession) (l : Label) : Prop :=
  ∀ (k : OrderManager.Label) (o : OrderId) (x : OrderState) (p : Price),
    s.program? l = some k → s.om.replacing k = some (o, x, p) →
      ∀ i es, s.om.Chain i es o → s.om.storedFill i = s.filledFor i

/-- **The broker fills no order that was replaced.** -/
def NoLateFill (s : BrokerSession) (l : Label) : Prop :=
  ∀ (b : BrokerOrderId) (n : ℕ) (bo : BrokerOrder) (x : OrderState),
    l = .fill b n → s.broker[b]? = some bo → s.om.orders[bo.forOrder]? = some x →
      x.supersededBy = none

/-! ## At a replacement -/

/-- Of what is stored and what is filled along a chain the sums agree only
where each order's do. -/
theorem Sound.stored_eq_of_sum_le (hs : s.Sound) {os : List OrderId}
    (hos : ∀ o ∈ os, ∃ x, s.om.orders[o]? = some x)
    (hle : (os.map s.filledFor).sum ≤ (os.map s.om.storedFill).sum) :
    ∀ o ∈ os, s.om.storedFill o = s.filledFor o := by
  have hstored : ∀ o ∈ os, s.om.storedFill o ≤ s.filledFor o := by
    intro o ho
    obtain ⟨x, hx⟩ := hos o ho
    rw [OrderManager.storedFill_eq hx]
    exact hs.stored o x hx
  intro o ho
  by_contra hne
  exact absurd hle (List.sum_lt_sum _ _ hstored
    ⟨o, ho, lt_of_le_of_ne (hstored o ho) hne⟩).not_ge

/-- The orders of a chain are orders. -/
theorem Sound.chain_order {i o : OrderId} {x : OrderState}
    {es : List OrderId} (hc : s.om.Chain i es o) (hx : s.om.orders[o]? = some x) :
    ∀ j ∈ es ++ [o], ∃ y, s.om.orders[j]? = some y := by
  intro j hj
  rcases List.mem_append.mp hj with hj | hj
  · obtain ⟨y, -, hy, -⟩ := hc.mem_earlier hj
    exact ⟨y, hy⟩
  · obtain rfl := List.mem_singleton.mp hj
    exact ⟨x, hx⟩

/-- What a replacement asks for, seen from the start of the chain. -/
theorem Sound.sum_stored_replacement (hs : s.Sound) {root : PlaceCall} {o : OrderId}
    {x : OrderState} {es : List OrderId} (hroot : root ∈ s.om.placeCalls)
    (hx : s.om.orders[o]? = some x) (hq : 0 < x.quantity - x.filledQuantity)
    (hc : s.om.Chain root.order es o) :
    ((es ++ [o]).map s.om.storedFill).sum + (x.quantity - x.filledQuantity)
      = root.plan.quantity := by
  obtain ⟨z, hz, hzq⟩ := hs.chained.called.order root hroot
  have hsum := hc.sum_stored hs.chained.linked hz hx
  simp only [List.map_append, List.sum_append, List.map_cons, List.map_nil,
    List.sum_singleton, OrderManager.storedFill_eq hx, ← hzq]
  omega

/-- Where a replacement is within the bound all fills of its chain are
reported: the chain of the new order tells. -/
theorem fillsReported_of_replacementWithin (hs : s.Sound) (h : s.step l = some t)
    (hwithin : ReplacementWithin s l t) : s.FillsReported l := by
  intro k o x p hk hr i es hc
  rcases step_om h with ⟨hnone, -⟩ | ⟨k', hk', hom, hb, -⟩
  · rw [hk] at hnone; cases hnone
  obtain rfl := Option.some.inj (hk.symm.trans hk')
  obtain ⟨u, c, r, q, hp, -, -, -, hh⟩ := OrderManager.step_replacing hom hr
  obtain ⟨-, -, -, -, -, -, -, -, hx, -⟩ := OrderManager.replacing_eq_some.mp hr
  have hi : i < s.om.orders.length := by
    obtain ⟨y, hy⟩ := Sound.chain_order hc hx i hc.root_mem
    exact (List.getElem?_eq_some_iff.mp hy).1
  obtain ⟨root, hroot, hnone, fs, hd⟩ := hs.chained.called.rooted i hi
  have hchain := hd.append hc
  have hlink : t.om.orders[o]? = some (x.superseded s.om.orders.length) := by
    rw [hh.orders, List.getElem?_append_left
      (by rw [List.length_modify]; exact (List.getElem?_eq_some_iff.mp hx).1)]
    exact List.getElem?_modify_iff.mpr ⟨x, hx, (if_pos rfl).symm⟩
  have hbound := hwithin _ hh.placeCalls nofun root
    (hh.placeCalls ▸ List.mem_append_left _ hroot) hnone _
    ((hchain.step hs.chained.owned hom).link hlink rfl)
  have hfilled : t.filledFor = s.filledFor := by
    funext j; simp only [filledFor, hb]
  have hsum := hs.sum_stored_replacement hroot hx q hchain
  rw [hfilled] at hbound
  change _ + (x.quantity - x.filledQuantity) ≤ _ at hbound
  refine hs.stored_eq_of_sum_le (Sound.chain_order hchain hx) (by omega) i ?_
  rcases List.mem_append.mp hc.root_mem with hmem | hmem
  · exact List.mem_append_left _ (List.mem_append_right _ hmem)
  · exact List.mem_append_right _ hmem

/-- Where they are reported what is stored is what was filled, and the
links add up. -/
theorem replacementWithin_of_fillsReported (hs : s.Sound) (h : s.step l = some t)
    (hrep : s.FillsReported l) : ReplacementWithin s l t := by
  intro call hcall hsup root hroot hnone earlier hc
  rcases step_om h with ⟨-, hom⟩ | ⟨k, hk, hom, hb, -⟩
  · rw [hom] at hcall
    exact absurd (congrArg List.length hcall) (by simp)
  have he := OrderManager.step_effect hom
  rcases he.placeCalls with ⟨hcalls, -⟩ | ⟨y, hnew, hy, -⟩
  · rw [hcalls] at hcall
    exact absurd (congrArg List.length hcall) (by simp)
  cases hnew with
  | submitted q hl hplan hfree hcalls =>
    obtain rfl := List.singleton_inj.mp
      (List.append_cancel_left (hcalls.symm.trans hcall))
    exact absurd rfl hsup
  | @replaced o x p hr q hp hcalls =>
    obtain rfl := List.singleton_inj.mp
      (List.append_cancel_left (hcalls.symm.trans hcall))
    obtain ⟨-, -, -, -, -, -, -, -, hx, -⟩ := OrderManager.replacing_eq_some.mp hr
    have hroot' : root ∈ s.om.placeCalls := by
      rcases List.mem_append.mp (hcalls ▸ hroot) with hroot | hroot
      · exact hroot
      · obtain rfl := List.mem_singleton.mp hroot
        cases hnone
    have hlt : root.order < s.om.orders.length := by
      obtain ⟨z, hz, -⟩ := hs.chained.called.order root hroot'
      exact (List.getElem?_eq_some_iff.mp hz).1
    obtain ⟨es, rfl, hchain⟩ :=
      hc.before_replacement hs.chained.linked he hlt hr
    -- what the manager has stored of the chain is what the broker has filled
    have hstored : (es ++ [o]).map t.filledFor
        = (es ++ [o]).map s.om.storedFill := by
      refine List.map_congr_left fun j hj => ?_
      obtain ⟨fs, hj⟩ := hchain.suffix hj
      rw [hrep k o x p hk hr j fs hj]
      simp only [filledFor, hb]
    rw [hstored]
    exact (hs.sum_stored_replacement hroot' hx q hchain).le

/-- **One replacement is within the bound exactly when all fills of its
chain are reported.** -/
theorem replacementWithin_iff (hs : s.Sound) (h : s.step l = some t) :
    ReplacementWithin s l t ↔ s.FillsReported l :=
  ⟨fillsReported_of_replacementWithin hs h, replacementWithin_of_fillsReported hs h⟩

/-! ## Over a whole run -/

/-- What is stored of the fills of a superseded order is what the broker
has filled. -/
def Settled (s : BrokerSession) : Prop :=
  ∀ (o : OrderId) (x : OrderState) (n : OrderId), s.om.orders[o]? = some x →
    x.supersededBy = some n → x.filledQuantity = s.filledFor o

theorem Settled.step (hs : s.Sound) (hset : s.Settled) (h : s.step l = some t)
    (hrep : s.FillsReported l) (hlate : s.NoLateFill l) : t.Settled := by
  intro o y n hy hn
  rcases step_lookup h hy with ⟨x, hx, hxy⟩ | ⟨k, -, hnew⟩
  · have hfilled : x.supersededBy ≠ none → t.filledFor o = s.filledFor o := by
      intro hsup
      rcases (step_filledFor h o).2 with hsame | ⟨b, m, bo, rfl, hbo, rfl⟩
      · exact hsame
      · exact absurd (hlate b m bo x rfl hbo hx) hsup
    rcases hxy with rfl | ⟨k, hk, htouch, -⟩
    · rw [hfilled (by rw [hn]; nofun)]
      exact hset o y n hx hn
    · rcases htouch.supersededBy with hsame | ⟨rfl, p, hr⟩
      · rw [hsame] at hn
        obtain ⟨hd, -⟩ := hs.chained.linked o x n hx hn
        rw [hfilled (by rw [hn]; nofun),
          (htouch.frozen hs.chained.owned hx hn hd).2]
        exact hset o x n hx hn
      · have hstored := hrep k o x p hk hr o [] .single
        rw [OrderManager.storedFill_eq hx] at hstored
        rcases step_om h with ⟨hnone, -⟩ | ⟨k', -, -, hb, -⟩
        · rw [hk] at hnone; cases hnone
        · show x.filledQuantity = t.filledFor o
          rw [hstored]
          simp only [filledFor, hb]
  · rw [hnew.supersededBy] at hn
    cases hn

/-- Where the superseded orders are settled, every chain is within its
quantity. -/
theorem Settled.chainsWithin (hs : s.Sound) (hset : s.Settled) : s.ChainsWithin := by
  intro root hroot hnone earlier last hc
  obtain ⟨z, hz, hzq⟩ := hs.chained.called.order root hroot
  obtain ⟨x, hx⟩ : ∃ x, s.om.orders[last]? = some x := by
    cases hc with
    | single => exact ⟨z, hz⟩
    | link hc hx hn =>
      obtain ⟨-, y, hy, -⟩ := hs.chained.linked _ _ _ hx hn
      exact ⟨y, hy⟩
  have hsum := hc.sum_stored hs.chained.linked hz hx
  have hstored : earlier.map s.filledFor = earlier.map s.om.storedFill := by
    refine List.map_congr_left fun o ho => ?_
    obtain ⟨y, n, hy, hn⟩ := hc.mem_earlier ho
    rw [OrderManager.storedFill_eq hy]
    exact (hset o y n hy hn).symm
  have hlast := hs.filledFor_le hx
  rw [hstored, ← hzq]
  omega

theorem settled_initial : initial.Settled := by
  intro o x n hx
  cases hx

/-- **Every replacement of a run is within the bound exactly when the fills
of its chain are all reported by then; and if the broker also fills no
order that was replaced, no chain ever fills more than was asked for.** -/
theorem replacementWithin_iff_fillsReported (ls : List Label) :
    (machine.Along ReplacementWithin initial ls
        ↔ machine.Along (fun s l _ => s.FillsReported l) initial ls)
      ∧ (machine.Along (fun s l _ => s.FillsReported l ∧ s.NoLateFill l) initial ls →
          machine.Throughout ChainsWithin initial ls) := by
  constructor
  · exact Machine.along_iff_of_step (J := Sound) (fun _ _ _ hs h => hs.step h)
      (fun _ _ _ hs h => replacementWithin_iff hs h) sound_initial
  · intro hC ks t hks ht
    obtain ⟨rest, rfl⟩ := hks
    have hinv : t.Sound ∧ t.Settled :=
      Machine.run_invariant (J := fun s => s.Sound ∧ s.Settled)
        (fun _ _ _ hs h hC => ⟨hs.1.step h, hs.2.step hs.1 h hC.1 hC.2⟩)
        ⟨sound_initial, settled_initial⟩ (Machine.along_append.mp hC).1 ht
    exact hinv.2.chainsWithin hinv.1

/-- The run that goes wrong: one of two contracts is executed while the
repricer waits for its cancel, the callbacks are lost, and the sweep
adopts the broker's `CANCELLED` without its fills. -/
def sweptWithoutFills : List Label :=
  [ .program (.submit (sampleIntent none true .buy) sampleDecision false
      (some { enabled := true }) none),
    .accept 0,
    .program (.resume 0 (.placed 0 .submitted)),
    .program (.wake 1), .program .go,
    .program (.advance 5), .program (.wake 1), .program .go,
    .program (.resume 1
      (.quote (some ⟨some 1, some (6 / 5), none, 5, by decide +kernel⟩))),
    .program .go, .program .go,
    .program (.resume 1 (.cancelled true)), .program .go,
    .fill 0 1,
    .settle 0 .cancelled,
    .program (.advance 20),
    .program (.sweep 20), .program .go,
    .program (.resume 2 (.orderStatus (some .cancelled))), .program .go,
    .program (.wake 1) ]

/-- Replacement chains over-fill: of two contracts one is filled, and the
replacement asks for two. -/
theorem not_replacementWithin :
    ¬ ∀ ls, machine.Along ReplacementWithin initial ls
      ∧ machine.Throughout ChainsWithin initial ls := by
  intro h
  have hrun : (machine.run initial sweptWithoutFills).any (fun s =>
      (machine.step s (.program .go)).any (fun t =>
        t.om.placeCalls.take 1 = s.om.placeCalls
          ∧ t.om.placeCalls.map (fun c => (c.order, c.plan.quantity, c.supersedes))
            = [(0, 2, none), (1, 2, some 0)]
          ∧ t.om.orders.map (·.supersededBy) = [some 1, none]
          ∧ t.filledFor 0 = 1)) = true := by
    decide +kernel
  simp only [Option.any_eq_true, decide_eq_true_eq] at hrun
  obtain ⟨s, hs, t, ht, htake, hcalls, hlinks, hfill⟩ := hrun
  obtain ⟨root, _, hcalls, hroot, hrest⟩ := List.map_eq_cons_iff.mp hcalls
  obtain ⟨call, _, rfl, hcall, hrest⟩ := List.map_eq_cons_iff.mp hrest
  obtain rfl := List.map_eq_nil_iff.mp hrest
  simp only [Prod.mk.injEq] at hroot hcall
  obtain ⟨hroot, hrootq, hnone⟩ := hroot
  obtain ⟨hnew, hcallq, hsup⟩ := hcall
  obtain ⟨x, hx, hlink⟩ := OrderManager.lookup_of_map 0 hlinks rfl
  have hbound := Machine.along_step (h (sweptWithoutFills ++ [.program .go])).1 hs ht
    call (by rw [hcalls, ← htake, hcalls]; rfl) (by rw [hsup]; nofun)
    root (by rw [hcalls]; exact List.mem_cons_self) hnone [0]
    (by rw [hroot, hnew]; exact OrderManager.Chain.single.link hx hlink)
  simp [hfill, hcallq, hrootq] at hbound

end BrokerSession
