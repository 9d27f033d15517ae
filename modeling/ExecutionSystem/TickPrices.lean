import ExecutionSystem.Quotes
import Mathlib.Tactic.NormNum

/-!
# Prices on the tick grid

Every place of the program that rounds a limit price rounds to cents below
`3.00` and to nickels from there up, ties to even: the repricer before it
stores or sends a price, `place_order` and `modify_order` of the broker
adapter before they send one. `conformTick` does so over the rationals. Since
`3.00` is on both grids the two join to one rounding
(`conformTick_isRounding`): conforming twice is conforming once, and no price
is carried across one that conforms already. A price moves by at most half a
nickel (`abs_conformTick_sub_le`).

In floats (`conformTickFloat`) a tick is the double nearest to it, and so is
the number of nickels that is rounded. The order of prices is kept
(`conformTickFloat_monotone`), and where a price is conformed across itself is
a matter of its count of ticks (`KeptBelow`, `KeptAbove`).
-/

/-! ## Cents and nickels -/

/-- The steps to the dollar at a price. -/
def tickSteps (p : Price) : ℚ := if p < 3 then 100 else 20

theorem tickSteps_pos (p : Price) : 0 < tickSteps p := by
  unfold tickSteps
  split_ifs <;> norm_num

theorem conformTick_eq_gridRound (p : Price) :
    conformTick p = gridRound roundHalfEven (tickSteps p) p := by
  unfold conformTick tickSteps
  split_ifs <;> rfl

/-- **Conforming is a rounding**: monotone, and done once and for all. -/
theorem conformTick_isRounding : IsRounding conformTick := by
  have hcents := gridRound_isRounding (n := (100 : ℚ)) roundHalfEven_isNearest (by norm_num)
  have hnickels := gridRound_isRounding (n := (20 : ℚ)) roundHalfEven_isNearest (by norm_num)
  have h := gridRound_eq_self (n := (100 : ℚ)) roundHalfEven_isNearest (by norm_num) 300
  have h' := gridRound_eq_self (n := (20 : ℚ)) roundHalfEven_isNearest (by norm_num) 60
  norm_num at h h'
  exact hcents.joined hnickels h h'

/-- **No price moves by more than half a nickel.** -/
theorem abs_conformTick_sub_le (p : Price) : |conformTick p - p| ≤ 1 / 40 := by
  rw [conformTick_eq_gridRound]
  refine (abs_gridRound_sub_le roundHalfEven_isNearest (tickSteps_pos p) p).trans ?_
  unfold tickSteps
  split_ifs <;> norm_num

/-! ## Ticks in floats -/

/-- How many ticks a price is, as the float that is rounded. -/
def tickCount (p : Price) : ℚ := if p < 3 then p * 100 else binary64 (p * 20)

/-- A price is the float of a tick. -/
def OnTick (p : Price) : Prop := conformTickFloat p = p

instance : DecidablePred OnTick := fun _ => inferInstanceAs (Decidable (_ = _))

theorem conformTickFloat_eq (p : Price) :
    conformTickFloat p = binary64 (roundHalfEven (tickCount p) / tickSteps p) := by
  unfold conformTickFloat tickCount tickSteps
  split_ifs <;> rfl

/-- A value that is nearer to an integer than to any other is rounded to it. -/
theorem roundHalfEven_eq_of_abs_sub_lt {q : ℚ} {z : ℤ} (h : |q - z| < 1 / 2) :
    roundHalfEven q = z := by
  obtain ⟨hlow, hhigh⟩ := abs_lt.mp h
  obtain ⟨hdown, hup⟩ := abs_le.mp (abs_roundHalfEven_sub_le q)
  have hbelow : (roundHalfEven q : ℚ) < z + 1 := by linarith
  have habove : (z : ℚ) < roundHalfEven q + 1 := by linarith
  have hbelow' : roundHalfEven q < z + 1 := by exact_mod_cast hbelow
  have habove' : z < roundHalfEven q + 1 := by exact_mod_cast habove
  omega

/-- The floats of cents below `3.00` are on ticks. -/
theorem onTick_cents {k : ℤ} (hk : 0 ≤ k) (hlt : k < 300) : OnTick (binary64 (k / 100)) := by
  have hk' : (0 : ℚ) ≤ k := by exact_mod_cast hk
  have hlt' : (k : ℚ) ≤ 299 := by exact_mod_cast Int.le_of_lt_add_one hlt
  have hmove := abs_le.mp (abs_binary64_sub_le ((k : ℚ) / 100))
  rw [abs_of_nonneg (by positivity)] at hmove
  have hleast := underflow_le
  unfold unitRoundoff at *
  obtain ⟨hlow, hhigh⟩ := hmove
  have hcount : roundHalfEven (binary64 ((k : ℚ) / 100) * 100) = k :=
    roundHalfEven_eq_of_abs_sub_lt (abs_lt.mpr ⟨by linarith, by linarith⟩)
  rw [OnTick, conformTickFloat, if_pos (by linarith), hcount]

/-- The floats of nickels from `3.00` up are, as long as they can be told from
one another. -/
theorem onTick_nickels {k : ℤ} (hk : 60 ≤ k) (hle : k ≤ 2 ^ 50) : OnTick (binary64 (k / 20)) := by
  have hk' : (60 : ℚ) ≤ k := by exact_mod_cast hk
  have hle' : (k : ℚ) ≤ 2 ^ 50 := by exact_mod_cast hle
  have hmove := abs_le.mp (abs_binary64_sub_le ((k : ℚ) / 20))
  have hnickels := abs_le.mp (abs_binary64_sub_le (binary64 ((k : ℚ) / 20) * 20))
  have hthree : 3 ≤ binary64 ((k : ℚ) / 20) :=
    binary64_isRounding.kept_le (by decide +kernel) (by linarith)
  rw [abs_of_nonneg (by positivity)] at hmove
  rw [abs_of_nonneg (by linarith)] at hnickels
  have hleast := underflow_le
  unfold unitRoundoff at *
  obtain ⟨hlow, hhigh⟩ := hmove
  obtain ⟨hlow', hhigh'⟩ := hnickels
  have hcount : roundHalfEven (binary64 (binary64 ((k : ℚ) / 20) * 20)) = k :=
    roundHalfEven_eq_of_abs_sub_lt (abs_lt.mpr ⟨by linarith, by linarith⟩)
  rw [OnTick, conformTickFloat, if_neg (not_lt.mpr hthree), hcount]

/-- Below `3.00` no price is conformed to one above. -/
theorem conformTickFloat_le_three {p : Price} (h : p < 3) : conformTickFloat p ≤ 3 := by
  have hcents : roundHalfEven (p * 100) ≤ 300 := by
    have hmono := roundHalfEven_monotone (by linarith : p * 100 ≤ 300)
    rwa [show roundHalfEven 300 = 300 by decide +kernel] at hmono
  have hcents' : (roundHalfEven (p * 100) : ℚ) ≤ 300 := by exact_mod_cast hcents
  rw [conformTickFloat, if_pos h]
  refine binary64_isRounding.le_of_kept (by decide +kernel) ?_
  linarith

theorem three_le_conformTickFloat {p : Price} (h : 3 ≤ p) : 3 ≤ conformTickFloat p := by
  have hcount : 60 ≤ binary64 (p * 20) :=
    binary64_isRounding.kept_le (by decide +kernel) (by linarith)
  have hnickels : 60 ≤ roundHalfEven (binary64 (p * 20)) := by
    have hmono := roundHalfEven_monotone hcount
    rwa [show roundHalfEven 60 = 60 by decide +kernel] at hmono
  have hnickels' : (60 : ℚ) ≤ roundHalfEven (binary64 (p * 20)) := by exact_mod_cast hnickels
  rw [conformTickFloat, if_neg (not_lt.mpr h)]
  refine binary64_isRounding.kept_le (by decide +kernel) ?_
  linarith

/-- **Conforming keeps the order of prices in floats too.** -/
theorem conformTickFloat_monotone : Monotone conformTickFloat := by
  intro p q hpq
  rcases lt_or_ge q 3 with hq | hq
  · have hcents := roundHalfEven_monotone
      (mul_le_mul_of_nonneg_right hpq (by norm_num : (0 : ℚ) ≤ 100))
    rw [conformTickFloat, conformTickFloat, if_pos (hpq.trans_lt hq), if_pos hq]
    exact binary64_isRounding.monotone
      (div_le_div_of_nonneg_right (Int.cast_le.mpr hcents) (by norm_num))
  rcases lt_or_ge p 3 with hp | hp
  · exact (conformTickFloat_le_three hp).trans (three_le_conformTickFloat hq)
  · have hnickels := roundHalfEven_monotone (binary64_isRounding.monotone
      (mul_le_mul_of_nonneg_right hpq (by norm_num : (0 : ℚ) ≤ 20)))
    rw [conformTickFloat, conformTickFloat, if_neg (not_lt.mpr hp), if_neg (not_lt.mpr hq)]
    exact binary64_isRounding.monotone
      (div_le_div_of_nonneg_right (Int.cast_le.mpr hnickels) (by norm_num))

/-- A price of more than half a cent conforms to a cent at least. -/
theorem cent_le_conformTickFloat {p : Price} (h : 1 / 200 < p) :
    binary64 (1 / 100) ≤ conformTickFloat p := by
  rcases lt_or_ge p 3 with hlt | hge
  · have hmove := abs_le.mp (abs_roundHalfEven_sub_le (p * 100))
    have hpos : 0 < roundHalfEven (p * 100) := by
      have : (0 : ℚ) < roundHalfEven (p * 100) := by linarith
      exact_mod_cast this
    have hcent : (1 : ℚ) ≤ roundHalfEven (p * 100) := by exact_mod_cast hpos
    rw [conformTickFloat, if_pos hlt]
    exact binary64_isRounding.monotone (by linarith)
  · exact (by decide +kernel : binary64 (1 / 100) ≤ 3).trans (three_le_conformTickFloat hge)

/-- **Exactly these prices conform to a price**, half a cent being a tie. -/
theorem conformTickFloat_pos_iff (p : Price) : 0 < conformTickFloat p ↔ 1 / 200 < p := by
  constructor
  · intro h
    by_contra hle
    have hnone := conformTickFloat_monotone (not_lt.mp hle)
    rw [show conformTickFloat (1 / 200) = 0 by decide +kernel] at hnone
    exact absurd h (not_lt.mpr hnone)
  · exact fun h => (by decide +kernel : (0 : ℚ) < binary64 (1 / 100)).trans_le
      (cent_le_conformTickFloat h)

/-- **Where a price conforms to one that is not above it**: it is on a tick, or
a whole number of ticks that it is rounded to is not more than it is. -/
theorem conformTickFloat_le_self_iff {p : Price} (hp : binary64 p = p) :
    conformTickFloat p ≤ p
      ↔ OnTick p ∨ (roundHalfEven (tickCount p) : ℚ) ≤ p * tickSteps p := by
  have hsteps := tickSteps_pos p
  rw [OnTick, conformTickFloat_eq]
  rcases le_or_gt (roundHalfEven (tickCount p) : ℚ) (p * tickSteps p) with hle | hlt
  · refine iff_of_true ?_ (.inr hle)
    exact binary64_isRounding.le_of_kept hp ((div_le_iff₀ hsteps).mpr hle)
  · rw [or_iff_left (not_le.mpr hlt)]
    have hge := binary64_isRounding.kept_le hp ((le_div_iff₀ hsteps).mpr hlt.le)
    exact ⟨fun h => le_antisymm h hge, fun h => h.le⟩

theorem self_le_conformTickFloat_iff {p : Price} (hp : binary64 p = p) :
    p ≤ conformTickFloat p
      ↔ OnTick p ∨ p * tickSteps p ≤ roundHalfEven (tickCount p) := by
  have hsteps := tickSteps_pos p
  rw [OnTick, conformTickFloat_eq]
  rcases le_or_gt (p * tickSteps p) (roundHalfEven (tickCount p)) with hle | hlt
  · refine iff_of_true ?_ (.inr hle)
    exact binary64_isRounding.kept_le hp ((le_div_iff₀ hsteps).mpr hle)
  · rw [or_iff_left (not_le.mpr hlt)]
    have hge := binary64_isRounding.le_of_kept hp ((div_le_iff₀ hsteps).mpr hlt.le)
    exact ⟨fun h => le_antisymm hge h, fun h => h.ge⟩

/-- Where the count is rounded up, the price is less than the next tick. -/
theorem mul_tickSteps_lt_of_roundsUp {p : Price} (h : RoundsUp (tickCount p)) :
    p * tickSteps p < (tickCount p).floor + 1 := by
  unfold tickCount tickSteps at *
  split_ifs at * with hcents
  · have hfloor := Rat.lt_floor_add_one (p * 100)
    push_cast at hfloor
    exact hfloor
  · exact lt_floor_add_one_of_roundsUp h

/-- **A price that is not conformed upwards**: it is on a tick, or its count of
ticks is not to be rounded up, nor has it been. -/
def KeptBelow (p : Price) : Prop :=
  OnTick p ∨ ¬ RoundsUp (tickCount p) ∧ ((tickCount p).floor : ℚ) ≤ p * tickSteps p

/-- **A price that is not conformed downwards.** -/
def KeptAbove (p : Price) : Prop :=
  OnTick p ∨ RoundsUp (tickCount p) ∨ p * tickSteps p ≤ (tickCount p).floor

theorem conformTickFloat_le_iff_keptBelow {p : Price} (hp : binary64 p = p) :
    conformTickFloat p ≤ p ↔ KeptBelow p := by
  rw [conformTickFloat_le_self_iff hp, KeptBelow, roundHalfEven_eq]
  refine or_congr_right ?_
  split_ifs with hup
  · refine iff_of_false (not_le.mpr ?_) fun h => h.1 hup
    push_cast
    exact mul_tickSteps_lt_of_roundsUp hup
  · exact (and_iff_right hup).symm

theorem le_conformTickFloat_iff_keptAbove {p : Price} (hp : binary64 p = p) :
    p ≤ conformTickFloat p ↔ KeptAbove p := by
  rw [self_le_conformTickFloat_iff hp, KeptAbove, roundHalfEven_eq]
  refine or_congr_right ?_
  split_ifs with hup
  · refine iff_of_true ?_ (.inl hup)
    push_cast
    exact (mul_tickSteps_lt_of_roundsUp hup).le
  · exact (or_iff_right hup).symm
