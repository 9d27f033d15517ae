import ExecutionSystem.ShadowReplay
import Mathlib.Data.List.Infix

/-!
# Which recorded symbols a replay takes for its contract

`_symbol_matches` looks for the digits of a strike and the letter of a right
in the text of a symbol. In a key of an XSP option that text is the letters
of the underlying, eight digits of the expiry, the strike and the letter of
the right, without anything between them. So digits are found wherever they
lie in the expiry and the strike together, and the letter of a put is found
in `XSP`.

`symbolMatches_quoteSymbol` says what is taken: the digits lie somewhere in
the expiry and strike, and the right is that of the contract, or is a put
that reads the `P` of the underlying (`TakenFor`). So the match is right
exactly for the contract that is asked for and for those that are not taken
for it (`symbolMatches_iff_iff`).
-/

/-! ## Patterns between letters -/

namespace List

variable {α : Type*} {xs ys : List α} {x r s : α}

/-- A pattern does not begin among elements that are not its first. -/
theorem cons_infix_append_iff (h : x ∉ ys) : x :: xs <:+: ys ++ zs ↔ x :: xs <:+: zs := by
  induction ys with
  | nil => rfl
  | cons y ys ih =>
    rw [mem_cons, not_or] at h
    rw [cons_append, infix_cons_iff, ih h.2, cons_prefix_cons]
    simp [h.1]

/-- A pattern does not end at an element that is not in it. -/
theorem infix_concat_iff_of_notMem (h : s ∉ xs) (hne : xs ≠ []) :
    xs <:+: ys ++ [s] ↔ xs <:+: ys := by
  rw [infix_concat_iff, suffix_concat_iff]
  refine or_iff_right ?_
  rintro (hnil | ⟨t, rfl, -⟩)
  · exact hne hnil
  · exact h (by simp)

theorem prefix_concat_iff_of_notMem (h : s ∉ xs) : xs <+: ys ++ [s] ↔ xs <+: ys := by
  rw [prefix_concat_iff]
  refine or_iff_right ?_
  rintro rfl
  exact h (by simp)

/-- A pattern whose last element is not in `ys` ends behind it. -/
theorem concat_infix_concat_iff (h : r ∉ ys) : xs ++ [r] <:+: ys ++ [s] ↔ r = s ∧ xs <:+ ys := by
  rw [infix_concat_iff, suffix_concat_iff]
  constructor
  · rintro ((hnil | ⟨t, heq, ht⟩) | hsub)
    · simp at hnil
    · obtain ⟨rfl, hlast⟩ := append_inj' heq rfl
      exact ⟨by simpa using hlast, ht⟩
    · exact absurd (hsub.subset (by simp)) h
  · rintro ⟨rfl, hsuffix⟩
    exact .inl (.inr ⟨xs, rfl, hsuffix⟩)

end List

/-! ## The text of a key -/

section Text

variable {digits body : List Char} {r right : OptionRight}

/-- A text that has no letter of the underlying or of a right, and no
blank. -/
def PlainText (text : List Char) : Prop := ∀ c ∈ text, c ∉ [' ', 'C', 'P', 'S', 'X']

/-- The text of a key of an XSP option, with the expiry and the strike in
`body`. -/
def keyText (body : List Char) (right : OptionRight) : List Char :=
  ['X', 'S', 'P'] ++ body ++ [right.letter]

instance (text : List Char) : Decidable (PlainText text) :=
  List.decidableBAll (fun c => c ∉ [' ', 'C', 'P', 'S', 'X']) text

theorem PlainText.append {text text' : List Char} (h : PlainText text) (h' : PlainText text') :
    PlainText (text ++ text') :=
  fun c hc => (List.mem_append.mp hc).elim (h c) (h' c)

theorem letter_mem (r : OptionRight) : r.letter ∈ [' ', 'C', 'P', 'S', 'X'] := by
  cases r with
  | call => decide
  | put => decide

theorem letter_inj : r.letter = right.letter ↔ r = right := by
  cases r <;> cases right <;> decide

/-- The letter of a put is the one of the two that is in `XSP`. -/
theorem letter_eq_p : r.letter = 'P' ↔ r = .put := by
  cases r <;> decide

theorem PlainText.letter_notMem (h : PlainText body) (r : OptionRight) : r.letter ∉ body :=
  fun hmem => h _ hmem (letter_mem r)

theorem PlainText.notMem_xsp (h : PlainText digits) {d : Char} (hd : d ∈ digits) :
    d ∉ ['X', 'S', 'P'] := by
  have hplain := h d hd
  simp only [List.mem_cons, List.not_mem_nil, or_false] at hplain ⊢
  tauto

/-- Digits in the text of a key lie in its body. -/
theorem infix_keyText_iff (hdigits : PlainText digits) (hne : digits ≠ []) :
    digits <:+: keyText body right ↔ digits <:+: body := by
  rw [keyText, List.infix_concat_iff_of_notMem (hdigits.letter_notMem right) hne]
  obtain ⟨d, ds, rfl⟩ := List.exists_cons_of_ne_nil hne
  exact List.cons_infix_append_iff (hdigits.notMem_xsp List.mem_cons_self)

/-- Digits with the letter of a right behind them are at the end. -/
theorem concat_infix_keyText_iff (hbody : PlainText body) (hdigits : PlainText digits)
    (hne : digits ≠ []) :
    digits ++ [r.letter] <:+: keyText body right ↔ r = right ∧ digits <:+ body := by
  obtain ⟨d, ds, rfl⟩ := List.exists_cons_of_ne_nil hne
  rw [keyText, List.append_assoc, List.cons_append,
    List.cons_infix_append_iff (hdigits.notMem_xsp List.mem_cons_self),
    ← List.cons_append, List.concat_infix_concat_iff (hbody.letter_notMem r), letter_inj]

/-- Digits with the letter of a right before them are behind `XSP`, and the
right is a put. -/
theorem cons_infix_keyText_iff (hbody : PlainText body) (hdigits : PlainText digits)
    (hne : digits ≠ []) :
    r.letter :: digits <:+: keyText body right ↔ r = .put ∧ digits <+: body := by
  have hrest : ¬ r.letter :: digits <:+: body ++ [right.letter] := by
    rw [List.cons_infix_append_iff (hbody.letter_notMem r), List.infix_singleton_iff]
    simp [hne]
  have hkey : keyText body right = ['X', 'S'] ++ 'P' :: (body ++ [right.letter]) := by
    simp [keyText]
  have hr : r.letter ∉ ['X', 'S'] := by
    cases r with
    | call => decide
    | put => decide
  rw [hkey, List.cons_infix_append_iff hr, List.infix_cons_iff, List.cons_prefix_cons,
    or_iff_left hrest, letter_eq_p,
    List.prefix_concat_iff_of_notMem (hdigits.letter_notMem right)]

/-- The letter of a right is among the last characters where it is the right
of the key, or the letters of the underlying are among them too. -/
theorem letter_mem_drop_iff (hbody : PlainText body) {n : ℕ} (hn : n ≤ body.length) :
    r.letter ∈ (keyText body right).drop n ↔ r = right ∨ r = .put ∧ n ≤ 2 := by
  have hbehind : ∀ k ≤ body.length, (r.letter ∈ (body ++ [right.letter]).drop k ↔ r = right) := by
    intro k hk
    rw [List.drop_append_of_le_length hk, List.mem_append, List.mem_singleton, letter_inj]
    exact or_iff_right fun hmem => hbody.letter_notMem r (List.mem_of_mem_drop hmem)
  have hkey : keyText body right = 'X' :: 'S' :: 'P' :: (body ++ [right.letter]) := by
    simp [keyText]
  have hx : r.letter ≠ 'X' ∧ r.letter ≠ 'S' := by
    cases r with
    | call => decide
    | put => decide
  have hzero := hbehind 0 (Nat.zero_le _)
  rw [List.drop_zero] at hzero
  rw [hkey]
  match n with
  | 0 | 1 | 2 => simp [hx.1, hx.2, hzero, letter_eq_p, or_comm]
  | k + 3 =>
    rw [List.drop_succ_cons, List.drop_succ_cons, List.drop_succ_cons, hbehind k (by omega)]
    simp

variable (right) in
/-- **Which texts are taken**: the digits lie in the expiry and strike, and
the right is that of the key, or a put that reads the underlying. -/
theorem any_candidate_or_iff (hbody : PlainText body) (hdigits : PlainText digits)
    (hne : digits ≠ []) {n : ℕ} (hn : n ≤ body.length) :
    ((∃ c ∈ matchCandidates digits r.letter, c <:+: keyText body right)
        ∨ digits <:+: keyText body right ∧ r.letter ∈ (keyText body right).drop n)
      ↔ digits <:+: body ∧ (r = right
        ∨ r = .put ∧ (n ≤ 2 ∨ digits <+: body ∨ occStrike digits <+: body)) := by
  have hpoint : PlainText (digits ++ ['.', '0']) := hdigits.append (by decide)
  have hocc : PlainText (occStrike digits) :=
    (PlainText.append (by decide) hdigits).append (by decide)
  have hoccNe : occStrike digits ≠ [] := by simp [occStrike]
  -- every text looked for has the digits in it, and those with a point begin with them
  have hpre : digits <+: digits ++ ['.', '0'] := List.prefix_append _ _
  have hin : digits <:+: occStrike digits := ⟨['0', '0'], ['0', '0', '0'], rfl⟩
  simp only [matchCandidates, List.mem_cons, List.not_mem_nil, or_false, exists_eq_or_imp,
    exists_eq_left, concat_infix_keyText_iff hbody hdigits hne,
    concat_infix_keyText_iff hbody hpoint (by simp), cons_infix_keyText_iff hbody hdigits hne,
    cons_infix_keyText_iff hbody hpoint (by simp), cons_infix_keyText_iff hbody hocc hoccNe,
    infix_keyText_iff hdigits hne, letter_mem_drop_iff hbody hn]
  constructor
  · rintro ((⟨hr, h⟩ | ⟨hr, h⟩ | ⟨hr, h⟩ | ⟨hr, h⟩ | ⟨hr, h⟩) | ⟨h, hr | hr⟩)
    · exact ⟨h.isInfix, .inl hr⟩
    · exact ⟨h.isInfix, .inr ⟨hr, .inr (.inl h)⟩⟩
    · exact ⟨hpre.isInfix.trans h.isInfix, .inl hr⟩
    · exact ⟨(hpre.trans h).isInfix, .inr ⟨hr, .inr (.inl (hpre.trans h))⟩⟩
    · exact ⟨hin.trans h.isInfix, .inr ⟨hr, .inr (.inr h)⟩⟩
    · exact ⟨h, .inl hr⟩
    · exact ⟨h, .inr ⟨hr.1, .inl hr.2⟩⟩
  · rintro ⟨h, hr | ⟨hr, hshort | hpre | hocc⟩⟩
    · exact .inr ⟨h, .inl hr⟩
    · exact .inr ⟨h, .inr ⟨hr, hshort⟩⟩
    · exact .inl (.inr (.inl ⟨hr, hpre⟩))
    · exact .inl (.inr (.inr (.inr (.inr ⟨hr, hocc⟩))))

end Text

/-! ## Keys of contracts -/

/-- A character whose capital is no letter of the underlying or of a right,
and no blank. -/
def PlainChar (c : Char) : Prop := upperChar c ∉ [' ', 'C', 'P', 'S', 'X']

instance (c : Char) : Decidable (PlainChar c) := inferInstanceAs (Decidable (¬ _))

theorem upperChar_of_isDigit {c : Char} (h : c.isDigit) : upperChar c = c := by
  have hrange := toNat_of_isDigit h
  have hlong : c ≠ 'ſ' := by
    rintro rfl
    exact absurd h (by decide)
  rw [upperChar, if_neg hlong]
  refine dif_neg ?_
  rintro ⟨hle, -⟩
  have hle' : 97 ≤ c.toNat := UInt32.le_iff_toNat_le.mp hle
  omega

/-- The characters of an integer are digits, and perhaps a sign. -/
theorem of_mem_toString {k : ℤ} {c : Char} (h : c ∈ (toString k).toList) :
    c.isDigit ∨ c = '-' := by
  have hrepr : ∀ n : ℕ, c ∈ n.repr.toList → c.isDigit := fun n hc => by
    rw [Nat.toList_repr] at hc
    exact Nat.isDigit_of_mem_toDigits (by decide) (by decide) hc
  cases k with
  | ofNat n => exact .inl (hrepr n h)
  | negSucc n =>
    have hneg : c ∈ ("-" ++ Nat.repr (n + 1)).toList := h
    rw [String.toList_append, List.mem_append] at hneg
    rcases hneg with hneg | hneg
    · exact .inr (List.mem_singleton.mp hneg)
    · exact .inl (hrepr _ hneg)

/-- An integer is printed in capitals. -/
theorem upperChar_of_mem_toString {k : ℤ} {c : Char} (h : c ∈ (toString k).toList) :
    upperChar c = c := by
  rcases of_mem_toString h with h | rfl
  · exact upperChar_of_isDigit h
  · decide

theorem plainText_toString (k : ℤ) : PlainText (toString k).toList := by
  intro c hc hmem
  rcases of_mem_toString hc with hdigit | rfl
  · simp only [List.mem_cons, List.not_mem_nil, or_false] at hmem
    rcases hmem with rfl | rfl | rfl | rfl | rfl <;> exact absurd hdigit (by decide)
  · exact absurd hmem (by decide)

theorem toString_ne_nil (k : ℤ) : (toString k).toList ≠ [] := by
  have hrepr : ∀ n : ℕ, n.repr.toList ≠ [] := fun n => by
    rw [Nat.toList_repr]
    exact Nat.toDigits_ne_nil
  cases k with
  | ofNat n => exact hrepr n
  | negSucc n =>
    show ("-" ++ Nat.repr (n + 1)).toList ≠ []
    rw [String.toList_append]
    simp

/-- **How expiries and strikes are printed**: the digits of an expiry and the
characters of a printed float are no letters of an underlying or a right, and
no blanks. -/
structure Builtins.PrintsPlainly (py : Builtins) : Prop where
  decimal : ∀ c, py.isDecimal c = true → PlainChar c
  float : ∀ q, ∀ c ∈ (py.floatRepr (.finite q)).toList, PlainChar c

namespace OptionContract

variable {py : Builtins} {c : OptionContract} {k : ℤ} {r : OptionRight}

/-- The expiry and the strike of a key, as the match sees them. -/
def expiryAndStrike (py : Builtins) (c : OptionContract) : List Char :=
  (c.expiry ++ py.strikeText c.strike).toList.map upperChar

/-- An option on XSP, with an expiry of eight digits. -/
structure OnXsp (py : Builtins) (c : OptionContract) : Prop where
  symbol : c.symbol = "XSP"
  expiry : EightDigits py c.expiry

/-- **The contract is taken for the one of strike `k` and right `r`**: the
digits of `k` lie in its expiry and strike, and `r` is its right, or is a put
and the strike is printed with two characters at most, or the expiry and
strike begin with the digits. -/
def TakenFor (py : Builtins) (c : OptionContract) (k : ℤ) (r : OptionRight) : Prop :=
  (toString k).toList <:+: c.expiryAndStrike py
    ∧ (r = c.right ∨ r = .put ∧ ((py.strikeText c.strike).length ≤ 2
      ∨ (toString k).toList <+: c.expiryAndStrike py
      ∨ occStrike (toString k).toList <+: c.expiryAndStrike py))

theorem plainText_expiryAndStrike (hpy : py.PrintsPlainly) (hc : c.OnXsp py) :
    PlainText (c.expiryAndStrike py) := by
  intro ch hch
  obtain ⟨ch, hmem, rfl⟩ := List.mem_map.mp hch
  rw [String.toList_append, List.mem_append] at hmem
  rcases hmem with hmem | hmem
  · exact hpy.decimal ch (hc.expiry.2 ch hmem)
  · unfold Builtins.strikeText at hmem
    split_ifs at hmem
    · rw [upperChar_of_mem_toString hmem]
      exact plainText_toString _ ch hmem
    · exact hpy.float _ ch hmem

/-- The text of a key in capitals, without its blanks. -/
theorem upperNoBlanks_quoteSymbol (hpy : py.PrintsPlainly) (hc : c.OnXsp py) :
    upperNoBlanks (c.quoteSymbol py) = keyText (c.expiryAndStrike py) c.right := by
  have hplain := plainText_expiryAndStrike hpy hc
  have hbody : (c.expiryAndStrike py).filter (· ≠ ' ') = c.expiryAndStrike py :=
    List.filter_eq_self.mpr fun ch hch =>
      decide_eq_true fun hblank => hplain ch hch (by simp [hblank])
  have hright : (c.right.char.toList.map upperChar).filter (· ≠ ' ') = [c.right.letter] := by
    cases c.right with
    | call => rfl
    | put => rfl
  rw [quoteSymbol_eq, hc.symbol, upperNoBlanks, keyText, ← hbody, ← hright, expiryAndStrike]
  simp only [String.toList_append, List.map_append, List.filter_append, List.append_assoc]
  rfl

theorem length_expiryAndStrike (hc : c.OnXsp py) :
    (c.expiryAndStrike py).length = 8 + (py.strikeText c.strike).length := by
  rw [expiryAndStrike, List.length_map, String.toList_append, List.length_append, hc.expiry.1,
    String.length_toList]

/-- **What `_symbol_matches` takes.** -/
theorem symbolMatches_quoteSymbol (hpy : py.PrintsPlainly) (hc : c.OnXsp py) :
    symbolMatches (c.quoteSymbol py) k r = true ↔ c.TakenFor py k r := by
  have hlength := length_expiryAndStrike hc
  have hdrop : (keyText (c.expiryAndStrike py) c.right).length - 12
      = (py.strikeText c.strike).length := by
    simp only [keyText, List.length_append, List.length_cons, List.length_nil]
    omega
  unfold symbolMatches TakenFor
  dsimp only
  rw [upperNoBlanks_quoteSymbol hpy hc, hdrop, ← any_candidate_or_iff c.right
    (plainText_expiryAndStrike hpy hc) (plainText_toString k) (toString_ne_nil k)
    (hlength ▸ Nat.le_add_left _ 8)]
  simp

/-- The contract that is asked for is taken. -/
theorem takenFor_self (hk : c.strike = k) (hr : c.right = r) : c.TakenFor py k r := by
  refine ⟨List.IsSuffix.isInfix ?_, .inl hr.symm⟩
  have htext : py.strikeText c.strike = toString k := by
    rw [Builtins.strikeText, hk, Rat.den_intCast, if_pos rfl, Rat.num_intCast]
  have hupper : (toString k).toList.map upperChar = (toString k).toList :=
    (List.map_congr_left fun ch hch => upperChar_of_mem_toString hch).trans (List.map_id _)
  rw [expiryAndStrike, htext, String.toList_append, List.map_append, hupper]
  exact List.suffix_append _ _

/-- **The match is right** for the contract that is asked for, and for those
that are not taken for it. -/
theorem symbolMatches_correct_iff (hpy : py.PrintsPlainly) (hc : c.OnXsp py) :
    (symbolMatches (c.quoteSymbol py) k r = true ↔ c.strike = k ∧ c.right = r)
      ↔ (c.strike = k ∧ c.right = r) ∨ ¬ c.TakenFor py k r := by
  rw [symbolMatches_quoteSymbol hpy hc]
  constructor
  · intro h
    by_cases htaken : c.TakenFor py k r
    · exact .inl (h.mp htaken)
    · exact .inr htaken
  · rintro (h | htaken)
    · exact iff_of_true (takenFor_self h.1 h.2) h
    · exact iff_of_false htaken fun h => htaken (takenFor_self h.1 h.2)

/-- **What a replay prices a trade with**: bars of the contract of the
signal, where none of the recorded contracts is wrongly taken for it. -/
theorem exists_of_tradedBars (hpy : py.PrintsPlainly)
    {optionBars : InsertionDict String (List ReplayBar)} {e : String × List ReplayBar}
    (hrecorded : ∀ sym ∈ optionBars.keys, ∃ c : OptionContract, c.OnXsp py
      ∧ sym = c.quoteSymbol py ∧ (c.strike = k ∧ c.right = r ∨ ¬ c.TakenFor py k r))
    (h : tradedBars optionBars k r = some e) :
    ∃ c : OptionContract, c.OnXsp py ∧ e.1 = c.quoteSymbol py ∧ c.strike = k ∧ c.right = r := by
  obtain ⟨c, hc, hsym, hok⟩ := hrecorded e.1 (List.mem_map_of_mem (List.mem_of_find?_eq_some h))
  have hmatch := List.find?_some h
  rw [hsym] at hmatch
  exact ⟨c, hc, hsym, ((symbolMatches_correct_iff hpy hc).mpr hok).mp hmatch⟩

/-- **The replay finds the right contract** exactly where no other contract
is taken for it: so the match of every key says, and so a trade is priced
only by bars of a contract with the strike and the right of its signal. -/
theorem symbolMatches_iff_iff (py : Builtins) (hpy : py.PrintsPlainly) :
    (∀ c : OptionContract, c.OnXsp py → ∀ (k : ℤ) (r : OptionRight),
      (symbolMatches (c.quoteSymbol py) k r = true ↔ c.strike = k ∧ c.right = r)
        ↔ (c.strike = k ∧ c.right = r) ∨ ¬ c.TakenFor py k r)
    ∧ ∀ (underlyingBars : List ReplayBar) (optionBars : InsertionDict String (List ReplayBar))
        (strategyId : StrategyId) (entryHour entryMinute : ℕ) (triggerPct stopLossPct : ℚ)
        (signalBar : ReplayBar) (right : OptionRight) (trade : ReplayTrade),
      breakoutSignal underlyingBars entryHour entryMinute triggerPct
        = .ok (some (signalBar, right)) →
      (∀ sym ∈ optionBars.keys, ∃ c : OptionContract, c.OnXsp py ∧ sym = c.quoteSymbol py
        ∧ (c.strike = roundHalfEven signalBar.close ∧ c.right = right
          ∨ ¬ c.TakenFor py (roundHalfEven signalBar.close) right)) →
      replayBreakout py underlyingBars optionBars strategyId entryHour entryMinute triggerPct
        stopLossPct = .ok (some trade) →
      trade.entryPrice ≠ none →
      ∃ c : OptionContract, c.OnXsp py ∧ trade.symbol = c.quoteSymbol py
        ∧ c.strike = roundHalfEven signalBar.close ∧ c.right = right := by
  refine ⟨fun c hc k r => symbolMatches_correct_iff hpy hc, ?_⟩
  intro underlyingBars optionBars strategyId entryHour entryMinute triggerPct stopLossPct
    signalBar right trade hsignal hrecorded hreplay hentry
  obtain ⟨signalBar', right', hsignal', rfl⟩ := replayBreakout_eq_some.mp hreplay
  rw [hsignal] at hsignal'
  obtain ⟨rfl, rfl⟩ := Prod.mk.inj (Option.some.inj (Except.ok.inj hsignal'))
  cases htraded : tradedBars optionBars (roundHalfEven signalBar.close) right with
  | none => exact absurd (replaySignal_of_none htraded) hentry
  | some e =>
    obtain ⟨optSym, opt⟩ := e
    rw [replaySignal_of_some htraded, ReplayTrade.priced_symbol]
    exact exists_of_tradedBars hpy hrecorded htraded

/-- The conversions print plainly. -/
theorem printsPlainly_sampleConversions : sampleConversions.PrintsPlainly where
  decimal ch h := by
    unfold PlainChar
    rw [upperChar_of_isDigit h]
    simp only [List.mem_cons, List.not_mem_nil, or_false]
    rintro (rfl | rfl | rfl | rfl | rfl) <;> exact absurd h (by decide)
  float q := by
    have hall : ∀ text ∈ ["600.0", "600.5"],
        text.toList.all (fun ch => decide (PlainChar ch)) = true := by decide
    intro ch hch
    refine of_decide_eq_true (List.all_eq_true.mp (hall _ ?_) ch hch)
    show (if PyFloat.finite q = .finite 600 then "600.0" else "600.5") ∈ _
    split_ifs
    · exact List.mem_cons_self
    · exact List.mem_cons_of_mem _ List.mem_cons_self

/-- A call with a strike of 600 that expires on 2026-07-30. -/
def julyCall : OptionContract where
  symbol := "XSP"
  expiry := "20260730"
  strike := 600
  right := .call
  strike_pos := sixHundred_pos
  multiplier_pos := hundred_pos

theorem onXsp_julyCall : julyCall.OnXsp sampleConversions := ⟨rfl, by decide⟩

/-- A call with a strike of 600 that expires on 2026-07-30 is taken for one
with a strike of 730. -/
theorem symbolMatches_mistaken :
    julyCall.OnXsp sampleConversions
      ∧ ¬ (symbolMatches (julyCall.quoteSymbol sampleConversions) 730 .call = true
        ↔ julyCall.strike = (730 : ℤ) ∧ julyCall.right = .call) := by
  refine ⟨onXsp_julyCall, fun h => ?_⟩
  have hmatch : symbolMatches (julyCall.quoteSymbol sampleConversions) 730 .call = true := by
    decide +kernel
  exact absurd (h.mp hmatch).1 (by decide +kernel)

/-- It is not taken for one with a strike of 650. -/
theorem symbolMatches_iff_iff_july :
    symbolMatches (julyCall.quoteSymbol sampleConversions) 650 .call = true
      ↔ julyCall.strike = (650 : ℤ) ∧ julyCall.right = .call :=
  ((symbolMatches_iff_iff sampleConversions printsPlainly_sampleConversions).1 julyCall
    onXsp_julyCall 650 .call).mpr (.inr fun h => absurd h.1 (by decide +kernel))

end OptionContract
