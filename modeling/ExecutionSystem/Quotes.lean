import ExecutionSystem.Models
import ExecutionSystem.PythonFloat
import Mathlib.Data.List.Basic

/-!
# Prices, quotes and quote keys

What several components do with a price or a quote: round it, find the
quote of a contract in a map, and value it. A map holds quotes of option
contracts under their own keys and quotes of underlyings under their
symbols, and the two kinds of key never coincide
(`OptionContract.toQuoteSymbol_ne_symbol`).
-/

/-! ## Rounding -/

/-- The minimum price variation, in exact arithmetic: cents below `3.00`,
nickels from there up. -/
def conformTick (p : Price) : Price :=
  if p < 3 then roundHalfEven (p * 100) / 100 else roundHalfEven (p * 20) / 20

/-- The same in floats, as the repricer computes it. -/
def conformTickFloat (p : Price) : Price :=
  if p < 3 then binary64 (roundHalfEven (p * 100) / 100)
  else binary64 (roundHalfEven (binary64 (p * 20)) / 20)

/-- `round(price, 2)`. -/
def roundToCents (p : Price) : Price := roundHalfEven (p * 100) / 100

/-! ## Quotes and their keys -/

/-- A map of quotes by symbol or quote key. -/
abbrev QuoteMap := String → Option QuoteSnapshot

/-- `to_quote_symbol`: the space-separated quote key of a contract.
`floatRepr` prints a strike that is no integer. -/
def OptionContract.toQuoteSymbol (floatRepr : Price → String)
    (c : OptionContract) : String :=
  let strike := if c.strike.den = 1 then toString c.strike.num else floatRepr c.strike
  let right := match c.right with
    | .call => "C"
    | .put => "P"
  c.symbol ++ " " ++ c.expiry ++ " " ++ strike ++ " " ++ right

/-- What a map of quotes or bars has for a contract: the entry of its own
key where there is one, and else whatever the map has under the underlying
symbol. -/
def OptionContract.lookup {α : Type} (floatRepr : Price → String)
    (c : OptionContract) (entries : String → Option α) : Option α :=
  match entries (c.toQuoteSymbol floatRepr) with
  | some entry => some entry
  | none => entries c.symbol

/-- The middle of the quote, where it has two sides. -/
def QuoteSnapshot.mid (quote : QuoteSnapshot) : Option Price :=
  match quote.bid, quote.ask with
  | some bid, some ask => some ((bid + ask) / 2)
  | _, _ => none

/-- The valuation price: the middle, otherwise the side there is. -/
def QuoteSnapshot.valuation (quote : QuoteSnapshot) : Option Price :=
  match quote.mid with
  | some mid => some mid
  | none =>
    match quote.bid with
    | some bid => some bid
    | none => quote.ask

/-- The key of a contract is longer than the symbol of its underlying. -/
theorem OptionContract.toQuoteSymbol_ne_symbol (floatRepr : Price → String)
    (c : OptionContract) : c.toQuoteSymbol floatRepr ≠ c.symbol := by
  intro h
  have hlength := congrArg String.length h
  simp only [toQuoteSymbol, String.length_append] at hlength
  have : (" " : String).length = 1 := rfl
  omega

/-- Two maps have the same own entry for a contract and, where there is
none, the same under its underlying symbol. -/
structure OptionContract.SameEntries {α : Type} (floatRepr : Price → String)
    (c : OptionContract) (entries entries' : String → Option α) : Prop where
  own : entries (c.toQuoteSymbol floatRepr) = entries' (c.toQuoteSymbol floatRepr)
  fallback : entries (c.toQuoteSymbol floatRepr) = none →
    entries c.symbol = entries' c.symbol

theorem OptionContract.SameEntries.lookup_eq {α : Type} {floatRepr : Price → String}
    {c : OptionContract} {entries entries' : String → Option α}
    (h : c.SameEntries floatRepr entries entries') :
    c.lookup floatRepr entries = c.lookup floatRepr entries' := by
  unfold lookup
  rw [← h.own]
  cases howned : entries (c.toQuoteSymbol floatRepr) with
  | some entry => rfl
  | none => exact h.fallback howned
