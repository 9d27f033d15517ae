import Mathlib.Algebra.Order.Field.Rat
import Mathlib.Data.List.AList
import Mathlib.Data.Rat.Floor

/-!
# Plain data

The values that a JSON payload or a YAML file carries, and the built-in
conversions between them. A list or a mapping where a single value is
expected is only ever printed, so it is kept as what `str` prints of it.

Which conversion raises what depends on the type of the value alone; what
a text is read as, and how a float is printed, is a parameter
(`Builtins`).
-/

/-- A float. -/
inductive PyFloat where
  | finite (q : ℚ)
  | inf (negative : Bool)
  | nan
  deriving DecidableEq

/-- **A value.** -/
inductive PyValue where
  | none
  | bool (b : Bool)
  | int (n : ℤ)
  | float (x : PyFloat)
  | str (s : String)
  /-- A list or a mapping, by what `str` prints of it. -/
  | container (text : String)
  deriving DecidableEq

/-- A dictionary with texts as keys. -/
abbrev PyDict (α : Type) := AList fun _ : String => α

/-- What a conversion raises. -/
inductive ConversionError where
  | valueError
  | typeError
  | overflowError
  deriving DecidableEq

/-- **The built-in conversions of texts and floats.** -/
structure Builtins where
  /-- `int(s)` of a text; `none` where it raises. -/
  parseInt : String → Option ℤ
  /-- `float(s)` of a text; `none` where it raises. -/
  parseFloat : String → Option PyFloat
  /-- `float(n)`; `none` where the integer is too large. -/
  intToFloat : ℤ → Option PyFloat
  floatRepr : PyFloat → String
  /-- `s.strip()`. -/
  strip : String → String
  /-- Whether a character is a decimal digit. -/
  isDecimal : Char → Bool

namespace PyValue

variable (py : Builtins)

/-- Truncation towards zero. -/
def truncate (q : ℚ) : ℤ := if 0 ≤ q then ⌊q⌋ else ⌈q⌉

/-- **`int(v)`.** -/
def toInt : PyValue → Except ConversionError ℤ
  | none | container _ => .error .typeError
  | bool b => .ok (if b then 1 else 0)
  | int n => .ok n
  | float (.finite q) => .ok (truncate q)
  | float (.inf _) => .error .overflowError
  | float .nan => .error .valueError
  | str s => (py.parseInt s).elim (.error .valueError) .ok

/-- **`float(v)`.** -/
def toFloat : PyValue → Except ConversionError PyFloat
  | none | container _ => .error .typeError
  | bool b => .ok (.finite (if b then 1 else 0))
  | int n => (py.intToFloat n).elim (.error .overflowError) .ok
  | float x => .ok x
  | str s => (py.parseFloat s).elim (.error .valueError) .ok

/-- **`str(v)`.** -/
def toStr : PyValue → String
  | none => "None"
  | bool b => if b then "True" else "False"
  | int n => toString n
  | float x => py.floatRepr x
  | str s => s
  | container text => text

/-- The reading of a value as a truth value: only a few texts are true. The
letters of these texts are ASCII, so lowering ASCII letters is enough. -/
def toBool : PyValue → Bool
  | bool b => b
  | v => (v.toStr py).toLower ∈ ["1", "true", "yes", "on"]

end PyValue

/-- Texts that are read as integers only where they are `"5"`, and never as
floats, for runs on fixed inputs. -/
def sampleBuiltins : Builtins where
  parseInt s := if s = "5" then some 5 else none
  parseFloat _ := none
  intToFloat n := some (.finite n)
  floatRepr _ := "1.0"
  strip s := s
  isDecimal c := c.isDigit
