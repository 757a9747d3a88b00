/-!
Decimal numerals: fixed-width labels, and reading a numeral of bounded length.
-/

namespace ObjectPascal.Text

/-- The decimal numeral of `n`, with zeros in front up to `width` digits. -/
def padded (width n : Nat) : String :=
  let digits := toString n
  String.ofList (List.replicate (width - digits.length) '0') ++ digits

def isDigit (c : Char) : Bool :=
  '0' ≤ c && c ≤ '9'

/-- At least one decimal digit, and nothing else. -/
def isNumeral (cs : List Char) : Bool :=
  !cs.isEmpty && cs.all isDigit

/-- The value of a string of decimal digits. -/
def digitsValue (cs : List Char) : Nat :=
  cs.foldl (fun n c => 10 * n + (c.toNat - '0'.toNat)) 0

/-- The longest numeral that is converted to a number; leading zeros count. -/
def maxDigits : Nat := 4300

/-- What is said of a numeral of `n` digits when `n` is above `maxDigits`. -/
def tooManyDigitsMessage (n : Nat) : String :=
  s!"Exceeds the limit ({maxDigits} digits) for integer string conversion: value has {n} " ++
    "digits; use sys.set_int_max_str_digits() to increase the limit"

/-- What is said of a text that should be a numeral and is none. -/
def notANumeralMessage (text : String) : String :=
  s!"invalid literal for int() with base 10: '{text}'"

/-- A numeral with an optional sign, split into "is it negative" and its digits. -/
def splitSign : List Char → Bool × List Char
  | '-' :: cs => (true, cs)
  | '+' :: cs => (false, cs)
  | cs => (false, cs)

/-- A numeral that may have a sign in front. -/
def isSignedNumeral (cs : List Char) : Bool :=
  isNumeral (splitSign cs).2

def signedValue (cs : List Char) : Int :=
  let (negative, digits) := splitSign cs
  if negative then -(digitsValue digits : Int) else digitsValue digits

end ObjectPascal.Text
