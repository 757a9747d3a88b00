/-!
Hexadecimal numerals of fixed width.
-/

namespace ObjectPascal.Text

/-- The hexadecimal numeral of `n`, with zeros in front up to `width` digits. -/
def hexPadded (width n : Nat) : List Char :=
  let digits := Nat.toDigits 16 n
  List.replicate (width - digits.length) '0' ++ digits

end ObjectPascal.Text
