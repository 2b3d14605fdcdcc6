/-!
# Decimal numerals

Numbers are written with the fewest decimal digits: no sign, no leading zero, and `0` for zero.
-/

namespace Rill.Text

/-- The decimal digits of `n`. -/
def decimal (n : Nat) : String :=
  String.ofList (Nat.toDigits 10 n)

end Rill.Text
