/-!
# File indices in decimal

An index is written in decimal digits and read back with an optional plus sign and any number of
leading zeros. What does not fit in 64 bits is no index.
-/
namespace HdlDesk.Text

/-- The first number that is too large for an index. -/
def indexBound : Nat := UInt64.size

/-- The value of a list of decimal digits, or `none` if it is empty or holds anything else. -/
def digitsValue? (digits : List Char) : Option Nat :=
  if digits ≠ [] ∧ digits.all Char.isDigit = true then some (Nat.ofDigitChars 10 digits 0) else none

/-- Reads an index: digits, after a plus sign if there is one. -/
def parseIndex? (text : String) : Option Nat :=
  let digits := match text.toList with
    | '+' :: rest => rest
    | cs => cs
  (digitsValue? digits).filter (· < indexBound)

/-- The decimal digits of a number, the most significant first. -/
def decimal (n : Nat) : String :=
  String.ofList (Nat.toDigits 10 n)

theorem digitsValue?_toDigits (n : Nat) : digitsValue? (Nat.toDigits 10 n) = some n := by
  have digits : (Nat.toDigits 10 n).all Char.isDigit = true := by
    rw [List.all_eq_true]
    exact fun c member => Nat.isDigit_of_mem_toDigits (by decide) (by decide) member
  have nonempty : Nat.toDigits 10 n ≠ [] := Nat.toDigits_ne_nil
  simp [digitsValue?, digits, nonempty, Nat.ofDigitChars_toDigits]

end HdlDesk.Text
