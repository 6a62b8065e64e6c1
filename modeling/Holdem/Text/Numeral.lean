/-!
# Numerals

Unsigned numbers are written with decimal digits, of which there is at least one, after an
optional plus sign. They are read from the left, and the first character at which reading cannot
go on decides what is wrong with a text.
-/
namespace Holdem

inductive NumeralError where
  | empty
  | invalidDigit
  | tooLarge
deriving Repr, DecidableEq

def NumeralError.message : NumeralError → String
  | empty => "cannot parse integer from empty string"
  | invalidDigit => "invalid digit found in string"
  | tooLarge => "number too large to fit in target type"

/-- Reads digits on top of what was read before. -/
def readDigits (limit : Nat) : Nat → List Char → Except NumeralError Nat
  | n, [] => .ok n
  | n, c :: rest =>
      if !c.isDigit then .error .invalidDigit
      else
        let n := n * 10 + (c.toNat - '0'.toNat)
        if limit < n then .error .tooLarge else readDigits limit n rest

/-- Reads a number up to `limit`. -/
def readNumeral (limit : Nat) : List Char → Except NumeralError Nat
  | [] => .error .empty
  | ['+'] => .error .invalidDigit
  | '+' :: digits => readDigits limit 0 digits
  | digits => readDigits limit 0 digits

end Holdem
