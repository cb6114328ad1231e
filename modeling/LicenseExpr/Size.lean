/-!
# Sizes

A size is a number that fits 64 bits, written in decimal with at most one `+` before it.
-/

namespace LicenseExpr

inductive SizeError where
  | empty
  | invalidDigit
  | tooLarge
  deriving DecidableEq

def SizeError.message : SizeError → String
  | empty => "cannot parse integer from empty string"
  | invalidDigit => "invalid digit found in string"
  | tooLarge => "number too large to fit in target type"

namespace Size

def maximum : Nat := UInt64.size - 1

/-- Reads on after digits worth `n`. The first thing that is wrong counts: a character that is no
digit, or the digit with which the number no longer fits. -/
def readDigits (n : Nat) : List Char → Except SizeError Nat
  | [] => .ok n
  | c :: rest =>
    if c.isDigit then
      let n := 10 * n + (c.toNat - '0'.toNat)
      if n ≤ maximum then readDigits n rest else .error .tooLarge
    else .error .invalidDigit

def ofText (text : String) : Except SizeError Nat :=
  match text.toList with
  | [] => .error .empty
  | ['+'] => .error .invalidDigit
  | '+' :: digits => readDigits 0 digits
  | digits => readDigits 0 digits

end Size

end LicenseExpr
