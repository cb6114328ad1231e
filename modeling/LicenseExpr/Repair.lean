import LicenseExpr.SyntaxError

/-!
# Repairs

What the lenient reading of a malformed text does to go on, and how strict reading treats it: a
repair that stands for an error is refused with that error.
-/

namespace LicenseExpr

inductive Recovery where
  | ignoreRest
  | useRight
  | closeGroup
  | dropGroup
  | keepLeft
  | discardEarlier
  deriving DecidableEq

def Recovery.description : Recovery → String
  | ignoreRest => "ignoring input after unmatched ')'"
  | useRight => "using the right operand alone"
  | closeGroup => "closing '(' left open at end of input"
  | dropGroup => "dropping empty parentheses"
  | keepLeft => "keeping the left operand"
  | discardEarlier => "discarding earlier operand"

inductive Repair where
  | recovered (error : SyntaxError) (recovery : Recovery)
  /-- The operator at a byte had no left operand and gives way to its right one. -/
  | collapsed (op : Operator) (start : Nat)
  deriving DecidableEq

namespace Repair

def message : Repair → String
  | recovered error recovery => error.message ++ "; " ++ recovery.description
  | collapsed op start =>
    "collapsing '" ++ op.word ++ "' at byte " ++ toString start ++ " onto its right operand"

def error? : Repair → Option SyntaxError
  | recovered error _ => some error
  | collapsed .. => none

end Repair

inductive Strictness where
  | lenient
  | strict
  deriving DecidableEq

/-- The error with which reading stops when these repairs would be needed. -/
def Strictness.refusal? : Strictness → List Repair → Option SyntaxError
  | lenient, _ => none
  | strict, repairs => repairs.findSome? Repair.error?

@[simp] theorem Strictness.refusal?_lenient (repairs : List Repair) :
    lenient.refusal? repairs = none := rfl

@[simp] theorem Strictness.refusal?_nil (s : Strictness) : s.refusal? [] = none := by
  cases s <;> rfl

end LicenseExpr
