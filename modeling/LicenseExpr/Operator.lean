import LicenseExpr.Text.Case

/-!
# Operators

The three words that join two expressions. They are reserved in any letter case.
-/

namespace LicenseExpr

inductive Operator where
  | and
  | or
  /-- `WITH`, which attaches an exception to a license. -/
  | exception
  deriving DecidableEq

namespace Operator

def word : Operator → String
  | and => "AND"
  | or => "OR"
  | exception => "WITH"

def ofWord? (text : String) : Option Operator :=
  [and, or, exception].find? fun op => Text.sameWord text op.word

theorem ofWord?_word (op : Operator) : ofWord? op.word = some op := by
  cases op <;> decide

theorem ofWord?_congr {a b : String} (h : Text.sameWord a b = true) : ofWord? a = ofWord? b := by
  have (op : Operator) : Text.sameWord a op.word = Text.sameWord b op.word := by
    rw [Bool.eq_iff_iff]
    exact ⟨Text.sameWord_trans (Text.sameWord_comm a b ▸ h), Text.sameWord_trans h⟩
  simp [ofWord?, this]

end Operator

end LicenseExpr
