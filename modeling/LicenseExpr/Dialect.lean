import LicenseExpr.Text.Blank
import LicenseExpr.Text.Case

/-!
# Dialects

A dialect fixes how operators nest and what is done about malformed text.
-/

namespace LicenseExpr

inductive Dialect where
  /-- Operators nest to the right; malformed text is repaired. -/
  | lenient
  /-- Operators nest to the right; malformed text is refused. -/
  | strict
  /-- Operators have precedence; malformed text is refused. -/
  | spdx
  deriving DecidableEq

/-- No dialect has this name, which is given without blanks around it. -/
structure UnknownDialect where
  name : String
  deriving DecidableEq

def UnknownDialect.message (e : UnknownDialect) : String :=
  "unknown dialect '" ++ e.name ++ "', expected one of: lenient, strict, spdx"

namespace Dialect

def name : Dialect → String
  | lenient => "lenient"
  | strict => "strict"
  | spdx => "spdx"

/-- Blanks around a name and its letter case do not matter. -/
def ofName (text : String) : Except UnknownDialect Dialect :=
  let name := Text.trim text
  match [lenient, strict, spdx].find? fun d => Text.sameWord name d.name with
  | some d => .ok d
  | none => .error ⟨name⟩

end Dialect

end LicenseExpr
