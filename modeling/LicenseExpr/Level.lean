import LicenseExpr.Text.Case

/-!
# Log levels

Levels by severity, from `trace` to `error`, and the records that have one.
-/

namespace LicenseExpr

inductive Level where
  | trace
  | debug
  | info
  | warn
  | error
  deriving DecidableEq

namespace Level

def name : Level → String
  | trace => "trace"
  | debug => "debug"
  | info => "info"
  | warn => "warn"
  | error => "error"

def severity : Level → Nat
  | trace => 0
  | debug => 1
  | info => 2
  | warn => 3
  | error => 4

/-- A log kept at level `threshold` shows what is at least as severe. -/
def shows (threshold level : Level) : Bool := threshold.severity ≤ level.severity

/-- Letter case does not matter, blanks do; `warning` is another name of `warn`. -/
def ofName? (text : String) : Option Level :=
  match [trace, debug, info, warn, error].find? fun l => Text.sameWord text l.name with
  | some l => some l
  | none => if Text.sameWord text "warning" then some warn else none

end Level

structure LogRecord where
  level : Level
  /-- The part of the library that wrote the record. -/
  target : String
  message : String
  deriving DecidableEq

end LicenseExpr
