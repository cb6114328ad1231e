import LicenseExpr.Dialect
import LicenseExpr.Level
import LicenseExpr.Precedence
import LicenseExpr.RightNested
import LicenseExpr.Text.Quoted

/-!
# Readers

A reader is a dialect with a limit on how deep groups may nest. Reading a text gives an expression
or an error, together with the repairs made on the way; a text that holds no operand is an error
too.
-/

namespace LicenseExpr

structure Reading where
  dialect : Dialect
  text : String
  repairs : List Repair
  result : Except SyntaxError Expression

structure Reader where
  dialect : Dialect
  maxDepth : Nat
  deriving DecidableEq

namespace Reader

def defaultMaxDepth : Nat := 256

def ofDialect (dialect : Dialect) : Reader := ⟨dialect, defaultMaxDepth⟩

def standard : Reader := ofDialect .lenient

/-- What right-nested reading comes to when a text without an expression is an error. -/
def requireExpression (text : String) : Option Expression → Except SyntaxError Expression
  | none => .error (.emptyExpression (Text.byteLength text.toList))
  | some e => .ok e

def readRightNested (reader : Reader) (strictness : Strictness) (text : String) :
    Reading :=
  let outcome := RightNested.read strictness reader.maxDepth text
  ⟨reader.dialect, text, outcome.repairs, outcome.result >>= requireExpression text⟩

def read (reader : Reader) (text : String) : Reading :=
  match reader.dialect with
  | .lenient => reader.readRightNested .lenient text
  | .strict => reader.readRightNested .strict text
  | .spdx => ⟨.spdx, text, [], Precedence.read reader.maxDepth text⟩

end Reader

namespace Reading

/-! ## Log records -/

def target : String := "spdx_expr::parser"

def repairTarget : String := "spdx_expr::parser::scoped"

/-- The records of reading a text: one for the start, one for each repair. -/
def records (r : Reading) : List LogRecord :=
  ⟨.trace, target,
    "parsing " ++ Text.quote r.text ++ " with the " ++ r.dialect.name ++ " dialect"⟩ ::
  r.repairs.map fun repair => ⟨.debug, repairTarget, repair.message⟩

/-- The records when nobody is told the error: it is put on record instead. -/
def recordsWithError (r : Reading) : List LogRecord :=
  match r.result with
  | .ok _ => r.records
  | .error e =>
    r.records ++
      [⟨.debug, target, "no expression parsed from " ++ Text.quote r.text ++ ": " ++ e.message⟩]

end Reading

end LicenseExpr
