import LicenseExpr.Expression.Constructor
import LicenseExpr.Expression.Json
import LicenseExpr.Expression.Outline

/-!
# Output formats

A format turns an expression into chunks of text for a sink. A chunk is part of a JSON document or
it is not; the line break after a document is no part of it.
-/

namespace LicenseExpr

inductive Format where
  /-- The outline. -/
  | tree
  /-- The constructor block. -/
  | debug
  /-- JSON on one line. -/
  | json
  deriving DecidableEq

structure Chunk where
  text : String
  inDocument : Bool
  deriving DecidableEq

namespace Format

def name : Format → String
  | tree => "tree"
  | debug => "debug"
  | json => "json"

/-- Letter case does not matter, blanks do. -/
def ofName? (text : String) : Option Format :=
  [tree, debug, json].find? fun f => Text.sameWord text f.name

def chunks (format : Format) (e : Expression) : List Chunk :=
  match format with
  | tree => e.outlineLines.map fun line => ⟨String.ofList (line ++ ['\n']), false⟩
  | debug => [⟨e.toConstructorBlock ++ "\n", false⟩]
  | json => [⟨e.toJson, true⟩, ⟨"\n", false⟩]

def render (format : Format) (e : Expression) : String :=
  String.join ((format.chunks e).map (·.text))

end Format

end LicenseExpr
