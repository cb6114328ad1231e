import LicenseExpr.Search.ContentId
import LicenseExpr.Text.Blank

/-!
# Coordinates

A component is written `type/source/namespace/name/version`. A namespace that is empty or `-` says
that the component has none, and `display` writes `-` for it.
-/

namespace LicenseExpr.Search

structure Coordinates where
  type : String
  source : String
  nameSpace : Option String
  name : String
  version : String
  deriving DecidableEq

/-- The text has not five parts; it is given without blanks around it. -/
structure CoordinatesError where
  value : String
  deriving DecidableEq

def CoordinatesError.message (e : CoordinatesError) : String :=
  "invalid coordinates '" ++ e.value ++ "', expected type/source/namespace/name/version"

namespace Coordinates

def readNameSpace (part : List Char) : Option String :=
  if part = [] ∨ part = ['-'] then none else some (String.ofList part)

def ofText (text : String) : Except CoordinatesError Coordinates :=
  let trimmed := Text.trimChars text.toList
  match trimmed.splitOn '/' with
  | [type, source, nameSpace, name, version] =>
    .ok ⟨String.ofList type, String.ofList source, readNameSpace nameSpace, String.ofList name,
      String.ofList version⟩
  | _ => .error ⟨String.ofList trimmed⟩

def display (c : Coordinates) : String :=
  "/".intercalate [c.type, c.source, c.nameSpace.getD "-", c.name, c.version]

/-- The namespace is the one part that may be missing. -/
def valid (c : Coordinates) : Bool :=
  [c.type, c.source, c.name, c.version].all (· ≠ "")

def contentId (c : Coordinates) : ContentId := ⟨c.nameSpace, c.name, c.valid⟩

end Coordinates

end LicenseExpr.Search
