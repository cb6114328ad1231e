import LicenseExpr.Expression
import LicenseExpr.Text.JsonString

/-!
# Expressions as JSON

Each node is an object with a single member: its kind, with the name of an identifier, the two
sides of an operator in an array, or the inside of a group. `toJson` writes without blanks;
`ofJson?` allows them between any two tokens and refuses objects and arrays that nest deeper than
`maxJsonNesting`.
-/

namespace LicenseExpr.Expression

/-! ## Writing -/

def jsonHead (kind : String) : List Char := '{' :: '"' :: (kind.toList ++ ['"', ':'])

/-- Writes a node in front of `tail`. -/
def jsonOnto : Expression → List Char → List Char
  | e@(identifier name), tail => jsonHead e.kind ++ (Text.jsonString name ++ '}' :: tail)
  | e@(binary _ left right), tail =>
    jsonHead e.kind ++ '[' :: left.jsonOnto (',' :: right.jsonOnto (']' :: '}' :: tail))
  | e@(group inner), tail => jsonHead e.kind ++ inner.jsonOnto ('}' :: tail)

def toJson (e : Expression) : String := String.ofList (e.jsonOnto [])

/-- How deep the objects and arrays of a node's JSON nest. -/
def jsonNesting : Expression → Nat
  | identifier _ => 1
  | binary _ left right => max left.jsonNesting right.jsonNesting + 2
  | group inner => inner.jsonNesting + 1

/-! ## Reading -/

def maxJsonNesting : Nat := 127

def isJsonBlank (c : Char) : Bool := c == ' ' || c == '\t' || c == '\n' || c == '\r'

/-- What follows `c` and any blanks before it. -/
def expect? (c : Char) (cs : List Char) : Option (List Char) :=
  match cs.dropWhile isJsonBlank with
  | [] => none
  | d :: rest => if d = c then some rest else none

def readString? (cs : List Char) : Option (String × List Char) :=
  expect? '"' cs >>= Text.readJsonString

def operatorOfKind? (kind : String) : Option Operator :=
  [Operator.and, .or, .exception].find? (·.kind == kind)

def readHead? (cs : List Char) : Option (String × List Char) := do
  let cs ← expect? '{' cs
  let (kind, cs) ← readString? cs
  let cs ← expect? ':' cs
  return (kind, cs)

def readClose? (e : Expression) (cs : List Char) : Option (Expression × List Char) :=
  (expect? '}' cs).map (e, ·)

/-- Reads a node whose objects and arrays nest at most `nesting` deep. -/
def readJson? (nesting : Nat) (cs : List Char) : Option (Expression × List Char) :=
  match nesting with
  | 0 => none
  | nesting + 1 => do
    let (kind, cs) ← readHead? cs
    if kind = "identifier" then
      let (name, cs) ← readString? cs
      readClose? (identifier name) cs
    else if kind = "group" then
      let (inner, cs) ← readJson? nesting cs
      readClose? (group inner) cs
    else
      let op ← operatorOfKind? kind
      match nesting with
      | 0 => none
      | nesting + 1 =>
        let cs ← expect? '[' cs
        let (left, cs) ← readJson? nesting cs
        let cs ← expect? ',' cs
        let (right, cs) ← readJson? nesting cs
        let cs ← expect? ']' cs
        readClose? (binary op left right) cs
termination_by structural nesting

/-- Only blanks may follow the node. -/
def ofJson? (text : String) : Option Expression := do
  let (e, rest) ← readJson? maxJsonNesting text.toList
  guard (rest.all isJsonBlank)
  return e

end LicenseExpr.Expression
