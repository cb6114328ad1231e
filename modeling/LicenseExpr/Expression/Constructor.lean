import LicenseExpr.Expression
import LicenseExpr.Text.Quoted

/-!
# Constructor form

A node is written as the capitalised name of its kind with its parts in parentheses; the name of
an identifier is a quoted text. `toConstructors` puts all of it on one line. `toConstructorBlock`
gives each part a line of its own, four spaces further in than the node, with a comma after it.
-/

namespace LicenseExpr.Expression

def constructorName (e : Expression) : List Char := e.kind.capitalize.toList

/-- Writes a node on one line in front of `tail`. -/
def constructorsOnto (e : Expression) (tail : List Char) : List Char :=
  e.constructorName ++ '(' ::
    match e with
    | identifier name => Text.quoteChars name.toList ++ ')' :: tail
    | binary _ left right =>
      left.constructorsOnto (',' :: ' ' :: right.constructorsOnto (')' :: tail))
    | group inner => inner.constructorsOnto (')' :: tail)

def toConstructors (e : Expression) : String := String.ofList (e.constructorsOnto [])

def lineAt (level : Nat) (tail : List Char) : List Char :=
  '\n' :: (List.replicate (4 * level) ' ' ++ tail)

/-- Writes a node at a level in front of `tail`, the indentation of its first line left out. -/
def blockOnto (level : Nat) (e : Expression) (tail : List Char) : List Char :=
  let close := ',' :: lineAt level (')' :: tail)
  e.constructorName ++ '(' :: lineAt (level + 1)
    (match e with
    | identifier name => Text.quoteChars name.toList ++ close
    | binary _ left right =>
      left.blockOnto (level + 1) (',' :: lineAt (level + 1) (right.blockOnto (level + 1) close))
    | group inner => inner.blockOnto (level + 1) close)

def toConstructorBlock (e : Expression) : String := String.ofList (e.blockOnto 0 [])

end LicenseExpr.Expression
