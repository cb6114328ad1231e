import LicenseExpr.Expression

/-!
# Outlines

An outline has a line for each node, every node before its children and the left child before the
right one. A node stands two spaces further in than its parent; an identifier's name follows its
kind.
-/

namespace LicenseExpr.Expression

/-- The line of a node without its indentation. -/
def outlineLabel (e : Expression) : List Char :=
  match e with
  | identifier name => e.kind.toList ++ ' ' :: name.toList
  | binary .. | group _ => e.kind.toList

def outlineLine (level : Nat) (e : Expression) : List Char :=
  List.replicate (2 * level) ' ' ++ e.outlineLabel

/-- Takes the pending nodes from the top of a stack, each with its level. The line of a node is added
to those written so far, the latest first, and its children go on the stack, the first one on top. -/
def writeLines (written : List (List Char)) : List (Expression × Nat) → List (List Char)
  | [] => written
  | (e, level) :: pending =>
    writeLines (e.outlineLine level :: written) (e.children.map (·, level + 1) ++ pending)
termination_by pending => nodeCounts (pending.map (·.1))
decreasing_by simp [nodeCount_eq e, Function.comp_def]

def outlineLines (e : Expression) : List (List Char) := (writeLines [] [(e, 0)]).reverse

end LicenseExpr.Expression
