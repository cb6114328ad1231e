import LicenseExpr.Operator

/-!
# License expressions

A tree of identifiers, operators and groups. A group is kept as a node of its own, so `MIT` and
`(MIT)` differ. `identifiers` and `depth` walk the tree with a list of nodes still to visit, and
so take no more call stack for a tall tree than for a flat one.
-/

namespace LicenseExpr

inductive Expression where
  | identifier (name : String)
  /-- Two expressions joined by an operator; for `WITH` a license and its exception. -/
  | binary (op : Operator) (left right : Expression)
  /-- An expression in parentheses. -/
  | group (inner : Expression)
  deriving DecidableEq

/-- The name of the node that an operator builds. -/
def Operator.kind : Operator → String
  | and => "conjunction"
  | or => "disjunction"
  | exception => "exception"

namespace Expression

def kind : Expression → String
  | identifier _ => "identifier"
  | binary op _ _ => op.kind
  | group _ => "group"

def asIdentifier? : Expression → Option String
  | identifier name => some name
  | binary .. | group _ => none

def children : Expression → List Expression
  | identifier _ => []
  | binary _ left right => [left, right]
  | group inner => [inner]

def nodeCount : Expression → Nat
  | identifier _ => 1
  | binary _ left right => left.nodeCount + right.nodeCount + 1
  | group inner => inner.nodeCount + 1

def nodeCounts (es : List Expression) : Nat := es.foldr (fun e n => e.nodeCount + n) 0

@[simp] theorem nodeCounts_nil : nodeCounts [] = 0 := rfl

@[simp] theorem nodeCounts_cons (e : Expression) (es : List Expression) :
    nodeCounts (e :: es) = e.nodeCount + nodeCounts es := rfl

@[simp] theorem nodeCounts_append (es es' : List Expression) :
    nodeCounts (es ++ es') = nodeCounts es + nodeCounts es' := by
  induction es with
  | nil => simp
  | cons e es ih => simp [ih, Nat.add_assoc]

@[simp] theorem nodeCounts_reverse (es : List Expression) : nodeCounts es.reverse = nodeCounts es := by
  induction es with
  | nil => rfl
  | cons e es ih => simp [ih, Nat.add_comm]

theorem nodeCount_eq (e : Expression) : e.nodeCount = nodeCounts e.children + 1 := by
  cases e <;> simp [nodeCount, children]

/-! ## Walks -/

/-- Visits the pending nodes in order, each before its children, and adds the identifiers to those
found so far, the latest first. -/
def collectIdentifiers (found : List String) : List Expression → List String
  | [] => found
  | e :: pending =>
    collectIdentifiers (e.asIdentifier?.toList ++ found) (e.children ++ pending)
termination_by pending => nodeCounts pending
decreasing_by simp [nodeCount_eq e]

/-- All identifiers, left to right; one that stands twice is listed twice. -/
def identifiers (e : Expression) : List String := (collectIdentifiers [] [e]).reverse

/-- Visits the pending nodes, each with its level, the last child of a node before the others. -/
def deepestLevel (deepest : Nat) : List (Expression × Nat) → Nat
  | [] => deepest
  | (e, level) :: pending =>
    deepestLevel (max deepest level) ((e.children.reverse.map (·, level + 1)) ++ pending)
termination_by pending => nodeCounts (pending.map (·.1))
decreasing_by simp [nodeCount_eq e, Function.comp_def]

/-- The number of nodes on the longest path from the root; an identifier alone has depth 1. -/
def depth (e : Expression) : Nat := deepestLevel 0 [(e, 1)]

end Expression

end LicenseExpr
