import LicenseExpr.Expression
import LicenseExpr.Symbol

/-!
# Expressions as symbols

Writing an expression out gives its symbols from left to right. The two ways to nest operators
leave the symbols alone and differ in the trees they allow: `RightNested` trees have nothing but
operands on the left of an operator, `ByPrecedence` trees have the tighter operators further down
and chains of one operator to the left.
-/

namespace LicenseExpr.Expression

def symbols : Expression → List Symbol
  | identifier name => [.name name]
  | binary op left right => left.symbols ++ .operator op :: right.symbols
  | group inner => .leftParen :: (inner.symbols ++ [.rightParen])

/-- The symbols in their conventional spelling with a space between any two. -/
def toText (e : Expression) : String := " ".intercalate (e.symbols.map (·.spelling))

/-- The largest number of groups on a path from the root. -/
def nesting : Expression → Nat
  | identifier _ => 0
  | binary _ left right => max left.nesting right.nesting
  | group inner => inner.nesting + 1

def Unreserved : Expression → Prop
  | identifier name => Operator.ofWord? name = none
  | binary _ left right => left.Unreserved ∧ right.Unreserved
  | group inner => inner.Unreserved

/-- An operand stands for itself next to any operator. -/
def IsOperand : Expression → Prop
  | identifier _ | group _ => True
  | binary .. => False

def RightNested : Expression → Prop
  | identifier _ => True
  | binary _ left right => left.IsOperand ∧ left.RightNested ∧ right.RightNested
  | group inner => inner.RightNested

/-- The node is an operand or an operator that `op` may have as its left child. -/
def LeftOf (op : Operator) : Expression → Prop
  | identifier _ | group _ => True
  | binary inner _ _ =>
    match op with
    | .or => True
    | .and => inner ≠ .or
    | .exception => False

def RightOf (op : Operator) : Expression → Prop
  | identifier _ | group _ => True
  | binary inner _ _ =>
    match op with
    | .or => inner ≠ .or
    | .and => inner = .exception
    | .exception => False

def ByPrecedence : Expression → Prop
  | identifier _ => True
  | binary op left right =>
    left.LeftOf op ∧ right.RightOf op ∧ left.ByPrecedence ∧ right.ByPrecedence
  | group inner => inner.ByPrecedence

/-! ## Deciding the shapes -/

instance : DecidablePred IsOperand
  | identifier _ | group _ => isTrue trivial
  | binary .. => isFalse id

instance (op : Operator) : DecidablePred (LeftOf op)
  | identifier _ | group _ => isTrue trivial
  | binary inner _ _ => by unfold LeftOf; cases op <;> infer_instance

instance (op : Operator) : DecidablePred (RightOf op)
  | identifier _ | group _ => isTrue trivial
  | binary inner _ _ => by unfold RightOf; cases op <;> infer_instance

def decidableUnreserved : (e : Expression) → Decidable e.Unreserved
  | identifier name => decEq (Operator.ofWord? name) none
  | binary _ left right =>
    have := left.decidableUnreserved
    have := right.decidableUnreserved
    inferInstanceAs (Decidable (_ ∧ _))
  | group inner => inner.decidableUnreserved

instance : DecidablePred Unreserved := decidableUnreserved

def decidableRightNested : (e : Expression) → Decidable e.RightNested
  | identifier _ => isTrue trivial
  | binary _ left right =>
    have := left.decidableRightNested
    have := right.decidableRightNested
    inferInstanceAs (Decidable (_ ∧ _ ∧ _))
  | group inner => inner.decidableRightNested

instance : DecidablePred RightNested := decidableRightNested

def decidableByPrecedence : (e : Expression) → Decidable e.ByPrecedence
  | identifier _ => isTrue trivial
  | binary _ left right =>
    have := left.decidableByPrecedence
    have := right.decidableByPrecedence
    inferInstanceAs (Decidable (_ ∧ _ ∧ _ ∧ _))
  | group inner => inner.decidableByPrecedence

instance : DecidablePred ByPrecedence := decidableByPrecedence

end LicenseExpr.Expression
