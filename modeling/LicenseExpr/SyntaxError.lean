import LicenseExpr.Token

/-!
# Syntax errors

Why a text is not an expression. Each error holds the byte at which it was found.
-/

namespace LicenseExpr

inductive SyntaxError where
  | emptyExpression (offset : Nat)
  /-- A token stands where the grammar has no place for it. -/
  | unexpectedToken (offset : Nat) (found : Lexeme)
  | missingOperand (offset : Nat) (op : Operator)
  | unmatchedParenthesis (offset : Nat)
  /-- Nothing stands between the parenthesis at the offset and the one that closes it. -/
  | emptyGroup (offset : Nat)
  | nestingTooDeep (offset : Nat) (limit : Nat)
  deriving DecidableEq

namespace SyntaxError

def offset : SyntaxError → Nat
  | emptyExpression offset => offset
  | unexpectedToken offset _ => offset
  | missingOperand offset _ => offset
  | unmatchedParenthesis offset => offset
  | emptyGroup offset => offset
  | nestingTooDeep offset _ => offset

def complaint : SyntaxError → String
  | emptyExpression _ => "empty license expression"
  | unexpectedToken _ found => "unexpected token " ++ found.description
  | missingOperand _ op => "expected license expression around '" ++ op.word ++ "'"
  | unmatchedParenthesis _ => "unmatched parenthesis"
  | emptyGroup _ => "empty parentheses"
  | nestingTooDeep _ limit => "expression nests deeper than " ++ toString limit ++ " levels"

def message (e : SyntaxError) : String := e.complaint ++ " at byte " ++ toString e.offset

end SyntaxError

end LicenseExpr
