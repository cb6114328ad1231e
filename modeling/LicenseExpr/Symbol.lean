import LicenseExpr.Token

/-!
# Symbols

The terminals of the grammar: what a token counts for when a license expression is read. Two words
in different letter case are one symbol if they spell an operator, and two symbols otherwise.
-/

namespace LicenseExpr

inductive Symbol where
  /-- A word that is not reserved. -/
  | name (text : String)
  | operator (op : Operator)
  | leftParen
  | rightParen
  deriving DecidableEq

namespace Symbol

def ofWord (text : String) : Symbol :=
  match Operator.ofWord? text with
  | some op => operator op
  | none => name text

def spelling : Symbol → String
  | name text => text
  | operator op => op.word
  | leftParen => "("
  | rightParen => ")"

theorem ofWord_eq_name_iff {text s : String} :
    ofWord text = name s ↔ text = s ∧ Operator.ofWord? text = none := by
  unfold ofWord
  split
  · next op h => simp [h]
  · next h => simp [h]

end Symbol

/-- The end of the text is no symbol. -/
def Lexeme.symbol? : Lexeme → Option Symbol
  | word text => some (.ofWord text)
  | leftParen => some .leftParen
  | rightParen => some .rightParen
  | endOfInput => none

theorem Lexeme.symbol?_eq_none_iff {l : Lexeme} : l.symbol? = none ↔ l = endOfInput := by
  cases l <;> simp [symbol?]

def symbols (text : String) : List Symbol :=
  (tokenize text).filterMap (·.lexeme.symbol?)

theorem symbols_eq (text : String) :
    symbols text = (Cursor.ofText text).tokens.filterMap (·.lexeme.symbol?) := by
  simp [symbols, tokenize, Cursor.endToken, Lexeme.symbol?]

end LicenseExpr
