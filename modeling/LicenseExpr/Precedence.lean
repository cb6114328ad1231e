import LicenseExpr.Expression
import LicenseExpr.SyntaxError

/-!
# Reading by precedence

`WITH` binds tightest and joins two operands only, then comes `AND`, then `OR`; chains of `AND`
and of `OR` associate to the left. There is a reader for each level, from `disjunction` down to
`operand`. Each takes the number of groups that are open and the tokens before the end that are
still to be read, and gives an expression with the place behind it. A reader uses at least one
token up (`Parsed`); one that goes on after an expression already read may leave all tokens where
they are (`Extended`).
-/

namespace LicenseExpr.Precedence

/-- An expression, the tokens behind it and the number of groups that are open there. -/
structure Parsed (tokens : List Token) where
  expression : Expression
  rest : List Token
  depth : Nat
  length_rest_lt : rest.length < tokens.length

/-- As `Parsed`, for a reader that goes on after what is read already. -/
structure Extended (tokens : List Token) where
  expression : Expression
  rest : List Token
  depth : Nat
  length_rest_le : rest.length ≤ tokens.length

/-- The token that comes next in a text that ends at byte `stop`. -/
def current (stop : Nat) (tokens : List Token) : Token := tokens.headD ⟨.endOfInput, stop⟩

/-! ## What must stand at a token -/

/-- An operator needs an operand behind it: an identifier or the start of a group. -/
def requireOperand (op : Operator) (token : Token) : Except SyntaxError Unit :=
  match token.lexeme with
  | .rightParen | .endOfInput => .error (.missingOperand token.start op)
  | .leftParen => .ok ()
  | .word text =>
    if (Operator.ofWord? text).isSome then .error (.missingOperand token.start op) else .ok ()

/-- A group may open at byte `start` if `depth` others leave room for it and it is not closed or
left open at once, where `token` stands. -/
def requireGroup (limit depth start : Nat) (token : Token) : Except SyntaxError Unit :=
  if depth ≥ limit then .error (.nestingTooDeep start limit)
  else
    match token.lexeme with
    | .rightParen => .error (.emptyGroup start)
    | .endOfInput => .error (.unmatchedParenthesis start)
    | .word _ | .leftParen => .ok ()

def closeGroup (start : Nat) (inner : Expression) (depth : Nat) :
    (tokens : List Token) → Except SyntaxError (Parsed tokens)
  | [] => .error (.unmatchedParenthesis start)
  | token :: rest =>
    match token.lexeme with
    | .rightParen => .ok ⟨.group inner, rest, depth - 1, Nat.lt_succ_self _⟩
    | .endOfInput => .error (.unmatchedParenthesis start)
    | .word _ | .leftParen => .error (.unexpectedToken token.start token.lexeme)

def requireEnd (token : Token) : Except SyntaxError Unit :=
  match token.lexeme with
  | .endOfInput => .ok ()
  | .rightParen => .error (.unmatchedParenthesis token.start)
  | .word _ | .leftParen => .error (.unexpectedToken token.start token.lexeme)

/-! ## The levels -/

mutual

def disjunction (limit stop depth : Nat) (tokens : List Token) :
    Except SyntaxError (Parsed tokens) := do
  let ⟨left, rest, depth, hlt⟩ ← conjunction limit stop depth tokens
  let ⟨e, rest, depth, hle⟩ ← disjunctionFrom limit stop left depth rest
  return ⟨e, rest, depth, Nat.lt_of_le_of_lt hle hlt⟩
termination_by (tokens.length, 3)

/-- Joins each further operand of `OR` to what stands left of it. -/
def disjunctionFrom (limit stop : Nat) (left : Expression) (depth : Nat) (tokens : List Token) :
    Except SyntaxError (Extended tokens) :=
  match tokens with
  | [] => .ok ⟨left, [], depth, Nat.le_refl _⟩
  | token :: rest =>
    if token.lexeme.operator? = some .or then do
      requireOperand .or (current stop rest)
      let ⟨right, rest, depth, hlt⟩ ← conjunction limit stop depth rest
      let ⟨e, rest, depth, hle⟩ ← disjunctionFrom limit stop (.binary .or left right) depth rest
      return ⟨e, rest, depth, Nat.le_succ_of_le (Nat.le_of_lt (Nat.lt_of_le_of_lt hle hlt))⟩
    else .ok ⟨left, token :: rest, depth, Nat.le_refl _⟩
termination_by (tokens.length, 0)

def conjunction (limit stop depth : Nat) (tokens : List Token) :
    Except SyntaxError (Parsed tokens) := do
  let ⟨left, rest, depth, hlt⟩ ← attachment limit stop depth tokens
  let ⟨e, rest, depth, hle⟩ ← conjunctionFrom limit stop left depth rest
  return ⟨e, rest, depth, Nat.lt_of_le_of_lt hle hlt⟩
termination_by (tokens.length, 2)

def conjunctionFrom (limit stop : Nat) (left : Expression) (depth : Nat) (tokens : List Token) :
    Except SyntaxError (Extended tokens) :=
  match tokens with
  | [] => .ok ⟨left, [], depth, Nat.le_refl _⟩
  | token :: rest =>
    if token.lexeme.operator? = some .and then do
      requireOperand .and (current stop rest)
      let ⟨right, rest, depth, hlt⟩ ← attachment limit stop depth rest
      let ⟨e, rest, depth, hle⟩ ← conjunctionFrom limit stop (.binary .and left right) depth rest
      return ⟨e, rest, depth, Nat.le_succ_of_le (Nat.le_of_lt (Nat.lt_of_le_of_lt hle hlt))⟩
    else .ok ⟨left, token :: rest, depth, Nat.le_refl _⟩
termination_by (tokens.length, 0)

def attachment (limit stop depth : Nat) (tokens : List Token) :
    Except SyntaxError (Parsed tokens) := do
  let ⟨license, rest, depth, hlt⟩ ← operand limit stop depth tokens
  match rest, hlt with
  | [], hlt => .ok ⟨license, [], depth, hlt⟩
  | token :: rest, hlt =>
    if token.lexeme.operator? = some .exception then do
      requireOperand .exception (current stop rest)
      have hrest : rest.length < tokens.length := Nat.lt_of_succ_lt hlt
      let ⟨exception, rest, depth, hlt'⟩ ← operand limit stop depth rest
      return ⟨.binary .exception license exception, rest, depth, Nat.lt_trans hlt' hrest⟩
    else .ok ⟨license, token :: rest, depth, hlt⟩
termination_by (tokens.length, 1)

def operand (limit stop depth : Nat) (tokens : List Token) :
    Except SyntaxError (Parsed tokens) :=
  match tokens with
  | [] => .error (.emptyExpression stop)
  | token :: rest =>
    match token.lexeme.operator? with
    | some op => .error (.missingOperand token.start op)
    | none =>
      match token.lexeme with
      | .word name => .ok ⟨.identifier name, rest, depth, Nat.lt_succ_self _⟩
      | .rightParen => .error (.unmatchedParenthesis token.start)
      | .endOfInput => .error (.emptyExpression token.start)
      | .leftParen => do
        requireGroup limit depth token.start (current stop rest)
        let ⟨inner, rest, depth, hlt⟩ ← disjunction limit stop (depth + 1) rest
        let ⟨e, rest, depth, hlt'⟩ ← closeGroup token.start inner depth rest
        return ⟨e, rest, depth, Nat.lt_succ_of_lt (Nat.lt_trans hlt' hlt)⟩
termination_by (tokens.length, 0)

end

def readTokens (limit stop : Nat) (tokens : List Token) : Except SyntaxError Expression :=
  let first := current stop tokens
  if first.lexeme = .endOfInput then .error (.emptyExpression first.start)
  else do
    let ⟨e, rest, _, _⟩ ← disjunction limit stop 0 tokens
    requireEnd (current stop rest)
    return e

def read (limit : Nat) (text : String) : Except SyntaxError Expression :=
  let cursor := Cursor.ofText text
  readTokens limit cursor.stop cursor.tokens

end LicenseExpr.Precedence
