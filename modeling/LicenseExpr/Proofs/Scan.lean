import LicenseExpr.Proofs.Except
import LicenseExpr.Proofs.Spelling
import LicenseExpr.SyntaxError

/-!
# Scans

A scan goes over the tokens of a text once, from left to right, and finds the first error without
building a tree. It keeps its place in the innermost scope and the groups that are open. The two
grammars differ in two moves only: which of two operators in a row an error names, and whether an
operand that `WITH` attaches may have an exception of its own.
-/

namespace LicenseExpr.Scan

/-- The grammar that a scan follows. -/
inductive Manner where
  | rightNested
  | byPrecedence
  deriving DecidableEq

/-- A place in the innermost scope. -/
inductive Place where
  /-- Nothing of the scope has been read. -/
  | opening
  /-- The right operand of an operator comes next. -/
  | behind (op : Operator)
  /-- An operand has been read; `attached` if `WITH` stands before it. -/
  | after (attached : Bool)

/-- The operand that comes next is one that `WITH` attaches. -/
def Place.attaches : Place → Bool
  | behind .exception => true
  | behind .and | behind .or | opening | after _ => false

theorem Place.of_attaches_opening {p : Prop} (h : opening.attaches = true) : p :=
  absurd h Bool.false_ne_true

/-- An operand comes next. -/
def Place.Awaits : Place → Prop
  | opening | behind _ => True
  | after _ => False

theorem Place.attaches_behind_iff {op : Operator} :
    (behind op).attaches = true ↔ op = .exception := by
  cases op <;> simp [attaches]

structure Opened where
  start : Nat
  /-- `WITH` stands before it. -/
  attached : Bool

structure State where
  place : Place
  /-- The innermost group first. -/
  opened : List Opened

namespace State

def start : State := ⟨.opening, []⟩

def join (manner : Manner) (s : State) (token : Token) (op : Operator) :
    Except SyntaxError State :=
  match s.place with
  | .opening => .error (.missingOperand token.start op)
  | .behind op' =>
    match manner with
    | .rightNested => .error (.missingOperand token.start op)
    | .byPrecedence => .error (.missingOperand token.start op')
  | .after attached =>
    if manner = .byPrecedence ∧ attached = true ∧ op = .exception then
      .error (.unexpectedToken token.start token.lexeme)
    else .ok ⟨.behind op, s.opened⟩

def name (s : State) (token : Token) : Except SyntaxError State :=
  match s.place with
  | .after _ => .error (.unexpectedToken token.start token.lexeme)
  | .opening | .behind _ => .ok ⟨.after s.place.attaches, s.opened⟩

def openGroup (limit : Nat) (s : State) (token : Token) : Except SyntaxError State :=
  match s.place with
  | .after _ => .error (.unexpectedToken token.start token.lexeme)
  | .opening | .behind _ =>
    if s.opened.length ≥ limit then .error (.nestingTooDeep token.start limit)
    else .ok ⟨.opening, ⟨token.start, s.place.attaches⟩ :: s.opened⟩

def closeGroup (s : State) (token : Token) : Except SyntaxError State :=
  match s.place, s.opened with
  | .behind op, _ => .error (.missingOperand token.start op)
  | .opening, [] | .after _, [] => .error (.unmatchedParenthesis token.start)
  | .opening, group :: _ => .error (.emptyGroup group.start)
  | .after _, group :: opened => .ok ⟨.after group.attached, opened⟩

def step (manner : Manner) (limit : Nat) (s : State) (token : Token) : Except SyntaxError State :=
  match token.lexeme with
  | .word text =>
    match Operator.ofWord? text with
    | some op => s.join manner token op
    | none => s.name token
  | .leftParen => s.openGroup limit token
  | .rightParen => s.closeGroup token
  | .endOfInput => .ok s

/-- What is wrong if the text ends here, at byte `stop`. -/
def finish (stop : Nat) (s : State) : Except SyntaxError Unit :=
  match s.place, s.opened with
  | .behind op, _ => .error (.missingOperand stop op)
  | .opening, group :: _ | .after _, group :: _ => .error (.unmatchedParenthesis group.start)
  | .opening, [] => .error (.emptyExpression stop)
  | .after _, [] => .ok ()

def advance (manner : Manner) (limit : Nat) (s : State) (tokens : List Token) :
    Except SyntaxError State :=
  tokens.foldlM (step manner limit) s

/-- Scans the tokens that are left of a text that ends at byte `stop`. -/
def check (manner : Manner) (limit stop : Nat) (s : State) (tokens : List Token) :
    Except SyntaxError Unit :=
  s.advance manner limit tokens >>= finish stop

end State

def verdict (manner : Manner) (limit : Nat) (text : String) : Except SyntaxError Unit :=
  let cursor := Cursor.ofText text
  State.start.check manner limit cursor.stop cursor.tokens

/-! ## Single moves -/

section Step

variable {manner : Manner} {limit stop : Nat} {token : Token} {op : Operator} {s s' : State}
  {opened : List Opened} {tokens rest : List Token} {error : SyntaxError}

theorem step_operator (h : token.lexeme.operator? = some op) :
    s.step manner limit token = s.join manner token op := by
  obtain ⟨text, hword, htext⟩ := Lexeme.operator?_eq_some_iff.mp h
  rw [State.step, hword]
  simp only [htext]

theorem step_name {text : String} (hword : token.lexeme = .word text)
    (htext : Operator.ofWord? text = none) : s.step manner limit token = s.name token := by
  rw [State.step, hword]
  simp only [htext]

theorem step_leftParen (h : token.lexeme = .leftParen) :
    s.step manner limit token = s.openGroup limit token := by
  rw [State.step, h]

theorem step_rightParen (h : token.lexeme = .rightParen) :
    s.step manner limit token = s.closeGroup token := by
  rw [State.step, h]

theorem step_name_of_awaits {place : Place} {text : String} (h : place.Awaits)
    (hword : token.lexeme = .word text) (htext : Operator.ofWord? text = none) :
    State.step manner limit ⟨place, opened⟩ token = .ok ⟨.after place.attaches, opened⟩ := by
  rw [step_name hword htext]
  cases place with
  | opening | behind op => rfl
  | after attached => exact h.elim

theorem step_leftParen_of_awaits {place : Place} (h : place.Awaits)
    (hparen : token.lexeme = .leftParen) (hroom : opened.length < limit) :
    State.step manner limit ⟨place, opened⟩ token =
      .ok ⟨.opening, ⟨token.start, place.attaches⟩ :: opened⟩ := by
  rw [step_leftParen hparen]
  cases place with
  | opening | behind op => exact if_neg (Nat.not_le.mpr hroom)
  | after attached => exact h.elim

theorem step_leftParen_of_full {place : Place} (h : place.Awaits)
    (hparen : token.lexeme = .leftParen) (hfull : limit ≤ opened.length) :
    State.step manner limit ⟨place, opened⟩ token = .error (.nestingTooDeep token.start limit) := by
  rw [step_leftParen hparen]
  cases place with
  | opening | behind op => exact if_pos hfull
  | after attached => exact h.elim

theorem step_operator_of_after {attached : Bool} (hop : token.lexeme.operator? = some op)
    (h : manner = .byPrecedence → attached = true → op ≠ .exception) :
    State.step manner limit ⟨.after attached, opened⟩ token = .ok ⟨.behind op, opened⟩ := by
  rw [step_operator hop]
  exact if_neg fun ⟨hmanner, hattached, hexception⟩ => h hmanner hattached hexception

/-- Behind an operand no other operand may begin. -/
theorem step_after_of_opens {attached : Bool} (h : token.lexeme.OpensOperand) :
    State.step manner limit ⟨.after attached, opened⟩ token =
      .error (.unexpectedToken token.start token.lexeme) := by
  cases hlexeme : token.lexeme with
  | word text => rw [hlexeme] at h; rw [step_name hlexeme h, State.name, hlexeme]
  | leftParen => rw [step_leftParen hlexeme, State.openGroup, hlexeme]
  | rightParen | endOfInput => rw [hlexeme] at h; exact h.elim

/-! ## Scans by their first step -/

theorem advance_cons :
    s.advance manner limit (token :: rest) =
      s.step manner limit token >>= fun s' => s'.advance manner limit rest :=
  List.foldlM_cons

theorem advance_cons_eq_ok_iff :
    s.advance manner limit (token :: rest) = .ok s' ↔
      ∃ middle, s.step manner limit token = .ok middle ∧
        middle.advance manner limit rest = .ok s' := by
  rw [advance_cons]
  exact bind_eq_ok_iff

theorem advance_append :
    s.advance manner limit (tokens ++ rest) =
      s.advance manner limit tokens >>= fun s' => s'.advance manner limit rest :=
  List.foldlM_append

theorem advance_append_eq_ok_iff :
    s.advance manner limit (tokens ++ rest) = .ok s' ↔
      ∃ middle, s.advance manner limit tokens = .ok middle ∧
        middle.advance manner limit rest = .ok s' := by
  rw [advance_append]
  exact bind_eq_ok_iff

theorem check_cons :
    s.check manner limit stop (token :: rest) =
      s.step manner limit token >>= fun s' => s'.check manner limit stop rest := by
  rw [State.check, advance_cons]
  cases s.step manner limit token <;> rfl

theorem check_cons_of_ok (h : s.step manner limit token = .ok s') :
    s.check manner limit stop (token :: rest) = s'.check manner limit stop rest := by
  rw [check_cons, h]
  rfl

theorem check_cons_of_error (h : s.step manner limit token = .error error) :
    s.check manner limit stop (token :: rest) = .error error := by
  rw [check_cons, h]
  rfl

theorem check_append_of_ok (h : s.advance manner limit tokens = .ok s') :
    s.check manner limit stop (tokens ++ rest) = s'.check manner limit stop rest := by
  rw [State.check, advance_append, h]
  rfl

end Step

end LicenseExpr.Scan
