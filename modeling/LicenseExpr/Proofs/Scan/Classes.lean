import LicenseExpr.Proofs.Classes
import LicenseExpr.Proofs.Earliest

/-!
# Scans of texts with the same classes

A scan looks at the class of a token and at nothing else of it, and keeps the starts of groups only
to name them in errors. So scans of two texts whose tokens are twins stay in states alike
(`step_alike`) and find the same error at tokens that go together, if any. Where there is none,
both texts are read as trees, which are alike because the symbols are (`endsAlike_of_manner`).
-/

namespace LicenseExpr.Scan

variable {R : Token → Token → Prop} {manner : Manner} {limit stop stop' : Nat} {s s' : State}
  {token token' : Token}

/-- Groups that were opened at tokens that go together, both attached or neither. -/
inductive Opened.Alike (R : Token → Token → Prop) : Opened → Opened → Prop where
  | intro {t t' : Token} (attached : Bool) : R t t' →
      Alike R ⟨t.start, attached⟩ ⟨t'.start, attached⟩

/-- Scans stand at the same place, inside groups that go together. -/
structure State.Alike (R : Token → Token → Prop) (s s' : State) : Prop where
  place : s.place = s'.place
  opened : List.Forall₂ (Opened.Alike R) s.opened s'.opened

theorem alike_start (R : Token → Token → Prop) : State.start.Alike R .start := ⟨rfl, .nil⟩

theorem join_alike {op : Operator} (h : R token token') (hs : s.Alike R s') :
    EndsAlike (SyntaxError.Alike R) (State.Alike R) (s.join manner token op)
      (s'.join manner token' op) := by
  obtain ⟨place, opened⟩ := s
  obtain ⟨place', opened'⟩ := s'
  obtain ⟨rfl, hopened⟩ := hs
  cases place with
  | opening => exact .error (.missingOperand op h)
  | behind op' =>
    cases manner with
    | rightNested => exact .error (.missingOperand op h)
    | byPrecedence => exact .error (.missingOperand op' h)
  | after attached =>
    rw [State.join, State.join]
    by_cases hchain : manner = .byPrecedence ∧ attached = true ∧ op = .exception
    · dsimp only
      rw [if_pos hchain, if_pos hchain]
      exact .error (.unexpectedToken h)
    · dsimp only
      rw [if_neg hchain, if_neg hchain]
      exact .ok ⟨rfl, hopened⟩

theorem name_alike (h : R token token') (hs : s.Alike R s') :
    EndsAlike (SyntaxError.Alike R) (State.Alike R) (s.name token) (s'.name token') := by
  obtain ⟨place, opened⟩ := s
  obtain ⟨place', opened'⟩ := s'
  obtain ⟨rfl, hopened⟩ := hs
  cases place with
  | after attached => exact .error (.unexpectedToken h)
  | opening | behind op => exact .ok ⟨rfl, hopened⟩

theorem openGroup_alike (h : R token token') (hs : s.Alike R s') :
    EndsAlike (SyntaxError.Alike R) (State.Alike R) (s.openGroup limit token)
      (s'.openGroup limit token') := by
  obtain ⟨place, opened⟩ := s
  obtain ⟨place', opened'⟩ := s'
  obtain ⟨rfl, hopened⟩ := hs
  cases place with
  | after attached => exact .error (.unexpectedToken h)
  | opening | behind op =>
    have hlength : opened.length = opened'.length := hopened.length_eq
    rw [State.openGroup, State.openGroup]
    dsimp only
    rw [hlength]
    split
    · exact .error (.nestingTooDeep limit h)
    · exact .ok ⟨rfl, .cons (.intro _ h) hopened⟩

theorem closeGroup_alike (h : R token token') (hs : s.Alike R s') :
    EndsAlike (SyntaxError.Alike R) (State.Alike R) (s.closeGroup token)
      (s'.closeGroup token') := by
  obtain ⟨place, opened⟩ := s
  obtain ⟨place', opened'⟩ := s'
  obtain ⟨rfl, hopened⟩ := hs
  cases hopened with
  | nil =>
    cases place with
    | behind op => exact .error (.missingOperand op h)
    | opening | after attached => exact .error (.unmatchedParenthesis h)
  | cons hgroup hopened =>
    cases hgroup with
    | intro attached' hstart =>
      cases place with
      | behind op => exact .error (.missingOperand op h)
      | opening => exact .error (.emptyGroup hstart)
      | after attached => exact .ok ⟨rfl, hopened⟩

theorem step_alike (h : Twins R token token') (hs : s.Alike R s') :
    EndsAlike (SyntaxError.Alike R) (State.Alike R) (s.step manner limit token)
      (s'.step manner limit token') := by
  obtain ⟨hrel, hsame⟩ := h
  generalize hlexeme : token.lexeme = lexeme at hsame
  generalize hlexeme' : token'.lexeme = lexeme' at hsame
  cases hsame with
  | @word text text' htext =>
    rcases hop : Operator.ofWord? text with _ | op
    · rw [step_name hlexeme hop, step_name hlexeme' (htext.symm.trans hop)]
      exact name_alike hrel hs
    · have hoperator : token.lexeme.operator? = some op := by
        rw [hlexeme]
        exact hop
      have hoperator' : token'.lexeme.operator? = some op := by
        rw [hlexeme']
        exact htext.symm.trans hop
      rw [step_operator hoperator, step_operator hoperator']
      exact join_alike hrel hs
  | leftParen =>
    rw [step_leftParen hlexeme, step_leftParen hlexeme']
    exact openGroup_alike hrel hs
  | rightParen =>
    rw [step_rightParen hlexeme, step_rightParen hlexeme']
    exact closeGroup_alike hrel hs
  | endOfInput =>
    rw [State.step, State.step, hlexeme, hlexeme']
    exact .ok hs

theorem finish_alike (h : R ⟨.endOfInput, stop⟩ ⟨.endOfInput, stop'⟩) (hs : s.Alike R s') :
    EndsAlike (SyntaxError.Alike R) Eq (s.finish stop) (s'.finish stop') := by
  obtain ⟨place, opened⟩ := s
  obtain ⟨place', opened'⟩ := s'
  obtain ⟨rfl, hopened⟩ := hs
  cases hopened with
  | nil =>
    cases place with
    | behind op => exact .error (.missingOperand op h)
    | opening => exact .error (.emptyExpression h)
    | after attached => exact .ok rfl
  | cons hgroup hopened =>
    cases hgroup with
    | intro attached' hstart =>
      cases place with
      | behind op => exact .error (.missingOperand op h)
      | opening | after attached => exact .error (.unmatchedParenthesis hstart)

theorem check_alike {tokens tokens' : List Token} (h : List.Forall₂ (Twins R) tokens tokens')
    (hstop : R ⟨.endOfInput, stop⟩ ⟨.endOfInput, stop'⟩) (hs : s.Alike R s') :
    EndsAlike (SyntaxError.Alike R) Eq (s.check manner limit stop tokens)
      (s'.check manner limit stop' tokens') := by
  induction h generalizing s s' with
  | nil => exact finish_alike hstop hs
  | cons htwins _ ih =>
    rw [check_cons, check_cons]
    exact (step_alike htwins hs).bind ih

/-! ## Readings -/

/-- The dialects that refuse malformed text read texts with the same classes alike. -/
theorem endsAlike_of_manner {text text' : String} (h : SameClasses text text') :
    EndsAlike (SyntaxError.Alike (Paired text text')) (Expression.Alike (Paired text text'))
      (Reader.read ⟨manner.dialect, limit⟩ text).result
      (Reader.read ⟨manner.dialect, limit⟩ text').result := by
  obtain ⟨htokens, hends⟩ := h.twins
  have hverdicts : EndsAlike (SyntaxError.Alike (Paired text text')) Eq
      (verdict manner limit text) (verdict manner limit text') :=
    check_alike htokens hends (alike_start _)
  rcases hresult : (Reader.read ⟨manner.dialect, limit⟩ text).result with error | e
  · rw [result_eq_error_iff.mp hresult] at hverdicts
    generalize hverdict' : verdict manner limit text' = verdict' at hverdicts
    cases hverdicts with
    | error herror =>
      rw [result_eq_error_iff.mpr hverdict']
      exact .error herror
  · obtain ⟨hsymbols, hshape, hnames, hroom⟩ := result_eq_ok_iff.mp hresult
    have hspells : Spells (Cursor.ofText text).tokens e.symbols := hsymbols ▸ spells_tokens text
    obtain ⟨e', halike, hspells', hnames'⟩ := exists_alike_of_spells htokens hspells hnames
    have hsymbols' : symbols text' = e'.symbols :=
      (spells_tokens text').symbolsOf_eq.symm.trans hspells'.symbolsOf_eq
    have hshape' : manner.Shape e' := by
      cases manner with
      | rightNested => exact halike.rightNested hshape
      | byPrecedence => exact halike.byPrecedence hshape
    rw [result_eq_ok_iff.mpr ⟨hsymbols', hshape', hnames', halike.nesting_eq ▸ hroom⟩]
    exact .ok halike

end LicenseExpr.Scan
