import LicenseExpr.Proofs.Scan.Errors
import LicenseExpr.Proofs.Token

/-!
# The two manners compared

Scans of one text in the two manners stay in the same states until the scan by precedence ends. It
then ends with the same error as the other one, with another operator in it where two operators
meet, or at a `WITH` that the right-nested grammar lets chain (`step_byPrecedence_error`). A scan
that has ended nowhere yet can be brought to a good end (`exists_completion`).
-/

namespace LicenseExpr

/-- A `WITH` stands where the grammar has no place for it. -/
def SyntaxError.OnAttachment : SyntaxError → Prop
  | unexpectedToken _ found => found.operator? = some .exception
  | emptyExpression _ | missingOperand .. | unmatchedParenthesis _ | emptyGroup _
  | nestingTooDeep .. => False

namespace Scan

variable {manner : Manner} {limit stop : Nat} {s s' : State} {token : Token} {tokens : List Token}
  {error : SyntaxError}

/-! ## Single moves -/

theorem step_eq_of_operator?_eq_none (h : token.lexeme.operator? = none) :
    s.step .byPrecedence limit token = s.step .rightNested limit token := by
  cases hlexeme : token.lexeme with
  | word text =>
    rw [hlexeme] at h
    rw [step_name hlexeme h, step_name hlexeme h]
  | leftParen => rw [step_leftParen hlexeme, step_leftParen hlexeme]
  | rightParen => rw [step_rightParen hlexeme, step_rightParen hlexeme]
  | endOfInput => rw [State.step, State.step, hlexeme]

theorem step_rightNested_of_byPrecedence (h : s.step .byPrecedence limit token = .ok s') :
    s.step .rightNested limit token = .ok s' := by
  rcases hop : token.lexeme.operator? with _ | op
  · rwa [step_eq_of_operator?_eq_none hop] at h
  · rw [step_operator hop] at *
    obtain ⟨place, opened⟩ := s
    cases place with
    | opening | behind op' => cases h
    | after attached =>
      rw [State.join] at *
      dsimp only at *
      split at h <;> cases h
      rfl

theorem start_of_step_error {offset : Nat} {op : Operator}
    (h : s.step manner limit token = .error (.missingOperand offset op)) : offset = token.start := by
  cases ends_of_step_error h
  rfl

theorem found_of_step_error {offset : Nat} {found : Lexeme}
    (h : s.step manner limit token = .error (.unexpectedToken offset found)) :
    found = token.lexeme := by
  cases ends_of_step_error h
  rfl

theorem start_of_finish_error {offset : Nat} {op : Operator}
    (h : s.finish stop = .error (.missingOperand offset op)) : offset = stop := by
  cases lacks_of_finish_error h
  rfl

theorem not_onAttachment_of_finish (h : s.finish stop = .error error) : ¬ error.OnAttachment := by
  cases lacks_of_finish_error h <;> exact id

/-- How a scan by precedence ends at a token, and what the other scan does there. -/
theorem step_byPrecedence_error (h : s.step .byPrecedence limit token = .error error) :
    (s.step .rightNested limit token = .error error ∧ ¬ error.OnAttachment ∧
      ∀ first second, s.place = .behind first → token.lexeme.operator? ≠ some second) ∨
    (∃ first second, s.place = .behind first ∧ token.lexeme.operator? = some second ∧
      error = .missingOperand token.start first ∧
      s.step .rightNested limit token = .error (.missingOperand token.start second)) ∨
    (s.place = .after true ∧ token.lexeme.operator? = some .exception ∧
      error = .unexpectedToken token.start token.lexeme) := by
  rcases hop : token.lexeme.operator? with _ | op
  · refine .inl ⟨step_eq_of_operator?_eq_none hop ▸ h, fun herror => ?_, nofun⟩
    cases error with
    | unexpectedToken offset found =>
      rw [SyntaxError.OnAttachment, found_of_step_error h, hop] at herror
      cases herror
    | emptyExpression | missingOperand | unmatchedParenthesis | emptyGroup | nestingTooDeep =>
      exact herror
  · rw [step_operator hop] at *
    obtain ⟨place, opened⟩ := s
    cases place with
    | opening =>
      cases h
      exact .inl ⟨rfl, id, nofun⟩
    | behind op' =>
      cases h
      exact .inr (.inl ⟨op', op, rfl, rfl, rfl, rfl⟩)
    | after attached =>
      rw [State.join] at h
      dsimp only at h
      split at h
      · next hchain =>
        obtain ⟨-, rfl, rfl⟩ := hchain
        cases h
        exact .inr (.inr ⟨rfl, rfl, rfl⟩)
      · cases h

/-! ## Runs -/

theorem advance_rightNested_of_byPrecedence (h : s.advance .byPrecedence limit tokens = .ok s') :
    s.advance .rightNested limit tokens = .ok s' := by
  induction tokens generalizing s with
  | nil => exact h
  | cons token rest ih =>
    obtain ⟨middle, hstep, h⟩ := advance_cons_eq_ok_iff.mp h
    exact advance_cons_eq_ok_iff.mpr ⟨middle, step_rightNested_of_byPrecedence hstep, ih h⟩

theorem check_eq_ok_iff :
    s.check manner limit stop tokens = .ok () ↔
      ∃ s', s.advance manner limit tokens = .ok s' ∧ s'.finish stop = .ok () :=
  bind_eq_ok_iff

theorem exists_of_check_error (h : s.check manner limit stop tokens = .error error) :
    (∃ front token rest s', tokens = front ++ token :: rest ∧
      s.advance manner limit front = .ok s' ∧ s'.step manner limit token = .error error) ∨
    ∃ s', s.advance manner limit tokens = .ok s' ∧ s'.finish stop = .error error := by
  induction tokens generalizing s with
  | nil => exact .inr ⟨s, rfl, h⟩
  | cons token rest ih =>
    rw [check_cons] at h
    rcases bind_eq_error_iff.mp h with hstep | ⟨middle, hstep, h⟩
    · exact .inl ⟨[], token, rest, s, rfl, rfl, hstep⟩
    · rcases ih h with ⟨front, token', rest, s', rfl, hfront, herror⟩ | ⟨s', hrest, herror⟩
      · refine .inl ⟨token :: front, token', rest, s', rfl, ?_, herror⟩
        exact advance_cons_eq_ok_iff.mpr ⟨middle, hstep, hfront⟩
      · exact .inr ⟨s', advance_cons_eq_ok_iff.mpr ⟨middle, hstep, hrest⟩, herror⟩

theorem check_of_advance_of_error {front rest : List Token}
    (hfront : s.advance manner limit front = .ok s')
    (hstep : s'.step manner limit token = .error error) :
    s.check manner limit stop (front ++ token :: rest) = .error error := by
  rw [check_append_of_ok hfront, check_cons_of_error hstep]

theorem exists_operator_of_advance {op : Operator}
    (htokens : ∀ t ∈ tokens, t.lexeme ≠ .endOfInput)
    (h : State.start.advance manner limit tokens = .ok s) (hplace : s.place = .behind op) :
    ∃ front token, tokens = front ++ [token] ∧ token.lexeme.operator? = some op := by
  have hspells := spells_symbolsOf htokens
  obtain ⟨place, opened⟩ := s
  cases hplace
  obtain ⟨before, attached, hsymbols, -⟩ :=
    (stands_of_advance .start hspells h).exists_operator
  rw [List.nil_append] at hsymbols
  rw [hsymbols] at hspells
  obtain ⟨front, _, -, hlast, rfl⟩ := Spells.append_iff.mp hspells
  obtain ⟨token, _, hop, hnil, rfl⟩ := Spells.cons_iff.mp hlast
  cases Spells.nil_iff.mp hnil
  exact ⟨front, token, rfl, Lexeme.symbol?_eq_operator_iff.mp hop⟩

theorem not_chainsAt_of_advance {ss : List Symbol} (htokens : Spells tokens ss)
    (h : s.advance .byPrecedence limit tokens = .ok s') (k : Nat) : ¬ ChainsAt ss k := by
  intro hchain
  obtain ⟨pre, operand, rest, hoperand, rfl⟩ := hchain.exists_append
  obtain ⟨front, _, hfront, hchain, rfl⟩ := Spells.append_iff.mp htokens
  obtain ⟨token, back, hop, -, rfl⟩ := Spells.cons_iff.mp hchain
  obtain ⟨⟨place, opened⟩, hadvance, h⟩ := advance_append_eq_ok_iff.mp h
  obtain ⟨behind, hstep, -⟩ := advance_cons_eq_ok_iff.mp h
  cases after_of_advance hoperand hfront hadvance
  rw [step_operator (Lexeme.symbol?_eq_operator_iff.mp hop)] at hstep
  cases hstep

/-! ## Completions -/

/-- As many parentheses as groups are open bring a text to its end. -/
theorem check_closing (opened : List Opened) (attached : Bool) (offset : Nat) :
    State.check manner limit stop ⟨.after attached, opened⟩
      (Cursor.tokens ⟨List.replicate opened.length ')', offset⟩) = .ok () := by
  induction opened generalizing attached offset with
  | nil =>
    rw [List.length_nil, List.replicate_zero, Cursor.tokens_of_blank (List.forall_mem_nil _)]
    rfl
  | cons group opened ih =>
    have htokens : Cursor.tokens ⟨List.replicate (opened.length + 1) ')', offset⟩ =
        ⟨.rightParen, offset⟩ :: Cursor.tokens ⟨List.replicate opened.length ')', offset + 1⟩ :=
      @Cursor.tokens_of_written [] [')'] _ _ (List.forall_mem_nil _) .rightParen trivial offset
    rw [List.length_cons, htokens, check_cons_of_ok (step_rightParen rfl)]
    exact ih group.attached (offset + 1)

/-- Where an operand comes next, a name and the parentheses that are missing do. -/
theorem check_completion {place : Place} (hplace : place.Awaits) (opened : List Opened)
    (offset : Nat) :
    State.check manner limit stop ⟨place, opened⟩
      (Cursor.tokens ⟨'X' :: List.replicate opened.length ')', offset⟩) = .ok () := by
  have hword : ∀ ch ∈ ['X'], isWordChar ch = true := List.forall_mem_singleton.mpr (by decide)
  have hend : Lexeme.EndsBefore (.word (String.ofList ['X']))
      (List.replicate opened.length ')') := by
    intro ch hch
    rw [List.mem_replicate.mp (List.mem_of_mem_head? hch) |>.2]
    decide
  have htokens : Cursor.tokens ⟨'X' :: List.replicate opened.length ')', offset⟩ =
      ⟨.word (String.ofList ['X']), offset⟩ ::
        Cursor.tokens ⟨List.replicate opened.length ')', offset + 1⟩ :=
    @Cursor.tokens_of_written [] ['X'] _ _ (List.forall_mem_nil _)
      (.word (List.cons_ne_nil _ _) hword) hend offset
  rw [htokens, check_cons_of_ok (step_name_of_awaits hplace rfl (by decide))]
  exact check_closing opened place.attaches (offset + 1)

theorem exists_check_eq_ok (manner : Manner) (limit : Nat) (s : State) :
    ∃ cont, ∀ offset stop, s.check manner limit stop (Cursor.tokens ⟨cont, offset⟩) = .ok () := by
  obtain ⟨place, opened⟩ := s
  cases place with
  | opening | behind op =>
    refine ⟨'X' :: List.replicate opened.length ')', fun offset stop => ?_⟩
    apply check_completion
    trivial
  | after attached => exact ⟨_, fun offset stop => check_closing opened attached offset⟩

/-- What a scan has got through can be gone on with, behind a space, to a good end. -/
theorem exists_completion {text : String} {front rest : List Token}
    (hsplit : (Cursor.ofText text).tokens = front ++ rest)
    (h : State.start.advance manner limit front = .ok s) :
    ∃ before behind more : String, text = before ++ behind ∧
      (tokenize text)[front.length]?.map Token.start = some (Text.byteLength before.toList) ∧
      front <+: (Cursor.ofText (before ++ " " ++ more)).tokens ∧
      verdict manner limit (before ++ " " ++ more) = .ok () := by
  have hlength : front.length ≤ (Cursor.ofText text).tokens.length := by
    rw [hsplit, List.length_append]
    omega
  obtain ⟨pre, post, hpost, hstart, htokens⟩ := (Cursor.ofText text).exists_tokens_append _ hlength
  rw [hsplit, List.take_left] at htokens
  obtain ⟨cont, hcont⟩ := exists_check_eq_ok manner limit s
  have hcursor : Cursor.ofText (String.ofList pre ++ " " ++ String.ofList cont) =
      ⟨pre ++ ' ' :: cont, (Cursor.ofText text).offset⟩ := by
    simp [Cursor.ofText]
  refine ⟨.ofList pre, .ofList post, .ofList cont, ?_, ?_, ?_, ?_⟩
  · have hpost : text.toList = pre ++ post := hpost
    rw [← String.ofList_append, ← hpost, String.ofList_toList]
  · rw [tokenize, hstart, String.toList_ofList, Cursor.ofText, Nat.zero_add]
  · rw [hcursor, htokens]
    exact List.prefix_append _ _
  · rw [verdict, hcursor, htokens, check_append_of_ok h]
    exact hcont _ _

end Scan

end LicenseExpr
