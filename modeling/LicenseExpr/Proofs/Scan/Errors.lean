import LicenseExpr.Proofs.Scan.Chains

/-!
# What ends a scan

`Ends` lists the errors that a token can end a scan with and `Lacks` those that the end of the text
can, each with the state it is found in. An error that names a group names the token that opened it:
`Leaves` finds the tokens of the open groups among those that have been read.
-/

namespace LicenseExpr.Scan

variable {manner : Manner} {limit stop : Nat} {s s' : State} {token : Token} {tokens : List Token}
  {error : SyntaxError}

/-! ## Errors -/

/-- An error that a token ends a scan with. -/
inductive Ends (limit : Nat) (s : State) (token : Token) : SyntaxError → Prop where
  | unexpectedToken : Ends limit s token (.unexpectedToken token.start token.lexeme)
  | missingOperand (op : Operator) : Ends limit s token (.missingOperand token.start op)
  | nestingTooDeep : token.lexeme = .leftParen →
      Ends limit s token (.nestingTooDeep token.start limit)
  | unmatchedParenthesis : token.lexeme = .rightParen →
      Ends limit s token (.unmatchedParenthesis token.start)
  | emptyGroup {group : Opened} {opened : List Opened} : token.lexeme = .rightParen →
      s.place = .opening → s.opened = group :: opened → Ends limit s token (.emptyGroup group.start)

theorem ends_of_step_error (h : s.step manner limit token = .error error) :
    Ends limit s token error := by
  obtain ⟨place, opened⟩ := s
  cases hlexeme : token.lexeme with
  | word text =>
    rcases hop : Operator.ofWord? text with _ | op
    · rw [step_name hlexeme hop] at h
      cases place with
      | opening | behind op => cases h
      | after attached => cases h; exact .unexpectedToken
    · have hop : token.lexeme.operator? = some op := by rw [hlexeme]; exact hop
      rw [step_operator hop, State.join] at h
      repeat' split at h
      all_goals cases h
      · exact .missingOperand op
      · exact .missingOperand op
      · exact .missingOperand _
      · exact .unexpectedToken
  | leftParen =>
    rw [step_leftParen hlexeme, State.openGroup] at h
    repeat' split at h
    all_goals cases h
    · exact .unexpectedToken
    · exact .nestingTooDeep hlexeme
    · exact .nestingTooDeep hlexeme
  | rightParen =>
    rw [step_rightParen hlexeme] at h
    rcases place with _ | op | attached <;> rcases opened with _ | ⟨group, opened⟩ <;> cases h
    · exact .unmatchedParenthesis hlexeme
    · exact .emptyGroup hlexeme rfl rfl
    · exact .missingOperand op
    · exact .missingOperand op
    · exact .unmatchedParenthesis hlexeme
  | endOfInput =>
    rw [State.step, hlexeme] at h
    cases h

/-- An error that the end of a text ends a scan with. -/
inductive Lacks (stop : Nat) (s : State) : SyntaxError → Prop where
  | operand (op : Operator) : Lacks stop s (.missingOperand stop op)
  | partner {group : Opened} {opened : List Opened} : s.opened = group :: opened →
      Lacks stop s (.unmatchedParenthesis group.start)
  | expression : s.place = .opening → s.opened = [] → Lacks stop s (.emptyExpression stop)

theorem lacks_of_finish_error (h : s.finish stop = .error error) : Lacks stop s error := by
  obtain ⟨_ | op | attached, _ | ⟨group, opened⟩⟩ := s <;> cases h
  · exact .expression rfl rfl
  · exact .partner rfl
  · exact .operand op
  · exact .operand op
  · exact .partner rfl

/-! ## The tokens of open groups -/

/-- The tokens that have been read leave these groups open, the innermost first. -/
inductive Leaves : List Token → List Opened → Prop where
  | nil {tokens : List Token} : Matched (symbolsOf tokens) → Leaves tokens []
  | cons {front back : List Token} {opened : List Opened} (start : Nat) (attached : Bool) :
      Leaves front opened → Matched (symbolsOf back) →
      Leaves (front ++ ⟨.leftParen, start⟩ :: back) (⟨start, attached⟩ :: opened)

theorem Leaves.append {opened : List Opened} (h : Leaves tokens opened) {more : List Token}
    (hmore : Matched (symbolsOf more)) : Leaves (tokens ++ more) opened := by
  cases h with
  | nil htokens =>
    refine .nil ?_
    rw [symbolsOf_append]
    exact htokens.append hmore
  | cons start attached hfront hback =>
    rw [List.append_assoc, List.cons_append]
    refine .cons start attached hfront ?_
    rw [symbolsOf_append]
    exact hback.append hmore

theorem leaves_of_step (hs : Leaves tokens s.opened) (htoken : token.lexeme ≠ .endOfInput)
    (h : s.step manner limit token = .ok s') : Leaves (tokens ++ [token]) s'.opened := by
  rcases hx : token.lexeme.symbol? with _ | x
  · exact absurd (Lexeme.symbol?_eq_none_iff.mp hx) htoken
  have hsymbols : symbolsOf [token] = [x] := symbolsOf_cons_of_eq hx []
  by_cases hleft : x = .leftParen
  · subst hleft
    have hparen := Lexeme.symbol?_eq_leftParen_iff.mp hx
    obtain ⟨-, rfl⟩ := exists_of_openGroup hparen h
    obtain ⟨lexeme, start⟩ := token
    cases hparen
    exact .cons start _ hs .nil
  by_cases hright : x = .rightParen
  · subst hright
    obtain ⟨attached, group, rfl, -⟩ :=
      exists_of_closeGroup (Lexeme.symbol?_eq_rightParen_iff.mp hx) h
    generalize hopened : group :: s'.opened = opened at hs
    cases hs with
    | nil => cases hopened
    | @cons front back opened start attached' hfront hback =>
      cases hopened
      have hgroup : Matched (symbolsOf (⟨.leftParen, start⟩ :: (back ++ [token]))) := by
        rw [symbolsOf_cons_of_eq rfl, symbolsOf_append, hsymbols]
        exact .group hback
      rw [List.append_assoc, List.cons_append]
      exact hfront.append hgroup
  · rw [opened_of_step hx hleft hright h]
    refine hs.append ?_
    rw [hsymbols]
    exact .symbol hleft hright

theorem leaves_of_advance {front : List Token} (hs : Leaves front s.opened)
    (htokens : ∀ t ∈ tokens, t.lexeme ≠ .endOfInput)
    (h : s.advance manner limit tokens = .ok s') : Leaves (front ++ tokens) s'.opened := by
  induction tokens generalizing front s with
  | nil =>
    cases h
    rwa [List.append_nil]
  | cons token rest ih =>
    obtain ⟨htoken, hrest⟩ := List.forall_mem_cons.mp htokens
    obtain ⟨middle, hstep, h⟩ := advance_cons_eq_ok_iff.mp h
    have hleaves := ih (leaves_of_step hs htoken hstep) hrest h
    rwa [List.append_assoc] at hleaves

theorem exists_opening_of_advance {group : Opened} {opened : List Opened}
    (htokens : ∀ t ∈ tokens, t.lexeme ≠ .endOfInput)
    (h : State.start.advance manner limit tokens = .ok s) (hopened : s.opened = group :: opened) :
    ∃ front back, tokens = front ++ ⟨.leftParen, group.start⟩ :: back ∧
      Matched (symbolsOf back) := by
  have hstart : Leaves [] State.start.opened := .nil .nil
  have hleaves : Leaves ([] ++ tokens) s.opened := leaves_of_advance hstart htokens h
  rw [hopened, List.nil_append] at hleaves
  cases hleaves with
  | cons start attached hfront hback => exact ⟨_, _, rfl, hback⟩

/-- Only a `(` opens a scope. -/
theorem leftParen_of_step (htoken : token.lexeme ≠ .endOfInput)
    (h : s.step manner limit token = .ok s') (hplace : s'.place = .opening) :
    token.lexeme = .leftParen := by
  rcases hx : token.lexeme.symbol? with _ | _ | op | _ | _
  · exact absurd (Lexeme.symbol?_eq_none_iff.mp hx) htoken
  · obtain ⟨hword, htext⟩ := Lexeme.symbol?_eq_name_iff.mp hx
    rw [step_name hword htext, State.name] at h
    split at h <;> cases h <;> cases hplace
  · cases hplace.symm.trans (place_of_step_operator (Lexeme.symbol?_eq_operator_iff.mp hx) h)
  · exact Lexeme.symbol?_eq_leftParen_iff.mp hx
  · obtain ⟨attached, group, -, hafter⟩ :=
      exists_of_closeGroup (Lexeme.symbol?_eq_rightParen_iff.mp hx) h
    cases hplace.symm.trans hafter

theorem opening_of_advance (htokens : ∀ t ∈ tokens, t.lexeme ≠ .endOfInput)
    (h : State.start.advance manner limit tokens = .ok s) (hplace : s.place = .opening) :
    (tokens = [] ∧ s.opened = []) ∨
      ∃ front group opened, tokens = front ++ [⟨.leftParen, group.start⟩] ∧
        s.opened = group :: opened := by
  rcases List.eq_nil_or_concat tokens with rfl | ⟨front, ⟨lexeme, start⟩, rfl⟩
  · cases h
    exact .inl ⟨rfl, rfl⟩
  · rw [List.concat_eq_append] at *
    obtain ⟨before, -, hlast⟩ := advance_append_eq_ok_iff.mp h
    obtain ⟨_, hstep, hdone⟩ := advance_cons_eq_ok_iff.mp hlast
    cases hdone
    have hparen := leftParen_of_step (htokens _ (by simp)) hstep hplace
    obtain ⟨-, rfl⟩ := exists_of_openGroup hparen hstep
    cases hparen
    exact .inr ⟨front, _, _, rfl, rfl⟩

end LicenseExpr.Scan
