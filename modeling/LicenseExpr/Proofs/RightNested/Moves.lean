import LicenseExpr.Proofs.Spelling
import LicenseExpr.RightNested

/-!
# Moves of right-nested reading

A move that takes no repair is `Quiet`; a move whose first repair stands for an error is
`Refused` with that error. Where every open scope is `Whole`, each move is one or the other
(`quiet_or_refused`): strict reading makes the quiet moves and stops at the first refused one.
-/

namespace LicenseExpr.RightNested

/-- The scope of a right operand ends here. -/
def AtTerminator : List Token → Prop
  | [] => True
  | token :: _ => token.lexeme = .rightParen

theorem atTerminator_nil : AtTerminator [] := trivial

theorem atTerminator_cons {token : Token} (h : token.lexeme = .rightParen) (rest : List Token) :
    AtTerminator (token :: rest) := h

def terminator (stop : Nat) (tokens : List Token) : Token := tokens.headD ⟨.endOfInput, stop⟩

inductive Quiet (limit : Nat) : State → Next → Prop where
  | operator {token : Token} {op : Operator} (rest : List Token) (left : Expression)
      (frames : List Frame) (openGroups : Nat) : token.lexeme.operator? = some op →
      Quiet limit ⟨token :: rest, some left, frames, openGroups⟩
        (.resume ⟨rest, none, .operand op token.start (some left) :: frames, openGroups⟩)
  | name {token : Token} {text : String} (rest : List Token) (frames : List Frame)
      (openGroups : Nat) : token.lexeme = .word text → Operator.ofWord? text = none →
      Quiet limit ⟨token :: rest, none, frames, openGroups⟩
        (.resume ⟨rest, some (.identifier text), frames, openGroups⟩)
  | openGroup {token : Token} {openGroups : Nat} (rest : List Token) (frames : List Frame) :
      token.lexeme = .leftParen → openGroups < limit →
      Quiet limit ⟨token :: rest, none, frames, openGroups⟩
        (.resume ⟨rest, none, .group token.start none :: frames, openGroups + 1⟩)
  | tooDeep {token : Token} {openGroups : Nat} (rest : List Token) (frames : List Frame) :
      token.lexeme = .leftParen → limit ≤ openGroups →
      Quiet limit ⟨token :: rest, none, frames, openGroups⟩ (.fail (.nestingTooDeep token.start limit))
  | closeGroup {token : Token} (rest : List Token) (inner : Expression) (start : Nat)
      (outer : Option Expression) (frames : List Frame) (openGroups : Nat) :
      token.lexeme = .rightParen →
      Quiet limit ⟨token :: rest, some inner, .group start outer :: frames, openGroups⟩
        (.resume ⟨rest, some (.group inner), frames, openGroups - 1⟩)
  | closeOperand {tokens : List Token} (inner : Expression) (op : Operator) (start : Nat)
      (left : Expression) (frames : List Frame) (openGroups : Nat) : AtTerminator tokens →
      Quiet limit ⟨tokens, some inner, .operand op start (some left) :: frames, openGroups⟩
        (.resume ⟨tokens, some (.binary op left inner), frames, openGroups⟩)
  | finish (held : Option Expression) (openGroups : Nat) :
      Quiet limit ⟨[], held, [], openGroups⟩ (.finish held)

inductive Refused (stop : Nat) : State → SyntaxError → Prop where
  | operator {token : Token} {op : Operator} (rest : List Token) (frames : List Frame)
      (openGroups : Nat) : token.lexeme.operator? = some op →
      Refused stop ⟨token :: rest, none, frames, openGroups⟩ (.missingOperand token.start op)
  | second {token : Token} (rest : List Token) (e : Expression) (frames : List Frame)
      (openGroups : Nat) : token.lexeme.OpensOperand →
      Refused stop ⟨token :: rest, some e, frames, openGroups⟩
        (.unexpectedToken token.start token.lexeme)
  | unmatched {token : Token} (rest : List Token) (held : Option Expression) (openGroups : Nat) :
      token.lexeme = .rightParen →
      Refused stop ⟨token :: rest, held, [], openGroups⟩ (.unmatchedParenthesis token.start)
  | emptyGroup {token : Token} (rest : List Token) (start : Nat) (outer : Option Expression)
      (frames : List Frame) (openGroups : Nat) : token.lexeme = .rightParen →
      Refused stop ⟨token :: rest, none, .group start outer :: frames, openGroups⟩
        (.emptyGroup start)
  | unclosed (held : Option Expression) (start : Nat) (outer : Option Expression)
      (frames : List Frame) (openGroups : Nat) :
      Refused stop ⟨[], held, .group start outer :: frames, openGroups⟩ (.unmatchedParenthesis start)
  | lacking {tokens : List Token} (op : Operator) (start : Nat) (left : Option Expression)
      (frames : List Frame) (openGroups : Nat) : AtTerminator tokens →
      Refused stop ⟨tokens, none, .operand op start left :: frames, openGroups⟩
        (.missingOperand (terminator stop tokens).start op)

/-- The scope holds what came before it: a left operand, and nothing before a group. -/
def Frame.Whole : Frame → Prop
  | group _ outer => outer = none
  | operand _ _ left => left.isSome

/-! ## Single moves -/

theorem step_of_quiet {limit : Nat} {s : State} {next : Next} (h : Quiet limit s next)
    (stop : Nat) : s.step limit stop = ⟨[], next⟩ := by
  cases h with
  | @operator token op rest left frames openGroups htoken =>
    obtain ⟨text, hword, htext⟩ := Lexeme.operator?_eq_some_iff.mp htoken
    obtain ⟨lexeme, start⟩ := token
    cases hword
    simp [State.step, htext]
  | @name token text rest frames openGroups hword htext =>
    obtain ⟨lexeme, start⟩ := token
    cases hword
    simp [State.step, htext, overwrite]
  | @openGroup token openGroups rest frames hparen hroom =>
    obtain ⟨lexeme, start⟩ := token
    cases hparen
    simp [State.step, overwrite, Nat.not_le.mpr hroom]
  | @tooDeep token openGroups rest frames hparen hfull =>
    obtain ⟨lexeme, start⟩ := token
    cases hparen
    simp [State.step, overwrite, hfull]
  | @closeGroup token rest inner start outer frames openGroups hparen =>
    obtain ⟨lexeme, start⟩ := token
    cases hparen
    simp [State.step, State.closing, Frame.close]
  | @closeOperand tokens inner op start left frames openGroups hend =>
    rcases tokens with _ | ⟨⟨lexeme, start⟩, rest⟩
    · rfl
    · cases hend
      rfl
  | finish held openGroups => rfl

theorem repairs_of_refused {stop : Nat} {s : State} {error : SyntaxError}
    (h : Refused stop s error) (limit : Nat) :
    ∃ recovery more, (s.step limit stop).repairs = .recovered error recovery :: more := by
  cases h with
  | @operator token op rest frames openGroups htoken =>
    obtain ⟨text, hword, htext⟩ := Lexeme.operator?_eq_some_iff.mp htoken
    obtain ⟨lexeme, start⟩ := token
    cases hword
    exact ⟨.useRight, [], by simp [State.step, htext]⟩
  | @second token rest e frames openGroups hopens =>
    obtain ⟨lexeme, start⟩ := token
    cases lexeme with
    | word text =>
      have htext : Operator.ofWord? text = none := hopens
      exact ⟨.discardEarlier, [], by simp [State.step, htext, overwrite]⟩
    | leftParen => exact ⟨.discardEarlier, [], rfl⟩
    | rightParen | endOfInput => exact hopens.elim
  | @unmatched token rest held openGroups hparen =>
    obtain ⟨lexeme, start⟩ := token
    cases hparen
    exact ⟨.ignoreRest, [], rfl⟩
  | @emptyGroup token rest start outer frames openGroups hparen =>
    obtain ⟨lexeme, start⟩ := token
    cases hparen
    exact ⟨.dropGroup, [], rfl⟩
  | unclosed held start outer frames openGroups =>
    cases held with
    | none => exact ⟨.closeGroup, _, rfl⟩
    | some e => exact ⟨.closeGroup, [], rfl⟩
  | @lacking tokens op start left frames openGroups hend =>
    rcases tokens with _ | ⟨⟨lexeme, start⟩, rest⟩
    · cases left <;> exact ⟨.keepLeft, [], rfl⟩
    · cases hend
      cases left <;> exact ⟨.keepLeft, [], rfl⟩

theorem quiet_or_refused (limit stop : Nat) {s : State}
    (htokens : ∀ t ∈ s.tokens, t.lexeme ≠ .endOfInput) (hframes : ∀ f ∈ s.frames, f.Whole) :
    (∃ next, Quiet limit s next) ∨ ∃ error, Refused stop s error := by
  obtain ⟨tokens, held, frames, openGroups⟩ := s
  rcases tokens with _ | ⟨token, rest⟩
  · rcases frames with _ | ⟨_ | ⟨op, start, _ | left⟩, frames⟩
    · exact .inl ⟨_, .finish held openGroups⟩
    · exact .inr ⟨_, .unclosed held _ _ frames openGroups⟩
    · cases hframes _ List.mem_cons_self
    · cases held with
      | none => exact .inr ⟨_, .lacking op start _ frames openGroups trivial⟩
      | some inner => exact .inl ⟨_, .closeOperand inner op start left frames openGroups trivial⟩
  · rcases hop : token.lexeme.operator? with _ | op
    · cases hlexeme : token.lexeme with
      | word text =>
        have htext : Operator.ofWord? text = none := by simpa [hlexeme, Lexeme.operator?] using hop
        cases held with
        | none => exact .inl ⟨_, .name rest frames openGroups hlexeme htext⟩
        | some e => exact .inr ⟨_, .second rest e frames openGroups (hlexeme ▸ htext)⟩
      | leftParen =>
        cases held with
        | none =>
          rcases Nat.lt_or_ge openGroups limit with hroom | hfull
          · exact .inl ⟨_, .openGroup rest frames hlexeme hroom⟩
          · exact .inl ⟨_, .tooDeep rest frames hlexeme hfull⟩
        | some e => exact .inr ⟨_, .second rest e frames openGroups (hlexeme ▸ trivial)⟩
      | rightParen =>
        rcases frames with _ | ⟨⟨start, outer⟩ | ⟨op, start, _ | left⟩, frames⟩
        · exact .inr ⟨_, .unmatched rest held openGroups hlexeme⟩
        · cases held with
          | none => exact .inr ⟨_, .emptyGroup rest start outer frames openGroups hlexeme⟩
          | some inner => exact .inl ⟨_, .closeGroup rest inner start outer frames openGroups hlexeme⟩
        · cases hframes _ List.mem_cons_self
        · cases held with
          | none => exact .inr ⟨_, .lacking op start _ frames openGroups hlexeme⟩
          | some inner =>
            exact .inl ⟨_, .closeOperand inner op start left frames openGroups hlexeme⟩
      | endOfInput => exact absurd hlexeme (htokens token List.mem_cons_self)
    · cases held with
      | none => exact .inr ⟨_, .operator rest frames openGroups hop⟩
      | some left => exact .inl ⟨_, .operator rest left frames openGroups hop⟩

theorem whole_of_quiet {limit : Nat} {s s' : State} (h : Quiet limit s (.resume s'))
    (hframes : ∀ f ∈ s.frames, f.Whole) : ∀ f ∈ s'.frames, f.Whole := by
  cases h with
  | operator => exact List.forall_mem_cons.mpr ⟨rfl, hframes⟩
  | openGroup => exact List.forall_mem_cons.mpr ⟨rfl, hframes⟩
  | name => exact hframes
  | closeGroup => exact (List.forall_mem_cons.mp hframes).2
  | closeOperand => exact (List.forall_mem_cons.mp hframes).2

theorem tokens_of_quiet {limit : Nat} {s s' : State} (h : Quiet limit s (.resume s')) :
    ∀ t ∈ s'.tokens, t ∈ s.tokens := by
  cases h with
  | operator | openGroup | name | closeGroup => exact fun t => List.mem_cons_of_mem _
  | closeOperand => exact fun t ht => ht

/-! ## Runs -/

section Run

variable {limit stop : Nat} {s s' : State} {made : List Repair}

theorem run_of_quiet (strictness : Strictness) (h : Quiet limit s (.resume s')) :
    run strictness limit stop made s = run strictness limit stop made s' := by
  have hstep := step_of_quiet h stop
  rw [run_of_resume (by rw [hstep]; simp) (by rw [hstep]), hstep]
  rfl

theorem run_of_quiet_finish (strictness : Strictness) {result : Option Expression}
    (h : Quiet limit s (.finish result)) :
    run strictness limit stop made s = ⟨made.reverse, .ok result⟩ := by
  have hstep := step_of_quiet h stop
  rw [run_of_finish (by rw [hstep]; simp) (by rw [hstep]), hstep, List.append_nil]

theorem run_of_quiet_fail (strictness : Strictness) {error : SyntaxError}
    (h : Quiet limit s (.fail error)) :
    run strictness limit stop made s = ⟨made.reverse, .error error⟩ := by
  have hstep := step_of_quiet h stop
  rw [run_of_fail (by rw [hstep]; simp) (by rw [hstep]), hstep, List.append_nil]

theorem run_strict_of_refused {error : SyntaxError} (h : Refused stop s error) :
    run .strict limit stop made s = ⟨made.reverse, .error error⟩ := by
  obtain ⟨recovery, more, hrepairs⟩ := repairs_of_refused h limit
  exact run_of_refusal (by rw [hrepairs]; rfl)

end Run

theorem weight_lt_of_quiet {limit : Nat} {s s' : State} (h : Quiet limit s (.resume s')) :
    s'.weight < s.weight :=
  State.weight_lt_of_step (by rw [step_of_quiet h 0])

/-- Quiet moves lead from one state to the other. -/
inductive Reaches (limit : Nat) : State → State → Prop where
  | refl (s : State) : Reaches limit s s
  | step {s s' s'' : State} : Quiet limit s (.resume s') → Reaches limit s' s'' →
      Reaches limit s s''

theorem Reaches.trans {limit : Nat} {s s' s'' : State} (h : Reaches limit s s')
    (h' : Reaches limit s' s'') : Reaches limit s s'' := by
  induction h with
  | refl => exact h'
  | step hquiet _ ih => exact .step hquiet (ih h')

theorem run_of_reaches {limit : Nat} {s s' : State} (h : Reaches limit s s')
    (strictness : Strictness) (stop : Nat) (made : List Repair) :
    run strictness limit stop made s = run strictness limit stop made s' := by
  induction h with
  | refl => rfl
  | step hquiet _ ih => rw [run_of_quiet strictness hquiet, ih]

end LicenseExpr.RightNested
