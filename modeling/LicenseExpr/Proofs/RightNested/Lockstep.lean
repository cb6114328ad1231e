import LicenseExpr.Proofs.Except
import LicenseExpr.Proofs.RightNested.Turns

/-!
# Two runs in lock step

Two runs of the machine go in lock step if every move of the one is answered by a move of the
other. An `Accord` says how what they come to is to compare: which repairs, errors and operands go
together. Related moves then make related runs (`Lockstep.run`), whatever repairs they take and
whether or not repairs are allowed.
-/

namespace LicenseExpr.RightNested

theorem Turn.step_eq {limit stop : Nat} {s : State} {move : Move} (h : Turn limit stop s move) :
    s.step limit stop = move := by
  cases h with
  | @operator token op rest held frames openGroups hop =>
    obtain ⟨text, hword, htext⟩ := Lexeme.operator?_eq_some_iff.mp hop
    obtain ⟨lexeme, start⟩ := token
    cases hword
    cases held <;> simp [State.step, htext, missingLeft]
  | @name token text rest held frames openGroups hword htext =>
    obtain ⟨lexeme, start⟩ := token
    cases hword
    simp [State.step, htext]
  | @openGroup token rest held frames openGroups hparen hroom =>
    obtain ⟨lexeme, start⟩ := token
    cases hparen
    simp [State.step, Nat.not_le.mpr hroom]
  | @tooDeep token rest held frames openGroups hparen hfull =>
    obtain ⟨lexeme, start⟩ := token
    cases hparen
    simp [State.step, hfull]
  | @closeGroup tokens held start outer frames openGroups hend =>
    rcases tokens with _ | ⟨⟨lexeme, byte⟩, rest⟩
    · rfl
    · cases hend
      rfl
  | @closeOperand tokens held op start left frames openGroups hend =>
    rcases tokens with _ | ⟨⟨lexeme, byte⟩, rest⟩
    · rfl
    · cases hend
      rfl
  | @unmatched token rest held openGroups hparen =>
    obtain ⟨lexeme, start⟩ := token
    cases hparen
    rfl
  | finish held openGroups => rfl

/-- How two runs are to compare in the repairs they make, the errors they end with and the operands
they hold. -/
structure Accord (strictness : Strictness) where
  Repairs : List Repair → List Repair → Prop
  Errors : SyntaxError → SyntaxError → Prop
  Held : Option Expression → Option Expression → Prop
  nil : Repairs [] []
  append : ∀ {rs rs' more more' : List Repair}, Repairs rs rs' → Repairs more more' →
    Repairs (rs ++ more) (rs' ++ more')
  refusal : ∀ {rs rs' : List Repair}, Repairs rs rs' →
    Option.Rel Errors (strictness.refusal? rs) (strictness.refusal? rs')

namespace Accord

variable {strictness : Strictness} (accord : Accord strictness)

structure Outcomes (outcome outcome' : Outcome) : Prop where
  repairs : accord.Repairs outcome.repairs outcome'.repairs
  result : EndsAlike accord.Errors accord.Held outcome.result outcome'.result

inductive Nexts (Q : State → State → Prop) : Next → Next → Prop where
  | resume {s s' : State} : Q s s' → Nexts Q (.resume s) (.resume s')
  | finish {held held' : Option Expression} : accord.Held held held' →
      Nexts Q (.finish held) (.finish held')
  | fail {error error' : SyntaxError} : accord.Errors error error' →
      Nexts Q (.fail error) (.fail error')

def same (strictness : Strictness) : Accord strictness where
  Repairs := Eq
  Errors := Eq
  Held := Eq
  nil := rfl
  append := by rintro rs _ more _ rfl rfl; rfl
  refusal := by
    rintro rs _ rfl
    cases strictness.refusal? rs with
    | none => exact .none
    | some error => exact .some rfl

theorem same_outcomes_iff {outcome outcome' : Outcome} :
    (same strictness).Outcomes outcome outcome' ↔ outcome = outcome' := by
  obtain ⟨repairs, result⟩ := outcome
  obtain ⟨repairs', result'⟩ := outcome'
  rw [Outcome.mk.injEq]
  constructor
  · rintro ⟨hrepairs, hresult⟩
    exact ⟨hrepairs, endsAlike_eq_iff.mp hresult⟩
  · rintro ⟨hrepairs, hresult⟩
    exact ⟨hrepairs, endsAlike_eq_iff.mpr hresult⟩

end Accord

/-- Every move from a state is answered by a move from each state related to it. -/
structure Lockstep {strictness : Strictness} (accord : Accord strictness) (limit stop stop' : Nat)
    (Q : State → State → Prop) : Prop where
  answer : ∀ {s s' : State} {move : Move}, Q s s' → Turn limit stop s move →
    ∃ move', Turn limit stop' s' move' ∧ accord.Repairs move.repairs move'.repairs ∧
      accord.Nexts Q move.next move'.next

/-- From related states both runs come to the same, as far as the accord goes. -/
theorem Lockstep.run {strictness : Strictness} {accord : Accord strictness} {limit stop stop' : Nat}
    {Q : State → State → Prop} (h : Lockstep accord limit stop stop' Q) {s s' : State}
    (hs : Q s s') (htokens : ∀ t ∈ s.tokens, t.lexeme ≠ .endOfInput) :
    accord.Outcomes (run strictness limit stop [] s) (run strictness limit stop' [] s') := by
  obtain ⟨move', hturn', hrepairs, hnexts⟩ :=
    h.answer hs (turn_step limit stop htokens)
  obtain rfl := hturn'.step_eq
  have hrefusal := accord.refusal hrepairs
  rcases hrefuse : strictness.refusal? (s.step limit stop).repairs with _ | error <;>
    rcases hrefuse' : strictness.refusal? (s'.step limit stop').repairs with _ | error' <;>
    rw [hrefuse, hrefuse'] at hrefusal <;> cases hrefusal
  · generalize hnext : (s.step limit stop).next = next at hnexts
    generalize hnext' : (s'.step limit stop').next = next' at hnexts
    cases hnexts with
    | resume hs =>
      have hsuffix := (turn_of_next htokens hnext).tokens_suffix
      obtain ⟨hmade, hresult⟩ := h.run hs fun t ht => htokens t (hsuffix.mem ht)
      rw [run_eq_of_resume hrefuse hnext, run_eq_of_resume hrefuse' hnext']
      exact ⟨accord.append hrepairs hmade, hresult⟩
    | finish hheld =>
      rw [run_of_finish hrefuse hnext, run_of_finish hrefuse' hnext']
      exact ⟨hrepairs, .ok hheld⟩
    | fail herror =>
      rw [run_of_fail hrefuse hnext, run_of_fail hrefuse' hnext']
      exact ⟨hrepairs, .error herror⟩
  · rw [run_of_refusal hrefuse, run_of_refusal hrefuse']
    exact ⟨accord.nil, .error ‹_›⟩
termination_by s.weight
decreasing_by exact State.weight_lt_of_step hnext

end LicenseExpr.RightNested
