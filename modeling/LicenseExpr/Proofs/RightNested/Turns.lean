import LicenseExpr.Proofs.RightNested.Moves

/-!
# All moves of right-nested reading

`Turn` lists what a move can be, with the repairs that it takes (`turn_step`). What a run keeps is
then shown once for each kind of move.
-/

namespace LicenseExpr.RightNested

def missingLeft (held : Option Expression) (op : Operator) (start : Nat) : List Repair :=
  match held with
  | none => [.recovered (.missingOperand start op) .useRight]
  | some _ => []

inductive Turn (limit stop : Nat) : State → Move → Prop where
  | operator {token : Token} {op : Operator} (rest : List Token) (held : Option Expression)
      (frames : List Frame) (openGroups : Nat) : token.lexeme.operator? = some op →
      Turn limit stop ⟨token :: rest, held, frames, openGroups⟩
        ⟨missingLeft held op token.start,
          .resume ⟨rest, none, .operand op token.start held :: frames, openGroups⟩⟩
  | name {token : Token} {text : String} (rest : List Token) (held : Option Expression)
      (frames : List Frame) (openGroups : Nat) : token.lexeme = .word text →
      Operator.ofWord? text = none →
      Turn limit stop ⟨token :: rest, held, frames, openGroups⟩
        ⟨overwrite held token, .resume ⟨rest, some (.identifier text), frames, openGroups⟩⟩
  | openGroup {token : Token} (rest : List Token) (held : Option Expression)
      (frames : List Frame) {openGroups : Nat} : token.lexeme = .leftParen → openGroups < limit →
      Turn limit stop ⟨token :: rest, held, frames, openGroups⟩
        ⟨overwrite held token,
          .resume ⟨rest, none, .group token.start held :: frames, openGroups + 1⟩⟩
  | tooDeep {token : Token} (rest : List Token) (held : Option Expression)
      (frames : List Frame) {openGroups : Nat} : token.lexeme = .leftParen → limit ≤ openGroups →
      Turn limit stop ⟨token :: rest, held, frames, openGroups⟩
        ⟨overwrite held token, .fail (.nestingTooDeep token.start limit)⟩
  /-- A `)` is used up, the end is not. -/
  | closeGroup {tokens : List Token} (held : Option Expression) (start : Nat)
      (outer : Option Expression) (frames : List Frame) (openGroups : Nat) : AtTerminator tokens →
      Turn limit stop ⟨tokens, held, .group start outer :: frames, openGroups⟩
        ⟨((Frame.group start outer).close (terminator stop tokens) held).1,
          .resume ⟨tokens.tail, ((Frame.group start outer).close (terminator stop tokens) held).2,
            frames, openGroups - 1⟩⟩
  | closeOperand {tokens : List Token} (held : Option Expression) (op : Operator) (start : Nat)
      (left : Option Expression) (frames : List Frame) (openGroups : Nat) : AtTerminator tokens →
      Turn limit stop ⟨tokens, held, .operand op start left :: frames, openGroups⟩
        ⟨((Frame.operand op start left).close (terminator stop tokens) held).1,
          .resume ⟨tokens, ((Frame.operand op start left).close (terminator stop tokens) held).2,
            frames, openGroups⟩⟩
  | unmatched {token : Token} (rest : List Token) (held : Option Expression) (openGroups : Nat) :
      token.lexeme = .rightParen →
      Turn limit stop ⟨token :: rest, held, [], openGroups⟩
        ⟨[.recovered (.unmatchedParenthesis token.start) .ignoreRest], .finish held⟩
  | finish (held : Option Expression) (openGroups : Nat) :
      Turn limit stop ⟨[], held, [], openGroups⟩ ⟨[], .finish held⟩

theorem turn_step (limit stop : Nat) {s : State} (h : ∀ t ∈ s.tokens, t.lexeme ≠ .endOfInput) :
    Turn limit stop s (s.step limit stop) := by
  obtain ⟨tokens, held, frames, openGroups⟩ := s
  rcases tokens with _ | ⟨⟨lexeme, start⟩, rest⟩
  · rcases frames with _ | ⟨⟨start, outer⟩ | ⟨op, start, left⟩, frames⟩
    · exact .finish held openGroups
    · exact .closeGroup held start outer frames openGroups trivial
    · exact .closeOperand held op start left frames openGroups trivial
  · cases lexeme with
    | word text =>
      rcases hop : Operator.ofWord? text with _ | op
      · have hturn := @Turn.name limit stop ⟨.word text, start⟩ text rest held frames openGroups rfl hop
        simpa [State.step, hop] using hturn
      · have hturn := @Turn.operator limit stop ⟨.word text, start⟩ op rest held frames openGroups hop
        cases held <;> simpa [State.step, hop, missingLeft] using hturn
    | leftParen =>
      rcases Nat.lt_or_ge openGroups limit with hroom | hfull
      · have hturn := @Turn.openGroup limit stop ⟨.leftParen, start⟩ rest held frames openGroups rfl hroom
        simpa [State.step, Nat.not_le.mpr hroom] using hturn
      · have hturn := @Turn.tooDeep limit stop ⟨.leftParen, start⟩ rest held frames openGroups rfl hfull
        simpa [State.step, hfull] using hturn
    | rightParen =>
      rcases frames with _ | ⟨⟨start', outer⟩ | ⟨op, start', left⟩, frames⟩
      · exact .unmatched rest held openGroups rfl
      · exact .closeGroup held start' outer frames openGroups (atTerminator_cons rfl rest)
      · exact .closeOperand held op start' left frames openGroups (atTerminator_cons rfl rest)
    | endOfInput => exact absurd rfl (h _ List.mem_cons_self)

variable {limit stop : Nat} {s s' : State} {repairs made : List Repair}

theorem turn_of_next {next : Next} (h : ∀ t ∈ s.tokens, t.lexeme ≠ .endOfInput)
    (hnext : (s.step limit stop).next = next) :
    Turn limit stop s ⟨(s.step limit stop).repairs, next⟩ := by
  subst hnext
  exact turn_step limit stop h

/-- No move goes back to tokens that have been read. -/
theorem Turn.tokens_suffix (h : Turn limit stop s ⟨repairs, .resume s'⟩) : s'.tokens <:+ s.tokens := by
  cases h with
  | operator | name | openGroup => exact List.suffix_cons _ _
  | closeGroup => exact List.tail_suffix _
  | closeOperand => exact List.suffix_refl _

theorem Turn.of_finish {result : Option Expression} (h : Turn limit stop s ⟨repairs, .finish result⟩) :
    s.frames = [] ∧ s.held = result := by
  cases h <;> exact ⟨rfl, rfl⟩

/-! ## Lenient runs -/

/-- Moves lead from one state to the other and take the repairs, in order. -/
inductive Leads (limit stop : Nat) : State → List Repair → State → Prop where
  | refl (s : State) : Leads limit stop s [] s
  | step {s s' s'' : State} {repairs made : List Repair} :
      Turn limit stop s ⟨repairs, .resume s'⟩ → Leads limit stop s' made s'' →
      Leads limit stop s (repairs ++ made) s''

/-- What each move keeps, a run keeps. -/
theorem Leads.keeps {P : State → Prop}
    (hturn : ∀ {s s' : State} {repairs : List Repair},
      Turn limit stop s ⟨repairs, .resume s'⟩ → P s → P s')
    (h : Leads limit stop s made s') (hs : P s) : P s' := by
  induction h with
  | refl => exact hs
  | step hmove _ ih => exact ih (hturn hmove hs)

def Next.result? : Next → Option (Except SyntaxError (Option Expression))
  | resume _ => none
  | finish result => some (.ok result)
  | fail error => some (.error error)

/-- A lenient run is a sequence of moves up to one that ends it. -/
theorem exists_leads_of_run {s : State} (h : ∀ t ∈ s.tokens, t.lexeme ≠ .endOfInput) :
    ∃ s' made repairs next, Leads limit stop s made s' ∧ Turn limit stop s' ⟨repairs, next⟩ ∧
      next.result? = some (run .lenient limit stop [] s).result ∧
      (run .lenient limit stop [] s).repairs = made ++ repairs := by
  have hrefusal := Strictness.refusal?_lenient (s.step limit stop).repairs
  rcases hnext : (s.step limit stop).next with s' | result | error
  · have hturn := turn_of_next h hnext
    obtain ⟨s'', made, repairs, next, hleads, hlast, hresult, hrepairs⟩ :=
      exists_leads_of_run fun t ht => h t (hturn.tokens_suffix.mem ht)
    refine ⟨s'', _, repairs, next, .step hturn hleads, hlast, ?_, ?_⟩ <;>
      rw [run_of_resume hrefusal hnext, run_eq]
    · exact hresult
    · simp [hrepairs]
  · refine ⟨s, [], _, _, .refl s, turn_of_next h hnext, ?_, ?_⟩ <;> rw [run_of_finish hrefusal hnext]
    · rfl
    · simp
  · refine ⟨s, [], _, _, .refl s, turn_of_next h hnext, ?_, ?_⟩ <;> rw [run_of_fail hrefusal hnext]
    · rfl
    · simp
termination_by s.weight
decreasing_by exact State.weight_lt_of_step hnext

end LicenseExpr.RightNested
