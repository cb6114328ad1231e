import LicenseExpr.Proofs.RightNested.Turns

/-!
# The states of a run

`Goes` is one round of a run, `Ends` its last one, and `Visits` counts the rounds before a state. A `)`
or the end is looked at again for each scope that it closes, so the tokens that are left do not tell how
long a run still takes; two for each token and one for each open scope do (`Visits.add_weight_le`). A
run over `n` tokens ends within `2 * n + 1` rounds (`run_ends_in_time`).
-/

namespace LicenseExpr.RightNested

/-- The move is made and another one follows. -/
structure Goes (strictness : Strictness) (limit stop : Nat) (s s' : State) : Prop where
  accepted : strictness.refusal? (s.step limit stop).repairs = none
  next : (s.step limit stop).next = .resume s'

/-- The run comes to this result with the move. -/
inductive Ends (strictness : Strictness) (limit stop : Nat) (s : State) :
    Except SyntaxError (Option Expression) → Prop where
  | refused {error : SyntaxError} :
      strictness.refusal? (s.step limit stop).repairs = some error →
      Ends strictness limit stop s (.error error)
  | finish {result : Option Expression} :
      strictness.refusal? (s.step limit stop).repairs = none →
      (s.step limit stop).next = .finish result → Ends strictness limit stop s (.ok result)
  | fail {error : SyntaxError} :
      strictness.refusal? (s.step limit stop).repairs = none →
      (s.step limit stop).next = .fail error → Ends strictness limit stop s (.error error)

/-- A run from the one state comes to the other after so many rounds. -/
inductive Visits (strictness : Strictness) (limit stop : Nat) : State → Nat → State → Prop where
  | refl (s : State) : Visits strictness limit stop s 0 s
  | step {s s' s'' : State} {rounds : Nat} :
      Goes strictness limit stop s s' → Visits strictness limit stop s' rounds s'' →
      Visits strictness limit stop s (rounds + 1) s''

variable {strictness : Strictness} {limit stop : Nat} {s s' s'' : State}

/-! ## Rounds -/

theorem goes_or_ends (strictness : Strictness) (limit stop : Nat) (s : State) :
    (∃ s', Goes strictness limit stop s s') ∨ ∃ result, Ends strictness limit stop s result := by
  rcases haccepted : strictness.refusal? (s.step limit stop).repairs with _ | error
  · rcases hnext : (s.step limit stop).next with s' | result | error
    · exact .inl ⟨s', haccepted, hnext⟩
    · exact .inr ⟨_, .finish haccepted hnext⟩
    · exact .inr ⟨_, .fail haccepted hnext⟩
  · exact .inr ⟨_, .refused haccepted⟩

theorem Goes.result_eq (h : Goes strictness limit stop s s') :
    (run strictness limit stop [] s).result = (run strictness limit stop [] s').result := by
  rw [run_eq_of_resume h.accepted h.next]

theorem Ends.result_eq {result : Except SyntaxError (Option Expression)}
    (h : Ends strictness limit stop s result) : (run strictness limit stop [] s).result = result := by
  cases h with
  | refused hrefused => rw [run_of_refusal hrefused]
  | finish haccepted hnext => rw [run_of_finish haccepted hnext]
  | fail haccepted hnext => rw [run_of_fail haccepted hnext]

theorem Goes.unique (h : Goes strictness limit stop s s') (h' : Goes strictness limit stop s s'') :
    s' = s'' :=
  Next.resume.inj (h.next.symm.trans h'.next)

theorem Ends.not_goes {result : Except SyntaxError (Option Expression)}
    (h : Ends strictness limit stop s result) : ¬ Goes strictness limit stop s s' := by
  intro hgoes
  cases h with
  | refused hrefused => cases hgoes.accepted.symm.trans hrefused
  | finish _ hnext => cases hgoes.next.symm.trans hnext
  | fail _ hnext => cases hgoes.next.symm.trans hnext

theorem Goes.turn (h : Goes strictness limit stop s s') (hs : ∀ t ∈ s.tokens, t.lexeme ≠ .endOfInput) :
    Turn limit stop s ⟨(s.step limit stop).repairs, .resume s'⟩ :=
  turn_of_next hs h.next

/-! ## Runs -/

theorem Visits.keeps {P : State → Prop} {rounds : Nat}
    (hgoes : ∀ {s s' : State}, Goes strictness limit stop s s' → P s → P s')
    (h : Visits strictness limit stop s rounds s') (hs : P s) : P s' := by
  induction h with
  | refl => exact hs
  | step hround _ ih => exact ih (hgoes hround hs)

theorem Visits.lexeme_ne_endOfInput {rounds : Nat} (h : Visits strictness limit stop s rounds s')
    (hs : ∀ t ∈ s.tokens, t.lexeme ≠ .endOfInput) : ∀ t ∈ s'.tokens, t.lexeme ≠ .endOfInput :=
  @Visits.keeps _ _ _ _ _ (fun s => ∀ t ∈ s.tokens, t.lexeme ≠ .endOfInput) _
    (fun hround hs t ht => hs t ((hround.turn hs).tokens_suffix.mem ht)) h hs

/-- Each round costs a token or an open scope. -/
theorem Visits.add_weight_le {rounds : Nat} (h : Visits strictness limit stop s rounds s') :
    rounds + s'.weight ≤ s.weight := by
  induction h with
  | refl => omega
  | step hround _ ih =>
    have hlt := State.weight_lt_of_step hround.next
    omega

theorem exists_visits_ends (strictness : Strictness) (limit stop : Nat) (s : State) :
    ∃ rounds s', Visits strictness limit stop s rounds s' ∧
      Ends strictness limit stop s' (run strictness limit stop [] s).result := by
  rcases goes_or_ends strictness limit stop s with ⟨s', hgoes⟩ | ⟨result, hends⟩
  · obtain ⟨rounds, s'', hvisits, hends⟩ := exists_visits_ends strictness limit stop s'
    exact ⟨rounds + 1, s'', .step hgoes hvisits, hgoes.result_eq ▸ hends⟩
  · exact ⟨0, s, .refl s, hends.result_eq ▸ hends⟩
termination_by s.weight
decreasing_by exact State.weight_lt_of_step hgoes.next

theorem Visits.le_of_ends {rounds rounds' : Nat} {result : Except SyntaxError (Option Expression)}
    (h : Visits strictness limit stop s rounds s') (hends : Ends strictness limit stop s' result)
    (h' : Visits strictness limit stop s rounds' s'') : rounds' ≤ rounds := by
  induction h generalizing rounds' with
  | refl =>
    cases h' with
    | refl => exact Nat.le_refl _
    | step hgoes => exact absurd hgoes hends.not_goes
  | step hgoes _ ih =>
    cases h' with
    | refl => exact Nat.zero_le _
    | step hgoes' hrest =>
      cases hgoes.unique hgoes'
      exact Nat.succ_le_succ (ih hends hrest)

/-! ## What a round reads -/

def Frame.isGroup : Frame → Bool
  | group .. => true
  | operand .. => false

/-- The tokens that a round leaves: at the end none are left to read, a `)` is read just if it closes a
group, and every other token is read. -/
inductive Reads : State → List Token → Prop where
  | atEnd (held : Option Expression) (frames : List Frame) (openGroups : Nat) :
      Reads ⟨[], held, frames, openGroups⟩ []
  | rightParen {token : Token} (rest : List Token) (held : Option Expression) (frame : Frame)
      (frames : List Frame) (openGroups : Nat) : token.lexeme = .rightParen →
      Reads ⟨token :: rest, held, frame :: frames, openGroups⟩
        (if frame.isGroup then rest else token :: rest)
  | token {token : Token} (rest : List Token) (held : Option Expression) (frames : List Frame)
      (openGroups : Nat) : token.lexeme ≠ .rightParen →
      Reads ⟨token :: rest, held, frames, openGroups⟩ rest

theorem reads_of_turn {repairs : List Repair} (h : Turn limit stop s ⟨repairs, .resume s'⟩) :
    Reads s s'.tokens := by
  cases h with
  | operator rest held frames openGroups hop =>
    refine .token rest held frames openGroups fun hparen => ?_
    rw [hparen] at hop
    cases hop
  | name rest held frames openGroups hword htext =>
    refine .token rest held frames openGroups fun hparen => ?_
    cases hword.symm.trans hparen
  | openGroup rest held frames hparen hroom =>
    refine .token rest held frames _ fun hright => ?_
    cases hparen.symm.trans hright
  | @closeGroup tokens held start outer frames openGroups hend =>
    rcases tokens with _ | ⟨token, rest⟩
    · exact .atEnd held _ openGroups
    · exact .rightParen rest held (.group start outer) frames openGroups hend
  | @closeOperand tokens held op start left frames openGroups hend =>
    rcases tokens with _ | ⟨token, rest⟩
    · exact .atEnd held _ openGroups
    · exact .rightParen rest held (.operand op start left) frames openGroups hend

/-! ## Texts -/

/-- Reading the text comes to the state after so many rounds. -/
def Visited (strictness : Strictness) (limit : Nat) (text : String) (rounds : Nat) (s : State) : Prop :=
  Visits strictness limit (Cursor.ofText text).stop (.start (Cursor.ofText text).tokens) rounds s

theorem Visited.lexeme_ne_endOfInput {text : String} {rounds : Nat}
    (h : Visited strictness limit text rounds s) : ∀ t ∈ s.tokens, t.lexeme ≠ .endOfInput :=
  Visits.lexeme_ne_endOfInput h fun _ ht => (spells_tokens text).lexeme_ne_endOfInput ht

theorem Visited.keeps (P : State → Prop) {text : String} {rounds : Nat}
    (hgoes : ∀ {s s' : State}, Goes strictness limit (Cursor.ofText text).stop s s' →
      (∀ t ∈ s.tokens, t.lexeme ≠ .endOfInput) → P s → P s')
    (hstart : P (.start (Cursor.ofText text).tokens)) (h : Visited strictness limit text rounds s) :
    P s := by
  have hkeeps : (∀ t ∈ s.tokens, t.lexeme ≠ .endOfInput) ∧ P s := by
    refine @Visits.keeps _ _ _ _ _ (fun s => (∀ t ∈ s.tokens, t.lexeme ≠ .endOfInput) ∧ P s) _
      (fun hround hs => ⟨fun t ht => ?_, hgoes hround hs.1 hs.2⟩) h ⟨fun _ ht => ?_, hstart⟩
    · exact hs.1 t ((hround.turn hs.1).tokens_suffix.mem ht)
    · exact (spells_tokens text).lexeme_ne_endOfInput ht
  exact hkeeps.2

/-- Reading a text ends within two rounds for each token before the end and one more, though a round at
the end reads nothing and one at a `)` reads it only if it closes a group. -/
theorem run_ends_in_time (strictness : Strictness) (limit : Nat) (text : String) :
    (∃ rounds s, Visited strictness limit text rounds s ∧
      Ends strictness limit (Cursor.ofText text).stop s (read strictness limit text).result ∧
      rounds + 1 ≤ 2 * (Cursor.ofText text).tokens.length + 1 ∧
      ∀ rounds' s', Visited strictness limit text rounds' s' → rounds' ≤ rounds) ∧
    ∀ rounds s s', Visited strictness limit text rounds s →
      Goes strictness limit (Cursor.ofText text).stop s s' → Reads s s'.tokens := by
  constructor
  · obtain ⟨rounds, s, hvisits, hends⟩ := exists_visits_ends strictness limit
      (Cursor.ofText text).stop (.start (Cursor.ofText text).tokens)
    refine ⟨rounds, s, hvisits, hends, ?_, fun _ _ => hvisits.le_of_ends hends⟩
    have hle := hvisits.add_weight_le
    simp only [State.weight, State.start, List.length_nil] at hle
    omega
  · intro rounds s s' hvisited hgoes
    exact reads_of_turn (hgoes.turn hvisited.lexeme_ne_endOfInput)

end LicenseExpr.RightNested
