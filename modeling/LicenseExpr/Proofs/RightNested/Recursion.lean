import LicenseExpr.Proofs.RightNested.Strictness
import LicenseExpr.Proofs.RightNested.Turns

/-!
# Right-nested reading by recursion

The machine of right-nested reading against the recursion that it stands for. `scope` reads one
scope with an operand of its own: an operator reads the rest of the scope as its right operand by a
call that leaves the `)` or the end where it is, a `(` reads a group by a call behind which its `)`
is used up. `unwind` says what the open frames of the machine still do with the operand of the
innermost scope, so each state has a meaning by recursion, and a move keeps it (`meaning_of_turn`).
-/

namespace LicenseExpr.RightNested

/-! ## The recursion -/

/-- Reading that keeps the repairs made, the latest first, and may end in an error. -/
abbrev Repairing := ExceptT SyntaxError (StateM (List Repair))

/-- What a scope comes to: the operand held where it ends and the tokens from there on. -/
structure ScopeEnd (tokens : List Token) where
  held : Option Expression
  rest : List Token
  length_rest_le : rest.length ≤ tokens.length

variable (strictness : Strictness) (limit stop : Nat)

/-- Strict reading ends with the error, lenient reading puts the repair on record. -/
def repair (error : SyntaxError) (recovery : Recovery) : Repairing Unit :=
  match strictness with
  | .lenient => modify (.recovered error recovery :: ·)
  | .strict => throw error

/-- A second operand takes the place of the one that the scope holds. -/
def replace (held : Option Expression) (token : Token) : Repairing Unit :=
  match held with
  | none => pure ()
  | some _ => repair strictness (.unexpectedToken token.start token.lexeme) .discardEarlier

def enter (openGroups : Nat) (token : Token) : Repairing Unit :=
  if openGroups ≥ limit then throw (.nestingTooDeep token.start limit) else pure ()

def requireLeft (held : Option Expression) (op : Operator) (start : Nat) : Repairing Unit :=
  match held with
  | none => repair strictness (.missingOperand start op) .useRight
  | some _ => pure ()

/-- Joins the operands of the operator at byte `start`, whose scope ends at the terminator. One
operand alone stands for itself. -/
def combine (op : Operator) (start : Nat) (left right : Option Expression) (terminator : Token) :
    Repairing (Option Expression) :=
  match left, right with
  | some left, some right => return some (.binary op left right)
  | left, none => do
    repair strictness (.missingOperand terminator.start op) .keepLeft
    return left
  | none, some right => do
    modify (.collapsed op start :: ·)
    return some right

/-- A group ends at its `)`; the end of the text closes it as well. -/
def requireClose (start : Nat) (terminator : Token) : Repairing Unit :=
  if terminator.lexeme = .endOfInput then
    repair strictness (.unmatchedParenthesis start) .closeGroup
  else pure ()

/-- Wraps what the group opened at byte `start` holds. An empty group leaves what was held before. -/
def wrap (start : Nat) (outer inner : Option Expression) (terminator : Token) :
    Repairing (Option Expression) := do
  requireClose strictness start terminator
  match inner with
  | some inner => return some (.group inner)
  | none => do
    repair strictness (.emptyGroup start) .dropGroup
    return outer

/-- Reads on in a scope that holds `held`, inside `openGroups` groups, up to a `)` or the end. -/
def scope (openGroups : Nat) (held : Option Expression) (tokens : List Token) :
    Repairing (ScopeEnd tokens) :=
  match tokens with
  | [] => return ⟨held, [], Nat.le_refl _⟩
  | token :: rest =>
    match token.lexeme with
    | .word text =>
      match Operator.ofWord? text with
      | some op => do
        requireLeft strictness held op token.start
        let ⟨right, behind, hle⟩ ← scope openGroups none rest
        let held ← combine strictness op token.start held right (terminator stop behind)
        let ⟨held, behind, hle'⟩ ← scope openGroups held behind
        return ⟨held, behind, Nat.le_succ_of_le (Nat.le_trans hle' hle)⟩
      | none => do
        replace strictness held token
        let ⟨held, behind, hle⟩ ← scope openGroups (some (.identifier text)) rest
        return ⟨held, behind, Nat.le_succ_of_le hle⟩
    | .leftParen => do
      replace strictness held token
      enter limit openGroups token
      let ⟨inner, behind, hle⟩ ← scope (openGroups + 1) none rest
      let held ← wrap strictness token.start held inner (terminator stop behind)
      have hlt := Nat.le_trans (List.tail_sublist behind).length_le hle
      let ⟨held, behind, hle'⟩ ← scope openGroups held behind.tail
      return ⟨held, behind, Nat.le_succ_of_le (Nat.le_trans hle' hlt)⟩
    | .rightParen | .endOfInput => return ⟨held, token :: rest, Nat.le_refl _⟩
termination_by tokens.length

/-- A `)` that is left behind the scope of the whole text has no partner; what stands behind it is
not read. -/
def finishText (held : Option Expression) (rest : List Token) : Repairing (Option Expression) :=
  match rest with
  | [] => return held
  | token :: _ => do
    repair strictness (.unmatchedParenthesis token.start) .ignoreRest
    return held

/-- The repairs in order and the result of reading with some repairs made before. -/
def Repairing.outcome (reading : Repairing (Option Expression)) (made : List Repair) : Outcome :=
  let (result, made) := reading.run made
  ⟨made.reverse, result⟩

def readScopes (text : String) : Outcome :=
  let cursor := Cursor.ofText text
  Repairing.outcome (do
    let ⟨held, rest, _⟩ ← scope strictness limit cursor.stop 0 none cursor.tokens
    finishText strictness held rest) []

/-! ## Equations of the recursion -/

def ScopeEnd.answer {tokens : List Token} (e : ScopeEnd tokens) : Option Expression × List Token :=
  (e.held, e.rest)

/-- What `scope` comes to, without the bound on the tokens that are left. -/
def scopeAt (openGroups : Nat) (held : Option Expression) (tokens : List Token) :
    Repairing (Option Expression × List Token) :=
  ScopeEnd.answer <$> scope strictness limit stop openGroups held tokens

section Equations

variable {token : Token} (openGroups : Nat) (held : Option Expression) (rest : List Token)

theorem scopeAt_of_atTerminator {tokens : List Token} (h : AtTerminator tokens) :
    scopeAt strictness limit stop openGroups held tokens = pure (held, tokens) := by
  rcases tokens with _ | ⟨⟨lexeme, start⟩, rest⟩
  · rw [scopeAt, scope]
    rfl
  · cases h
    rw [scopeAt, scope]
    rfl

theorem scopeAt_name {text : String} (hword : token.lexeme = .word text)
    (htext : Operator.ofWord? text = none) :
    scopeAt strictness limit stop openGroups held (token :: rest) = (do
      replace strictness held token
      scopeAt strictness limit stop openGroups (some (.identifier text)) rest) := by
  obtain ⟨lexeme, start⟩ := token
  cases hword
  rw [scopeAt, scope]
  simp only [htext, scopeAt, map_eq_pure_bind, ScopeEnd.answer, bind_assoc, pure_bind]

theorem scopeAt_operator {op : Operator} (hop : token.lexeme.operator? = some op) :
    scopeAt strictness limit stop openGroups held (token :: rest) = (do
      requireLeft strictness held op token.start
      let (right, behind) ← scopeAt strictness limit stop openGroups none rest
      let held ← combine strictness op token.start held right (terminator stop behind)
      scopeAt strictness limit stop openGroups held behind) := by
  obtain ⟨text, hword, htext⟩ := Lexeme.operator?_eq_some_iff.mp hop
  obtain ⟨lexeme, start⟩ := token
  cases hword
  rw [scopeAt, scope]
  simp only [htext, scopeAt, map_eq_pure_bind, ScopeEnd.answer, bind_assoc, pure_bind]

theorem scopeAt_leftParen (hparen : token.lexeme = .leftParen) :
    scopeAt strictness limit stop openGroups held (token :: rest) = (do
      replace strictness held token
      enter limit openGroups token
      let (inner, behind) ← scopeAt strictness limit stop (openGroups + 1) none rest
      let held ← wrap strictness token.start held inner (terminator stop behind)
      scopeAt strictness limit stop openGroups held behind.tail) := by
  obtain ⟨lexeme, start⟩ := token
  cases hparen
  rw [scopeAt, scope]
  simp only [scopeAt, map_eq_pure_bind, ScopeEnd.answer, bind_assoc, pure_bind]

end Equations

/-! ## States and moves by recursion -/

/-- What the open frames, the innermost first, do with what the scope inside them comes to. -/
def unwind (openGroups : Nat) (frames : List Frame) (inside : Option Expression × List Token) :
    Repairing (Option Expression) :=
  match frames with
  | [] => finishText strictness inside.1 inside.2
  | .operand op start left :: frames => do
    let held ← combine strictness op start left inside.1 (terminator stop inside.2)
    let inside ← scopeAt strictness limit stop openGroups held inside.2
    unwind openGroups frames inside
  | .group start outer :: frames => do
    let held ← wrap strictness start outer inside.1 (terminator stop inside.2)
    let inside ← scopeAt strictness limit stop (openGroups - 1) held inside.2.tail
    unwind (openGroups - 1) frames inside

/-- What reading comes to from a state. -/
def State.meaning (s : State) : Repairing (Option Expression) :=
  scopeAt strictness limit stop s.openGroups s.held s.tokens >>=
    unwind strictness limit stop s.openGroups s.frames

/-- Makes the repairs of a move, or ends with the error that one of them stands for. -/
def make (repairs : List Repair) : Repairing Unit :=
  match strictness.refusal? repairs with
  | some error => throw error
  | none => modify (repairs.reverse ++ ·)

def Next.meaning : Next → Repairing (Option Expression)
  | resume s => s.meaning strictness limit stop
  | finish result => pure result
  | fail error => throw error

theorem make_nil : make strictness [] = pure () := by
  cases strictness <;> rfl

theorem make_recovered (error : SyntaxError) (recovery : Recovery) :
    make strictness [.recovered error recovery] = repair strictness error recovery := by
  cases strictness <;> rfl

theorem make_recovered_cons (error : SyntaxError) (recovery : Recovery) (repairs : List Repair) :
    make strictness (.recovered error recovery :: repairs) =
      (repair strictness error recovery >>= fun _ => make strictness repairs) := by
  cases strictness with
  | strict => rfl
  | lenient =>
    have hlog (made : List Repair) : (.recovered error recovery :: repairs).reverse ++ made =
        repairs.reverse ++ .recovered error recovery :: made := by simp
    simp only [make, Strictness.refusal?_lenient, hlog]
    rfl

theorem make_overwrite (held : Option Expression) (token : Token) :
    make strictness (overwrite held token) = replace strictness held token := by
  cases held with
  | none => exact make_nil strictness
  | some e => exact make_recovered strictness _ _

theorem make_missingLeft (held : Option Expression) (op : Operator) (start : Nat) :
    make strictness (missingLeft held op start) = requireLeft strictness held op start := by
  cases held with
  | none => exact make_recovered strictness _ _
  | some e => exact make_nil strictness

theorem make_close_operand {α : Type} (op : Operator) (start : Nat) (left inner : Option Expression)
    (terminator : Token) (k : Option Expression → Repairing α) :
    (make strictness ((Frame.operand op start left).close terminator inner).1 >>= fun _ =>
      k ((Frame.operand op start left).close terminator inner).2) =
      combine strictness op start left inner terminator >>= k := by
  rcases left with _ | left <;> rcases inner with _ | inner <;>
    simp only [Frame.close, combine, make_recovered, make_nil, bind_assoc, pure_bind]
  cases strictness <;> rfl

theorem make_close_group {α : Type} (start : Nat) (outer inner : Option Expression)
    (terminator : Token) (k : Option Expression → Repairing α) :
    (make strictness ((Frame.group start outer).close terminator inner).1 >>= fun _ =>
      k ((Frame.group start outer).close terminator inner).2) =
      wrap strictness start outer inner terminator >>= k := by
  by_cases hend : terminator.lexeme = .endOfInput <;> rcases inner with _ | inner <;>
    simp only [Frame.close, wrap, requireClose, hend, if_true, if_false, List.nil_append,
      List.singleton_append, make_recovered_cons, make_nil, bind_assoc, pure_bind]

variable {strictness limit stop} {s : State} {move : Move}

/-- A move keeps what reading comes to. -/
theorem meaning_of_turn (h : Turn limit stop s move) :
    s.meaning strictness limit stop =
      make strictness move.repairs >>= fun _ => move.next.meaning strictness limit stop := by
  cases h with
  | operator rest held frames openGroups hop =>
    rw [make_missingLeft, State.meaning, scopeAt_operator _ _ _ _ _ _ hop]
    simp only [Next.meaning, State.meaning, unwind, bind_assoc]
  | name rest held frames openGroups hword htext =>
    rw [make_overwrite, State.meaning, scopeAt_name _ _ _ _ _ _ hword htext]
    simp only [Next.meaning, State.meaning, bind_assoc]
  | openGroup rest held frames hparen hroom =>
    rw [make_overwrite, State.meaning, scopeAt_leftParen _ _ _ _ _ _ hparen, enter,
      if_neg (Nat.not_le.mpr hroom)]
    simp only [Next.meaning, State.meaning, unwind, bind_assoc, pure_bind, Nat.add_sub_cancel]
  | tooDeep rest held frames hparen hfull =>
    rw [make_overwrite, State.meaning, scopeAt_leftParen _ _ _ _ _ _ hparen, enter, if_pos hfull]
    simp only [Next.meaning, bind_assoc]
    rfl
  | closeGroup held start outer frames openGroups hend =>
    rw [State.meaning, scopeAt_of_atTerminator _ _ _ _ _ hend, pure_bind, unwind, ← make_close_group]
    rfl
  | closeOperand held op start left frames openGroups hend =>
    rw [State.meaning, scopeAt_of_atTerminator _ _ _ _ _ hend, pure_bind, unwind, ← make_close_operand]
    rfl
  | unmatched rest held openGroups hparen =>
    rw [State.meaning, scopeAt_of_atTerminator _ _ _ _ _ (atTerminator_cons hparen rest), pure_bind,
      unwind, make_recovered]
    rfl
  | finish held openGroups =>
    rw [State.meaning, scopeAt_of_atTerminator _ _ _ _ _ atTerminator_nil, pure_bind, make_nil]
    rfl

/-! ## Runs -/

section Outcome

variable {repairs made : List Repair} {k : Unit → Repairing (Option Expression)}

theorem outcome_of_refusal {error : SyntaxError} (h : strictness.refusal? repairs = some error) :
    Repairing.outcome (make strictness repairs >>= k) made = ⟨made.reverse, .error error⟩ := by
  rw [make, h]
  rfl

theorem outcome_of_no_refusal (h : strictness.refusal? repairs = none) :
    Repairing.outcome (make strictness repairs >>= k) made =
      (k ()).outcome (repairs.reverse ++ made) := by
  rw [make, h]
  rfl

theorem outcome_pure (result : Option Expression) :
    Repairing.outcome (pure result) made = ⟨made.reverse, .ok result⟩ := rfl

theorem outcome_throw (error : SyntaxError) :
    Repairing.outcome (throw error) made = ⟨made.reverse, .error error⟩ := rfl

end Outcome

/-- From any state the machine comes to what the recursion comes to, with the same repairs. -/
theorem run_eq_outcome {s : State} (htokens : ∀ t ∈ s.tokens, t.lexeme ≠ .endOfInput)
    (made : List Repair) :
    run strictness limit stop made s = (s.meaning strictness limit stop).outcome made := by
  rw [meaning_of_turn (turn_step limit stop htokens)]
  rcases hrefusal : strictness.refusal? (s.step limit stop).repairs with _ | error
  · rw [outcome_of_no_refusal hrefusal]
    rcases hnext : (s.step limit stop).next with s' | result | error
    · rw [run_of_resume hrefusal hnext]
      have hsuffix := (turn_of_next htokens hnext).tokens_suffix
      exact run_eq_outcome (fun t ht => htokens t (hsuffix.mem ht)) _
    · rw [run_of_finish hrefusal hnext, Next.meaning, outcome_pure, List.reverse_append,
        List.reverse_reverse]
    · rw [run_of_fail hrefusal hnext, Next.meaning, outcome_throw, List.reverse_append,
        List.reverse_reverse]
  · rw [outcome_of_refusal hrefusal, run_of_refusal hrefusal]
termination_by s.weight
decreasing_by exact State.weight_lt_of_step hnext

theorem readScopes_eq (strictness : Strictness) (limit : Nat) (text : String) :
    readScopes strictness limit text =
      ((State.start (Cursor.ofText text).tokens).meaning strictness limit
        (Cursor.ofText text).stop).outcome [] := by
  simp only [readScopes, State.meaning, State.start, scopeAt, map_eq_pure_bind, bind_assoc, pure_bind]
  rfl

theorem read_eq_readScopes (strictness : Strictness) (limit : Nat) (text : String) :
    RightNested.read strictness limit text = readScopes strictness limit text := by
  rw [readScopes_eq]
  exact run_eq_outcome (fun _ ht => (spells_tokens text).lexeme_ne_endOfInput ht) []

def dialectOf : Strictness → Dialect
  | .lenient => .lenient
  | .strict => .strict

/-- On every text the machine and the recursion over scopes come to the same result with the same
repairs in the same order, whether repairs are allowed or not, so readers give the result of the
recursion and put its repairs on record. -/
theorem machine_reads_as_recursion (strictness : Strictness) (limit : Nat) (text : String) :
    RightNested.read strictness limit text = readScopes strictness limit text ∧
      (Reader.read ⟨dialectOf strictness, limit⟩ text).result =
        (readScopes strictness limit text).result >>= Reader.requireExpression text ∧
      (Reader.read ⟨dialectOf strictness, limit⟩ text).debugMessages =
        (readScopes strictness limit text).repairs.map Repair.message := by
  have hread := read_eq_readScopes strictness limit text
  refine ⟨hread, ?_, ?_⟩
  · rw [← hread]
    cases strictness <;> rfl
  · rw [Reading.debugMessages_eq, ← hread]
    cases strictness <;> rfl

end LicenseExpr.RightNested
