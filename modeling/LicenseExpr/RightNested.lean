import LicenseExpr.Expression
import LicenseExpr.Repair

/-!
# Right-nested reading

The right operand of an operator is the whole rest of its scope, so operators nest to the right
without precedence. Open scopes are kept as a list of frames, the innermost first: a group waits
for its `)`, the scope of a right operand ends with the scope around it.

`State.step` reads one token or closes one scope and says which repairs that takes. `run` repeats
it; each step makes `State.weight` smaller, so a text of `n` tokens takes at most `2 * n + 1`
steps.
-/

namespace LicenseExpr.RightNested

inductive Frame where
  /-- A group opened at a byte, and the operand held before it. -/
  | group (start : Nat) (outer : Option Expression)
  /-- The right operand of the operator at a byte, and its left operand. -/
  | operand (op : Operator) (start : Nat) (left : Option Expression)

structure State where
  /-- The tokens before the end that are still to be read. -/
  tokens : List Token
  /-- The operand that the innermost scope holds. -/
  held : Option Expression
  frames : List Frame
  openGroups : Nat

inductive Next where
  | resume (state : State)
  | finish (result : Option Expression)
  | fail (error : SyntaxError)

structure Move where
  /-- The repairs that the move takes, in order. -/
  repairs : List Repair
  next : Next

/-- The operand that a closed scope leaves to the one around it, and the repairs that takes. The
terminator is the `)` or the end that closes the scope. -/
def Frame.close (terminator : Token) (inner : Option Expression) :
    Frame → List Repair × Option Expression
  | group start outer =>
    let unclosed :=
      if terminator.lexeme = .endOfInput then
        [.recovered (.unmatchedParenthesis start) .closeGroup]
      else []
    match inner with
    | some inner => (unclosed, some (.group inner))
    | none => (unclosed ++ [.recovered (.emptyGroup start) .dropGroup], outer)
  | operand op start left =>
    match left, inner with
    | some left, some right => ([], some (.binary op left right))
    | left, none => ([.recovered (.missingOperand terminator.start op) .keepLeft], left)
    | none, some right => ([.collapsed op start], some right)

/-- A second operand in a scope takes the place of the first. -/
def overwrite (held : Option Expression) (token : Token) : List Repair :=
  match held with
  | none => []
  | some _ => [.recovered (.unexpectedToken token.start token.lexeme) .discardEarlier]

namespace State

def start (tokens : List Token) : State := ⟨tokens, none, [], 0⟩

/-- Closes the innermost scope `frame`, after which `frames` and `tokens` are left. -/
def closing (s : State) (frame : Frame) (frames : List Frame) (tokens : List Token)
    (terminator : Token) : Move :=
  let (repairs, held) := frame.close terminator s.held
  let openGroups :=
    match frame with
    | .group .. => s.openGroups - 1
    | .operand .. => s.openGroups
  ⟨repairs, .resume ⟨tokens, held, frames, openGroups⟩⟩

/-- One move on a text that ends at byte `stop`, with at most `limit` groups open at a time. -/
def step (limit stop : Nat) (s : State) : Move :=
  match s.tokens with
  | token@⟨.word text, start⟩ :: rest =>
    match Operator.ofWord? text with
    | some op =>
      let repairs :=
        match s.held with
        | none => [.recovered (.missingOperand start op) .useRight]
        | some _ => []
      ⟨repairs, .resume ⟨rest, none, .operand op start s.held :: s.frames, s.openGroups⟩⟩
    | none =>
      ⟨overwrite s.held token, .resume ⟨rest, some (.identifier text), s.frames, s.openGroups⟩⟩
  | token@⟨.leftParen, start⟩ :: rest =>
    ⟨overwrite s.held token,
      if s.openGroups ≥ limit then .fail (.nestingTooDeep start limit)
      else .resume ⟨rest, none, .group start s.held :: s.frames, s.openGroups + 1⟩⟩
  | token@⟨.rightParen, start⟩ :: rest =>
    match s.frames with
    | [] => ⟨[.recovered (.unmatchedParenthesis start) .ignoreRest], .finish s.held⟩
    | frame@(.group ..) :: frames => s.closing frame frames rest token
    | frame@(.operand ..) :: frames => s.closing frame frames s.tokens token
  | [] | ⟨.endOfInput, _⟩ :: _ =>
    match s.frames with
    | [] => ⟨[], .finish s.held⟩
    | frame :: frames => s.closing frame frames s.tokens ⟨.endOfInput, stop⟩

/-- Bounds the number of steps that a state can still take. -/
def weight (s : State) : Nat := 2 * s.tokens.length + s.frames.length

theorem weight_lt_of_step {limit stop : Nat} {s s' : State}
    (h : (s.step limit stop).next = .resume s') : s'.weight < s.weight := by
  obtain ⟨tokens, held, frames, openGroups⟩ := s
  unfold step at h
  rcases tokens with _ | ⟨⟨lexeme, start⟩, rest⟩
  · rcases frames with _ | ⟨frame, frames⟩ <;> cases h
    simp [weight]
  · cases lexeme with
    | word text =>
      dsimp only at h
      split at h <;> cases h <;> simp only [weight, List.length_cons] <;> omega
    | leftParen =>
      dsimp only at h
      split at h <;> cases h
      simp only [weight, List.length_cons]; omega
    | rightParen =>
      rcases frames with _ | ⟨frame, frames⟩
      · cases h
      · cases frame <;> cases h <;> simp only [weight, List.length_cons] <;> omega
    | endOfInput =>
      rcases frames with _ | ⟨frame, frames⟩ <;> cases h
      simp [weight]

end State

structure Outcome where
  repairs : List Repair
  result : Except SyntaxError (Option Expression)

/-- Runs from a state to the end; `made` holds the repairs made before it, the latest first. -/
def run (strictness : Strictness) (limit stop : Nat) (made : List Repair) (s : State) : Outcome :=
  let move := s.step limit stop
  match strictness.refusal? move.repairs with
  | some error => ⟨made.reverse, .error error⟩
  | none =>
    let made := move.repairs.reverse ++ made
    match _h : move.next with
    | .resume s' => run strictness limit stop made s'
    | .finish result => ⟨made.reverse, .ok result⟩
    | .fail error => ⟨made.reverse, .error error⟩
termination_by s.weight
decreasing_by exact State.weight_lt_of_step _h

/-! ## Runs by their first step -/

section Run

variable {strictness : Strictness} {limit stop : Nat} {made : List Repair} {s s' : State}

theorem run_of_refusal {error : SyntaxError}
    (h : strictness.refusal? (s.step limit stop).repairs = some error) :
    run strictness limit stop made s = ⟨made.reverse, .error error⟩ := by
  rw [run]
  simp only [h]

theorem run_of_resume (h : strictness.refusal? (s.step limit stop).repairs = none)
    (hnext : (s.step limit stop).next = .resume s') :
    run strictness limit stop made s =
      run strictness limit stop ((s.step limit stop).repairs.reverse ++ made) s' := by
  rw [run]
  simp only [h]
  split <;> simp_all

theorem run_of_finish {result : Option Expression}
    (h : strictness.refusal? (s.step limit stop).repairs = none)
    (hnext : (s.step limit stop).next = .finish result) :
    run strictness limit stop made s =
      ⟨made.reverse ++ (s.step limit stop).repairs, .ok result⟩ := by
  rw [run]
  simp only [h]
  split <;> simp_all

theorem run_of_fail {error : SyntaxError}
    (h : strictness.refusal? (s.step limit stop).repairs = none)
    (hnext : (s.step limit stop).next = .fail error) :
    run strictness limit stop made s =
      ⟨made.reverse ++ (s.step limit stop).repairs, .error error⟩ := by
  rw [run]
  simp only [h]
  split <;> simp_all

end Run

/-- The repairs made before do not change what follows. -/
theorem run_eq (strictness : Strictness) (limit stop : Nat) (made : List Repair) (s : State) :
    run strictness limit stop made s =
      ⟨made.reverse ++ (run strictness limit stop [] s).repairs,
        (run strictness limit stop [] s).result⟩ := by
  rcases h : strictness.refusal? (s.step limit stop).repairs with _ | error
  · rcases hnext : (s.step limit stop).next with s' | result | error
    · rw [run_of_resume h hnext, run_eq, run_of_resume h hnext,
        run_eq _ _ _ ((s.step limit stop).repairs.reverse ++ [])]
      simp
    · simp [run_of_finish h hnext]
    · simp [run_of_fail h hnext]
  · simp [run_of_refusal h]
termination_by s.weight
decreasing_by all_goals exact State.weight_lt_of_step hnext

theorem run_eq_of_resume {strictness : Strictness} {limit stop : Nat} {s s' : State}
    (h : strictness.refusal? (s.step limit stop).repairs = none)
    (hnext : (s.step limit stop).next = .resume s') :
    run strictness limit stop [] s =
      ⟨(s.step limit stop).repairs ++ (run strictness limit stop [] s').repairs,
        (run strictness limit stop [] s').result⟩ := by
  rw [run_of_resume h hnext, run_eq]
  simp

def read (strictness : Strictness) (limit : Nat) (text : String) : Outcome :=
  let cursor := Cursor.ofText text
  run strictness limit cursor.stop [] (.start cursor.tokens)

end LicenseExpr.RightNested
