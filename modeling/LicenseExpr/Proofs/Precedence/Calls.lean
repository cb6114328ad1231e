import Mathlib.Logic.Relation
import LicenseExpr.Proofs.Precedence.Readers

/-!
# The calls of the readers

A reader calls the reader of a tighter level on the same tokens, or some reader on fewer tokens. `Course`
lists what a reader does between its calls, and `Task.course` the course of each reader; the answers of
the readers are what recursion along the courses gives, with calls nested no deeper than the weight of
the first one (`answerWithin_eq`). `Call` lists the calls. What a reader leaves behind (`Task.Leaves`)
holds of a call because it holds of the calls that it makes.
-/

namespace LicenseExpr.Precedence

/-! ## Levels -/

/-- The operators of which the readers of the level make chains. -/
def Level.chained : Level → List Operator
  | disjunction => [.or, .and]
  | conjunction => [.and]
  | attachment | operand => []

/-- No chain of the level goes on with the token. -/
def Level.StopsAt (level : Level) (token : Token) : Prop :=
  ∀ op ∈ level.chained, token.lexeme.operator? ≠ some op

/-- How many levels are tighter. -/
def Level.looseness : Level → Nat
  | disjunction => 3
  | conjunction => 2
  | attachment => 1
  | operand => 0

theorem Level.looseness_le (level : Level) : level.looseness ≤ 3 := by
  cases level <;> decide

theorem Level.looseness_below_lt (op : Operator) : op.below.looseness < op.level.looseness := by
  cases op <;> decide

theorem Level.eq_operand_or_level (level : Level) : level = .operand ∨ ∃ op : Operator, level = op.level := by
  cases level with
  | disjunction => exact .inr ⟨.or, rfl⟩
  | conjunction => exact .inr ⟨.and, rfl⟩
  | attachment => exact .inr ⟨.exception, rfl⟩
  | operand => exact .inl rfl

theorem Level.stopsAt_level_of_below {op : Operator} {token : Token} (hbelow : op.below.StopsAt token)
    (hop : token.lexeme.operator? ≠ some op) : op.level.StopsAt token := by
  intro next hnext
  cases op with
  | or =>
    rcases List.mem_cons.mp hnext with rfl | hnext
    · exact hop
    · exact hbelow next hnext
  | and =>
    cases List.mem_singleton.mp hnext
    exact hop
  | exception => cases hnext

theorem Level.stopsAt_attachment (token : Token) : Level.attachment.StopsAt token := nofun

theorem Level.stopsAt_operand (token : Token) : Level.operand.StopsAt token := nofun

/-! ## Courses -/

/-- A call of a reader: of the reader of a level, or of what joins operands to an expression. -/
inductive Task where
  | read (level : Level) (depth : Nat) (tokens : List Token)
  | join (op : Operator) (left : Expression) (depth : Nat) (tokens : List Token)

namespace Task

def depth : Task → Nat
  | read _ depth _ | join _ _ depth _ => depth

def tokens : Task → List Token
  | read _ _ tokens | join _ _ _ tokens => tokens

def looseness : Task → Nat
  | read level _ _ => level.looseness
  | join _ _ _ _ => 0

/-- Fewer tokens weigh less, whatever the level; of two levels on the same tokens the tighter one does. -/
def weight (t : Task) : Nat := 4 * t.tokens.length + t.looseness

def answer (limit stop : Nat) : Task → Answer
  | read level depth tokens => readAt limit stop level depth tokens
  | join op left depth tokens => joinAt limit stop op left depth tokens

end Task

/-- What a reader does: it gives an answer, or calls a reader and goes on with what that one finds. The
error of a call is its own. -/
inductive Course where
  | done (answer : Answer)
  | call (task : Task) (andThen : Expression × List Token × Nat → Course)

namespace Course

/-- The course, if the check before it passes. -/
def after (check : Except SyntaxError Unit) (course : Course) : Course :=
  match check with
  | .ok _ => course
  | .error error => done (.error error)

def passOn (task : Task) : Course := call task fun found => done (.ok found)

/-- What the course comes to, if each call that it makes comes to an answer. -/
def outcome (given : Task → Option Answer) : Course → Option Answer
  | done answer => some answer
  | call task andThen =>
    match given task with
    | none => none
    | some (.error error) => some (.error error)
    | some (.ok found) => (andThen found).outcome given

/-- The course calls the reader, if the calls before it are answered like this. -/
inductive Makes (given : Task → Answer) : Course → Task → Prop where
  | here {task : Task} {andThen : Expression × List Token × Nat → Course} :
      Makes given (call task andThen) task
  | behind {first task : Task} {andThen : Expression × List Token × Nat → Course}
      {found : Expression × List Token × Nat} :
      given first = .ok found → Makes given (andThen found) task →
      Makes given (call first andThen) task

variable {given : Task → Answer}

theorem not_makes_done {answer : Answer} {task : Task} : ¬ Makes given (done answer) task := nofun

theorem Makes.of_after {check : Except SyntaxError Unit} {course : Course} {task : Task}
    (h : Makes given (after check course) task) : check = .ok () ∧ Makes given course task := by
  rcases check with error | _
  · exact absurd h not_makes_done
  · exact ⟨rfl, h⟩

theorem Makes.eq_of_passOn {task task' : Task} (h : Makes given (passOn task) task') :
    task' = task := by
  cases h with
  | here => rfl
  | behind _ h => exact absurd h not_makes_done

theorem outcome_after (given : Task → Option Answer) (check : Except SyntaxError Unit)
    (course : Course) {answer : Answer} (h : course.outcome given = some answer) :
    (after check course).outcome given = some (check >>= fun _ => answer) := by
  rcases check with error | _
  · rfl
  · exact h

theorem outcome_call_some (given : Task → Answer) (task : Task)
    (andThen : Expression × List Token × Nat → Course) {f : Expression × List Token × Nat → Answer}
    (h : ∀ found, (andThen found).outcome (fun t => some (given t)) = some (f found)) :
    (call task andThen).outcome (fun t => some (given t)) = some (given task >>= f) := by
  unfold outcome
  rcases given task with error | found
  · rfl
  · exact h found

theorem outcome_passOn (given : Task → Answer) (task : Task) :
    (passOn task).outcome (fun t => some (given t)) = some (given task) := by
  rw [passOn, outcome_call_some given task _ fun _ => rfl]
  rcases given task with error | found <;> rfl

/-- Only the answers of the calls that the course makes matter. -/
theorem outcome_congr {course : Course} {partly : Task → Option Answer}
    (h : ∀ t, Makes given course t → partly t = some (given t)) :
    course.outcome partly = course.outcome fun t => some (given t) := by
  induction course with
  | done answer => rfl
  | call task andThen ih =>
    unfold outcome
    rw [h task .here]
    rcases hfound : given task with error | found
    · rfl
    · exact ih found fun t ht => h t (.behind hfound ht)

end Course

section Courses

open Course

variable (limit stop : Nat)

/-- Reads at the level below, then joins. -/
def levelCourse (op : Operator) (depth : Nat) (tokens : List Token) : Course :=
  .call (.read op.below depth tokens) fun (left, rest, depth) => passOn (.join op left depth rest)

/-- Only chains go on behind a right operand. -/
def joinCourse (op : Operator) (left : Expression) (depth : Nat) : List Token → Course
  | [] => .done (.ok (left, [], depth))
  | token :: rest =>
    if token.lexeme.operator? = some op then
      after (requireOperand op (current stop rest)) <|
        .call (.read op.below depth rest) fun (right, rest, depth) =>
          match op with
          | .exception => .done (.ok (.binary op left right, rest, depth))
          | .or | .and => passOn (.join op (.binary op left right) depth rest)
    else .done (.ok (left, token :: rest, depth))

def operandCourse (depth : Nat) : List Token → Course
  | [] => .done (.error (.emptyExpression stop))
  | token :: rest =>
    match token.lexeme.operator? with
    | some op => .done (.error (.missingOperand token.start op))
    | none =>
      match token.lexeme with
      | .word name => .done (.ok (.identifier name, rest, depth))
      | .rightParen => .done (.error (.unmatchedParenthesis token.start))
      | .endOfInput => .done (.error (.emptyExpression token.start))
      | .leftParen =>
        after (requireGroup limit depth token.start (current stop rest)) <|
          .call (.read .disjunction (depth + 1) rest) fun (inner, rest, depth) =>
            .done (readClose token.start inner depth rest)

def Task.course : Task → Course
  | .read .disjunction depth tokens => levelCourse .or depth tokens
  | .read .conjunction depth tokens => levelCourse .and depth tokens
  | .read .attachment depth tokens => levelCourse .exception depth tokens
  | .read .operand depth tokens => operandCourse limit stop depth tokens
  | .join op left depth tokens => joinCourse stop op left depth tokens

def Task.Calls (t t' : Task) : Prop := Makes (Task.answer limit stop) (t.course limit stop) t'

/-- What a call comes to by its course, if calls may nest so deep. -/
def answerWithin : Nat → Task → Option Answer
  | 0, _ => none
  | depth + 1, t => (t.course limit stop).outcome (answerWithin depth)

variable {limit stop}

theorem Task.course_level (op : Operator) (depth : Nat) (tokens : List Token) :
    (Task.read op.level depth tokens).course limit stop = levelCourse op depth tokens := by
  cases op <;> rfl

theorem operandCourse_name {depth start : Nat} {name : String} {rest : List Token}
    (h : (Lexeme.word name).operator? = none) :
    operandCourse limit stop depth (⟨.word name, start⟩ :: rest) =
      .done (.ok (.identifier name, rest, depth)) := by
  simp only [operandCourse, h]

/-! ## The readers follow their courses -/

theorem outcome_levelCourse (op : Operator) (depth : Nat) (tokens : List Token) :
    (levelCourse op depth tokens).outcome (fun t => some (t.answer limit stop)) =
      some (readAt limit stop op.level depth tokens) := by
  rw [readAt_level]
  exact outcome_call_some _ _ _ fun found => outcome_passOn _ _

theorem outcome_joinCourse (op : Operator) (left : Expression) (depth : Nat) (tokens : List Token) :
    (joinCourse stop op left depth tokens).outcome (fun t => some (t.answer limit stop)) =
      some (joinAt limit stop op left depth tokens) := by
  rcases tokens with _ | ⟨token, rest⟩
  · rw [joinAt_nil]
    rfl
  · rw [joinAt_cons, joinCourse]
    by_cases hop : token.lexeme.operator? = some op
    · rw [if_pos hop, if_pos hop]
      refine outcome_after _ _ _ (outcome_call_some _ _ _ fun found => ?_)
      cases op with
      | or | and => exact outcome_passOn _ _
      | exception => rfl
    · rw [if_neg hop, if_neg hop]
      rfl

theorem outcome_operandCourse (depth : Nat) (tokens : List Token) :
    (operandCourse limit stop depth tokens).outcome (fun t => some (t.answer limit stop)) =
      some (readAt limit stop .operand depth tokens) := by
  rcases tokens with _ | ⟨token, rest⟩
  · rw [readAt_operand_nil]
    rfl
  · rcases hop : token.lexeme.operator? with _ | op
    · obtain ⟨name | _ | _ | _, start⟩ := token
      · rw [readAt_operand_name limit stop depth rest rfl hop, operandCourse_name hop]
        rfl
      · rw [readAt_operand_leftParen limit stop depth rest rfl]
        exact outcome_after _ _ _ (outcome_call_some _ _ _ fun found => rfl)
      · rw [readAt_operand_rightParen limit stop depth rest rfl]
        rfl
      · rw [readAt_operand_endOfInput limit stop depth rest rfl]
        rfl
    · rw [readAt_operand_operator limit stop depth rest hop]
      simp only [operandCourse, hop, outcome]

theorem outcome_course (t : Task) :
    (t.course limit stop).outcome (fun t => some (t.answer limit stop)) =
      some (t.answer limit stop) := by
  cases t with
  | read level depth tokens =>
    obtain rfl | ⟨op, rfl⟩ := level.eq_operand_or_level
    · exact outcome_operandCourse depth tokens
    · rw [Task.course_level]
      exact outcome_levelCourse op depth tokens
  | join op left depth tokens => exact outcome_joinCourse op left depth tokens

end Courses

/-! ## The calls that a reader makes -/

variable {limit stop : Nat}

/-- The calls. A group is read with one more open around it. -/
inductive Call (limit stop : Nat) : Task → Task → Prop where
  | below {op : Operator} {depth : Nat} {tokens : List Token} :
      Call limit stop (.read op.level depth tokens) (.read op.below depth tokens)
  | behind {op : Operator} {depth depth' : Nat} {tokens rest : List Token} {left : Expression} :
      readAt limit stop op.below depth tokens = .ok (left, rest, depth') →
      Call limit stop (.read op.level depth tokens) (.join op left depth' rest)
  | inside {depth : Nat} {token : Token} {rest : List Token} :
      requireGroup limit depth token.start (current stop rest) = .ok () →
      Call limit stop (.read .operand depth (token :: rest)) (.read .disjunction (depth + 1) rest)
  | right {op : Operator} {left : Expression} {depth : Nat} {token : Token} {rest : List Token} :
      requireOperand op (current stop rest) = .ok () →
      Call limit stop (.join op left depth (token :: rest)) (.read op.below depth rest)
  | again {op : Operator} {left right : Expression} {depth depth' : Nat} {token : Token}
      {rest rest' : List Token} :
      readAt limit stop op.below depth rest = .ok (right, rest', depth') →
      Call limit stop (.join op left depth (token :: rest)) (.join op (.binary op left right) depth' rest')

theorem call_of_operand {depth : Nat} {tokens : List Token} {t : Task}
    (h : (operandCourse limit stop depth tokens).Makes (Task.answer limit stop) t) :
    Call limit stop (.read .operand depth tokens) t := by
  rcases tokens with _ | ⟨token, rest⟩
  · cases h
  · rcases hop : token.lexeme.operator? with _ | op
    · obtain ⟨name | _ | _ | _, start⟩ := token
      · rw [operandCourse_name hop] at h
        cases h
      · obtain ⟨hroom, h⟩ := h.of_after
        cases h with
        | here => exact .inside hroom
        | behind _ h => cases h
      · cases h
      · cases h
    · simp only [operandCourse, hop] at h
      cases h

theorem call_of_join {op : Operator} {left : Expression} {depth : Nat} {tokens : List Token} {t : Task}
    (h : (joinCourse stop op left depth tokens).Makes (Task.answer limit stop) t) :
    Call limit stop (.join op left depth tokens) t := by
  rcases tokens with _ | ⟨token, rest⟩
  · cases h
  · rw [joinCourse] at h
    by_cases hop : token.lexeme.operator? = some op
    · rw [if_pos hop] at h
      obtain ⟨hopens, h⟩ := h.of_after
      cases h with
      | here => exact .right hopens
      | @behind _ _ _ found hright h =>
        obtain ⟨right, rest', depth'⟩ := found
        cases op with
        | or | and =>
          cases h.eq_of_passOn
          exact .again hright
        | exception => cases h
    · rw [if_neg hop] at h
      cases h

theorem Task.Calls.call {t t' : Task} (h : t.Calls limit stop t') : Call limit stop t t' := by
  unfold Task.Calls at h
  cases t with
  | read level depth tokens =>
    obtain rfl | ⟨op, rfl⟩ := level.eq_operand_or_level
    · exact call_of_operand h
    · rw [Task.course_level] at h
      cases h with
      | here => exact .below
      | @behind _ _ _ found hleft h =>
        obtain ⟨left, rest, depth'⟩ := found
        cases h.eq_of_passOn
        exact .behind hleft
  | join op left depth tokens => exact call_of_join h

/-- Fewer tokens are left for the call, or the same at a tighter level. -/
theorem Call.smaller {t t' : Task} (h : Call limit stop t t') :
    t'.tokens.length < t.tokens.length ∨ t'.tokens = t.tokens ∧ t'.looseness < t.looseness := by
  cases h with
  | @below op => exact .inr ⟨rfl, Level.looseness_below_lt op⟩
  | behind hleft => exact .inl (length_lt_of_readAt limit stop hleft)
  | inside | right => exact .inl (Nat.lt_succ_self _)
  | again hright => exact .inl (Nat.lt_succ_of_lt (length_lt_of_readAt limit stop hright))

theorem Call.weight_lt {t t' : Task} (h : Call limit stop t t') : t'.weight < t.weight := by
  have hle : t'.looseness ≤ 3 := by
    cases t' with
    | read level _ _ => exact level.looseness_le
    | join _ _ _ _ => exact Nat.zero_le 3
  unfold Task.weight
  rcases h.smaller with hlt | ⟨heq, hlt⟩
  · omega
  · rw [heq]
    omega

theorem answerWithin_eq {t : Task} {nested : Nat} (h : t.weight < nested) :
    answerWithin limit stop nested t = some (t.answer limit stop) := by
  induction nested generalizing t with
  | zero => omega
  | succ nested ih =>
    rw [← outcome_course]
    apply Course.outcome_congr
    intro t' hcall
    have hlt := (Task.Calls.call hcall).weight_lt
    exact ih (by omega)

/-! ## What a reader leaves behind -/

/-- Where the reader of a level has found an expression. -/
structure Leaves (stop : Nat) (level : Level) (depth : Nat) (tokens rest : List Token)
    (depth' : Nat) : Prop where
  depth_eq : depth' = depth
  consumes : ∃ front, front ≠ [] ∧ tokens = front ++ rest
  stops : level.StopsAt (current stop rest)

/-- Where nothing more is joined by `op`. Nothing need have been read. -/
structure LeavesJoined (stop : Nat) (op : Operator) (depth : Nat) (tokens rest : List Token)
    (depth' : Nat) : Prop where
  depth_eq : depth' = depth
  suffix : ∃ front, tokens = front ++ rest
  stops : op.below.StopsAt (current stop tokens) → op.level.StopsAt (current stop rest)

def Task.Leaves (stop : Nat) : Task → List Token → Nat → Prop
  | read level depth tokens => Precedence.Leaves stop level depth tokens
  | join op _ depth tokens => LeavesJoined stop op depth tokens

/-- Whatever the call finds, it leaves behind what it should. -/
def Task.Settles (limit stop : Nat) (t : Task) : Prop :=
  ∀ e rest depth', t.answer limit stop = .ok (e, rest, depth') → t.Leaves stop rest depth'

theorem settles_level {op : Operator} {depth : Nat} {tokens : List Token}
    (ih : ∀ t, Call limit stop (.read op.level depth tokens) t → t.Settles limit stop) :
    (Task.read op.level depth tokens).Settles limit stop := by
  intro e rest depth' h
  rw [Task.answer, readAt_level] at h
  obtain ⟨⟨left, middle, depth''⟩, hleft, hjoin⟩ := bind_eq_ok_iff.mp h
  obtain ⟨rfl, ⟨front, hne, rfl⟩, hstops⟩ := ih _ .below left middle depth'' hleft
  obtain ⟨rfl, ⟨front', rfl⟩, hjoined⟩ := ih _ (.behind hleft) e rest depth' hjoin
  refine ⟨rfl, ⟨front ++ front', ?_, (List.append_assoc ..).symm⟩, hjoined hstops⟩
  exact List.append_ne_nil_of_left_ne_nil hne front'

theorem settles_operand {depth : Nat} {tokens : List Token}
    (ih : ∀ t, Call limit stop (.read .operand depth tokens) t → t.Settles limit stop) :
    (Task.read .operand depth tokens).Settles limit stop := by
  intro e rest depth' h
  dsimp only [Task.answer] at h
  rcases tokens with _ | ⟨token, tokens⟩
  · rw [readAt_operand_nil] at h
    cases h
  · rcases hop : token.lexeme.operator? with _ | op
    · obtain ⟨name | _ | _ | _, start⟩ := token
      · rw [readAt_operand_name limit stop depth tokens rfl hop] at h
        cases h
        exact ⟨rfl, ⟨[_], List.cons_ne_nil _ _, rfl⟩, Level.stopsAt_operand _⟩
      · rw [readAt_operand_leftParen limit stop depth tokens rfl] at h
        obtain ⟨_, hroom, hinside⟩ := bind_eq_ok_iff.mp h
        obtain ⟨⟨inner, middle, depth''⟩, hinner, hclose⟩ := bind_eq_ok_iff.mp hinside
        obtain ⟨rfl, ⟨front, -, rfl⟩, -⟩ := ih _ (.inside hroom) inner middle depth'' hinner
        obtain ⟨rparen, rfl, -, -, rfl⟩ := readClose_eq_ok _ hclose
        refine ⟨rfl, ⟨⟨.leftParen, start⟩ :: (front ++ [rparen]), List.cons_ne_nil _ _, ?_⟩,
          Level.stopsAt_operand _⟩
        rw [List.cons_append, List.append_assoc, List.singleton_append]
      · rw [readAt_operand_rightParen limit stop depth tokens rfl] at h
        cases h
      · rw [readAt_operand_endOfInput limit stop depth tokens rfl] at h
        cases h
    · rw [readAt_operand_operator limit stop depth tokens hop] at h
      cases h

/-- Without the operator nothing is joined. -/
theorem leavesJoined_self {op : Operator} {depth : Nat} {tokens : List Token}
    (h : (current stop tokens).lexeme.operator? ≠ some op) :
    LeavesJoined stop op depth tokens tokens depth :=
  ⟨rfl, ⟨[], rfl⟩, fun hbelow => Level.stopsAt_level_of_below hbelow h⟩

theorem settles_join {op : Operator} {left : Expression} {depth : Nat} {tokens : List Token}
    (ih : ∀ t, Call limit stop (.join op left depth tokens) t → t.Settles limit stop) :
    (Task.join op left depth tokens).Settles limit stop := by
  intro e rest depth' h
  dsimp only [Task.answer] at h
  rcases tokens with _ | ⟨token, tokens⟩
  · rw [joinAt_nil] at h
    cases h
    exact leavesJoined_self nofun
  · rw [joinAt_cons] at h
    by_cases hop : token.lexeme.operator? = some op
    · rw [if_pos hop] at h
      obtain ⟨_, hopens, hthen⟩ := bind_eq_ok_iff.mp h
      obtain ⟨⟨right, tokens', depth''⟩, hright, hgo⟩ := bind_eq_ok_iff.mp hthen
      replace hgo : goOn limit stop op (.binary op left right) depth'' tokens' =
        .ok (e, rest, depth') := hgo
      obtain ⟨rfl, ⟨front, -, rfl⟩, hstops⟩ := ih _ (.right hopens) right tokens' depth'' hright
      by_cases hexc : op = .exception
      · subst hexc
        cases hgo
        exact ⟨rfl, ⟨token :: front, rfl⟩, fun _ => Level.stopsAt_attachment _⟩
      · rw [goOn_of_ne limit stop hexc] at hgo
        obtain ⟨rfl, ⟨front', rfl⟩, hjoined⟩ := ih _ (.again hright) e rest depth' hgo
        refine ⟨rfl, ⟨token :: (front ++ front'), ?_⟩, fun _ => hjoined hstops⟩
        rw [List.cons_append, List.append_assoc]
    · rw [if_neg hop] at h
      cases h
      exact leavesJoined_self hop

theorem settles (limit stop : Nat) (t : Task) : t.Settles limit stop := by
  induction hn : t.weight using Nat.strongRecOn generalizing t with
  | ind n ih =>
    subst hn
    -- Each call weighs less, so the one statement about all readers holds of every call that is made.
    replace ih (t' : Task) (h : Call limit stop t t') : t'.Settles limit stop :=
      ih t'.weight h.weight_lt t' rfl
    cases t with
    | read level depth tokens =>
      obtain rfl | ⟨op, rfl⟩ := level.eq_operand_or_level
      · exact settles_operand ih
      · exact settles_level ih
    | join op left depth tokens => exact settles_join ih

theorem leaves_of_readAt {level : Level} {depth depth' : Nat} {tokens rest : List Token}
    {e : Expression} (h : readAt limit stop level depth tokens = .ok (e, rest, depth')) :
    Leaves stop level depth tokens rest depth' :=
  settles limit stop (.read level depth tokens) e rest depth' h

/-! ## The number of open groups -/

/-- Only the content of a group is read with another count, one higher, and only below the limit. -/
theorem Call.depth_eq {t t' : Task} (h : Call limit stop t t') :
    t'.depth = t.depth ∨ t'.depth = t.depth + 1 ∧ t.depth < limit := by
  cases h with
  | below | right => exact .inl rfl
  | behind hleft => exact .inl (leaves_of_readAt hleft).depth_eq
  | inside hroom => exact .inr ⟨rfl, lt_of_requireGroup limit hroom⟩
  | again hright => exact .inl (leaves_of_readAt hright).depth_eq

theorem depth_le_of_calls {t t' : Task} (h : Relation.ReflTransGen (Task.Calls limit stop) t t') :
    t'.depth ≤ max t.depth limit := by
  induction h with
  | refl => exact Nat.le_max_left _ _
  | tail _ hcall ih =>
    have := hcall.call.depth_eq
    omega

/-! ## The end of the input -/

theorem ne_endOfInput_of_requireOperand {op : Operator} {token : Token}
    (h : requireOperand op token = .ok ()) : token.lexeme ≠ .endOfInput := by
  intro hend
  rw [requireOperand_of_not_opens op (by rw [hend]; exact id)] at h
  cases h

theorem ne_endOfInput_of_requireGroup {depth start : Nat} {token : Token}
    (h : requireGroup limit depth start token = .ok ()) : token.lexeme ≠ .endOfInput := by
  intro hend
  rw [requireGroup_endOfInput limit (lt_of_requireGroup limit h) start hend] at h
  cases h

/-- An expression may be there to be read. -/
def Task.BeforeEnd (stop : Nat) : Task → Prop
  | read _ _ tokens => (current stop tokens).lexeme ≠ .endOfInput
  | join _ _ _ _ => True

theorem Call.beforeEnd {t t' : Task} (h : Call limit stop t t') (ht : t.BeforeEnd stop) :
    t'.BeforeEnd stop := by
  cases h with
  | below => exact ht
  | behind _ | again _ => trivial
  | inside hroom => exact ne_endOfInput_of_requireGroup hroom
  | right hopens => exact ne_endOfInput_of_requireOperand hopens

theorem beforeEnd_of_calls {t t' : Task} (h : Relation.ReflTransGen (Task.Calls limit stop) t t')
    (ht : t.BeforeEnd stop) : t'.BeforeEnd stop := by
  induction h with
  | refl => exact ht
  | tail _ hcall ih => exact hcall.call.beforeEnd ih

/-- The call is made while the tokens of a whole text are read. -/
def MadeIn (limit stop : Nat) (tokens : List Token) (t : Task) : Prop :=
  (current stop tokens).lexeme ≠ .endOfInput ∧
    Relation.ReflTransGen (Task.Calls limit stop) (.read .disjunction 0 tokens) t

theorem readTokens_eq (limit stop : Nat) (tokens : List Token) :
    readTokens limit stop tokens =
      if (current stop tokens).lexeme = .endOfInput then
        .error (.emptyExpression (current stop tokens).start)
      else (Task.read .disjunction 0 tokens).answer limit stop >>= fun (e, rest, _) =>
        requireEnd (current stop rest) >>= fun _ => .ok e := by
  rw [readTokens]
  by_cases hend : (current stop tokens).lexeme = .endOfInput
  · rw [if_pos hend, if_pos hend]
  · rw [if_neg hend, if_neg hend]
    dsimp only [Task.answer, readAt]
    rcases disjunction limit stop 0 tokens with error | ⟨e, rest, depth, hlt⟩ <;> rfl

/-- A reader that finds an expression has used tokens up, leaves the count of open groups as it was
and stops where none of its chains goes on. Its calls are on fewer tokens or at a tighter level, so
recursion along the courses ends; the count stays within the limit and is above zero where a group
closes, and no reader of a text is called at the end. -/
theorem readers_end_and_keep_count (limit stop : Nat) :
    (∀ level depth tokens e rest depth',
      readAt limit stop level depth tokens = .ok (e, rest, depth') →
        Leaves stop level depth tokens rest depth') ∧
    (∀ t t' : Task, t.Calls limit stop t' →
      (t'.tokens.length < t.tokens.length ∨ t'.tokens = t.tokens ∧ t'.looseness < t.looseness) ∧
      (t'.depth = t.depth ∨ t'.depth = t.depth + 1 ∧ t.depth < limit)) ∧
    (∀ t : Task, answerWithin limit stop (t.weight + 1) t = some (t.answer limit stop)) ∧
    (∀ t t' : Task, Relation.ReflTransGen (Task.Calls limit stop) t t' →
      t'.depth ≤ max t.depth limit) ∧
    (∀ depth tokens inner rest depth',
      readAt limit stop .disjunction (depth + 1) tokens = .ok (inner, rest, depth') → 0 < depth') ∧
    (∀ tokens, readTokens limit stop tokens =
      if (current stop tokens).lexeme = .endOfInput then
        .error (.emptyExpression (current stop tokens).start)
      else (Task.read .disjunction 0 tokens).answer limit stop >>= fun (e, rest, _) =>
        requireEnd (current stop rest) >>= fun _ => .ok e) ∧
    (∀ tokens level depth tokens', MadeIn limit stop tokens (.read level depth tokens') →
      depth ≤ limit ∧ (current stop tokens').lexeme ≠ .endOfInput) := by
  refine ⟨fun _ _ _ _ _ _ => leaves_of_readAt, fun t t' h => ⟨h.call.smaller, h.call.depth_eq⟩,
    fun t => answerWithin_eq (Nat.lt_succ_self _), fun t t' => depth_le_of_calls, ?_,
    readTokens_eq limit stop, ?_⟩
  · intro depth tokens inner rest depth' h
    have := (leaves_of_readAt h).depth_eq
    omega
  · rintro tokens level depth tokens' ⟨hfirst, hcalls⟩
    have hdepth : depth ≤ max 0 limit := depth_le_of_calls hcalls
    have hend : (Task.read level depth tokens').BeforeEnd stop := beforeEnd_of_calls hcalls hfirst
    exact ⟨by omega, hend⟩

end LicenseExpr.Precedence
