import LicenseExpr.Precedence
import LicenseExpr.Proofs.Except
import LicenseExpr.Proofs.Grammar

/-!
# The readers by level

`readAt` gives what the reader of a level finds, without the bound on the tokens that are left,
and `joinAt` what goes on behind an operand. The readers of `OR`, of `AND` and of `WITH` follow one
equation (`readAt_level`): read at the level below, then join.
-/

namespace LicenseExpr

def Operator.level : Operator → Precedence.Level
  | or => .disjunction
  | and => .conjunction
  | exception => .attachment

/-- The level of its right operand. -/
def Operator.below : Operator → Precedence.Level
  | or => .conjunction
  | and => .attachment
  | exception => .operand

namespace Precedence

/-- An expression, the tokens behind it and the number of groups that are open there. -/
abbrev Answer := Except SyntaxError (Expression × List Token × Nat)

def Parsed.answer {tokens : List Token} (p : Parsed tokens) : Expression × List Token × Nat :=
  (p.expression, p.rest, p.depth)

def Extended.answer {tokens : List Token} (p : Extended tokens) : Expression × List Token × Nat :=
  (p.expression, p.rest, p.depth)

variable (limit stop : Nat)

def readAt (level : Level) (depth : Nat) (tokens : List Token) : Answer :=
  match level with
  | .disjunction => (Precedence.disjunction limit stop depth tokens).map Parsed.answer
  | .conjunction => (Precedence.conjunction limit stop depth tokens).map Parsed.answer
  | .attachment => (Precedence.attachment limit stop depth tokens).map Parsed.answer
  | .operand => (Precedence.operand limit stop depth tokens).map Parsed.answer

/-- Joins what follows `op` to what stands left of it. -/
def joinAt (op : Operator) (left : Expression) (depth : Nat) (tokens : List Token) : Answer :=
  match op, tokens with
  | .or, tokens => (disjunctionFrom limit stop left depth tokens).map Extended.answer
  | .and, tokens => (conjunctionFrom limit stop left depth tokens).map Extended.answer
  | .exception, [] => .ok (left, [], depth)
  | .exception, token :: rest =>
    if token.lexeme.operator? = some .exception then do
      requireOperand .exception (current stop rest)
      let (right, rest, depth) ← readAt limit stop .operand depth rest
      return (.binary .exception left right, rest, depth)
    else .ok (left, token :: rest, depth)

/-- `AND` and `OR` go on behind their right operand, `WITH` does not. -/
def goOn (op : Operator) (e : Expression) (depth : Nat) (tokens : List Token) : Answer :=
  match op with
  | .exception => .ok (e, tokens, depth)
  | .and | .or => joinAt limit stop op e depth tokens

theorem goOn_of_ne {op : Operator} (h : op ≠ .exception) (e : Expression) (depth : Nat)
    (tokens : List Token) : goOn limit stop op e depth tokens = joinAt limit stop op e depth tokens := by
  cases op with
  | or | and => rfl
  | exception => exact absurd rfl h

theorem readAt_level (op : Operator) (depth : Nat) (tokens : List Token) :
    readAt limit stop op.level depth tokens =
      readAt limit stop op.below depth tokens >>= fun (left, rest, depth) =>
        joinAt limit stop op left depth rest := by
  cases op with
  | or =>
    simp only [readAt, Operator.level, Operator.below, joinAt]
    rw [disjunction]
    rcases conjunction limit stop depth tokens with error | ⟨left, rest, depth', hlt⟩
    · rfl
    · dsimp only [Except.map, bind, Except.bind, Parsed.answer]
      rcases disjunctionFrom limit stop left depth' rest with error | ⟨e, rest, depth, hle⟩ <;> rfl
  | and =>
    simp only [readAt, Operator.level, Operator.below, joinAt]
    rw [conjunction]
    rcases attachment limit stop depth tokens with error | ⟨left, rest, depth', hlt⟩
    · rfl
    · dsimp only [Except.map, bind, Except.bind, Parsed.answer]
      rcases conjunctionFrom limit stop left depth' rest with error | ⟨e, rest, depth, hle⟩ <;> rfl
  | exception =>
    simp only [readAt, Operator.level, Operator.below]
    rw [attachment]
    rcases operand limit stop depth tokens with error | ⟨license, rest, depth', hlt⟩
    · rfl
    · rcases rest with _ | ⟨token, rest⟩
      · rfl
      · dsimp only [Except.map, bind, Except.bind, Parsed.answer, joinAt, readAt]
        by_cases hop : token.lexeme.operator? = some .exception
        · simp only [hop, if_true]
          rcases requireOperand .exception (current stop rest) with error | _
          · rfl
          · rcases operand limit stop depth' rest with error | ⟨e, rest, depth, hlt'⟩ <;> rfl
        · simp only [hop, if_false]

/-- What holds of a level behind the level below it, and of operands behind what is shorter, holds of
every level: the readers call each other in this order. -/
theorem forall_levels {P : Level → List Token → Prop}
    (operand : ∀ tokens, (∀ rest : List Token, rest.length < tokens.length → P .disjunction rest) →
      P .operand tokens)
    (above : ∀ (op : Operator) tokens, P op.below tokens →
      (∀ rest : List Token, rest.length < tokens.length → P op.below rest) → P op.level tokens)
    (level : Level) (tokens : List Token) : P level tokens := by
  induction hn : tokens.length using Nat.strongRecOn generalizing level tokens with
  | ind n ih =>
    subst hn
    have ih (level : Level) (rest : List Token) (hlt : rest.length < tokens.length) :
        P level rest := ih rest.length hlt level rest rfl
    have hoperand : P .operand tokens := operand tokens (ih .disjunction)
    have hattachment : P .attachment tokens := above .exception tokens hoperand (ih .operand)
    have hconjunction : P .conjunction tokens := above .and tokens hattachment (ih .attachment)
    have hdisjunction : P .disjunction tokens := above .or tokens hconjunction (ih .conjunction)
    cases level with
    | disjunction => exact hdisjunction
    | conjunction => exact hconjunction
    | attachment => exact hattachment
    | operand => exact hoperand

theorem joinAt_nil (op : Operator) (left : Expression) (depth : Nat) :
    joinAt limit stop op left depth [] = .ok (left, [], depth) := by
  cases op with
  | or => rw [joinAt, disjunctionFrom]; rfl
  | and => rw [joinAt, conjunctionFrom]; rfl
  | exception => rfl

theorem joinAt_cons (op : Operator) (left : Expression) (depth : Nat) (token : Token)
    (rest : List Token) :
    joinAt limit stop op left depth (token :: rest) =
      if token.lexeme.operator? = some op then do
        requireOperand op (current stop rest)
        let (right, rest, depth) ← readAt limit stop op.below depth rest
        goOn limit stop op (.binary op left right) depth rest
      else .ok (left, token :: rest, depth) := by
  cases op with
  | or =>
    rw [joinAt, disjunctionFrom]
    split
    · rcases requireOperand .or (current stop rest) with error | _
      · rfl
      · dsimp only [readAt, Operator.below, Except.map, bind, Except.bind, goOn, joinAt]
        rcases conjunction limit stop depth rest with error | ⟨right, rest, depth', hlt⟩
        · rfl
        · dsimp only [Parsed.answer]
          rcases disjunctionFrom limit stop (.binary .or left right) depth' rest with error | _ <;> rfl
    · rfl
  | and =>
    rw [joinAt, conjunctionFrom]
    split
    · rcases requireOperand .and (current stop rest) with error | _
      · rfl
      · dsimp only [readAt, Operator.below, Except.map, bind, Except.bind, goOn, joinAt]
        rcases attachment limit stop depth rest with error | ⟨right, rest, depth', hlt⟩
        · rfl
        · dsimp only [Parsed.answer]
          rcases conjunctionFrom limit stop (.binary .and left right) depth' rest with error | _ <;> rfl
    · rfl
  | exception => rfl

/-! ## Operands -/

def readClose (start : Nat) (inner : Expression) (depth : Nat) (tokens : List Token) : Answer :=
  (closeGroup start inner depth tokens).map Parsed.answer

section Operand

variable {token : Token} (depth : Nat) (rest : List Token)

theorem readAt_operand_nil :
    readAt limit stop .operand depth [] = .error (.emptyExpression stop) := by
  rw [readAt, operand]; rfl

theorem readAt_operand_operator {op : Operator} (h : token.lexeme.operator? = some op) :
    readAt limit stop .operand depth (token :: rest) =
      .error (.missingOperand token.start op) := by
  rw [readAt, operand]
  simp only [h]
  rfl

theorem readAt_operand_name {name : String} (hword : token.lexeme = .word name)
    (hname : Operator.ofWord? name = none) :
    readAt limit stop .operand depth (token :: rest) = .ok (.identifier name, rest, depth) := by
  obtain ⟨lexeme, start⟩ := token
  cases hword
  rw [readAt, operand]
  simp only [Lexeme.operator?, hname]
  rfl

theorem readAt_operand_rightParen (h : token.lexeme = .rightParen) :
    readAt limit stop .operand depth (token :: rest) =
      .error (.unmatchedParenthesis token.start) := by
  rw [readAt, operand]
  simp only [h, Lexeme.operator?]
  rfl

theorem readAt_operand_endOfInput (h : token.lexeme = .endOfInput) :
    readAt limit stop .operand depth (token :: rest) = .error (.emptyExpression token.start) := by
  rw [readAt, operand]
  simp only [h, Lexeme.operator?]
  rfl

theorem readAt_operand_leftParen (h : token.lexeme = .leftParen) :
    readAt limit stop .operand depth (token :: rest) =
      requireGroup limit depth token.start (current stop rest) >>= fun _ =>
        readAt limit stop .disjunction (depth + 1) rest >>= fun (inner, rest, depth) =>
          readClose token.start inner depth rest := by
  show (operand limit stop depth (token :: rest)).map Parsed.answer = _
  rw [operand]
  simp only [h, Lexeme.operator?]
  rcases requireGroup limit depth token.start (current stop rest) with error | _
  · rfl
  · dsimp only [readAt, Except.map, bind, Except.bind, Parsed.answer, readClose]
    rcases disjunction limit stop (depth + 1) rest with error | ⟨inner, rest, depth', hlt⟩
    · rfl
    · dsimp only
      rcases closeGroup token.start inner depth' rest with error | _ <;> rfl

theorem readClose_nil (start : Nat) (inner : Expression) :
    readClose start inner depth [] = .error (.unmatchedParenthesis start) := rfl

theorem readClose_rightParen (start : Nat) (inner : Expression) (h : token.lexeme = .rightParen) :
    readClose start inner depth (token :: rest) = .ok (.group inner, rest, depth - 1) := by
  obtain ⟨lexeme, start⟩ := token
  cases h
  rfl

theorem readClose_ne (start : Nat) (inner : Expression) (hclose : token.lexeme ≠ .rightParen)
    (hend : token.lexeme ≠ .endOfInput) :
    readClose start inner depth (token :: rest) =
      .error (.unexpectedToken token.start token.lexeme) := by
  obtain ⟨_ | _ | _ | _, start⟩ := token
  · rfl
  · rfl
  · exact absurd rfl hclose
  · exact absurd rfl hend

theorem readClose_eq_ok {start depth' : Nat} {inner e : Expression} {tokens rest : List Token}
    (h : readClose start inner depth tokens = .ok (e, rest, depth')) :
    ∃ token, tokens = token :: rest ∧ token.lexeme = .rightParen ∧ e = .group inner ∧
      depth' = depth - 1 := by
  rcases tokens with _ | ⟨⟨_ | _ | _ | _, byte⟩, tokens⟩ <;> cases h
  exact ⟨_, rfl, rfl, rfl, rfl⟩

end Operand

/-! ## What must stand at a token -/

theorem requireOperand_of_opens (op : Operator) {token : Token} (h : token.lexeme.OpensOperand) :
    requireOperand op token = .ok () := by
  obtain ⟨text | _ | _ | _, start⟩ := token
  · have htext : Operator.ofWord? text = none := h
    simp [requireOperand, htext]
  · rfl
  · exact h.elim
  · exact h.elim

theorem requireOperand_of_not_opens (op : Operator) {token : Token}
    (h : ¬ token.lexeme.OpensOperand) :
    requireOperand op token = .error (.missingOperand token.start op) := by
  obtain ⟨text | _ | _ | _, start⟩ := token
  · have htext : Operator.ofWord? text ≠ none := h
    simp [requireOperand, Option.isSome_iff_ne_none, htext]
  · exact absurd trivial h
  · rfl
  · rfl

theorem joinAt_of_opens {op : Operator} {token : Token} {rest : List Token}
    (hop : token.lexeme.operator? = some op) (hopens : (current stop rest).lexeme.OpensOperand)
    (left : Expression) (depth : Nat) :
    joinAt limit stop op left depth (token :: rest) =
      readAt limit stop op.below depth rest >>= fun (right, rest, depth) =>
        goOn limit stop op (.binary op left right) depth rest := by
  rw [joinAt_cons, if_pos hop, requireOperand_of_opens op hopens]
  rfl

theorem joinAt_of_not_opens {op : Operator} {token : Token} {rest : List Token}
    (hop : token.lexeme.operator? = some op) (hopens : ¬ (current stop rest).lexeme.OpensOperand)
    (left : Expression) (depth : Nat) :
    joinAt limit stop op left depth (token :: rest) =
      .error (.missingOperand (current stop rest).start op) := by
  rw [joinAt_cons, if_pos hop, requireOperand_of_not_opens op hopens]
  rfl

theorem requireGroup_of_le {depth : Nat} (h : limit ≤ depth) (start : Nat) (token : Token) :
    requireGroup limit depth start token = .error (.nestingTooDeep start limit) :=
  if_pos h

theorem lt_of_requireGroup {depth start : Nat} {token : Token}
    (h : requireGroup limit depth start token = .ok ()) : depth < limit := by
  refine Nat.lt_of_not_le fun hle => ?_
  rw [requireGroup_of_le limit hle] at h
  cases h

theorem requireGroup_of_lt {depth : Nat} (h : depth < limit) (start : Nat) {token : Token}
    (hclose : token.lexeme ≠ .rightParen) (hend : token.lexeme ≠ .endOfInput) :
    requireGroup limit depth start token = .ok () := by
  rw [requireGroup, if_neg (Nat.not_le.mpr h)]
  obtain ⟨_ | _ | _ | _, _⟩ := token
  · rfl
  · rfl
  · exact absurd rfl hclose
  · exact absurd rfl hend

theorem requireGroup_rightParen {depth : Nat} (h : depth < limit) (start : Nat) {token : Token}
    (hclose : token.lexeme = .rightParen) :
    requireGroup limit depth start token = .error (.emptyGroup start) := by
  rw [requireGroup, if_neg (Nat.not_le.mpr h), hclose]

theorem requireGroup_endOfInput {depth : Nat} (h : depth < limit) (start : Nat) {token : Token}
    (hend : token.lexeme = .endOfInput) :
    requireGroup limit depth start token = .error (.unmatchedParenthesis start) := by
  rw [requireGroup, if_neg (Nat.not_le.mpr h), hend]

theorem requireEnd_of_ne {token : Token} (hparen : token.lexeme ≠ .rightParen)
    (hend : token.lexeme ≠ .endOfInput) :
    requireEnd token = .error (.unexpectedToken token.start token.lexeme) := by
  obtain ⟨_ | _ | _ | _, start⟩ := token
  · rfl
  · rfl
  · exact absurd rfl hparen
  · exact absurd rfl hend

/-! ## Progress -/

theorem length_lt_of_readAt {level : Level} {depth depth' : Nat} {tokens rest : List Token}
    {e : Expression} (h : readAt limit stop level depth tokens = .ok (e, rest, depth')) :
    rest.length < tokens.length := by
  have hlt {r : Except SyntaxError (Parsed tokens)}
      (hr : r.map Parsed.answer = .ok (e, rest, depth')) : rest.length < tokens.length := by
    rcases r with error | p
    · cases hr
    · cases hr
      exact p.length_rest_lt
  cases level with
  | disjunction | conjunction | attachment | operand => exact hlt h

end Precedence

end LicenseExpr
