import LicenseExpr.Proofs.Scan

/-!
# Chains of `WITH`

A `WITH` chains if it stands directly behind another `WITH` and its operand. `Stands` says what
symbols a scan has behind it in each of its states, so the mark that a scan keeps of an attached
operand can be read off the symbols: it is set exactly where a `WITH` would chain
(`after_of_advance`, `Stands.exists_chain`).
-/

namespace LicenseExpr

/-! ## Symbols -/

/-- Every parenthesis among the symbols has its partner there. -/
inductive Matched : List Symbol → Prop where
  | nil : Matched []
  | symbol {x : Symbol} : x ≠ .leftParen → x ≠ .rightParen → Matched [x]
  | append {ss ss' : List Symbol} : Matched ss → Matched ss' → Matched (ss ++ ss')
  | group {ss : List Symbol} : Matched ss → Matched (.leftParen :: (ss ++ [.rightParen]))

/-- A name, or a parenthesis and all up to its partner. -/
inductive OperandText : List Symbol → Prop where
  | name (text : String) : OperandText [.name text]
  | group {ss : List Symbol} : Matched ss → OperandText (.leftParen :: (ss ++ [.rightParen]))

theorem OperandText.matched {ss : List Symbol} (h : OperandText ss) : Matched ss := by
  cases h with
  | name text => exact .symbol nofun nofun
  | group h => exact .group h

/-- The symbol at `k` is a `WITH` directly behind another `WITH` and its operand. -/
def ChainsAt (ss : List Symbol) (k : Nat) : Prop :=
  ss[k]? = some (.operator .exception) ∧
    ∃ pre operand, OperandText operand ∧ ss.take k = pre ++ .operator .exception :: operand

theorem ChainsAt.exists_append {ss : List Symbol} {k : Nat} (h : ChainsAt ss k) :
    ∃ pre operand rest, OperandText operand ∧
      ss = (pre ++ .operator .exception :: operand) ++ .operator .exception :: rest := by
  obtain ⟨hsymbol, pre, operand, hoperand, hpre⟩ := h
  obtain ⟨hlt, hget⟩ := List.getElem?_eq_some_iff.mp hsymbol
  refine ⟨pre, operand, ss.drop (k + 1), hoperand, ?_⟩
  rw [← hpre, ← hget, ← List.drop_eq_getElem_cons hlt, List.take_append_drop]

theorem chainsAt_append_iff {ss ss' : List Symbol} {k : Nat} (hk : k < ss.length) :
    ChainsAt (ss ++ ss') k ↔ ChainsAt ss k := by
  unfold ChainsAt
  rw [List.getElem?_append_left hk, List.take_append_of_le_length (Nat.le_of_lt hk)]

namespace Scan

variable {manner : Manner} {limit : Nat} {s s' : State} {token : Token} {tokens : List Token}

/-! ## From symbols to the mark -/

theorem opened_of_step {x : Symbol} (hx : token.lexeme.symbol? = some x) (hleft : x ≠ .leftParen)
    (hright : x ≠ .rightParen) (h : s.step manner limit token = .ok s') : s'.opened = s.opened := by
  cases x with
  | name text =>
    obtain ⟨hword, htext⟩ := Lexeme.symbol?_eq_name_iff.mp hx
    rw [step_name hword htext, State.name] at h
    split at h <;> cases h <;> rfl
  | operator op =>
    rw [step_operator (Lexeme.symbol?_eq_operator_iff.mp hx), State.join] at h
    repeat' split at h
    all_goals cases h
    rfl
  | leftParen => exact absurd rfl hleft
  | rightParen => exact absurd rfl hright

theorem exists_of_openGroup (hparen : token.lexeme = .leftParen)
    (h : s.step manner limit token = .ok s') :
    s.place.Awaits ∧ s' = ⟨.opening, ⟨token.start, s.place.attaches⟩ :: s.opened⟩ := by
  rw [step_leftParen hparen, State.openGroup] at h
  obtain ⟨place, opened⟩ := s
  cases place with
  | opening | behind op =>
    dsimp only at h
    split at h <;> cases h
    exact ⟨trivial, rfl⟩
  | after attached => cases h

theorem exists_of_closeGroup (hparen : token.lexeme = .rightParen)
    (h : s.step manner limit token = .ok s') :
    ∃ attached group, s = ⟨.after attached, group :: s'.opened⟩ ∧ s'.place = .after group.attached := by
  rw [step_rightParen hparen, State.closeGroup] at h
  obtain ⟨_ | op | attached, _ | ⟨group, opened⟩⟩ := s <;> cases h
  exact ⟨attached, group, rfl, rfl⟩

theorem opened_of_advance {ss : List Symbol} (hss : Matched ss) (htokens : Spells tokens ss)
    (h : s.advance manner limit tokens = .ok s') : s'.opened = s.opened := by
  induction hss generalizing s s' tokens with
  | nil =>
    cases Spells.nil_iff.mp htokens
    cases h
    rfl
  | symbol hleft hright =>
    obtain ⟨token, _, hx, hnil, rfl⟩ := Spells.cons_iff.mp htokens
    cases Spells.nil_iff.mp hnil
    obtain ⟨middle, hstep, hdone⟩ := advance_cons_eq_ok_iff.mp h
    cases hdone
    exact opened_of_step hx hleft hright hstep
  | append _ _ ih ih' =>
    obtain ⟨front, back, hfront, hback, rfl⟩ := Spells.append_iff.mp htokens
    obtain ⟨middle, hmiddle, h⟩ := advance_append_eq_ok_iff.mp h
    exact (ih' hback h).trans (ih hfront hmiddle)
  | group _ ih =>
    obtain ⟨lparen, _, hlparen, hgroup, rfl⟩ := Spells.cons_iff.mp htokens
    obtain ⟨inner, _, hinner, hclose, rfl⟩ := Spells.append_iff.mp hgroup
    obtain ⟨rparen, _, hrparen, hnil, rfl⟩ := Spells.cons_iff.mp hclose
    cases Spells.nil_iff.mp hnil
    obtain ⟨opening, hopen, h⟩ := advance_cons_eq_ok_iff.mp h
    obtain ⟨closing, hinside, h⟩ := advance_append_eq_ok_iff.mp h
    obtain ⟨_, hstep, hdone⟩ := advance_cons_eq_ok_iff.mp h
    cases hdone
    obtain ⟨-, rfl⟩ := exists_of_openGroup (Lexeme.symbol?_eq_leftParen_iff.mp hlparen) hopen
    obtain ⟨attached, group, rfl, -⟩ :=
      exists_of_closeGroup (Lexeme.symbol?_eq_rightParen_iff.mp hrparen) hstep
    exact (List.cons.inj (ih hinner hinside)).2

theorem place_of_step_operator {op : Operator} (hop : token.lexeme.operator? = some op)
    (h : s.step manner limit token = .ok s') : s'.place = .behind op := by
  rw [step_operator hop, State.join] at h
  repeat' split at h
  all_goals cases h
  rfl

theorem place_of_operandText {ss : List Symbol} (hss : OperandText ss) (htokens : Spells tokens ss)
    (h : s.advance manner limit tokens = .ok s') : s'.place = .after s.place.attaches := by
  cases hss with
  | name text =>
    obtain ⟨token, _, hname, hnil, rfl⟩ := Spells.cons_iff.mp htokens
    obtain ⟨hword, htext⟩ := Lexeme.symbol?_eq_name_iff.mp hname
    cases Spells.nil_iff.mp hnil
    obtain ⟨middle, hstep, hdone⟩ := advance_cons_eq_ok_iff.mp h
    cases hdone
    rw [step_name hword htext, State.name] at hstep
    split at hstep <;> cases hstep <;> rfl
  | group hss =>
    obtain ⟨lparen, _, hlparen, hgroup, rfl⟩ := Spells.cons_iff.mp htokens
    obtain ⟨inner, _, hinner, hclose, rfl⟩ := Spells.append_iff.mp hgroup
    obtain ⟨rparen, _, hrparen, hnil, rfl⟩ := Spells.cons_iff.mp hclose
    cases Spells.nil_iff.mp hnil
    obtain ⟨opening, hopen, h⟩ := advance_cons_eq_ok_iff.mp h
    obtain ⟨closing, hinside, h⟩ := advance_append_eq_ok_iff.mp h
    obtain ⟨_, hstep, hdone⟩ := advance_cons_eq_ok_iff.mp h
    cases hdone
    obtain ⟨-, rfl⟩ := exists_of_openGroup (Lexeme.symbol?_eq_leftParen_iff.mp hlparen) hopen
    obtain ⟨attached, group, rfl, hplace⟩ :=
      exists_of_closeGroup (Lexeme.symbol?_eq_rightParen_iff.mp hrparen) hstep
    have hgroup := (List.cons.inj (opened_of_advance hss hinner hinside)).1
    rw [hplace, hgroup]

theorem after_of_advance {pre operand : List Symbol} (hoperand : OperandText operand)
    (htokens : Spells tokens (pre ++ .operator .exception :: operand))
    (h : s.advance manner limit tokens = .ok s') : s'.place = .after true := by
  obtain ⟨front, _, hfront, hattached, rfl⟩ := Spells.append_iff.mp htokens
  obtain ⟨token, back, hop, hback, rfl⟩ := Spells.cons_iff.mp hattached
  obtain ⟨before, -, h⟩ := advance_append_eq_ok_iff.mp h
  obtain ⟨behind, hstep, h⟩ := advance_cons_eq_ok_iff.mp h
  have hbehind := place_of_step_operator (Lexeme.symbol?_eq_operator_iff.mp hop) hstep
  rw [place_of_operandText hoperand hback h, hbehind]
  rfl

/-! ## From the mark to symbols -/

/-- What a scan has read when it is in a state. -/
inductive Stands : List Symbol → State → Prop where
  | start : Stands [] .start
  | operator {ss : List Symbol} {attached : Bool} {opened : List Opened} (op : Operator) :
      Stands ss ⟨.after attached, opened⟩ → Stands (ss ++ [.operator op]) ⟨.behind op, opened⟩
  | openGroup {ss : List Symbol} {place : Place} {opened : List Opened} (start : Nat) :
      place.Awaits → Stands ss ⟨place, opened⟩ →
      Stands (ss ++ [.leftParen]) ⟨.opening, ⟨start, place.attaches⟩ :: opened⟩
  | operand {ss operand : List Symbol} {place : Place} {opened : List Opened} :
      place.Awaits → OperandText operand → Stands ss ⟨place, opened⟩ →
      Stands (ss ++ operand) ⟨.after place.attaches, opened⟩

theorem Stands.exists_group {ss : List Symbol} {place : Place} {group : Opened}
    {opened : List Opened} (h : Stands ss ⟨place, group :: opened⟩) :
    ∃ pre inner outer, ss = pre ++ .leftParen :: inner ∧ Matched inner ∧ outer.Awaits ∧
      outer.attaches = group.attached ∧ Stands pre ⟨outer, opened⟩ := by
  generalize hs : State.mk place (group :: opened) = s at h
  induction h generalizing place with
  | start => cases hs
  | operator op _ ih =>
    cases hs
    obtain ⟨pre, inner, outer, rfl, hinner, hrest⟩ := ih rfl
    exact ⟨pre, inner ++ [.operator op], outer, by simp,
      hinner.append (.symbol nofun nofun), hrest⟩
  | openGroup start hplace hstands _ =>
    cases hs
    exact ⟨_, [], _, rfl, .nil, hplace, rfl, hstands⟩
  | operand _ hoperand _ ih =>
    cases hs
    obtain ⟨pre, inner, outer, rfl, hinner, hrest⟩ := ih rfl
    exact ⟨pre, inner ++ _, outer, by simp, hinner.append hoperand.matched, hrest⟩

theorem stands_of_step {ss : List Symbol} {x : Symbol} (hs : Stands ss s)
    (hx : token.lexeme.symbol? = some x) (h : s.step manner limit token = .ok s') :
    Stands (ss ++ [x]) s' := by
  cases x with
  | name text =>
    obtain ⟨hword, htext⟩ := Lexeme.symbol?_eq_name_iff.mp hx
    obtain ⟨place, opened⟩ := s
    rw [step_name hword htext, State.name] at h
    cases place with
    | opening | behind op => cases h; exact .operand trivial (.name text) hs
    | after attached => cases h
  | operator op =>
    have hop := Lexeme.symbol?_eq_operator_iff.mp hx
    have hplace := place_of_step_operator hop h
    have hopened := opened_of_step hx (by simp) (by simp) h
    obtain ⟨place, opened⟩ := s
    obtain ⟨place', opened'⟩ := s'
    cases hplace
    cases hopened
    cases place with
    | after attached => exact .operator op hs
    | opening | behind op' =>
      rw [step_operator hop] at h
      cases manner <;> cases h
  | leftParen =>
    obtain ⟨hplace, rfl⟩ := exists_of_openGroup (Lexeme.symbol?_eq_leftParen_iff.mp hx) h
    exact .openGroup token.start hplace hs
  | rightParen =>
    obtain ⟨attached, group, rfl, hplace⟩ :=
      exists_of_closeGroup (Lexeme.symbol?_eq_rightParen_iff.mp hx) h
    obtain ⟨pre, inner, outer, rfl, hinner, hawaits, hattaches, hstands⟩ := hs.exists_group
    obtain ⟨place', opened'⟩ := s'
    cases hplace
    rw [← hattaches, List.append_assoc]
    exact .operand hawaits (.group hinner) hstands

theorem stands_of_advance {ss ss' : List Symbol} (hs : Stands ss s) (htokens : Spells tokens ss')
    (h : s.advance manner limit tokens = .ok s') : Stands (ss ++ ss') s' := by
  induction htokens generalizing ss s with
  | nil =>
    cases h
    rwa [List.append_nil]
  | cons hx _ ih =>
    obtain ⟨middle, hstep, h⟩ := advance_cons_eq_ok_iff.mp h
    have hstands := ih (stands_of_step hs hx hstep) h
    rwa [List.append_assoc] at hstands

theorem Stands.exists_operand {ss : List Symbol} {attached : Bool} {opened : List Opened}
    (h : Stands ss ⟨.after attached, opened⟩) :
    ∃ before operand place, ss = before ++ operand ∧ OperandText operand ∧
      Place.attaches place = attached ∧ Stands before ⟨place, opened⟩ := by
  generalize hs : State.mk (.after attached) opened = s at h
  cases h with
  | operand hplace hoperand hbefore =>
    cases hs
    exact ⟨_, _, _, rfl, hoperand, rfl, hbefore⟩
  | start | operator | openGroup => cases hs

theorem Stands.exists_operator {ss : List Symbol} {op : Operator} {opened : List Opened}
    (h : Stands ss ⟨.behind op, opened⟩) :
    ∃ before attached, ss = before ++ [.operator op] ∧ Stands before ⟨.after attached, opened⟩ := by
  generalize hs : State.mk (.behind op) opened = s at h
  cases h with
  | operator _ hbefore =>
    cases hs
    exact ⟨_, _, rfl, hbefore⟩
  | start | openGroup | operand => cases hs

/-- An attached operand stands behind `WITH`, and that behind a license. -/
theorem Stands.exists_chain {ss : List Symbol} {opened : List Opened}
    (h : Stands ss ⟨.after true, opened⟩) :
    ∃ pre license exception, OperandText license ∧ OperandText exception ∧
      ss = pre ++ (license ++ .operator .exception :: exception) := by
  obtain ⟨before, exception, place, rfl, hexception, hattaches, hbefore⟩ := h.exists_operand
  obtain rfl : place = .behind .exception := by
    rcases place with _ | op | attached
    · cases hattaches
    · rw [Place.attaches_behind_iff.mp hattaches]
    · cases hattaches
  obtain ⟨before, attached, rfl, hlicense⟩ := hbefore.exists_operator
  obtain ⟨pre, license, -, rfl, hlicense, -, -⟩ := hlicense.exists_operand
  exact ⟨pre, license, exception, hlicense, hexception, by simp⟩

end Scan

end LicenseExpr
