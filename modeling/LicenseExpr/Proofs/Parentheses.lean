import LicenseExpr.Proofs.Spelling

/-!
# Open parentheses

A survey goes over tokens from left to right, counts the groups that are open, and stops at the
first `)` that finds none open. It says how many groups are open before each token that it passes
and behind all of them. What reading does about parentheses is told in terms of it.
-/

namespace LicenseExpr

/-- A word that is not reserved. -/
def Lexeme.IsName : Lexeme → Prop
  | word text => Operator.ofWord? text = none
  | leftParen | rightParen | endOfInput => False

/-- The number of groups that are open behind a lexeme; a `)` needs one that is open before it. -/
def Lexeme.openBehind? (opened : Nat) : Lexeme → Option Nat
  | leftParen => some (opened + 1)
  | rightParen =>
    match opened with
    | 0 => none
    | opened + 1 => some opened
  | word _ | endOfInput => some opened

structure Survey where
  /-- The tokens that are passed, each with the number of groups that are open before it. -/
  passed : List (Token × Nat)
  /-- The number of groups that are open behind them. -/
  opened : Nat
  /-- The `)` without a partner that ends the survey. -/
  unmatched? : Option Token

/-- Goes over tokens where `opened` groups are open before the first of them. -/
def survey (opened : Nat) : List Token → Survey
  | [] => ⟨[], opened, none⟩
  | token :: rest =>
    match token.lexeme.openBehind? opened with
    | none => ⟨[], opened, some token⟩
    | some behind => { survey behind rest with passed := (token, opened) :: (survey behind rest).passed }

namespace Survey

/-- The first `(` that would open a group inside `limit` others. -/
def tooDeep? (limit : Nat) (s : Survey) : Option Token :=
  (s.passed.find? fun (token, opened) => token.lexeme = .leftParen ∧ opened = limit).map (·.1)

def HoldsName (s : Survey) : Prop := ∃ p ∈ s.passed, p.1.lexeme.IsName

end Survey

def surveyText (text : String) : Survey := survey 0 (Cursor.ofText text).tokens

/-! ## Surveys by their first token -/

variable {limit opened behind : Nat} {token : Token} {tokens front rest : List Token}

theorem survey_cons (h : token.lexeme.openBehind? opened = some behind) (rest : List Token) :
    survey opened (token :: rest) =
      { survey behind rest with passed := (token, opened) :: (survey behind rest).passed } := by
  rw [survey, h]

theorem survey_unmatched (h : token.lexeme.openBehind? opened = none) (rest : List Token) :
    survey opened (token :: rest) = ⟨[], opened, some token⟩ := by
  rw [survey, h]

theorem openBehind?_of_symbol {x : Symbol} (h : token.lexeme.symbol? = some x)
    (hleft : x ≠ .leftParen) (hright : x ≠ .rightParen) :
    token.lexeme.openBehind? opened = some opened := by
  cases hlexeme : token.lexeme with
  | word text | endOfInput => rfl
  | leftParen => rw [hlexeme] at h; cases h; exact absurd rfl hleft
  | rightParen => rw [hlexeme] at h; cases h; exact absurd rfl hright

theorem openBehind?_of_operator {op : Operator} (h : token.lexeme.operator? = some op) :
    token.lexeme.openBehind? opened = some opened :=
  openBehind?_of_symbol (Lexeme.symbol?_eq_operator_iff.mpr h) nofun nofun

theorem openBehind?_of_name {text : String} (h : token.lexeme = .word text)
    (htext : Operator.ofWord? text = none) : token.lexeme.openBehind? opened = some opened :=
  openBehind?_of_symbol (Lexeme.symbol?_eq_name_iff.mpr ⟨h, htext⟩) nofun nofun

theorem openBehind?_of_leftParen (h : token.lexeme = .leftParen) :
    token.lexeme.openBehind? opened = some (opened + 1) := by
  rw [h]
  rfl

theorem openBehind?_of_rightParen (h : token.lexeme = .rightParen) :
    token.lexeme.openBehind? (opened + 1) = some opened := by
  rw [h]
  rfl

theorem openBehind?_eq_none_iff {l : Lexeme} :
    l.openBehind? opened = none ↔ l = .rightParen ∧ opened = 0 := by
  cases l with
  | rightParen => cases opened <;> simp [Lexeme.openBehind?]
  | word text | leftParen | endOfInput => simp [Lexeme.openBehind?]

theorem le_of_openBehind? {l : Lexeme} (h : l.openBehind? opened = some behind)
    (hne : l ≠ .leftParen) : behind ≤ opened := by
  cases l with
  | leftParen => exact absurd rfl hne
  | word text | endOfInput => exact Nat.le_of_eq (Option.some.inj h).symm
  | rightParen =>
    cases opened with
    | zero => cases h
    | succ opened =>
      cases h
      exact Nat.le_succ _

theorem tooDeep?_cons (h : token.lexeme.openBehind? opened = some behind) (rest : List Token) :
    (survey opened (token :: rest)).tooDeep? limit =
      if token.lexeme = .leftParen ∧ opened = limit then some token
      else (survey behind rest).tooDeep? limit := by
  rw [survey_cons h, Survey.tooDeep?, List.find?_cons]
  by_cases hdeep : token.lexeme = .leftParen ∧ opened = limit
  · simp [hdeep]
  · simp [hdeep, Survey.tooDeep?]

theorem holdsName_cons (h : token.lexeme.openBehind? opened = some behind) (rest : List Token) :
    (survey opened (token :: rest)).HoldsName ↔
      token.lexeme.IsName ∨ (survey behind rest).HoldsName := by
  simp [survey_cons h, Survey.HoldsName]

/-! ## Surveys in two parts -/

theorem mem_of_mem_passed {p : Token × Nat} (h : p ∈ (survey opened tokens).passed) :
    p.1 ∈ tokens := by
  induction tokens generalizing opened with
  | nil => cases h
  | cons token rest ih =>
    rcases hopen : token.lexeme.openBehind? opened with _ | behind
    · rw [survey_unmatched hopen] at h
      cases h
    · rw [survey_cons hopen] at h
      rcases List.mem_cons.mp h with rfl | h
      · exact List.mem_cons_self
      · exact List.mem_cons_of_mem _ (ih h)

/-- A survey that passes all of the front goes on behind it. -/
theorem survey_append (h : (survey opened front).unmatched? = none) (rest : List Token) :
    survey opened (front ++ rest) =
      { survey (survey opened front).opened rest with
        passed := (survey opened front).passed ++
          (survey (survey opened front).opened rest).passed } := by
  induction front generalizing opened with
  | nil => rfl
  | cons token front ih =>
    rcases hopen : token.lexeme.openBehind? opened with _ | behind
    · rw [survey_unmatched hopen] at h
      cases h
    · rw [survey_cons hopen] at h ⊢
      rw [List.cons_append, survey_cons hopen, ih h]
      rfl

/-- A survey that ends in the front does not see what stands behind it. -/
theorem survey_append_of_unmatched (h : (survey opened front).unmatched? = some token)
    (rest : List Token) : survey opened (front ++ rest) = survey opened front := by
  induction front generalizing opened with
  | nil => cases h
  | cons first front ih =>
    rcases hopen : first.lexeme.openBehind? opened with _ | behind
    · rw [List.cons_append, survey_unmatched hopen, survey_unmatched hopen]
    · rw [survey_cons hopen] at h ⊢
      rw [List.cons_append, survey_cons hopen, ih h]

theorem exists_passed_append (opened : Nat) (front rest : List Token) :
    ∃ more, (survey opened (front ++ rest)).passed = (survey opened front).passed ++ more ∧
      ∀ p ∈ more, p.1 ∈ rest := by
  rcases hend : (survey opened front).unmatched? with _ | token
  · refine ⟨(survey (survey opened front).opened rest).passed, ?_, fun p hp => mem_of_mem_passed hp⟩
    rw [survey_append hend]
  · refine ⟨[], ?_, nofun⟩
    rw [survey_append_of_unmatched hend, List.append_nil]

theorem holdsName_append (h : (survey opened front).HoldsName) (rest : List Token) :
    (survey opened (front ++ rest)).HoldsName := by
  obtain ⟨more, hpassed, -⟩ := exists_passed_append opened front rest
  obtain ⟨p, hp, hname⟩ := h
  exact ⟨p, hpassed ▸ List.mem_append_left more hp, hname⟩

theorem mem_of_tooDeep?_append (hfront : (survey opened front).tooDeep? limit = none)
    (h : (survey opened (front ++ rest)).tooDeep? limit = some token) : token ∈ rest := by
  obtain ⟨more, hpassed, hmore⟩ := exists_passed_append opened front rest
  rw [Survey.tooDeep?, Option.map_eq_none_iff] at hfront
  rw [Survey.tooDeep?, hpassed, List.find?_append, hfront, Option.none_or,
    Option.map_eq_some_iff] at h
  obtain ⟨p, hp, rfl⟩ := h
  exact hmore p (List.mem_of_find?_eq_some hp)

theorem exists_of_unmatched? (h : (survey opened tokens).unmatched? = some token) :
    (survey opened tokens).opened = 0 ∧ token.lexeme = .rightParen ∧
      ∃ front rest, tokens = front ++ token :: rest ∧
        survey opened front = ⟨(survey opened tokens).passed, 0, none⟩ := by
  induction tokens generalizing opened with
  | nil => cases h
  | cons first tail ih =>
    rcases hopen : first.lexeme.openBehind? opened with _ | behind
    · obtain ⟨hparen, rfl⟩ := openBehind?_eq_none_iff.mp hopen
      rw [survey_unmatched hopen] at h ⊢
      cases h
      exact ⟨rfl, hparen, [], tail, rfl, rfl⟩
    · rw [survey_cons hopen] at h ⊢
      obtain ⟨hzero, hparen, front, rest, rfl, hfront⟩ := ih h
      refine ⟨hzero, hparen, first :: front, rest, rfl, ?_⟩
      rw [survey_cons hopen, hfront]

theorem mem_passed_of_tooDeep? {s : Survey} (h : s.tooDeep? limit = some token) :
    (token, limit) ∈ s.passed ∧ token.lexeme = .leftParen := by
  obtain ⟨⟨token, opened⟩, hp, rfl⟩ := Option.map_eq_some_iff.mp h
  have hfound := List.find?_some hp
  simp only [decide_eq_true_eq] at hfound
  obtain ⟨hparen, rfl⟩ := hfound
  exact ⟨List.mem_of_find?_eq_some hp, hparen⟩

end LicenseExpr
