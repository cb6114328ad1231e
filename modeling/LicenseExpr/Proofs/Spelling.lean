import LicenseExpr.Symbol
import Mathlib.Data.List.Forall2

/-!
# Tokens that spell symbols

`Spells tokens symbols`: the tokens count for the symbols one by one, and the end is not among
them. A text spells its symbols with the tokens before its end, so what readers make of tokens can
be told in terms of symbols.
-/

namespace LicenseExpr

/-! ## One token -/

theorem Lexeme.operator?_eq_some_iff {l : Lexeme} {op : Operator} :
    l.operator? = some op ↔ ∃ text, l = .word text ∧ Operator.ofWord? text = some op := by
  cases l <;> simp [operator?]

theorem Lexeme.symbol?_eq_name_iff {l : Lexeme} {name : String} :
    l.symbol? = some (.name name) ↔ l = .word name ∧ Operator.ofWord? name = none := by
  cases l with
  | word text =>
    simp only [symbol?, Option.some.injEq, Symbol.ofWord_eq_name_iff, word.injEq]
    constructor
    · rintro ⟨rfl, h⟩; exact ⟨rfl, h⟩
    · rintro ⟨rfl, h⟩; exact ⟨rfl, h⟩
  | leftParen | rightParen | endOfInput => simp [symbol?]

theorem Lexeme.symbol?_eq_operator_iff {l : Lexeme} {op : Operator} :
    l.symbol? = some (.operator op) ↔ l.operator? = some op := by
  cases l with
  | word text =>
    simp only [symbol?, operator?, Symbol.ofWord, Option.some.injEq]
    split <;> simp_all
  | leftParen | rightParen | endOfInput => simp [symbol?, operator?]

theorem Lexeme.symbol?_eq_leftParen_iff {l : Lexeme} :
    l.symbol? = some .leftParen ↔ l = .leftParen := by
  cases l with
  | word text => simp only [symbol?, Symbol.ofWord]; split <;> simp
  | leftParen | rightParen | endOfInput => simp [symbol?]

theorem Lexeme.symbol?_eq_rightParen_iff {l : Lexeme} :
    l.symbol? = some .rightParen ↔ l = .rightParen := by
  cases l with
  | word text => simp only [symbol?, Symbol.ofWord]; split <;> simp
  | leftParen | rightParen | endOfInput => simp [symbol?]

def Lexeme.OpensOperand : Lexeme → Prop
  | word text => Operator.ofWord? text = none
  | leftParen => True
  | rightParen | endOfInput => False

/-! ## Lists of tokens -/

def Spells : List Token → List Symbol → Prop :=
  List.Forall₂ fun token symbol => token.lexeme.symbol? = some symbol

namespace Spells

variable {tokens rest : List Token} {ss ss' : List Symbol} {x : Symbol}

theorem nil_iff : Spells tokens [] ↔ tokens = [] := List.forall₂_nil_right_iff

theorem cons_iff :
    Spells tokens (x :: ss) ↔
      ∃ token rest, token.lexeme.symbol? = some x ∧ Spells rest ss ∧ tokens = token :: rest :=
  List.forall₂_cons_right_iff

theorem append_iff :
    Spells tokens (ss ++ ss') ↔
      ∃ front rest, Spells front ss ∧ Spells rest ss' ∧ tokens = front ++ rest := by
  constructor
  · intro h
    refine ⟨_, _, List.forall₂_take_append _ _ _ h, List.forall₂_drop_append _ _ _ h, ?_⟩
    exact (List.take_append_drop _ _).symm
  · rintro ⟨front, rest, hfront, hrest, rfl⟩
    exact List.rel_append hfront hrest

theorem length_eq (h : Spells tokens ss) : tokens.length = ss.length := List.Forall₂.length_eq h

theorem lexeme_ne_endOfInput (h : Spells tokens ss) {token : Token} (hmem : token ∈ tokens) :
    token.lexeme ≠ .endOfInput := by
  induction h with
  | nil => cases hmem
  | cons hx _ ih =>
    rcases List.mem_cons.mp hmem with rfl | hmem
    · intro hend
      rw [Lexeme.symbol?_eq_none_iff.mpr hend] at hx
      cases hx
    · exact ih hmem

end Spells

def symbolsOf (tokens : List Token) : List Symbol := tokens.filterMap (·.lexeme.symbol?)

@[simp] theorem symbolsOf_nil : symbolsOf [] = [] := rfl

theorem symbolsOf_cons_of_eq {token : Token} {x : Symbol} (h : token.lexeme.symbol? = some x)
    (tokens : List Token) : symbolsOf (token :: tokens) = x :: symbolsOf tokens :=
  List.filterMap_cons_some h

@[simp] theorem symbolsOf_append (tokens rest : List Token) :
    symbolsOf (tokens ++ rest) = symbolsOf tokens ++ symbolsOf rest :=
  List.filterMap_append

theorem spells_symbolsOf {tokens : List Token} (h : ∀ t ∈ tokens, t.lexeme ≠ .endOfInput) :
    Spells tokens (symbolsOf tokens) := by
  induction tokens with
  | nil => exact .nil
  | cons token rest ih =>
    rcases hx : token.lexeme.symbol? with _ | x
    · exact absurd (Lexeme.symbol?_eq_none_iff.mp hx) (h token List.mem_cons_self)
    · rw [symbolsOf_cons_of_eq hx]
      exact .cons hx (ih fun t ht => h t (List.mem_cons_of_mem _ ht))

theorem Spells.symbolsOf_eq {tokens : List Token} {ss : List Symbol} (h : Spells tokens ss) :
    symbolsOf tokens = ss := by
  induction h with
  | nil => rfl
  | cons hx _ ih => rw [symbolsOf_cons_of_eq hx, ih]

theorem spells_tokens (text : String) : Spells (Cursor.ofText text).tokens (symbols text) := by
  rw [symbols_eq]
  exact spells_symbolsOf fun _ ht => Cursor.lexeme_ne_endOfInput_of_mem_tokens ht

theorem ofWord?_eq_none_of_name_mem {tokens : List Token} {name : String}
    (h : Symbol.name name ∈ symbolsOf tokens) : Operator.ofWord? name = none := by
  obtain ⟨token, -, hx⟩ := List.mem_filterMap.mp h
  exact (Lexeme.symbol?_eq_name_iff.mp hx).2

end LicenseExpr
