import LicenseExpr.Expression.Symbols
import LicenseExpr.Proofs.Spelling
import LicenseExpr.SyntaxError

/-!
# Classes of tokens

Two lexemes are of one class if they are the same parenthesis or the end both, or words that spell
the same operator or none at all. Two texts whose tokens go together class by class are compared
token by token: `Twins` are tokens that go together, and trees and errors are `Alike` if they are
built in the same way from tokens that do.
-/

namespace LicenseExpr

namespace Lexeme

/-- The lexemes differ in the letter case of an operator or in the text of a name, if at all. -/
inductive SameClass : Lexeme → Lexeme → Prop where
  | word {text text' : String} : Operator.ofWord? text = Operator.ofWord? text' →
      SameClass (.word text) (.word text')
  | leftParen : SameClass .leftParen .leftParen
  | rightParen : SameClass .rightParen .rightParen
  | endOfInput : SameClass .endOfInput .endOfInput

theorem SameClass.refl (l : Lexeme) : l.SameClass l := by
  cases l with
  | word text => exact .word rfl
  | leftParen => exact .leftParen
  | rightParen => exact .rightParen
  | endOfInput => exact .endOfInput

theorem SameClass.trans {l l' l'' : Lexeme} (h : l.SameClass l') (h' : l'.SameClass l'') :
    l.SameClass l'' := by
  cases h with
  | word htext =>
    cases h' with
    | word htext' => exact .word (htext.trans htext')
  | leftParen | rightParen | endOfInput => exact h'

theorem SameClass.operator?_eq {l l' : Lexeme} (h : l.SameClass l') :
    l.operator? = l'.operator? := by
  cases h with
  | word htext => exact htext
  | leftParen | rightParen | endOfInput => rfl

theorem SameClass.eq_of_ne_word {l l' : Lexeme} (h : l.SameClass l') (hl : ∀ text, l ≠ .word text) :
    l' = l := by
  cases h with
  | word _ => exact absurd rfl (hl _)
  | leftParen | rightParen | endOfInput => rfl

theorem SameClass.exists_name {l' : Lexeme} {text : String} (h : (Lexeme.word text).SameClass l')
    (htext : Operator.ofWord? text = none) :
    ∃ text', l' = .word text' ∧ Operator.ofWord? text' = none := by
  cases h with
  | word hsame => exact ⟨_, rfl, hsame.symm.trans htext⟩

end Lexeme

/-- Tokens that go together, and are of one class. -/
structure Twins (R : Token → Token → Prop) (t t' : Token) : Prop where
  rel : R t t'
  same : t.lexeme.SameClass t'.lexeme

/-- Trees that differ in their names only, and there hold the texts of tokens that go together. -/
inductive Expression.Alike (R : Token → Token → Prop) : Expression → Expression → Prop where
  | identifier {t t' : Token} {name name' : String} : R t t' → t.lexeme = .word name →
      t'.lexeme = .word name' → Alike R (.identifier name) (.identifier name')
  | binary {left left' right right' : Expression} (op : Operator) : Alike R left left' →
      Alike R right right' → Alike R (.binary op left right) (.binary op left' right')
  | group {inner inner' : Expression} : Alike R inner inner' →
      Alike R (.group inner) (.group inner')

/-- The same error, found at tokens that go together. -/
inductive SyntaxError.Alike (R : Token → Token → Prop) : SyntaxError → SyntaxError → Prop where
  | emptyExpression {t t' : Token} : R t t' →
      Alike R (.emptyExpression t.start) (.emptyExpression t'.start)
  | unexpectedToken {t t' : Token} : R t t' →
      Alike R (.unexpectedToken t.start t.lexeme) (.unexpectedToken t'.start t'.lexeme)
  | missingOperand {t t' : Token} (op : Operator) : R t t' →
      Alike R (.missingOperand t.start op) (.missingOperand t'.start op)
  | unmatchedParenthesis {t t' : Token} : R t t' →
      Alike R (.unmatchedParenthesis t.start) (.unmatchedParenthesis t'.start)
  | emptyGroup {t t' : Token} : R t t' → Alike R (.emptyGroup t.start) (.emptyGroup t'.start)
  | nestingTooDeep {t t' : Token} (limit : Nat) : R t t' →
      Alike R (.nestingTooDeep t.start limit) (.nestingTooDeep t'.start limit)

variable {R : Token → Token → Prop}

/-! ## Shapes -/

namespace Expression.Alike

variable {e e' : Expression} {op : Operator}

theorem isOperand (h : e.Alike R e') (he : e.IsOperand) : e'.IsOperand := by
  cases h with
  | identifier | group => trivial
  | binary => exact he

theorem leftOf (h : e.Alike R e') (he : e.LeftOf op) : e'.LeftOf op := by
  cases h with
  | identifier | group => trivial
  | binary => exact he

theorem rightOf (h : e.Alike R e') (he : e.RightOf op) : e'.RightOf op := by
  cases h with
  | identifier | group => trivial
  | binary => exact he

theorem rightNested (h : e.Alike R e') (he : e.RightNested) : e'.RightNested := by
  induction h with
  | identifier => trivial
  | binary op hleft _ ihl ihr => exact ⟨hleft.isOperand he.1, ihl he.2.1, ihr he.2.2⟩
  | group _ ih => exact ih he

theorem byPrecedence (h : e.Alike R e') (he : e.ByPrecedence) : e'.ByPrecedence := by
  induction h with
  | identifier => trivial
  | binary op hleft hright ihl ihr =>
    exact ⟨hleft.leftOf he.1, hright.rightOf he.2.1, ihl he.2.2.1, ihr he.2.2.2⟩
  | group _ ih => exact ih he

theorem nesting_eq (h : e.Alike R e') : e.nesting = e'.nesting := by
  induction h with
  | identifier => rfl
  | binary op _ _ ihl ihr => rw [nesting, nesting, ihl, ihr]
  | group _ ih => rw [nesting, nesting, ih]

end Expression.Alike

/-! ## Trees that are spelled alike -/

theorem forall₂_append_left {α β : Type} {S : α → β → Prop} {xs ys : List α} {zs : List β}
    (h : List.Forall₂ S (xs ++ ys) zs) :
    ∃ xs' ys', zs = xs' ++ ys' ∧ List.Forall₂ S xs xs' ∧ List.Forall₂ S ys ys' := by
  have htake := List.forall₂_take xs.length h
  have hdrop := List.forall₂_drop xs.length h
  rw [List.take_left] at htake
  rw [List.drop_left] at hdrop
  exact ⟨_, _, (List.take_append_drop _ _).symm, htake, hdrop⟩

theorem Twins.lexeme_eq {t t' : Token} {l : Lexeme} (h : Twins R t t') (ht : t.lexeme = l)
    (hl : ∀ text, l ≠ .word text) : t'.lexeme = l := by
  subst ht
  exact h.same.eq_of_ne_word hl

theorem Twins.symbol? {t t' : Token} {x : Symbol} (h : Twins R t t')
    (hx : t.lexeme.symbol? = some x) (hname : ∀ text, x ≠ .name text) :
    t'.lexeme.symbol? = some x := by
  cases x with
  | name text => exact absurd rfl (hname text)
  | operator op =>
    rw [Lexeme.symbol?_eq_operator_iff] at hx ⊢
    exact h.same.operator?_eq.symm.trans hx
  | leftParen =>
    rw [Lexeme.symbol?_eq_leftParen_iff] at hx ⊢
    exact h.lexeme_eq hx nofun
  | rightParen =>
    rw [Lexeme.symbol?_eq_rightParen_iff] at hx ⊢
    exact h.lexeme_eq hx nofun

/-- Where the tokens of one text spell a tree, the tokens of the other spell a tree alike. -/
theorem exists_alike_of_spells {e : Expression} {tokens tokens' : List Token}
    (htokens : List.Forall₂ (Twins R) tokens tokens') (h : Spells tokens e.symbols)
    (hnames : e.Unreserved) :
    ∃ e' : Expression, e.Alike R e' ∧ Spells tokens' e'.symbols ∧ e'.Unreserved := by
  induction e generalizing tokens tokens' with
  | identifier name =>
    obtain ⟨t, rest, hname, hnil, rfl⟩ := Spells.cons_iff.mp h
    cases Spells.nil_iff.mp hnil
    obtain ⟨t', rest', ⟨hrel, hsame⟩, hrest, rfl⟩ := List.forall₂_cons_left_iff.mp htokens
    cases List.forall₂_nil_left_iff.mp hrest
    obtain ⟨hword, htext⟩ := Lexeme.symbol?_eq_name_iff.mp hname
    rw [hword] at hsame
    obtain ⟨name', hword', htext'⟩ := hsame.exists_name htext
    refine ⟨.identifier name', .identifier hrel hword hword', .cons ?_ .nil, htext'⟩
    exact Lexeme.symbol?_eq_name_iff.mpr ⟨hword', htext'⟩
  | binary op left right ihl ihr =>
    obtain ⟨front, rest, hfront, hrest, rfl⟩ := Spells.append_iff.mp h
    obtain ⟨t, back, hop, hback, rfl⟩ := Spells.cons_iff.mp hrest
    obtain ⟨front', rest', rfl, hfronts, hrests⟩ := forall₂_append_left htokens
    obtain ⟨t', back', htwins, hbacks, rfl⟩ := List.forall₂_cons_left_iff.mp hrests
    obtain ⟨left', hleft, hfront', hlnames⟩ := ihl hfronts hfront hnames.1
    obtain ⟨right', hright, hback', hrnames⟩ := ihr hbacks hback hnames.2
    refine ⟨.binary op left' right', .binary op hleft hright, ?_, hlnames, hrnames⟩
    exact Spells.append_iff.mpr ⟨_, _, hfront', .cons (htwins.symbol? hop nofun) hback', rfl⟩
  | group inner ih =>
    obtain ⟨lparen, rest, hlparen, hrest, rfl⟩ := Spells.cons_iff.mp h
    obtain ⟨middle, last, hmiddle, hlast, rfl⟩ := Spells.append_iff.mp hrest
    obtain ⟨rparen, _, hrparen, hnil, rfl⟩ := Spells.cons_iff.mp hlast
    cases Spells.nil_iff.mp hnil
    obtain ⟨lparen', rest', hleft, hrests, rfl⟩ := List.forall₂_cons_left_iff.mp htokens
    obtain ⟨middle', last', rfl, hmiddles, hlasts⟩ := forall₂_append_left hrests
    obtain ⟨rparen', nil', hright, hnil', rfl⟩ := List.forall₂_cons_left_iff.mp hlasts
    cases List.forall₂_nil_left_iff.mp hnil'
    obtain ⟨inner', hinner, hmiddle', hnames'⟩ := ih hmiddles hmiddle hnames
    refine ⟨.group inner', .group hinner, .cons (hleft.symbol? hlparen nofun) ?_, hnames'⟩
    exact Spells.append_iff.mpr ⟨_, _, hmiddle', .cons (hright.symbol? hrparen nofun) .nil, rfl⟩

/-! ## Texts -/

/-- The texts have tokens of the same classes, one by one. -/
def SameClasses (text text' : String) : Prop :=
  List.Forall₂ (fun t t' => t.lexeme.SameClass t'.lexeme) (tokenize text) (tokenize text')

/-- The tokens stand at the same place among the tokens of their texts. -/
def Paired (text text' : String) (t t' : Token) : Prop :=
  ∃ k : Nat, (tokenize text)[k]? = some t ∧ (tokenize text')[k]? = some t'

variable {text text' text'' : String}

theorem SameClasses.refl (text : String) : SameClasses text text :=
  List.forall₂_same.mpr fun t _ => .refl t.lexeme

theorem SameClasses.trans (h : SameClasses text text') (h' : SameClasses text' text'') :
    SameClasses text text'' := by
  obtain ⟨hlength, hsame⟩ := List.forall₂_iff_get.mp h
  obtain ⟨hlength', hsame'⟩ := List.forall₂_iff_get.mp h'
  refine List.forall₂_iff_get.mpr ⟨hlength.trans hlength', fun k hk hk'' => ?_⟩
  have hk' : k < (tokenize text').length := hlength ▸ hk
  exact (hsame k hk hk').trans (hsame' k hk' hk'')

theorem SameClasses.twins (h : SameClasses text text') :
    List.Forall₂ (Twins (Paired text text')) (Cursor.ofText text).tokens
        (Cursor.ofText text').tokens ∧
      Paired text text' (Cursor.ofText text).endToken (Cursor.ofText text').endToken := by
  have hall : List.Forall₂ (Twins (Paired text text')) (tokenize text) (tokenize text') := by
    obtain ⟨hlength, hsame⟩ := List.forall₂_iff_get.mp h
    refine List.forall₂_iff_get.mpr ⟨hlength, fun k hk hk' => ⟨⟨k, ?_, ?_⟩, hsame k hk hk'⟩⟩
    · exact List.getElem?_eq_getElem hk
    · exact List.getElem?_eq_getElem hk'
  obtain ⟨front, back, hsplit, hfront, hback⟩ := forall₂_append_left hall
  obtain ⟨last, more, hlast, hnil, rfl⟩ := List.forall₂_cons_left_iff.mp hback
  cases List.forall₂_nil_left_iff.mp hnil
  obtain ⟨hfronts, hends⟩ := List.append_inj' hsplit rfl
  cases hends
  rw [hfronts]
  exact ⟨hfront, hlast.rel⟩

end LicenseExpr
