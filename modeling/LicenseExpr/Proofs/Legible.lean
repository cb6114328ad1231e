import LicenseExpr.Proofs.Spelling
import LicenseExpr.Proofs.Token
import LicenseExpr.Expression.Symbols

/-!
# Legible symbols

A symbol is legible if it is read back from its spelling. Operators and parentheses always are, a
name is if it is an unreserved word. Symbols of a text are legible, and legible symbols written out
with spaces between them are the symbols of what is written (`symbols_toText`).
-/

namespace LicenseExpr

theorem Lexeme.written_of_toList {text : String} (hne : text.toList ≠ [])
    (hword : text.toList.all isWordChar = true) : (word text).Written text.toList := by
  have h := Written.word hne (List.all_eq_true.mp hword)
  rwa [String.ofList_toList] at h

theorem Lexeme.endsBefore_nil (l : Lexeme) : l.EndsBefore [] := by
  cases l with
  | word text => exact nofun
  | leftParen | rightParen | endOfInput => trivial

theorem Operator.written_word (op : Operator) : (Lexeme.word op.word).Written op.word.toList := by
  cases op with
  | and => exact Lexeme.written_of_toList (by decide) (by decide)
  | or => exact Lexeme.written_of_toList (by decide) (by decide)
  | exception => exact Lexeme.written_of_toList (by decide) (by decide)

namespace Symbol

def IsLegible : Symbol → Prop
  | name text => (Lexeme.word text).Written text.toList ∧ Operator.ofWord? text = none
  | operator _ | leftParen | rightParen => True

theorem IsLegible.exists_lexeme {x : Symbol} (h : x.IsLegible) :
    ∃ l : Lexeme, l.Written x.spelling.toList ∧ l.symbol? = some x := by
  cases x with
  | name text => exact ⟨.word text, h.1, Lexeme.symbol?_eq_name_iff.mpr ⟨rfl, h.2⟩⟩
  | operator op =>
    refine ⟨.word op.word, op.written_word, ?_⟩
    exact Lexeme.symbol?_eq_operator_iff.mpr (Operator.ofWord?_word op)
  | leftParen => exact ⟨.leftParen, .leftParen, rfl⟩
  | rightParen => exact ⟨.rightParen, .rightParen, rfl⟩

end Symbol

/-! ## Symbols of texts are legible -/

theorem Cursor.written_of_mem_tokens {c : Cursor} :
    ∀ t ∈ c.tokens, ∃ cs, t.lexeme.Written cs := by
  induction c using tokens_induction with
  | blank cs offset h => exact nofun
  | written blanks cs rest l offset hblanks hl hrest ih =>
    exact List.forall_mem_cons.mpr ⟨⟨cs, hl⟩, ih⟩

theorem isLegible_of_mem_symbols {text : String} {x : Symbol} (h : x ∈ symbols text) :
    x.IsLegible := by
  cases x with
  | operator op => trivial
  | leftParen => trivial
  | rightParen => trivial
  | name name =>
    rw [symbols_eq] at h
    obtain ⟨token, htoken, hx⟩ := List.mem_filterMap.mp h
    obtain ⟨hword, hname⟩ := Lexeme.symbol?_eq_name_iff.mp hx
    obtain ⟨cs, hcs⟩ := Cursor.written_of_mem_tokens token htoken
    rw [hword] at hcs
    refine ⟨?_, hname⟩
    cases hcs with
    | @word cs hne hall =>
      rw [String.toList_ofList]
      exact .word hne hall

/-! ## Legible symbols are read back -/

/-- Symbols as they are written, with a space between any two. -/
def spaced (ss : List Symbol) : List Char := (" ".intercalate (ss.map (·.spelling))).toList

theorem spaced_cons_cons (x y : Symbol) (ss : List Symbol) :
    spaced (x :: y :: ss) = x.spelling.toList ++ ' ' :: spaced (y :: ss) := by
  simp [spaced]

theorem symbolsOf_tokens_spaced {ss : List Symbol} (h : ∀ x ∈ ss, x.IsLegible) (offset : Nat) :
    symbolsOf (Cursor.tokens ⟨spaced ss, offset⟩) = ss := by
  induction ss generalizing offset with
  | nil =>
    rw [show spaced [] = [] from rfl, Cursor.tokens_of_blank (List.forall_mem_nil _)]
    rfl
  | cons x ss ih =>
    obtain ⟨hx, hss⟩ := List.forall_mem_cons.mp h
    obtain ⟨l, hl, hsymbol⟩ := hx.exists_lexeme
    have hblanks : ∀ ch ∈ ([] : List Char), Text.isBlank ch = true := nofun
    rcases ss with _ | ⟨y, ss⟩
    · have htokens := Cursor.tokens_of_written hblanks hl l.endsBefore_nil offset
      rw [List.nil_append, List.append_nil, Cursor.tokens_of_blank (List.forall_mem_nil _)] at htokens
      rw [show spaced [x] = x.spelling.toList by simp [spaced], htokens,
        symbolsOf_cons_of_eq hsymbol]
      rfl
    · have hend : l.EndsBefore (' ' :: spaced (y :: ss)) :=
        @Cursor.endsBefore_append_space l [] [] l.endsBefore_nil _
      have htokens := Cursor.tokens_of_written hblanks hl hend offset
      have hspace : ∀ ch ∈ [' '], Text.isBlank ch = true := List.forall_mem_singleton.mpr (by decide)
      rw [← List.singleton_append, Cursor.tokens_append_of_blank hspace, List.singleton_append] at htokens
      rw [spaced_cons_cons, ← List.nil_append (x.spelling.toList ++ _), htokens,
        symbolsOf_cons_of_eq hsymbol, ih hss]

theorem symbols_toText {e : Expression} (h : ∀ x ∈ e.symbols, x.IsLegible) :
    symbols e.toText = e.symbols := by
  rw [← (spells_tokens e.toText).symbolsOf_eq]
  exact symbolsOf_tokens_spaced h 0

end LicenseExpr
