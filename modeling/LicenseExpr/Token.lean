import LicenseExpr.Operator
import LicenseExpr.Text.Blank
import LicenseExpr.Text.Utf8

/-!
# Tokens

A word is a longest run of characters that are neither blank nor a parenthesis; blanks only
separate tokens. `Cursor.next` reads one token, `Cursor.tokens` all that stand before the end, and
`tokenize` lists the tokens of a text with the end as the last one.
-/

namespace LicenseExpr

inductive Lexeme where
  | word (text : String)
  | leftParen
  | rightParen
  | endOfInput
  deriving DecidableEq

namespace Lexeme

/-- The operator that a word spells; identifiers, parentheses and the end spell none. -/
def operator? : Lexeme → Option Operator
  | word text => Operator.ofWord? text
  | leftParen | rightParen | endOfInput => none

def description : Lexeme → String
  | word text => "'" ++ text ++ "'"
  | leftParen => "'('"
  | rightParen => "')'"
  | endOfInput => "<end>"

end Lexeme

/-- A lexeme with the byte at which it starts. The end starts at the length of the text. -/
structure Token where
  lexeme : Lexeme
  start : Nat
  deriving DecidableEq

def isWordChar (c : Char) : Bool := !Text.isBlank c && c != '(' && c != ')'

/-- What is left of a text and the number of bytes before it. -/
structure Cursor where
  rest : List Char
  offset : Nat

namespace Cursor

def ofText (text : String) : Cursor := ⟨text.toList, 0⟩

def skipBlanks (c : Cursor) : Cursor :=
  ⟨c.rest.dropWhile Text.isBlank, c.offset + Text.byteLength (c.rest.takeWhile Text.isBlank)⟩

/-- The next token and the cursor behind it. At the end the cursor stays where it is. -/
def next (c : Cursor) : Token × Cursor :=
  let ⟨rest, start⟩ := c.skipBlanks
  match rest with
  | [] => (⟨.endOfInput, start⟩, ⟨[], start⟩)
  | '(' :: rest => (⟨.leftParen, start⟩, ⟨rest, start + 1⟩)
  | ')' :: rest => (⟨.rightParen, start⟩, ⟨rest, start + 1⟩)
  | first :: rest =>
    let word := first :: rest.takeWhile isWordChar
    (⟨.word (String.ofList word), start⟩,
      ⟨rest.dropWhile isWordChar, start + Text.byteLength word⟩)

theorem length_dropWhile_le (p : Char → Bool) (cs : List Char) :
    (cs.dropWhile p).length ≤ cs.length :=
  (List.dropWhile_sublist p).length_le

/-- Every token before the end uses characters up. -/
theorem length_next_lt {c : Cursor} (h : c.next.1.lexeme ≠ .endOfInput) :
    c.next.2.rest.length < c.rest.length := by
  have hle : c.skipBlanks.rest.length ≤ c.rest.length := length_dropWhile_le _ _
  unfold next at *
  generalize c.skipBlanks = d at *
  obtain ⟨rest, start⟩ := d
  dsimp only at *
  split at h
  · simp at h
  · simp only [List.length_cons] at *; omega
  · simp only [List.length_cons] at *; omega
  · simp only [List.length_cons] at *
    have := length_dropWhile_le isWordChar ‹List Char›
    omega

def tokens (c : Cursor) : List Token :=
  if _h : c.next.1.lexeme = .endOfInput then [] else c.next.1 :: c.next.2.tokens
termination_by c.rest.length
decreasing_by exact length_next_lt _h

theorem lexeme_ne_endOfInput_of_mem_tokens {c : Cursor} {t : Token} (ht : t ∈ c.tokens) :
    t.lexeme ≠ .endOfInput := by
  fun_induction tokens c with
  | case1 => cases ht
  | case2 c h ih =>
    rcases List.mem_cons.mp ht with rfl | ht
    · exact h
    · exact ih ht

def stop (c : Cursor) : Nat := c.offset + Text.byteLength c.rest

def endToken (c : Cursor) : Token := ⟨.endOfInput, c.stop⟩

/-! ### Where the text ends -/

theorem byteLength_takeWhile_add_dropWhile (p : Char → Bool) (cs : List Char) :
    Text.byteLength (cs.takeWhile p) + Text.byteLength (cs.dropWhile p) = Text.byteLength cs := by
  rw [← Text.byteLength_append, List.takeWhile_append_dropWhile]

theorem stop_skipBlanks (c : Cursor) : c.skipBlanks.stop = c.stop := by
  simp only [stop, skipBlanks]
  have := byteLength_takeWhile_add_dropWhile Text.isBlank c.rest
  omega

@[simp] theorem stop_next (c : Cursor) : c.next.2.stop = c.stop := by
  rw [← stop_skipBlanks c]
  unfold next
  generalize c.skipBlanks = d
  obtain ⟨rest, start⟩ := d
  dsimp only
  split
  · rfl
  · simp only [stop, Text.byteLength_cons, show '('.utf8Size = 1 from rfl]; omega
  · simp only [stop, Text.byteLength_cons, show ')'.utf8Size = 1 from rfl]; omega
  · next first rest _ _ =>
    have := byteLength_takeWhile_add_dropWhile isWordChar rest
    simp only [stop, Text.byteLength_cons]
    omega

/-- The end is given at the last byte, and again from there on. -/
theorem next_of_endOfInput {c : Cursor} (h : c.next.1.lexeme = .endOfInput) :
    c.next = (c.endToken, ⟨[], c.stop⟩) := by
  have hstop := stop_skipBlanks c
  rw [endToken, ← hstop]
  unfold next at *
  generalize c.skipBlanks = d at *
  obtain ⟨rest, start⟩ := d
  dsimp only at *
  split at h
  · simp [stop]
  all_goals cases h

end Cursor

/-- The tokens of a text, the end included. -/
def tokenize (text : String) : List Token :=
  (Cursor.ofText text).tokens ++ [(Cursor.ofText text).endToken]

theorem stop_ofText (text : String) :
    (Cursor.ofText text).stop = Text.byteLength text.toList := by
  simp [Cursor.stop, Cursor.ofText]

end LicenseExpr
