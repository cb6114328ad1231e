import LicenseExpr.Token

/-!
# Scanners

A scanner hands out the tokens of a text one after the other, in two ways. `nextToken` gives the
end again and again once the text is used up. `next?` gives the end a single time and nothing
after it; only `next?` keeps track of that.
-/

namespace LicenseExpr

structure Scanner where
  cursor : Cursor
  /-- `next?` has given the end. -/
  finished : Bool

namespace Scanner

def ofText (text : String) : Scanner := ⟨Cursor.ofText text, false⟩

def nextToken (s : Scanner) : Token × Scanner :=
  let (token, cursor) := s.cursor.next
  (token, { s with cursor })

def next? (s : Scanner) : Option Token × Scanner :=
  if s.finished then (none, s)
  else
    let (token, s) := s.nextToken
    (some token, { s with finished := token.lexeme == .endOfInput })

/-- All that `next?` still gives, and the scanner after that. -/
def drain (s : Scanner) : List Token × Scanner :=
  if s.finished then ([], s)
  else (s.cursor.tokens ++ [s.cursor.endToken], ⟨⟨[], s.cursor.stop⟩, true⟩)

theorem next?_eq_none_iff {s : Scanner} : s.next?.1 = none ↔ s.finished = true := by
  unfold next?
  split <;> simp_all

end Scanner

end LicenseExpr
