import LicenseExpr.Text.GraphemeExtend
import LicenseExpr.Text.Printable

/-!
# Quoted texts

`quote` writes a text between double quotes so that every character of it can be seen: quotes and
backslashes are escaped, the common controls have a letter, and characters that cannot be seen or
read on their own are written by their code point in hexadecimal.
-/

namespace LicenseExpr.Text

/-- A code point in lower-case hexadecimal between braces. -/
def codePointEscape (c : Char) : List Char :=
  '\\' :: 'u' :: '{' :: (Nat.toDigits 16 c.toNat ++ ['}'])

/-- The halfwidth katakana marks of voicing extend what stands before them, but are letters with a
column of their own. -/
def isVoicingMark (c : Char) : Bool := c == '\uFF9E' || c == '\uFF9F'

/-- Whether a character can be seen and read without the characters around it. -/
def standsAlone (c : Char) : Bool := isPrintable c && (isVoicingMark c || !isGraphemeExtend c)

def quoteChar (c : Char) : List Char :=
  match c with
  | '\x00' => ['\\', '0']
  | '\t' => ['\\', 't']
  | '\r' => ['\\', 'r']
  | '\n' => ['\\', 'n']
  | '"' => ['\\', '"']
  | '\\' => ['\\', '\\']
  | c => if standsAlone c then [c] else codePointEscape c

def quoteChars (cs : List Char) : List Char := '"' :: (cs.flatMap quoteChar ++ ['"'])

def quote (s : String) : String := String.ofList (quoteChars s.toList)

end LicenseExpr.Text
