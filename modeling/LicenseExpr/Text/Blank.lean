/-!
# Blank characters

`isBlank` holds of the characters with the `White_Space` property. `trim` takes them away from
both ends of a text and from nowhere else.
-/

namespace LicenseExpr.Text

/-- The `White_Space` characters; the zero-width spaces and the separators U+001C to U+001F are
not among them. -/
def isBlank (c : Char) : Bool :=
  let n := c.toNat
  (0x9 ≤ n && n ≤ 0xD) || n == 0x20 || n == 0x85 || n == 0xA0 || n == 0x1680 ||
    (0x2000 ≤ n && n ≤ 0x200A) || n == 0x2028 || n == 0x2029 || n == 0x202F || n == 0x205F ||
    n == 0x3000

def trimChars (cs : List Char) : List Char :=
  ((cs.dropWhile isBlank).reverse.dropWhile isBlank).reverse

def trim (s : String) : String := String.ofList (trimChars s.toList)

@[simp] theorem toList_trim (s : String) : (trim s).toList = trimChars s.toList := by
  simp [trim]

end LicenseExpr.Text
