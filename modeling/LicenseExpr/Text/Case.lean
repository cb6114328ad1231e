/-!
# Words without regard to letter case

`sameWord` compares two texts after the letters `A` to `Z` are read as `a` to `z`; every other
character must agree as it stands.
-/

namespace LicenseExpr.Text

def sameWord (a b : String) : Bool := a.toList.map Char.toLower == b.toList.map Char.toLower

theorem sameWord_iff {a b : String} :
    sameWord a b = true ↔ a.toList.map Char.toLower = b.toList.map Char.toLower := by
  simp [sameWord]

theorem sameWord_comm (a b : String) : sameWord a b = sameWord b a := by
  rw [Bool.eq_iff_iff, sameWord_iff, sameWord_iff, eq_comm]

theorem sameWord_trans {a b c : String} (hab : sameWord a b = true) (hbc : sameWord b c = true) :
    sameWord a c = true := by
  rw [sameWord_iff] at *
  exact hab.trans hbc

end LicenseExpr.Text
