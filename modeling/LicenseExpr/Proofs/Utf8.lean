import LicenseExpr.Text.Utf8
import Mathlib.Logic.Function.Basic

/-!
# Bytes of texts

A text is read back from its bytes, so no two texts have the same ones (`bytes_injective`), and
whatever else bytes are, they are not read as a text (`ofBytes?_eq_none_iff`).
-/

namespace LicenseExpr.Text

variable {bs : List UInt8} {text : String}

theorem toByteArray_bytes (text : String) : (bytes text).toByteArray = text.toByteArray := by
  rw [← String.utf8Encode_toList, bytes, List.utf8Encode]

theorem ofBytes?_bytes (text : String) : ofBytes? (bytes text) = some text := by
  have hbytes : (⟨(bytes text).toArray⟩ : ByteArray) = text.toByteArray := by
    rw [← toByteArray_bytes, ← List.data_toByteArray]
  rw [ofBytes?, hbytes, String.fromUTF8?, dif_pos text.isValidUTF8]
  rfl

theorem bytes_injective : Function.Injective bytes := by
  intro text text' h
  have hread := ofBytes?_bytes text
  rw [h, ofBytes?_bytes] at hread
  exact (Option.some.inj hread).symm

theorem bytes_of_ofBytes? (h : ofBytes? bs = some text) : bytes text = bs := by
  rw [ofBytes?, String.fromUTF8?] at h
  split at h
  · next hvalid =>
    obtain rfl := (Option.some.inj h).symm
    have hdata := congrArg (·.data.toList) (toByteArray_bytes (String.fromUTF8 _ hvalid))
    simpa [String.fromUTF8] using hdata
  · cases h

theorem ofBytes?_eq_none_iff : ofBytes? bs = none ↔ ∀ text, bytes text ≠ bs := by
  constructor
  · rintro h text rfl
    rw [ofBytes?_bytes] at h
    cases h
  · intro h
    rcases hread : ofBytes? bs with _ | text
    · rfl
    · exact absurd (bytes_of_ofBytes? hread) (h text)

end LicenseExpr.Text
