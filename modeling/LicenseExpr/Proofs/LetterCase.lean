import LicenseExpr.Format
import LicenseExpr.Level
import Mathlib.Data.List.Forall2

/-!
# Lower case

The lower case of Unicode puts one or more characters in the place of each. Outside ASCII only the Kelvin
sign becomes nothing but ASCII, a `k`; a dotted capital I becomes an `i`, but leaves its dot behind as
U+0307. So a name without a `k` is what a text is in lower case exactly if `Text.sameWord` says so
(`eq_iff_sameWord`).
-/

namespace LicenseExpr

namespace Text

variable {text lower name : String} {ch : Char} {piece : List Char}

/-- What a character may become, wherever it stands in a text. -/
inductive LowerCase : Char → List Char → Prop where
  | ascii {ch : Char} : ch.toNat < 128 → LowerCase ch [ch.toLower]
  | kelvin : LowerCase '\u212A' ['k']
  | other {ch : Char} {piece : List Char} : 128 ≤ ch.toNat → ch ≠ '\u212A' →
      (∃ d ∈ piece, 128 ≤ d.toNat) → LowerCase ch piece

/-- The second text is the first one in lower case. -/
def LowersTo (text lower : String) : Prop :=
  ∃ pieces, List.Forall₂ LowerCase text.toList pieces ∧ pieces.flatten = lower.toList

/-- A character of ASCII in lower case that no character outside ASCII becomes. -/
def isPlain (ch : Char) : Bool := ch.toNat < 128 && ch.toLower == ch && ch != 'k'

theorem isPlain_iff : isPlain ch = true ↔ ch.toNat < 128 ∧ ch.toLower = ch ∧ ch ≠ 'k' := by
  simp [isPlain, and_assoc]

theorem isPlain_of_le (h : 128 ≤ ch.toNat) : isPlain ch = false := by
  rw [Bool.eq_false_iff, Ne, isPlain_iff]
  omega

theorem toLower_of_le (h : 128 ≤ ch.toNat) : ch.toLower = ch := by
  have hcapital : ¬ (ch.val ≥ 'A'.val ∧ ch.val ≤ 'Z'.val) := by
    rintro ⟨-, hle⟩
    have hcode : ch.toNat ≤ 90 := hle
    omega
  exact dif_neg hcapital

theorem LowerCase.eq_or (h : LowerCase ch piece) :
    piece = [ch.toLower] ∨ (∃ d ∈ piece, isPlain d = false) ∧ isPlain ch.toLower = false := by
  cases h with
  | ascii => exact .inl rfl
  | kelvin => exact .inr ⟨⟨'k', List.mem_singleton_self _, rfl⟩, rfl⟩
  | other hch _ hpiece =>
    obtain ⟨d, hd, hle⟩ := hpiece
    exact .inr ⟨⟨d, hd, isPlain_of_le hle⟩, by rw [toLower_of_le hch, isPlain_of_le hch]⟩

theorem flatten_eq_iff {cs : List Char} {pieces : List (List Char)}
    (h : List.Forall₂ LowerCase cs pieces) {ds : List Char} (hds : ∀ d ∈ ds, isPlain d = true) :
    pieces.flatten = ds ↔ cs.map Char.toLower = ds := by
  induction h generalizing ds with
  | nil => rfl
  | @cons ch piece cs pieces hpiece _ ih =>
    rw [List.flatten_cons, List.map_cons]
    rcases hpiece.eq_or with rfl | ⟨⟨d, hd, hplain⟩, hch⟩
    · cases ds with
      | nil => simp
      | cons d ds =>
        rw [List.singleton_append, List.cons_eq_cons, List.cons_eq_cons,
          ih (List.forall_mem_cons.mp hds).2]
    -- Whichever way this character is put into lower case, what comes of it stands in no plain name.
    · refine iff_of_false ?_ ?_
      · rintro rfl
        rw [hds d (List.mem_append_left _ hd)] at hplain
        cases hplain
      · rintro rfl
        rw [hds _ List.mem_cons_self] at hch
        cases hch

theorem eq_iff_sameWord (h : LowersTo text lower) (hname : name.toList.all isPlain = true) :
    lower = name ↔ sameWord text name = true := by
  obtain ⟨pieces, hpieces, hlower⟩ := h
  rw [List.all_eq_true] at hname
  have hsame : name.toList.map Char.toLower = name.toList :=
    (List.map_congr_left fun ch hch => (isPlain_iff.mp (hname ch hch)).2.1).trans (List.map_id _)
  rw [sameWord_iff, hsame, ← flatten_eq_iff hpieces hname, hlower, String.toList_inj]

end Text

variable {text lower : String}

/-- A level is found by comparing its name with the text in lower case. -/
theorem Level.ofName?_eq_some_iff {l : Level} (h : Text.LowersTo text lower) :
    ofName? text = some l ↔ lower = l.name ∨ l = .warn ∧ lower = "warning" := by
  have hname (l : Level) : Text.sameWord text l.name = decide (lower = l.name) := by
    rw [Bool.eq_iff_iff, decide_eq_true_iff, Text.eq_iff_sameWord h (by cases l <;> rfl)]
  have hwarning : Text.sameWord text "warning" = decide (lower = "warning") := by
    rw [Bool.eq_iff_iff, decide_eq_true_iff, Text.eq_iff_sameWord h rfl]
  simp only [ofName?, hname, hwarning]
  constructor
  · intro hl
    split at hl
    · next l' hfind =>
      cases hl
      have hlower := List.find?_some hfind
      exact .inl (of_decide_eq_true hlower)
    · split at hl
      · next hlower =>
        cases hl
        exact .inr ⟨rfl, of_decide_eq_true hlower⟩
      · cases hl
  · rintro (rfl | ⟨rfl, rfl⟩)
    · cases l <;> rfl
    · rfl

/-- A format is found by comparing its name with the text in lower case. -/
theorem Format.ofName?_eq_some_iff {f : Format} (h : Text.LowersTo text lower) :
    ofName? text = some f ↔ lower = f.name := by
  have hname (f : Format) : Text.sameWord text f.name = decide (lower = f.name) := by
    rw [Bool.eq_iff_iff, decide_eq_true_iff, Text.eq_iff_sameWord h (by cases f <;> rfl)]
  simp only [ofName?, hname]
  constructor
  · intro hf
    have hlower := List.find?_some hf
    exact of_decide_eq_true hlower
  · rintro rfl
    cases f <;> rfl

end LicenseExpr
