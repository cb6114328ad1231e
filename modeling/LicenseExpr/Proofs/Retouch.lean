import LicenseExpr.Proofs.RightNested.Classes
import LicenseExpr.Proofs.Scan.Classes
import Mathlib.Logic.Relation

/-!
# Retouched texts

What reading makes of a text depends on the classes of its tokens and on nothing else: texts with
the same classes are read as trees alike or end in the same error, whatever the dialect
(`reading_depends_on_classes`). A text is retouched by other blanks between its tokens, another
letter case of an operator or another name, and none of these changes a class.
-/

namespace LicenseExpr

/-! ## Lexemes of characters -/

def lexemes (cs : List Char) : List Lexeme := (Cursor.tokens ⟨cs, 0⟩).map (·.lexeme)

theorem map_lexeme_tokens_eq (cs : List Char) (offset : Nat) :
    (Cursor.tokens ⟨cs, offset⟩).map (·.lexeme) = lexemes cs :=
  Cursor.map_lexeme_tokens ⟨cs, 0⟩ offset

theorem lexemes_append {cs ds : List Char} (h : Apart cs ds) :
    lexemes (cs ++ ds) = lexemes cs ++ lexemes ds := by
  have happend := @Cursor.tokens_append ds ⟨cs, 0⟩ h
  rw [lexemes, happend, List.map_append, map_lexeme_tokens_eq, map_lexeme_tokens_eq]

/-- Blanks are seen only where they keep a word from going on. -/
theorem lexemes_of_blanks {cs blanks ds : List Char} (hblanks : ∀ ch ∈ blanks, Text.isBlank ch = true)
    (h : Apart cs ds ∨ blanks ≠ []) : lexemes (cs ++ (blanks ++ ds)) = lexemes cs ++ lexemes ds := by
  have hskip : lexemes (blanks ++ ds) = lexemes ds := by
    rw [lexemes, Cursor.tokens_append_of_blank hblanks, map_lexeme_tokens_eq]
  have happend : Apart cs (blanks ++ ds) := by
    rcases blanks with _ | ⟨ch, blanks⟩
    · exact h.resolve_right (absurd rfl)
    · refine apart_of_head? ?_ cs
      rintro _ ⟨⟩
      simp [isWordChar, hblanks ch List.mem_cons_self]
  rw [lexemes_append happend, hskip]

/-- A word that stands in a text as a whole. -/
structure WholeWord (before word behind : List Char) : Prop where
  ne_nil : word ≠ []
  chars : ∀ ch ∈ word, isWordChar ch = true
  before : ∀ ch ∈ before.getLast?, isWordChar ch = false
  behind : ∀ ch ∈ behind.head?, isWordChar ch = false

theorem wholeWord_iff {before word behind : List Char} :
    WholeWord before word behind ↔
      word ≠ [] ∧ word.all isWordChar ∧ before.getLast?.all (! isWordChar ·) ∧
        behind.head?.all (! isWordChar ·) := by
  have hnone (o : Option Char) : o.all (! isWordChar ·) ↔ ∀ ch ∈ o, isWordChar ch = false := by
    cases o <;> simp
  rw [hnone, hnone, List.all_eq_true]
  constructor
  · rintro ⟨hne, hchars, hbefore, hbehind⟩
    exact ⟨hne, hchars, hbefore, hbehind⟩
  · rintro ⟨hne, hchars, hbefore, hbehind⟩
    exact ⟨hne, hchars, hbefore, hbehind⟩

instance (before word behind : List Char) : Decidable (WholeWord before word behind) :=
  decidable_of_iff _ wholeWord_iff.symm

theorem lexemes_of_word {before word behind : List Char} (h : WholeWord before word behind) :
    lexemes (before ++ (word ++ behind)) =
      lexemes before ++ .word (String.ofList word) :: lexemes behind := by
  have hblanks : ∀ ch ∈ ([] : List Char), Text.isBlank ch = true := nofun
  have hword := @Cursor.tokens_of_written [] word behind _ hblanks (.word h.ne_nil h.chars) h.behind 0
  have hlexemes : lexemes (word ++ behind) = .word (String.ofList word) :: lexemes behind := by
    rw [lexemes, ← List.nil_append (word ++ behind), hword, List.map_cons, map_lexeme_tokens_eq]
  rw [lexemes_append (apart_of_getLast? h.before _), hlexemes]

theorem sameClasses_of_lexemes {text text' : String}
    (h : List.Forall₂ Lexeme.SameClass (lexemes text.toList) (lexemes text'.toList)) :
    SameClasses text text' := by
  rw [lexemes, lexemes, List.forall₂_map_left_iff, List.forall₂_map_right_iff] at h
  exact List.rel_append h (.cons .endOfInput .nil)

/-! ## Retouching -/

/-- One change of a text that changes no class of its tokens. -/
inductive Retouch : String → String → Prop where
  /-- Other blanks between two tokens; they may be missing where no word would go on then. -/
  | blanks (before behind : String) {old new : String} :
      (∀ ch ∈ old.toList, Text.isBlank ch = true) → (∀ ch ∈ new.toList, Text.isBlank ch = true) →
      Apart before.toList behind.toList ∨ old.toList ≠ [] ∧ new.toList ≠ [] →
      Retouch (before ++ old ++ behind) (before ++ new ++ behind)
  | letterCase (before behind : String) {old new : String} :
      WholeWord before.toList old.toList behind.toList →
      WholeWord before.toList new.toList behind.toList → Text.sameWord old new = true →
      Retouch (before ++ old ++ behind) (before ++ new ++ behind)
  | name (before behind : String) {old new : String} :
      WholeWord before.toList old.toList behind.toList →
      WholeWord before.toList new.toList behind.toList → Operator.ofWord? old = none →
      Operator.ofWord? new = none → Retouch (before ++ old ++ behind) (before ++ new ++ behind)

theorem sameClasses_of_words {before behind old new : String}
    (hold : WholeWord before.toList old.toList behind.toList)
    (hnew : WholeWord before.toList new.toList behind.toList)
    (h : Operator.ofWord? old = Operator.ofWord? new) :
    SameClasses (before ++ old ++ behind) (before ++ new ++ behind) := by
  refine sameClasses_of_lexemes ?_
  simp only [String.toList_append, List.append_assoc, lexemes_of_word hold, lexemes_of_word hnew,
    String.ofList_toList]
  exact List.rel_append (List.forall₂_same.mpr fun l _ => .refl l)
    (.cons (.word h) (List.forall₂_same.mpr fun l _ => .refl l))

theorem sameClasses_of_retouch {text text' : String} (h : Retouch text text') :
    SameClasses text text' := by
  cases h with
  | blanks before behind hold hnew hapart =>
    refine sameClasses_of_lexemes ?_
    rw [String.toList_append, String.toList_append, String.toList_append, String.toList_append,
      List.append_assoc, List.append_assoc, lexemes_of_blanks hold (hapart.imp_right And.left),
      lexemes_of_blanks hnew (hapart.imp_right And.right)]
    exact List.forall₂_same.mpr fun l _ => .refl l
  | letterCase before behind hold hnew hcase =>
    exact sameClasses_of_words hold hnew (Operator.ofWord?_congr hcase)
  | name before behind hold hnew hname hname' =>
    exact sameClasses_of_words hold hnew (hname.trans hname'.symm)

theorem sameClasses_of_retouches {text text' : String} (h : Relation.ReflTransGen Retouch text text') :
    SameClasses text text' := by
  induction h with
  | refl => exact .refl text
  | tail _ hlast ih => exact ih.trans (sameClasses_of_retouch hlast)

/-! ## Readings -/

/-- The reader makes trees alike of both texts, or finds the same error at the same tokens. -/
def Reader.ReadsAlike (reader : Reader) (text text' : String) : Prop :=
  EndsAlike (SyntaxError.Alike (Paired text text')) (Expression.Alike (Paired text text'))
    (reader.read text).result (reader.read text').result

/-- Only the classes of tokens have a part in how a text is read, so retouching a text changes
neither the shape of its tree nor its error. -/
theorem reading_depends_on_classes (reader : Reader) (text text' : String) :
    (SameClasses text text' → reader.ReadsAlike text text') ∧
      (Relation.ReflTransGen Retouch text text' → reader.ReadsAlike text text') := by
  have hread : SameClasses text text' → reader.ReadsAlike text text' := by
    obtain ⟨dialect, limit⟩ := reader
    intro h
    cases dialect with
    | lenient => exact RightNested.endsAlike_of_lenient h
    | strict => exact @Scan.endsAlike_of_manner .rightNested limit text text' h
    | spdx => exact @Scan.endsAlike_of_manner .byPrecedence limit text text' h
  exact ⟨hread, fun h => hread (sameClasses_of_retouches h)⟩

/-- Another blank, another letter case, a blank next to a parenthesis and another name. -/
theorem retouched_text_reads_alike :
    Relation.ReflTransGen Retouch "MIT or(X)" "MIT\tOR (BSD)" ∧
      Reader.ReadsAlike ⟨.spdx, 1⟩ "MIT or(X)" "MIT\tOR (BSD)" := by
  have hblank : ∀ ch ∈ " ".toList, Text.isBlank ch = true := List.all_eq_true.mp (by decide)
  have htab : ∀ ch ∈ "\t".toList, Text.isBlank ch = true := List.all_eq_true.mp (by decide)
  have hapart : Apart "MIT\tOR".toList "(X)".toList := apart_of_head? (by simp [isWordChar]) _
  have hkind : Retouch "MIT or(X)" "MIT\tor(X)" :=
    @Retouch.blanks "MIT" "or(X)" " " "\t" hblank htab (.inr (by decide))
  have hcase : Retouch "MIT\tor(X)" "MIT\tOR(X)" :=
    @Retouch.letterCase "MIT\t" "(X)" "or" "OR" (by decide) (by decide) (by decide)
  have hnew : Retouch "MIT\tOR(X)" "MIT\tOR (X)" :=
    @Retouch.blanks "MIT\tOR" "(X)" "" " " (List.forall_mem_nil _) hblank (.inl hapart)
  have hname : Retouch "MIT\tOR (X)" "MIT\tOR (BSD)" :=
    @Retouch.name "MIT\tOR (" ")" "X" "BSD" (by decide) (by decide) (by decide) (by decide)
  have hchain : Relation.ReflTransGen Retouch "MIT or(X)" "MIT\tOR (BSD)" :=
    (((Relation.ReflTransGen.single hkind).tail hcase).tail hnew).tail hname
  exact ⟨hchain, (reading_depends_on_classes ⟨.spdx, 1⟩ "MIT or(X)" "MIT\tOR (BSD)").2 hchain⟩

end LicenseExpr
