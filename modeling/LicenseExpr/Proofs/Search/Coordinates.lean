import LicenseExpr.Search.Coordinates
import LicenseExpr.Proofs.Token

/-!
# Coordinates and their display

Coordinates are read from the segments between the slashes of a trimmed text, and the only thing that
reading forgets is whether a missing namespace was left empty or written `-`. The standard form of a
text has `-` there. Coordinates are displayed in standard form, the display is read back, and two texts
have the same coordinates exactly if they have the same standard form (`coordinates_by_standardText`).
-/

namespace LicenseExpr

/-! ## Segments -/

section Split

variable {α : Type} [DecidableEq α]

theorem length_splitOn (x : α) (xs : List α) : (xs.splitOn x).length = xs.count x + 1 := by
  induction xs with
  | nil => rfl
  | cons y xs ih =>
    rw [List.splitOn_cons_eq_if_modifyHead, List.count_cons]
    by_cases h : y = x <;> simp [h, ih]

theorem notMem_of_mem_splitOn {x : α} {xs part : List α} (h : part ∈ xs.splitOn x) : x ∉ part := by
  induction xs generalizing part with
  | nil =>
    rw [List.splitOn_nil, List.mem_singleton] at h
    simp [h]
  | cons y xs ih =>
    rw [List.splitOn_cons_eq_if_modifyHead] at h
    obtain ⟨first, rest, hparts⟩ := List.exists_cons_of_ne_nil (List.splitOn_ne_nil x xs)
    rw [hparts, List.modifyHead_cons] at h
    rw [hparts] at ih
    split at h
    · rcases List.mem_cons.mp h with rfl | h
      · exact List.not_mem_nil
      · exact ih h
    · next hne =>
      rcases List.mem_cons.mp h with rfl | h
      · simpa [Ne.symm (by simpa using hne)] using ih List.mem_cons_self
      · exact ih (List.mem_cons_of_mem _ h)

end Split

/-! ## Trimmed texts -/

namespace Text

/-- No blank stands at either end. -/
def Trimmed (cs : List Char) : Prop :=
  (∀ ch ∈ cs.head?, isBlank ch = false) ∧ ∀ ch ∈ cs.getLast?, isBlank ch = false

theorem trimmed_trimChars (cs : List Char) : Trimmed (trimChars cs) := by
  rw [Trimmed, trimChars, List.head?_reverse, List.getLast?_reverse]
  refine ⟨fun ch hch => ?_, head?_dropWhile_eq_false _ _⟩
  have hlast : ch ∈ (cs.dropWhile isBlank).reverse.getLast? := by
    rw [← List.takeWhile_append_dropWhile (p := isBlank) (l := (cs.dropWhile isBlank).reverse),
      List.getLast?_append, Option.mem_def.mp hch, Option.some_or]
    rfl
  rw [List.getLast?_reverse] at hlast
  exact head?_dropWhile_eq_false _ _ ch hlast

theorem Trimmed.trimChars_eq {cs : List Char} (h : Trimmed cs) : trimChars cs = cs := by
  have hback : ∀ ch ∈ cs.reverse.head?, isBlank ch = false := by
    rw [List.head?_reverse]
    exact h.2
  have hdrop {ds : List Char} (hds : ∀ ch ∈ ds.head?, isBlank ch = false) : ds.dropWhile isBlank = ds :=
    dropWhile_append_of_head? (List.forall_mem_nil _) hds
  rw [trimChars, hdrop h.1, hdrop hback, List.reverse_reverse]

theorem Trimmed.replace {front mid back : List Char} (h : Trimmed (front ++ (mid ++ back)))
    (hfront : front ≠ []) (hback : back ≠ []) (mid' : List Char) :
    Trimmed (front ++ (mid' ++ back)) := by
  have hhead (cs : List Char) : (front ++ cs).head? = front.head? := by
    rw [List.head?_append, List.head?_eq_some_head hfront, Option.some_or]
  have hlast (cs : List Char) : (front ++ (cs ++ back)).getLast? = back.getLast? := by
    rw [← List.append_assoc, List.getLast?_append, List.getLast?_eq_some_getLast hback, Option.some_or]
  rw [Trimmed, hhead, hlast] at h ⊢
  exact h

end Text

namespace Search.Coordinates

/-! ## Standard form -/

/-- A segment for a namespace, with `-` where there is none. -/
def dashed (segment : List Char) : List Char := if segment = [] then ['-'] else segment

/-- A trimmed text with `-` for its third segment if that is empty. -/
def standardChars (cs : List Char) : List Char :=
  ['/'].intercalate ((cs.splitOn '/').modify 2 dashed)

/-- A text without blanks around it and with `-` for an empty third segment. -/
def standardText (text : String) : String := .ofList (standardChars (Text.trimChars text.toList))

theorem dashed_dashed (segment : List Char) : dashed (dashed segment) = dashed segment := by
  unfold dashed
  split <;> simp_all

theorem notMem_dashed {segment : List Char} (h : '/' ∉ segment) : '/' ∉ dashed segment := by
  unfold dashed
  split
  · decide
  · exact h

theorem readNameSpace_dashed (segment : List Char) :
    readNameSpace (dashed segment) = readNameSpace segment := by
  unfold dashed
  split
  · next h => rw [h]; rfl
  · rfl

theorem toList_getD_readNameSpace (segment : List Char) :
    ((readNameSpace segment).getD "-").toList = dashed segment := by
  unfold readNameSpace dashed
  split
  · next h => rcases h with rfl | rfl <;> rfl
  · next h => rw [if_neg (fun hnil => h (.inl hnil)), Option.getD_some, String.toList_ofList]

theorem splitOn_standardChars (cs : List Char) :
    (standardChars cs).splitOn '/' = (cs.splitOn '/').modify 2 dashed := by
  refine List.splitOn_intercalate '/' (fun segment hmem => ?_) ?_
  · obtain ⟨k, hk⟩ := List.mem_iff_getElem?.mp hmem
    rw [List.getElem?_modify] at hk
    obtain ⟨segment, hsegment, rfl⟩ := Option.map_eq_some_iff.mp hk
    have hslash : '/' ∉ segment := notMem_of_mem_splitOn (List.mem_of_getElem? hsegment)
    split
    · exact notMem_dashed hslash
    · exact hslash
  · rw [← List.length_pos_iff, List.length_modify, List.length_pos_iff]
    exact List.splitOn_ne_nil _ _

theorem standardChars_standardChars (cs : List Char) :
    standardChars (standardChars cs) = standardChars cs := by
  have hsame : dashed ∘ dashed = dashed := funext dashed_dashed
  rw [standardChars, splitOn_standardChars, List.modify_modify_eq, hsame, standardChars]

theorem trimmed_standardChars {cs type source segment name version : List Char} (h : Text.Trimmed cs)
    (hparts : cs.splitOn '/' = [type, source, segment, name, version]) :
    Text.Trimmed (standardChars cs) := by
  have hjoin (segment : List Char) : ['/'].intercalate [type, source, segment, name, version] =
      (type ++ '/' :: (source ++ ['/'])) ++ (segment ++ '/' :: (name ++ '/' :: version)) := by
    simp [List.intercalate]
  have hcs : ['/'].intercalate (cs.splitOn '/') = cs := List.intercalate_splitOn '/'
  rw [← hcs, hparts, hjoin] at h
  rw [standardChars, hparts]
  change Text.Trimmed (['/'].intercalate [type, source, dashed segment, name, version])
  rw [hjoin]
  exact h.replace (by simp) (by simp) _

/-! ## Reading -/

theorem ofText_eq_ok_iff {text : String} {c : Coordinates} :
    ofText text = .ok c ↔ ∃ segment, readNameSpace segment = c.nameSpace ∧
      (Text.trimChars text.toList).splitOn '/' =
        [c.type.toList, c.source.toList, segment, c.name.toList, c.version.toList] := by
  unfold ofText
  dsimp only
  constructor
  · intro h
    split at h
    · next type source segment name version hparts =>
      cases h
      exact ⟨segment, rfl, by simpa using hparts⟩
    · cases h
  · rintro ⟨segment, hsegment, hparts⟩
    rw [hparts]
    simp [hsegment]

theorem exists_segments {parts : List (List Char)} (h : parts.length = 5) :
    ∃ type source segment name version, parts = [type, source, segment, name, version] := by
  match parts, h with
  | [type, source, segment, name, version], _ => exact ⟨type, source, segment, name, version, rfl⟩

/-- A text is read as coordinates if there are four slashes between its ends. -/
theorem exists_ofText_eq_ok_iff {text : String} :
    (∃ c, ofText text = .ok c) ↔ (Text.trim text).toList.count '/' = 4 := by
  rw [Text.toList_trim]
  have hlength := length_splitOn '/' (Text.trimChars text.toList)
  constructor
  · rintro ⟨c, hc⟩
    obtain ⟨segment, -, hparts⟩ := ofText_eq_ok_iff.mp hc
    rw [hparts] at hlength
    exact (Nat.succ.inj hlength).symm
  · intro hcount
    rw [hcount] at hlength
    obtain ⟨type, source, segment, name, version, hparts⟩ := exists_segments hlength
    refine ⟨⟨.ofList type, .ofList source, readNameSpace segment, .ofList name, .ofList version⟩, ?_⟩
    exact ofText_eq_ok_iff.mpr ⟨segment, rfl, by simpa using hparts⟩

/-- Coordinates are displayed as the standard form of the text. -/
theorem toList_display {text : String} {c : Coordinates} (h : ofText text = .ok c) :
    c.display.toList = standardChars (Text.trimChars text.toList) := by
  obtain ⟨segment, hsegment, hparts⟩ := ofText_eq_ok_iff.mp h
  rw [standardChars, hparts, display, String.toList_intercalate, ← hsegment]
  simp only [List.map_cons, List.map_nil, toList_getD_readNameSpace]
  rfl

theorem ofText_of_standardChars_eq {text text' : String} {c : Coordinates} (h : ofText text = .ok c)
    (heq : standardChars (Text.trimChars text'.toList) = standardChars (Text.trimChars text.toList)) :
    ofText text' = .ok c := by
  obtain ⟨segment, hsegment, hparts⟩ := ofText_eq_ok_iff.mp h
  have hsplit := splitOn_standardChars (Text.trimChars text'.toList)
  rw [heq, splitOn_standardChars, hparts] at hsplit
  obtain ⟨type', source', segment', name', version', hparts'⟩ :
      ∃ a b c d e, (Text.trimChars text'.toList).splitOn '/' = [a, b, c, d, e] := by
    refine exists_segments ?_
    rw [← List.length_modify dashed _ 2, ← hsplit]
    rfl
  rw [hparts'] at hsplit
  have hsame : [c.type.toList, c.source.toList, dashed segment, c.name.toList, c.version.toList] =
      [type', source', dashed segment', name', version'] := hsplit
  simp only [List.cons.injEq, and_true] at hsame
  obtain ⟨htype, hsource, hdashed, hname, hversion⟩ := hsame
  refine ofText_eq_ok_iff.mpr ⟨segment', ?_, ?_⟩
  · rw [← readNameSpace_dashed, ← hdashed, readNameSpace_dashed, hsegment]
  · rw [hparts', ← htype, ← hsource, ← hname, ← hversion]

/-- A text is read as coordinates exactly if there are four slashes in what is left of it after
trimming. The coordinates are displayed in the standard form of the text, which reads as the same
coordinates again, and so does any other text of that standard form, but no text of another one. -/
theorem coordinates_by_standardText (text : String) :
    ((∃ c, ofText text = .ok c) ↔ (Text.trim text).toList.count '/' = 4) ∧
      ∀ c, ofText text = .ok c →
        c.display = standardText text ∧ ofText c.display = .ok c ∧
          ∀ text', ofText text' = .ok c ↔ standardText text' = standardText text := by
  refine ⟨exists_ofText_eq_ok_iff, fun c hc => ?_⟩
  have hdisplay : c.display = standardText text := by
    rw [standardText, ← toList_display hc, String.ofList_toList]
  refine ⟨hdisplay, ?_, fun text' => ?_⟩
  · obtain ⟨segment, -, hparts⟩ := ofText_eq_ok_iff.mp hc
    have htrimmed := trimmed_standardChars (Text.trimmed_trimChars text.toList) hparts
    refine ofText_of_standardChars_eq hc ?_
    rw [toList_display hc, htrimmed.trimChars_eq, standardChars_standardChars]
  · constructor
    · intro hc'
      rw [standardText, ← toList_display hc', String.ofList_toList, hdisplay]
    · intro heq
      exact ofText_of_standardChars_eq hc (String.ofList_injective heq)

/-- A text with blanks around it, nothing for its namespace and nothing for its version. -/
theorem coordinates_of_padded_text :
    ofText " maven/central//x y/\t" = .ok ⟨"maven", "central", none, "x y", ""⟩ ∧
      display ⟨"maven", "central", none, "x y", ""⟩ = "maven/central/-/x y/" ∧
      ofText "maven/central/-/x y/" = .ok ⟨"maven", "central", none, "x y", ""⟩ := by
  have h : ofText " maven/central//x y/\t" = .ok ⟨"maven", "central", none, "x y", ""⟩ := by
    decide +kernel
  have hdisplay : display ⟨"maven", "central", none, "x y", ""⟩ = "maven/central/-/x y/" := by
    decide +kernel
  obtain ⟨-, hread⟩ := coordinates_by_standardText " maven/central//x y/\t"
  exact ⟨h, hdisplay, hdisplay ▸ (hread _ h).2.1⟩

end Search.Coordinates

end LicenseExpr
