import LicenseExpr.Proofs.Token

/-!
# Cursors and bytes

A cursor stands for a byte of a text: what is left is the slice of the text from that byte on
(`StandsIn.slice?_rest`), and so it stays from token to token (`StandsIn.next`). A word is the slice from
the byte at which it starts to the one behind it, so that slice is never missing (`slice?_of_mem_tokens`).
-/

namespace LicenseExpr

namespace Text

/-- The text from one byte up to another, if no character goes on over either of them. -/
def slice? (text : String) (first last : Nat) : Option String := do
  let p ← text.pos? ⟨first⟩
  let q ← text.pos? ⟨last⟩
  (text.slice? p q).map (·.copy)

theorem exists_pos? {text front back : String} (h : text = front ++ back) :
    ∃ p, text.pos? front.rawEndPos = some p ∧ p.Splits front back := by
  subst h
  have hvalid : String.Pos.Raw.IsValid (front ++ back) front.rawEndPos :=
    String.Pos.Raw.isValid_iff_exists_append.mpr ⟨front, back, rfl, rfl⟩
  refine ⟨(front ++ back).pos front.rawEndPos hvalid, ?_, String.Pos.splits_append_rawEndPos⟩
  rw [String.pos?, String.Slice.pos?, dif_pos]
  · rfl
  · simpa using hvalid

theorem slice?_of_append {text front part back : String} (h : text = front ++ (part ++ back)) :
    slice? text front.utf8ByteSize (front ++ part).utf8ByteSize = some part := by
  obtain ⟨p, hp, hfront⟩ := exists_pos? h
  obtain ⟨q, hq, hback⟩ := exists_pos? (h.trans String.append_assoc.symm)
  obtain ⟨hle, hcopy⟩ := String.copy_slice_eq_iff_splits.mpr ⟨front, back, hfront, hback⟩
  have hbind : slice? text front.utf8ByteSize (front ++ part).utf8ByteSize =
      (text.pos? front.rawEndPos).bind fun p => (text.pos? (front ++ part).rawEndPos).bind fun q =>
        (text.slice? p q).map (·.copy) := rfl
  rw [hbind, hp, Option.bind_some, hq, Option.bind_some, String.slice?, dif_pos hle, Option.map_some,
    hcopy]

/-- As `slice?_of_append`, with bytes counted character by character. -/
theorem slice?_of_toList {text : String} {front part back : List Char}
    (h : text.toList = front ++ (part ++ back)) :
    slice? text (byteLength front) (byteLength front + byteLength part) = some (.ofList part) := by
  have htext : text = .ofList front ++ (.ofList part ++ .ofList back) := by
    rw [← String.ofList_append, ← String.ofList_append, ← h, String.ofList_toList]
  rw [← byteLength_append, byteLength_eq_utf8ByteSize, byteLength_eq_utf8ByteSize, String.ofList_append]
  exact slice?_of_append htext

end Text

namespace Cursor

/-- The next token is the end behind everything, or it is written behind some blanks. -/
theorem next_cases (c : Cursor) :
    c.next = (c.endToken, ⟨[], c.stop⟩) ∨
      ∃ blanks cs rest l, c.rest = blanks ++ (cs ++ rest) ∧ Lexeme.Written l cs ∧
        c.next = (⟨l, c.offset + Text.byteLength blanks⟩,
          ⟨rest, c.offset + Text.byteLength blanks + Text.byteLength cs⟩) := by
  obtain ⟨text, offset⟩ := c
  rcases blank_or_written ⟨text, offset⟩ with hblank | ⟨blanks, cs, rest, l, rfl, hblanks, hl, hend⟩
  · exact .inl (next_of_endOfInput (lexeme_next_of_blank hblank offset))
  · exact .inr ⟨blanks, cs, rest, l, rfl, hl, next_of_written hblanks hl hend offset⟩

/-- What is left is all of the text behind as many bytes as the cursor counts. -/
def StandsIn (c : Cursor) (text : String) : Prop :=
  ∃ front, text.toList = front ++ c.rest ∧ c.offset = Text.byteLength front

variable {c : Cursor} {t : Token} {text word : String}

theorem standsIn_ofText (text : String) : (ofText text).StandsIn text := ⟨[], rfl, rfl⟩

theorem StandsIn.slice?_rest (h : c.StandsIn text) :
    Text.slice? text c.offset (Text.byteLength text.toList) = some (.ofList c.rest) := by
  obtain ⟨front, htext, hoffset⟩ := h
  have hslice := @Text.slice?_of_toList text front c.rest [] (by rw [htext, List.append_nil])
  rwa [← Text.byteLength_append, ← htext, ← hoffset] at hslice

theorem StandsIn.next (h : c.StandsIn text) : c.next.2.StandsIn text := by
  obtain ⟨front, htext, hoffset⟩ := h
  rcases c.next_cases with hnext | ⟨blanks, cs, rest, l, hrest, -, hnext⟩
  · rw [hnext]
    refine ⟨text.toList, (List.append_nil _).symm, ?_⟩
    rw [htext, Text.byteLength_append, stop, hoffset]
  · rw [hnext]
    refine ⟨front ++ (blanks ++ cs), ?_, ?_⟩
    · simp [htext, hrest]
    · simp [hoffset, Nat.add_assoc]

/-- A word is the slice from the byte at which it starts to the one that the cursor is left at. -/
theorem StandsIn.slice?_word (h : c.StandsIn text) (hword : c.next.1.lexeme = .word word) :
    c.next.2.offset = c.next.1.start + Text.byteLength word.toList ∧
      Text.slice? text c.next.1.start c.next.2.offset = some word := by
  obtain ⟨front, htext, hoffset⟩ := h
  rcases c.next_cases with hnext | ⟨blanks, cs, rest, l, hrest, hl, hnext⟩
  · rw [hnext] at hword
    cases hword
  · rw [hnext] at hword ⊢
    obtain rfl : l = .word word := hword
    have hslice := @Text.slice?_of_toList text (front ++ blanks) cs rest (by simp [htext, hrest])
    rw [Text.byteLength_append, ← hoffset] at hslice
    cases hl with
    | word => exact ⟨by rw [String.toList_ofList], hslice⟩

theorem StandsIn.slice?_of_mem_tokens (h : c.StandsIn text) (ht : t ∈ c.tokens)
    (hword : t.lexeme = .word word) :
    Text.slice? text t.start (t.start + Text.byteLength word.toList) = some word := by
  fun_induction tokens c with
  | case1 => cases ht
  | case2 c _ ih =>
    rcases List.mem_cons.mp ht with rfl | ht
    · obtain ⟨hoffset, hslice⟩ := h.slice?_word hword
      rwa [hoffset] at hslice
    · exact ih h.next ht

end Cursor

/-- Every word of a text is the slice of it that begins at the word's byte. -/
theorem slice?_of_mem_tokenize {text word : String} {t : Token} (ht : t ∈ tokenize text)
    (hword : t.lexeme = .word word) :
    Text.slice? text t.start (t.start + Text.byteLength word.toList) = some word := by
  rcases List.mem_append.mp ht with ht | ht
  · exact (Cursor.standsIn_ofText text).slice?_of_mem_tokens ht hword
  · cases List.mem_singleton.mp ht
    cases hword

end LicenseExpr
