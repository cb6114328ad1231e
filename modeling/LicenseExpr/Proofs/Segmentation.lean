import LicenseExpr.Proofs.Token
import Mathlib.Data.List.Chain

/-!
# Segmentations

A segmentation cuts a text into pieces and leaves nothing out. A piece is a parenthesis or a word with
the blanks before it, more blanks may stand behind the last piece, and two words never touch. Its
tokens start behind all of the text before them. Each text has tokens from a segmentation, and all its
segmentations have the same ones (`tokenize_eq_iff`).
-/

namespace LicenseExpr

/-- A lexeme that is not the end, as it is written behind some blanks. -/
structure Piece where
  gap : List Char
  lexeme : Lexeme
  spelling : List Char
  blank : ∀ ch ∈ gap, Text.isBlank ch = true
  written : lexeme.Written spelling

namespace Piece

def chars (p : Piece) : List Char := p.gap ++ p.spelling

def IsWord (p : Piece) : Prop := ∃ text, p.lexeme = .word text

/-- If both pieces are words, blanks keep them apart. -/
def StandsApart (p q : Piece) : Prop := p.IsWord → q.IsWord → q.gap ≠ []

/-- The tokens of pieces that stand behind `offset` bytes. -/
def tokens (offset : Nat) (ps : List Piece) : List Token :=
  ps.mapIdx fun k p =>
    ⟨p.lexeme, offset + Text.byteLength ((ps.take k).flatMap chars ++ p.gap)⟩

end Piece

structure Segmentation (text : String) where
  pieces : List Piece
  /-- The blanks behind the last piece. -/
  last : List Char
  blank : ∀ ch ∈ last, Text.isBlank ch = true
  separated : pieces.IsChain Piece.StandsApart
  lossless : pieces.flatMap Piece.chars ++ last = text.toList

def Segmentation.tokens {text : String} (s : Segmentation text) : List Token :=
  Piece.tokens 0 s.pieces ++ [⟨.endOfInput, Text.byteLength text.toList⟩]

/-! ## Pieces next to each other -/

theorem isWordChar_of_isBlank {ch : Char} (h : Text.isBlank ch = true) : isWordChar ch = false := by
  simp [isWordChar, h]

theorem Lexeme.endsBefore_iff {l : Lexeme} {rest : List Char} :
    l.EndsBefore rest ↔ (∃ text, l = .word text) → ∀ ch ∈ rest.head?, isWordChar ch = false := by
  cases l <;> simp [EndsBefore]

namespace Piece

variable {p : Piece} {ps : List Piece} {last : List Char}

theorem tokens_cons (offset : Nat) (p : Piece) (ps : List Piece) :
    tokens offset (p :: ps) =
      ⟨p.lexeme, offset + Text.byteLength p.gap⟩ ::
        tokens (offset + Text.byteLength p.gap + Text.byteLength p.spelling) ps := by
  simp only [tokens, List.mapIdx_cons, List.take_zero, List.flatMap_nil, List.take_succ_cons,
    List.flatMap_cons, Text.byteLength_append, Text.byteLength_nil, chars, Nat.add_assoc, Nat.zero_add]

theorem exists_chars_eq_cons (p : Piece) :
    ∃ ch tail, p.chars = ch :: tail ∧ (isWordChar ch = true ↔ p.IsWord ∧ p.gap = []) := by
  obtain ⟨gap, lexeme, spelling, hblank, hwritten⟩ := p
  rcases gap with _ | ⟨ch, gap⟩
  · cases hwritten with
    | leftParen => exact ⟨'(', [], rfl, by simp [isWordChar, IsWord]⟩
    | rightParen => exact ⟨')', [], rfl, by simp [isWordChar, IsWord]⟩
    | word hne hword =>
      obtain ⟨ch, tail, rfl⟩ := List.exists_cons_of_ne_nil hne
      exact ⟨ch, tail, rfl, iff_of_true (hword ch List.mem_cons_self) ⟨⟨_, rfl⟩, rfl⟩⟩
  · refine ⟨ch, gap ++ spelling, rfl, ?_⟩
    simp [isWordChar_of_isBlank (hblank ch List.mem_cons_self)]

/-- A piece is as long as it can be exactly if the next one stands apart from it. -/
theorem endsBefore_iff (hlast : ∀ ch ∈ last, Text.isBlank ch = true) :
    p.lexeme.EndsBefore (ps.flatMap chars ++ last) ↔ ∀ q ∈ ps.head?, p.StandsApart q := by
  rw [Lexeme.endsBefore_iff]
  cases ps with
  | nil =>
    have hhead : ∀ ch ∈ last.head?, isWordChar ch = false :=
      fun ch h => isWordChar_of_isBlank (hlast ch (List.mem_of_mem_head? h))
    exact iff_of_true (fun _ => hhead) nofun
  | cons q qs =>
    obtain ⟨ch, tail, hq, hch⟩ := q.exists_chars_eq_cons
    rw [List.flatMap_cons, hq, List.cons_append, List.cons_append, List.head?_cons, List.head?_cons]
    simp only [Option.mem_def, Option.some.injEq, forall_eq', ← Bool.not_eq_true, hch, not_and]
    rfl

theorem tokens_chars (hlast : ∀ ch ∈ last, Text.isBlank ch = true)
    (hchain : ps.IsChain StandsApart) (offset : Nat) :
    Cursor.tokens ⟨ps.flatMap chars ++ last, offset⟩ = tokens offset ps := by
  induction ps generalizing offset with
  | nil => exact Cursor.tokens_of_blank hlast offset
  | cons p ps ih =>
    obtain ⟨hapart, hchain⟩ := List.isChain_cons.mp hchain
    have hend : p.lexeme.EndsBefore (ps.flatMap chars ++ last) := (endsBefore_iff hlast).mpr hapart
    rw [List.flatMap_cons, chars, List.append_assoc, List.append_assoc,
      Cursor.tokens_of_written p.blank p.written hend, ih hchain, tokens_cons]

/-- Whatever stands at a cursor can be cut into pieces that stand apart. -/
theorem exists_pieces (c : Cursor) :
    ∃ (ps : List Piece) (last : List Char), (∀ ch ∈ last, Text.isBlank ch = true) ∧
      ps.IsChain StandsApart ∧ ps.flatMap chars ++ last = c.rest := by
  induction c using Cursor.tokens_induction with
  | blank cs offset hblank => exact ⟨[], cs, hblank, .nil, rfl⟩
  | written blanks cs rest l offset hblanks hl hend ih =>
    obtain ⟨ps, last, hlast, hchain, rfl⟩ := ih
    let p : Piece := ⟨blanks, l, cs, hblanks, hl⟩
    refine ⟨p :: ps, last, hlast, List.isChain_cons.mpr ⟨?_, hchain⟩, ?_⟩
    · exact (endsBefore_iff (p := p) hlast).mp hend
    · rw [List.flatMap_cons, List.append_assoc, chars, List.append_assoc]

end Piece

/-! ## Texts -/

theorem Segmentation.tokens_eq {text : String} (s : Segmentation text) : s.tokens = tokenize text := by
  have htokens := Piece.tokens_chars s.blank s.separated 0
  rw [s.lossless] at htokens
  rw [tokenize, Cursor.endToken, stop_ofText, Cursor.ofText, htokens, tokens]

theorem nonempty_segmentation (text : String) : Nonempty (Segmentation text) := by
  obtain ⟨ps, last, hlast, hchain, hlossless⟩ := Piece.exists_pieces (Cursor.ofText text)
  exact ⟨⟨ps, last, hlast, hchain, hlossless⟩⟩

/-- The tokens of a text are those of its segmentations: there is one, and none has other tokens. -/
theorem tokenize_eq_iff {text : String} {tokens : List Token} :
    tokenize text = tokens ↔ ∃ s : Segmentation text, s.tokens = tokens := by
  constructor
  · rintro rfl
    obtain ⟨s⟩ := nonempty_segmentation text
    exact ⟨s, s.tokens_eq⟩
  · rintro ⟨s, rfl⟩
    exact s.tokens_eq.symm

end LicenseExpr
