import LicenseExpr.Token
import Mathlib.Data.List.TakeWhile

/-!
# Tokens and the text before them

Tokens start one behind the other, so a byte at which a token starts tells which one it is
(`eq_of_start_eq`). What stands behind a token has no part in it: the tokens before any place of a
text stay what they are if the text goes on with a blank there (`exists_tokens_append`).
-/

namespace LicenseExpr

theorem takeWhile_append_of_head? {α : Type} {p : α → Bool} {xs ys : List α}
    (hxs : ∀ x ∈ xs, p x = true) (hys : ∀ y ∈ ys.head?, p y = false) :
    (xs ++ ys).takeWhile p = xs := by
  rw [List.takeWhile_append_of_pos hxs]
  cases ys with
  | nil => simp
  | cons y ys => rw [List.takeWhile_cons_of_neg (by simp [hys y rfl]), List.append_nil]

theorem dropWhile_append_of_head? {α : Type} {p : α → Bool} {xs ys : List α}
    (hxs : ∀ x ∈ xs, p x = true) (hys : ∀ y ∈ ys.head?, p y = false) :
    (xs ++ ys).dropWhile p = ys := by
  rw [List.dropWhile_append_of_pos hxs]
  cases ys with
  | nil => rfl
  | cons y ys => rw [List.dropWhile_cons_of_neg (by simp [hys y rfl])]

theorem head?_dropWhile_eq_false {α : Type} (p : α → Bool) (xs : List α) :
    ∀ x ∈ (xs.dropWhile p).head?, p x = false := by
  intro x hx
  have h := List.head?_dropWhile_not p xs
  rw [Option.mem_def.mp hx] at h
  simpa using h

/-! ## Lexemes as written -/

/-- The characters of a lexeme that is not the end. -/
inductive Lexeme.Written : Lexeme → List Char → Prop where
  | word {cs : List Char} : cs ≠ [] → (∀ ch ∈ cs, isWordChar ch = true) →
      Written (.word (String.ofList cs)) cs
  | leftParen : Written .leftParen ['(']
  | rightParen : Written .rightParen [')']

/-- A word is as long as it can be. -/
def Lexeme.EndsBefore : Lexeme → List Char → Prop
  | word _, rest => ∀ ch ∈ rest.head?, isWordChar ch = false
  | leftParen, _ | rightParen, _ | endOfInput, _ => True

theorem isWordChar_iff {ch : Char} :
    isWordChar ch = true ↔ Text.isBlank ch = false ∧ ch ≠ '(' ∧ ch ≠ ')' := by
  simp [isWordChar, and_assoc]

theorem Lexeme.Written.exists_cons {l : Lexeme} {cs : List Char} (h : l.Written cs) :
    ∃ first tail, cs = first :: tail ∧ Text.isBlank first = false := by
  cases h with
  | @word cs hne hword =>
    obtain ⟨first, tail, rfl⟩ := List.exists_cons_of_ne_nil hne
    exact ⟨first, tail, rfl, (isWordChar_iff.mp (hword first List.mem_cons_self)).1⟩
  | leftParen => exact ⟨'(', [], rfl, by decide⟩
  | rightParen => exact ⟨')', [], rfl, by decide⟩

theorem Lexeme.Written.ne_endOfInput {l : Lexeme} {cs : List Char} (h : l.Written cs) :
    l ≠ .endOfInput := by
  cases h <;> nofun

/-- No word goes on from the first text into the second. -/
def Apart (cs ds : List Char) : Prop :=
  ∀ a ∈ cs.getLast?, ∀ b ∈ ds.head?, isWordChar a = true → isWordChar b = false

theorem apart_of_head? {ds : List Char} (h : ∀ b ∈ ds.head?, isWordChar b = false)
    (cs : List Char) : Apart cs ds :=
  fun _ _ b hb _ => h b hb

theorem apart_of_getLast? {cs : List Char} (h : ∀ a ∈ cs.getLast?, isWordChar a = false)
    (ds : List Char) : Apart cs ds := by
  intro a ha b _ hword
  rw [h a ha] at hword
  cases hword

theorem Lexeme.Written.endsBefore {l : Lexeme} {cs ds : List Char} (h : l.Written cs)
    (hapart : Apart cs ds) : l.EndsBefore ds := by
  cases h with
  | leftParen | rightParen => trivial
  | @word cs hne hword =>
    intro b hb
    have hlast := List.getLast?_eq_some_getLast hne
    exact hapart _ hlast b hb (hword _ (List.getLast_mem hne))

theorem Lexeme.endsBefore_append {l : Lexeme} {rest ds : List Char} (hne : rest ≠ [])
    (h : l.EndsBefore rest) : l.EndsBefore (rest ++ ds) := by
  obtain ⟨ch, rest, rfl⟩ := List.exists_cons_of_ne_nil hne
  cases l with
  | leftParen | rightParen | endOfInput => trivial
  | word text => exact h

namespace Cursor

/-! ## Single tokens -/

theorem skipBlanks_append {blanks rest : List Char}
    (hblanks : ∀ ch ∈ blanks, Text.isBlank ch = true)
    (hrest : ∀ ch ∈ rest.head?, Text.isBlank ch = false) (offset : Nat) :
    skipBlanks ⟨blanks ++ rest, offset⟩ = ⟨rest, offset + Text.byteLength blanks⟩ := by
  rw [skipBlanks, takeWhile_append_of_head? hblanks hrest, dropWhile_append_of_head? hblanks hrest]

theorem lexeme_next_of_blank {cs : List Char} (h : ∀ ch ∈ cs, Text.isBlank ch = true) (offset : Nat) :
    (next ⟨cs, offset⟩).1.lexeme = .endOfInput := by
  have hdrop : cs.dropWhile Text.isBlank = [] := List.dropWhile_eq_nil_iff.mpr h
  rw [next, skipBlanks, hdrop]

theorem next_of_written {blanks cs rest : List Char} {l : Lexeme}
    (hblanks : ∀ ch ∈ blanks, Text.isBlank ch = true) (hl : l.Written cs) (hrest : l.EndsBefore rest)
    (offset : Nat) :
    next ⟨blanks ++ (cs ++ rest), offset⟩ =
      (⟨l, offset + Text.byteLength blanks⟩,
        ⟨rest, offset + Text.byteLength blanks + Text.byteLength cs⟩) := by
  have hskip : skipBlanks ⟨blanks ++ (cs ++ rest), offset⟩ =
      ⟨cs ++ rest, offset + Text.byteLength blanks⟩ := by
    obtain ⟨first, tail, rfl, hfirst⟩ := hl.exists_cons
    refine skipBlanks_append hblanks ?_ offset
    rintro _ ⟨⟩
    exact hfirst
  rw [next, hskip]
  cases hl with
  | leftParen | rightParen => rfl
  | @word cs hne hword =>
    obtain ⟨first, tail, rfl⟩ := List.exists_cons_of_ne_nil hne
    obtain ⟨-, hleft, hright⟩ := isWordChar_iff.mp (hword first List.mem_cons_self)
    have htail : ∀ ch ∈ tail, isWordChar ch = true := fun ch h => hword ch (List.mem_cons_of_mem _ h)
    dsimp only [List.cons_append]
    split
    · contradiction
    · next heq => exact absurd (List.cons.inj heq).1 hleft
    · next heq => exact absurd (List.cons.inj heq).1 hright
    · next heq =>
      obtain ⟨rfl, rfl⟩ := List.cons.inj heq
      rw [takeWhile_append_of_head? htail hrest, dropWhile_append_of_head? htail hrest]

/-- What stands at a cursor: blanks only, or a token as it is written. -/
theorem blank_or_written (c : Cursor) :
    (∀ ch ∈ c.rest, Text.isBlank ch = true) ∨
      ∃ blanks cs rest l, c.rest = blanks ++ (cs ++ rest) ∧
        (∀ ch ∈ blanks, Text.isBlank ch = true) ∧ Lexeme.Written l cs ∧ l.EndsBefore rest := by
  have hsplit := List.takeWhile_append_dropWhile (p := Text.isBlank) (l := c.rest)
  have hblanks : ∀ ch ∈ c.rest.takeWhile Text.isBlank, Text.isBlank ch = true :=
    fun ch h => List.mem_takeWhile_imp h
  have hhead := head?_dropWhile_eq_false Text.isBlank c.rest
  rcases hdrop : c.rest.dropWhile Text.isBlank with _ | ⟨first, tail⟩
  · rw [hdrop, List.append_nil] at hsplit
    exact .inl (hsplit ▸ hblanks)
  · rw [hdrop] at hsplit hhead
    refine .inr ⟨c.rest.takeWhile Text.isBlank, ?_⟩
    by_cases hleft : first = '('
    · subst hleft
      exact ⟨['('], tail, .leftParen, hsplit.symm, hblanks, .leftParen, trivial⟩
    by_cases hright : first = ')'
    · subst hright
      exact ⟨[')'], tail, .rightParen, hsplit.symm, hblanks, .rightParen, trivial⟩
    have hfirst := isWordChar_iff.mpr ⟨hhead first rfl, hleft, hright⟩
    refine ⟨first :: tail.takeWhile isWordChar, tail.dropWhile isWordChar, _, ?_, hblanks,
      .word (List.cons_ne_nil _ _) ?_, head?_dropWhile_eq_false isWordChar tail⟩
    · rw [List.cons_append, List.takeWhile_append_dropWhile, hsplit]
    · exact List.forall_mem_cons.mpr ⟨hfirst, fun ch h => List.mem_takeWhile_imp h⟩

/-! ## All tokens -/

theorem tokens_of_blank {cs : List Char} (h : ∀ ch ∈ cs, Text.isBlank ch = true) (offset : Nat) :
    tokens ⟨cs, offset⟩ = [] := by
  rw [tokens, dif_pos (lexeme_next_of_blank h offset)]

theorem tokens_of_written {blanks cs rest : List Char} {l : Lexeme}
    (hblanks : ∀ ch ∈ blanks, Text.isBlank ch = true) (hl : l.Written cs) (hrest : l.EndsBefore rest)
    (offset : Nat) :
    tokens ⟨blanks ++ (cs ++ rest), offset⟩ =
      ⟨l, offset + Text.byteLength blanks⟩ ::
        tokens ⟨rest, offset + Text.byteLength blanks + Text.byteLength cs⟩ := by
  have hnext := next_of_written hblanks hl hrest offset
  rw [tokens, dif_neg (by rw [hnext]; exact hl.ne_endOfInput), hnext]

theorem length_lt_of_written {blanks cs rest : List Char} {l : Lexeme} (h : l.Written cs) :
    rest.length < (blanks ++ (cs ++ rest)).length := by
  obtain ⟨first, tail, rfl, -⟩ := h.exists_cons
  simp only [List.length_append, List.length_cons]
  omega

/-- Goes through the tokens of a text as they are written. -/
@[elab_as_elim] theorem tokens_induction {motive : Cursor → List Token → Prop}
    (blank : ∀ cs offset, (∀ ch ∈ cs, Text.isBlank ch = true) → motive ⟨cs, offset⟩ [])
    (written : ∀ blanks cs rest l offset, (∀ ch ∈ blanks, Text.isBlank ch = true) →
      Lexeme.Written l cs → l.EndsBefore rest →
      motive ⟨rest, offset + Text.byteLength blanks + Text.byteLength cs⟩
        (tokens ⟨rest, offset + Text.byteLength blanks + Text.byteLength cs⟩) →
      motive ⟨blanks ++ (cs ++ rest), offset⟩ (⟨l, offset + Text.byteLength blanks⟩ ::
        tokens ⟨rest, offset + Text.byteLength blanks + Text.byteLength cs⟩))
    (c : Cursor) : motive c c.tokens := by
  induction hn : c.rest.length using Nat.strongRecOn generalizing c with
  | ind n ih =>
    subst hn
    obtain ⟨text, offset⟩ := c
    rcases blank_or_written ⟨text, offset⟩ with hblank | ⟨blanks, cs, rest, l, rfl, hblanks, hl, hrest⟩
    · rw [tokens_of_blank hblank]
      exact blank text offset hblank
    · rw [tokens_of_written hblanks hl hrest]
      exact written blanks cs rest l offset hblanks hl hrest (ih _ (length_lt_of_written hl) _ rfl)

/-! ## Where tokens start -/

theorem byteLength_pos_of_written {l : Lexeme} {cs : List Char} (h : l.Written cs) :
    0 < Text.byteLength cs := by
  obtain ⟨first, tail, rfl, -⟩ := h.exists_cons
  have := first.utf8Size_pos
  rw [Text.byteLength_cons]
  omega

theorem start_of_mem_tokens {c : Cursor} :
    ∀ t ∈ c.tokens, c.offset ≤ t.start ∧ t.start < c.stop := by
  induction c using tokens_induction with
  | blank cs offset h => exact nofun
  | written blanks cs rest l offset hblanks hl hrest ih =>
    have hpos := byteLength_pos_of_written hl
    simp only [stop, Text.byteLength_append] at *
    intro t ht
    rcases List.mem_cons.mp ht with rfl | ht
    · dsimp only
      omega
    · have := ih t ht
      omega

theorem pairwise_start_tokens (c : Cursor) : c.tokens.Pairwise (·.start < ·.start) := by
  induction c using tokens_induction with
  | blank cs offset h => exact .nil
  | written blanks cs rest l offset hblanks hl hrest ih =>
    refine .cons (fun t ht => ?_) ih
    have hpos := byteLength_pos_of_written hl
    have hstart := (start_of_mem_tokens t ht).1
    dsimp only at *
    omega

/-! ## Places in a text -/

theorem ofText_ofList (cs : List Char) : ofText (String.ofList cs) = ⟨cs, 0⟩ := by
  rw [ofText, String.toList_ofList]

theorem tokens_append_of_blank {blanks : List Char}
    (h : ∀ ch ∈ blanks, Text.isBlank ch = true) (cs : List Char) (offset : Nat) :
    tokens ⟨blanks ++ cs, offset⟩ = tokens ⟨cs, offset + Text.byteLength blanks⟩ := by
  rcases blank_or_written ⟨cs, offset⟩ with hblank | ⟨blanks', ws, rest, l, rfl, hblanks, hl, hrest⟩
  · have hall : ∀ ch ∈ blanks ++ cs, Text.isBlank ch = true :=
      List.forall_mem_append.mpr ⟨h, hblank⟩
    rw [tokens_of_blank hall, tokens_of_blank hblank]
  · have hall : ∀ ch ∈ blanks ++ blanks', Text.isBlank ch = true :=
      List.forall_mem_append.mpr ⟨h, hblanks⟩
    rw [← List.append_assoc, tokens_of_written hall hl hrest, tokens_of_written hblanks hl hrest]
    simp only [Text.byteLength_append, Nat.add_assoc]

theorem tokens_append {ds : List Char} (c : Cursor) (h : Apart c.rest ds) :
    tokens ⟨c.rest ++ ds, c.offset⟩ =
      c.tokens ++ tokens ⟨ds, c.offset + Text.byteLength c.rest⟩ := by
  induction c using tokens_induction with
  | blank cs offset hblank => exact tokens_append_of_blank hblank ds offset
  | written blanks cs rest l offset hblanks hl hrest ih =>
    have hend : l.EndsBefore (rest ++ ds) := by
      by_cases hnil : rest = []
      · subst hnil
        refine hl.endsBefore fun a ha => h a ?_
        rw [List.append_nil, List.getLast?_append, Option.mem_def.mp ha]
        rfl
      · exact Lexeme.endsBefore_append hnil hrest
    have hrestApart : Apart rest ds := by
      intro a ha
      refine h a ?_
      rw [List.getLast?_append, List.getLast?_append, Option.mem_def.mp ha]
      rfl
    have htokens := tokens_of_written hblanks hl hend offset
    rw [List.append_assoc, List.append_assoc, htokens, ih hrestApart]
    simp only [Text.byteLength_append, Nat.add_assoc, List.cons_append]

theorem tokens_append_rightParen (c : Cursor) (ds : List Char) :
    tokens ⟨c.rest ++ ')' :: ds, c.offset⟩ = c.tokens ++ ⟨.rightParen, c.stop⟩ :: tokens ⟨ds, c.stop + 1⟩ := by
  have hparen : Apart c.rest (')' :: ds) := apart_of_head? (by rintro _ ⟨⟩; decide) c.rest
  have hblanks : ∀ ch ∈ ([] : List Char), Text.isBlank ch = true := nofun
  have htoken := @tokens_of_written [] [')'] ds .rightParen hblanks .rightParen trivial c.stop
  rw [tokens_append c hparen]
  exact congrArg (c.tokens ++ ·) htoken

theorem map_lexeme_tokens (c : Cursor) (offset : Nat) :
    (tokens ⟨c.rest, offset⟩).map (·.lexeme) = c.tokens.map (·.lexeme) := by
  induction c using tokens_induction generalizing offset with
  | blank cs _ h => rw [tokens_of_blank h]
  | written blanks cs rest l _ hblanks hl hrest ih =>
    rw [tokens_of_written hblanks hl hrest, List.map_cons, List.map_cons, ih]

theorem endsBefore_append_space {l : Lexeme} {pre post : List Char} (h : l.EndsBefore (pre ++ post))
    (cont : List Char) : l.EndsBefore (pre ++ ' ' :: cont) := by
  cases l with
  | leftParen | rightParen | endOfInput => trivial
  | word text =>
    cases pre with
    | nil => rintro _ ⟨⟩; decide
    | cons ch pre => exact h

/-- The tokens before a token, or before the end, are read from the text before it, whatever stands
behind a blank there. -/
theorem exists_tokens_append (c : Cursor) :
    ∀ k ≤ c.tokens.length, ∃ pre post, c.rest = pre ++ post ∧
      (c.tokens ++ [c.endToken])[k]?.map Token.start = some (c.offset + Text.byteLength pre) ∧
      ∀ cont, tokens ⟨pre ++ ' ' :: cont, c.offset⟩ =
        c.tokens.take k ++ tokens ⟨cont, c.offset + Text.byteLength pre + 1⟩ := by
  have hspace {blanks : List Char} (h : ∀ ch ∈ blanks, Text.isBlank ch = true) (cont : List Char)
      (offset : Nat) : tokens ⟨blanks ++ ' ' :: cont, offset⟩ =
        tokens ⟨cont, offset + Text.byteLength blanks + 1⟩ := by
    rw [tokens_append_of_blank h]
    exact @tokens_append_of_blank [' '] (List.forall_mem_singleton.mpr (by decide)) cont _
  induction c using tokens_induction with
  | blank cs offset h =>
    intro k hk
    obtain rfl : k = 0 := Nat.le_zero.mp hk
    exact ⟨cs, [], (List.append_nil cs).symm, rfl, fun cont => hspace h cont offset⟩
  | written blanks cs rest l offset hblanks hl hrest ih =>
    rintro (_ | k) hk
    · exact ⟨blanks, cs ++ rest, rfl, rfl, fun cont => hspace hblanks cont offset⟩
    · obtain ⟨pre, post, rfl, hstart, htokens⟩ := ih k (Nat.le_of_succ_le_succ hk)
      refine ⟨blanks ++ (cs ++ pre), post, by simp, ?_, fun cont => ?_⟩
      · simpa [endToken, stop, Nat.add_assoc] using hstart
      · have hword := endsBefore_append_space hrest cont
        rw [List.append_assoc, List.append_assoc, tokens_of_written hblanks hl hword, htokens]
        simp only [Text.byteLength_append, Nat.add_assoc]
        rfl

theorem exists_tokens_take (c : Cursor) {k : Nat} (hk : k ≤ c.tokens.length) :
    ∃ pre post, c.rest = pre ++ post ∧
      (c.tokens ++ [c.endToken])[k]?.map Token.start = some (c.offset + Text.byteLength pre) ∧
      tokens ⟨pre, c.offset⟩ = c.tokens.take k := by
  obtain ⟨pre, post, hpost, hstart, htokens⟩ := c.exists_tokens_append k hk
  refine ⟨pre, post, hpost, hstart, ?_⟩
  have hspace : Apart pre [' '] := apart_of_head? (by rintro _ ⟨⟩; decide) pre
  have hnil (offset : Nat) : tokens ⟨[], offset⟩ = [] := tokens_of_blank (List.forall_mem_nil _) offset
  have hblank (offset : Nat) : tokens ⟨[' '], offset⟩ = [] :=
    tokens_of_blank (List.forall_mem_singleton.mpr (by decide)) offset
  have happend := @tokens_append [' '] ⟨pre, c.offset⟩ hspace
  dsimp only at happend
  rw [htokens [], hnil, hblank, List.append_nil, List.append_nil] at happend
  exact happend.symm

end Cursor

/-! ## Texts up to a byte -/

/-- The characters that end at byte `n` or before it. -/
def Text.takeBytes : Nat → List Char → List Char
  | _, [] => []
  | n, ch :: cs => if ch.utf8Size ≤ n then ch :: takeBytes (n - ch.utf8Size) cs else []

theorem Text.takeBytes_append (cs ds : List Char) : takeBytes (byteLength cs) (cs ++ ds) = cs := by
  induction cs with
  | nil =>
    cases ds with
    | nil => rfl
    | cons ch ds => exact if_neg (Nat.not_le.mpr ch.utf8Size_pos)
  | cons ch cs ih =>
    rw [byteLength_cons, List.cons_append, takeBytes, if_pos (Nat.le_add_right _ _),
      Nat.add_sub_cancel_left, ih]

def upToByte (text : String) (byte : Nat) : String := .ofList (Text.takeBytes byte text.toList)

/-- The text before a token has the tokens before it. -/
theorem tokens_upToByte {text : String} {front rest : List Token} {token : Token}
    (h : (Cursor.ofText text).tokens = front ++ token :: rest) :
    (Cursor.ofText (upToByte text token.start)).tokens = front ∧
      Text.byteLength (upToByte text token.start).toList = token.start := by
  have hk : front.length ≤ (Cursor.ofText text).tokens.length := by
    rw [h, List.length_append]
    exact Nat.le_add_right _ _
  obtain ⟨pre, post, hpost, hstart, htokens⟩ := (Cursor.ofText text).exists_tokens_take hk
  have htext : text.toList = pre ++ post := hpost
  have hbyte : token.start = Text.byteLength pre := by
    rw [h] at hstart
    simpa [Cursor.ofText] using hstart
  have hpre : (upToByte text token.start).toList = pre := by
    rw [upToByte, htext, hbyte, Text.takeBytes_append, String.toList_ofList]
  rw [h, List.take_left] at htokens
  rw [Cursor.ofText, hpre]
  exact ⟨htokens, hbyte.symm⟩

theorem pairwise_start_tokenize (text : String) : (tokenize text).Pairwise (·.start < ·.start) := by
  refine List.pairwise_append.mpr ⟨Cursor.pairwise_start_tokens _, List.pairwise_singleton _ _, ?_⟩
  intro t ht last hlast
  cases List.mem_singleton.mp hlast
  exact (Cursor.start_of_mem_tokens t ht).2

theorem eq_of_start_eq {xs ys xs' ys' : List Token} {t t' : Token}
    (h : (xs ++ t :: ys).Pairwise (·.start < ·.start)) (heq : xs ++ t :: ys = xs' ++ t' :: ys')
    (hstart : t.start = t'.start) : xs = xs' ∧ t = t' := by
  induction xs generalizing xs' with
  | nil =>
    rcases xs' with _ | ⟨x', xs'⟩
    · exact ⟨rfl, (List.cons.inj heq).1⟩
    · obtain ⟨rfl, hys⟩ := List.cons.inj heq
      have hlt := (List.pairwise_cons.mp h).1 t' (hys ▸ List.mem_append_right _ List.mem_cons_self)
      omega
  | cons x xs ih =>
    obtain ⟨hx, hxs⟩ := List.pairwise_cons.mp h
    rcases xs' with _ | ⟨x', xs'⟩
    · obtain ⟨rfl, -⟩ := List.cons.inj heq
      have hlt := hx t (List.mem_append_right _ List.mem_cons_self)
      omega
    · obtain ⟨rfl, hrest⟩ := List.cons.inj heq
      obtain ⟨rfl, ht⟩ := ih hxs hrest
      exact ⟨rfl, ht⟩

end LicenseExpr
