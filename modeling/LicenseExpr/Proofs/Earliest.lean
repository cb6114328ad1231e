import LicenseExpr.Proofs.Dialects
import LicenseExpr.Proofs.Legible

/-!
# Errors are found at the earliest token

The dialects that refuse malformed text read a text for as long as it can still be gone on with.
Where they find an error, the text before the token is the beginning of an accepted text, and no
accepted text begins with the tokens up to and including that one (`errors_are_earliest`).
-/

namespace LicenseExpr

open Scan

/-! ## Texts that can be gone on with -/

def Accepts (reader : Reader) (text : String) : Prop := ∃ e, (reader.read text).result = .ok e

/-- The text before a byte can be gone on with behind a space to a text that is accepted. -/
def Viable (reader : Reader) (text : String) (offset : Nat) : Prop :=
  ∃ before behind more : String, text = before ++ behind ∧
    Text.byteLength before.toList = offset ∧ Accepts reader (before ++ " " ++ more)

/-- Token `k` is where reading goes wrong, and no sooner. -/
structure Earliest (reader : Reader) (text : String) (k : Nat) (token : Token) : Prop where
  stands : (tokenize text)[k]? = some token
  viable : Viable reader text token.start
  /-- No accepted text begins with the tokens up to this one. -/
  dead : ∀ text', ((tokenize text).take (k + 1)).map (·.lexeme) <+: (tokenize text').map (·.lexeme) →
    ¬ Accepts reader text'

/-- The parenthesis at a byte opens a group that is not closed, and all groups behind it are. -/
def InnermostOpen (text : String) (offset : Nat) : Prop :=
  ∃ front back, tokenize text = front ++ ⟨.leftParen, offset⟩ :: back ∧ Matched (symbolsOf back)

/-- An error stands where reading goes wrong. One that blames a `(` names the one that is closed
there at once, or the last one that the end of the text leaves open. -/
def SyntaxError.IsEarliest (reader : Reader) (text : String) : SyntaxError → Prop
  | emptyExpression offset =>
    tokenize text = [⟨.endOfInput, offset⟩] ∧ offset = Text.byteLength text.toList
  | unexpectedToken offset found => ∃ k, Earliest reader text k ⟨found, offset⟩
  | missingOperand offset _ => ∃ k lexeme, Earliest reader text k ⟨lexeme, offset⟩
  | unmatchedParenthesis offset =>
    (∃ k, Earliest reader text k ⟨.rightParen, offset⟩) ∨
      InnermostOpen text offset ∧ ∃ more, Accepts reader (text ++ " " ++ more)
  | emptyGroup offset =>
    ∃ k stop, (tokenize text)[k]? = some ⟨.leftParen, offset⟩ ∧
      Earliest reader text (k + 1) ⟨.rightParen, stop⟩
  | nestingTooDeep offset limit =>
    limit = reader.maxDepth ∧ ∃ k, Earliest reader text k ⟨.leftParen, offset⟩

theorem Viable.exists_of_stop {reader : Reader} {text : String}
    (h : Viable reader text (Cursor.ofText text).stop) :
    ∃ more, Accepts reader (text ++ " " ++ more) := by
  obtain ⟨before, behind, more, rfl, hlength, haccepts⟩ := h
  rw [stop_ofText, String.toList_append, Text.byteLength_append] at hlength
  rcases hbehind : behind.toList with _ | ⟨c, cs⟩
  · rw [String.toList_eq_nil_iff.mp hbehind, String.append_empty]
    exact ⟨more, haccepts⟩
  · have hpos := c.utf8Size_pos
    rw [hbehind, Text.byteLength_cons] at hlength
    omega

/-! ## Accepted texts -/

namespace Scan

def Manner.dialect : Manner → Dialect
  | rightNested => .strict
  | byPrecedence => .spdx

variable {manner : Manner} {limit stop : Nat} {text text' : String} {error : SyntaxError}
  {s : State} {front rest : List Token} {token : Token}

theorem result_eq_error_iff :
    (Reader.read ⟨manner.dialect, limit⟩ text).result = .error error ↔
      verdict manner limit text = .error error := by
  cases manner with
  | rightNested => exact strict_eq_error_iff
  | byPrecedence => exact spdx_eq_error_iff

theorem accepts_iff :
    Accepts ⟨manner.dialect, limit⟩ text ↔ verdict manner limit text = .ok () := by
  cases manner with
  | rightNested => exact exists_strict_eq_ok_iff
  | byPrecedence => exact exists_spdx_eq_ok_iff

def Manner.Shape : Manner → Expression → Prop
  | rightNested => Expression.RightNested
  | byPrecedence => Expression.ByPrecedence

theorem result_eq_ok_iff {e : Expression} :
    (Reader.read ⟨manner.dialect, limit⟩ text).result = .ok e ↔
      symbols text = e.symbols ∧ manner.Shape e ∧ e.Unreserved ∧ e.nesting ≤ limit := by
  cases manner with
  | rightNested => exact RightNested.result_strict_eq_ok_iff
  | byPrecedence => exact Precedence.read_eq_ok_iff

theorem eq_of_shape {e e' : Expression} (h : symbols text = e.symbols)
    (h' : symbols text = e'.symbols) (hshape : manner.Shape e) (hshape' : manner.Shape e') :
    e = e' := by
  cases manner with
  | rightNested => exact RightNested.eq_of_symbols_eq h h' hshape hshape'
  | byPrecedence => exact Precedence.eq_of_symbols_eq h h' hshape hshape'

theorem accepts_congr (h : symbols text = symbols text')
    (haccepts : Accepts ⟨manner.dialect, limit⟩ text) : Accepts ⟨manner.dialect, limit⟩ text' := by
  obtain ⟨e, he⟩ := haccepts
  have hspelled := result_eq_ok_iff.mp he
  rw [h] at hspelled
  exact ⟨e, result_eq_ok_iff.mpr hspelled⟩

/-! ## Up to the token -/

/-- What a scan has got through can be gone on with. -/
theorem viable_of_advance (hsplit : (Cursor.ofText text).tokens = front ++ rest)
    (hfront : State.start.advance manner limit front = .ok s)
    (htoken : (tokenize text)[front.length]? = some token) :
    Viable ⟨manner.dialect, limit⟩ text token.start := by
  obtain ⟨before, behind, more, htext, hstart, -, hverdict⟩ := exists_completion hsplit hfront
  rw [htoken] at hstart
  exact ⟨before, behind, more, htext, (Option.some.inj hstart).symm, accepts_iff.mpr hverdict⟩

/-! ## At the token -/

theorem symbolsOf_eq_filterMap (tokens : List Token) :
    symbolsOf tokens = (tokens.map (·.lexeme)).filterMap (·.symbol?) := by
  rw [List.filterMap_map]
  rfl

theorem exists_symbols_append {tokens : List Token}
    (h : tokens.map (·.lexeme) <+: (tokenize text').map (·.lexeme)) :
    ∃ more, symbols text' = symbolsOf tokens ++ more := by
  obtain ⟨lexemes, h⟩ := h
  refine ⟨lexemes.filterMap (·.symbol?), ?_⟩
  have hsymbols : symbols text' = symbolsOf (tokenize text') := rfl
  rw [hsymbols, symbolsOf_eq_filterMap, symbolsOf_eq_filterMap, ← h, List.filterMap_append]

/-- Where a token ends a scan, no accepted text begins with the tokens up to that one. -/
theorem dead_of_step_error (hsplit : (Cursor.ofText text).tokens = front ++ token :: rest)
    (hfront : State.start.advance manner limit front = .ok s)
    (hstep : s.step manner limit token = .error error)
    (h : (front ++ [token]).map (·.lexeme) <+: (tokenize text').map (·.lexeme)) :
    ¬ Accepts ⟨manner.dialect, limit⟩ text' := by
  intro haccepts
  obtain ⟨more, hmore⟩ := exists_symbols_append h
  -- The same tokens, at the same bytes, in front of the other symbols of `text'`.
  rw [List.append_cons] at hsplit
  obtain ⟨pre, -, -, -, htokens⟩ :=
    (Cursor.ofText text).exists_tokens_append (front ++ [token]).length (by simp [hsplit])
  rw [hsplit, List.take_left] at htokens
  have hcursor : Cursor.ofText (String.ofList (pre ++ ' ' :: spaced more)) =
      ⟨pre ++ ' ' :: spaced more, (Cursor.ofText text).offset⟩ := Cursor.ofText_ofList _
  have hlegible : ∀ x ∈ more, x.IsLegible :=
    fun x hx => isLegible_of_mem_symbols (hmore ▸ List.mem_append_right _ hx)
  have hsame : symbols text' = symbols (String.ofList (pre ++ ' ' :: spaced more)) := by
    rw [← (spells_tokens (String.ofList _)).symbolsOf_eq, hcursor, htokens, symbolsOf_append,
      symbolsOf_tokens_spaced hlegible, hmore]
  have hverdict := accepts_iff.mp (accepts_congr hsame haccepts)
  rw [verdict, hcursor, htokens, List.append_assoc, List.singleton_append,
    check_of_advance_of_error hfront hstep] at hverdict
  cases hverdict

theorem lexemes_eq_of_prefix
    (h : (tokenize text).map (·.lexeme) <+: (tokenize text').map (·.lexeme)) :
    (tokenize text).map (·.lexeme) = (tokenize text').map (·.lexeme) := by
  have hlexemes (text : String) : (tokenize text).map (·.lexeme) =
      (Cursor.ofText text).tokens.map (·.lexeme) ++ [.endOfInput] := by
    rw [tokenize, List.map_append]
    rfl
  rw [hlexemes text, hlexemes text'] at *
  refine (List.prefix_concat_iff.mp h).resolve_right fun hbefore => ?_
  have hend := hbefore.mem (List.mem_append_right _ List.mem_cons_self)
  obtain ⟨t, ht, hlexeme⟩ := List.mem_map.mp hend
  exact Cursor.lexeme_ne_endOfInput_of_mem_tokens ht hlexeme

theorem earliest_of_step_error (hsplit : (Cursor.ofText text).tokens = front ++ token :: rest)
    (hfront : State.start.advance manner limit front = .ok s)
    (hstep : s.step manner limit token = .error error) :
    Earliest ⟨manner.dialect, limit⟩ text front.length token := by
  have htokenize : tokenize text =
      (front ++ [token]) ++ (rest ++ [(Cursor.ofText text).endToken]) := by
    rw [tokenize, hsplit]
    simp
  have hstands : (tokenize text)[front.length]? = some token := by
    rw [htokenize]
    simp
  refine ⟨hstands, viable_of_advance hsplit hfront hstands, fun text' hprefix => ?_⟩
  rw [htokenize, List.take_left' (by simp)] at hprefix
  exact dead_of_step_error hsplit hfront hstep hprefix

theorem earliest_of_finish_error
    (htokens : State.start.advance manner limit (Cursor.ofText text).tokens = .ok s)
    (hfinish : s.finish (Cursor.ofText text).stop = .error error) :
    Earliest ⟨manner.dialect, limit⟩ text (Cursor.ofText text).tokens.length
      (Cursor.ofText text).endToken := by
  have hstands : (tokenize text)[(Cursor.ofText text).tokens.length]? =
      some (Cursor.ofText text).endToken := by
    rw [tokenize]
    simp
  refine ⟨hstands, viable_of_advance (List.append_nil _).symm htokens hstands,
    fun text' hprefix haccepts => ?_⟩
  rw [List.take_of_length_le (by simp [tokenize])] at hprefix
  have hsame : symbols text' = symbols text := by
    change symbolsOf (tokenize text') = symbolsOf (tokenize text)
    rw [symbolsOf_eq_filterMap, symbolsOf_eq_filterMap, lexemes_eq_of_prefix hprefix]
  have hverdict := accepts_iff.mp (accepts_congr hsame haccepts)
  rw [verdict, State.check, htokens] at hverdict
  cases hfinish.symm.trans hverdict

/-! ## Every error -/

theorem innermostOpen_of_advance {group : Opened} {opened : List Opened}
    (h : State.start.advance manner limit (Cursor.ofText text).tokens = .ok s)
    (hopened : s.opened = group :: opened) : InnermostOpen text group.start := by
  obtain ⟨front, back, hsplit, hback⟩ := exists_opening_of_advance
    (fun t ht => (spells_tokens text).lexeme_ne_endOfInput ht) h hopened
  refine ⟨front, back ++ [(Cursor.ofText text).endToken], ?_, ?_⟩
  · rw [tokenize, hsplit, List.append_assoc, List.cons_append]
  · have hend : symbolsOf [(Cursor.ofText text).endToken] = [] := rfl
    rwa [symbolsOf_append, hend, List.append_nil]

theorem isEarliest_of_step_error (hsplit : (Cursor.ofText text).tokens = front ++ token :: rest)
    (hfront : State.start.advance manner limit front = .ok s)
    (hstep : s.step manner limit token = .error error) :
    error.IsEarliest ⟨manner.dialect, limit⟩ text := by
  have hearliest : Earliest ⟨manner.dialect, limit⟩ text front.length token :=
    earliest_of_step_error hsplit hfront hstep
  have hends := ends_of_step_error hstep
  obtain ⟨lexeme, start⟩ := token
  cases hends with
  | unexpectedToken => exact ⟨front.length, hearliest⟩
  | missingOperand op => exact ⟨front.length, lexeme, hearliest⟩
  | nestingTooDeep hparen =>
    cases hparen
    exact ⟨rfl, front.length, hearliest⟩
  | unmatchedParenthesis hparen =>
    cases hparen
    exact .inl ⟨front.length, hearliest⟩
  | @emptyGroup group opened hparen hplace hopened =>
    cases hparen
    rcases opening_of_advance (lexeme_ne_endOfInput_of_append hsplit) hfront hplace with
      ⟨-, hnil⟩ | ⟨before, group', opened', rfl, hopened'⟩
    · cases hopened.symm.trans hnil
    · cases hopened.symm.trans hopened'
      rw [List.length_append] at hearliest
      refine ⟨before.length, start, ?_, hearliest⟩
      rw [tokenize, hsplit]
      simp

theorem isEarliest_of_finish_error
    (htokens : State.start.advance manner limit (Cursor.ofText text).tokens = .ok s)
    (hfinish : s.finish (Cursor.ofText text).stop = .error error) :
    error.IsEarliest ⟨manner.dialect, limit⟩ text := by
  have hearliest := earliest_of_finish_error htokens hfinish
  cases lacks_of_finish_error hfinish with
  | operand op => exact ⟨_, _, hearliest⟩
  | @partner group opened hopened =>
    exact .inr ⟨innermostOpen_of_advance htokens hopened, hearliest.viable.exists_of_stop⟩
  | expression hplace hopened =>
    rcases opening_of_advance (fun t ht => (spells_tokens text).lexeme_ne_endOfInput ht)
      htokens hplace with ⟨hnil, -⟩ | ⟨before, group, opened, -, hopened'⟩
    · refine ⟨?_, stop_ofText text⟩
      rw [tokenize, hnil]
      rfl
    · cases hopened.symm.trans hopened'

theorem isEarliest_of_error
    (h : (Reader.read ⟨manner.dialect, limit⟩ text).result = .error error) :
    error.IsEarliest ⟨manner.dialect, limit⟩ text := by
  rcases exists_of_check_error (result_eq_error_iff.mp h) with
    ⟨front, token, rest, s, hsplit, hfront, hstep⟩ | ⟨s, htokens, hfinish⟩
  · exact isEarliest_of_step_error hsplit hfront hstep
  · exact isEarliest_of_finish_error htokens hfinish

theorem result_of_tokenize_eq (manner : Manner) (limit : Nat) {offset : Nat}
    (h : tokenize text = [⟨.endOfInput, offset⟩]) :
    (Reader.read ⟨manner.dialect, limit⟩ text).result = .error (.emptyExpression offset) := by
  rw [tokenize] at h
  rcases List.append_eq_singleton_iff.mp h with ⟨htokens, hend⟩ | ⟨-, hend⟩
  · have hstop : (Cursor.ofText text).stop = offset :=
      congrArg Token.start (List.singleton_inj.mp hend)
    refine result_eq_error_iff.mpr ?_
    rw [verdict, htokens, hstop]
    rfl
  · cases hend

end Scan

/-- The two dialects that refuse malformed text find each error at the earliest token, and miss an
expression exactly in texts without tokens. -/
theorem errors_are_earliest (limit : Nat) (text : String) :
    (∀ error, (Reader.read ⟨.strict, limit⟩ text).result = .error error →
      error.IsEarliest ⟨.strict, limit⟩ text) ∧
    (∀ error, (Reader.read ⟨.spdx, limit⟩ text).result = .error error →
      error.IsEarliest ⟨.spdx, limit⟩ text) ∧
    (∀ offset, tokenize text = [⟨.endOfInput, offset⟩] →
      (Reader.read ⟨.strict, limit⟩ text).result = .error (.emptyExpression offset) ∧
        (Reader.read ⟨.spdx, limit⟩ text).result = .error (.emptyExpression offset)) := by
  refine ⟨fun error h => ?_, fun error h => ?_, fun offset h => ⟨?_, ?_⟩⟩
  · exact @isEarliest_of_error .rightNested limit text error h
  · exact @isEarliest_of_error .byPrecedence limit text error h
  · exact result_of_tokenize_eq .rightNested limit h
  · exact result_of_tokenize_eq .byPrecedence limit h

end LicenseExpr
