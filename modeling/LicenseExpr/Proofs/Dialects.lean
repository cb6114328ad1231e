import LicenseExpr.Proofs.RightNested.Reading
import LicenseExpr.Proofs.Scan.Manners
import LicenseExpr.Proofs.Scan.Precedence
import LicenseExpr.Proofs.Scan.RightNested

/-!
# Strict reading and reading by precedence

What reading by precedence accepts, strict reading accepts with the same symbols. What it refuses,
strict reading refuses with the same error, up to which of two operators in a row is named; the one
exception is a `WITH` that chains (`spdx_refines_strict`).
-/

namespace LicenseExpr

open Scan

variable {limit : Nat} {text : String} {error : SyntaxError}

/-- An operator directly behind another one, at a byte. -/
def Meets (tokens : List Token) (first second : Operator) (offset : Nat) : Prop :=
  ∃ t t', [t, t'] <:+: tokens ∧ t.lexeme.operator? = some first ∧
    t'.lexeme.operator? = some second ∧ t'.start = offset

/-! ## Readings and scans -/

theorem strict_eq_error_iff :
    (Reader.read ⟨.strict, limit⟩ text).result = .error error ↔
      verdict .rightNested limit text = .error error := by
  rw [← RightNested.result_strict_eq_verdict, map_unit_eq_error_iff]

theorem spdx_eq_error_iff :
    (Reader.read ⟨.spdx, limit⟩ text).result = .error error ↔
      verdict .byPrecedence limit text = .error error := by
  rw [← Precedence.result_spdx_eq_verdict, map_unit_eq_error_iff]

theorem exists_strict_eq_ok_iff :
    (∃ e, (Reader.read ⟨.strict, limit⟩ text).result = .ok e) ↔
      verdict .rightNested limit text = .ok () := by
  rw [← RightNested.result_strict_eq_verdict, map_unit_eq_ok_iff]

theorem exists_spdx_eq_ok_iff :
    (∃ e, (Reader.read ⟨.spdx, limit⟩ text).result = .ok e) ↔
      verdict .byPrecedence limit text = .ok () := by
  rw [← Precedence.result_spdx_eq_verdict, map_unit_eq_ok_iff]

theorem exists_strict_of_spdx {e : Expression}
    (h : (Reader.read ⟨.spdx, limit⟩ text).result = .ok e) :
    ∃ e', (Reader.read ⟨.strict, limit⟩ text).result = .ok e' ∧ e'.symbols = e.symbols := by
  obtain ⟨s, hadvance, hfinish⟩ := check_eq_ok_iff.mp (exists_spdx_eq_ok_iff.mp ⟨e, h⟩)
  have hstrict : verdict .rightNested limit text = .ok () :=
    check_eq_ok_iff.mpr ⟨s, advance_rightNested_of_byPrecedence hadvance, hfinish⟩
  obtain ⟨e', he'⟩ := exists_strict_eq_ok_iff.mpr hstrict
  have hsymbols := (Precedence.read_eq_ok_iff.mp h).1
  have hsymbols' := (RightNested.result_strict_eq_ok_iff.mp he').1
  exact ⟨e', he', hsymbols'.symm.trans hsymbols⟩

/-! ## Errors -/

/-- Where and how reading by precedence ends in an error, and what strict reading comes to. -/
inductive Departs (limit : Nat) (text : String) : SyntaxError → Prop where
  /-- No operator meets another one at the error. -/
  | same {error : SyntaxError} : ¬ error.OnAttachment →
      (∀ offset op first second, error = .missingOperand offset op →
        ¬ Meets (tokenize text) first second offset) →
      (Reader.read ⟨.strict, limit⟩ text).result = .error error → Departs limit text error
  | meeting {front rest : List Token} {t t' : Token} {first second : Operator} :
      (Cursor.ofText text).tokens = front ++ t :: t' :: rest →
      t.lexeme.operator? = some first → t'.lexeme.operator? = some second →
      (Reader.read ⟨.strict, limit⟩ text).result = .error (.missingOperand t'.start second) →
      Departs limit text (.missingOperand t'.start first)
  | chain {front rest : List Token} {token : Token} {opened : List Opened} :
      (Cursor.ofText text).tokens = front ++ token :: rest →
      State.start.advance .byPrecedence limit front = .ok ⟨.after true, opened⟩ →
      token.lexeme.operator? = some .exception →
      Departs limit text (.unexpectedToken token.start token.lexeme)

theorem lexeme_ne_endOfInput_of_append {front rest : List Token} {token : Token}
    (h : (Cursor.ofText text).tokens = front ++ token :: rest) :
    ∀ t ∈ front, t.lexeme ≠ .endOfInput :=
  fun _ ht => (spells_tokens text).lexeme_ne_endOfInput (h ▸ List.mem_append_left _ ht)

theorem Meets.exists_append {first second : Operator} {offset : Nat} {front back : List Token}
    {token : Token} (h : Meets (tokenize text) first second offset)
    (hsplit : tokenize text = front ++ token :: back) (hstart : token.start = offset) :
    ∃ before t, front = before ++ [t] ∧ t.lexeme.operator? = some first ∧
      token.lexeme.operator? = some second := by
  obtain ⟨t, t', ⟨before, behind, heq⟩, hfirst, hsecond, rfl⟩ := h
  have hordered := pairwise_start_tokenize text
  rw [List.append_assoc, List.cons_append, List.singleton_append] at heq
  rw [hsplit] at heq hordered
  replace heq : front ++ token :: back = (before ++ [t]) ++ t' :: behind := by
    rw [← heq, List.append_assoc, List.singleton_append]
  obtain ⟨rfl, rfl⟩ := eq_of_start_eq hordered heq hstart
  exact ⟨before, t, rfl, hfirst, hsecond⟩

theorem meets_of_append {front rest : List Token} {t t' : Token} {first second : Operator}
    (hsplit : (Cursor.ofText text).tokens = front ++ t :: t' :: rest)
    (hfirst : t.lexeme.operator? = some first) (hsecond : t'.lexeme.operator? = some second) :
    Meets (tokenize text) first second t'.start := by
  refine ⟨t, t', ⟨front, rest ++ [(Cursor.ofText text).endToken], ?_⟩, hfirst, hsecond, rfl⟩
  rw [tokenize, hsplit]
  simp

theorem operators_of_meets {front rest : List Token} {t t' : Token}
    {first second first' second' : Operator}
    (h : Meets (tokenize text) first second t'.start)
    (hsplit : (Cursor.ofText text).tokens = front ++ t :: t' :: rest)
    (hfirst : t.lexeme.operator? = some first') (hsecond : t'.lexeme.operator? = some second') :
    first = first' ∧ second = second' := by
  have htokenize : tokenize text =
      (front ++ [t]) ++ t' :: (rest ++ [(Cursor.ofText text).endToken]) := by
    rw [tokenize, hsplit]
    simp
  obtain ⟨before, t₁, heq, hfirst₁, hsecond₁⟩ := h.exists_append htokenize rfl
  obtain ⟨-, rfl⟩ := List.append_singleton_inj.mp heq
  exact ⟨Option.some.inj (hfirst₁.symm.trans hfirst), Option.some.inj (hsecond₁.symm.trans hsecond)⟩

theorem departs_at_token {front rest : List Token} {token : Token} {s : Scan.State}
    (hsplit : (Cursor.ofText text).tokens = front ++ token :: rest)
    (hfront : State.start.advance .byPrecedence limit front = .ok s)
    (hstep : s.step .byPrecedence limit token = .error error) : Departs limit text error := by
  have hstrict {error : SyntaxError} (h : s.step .rightNested limit token = .error error) :
      (Reader.read ⟨.strict, limit⟩ text).result = .error error := by
    refine strict_eq_error_iff.mpr ?_
    rw [verdict, hsplit]
    exact check_of_advance_of_error (advance_rightNested_of_byPrecedence hfront) h
  rcases step_byPrecedence_error hstep with ⟨herror, hattachment, hapart⟩ |
    ⟨first, second, hplace, hop, rfl, herror⟩ | ⟨hplace, hop, rfl⟩
  · refine .same hattachment ?_ (hstrict herror)
    rintro offset op first second rfl hmeets
    have htokenize : tokenize text = front ++ token :: (rest ++ [(Cursor.ofText text).endToken]) := by
      rw [tokenize, hsplit, List.append_assoc, List.cons_append]
    obtain ⟨before, t, rfl, hfirst, hsecond⟩ :=
      hmeets.exists_append htokenize (start_of_step_error hstep).symm
    obtain ⟨middle, -, hlast⟩ := advance_append_eq_ok_iff.mp hfront
    obtain ⟨_, hlast, hdone⟩ := advance_cons_eq_ok_iff.mp hlast
    cases hdone
    exact hapart first second (place_of_step_operator hfirst hlast) hsecond
  · obtain ⟨before, t, rfl, hfirst⟩ :=
      exists_operator_of_advance (lexeme_ne_endOfInput_of_append hsplit) hfront hplace
    rw [List.append_assoc] at hsplit
    exact .meeting hsplit hfirst hop (hstrict herror)
  · obtain ⟨place, opened⟩ := s
    cases hplace
    exact .chain hsplit hfront hop

theorem departs_at_end {s : Scan.State}
    (htokens : State.start.advance .byPrecedence limit (Cursor.ofText text).tokens = .ok s)
    (hfinish : s.finish (Cursor.ofText text).stop = .error error) : Departs limit text error := by
  have hstrict : verdict .rightNested limit text = .error error := by
    rw [verdict, State.check, advance_rightNested_of_byPrecedence htokens]
    exact hfinish
  refine .same (not_onAttachment_of_finish hfinish) ?_ (strict_eq_error_iff.mpr hstrict)
  rintro offset op first second rfl hmeets
  have htokenize : tokenize text =
      (Cursor.ofText text).tokens ++ (Cursor.ofText text).endToken :: [] := rfl
  obtain ⟨-, -, -, -, hend⟩ := hmeets.exists_append htokenize (start_of_finish_error hfinish).symm
  cases hend

theorem departs_of_spdx (h : (Reader.read ⟨.spdx, limit⟩ text).result = .error error) :
    Departs limit text error := by
  rcases exists_of_check_error (spdx_eq_error_iff.mp h) with
    ⟨front, token, rest, s, hsplit, hfront, hstep⟩ | ⟨s, htokens, hfinish⟩
  · exact departs_at_token hsplit hfront hstep
  · exact departs_at_end htokens hfinish

/-! ## Chains of `WITH` -/

section Chain

variable {front rest : List Token} {token : Token} {opened : List Opened}

theorem symbols_of_append {op : Operator} (hsplit : (Cursor.ofText text).tokens = front ++ token :: rest)
    (hop : token.lexeme.operator? = some op) :
    symbols text = symbolsOf front ++ .operator op :: symbolsOf rest := by
  rw [← (spells_tokens text).symbolsOf_eq, hsplit, symbolsOf_append,
    symbolsOf_cons_of_eq (Lexeme.symbol?_eq_operator_iff.mpr hop)]

theorem exists_chain (hsplit : (Cursor.ofText text).tokens = front ++ token :: rest)
    (hfront : State.start.advance .byPrecedence limit front = .ok ⟨.after true, opened⟩)
    (hop : token.lexeme.operator? = some .exception) :
    ∃ pre license exception post, OperandText license ∧ OperandText exception ∧ symbols text =
      pre ++ license ++ .operator .exception :: exception ++ .operator .exception :: post := by
  have hspells := spells_symbolsOf (lexeme_ne_endOfInput_of_append hsplit)
  obtain ⟨pre, license, exception, hlicense, hexception, hsymbols⟩ :=
    (stands_of_advance .start hspells hfront).exists_chain
  refine ⟨pre, license, exception, symbolsOf rest, hlicense, hexception, ?_⟩
  rw [symbols_of_append hsplit hop, ← List.nil_append (symbolsOf front), hsymbols]
  simp

/-- The `WITH` at which reading by precedence ends is the first one that chains. -/
theorem first_chain (hsplit : (Cursor.ofText text).tokens = front ++ token :: rest)
    (hfront : State.start.advance .byPrecedence limit front = .ok ⟨.after true, opened⟩)
    (hop : token.lexeme.operator? = some .exception) :
    ChainsAt (symbols text) front.length ∧
      ∀ j < front.length, ¬ ChainsAt (symbols text) j := by
  have hspells := spells_symbolsOf (lexeme_ne_endOfInput_of_append hsplit)
  rw [symbols_of_append hsplit hop, hspells.length_eq]
  refine ⟨⟨by simp, ?_⟩, fun j hj => ?_⟩
  · obtain ⟨pre, license, exception, -, hexception, hsymbols⟩ :=
      (stands_of_advance .start hspells hfront).exists_chain
    refine ⟨pre ++ license, exception, hexception, ?_⟩
    rw [List.take_left, ← List.nil_append (symbolsOf front), hsymbols, List.append_assoc]
  · rw [chainsAt_append_iff hj]
    exact not_chainsAt_of_advance hspells hfront j

theorem exists_strict_of_chain (hsplit : (Cursor.ofText text).tokens = front ++ token :: rest)
    (hfront : State.start.advance .byPrecedence limit front = .ok ⟨.after true, opened⟩)
    (hop : token.lexeme.operator? = some .exception) :
    ∃ text' e, (tokenize text).take (front.length + 1) <+: tokenize text' ∧
      (Reader.read ⟨.strict, limit⟩ text').result = .ok e := by
  have hadvance : State.start.advance .rightNested limit (front ++ [token]) =
      .ok ⟨.behind .exception, opened⟩ := by
    refine advance_append_eq_ok_iff.mpr ⟨_, advance_rightNested_of_byPrecedence hfront, ?_⟩
    exact advance_cons_eq_ok_iff.mpr ⟨_, step_operator_of_after hop nofun, rfl⟩
  rw [List.append_cons] at hsplit
  obtain ⟨before, behind, more, -, -, hprefix, hverdict⟩ := exists_completion hsplit hadvance
  obtain ⟨e, he⟩ := exists_strict_eq_ok_iff.mpr hverdict
  refine ⟨before ++ " " ++ more, e, ?_, he⟩
  rw [tokenize, hsplit, List.append_assoc, List.take_left' (by simp)]
  exact hprefix.trans (List.prefix_append _ _)

end Chain

/-! ## The two dialects -/

/-- Reading by precedence refines strict reading: it accepts no more, with the same symbols, and its
errors are those of strict reading. Where two operators meet, it names the first and strict reading
the second; a `WITH` that it refuses is the first one of the text that chains, and strict reading
can go on behind it. -/
theorem spdx_refines_strict (limit : Nat) (text : String) :
    (∀ e, (Reader.read ⟨.spdx, limit⟩ text).result = .ok e →
      ∃ e', (Reader.read ⟨.strict, limit⟩ text).result = .ok e' ∧ e'.symbols = e.symbols) ∧
    (∀ error, (Reader.read ⟨.spdx, limit⟩ text).result = .error error → ¬ error.OnAttachment →
      (∀ offset op first second, error = .missingOperand offset op →
        ¬ Meets (tokenize text) first second offset) →
      (Reader.read ⟨.strict, limit⟩ text).result = .error error) ∧
    (∀ offset op first second,
      (Reader.read ⟨.spdx, limit⟩ text).result = .error (.missingOperand offset op) →
      Meets (tokenize text) first second offset →
      op = first ∧
        (Reader.read ⟨.strict, limit⟩ text).result = .error (.missingOperand offset second)) ∧
    (∀ offset found,
      (Reader.read ⟨.spdx, limit⟩ text).result = .error (.unexpectedToken offset found) →
      found.operator? = some .exception →
      ∃ k, (tokenize text)[k]? = some ⟨found, offset⟩ ∧
        ChainsAt (symbols text) k ∧ (∀ j < k, ¬ ChainsAt (symbols text) j) ∧
        ∃ text' e, (tokenize text).take (k + 1) <+: tokenize text' ∧
          (Reader.read ⟨.strict, limit⟩ text').result = .ok e) ∧
    (∀ e error, (Reader.read ⟨.strict, limit⟩ text).result = .ok e →
      (Reader.read ⟨.spdx, limit⟩ text).result = .error error →
      error.OnAttachment ∧ ∃ pre license exception post, OperandText license ∧
        OperandText exception ∧ symbols text =
          pre ++ license ++ .operator .exception :: exception ++ .operator .exception :: post) := by
  refine ⟨fun e => exists_strict_of_spdx, ?_, ?_, ?_, ?_⟩
  · intro error herror hattachment hapart
    cases departs_of_spdx herror with
    | same _ _ hstrict => exact hstrict
    | meeting hsplit hfirst hsecond _ =>
      exact absurd (meets_of_append hsplit hfirst hsecond) (hapart _ _ _ _ rfl)
    | chain _ _ hop => exact absurd hop hattachment
  · intro offset op first second herror hmeets
    cases departs_of_spdx herror with
    | same _ hapart _ => exact absurd hmeets (hapart _ _ _ _ rfl)
    | @meeting front rest t t' _ second' hsplit hfirst hsecond hstrict =>
      obtain ⟨rfl, rfl⟩ := operators_of_meets hmeets hsplit hfirst hsecond
      exact ⟨rfl, hstrict⟩
  · intro offset found herror hfound
    cases departs_of_spdx herror with
    | same hattachment _ _ => exact absurd hfound hattachment
    | @chain front rest token opened hsplit hfront hop =>
      obtain ⟨hchain, hfirst⟩ := first_chain hsplit hfront hop
      refine ⟨front.length, ?_, hchain, hfirst, exists_strict_of_chain hsplit hfront hop⟩
      rw [tokenize, hsplit]
      simp
  · intro e error hstrict herror
    cases departs_of_spdx herror with
    | same _ _ hstrict' => cases hstrict.symm.trans hstrict'
    | meeting _ _ _ hstrict' => cases hstrict.symm.trans hstrict'
    | chain hsplit hfront hop => exact ⟨hop, exists_chain hsplit hfront hop⟩

end LicenseExpr
