import LicenseExpr.Proofs.RightNested.Moves
import LicenseExpr.Reader

/-!
# Strict reading as lenient reading cut short

Both ways of reading make the same moves until one takes a repair. Up to there every open scope is
whole, so the first repair stands for an error, and strict reading ends with that error
(`run_strict_of_lenient`).
-/

namespace LicenseExpr

namespace RightNested

variable {limit stop : Nat}

/-- Lenient reading keeps the repairs of its first move in front of all others. -/
theorem repairs_step_prefix (limit stop : Nat) (s : State) :
    (s.step limit stop).repairs <+: (run .lenient limit stop [] s).repairs := by
  have hrefusal := Strictness.refusal?_lenient (s.step limit stop).repairs
  rcases hnext : (s.step limit stop).next with s' | result | error
  · rw [run_of_resume hrefusal hnext, run_eq]
    simp
  · rw [run_of_finish hrefusal hnext]
    simp
  · rw [run_of_fail hrefusal hnext]
    simp

theorem eq_nestingTooDeep_of_step {s : State} {error : SyntaxError}
    (h : (s.step limit stop).next = .fail error) : ∃ offset, error = .nestingTooDeep offset limit := by
  obtain ⟨tokens, held, frames, openGroups⟩ := s
  rcases tokens with _ | ⟨⟨_ | _ | _ | _, start⟩, rest⟩
  · rcases frames with _ | ⟨frame, frames⟩ <;> cases h
  · simp only [State.step] at h
    split at h <;> cases h
  · simp only [State.step] at h
    split at h <;> cases h
    exact ⟨start, rfl⟩
  · rcases frames with _ | ⟨_ | _, frames⟩ <;> cases h
  · rcases frames with _ | ⟨frame, frames⟩ <;> cases h

theorem eq_nestingTooDeep_of_run_lenient {s : State} {error : SyntaxError}
    (h : (run .lenient limit stop [] s).result = .error error) :
    ∃ offset, error = .nestingTooDeep offset limit := by
  have hrefusal := Strictness.refusal?_lenient (s.step limit stop).repairs
  rcases hnext : (s.step limit stop).next with s' | result | error'
  · rw [run_of_resume hrefusal hnext, run_eq] at h
    exact eq_nestingTooDeep_of_run_lenient h
  · rw [run_of_finish hrefusal hnext] at h
    cases h
  · rw [run_of_fail hrefusal hnext] at h
    cases h
    exact eq_nestingTooDeep_of_step hnext
termination_by s.weight
decreasing_by exact State.weight_lt_of_step hnext

theorem repairs_run_strict {s : State} (htokens : ∀ t ∈ s.tokens, t.lexeme ≠ .endOfInput)
    (hframes : ∀ f ∈ s.frames, f.Whole) : (run .strict limit stop [] s).repairs = [] := by
  rcases quiet_or_refused limit stop htokens hframes with ⟨next, hquiet⟩ | ⟨error, herror⟩
  · cases next with
    | resume s' =>
      rw [run_of_quiet .strict hquiet]
      exact repairs_run_strict (fun t ht => htokens t (tokens_of_quiet hquiet t ht))
        (whole_of_quiet hquiet hframes)
    | finish result => rw [run_of_quiet_finish .strict hquiet, List.reverse_nil]
    | fail error => rw [run_of_quiet_fail .strict hquiet, List.reverse_nil]
  · rw [run_strict_of_refused herror, List.reverse_nil]
termination_by s.weight
decreasing_by exact weight_lt_of_quiet hquiet

/-- The two runs from one state: without repairs they agree, and otherwise the first repair is the
error that strict reading ends with. -/
theorem run_strict_of_lenient {s : State} (htokens : ∀ t ∈ s.tokens, t.lexeme ≠ .endOfInput)
    (hframes : ∀ f ∈ s.frames, f.Whole) :
    ((run .lenient limit stop [] s).repairs = [] ∧
      (run .strict limit stop [] s).result = (run .lenient limit stop [] s).result) ∨
    ∃ error recovery more,
      (run .lenient limit stop [] s).repairs = .recovered error recovery :: more ∧
      (run .strict limit stop [] s).result = .error error := by
  rcases quiet_or_refused limit stop htokens hframes with ⟨next, hquiet⟩ | ⟨error, herror⟩
  · cases next with
    | resume s' =>
      rw [run_of_quiet .strict hquiet, run_of_quiet .lenient hquiet]
      exact run_strict_of_lenient (fun t ht => htokens t (tokens_of_quiet hquiet t ht))
        (whole_of_quiet hquiet hframes)
    | finish result =>
      rw [run_of_quiet_finish .strict hquiet, run_of_quiet_finish .lenient hquiet]
      exact .inl ⟨rfl, rfl⟩
    | fail error =>
      rw [run_of_quiet_fail .strict hquiet, run_of_quiet_fail .lenient hquiet]
      exact .inl ⟨rfl, rfl⟩
  · obtain ⟨recovery, more, hrepairs⟩ := repairs_of_refused herror limit
    obtain ⟨later, hlater⟩ := repairs_step_prefix limit stop s
    refine .inr ⟨error, recovery, more ++ later, ?_, ?_⟩
    · rw [← hlater, hrepairs, List.cons_append]
    · rw [run_strict_of_refused herror]
termination_by s.weight
decreasing_by exact weight_lt_of_quiet hquiet

end RightNested

/-! ## Records of repairs -/

theorem SyntaxError.head?_complaint (e : SyntaxError) :
    ∃ c, e.complaint.toList.head? = some c ∧ c ≠ 'c' := by
  cases e with
  | emptyExpression offset =>
    exact ⟨'e', show "empty license expression".toList.head? = some 'e' by decide, by decide⟩
  | unexpectedToken offset found =>
    have h : ("unexpected token " ++ found.description).toList.head? = some 'u' := by simp
    exact ⟨'u', h, by decide⟩
  | missingOperand offset op =>
    have h : ("expected license expression around '" ++ op.word ++ "'").toList.head? = some 'e' := by
      simp
    exact ⟨'e', h, by decide⟩
  | unmatchedParenthesis offset =>
    exact ⟨'u', show "unmatched parenthesis".toList.head? = some 'u' by decide, by decide⟩
  | emptyGroup offset =>
    exact ⟨'e', show "empty parentheses".toList.head? = some 'e' by decide, by decide⟩
  | nestingTooDeep offset limit =>
    have h : ("expression nests deeper than " ++ toString limit ++ " levels").toList.head? =
        some 'e' := by simp
    exact ⟨'e', h, by decide⟩

/-- No message of an error begins as the record of a collapsed operator does. -/
theorem Repair.message_recovered_ne (error : SyntaxError) (recovery : Recovery) (op : Operator)
    (start : Nat) : (recovered error recovery).message ≠ (collapsed op start).message := by
  intro h
  obtain ⟨c, hcomplaint, hc⟩ := error.head?_complaint
  have hhead := congrArg (·.toList.head?) h
  simp only [message, SyntaxError.message, String.toList_append, List.head?_append, hcomplaint,
    Option.some_or] at hhead
  exact hc (by simpa using hhead)

/-- The messages of the debug records, in order. -/
def Reading.debugMessages (r : Reading) : List String :=
  (r.records.filter (·.level = .debug)).map (·.message)

theorem Reading.debugMessages_eq (r : Reading) : r.debugMessages = r.repairs.map Repair.message := by
  simp [debugMessages, records, List.filter_map, Function.comp_def]

namespace RightNested

theorem strict_of_lenient (limit : Nat) (text : String) :
    ((Reader.read ⟨.lenient, limit⟩ text).repairs = [] ∧
      (Reader.read ⟨.strict, limit⟩ text).result = (Reader.read ⟨.lenient, limit⟩ text).result) ∨
    ∃ error recovery more,
      (Reader.read ⟨.lenient, limit⟩ text).repairs = .recovered error recovery :: more ∧
      (Reader.read ⟨.strict, limit⟩ text).result = .error error := by
  have htokens : ∀ t ∈ (State.start (Cursor.ofText text).tokens).tokens, t.lexeme ≠ .endOfInput :=
    fun _ ht => (spells_tokens text).lexeme_ne_endOfInput ht
  rcases run_strict_of_lenient htokens nofun with
    ⟨hrepairs, hresult⟩ | ⟨error, recovery, more, hrepairs, hresult⟩
  · exact .inl ⟨hrepairs, congrArg (· >>= Reader.requireExpression text) hresult⟩
  · exact .inr ⟨error, recovery, more, hrepairs,
      congrArg (· >>= Reader.requireExpression text) hresult⟩

theorem result_lenient_of_strict {limit : Nat} {text : String} {e : Expression}
    (h : (Reader.read ⟨.strict, limit⟩ text).result = .ok e) :
    (Reader.read ⟨.lenient, limit⟩ text).repairs = [] ∧
      (Reader.read ⟨.lenient, limit⟩ text).result = .ok e := by
  rcases strict_of_lenient limit text with ⟨hrepairs, hresult⟩ | ⟨error, recovery, more, -, herror⟩
  · exact ⟨hrepairs, hresult.symm.trans h⟩
  · cases h.symm.trans herror

theorem repairs_strict (limit : Nat) (text : String) :
    (Reader.read ⟨.strict, limit⟩ text).repairs = [] :=
  repairs_run_strict (fun _ ht => (spells_tokens text).lexeme_ne_endOfInput ht) nofun

theorem error_lenient {limit : Nat} {text : String} {error : SyntaxError}
    (h : (Reader.read ⟨.lenient, limit⟩ text).result = .error error) :
    error = .emptyExpression (Text.byteLength text.toList) ∨
      ∃ offset, error = .nestingTooDeep offset limit := by
  change (RightNested.read .lenient limit text).result >>= Reader.requireExpression text = _ at h
  rcases hrun : (RightNested.read .lenient limit text).result with error' | _ | e
  · rw [hrun] at h
    cases h
    exact .inr (eq_nestingTooDeep_of_run_lenient hrun)
  · rw [hrun] at h
    cases h
    exact .inl rfl
  · rw [hrun] at h
    cases h

/-- Strict reading is lenient reading up to the first repair: the record of that repair has the
message of the error with which strict reading ends, and without a repair both end the same way. -/
theorem strict_ends_at_first_repair (limit : Nat) (text : String) :
    (∀ message more, (Reader.read ⟨.lenient, limit⟩ text).debugMessages = message :: more →
      ∃ error recovery, (Reader.read ⟨.strict, limit⟩ text).result = .error error ∧
        message = error.message ++ "; " ++ Recovery.description recovery ∧
        ∀ op start, message ≠ (Repair.collapsed op start).message) ∧
    ((Reader.read ⟨.lenient, limit⟩ text).debugMessages = [] →
      (Reader.read ⟨.strict, limit⟩ text).result = (Reader.read ⟨.lenient, limit⟩ text).result) ∧
    (∀ error, (Reader.read ⟨.lenient, limit⟩ text).result = .error error →
      error = .emptyExpression (Text.byteLength text.toList) ∨
        ∃ offset, error = .nestingTooDeep offset limit) ∧
    (Reader.read ⟨.strict, limit⟩ text).debugMessages = [] := by
  simp only [Reading.debugMessages_eq]
  refine ⟨?_, ?_, fun _ => error_lenient, by rw [repairs_strict, List.map_nil]⟩
  · intro message more h
    rcases strict_of_lenient limit text with ⟨hrepairs, -⟩ | ⟨error, recovery, _, hrepairs, hresult⟩
    · rw [hrepairs] at h
      cases h
    · rw [hrepairs] at h
      cases h
      exact ⟨error, recovery, hresult, rfl, Repair.message_recovered_ne error recovery⟩
  · intro h
    rcases strict_of_lenient limit text with ⟨-, hresult⟩ | ⟨error, recovery, _, hrepairs, -⟩
    · exact hresult
    · rw [hrepairs] at h
      cases h

end RightNested

end LicenseExpr
