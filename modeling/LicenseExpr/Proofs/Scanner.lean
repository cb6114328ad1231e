import LicenseExpr.Token.Scanner

/-!
# Calls to a scanner

A scanner can be asked for its tokens in two ways, and a caller may mix them in any order. Each token is
handed out once and in order whichever way it is asked for, and then the end again and again
(`given_ask`). Only `next?` can give nothing, and only once it has given the end itself
(`finished_behind_iff`).
-/

namespace LicenseExpr

namespace Cursor

/-- The tokens that are still to be read, and behind them the end, `n` times. -/
def upcoming (c : Cursor) (n : Nat) : List Token := c.tokens ++ List.replicate n c.endToken

theorem upcoming_prefix_succ (c : Cursor) (n : Nat) : c.upcoming n <+: c.upcoming (n + 1) := by
  rw [upcoming, upcoming, List.replicate_succ', ← List.append_assoc]
  exact List.prefix_append _ _

theorem next_upcoming (c : Cursor) (n : Nat) : c.next.1 :: c.next.2.upcoming n <+: c.upcoming (n + 1) := by
  by_cases hend : c.next.1.lexeme = .endOfInput
  · have htokens : c.tokens = [] := by
      rw [tokens, dif_pos hend]
    have hbehind : tokens ⟨[], c.stop⟩ = [] := by
      rw [tokens]
      rfl
    rw [next_of_endOfInput hend, upcoming, upcoming, htokens, hbehind]
    exact List.prefix_refl _
  · have htokens : c.tokens = c.next.1 :: c.next.2.tokens := by
      rw [tokens, dif_neg hend]
    have hstop : c.next.2.endToken = c.endToken := by
      rw [endToken, endToken, stop_next]
    rw [upcoming, upcoming, htokens, hstop, List.replicate_succ', ← List.append_assoc]
    exact List.prefix_append _ _

end Cursor

namespace Scanner

inductive Call where
  | nextToken
  | next
  deriving DecidableEq

/-- What a call gives, and the scanner behind it. -/
def answer (s : Scanner) : Call → Option Token × Scanner
  | .nextToken => (some s.nextToken.1, s.nextToken.2)
  | .next => s.next?

def ask (s : Scanner) : List Call → List (Call × Option Token)
  | [] => []
  | call :: calls => (call, (s.answer call).1) :: (s.answer call).2.ask calls

def behind (s : Scanner) (calls : List Call) : Scanner :=
  calls.foldl (fun s call => (s.answer call).2) s

def given (log : List (Call × Option Token)) : List Token := log.filterMap (·.2)

def GaveEnd (log : List (Call × Option Token)) : Prop :=
  ∃ token, (.next, some token) ∈ log ∧ token.lexeme = .endOfInput

theorem gaveEnd_cons_iff {call : Call} {given? : Option Token} {log : List (Call × Option Token)} :
    GaveEnd ((call, given?) :: log) ↔
      (call = .next ∧ ∃ token, given? = some token ∧ token.lexeme = .endOfInput) ∨ GaveEnd log := by
  constructor
  · rintro ⟨token, hmem, hend⟩
    rcases List.mem_cons.mp hmem with heq | hmem
    · cases heq
      exact .inl ⟨rfl, token, rfl, hend⟩
    · exact .inr ⟨token, hmem, hend⟩
  · rintro (⟨rfl, token, rfl, hend⟩ | ⟨token, hmem, hend⟩)
    · exact ⟨token, List.mem_cons_self, hend⟩
    · exact ⟨token, List.mem_cons_of_mem _ hmem, hend⟩

/-! ## Single calls -/

/-- A call gives nothing and changes nothing, or it reads on. -/
theorem answer_cases (s : Scanner) (call : Call) :
    (call = .next ∧ s.finished = true ∧ s.answer call = (none, s)) ∨
      ∃ finished, s.answer call = (some s.cursor.next.1, ⟨s.cursor.next.2, finished⟩) ∧
        (finished = true ↔
          s.finished = true ∨ call = .next ∧ s.cursor.next.1.lexeme = .endOfInput) := by
  cases call with
  | nextToken => exact .inr ⟨s.finished, rfl, by simp⟩
  | next =>
    rcases hfinished : s.finished with _ | _
    · refine .inr ⟨s.cursor.next.1.lexeme == .endOfInput, ?_, by simp⟩
      rw [answer, next?, hfinished]
      rfl
    · refine .inl ⟨rfl, rfl, ?_⟩
      rw [answer, next?, hfinished]
      rfl

theorem answer_eq_none_iff {s : Scanner} {call : Call} :
    (s.answer call).1 = none ↔ call = .next ∧ s.finished = true := by
  cases call with
  | nextToken => simp [answer]
  | next => simpa [answer] using next?_eq_none_iff

theorem finished_answer_iff {s : Scanner} {call : Call} :
    (s.answer call).2.finished = true ↔ s.finished = true ∨
      call = .next ∧ ∃ token, (s.answer call).1 = some token ∧ token.lexeme = .endOfInput := by
  rcases answer_cases s call with ⟨-, hfinished, hanswer⟩ | ⟨finished, hanswer, hiff⟩
  · simp [hanswer, hfinished]
  · simpa [hanswer] using hiff

/-! ## Sequences of calls -/

theorem given_ask (s : Scanner) (calls : List Call) :
    given (s.ask calls) <+: s.cursor.upcoming calls.length := by
  induction calls generalizing s with
  | nil => exact List.nil_prefix
  | cons call calls ih =>
    rcases answer_cases s call with ⟨-, -, hanswer⟩ | ⟨finished, hanswer, -⟩
    · rw [ask, hanswer]
      exact (ih s).trans (s.cursor.upcoming_prefix_succ _)
    · rw [ask, hanswer]
      exact (List.cons_prefix_cons.mpr ⟨rfl, ih _⟩).trans (s.cursor.next_upcoming _)

theorem finished_behind_iff (s : Scanner) (calls : List Call) :
    (s.behind calls).finished = true ↔ s.finished = true ∨ GaveEnd (s.ask calls) := by
  induction calls generalizing s with
  | nil => simp [behind, ask, GaveEnd]
  | cons call calls ih =>
    change ((s.answer call).2.behind calls).finished = true ↔ _
    rw [ih, finished_answer_iff, or_assoc, ask, gaveEnd_cons_iff]

theorem not_gaveEnd_ask_next {s : Scanner} (h : s.finished = true) (n : Nat) :
    ¬ GaveEnd (s.ask (List.replicate n .next)) := by
  have hsame : s.answer .next = (none, s) := by
    rw [answer, next?, if_pos h]
  induction n with
  | zero => simp [ask, GaveEnd]
  | succ n ih =>
    rw [List.replicate_succ, ask, hsame, gaveEnd_cons_iff]
    simpa using ih

/-- Asked again and again, `next?` gives all tokens that are still to be read, and then the end. -/
theorem ask_next_tokens (c : Cursor) :
    ask ⟨c, false⟩ (List.replicate (c.tokens.length + 1) .next) =
        (c.tokens ++ [c.endToken]).map (fun token => (.next, some token)) ∧
      behind ⟨c, false⟩ (List.replicate (c.tokens.length + 1) .next) = ⟨⟨[], c.stop⟩, true⟩ := by
  have hanswer (c : Cursor) : answer ⟨c, false⟩ .next =
      (some c.next.1, ⟨c.next.2, c.next.1.lexeme == .endOfInput⟩) := rfl
  induction c using Cursor.tokens.induct with
  | case1 c hend =>
    have htokens : c.tokens = [] := by
      rw [Cursor.tokens, dif_pos hend]
    rw [htokens, List.length_nil, List.replicate_one, ask, behind, List.foldl_cons, hanswer,
      Cursor.next_of_endOfInput hend]
    exact ⟨rfl, rfl⟩
  | case2 c hne ih =>
    have htokens : c.tokens = c.next.1 :: c.next.2.tokens := by
      rw [Cursor.tokens, dif_neg hne]
    have hend : c.next.2.endToken = c.endToken := by
      rw [Cursor.endToken, Cursor.endToken, Cursor.stop_next]
    have hmark : (c.next.1.lexeme == .endOfInput) = false := beq_eq_false_iff_ne.mpr hne
    obtain ⟨hask, hbehind⟩ := ih
    rw [Cursor.stop_next] at hbehind
    rw [htokens, List.length_cons, List.replicate_succ, ask, behind, List.foldl_cons, hanswer, hmark,
      hask, hend]
    exact ⟨rfl, hbehind⟩

/-- To drain a scanner is to ask with `next?` until nothing is left. -/
theorem drain_eq (s : Scanner) :
    s.drain = (given (s.ask (List.replicate s.drain.1.length .next)),
      s.behind (List.replicate s.drain.1.length .next)) := by
  obtain ⟨c, _ | _⟩ := s
  · have hlength : (drain ⟨c, false⟩).1.length = c.tokens.length + 1 := List.length_append
    obtain ⟨hask, hbehind⟩ := ask_next_tokens c
    rw [hlength, hask, hbehind, given, List.filterMap_map]
    exact Prod.ext List.filterMap_some.symm rfl
  · rfl

/-- The tokens of a text are what `next?` gives from its start. -/
theorem tokenize_eq_given (text : String) :
    tokenize text = given ((ofText text).ask (List.replicate (tokenize text).length .next)) :=
  congrArg Prod.fst (drain_eq (ofText text))

theorem exists_gaveEnd_iff (s : Scanner) :
    (∃ n, GaveEnd (s.ask (List.replicate n .next))) ↔ s.finished = false := by
  obtain ⟨c, finished⟩ := s
  constructor
  · rintro ⟨n, hend⟩
    cases finished with
    | false => rfl
    | true => exact absurd hend (not_gaveEnd_ask_next rfl n)
  · rintro rfl
    refine ⟨c.tokens.length + 1, c.endToken, ?_, rfl⟩
    rw [(ask_next_tokens c).1]
    exact List.mem_map_of_mem (List.mem_append_right _ (List.mem_singleton_self _))

/-- However calls of `nextToken` and `next?` are mixed, together they hand out the tokens of a text in
order, each of them once, and then its end. A call gives nothing exactly if it is one of `next?` and an
earlier one of `next?` gave the end. Until then `next?` will still give it, whatever `nextToken` gave. -/
theorem calls_share_tokens (text : String) (calls : List Call) :
    given ((ofText text).ask calls) <+:
        tokenize text ++ List.replicate calls.length ⟨.endOfInput, Text.byteLength text.toList⟩ ∧
      (∀ call, (((ofText text).behind calls).answer call).1 = none ↔
        call = .next ∧ GaveEnd ((ofText text).ask calls)) ∧
      ((∃ n, GaveEnd (((ofText text).behind calls).ask (List.replicate n .next))) ↔
        ¬ GaveEnd ((ofText text).ask calls)) := by
  have hfinished : ((ofText text).behind calls).finished = true ↔ GaveEnd ((ofText text).ask calls) := by
    rw [finished_behind_iff, or_iff_right]
    exact Bool.false_ne_true
  refine ⟨?_, fun call => ?_, ?_⟩
  · have hend : (Cursor.ofText text).endToken = ⟨.endOfInput, Text.byteLength text.toList⟩ := by
      rw [Cursor.endToken, stop_ofText]
    have hupcoming : tokenize text ++ List.replicate calls.length (Cursor.ofText text).endToken =
        (Cursor.ofText text).upcoming (calls.length + 1) := by
      rw [tokenize, List.append_assoc]
      rfl
    rw [← hend, hupcoming]
    exact (given_ask _ calls).trans (Cursor.upcoming_prefix_succ _ _)
  · rw [answer_eq_none_iff, hfinished]
  · rw [exists_gaveEnd_iff, ← hfinished, Bool.not_eq_true]

end Scanner

end LicenseExpr
