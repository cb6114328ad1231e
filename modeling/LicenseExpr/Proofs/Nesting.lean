import LicenseExpr.Proofs.Earliest
import LicenseExpr.Proofs.RightNested.Salvage
import Mathlib.Order.Bounds.Defs

/-!
# The limit on nesting

The limit plays a part at a `(` inside as many open groups as it allows, and nowhere else. Reading
that meets no such `(` is the same with every larger limit (`read_of_le`), and so is the scan that
finds its errors. A tree fits into the limit, and if no repair was made, no smaller limit than its
own nesting would have done (`isLeast_nesting`).
-/

namespace LicenseExpr

variable {limit limit' stop : Nat} {text : String}

def EndsTooDeep {α : Type} (r : Except SyntaxError α) : Prop :=
  ∃ offset bound, r = .error (.nestingTooDeep offset bound)

/-! ## Larger limits -/

namespace RightNested

variable {strictness : Strictness}

theorem repairs_step_eq (limit limit' stop : Nat) (s : State) :
    (s.step limit' stop).repairs = (s.step limit stop).repairs := by
  obtain ⟨tokens, held, frames, openGroups⟩ := s
  rcases tokens with _ | ⟨⟨_ | _ | _ | _, start⟩, rest⟩ <;> rfl

/-- A move that does not fail is made with every larger limit. -/
theorem step_of_le {s : State} (hle : limit ≤ limit')
    (h : ∀ error, (s.step limit stop).next ≠ .fail error) :
    s.step limit' stop = s.step limit stop := by
  obtain ⟨tokens, held, frames, openGroups⟩ := s
  rcases tokens with _ | ⟨⟨_ | _ | _ | _, start⟩, rest⟩
  · rfl
  · rfl
  · have hroom : ¬ openGroups ≥ limit := fun hfull => h _ (if_pos hfull)
    have hroom' : ¬ openGroups ≥ limit' := fun hfull => hroom (Nat.le_trans hle hfull)
    simp only [State.step, if_neg hroom, if_neg hroom']
  · rfl
  · rfl

theorem run_of_le {s : State} (hle : limit ≤ limit')
    (h : ¬ EndsTooDeep (run strictness limit stop [] s).result) :
    run strictness limit' stop [] s = run strictness limit stop [] s := by
  have hrepairs := repairs_step_eq limit limit' stop s
  rcases hrefusal : strictness.refusal? (s.step limit stop).repairs with _ | error
  · rcases hnext : (s.step limit stop).next with s' | result | error
    · have hstep : s.step limit' stop = s.step limit stop := step_of_le hle (by simp [hnext])
      rw [run_eq_of_resume hrefusal hnext] at h ⊢
      have hrest : ¬ EndsTooDeep (run strictness limit stop [] s').result := h
      rw [run_eq_of_resume (hstep ▸ hrefusal) (hstep ▸ hnext), run_of_le hle hrest, hrepairs]
    · have hstep : s.step limit' stop = s.step limit stop := step_of_le hle (by simp [hnext])
      rw [run_of_finish hrefusal hnext, run_of_finish (hstep ▸ hrefusal) (hstep ▸ hnext), hrepairs]
    · obtain ⟨offset, rfl⟩ := eq_nestingTooDeep_of_step hnext
      rw [run_of_fail hrefusal hnext] at h
      exact absurd ⟨offset, limit, rfl⟩ h
  · rw [run_of_refusal hrefusal, run_of_refusal (hrepairs.symm ▸ hrefusal)]
termination_by s.weight
decreasing_by exact State.weight_lt_of_step hnext

theorem readRightNested_of_le {dialect : Dialect} (hle : limit ≤ limit')
    (h : ¬ EndsTooDeep (Reader.readRightNested ⟨dialect, limit⟩ strictness text).result) :
    Reader.readRightNested ⟨dialect, limit'⟩ strictness text =
      Reader.readRightNested ⟨dialect, limit⟩ strictness text := by
  have hread : RightNested.read strictness limit' text = RightNested.read strictness limit text := by
    refine run_of_le hle ?_
    rintro ⟨offset, bound, hdeep⟩
    refine h ⟨offset, bound, ?_⟩
    change (RightNested.read strictness limit text).result >>= _ = _
    rw [show (RightNested.read strictness limit text).result = _ from hdeep]
    rfl
  simp only [Reader.readRightNested, hread]

end RightNested

namespace Scan

variable {manner : Manner} {s s' : State} {token : Token} {tokens : List Token}

theorem step_of_le (hle : limit ≤ limit') (h : ¬ EndsTooDeep (s.step manner limit token)) :
    s.step manner limit' token = s.step manner limit token := by
  cases hlexeme : token.lexeme with
  | leftParen =>
    rw [step_leftParen hlexeme] at h ⊢
    rw [step_leftParen hlexeme]
    obtain ⟨place, opened⟩ := s
    cases place with
    | after attached => rfl
    | opening | behind op =>
      have hroom : ¬ opened.length ≥ limit := fun hfull => h ⟨_, _, if_pos hfull⟩
      have hroom' : ¬ opened.length ≥ limit' := fun hfull => hroom (Nat.le_trans hle hfull)
      simp only [State.openGroup, if_neg hroom, if_neg hroom']
  | word text => simp only [State.step, hlexeme]
  | rightParen | endOfInput => simp only [State.step, hlexeme]

theorem check_of_le (hle : limit ≤ limit')
    (h : ¬ EndsTooDeep (s.check manner limit stop tokens)) :
    s.check manner limit' stop tokens = s.check manner limit stop tokens := by
  induction tokens generalizing s with
  | nil => rfl
  | cons token rest ih =>
    rw [check_cons] at h
    have hstep : s.step manner limit' token = s.step manner limit token := by
      refine step_of_le hle ?_
      rintro ⟨offset, bound, hdeep⟩
      refine h ⟨offset, bound, ?_⟩
      rw [hdeep]
      rfl
    rw [check_cons, check_cons, hstep]
    cases hmiddle : s.step manner limit token with
    | error error => rfl
    | ok middle =>
      rw [hmiddle] at h
      exact ih h

/-! ## Open groups of a scan -/

theorem openBehind?_of_step (h : s.step manner limit token = .ok s') :
    token.lexeme.openBehind? s.opened.length = some s'.opened.length := by
  rcases hx : token.lexeme.symbol? with _ | _ | op | _ | _
  · have hend := Lexeme.symbol?_eq_none_iff.mp hx
    rw [State.step, hend] at h
    cases h
    rw [hend]
    rfl
  · rw [opened_of_step hx (by simp) (by simp) h]
    exact openBehind?_of_symbol hx (by simp) (by simp)
  · rw [opened_of_step hx (by simp) (by simp) h]
    exact openBehind?_of_symbol hx (by simp) (by simp)
  · have hparen := Lexeme.symbol?_eq_leftParen_iff.mp hx
    obtain ⟨-, rfl⟩ := exists_of_openGroup hparen h
    exact openBehind?_of_leftParen hparen
  · have hparen := Lexeme.symbol?_eq_rightParen_iff.mp hx
    obtain ⟨attached, group, rfl, -⟩ := exists_of_closeGroup hparen h
    exact openBehind?_of_rightParen hparen

theorem survey_of_advance (h : s.advance manner limit tokens = .ok s') :
    (survey s.opened.length tokens).unmatched? = none ∧
      (survey s.opened.length tokens).opened = s'.opened.length := by
  induction tokens generalizing s with
  | nil =>
    cases h
    exact ⟨rfl, rfl⟩
  | cons token rest ih =>
    obtain ⟨middle, hstep, h⟩ := advance_cons_eq_ok_iff.mp h
    rw [survey_cons (openBehind?_of_step hstep)]
    exact ih h

theorem length_opened_of_step (hs : s.opened.length ≤ limit)
    (h : s.step manner limit token = .ok s') : s'.opened.length ≤ limit := by
  by_cases hparen : token.lexeme = .leftParen
  · obtain ⟨hawaits, rfl⟩ := exists_of_openGroup hparen h
    refine Nat.lt_of_not_le fun hfull => ?_
    cases h.symm.trans (step_leftParen_of_full hawaits hparen hfull)
  · exact Nat.le_trans (le_of_openBehind? (openBehind?_of_step h) hparen) hs

theorem length_opened_of_advance (hs : s.opened.length ≤ limit)
    (h : s.advance manner limit tokens = .ok s') : s'.opened.length ≤ limit := by
  induction tokens generalizing s with
  | nil =>
    cases h
    exact hs
  | cons token rest ih =>
    obtain ⟨middle, hstep, h⟩ := advance_cons_eq_ok_iff.mp h
    exact ih (length_opened_of_step hs hstep) h

theorem le_length_opened_of_tooDeep {offset bound : Nat}
    (h : s.step manner limit token = .error (.nestingTooDeep offset bound)) :
    limit ≤ s.opened.length := by
  cases ends_of_step_error h with
  | nestingTooDeep hparen =>
    refine Nat.le_of_not_lt fun hroom => ?_
    obtain ⟨place, opened⟩ := s
    cases place with
    | opening | behind op => cases h.symm.trans (step_leftParen_of_awaits trivial hparen hroom)
    | after attached =>
      have hopens : token.lexeme.OpensOperand := hparen ▸ trivial
      cases h.symm.trans (step_after_of_opens hopens)

/-- The group that is too deep stands inside as many others as the limit allows. -/
theorem tooDeep_of_verdict {offset bound : Nat}
    (h : verdict manner limit text = .error (.nestingTooDeep offset bound)) :
    bound = limit ∧ (⟨.leftParen, offset⟩, limit) ∈ (surveyText text).passed := by
  rcases exists_of_check_error h with
    ⟨front, token, rest, s, hsplit, hfront, hstep⟩ | ⟨s, -, hfinish⟩
  · have hle : s.opened.length ≤ limit := length_opened_of_advance (Nat.zero_le _) hfront
    have hfull := Nat.le_antisymm hle (le_length_opened_of_tooDeep hstep)
    obtain ⟨hpassed, hopened⟩ := survey_of_advance hfront
    obtain ⟨lexeme, start⟩ := token
    cases ends_of_step_error hstep with
    | nestingTooDeep hparen =>
      cases hparen
      have hzero : State.start.opened.length = 0 := rfl
      rw [hzero] at hpassed hopened
      refine ⟨rfl, ?_⟩
      rw [surveyText, hsplit, survey_append hpassed, hopened, hfull]
      exact List.mem_append_right _ List.mem_cons_self
  · cases lacks_of_finish_error hfinish

end Scan

/-! ## All dialects -/

variable {dialect : Dialect} {e : Expression}

theorem read_of_le (hle : limit ≤ limit')
    (h : ¬ EndsTooDeep (Reader.read ⟨dialect, limit⟩ text).result) :
    Reader.read ⟨dialect, limit'⟩ text = Reader.read ⟨dialect, limit⟩ text := by
  cases dialect with
  | lenient => exact RightNested.readRightNested_of_le hle h
  | strict => exact RightNested.readRightNested_of_le hle h
  | spdx =>
    have hverdict : Scan.verdict .byPrecedence limit' text = Scan.verdict .byPrecedence limit text := by
      refine Scan.check_of_le hle ?_
      rintro ⟨offset, bound, hdeep⟩
      exact h ⟨offset, bound, spdx_eq_error_iff.mpr hdeep⟩
    have hresult : Precedence.read limit' text = Precedence.read limit text := by
      rcases hread : Precedence.read limit text with error | e
      · exact spdx_eq_error_iff.mpr (hverdict.trans (spdx_eq_error_iff.mp hread))
      · obtain ⟨hsymbols, hshape, hnames, hroom⟩ := Precedence.read_eq_ok_iff.mp hread
        exact Precedence.read_eq_ok_iff.mpr ⟨hsymbols, hshape, hnames, Nat.le_trans hroom hle⟩
    simp only [Reader.read, hresult]

theorem tooDeep_of_read {offset bound : Nat}
    (h : (Reader.read ⟨dialect, limit⟩ text).result = .error (.nestingTooDeep offset bound)) :
    bound = limit ∧ (⟨.leftParen, offset⟩, limit) ∈ (surveyText text).passed := by
  cases dialect with
  | strict => exact Scan.tooDeep_of_verdict (strict_eq_error_iff.mp h)
  | spdx => exact Scan.tooDeep_of_verdict (spdx_eq_error_iff.mp h)
  | lenient =>
    rcases hfound : (surveyText text).tooDeep? limit with _ | token
    · by_cases hname : (surveyText text).HoldsName
      · obtain ⟨e, he⟩ := exists_lenient_of_holdsName hfound hname
        cases he.symm.trans h
      · cases (lenient_of_not_holdsName hfound hname).symm.trans h
    · obtain ⟨hpassed, hparen⟩ := mem_passed_of_tooDeep? hfound
      obtain ⟨lexeme, start⟩ := token
      cases hparen
      cases (lenient_of_tooDeep hfound).symm.trans h
      exact ⟨rfl, hpassed⟩

theorem nesting_le_of_read (h : (Reader.read ⟨dialect, limit⟩ text).result = .ok e) :
    e.nesting ≤ limit := by
  cases dialect with
  | strict => exact (RightNested.result_strict_eq_ok_iff.mp h).2.2.2
  | spdx => exact (Precedence.read_eq_ok_iff.mp h).2.2.2
  | lenient =>
    have hread := RightNested.bind_requireExpression_eq_ok_iff.mp h
    have hroom := (RightNested.fits_of_read_lenient hread).1.room
    rwa [Nat.zero_add] at hroom

namespace Scan

/-- Where malformed text is refused, a tree needs its own nesting as the limit, and no more. -/
theorem isLeast_nesting {manner : Manner}
    (h : (Reader.read ⟨manner.dialect, limit⟩ text).result = .ok e) :
    IsLeast {d | Accepts ⟨manner.dialect, d⟩ text} e.nesting := by
  obtain ⟨hsymbols, hshape, hnames, -⟩ := result_eq_ok_iff.mp h
  refine ⟨⟨e, result_eq_ok_iff.mpr ⟨hsymbols, hshape, hnames, Nat.le_refl _⟩⟩, ?_⟩
  rintro d ⟨e', he'⟩
  obtain ⟨hsymbols', hshape', -, hroom⟩ := result_eq_ok_iff.mp he'
  obtain rfl := eq_of_shape hsymbols hsymbols' hshape hshape'
  exact hroom

end Scan

theorem Cursor.leftParen_mem_rest {c : Cursor} :
    ∀ t ∈ c.tokens, t.lexeme = .leftParen → '(' ∈ c.rest := by
  induction c using tokens_induction with
  | blank cs offset h => exact nofun
  | written blanks cs rest l offset hblanks hl hrest ih =>
    intro t ht hparen
    rcases List.mem_cons.mp ht with rfl | ht
    · dsimp only at hparen
      subst hparen
      cases hl
      simp
    · exact List.mem_append_right _ (List.mem_append_right _ (ih t ht hparen))

/-- Reading depends on the limit only where groups nest too deep. The error then names the `(` that
would open one group more than the limit allows, so a text without `(` never gives it. A tree keeps
within the limit, and where malformed text is refused, its nesting is the least limit that does. -/
theorem limit_bounds_nesting_only (dialect : Dialect) (limit : Nat) (text : String) :
    (∀ limit', limit ≤ limit' → ¬ EndsTooDeep (Reader.read ⟨dialect, limit⟩ text).result →
      Reader.read ⟨dialect, limit'⟩ text = Reader.read ⟨dialect, limit⟩ text) ∧
    (∀ offset bound,
      (Reader.read ⟨dialect, limit⟩ text).result = .error (.nestingTooDeep offset bound) →
      bound = limit ∧ (⟨.leftParen, offset⟩, limit) ∈ (surveyText text).passed) ∧
    (∀ e, (Reader.read ⟨dialect, limit⟩ text).result = .ok e →
      e.nesting ≤ limit ∧
        (dialect ≠ .lenient → IsLeast {d | Accepts ⟨dialect, d⟩ text} e.nesting)) ∧
    ('(' ∉ text.toList → ¬ EndsTooDeep (Reader.read ⟨dialect, limit⟩ text).result) := by
  refine ⟨fun limit' => read_of_le, fun offset bound => tooDeep_of_read, fun e h => ?_, ?_⟩
  · refine ⟨nesting_le_of_read h, fun hdialect => ?_⟩
    cases dialect with
    | lenient => exact absurd rfl hdialect
    | strict => exact @Scan.isLeast_nesting limit text e .rightNested h
    | spdx => exact @Scan.isLeast_nesting limit text e .byPrecedence h
  · rintro hparen ⟨offset, bound, h⟩
    have hpassed := (tooDeep_of_read h).2
    exact hparen (Cursor.leftParen_mem_rest _ (mem_of_mem_passed hpassed) rfl)

end LicenseExpr
