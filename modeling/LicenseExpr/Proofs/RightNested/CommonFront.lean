import LicenseExpr.Proofs.Parentheses
import LicenseExpr.Proofs.RightNested.Lockstep
import LicenseExpr.Proofs.RightNested.Repaired

/-!
# Texts with a common front

A move looks at one token, so two runs on texts that begin with the same tokens make the same moves
up to where the texts part (`Beside.answer_token`). Where both go on with a `)` that has no partner,
they have come to their end as well: what stands behind that `)` plays no part (`run_eq_of_unmatched`).
-/

namespace LicenseExpr.RightNested

variable {limit stop stop' opened : Nat} {B : Nat → List Token → List Token → Prop}
  {s s' : State} {move : Move}

/-- The two texts have the same tokens, each with a partner if it is a `)`, up to a place from
which on they are related by `B`. -/
inductive AgreeUpTo (B : Nat → List Token → List Token → Prop) :
    Nat → List Token → List Token → Prop where
  | here {opened : Nat} {tokens tokens' : List Token} : B opened tokens tokens' →
      AgreeUpTo B opened tokens tokens'
  | token {opened behind : Nat} {token : Token} {tokens tokens' : List Token} :
      token.lexeme.openBehind? opened = some behind → AgreeUpTo B behind tokens tokens' →
      AgreeUpTo B opened (token :: tokens) (token :: tokens')

/-- The second run stands where the first one stands. -/
structure Beside (B : Nat → List Token → List Token → Prop) (limit : Nat) (s s' : State) : Prop where
  tokens : AgreeUpTo B s.openGroups s.tokens s'.tokens
  held : s.held = s'.held
  frames : s.frames = s'.frames
  openGroups : s.openGroups = s'.openGroups
  settled : Settled limit s

theorem beside_start {tokens tokens' : List Token} (h : AgreeUpTo B 0 tokens tokens') :
    Beside B limit (.start tokens) (.start tokens') :=
  ⟨h, rfl, rfl, rfl, settled_start limit tokens⟩

theorem Settled.openGroups_eq_zero (hs : Settled limit s) (h : s.frames = []) :
    s.openGroups = 0 := by
  have hretains := hs.retains
  rw [h] at hretains
  generalize s.openGroups = openGroups at hretains
  cases hretains
  rfl

theorem Settled.exists_openGroups_eq {start : Nat} {outer : Option Expression}
    {frames : List Frame} (hs : Settled limit s) (h : s.frames = .group start outer :: frames) :
    ∃ n, s.openGroups = n + 1 := by
  have hretains := hs.retains
  rw [h] at hretains
  generalize s.openGroups = openGroups at hretains
  cases hretains with
  | @group openGroups => exact ⟨openGroups, rfl⟩

theorem agreeUpTo_append {front tokens tokens' : List Token}
    (hfront : (survey opened front).unmatched? = none)
    (h : AgreeUpTo B (survey opened front).opened tokens tokens') :
    AgreeUpTo B opened (front ++ tokens) (front ++ tokens') := by
  induction front generalizing opened with
  | nil => exact h
  | cons token front ih =>
    rcases hopen : token.lexeme.openBehind? opened with _ | behind
    · rw [survey_unmatched hopen] at hfront
      cases hfront
    · rw [survey_cons hopen] at hfront h
      exact .token hopen (ih hfront h)

section Answer

variable {strictness : Strictness} (accord : Accord strictness)

/-- At a common token the second run makes the move of the first one. -/
theorem Beside.answer_token {behind : Nat} {token : Token} {tokens tokens' : List Token}
    {held : Option Expression} {frames : List Frame}
    (herrors : ∀ error, accord.Errors error error)
    (hs : Settled limit ⟨token :: tokens, held, frames, opened⟩)
    (hopen : token.lexeme.openBehind? opened = some behind) (hrest : AgreeUpTo B behind tokens tokens')
    (h : Turn limit stop ⟨token :: tokens, held, frames, opened⟩ move) :
    ∃ next', Turn limit stop' ⟨token :: tokens', held, frames, opened⟩ ⟨move.repairs, next'⟩ ∧
      accord.Nexts (Beside B limit) move.next next' := by
  have hkeeps {repairs : List Repair} {s : State}
      (h : Turn limit stop ⟨token :: tokens, held, frames, opened⟩ ⟨repairs, .resume s⟩) :
      Settled limit s := settled_of_turn h hs
  cases h with
  | operator _ _ _ _ hop =>
    have hsame : token.lexeme.openBehind? opened = some opened := openBehind?_of_operator hop
    obtain rfl := Option.some.inj (hsame.symm.trans hopen)
    refine ⟨_, .operator tokens' held frames opened hop, .resume ⟨hrest, rfl, rfl, rfl, ?_⟩⟩
    exact hkeeps (.operator tokens held frames opened hop)
  | name _ _ _ _ hword htext =>
    have hsame : token.lexeme.openBehind? opened = some opened := openBehind?_of_name hword htext
    obtain rfl := Option.some.inj (hsame.symm.trans hopen)
    refine ⟨_, .name tokens' held frames opened hword htext, .resume ⟨hrest, rfl, rfl, rfl, ?_⟩⟩
    exact hkeeps (.name tokens held frames opened hword htext)
  | openGroup _ _ _ hparen hroom =>
    rw [hparen] at hopen
    obtain rfl := Option.some.inj hopen
    refine ⟨_, .openGroup tokens' held frames hparen hroom, .resume ⟨hrest, rfl, rfl, rfl, ?_⟩⟩
    exact hkeeps (.openGroup tokens held frames hparen hroom)
  | tooDeep _ _ _ hparen hfull =>
    exact ⟨_, .tooDeep tokens' held frames hparen hfull, .fail (herrors _)⟩
  | closeGroup _ start outer frames _ hend =>
    have hparen : token.lexeme = .rightParen := hend
    obtain ⟨n, rfl⟩ : ∃ n, opened = n + 1 := hs.exists_openGroups_eq rfl
    rw [hparen] at hopen
    cases hopen
    have hend' : AtTerminator (token :: tokens') := hparen
    refine ⟨_, .closeGroup held start outer frames (behind + 1) hend',
      .resume ⟨hrest, rfl, rfl, rfl, ?_⟩⟩
    exact hkeeps (.closeGroup held start outer frames (behind + 1) hend)
  | closeOperand _ op start left frames _ hend =>
    have hend' : AtTerminator (token :: tokens') := hend
    refine ⟨_, .closeOperand held op start left frames opened hend',
      .resume ⟨.token hopen hrest, rfl, rfl, rfl, ?_⟩⟩
    exact hkeeps (.closeOperand held op start left frames opened hend)
  | unmatched _ _ _ hparen =>
    have hzero : opened = 0 := hs.openGroups_eq_zero rfl
    rw [openBehind?_eq_none_iff.mpr ⟨hparen, hzero⟩] at hopen
    cases hopen

end Answer

/-! ## Behind a `)` without a partner -/

/-- Both texts go on with the same `)`, and no group is open. -/
inductive AtUnmatched : Nat → List Token → List Token → Prop where
  | intro {token : Token} (rest rest' : List Token) : token.lexeme = .rightParen →
      AtUnmatched 0 (token :: rest) (token :: rest')

theorem lockstep_of_unmatched (strictness : Strictness) (limit stop stop' : Nat) :
    Lockstep (.same strictness) limit stop stop' (Beside AtUnmatched limit) := by
  refine ⟨fun {s s' move} hbeside hturn => ?_⟩
  obtain ⟨tokens, held, frames, openGroups⟩ := s
  obtain ⟨tokens', held', frames', openGroups'⟩ := s'
  obtain ⟨hagree, rfl, rfl, rfl, hsettled⟩ := hbeside
  cases hagree with
  | token hopen hrest =>
    obtain ⟨next', hturn', hnexts⟩ :=
      Beside.answer_token (.same strictness) (fun _ => rfl) hsettled hopen hrest hturn
    exact ⟨_, hturn', rfl, hnexts⟩
  | here hunmatched =>
    cases hunmatched with
    | @intro token rest rest' hparen =>
      have hend' : AtTerminator (token :: rest') := hparen
      cases hturn with
      | operator _ _ _ _ hop => rw [hparen] at hop; cases hop
      | name _ _ _ _ hword => cases hparen.symm.trans hword
      | openGroup _ _ _ hleft => cases hparen.symm.trans hleft
      | tooDeep _ _ _ hleft => cases hparen.symm.trans hleft
      | closeGroup =>
        obtain ⟨n, hn⟩ := hsettled.exists_openGroups_eq rfl
        cases hn
      | closeOperand _ op start left frames _ hend =>
        refine ⟨_, .closeOperand held op start left frames 0 hend', rfl,
          .resume ⟨.here (.intro rest rest' hparen), rfl, rfl, rfl, ?_⟩⟩
        exact settled_of_turn (.closeOperand held op start left frames 0 hend) hsettled
      | unmatched _ _ _ _ =>
        exact ⟨_, .unmatched rest' held 0 hparen, rfl, .finish rfl⟩

/-- What stands behind the first `)` without a partner changes nothing. -/
theorem run_eq_of_unmatched {tokens tokens' : List Token} (strictness : Strictness)
    (limit stop stop' : Nat) (h : AgreeUpTo AtUnmatched 0 tokens tokens')
    (htokens : ∀ t ∈ tokens, t.lexeme ≠ .endOfInput) :
    run strictness limit stop [] (.start tokens) = run strictness limit stop' [] (.start tokens') :=
  Accord.same_outcomes_iff.mp
    ((lockstep_of_unmatched strictness limit stop stop').run (beside_start h) htokens)

end LicenseExpr.RightNested
