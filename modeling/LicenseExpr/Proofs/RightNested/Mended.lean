import LicenseExpr.Proofs.RightNested.Salvage

/-!
# Texts with mended parentheses

A text is mended by leaving out all from its first `)` without a partner on, and closing the groups
that are then open. Lenient reading treats a text as if it were mended: at a `)` without a partner
it stops as it does at the end, and at the end it closes the open groups as a `)` closes them
(`lockstep_of_mends`). The repairs differ, and on the mended text none is about a parenthesis that
has no partner.
-/

namespace LicenseExpr

/-- The text up to its first `)` without a partner, and a `)` for each group that is open there. -/
def mendParentheses (text : String) : String :=
  let kept :=
    match (surveyText text).unmatched? with
    | none => text
    | some token => upToByte text token.start
  kept ++ String.ofList (List.replicate (surveyText text).opened ')')

/-! ## Repairs of unmatched parentheses -/

/-- A parenthesis had no partner. -/
inductive Repair.OfUnmatched : Repair → Prop where
  | intro (offset : Nat) (recovery : Recovery) :
      OfUnmatched (.recovered (.unmatchedParenthesis offset) recovery)

theorem getElem?_toList_append {text : String} {i : Nat} {c : Char} (h : text.toList[i]? = some c)
    (more : String) : (text ++ more).toList[i]? = some c := by
  rw [String.toList_append, List.getElem?_append_left (List.getElem?_eq_some_iff.mp h).1, h]

/-- The third letter tells the complaint about an unmatched parenthesis from all others. -/
theorem SyntaxError.exists_of_complaint (e : SyntaxError) :
    ∃ c, e.complaint.toList[2]? = some c ∧
      (c = 'm' → ∃ offset, e = .unmatchedParenthesis offset) := by
  cases e with
  | emptyExpression offset =>
    exact ⟨'p', show "empty license expression".toList[2]? = _ by decide, nofun⟩
  | unexpectedToken offset found =>
    have h : "unexpected token ".toList[2]? = some 'e' := by decide
    exact ⟨'e', getElem?_toList_append h _, nofun⟩
  | missingOperand offset op =>
    have h : "expected license expression around '".toList[2]? = some 'p' := by decide
    exact ⟨'p', getElem?_toList_append (getElem?_toList_append h _) _, nofun⟩
  | unmatchedParenthesis offset =>
    exact ⟨'m', show "unmatched parenthesis".toList[2]? = _ by decide, fun _ => ⟨offset, rfl⟩⟩
  | emptyGroup offset => exact ⟨'p', show "empty parentheses".toList[2]? = _ by decide, nofun⟩
  | nestingTooDeep offset limit =>
    have h : "expression nests deeper than ".toList[2]? = some 'p' := by decide
    exact ⟨'p', getElem?_toList_append (getElem?_toList_append h _) _, nofun⟩

theorem Repair.ofUnmatched_of_message {r : Repair} {offset : Nat} {recovery : Recovery}
    (h : r.message = (recovered (.unmatchedParenthesis offset) recovery).message) :
    r.OfUnmatched := by
  have hletter {error : SyntaxError} {recovery : Recovery} {c : Char}
      (hc : error.complaint.toList[2]? = some c) :
      (recovered error recovery).message.toList[2]? = some c := by
    have hmessage : error.message.toList[2]? = some c :=
      getElem?_toList_append (getElem?_toList_append hc _) _
    exact getElem?_toList_append (getElem?_toList_append hmessage _) _
  have hm : r.message.toList[2]? = some 'm' := by
    rw [h]
    exact hletter (show "unmatched parenthesis".toList[2]? = some 'm' by decide)
  cases r with
  | collapsed op start =>
    have hl : "collapsing '".toList[2]? = some 'l' := by decide
    have hmessage : (collapsed op start).message.toList[2]? = some 'l' := by
      iterate 4 apply getElem?_toList_append
      exact hl
    cases hm.symm.trans hmessage
  | recovered error recovery =>
    obtain ⟨c, hc, herror⟩ := error.exists_of_complaint
    obtain ⟨offset, rfl⟩ := herror (Option.some.inj ((hletter hc).symm.trans hm))
    exact .intro offset recovery

namespace RightNested

variable {limit stop stop' opened : Nat} {s s' : State} {move : Move}

/-! ## Where repairs are about unmatched parentheses -/

theorem not_ofUnmatched_overwrite (held : Option Expression) (token : Token) :
    ∀ r ∈ overwrite held token, ¬ r.OfUnmatched := by
  cases held with
  | none => exact nofun
  | some e => exact List.forall_mem_singleton.mpr nofun

theorem not_ofUnmatched_missingLeft (held : Option Expression) (op : Operator) (start : Nat) :
    ∀ r ∈ missingLeft held op start, ¬ r.OfUnmatched := by
  cases held with
  | none => exact List.forall_mem_singleton.mpr nofun
  | some e => exact nofun

theorem not_ofUnmatched_close_operand (token : Token) (held : Option Expression) (op : Operator)
    (start : Nat) (left : Option Expression) :
    ∀ r ∈ ((Frame.operand op start left).close token held).1, ¬ r.OfUnmatched := by
  rcases left with _ | left <;> rcases held with _ | e
  · exact List.forall_mem_singleton.mpr nofun
  · exact List.forall_mem_singleton.mpr nofun
  · exact List.forall_mem_singleton.mpr nofun
  · exact nofun

/-- A group that a `)` closes is not blamed for a missing partner. -/
theorem not_ofUnmatched_close_group {token : Token} (h : token.lexeme = .rightParen)
    (held : Option Expression) (start : Nat) (outer : Option Expression) :
    ∀ r ∈ ((Frame.group start outer).close token held).1, ¬ r.OfUnmatched := by
  have hend : token.lexeme ≠ .endOfInput := by simp [h]
  rcases held with _ | e
  · rw [Frame.close, if_neg hend]
    refine List.forall_mem_singleton.mpr ?_
    rintro ⟨⟩
  · rw [Frame.close, if_neg hend]
    exact List.forall_mem_nil _

theorem close_snd_eq (token token' : Token) (held : Option Expression) (frame : Frame) :
    (frame.close token held).2 = (frame.close token' held).2 := by
  rcases frame with ⟨start, outer⟩ | ⟨op, start, _ | left⟩ <;> cases held <;> rfl

theorem not_ofUnmatched_of_turn {behind : Nat} {token : Token} {tokens : List Token}
    {held : Option Expression} {frames : List Frame}
    (hs : Settled limit ⟨token :: tokens, held, frames, opened⟩)
    (hopen : token.lexeme.openBehind? opened = some behind)
    (h : Turn limit stop ⟨token :: tokens, held, frames, opened⟩ move) :
    ∀ r ∈ move.repairs, ¬ r.OfUnmatched := by
  cases h with
  | operator => exact not_ofUnmatched_missingLeft _ _ _
  | name => exact not_ofUnmatched_overwrite _ _
  | openGroup => exact not_ofUnmatched_overwrite _ _
  | tooDeep => exact not_ofUnmatched_overwrite _ _
  | closeGroup _ start outer _ _ hend => exact not_ofUnmatched_close_group hend _ _ _
  | closeOperand => exact not_ofUnmatched_close_operand _ _ _ _ _
  | unmatched _ _ _ hparen =>
    rw [openBehind?_eq_none_iff.mpr ⟨hparen, hs.openGroups_eq_zero rfl⟩] at hopen
    cases hopen

/-! ## The two runs -/

/-- Where a text and its mended form part: at a `)` without a partner, where the mended text ends, or
at the end, where the mended text has a `)` for each open group. -/
inductive Mends : Nat → List Token → List Token → Prop where
  | unmatched {token : Token} (rest : List Token) : token.lexeme = .rightParen →
      Mends 0 (token :: rest) []
  | unclosed {closers : List Token} : (∀ t ∈ closers, t.lexeme = .rightParen) →
      Mends closers.length [] closers

/-- The runs come to the same, and the second one makes no repair of an unmatched parenthesis. -/
def mending : Accord .lenient where
  Repairs _ repairs := ∀ r ∈ repairs, ¬ r.OfUnmatched
  Errors := Eq
  Held := Eq
  nil := nofun
  append h h' := List.forall_mem_append.mpr ⟨h, h'⟩
  refusal _ := .none

theorem Mends.atTerminator {tokens tokens' : List Token} (h : Mends opened tokens tokens') :
    AtTerminator tokens ∧ AtTerminator tokens' := by
  cases h with
  | unmatched rest hparen => exact ⟨hparen, trivial⟩
  | unclosed hclosers =>
    refine ⟨trivial, ?_⟩
    cases tokens' with
    | nil => trivial
    | cons token closers => exact hclosers token List.mem_cons_self

theorem answer_of_mends {tokens tokens' : List Token} {held : Option Expression}
    {frames : List Frame} (hs : Settled limit ⟨tokens, held, frames, opened⟩)
    (hmends : Mends opened tokens tokens') (h : Turn limit stop ⟨tokens, held, frames, opened⟩ move) :
    ∃ move', Turn limit stop' ⟨tokens', held, frames, opened⟩ move' ∧
      (∀ r ∈ move'.repairs, ¬ r.OfUnmatched) ∧
      mending.Nexts (Beside Mends limit) move.next move'.next := by
  obtain ⟨hend, hend'⟩ := hmends.atTerminator
  rcases frames with _ | ⟨⟨start, outer⟩ | ⟨op, start, left⟩, frames⟩
  · cases hmends with
    | @unmatched token rest hparen =>
      have hstop : Turn limit stop ⟨token :: rest, held, [], 0⟩ _ := .unmatched rest held 0 hparen
      obtain rfl := hstop.step_eq.symm.trans h.step_eq
      exact ⟨_, .finish held 0, nofun, .finish rfl⟩
    | unclosed hclosers =>
      obtain rfl := List.eq_nil_of_length_eq_zero (hs.openGroups_eq_zero rfl)
      have hstop : Turn limit stop ⟨[], held, [], 0⟩ _ := .finish held 0
      obtain rfl := hstop.step_eq.symm.trans h.step_eq
      exact ⟨_, .finish held 0, nofun, .finish rfl⟩
  · obtain ⟨n, hn⟩ : ∃ n, opened = n + 1 := hs.exists_openGroups_eq rfl
    cases hmends with
    | unmatched => cases hn
    | unclosed hclosers =>
      rcases tokens' with _ | ⟨token, closers⟩
      · cases hn
      · obtain ⟨hparen, hclosers⟩ := List.forall_mem_cons.mp hclosers
        have hclose : Turn limit stop
            ⟨[], held, .group start outer :: frames, (token :: closers).length⟩ _ :=
          .closeGroup held start outer frames _ hend
        obtain rfl := hclose.step_eq.symm.trans h.step_eq
        refine ⟨_, .closeGroup held start outer frames _ hend',
          not_ofUnmatched_close_group hparen _ _ _, .resume ⟨.here (.unclosed hclosers), ?_, rfl, rfl, ?_⟩⟩
        · exact close_snd_eq _ _ _ _
        · exact settled_of_turn hclose hs
  · have hclose : Turn limit stop ⟨tokens, held, .operand op start left :: frames, opened⟩ _ :=
      .closeOperand held op start left frames opened hend
    obtain rfl := hclose.step_eq.symm.trans h.step_eq
    refine ⟨_, .closeOperand held op start left frames opened hend',
      not_ofUnmatched_close_operand _ _ _ _ _, .resume ⟨.here hmends, ?_, rfl, rfl, ?_⟩⟩
    · exact close_snd_eq _ _ _ _
    · exact settled_of_turn hclose hs

theorem lockstep_of_mends (limit stop stop' : Nat) :
    Lockstep mending limit stop stop' (Beside Mends limit) := by
  refine ⟨fun {s s' move} hbeside hturn => ?_⟩
  obtain ⟨tokens, held, frames, openGroups⟩ := s
  obtain ⟨tokens', held', frames', openGroups'⟩ := s'
  obtain ⟨hagree, rfl, rfl, rfl, hsettled⟩ := hbeside
  cases hagree with
  | token hopen hrest =>
    obtain ⟨next', hturn', hnexts⟩ :=
      Beside.answer_token mending (fun _ => rfl) hsettled hopen hrest hturn
    have hrepairs := not_ofUnmatched_of_turn hsettled hopen hturn
    exact ⟨_, hturn', hrepairs, hnexts⟩
  | here hmends => exact answer_of_mends hsettled hmends hturn

/-! ## Texts and their mended forms -/

theorem exists_tokens_closers (c : Cursor) (n : Nat) :
    ∃ closers, Cursor.tokens ⟨c.rest ++ List.replicate n ')', c.offset⟩ = c.tokens ++ closers ∧
      closers.length = n ∧ ∀ t ∈ closers, t.lexeme = .rightParen := by
  induction n generalizing c with
  | zero => exact ⟨[], by simp, rfl, nofun⟩
  | succ n ih =>
    obtain ⟨closers, htokens, hlength, hclosers⟩ := ih ⟨[], c.stop + 1⟩
    have hnil : Cursor.tokens ⟨[], c.stop + 1⟩ = [] :=
      Cursor.tokens_of_blank (List.forall_mem_nil _) _
    rw [hnil, List.nil_append, List.nil_append] at htokens
    refine ⟨⟨.rightParen, c.stop⟩ :: closers, ?_, congrArg (· + 1) hlength,
      List.forall_mem_cons.mpr ⟨rfl, hclosers⟩⟩
    rw [List.replicate_succ, c.tokens_append_rightParen, htokens]

theorem agreeUpTo_mends (text : String) :
    AgreeUpTo Mends 0 (Cursor.ofText text).tokens (Cursor.ofText (mendParentheses text)).tokens := by
  rw [mendParentheses]
  rcases hunmatched : (surveyText text).unmatched? with _ | token
  · obtain ⟨closers, htokens, hlength, hclosers⟩ :=
      exists_tokens_closers (Cursor.ofText text) (surveyText text).opened
    have hmended : Cursor.ofText (text ++ String.ofList (List.replicate (surveyText text).opened ')')) =
        ⟨(Cursor.ofText text).rest ++ List.replicate (surveyText text).opened ')',
          (Cursor.ofText text).offset⟩ := by
      simp [Cursor.ofText]
    have hagree : AgreeUpTo Mends 0 ((Cursor.ofText text).tokens ++ [])
        ((Cursor.ofText text).tokens ++ closers) := by
      refine agreeUpTo_append hunmatched (.here ?_)
      change Mends (surveyText text).opened [] closers
      rw [← hlength]
      exact .unclosed hclosers
    rw [List.append_nil] at hagree
    dsimp only
    rw [hmended, htokens]
    exact hagree
  · obtain ⟨hzero, hparen, front, rest, hsplit, hfront⟩ := exists_of_unmatched? hunmatched
    have hagree : AgreeUpTo Mends 0 (front ++ token :: rest) (front ++ []) := by
      refine agreeUpTo_append (congrArg Survey.unmatched? hfront) (.here ?_)
      rw [hfront]
      exact .unmatched rest hparen
    have hnone : (surveyText text).opened = 0 := hzero
    have hmended : upToByte text token.start ++ String.ofList (List.replicate 0 ')') =
        upToByte text token.start := by
      simp
    rw [List.append_nil] at hagree
    dsimp only
    rw [hnone, hmended, (tokens_upToByte hsplit).1, hsplit]
    exact hagree

theorem survey_closers {closers : List Token} (h : ∀ t ∈ closers, t.lexeme = .rightParen) :
    (survey closers.length closers).unmatched? = none ∧
      (survey closers.length closers).opened = 0 := by
  induction closers with
  | nil => exact ⟨rfl, rfl⟩
  | cons token closers ih =>
    obtain ⟨hparen, hclosers⟩ := List.forall_mem_cons.mp h
    have hopen : token.lexeme.openBehind? (token :: closers).length = some closers.length :=
      openBehind?_of_rightParen hparen
    rw [survey_cons hopen]
    exact ih hclosers

theorem survey_of_agreeUpTo_mends {tokens tokens' : List Token}
    (h : AgreeUpTo Mends opened tokens tokens') :
    (survey opened tokens').unmatched? = none ∧ (survey opened tokens').opened = 0 := by
  induction h with
  | here hmends =>
    cases hmends with
    | unmatched => exact ⟨rfl, rfl⟩
    | unclosed hclosers => exact survey_closers hclosers
  | token hopen _ ih =>
    rw [survey_cons hopen]
    exact ih

end RightNested

/-- In a mended text every parenthesis has its partner. -/
theorem surveyText_mendParentheses (text : String) :
    (surveyText (mendParentheses text)).unmatched? = none ∧
      (surveyText (mendParentheses text)).opened = 0 :=
  RightNested.survey_of_agreeUpTo_mends (RightNested.agreeUpTo_mends text)

/-- Lenient reading treats a text as it treats the text with its parentheses mended, and on that
one it has nothing to say about parentheses without a partner. -/
theorem lenient_reads_as_mended (limit : Nat) (text : String) :
    SameEnding (Reader.read ⟨.lenient, limit⟩ text).result
        (Reader.read ⟨.lenient, limit⟩ (mendParentheses text)).result ∧
      ∀ offset recovery, (Repair.recovered (.unmatchedParenthesis offset) recovery).message ∉
        (Reader.read ⟨.lenient, limit⟩ (mendParentheses text)).debugMessages := by
  obtain ⟨hrepairs, hresult⟩ :=
    (RightNested.lockstep_of_mends limit (Cursor.ofText text).stop
      (Cursor.ofText (mendParentheses text)).stop).run
      (RightNested.beside_start (RightNested.agreeUpTo_mends text))
      fun t ht => (spells_tokens text).lexeme_ne_endOfInput ht
  constructor
  · exact sameEnding_of_result_eq (endsAlike_eq_iff.mp hresult)
  · intro offset recovery hmem
    rw [Reading.debugMessages_eq] at hmem
    obtain ⟨r, hr, hmessage⟩ := List.mem_map.mp hmem
    exact hrepairs r hr (Repair.ofUnmatched_of_message hmessage)

example : mendParentheses "(A OR (B" = "(A OR (B))" := by decide +kernel

example : mendParentheses "A ) OR (B" = "A " := by decide +kernel

end LicenseExpr
