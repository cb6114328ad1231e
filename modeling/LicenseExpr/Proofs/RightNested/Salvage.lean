import LicenseExpr.Proofs.RightNested.CommonFront

/-!
# What lenient reading comes to

Scopes drop names and groups, put them away and take them up again, but once a name has been read
some scope holds an operand up to the end (`holds_close_iff`). A survey of the parentheses therefore
tells what lenient reading comes to: it fails at a `(` inside too many groups, it finds no
expression if the survey passes no name, and otherwise it gives one.
-/

namespace LicenseExpr

theorem Lexeme.not_isName_of_operator? {l : Lexeme} {op : Operator} (h : l.operator? = some op) :
    ¬ l.IsName := by
  obtain ⟨text, rfl, htext⟩ := operator?_eq_some_iff.mp h
  intro hname
  rw [show Operator.ofWord? text = none from hname] at htext
  cases htext

namespace RightNested

variable {limit stop : Nat} {s s' : State} {repairs made : List Repair}

/-! ## Operands are not lost -/

/-- The operand that a scope keeps for when the scope inside it closes. -/
def Frame.kept : Frame → Option Expression
  | group _ outer => outer
  | operand _ _ left => left

def State.Holds (s : State) : Prop := s.held.isSome ∨ ∃ f ∈ s.frames, f.kept.isSome

theorem holds_cons_iff {tokens tokens' : List Token} {held : Option Expression} {frame : Frame}
    {frames : List Frame} {openGroups openGroups' : Nat} (h : frame.kept = held) :
    State.Holds ⟨tokens', none, frame :: frames, openGroups'⟩ ↔
      State.Holds ⟨tokens, held, frames, openGroups⟩ := by
  simp [State.Holds, h]

theorem isSome_close (token : Token) (inner : Option Expression) (frame : Frame) :
    (frame.close token inner).2.isSome ↔ inner.isSome ∨ frame.kept.isSome := by
  rcases frame with ⟨start, outer⟩ | ⟨op, start, _ | left⟩ <;> rcases inner with _ | inner <;>
    simp [Frame.close, Frame.kept]

theorem holds_close_iff {tokens tokens' : List Token} {held : Option Expression} {frame : Frame}
    {frames : List Frame} {openGroups openGroups' : Nat} (token : Token) :
    State.Holds ⟨tokens', (frame.close token held).2, frames, openGroups'⟩ ↔
      State.Holds ⟨tokens, held, frame :: frames, openGroups⟩ := by
  simp [State.Holds, isSome_close, or_assoc]

/-! ## What a survey foresees -/

/-- The survey of what is left to read finds this `(` too deep, and an operand is held or still to
come if `named` holds. -/
structure Foresees (limit : Nat) (deep? : Option Token) (named : Prop) (s : State) : Prop where
  settled : Settled limit s
  deep : (survey s.openGroups s.tokens).tooDeep? limit = deep?
  named : s.Holds ∨ (survey s.openGroups s.tokens).HoldsName ↔ named

theorem foresees_start (limit : Nat) (tokens : List Token) :
    Foresees limit ((survey 0 tokens).tooDeep? limit) (survey 0 tokens).HoldsName
      (.start tokens) :=
  ⟨settled_start limit tokens, rfl, by simp [State.start, State.Holds]⟩

variable {deep? : Option Token} {named : Prop}

theorem survey_of_pass {token : Token} {opened behind : Nat} {rest : List Token}
    (hopen : token.lexeme.openBehind? opened = some behind)
    (hroom : ¬ (token.lexeme = .leftParen ∧ opened = limit)) (hname : ¬ token.lexeme.IsName) :
    (survey opened (token :: rest)).tooDeep? limit = (survey behind rest).tooDeep? limit ∧
      ((survey opened (token :: rest)).HoldsName ↔ (survey behind rest).HoldsName) := by
  rw [tooDeep?_cons hopen, if_neg hroom, holdsName_cons hopen, or_iff_right hname]
  exact ⟨rfl, Iff.rfl⟩

theorem foresees_of_turn (h : Turn limit stop s ⟨repairs, .resume s'⟩)
    (hs : Foresees limit deep? named s) : Foresees limit deep? named s' := by
  have hsettled := settled_of_turn h hs.settled
  obtain ⟨hold, hdeep, hnamed⟩ := hs
  cases h with
  | @operator token op rest held frames openGroups hop =>
    have hopen : token.lexeme.openBehind? openGroups = some openGroups :=
      openBehind?_of_operator hop
    have hroom : ¬ (token.lexeme = .leftParen ∧ openGroups = limit) := by
      rintro ⟨hparen, -⟩
      rw [hparen] at hop
      cases hop
    obtain ⟨hdeep', hnames⟩ := @survey_of_pass limit _ _ _ rest hopen hroom
      (Lexeme.not_isName_of_operator? hop)
    refine ⟨hsettled, hdeep'.symm.trans hdeep, ?_⟩
    exact (or_congr (holds_cons_iff rfl) hnames.symm).trans hnamed
  | @name token text rest held frames openGroups hword htext =>
    have hopen : token.lexeme.openBehind? openGroups = some openGroups :=
      openBehind?_of_name hword htext
    have hname : token.lexeme.IsName := hword ▸ htext
    have hroom : ¬ (token.lexeme = .leftParen ∧ openGroups = limit) := by
      rintro ⟨hparen, -⟩
      cases hword.symm.trans hparen
    refine ⟨hsettled, ?_, iff_of_true (.inl (.inl rfl)) (hnamed.mp (.inr ?_))⟩
    · rw [← hdeep, tooDeep?_cons hopen, if_neg hroom]
    · exact (holdsName_cons hopen rest).mpr (.inl hname)
  | @openGroup token rest held frames openGroups hparen hroom =>
    have hopen : token.lexeme.openBehind? openGroups = some (openGroups + 1) :=
      openBehind?_of_leftParen hparen
    obtain ⟨hdeep', hnames⟩ := @survey_of_pass limit _ _ _ rest hopen
      (fun hdeep => Nat.ne_of_lt hroom hdeep.2) (by rw [hparen]; exact id)
    refine ⟨hsettled, hdeep'.symm.trans hdeep, ?_⟩
    exact (or_congr (holds_cons_iff rfl) hnames.symm).trans hnamed
  | @closeGroup tokens held start outer frames openGroups hend =>
    obtain ⟨opened, rfl⟩ : ∃ n, openGroups = n + 1 := hold.exists_openGroups_eq rfl
    rcases tokens with _ | ⟨token, rest⟩
    · exact ⟨hsettled, hdeep, (or_congr_left (holds_close_iff _)).trans hnamed⟩
    · have hparen : token.lexeme = .rightParen := hend
      have hopen : token.lexeme.openBehind? (opened + 1) = some opened :=
        openBehind?_of_rightParen hparen
      obtain ⟨hdeep', hnames⟩ := @survey_of_pass limit _ _ _ rest hopen
        (fun hleft => nomatch hparen.symm.trans hleft.1) (by rw [hparen]; exact id)
      refine ⟨hsettled, hdeep'.symm.trans hdeep, ?_⟩
      exact (or_congr (holds_close_iff _) hnames.symm).trans hnamed
  | closeOperand held op start left frames openGroups hend =>
    exact ⟨hsettled, hdeep, (or_congr_left (holds_close_iff _)).trans hnamed⟩

/-! ## The end of a run -/

theorem survey_of_finish {result : Option Expression}
    (h : Turn limit stop s ⟨repairs, .finish result⟩) (hs : Foresees limit deep? named s) :
    deep? = none ∧ (result.isSome ↔ named) := by
  obtain ⟨hold, hdeep, hnamed⟩ := hs
  obtain ⟨hframes, hheld⟩ := h.of_finish
  have hzero := hold.openGroups_eq_zero hframes
  have hholds : s.Holds ↔ result.isSome := by simp [State.Holds, hframes, hheld]
  have hsurvey : (survey s.openGroups s.tokens).passed = [] := by
    cases h with
    | unmatched rest held openGroups hparen =>
      rw [survey_unmatched (openBehind?_eq_none_iff.mpr ⟨hparen, hzero⟩)]
    | finish held openGroups => rfl
  refine ⟨?_, ?_⟩
  · rw [← hdeep, Survey.tooDeep?, hsurvey]
    rfl
  · rw [← hnamed, hholds, Survey.HoldsName, hsurvey]
    simp

theorem deep_of_fail {error : SyntaxError} (h : Turn limit stop s ⟨repairs, .fail error⟩)
    (hs : Foresees limit deep? named s) :
    ∃ token, deep? = some token ∧ error = .nestingTooDeep token.start limit := by
  obtain ⟨hold, hdeep, -⟩ := hs
  cases h with
  | @tooDeep token rest held frames openGroups hparen hfull =>
    have hlimit : openGroups ≤ limit := hold.retains.le_limit
    have hopen : token.lexeme.openBehind? openGroups = some (openGroups + 1) :=
      openBehind?_of_leftParen hparen
    refine ⟨token, ?_, rfl⟩
    rw [← hdeep, tooDeep?_cons hopen, if_pos ⟨hparen, Nat.le_antisymm hlimit hfull⟩]

/-- The survey of a text tells what lenient reading of it comes to. -/
theorem result_read_lenient (limit : Nat) (text : String) :
    (∀ token, (surveyText text).tooDeep? limit = some token →
      (RightNested.read .lenient limit text).result = .error (.nestingTooDeep token.start limit)) ∧
    ((surveyText text).tooDeep? limit = none →
      ∃ held, (RightNested.read .lenient limit text).result = .ok held ∧
        (held.isSome ↔ (surveyText text).HoldsName)) := by
  obtain ⟨s, made, repairs, next, hleads, hlast, hresult, -⟩ :=
    @exists_leads_of_run limit (Cursor.ofText text).stop (.start (Cursor.ofText text).tokens)
      fun t ht => (spells_tokens text).lexeme_ne_endOfInput ht
  have hforesees : Foresees limit ((surveyText text).tooDeep? limit) (surveyText text).HoldsName s :=
    hleads.keeps foresees_of_turn (foresees_start limit _)
  change next.result? = some (RightNested.read .lenient limit text).result at hresult
  cases next with
  | resume s' => cases hresult
  | finish held =>
    obtain ⟨hdeep, hnamed⟩ := survey_of_finish hlast hforesees
    have hok := (Option.some.inj hresult).symm
    refine ⟨fun token htoken => ?_, fun _ => ⟨held, hok, hnamed⟩⟩
    rw [hdeep] at htoken
    cases htoken
  | fail error =>
    obtain ⟨token, hdeep, rfl⟩ := deep_of_fail hlast hforesees
    refine ⟨fun token' htoken' => ?_, fun hnone => ?_⟩
    · cases hdeep.symm.trans htoken'
      exact (Option.some.inj hresult).symm
    · rw [hdeep] at hnone
      cases hnone

end RightNested

/-! ## The three outcomes -/

/-- Two results that are one tree or one error; a missing expression may be missed at another
byte. -/
inductive SameEnding : Except SyntaxError Expression → Except SyntaxError Expression → Prop where
  | tree (e : Expression) : SameEnding (.ok e) (.ok e)
  | tooDeep (offset limit : Nat) :
      SameEnding (.error (.nestingTooDeep offset limit)) (.error (.nestingTooDeep offset limit))
  | empty (offset offset' : Nat) :
      SameEnding (.error (.emptyExpression offset)) (.error (.emptyExpression offset'))

theorem sameEnding_of_result_eq {limit : Nat} {text text' : String}
    (h : (RightNested.read .lenient limit text).result =
      (RightNested.read .lenient limit text').result) :
    SameEnding (Reader.read ⟨.lenient, limit⟩ text).result
      (Reader.read ⟨.lenient, limit⟩ text').result := by
  change SameEnding ((RightNested.read .lenient limit text).result >>= Reader.requireExpression text)
    ((RightNested.read .lenient limit text').result >>= Reader.requireExpression text')
  rw [← h]
  rcases hresult : (RightNested.read .lenient limit text).result with error | _ | e
  · obtain ⟨offset, rfl⟩ := RightNested.eq_nestingTooDeep_of_run_lenient hresult
    exact .tooDeep offset limit
  · exact .empty _ _
  · exact .tree e

/-- What stands behind the first `)` without a partner has no part in how a text is read. -/
theorem read_lenient_of_unmatched {limit : Nat} {text : String} {token : Token}
    (h : (surveyText text).unmatched? = some token) (behind : String) :
    RightNested.read .lenient limit (upToByte text token.start ++ ")" ++ behind) =
      RightNested.read .lenient limit text := by
  obtain ⟨-, hparen, front, rest, hsplit, hfront⟩ := exists_of_unmatched? h
  obtain ⟨hbefore, hbyte⟩ := tokens_upToByte hsplit
  have htokens := (Cursor.ofText (upToByte text token.start)).tokens_append_rightParen behind.toList
  rw [hbefore, stop_ofText, hbyte] at htokens
  have hcursor : Cursor.ofText (upToByte text token.start ++ ")" ++ behind) =
      ⟨(upToByte text token.start).toList ++ ')' :: behind.toList, 0⟩ := by
    simp [Cursor.ofText]
  have hagree {rest' : List Token} : RightNested.AgreeUpTo RightNested.AtUnmatched 0
      (front ++ token :: rest) (front ++ token :: rest') := by
    refine RightNested.agreeUpTo_append (congrArg Survey.unmatched? hfront) (.here ?_)
    rw [hfront]
    exact .intro rest rest' hparen
  have hends : ∀ t ∈ (Cursor.ofText text).tokens, t.lexeme ≠ .endOfInput :=
    fun t ht => (spells_tokens text).lexeme_ne_endOfInput ht
  rw [hsplit] at hends
  obtain ⟨lexeme, start⟩ := token
  cases hparen
  rw [RightNested.read, RightNested.read, hcursor, hsplit]
  exact (RightNested.run_eq_of_unmatched .lenient limit _ _ (htokens ▸ hagree) hends).symm

variable {limit : Nat} {text : String} {token : Token}

theorem lenient_of_tooDeep (h : (surveyText text).tooDeep? limit = some token) :
    (Reader.read ⟨.lenient, limit⟩ text).result = .error (.nestingTooDeep token.start limit) := by
  change (RightNested.read .lenient limit text).result >>= Reader.requireExpression text = _
  rw [(RightNested.result_read_lenient limit text).1 token h]
  rfl

theorem lenient_of_not_holdsName (h : (surveyText text).tooDeep? limit = none)
    (hname : ¬ (surveyText text).HoldsName) :
    (Reader.read ⟨.lenient, limit⟩ text).result =
      .error (.emptyExpression (Text.byteLength text.toList)) := by
  obtain ⟨held, hread, hheld⟩ := (RightNested.result_read_lenient limit text).2 h
  obtain rfl : held = none := Option.not_isSome_iff_eq_none.mp fun hsome => hname (hheld.mp hsome)
  change (RightNested.read .lenient limit text).result >>= Reader.requireExpression text = _
  rw [hread]
  rfl

theorem exists_lenient_of_holdsName (h : (surveyText text).tooDeep? limit = none)
    (hname : (surveyText text).HoldsName) :
    ∃ e, (Reader.read ⟨.lenient, limit⟩ text).result = .ok e := by
  obtain ⟨held, hread, hheld⟩ := (RightNested.result_read_lenient limit text).2 h
  obtain ⟨e, rfl⟩ := Option.isSome_iff_exists.mp (hheld.mpr hname)
  exact ⟨e, RightNested.bind_requireExpression_eq_ok_iff.mpr hread⟩

/-- Behind a name only a `(` inside too many groups can make reading fail. -/
theorem exists_tooDeep_behind_name {front rest : List Token} {error : SyntaxError}
    (hsplit : (Cursor.ofText text).tokens = front ++ rest)
    (hfront : (survey 0 front).tooDeep? limit = none) (hname : (survey 0 front).HoldsName)
    (h : (Reader.read ⟨.lenient, limit⟩ text).result = .error error) :
    ∃ token ∈ rest, (surveyText text).tooDeep? limit = some token ∧
      error = .nestingTooDeep token.start limit := by
  have hsurvey : surveyText text = survey 0 (front ++ rest) := by rw [surveyText, hsplit]
  rcases hfound : (surveyText text).tooDeep? limit with _ | token
  · obtain ⟨e, he⟩ := exists_lenient_of_holdsName hfound (hsurvey ▸ holdsName_append hname rest)
    cases h.symm.trans he
  · refine ⟨token, mem_of_tooDeep?_append hfront (hsurvey ▸ hfound), rfl, ?_⟩
    exact Except.error.inj (h.symm.trans (lenient_of_tooDeep hfound))

/-- Lenient reading comes to one of three ends, and a survey of the parentheses tells which. What
stands behind the first `)` without a partner plays no part, and behind a name only a `(` inside too
many groups can make reading fail. -/
theorem lenient_outcome_by_survey (limit : Nat) (text : String) :
    (∀ token, (surveyText text).tooDeep? limit = some token →
      (Reader.read ⟨.lenient, limit⟩ text).result = .error (.nestingTooDeep token.start limit)) ∧
    ((surveyText text).tooDeep? limit = none → ¬ (surveyText text).HoldsName →
      (Reader.read ⟨.lenient, limit⟩ text).result =
        .error (.emptyExpression (Text.byteLength text.toList))) ∧
    ((surveyText text).tooDeep? limit = none → (surveyText text).HoldsName →
      ∃ e, (Reader.read ⟨.lenient, limit⟩ text).result = .ok e) ∧
    (∀ token behind, (surveyText text).unmatched? = some token →
      SameEnding (Reader.read ⟨.lenient, limit⟩ text).result
          (Reader.read ⟨.lenient, limit⟩ (upToByte text token.start ++ ")" ++ behind)).result ∧
        (Reader.read ⟨.lenient, limit⟩ (upToByte text token.start ++ ")" ++ behind)).debugMessages =
          (Reader.read ⟨.lenient, limit⟩ text).debugMessages) ∧
    (∀ front rest error, (Cursor.ofText text).tokens = front ++ rest →
      (survey 0 front).tooDeep? limit = none → (survey 0 front).HoldsName →
      (Reader.read ⟨.lenient, limit⟩ text).result = .error error →
      ∃ token ∈ rest, (surveyText text).tooDeep? limit = some token ∧
        error = .nestingTooDeep token.start limit) := by
  refine ⟨fun token => lenient_of_tooDeep, lenient_of_not_holdsName, exists_lenient_of_holdsName, ?_,
    fun front rest error => exists_tooDeep_behind_name⟩
  intro token behind hunmatched
  have hsame := @read_lenient_of_unmatched limit text token hunmatched behind
  refine ⟨sameEnding_of_result_eq (congrArg RightNested.Outcome.result hsame.symm), ?_⟩
  rw [Reading.debugMessages_eq, Reading.debugMessages_eq]
  exact congrArg (fun outcome => outcome.repairs.map Repair.message) hsame

end LicenseExpr
