import LicenseExpr.Proofs.RightNested.Kept

/-!
# Operands given up for others

Where a second operand starts in a scope, a repair says that the first one is given up. That is so if
the second one is a name or a group with a name in it. A group without a name comes to nothing, and the
operand before it is taken up again. A tree therefore lacks a name exactly if such a repair was made at
a name or at a `(` with a name inside (`lost_name_iff_discard`), and the repair alone does not tell.
-/

namespace LicenseExpr

/-- An operand with a name in it starts with the token. A group ends at its `)` or with the text. -/
def BringsName (token : Token) (rest : List Token) : Prop :=
  token.lexeme.IsName ∨ token.lexeme = .leftParen ∧ (survey 0 rest).HoldsName

theorem Lexeme.not_opensOperand_of_operator? {l : Lexeme} {op : Operator} (h : l.operator? = some op) :
    ¬ l.OpensOperand := by
  obtain ⟨text, rfl, htext⟩ := operator?_eq_some_iff.mp h
  intro hname
  cases htext.symm.trans hname

def Repair.discardAt (token : Token) : Repair :=
  .recovered (.unexpectedToken token.start token.lexeme) .discardEarlier

/-- The repair gives up an operand for another one that has a name. -/
def Repair.Replaces (tokens : List Token) (r : Repair) : Prop :=
  ∃ front token rest, tokens = front ++ token :: rest ∧ r = discardAt token ∧ BringsName token rest

theorem Repair.Replaces.discards {tokens : List Token} {r : Repair} (h : r.Replaces tokens) :
    r.Discards := by
  obtain ⟨front, token, rest, -, rfl, -⟩ := h
  exact ⟨_, rfl⟩

theorem Repair.replaces_discardAt_iff {tokens front rest : List Token} {token : Token}
    (hstarts : tokens.Pairwise (·.start < ·.start)) (h : tokens = front ++ token :: rest) :
    (discardAt token).Replaces tokens ↔ BringsName token rest := by
  constructor
  · rintro ⟨front', token', rest', hsplit, heq, hname⟩
    have hstart : token.start = token'.start := by
      simp only [discardAt, recovered.injEq, SyntaxError.unexpectedToken.injEq, and_true] at heq
      exact heq.1
    subst h
    obtain ⟨rfl, rfl⟩ := eq_of_start_eq hstarts hsplit hstart
    cases List.append_cancel_left hsplit
    exact hname
  · exact fun hname => ⟨front, token, rest, h, rfl, hname⟩

namespace RightNested

variable {limit stop : Nat} {s s' : State} {tokens : List Token} {repairs made : List Repair}

/-! ## Where operands are given up -/

theorem discards_of_turn {next : Next} (h : Turn limit stop s ⟨repairs, next⟩) {r : Repair}
    (hr : r ∈ repairs) (hdiscards : r.Discards) :
    ∃ token rest, s.tokens = token :: rest ∧ r = .discardAt token ∧ token.lexeme.OpensOperand := by
  obtain ⟨error, rfl⟩ := hdiscards
  have hsecond {held : Option Expression} {token : Token}
      (hr : .recovered error .discardEarlier ∈ overwrite held token) :
      Repair.recovered error .discardEarlier = .discardAt token := by
    cases held with
    | none => cases hr
    | some e => exact List.mem_singleton.mp hr
  cases h with
  | operator rest held frames openGroups hop =>
    cases held <;> simp [missingLeft] at hr
  | name rest held frames openGroups hword htext =>
    exact ⟨_, rest, rfl, hsecond hr, hword ▸ htext⟩
  | openGroup rest held frames hparen hroom => exact ⟨_, rest, rfl, hsecond hr, hparen ▸ trivial⟩
  | tooDeep rest held frames hparen hfull => exact ⟨_, rest, rfl, hsecond hr, hparen ▸ trivial⟩
  | @closeGroup tokens held start outer frames openGroups hend =>
    cases held <;> simp [Frame.close] at hr
  | @closeOperand tokens held op start left frames openGroups hend =>
    cases held <;> cases left <;> simp [Frame.close] at hr
  | unmatched rest held openGroups hparen => simp at hr
  | finish held openGroups => cases hr

theorem not_replaces_of_turn {next : Next} (h : Turn limit stop s ⟨repairs, next⟩)
    (hopens : ∀ token rest, s.tokens = token :: rest → ¬ token.lexeme.OpensOperand) :
    ¬ ∃ r ∈ repairs, r.Replaces tokens := by
  rintro ⟨r, hr, hreplaces⟩
  obtain ⟨token, rest, htokens, -, hopen⟩ := discards_of_turn h hr hreplaces.discards
  exact hopens token rest htokens hopen

theorem not_replaces_of_atTerminator {next : Next} (h : Turn limit stop s ⟨repairs, next⟩)
    (hend : AtTerminator s.tokens) : ¬ ∃ r ∈ repairs, r.Replaces tokens := by
  refine not_replaces_of_turn h fun token rest htokens hopens => ?_
  rw [htokens] at hend
  have hparen : token.lexeme = .rightParen := hend
  rw [hparen] at hopens
  exact hopens

theorem exists_replaces_overwrite_iff {front rest : List Token} {token : Token}
    (hstarts : tokens.Pairwise (·.start < ·.start)) (h : tokens = front ++ token :: rest)
    (held : Option Expression) :
    (∃ r ∈ overwrite held token, r.Replaces tokens) ↔ held.isSome ∧ BringsName token rest := by
  cases held with
  | none => simp [overwrite]
  | some e =>
    change (∃ r ∈ [Repair.discardAt token], r.Replaces tokens) ↔ _
    simp [Repair.replaces_discardAt_iff hstarts h]

/-! ## What groups will give up -/

/-- Some group among the frames will give up the operand from before it. The operand inside the frames
is told by `comes`: one is held there, or a name is read before `k` more groups and the next one close. -/
def GivesUp (comes : Nat → Prop) : List Frame → Prop
  | [] => False
  | .operand _ _ left :: frames => GivesUp (fun k => comes k ∨ left.isSome) frames
  | .group _ outer :: frames =>
    (outer.isSome ∧ comes 0) ∨ GivesUp (fun k => comes (k + 1) ∨ outer.isSome) frames

/-- An operand that is put away will be given up for a group. -/
def State.GivesUp (s : State) : Prop :=
  RightNested.GivesUp (fun k => s.held.isSome ∨ (survey k s.tokens).HoldsName) s.frames

theorem givesUp_congr {comes comes' : Nat → Prop} (h : ∀ k, comes k ↔ comes' k) (frames : List Frame) :
    GivesUp comes frames ↔ GivesUp comes' frames := by
  rw [funext fun k => propext (h k)]

theorem holdsName_tail_iff (h : AtTerminator tokens) (k : Nat) :
    (survey k tokens.tail).HoldsName ↔ (survey (k + 1) tokens).HoldsName := by
  rcases tokens with _ | ⟨token, rest⟩
  · simp [survey, Survey.HoldsName]
  · have hparen : token.lexeme = .rightParen := h
    have hopen : token.lexeme.openBehind? (k + 1) = some k := openBehind?_of_rightParen hparen
    rw [holdsName_cons hopen, hparen]
    exact (or_iff_right id).symm

theorem not_holdsName_of_atTerminator (h : AtTerminator tokens) : ¬ (survey 0 tokens).HoldsName := by
  rcases tokens with _ | ⟨token, rest⟩
  · simp [survey, Survey.HoldsName]
  · rw [survey_unmatched (openBehind?_eq_none_iff.mpr ⟨h, rfl⟩)]
    simp [Survey.HoldsName]

/-! ## Names that get lost -/

theorem length_heldNames_pos_iff {held : Option Expression} :
    0 < (heldNames held).length ↔ held.isSome := by
  cases held with
  | none => simp [heldNames]
  | some e => simp [heldNames, List.length_pos_iff, e.names_ne_nil]

theorem length_namesInSight (tokens : List Token) (held : Option Expression) (frames : List Frame)
    (openGroups : Nat) :
    (State.namesInSight ⟨tokens, held, frames, openGroups⟩).length =
      (frames.flatMap Frame.names).length + (heldNames held).length +
        (survey openGroups tokens).names.length := by
  have hreverse := ((List.reverse_perm frames).flatMap_right Frame.names).length_eq
  rw [State.namesInSight, List.length_append, List.length_map, List.length_map, List.length_append,
    hreverse]

theorem loses_name_iff {token : Token} {text : String} (hword : token.lexeme = .word text)
    (htext : Operator.ofWord? text = none) (rest : List Token) (held : Option Expression)
    (frames : List Frame) (openGroups : Nat) :
    (State.namesInSight ⟨rest, some (.identifier text), frames, openGroups⟩).length <
        (State.namesInSight ⟨token :: rest, held, frames, openGroups⟩).length ↔
      held.isSome := by
  have hopen : token.lexeme.openBehind? openGroups = some openGroups :=
    openBehind?_of_name hword htext
  have hname : token.lexeme.IsName := hword ▸ htext
  have hnew : (heldNames (some (.identifier text))).length = 1 := rfl
  rw [← length_heldNames_pos_iff, length_namesInSight, length_namesInSight, hnew,
    names_survey_cons hopen, if_pos hname, List.length_append, List.length_singleton]
  omega

theorem loses_closeGroup_iff (hend : AtTerminator tokens) (start : Nat) (outer held : Option Expression)
    (frames : List Frame) (opened : Nat) :
    (State.namesInSight ⟨tokens.tail, ((Frame.group start outer).close (terminator stop tokens) held).2,
          frames, opened⟩).length <
        (State.namesInSight ⟨tokens, held, .group start outer :: frames, opened + 1⟩).length ↔
      outer.isSome ∧ held.isSome := by
  rw [length_namesInSight, length_namesInSight, names_survey_tail hend opened,
    List.flatMap_cons, List.length_append, ← length_heldNames_pos_iff]
  have hframe : (Frame.group start outer).names = heldNames outer := rfl
  rw [hframe]
  cases held with
  | none =>
    have hclose : ((Frame.group start outer).close (terminator stop tokens) none).2 = outer := rfl
    have hnone : (heldNames none).length = 0 := rfl
    rw [hclose, hnone]
    simp only [Option.isSome_none, Bool.false_eq_true, and_false, iff_false]
    omega
  | some inner =>
    have hclose : (heldNames ((Frame.group start outer).close (terminator stop tokens) (some inner)).2) =
        heldNames (some inner) := rfl
    rw [hclose]
    simp only [Option.isSome_some, and_true]
    omega

/-- A move loses a name or leaves an operand that will be given up exactly if one was to be given up
before it or the move gives one up for a name. -/
theorem givesUp_of_turn (h : Turn limit stop s ⟨repairs, .resume s'⟩) (hs : Settled limit s)
    (hstarts : tokens.Pairwise (·.start < ·.start)) (hsuffix : s.tokens <:+ tokens) :
    s'.namesInSight.length < s.namesInSight.length ∨ s'.GivesUp ↔
      s.GivesUp ∨ ∃ r ∈ repairs, r.Replaces tokens := by
  have hturn := h
  obtain ⟨front, hfront⟩ := hsuffix
  cases h with
  | @operator token op rest held frames openGroups hop =>
    have hopen {opened : Nat} : token.lexeme.openBehind? opened = some opened :=
      openBehind?_of_operator hop
    have hname : ¬ token.lexeme.IsName := Lexeme.not_isName_of_operator? hop
    have hnone : ¬ ∃ r ∈ missingLeft held op token.start, r.Replaces tokens := by
      refine not_replaces_of_turn hturn ?_
      rintro _ _ ⟨⟩
      exact Lexeme.not_opensOperand_of_operator? hop
    have hsight := @namesInSight_push (token :: rest) rest held (.operand op token.start held) frames
      openGroups openGroups rfl (names_survey_of_pass hopen hname rest).symm
    rw [hsight, or_iff_right (Nat.lt_irrefl _), or_iff_left hnone]
    refine givesUp_congr (fun k => ?_) frames
    rw [holdsName_cons hopen, or_iff_right hname, or_comm]
    simp
  | @name token text rest held frames openGroups hword htext =>
    have hopen {opened : Nat} : token.lexeme.openBehind? opened = some opened :=
      openBehind?_of_name hword htext
    have hname : token.lexeme.IsName := hword ▸ htext
    have hcomes : State.GivesUp ⟨rest, some (.identifier text), frames, openGroups⟩ ↔
        State.GivesUp ⟨token :: rest, held, frames, openGroups⟩ := by
      refine givesUp_congr (fun k => ?_) frames
      rw [holdsName_cons hopen]
      exact iff_of_true (.inl rfl) (.inr (.inl hname))
    rw [loses_name_iff hword htext, hcomes, exists_replaces_overwrite_iff hstarts hfront.symm,
      and_iff_left (.inl hname), or_comm]
  | @openGroup token rest held frames openGroups hparen hroom =>
    have hopen {opened : Nat} : token.lexeme.openBehind? opened = some (opened + 1) :=
      openBehind?_of_leftParen hparen
    have hname : ¬ token.lexeme.IsName := by
      rw [hparen]
      exact id
    have hsight := @namesInSight_push (token :: rest) rest held (.group token.start held) frames
      openGroups (openGroups + 1) rfl (names_survey_of_pass hopen hname rest).symm
    -- What is put away here is given up exactly if the group brings a name, as the repair says.
    have hbrings : BringsName token rest ↔ (survey 0 rest).HoldsName := by
      rw [BringsName, or_iff_right hname, and_iff_right hparen]
    rw [hsight, or_iff_right (Nat.lt_irrefl _), exists_replaces_overwrite_iff hstarts hfront.symm,
      hbrings, or_comm]
    refine or_congr (and_congr_right' ?_) (givesUp_congr (fun k => ?_) frames)
    · simp
    · rw [holdsName_cons hopen, or_iff_right hname, or_comm]
      simp
  | @closeGroup tokens' held start outer frames openGroups hend =>
    obtain ⟨opened, rfl⟩ : ∃ n, openGroups = n + 1 := hs.exists_openGroups_eq rfl
    -- The loss is made here, but the repair that tells of it was made where the group was opened.
    rw [or_iff_left (not_replaces_of_atTerminator hturn hend), Nat.add_sub_cancel,
      loses_closeGroup_iff hend]
    refine or_congr (and_congr_right' ?_) (givesUp_congr (fun k => ?_) frames)
    · exact (or_iff_left (not_holdsName_of_atTerminator hend)).symm
    · rw [isSome_close, holdsName_tail_iff hend]
      exact or_right_comm
  | @closeOperand tokens' held op start left frames openGroups hend =>
    have hsight := (@namesInSight_close tokens' tokens' openGroups openGroups rfl
      (terminator stop tokens') held (.operand op start left) frames).2 trivial
    rw [hsight, or_iff_right (Nat.lt_irrefl _), or_iff_left (not_replaces_of_atTerminator hturn hend)]
    refine givesUp_congr (fun k => ?_) frames
    rw [isSome_close]
    exact or_right_comm

/-! ## Runs -/

/-- What is lost on the way, and what is given up behind it, is what was to be given up before and what
the repairs on the way give up for names. -/
theorem givesUp_of_leads (h : Leads limit stop s made s') (hs : Settled limit s)
    (hstarts : tokens.Pairwise (·.start < ·.start)) (hsuffix : s.tokens <:+ tokens) :
    s'.namesInSight.length < s.namesInSight.length ∨ s'.GivesUp ↔
      s.GivesUp ∨ ∃ r ∈ made, r.Replaces tokens := by
  induction h with
  | refl s => simp
  | @step s s' s'' repairs made hturn hleads ih =>
    have hs' := settled_of_turn hturn hs
    have hfirst := givesUp_of_turn hturn hs hstarts hsuffix
    have hrest := ih hs' (hturn.tokens_suffix.trans hsuffix)
    have hle := (namesInSight_of_turn hturn hs).1.sublist.length_le
    have hle' := (namesInSight_of_leads hleads hs').1.sublist.length_le
    have hlost : s''.namesInSight.length < s.namesInSight.length ↔
        s'.namesInSight.length < s.namesInSight.length ∨
          s''.namesInSight.length < s'.namesInSight.length := by
      omega
    simp only [List.mem_append, or_and_right, exists_or]
    rw [hlost, or_assoc, hrest, ← or_assoc, hfirst, or_assoc]

theorem discards_of_leads (h : Leads limit stop s made s') (hsuffix : s.tokens <:+ tokens) {r : Repair}
    (hr : r ∈ made) (hdiscards : r.Discards) :
    ∃ token ∈ tokens, r = .discardAt token ∧ token.lexeme.OpensOperand := by
  induction h with
  | refl s => cases hr
  | @step s s' s'' repairs made hturn hleads ih =>
    rcases List.mem_append.mp hr with hr | hr
    · obtain ⟨token, rest, htokens, heq, hopens⟩ := discards_of_turn hturn hr hdiscards
      have hmem : token ∈ s.tokens := htokens ▸ List.mem_cons_self
      exact ⟨token, hsuffix.mem hmem, heq, hopens⟩
    · exact ih (hturn.tokens_suffix.trans hsuffix) hr

theorem not_discards_of_finish {result : Option Expression}
    (h : Turn limit stop s ⟨repairs, .finish result⟩) : ∀ r ∈ repairs, ¬ r.Discards := by
  cases h with
  | unmatched rest held openGroups hparen =>
    rintro r hr ⟨error, rfl⟩
    simp at hr
  | finish held openGroups => exact nofun

theorem lost_names_of_read_lenient {text : String} {e : Expression}
    (h : (RightNested.read .lenient limit text).result = .ok (some e)) :
    (∀ r ∈ (RightNested.read .lenient limit text).repairs, r.Discards →
      ∃ token ∈ (Cursor.ofText text).tokens, r = .discardAt token ∧ token.lexeme.OpensOperand) ∧
    (e.names.length < (surveyText text).names.length ↔
      ∃ r ∈ (RightNested.read .lenient limit text).repairs,
        r.Replaces (Cursor.ofText text).tokens) := by
  obtain ⟨s, made, repairs, hleads, hturn, hrepairs⟩ := exists_leads_of_read_lenient h
  have hlast := not_discards_of_finish hturn
  rw [hrepairs]
  refine ⟨fun r hr hdiscards => ?_, ?_⟩
  · rcases List.mem_append.mp hr with hr | hr
    · exact discards_of_leads hleads (List.suffix_refl _) hr hdiscards
    · exact absurd hdiscards (hlast r hr)
  · have hstart := settled_start limit (Cursor.ofText text).tokens
    have hend := namesInSight_of_finish hturn (hleads.keeps settled_of_turn hstart)
    have hnone : ¬ s.GivesUp := by
      rw [State.GivesUp, hturn.of_finish.1]
      exact id
    have hnone' : ¬ (State.start (Cursor.ofText text).tokens).GivesUp := id
    have hlost :=
      givesUp_of_leads hleads hstart (Cursor.pairwise_start_tokens _) (List.suffix_refl _)
    rw [or_iff_left hnone, or_iff_right hnone', hend, State.start, length_namesInSight] at hlost
    have hmade : (∃ r ∈ made ++ repairs, r.Replaces (Cursor.ofText text).tokens) ↔
        ∃ r ∈ made, r.Replaces (Cursor.ofText text).tokens := by
      constructor
      · rintro ⟨r, hr, hreplaces⟩
        have hfirst := (List.mem_append.mp hr).resolve_right fun hr => hlast r hr hreplaces.discards
        exact ⟨r, hfirst, hreplaces⟩
      · rintro ⟨r, hr, hreplaces⟩
        exact ⟨r, List.mem_append_left _ hr, hreplaces⟩
    rw [hmade, ← hlost]
    simp [heldNames, surveyText]

end RightNested

/-- A discard was put on record at a token. -/
def Reading.DiscardsAt (r : Reading) (token : Token) : Prop := .discardAt token ∈ r.repairs

/-- A record that says an operand was given up stands at a name or at a `(`. The tree lacks a name of
the text in front of the first `)` without a partner exactly if there is such a record at a name, or at
a `(` whose group holds a name. -/
theorem lost_name_iff_discard (limit : Nat) (text : String) {e : Expression}
    (h : (Reader.read ⟨.lenient, limit⟩ text).result = .ok e) :
    (∀ message ∈ (Reader.read ⟨.lenient, limit⟩ text).debugMessages, SaysDiscarded message →
      ∃ token ∈ (Cursor.ofText text).tokens, message = (Repair.discardAt token).message ∧
        (Reader.read ⟨.lenient, limit⟩ text).DiscardsAt token ∧ token.lexeme.OpensOperand) ∧
    (e.identifiers.length < (surveyText text).names.length ↔
      ∃ front token rest, (Cursor.ofText text).tokens = front ++ token :: rest ∧
        (Reader.read ⟨.lenient, limit⟩ text).DiscardsAt token ∧ BringsName token rest) := by
  obtain ⟨hstands, hlost⟩ :=
    RightNested.lost_names_of_read_lenient (RightNested.bind_requireExpression_eq_ok_iff.mp h)
  constructor
  · intro message hmessage hsays
    rw [Reading.debugMessages_eq] at hmessage
    obtain ⟨r, hr, rfl⟩ := List.mem_map.mp hmessage
    obtain ⟨token, htoken, rfl, hopens⟩ := hstands r hr (Repair.saysDiscarded_iff.mp hsays)
    exact ⟨token, htoken, rfl, hr, hopens⟩
  · rw [e.identifiers_eq_names, hlost]
    constructor
    · rintro ⟨r, hr, front, token, rest, hsplit, rfl, hname⟩
      exact ⟨front, token, rest, hsplit, hr, hname⟩
    · rintro ⟨front, token, rest, hsplit, hr, hname⟩
      exact ⟨_, hr, front, token, rest, hsplit, rfl, hname⟩

/-- Of two discards on record, at byte 2 and at byte 6, the first one gives up a name. -/
theorem discards_of_filled_and_empty_group :
    (Reader.read ⟨.lenient, 9⟩ "A (B) ()").result = .ok (.group (.identifier "B")) ∧
      (Reader.read ⟨.lenient, 9⟩ "A (B) ()").repairs =
        [.discardAt ⟨.leftParen, 2⟩, .discardAt ⟨.leftParen, 6⟩, .recovered (.emptyGroup 6) .dropGroup] ∧
      ["B"].length < (surveyText "A (B) ()").names.length := by
  have h : (Reader.read ⟨.lenient, 9⟩ "A (B) ()").result = .ok (.group (.identifier "B")) := by
    decide +kernel
  have hrepairs : (Reader.read ⟨.lenient, 9⟩ "A (B) ()").repairs =
      [.discardAt ⟨.leftParen, 2⟩, .discardAt ⟨.leftParen, 6⟩, .recovered (.emptyGroup 6) .dropGroup] := by
    decide +kernel
  have htokens : (Cursor.ofText "A (B) ()").tokens =
      [⟨.word "A", 0⟩, ⟨.leftParen, 2⟩, ⟨.word "B", 3⟩, ⟨.rightParen, 4⟩, ⟨.leftParen, 6⟩,
        ⟨.rightParen, 7⟩] := by
    decide +kernel
  have hname : (survey 0 [⟨.word "B", 3⟩, ⟨.rightParen, 4⟩, ⟨.leftParen, 6⟩, ⟨.rightParen, 7⟩]).HoldsName :=
    ⟨(⟨.word "B", 3⟩, 0), List.mem_cons_self, by decide⟩
  have hkept : (Expression.group (.identifier "B")).identifiers = ["B"] := by decide +kernel
  obtain ⟨-, hlost⟩ := lost_name_iff_discard 9 "A (B) ()" h
  rw [hkept] at hlost
  refine ⟨h, hrepairs, hlost.mpr ⟨[⟨.word "A", 0⟩], ⟨.leftParen, 2⟩, _, htokens, ?_, .inr ⟨rfl, hname⟩⟩⟩
  rw [Reading.DiscardsAt, hrepairs]
  exact List.mem_cons_self

/-- The operand in front of `()` is kept, although there is a record that gives it up. -/
theorem discard_on_record_of_kept_operand :
    ¬ ∀ (limit : Nat) (text : String) (e : Expression),
      (Reader.read ⟨.lenient, limit⟩ text).result = .ok e →
      (∃ message ∈ (Reader.read ⟨.lenient, limit⟩ text).debugMessages, SaysDiscarded message) →
      e.identifiers.length < (surveyText text).names.length := by
  intro h
  have hlost := h 256 "MIT ()" (.identifier "MIT") (by decide +kernel) (by decide +kernel)
  revert hlost
  decide +kernel

end LicenseExpr
