import LicenseExpr.Proofs.RightNested.Salvage

/-!
# Names that lenient reading keeps

Reading passes names up to the first `)` without a partner. The tree has them in their order, perhaps
not all of them, but always the last one: what takes the place of an operand has a later name. Only
where a second operand starts in a scope is an operand discarded, so without such a repair the tree
has all of them. Each move keeps both (`namesInSight_of_turn`).
-/

namespace LicenseExpr

/-! ## Lists that keep their last element -/

/-- Elements are left out, but not the last one. -/
structure KeepsLast {α : Type} (l l' : List α) : Prop where
  sublist : l.Sublist l'
  getLast?_eq : l.getLast? = l'.getLast?

namespace KeepsLast

variable {α β : Type} {l l' l'' : List α}

theorem refl (l : List α) : KeepsLast l l := ⟨.refl l, rfl⟩

theorem trans (h : KeepsLast l l') (h' : KeepsLast l' l'') : KeepsLast l l'' :=
  ⟨h.sublist.trans h'.sublist, h.getLast?_eq.trans h'.getLast?_eq⟩

theorem append_left (h : KeepsLast l l') (front : List α) : KeepsLast (front ++ l) (front ++ l') := by
  refine ⟨h.sublist.append_left front, ?_⟩
  rw [List.getLast?_append, List.getLast?_append, h.getLast?_eq]

theorem append_right (h : KeepsLast l l') (back : List α) : KeepsLast (l ++ back) (l' ++ back) := by
  refine ⟨h.sublist.append_right back, ?_⟩
  rw [List.getLast?_append, List.getLast?_append, h.getLast?_eq]

theorem of_ne_nil (front : List α) (hne : l ≠ []) : KeepsLast l (front ++ l) := by
  refine ⟨List.sublist_append_right front l, ?_⟩
  rw [List.getLast?_append, List.getLast?_eq_some_getLast hne, Option.some_or]

theorem map (h : KeepsLast l l') (f : α → β) : KeepsLast (l.map f) (l'.map f) := by
  refine ⟨h.sublist.map f, ?_⟩
  rw [List.getLast?_map, List.getLast?_map, h.getLast?_eq]

theorem exists_of_map {f : β → α} {ys : List β} (h : KeepsLast l (ys.map f)) (hne : l ≠ []) :
    ∃ front last kept, ys = front ++ [last] ∧ kept.Sublist front ∧ l = (kept ++ [last]).map f := by
  obtain ⟨x, hx⟩ : ∃ x, l.getLast? = some x := ⟨_, List.getLast?_eq_some_getLast hne⟩
  have hlast := h.getLast?_eq
  rw [hx, List.getLast?_map] at hlast
  obtain ⟨last, hys, rfl⟩ := Option.map_eq_some_iff.mp hlast.symm
  obtain ⟨front, rfl⟩ := List.getLast?_eq_some_iff.mp hys
  obtain ⟨xs, rfl⟩ := List.getLast?_eq_some_iff.mp hx
  have hsublist := h.sublist
  rw [List.map_append, List.map_singleton, List.append_sublist_append_right,
    List.sublist_map_iff] at hsublist
  obtain ⟨kept, hkept, rfl⟩ := hsublist
  exact ⟨front, last, kept, rfl, hkept, by rw [List.map_append, List.map_singleton]⟩

end KeepsLast

/-! ## The names that a survey passes -/

instance : DecidablePred Lexeme.IsName
  | .word text => inferInstanceAs (Decidable (Operator.ofWord? text = none))
  | .leftParen | .rightParen | .endOfInput => isFalse id

/-- The unreserved words that a survey passes. -/
def Survey.names (s : Survey) : List Token := (s.passed.map (·.1)).filter (·.lexeme.IsName)

theorem names_survey_cons {token : Token} {opened behind : Nat}
    (h : token.lexeme.openBehind? opened = some behind) (rest : List Token) :
    (survey opened (token :: rest)).names =
      (if token.lexeme.IsName then [token] else []) ++ (survey behind rest).names := by
  rw [survey_cons h, Survey.names, List.map_cons, List.filter_cons]
  by_cases hname : token.lexeme.IsName <;> simp [hname, Survey.names]

theorem passed_begins_tokens (opened : Nat) (tokens : List Token) :
    (survey opened tokens).passed.map (·.1) <+: tokens := by
  induction tokens generalizing opened with
  | nil => exact List.prefix_refl []
  | cons token rest ih =>
    rcases hopen : token.lexeme.openBehind? opened with _ | behind
    · rw [survey_unmatched hopen]
      exact List.nil_prefix
    · rw [survey_cons hopen]
      exact List.cons_prefix_cons.mpr ⟨rfl, ih behind⟩

theorem pairwise_start_names (text : String) :
    (surveyText text).names.Pairwise (·.start < ·.start) := by
  have hpassed : (surveyText text).names.Sublist (Cursor.ofText text).tokens :=
    List.filter_sublist.trans (passed_begins_tokens 0 _).sublist
  exact (Cursor.pairwise_start_tokens _).sublist hpassed

namespace RightNested

/-! ## Names in scopes and in sight -/

/-- The names that the open scopes hold, and those that a survey of the rest passes. -/
def State.namesInSight (s : State) : List Lexeme :=
  (s.frames.reverse.flatMap Frame.names ++ heldNames s.held).map .word ++
    (survey s.openGroups s.tokens).names.map (·.lexeme)

theorem namesInSight_push {tokens tokens' : List Token} {held : Option Expression} {frame : Frame}
    {frames : List Frame} {openGroups openGroups' : Nat} (hframe : frame.names = heldNames held)
    (hsurvey : (survey openGroups' tokens').names = (survey openGroups tokens).names) :
    State.namesInSight ⟨tokens', none, frame :: frames, openGroups'⟩ =
      State.namesInSight ⟨tokens, held, frames, openGroups⟩ := by
  rw [State.namesInSight, State.namesInSight, hsurvey, List.reverse_cons, List.flatMap_append,
    List.flatMap_singleton, hframe, heldNames, List.append_nil]

theorem names_survey_of_pass {token : Token} {opened behind : Nat}
    (h : token.lexeme.openBehind? opened = some behind) (hname : ¬ token.lexeme.IsName)
    (rest : List Token) : (survey opened (token :: rest)).names = (survey behind rest).names := by
  rw [names_survey_cons h, if_neg hname, List.nil_append]

theorem names_survey_tail {tokens : List Token} (h : AtTerminator tokens) (opened : Nat) :
    (survey opened tokens.tail).names = (survey (opened + 1) tokens).names := by
  rcases tokens with _ | ⟨token, rest⟩
  · rfl
  · have hparen : token.lexeme = .rightParen := h
    have hopen : token.lexeme.openBehind? (opened + 1) = some opened :=
      openBehind?_of_rightParen hparen
    exact (names_survey_of_pass hopen (by rw [hparen]; exact id) rest).symm

/-! ## What a closed scope leaves -/

/-- A group that was opened where nothing was held. -/
def Frame.Unheld : Frame → Prop
  | group _ outer => outer = none
  | operand .. => True

theorem keepsLast_close (token : Token) (inner : Option Expression) (frame : Frame) :
    KeepsLast (heldNames (frame.close token inner).2) (frame.names ++ heldNames inner) := by
  rcases frame with ⟨start, outer⟩ | ⟨op, start, left⟩
  · rcases inner with _ | inner
    · rw [heldNames, List.append_nil]
      exact .refl _
    · exact .of_ne_nil _ inner.names_ne_nil
  · rcases left with _ | left <;> rcases inner with _ | inner
    · exact .refl _
    · exact .refl _
    · rw [heldNames, List.append_nil]
      exact .refl _
    · exact .refl _

theorem names_close (token : Token) (inner : Option Expression) {frame : Frame} (h : frame.Unheld) :
    heldNames (frame.close token inner).2 = frame.names ++ heldNames inner := by
  rcases frame with ⟨start, outer⟩ | ⟨op, start, left⟩
  · cases h
    rcases inner with _ | inner <;> rfl
  · rcases left with _ | left <;> rcases inner with _ | inner
    · rfl
    · rfl
    · exact (List.append_nil _).symm
    · rfl

theorem namesInSight_close {tokens tokens' : List Token} {openGroups openGroups' : Nat}
    (hsurvey : (survey openGroups' tokens').names = (survey openGroups tokens).names) (token : Token)
    (inner : Option Expression) (frame : Frame) (frames : List Frame) :
    KeepsLast (State.namesInSight ⟨tokens', (frame.close token inner).2, frames, openGroups'⟩)
        (State.namesInSight ⟨tokens, inner, frame :: frames, openGroups⟩) ∧
      (frame.Unheld →
        State.namesInSight ⟨tokens', (frame.close token inner).2, frames, openGroups'⟩ =
          State.namesInSight ⟨tokens, inner, frame :: frames, openGroups⟩) := by
  rw [State.namesInSight, State.namesInSight, hsurvey, List.reverse_cons, List.flatMap_append,
    List.flatMap_singleton, List.append_assoc]
  constructor
  · exact (((keepsLast_close token inner frame).append_left _).map _).append_right _
  · intro hframe
    rw [names_close token inner hframe]

/-! ## What a name leaves -/

theorem namesInSight_name {token : Token} {text : String} (hword : token.lexeme = .word text)
    (htext : Operator.ofWord? text = none) (rest : List Token) (held : Option Expression)
    (frames : List Frame) (openGroups : Nat) :
    KeepsLast (State.namesInSight ⟨rest, some (.identifier text), frames, openGroups⟩)
        (State.namesInSight ⟨token :: rest, held, frames, openGroups⟩) ∧
      (held = none →
        State.namesInSight ⟨rest, some (.identifier text), frames, openGroups⟩ =
          State.namesInSight ⟨token :: rest, held, frames, openGroups⟩) := by
  have hopen : token.lexeme.openBehind? openGroups = some openGroups :=
    openBehind?_of_name hword htext
  have hname : token.lexeme.IsName := hword ▸ htext
  have hbefore : State.namesInSight ⟨token :: rest, held, frames, openGroups⟩ =
      (frames.reverse.flatMap Frame.names).map .word ++
        ((heldNames held ++ [text]).map .word ++
          (survey openGroups rest).names.map (·.lexeme)) := by
    rw [State.namesInSight, names_survey_cons hopen, if_pos hname]
    simp [hword]
  have hbehind : State.namesInSight ⟨rest, some (.identifier text), frames, openGroups⟩ =
      (frames.reverse.flatMap Frame.names).map .word ++
        ([text].map .word ++ (survey openGroups rest).names.map (·.lexeme)) := by
    rw [State.namesInSight, List.map_append, List.append_assoc]
    rfl
  rw [hbefore, hbehind]
  constructor
  · have hlast : KeepsLast [text] (heldNames held ++ [text]) := .of_ne_nil _ (List.cons_ne_nil _ _)
    exact ((hlast.map _).append_right _).append_left _
  · rintro rfl
    rfl

end RightNested

/-! ## Discarded operands -/

/-- The repair gives up an operand for a later one. -/
def Repair.Discards (r : Repair) : Prop := ∃ error, r = recovered error .discardEarlier

/-- The record ends by saying that an operand was given up. -/
def SaysDiscarded (message : String) : Prop :=
  Recovery.discardEarlier.description.toList <:+ message.toList

instance : DecidablePred SaysDiscarded := fun message =>
  inferInstanceAs (Decidable (Recovery.discardEarlier.description.toList <:+ message.toList))

theorem eq_discardEarlier_of_suffix {recovery : Recovery}
    (h : recovery.description.toList <:+ Recovery.discardEarlier.description.toList ∨
      Recovery.discardEarlier.description.toList <:+ recovery.description.toList) :
    recovery = .discardEarlier := by
  revert h
  cases recovery <;> decide

/-- A record that reads as if an operand was given up is about one that was. -/
theorem Repair.saysDiscarded_iff {r : Repair} : SaysDiscarded r.message ↔ r.Discards := by
  constructor
  · intro h
    cases r with
    | recovered error recovery =>
      have hend : recovery.description.toList <:+ (recovered error recovery).message.toList := by
        rw [message, String.toList_append]
        exact List.suffix_append _ _
      obtain rfl := eq_discardEarlier_of_suffix (List.suffix_or_suffix_of_suffix hend h)
      exact ⟨error, rfl⟩
    | collapsed op start =>
      have hend : " onto its right operand".toList <:+ (collapsed op start).message.toList := by
        rw [message, String.toList_append]
        exact List.suffix_append _ _
      have hne : ¬ (" onto its right operand".toList <:+ Recovery.discardEarlier.description.toList ∨
          Recovery.discardEarlier.description.toList <:+ " onto its right operand".toList) := by decide
      exact absurd (List.suffix_or_suffix_of_suffix hend h) hne
  · rintro ⟨error, rfl⟩
    rw [SaysDiscarded, message, String.toList_append]
    exact List.suffix_append _ _

namespace RightNested

variable {limit stop : Nat} {s s' : State} {repairs made : List Repair}

theorem eq_none_of_overwrite {held : Option Expression} {token : Token}
    (h : ∀ r ∈ overwrite held token, ¬ r.Discards) : held = none := by
  cases held with
  | none => rfl
  | some e => exact absurd ⟨_, rfl⟩ (h _ List.mem_cons_self)

/-- A move keeps the last name in sight, and all names unless it discards an operand. -/
theorem namesInSight_of_turn (h : Turn limit stop s ⟨repairs, .resume s'⟩) (hs : Settled limit s) :
    KeepsLast s'.namesInSight s.namesInSight ∧
      ((∀ r ∈ repairs, ¬ r.Discards) → (∀ f ∈ s.frames, f.Unheld) →
        s'.namesInSight = s.namesInSight ∧ ∀ f ∈ s'.frames, f.Unheld) := by
  cases h with
  | @operator token op rest held frames openGroups hop =>
    have hopen : token.lexeme.openBehind? openGroups = some openGroups :=
      openBehind?_of_operator hop
    have hsight := @namesInSight_push (token :: rest) rest held (.operand op token.start held) frames
      openGroups openGroups rfl (names_survey_of_pass hopen (Lexeme.not_isName_of_operator? hop) rest).symm
    exact ⟨hsight ▸ .refl _, fun _ hframes => ⟨hsight, List.forall_mem_cons.mpr ⟨trivial, hframes⟩⟩⟩
  | @name token text rest held frames openGroups hword htext =>
    obtain ⟨hkeeps, hkept⟩ := namesInSight_name hword htext rest held frames openGroups
    exact ⟨hkeeps, fun hrepairs hframes => ⟨hkept (eq_none_of_overwrite hrepairs), hframes⟩⟩
  | @openGroup token rest held frames openGroups hparen hroom =>
    have hopen : token.lexeme.openBehind? openGroups = some (openGroups + 1) :=
      openBehind?_of_leftParen hparen
    have hname : ¬ token.lexeme.IsName := by
      rw [hparen]
      exact id
    have hsight := @namesInSight_push (token :: rest) rest held (.group token.start held) frames
      openGroups (openGroups + 1) rfl (names_survey_of_pass hopen hname rest).symm
    refine ⟨hsight ▸ .refl _, fun hrepairs hframes => ⟨hsight, List.forall_mem_cons.mpr ⟨?_, hframes⟩⟩⟩
    exact eq_none_of_overwrite hrepairs
  | @closeGroup tokens held start outer frames openGroups hend =>
    obtain ⟨opened, rfl⟩ : ∃ n, openGroups = n + 1 := hs.exists_openGroups_eq rfl
    obtain ⟨hkeeps, hkept⟩ := namesInSight_close (names_survey_tail hend opened)
      (terminator stop tokens) held (.group start outer) frames
    refine ⟨hkeeps, fun _ hframes => ?_⟩
    obtain ⟨hframe, hframes⟩ := List.forall_mem_cons.mp hframes
    exact ⟨hkept hframe, hframes⟩
  | @closeOperand tokens held op start left frames openGroups hend =>
    obtain ⟨hkeeps, hkept⟩ := @namesInSight_close tokens tokens openGroups openGroups rfl
      (terminator stop tokens) held (.operand op start left) frames
    refine ⟨hkeeps, fun _ hframes => ?_⟩
    obtain ⟨hframe, hframes⟩ := List.forall_mem_cons.mp hframes
    exact ⟨hkept hframe, hframes⟩

/-! ## Runs -/

theorem namesInSight_of_leads (h : Leads limit stop s made s') (hs : Settled limit s) :
    KeepsLast s'.namesInSight s.namesInSight ∧
      ((∀ r ∈ made, ¬ r.Discards) → (∀ f ∈ s.frames, f.Unheld) → s'.namesInSight = s.namesInSight) := by
  induction h with
  | refl s => exact ⟨.refl _, fun _ _ => rfl⟩
  | @step s s' s'' repairs made hturn hleads ih =>
    obtain ⟨hlast, hall⟩ := namesInSight_of_turn hturn hs
    obtain ⟨hlast', hall'⟩ := ih (settled_of_turn hturn hs)
    refine ⟨hlast'.trans hlast, fun hmade hframes => ?_⟩
    obtain ⟨hrepairs, hmade⟩ := List.forall_mem_append.mp hmade
    obtain ⟨hsame, hframes'⟩ := hall hrepairs hframes
    exact (hall' hmade hframes').trans hsame

/-- Where a run ends, the names in sight are those of the tree. -/
theorem namesInSight_of_finish {result : Option Expression}
    (h : Turn limit stop s ⟨repairs, .finish result⟩) (hs : Settled limit s) :
    s.namesInSight = (heldNames result).map .word := by
  obtain ⟨hframes, hheld⟩ := h.of_finish
  have hzero := hs.openGroups_eq_zero hframes
  have hsurvey : (survey s.openGroups s.tokens).names = [] := by
    cases h with
    | unmatched rest held openGroups hparen =>
      rw [survey_unmatched (openBehind?_eq_none_iff.mpr ⟨hparen, hzero⟩)]
      rfl
    | finish held openGroups => rfl
  rw [State.namesInSight, hframes, hheld, hsurvey]
  exact List.append_nil _

theorem names_of_read_lenient {text : String} {e : Expression}
    (h : (RightNested.read .lenient limit text).result = .ok (some e)) :
    KeepsLast (e.names.map Lexeme.word) ((surveyText text).names.map (·.lexeme)) ∧
      ((∀ r ∈ (RightNested.read .lenient limit text).repairs, ¬ r.Discards) →
        e.names.map Lexeme.word = (surveyText text).names.map (·.lexeme)) := by
  obtain ⟨s, made, repairs, hleads, hturn, hrepairs⟩ := exists_leads_of_read_lenient h
  have hstart := settled_start limit (Cursor.ofText text).tokens
  obtain ⟨hlast, hall⟩ := namesInSight_of_leads hleads hstart
  rw [namesInSight_of_finish hturn (hleads.keeps settled_of_turn hstart)] at hlast hall
  refine ⟨hlast, fun hmade => hall (fun r hr => hmade r ?_) nofun⟩
  rw [hrepairs]
  exact List.mem_append_left repairs hr

end RightNested

/-- The identifiers of a tree are unreserved words of the text in front of its first `)` without a
partner, in their order and the last one among them. They are all of them if no record says that an
operand was given up, whatever else was repaired. -/
theorem lenient_keeps_last_name (limit : Nat) (text : String) {e : Expression}
    (h : (Reader.read ⟨.lenient, limit⟩ text).result = .ok e) :
    (surveyText text).names.Pairwise (·.start < ·.start) ∧
      ∃ front last kept, (surveyText text).names = front ++ [last] ∧ kept.Sublist front ∧
        e.identifiers.map Lexeme.word = (kept ++ [last]).map (·.lexeme) ∧
        ((∀ message ∈ (Reader.read ⟨.lenient, limit⟩ text).debugMessages, ¬ SaysDiscarded message) →
          kept = front) := by
  refine ⟨pairwise_start_names text, ?_⟩
  rw [e.identifiers_eq_names]
  have hne : e.names.map Lexeme.word ≠ [] := mt List.map_eq_nil_iff.mp e.names_ne_nil
  obtain ⟨hlast, hall⟩ :=
    RightNested.names_of_read_lenient (RightNested.bind_requireExpression_eq_ok_iff.mp h)
  obtain ⟨front, last, kept, hnames, hkept, heq⟩ := hlast.exists_of_map hne
  by_cases hrecords : ∀ message ∈ (Reader.read ⟨.lenient, limit⟩ text).debugMessages,
      ¬ SaysDiscarded message
  · refine ⟨front, last, front, hnames, .refl front, ?_, fun _ => rfl⟩
    rw [← hnames]
    refine hall fun r hr hdiscards => hrecords r.message ?_ (Repair.saysDiscarded_iff.mpr hdiscards)
    rw [Reading.debugMessages_eq]
    exact List.mem_map_of_mem hr
  · exact ⟨front, last, kept, hnames, hkept, heq, fun hnone => absurd hnone hrecords⟩

/-- A text in which one operand is given up, and one with other repairs. -/
theorem repaired_texts_keep_names :
    (Reader.read ⟨.lenient, 9⟩ "A (B OR ()) AND C) D").result =
        .ok (.binary .and (.group (.identifier "B")) (.identifier "C")) ∧
      (surveyText "A (B OR ()) AND C) D").names.map (·.lexeme) = [.word "A", .word "B", .word "C"] ∧
      (∃ front last kept, (surveyText "A (B OR ()) AND C) D").names = front ++ [last] ∧
        kept.Sublist front ∧
        ["B", "C"].map Lexeme.word = (kept ++ [last]).map (·.lexeme)) ∧
      (Reader.read ⟨.lenient, 9⟩ "OR (A AND ()) WITH (B").result =
        .ok (.binary .exception (.group (.identifier "A")) (.group (.identifier "B"))) ∧
      ["A", "B"].map Lexeme.word =
        (surveyText "OR (A AND ()) WITH (B").names.map (·.lexeme) := by
  have hresult : (Reader.read ⟨.lenient, 9⟩ "A (B OR ()) AND C) D").result =
      .ok (.binary .and (.group (.identifier "B")) (.identifier "C")) := by decide +kernel
  have hresult' : (Reader.read ⟨.lenient, 9⟩ "OR (A AND ()) WITH (B").result =
      .ok (.binary .exception (.group (.identifier "A")) (.group (.identifier "B"))) := by
    decide +kernel
  have hrecords : ∀ message ∈ (Reader.read ⟨.lenient, 9⟩ "OR (A AND ()) WITH (B").debugMessages,
      ¬ SaysDiscarded message := by decide +kernel
  obtain ⟨-, front, last, kept, hnames, hkept, heq, -⟩ := lenient_keeps_last_name 9 _ hresult
  obtain ⟨-, front', last', kept', hnames', -, heq', hall⟩ := lenient_keeps_last_name 9 _ hresult'
  refine ⟨hresult, by decide +kernel, ⟨front, last, kept, hnames, hkept, ?_⟩, hresult', ?_⟩
  · rw [← heq]
    decide +kernel
  · rw [hnames', ← hall hrecords, ← heq']
    decide +kernel

end LicenseExpr
