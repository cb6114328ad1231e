import LicenseExpr.Proofs.Classes
import LicenseExpr.Proofs.RightNested.Lockstep
import LicenseExpr.Reader

/-!
# Lenient reading of texts with the same classes

A move looks at the class of a token and puts its word, if it is a name, into the tree. So the runs
on two texts whose tokens are twins go in lock step (`lockstep_of_mirrors`) and hold trees that are
alike all along, whatever scopes drop and take up again.
-/

namespace LicenseExpr.RightNested

variable {R : Token → Token → Prop} {limit stop stop' : Nat} {s s' : State} {move : Move}

/-- Scopes of one kind that keep operands alike. -/
inductive Frame.Alike (R : Token → Token → Prop) : Frame → Frame → Prop where
  | group {outer outer' : Option Expression} (start start' : Nat) :
      Option.Rel (Expression.Alike R) outer outer' → Alike R (.group start outer) (.group start' outer')
  | operand {left left' : Option Expression} (op : Operator) (start start' : Nat) :
      Option.Rel (Expression.Alike R) left left' →
      Alike R (.operand op start left) (.operand op start' left')

/-- The second run stands where the first one stands, with trees alike. -/
structure Mirrors (R : Token → Token → Prop) (s s' : State) : Prop where
  tokens : List.Forall₂ (Twins R) s.tokens s'.tokens
  held : Option.Rel (Expression.Alike R) s.held s'.held
  frames : List.Forall₂ (Frame.Alike R) s.frames s'.frames
  openGroups : s.openGroups = s'.openGroups

/-- The runs come to results alike; what they repair is left open. -/
def mirroring (R : Token → Token → Prop) : Accord .lenient where
  Repairs _ _ := True
  Errors := SyntaxError.Alike R
  Held := Option.Rel (Expression.Alike R)
  nil := trivial
  append _ _ := trivial
  refusal _ := .none

theorem atTerminator_of_twins {tokens tokens' : List Token}
    (h : List.Forall₂ (Twins R) tokens tokens') (hend : AtTerminator tokens) :
    AtTerminator tokens' := by
  cases h with
  | nil => trivial
  | @cons token token' _ _ htwins _ =>
    have hparen : token.lexeme = .rightParen := hend
    exact htwins.lexeme_eq hparen nofun

theorem close_alike {frame frame' : Frame} {inner inner' : Option Expression} (token token' : Token)
    (h : frame.Alike R frame') (hinner : Option.Rel (Expression.Alike R) inner inner') :
    Option.Rel (Expression.Alike R) (frame.close token inner).2 (frame'.close token' inner').2 := by
  cases h with
  | group start start' houter =>
    cases hinner with
    | none => exact houter
    | some h => exact .some (.group h)
  | operand op start start' hleft =>
    cases hleft with
    | none =>
      cases hinner with
      | none => exact .none
      | some h => exact .some h
    | some hl =>
      cases hinner with
      | none => exact .some hl
      | some h => exact .some (.binary op hl h)

theorem lockstep_of_mirrors (R : Token → Token → Prop) (limit stop stop' : Nat) :
    Lockstep (mirroring R) limit stop stop' (Mirrors R) := by
  refine ⟨fun {s s' move} hmirrors hturn => ?_⟩
  obtain ⟨tokens', held', frames', openGroups'⟩ := s'
  obtain ⟨htokens, hheld, hframes, hcount⟩ := hmirrors
  cases hcount
  cases hturn with
  | @operator token op rest held frames openGroups hop =>
    obtain ⟨token', rest', htwins, hrest, rfl⟩ := List.forall₂_cons_left_iff.mp htokens
    have hop' : token'.lexeme.operator? = some op := htwins.same.operator?_eq.symm.trans hop
    exact ⟨_, .operator rest' held' frames' openGroups hop', trivial,
      .resume ⟨hrest, .none, .cons (.operand op _ _ hheld) hframes, rfl⟩⟩
  | @name token text rest held frames openGroups hword htext =>
    obtain ⟨token', rest', ⟨hrel, hsame⟩, hrest, rfl⟩ := List.forall₂_cons_left_iff.mp htokens
    rw [hword] at hsame
    obtain ⟨text', hword', htext'⟩ := hsame.exists_name htext
    exact ⟨_, .name rest' held' frames' openGroups hword' htext', trivial,
      .resume ⟨hrest, .some (.identifier hrel hword hword'), hframes, rfl⟩⟩
  | @openGroup token rest held frames openGroups hparen hroom =>
    obtain ⟨token', rest', htwins, hrest, rfl⟩ := List.forall₂_cons_left_iff.mp htokens
    have hparen' := htwins.lexeme_eq hparen nofun
    exact ⟨_, .openGroup rest' held' frames' hparen' hroom, trivial,
      .resume ⟨hrest, .none, .cons (.group _ _ hheld) hframes, rfl⟩⟩
  | @tooDeep token rest held frames openGroups hparen hfull =>
    obtain ⟨token', rest', htwins, hrest, rfl⟩ := List.forall₂_cons_left_iff.mp htokens
    have hparen' := htwins.lexeme_eq hparen nofun
    exact ⟨_, .tooDeep rest' held' frames' hparen' hfull, trivial,
      .fail (.nestingTooDeep limit htwins.rel)⟩
  | @closeGroup tokens held start outer frames openGroups hend =>
    obtain ⟨frame', frames', hframe, hrest, rfl⟩ := List.forall₂_cons_left_iff.mp hframes
    have hend' := atTerminator_of_twins htokens hend
    have hclose := close_alike (terminator stop tokens) (terminator stop' tokens') hframe hheld
    have htail : List.Forall₂ (Twins R) tokens.tail tokens'.tail := by
      simpa using List.forall₂_drop 1 htokens
    cases hframe with
    | group _ start' houter =>
      exact ⟨_, .closeGroup held' start' _ frames' openGroups hend', trivial,
        .resume ⟨htail, hclose, hrest, rfl⟩⟩
  | @closeOperand tokens held op start left frames openGroups hend =>
    obtain ⟨frame', frames', hframe, hrest, rfl⟩ := List.forall₂_cons_left_iff.mp hframes
    have hend' := atTerminator_of_twins htokens hend
    have hclose := close_alike (terminator stop tokens) (terminator stop' tokens') hframe hheld
    cases hframe with
    | operand _ _ start' hleft =>
      exact ⟨_, .closeOperand held' op start' _ frames' openGroups hend', trivial,
        .resume ⟨htokens, hclose, hrest, rfl⟩⟩
  | @unmatched token rest held openGroups hparen =>
    obtain ⟨token', rest', htwins, hrest, rfl⟩ := List.forall₂_cons_left_iff.mp htokens
    obtain rfl := List.forall₂_nil_left_iff.mp hframes
    have hparen' := htwins.lexeme_eq hparen nofun
    exact ⟨_, .unmatched rest' held' openGroups hparen', trivial, .finish hheld⟩
  | finish held openGroups =>
    obtain rfl := List.forall₂_nil_left_iff.mp htokens
    obtain rfl := List.forall₂_nil_left_iff.mp hframes
    exact ⟨_, .finish held' openGroups, trivial, .finish hheld⟩

/-! ## Readings -/

theorem endsAlike_requireExpression {text text' : String} {held held' : Option Expression}
    (hends : R (Cursor.ofText text).endToken (Cursor.ofText text').endToken)
    (h : Option.Rel (Expression.Alike R) held held') :
    EndsAlike (SyntaxError.Alike R) (Expression.Alike R) (Reader.requireExpression text held)
      (Reader.requireExpression text' held') := by
  cases h with
  | none =>
    rw [Reader.requireExpression, Reader.requireExpression, ← stop_ofText, ← stop_ofText]
    exact .error (.emptyExpression hends)
  | some h => exact .ok h

/-- Lenient reading makes trees alike of texts with the same classes. -/
theorem endsAlike_of_lenient {limit : Nat} {text text' : String} (h : SameClasses text text') :
    EndsAlike (SyntaxError.Alike (Paired text text')) (Expression.Alike (Paired text text'))
      (Reader.read ⟨.lenient, limit⟩ text).result (Reader.read ⟨.lenient, limit⟩ text').result := by
  obtain ⟨htokens, hends⟩ := h.twins
  have hstart : Mirrors (Paired text text') (.start (Cursor.ofText text).tokens)
      (.start (Cursor.ofText text').tokens) := ⟨htokens, .none, .nil, rfl⟩
  have hrun := (lockstep_of_mirrors (Paired text text') limit (Cursor.ofText text).stop
    (Cursor.ofText text').stop).run hstart fun t ht => (spells_tokens text).lexeme_ne_endOfInput ht
  exact hrun.result.bind (endsAlike_requireExpression hends)

end LicenseExpr.RightNested
