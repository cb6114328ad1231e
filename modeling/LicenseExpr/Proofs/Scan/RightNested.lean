import LicenseExpr.Proofs.RightNested.Moves
import LicenseExpr.Proofs.Scan
import LicenseExpr.Reader

/-!
# Strict reading by a scan

Strict reading gives the error that the scan of the right-nested grammar finds, and a tree if the
scan finds none. The scan takes one step for each token; where strict reading closes the scope of
a right operand, the scan stays where it is.
-/

namespace LicenseExpr.RightNested

open Scan

/-- The groups among the open scopes are the ones that the scan has open. -/
inductive Opens : List Frame → List Opened → Prop where
  | nil : Opens [] []
  | group {frames : List Frame} {opened : List Opened} (start : Nat) (attached : Bool) :
      Opens frames opened → Opens (.group start none :: frames) (⟨start, attached⟩ :: opened)
  | operand {frames : List Frame} {opened : List Opened} (op : Operator) (start : Nat)
      (left : Option Expression) : Opens frames opened → Opens (.operand op start left :: frames) opened

/-- The scan stands where the machine stands. -/
inductive Tracks : State → Scan.State → Prop where
  | start (tokens : List Token) : Tracks ⟨tokens, none, [], 0⟩ ⟨.opening, []⟩
  | group {frames : List Frame} {opened : List Opened} (tokens : List Token) (start : Nat)
      (attached : Bool) : Opens frames opened →
      Tracks ⟨tokens, none, .group start none :: frames, opened.length + 1⟩
        ⟨.opening, ⟨start, attached⟩ :: opened⟩
  | operand {frames : List Frame} {opened : List Opened} (tokens : List Token) (op : Operator)
      (start : Nat) (left : Option Expression) : Opens frames opened →
      Tracks ⟨tokens, none, .operand op start left :: frames, opened.length⟩ ⟨.behind op, opened⟩
  | held {frames : List Frame} {opened : List Opened} (tokens : List Token) (e : Expression)
      (attached : Bool) : Opens frames opened →
      Tracks ⟨tokens, some e, frames, opened.length⟩ ⟨.after attached, opened⟩

variable {limit stop : Nat} {s s' : State} {p : Scan.State}

theorem Tracks.opens (h : Tracks s p) : Opens s.frames p.opened := by
  cases h with
  | start tokens => exact .nil
  | group tokens start attached hopens => exact .group start attached hopens
  | operand tokens op start left hopens => exact .operand op start left hopens
  | held tokens e attached hopens => exact hopens

theorem Tracks.openGroups_eq (h : Tracks s p) : s.openGroups = p.opened.length := by
  cases h <;> rfl

theorem Tracks.awaits {tokens : List Token} {frames : List Frame} {openGroups : Nat}
    (h : Tracks ⟨tokens, none, frames, openGroups⟩ p) : p.place.Awaits := by
  cases h <;> trivial

/-- What the scan says of the tokens does not change along the moves of the machine. -/
theorem exists_tracks_of_quiet (h : Quiet limit s (.resume s')) (hs : Tracks s p) :
    ∃ p', Tracks s' p' ∧
      p'.check .rightNested limit stop s'.tokens = p.check .rightNested limit stop s.tokens := by
  cases h with
  | @operator token op rest left frames openGroups hop =>
    cases hs with
    | held _ _ attached hopens =>
      refine ⟨⟨.behind op, _⟩, .operand rest op token.start _ hopens, ?_⟩
      exact (check_cons_of_ok (step_operator hop)).symm
  | @name token text rest frames openGroups hword htext =>
    refine ⟨⟨.after p.place.attaches, p.opened⟩, ?_,
      (check_cons_of_ok (step_name_of_awaits hs.awaits hword htext)).symm⟩
    have hcount : openGroups = p.opened.length := hs.openGroups_eq
    subst hcount
    exact .held rest (.identifier text) _ hs.opens
  | @openGroup token openGroups rest frames hparen hroom =>
    have hcount : openGroups = p.opened.length := hs.openGroups_eq
    subst hcount
    refine ⟨⟨.opening, ⟨token.start, p.place.attaches⟩ :: p.opened⟩, ?_,
      (check_cons_of_ok (step_leftParen_of_awaits hs.awaits hparen hroom)).symm⟩
    exact .group rest token.start p.place.attaches hs.opens
  | @closeGroup token rest inner start outer frames openGroups hparen =>
    cases hs with
    | held _ _ attached hopens =>
      cases hopens with
      | group _ attached' hopens =>
        refine ⟨⟨.after attached', _⟩, .held rest _ attached' hopens, ?_⟩
        exact (check_cons_of_ok (step_rightParen hparen)).symm
  | @closeOperand tokens inner op start left frames openGroups hend =>
    cases hs with
    | held _ _ attached hopens =>
      cases hopens with
      | operand _ _ _ hopens => exact ⟨_, .held tokens _ attached hopens, rfl⟩

theorem check_of_quiet_fail {error : SyntaxError} (h : Quiet limit s (.fail error))
    (hs : Tracks s p) : p.check .rightNested limit stop s.tokens = .error error := by
  cases h with
  | @tooDeep token openGroups rest frames hparen hfull =>
    have hcount : openGroups = p.opened.length := hs.openGroups_eq
    exact check_cons_of_error (step_leftParen_of_full hs.awaits hparen (hcount ▸ hfull))

theorem check_of_quiet_finish {text : String} {result : Option Expression}
    (h : Quiet limit s (.finish result)) (hs : Tracks s p) :
    p.check .rightNested limit (Text.byteLength text.toList) s.tokens =
      (Reader.requireExpression text result).map fun _ => () := by
  cases h with
  | finish held openGroups =>
    cases hs with
    | start => rfl
    | held _ _ attached hopens =>
      cases hopens
      rfl

theorem check_of_refused {error : SyntaxError} (h : Refused stop s error) (hs : Tracks s p) :
    p.check .rightNested limit stop s.tokens = .error error := by
  cases h with
  | @operator token op rest frames openGroups hop =>
    have hstep : p.step .rightNested limit token = p.join .rightNested token op :=
      step_operator hop
    refine check_cons_of_error (hstep.trans ?_)
    cases hs <;> rfl
  | @second token rest e frames openGroups hopens =>
    cases hs with
    | held _ _ attached _ => exact check_cons_of_error (step_after_of_opens hopens)
  | @unmatched token rest held openGroups hparen =>
    have hstep : p.step .rightNested limit token = p.closeGroup token := step_rightParen hparen
    refine check_cons_of_error (hstep.trans ?_)
    cases hs with
    | start => rfl
    | held _ _ attached hopens =>
      cases hopens
      rfl
  | @emptyGroup token rest start outer frames openGroups hparen =>
    cases hs with
    | group _ _ attached _ => exact check_cons_of_error (step_rightParen hparen)
  | unclosed held start outer frames openGroups =>
    cases hs with
    | group _ _ attached _ => rfl
    | held _ _ attached hopens =>
      cases hopens
      rfl
  | @lacking tokens op start left frames openGroups hend =>
    cases hs with
    | operand _ _ _ _ _ =>
      rcases tokens with _ | ⟨token, rest⟩
      · rfl
      · exact check_cons_of_error (step_rightParen hend)

/-- From states that agree, the machine and the scan come to the same end. -/
theorem result_run_eq_check {text : String} {s : State} {p : Scan.State} (hs : Tracks s p)
    (hframes : ∀ f ∈ s.frames, f.Whole) (htokens : ∀ t ∈ s.tokens, t.lexeme ≠ .endOfInput) :
    ((run .strict limit (Text.byteLength text.toList) [] s).result >>=
        Reader.requireExpression text).map (fun _ => ()) =
      p.check .rightNested limit (Text.byteLength text.toList) s.tokens := by
  rcases quiet_or_refused limit (Text.byteLength text.toList) htokens hframes with
    ⟨next, hquiet⟩ | ⟨error, herror⟩
  · cases next with
    | resume s' =>
      obtain ⟨p', hs', hcheck⟩ := exists_tracks_of_quiet hquiet hs
      rw [run_of_quiet .strict hquiet, ← hcheck]
      exact result_run_eq_check hs' (whole_of_quiet hquiet hframes)
        fun t ht => htokens t (tokens_of_quiet hquiet t ht)
    | finish result =>
      rw [run_of_quiet_finish .strict hquiet, check_of_quiet_finish hquiet hs]
      rfl
    | fail error =>
      rw [run_of_quiet_fail .strict hquiet, check_of_quiet_fail hquiet hs]
      rfl
  · rw [run_strict_of_refused herror, check_of_refused herror hs]
    rfl
termination_by s.weight
decreasing_by exact weight_lt_of_quiet hquiet

theorem result_strict_eq_verdict (limit : Nat) (text : String) :
    (Reader.read ⟨.strict, limit⟩ text).result.map (fun _ => ()) =
      verdict .rightNested limit text := by
  have htokens : ∀ t ∈ (Cursor.ofText text).tokens, t.lexeme ≠ .endOfInput :=
    fun t ht => (spells_tokens text).lexeme_ne_endOfInput ht
  have hrun := @result_run_eq_check limit text _ _ (.start (Cursor.ofText text).tokens) nofun htokens
  rw [← stop_ofText] at hrun
  exact hrun

end LicenseExpr.RightNested
