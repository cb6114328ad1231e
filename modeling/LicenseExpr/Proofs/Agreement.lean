import LicenseExpr.Proofs.Dialects
import LicenseExpr.Proofs.RightNested.Strictness

/-!
# Where the dialects agree

A scope is a whole text or all between a parenthesis and its partner, and its own operators are
those that stand in no group of it. A tree by precedence is right-nested as well exactly if the own
operators of each scope bind tighter from left to right (`rightNested_iff`), so the three dialects
give one tree on such texts and on no others that reading by precedence accepts.
-/

namespace LicenseExpr

variable {ss ss' rest rest' pre inner : List Symbol}

/-! ## Parentheses and their partners -/

/-- The symbols in front of the first `)` whose partner is not among them; `depth` groups are open
before the symbols. -/
def upToClose : Nat → List Symbol → List Symbol
  | _, [] => []
  | depth, .leftParen :: ss => .leftParen :: upToClose (depth + 1) ss
  | 0, .rightParen :: _ => []
  | depth + 1, .rightParen :: ss => .rightParen :: upToClose depth ss
  | depth, .name text :: ss => .name text :: upToClose depth ss
  | depth, .operator op :: ss => .operator op :: upToClose depth ss

theorem Matched.upToClose_append (h : Matched ss) (depth : Nat) (rest : List Symbol) :
    upToClose depth (ss ++ rest) = ss ++ upToClose depth rest := by
  induction h generalizing depth rest with
  | nil => rfl
  | @symbol x hleft hright =>
    cases x with
    | name text | operator op => rfl
    | leftParen => exact absurd rfl hleft
    | rightParen => exact absurd rfl hright
  | append _ _ ih ih' => rw [List.append_assoc, ih, ih', List.append_assoc]
  | group _ ih =>
    rw [List.cons_append, List.append_assoc, List.singleton_append, upToClose, ih, upToClose]
    simp

theorem Matched.eq_of_append_rightParen (h : Matched ss) (h' : Matched ss')
    (heq : ss ++ .rightParen :: rest = ss' ++ .rightParen :: rest') : ss = ss' := by
  have hclose := congrArg (upToClose 0) heq
  rw [h.upToClose_append, h'.upToClose_append, upToClose, upToClose] at hclose
  simpa using hclose

theorem Matched.exists_partner (h : Matched ss) (hsplit : ss = pre ++ .leftParen :: rest) :
    ∃ inner post, rest = inner ++ .rightParen :: post ∧ Matched inner := by
  induction h generalizing pre rest with
  | nil => simp at hsplit
  | @symbol x hleft hright =>
    obtain ⟨-, hx, -⟩ : pre = [] ∧ x = .leftParen ∧ rest = [] := by
      rcases pre with _ | ⟨y, pre⟩ <;> simp_all
    exact absurd hx hleft
  | @append ss ss' _ _ ih ih' =>
    rcases List.append_eq_append_iff.mp hsplit with ⟨middle, rfl, hrest⟩ | ⟨middle, hfront, hrest⟩
    · exact ih' hrest
    · rcases List.cons_eq_append_iff.mp hrest with ⟨rfl, hnext⟩ | ⟨middle, rfl, rfl⟩
      · exact @ih' rest [] hnext
      · obtain ⟨inner, post, rfl, hinner⟩ := ih hfront
        exact ⟨inner, post ++ ss', by simp, hinner⟩
  | @group ss hss ih =>
    rcases List.cons_eq_append_iff.mp hsplit with ⟨rfl, hnext⟩ | ⟨pre, rfl, hrest⟩
    · obtain ⟨-, rfl⟩ := List.cons.inj hnext
      exact ⟨ss, [], rfl, hss⟩
    · rcases List.append_eq_append_iff.mp hrest with ⟨middle, rfl, hlast⟩ | ⟨middle, hfront, hlast⟩
      · rcases middle with _ | ⟨y, middle⟩ <;> simp at hlast
      · rcases List.cons_eq_append_iff.mp hlast with ⟨rfl, hlast⟩ | ⟨middle, rfl, rfl⟩
        · cases hlast
        · obtain ⟨inner, post, rfl, hinner⟩ := ih hfront
          exact ⟨inner, post ++ [.rightParen], by simp, hinner⟩

theorem matched_symbols (e : Expression) : Matched e.symbols := by
  induction e with
  | identifier name => exact .symbol nofun nofun
  | binary op left right ihl ihr =>
    have hop : Matched [Symbol.operator op] := .symbol nofun nofun
    exact ihl.append (hop.append ihr)
  | group inner ih => exact .group ih

/-! ## Scopes -/

/-- All between a parenthesis of `ss` and its partner. -/
def IsInside (ss inner : List Symbol) : Prop :=
  ∃ pre post, ss = pre ++ .leftParen :: (inner ++ .rightParen :: post) ∧ Matched inner

/-- A scope of `ss`: the whole, or the inside of a pair of parentheses. -/
def IsScope (ss inner : List Symbol) : Prop := inner = ss ∨ IsInside ss inner

theorem isInside_cons_iff {x : Symbol} (hx : x ≠ .leftParen) :
    IsInside (x :: ss) inner ↔ IsInside ss inner := by
  constructor
  · rintro ⟨pre, post, hsplit, hinner⟩
    rcases List.cons_eq_append_iff.mp hsplit with ⟨rfl, hnext⟩ | ⟨pre, rfl, hrest⟩
    · exact absurd (List.cons.inj hnext).1.symm hx
    · exact ⟨pre, post, hrest, hinner⟩
  · rintro ⟨pre, post, rfl, hinner⟩
    exact ⟨x :: pre, post, rfl, hinner⟩

theorem isInside_append_iff (h : Matched ss) :
    IsInside (ss ++ ss') inner ↔ IsInside ss inner ∨ IsInside ss' inner := by
  constructor
  · rintro ⟨pre, post, hsplit, hinner⟩
    rcases List.append_eq_append_iff.mp hsplit with ⟨middle, rfl, hrest⟩ | ⟨middle, hfront, hrest⟩
    · exact .inr ⟨middle, post, hrest, hinner⟩
    · rcases List.cons_eq_append_iff.mp hrest with ⟨rfl, hnext⟩ | ⟨middle, rfl, hmiddle⟩
      · exact .inr ⟨[], post, hnext, hinner⟩
      · obtain ⟨inner', post', rfl, hinner'⟩ := h.exists_partner hfront
        rw [List.append_assoc, List.cons_append] at hmiddle
        obtain rfl := hinner.eq_of_append_rightParen hinner' hmiddle
        exact .inl ⟨pre, post', hfront, hinner⟩
  · rintro (⟨pre, post, rfl, hinner⟩ | ⟨pre, post, rfl, hinner⟩)
    · exact ⟨pre, post ++ ss', by simp, hinner⟩
    · exact ⟨ss ++ pre, post, by simp, hinner⟩

theorem isInside_operator_cons_iff {op : Operator} :
    IsInside (.operator op :: ss) inner ↔ IsInside ss inner :=
  isInside_cons_iff nofun

theorem not_isInside_singleton {x : Symbol} (hx : x ≠ .leftParen) : ¬ IsInside [x] inner := by
  rw [isInside_cons_iff hx]
  rintro ⟨pre, post, hsplit, -⟩
  simp at hsplit

theorem isInside_group_iff (h : Matched ss) :
    IsInside (.leftParen :: (ss ++ [.rightParen])) inner ↔ IsScope ss inner := by
  constructor
  · rintro ⟨pre, post, hsplit, hinner⟩
    rcases List.cons_eq_append_iff.mp hsplit with ⟨rfl, hnext⟩ | ⟨pre, rfl, hrest⟩
    · exact .inl (hinner.eq_of_append_rightParen h (List.cons.inj hnext).2)
    · exact .inr (((isInside_append_iff h).mp ⟨pre, post, hrest, hinner⟩).resolve_right
        (not_isInside_singleton nofun))
  · rintro (rfl | ⟨pre, post, rfl, hinner⟩)
    · exact ⟨[], [], rfl, h⟩
    · exact ⟨.leftParen :: pre, post ++ [.rightParen], by simp, hinner⟩

/-! ## Own operators -/

/-- The operators that stand in no group; `depth` groups are open before the symbols. -/
def ownOperators : Nat → List Symbol → List Operator
  | _, [] => []
  | depth, .leftParen :: ss => ownOperators (depth + 1) ss
  | depth, .rightParen :: ss => ownOperators (depth - 1) ss
  | depth, .name _ :: ss => ownOperators depth ss
  | 0, .operator op :: ss => op :: ownOperators 0 ss
  | depth + 1, .operator _ :: ss => ownOperators (depth + 1) ss

theorem Matched.ownOperators_append (h : Matched ss) (depth : Nat) (rest : List Symbol) :
    ownOperators (depth + 1) (ss ++ rest) = ownOperators (depth + 1) rest := by
  induction h generalizing depth rest with
  | nil => rfl
  | @symbol x hleft hright =>
    cases x with
    | name text | operator op => rfl
    | leftParen => exact absurd rfl hleft
    | rightParen => exact absurd rfl hright
  | append _ _ ih ih' => rw [List.append_assoc, ih, ih']
  | group _ ih =>
    rw [List.cons_append, List.append_assoc, List.singleton_append, ownOperators, ih]
    rfl

def Operator.tightness : Operator → Nat
  | or => 0
  | and => 1
  | exception => 2

def Tightens (ops : List Operator) : Prop := ops.Pairwise (·.tightness < ·.tightness)

namespace Expression

/-- The operators above the operands of a tree, left to right. -/
def spine : Expression → List Operator
  | identifier _ | group _ => []
  | binary op left right => left.spine ++ op :: right.spine

theorem ownOperators_symbols_append (e : Expression) (rest : List Symbol) :
    ownOperators 0 (e.symbols ++ rest) = e.spine ++ ownOperators 0 rest := by
  induction e generalizing rest with
  | identifier name => rfl
  | binary op left right ihl ihr =>
    rw [symbols, List.append_assoc, ihl, List.cons_append, ownOperators, ihr, spine,
      List.append_assoc, List.cons_append]
  | group inner _ =>
    rw [symbols, List.cons_append, List.append_assoc, List.singleton_append, ownOperators,
      (matched_symbols inner).ownOperators_append]
    rfl

theorem ownOperators_symbols (e : Expression) : ownOperators 0 e.symbols = e.spine := by
  have h := e.ownOperators_symbols_append []
  rwa [List.append_nil, ownOperators, List.append_nil] at h

theorem spine_eq_nil {e : Expression} (h : e.IsOperand) : e.spine = [] := by
  cases e with
  | identifier name | group inner => rfl
  | binary op left right => exact h.elim

theorem tightness_lt_of_rightOf {op : Operator} {e : Expression} (hrightOf : e.RightOf op)
    (hshape : e.RightNested) (htight : Tightens e.spine) :
    ∀ op' ∈ e.spine, op.tightness < op'.tightness := by
  cases e with
  | identifier name | group inner => exact nofun
  | binary root left right =>
    have hroot : op.tightness < root.tightness := by
      cases op <;> cases root <;> simp_all [RightOf, Operator.tightness]
    rw [spine, spine_eq_nil hshape.1, List.nil_append] at *
    intro op' hop'
    rcases List.mem_cons.mp hop' with rfl | hop'
    · exact hroot
    · exact Nat.lt_trans hroot ((List.pairwise_cons.mp htight).1 op' hop')

theorem isOperand_of_leftOf {op : Operator} {e : Expression} (hleftOf : e.LeftOf op)
    (htight : ∀ op' ∈ e.spine, op'.tightness < op.tightness) : e.IsOperand := by
  cases e with
  | identifier name | group inner => trivial
  | binary root left right =>
    have hroot : root.tightness < op.tightness := htight root (by simp [spine])
    cases op <;> cases root <;> simp_all [LeftOf, Operator.tightness]

/-- A tree by precedence is right-nested if and only if the operators of each scope get tighter. -/
theorem rightNested_iff {e : Expression} (h : e.ByPrecedence) :
    e.RightNested ↔
      Tightens e.spine ∧ ∀ inner, IsInside e.symbols inner → Tightens (ownOperators 0 inner) := by
  induction e with
  | identifier name =>
    refine iff_of_true trivial ⟨.nil, fun inner hinner => ?_⟩
    exact absurd hinner (not_isInside_singleton nofun)
  | group g ih =>
    simp only [symbols, isInside_group_iff (matched_symbols g), IsScope, or_imp, forall_and,
      forall_eq, ownOperators_symbols]
    exact (ih h).trans (and_iff_right List.Pairwise.nil).symm
  | binary op left right ihl ihr =>
    obtain ⟨hleftOf, hrightOf, hlshape, hrshape⟩ := h
    simp only [symbols, isInside_append_iff (matched_symbols left), isInside_operator_cons_iff,
      or_imp, forall_and]
    constructor
    · rintro ⟨hoperand, hleft, hright⟩
      obtain ⟨htight, hinside⟩ := (ihr hrshape).mp hright
      refine ⟨?_, ((ihl hlshape).mp hleft).2, hinside⟩
      rw [spine, spine_eq_nil hoperand]
      exact .cons (tightness_lt_of_rightOf hrightOf hright htight) htight
    · rintro ⟨htight, hlinside, hrinside⟩
      obtain ⟨hltight, hrtight, hbetween⟩ := List.pairwise_append.mp htight
      refine ⟨isOperand_of_leftOf hleftOf fun op' hop' => hbetween op' hop' op List.mem_cons_self,
        (ihl hlshape).mpr ⟨hltight, hlinside⟩, (ihr hrshape).mpr ⟨?_, hrinside⟩⟩
      exact (List.pairwise_cons.mp hrtight).2

end Expression

/-! ## The three dialects -/

variable {limit : Nat} {text : String} {e : Expression}

/-- On a text that reading by precedence accepts, the two right-nested dialects give one tree. It is
the tree by precedence if and only if in each scope the own operators get tighter from left to
right. -/
theorem dialects_agree_iff_operators_tighten (limit : Nat) (text : String) {e : Expression}
    (h : (Reader.read ⟨.spdx, limit⟩ text).result = .ok e) :
    ∃ e', (Reader.read ⟨.strict, limit⟩ text).result = .ok e' ∧
      (Reader.read ⟨.lenient, limit⟩ text).result = .ok e' ∧
      (e' = e ↔ ∀ scope, IsScope (symbols text) scope → Tightens (ownOperators 0 scope)) := by
  obtain ⟨e', hstrict, -⟩ := exists_strict_of_spdx h
  obtain ⟨hsymbols, hshape, hnames, hroom⟩ := Precedence.read_eq_ok_iff.mp h
  refine ⟨e', hstrict, (RightNested.result_lenient_of_strict hstrict).2, ?_⟩
  have hscopes : (∀ scope, IsScope (symbols text) scope → Tightens (ownOperators 0 scope)) ↔
      e.RightNested := by
    simp only [e.rightNested_iff hshape, IsScope, or_imp, forall_and, forall_eq, hsymbols,
      e.ownOperators_symbols]
  rw [hscopes]
  constructor
  · rintro rfl
    exact (RightNested.result_strict_eq_ok_iff.mp hstrict).2.1
  · intro hnested
    have hsame := RightNested.result_strict_eq_ok_iff.mpr ⟨hsymbols, hnested, hnames, hroom⟩
    exact Except.ok.inj (hstrict.symm.trans hsame)

/-- `OR`, then `WITH` in the outer scope and `AND` alone in the inner one. -/
theorem dialects_agree_on_tightening_text :
    (Reader.read ⟨.spdx, 1⟩ "A OR (B AND C) WITH D").result =
        .ok (.binary .or (.identifier "A") (.binary .exception
          (.group (.binary .and (.identifier "B") (.identifier "C"))) (.identifier "D"))) ∧
      ∃ e', (Reader.read ⟨.strict, 1⟩ "A OR (B AND C) WITH D").result = .ok e' ∧
        (Reader.read ⟨.lenient, 1⟩ "A OR (B AND C) WITH D").result = .ok e' ∧
        (e' = .binary .or (.identifier "A") (.binary .exception
            (.group (.binary .and (.identifier "B") (.identifier "C"))) (.identifier "D")) ↔
          ∀ scope, IsScope (symbols "A OR (B AND C) WITH D") scope →
            Tightens (ownOperators 0 scope)) := by
  have h : (Reader.read ⟨.spdx, 1⟩ "A OR (B AND C) WITH D").result =
      .ok (.binary .or (.identifier "A") (.binary .exception
        (.group (.binary .and (.identifier "B") (.identifier "C"))) (.identifier "D"))) :=
    Precedence.read_eq_ok_iff.mpr ⟨by decide +kernel, by decide, by decide, by decide⟩
  exact ⟨h, dialects_agree_iff_operators_tighten 1 "A OR (B AND C) WITH D" h⟩

end LicenseExpr
