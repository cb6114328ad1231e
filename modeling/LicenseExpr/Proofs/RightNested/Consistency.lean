import LicenseExpr.Proofs.RightNested.Salvage
import LicenseExpr.Proofs.RightNested.Visits
import LicenseExpr.Size

/-!
# What holds in every state of a run

The count of open groups is that of the group frames and stays within the limit, so it neither falls
below zero nor grows out of a size; where an operand may follow, all that scopes hold on to are operands
(`Consistent`). Where repairs are refused, each open scope is whole besides, so no operator is ever
without a left operand when its scope closes (`visited_state_is_consistent`).
-/

namespace LicenseExpr.RightNested

variable {strictness : Strictness} {limit stop : Nat} {s s' : State} {repairs : List Repair}

/-- What every state of a run has, with the round that starts there. -/
structure Consistent (limit stop : Nat) (s : State) : Prop where
  openGroups_eq : s.openGroups = s.frames.countP Frame.isGroup
  openGroups_le : s.openGroups ≤ limit
  /-- When a group closes, the count goes down from one at least. -/
  counted : ∀ frame ∈ s.frames.head?, frame.isGroup = true → 0 < s.openGroups
  /-- The count that a round leaves fits a size if the limit does. -/
  fits : limit ≤ Size.maximum → ∀ s', (s.step limit stop).next = .resume s' →
    s'.openGroups ≤ Size.maximum
  /-- At a word or a `(` no scope holds a tree with an operator at its root. -/
  operands : ∀ token rest, s.tokens = token :: rest → token.lexeme ≠ .rightParen →
    (∀ e ∈ s.held, e.IsOperand) ∧ ∀ frame ∈ s.frames, ∀ e ∈ frame.kept, e.IsOperand

/-! ## Counts and operands -/

theorem Retains.openGroups_eq {openGroups : Nat} {frames : List Frame}
    (h : Retains limit openGroups frames) : openGroups = frames.countP Frame.isGroup := by
  induction h with
  | nil => rfl
  | group start _ _ _ ih => rw [List.countP_cons_of_pos rfl, ← ih]
  | operand op start _ _ ih => rw [List.countP_cons_of_neg (by simp [Frame.isGroup]), ← ih]

theorem Retains.isOperand_of_mem_kept {openGroups : Nat} {frames : List Frame}
    (h : Retains limit openGroups frames) :
    ∀ frame ∈ frames, ∀ e ∈ frame.kept, e.IsOperand := by
  induction h with
  | nil => exact nofun
  | group start _ houter _ ih => exact List.forall_mem_cons.mpr ⟨fun e he => (houter e he).1, ih⟩
  | operand op start hleft _ ih => exact List.forall_mem_cons.mpr ⟨fun e he => (hleft e he).1, ih⟩

theorem consistent_of_settled (hs : Settled limit s) (htokens : ∀ t ∈ s.tokens, t.lexeme ≠ .endOfInput) :
    Consistent limit stop s where
  openGroups_eq := hs.retains.openGroups_eq
  openGroups_le := hs.retains.le_limit
  counted frame hframe hgroup := by
    rw [hs.retains.openGroups_eq, List.countP_pos_iff]
    exact ⟨frame, List.mem_of_mem_head? hframe, hgroup⟩
  fits hlimit s' hnext :=
    Nat.le_trans (settled_of_turn (turn_of_next htokens hnext) hs).retains.le_limit hlimit
  operands token rest htoken hparen := by
    have hopen : ¬ AtTerminator s.tokens := by
      rw [htoken]
      exact not_atTerminator_cons hparen rest
    exact ⟨fun e he => (hs.fitsOperand hopen e he).1, hs.retains.isOperand_of_mem_kept⟩

/-! ## Collapsed operators -/

theorem frames_of_collapsed {next : Next} {op : Operator} {start : Nat}
    (h : Turn limit stop s ⟨repairs, next⟩) (hmem : .collapsed op start ∈ repairs) :
    ∃ frames, s.frames = .operand op start none :: frames := by
  cases h with
  | operator rest held frames openGroups hop => cases held <;> simp [missingLeft] at hmem
  | name rest held frames openGroups hword htext => cases held <;> simp [overwrite] at hmem
  | openGroup rest held frames hparen hroom => cases held <;> simp [overwrite] at hmem
  | tooDeep rest held frames hparen hfull => cases held <;> simp [overwrite] at hmem
  | closeGroup held start outer frames openGroups hend =>
    cases held <;> simp only [Frame.close] at hmem <;> split at hmem <;> simp at hmem
  | closeOperand held op start left frames openGroups hend =>
    rcases left with _ | left <;> rcases held with _ | inner <;> simp [Frame.close] at hmem
    obtain ⟨rfl, rfl⟩ := hmem
    exact ⟨frames, rfl⟩
  | unmatched rest held openGroups hparen => simp at hmem
  | finish held openGroups => simp at hmem

theorem not_collapsed_of_whole {next : Next} (h : Turn limit stop s ⟨repairs, next⟩)
    (hs : ∀ f ∈ s.frames, f.Whole) (op : Operator) (start : Nat) : .collapsed op start ∉ repairs := by
  intro hmem
  obtain ⟨frames, hframes⟩ := frames_of_collapsed h hmem
  have hwhole := hs _ (hframes ▸ List.mem_cons_self)
  simp [Frame.Whole] at hwhole

/-! ## Runs -/

/-- A round that no repair stops leaves each scope whole. -/
theorem Goes.whole (h : Goes .strict limit stop s s') (htokens : ∀ t ∈ s.tokens, t.lexeme ≠ .endOfInput)
    (hs : ∀ f ∈ s.frames, f.Whole) : ∀ f ∈ s'.frames, f.Whole := by
  rcases quiet_or_refused limit stop htokens hs with ⟨next, hquiet⟩ | ⟨error, hrefused⟩
  · have hnext := h.next
    rw [step_of_quiet hquiet stop] at hnext
    obtain rfl : next = .resume s' := hnext
    exact whole_of_quiet hquiet hs
  · obtain ⟨recovery, more, hrepairs⟩ := repairs_of_refused hrefused limit
    have haccepted := h.accepted
    rw [hrepairs] at haccepted
    cases haccepted

theorem Visited.settled {text : String} {rounds : Nat} (h : Visited strictness limit text rounds s) :
    Settled limit s :=
  h.keeps (Settled limit) (fun hgoes htokens => settled_of_turn (hgoes.turn htokens))
    (settled_start limit _)

theorem Visited.whole {text : String} {rounds : Nat} (h : Visited .strict limit text rounds s) :
    ∀ f ∈ s.frames, f.Whole :=
  h.keeps (fun s => ∀ f ∈ s.frames, f.Whole) (fun hgoes htokens => hgoes.whole htokens) nofun

/-- Every state that reading a text comes to is consistent. In strict reading each open scope is whole
as well, a left operand before each operator and nothing before each group, and no operator collapses. -/
theorem visited_state_is_consistent {text : String} {rounds : Nat}
    (h : Visited strictness limit text rounds s) :
    Consistent limit (Cursor.ofText text).stop s ∧
      (strictness = .strict → (∀ frame ∈ s.frames, frame.Whole) ∧
        ∀ op start, .collapsed op start ∉ (s.step limit (Cursor.ofText text).stop).repairs) := by
  refine ⟨consistent_of_settled h.settled h.lexeme_ne_endOfInput, ?_⟩
  rintro rfl
  exact ⟨h.whole, not_collapsed_of_whole (turn_step _ _ h.lexeme_ne_endOfInput) h.whole⟩

/-- In front of `B` two groups are open, as many as may be, and `A` waits on the left of its operator. -/
theorem consistent_before_last_word :
    ∃ s : State, Visited .strict 2 "(A AND (B OR C" 4 s ∧
      s.frames = [.group 7 none, .operand .and 3 (some (.identifier "A")), .group 0 none] ∧
      s.openGroups = 2 ∧ (.operand .and 3 (some (.identifier "A")) : Frame).Whole ∧
      s.frames.countP Frame.isGroup = 2 := by
  have htokens : (Cursor.ofText "(A AND (B OR C").tokens =
      [⟨.leftParen, 0⟩, ⟨.word "A", 1⟩, ⟨.word "AND", 3⟩, ⟨.leftParen, 7⟩, ⟨.word "B", 8⟩,
        ⟨.word "OR", 10⟩, ⟨.word "C", 13⟩] := by decide +kernel
  have hvisited : Visited .strict 2 "(A AND (B OR C" 4
      ⟨[⟨.word "B", 8⟩, ⟨.word "OR", 10⟩, ⟨.word "C", 13⟩], none,
        [.group 7 none, .operand .and 3 (some (.identifier "A")), .group 0 none], 2⟩ := by
    rw [Visited, htokens]
    exact .step ⟨rfl, rfl⟩ (.step ⟨rfl, rfl⟩ (.step ⟨rfl, rfl⟩ (.step ⟨rfl, rfl⟩ (.refl _))))
  obtain ⟨hconsistent, hstrict⟩ := visited_state_is_consistent hvisited
  refine ⟨_, hvisited, rfl, rfl, (hstrict rfl).1 _ (by simp), hconsistent.openGroups_eq.symm⟩

end LicenseExpr.RightNested
