import LicenseExpr.Search.Query

/-!
# The terms of a query

A query is made by calls, and each of them offers candidates. What the query holds after any number
of calls is told by all candidates at once: those that the configuration admits, each where it comes
first (`terms_are_first_candidates`).
-/

namespace LicenseExpr.Search

/-! ## Segments -/

def IsWordChar (c : Char) : Prop :=
  ('A' ≤ c ∧ c ≤ 'Z') ∨ ('a' ≤ c ∧ c ≤ 'z') ∨ ('0' ≤ c ∧ c ≤ '9') ∨ c = '_'

/-- A text and its parts. A part ends before a character that no word is made of, or with the text,
and may be empty. -/
inductive PartsOf : List Char → List String → Prop where
  | last {part : List Char} : (∀ c ∈ part, IsWordChar c) → PartsOf part [.ofList part]
  | cut {part rest : List Char} {sep : Char} {parts : List String} :
      (∀ c ∈ part, IsWordChar c) → ¬ IsWordChar sep → PartsOf rest parts →
      PartsOf (part ++ sep :: rest) (.ofList part :: parts)

theorem isTermChar_iff {c : Char} : isTermChar c = true ↔ IsWordChar c := by
  have heq : isTermChar c = (decide ('A' ≤ c ∧ c ≤ 'Z') || (decide ('a' ≤ c) && decide (c ≤ 'z')) ||
      (decide ('0' ≤ c) && decide (c ≤ '9')) || c == '_') := rfl
  rw [heq]
  simp [IsWordChar, or_assoc]

theorem PartsOf.cons {c : Char} {cs : List Char} {parts : List String} (hc : IsWordChar c)
    (h : PartsOf cs parts) : ∃ parts, PartsOf (c :: cs) parts := by
  cases h with
  | last hpart => exact ⟨_, .last (List.forall_mem_cons.mpr ⟨hc, hpart⟩)⟩
  | cut hpart hsep hrest => exact ⟨_, .cut (List.forall_mem_cons.mpr ⟨hc, hpart⟩) hsep hrest⟩

theorem exists_partsOf (cs : List Char) : ∃ parts, PartsOf cs parts := by
  induction cs with
  | nil => exact ⟨_, .last (List.forall_mem_nil _)⟩
  | cons c cs ih =>
    obtain ⟨parts, hparts⟩ := ih
    by_cases hc : IsWordChar c
    · exact hparts.cons hc
    · exact ⟨_, .cut (List.forall_mem_nil _) hc hparts⟩

theorem PartsOf.segments_eq {cs : List Char} {parts : List String} (h : PartsOf cs parts) :
    segments (.ofList cs) = parts := by
  have hword {part : List Char} (hpart : ∀ c ∈ part, IsWordChar c) :
      ∀ c ∈ part, (!isTermChar c) = false := by
    intro c hc
    rw [isTermChar_iff.mpr (hpart c hc), Bool.not_true]
  induction h with
  | last hpart =>
    rw [segments, String.toList_ofList, List.splitOnP_eq_singleton (hword hpart),
      List.map_singleton]
  | @cut part rest sep parts hpart hsep _ ih =>
    have hcut : (!isTermChar sep) = true := by
      rwa [Bool.not_eq_true', ← Bool.not_eq_true, isTermChar_iff]
    rw [segments, String.toList_ofList] at ih ⊢
    rw [List.splitOnP_append_cons_of_forall_mem (hword hpart) sep hcut, List.map_cons, ih]

/-- A text has parts in one way only. -/
theorem partsOf_iff {text : String} {parts : List String} :
    PartsOf text.toList parts ↔ parts = segments text := by
  have heq (parts : List String) (h : PartsOf text.toList parts) : parts = segments text := by
    rw [← h.segments_eq, String.ofList_toList]
  constructor
  · exact heq parts
  · rintro rfl
    obtain ⟨parts, hparts⟩ := exists_partsOf text.toList
    rwa [← heq parts hparts]

/-! ## Calls -/

inductive Call where
  | term (text : String)
  | contentId (id : ContentId)

/-- What a call offers as terms. -/
def Call.candidates : Call → List String
  | term text => [text]
  | contentId id => id.candidates

/-- A call and what it offers: a term itself, nothing for an invalid id, and for a valid one its
namespace if it has one, its name, the parts of the name and the parts of the namespace. -/
inductive Call.Offers : Call → List String → Prop where
  | term (text : String) : Offers (.term text) [text]
  | invalid (nameSpace : Option String) (name : String) :
      Offers (.contentId ⟨nameSpace, name, false⟩) []
  | name {name : String} {parts : List String} :
      PartsOf name.toList parts → Offers (.contentId ⟨none, name, true⟩) (name :: parts)
  | nameSpace {nameSpace name : String} {parts spaceParts : List String} :
      PartsOf name.toList parts → PartsOf nameSpace.toList spaceParts →
      Offers (.contentId ⟨some nameSpace, name, true⟩) (nameSpace :: name :: parts ++ spaceParts)

theorem Call.offers_candidates (call : Call) : call.Offers call.candidates := by
  rcases call with text | ⟨_ | nameSpace, name, _ | _⟩
  · exact .term text
  · exact .invalid none name
  · have hoffers := Offers.name (partsOf_iff.mpr (Eq.refl (segments name)))
    simpa [candidates, ContentId.candidates] using hoffers
  · exact .invalid (some nameSpace) name
  · have hoffers := Offers.nameSpace (partsOf_iff.mpr (Eq.refl (segments name)))
      (partsOf_iff.mpr (Eq.refl (segments nameSpace)))
    simpa [candidates, ContentId.candidates] using hoffers

theorem Call.offers_iff {call : Call} {texts : List String} :
    call.Offers texts ↔ texts = call.candidates := by
  constructor
  · intro h
    cases h with
    | term text => rfl
    | invalid nameSpace name => rfl
    | name hparts => simp [candidates, ContentId.candidates, partsOf_iff.mp hparts]
    | nameSpace hparts hspace =>
      simp [candidates, ContentId.candidates, partsOf_iff.mp hparts, partsOf_iff.mp hspace]
  · rintro rfl
    exact call.offers_candidates

theorem QueryConfig.admits_iff {config : QueryConfig} {term : String} :
    config.admits term = true ↔
      (∀ common ∈ config.commonTerms,
        common.toList.map Char.toLower ≠ term.toList.map Char.toLower) ∧
      config.minimumTermLength ≤ (Text.bytes term).length := by
  simp [admits, Text.sameWord_iff, Text.length_bytes]

namespace Query

def call (q : Query) : Call → Query
  | .term text => q.add text
  | .contentId id => q.addContentId id

/-- A new query after calls. -/
def ofCalls (config : QueryConfig) (calls : List Call) : Query := calls.foldl call (empty config)

theorem call_eq (q : Query) (c : Call) : q.call c = c.candidates.foldl add q := by
  cases c <;> rfl

/-- Calls add their candidates one by one. -/
theorem ofCalls_eq (config : QueryConfig) (calls : List Call) :
    ofCalls config calls = (calls.flatMap Call.candidates).foldl add (empty config) := by
  rw [List.foldl_flatMap, ofCalls]
  congr 1
  funext q c
  exact q.call_eq c

/-! ## Terms after candidates -/

/-- The terms are those candidates that are admitted, each where it came first. -/
def Holds (q : Query) (candidates : List String) : Prop :=
  q.terms = (candidates.filter q.config.admits).eraseDups

variable {q : Query} {candidates : List String}

theorem holds_empty (config : QueryConfig) : (empty config).Holds [] := List.eraseDups_nil.symm

/-- A term is there already just if it was offered before and admitted. -/
theorem Holds.add (h : q.Holds candidates) (term : String) :
    (q.add term).Holds (candidates ++ [term]) := by
  rw [Holds] at h ⊢
  rw [q.config_add term, List.filter_append, List.eraseDups_append, ← h]
  by_cases hadmits : q.config.admits term = true
  · have hmem : term ∈ q.terms ↔ term ∈ candidates := by simp [h, hadmits]
    by_cases hterm : term ∈ candidates
    · simp [Query.add, List.removeAll, hadmits, hmem, hterm]
    · simp [Query.add, List.removeAll, List.eraseDups_cons, hadmits, hmem, hterm]
  · simp [Query.add, List.removeAll, hadmits]

theorem Holds.foldl_add (h : q.Holds candidates) (more : List String) :
    (more.foldl Query.add q).Holds (candidates ++ more) := by
  induction more generalizing q candidates with
  | nil => rwa [List.append_nil]
  | cons term more ih =>
    have hrest := ih (h.add term)
    rwa [List.append_assoc, List.singleton_append] at hrest

theorem config_foldl_add (q : Query) (texts : List String) :
    (texts.foldl add q).config = q.config := by
  induction texts generalizing q with
  | nil => rfl
  | cons text texts ih => rw [List.foldl_cons, ih, config_add]

section

variable {config : QueryConfig} {calls : List Call}

theorem config_ofCalls : (ofCalls config calls).config = config := by
  rw [ofCalls_eq, config_foldl_add]
  rfl

theorem ofCalls_eq_mk : ofCalls config calls = ⟨config, (ofCalls config calls).terms⟩ :=
  congrArg (Query.mk · (ofCalls config calls).terms) config_ofCalls

theorem terms_ofCalls :
    (ofCalls config calls).terms =
      ((calls.flatMap Call.candidates).filter config.admits).eraseDups := by
  have h := (holds_empty config).foldl_add (calls.flatMap Call.candidates)
  rwa [← ofCalls_eq, Holds, config_ofCalls] at h

theorem mem_terms_ofCalls {term : String} :
    term ∈ (ofCalls config calls).terms ↔
      term ∈ calls.flatMap Call.candidates ∧ config.admits term = true := by
  rw [terms_ofCalls, List.mem_eraseDups, List.mem_filter]

theorem url?_eq_none_iff : q.url? = none ↔ q.terms = [] := by
  by_cases h : q.terms = [] <;> simp [url?, h]

theorem terms_ofCalls_append (more : List Call) :
    (ofCalls config (calls ++ more)).terms = (ofCalls config calls).terms ++
      (((more.flatMap Call.candidates).filter config.admits).removeAll
        ((calls.flatMap Call.candidates).filter config.admits)).eraseDups := by
  rw [terms_ofCalls, terms_ofCalls, List.flatMap_append, List.filter_append, List.eraseDups_append]

theorem ofCalls_again {c : Call} (h : c ∈ calls) :
    ofCalls config (calls ++ [c]) = ofCalls config calls := by
  have hnone : ((([c].flatMap Call.candidates).filter config.admits).removeAll
      ((calls.flatMap Call.candidates).filter config.admits)) = [] := by
    rw [List.removeAll, List.filter_eq_nil_iff]
    intro term hterm
    obtain ⟨hoffered, hadmits⟩ := List.mem_filter.mp hterm
    rw [List.flatMap_singleton] at hoffered
    simp [List.mem_filter.mpr ⟨List.mem_flatMap.mpr ⟨c, h, hoffered⟩, hadmits⟩]
  have hterms : (ofCalls config (calls ++ [c])).terms = (ofCalls config calls).terms := by
    rw [terms_ofCalls_append, hnone, List.eraseDups_nil, List.append_nil]
  calc
    ofCalls config (calls ++ [c]) = ⟨config, (ofCalls config (calls ++ [c])).terms⟩ := ofCalls_eq_mk
    _ = ⟨config, (ofCalls config calls).terms⟩ := by rw [hterms]
    _ = ofCalls config calls := ofCalls_eq_mk.symm

end

/-- After any calls on a new query its terms are the candidates that the calls offer, in order,
without those that are common or short, and each only where it comes first. -/
theorem terms_are_first_candidates (config : QueryConfig) :
    (∀ calls,
      (ofCalls config calls).terms =
        ((calls.flatMap Call.candidates).filter config.admits).eraseDups ∧
      (∀ more, (ofCalls config calls).terms <+: (ofCalls config (calls ++ more)).terms) ∧
      (∀ c ∈ calls, ofCalls config (calls ++ [c]) = ofCalls config calls) ∧
      (∀ calls', calls.Perm calls' → ∀ term,
        term ∈ (ofCalls config calls).terms ↔ term ∈ (ofCalls config calls').terms) ∧
      ((ofCalls config calls).url? = none ↔
        ∀ term ∈ calls.flatMap Call.candidates, config.admits term = false)) ∧
    (∀ term, config.admits term = true ↔
      (∀ common ∈ config.commonTerms,
        common.toList.map Char.toLower ≠ term.toList.map Char.toLower) ∧
      config.minimumTermLength ≤ (Text.bytes term).length) ∧
    (∀ (c : Call) texts, c.Offers texts ↔ texts = c.candidates) ∧
    ∀ (q : Query) (id : ContentId), id.valid = false → q.addContentId id = q := by
  refine ⟨fun calls => ⟨terms_ofCalls, fun more => ?_, fun c hc => ofCalls_again hc, ?_, ?_⟩,
    fun term => QueryConfig.admits_iff, fun c texts => Call.offers_iff,
    fun q id => q.addContentId_of_not_valid⟩
  · rw [terms_ofCalls_append]
    exact List.prefix_append _ _
  · intro calls' hperm term
    rw [mem_terms_ofCalls, mem_terms_ofCalls, (hperm.flatMap_right Call.candidates).mem_iff]
  · rw [url?_eq_none_iff, List.eq_nil_iff_forall_not_mem]
    simp only [mem_terms_ofCalls, not_and, Bool.not_eq_true]

/-- An id and a part of it, offered again and in another order, with a common term in another letter
case and with an invalid id. -/
theorem terms_of_repeated_id :
    let config : QueryConfig := ⟨"https://search.example", ["JGIT"], 0⟩
    let jgit : Call := .contentId ⟨some "org.jgit", "jgit-é", true⟩
    let calls := [jgit, .term "org", .term "Org"]
    let turned := [.term "Org", .term "org", jgit]
    ContentId.valid ⟨none, "library", false⟩ = false ∧
      (empty config).addContentId ⟨none, "library", false⟩ = empty config ∧
      (ofCalls config calls).terms = ["org.jgit", "jgit-é", "", "org", "Org"] ∧
      jgit ∈ calls ∧ ofCalls config (calls ++ [jgit]) = ofCalls config calls ∧
      calls.Perm turned ∧
      ∀ term, term ∈ (ofCalls config calls).terms ↔ term ∈ (ofCalls config turned).terms := by
  intro config jgit calls turned
  obtain ⟨hcalls, -, -, hinvalid⟩ := terms_are_first_candidates config
  obtain ⟨hterms, -, hagain, hturned, -⟩ := hcalls calls
  have hperm : calls.Perm turned := calls.reverse_perm.symm
  refine ⟨rfl, hinvalid _ _ rfl, ?_, List.mem_cons_self, hagain _ List.mem_cons_self, hperm,
    hturned _ hperm⟩
  rw [hterms]
  decide +kernel

end Query

end LicenseExpr.Search
