import LicenseExpr.Proofs.Search.Coordinates
import LicenseExpr.Proofs.Search.Query

/-!
# The address of a query, read back

The query string of an address stands behind its first `?` and ends at a `#`. Its parameters are
separated by `&`, and the terms in the value of `short_desc` by `+`. Terms are written into the address
as they are, so a reader finds the terms of a query there exactly if no separator stands in any of them
(`address_carries_terms_iff`). Segments hold none; a whole name or namespace may.
-/

namespace LicenseExpr.Search

/-! ## Reading an address -/

/-- What stands behind the first `?`, up to any `#`. -/
def queryString (address : String) : List Char :=
  ((address.toList.dropWhile (· != '?')).drop 1).takeWhile (· != '#')

/-- The name of a parameter ends at the first `=`, and the rest is its value. -/
def readParameter (part : List Char) : String × String :=
  (.ofList (part.takeWhile (· != '=')), .ofList ((part.dropWhile (· != '=')).drop 1))

def parameters (address : String) : List (String × String) :=
  ((queryString address).splitOn '&').map readParameter

def termsIn (value : String) : List String := (value.toList.splitOn '+').map .ofList

/-- The address has the three parameters of a bug search, and these terms in the second one. -/
def Carries (address : String) (terms : List String) : Prop :=
  ∃ shortType value longType,
    parameters address =
      [("short_desc_type", shortType), ("short_desc", value), ("long_desc_type", longType)] ∧
    termsIn value = terms

/-- Ends a term, a parameter or the query string. -/
def IsSeparator (c : Char) : Prop := c = '+' ∨ c = '&' ∨ c = '#'

instance : DecidablePred IsSeparator := fun c =>
  inferInstanceAs (Decidable (c = '+' ∨ c = '&' ∨ c = '#'))

def Unseparated (text : String) : Prop := ∀ c ∈ text.toList, ¬ IsSeparator c

instance : DecidablePred Unseparated := fun text =>
  List.decidableBAll (fun c => ¬ IsSeparator c) text.toList

theorem IsWordChar.not_isSeparator {c : Char} (h : IsWordChar c) : ¬ IsSeparator c := by
  rintro (rfl | rfl | rfl) <;> revert h <;> unfold IsWordChar <;> decide

theorem PartsOf.isWordChar {cs : List Char} {parts : List String} (h : PartsOf cs parts) :
    ∀ part ∈ parts, ∀ c ∈ part.toList, IsWordChar c := by
  induction h with
  | last hpart =>
    refine List.forall_mem_singleton.mpr ?_
    rwa [String.toList_ofList]
  | cut hpart _ _ ih =>
    refine List.forall_mem_cons.mpr ⟨?_, ih⟩
    rwa [String.toList_ofList]

/-! ## Values -/

theorem mem_intercalate_iff {α : Type} {x c : α} {parts : List (List α)} (hc : c ≠ x) :
    c ∈ [x].intercalate parts ↔ ∃ part ∈ parts, c ∈ part := by
  induction parts with
  | nil => simp
  | cons part parts ih =>
    cases parts with
    | nil => simp
    | cons part' parts =>
      rw [List.intercalate_cons_cons, List.mem_append, List.mem_append, ih]
      simp [hc]

theorem termsIn_eq_iff {value : String} {terms : List String} (hne : terms ≠ []) :
    termsIn value = terms ↔
      "+".intercalate terms = value ∧ ∀ term ∈ terms, '+' ∉ term.toList := by
  have hread : String.toList ∘ String.ofList = id := funext fun _ => String.toList_ofList
  have hwritten : String.ofList ∘ String.toList = id := funext fun _ => String.ofList_toList
  rw [← String.toList_inj, String.toList_intercalate, termsIn]
  constructor
  · rintro rfl
    rw [List.map_map, hread, List.map_id]
    refine ⟨List.intercalate_splitOn '+', List.forall_mem_map.mpr fun part hpart => ?_⟩
    rw [String.toList_ofList]
    exact notMem_of_mem_splitOn hpart
  · rintro ⟨hvalue, hterms⟩
    have hsplit : (['+'].intercalate (terms.map String.toList)).splitOn '+' = terms.map String.toList :=
      List.splitOn_intercalate '+' (List.forall_mem_map.mpr hterms) (by simpa using hne)
    rw [← hvalue, show "+".toList = ['+'] from rfl, hsplit, List.map_map, hwritten, List.map_id]

theorem notMem_value {address : String} {parameter : String × String}
    (h : parameter ∈ parameters address) :
    '&' ∉ parameter.2.toList ∧ '#' ∉ parameter.2.toList := by
  obtain ⟨part, hpart, rfl⟩ := List.mem_map.mp h
  have hvalue : ∀ c ∈ (readParameter part).2.toList, c ∈ part := by
    intro c hc
    rw [readParameter, String.toList_ofList] at hc
    exact (List.dropWhile_sublist _).mem (List.mem_of_mem_drop hc)
  refine ⟨fun hmem => notMem_of_mem_splitOn hpart (hvalue _ hmem), fun hmem => ?_⟩
  have hjoin : ['&'].intercalate ((queryString address).splitOn '&') = queryString address :=
    List.intercalate_splitOn '&'
  have hquery : '#' ∈ queryString address := by
    rw [← hjoin]
    exact (mem_intercalate_iff (by decide)).mpr ⟨part, hpart, hvalue _ hmem⟩
  have hne := List.mem_takeWhile_imp hquery
  simp at hne

/-! ## The parameters of a query -/

theorem queryString_append {base : String} (hbase : '?' ∉ base.toList) (query : String) :
    queryString (base ++ "?" ++ query) = query.toList.takeWhile (· != '#') := by
  have hdrop : (base.toList ++ '?' :: query.toList).dropWhile (· != '?') = '?' :: query.toList := by
    refine dropWhile_append_of_head? (fun c hc => ?_) (by simp)
    rw [bne_iff_ne]
    rintro rfl
    exact hbase hc
  have hchars : (base ++ "?" ++ query).toList = base.toList ++ '?' :: query.toList := by simp
  rw [queryString, hchars, hdrop]
  rfl

theorem readParameter_append {name : List Char} (h : '=' ∉ name) (value : List Char) :
    readParameter (name ++ '=' :: value) = (.ofList name, .ofList value) := by
  have hname : ∀ c ∈ name, (c != '=') = true := by
    intro c hc
    rw [bne_iff_ne]
    rintro rfl
    exact h hc
  have hvalue : ∀ c ∈ ('=' :: value).head?, (c != '=') = false := by simp
  rw [readParameter, takeWhile_append_of_head? hname hvalue, dropWhile_append_of_head? hname hvalue]
  rfl

namespace Query

variable {q : Query} {address : String}

theorem url?_eq_some_iff :
    q.url? = some address ↔ q.terms ≠ [] ∧
      address = q.config.baseUrl ++ "?" ++ ("short_desc_type=anywords&short_desc=" ++
        "+".intercalate q.terms ++ "&long_desc_type=substring") := by
  have hassoc : q.config.baseUrl ++ "?" ++ ("short_desc_type=anywords&short_desc=" ++
      "+".intercalate q.terms ++ "&long_desc_type=substring") =
      q.config.baseUrl ++ "?short_desc_type=anywords&short_desc=" ++
        "+".intercalate q.terms ++ "&long_desc_type=substring" := by
    rw [← String.toList_inj]
    simp
  rw [hassoc]
  by_cases h : q.terms = [] <;> simp [url?, h, eq_comm]

/-- Where no `&` and no `#` stands in the terms, the parameters are read as they are written. -/
theorem parameters_of_url? (hbase : '?' ∉ q.config.baseUrl.toList) (h : q.url? = some address)
    (hterms : ∀ c ∈ ("+".intercalate q.terms).toList, c ≠ '&' ∧ c ≠ '#') :
    parameters address = [("short_desc_type", "anywords"),
      ("short_desc", "+".intercalate q.terms), ("long_desc_type", "substring")] := by
  obtain ⟨-, rfl⟩ := url?_eq_some_iff.mp h
  generalize "+".intercalate q.terms = joined at hterms ⊢
  have hquery : ("short_desc_type=anywords&short_desc=" ++ joined ++
      "&long_desc_type=substring").toList.takeWhile (· != '#') =
      "short_desc_type=anywords".toList ++ '&' :: ("short_desc".toList ++ '=' :: joined.toList ++
        '&' :: "long_desc_type=substring".toList) := by
    have hhash : '#' ∉ ("short_desc_type=anywords&short_desc=" ++ joined ++
        "&long_desc_type=substring").toList := by
      simp only [String.toList_append, List.mem_append, not_or]
      exact ⟨⟨by decide, fun hmem => (hterms _ hmem).2 rfl⟩, by decide⟩
    rw [List.takeWhile_eq_self_iff.mpr]
    · simp
    · intro c hc
      apply bne_iff_ne.mpr
      rintro rfl
      exact hhash hc
  have hshort : '&' ∉ "short_desc".toList ++ '=' :: joined.toList := by
    simp only [List.mem_append, List.mem_cons, not_or]
    exact ⟨by decide, by decide, fun hmem => (hterms _ hmem).1 rfl⟩
  rw [parameters, queryString_append hbase, hquery,
    List.splitOn_append_cons_self_of_not_mem (by decide), List.splitOn_append_cons_self_of_not_mem hshort,
    List.splitOn_eq_singleton (by decide), List.map_cons, List.map_cons, List.map_singleton,
    readParameter_append (by decide)]
  simp only [String.ofList_toList]
  rfl

/-- A reader finds the terms of a query in its address just if no separator stands in them. -/
theorem carries_terms_iff (hbase : '?' ∉ q.config.baseUrl.toList) (h : q.url? = some address) :
    Carries address q.terms ↔ ∀ term ∈ q.terms, Unseparated term := by
  have hne : q.terms ≠ [] := (url?_eq_some_iff.mp h).1
  constructor
  · rintro ⟨shortType, value, longType, hparameters, hvalue⟩
    obtain ⟨hjoined, hplus⟩ := (termsIn_eq_iff hne).mp hvalue
    obtain ⟨hamp, hhash⟩ := @notMem_value address ("short_desc", value) (by simp [hparameters])
    have hmem {c : Char} (hc : c ≠ '+') {term : String} (hterm : term ∈ q.terms)
        (hin : c ∈ term.toList) : c ∈ value.toList := by
      rw [← hjoined, String.toList_intercalate]
      exact (mem_intercalate_iff hc).mpr ⟨_, List.mem_map_of_mem hterm, hin⟩
    rintro term hterm c hc (rfl | rfl | rfl)
    · exact hplus term hterm hc
    · exact hamp (hmem (by decide) hterm hc)
    · exact hhash (hmem (by decide) hterm hc)
  · intro hterms
    refine ⟨_, _, _, parameters_of_url? hbase h fun c hc => ?_, ?_⟩
    · rw [String.toList_intercalate] at hc
      by_cases hplus : c = '+'
      · subst hplus
        decide
      · obtain ⟨_, hpart, hin⟩ := (mem_intercalate_iff hplus).mp hc
        obtain ⟨term, hterm, rfl⟩ := List.mem_map.mp hpart
        have hseparator := hterms term hterm c hin
        exact ⟨fun heq => hseparator (.inr (.inl heq)), fun heq => hseparator (.inr (.inr heq))⟩
    · exact (termsIn_eq_iff hne).mpr ⟨rfl, fun term hterm hmem => hterms term hterm _ hmem (.inl rfl)⟩

/-! ## The address for an id -/

def forId (id : ContentId) : Query := (empty .standard).addContentId id

theorem mem_terms_forId {id : ContentId} {term : String} :
    term ∈ (forId id).terms ↔
      term ∈ id.candidates ∧ QueryConfig.standard.admits term = true := by
  have h := @mem_terms_ofCalls .standard [.contentId id] term
  rwa [List.flatMap_singleton] at h

/-- Only the name and the namespace can bring separators into the terms. -/
theorem unseparated_terms_iff {id : ContentId} (hvalid : id.valid = true) :
    (∀ term ∈ (forId id).terms, Unseparated term) ↔
      ∀ text, (text = id.name ∨ id.nameSpace = some text) →
        QueryConfig.standard.admits text = true → Unseparated text := by
  have hcandidates : id.candidates = id.nameSpace.toList ++ [id.name] ++ segments id.name ++
      id.nameSpace.toList.flatMap segments := if_pos hvalid
  have hsegments (text : String) : ∀ part ∈ segments text, Unseparated part := fun part hpart c hc =>
    ((partsOf_iff.mpr (Eq.refl (segments text))).isWordChar part hpart c hc).not_isSeparator
  constructor
  · intro hterms text htext hadmits
    refine hterms text (mem_terms_forId.mpr ⟨?_, hadmits⟩)
    rcases htext with rfl | htext
    · simp [hcandidates]
    · simp [hcandidates, htext]
  · intro htexts term hterm
    obtain ⟨hmem, hadmits⟩ := mem_terms_forId.mp hterm
    simp only [hcandidates, List.mem_append, Option.mem_toList, List.mem_singleton,
      List.mem_flatMap] at hmem
    rcases hmem with ((hspace | rfl) | hpart) | ⟨nameSpace, -, hpart⟩
    · exact htexts term (.inr hspace) hadmits
    · exact htexts id.name (.inl rfl) hadmits
    · exact hsegments id.name term hpart
    · exact hsegments nameSpace term hpart

theorem valid_of_urlFor? {id : ContentId} (h : urlFor? id = some address) : id.valid = true := by
  refine Bool.of_not_eq_false fun hinvalid => (url?_eq_some_iff.mp h).1 ?_
  rw [addContentId_of_not_valid _ hinvalid]
  rfl

/-- The address for an id is read back as three parameters with exactly the accepted terms in the
second one, in order, if and only if neither the name nor the namespace is an accepted term with a
`+`, an `&` or a `#` in it. -/
theorem address_carries_terms_iff (id : ContentId) {address : String}
    (h : urlFor? id = some address) :
    Carries address (forId id).terms ↔
      ∀ text, (text = id.name ∨ id.nameSpace = some text) →
        QueryConfig.standard.admits text = true → Unseparated text := by
  rw [← unseparated_terms_iff (valid_of_urlFor? h)]
  have hconfig : (forId id).config = .standard := config_foldl_add _ _
  refine carries_terms_iff ?_ h
  rw [hconfig]
  decide +kernel

/-- A namespace with other marks in it, and a name with separators that is too short for a term. -/
theorem address_of_marked_nameSpace :
    let id : ContentId := ⟨some "org.apache.spark?v=2", "c++", true⟩
    let address := "https://dev.eclipse.org/ipzilla/buglist.cgi?short_desc_type=anywords" ++
      "&short_desc=org.apache.spark?v=2+spark&long_desc_type=substring"
    urlFor? id = some address ∧ (forId id).terms = ["org.apache.spark?v=2", "spark"] ∧
      QueryConfig.standard.admits "c++" = false ∧
      (∀ text, (text = id.name ∨ id.nameSpace = some text) →
        QueryConfig.standard.admits text = true → Unseparated text) ∧
      Carries address (forId id).terms := by
  intro id address
  have haddress : urlFor? id = some address := by decide +kernel
  have hshort : QueryConfig.standard.admits "c++" = false := by decide +kernel
  have htexts : ∀ text, (text = id.name ∨ id.nameSpace = some text) →
      QueryConfig.standard.admits text = true → Unseparated text := by
    rintro text (rfl | htext) hadmits
    · cases hshort.symm.trans hadmits
    · obtain rfl : "org.apache.spark?v=2" = text := Option.some.inj htext
      decide +kernel
  exact ⟨haddress, by decide +kernel, hshort, htexts, (address_carries_terms_iff id haddress).mpr htexts⟩

/-- A name with a `+` in it falls into pieces that are no terms of the query. -/
theorem address_of_name_with_plus :
    let id : ContentId := ⟨none, "libstdc++6", true⟩
    let address := "https://dev.eclipse.org/ipzilla/buglist.cgi?short_desc_type=anywords" ++
      "&short_desc=libstdc++6+libstdc&long_desc_type=substring"
    (Coordinates.ofText "deb/debian/-/libstdc++6/12.2.0").map Coordinates.contentId = .ok id ∧
      urlFor? id = some address ∧ (forId id).terms = ["libstdc++6", "libstdc"] ∧
      parameters address = [("short_desc_type", "anywords"), ("short_desc", "libstdc++6+libstdc"),
        ("long_desc_type", "substring")] ∧
      termsIn "libstdc++6+libstdc" = ["libstdc", "", "6", "libstdc"] ∧
      ¬ Carries address (forId id).terms := by
  intro id address
  have hterms : (forId id).terms = ["libstdc++6", "libstdc"] := by decide +kernel
  have hparameters : parameters address = [("short_desc_type", "anywords"),
      ("short_desc", "libstdc++6+libstdc"), ("long_desc_type", "substring")] := by decide +kernel
  have hpieces : termsIn "libstdc++6+libstdc" = ["libstdc", "", "6", "libstdc"] := by decide +kernel
  refine ⟨by decide +kernel, by decide +kernel, hterms, hparameters, hpieces, ?_⟩
  rintro ⟨shortType, value, longType, hread, hvalue⟩
  simp only [hparameters, List.cons.injEq, Prod.mk.injEq, true_and, and_true] at hread
  obtain ⟨-, rfl, -⟩ := hread
  rw [hpieces, hterms] at hvalue
  revert hvalue
  decide

end Query

end LicenseExpr.Search
