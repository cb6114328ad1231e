import LicenseExpr.CommandLine.Arguments
import LicenseExpr.Proofs.Except
import Mathlib.Data.List.Induction
import Mathlib.Data.List.Nodup

/-!
# Which arguments are accepted

Arguments carry options with their values and, beside them, texts. They are accepted if no option is
given twice and every option has its value; the texts are to be read in their order
(`parse_eq_read_iff`).
-/

namespace LicenseExpr

namespace Settings

variable {text : String}

theorem readLevel_eq_ok_iff {level : Level} : readLevel text = .ok level ↔ Level.ofName? text = some level := by
  unfold readLevel
  cases Level.ofName? text <;> simp

theorem readFormat_eq_ok_iff {format : Format} :
    readFormat text = .ok format ↔ Format.ofName? text = some format := by
  unfold readFormat
  cases Format.ofName? text <;> simp

end Settings

namespace CommandLine

/-! ## Options with their values -/

namespace ValueOption

variable {option : ValueOption} {value : String} {given given' : Overrides}

def Has (option : ValueOption) (value : String) : Prop :=
  match option with
  | dialect => ∃ d, Dialect.ofName value = .ok d
  | maxDepth => ∃ n, Size.ofText value = .ok n
  | format => ∃ f, Format.ofName? value = some f
  | logLevel => ∃ l, Level.ofName? value = some l

def put (option : ValueOption) (value : String) (given : Overrides) : Overrides :=
  match option with
  | dialect => { given with dialect := (Dialect.ofName value).toOption }
  | maxDepth => { given with maxDepth := (Size.ofText value).toOption }
  | format => { given with format := Format.ofName? value }
  | logLevel => { given with level := Level.ofName? value }

theorem ofName?_eq_some_iff {name : String} : ofName? name = some option ↔ option.name = name := by
  constructor
  · intro h
    simpa using List.find?_some h
  · rintro rfl
    cases option <;> decide

theorem read_eq_ok_iff :
    option.read value given = .ok given' ↔ option.Has value ∧ given' = option.put value given := by
  cases option <;>
    simp only [read, bind_eq_ok_iff, mapError_eq_ok_iff, Settings.readFormat_eq_ok_iff,
      Settings.readLevel_eq_ok_iff, Has, put]
  all_goals
    constructor
    · rintro ⟨v, hv, ⟨⟩⟩
      exact ⟨⟨v, hv⟩, by rw [hv]; first | done | rfl⟩
    · rintro ⟨⟨v, hv⟩, rfl⟩
      exact ⟨v, hv, by rw [hv]; rfl⟩

theorem accept_eq_ok_iff :
    option.accept value given = .ok given' ↔
      option.isGiven given = false ∧ option.Has value ∧ given' = option.put value given := by
  rw [← read_eq_ok_iff, accept]
  cases option.isGiven given with
  | true => simp
  | false => simp [mapError_eq_ok_iff]

end ValueOption

/-- The settings that options give, each by the first value given for it. -/
def valuesOf (options : List (ValueOption × String)) : Overrides where
  level := (options.lookup .logLevel).bind Level.ofName?
  dialect := (options.lookup .dialect).bind fun value => (Dialect.ofName value).toOption
  maxDepth := (options.lookup .maxDepth).bind fun value => (Size.ofText value).toOption
  format := (options.lookup .format).bind Format.ofName?

def takeAll (options : List (ValueOption × String)) (given : Overrides) : Except UsageError Overrides :=
  options.foldlM (fun given (option, value) => option.accept value given) given

theorem takeAll_append (front back : List (ValueOption × String)) (given : Overrides) :
    takeAll (front ++ back) given = takeAll front given >>= takeAll back :=
  List.foldlM_append

theorem takeAll_cons (option : ValueOption) (value : String) (options : List (ValueOption × String))
    (given : Overrides) :
    takeAll ((option, value) :: options) given = option.accept value given >>= takeAll options :=
  List.foldlM_cons

theorem takeAll_singleton (option : ValueOption) (value : String) (given : Overrides) :
    takeAll [(option, value)] given = option.accept value given :=
  bind_pure _

theorem lookup_eq_none_iff_notMem {options : List (ValueOption × String)} {option : ValueOption} :
    options.lookup option = none ↔ option ∉ options.map Prod.fst := by
  simp only [List.lookup_eq_none_iff, bne_iff_ne, List.mem_map, not_exists, not_and, ne_comm]

theorem lookup_concat {options : List (ValueOption × String)} {option : ValueOption}
    (h : option ∉ options.map Prod.fst) (value : String) (other : ValueOption) :
    (options ++ [(option, value)]).lookup other =
      if other = option then some value else options.lookup other := by
  rw [List.lookup_append]
  by_cases heq : other = option
  · subst heq
    rw [lookup_eq_none_iff_notMem.mpr h, Option.none_or, List.lookup_cons_self, if_pos rfl]
  · have hlast : [(option, value)].lookup other = none := lookup_eq_none_iff_notMem.mpr (by simpa using heq)
    rw [hlast, Option.or_none, if_neg heq]

theorem valuesOf_concat {option : ValueOption} {options : List (ValueOption × String)}
    (h : option ∉ options.map Prod.fst) (value : String) :
    valuesOf (options ++ [(option, value)]) = option.put value (valuesOf options) := by
  cases option <;> simp [valuesOf, ValueOption.put, lookup_concat h]

theorem isGiven_valuesOf {options : List (ValueOption × String)}
    (h : ∀ option value, (option, value) ∈ options → option.Has value) (option : ValueOption) :
    option.isGiven (valuesOf options) = false ↔ option ∉ options.map Prod.fst := by
  rw [← lookup_eq_none_iff_notMem]
  cases hlookup : options.lookup option with
  | none => cases option <;> simp [ValueOption.isGiven, valuesOf, hlookup]
  | some value =>
    have hmem : (option, value) ∈ options := by
      obtain ⟨front, back, rfl, -⟩ := List.lookup_eq_some_iff.mp hlookup
      exact List.mem_append_right _ List.mem_cons_self
    have hhas := h option value hmem
    cases option <;> obtain ⟨v, hv⟩ := hhas <;>
      simp [ValueOption.isGiven, valuesOf, hlookup, hv, Except.toOption]

/-- Options are taken exactly if none is given twice and each has its value. -/
theorem takeAll_empty_eq_ok_iff {options : List (ValueOption × String)} {given : Overrides} :
    takeAll options .empty = .ok given ↔
      (options.map Prod.fst).Nodup ∧ (∀ option value, (option, value) ∈ options → option.Has value) ∧
        given = valuesOf options := by
  induction options using List.reverseRecOn generalizing given with
  | nil =>
    have hnil : takeAll [] .empty = .ok (valuesOf []) := rfl
    simp [hnil, eq_comm]
  | append_singleton options last ih =>
    obtain ⟨option, value⟩ := last
    have hlast : (∀ o v, (o, v) ∈ options ++ [(option, value)] → o.Has v) ↔
        (∀ o v, (o, v) ∈ options → o.Has v) ∧ option.Has value := by
      simp [or_imp, forall_and]
    rw [hlast, List.map_append, List.nodup_append_comm, List.map_singleton, List.singleton_append,
      List.nodup_cons]
    simp only [takeAll_append, takeAll_singleton, bind_eq_ok_iff, ValueOption.accept_eq_ok_iff, ih]
    constructor
    · rintro ⟨_, ⟨hnodup, hall, rfl⟩, hgiven, hhas, rfl⟩
      have hnew := (isGiven_valuesOf hall option).mp hgiven
      exact ⟨⟨hnew, hnodup⟩, ⟨hall, hhas⟩, (valuesOf_concat hnew value).symm⟩
    · rintro ⟨⟨hnew, hnodup⟩, ⟨hall, hhas⟩, rfl⟩
      exact ⟨_, ⟨hnodup, hall, rfl⟩, (isGiven_valuesOf hall option).mpr hnew, hhas,
        valuesOf_concat hnew value⟩

/-! ## What arguments carry -/

/-- The arguments carry these options and texts; an option named before them may wait for its value.
A value is never taken for an option, so that only a text may stand behind the name. -/
inductive Carries : Option ValueOption → List String → List (ValueOption × String) → List String → Prop where
  | nil : Carries none [] [] []
  | separator {argument : String} {rest : List String} :
    Argument.ofText argument = .separator → Carries none (argument :: rest) [] rest
  | text {argument text : String} {rest texts : List String} {options : List (ValueOption × String)} :
    Argument.ofText argument = .text text → Carries none rest options texts →
      Carries none (argument :: rest) options (text :: texts)
  | joined {argument value : String} {option : ValueOption} {rest texts : List String}
      {options : List (ValueOption × String)} :
    Argument.ofText argument = .long option.name (some value) → Carries none rest options texts →
      Carries none (argument :: rest) ((option, value) :: options) texts
  | apart {argument : String} {option : ValueOption} {rest texts : List String}
      {options : List (ValueOption × String)} :
    Argument.ofText argument = .long option.name none → Carries (some option) rest options texts →
      Carries none (argument :: rest) options texts
  | value {argument value : String} {option : ValueOption} {rest texts : List String}
      {options : List (ValueOption × String)} :
    Argument.ofText argument = .text value → Carries none rest options texts →
      Carries (some option) (argument :: rest) ((option, value) :: options) texts

namespace Partial

variable {p q : Partial}

/-- The option whose value has not been seen. -/
def awaits (p : Partial) : Option ValueOption :=
  match p.pending with
  | some (option, none) => some option
  | _ => none

/-- The option whose value has been seen but not read. -/
def owed (p : Partial) : List (ValueOption × String) :=
  match p.pending with
  | some (option, some value) => [(option, value)]
  | _ => []

theorem awaits_eq_some_iff {option : ValueOption} :
    p.awaits = some option ↔ p.pending = some (option, none) := by
  unfold awaits
  rcases p.pending with _ | ⟨other, _ | value⟩ <;> simp

theorem settle_eq_ok_iff :
    p.settle = .ok q ↔
      p.awaits = none ∧ ∃ given, takeAll p.owed p.given = .ok given ∧ q = ⟨given, p.texts, none⟩ := by
  obtain ⟨given, texts, pending⟩ := p
  unfold settle awaits owed
  cases pending with
  | none => simp [takeAll, pure, Except.pure, eq_comm]
  | some pending =>
    obtain ⟨option, value⟩ := pending
    cases value with
    | none => simp
    | some value => simp [takeAll_singleton, bind_eq_ok_iff, pure, Except.pure, @eq_comm _ q]

theorem settle_of_take {given : Overrides} (hawaits : p.awaits = none)
    (htake : takeAll p.owed p.given = .ok given) : p.settle = .ok ⟨given, p.texts, none⟩ :=
  settle_eq_ok_iff.mpr ⟨hawaits, given, htake, rfl⟩

theorem takeAll_owed_append {given : Overrides} (h : takeAll p.owed p.given = .ok given)
    (options : List (ValueOption × String)) :
    takeAll (p.owed ++ options) p.given = takeAll options given := by
  rw [takeAll_append, h]
  rfl

theorem addText_eq_ok_iff {text : String} :
    p.addText text = .ok q ↔
      (∃ option, p.pending = some (option, none) ∧ q = { p with pending := some (option, some text) }) ∨
        ∃ settled, p.settle = .ok settled ∧ q = { settled with texts := text :: settled.texts } := by
  obtain ⟨given, texts, pending⟩ := p
  rcases pending with _ | ⟨option, _ | value⟩
  · simp [addText, settle, bind, Except.bind, pure, Except.pure, eq_comm]
  · simp [addText, settle, eq_comm]
  · simp [addText, bind_eq_ok_iff, pure, Except.pure, @eq_comm _ q]

theorem addOption_none_eq_ok_iff {option : ValueOption} :
    p.addOption option none = .ok q ↔
      ∃ settled, p.settle = .ok settled ∧ q = { settled with pending := some (option, none) } := by
  simp [addOption, bind_eq_ok_iff, pure, Except.pure, @eq_comm _ q]

theorem addOption_some_eq_ok_iff {option : ValueOption} {value : String} :
    p.addOption option (some value) = .ok q ↔
      ∃ settled, p.settle = .ok settled ∧
        ∃ given, option.accept value settled.given = .ok given ∧ q = { settled with given } := by
  simp [addOption, bind_eq_ok_iff, pure, Except.pure, @eq_comm _ q]

theorem eq_of_flag_eq_ok {name : String} {value : Option String} {request request' : Request}
    (h : p.flag name value request = .ok request') : request' = request := by
  unfold flag at h
  cases value with
  | some value => cases h
  | none =>
    cases hsettle : p.settle with
    | error error => simp [hsettle, Except.map] at h
    | ok settled =>
      rw [hsettle] at h
      cases h
      rfl

end Partial

/-! ## Reading arguments -/

variable {p : Partial} {argument : String} {rest texts : List String} {given : Overrides}

theorem parseFrom_option {option : ValueOption} {value : Option String}
    (h : Argument.ofText argument = .long option.name value) :
    parseFrom p (argument :: rest) = p.addOption option value >>= fun p => parseFrom p rest := by
  cases option <;> simp [parseFrom, h, ValueOption.name, ValueOption.ofName?]

/-- Flags and unknown options leave nothing to read. -/
theorem kind_of_parseFrom (h : parseFrom p (argument :: rest) = .ok (.read given texts)) :
    Argument.ofText argument = .separator ∨ (∃ text, Argument.ofText argument = .text text) ∨
      ∃ option value, Argument.ofText argument = .long (ValueOption.name option) value := by
  rw [parseFrom] at h
  split at h
  case h_1 hkind => exact .inl hkind
  case h_4 name value _ _ hkind =>
    cases hoption : ValueOption.ofName? name with
    | none => simp [hoption] at h
    | some option =>
      obtain rfl := ValueOption.ofName?_eq_some_iff.mp hoption
      exact .inr (.inr ⟨option, value, hkind⟩)
  case h_7 => cases h
  case h_8 text hkind => exact .inr (.inl ⟨text, hkind⟩)
  all_goals exact nomatch Partial.eq_of_flag_eq_ok h

theorem parseFrom_nil (p : Partial) :
    parseFrom p [] = p.settle >>= fun p => .ok (.read p.given p.texts.reverse) := by
  rw [parseFrom]
  rfl

theorem parseFrom_separator (h : Argument.ofText argument = .separator) :
    parseFrom p (argument :: rest) = p.settle >>= fun p => .ok (.read p.given (p.texts.reverse ++ rest)) := by
  rw [parseFrom, h]
  rfl

theorem parseFrom_text {text : String} (h : Argument.ofText argument = .text text) :
    parseFrom p (argument :: rest) = p.addText text >>= fun p => parseFrom p rest := by
  rw [parseFrom, h]

/-- What is accepted from here on: options that can be taken behind the one whose value has been seen,
and texts behind those seen. -/
theorem exists_carries_of_parseFrom (arguments : List String)
    (h : parseFrom p arguments = .ok (.read given texts)) :
    ∃ options behind, Carries p.awaits arguments options behind ∧
      takeAll (p.owed ++ options) p.given = .ok given ∧ p.texts.reverse ++ behind = texts := by
  -- An option may be named by one argument and get its value from the next, so `p` is any state.
  induction arguments generalizing p with
  | nil =>
    rw [parseFrom_nil, bind_eq_ok_iff] at h
    obtain ⟨settled, hsettle, ⟨⟩⟩ := h
    obtain ⟨hawaits, given, htake, rfl⟩ := Partial.settle_eq_ok_iff.mp hsettle
    exact ⟨[], [], hawaits ▸ .nil, by rwa [List.append_nil], List.append_nil _⟩
  | cons argument rest ih =>
    rcases kind_of_parseFrom h with hkind | ⟨text, hkind⟩ | ⟨option, value, hkind⟩
    · rw [parseFrom_separator hkind, bind_eq_ok_iff] at h
      obtain ⟨settled, hsettle, ⟨⟩⟩ := h
      obtain ⟨hawaits, given, htake, rfl⟩ := Partial.settle_eq_ok_iff.mp hsettle
      exact ⟨[], rest, hawaits ▸ .separator hkind, by rwa [List.append_nil], rfl⟩
    · rw [parseFrom_text hkind, bind_eq_ok_iff] at h
      obtain ⟨q, hadd, h⟩ := h
      obtain ⟨options, behind, hcarries, htake, htexts⟩ := ih h
      rcases Partial.addText_eq_ok_iff.mp hadd with ⟨option, hpending, rfl⟩ | ⟨settled, hsettle, rfl⟩
      · have hawaits : p.awaits = some option := by rw [Partial.awaits, hpending]
        have howed : p.owed = [] := by rw [Partial.owed, hpending]
        exact ⟨(option, text) :: options, behind, hawaits ▸ .value hkind hcarries, by rw [howed]; exact htake,
          htexts⟩
      · obtain ⟨hawaits, settled, hsettled, rfl⟩ := Partial.settle_eq_ok_iff.mp hsettle
        refine ⟨options, text :: behind, hawaits ▸ .text hkind hcarries, ?_, ?_⟩
        · exact (Partial.takeAll_owed_append hsettled options).trans htake
        · simpa using htexts
    · rw [parseFrom_option hkind, bind_eq_ok_iff] at h
      obtain ⟨q, hadd, h⟩ := h
      obtain ⟨options, behind, hcarries, htake, htexts⟩ := ih h
      cases value with
      | none =>
        obtain ⟨settled, hsettle, rfl⟩ := Partial.addOption_none_eq_ok_iff.mp hadd
        obtain ⟨hawaits, settled, hsettled, rfl⟩ := Partial.settle_eq_ok_iff.mp hsettle
        refine ⟨options, behind, hawaits ▸ .apart hkind hcarries, ?_, htexts⟩
        exact (Partial.takeAll_owed_append hsettled options).trans htake
      | some value =>
        obtain ⟨settled, hsettle, accepted, haccept, rfl⟩ := Partial.addOption_some_eq_ok_iff.mp hadd
        obtain ⟨hawaits, settled, hsettled, rfl⟩ := Partial.settle_eq_ok_iff.mp hsettle
        refine ⟨(option, value) :: options, behind, hawaits ▸ .joined hkind hcarries, ?_, htexts⟩
        rw [Partial.takeAll_owed_append hsettled, takeAll_cons, haccept]
        exact htake

theorem parseFrom_of_carries {awaited : Option ValueOption} {arguments behind : List String}
    {options : List (ValueOption × String)} (hcarries : Carries awaited arguments options behind)
    (hawaits : p.awaits = awaited) (htake : takeAll (p.owed ++ options) p.given = .ok given) :
    parseFrom p arguments = .ok (.read given (p.texts.reverse ++ behind)) := by
  induction hcarries generalizing p with
  | nil =>
    rw [List.append_nil] at htake
    rw [parseFrom_nil, p.settle_of_take hawaits htake, List.append_nil]
    rfl
  | separator hkind =>
    rw [List.append_nil] at htake
    rw [parseFrom_separator hkind, p.settle_of_take hawaits htake]
    rfl
  | @text _ text _ _ _ hkind _ ih =>
    rw [takeAll_append, bind_eq_ok_iff] at htake
    obtain ⟨settled, hsettled, hrest⟩ := htake
    have hadd : p.addText text = .ok ⟨settled, text :: p.texts, none⟩ :=
      Partial.addText_eq_ok_iff.mpr (.inr ⟨_, p.settle_of_take hawaits hsettled, rfl⟩)
    have hgo := ih (p := ⟨settled, text :: p.texts, none⟩) rfl hrest
    rw [List.reverse_cons, List.append_assoc, List.singleton_append] at hgo
    rwa [parseFrom_text hkind, hadd]
  | @joined _ value option _ _ _ hkind _ ih =>
    rw [takeAll_append, bind_eq_ok_iff] at htake
    obtain ⟨settled, hsettled, hrest⟩ := htake
    rw [takeAll_cons, bind_eq_ok_iff] at hrest
    obtain ⟨accepted, haccept, hrest⟩ := hrest
    have hadd : p.addOption option (some value) = .ok ⟨accepted, p.texts, none⟩ :=
      Partial.addOption_some_eq_ok_iff.mpr ⟨_, p.settle_of_take hawaits hsettled, _, haccept, rfl⟩
    rw [parseFrom_option hkind, hadd]
    exact ih (p := ⟨accepted, p.texts, none⟩) rfl hrest
  | @apart _ option _ _ _ hkind _ ih =>
    rw [takeAll_append, bind_eq_ok_iff] at htake
    obtain ⟨settled, hsettled, hrest⟩ := htake
    have hadd : p.addOption option none = .ok ⟨settled, p.texts, some (option, none)⟩ :=
      Partial.addOption_none_eq_ok_iff.mpr ⟨_, p.settle_of_take hawaits hsettled, rfl⟩
    rw [parseFrom_option hkind, hadd]
    exact ih (p := ⟨settled, p.texts, some (option, none)⟩) rfl hrest
  | @value _ value option _ _ _ hkind _ ih =>
    have hpending : p.pending = some (option, none) := Partial.awaits_eq_some_iff.mp hawaits
    have howed : p.owed = [] := by rw [Partial.owed, hpending]
    have hadd : p.addText value = .ok { p with pending := some (option, some value) } :=
      Partial.addText_eq_ok_iff.mpr (.inl ⟨option, hpending, rfl⟩)
    rw [howed] at htake
    rw [parseFrom_text hkind, hadd]
    exact ih (p := { p with pending := some (option, some value) }) rfl htake

/-- Arguments are accepted exactly if they carry options, each given once with a value that it has, and
these texts. -/
theorem parse_eq_read_iff {arguments : List String} :
    parse arguments = .ok (.read given texts) ↔
      ∃ options, Carries none arguments options texts ∧ (options.map Prod.fst).Nodup ∧
        (∀ option value, (option, value) ∈ options → option.Has value) ∧ given = valuesOf options := by
  rw [parse]
  constructor
  · intro h
    obtain ⟨options, behind, hcarries, htake, rfl⟩ := exists_carries_of_parseFrom arguments h
    exact ⟨options, hcarries, takeAll_empty_eq_ok_iff.mp htake⟩
  · rintro ⟨options, hcarries, hoptions⟩
    exact parseFrom_of_carries hcarries rfl (takeAll_empty_eq_ok_iff.mpr hoptions)

end CommandLine

end LicenseExpr
