import LicenseExpr.CommandLine.Execution
import LicenseExpr.Proofs.Batch
import LicenseExpr.Proofs.CommandLine.Arguments

/-!
# What the program does

A bad value in the environment stops the program at once, whatever the arguments replace. Otherwise
each setting has one source, the texts have one, and the batch writes what can be read; only its
status tells of the rest (`command_line_outcome`).
-/

namespace LicenseExpr

/-! ## Settings from the environment -/

inductive Variable where
  | level
  | dialect
  | maxDepth
  deriving DecidableEq

namespace Variable

/-- In the order in which they are looked at. -/
def all : List Variable := [level, dialect, maxDepth]

def name : Variable → String
  | level => "SPDX_EXPR_LOG_LEVEL"
  | dialect => "SPDX_EXPR_DIALECT"
  | maxDepth => "SPDX_EXPR_MAX_DEPTH"

def error? (v : Variable) (value : String) : Option SettingsError :=
  match v with
  | level => if (Level.ofName? value).isSome then none else some (.unknownLevel value)
  | dialect =>
    match Dialect.ofName value with
    | .ok _ => none
    | .error error => some (.unknownDialect error)
  | maxDepth =>
    match Size.ofText value with
    | .ok _ => none
    | .error _ => some (.invalidMaxDepth value)

/-- The text in an environment, if the variable is set and Unicode. -/
def text? (v : Variable) (environment : Environment) : Option String := (environment v.name).toOption

def errorIn? (v : Variable) (environment : Environment) : Option SettingsError :=
  (v.text? environment).bind v.error?

end Variable

def firstError? (environment : Environment) : Option SettingsError :=
  Variable.all.findSome? (·.errorIn? environment)

namespace Settings

variable {α : Type} {environment : Environment}

/-- Each setting is the one given, else the one in the environment, else the default. -/
def chosen (given : Overrides) (environment : Environment) : Settings where
  level := (given.level <|> (Variable.level.text? environment).bind Level.ofName?).getD .warn
  dialect :=
    (given.dialect <|> (Variable.dialect.text? environment).bind fun value =>
      (Dialect.ofName value).toOption).getD .lenient
  maxDepth :=
    (given.maxDepth <|> (Variable.maxDepth.text? environment).bind fun value =>
      (Size.ofText value).toOption).getD 256
  format := given.format.getD .tree

/-- How a variable is read: to an error or to a value. -/
def ReadBy (read : String → Except SettingsError α) (v : Variable) (value? : String → Option α) : Prop :=
  ∀ text, (∃ error, v.error? text = some error ∧ read text = .error error) ∨
    ∃ a, v.error? text = none ∧ value? text = some a ∧ read text = .ok a

theorem readBy_level : ReadBy readLevel .level Level.ofName? := by
  intro text
  cases h : Level.ofName? text with
  | none => exact .inl ⟨.unknownLevel text, by rw [Variable.error?, h]; rfl, by rw [readLevel, h]⟩
  | some level => exact .inr ⟨level, by rw [Variable.error?, h]; rfl, rfl, by rw [readLevel, h]⟩

theorem readBy_dialect : ReadBy readDialect .dialect fun value => (Dialect.ofName value).toOption := by
  intro text
  cases h : Dialect.ofName text with
  | error error => exact .inl ⟨.unknownDialect error, by rw [Variable.error?, h], by rw [readDialect, h]; rfl⟩
  | ok dialect =>
    have hvalue : (Dialect.ofName text).toOption = some dialect := by rw [h]; rfl
    exact .inr ⟨dialect, by rw [Variable.error?, h], hvalue, by rw [readDialect, h]; rfl⟩

theorem readBy_maxDepth : ReadBy readMaxDepth .maxDepth fun value => (Size.ofText value).toOption := by
  intro text
  cases h : Size.ofText text with
  | error error => exact .inl ⟨.invalidMaxDepth text, by rw [Variable.error?, h], by rw [readMaxDepth, h]; rfl⟩
  | ok n =>
    have hvalue : (Size.ofText text).toOption = some n := by rw [h]; rfl
    exact .inr ⟨n, by rw [Variable.error?, h], hvalue, by rw [readMaxDepth, h]; rfl⟩

theorem setting_eq {read : String → Except SettingsError α} {v : Variable} {value? : String → Option α}
    (h : ReadBy read v value?) (environment : Environment) (default : α) :
    setting (fun key => (environment key).toOption) v.name read default =
      match v.errorIn? environment with
      | some error => .error error
      | none => .ok (((v.text? environment).bind value?).getD default) := by
  have htext : (environment v.name).toOption = v.text? environment := rfl
  unfold setting Variable.errorIn?
  dsimp only
  rw [htext]
  cases v.text? environment with
  | none => rfl
  | some text =>
    rcases h text with ⟨error, herror, hread⟩ | ⟨a, herror, hvalue, hread⟩
    · simp [herror, hread]
    · simp [herror, hvalue, hread]

theorem ofEnvironment_eq (environment : Environment) :
    ofEnvironment environment =
      match firstError? environment with
      | some error => .error error
      | none => .ok (chosen .empty environment) := by
  have hlevel := setting_eq readBy_level environment standard.level
  have hdialect := setting_eq readBy_dialect environment standard.dialect
  have hmaxDepth := setting_eq readBy_maxDepth environment standard.maxDepth
  simp only [Variable.name] at hlevel hdialect hmaxDepth
  rw [ofEnvironment, ofLookup, hlevel, hdialect, hmaxDepth, firstError?, Variable.all]
  cases hl : Variable.level.errorIn? environment with
  | some error => simp [List.findSome?, hl, bind, Except.bind]
  | none =>
    cases hd : Variable.dialect.errorIn? environment with
    | some error => simp [List.findSome?, hl, hd, bind, Except.bind]
    | none =>
      cases hm : Variable.maxDepth.errorIn? environment with
      | some error => simp [List.findSome?, hl, hd, hm, bind, Except.bind]
      | none =>
        simp only [List.findSome?, hl, hd, hm]
        rfl

theorem override_chosen (given : Overrides) (environment : Environment) :
    (chosen .empty environment).override given = chosen given environment := by
  obtain ⟨level, dialect, maxDepth, format⟩ := given
  cases level <;> cases dialect <;> cases maxDepth <;> cases format <;> rfl

theorem chosen_level {environment' : Environment} (given : Overrides) (level : Option Level)
    (h : ∀ v ≠ Variable.level, environment' v.name = environment v.name) :
    chosen { given with level } environment' =
      { chosen given environment with level := (chosen { given with level } environment').level } := by
  simp only [chosen, Variable.text?, h .dialect nofun, h .maxDepth nofun]

end Settings

namespace CommandLine

variable {arguments texts : List String} {given : Overrides} {environment : Environment}

/-! ## What is to be read -/

theorem plan_of_error {error : SettingsError} (h : parse arguments = .ok (.read given texts))
    (herror : firstError? environment = some error) :
    plan arguments environment = .stop ⟨2, #[], [(LogLine.badSettings error).render]⟩ := by
  simp only [plan, h, Settings.ofEnvironment_eq, herror]
  rfl

theorem plan_of_no_error (h : parse arguments = .ok (.read given texts))
    (herror : firstError? environment = none) :
    plan arguments environment = .read (Settings.chosen given environment) texts := by
  simp only [plan, h, Settings.ofEnvironment_eq, herror, Settings.override_chosen]

/-- What else the environment holds plays no part. -/
theorem plan_congr {environment' : Environment}
    (h : ∀ v : Variable, v.text? environment = v.text? environment') (arguments : List String) :
    plan arguments environment = plan arguments environment' := by
  have hsettings : Settings.ofEnvironment environment = Settings.ofEnvironment environment' := by
    simp only [Settings.ofEnvironment_eq, firstError?, Variable.errorIn?, Settings.chosen, h]
  simp only [plan, hsettings]

/-- The texts given, or the lines of the input that are not blank if none are. -/
def inputs? (texts : List String) (input : List UInt8) : Option (List String) :=
  if texts = [] then
    (Text.ofBytes? input).map fun text =>
      ((Batch.lines text).filter fun line => !line.all Text.isBlank).map String.ofList
  else some texts

theorem execute_read (settings : Settings) (texts : List String) (input : List UInt8) :
    (Plan.read settings texts).execute input =
      match inputs? texts input with
      | none => ⟨1, #[], LogLine.shown settings.level [.ofResult (.error (.stream .notUtf8))]⟩
      | some inputs => executeBatch settings inputs := by
  cases texts with
  | nil =>
    cases htext : Text.ofBytes? input <;> simp [Plan.execute, inputs?, Batch.readInputs_eq, htext]
  | cons text texts => rfl

/-! ## What is written -/

theorem executeBatch_completes (settings : Settings) (texts : List String) :
    (executeBatch settings texts).stdout.toList = settings.output texts ∧
      (executeBatch settings texts).status = if texts.all settings.accepts then 0 else 1 := by
  obtain ⟨htaken, -, hresult⟩ : Batch.Completes settings texts (Batch.run settings texts .unbounded) :=
    Batch.completes_of_fits rfl (Sink.fits_unbounded _)
  refine ⟨htaken, ?_⟩
  have hcount : 0 < texts.countP (fun text => !settings.accepts text) ↔ ¬ texts.all settings.accepts = true := by
    simp [List.countP_pos_iff]
  rw [executeBatch, hresult, status]
  simp only [gt_iff_lt, hcount, ite_not]

theorem execute_read_level (settings : Settings) (level : Level) (texts : List String) (input : List UInt8) :
    ((Plan.read { settings with level } texts).execute input).stdout =
        ((Plan.read settings texts).execute input).stdout ∧
      ((Plan.read { settings with level } texts).execute input).status =
        ((Plan.read settings texts).execute input).status := by
  rw [execute_read, execute_read]
  cases inputs? texts input with
  | none => exact ⟨rfl, rfl⟩
  | some inputs =>
    obtain ⟨hstdout, hstatus⟩ := executeBatch_completes { settings with level } inputs
    obtain ⟨hstdout', hstatus'⟩ := executeBatch_completes settings inputs
    exact ⟨Array.toList_inj.mp (hstdout.trans hstdout'.symm), hstatus.trans hstatus'.symm⟩

/-- What the program writes, and its status, when arguments are accepted. -/
theorem command_line_outcome (h : parse arguments = .ok (.read given texts)) (environment : Environment)
    (input : List UInt8) :
    let execution := (plan arguments environment).execute input
    let settings := Settings.chosen given environment
    (∃ options, Carries none arguments options texts ∧ (options.map Prod.fst).Nodup ∧
      given = valuesOf options) ∧
    (∀ error, firstError? environment = some error →
      execution.status = 2 ∧ execution.stdout = #[] ∧
        execution.stderr = [(LogLine.badSettings error).render]) ∧
    (firstError? environment = none →
      (inputs? texts input = none → execution.status = 1 ∧ execution.stdout = #[]) ∧
      (∀ inputs, inputs? texts input = some inputs →
        execution.stdout.toList = settings.output inputs ∧
          execution.status = if inputs.all settings.accepts then 0 else 1) ∧
      ∀ level arguments' environment',
        parse arguments' = .ok (.read { given with level } texts) → firstError? environment' = none →
          (∀ v ≠ Variable.level, environment' v.name = environment v.name) →
            ((plan arguments' environment').execute input).stdout = execution.stdout ∧
              ((plan arguments' environment').execute input).status = execution.status) := by
  intro execution settings
  obtain ⟨options, hcarries, hnodup, -, hgiven⟩ := parse_eq_read_iff.mp h
  refine ⟨⟨options, hcarries, hnodup, hgiven⟩, fun error herror => ?_, fun herror => ?_⟩
  · rw [show execution = _ from congrArg (Plan.execute input) (plan_of_error h herror)]
    exact ⟨rfl, rfl, rfl⟩
  have hexecution : execution = (Plan.read settings texts).execute input :=
    congrArg (Plan.execute input) (plan_of_no_error h herror)
  refine ⟨fun hinputs => ?_, fun inputs hinputs => ?_, fun level arguments' environment' h' herror' hsame => ?_⟩
  · rw [hexecution, execute_read, hinputs]
    exact ⟨rfl, rfl⟩
  · rw [hexecution, execute_read, hinputs]
    exact executeBatch_completes settings inputs
  · have hsettings := Settings.chosen_level given level hsame
    rw [hexecution, plan_of_no_error h' herror', hsettings]
    exact execute_read_level settings _ texts input

/-- An option does not make up for a bad value in the environment. Where there is none, the option counts
and not the good value; to show more of the log changes nothing. -/
theorem strict_option_outcome :
    let arguments := ["--dialect=strict", "MIT", "--max-depth", "1", "((A))"]
    let bad := Environment.ofList
      [("SPDX_EXPR_DIALECT", .ok "lax"), ("SPDX_EXPR_MAX_DEPTH", .ok "-1")]
    let good := Environment.ofList [("SPDX_EXPR_DIALECT", .ok "spdx")]
    ((plan arguments bad).execute []).status = 2 ∧ ((plan arguments bad).execute []).stdout = #[] ∧
      ((plan arguments good).execute []).stdout.toList = Text.bytes "identifier MIT\n" ∧
      ((plan arguments good).execute []).status = 1 ∧
      ((plan ("--log-level=debug" :: arguments) good).execute []).status = 1 := by
  intro arguments bad good
  have h : parse arguments = .ok (.read ⟨none, some .strict, some 1, none⟩ ["MIT", "((A))"]) := by rfl
  have hlevel : parse ("--log-level=debug" :: arguments) =
      .ok (.read ⟨some .debug, some .strict, some 1, none⟩ ["MIT", "((A))"]) := by rfl
  obtain ⟨-, hbad, -⟩ := command_line_outcome h bad []
  obtain ⟨-, -, hgood⟩ := command_line_outcome h good []
  obtain ⟨hstatus, hstdout, -⟩ := hbad (.unknownDialect ⟨"lax"⟩) (by decide +kernel)
  obtain ⟨-, hread, hsame⟩ := hgood (by decide +kernel)
  obtain ⟨hwritten, hfailed⟩ := hread ["MIT", "((A))"] rfl
  obtain ⟨-, hlog⟩ :=
    hsame (some .debug) ("--log-level=debug" :: arguments) good hlevel (by decide +kernel) fun _ _ => rfl
  have houtput : (Settings.chosen ⟨none, some .strict, some 1, none⟩ good).output ["MIT", "((A))"] =
      Text.bytes "identifier MIT\n" := by decide +kernel
  have hnotAll : ["MIT", "((A))"].all (Settings.chosen ⟨none, some .strict, some 1, none⟩ good).accepts =
      false := by decide +kernel
  rw [houtput] at hwritten
  rw [hnotAll] at hfailed
  exact ⟨hstatus, hstdout, hwritten, hfailed, hlog.trans hfailed⟩

/-- A dialect that is not Unicode is passed over, and a limit of 0 is taken, though the message about a
limit asks for a positive one. -/
theorem bad_values_pass :
    let notUnicode := Environment.ofList [("SPDX_EXPR_DIALECT", .error .notUnicode)]
    let zero := Environment.ofList [("SPDX_EXPR_MAX_DEPTH", .ok "0")]
    ((plan ["MIT"] notUnicode).execute []).status = 0 ∧
      ((plan ["MIT"] notUnicode).execute []).stdout.toList = Text.bytes "identifier MIT\n" ∧
      ((plan ["MIT"] zero).execute []).status = 0 ∧
      ((plan ["MIT"] zero).execute []).stdout.toList = Text.bytes "identifier MIT\n" ∧
      (SettingsError.invalidMaxDepth "0").message =
        "invalid max depth '0', expected a positive integer" := by
  intro notUnicode zero
  have h : parse ["MIT"] = .ok (.read .empty ["MIT"]) := by rfl
  have hnotUnicode : plan ["MIT"] notUnicode = plan ["MIT"] (Environment.ofList []) :=
    plan_congr (fun v => by cases v <;> rfl) ["MIT"]
  have hwritten (environment : Environment) (herror : firstError? environment = none)
      (houtput : (Settings.chosen .empty environment).output ["MIT"] = Text.bytes "identifier MIT\n")
      (haccepts : ["MIT"].all (Settings.chosen .empty environment).accepts = true) :
      ((plan ["MIT"] environment).execute []).status = 0 ∧
        ((plan ["MIT"] environment).execute []).stdout.toList = Text.bytes "identifier MIT\n" := by
    obtain ⟨hstdout, hstatus⟩ := executeBatch_completes (Settings.chosen .empty environment) ["MIT"]
    rw [plan_of_no_error h herror]
    exact ⟨by rwa [haccepts] at hstatus, hstdout.trans houtput⟩
  obtain ⟨hstatus, hstdout⟩ :=
    hwritten (Environment.ofList []) (by decide +kernel) (by decide +kernel) (by decide +kernel)
  obtain ⟨hstatus', hstdout'⟩ :=
    hwritten zero (by decide +kernel) (by decide +kernel) (by decide +kernel)
  rw [hnotUnicode]
  exact ⟨hstatus, hstdout, hstatus', hstdout', rfl⟩

end CommandLine

end LicenseExpr
