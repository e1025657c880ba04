import ScalarSolve.Proofs.Result
import ScalarSolve.Settings.Sources
import Mathlib.Logic.Unique

/-!
# Precedence among the sources of settings

A source gives values to some of the fields: it is a *layer*.  The settings that are built have in
each field the value of the first layer that gives one, the command line before the variables and
these before the file, or else the default.

The program gets there by overwriting fields one after another, and may be refused at any of these
steps.  Whether it is does not depend on what has been written before, so every update is described
by a refusal and a change that can be read off on their own, and a sequence of updates by the first
refusal and the changes in their order.
-/

namespace ScalarSolve

namespace Settings

variable {α : Type}

/-! ## Texts to be read -/

section

variable (text : Option String) (parse : String → Except SettingsError α)

/-- What a text says, if there is one and it can be read. -/
def reading? : Option α := text.bind fun t ↦ (parse t).toOption

/-- Why a text cannot be read, if there is one. -/
def misreading? : Option SettingsError := text.bind fun t ↦ refusal? (parse t)

/-- If there is a text it can be read. -/
def Readable : Prop := ∀ t, text = some t → ∃ a, parse t = .ok a

theorem misreading?_eq_none : misreading? text parse = none ↔ Readable text parse := by
  unfold misreading? Readable
  cases text with
  | none => simp
  | some t => simp [refusal?_eq_none]

end

/-! ## Layers -/

/-- The values that a source gives. -/
structure Layer where
  host : Option String
  port : Option Nat
  logLevel : Option LogLevel
  logFormat : Option LogFormat
  environment : Option Environment
  maxIterationsLimit : Option Nat
  requestTimeout : Option Nat
  shutdownTimeout : Option Nat

namespace Layer

def empty : Layer := ⟨none, none, none, none, none, none, none, none⟩

/-- The values that stand in a file. -/
def ofContents (c : Toml.Contents) : Layer where
  host := (c.top? "host").bind fileText
  port := (c.top? "port").bind (fileNumber portLimit)
  logLevel := (c.top? "log_level").bind (fileName LogLevel.ofName)
  logFormat := (c.top? "log_format").bind (fileName LogFormat.ofName)
  environment := (c.top? "environment").bind (fileName Environment.ofName)
  maxIterationsLimit := (c.top? "max_iterations_limit").bind (fileNumber wordLimit)
  requestTimeout := (c.top? "request_timeout_secs").bind (fileNumber wordLimit)
  shutdownTimeout := (c.top? "shutdown_timeout_secs").bind (fileNumber wordLimit)

def ofFile (reader : FileReader) : Option SettingsFile → Layer
  | some (.contents text) => (reader.contents? text).elim empty ofContents
  | some (.unreadable _) | none => empty

/-- The values of the environment variables that are set. -/
def ofVariables (vars : Variables) : Layer where
  host := vars "ROOTFIND_SERVER_HOST"
  port := reading? (vars "ROOTFIND_SERVER_PORT") (variableNumber "ROOTFIND_SERVER_PORT" portLimit)
  logLevel := reading? (vars "ROOTFIND_LOG_LEVEL") LogLevel.ofName
  logFormat := reading? (vars "ROOTFIND_LOG_FORMAT") LogFormat.ofName
  environment := reading? (vars "ROOTFIND_ENV") Environment.ofName
  maxIterationsLimit :=
    reading? (vars "ROOTFIND_MAX_ITERATIONS") (variableNumber "ROOTFIND_MAX_ITERATIONS" wordLimit)
  requestTimeout :=
    reading? (vars "ROOTFIND_REQUEST_TIMEOUT_SECS")
      (variableNumber "ROOTFIND_REQUEST_TIMEOUT_SECS" wordLimit)
  shutdownTimeout :=
    reading? (vars "ROOTFIND_SHUTDOWN_TIMEOUT_SECS")
      (variableNumber "ROOTFIND_SHUTDOWN_TIMEOUT_SECS" wordLimit)

/-- The values that the command line gives; there are three fields that it has no option for. -/
def ofCommandLine (cli : CommandLine) : Layer where
  host := cli.host
  port := cli.port
  logLevel := reading? cli.logLevel LogLevel.ofName
  logFormat := reading? cli.logFormat LogFormat.ofName
  environment := none
  maxIterationsLimit := cli.maxIterations
  requestTimeout := none
  shutdownTimeout := none

/-- The settings with the values of a layer in place of their own. -/
def onto (l : Layer) (s : Settings) : Settings where
  host := l.host.getD s.host
  port := l.port.getD s.port
  logLevel := l.logLevel.getD s.logLevel
  logFormat := l.logFormat.getD s.logFormat
  environment := l.environment.getD s.environment
  maxIterationsLimit := l.maxIterationsLimit.getD s.maxIterationsLimit
  requestTimeout := l.requestTimeout.getD s.requestTimeout
  shutdownTimeout := l.shutdownTimeout.getD s.shutdownTimeout

end Layer

/-- In each field the value of the first layer that gives one, or else the default. -/
def ofLayers (ls : List Layer) : Settings where
  host := (ls.findSome? Layer.host).getD default.host
  port := (ls.findSome? Layer.port).getD default.port
  logLevel := (ls.findSome? Layer.logLevel).getD default.logLevel
  logFormat := (ls.findSome? Layer.logFormat).getD default.logFormat
  environment := (ls.findSome? Layer.environment).getD default.environment
  maxIterationsLimit := (ls.findSome? Layer.maxIterationsLimit).getD default.maxIterationsLimit
  requestTimeout := (ls.findSome? Layer.requestTimeout).getD default.requestTimeout
  shutdownTimeout := (ls.findSome? Layer.shutdownTimeout).getD default.shutdownTimeout

/-- A layer put in front of others is one more change to what they make. -/
theorem ofLayers_cons (l : Layer) (ls : List Layer) :
    ofLayers (l :: ls) = l.onto (ofLayers ls) := by
  have first {β : Type} (field : Layer → Option β) (d : β) :
      ((l :: ls).findSome? field).getD d = (field l).getD ((ls.findSome? field).getD d) := by
    rw [List.findSome?_cons]
    cases field l <;> rfl
  simp only [ofLayers, Layer.onto, first]

end Settings

/-! ## Updates -/

namespace Update

open Settings

variable {α : Type} {u v : Update Unit}

/-- The second update finds the settings as the first one leaves them. -/
theorem apply_bind (u v : Update Unit) (s : Settings) :
    (do u; v : Update Unit).apply s = u.apply s >>= v.apply := by
  unfold apply
  rw [ExceptT.run_bind]
  simp only [bind, StateT.bind]
  rcases u.run s with ⟨_ | _, s'⟩ <;> rfl

/-- An update that is refused for the given reason, or changes the settings in the given way. -/
def Does (u : Update Unit) (reason? : Option SettingsError) (change : Settings → Settings) : Prop :=
  ∀ s, u.apply s = unlessRefused reason? (change s)

theorem does_put (get : Settings → α) (value : Option α) (set : α → Settings → Settings)
    (same : ∀ s, set (get s) s = s) :
    (put value set).Does none fun s ↦ set (value.getD (get s)) s := by
  intro s
  cases value with
  | none => exact congrArg Except.ok (same s).symm
  | some a => rfl

theorem does_putParsed (get : Settings → α) (text : Option String)
    (parse : String → Except SettingsError α) (set : α → Settings → Settings)
    (same : ∀ s, set (get s) s = s) :
    (putParsed text parse set).Does (misreading? text parse)
      fun s ↦ set ((reading? text parse).getD (get s)) s := by
  intro s
  unfold putParsed misreading? reading?
  cases text with
  | none => exact congrArg Except.ok (same s).symm
  | some t =>
      dsimp only [Option.bind_some]
      cases parse t <;> rfl

theorem Does.seq {r r' : Option SettingsError} {change change' : Settings → Settings}
    (h : u.Does r change) (h' : v.Does r' change') :
    (do u; v : Update Unit).Does (r.or r') fun s ↦ change' (change s) := by
  intro s
  rw [apply_bind, h s]
  exact unlessRefused_bind (h' (change s))

end Update

namespace Settings

open Update

/-! ## Files -/

section

variable (reader : FileReader)

/-- If there is a file, it can be read, it says what settings can be read from, and these are valid
on their own. -/
def FileValid (file : Option SettingsFile) : Prop :=
  ∀ f, file = some f → ∃ text c s, f = .contents text ∧ reader.contents? text = some c ∧
    ofContents? c = some s ∧ s.validate = .ok ()

/-- Why the file is refused, if there is one. -/
def fileRefusal? (file : Option SettingsFile) : Option SettingsError :=
  file.bind fun f ↦ refusal? (ofFile reader f)

theorem getD_of_fileField {α : Type} {c : Toml.Contents} {name : String}
    {read : Toml.Value → Option α} {d v : α} (h : fileField c name read d = some v) :
    v = ((c.top? name).bind read).getD d := by
  unfold fileField at h
  split at h
  · cases h
  · cases found : c.top? name with
    | none =>
        rw [found] at h
        exact (Option.some.inj h).symm
    | some w =>
        rw [found] at h
        change read w = some v at h
        rw [Option.bind_some, h, Option.getD_some]

/-- What is read from a file is its layer over the defaults. -/
theorem eq_onto_of_ofContents? {c : Toml.Contents} {s : Settings} (h : ofContents? c = some s) :
    s = (Layer.ofContents c).onto default := by
  unfold ofContents? at h
  simp only [Option.bind_eq_bind, Option.bind_eq_some_iff, Option.pure_def, Option.some.injEq] at h
  obtain ⟨host, h₁, port, h₂, level, h₃, format, h₄, environment, h₅, limit, h₆, request, h₇,
    shutdown, h₈, rfl⟩ := h
  rw [getD_of_fileField h₁, getD_of_fileField h₂, getD_of_fileField h₃, getD_of_fileField h₄,
    getD_of_fileField h₅, getD_of_fileField h₆, getD_of_fileField h₇, getD_of_fileField h₈]
  rfl

variable {reader}

theorem ofFile_eq_ok {f : SettingsFile} {s : Settings} :
    ofFile reader f = .ok s ↔ ∃ text c, f = .contents text ∧ reader.contents? text = some c ∧
      ofContents? c = some s ∧ s.validate = .ok () := by
  cases f with
  | unreadable why => simp [ofFile]
  | contents text =>
      unfold ofFile
      dsimp only
      cases read : (reader.contents? text).bind ofContents? with
      | none =>
          refine iff_of_false (by simp) ?_
          rintro ⟨_, c, ⟨⟩, parsed, given, -⟩
          rw [parsed, Option.bind_some, given] at read
          cases read
      | some s' =>
          obtain ⟨c, parsed, given⟩ := Option.bind_eq_some_iff.mp read
          rw [check_bind_eq_ok]
          constructor
          · rintro ⟨valid, ⟨⟩⟩
            exact ⟨text, c, rfl, parsed, given, valid⟩
          · rintro ⟨_, c', ⟨⟩, parsed', given', valid⟩
            cases parsed.symm.trans parsed'
            cases given.symm.trans given'
            exact ⟨valid, rfl⟩

/-- A file gives its layer over the defaults, or is refused. -/
theorem ofFile_eq (f : SettingsFile) :
    ofFile reader f =
      unlessRefused (refusal? (ofFile reader f)) ((Layer.ofFile reader (some f)).onto default) := by
  cases given : ofFile reader f with
  | error e => rfl
  | ok s =>
      obtain ⟨text, c, rfl, parsed, contents, -⟩ := ofFile_eq_ok.mp given
      rw [eq_onto_of_ofContents? contents, Layer.ofFile, parsed]
      rfl

theorem fileRefusal?_eq_none {file : Option SettingsFile} :
    fileRefusal? reader file = none ↔ FileValid reader file := by
  unfold fileRefusal? FileValid
  cases file with
  | none => simp
  | some f =>
      simp only [Option.bind_some, refusal?_eq_none, ofFile_eq_ok, Option.some.injEq, forall_eq']
      constructor
      · rintro ⟨s, text, c, valid⟩
        exact ⟨text, c, s, valid⟩
      · rintro ⟨text, c, s, valid⟩
        exact ⟨s, text, c, valid⟩

end

/-! ## Variables -/

/-- Every variable that is set can be read. -/
structure VariablesReadable (vars : Variables) : Prop where
  port :
    Readable (vars "ROOTFIND_SERVER_PORT") (variableNumber "ROOTFIND_SERVER_PORT" portLimit)
  logLevel : Readable (vars "ROOTFIND_LOG_LEVEL") LogLevel.ofName
  logFormat : Readable (vars "ROOTFIND_LOG_FORMAT") LogFormat.ofName
  environment : Readable (vars "ROOTFIND_ENV") Environment.ofName
  maxIterations :
    Readable (vars "ROOTFIND_MAX_ITERATIONS") (variableNumber "ROOTFIND_MAX_ITERATIONS" wordLimit)
  requestTimeout :
    Readable (vars "ROOTFIND_REQUEST_TIMEOUT_SECS")
      (variableNumber "ROOTFIND_REQUEST_TIMEOUT_SECS" wordLimit)
  shutdownTimeout :
    Readable (vars "ROOTFIND_SHUTDOWN_TIMEOUT_SECS")
      (variableNumber "ROOTFIND_SHUTDOWN_TIMEOUT_SECS" wordLimit)

/-- Why the variables are refused: the first one that cannot be read. -/
def variablesRefusal? (vars : Variables) : Option SettingsError :=
  (misreading? (vars "ROOTFIND_SERVER_PORT")
    (variableNumber "ROOTFIND_SERVER_PORT" portLimit)).or <|
  (misreading? (vars "ROOTFIND_LOG_LEVEL") LogLevel.ofName).or <|
  (misreading? (vars "ROOTFIND_LOG_FORMAT") LogFormat.ofName).or <|
  (misreading? (vars "ROOTFIND_ENV") Environment.ofName).or <|
  (misreading? (vars "ROOTFIND_MAX_ITERATIONS")
    (variableNumber "ROOTFIND_MAX_ITERATIONS" wordLimit)).or <|
  (misreading? (vars "ROOTFIND_REQUEST_TIMEOUT_SECS")
    (variableNumber "ROOTFIND_REQUEST_TIMEOUT_SECS" wordLimit)).or <|
  misreading? (vars "ROOTFIND_SHUTDOWN_TIMEOUT_SECS")
    (variableNumber "ROOTFIND_SHUTDOWN_TIMEOUT_SECS" wordLimit)

theorem variablesRefusal?_eq_none {vars : Variables} :
    variablesRefusal? vars = none ↔ VariablesReadable vars := by
  simp only [variablesRefusal?, Option.or_eq_none_iff, misreading?_eq_none]
  exact ⟨fun ⟨port, level, format, environment, limit, request, shutdown⟩ ↦
      ⟨port, level, format, environment, limit, request, shutdown⟩,
    fun ⟨port, level, format, environment, limit, request, shutdown⟩ ↦
      ⟨port, level, format, environment, limit, request, shutdown⟩⟩

theorem does_fromVariables (vars : Variables) :
    (fromVariables vars).Does (variablesRefusal? vars) (Layer.ofVariables vars).onto :=
  (does_put Settings.host _ _ fun _ ↦ rfl).seq <|
  (does_putParsed Settings.port _ _ _ fun _ ↦ rfl).seq <|
  (does_putParsed Settings.logLevel _ _ _ fun _ ↦ rfl).seq <|
  (does_putParsed Settings.logFormat _ _ _ fun _ ↦ rfl).seq <|
  (does_putParsed Settings.environment _ _ _ fun _ ↦ rfl).seq <|
  (does_putParsed Settings.maxIterationsLimit _ _ _ fun _ ↦ rfl).seq <|
  (does_putParsed Settings.requestTimeout _ _ _ fun _ ↦ rfl).seq <|
  does_putParsed Settings.shutdownTimeout _ _ _ fun _ ↦ rfl

/-! ## The command line -/

/-- The names on the command line can be read. -/
structure OptionsReadable (cli : CommandLine) : Prop where
  logLevel : Readable cli.logLevel LogLevel.ofName
  logFormat : Readable cli.logFormat LogFormat.ofName

/-- Why the command line is refused: the first name that cannot be read. -/
def optionsRefusal? (cli : CommandLine) : Option SettingsError :=
  (misreading? cli.logLevel LogLevel.ofName).or (misreading? cli.logFormat LogFormat.ofName)

theorem optionsRefusal?_eq_none {cli : CommandLine} :
    optionsRefusal? cli = none ↔ OptionsReadable cli := by
  simp only [optionsRefusal?, Option.or_eq_none_iff, misreading?_eq_none]
  exact ⟨fun ⟨level, format⟩ ↦ ⟨level, format⟩, fun ⟨level, format⟩ ↦ ⟨level, format⟩⟩

theorem does_fromCommandLine (cli : CommandLine) :
    (fromCommandLine cli).Does (optionsRefusal? cli) (Layer.ofCommandLine cli).onto := by
  -- The iteration limit comes last and is never a reason for a refusal.
  rw [optionsRefusal?, ← @Option.or_none _ (misreading? cli.logFormat LogFormat.ofName)]
  exact (does_put Settings.host _ _ fun _ ↦ rfl).seq <|
    (does_put Settings.port _ _ fun _ ↦ rfl).seq <|
    (does_putParsed Settings.logLevel _ _ _ fun _ ↦ rfl).seq <|
    (does_putParsed Settings.logFormat _ _ _ fun _ ↦ rfl).seq <|
    does_put Settings.maxIterationsLimit _ _ fun _ ↦ rfl

/-! ## All sources -/

section

variable (reader : FileReader) (file : Option SettingsFile) (vars : Variables) (cli : CommandLine)

/-- The settings that the sources give between them, the command line first. -/
def chosen : Settings := ofLayers [.ofCommandLine cli, .ofVariables vars, .ofFile reader file]

/-- Why the settings are refused: the first stage that does so. -/
def buildRefusal? : Option SettingsError :=
  (fileRefusal? reader file).or <| (variablesRefusal? vars).or <| (optionsRefusal? cli).or <|
  refusal? (chosen reader file vars cli).validate

theorem buildRefusal?_eq_none :
    buildRefusal? reader file vars cli = none ↔ FileValid reader file ∧ VariablesReadable vars ∧
      OptionsReadable cli ∧ (chosen reader file vars cli).validate = .ok () := by
  simp only [buildRefusal?, Option.or_eq_none_iff, fileRefusal?_eq_none,
    variablesRefusal?_eq_none, optionsRefusal?_eq_none, refusal?_eq_none, Unique.exists_iff]

theorem build_eq :
    build reader file vars cli =
      unlessRefused (buildRefusal? reader file vars cli) (chosen reader file vars cli) := by
  have start : build reader file vars cli =
      (unlessRefused (fileRefusal? reader file) ((Layer.ofFile reader file).onto default) >>=
        fun s ↦ (fromVariables vars).apply s >>= fun s ↦ (fromCommandLine cli).apply s >>=
        fun s ↦ s.validate >>= fun _ ↦ .ok s) := by
    -- All later steps stand inside the match on the file.
    cases file with
    | none => rfl
    | some f =>
        change (ofFile reader f >>= _) = _
        rw [ofFile_eq]
        rfl
  have layered : chosen reader file vars cli = (Layer.ofCommandLine cli).onto
      ((Layer.ofVariables vars).onto ((Layer.ofFile reader file).onto default)) := by
    rw [chosen, ofLayers_cons, ofLayers_cons, ofLayers_cons]
    rfl
  rw [start]
  refine unlessRefused_bind ?_
  rw [does_fromVariables]
  refine unlessRefused_bind ?_
  rw [does_fromCommandLine]
  refine unlessRefused_bind ?_
  rw [← layered]
  cases (chosen reader file vars cli).validate <;> rfl

/-- Settings are built just when the file is valid on its own, the texts of the variables and of the
command line can be read, and what the sources give between them is valid; and they are that.  The
error is otherwise that of the first stage to fail.  To go by the variables alone is to have no
file and an empty command line. -/
theorem build_precedence :
    (∀ c, build reader file vars cli = .ok c ↔
      (FileValid reader file ∧ VariablesReadable vars ∧ OptionsReadable cli ∧
        c.validate = .ok ()) ∧
      c = ofLayers [.ofCommandLine cli, .ofVariables vars, .ofFile reader file]) ∧
    (∀ e, build reader file vars cli = .error e ↔
      (fileRefusal? reader file).or ((variablesRefusal? vars).or ((optionsRefusal? cli).or
        (refusal?
          (ofLayers [.ofCommandLine cli, .ofVariables vars, .ofFile reader file]).validate)))
        = some e) ∧
    ofVariables vars = build reader none vars .empty := by
  refine ⟨fun c ↦ ?_, fun e ↦ ?_, ?_⟩
  · rw [build_eq, unlessRefused_eq_ok, buildRefusal?_eq_none]
    constructor
    · rintro ⟨valid, rfl⟩
      exact ⟨valid, rfl⟩
    · rintro ⟨valid, rfl⟩
      exact ⟨valid, rfl⟩
  · rw [build_eq, unlessRefused_eq_error]
    rfl
  · rfl

end

end Settings

end ScalarSolve
