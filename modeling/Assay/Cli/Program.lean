import Assay.Cli.Request
import Assay.Registry.Plugin
import Assay.Spec.Problem
import Assay.Spec.Source

/-!
# The program

The program answers a command line in a setting: it loads the plugins, reads the specification and
the implementation, and runs a session. What it prints goes to the output, and faults and the lines
of its log to the errors. The exit code is 1 where a session cannot be held or does not succeed. The
readers of command lines and of YAML come from elsewhere, and are part of the setting.
-/

namespace Assay.Cli

/-- A file: its bytes, and what loading it does if it is taken for a module. -/
structure File (σ : Type) where
  content : List UInt8
  loaded : Import.Body σ

/-- The setting of a program: the folder that it runs in, the homes of users, the names of its plugins,
the modules and plugins that it can import, the world of the plugins, how cases are held, the time for
reports, and the readers of YAML and of command lines. -/
structure Setting (σ τ : Type) where
  folder : Folder (File σ)
  home : Path.Home
  pluginNames : Option String
  library : Import.Library σ
  finder : Plugin.Finder σ τ
  world : τ
  memory : Memory σ
  time : String
  yaml : Source.YamlReader
  parser : Parser

/-- The surroundings that a setting gives implementations. -/
def Setting.origin {σ τ : Type} (w : Setting σ τ) : Import.Origin σ :=
  ⟨w.home, w.library, w.folder.map File.loaded⟩

/-- What leaves the program without an exit code: a plugin that fails, an operation that ends everything,
or an error that is raised where another is to be told. -/
inductive Escape where
  | plugin (f : ImportFault)
  | ended (e : Ending)
  | raised (f : Failure)
deriving DecidableEq, Repr

/-- The error that leaves the program. -/
def Escape.failure : Escape → Failure
  | .plugin f => f.failure
  | .ended e => e.failure
  | .raised f => f

/-- What a program has done: its exit, the lines of its output and of its errors, and the files that
it has written. -/
structure Answer where
  exit : Except Escape Nat
  output : List String := []
  errors : List String := []
  files : List (String × String) := []

namespace Program

/-- A line of the log. -/
def logLine (source text : String) : String := s!"DEBUG {source}: {text}"

/-- Names in a list, or a word for none. -/
def nameList (names : List String) : String :=
  if names.isEmpty then "(none)" else ", ".intercalate names

/-- The log of loading plugins. -/
def pluginLog (attempted : List String) (count : Option Nat) : List String :=
  attempted.map (fun n => logLine "gcsf" s!"loading plugin {n}") ++
    count.toList.map fun n => logLine "gcsf" s!"{n} operation(s) registered by plugins"

/-- The log of loading a specification. -/
def specLog (path : String) : List String :=
  [logLine "gcsf.spec.loader" s!"loaded spec document {path}"]

/-- The log of loading an implementation: the operations of a whole module are counted. -/
def implementationLog {σ : Type} (source : Option String) (loaded : Registry σ) : List String :=
  match source.filter (· ≠ "") with
  | none => []
  | some s =>
    if (Import.splitColon s).2.isSome then []
    else
      [logLine "gcsf.registry.importing" s!"loaded {loaded.names.length} operation(s) from {s}"]

/-- The counts of a tally by status. -/
def tallyText (vs : List Verdict) : String :=
  let t := Tally.ofVerdicts vs
  "\x7b" ++ ", ".intercalate (Status.all.map fun s => s!"'{s.name}': {t.count s}") ++ "\x7d"

/-- The log of a note. -/
def noteLine : Note → String
  | .awaited => logLine "asyncio" "Using selector: EpollSelector"
  | .judged label status => logLine "gcsf.core.evaluator" s!"{label} -> {status.name}"

/-- The log of a session. -/
def sessionLog {σ : Type} (spec : Spec) (e : Session.Ended σ) : List String :=
  let flattened :=
    logLine "gcsf.core.flattener" s!"flattened spec {spec.name}: {spec.cases.length} case(s)"
  let run := match e.run with
    | none => []
    | some r =>
      r.notes.map noteLine ++
        if r.halt.isNone then
          [logLine "gcsf.core.runner" s!"run finished: {tallyText r.verdicts}"]
        else []
  flattened :: run

/-- The line that tells why a session cannot be held. -/
def faultLine (message : String) : String := s!"Error: {message}"

/-- The answer to a request to run a specification, without its log. -/
structure Attempt where
  answer : Answer
  log : List String

/-- The exit for an error that nothing tells, and the lines that tell of it: it leaves the program, unless
the reader of command lines takes it for its own. -/
def escaping (p : Parser) (e : Escape) : Except Escape Nat × List String :=
  match p.rescue e.failure with
  | some r => (.ok r.code, r.lines)
  | none => (.error e, [])

/-- The exit for an error that is told in a line, and the lines that tell of it. If its text cannot be
asked for, the error that asking raises is one that nothing tells. -/
def telling (p : Parser) (f : Failure) : Except Escape Nat × List String :=
  match f.text with
  | .ok message => (.ok 1, [faultLine message])
  | .error g => escaping p (.raised g)

/-- An attempt that fails with an error. -/
def failed (p : Parser) (log : List String) (f : Failure) : Attempt :=
  ⟨{ exit := (telling p f).1, errors := (telling p f).2 }, log⟩

/-- The exit for the end of a session, and the lines that tell of it. An interrupt is told as such. -/
def closing (p : Parser) : Except Session.Fault Nat → Except Escape Nat × List String
  | .ok code => (.ok code, [])
  | .error (.halted (.ended (.interrupt _))) => (.ok 1, interruptLines)
  | .error (.halted (.ended ending)) => (.error (.ended ending), [])
  | .error f => telling p f.failure

/-- Holds a session and answers with its end. -/
def session {σ τ : Type} (w : Setting σ τ) (spec : Spec) (ops : Registry σ) (o : Options)
    (log : List String) (s : σ) : Attempt :=
  let table : Operations σ := fun n => (ops.find? n).map Entry.call
  let e := Session.runIn w.memory Glob.«matches» w.time spec table o s
  let (exit, errors) := closing w.parser e.result
  ⟨{ exit := exit, output := e.desk.printed, errors := errors, files := e.desk.files },
    log ++ sessionLog spec e⟩

/-- The operations of an implementation over those of the plugins. -/
def operations {σ τ : Type} (w : Setting σ τ) (p : Plugin.State σ τ) (source : Option String) :
    Except ImportFault (Registry σ) :=
  let (st, made) := Import.build w.origin source (.sharing p.ground.registry)
  made.map fun n => st.view n

/-- The log of loading an implementation, if one is asked for and can be loaded. -/
def loadingLog {σ τ : Type} (w : Setting σ τ) (p : Plugin.State σ τ) (source : Option String) :
    List String :=
  match source.filter (· ≠ "") with
  | none => []
  | some t =>
    match (Import.load w.origin t (.sharing p.ground.registry)).2 with
    | .error _ => []
    | .ok r => implementationLog source r

/-- Runs a specification with an implementation over the operations of plugins. -/
def runSpec {σ τ : Type} (w : Setting σ τ) (p : Plugin.State σ τ) (path : String)
    (source : Option String) (o : Options) (s : σ) : Attempt :=
  match Source.read w.home w.yaml (w.folder.map File.content) path with
  | .error f => failed w.parser [] f.failure
  | .ok content =>
    let log := specLog (w.folder.fullPath ((Path.expand w.home path).getD path))
    match content.toSpec with
    | .error f => failed w.parser log f.failure
    | .ok spec =>
      let log := log ++ loadingLog w p source
      match operations w p source with
      | .error f => failed w.parser log f.failure
      | .ok ops =>
        let names := ops.names.mergeSort textLe
        session w spec ops o
          (log ++ [s!"plugins: {nameList p.loaded}", s!"operations: {nameList names}"]) s

/-- What stands at a path in a setting. -/
def placeAt {σ τ : Type} (w : Setting σ τ) (path : String) : Place Unit :=
  (w.folder.place path).map fun _ => ()

/-- Runs the command with its arguments, once the plugins are loaded. -/
def command {σ τ : Type} (w : Setting σ τ) (p : Plugin.State σ τ) (args : List String) (s : σ) : Attempt :=
  match w.parser.run (placeAt w) args with
  | .error r => ⟨{ exit := .ok r.code, errors := r.lines }, []⟩
  | .ok (.told lines) => ⟨{ exit := .ok 0, output := lines }, []⟩
  | .ok (.run path source o) => runSpec w p path source o s

/-- Loads the plugins and runs the command. The log is told only if it is asked for. -/
def withPlugins {σ τ : Type} (w : Setting σ τ) (verbose : Bool) (args : List String) (s : σ) : Answer :=
  let call : Plugin.Call := { setting := w.pluginNames }
  let done := (Plugin.State.initial w.world).call w.finder call
  let told (log : List String) : List String := if verbose then log else []
  match done.fault with
  | some f =>
    let (exit, lines) := escaping w.parser (.plugin f)
    { exit := exit, errors := told (pluginLog done.attempted none) ++ lines }
  | none =>
    let count :=
      if call.names.isEmpty then none else some done.state.ground.registry.names.length
    let a := command w done.state args s
    { a.answer with errors := told (pluginLog done.attempted count ++ a.log) ++ a.answer.errors }

/-- The answer to a command line. -/
def answer {σ τ : Type} (w : Setting σ τ) (args : List String) (s : σ) : Answer :=
  match w.parser.program args with
  | .error r => { exit := .ok r.code, errors := r.lines }
  | .ok (.told lines) => { exit := .ok 0, output := lines }
  | .ok (.command verbose rest) => withPlugins w verbose rest s

end Program

end Assay.Cli
