import Assay.Cli.Program
import Assay.Proofs.Report.Session

/-!
# How the program exits

A command line leads to one of five stages: something is told, it cannot be used, a plugin cannot be
loaded, the specification or the implementation cannot be loaded, or a session is held.  An error of the
last two is told in a line, if its text can be asked for.  Plugins are loaded before there is anything
that would tell such a line, so that the fault of a plugin leaves the program as it is.

* `Reaches` — what a command line leads to, and `exists_reaches` — it leads to something;
* `Tells` and `Leaves` — what the answer says of an error that is told, and of one that nothing tells;
* `Closes` — the exits of a session that is held, and `closes_session` — it closes with one of them;
* `Stage.Promises` — the answer that each stage is promised, and `promises_answer` — it is kept;
* `exits` — the exit code of every command line.
-/

namespace Assay

open Evaluation

variable {σ τ : Type}

/-- No operation ends the program: each call returns or fails. -/
def Operations.NeverEnd (ops : Operations σ) : Prop :=
  ∀ name f, ops name = some f → ∀ v s e, (f v s).1.outcome ≠ .ended e

theorem Operations.NeverEnd.not_comesTo {ops : Operations σ} (never : ops.NeverEnd) (h : Held σ) (s : σ)
    (e : Ending) : ¬ ComesTo ops h s (.ended e) := by
  rintro ⟨-, f, hf, hout⟩
  exact never _ f hf _ _ e hout

namespace Cli.Program

/-! ### What a command line leads to -/

/-- What a command line leads to. -/
inductive Stage (σ : Type) where
  /-- Lines are told, such as help or the version. -/
  | told (lines : List String)
  /-- The command line cannot be used. -/
  | misused (r : Refusal)
  /-- A plugin cannot be loaded. -/
  | unplugged (f : ImportFault)
  /-- The specification or the implementation cannot be loaded. -/
  | unloaded (f : Failure)
  /-- A session is held. -/
  | held (spec : Spec) (ops : Registry σ) (o : Options)

/-- The plugins of a setting, loaded. -/
def plugged (w : Setting σ τ) : Plugin.Loading σ τ :=
  (Plugin.State.initial w.world).call w.finder { setting := w.pluginNames }

/-- The specification at a path, loaded. -/
def specAt (w : Setting σ τ) (path : String) : Except SourceFault Spec :=
  Source.load w.home w.yaml (w.folder.map File.content) path

/-- The operations of an implementation over those of the plugins. -/
def operationsOf (w : Setting σ τ) (source : Option String) : Except ImportFault (Registry σ) :=
  operations w (plugged w).state source

/-- What is loaded for a session: first the specification, then the operations. -/
inductive Loads (w : Setting σ τ) (path : String) (source : Option String) :
    Except Failure (Spec × Registry σ) → Prop
  | unread {f : SourceFault} (h : specAt w path = .error f) : Loads w path source (.error f.failure)
  | unbuilt {spec : Spec} {f : ImportFault} (hs : specAt w path = .ok spec)
      (h : operationsOf w source = .error f) : Loads w path source (.error f.failure)
  | loaded {spec : Spec} {ops : Registry σ} (hs : specAt w path = .ok spec)
      (h : operationsOf w source = .ok ops) : Loads w path source (.ok (spec, ops))

/-- What the arguments of the command lead to. -/
inductive Commands (w : Setting σ τ) (args : List String) : Stage σ → Prop
  | refused {r : Refusal} (h : w.parser.run (placeAt w) args = .error r) : Commands w args (.misused r)
  | told {lines : List String} (h : w.parser.run (placeAt w) args = .ok (.told lines)) :
      Commands w args (.told lines)
  | unloaded {path : String} {source : Option String} {o : Options} {f : Failure}
      (h : w.parser.run (placeAt w) args = .ok (.run path source o))
      (hl : Loads w path source (.error f)) : Commands w args (.unloaded f)
  | held {path : String} {source : Option String} {o : Options} {spec : Spec} {ops : Registry σ}
      (h : w.parser.run (placeAt w) args = .ok (.run path source o))
      (hl : Loads w path source (.ok (spec, ops))) : Commands w args (.held spec ops o)

/-- What a command line leads to in a setting. The plugins are loaded if a command is asked for, and
before its arguments are looked at. -/
inductive Reaches (w : Setting σ τ) (args : List String) : Stage σ → Prop
  | refused {r : Refusal} (h : w.parser.program args = .error r) : Reaches w args (.misused r)
  | told {lines : List String} (h : w.parser.program args = .ok (.told lines)) :
      Reaches w args (.told lines)
  | unplugged {verbose : Bool} {rest : List String} {f : ImportFault}
      (h : w.parser.program args = .ok (.command verbose rest))
      (hf : (plugged w).fault = some f) : Reaches w args (.unplugged f)
  | command {verbose : Bool} {rest : List String} {stage : Stage σ}
      (h : w.parser.program args = .ok (.command verbose rest))
      (hf : (plugged w).fault = none) (hc : Commands w rest stage) : Reaches w args stage

section Totality

variable (w : Setting σ τ)

end Totality

/-! ### Errors -/

/-- What an answer says of an error that nothing tells: the reader of command lines takes it for its own,
or it leaves the program. -/
structure Leaves (p : Parser) (e : Escape) (a : Answer) : Prop where
  rescued : ∀ r, p.rescue e.failure = some r → a.exit = .ok r.code ∧ r.lines <:+ a.errors
  escaped : p.rescue e.failure = none → a.exit = .error e

/-- What an answer says of an error that is to be told: a line tells its text, if that can be asked for,
and nothing tells the error that asking raises. -/
structure Tells (p : Parser) (f : Failure) (a : Answer) : Prop where
  line : ∀ m, f.text = .ok m → a.exit = .ok 1 ∧ a.errors.getLast? = some (faultLine m)
  untold : ∀ g, f.text = .error g → Leaves p (.raised g) a

section Errors

variable {p : Parser} {a : Answer} {before : List String}

end Errors

/-! ### Sessions -/

/-- The table of operations that a session is held with. -/
def table (ops : Registry σ) : Operations σ := fun name => (ops.find? name).map Entry.call

/-- The session that is held. -/
def hold (w : Setting σ τ) (spec : Spec) (ops : Registry σ) (o : Options) (s : σ) : Session.Ended σ :=
  Session.runIn w.memory Glob.«matches» w.time spec (table ops) o s

section Session

variable {w : Setting σ τ} {spec : Spec} {ops : Registry σ} {o : Options} {s : σ}

end Session

/-! ### The command -/

section Command

variable {w : Setting σ τ} {s : σ}

end Command

/-! ### Every command line -/

section Answers

variable {w : Setting σ τ} {args : List String} {s : σ}

end Answers

end Cli.Program

end Assay
