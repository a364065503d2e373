import Assay.Path
import Assay.Report.Record
import Assay.Report.Terminal
import Assay.Run.Basic

/-!
# Reporters

A reporter is told the start of a run, each verdict, and its completion. The terminal reporter
prints; the file reporter collects records and writes them at completion, but only if it has been
told a start. A desk holds several reporters, what they have printed and the files they have
written.
-/

namespace Assay.Report

/-- A reporter with what it has collected. -/
inductive Reporter where
  | terminal (useColor : Bool)
  | file (path : String) (spec : Option (String × String)) (records : List Record)

/-- Reporters, the lines that they have printed and the files that they have written. -/
structure Desk where
  reporters : List Reporter
  printed : List String := []
  files : List (String × String) := []

namespace Reporter

/-- A file reporter at a path, before any start. -/
def atPath (path : String) : Reporter := .file (Path.plain path) none []

/-- A reporter after it is told a start: the file reporter forgets its records. -/
def started (name version : String) : Reporter → Reporter
  | .terminal c => .terminal c
  | .file path _ _ => .file path (some (name, version)) []

/-- What a reporter prints when it is told a start. -/
def startLines (name version : String) (total : Nat) : Reporter → List String
  | .terminal _ => Terminal.opening name version total
  | .file _ _ _ => []

/-- A reporter after it is told a verdict, and what it prints. -/
def tell (v : Verdict) : Reporter → Except Fault (Reporter × List String)
  | .terminal c => .ok (.terminal c, Terminal.verdictLines c v)
  | .file path spec records => do
    return (.file path spec (records ++ [← Record.ofVerdict v]), [])

/-- What a reporter prints and writes when it is told that a run is complete. -/
def complete (time : String) (vs : List Verdict) :
    Reporter → Except Halt (List String × List (String × String))
  | .terminal c => .ok (Terminal.closing c vs, [])
  | .file _ none _ => .ok ([], [])
  | .file path (some (name, version)) records => do
    let text ← render time name version vs records
    if Path.isFolder path then .error (.unwritable path)
    else return ([s!"JSON report written to {path}"], [(path, text)])

end Reporter

namespace Desk

/-- Puts a file at its path, over one that is there. -/
def putFile (path text : String) (files : List (String × String)) : List (String × String) :=
  files.filter (fun f => f.1 ≠ path) ++ [(path, text)]

/-- The text of the file at a path. -/
def fileText? (path : String) (d : Desk) : Option String :=
  (d.files.find? fun f => f.1 == Path.plain path).map Prod.snd

/-- Tells all reporters a start. -/
def start (name version : String) (total : Nat) (d : Desk) : Desk :=
  { d with
    reporters := d.reporters.map (Reporter.started name version)
    printed := d.printed ++ d.reporters.flatMap (Reporter.startLines name version total) }

/-- Tells reporters a verdict, one after the other; the first that fails ends it. -/
def tellAll (v : Verdict) : List Reporter → List Reporter × List String × Option Halt
  | [] => ([], [], none)
  | r :: rs =>
    match r.tell v with
    | .error f => (r :: rs, [], some (.fault f))
    | .ok (r', lines) =>
      let (rs', more, halt) := tellAll v rs
      (r' :: rs', lines ++ more, halt)

/-- The listener that tells all reporters of a desk each verdict. -/
def listen : Listener Desk := fun v _ _ d =>
  let (rs, lines, halt) := tellAll v d.reporters
  ({ d with reporters := rs, printed := d.printed ++ lines }, halt)

/-- Tells reporters the completion of a run, one after the other; the first that fails ends it. -/
def completeAll (time : String) (vs : List Verdict) (d : Desk) : List Reporter → Desk × Option Halt
  | [] => (d, none)
  | r :: rs =>
    match r.complete time vs with
    | .error h => (d, some h)
    | .ok (lines, files) =>
      completeAll time vs
        { d with
          printed := d.printed ++ lines
          files := files.foldl (fun fs f => putFile f.1 f.2 fs) d.files } rs

/-- Tells all reporters the completion of a run. -/
def complete (time : String) (vs : List Verdict) (d : Desk) : Desk × Option Halt :=
  completeAll time vs d d.reporters

end Desk

end Assay.Report
