import Assay.Cli.Similar
import Assay.Cli.Usage

/-!
# Command lines

A command line has options, which start with a hyphen, and other words. The value of an option stands
after an equals sign or is the next argument. Two hyphens alone end the options, and so does the
first other word where words and options may not be mixed.
-/

namespace Assay.Cli

/-- The options of a command: their long names, the letters that stand for some without a value, and
which of them take a value. -/
structure Form (ι : Type) where
  long : List (String × ι)
  letters : List (Char × ι)
  takesValue : ι → Bool
  mixed : Bool

/-- The options of a command line in order, and its other words. -/
structure Arguments (ι : Type) where
  options : List (ι × Option String)
  words : List String

namespace Arguments

variable {ι : Type}

/-- The arguments with an option before the others. -/
def addOption (o : ι) (value : Option String) (as : Arguments ι) : Arguments ι :=
  { as with options := (o, value) :: as.options }

/-- The name of an option and the value after an equals sign, if there is one. -/
def splitValue (arg : String) : String × Option String :=
  let cs := arg.toList
  match cs.dropWhile (· ≠ '=') with
  | [] => (arg, none)
  | _ :: value => (String.ofList (cs.takeWhile (· ≠ '=')), some (String.ofList value))

/-- The options that letters stand for. -/
def ofLetters (f : Form ι) : List Char → Except UsageFault (List (ι × Option String))
  | [] => .ok []
  | c :: cs =>
    match (f.letters.find? fun e => e.1 == c).map Prod.snd with
    | none => .error (.noOption (String.ofList ['-', c]) [])
    | some o => do return (o, none) :: (← ofLetters f cs)

/-- The arguments of a command line. -/
def parse (f : Form ι) : List String → Except UsageFault (Arguments ι)
  | [] => .ok ⟨[], []⟩
  | arg :: rest =>
    if arg = "--" then .ok ⟨[], rest⟩
    else if arg.startsWith "-" && arg ≠ "-" then
      let (name, value) := splitValue arg
      match (f.long.find? fun e => e.1 == name).map Prod.snd with
      | some o =>
        match f.takesValue o, value with
        | true, some v => do return (← parse f rest).addOption o (some v)
        | true, none =>
          match rest with
          | [] => .error (.valueMissing name)
          | v :: rest => do return (← parse f rest).addOption o (some v)
        | false, some _ => .error (.valueUnwanted name)
        | false, none => do return (← parse f rest).addOption o none
      | none =>
        if arg.startsWith "--" then .error (.noOption name (similar name (f.long.map Prod.fst)))
        else do
          let os ← ofLetters f arg.toList.tail
          let as ← parse f rest
          return { as with options := os ++ as.options }
    else if f.mixed then do
      let as ← parse f rest
      return { as with words := arg :: as.words }
    else .ok ⟨[], arg :: rest⟩

/-- All values of an option, in order. -/
def values [BEq ι] (o : ι) (as : Arguments ι) : List String :=
  as.options.filterMap fun e => if e.1 == o then e.2 else none

/-- Whether an option is given. -/
def has [BEq ι] (o : ι) (as : Arguments ι) : Bool := as.options.any fun e => e.1 == o

end Arguments

end Assay.Cli
