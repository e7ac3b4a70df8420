/-!
# Command-line arguments

An invocation names a job, with options before or after its operands. Arguments are read one at a
time: an option that takes a value waits for the next argument, unless the value is attached to it
(`--format=svg`, `-Tsvg`, `-T=svg`), and after `--` every argument is an operand. Options of the
whole program may also stand after the job, where they win over those in front of it.
-/

namespace DotGraph.CommandLine

/-- The options of all jobs. -/
inductive Opt
  | settings | sortAttributes | inPlace | format | program | output | shapeFile | pretty
  | help | version
deriving DecidableEq

namespace Opt

def long : Opt → String
  | settings => "config"
  | sortAttributes => "sort-attributes"
  | inPlace => "in-place"
  | format => "format"
  | program => "program"
  | output => "output"
  | shapeFile => "shape-file"
  | pretty => "pretty"
  | help => "help"
  | version => "version"

def short? : Opt → Option Char
  | format => some 'T'
  | program => some 'K'
  | output => some 'o'
  | help => some 'h'
  | version => some 'V'
  | _ => none

/-- What an option takes. -/
inductive Arity
  | nothing | path | text
deriving DecidableEq

def arity : Opt → Arity
  | settings | output | shapeFile => .path
  | format | program => .text
  | _ => .nothing

def isRepeatable (o : Opt) : Bool := o = shapeFile

end Opt

/-- The names of the jobs. -/
inductive JobName
  | format | check | draw | view
deriving DecidableEq

namespace JobName

def text : JobName → String
  | format => "fmt"
  | check => "check"
  | draw => "render"
  | view => "json"

def all : List JobName := [format, check, draw, view]

def ofText? (s : String) : Option JobName := all.find? (·.text = s)

/-- The options that may follow the name. -/
def options : JobName → List Opt
  | format => [.sortAttributes, .inPlace, .settings, .help]
  | check => [.settings, .help]
  | draw => [.format, .program, .output, .shapeFile, .settings, .help]
  | view => [.pretty, .settings, .help]

/-- How many operands a job takes at most; at least one. -/
def maxOperands? : JobName → Option Nat
  | format | check => none
  | draw | view => some 1

end JobName

/-- Where options stand: in front of the name of a job, or after it. -/
inductive Level
  | program
  | job (name : JobName)
deriving DecidableEq

namespace Level

def options : Level → List Opt
  | program => [.settings, .help, .version]
  | job name => name.options

/-- Whether one more operand can follow so many. -/
def takesOperand : Level → Nat → Bool
  | program, _ => false
  | job name, n => match name.maxOperands? with
    | some limit => n < limit
    | none => true

end Level

/-- What is wrong with the arguments. -/
inductive Misuse
  | unknownOption (text : String)
  | unknownJob (text : String)
  | unexpectedOperand (text : String)
  | unexpectedValue (option : Opt)
  | missingValue (option : Opt)
  | emptyOperand
  | repeated (option : Opt)
  | missingJob
  | missingOperand
  | missingOption (option : Opt)
deriving DecidableEq

def Opt.describe (o : Opt) : String := "--" ++ o.long

def Misuse.message : Misuse → String
  | unknownOption text => "unexpected argument '" ++ text ++ "' found"
  | unknownJob text => "unrecognized subcommand '" ++ text ++ "'"
  | unexpectedOperand text => "unexpected argument '" ++ text ++ "' found"
  | unexpectedValue o => "the option '" ++ o.describe ++ "' takes no value"
  | missingValue o => "a value is required for '" ++ o.describe ++ "' but none was supplied"
  | emptyOperand => "a value is required for a file but none was supplied"
  | repeated o => "the argument '" ++ o.describe ++ "' cannot be used multiple times"
  | missingJob => "a subcommand is required but one was not provided"
  | missingOperand => "a file is required but none was supplied"
  | missingOption o => "the option '" ++ o.describe ++ "' is required"

/-- Why no job is run. -/
inductive Stop
  | help (topic : Option JobName)
  | version
  | misuse (fault : Misuse)
deriving DecidableEq

/-- What has been read of the arguments of a level. -/
structure Gathered where
  /-- The option whose value is the next argument. -/
  awaiting : Option Opt := none
  operandsOnly : Bool := false
  given : List (Opt × String) := []
  operands : List String := []

namespace Gathered

/-- Take an option with its value. -/
def give (g : Gathered) (o : Opt) (value : String) : Except Stop Gathered :=
  if o.arity = .path && value.isEmpty then .error (.misuse (.missingValue o))
  else if !o.isRepeatable && g.given.any (·.1 = o) then .error (.misuse (.repeated o))
  else .ok { g with awaiting := none, given := g.given ++ [(o, value)] }

/-- Take an option as it is met, with the value attached to it if there is one. -/
def meet (level : Level) (g : Gathered) (o : Opt) (value : Option String) : Except Stop Gathered :=
  match o.arity, value with
  | .nothing, some _ => .error (.misuse (.unexpectedValue o))
  | .nothing, none => match o, level with
    | .help, .program => .error (.help none)
    | .help, .job name => .error (.help (some name))
    | .version, _ => .error .version
    | _, _ => g.give o ""
  | _, some value => g.give o value
  | _, none => .ok { g with awaiting := some o }

/-- Read an argument after its two hyphens: a name, and a value after the first equals sign. -/
def readLong (level : Level) (g : Gathered) (body : List Char) : Except Stop Gathered :=
  let name := String.ofList (body.takeWhile (· ≠ '='))
  let value := match body.dropWhile (· ≠ '=') with
    | [] => none
    | _ :: value => some (String.ofList value)
  match level.options.find? (·.long = name) with
  | some o => meet level g o value
  | none => .error (.misuse (.unknownOption ("--" ++ name)))

/-- Read an argument after its one hyphen: letters of options, up to the first that takes the rest
as its value. -/
def readShort (level : Level) (g : Gathered) : List Char → Except Stop Gathered
  | [] => .ok g
  | c :: rest => match level.options.find? (·.short? = some c) with
    | none => .error (.misuse (.unknownOption ("-" ++ String.singleton c)))
    | some o => match o.arity, rest with
      | .nothing, rest => do readShort level (← meet level g o none) rest
      | _, [] => meet level g o none
      | _, '=' :: value => meet level g o (some (String.ofList value))
      | _, value => meet level g o (some (String.ofList value))

def readOperand (level : Level) (g : Gathered) (arg : String) : Except Stop Gathered :=
  if !level.takesOperand g.operands.length then .error (.misuse (.unexpectedOperand arg))
  else if arg.isEmpty then .error (.misuse .emptyOperand)
  else .ok { g with operands := g.operands ++ [arg] }

/-- An option that takes a value cannot be followed by another option. -/
def settled (g : Gathered) : Except Stop Gathered :=
  match g.awaiting with
  | some o => .error (.misuse (.missingValue o))
  | none => .ok g

/-- Whether an argument is no option. A lone hyphen is none. -/
def isPlain (arg : String) : Bool :=
  match arg.toList with
  | ['-'] => true
  | '-' :: _ => false
  | _ => true

/-- Read one argument. -/
def read (level : Level) (g : Gathered) (arg : String) : Except Stop Gathered :=
  if g.operandsOnly then readOperand level g arg
  else if isPlain arg then match g.awaiting with
    | some o => g.give o arg
    | none => readOperand level g arg
  else do
    let g ← g.settled
    match arg.toList with
    | ['-', '-'] => .ok { g with operandsOnly := true }
    | '-' :: '-' :: body => readLong level g body
    | body => readShort level g body.tail

/-- Read all arguments of a level. -/
def ofArguments (level : Level) (args : List String) : Except Stop Gathered := do
  (← args.foldlM (read level) {}).settled

def value? (g : Gathered) (o : Opt) : Option String :=
  (g.given.find? (·.1 = o)).map Prod.snd

def values (g : Gathered) (o : Opt) : List String :=
  (g.given.filter (·.1 = o)).map Prod.snd

def isSet (g : Gathered) (o : Opt) : Bool := g.given.any (·.1 = o)

end Gathered

inductive Job
  | format (files : List String) (sortAttributes inPlace : Bool)
  | check (files : List String)
  | draw (file output format program : String) (shapeFiles : List String)
  | view (file : String) (pretty : Bool)
deriving DecidableEq

namespace Job

/-- The job of a name with what is given to it. -/
def ofGathered (name : JobName) (g : Gathered) : Except Stop Job :=
  match g.operands with
  | [] => .error (.misuse .missingOperand)
  | file :: files => match name with
    | .format => .ok (.format (file :: files) (g.isSet .sortAttributes) (g.isSet .inPlace))
    | .check => .ok (.check (file :: files))
    | .draw => match g.value? .output with
      | none => .error (.misuse (.missingOption .output))
      | some output => .ok (.draw file output ((g.value? .format).getD "png")
          ((g.value? .program).getD "dot") (g.values .shapeFile))
    | .view => .ok (.view file (g.isSet .pretty))

end Job

/-- A job, and the settings file that is named for it. -/
structure Invocation where
  settings : Option String
  job : Job
deriving DecidableEq

namespace Invocation

/-- The invocation of a job with the arguments after its name. `outer` is what stands in front. -/
def ofJob (outer : Gathered) (name : JobName) (args : List String) : Except Stop Invocation := do
  let g ← Gathered.ofArguments (.job name) args
  let job ← Job.ofGathered name g
  return ⟨(g.value? .settings).or (outer.value? .settings), job⟩

/-- Help on the job that is named, or on the program. -/
def ofHelp : List String → Stop
  | [] => .help none
  | ["help"] => .help none
  | [name] => match JobName.ofText? name with
    | some name => .help (some name)
    | none => .misuse (.unknownJob name)
  | _ :: name :: _ => .misuse (.unknownJob name)

/-- Read options up to the name of a job. -/
def ofOuter (outer : Gathered) : List String → Except Stop Invocation
  | [] => do
    let _ ← outer.settled
    .error (.misuse .missingJob)
  | arg :: args =>
    if outer.operandsOnly || outer.awaiting.isSome || !Gathered.isPlain arg then do
      ofOuter (← outer.read .program arg) args
    else if arg = "help" then .error (ofHelp args)
    else match JobName.ofText? arg with
      | some name => ofJob outer name args
      | none => .error (.misuse (.unknownJob arg))

/-- The invocation that arguments spell, or why there is none. -/
def ofArguments (args : List String) : Except Stop Invocation := ofOuter {} args

end Invocation

end DotGraph.CommandLine
