namespace ScriptKit.CommandLine

/-- What the program is asked to do. A script is given in hexadecimal, or as `-` where it is to be
read from standard input. -/
inductive Command where
  | build (input : String) (out? : Option String) (json : Bool)
  | disasm (script : String)
  | decompile (script : String)
  | fee (script : String) (factor : Nat) (itemSize? : Option Nat) (json : Bool)
  | classify (script : String) (json : Bool)
deriving DecidableEq

/-- Ends the program before it does anything else. -/
structure Exit where
  text : String
  isFailure : Bool := true
deriving DecidableEq

/-- What the flags of a command say, and its argument. -/
structure Settings where
  argument? : Option String := none
  out? : Option String := none
  factor? : Option Nat := none
  itemSize? : Option Nat := none
  json : Bool := false

/-- What a flag does. The error of a value tells what is wrong with it. -/
inductive Effect where
  | switch (set : Settings → Settings)
  | value (set : String → Settings → Except String Settings)

structure Flag where
  short? : Option String := none
  long : String
  description : String
  effect : Effect

def Flag.isNamed (flag : Flag) (name : String) : Bool :=
  flag.long == name || flag.short? == some name

structure Spec where
  name : String
  description : String
  argument : String
  argumentDescription : String
  flags : List Flag
  command : String → Settings → Command

/-- Reads digits up to the first that is none or that leads out of range. -/
def readDigits (limit value : Nat) : List Char → Except String Nat
  | [] => .ok value
  | c :: rest =>
    if c.isDigit then
      let next := 10 * value + (c.toNat - 48)
      if next < limit then readDigits limit next rest
      else .error "number too large to fit in target type"
    else .error "invalid digit found in string"

/-- A number below a limit; a plus may stand before it. -/
def readNumber (limit : Nat) (text : String) : Except String Nat :=
  match text.toList with
  | [] => .error "cannot parse integer from empty string"
  | ['+'] => .error "invalid digit found in string"
  | '+' :: digits => readDigits limit 0 digits
  | digits => readDigits limit 0 digits

/-- Sets what is not set yet. -/
def once {α : Type} (old : Option α) (new : Except String α) : Except String (Option α) :=
  match old with
  | some _ => .error "duplicate values provided"
  | none => new.map some

def jsonFlag (description : String) : Flag where
  long := "--json"
  description
  effect := .switch fun settings => { settings with json := true }

def scriptDescription : String := "hex encoded script, `-` to read it from stdin"

def build : Spec where
  name := "build"
  description := "Assembles a listing into a hex encoded script"
  argument := "input"
  argumentDescription := "path to the input file with assembly code"
  flags := [
    { short? := some "-o", long := "--out", description := "optional path to the output file"
      effect := .value fun text settings => do
        let out? ← once settings.out? (.ok text)
        pure { settings with out? } },
    jsonFlag "output build info as JSON"]
  command input settings := .build input settings.out? settings.json

def disasm : Spec where
  name := "disasm"
  description := "Prints a script as an assembly listing"
  argument := "script"
  argumentDescription := scriptDescription
  flags := []
  command script _ := .disasm script

def decompile : Spec where
  name := "decompile"
  description := "Recovers contract calls from a script"
  argument := "script"
  argumentDescription := scriptDescription
  flags := []
  command script _ := .decompile script

def fee : Spec where
  name := "fee"
  description := "Estimates the execution fee of a script"
  argument := "script"
  argumentDescription := scriptDescription
  flags := [
    { long := "--fee-factor", description := "execution fee factor"
      effect := .value fun text settings => do
        let factor? ← once settings.factor? (readNumber UInt32.size text)
        pure { settings with factor? } },
    { long := "--storage-size"
      description := "size in bytes of stored items, required for `System.Storage.Put`"
      effect := .value fun text settings => do
        let itemSize? ← once settings.itemSize? (readNumber UInt64.size text)
        pure { settings with itemSize? } },
    jsonFlag "output the fee as JSON"]
  command script settings :=
    .fee script (settings.factor?.getD 30) settings.itemSize? settings.json

def classify : Spec where
  name := "classify"
  description := "Detects standard verification scripts"
  argument := "script"
  argumentDescription := scriptDescription
  flags := [jsonFlag "output the result as JSON"]
  command script settings := .classify script settings.json

def specs : List Spec := [build, disasm, decompile, fee, classify]

def programName : String := "neoasm"

def version : String := "0.1.0"

def wrapWidth : Nat := 80

def descriptionColumn : Nat := 20

/-- Fills lines with words, each line up to the width. -/
def wrap (line : String) : List String → List String
  | [] => [line]
  | word :: rest =>
    if line.length + word.length + 1 ≤ wrapWidth then wrap (line ++ " " ++ word) rest
    else line :: wrap (String.ofList (List.replicate descriptionColumn ' ') ++ word) rest

/-- A line of a table, with a description in a column of its own. -/
def row (names description : String) : String :=
  let head := "  " ++ names
  let head := head ++ String.ofList (List.replicate (descriptionColumn - head.length) ' ')
  match description.splitOn " " with
  | [] => head ++ "\n"
  | word :: rest => String.join ((wrap (head ++ word) rest).map (· ++ "\n"))

def helpRow : String := row "--help, help" "display usage information"

def Flag.usage (flag : Flag) : String :=
  let name := flag.short?.getD flag.long
  match flag.effect with
  | .switch _ => s!" [{name}]"
  | .value _ => s!" [{name} <{flag.long.drop 2}>]"

def Flag.row (flag : Flag) : String :=
  CommandLine.row ((flag.short?.map (· ++ ", ")).getD "" ++ flag.long) flag.description

def Spec.usage (spec : Spec) : String :=
  s!"Usage: {programName} {spec.name}" ++ String.join (spec.flags.map Flag.usage)
    ++ s!" [--] <{spec.argument}>\n\n{spec.description}\n\nPositional Arguments:\n"
    ++ row spec.argument spec.argumentDescription
    ++ "\nOptions:\n" ++ String.join (spec.flags.map Flag.row) ++ helpRow

def usage : String :=
  s!"Usage: {programName} <command> [<args>]\n\nNeo N3 VM assembler\n\nOptions:\n" ++ helpRow
    ++ "\nCommands:\n" ++ String.join (specs.map fun spec => row spec.name spec.description)
    ++ "  -v, --version     print version information and exit"

def asksForHelp (arg : String) : Bool := arg == "--help" || arg == "help"

def isFlag (arg : String) : Bool := arg.toList.head? == some '-'

def unrecognized (arg : String) : Exit := { text := s!"Unrecognized argument: {arg}\n" }

def flagAfterHelp : Exit := { text := "Trailing arguments are not allowed after `help`." }

/-- How far the arguments of a command are read. -/
structure Progress where
  help : Bool := false
  /-- Whether `--` was read, behind which no argument is a flag. -/
  flagsEnded : Bool := false
  settings : Settings := {}

def Spec.finish (spec : Spec) (p : Progress) : Except Exit Command :=
  if p.help then .error { text := spec.usage, isFailure := false }
  else match p.settings.argument? with
    | some argument => .ok (spec.command argument p.settings)
    | none =>
      .error { text := s!"Required positional arguments not provided:\n    {spec.argument}\n" }

def Spec.readArgument (p : Progress) (arg : String) : Except Exit Progress :=
  match p.settings.argument? with
  | none => .ok { p with settings := { p.settings with argument? := some arg } }
  | some _ => .error (unrecognized arg)

/-- Reads the arguments of a command. A word that asks for help counts wherever it stands, unless it
stands behind `--`. -/
def Spec.read (spec : Spec) (p : Progress) : List String → Except Exit Command
  | [] => spec.finish p
  | arg :: rest =>
    if p.flagsEnded || !(asksForHelp arg || isFlag arg) then do
      spec.read (← readArgument p arg) rest
    else if asksForHelp arg then spec.read { p with help := true } rest
    else if arg = "--" then spec.read { p with flagsEnded := true } rest
    else if p.help then .error flagAfterHelp
    else match spec.flags.find? (·.isNamed arg) with
      | none => .error (unrecognized arg)
      | some flag =>
        match flag.effect with
        | .switch set => spec.read { p with settings := set p.settings } rest
        | .value set =>
          match rest with
          | [] => .error { text := s!"No value provided for option '{arg}'.\n" }
          | value :: rest =>
            match set value p.settings with
            | .ok settings => spec.read { p with settings } rest
            | .error reason =>
              .error { text :=
                s!"Error parsing option '{arg}' with value '{value}': {reason}\n" }

/-- Reads the arguments up to the name of a command, and what follows as its arguments. A plea for
help before the name is passed on. -/
def readCommand (help flagsEnded : Bool) : List String → Except Exit Command
  | [] =>
    if help then .error { text := usage, isFailure := false }
    else .error { text := "One of the following subcommands must be present:\n    help"
      ++ String.join (specs.map fun spec => "\n    " ++ spec.name) ++ "\n" }
  | arg :: rest =>
    if !flagsEnded && asksForHelp arg then readCommand true flagsEnded rest
    else if !flagsEnded && isFlag arg then
      if arg = "--" then readCommand help true rest
      else .error (if help then flagAfterHelp else unrecognized arg)
    else match specs.find? (·.name == arg) with
      | some spec => spec.read { help } rest
      | none => .error (unrecognized arg)

/-- Whether the arguments only ask for the version. -/
def asksForVersion (seen : Bool) : List String → Bool
  | [] => seen
  | arg :: rest =>
    if arg = "-v" ∨ arg = "--version" then asksForVersion true rest
    else if arg = "--" then seen && rest.isEmpty
    else false

/-- Whether the arguments only ask for help; the version may be asked for before. -/
def asksOnlyForHelp (args : List String) : Bool :=
  let args := args.dropWhile fun arg => arg == "-v" || arg == "--version"
  match args with
  | [] => false
  | first :: _ =>
    asksForHelp first &&
      ((args.dropWhile asksForHelp).isEmpty || args.dropWhile asksForHelp == ["--"])

def readArgs (args : List String) : Except Exit Command :=
  if asksForVersion false args then
    .error { text := s!"{programName} {version}", isFailure := false }
  else if asksOnlyForHelp args then .error { text := usage, isFailure := false }
  else readCommand false false args

end ScriptKit.CommandLine
