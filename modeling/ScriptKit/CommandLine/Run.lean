import ScriptKit.Call.Json
import ScriptKit.Call.Recover
import ScriptKit.CommandLine.Options
import ScriptKit.CommandLine.Path
import ScriptKit.CommandLine.Report
import ScriptKit.Fee
import ScriptKit.Listing.Print
import ScriptKit.Witness

namespace ScriptKit.CommandLine

/-- Why a file cannot be read or written. -/
inductive FileFault where
  /-- The system refuses, with a number for the reason. -/
  | refused (reason : String) (code : Nat)
  /-- The bytes of the file are no text. -/
  | noText
deriving DecidableEq

def FileFault.message : FileFault → String
  | refused reason code => s!"{reason} (os error {code})"
  | noText => "stream did not contain valid UTF-8"

/-- The surroundings of the program. -/
structure Host (m : Type → Type) where
  readFile : String → m (Except FileFault String)
  writeFile : String → String → m (Except FileFault Unit)
  readInput : m (Except FileFault String)
  /-- Whether standard input is a terminal. -/
  isTerminal : m Bool

/-- What the program leaves behind, besides a file. -/
structure Outcome where
  stdout : String := ""
  stderr : String := ""
  status : Nat := 0
deriving DecidableEq

namespace Outcome

def printed (text : String) : Outcome := { stdout := text }

def failed (message : String) : Outcome := { stderr := message ++ "\n", status := 1 }

def failedBecause (message cause : String) : Outcome :=
  failed s!"{message}\n\nCaused by:\n    {cause}"

end Outcome

variable {m : Type → Type} [Monad m]

/-- The script of a listing, or its faults as they are shown. -/
def assembleListing (path code : String) : Except String Bytes :=
  let text := code.toList
  let parsed := Listing.parse text
  match parsed.valid with
  | .error _ => .error (showFaults path text parsed)
  | .ok statements =>
    match Listing.assemble statements with
    | .ok script => .ok script
    | .error _ => .error (showFaults path text parsed)

/-- The fee of a script on a standard schedule, if it has one there. -/
def standardFee? (script : Bytes) : Option String :=
  match ({} : FeeSchedule).feeOfScript script with
  | .ok fee => some (toString fee)
  | .error _ => none

def buildSummary (out : String) (script : Bytes) : Json :=
  .object [("fee", ((standardFee? script).map Json.string).getD .null),
    ("script", .string (Bytes.toText script)), ("script_path", .string out),
    ("size", .int script.length)]

def buildNote (out : String) (script : Bytes) : String :=
  let fee := (standardFee? script).getD "unknown"
  s!"Script path:\t{out}\nScript size:\t{script.length}\nExecution fee:\t{fee}"

/-- What is printed of a script that was written: a note for who sits at a terminal, or JSON. -/
def buildOutcome (atTerminal : Bool) (out : String) (script : Bytes) : Outcome :=
  if atTerminal then { stderr := buildNote out script ++ "\n" }
  else .printed ((buildSummary out script).pretty ++ "\n")

/-- The path to which a script is written, unless another one is asked for. -/
def outputPath (input : String) (out? : Option String) : String :=
  out?.getD (Path.withExtension "hex" input)

def runBuild (host : Host m) (input : String) (out? : Option String) (json : Bool) :
    m Outcome := do
  match ← host.readFile input with
  | .error fault =>
    pure (.failedBecause s!"Failed to read assembly code from `{input}`" fault.message)
  | .ok code =>
    let out := outputPath input out?
    if Path.same input out then pure (.failed "Output file must not be an input file")
    else match assembleListing input code with
      | .error faults => pure { stderr := faults ++ "Build failed\n", status := 1 }
      | .ok script => do
        match ← host.writeFile out (Bytes.toText script) with
        | .error fault =>
          pure (.failedBecause s!"Failed to open output file `{out}`" fault.message)
        | .ok () =>
          -- The terminal does not count where JSON is asked for.
          let atTerminal ← if json then pure false else host.isTerminal
          pure (buildOutcome atTerminal out script)

/-- The bytes of a script in hexadecimal, with blanks around it and `0x` before it if need be. -/
def scriptOfText (text : String) : Except Hex.Problem Bytes :=
  let text := Text.trim text.toList
  let digits := match text with
    | '0' :: 'x' :: rest => rest
    | text => text
  Hex.decode (Utf8.encodeChars digits)

/-- Reads the script that an argument gives, and goes on with it. -/
def withScript (host : Host m) (arg : String) (use : Bytes → Outcome) : m Outcome := do
  match ← if arg = "-" then host.readInput else pure (.ok arg) with
  | .error fault => pure (.failedBecause "Failed to read script from stdin" fault.message)
  | .ok text =>
    match scriptOfText text with
    | .ok script => pure (use script)
    | .error problem => pure (.failedBecause "Invalid hex script" problem.message)

def disasmOutcome (script : Bytes) : Outcome :=
  match Listing.printScript script with
  | .ok listing => .printed listing
  | .error fault => .failedBecause "Failed to disassemble" fault.message

def decompileOutcome (script : Bytes) : Outcome :=
  match Call.ofScript script with
  | .ok calls => .printed ((Json.array (calls.map Call.toJson)).pretty ++ "\n")
  | .error fault => .failedBecause "Failed to decompile the script" fault.message

def feeOutcome (schedule : FeeSchedule) (json : Bool) (script : Bytes) : Outcome :=
  match Instruction.decode script with
  | .error fault => .failedBecause "Invalid script" fault.message
  | .ok instructions =>
    match schedule.baseCost instructions with
    | .error fault => .failedBecause "Failed to estimate the fee" fault.message
    | .ok base =>
      let fee := toString (base * schedule.factor)
      if json then
        .printed ((Json.object [("base_cost", .string (toString base)), ("fee", .string fee),
          ("fee_factor", .int schedule.factor)]).pretty ++ "\n")
      else .printed (fee ++ "\n")

def keyJson (key : PublicKey) : Json := .string key.toText

def witnessJson : Witness → Json
  | .signature key => .object [("key", keyJson key), ("type", .string "signature")]
  | .multisig threshold keys =>
    .object [("keys", .array (keys.map keyJson)), ("threshold", .int threshold),
      ("type", .string "multisig")]
  | .other => .object [("type", .string "other")]

def witnessText : Witness → String
  | .signature key => s!"signature: {(keyJson key).compact}"
  | .multisig threshold keys => s!"multisig: {threshold} of {keys.length}"
  | .other => "other"

def classifyOutcome (json : Bool) (script : Bytes) : Outcome :=
  let witness := Witness.ofScript script
  .printed ((if json then (witnessJson witness).pretty else witnessText witness) ++ "\n")

def runCommand (host : Host m) : Command → m Outcome
  | .build input out? json => runBuild host input out? json
  | .disasm script => withScript host script disasmOutcome
  | .decompile script => withScript host script decompileOutcome
  | .fee script factor itemSize? json =>
    withScript host script (feeOutcome { factor, itemSize? } json)
  | .classify script json => withScript host script (classifyOutcome json)

def Exit.outcome (exit : Exit) : Outcome :=
  if exit.isFailure then
    .failed s!"{exit.text}\nRun {programName} --help for more information."
  else .printed (exit.text ++ "\n")

/-- Runs the program. -/
def run (host : Host m) (args : List String) : m Outcome :=
  match readArgs args with
  | .error exit => pure exit.outcome
  | .ok command => runCommand host command

end ScriptKit.CommandLine
