import ScriptKit.CommandLine.Run

namespace ScriptKit.CommandLine

def FileFault.ofError : IO.Error → FileFault
  | .alreadyExists _ code reason | .otherError code reason | .resourceBusy code reason
  | .resourceVanished code reason | .unsupportedOperation code reason | .hardwareFault code reason
  | .unsatisfiedConstraints code reason | .illegalOperation code reason
  | .protocolError code reason | .timeExpired code reason | .interrupted _ code reason
  | .noFileOrDirectory _ code reason | .invalidArgument _ code reason
  | .permissionDenied _ code reason | .resourceExhausted _ code reason
  | .inappropriateType _ code reason | .noSuchThing _ code reason => .refused reason code.toNat
  | .unexpectedEof => .noText
  | .userError reason => .refused reason 0

def attempt {α : Type} (action : IO α) : IO (Except FileFault α) := do
  try pure (.ok (← action))
  catch error => pure (.error (.ofError error))

def textOfBytes : Except FileFault ByteArray → Except FileFault String
  | .ok bytes =>
    match String.fromUTF8? bytes with
    | some text => .ok text
    | none => .error .noText
  | .error fault => .error fault

/-- The files and the standard input of the system. -/
def system : Host IO where
  readFile path := do pure (textOfBytes (← attempt (IO.FS.withFile path .read (·.readBinToEnd))))
  writeFile path content := attempt (IO.FS.writeFile path content)
  readInput := do
    let input ← IO.getStdin
    pure (textOfBytes (← attempt input.readBinToEnd))
  isTerminal := do (← IO.getStdin).isTty

end ScriptKit.CommandLine

open ScriptKit.CommandLine in
def main (args : List String) : IO UInt32 := do
  let outcome ← run system args
  IO.print outcome.stdout
  IO.eprint outcome.stderr
  pure (UInt32.ofNat outcome.status)
