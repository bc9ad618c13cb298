import ScriptKit.Param.Basic

namespace ScriptKit

/-- The arguments of a call gather here, the top in front. -/
abbrev ArgStack := List Param

namespace ArgStack

/-- Takes the top off, which must be there. -/
def pop (missing : Misfit) : ArgStack → Except Fault (Param × ArgStack)
  | [] => .error (.misfit missing)
  | top :: rest => .ok (top, rest)

/-- Takes a number off and then so many items, which become one array, the topmost item first. Also
tells what is left if that fails: the number is gone then. -/
def pack (stack : ArgStack) : Except Fault Unit × ArgStack :=
  match stack with
  | [] => (.error (.misfit .noPackCount), [])
  | top :: rest =>
    match top with
    | .integer count =>
      if 0 ≤ count ∧ count ≤ rest.length then
        (.ok (), .array (rest.take count.toNat) :: rest.drop count.toNat)
      else (.error (.misfit .packCount), rest)
    | _ => (.error (.misfit .packCount), rest)

end ArgStack

end ScriptKit
