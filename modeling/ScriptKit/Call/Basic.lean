import ScriptKit.Param.Basic

namespace ScriptKit

/-- The permissions of a called contract, one bit each. -/
structure CallFlags where
  bits : UInt8
deriving DecidableEq

namespace CallFlags

def none : CallFlags := ⟨0⟩

def readStates : CallFlags := ⟨1⟩

def writeStates : CallFlags := ⟨2⟩

def allowCall : CallFlags := ⟨4⟩

def allowNotify : CallFlags := ⟨8⟩

/-- All of the given permissions together. -/
def union (a b : CallFlags) : CallFlags := ⟨a.bits ||| b.bits⟩

def states : CallFlags := readStates.union writeStates

def readOnly : CallFlags := readStates.union allowCall

def all : CallFlags := (states.union allowCall).union allowNotify

def contains (flags other : CallFlags) : Bool := flags.bits &&& other.bits == other.bits

/-- Whether only known bits are set. -/
def isValid (flags : CallFlags) : Bool := all.contains flags

/-- The sets of permissions that have a name. -/
def named : List (CallFlags × String) :=
  [(none, "None"), (readStates, "ReadStates"), (writeStates, "WriteStates"),
   (allowCall, "AllowCall"), (allowNotify, "AllowNotify"), (states, "States"),
   (readOnly, "ReadOnly"), (all, "All")]

/-- The name of the set, or else its bits, at least four of them. -/
def render (flags : CallFlags) : String :=
  match named.lookup flags with
  | some name => name
  | .none =>
    let digits := Nat.toDigits 2 flags.bits.toNat
    "0b" ++ String.ofList (List.replicate (4 - digits.length) '0' ++ digits)

end CallFlags

/-- One call of a method of a contract. -/
structure Call where
  scriptHash : UInt160
  operation : String
  args : List Param := []
  flags : CallFlags := .all

end ScriptKit
