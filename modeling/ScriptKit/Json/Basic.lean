namespace ScriptKit

/-- A number without a fraction or exponent is an integer if 64 bits hold it, signed or unsigned;
any other number is a float. The fields of an object that was read are ordered by name, and of equal
names the last counts. -/
inductive Json where
  | null
  | bool (value : Bool)
  | int (value : Int)
  | float (value : Float)
  | string (value : String)
  | array (items : List Json)
  | object (fields : List (String × Json))
deriving Inhabited

namespace Json

/-- Puts a field where its name belongs, over an earlier one of the same name. -/
def insertField (name : String) (value : Json) :
    List (String × Json) → List (String × Json)
  | [] => [(name, value)]
  | (key, old) :: rest =>
    if name < key then (name, value) :: (key, old) :: rest
    else if name = key then (name, value) :: rest
    else (key, old) :: insertField name value rest

def field? (name : String) : Json → Option Json
  | object fields => fields.lookup name
  | _ => none

end Json

end ScriptKit
