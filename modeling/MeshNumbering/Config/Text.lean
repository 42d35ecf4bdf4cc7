import MeshNumbering.Config.Basic
import MeshNumbering.Decimal.Notation
import MeshNumbering.Json.Value

/-! Configurations as JSON text. They are written as objects in a fixed order of fields. They are
read with the fields in any order or, without their names, as an array; fields of other names are
passed over, repeated ones refused. -/

namespace MeshNumbering

/-- Doubles in a configuration have the fewest digits that read back, a tie going to the even digit,
a point even when they are whole, and a signed exponent from ten to the 16th on and below ten to the
-5th. What is not finite has no spelling. -/
def Config.amount : Decimal.Style := ⟨.even, some (-5, 16), true, "null", "null"⟩

namespace Axis

def name : Axis → String
  | x => "x"
  | y => "y"
  | z => "z"

def ofName? (s : String) : Option Axis :=
  if s = "x" then some x else if s = "y" then some y else if s = "z" then some z else none

end Axis

namespace Algorithm
open Json

def kind : Algorithm → String
  | block => "block"
  | cyclic => "cyclic"
  | slab .. => "slab"

def axis? : Value → Option Axis
  | .object [(key, .null)] | .object [(key, .object [])] =>
    (Quoted.decode? key).bind fun s => Axis.ofName? (String.ofList s)
  | v => v.text?.bind Axis.ofName?

def ofArray? : List Value → Option Algorithm
  | [kind] => do
    match ← kind.text? with
    | "block" => some block
    | "cyclic" => some cyclic
    | _ => none
  | [kind, axis, lo, hi] => do
    match ← kind.text? with
    | "slab" => return slab (← axis? axis) (← lo.float?) (← hi.float?)
    | _ => none
  | _ => none

def ofMembers? (members : List (String × Value)) : Option Algorithm := do
  match ← (← Value.only? "kind" members).text? with
  | "block" => some block
  | "cyclic" => some cyclic
  | "slab" =>
    let axis ← (Value.only? "axis" members).bind axis?
    let lo ← (Value.only? "lo" members).bind Value.float?
    let hi ← (Value.only? "hi" members).bind Value.float?
    return slab axis lo hi
  | _ => none

def depthLimit : Nat := 126

/-- The whole value must be sound, also where it does not matter. -/
def ofValue? (v : Value) : Option Algorithm :=
  if v.isSound ∧ v.depth ≤ depthLimit then
    match v with
    | .array l => ofArray? l
    | .object members => (Value.named? members).bind ofMembers?
    | _ => none
  else none

end Algorithm

namespace ChareCount
open Json

def ofValue? : Value → Option ChareCount
  | .object [(key, v)] => do
    match String.ofList (← Quoted.decode? key) with
    | "fixed" => v.nat?.map fixed
    | "virtualization" => v.float?.map virtualization
    | _ => none
  | _ => none

end ChareCount

namespace Config
open Json

def limit? : Value → Option (Option Nat)
  | .null => some none
  | v => v.nat?.map some

def ofValues? (inputMesh chares algorithm feedback : Value) (limit : Option Value) :
    Option Config := do
  return {
    inputMesh := ← inputMesh.text?
    chares := ← ChareCount.ofValue? chares
    algorithm := ← Algorithm.ofValue? algorithm
    feedback := ← feedback.bool?
    frameLimit := ← (limit.map limit?).getD (some none) }

def ofArray? : List Value → Option Config
  | [inputMesh, chares, algorithm, feedback] => ofValues? inputMesh chares algorithm feedback none
  | [inputMesh, chares, algorithm, feedback, limit] =>
    ofValues? inputMesh chares algorithm feedback (some limit)
  | _ => none

def ofMembers? (members : List (String × Value)) : Option Config := do
  let inputMesh ← Value.only? "input_mesh" members
  let chares ← Value.only? "chares" members
  let algorithm ← Value.only? "algorithm" members
  let feedback ← Value.only? "feedback" members
  match members.filter fun m => m.1 = "wire_limit" with
  | [] => ofValues? inputMesh chares algorithm feedback none
  | [m] => ofValues? inputMesh chares algorithm feedback (some m.2)
  | _ => none

def ofValue? : Value → Option Config
  | .array l => ofArray? l
  | .object members => (Value.named? members).bind ofMembers?
  | _ => none

def ofText? (text : String) : Option Config := (Value.ofText? text.toList).bind ofValue?

/-! Writing. -/

def separate : List (List Char) → List Char
  | [] => []
  | [a] => a
  | a :: l => a ++ ',' :: separate l

def writeObject (members : List (String × List Char)) : List Char :=
  let written := members.map fun m => Quoted.write m.1.toList ++ ':' :: m.2
  '\x7b' :: separate written ++ ['\x7d']

def writeFloat (x : Float) : List Char := (amount.write x).toList

def writeChares : ChareCount → List Char
  | .fixed n => writeObject [("fixed", Decimal.digits n)]
  | .virtualization v => writeObject [("virtualization", writeFloat v)]

def writeAlgorithm (a : Algorithm) : List Char :=
  let kind := ("kind", Quoted.write a.kind.toList)
  match a with
  | .slab axis lo hi =>
    writeObject [kind, ("axis", Quoted.write axis.name.toList), ("lo", writeFloat lo),
      ("hi", writeFloat hi)]
  | _ => writeObject [kind]

def writeBool (b : Bool) : List Char := (if b then "true" else "false").toList

def writeLimit : Option Nat → List Char
  | none => "null".toList
  | some n => Decimal.digits n

def fields (c : Config) : List (String × List Char) :=
  [("input_mesh", Quoted.write c.inputMesh.toList), ("chares", writeChares c.chares),
    ("algorithm", writeAlgorithm c.algorithm), ("feedback", writeBool c.feedback),
    ("wire_limit", writeLimit c.frameLimit)]

def toText (c : Config) : String := String.ofList (writeObject c.fields)

end Config
end MeshNumbering
