import MeshNumbering.Json.Token

/-! JSON values. Numerals and text keep the form they were written in, objects the order of their
members and every repetition, since what to make of them is for the reader of a value to decide. -/

namespace MeshNumbering.Json

inductive Value where
  | null
  | bool (b : Bool)
  | number (n : Numeral)
  | text (s : List Piece)
  | array (l : List Value)
  | object (l : List (List Piece × Value))

namespace Value

mutual

/-- Reads a value from tokens. Every step takes a token or goes from a list to its first element, so
twice as many steps as tokens are enough. -/
def read : Nat → List Token → Option (Value × List Token)
  | 0, _ => none
  | n + 1, tokens =>
    match tokens with
    | .null :: l => some (.null, l)
    | .bool b :: l => some (.bool b, l)
    | .number m :: l => some (.number m, l)
    | .text s :: l => some (.text s, l)
    | .beginArray :: .endArray :: l => some (.array [], l)
    | .beginArray :: l => (readElements n l).map fun (vs, l) => (.array vs, l)
    | .beginObject :: .endObject :: l => some (.object [], l)
    | .beginObject :: l => (readMembers n l).map fun (ms, l) => (.object ms, l)
    | _ => none

def readElements : Nat → List Token → Option (List Value × List Token)
  | 0, _ => none
  | n + 1, l => do
    let (v, l) ← read n l
    match l with
    | .comma :: l => do
      let (vs, l) ← readElements n l
      return (v :: vs, l)
    | .endArray :: l => return ([v], l)
    | _ => none

def readMembers : Nat → List Token → Option (List (List Piece × Value) × List Token)
  | n + 1, .text key :: .colon :: l => do
    let (v, l) ← read n l
    match l with
    | .comma :: l => do
      let (ms, l) ← readMembers n l
      return ((key, v) :: ms, l)
    | .endObject :: l => return ([(key, v)], l)
    | _ => none
  | _, _ => none

end

def ofText? (text : List Char) : Option Value := do
  let tokens ← Token.scan text
  match read (2 * tokens.length + 2) tokens with
  | some (v, []) => some v
  | _ => none

mutual

def depth : Value → Nat
  | array l => depthOfElements l + 1
  | object l => depthOfMembers l + 1
  | _ => 0

def depthOfElements : List Value → Nat
  | [] => 0
  | v :: l => max v.depth (depthOfElements l)

def depthOfMembers : List (List Piece × Value) → Nat
  | [] => 0
  | (_, v) :: l => max v.depth (depthOfMembers l)

end

mutual

def isSound : Value → Bool
  | number n => n.float?.isSome
  | text s => (Quoted.decode? s).isSome
  | array l => elementsSound l
  | object l => membersSound l
  | _ => true

def elementsSound : List Value → Bool
  | [] => true
  | v :: l => v.isSound && elementsSound l

def membersSound : List (List Piece × Value) → Bool
  | [] => true
  | (key, v) :: l => (Quoted.decode? key).isSome && v.isSound && membersSound l

end

def text? : Value → Option String
  | text s => (Quoted.decode? s).map String.ofList
  | _ => none

def nat? : Value → Option Nat
  | number n => n.nat?
  | _ => none

def float? : Value → Option Float
  | number n => n.float?
  | _ => none

def bool? : Value → Option Bool
  | bool b => some b
  | _ => none

def named? (members : List (List Piece × Value)) : Option (List (String × Value)) :=
  members.mapM fun (key, v) => (Quoted.decode? key).map fun s => (String.ofList s, v)

def only? (name : String) (members : List (String × Value)) : Option Value :=
  match members.filter fun m => m.1 = name with
  | [m] => some m.2
  | _ => none

end Value
end MeshNumbering.Json
