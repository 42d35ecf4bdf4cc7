import MeshNumbering.Message.Basic
import MeshNumbering.Message.Bytes
import MeshNumbering.Message.Utf8

/-! Messages as frames: a header with version, kind and length of the body, then the body. All
numbers are little-endian; in the body they take eight bytes, the kind four. -/

namespace MeshNumbering

abbrev Frame := List UInt8

structure Packet where
  source : Nat
  target : Nat
  frame : Frame
deriving DecidableEq

namespace Message
open Bytes

def version : Nat := 1

def writeEntry {β : Type} (write : β → List UInt8) (e : Nat × β) : List UInt8 :=
  word e.1 ++ write e.2

def fields : Message → List UInt8
  | load pe n | offset pe n | lower pe n => word pe ++ word n
  | receipt pe | delivered pe => word pe
  | query pe nodes | request pe nodes => word pe ++ sequence word nodes
  | batch pe m | mask pe m => word pe ++ sequence (writeEntry (sequence word)) m.entries
  | assigned pe ids => word pe ++ sequence (writeEntry word) ids.entries
  | cost pe bits | deviation pe bits => word pe ++ word bits.toNat
  | abort pe reason =>
    let text := Utf8.encode reason.toList
    word pe ++ word text.length ++ text

def body (m : Message) : List UInt8 := littleEndian 4 m.kind.index ++ m.fields

def header (m : Message) : List UInt8 :=
  littleEndian 2 version ++ littleEndian 2 m.kind.code ++ littleEndian 4 m.body.length

def encode (m : Message) : Frame := m.header ++ m.body

def unfit? (m : Message) : Option FrameFault :=
  if m.numbers.all fun n => n < wordSize then
    if m.body.length < halfWordSize then none else some (.bodyTooLong m.body.length)
  else some .numberTooLarge

def frame (m : Message) : Except FrameFault Frame :=
  match m.unfit? with
  | some e => .error e
  | none => .ok m.encode

def readEntry {β : Type} (read : Read β) : Read (Nat × β) := fun l => do
  let (k, l) ← readWord l
  let (b, l) ← read l
  return ((k, b), l)

/-- Entries may come in any order; of two with one key the later counts. -/
def readMap {β : Type} (read : Read β) : Read (NatMap β) := fun l => do
  let (entries, l) ← readSequence (readEntry read) l
  return (.ofList entries, l)

def readText : Read String := fun l => do
  let (n, l) ← readWord l
  match split? n l with
  | none => throw .textCut
  | some (text, rest) => return (String.ofList (← Utf8.decode text), rest)

def readBits : Read UInt64 := fun l => do
  let (n, l) ← readWord l
  return (UInt64.ofNat n, l)

def readPair {α : Type} (make : Nat → α → Message) (read : Read α) : Read Message := fun l => do
  let (pe, l) ← readWord l
  let (a, l) ← read l
  return (make pe a, l)

def readAlone (make : Nat → Message) : Read Message := fun l => do
  let (pe, l) ← readWord l
  return (make pe, l)

def readFields : MessageKind → Read Message
  | .load => readPair load readWord
  | .batch => readPair batch (readMap (readSequence readWord))
  | .receipt => readAlone receipt
  | .delivered => readAlone delivered
  | .query => readPair query (readSequence readWord)
  | .mask => readPair mask (readMap (readSequence readWord))
  | .offset => readPair offset readWord
  | .request => readPair request (readSequence readWord)
  | .assigned => readPair assigned (readMap readWord)
  | .lower => readPair lower readWord
  | .cost => readPair cost readBits
  | .deviation => readPair deviation readBits
  | .abort => readPair abort readText

/-- Bytes behind the last field are left alone. -/
def readBody : Read Message := fun l => do
  let (index, l) ← readNumber 4 l
  match MessageKind.ofIndex? index with
  | none => throw (.unknownKind index)
  | some kind => readFields kind l

def decode (limit : Option Nat) (frame : Frame) : Except FrameFault Message := do
  if let some limit := limit then
    if limit < frame.length then throw (.overLimit frame.length limit)
  if frame.length < 8 then throw (.noHeader frame.length)
  let found := ofLittleEndian (frame.take 2)
  if found ≠ version then throw (.version found)
  let code := ofLittleEndian ((frame.drop 2).take 2)
  let length := ofLittleEndian ((frame.drop 4).take 4)
  let body := frame.drop 8
  if body.length ≠ length then throw (.bodyLength length body.length)
  let (m, _) ← readBody body
  if m.kind.code ≠ code then throw (.kindMismatch code m.kind)
  return m

end Message
end MeshNumbering
