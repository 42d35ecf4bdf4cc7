import MeshNumbering.Fault

/-! Little-endian numbers and counted sequences as bytes. A reader takes what it needs from the
front and hands back the rest. -/

namespace MeshNumbering.Bytes

def littleEndian : Nat → Nat → List UInt8
  | 0, _ => []
  | width + 1, n => UInt8.ofNat n :: littleEndian width (n / 256)

def ofLittleEndian : List UInt8 → Nat
  | [] => 0
  | b :: l => b.toNat + 256 * ofLittleEndian l

def word (n : Nat) : List UInt8 := littleEndian 8 n

def sequence {α : Type} (write : α → List UInt8) (l : List α) : List UInt8 :=
  word l.length ++ l.flatMap write

abbrev Read (α : Type) := List UInt8 → Except FrameFault (α × List UInt8)

def split? : Nat → List UInt8 → Option (List UInt8 × List UInt8)
  | 0, l => some ([], l)
  | _ + 1, [] => none
  | n + 1, b :: l => (split? n l).map fun (front, rest) => (b :: front, rest)

def readNumber (width : Nat) : Read Nat := fun l =>
  match split? width l with
  | some (front, rest) => .ok (ofLittleEndian front, rest)
  | none => .error .numberCut

def readWord : Read Nat := readNumber 8

def readMany {α : Type} (read : Read α) : Nat → Read (List α)
  | 0, l => .ok ([], l)
  | n + 1, l => do
    let (a, l) ← read l
    let (as, l) ← readMany read n l
    return (a :: as, l)

def readSequence {α : Type} (read : Read α) : Read (List α) := fun l => do
  let (n, l) ← readWord l
  readMany read n l

theorem length_littleEndian (width n : Nat) : (littleEndian width n).length = width := by
  induction width generalizing n with
  | zero => rfl
  | succ width ih => simp [littleEndian, ih]

theorem split?_append {n : Nat} {front rest : List UInt8} (h : front.length = n) :
    split? n (front ++ rest) = some (front, rest) := by
  induction n generalizing front with
  | zero => obtain rfl := List.eq_nil_of_length_eq_zero h; rfl
  | succ n ih =>
    cases front with
    | nil => simp at h
    | cons b front => simp [split?, ih (by simpa using h)]

end MeshNumbering.Bytes
