import MeshNumbering.Fault
import MeshNumbering.Mesh.Coordinates

/-! Tetrahedral meshes held in memory, and the reader through which the rest of the library sees any
mesh: element connectivity by global element range, coordinates by global node range. -/

namespace MeshNumbering

structure Mesh where
  connectivity : List Nat
  x : List Float
  y : List Float
  z : List Float
deriving DecidableEq

/-- A source of mesh data. `elements lo hi` covers the elements from `lo` up to but not including
`hi`; `coordinates lo hi` covers the nodes from `lo` up to and including `hi`. Like a strategy, a
reader may fail with any fault at all. -/
structure Reader where
  elementCount : Except Fault Nat
  elements : Nat → Nat → Except Fault (List Nat)
  coordinates : Nat → Nat → Except Fault CoordinateBlock

namespace Mesh

def nodeCount (m : Mesh) : Nat := m.x.length

def elementCount (m : Mesh) : Nat := m.connectivity.length / 4

/-- The axes agree in length, elements are whole, and every element names existing nodes. -/
structure Valid (m : Mesh) : Prop where
  y_length : m.y.length = m.x.length
  z_length : m.z.length = m.x.length
  whole : 4 ∣ m.connectivity.length
  nodes : ∀ n ∈ m.connectivity, n < m.nodeCount

def ofArrays (connectivity : List Nat) (x y z : List Float) : Except MeshFault Mesh :=
  if x.length ≠ y.length ∨ x.length ≠ z.length then
    .error (.axesDiffer x.length y.length z.length)
  else if connectivity.length % 4 ≠ 0 then .error (.raggedConnectivity connectivity.length)
  else
    match connectivity.find? fun n => x.length ≤ n with
    | some n => .error (.danglingNode n x.length)
    | none => .ok ⟨connectivity, x, y, z⟩

def readElements (m : Mesh) (lo hi : Nat) : Except Fault (List Nat) :=
  if hi < lo ∨ m.elementCount < hi then .error (.mesh (.elementsOutside lo hi m.elementCount))
  else .ok ((m.connectivity.drop (4 * lo)).take (4 * (hi - lo)))

def readCoordinates (m : Mesh) (lo hi : Nat) : Except Fault CoordinateBlock :=
  if hi < lo ∨ m.nodeCount ≤ hi then .error (.mesh (.nodesOutside lo hi m.nodeCount))
  else
    let cut (l : List Float) := (l.drop lo).take (hi + 1 - lo)
    .ok ⟨lo, cut m.x, cut m.y, cut m.z⟩

def reader (m : Mesh) : Reader where
  elementCount := .ok m.elementCount
  elements := m.readElements
  coordinates := m.readCoordinates

theorem ofArrays_eq_ok_iff {c : List Nat} {x y z : List Float} {m : Mesh} :
    ofArrays c x y z = .ok m ↔ m = ⟨c, x, y, z⟩ ∧ m.Valid := by
  simp only [ofArrays]
  split
  · next h =>
    simp only [reduceCtorEq, false_iff, not_and]
    rintro rfl ⟨hy, hz, -, -⟩
    simp only at hy hz
    omega
  · next hl =>
    split
    · next h =>
      simp only [reduceCtorEq, false_iff, not_and]
      rintro rfl ⟨-, -, hw, -⟩
      exact h (Nat.mod_eq_zero_of_dvd hw)
    · next hw =>
      split
      · next n hn =>
        simp only [reduceCtorEq, false_iff, not_and]
        rintro rfl ⟨-, -, -, hnodes⟩
        have hlt : n < x.length := hnodes n (List.mem_of_find?_eq_some hn)
        have hle := List.find?_some hn
        simp only [decide_eq_true_eq] at hle
        omega
      · next hn =>
        simp only [List.find?_eq_none, decide_eq_true_eq, Nat.not_le] at hn
        simp only [Except.ok.injEq]
        constructor
        · rintro rfl
          exact ⟨rfl, by simp only; omega, by simp only; omega,
            Nat.dvd_of_mod_eq_zero (by simpa using hw), hn⟩
        · rintro ⟨rfl, -⟩
          rfl

end Mesh

/-- A reader that answers from recorded data: `connectivity` cut to the range asked for, as far as
it goes, and always the same coordinate block. -/
def Reader.recorded (count : Option Nat) (connectivity : List Nat)
    (block : Option CoordinateBlock) : Reader where
  elementCount :=
    match count with
    | some n => .ok n
    | none => .error (.mesh (.reported "no element count"))
  elements lo hi := .ok ((connectivity.take (4 * hi)).drop (4 * lo))
  coordinates _ _ :=
    match block with
    | some b => .ok b
    | none => .error (.mesh (.reported "no coordinates"))

end MeshNumbering
