import MeshNumbering.Mesh.Centroid
import MeshNumbering.Word

/-! Strategies assign mesh elements to chares, the units of work. Only the length and the range of
an assignment are checked; how it was chosen is the strategy's own affair. -/

namespace MeshNumbering

/-- `strategy centroids elements count nchare` gives one chare below `nchare` for each of the
`count` elements, whose global ids are `elements`. It may fail with any fault at all. -/
abbrev Strategy := Centroids → List Nat → Nat → Nat → Except Fault (List Nat)

namespace Strategy

def block (total : Nat) : Strategy := fun _ elements _ nchare =>
  if total = 0 then .ok []
  else .ok (elements.map fun g => g * nchare / total % wordSize)

def cyclic : Strategy := fun _ elements _ nchare =>
  if nchare = 0 ∧ elements ≠ [] then .error (.strategy .noChares)
  else .ok (elements.map (· % nchare))

def clamp (lo hi x : Float) : Float := if x < lo then lo else if hi < x then hi else x

/-- The slab of a coordinate among `nchare` equal slabs of `[lo, hi]`; the outermost slabs also take
what lies outside, and the first takes what is no number. -/
def slabOf (lo hi : Float) (nchare : Nat) (c : Float) : Nat :=
  let t := clamp 0.0 1.0 ((c - lo) / (hi - lo))
  min (t * Float.ofNat nchare).toUInt64.toNat (nchare - 1)

def slab (axis : Axis) (lo hi : Float) : Strategy := fun centroids _ count nchare =>
  let coordinate := centroids.along axis
  if coordinate.length ≠ count then .error (.strategy (.centroidCount count coordinate.length))
  else .ok (coordinate.map (slabOf lo hi nchare))

def provided (parts : List Nat) : Strategy := fun _ elements _ _ =>
  elements.mapM fun g =>
    match parts[g]? with
    | some chare => .ok chare
    | none => .error (.strategy (.elementUnlisted g))

def constant (answer : Except Fault (List Nat)) : Strategy := fun _ _ _ _ => answer

def verify (chares : List Nat) (count nchare : Nat) : Except Fault Unit :=
  if chares.length ≠ count then .error (.assignmentLength count chares.length)
  else
    match chares.find? fun c => nchare ≤ c with
    | some c => .error (.chareOutOfRange c nchare)
    | none => .ok ()

theorem verify_eq_ok_iff {chares : List Nat} {count nchare : Nat} :
    verify chares count nchare = .ok () ↔
      chares.length = count ∧ ∀ c ∈ chares, c < nchare := by
  simp only [verify]
  split
  · next h => simp [h]
  · next h =>
    split
    · next c hc =>
      have hle := List.find?_some hc
      simp only [decide_eq_true_eq] at hle
      simp only [reduceCtorEq, false_iff, not_and]
      intro _ hlt
      exact absurd (hlt c (List.mem_of_find?_eq_some hc)) (by omega)
    · next hc =>
      simp only [List.find?_eq_none, decide_eq_true_eq, Nat.not_le] at hc
      simpa using ⟨by omega, hc⟩

end Strategy
end MeshNumbering
