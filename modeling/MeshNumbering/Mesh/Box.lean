import MeshNumbering.Mesh.Basic

/-! A box of unit cubes, each cut into six tetrahedra around its main diagonal. A tetrahedron is a
walk from one corner of a cube to the opposite one that takes each axis once. -/

namespace MeshNumbering.Mesh

structure Corner where
  i : Nat
  j : Nat
  k : Nat
deriving DecidableEq

def Corner.step (c : Corner) : Axis → Corner
  | .x => { c with i := c.i + 1 }
  | .y => { c with j := c.j + 1 }
  | .z => { c with k := c.k + 1 }

def walks : List (Axis × Axis × Axis) :=
  [(.x, .y, .z), (.x, .z, .y), (.y, .x, .z), (.y, .z, .x), (.z, .x, .y), (.z, .y, .x)]

def walk (c : Corner) (w : Axis × Axis × Axis) : List Corner :=
  let c₁ := c.step w.1
  let c₂ := c₁.step w.2.1
  [c, c₁, c₂, c₂.step w.2.2]

def grid (nx ny nz : Nat) : List Corner :=
  (List.range nz).flatMap fun k => (List.range ny).flatMap fun j =>
    (List.range nx).map fun i => ⟨i, j, k⟩

def nodeId (nx ny : Nat) (c : Corner) : Nat := c.i + (nx + 1) * (c.j + (ny + 1) * c.k)

def tetrahedra (nx ny nz : Nat) : List (List Corner) :=
  (grid nx ny nz).flatMap fun c => walks.map (walk c)

def box (nx ny nz : Nat) : Mesh :=
  let nodes := grid (nx + 1) (ny + 1) (nz + 1)
  { connectivity := (tetrahedra nx ny nz).flatMap fun t => t.map (nodeId nx ny)
    x := nodes.map fun c => Float.ofNat c.i
    y := nodes.map fun c => Float.ofNat c.j
    z := nodes.map fun c => Float.ofNat c.k }

end MeshNumbering.Mesh
