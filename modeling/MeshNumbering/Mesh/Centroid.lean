import MeshNumbering.Mesh.Chunk

/-! Element centroids, from which geometric strategies place elements. -/

namespace MeshNumbering

structure Centroids where
  x : List Float
  y : List Float
  z : List Float
deriving DecidableEq

namespace Centroids

def empty : Centroids := ⟨[], [], []⟩

def along (c : Centroids) : Axis → List Float
  | .x => c.x
  | .y => c.y
  | .z => c.z

def ofPoints (l : List Point) : Centroids :=
  ⟨l.map Point.x, l.map Point.y, l.map Point.z⟩

end Centroids

def sumOfNodes (block : CoordinateBlock) (element : Nat) :
    Point → List Nat → Except MeshFault Point
  | p, [] => .ok p
  | p, n :: l =>
    match block.get? n with
    | none => .error (.nodeOutsideBlock element n)
    | some q => sumOfNodes block element (p.add q) l

def centroidPoints (block : CoordinateBlock) :
    List Nat → List Nat → Except MeshFault (List Point)
  | [], _ => .ok []
  | e :: es, a :: b :: c :: d :: connectivity => do
    let p ← sumOfNodes block e .origin [a, b, c, d]
    let rest ← centroidPoints block es connectivity
    return p.quarter :: rest
  | e :: _, _ => .error (.elementMissing e)

def Chunk.centroids (c : Chunk) (block : CoordinateBlock) : Except MeshFault Centroids :=
  (centroidPoints block c.elements c.connectivity).map .ofPoints

def Chunk.readCentroids (c : Chunk) (reader : Reader) : Except Fault Centroids :=
  match nodeRange? c.connectivity with
  | none => .ok .empty
  | some (lo, hi) => do (c.centroids (← reader.coordinates lo hi)).mapError .mesh

end MeshNumbering
