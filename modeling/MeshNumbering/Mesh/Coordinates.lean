/-! Node coordinates for one contiguous block of node ids. -/

namespace MeshNumbering

inductive Axis where
  | x
  | y
  | z
deriving DecidableEq

def Axis.index : Axis → Nat
  | x => 0
  | y => 1
  | z => 2

structure Point where
  x : Float
  y : Float
  z : Float
deriving DecidableEq

namespace Point

def origin : Point := ⟨0.0, 0.0, 0.0⟩

def add (p q : Point) : Point := ⟨p.x + q.x, p.y + q.y, p.z + q.z⟩

def quarter (p : Point) : Point := ⟨p.x / 4.0, p.y / 4.0, p.z / 4.0⟩

end Point

structure CoordinateBlock where
  first : Nat
  x : List Float
  y : List Float
  z : List Float
deriving DecidableEq

namespace CoordinateBlock

def size (b : CoordinateBlock) : Nat := b.x.length

def get? (b : CoordinateBlock) (id : Nat) : Option Point :=
  if id < b.first then none
  else
    match b.x[id - b.first]?, b.y[id - b.first]?, b.z[id - b.first]? with
    | some x, some y, some z => some ⟨x, y, z⟩
    | _, _, _ => none

end CoordinateBlock
end MeshNumbering
