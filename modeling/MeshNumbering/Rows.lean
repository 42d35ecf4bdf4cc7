import MeshNumbering.Ordered.NatSet

/-! The rows of the linear system each processor assembles, and what that costs. The rows of a
processor begin where those of the previous one end, and its cost is the share of the ids it touches
that lie outside its own rows. -/

namespace MeshNumbering

structure RowRange where
  lower : Nat
  upper : Nat
deriving DecidableEq

namespace RowRange

def contains (r : RowRange) (id : Nat) : Bool := r.lower ≤ id ∧ id < r.upper

def size (r : RowRange) : Nat := r.upper - r.lower

def isEmpty (r : RowRange) : Bool := r.upper = r.lower

def cost (r : RowRange) (touched : NatSet) : Float :=
  if touched.isEmpty then 0.0
  else Float.ofNat (touched.filter fun id => !r.contains id).size / Float.ofNat touched.size

end RowRange

/-- Upper end of the rows of a processor whose own ids start at `base`: the largest id it touches,
and one more on the last processor, but never below `base`. Ids are meant to stay below `wordSize`,
so that the row behind the last one is still a word. -/
def upperRow (touched : NatSet) (base : Nat) (last : Bool) : Nat :=
  match touched.max? with
  | none => base
  | some id => max (if last then id + 1 else id) base

end MeshNumbering
