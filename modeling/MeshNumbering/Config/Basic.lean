import MeshNumbering.Strategy

/-! What a run is asked to do: how many chares, which strategy, whether to report progress, and how
long a received frame may be. -/

namespace MeshNumbering

inductive Algorithm where
  | block
  | cyclic
  | slab (axis : Axis) (lo hi : Float)
deriving DecidableEq

/-- The number of chares: given outright, or as a degree between 0, about one chare for each
processor, and 1, one chare for each element. -/
inductive ChareCount where
  | fixed (n : Nat)
  | virtualization (v : Float)
deriving DecidableEq

structure Config where
  inputMesh : String
  chares : ChareCount
  algorithm : Algorithm
  feedback : Bool
  frameLimit : Option Nat
deriving DecidableEq

namespace Algorithm

def needsCentroids : Algorithm → Bool
  | slab .. => true
  | _ => false

def strategy (total : Nat) : Algorithm → Strategy
  | block => .block total
  | cyclic => .cyclic
  | slab axis lo hi => .slab axis lo hi

end Algorithm

def elementsPerChare (v : Float) (total npes : Nat) : Nat :=
  max ((1.0 - v) * Float.ofNat total / Float.ofNat npes + v).toUInt64.toNat 1

def ChareCount.forMesh (c : ChareCount) (total npes : Nat) : Except ConfigFault Nat := do
  let nchare ←
    match c with
    | fixed n => pure n
    | virtualization v =>
      if 0.0 ≤ v ∧ v ≤ 1.0 then pure (max (total / elementsPerChare v total npes) 1)
      else throw (.virtualization v)
  if nchare = 0 then throw .noChares
  if nchare < npes then throw (.fewerCharesThanProcessors nchare npes)
  return nchare

namespace Config

def default : Config := ⟨"", .virtualization 0.0, .block, false, none⟩

instance : Inhabited Config := ⟨default⟩

def ofCount (n : Nat) : Config := { default with chares := .fixed n }

def check (c : Config) (npes : Nat) : Except ConfigFault Unit := do
  if npes = 0 then throw .noProcessors
  if let .fixed n := c.chares then
    if n < npes then throw (.fewerCharesThanProcessors n npes)
  if let .slab _ lo hi := c.algorithm then
    if ¬ lo < hi then throw (.emptySlab lo hi)

end Config
end MeshNumbering
