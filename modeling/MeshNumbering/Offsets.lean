import MeshNumbering.RollCall
import MeshNumbering.Word

/-! Where each processor's new ids start: behind those of all lower processors. -/

namespace MeshNumbering

structure Offsets where
  pe : Nat
  counts : RollCall Nat
deriving DecidableEq

namespace Offsets

def start (pe npes : Nat) : Offsets := ⟨pe, .start .offset npes⟩

def record (o : Offsets) (sender count : Nat) : Except Fault Offsets :=
  (o.counts.record o.pe sender count).map fun counts => { o with counts }

def isComplete (o : Offsets) : Bool := o.counts.isComplete

/-- The first new id of this processor, once every count is in. The counts are meant to add up to
less than `wordSize`; only forged ones do not. -/
def base? (o : Offsets) : Option Nat :=
  if o.isComplete then
    some (sum ((o.counts.contributions.takeWhile fun c => c.1 < o.pe).map Prod.snd))
  else none

/-- The number of nodes in the whole mesh, once every count is in; meant to be below `wordSize`. -/
def total? (o : Offsets) : Option Nat :=
  if o.isComplete then some (sum (o.counts.contributions.map Prod.snd)) else none

end Offsets
end MeshNumbering
