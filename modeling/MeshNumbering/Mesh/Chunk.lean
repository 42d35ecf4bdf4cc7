import MeshNumbering.Mesh.Basic

/-! The part of a mesh one processor reads first: a contiguous range of elements, equal on all
processors but the last, which also takes the remainder. -/

namespace MeshNumbering

structure Span where
  start : Nat
  stop : Nat
deriving DecidableEq

namespace Span

def size (s : Span) : Nat := s.stop - s.start

def elems (s : Span) : List Nat := List.range' s.start s.size

instance : Membership Nat Span := ⟨fun s n => s.start ≤ n ∧ n < s.stop⟩
instance (n : Nat) (s : Span) : Decidable (n ∈ s) :=
  inferInstanceAs (Decidable (s.start ≤ n ∧ n < s.stop))

theorem mem_def {n : Nat} {s : Span} : n ∈ s ↔ s.start ≤ n ∧ n < s.stop := Iff.rfl

end Span

def elementSpan (count pe npes : Nat) : Span :=
  let npes := max npes 1
  let share := count / npes
  let start := pe * share
  ⟨start, start + share + if pe = npes - 1 then count % npes else 0⟩

structure Chunk where
  connectivity : List Nat
  elements : List Nat
deriving DecidableEq

def nodeRange? : List Nat → Option (Nat × Nat)
  | [] => none
  | n :: l => some (l.foldl min n, l.foldl max n)

namespace Chunk

def size (c : Chunk) : Nat := c.elements.length

/-- Reads the elements of `pe`. A reader is trusted with the content but not with the amount. -/
def read (reader : Reader) (pe npes : Nat) : Except Fault Chunk := do
  let span := elementSpan (← reader.elementCount) pe npes
  let connectivity ← if span.size = 0 then pure [] else reader.elements span.start span.stop
  if connectivity.length ≠ 4 * span.size then
    throw (.mesh (.connectivityLength span.start span.stop (4 * span.size) connectivity.length))
  return ⟨connectivity, span.elems⟩

end Chunk
end MeshNumbering
