import MeshNumbering.Mesh.Chunk

/-! Which processor owns which chare: equal contiguous runs, the last processor also taking the
remainder. -/

namespace MeshNumbering

structure Layout where
  nchare : Nat
  npes : Nat
  npes_pos : 0 < npes
  npes_le : npes ≤ nchare
deriving DecidableEq

namespace Layout

def of (nchare npes : Nat) : Except ConfigFault Layout :=
  if h : 0 < npes ∧ npes ≤ nchare then .ok ⟨nchare, npes, h.1, h.2⟩
  else .error (.undistributable nchare npes)

def share (l : Layout) : Nat := l.nchare / l.npes

def owner (l : Layout) (chare : Nat) : Nat := min (chare / l.share) (l.npes - 1)

def owned (l : Layout) (pe : Nat) : Span :=
  let start := pe * l.share
  ⟨start, if pe + 1 = l.npes then l.nchare else start + l.share⟩

def owns (l : Layout) (pe chare : Nat) : Bool := chare < l.nchare ∧ l.owner chare = pe

theorem of_eq_ok {nchare npes : Nat} {l : Layout} (h : of nchare npes = .ok l) :
    l.nchare = nchare ∧ l.npes = npes := by
  simp only [of] at h
  split at h
  · obtain rfl := Except.ok.inj h
    exact ⟨rfl, rfl⟩
  · simp at h

theorem share_pos (l : Layout) : 0 < l.share := Nat.div_pos l.npes_le l.npes_pos

theorem owner_lt (l : Layout) (chare : Nat) : l.owner chare < l.npes := by
  have := l.npes_pos
  simp only [owner]
  omega

end Layout
end MeshNumbering
