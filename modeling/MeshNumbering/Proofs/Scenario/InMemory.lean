import MeshNumbering.Proofs.Scenario.Elements
import MeshNumbering.Proofs.Strategy

/-! Runs on a mesh held in memory. Every processor can read its part of it, and what an algorithm of
the configuration makes of that is a proper assignment. -/

namespace MeshNumbering

def Fault.hindersAssignment : Fault → Bool
  | mesh _ | strategy _ | assignmentLength .. | chareOutOfRange .. => true
  | _ => false

namespace Scenario
variable {t : Scenario} {m : Mesh} {p : Nat} {e : Fault}

structure InMemory (t : Scenario) (m : Mesh) : Prop where
  valid : m.Valid
  reader_eq : t.reader = m.reader
  npes_pos : 0 < t.npes

namespace InMemory
variable (h : t.InMemory m)
include h

theorem read_eq (hp : p < t.npes) : Chunk.read t.reader p t.npes = .ok (m.part t.npes p) := by
  rw [h.reader_eq]
  exact h.valid.read_eq_ok hp

theorem chunk_eq (hp : p < t.npes) : t.chunk p = m.part t.npes p := by
  unfold chunk
  rw [h.read_eq hp]
  rfl

theorem reads (hp : p < t.npes) : t.Reads p := by
  unfold Reads
  rw [h.chunk_eq hp]
  exact h.read_eq hp

theorem elements_eq : t.elements = List.range m.elementCount := by
  obtain ⟨count, hcount, helements⟩ := elements_eq_range h.npes_pos fun p => h.reads
  rw [h.reader_eq] at hcount
  rw [helements, ← Except.ok.inj hcount]

theorem total_eq : t.total = m.elementCount := by
  rw [total_eq_length, h.elements_eq, List.length_range]

theorem lt_of_mem_elements (hp : p < t.npes) :
    ∀ g ∈ (t.chunk p).elements, g < m.elementCount := by
  rw [h.chunk_eq hp]
  exact Mesh.lt_of_mem_part hp

theorem readCentroids_eq (hp : p < t.npes) :
    ∃ points, (t.chunk p).readCentroids t.reader = .ok points ∧
      (t.config.algorithm.needsCentroids = true → t.centroids p = points) ∧
      ∀ axis, (points.along axis).length = t.load p := by
  obtain ⟨points, hpoints, hlength⟩ := h.valid.readCentroids_part hp
  rw [← h.reader_eq, ← h.chunk_eq hp] at hpoints
  refine ⟨points, hpoints, fun hneeds => ?_, fun axis => ?_⟩
  · unfold centroids
    rw [if_pos hneeds, hpoints]
    rfl
  · rw [hlength axis, ← h.chunk_eq hp]
    rfl

theorem exists_assignment (hstrategy : t.strategy = none) (hp : p < t.npes) :
    ∃ chares, t.planner (t.centroids p) (t.chunk p).elements (t.load p) t.layout.nchare =
        .ok chares ∧
      Strategy.verify chares (t.load p) t.layout.nchare = .ok () := by
  have hn : 0 < t.layout.nchare := Nat.lt_of_lt_of_le t.layout.npes_pos t.layout.npes_le
  obtain ⟨points, -, hcentroids, hlength⟩ := h.readCentroids_eq hp
  unfold planner
  rw [hstrategy, h.total_eq]
  apply t.config.algorithm.verify_strategy hn (h.lt_of_mem_elements hp)
  intro hneeds axis
  rw [hcentroids hneeds]
  exact hlength axis

theorem not_hindersAssignment (hstrategy : t.strategy = none) (hp : p < t.npes)
    (hflaw : t.Flaw p e) : e.hindersAssignment = false := by
  cases hflaw with
  | config | count | layout | idle | unfit | limit => rfl
  | chunk hread =>
    rw [h.reads hp] at hread
    cases hread
  | centroids needs hcentroids =>
    obtain ⟨points, hpoints, -⟩ := h.readCentroids_eq hp
    rw [hpoints] at hcentroids
    cases hcentroids
  | strategy hplan =>
    obtain ⟨chares, hchares, -⟩ := h.exists_assignment hstrategy hp
    rw [hchares] at hplan
    cases hplan
  | assignment hplan hverify =>
    obtain ⟨chares, hchares, hproper⟩ := h.exists_assignment hstrategy hp
    rw [hchares] at hplan
    obtain rfl := Except.ok.inj hplan
    rw [hproper] at hverify
    cases hverify

end InMemory
end Scenario
end MeshNumbering
