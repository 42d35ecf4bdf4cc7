import MeshNumbering.Proofs.Network.Success
import MeshNumbering.Proofs.Scenario.InMemory

/-! What an accepted mesh is proof against. No processor of any run fails because its part of the
mesh cannot be read or because an algorithm of the configuration has no proper answer for it,
wherever the nodes are. -/

namespace MeshNumbering

/-- The elements of a chunk can be assigned to chares by an algorithm: there is a centroid for each
of them, if there are any, and what is made of the centroids passes the check. -/
structure Chunk.Assignable (c : Chunk) (reader : Reader) (a : Algorithm) (total nchare : Nat) :
    Prop where
  located : c.elements ≠ [] → ∃ lo hi block points, nodeRange? c.connectivity = some (lo, hi) ∧
    reader.coordinates lo hi = .ok block ∧ c.centroids block = .ok points ∧
    ∀ axis, (points.along axis).length = c.size
  assigned : ∃ points chares,
    (if a.needsCentroids then c.readCentroids reader else .ok .empty) = .ok points ∧
    a.strategy total points c.elements c.size nchare = .ok chares ∧
    Strategy.verify chares c.size nchare = .ok ()

theorem Mesh.Valid.assignable_part {m : Mesh} (hm : m.Valid) {pe npes nchare : Nat} (h : pe < npes)
    (hn : 0 < nchare) (a : Algorithm) :
    (m.part npes pe).Assignable m.reader a m.elementCount nchare := by
  have hlength := Chunk.length_connectivity (hm.read_eq_ok h)
  obtain ⟨points, hpoints, hcentroids⟩ := hm.readCentroids_part h
  constructor
  · intro hne
    cases hrange : nodeRange? (m.part npes pe).connectivity with
    | none =>
      have hempty := Chunk.size_of_nodeRange?_eq_none hlength hrange
      exact absurd (List.eq_nil_of_length_eq_zero hempty) hne
    | some range =>
      obtain ⟨lo, hi⟩ := range
      obtain ⟨block, found, hblock, hfound, hall⟩ :=
        hm.centroids_eq_ok hlength hm.lt_nodeCount_of_mem_part hrange
      exact ⟨lo, hi, block, found, rfl, hblock, hfound, hall⟩
  · cases hneeds : a.needsCentroids with
    | true =>
      obtain ⟨chares, hchares, hproper⟩ :=
        a.verify_strategy hn (Mesh.lt_of_mem_part h) fun _ => hcentroids
      exact ⟨points, chares, hpoints, hchares, hproper⟩
    | false =>
      have hplain : a.needsCentroids = true → ∀ axis,
          (Centroids.empty.along axis).length = (m.part npes pe).elements.length := by
        rw [hneeds]
        exact fun hno => absurd hno Bool.false_ne_true
      obtain ⟨chares, hchares, hproper⟩ := a.verify_strategy hn (Mesh.lt_of_mem_part h) hplain
      exact ⟨.empty, chares, rfl, hchares, hproper⟩

/-- Every part of an accepted mesh can be read and assigned by every algorithm of the configuration.
So processors that use these never fail for the mesh, its coordinates, or an assignment, in any
order of starts and deliveries. -/
theorem Mesh.assigned_without_fault {connectivity : List Nat} {x y z : List Float} {m : Mesh}
    (hm : ofArrays connectivity x y z = .ok m) :
    (∀ (a : Algorithm) (npes pe nchare : Nat), pe < npes → 0 < nchare →
      ∃ c, Chunk.read m.reader pe npes = .ok c ∧
        c.Assignable m.reader a m.elementCount nchare) ∧
    ∀ t : Scenario, t.reader = m.reader → t.strategy = none → ∀ l n, Run t .exact l n →
      ∀ p ∈ n.processors, ∀ e, p.status = .returned (.error e) → e.hindersAssignment = false := by
  have hvalid := (ofArrays_eq_ok_iff.1 hm).2
  constructor
  · intro a npes pe nchare hpe hn
    exact ⟨m.part npes pe, hvalid.read_eq_ok hpe, hvalid.assignable_part hpe hn a⟩
  · intro t hreader hstrategy l n hr p hp e hstatus
    obtain ⟨pe, hget⟩ := List.mem_iff_getElem?.1 hp
    have hs := hr.sound
    have hpe := hs.pe_lt hget
    have hmemory : t.InMemory m := ⟨hvalid, hreader, Nat.zero_lt_of_lt hpe⟩
    cases hremote : e.isRemote with
    | true =>
      cases e with
      | aborted => rfl
      | _ => cases hremote
    | false =>
      have hflaw := (hs.stands pe p hget).flaw rfl hstatus hremote
      exact hmemory.not_hindersAssignment hstrategy hpe hflaw

theorem Mesh.numberless_assigned :
    (∃ m, ofArrays [0, 1, 2, 3, 1, 2, 3, 0] (.replicate 4 (0.0 / 0.0)) (.replicate 4 (0.0 / 0.0))
        (.replicate 4 (0.0 / 0.0)) = .ok m ∧
      ∀ pe < 3, ∃ c, Chunk.read m.reader pe 3 = .ok c ∧
        c.Assignable m.reader (.slab .y 0.0 1.0) m.elementCount 2) ∧
    ofArrays [0, 1, 2, 3, 1, 2, 3, 4] (.replicate 5 0.0) (.replicate 5 0.0) (.replicate 5 0.0) =
      .ok twoTetrahedra ∧
    ∃ l n p e, Run (twoTetrahedra.dealt 2 3) .exact l n ∧ p ∈ n.processors ∧
      p.status = .returned (.error e) ∧ e.hindersAssignment = false := by
  have haccepted : ofArrays [0, 1, 2, 3, 1, 2, 3, 4] (.replicate 5 0.0) (.replicate 5 0.0)
      (.replicate 5 0.0) = .ok twoTetrahedra := rfl
  refine ⟨⟨_, rfl, fun pe hpe => ?_⟩, haccepted, ?_⟩
  · have hnumberless : ofArrays [0, 1, 2, 3, 1, 2, 3, 0] (.replicate 4 (0.0 / 0.0))
        (.replicate 4 (0.0 / 0.0)) (.replicate 4 (0.0 / 0.0)) = .ok _ := rfl
    exact (assigned_without_fault hnumberless).1 (.slab .y 0.0 1.0) 3 pe 2 hpe (by decide)
  · obtain ⟨l, hr⟩ := Run.played (twoTetrahedra.dealt 2 3) .exact (.replicate 40 0)
    have hresult : ((twoTetrahedra.dealt 2 3).played .exact
        (.replicate 40 0)).processors[1]?.bind Processor.result? =
          some (.error (.emptyChare 1 2)) := by decide +kernel
    obtain ⟨p, hp, hstatus⟩ := Option.bind_eq_some_iff.1 hresult
    rw [Processor.result?_eq_some_iff] at hstatus
    have hmem := List.mem_of_getElem? hp
    exact ⟨l, _, p, _, hr, hmem, hstatus,
      (assigned_without_fault haccepted).2 _ rfl rfl l _ hr p hmem _ hstatus⟩

end MeshNumbering
