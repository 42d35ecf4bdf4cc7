import MeshNumbering.Proofs.Mesh.Centroid
import MeshNumbering.Proofs.NodeLists

/-! What can be relied on after reading, whatever the reader has answered: a chunk has the elements
of its span with four nodes each, so that nothing is cut off by what walks over elements and nodes
together. Of a mesh held in memory the chunks of all processors are the whole. -/

namespace MeshNumbering

namespace Chunk
variable {reader : Reader} {pe npes count : Nat} {c : Chunk}

/-- A chunk has the elements of a span with four nodes each. Centroids are found when every node has
a position, and are never looked for beyond the nodes; and to whichever chares the elements are
assigned, these are given the nodes of all elements, element by element. -/
structure Fills (c : Chunk) (span : Span) : Prop where
  elements_eq : c.elements = span.elems
  length_eq : c.connectivity.length = 4 * c.elements.length
  inside : ∀ block e, c.centroids block ≠ .error (.elementMissing e)
  located_iff : ∀ block, (∃ points, c.centroids block = .ok points ∧
    ∀ axis, (points.along axis).length = c.elements.length) ↔ block.Locates c.connectivity
  dealt : ∀ chares : List Nat, chares.length = c.elements.length →
    (∀ chare, (NodeLists.ofAssignment chares c.connectivity).ofChare chare =
      (NodeLists.places chares chare).flatMap (NodeLists.element c.connectivity)) ∧
    (NodeLists.ofAssignment chares c.connectivity).values.flatten.Perm c.connectivity

theorem fills_of_read (h : read reader pe npes = .ok c)
    (hcount : reader.elementCount = .ok count) : c.Fills (elementSpan count pe npes) := by
  obtain ⟨count', hcount', helements, -⟩ := read_eq_ok_iff.1 h
  obtain rfl := Except.ok.inj (hcount.symm.trans hcount')
  have hlength := length_connectivity h
  refine
    { elements_eq := helements
      length_eq := hlength
      inside := fun block e hmissing => ?_
      located_iff := fun block => ?_
      dealt := fun chares hchares => ?_ }
  · rcases c.centroids_cases hlength block with ⟨-, points, hok, -⟩ | ⟨e', -, n, -, -, herror⟩
    · rw [hok] at hmissing
      cases hmissing
    · rw [herror] at hmissing
      cases hmissing
  · rcases c.centroids_cases hlength block with ⟨hall, hpoints⟩ | ⟨e, -, n, hn, hnone, herror⟩
    · exact iff_of_true hpoints hall
    · refine iff_of_false ?_ fun hall => hall n hn hnone
      rintro ⟨points, hok, -⟩
      rw [herror] at hok
      cases hok
  · have hfour : c.connectivity.length = 4 * chares.length := by rw [hlength, hchares, size]
    exact ⟨fun chare => NodeLists.ofChare_ofAssignment (Nat.le_of_eq hfour.symm),
      NodeLists.values_ofAssignment_perm hfour⟩

end Chunk

theorem Mesh.Valid.flatMap_part {m : Mesh} (hm : m.Valid) {npes : Nat} (hpos : 0 < npes) :
    ((List.range npes).flatMap fun pe => (m.part npes pe).connectivity) = m.connectivity := by
  have hpart : ∀ pe ∈ List.range npes, (m.part npes pe).connectivity =
      (elementSpan m.elementCount pe npes).elems.flatMap (NodeLists.element m.connectivity) :=
    fun pe _ => NodeLists.take_drop_eq_flatMap ..
  have hwhole : 4 * m.elementCount = m.connectivity.length := Nat.mul_div_cancel' hm.whole
  rw [List.flatMap_congr hpart, ← List.flatMap_assoc, flatMap_elementSpan _ hpos,
    List.range_eq_range', ← NodeLists.take_drop_eq_flatMap, hwhole]
  exact List.take_length

namespace Chunk

/-- Processors read consecutive elements, all together the whole mesh. Whoever reads a chunk at all
has four nodes for each of its elements, even from a reader that is wrong. -/
theorem read_fills :
    (∀ count npes, 0 < npes → Span.Tiles (fun pe => elementSpan count pe npes) npes count ∧
      ∀ g, g < count ↔ ∃! pe, pe < npes ∧ g ∈ elementSpan count pe npes) ∧
    (∀ reader pe npes c, read reader pe npes = .ok c → ∃ count,
      reader.elementCount = .ok count ∧ c.Fills (elementSpan count pe npes)) ∧
    ∀ connectivity x y z m npes, Mesh.ofArrays connectivity x y z = .ok m → 0 < npes →
      ∃ chunks : Nat → Chunk, (∀ pe < npes, read m.reader pe npes = .ok (chunks pe)) ∧
        ((List.range npes).flatMap fun pe => (chunks pe).elements) = List.range m.elementCount ∧
        ((List.range npes).flatMap fun pe => (chunks pe).connectivity) = m.connectivity := by
  refine ⟨fun count npes hpos => ?_, fun reader pe npes c h => ?_, ?_⟩
  · have htiles := tiles_elementSpan count hpos
    exact ⟨htiles, fun g => htiles.existsUnique_mem_iff hpos⟩
  · obtain ⟨count, hcount, -⟩ := read_eq_ok_iff.1 h
    exact ⟨count, hcount, fills_of_read h hcount⟩
  · intro connectivity x y z m npes hm hpos
    have hvalid := (Mesh.ofArrays_eq_ok_iff.1 hm).2
    exact ⟨m.part npes, fun pe hpe => hvalid.read_eq_ok hpe,
      flatMap_elementSpan m.elementCount hpos, hvalid.flatMap_part hpos⟩

theorem two_elements_read :
    (∃ c, read (.recorded (some 2) [9, 9, 9, 9, 7, 7, 7, 7] none) 0 1 = .ok c ∧
      (∀ block e, c.centroids block ≠ .error (.elementMissing e)) ∧
      (NodeLists.ofAssignment [5, 5] c.connectivity).ofChare 5 = [9, 9, 9, 9, 7, 7, 7, 7]) ∧
    (∃! pe, pe < 3 ∧ 1 ∈ elementSpan 2 pe 3) ∧
    ∃ m, Mesh.ofArrays [0, 1, 2, 3, 1, 2, 3, 0] (.replicate 4 0.0) (.replicate 4 0.0)
        (.replicate 4 0.0) = .ok m ∧
      ∃ chunks : Nat → Chunk, (∀ pe < 3, read m.reader pe 3 = .ok (chunks pe)) ∧
        ((List.range 3).flatMap fun pe => (chunks pe).connectivity) =
          [0, 1, 2, 3, 1, 2, 3, 0] := by
  obtain ⟨htiles, hfills, hwhole⟩ := read_fills
  refine ⟨?_, ((htiles 2 3 (by decide)).2 1).1 (by decide), ?_⟩
  · obtain ⟨count, -, hc⟩ := hfills (.recorded (some 2) [9, 9, 9, 9, 7, 7, 7, 7] none) 0 1
      ⟨[9, 9, 9, 9, 7, 7, 7, 7], [0, 1]⟩ rfl
    exact ⟨⟨[9, 9, 9, 9, 7, 7, 7, 7], [0, 1]⟩, rfl, hc.inside, (hc.dealt [5, 5] rfl).1 5⟩
  · obtain ⟨chunks, hread, -, hconnectivity⟩ := hwhole [0, 1, 2, 3, 1, 2, 3, 0] (.replicate 4 0.0)
      (.replicate 4 0.0) (.replicate 4 0.0) _ 3 rfl (by decide)
    exact ⟨_, rfl, chunks, hread, hconnectivity⟩

end Chunk
end MeshNumbering
