import MeshNumbering.Proofs.Mesh.Cube

/-! The box as a mesh. Every node is the corner of some tetrahedron, all tetrahedra are of one size,
and they fit together: counted by node ids, three nodes of an element are nodes of just one other
element, or of no other one when they lie in a side of the box. -/

namespace MeshNumbering.Mesh
variable {c p : Corner} {a b d : Axis} {nx ny nz : Nat} {t : Corner × Axis × Axis × Axis}

theorem corner_le_of_mem_walk (ht : t ∈ cells nx ny nz) (hp : p ∈ walk t.1 t.2) :
    p.i ≤ nx ∧ p.j ≤ ny ∧ p.k ≤ nz := by
  obtain ⟨c, a, b, d⟩ := t
  obtain ⟨hc, h⟩ := mem_cells.1 ht
  have hall : ∀ axis, p.along axis ≤ (⟨nx, ny, nz⟩ : Corner).along axis := by
    rw [forall_axis_iff h]
    rw [mem_walk_iff h] at hp
    rw [mem_grid_iff_along h] at hc
    omega
  exact ⟨hall .x, hall .y, hall .z⟩

theorem map_corner_ids (ht : t ∈ cells nx ny nz) :
    (ids nx ny t).map (corner nx ny) = walk t.1 t.2 := by
  unfold ids
  rw [List.map_map]
  apply (List.map_congr_left _).trans (List.map_id _)
  intro p hp
  obtain ⟨hi, hj, -⟩ := corner_le_of_mem_walk ht hp
  exact corner_nodeId hi hj

theorem mem_ids_iff (ht : t ∈ cells nx ny nz) {n : Nat} :
    n ∈ ids nx ny t ↔ corner nx ny n ∈ walk t.1 t.2 := by
  rw [← map_corner_ids ht]
  constructor
  · exact List.mem_map_of_mem
  · intro h
    obtain ⟨n', hn', hsame⟩ := List.mem_map.1 h
    rw [← nodeId_corner nx ny n, ← hsame, nodeId_corner]
    exact hn'

theorem lt_of_mem_ids (ht : t ∈ cells nx ny nz) {n : Nat} (hn : n ∈ ids nx ny t) :
    n < (nx + 1) * (ny + 1) * (nz + 1) := by
  obtain ⟨p, hp, rfl⟩ := List.mem_map.1 hn
  obtain ⟨hi, hj, hk⟩ := corner_le_of_mem_walk ht hp
  exact nodeId_lt hi hj hk

theorem box_valid (nx ny nz : Nat) : (box nx ny nz).Valid where
  y_length := by
    unfold box
    rw [List.length_map, List.length_map]
  z_length := by
    unfold box
    rw [List.length_map, List.length_map]
  whole := by
    rw [length_connectivity_box]
    exact Nat.dvd_mul_right ..
  nodes := by
    intro n hn
    rw [connectivity_box] at hn
    obtain ⟨nodes, hnodes, hn⟩ := List.mem_flatten.1 hn
    obtain ⟨t, ht, rfl⟩ := List.mem_map.1 hnodes
    rw [nodeCount_box]
    exact lt_of_mem_ids ht hn

theorem exists_mem_walk (hi : c.i ≤ p.i ∧ p.i ≤ c.i + 1) (hj : c.j ≤ p.j ∧ p.j ≤ c.j + 1)
    (hk : c.k ≤ p.k ∧ p.k ≤ c.k + 1) : ∃ w ∈ walks, p ∈ walk c w := by
  have hsome : p ∈ walk c (.x, .y, .z) ∨ p ∈ walk c (.y, .z, .x) ∨ p ∈ walk c (.z, .x, .y) := by
    rw [mem_walk_iff (by decide), mem_walk_iff (by decide), mem_walk_iff (by decide)]
    simp only [Corner.along]
    omega
  rcases hsome with hp | hp | hp
  · exact ⟨_, by decide, hp⟩
  · exact ⟨_, by decide, hp⟩
  · exact ⟨_, by decide, hp⟩

theorem exists_mem_ids (hx : 0 < nx) (hy : 0 < ny) (hz : 0 < nz) {n : Nat}
    (hn : n < (nx + 1) * (ny + 1) * (nz + 1)) : ∃ t ∈ cells nx ny nz, n ∈ ids nx ny t := by
  have hgrid : corner nx ny n ∈ grid (nx + 1) (ny + 1) (nz + 1) := by
    rw [grid_eq_map_corner]
    exact List.mem_map_of_mem (List.mem_range.2 hn)
  obtain ⟨hi, hj, hk⟩ := mem_grid.1 hgrid
  generalize hp : corner nx ny n = p at hi hj hk
  obtain ⟨w, hw, hmem⟩ := exists_mem_walk (p := p)
    (c := ⟨min p.i (nx - 1), min p.j (ny - 1), min p.k (nz - 1)⟩)
    (by dsimp only; omega) (by dsimp only; omega) (by dsimp only; omega)
  have ht : (⟨min p.i (nx - 1), min p.j (ny - 1), min p.k (nz - 1)⟩, w) ∈ cells nx ny nz := by
    apply mem_cells.2
    refine ⟨mem_grid.2 ?_, hw⟩
    dsimp only
    omega
  exact ⟨_, ht, (mem_ids_iff ht).2 (hp ▸ hmem)⟩

/-- Six times the volume of a tetrahedron, with a sign for its orientation. -/
def sixfoldVolume (p q r s : Corner) : Int :=
  let u : Int × Int × Int := (q.i - p.i, q.j - p.j, q.k - p.k)
  let v : Int × Int × Int := (r.i - p.i, r.j - p.j, r.k - p.k)
  let w : Int × Int × Int := (s.i - p.i, s.j - p.j, s.k - p.k)
  u.1 * (v.2.1 * w.2.2 - v.2.2 * w.2.1) - u.2.1 * (v.1 * w.2.2 - v.2.2 * w.1) +
    u.2.2 * (v.1 * w.2.1 - v.2.1 * w.1)

theorem sixfoldVolume_walk (h : (a, b, d) ∈ walks) :
    (sixfoldVolume c (c.step a) ((c.step a).step b) (((c.step a).step b).step d)).natAbs = 1 := by
  simp only [walks, List.mem_cons, List.not_mem_nil, or_false, Prod.mk.injEq] at h
  rcases h with ⟨rfl, rfl, rfl⟩ | ⟨rfl, rfl, rfl⟩ | ⟨rfl, rfl, rfl⟩ | ⟨rfl, rfl, rfl⟩ |
    ⟨rfl, rfl, rfl⟩ | ⟨rfl, rfl, rfl⟩
  all_goals simp [sixfoldVolume, Corner.step]

/-- The elements with all of the nodes in `s`. -/
def elementsWith (m : Mesh) (s : Finset Nat) : List Nat :=
  (List.range m.elementCount).filter fun e => ∀ n ∈ s, n ∈ NodeLists.element m.connectivity e

theorem length_elementsWith_box (nx ny nz : Nat) (s : Finset Nat) :
    ((box nx ny nz).elementsWith s).length = ((cells nx ny nz).filter fun t =>
      ∀ p ∈ s.image (corner nx ny), p ∈ walk t.1 t.2).length := by
  unfold elementsWith
  have helements : ((List.range (box nx ny nz).elementCount).countP fun e =>
      ∀ n ∈ s, n ∈ NodeLists.element (box nx ny nz).connectivity e) =
        ((cells nx ny nz).map (ids nx ny)).countP fun nodes => ∀ n ∈ s, n ∈ nodes := by
    rw [← map_element_box, List.countP_map]
    rfl
  rw [← List.countP_eq_length_filter, ← List.countP_eq_length_filter, helements, List.countP_map]
  apply List.countP_congr
  intro t ht
  rw [Function.comp_apply, decide_eq_true_eq, decide_eq_true_eq, Finset.forall_mem_image]
  simp only [mem_ids_iff ht]

theorem exists_ids_eq {e : Nat} (he : e < (box nx ny nz).elementCount) :
    ∃ t ∈ cells nx ny nz, NodeLists.element (box nx ny nz).connectivity e = ids nx ny t := by
  have hmem : NodeLists.element (box nx ny nz).connectivity e ∈
      (cells nx ny nz).map (ids nx ny) := by
    rw [← map_element_box]
    exact List.mem_map_of_mem (List.mem_range.2 he)
  obtain ⟨t, ht, hids⟩ := List.mem_map.1 hmem
  exact ⟨t, ht, hids.symm⟩

theorem length_filter_eq {α : Type} {l r : List α} (hl : l.Nodup) (hr : r.Nodup) {P : α → Bool}
    (h : ∀ a, a ∈ l ∧ P a = true ↔ a ∈ r) : (l.filter P).length = r.length := by
  have hperm : (l.filter P).Perm r := by
    apply (List.perm_ext_iff_of_nodup (hl.filter P) hr).2
    intro a
    rw [List.mem_filter, h]
  exact hperm.length_eq

theorem length_elementsWith_face {e : Nat} (he : e < (box nx ny nz).elementCount) {s : Finset Nat}
    (hcard : s.card = 3) (hs : ∀ n ∈ s, n ∈ NodeLists.element (box nx ny nz).connectivity e) :
    (OnSide ⟨nx, ny, nz⟩ (s.image (corner nx ny)) → ((box nx ny nz).elementsWith s).length = 1) ∧
    (¬ OnSide ⟨nx, ny, nz⟩ (s.image (corner nx ny)) →
      ((box nx ny nz).elementsWith s).length = 2) := by
  obtain ⟨t, ht, hids⟩ := exists_ids_eq he
  rw [hids] at hs
  have hinjective : Function.Injective (corner nx ny) :=
    Function.LeftInverse.injective (nodeId_corner nx ny)
  have hsub : s.image (corner nx ny) ⊆ (walk t.1 t.2).toFinset := by
    intro p hp
    obtain ⟨n, hn, rfl⟩ := Finset.mem_image.1 hp
    exact List.mem_toFinset.2 ((mem_ids_iff ht).1 (hs n hn))
  have hconforms : Conforms nx ny nz t (s.image (corner nx ny)) :=
    conforms ht (by rw [Finset.card_image_of_injective s hinjective, hcard]) hsub
  rw [length_elementsWith_box]
  constructor
  · intro hside
    apply length_filter_eq (r := [t]) (nodup_cells nx ny nz) (List.nodup_singleton t)
    intro t'
    rw [decide_eq_true_eq, List.mem_singleton]
    constructor
    · rintro ⟨ht', hall⟩
      exact (hconforms.1 hside t' ht').1 hall
    · rintro rfl
      exact ⟨ht, (hconforms.1 hside t' ht).2 rfl⟩
  · intro hside
    obtain ⟨u, hu, hne, hiff⟩ := hconforms.2 hside
    apply length_filter_eq (r := [t, u]) (nodup_cells nx ny nz) (by simp [hne.symm])
    intro t'
    rw [decide_eq_true_eq, List.mem_pair]
    constructor
    · rintro ⟨ht', hall⟩
      exact (hiff t' ht').1 hall
    · rintro (rfl | rfl)
      · exact ⟨ht, (hiff _ ht).2 (.inl rfl)⟩
      · exact ⟨hu, (hiff _ hu).2 (.inr rfl)⟩

theorem getElem?_map_grid {α : Type} (f : Corner → α) {n : Nat}
    (hn : n < (nx + 1) * (ny + 1) * (nz + 1)) :
    ((grid (nx + 1) (ny + 1) (nz + 1)).map f)[n]? = some (f (corner nx ny n)) := by
  rw [grid_eq_map_corner, List.getElem?_map, List.getElem?_map, List.getElem?_range hn]
  rfl

/-- The box is a mesh of tetrahedra of one size with a node for every position of its grid. It is
conforming: three nodes of an element belong to no other element if they lie in a side of the box,
and to one other element if not. -/
theorem box_conforming (nx ny nz : Nat) :
    ofArrays (box nx ny nz).connectivity (box nx ny nz).x (box nx ny nz).y (box nx ny nz).z =
      .ok (box nx ny nz) ∧
    (box nx ny nz).nodeCount = (nx + 1) * (ny + 1) * (nz + 1) ∧
    (box nx ny nz).elementCount = 6 * nx * ny * nz ∧
    (∀ n < (box nx ny nz).nodeCount,
      (box nx ny nz).x[n]? = some (Float.ofNat (corner nx ny n).i) ∧
      (box nx ny nz).y[n]? = some (Float.ofNat (corner nx ny n).j) ∧
      (box nx ny nz).z[n]? = some (Float.ofNat (corner nx ny n).k)) ∧
    (0 < nx → 0 < ny → 0 < nz → ∀ n < (box nx ny nz).nodeCount,
      ∃ e < (box nx ny nz).elementCount, n ∈ NodeLists.element (box nx ny nz).connectivity e) ∧
    ∀ e < (box nx ny nz).elementCount,
      (∃ p q r s, (NodeLists.element (box nx ny nz).connectivity e).map (corner nx ny) =
        [p, q, r, s] ∧ (sixfoldVolume p q r s).natAbs = 1) ∧
      ∀ s : Finset Nat, s.card = 3 →
        (∀ n ∈ s, n ∈ NodeLists.element (box nx ny nz).connectivity e) →
          (OnSide ⟨nx, ny, nz⟩ (s.image (corner nx ny)) →
            ((box nx ny nz).elementsWith s).length = 1) ∧
          (¬ OnSide ⟨nx, ny, nz⟩ (s.image (corner nx ny)) →
            ((box nx ny nz).elementsWith s).length = 2) := by
  refine ⟨ofArrays_eq_ok_iff.2 ⟨rfl, box_valid nx ny nz⟩, nodeCount_box nx ny nz, ?_, ?_, ?_, ?_⟩
  · rw [elementCount_box, Nat.mul_assoc, Nat.mul_assoc, Nat.mul_assoc]
  · intro n hn
    rw [nodeCount_box] at hn
    exact ⟨getElem?_map_grid _ hn, getElem?_map_grid _ hn, getElem?_map_grid _ hn⟩
  · intro hx hy hz n hn
    rw [nodeCount_box] at hn
    obtain ⟨t, ht, hmem⟩ := exists_mem_ids hx hy hz hn
    have hids : ids nx ny t ∈ (List.range (box nx ny nz).elementCount).map
        (NodeLists.element (box nx ny nz).connectivity) := by
      rw [map_element_box]
      exact List.mem_map_of_mem ht
    obtain ⟨e, he, heq⟩ := List.mem_map.1 hids
    exact ⟨e, List.mem_range.1 he, heq ▸ hmem⟩
  · intro e he
    refine ⟨?_, fun s hcard hs => length_elementsWith_face he hcard hs⟩
    obtain ⟨⟨c, a, b, d⟩, ht, hids⟩ := exists_ids_eq he
    rw [hids, map_corner_ids ht]
    exact ⟨_, _, _, _, rfl, sixfoldVolume_walk (mem_cells.1 ht).2⟩

theorem two_cells_conforming :
    (∃ e < 12, 11 ∈ NodeLists.element (box 2 1 1).connectivity e) ∧
    NodeLists.element (box 2 1 1).connectivity 0 = [0, 1, 4, 10] ∧
    ((box 2 1 1).elementsWith {0, 1, 4}).length = 1 ∧
    ((box 2 1 1).elementsWith {1, 4, 10}).length = 2 := by
  obtain ⟨-, -, hcount, -, hused, hfaces⟩ := box_conforming 2 1 1
  rw [hcount] at hused
  obtain ⟨-, hfits⟩ := hfaces 0 (by decide)
  refine ⟨?_, by decide, ?_, ?_⟩
  · exact hused (by decide) (by decide) (by decide) 11 (by decide)
  · exact (hfits {0, 1, 4} (by decide) (by decide)).1 ⟨.z, .inl (by decide)⟩
  · apply (hfits {1, 4, 10} (by decide) (by decide)).2
    rintro ⟨axis, hside⟩
    revert hside
    cases axis <;> decide

end MeshNumbering.Mesh
