import Mathlib.Data.List.Nodup
import MeshNumbering.Mesh.Box
import MeshNumbering.Proofs.NodeLists

/-! Nodes and elements of a box. The id of a node tells its position, and every position of the grid
has an id; the elements are the tetrahedra, cell by cell, and use no other nodes. -/

namespace MeshNumbering.Mesh
variable {nx ny nz n : Nat} {c : Corner}

theorem mem_grid : c ∈ grid nx ny nz ↔ c.i < nx ∧ c.j < ny ∧ c.k < nz := by
  unfold grid
  simp only [List.mem_flatMap, List.mem_map, List.mem_range]
  constructor
  · rintro ⟨k, hk, j, hj, i, hi, rfl⟩
    exact ⟨hi, hj, hk⟩
  · rintro ⟨hi, hj, hk⟩
    exact ⟨c.k, hk, c.j, hj, c.i, hi, rfl⟩

theorem flatMap_range_map {α : Type} (f : Nat → α) (length count : Nat) :
    ((List.range count).flatMap fun j => (List.range length).map fun i => f (i + length * j)) =
      (List.range (length * count)).map f := by
  induction count with
  | zero => rfl
  | succ count ih =>
    rw [List.range_succ, List.flatMap_append, ih, List.flatMap_singleton, Nat.mul_succ,
      List.range_add, List.map_append, List.map_map]
    congr 1
    apply List.map_congr_left
    intro i _
    rw [Function.comp_apply, Nat.add_comm]

theorem map_nodeId_grid : (grid (nx + 1) (ny + 1) nz).map (nodeId nx ny) =
    List.range ((nx + 1) * (ny + 1) * nz) := by
  have hlayer : ∀ k, ((List.range (ny + 1)).flatMap fun j => (List.range (nx + 1)).map fun i =>
      nodeId nx ny ⟨i, j, k⟩) =
        (List.range ((nx + 1) * (ny + 1))).map fun n => n + (nx + 1) * (ny + 1) * k := by
    intro k
    rw [← flatMap_range_map]
    apply List.flatMap_congr
    intro j _
    apply List.map_congr_left
    intro i _
    show i + (nx + 1) * (j + (ny + 1) * k) = i + (nx + 1) * j + (nx + 1) * (ny + 1) * k
    rw [Nat.mul_add, Nat.mul_assoc, Nat.add_assoc]
  unfold grid
  simp only [List.map_flatMap, List.map_map, Function.comp_def, hlayer]
  exact (flatMap_range_map id ..).trans (List.map_id _)

def corner (nx ny n : Nat) : Corner :=
  ⟨n % (nx + 1), n / (nx + 1) % (ny + 1), n / (nx + 1) / (ny + 1)⟩

theorem nodeId_corner (nx ny n : Nat) : nodeId nx ny (corner nx ny n) = n := by
  show n % (nx + 1) + (nx + 1) *
    (n / (nx + 1) % (ny + 1) + (ny + 1) * (n / (nx + 1) / (ny + 1))) = n
  rw [Nat.mod_add_div, Nat.mod_add_div]

theorem corner_nodeId (hi : c.i ≤ nx) (hj : c.j ≤ ny) : corner nx ny (nodeId nx ny c) = c := by
  have hrow : (c.i + (nx + 1) * (c.j + (ny + 1) * c.k)) / (nx + 1) = c.j + (ny + 1) * c.k := by
    rw [Nat.add_mul_div_left _ _ nx.succ_pos, Nat.div_eq_of_lt (Nat.lt_succ_of_le hi), Nat.zero_add]
  unfold corner nodeId
  rw [hrow, Nat.add_mul_mod_self_left, Nat.mod_eq_of_lt (Nat.lt_succ_of_le hi),
    Nat.add_mul_mod_self_left, Nat.mod_eq_of_lt (Nat.lt_succ_of_le hj),
    Nat.add_mul_div_left _ _ ny.succ_pos, Nat.div_eq_of_lt (Nat.lt_succ_of_le hj), Nat.zero_add]

theorem grid_eq_map_corner : grid (nx + 1) (ny + 1) nz =
    (List.range ((nx + 1) * (ny + 1) * nz)).map (corner nx ny) := by
  rw [← map_nodeId_grid, List.map_map]
  symm
  apply (List.map_congr_left _).trans (List.map_id _)
  intro c hc
  obtain ⟨hi, hj, -⟩ := mem_grid.1 hc
  exact corner_nodeId (Nat.le_of_lt_succ hi) (Nat.le_of_lt_succ hj)

theorem length_grid (nx ny nz : Nat) : (grid nx ny nz).length = nx * ny * nz := by
  unfold grid
  simp only [List.length_flatMap, List.length_map, List.length_range, List.map_const',
    List.sum_replicate_nat]
  rw [Nat.mul_comm nz, Nat.mul_comm ny]

theorem nodup_grid (nx ny nz : Nat) : (grid nx ny nz).Nodup := by
  by_cases hempty : nx = 0 ∨ ny = 0
  · have hnil : grid nx ny nz = [] := by
      rw [← List.length_eq_zero_iff, length_grid]
      rcases hempty with rfl | rfl
      · rw [Nat.zero_mul, Nat.zero_mul]
      · rw [Nat.mul_zero, Nat.zero_mul]
    rw [hnil]
    exact List.nodup_nil
  · obtain ⟨i, rfl⟩ := Nat.exists_eq_succ_of_ne_zero fun h => hempty (.inl h)
    obtain ⟨j, rfl⟩ := Nat.exists_eq_succ_of_ne_zero fun h => hempty (.inr h)
    apply List.Nodup.of_map (nodeId i j)
    rw [map_nodeId_grid]
    exact List.nodup_range

theorem nodeId_lt (hi : c.i ≤ nx) (hj : c.j ≤ ny) (hk : c.k ≤ nz) :
    nodeId nx ny c < (nx + 1) * (ny + 1) * (nz + 1) := by
  rw [← List.mem_range, ← map_nodeId_grid]
  apply List.mem_map_of_mem
  exact mem_grid.2 ⟨Nat.lt_succ_of_le hi, Nat.lt_succ_of_le hj, Nat.lt_succ_of_le hk⟩

/-! Elements. -/

def cells (nx ny nz : Nat) : List (Corner × Axis × Axis × Axis) := grid nx ny nz ×ˢ walks

theorem tetrahedra_eq_map (nx ny nz : Nat) :
    tetrahedra nx ny nz = (cells nx ny nz).map fun t => walk t.1 t.2 := by
  show _ = ((grid nx ny nz).flatMap fun c => walks.map (Prod.mk c)).map fun t => walk t.1 t.2
  rw [List.map_flatMap]
  unfold tetrahedra
  apply List.flatMap_congr
  intro c _
  rw [List.map_map]
  rfl

theorem mem_cells {t : Corner × Axis × Axis × Axis} :
    t ∈ cells nx ny nz ↔ t.1 ∈ grid nx ny nz ∧ t.2 ∈ walks := List.mem_product

theorem nodup_cells (nx ny nz : Nat) : (cells nx ny nz).Nodup :=
  (nodup_grid nx ny nz).product (by decide)

theorem length_cells (nx ny nz : Nat) : (cells nx ny nz).length = 6 * (nx * ny * nz) := by
  have hsix : walks.length = 6 := rfl
  unfold cells
  rw [List.length_product, length_grid, hsix, Nat.mul_comm]

def ids (nx ny : Nat) (t : Corner × Axis × Axis × Axis) : List Nat :=
  (walk t.1 t.2).map (nodeId nx ny)

theorem connectivity_box (nx ny nz : Nat) :
    (box nx ny nz).connectivity = ((cells nx ny nz).map (ids nx ny)).flatten := by
  unfold box
  rw [tetrahedra_eq_map, List.flatMap_map]
  rfl

theorem length_of_mem_ids : ∀ nodes ∈ (cells nx ny nz).map (ids nx ny), nodes.length = 4 := by
  intro nodes hnodes
  obtain ⟨t, -, rfl⟩ := List.mem_map.1 hnodes
  rfl

theorem length_connectivity_box (nx ny nz : Nat) :
    (box nx ny nz).connectivity.length = 4 * (6 * (nx * ny * nz)) := by
  have hfour : ((cells nx ny nz).map (ids nx ny)).map List.length =
      List.replicate (6 * (nx * ny * nz)) 4 := by
    rw [← length_cells, ← List.map_const', List.map_map]
    rfl
  rw [connectivity_box, List.length_flatten, hfour, List.sum_replicate_nat, Nat.mul_comm]

theorem elementCount_box (nx ny nz : Nat) : (box nx ny nz).elementCount = 6 * (nx * ny * nz) := by
  unfold elementCount
  rw [length_connectivity_box]
  exact Nat.mul_div_cancel_left _ (by decide)

theorem map_element_box (nx ny nz : Nat) :
    (List.range (box nx ny nz).elementCount).map (NodeLists.element (box nx ny nz).connectivity) =
      (cells nx ny nz).map (ids nx ny) := by
  have hlength : ((cells nx ny nz).map (ids nx ny)).length = 6 * (nx * ny * nz) := by
    rw [List.length_map, length_cells]
  rw [connectivity_box, elementCount_box, ← hlength]
  exact NodeLists.map_element_flatten length_of_mem_ids

theorem nodeCount_box (nx ny nz : Nat) :
    (box nx ny nz).nodeCount = (nx + 1) * (ny + 1) * (nz + 1) := by
  unfold nodeCount box
  rw [List.length_map, length_grid]

end MeshNumbering.Mesh
