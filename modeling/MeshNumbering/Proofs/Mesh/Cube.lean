import Mathlib.Data.Finset.Card
import MeshNumbering.Proofs.Mesh.Box

/-! Cubes cut into tetrahedra. A tetrahedron has the corners of its cell that are nowhere further
along a later axis of its walk than along an earlier one. Three of them lie in just one other
tetrahedron, of the same cell or of the next one, unless there is no next cell: these are the ones
that lie in an outer plane of the box. -/

namespace MeshNumbering.Mesh
variable {c c' p : Corner} {a b d : Axis} {w : Axis × Axis × Axis} {nx ny nz : Nat}
  {t : Corner × Axis × Axis × Axis}

namespace Corner

def along (c : Corner) : Axis → Nat
  | .x => c.i
  | .y => c.j
  | .z => c.k

theorem along_step (c : Corner) (a b : Axis) :
    (c.step a).along b = c.along b + if a = b then 1 else 0 := by
  cases a <;> cases b <;> rfl

theorem step_inj {c' : Corner} : c.step a = c'.step a ↔ c = c' := by
  obtain ⟨i, j, k⟩ := c
  obtain ⟨i', j', k'⟩ := c'
  cases a <;> simp [step]

theorem exists_step_eq (h : 0 < c.along a) : ∃ c' : Corner, c'.step a = c := by
  obtain ⟨i, j, k⟩ := c
  cases a with
  | x =>
    obtain ⟨i, rfl⟩ := Nat.exists_eq_add_one.2 h
    exact ⟨⟨i, j, k⟩, rfl⟩
  | y =>
    obtain ⟨j, rfl⟩ := Nat.exists_eq_add_one.2 h
    exact ⟨⟨i, j, k⟩, rfl⟩
  | z =>
    obtain ⟨k, rfl⟩ := Nat.exists_eq_add_one.2 h
    exact ⟨⟨i, j, k⟩, rfl⟩

end Corner

theorem distinct_of_mem_walks (h : (a, b, d) ∈ walks) : a ≠ b ∧ a ≠ d ∧ b ≠ d := by
  have hall : ∀ w ∈ walks, w.1 ≠ w.2.1 ∧ w.1 ≠ w.2.2 ∧ w.2.1 ≠ w.2.2 := by decide
  exact hall _ h

theorem mem_walks_iff (h : (a, b, d) ∈ walks) : w ∈ walks ↔ w ∈ [(a, b, d), (a, d, b),
    (b, a, d), (b, d, a), (d, a, b), (d, b, a)] := by
  have hall : ∀ t ∈ walks, walks.Perm [t, (t.1, t.2.2, t.2.1), (t.2.1, t.1, t.2.2),
    (t.2.1, t.2.2, t.1), (t.2.2, t.1, t.2.1), (t.2.2, t.2.1, t.1)] := by decide
  exact (hall _ h).mem_iff

theorem forall_axis_iff (h : (a, b, d) ∈ walks) {P : Axis → Prop} :
    (∀ axis, P axis) ↔ P a ∧ P b ∧ P d := by
  have hall : ∀ w ∈ walks, ∀ axis ∈ [Axis.x, .y, .z],
      axis = w.1 ∨ axis = w.2.1 ∨ axis = w.2.2 := by decide
  constructor
  · intro hP
    exact ⟨hP a, hP b, hP d⟩
  · rintro ⟨ha, hb, hd⟩ axis
    rcases hall _ h axis (by cases axis <;> decide) with rfl | rfl | rfl
    · exact ha
    · exact hb
    · exact hd

theorem exists_axis_iff (h : (a, b, d) ∈ walks) {P : Axis → Prop} :
    (∃ axis, P axis) ↔ P a ∨ P b ∨ P d := by
  have hnone := forall_axis_iff h (P := fun axis => ¬ P axis)
  rw [← not_iff_not, not_exists, hnone, not_or, not_or]

theorem eq_iff_along (h : (a, b, d) ∈ walks) : c = c' ↔
    c.along a = c'.along a ∧ c.along b = c'.along b ∧ c.along d = c'.along d := by
  rw [← forall_axis_iff h (P := fun axis => c.along axis = c'.along axis)]
  constructor
  · rintro rfl axis
    rfl
  · intro hall
    obtain ⟨i, j, k⟩ := c
    obtain ⟨i', j', k'⟩ := c'
    have hi : i = i' := hall .x
    have hj : j = j' := hall .y
    have hk : k = k' := hall .z
    rw [hi, hj, hk]

theorem mem_walk_iff (h : (a, b, d) ∈ walks) : p ∈ walk c (a, b, d) ↔
    c.along d ≤ p.along d ∧ p.along d + c.along b ≤ p.along b + c.along d ∧
      p.along b + c.along a ≤ p.along a + c.along b ∧ p.along a ≤ c.along a + 1 := by
  obtain ⟨hab, had, hbd⟩ := distinct_of_mem_walks h
  unfold walk
  simp only [List.mem_cons, List.not_mem_nil, or_false, eq_iff_along h, Corner.along_step, hab,
    had, hbd, hab.symm, had.symm, hbd.symm, if_true, if_false]
  omega

theorem mem_face_iff (h : (a, b, d) ∈ walks) (ht : t.2 ∈ walks) :
    let c₁ := c.step a
    let c₂ := c₁.step b
    let c₃ := c₂.step d
    ((∀ p ∈ [c, c₁, c₂].toFinset, p ∈ walk t.1 t.2) ↔
      t = (c, a, b, d) ∨ t.1.step d = c ∧ t.2 = (d, a, b)) ∧
    ((∀ p ∈ [c, c₁, c₃].toFinset, p ∈ walk t.1 t.2) ↔ t = (c, a, b, d) ∨ t = (c, a, d, b)) ∧
    ((∀ p ∈ [c, c₂, c₃].toFinset, p ∈ walk t.1 t.2) ↔ t = (c, a, b, d) ∨ t = (c, b, a, d)) ∧
    ((∀ p ∈ [c₁, c₂, c₃].toFinset, p ∈ walk t.1 t.2) ↔
      t = (c, a, b, d) ∨ t = (c.step a, b, d, a)) := by
  obtain ⟨hab, had, hbd⟩ := distinct_of_mem_walks h
  obtain ⟨c', w⟩ := t
  have hcases := (mem_walks_iff h).1 ht
  simp only [List.mem_cons, List.not_mem_nil, or_false] at hcases
  rcases hcases with rfl | rfl | rfl | rfl | rfl | rfl
  all_goals
    simp only [List.mem_toFinset, List.forall_mem_cons, List.not_mem_nil, false_imp_iff,
      implies_true, mem_walk_iff ht, Prod.mk.injEq, eq_iff_along h, Corner.along_step, hab, had,
      hbd, hab.symm, had.symm, hbd.symm, if_true, if_false, and_true, and_false, or_false, false_or,
      iff_false]
    refine ⟨?_, ?_, ?_, ?_⟩ <;> omega

theorem mem_grid_iff_along (h : (a, b, d) ∈ walks) : c ∈ grid nx ny nz ↔
    c.along a < (⟨nx, ny, nz⟩ : Corner).along a ∧ c.along b < (⟨nx, ny, nz⟩ : Corner).along b ∧
      c.along d < (⟨nx, ny, nz⟩ : Corner).along d := by
  rw [← forall_axis_iff h (P := fun axis => c.along axis < (⟨nx, ny, nz⟩ : Corner).along axis),
    mem_grid]
  constructor
  · rintro ⟨hi, hj, hk⟩ (_ | _ | _)
    · exact hi
    · exact hj
    · exact hk
  · intro hall
    exact ⟨hall .x, hall .y, hall .z⟩

def OnSide (far : Corner) (s : Finset Corner) : Prop :=
  ∃ axis, (∀ p ∈ s, p.along axis = 0) ∨ ∀ p ∈ s, p.along axis = far.along axis

theorem faces_onSide (h : (a, b, d) ∈ walks) (hc : c ∈ grid nx ny nz) :
    let far : Corner := ⟨nx, ny, nz⟩
    let c₁ := c.step a
    let c₂ := c₁.step b
    let c₃ := c₂.step d
    (OnSide far [c, c₁, c₂].toFinset ↔ c.along d = 0) ∧
    ¬ OnSide far [c, c₁, c₃].toFinset ∧
    ¬ OnSide far [c, c₂, c₃].toFinset ∧
    (OnSide far [c₁, c₂, c₃].toFinset ↔ c.along a + 1 = far.along a) := by
  obtain ⟨hab, had, hbd⟩ := distinct_of_mem_walks h
  rw [mem_grid_iff_along h] at hc
  simp only [OnSide, exists_axis_iff h, List.mem_toFinset, List.forall_mem_cons, List.not_mem_nil,
    false_imp_iff, implies_true, and_true, Corner.along_step, hab, had, hbd, hab.symm, had.symm,
    hbd.symm, if_true, if_false]
  refine ⟨?_, ?_, ?_, ?_⟩ <;> omega

theorem nodup_walk (h : (a, b, d) ∈ walks) : (walk c (a, b, d)).Nodup := by
  obtain ⟨hab, had, hbd⟩ := distinct_of_mem_walks h
  unfold walk
  simp only [List.nodup_cons, List.mem_cons, List.not_mem_nil, or_false, eq_iff_along h,
    Corner.along_step, hab, had, hbd, hab.symm, had.symm, hbd.symm, if_true, if_false]
  simp

theorem three_of_four {α : Type} [DecidableEq α] {s : Finset α} {p₀ p₁ p₂ p₃ : α}
    (hnodup : [p₀, p₁, p₂, p₃].Nodup) (hcard : s.card = 3) (hs : s ⊆ [p₀, p₁, p₂, p₃].toFinset) :
    s = [p₀, p₁, p₂].toFinset ∨ s = [p₀, p₁, p₃].toFinset ∨ s = [p₀, p₂, p₃].toFinset ∨
      s = [p₁, p₂, p₃].toFinset := by
  have hfour : [p₀, p₁, p₂, p₃].toFinset.card = 4 := List.toFinset_card_of_nodup hnodup
  obtain ⟨v, hv, hinsert⟩ := Finset.exists_eq_insert_iff.2 ⟨hs, by rw [hcard, hfour]⟩
  have hmem : v ∈ [p₀, p₁, p₂, p₃] := by
    rw [← List.mem_toFinset, ← hinsert]
    exact Finset.mem_insert_self v s
  have herase : s = ([p₀, p₁, p₂, p₃].erase v).toFinset := by
    ext p
    rw [List.mem_toFinset, hnodup.mem_erase_iff, ← List.mem_toFinset, ← hinsert,
      ← Finset.mem_erase, Finset.erase_insert hv]
  simp only [List.nodup_cons, List.mem_cons, List.not_mem_nil, or_false, not_or] at hnodup hmem
  obtain ⟨⟨h01, h02, h03⟩, ⟨h12, h13⟩, h23, -⟩ := hnodup
  rcases hmem with rfl | rfl | rfl | rfl
  all_goals simp [*]

/-- The tetrahedron `t` has `s` in common with just one other of the box, or with none when `s` lies
in an outer plane. -/
def Conforms (nx ny nz : Nat) (t : Corner × Axis × Axis × Axis) (s : Finset Corner) : Prop :=
  (OnSide ⟨nx, ny, nz⟩ s →
    ∀ t' ∈ cells nx ny nz, (∀ p ∈ s, p ∈ walk t'.1 t'.2) ↔ t' = t) ∧
  (¬ OnSide ⟨nx, ny, nz⟩ s → ∃ u ∈ cells nx ny nz, u ≠ t ∧
    ∀ t' ∈ cells nx ny nz, (∀ p ∈ s, p ∈ walk t'.1 t'.2) ↔ t' = t ∨ t' = u)

section
variable (h : (a, b, d) ∈ walks) (hc : c ∈ grid nx ny nz)
include h hc

theorem conforms_without_last :
    Conforms nx ny nz (c, a, b, d) [c, c.step a, (c.step a).step b].toFinset := by
  -- On the other side of the face without the last corner is the cell before this one along the
  -- last axis.
  unfold Conforms
  rw [(faces_onSide h hc).1]
  constructor
  · intro hzero t ht
    rw [(mem_face_iff h (mem_cells.1 ht).2).1]
    apply or_iff_left
    rintro ⟨hstep, -⟩
    rw [← hstep, Corner.along_step, if_pos rfl] at hzero
    cases hzero
  · intro hpos
    obtain ⟨-, had, -⟩ := distinct_of_mem_walks h
    obtain ⟨c', rfl⟩ := Corner.exists_step_eq (Nat.pos_of_ne_zero hpos)
    have hc' : c' ∈ grid nx ny nz := by
      rw [mem_grid_iff_along h] at hc ⊢
      simp only [Corner.along_step] at hc
      omega
    refine ⟨(c', d, a, b), mem_cells.2 ⟨hc', (mem_walks_iff h).2 (by simp)⟩, ?_, fun t ht => ?_⟩
    · simp [had.symm]
    · rw [(mem_face_iff h (mem_cells.1 ht).2).1, Corner.step_inj,
        Prod.ext_iff (y := (c', d, a, b))]

theorem conforms_without_third :
    Conforms nx ny nz (c, a, b, d) [c, c.step a, ((c.step a).step b).step d].toFinset := by
  obtain ⟨-, -, hbd⟩ := distinct_of_mem_walks h
  refine ⟨fun hside => absurd hside (faces_onSide h hc).2.1, fun _ =>
    ⟨(c, a, d, b), mem_cells.2 ⟨hc, (mem_walks_iff h).2 (by simp)⟩, ?_, fun t ht => ?_⟩⟩
  · simp [hbd.symm]
  · exact (mem_face_iff h (mem_cells.1 ht).2).2.1

theorem conforms_without_second :
    Conforms nx ny nz (c, a, b, d) [c, (c.step a).step b, ((c.step a).step b).step d].toFinset := by
  obtain ⟨hab, -, -⟩ := distinct_of_mem_walks h
  refine ⟨fun hside => absurd hside (faces_onSide h hc).2.2.1, fun _ =>
    ⟨(c, b, a, d), mem_cells.2 ⟨hc, (mem_walks_iff h).2 (by simp)⟩, ?_, fun t ht => ?_⟩⟩
  · simp [hab.symm]
  · exact (mem_face_iff h (mem_cells.1 ht).2).2.2.1

theorem conforms_without_first : Conforms nx ny nz (c, a, b, d)
    [c.step a, (c.step a).step b, ((c.step a).step b).step d].toFinset := by
  -- On the other side of the face without the first corner is the next cell along the first axis.
  obtain ⟨hab, had, -⟩ := distinct_of_mem_walks h
  have hnext : c.step a ∈ grid nx ny nz ↔ c.along a + 1 ≠ (⟨nx, ny, nz⟩ : Corner).along a := by
    rw [mem_grid_iff_along h] at hc ⊢
    simp only [Corner.along_step, hab, had, if_true, if_false]
    omega
  unfold Conforms
  rw [(faces_onSide h hc).2.2.2]
  constructor
  · intro hlimit t ht
    rw [(mem_face_iff h (mem_cells.1 ht).2).2.2.2]
    apply or_iff_left
    rintro rfl
    exact hnext.1 (mem_cells.1 ht).1 hlimit
  · intro hinside
    refine ⟨(c.step a, b, d, a),
      mem_cells.2 ⟨hnext.2 hinside, (mem_walks_iff h).2 (by simp)⟩, ?_, fun t ht => ?_⟩
    · simp [hab.symm]
    · exact (mem_face_iff h (mem_cells.1 ht).2).2.2.2

end

theorem conforms (ht : t ∈ cells nx ny nz) {s : Finset Corner}
    (hcard : s.card = 3) (hs : s ⊆ (walk t.1 t.2).toFinset) : Conforms nx ny nz t s := by
  obtain ⟨c, a, b, d⟩ := t
  obtain ⟨hc, h⟩ := mem_cells.1 ht
  rcases three_of_four (nodup_walk h) hcard hs with rfl | rfl | rfl | rfl
  · exact conforms_without_last h hc
  · exact conforms_without_third h hc
  · exact conforms_without_second h hc
  · exact conforms_without_first h hc

end MeshNumbering.Mesh
