import Mathlib.Data.List.Pairwise
import Mathlib.Data.List.Nodup
import MeshNumbering.Mesh.Chunk

/-! Spans, one after the other. Those that begin at zero, adjoin each other and end at a total have
every number below the total once, in order. -/

namespace MeshNumbering.Span
variable {n : Nat}

theorem length_elems (s : Span) : s.elems.length = s.size := List.length_range' ..

theorem ascending_elems (s : Span) : s.elems.Pairwise (· < ·) := List.pairwise_lt_range'

theorem mem_elems {s : Span} : n ∈ s.elems ↔ n ∈ s := by
  unfold elems size
  rw [List.mem_range'_1, Span.mem_def]
  omega

theorem length_filter_range {s : Span} (h : s.stop ≤ n) :
    ((List.range n).filter fun k => k ∈ s).length = s.size := by
  have hperm : ((List.range n).filter fun k => k ∈ s).Perm s.elems := by
    apply (List.perm_ext_iff_of_nodup (List.nodup_range.filter _) s.ascending_elems.nodup).2
    intro k
    rw [List.mem_filter, List.mem_range, decide_eq_true_eq, mem_elems]
    apply and_iff_right_of_imp
    intro hk
    exact Nat.lt_of_lt_of_le hk.2 h
  rw [hperm.length_eq, length_elems]

/-- The first `count` spans follow one another from zero up to `total`. -/
structure Tiles (spans : Nat → Span) (count total : Nat) : Prop where
  ordered : ∀ k < count, (spans k).start ≤ (spans k).stop
  starts : (spans 0).start = 0
  adjoins : ∀ k, k + 1 < count → (spans k).stop = (spans (k + 1)).start
  ends : ∀ k, k + 1 = count → (spans k).stop = total

namespace Tiles
variable {spans : Nat → Span} {count total : Nat}

theorem flatMap_elems (h : Tiles spans count total) (hpos : 0 < count) :
    ((List.range count).flatMap fun k => (spans k).elems) = List.range total := by
  have hprefix : ∀ k < count, ((List.range (k + 1)).flatMap fun k => (spans k).elems) =
      List.range (spans k).stop := by
    intro k hk
    induction k with
    | zero =>
      rw [List.range_one, List.flatMap_singleton, List.range_eq_range']
      unfold elems size
      rw [h.starts, Nat.sub_zero]
    | succ k ih =>
      have hend : (spans k).stop + ((spans (k + 1)).stop - (spans k).stop) =
          (spans (k + 1)).stop := by
        rw [h.adjoins k hk]
        exact Nat.add_sub_cancel' (h.ordered _ hk)
      have happend := List.range'_append_1 (s := 0) (m := (spans k).stop)
        (n := (spans (k + 1)).stop - (spans k).stop)
      rw [Nat.zero_add, hend] at happend
      rw [List.range_succ, List.flatMap_append, ih (Nat.lt_of_succ_lt hk), List.flatMap_singleton,
        List.range_eq_range', List.range_eq_range', ← happend]
      unfold elems size
      rw [h.adjoins k hk]
  have hlast : count - 1 + 1 = count := Nat.sub_add_cancel hpos
  have hall := hprefix (count - 1) (Nat.sub_lt hpos Nat.one_pos)
  rwa [hlast, h.ends _ hlast] at hall

theorem mem_iff (h : Tiles spans count total) (hpos : 0 < count) :
    n < total ↔ ∃ k < count, n ∈ spans k := by
  rw [← List.mem_range, ← h.flatMap_elems hpos, List.mem_flatMap]
  simp only [List.mem_range, mem_elems]

theorem existsUnique_mem_iff (h : Tiles spans count total) (hpos : 0 < count) :
    n < total ↔ ∃! k, k < count ∧ n ∈ spans k := by
  have hnodup : ((List.range count).flatMap fun k => (spans k).elems).Nodup := by
    rw [h.flatMap_elems hpos]
    exact List.nodup_range
  have hdisjoint := (List.nodup_flatMap.1 hnodup).2
  have : Std.Symm (Function.onFun List.Disjoint fun k => (spans k).elems) :=
    ⟨fun _ _ hd _ hn hn' => hd hn' hn⟩
  rw [h.mem_iff hpos]
  constructor
  · rintro ⟨k, hk, hn⟩
    refine ⟨k, ⟨hk, hn⟩, ?_⟩
    rintro k' ⟨hk', hn'⟩
    by_contra hne
    exact hdisjoint.forall (List.mem_range.2 hk') (List.mem_range.2 hk) hne (mem_elems.2 hn')
      (mem_elems.2 hn)
  · rintro ⟨k, hk, -⟩
    exact ⟨k, hk⟩

end Tiles
end MeshNumbering.Span
