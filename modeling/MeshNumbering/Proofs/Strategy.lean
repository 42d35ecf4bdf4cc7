import Mathlib.Algebra.Order.Floor.Div
import MeshNumbering.Config.Basic
import MeshNumbering.Proofs.Span
import MeshNumbering.Proofs.Steps

/-! How elements are dealt out without regard to geometry. The chare of an element depends on its
global id alone, and no chare is left out unless there are more chares than elements. -/

namespace MeshNumbering

namespace Strategy
variable {total nchare g c : Nat} {elements : List Nat}

theorem block_lt (hn : 0 < nchare) (hg : g < total) : g * nchare / total < nchare := by
  apply Nat.div_lt_of_lt_mul
  exact Nat.mul_lt_mul_of_pos_right hg hn

theorem block_mono {g' : Nat} (h : g ≤ g') : g * nchare / total ≤ g' * nchare / total :=
  Nat.div_le_div_right (Nat.mul_le_mul_right nchare h)

theorem block_eq_iff (htotal : 0 < total) : g * nchare / total = c ↔
    c * total ≤ g * nchare ∧ g * nchare < (c + 1) * total := by
  rw [Nat.div_eq_iff htotal, Nat.succ_mul]
  omega

def blockSpan (total nchare c : Nat) : Span := ⟨c * total ⌈/⌉ nchare, (c + 1) * total ⌈/⌉ nchare⟩

theorem block_eq_iff_mem (htotal : 0 < total) (hn : 0 < nchare) :
    g * nchare / total = c ↔ g ∈ blockSpan total nchare c := by
  have hstart : c * total ⌈/⌉ nchare ≤ g ↔ c * total ≤ g * nchare := by
    rw [ceilDiv_le_iff_le_mul hn, Nat.mul_comm nchare]
  have hstop : g < (c + 1) * total ⌈/⌉ nchare ↔ g * nchare < (c + 1) * total := by
    rw [← not_le, ceilDiv_le_iff_le_mul hn, Nat.mul_comm nchare, not_le]
  rw [block_eq_iff htotal, ← hstart, ← hstop]
  rfl

theorem stop_blockSpan_le (hc : c < nchare) : (blockSpan total nchare c).stop ≤ total := by
  show (c + 1) * total ⌈/⌉ nchare ≤ total
  rw [ceilDiv_le_iff_le_mul (Nat.zero_lt_of_lt hc)]
  exact Nat.mul_le_mul_right total hc

theorem size_blockSpan (hn : 0 < nchare) :
    (blockSpan total nchare c).size = total / nchare ∨
      (blockSpan total nchare c).size = total ⌈/⌉ nchare := by
  have hstep : (c + 1) * total = c * total + total := Nat.succ_mul ..
  have hlow : c * total ⌈/⌉ nchare + total / nchare ≤ (c + 1) * total ⌈/⌉ nchare := by
    have hround : c * total + total + nchare - 1 = c * total + nchare - 1 + total := by omega
    rw [hstep, Nat.ceilDiv_eq_add_pred_div, Nat.ceilDiv_eq_add_pred_div, hround]
    exact Nat.div_add_div_le_add_div
  have hhigh : (c + 1) * total ⌈/⌉ nchare ≤ c * total ⌈/⌉ nchare + total ⌈/⌉ nchare := by
    rw [hstep, ceilDiv_le_iff_le_mul hn, Nat.mul_add]
    exact Nat.add_le_add ((ceilDiv_le_iff_le_mul hn).1 (Nat.le_refl _))
      ((ceilDiv_le_iff_le_mul hn).1 (Nat.le_refl _))
  have hnext : total ⌈/⌉ nchare ≤ total / nchare + 1 := by
    rw [ceilDiv_le_iff_le_mul hn]
    exact Nat.le_of_lt (Nat.lt_mul_div_succ total hn)
  show (c + 1) * total ⌈/⌉ nchare - c * total ⌈/⌉ nchare = _ ∨
    (c + 1) * total ⌈/⌉ nchare - c * total ⌈/⌉ nchare = _
  omega

theorem count_block (htotal : 0 < total) (hc : c < nchare) :
    ((List.range total).map fun g => g * nchare / total).count c =
      (blockSpan total nchare c).size := by
  have hn : 0 < nchare := Nat.zero_lt_of_lt hc
  rw [List.count_eq_countP, List.countP_map, List.countP_eq_length_filter,
    ← Span.length_filter_range (stop_blockSpan_le hc)]
  apply congrArg
  apply List.filter_congr
  intro g _
  rw [Function.comp_apply, beq_eq_decide]
  exact decide_eq_decide.2 (block_eq_iff_mem htotal hn)

theorem exists_block_eq (h : nchare ≤ total) (hc : c < nchare) :
    ∃ g < total, g * nchare / total = c := by
  -- The first element of a part is there when there are as many elements as parts.
  have hn : 0 < nchare := Nat.zero_lt_of_lt hc
  have htotal : 0 < total := Nat.lt_of_lt_of_le hn h
  have hsize : 0 < (blockSpan total nchare c).size := by
    have hfloor : 0 < total / nchare := Nat.div_pos h hn
    have hceil : total / nchare ≤ total ⌈/⌉ nchare := by
      rw [← Nat.floorDiv_eq_div]
      exact floorDiv_le_ceilDiv
    have heither : (blockSpan total nchare c).size = total / nchare ∨
      (blockSpan total nchare c).size = total ⌈/⌉ nchare := size_blockSpan hn
    omega
  rw [← count_block htotal hc, List.count_pos_iff, List.mem_map] at hsize
  simpa only [List.mem_range] using hsize

theorem all_blocks_filled_iff : (∀ c < nchare, c ∈ (List.range total).map fun g =>
    g * nchare / total) ↔ nchare ≤ total := by
  constructor
  · intro hall
    have hsub : List.range nchare ⊆ (List.range total).map fun g => g * nchare / total :=
      fun c hc => hall c (List.mem_range.1 hc)
    have hlength := (List.subperm_of_subset List.nodup_range hsub).length_le
    rwa [List.length_range, List.length_map, List.length_range] at hlength
  · intro hle c hc
    obtain ⟨g, hg, hchare⟩ := exists_block_eq hle hc
    exact List.mem_map.2 ⟨g, List.mem_range.2 hg, hchare⟩

theorem block_eq_map (h : ∀ g ∈ elements, g < total) (centroids : Centroids) (count : Nat) :
    block total centroids elements count nchare =
      .ok (elements.map fun g => g * nchare / total % wordSize) := by
  unfold block
  split
  · next hzero =>
    have hnone : elements = [] := by
      apply List.eq_nil_iff_forall_not_mem.2
      intro g hg
      exact absurd (h g hg) (hzero ▸ Nat.not_lt_zero g)
    rw [hnone]
    rfl
  · rfl

theorem block_eq_ok (hword : nchare < wordSize) (h : ∀ g ∈ elements, g < total)
    (centroids : Centroids) (count : Nat) : block total centroids elements count nchare =
      .ok (elements.map fun g => g * nchare / total) := by
  rw [block_eq_map h]
  apply congrArg Except.ok
  apply List.map_congr_left
  intro g hg
  apply Nat.mod_eq_of_lt
  have hle : g * nchare / total ≤ nchare :=
    Nat.div_le_of_le_mul (Nat.mul_le_mul_right nchare (Nat.le_of_lt (h g hg)))
  exact Nat.lt_of_le_of_lt hle hword

theorem cyclic_eq_ok (hn : 0 < nchare) (centroids : Centroids) (count : Nat) :
    cyclic centroids elements count nchare = .ok (elements.map (· % nchare)) := by
  unfold cyclic
  rw [if_neg fun h => absurd h.1 (Nat.ne_of_gt hn)]

/-- Blocks are the parts of the elements when these are cut into as many equal parts as there are
chares, wherever an element is read. No block differs from the average by a whole element, so none
is empty just when there are enough elements for all. Two words hold every product, and one the
chare. -/
theorem block_divides (total nchare : Nat) (htotal : 0 < total) (hword : total < wordSize)
    (hn : 0 < nchare) (hnword : nchare < wordSize) :
    (∀ g < total, g * nchare < wordSize * wordSize ∧ g * nchare / total < nchare) ∧
    (∀ g g', g ≤ g' → g * nchare / total ≤ g' * nchare / total) ∧
    (∀ g c, g * nchare / total = c ↔ c * total ≤ g * nchare ∧ g * nchare < (c + 1) * total) ∧
    (∀ elements : List Nat, (∀ g ∈ elements, g < total) → ∀ centroids count,
      block total centroids elements count nchare =
        .ok (elements.map fun g => g * nchare / total)) ∧
    ∀ pieces : List (List Nat), pieces.flatten.Perm (List.range total) →
      ∀ (centroids : List Nat → Centroids) (count : List Nat → Nat), ∃ answers,
        (pieces.mapM fun piece => block total (centroids piece) piece (count piece) nchare) =
          .ok answers ∧
        (∀ c < nchare, answers.flatten.count c = total / nchare ∨
          answers.flatten.count c = total ⌈/⌉ nchare) ∧
        ((∀ c < nchare, c ∈ answers.flatten) ↔ nchare ≤ total) := by
  refine ⟨fun g hg => ⟨?_, block_lt hn hg⟩, fun g g' => block_mono, fun g c => block_eq_iff htotal,
    fun elements helements => block_eq_ok hnword helements, ?_⟩
  · exact Nat.mul_lt_mul'' (Nat.lt_trans hg hword) hnword
  · intro pieces hpieces centroids count
    have hbelow : ∀ piece ∈ pieces, ∀ g ∈ piece, g < total := by
      intro piece hpiece g hg
      exact List.mem_range.1 (hpieces.mem_iff.1 (List.mem_flatten.2 ⟨piece, hpiece, hg⟩))
    have hanswers : (pieces.map (List.map fun g => g * nchare / total)).flatten.Perm
        ((List.range total).map fun g => g * nchare / total) := by
      rw [← List.map_flatten]
      exact hpieces.map _
    refine ⟨pieces.map (List.map fun g => g * nchare / total), ?_, fun c hc => ?_, ?_⟩
    · exact mapM_eq_ok_of_forall fun piece hpiece =>
        block_eq_ok hnword (hbelow piece hpiece) (centroids piece) (count piece)
    · rw [hanswers.count_eq, count_block htotal hc]
      exact size_blockSpan hn
    · simp only [hanswers.mem_iff]
      exact all_blocks_filled_iff

theorem ten_elements_divided :
    block 10 .empty [5, 6, 7, 8, 9] 5 4 = .ok [2, 2, 2, 3, 3] ∧
    (∃ answers, ([[5, 6, 7, 8, 9], [4, 3, 2, 1, 0]].mapM fun piece =>
        block 10 .empty piece piece.length 4) = .ok answers ∧ ∀ c < 4, c ∈ answers.flatten) ∧
    block (wordSize - 1) .empty [wordSize - 2] 1 (wordSize - 1) = .ok [wordSize - 2] := by
  obtain ⟨-, -, -, hblock, hpieces⟩ :=
    block_divides 10 4 (by decide) (by decide) (by decide) (by decide)
  obtain ⟨-, -, -, hlargest, -⟩ := block_divides (wordSize - 1) (wordSize - 1) (by decide)
    (by decide) (by decide) (by decide)
  obtain ⟨answers, hanswers, -, hfilled⟩ := hpieces [[5, 6, 7, 8, 9], [4, 3, 2, 1, 0]] (by decide)
    (fun _ => .empty) List.length
  refine ⟨?_, ⟨answers, hanswers, hfilled.2 (by decide)⟩, ?_⟩
  · exact hblock [5, 6, 7, 8, 9] (by decide) .empty 5
  · exact hlargest [wordSize - 2] (by decide) .empty 1

end Strategy

namespace Algorithm
variable {a : Algorithm} {total nchare g c : Nat} {elements : List Nat}

def IsPlain (a : Algorithm) : Prop := a = .block ∨ a = .cyclic

def chareOf (a : Algorithm) (total nchare g : Nat) : Nat :=
  match a with
  | block => g * nchare / total
  | _ => g % nchare

theorem strategy_eq_ok (ha : a.IsPlain) (hn : 0 < nchare) (hword : nchare < wordSize)
    (h : ∀ g ∈ elements, g < total) (centroids : Centroids) (count : Nat) :
    a.strategy total centroids elements count nchare =
      .ok (elements.map (a.chareOf total nchare)) := by
  rcases ha with rfl | rfl
  · exact Strategy.block_eq_ok hword h centroids count
  · exact Strategy.cyclic_eq_ok hn centroids count

theorem strategy_eq_error {centroids : Centroids} {count : Nat} {e : Fault}
    (h : a.strategy total centroids elements count nchare = .error e) :
    ∃ cause, e = .strategy cause := by
  cases a with
  | block =>
    have hblock : Strategy.block total centroids elements count nchare = .error e := h
    unfold Strategy.block at hblock
    split at hblock
    all_goals cases hblock
  | cyclic =>
    have hcyclic : Strategy.cyclic centroids elements count nchare = .error e := h
    unfold Strategy.cyclic at hcyclic
    split at hcyclic
    · exact ⟨_, (Except.error.inj hcyclic).symm⟩
    · cases hcyclic
  | slab axis lo hi =>
    have hslab : Strategy.slab axis lo hi centroids elements count nchare = .error e := h
    unfold Strategy.slab at hslab
    dsimp only at hslab
    split at hslab
    · exact ⟨_, (Except.error.inj hslab).symm⟩
    · cases hslab

theorem verify_strategy (a : Algorithm) (hn : 0 < nchare) (h : ∀ g ∈ elements, g < total)
    {centroids : Centroids} (hcentroids : a.needsCentroids = true → ∀ axis,
      (centroids.along axis).length = elements.length) :
    ∃ chares, a.strategy total centroids elements elements.length nchare = .ok chares ∧
      Strategy.verify chares elements.length nchare = .ok () := by
  cases a with
  | block =>
    refine ⟨_, Strategy.block_eq_map h centroids elements.length,
      Strategy.verify_eq_ok_iff.2 ⟨List.length_map .., fun c hc => ?_⟩⟩
    obtain ⟨g, hg, rfl⟩ := List.mem_map.1 hc
    exact Nat.lt_of_le_of_lt (Nat.mod_le ..) (Strategy.block_lt hn (h g hg))
  | cyclic =>
    refine ⟨_, Strategy.cyclic_eq_ok hn centroids elements.length,
      Strategy.verify_eq_ok_iff.2 ⟨List.length_map .., fun c hc => ?_⟩⟩
    obtain ⟨g, -, rfl⟩ := List.mem_map.1 hc
    exact Nat.mod_lt g hn
  | slab axis lo hi =>
    have hlength := hcentroids rfl axis
    refine ⟨_, if_neg (not_not.2 hlength),
      Strategy.verify_eq_ok_iff.2 ⟨(List.length_map ..).trans hlength, fun c hc => ?_⟩⟩
    -- Whatever number the position gives, the last slab takes all that is beyond it.
    obtain ⟨x, -, rfl⟩ := List.mem_map.1 hc
    exact Nat.lt_of_le_of_lt (Nat.min_le_right ..) (Nat.sub_lt hn Nat.one_pos)

theorem chareOf_lt (ha : a.IsPlain) (hn : 0 < nchare) (hg : g < total) :
    a.chareOf total nchare g < nchare := by
  rcases ha with rfl | rfl
  · exact Strategy.block_lt hn hg
  · exact Nat.mod_lt g hn

theorem exists_chareOf_eq (ha : a.IsPlain) (h : nchare ≤ total) (hc : c < nchare) :
    ∃ g < total, a.chareOf total nchare g = c := by
  rcases ha with rfl | rfl
  · exact Strategy.exists_block_eq h hc
  · exact ⟨c, Nat.lt_of_lt_of_le hc h, Nat.mod_eq_of_lt hc⟩

end Algorithm
end MeshNumbering
