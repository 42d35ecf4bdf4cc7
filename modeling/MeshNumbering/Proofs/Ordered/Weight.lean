import Mathlib.Algebra.GroupWithZero.Nat
import Mathlib.Algebra.Order.BigOperators.Group.List
import Mathlib.Algebra.Order.Group.Nat
import MeshNumbering.Ordered.NatMap

/-! Weights of maps. A change adds no more to the weight than what it puts in. -/

namespace MeshNumbering.NatMap
variable {β : Type} {g : β → Nat} {m : NatMap β}

def weight (g : β → Nat) (m : NatMap β) : Nat := (m.values.map g).sum

theorem weight_upsert_le {f : Option β → β} {k extra : Nat} (hnew : g (f none) ≤ extra)
    (hold : ∀ b, g (f (some b)) ≤ g b + extra) :
    (m.upsert k f).weight g ≤ m.weight g + extra := by
  have hentries : ∀ l : List (Nat × β), (((upsertIn k f l).map Prod.snd).map g).sum ≤
      ((l.map Prod.snd).map g).sum + extra := by
    intro l
    induction l with
    | nil =>
      simp only [upsertIn, List.map_cons, List.map_nil, List.sum_cons, List.sum_nil]
      omega
    | cons e l ih =>
      obtain ⟨j, b⟩ := e
      have hb := hold b
      unfold upsertIn
      split
      · simp only [List.map_cons, List.sum_cons]
        omega
      · split
        · simp only [List.map_cons, List.sum_cons]
          omega
        · simp only [List.map_cons, List.sum_cons]
          omega
  exact hentries m.entries

theorem weight_foldl_le {α : Type} {step : NatMap β → α → NatMap β} {w : α → Nat}
    (h : ∀ m a, (step m a).weight g ≤ m.weight g + w a) (l : List α) (m : NatMap β) :
    (l.foldl step m).weight g ≤ m.weight g + (l.map w).sum := by
  induction l generalizing m with
  | nil => exact Nat.le_refl _
  | cons a l ih =>
    have hone := h m a
    have hrest := ih (step m a)
    rw [List.foldl_cons, List.map_cons, List.sum_cons]
    omega

theorem weight_filterKeys_le (p : Nat → Bool) : (m.filterKeys p).weight g ≤ m.weight g := by
  apply List.Sublist.sum_le_sum
  · exact (List.filter_sublist.map Prod.snd).map g
  · intro _ _
    exact Nat.zero_le _

theorem mul_size_le_weight {k : Nat} (h : ∀ b, k ≤ g b) : k * m.size ≤ m.weight g := by
  have hentries : ∀ l : List (Nat × β), k * l.length ≤ ((l.map Prod.snd).map g).sum := by
    intro l
    induction l with
    | nil => exact Nat.le_refl 0
    | cons e l ih =>
      have he := h e.2
      simp only [List.length_cons, List.map_cons, List.sum_cons, Nat.mul_succ]
      omega
  exact hentries m.entries

end MeshNumbering.NatMap
