import Mathlib.Data.Finset.Card
import Mathlib.Data.Set.Function
import MeshNumbering.Proofs.Scenario.Holders

/-! New ids as ranks. Nodes are ordered by the processor that numbers them, then by their old ids; a
node's new id is the number of nodes before it. -/

namespace MeshNumbering.Scenario
variable {t : Scenario} {p q n m : Nat}

def referenced (t : Scenario) : NatSet :=
  .ofList ((List.range t.npes).flatMap fun p => (t.chunk p).connectivity)

/-- How many nodes come before `n`. -/
def rank (t : Scenario) (n : Nat) : Nat :=
  (t.referenced.filter fun m => t.holder m < t.holder n ∨ t.holder m = t.holder n ∧ m < n).size

def below (t : Scenario) (q : Nat) : Nat := (t.referenced.filter fun m => t.holder m < q).size

theorem owner_lt (h : 0 < t.npes) (c : Nat) : t.layout.owner c < t.npes := by
  have hle : t.layout.npes ≤ t.npes := by
    unfold layout
    cases hl : t.layout? with
    | none => exact h
    | some l =>
      obtain ⟨nchare, -, hof⟩ := Option.bind_eq_some_iff.1 hl
      cases hl' : Layout.of nchare t.npes with
      | error e => simp [hl', Except.toOption] at hof
      | ok l' =>
        rw [hl'] at hof
        obtain rfl := Option.some.inj hof
        exact Nat.le_of_eq (Layout.of_eq_ok hl').2
  exact Nat.lt_of_lt_of_le (Layout.owner_lt ..) hle

theorem exists_element {l : List Nat} {k : Nat} (hl : l.length = 4 * k) (hn : n ∈ l) :
    ∃ i < k, n ∈ NodeLists.element l i := by
  obtain ⟨j, hj, rfl⟩ := List.mem_iff_getElem.1 hn
  refine ⟨j / 4, by omega, List.mem_iff_getElem.2 ⟨j % 4, ?_, ?_⟩⟩
  · rw [NodeLists.element, List.length_take, List.length_drop]
    omega
  · simp only [NodeLists.element, List.getElem_take, List.getElem_drop, Nat.div_add_mod]

theorem mem_of_mem_element {l : List Nat} {i : Nat} (h : n ∈ NodeLists.element l i) : n ∈ l :=
  List.mem_of_mem_drop (List.mem_of_mem_take h)

theorem exists_uses_iff (hall : ∀ p < t.npes, t.Assigns p) :
    (∃ q < t.npes, t.Uses q n) ↔ n ∈ t.referenced := by
  rw [referenced, NatSet.mem_ofList, List.mem_flatMap]
  simp only [List.mem_range]
  constructor
  · rintro ⟨q, -, p, hp, i, c, -, -, hn⟩
    exact ⟨p, hp, mem_of_mem_element hn⟩
  · rintro ⟨p, hp, hn⟩
    obtain ⟨i, hi, hn⟩ := exists_element (t.length_connectivity p) hn
    rw [← (hall p hp).length_assignment] at hi
    exact ⟨_, owner_lt (Nat.zero_lt_of_lt hp) _, p, hp, i, _, List.getElem?_eq_getElem hi, rfl, hn⟩

theorem holder_lt (h : ∃ q < t.npes, t.Uses q n) : t.holder n < t.npes := by
  obtain ⟨q, hq, hu⟩ := h
  exact Nat.lt_of_le_of_lt (holder_le hq hu) hq

theorem uses_holder (h : t.holder n < t.npes) : t.Uses (t.holder n) n :=
  ((holder_eq_iff h).1 rfl).1

theorem mem_ownNodes_iff_holder (hall : ∀ p < t.npes, t.Assigns p) (hq : q < t.npes) :
    n ∈ t.ownNodes q ↔ n ∈ t.referenced ∧ t.holder n = q := by
  rw [mem_ownNodes hq, mem_holdings, ← exists_uses_iff hall]
  constructor
  · rintro ⟨hu, hh⟩
    exact ⟨⟨q, hq, hu⟩, hh⟩
  · rintro ⟨-, rfl⟩
    exact ⟨uses_holder hq, rfl⟩

theorem size_filter_or {s : NatSet} {f g : Nat → Bool}
    (h : ∀ n ∈ s.elems, f n = true → g n = false) :
    (s.filter fun n => f n || g n).size = (s.filter f).size + (s.filter g).size := by
  have hf : ∀ n, n ∈ (s.filter fun n => f n || g n).filter f ↔ n ∈ s.filter f := by
    intro n
    simp only [NatSet.mem_filter, Bool.or_eq_true]
    exact ⟨fun hn => ⟨hn.1.1, hn.2⟩, fun hn => ⟨⟨hn.1, .inl hn.2⟩, hn.2⟩⟩
  have hg : ∀ n, n ∈ (s.filter fun n => f n || g n).filter (fun n => !f n) ↔ n ∈ s.filter g := by
    intro n
    simp only [NatSet.mem_filter, Bool.or_eq_true, Bool.not_eq_true']
    constructor
    · rintro ⟨⟨hn, hf | hg⟩, hnf⟩
      · simp [hf] at hnf
      · exact ⟨hn, hg⟩
    · rintro ⟨hn, hg⟩
      have hnf : f n = false := Bool.eq_false_iff.2 fun hf => by simp [h n hn hf] at hg
      exact ⟨⟨hn, .inr hg⟩, hnf⟩
  rw [← size_filter_add_size_filter _ f, NatSet.size_congr hf, NatSet.size_congr hg]

theorem own_eq_size (hall : ∀ p < t.npes, t.Assigns p) (hq : q < t.npes) :
    t.own q = (t.referenced.filter fun m => t.holder m = q).size := by
  rw [own_eq hq]
  exact NatSet.size_congr fun n => by simp [mem_ownNodes_iff_holder hall hq]

theorem base_eq_below (hall : ∀ p < t.npes, t.Assigns p) (hq : q ≤ t.npes) :
    t.base q = t.below q := by
  induction q with
  | zero => simp [base, below, NatSet.size, NatSet.filter]
  | succ q ih =>
    have hstep : t.base (q + 1) = t.base q + t.own q := by
      simp [base, List.range_succ]
    rw [hstep, ih (Nat.le_of_succ_le hq), own_eq_size hall hq, below, below,
      ← size_filter_or fun n _ hlt => by simpa using Nat.ne_of_lt (of_decide_eq_true hlt)]
    apply NatSet.size_congr
    intro n
    simp only [NatSet.mem_filter, Bool.or_eq_true, decide_eq_true_eq, Nat.lt_succ_iff_lt_or_eq]

theorem nodeTotal_eq_size (hall : ∀ p < t.npes, t.Assigns p) :
    t.nodeTotal = t.referenced.size := by
  show t.base t.npes = _
  rw [base_eq_below hall (Nat.le_refl _), below]
  apply NatSet.size_congr
  intro n
  rw [NatSet.mem_filter, decide_eq_true_eq]
  exact and_iff_left_of_imp fun hn => holder_lt ((exists_uses_iff hall).2 hn)

theorem newId_eq_rank (hall : ∀ p < t.npes, t.Assigns p) (hn : n ∈ t.referenced) :
    t.newId n = t.rank n := by
  have hlt : t.holder n < t.npes := holder_lt ((exists_uses_iff hall).2 hn)
  have hown : ((t.ownNodes (t.holder n)).filter fun m => m < n).size =
      (t.referenced.filter fun m => decide (t.holder m = t.holder n ∧ m < n)).size :=
    NatSet.size_congr fun m => by
      simp [mem_ownNodes_iff_holder hall hlt, and_assoc]
  rw [newId, base_eq_below hall (Nat.le_of_lt hlt), hown, below,
    ← size_filter_or fun m _ hm => by simp [Nat.ne_of_lt (of_decide_eq_true hm)]]
  exact NatSet.size_congr fun m => by simp

theorem rank_eq_card (t : Scenario) (n : Nat) : t.rank n = (t.referenced.toFinset.filter fun m =>
    t.holder m < t.holder n ∨ t.holder m = t.holder n ∧ m < n).card :=
  NatSet.size_eq_card fun m => by simp

theorem rank_lt_rank (hm : m ∈ t.referenced)
    (h : t.holder m < t.holder n ∨ t.holder m = t.holder n ∧ m < n) : t.rank m < t.rank n := by
  rw [rank_eq_card, rank_eq_card]
  refine Finset.card_lt_card (Finset.ssubset_iff_of_subset (fun k hk => ?_) |>.2 ⟨m, ?_, ?_⟩)
  · rw [Finset.mem_filter] at hk ⊢
    exact ⟨hk.1, by omega⟩
  · exact Finset.mem_filter.2 ⟨NatSet.mem_toFinset.2 hm, h⟩
  · simp

theorem rank_lt_size (hn : n ∈ t.referenced) : t.rank n < t.referenced.size := by
  rw [rank_eq_card, ← NatSet.card_toFinset]
  refine Finset.card_lt_card (Finset.filter_ssubset.2 ⟨n, NatSet.mem_toFinset.2 hn, ?_⟩)
  simp

theorem rank_injOn : Set.InjOn t.rank {n | n ∈ t.referenced} := by
  intro m hm n hn heq
  rcases Nat.lt_trichotomy (t.holder m) (t.holder n) with h | h | h
  · exact absurd heq (Nat.ne_of_lt (rank_lt_rank hm (.inl h)))
  · rcases Nat.lt_trichotomy m n with hlt | rfl | hlt
    · exact absurd heq (Nat.ne_of_lt (rank_lt_rank hm (.inr ⟨h, hlt⟩)))
    · rfl
    · exact absurd heq (Nat.ne_of_gt (rank_lt_rank hn (.inr ⟨h.symm, hlt⟩)))
  · exact absurd heq (Nat.ne_of_gt (rank_lt_rank hn (.inl h)))

theorem rank_bijOn (t : Scenario) :
    Set.BijOn t.rank {n | n ∈ t.referenced} (Set.Iio t.referenced.size) := by
  refine ⟨fun n hn => rank_lt_size hn, rank_injOn, ?_⟩
  have hset : {n | n ∈ t.referenced} = (t.referenced.toFinset : Set Nat) :=
    Set.ext fun n => by simp
  have hrange : Set.Iio t.referenced.size = (Finset.range t.referenced.size : Set Nat) :=
    Set.ext fun n => by simp
  have hinj := rank_injOn (t := t)
  rw [hset] at hinj ⊢
  rw [hrange]
  refine Finset.surjOn_of_injOn_of_card_le _ (fun n hn => ?_) hinj ?_
  · exact Finset.mem_coe.2 (Finset.mem_range.2 (rank_lt_size (by simpa using hn)))
  · rw [Finset.card_range, NatSet.card_toFinset]

end MeshNumbering.Scenario
