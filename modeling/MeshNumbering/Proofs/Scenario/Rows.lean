import MeshNumbering.Proofs.Scenario.Checks
import MeshNumbering.Proofs.Scenario.Rank
import MeshNumbering.Proofs.Span

/-! The rows of all processors tile the nodes. A processor touches no id beyond those it numbers
itself, and touches the last of these, so its rows end where the next processor's can begin. -/

namespace MeshNumbering

theorem NatSet.max?_eq_some_iff {s : NatSet} {m : Nat} :
    s.max? = some m ↔ m ∈ s ∧ ∀ n ∈ s.elems, n ≤ m := by
  have hmax : ∀ m, s.max? = some m → m ∈ s ∧ ∀ n ∈ s.elems, n ≤ m := by
    intro m h
    obtain ⟨l, hl⟩ := List.getLast?_eq_some_iff.1 h
    have hsorted := s.ascending
    rw [hl, List.pairwise_append] at hsorted
    have hbelow : ∀ n ∈ l, n < m := fun n hn => hsorted.2.2 n hn m (List.mem_singleton_self m)
    constructor
    · rw [NatSet.mem_def, hl]
      exact List.mem_append_right _ (List.mem_singleton_self m)
    · intro n hn
      rw [hl, List.mem_append, List.mem_singleton] at hn
      rcases hn with hn | hn
      · exact Nat.le_of_lt (hbelow n hn)
      · exact Nat.le_of_eq hn
  constructor
  · exact hmax m
  · rintro ⟨hm, hle⟩
    cases h : s.max? with
    | none =>
      have hempty : s.elems = [] := List.getLast?_eq_none_iff.1 h
      rw [NatSet.mem_def, hempty] at hm
      cases hm
    | some m' =>
      obtain ⟨hm', hle'⟩ := hmax m' h
      exact congrArg some (Nat.le_antisymm (hle m' hm') (hle' m hm))

theorem upperRow_eq {touched : NatSet} {base own : Nat} (last : Bool)
    (hlt : ∀ i ∈ touched.elems, i < base + own)
    (hmem : 0 < own → base + own - 1 ∈ touched) :
    upperRow touched base last = if last then base + own else base + max own 1 - 1 := by
  unfold upperRow
  rcases Nat.eq_zero_or_pos own with rfl | hpos
  · cases h : touched.max? with
    | none => cases last <;> simp
    | some id =>
      have hid : id < base := hlt id (NatSet.max?_eq_some_iff.1 h).1
      cases last <;> simp <;> omega
  · have hlast : touched.max? = some (base + own - 1) := by
      apply NatSet.max?_eq_some_iff.2
      exact ⟨hmem hpos, fun i hi => Nat.le_sub_one_of_lt (hlt i hi)⟩
    rw [hlast]
    cases last <;> simp <;> omega

namespace Scenario
variable {t : Scenario} {p q n : Nat}

theorem mem_touched {i : Nat} :
    i ∈ (t.relabelling q).touched ↔ ∃ n, t.Uses q n ∧ i = t.newId n := by
  have huses : ∀ n, t.Uses q n ↔ ∃ e ∈ (t.nodes q).entries, n ∈ e.2 := by
    intro n
    rw [← mem_holdings]
    show n ∈ (Holdings.index (t.nodes q)).keys ↔ _
    rw [Holdings.mem_index]
    simp only [NodeLists.refers_iff_entries]
    constructor
    · rintro ⟨c, e, he, -, hn⟩
      exact ⟨e, he, hn⟩
    · rintro ⟨e, he, hn⟩
      exact ⟨e.1, e, he, rfl, hn⟩
  show i ∈ NatSet.ofList _ ↔ _
  rw [NatSet.mem_ofList, List.mem_flatMap]
  simp only [huses, NatMap.values, List.mem_map]
  constructor
  · rintro ⟨_, ⟨e, he, rfl⟩, n, hn, rfl⟩
    exact ⟨n, ⟨e, he, hn⟩, rfl⟩
  · rintro ⟨n, ⟨e, he, hn⟩, rfl⟩
    exact ⟨e.2, ⟨e, he, rfl⟩, n, hn, rfl⟩

theorem base_succ (t : Scenario) (q : Nat) : t.base (q + 1) = t.base q + t.own q := by
  simp [base, List.range_succ]

theorem base_mono (h : p ≤ q) : t.base p ≤ t.base q := by
  induction h with
  | refl => exact Nat.le_refl _
  | step _ ih =>
    rw [base_succ]
    exact Nat.le_add_right_of_le ih

theorem newId_mem_interval (h : t.holder n < t.npes) :
    t.base (t.holder n) ≤ t.newId n ∧ t.newId n < t.base (t.holder n + 1) := by
  have hown : n ∈ t.ownNodes (t.holder n) :=
    (mem_ownNodes h).2 ⟨mem_holdings.2 (uses_holder h), rfl⟩
  have hfewer : ((t.ownNodes (t.holder n)).filter fun m => m < n).size <
      (t.ownNodes (t.holder n)).size := by
    apply List.length_filter_lt_length_iff_exists.2
    exact ⟨n, hown, by simp⟩
  rw [base_succ, own_eq h, newId]
  exact ⟨Nat.le_add_right .., Nat.add_lt_add_left hfewer _⟩

theorem newId_lt (hq : q < t.npes) (hu : t.Uses q n) : t.newId n < t.base q + t.own q := by
  have hle := holder_le hq hu
  have hlt := (newId_mem_interval (Nat.lt_of_le_of_lt hle hq)).2
  rw [← base_succ]
  exact Nat.lt_of_lt_of_le hlt (base_mono (Nat.succ_le_succ hle))

theorem exists_last (hall : ∀ p < t.npes, t.Assigns p) (hq : q < t.npes) (hown : 0 < t.own q) :
    ∃ n, t.Uses q n ∧ t.newId n = t.base q + t.own q - 1 := by
  have hstep : t.base (q + 1) = t.base q + t.own q := t.base_succ q
  have hbelow : t.base q + t.own q - 1 < t.referenced.size := by
    have hle : t.base (q + 1) ≤ t.base t.npes := base_mono hq
    have htotal : t.base t.npes = t.referenced.size := nodeTotal_eq_size hall
    omega
  obtain ⟨n, hn, hrank⟩ := t.rank_bijOn.surjOn hbelow
  have hlt : t.holder n < t.npes := holder_lt ((exists_uses_iff hall).2 hn)
  have hid : t.newId n = t.base q + t.own q - 1 := (newId_eq_rank hall hn).trans hrank
  obtain ⟨hlow, hhigh⟩ := newId_mem_interval hlt
  -- The id lies in the interval of `q`, and intervals of different processors do not meet.
  have hholder : t.holder n = q := by
    rcases Nat.lt_trichotomy (t.holder n) q with h | h | h
    · have hbefore : t.base (t.holder n + 1) ≤ t.base q := base_mono h
      omega
    · exact h
    · have hafter : t.base (q + 1) ≤ t.base (t.holder n) := base_mono h
      omega
  have huses := uses_holder hlt
  rw [hholder] at huses
  exact ⟨n, huses, hid⟩

theorem upper_eq (hall : ∀ p < t.npes, t.Assigns p) (hq : q < t.npes) :
    t.upper q = if q + 1 = t.npes then t.nodeTotal else t.base q + max (t.own q) 1 - 1 := by
  have hlt : ∀ i ∈ (t.relabelling q).touched.elems, i < t.base q + t.own q := by
    intro i hi
    obtain ⟨n, hu, rfl⟩ := mem_touched.1 hi
    exact newId_lt hq hu
  have hmem : 0 < t.own q → t.base q + t.own q - 1 ∈ (t.relabelling q).touched := by
    intro hown
    obtain ⟨n, hu, hid⟩ := exists_last hall hq hown
    exact mem_touched.2 ⟨n, hu, hid.symm⟩
  have hrow := upperRow_eq (decide (q + 1 = t.npes)) hlt hmem
  unfold upper
  rw [hrow]
  simp only [decide_eq_true_eq]
  split
  · next hlast =>
    rw [← base_succ, hlast]
    rfl
  · rfl

theorem base_le_upper (hall : ∀ p < t.npes, t.Assigns p) (hq : q < t.npes) :
    t.base q ≤ t.upper q := by
  rw [upper_eq hall hq]
  split
  · exact base_mono (Nat.le_of_lt hq)
  · omega

theorem lower_le_upper (hall : ∀ p < t.npes, t.Assigns p) (hq : q < t.npes) :
    t.lower q ≤ t.upper q := by
  cases q with
  | zero => exact Nat.zero_le _
  | succ q =>
    have hlast : ¬ q + 1 = t.npes := Nat.ne_of_lt hq
    have hupper := upper_eq hall (Nat.lt_of_succ_lt hq)
    rw [if_neg hlast] at hupper
    have hbase := base_le_upper hall hq
    rw [base_succ] at hbase
    show t.upper q ≤ _
    omega

theorem lower_mono (hall : ∀ p < t.npes, t.Assigns p) (h : p ≤ q) (hq : q ≤ t.npes) :
    t.lower p ≤ t.lower q := by
  induction h with
  | refl => exact Nat.le_refl _
  | step _ ih => exact (ih (Nat.le_of_succ_le hq)).trans (lower_le_upper hall hq)

theorem lower_npes (hall : ∀ p < t.npes, t.Assigns p) : t.lower t.npes = t.nodeTotal := by
  cases h : t.npes with
  | zero =>
    show 0 = t.nodeTotal
    unfold nodeTotal
    rw [h]
    rfl
  | succ q =>
    have hq : q < t.npes := h ▸ Nat.lt_succ_self q
    show t.upper q = _
    rw [upper_eq hall hq, if_pos h.symm]

theorem upper_le_nodeTotal (hall : ∀ p < t.npes, t.Assigns p) (hq : q < t.npes) :
    t.upper q ≤ t.nodeTotal := by
  rw [← lower_npes hall]
  exact lower_mono hall hq (Nat.le_refl _)

theorem newId_lt_nodeTotal (hq : q < t.npes) (hu : t.Uses q n) : t.newId n < t.nodeTotal := by
  have hlt := newId_lt hq hu
  rw [← base_succ] at hlt
  exact Nat.lt_of_lt_of_le hlt (base_mono hq)

theorem tiles_rows (hall : ∀ p < t.npes, t.Assigns p) :
    Span.Tiles (fun q => ⟨t.lower q, t.lower (q + 1)⟩) t.npes t.nodeTotal where
  ordered _ hq := lower_le_upper hall hq
  starts := rfl
  adjoins _ _ := rfl
  ends _ hq := (congrArg t.lower hq).trans (lower_npes hall)

theorem existsUnique_contains_iff (hall : ∀ p < t.npes, t.Assigns p) {row : Nat} :
    row < t.nodeTotal ↔ ∃! q, q < t.npes ∧ (t.rows q).contains row = true := by
  have hcontains : ∀ q, (t.rows q).contains row = true ↔
      row ∈ (⟨t.lower q, t.lower (q + 1)⟩ : Span) := fun q => decide_eq_true_iff
  simp only [hcontains]
  rcases Nat.eq_zero_or_pos t.npes with hnone | hpos
  · have htotal : t.nodeTotal = 0 := by
      rw [← lower_npes hall, hnone]
      rfl
    rw [htotal, hnone]
    constructor
    · intro hrow
      exact absurd hrow (Nat.not_lt_zero row)
    · rintro ⟨q, ⟨hq, -⟩, -⟩
      exact absurd hq (Nat.not_lt_zero q)
  · exact (tiles_rows hall).existsUnique_mem_iff hpos

end Scenario
end MeshNumbering
