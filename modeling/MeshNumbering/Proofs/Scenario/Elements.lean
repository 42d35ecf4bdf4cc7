import MeshNumbering.Proofs.Mesh.Reading
import MeshNumbering.Proofs.Scenario.Checks
import MeshNumbering.Proofs.Scenario.Rank

/-! The elements of the whole mesh. All processors together read every element once; its nodes go to
the chare it is assigned to, wherever it was read, in the order of the elements. -/

namespace MeshNumbering.Scenario
variable {t : Scenario} {p q c n : Nat}

def elements (t : Scenario) : List Nat := (List.range t.npes).flatMap fun p => (t.chunk p).elements

def chares (t : Scenario) : List Nat := (List.range t.npes).flatMap t.assignment

def connectivity (t : Scenario) : List Nat :=
  (List.range t.npes).flatMap fun p => (t.chunk p).connectivity

/-- The nodes of the elements of a chare, element by element. -/
def nodesOf (t : Scenario) (c : Nat) : List Nat := NodeLists.gather t.chares t.connectivity c

def Viable (t : Scenario) : Prop := ∀ p < t.npes, t.Passed p 3

theorem Viable.assigns (h : t.Viable) : ∀ p < t.npes, t.Assigns p :=
  fun p hp => (h p hp).assigns (by decide)

theorem Assigns.length_connectivity (h : t.Assigns p) :
    (t.chunk p).connectivity.length = 4 * (t.assignment p).length := by
  rw [h.length_assignment]
  exact t.length_connectivity p

theorem ofChare_part (h : t.Assigns p) : (t.part p q).ofChare c =
    if t.layout.owner c = q then NodeLists.gather (t.assignment p) (t.chunk p).connectivity c
    else [] := by
  unfold part
  have hlength := Nat.le_of_eq h.length_connectivity.symm
  rw [NodeLists.ofChare_filterKeys, NodeLists.ofChare_ofAssignment hlength]
  simp only [decide_eq_true_eq]

theorem ofChare_concat_received : (t.nodes q).ofChare c =
    (List.range t.npes).flatMap fun p => (t.part p q).ofChare c := by
  unfold nodes
  rw [NodeLists.ofChare_concat_values fun p a ha => (get?_received.1 ha).1]
  apply List.flatMap_congr
  intro p hp
  rw [NatMap.getD_eq_of_filled fun a =>
    get?_received.trans (and_iff_right (List.mem_range.1 hp))]

theorem ofChare_nodes (hall : ∀ p < t.npes, t.Assigns p) :
    (t.nodes q).ofChare c = if t.layout.owner c = q then t.nodesOf c else [] := by
  have hparts : ((List.range t.npes).flatMap fun p => (t.part p q).ofChare c) =
      (List.range t.npes).flatMap fun p => if t.layout.owner c = q then
        NodeLists.gather (t.assignment p) (t.chunk p).connectivity c else [] := by
    apply List.flatMap_congr
    intro p hp
    exact ofChare_part (hall p (List.mem_range.1 hp))
  rw [ofChare_concat_received, hparts]
  split
  · symm
    apply NodeLists.gather_flatMap
    intro p hp
    exact (hall p (List.mem_range.1 hp)).length_connectivity
  · rw [List.flatMap_eq_nil_iff]
    intro p _
    rfl

theorem ofChare_owner (hall : ∀ p < t.npes, t.Assigns p) :
    (t.nodes (t.layout.owner c)).ofChare c = t.nodesOf c := by
  rw [ofChare_nodes hall, if_pos rfl]

theorem refers_nodes_iff (hall : ∀ p < t.npes, t.Assigns p) :
    (t.nodes q).Refers c n ↔ t.layout.owner c = q ∧ n ∈ t.nodesOf c := by
  rw [NodeLists.refers_iff_mem, ofChare_nodes hall]
  by_cases ho : t.layout.owner c = q
  · rw [if_pos ho]
    exact (and_iff_right ho).symm
  · rw [if_neg ho]
    exact iff_of_false List.not_mem_nil fun h => ho h.1

theorem length_chares_connectivity (hall : ∀ p < t.npes, t.Assigns p) :
    t.connectivity.length = 4 * t.chares.length := by
  have hparts : ∀ l : List Nat, (∀ p ∈ l, p < t.npes) →
      (l.flatMap fun p => (t.chunk p).connectivity).length =
        4 * (l.flatMap t.assignment).length := by
    intro l hl
    induction l with
    | nil => rfl
    | cons p l ih =>
      have hp := (hall p (hl p (List.mem_cons_self ..))).length_connectivity
      have hrest := ih fun p' hp' => hl p' (List.mem_cons_of_mem p hp')
      rw [List.flatMap_cons, List.flatMap_cons, List.length_append, List.length_append, hp, hrest,
        Nat.mul_add]
  exact hparts _ fun p hp => List.mem_range.1 hp

theorem lt_of_mem_chares (h : c ∈ t.chares) : c < t.layout.nchare := by
  obtain ⟨p, -, hp⟩ := List.mem_flatMap.1 h
  exact lt_of_mem_assignment hp

theorem mem_chares_iff (hall : ∀ p < t.npes, t.Assigns p) : c ∈ t.chares ↔ t.nodesOf c ≠ [] :=
  (NodeLists.gather_ne_nil (length_chares_connectivity hall)).symm

theorem length_elements (hall : ∀ p < t.npes, t.Assigns p) :
    t.elements.length = t.chares.length := by
  unfold elements chares
  rw [List.length_flatMap, List.length_flatMap]
  apply congrArg
  apply List.map_congr_left
  intro p hp
  exact (hall p (List.mem_range.1 hp)).length_assignment.symm

theorem elements_eq_range (hpos : 0 < t.npes) (hreads : ∀ p < t.npes, t.Reads p) :
    ∃ count, t.reader.elementCount = .ok count ∧ t.elements = List.range count := by
  obtain ⟨count, hcount, -⟩ := Chunk.read_eq_ok_iff.1 (hreads 0 hpos)
  refine ⟨count, hcount, ?_⟩
  rw [← flatMap_elementSpan count hpos]
  apply List.flatMap_congr
  intro p hp
  obtain ⟨count', hcount', helements, -⟩ := Chunk.read_eq_ok_iff.1 (hreads p (List.mem_range.1 hp))
  obtain rfl := Except.ok.inj (hcount.symm.trans hcount')
  exact helements

theorem connectivity_eq {m : Mesh} (hm : m.Valid) (hreader : t.reader = m.reader)
    (hpos : 0 < t.npes) : t.connectivity = m.connectivity := by
  rw [← hm.flatMap_part hpos]
  apply List.flatMap_congr
  intro p hp
  unfold chunk
  rw [hreader, hm.read_eq_ok (List.mem_range.1 hp)]
  rfl

theorem total_eq_length : t.total = t.elements.length := by
  unfold total elements
  rw [List.length_flatMap]
  rfl

theorem Viable.elements_eq (h : t.Viable) (hpos : 0 < t.npes) :
    t.reader.elementCount = .ok t.chares.length ∧ t.elements = List.range t.chares.length := by
  obtain ⟨count, hcount, hrange⟩ := elements_eq_range hpos fun p hp => (h p hp).reads (by decide)
  have hlength : count = t.chares.length := by
    rw [← length_elements h.assigns, hrange, List.length_range]
  exact ⟨hlength ▸ hcount, hlength ▸ hrange⟩

theorem npes_layout (h : t.layout? = some t.layout) : t.layout.npes = t.npes := by
  obtain ⟨nchare, -, hof⟩ := Option.bind_eq_some_iff.1 h
  cases hl : Layout.of nchare t.npes with
  | error e =>
    rw [hl] at hof
    cases hof
  | ok l =>
    rw [hl] at hof
    rw [← Option.some.inj hof]
    exact (Layout.of_eq_ok hl).2

theorem Viable.npes_layout (h : t.Viable) (hpos : 0 < t.npes) : t.layout.npes = t.npes :=
  Scenario.npes_layout ((h 0 hpos).layout (by decide))

theorem Viable.keys_nodes (h : t.Viable) (hq : q < t.npes) :
    (t.nodes q).keys.elems = (t.layout.owned q).elems := by
  have hpos : 0 < t.npes := Nat.zero_lt_of_lt hq
  have howned : ∀ c, c ∈ t.layout.owned q ↔ t.layout.owns q c = true := fun c =>
    Layout.mem_owned_iff ((h.npes_layout hpos).symm ▸ hq)
  apply NatSet.eq_of_ascending (t.nodes q).keys.ascending (Span.ascending_elems _)
  intro c
  rw [Span.mem_elems]
  constructor
  · intro hc
    exact (howned c).2 (owns_of_mem_nodes hc)
  · intro hc
    apply NodeLists.mem_keys_of_ofChare_ne_nil
    exact Holdings.ofChare_ne_nil_of_eq_ok ((h q hq).staffs (by decide)) hc

theorem Viable.mem_chares (h : t.Viable) (hpos : 0 < t.npes) (hc : c < t.layout.nchare) :
    c ∈ t.chares := by
  have hq : t.layout.owner c < t.npes := owner_lt hpos c
  have howned : c ∈ t.layout.owned (t.layout.owner c) := by
    rw [Layout.mem_owned_iff ((h.npes_layout hpos).symm ▸ hq)]
    exact Layout.owns_iff.2 ⟨hc, rfl⟩
  rw [mem_chares_iff h.assigns, ← ofChare_owner h.assigns]
  exact Holdings.ofChare_ne_nil_of_eq_ok ((h _ hq).staffs (by decide)) howned

end MeshNumbering.Scenario
