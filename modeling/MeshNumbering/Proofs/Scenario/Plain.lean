import MeshNumbering.Proofs.Holdings.Index
import MeshNumbering.Proofs.Scenario.InMemory

/-! Meshes held in memory that are dealt out to a given number of chares by element ids alone. Only
the number of chares can be wrong with these: there must be enough of them for all processors and
enough elements for all of them. -/

namespace MeshNumbering.Scenario
variable {t : Scenario} {m : Mesh} {nchare pe p c : Nat} {e : Fault}

/-- The mesh is held in memory, the number of chares is given, the strategy is a plain one, and
received frames may have any length. Node ids and the number of chares are words. -/
structure Plain (t : Scenario) (m : Mesh) (nchare : Nat) : Prop where
  valid : m.Valid
  reader_eq : t.reader = m.reader
  chares_eq : t.config.chares = .fixed nchare
  isPlain : t.config.algorithm.IsPlain
  strategy_eq : t.strategy = none
  frameLimit_eq : t.config.frameLimit = none
  npes_pos : 0 < t.npes
  nchare_lt : nchare < wordSize
  nodes_lt : ∀ n ∈ m.connectivity, n < wordSize

namespace Plain

theorem check_eq (h : t.Plain m nchare) : t.config.check t.npes =
    if nchare < t.npes then .error (.fewerCharesThanProcessors nchare t.npes) else .ok () := by
  have hpos : ¬ t.npes = 0 := Nat.ne_of_gt h.npes_pos
  unfold Config.check
  rw [if_neg hpos, h.chares_eq]
  rcases h.isPlain with ha | ha
  all_goals
    rw [ha]
    dsimp only
    split
    · rfl
    · rfl

theorem inMemory (h : t.Plain m nchare) : t.InMemory m := ⟨h.valid, h.reader_eq, h.npes_pos⟩

theorem not_reported (h : t.Plain m nchare) (hpe : pe < t.npes) : ¬ t.Reported pe e := by
  rintro (hcount | ⟨hcount, hsize, helements⟩ | ⟨needs, -, -⟩ | ⟨hs, -⟩)
  · rw [h.reader_eq] at hcount
    cases hcount
  · obtain ⟨count', hcount', -, hread, -⟩ := Chunk.read_eq_ok_iff.1 (h.inMemory.reads hpe)
    obtain rfl := Except.ok.inj (hcount.symm.trans hcount')
    rw [if_neg hsize, helements] at hread
    cases hread
  · rcases h.isPlain with ha | ha
    all_goals
      rw [ha] at needs
      cases needs
  · rw [h.strategy_eq] at hs
    cases hs

section
variable (h : t.Plain m nchare) (hle : t.npes ≤ nchare)
include h hle

theorem nchare_pos : 0 < nchare := Nat.lt_of_lt_of_le h.npes_pos hle

theorem forMesh_eq : t.config.chares.forMesh t.total t.npes = .ok nchare := by
  have hn : ¬ nchare = 0 := Nat.ne_of_gt (h.nchare_pos hle)
  have henough : ¬ nchare < t.npes := Nat.not_lt_of_le hle
  rw [h.chares_eq]
  unfold ChareCount.forMesh
  dsimp only
  show (if nchare = 0 then _ else _) = _
  rw [if_neg hn]
  show (if nchare < t.npes then _ else _) = _
  rw [if_neg henough]
  rfl

theorem layout_of : Layout.of nchare t.npes = .ok ⟨nchare, t.npes, h.npes_pos, hle⟩ := by
  unfold Layout.of
  rw [dif_pos ⟨h.npes_pos, hle⟩]

theorem layout_eq : t.layout = ⟨nchare, t.npes, h.npes_pos, hle⟩ :=
  (Scenario.layout_eq (h.forMesh_eq hle) (h.layout_of hle)).1

theorem lt_npes_layout (hpe : pe < t.npes) : pe < t.layout.npes := by
  rw [h.layout_eq hle]
  exact hpe

theorem planner_eq (hp : p < t.npes) :
    t.planner (t.centroids p) (t.chunk p).elements (t.load p) t.layout.nchare =
      .ok ((t.chunk p).elements.map (t.config.algorithm.chareOf m.elementCount nchare)) := by
  have hbelow := h.inMemory.lt_of_mem_elements hp
  unfold planner
  rw [h.strategy_eq, h.inMemory.total_eq, h.layout_eq hle]
  exact Algorithm.strategy_eq_ok h.isPlain (h.nchare_pos hle) h.nchare_lt hbelow ..

theorem verify_eq (hp : p < t.npes) :
    Strategy.verify ((t.chunk p).elements.map (t.config.algorithm.chareOf m.elementCount nchare))
      (t.load p) t.layout.nchare = .ok () := by
  apply Strategy.verify_eq_ok_iff.2
  rw [h.layout_eq hle]
  constructor
  · exact List.length_map ..
  · intro c hc
    obtain ⟨g, hg, rfl⟩ := List.mem_map.1 hc
    exact Algorithm.chareOf_lt h.isPlain (h.nchare_pos hle) (h.inMemory.lt_of_mem_elements hp g hg)

theorem assignment?_eq (hp : p < t.npes) : t.assignment? p =
    some ((t.chunk p).elements.map (t.config.algorithm.chareOf m.elementCount nchare)) :=
  assignment?_of_verify (h.planner_eq hle hp) (h.verify_eq hle hp)

theorem assigns : ∀ p < t.npes, t.Assigns p := by
  intro p hp
  unfold Assigns
  rw [h.assignment?_eq hle hp]
  rfl

theorem map_chareOf : t.chares =
    (List.range m.elementCount).map (t.config.algorithm.chareOf m.elementCount nchare) := by
  rw [← h.inMemory.elements_eq]
  unfold chares elements
  rw [List.map_flatMap]
  apply List.flatMap_congr
  intro p hp
  unfold assignment
  rw [h.assignment?_eq hle (List.mem_range.1 hp)]
  rfl

theorem mem_chares (hmany : nchare ≤ m.elementCount) (hc : c < nchare) : c ∈ t.chares := by
  obtain ⟨g, hg, hchare⟩ := Algorithm.exists_chareOf_eq h.isPlain hmany hc
  rw [h.map_chareOf hle]
  exact List.mem_map.2 ⟨g, List.mem_range.2 hg, hchare⟩

theorem idle_or_unfit_of_flaw (hpe : pe < t.npes) (hflaw : t.Flaw pe e) :
    (∃ c, e = .emptyChare pe c ∧ c ∈ t.layout.owned pe ∧ ¬ c ∈ t.chares) ∨
    ∃ k q cause, t.Passes k pe q ∧ (t.message k pe q).unfit? = some cause ∧
      e = .frame cause := by
  have hnpes := h.lt_npes_layout hle hpe
  cases hflaw with
  | config hcheck =>
    rw [h.check_eq, if_neg (Nat.not_lt_of_le hle)] at hcheck
    cases hcheck
  | chunk hread =>
    rw [h.inMemory.reads hpe] at hread
    cases hread
  | centroids needs =>
    rcases h.isPlain with ha | ha
    all_goals
      rw [ha] at needs
      cases needs
  | count hcount =>
    rw [h.forMesh_eq hle] at hcount
    cases hcount
  | layout hn hlayout =>
    rw [h.forMesh_eq hle] at hn
    obtain rfl := Except.ok.inj hn
    rw [h.layout_of hle] at hlayout
    cases hlayout
  | strategy hplan =>
    rw [h.planner_eq hle hpe] at hplan
    cases hplan
  | assignment hplan hverify =>
    rw [h.planner_eq hle hpe] at hplan
    obtain rfl := Except.ok.inj hplan
    rw [h.verify_eq hle hpe] at hverify
    cases hverify
  | @idle c hof =>
    obtain ⟨howned, hnone⟩ := Holdings.idle_of_eq_error hnpes hof
    obtain ⟨-, howner⟩ := Layout.owns_iff.1 ((Layout.mem_owned_iff hnpes).1 howned)
    refine .inl ⟨c, rfl, howned, ?_⟩
    rw [mem_chares_iff (h.assigns hle), not_not, ← ofChare_owner (h.assigns hle), howner]
    exact hnone
  | unfit passes hunfit => exact .inr ⟨_, _, _, passes, hunfit, rfl⟩
  | limit hlimit =>
    rw [h.frameLimit_eq] at hlimit
    cases hlimit

theorem idle_of_flaw (hfits : t.Fits) (hpe : pe < t.npes) (hflaw : t.Flaw pe e) :
    ∃ c, e = .emptyChare pe c ∧ c ∈ t.layout.owned pe ∧ ¬ c ∈ t.chares := by
  refine (h.idle_or_unfit_of_flaw hle hpe hflaw).resolve_right ?_
  rintro ⟨k, q, cause, passes, hunfit, -⟩
  rw [hfits k pe q passes] at hunfit
  cases hunfit

theorem not_flaw (hfits : t.Fits) (hmany : nchare ≤ m.elementCount) (hpe : pe < t.npes) :
    ¬ t.Flaw pe e := by
  intro hflaw
  obtain ⟨c, -, howned, hidle⟩ := h.idle_of_flaw hle hfits hpe hflaw
  have hnpes := h.lt_npes_layout hle hpe
  obtain ⟨hc, -⟩ := Layout.owns_iff.1 ((Layout.mem_owned_iff hnpes).1 howned)
  rw [h.layout_eq hle] at hc
  exact hidle (h.mem_chares hle hmany hc)

end

theorem le_elementCount (h : t.Plain m nchare) (hle : t.npes ≤ nchare) (hviable : t.Viable) :
    nchare ≤ m.elementCount := by
  have hsub : List.range nchare ⊆ t.chares := by
    intro c hc
    have hlt : c < t.layout.nchare := by
      rw [h.layout_eq hle]
      exact List.mem_range.1 hc
    exact hviable.mem_chares h.npes_pos hlt
  have hlength := (List.subperm_of_subset List.nodup_range hsub).length_le
  rw [List.length_range, h.map_chareOf hle, List.length_map, List.length_range] at hlength
  exact hlength

end Plain
end MeshNumbering.Scenario
