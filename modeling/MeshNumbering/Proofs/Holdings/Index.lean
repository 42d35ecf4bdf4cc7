import Mathlib.Order.Bounds.Basic
import MeshNumbering.Proofs.Holdings

/-! The index of held nodes. It is made just when all lists are those of own chares and none of
these is idle, and it gives each node the ascending list of the chares that refer to it. -/

namespace MeshNumbering

theorem find?_eq_some_iff_isLeast {α : Type} {l : List α} {key : α → Nat} {p : α → Bool} {k : Nat}
    (h : (l.map key).Pairwise (· < ·)) :
    (l.find? p).map key = some k ↔ IsLeast {j | ∃ a ∈ l, key a = j ∧ p a = true} k := by
  have hfirst : ∀ a, l.find? p = some a →
      IsLeast {j | ∃ a ∈ l, key a = j ∧ p a = true} (key a) := by
    intro a ha
    obtain ⟨hp, before, after, rfl, hbefore⟩ := List.find?_eq_some_iff_append.1 ha
    refine ⟨⟨a, by simp, rfl, hp⟩, ?_⟩
    rintro _ ⟨a', ha', rfl, hp'⟩
    rw [List.map_append, List.map_cons, List.pairwise_append, List.pairwise_cons] at h
    rcases List.mem_append.1 ha' with ha' | ha'
    · have hnot := hbefore a' ha'
      rw [hp'] at hnot
      cases hnot
    · rcases List.mem_cons.1 ha' with rfl | ha'
      · exact Nat.le_refl _
      · exact Nat.le_of_lt (h.2.1.1 _ (List.mem_map_of_mem ha'))
  constructor
  · intro hk
    obtain ⟨a, ha, rfl⟩ := Option.map_eq_some_iff.1 hk
    exact hfirst a ha
  · intro hk
    obtain ⟨a, ha, -, hp⟩ := hk.1
    cases hm : l.find? p with
    | none => exact absurd hp (List.find?_eq_none.1 hm a ha)
    | some a' => exact congrArg some ((hfirst a' hm).unique hk)

namespace Holdings

/-! Chares come in ascending order. -/

theorem pairwise_uses (nodes : NodeLists) : (nodes.uses.map Prod.fst).Pairwise (· ≤ ·) := by
  unfold NodeLists.uses
  rw [List.pairwise_map, List.pairwise_flatMap]
  constructor
  · intro e _
    rw [List.pairwise_map]
    exact List.pairwise_of_forall fun _ _ => Nat.le_refl e.1
  · refine (List.pairwise_map.1 nodes.ascending).imp fun hlt u hu u' hu' => ?_
    obtain ⟨n, -, rfl⟩ := List.mem_map.1 hu
    obtain ⟨n', -, rfl⟩ := List.mem_map.1 hu'
    exact Nat.le_of_lt hlt

theorem pairwise_addChare {chare : Nat} {cs : List Nat} (h : cs.Pairwise (· < ·))
    (hle : ∀ c ∈ cs, c ≤ chare) : (addChare chare cs).Pairwise (· < ·) := by
  unfold addChare
  split
  · exact h
  · next hlast =>
    refine List.pairwise_append.2 ⟨h, List.pairwise_singleton .., fun c hc c' hc' => ?_⟩
    obtain rfl := List.mem_singleton.1 hc'
    refine Nat.lt_of_le_of_ne (hle c hc) ?_
    rintro rfl
    -- A chare that none exceeds stands last.
    rcases List.eq_nil_or_concat cs with rfl | ⟨cs, last, rfl⟩
    · cases hc
    · rw [List.concat_eq_append] at h hc hle hlast
      have hle := hle last (by simp)
      rcases List.mem_append.1 hc with hc | hc
      · exact absurd ((List.pairwise_append.1 h).2.2 c hc last (by simp)) (Nat.not_lt_of_le hle)
      · exact hlast (by simp [List.mem_singleton.1 hc])

def Ascends (m : Mask) (bound : Nat) : Prop :=
  ∀ n cs, m.get? n = some cs → cs.Pairwise (· < ·) ∧ ∀ c ∈ cs, c ≤ bound

theorem Ascends.upsert {m : Mask} {bound chare n : Nat} (h : Ascends m bound)
    (hle : bound ≤ chare) : Ascends (m.upsert n fun old => addChare chare (old.getD [])) chare := by
  intro n' cs hcs
  rw [NatMap.get?_upsert] at hcs
  split at hcs
  · obtain rfl := Option.some.inj hcs
    have hold : ((m.get? n).getD []).Pairwise (· < ·) ∧ ∀ c ∈ (m.get? n).getD [], c ≤ bound := by
      cases hn : m.get? n with
      | none => exact ⟨.nil, fun c hc => absurd hc List.not_mem_nil⟩
      | some cs => exact h n cs hn
    refine ⟨pairwise_addChare hold.1 fun c hc => (hold.2 c hc).trans hle, fun c hc => ?_⟩
    rcases mem_addChare.1 hc with hc | rfl
    · exact (hold.2 c hc).trans hle
    · exact Nat.le_refl c
  · obtain ⟨hasc, hbound⟩ := h n' cs hcs
    exact ⟨hasc, fun c hc => (hbound c hc).trans hle⟩

theorem Ascends.foldl {l : List (Nat × Nat)} {m : Mask} {bound : Nat} (h : Ascends m bound)
    (hl : (bound :: l.map Prod.fst).Pairwise (· ≤ ·)) : ∃ last, Ascends
      (l.foldl (fun m u => m.upsert u.2 fun old => addChare u.1 (old.getD [])) m) last := by
  -- The bound goes along with the chares, which never step back.
  induction l generalizing m bound with
  | nil => exact ⟨bound, h⟩
  | cons u l ih =>
    rw [List.map_cons, List.pairwise_cons] at hl
    exact ih (h.upsert (hl.1 _ (List.mem_cons_self ..))) hl.2

theorem pairwise_index {nodes : NodeLists} {n : Nat} {cs : List Nat}
    (h : (index nodes).get? n = some cs) : cs.Pairwise (· < ·) := by
  have hempty : Ascends ∅ 0 := by
    intro n cs hcs
    cases hcs
  obtain ⟨bound, hall⟩ := hempty.foldl
    (List.pairwise_cons.2 ⟨fun c _ => Nat.zero_le c, pairwise_uses nodes⟩)
  rw [index_eq] at h
  exact (hall n cs h).1

/-! Which lists can be indexed. -/

section
variable {layout : Layout} {pe : Nat} {nodes : NodeLists}

theorem foreign?_eq_some_iff {c : Nat} : Shipment.foreign? layout pe nodes = some c ↔
    IsLeast {c | c ∈ nodes.keys ∧ layout.owns pe c = false} c := by
  have hforeign : {c | c ∈ nodes.keys ∧ layout.owns pe c = false} =
      {c | ∃ e ∈ nodes.entries, e.1 = c ∧ (!layout.owns pe e.1) = true} := by
    ext c
    constructor
    · rintro ⟨hc, hnot⟩
      obtain ⟨e, he, rfl⟩ := List.mem_map.1 hc
      exact ⟨e, he, rfl, by rw [hnot]; rfl⟩
    · rintro ⟨e, he, rfl, hnot⟩
      exact ⟨List.mem_map_of_mem he, by simpa using hnot⟩
  rw [hforeign, ← find?_eq_some_iff_isLeast nodes.ascending]
  unfold Shipment.foreign? NatMap.keys
  rw [List.find?_map]
  rfl

theorem isLeast_firstIdle {next : Nat} (hnext : ∀ c, c ∈ nodes.keys → next ≤ c) :
    IsLeast {c | next ≤ c ∧ nodes.ofChare c = []} (firstIdle next nodes.entries) := by
  refine ⟨⟨le_firstIdle, ?_⟩, fun c hc => ?_⟩
  · by_contra hne
    obtain ⟨l, hl⟩ := NatMap.mem_keys.1 (NodeLists.mem_keys_of_ofChare_ne_nil hne)
    rw [NodeLists.ofChare_eq hl] at hne
    exact hne (eq_nil_of_firstIdle nodes.ascending
      (fun e he => hnext e.1 (List.mem_map_of_mem he)) (NatMap.get?_eq_some_iff.1 hl))
  · by_contra hlt
    obtain ⟨l, hl, hne⟩ := exists_of_lt_firstIdle hc.1 (Nat.lt_of_not_le hlt)
    exact hne ((NodeLists.ofChare_eq (NatMap.get?_eq_some_iff.2 hl)).symm.trans hc.2)

theorem of_eq_of_owned (hkeys : ∀ c, c ∈ nodes.keys → layout.owns pe c = true) :
    of layout pe nodes =
      if firstIdle (layout.owned pe).start nodes.entries < (layout.owned pe).stop then
        .error (.emptyChare pe (firstIdle (layout.owned pe).start nodes.entries))
      else .ok ⟨index nodes⟩ := by
  unfold of
  rw [Shipment.foreign?_eq_none_iff.2 hkeys]

theorem isLeast_idle_iff (hpe : pe < layout.npes)
    (hkeys : ∀ c, c ∈ nodes.keys → layout.owns pe c = true) {c : Nat} :
    IsLeast {c | layout.owns pe c = true ∧ nodes.ofChare c = []} c ↔
      firstIdle (layout.owned pe).start nodes.entries = c ∧ c < (layout.owned pe).stop := by
  -- Among the owned chares the lowest idle one is the first from where they start on.
  have hidle := isLeast_firstIdle fun c hc => ((Layout.mem_owned_iff hpe).2 (hkeys c hc)).1
  constructor
  · intro ⟨⟨hc, hnil⟩, hleast⟩
    obtain ⟨hstart, hstop⟩ := (Layout.mem_owned_iff hpe).2 hc
    have hle := hidle.2 ⟨hstart, hnil⟩
    have howned := (Layout.mem_owned_iff hpe).1 ⟨hidle.1.1, Nat.lt_of_le_of_lt hle hstop⟩
    exact ⟨Nat.le_antisymm hle (hleast ⟨howned, hidle.1.2⟩), hstop⟩
  · rintro ⟨rfl, hstop⟩
    refine ⟨⟨(Layout.mem_owned_iff hpe).1 ⟨hidle.1.1, hstop⟩, hidle.1.2⟩, fun j ⟨hj, hnil⟩ => ?_⟩
    exact hidle.2 ⟨((Layout.mem_owned_iff hpe).2 hj).1, hnil⟩

theorem of_eq_error_iff (hpe : pe < layout.npes) {e : Fault} : of layout pe nodes = .error e ↔
    (∃ c, IsLeast {c | c ∈ nodes.keys ∧ layout.owns pe c = false} c ∧ e = .foreignChare pe c) ∨
      (∀ c, c ∈ nodes.keys → layout.owns pe c = true) ∧
        ∃ c, IsLeast {c | layout.owns pe c = true ∧ nodes.ofChare c = []} c ∧
          e = .emptyChare pe c := by
  simp only [← foreign?_eq_some_iff]
  -- A chare that is not owned is reported whether or not some chare is idle.
  cases hforeign : Shipment.foreign? layout pe nodes with
  | some c =>
    obtain ⟨⟨hc, hnot⟩, -⟩ := foreign?_eq_some_iff.1 hforeign
    have hsome : ¬ ∀ c, c ∈ nodes.keys → layout.owns pe c = true := fun hkeys => by
      rw [hkeys c hc] at hnot
      cases hnot
    have hof : of layout pe nodes = .error (.foreignChare pe c) := by
      unfold of
      rw [hforeign]
    rw [hof]
    constructor
    · exact fun he => .inl ⟨c, rfl, (Except.error.inj he).symm⟩
    · rintro (⟨c', hc', rfl⟩ | ⟨hkeys, -⟩)
      · rw [Option.some.inj hc']
      · exact absurd hkeys hsome
  | none =>
    have hkeys := Shipment.foreign?_eq_none_iff.1 hforeign
    simp only [isLeast_idle_iff hpe hkeys, of_eq_of_owned hkeys]
    split
    · next hlt =>
      constructor
      · exact fun he => .inr ⟨hkeys, _, ⟨rfl, hlt⟩, (Except.error.inj he).symm⟩
      · rintro (⟨_, hnone, -⟩ | ⟨-, _, ⟨rfl, -⟩, rfl⟩)
        · cases hnone
        · rfl
    · next hlt =>
      constructor
      · intro he
        cases he
      · rintro (⟨_, hnone, -⟩ | ⟨-, _, ⟨rfl, hidle⟩, -⟩)
        · cases hnone
        · exact absurd hidle hlt

theorem idle_of_eq_error (hpe : pe < layout.npes) {c : Nat}
    (hof : of layout pe nodes = .error (.emptyChare pe c)) :
    c ∈ layout.owned pe ∧ nodes.ofChare c = [] := by
  rcases (of_eq_error_iff hpe).1 hof with ⟨_, -, he⟩ | ⟨-, c', hc', he⟩
  · cases he
  · obtain ⟨-, rfl⟩ := Fault.emptyChare.inj he
    exact ⟨(Layout.mem_owned_iff hpe).2 hc'.1.1, hc'.1.2⟩

theorem of_eq_ok_iff (hpe : pe < layout.npes) {h : Holdings} : of layout pe nodes = .ok h ↔
    ((∀ c, c ∈ nodes.keys → layout.owns pe c = true) ∧
      ∀ c, layout.owns pe c = true → nodes.ofChare c ≠ []) ∧ h = ⟨index nodes⟩ := by
  constructor
  · intro hof
    have hkeys : ∀ c, c ∈ nodes.keys → layout.owns pe c = true := fun c hc =>
      (Layout.mem_owned_iff hpe).1 (Span.mem_elems.1 (keys_of_eq_ok hof ▸ hc))
    refine ⟨⟨hkeys, fun c hc => ?_⟩, ?_⟩
    · exact ofChare_ne_nil_of_eq_ok hof ((Layout.mem_owned_iff hpe).2 hc)
    · rw [of_eq_of_owned hkeys] at hof
      split at hof
      · cases hof
      · exact (Except.ok.inj hof).symm
  · rintro ⟨⟨hkeys, hfilled⟩, rfl⟩
    rw [of_eq_of_owned hkeys, if_neg]
    intro hlt
    obtain ⟨⟨hc, hnil⟩, -⟩ := (isLeast_idle_iff hpe hkeys).2 ⟨rfl, hlt⟩
    exact hfilled _ hc hnil

end

/-- Each node that some list names is held, with the chares whose lists name it, and a query is
answered with just these chares for the nodes that are held. -/
structure Indexes (h : Holdings) (nodes : NodeLists) : Prop where
  held : ∀ n, n ∈ h.nodes ↔ ∃ c, nodes.Refers c n
  users : ∀ n cs, h.users? n = some cs ↔
    cs ≠ [] ∧ cs.Pairwise (· < ·) ∧ ∀ c, c ∈ cs ↔ nodes.Refers c n
  answered : ∀ queried n cs, (h.maskOf queried).get? n = some cs ↔
    n ∈ queried ∧ h.users? n = some cs

theorem indexes_index (nodes : NodeLists) : Indexes ⟨index nodes⟩ nodes := by
  have husers : ∀ n cs, (⟨index nodes⟩ : Holdings).users? n = some cs →
      ∀ c, c ∈ cs ↔ nodes.Refers c n := by
    intro n cs hcs c
    rw [← names_index, Names, hcs]
    simp
  refine
    { held := fun n => mem_index
      users := fun n cs => ⟨fun hcs => ⟨?_, pairwise_index hcs, husers n cs hcs⟩, ?_⟩
      answered := fun queried n cs => get?_maskOf }
  · obtain ⟨c, hc⟩ := mem_index.1 (NatMap.mem_keys.2 ⟨cs, hcs⟩)
    exact List.ne_nil_of_mem ((husers n cs hcs c).2 hc)
  · rintro ⟨hne, hascending, hmem⟩
    obtain ⟨c, hc⟩ := List.exists_mem_of_ne_nil cs hne
    obtain ⟨cs', hcs', -⟩ := names_index.2 ((hmem c).1 hc)
    rw [hcs', NatSet.eq_of_ascending (pairwise_index hcs') hascending fun c =>
      (husers n cs' hcs' c).trans (hmem c).symm]

/-- Own lists are indexed if no chare goes without nodes, and otherwise the lowest chare that is in
the way is reported: one that is not owned, or else one that is idle. -/
theorem of_indexes (layout : Layout) (pe : Nat) (nodes : NodeLists) (hpe : pe < layout.npes) :
    ((∃ h, of layout pe nodes = .ok h) ↔
      (∀ c, c ∈ nodes.keys → layout.owns pe c = true) ∧
        ∀ c, layout.owns pe c = true → nodes.ofChare c ≠ []) ∧
    (∀ e, of layout pe nodes = .error e ↔
      (∃ c, IsLeast {c | c ∈ nodes.keys ∧ layout.owns pe c = false} c ∧ e = .foreignChare pe c) ∨
        (∀ c, c ∈ nodes.keys → layout.owns pe c = true) ∧
          ∃ c, IsLeast {c | layout.owns pe c = true ∧ nodes.ofChare c = []} c ∧
            e = .emptyChare pe c) ∧
    ∀ h, of layout pe nodes = .ok h → h.Indexes nodes := by
  refine ⟨?_, fun e => of_eq_error_iff hpe, fun h hof => ?_⟩
  · simp only [of_eq_ok_iff hpe, exists_and_left, exists_eq, and_true]
  · obtain ⟨-, rfl⟩ := (of_eq_ok_iff hpe).1 hof
    exact indexes_index nodes

def fourChares : Layout := ⟨4, 2, by decide, by decide⟩

def touchingLists : NodeLists := .ofList [(2, [1, 2, 3, 4, 2, 3, 4, 9]), (3, [4, 5, 6, 7])]

theorem touching_lists_indexed : 1 < fourChares.npes ∧
    (∃ h, of fourChares 1 touchingLists = .ok h ∧ h.users? 4 = some [2, 3] ∧
      (h.maskOf [8, 4, 4]).get? 4 = some [2, 3]) ∧
    of fourChares 1 (.ofList [(2, [1, 2, 3, 4])]) = .error (.emptyChare 1 3) := by
  obtain ⟨hok, -, hresult⟩ := of_indexes fourChares 1 touchingLists (by decide)
  obtain ⟨-, herror, -⟩ := of_indexes fourChares 1 (.ofList [(2, [1, 2, 3, 4])]) (by decide)
  have hown : ∀ c ∈ touchingLists.keys.elems, fourChares.owns 1 c = true := by decide
  have hfilled : ∀ c < 4, fourChares.owns 1 c = true → touchingLists.ofChare c ≠ [] := by decide
  obtain ⟨h, hof⟩ := hok.2 ⟨hown, fun c hc => hfilled c (Layout.owns_iff.1 hc).1 hc⟩
  have hentries : touchingLists.entries =
    [(2, [1, 2, 3, 4, 2, 3, 4, 9]), (3, [4, 5, 6, 7])] := rfl
  have husers : h.users? 4 = some [2, 3] := by
    refine ((hresult h hof).users 4 [2, 3]).2 ⟨by decide, by decide, fun c => ?_⟩
    simp [NodeLists.refers_iff_entries, hentries, eq_comm]
  have hidle : ∀ c < 3, ¬ (fourChares.owns 1 c = true ∧
      NodeLists.ofChare (.ofList [(2, [1, 2, 3, 4])]) c = []) := by decide
  have hleast : IsLeast {c | fourChares.owns 1 c = true ∧
      NodeLists.ofChare (.ofList [(2, [1, 2, 3, 4])]) c = []} 3 :=
    ⟨by decide, fun c hc => Nat.le_of_not_lt fun hlt => hidle c hlt hc⟩
  have howned : ∀ c ∈ (NatMap.ofList [(2, [1, 2, 3, 4])]).keys.elems,
      fourChares.owns 1 c = true := by decide
  exact ⟨by decide, ⟨h, hof, husers, ((hresult h hof).answered _ 4 _).2 ⟨by decide, husers⟩⟩,
    (herror _).2 (.inr ⟨howned, 3, hleast, rfl⟩)⟩

end Holdings
end MeshNumbering
