import MeshNumbering.Proofs.Ordered.Mapping
import MeshNumbering.Proofs.Sharing
import MeshNumbering.Relabelling

/-! Relabelling. It works just when all nodes have new ids, and then it changes every node into its
new id and nothing else. With new ids that are all different it can be undone. -/

namespace MeshNumbering

namespace Relabelling

def occurrences (nodes : NodeLists) (adjacency : Adjacency) : List Nat :=
  nodes.values.flatten ++
    adjacency.values.flatMap fun around => around.values.flatMap NatSet.elems

def renamed (f : Nat → Nat) (nodes : NodeLists) (adjacency : Adjacency) : Relabelling where
  nodes := nodes.map fun l => l.map f
  newIds := nodes.map fun l => .ofList (l.map fun n => (n, f n))
  adjacency := adjacency.map fun around => around.map fun s => s.image f
  touched := .ofList (nodes.values.flatMap fun l => l.map f)

section
variable {f : Nat → Nat} {nodes : NodeLists} {adjacency : Adjacency}

@[simp] theorem nodes_renamed :
    (renamed f nodes adjacency).nodes = nodes.map fun l => l.map f := rfl

@[simp] theorem newIds_renamed : (renamed f nodes adjacency).newIds =
    nodes.map fun l => .ofList (l.map fun n => (n, f n)) := rfl

@[simp] theorem adjacency_renamed : (renamed f nodes adjacency).adjacency =
    adjacency.map fun around => around.map fun s => s.image f := rfl

theorem touched_renamed : (renamed f nodes adjacency).touched =
    .ofList (renamed f nodes adjacency).nodes.values.flatten := by
  rw [nodes_renamed, NatMap.values_map]
  rfl

end

section
variable {α β : Type} {pe : Nat} {ids : NatMap Nat} {l l' : List Nat}

def provided (pe : Nat) (ids : NatMap Nat) (l : List Nat) (b : β) : Except Fault β :=
  match l.find? fun n => !ids.contains n with
  | some n => .error (.nodeUnnumbered pe n)
  | none => .ok b

theorem provided_eq_ok_iff {b c : β} :
    provided pe ids l b = .ok c ↔ (∀ n ∈ l, ids.contains n = true) ∧ b = c := by
  unfold provided
  cases h : l.find? fun n => !ids.contains n with
  | some n =>
    have hn : ids.contains n = false := by simpa using List.find?_some h
    constructor
    · intro he
      cases he
    · intro ⟨hall, _⟩
      rw [hall n (List.mem_of_find?_eq_some h)] at hn
      cases hn
  | none =>
    have hall : ∀ n ∈ l, ids.contains n = true := by simpa using h
    rw [Except.ok.injEq]
    exact (and_iff_right hall).symm

theorem provided_eq_error_iff {b : β} {e : Fault} : provided pe ids l b = .error e ↔
    ∃ n, l.find? (fun n => !ids.contains n) = some n ∧ e = .nodeUnnumbered pe n := by
  unfold provided
  cases l.find? fun n => !ids.contains n with
  | some n => simp [eq_comm]
  | none => simp

theorem provided_bind {a : α} {b : β} {g : α → Except Fault β}
    (h : g a = provided pe ids l' b) :
    provided pe ids l a >>= g = provided pe ids (l ++ l') b := by
  unfold provided at h ⊢
  rw [List.find?_append]
  cases l.find? fun n => !ids.contains n with
  | some n => rfl
  | none => exact h

theorem provided_bind_ok {a : α} {b : β} {g : α → Except Fault β} (h : g a = .ok b) :
    provided pe ids l a >>= g = provided pe ids l b := by
  unfold provided
  cases l.find? fun n => !ids.contains n with
  | some n => rfl
  | none => exact h

theorem map_provided {a : α} {g : α → β} :
    (provided pe ids l a).map g = provided pe ids l (g a) := by
  unfold provided
  cases l.find? fun n => !ids.contains n <;> rfl

theorem mapM_provided {f : α → Except Fault β} {met : α → List Nat} {g : α → β} {as : List α}
    (h : ∀ a ∈ as, f a = provided pe ids (met a) (g a)) :
    as.mapM f = provided pe ids (as.flatMap met) (as.map g) := by
  induction as with
  | nil => rfl
  | cons a as ih =>
    -- A node that is missing in the first step is met before all others.
    have hrest := ih fun a ha => h a (List.mem_cons_of_mem _ ha)
    rw [List.mapM_cons, h a (List.mem_cons_self ..), List.flatMap_cons, List.map_cons]
    refine provided_bind ?_
    rw [hrest]
    exact provided_bind_ok rfl

theorem mapM_provided_values {f : Nat → α → Except Fault β} {met : α → List Nat} {g : α → β}
    {m : NatMap α} (h : ∀ e ∈ m.entries, f e.1 e.2 = provided pe ids (met e.2) (g e.2)) :
    m.mapM f = provided pe ids (m.values.flatMap met) (m.map g) := by
  apply NatMap.mapM_eq
  rw [map_provided, NatMap.entries_map, NatMap.values, List.flatMap_map]
  apply mapM_provided
  intro e he
  rw [h e he, map_provided]

theorem newId_eq {f : Nat → Nat} {n : Nat} (h : ∀ i, ids.get? n = some i → f n = i) :
    newId pe ids n = provided pe ids [n] (f n) := by
  unfold newId provided
  cases hn : ids.get? n with
  | none => simp [NatMap.contains, hn]
  | some i => simp [NatMap.contains, hn, h i hn]

theorem of_eq_provided {f : Nat → Nat} {nodes : NodeLists} {adjacency : Adjacency}
    (h : ∀ n ∈ occurrences nodes adjacency, ∀ i, ids.get? n = some i → f n = i) :
    of pe nodes adjacency ids =
      provided pe ids (occurrences nodes adjacency) (renamed f nodes adjacency) := by
  -- All lists come first, so what is missing in a shared set shows only where no list lacks an id.
  have hlists : (nodes.mapM fun _ l => l.mapM fun n => do return (n, ← newId pe ids n)) =
      provided pe ids (nodes.values.flatMap fun l => l)
        (nodes.map fun l => l.map fun n => (n, f n)) := by
    apply mapM_provided_values
    intro e he
    have hone : ∀ n ∈ e.2, (do return (n, ← newId pe ids n)) = provided pe ids [n] (n, f n) := by
      intro n hn
      have hmem : n ∈ occurrences nodes adjacency :=
        List.mem_append_left _ (List.mem_flatten.2 ⟨e.2, List.mem_map_of_mem he, hn⟩)
      rw [newId_eq (h n hmem)]
      exact provided_bind_ok rfl
    rw [mapM_provided hone, List.flatMap_singleton']
  have hshared : (adjacency.mapM fun _ around => around.mapM fun _ s => renameSet pe ids s) =
      provided pe ids (adjacency.values.flatMap fun around => around.values.flatMap NatSet.elems)
        (adjacency.map fun around => around.map fun s => s.image f) := by
    apply mapM_provided_values
    intro e he
    apply mapM_provided_values
    intro e' he'
    have hone : ∀ n ∈ e'.2.elems, newId pe ids n = provided pe ids [n] (f n) := by
      intro n hn
      refine newId_eq (h n (List.mem_append_right _ ?_))
      exact List.mem_flatMap.2 ⟨e.2, List.mem_map_of_mem he,
        List.mem_flatMap.2 ⟨e'.2, List.mem_map_of_mem he', hn⟩⟩
    rw [renameSet, mapM_provided hone, List.flatMap_singleton', map_provided]
    rfl
  unfold of
  rw [hlists, List.flatMap_id']
  refine provided_bind ?_
  rw [hshared]
  refine provided_bind_ok (congrArg Except.ok ?_)
  unfold renamed
  rw [NatMap.map_map, NatMap.map_map, NatMap.values_map, List.flatMap_map]
  simp only [List.map_map, Function.comp_def]

theorem of_eq_renamed {nodes : NodeLists} {adjacency : Adjacency} : of pe nodes adjacency ids =
    provided pe ids (occurrences nodes adjacency)
      (renamed (fun n => (ids.get? n).getD 0) nodes adjacency) :=
  of_eq_provided fun n _ i hi => by rw [hi, Option.getD_some]

end

theorem keys_of {pe : Nat} {nodes : NodeLists} {adjacency : Adjacency}
    {ids : NatMap Nat} {r : Relabelling} (h : of pe nodes adjacency ids = .ok r) :
    r.nodes.keys = nodes.keys := by
  rw [of_eq_renamed] at h
  obtain ⟨-, rfl⟩ := provided_eq_ok_iff.1 h
  exact NatMap.keys_map nodes

/-- What becomes of lists and shared sets: every node is replaced by its new id, and nothing else
changes. -/
structure Renames (r : Relabelling) (nodes : NodeLists) (adjacency : Adjacency) (ids : NatMap Nat) :
    Prop where
  lists : ∀ c l', r.nodes.get? c = some l' ↔
    ∃ l, nodes.get? c = some l ∧ List.Forall₂ (fun n i => ids.get? n = some i) l l'
  newIds : ∀ c m, r.newIds.get? c = some m ↔
    ∃ l, nodes.get? c = some l ∧ ∀ n, m.get? n = if n ∈ l then ids.get? n else none
  sharing : ∀ c around', r.adjacency.get? c = some around' ↔
    ∃ around, adjacency.get? c = some around ∧ ∀ s shared', around'.get? s = some shared' ↔
      ∃ shared, around.get? s = some shared ∧
        ∀ i, i ∈ shared' ↔ ∃ n, n ∈ shared ∧ ids.get? n = some i
  touches : ∀ i, i ∈ r.touched ↔ ∃ c l n, nodes.get? c = some l ∧ n ∈ l ∧ ids.get? n = some i

/-- No two nodes fall together, and going back from the new ids leads to where one came from. -/
structure Reverses (r : Relabelling) (pe : Nat) (nodes : NodeLists) (adjacency : Adjacency)
    (ids : NatMap Nat) : Prop where
  size_shared : ∀ c s, (r.adjacency.shared c s).size = (adjacency.shared c s).size
  size_touched : r.touched.size = (NatSet.ofList nodes.values.flatten).size
  get?_back : ∀ i n, ids.invert.get? i = some n ↔ ids.get? n = some i
  undone : ∃ r', of pe r.nodes r.adjacency ids.invert = .ok r' ∧ r'.nodes = nodes ∧
    r'.adjacency = adjacency ∧ r'.touched = .ofList nodes.values.flatten

section
variable {pe n c s : Nat} {nodes : NodeLists} {adjacency : Adjacency} {ids : NatMap Nat}
  {f g : Nat → Nat}

theorem mem_occurrences : n ∈ occurrences nodes adjacency ↔
    (∃ c l, nodes.get? c = some l ∧ n ∈ l) ∨ ∃ c s, n ∈ adjacency.shared c s := by
  simp only [occurrences, List.mem_append, List.mem_flatten, List.mem_flatMap, NatMap.mem_values,
    Adjacency.mem_shared, ← NatSet.mem_def]
  constructor
  · rintro (⟨l, ⟨c, hl⟩, hn⟩ | ⟨around, ⟨c, hc⟩, nodes, ⟨s, hs⟩, hn⟩)
    · exact .inl ⟨c, l, hl, hn⟩
    · exact .inr ⟨c, s, around, nodes, hc, hs, hn⟩
  · rintro (⟨c, l, hl, hn⟩ | ⟨c, s, around, nodes, hc, hs, hn⟩)
    · exact .inl ⟨l, ⟨c, hl⟩, hn⟩
    · exact .inr ⟨around, ⟨c, hc⟩, nodes, ⟨s, hs⟩, hn⟩

theorem shared_renamed :
    (renamed f nodes adjacency).adjacency.shared c s = (adjacency.shared c s).image f := by
  rw [adjacency_renamed]
  unfold Adjacency.shared
  rw [NatMap.get?_map]
  cases adjacency.get? c with
  | none => rfl
  | some around =>
    rw [Option.map_some, Option.getD_some, Option.getD_some, NatMap.get?_map]
    cases around.get? s <;> rfl

theorem touched_renamed_eq_image :
    (renamed f nodes adjacency).touched = (NatSet.ofList nodes.values.flatten).image f := by
  rw [touched_renamed, nodes_renamed, NatMap.values_map]
  ext i
  simp only [NatSet.mem_ofList, NatSet.mem_image, List.mem_flatten, List.mem_map]
  constructor
  · rintro ⟨_, ⟨l, hl, rfl⟩, hi⟩
    obtain ⟨n, hn, rfl⟩ := List.mem_map.1 hi
    exact ⟨n, ⟨l, hl, hn⟩, rfl⟩
  · rintro ⟨n, ⟨l, hl, hn⟩, rfl⟩
    exact ⟨_, ⟨l, hl, rfl⟩, List.mem_map_of_mem hn⟩

theorem exists_of_mem_occurrences_renamed {i : Nat}
    (hi : i ∈ occurrences (renamed f nodes adjacency).nodes (renamed f nodes adjacency).adjacency) :
    ∃ n ∈ occurrences nodes adjacency, f n = i := by
  rcases mem_occurrences.1 hi with ⟨c, l', hl', hi⟩ | ⟨c, s, hi⟩
  · obtain ⟨l, hl, rfl⟩ := Option.map_eq_some_iff.1 (NatMap.get?_map.symm.trans hl')
    obtain ⟨n, hn, rfl⟩ := List.mem_map.1 hi
    exact ⟨n, mem_occurrences.2 (.inl ⟨c, l, hl, hn⟩), rfl⟩
  · rw [shared_renamed] at hi
    obtain ⟨n, hn, rfl⟩ := NatSet.mem_image.1 hi
    exact ⟨n, mem_occurrences.2 (.inr ⟨c, s, hn⟩), rfl⟩

theorem renamed_renamed (h : ∀ n ∈ occurrences nodes adjacency, g (f n) = n) {r : Relabelling}
    (hr : r = renamed g (renamed f nodes adjacency).nodes (renamed f nodes adjacency).adjacency) :
    r.nodes = nodes ∧ r.adjacency = adjacency ∧ r.touched = .ofList nodes.values.flatten := by
  have hnodes : r.nodes = nodes := by
    rw [hr, nodes_renamed, nodes_renamed, NatMap.map_map]
    refine NatMap.map_eq_self fun c l hl => ?_
    rw [List.map_map]
    refine (List.map_congr_left fun n hn => ?_).trans (List.map_id l)
    exact h n (mem_occurrences.2 (.inl ⟨c, l, hl, hn⟩))
  have hadjacency : r.adjacency = adjacency := by
    rw [hr, adjacency_renamed, adjacency_renamed, NatMap.map_map]
    refine NatMap.map_eq_self fun c around hc => ?_
    rw [NatMap.map_map]
    refine NatMap.map_eq_self fun s nodes hs => NatSet.image_image_eq_self fun n hn => ?_
    exact h n (mem_occurrences.2 (.inr ⟨c, s, Adjacency.mem_shared.2 ⟨around, nodes, hc, hs, hn⟩⟩))
  refine ⟨hnodes, hadjacency, ?_⟩
  rw [← hnodes, hr]
  exact touched_renamed

theorem map_eq_iff_forall₂ {l l' : List Nat} (h : ∀ n ∈ l, ids.get? n = some (f n)) :
    l.map f = l' ↔ List.Forall₂ (fun n i => ids.get? n = some i) l l' := by
  constructor
  · rintro rfl
    exact List.forall₂_map_right_iff.2 (List.forall₂_same.2 h)
  · intro hl
    induction hl with
    | nil => rfl
    | cons hn _ ih =>
      rw [List.map_cons, ih fun n hn => h n (List.mem_cons_of_mem _ hn),
        Option.some.inj ((h _ (List.mem_cons_self ..)).symm.trans hn)]

theorem ofList_eq_iff {l : List Nat} {m : NatMap Nat} (h : ∀ n ∈ l, ids.get? n = some (f n)) :
    NatMap.ofList (l.map fun n => (n, f n)) = m ↔
      ∀ n, m.get? n = if n ∈ l then ids.get? n else none := by
  have hget : ∀ n, (NatMap.ofList (l.map fun n => (n, f n))).get? n =
      if n ∈ l then ids.get? n else none := by
    intro n
    apply Option.ext
    intro i
    rw [NatMap.get?_ofList_of_fn (f := f) (by simp), List.map_map]
    split
    · next hn => simp [hn, h n hn, eq_comm]
    · next hn => simp [hn]
  constructor
  · rintro rfl
    exact hget
  · exact fun hm => NatMap.ext fun n => (hget n).trans (hm n).symm

theorem image_eq_iff {s t : NatSet} (h : ∀ n, n ∈ s → ids.get? n = some (f n)) :
    s.image f = t ↔ ∀ i, i ∈ t ↔ ∃ n, n ∈ s ∧ ids.get? n = some i := by
  have hmem : ∀ i, i ∈ s.image f ↔ ∃ n, n ∈ s ∧ ids.get? n = some i := fun i => by
    rw [NatSet.mem_image]
    refine exists_congr fun n => and_congr_right fun hn => ?_
    rw [h n hn, Option.some.injEq]
  constructor
  · rintro rfl
    exact hmem
  · exact fun ht => NatSet.ext fun i => (hmem i).trans (ht i).symm

theorem renames_renamed (h : ∀ n ∈ occurrences nodes adjacency, ids.get? n = some (f n)) :
    (renamed f nodes adjacency).Renames nodes adjacency ids := by
  have hlist : ∀ c l, nodes.get? c = some l → ∀ n ∈ l, ids.get? n = some (f n) :=
    fun c l hl n hn => h n (mem_occurrences.2 (.inl ⟨c, l, hl, hn⟩))
  have hshared : ∀ c around s shared, adjacency.get? c = some around →
      around.get? s = some shared → ∀ n, n ∈ shared → ids.get? n = some (f n) :=
    fun c around s shared hc hs n hn => h n (mem_occurrences.2
      (.inr ⟨c, s, Adjacency.mem_shared.2 ⟨around, shared, hc, hs, hn⟩⟩))
  refine
    { lists := fun c l' => NatMap.get?_map_iff fun l hl => map_eq_iff_forall₂ (hlist c l hl)
      newIds := fun c m => ?_
      sharing := fun c around' => ?_
      touches := fun i => ?_ }
  · rw [newIds_renamed, NatMap.get?_map, Option.map_eq_some_iff]
    exact exists_congr fun l => and_congr_right fun hl => ofList_eq_iff (hlist c l hl)
  · rw [adjacency_renamed, NatMap.get?_map, Option.map_eq_some_iff]
    refine exists_congr fun around => and_congr_right fun hc => ?_
    exact NatMap.map_eq_iff (P := fun s t => ∀ i, i ∈ t ↔ ∃ n, n ∈ s ∧ ids.get? n = some i)
      fun s shared shared' hs => image_eq_iff (hshared c around s shared hc hs)
  · rw [touched_renamed_eq_image, (image_eq_iff fun n hn => h n (List.mem_append_left _
      (NatSet.mem_ofList.1 hn))).1 rfl]
    simp only [NatSet.mem_ofList, List.mem_flatten, NatMap.mem_values]
    constructor
    · rintro ⟨n, ⟨l, ⟨c, hl⟩, hn⟩, hi⟩
      exact ⟨c, l, n, hl, hn, hi⟩
    · rintro ⟨c, l, n, hl, hn, hi⟩
      exact ⟨n, ⟨l, ⟨c, hl⟩, hn⟩, hi⟩

theorem reverses_renamed (hinj : ids.Injective)
    (h : ∀ n ∈ occurrences nodes adjacency, ids.get? n = some (f n)) :
    (renamed f nodes adjacency).Reverses pe nodes adjacency ids := by
  -- Only of nodes that are met is it known that they have ids, so `f` is injective on these alone.
  have hsame : ∀ a b, a ∈ occurrences nodes adjacency → b ∈ occurrences nodes adjacency →
      f a = f b → a = b := fun a b ha hb heq => hinj a b (f a) (h a ha) (heq ▸ h b hb)
  have hback : ∀ n ∈ occurrences nodes adjacency, ids.invert.get? (f n) = some n := fun n hn =>
    hinj.get?_invert.2 (h n hn)
  have hrenamed := renamed_renamed (f := f) (g := fun i => (ids.invert.get? i).getD 0)
    (fun n hn => by rw [hback n hn, Option.getD_some]) rfl
  refine
    { size_shared := fun c s => ?_
      size_touched := ?_
      get?_back := fun i n => hinj.get?_invert
      undone := ⟨_, ?_, hrenamed⟩ }
  · rw [shared_renamed]
    exact NatSet.size_image fun a b ha hb => hsame a b (mem_occurrences.2 (.inr ⟨c, s, ha⟩))
      (mem_occurrences.2 (.inr ⟨c, s, hb⟩))
  · rw [touched_renamed_eq_image]
    exact NatSet.size_image fun a b ha hb => hsame a b
      (List.mem_append_left _ (NatSet.mem_ofList.1 ha))
      (List.mem_append_left _ (NatSet.mem_ofList.1 hb))
  · rw [of_eq_renamed]
    refine provided_eq_ok_iff.2 ⟨fun i hi => ?_, rfl⟩
    obtain ⟨n, hn, rfl⟩ := exists_of_mem_occurrences_renamed hi
    rw [NatMap.contains, hback n hn]
    rfl

/-- All nodes need new ids, and the first that is met without one is reported. With ids for all, it
is each node that changes, and nothing else; and if the ids differ it can be undone. -/
theorem of_renames (pe : Nat) (nodes : NodeLists) (adjacency : Adjacency) (ids : NatMap Nat) :
    ((∃ r, of pe nodes adjacency ids = .ok r) ↔
      (∀ c l, nodes.get? c = some l → ∀ n ∈ l, ids.contains n = true) ∧
        ∀ c s n, n ∈ adjacency.shared c s → ids.contains n = true) ∧
    (∀ e, of pe nodes adjacency ids = .error e ↔
      ∃ n, (occurrences nodes adjacency).find? (fun n => !ids.contains n) = some n ∧
        e = .nodeUnnumbered pe n) ∧
    ∀ r, of pe nodes adjacency ids = .ok r →
      r.Renames nodes adjacency ids ∧ (ids.Injective → r.Reverses pe nodes adjacency ids) := by
  rw [of_eq_renamed]
  refine ⟨?_, fun e => provided_eq_error_iff, fun r hr => ?_⟩
  · simp only [provided_eq_ok_iff, exists_and_left, exists_eq', and_true, mem_occurrences]
    constructor
    · exact fun h => ⟨fun c l hl n hn => h n (.inl ⟨c, l, hl, hn⟩),
        fun c s n hn => h n (.inr ⟨c, s, hn⟩)⟩
    · rintro ⟨hlists, hshared⟩ n (⟨c, l, hl, hn⟩ | ⟨c, s, hn⟩)
      · exact hlists c l hl n hn
      · exact hshared c s n hn
  · obtain ⟨hall, rfl⟩ := provided_eq_ok_iff.1 hr
    have hids : ∀ n ∈ occurrences nodes adjacency, ids.get? n = some ((ids.get? n).getD 0) := by
      intro n hn
      obtain ⟨i, hi⟩ := Option.isSome_iff_exists.1 (hall n hn)
      rw [hi, Option.getD_some]
    exact ⟨renames_renamed hids, fun hinj => reverses_renamed hinj hids⟩

def twoLists : NodeLists := .ofList [(1, [7, 5, 7]), (2, [7])]

def sharedNode : Adjacency :=
  .ofList [(1, .ofList [(2, .ofList [7])]), (2, .ofList [(1, .ofList [7])])]

theorem two_lists_relabelled :
    of 3 twoLists sharedNode (.ofList [(5, 1)]) = .error (.nodeUnnumbered 3 7) ∧
    ∃ r, of 3 twoLists sharedNode (.ofList [(5, 1), (7, 0)]) = .ok r ∧
      r.nodes.get? 1 = some [0, 1, 0] ∧ r.touched.size = 2 ∧
      ∃ r', of 3 r.nodes r.adjacency (NatMap.ofList [(5, 1), (7, 0)]).invert = .ok r' ∧
        r'.nodes = twoLists := by
  have hinj : (NatMap.ofList [(5, 1), (7, 0)]).Injective := by
    intro j k i hj hk
    have hentries : (NatMap.ofList [(5, 1), (7, 0)]).entries = [(5, 1), (7, 0)] := rfl
    rw [NatMap.get?_eq_some_iff, hentries] at hj hk
    simp only [List.mem_cons, Prod.mk.injEq, List.not_mem_nil, or_false] at hj hk
    omega
  have hall : ∀ n ∈ occurrences twoLists sharedNode,
      (NatMap.ofList [(5, 1), (7, 0)]).contains n = true := by decide
  obtain ⟨-, herror, -⟩ := of_renames 3 twoLists sharedNode (.ofList [(5, 1)])
  obtain ⟨hok, -, hresult⟩ := of_renames 3 twoLists sharedNode (.ofList [(5, 1), (7, 0)])
  obtain ⟨r, hr⟩ := hok.2 ⟨fun c l hl n hn => hall n (mem_occurrences.2 (.inl ⟨c, l, hl, hn⟩)),
    fun c s n hn => hall n (mem_occurrences.2 (.inr ⟨c, s, hn⟩))⟩
  obtain ⟨hrenames, hreverses⟩ := hresult r hr
  obtain ⟨r', hr', hnodes, -⟩ := (hreverses hinj).undone
  refine ⟨(herror _).2 ⟨7, by decide, rfl⟩, r, hr, ?_, ?_, r', hr', hnodes⟩
  · exact (hrenames.lists 1 _).2 ⟨[7, 5, 7], by decide, by decide⟩
  · exact (hreverses hinj).size_touched.trans (by decide)

end

end Relabelling
end MeshNumbering
