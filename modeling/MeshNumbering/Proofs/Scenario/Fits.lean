import Mathlib.Algebra.BigOperators.Ring.List
import MeshNumbering.Proofs.Message.Length
import MeshNumbering.Proofs.Numbering
import MeshNumbering.Proofs.Scenario.Plain
import MeshNumbering.Proofs.Scenario.Rows

/-! Messages of small meshes have frames. No message says more of an element than that some chares
and some nodes belong together, so its length is bounded by the number of elements. -/

namespace MeshNumbering

namespace NodeLists
variable {m : NodeLists} {chares connectivity nodes : List Nat}

theorem weight_extend_le (m : NodeLists) (c : Nat) (nodes : List Nat) :
    (m.extend c nodes).weight entryLength ≤ m.weight entryLength + entryLength nodes := by
  apply NatMap.weight_upsert_le
  · exact Nat.le_refl _
  · intro old
    simp only [entryLength, Option.getD_some, List.length_append]
    omega

theorem weight_collect_le (m : NodeLists) (chares connectivity : List Nat) :
    (m.collect chares connectivity).weight entryLength ≤
      m.weight entryLength + 48 * chares.length := by
  fun_induction collect m chares connectivity with
  | case1 m chare chares a b c d connectivity ih =>
    have hone := weight_extend_le m chare [a, b, c, d]
    have hfour : entryLength [a, b, c, d] = 48 := rfl
    rw [List.length_cons]
    omega
  | case2 => exact Nat.le_add_right ..

theorem weight_concat_le (l : List NodeLists) :
    (concat l).weight entryLength ≤ (l.map fun m => m.weight entryLength).sum := by
  have hentries : ((l.flatMap NatMap.entries).map fun e => entryLength e.2).sum =
      (l.map fun m => m.weight entryLength).sum := by
    rw [List.map_flatMap, List.flatMap_def, List.sum_flatten, List.map_map]
    apply congrArg
    apply List.map_congr_left
    intro m _
    show (m.entries.map fun e => entryLength e.2).sum = ((m.entries.map Prod.snd).map _).sum
    rw [List.map_map]
    rfl
  rw [concat_eq, ← hentries]
  have hfold := NatMap.weight_foldl_le (fun m (e : Nat × List Nat) => weight_extend_le m e.1 e.2)
    (l.flatMap NatMap.entries) ∅
  exact hfold.trans (Nat.le_of_eq (Nat.zero_add _))

end NodeLists

theorem Holdings.weight_upsert_le (m : Mask) (u : Nat × Nat) :
    (m.upsert u.2 fun old => addChare u.1 (old.getD [])).weight entryLength ≤
      m.weight entryLength + 24 := by
  apply NatMap.weight_upsert_le
  · exact Nat.le_refl 24
  · intro cs
    unfold entryLength addChare
    rw [Option.getD_some]
    split
    · omega
    · rw [List.length_append, List.length_singleton]
      omega

theorem Holdings.weight_index_le (nodes : NodeLists) :
    (index nodes).weight entryLength ≤ 3 * nodes.weight entryLength := by
  have huses : (nodes.uses.map fun _ => 24).sum ≤ 3 * nodes.weight entryLength := by
    show _ ≤ 3 * ((nodes.entries.map Prod.snd).map entryLength).sum
    unfold NodeLists.uses
    induction nodes.entries with
    | nil => exact Nat.zero_le _
    | cons e l ih =>
      have hlength : entryLength e.2 = 16 + 8 * e.2.length := rfl
      have hone : ((e.2.map fun n => (e.1, n)).map fun _ => 24).sum = e.2.length * 24 := by
        rw [List.map_map, Function.comp_def, List.map_const', List.sum_replicate_nat]
      rw [List.flatMap_cons, List.map_append, List.sum_append, hone]
      simp only [List.map_cons, List.sum_cons]
      omega
  rw [index_eq]
  have hfold := NatMap.weight_foldl_le weight_upsert_le nodes.uses ∅
  exact hfold.trans ((Nat.le_of_eq (Nat.zero_add _)).trans huses)

namespace Scenario
variable {t : Scenario} {p q n : Nat}

theorem load_le_total (hp : p < t.npes) : t.load p ≤ t.total := by
  apply List.single_le_sum
  · intro _ _
    exact Nat.zero_le _
  · exact List.mem_map_of_mem (List.mem_range.2 hp)

theorem weight_part_le (t : Scenario) (p q : Nat) :
    (t.part p q).weight entryLength ≤ 48 * t.load p := by
  have hcollect := NodeLists.weight_collect_le ∅ (t.assignment p) (t.chunk p).connectivity
  have hlength := t.length_assignment_le p
  have hempty : (∅ : NodeLists).weight entryLength = 0 := rfl
  have hpart : (t.part p q).weight entryLength ≤
      (NodeLists.ofAssignment (t.assignment p) (t.chunk p).connectivity).weight entryLength :=
    NatMap.weight_filterKeys_le _
  unfold NodeLists.ofAssignment at hpart
  omega

theorem values_received (t : Scenario) (q : Nat) : (t.received q).values =
    ((List.range t.npes).filter fun p => !(t.part p q).isEmpty).map fun p => t.part p q := by
  show List.map Prod.snd (List.filter _ (List.map (fun p => (p, t.part p q)) _)) = _
  rw [List.filter_map, List.map_map]
  rfl

theorem weight_nodes_le (t : Scenario) (q : Nat) :
    (t.nodes q).weight entryLength ≤ 48 * t.total := by
  have hparts : ((List.range t.npes).map fun p => (t.part p q).weight entryLength).sum ≤
      ((List.range t.npes).map fun p => 48 * t.load p).sum := by
    apply List.sum_le_sum
    intro p _
    exact t.weight_part_le p q
  have hreceived : ((t.received q).values.map fun m => m.weight entryLength).sum ≤
      ((List.range t.npes).map fun p => (t.part p q).weight entryLength).sum := by
    rw [values_received, List.map_map]
    apply List.Sublist.sum_le_sum
    · exact List.filter_sublist.map _
    · intro _ _
      exact Nat.zero_le _
  rw [List.sum_map_mul_left] at hparts
  exact (NodeLists.weight_concat_le _).trans (hreceived.trans hparts)

theorem weight_holdings_le (t : Scenario) (q : Nat) :
    (t.holdings q).chares.weight entryLength ≤ 144 * t.total := by
  have hindex := Holdings.weight_index_le (t.nodes q)
  have hnodes := t.weight_nodes_le q
  show (Holdings.index (t.nodes q)).weight entryLength ≤ _
  omega

theorem size_holdings_le (t : Scenario) (q : Nat) :
    16 * (t.holdings q).nodes.size ≤ 144 * t.total := by
  have hsize : 16 * (t.holdings q).chares.size ≤ (t.holdings q).chares.weight entryLength :=
    NatMap.mul_size_le_weight fun l => Nat.le_add_right ..
  have hkeys : (t.holdings q).nodes.size = (t.holdings q).chares.size := NatMap.size_keys _
  rw [hkeys]
  exact hsize.trans (t.weight_holdings_le q)

theorem weight_mask_le (t : Scenario) (p q : Nat) :
    (t.mask p q).weight entryLength ≤ 144 * t.total := by
  have hmask : t.mask p q = (t.holdings p).chares.filterKeys fun n => n ∈ (t.holdings q).nodes := by
    apply NatMap.ext
    intro n
    apply Option.ext
    intro cs
    unfold mask
    rw [Holdings.get?_maskOf, NatMap.get?_filterKeys, ← NatSet.mem_def]
    by_cases hn : n ∈ (t.holdings q).nodes
    · simp only [hn, true_and, decide_true, if_true]
      rfl
    · simp [hn]
  rw [hmask]
  exact (NatMap.weight_filterKeys_le _).trans (t.weight_holdings_le p)

structure Small (t : Scenario) : Prop where
  npes_le : t.npes ≤ wordSize
  nchare_le : t.layout.nchare ≤ wordSize
  nodes_lt : ∀ n ∈ t.connectivity, n < wordSize
  short : 20 + 144 * t.total < halfWordSize

namespace Small
variable (h : t.Small) (hall : ∀ p < t.npes, t.Assigns p)
include h

theorem lt_of_le (hn : n ≤ 144 * t.total) : n < wordSize := by
  have hshort := h.short
  unfold halfWordSize at hshort
  unfold wordSize
  omega

theorem chare_lt {c : Nat} (hc : t.layout.owns q c = true) : c < wordSize :=
  Nat.lt_of_lt_of_le (Layout.owns_iff.1 hc).1 h.nchare_le

include hall

theorem node_lt (hq : q < t.npes) (hn : n ∈ (t.holdings q).nodes) : n < wordSize := by
  have hin : n ∈ t.referenced := (exists_uses_iff hall).1 ⟨q, hq, mem_holdings.1 hn⟩
  exact h.nodes_lt n (NatSet.mem_ofList.1 hin)

omit h in
theorem nodeTotal_le : t.nodeTotal ≤ 144 * t.total := by
  have hsize : t.referenced.size ≤ t.connectivity.length := NatSet.size_ofList_le _
  rw [length_chares_connectivity hall, ← length_elements hall, ← total_eq_length] at hsize
  rw [nodeTotal_eq_size hall]
  omega

theorem part_lt (hp : p < t.npes) (hq : q < t.npes) :
    ∀ e ∈ (t.part p q).entries, e.1 < wordSize ∧ ∀ n ∈ e.2, n < wordSize := by
  intro e he
  constructor
  · exact h.chare_lt (owns_of_mem_part (List.mem_map_of_mem he))
  · intro n hn
    have hrefers : (t.part p q).Refers e.1 n := NodeLists.refers_iff_entries.2 ⟨e, he, rfl, hn⟩
    exact h.node_lt hall hq (mem_holdings.2 ⟨p, hp, refers_part.1 ⟨e.1, hrefers⟩⟩)

theorem mask_lt (hq : q < t.npes) :
    ∀ e ∈ (t.mask p q).entries, e.1 < wordSize ∧ ∀ c ∈ e.2, c < wordSize := by
  intro e he
  obtain ⟨hn, hcs⟩ := Holdings.get?_maskOf.1 (NatMap.get?_eq_some_iff.2 he)
  constructor
  · exact h.node_lt hall hq hn
  · intro c hc
    obtain ⟨l, hl, -⟩ := Holdings.names_index.1 (show (t.holdings p).Names e.1 c from ⟨_, hcs, hc⟩)
    exact h.chare_lt (owns_of_mem_nodes (NatMap.mem_keys.2 ⟨l, hl⟩))

theorem idsFor_lt (hq : q < t.npes) :
    ∀ e ∈ (t.idsFor p q).entries, e.1 < wordSize ∧ e.2 < wordSize := by
  intro e he
  obtain ⟨hwants, hid⟩ := get?_idsFor.1 (NatMap.get?_eq_some_iff.2 he)
  have hheld := ((mem_wants hq).1 hwants).2.1
  constructor
  · exact h.node_lt hall hq hheld
  · have hlt := newId_lt_nodeTotal hq (mem_holdings.1 hheld)
    rw [hid]
    exact h.lt_of_le ((Nat.le_of_lt hlt).trans (nodeTotal_le hall))

theorem numbers_lt {k : MessageKind} (hp : p < t.npes) (hq : q < t.npes) :
    ∀ n ∈ (t.message k p q).numbers, n < wordSize := by
  have hlists : ∀ m : NodeLists, (∀ e ∈ m.entries, e.1 < wordSize ∧ ∀ n ∈ e.2, n < wordSize) →
      ∀ n ∈ m.entries.flatMap fun e => e.1 :: e.2, n < wordSize := by
    intro m hm n hn
    obtain ⟨e, he, hn⟩ := List.mem_flatMap.1 hn
    rcases List.mem_cons.1 hn with rfl | hn
    · exact (hm e he).1
    · exact (hm e he).2 n hn
  have hcount : ∀ i, i ≤ 144 * t.total → ∀ n ∈ [i], n < wordSize := by
    intro i hi
    exact List.forall_mem_singleton.2 (h.lt_of_le hi)
  have hsender : p < wordSize := Nat.lt_of_lt_of_le hp h.npes_le
  have hcons : (t.message k p q).numbers = p :: (t.message k p q).numbers.tail := by
    cases k <;> rfl
  rw [hcons, List.forall_mem_cons]
  refine ⟨hsender, ?_⟩
  cases k with
  | load =>
    have hload := load_le_total hp
    exact hcount (t.load p) (by omega)
  | batch => exact hlists _ (h.part_lt hall hp hq)
  | query => exact fun n hn => h.node_lt hall hp hn
  | mask => exact hlists _ (h.mask_lt hall hq)
  | offset =>
    have hown : t.own p ≤ (t.holdings p).nodes.size := Nat.sub_le ..
    have hheld := t.size_holdings_le p
    exact hcount (t.own p) (by omega)
  | request => exact fun n hn => h.node_lt hall hp ((mem_wants hp).1 hn).2.1
  | assigned =>
    intro n hn
    obtain ⟨e, he, hn⟩ := List.mem_flatMap.1 hn
    obtain ⟨hkey, hid⟩ := h.idsFor_lt hall hq e he
    rcases List.mem_pair.1 hn with rfl | rfl
    · exact hkey
    · exact hid
  | lower => exact hcount (t.upper p) ((upper_le_nodeTotal hall hp).trans (nodeTotal_le hall))
  | receipt | delivered | cost | deviation | abort => exact List.forall_mem_nil _

omit h hall in
theorem size_wants_le (hq : q < t.npes) : 16 * (t.wants q p).size ≤ 144 * t.total := by
  have hle : (t.wants q p).size ≤ (t.holdings q).nodes.size :=
    NatSet.size_le_of_subset fun n hn => ((mem_wants hq).1 hn).2.1
  have hheld := t.size_holdings_le q
  omega

omit h hall in
theorem size_idsFor_le (hq : q < t.npes) : 16 * (t.idsFor p q).size ≤ 144 * t.total := by
  have hle : (t.idsFor p q).keys.size ≤ (t.wants q p).size := by
    apply NatSet.size_le_of_subset
    intro n hn
    obtain ⟨i, hi⟩ := NatMap.mem_keys.1 hn
    exact (get?_idsFor.1 hi).1
  have hwants := size_wants_le (p := p) hq
  rw [NatMap.size_keys] at hle
  omega

theorem fits : t.Fits := by
  intro k p q hpass
  obtain ⟨hp, hq, hkind⟩ := hpass
  have hlength : (t.message k p q).body.length ≤ 20 + 144 * t.total := by
    apply Message.length_body_le
    cases k with
    | batch =>
      have hpart := t.weight_part_le p q
      have hload := load_le_total hp
      show (t.part p q).weight entryLength ≤ 144 * t.total
      omega
    | query =>
      have hheld := t.size_holdings_le p
      show 8 * (t.holdings p).nodes.size ≤ _
      omega
    | mask => exact t.weight_mask_le p q
    | request =>
      have hwants := size_wants_le (p := q) hp
      show 8 * (t.wants p q).size ≤ _
      omega
    | assigned => exact size_idsFor_le hq
    | abort => exact hkind
    | load | receipt | delivered | offset | lower | cost | deviation => exact trivial
  apply Message.unfit?_eq_none_iff.2
  exact ⟨h.numbers_lt hall hp hq, Nat.lt_of_le_of_lt hlength h.short⟩

end Small

theorem not_fits_of_holdings (hp : p < t.npes) (h : 2 ^ 29 ≤ (t.holdings p).nodes.size) :
    ¬ t.Fits := by
  intro hfits
  have hquery := hfits .query p p ⟨hp, hp, trivial⟩
  obtain ⟨-, hshort⟩ := Message.unfit?_eq_none_iff.1 hquery
  have hlength : (t.message .query p p).body.length = 20 + 8 * (t.holdings p).nodes.size := by
    show (Message.query p (t.holdings p).nodes.elems).body.length = _
    rw [Message.length_body, Message.fields, List.length_append, Bytes.length_word,
      Bytes.length_words, NatSet.size]
    omega
  omega

theorem Plain.fits {m : Mesh} {nchare : Nat} (h : t.Plain m nchare) (hle : t.npes ≤ nchare)
    (hshort : 20 + 144 * m.elementCount < halfWordSize) : t.Fits := by
  have hsmall : t.Small := by
    have hnchare : nchare ≤ wordSize := Nat.le_of_lt h.nchare_lt
    have hconnectivity : t.connectivity = m.connectivity :=
      connectivity_eq h.valid h.reader_eq h.npes_pos
    constructor
    · exact hle.trans hnchare
    · rw [h.layout_eq hle]
      exact hnchare
    · rw [hconnectivity]
      exact h.nodes_lt
    · rw [h.inMemory.total_eq]
      exact hshort
  exact hsmall.fits (h.assigns hle)

end Scenario
end MeshNumbering
