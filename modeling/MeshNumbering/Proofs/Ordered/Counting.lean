import Mathlib.Algebra.BigOperators.Group.Finset.Basic
import Mathlib.Algebra.GroupWithZero.Nat
import MeshNumbering.Ordered.NatMap
import MeshNumbering.Word

/-! Sizes of sets and maps, counted as finite sets of keys. A map whose keys lie below a bound is
full when it has as many entries, and then it is the table of its values. -/

namespace MeshNumbering

theorem sum_eq (l : List Nat) : sum l = l.sum := rfl

namespace NatSet

def toFinset (s : NatSet) : Finset Nat := s.elems.toFinset

@[simp] theorem mem_toFinset {s : NatSet} {n : Nat} : n ∈ s.toFinset ↔ n ∈ s := List.mem_toFinset

theorem nodup_elems (s : NatSet) : s.elems.Nodup := s.ascending.imp Nat.ne_of_lt

@[simp] theorem card_toFinset (s : NatSet) : s.toFinset.card = s.size :=
  List.toFinset_card_of_nodup s.nodup_elems

theorem size_eq_card {s : NatSet} {f : Finset Nat} (h : ∀ n, n ∈ s ↔ n ∈ f) : s.size = f.card := by
  rw [← card_toFinset]
  exact congrArg Finset.card (Finset.ext fun n => by rw [mem_toFinset, h])

theorem size_le_of_subset {s t : NatSet} (h : ∀ n ∈ s.elems, n ∈ t) : s.size ≤ t.size := by
  rw [← card_toFinset s, ← card_toFinset t]
  apply Finset.card_le_card
  intro n hn
  exact mem_toFinset.2 (h n (mem_toFinset.1 hn))

theorem size_ofList_le (l : List Nat) : (ofList l).size ≤ l.length := by
  have hsize : (ofList l).size = l.toFinset.card := size_eq_card fun n => by
    rw [mem_ofList, List.mem_toFinset]
  rw [hsize]
  exact List.toFinset_card_le l

theorem size_congr {s t : NatSet} (h : ∀ n, n ∈ s ↔ n ∈ t) : s.size = t.size :=
  congrArg size (ext h)

theorem isEmpty_iff {s : NatSet} : s.isEmpty = true ↔ ∀ n, ¬ n ∈ s := by
  rw [isEmpty, List.isEmpty_iff, List.eq_nil_iff_forall_not_mem]
  rfl

theorem isEmpty_eq_false_iff {s : NatSet} : s.isEmpty = false ↔ ∃ n, n ∈ s := by
  rw [← Bool.not_eq_true, isEmpty_iff]
  exact not_forall_not

end NatSet

namespace NatMap
variable {β γ ε : Type}

theorem size_keys (m : NatMap β) : m.keys.size = m.size := List.length_map ..

theorem isEmpty_iff {m : NatMap β} : m.isEmpty = true ↔ ∀ k, m.get? k = none := by
  rw [isEmpty, List.isEmpty_iff]
  constructor
  · intro h k
    simp [get?, h, findIn]
  · intro h
    apply List.eq_nil_iff_forall_not_mem.2
    intro e he
    have := get?_eq_some_iff (m := m) (k := e.1) (b := e.2) |>.2 he
    simp [h] at this

theorem getD_eq_of_filled {o : Option (NatMap β)} {m : NatMap β}
    (h : ∀ a, o = some a ↔ m.isEmpty = false ∧ a = m) : o.getD ∅ = m := by
  cases he : m.isEmpty with
  | false =>
    rw [(h m).2 ⟨he, rfl⟩]
    rfl
  | true =>
    have hnone : o = none := Option.eq_none_iff_forall_ne_some.2 fun a ha => by
      rw [h, he] at ha
      cases ha.1
    rw [hnone]
    exact ext fun k => (isEmpty_iff.1 he k).symm

theorem size_eq_size_iff {m : NatMap β} {s : NatSet} (h : ∀ k b, m.get? k = some b → k ∈ s) :
    m.size = s.size ↔ ∀ k, k ∈ s → ∃ b, m.get? k = some b := by
  have hsub : m.keys.toFinset ⊆ s.toFinset := fun k hk => by
    obtain ⟨b, hb⟩ := mem_keys.1 (NatSet.mem_toFinset.1 hk)
    exact NatSet.mem_toFinset.2 (h k b hb)
  rw [← size_keys, ← NatSet.card_toFinset, ← NatSet.card_toFinset]
  constructor
  · intro hc k hk
    have heq : m.keys.toFinset = s.toFinset :=
      Finset.eq_of_subset_of_card_le hsub (Nat.le_of_eq hc.symm)
    exact mem_keys.1 (NatSet.mem_toFinset.1 (heq ▸ NatSet.mem_toFinset.2 hk))
  · intro hall
    exact congrArg Finset.card (hsub.antisymm fun k hk =>
      NatSet.mem_toFinset.2 (mem_keys.2 (hall k (NatSet.mem_toFinset.1 hk))))

theorem size_eq_iff {m : NatMap β} {n : Nat} (h : ∀ k b, m.get? k = some b → k < n) :
    m.size = n ↔ ∀ k < n, ∃ b, m.get? k = some b := by
  have hall := size_eq_size_iff (m := m) (s := ⟨List.range n, List.pairwise_lt_range⟩)
    fun k b hb => List.mem_range.2 (h k b hb)
  simpa only [NatSet.size, NatSet.mem_def, List.length_range, List.mem_range] using hall

def tabulate (n : Nat) (f : Nat → β) : NatMap β :=
  ⟨(List.range n).map fun k => (k, f k), by
    simpa [Function.comp_def] using List.pairwise_lt_range⟩

theorem get?_tabulate {n k : Nat} {f : Nat → β} :
    (tabulate n f).get? k = if k < n then some (f k) else none := by
  have hmem : ∀ b, (tabulate n f).get? k = some b ↔ k < n ∧ f k = b := fun b => by
    rw [get?_eq_some_iff]
    simp only [tabulate, List.mem_map, List.mem_range, Prod.mk.injEq]
    constructor
    · rintro ⟨j, hj, rfl, rfl⟩
      exact ⟨hj, rfl⟩
    · rintro ⟨hk, rfl⟩
      exact ⟨k, hk, rfl, rfl⟩
  split
  · next hk => exact (hmem _).2 ⟨hk, rfl⟩
  · next hk => exact Option.eq_none_iff_forall_ne_some.2 fun b hb => hk ((hmem b).1 hb).1

theorem eq_tabulate {m : NatMap β} {n : Nat} {f : Nat → β}
    (h : ∀ k b, m.get? k = some b ↔ k < n ∧ b = f k) : m = tabulate n f := by
  ext k : 1
  rw [get?_tabulate]
  split
  · next hk => exact (h k _).2 ⟨hk, rfl⟩
  · next hk => exact Option.eq_none_iff_forall_ne_some.2 fun b hb => hk ((h k b).1 hb).1

theorem mem_of_findIn {k : Nat} {b : β} {l : List (Nat × β)} (h : findIn k l = some b) :
    (k, b) ∈ l := by
  induction l with
  | nil => cases h
  | cons p l ih =>
    rw [findIn] at h
    split at h
    · next hk =>
      obtain rfl := Option.some.inj h
      exact hk ▸ List.mem_cons_self ..
    · exact List.mem_cons_of_mem _ (ih h)

theorem exists_findIn_iff {k : Nat} {l : List (Nat × β)} :
    (∃ b, findIn k l = some b) ↔ k ∈ l.map Prod.fst := by
  constructor
  · rintro ⟨b, hb⟩
    exact List.mem_map_of_mem (mem_of_findIn hb)
  · intro hk
    induction l with
    | nil => cases hk
    | cons p l ih =>
      rw [findIn]
      split
      · exact ⟨p.2, rfl⟩
      · next hne =>
        rw [List.map_cons, List.mem_cons] at hk
        exact ih (hk.resolve_left fun heq => hne heq.symm)

theorem get?_ofList_of_fn {l : List (Nat × β)} {f : Nat → β} (h : ∀ p ∈ l, p.2 = f p.1) {k : Nat}
    {b : β} : (ofList l).get? k = some b ↔ k ∈ l.map Prod.fst ∧ b = f k := by
  induction l generalizing b with
  | nil => simp [ofList]
  | cons p l ih =>
    have hp : p.2 = f p.1 := h p (List.mem_cons_self ..)
    have ih := fun b => ih (b := b) fun q hq => h q (List.mem_cons_of_mem _ hq)
    rw [get?_ofList_cons, List.map_cons, List.mem_cons]
    by_cases hk : k = p.1
    · rw [if_pos hk]
      subst hk
      cases hl : (ofList l).get? p.1 with
      | none => simp [hp, eq_comm]
      | some c =>
        obtain ⟨-, rfl⟩ := (ih c).1 hl
        simp [eq_comm]
    · rw [if_neg hk, ih]
      simp [hk]

theorem get?_ofList_of_ascending {l : List (Nat × β)} {k : Nat}
    (h : (l.map Prod.fst).Pairwise (· < ·)) : (ofList l).get? k = findIn k l := by
  induction l with
  | nil => rfl
  | cons p l ih =>
    rw [List.map_cons, List.pairwise_cons] at h
    have hp : findIn p.1 l = none := findIn_eq_none fun hm => absurd (h.1 _ hm) (Nat.lt_irrefl _)
    rw [get?_ofList_cons, ih h.2, findIn]
    split
    · next hk => simp [hk, hp]
    · next hk => rw [if_neg fun he => hk he.symm]

theorem ofList_entries (m : NatMap β) : ofList m.entries = m := by
  ext k : 1
  exact get?_ofList_of_ascending m.ascending

theorem get?_foldl_insert (l : List (Nat × β)) (m : NatMap β) (k : Nat) :
    (l.foldl (fun m e => m.insert e.1 e.2) m).get? k = ((ofList l).get? k).or (m.get? k) := by
  induction l generalizing m with
  | nil => rfl
  | cons p l ih =>
    rw [List.foldl_cons, ih, get?_insert, get?_ofList_cons]
    split
    · cases (ofList l).get? k <;> rfl
    · rfl

theorem ofList_eq_foldl (l : List (Nat × β)) :
    ofList l = l.foldl (fun m e => m.insert e.1 e.2) ∅ := by
  ext k : 1
  rw [get?_foldl_insert, get?_empty, Option.or_none]

theorem entries_map {g : β → γ} (m : NatMap β) :
    (m.map g).entries = m.entries.map fun e => (e.1, g e.2) := rfl

theorem map_map {δ : Type} {g : β → γ} {f : γ → δ} (m : NatMap β) :
    (m.map g).map f = m.map fun b => f (g b) := by
  ext k : 1
  simp only [get?_map, Option.map_map, Function.comp_def]

theorem keys_map {g : β → γ} (m : NatMap β) : (m.map g).keys = m.keys :=
  NatSet.ext fun n => by simp

theorem values_map {g : β → γ} (m : NatMap β) : (m.map g).values = m.values.map g := by
  simp only [values, entries_map, List.map_map, Function.comp_def]

theorem mem_values {m : NatMap β} {b : β} : b ∈ m.values ↔ ∃ k, m.get? k = some b := by
  rw [values, List.mem_map]
  constructor
  · rintro ⟨e, he, rfl⟩
    exact ⟨e.1, get?_eq_some_iff.2 he⟩
  · rintro ⟨k, hk⟩
    exact ⟨(k, b), get?_eq_some_iff.1 hk, rfl⟩

theorem entries_eq_filterMap {m : NatMap β} {n : Nat} (h : ∀ k b, m.get? k = some b → k < n) :
    m.entries = (List.range n).filterMap fun k => (m.get? k).map fun b => (k, b) := by
  have hkeys : ∀ l : List Nat, ((l.filterMap fun k => (m.get? k).map fun b => (k, b)).map
      Prod.fst) = l.filter fun k => (m.get? k).isSome := by
    intro l
    induction l with
    | nil => rfl
    | cons k l ih => cases hk : m.get? k <;> simp [hk, ih]
  have hascending : (((List.range n).filterMap fun k => (m.get? k).map fun b => (k, b)).map
      Prod.fst).Pairwise (· < ·) := by
    rw [hkeys]
    exact List.pairwise_lt_range.filter _
  have hm : m = ⟨_, hascending⟩ := by
    ext k : 1
    apply Option.ext
    intro b
    rw [get?_eq_some_iff (m := ⟨_, hascending⟩), List.mem_filterMap]
    constructor
    · intro hb
      exact ⟨k, List.mem_range.2 (h k b hb), by rw [hb]; rfl⟩
    · rintro ⟨k', -, hb⟩
      obtain ⟨b', hb', heq⟩ := Option.map_eq_some_iff.1 hb
      obtain ⟨rfl, rfl⟩ := Prod.mk.inj heq
      exact hb'
  exact congrArg entries hm

theorem flatMap_values {m : NatMap β} {n : Nat} (h : ∀ k b, m.get? k = some b → k < n)
    (f : β → List γ) :
    m.values.flatMap f = (List.range n).flatMap fun k => ((m.get? k).map f).getD [] := by
  have hvalues : m.values = (List.range n).filterMap m.get? := by
    rw [values, entries_eq_filterMap h, List.map_filterMap]
    simp [Function.comp_def]
  rw [hvalues]
  generalize List.range n = l
  induction l with
  | nil => rfl
  | cons k l ih => cases hk : m.get? k <;> simp [hk, ih]

end NatMap
end MeshNumbering
