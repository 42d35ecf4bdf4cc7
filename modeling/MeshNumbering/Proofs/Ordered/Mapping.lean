import MeshNumbering.Proofs.Ordered.Counting
import MeshNumbering.Proofs.Steps

/-! Maps and sets with their values changed, all at once or by steps that may fail, and maps turned
around. -/

namespace MeshNumbering

namespace NatMap
variable {β γ ε : Type} {l : List (Nat × β)} {k : Nat} {b : β}

theorem get?_ofList_of_nodup (h : (l.map Prod.fst).Nodup) :
    (ofList l).get? k = some b ↔ (k, b) ∈ l := by
  induction l generalizing k b with
  | nil => simp [ofList]
  | cons p l ih =>
    rw [List.map_cons, List.nodup_cons] at h
    have hnone : (ofList l).get? p.1 = none := Option.eq_none_iff_forall_ne_some.2 fun b hb =>
      h.1 (List.mem_map.2 ⟨_, (ih h.2).1 hb, rfl⟩)
    rw [get?_ofList_cons, List.mem_cons]
    by_cases hk : k = p.1
    · subst hk
      have hnot : (p.1, b) ∉ l := fun hm => h.1 (List.mem_map.2 ⟨_, hm, rfl⟩)
      rw [if_pos rfl, hnone, or_iff_left hnot, Option.getD_none, Option.some.injEq]
      exact ⟨fun hb => Prod.ext rfl hb.symm, fun hp => (congrArg Prod.snd hp).symm⟩
    · rw [if_neg hk, ih h.2]
      exact (or_iff_right fun hp => hk (congrArg Prod.fst hp)).symm

def invert (m : NatMap Nat) : NatMap Nat := .ofList (m.entries.map Prod.swap)

def Injective (m : NatMap Nat) : Prop :=
  ∀ j k i, m.get? j = some i → m.get? k = some i → j = k

theorem Injective.get?_invert {m : NatMap Nat} (h : m.Injective) {i n : Nat} :
    m.invert.get? i = some n ↔ m.get? n = some i := by
  have hnodup : ((m.entries.map Prod.swap).map Prod.fst).Nodup := by
    rw [List.map_map]
    refine List.Nodup.map_on ?_ (List.Nodup.of_map Prod.fst (NatSet.nodup_elems m.keys))
    rintro ⟨j, i⟩ hj ⟨k, i'⟩ hk heq
    obtain rfl : i = i' := heq
    obtain rfl := h j k i (get?_eq_some_iff.2 hj) (get?_eq_some_iff.2 hk)
    rfl
  rw [invert, get?_ofList_of_nodup hnodup, get?_eq_some_iff, List.mem_map]
  constructor
  · rintro ⟨⟨n', i'⟩, hm, heq⟩
    obtain ⟨rfl, rfl⟩ := Prod.mk.inj heq
    exact hm
  · exact fun hm => ⟨(n, i), hm, rfl⟩

theorem mapEntriesM_eq {f : Nat → β → Except ε γ} :
    mapEntriesM f l = l.mapM fun e => (f e.1 e.2).map fun c => (e.1, c) := by
  induction l with
  | nil => rfl
  | cons e l ih =>
    rw [mapEntriesM, List.mapM_cons, ← ih]
    cases f e.1 e.2 with
    | error e => rfl
    | ok c => cases mapEntriesM f l <;> rfl

theorem mapM_eq {f : Nat → β → Except ε γ} {m : NatMap β} {x : Except ε (NatMap γ)}
    (h : (m.entries.mapM fun e => (f e.1 e.2).map fun c => (e.1, c)) = x.map entries) :
    m.mapM f = x := by
  rw [← mapEntriesM_eq] at h
  unfold mapM
  split
  · next e he =>
    exact (map_eq_error (h.symm.trans he)).symm
  · next r hr =>
    obtain ⟨m', rfl, hm'⟩ := map_eq_ok (h.symm.trans hr)
    subst hm'
    rfl

theorem get?_map_iff {m : NatMap β} {g : β → γ} {P : β → γ → Prop} {c : γ}
    (h : ∀ b, m.get? k = some b → (g b = c ↔ P b c)) :
    (m.map g).get? k = some c ↔ ∃ b, m.get? k = some b ∧ P b c := by
  rw [get?_map, Option.map_eq_some_iff]
  exact exists_congr fun b => and_congr_right (h b)

theorem map_eq_iff {m : NatMap β} {m' : NatMap γ} {g : β → γ} {P : β → γ → Prop}
    (h : ∀ k b c, m.get? k = some b → (g b = c ↔ P b c)) :
    m.map g = m' ↔ ∀ k c, m'.get? k = some c ↔ ∃ b, m.get? k = some b ∧ P b c := by
  constructor
  · rintro rfl k c
    exact get?_map_iff fun b => h k b c
  · intro hm
    ext k : 1
    apply Option.ext
    intro c
    exact (get?_map_iff fun b => h k b c).trans (hm k c).symm

theorem map_eq_self {m : NatMap β} {g : β → β} (h : ∀ k b, m.get? k = some b → g b = b) :
    m.map g = m := by
  ext k : 1
  rw [get?_map]
  cases hk : m.get? k with
  | none => rfl
  | some b => exact congrArg some (h k b hk)

end NatMap

namespace NatSet
variable {s : NatSet} {f g : Nat → Nat}

theorem size_image (h : ∀ a b, a ∈ s → b ∈ s → f a = f b → a = b) : (s.image f).size = s.size := by
  have hcard : (s.image f).size = (s.toFinset.image f).card := size_eq_card fun n => by
    rw [mem_image, Finset.mem_image]
    simp only [mem_toFinset]
  rw [hcard, ← card_toFinset s]
  apply Finset.card_image_of_injOn
  intro a ha b hb
  exact h a b (mem_toFinset.1 ha) (mem_toFinset.1 hb)

theorem image_image_eq_self (h : ∀ a, a ∈ s → g (f a) = a) : (s.image f).image g = s := by
  ext n
  simp only [mem_image]
  constructor
  · rintro ⟨_, ⟨a, ha, rfl⟩, rfl⟩
    exact (h a ha).symm ▸ ha
  · exact fun hn => ⟨f n, ⟨n, hn, rfl⟩, h n hn⟩

end NatSet

end MeshNumbering
