/-! Finite sets of naturals, kept as strictly ascending lists. Two sets with the same members are
equal, so a set may be compared, sent and printed without fixing an order first. -/

namespace MeshNumbering

structure NatSet where
  elems : List Nat
  ascending : elems.Pairwise (· < ·)
deriving DecidableEq

namespace NatSet

def insertAscending (a : Nat) : List Nat → List Nat
  | [] => [a]
  | b :: l =>
    if a < b then a :: b :: l
    else if a = b then b :: l
    else b :: insertAscending a l

theorem mem_insertAscending {a n : Nat} {l : List Nat} :
    n ∈ insertAscending a l ↔ n = a ∨ n ∈ l := by
  induction l with
  | nil => simp [insertAscending]
  | cons b l ih => grind [insertAscending]

theorem pairwise_insertAscending {a : Nat} {l : List Nat} (h : l.Pairwise (· < ·)) :
    (insertAscending a l).Pairwise (· < ·) := by
  induction l with
  | nil => simp [insertAscending]
  | cons b l ih =>
    simp only [insertAscending]
    rw [List.pairwise_cons] at h
    split
    · exact List.pairwise_cons.2 ⟨by grind, List.pairwise_cons.2 h⟩
    · split
      · exact List.pairwise_cons.2 h
      · refine List.pairwise_cons.2 ⟨fun n hn => ?_, ih h.2⟩
        rcases mem_insertAscending.1 hn with rfl | hn
        · omega
        · exact h.1 n hn

def empty : NatSet := ⟨[], .nil⟩

instance : EmptyCollection NatSet := ⟨empty⟩
instance : Inhabited NatSet := ⟨empty⟩
instance : Membership Nat NatSet := ⟨fun s n => n ∈ s.elems⟩
instance (n : Nat) (s : NatSet) : Decidable (n ∈ s) := inferInstanceAs (Decidable (n ∈ s.elems))

def insert (s : NatSet) (a : Nat) : NatSet :=
  ⟨insertAscending a s.elems, pairwise_insertAscending s.ascending⟩

def ofList (l : List Nat) : NatSet := l.foldr (fun a s => s.insert a) ∅

def filter (p : Nat → Bool) (s : NatSet) : NatSet := ⟨s.elems.filter p, s.ascending.filter p⟩

def union (s t : NatSet) : NatSet := t.elems.foldr (fun a u => u.insert a) s

def diff (s t : NatSet) : NatSet := s.filter fun n => !t.elems.contains n

def image (f : Nat → Nat) (s : NatSet) : NatSet := ofList (s.elems.map f)

def size (s : NatSet) : Nat := s.elems.length

def isEmpty (s : NatSet) : Bool := s.elems.isEmpty

def max? (s : NatSet) : Option Nat := s.elems.getLast?

theorem mem_def {n : Nat} {s : NatSet} : n ∈ s ↔ n ∈ s.elems := Iff.rfl

@[simp] theorem not_mem_empty {n : Nat} : ¬ n ∈ (∅ : NatSet) := List.not_mem_nil

@[simp] theorem mem_insert {s : NatSet} {a n : Nat} : n ∈ s.insert a ↔ n = a ∨ n ∈ s :=
  mem_insertAscending

@[simp] theorem mem_ofList {l : List Nat} {n : Nat} : n ∈ ofList l ↔ n ∈ l := by
  induction l with
  | nil => simp [ofList]
  | cons a l ih =>
    rw [List.mem_cons, ← ih]
    exact mem_insert

@[simp] theorem mem_filter {p : Nat → Bool} {s : NatSet} {n : Nat} :
    n ∈ s.filter p ↔ n ∈ s ∧ p n = true := by
  simp [mem_def, filter]

@[simp] theorem mem_union {s t : NatSet} {n : Nat} : n ∈ s.union t ↔ n ∈ s ∨ n ∈ t := by
  have h : ∀ l : List Nat, n ∈ l.foldr (fun a u => u.insert a) s ↔ n ∈ s ∨ n ∈ l := by
    intro l
    induction l with
    | nil => simp
    | cons a l ih => simp only [List.foldr_cons, mem_insert, ih, List.mem_cons]; grind
  exact h t.elems

@[simp] theorem mem_diff {s t : NatSet} {n : Nat} : n ∈ s.diff t ↔ n ∈ s ∧ ¬ n ∈ t := by
  rw [diff, mem_filter]
  simp [mem_def]

@[simp] theorem mem_image {f : Nat → Nat} {s : NatSet} {n : Nat} :
    n ∈ s.image f ↔ ∃ a, a ∈ s ∧ f a = n := by
  rw [image, mem_ofList, List.mem_map]
  rfl

theorem eq_of_ascending {l m : List Nat} (hl : l.Pairwise (· < ·)) (hm : m.Pairwise (· < ·))
    (h : ∀ n, n ∈ l ↔ n ∈ m) : l = m := by
  induction l generalizing m with
  | nil =>
    cases m with
    | nil => rfl
    | cons b m => exact absurd ((h b).2 (List.mem_cons_self ..)) (by simp)
  | cons a l ih =>
    cases m with
    | nil => exact absurd ((h a).1 (List.mem_cons_self ..)) (by simp)
    | cons b m =>
      rw [List.pairwise_cons] at hl hm
      have hab : a = b := by
        have h₁ := (h a).1 (List.mem_cons_self ..)
        have h₂ := (h b).2 (List.mem_cons_self ..)
        rcases List.mem_cons.1 h₁ with rfl | h₁
        · rfl
        · rcases List.mem_cons.1 h₂ with rfl | h₂
          · rfl
          · have := hl.1 _ h₂
            have := hm.1 _ h₁
            omega
      subst hab
      rw [ih hl.2 hm.2]
      intro n
      constructor
      · intro hn
        have hlt := hl.1 n hn
        rcases List.mem_cons.1 ((h n).1 (List.mem_cons_of_mem _ hn)) with rfl | hn
        · omega
        · exact hn
      · intro hn
        have hlt := hm.1 n hn
        rcases List.mem_cons.1 ((h n).2 (List.mem_cons_of_mem _ hn)) with rfl | hn
        · omega
        · exact hn

@[ext] theorem ext {s t : NatSet} (h : ∀ n, n ∈ s ↔ n ∈ t) : s = t := by
  obtain ⟨l, hl⟩ := s
  obtain ⟨m, hm⟩ := t
  obtain rfl : l = m := eq_of_ascending hl hm h
  rfl

end NatSet
end MeshNumbering
