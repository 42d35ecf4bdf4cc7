import MeshNumbering.Ordered.NatSet

/-! Finite maps from naturals, kept as association lists with strictly ascending keys. Every change
goes through `upsert`; two maps that answer every look-up alike are equal. -/

namespace MeshNumbering

structure NatMap (β : Type) where
  entries : List (Nat × β)
  ascending : (entries.map Prod.fst).Pairwise (· < ·)
deriving DecidableEq

namespace NatMap
variable {β γ ε : Type}

def findIn (k : Nat) : List (Nat × β) → Option β
  | [] => none
  | (j, b) :: l => if j = k then some b else findIn k l

def upsertIn (k : Nat) (f : Option β → β) : List (Nat × β) → List (Nat × β)
  | [] => [(k, f none)]
  | (j, b) :: l =>
    if k < j then (k, f none) :: (j, b) :: l
    else if k = j then (j, f (some b)) :: l
    else (j, b) :: upsertIn k f l

theorem mem_keys_upsertIn {k n : Nat} {f : Option β → β} {l : List (Nat × β)} :
    n ∈ (upsertIn k f l).map Prod.fst ↔ n = k ∨ n ∈ l.map Prod.fst := by
  induction l with
  | nil => simp [upsertIn]
  | cons p l ih => grind [upsertIn]

theorem pairwise_upsertIn {k : Nat} {f : Option β → β} {l : List (Nat × β)}
    (h : (l.map Prod.fst).Pairwise (· < ·)) :
    ((upsertIn k f l).map Prod.fst).Pairwise (· < ·) := by
  induction l with
  | nil => simp [upsertIn]
  | cons p l ih =>
    obtain ⟨j, b⟩ := p
    rw [List.map_cons, List.pairwise_cons] at h
    simp only [upsertIn]
    split
    · simp only [List.map_cons, List.pairwise_cons]
      exact ⟨by grind, h⟩
    · split
      · simpa only [List.map_cons, List.pairwise_cons] using h
      · rw [List.map_cons, List.pairwise_cons]
        refine ⟨fun n hn => ?_, ih h.2⟩
        rcases mem_keys_upsertIn.1 hn with rfl | hn
        · exact Nat.lt_of_le_of_ne (by omega) (by grind)
        · exact h.1 n hn

theorem findIn_eq_none {k : Nat} {l : List (Nat × β)} (h : k ∉ l.map Prod.fst) :
    findIn k l = none := by
  induction l with
  | nil => rfl
  | cons p l ih => grind [findIn]

theorem findIn_upsertIn {k n : Nat} {f : Option β → β} {l : List (Nat × β)}
    (h : (l.map Prod.fst).Pairwise (· < ·)) :
    findIn n (upsertIn k f l) = if n = k then some (f (findIn k l)) else findIn n l := by
  induction l with
  | nil => grind [findIn, upsertIn]
  | cons p l ih =>
    obtain ⟨j, b⟩ := p
    rw [List.map_cons, List.pairwise_cons] at h
    have hj : k < j → findIn k l = none := fun hk =>
      findIn_eq_none fun hm => absurd (h.1 k hm) (by omega)
    grind [findIn, upsertIn]

def empty : NatMap β := ⟨[], NatSet.empty.ascending⟩

instance : EmptyCollection (NatMap β) := ⟨empty⟩
instance : Inhabited (NatMap β) := ⟨empty⟩

def get? (m : NatMap β) (k : Nat) : Option β := findIn k m.entries

def upsert (m : NatMap β) (k : Nat) (f : Option β → β) : NatMap β :=
  ⟨upsertIn k f m.entries, pairwise_upsertIn m.ascending⟩

def insert (m : NatMap β) (k : Nat) (b : β) : NatMap β := m.upsert k fun _ => b

/-- Of two pairs with one key the later counts. -/
def ofList (l : List (Nat × β)) : NatMap β :=
  l.foldr (fun p m => m.upsert p.1 fun old => old.getD p.2) ∅

def contains (m : NatMap β) (k : Nat) : Bool := (m.get? k).isSome

def keys (m : NatMap β) : NatSet := ⟨m.entries.map Prod.fst, m.ascending⟩

def values (m : NatMap β) : List β := m.entries.map Prod.snd

def size (m : NatMap β) : Nat := m.entries.length

def isEmpty (m : NatMap β) : Bool := m.entries.isEmpty

def map (f : β → γ) (m : NatMap β) : NatMap γ :=
  ⟨m.entries.map fun p => (p.1, f p.2), by simpa [Function.comp_def] using m.ascending⟩

def filterKeys (p : Nat → Bool) (m : NatMap β) : NatMap β :=
  ⟨m.entries.filter fun e => p e.1, by
    have h : (m.entries.filter fun e => p e.1).map Prod.fst =
        (m.entries.map Prod.fst).filter p := by
      rw [List.filter_map]
      rfl
    rw [h]
    exact m.ascending.filter p⟩

def mapEntriesM (f : Nat → β → Except ε γ) : List (Nat × β) → Except ε (List (Nat × γ))
  | [] => .ok []
  | (k, b) :: l =>
    match f k b with
    | .error e => .error e
    | .ok c =>
      match mapEntriesM f l with
      | .error e => .error e
      | .ok r => .ok ((k, c) :: r)

theorem keys_mapEntriesM {f : Nat → β → Except ε γ} {l : List (Nat × β)} {r : List (Nat × γ)}
    (h : mapEntriesM f l = .ok r) : r.map Prod.fst = l.map Prod.fst := by
  induction l generalizing r with
  | nil => obtain rfl : [] = r := by simpa [mapEntriesM] using h
           rfl
  | cons p l ih =>
    simp only [mapEntriesM] at h
    split at h
    · simp at h
    · split at h
      · simp at h
      · next s hs =>
        simp only [Except.ok.injEq] at h
        rw [← h, List.map_cons, List.map_cons, ih hs]

def mapM (f : Nat → β → Except ε γ) (m : NatMap β) : Except ε (NatMap γ) :=
  match h : mapEntriesM f m.entries with
  | .error e => .error e
  | .ok r => .ok ⟨r, keys_mapEntriesM h ▸ m.ascending⟩

@[simp] theorem get?_empty {k : Nat} : (∅ : NatMap β).get? k = none := rfl

@[simp] theorem get?_upsert {m : NatMap β} {k n : Nat} {f : Option β → β} :
    (m.upsert k f).get? n = if n = k then some (f (m.get? k)) else m.get? n :=
  findIn_upsertIn m.ascending

@[simp] theorem get?_insert {m : NatMap β} {k n : Nat} {b : β} :
    (m.insert k b).get? n = if n = k then some b else m.get? n := get?_upsert

theorem findIn_eq_some_iff {k : Nat} {b : β} {l : List (Nat × β)}
    (h : (l.map Prod.fst).Pairwise (· < ·)) : findIn k l = some b ↔ (k, b) ∈ l := by
  induction l with
  | nil => simp [findIn]
  | cons p l ih =>
    obtain ⟨j, c⟩ := p
    rw [List.map_cons, List.pairwise_cons] at h
    have hk : (k, b) ∈ l → j < k := fun hm => h.1 k (List.mem_map.2 ⟨_, hm, rfl⟩)
    grind [findIn]

theorem get?_eq_some_iff {m : NatMap β} {k : Nat} {b : β} :
    m.get? k = some b ↔ (k, b) ∈ m.entries := findIn_eq_some_iff m.ascending

@[simp] theorem mem_keys {m : NatMap β} {k : Nat} : k ∈ m.keys ↔ ∃ b, m.get? k = some b := by
  constructor
  · intro h
    obtain ⟨⟨j, b⟩, hb, rfl⟩ := List.mem_map.1 h
    exact ⟨b, get?_eq_some_iff.2 hb⟩
  · rintro ⟨b, hb⟩
    exact List.mem_map.2 ⟨(k, b), get?_eq_some_iff.1 hb, rfl⟩

@[simp] theorem get?_map {f : β → γ} {m : NatMap β} {k : Nat} :
    (m.map f).get? k = (m.get? k).map f := by
  have h : ∀ l : List (Nat × β), findIn k (l.map fun p => (p.1, f p.2)) = (findIn k l).map f := by
    intro l
    induction l with
    | nil => rfl
    | cons p l ih => grind [findIn]
  exact h m.entries

@[simp] theorem get?_filterKeys {p : Nat → Bool} {m : NatMap β} {k : Nat} :
    (m.filterKeys p).get? k = if p k then m.get? k else none := by
  have h : ∀ l : List (Nat × β), findIn k (l.filter fun e => p e.1) =
      if p k then findIn k l else none := by
    intro l
    induction l with
    | nil => simp [findIn]
    | cons e l ih => grind [findIn]
  exact h m.entries

theorem get?_ofList_cons {p : Nat × β} {l : List (Nat × β)} {k : Nat} :
    (ofList (p :: l)).get? k = if k = p.1 then some (((ofList l).get? k).getD p.2)
      else (ofList l).get? k := by
  have h : ofList (p :: l) = (ofList l).upsert p.1 fun old => old.getD p.2 := rfl
  rw [h, get?_upsert]
  split
  · next hk => rw [hk]
  · rfl

@[ext] theorem ext {m m' : NatMap β} (h : ∀ k, m.get? k = m'.get? k) : m = m' := by
  have hmem : ∀ p : Nat × β, p ∈ m.entries ↔ p ∈ m'.entries := fun p => by
    rw [← get?_eq_some_iff, ← get?_eq_some_iff, h]
  obtain ⟨l, hl⟩ := m
  obtain ⟨l', hl'⟩ := m'
  suffices hs : l = l' by subst hs; rfl
  clear h
  simp only at hmem
  induction l generalizing l' with
  | nil =>
    cases l' with
    | nil => rfl
    | cons q l' => exact absurd ((hmem q).2 (List.mem_cons_self ..)) (by simp)
  | cons p l ih =>
    cases l' with
    | nil => exact absurd ((hmem p).1 (List.mem_cons_self ..)) (by simp)
    | cons q l' =>
      rw [List.map_cons, List.pairwise_cons] at hl hl'
      have below : ∀ r ∈ l, p.1 < r.1 := fun r hr => hl.1 _ (List.mem_map.2 ⟨r, hr, rfl⟩)
      have below' : ∀ r ∈ l', q.1 < r.1 := fun r hr => hl'.1 _ (List.mem_map.2 ⟨r, hr, rfl⟩)
      have hpq : p = q := by
        rcases List.mem_cons.1 ((hmem p).1 (List.mem_cons_self ..)) with hp | hp
        · exact hp
        · rcases List.mem_cons.1 ((hmem q).2 (List.mem_cons_self ..)) with hq | hq
          · exact hq.symm
          · have := below _ hq
            have := below' _ hp
            omega
      subst hpq
      rw [ih hl.2 l' hl'.2]
      intro r
      constructor
      · intro hr
        have hlt := below r hr
        rcases List.mem_cons.1 ((hmem r).1 (List.mem_cons_of_mem _ hr)) with rfl | hr'
        · omega
        · exact hr'
      · intro hr
        have hlt := below' r hr
        rcases List.mem_cons.1 ((hmem r).2 (List.mem_cons_of_mem _ hr)) with rfl | hr'
        · omega
        · exact hr'

end NatMap
end MeshNumbering
