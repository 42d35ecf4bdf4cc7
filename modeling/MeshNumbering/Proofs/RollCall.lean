import MeshNumbering.Proofs.Ordered.Counting
import MeshNumbering.RollCall

/-! What a roll call holds while every processor always contributes the same thing: it is determined
by the processors heard so far. Once all have been heard, two roll calls are the same whatever the
order of arrival was. -/

namespace MeshNumbering.RollCall
variable {α : Type} {r : RollCall α} {kind : MessageKind} {n : Nat} {P : Nat → Prop} {f : Nat → α}

def full (kind : MessageKind) (n : Nat) (f : Nat → α) : RollCall α := ⟨kind, n, .tabulate n f⟩

/-- Of `n` processors just those in `P` have been heard, and each contributed what `f` says. -/
structure Holds (r : RollCall α) (kind : MessageKind) (n : Nat) (P : Nat → Prop) (f : Nat → α) :
    Prop where
  kind_eq : r.kind = kind
  expected_eq : r.expected = n
  heard_iff : ∀ q a, r.heard.get? q = some a ↔ P q ∧ a = f q

theorem holds_start : (start kind n : RollCall α).Holds kind n (fun _ => False) f where
  kind_eq := rfl
  expected_eq := rfl
  heard_iff q a := by
    show (∅ : NatMap α).get? q = some a ↔ _
    simp

theorem Holds.congr {P' : Nat → Prop} (h : r.Holds kind n P f) (hP : ∀ q, P q ↔ P' q) :
    r.Holds kind n P' f :=
  ⟨h.kind_eq, h.expected_eq, fun q a => by rw [h.heard_iff, hP]⟩

theorem Holds.contains_iff (h : r.Holds kind n P f) {q : Nat} :
    r.heard.contains q = true ↔ P q := by
  rw [NatMap.contains, Option.isSome_iff_exists]
  constructor
  · rintro ⟨a, ha⟩
    exact ((h.heard_iff q a).1 ha).1
  · intro hq
    exact ⟨f q, (h.heard_iff q _).2 ⟨hq, rfl⟩⟩

theorem Holds.record (h : r.Holds kind n P f) (pe : Nat) {q : Nat} (hq : ¬ P q) :
    ∃ r', r.record pe q (f q) = .ok r' ∧ r'.Holds kind n (fun j => P j ∨ j = q) f := by
  refine ⟨_, if_neg fun hc => hq (h.contains_iff.1 hc), h.kind_eq, h.expected_eq, fun j a => ?_⟩
  rw [NatMap.get?_insert]
  split
  · next hj =>
    subst hj
    rw [Option.some.injEq, eq_comm]
    exact ⟨fun ha => ⟨.inr rfl, ha⟩, And.right⟩
  · next hj =>
    rw [h.heard_iff]
    simp [hj]

theorem Holds.record_eq_error_iff (h : r.Holds kind n P f) {pe q : Nat} {a : α} {e : Fault} :
    r.record pe q a = .error e ↔ P q ∧ e = .repeated pe q kind := by
  rw [← h.contains_iff, RollCall.record, h.kind_eq]
  split
  · next hc => simp [hc, eq_comm]
  · next hc => simp [hc]

theorem Holds.of_record (h : r.Holds kind n P f) {pe q : Nat} {r' : RollCall α}
    (hr : r.record pe q (f q) = .ok r') : r'.Holds kind n (fun j => P j ∨ j = q) f := by
  have hq : ¬ P q := fun hq => by
    have he : r.record pe q (f q) = .error (.repeated pe q kind) :=
      h.record_eq_error_iff.2 ⟨hq, rfl⟩
    rw [he] at hr
    cases hr
  obtain ⟨r'', hr'', hh⟩ := h.record pe hq
  rw [hr''] at hr
  exact Except.ok.inj hr ▸ hh

theorem Holds.eq_full (h : r.Holds kind n P f) (hP : ∀ q, P q ↔ q < n) : r = full kind n f := by
  obtain ⟨k, e, heard⟩ := r
  obtain ⟨rfl, rfl, hh⟩ := h
  have hheard : heard = .tabulate e f := NatMap.eq_tabulate fun q a => by rw [← hP]; exact hh q a
  rw [full, hheard]

theorem Holds.isComplete_iff (h : r.Holds kind n P f) (hP : ∀ q, P q → q < n) :
    r.isComplete = true ↔ ∀ q < n, P q := by
  rw [isComplete, decide_eq_true_eq, h.expected_eq,
    NatMap.size_eq_iff fun q a ha => hP q ((h.heard_iff q a).1 ha).1]
  apply forall₂_congr
  intro q _
  constructor
  · rintro ⟨a, ha⟩
    exact ((h.heard_iff q a).1 ha).1
  · exact fun hq => ⟨f q, (h.heard_iff q _).2 ⟨hq, rfl⟩⟩

theorem contributions_full :
    (full kind n f).contributions = (List.range n).map fun q => (q, f q) := rfl

theorem takeWhile_contributions_full {p : Nat} (hp : p ≤ n) :
    ((full kind n f).contributions.takeWhile fun c => decide (c.1 < p)) =
      (List.range p).map fun q => (q, f q) := by
  have hrange : (List.range n).takeWhile (fun q => decide (q < p)) = List.range p := by
    obtain ⟨m, rfl⟩ := Nat.exists_eq_add_of_le hp
    rw [List.range_add, List.takeWhile_append_of_pos (by simp)]
    cases m with
    | zero => simp
    | succ m => simp [List.range_succ_eq_map]
  rw [contributions_full, List.takeWhile_map]
  exact congrArg _ hrange

theorem mem_contributions_full {q : Nat} {a : α} :
    (q, a) ∈ (full kind n f).contributions ↔ q < n ∧ a = f q := by
  rw [contributions_full, List.mem_map]
  constructor
  · rintro ⟨j, hj, heq⟩
    obtain ⟨rfl, rfl⟩ := Prod.mk.inj heq
    exact ⟨List.mem_range.1 hj, rfl⟩
  · rintro ⟨hq, rfl⟩
    exact ⟨q, List.mem_range.2 hq, rfl⟩

theorem isComplete_full : (full kind n f).isComplete = true := by
  simp [isComplete, full, NatMap.size, NatMap.tabulate]

/-! Contributions in any order of arrival. -/

def recordAll (pe : Nat) (f : Nat → α) : RollCall α → List Nat → Except Fault (RollCall α)
  | r, [] => .ok r
  | r, q :: l =>
    match r.record pe q (f q) with
    | .error e => .error e
    | .ok r => recordAll pe f r l

theorem Holds.recordAll (h : r.Holds kind n P f) (pe : Nat) {order : List Nat}
    (hnodup : order.Nodup) (hnew : ∀ q ∈ order, ¬ P q) :
    ∃ r', recordAll pe f r order = .ok r' ∧ r'.Holds kind n (fun j => P j ∨ j ∈ order) f := by
  induction order generalizing r P with
  | nil => exact ⟨r, rfl, h.congr fun q => by simp⟩
  | cons q l ih =>
    rw [List.nodup_cons] at hnodup
    obtain ⟨r₁, hrecord, h₁⟩ := h.record pe (hnew q (List.mem_cons_self ..))
    obtain ⟨r₂, hrest, h₂⟩ := ih h₁ hnodup.2 fun j hj => by
      rintro (hP | rfl)
      · exact hnew j (List.mem_cons_of_mem _ hj) hP
      · exact hnodup.1 hj
    refine ⟨r₂, ?_, h₂.congr fun j => ?_⟩
    · rw [RollCall.recordAll, hrecord]
      exact hrest
    · rw [List.mem_cons, or_assoc]

theorem Holds.size_heard {order : List Nat} (h : r.Holds kind n (· ∈ order) f)
    (hnodup : order.Nodup) : r.heard.size = order.length := by
  -- As many are heard as there are different senders.
  rw [← NatMap.size_keys, ← List.toFinset_card_of_nodup hnodup]
  apply NatSet.size_eq_card
  intro q
  rw [NatMap.mem_keys, List.mem_toFinset]
  constructor
  · rintro ⟨a, ha⟩
    exact ((h.heard_iff q a).1 ha).1
  · exact fun hq => ⟨f q, (h.heard_iff q _).2 ⟨hq, rfl⟩⟩

theorem Holds.eq_full_of_length {order : List Nat} (h : r.Holds kind n (· ∈ order) f)
    (hnodup : order.Nodup) (hlt : ∀ q ∈ order, q < n) (hlength : order.length = n) :
    r = full kind n f := by
  have hcomplete : r.isComplete = true := by
    rw [isComplete, decide_eq_true_eq, h.expected_eq, h.size_heard hnodup, hlength]
  refine h.eq_full fun q => ⟨hlt q, (h.isComplete_iff hlt).1 hcomplete q⟩

/-! What a roll call says for certain when contributions may be anything. -/

theorem record_eq_ok {r' : RollCall α} {pe q : Nat} {a : α} (h : r.record pe q a = .ok r') :
    r.heard.get? q = none ∧ r' = { r with heard := r.heard.insert q a } := by
  unfold RollCall.record at h
  split at h
  · cases h
  · next hc =>
    rw [NatMap.contains, Bool.not_eq_true, Option.isSome_eq_false_iff, Option.isNone_iff_eq_none]
      at hc
    exact ⟨hc, (Except.ok.inj h).symm⟩

/-- All that have been heard are among `n` processors and in `P`. -/
structure Tallies (r : RollCall α) (n : Nat) (P : Nat → Prop) : Prop where
  expected_eq : r.expected = n
  heard : ∀ q a, r.heard.get? q = some a → q < n ∧ P q

theorem tallies_start : (start kind n : RollCall α).Tallies n P where
  expected_eq := rfl
  heard q a ha := by cases ha

theorem Tallies.mono {P' : Nat → Prop} (h : r.Tallies n P) (hP : ∀ q, P q → P' q) :
    r.Tallies n P' where
  expected_eq := h.expected_eq
  heard q a ha := (h.heard q a ha).imp_right (hP q)

theorem Tallies.record {r' : RollCall α} {pe q : Nat} {a : α} (h : r.Tallies n P)
    (hr : r.record pe q a = .ok r') (hq : q < n) (hP : P q) : r'.Tallies n P := by
  obtain ⟨-, rfl⟩ := record_eq_ok hr
  refine ⟨h.expected_eq, fun j b hj => ?_⟩
  rw [NatMap.get?_insert] at hj
  split at hj
  · next heq => exact heq ▸ ⟨hq, hP⟩
  · exact h.heard j b hj

theorem Tallies.all (h : r.Tallies n P) (hc : r.isComplete = true) : ∀ q < n, P q := by
  rw [isComplete, decide_eq_true_eq, h.expected_eq,
    NatMap.size_eq_iff fun q a ha => (h.heard q a ha).1] at hc
  intro q hq
  obtain ⟨a, ha⟩ := hc q hq
  exact (h.heard q a ha).2

theorem Tallies.record_ne_ok {r' : RollCall α} {pe q : Nat} {a : α} (h : r.Tallies n P)
    (hc : r.isComplete = true) (hq : q < n) : r.record pe q a ≠ .ok r' := by
  intro hr
  have hheard : r.Tallies n fun q => ∃ b, r.heard.get? q = some b :=
    ⟨h.expected_eq, fun q b hb => ⟨(h.heard q b hb).1, b, hb⟩⟩
  obtain ⟨b, hb⟩ := hheard.all hc q hq
  rw [(record_eq_ok hr).1] at hb
  cases hb

end MeshNumbering.RollCall
