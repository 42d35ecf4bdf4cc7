import Mathlib.Data.List.Induction
import MeshNumbering.Proofs.Holdings.Index
import MeshNumbering.Proofs.Scenario.Rank

/-! What a shipment holds while the batches and receipts come in: the lists of the processors heard
so far, and the processors that still owe a receipt. -/

namespace MeshNumbering.Shipment

section
variable {layout : Layout} {pe q c : Nat} {l : List (Nat × List Nat)}

def addToBatch (layout : Layout) (pe : Nat) (out : NatMap NodeLists) (e : Nat × List Nat) :
    NatMap NodeLists :=
  if layout.owner e.1 = pe then out
  else out.upsert (layout.owner e.1) fun batch => (batch.getD ∅).insert e.1 e.2

theorem mem_keys_addToBatch {out : NatMap NodeLists} {e : Nat × List Nat} :
    q ∈ (addToBatch layout pe out e).keys ↔ q ∈ out.keys ∨ q ≠ pe ∧ layout.owner e.1 = q := by
  unfold addToBatch
  split
  · next ho =>
    rw [or_iff_left]
    rintro ⟨hne, rfl⟩
    exact hne ho
  · next ho =>
    simp only [NatMap.mem_keys, NatMap.get?_upsert]
    by_cases hq : q = layout.owner e.1
    · simp [hq, ho]
    · simp [hq, Ne.symm hq]

theorem get?_addToBatch {out : NatMap NodeLists} {e : Nat × List Nat} :
    (((addToBatch layout pe out e).get? q).getD ∅).get? c =
      if q ≠ pe ∧ layout.owner e.1 = q ∧ c = e.1 then some e.2
      else ((out.get? q).getD ∅).get? c := by
  unfold addToBatch
  by_cases ho : layout.owner e.1 = pe
  · rw [if_pos ho, if_neg]
    rintro ⟨hne, rfl, -⟩
    exact hne ho
  · rw [if_neg ho, NatMap.get?_upsert]
    by_cases hq : q = layout.owner e.1
    · subst hq
      rw [if_pos rfl, Option.getD_some, NatMap.get?_insert]
      simp [ho]
    · simp [hq, Ne.symm hq]

theorem mem_keys_foldl_addToBatch :
    q ∈ (l.foldl (addToBatch layout pe) ∅).keys ↔ q ≠ pe ∧ ∃ e ∈ l, layout.owner e.1 = q := by
  induction l using List.reverseRecOn with
  | nil => simp
  | append_singleton l e ih =>
    rw [List.foldl_append, List.foldl_cons, List.foldl_nil, mem_keys_addToBatch, ih]
    simp only [List.mem_append, List.mem_singleton, or_and_right, exists_or, exists_eq_left]
    rw [← and_or_left]

theorem get?_foldl_addToBatch (hnodup : (l.map Prod.fst).Nodup) {b : List Nat} :
    (((l.foldl (addToBatch layout pe) ∅).get? q).getD ∅).get? c = some b ↔
      q ≠ pe ∧ layout.owner c = q ∧ (c, b) ∈ l := by
  induction l using List.reverseRecOn with
  | nil => simp
  | append_singleton l e ih =>
    rw [List.map_append, List.nodup_append] at hnodup
    obtain ⟨hl, -, hdisj⟩ := hnodup
    rw [List.foldl_append, List.foldl_cons, List.foldl_nil, get?_addToBatch, List.mem_append,
      List.mem_singleton]
    obtain ⟨ce, be⟩ := e
    split
    · next h =>
      obtain ⟨hne, ho, rfl⟩ := h
      have hnew : (c, b) ∉ l := fun hm => hdisj c (List.mem_map_of_mem hm) c (by simp) rfl
      simp [hne, ho, hnew, eq_comm]
    · next h =>
      rw [ih hl]
      refine and_congr_right fun hne => and_congr_right fun ho => ?_
      rw [or_iff_left]
      rintro heq
      obtain ⟨rfl, rfl⟩ := Prod.mk.inj heq
      exact h ⟨hne, ho, rfl⟩

theorem isEmpty_owned_eq_false_iff {chares : NodeLists} :
    (chares.filterKeys fun c => layout.owner c = q).isEmpty = false ↔
      ∃ e ∈ chares.entries, layout.owner e.1 = q := by
  rw [← Bool.not_eq_true, NatMap.isEmpty_iff, not_forall]
  simp only [NatMap.get?_filterKeys, decide_eq_true_eq, ← ne_eq, Option.ne_none_iff_exists']
  constructor
  · rintro ⟨c, b, hb⟩
    split at hb
    · next ho => exact ⟨(c, b), NatMap.get?_eq_some_iff.1 hb, ho⟩
    · cases hb
  · rintro ⟨e, he, ho⟩
    exact ⟨e.1, e.2, by rw [if_pos ho]; exact NatMap.get?_eq_some_iff.2 he⟩

theorem get?_batches {chares a : NodeLists} :
    (batches layout pe chares).get? q = some a ↔
      q ≠ pe ∧ (chares.filterKeys fun c => layout.owner c = q).isEmpty = false ∧
        a = chares.filterKeys fun c => layout.owner c = q := by
  have hbatches : batches layout pe chares = chares.entries.foldl (addToBatch layout pe) ∅ := rfl
  have hkeys : (∃ a, (batches layout pe chares).get? q = some a) ↔
      q ≠ pe ∧ (chares.filterKeys fun c => layout.owner c = q).isEmpty = false := by
    rw [← NatMap.mem_keys, hbatches, mem_keys_foldl_addToBatch, isEmpty_owned_eq_false_iff]
  have heq : ∀ a, (batches layout pe chares).get? q = some a →
      a = chares.filterKeys fun c => layout.owner c = q := by
    intro a ha
    have hq := (hkeys.1 ⟨a, ha⟩).1
    apply NatMap.ext
    intro c
    apply Option.ext
    intro b
    have hc : (((chares.entries.foldl (addToBatch layout pe) ∅).get? q).getD ∅).get? c = some b ↔
        q ≠ pe ∧ layout.owner c = q ∧ (c, b) ∈ chares.entries :=
      get?_foldl_addToBatch (NatSet.nodup_elems chares.keys)
    rw [← hbatches, ha, Option.getD_some] at hc
    rw [hc, NatMap.get?_filterKeys, ← NatMap.get?_eq_some_iff]
    by_cases ho : layout.owner c = q <;> simp [ho, hq]
  constructor
  · intro h
    obtain ⟨hq, hex⟩ := hkeys.1 ⟨a, h⟩
    exact ⟨hq, hex, heq a h⟩
  · rintro ⟨hq, hex, rfl⟩
    obtain ⟨a, ha⟩ := hkeys.2 ⟨hq, hex⟩
    rw [ha, heq a ha]

end

structure At (x : Shipment) (t : Scenario) (pe : Nat) (batches receipts : Nat → Prop) : Prop where
  pe_eq : x.pe = pe
  layout_eq : x.layout = t.layout
  packed : x.packed = true
  received_iff : ∀ q a, x.received.get? q = some a ↔
    q < t.npes ∧ (t.part q pe).isEmpty = false ∧ a = t.part q pe ∧ (q = pe ∨ batches q)
  awaiting_iff : ∀ q, q ∈ x.awaiting ↔ t.Passes .batch pe q ∧ ¬ receipts q

variable {x : Shipment} {t : Scenario} {pe q : Nat} {batches receipts : Nat → Prop}

theorem get?_pack (hpe : pe < t.npes) (q : Nat) (a : NodeLists) : ((start pe t.layout).pack
    (.ofAssignment (t.assignment pe) (t.chunk pe).connectivity)).1.get? q = some a ↔
      t.Passes .batch pe q ∧ a = t.part pe q := by
  apply get?_batches.trans
  constructor
  · rintro ⟨hne, hp, ha⟩
    refine ⟨⟨hpe, ?_, hne.symm, hp⟩, ha⟩
    rw [← Bool.not_eq_true, NatMap.isEmpty_iff, not_forall] at hp
    obtain ⟨c, hc⟩ := hp
    rw [NatMap.get?_filterKeys] at hc
    split at hc
    · next ho =>
      obtain rfl := of_decide_eq_true ho
      exact Scenario.owner_lt (Nat.zero_lt_of_lt hpe) c
    · exact absurd rfl hc
  · rintro ⟨⟨-, -, hne, hp⟩, ha⟩
    exact ⟨hne.symm, hp, ha⟩

theorem at_pack (hpe : pe < t.npes) : ((start pe t.layout).pack
    (.ofAssignment (t.assignment pe) (t.chunk pe).connectivity)).2.At t pe
      (fun _ => False) fun _ => False := by
  refine ⟨rfl, rfl, rfl, fun q a => ?_, fun q => ?_⟩
  · show (if (t.part pe pe).isEmpty then (∅ : NatMap NodeLists)
      else NatMap.insert ∅ pe (t.part pe pe)).get? q = some a ↔ _
    split
    · next he =>
      simp only [NatMap.get?_empty, reduceCtorEq, or_false, false_iff]
      rintro ⟨-, hne, -, rfl⟩
      simp [he] at hne
    · next he =>
      rw [NatMap.get?_insert]
      by_cases hq : q = pe
      · subst hq
        simp [he, hpe, eq_comm]
      · simp [hq]
  · show q ∈ ((start pe t.layout).pack
      (.ofAssignment (t.assignment pe) (t.chunk pe).connectivity)).1.keys ↔ _
    rw [NatMap.mem_keys]
    simp only [get?_pack hpe]
    constructor
    · rintro ⟨a, hp, -⟩
      exact ⟨hp, not_false⟩
    · rintro ⟨hp, -⟩
      exact ⟨_, hp, rfl⟩

/-! What taking something in changes, whoever it comes from. -/

theorem unpack_eq_ok_iff {chares : NodeLists} {x' : Shipment} : x.unpack q chares = .ok x' ↔
    foreign? x.layout x.pe chares = none ∧ q ≠ x.pe ∧ x.received.get? q = none ∧
      x' = { x with received := x.received.insert q chares } := by
  unfold Shipment.unpack
  split
  · next c hc => simp [hc]
  · next hc =>
    rw [NatMap.contains]
    split
    · next hr =>
      simp only [reduceCtorEq, false_iff]
      rintro ⟨-, hne, hnone, -⟩
      simp [hne, hnone] at hr
    · next hr =>
      rw [not_or, Option.not_isSome_iff_eq_none] at hr
      simp [hc, hr, eq_comm]

theorem book_eq_ok_iff {x' : Shipment} : x.book q = .ok x' ↔
    q ∈ x.awaiting ∧ x' = { x with awaiting := x.awaiting.filter fun p => p != q } := by
  unfold Shipment.book
  split
  · next hmem => simp [hmem, eq_comm]
  · next hmem => simp [hmem]

/-! Taking in what is expected. -/

theorem holdings_of (t : Scenario) (pe : Nat) :
    Holdings.of t.layout pe (t.nodes pe) = .ok (t.holdings pe) ∨
      ∃ c, Holdings.of t.layout pe (t.nodes pe) = .error (.emptyChare pe c) := by
  rw [Holdings.of_eq_of_owned fun c => Scenario.owns_of_mem_nodes]
  split
  · exact .inr ⟨_, rfl⟩
  · exact .inl rfl

theorem At.unpack (h : x.At t pe batches receipts) (hp : t.Passes .batch q pe) (hq : ¬ batches q) :
    ∃ x', x.unpack q (t.part q pe) = .ok x' ∧ x'.At t pe (fun j => batches j ∨ j = q) receipts := by
  obtain ⟨hqn, -, hne, hpart⟩ := hp
  have hnone : x.received.get? q = none := Option.eq_none_iff_forall_ne_some.2 fun a ha => by
    obtain ⟨-, -, -, heq | hb⟩ := (h.received_iff q a).1 ha
    · exact hne heq
    · exact hq hb
  have hforeign : foreign? x.layout x.pe (t.part q pe) = none := by
    rw [h.layout_eq, h.pe_eq]
    exact foreign?_eq_none_iff.2 fun c => Scenario.owns_of_mem_part
  refine ⟨_, unpack_eq_ok_iff.2 ⟨hforeign, h.pe_eq.symm ▸ hne, hnone, rfl⟩,
    h.pe_eq, h.layout_eq, h.packed, fun j a => ?_, h.awaiting_iff⟩
  rw [NatMap.get?_insert]
  by_cases hj : j = q
  · subst hj
    simp [hqn, hpart, eq_comm]
  · rw [if_neg hj, h.received_iff]
    simp only [hj, or_false]

theorem At.of_unpack (h : x.At t pe batches receipts) (hp : t.Passes .batch q pe) {x' : Shipment}
    (hx : x.unpack q (t.part q pe) = .ok x') :
    x'.At t pe (fun j => batches j ∨ j = q) receipts := by
  by_cases hq : batches q
  · obtain ⟨-, -, hnone, -⟩ := unpack_eq_ok_iff.1 hx
    rw [(h.received_iff q _).2 ⟨hp.1, hp.2.2.2, rfl, .inr hq⟩] at hnone
    cases hnone
  · obtain ⟨x'', hx'', hat⟩ := h.unpack hp hq
    rw [hx''] at hx
    exact Except.ok.inj hx ▸ hat

theorem At.unpack_error (h : x.At t pe batches receipts) {e : Fault} (hp : t.Passes .batch q pe)
    (he : x.unpack q (t.part q pe) = .error e) : batches q ∧ e.isRemote = false := by
  refine ⟨by_contra fun hq => ?_, ?_⟩
  · obtain ⟨x', hx', -⟩ := h.unpack hp hq
    rw [hx'] at he
    cases he
  · unfold Shipment.unpack at he
    split at he
    · exact Except.error.inj he ▸ rfl
    · split at he
      · exact Except.error.inj he ▸ rfl
      · cases he

theorem At.book (h : x.At t pe batches receipts) (hp : t.Passes .batch pe q) (hq : ¬ receipts q) :
    ∃ x', x.book q = .ok x' ∧ x'.At t pe batches fun j => receipts j ∨ j = q := by
  have hmem : q ∈ x.awaiting := (h.awaiting_iff q).2 ⟨hp, hq⟩
  refine ⟨_, book_eq_ok_iff.2 ⟨hmem, rfl⟩, h.pe_eq, h.layout_eq, h.packed, h.received_iff,
    fun j => ?_⟩
  simp only [NatSet.mem_filter, h.awaiting_iff, bne_iff_ne, not_or, ne_eq, and_assoc]

theorem At.of_book (h : x.At t pe batches receipts) (hp : t.Passes .batch pe q) {x' : Shipment}
    (hx : x.book q = .ok x') : x'.At t pe batches fun j => receipts j ∨ j = q := by
  by_cases hq : receipts q
  · exact absurd hq ((h.awaiting_iff q).1 (book_eq_ok_iff.1 hx).1).2
  · obtain ⟨x'', hx'', hat⟩ := h.book hp hq
    rw [hx''] at hx
    exact Except.ok.inj hx ▸ hat

theorem At.book_error (h : x.At t pe batches receipts) {e : Fault} (hp : t.Passes .batch pe q)
    (he : x.book q = .error e) : receipts q ∧ e.isRemote = false := by
  refine ⟨by_contra fun hq => ?_, ?_⟩
  · obtain ⟨x', hx', -⟩ := h.book hp hq
    rw [hx'] at he
    cases he
  · unfold Shipment.book at he
    split at he
    · cases he
    · exact Except.error.inj he ▸ rfl

theorem At.isDelivered_iff (h : x.At t pe batches receipts) :
    x.isDelivered = true ↔ ∀ q, t.Passes .batch pe q → receipts q := by
  rw [isDelivered, decide_eq_true_eq, h.packed, NatSet.isEmpty_iff]
  simp only [h.awaiting_iff, true_and, not_and, not_not]

theorem At.contents_eq (h : x.At t pe batches receipts)
    (hall : ∀ q, t.Passes .batch q pe → batches q) (hpe : pe < t.npes) :
    x.contents = t.nodes pe := by
  have hrec : x.received = t.received pe := NatMap.ext fun q => Option.ext fun a => by
    rw [h.received_iff, Scenario.get?_received]
    refine and_congr_right fun hq => and_congr_right fun hp => and_iff_left ?_
    by_cases heq : q = pe
    · exact .inl heq
    · exact .inr (hall q ⟨hq, hpe, heq, hp⟩)
  rw [contents, hrec]
  rfl

end MeshNumbering.Shipment
