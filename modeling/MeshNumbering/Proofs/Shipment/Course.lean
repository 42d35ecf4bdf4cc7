import MeshNumbering.Proofs.Shipment

/-! A shipment over its whole course. Own lists are packed once, while batches and receipts may come
in any order, from anybody and any number of times. What the shipment holds depends only on what
each source says first. -/

namespace MeshNumbering.Shipment

/-- What happens to a shipment: own lists are packed, or a batch or a receipt comes in. -/
inductive Move where
  | pack (chares : NodeLists)
  | unpack (sender : Nat) (chares : NodeLists)
  | book (sender : Nat)
deriving DecidableEq

def Move.packed? : Move → Option NodeLists
  | .pack chares => some chares
  | _ => none

def kept (l : Layout) (pe : Nat) (chares : NodeLists) : NodeLists :=
  chares.filterKeys fun c => l.owner c = pe

def Move.part? (l : Layout) (pe q : Nat) : Move → Option NodeLists
  | .pack chares =>
    if q = pe ∧ (kept l pe chares).isEmpty = false then some (kept l pe chares) else none
  | .unpack sender chares =>
    if sender = q ∧ q ≠ pe ∧ foreign? l pe chares = none then some chares else none
  | .book _ => none

def move (s : Shipment) : Move → Except Fault Shipment
  | .pack chares => .ok (s.pack chares).2
  | .unpack sender chares => s.unpack sender chares
  | .book sender => s.book sender

def advance (t : List Move × Shipment) (m : Move) : List Move × Shipment :=
  match t.2.move m with
  | .ok s => (t.1 ++ [m], s)
  | .error _ => t

def follow (s : Shipment) (moves : List Move) : List Move × Shipment := moves.foldl advance ([], s)

/-- The shipment of `pe` after `moves`, of which it accepted those in `log`. -/
structure OnCourse (s : Shipment) (l : Layout) (pe : Nat) (moves log : List Move) : Prop where
  pe_eq : s.pe = pe
  layout_eq : s.layout = l
  received_eq : ∀ q, s.received.get? q = moves.findSome? (Move.part? l pe q)
  packed_iff : s.packed = true ↔ ∃ chares, .pack chares ∈ moves
  packed_log : ∀ chares, .pack chares ∈ log ↔ .pack chares ∈ moves
  awaiting_iff : ∀ q, q ∈ s.awaiting ↔
    (∃ chares, .pack chares ∈ moves ∧ q ∈ (batches l pe chares).keys) ∧ .book q ∉ log
  booked : ∀ q, .book q ∈ log → ∃ chares, .pack chares ∈ moves ∧ q ∈ (batches l pe chares).keys
  booked_once : ∀ q, log.count (.book q) ≤ 1
  accepted_iff : ∀ q b, .unpack q b ∈ log ↔ q ≠ pe ∧ moves.findSome? (Move.part? l pe q) = some b
  replayed : (start pe l).follow log = (log, s)

section
variable {s s' : Shipment} {l : Layout} {pe q sender : Nat} {moves log : List Move} {m : Move}
  {chares b : NodeLists} {t : List Move × Shipment}

theorem follow_concat : s.follow (moves ++ [m]) = advance (s.follow moves) m := List.foldl_concat ..

theorem follow_of_ok (hlog : (start pe l).follow log = (log, s)) (hm : s.move m = .ok s') :
    (start pe l).follow (log ++ [m]) = (log ++ [m], s') := by
  rw [follow_concat, hlog, advance, hm]

theorem onCourse_start : (start pe l).OnCourse l pe [] [] where
  pe_eq := rfl
  layout_eq := rfl
  received_eq _ := rfl
  packed_iff := by simp [start]
  packed_log _ := Iff.rfl
  awaiting_iff q := by simp [start]
  booked q hq := by cases hq
  booked_once q := Nat.zero_le 1
  accepted_iff q b := by simp
  replayed := rfl

theorem findSome?_part?_self (hnone : ∀ chares, .pack chares ∉ moves) :
    moves.findSome? (Move.part? l pe pe) = none := by
  rw [List.findSome?_eq_none_iff]
  intro m hm
  cases m with
  | pack chares => exact absurd hm (hnone chares)
  | unpack sender chares => simp [Move.part?]
  | book sender => rfl

theorem findSome?_concat : (moves ++ [m]).findSome? (Move.part? l pe q) =
    (moves.findSome? (Move.part? l pe q)).or (m.part? l pe q) := by
  simp

theorem pack_snd (hpe : s.pe = pe) (hl : s.layout = l) : (s.pack chares).2 =
    { s with
      received := if (kept l pe chares).isEmpty then s.received
        else s.received.insert pe (kept l pe chares)
      awaiting := (batches l pe chares).keys
      packed := true } := by
  unfold Shipment.pack kept
  rw [hpe, hl]

theorem OnCourse.pack (h : s.OnCourse l pe moves log) (hnone : ∀ chares, .pack chares ∉ moves) :
    (s.pack chares).2.OnCourse l pe (moves ++ [.pack chares]) (log ++ [.pack chares]) := by
  have hpacked : ∀ c, .pack c ∈ moves ++ [Move.pack chares] ↔ c = chares := by
    simp [hnone]
  -- Before the lists are packed nobody owes a receipt.
  have hunbooked : ∀ q, .book q ∉ log := fun q hq => by
    obtain ⟨c, hc, -⟩ := h.booked q hq
    exact hnone c hc
  refine
    { pe_eq := h.pe_eq
      layout_eq := h.layout_eq
      received_eq := fun q => ?_
      packed_iff := by simp [Shipment.pack]
      packed_log := fun c => by simp [h.packed_log]
      awaiting_iff := fun q => ?_
      booked := fun q hq => ?_
      booked_once := fun q => ?_
      accepted_iff := fun q b => ?_
      replayed := follow_of_ok h.replayed rfl }
  · rw [pack_snd h.pe_eq h.layout_eq, findSome?_concat, ← h.received_eq, Move.part?]
    cases he : (kept l pe chares).isEmpty with
    | true => simp
    | false =>
      simp only [Bool.false_eq_true, if_false, NatMap.get?_insert, and_true]
      by_cases hq : q = pe
      · subst hq
        rw [h.received_eq, findSome?_part?_self hnone]
        simp
      · simp [hq]
  · rw [pack_snd h.pe_eq h.layout_eq]
    simp [hpacked, hunbooked]
  · simp [hunbooked] at hq
  · simp [List.count_append, List.count_eq_zero.2 (hunbooked q)]
  · rw [findSome?_concat, List.mem_append, h.accepted_iff]
    by_cases hq : q = pe <;> simp [hq, Move.part?]

theorem OnCourse.pass (h : s.OnCourse l pe moves log) (hm : ∀ chares, m ≠ .pack chares)
    (hold : ∀ q b, m.part? l pe q = some b → ∃ b', s.received.get? q = some b') :
    s.OnCourse l pe (moves ++ [m]) log := by
  have hsame : ∀ q, (moves ++ [m]).findSome? (Move.part? l pe q) =
      moves.findSome? (Move.part? l pe q) := fun q => by
    rw [findSome?_concat]
    cases hp : m.part? l pe q with
    | none => exact Option.or_none
    | some b =>
      obtain ⟨b', hb'⟩ := hold q b hp
      rw [← h.received_eq, hb']
      rfl
  have hpacks : ∀ chares, .pack chares ∈ moves ++ [m] ↔ .pack chares ∈ moves := fun chares => by
    rw [List.mem_append, List.mem_singleton]
    exact or_iff_left (hm chares).symm
  exact
    { h with
      received_eq := fun q => by rw [hsame, h.received_eq]
      packed_iff := by simp only [hpacks, h.packed_iff]
      packed_log := fun c => by rw [hpacks, h.packed_log]
      awaiting_iff := fun q => by simp only [hpacks, h.awaiting_iff]
      booked := fun q hq => by simpa only [hpacks] using h.booked q hq
      accepted_iff := fun q b => by rw [hsame, h.accepted_iff] }

theorem OnCourse.unpack (h : s.OnCourse l pe moves log)
    (hs : s.unpack sender chares = .ok s') :
    s'.OnCourse l pe (moves ++ [.unpack sender chares]) (log ++ [.unpack sender chares]) := by
  have hreplayed := follow_of_ok (m := .unpack sender chares) h.replayed hs
  obtain ⟨hforeign, hne, hnone, rfl⟩ := unpack_eq_ok_iff.1 hs
  rw [h.layout_eq, h.pe_eq] at hforeign
  rw [h.pe_eq] at hne
  rw [h.received_eq] at hnone
  have hpart : ∀ q, (moves ++ [Move.unpack sender chares]).findSome? (Move.part? l pe q) =
      if q = sender then some chares else moves.findSome? (Move.part? l pe q) := fun q => by
    rw [findSome?_concat, Move.part?]
    by_cases hq : q = sender
    · subst hq
      simp [hnone, hne, hforeign]
    · simp [hq, Ne.symm hq]
  refine
    { pe_eq := h.pe_eq
      layout_eq := h.layout_eq
      received_eq := fun q => by rw [hpart, NatMap.get?_insert, h.received_eq]
      packed_iff := by simpa using h.packed_iff
      packed_log := fun c => by simpa using h.packed_log c
      awaiting_iff := fun q => by simpa using h.awaiting_iff q
      booked := fun q hq => by simpa using h.booked q (by simpa using hq)
      booked_once := fun q => by simpa [List.count_append] using h.booked_once q
      accepted_iff := fun q b => ?_
      replayed := hreplayed }
  rw [hpart, List.mem_append, List.mem_singleton, h.accepted_iff, Move.unpack.injEq]
  by_cases hq : q = sender
  · subst hq
    simp [hnone, hne, eq_comm]
  · simp [hq]

theorem OnCourse.unpack_refused (h : s.OnCourse l pe moves log) {e : Fault}
    (hs : s.unpack sender chares = .error e) :
    s.OnCourse l pe (moves ++ [.unpack sender chares]) log := by
  refine h.pass (by simp) fun q b hp => ?_
  simp only [Move.part?] at hp
  split at hp
  · next hq =>
    obtain ⟨rfl, hne, hforeign⟩ := hq
    refine Option.ne_none_iff_exists'.1 fun hnone => ?_
    have hok := unpack_eq_ok_iff.2 ⟨by rw [h.layout_eq, h.pe_eq]; exact hforeign,
      by rw [h.pe_eq]; exact hne, hnone, rfl⟩
    rw [hs] at hok
    cases hok
  · cases hp

theorem OnCourse.book (h : s.OnCourse l pe moves log) (hs : s.book sender = .ok s') :
    s'.OnCourse l pe (moves ++ [.book sender]) (log ++ [.book sender]) := by
  have hreplayed := follow_of_ok (m := .book sender) h.replayed hs
  obtain ⟨hmem, rfl⟩ := book_eq_ok_iff.1 hs
  obtain ⟨hdestination, hunbooked⟩ := (h.awaiting_iff sender).1 hmem
  have hpass := h.pass (m := .book sender) (by simp) fun q b hp => by cases hp
  refine { hpass with packed_log := fun c => by simpa using h.packed_log c,
                      awaiting_iff := fun q => ?_, booked := fun q hq => ?_,
                      booked_once := fun q => ?_, accepted_iff := fun q b => ?_,
                      replayed := hreplayed }
  · rw [NatSet.mem_filter, hpass.awaiting_iff]
    simp [and_assoc]
  · rcases List.mem_append.1 hq with hq | hq
    · exact hpass.booked q hq
    · obtain rfl : q = sender := by simpa using hq
      exact ((hpass.awaiting_iff q).1 hmem).1
  · rw [List.count_append]
    by_cases hq : q = sender
    · subst hq
      simp [List.count_eq_zero.2 hunbooked]
    · have hother : [Move.book sender].count (.book q) = 0 :=
        List.count_eq_zero.2 (by simpa using hq)
      rw [hother]
      exact h.booked_once q
  · simpa using hpass.accepted_iff q b

theorem mem_filterMap_packed? : chares ∈ moves.filterMap Move.packed? ↔ .pack chares ∈ moves := by
  rw [List.mem_filterMap]
  constructor
  · rintro ⟨m, hm, hpacked⟩
    cases m with
    | pack c => exact Option.some.inj hpacked ▸ hm
    | unpack => cases hpacked
    | book => cases hpacked
  · exact fun hm => ⟨_, hm, rfl⟩

theorem not_mem_of_packed_once {before after : List Move}
    (honce : ((before ++ .pack chares :: after).filterMap Move.packed?).length ≤ 1)
    (c : NodeLists) : .pack c ∉ before := by
  intro hc
  have hpos := List.length_pos_of_mem (mem_filterMap_packed?.2 hc)
  rw [List.filterMap_append, List.length_append,
    List.filterMap_cons_some (f := Move.packed?) rfl, List.length_cons] at honce
  omega

theorem OnCourse.advance (h : t.2.OnCourse l pe moves t.1)
    (hm : ∀ chares, m = .pack chares → ∀ c, .pack c ∉ moves) :
    (Shipment.advance t m).2.OnCourse l pe (moves ++ [m]) (Shipment.advance t m).1 := by
  unfold Shipment.advance
  cases m with
  | pack chares => exact h.pack (hm chares rfl)
  | unpack sender chares =>
    rw [move]
    split
    · next s hs => exact h.unpack hs
    · next e he => exact h.unpack_refused he
  | book sender =>
    rw [move]
    split
    · next s hs => exact h.book hs
    · next e he => exact h.pass (by simp) fun q b hp => by cases hp

theorem follow_onCourse (honce : (moves.filterMap Move.packed?).length ≤ 1) :
    ((start pe l).follow moves).2.OnCourse l pe moves ((start pe l).follow moves).1 := by
  induction moves using List.reverseRecOn with
  | nil => exact onCourse_start
  | append_singleton moves m ih =>
    have hfewer : (moves.filterMap Move.packed?).length ≤ 1 := by
      rw [List.filterMap_append, List.length_append] at honce
      exact Nat.le_of_add_right_le honce
    rw [follow_concat]
    refine (ih hfewer).advance ?_
    rintro chares rfl
    exact not_mem_of_packed_once honce

def portion (packed : NatMap NodeLists × Shipment) (pe q : Nat) : NodeLists :=
  ((if q = pe then packed.2.received else packed.1).get? q).getD ∅

def source (l : Layout) (pe : Nat) (moves : List Move) (q : Nat) : NodeLists :=
  (moves.findSome? (Move.part? l pe q)).getD ∅

theorem OnCourse.pack_fst (h : s.OnCourse l pe moves log) :
    (s.pack chares).1 = batches l pe chares := by
  unfold Shipment.pack
  rw [h.pe_eq, h.layout_eq]

theorem OnCourse.portion_eq (h : s.OnCourse l pe moves log)
    (hnone : ∀ chares, .pack chares ∉ moves) :
    portion (s.pack chares) pe q = kept l q chares := by
  unfold portion
  apply NatMap.getD_eq_of_filled
  intro a
  split
  · next hq =>
    subst hq
    rw [pack_snd h.pe_eq h.layout_eq]
    cases he : (kept l q chares).isEmpty with
    | true => simp [h.received_eq, findSome?_part?_self hnone]
    | false => simp [eq_comm]
  · next hq =>
    rw [h.pack_fst, get?_batches]
    exact and_iff_right hq

theorem part?_eq_some (h : m.part? l pe q = some b) :
    (∃ chares, m = .pack chares ∧ q = pe ∧ b = kept l pe chares) ∨
      m = .unpack q b ∧ foreign? l pe b = none := by
  cases m with
  | pack chares =>
    simp only [Move.part?] at h
    split at h
    · next hq => exact .inl ⟨chares, rfl, hq.1, (Option.some.inj h).symm⟩
    · cases h
  | unpack sender chares =>
    simp only [Move.part?] at h
    split at h
    · next hq =>
      obtain rfl := Option.some.inj h
      exact .inr ⟨by rw [hq.1], hq.2.2⟩
    · cases h
  | book sender => cases h

theorem owns_of_kept (hlt : ∀ c, c ∈ chares.keys → c < l.nchare) {c : Nat}
    (hc : c ∈ (kept l q chares).keys) : l.owns q c = true := by
  obtain ⟨nodes, hn⟩ := NatMap.mem_keys.1 hc
  rw [kept, NatMap.get?_filterKeys] at hn
  split at hn
  · next ho => exact Layout.owns_iff.2 ⟨hlt c (NatMap.mem_keys.2 ⟨nodes, hn⟩), of_decide_eq_true ho⟩
  · cases hn

theorem source_of_findSome? (h : moves.findSome? (Move.part? l pe q) = some b) :
    (q = pe ∧ ∃ chares, .pack chares ∈ moves ∧ b = kept l pe chares) ∨
      .unpack q b ∈ moves ∧ foreign? l pe b = none := by
  obtain ⟨m, hm, hpart⟩ := List.exists_of_findSome?_eq_some h
  rcases part?_eq_some hpart with ⟨chares, rfl, hq, hb⟩ | ⟨rfl, hb⟩
  · exact .inl ⟨hq, chares, hm, hb⟩
  · exact .inr ⟨hm, hb⟩

theorem mem_keys_source {c : Nat} : c ∈ (source l pe moves q).keys ↔
    ∃ b, moves.findSome? (Move.part? l pe q) = some b ∧ c ∈ b.keys := by
  unfold source
  cases moves.findSome? (Move.part? l pe q) with
  | none =>
    have hempty : ¬ c ∈ (∅ : NodeLists).keys := NatSet.not_mem_empty
    simp [hempty]
  | some b => simp

theorem OnCourse.mem_keys_contents (h : s.OnCourse l pe moves log) {c : Nat} :
    c ∈ s.contents.keys ↔ ∃ q, c ∈ (source l pe moves q).keys := by
  simp only [contents, NodeLists.keys_concat, NatMap.mem_values, h.received_eq, mem_keys_source]
  constructor
  · rintro ⟨b, ⟨q, hq⟩, hc⟩
    exact ⟨q, b, hq, hc⟩
  · rintro ⟨q, b, hq, hc⟩
    exact ⟨b, ⟨q, hq⟩, hc⟩

theorem lt_of_findSome? {bound : Nat} (hpe : pe < bound)
    (hmoves : ∀ q b, .unpack q b ∈ moves → q < bound)
    (h : moves.findSome? (Move.part? l pe q) = some b) : q < bound := by
  rcases source_of_findSome? h with ⟨rfl, -⟩ | ⟨hm, -⟩
  · exact hpe
  · exact hmoves q b hm

theorem OnCourse.get?_contents (h : s.OnCourse l pe moves log) {bound c : Nat} {nodes : List Nat}
    (hpe : pe < bound) (hmoves : ∀ q b, .unpack q b ∈ moves → q < bound) :
    s.contents.get? c = some nodes ↔ (∃ q < bound, c ∈ (source l pe moves q).keys) ∧
      nodes = (List.range bound).flatMap fun q => (source l pe moves q).ofChare c := by
  have hbound : ∀ q b, s.received.get? q = some b → q < bound := fun q b hq =>
    lt_of_findSome? hpe hmoves ((h.received_eq q).symm.trans hq)
  have hlists : s.contents.ofChare c =
      (List.range bound).flatMap fun q => (source l pe moves q).ofChare c := by
    rw [contents, NodeLists.ofChare_concat_values hbound]
    simp only [h.received_eq, source]
  have hkeys : (∃ q, c ∈ (source l pe moves q).keys) ↔
      ∃ q < bound, c ∈ (source l pe moves q).keys := by
    constructor
    · rintro ⟨q, hc⟩
      obtain ⟨b, hb, -⟩ := mem_keys_source.1 hc
      exact ⟨q, lt_of_findSome? hpe hmoves hb, hc⟩
    · rintro ⟨q, -, hc⟩
      exact ⟨q, hc⟩
  rw [NodeLists.get?_eq_some_iff_ofChare, h.mem_keys_contents, hlists, hkeys]

theorem OnCourse.contents_owned (h : s.OnCourse l pe moves log)
    (hlt : ∀ chares, .pack chares ∈ moves → ∀ c, c ∈ chares.keys → c < l.nchare) {c : Nat}
    (hc : c ∈ s.contents.keys) : l.owns pe c = true := by
  obtain ⟨q, hq⟩ := h.mem_keys_contents.1 hc
  obtain ⟨b, hb, hcb⟩ := mem_keys_source.1 hq
  rcases source_of_findSome? hb with ⟨-, chares, hm, rfl⟩ | ⟨-, hforeign⟩
  · exact owns_of_kept (hlt chares hm) hcb
  · exact foreign?_eq_none_iff.1 hforeign _ hcb

theorem packed_unique (honce : (moves.filterMap Move.packed?).length ≤ 1) {chares' : NodeLists}
    (hm : .pack chares ∈ moves) (hm' : .pack chares' ∈ moves) : chares = chares' := by
  have hmem := mem_filterMap_packed?.2 hm
  have hmem' := mem_filterMap_packed?.2 hm'
  obtain ⟨c, hc⟩ :=
    List.length_eq_one_iff.1 (Nat.le_antisymm honce (List.length_pos_of_mem hmem))
  rw [hc, List.mem_singleton] at hmem hmem'
  rw [hmem, hmem']

theorem findSome?_self_iff (honce : (moves.filterMap Move.packed?).length ≤ 1) :
    moves.findSome? (Move.part? l pe pe) = some b ↔
      ∃ chares, .pack chares ∈ moves ∧ (Move.pack chares).part? l pe pe = some b := by
  have hfound : ∀ {b}, moves.findSome? (Move.part? l pe pe) = some b →
      ∃ chares, .pack chares ∈ moves ∧ (Move.pack chares).part? l pe pe = some b := by
    intro b hb
    obtain ⟨m, hm, hpart⟩ := List.exists_of_findSome?_eq_some hb
    cases m with
    | pack chares => exact ⟨chares, hm, hpart⟩
    | unpack sender chares => simp [Move.part?] at hpart
    | book sender => cases hpart
  refine ⟨hfound, fun ⟨chares, hm, hpart⟩ => ?_⟩
  cases hb : moves.findSome? (Move.part? l pe pe) with
  | none =>
    rw [List.findSome?_eq_none_iff] at hb
    rw [hb _ hm] at hpart
    cases hpart
  | some b' =>
    obtain ⟨chares', hm', hpart'⟩ := hfound hb
    obtain rfl := packed_unique honce hm hm'
    rw [← hpart', hpart]

theorem OnCourse.contents_congr {s' : Shipment} {moves' log' : List Move}
    (h : s.OnCourse l pe moves log) (h' : s'.OnCourse l pe moves' log')
    (honce : (moves.filterMap Move.packed?).length ≤ 1)
    (honce' : (moves'.filterMap Move.packed?).length ≤ 1)
    (hpack : ∀ chares, .pack chares ∈ log' ↔ .pack chares ∈ log)
    (hunpack : ∀ q b, .unpack q b ∈ log' ↔ .unpack q b ∈ log) : s'.contents = s.contents := by
  have hreceived : s'.received = s.received := by
    ext q : 1
    apply Option.ext
    intro b
    rw [h.received_eq, h'.received_eq]
    by_cases hq : q = pe
    · subst hq
      simp only [findSome?_self_iff honce, findSome?_self_iff honce', ← h.packed_log,
        ← h'.packed_log, hpack]
    · have hiff := hunpack q b
      simpa only [h.accepted_iff, h'.accepted_iff, ne_eq, hq, not_false_eq_true, true_and]
        using hiff
  rw [contents, hreceived, contents]

theorem OnCourse.batch_owned (h : s.OnCourse l pe moves log)
    (hlt : ∀ c, c ∈ chares.keys → c < l.nchare) (hb : (s.pack chares).1.get? q = some b) :
    q ≠ pe ∧ q < l.npes ∧ (∃ c, c ∈ b.keys) ∧ ∀ c, c ∈ b.keys → l.owns q c = true := by
  rw [h.pack_fst, get?_batches] at hb
  obtain ⟨hne, hfilled, rfl⟩ := hb
  have howned : ∀ c, c ∈ (kept l q chares).keys → l.owns q c = true := fun c => owns_of_kept hlt
  obtain ⟨e, he, howner⟩ := isEmpty_owned_eq_false_iff.1 hfilled
  refine ⟨hne, howner ▸ l.owner_lt e.1, ⟨e.1, ?_⟩, howned⟩
  rw [NatMap.mem_keys]
  exact ⟨e.2, by rw [NatMap.get?_filterKeys, if_pos (decide_eq_true howner),
    NatMap.get?_eq_some_iff]; exact he⟩

theorem unpack_ne_foreignChare (howned : ∀ c, c ∈ b.keys → s.layout.owns s.pe c = true)
    {p c : Nat} : s.unpack sender b ≠ .error (.foreignChare p c) := by
  unfold Shipment.unpack
  rw [foreign?_eq_none_iff.2 howned]
  simp only
  split
  · simp
  · simp

theorem OnCourse.isDelivered_iff (h : s.OnCourse l pe moves log)
    (honce : (moves.filterMap Move.packed?).length ≤ 1) : s.isDelivered = true ↔
      ∃ chares, .pack chares ∈ moves ∧ ∀ q, q ∈ (batches l pe chares).keys →
        log.count (.book q) = 1 := by
  have hbooked : ∀ q, log.count (.book q) = 1 ↔ .book q ∈ log := fun q => by
    rw [← List.count_pos_iff]
    have := h.booked_once q
    omega
  rw [isDelivered, decide_eq_true_eq, h.packed_iff, NatSet.isEmpty_iff]
  simp only [hbooked, h.awaiting_iff, not_and, not_not, forall_exists_index, and_imp]
  constructor
  · rintro ⟨⟨chares, hm⟩, hall⟩
    exact ⟨chares, hm, fun q hq => hall q chares hm hq⟩
  · rintro ⟨chares, hm, hall⟩
    refine ⟨⟨chares, hm⟩, fun q chares' hm' hq => ?_⟩
    obtain rfl := packed_unique honce hm hm'
    exact hall q hq

end

structure Delivers (l : Layout) (pe : Nat) (moves : List Move) : Prop where
  -- Every list goes to the owner of its chare and to nobody else.
  splits : ∀ before chares after, moves = before ++ .pack chares :: after → ∀ q c,
    (portion (((start pe l).follow before).2.pack chares) pe q).get? c =
      if l.owner c = q then chares.get? c else none
  batches_owned : ∀ before chares after, moves = before ++ .pack chares :: after → ∀ q b,
    (((start pe l).follow before).2.pack chares).1.get? q = some b →
      q ≠ pe ∧ q < l.npes ∧ (∃ c, c ∈ b.keys) ∧ ∀ c, c ∈ b.keys → l.owns q c = true
  never_foreign : ∀ before chares after, moves = before ++ .pack chares :: after → ∀ q b,
    (((start pe l).follow before).2.pack chares).1.get? q = some b →
      ∀ s : Shipment, s.pe = q → s.layout = l → ∀ sender p c,
        s.unpack sender b ≠ .error (.foreignChare p c)
  -- What is refused leaves no trace.
  untraced : (start pe l).follow ((start pe l).follow moves).1 = (start pe l).follow moves
  isDelivered_iff : ((start pe l).follow moves).2.isDelivered = true ↔
    ∃ chares, .pack chares ∈ moves ∧ ∀ q, q ∈ (batches l pe chares).keys →
      ((start pe l).follow moves).1.count (.book q) = 1
  -- Of each sender the first acceptable batch is accepted.
  accepted_iff : ∀ q b, .unpack q b ∈ ((start pe l).follow moves).1 ↔
    q ≠ pe ∧ moves.findSome? (Move.part? l pe q) = some b
  get?_contents : ∀ bound, pe < bound → (∀ q b, .unpack q b ∈ moves → q < bound) → ∀ c nodes,
    ((start pe l).follow moves).2.contents.get? c = some nodes ↔
      (∃ q < bound, c ∈ (source l pe moves q).keys) ∧
        nodes = (List.range bound).flatMap fun q => (source l pe moves q).ofChare c
  contents_owned : ∀ c, c ∈ ((start pe l).follow moves).2.contents.keys → l.owns pe c = true
  -- It does not matter in which order things were accepted, or when packed.
  contents_congr : ∀ moves', (moves'.filterMap Move.packed?).length ≤ 1 →
    (∀ chares, .pack chares ∈ ((start pe l).follow moves').1 ↔
      .pack chares ∈ ((start pe l).follow moves).1) →
    (∀ q b, .unpack q b ∈ ((start pe l).follow moves').1 ↔
      .unpack q b ∈ ((start pe l).follow moves).1) →
        ((start pe l).follow moves').2.contents = ((start pe l).follow moves).2.contents
  -- It only matters what each source said, not when in between others did.
  order_free : ∀ moves', (moves'.filterMap Move.packed?).length ≤ 1 →
    (∀ q, moves'.filterMap (Move.part? l pe q) = moves.filterMap (Move.part? l pe q)) →
      ((start pe l).follow moves').2.contents = ((start pe l).follow moves).2.contents

/-- However batches and receipts come in, and whenever own lists are packed: no list is lost or
comes twice, and what is held in the end is the same. -/
theorem follow_delivers {l : Layout} {pe : Nat} {moves : List Move}
    (honce : (moves.filterMap Move.packed?).length ≤ 1)
    (hlt : ∀ chares, .pack chares ∈ moves → ∀ c, c ∈ chares.keys → c < l.nchare) :
    Delivers l pe moves := by
  have hend : ((start pe l).follow moves).2.OnCourse l pe moves ((start pe l).follow moves).1 :=
    follow_onCourse honce
  have hbefore : ∀ {before after : List Move} {chares : NodeLists},
      moves = before ++ .pack chares :: after →
        ((start pe l).follow before).2.OnCourse l pe before ((start pe l).follow before).1 ∧
          (∀ c, .pack c ∉ before) ∧ ∀ c, c ∈ chares.keys → c < l.nchare := by
    rintro before after chares rfl
    refine ⟨follow_onCourse ?_, not_mem_of_packed_once honce, hlt chares (by simp)⟩
    rw [List.filterMap_append, List.length_append] at honce
    exact Nat.le_of_add_right_le honce
  refine
    { splits := fun before chares after hmoves q c => ?_
      batches_owned := fun before chares after hmoves q b hb => ?_
      never_foreign := fun before chares after hmoves q b hb s hpe hl sender p c => ?_
      untraced := hend.replayed
      isDelivered_iff := hend.isDelivered_iff honce
      accepted_iff := hend.accepted_iff
      get?_contents := fun bound hpe hbound c nodes => hend.get?_contents hpe hbound
      contents_owned := fun c => hend.contents_owned hlt
      contents_congr := fun moves' honce' hpack hunpack =>
        hend.contents_congr (follow_onCourse honce') honce honce' hpack hunpack
      order_free := fun moves' honce' hsame => ?_ }
  · obtain ⟨h, hnone, -⟩ := hbefore hmoves
    rw [h.portion_eq hnone, kept, NatMap.get?_filterKeys]
    simp
  · obtain ⟨h, -, hchares⟩ := hbefore hmoves
    exact h.batch_owned hchares hb
  · obtain ⟨h, -, hchares⟩ := hbefore hmoves
    obtain ⟨-, -, -, howned⟩ := h.batch_owned hchares hb
    exact unpack_ne_foreignChare (by rw [hpe, hl]; exact howned)
  · have hreceived : ((start pe l).follow moves').2.received =
        ((start pe l).follow moves).2.received := NatMap.ext fun q => by
      rw [(follow_onCourse honce').received_eq, hend.received_eq, ← List.head?_filterMap, hsame,
        List.head?_filterMap]
    rw [contents, hreceived, contents]

def sixChares : Layout := ⟨6, 3, by decide, by decide⟩

def ownLists : NodeLists := .ofList [(0, [1]), (2, [5]), (3, [7]), (5, [9])]

def shippingMoves : List Move :=
  [.unpack 2 (.ofList [(2, [20])]), .book 0, .pack ownLists, .unpack 0 (.ofList [(1, [2])]),
    .unpack 0 (.ofList [(2, [3]), (3, [4])]), .unpack 2 (.ofList [(2, [99])]), .book 2, .book 0,
    .book 0]

theorem shipping_delivers : ((start 1 sixChares).follow shippingMoves).2.isDelivered = true ∧
    ((start 1 sixChares).follow shippingMoves).2.contents.get? 2 = some [3, 5, 20] ∧
      ((start 1 sixChares).follow shippingMoves).2.contents.get? 3 = some [4, 7] := by
  have hpack : ∀ chares, .pack chares ∈ shippingMoves ↔ chares = ownLists := by
    simp [shippingMoves]
  have hlt : ∀ c ∈ ownLists.keys.elems, c < sixChares.nchare := by decide
  have h : Delivers sixChares 1 shippingMoves := follow_delivers (by decide)
    fun chares hm => (hpack chares).1 hm ▸ hlt
  have hcounts : ∀ q ∈ (batches sixChares 1 ownLists).keys.elems,
      ((start 1 sixChares).follow shippingMoves).1.count (.book q) = 1 := by decide
  have hbound : ∀ q b, .unpack q b ∈ shippingMoves → q < 3 := by
    intro q b hm
    simp only [shippingMoves, List.mem_cons, Move.unpack.injEq, reduceCtorEq, List.not_mem_nil,
      or_false, false_or] at hm
    omega
  refine ⟨h.isDelivered_iff.2 ⟨ownLists, (hpack _).2 rfl, hcounts⟩, ?_, ?_⟩
  · exact (h.get?_contents 3 (by decide) hbound 2 [3, 5, 20]).2 ⟨by decide, by decide⟩
  · exact (h.get?_contents 3 (by decide) hbound 3 [4, 7]).2 ⟨by decide, by decide⟩

end MeshNumbering.Shipment
