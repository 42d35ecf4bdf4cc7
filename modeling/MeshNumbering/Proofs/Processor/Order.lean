import MeshNumbering.Proofs.Processor.Ledger

/-! In which order a processor does things, whatever its peers send it. A history is orderly when
each message was sent only after all that had to be heard before it; how far a processor has come
tells which messages it may have sent and what it has heard for certain. -/

namespace MeshNumbering

namespace History

def tries (h : List Event) : List (Nat × Message) :=
  h.filterMap fun e =>
    match e with
    | .sent q m | .refused q m => some (q, m)
    | _ => none

def Tried (h : List Event) (k : MessageKind) (q : Nat) : Prop :=
  ∃ m, (q, m) ∈ tries h ∧ m.kind = k

def phase (h : List Event) : Phase :=
  h.foldl
    (fun phase e =>
      match e with
      | .entered next => next
      | _ => phase) .setup

def HeardAll (npes : Nat) (h : List Event) (k : MessageKind) : Prop := ∀ q < npes, Heard h k q

def Holds (h : List Event) (n : Nat) : Prop :=
  ∃ q pe nodes, (q, .query pe nodes) ∈ tries h ∧ n ∈ nodes

def Claimed (pe : Nat) (h : List Event) (n q : Nat) : Prop :=
  q < pe ∧ (∃ mask : Mask, .mask q mask ∈ taken h ∧ n ∈ mask.keys) ∧
    ∀ j < q, ∀ mask : Mask, .mask j mask ∈ taken h → ¬ n ∈ mask.keys

/-- Node `n` has its new id from the processor that claims it. When none does, `pe` numbers it as
soon as it has heard all counts. -/
def Numbered (pe npes : Nat) (h : List Event) (n : Nat) : Prop :=
  (∃ (q : Nat) (ids : NatMap Nat), Claimed pe h n q ∧ .assigned q ids ∈ taken h ∧ n ∈ ids.keys) ∨
    (∀ q, ¬ Claimed pe h n q) ∧ HeardAll npes h .offset

def AllNumbered (pe npes : Nat) (h : List Event) : Prop :=
  (∀ q < npes, Tried h .query q) ∧ ∀ n, Holds h n → Numbered pe npes h n

def BoundKnown (pe : Nat) (h : List Event) : Prop := pe = 0 ∨ ∃ q, q + 1 = pe ∧ Heard h .lower q

end History

open History

def MessageKind.saidOnce : MessageKind → Bool
  | receipt | mask | assigned | abort => false
  | _ => true

/-- What must have happened at processor `pe` before it sends a message of some kind. -/
def Cleared (pe npes : Nat) (h : List Event) : MessageKind → Prop
  | .batch => HeardAll npes h .load
  | .delivered => ∀ q, Tried h .batch q → Heard h .receipt q
  | .query => HeardAll npes h .delivered
  | .offset => HeardAll npes h .mask
  | .request | .assigned => HeardAll npes h .offset
  | .lower => AllNumbered pe npes h
  | .cost => AllNumbered pe npes h ∧ BoundKnown pe h
  | .deviation => HeardAll npes h .cost
  | .load | .receipt | .mask | .abort => True

def Permitted (pe npes : Nat) (h : List Event) : Event → Prop
  | .sent q m | .refused q m =>
    Cleared pe npes h m.kind ∧ (m.kind.saidOnce = true → ¬ Tried h m.kind q)
  | .called (.worker _) | .called .crew | .called (.rows _) | .called .ready =>
    AllNumbered pe npes h ∧ BoundKnown pe h
  | .entered next => History.phase h < next
  | _ => True

def Orderly (pe npes : Nat) (h : List Event) : Prop :=
  ∀ before e after, h = before ++ e :: after → Permitted pe npes before e

namespace History
variable {h h' h'' : List Event} {l l' : List (Nat × Message)} {acted acted' : List Message}
  {k : MessageKind} {q n pe npes : Nat}

/-- From `h` to `h'` just these messages are tried and just these acted on. -/
structure Extends (h h' : List Event) (l : List (Nat × Message)) (acted : List Message) :
    Prop where
  tries_eq : tries h' = tries h ++ l
  taken_eq : taken h' = taken h ++ acted

theorem Extends.refl (h : List Event) : Extends h h [] [] where
  tries_eq := (List.append_nil _).symm
  taken_eq := (List.append_nil _).symm

theorem Extends.trans (he : Extends h h' l acted) (he' : Extends h' h'' l' acted') :
    Extends h h'' (l ++ l') (acted ++ acted') where
  tries_eq := by rw [he'.tries_eq, he.tries_eq, List.append_assoc]
  taken_eq := by rw [he'.taken_eq, he.taken_eq, List.append_assoc]

theorem Extends.quiet_trans (he : Extends h h' [] []) (he' : Extends h' h'' l acted) :
    Extends h h'' l acted := he.trans he'

theorem Extends.trans_quiet (he : Extends h h' l acted) (he' : Extends h' h'' [] []) :
    Extends h h'' l acted := by
  simpa using he.trans he'

theorem Extends.of_append (events : List Event) :
    Extends h (h ++ events) (tries events) (taken events) where
  tries_eq := List.filterMap_append ..
  taken_eq := List.filterMap_append ..

theorem extends_send {m : Message} : Extends h (h ++ [.sent q m]) [(q, m)] [] := .of_append _

theorem extends_accept {m : Message} : Extends h (h ++ [.accepted m]) [] [m] := .of_append _

theorem extends_sends (l : List (Nat × Message)) :
    Extends h (h ++ l.map fun x => .sent x.1 x.2) l [] := by
  induction l generalizing h with
  | nil => simpa using Extends.refl h
  | cons x l ih =>
    have hone : Extends h (h ++ [.sent x.1 x.2]) [x] [] := extends_send
    simpa using hone.trans ih

theorem Extends.tried_iff (he : Extends h h' l acted) :
    Tried h' k q ↔ Tried h k q ∨ ∃ m, (q, m) ∈ l ∧ m.kind = k := by
  simp only [Tried, he.tries_eq, List.mem_append, or_and_right, exists_or]

theorem Extends.heard_iff (he : Extends h h' l acted) :
    Heard h' k q ↔ Heard h k q ∨ ∃ m ∈ acted, m.kind = k ∧ m.sender = q := by
  simp only [Heard, he.taken_eq, List.mem_append, or_and_right, exists_or]

theorem Extends.holds_iff (he : Extends h h' [] acted) : Holds h' n ↔ Holds h n := by
  rw [Holds, he.tries_eq, List.append_nil]
  rfl

/-- All that has been tried or acted on before `h` has been before `h'`. -/
structure Grows (h h' : List Event) : Prop where
  tries_sub : ∀ x ∈ tries h, x ∈ tries h'
  taken_sub : ∀ m ∈ taken h, m ∈ taken h'

theorem Extends.grows (he : Extends h h' l acted) : Grows h h' where
  tries_sub x hx := by
    rw [he.tries_eq]
    exact List.mem_append_left _ hx
  taken_sub m hm := by
    rw [he.taken_eq]
    exact List.mem_append_left _ hm

theorem Grows.tried (hg : Grows h h') (ht : Tried h k q) : Tried h' k q := by
  obtain ⟨m, hm, hk⟩ := ht
  exact ⟨m, hg.tries_sub _ hm, hk⟩

theorem Grows.heard (hg : Grows h h') (hh : Heard h k q) : Heard h' k q := by
  obtain ⟨m, hm, hk⟩ := hh
  exact ⟨m, hg.taken_sub m hm, hk⟩

theorem Grows.heardAll (hg : Grows h h') (hh : HeardAll npes h k) : HeardAll npes h' k :=
  fun q hq => hg.heard (hh q hq)

theorem Grows.boundKnown (hg : Grows h h') (hh : BoundKnown pe h) : BoundKnown pe h' :=
  hh.imp_right fun ⟨q, hq, hlower⟩ => ⟨q, hq, hg.heard hlower⟩

/-- From `h` to `h'` neither a batch nor a query is sent and no mask comes in. So it stays the same
which nodes are held, who claims them and from whom receipts are due. -/
structure Steady (h h' : List Event) : Prop extends Grows h h' where
  batches : ∀ q, Tried h' .batch q → Tried h .batch q
  queries : ∀ x ∈ tries h', x.2.kind = .query → x ∈ tries h
  masks : ∀ m ∈ taken h', m.kind = .mask → m ∈ taken h

theorem Steady.refl (h : List Event) : Steady h h where
  tries_sub _ := id
  taken_sub _ := id
  batches _ := id
  queries _ hx _ := hx
  masks _ hm _ := hm

theorem Steady.trans (hs : Steady h h') (hs' : Steady h' h'') : Steady h h'' where
  tries_sub x hx := hs'.tries_sub x (hs.tries_sub x hx)
  taken_sub m hm := hs'.taken_sub m (hs.taken_sub m hm)
  batches q hq := hs.batches q (hs'.batches q hq)
  queries x hx hk := hs.queries x (hs'.queries x hx hk) hk
  masks m hm hk := hs.masks m (hs'.masks m hm hk) hk

theorem Extends.steady (he : Extends h h' l acted)
    (hl : ∀ x ∈ l, x.2.kind ≠ .batch ∧ x.2.kind ≠ .query)
    (hacted : ∀ m ∈ acted, m.kind ≠ .mask) : Steady h h' where
  toGrows := he.grows
  batches q hq := by
    refine (he.tried_iff.1 hq).resolve_right ?_
    rintro ⟨m, hm, hk⟩
    exact (hl _ hm).1 hk
  queries x hx hk := by
    rw [he.tries_eq, List.mem_append] at hx
    exact hx.resolve_right fun hx => (hl x hx).2 hk
  masks m hm hk := by
    rw [he.taken_eq, List.mem_append] at hm
    exact hm.resolve_right fun hm => hacted m hm hk

theorem Extends.steady_quiet (he : Extends h h' [] []) : Steady h h' :=
  he.steady (by simp) (by simp)

theorem Steady.holds_iff (hs : Steady h h') : Holds h' n ↔ Holds h n := by
  constructor
  · rintro ⟨q, pe, nodes, hx, hn⟩
    exact ⟨q, pe, nodes, hs.queries _ hx rfl, hn⟩
  · rintro ⟨q, pe, nodes, hx, hn⟩
    exact ⟨q, pe, nodes, hs.tries_sub _ hx, hn⟩

theorem Steady.mem_mask_iff (hs : Steady h h') {mask : Mask} :
    .mask q mask ∈ taken h' ↔ .mask q mask ∈ taken h :=
  ⟨fun hm => hs.masks _ hm rfl, hs.taken_sub _⟩

theorem Steady.claimed_iff (hs : Steady h h') : Claimed pe h' n q ↔ Claimed pe h n q := by
  simp only [Claimed, hs.mem_mask_iff]

theorem Steady.numbered (hs : Steady h h') (hn : Numbered pe npes h n) :
    Numbered pe npes h' n := by
  rcases hn with ⟨q, ids, hclaimed, hids, hn⟩ | ⟨hfree, hall⟩
  · exact .inl ⟨q, ids, hs.claimed_iff.2 hclaimed, hs.taken_sub _ hids, hn⟩
  · exact .inr ⟨fun q hq => hfree q (hs.claimed_iff.1 hq), hs.heardAll hall⟩

theorem Steady.allNumbered (hs : Steady h h') (hn : AllNumbered pe npes h) :
    AllNumbered pe npes h' :=
  ⟨fun q hq => hs.tried (hn.1 q hq), fun n hold => hs.numbered (hn.2 n (hs.holds_iff.1 hold))⟩

theorem phase_concat (h : List Event) (e : Event) : phase (h ++ [e]) =
    match e with
    | .entered next => next
    | _ => phase h := by
  rw [phase, List.foldl_append]
  rfl

end History

section
variable {pe npes μ : Nat} {φ φ' : Phase} {h h' : List Event} {k : MessageKind} {q : Nat}
  {m : Message}

theorem Cleared.grow (hc : Cleared pe npes h k) (hg : Grows h h')
    (hbatch : k = .delivered → ∀ q, Tried h' .batch q → Tried h .batch q)
    (hsteady : k = .lower ∨ k = .cost → Steady h h') : Cleared pe npes h' k := by
  cases k with
  | load | receipt | mask | abort => exact trivial
  | batch | query | offset | request | assigned | deviation => exact hg.heardAll hc
  | delivered => exact fun q hq => hg.heard (hc q (hbatch rfl q hq))
  | lower => exact (hsteady (.inl rfl)).allNumbered hc
  | cost => exact ⟨(hsteady (.inr rfl)).allNumbered hc.1, hg.boundKnown hc.2⟩

theorem Cleared.steady (hc : Cleared pe npes h k) (hs : Steady h h') : Cleared pe npes h' k :=
  hc.grow hs.toGrows (fun _ => hs.batches) fun _ => hs

theorem orderly_nil : Orderly pe npes [] := by
  intro before e after heq
  simp at heq

theorem Orderly.of_append {l : List Event} (ho : Orderly pe npes (h ++ l)) :
    Orderly pe npes h := by
  intro before e after heq
  refine ho before e (after ++ l) ?_
  rw [heq, List.append_assoc, List.cons_append]

theorem orderly_concat {e : Event} :
    Orderly pe npes (h ++ [e]) ↔ Orderly pe npes h ∧ Permitted pe npes h e := by
  constructor
  · exact fun ho => ⟨ho.of_append, ho h e [] rfl⟩
  · rintro ⟨ho, hp⟩ before e' after heq
    rcases after.eq_nil_or_concat with rfl | ⟨after, e'', rfl⟩
    · obtain ⟨rfl, hlast⟩ := List.append_inj' heq rfl
      obtain rfl := List.head_eq_of_cons_eq hlast
      exact hp
    · rw [List.concat_eq_append, ← List.cons_append, ← List.append_assoc] at heq
      obtain ⟨rfl, -⟩ := List.append_inj' heq rfl
      exact ho before e' after rfl

theorem Orderly.append {l : List Event} (ho : Orderly pe npes h)
    (hl : ∀ e ∈ l, ∀ h', Permitted pe npes h' e) : Orderly pe npes (h ++ l) := by
  induction l generalizing h with
  | nil => simpa using ho
  | cons e l ih =>
    have hfirst := orderly_concat.2 ⟨ho, hl e (List.mem_cons_self ..) h⟩
    have hrest := ih hfirst fun e' he' => hl e' (List.mem_cons_of_mem _ he')
    simpa using hrest

/-- What the history of a processor at mark `μ` and in phase `φ` tells: nothing has been sent that
belongs to a later mark, and everything that messages of this mark wait for has happened. -/
structure Log (pe npes μ : Nat) (φ : Phase) (h : List Event) : Prop where
  orderly : Orderly pe npes h
  phase_eq : History.phase h = φ
  saidFrom_le : ∀ k q, Tried h k q → k.saidFrom ≤ μ
  cleared : ∀ k : MessageKind, k.saidFrom ≤ μ → Cleared pe npes h k
  -- Masks are not acted on before mark 3.
  masked : ∀ q, Heard h .mask q → 3 ≤ μ

namespace Log

theorem nil : Log pe npes 0 .setup [] where
  orderly := orderly_nil
  phase_eq := rfl
  saidFrom_le k q hk := by
    obtain ⟨m, hm, -⟩ := hk
    cases hm
  cleared k hk := by cases k <;> first | exact trivial | cases hk
  masked q hq := by
    obtain ⟨m, hm, -⟩ := hq
    cases hm

theorem not_tried (hl : Log pe npes μ φ h) (hk : μ < k.saidFrom) (q : Nat) : ¬ Tried h k q :=
  fun ht => Nat.not_le_of_lt hk (hl.saidFrom_le k q ht)

theorem raise (hl : Log pe npes μ φ h)
    (hc : ∀ k : MessageKind, k.saidFrom = μ + 1 → Cleared pe npes h k) :
    Log pe npes (μ + 1) φ h where
  orderly := hl.orderly
  phase_eq := hl.phase_eq
  saidFrom_le k q hk := Nat.le_succ_of_le (hl.saidFrom_le k q hk)
  cleared k hk := (Nat.le_succ_iff.1 hk).elim (hl.cleared k) (hc k)
  masked q hq := Nat.le_succ_of_le (hl.masked q hq)

theorem quiet (hl : Log pe npes μ φ h) {e : Event} (hp : Permitted pe npes h e)
    (hφ : History.phase (h ++ [e]) = φ') (he : Extends h (h ++ [e]) [] []) :
    Log pe npes μ φ' (h ++ [e]) where
  orderly := orderly_concat.2 ⟨hl.orderly, hp⟩
  phase_eq := hφ
  saidFrom_le k q hk := hl.saidFrom_le k q ((he.tried_iff.1 hk).resolve_right (by simp))
  cleared k hk := (hl.cleared k hk).steady he.steady_quiet
  masked q hq := hl.masked q ((he.heard_iff.1 hq).resolve_right (by simp))

theorem heard (hl : Log pe npes μ φ h) (q : Nat) (f : Frame) :
    Log pe npes μ φ (h ++ [.heard q f]) :=
  hl.quiet trivial ((phase_concat ..).trans hl.phase_eq) (.of_append _)

theorem call (hl : Log pe npes μ φ h) {c : Call} (hp : Permitted pe npes h (.called c)) :
    Log pe npes μ φ (h ++ [.called c]) :=
  hl.quiet hp ((phase_concat ..).trans hl.phase_eq) (.of_append _)

theorem calls {β : Type} (make : β → Call) (l : List β) (hl : Log pe npes μ φ h)
    (hp : ∀ b h', Steady h h' → Permitted pe npes h' (.called (make b))) :
    Log pe npes μ φ (h ++ l.map fun b => .called (make b)) ∧
      Extends h (h ++ l.map fun b => .called (make b)) [] [] := by
  induction l generalizing h with
  | nil => simpa using ⟨hl, Extends.refl h⟩
  | cons b l ih =>
    have hone : Extends h (h ++ [.called (make b)]) [] [] := .of_append _
    have hsteady := hone.steady_quiet
    obtain ⟨hrest, he⟩ := ih (hl.call (hp b h (.refl h)))
      fun b' h' hs => hp b' h' (hsteady.trans hs)
    rw [List.append_assoc] at hrest he
    exact ⟨hrest, hone.quiet_trans he⟩

theorem enter (hl : Log pe npes μ φ h) (hφ : φ < φ') : Log pe npes μ φ' (h ++ [.entered φ']) :=
  hl.quiet (show History.phase h < φ' from hl.phase_eq ▸ hφ) (phase_concat ..) (.of_append _)

theorem accept (hl : Log pe npes μ φ h) (hmask : m.kind = .mask → μ = 3) :
    Log pe npes μ φ (h ++ [.accepted m]) where
  orderly := orderly_concat.2 ⟨hl.orderly, trivial⟩
  phase_eq := (phase_concat ..).trans hl.phase_eq
  saidFrom_le k q hk := hl.saidFrom_le k q ((extends_accept.tried_iff.1 hk).resolve_right (by simp))
  cleared k hk := by
    refine (hl.cleared k hk).grow extends_accept.grows
      (fun _ q hq => (extends_accept.tried_iff.1 hq).resolve_right (by simp)) fun hlate => ?_
    refine extends_accept.steady (by simp) fun m' hm' hkind => ?_
    obtain rfl := List.mem_singleton.1 hm'
    have hearly := hmask hkind
    rcases hlate with rfl | rfl
    all_goals
      rw [hearly] at hk
      exact absurd hk (by decide)
  masked q hq := by
    rcases extends_accept.heard_iff.1 hq with hq | ⟨m', hm', hkind, -⟩
    · exact hl.masked q hq
    · obtain rfl := List.mem_singleton.1 hm'
      exact (hmask hkind).ge

theorem send (hl : Log pe npes μ φ h) (hle : m.kind.saidFrom ≤ μ)
    (honce : m.kind.saidOnce = true → m.kind.saidFrom = μ ∧ ¬ Tried h m.kind q) :
    Log pe npes μ φ (h ++ [.sent q m]) where
  orderly := orderly_concat.2 ⟨hl.orderly, hl.cleared _ hle, fun ho => (honce ho).2⟩
  phase_eq := (phase_concat ..).trans hl.phase_eq
  saidFrom_le k j hk := by
    rcases extends_send.tried_iff.1 hk with hk | ⟨m', hm', rfl⟩
    · exact hl.saidFrom_le k j hk
    · obtain ⟨-, rfl⟩ := Prod.mk.inj (List.mem_singleton.1 hm')
      exact hle
  cleared k hk := by
    have hearly : ∀ k' : MessageKind, m.kind = k' → k'.saidOnce = true → k'.saidFrom = μ :=
      fun k' hk' ho => hk' ▸ (honce (hk' ▸ ho)).1
    refine (hl.cleared k hk).grow extends_send.grows (fun hd j hj => ?_) fun hlate => ?_
    · refine (extends_send.tried_iff.1 hj).resolve_right ?_
      rintro ⟨m', hm', hkind⟩
      obtain ⟨-, rfl⟩ := Prod.mk.inj (List.mem_singleton.1 hm')
      rw [hd, ← hearly _ hkind rfl] at hk
      exact absurd hk (by decide)
    · refine extends_send.steady (fun x hx => ?_) (by simp)
      obtain rfl := List.mem_singleton.1 hx
      refine ⟨fun hkind => ?_, fun hkind => ?_⟩
      all_goals
        rw [← hearly _ hkind rfl] at hk
        rcases hlate with rfl | rfl
        all_goals exact absurd hk (by decide)
  masked j hj := hl.masked j ((extends_send.heard_iff.1 hj).resolve_right (by simp))

theorem sends {l : List (Nat × Message)} (hl : Log pe npes μ φ h) (hkind : ∀ x ∈ l, x.2.kind = k)
    (hle : k.saidFrom ≤ μ) (honce : k.saidOnce = true → k.saidFrom = μ ∧
      (l.map Prod.fst).Nodup ∧ ∀ q, ¬ Tried h k q) :
    Log pe npes μ φ (h ++ l.map fun x => .sent x.1 x.2) := by
  replace honce : k.saidOnce = true → k.saidFrom = μ ∧ (l.map Prod.fst).Nodup ∧
      ∀ x ∈ l, ¬ Tried h k x.1 :=
    fun ho => ⟨(honce ho).1, (honce ho).2.1, fun x _ => (honce ho).2.2 x.1⟩
  induction l generalizing h with
  | nil => simpa using hl
  | cons x l ih =>
    obtain rfl := hkind x (List.mem_cons_self ..)
    have hfirst := hl.send (q := x.1) hle fun ho =>
      ⟨(honce ho).1, (honce ho).2.2 x (List.mem_cons_self ..)⟩
    have hrest := ih hfirst (fun y hy => hkind y (List.mem_cons_of_mem _ hy)) fun ho => ?_
    · simpa using hrest
    · obtain ⟨hfrom, hnodup, hnew⟩ := honce ho
      rw [List.map_cons, List.nodup_cons] at hnodup
      refine ⟨hfrom, hnodup.2, fun y hy ht => ?_⟩
      rcases extends_send.tried_iff.1 ht with ht | ⟨m', hm', -⟩
      · exact hnew y (List.mem_cons_of_mem _ hy) ht
      · obtain ⟨hyx, -⟩ := Prod.mk.inj (List.mem_singleton.1 hm')
        exact hnodup.1 (hyx ▸ List.mem_map_of_mem hy)

end Log
end
end MeshNumbering
