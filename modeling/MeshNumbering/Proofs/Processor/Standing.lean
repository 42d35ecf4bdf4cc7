import MeshNumbering.Proofs.Numbering
import MeshNumbering.Proofs.Processor.Ledger
import MeshNumbering.Proofs.Shipment

/-! What a processor that waits is like. Its state is a function of the messages it has heard, and
what it has said follows from its mark; together with the messages still to be acted on, that is an
invariant of everything it does. -/

namespace MeshNumbering
open History

def adding (heard : MessageKind → Nat → Prop) (k : MessageKind) (q : Nat) :
    MessageKind → Nat → Prop := fun k' j => heard k' j ∨ k' = k ∧ j = q

section
variable {heard : MessageKind → Nat → Prop} {k k' : MessageKind} {q : Nat}

theorem adding_self : adding heard k q k = fun j => heard k j ∨ j = q := by
  funext j
  simp [adding]

theorem adding_of_ne (h : k' ≠ k) : adding heard k q k' = heard k' := by
  funext j
  simp [adding, h]

end

def Stage.At (t : Scenario) (pe : Nat) (heard : MessageKind → Nat → Prop) (once : Prop) :
    Stage → Prop
  | .setup s => s.chunk = t.chunk pe ∧ s.centroids = t.centroids pe ∧ t.Reads pe
  | .shipping s => s.shipment.At t pe (heard .batch) (heard .receipt)
  | .indexed s => s.layout = t.layout ∧ s.nodes = t.nodes pe ∧ s.holdings = t.holdings pe ∧
      s.masks.Holds .mask t.npes (heard .mask) fun q => t.mask q pe
  | .numbering s => s.layout = t.layout ∧ s.nodes = t.nodes pe ∧ s.sharing = t.sharing pe ∧
      s.numbering.At t pe (heard .request) (heard .assigned) s.numbering.isGivenOut once
  | .bounding s => s.layout = t.layout ∧ s.base = t.base pe ∧ s.own = t.own pe ∧
      s.relabelling = t.relabelling pe ∧ s.upper = t.upper pe ∧
      s.numbering.At t pe (heard .request) (heard .assigned) true once
  | .costing s => s.layout = t.layout ∧ s.base = t.base pe ∧ s.own = t.own pe ∧
      s.rows = t.rows pe ∧ s.cost = t.cost pe ∧
      s.numbering.At t pe (heard .request) (heard .assigned) true once
  | .done outcome => outcome = t.outcome pe

/-- What the state keeps of the messages of one kind, outside its stage, once it has heard those of
the processors in `P`. -/
def State.Keeps (s : State) (t : Scenario) (pe : Nat) (P : Nat → Prop) : MessageKind → Prop
  | .load => s.loads.Holds .load t.npes P t.load
  | .delivered => s.distributed.Holds .delivered t.npes P fun _ => ()
  | .query => s.queries.Holds .query t.npes P (fun _ => ()) ∧
      (s.serving = none → s.mark < 3 ∨ ∀ q < t.npes, P q)
  | .offset => s.offsets.counts.Holds .offset t.npes P t.own
  | .lower => ∀ r, s.lower = some r ↔
      r = t.lower pe ∧ (pe = 0 ∧ 6 ≤ s.mark ∨ ∃ q, q + 1 = pe ∧ P q)
  | .cost => s.costs.costs.Holds .cost t.npes P fun q => .ofBits (t.cost q).toBits
  | .deviation =>
    s.costs.deviations.Holds .deviation t.npes P fun q => .ofBits (t.deviation q).toBits
  | _ => True

/-- What the state of processor `pe` is, by the messages heard. -/
structure State.At (s : State) (t : Scenario) (pe : Nat) (heard : MessageKind → Nat → Prop)
    (once : Prop) : Prop where
  seat_eq : s.seat = t.seat pe
  stage : s.stage.At t pe heard once
  keeps : ∀ k, s.Keeps t pe (heard k) k
  serving : ∀ h, s.serving = some h → h = t.holdings pe ∧ 3 ≤ s.mark
  offsets_pe : s.offsets.pe = pe
  costs_pe : s.costs.pe = pe

namespace Stage
variable {x : Stage} {t : Scenario} {pe : Nat} {heard heard' : MessageKind → Nat → Prop}
  {once : Prop}

theorem At.congr (h : x.At t pe heard once) (hb : heard' .batch = heard .batch)
    (hr : heard' .receipt = heard .receipt) (hm : heard' .mask = heard .mask)
    (hq : heard' .request = heard .request) (ha : heard' .assigned = heard .assigned) :
    x.At t pe heard' once := by
  cases x <;> simpa only [At, hb, hr, hm, hq, ha] using h

theorem mark_le (x : Stage) : x.mark ≤ 9 := by
  cases x <;> simp only [mark] <;> try split
  all_goals omega

theorem three_le_mark (h : 2 ≤ x.phase.rank) : 3 ≤ x.mark := by
  cases x <;> simp only [phase, Phase.rank] at h <;> simp only [mark] <;> (try split) <;> omega

theorem four_le_mark (h : 3 ≤ x.phase.rank) : 4 ≤ x.mark := by
  cases x <;> simp only [phase, Phase.rank] at h <;> simp only [mark] <;> (try split) <;> omega

theorem phase_lt_opening_iff {k : MessageKind} (hk : k ≠ .receipt) :
    x.phase < k.opening ↔ x.mark < k.actedFrom := by
  show x.phase.rank < k.opening.rank ↔ _
  cases k <;> cases x <;>
    simp only [phase, Phase.rank, MessageKind.opening, MessageKind.actedFrom, mark, ne_eq,
      not_true_eq_false] at hk ⊢ <;>
    (try split) <;> omega

end Stage

namespace State.At
variable {s s' : State} {t : Scenario} {pe : Nat} {heard : MessageKind → Nat → Prop} {once : Prop}

theorem pe_eq (h : s.At t pe heard once) : s.pe = pe := congrArg Seat.pe h.seat_eq

theorem npes_eq (h : s.At t pe heard once) : s.npes = t.npes := congrArg Seat.npes h.seat_eq

theorem of_stage (h : s.At t pe heard once) {x : Stage} (hst : s.stage = x) :
    x.At t pe heard once := hst ▸ h.stage

theorem keeps_adding (h : s.At t pe heard once) {k : MessageKind} {q : Nat}
    (hother : ∀ k' ≠ k, ∀ P, s.Keeps t pe P k' → s'.Keeps t pe P k')
    (hsame : s'.Keeps t pe (fun j => heard k j ∨ j = q) k) (k' : MessageKind) :
    s'.Keeps t pe (adding heard k q k') k' := by
  by_cases hk : k' = k
  · subst hk
    rwa [adding_self]
  · rw [adding_of_ne hk]
    exact hother k' hk _ (h.keeps k')

theorem move (h : s.At t pe heard once) {x : Stage} (hx : x.At t pe heard once)
    (hmark : x.mark = s.mark + 1) (h2 : s.mark ≠ 2) (h5 : s.mark ≠ 5) :
    State.At { s with stage := x } t pe heard once where
  seat_eq := h.seat_eq
  stage := hx
  keeps k := by
    have hk := h.keeps k
    cases k with
    | query =>
      refine ⟨hk.1, fun hn => (hk.2 hn).imp_left fun hlt => ?_⟩
      show x.mark < 3
      omega
    | lower =>
      intro r
      rw [show (State.lower { s with stage := x }) = s.lower from rfl, hk r]
      refine and_congr_right fun _ => or_congr_left (and_congr_right fun _ => ?_)
      show 6 ≤ s.mark ↔ 6 ≤ x.mark
      omega
    | _ => exact hk
  serving g hg := by
    obtain ⟨rfl, hle⟩ := h.serving g hg
    refine ⟨rfl, ?_⟩
    show 3 ≤ x.mark
    omega
  offsets_pe := h.offsets_pe
  costs_pe := h.costs_pe

end State.At

/-- From `h` to `h'` the message `m` is acted on, with the answer given on the way. -/
structure Answering (t : Scenario) (pe : Nat) (m : Message) (answer : Option MessageKind)
    (h h' : List Event) : Prop where
  sent_eq : sent h' = sent h ++ answer.toList.map fun k => (m.sender, t.message k pe m.sender)
  taken_eq : taken h' = taken h ++ [m]
  frames_eq : frames h' = frames h
  handoffs_eq : handoffs h' = handoffs h

section
variable {t : Scenario} {once : Prop} {pe μ : Nat} {m : Message} {answer : Option MessageKind}
  {h h₁ h' : List Event}

theorem History.Adds.answering
    (ha : Adds h h₁ (answer.toList.map fun k => (m.sender, t.message k pe m.sender)) []) :
    Answering t pe m answer h (h₁ ++ [.accepted m]) where
  sent_eq := by
    rw [← ha.sent_eq]
    exact (List.filterMap_append ..).trans (List.append_nil _)
  taken_eq := by
    rw [← ha.taken_eq]
    exact List.filterMap_append ..
  frames_eq := by
    rw [← ha.frames_eq]
    exact (List.filterMap_append ..).trans (List.append_nil _)
  handoffs_eq := by
    rw [← List.append_nil (handoffs h), ← ha.handoffs_eq]
    exact (List.filterMap_append ..).trans (List.append_nil _)

theorem Answering.heard_eq (ha : Answering t pe m answer h h') :
    Heard h' = adding (Heard h) m.kind m.sender := by
  funext k q
  rw [Heard, ha.taken_eq]
  simp only [List.mem_append, List.mem_singleton, or_and_right, exists_or, exists_eq_left, adding,
    Heard, eq_comm (a := m.kind), eq_comm (a := m.sender)]

theorem Answering.told_iff (ha : Answering t pe m answer h h') {k : MessageKind} {q : Nat} :
    Told h' k q ↔ Told h k q ∨ answer = some k ∧ q = m.sender := by
  simp only [Told, ha.sent_eq, List.mem_append, or_and_right, exists_or, List.mem_map,
    Option.mem_toList, Prod.mk.injEq]
  apply or_congr Iff.rfl
  constructor
  · rintro ⟨m', ⟨k', hk', rfl, rfl⟩, rfl⟩
    rw [Scenario.kind_message]
    exact ⟨hk', rfl⟩
  · rintro ⟨hk, rfl⟩
    exact ⟨_, ⟨k, hk, rfl, rfl⟩, Scenario.kind_message ..⟩

theorem Answering.due (ha : Answering t pe m answer h h') (hp : t.Passes m.kind m.sender pe)
    {k : MessageKind} (hans : k.answers? = some m.kind) (hk : k.saidFrom ≤ μ)
    (hfits : (t.message k pe m.sender).unfit? = none) :
    t.Due pe μ h' m.sender (t.message k pe m.sender) where
  genuine := by rw [Scenario.kind_message]
  passes := by
    rw [Scenario.kind_message]
    exact (Scenario.passes_answer hans).2 hp
  fits := hfits
  saidFrom_le := by rwa [Scenario.kind_message]
  asked k' hk' := by
    rw [Scenario.kind_message, hans] at hk'
    obtain rfl := Option.some.inj hk'
    rw [ha.heard_eq]
    exact .inr ⟨rfl, rfl⟩

theorem Record.act (hr : Record t once pe μ h) (ha : Answering t pe m answer h h')
    (hm : m = t.message m.kind m.sender pe) (hp : t.Passes m.kind m.sender pe)
    (hf : (m.sender, m.encode) ∈ frames h) (hfrom : m.kind.actedFrom ≤ μ)
    (hnew : once → ¬ Heard h m.kind m.sender)
    (hanswer : ∀ k, answer = some k ↔ k.answers? = some m.kind ∧ k.saidFrom ≤ μ)
    (hfits : ∀ k, answer = some k → (t.message k pe m.sender).unfit? = none) :
    Record t once pe μ h' where
  pe_lt := hr.pe_lt
  due q m' hm' := by
    rw [ha.sent_eq, List.mem_append] at hm'
    rcases hm' with hm' | hm'
    · obtain ⟨hg, hps, hu, hs, hk⟩ := hr.due q m' hm'
      exact ⟨hg, hps, hu, hs, fun k hk' => by rw [ha.heard_eq]; exact .inl (hk k hk')⟩
    · obtain ⟨k, hk, heq⟩ := List.mem_map.1 hm'
      obtain ⟨rfl, rfl⟩ := Prod.mk.inj heq
      rw [Option.mem_toList] at hk
      obtain ⟨hans, hs⟩ := (hanswer k).1 hk
      exact ha.due hp hans hs (hfits k hk)
  genuine := by
    rw [ha.taken_eq]
    exact List.forall_mem_append.2 ⟨hr.genuine, by simpa using hm⟩
  passes := by
    rw [ha.taken_eq]
    exact List.forall_mem_append.2 ⟨hr.passes, by simpa using hp⟩
  received := by
    rw [ha.taken_eq, ha.frames_eq]
    exact List.forall_mem_append.2 ⟨hr.received, by simpa using hf⟩
  actedFrom_le := by
    rw [ha.taken_eq]
    exact List.forall_mem_append.2 ⟨hr.actedFrom_le, by simpa using hfrom⟩
  level k q hpass hk := by
    rw [ha.heard_eq]
    exact .inl (hr.level k q hpass hk)
  passed := hr.passed
  handed := by rw [ha.handoffs_eq]; exact hr.handed
  sent_once ho := by
    rw [ha.sent_eq, List.nodup_append]
    refine ⟨hr.sent_once ho, ?_, fun x hx y hy hxy => ?_⟩
    · cases answer <;> simp
    · -- An answer given before would mean that the question was heard before.
      subst hxy
      obtain ⟨k, hk, rfl⟩ := List.mem_map.1 hy
      rw [Option.mem_toList] at hk
      apply hnew ho
      apply (hr.due _ _ hx).asked
      rw [Scenario.kind_message]
      exact ((hanswer k).1 hk).1

end

/-- The state of a processor that takes part in a run, with the messages `pend` still to be acted
on, and its history. -/
structure State.Live (s : State) (t : Scenario) (once : Prop) (pe : Nat) (pend : List Message)
    (h : List Event) : Prop where
  state : s.At t pe (Heard h) once
  record : Record t once pe s.mark h
  told : ∀ k q, t.Passes k pe q → k.saidFrom ≤ s.mark →
    (∀ k', k.answers? = some k' → Heard h k' q) → Told h k q
  -- A processor says that all is delivered only when it is.
  ordered : ∀ q, Heard h .delivered q → t.Passes .batch q pe → Heard h .batch q
  genuine : ∀ m ∈ pend ++ s.backlog, m = t.message m.kind m.sender pe
  passes : ∀ m ∈ pend ++ s.backlog, t.Passes m.kind m.sender pe
  received : ∀ m ∈ pend ++ s.backlog, (m.sender, m.encode) ∈ frames h
  known : ∀ f ∈ frames h, ∃ m ∈ pend ++ s.backlog ++ taken h, f = (m.sender, m.encode)
  each_once : once → (pend ++ s.backlog ++ taken h).Nodup

def State.Patient (s : State) : Prop := ∀ m ∈ s.backlog, s.phase < m.kind.opening

namespace State.Live
variable {s s' : State} {t : Scenario} {once : Prop} {pe : Nat} {pend : List Message}
  {h h' : List Event} {m : Message}

theorem not_heard (hl : s.Live t once pe (m :: pend) h) (ho : once) :
    ¬ Heard h m.kind m.sender := by
  rintro ⟨m', hm', hk, hs⟩
  have heq : m' = m := by
    rw [hl.record.genuine m' hm', hk, hs]
    exact (hl.genuine m (List.mem_cons_self ..)).symm
  have hnodup := hl.each_once ho
  rw [List.cons_append, List.cons_append, List.nodup_cons] at hnodup
  exact hnodup.1 (List.mem_append_right _ (heq ▸ hm'))

theorem advance (hl : s.Live t once pe pend h) {l : List (Nat × Message)} {c : List Call}
    (ha : Adds h h' l c) (hat : s'.At t pe (Heard h) once) (hmark : s'.mark = s.mark + 1)
    (hback : s'.backlog = s.backlog) (hround : t.Round once pe (s.mark + 1) h l)
    (hall : ∀ k q, t.Passes k pe q → k.saidFrom = s.mark + 1 →
      (∀ k', k.answers? = some k' → Heard h k' q) → ∃ m, (q, m) ∈ l ∧ m.kind = k)
    (hlevel : ∀ k q, t.Passes k q pe → k.neededFor = s.mark + 1 → Heard h k q)
    (hpassed : t.Passed pe (s.mark + 1)) (hc : c = if s.mark = 6 then t.handoffs pe else []) :
    s'.Live t once pe pend h' where
  state := by rw [ha.heard_eq]; exact hat
  record := by
    rw [hmark]
    exact hl.record.advance ha (Nat.lt_succ_self _) hround
      (fun k q hp hlt hle => hlevel k q hp (Nat.le_antisymm hle hlt)) hpassed
      (hl.record.handed_next hc)
  told k q hp hk hans := by
    rw [ha.heard_eq] at hans
    rw [hmark] at hk
    rw [ha.told_iff]
    rcases Nat.lt_or_eq_of_le hk with hlt | heq
    · exact .inl (hl.told k q hp (Nat.le_of_lt_succ hlt) hans)
    · exact .inr (hall k q hp heq hans)
  ordered := by rw [ha.heard_eq]; exact hl.ordered
  genuine := by rw [hback]; exact hl.genuine
  passes := by rw [hback]; exact hl.passes
  received := by rw [hback, ha.frames_eq]; exact hl.received
  known := by rw [hback, ha.frames_eq, ha.taken_eq]; exact hl.known
  each_once := by rw [hback, ha.taken_eq]; exact hl.each_once

theorem keep (hl : s.Live t once pe (m :: pend) h) :
    State.Live { s with backlog := s.backlog ++ [m] } t once pe pend h := by
  have hperm : (m :: pend ++ s.backlog).Perm (pend ++ (s.backlog ++ [m])) := by
    rw [← List.append_assoc]
    exact (List.perm_append_singleton m _).symm
  exact {
    state := { hl.state with }
    record := hl.record
    told := hl.told
    ordered := hl.ordered
    genuine := fun m' hm' => hl.genuine m' (hperm.mem_iff.2 hm')
    passes := fun m' hm' => hl.passes m' (hperm.mem_iff.2 hm')
    received := fun m' hm' => hl.received m' (hperm.mem_iff.2 hm')
    known := fun f hf => by
      obtain ⟨m', hm', heq⟩ := hl.known f hf
      exact ⟨m', (hperm.append_right _).mem_iff.1 hm', heq⟩
    each_once := fun ho => (hperm.append_right _).nodup_iff.1 (hl.each_once ho) }

theorem act (hl : s.Live t once pe (m :: pend) h) {answer : Option MessageKind} {h₁ : List Event}
    (ha : Adds h h₁ (answer.toList.map fun k => (m.sender, t.message k pe m.sender)) [])
    (hat : s'.At t pe (adding (Heard h) m.kind m.sender) once) (hmark : s'.mark = s.mark)
    (hback : s'.backlog = s.backlog) (hfrom : m.kind.actedFrom ≤ s.mark)
    (hdelivered : m.kind = .delivered → t.Passes .batch m.sender pe → Heard h .batch m.sender)
    (hanswer : ∀ k, answer = some k ↔ k.answers? = some m.kind ∧ k.saidFrom ≤ s.mark)
    (hfits : ∀ k, answer = some k → (t.message k pe m.sender).unfit? = none) :
    s'.Live t once pe pend (h₁ ++ [.accepted m]) := by
  have hacted : Answering t pe m answer h (h₁ ++ [.accepted m]) := ha.answering
  have hin : m ∈ m :: pend ++ s.backlog := List.mem_cons_self ..
  have hperm : (m :: pend ++ s.backlog ++ taken h).Perm
      (pend ++ s'.backlog ++ taken (h₁ ++ [.accepted m])) := by
    rw [hback, hacted.taken_eq, ← List.append_assoc]
    exact (List.perm_append_singleton m _).symm
  have hrecord : Record t once pe s.mark (h₁ ++ [.accepted m]) :=
    hl.record.act hacted (hl.genuine m hin) (hl.passes m hin) (hl.received m hin) hfrom
      hl.not_heard hanswer hfits
  exact {
    state := by rw [hacted.heard_eq]; exact hat
    record := hmark ▸ hrecord
    told := fun k q hpass hk hans => by
      rw [hacted.told_iff]
      rw [hmark] at hk
      by_cases hnow : answer = some k ∧ q = m.sender
      · exact .inr hnow
      · refine .inl (hl.told k q hpass hk fun k' hk' => ?_)
        have hh := hans k' hk'
        rw [hacted.heard_eq] at hh
        rcases hh with hh | ⟨rfl, rfl⟩
        · exact hh
        · exact absurd ⟨(hanswer k).2 ⟨hk', hk⟩, rfl⟩ hnow
    ordered := fun q hd hb => by
      rw [hacted.heard_eq] at hd ⊢
      rcases hd with hd | ⟨hkind, rfl⟩
      · exact .inl (hl.ordered q hd hb)
      · exact .inl (hdelivered hkind.symm hb)
    genuine := fun m' hm' => hl.genuine m' (List.mem_cons_of_mem _ (hback ▸ hm'))
    passes := fun m' hm' => hl.passes m' (List.mem_cons_of_mem _ (hback ▸ hm'))
    received := fun m' hm' =>
      hacted.frames_eq ▸ hl.received m' (List.mem_cons_of_mem _ (hback ▸ hm'))
    known := fun f hf => by
      rw [hacted.frames_eq] at hf
      obtain ⟨m', hm', heq⟩ := hl.known f hf
      exact ⟨m', hperm.mem_iff.1 hm', heq⟩
    each_once := fun ho => hperm.nodup_iff.1 (hl.each_once ho) }

end State.Live
end MeshNumbering
