import MeshNumbering.Processor.Advance
import MeshNumbering.Proofs.Scenario.Checks
import MeshNumbering.Proofs.Scenario.Rank

/-! What a processor has heard and said so far, read off its history. Its way through a run is
divided by marks; each mark fixes which messages must have come in and which may have gone out. -/

namespace MeshNumbering

namespace History

def sent (h : List Event) : List (Nat × Message) :=
  h.filterMap fun e =>
    match e with
    | .sent peer m => some (peer, m)
    | _ => none

def taken (h : List Event) : List Message :=
  h.filterMap fun e =>
    match e with
    | .accepted m => some m
    | _ => none

def frames (h : List Event) : List (Nat × Frame) :=
  h.filterMap fun e =>
    match e with
    | .heard sender frame => some (sender, frame)
    | _ => none

def handoffs (h : List Event) : List Call :=
  h.filterMap fun e =>
    match e with
    | .called (.worker setup) => some (.worker setup)
    | .called (.rows notice) => some (.rows notice)
    | _ => none

theorem sent_append (h h' : List Event) : sent (h ++ h') = sent h ++ sent h' :=
  List.filterMap_append ..

theorem taken_append (h h' : List Event) : taken (h ++ h') = taken h ++ taken h' :=
  List.filterMap_append ..

theorem frames_append (h h' : List Event) : frames (h ++ h') = frames h ++ frames h' :=
  List.filterMap_append ..

theorem handoffs_append (h h' : List Event) : handoffs (h ++ h') = handoffs h ++ handoffs h' :=
  List.filterMap_append ..

def Heard (h : List Event) (k : MessageKind) (q : Nat) : Prop :=
  ∃ m ∈ taken h, m.kind = k ∧ m.sender = q

def Told (h : List Event) (k : MessageKind) (q : Nat) : Prop :=
  ∃ m, (q, m) ∈ sent h ∧ m.kind = k

/-- From `h` to `h'` nothing is taken or received, and just these messages are sent and these
handoffs made. -/
structure Adds (h h' : List Event) (messages : List (Nat × Message)) (calls : List Call) :
    Prop where
  sent_eq : sent h' = sent h ++ messages
  taken_eq : taken h' = taken h
  frames_eq : frames h' = frames h
  handoffs_eq : handoffs h' = handoffs h ++ calls

section
variable {h h₁ h₂ h₃ : List Event} {l l' : List (Nat × Message)} {c c' : List Call}

theorem Adds.refl (h : List Event) : Adds h h [] [] where
  sent_eq := (List.append_nil _).symm
  taken_eq := rfl
  frames_eq := rfl
  handoffs_eq := (List.append_nil _).symm

theorem Adds.trans (h₁₂ : Adds h₁ h₂ l c) (h₂₃ : Adds h₂ h₃ l' c') :
    Adds h₁ h₃ (l ++ l') (c ++ c') where
  sent_eq := by rw [h₂₃.sent_eq, h₁₂.sent_eq, List.append_assoc]
  taken_eq := h₂₃.taken_eq.trans h₁₂.taken_eq
  frames_eq := h₂₃.frames_eq.trans h₁₂.frames_eq
  handoffs_eq := by rw [h₂₃.handoffs_eq, h₁₂.handoffs_eq, List.append_assoc]

theorem Adds.of_append (events : List Event) (ht : taken events = []) (hf : frames events = []) :
    Adds h (h ++ events) (sent events) (handoffs events) where
  sent_eq := sent_append ..
  taken_eq := by rw [taken_append, ht, List.append_nil]
  frames_eq := by rw [frames_append, hf, List.append_nil]
  handoffs_eq := handoffs_append ..

theorem adds_enter {p : Phase} : Adds h (h ++ [.entered p]) [] [] := .of_append _ rfl rfl

theorem adds_milestone {m : Milestone} : Adds h (h ++ [.called (.milestone m)]) [] [] :=
  .of_append _ rfl rfl

theorem adds_send {q : Nat} {m : Message} : Adds h (h ++ [.sent q m]) [(q, m)] [] :=
  .of_append _ rfl rfl

theorem adds_sends {β : Type} (peers : List β) (peer : β → Nat) (m : β → Message) :
    Adds h (h ++ peers.map fun b => .sent (peer b) (m b)) (peers.map fun b => (peer b, m b))
      [] := by
  induction peers generalizing h with
  | nil => simpa using Adds.refl h
  | cons b peers ih =>
    have := (adds_send (h := h) (q := peer b) (m := m b)).trans ih
    simpa using this

theorem Adds.heard_eq (ha : Adds h h₁ l c) : Heard h₁ = Heard h := by
  funext k q
  rw [Heard, Heard, ha.taken_eq]

theorem Adds.told_iff (ha : Adds h h₁ l c) {k : MessageKind} {q : Nat} :
    Told h₁ k q ↔ Told h k q ∨ ∃ m, (q, m) ∈ l ∧ m.kind = k := by
  simp only [Told, ha.sent_eq, List.mem_append, or_and_right, exists_or]

end

end History

/-! Marks. -/

/-- How far a stage is: 2, 5 and 8 are reached within a phase, when the receipts are in, the own ids
are given out, or the costs are known. -/
def Stage.mark : Stage → Nat
  | .setup _ => 0
  | .shipping s => if s.announced then 2 else 1
  | .indexed _ => 3
  | .numbering s => if s.numbering.isGivenOut then 5 else 4
  | .bounding _ => 6
  | .costing s => if s.announced then 8 else 7
  | .done _ => 9

def State.mark (s : State) : Nat := s.stage.mark

namespace MessageKind

def actedFrom : MessageKind → Nat
  | batch | receipt => 1
  | query | mask => 3
  | request | assigned => 4
  | _ => 0

def saidFrom : MessageKind → Nat
  | batch => 1
  | delivered => 2
  | query => 3
  | offset => 4
  | request | assigned => 5
  | lower => 6
  | cost => 7
  | deviation => 8
  | _ => 0

/-- The mark that is reached only when everything of a kind has come; questions are not waited
for. -/
def neededFor : MessageKind → Nat
  | load => 1
  | receipt => 2
  | batch | delivered => 3
  | mask => 4
  | offset => 5
  | assigned => 6
  | lower => 7
  | cost => 8
  | deviation => 9
  | query | request | abort => 10

def answers? : MessageKind → Option MessageKind
  | receipt => some batch
  | mask => some query
  | assigned => some request
  | _ => none

def isQuestion : MessageKind → Bool
  | batch | query | request => true
  | _ => false

end MessageKind

/-- Failures that tell of a message that should not have come. -/
def Fault.isMisdelivery : Fault → Bool
  | .masksMissing .. | .requestNotOwn .. | .idNotRequested .. | .nodeNotHeld ..
  | .nodeUnnumbered .. | .foreignChare .. | .outOfPhase .. | .repeated .. => true
  | _ => false

theorem Scenario.passes_answer {t : Scenario} {k k' : MessageKind} {p q : Nat}
    (h : k'.answers? = some k) : t.Passes k' p q ↔ t.Passes k q p := by
  cases k' <;> cases h
  all_goals
    simp only [Passes]
    constructor
    all_goals
      rintro ⟨hp, hq, h⟩
      exact ⟨hq, hp, h⟩

open History

structure Scenario.Due (t : Scenario) (pe μ : Nat) (h : List Event) (q : Nat) (m : Message) :
    Prop where
  genuine : m = t.message m.kind pe q
  passes : t.Passes m.kind pe q
  fits : m.unfit? = none
  saidFrom_le : m.kind.saidFrom ≤ μ
  asked : ∀ k, m.kind.answers? = some k → Heard h k q

structure Scenario.Round (t : Scenario) (once : Prop) (pe μ : Nat) (h : List Event)
    (l : List (Nat × Message)) : Prop where
  due : ∀ q m, (q, m) ∈ l → t.Due pe μ h q m
  saidFrom_eq : ∀ q m, (q, m) ∈ l → m.kind.saidFrom = μ
  each_once : once → l.Nodup

namespace Scenario.Round
variable {t : Scenario} {once : Prop} {pe μ : Nat} {h : List Event} {l l' : List (Nat × Message)}

theorem nil : t.Round once pe μ h [] := ⟨by simp, by simp, fun _ => .nil⟩

theorem append (hl : t.Round once pe μ h l) (hl' : t.Round once pe μ h l')
    {k k' : MessageKind} (hk : ∀ x ∈ l, x.2.kind = k) (hk' : ∀ x ∈ l', x.2.kind = k')
    (hne : k ≠ k') : t.Round once pe μ h (l ++ l') where
  due q m hm := (List.mem_append.1 hm).elim (hl.due q m) (hl'.due q m)
  saidFrom_eq q m hm := (List.mem_append.1 hm).elim (hl.saidFrom_eq q m) (hl'.saidFrom_eq q m)
  each_once ho := List.nodup_append.2 ⟨hl.each_once ho, hl'.each_once ho,
    fun x hx y hy hxy => hne (by rw [← hk x hx, hxy, hk' y hy])⟩

theorem of_kind {k : MessageKind} (hk : k.saidFrom = μ) (hnodup : once → (l.map Prod.fst).Nodup)
    (hl : ∀ q m, (q, m) ∈ l → m = t.message k pe q ∧ t.Passes k pe q ∧ m.unfit? = none ∧
      ∀ k', k.answers? = some k' → Heard h k' q) : t.Round once pe μ h l where
  due q m hm := by
    obtain ⟨rfl, hp, hf, ha⟩ := hl q m hm
    exact ⟨by rw [kind_message], by rwa [kind_message], hf, by rw [kind_message, hk],
      by rwa [kind_message]⟩
  saidFrom_eq q m hm := by
    obtain ⟨rfl, -⟩ := hl q m hm
    rw [kind_message, hk]
  each_once ho := .of_map _ (hnodup ho)

end Scenario.Round

/-- What the history of a processor up to mark `μ` holds; `once` says that every message reaches it
at most once. -/
structure Record (t : Scenario) (once : Prop) (pe μ : Nat) (h : List Event) : Prop where
  pe_lt : pe < t.npes
  due : ∀ q m, (q, m) ∈ sent h → t.Due pe μ h q m
  genuine : ∀ m ∈ taken h, m = t.message m.kind m.sender pe
  passes : ∀ m ∈ taken h, t.Passes m.kind m.sender pe
  received : ∀ m ∈ taken h, (m.sender, m.encode) ∈ frames h
  actedFrom_le : ∀ m ∈ taken h, m.kind.actedFrom ≤ μ
  level : ∀ k q, t.Passes k q pe → k.neededFor ≤ μ → Heard h k q
  passed : t.Passed pe μ
  handed : handoffs h = if μ < 7 then [] else t.handoffs pe
  sent_once : once → (sent h).Nodup

namespace Record
variable {t : Scenario} {once : Prop} {pe μ μ' : Nat} {h h' : List Event}
  {l : List (Nat × Message)} {c : List Call}

theorem heard_passes (hr : Record t once pe μ h) {k : MessageKind} {q : Nat} (hh : Heard h k q) :
    t.Passes k q pe := by
  obtain ⟨m, hm, rfl, rfl⟩ := hh
  exact hr.passes m hm

theorem heard_lt (hr : Record t once pe μ h) {k : MessageKind} {q : Nat} (hh : Heard h k q) :
    q < t.npes := (hr.heard_passes hh).1

theorem handed_next (hr : Record t once pe μ h) (hc : c = if μ = 6 then t.handoffs pe else []) :
    handoffs h ++ c = if μ + 1 < 7 then [] else t.handoffs pe := by
  rw [hr.handed, hc]
  rcases Nat.lt_trichotomy μ 6 with hlt | rfl | hgt
  · rw [if_pos (by omega), if_neg (by omega), if_pos (by omega)]
    rfl
  · rfl
  · rw [if_neg (by omega), if_neg (by omega), if_neg (by omega), List.append_nil]

theorem quiet (hr : Record t once pe μ h) (ha : Adds h h' [] []) : Record t once pe μ h' := by
  have hs : sent h' = sent h := by rw [ha.sent_eq, List.append_nil]
  have hc : handoffs h' = handoffs h := by rw [ha.handoffs_eq, List.append_nil]
  exact {
    pe_lt := hr.pe_lt
    due := fun q m hm => by
      obtain ⟨hg, hp, hf, hs, hk⟩ := hr.due q m (hs ▸ hm)
      exact ⟨hg, hp, hf, hs, fun k hk' => ha.heard_eq ▸ hk k hk'⟩
    genuine := by rw [ha.taken_eq]; exact hr.genuine
    passes := by rw [ha.taken_eq]; exact hr.passes
    received := by rw [ha.taken_eq, ha.frames_eq]; exact hr.received
    actedFrom_le := by rw [ha.taken_eq]; exact hr.actedFrom_le
    level := by rw [ha.heard_eq]; exact hr.level
    passed := hr.passed
    handed := by rw [hc]; exact hr.handed
    sent_once := by rw [hs]; exact hr.sent_once }

theorem not_heard_of_lt (hr : Record t once pe μ h) {k : MessageKind} (hk : μ < k.actedFrom)
    (q : Nat) : ¬ Heard h k q := by
  rintro ⟨m, hm, rfl, -⟩
  exact Nat.not_le_of_lt hk (hr.actedFrom_le m hm)

theorem advance (hr : Record t once pe μ h) (ha : Adds h h' l c) (hμ : μ < μ')
    (hl : t.Round once pe μ' h l)
    (hlevel : ∀ k q, t.Passes k q pe → μ < k.neededFor → k.neededFor ≤ μ' → Heard h k q)
    (hpassed : t.Passed pe μ')
    (hc : handoffs h ++ c = if μ' < 7 then [] else t.handoffs pe) : Record t once pe μ' h' where
  pe_lt := hr.pe_lt
  due q m hm := by
    have hh := ha.heard_eq
    rw [ha.sent_eq, List.mem_append] at hm
    rcases hm with hm | hm
    · obtain ⟨hg, hp, hf, hs, hk⟩ := hr.due q m hm
      exact ⟨hg, hp, hf, hs.trans (Nat.le_of_lt hμ), fun k hk' => hh ▸ hk k hk'⟩
    · obtain ⟨hg, hp, hf, hs, hk⟩ := hl.due q m hm
      exact ⟨hg, hp, hf, hs, fun k hk' => hh ▸ hk k hk'⟩
  genuine := by rw [ha.taken_eq]; exact hr.genuine
  passes := by rw [ha.taken_eq]; exact hr.passes
  received := by rw [ha.taken_eq, ha.frames_eq]; exact hr.received
  actedFrom_le m hm := by
    rw [ha.taken_eq] at hm
    exact (hr.actedFrom_le m hm).trans (Nat.le_of_lt hμ)
  level k q hp hk := by
    rw [ha.heard_eq]
    rcases Nat.lt_or_ge μ k.neededFor with hlt | hle
    · exact hlevel k q hp hlt hk
    · exact hr.level k q hp hle
  passed := hpassed
  handed := by rw [ha.handoffs_eq, hc]
  sent_once ho := by
    rw [ha.sent_eq, List.nodup_append]
    refine ⟨hr.sent_once ho, hl.each_once ho, fun x hx y hy hxy => ?_⟩
    subst hxy
    have hle := (hr.due x.1 x.2 hx).saidFrom_le
    rw [hl.saidFrom_eq x.1 x.2 hy] at hle
    omega

end Record
end MeshNumbering
