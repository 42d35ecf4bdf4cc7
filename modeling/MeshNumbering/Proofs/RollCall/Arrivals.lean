import MeshNumbering.CostSurvey
import MeshNumbering.Offsets
import MeshNumbering.Proofs.RollCall
import MeshNumbering.Proofs.Span
import MeshNumbering.Proofs.Steps

/-! Contributions as they arrive, in any order and some of them again. What a processor contributes
first is kept and everything else about the arrival is forgotten. So processors that hear the same
counts divide the new ids among them without a gap, and processors that hear the same costs come to
the same statistics. -/

namespace MeshNumbering

section
variable {σ β ε : Type} {f : σ → β → Except ε σ} {s : σ}

def attemptAll (f : σ → β → Except ε σ) (s : σ) (l : List β) : σ :=
  l.foldl (fun s b => (f s b).toOption.getD s) s

theorem attemptAll_cons {b : β} {l : List β} :
    attemptAll f s (b :: l) = attemptAll f ((f s b).toOption.getD s) l := rfl

end

def Consistent {α : Type} (l : List (Nat × α)) : Prop := ∀ x ∈ l, ∀ y ∈ l, x.1 = y.1 → x = y

theorem Consistent.findIn_eq_some_iff {α : Type} {l : List (Nat × α)} (hl : Consistent l) {q : Nat}
    {a : α} : NatMap.findIn q l = some a ↔ (q, a) ∈ l := by
  refine ⟨NatMap.mem_of_findIn, fun ha => ?_⟩
  obtain ⟨b, hb⟩ := NatMap.exists_findIn_iff.2 (List.mem_map_of_mem ha)
  obtain ⟨-, rfl⟩ := Prod.mk.inj (hl _ ha _ (NatMap.mem_of_findIn hb) rfl)
  exact hb

theorem consistent_map {α : Type} (f : Nat → α) (l : List Nat) :
    Consistent (l.map fun q => (q, f q)) := by
  intro x hx y hy hxy
  obtain ⟨p, -, rfl⟩ := List.mem_map.1 hx
  obtain ⟨q, -, rfl⟩ := List.mem_map.1 hy
  obtain rfl : p = q := hxy
  rfl

namespace RollCall
variable {α : Type} {r : RollCall α} {kind : MessageKind} {n pe pe' q : Nat} {a : α}
  {l l' : List (Nat × α)}

def gather (r : RollCall α) (pe : Nat) (l : List (Nat × α)) : RollCall α :=
  attemptAll (fun r x => r.record pe x.1 x.2) r l

theorem gather_cons {x : Nat × α} :
    r.gather pe (x :: l) = ((r.record pe x.1 x.2).toOption.getD r).gather pe l := rfl

theorem gather_eq (r : RollCall α) (pe : Nat) (l : List (Nat × α)) :
    ∃ heard, r.gather pe l = { r with heard } ∧
      ∀ q, heard.get? q = (r.heard.get? q).or (NatMap.findIn q l) := by
  induction l generalizing r with
  | nil => exact ⟨r.heard, rfl, fun q => (Option.or_none ..).symm⟩
  | cons x l ih =>
    rw [gather, attemptAll_cons]
    unfold record
    split
    · next hc =>
      -- A second contribution has been made before, so the rest of the list decides nothing new.
      obtain ⟨heard, heq, hget⟩ := ih r
      refine ⟨heard, heq, fun q => (hget q).trans ?_⟩
      rw [NatMap.findIn]
      split
      · next hq =>
        obtain ⟨a, ha⟩ := Option.isSome_iff_exists.1 hc
        rw [← hq, ha]
        rfl
      · rfl
    · next hc =>
      obtain ⟨heard, heq, hget⟩ := ih { r with heard := r.heard.insert x.1 x.2 }
      refine ⟨heard, heq, fun q => (hget q).trans ?_⟩
      rw [NatMap.get?_insert, NatMap.findIn]
      split
      · next hq =>
        have hnone : r.heard.get? q = none := by
          rw [hq]
          simpa [NatMap.contains] using hc
        rw [if_pos hq.symm, hnone]
        rfl
      · next hq => rw [if_neg fun heq => hq heq.symm]

theorem gather_start_eq (kind : MessageKind) (n pe : Nat) (l : List (Nat × α)) :
    ∃ heard, (start kind n).gather pe l = ⟨kind, n, heard⟩ ∧
      ∀ q, heard.get? q = NatMap.findIn q l :=
  gather_eq (start kind n) pe l

theorem gather_congr (hl : Consistent l) (h : ∀ x, x ∈ l' ↔ x ∈ l) :
    (start kind n : RollCall α).gather pe' l' = (start kind n).gather pe l := by
  obtain ⟨heard, heq, hget⟩ := gather_start_eq kind n pe l
  obtain ⟨heard', heq', hget'⟩ := gather_start_eq kind n pe' l'
  have hl' : Consistent l' := fun x hx y hy => hl x ((h x).1 hx) y ((h y).1 hy)
  have hheard : heard' = heard := by
    ext q a
    rw [hget, hget', hl.findIn_eq_some_iff, hl'.findIn_eq_some_iff, h]
  rw [heq, heq', hheard]

/-- What a roll call of `n` processors has come to with the contributions `l`. -/
structure Gathered (r : RollCall α) (kind : MessageKind) (n : Nat) (l : List (Nat × α)) :
    Prop where
  rejects_iff : ∀ pe q a e,
    r.record pe q a = .error e ↔ q ∈ l.map Prod.fst ∧ e = .repeated pe q kind
  unchanged : ∀ pe q a, q ∈ l.map Prod.fst → r.gather pe [(q, a)] = r
  isComplete_iff : r.isComplete = true ↔ ∀ q < n, q ∈ l.map Prod.fst
  remains : r.isComplete = true → ∀ pe later, (∀ x ∈ later, x.1 < n) →
    (r.gather pe later).isComplete = true
  ascending : (r.contributions.map Prod.fst).Pairwise (· < ·)
  mem_contributions : ∀ q a, (q, a) ∈ r.contributions ↔ NatMap.findIn q l = some a

theorem isComplete_iff_heard (hexpected : r.expected = n)
    (hlt : ∀ q a, r.heard.get? q = some a → q < n) :
    r.isComplete = true ↔ ∀ q < n, ∃ a, r.heard.get? q = some a := by
  rw [isComplete, decide_eq_true_eq, hexpected, NatMap.size_eq_iff hlt]

theorem isComplete_gather (hexpected : r.expected = n)
    (hlt : ∀ q a, r.heard.get? q = some a → q < n) (hl : ∀ x ∈ l, x.1 < n)
    (hc : r.isComplete = true) : (r.gather pe l).isComplete = true := by
  obtain ⟨heard, heq, hget⟩ := gather_eq r pe l
  have hlt' : ∀ q a, heard.get? q = some a → q < n := fun q a ha => by
    rw [hget, Option.or_eq_some_iff] at ha
    rcases ha with ha | ⟨-, ha⟩
    · exact hlt q a ha
    · exact hl _ (NatMap.mem_of_findIn ha)
  rw [isComplete_iff_heard hexpected hlt] at hc
  rw [heq, isComplete_iff_heard (r := { r with heard }) hexpected hlt']
  intro q hq
  obtain ⟨a, ha⟩ := hc q hq
  exact ⟨a, by rw [hget, ha]; rfl⟩

theorem gathered (kind : MessageKind) (pe : Nat) (hl : ∀ x ∈ l, x.1 < n) :
    ((start kind n).gather pe l).Gathered kind n l := by
  obtain ⟨heard, heq, hget⟩ := gather_start_eq kind n pe l
  have hcontains : ∀ q, heard.contains q = true ↔ q ∈ l.map Prod.fst := fun q => by
    rw [NatMap.contains, Option.isSome_iff_exists, hget, NatMap.exists_findIn_iff]
  have hlt : ∀ q a, heard.get? q = some a → q < n := fun q a ha =>
    hl _ (NatMap.mem_of_findIn ((hget q).symm.trans ha))
  have hrecord : ∀ pe q a, q ∈ l.map Prod.fst →
      (⟨kind, n, heard⟩ : RollCall α).record pe q a = .error (.repeated pe q kind) :=
    fun pe q a hq => if_pos ((hcontains q).2 hq)
  rw [heq]
  exact {
    rejects_iff := fun pe q a e => by
      constructor
      · intro he
        by_cases hq : q ∈ l.map Prod.fst
        · exact ⟨hq, (Except.error.inj ((hrecord pe q a hq).symm.trans he)).symm⟩
        · rw [record, if_neg fun hc => hq ((hcontains q).1 hc)] at he
          cases he
      · rintro ⟨hq, rfl⟩
        exact hrecord pe q a hq
    unchanged := fun pe q a hq => by
      rw [gather, attemptAll_cons, hrecord pe q a hq]
      rfl
    isComplete_iff := by
      rw [isComplete_iff_heard rfl hlt]
      simp only [hget, NatMap.exists_findIn_iff]
    remains := fun hc pe later hlater => isComplete_gather rfl hlt hlater hc
    ascending := heard.ascending
    mem_contributions := fun q a => by
      rw [← hget, NatMap.get?_eq_some_iff]
      rfl }

theorem gather_eq_full {f : Nat → α} {order : List Nat} (hlt : ∀ q ∈ order, q < n)
    (hall : ∀ q < n, q ∈ order) :
    (start kind n).gather pe (order.map fun q => (q, f q)) = full kind n f := by
  obtain ⟨heard, heq, hget⟩ := gather_start_eq kind n pe (order.map fun q => (q, f q))
  have hheard : heard = .tabulate n f := NatMap.eq_tabulate fun q a => by
    rw [hget, (consistent_map f order).findIn_eq_some_iff, List.mem_map]
    constructor
    · rintro ⟨p, hp, heq⟩
      obtain ⟨rfl, rfl⟩ := Prod.mk.inj heq
      exact ⟨hlt p hp, rfl⟩
    · rintro ⟨hq, rfl⟩
      exact ⟨q, hall q hq, rfl⟩
  rw [heq, full, hheard]

end RollCall

namespace Offsets
variable {o : Offsets} {n pe : Nat} {count : Nat → Nat} {order : List Nat}

def gather (o : Offsets) (l : List (Nat × Nat)) : Offsets :=
  attemptAll (fun o x => o.record x.1 x.2) o l

theorem gather_eq (o : Offsets) (l : List (Nat × Nat)) :
    o.gather l = { o with counts := o.counts.gather o.pe l } := by
  induction l generalizing o with
  | nil => rfl
  | cons x l ih =>
    rw [gather, RollCall.gather, attemptAll_cons, attemptAll_cons]
    unfold record
    cases o.counts.record o.pe x.1 x.2 with
    | error e => exact ih o
    | ok counts => exact ih { o with counts }

/-- The ids of each processor begin where those of the one before end, so no id is given twice and
none is left out. -/
structure Divides (base : Nat → Nat) (count : Nat → Nat) (n total : Nat) : Prop where
  first : base 0 = 0
  next : ∀ pe, base (pe + 1) = base pe + count pe
  last : ∀ pe, pe + 1 = n → base pe + count pe = total
  tiles : Span.Tiles (fun pe => ⟨base pe, base pe + count pe⟩) n total
  given_once : ∀ id, id < total ↔
    ∃! pe, pe < n ∧ id ∈ (⟨base pe, base pe + count pe⟩ : Span)

theorem sum_range_succ (count : Nat → Nat) (pe : Nat) :
    sum ((List.range (pe + 1)).map count) = sum ((List.range pe).map count) + count pe := by
  simp [sum_eq, List.range_succ]

theorem divides (count : Nat → Nat) (n : Nat) :
    Divides (fun pe => sum ((List.range pe).map count)) count n
      (sum ((List.range n).map count)) := by
  have htiles : Span.Tiles (fun pe => ⟨sum ((List.range pe).map count),
      sum ((List.range pe).map count) + count pe⟩) n (sum ((List.range n).map count)) := {
    ordered := fun pe _ => Nat.le_add_right ..
    starts := rfl
    adjoins := fun pe _ => (sum_range_succ count pe).symm
    ends := fun pe hpe => hpe ▸ (sum_range_succ count pe).symm }
  refine ⟨rfl, sum_range_succ count, htiles.ends, htiles, fun id => ?_⟩
  rcases Nat.eq_zero_or_pos n with rfl | hpos
  · exact ⟨fun hid => absurd hid (Nat.not_lt_zero id), fun ⟨_, ⟨hpe, _⟩, _⟩ =>
      absurd hpe (Nat.not_lt_zero _)⟩
  · exact htiles.existsUnique_mem_iff hpos

/-- With the last count, and not before, a processor knows where its ids begin and how many ids
there are. -/
structure Learns (o : Offsets) (all : Prop) (base total : Nat) : Prop where
  before : ¬ all → o.base? = none ∧ o.total? = none
  after : all → o.base? = some base ∧ o.total? = some total

theorem gather_of_missing (hlt : ∀ q ∈ order, q < n) (hmissing : ¬ ∀ q < n, q ∈ order) :
    ((start pe n).gather (order.map fun q => (q, count q))).base? = none ∧
      ((start pe n).gather (order.map fun q => (q, count q))).total? = none := by
  have hcounts : ((RollCall.start .offset n).gather pe (order.map fun q => (q, count q))).Gathered
      .offset n (order.map fun q => (q, count q)) :=
    RollCall.gathered .offset pe (List.forall_mem_map.2 hlt)
  have hincomplete : ¬ ((start pe n).gather (order.map fun q => (q, count q))).isComplete := by
    rw [gather_eq]
    intro hc
    apply hmissing
    simpa [Function.comp_def] using hcounts.isComplete_iff.1 hc
  exact ⟨if_neg hincomplete, if_neg hincomplete⟩

theorem gather_of_all (hpe : pe < n) (hlt : ∀ q ∈ order, q < n) (hall : ∀ q < n, q ∈ order) :
    ((start pe n).gather (order.map fun q => (q, count q))).base? =
        some (sum ((List.range pe).map count)) ∧
      ((start pe n).gather (order.map fun q => (q, count q))).total? =
        some (sum ((List.range n).map count)) := by
  have hfull : (start pe n).gather (order.map fun q => (q, count q)) =
      ⟨pe, .full .offset n count⟩ := by
    rw [gather_eq]
    exact congrArg (Offsets.mk pe) (RollCall.gather_eq_full hlt hall)
  have hcomplete : isComplete ⟨pe, .full .offset n count⟩ = true := RollCall.isComplete_full
  rw [hfull, base?, total?, if_pos hcomplete, if_pos hcomplete,
    RollCall.takeWhile_contributions_full hpe.le, RollCall.contributions_full, List.map_map,
    List.map_map]
  exact ⟨rfl, rfl⟩

end Offsets

namespace CostSurvey

inductive Report where
  | cost (sender : Nat) (value : Float)
  | deviation (sender : Nat) (value : Float)

namespace Report

def sender : Report → Nat
  | cost q _ | deviation q _ => q

def cost? : Report → Option (Nat × Float)
  | cost q v => some (q, v)
  | _ => none

def deviation? : Report → Option (Nat × Float)
  | deviation q v => some (q, v)
  | _ => none

theorem cost?_eq_some_iff (r : Report) (q : Nat) (v : Float) :
    r.cost? = some (q, v) ↔ r = .cost q v := by
  cases r <;> simp [cost?]

theorem deviation?_eq_some_iff (r : Report) (q : Nat) (v : Float) :
    r.deviation? = some (q, v) ↔ r = .deviation q v := by
  cases r <;> simp [deviation?]

end Report

variable {x : CostSurvey} {l l' : List Report} {n pe pe' : Nat}

def record (x : CostSurvey) : Report → Except Fault CostSurvey
  | .cost q v => x.recordCost q v
  | .deviation q v => x.recordDeviation q v

def gather (x : CostSurvey) (l : List Report) : CostSurvey := attemptAll record x l

theorem gather_eq (x : CostSurvey) (l : List Report) : x.gather l =
    { x with
      costs := x.costs.gather x.pe (l.filterMap Report.cost?)
      deviations := x.deviations.gather x.pe (l.filterMap Report.deviation?) } := by
  induction l generalizing x with
  | nil => rfl
  | cons r l ih =>
    rw [gather, attemptAll_cons]
    cases r with
    | cost q v =>
      show gather ((x.recordCost q v).toOption.getD x) l = _
      rw [ih, List.filterMap_cons_some (f := Report.cost?) rfl,
        List.filterMap_cons_none (f := Report.deviation?) rfl, RollCall.gather_cons, recordCost]
      cases x.costs.record x.pe q v <;> rfl
    | deviation q v =>
      show gather ((x.recordDeviation q v).toOption.getD x) l = _
      rw [ih, List.filterMap_cons_none (f := Report.cost?) rfl,
        List.filterMap_cons_some (f := Report.deviation?) rfl, RollCall.gather_cons,
        recordDeviation]
      cases x.deviations.record x.pe q v <;> rfl

theorem gather_costs (pe : Nat) (l : List Report) :
    ((start pe n).gather l).costs = (RollCall.start .cost n).gather pe (l.filterMap Report.cost?) :=
  congrArg costs (gather_eq ..)

theorem gather_deviations (pe : Nat) (l : List Report) : ((start pe n).gather l).deviations =
    (RollCall.start .deviation n).gather pe (l.filterMap Report.deviation?) :=
  congrArg deviations (gather_eq ..)

/-- Of each processor at most one cost and one deviation are reported. -/
structure Sound (l : List Report) : Prop where
  costs : Consistent (l.filterMap Report.cost?)
  deviations : Consistent (l.filterMap Report.deviation?)

structure Agree (x y : CostSurvey) : Prop where
  mean : x.mean? = y.mean?
  statistics : x.statistics? = y.statistics?

theorem agree (hl : Sound l) (h : ∀ r, r ∈ l' ↔ r ∈ l) :
    Agree ((start pe' n).gather l') ((start pe n).gather l) := by
  have hcosts : ((start pe' n).gather l').costs = ((start pe n).gather l).costs := by
    rw [gather_costs, gather_costs]
    exact RollCall.gather_congr hl.costs fun x => by simp only [List.mem_filterMap, h]
  have hdeviations : ((start pe' n).gather l').deviations = ((start pe n).gather l).deviations := by
    rw [gather_deviations, gather_deviations]
    exact RollCall.gather_congr hl.deviations fun x => by simp only [List.mem_filterMap, h]
  have hmean : ((start pe' n).gather l').mean? = ((start pe n).gather l).mean? := by
    rw [mean?, mean?, hcosts]
  refine ⟨hmean, ?_⟩
  rw [statistics?, statistics?, hmean, hcosts, hdeviations]

/-- The mean is known with the last cost, and the rest with the last deviation. -/
structure Learns (x : CostSurvey) (n : Nat) (l : List Report) : Prop where
  mean : x.mean?.isSome ↔ ∀ q < n, ∃ v, .cost q v ∈ l
  statistics : x.statistics?.isSome ↔
    (∀ q < n, ∃ v, .cost q v ∈ l) ∧ ∀ q < n, ∃ v, .deviation q v ∈ l

theorem isSome_mean? (x : CostSurvey) : x.mean?.isSome ↔ x.costs.isComplete = true := by
  rw [mean?]
  split
  · next hc => exact iff_of_true rfl hc
  · next hc => exact iff_of_false Bool.false_ne_true hc

theorem isSome_statistics? (x : CostSurvey) : x.statistics?.isSome ↔
    x.costs.isComplete = true ∧ x.deviations.isComplete = true := by
  rw [← isSome_mean?, statistics?]
  cases x.mean? with
  | none => simp
  | some mean =>
    show (if x.deviations.isComplete then some _ else none).isSome ↔ _
    split
    · next hc => exact iff_of_true rfl ⟨rfl, hc⟩
    · next hc => exact iff_of_false Bool.false_ne_true fun h => hc h.2

theorem mem_senders_iff {read : Report → Option (Nat × Float)} {say : Nat → Float → Report}
    (hread : ∀ r q v, read r = some (q, v) ↔ r = say q v) {q : Nat} :
    q ∈ (l.filterMap read).map Prod.fst ↔ ∃ v, say q v ∈ l := by
  rw [List.mem_map]
  constructor
  · rintro ⟨⟨_, v⟩, hv, rfl⟩
    obtain ⟨r, hr, heq⟩ := List.mem_filterMap.1 hv
    exact ⟨v, (hread ..).1 heq ▸ hr⟩
  · rintro ⟨v, hv⟩
    exact ⟨(q, v), List.mem_filterMap.2 ⟨_, hv, (hread ..).2 rfl⟩, rfl⟩

theorem isComplete_gather_iff {kind : MessageKind} {read : Report → Option (Nat × Float)}
    {say : Nat → Float → Report} (hread : ∀ r q v, read r = some (q, v) ↔ r = say q v)
    (hsender : ∀ q v, (say q v).sender = q) (hl : ∀ r ∈ l, r.sender < n) :
    ((RollCall.start kind n).gather pe (l.filterMap read)).isComplete = true ↔
      ∀ q < n, ∃ v, say q v ∈ l := by
  have hlt : ∀ x ∈ l.filterMap read, x.1 < n := fun x hx => by
    obtain ⟨r, hr, heq⟩ := List.mem_filterMap.1 hx
    have hsaid := hl r hr
    rwa [(hread r x.1 x.2).1 heq, hsender] at hsaid
  rw [(RollCall.gathered kind pe hlt).isComplete_iff]
  exact forall₂_congr fun q _ => mem_senders_iff hread

theorem learns (hl : ∀ r ∈ l, r.sender < n) : ((start pe n).gather l).Learns n l := by
  have hcosts : ((start pe n).gather l).costs.isComplete = true ↔
      ∀ q < n, ∃ v, Report.cost q v ∈ l := by
    rw [gather_costs]
    exact isComplete_gather_iff Report.cost?_eq_some_iff (fun _ _ => rfl) hl
  have hdeviations : ((start pe n).gather l).deviations.isComplete = true ↔
      ∀ q < n, ∃ v, Report.deviation q v ∈ l := by
    rw [gather_deviations]
    exact isComplete_gather_iff Report.deviation?_eq_some_iff (fun _ _ => rfl) hl
  constructor
  · rw [isSome_mean?, hcosts]
  · rw [isSome_statistics?, hcosts, hdeviations]

end CostSurvey

/-- Contributions come to the same in any order of arrival: roll calls hold the same, the ids of all
processors fit together although each computes its own, and statistics agree. -/
theorem RollCall.gathers_in_any_order (n : Nat) :
    (∀ (α : Type) (kind : MessageKind) (pe : Nat) (l : List (Nat × α)), (∀ x ∈ l, x.1 < n) →
      ((start kind n).gather pe l).Gathered kind n l ∧
        ∀ pe' l', Consistent l → (∀ x, x ∈ l' ↔ x ∈ l) →
          (start kind n).gather pe' l' = (start kind n).gather pe l) ∧
    (∀ count : Nat → Nat, ∃ base total, Offsets.Divides base count n total ∧
      ∀ pe < n, ∀ order : List Nat, (∀ q ∈ order, q < n) →
        ((Offsets.start pe n).gather (order.map fun q => (q, count q))).Learns
          (∀ q < n, q ∈ order) (base pe) total) ∧
    ∀ (pe : Nat) (l : List CostSurvey.Report), (∀ r ∈ l, r.sender < n) →
      ((CostSurvey.start pe n).gather l).Learns n l ∧
        ∀ pe' l', CostSurvey.Sound l → (∀ r, r ∈ l' ↔ r ∈ l) →
          ((CostSurvey.start pe' n).gather l').Agree ((CostSurvey.start pe n).gather l) := by
  refine ⟨fun α kind pe l hlt => ⟨gathered kind pe hlt, fun pe' l' hl h => gather_congr hl h⟩,
    fun count => ?_, fun pe l hlt => ⟨CostSurvey.learns hlt, fun pe' l' hl h =>
      CostSurvey.agree hl h⟩⟩
  refine ⟨_, _, Offsets.divides count n, fun pe hpe order hlt => ?_⟩
  exact ⟨Offsets.gather_of_missing hlt, Offsets.gather_of_all hpe hlt⟩

theorem RollCall.three_gather_alike :
    (∃ e, ((start .offset 3).gather 0 [(2, 4), (0, 5), (2, 4)]).record 0 2 4 = .error e) ∧
    ((start .offset 3).gather 0 [(2, 4), (0, 5), (2, 4)]).isComplete ≠ true ∧
    (start .offset 3).gather 1 [(0, 5), (2, 4)] =
      (start .offset 3).gather 0 [(2, 4), (0, 5), (2, 4)] ∧
    ((Offsets.start 0 3).gather [(2, 4), (0, 5), (2, 4)]).total? = none ∧
    ((Offsets.start 1 3).gather [(2, 4), (0, 5), (2, 4), (1, 3)]).base? = some 5 ∧
    ((Offsets.start 2 3).gather [(1, 3), (2, 4), (0, 5)]).base? = some 8 ∧
    ((Offsets.start 2 3).gather [(1, 3), (2, 4), (0, 5)]).total? = some 12 ∧
    ((CostSurvey.start 0 3).gather [.cost 1 2.0, .cost 0 1.0, .cost 2 3.0]).mean?.isSome ∧
    ((CostSurvey.start 2 3).gather [.cost 2 3.0, .cost 0 1.0, .cost 1 2.0]).mean? =
      ((CostSurvey.start 0 3).gather [.cost 1 2.0, .cost 0 1.0, .cost 2 3.0]).mean? := by
  obtain ⟨hcalls, hcounts, hcosts⟩ := gathers_in_any_order 3
  obtain ⟨hgathered, hsame⟩ := hcalls Nat .offset 0 [(2, 4), (0, 5), (2, 4)] (by decide)
  obtain ⟨base, total, hdivides, hlearns⟩ := hcounts fun q => [5, 3, 4].getD q 0
  obtain ⟨hmean, hagree⟩ := hcosts 0 [.cost 1 2.0, .cost 0 1.0, .cost 2 3.0]
    (by simp [CostSurvey.Report.sender])
  have hfirst : base 1 = 5 := by rw [hdivides.next 0, hdivides.first]; rfl
  have hsecond : base 2 = 8 := by rw [hdivides.next 1, hfirst]; rfl
  have htotal : total = 12 := by rw [← hdivides.last 2 rfl, hsecond]; rfl
  refine ⟨⟨_, (hgathered.rejects_iff ..).2 ⟨by decide, rfl⟩⟩, ?_,
    hsame 1 [(0, 5), (2, 4)] (by unfold Consistent; decide) fun x => ?_, ?_, ?_, ?_, ?_, ?_, ?_⟩
  · rw [Ne, hgathered.isComplete_iff]
    decide
  · simp only [List.mem_cons, List.not_mem_nil]
    tauto
  · exact ((hlearns 0 (by decide) [2, 0, 2] (by decide)).before (by decide)).2
  · exact hfirst ▸ ((hlearns 1 (by decide) [2, 0, 2, 1] (by decide)).after (by decide)).1
  · exact hsecond ▸ ((hlearns 2 (by decide) [1, 2, 0] (by decide)).after (by decide)).1
  · exact htotal ▸ ((hlearns 2 (by decide) [1, 2, 0] (by decide)).after (by decide)).2
  · rw [hmean.mean]
    intro q hq
    obtain rfl | rfl | rfl : q = 0 ∨ q = 1 ∨ q = 2 := by omega
    · exact ⟨1.0, by simp⟩
    · exact ⟨2.0, by simp⟩
    · exact ⟨3.0, by simp⟩
  · exact (hagree 2 _ ⟨by simp [Consistent, CostSurvey.Report.cost?], by
      simp [Consistent, CostSurvey.Report.deviation?]⟩ fun r => by
      simp only [List.mem_cons, List.not_mem_nil]
      tauto).mean

end MeshNumbering
