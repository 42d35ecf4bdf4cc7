import MeshNumbering.Proofs.Numbering
import MeshNumbering.Proofs.Processor.Order
import MeshNumbering.Proofs.Processor.Reacting
import MeshNumbering.Proofs.RollCall

/-! Where the data of a processor come from. Its peers may send whatever they like: everything it
counts on still has a cause in its own history, so what it is waiting for cannot seem to be there
when it is not. -/

namespace MeshNumbering
open History

namespace Numbering
variable {r r' : Numbering} {pe npes q : Nat} {h h' : List Event}

/-- The numbering is about the nodes held, and each id in it has a reason. -/
structure Tracks (r : Numbering) (pe npes : Nat) (h : List Event) : Prop where
  asked : ∀ q < npes, Tried h .query q
  held : ∃ s : NatSet, s.size = r.held ∧ ∀ n, n ∈ s ↔ Holds h n
  own : ∀ n ∈ r.own.elems, Holds h n ∧ ∀ q, ¬ Claimed pe h n q
  claims : ∀ n q, r.claims.claimant? n = some q → Holds h n ∧ Claimed pe h n q
  ids : ∀ n i, r.ids.get? n = some i → Holds h n ∧ Numbered pe npes h n

def Fills (r : Numbering) (h : List Event) : Prop := ∀ n, Holds h n → ∃ i, r.ids.get? n = some i

theorem tracks_start {held : NatSet} {claims : Claims} (hasked : ∀ q < npes, Tried h .query q)
    (hheld : ∀ n, n ∈ held ↔ Holds h n)
    (hclaims : ∀ n q, claims.claimant? n = some q ↔ Claimed pe h n q)
    (hsub : ∀ n q, Claimed pe h n q → n ∈ held) : (start pe held claims).Tracks pe npes h where
  asked := hasked
  held := ⟨held, rfl, hheld⟩
  own n hn := by
    obtain ⟨hin, hnone⟩ := NatSet.mem_filter.1 hn
    refine ⟨(hheld n).1 hin, fun q hq => ?_⟩
    rw [(hclaims n q).2 hq] at hnone
    cases hnone
  claims n q hq := by
    have hclaimed := (hclaims n q).1 hq
    exact ⟨(hheld n).1 (hsub n q hclaimed), hclaimed⟩
  ids n i hi := by cases hi

theorem Tracks.steady (ht : r.Tracks pe npes h) (hs : Steady h h') : r.Tracks pe npes h' where
  asked q hq := hs.tried (ht.asked q hq)
  held := by simpa only [hs.holds_iff] using ht.held
  own := by simpa only [hs.holds_iff, hs.claimed_iff] using ht.own
  claims := by simpa only [hs.holds_iff, hs.claimed_iff] using ht.claims
  ids n i hi := by
    obtain ⟨hn, hnumbered⟩ := ht.ids n i hi
    exact ⟨hs.holds_iff.2 hn, hs.numbered hnumbered⟩

theorem Fills.steady (hf : r.Fills h) (hs : Steady h h') : r.Fills h' :=
  fun n hn => hf n (hs.holds_iff.1 hn)

theorem Tracks.giveOut (ht : r.Tracks pe npes h) (hall : HeardAll npes h .offset) (base : Nat) :
    (r.giveOut base).2.Tracks pe npes h where
  asked := ht.asked
  held := ht.held
  own := ht.own
  claims := ht.claims
  ids n i hi := by
    have hi : (number r.ids base r.own.elems).get? n = some i := hi
    rw [get?_number r.own.ascending] at hi
    split at hi
    · next hn =>
      obtain ⟨hheld, hfree⟩ := ht.own n hn
      exact ⟨hheld, .inr ⟨hfree, hall⟩⟩
    · exact ht.ids n i hi

theorem Tracks.learn {ids : NatMap Nat} (ht : r.Tracks pe npes h)
    (hl : r.learn q ids = (none, r')) (hs : Steady h h') (hids : .assigned q ids ∈ taken h') :
    r'.Tracks pe npes h' ∧ (r.Fills h → r'.Fills h') ∧ r'.isGivenOut = r.isGivenOut := by
  obtain ⟨known, rfl, hnew, hkept⟩ := of_absorb hl
  have hsteady := ht.steady hs
  refine ⟨{ hsteady with ids := fun n i hi => ?_ }, fun hf n hn => ?_, rfl⟩
  · rcases hnew n i hi with hi | ⟨hclaim, hn⟩
    · exact hsteady.ids n i hi
    · obtain ⟨hheld, hclaimed⟩ := hsteady.claims n q hclaim
      have hnamed : n ∈ ids.keys := NatMap.mem_keys.2 ⟨i, NatMap.get?_eq_some_iff.2 hn⟩
      exact ⟨hheld, .inl ⟨q, ids, hclaimed, hids, hnamed⟩⟩
  · obtain ⟨i, hi⟩ := hf n (hs.holds_iff.1 hn)
    exact ⟨i, hkept n i hi⟩

theorem Tracks.fills (ht : r.Tracks pe npes h) (hc : r.isComplete = true) : r.Fills h := by
  -- Only held nodes have ids, so as many ids as held nodes means ids for all of them.
  obtain ⟨s, hsize, hs⟩ := ht.held
  have hsub : ∀ n i, r.ids.get? n = some i → n ∈ s := fun n i hi => (hs n).2 (ht.ids n i hi).1
  rw [isComplete, decide_eq_true_eq, ← hsize, NatMap.size_eq_size_iff hsub] at hc
  exact fun n hn => hc.2 n ((hs n).2 hn)

theorem Tracks.allNumbered (ht : r.Tracks pe npes h) (hf : r.Fills h) :
    AllNumbered pe npes h := by
  refine ⟨ht.asked, fun n hn => ?_⟩
  obtain ⟨i, hi⟩ := hf n hn
  exact (ht.ids n i hi).2

end Numbering

namespace Stage
variable {x : Stage} {r r' : Numbering} {pe npes : Nat} {h h' : List Event}

def Tracks (pe npes : Nat) (h : List Event) : Stage → Prop
  | .setup _ => True
  | .shipping s => ∀ q, Tried h .batch q → q ∈ s.shipment.awaiting ∨ Heard h .receipt q
  | .indexed s => (∀ q < npes, Tried h .query q) ∧ (∀ n, n ∈ s.holdings.nodes ↔ Holds h n) ∧
      s.masks.Tallies npes (Heard h .mask) ∧
      ∀ q mask, s.masks.heard.get? q = some mask ↔ .mask q mask ∈ taken h
  | .numbering s => s.numbering.Tracks pe npes h
  | .bounding s => s.numbering.Tracks pe npes h ∧ s.numbering.Fills h
  | .costing s => s.numbering.Tracks pe npes h ∧ s.numbering.Fills h
  | .done _ => HeardAll npes h .deviation

theorem Tracks.steady (hx : x.Tracks pe npes h) (hs : Steady h h') : x.Tracks pe npes h' := by
  cases x with
  | setup s => exact trivial
  | shipping s => exact fun q hq => (hx q (hs.batches q hq)).imp_right hs.heard
  | indexed s =>
    obtain ⟨hasked, hheld, htallies, hmasks⟩ := hx
    exact ⟨fun q hq => hs.tried (hasked q hq), fun n => (hheld n).trans hs.holds_iff.symm,
      htallies.mono fun q => hs.heard, fun q mask => (hmasks q mask).trans hs.mem_mask_iff.symm⟩
  | numbering s => exact Numbering.Tracks.steady hx hs
  | bounding s => exact ⟨hx.1.steady hs, hx.2.steady hs⟩
  | costing s => exact ⟨hx.1.steady hs, hx.2.steady hs⟩
  | done outcome => exact hs.heardAll hx

theorem Tracks.numbering (hx : x.Tracks pe npes h) (hr : x.numbering? = some r) :
    r.Tracks pe npes h := by
  cases x with
  | numbering s => exact Option.some.inj hr ▸ hx
  | bounding s => exact Option.some.inj hr ▸ hx.1
  | costing s => exact Option.some.inj hr ▸ hx.1
  | _ => cases hr

theorem Tracks.fills (hx : x.Tracks pe npes h) (hr : x.numbering? = some r)
    (hphase : .numbering < x.phase) : r.Fills h := by
  cases x with
  | numbering s => exact absurd hphase (Nat.lt_irrefl 3)
  | bounding s => exact Option.some.inj hr ▸ hx.2
  | costing s => exact Option.some.inj hr ▸ hx.2
  | _ => cases hr

theorem Tracks.withNumbering (hx : x.Tracks pe npes h) (hr : x.numbering? = some r)
    (hr' : r'.Tracks pe npes h') (hfills : r.Fills h → r'.Fills h') :
    (x.withNumbering r').Tracks pe npes h' := by
  cases x with
  | numbering s => exact hr'
  | bounding s => exact ⟨hr', hfills (Option.some.inj hr ▸ hx.2)⟩
  | costing s => exact ⟨hr', hfills (Option.some.inj hr ▸ hx.2)⟩
  | _ => cases hr

theorem five_le_mark (hr : x.numbering? = some r) (hgiven : r.isGivenOut = true) :
    5 ≤ x.mark := by
  cases x with
  | numbering s =>
    obtain rfl := Option.some.inj hr
    rw [mark, if_pos hgiven]
  | bounding s => exact Nat.le_succ 5
  | costing s =>
    rw [mark]
    split <;> omega
  | _ => cases hr

end Stage

namespace State
variable {s s' : State} {seat : Seat} {n : Nat} {P P' : Nat → Prop} {h h' : List Event}
  {k : MessageKind} {m : Message}

def Counts (s : State) (n : Nat) (P : Nat → Prop) : MessageKind → Prop
  | .load => s.loads.Tallies n P
  | .delivered => s.distributed.Tallies n P
  | .offset => s.offsets.counts.Tallies n P
  | .lower => ∀ row, s.lower = some row → s.pe = 0 ∨ ∃ q, q + 1 = s.pe ∧ P q
  | .cost => s.costs.costs.Tallies n P
  | .deviation => s.costs.deviations.Tallies n P
  | _ => True

theorem Counts.mono (hc : s.Counts n P k) (hP : ∀ q, P q → P' q) : s.Counts n P' k := by
  cases k with
  | load | delivered | offset | cost | deviation => exact RollCall.Tallies.mono hc hP
  | lower => exact fun row hrow => (hc row hrow).imp_right fun ⟨q, hq, hp⟩ => ⟨q, hq, hP q hp⟩
  | _ => exact trivial

/-- The state of a processor that waits, or is about to, and what it says about the history. -/
structure Tracks (s : State) (seat : Seat) (h : List Event) : Prop where
  pe_lt : seat.pe < seat.npes
  seat_eq : s.seat = seat
  log : Log seat.pe seat.npes s.mark s.phase h
  stage : s.stage.Tracks seat.pe seat.npes h
  counts : ∀ k, s.Counts seat.npes (Heard h k) k
  senders : ∀ m ∈ s.backlog, m.sender < seat.npes

namespace Tracks

theorem pe_eq (ht : s.Tracks seat h) : s.pe = seat.pe := congrArg Seat.pe ht.seat_eq

theorem npes_eq (ht : s.Tracks seat h) : s.npes = seat.npes := congrArg Seat.npes ht.seat_eq

theorem of_stage (ht : s.Tracks seat h) {x : Stage} (hst : s.stage = x) :
    x.Tracks seat.pe seat.npes h := hst ▸ ht.stage

theorem log_at (ht : s.Tracks seat h) {x : Stage} (hst : s.stage = x) {μ : Nat}
    (hmark : x.mark = μ) : Log seat.pe seat.npes μ x.phase h := by
  subst hmark
  exact hst ▸ ht.log

theorem move (ht : s.Tracks seat h) (hg : Grows h h') {x : Stage}
    (hl : Log seat.pe seat.npes x.mark x.phase h') (hx : x.Tracks seat.pe seat.npes h') :
    State.Tracks { s with stage := x } seat h' where
  pe_lt := ht.pe_lt
  seat_eq := ht.seat_eq
  log := hl
  stage := hx
  counts k := by
    have hk := (ht.counts k).mono fun q => hg.heard
    cases k <;> exact hk
  senders := ht.senders

theorem boundKnown (ht : s.Tracks seat h) {row : Nat} (hrow : s.lower = some row) :
    BoundKnown seat.pe h := by
  have hlower := ht.counts .lower row hrow
  rwa [ht.pe_eq] at hlower

theorem count (ht : s.Tracks seat h) (hm : m.kind ≠ .mask) (hseat : s'.seat = s.seat)
    (hstage : s'.stage = s.stage) (hback : s'.backlog = s.backlog)
    (hother : ∀ k ≠ m.kind, ∀ P, s.Counts seat.npes P k → s'.Counts seat.npes P k)
    (hsame : ∀ P, s.Counts seat.npes P m.kind → P m.sender → s'.Counts seat.npes P m.kind) :
    s'.Tracks seat (h ++ [.accepted m]) where
  pe_lt := ht.pe_lt
  seat_eq := hseat.trans ht.seat_eq
  log := by
    rw [State.mark, phase, hstage]
    exact ht.log.accept fun hk => absurd hk hm
  stage := by
    rw [hstage]
    refine ht.stage.steady (extends_accept.steady (by simp) fun m' hm' => ?_)
    rwa [List.mem_singleton.1 hm']
  counts k := by
    have hk := (ht.counts k).mono fun q => (extends_accept (h := h) (m := m)).grows.heard
    by_cases hkind : k = m.kind
    · subst hkind
      exact hsame _ hk (extends_accept.heard_iff.2 (.inr ⟨m, List.mem_singleton_self m, rfl, rfl⟩))
    · exact hother k hkind _ hk
  senders := by
    rw [hback]
    exact ht.senders

end Tracks
end State
end MeshNumbering
