import MeshNumbering.Proofs.Network.Progress
import MeshNumbering.Proofs.Network.Results
import MeshNumbering.Proofs.Scenario.Fits

/-! Which runs succeed. A run that is over has succeeded everywhere unless the inputs have a flaw; a
mesh in memory that is dealt out by element ids has none as long as there are enough chares for all
processors and enough elements for all chares. -/

namespace MeshNumbering
open History

/-- Nothing can happen any more: all processors have been started, and no frame is under way to one
that waits. -/
def Network.IsFinal (n : Network) : Prop :=
  (∀ p ∈ n.processors, p.status ≠ .fresh) ∧ ∀ x ∈ n.inFlight, n.isWaiting x.target = false

theorem Network.isFinal_of_returned {n : Network} (h : ∀ p ∈ n.processors, p.HasReturned) :
    n.IsFinal := by
  constructor
  · intro p hp hfresh
    obtain ⟨r, hreturned⟩ := h p hp
    rw [hreturned] at hfresh
    cases hfresh
  · intro x _
    rw [Bool.eq_false_iff, ne_eq, Network.isWaiting_iff]
    intro ⟨p, s, hp, hwaits⟩
    obtain ⟨r, hreturned⟩ := h p (List.mem_of_getElem? hp)
    rw [hreturned] at hwaits
    cases hwaits

theorem Network.Sound.fits {t : Scenario} {d : Delivery} {l : List Packet} {n : Network}
    (hs : n.Sound t d l) (hok : ∀ p ∈ n.processors, p.Succeeds) : t.Fits := by
  intro k p q hpass
  obtain ⟨sender, hsender, hsent⟩ := hs.exists_reaches hok hpass.1
  obtain ⟨target, htarget, hreach⟩ := hs.exists_reaches hok hpass.2.1
  have hheard : Heard target.history k p := by
    by_cases hk : k = .deviation
    · apply hreach.level k p hpass
      rw [hk]
      decide
    · exact hs.heard_all htarget hreach (by decide) hk hpass
  exact (hs.due_of_heard htarget hsender hsent hheard).fits

/-! Configurations that are refused. -/

namespace Run
variable {t : Scenario} {l : List Packet} {n : Network}

theorem refuses {d : Delivery} {cause : ConfigFault} (hr : Run t d l n)
    (h : t.config.check t.npes = .error cause) : ∀ p ∈ n.processors,
      p.status = .fresh ∨ p.status = .returned (.error (.config cause)) := by
  -- A configuration that is refused ends every processor when it starts.
  induction hr with
  | fresh =>
    intro p hp
    obtain ⟨pe, -, rfl⟩ := List.mem_map.1 hp
    exact .inl rfl
  | @start l n pe p run here fresh ih =>
    have hseat := (run.sound.stands pe p here).seat_eq
    have hstart : (p.start .sound t.reader).status = .returned (.error (.config cause)) := by
      have hcheck : p.seat.config.check p.seat.npes = .error cause := hseat ▸ h
      rw [Processor.start_of_fail fresh (State.begin_of_check hcheck)]
      rfl
    intro r hr
    unfold Network.start at hr
    rw [Network.processors_take here] at hr
    rcases List.mem_or_eq_of_mem_set hr with hr | rfl
    · exact ih r hr
    · exact .inr hstart
  | @deliver l n x run under waits ih =>
    obtain ⟨p, s, hp, hwaits⟩ := Network.isWaiting_iff.1 waits
    have hno := ih p (List.mem_of_getElem? hp)
    rw [hwaits] at hno
    rcases hno with hno | hno
    all_goals cases hno

theorem succeeds_of_not_flaw (hr : Run t .exact l n) (hfinal : n.IsFinal)
    (h : ∀ pe < t.npes, ∀ e, ¬ t.Flaw pe e) : ∀ p ∈ n.processors, p.Succeeds := by
  have hs := hr.sound
  have hremote : ∀ (i : Nat) (r : Processor) (e : Fault), n.processors[i]? = some r →
      r.status = .returned (.error e) → e.isRemote = true := by
    intro i r e hget hstatus
    by_contra hlocal
    rw [Bool.not_eq_true] at hlocal
    exact h i (hs.pe_lt hget) e ((hs.stands i r hget).flaw rfl hstatus hlocal)
  have hfails : ∀ p ∈ n.processors, ¬ p.Fails := by
    intro p hp ⟨e, he⟩
    obtain ⟨pe, hget⟩ := List.mem_iff_getElem?.1 hp
    exact h pe (hs.pe_lt hget) e (hs.reported_of_remote hremote hget he).1.flaw
  intro p hp
  obtain ⟨pe, hget⟩ := List.mem_iff_getElem?.1 hp
  cases hstatus : p.status with
  | fresh => exact absurd hstatus (hfinal.1 p hp)
  | returned r =>
    cases r with
    | error e => exact absurd ⟨e, hstatus⟩ (hfails p hp)
    | ok outcome => exact ⟨outcome, hstatus⟩
  | waiting s =>
    have hloud : ∀ p ∈ n.processors, ¬ p.FailsSilently := by
      intro p hp ⟨e, he, _⟩
      exact hfails p hp ⟨e, he⟩
    obtain ⟨x, hx, hwaits⟩ := hs.exists_under_way hget hstatus hloud hfinal.1
    rw [hfinal.2 x hx] at hwaits
    cases hwaits

section
variable {m : Mesh} {nchare : Nat} (hr : Run t .exact l n) (h : t.Plain m nchare)
include hr h

theorem refuses_few (hfew : nchare < t.npes) (hfinal : n.IsFinal) : ∀ p ∈ n.processors,
    p.status = .returned (.error (.config (.fewerCharesThanProcessors nchare t.npes))) := by
  intro p hp
  have hcheck := h.check_eq
  rw [if_pos hfew] at hcheck
  exact (hr.refuses hcheck p hp).resolve_left (hfinal.1 p hp)

theorem all_succeed_iff (hfinal : n.IsFinal) : (∀ p ∈ n.processors, p.Succeeds) ↔
    t.npes ≤ nchare ∧ nchare ≤ m.elementCount ∧ t.Fits := by
  have hs := hr.sound
  constructor
  · intro hok
    have hle : t.npes ≤ nchare := by
      by_contra hfew
      obtain ⟨p, hp⟩ := hs.exists_processor h.npes_pos
      have hmem := List.mem_of_getElem? hp
      have herror := hr.refuses_few h (Nat.lt_of_not_le hfew) hfinal p hmem
      obtain ⟨outcome, hstatus⟩ := hok p hmem
      rw [herror] at hstatus
      cases hstatus
    exact ⟨hle, h.le_elementCount hle (hs.viable hok), hs.fits hok⟩
  · rintro ⟨hle, hmany, hfits⟩
    apply hr.succeeds_of_not_flaw hfinal
    intro pe hpe e
    exact h.not_flaw hle hfits hmany hpe

theorem idle_or_unfit (hle : t.npes ≤ nchare) {pe : Nat} {p : Processor} {e : Fault}
    (hp : n.processors[pe]? = some p) (hstatus : p.status = .returned (.error e))
    (hlocal : e.isRemote = false) :
    (∃ layout c, Layout.of nchare t.npes = .ok layout ∧ e = .emptyChare pe c ∧
      c ∈ layout.owned pe ∧ ¬ c ∈ t.chares) ∨
    ∃ k q cause, t.Passes k pe q ∧ (t.message k pe q).unfit? = some cause ∧
      e = .frame cause := by
  have hs := hr.sound
  have hflaw := (hs.stands pe p hp).flaw rfl hstatus hlocal
  refine (h.idle_or_unfit_of_flaw hle (hs.pe_lt hp) hflaw).imp_left ?_
  rintro ⟨c, he, howned, hidle⟩
  rw [h.layout_eq hle] at howned
  exact ⟨_, c, h.layout_of hle, he, howned, hidle⟩

end

/-- Dealing a mesh in memory out by element ids succeeds exactly when there is a chare for each
processor, an element for each chare and a frame for each message; small meshes have frames for all
of them. With too few chares no processor gets beyond its configuration; with too many, whatever
fails on its own is a chare without elements or a message without a frame. -/
theorem succeeds_iff {m : Mesh} {nchare : Nat} (hr : Run t .exact l n) (h : t.Plain m nchare) :
    (n.IsFinal → ((∀ p ∈ n.processors, p.Succeeds) ↔
      t.npes ≤ nchare ∧ nchare ≤ m.elementCount ∧ t.Fits)) ∧
    (nchare < t.npes → n.IsFinal → ∀ p ∈ n.processors,
      p.status = .returned (.error (.config (.fewerCharesThanProcessors nchare t.npes)))) ∧
    (t.npes ≤ nchare → ∀ (pe : Nat) (p : Processor) (e : Fault),
      n.processors[pe]? = some p → p.status = .returned (.error e) → e.isRemote = false →
        (∃ layout c, Layout.of nchare t.npes = .ok layout ∧ e = .emptyChare pe c ∧
          c ∈ layout.owned pe ∧ ¬ c ∈ t.chares) ∨
        ∃ k q cause, t.Passes k pe q ∧ (t.message k pe q).unfit? = some cause ∧
          e = .frame cause) ∧
    (t.npes ≤ nchare → 20 + 144 * m.elementCount < 2 ^ 32 → t.Fits) :=
  ⟨hr.all_succeed_iff h, hr.refuses_few h,
    fun hle _ _ _ hp hstatus hlocal => hr.idle_or_unfit h hle hp hstatus hlocal, h.fits⟩

end Run

/-- A mesh in memory, dealt out in blocks. -/
def Mesh.dealt (m : Mesh) (npes nchare : Nat) : Scenario := ⟨npes, m.reader, .ofCount nchare, none⟩

theorem Mesh.Valid.plain_dealt {m : Mesh} {npes nchare : Nat} (hm : m.Valid)
    (hnodes : ∀ n ∈ m.connectivity, n < wordSize) (hpos : 0 < npes) (hword : nchare < wordSize) :
    (m.dealt npes nchare).Plain m nchare where
  valid := hm
  reader_eq := rfl
  chares_eq := rfl
  isPlain := .inl rfl
  strategy_eq := rfl
  frameLimit_eq := rfl
  npes_pos := hpos
  nchare_lt := hword
  nodes_lt := hnodes

def Mesh.twoTetrahedra : Mesh :=
  ⟨[0, 1, 2, 3, 1, 2, 3, 4], .replicate 5 0.0, .replicate 5 0.0, .replicate 5 0.0⟩

theorem Mesh.twoTetrahedra_valid : twoTetrahedra.Valid := by
  constructor
  · rfl
  · rfl
  · decide
  · decide

theorem two_tetrahedra_dealt :
    (∃ l n, Run (Mesh.twoTetrahedra.dealt 2 2) .exact l n ∧ n.IsFinal ∧
      ∀ p ∈ n.processors, p.Succeeds) ∧
    (∃ l n, Run (Mesh.twoTetrahedra.dealt 3 2) .exact l n ∧ n.IsFinal ∧
      ∀ p ∈ n.processors,
        p.status = .returned (.error (.config (.fewerCharesThanProcessors 2 3)))) ∧
    ∃ l n p, Run (Mesh.twoTetrahedra.dealt 2 3) .exact l n ∧ n.processors[1]? = some p ∧
      p.status = .returned (.error (.emptyChare 1 2)) ∧
      ¬ 2 ∈ (Mesh.twoTetrahedra.dealt 2 3).chares := by
  have hplain : ∀ npes nchare, 0 < npes → nchare < wordSize →
      (Mesh.twoTetrahedra.dealt npes nchare).Plain .twoTetrahedra nchare := by
    intro npes nchare
    exact Mesh.twoTetrahedra_valid.plain_dealt (by decide)
  refine ⟨?_, ?_, ?_⟩
  · obtain ⟨l, hr⟩ := Run.played (Mesh.twoTetrahedra.dealt 2 2) .exact (.replicate 40 0)
    obtain ⟨hiff, -, -, hfits⟩ := hr.succeeds_iff (hplain 2 2 (by decide) (by decide))
    have hreturned : ∀ p ∈ ((Mesh.twoTetrahedra.dealt 2 2).played .exact
        (.replicate 40 0)).processors, p.HasReturned := by decide +kernel
    have hfinal := Network.isFinal_of_returned hreturned
    have hfit : (Mesh.twoTetrahedra.dealt 2 2).Fits := hfits (by decide) (by decide)
    exact ⟨l, _, hr, hfinal, (hiff hfinal).2 ⟨by decide, by decide, hfit⟩⟩
  · obtain ⟨l, hr⟩ := Run.played (Mesh.twoTetrahedra.dealt 3 2) .exact []
    obtain ⟨-, hrefused, -⟩ := hr.succeeds_iff (hplain 3 2 (by decide) (by decide))
    have hreturned : ∀ p ∈ ((Mesh.twoTetrahedra.dealt 3 2).played .exact []).processors,
        p.HasReturned := by decide +kernel
    have hfinal := Network.isFinal_of_returned hreturned
    exact ⟨l, _, hr, hfinal, hrefused (by decide) hfinal⟩
  · obtain ⟨l, hr⟩ := Run.played (Mesh.twoTetrahedra.dealt 2 3) .exact (.replicate 40 0)
    obtain ⟨-, -, hfails, -⟩ := hr.succeeds_iff (hplain 2 3 (by decide) (by decide))
    have hresult : ((Mesh.twoTetrahedra.dealt 2 3).played .exact
        (.replicate 40 0)).processors[1]?.bind Processor.result? =
          some (.error (.emptyChare 1 2)) := by decide +kernel
    obtain ⟨p, hp, hstatus⟩ := Option.bind_eq_some_iff.1 hresult
    rw [Processor.result?_eq_some_iff] at hstatus
    rcases hfails (by decide) 1 p _ hp hstatus rfl with
      ⟨layout, c, -, hc, -, hnone⟩ | ⟨k, q, cause, -, -, hframe⟩
    · obtain ⟨-, rfl⟩ := Fault.emptyChare.inj hc
      exact ⟨l, _, p, hr, hp, hstatus, hnone⟩
    · cases hframe

/-- Elements without common nodes. -/
def Mesh.scattered (count : Nat) : Mesh :=
  ⟨.range (4 * count), .replicate (4 * count) 0.0, .replicate (4 * count) 0.0,
    .replicate (4 * count) 0.0⟩

section
variable {count : Nat}

theorem Mesh.scattered_valid : (scattered count).Valid where
  y_length := List.length_replicate.trans List.length_replicate.symm
  z_length := List.length_replicate.trans List.length_replicate.symm
  whole := by
    rw [show (scattered count).connectivity = .range (4 * count) from rfl, List.length_range]
    exact Nat.dvd_mul_right 4 count
  nodes n hn := Nat.lt_of_lt_of_eq (List.mem_range.1 hn) List.length_replicate.symm

theorem Mesh.elementCount_scattered : (scattered count).elementCount = count := by
  show (List.range (4 * count)).length / 4 = count
  rw [List.length_range, Nat.mul_div_cancel_left count (by decide)]

theorem Mesh.size_holdings_scattered (hword : 4 * count ≤ wordSize) :
    4 * count ≤ (((scattered count).dealt 1 1).holdings 0).nodes.size := by
  have hnodes : ∀ n ∈ (scattered count).connectivity, n < wordSize := fun n hn =>
    Nat.lt_of_lt_of_le (List.mem_range.1 hn) hword
  have hplain := scattered_valid.plain_dealt hnodes Nat.one_pos (show 1 < wordSize by decide)
  have hassigns := hplain.assigns (Nat.le_refl 1)
  have hall : ((scattered count).dealt 1 1).connectivity = .range (4 * count) :=
    Scenario.connectivity_eq scattered_valid rfl Nat.one_pos
  have hsub : List.range (4 * count) ⊆
      (((scattered count).dealt 1 1).holdings 0).nodes.elems := by
    intro n hn
    rw [← hall] at hn
    have hreferenced : n ∈ ((scattered count).dealt 1 1).referenced := NatSet.mem_ofList.2 hn
    obtain ⟨q, hq, huses⟩ := (Scenario.exists_uses_iff hassigns).2 hreferenced
    obtain rfl := Nat.lt_one_iff.1 hq
    exact Scenario.mem_holdings.2 huses
  have hlength := (List.subperm_of_subset List.nodup_range hsub).length_le
  rwa [List.length_range] at hlength

end

/-- One processor and one chare for very many elements: there is nothing wrong with that but that
the processor cannot ask itself for all of its nodes at once. -/
theorem scattered_elements_fail :
    Mesh.ofArrays (.range (4 * 2 ^ 27)) (.replicate (4 * 2 ^ 27) 0.0) (.replicate (4 * 2 ^ 27) 0.0)
      (.replicate (4 * 2 ^ 27) 0.0) = .ok (.scattered (2 ^ 27)) ∧
    1 ≤ (Mesh.scattered (2 ^ 27)).elementCount ∧
    ∀ l n, Run ((Mesh.scattered (2 ^ 27)).dealt 1 1) .exact l n →
      ¬ ∀ p ∈ n.processors, p.Succeeds := by
  refine ⟨Mesh.ofArrays_eq_ok_iff.2 ⟨rfl, Mesh.scattered_valid⟩, ?_, fun l n hr hok => ?_⟩
  · rw [Mesh.elementCount_scattered]
    exact Nat.one_le_two_pow
  · have hmany : 4 * 2 ^ 27 ≤ (((Mesh.scattered (2 ^ 27)).dealt 1 1).holdings 0).nodes.size :=
      Mesh.size_holdings_scattered (by decide)
    exact Scenario.not_fits_of_holdings Nat.one_pos (by omega) (hr.sound.fits hok)

end MeshNumbering
