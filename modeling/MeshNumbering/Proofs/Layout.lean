import Mathlib.Data.Nat.Basic
import Mathlib.Order.Monotone.Defs
import MeshNumbering.Layout
import MeshNumbering.Proofs.Mesh.Chunk

/-! Chares are dealt out as elements are: the spans of all processors, one after the other, are all
chares, and every chare lies in the span of its owner. -/

namespace MeshNumbering.Layout
variable {l : Layout} {pe chare : Nat}

theorem owned_eq_elementSpan (l : Layout) (pe : Nat) :
    l.owned pe = elementSpan l.nchare pe l.npes := by
  have hmax : max l.npes 1 = l.npes := Nat.max_eq_left l.npes_pos
  have hsplit : l.npes * l.share + l.nchare % l.npes = l.nchare := Nat.div_add_mod ..
  have hstop : (if pe + 1 = l.npes then l.nchare else pe * l.share + l.share) =
      pe * l.share + l.share + if pe = l.npes - 1 then l.nchare % l.npes else 0 := by
    by_cases hlast : pe + 1 = l.npes
    · have hpe : pe = l.npes - 1 := Nat.eq_sub_of_add_eq hlast
      rw [if_pos hlast, if_pos hpe, ← Nat.succ_mul, Nat.succ_eq_add_one, hlast]
      exact hsplit.symm
    · have hpe : ¬ pe = l.npes - 1 := fun hpe => hlast (hpe ▸ Nat.sub_add_cancel l.npes_pos)
      rw [if_neg hlast, if_neg hpe]
      rfl
  unfold owned elementSpan
  rw [hmax]
  exact congrArg (Span.mk (pe * l.share)) hstop

theorem tiles_owned (l : Layout) : Span.Tiles l.owned l.npes l.nchare := by
  have howned : l.owned = fun pe => elementSpan l.nchare pe l.npes := funext l.owned_eq_elementSpan
  rw [howned]
  exact tiles_elementSpan l.nchare l.npes_pos

theorem flatMap_owned (l : Layout) :
    ((List.range l.npes).flatMap fun pe => (l.owned pe).elems) = List.range l.nchare :=
  l.tiles_owned.flatMap_elems l.npes_pos

theorem owns_iff : l.owns pe chare = true ↔ chare < l.nchare ∧ l.owner chare = pe :=
  decide_eq_true_iff

theorem mem_owned_iff (h : pe < l.npes) : chare ∈ l.owned pe ↔ l.owns pe chare = true := by
  have hstart : pe * l.share ≤ chare ↔ pe ≤ chare / l.share :=
    (Nat.le_div_iff_mul_le l.share_pos).symm
  have hstop : chare < (pe + 1) * l.share ↔ chare / l.share < pe + 1 :=
    (Nat.div_lt_iff_lt_mul l.share_pos).symm
  have hshares : l.npes * l.share ≤ l.nchare := Nat.mul_div_le ..
  rw [owns_iff]
  unfold owner
  show pe * l.share ≤ chare ∧
    chare < (if pe + 1 = l.npes then l.nchare else pe * l.share + l.share) ↔ _
  by_cases hlast : pe + 1 = l.npes
  · rw [if_pos hlast, hstart]
    omega
  · have hbefore : (pe + 1) * l.share ≤ l.npes * l.share := Nat.mul_le_mul_right _ h
    rw [if_neg hlast, hstart, ← Nat.succ_mul, Nat.succ_eq_add_one, hstop]
    constructor
    · intro ⟨hlow, hhigh⟩
      have hlt : chare < (pe + 1) * l.share := hstop.2 hhigh
      omega
    · intro ⟨_, howner⟩
      omega

theorem owned_start_lt_stop (h : pe < l.npes) : (l.owned pe).start < (l.owned pe).stop := by
  have hshares : (pe + 1) * l.share ≤ l.nchare :=
    Nat.le_trans (Nat.mul_le_mul_right _ h) (Nat.mul_div_le ..)
  have hfirst : pe * l.share < l.nchare := by
    rw [Nat.succ_mul] at hshares
    exact Nat.lt_of_lt_of_le (Nat.lt_add_of_pos_right l.share_pos) hshares
  have howner : l.owner (pe * l.share) = pe := by
    unfold owner
    rw [Nat.mul_div_cancel _ l.share_pos]
    exact Nat.min_eq_left (Nat.le_sub_one_of_lt h)
  obtain ⟨hstart, hstop⟩ := (mem_owned_iff h).2 (owns_iff.2 ⟨hfirst, howner⟩)
  exact Nat.lt_of_le_of_lt hstart hstop

theorem monotone_owner (l : Layout) : Monotone l.owner := by
  intro a b hab
  have hdiv : a / l.share ≤ b / l.share := Nat.div_le_div_right hab
  show min (a / l.share) (l.npes - 1) ≤ min (b / l.share) (l.npes - 1)
  omega

theorem of_eq_error_iff {nchare npes : Nat} {e : ConfigFault} : of nchare npes = .error e ↔
    ¬ (0 < npes ∧ npes ≤ nchare) ∧ e = .undistributable nchare npes := by
  unfold of
  split
  · next h => simp [h]
  · next h => simp [h, eq_comm]

/-- Every processor has chares, and it is the same whether a chare is looked up by its owner, by the
span of a processor, or by asking the processor for it. -/
structure Coherent (l : Layout) (nchare npes : Nat) : Prop where
  share_pos : 0 < l.share
  tiles : Span.Tiles l.owned npes nchare
  filled : ∀ pe < npes, (l.owned pe).start < (l.owned pe).stop
  owned_once : ∀ chare, chare < nchare ↔ ∃! pe, pe < npes ∧ chare ∈ l.owned pe
  owns_iff : ∀ pe < npes, ∀ chare, l.owns pe chare = true ↔ chare ∈ l.owned pe
  owner_iff : ∀ pe < npes, ∀ chare < nchare, chare ∈ l.owned pe ↔ l.owner chare = pe
  ascends : Monotone l.owner
  owner_lt : ∀ chare, l.owner chare < npes

theorem coherent (l : Layout) : l.Coherent l.nchare l.npes where
  share_pos := l.share_pos
  tiles := l.tiles_owned
  filled _ hpe := owned_start_lt_stop hpe
  owned_once _ := l.tiles_owned.existsUnique_mem_iff l.npes_pos
  owns_iff _ hpe _ := (mem_owned_iff hpe).symm
  owner_iff pe hpe chare hchare := by rw [mem_owned_iff hpe, owns_iff, and_iff_right hchare]
  ascends := l.monotone_owner
  owner_lt := l.owner_lt

/-- Chares can be dealt out just when there is at least one for each processor, and then all rules
for who owns them agree. -/
theorem of_coherent (nchare npes : Nat) :
    ((∃ l, of nchare npes = .ok l) ↔ 1 ≤ npes ∧ npes ≤ nchare) ∧
    (∀ e, of nchare npes = .error e ↔
      ¬ (1 ≤ npes ∧ npes ≤ nchare) ∧ e = .undistributable nchare npes) ∧
    ∀ l, of nchare npes = .ok l → l.Coherent nchare npes := by
  refine ⟨⟨?_, ?_⟩, fun e => of_eq_error_iff, ?_⟩
  · rintro ⟨l, hl⟩
    obtain ⟨rfl, rfl⟩ := of_eq_ok hl
    exact ⟨l.npes_pos, l.npes_le⟩
  · intro h
    exact ⟨⟨nchare, npes, h.1, h.2⟩, dif_pos h⟩
  · intro l hl
    obtain ⟨rfl, rfl⟩ := of_eq_ok hl
    exact l.coherent

theorem seven_chares_over_four : ∃ l, of 7 4 = .ok l ∧ l.owned 3 = ⟨3, 7⟩ ∧ l.owner 6 = 3 ∧
    l.owns 2 6 = false ∧ l.owner 100 < 4 ∧ of 3 4 = .error (.undistributable 3 4) := by
  obtain ⟨hok, -, hall⟩ := of_coherent 7 4
  obtain ⟨-, herror, -⟩ := of_coherent 3 4
  obtain ⟨l, hl⟩ := hok.2 ⟨by decide, by decide⟩
  have h := hall l hl
  have howned : l.owned 3 = ⟨3, 7⟩ := by
    obtain rfl := Except.ok.inj hl
    rfl
  have howner : l.owner 6 = 3 := by
    apply (h.owner_iff 3 (by decide) 6 (by decide)).1
    rw [howned]
    decide
  refine ⟨l, hl, howned, howner, ?_, h.owner_lt 100, (herror _).2 ⟨by decide, rfl⟩⟩
  rw [Bool.eq_false_iff, ne_eq, h.owns_iff 2 (by decide),
    h.owner_iff 2 (by decide) 6 (by decide), howner]
  decide

end MeshNumbering.Layout
