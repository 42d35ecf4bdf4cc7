import Mathlib.Data.List.Basic
import MeshNumbering.Proofs.Span
import MeshNumbering.Proofs.Steps

/-! The parts of a mesh that the processors read follow one another: put together in processor order
they are the whole mesh, with the elements in the order of their global ids. -/

namespace MeshNumbering

theorem start_elementSpan_le_stop (count pe npes : Nat) :
    (elementSpan count pe npes).start ≤ (elementSpan count pe npes).stop :=
  Nat.le_trans (Nat.le_add_right ..) (Nat.le_add_right ..)

theorem stop_elementSpan_le (count : Nat) {pe npes : Nat} (h : pe < npes) :
    (elementSpan count pe npes).stop ≤ count := by
  have hmax : max npes 1 = npes := Nat.max_eq_left (Nat.zero_lt_of_lt h)
  have hsplit : npes * (count / npes) + count % npes = count := Nat.div_add_mod ..
  have hshares : (pe + 1) * (count / npes) ≤ npes * (count / npes) := Nat.mul_le_mul_right _ h
  rw [Nat.succ_mul] at hshares
  unfold elementSpan
  rw [hmax]
  dsimp only
  split
  · omega
  · omega

theorem tiles_elementSpan (count : Nat) {npes : Nat} (h : 0 < npes) :
    Span.Tiles (fun pe => elementSpan count pe npes) npes count := by
  have hmax : max npes 1 = npes := Nat.max_eq_left h
  have hsplit : npes * (count / npes) + count % npes = count := Nat.div_add_mod ..
  refine
    { ordered := fun pe _ => start_elementSpan_le_stop count pe npes
      starts := Nat.zero_mul _
      adjoins := fun pe hpe => ?_
      ends := fun pe hpe => ?_ }
  · have hshort : ¬ pe = npes - 1 := by omega
    unfold elementSpan
    rw [hmax]
    dsimp only
    rw [if_neg hshort, Nat.add_zero, Nat.succ_mul]
  · have hlast : pe = npes - 1 := Nat.eq_sub_of_add_eq hpe
    have hshares : pe * (count / npes) + count / npes = npes * (count / npes) := by
      rw [← Nat.succ_mul, Nat.succ_eq_add_one, hpe]
    unfold elementSpan
    rw [hmax]
    dsimp only
    rw [if_pos hlast, hshares, hsplit]

theorem flatMap_elementSpan (count : Nat) {npes : Nat} (h : 0 < npes) :
    ((List.range npes).flatMap fun p => (elementSpan count p npes).elems) = List.range count :=
  (tiles_elementSpan count h).flatMap_elems h

namespace Chunk
variable {reader : Reader} {pe npes : Nat} {c : Chunk} {e : Fault}

theorem read_eq_bind : read reader pe npes = reader.elementCount >>= fun count =>
    (if (elementSpan count pe npes).size = 0 then .ok []
      else reader.elements (elementSpan count pe npes).start (elementSpan count pe npes).stop) >>=
    fun l =>
      if l.length ≠ 4 * (elementSpan count pe npes).size then
        .error (.mesh (.connectivityLength (elementSpan count pe npes).start
          (elementSpan count pe npes).stop (4 * (elementSpan count pe npes).size) l.length))
      else .ok ⟨l, (elementSpan count pe npes).elems⟩ := by
  unfold read
  congr 1
  funext count
  by_cases hempty : (elementSpan count pe npes).size = 0
  · dsimp only
    rw [if_pos hempty, if_pos hempty]
    rfl
  · dsimp only
    rw [if_neg hempty, if_neg hempty]
    rfl

theorem read_eq_ok_iff : read reader pe npes = .ok c ↔ ∃ count,
    reader.elementCount = .ok count ∧ c.elements = (elementSpan count pe npes).elems ∧
    (if (elementSpan count pe npes).size = 0 then .ok []
      else reader.elements (elementSpan count pe npes).start (elementSpan count pe npes).stop) =
      .ok c.connectivity ∧
    c.connectivity.length = 4 * (elementSpan count pe npes).size := by
  rw [read_eq_bind, bind_eq_ok_iff]
  apply exists_congr
  intro count
  apply and_congr_right
  intro _
  rw [bind_eq_ok_iff]
  constructor
  · rintro ⟨l, hl, h⟩
    split at h
    · cases h
    · next hlength =>
      obtain rfl := Except.ok.inj h
      exact ⟨rfl, hl, not_not.1 hlength⟩
  · rintro ⟨helements, hl, hlength⟩
    refine ⟨c.connectivity, hl, ?_⟩
    rw [if_neg (not_not.2 hlength), ← helements]

theorem read_eq_error (h : read reader pe npes = .error e) :
    reader.elementCount = .error e ∨
    (∃ count, reader.elementCount = .ok count ∧ (elementSpan count pe npes).size ≠ 0 ∧
      reader.elements (elementSpan count pe npes).start (elementSpan count pe npes).stop =
        .error e) ∨
    ∃ cause, e = .mesh cause := by
  rw [read_eq_bind, bind_eq_error_iff] at h
  rcases h with hcount | ⟨count, hcount, h⟩
  · exact .inl hcount
  rcases bind_eq_error_iff.1 h with helements | ⟨l, -, hlength⟩
  · split at helements
    · cases helements
    · next hsize => exact .inr (.inl ⟨count, hcount, hsize, helements⟩)
  · split at hlength
    · exact .inr (.inr ⟨_, (Except.error.inj hlength).symm⟩)
    · cases hlength

theorem length_connectivity (h : read reader pe npes = .ok c) :
    c.connectivity.length = 4 * c.size := by
  obtain ⟨count, -, helements, -, hlength⟩ := read_eq_ok_iff.1 h
  unfold size
  rw [helements, Span.length_elems]
  exact hlength

end Chunk

def Mesh.part (m : Mesh) (npes pe : Nat) : Chunk where
  connectivity := (m.connectivity.drop (4 * (elementSpan m.elementCount pe npes).start)).take
    (4 * (elementSpan m.elementCount pe npes).size)
  elements := (elementSpan m.elementCount pe npes).elems

theorem Mesh.Valid.read_eq_ok {m : Mesh} (hm : m.Valid) {pe npes : Nat} (h : pe < npes) :
    Chunk.read m.reader pe npes = .ok (m.part npes pe) := by
  have hstop := stop_elementSpan_le m.elementCount h
  have hlength : 4 * m.elementCount = m.connectivity.length := Nat.mul_div_cancel' hm.whole
  unfold part
  generalize hspan : elementSpan m.elementCount pe npes = span at hstop ⊢
  have hsize : span.start + span.size = max span.start span.stop := by
    unfold Span.size
    omega
  apply Chunk.read_eq_ok_iff.2
  refine ⟨m.elementCount, rfl, ?_⟩
  rw [hspan]
  refine ⟨rfl, ?_, ?_⟩
  · split
    · next hempty =>
      rw [hempty]
      rfl
    · next hne =>
      show m.readElements span.start span.stop = _
      have hinside : ¬ (span.stop < span.start ∨ m.elementCount < span.stop) := by
        unfold Span.size at hne
        omega
      unfold Mesh.readElements
      rw [if_neg hinside]
      rfl
  · have hstart : span.start ≤ span.stop := by
      rw [← hspan]
      exact start_elementSpan_le_stop ..
    rw [List.length_take, List.length_drop]
    omega

theorem Mesh.lt_of_mem_part {m : Mesh} {pe npes : Nat} (h : pe < npes) :
    ∀ g ∈ (m.part npes pe).elements, g < m.elementCount := by
  intro g hg
  exact Nat.lt_of_lt_of_le (Span.mem_elems.1 hg).2 (stop_elementSpan_le m.elementCount h)

theorem Mesh.Valid.lt_nodeCount_of_mem_part {m : Mesh} (hm : m.Valid) {pe npes : Nat} :
    ∀ n ∈ (m.part npes pe).connectivity, n < m.nodeCount := by
  intro n hn
  exact hm.nodes n (List.mem_of_mem_drop (List.mem_of_mem_take hn))

end MeshNumbering
