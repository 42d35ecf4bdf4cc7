import MeshNumbering.Mesh.Centroid
import MeshNumbering.Proofs.Mesh.Chunk

/-! Centroids. They need a position for every node of the elements, and that is all they need: where
each element has its four nodes, nothing but a node without a position can be reported. A mesh held
in memory has positions for all of its nodes. -/

namespace MeshNumbering

def CoordinateBlock.Locates (b : CoordinateBlock) (nodes : List Nat) : Prop :=
  ∀ n ∈ nodes, b.get? n ≠ none

section
variable {block : CoordinateBlock} {elements connectivity nodes : List Nat} {lo hi : Nat}

theorem sumOfNodes_cases (block : CoordinateBlock) (e : Nat) (p : Point) (nodes : List Nat) :
    block.Locates nodes ∧ (∃ q, sumOfNodes block e p nodes = .ok q) ∨
    ∃ n ∈ nodes, block.get? n = none ∧
      sumOfNodes block e p nodes = .error (.nodeOutsideBlock e n) := by
  induction nodes generalizing p with
  | nil => exact .inl ⟨fun n hn => absurd hn List.not_mem_nil, p, rfl⟩
  | cons n nodes ih =>
    rw [sumOfNodes]
    cases hn : block.get? n with
    | none => exact .inr ⟨n, List.mem_cons_self .., hn, rfl⟩
    | some q =>
      rcases ih (p.add q) with ⟨hall, hok⟩ | ⟨n', hn', hnone, herror⟩
      · refine .inl ⟨?_, hok⟩
        rintro n' (_ | ⟨_, hn'⟩)
        · rw [hn]
          exact Option.some_ne_none q
        · exact hall n' hn'
      · exact .inr ⟨n', List.mem_cons_of_mem n hn', hnone, herror⟩

theorem centroidPoints_cases (block : CoordinateBlock)
    (h : connectivity.length = 4 * elements.length) :
    block.Locates connectivity ∧
      (∃ points, centroidPoints block elements connectivity = .ok points ∧
        points.length = elements.length) ∨
    ∃ e ∈ elements, ∃ n ∈ connectivity, block.get? n = none ∧
      centroidPoints block elements connectivity = .error (.nodeOutsideBlock e n) := by
  induction elements generalizing connectivity with
  | nil =>
    obtain rfl := List.eq_nil_of_length_eq_zero h
    exact .inl ⟨fun n hn => absurd hn List.not_mem_nil, [], rfl, rfl⟩
  | cons e elements ih =>
    obtain _ | ⟨a, _ | ⟨b, _ | ⟨c, _ | ⟨d, rest⟩⟩⟩⟩ := connectivity
    case cons.cons.cons.cons =>
      have hrest : rest.length = 4 * elements.length := by
        simp only [List.length_cons] at h
        omega
      have hstep : centroidPoints block (e :: elements) (a :: b :: c :: d :: rest) =
          sumOfNodes block e .origin [a, b, c, d] >>= fun p =>
            centroidPoints block elements rest >>= fun points => .ok (p.quarter :: points) := rfl
      rw [hstep]
      rcases sumOfNodes_cases block e .origin [a, b, c, d] with
        ⟨hfour, p, hp⟩ | ⟨n, hn, hnone, herror⟩
      · rw [hp]
        rcases ih hrest with ⟨hall, points, hpoints, hlength⟩ | ⟨e', he', n, hn, hnone, herror⟩
        · rw [hpoints]
          refine .inl ⟨?_, p.quarter :: points, rfl, congrArg Nat.succ hlength⟩
          intro n hn
          rcases List.mem_append.1 (show n ∈ [a, b, c, d] ++ rest from hn) with hn | hn
          · exact hfour n hn
          · exact hall n hn
        · rw [herror]
          exact .inr ⟨e', List.mem_cons_of_mem e he', n,
            List.mem_append_right [a, b, c, d] hn, hnone, rfl⟩
      · rw [herror]
        exact .inr ⟨e, List.mem_cons_self .., n, List.mem_append_left rest hn, hnone, rfl⟩
    all_goals
      simp only [List.length_cons, List.length_nil] at h
      omega

theorem Chunk.centroids_cases {c : Chunk} (h : c.connectivity.length = 4 * c.size)
    (block : CoordinateBlock) :
    block.Locates c.connectivity ∧
      (∃ points, c.centroids block = .ok points ∧
        ∀ axis, (points.along axis).length = c.size) ∨
    ∃ e ∈ c.elements, ∃ n ∈ c.connectivity, block.get? n = none ∧
      c.centroids block = .error (.nodeOutsideBlock e n) := by
  unfold centroids
  rcases centroidPoints_cases block h with
    ⟨hall, points, hpoints, hlength⟩ | ⟨e, he, n, hn, hnone, herror⟩
  · rw [hpoints]
    refine .inl ⟨hall, .ofPoints points, rfl, fun axis => ?_⟩
    cases axis
    all_goals
      unfold Centroids.along Centroids.ofPoints
      rw [List.length_map, hlength]
      rfl
  · rw [herror]
    exact .inr ⟨e, he, n, hn, hnone, rfl⟩

/-! Which positions are asked for. -/

theorem nodeRange?_eq_none_iff : nodeRange? nodes = none ↔ nodes = [] := by
  cases nodes <;> simp [nodeRange?]

theorem Chunk.size_of_nodeRange?_eq_none {c : Chunk} (hc : c.connectivity.length = 4 * c.size)
    (h : nodeRange? c.connectivity = none) : c.size = 0 := by
  rw [nodeRange?_eq_none_iff.1 h, List.length_nil] at hc
  omega

theorem Chunk.readCentroids_eq_error {c : Chunk} {reader : Reader} {e : Fault}
    (h : c.readCentroids reader = .error e) :
    (∃ lo hi, nodeRange? c.connectivity = some (lo, hi) ∧
      reader.coordinates lo hi = .error e) ∨
    ∃ cause, e = .mesh cause := by
  unfold readCentroids at h
  cases hrange : nodeRange? c.connectivity with
  | none =>
    rw [hrange] at h
    cases h
  | some range =>
    rw [hrange] at h
    rcases bind_eq_error_iff.1 h with hreader | ⟨block, -, hcentroids⟩
    · exact .inl ⟨range.1, range.2, rfl, hreader⟩
    · cases hpoints : c.centroids block with
      | ok points =>
        rw [hpoints] at hcentroids
        cases hcentroids
      | error cause =>
        rw [hpoints] at hcentroids
        exact .inr ⟨cause, (Except.error.inj hcentroids).symm⟩

theorem bounds_of_nodeRange? (h : nodeRange? nodes = some (lo, hi)) :
    hi ∈ nodes ∧ ∀ n ∈ nodes, lo ≤ n ∧ n ≤ hi := by
  obtain _ | ⟨n, l⟩ := nodes
  · cases h
  · obtain ⟨rfl, rfl⟩ := Prod.mk.inj (Option.some.inj h)
    have hmin : (n :: l).min? = some (l.foldl min n) := List.min?_cons'
    have hmax : (n :: l).max? = some (l.foldl max n) := List.max?_cons'
    obtain ⟨-, hlow⟩ := List.min?_eq_some_iff.1 hmin
    obtain ⟨hmem, hhigh⟩ := List.max?_eq_some_iff.1 hmax
    exact ⟨hmem, fun k hk => ⟨hlow k hk, hhigh k hk⟩⟩

end

namespace Mesh.Valid
variable {m : Mesh} {lo hi : Nat}

theorem readCoordinates_eq_ok (hm : m.Valid) (hle : lo ≤ hi) (hhi : hi < m.nodeCount) :
    ∃ block, m.readCoordinates lo hi = .ok block ∧
      ∀ n, lo ≤ n → n ≤ hi → block.get? n ≠ none := by
  have hinside : ¬ (hi < lo ∨ m.nodeCount ≤ hi) := by omega
  refine ⟨_, if_neg hinside, fun n hlow hhigh => ?_⟩
  have hcut : ∀ l : List Float, l.length = m.nodeCount →
      ∃ v, ((l.drop lo).take (hi + 1 - lo))[n - lo]? = some v := by
    intro l hl
    apply Option.isSome_iff_exists.1
    rw [isSome_getElem?, List.length_take, List.length_drop]
    omega
  obtain ⟨x, hx⟩ := hcut m.x rfl
  obtain ⟨y, hy⟩ := hcut m.y hm.y_length
  obtain ⟨z, hz⟩ := hcut m.z hm.z_length
  unfold CoordinateBlock.get?
  rw [if_neg (Nat.not_lt_of_le hlow), hx, hy, hz]
  exact Option.some_ne_none _

theorem centroids_eq_ok (hm : m.Valid) {c : Chunk} (hc : c.connectivity.length = 4 * c.size)
    (hnodes : ∀ n ∈ c.connectivity, n < m.nodeCount)
    (hrange : nodeRange? c.connectivity = some (lo, hi)) :
    ∃ block points, m.reader.coordinates lo hi = .ok block ∧ c.centroids block = .ok points ∧
      ∀ axis, (points.along axis).length = c.size := by
  obtain ⟨hmem, hbounds⟩ := bounds_of_nodeRange? hrange
  obtain ⟨block, hblock, hlocated⟩ :=
    hm.readCoordinates_eq_ok (hbounds hi hmem).1 (hnodes hi hmem)
  have hall : block.Locates c.connectivity := fun n hn =>
    hlocated n (hbounds n hn).1 (hbounds n hn).2
  rcases c.centroids_cases hc block with ⟨-, points, hpoints, hlength⟩ | ⟨e, -, n, hn, hnone, -⟩
  · exact ⟨block, points, hblock, hpoints, hlength⟩
  · exact absurd hnone (hall n hn)

theorem readCentroids_eq_ok (hm : m.Valid) {c : Chunk} (hc : c.connectivity.length = 4 * c.size)
    (hnodes : ∀ n ∈ c.connectivity, n < m.nodeCount) :
    ∃ points, c.readCentroids m.reader = .ok points ∧
      ∀ axis, (points.along axis).length = c.size := by
  unfold Chunk.readCentroids
  cases hrange : nodeRange? c.connectivity with
  | none =>
    refine ⟨.empty, rfl, fun axis => ?_⟩
    rw [Chunk.size_of_nodeRange?_eq_none hc hrange]
    cases axis <;> rfl
  | some range =>
    obtain ⟨block, points, hblock, hpoints, hlength⟩ := hm.centroids_eq_ok hc hnodes hrange
    refine ⟨points, ?_, hlength⟩
    dsimp only
    rw [hblock, ok_bind, hpoints]
    rfl

theorem readCentroids_part (hm : m.Valid) {pe npes : Nat} (h : pe < npes) :
    ∃ points, (m.part npes pe).readCentroids m.reader = .ok points ∧
      ∀ axis, (points.along axis).length = (m.part npes pe).size :=
  hm.readCentroids_eq_ok (Chunk.length_connectivity (hm.read_eq_ok h)) hm.lt_nodeCount_of_mem_part

end Mesh.Valid
end MeshNumbering
