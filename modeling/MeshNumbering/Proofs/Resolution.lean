import MeshNumbering.Proofs.RollCall
import MeshNumbering.Proofs.Sharing

/-! What resolving the masks of all processors gives, for masks that may say anything. Either the
first stray entry is reported, or claims and adjacency are determined by the masks alone. -/

namespace MeshNumbering

namespace Adjacency
variable {h : Holdings} {a a' : Adjacency} {R : Nat → Nat → Nat → Prop}

theorem addMasks_induct {P : Adjacency → Prop} {pe : Nat} {l : List (Nat × Mask)}
    (hadd : ∀ a c s n, P a → P (a.add c s n)) (ha : P a) (hok : addMasks h pe a l = .ok a') :
    P a' := by
  have hnode : ∀ a n chares surrounding, P a → P (a.addNode n chares surrounding) := by
    intro a n chares surrounding ha
    refine List.foldlRecOn chares _ ha fun a ha c _ => ?_
    refine List.foldlRecOn surrounding _ ha fun a ha s _ => ?_
    split
    · exact ha
    · exact hadd a c s n ha
  have hmask : ∀ (entries : List (Nat × List Nat)) (sender : Nat) {a a' : Adjacency}, P a →
      addMask h pe sender a entries = .ok a' → P a' := by
    intro entries sender
    induction entries with
    | nil =>
      intro a a' ha hok
      exact Except.ok.inj hok ▸ ha
    | cons e entries ih =>
      intro a a' ha hok
      rw [addMask] at hok
      split at hok
      · cases hok
      · exact ih (hnode _ _ _ _ ha) hok
  induction l generalizing a with
  | nil => exact Except.ok.inj hok ▸ ha
  | cons e l ih =>
    rw [addMasks] at hok
    split at hok
    · cases hok
    · next a₁ hm => exact ih (hmask e.2.entries e.1 ha hm) hok

def Peopled (a : Adjacency) : Prop := ∀ c around, a.get? c = some around → around.isEmpty = false

theorem Peopled.add (ha : a.Peopled) (c s n : Nat) : (a.add c s n).Peopled := by
  intro c' around hc
  unfold Adjacency.add at hc
  rw [NatMap.get?_upsert] at hc
  split at hc
  · obtain rfl := Option.some.inj hc
    rw [Bool.eq_false_iff, ne_eq, NatMap.isEmpty_iff]
    intro hnone
    have hs := hnone s
    rw [NatMap.get?_upsert, if_pos rfl] at hs
    cases hs
  · exact ha c' around hc

theorem addMask_eq_error (pe sender : Nat) {l : List (Nat × List Nat)}
    (hl : (l.map Prod.fst).Pairwise (· < ·)) (hstray : ∃ n ∈ l.map Prod.fst, ¬ n ∈ h.nodes) :
    ∃ n ∈ l.map Prod.fst, ¬ n ∈ h.nodes ∧ (∀ m ∈ l.map Prod.fst, m < n → m ∈ h.nodes) ∧
      addMask h pe sender a l = .error (.nodeNotHeld pe sender n) := by
  induction l generalizing a with
  | nil => simp at hstray
  | cons e l ih =>
    rw [List.map_cons, List.pairwise_cons] at hl
    rw [List.map_cons] at hstray ⊢
    cases husers : h.users? e.1 with
    | none =>
      refine ⟨e.1, List.mem_cons_self .., fun he => ?_, fun m hm hlt => ?_, ?_⟩
      · obtain ⟨chares, hchares⟩ := Holdings.mem_nodes.1 he
        rw [husers] at hchares
        cases hchares
      · rcases List.mem_cons.1 hm with rfl | hm
        · exact absurd hlt (Nat.lt_irrefl _)
        · exact absurd (hl.1 m hm) (Nat.lt_asymm hlt)
      · rw [addMask, husers]
    | some chares =>
      have he : e.1 ∈ h.nodes := Holdings.mem_nodes.2 ⟨chares, husers⟩
      have hstray' : ∃ n ∈ l.map Prod.fst, ¬ n ∈ h.nodes := by
        obtain ⟨n, hn, hnot⟩ := hstray
        rcases List.mem_cons.1 hn with rfl | hn
        · exact absurd he hnot
        · exact ⟨n, hn, hnot⟩
      obtain ⟨n, hn, hnot, hlower, herr⟩ := ih (a := a.addNode e.1 chares e.2) hl.2 hstray'
      refine ⟨n, List.mem_cons_of_mem _ hn, hnot, List.forall_mem_cons.2 ⟨fun _ => he, hlower⟩, ?_⟩
      rw [addMask, husers]
      exact herr

theorem addMasks_eq_error (pe : Nat) {l : List (Nat × Mask)}
    (hl : (l.map Prod.fst).Pairwise (· < ·)) (ha : a.Lists R)
    (hstray : ∃ e ∈ l, ∃ n, n ∈ e.2.keys ∧ ¬ n ∈ h.nodes) :
    ∃ e ∈ l, ∃ n, n ∈ e.2.keys ∧ ¬ n ∈ h.nodes ∧ (∀ m, m ∈ e.2.keys → m < n → m ∈ h.nodes) ∧
      (∀ e' ∈ l, e'.1 < e.1 → ∀ m, m ∈ e'.2.keys → m ∈ h.nodes) ∧
      addMasks h pe a l = .error (.nodeNotHeld pe e.1 n) := by
  induction l generalizing a R with
  | nil => simp at hstray
  | cons e l ih =>
    rw [List.map_cons, List.pairwise_cons] at hl
    by_cases he : ∃ n, n ∈ e.2.keys ∧ ¬ n ∈ h.nodes
    · obtain ⟨n, hn, hnot, hlower, herr⟩ := addMask_eq_error pe e.1 e.2.ascending he
      refine ⟨e, List.mem_cons_self .., n, hn, hnot, hlower, fun e' he' hlt => ?_, ?_⟩
      · rcases List.mem_cons.1 he' with rfl | he'
        · exact absurd hlt (Nat.lt_irrefl _)
        · exact absurd (hl.1 _ (List.mem_map_of_mem he')) (Nat.lt_asymm hlt)
      · rw [addMasks, herr]
    · have hheld : ∀ n, n ∈ e.2.keys → n ∈ h.nodes := fun n hn =>
        Decidable.byContradiction fun hnot => he ⟨n, hn, hnot⟩
      have hstray' : ∃ e' ∈ l, ∃ n, n ∈ e'.2.keys ∧ ¬ n ∈ h.nodes :=
        ((List.exists_mem_cons_iff ..).1 hstray).resolve_left he
      obtain ⟨a₁, hmask, ha₁⟩ := addMask_eq_ok pe e.1 (l := e.2.entries)
        (fun x hx => hheld x.1 (List.mem_map_of_mem hx)) ha
      obtain ⟨e', he', n, hn, hnot, hlower, hbefore, herr⟩ := ih hl.2 ha₁ hstray'
      refine ⟨e', List.mem_cons_of_mem _ he', n, hn, hnot, hlower,
        List.forall_mem_cons.2 ⟨fun _ => hheld, hbefore⟩, ?_⟩
      rw [addMasks, hmask]
      exact herr

end Adjacency

namespace Sharing
variable {h : Holdings} {pe npes : Nat} {f : Nat → Mask}

/-- Of the masks of `npes` processors that of `q` is the first to name a node which is not held, and
`n` is the lowest such node in it. -/
structure FirstStray (h : Holdings) (npes : Nat) (f : Nat → Mask) (q n : Nat) : Prop where
  lt : q < npes
  named : n ∈ (f q).keys
  stray : ¬ n ∈ h.nodes
  lowest : ∀ m, m ∈ (f q).keys → m < n → m ∈ h.nodes
  first : ∀ p < q, ∀ m, m ∈ (f p).keys → m ∈ h.nodes

/-- Below `pe`, the first of `npes` processors whose mask names `n` is `q`. -/
structure FirstClaim (pe npes : Nat) (f : Nat → Mask) (q n : Nat) : Prop where
  lt : q < npes
  lower : q < pe
  named : n ∈ (f q).keys
  first : ∀ p < q, ¬ n ∈ (f p).keys

theorem FirstClaim.unique {p q n : Nat} (hp : FirstClaim pe npes f p n)
    (hq : FirstClaim pe npes f q n) : p = q := by
  rcases Nat.lt_trichotomy p q with hlt | heq | hlt
  · exact absurd hp.named (hq.first p hlt)
  · exact heq
  · exact absurd hq.named (hp.first q hlt)

structure Resolves (s : Sharing) (h : Holdings) (pe npes : Nat) (f : Nat → Mask) : Prop where
  claims_iff : ∀ q n, (∃ nodes, s.claims.byPeer.get? q = some nodes ∧ n ∈ nodes) ↔
    FirstClaim pe npes f q n
  claimant_iff : ∀ n q, s.claims.claimant? n = some q ↔ FirstClaim pe npes f q n
  claims_filled : ∀ q nodes, s.claims.byPeer.get? q = some nodes → ∃ n, n ∈ nodes
  portions : s.claims.Portions h.nodes
  own_add : s.own + s.claims.size = h.nodes.size
  adjacency_lists : s.adjacency.Lists fun c s n =>
    h.Names n c ∧ s ≠ c ∧ ∃ q < npes, ∃ chares, (f q).get? n = some chares ∧ s ∈ chares
  adjacency_peopled : s.adjacency.Peopled

theorem claimant?_full {q n : Nat} :
    (Claims.ofMasks pe (RollCall.full .mask npes f).contributions).claimant? n = some q ↔
      FirstClaim pe npes f q n := by
  refine (Claims.claimant?_ofMasks (RollCall.full .mask npes f).heard.ascending).trans ?_
  constructor
  · rintro ⟨hlower, ⟨mask, hm, hn⟩, hfirst⟩
    obtain ⟨hq, rfl⟩ := RollCall.mem_contributions_full.1 hm
    exact ⟨hq, hlower, hn, fun p hp =>
      hfirst p hp (f p) (RollCall.mem_contributions_full.2 ⟨Nat.lt_trans hp hq, rfl⟩)⟩
  · intro hc
    refine ⟨hc.lower, ⟨f q, RollCall.mem_contributions_full.2 ⟨hc.lt, rfl⟩, hc.named⟩, ?_⟩
    intro p hp mask hm
    obtain ⟨-, rfl⟩ := RollCall.mem_contributions_full.1 hm
    exact hc.first p hp

theorem ofMasks_full_stray (hstray : ∃ q < npes, ∃ n, n ∈ (f q).keys ∧ ¬ n ∈ h.nodes) :
    ∃ q n, FirstStray h npes f q n ∧
      ofMasks pe (.full .mask npes f) h = .error (.nodeNotHeld pe q n) := by
  obtain ⟨q, hq, n, hn, hnot⟩ := hstray
  obtain ⟨⟨p, mask⟩, he, m, hm, hmnot, hlowest, hfirst, herr⟩ :=
    Adjacency.addMasks_eq_error pe (l := (RollCall.full .mask npes f).contributions)
      (RollCall.full .mask npes f).heard.ascending Adjacency.lists_empty
      ⟨(q, f q), RollCall.mem_contributions_full.2 ⟨hq, rfl⟩, n, hn, hnot⟩
  obtain ⟨hp, rfl⟩ := RollCall.mem_contributions_full.1 he
  refine ⟨p, m, ⟨hp, hm, hmnot, hlowest, fun j hj => ?_⟩, ?_⟩
  · exact hfirst (j, f j) (RollCall.mem_contributions_full.2 ⟨Nat.lt_trans hj hp, rfl⟩) hj
  · rw [ofMasks, if_pos RollCall.isComplete_full, herr]

theorem ofMasks_full_held (hheld : ∀ q < npes, ∀ n, n ∈ (f q).keys → n ∈ h.nodes) :
    ∃ s, ofMasks pe (.full .mask npes f) h = .ok s ∧ s.Resolves h pe npes f := by
  have hascending : ((RollCall.full .mask npes f).contributions.map Prod.fst).Pairwise (· < ·) :=
    (RollCall.full .mask npes f).heard.ascending
  have hentries : ∀ e ∈ (RollCall.full .mask npes f).contributions, ∀ n, n ∈ e.2.keys →
      n ∈ h.nodes := by
    rintro ⟨q, mask⟩ he
    obtain ⟨hq, rfl⟩ := RollCall.mem_contributions_full.1 he
    exact hheld q hq
  obtain ⟨adjacency, hmasks, hlists⟩ :=
    Adjacency.addMasks_eq_ok pe hentries Adjacency.lists_empty
  have hclaims : ∀ q n, (∃ nodes, (Claims.ofMasks pe
      (RollCall.full .mask npes f).contributions).byPeer.get? q = some nodes ∧ n ∈ nodes) ↔
      FirstClaim pe npes f q n := by
    intro q n
    rw [← claimant?_full, Claims.claimant?_iff_get? hascending]
  have hsize : (Claims.ofMasks pe (RollCall.full .mask npes f).contributions).size ≤
      h.nodes.size := by
    rw [Claims.size_ofMasks hascending]
    apply NatSet.size_le_of_subset
    intro n hn
    obtain hn | ⟨⟨q, s⟩, he, hn⟩ := Claims.mem_foldl_union.1 hn
    · exact absurd hn NatSet.not_mem_empty
    · obtain ⟨-, mask, hm, rfl⟩ := Claims.mem_lower.1 he
      exact hentries _ hm n hn
  refine ⟨⟨adjacency, Claims.ofMasks pe (RollCall.full .mask npes f).contributions, _⟩,
    by rw [ofMasks, if_pos RollCall.isComplete_full, hmasks], ?_⟩
  exact
    { claims_iff := hclaims
      claimant_iff := fun n q => claimant?_full
      claims_filled := fun q nodes => Claims.exists_mem_of_get?_ofMasks hascending
      portions :=
        { held := fun q nodes hq n hn =>
            have hc := (hclaims q n).1 ⟨nodes, hq, hn⟩
            hheld q hc.lt n hc.named
          disjoint := fun p nodes q nodes' hp hq n hn hn' =>
            ((hclaims p n).1 ⟨nodes, hp, hn⟩).unique ((hclaims q n).1 ⟨nodes', hq, hn'⟩) }
      own_add := Nat.sub_add_cancel hsize
      adjacency_lists := hlists.congr fun c s n => by
        rw [false_or]
        refine and_congr_right fun _ => and_congr_right fun _ => ?_
        simp only [Prod.exists, RollCall.mem_contributions_full]
        constructor
        · rintro ⟨q, _, ⟨hq, rfl⟩, hs⟩
          exact ⟨q, hq, hs⟩
        · rintro ⟨q, hq, hs⟩
          exact ⟨q, f q, ⟨hq, rfl⟩, hs⟩
      adjacency_peopled := Adjacency.addMasks_induct (fun _ c s n ha => ha.add c s n)
        (fun _ _ hc => by cases hc) hmasks }

/-- However the masks of `npes` processors arrive: nothing is resolved before all are there, then
either the first stray entry is reported or all masks are resolved, and the order is forgotten. -/
theorem resolves_masks (pe npes : Nat) (h : Holdings) (f : Nat → Mask) {order : List Nat}
    (hnodup : order.Nodup) (hlt : ∀ q ∈ order, q < npes) :
    ∃ masks, RollCall.recordAll pe f (.start .mask npes) order = .ok masks ∧
      (order.length < npes → ofMasks pe masks h = .error (.masksMissing pe npes order.length)) ∧
      (order.length = npes → masks = .full .mask npes f ∧
        ((∃ q < npes, ∃ n, n ∈ (f q).keys ∧ ¬ n ∈ h.nodes) →
          ∃ q n, FirstStray h npes f q n ∧ ofMasks pe masks h = .error (.nodeNotHeld pe q n)) ∧
        ((∀ q < npes, ∀ n, n ∈ (f q).keys → n ∈ h.nodes) →
          ∃ s, ofMasks pe masks h = .ok s ∧ s.Resolves h pe npes f)) := by
  have hstart : (RollCall.start .mask npes).Holds .mask npes (fun _ => False) f :=
    RollCall.holds_start
  obtain ⟨masks, hrecord, hmasks⟩ := hstart.recordAll pe hnodup fun _ _ => id
  have hheard : masks.Holds .mask npes (· ∈ order) f := hmasks.congr fun q => by rw [false_or]
  refine ⟨masks, hrecord, fun hless => ?_, fun hall => ?_⟩
  · have hincomplete : ¬ masks.isComplete = true := by
      rw [RollCall.isComplete, decide_eq_true_eq, hheard.expected_eq, hheard.size_heard hnodup]
      exact Nat.ne_of_lt hless
    rw [ofMasks, if_neg hincomplete, hheard.expected_eq, hheard.size_heard hnodup]
  · obtain rfl := hheard.eq_full_of_length hnodup hlt hall
    exact ⟨rfl, ofMasks_full_stray, ofMasks_full_held⟩

def overlapping : Nat → Mask
  | 1 => .ofList [(10, [1]), (11, [1])]
  | 3 => .ofList [(10, [3]), (12, [3])]
  | 4 => .ofList [(10, [4]), (11, [4]), (12, [4]), (13, [4])]
  | _ => ∅

theorem overlapping_resolved : ∃ masks s,
    RollCall.recordAll 4 overlapping (.start .mask 5) [3, 0, 4, 1, 2] = .ok masks ∧
      ofMasks 4 masks ⟨overlapping 4⟩ = .ok s ∧ s.claims.claimant? 10 = some 1 ∧
      s.claims.claimant? 11 = some 1 ∧ s.claims.claimant? 12 = some 3 ∧
      s.own + s.claims.size = 4 := by
  have hnodup : [3, 0, 4, 1, 2].Nodup := by decide
  obtain ⟨masks, hrecord, -, hall⟩ :=
    resolves_masks 4 5 ⟨overlapping 4⟩ overlapping hnodup (by decide)
  obtain ⟨-, -, hresolves⟩ := hall rfl
  obtain ⟨s, hs, hres⟩ := hresolves (by decide)
  refine ⟨masks, s, hrecord, hs, ?_, ?_, ?_, hres.own_add⟩
  · exact (hres.claimant_iff 10 1).2 ⟨by decide, by decide, by decide, by decide⟩
  · exact (hres.claimant_iff 11 1).2 ⟨by decide, by decide, by decide, by decide⟩
  · exact (hres.claimant_iff 12 3).2 ⟨by decide, by decide, by decide, by decide⟩

end Sharing
end MeshNumbering
