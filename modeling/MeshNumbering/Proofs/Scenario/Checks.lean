import MeshNumbering.Proofs.Scenario.Holders

/-! What is checked on the way. Some checks tell what must have been in order for a processor that
has come as far as some mark; the others are all that can go wrong on a processor that gets every
message just once. -/

namespace MeshNumbering.Scenario
variable {t : Scenario} {pe μ : Nat}

def Reads (t : Scenario) (pe : Nat) : Prop :=
  Chunk.read t.reader pe t.npes = .ok (t.chunk pe)

def Staffs (t : Scenario) (pe : Nat) : Prop :=
  Holdings.of t.layout pe (t.nodes pe) = .ok (t.holdings pe)

/-- What has been in order at mark `μ`: elements are assigned on the way to mark 1, and chares are
indexed on the way to mark 3. -/
structure Passed (t : Scenario) (pe μ : Nat) : Prop where
  reads : 1 ≤ μ → t.Reads pe
  layout : 1 ≤ μ → t.layout? = some t.layout
  assigns : 1 ≤ μ → t.Assigns pe
  staffs : 3 ≤ μ → t.Staffs pe

theorem Passed.zero (t : Scenario) (pe : Nat) : t.Passed pe 0 where
  reads h := absurd h (Nat.not_succ_le_zero 0)
  layout h := absurd h (Nat.not_succ_le_zero 0)
  assigns h := absurd h (Nat.not_succ_le_zero 0)
  staffs h := absurd h (Nat.not_succ_le_zero 2)

theorem Passed.staffed (h : t.Passed pe 2) (hs : t.Staffs pe) : t.Passed pe 3 where
  reads _ := h.reads (by decide)
  layout _ := h.layout (by decide)
  assigns _ := h.assigns (by decide)
  staffs _ := hs

theorem Passed.next (h : t.Passed pe μ) (h₁ : 1 ≤ μ) (h₂ : μ ≠ 2) : t.Passed pe (μ + 1) where
  reads _ := h.reads h₁
  layout _ := h.layout h₁
  assigns _ := h.assigns h₁
  staffs h₃ := h.staffs (Nat.lt_of_le_of_ne (Nat.le_of_succ_le_succ h₃) (Ne.symm h₂))

theorem Passed.mono {μ' : Nat} (h : t.Passed pe μ) (hle : μ' ≤ μ) : t.Passed pe μ' where
  reads h₁ := h.reads (h₁.trans hle)
  layout h₁ := h.layout (h₁.trans hle)
  assigns h₁ := h.assigns (h₁.trans hle)
  staffs h₃ := h.staffs (h₃.trans hle)

/-- Every message of a complete run has a frame. -/
def Fits (t : Scenario) : Prop := ∀ k p q, t.Passes k p q → (t.message k p q).unfit? = none

/-- The reader or the strategy has answered `pe` with this failure. -/
inductive Reported (t : Scenario) (pe : Nat) (e : Fault) : Prop
  | count (h : t.reader.elementCount = .error e)
  | elements {count : Nat} (hcount : t.reader.elementCount = .ok count)
      (hsize : (elementSpan count pe t.npes).size ≠ 0)
      (h : t.reader.elements (elementSpan count pe t.npes).start
        (elementSpan count pe t.npes).stop = .error e)
  | coordinates {lo hi : Nat} (needs : t.config.algorithm.needsCentroids = true)
      (hrange : nodeRange? (t.chunk pe).connectivity = some (lo, hi))
      (h : t.reader.coordinates lo hi = .error e)
  | strategy {s : Strategy} (hs : t.strategy = some s)
      (h : s (t.centroids pe) (t.chunk pe).elements (t.load pe) t.layout.nchare = .error e)

/-- A failure that the shared inputs make inevitable for `pe`, or possible. -/
inductive Flaw (t : Scenario) (pe : Nat) : Fault → Prop
  | config {cause : ConfigFault} (h : t.config.check t.npes = .error cause) :
    Flaw t pe (.config cause)
  | chunk {e : Fault} (h : Chunk.read t.reader pe t.npes = .error e) : Flaw t pe e
  | centroids {e : Fault} (needs : t.config.algorithm.needsCentroids = true)
      (h : (t.chunk pe).readCentroids t.reader = .error e) : Flaw t pe e
  | count {cause : ConfigFault} (h : t.config.chares.forMesh t.total t.npes = .error cause) :
    Flaw t pe (.config cause)
  | layout {cause : ConfigFault} {nchare : Nat}
      (hn : t.config.chares.forMesh t.total t.npes = .ok nchare)
      (h : Layout.of nchare t.npes = .error cause) : Flaw t pe (.config cause)
  | strategy {e : Fault}
      (h : t.planner (t.centroids pe) (t.chunk pe).elements (t.load pe) t.layout.nchare =
        .error e) : Flaw t pe e
  | assignment {chares : List Nat} {e : Fault}
      (hc : t.planner (t.centroids pe) (t.chunk pe).elements (t.load pe) t.layout.nchare =
        .ok chares)
      (h : Strategy.verify chares (t.load pe) t.layout.nchare = .error e) : Flaw t pe e
  | idle {c : Nat} (h : Holdings.of t.layout pe (t.nodes pe) = .error (.emptyChare pe c)) :
    Flaw t pe (.emptyChare pe c)
  | unfit {k : MessageKind} {q : Nat} {cause : FrameFault} (passes : t.Passes k pe q)
      (h : (t.message k pe q).unfit? = some cause) : Flaw t pe (.frame cause)
  | limit {length limit : Nat} (h : t.config.frameLimit = some limit) :
    Flaw t pe (.frame (.overLimit length limit))

theorem Flaw.of_too_long {length : Nat} (h : ¬ ∀ l ∈ t.config.frameLimit, length ≤ l) :
    t.Flaw pe (.frame (.overLimit length (t.config.frameLimit.getD 0))) := by
  cases hl : t.config.frameLimit with
  | none => exact absurd (fun l hm => by rw [hl] at hm; cases hm) h
  | some l => exact .limit hl

end MeshNumbering.Scenario
