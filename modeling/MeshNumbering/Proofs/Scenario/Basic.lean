import MeshNumbering.Network
import MeshNumbering.Proofs.Holdings
import MeshNumbering.Proofs.RollCall

/-! What the shared inputs of a run determine. All processors are given the same reader,
configuration and strategy, so everything one of them computes can be written down without saying
in which order frames arrive. Where a step fails on the inputs, the definitions give an empty
value; nothing is ever made of it. -/

namespace MeshNumbering

/-- What all processors of a run are given. -/
structure Scenario where
  npes : Nat
  reader : Reader
  config : Config
  strategy : Option Strategy

namespace Scenario
variable (t : Scenario)

def seat (pe : Nat) : Seat := ⟨pe, t.npes, t.config, t.strategy⟩

/-! Elements and chares. -/

def chunk (p : Nat) : Chunk := (Chunk.read t.reader p t.npes).toOption.getD ⟨[], []⟩

def centroids (p : Nat) : Centroids :=
  if t.config.algorithm.needsCentroids then
    ((t.chunk p).readCentroids t.reader).toOption.getD .empty
  else .empty

def load (p : Nat) : Nat := (t.chunk p).size

def total : Nat := ((List.range t.npes).map t.load).sum

def layout? : Option Layout :=
  (t.config.chares.forMesh t.total t.npes).toOption.bind fun nchare =>
    (Layout.of nchare t.npes).toOption

def layout : Layout := t.layout?.getD ⟨1, 1, Nat.one_pos, Nat.le_refl 1⟩

def planner : Strategy := t.strategy.getD (t.config.algorithm.strategy t.total)

def assignment? (p : Nat) : Option (List Nat) :=
  (t.planner (t.centroids p) (t.chunk p).elements (t.load p) t.layout.nchare).toOption.filter
    fun chares => (Strategy.verify chares (t.load p) t.layout.nchare).toOption.isSome

def assignment (p : Nat) : List Nat := (t.assignment? p).getD []

def Supplies (p q n : Nat) : Prop :=
  ∃ i c, (t.assignment p)[i]? = some c ∧ t.layout.owner c = q ∧
    n ∈ NodeLists.element (t.chunk p).connectivity i

instance (p q n : Nat) : Decidable (t.Supplies p q n) :=
  decidable_of_iff (∃ e ∈ (t.assignment p).zipIdx, t.layout.owner e.1 = q ∧
      n ∈ NodeLists.element (t.chunk p).connectivity e.2) <| by
    simp only [Supplies, Prod.exists, List.mem_zipIdx_iff_getElem?]
    exact exists_comm

/-- A processor uses a node when it owns a chare having an element with that node. -/
def Uses (q n : Nat) : Prop := ∃ p < t.npes, t.Supplies p q n

instance (q n : Nat) : Decidable (t.Uses q n) :=
  inferInstanceAs (Decidable (∃ p < t.npes, t.Supplies p q n))

/-- The lowest processor that uses a node. -/
def holder (n : Nat) : Nat :=
  ((List.range t.npes).find? fun q => decide (t.Uses q n)).getD t.npes

def part (p q : Nat) : NodeLists :=
  (NodeLists.ofAssignment (t.assignment p) (t.chunk p).connectivity).filterKeys
    fun c => t.layout.owner c = q

def received (q : Nat) : NatMap NodeLists :=
  (NatMap.tabulate t.npes fun p => t.part p q).filterKeys fun p => !(t.part p q).isEmpty

def nodes (q : Nat) : NodeLists := .concat (t.received q).values

/-! Who holds which nodes, and who numbers them. -/

def holdings (q : Nat) : Holdings := ⟨Holdings.index (t.nodes q)⟩

def mask (p q : Nat) : Mask := (t.holdings p).maskOf (t.holdings q).nodes.elems

def masks (q : Nat) : RollCall Mask := .full .mask t.npes fun p => t.mask p q

def claims (q : Nat) : Claims := .ofMasks q (t.masks q).contributions

def wants (q p : Nat) : NatSet := ((t.claims q).byPeer.get? p).getD ∅

def ownNodes (q : Nat) : NatSet :=
  (t.holdings q).nodes.filter fun n => ((t.claims q).claimant? n).isNone

def own (q : Nat) : Nat := (t.holdings q).nodes.size - (t.claims q).size

def adjacency (q : Nat) : Adjacency :=
  (Adjacency.addMasks (t.holdings q) q ∅ (t.masks q).contributions).toOption.getD ∅

def sharing (q : Nat) : Sharing := ⟨t.adjacency q, t.claims q, t.own q⟩

/-! New ids. -/

def base (q : Nat) : Nat := ((List.range q).map t.own).sum

def nodeTotal : Nat := ((List.range t.npes).map t.own).sum

def newId (n : Nat) : Nat :=
  t.base (t.holder n) + ((t.ownNodes (t.holder n)).filter fun m => m < n).size

def idsFor (p q : Nat) : NatMap Nat := .ofList ((t.wants q p).elems.map fun n => (n, t.newId n))

def relabelling (q : Nat) : Relabelling where
  nodes := (t.nodes q).map fun l => l.map t.newId
  newIds := (t.nodes q).map fun l => .ofList (l.map fun n => (n, t.newId n))
  adjacency := (t.adjacency q).map fun around => around.map fun s => s.image t.newId
  touched := .ofList ((t.nodes q).values.flatMap fun l => l.map t.newId)

/-! Rows, costs and results. -/

def upper (q : Nat) : Nat := upperRow (t.relabelling q).touched (t.base q) (q + 1 = t.npes)

def lower : Nat → Nat
  | 0 => 0
  | q + 1 => t.upper q

def rows (q : Nat) : RowRange := ⟨t.lower q, t.upper q⟩

def cost (q : Nat) : Float := (t.rows q).cost (t.relabelling q).touched

def costs : RollCall Float := .full .cost t.npes fun q => .ofBits (t.cost q).toBits

def mean : Float := CostSurvey.average t.costs

def deviation (q : Nat) : Float := (t.cost q - t.mean) * (t.cost q - t.mean)

def deviations : RollCall Float := .full .deviation t.npes fun q => .ofBits (t.deviation q).toBits

def statistics : CostStatistics :=
  ⟨t.mean, (CostSurvey.average t.deviations).sqrt, CostSurvey.least t.costs.heard.values,
    CostSurvey.greatest t.costs.heard.values⟩

def outcome (q : Nat) : Outcome :=
  ⟨q, t.layout.nchare, t.base q, t.own q, t.nodeTotal, t.rows q, t.cost q, t.statistics⟩

def handoffs (q : Nat) : List Call :=
  ((t.relabelling q).setups q t.layout.nchare).map .worker ++ [.rows ⟨t.rows q, q⟩]

/-! Messages. -/

/-- The one message of a kind that `p` can have for `q`. -/
def message (k : MessageKind) (p q : Nat) : Message :=
  match k with
  | .load => .load p (t.load p)
  | .batch => .batch p (t.part p q)
  | .receipt => .receipt p
  | .delivered => .delivered p
  | .query => .query p (t.holdings p).nodes.elems
  | .mask => .mask p (t.mask p q)
  | .offset => .offset p (t.own p)
  | .request => .request p (t.wants p q).elems
  | .assigned => .assigned p (t.idsFor p q)
  | .lower => .lower p (t.upper p)
  | .cost => .cost p (t.cost p).toBits
  | .deviation => .deviation p (t.deviation p).toBits
  | .abort => .abort p ""

/-- In a complete run `p` sends `q` a message of this kind, and just one. -/
def Passes (k : MessageKind) (p q : Nat) : Prop :=
  p < t.npes ∧ q < t.npes ∧
    match k with
    | .batch => p ≠ q ∧ (t.part p q).isEmpty = false
    | .receipt => q ≠ p ∧ (t.part q p).isEmpty = false
    | .request => (t.claims p).byPeer.contains q = true
    | .assigned => (t.claims q).byPeer.contains p = true
    | .lower => p + 1 = q
    | .abort => False
    | _ => True

@[simp] theorem kind_message (k : MessageKind) (p q : Nat) : (t.message k p q).kind = k := by
  cases k <;> rfl

@[simp] theorem sender_message (k : MessageKind) (p q : Nat) : (t.message k p q).sender = p := by
  cases k <;> rfl

end Scenario
end MeshNumbering
