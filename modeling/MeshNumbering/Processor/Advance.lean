import MeshNumbering.Processor.Reaction

/-! How a processor moves on. Each phase waits for something from every peer; once that is there,
the work of the phase is done and the next one entered. -/

namespace MeshNumbering.State
open Script

def report (s : State) (m : Milestone) : Script Unit :=
  if s.seat.config.feedback then call (.milestone m) else return ()

def tellAll (s : State) (m : Message) : Script Unit := sendAll (List.range s.npes) m

def sendEach {β : Type} (make : β → Message) : List (Nat × β) → Script Unit
  | [] => return ()
  | (peer, b) :: l => do
    send peer (make b)
    sendEach make l

def begin (seat : Seat) (reader : Reader) : Script State := do
  (seat.config.check seat.npes).mapError Fault.config
  let chunk ← Chunk.read reader seat.pe seat.npes
  let centroids ←
    if seat.config.algorithm.needsCentroids then chunk.readCentroids reader
    else pure .empty
  let s := State.start seat ⟨chunk, centroids⟩
  s.report .read
  s.tellAll (.load s.pe chunk.size)
  return s

/-- Assigns the own elements to chares and ships them to the owners. -/
def ship (s : State) (t : Setup) : Script State := do
  let config := s.seat.config
  -- Meant to be below `wordSize`; only forged loads add up to more.
  let total := sum (s.loads.contributions.map Prod.snd)
  let nchare ← (config.chares.forMesh total s.npes).mapError Fault.config
  let layout ← (Layout.of nchare s.npes).mapError Fault.config
  call (.size total)
  let strategy := s.seat.strategy.getD (config.algorithm.strategy total)
  let count := t.chunk.size
  let chares ← strategy t.centroids t.chunk.elements count nchare
  Strategy.verify chares count nchare
  s.report .assigned
  let (batches, shipment) :=
    (Shipment.start s.pe layout).pack (.ofAssignment chares t.chunk.connectivity)
  sendEach (.batch s.pe) batches.entries
  enter .shipping
  return { s with stage := .shipping ⟨shipment, false⟩ }

def announce (s : State) (t : Shipping) : Script Shipping := do
  if !t.announced && t.shipment.isDelivered then
    s.tellAll (.delivered s.pe)
    return { t with announced := true }
  else return t

def takeStock (s : State) (t : Shipping) : Script State := do
  s.report .shipped
  let nodes := t.shipment.contents
  let layout := t.shipment.layout
  let holdings ← Holdings.of layout s.pe nodes
  s.report .indexed
  s.tellAll (.query s.pe holdings.nodes.elems)
  enter .indexed
  let stage := .indexed ⟨layout, nodes, holdings, .start .mask s.npes⟩
  return { s with stage, serving := some holdings }

def share (s : State) (t : Indexed) : Script State := do
  let sharing ← Sharing.ofMasks s.pe t.masks t.holdings
  s.report .shared
  s.tellAll (.offset s.pe sharing.own)
  enter .numbering
  let numbering := .start s.pe t.holdings.nodes sharing.claims
  return { s with stage := .numbering ⟨t.layout, t.nodes, sharing, numbering⟩ }

def number (s : State) (t : Reordering) : Script Reordering :=
  match s.offsets.base? with
  | none => return t
  | some base =>
    if t.numbering.isGivenOut then return t
    else
      let (answers, numbering) := t.numbering.giveOut base
      do
        sendEach (.assigned s.pe) (← answers)
        sendEach (.request s.pe) numbering.wanted
        return { t with numbering }

def relabel (s : State) (t : Reordering) (base : Nat) : Script State := do
  let relabelling ← Relabelling.of s.pe t.nodes t.sharing.adjacency t.numbering.ids
  let upper := upperRow relabelling.touched base (s.pe + 1 = s.npes)
  s.report .numbered
  if s.pe + 1 < s.npes then send (s.pe + 1) (.lower s.pe upper)
  enter .bounding
  return { s with
    stage := .bounding ⟨t.layout, t.numbering, base, t.sharing.own, relabelling, upper⟩
    lower := if s.pe = 0 then some 0 else s.lower }

def employ (s : State) (t : Bounding) (lower : Nat) : Script State := do
  let rows : RowRange := ⟨lower, t.upper⟩
  let cost := rows.cost t.relabelling.touched
  s.report .bounded
  (t.relabelling.setups s.pe t.layout.nchare).forM fun setup => call (.worker setup)
  call .crew
  call (.rows ⟨rows, s.pe⟩)
  call .ready
  s.tellAll (.cost s.pe cost.toBits)
  enter .costing
  return { s with stage := .costing ⟨t.layout, t.numbering, t.base, t.own, rows, cost, false⟩ }

def compare (s : State) (t : Costing) : Script Costing :=
  match s.costs.mean? with
  | none => return t
  | some mean =>
    if t.announced then return t
    else do
      s.tellAll (.deviation s.pe ((t.cost - mean) * (t.cost - mean)).toBits)
      return { t with announced := true }

/-- Passes the statistics on. By now the number of nodes in the mesh is known, unless a stranger has
sent a count as well. -/
def finish (s : State) (t : Costing) (statistics : CostStatistics) : Script State := do
  call (.statistics statistics)
  call .finished
  enter .done
  match s.offsets.total? with
  | none => fail (.outOfPhase s.pe .deviation .done)
  | some total =>
    return { s with
      stage := .done ⟨s.pe, t.layout.nchare, t.base, t.own, total, t.rows, t.cost, statistics⟩ }

/-- Does what the current phase allows; moves at most one phase ahead. -/
def work (s : State) : Script State :=
  match s.stage with
  | .setup t => if s.loads.isComplete then s.ship t else return s
  | .shipping t => do
    let t ← s.announce t
    if t.announced && s.distributed.isComplete then s.takeStock t
    else return { s with stage := .shipping t }
  | .indexed t => if t.masks.isComplete then s.share t else return s
  | .numbering t => do
    let t ← s.number t
    match t.numbering.base? with
    | some base =>
      if t.numbering.isComplete then s.relabel t base
      else return { s with stage := .numbering t }
    | none => return { s with stage := .numbering t }
  | .bounding t =>
    match s.lower with
    | some lower => s.employ t lower
    | none => return s
  | .costing t => do
    let t ← s.compare t
    match s.costs.statistics? with
    | some statistics => s.finish t statistics
    | none => return { s with stage := .costing t }
  | .done _ => return s

def retire (s : State) : State :=
  if .indexed < s.phase ∧ s.queries.isComplete then { s with serving := none } else s

theorem stage_retire (s : State) : s.retire.stage = s.stage := by
  unfold retire
  split <;> rfl

theorem backlog_retire (s : State) : s.retire.backlog = s.backlog := by
  unfold retire
  split <;> rfl

def proceed (s : State) : Script State := do
  let s ← s.work
  return s.retire

def replay (s : State) : Script State := s.backlog.foldlM take { s with backlog := [] }

def settle : Nat → State → Script State
  | 0, s => return s
  | rounds + 1, s => do
    let t ← s.proceed
    if t.phase = s.phase then return t
    else do
      let t ← t.replay
      settle rounds t

/-- Six phases can be entered, and one more round finds nothing left to do. -/
def rounds : Nat := 7

def respond (s : State) (m : Message) : Script State := do
  let s ← s.take m
  settle rounds s

def hear (s : State) (sender : Nat) (frame : Frame) : Script State := do
  let m ← (Message.decode s.seat.config.frameLimit frame).mapError Fault.frame
  if m.sender = sender then s.respond m
  else fail (.frame (.impostor m.kind sender m.sender))

end MeshNumbering.State
