import MeshNumbering.Decimal.Notation
import MeshNumbering.Message.Kind

/-! Why a run can fail, and how each cause is worded. Every failure is final: a processor that meets
one tells its peers and stops. -/

namespace MeshNumbering

/-- Doubles inside a message have the fewest digits that read back, a tie going up, and no
exponent. -/
def Fault.amount : Decimal.Style := ⟨.up, none, false, "inf", "NaN"⟩

inductive MeshFault where
  | axesDiffer (x y z : Nat)
  | raggedConnectivity (length : Nat)
  | danglingNode (node count : Nat)
  | elementsOutside (lo hi count : Nat)
  | nodesOutside (lo hi count : Nat)
  | connectivityLength (lo hi expected got : Nat)
  | nodeOutsideBlock (element node : Nat)
  -- An element has no connectivity of its own to look at.
  | elementMissing (element : Nat)
  | reported (text : String)
deriving DecidableEq

inductive ConfigFault where
  | noProcessors
  | noChares
  | fewerCharesThanProcessors (nchare npes : Nat)
  | undistributable (nchare npes : Nat)
  | virtualization (v : Float)
  | emptySlab (lo hi : Float)
  | secondRun (pe : Nat)
deriving DecidableEq

inductive StrategyFault where
  | centroidCount (needed got : Nat)
  | elementUnlisted (element : Nat)
  -- Elements cannot be dealt out in turn to no chares at all.
  | noChares
  | reported (text : String)
deriving DecidableEq

inductive FrameFault where
  | overLimit (length limit : Nat)
  | noHeader (length : Nat)
  | version (version : Nat)
  | bodyLength (expected got : Nat)
  | numberCut
  | textCut
  | unknownKind (index : Nat)
  | invalidText (length position : Nat)
  | unfinishedText (position : Nat)
  | kindMismatch (code : Nat) (kind : MessageKind)
  | bodyTooLong (length : Nat)
  | numberTooLarge
  | impostor (kind : MessageKind) (sender claimed : Nat)
deriving DecidableEq

inductive LinkFault where
  | noSuchPeer (size : Nat)
  | inboxClosed
  | reported (text : String)
deriving DecidableEq

inductive Fault where
  | emptyChare (pe chare : Nat)
  | config (cause : ConfigFault)
  | assignmentLength (expected got : Nat)
  | chareOutOfRange (chare nchare : Nat)
  | mesh (cause : MeshFault)
  | strategy (cause : StrategyFault)
  | masksMissing (pe expected got : Nat)
  | requestNotOwn (pe sender node : Nat)
  | idNotRequested (pe node : Nat)
  | nodeNotHeld (pe sender node : Nat)
  | nodeUnnumbered (pe node : Nat)
  | foreignChare (pe chare : Nat)
  | outOfPhase (pe : Nat) (kind : MessageKind) (phase : Phase)
  | repeated (pe sender : Nat) (kind : MessageKind)
  | frame (cause : FrameFault)
  | link (peer : Nat) (cause : LinkFault)
  | inboxClosed (pe : Nat)
  | aborted (pe : Nat) (reason : String)
deriving DecidableEq

def MeshFault.message : MeshFault → String
  | axesDiffer x y z => s!"coordinate arrays differ in length: {x}, {y}, {z}"
  | raggedConnectivity n => s!"connectivity length {n} is not a multiple of 4"
  | danglingNode n count => s!"element references node {n} but only {count} nodes exist"
  | elementsOutside lo hi count =>
    s!"element range [{lo}, {hi}) outside mesh of {count} elements"
  | nodesOutside lo hi count => s!"node extent [{lo}, {hi}] outside mesh of {count} nodes"
  | connectivityLength lo hi expected got =>
    s!"elements {lo}..{hi}: expected {expected} connectivity entries, got {got}"
  | nodeOutsideBlock e n => s!"element {e} references node {n} outside the coordinate block"
  | elementMissing e => s!"element {e} has no connectivity"
  | reported text => text

def ConfigFault.message : ConfigFault → String
  | noProcessors => "at least one PE is required"
  | noChares => "number of chares must be positive"
  | fewerCharesThanProcessors nchare npes =>
    s!"{nchare} chares cannot be distributed over {npes} PEs; need at least one per PE"
  | undistributable nchare npes => s!"cannot distribute {nchare} chares over {npes} PEs"
  | virtualization v => "virtualization must lie in [0, 1], got " ++ Fault.amount.write v
  | emptySlab lo hi =>
    "slab extent [" ++ Fault.amount.write lo ++ ", " ++ Fault.amount.write hi ++ "] is empty"
  | secondRun pe => s!"partitioner on PE {pe} already ran"

def StrategyFault.message : StrategyFault → String
  | centroidCount needed got => s!"slab partitioner needs {needed} centroids, got {got}"
  | elementUnlisted g => s!"no chare provided for element {g}"
  | noChares => "no chares to deal elements out to"
  | reported text => text

def FrameFault.message : FrameFault → String
  | overLimit n limit => s!"frame of {n} bytes exceeds limit of {limit}"
  | noHeader n => s!"frame of {n} bytes is shorter than its header"
  | version v => s!"wire version {v} (expected 1)"
  | bodyLength expected got => s!"expected {expected} body bytes, got {got}"
  | numberCut => "io error: unexpected end of file"
  | textCut => "io error: "
  | unknownKind n => s!"invalid value: integer `{n}`, expected variant index 0 <= i < 13"
  | invalidText n i =>
    s!"string is not valid utf8: invalid utf-8 sequence of {n} bytes from index {i}"
  | unfinishedText i =>
    s!"string is not valid utf8: incomplete utf-8 byte sequence from index {i}"
  | kindMismatch code kind => s!"header kind {code} does not match `{kind.name}` body"
  | bodyTooLong n => s!"body of {n} bytes too large"
  | numberTooLarge => "number does not fit in 64 bits"
  | impostor kind sender claimed =>
    s!"`{kind.name}` from PE {sender} claims to come from PE {claimed}"

def LinkFault.message : LinkFault → String
  | noSuchPeer size => s!"no such PE in a universe of {size}"
  | inboxClosed => "peer inbox closed"
  | reported text => text

namespace Fault

def message : Fault → String
  | emptyChare pe chare =>
    s!"Overdecomposition: chare {chare} on PE {pe} has no mesh elements. " ++
      "Decrease the virtualization or the number of PEs so that every work " ++
      "unit receives at least one element"
  | config cause => "Invalid configuration: " ++ cause.message
  | assignmentLength expected got =>
    s!"Partitioner returned {got} chare assignments for {expected} elements"
  | chareOutOfRange chare nchare =>
    s!"Partitioner assigned nonexistent chare {chare} (nchare = {nchare})"
  | mesh cause => "Mesh read error: " ++ cause.message
  | strategy cause => "Partitioner error: " ++ cause.message
  | masksMissing pe expected got =>
    s!"PE {pe} resolved its communication map with {got} masks, expected {expected}"
  | requestNotOwn pe sender node =>
    s!"PE {pe} received a request from PE {sender} for node {node} it does not own"
  | idNotRequested pe node => s!"PE {pe} received an unrequested new id for node {node}"
  | nodeNotHeld pe sender node =>
    s!"PE {pe} received a mask from PE {sender} naming node {node} it does not hold"
  | nodeUnnumbered pe node => s!"PE {pe} has no new id for node {node} after reordering"
  | foreignChare pe chare => s!"PE {pe} received nodes of chare {chare} it does not own"
  | outOfPhase pe kind phase =>
    s!"PE {pe} received unexpected `{kind.name}` message in phase {phase.name}"
  | repeated pe sender kind =>
    s!"PE {pe} received a duplicate `{kind.name}` contribution from PE {sender}"
  | frame cause => "Wire error: " ++ cause.message
  | link peer cause => s!"Communication error with PE {peer}: " ++ cause.message
  | inboxClosed pe => s!"Inbox of PE {pe} closed before the protocol completed"
  | aborted pe reason => s!"PE {pe} aborted the run: {reason}"

def isRemote : Fault → Bool
  | aborted .. => true
  | _ => false

end Fault

end MeshNumbering
