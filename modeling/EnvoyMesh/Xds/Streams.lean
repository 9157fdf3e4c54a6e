import EnvoyMesh.Xds.Server

/-! # Streams

How go-control-plane drives the callbacks: `StreamRequestFunc` is called for every request of an open
stream, with the node of the stream filled in, and `StreamClosedFunc` once when the stream closes, with
that node. Several streams may carry the same node ID. -/

namespace EnvoyMesh

/-- An open stream: its node, which all its requests carry, and whether it has sent one. -/
structure Stream where
  node : Option Node
  requested : Bool

def Stream.nodeID (s : Stream) : String := s.node.elim "" Node.id

inductive StreamEvent where
  | opened (id : Nat) (node : Option Node)
  | request (id : Nat)
  | closed (id : Nat)

structure Streams where
  opened : Nat → Option Stream
  connected : Connected

namespace Streams

def empty : Streams := ⟨fun _ => none, .empty⟩

/-- One event; `none` where it cannot occur. -/
def step (s : Streams) : StreamEvent → Option Streams
  | .opened id node =>
    match s.opened id with
    | none => some { s with opened := Function.update s.opened id (some ⟨node, false⟩) }
    | some _ => none
  | .request id =>
    match s.opened id with
    | none => none
    | some st => some
        { opened := Function.update s.opened id (some { st with requested := true })
          connected := s.connected.streamRequest st.node }
  | .closed id =>
    match s.opened id with
    | none => none
    | some st => some
        { opened := Function.update s.opened id none
          connected := s.connected.streamClosed st.node }

def run (s : Streams) (evs : List StreamEvent) : Option Streams := evs.foldlM step s

end Streams

end EnvoyMesh
