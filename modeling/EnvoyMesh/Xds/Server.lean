import Mathlib.Logic.Function.Basic

/-! # The xDS server (`internal/xds/server.go`)

What the stream callbacks keep of the connected proxies. The gRPC server and the streams themselves
belong to go-control-plane. -/

namespace EnvoyMesh

/-- `corev3.Node`, of which only the ID is read. -/
structure Node where
  id : String
  deriving DecidableEq

/-- `Server.connected`: the node IDs that are stored. -/
abbrev Connected := String → Bool

namespace Connected

def empty : Connected := fun _ => false

def isConnected (c : Connected) (nodeID : String) : Bool := c nodeID

/-- `StreamRequestFunc`: stores the node ID of the request, unless it has none. -/
def streamRequest (c : Connected) (node : Option Node) : Connected :=
  match node with
  | some n => if n.id ≠ "" then Function.update c n.id true else c
  | none => c

/-- `StreamClosedFunc`: deletes the node ID of the closed stream, unless it has none. -/
def streamClosed (c : Connected) (node : Option Node) : Connected :=
  match node with
  | some n => if n.id ≠ "" then Function.update c n.id false else c
  | none => c

end Connected

end EnvoyMesh
