import RaftConsensus.Cluster.ClientResults
import RaftConsensus.Node.Callbacks
import RaftConsensus.Network.Connection
import RaftConsensus.Network.Encoding

/-!
# Sessions

`session.cpp`, on top of `connection.cpp` and `request_handler.cpp`.  A session reads a message,
hands the request in it to the node with a callback of its own, and reads the next one when the
callback has been invoked and the response has been written.  `Gateway` is a node with any number
of sessions, each with its connection; what arrives there, and when, is up to the clients.

A session lives as long as somebody holds it: the pending read or the callback.  When the node
drops a callback (a request that is found in flight), the session is gone and its connection is
closed.

`parse` is the parser of the protocol-buffer library.
-/

namespace RaftConsensus

/-- What a session waits for. -/
inductive SessionStage
  /-- The read of a message to complete. -/
  | reading
  /-- The callback with this number to be invoked. -/
  | waiting (cb : ℕ)
  | closed
  deriving DecidableEq, Repr

/-- A session and its connection.  `arrived`, `asked` and `answers` are its history, which no step
reads: all bytes that have arrived, the requests handed to the node, and the responses written,
each with the id of the request that the node has answered. -/
structure Session where
  /-- What has arrived and is not read yet, in pieces. -/
  unread : List Bytes
  /-- Nothing more arrives: the client has closed the connection, or it has failed. -/
  ended : Bool
  stage : SessionStage
  /-- What has been written. -/
  sent : Bytes
  arrived : Bytes
  asked : List ClientRequest
  answers : List (Bytes × ClientResponse)
  deriving DecidableEq, Repr

/-- What a read comes to. -/
inductive Incoming
  | request (req : ClientRequest) (rest : List Bytes)
  | close

namespace Session

def start : Session := ⟨[], false, .reading, [], [], [], []⟩

/-- The read of a message, and the parsing, once it completes. -/
def read? (parse : Bytes → Option ClientRequest) (s : Session) : Option Incoming :=
  match TcpConnection.readMessage s.unread with
  | .ok (body, rest) =>
      match parse body with
      | some req => some (.request req rest)
      | none => some .close
  | .error (.tooLarge _) => some .close
  -- the stream goes no further, but may do so later
  | .error _ => if s.ended then some .close else none

/-- The request has been read, and is handed over with the callback `cb`. -/
def wait (cb : ℕ) (req : ClientRequest) (rest : List Bytes) (s : Session) : Session :=
  { s with unread := rest, stage := .waiting cb, asked := s.asked ++ [req] }

/-- The callback `cb` is invoked: if it is the session's, the response is written. -/
def answer (cb : ℕ) (id : Bytes) (resp : ClientResponse) (s : Session) : Session :=
  if s.stage = .waiting cb then
    { s with
      stage := .reading
      sent := s.sent ++ TcpConnection.sendFrame resp.serialize
      answers := s.answers ++ [(id, resp)] }
  else s

/-- The callback `cb` is dropped, and the session with it. -/
def drop (cb : ℕ) (s : Session) : Session :=
  if s.stage = .waiting cb then { s with stage := .closed } else s

def close (s : Session) : Session := { s with stage := .closed }

end Session

/-- The callback that a step drops: that of a request that is found in flight. -/
def RaftNode.drops (n : RaftNode) : ThreadStep → Option ℕ
  | .appendRequest cb =>
      match n.requests cb with
      | some (.lookedUp req) =>
          if n.state = .leader ∧ (n.pendingCallbacks req.requestId).isSome then some cb else none
      | _ => none
  | _ => none

/-- A node with its sessions. -/
structure Gateway where
  node : RaftNode
  sessions : ℕ → Option Session
  /-- The number of the next callback. -/
  nextCallback : ℕ

inductive GatewayLabel
  /-- A client connects. -/
  | accept (i : ℕ)
  /-- A piece of the client's stream arrives. -/
  | arrive (i : ℕ) (piece : Bytes)
  /-- The client closes the connection. -/
  | hangUp (i : ℕ)
  /-- The connection fails; what has not been read is lost. -/
  | reset (i : ℕ)
  /-- The pending read of a session completes. -/
  | read (i : ℕ)
  /-- A step of the node; requests arrive through sessions only. -/
  | node (l : NodeLabel)

namespace Gateway

def start (config : ClusterConfig) (store : RocksDBStore) : Gateway :=
  ⟨.new config store, fun _ => none, 0⟩

def setSession (g : Gateway) (i : ℕ) (s : Session) : Gateway :=
  { g with sessions := Function.update g.sessions i (some s) }

def mapSessions (g : Gateway) (f : Session → Session) : Gateway :=
  { g with sessions := fun i => (g.sessions i).map f }

/-- A response goes to the session whose callback is invoked; `n` has taken the step `a`. -/
def deliver (g : Gateway) (n : RaftNode) (a : ThreadStep) : Output → Gateway
  | .response cb resp => g.mapSessions (.answer cb ((n.servedId? a).getD []) resp)
  | _ => g

/-- A callback that is dropped takes its session along. -/
def release (g : Gateway) (cb? : Option ℕ) : Gateway :=
  cb?.elim g fun cb => g.mapSessions (.drop cb)

/-- A session hands a request to the node. -/
def hand (g : Gateway) (i : ℕ) (s : Session) (req : ClientRequest) (rest : List Bytes) :
    Option Gateway :=
  let cb := g.nextCallback
  (g.node.step 0 (.clientRequest cb req)).map fun r =>
    deliver
      { g.setSession i (s.wait cb req rest) with node := r.1, nextCallback := cb + 1 }
      g.node (.clientRequest cb req) r.2

def step (parse : Bytes → Option ClientRequest) (g : Gateway) : GatewayLabel → Option Gateway
  | .accept i => if g.sessions i = none then some (g.setSession i .start) else none
  | .arrive i piece =>
      match g.sessions i with
      | some s =>
          if s.ended then none
          else some (g.setSession i
            { s with unread := s.unread ++ [piece], arrived := s.arrived ++ piece })
      | none => none
  | .hangUp i => (g.sessions i).map fun s => g.setSession i { s with ended := true }
  | .reset i => (g.sessions i).map fun s => g.setSession i { s with ended := true, unread := [] }
  | .read i =>
      match g.sessions i with
      | some s =>
          if s.stage = .reading then
            match s.read? parse with
            | some (.request req rest) => g.hand i s req rest
            | some .close => some (g.setSession i s.close)
            | none => none
          else none
      | none => none
  | .node (.thread call a) =>
      if a.hands = none then
        (g.node.step call a).map fun r =>
          (deliver { g with node := r.1 } g.node a r.2).release (g.node.drops a)
      else none
  | .node (.handle request) => some { g with node := (g.node.handle request).1 }
  | .node (.receive dst request reply) =>
      some { g with node := g.node.receive dst request reply }
  | .node (.abandon dst request) => some { g with node := g.node.abandon dst request }
  -- the sessions end with the process
  | .node .restart => some { g.mapSessions .close with node := g.node.restart }

end Gateway

end RaftConsensus
