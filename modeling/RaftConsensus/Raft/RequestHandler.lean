import RaftConsensus.Raft.Node

/-!
# Client requests

`request_handler.cpp`.  A thread inside `processClientRequest` passes through `clientRequest`
(the first leadership check), `lookupRequest` (is there a stored result?) and `appendRequest`
(the locked block).  The lookup is made before the lock is taken.  Each step may answer the
client.
-/

namespace RaftConsensus.RaftNode

open Bytes

/-- The answer of a node that is not the leader. -/
def notLeader (n : RaftNode) : ClientResponse := ⟨false, ascii "Not Leader", n.leaderId⟩

/-- A request arrives, with the callback `cb`. -/
def clientRequest (n : RaftNode) (cb : ℕ) (req : ClientRequest) :
    Option (RaftNode × Option ClientResponse) :=
  if n.requests cb ≠ none then none
  else if n.state ≠ .leader then some (n, some n.notLeader)
  else some ({ n with requests := Function.update n.requests cb (some (.checked req)) }, none)

/-- The lookup of a stored result, without the lock. -/
def lookupRequest (n : RaftNode) (cb : ℕ) : Option (RaftNode × Option ClientResponse) :=
  match n.requests cb with
  | some (.checked req) =>
      let existing := n.storage.getRequestResult req.requestId
      if existing ≠ [] then
        some ({ n with requests := Function.update n.requests cb none },
          some ⟨true, existing, n.leaderId⟩)
      else some ({ n with requests := Function.update n.requests cb (some (.lookedUp req)) }, none)
  | _ => none

/-- The entry created for a request. -/
def newEntry (n : RaftNode) (req : ClientRequest) : LogEntry where
  term := n.currentTerm
  index := n.lastLogIndex + 1
  command := req

/-- Appends the entry for a request and registers the callback. -/
def acceptRequest (n : RaftNode) (cb : ℕ) (req : ClientRequest) : RaftNode :=
  { n with
    storage := n.storage.appendLog (n.newEntry req)
    lastLogIndex := n.lastLogIndex + 1
    lastLogTerm := n.currentTerm
    pendingCallbacks := Function.update n.pendingCallbacks req.requestId (some cb) }

/-- The locked block. -/
def appendRequest (n : RaftNode) (cb : ℕ) : Option (RaftNode × Option ClientResponse) :=
  match n.requests cb with
  | some (.lookedUp req) =>
      let n := { n with requests := Function.update n.requests cb none }
      if n.state ≠ .leader then some (n, some n.notLeader)
      else if (n.pendingCallbacks req.requestId).isSome then some (n, none)
      else some (n.acceptRequest cb req, none)
  | _ => none

end RaftConsensus.RaftNode
