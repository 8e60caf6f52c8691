import Mathlib.Data.List.Dedup
import RaftConsensus.Storage.RocksDBStore

/-!
# A node: its state and its threads

`RaftNode` is the object of `node.h`: the RAM copies of the persistent state, the volatile state,
and the store.  What its threads have in their local variables between two steps is part of the
state too, since other threads may run in between:

* `election` — the one election thread, inside `startElection`;
* `workers` — per peer, the detached thread of `replicateToPeer`; at most one exists for a peer
  (`replication_active_`), so `idle` stands for "no thread";
* `executor` — the executor thread, inside its loop over a fetched batch;
* `requests` — the threads inside `processClientRequest`, by the callback they were given.

A remote call that has been sent and not returned is not here but in the cluster.  Clocks, log
output and network addresses are left out: an election timeout may happen at any time.
-/

namespace RaftConsensus

open Bytes

/-- `RaftNode::Role`. -/
inductive Role
  | follower
  | candidate
  | leader
  deriving DecidableEq, Repr

/-- The configuration of a node.  `peers` lists the ids of all nodes, as `main` builds it. -/
structure ClusterConfig where
  myId : ℤ
  peers : List ℤ

/-- The ids for which there is a stub: all peers but the node itself. -/
def ClusterConfig.peerStubs (c : ClusterConfig) : List ℤ :=
  (c.peers.filter fun p => p ≠ c.myId).dedup

/-- `votesNeeded` of `startElection`. -/
def ClusterConfig.votesNeeded (c : ClusterConfig) : ℕ := (c.peers.length + 1) / 2 + 1

/-- What `startElection` saves for its remote calls. -/
structure SavedElection where
  term : ℤ
  lastLogIndex : ℤ
  lastLogTerm : ℤ
  deriving DecidableEq, Repr

/-- Where the election thread is. -/
inductive ElectionThread
  /-- Sleeping in `runElectionTimer`. -/
  | idle
  /-- The timer has fired. -/
  | due
  /-- Past the locked block of `startElection`. -/
  | started (saved : SavedElection)
  /-- The arguments of `saveHardState` are evaluated, the write is still to come. -/
  | evaluated (saved : SavedElection) (term votedFor : ℤ)
  /-- Spawning the threads for the remaining peers. -/
  | sending (saved : SavedElection) (targets : List ℤ)
  deriving DecidableEq, Repr

/-- The loop over the target peers ends when there are none left. -/
def ElectionThread.next (saved : SavedElection) : List ℤ → ElectionThread
  | [] => .idle
  | targets => .sending saved targets

/-- The local variables of `replicateToPeer` from its second locked block on. -/
structure Batch where
  prevLogIndex : ℤ
  prevLogTerm : ℤ
  term : ℤ
  commitIndex : ℤ
  lastLogIndex : ℤ
  next : ℤ
  entries : List LogEntry
  deriving DecidableEq, Repr

/-- Where the replication thread of a peer is. -/
inductive Worker
  /-- There is no thread for this peer. -/
  | idle
  /-- `nextIdx` has been read in the first locked block. -/
  | begun (nextIdx : ℤ)
  /-- The entry at `prevLogIndex` has been found present. -/
  | checked (prevLogIndex : ℤ)
  /-- Past the second locked block; `prevLogTerm` is not read yet. -/
  | locked (batch : Batch)
  /-- Reading the entries to send. -/
  | reading (batch : Batch)
  /-- Inside `sendSnapshot`. -/
  | snapshot
  /-- The dump has been made. -/
  | dumped (lastIndex lastTerm : ℤ) (data : Bytes)
  /-- The message has been stamped with the current term. -/
  | stamped (args : InstallSnapshotArgs)
  /-- The remote call with this number is outstanding. -/
  | calling (call : ℕ)
  deriving DecidableEq

/-- Where the executor thread is. -/
inductive Executor
  /-- Waiting for commits. -/
  | waiting
  /-- About to execute `entry`; the rest of the batch follows. -/
  | applying (entry : LogEntry) (rest : List LogEntry)
  /-- The balances have been read and the new ones computed. -/
  | computed (entry : LogEntry) (rest : List LogEntry) (senderNewBal receiverNewBal : ℤ)
      (resultMsg : Bytes)
  /-- The transaction has been written. -/
  | written (entry : LogEntry) (rest : List LogEntry) (resultMsg : Bytes)
  /-- The client has been notified. -/
  | notified (rest : List LogEntry)
  deriving DecidableEq

/-- The loop over a batch. -/
def Executor.next : List LogEntry → Executor
  | [] => .waiting
  | entry :: rest => .applying entry rest

/-- Where a thread inside `processClientRequest` is. -/
inductive RequestThread
  /-- Past the first leadership check. -/
  | checked (req : ClientRequest)
  /-- The lookup has found no stored result. -/
  | lookedUp (req : ClientRequest)
  deriving DecidableEq

/-- The request the thread has come with. -/
def RequestThread.request : RequestThread → ClientRequest
  | .checked req | .lookedUp req => req

/-- A node. -/
structure RaftNode where
  config : ClusterConfig
  storage : RocksDBStore
  currentTerm : ℤ
  votedFor : ℤ
  lastLogIndex : ℤ
  lastLogTerm : ℤ
  state : Role
  leaderId : ℤ
  commitIndex : ℤ
  lastApplied : ℤ
  nextIndex : ℤ → ℤ
  matchIndex : ℤ → ℤ
  /-- The callback waiting for a request, by request id. -/
  pendingCallbacks : Bytes → Option ℕ
  /-- The vote counters of this node's elections, by the term of the election. -/
  votesReceived : ℤ → ℕ
  election : ElectionThread
  workers : ℤ → Worker
  executor : Executor
  requests : ℕ → Option RequestThread

namespace RaftNode

/-- The constructor: loads the persistent state from the store. -/
def new (config : ClusterConfig) (storage : RocksDBStore) : RaftNode where
  config := config
  storage := storage
  currentTerm := storage.loadHardState.1
  votedFor := storage.loadHardState.2
  lastLogIndex := storage.getLastLogIndex
  lastLogTerm :=
    if 0 < storage.getLastLogIndex then (storage.getLogEntry storage.getLastLogIndex).term else 0
  state := .follower
  leaderId := -1
  commitIndex := 0
  lastApplied := storage.getLastAppliedIndex
  nextIndex := fun _ => 0
  matchIndex := fun _ => 0
  pendingCallbacks := fun _ => none
  votesReceived := fun _ => 0
  election := .idle
  workers := fun _ => .idle
  executor := .waiting
  requests := fun _ => none

/-- The node after its process died and was started again on the same database. -/
def restart (n : RaftNode) : RaftNode := new n.config (.openDB n.storage.db)

def becomeFollower (n : RaftNode) (term : ℤ) : RaftNode :=
  { n with
    state := .follower
    currentTerm := term
    votedFor := -1
    storage := n.storage.saveHardState term (-1) }

/-- A newer term in a request is adopted before anything else. -/
def seeTerm (n : RaftNode) (term : ℤ) : RaftNode :=
  if n.currentTerm < term then n.becomeFollower term else n

def becomeLeader (n : RaftNode) : RaftNode :=
  if n.state ≠ .candidate then n
  else
    { n with
      state := .leader
      leaderId := n.config.myId
      nextIndex := fun p => if p ∈ n.config.peers then n.lastLogIndex + 1 else n.nextIndex p
      matchIndex := fun p => if p ∈ n.config.peers then 0 else n.matchIndex p }

/-- Moves the replication thread of a peer. -/
def setWorker (n : RaftNode) (peer : ℤ) (w : Worker) : RaftNode :=
  { n with workers := Function.update n.workers peer w }

end RaftNode

end RaftConsensus
