import RaftConsensus.Library.Transition
import RaftConsensus.Raft.Election
import RaftConsensus.Raft.Replication
import RaftConsensus.Raft.Snapshot
import RaftConsensus.Raft.RequestHandler
import RaftConsensus.Raft.Execution

/-!
# The cluster

The nodes, the remote calls between them, and every step they can take.

A remote call is an object of its own: it is created with its request, `handle` lets the
destination process the request (at most once), `reply` gives the answer to the thread that made
the call, and `fail` lets that thread give up.  A call that has failed may still be handled
later: its request was only delayed.  A request that is never handled, or an answer that is never
given back, is lost.  So messages are delayed, reordered and lost at will, and each reply goes to
its own call.

`history` records what has happened in a run: votes, elections, commits, executions and answers.
No step reads it.
-/

namespace RaftConsensus

/-! ## Messages and steps of one node -/

/-- A request of one node to another. -/
inductive Request
  | requestVote (args : RequestVoteArgs)
  | appendEntries (args : AppendEntriesArgs)
  | installSnapshot (args : InstallSnapshotArgs)
  deriving DecidableEq

/-- The answer to a request. -/
inductive Reply
  | requestVote (reply : RequestVoteReply)
  | appendEntries (reply : AppendEntriesReply)
  | installSnapshot (reply : InstallSnapshotReply)
  deriving DecidableEq

/-- The steps of a node's own threads. -/
inductive ThreadStep
  | electionTimeout
  | startElection
  | evalHardState
  | saveHardState
  | sendRequestVote
  | replicateBegin (peer : ℤ)
  | replicateCheck (peer : ℤ)
  | replicateLock (peer : ℤ)
  | replicatePrevTerm (peer : ℤ)
  | replicateRead (peer : ℤ)
  | replicateSend (peer : ℤ)
  | replicateAtomic (peer : ℤ)
  | dumpSnapshot (peer : ℤ)
  | stampSnapshot (peer : ℤ)
  | sendSnapshot (peer : ℤ)
  | clientRequest (cb : ℕ) (req : ClientRequest)
  | lookupRequest (cb : ℕ)
  | appendRequest (cb : ℕ)
  | fetchBatch
  | readBalances
  | applyEntry
  | notifyClient
  | compactIfDue
  | skipCompaction
  deriving DecidableEq

/-- What a step of a node sends out: a remote call, or an answer to a client. -/
inductive Output
  | none
  | call (dst : ℤ) (request : Request)
  | response (cb : ℕ) (response : ClientResponse)
  deriving DecidableEq

namespace RaftNode

/-- A step without output. -/
def quiet (n : Option RaftNode) : Option (RaftNode × Output) := n.map fun n => (n, .none)

/-- A step that may answer the client with callback `cb`. -/
def answering (cb : ℕ) (r : Option (RaftNode × Option ClientResponse)) :
    Option (RaftNode × Output) :=
  r.map fun p => (p.1, p.2.elim .none (.response cb))

/-- One step of one of the node's threads; a remote call it makes gets the number `call`. -/
def step (n : RaftNode) (call : ℕ) : ThreadStep → Option (RaftNode × Output)
  | .electionTimeout => quiet n.electionTimeout
  | .startElection => quiet n.startElection
  | .evalHardState => quiet n.evalHardState
  | .saveHardState => quiet n.saveHardState
  | .sendRequestVote => n.sendRequestVote.map fun r => (r.1, .call r.2.1 (.requestVote r.2.2))
  | .replicateBegin peer => quiet (n.replicateBegin peer)
  | .replicateCheck peer => quiet (n.replicateCheck peer)
  | .replicateLock peer => quiet (n.replicateLock peer)
  | .replicatePrevTerm peer => quiet (n.replicatePrevTerm peer)
  | .replicateRead peer => quiet (n.replicateRead peer)
  | .replicateSend peer =>
      (n.replicateSend peer call).map fun r => (r.1, .call peer (.appendEntries r.2))
  | .replicateAtomic peer =>
      (n.replicateAtomic peer call).map fun r =>
        (r.1, r.2.elim .none fun args => .call peer (.appendEntries args))
  | .dumpSnapshot peer => quiet (n.dumpSnapshot peer)
  | .stampSnapshot peer => quiet (n.stampSnapshot peer)
  | .sendSnapshot peer =>
      (n.sendSnapshot peer call).map fun r => (r.1, .call peer (.installSnapshot r.2))
  | .clientRequest cb req => answering cb (n.clientRequest cb req)
  | .lookupRequest cb => answering cb (n.lookupRequest cb)
  | .appendRequest cb => answering cb (n.appendRequest cb)
  | .fetchBatch => quiet n.fetchBatch
  | .readBalances => quiet n.readBalances
  | .applyEntry => quiet n.applyEntry
  | .notifyClient =>
      n.notifyClient.map fun r => (r.1, r.2.elim .none fun p => .response p.1 p.2)
  | .compactIfDue => quiet n.compactIfDue
  | .skipCompaction => quiet n.skipCompaction

/-- The RPC handlers. -/
def handle (n : RaftNode) : Request → RaftNode × Reply
  | .requestVote args => ((n.handleRequestVote args).1, .requestVote (n.handleRequestVote args).2)
  | .appendEntries args =>
      ((n.handleAppendEntries args).1, .appendEntries (n.handleAppendEntries args).2)
  | .installSnapshot args =>
      ((n.handleInstallSnapshot args).1, .installSnapshot (n.handleInstallSnapshot args).2)

/-- The thread that made a call to `dst` receives the answer. -/
def receive (n : RaftNode) (dst : ℤ) : Request → Reply → RaftNode
  | .requestVote args, .requestVote reply => n.voteReply args.term reply
  | .appendEntries args, .appendEntries reply => n.appendEntriesReply dst args reply
  | .installSnapshot args, .installSnapshot reply => n.installSnapshotReply dst args reply
  | _, _ => n

/-- The thread that made a call to `dst` is told that the call failed. -/
def abandon (n : RaftNode) (dst : ℤ) : Request → RaftNode
  | .requestVote _ => n
  | .appendEntries _ => n.setWorker dst .idle
  | .installSnapshot _ => n.setWorker dst .idle

end RaftNode

/-! ## The cluster -/

/-- A remote call. -/
structure Call where
  src : ℤ
  dst : ℤ
  request : Request
  /-- The answer, once the request has been handled. -/
  reply : Option Reply
  /-- The calling thread still waits. -/
  alive : Bool

/-- What happens in a run. -/
inductive Event
  /-- `startElection`: the node votes for itself. -/
  | selfVote (node term : ℤ)
  /-- `handleRequestVote` returns `voteGranted = true`. -/
  | granted (node term candidate : ℤ)
  /-- `becomeLeader`. -/
  | elected (node term : ℤ)
  /-- The commit loop of a leader sets the commit index to the end of `entries`, which are the
  entries of its log up to there. -/
  | committed (node term : ℤ) (entries : List LogEntry)
  /-- The executor applies an entry; `changed` tells whether that changes a balance. -/
  | executed (node : ℤ) (entry : LogEntry) (changed : Bool)
  /-- A client is answered. -/
  | responded (node : ℤ) (cb : ℕ) (response : ClientResponse)
  deriving DecidableEq

/-- The state of the cluster. -/
structure Cluster where
  nodes : ℤ → RaftNode
  calls : ℕ → Option Call
  nextCall : ℕ
  history : List Event

/-- A step of the cluster. -/
inductive Label
  | thread (node : ℤ) (step : ThreadStep)
  | handle (call : ℕ)
  | reply (call : ℕ)
  | fail (call : ℕ)
  | crash (node : ℤ)
  deriving DecidableEq

namespace Cluster

/-- The cluster when `main` has constructed all nodes. -/
def init (members : List ℤ) (stores : ℤ → RocksDBStore) : Cluster where
  nodes i := .new ⟨i, members⟩ (stores i)
  calls _ := none
  nextCall := 0
  history := []

/-- Executing `entry` has changed the balance of its sender or receiver. -/
def balanceChanged (before after : RaftNode) (entry : LogEntry) : Bool :=
  before.storage.getBalance entry.command.senderId ≠
      after.storage.getBalance entry.command.senderId ∨
    before.storage.getBalance entry.command.receiverId ≠
      after.storage.getBalance entry.command.receiverId

/-- What is recorded for a thread step. -/
def threadEvents (i : ℤ) (a : ThreadStep) (n n' : RaftNode) (out : Output) : List Event :=
  match a, out with
  | .startElection, _ => [.selfVote i n'.currentTerm]
  | .applyEntry, _ =>
      match n.executor with
      | .computed entry _ _ _ _ => [.executed i entry (balanceChanged n n' entry)]
      | _ => []
  | _, .response cb r => [.responded i cb r]
  | _, _ => []

/-- What is recorded when a request is handled. -/
def handleEvents (i : ℤ) : Request → Reply → List Event
  | .requestVote args, .requestVote reply =>
      if reply.voteGranted then [.granted i args.term args.candidateId] else []
  | _, _ => []

/-- What is recorded when an answer is received. -/
def replyEvents (i : ℤ) (n n' : RaftNode) : List Event :=
  (if n.state ≠ .leader ∧ n'.state = .leader then [.elected i n'.currentTerm] else []) ++
    (if n'.commitIndex ≠ n.commitIndex then
      [.committed i n'.currentTerm
        ((loopRange 1 n'.commitIndex).map n'.storage.getLogEntry)]
    else [])

/-- Replaces a node. -/
def setNode (s : Cluster) (i : ℤ) (n : RaftNode) : Cluster :=
  { s with nodes := Function.update s.nodes i n }

/-- Replaces a call. -/
def setCall (s : Cluster) (k : ℕ) (c : Option Call) : Cluster :=
  { s with calls := Function.update s.calls k c }

/-- Adds a new call. -/
def addCall (s : Cluster) (c : Call) : Cluster :=
  { s.setCall s.nextCall (some c) with nextCall := s.nextCall + 1 }

/-- Records events. -/
def record (s : Cluster) (events : List Event) : Cluster :=
  { s with history := events ++ s.history }

/-- A node sends something out. -/
def emit (s : Cluster) (i : ℤ) : Output → Cluster
  | .call dst request => s.addCall ⟨i, dst, request, none, true⟩
  | _ => s

/-- A node dies: the calls it has made have nobody waiting any more. -/
def orphan (s : Cluster) (i : ℤ) : Cluster :=
  { s with
    calls := fun k => (s.calls k).map fun c => if c.src = i then { c with alive := false } else c }

/-- One step of the cluster whose nodes have the ids `members`. -/
def step (members : List ℤ) (s : Cluster) : Label → Option Cluster
  | .thread i a =>
      if i ∈ members then
        match (s.nodes i).step s.nextCall a with
        | none => none
        | some (n, out) =>
            some (((s.setNode i n).emit i out).record (threadEvents i a (s.nodes i) n out))
      else none
  | .handle k =>
      match s.calls k with
      | some ⟨src, dst, request, none, alive⟩ =>
          let r := (s.nodes dst).handle request
          some (((s.setNode dst r.1).setCall k (some ⟨src, dst, request, some r.2, alive⟩)).record
            (handleEvents dst request r.2))
      | _ => none
  | .reply k =>
      match s.calls k with
      | some ⟨src, dst, request, some reply, true⟩ =>
          let n := (s.nodes src).receive dst request reply
          some (((s.setNode src n).setCall k none).record (replyEvents src (s.nodes src) n))
      | _ => none
  | .fail k =>
      match s.calls k with
      | some ⟨src, dst, request, reply, true⟩ =>
          some ((s.setNode src ((s.nodes src).abandon dst request)).setCall k
            (some ⟨src, dst, request, reply, false⟩))
      | _ => none
  | .crash i =>
      if i ∈ members then some ((s.setNode i (s.nodes i).restart).orphan i) else none

end Cluster

end RaftConsensus
