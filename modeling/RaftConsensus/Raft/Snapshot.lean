import RaftConsensus.Raft.Node

/-!
# Snapshots

`snapshot.cpp`.  `sendSnapshot` is entered from `replicateToPeer` and passes through
`dumpSnapshot` (no lock), `stampSnapshot` (the locked block) and `sendSnapshot`;
`installSnapshotReply` is its last locked block.  `handleInstallSnapshot` is the receiving side.
-/

namespace RaftConsensus.RaftNode

open Bytes

/-- The dump, made without the lock. -/
def dumpSnapshot (n : RaftNode) (peer : ℤ) : Option RaftNode :=
  match n.workers peer with
  | .snapshot =>
      let snap := n.storage.createSnapshot
      some (n.setWorker peer (.dumped snap.lastIndex snap.lastTerm snap.data))
  | _ => none

/-- The locked block: the message gets the term the node is in by now. -/
def stampSnapshot (n : RaftNode) (peer : ℤ) : Option RaftNode :=
  match n.workers peer with
  | .dumped lastIndex lastTerm data =>
      some (n.setWorker peer (.stamped
        { term := n.currentTerm
          leaderId := n.config.myId
          lastIncludedIndex := lastIndex
          lastIncludedTerm := lastTerm
          data := data
          offset := 0
          done := true }))
  | _ => none

/-- The message is sent, as remote call number `call`. -/
def sendSnapshot (n : RaftNode) (peer : ℤ) (call : ℕ) : Option (RaftNode × InstallSnapshotArgs) :=
  match n.workers peer with
  | .stamped args => some (n.setWorker peer (.calling call), args)
  | _ => none

/-- Last locked block of `sendSnapshot`, for a call that carried `args`. -/
def installSnapshotReply (n : RaftNode) (peer : ℤ) (args : InstallSnapshotArgs)
    (reply : InstallSnapshotReply) : RaftNode :=
  let n := n.setWorker peer .idle
  if n.currentTerm < reply.term then n.becomeFollower reply.term
  else if n.state = .leader then
    let matched := max (n.matchIndex peer) args.lastIncludedIndex
    { n with
      matchIndex := Function.update n.matchIndex peer matched
      nextIndex := Function.update n.nextIndex peer (matched + 1) }
  else n

/-- The placeholder entry that stands for the last one a snapshot includes. -/
def anchorEntry (index term : ℤ) : LogEntry where
  term := term
  index := index
  command :=
    { requestId := ascii "SNAPSHOT_ANCHOR"
      type := .getBalance
      senderId := ascii "SYSTEM_ANCHOR"
      receiverId := []
      amount := 0 }

/-- The state machine is replaced, the log is cut after the snapshot and ends in the anchor. -/
def installSnapshot (n : RaftNode) (args : InstallSnapshotArgs) : RaftNode :=
  { n with
    storage :=
      ((n.storage.applySnapshot args.data args.lastIncludedIndex args.lastIncludedTerm).truncateLog
        (args.lastIncludedIndex + 1)).appendLog
          (anchorEntry args.lastIncludedIndex args.lastIncludedTerm)
    lastLogIndex := args.lastIncludedIndex
    lastLogTerm := args.lastIncludedTerm
    lastApplied := args.lastIncludedIndex
    commitIndex := args.lastIncludedIndex }

/-- On the early exits the reply carries the term from before the message. -/
def handleInstallSnapshot (n : RaftNode) (args : InstallSnapshotArgs) :
    RaftNode × InstallSnapshotReply :=
  if args.term < n.currentTerm then (n, ⟨n.currentTerm⟩)
  else
    let before := n.currentTerm
    let n := { n.seeTerm args.term with leaderId := args.leaderId }
    if args.lastIncludedIndex ≤ n.lastApplied then (n, ⟨before⟩)
    else (n.installSnapshot args, ⟨n.currentTerm⟩)

end RaftConsensus.RaftNode
