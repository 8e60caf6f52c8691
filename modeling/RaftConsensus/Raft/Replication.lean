import RaftConsensus.Raft.Node

/-!
# Log replication

`replication.cpp`.  The thread for a peer passes through `replicateBegin` (first locked block),
`replicateCheck` (is the previous entry still there?), `replicateLock` (second locked block),
`replicatePrevTerm`, one `replicateRead` per entry and `replicateSend`; `appendEntriesReply` is
its last locked block, run when the peer has answered.  `replicateAtomic` is everything up to
the call in one step.

`handleAppendEntries` is the receiving side.
-/

namespace RaftConsensus.RaftNode

/-! ## Building a message -/

/-- The cap on the entries of one message. -/
def batchLimit : ℕ := 100

/-- A thread for a peer may start: there is a stub for the peer and no thread yet, and the first
locked block finds this node to be the leader. -/
def mayReplicate (n : RaftNode) (peer : ℤ) : Prop :=
  peer ∈ n.config.peerStubs ∧ n.workers peer = .idle ∧ n.state = .leader

instance (n : RaftNode) (peer : ℤ) : Decidable (n.mayReplicate peer) :=
  inferInstanceAs (Decidable (_ ∧ _))

/-- First locked block. -/
def replicateBegin (n : RaftNode) (peer : ℤ) : Option RaftNode :=
  if n.mayReplicate peer then some (n.setWorker peer (.begun (n.nextIndex peer))) else none

/-- A missing entry before the first one to send means that the peer needs a snapshot. -/
def needsSnapshot (n : RaftNode) (prevLogIndex : ℤ) : Prop :=
  0 < prevLogIndex ∧ (n.storage.getLogEntry prevLogIndex).term = 0

instance (n : RaftNode) (i : ℤ) : Decidable (n.needsSnapshot i) :=
  inferInstanceAs (Decidable (_ ∧ _))

/-- The unlocked look at the entry before the first one to send. -/
def replicateCheck (n : RaftNode) (peer : ℤ) : Option RaftNode :=
  match n.workers peer with
  | .begun nextIdx =>
      if n.needsSnapshot (nextIdx - 1) then some (n.setWorker peer .snapshot)
      else some (n.setWorker peer (.checked (nextIdx - 1)))
  | _ => none

/-- Second locked block: `nextIdx` is read again, `prevLogIndex` is kept from the first. -/
def replicateLock (n : RaftNode) (peer : ℤ) : Option RaftNode :=
  match n.workers peer with
  | .checked prevLogIndex =>
      if n.state ≠ .leader then some (n.setWorker peer .idle)
      else
        some (n.setWorker peer (.locked
          { prevLogIndex := prevLogIndex
            prevLogTerm := 0
            term := n.currentTerm
            commitIndex := n.commitIndex
            lastLogIndex := n.lastLogIndex
            next := n.nextIndex peer
            entries := [] }))
  | _ => none

/-- The term at an index, read from the store; index `0` has term `0`. -/
def prevTermAt (n : RaftNode) (prevLogIndex : ℤ) : ℤ :=
  if 0 < prevLogIndex then (n.storage.getLogEntry prevLogIndex).term else 0

/-- The unlocked read of `prevLogTerm`. -/
def replicatePrevTerm (n : RaftNode) (peer : ℤ) : Option RaftNode :=
  match n.workers peer with
  | .locked b =>
      some (n.setWorker peer (.reading { b with prevLogTerm := n.prevTermAt b.prevLogIndex }))
  | _ => none

/-- There is another entry to read. -/
def Batch.more (b : Batch) : Prop := b.next ≤ b.lastLogIndex ∧ b.entries.length < batchLimit

instance (b : Batch) : Decidable (Batch.more b) := inferInstanceAs (Decidable (_ ∧ _))

/-- The unlocked read of one entry. -/
def replicateRead (n : RaftNode) (peer : ℤ) : Option RaftNode :=
  match n.workers peer with
  | .reading b =>
      if Batch.more b then
        some (n.setWorker peer (.reading { b with
          next := b.next + 1
          entries := b.entries ++ [n.storage.getLogEntry b.next] }))
      else none
  | _ => none

/-- The message of a batch. -/
def Batch.args (myId : ℤ) (b : Batch) : AppendEntriesArgs where
  term := b.term
  leaderId := myId
  prevLogIndex := b.prevLogIndex
  prevLogTerm := b.prevLogTerm
  entries := b.entries
  leaderCommit := b.commitIndex

/-- The message is complete and is sent, as remote call number `call`. -/
def replicateSend (n : RaftNode) (peer : ℤ) (call : ℕ) : Option (RaftNode × AppendEntriesArgs) :=
  match n.workers peer with
  | .reading b =>
      if Batch.more b then none
      else some (n.setWorker peer (.calling call), Batch.args n.config.myId b)
  | _ => none

/-- The message `replicateToPeer` builds when no other thread runs in between. -/
def appendEntriesArgs (n : RaftNode) (peer : ℤ) : AppendEntriesArgs where
  term := n.currentTerm
  leaderId := n.config.myId
  prevLogIndex := n.nextIndex peer - 1
  prevLogTerm := n.prevTermAt (n.nextIndex peer - 1)
  entries := ((loopRange (n.nextIndex peer) n.lastLogIndex).take batchLimit).map
    n.storage.getLogEntry
  leaderCommit := n.commitIndex

/-- `replicateToPeer` up to its remote call, in one step: with a message, or on the way to
`sendSnapshot`. -/
def replicateAtomic (n : RaftNode) (peer : ℤ) (call : ℕ) :
    Option (RaftNode × Option AppendEntriesArgs) :=
  if n.mayReplicate peer then
    if n.needsSnapshot (n.nextIndex peer - 1) then some (n.setWorker peer .snapshot, none)
    else some (n.setWorker peer (.calling call), some (n.appendEntriesArgs peer))
  else none

/-! ## The reply -/

/-- The number of nodes known to hold the entry at `index`: this one and the peers. -/
def countReplicas (n : RaftNode) (index : ℤ) : ℕ :=
  1 + n.config.peers.countP fun p => p ≠ n.config.myId ∧ index ≤ n.matchIndex p

/-- The commit loop: the greatest index above `commitIndex` whose entry is of the current term
and known to enough nodes; `commitIndex` if there is none. -/
def commitLoop (n : RaftNode) : ℤ :=
  ((loopRange (n.commitIndex + 1) n.lastLogIndex).reverse.find? fun N =>
    (n.storage.getLogEntry N).term = n.currentTerm ∧
      (n.config.peers.length + 1) / 2 < n.countReplicas N).getD n.commitIndex

/-- The peer has taken over the entries up to `lastSentIndex`. -/
def peerMatched (n : RaftNode) (peer lastSentIndex : ℤ) : RaftNode :=
  let matched := max (n.matchIndex peer) lastSentIndex
  { n with
    matchIndex := Function.update n.matchIndex peer matched
    nextIndex := Function.update n.nextIndex peer (matched + 1) }

/-- Last locked block of `replicateToPeer`, for a call that carried `args`. -/
def appendEntriesReply (n : RaftNode) (peer : ℤ) (args : AppendEntriesArgs)
    (reply : AppendEntriesReply) : RaftNode :=
  let n := n.setWorker peer .idle
  if n.state ≠ .leader ∨ n.currentTerm ≠ args.term then n
  else if n.currentTerm < reply.term then n.becomeFollower reply.term
  else if reply.success then
    match args.entries.getLast? with
    | none => n
    | some last =>
        let n := n.peerMatched peer last.index
        { n with commitIndex := n.commitLoop }
  else if 1 < n.nextIndex peer then
    { n with nextIndex := Function.update n.nextIndex peer (n.nextIndex peer - 1) }
  else n

/-! ## The receiving side -/

/-- A valid leader has been heard: a newer term is adopted, and a candidate or leader of the same
term steps down. -/
def acceptLeader (n : RaftNode) (term leaderId : ℤ) : RaftNode :=
  let n := { n with leaderId := leaderId }
  if n.currentTerm < term then n.becomeFollower term
  else if n.state ≠ .follower then n.becomeFollower term
  else n

/-- The consistency check at `prevLogIndex`.  At the last index the term is taken from RAM. -/
def consistentAt (n : RaftNode) (args : AppendEntriesArgs) : Prop :=
  args.prevLogIndex ≤ 0 ∨
    args.prevLogIndex ≤ n.lastLogIndex ∧
      (if args.prevLogIndex = n.lastLogIndex then n.lastLogTerm
        else (n.storage.getLogEntry args.prevLogIndex).term) = args.prevLogTerm

instance (n : RaftNode) (args : AppendEntriesArgs) : Decidable (n.consistentAt args) :=
  inferInstanceAs (Decidable (_ ∨ _))

/-- One turn of the append loop, at `currentIndex`: an entry already there is kept, a conflicting
one is cut off with all that follows it, a missing one is appended. -/
def appendEntry (n : RaftNode) (currentIndex : ℤ) (entry : LogEntry) : RaftNode :=
  if currentIndex ≤ n.lastLogIndex then
    if (n.storage.getLogEntry currentIndex).term ≠ entry.term then
      { n with
        storage := (n.storage.truncateLog currentIndex).appendLog entry
        lastLogIndex := currentIndex
        lastLogTerm := entry.term }
    else n
  else
    { n with
      storage := n.storage.appendLog entry
      lastLogIndex := currentIndex
      lastLogTerm := entry.term }

/-- The append loop, from the index after `prevLogIndex` on. -/
def appendLoop (n : RaftNode) (prevLogIndex : ℤ) : List LogEntry → RaftNode
  | [] => n
  | entry :: entries =>
      (n.appendEntry (prevLogIndex + 1) entry).appendLoop (prevLogIndex + 1) entries

/-- The commit index follows the leader's, up to the end of the log. -/
def followCommit (n : RaftNode) (leaderCommit : ℤ) : RaftNode :=
  if n.commitIndex < leaderCommit then
    { n with commitIndex := min leaderCommit n.lastLogIndex }
  else n

def handleAppendEntries (n : RaftNode) (args : AppendEntriesArgs) :
    RaftNode × AppendEntriesReply :=
  if args.term < n.currentTerm then (n, ⟨n.currentTerm, false⟩)
  else
    let n := n.acceptLeader args.term args.leaderId
    if n.consistentAt args then
      let n := (n.appendLoop args.prevLogIndex args.entries).followCommit args.leaderCommit
      (n, ⟨n.currentTerm, true⟩)
    else (n, ⟨n.currentTerm, false⟩)

end RaftConsensus.RaftNode
