import RaftConsensus.Raft.Node

/-!
# Elections

`election.cpp`.  The election thread passes through `electionTimeout`, `startElection` (the
locked block), `evalHardState`, `saveHardState` and one `sendRequestVote` per peer; `voteReply`
is the locked block of the thread that made a call, run when its reply arrives.
-/

namespace RaftConsensus.RaftNode

/-- `runElectionTimer`: the timeout has passed and, under the lock, the node is not a leader. -/
def electionTimeout (n : RaftNode) : Option RaftNode :=
  if n.election = .idle ∧ n.state ≠ .leader then some { n with election := .due } else none

/-- The locked block of `startElection`. -/
def startElection (n : RaftNode) : Option RaftNode :=
  match n.election with
  | .due =>
      some { n with
        state := .candidate
        currentTerm := n.currentTerm + 1
        votedFor := n.config.myId
        election := .started ⟨n.currentTerm + 1, n.lastLogIndex, n.lastLogTerm⟩ }
  | _ => none

/-- The arguments of `saveHardState(currentTerm_, votedFor_)` are evaluated after the lock has
been released. -/
def evalHardState (n : RaftNode) : Option RaftNode :=
  match n.election with
  | .started saved => some { n with election := .evaluated saved n.currentTerm n.votedFor }
  | _ => none

/-- The write of the evaluated hard state.  The vote counter starts at one. -/
def saveHardState (n : RaftNode) : Option RaftNode :=
  match n.election with
  | .evaluated saved term votedFor =>
      some { n with
        storage := n.storage.saveHardState term votedFor
        votesReceived := Function.update n.votesReceived saved.term 1
        election := .next saved n.config.peerStubs }
  | _ => none

/-- Spawns the thread that asks the next peer for its vote. -/
def sendRequestVote (n : RaftNode) : Option (RaftNode × ℤ × RequestVoteArgs) :=
  match n.election with
  | .sending saved (peer :: targets) =>
      some ({ n with election := .next saved targets }, peer,
        { term := saved.term
          candidateId := n.config.myId
          lastLogIndex := saved.lastLogIndex
          lastLogTerm := saved.lastLogTerm })
  | _ => none

/-- One more vote is counted in the election of term `savedTerm`. -/
def countVote (n : RaftNode) (savedTerm : ℤ) : RaftNode :=
  { n with
    votesReceived := Function.update n.votesReceived savedTerm (n.votesReceived savedTerm + 1) }

/-- A peer has answered: the locked block of its thread. -/
def voteReply (n : RaftNode) (savedTerm : ℤ) (reply : RequestVoteReply) : RaftNode :=
  if n.state ≠ .candidate ∨ n.currentTerm ≠ savedTerm then n
  else if n.currentTerm < reply.term then n.becomeFollower reply.term
  else if reply.voteGranted then
    let n := n.countVote savedTerm
    if n.votesReceived savedTerm = n.config.votesNeeded then n.becomeLeader else n
  else n

/-- The candidate's log is at least as up to date as this node's. -/
def isLogUpToDate (n : RaftNode) (args : RequestVoteArgs) : Prop :=
  n.lastLogTerm < args.lastLogTerm ∨
    args.lastLogTerm = n.lastLogTerm ∧ n.lastLogIndex ≤ args.lastLogIndex

instance (n : RaftNode) (args : RequestVoteArgs) : Decidable (n.isLogUpToDate args) :=
  inferInstanceAs (Decidable (_ ∨ _))

/-- Rules 3 and 4: the vote is still free, or already the candidate's, and the candidate's log is
up to date. -/
def grantsVote (n : RaftNode) (args : RequestVoteArgs) : Prop :=
  (n.votedFor = -1 ∨ n.votedFor = args.candidateId) ∧ n.isLogUpToDate args

instance (n : RaftNode) (args : RequestVoteArgs) : Decidable (n.grantsVote args) :=
  inferInstanceAs (Decidable (_ ∧ _))

def handleRequestVote (n : RaftNode) (args : RequestVoteArgs) : RaftNode × RequestVoteReply :=
  if args.term < n.currentTerm then (n, ⟨n.currentTerm, false⟩)
  else
    let n := n.seeTerm args.term
    if n.grantsVote args then
      ({ n with
          votedFor := args.candidateId
          storage := n.storage.saveHardState n.currentTerm args.candidateId },
        ⟨n.currentTerm, true⟩)
    else (n, ⟨n.currentTerm, false⟩)

end RaftConsensus.RaftNode
