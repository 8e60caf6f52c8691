import RaftConsensus.Cluster.ApplyOrder
import RaftConsensus.Library.Mutex

/-!
# The lock of a node

`mutex_` guards the state of a node.  `Critical` lists the blocks that are run under it, and
`nodeCode` what each does to the node; any number of threads may come to any of them at any time,
in between the steps that are taken without the lock.

Every block holds the lock by a guard, which unlocks once, at its end.  Only the locked block of
`processClientRequest` also unlocks by hand: when it finds that the node is not the leader any
more.  The guard then unlocks a second time, and by then another thread may hold the lock.  In
every run in which no thread finds that (`StaysLeader`), the lock excludes (`mutex_excludes`).
-/

namespace RaftConsensus

open Mutex

/-- The blocks that are run under the lock. -/
inductive Critical
  /-- `start`: the threads are launched. -/
  | start
  /-- `runElectionTimer`. -/
  | electionTimeout
  /-- `startElection`. -/
  | startElection
  /-- `runReplicationManager`: the peers are listed, and a peer is marked as busy or idle.  The
  model takes the marks together with the peer's thread. -/
  | listPeers
  | markBusy (peer : ℤ)
  | markIdle (peer : ℤ)
  /-- `replicateToPeer`, its first and second block. -/
  | replicateBegin (peer : ℤ)
  | replicateLock (peer : ℤ)
  /-- `sendSnapshot`, its first block. -/
  | stampSnapshot (peer : ℤ)
  /-- The three handlers. -/
  | handle (request : Request)
  /-- The blocks after a remote call: of `startElection`, `replicateToPeer` and `sendSnapshot`. -/
  | receive (dst : ℤ) (request : Request) (reply : Reply)
  /-- `processClientRequest`. -/
  | appendRequest (cb : ℕ)
  /-- `runStateMachineExecutor`: the batch is fetched, and the client is notified.  A wait for
  commits gives the lock back and takes it again. -/
  | fetchBatch
  | notifyClient
  deriving DecidableEq

namespace Critical

/-- What a block does to the node; a block that returns early does nothing. -/
def run (n : RaftNode) : Critical → RaftNode
  | .start | .listPeers | .markBusy _ | .markIdle _ => n
  | .electionTimeout => n.electionTimeout.getD n
  | .startElection => n.startElection.getD n
  | .replicateBegin peer => (n.replicateBegin peer).getD n
  | .replicateLock peer => (n.replicateLock peer).getD n
  | .stampSnapshot peer => (n.stampSnapshot peer).getD n
  | .handle request => (n.handle request).1
  | .receive dst request reply => n.receive dst request reply
  | .appendRequest cb => (n.appendRequest cb).elim n Prod.fst
  | .fetchBatch => n.fetchBatch.getD n
  | .notifyClient => n.notifyClient.elim n Prod.fst

/-- The block finds that the node has been deposed since the first leadership check. -/
def Deposed (n : RaftNode) : Critical → Prop
  | .appendRequest cb => (∃ t ∈ n.requests cb, t = .lookedUp t.request) ∧ n.state ≠ .leader
  | _ => False

instance (n : RaftNode) : DecidablePred (Deposed n)
  | .appendRequest cb =>
      inferInstanceAs (Decidable ((∃ t ∈ n.requests cb, t = .lookedUp t.request) ∧ _))
  | .start | .electionTimeout | .startElection | .listPeers | .markBusy _ | .markIdle _
  | .replicateBegin _ | .replicateLock _ | .stampSnapshot _ | .handle _ | .receive _ _ _
  | .fetchBatch | .notifyClient => isFalse id

end Critical

/-- The steps that are taken without the lock. -/
inductive Unlocked
  | thread (call : ℕ) (step : ThreadStep)
  | abandon (dst : ℤ) (request : Request)

/-- The thread steps that are not under the lock. -/
def ThreadStep.unlocked : ThreadStep → Bool
  | .evalHardState | .saveHardState | .sendRequestVote | .replicateCheck _ | .replicatePrevTerm _
  | .replicateRead _ | .replicateSend _ | .dumpSnapshot _ | .sendSnapshot _ | .clientRequest _ _
  | .lookupRequest _ | .readBalances | .applyEntry | .compactIfDue | .skipCompaction => true
  | _ => false

def Unlocked.run (n : RaftNode) : Unlocked → Option RaftNode
  | .thread call a => if a.unlocked then (n.step call a).map Prod.fst else none
  | .abandon dst request => some (n.abandon dst request)

/-- **The code of a node**: one block unlocks by hand, in one case. -/
def nodeCode : Code RaftNode Critical Unlocked where
  run b n := b.run n
  manual b n := if b.Deposed n then 1 else 0
  free u n := u.run n

/-- A node with its lock and threads. -/
abbrev LockedNode (τ : Type*) := State τ RaftNode Critical

/-- No block finds that the node has been deposed. -/
def StaysLeader {τ : Type*} (s : LockedNode τ) (l : Mutex.Label τ Critical Unlocked) : Prop :=
  ∀ t ∈ l.acquires, ∀ b ∈ (s.phase t).block?, ¬ b.Deposed s.shared

instance {τ : Type*} (s : LockedNode τ) : DecidablePred (StaysLeader s) := fun l =>
  inferInstanceAs (Decidable (∀ t ∈ l.acquires, ∀ b ∈ (s.phase t).block?, _))

/-- **`mutex_` excludes**, in every run of any number of threads in which no thread of
`processClientRequest` finds, with the lock, that the node has been deposed: it is released only by
the thread that holds it, once for each time it is acquired, and one thread at most is inside. -/
theorem mutex_excludes {τ : Type*} [DecidableEq τ] {n : RaftNode}
    {ls : List (Mutex.Label τ Critical Unlocked)} {s : LockedNode τ}
    (hrun : Transition.Run (Mutex.step nodeCode) StaysLeader (.init n) ls s) :
    Exclusive nodeCode s :=
  exclusive_of_run (hrun.mono fun _ _ h t ht b hb => if_neg (h t ht b hb))

/-! ## Two runs -/

/-- A thread runs a block from its beginning to its end. -/
def wholeBlock (t : ℕ) (b : Critical) : List (Mutex.Label ℕ Critical Unlocked) :=
  [.enter t b, .acquire t, .unlock t]

/-- Node `1` of a pair wins the first term: thread `0` is its election timer, thread `1` has asked
for the vote. -/
def lockedElection : List (Mutex.Label ℕ Critical Unlocked) :=
  wholeBlock 0 .electionTimeout ++ wholeBlock 0 .startElection ++
    [.free (.thread 0 .evalHardState), .free (.thread 0 .saveHardState),
      .free (.thread 0 .sendRequestVote)] ++
    wholeBlock 1 (.receive 2 (.requestVote ⟨1, 1, 0, 0⟩) (.requestVote ⟨1, true⟩))

/-- A client's request passes the first check and the lookup. -/
def lookedUpRequest : List (Mutex.Label ℕ Critical Unlocked) :=
  [.free (.thread 0 (.clientRequest 0 .empty)), .free (.thread 0 (.lookupRequest 0))]

/-- A request that is appended holds the lock alone. -/
theorem append_excludes :
    ∃ s : LockedNode ℕ, Transition.Run (Mutex.step nodeCode) StaysLeader
        (.init (.new ⟨1, [1, 2]⟩ RocksDBStore.genesis))
        (lockedElection ++ lookedUpRequest ++ [.enter 2 (.appendRequest 0), .acquire 2]) s ∧
      s.Inside 2 ∧ Exclusive nodeCode s := by
  have hinside : ∃ s : LockedNode ℕ, Transition.Run (Mutex.step nodeCode) StaysLeader
      (.init (.new ⟨1, [1, 2]⟩ RocksDBStore.genesis))
      (lockedElection ++ lookedUpRequest ++ [.enter 2 (.appendRequest 0), .acquire 2]) s ∧
        s.Inside 2 :=
    run_of_genesis (fun store => State.init (RaftNode.new ⟨1, [1, 2]⟩ store)) (by decide +kernel)
  obtain ⟨s, hrun, hs⟩ := hinside
  exact ⟨s, hrun, hs, mutex_excludes hrun⟩

/-- Thread `2`, with the request, finds the node deposed by a handler and unlocks by hand; thread
`3` acquires the lock for a message; then the guard of thread `2` unlocks, and thread `4` acquires
the lock too. -/
def secondUnlock : List (Mutex.Label ℕ Critical Unlocked) :=
  [.enter 2 (.appendRequest 0), .acquire 2, .unlock 2,
    .enter 3 (.handle (.requestVote ⟨3, 2, 0, 0⟩)), .acquire 3, .unlock 2,
    .enter 4 .fetchBatch, .acquire 4]

/-- **Two threads are inside at once**: one of them has lost the lock to the second unlock of a
thread that does not hold it. -/
theorem two_inside :
    ∃ s : LockedNode ℕ, Transition.Run (Mutex.step nodeCode) (fun _ _ => True)
        (.init (.new ⟨1, [1, 2]⟩ RocksDBStore.genesis))
        (lockedElection ++ lookedUpRequest ++
          wholeBlock 3 (.handle (.requestVote ⟨2, 2, 0, 0⟩)) ++ secondUnlock) s ∧
      s.Inside 3 ∧ s.Inside 4 ∧ s.acquired 2 = 1 ∧ s.released 2 = 2 ∧
      ¬ Exclusive nodeCode s := by
  have hboth : ∃ s : LockedNode ℕ, Transition.Run (Mutex.step nodeCode) (fun _ _ => True)
      (.init (.new ⟨1, [1, 2]⟩ RocksDBStore.genesis))
      (lockedElection ++ lookedUpRequest ++
        wholeBlock 3 (.handle (.requestVote ⟨2, 2, 0, 0⟩)) ++ secondUnlock) s ∧
        s.Inside 3 ∧ s.Inside 4 ∧ s.acquired 2 = 1 ∧ s.released 2 = 2 :=
    run_of_genesis (fun store => State.init (RaftNode.new ⟨1, [1, 2]⟩ store)) (by decide +kernel)
  obtain ⟨s, hrun, h3, h4, hacquired, hreleased⟩ := hboth
  refine ⟨s, hrun, h3, h4, hacquired, hreleased, fun h => ?_⟩
  exact absurd (h.single 3 4 h3 h4) (by decide)

end RaftConsensus
