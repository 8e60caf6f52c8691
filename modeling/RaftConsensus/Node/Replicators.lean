import RaftConsensus.Cluster.Moves
import RaftConsensus.Library.Busy
import RaftConsensus.Storage.Genesis

/-!
# The replication threads of a node

`start`, `stop` and `runReplicationManager`.  The manager of a leader passes over the peers; for
each whose flag in `replication_active_` is clear it sets the flag and starts a detached thread.
The thread runs `replicateToPeer` and then clears the flag.  It may outlive the manager's turn, the
node's leadership and a `stop`.

`RaftNode` has one slot per peer for such a thread.  Here the threads are numbered, so that a peer
may have any number of them: a thread is loaded into the slot of its peer for each of its steps.
The remote calls that have not returned are kept by number, too.

Of all the steps that a node, its threads and its network can take, only three touch the flags or
the set of threads, and they are those of `Busy`.  So a peer has one thread at most, its flag tells
whether there is one, and one call at most to the peer is outstanding (`one_worker_per_peer`).
-/

namespace RaftConsensus

/-- The peer whose replication thread takes the step. -/
def ThreadStep.peer? : ThreadStep → Option ℤ
  | .replicateBegin peer | .replicateCheck peer | .replicateLock peer | .replicatePrevTerm peer
  | .replicateRead peer | .replicateSend peer | .replicateAtomic peer | .dumpSnapshot peer
  | .stampSnapshot peer | .sendSnapshot peer => some peer
  | _ => none

/-- The calls that replication threads make. -/
def Request.replicates : Request → Bool
  | .requestVote _ => false
  | .appendEntries _ | .installSnapshot _ => true

/-- Where the thread of `runReplicationManager` is. -/
inductive Manager
  /-- At the head of its loop. -/
  | head
  /-- Past the check of `running_`. -/
  | asleep
  /-- In the loop over the peers. -/
  | spawning (targets : List ℤ)
  /-- The flag of `peer` has been found clear. -/
  | tested (peer : ℤ) (targets : List ℤ)
  /-- The flag of `peer` is set, and its thread is not started yet. -/
  | marked (peer : ℤ) (targets : List ℤ)
  /-- Out of its loop, to be joined. -/
  | ended
  deriving DecidableEq

/-- The peer the manager is about to start a thread for. -/
def Manager.marked? : Manager → Option ℤ
  | .marked peer _ => some peer
  | _ => none

/-- Where a detached thread is. -/
inductive ThreadStage
  | spawned
  /-- Inside `replicateToPeer`. -/
  | inside (worker : Worker)
  /-- `replicateToPeer` has returned; the flag is still set. -/
  | returned
  deriving DecidableEq

/-- What the slot of the peer holds for the thread's next step. -/
def ThreadStage.slot : ThreadStage → Option Worker
  | .spawned => some .idle
  | .inside w => some w
  | .returned => none

/-- Where a thread is that has left `w` in the slot. -/
def ThreadStage.ofSlot (w : Worker) : ThreadStage := if w = .idle then .returned else .inside w

/-- A detached thread, with the peer it was started for. -/
structure Replicator where
  peer : ℤ
  stage : ThreadStage
  deriving DecidableEq

/-- A node with its replication threads and its remote calls. -/
structure Replicators where
  node : RaftNode
  running : Bool
  manager : Option Manager
  /-- `replication_active_`. -/
  active : ℤ → Bool
  threads : ℕ → Option Replicator
  /-- The remote calls that have not returned. -/
  calls : ℕ → Option (ℤ × Request)
  nextCall : ℕ

/-- What happens to a node. -/
inductive ReplicatorsLabel
  | start
  | stop
  /-- `stop` joins the manager's thread. -/
  | join
  | checkRunning
  | listPeers
  | testActive
  | markActive
  | spawn (thread : ℕ)
  /-- A detached thread takes a step of `replicateToPeer`. -/
  | work (thread : ℕ) (step : ThreadStep)
  /-- Its first locked block finds that the node is not the leader. -/
  | giveUp (thread : ℕ)
  /-- Its remote call returns. -/
  | reply (thread : ℕ) (reply : Reply)
  | fail (thread : ℕ)
  /-- It clears the flag and ends. -/
  | finish (thread : ℕ)
  /-- Another thread of the node takes a step. -/
  | other (step : ThreadStep)
  | handle (request : Request)
  /-- A call for a vote returns. -/
  | voteReply (call : ℕ) (reply : Reply)
  | voteFail (call : ℕ)
  | crash
  deriving DecidableEq

namespace Replicators

/-- A node that has been constructed and not been started. -/
def init (n : RaftNode) : Replicators where
  node := n
  running := false
  manager := none
  active _ := false
  threads _ := none
  calls _ := none
  nextCall := 0

/-- Replaces a detached thread. -/
def setThread (s : Replicators) (t : ℕ) (r : Option Replicator) : Replicators :=
  { s with threads := Function.update s.threads t r }

/-- Sets or clears the flag of a peer. -/
def setActive (s : Replicators) (peer : ℤ) (b : Bool) : Replicators :=
  { s with active := Function.update s.active peer b }

/-- A call returns. -/
def endCall (s : Replicators) (k : ℕ) : Replicators :=
  { s with calls := Function.update s.calls k none }

/-- What a step sends out: only remote calls are kept. -/
def emit (s : Replicators) : Output → Replicators
  | .call dst request =>
      { s with
        calls := Function.update s.calls s.nextCall (some (dst, request))
        nextCall := s.nextCall + 1 }
  | _ => s

/-- The node while the thread for `peer` takes a step. -/
def load (s : Replicators) (peer : ℤ) (w : Worker) : RaftNode := s.node.setWorker peer w

/-- The node after the thread for `peer` has taken a step. -/
def unload (s : Replicators) (peer : ℤ) (n : RaftNode) : Replicators :=
  { s with node := n.setWorker peer .idle }

/-- A thread takes a step of `replicateToPeer`. -/
def work (s : Replicators) (t : ℕ) (a : ThreadStep) : Option Replicators :=
  match s.threads t with
  | some ⟨peer, stage⟩ =>
      if a.peer? = some peer then
        match stage.slot with
        | some w =>
            ((s.load peer w).step s.nextCall a).map fun r =>
              ((s.setThread t (some ⟨peer, .ofSlot (r.1.workers peer)⟩)).unload peer r.1).emit r.2
        | none => none
      else none
  | none => none

/-- The call of a thread returns, which is never one for a vote; `node` makes the thread's last
locked block. -/
def callReturns (s : Replicators) (t : ℕ) (node : ℤ → Request → RaftNode) : Option Replicators :=
  match s.threads t with
  | some ⟨peer, .inside (.calling k)⟩ =>
      match s.calls k with
      | some (_, request) =>
          if request.replicates then
            some (((s.endCall k).setThread t (some ⟨peer, .returned⟩)).unload peer
              (node peer request))
          else none
      | none => none
  | _ => none

/-- A call for a vote returns. -/
def voteReturns (s : Replicators) (k : ℕ) (node : ℤ → Request → RaftNode) : Option Replicators :=
  match s.calls k with
  | some (dst, .requestVote args) =>
      some { s.endCall k with node := node dst (.requestVote args) }
  | _ => none

/-- One step.  `start` replaces the manager's thread; where that has not been joined the process is
aborted.  The flag is tested and set in one locked block, here in two steps: nothing below needs
that no other thread runs in between. -/
def step (s : Replicators) : ReplicatorsLabel → Option Replicators
  | .start =>
      if s.running then some s
      else
        match s.manager with
        | none => some { s with running := true, manager := some .head }
        | some _ => none
  | .stop => some { s with running := false }
  | .join =>
      match s.manager with
      | some .ended => some { s with manager := none }
      | _ => none
  | .checkRunning =>
      match s.manager with
      | some .head => some { s with manager := some (if s.running then .asleep else .ended) }
      | _ => none
  | .listPeers =>
      match s.manager with
      | some .asleep =>
          some { s with
            manager := some (if s.node.state = .leader then .spawning s.node.config.peerStubs
              else .head) }
      | _ => none
  | .testActive =>
      match s.manager with
      | some (.spawning []) => some { s with manager := some .head }
      | some (.spawning (peer :: targets)) =>
          some { s with
            manager := some (if s.active peer then .spawning targets else .tested peer targets) }
      | _ => none
  | .markActive =>
      match s.manager with
      | some (.tested peer targets) =>
          some { s.setActive peer true with manager := some (.marked peer targets) }
      | _ => none
  | .spawn t =>
      match s.manager, s.threads t with
      | some (.marked peer targets), none =>
          some { s.setThread t (some ⟨peer, .spawned⟩) with manager := some (.spawning targets) }
      | _, _ => none
  | .work t a => s.work t a
  | .giveUp t =>
      match s.threads t with
      | some ⟨peer, .spawned⟩ =>
          if s.node.state ≠ .leader then some (s.setThread t (some ⟨peer, .returned⟩)) else none
      | _ => none
  | .reply t reply => s.callReturns t fun dst request => s.node.receive dst request reply
  | .fail t => s.callReturns t s.node.abandon
  | .finish t =>
      match s.threads t with
      | some ⟨peer, .returned⟩ => some ((s.setActive peer false).setThread t none)
      | _ => none
  | .other a =>
      if a.peer? = none then
        (s.node.step s.nextCall a).map fun r => ({ s with node := r.1 }).emit r.2
      else none
  | .handle request => some { s with node := (s.node.handle request).1 }
  | .voteReply k reply => s.voteReturns k fun dst request => s.node.receive dst request reply
  | .voteFail k => s.voteReturns k s.node.abandon
  | .crash => some (init s.node.restart)

/-! ## The property -/

/-- The thread was started for the peer and has not cleared its flag yet. -/
def HasThread (s : Replicators) (t : ℕ) (peer : ℤ) : Prop :=
  (s.threads t).map Replicator.peer = some peer

instance (s : Replicators) (t : ℕ) (peer : ℤ) : Decidable (s.HasThread t peer) :=
  inferInstanceAs (Decidable (_ = _))

/-- The manager is about to start a thread for the peer. -/
def AboutToSpawn (s : Replicators) (peer : ℤ) : Prop :=
  s.manager.bind Manager.marked? = some peer

/-- An `AppendEntries` or `InstallSnapshot` call to the peer is outstanding. -/
def Outstanding (s : Replicators) (k : ℕ) (peer : ℤ) : Prop :=
  ∃ c ∈ s.calls k, c.1 = peer ∧ c.2.replicates

instance (s : Replicators) (k : ℕ) (peer : ℤ) : Decidable (s.Outstanding k peer) :=
  inferInstanceAs (Decidable (∃ c ∈ s.calls k, _ ∧ _))

/-- **One replication thread per peer.** -/
structure OneWorker (s : Replicators) : Prop where
  thread : ∀ peer t u, s.HasThread t peer → s.HasThread u peer → t = u
  active : ∀ peer, s.active peer = true ↔ (∃ t, s.HasThread t peer) ∨ s.AboutToSpawn peer
  call : ∀ peer j k, s.Outstanding j peer → s.Outstanding k peer → j = k

/-! ## The steps of a node -/

end Replicators

section Moves

variable {n n' : RaftNode} {call : ℕ} {a : ThreadStep} {out : Output} {peer dst : ℤ}
  {request : Request}

/-- While its call is outstanding a replication thread takes no step. -/
lemma RaftNode.Move.not_calling (h : n.Move call a n' out) (ha : a.peer? = some peer) (k : ℕ) :
    n.workers peer ≠ .calling k := by
  cases h with
  | replicateBegin hmay | replicateAtomicMissing hmay | replicateAtomic hmay =>
      cases ha
      rw [hmay.2.1]
      simp
  | replicateCheckMissing hw | replicateCheck hw | replicateLockDeposed hw | replicateLock hw
  | replicatePrevTerm hw | replicateRead hw | replicateSend hw | dumpSnapshot hw
  | stampSnapshot hw | sendSnapshot hw =>
      cases ha
      rw [hw]
      simp
  | _ => cases ha

/-- A call that a replication thread makes is to its peer, and the thread waits for it. -/
lemma RaftNode.Move.calls_peer (h : n.Move call a n' out) (ha : a.peer? = some peer)
    (hout : out = .call dst request) : dst = peer ∧ n'.workers peer = .calling call := by
  cases h with
  | replicateSend | replicateAtomic | sendSnapshot =>
      cases ha
      cases hout
      exact ⟨rfl, Function.update_self _ _ _⟩
  | replicateBegin | replicateCheckMissing | replicateCheck | replicateLockDeposed | replicateLock
  | replicatePrevTerm | replicateRead | replicateAtomicMissing | dumpSnapshot | stampSnapshot =>
      cases hout
  | _ => cases ha

/-- The other threads of a node call for votes only. -/
lemma RaftNode.Move.calls_vote (h : n.Move call a n' out) (ha : a.peer? = none)
    (hout : out = .call dst request) : request.replicates = false := by
  cases h with
  | sendRequestVote =>
      cases hout
      rfl
  | replicateSend | replicateAtomic | sendSnapshot => cases ha
  | notifyClient =>
      cases h : n.pendingCallbacks _ with
      | none =>
          rw [h] at hout
          cases hout
      | some cb =>
          rw [h] at hout
          cases hout
  | _ => cases hout

end Moves

namespace Replicators

/-! ## The invariant -/

/-- What `Busy` sees. -/
def busy (s : Replicators) : Busy.State ℤ where
  busy := s.active
  marked := s.manager.bind Manager.marked?
  threads t := (s.threads t).map Replicator.peer

/-- The flags are in order, and every outstanding call has its thread. -/
structure Inv (s : Replicators) : Prop where
  exclusive : Busy.Exclusive s.busy
  tested : ∀ peer targets, s.manager = some (.tested peer targets) → s.active peer = false
  calls : ∀ k peer, s.Outstanding k peer → ∃ t, s.threads t = some ⟨peer, .inside (.calling k)⟩

variable {s s' : Replicators} {t k : ℕ} {peer : ℤ} {stage : ThreadStage}

lemma hasThread (ht : s.threads t = some ⟨peer, stage⟩) : s.HasThread t peer := by
  rw [HasThread, ht]
  rfl

lemma aboutToSpawn {targets : List ℤ} (hm : s.manager = some (.marked peer targets)) :
    s.AboutToSpawn peer := by
  rw [AboutToSpawn, hm]
  rfl

lemma threads_setThread (r : Option Replicator) (u : ℕ) :
    (s.setThread t r).threads u = if u = t then r else s.threads u :=
  Function.update_apply s.threads t r u

lemma busy_setThread (r : Option Replicator) :
    (s.setThread t r).busy =
      { s.busy with threads := Function.update s.busy.threads t (r.map Replicator.peer) } := by
  have hthreads : (s.setThread t r).busy.threads =
      Function.update s.busy.threads t (r.map Replicator.peer) := by
    funext u
    rw [Function.update_apply]
    show ((s.setThread t r).threads u).map _ = _
    rw [threads_setThread, apply_ite (Option.map Replicator.peer)]
    rfl
  rw [← hthreads]
  rfl

lemma calls_endCall (j : ℕ) : (s.endCall k).calls j = if j = k then none else s.calls j :=
  Function.update_apply s.calls k none j

lemma calls_emit (dst : ℤ) (request : Request) (j : ℕ) :
    (s.emit (.call dst request)).calls j =
      if j = s.nextCall then some (dst, request) else s.calls j :=
  Function.update_apply s.calls s.nextCall (some (dst, request)) j

lemma inv_init (n : RaftNode) : Inv (init n) where
  exclusive := .init
  tested _ _ h := by cases h
  calls k peer h := by
    obtain ⟨c, hc, -⟩ := h
    cases hc

lemma Inv.oneWorker (h : Inv s) : s.OneWorker where
  thread peer t u := h.exclusive.single t u peer
  active := h.exclusive.busy
  call peer j k hj hk := by
    obtain ⟨t, ht⟩ := h.calls j peer hj
    obtain ⟨u, hu⟩ := h.calls k peer hk
    obtain rfl : t = u := h.exclusive.single t u peer (hasThread ht) (hasThread hu)
    rw [ht] at hu
    cases hu
    rfl

namespace Inv

/-- Steps of the node itself. -/
lemma node (h : Inv s) (n : RaftNode) : Inv { s with node := n } := ⟨h.exclusive, h.tested, h.calls⟩

/-- The manager moves, without being about to start a thread before or after. -/
lemma manager (h : Inv s) {m : Option Manager} (running : Bool)
    (hbefore : s.manager.bind Manager.marked? = none) (hafter : m.bind Manager.marked? = none)
    (htested : ∀ peer targets, m = some (.tested peer targets) → s.active peer = false) :
    Inv { s with running := running, manager := m } := by
  refine ⟨?_, htested, h.calls⟩
  have hbusy : busy { s with running := running, manager := m } = s.busy := by
    rw [busy, busy, hbefore, hafter]
  rw [hbusy]
  exact h.exclusive

/-- A call returns. -/
lemma endCall (h : Inv s) (k : ℕ) : Inv (s.endCall k) := by
  refine ⟨h.exclusive, h.tested, fun j peer hj => ?_⟩
  obtain ⟨c, hc, hpeer⟩ := hj
  have hjk : j ≠ k := by
    rintro rfl
    rw [Option.mem_def, calls_endCall, if_pos rfl] at hc
    cases hc
  rw [Option.mem_def, calls_endCall, if_neg hjk] at hc
  exact h.calls j peer ⟨c, hc, hpeer⟩

/-- A thread that has no call outstanding is not needed for any. -/
lemma calls_setThread (h : Inv s)
    (hidle : ∀ k q, s.threads t = some ⟨q, .inside (.calling k)⟩ → ¬ s.Outstanding k q)
    (r : Option Replicator) (k : ℕ) (q : ℤ) (hk : s.Outstanding k q) :
    ∃ u, (s.setThread t r).threads u = some ⟨q, .inside (.calling k)⟩ := by
  obtain ⟨u, hu⟩ := h.calls k q hk
  have hut : u ≠ t := by
    rintro rfl
    exact hidle k q hu hk
  exact ⟨u, by rw [threads_setThread, if_neg hut, hu]⟩

/-- A thread moves. -/
lemma setThread (h : Inv s) (ht : s.threads t = some ⟨peer, stage⟩)
    (hstage : ∀ k, stage = .inside (.calling k) → ¬ s.Outstanding k peer) (stage' : ThreadStage) :
    Inv (s.setThread t (some ⟨peer, stage'⟩)) := by
  refine ⟨?_, h.tested, h.calls_setThread (fun k q hcalling => ?_) _⟩
  · have hpeer : s.busy.threads t = some peer := hasThread ht
    rw [busy_setThread, Option.map_some, ← hpeer, Function.update_eq_self]
    exact h.exclusive
  · rw [ht] at hcalling
    cases hcalling
    exact hstage k rfl

/-- A call is made: a replication call has its thread. -/
lemma emit (h : Inv s) {out : Output}
    (hout : ∀ dst request, out = .call dst request → request.replicates = true →
      ∃ t, s.threads t = some ⟨dst, .inside (.calling s.nextCall)⟩) : Inv (s.emit out) := by
  cases out with
  | none => exact h
  | response cb r => exact h
  | call dst request =>
      refine ⟨h.exclusive, h.tested, fun k peer hk => ?_⟩
      obtain ⟨c, hc, rfl, hrep⟩ := hk
      rw [Option.mem_def] at hc
      by_cases hknext : k = s.nextCall
      · subst hknext
        rw [calls_emit, if_pos rfl] at hc
        cases hc
        exact hout dst request rfl hrep
      · rw [calls_emit, if_neg hknext] at hc
        exact h.calls k c.1 ⟨c, hc, rfl, hrep⟩

/-! ## The three steps on the flags -/

/-- The manager sets a flag that it has found clear. -/
lemma markActive (h : Inv s) {targets : List ℤ} (hm : s.manager = some (.tested peer targets)) :
    Inv { s.setActive peer true with manager := some (.marked peer targets) } where
  exclusive := by
    refine h.exclusive.mark (h.tested peer targets hm) ?_
    show s.manager.bind Manager.marked? = none
    rw [hm]
    rfl
  tested _ _ hm := by cases hm
  calls := h.calls

/-- The manager starts the thread. -/
lemma spawn (h : Inv s) {targets : List ℤ} (hm : s.manager = some (.marked peer targets))
    (ht : s.threads t = none) :
    Inv { s.setThread t (some ⟨peer, .spawned⟩) with manager := some (.spawning targets) } where
  exclusive := by
    show Busy.Exclusive { (s.setThread t (some ⟨peer, .spawned⟩)).busy with marked := none }
    rw [busy_setThread]
    refine h.exclusive.spawn (aboutToSpawn hm) ?_
    show (s.threads t).map Replicator.peer = none
    rw [ht]
    rfl
  tested _ _ hm := by cases hm
  calls := h.calls_setThread (fun k q hcalling => by rw [ht] at hcalling; cases hcalling) _

/-- A thread clears its flag. -/
lemma finish (h : Inv s) (ht : s.threads t = some ⟨peer, .returned⟩) :
    Inv ((s.setActive peer false).setThread t none) where
  exclusive := by
    rw [busy_setThread]
    exact h.exclusive.clear (hasThread ht)
  tested q targets hm := by
    by_cases hq : q = peer
    · subst hq
      exact Function.update_self _ _ _
    · exact (Function.update_of_ne hq _ _).trans (h.tested q targets hm)
  calls := h.calls_setThread (fun k q hcalling => by rw [ht] at hcalling; cases hcalling) _

/-! ## Steps of the detached threads -/

/-- A step of `replicateToPeer`. -/
lemma work (h : Inv s) {a : ThreadStep} (hs : s.work t a = some s') : Inv s' := by
  simp only [Replicators.work] at hs
  split at hs
  · rename_i peer stage ht
    split at hs
    · rename_i ha
      split at hs
      · rename_i w hw
        obtain ⟨⟨n, out⟩, hn, rfl⟩ := Option.map_eq_some_iff.mp hs
        have hmove := RaftNode.move_of_step hn
        have hslot : (s.load peer w).workers peer = w := Function.update_self _ _ _
        have hidle : ∀ k, stage ≠ .inside (.calling k) := by
          rintro k rfl
          cases hw
          exact hmove.not_calling ha k hslot
        refine (((h.setThread ht (fun k hk => absurd hk (hidle k)) _).node _).emit ?_)
        intro dst request hout _
        obtain ⟨rfl, hcalling⟩ := hmove.calls_peer ha hout
        refine ⟨t, (threads_setThread _ _).trans ?_⟩
        rw [if_pos rfl, hcalling]
        rfl
      · cases hs
    · cases hs
  · cases hs

/-- The call of a thread returns. -/
lemma callReturns (h : Inv s) {node : ℤ → Request → RaftNode}
    (hs : s.callReturns t node = some s') : Inv s' := by
  simp only [Replicators.callReturns] at hs
  split at hs
  · rename_i peer k ht
    split at hs
    · split at hs
      · cases hs
        refine Inv.node (Inv.setThread (h.endCall k) ht ?_ _) _
        rintro j hj ⟨c, hc, -⟩
        cases hj
        rw [Option.mem_def, calls_endCall, if_pos rfl] at hc
        cases hc
      · cases hs
    · cases hs
  · cases hs

/-- A call for a vote returns. -/
lemma voteReturns (h : Inv s) {node : ℤ → Request → RaftNode}
    (hs : s.voteReturns k node = some s') : Inv s' := by
  simp only [Replicators.voteReturns] at hs
  split at hs
  · cases hs
    exact (h.endCall k).node _
  · cases hs

/-! ## Every step -/

theorem step (h : Inv s) {l : ReplicatorsLabel} (hs : s.step l = some s') : Inv s' := by
  cases l with
  | start =>
      simp only [Replicators.step] at hs
      split at hs
      · cases hs
        exact h
      · split at hs
        · rename_i hm
          cases hs
          exact h.manager true (by rw [hm]; rfl) rfl (by simp)
        · cases hs
  | stop =>
      cases hs
      exact ⟨h.exclusive, h.tested, h.calls⟩
  | join =>
      simp only [Replicators.step] at hs
      split at hs
      · rename_i hm
        cases hs
        exact h.manager s.running (by rw [hm]; rfl) rfl (by simp)
      · cases hs
  | checkRunning =>
      simp only [Replicators.step] at hs
      split at hs
      · rename_i hm
        cases hs
        refine h.manager s.running (by rw [hm]; rfl) ?_ ?_
        · cases s.running <;> rfl
        · cases s.running <;> simp
      · cases hs
  | listPeers =>
      simp only [Replicators.step] at hs
      split at hs
      · rename_i hm
        cases hs
        refine h.manager s.running (by rw [hm]; rfl) ?_ ?_
        · split <;> rfl
        · split <;> simp
      · cases hs
  | testActive =>
      simp only [Replicators.step] at hs
      split at hs
      · rename_i hm
        cases hs
        exact h.manager s.running (by rw [hm]; rfl) rfl (by simp)
      · rename_i peer targets hm
        cases hs
        refine h.manager s.running (by rw [hm]; rfl) ?_ ?_
        · split <;> rfl
        · intro q rest hq
          split at hq
          · cases hq
          · rename_i hactive
            cases hq
            exact Bool.eq_false_iff.mpr hactive
      · cases hs
  | markActive =>
      simp only [Replicators.step] at hs
      split at hs
      · rename_i hm
        cases hs
        exact h.markActive hm
      · cases hs
  | spawn t =>
      simp only [Replicators.step] at hs
      split at hs
      · rename_i hm ht
        cases hs
        exact h.spawn hm ht
      · cases hs
  | work t a => exact h.work hs
  | giveUp t =>
      simp only [Replicators.step] at hs
      split at hs
      · rename_i ht
        split at hs
        · cases hs
          exact h.setThread ht (by simp) _
        · cases hs
      · cases hs
  | reply t reply => exact h.callReturns hs
  | fail t => exact h.callReturns hs
  | finish t =>
      simp only [Replicators.step] at hs
      split at hs
      · rename_i ht
        cases hs
        exact h.finish ht
      · cases hs
  | other a =>
      simp only [Replicators.step] at hs
      split at hs
      · rename_i ha
        obtain ⟨⟨n, out⟩, hn, rfl⟩ := Option.map_eq_some_iff.mp hs
        refine (h.node n).emit fun dst request hout hrep => ?_
        rw [(RaftNode.move_of_step hn).calls_vote ha hout] at hrep
        cases hrep
      · cases hs
  | handle request =>
      cases hs
      exact h.node _
  | voteReply k reply =>
      simp only [Replicators.step] at hs
      exact h.voteReturns hs
  | voteFail k =>
      simp only [Replicators.step] at hs
      exact h.voteReturns hs
  | crash =>
      cases hs
      exact inv_init _

end Inv

/-- **One replication thread per peer**, in every run of a node: however the steps of its threads,
the answers of its peers, its changes of role and the calls of `start` and `stop` are interleaved, a
peer has at most one thread that has not cleared its flag, the flag is set exactly while there is
one or the manager is about to start it, and at most one `AppendEntries` or `InstallSnapshot` call
to the peer is outstanding. -/
theorem one_worker_per_peer {config : ClusterConfig} {storage : RocksDBStore}
    {ls : List ReplicatorsLabel}
    (hrun : Transition.Run step (fun _ _ => True) (init (.new config storage)) ls s) :
    s.OneWorker :=
  (hrun.invariant (inv_init _) fun _ _ _ h _ hs => h.step hs).oneWorker

/-! ## A run -/

/-- Node `1` of a pair is started and wins the first term; its manager starts a thread for peer
`2`, which sends a message. -/
def startLeading : List ReplicatorsLabel :=
  [.start, .other .electionTimeout, .other .startElection, .other .evalHardState,
    .other .saveHardState, .other .sendRequestVote, .voteReply 0 (.requestVote ⟨1, true⟩),
    .checkRunning, .listPeers, .testActive, .markActive, .spawn 0,
    .work 0 (.replicateBegin 2), .work 0 (.replicateCheck 2), .work 0 (.replicateLock 2),
    .work 0 (.replicatePrevTerm 2), .work 0 (.replicateSend 2)]

/-- The node is stopped and started again while the call is outstanding, and the manager comes to
the peer once more. -/
def stopAndStart : List ReplicatorsLabel :=
  [.stop, .testActive, .checkRunning, .join, .start, .checkRunning, .listPeers, .testActive]

/-- The thread from before the `stop` is still the only one, and its call the only one. -/
theorem one_worker_after_restart :
    ∃ s, Transition.Run step (fun _ _ => True) (init (.new ⟨1, [1, 2]⟩ RocksDBStore.genesis))
        (startLeading ++ stopAndStart) s ∧
      s.HasThread 0 2 ∧ s.Outstanding 1 2 ∧ s.manager = some (.spawning []) ∧ s.OneWorker := by
  have hreached : ∃ s, Transition.Run step (fun _ _ => True)
      (init (.new ⟨1, [1, 2]⟩ RocksDBStore.genesis)) (startLeading ++ stopAndStart) s ∧
        s.HasThread 0 2 ∧ s.Outstanding 1 2 ∧ s.manager = some (.spawning []) :=
    run_of_genesis (fun store => init (.new ⟨1, [1, 2]⟩ store)) (by decide +kernel)
  obtain ⟨s, hrun, hthread, hcall, hmanager⟩ := hreached
  exact ⟨s, hrun, hthread, hcall, hmanager, one_worker_per_peer hrun⟩

end Replicators

end RaftConsensus
