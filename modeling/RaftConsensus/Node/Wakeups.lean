import RaftConsensus.Library.Monitor
import RaftConsensus.Node.Locking
import RaftConsensus.Cluster.ElectionView

/-!
# The executor's wakeups

The executor waits on `commit_cv_` until there is something to apply or the node is stopped.  Both
places that raise `commitIndex_` do so with the lock in their hand and notify; an installed
snapshot raises `lastApplied_` with it, so there is nothing to go on for.

`stop()` sets `running_` and notifies without the lock.  Its notification can come after the
executor has tested the condition and before it blocks, and then nothing but another notification or
a spurious wakeup ends its sleep, which `stop()` goes on to wait for (`stop_unheard`).  In every
other run the executor sleeps only while there is nothing to do (`executor_heeded`).

The locked blocks are single steps here: the lock is taken to exclude.
-/

namespace RaftConsensus

open Monitor

/-- A node between `start` and the end of `stop`. -/
structure RunningNode where
  node : RaftNode
  running : Bool
  /-- Some thread in `stop` has still to notify. -/
  stopping : Bool

/-- What happens at a running node. -/
inductive RunningStep
  | thread (call : ℕ) (step : ThreadStep)
  | handle (request : Request)
  | receive (dst : ℤ) (request : Request) (reply : Reply)
  | abandon (dst : ℤ) (request : Request)
  /-- `stop`: `running_` is cleared, by the exchange or in the other branch. -/
  | clearRunning
  /-- `stop`: `commit_cv_.notify_all()`. -/
  | notifyAll
  deriving DecidableEq

namespace RaftNode

/-- `handleAppendEntries` gets to the update of the commit index. -/
def followNotifies (n : RaftNode) (args : AppendEntriesArgs) : Prop :=
  let accepted := n.acceptLeader args.term args.leaderId
  ¬ args.term < n.currentTerm ∧ accepted.consistentAt args ∧
    (accepted.appendLoop args.prevLogIndex args.entries).commitIndex < args.leaderCommit

instance (n : RaftNode) (args : AppendEntriesArgs) : Decidable (n.followNotifies args) :=
  inferInstanceAs (Decidable (_ ∧ _ ∧ _))

/-- The commit loop after an answer finds an index to commit. -/
def commitNotifies (n : RaftNode) (dst : ℤ) : Request → Reply → Prop
  | .appendEntries args, .appendEntries reply =>
      (n.appendEntriesReply dst args reply).commitIndex ≠ n.commitIndex
  | _, _ => False

instance (n : RaftNode) (dst : ℤ) (req : Request) (rep : Reply) :
    Decidable (n.commitNotifies dst req rep) :=
  match req, rep with
  | .appendEntries _, .appendEntries _ => inferInstanceAs (Decidable (_ ≠ _))
  | .requestVote _, _ | .installSnapshot _, _ | .appendEntries _, .requestVote _
  | .appendEntries _, .installSnapshot _ => isFalse id

end RaftNode

namespace RunningStep

/-- The executor's own steps. -/
def Own : RunningStep → Prop
  | .thread _ a => RaftNode.ofExecutor a
  | _ => False

/-- The steps that take the lock. -/
def Locked : RunningStep → Prop
  | .thread _ a => a.unlocked = false
  | .handle _ | .receive _ _ _ => True
  | .abandon _ _ | .clearRunning | .notifyAll => False

/-- The steps that notify. -/
def Notifies (r : RunningNode) : RunningStep → Prop
  | .handle (.appendEntries args) => r.node.followNotifies args
  | .receive dst request reply => r.node.commitNotifies dst request reply
  | .notifyAll => True
  | _ => False

instance : DecidablePred Own
  | .thread _ a => match a with
    | .fetchBatch | .readBalances | .applyEntry | .notifyClient | .compactIfDue
    | .skipCompaction => isTrue trivial
    | .electionTimeout | .startElection | .evalHardState | .saveHardState | .sendRequestVote
    | .replicateBegin _ | .replicateCheck _ | .replicateLock _ | .replicatePrevTerm _
    | .replicateRead _ | .replicateSend _ | .replicateAtomic _ | .dumpSnapshot _
    | .stampSnapshot _ | .sendSnapshot _ | .clientRequest _ _ | .lookupRequest _
    | .appendRequest _ => isFalse id
  | .handle _ | .receive _ _ _ | .abandon _ _ | .clearRunning | .notifyAll => isFalse id

instance : DecidablePred Locked
  | .thread _ a => inferInstanceAs (Decidable (a.unlocked = false))
  | .handle _ | .receive _ _ _ => isTrue trivial
  | .abandon _ _ | .clearRunning | .notifyAll => isFalse id

instance (r : RunningNode) : DecidablePred (Notifies r)
  | .handle (.appendEntries args) => inferInstanceAs (Decidable (r.node.followNotifies args))
  | .receive dst request reply =>
      inferInstanceAs (Decidable (r.node.commitNotifies dst request reply))
  | .notifyAll => isTrue trivial
  | .thread _ _ | .handle (.requestVote _) | .handle (.installSnapshot _) | .abandon _ _
  | .clearRunning => isFalse id

/-- A step.  The executor fetches only while the node is running. -/
def run (r : RunningNode) : RunningStep → Option RunningNode
  | .thread call a =>
      if a = .fetchBatch ∧ r.running = false then none
      else (r.node.step call a).map fun p => { r with node := p.1 }
  | .handle request => some { r with node := (r.node.handle request).1 }
  | .receive dst request reply => some { r with node := r.node.receive dst request reply }
  | .abandon dst request => some { r with node := r.node.abandon dst request }
  | .clearRunning => some { r with running := false, stopping := true }
  | .notifyAll => if r.stopping then some { r with stopping := false } else none

end RunningStep

namespace RunningNode

/-- The executor waits for commits. -/
def AtWait (r : RunningNode) : Prop := r.node.executor = .waiting

/-- What the executor waits for. -/
def GoOn (r : RunningNode) : Prop := r.running = false ∨ r.node.lastApplied < r.node.commitIndex

instance : DecidablePred AtWait := fun r => inferInstanceAs (Decidable (r.node.executor = .waiting))

instance : DecidablePred GoOn := fun _ => inferInstanceAs (Decidable (_ ∨ _))

end RunningNode

/-- **The code around `commit_cv_`.** -/
def executorCode : Code RunningNode RunningStep where
  step := RunningStep.run
  own := RunningStep.Own
  locked := RunningStep.Locked
  notifies := RunningStep.Notifies
  atWait := RunningNode.AtWait
  goOn := RunningNode.GoOn

instance : DecidablePred executorCode.own := inferInstanceAs (DecidablePred RunningStep.Own)
instance : DecidablePred executorCode.locked := inferInstanceAs (DecidablePred RunningStep.Locked)
instance (r : RunningNode) : DecidablePred (executorCode.notifies r) :=
  inferInstanceAs (DecidablePred (RunningStep.Notifies r))
instance : DecidablePred executorCode.atWait := inferInstanceAs (DecidablePred RunningNode.AtWait)
instance : DecidablePred executorCode.goOn := inferInstanceAs (DecidablePred RunningNode.GoOn)

/-- A node that has just been started. -/
def started (n : RaftNode) : State RunningNode := ⟨⟨n, true, false⟩, .away⟩

/-! ## What raises the commit index -/

namespace RaftNode

variable {n n' : RaftNode}

/-- The indices the executor compares are left alone. -/
def CommitStill (n n' : RaftNode) : Prop :=
  n'.commitIndex = n.commitIndex ∧ n'.lastApplied = n.lastApplied

lemma Move.commitStill {call : ℕ} {a : ThreadStep} {out : Output} (hmove : n.Move call a n' out)
    (ha : ¬ ofExecutor a) : CommitStill n n' := by
  refine ⟨?_, (hmove.appliedStill ha).2.1⟩
  cases hmove <;> rfl

lemma commitIndex_seeTerm (n : RaftNode) (T : ℤ) : (n.seeTerm T).commitIndex = n.commitIndex := by
  unfold seeTerm
  split <;> rfl

lemma commitIndex_acceptLeader (n : RaftNode) (T l : ℤ) :
    (n.acceptLeader T l).commitIndex = n.commitIndex := by
  unfold acceptLeader
  dsimp only
  split
  · rfl
  · split <;> rfl

lemma commitIndex_appendLoop (es : List LogEntry) :
    ∀ (n : RaftNode) (prev : ℤ), (n.appendLoop prev es).commitIndex = n.commitIndex := by
  induction es with
  | nil => exact fun _ _ => rfl
  | cons e es ih =>
      intro n prev
      rw [appendLoop, ih]
      unfold appendEntry
      split
      · split <;> rfl
      · rfl

/-- A handler that does not notify leaves the indices alone, or has put them together. -/
lemma handle_commit (n : RaftNode) (req : Request)
    (hnot : ∀ args, req = .appendEntries args → ¬ n.followNotifies args) :
    CommitStill n (n.handle req).1 ∨
      (n.handle req).1.commitIndex = (n.handle req).1.lastApplied := by
  cases req with
  | requestVote args =>
      refine .inl ⟨?_, (appliedStill_handleRequestVote n args).2.1⟩
      rcases handleRequestVote_cases n args with h | ⟨-, -, ⟨-, h, -⟩ | h⟩
      · rw [handle, h]
      · rw [handle, h]
        exact commitIndex_seeTerm n args.term
      · rw [handle, h]
        exact commitIndex_seeTerm n args.term
  | appendEntries args =>
      refine .inl ⟨?_, (appliedStill_handleAppendEntries n args).2.1⟩
      have hfollow := hnot args rfl
      simp only [handle, handleAppendEntries]
      split
      · rfl
      · rename_i hterm
        split
        · rename_i hconsistent
          have hle : ¬ ((n.acceptLeader args.term args.leaderId).appendLoop args.prevLogIndex
              args.entries).commitIndex < args.leaderCommit :=
            fun hlt => hfollow ⟨hterm, hconsistent, hlt⟩
          rw [followCommit, if_neg hle, commitIndex_appendLoop, commitIndex_acceptLeader]
        · exact commitIndex_acceptLeader n _ _
  | installSnapshot args =>
      rw [handle]
      rcases handleInstallSnapshot_cases n args with ⟨-, h⟩ | ⟨hnot, h⟩ | ⟨-, h⟩
      · rw [h]
        exact .inl ⟨rfl, rfl⟩
      · rw [h]
        exact .inl ⟨commitIndex_seeTerm n args.term, (appliedStill_seeTerm n args.term).2.1⟩
      · rw [h]
        exact .inr rfl

/-- An answer moves the commit index in the commit loop only. -/
lemma receive_commit (n : RaftNode) (dst : ℤ) (req : Request) (rep : Reply)
    (hnot : ¬ n.commitNotifies dst req rep) : CommitStill n (n.receive dst req rep) := by
  refine ⟨?_, (appliedStill_receive n dst req rep).2.1⟩
  cases req with
  | requestVote args =>
      cases rep with
      | requestVote r =>
          rw [receive]
          rcases voteReply_cases n args.term r with h | ⟨-, h⟩ | ⟨hstate, -, -, ⟨-, h⟩ | ⟨-, h⟩⟩
          · rw [h]
          · rw [h]
            rfl
          · rw [h]
            rfl
          · rw [h]
            exact (becomeLeader_spec (n := n.countVote args.term) hstate).2.2.2.2.2.2.2
      | appendEntries => rfl
      | installSnapshot => rfl
  | appendEntries args =>
      cases rep with
      | appendEntries r => exact not_not.mp hnot
      | requestVote => rfl
      | installSnapshot => rfl
  | installSnapshot args =>
      cases rep with
      | installSnapshot r =>
          simp only [receive, installSnapshotReply]
          split
          · rfl
          · split <;> rfl
      | requestVote => rfl
      | appendEntries => rfl

end RaftNode

/-- **Whoever lets the executor go on notifies**, or is inside `stop` and will. -/
lemma notifies_of_goOn (r : RunningNode) (l : RunningStep) (r' : RunningNode)
    (hstep : l.run r = some r') (hown : ¬ l.Own) (hgo : r'.GoOn) (hdone : ¬ r'.stopping = true) :
    r.GoOn ∧ ¬ r.stopping = true ∨ l.Notifies r := by
  have hkeep : ∀ {n : RaftNode}, RaftNode.CommitStill r.node n →
      RunningNode.GoOn { r with node := n } → r.GoOn := by
    intro n hstill h
    rcases h with h | h
    · exact .inl h
    · exact .inr (by rw [← hstill.1, ← hstill.2]; exact h)
  cases l with
  | thread call a =>
      simp only [RunningStep.run] at hstep
      split at hstep
      · cases hstep
      · obtain ⟨⟨n, out⟩, hn, rfl⟩ := Option.map_eq_some_iff.mp hstep
        exact .inl ⟨hkeep ((RaftNode.move_of_step hn).commitStill hown) hgo, hdone⟩
  | handle req =>
      cases hstep
      by_cases hnot : RunningStep.Notifies r (.handle req)
      · exact .inr hnot
      · refine .inl ⟨?_, hdone⟩
        have hquiet : ∀ args, req = .appendEntries args → ¬ r.node.followNotifies args := by
          rintro args rfl
          exact hnot
        rcases r.node.handle_commit req hquiet with hstill | hmet
        · exact hkeep hstill hgo
        · exact .inl (hgo.resolve_right fun h => (hmet ▸ h).false)
  | receive dst req rep =>
      cases hstep
      by_cases hnot : r.node.commitNotifies dst req rep
      · exact .inr hnot
      · exact .inl ⟨hkeep (r.node.receive_commit dst req rep hnot) hgo, hdone⟩
  | abandon dst req =>
      cases hstep
      refine .inl ⟨hkeep ?_ hgo, hdone⟩
      cases req <;> exact ⟨rfl, rfl⟩
  | clearRunning =>
      cases hstep
      exact absurd rfl hdone
  | notifyAll => exact .inr trivial

/-- **The executor sleeps only while there is nothing to do.**  In every run in which `stop` does
not notify between the executor's test and its block, the executor sleeps only while the node is
running and everything committed is applied, or while `stop` is about to notify. -/
theorem executor_heeded {n : RaftNode} {ls : List (Monitor.Label RunningStep)}
    {s : State RunningNode}
    (hrun : Transition.Run (Monitor.step executorCode) (InTime executorCode) (started n) ls s)
    (hasleep : s.waiter = .asleep) :
    s.shared.stopping = true ∨
      s.shared.running = true ∧ s.shared.node.commitIndex ≤ s.shared.node.lastApplied := by
  rcases asleep_of_run notifies_of_goOn hrun rfl hasleep with hnot | hstopping
  · have hnone : ¬ (s.shared.running = false ∨
        s.shared.node.lastApplied < s.shared.node.commitIndex) := hnot
    rw [not_or, not_lt, Bool.not_eq_false] at hnone
    exact .inr hnone
  · exact .inl hstopping

/-- A follower starts up and goes to sleep; an entry that its leader has committed wakes it up; it
executes the entry and goes to sleep again. -/
def wokenUp : List (Monitor.Label RunningStep) :=
  [.test, .block,
    .act (.handle (.appendEntries ⟨1, 2, 0, 0, [⟨1, 1, .empty⟩], 1⟩)),
    .act (.thread 0 .fetchBatch), .act (.thread 0 .readBalances), .act (.thread 0 .applyEntry),
    .act (.thread 0 .notifyClient), .act (.thread 0 .compactIfDue), .test, .block]

/-- The follower sleeps with its entry applied. -/
theorem executor_heeded_follower :
    ∃ s : State RunningNode, Transition.Run (Monitor.step executorCode) (InTime executorCode)
        (started (.new ⟨1, [1, 2]⟩ RocksDBStore.genesis)) wokenUp s ∧
      s.shared.node.commitIndex = 1 ∧ s.shared.node.commitIndex ≤ s.shared.node.lastApplied := by
  have hsleeps : ∃ s : State RunningNode,
      Transition.Run (Monitor.step executorCode) (InTime executorCode)
        (started (.new ⟨1, [1, 2]⟩ RocksDBStore.genesis)) wokenUp s ∧
      s.waiter = .asleep ∧ s.shared.stopping = false ∧ s.shared.node.commitIndex = 1 :=
    run_of_genesis (fun store => started (.new ⟨1, [1, 2]⟩ store)) (by decide +kernel)
  obtain ⟨s, hrun, hasleep, hstopping, hcommit⟩ := hsleeps
  refine ⟨s, hrun, hcommit, ?_⟩
  rcases executor_heeded hrun hasleep with hstop | ⟨-, hle⟩
  · rw [hstopping] at hstop
    cases hstop
  · exact hle

/-- A node that is stopped stays stopped. -/
lemma running_of_run {r r' : RunningNode} {l : RunningStep} (hstep : l.run r = some r')
    (hstopped : r.running = false) : r'.running = false := by
  cases l with
  | thread call a =>
      simp only [RunningStep.run] at hstep
      split at hstep
      · cases hstep
      · obtain ⟨p, -, rfl⟩ := Option.map_eq_some_iff.mp hstep
        exact hstopped
  | notifyAll =>
      simp only [RunningStep.run] at hstep
      split at hstep <;> cases hstep
      exact hstopped
  | clearRunning => cases hstep; rfl
  | _ => cases hstep; exact hstopped

/-- **`stop` can go unheard.**  Whenever the executor has tested the condition and not blocked yet,
`stop` can clear `running_` and notify before it blocks.  Then it sleeps, and however the run goes
on without another notification or a spurious wakeup, it sleeps still, on a node that is stopped. -/
theorem stop_unheard {s : State RunningNode} (hw : s.waiter = .deciding) :
    ∃ t, Transition.Run (Monitor.step executorCode) (fun _ _ => True) s
        [.act .clearRunning, .act .notifyAll, .block] t ∧
      ∀ ls u, Transition.Run (Monitor.step executorCode) (Silent executorCode) t ls u →
        u.waiter = .asleep ∧ u.shared.running = false := by
  have hclear : Monitor.step executorCode s (.act .clearRunning) =
      some ⟨{ s.shared with running := false, stopping := true }, .deciding⟩ :=
    step_of_deciding hw id id rfl
  have hnotify : Monitor.step executorCode
      ⟨{ s.shared with running := false, stopping := true }, .deciding⟩ (.act .notifyAll) =
      some ⟨{ s.shared with running := false, stopping := false }, .deciding⟩ :=
    step_of_deciding rfl id id rfl
  refine ⟨_, .snoc (.snoc (.snoc .nil trivial hclear) trivial hnotify) trivial rfl,
    fun ls u hrun => ⟨asleep_of_silent hrun rfl, ?_⟩⟩
  -- no step sets `running_` again
  induction hrun with
  | nil => rfl
  | snoc _ _ hstep hstopped =>
      rcases shared_of_step hstep with hsame | ⟨l', hshared⟩
      · exact hsame ▸ hstopped
      · exact running_of_run hshared hstopped

/-- A follower that has found nothing to do is stopped, and does not notice. -/
theorem stop_unheard_follower :
    ∃ s t : State RunningNode, Transition.Run (Monitor.step executorCode) (fun _ _ => True)
        (started (.new ⟨1, [1, 2]⟩ RocksDBStore.genesis)) [.test] s ∧
      Transition.Run (Monitor.step executorCode) (fun _ _ => True) s
        [.act .clearRunning, .act .notifyAll, .block] t ∧
      t.waiter = .asleep ∧ t.shared.running = false := by
  have htests : ∃ s : State RunningNode,
      Transition.Run (Monitor.step executorCode) (fun _ _ => True)
        (started (.new ⟨1, [1, 2]⟩ RocksDBStore.genesis)) [.test] s ∧ s.waiter = .deciding :=
    run_of_genesis (fun store => started (.new ⟨1, [1, 2]⟩ store)) (by decide +kernel)
  obtain ⟨s, hrun, hw⟩ := htests
  obtain ⟨t, hstop, hsleeps⟩ := stop_unheard hw
  exact ⟨s, t, hrun, hstop, hsleeps [] t .nil⟩

end RaftConsensus
