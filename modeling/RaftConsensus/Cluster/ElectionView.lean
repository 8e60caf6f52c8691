import RaftConsensus.Cluster.Moves

/-!
# What elections read of a node

`ElectionView` is the part of a node that elections depend on.  This file says once, for every
step of a node, what it does to that view: most steps leave it as it is, and the others move the
node in one of the ways `handleRequestVote_view`, `handleAppendEntries_view`,
`handleInstallSnapshot_view` and `voteReply_cases` list.  Election arguments use these and never
unfold a step again.
-/

namespace RaftConsensus

/-- The part of a node that elections read and write. -/
structure ElectionView where
  config : ClusterConfig
  state : Role
  currentTerm : ℤ
  votedFor : ℤ
  election : ElectionThread
  votesReceived : ℤ → ℕ

namespace RaftNode

variable {n n' : RaftNode}

def electionView (n : RaftNode) : ElectionView :=
  ⟨n.config, n.state, n.currentTerm, n.votedFor, n.election, n.votesReceived⟩

lemma electionView_inj (h : n'.electionView = n.electionView) :
    n'.config = n.config ∧ n'.state = n.state ∧ n'.currentTerm = n.currentTerm ∧
      n'.votedFor = n.votedFor ∧ n'.election = n.election ∧
      n'.votesReceived = n.votesReceived := by
  simpa [electionView] using h

/-- The view after `becomeFollower`. -/
def ElectionView.follow (v : ElectionView) (term : ℤ) : ElectionView :=
  { v with state := .follower, currentTerm := term, votedFor := -1 }

@[simp] lemma becomeFollower_view (n : RaftNode) (t : ℤ) :
    (n.becomeFollower t).electionView = ElectionView.follow n.electionView t := rfl

@[simp] lemma setWorker_view (n : RaftNode) (p : ℤ) (w : Worker) :
    (n.setWorker p w).electionView = n.electionView := rfl

@[simp] lemma followCommit_view (n : RaftNode) (c : ℤ) :
    (n.followCommit c).electionView = n.electionView := by
  unfold followCommit
  split <;> rfl

@[simp] lemma appendEntry_view (n : RaftNode) (i : ℤ) (e : LogEntry) :
    (n.appendEntry i e).electionView = n.electionView := by
  unfold appendEntry
  split
  · split <;> rfl
  · rfl

@[simp] lemma appendLoop_view (es : List LogEntry) :
    ∀ (n : RaftNode) (i : ℤ), (n.appendLoop i es).electionView = n.electionView := by
  induction es with
  | nil => exact fun _ _ => rfl
  | cons e es ih =>
      intro n i
      rw [appendLoop, ih, appendEntry_view]

@[simp] lemma installSnapshot_view (n : RaftNode) (args : InstallSnapshotArgs) :
    (n.installSnapshot args).electionView = n.electionView := rfl

/-! ## Handlers -/

/-- `seeTerm` moves to a newer term or does nothing; afterwards the term is reached. -/
lemma seeTerm_cases (n : RaftNode) (t : ℤ) :
    n.seeTerm t = n ∧ t ≤ n.currentTerm ∨
      n.currentTerm < t ∧ n.seeTerm t = n.becomeFollower t := by
  unfold seeTerm
  split
  · rename_i h
    exact .inr ⟨h, rfl⟩
  · rename_i h
    exact .inl ⟨rfl, not_lt.mp h⟩

/-- What `handleRequestVote` does: it refuses an old term; or it sees the term, and then votes for
the candidate or not. -/
lemma handleRequestVote_cases (n : RaftNode) (args : RequestVoteArgs) :
    (n.handleRequestVote args = (n, ⟨n.currentTerm, false⟩)) ∨
    n.currentTerm ≤ args.term ∧ (n.seeTerm args.term).currentTerm = args.term ∧
      ((n.seeTerm args.term).grantsVote args ∧
        (n.handleRequestVote args).1 =
          { n.seeTerm args.term with
            votedFor := args.candidateId
            storage := (n.seeTerm args.term).storage.saveHardState args.term args.candidateId } ∧
        (n.handleRequestVote args).2 = ⟨args.term, true⟩ ∨
      n.handleRequestVote args = (n.seeTerm args.term, ⟨args.term, false⟩)) := by
  unfold handleRequestVote
  split
  · exact .inl rfl
  · rename_i hlt
    right
    have hterm : (n.seeTerm args.term).currentTerm = args.term := by
      rcases seeTerm_cases n args.term with ⟨h, hle⟩ | ⟨_, h⟩
      · rw [h]
        exact le_antisymm (not_lt.mp hlt) hle
      · rw [h]
        rfl
    refine ⟨not_lt.mp hlt, hterm, ?_⟩
    simp only [hterm]
    split
    · rename_i hg
      exact .inl ⟨hg, rfl, rfl⟩
    · exact .inr rfl

/-- What hearing a leader of term `t`, at least the node's own, does to the view. -/
lemma acceptLeader_view (n : RaftNode) (t l : ℤ) (ht : n.currentTerm ≤ t) :
    (n.acceptLeader t l).electionView = n.electionView ∧ t = n.currentTerm ∧
        n.state = .follower ∨
      (n.acceptLeader t l).electionView = ElectionView.follow n.electionView t ∧
        (n.currentTerm < t ∨ t = n.currentTerm ∧ n.state ≠ .follower) := by
  unfold acceptLeader
  dsimp only
  split
  · rename_i h
    exact .inr ⟨rfl, .inl h⟩
  · rename_i h
    have heq : t = n.currentTerm := le_antisymm (not_lt.mp h) ht
    split
    · rename_i hs
      exact .inr ⟨rfl, .inr ⟨heq, hs⟩⟩
    · rename_i hs
      exact .inl ⟨rfl, heq, not_not.mp hs⟩

/-- `handleAppendEntries` refuses an old term, or does to the view what hearing the leader
does. -/
lemma handleAppendEntries_view (n : RaftNode) (args : AppendEntriesArgs) :
    (n.handleAppendEntries args).1 = n ∨
      n.currentTerm ≤ args.term ∧ (n.handleAppendEntries args).1.electionView =
        (n.acceptLeader args.term args.leaderId).electionView := by
  unfold handleAppendEntries
  split
  · exact .inl rfl
  · rename_i h
    right
    refine ⟨not_lt.mp h, ?_⟩
    dsimp only
    split
    · simp
    · rfl

/-- The snapshot is not out of date: it will be installed. -/
def installs (n : RaftNode) (args : InstallSnapshotArgs) : Prop :=
  n.currentTerm ≤ args.term ∧ n.lastApplied < args.lastIncludedIndex

instance (n : RaftNode) (args : InstallSnapshotArgs) : Decidable (n.installs args) :=
  inferInstanceAs (Decidable (_ ∧ _))

/-- What `handleInstallSnapshot` does: it refuses an old term; it sees the term but has the data
already; or it sees the term and installs the snapshot. -/
lemma handleInstallSnapshot_cases (n : RaftNode) (args : InstallSnapshotArgs) :
    ¬ n.installs args ∧ (n.handleInstallSnapshot args).1 = n ∨
    ¬ n.installs args ∧ (n.handleInstallSnapshot args).1 =
      { n.seeTerm args.term with leaderId := args.leaderId } ∨
    n.installs args ∧ (n.handleInstallSnapshot args).1 =
      installSnapshot { n.seeTerm args.term with leaderId := args.leaderId } args := by
  have happlied : (n.seeTerm args.term).lastApplied = n.lastApplied := by
    rcases seeTerm_cases n args.term with ⟨h, -⟩ | ⟨-, h⟩
    · rw [h]
    · rw [h]
      rfl
  by_cases hterm : args.term < n.currentTerm
  · refine .inl ⟨fun h => absurd h.1 (not_le.mpr hterm), ?_⟩
    rw [handleInstallSnapshot, if_pos hterm]
  · have hsee : (n.handleInstallSnapshot args).1 =
        (if args.lastIncludedIndex ≤ (n.seeTerm args.term).lastApplied then
          { n.seeTerm args.term with leaderId := args.leaderId }
        else installSnapshot { n.seeTerm args.term with leaderId := args.leaderId } args) := by
      rw [handleInstallSnapshot, if_neg hterm]
      dsimp only
      split <;> rfl
    rw [happlied] at hsee
    by_cases hle : args.lastIncludedIndex ≤ n.lastApplied
    · rw [if_pos hle] at hsee
      exact .inr (.inl ⟨fun h => absurd h.2 (not_lt.mpr hle), hsee⟩)
    · rw [if_neg hle] at hsee
      exact .inr (.inr ⟨⟨not_lt.mp hterm, not_le.mp hle⟩, hsee⟩)

/-- `seeTerm` keeps the view or moves it to a newer term. -/
lemma seeTerm_view (n : RaftNode) (t : ℤ) :
    (n.seeTerm t).electionView = n.electionView ∨
      n.currentTerm < t ∧ (n.seeTerm t).electionView = ElectionView.follow n.electionView t := by
  rcases seeTerm_cases n t with ⟨h, -⟩ | ⟨hlt, h⟩
  · exact .inl (by rw [h])
  · exact .inr ⟨hlt, by rw [h, becomeFollower_view]⟩

/-- `handleInstallSnapshot` keeps the view or moves it to a newer term. -/
lemma handleInstallSnapshot_view (n : RaftNode) (args : InstallSnapshotArgs) :
    (n.handleInstallSnapshot args).1.electionView = n.electionView ∨
      n.currentTerm < args.term ∧ (n.handleInstallSnapshot args).1.electionView =
        ElectionView.follow n.electionView args.term := by
  rcases handleInstallSnapshot_cases n args with ⟨-, h⟩ | ⟨-, h⟩ | ⟨-, h⟩
  · exact .inl (by rw [h])
  · rw [h]
    exact seeTerm_view n args.term
  · rw [h]
    exact seeTerm_view n args.term

/-! ## What handlers leave alone -/

/-- The part of a node that no RPC handler touches: its configuration, what it knows about its
peers and its clients, and where its threads are. -/
structure Threads where
  config : ClusterConfig
  nextIndex : ℤ → ℤ
  matchIndex : ℤ → ℤ
  pendingCallbacks : Bytes → Option ℕ
  votesReceived : ℤ → ℕ
  election : ElectionThread
  workers : ℤ → Worker
  executor : Executor
  requests : ℕ → Option RequestThread

def threads (n : RaftNode) : Threads :=
  ⟨n.config, n.nextIndex, n.matchIndex, n.pendingCallbacks, n.votesReceived, n.election,
    n.workers, n.executor, n.requests⟩

lemma threads_inj (h : n'.threads = n.threads) :
    n'.config = n.config ∧ n'.nextIndex = n.nextIndex ∧ n'.matchIndex = n.matchIndex ∧
      n'.pendingCallbacks = n.pendingCallbacks ∧ n'.votesReceived = n.votesReceived ∧
      n'.election = n.election ∧ n'.workers = n.workers ∧ n'.executor = n.executor ∧
      n'.requests = n.requests := by
  simpa [threads] using h

@[simp] lemma becomeFollower_threads (n : RaftNode) (t : ℤ) :
    (n.becomeFollower t).threads = n.threads := rfl

@[simp] lemma seeTerm_threads (n : RaftNode) (t : ℤ) : (n.seeTerm t).threads = n.threads := by
  unfold seeTerm
  split <;> rfl

@[simp] lemma followCommit_threads (n : RaftNode) (c : ℤ) :
    (n.followCommit c).threads = n.threads := by
  unfold followCommit
  split <;> rfl

@[simp] lemma acceptLeader_threads (n : RaftNode) (t l : ℤ) :
    (n.acceptLeader t l).threads = n.threads := by
  unfold acceptLeader
  dsimp only
  split
  · rfl
  · split <;> rfl

@[simp] lemma appendEntry_threads (n : RaftNode) (i : ℤ) (e : LogEntry) :
    (n.appendEntry i e).threads = n.threads := by
  unfold appendEntry
  split
  · split <;> rfl
  · rfl

@[simp] lemma appendLoop_threads (es : List LogEntry) :
    ∀ (n : RaftNode) (i : ℤ), (n.appendLoop i es).threads = n.threads := by
  induction es with
  | nil => exact fun _ _ => rfl
  | cons e es ih =>
      intro n i
      rw [appendLoop, ih, appendEntry_threads]

/-- **No handler moves a thread.** -/
theorem handle_threads (n : RaftNode) (req : Request) : (n.handle req).1.threads = n.threads := by
  cases req with
  | requestVote args =>
      rcases handleRequestVote_cases n args with h | ⟨-, -, ⟨-, h, -⟩ | h⟩
      · simp [handle, h]
      · rw [handle, h]
        exact seeTerm_threads n args.term
      · simp [handle, h]
  | appendEntries args =>
      simp only [handle, handleAppendEntries]
      split
      · rfl
      · split <;> simp
  | installSnapshot args =>
      rw [handle]
      rcases handleInstallSnapshot_cases n args with ⟨-, h⟩ | ⟨-, h⟩ | ⟨-, h⟩
      · rw [h]
      · rw [h]
        exact seeTerm_threads n args.term
      · rw [h]
        exact seeTerm_threads n args.term

/-! ## Replies -/

/-- What a vote reply does: nothing; a step down; or one more vote counted, which makes the
candidate a leader when it is the one that was needed. -/
lemma voteReply_cases (n : RaftNode) (t : ℤ) (r : RequestVoteReply) :
    n.voteReply t r = n ∨
    n.currentTerm < r.term ∧ n.voteReply t r = n.becomeFollower r.term ∨
    n.state = .candidate ∧ n.currentTerm = t ∧ r.voteGranted = true ∧
      (n.votesReceived t + 1 ≠ n.config.votesNeeded ∧ n.voteReply t r = n.countVote t ∨
        n.votesReceived t + 1 = n.config.votesNeeded ∧
          n.voteReply t r = (n.countVote t).becomeLeader) := by
  unfold voteReply
  split
  · exact .inl rfl
  · rename_i hcand
    rw [not_or, not_not, not_not] at hcand
    split
    · rename_i hlt
      exact .inr (.inl ⟨hlt, rfl⟩)
    · split
      · rename_i hgranted
        refine .inr (.inr ⟨hcand.1, hcand.2, hgranted, ?_⟩)
        have hcount : (n.countVote t).votesReceived t = n.votesReceived t + 1 := by
          simp [countVote]
        have hconfig : (n.countVote t).config = n.config := rfl
        simp only [hcount, hconfig]
        split
        · rename_i h
          exact .inr ⟨h, rfl⟩
        · rename_i h
          exact .inl ⟨h, rfl⟩
      · exact .inl rfl

lemma becomeLeader_eq (h : n.state = .candidate) :
    n.becomeLeader =
      { n with
        state := .leader
        leaderId := n.config.myId
        nextIndex := fun p => if p ∈ n.config.peers then n.lastLogIndex + 1 else n.nextIndex p
        matchIndex := fun p => if p ∈ n.config.peers then 0 else n.matchIndex p } :=
  if_neg (not_not.mpr h)

lemma becomeLeader_spec (h : n.state = .candidate) :
    n.becomeLeader.state = .leader ∧ n.becomeLeader.currentTerm = n.currentTerm ∧
      n.becomeLeader.votedFor = n.votedFor ∧ n.becomeLeader.config = n.config ∧
      n.becomeLeader.election = n.election ∧ n.becomeLeader.workers = n.workers ∧
      n.becomeLeader.votesReceived = n.votesReceived ∧
      n.becomeLeader.commitIndex = n.commitIndex := by
  rw [becomeLeader_eq h]
  exact ⟨rfl, rfl, rfl, rfl, rfl, rfl, rfl, rfl⟩

/-- A reply to `AppendEntries` keeps the view or moves it to a newer term. -/
lemma appendEntriesReply_view (n : RaftNode) (p : ℤ) (args : AppendEntriesArgs)
    (r : AppendEntriesReply) :
    (n.appendEntriesReply p args r).electionView = n.electionView ∨
      n.currentTerm < r.term ∧ (n.appendEntriesReply p args r).electionView =
        ElectionView.follow n.electionView r.term := by
  unfold appendEntriesReply
  dsimp only
  split
  · exact .inl rfl
  · split
    · rename_i h
      exact .inr ⟨h, rfl⟩
    · split
      · split <;> exact .inl rfl
      · split <;> exact .inl rfl

/-- A reply to `InstallSnapshot` keeps the view or moves it to a newer term. -/
lemma installSnapshotReply_view (n : RaftNode) (p : ℤ) (args : InstallSnapshotArgs)
    (r : InstallSnapshotReply) :
    (n.installSnapshotReply p args r).electionView = n.electionView ∨
      n.currentTerm < r.term ∧ (n.installSnapshotReply p args r).electionView =
        ElectionView.follow n.electionView r.term := by
  unfold installSnapshotReply
  dsimp only
  split
  · rename_i h
    exact .inr ⟨h, rfl⟩
  · split <;> exact .inl rfl

lemma appendEntriesReply_workers (n : RaftNode) (p : ℤ) (args : AppendEntriesArgs)
    (r : AppendEntriesReply) :
    (n.appendEntriesReply p args r).workers = Function.update n.workers p .idle := by
  unfold appendEntriesReply
  dsimp only
  split
  · rfl
  · split
    · rfl
    · split
      · split <;> rfl
      · split <;> rfl

lemma installSnapshotReply_workers (n : RaftNode) (p : ℤ) (args : InstallSnapshotArgs)
    (r : InstallSnapshotReply) :
    (n.installSnapshotReply p args r).workers = Function.update n.workers p .idle := by
  unfold installSnapshotReply
  dsimp only
  split
  · rfl
  · split <;> rfl

@[simp] lemma abandon_view (n : RaftNode) (p : ℤ) (req : Request) :
    (n.abandon p req).electionView = n.electionView := by
  cases req <;> rfl

/-- Receiving an answer moves neither the executor nor a client's thread, and writes at most the
hard state. -/
lemma receive_frame (n : RaftNode) (dst : ℤ) (req : Request) (rep : Reply) :
    (n.receive dst req rep).executor = n.executor ∧
      (n.receive dst req rep).requests = n.requests ∧
      ((n.receive dst req rep).storage = n.storage ∨
        ∃ t v, (n.receive dst req rep).storage = n.storage.saveHardState t v) := by
  have hself : n.executor = n.executor ∧ n.requests = n.requests ∧ (n.storage = n.storage ∨
      ∃ t v, n.storage = n.storage.saveHardState t v) := ⟨rfl, rfl, .inl rfl⟩
  cases req with
  | requestVote args =>
      cases rep with
      | requestVote r =>
          rw [receive]
          rcases voteReply_cases n args.term r with h | ⟨-, h⟩ | ⟨-, -, -, ⟨-, h⟩ | ⟨-, h⟩⟩
          · rwa [h]
          · rw [h]
            exact ⟨rfl, rfl, .inr ⟨_, _, rfl⟩⟩
          · rwa [h]
          · rw [h]
            unfold becomeLeader
            split <;> exact hself
      | _ => exact hself
  | appendEntries args =>
      cases rep with
      | appendEntries r =>
          rw [receive]
          unfold appendEntriesReply
          dsimp only
          split
          · exact hself
          · split
            · exact ⟨rfl, rfl, .inr ⟨_, _, rfl⟩⟩
            · split
              · split <;> exact hself
              · split <;> exact hself
      | _ => exact hself
  | installSnapshot args =>
      cases rep with
      | installSnapshot r =>
          rw [receive]
          unfold installSnapshotReply
          dsimp only
          split
          · exact ⟨rfl, rfl, .inr ⟨_, _, rfl⟩⟩
          · split <;> exact hself
      | _ => exact hself

/-! ## Thread steps -/

end RaftNode

/-- The steps of the election thread. -/
def ThreadStep.ofElection : ThreadStep → Prop
  | .electionTimeout | .startElection | .evalHardState | .saveHardState | .sendRequestVote => True
  | _ => False

namespace RaftNode

variable {n n' : RaftNode}

/-- A thread step outside the election thread leaves the view alone. -/
theorem Move.view {call : ℕ} {a : ThreadStep} {out : Output} (ha : ¬ a.ofElection)
    (h : n.Move call a n' out) : n'.electionView = n.electionView := by
  cases h with
  | electionTimeout => exact absurd trivial ha
  | startElection => exact absurd trivial ha
  | evalHardState => exact absurd trivial ha
  | saveHardState => exact absurd trivial ha
  | sendRequestVote => exact absurd trivial ha
  | _ => rfl

end RaftNode

end RaftConsensus
