import RaftConsensus.Cluster.ElectionView
import RaftConsensus.Storage.Genesis

/-!
# The two messages of a leader

`handleAppendEntries` and `handleInstallSnapshot` are both about a leader of some term, and a node
should receive both alike: refuse an old term without a change, and otherwise become a follower of
the sender in its term and answer with that term (`ReceivedAlike`).

`handleAppendEntries` does so always.  `handleInstallSnapshot` leaves a candidate or leader of the
same term in its role, and when it has the data already it answers with the term from before the
message.  `receivedAlike_iff` says for exactly which nodes and messages neither of the two shows.
-/

namespace RaftConsensus

/-- A message that only a leader sends. -/
inductive LeaderMessage
  | appendEntries (args : AppendEntriesArgs)
  | installSnapshot (args : InstallSnapshotArgs)
  deriving DecidableEq

namespace LeaderMessage

def term : LeaderMessage → ℤ
  | .appendEntries args => args.term
  | .installSnapshot args => args.term

def leaderId : LeaderMessage → ℤ
  | .appendEntries args => args.leaderId
  | .installSnapshot args => args.leaderId

end LeaderMessage

namespace RaftNode

variable {n n' : RaftNode}

/-- The node after a message, and the term of its reply. -/
def handleLeaderMessage (n : RaftNode) : LeaderMessage → RaftNode × ℤ
  | .appendEntries args => ((n.handleAppendEntries args).1, (n.handleAppendEntries args).2.term)
  | .installSnapshot args =>
      ((n.handleInstallSnapshot args).1, (n.handleInstallSnapshot args).2.term)

/-- The rule for both messages: an old term is refused, any other is followed. -/
structure ReceivedAlike (n : RaftNode) (msg : LeaderMessage) (r : RaftNode × ℤ) : Prop where
  refused : msg.term < n.currentTerm → r = (n, n.currentTerm)
  followed : n.currentTerm ≤ msg.term →
    r.1.state = .follower ∧ r.1.currentTerm = msg.term ∧ r.1.leaderId = msg.leaderId ∧
      r.2 = msg.term

/-- **When a message is received as it should be.**  An InstallSnapshot of the node's own term
finds it a follower, and one of a newer term brings data that the node does not have yet. -/
def HearsLeader (n : RaftNode) : LeaderMessage → Prop
  | .appendEntries _ => True
  | .installSnapshot args =>
      (args.term = n.currentTerm → n.state = .follower) ∧
        (n.currentTerm < args.term → n.lastApplied < args.lastIncludedIndex)

instance (n : RaftNode) : DecidablePred n.HearsLeader
  | .appendEntries _ => isTrue trivial
  | .installSnapshot _ => inferInstanceAs (Decidable (_ ∧ _))

/-! ## AppendEntries -/

lemma appendEntry_leaderId (n : RaftNode) (i : ℤ) (e : LogEntry) :
    (n.appendEntry i e).leaderId = n.leaderId := by
  unfold appendEntry
  split
  · split <;> rfl
  · rfl

lemma appendLoop_leaderId (es : List LogEntry) :
    ∀ (n : RaftNode) (i : ℤ), (n.appendLoop i es).leaderId = n.leaderId := by
  induction es with
  | nil => simp [appendLoop]
  | cons e es ih =>
      intro n i
      rw [appendLoop, ih, appendEntry_leaderId]

lemma followCommit_leaderId (n : RaftNode) (c : ℤ) : (n.followCommit c).leaderId = n.leaderId := by
  unfold followCommit
  split <;> rfl

/-- A leader that is heard is followed, whatever the node was before. -/
lemma acceptLeader_spec {T l : ℤ} (hT : n.currentTerm ≤ T) :
    (n.acceptLeader T l).state = .follower ∧ (n.acceptLeader T l).currentTerm = T ∧
      (n.acceptLeader T l).leaderId = l := by
  unfold acceptLeader
  dsimp only
  split
  · exact ⟨rfl, rfl, rfl⟩
  · rename_i hlt
    have heq : n.currentTerm = T := le_antisymm hT (not_lt.mp hlt)
    split
    · exact ⟨rfl, rfl, rfl⟩
    · rename_i hstate
      exact ⟨not_not.mp hstate, heq, rfl⟩

lemma receivedAlike_appendEntries (n : RaftNode) (args : AppendEntriesArgs) :
    n.ReceivedAlike (.appendEntries args) (n.handleLeaderMessage (.appendEntries args)) where
  refused hlt := by
    have hlt' : args.term < n.currentTerm := hlt
    simp [handleLeaderMessage, handleAppendEntries, hlt']
  followed hle := by
    have hle' : ¬ args.term < n.currentTerm := not_lt.mpr hle
    obtain ⟨hstate, hterm, hleader⟩ := acceptLeader_spec (n := n) (l := args.leaderId) hle
    -- the append loop and the commit index leave role, term and leader alone
    have hview : ∀ n₀ : RaftNode,
        ((n₀.appendLoop args.prevLogIndex args.entries).followCommit
          args.leaderCommit).electionView = n₀.electionView := by
      intro n₀
      simp
    obtain ⟨-, hstate', hterm', -, -, -⟩ :=
      electionView_inj (hview (n.acceptLeader args.term args.leaderId))
    simp only [handleLeaderMessage, handleAppendEntries, if_neg hle']
    split
    · refine ⟨hstate'.trans hstate, hterm'.trans hterm, ?_, hterm'.trans hterm⟩
      show RaftNode.leaderId _ = args.leaderId
      rw [followCommit_leaderId, appendLoop_leaderId]
      exact hleader
    · exact ⟨hstate, hterm, hleader, hterm⟩

/-! ## InstallSnapshot -/

lemma seeTerm_spec {T : ℤ} (hT : n.currentTerm ≤ T) :
    (n.seeTerm T).currentTerm = T ∧ (n.seeTerm T).lastApplied = n.lastApplied ∧
      ((n.seeTerm T).state = .follower ↔ T = n.currentTerm → n.state = .follower) := by
  unfold seeTerm
  split
  · rename_i hlt
    refine ⟨rfl, rfl, fun _ heq => absurd heq hlt.ne', fun _ => rfl⟩
  · rename_i hlt
    have heq : n.currentTerm = T := le_antisymm hT (not_lt.mp hlt)
    exact ⟨heq, rfl, fun h _ => h, fun h => h heq.symm⟩

lemma receivedAlike_installSnapshot_iff (n : RaftNode) (args : InstallSnapshotArgs) :
    n.ReceivedAlike (.installSnapshot args) (n.handleLeaderMessage (.installSnapshot args)) ↔
      n.HearsLeader (.installSnapshot args) := by
  by_cases hlt : args.term < n.currentTerm
  · refine iff_of_true ⟨fun _ => ?_, fun hle => absurd hlt (not_lt.mpr hle)⟩ ?_
    · simp [handleLeaderMessage, handleInstallSnapshot, hlt]
    · exact ⟨fun heq => absurd heq hlt.ne, fun hgt => absurd hgt hlt.not_gt⟩
  have hle := not_lt.mp hlt
  obtain ⟨hterm, happlied, hstate⟩ := seeTerm_spec hle
  have hrole : ∀ n₀ : RaftNode, n₀.state = (n.seeTerm args.term).state →
      (n₀.state = .follower ↔ args.term = n.currentTerm → n.state = .follower) := by
    intro n₀ h
    rw [h]
    exact hstate
  by_cases hold : args.lastIncludedIndex ≤ n.lastApplied
  · -- the early exit: the reply has the term from before
    have hr : n.handleLeaderMessage (.installSnapshot args) =
        ({ n.seeTerm args.term with leaderId := args.leaderId }, n.currentTerm) := by
      simp [handleLeaderMessage, handleInstallSnapshot, hlt, happlied, hold]
    rw [hr]
    constructor
    · intro h
      obtain ⟨hfollower, -, -, hreply⟩ := h.followed hle
      refine ⟨(hrole _ rfl).mp hfollower, fun hgt => ?_⟩
      exact absurd hreply hgt.ne
    · intro h
      have heq : n.currentTerm = args.term := by
        rcases hle.lt_or_eq with hgt | heq
        · exact absurd (h.2 hgt) (not_lt.mpr hold)
        · exact heq
      exact ⟨fun h' => absurd h' hlt, fun _ => ⟨(hrole _ rfl).mpr h.1, hterm, rfl, heq⟩⟩
  · have hr : n.handleLeaderMessage (.installSnapshot args) =
        (installSnapshot { n.seeTerm args.term with leaderId := args.leaderId } args,
          (n.seeTerm args.term).currentTerm) := by
      simp [handleLeaderMessage, handleInstallSnapshot, hlt, happlied, hold]
    rw [hr]
    constructor
    · intro h
      exact ⟨(hrole _ rfl).mp (h.followed hle).1, fun _ => not_le.mp hold⟩
    · intro h
      exact ⟨fun h' => absurd h' hlt, fun _ => ⟨(hrole _ rfl).mpr h.1, hterm, rfl, hterm⟩⟩

/-- **Both messages of a leader are received alike**, exactly when no InstallSnapshot of the node's
own term finds it in another role, and none of a newer term brings what it has already. -/
theorem receivedAlike_iff (n : RaftNode) (msg : LeaderMessage) :
    n.ReceivedAlike msg (n.handleLeaderMessage msg) ↔ n.HearsLeader msg := by
  cases msg with
  | appendEntries args =>
      exact iff_of_true (receivedAlike_appendEntries n args) trivial
  | installSnapshot args => exact receivedAlike_installSnapshot_iff n args

/-- A snapshot of the leader of term `1`, which has applied nothing yet. -/
def emptySnapshot : InstallSnapshotArgs := ⟨1, 2, 0, 0, [], 0, true⟩

/-- **A candidate that hears the leader of its own term by a snapshot stays a candidate.** -/
theorem candidate_hears_snapshot :
    ∃ n ∈ (RaftNode.new ⟨1, [1, 2, 3]⟩ .genesis).electionTimeout.bind startElection,
      n.currentTerm = emptySnapshot.term ∧
      (n.handleLeaderMessage (.installSnapshot emptySnapshot)).1.state = .candidate ∧
      ¬ n.ReceivedAlike (.installSnapshot emptySnapshot)
        (n.handleLeaderMessage (.installSnapshot emptySnapshot)) := by
  have hstarted : ∃ n ∈ (RaftNode.new ⟨1, [1, 2, 3]⟩ .genesis).electionTimeout.bind startElection,
      n.currentTerm = emptySnapshot.term ∧ n.currentTerm ≤ emptySnapshot.term ∧
      (n.handleLeaderMessage (.installSnapshot emptySnapshot)).1.state = .candidate := by
    rw [RocksDBStore.genesis_eq]
    decide +kernel
  obtain ⟨n, hn, hterm, hle, hstate⟩ := hstarted
  refine ⟨n, hn, hterm, hstate, fun h => ?_⟩
  have hfollower := (h.followed hle).1
  rw [hstate] at hfollower
  cases hfollower

end RaftNode

end RaftConsensus
