import RaftConsensus.Cluster.LogAnswers
import RaftConsensus.Library.OrderStatistics
import RaftConsensus.Storage.Entries
import RaftConsensus.Storage.Genesis

/-!
# The two thresholds

An election is won with `votesNeeded` votes, and an index is committed when more than
`(peers.size() + 1) / 2` nodes are known to hold it.

* `commitLoop_eq_nthLargest` — the commit loop is the order statistic of the indices that the
  leader and its peers have reached, with the entries of older terms left out.
* `exactQuorums_iff` — both thresholds are majorities exactly when the number of nodes is even; for
  an odd number they ask for one node more.
-/

namespace RaftConsensus

open OrderStatistics

namespace RaftNode

variable {n n' : RaftNode} {N M : ℤ}

/-! ## The commit loop -/

/-- The number of nodes that have to hold an entry. -/
def commitThreshold (n : RaftNode) : ℕ := (n.config.peers.length + 1) / 2 + 1

/-- What the leader knows to be held: its own last index, and the match index of every peer. -/
def reachedIndices (n : RaftNode) : List ℤ :=
  n.lastLogIndex :: (n.config.peers.filter fun p => p ≠ n.config.myId).map n.matchIndex

/-- The commit loop stops at such an index. -/
structure Committable (n : RaftNode) (N : ℤ) : Prop where
  beyond : n.commitIndex < N
  inLog : N ≤ n.lastLogIndex
  term : (n.storage.getLogEntry N).term = n.currentTerm
  count : n.commitThreshold ≤ n.countReplicas N

/-- Within the log, the nodes counted are those that have reached the index. -/
lemma countReplicas_eq (h : N ≤ n.lastLogIndex) :
    n.countReplicas N = n.reachedIndices.countP (N ≤ ·) := by
  rw [reachedIndices, List.countP_cons_of_pos (by simpa using h), List.countP_map,
    List.countP_filter, countReplicas, Nat.add_comm]
  congr 1
  refine List.countP_congr fun p _ => ?_
  simp [and_comm]

/-- More nodes have reached a smaller index. -/
lemma countReplicas_anti (h : N ≤ M) : n.countReplicas M ≤ n.countReplicas N := by
  unfold countReplicas
  refine Nat.add_le_add_left (List.countP_mono_left fun p _ hp => ?_) 1
  simp only [decide_eq_true_eq] at hp ⊢
  exact ⟨hp.1, h.trans hp.2⟩

/-- The loop ends where it began or at an index to commit. -/
lemma committable_of_ne (h : n.commitLoop ≠ n.commitIndex) : n.Committable n.commitLoop := by
  obtain hsame | ⟨⟨hlt, hle⟩, hterm, hcount⟩ := n.commitLoop_cases
  · exact absurd hsame h
  · exact ⟨hlt, hle, hterm, hcount⟩

lemma pairwise_loopRange (lo hi : ℤ) : (loopRange lo hi).reverse.Pairwise (· ≥ ·) := by
  rw [List.pairwise_reverse, loopRange, List.pairwise_map]
  refine List.pairwise_lt_range.imp fun hlt => ?_
  show lo + _ ≤ lo + _
  omega

/-- The loop runs downwards and stops at the first index to commit. -/
lemma Committable.le_commitLoop (h : n.Committable N) : N ≤ n.commitLoop := by
  have hmem : N ∈ (loopRange (n.commitIndex + 1) n.lastLogIndex).reverse := by
    rw [List.mem_reverse, mem_loopRange]
    exact ⟨h.beyond, h.inLog⟩
  have hstop : decide ((n.storage.getLogEntry N).term = n.currentTerm ∧
      (n.config.peers.length + 1) / 2 < n.countReplicas N) = true :=
    decide_eq_true ⟨h.term, h.count⟩
  unfold commitLoop
  cases hfind : List.find? _ _ with
  | none => exact absurd hstop (List.find?_eq_none.mp hfind N hmem)
  | some K => exact find?_greatest (pairwise_loopRange _ _) hfind hmem hstop

/-- **The commit loop is an order statistic.**  It goes to the greatest index that enough nodes
have reached, if that is beyond the commit index and its entry is of the current term, and
otherwise stays. -/
theorem commitLoop_eq_nthLargest
    (hmono : ∀ N M, n.commitIndex < N → N ≤ M → M ≤ n.lastLogIndex →
      (n.storage.getLogEntry N).term ≤ (n.storage.getLogEntry M).term)
    (hcurrent : ∀ N, n.commitIndex < N → N ≤ n.lastLogIndex →
      (n.storage.getLogEntry N).term ≤ n.currentTerm)
    (hmatch : ∀ p ∈ n.config.peers, n.matchIndex p ≤ n.lastLogIndex) :
    n.commitLoop =
      match nthLargest n.commitThreshold n.reachedIndices with
      | some K =>
          if n.commitIndex < K ∧ (n.storage.getLogEntry K).term = n.currentTerm then K
          else n.commitIndex
      | none => n.commitIndex := by
  have hpos : 0 < n.commitThreshold := Nat.succ_pos _
  -- an index to commit is not beyond the order statistic
  have hreached : ∀ L, n.Committable L →
      ∃ K, nthLargest n.commitThreshold n.reachedIndices = some K ∧ L ≤ K := by
    intro L hL
    rw [reached_iff hpos, ← countReplicas_eq hL.inLog]
    exact hL.count
  cases hK : nthLargest n.commitThreshold n.reachedIndices with
  | none =>
      by_contra hne
      obtain ⟨K, hK', -⟩ := hreached _ (committable_of_ne hne)
      rw [hK] at hK'
      cases hK'
  | some K =>
      have hinLog : K ≤ n.lastLogIndex := by
        obtain rfl | hpeer := List.mem_cons.mp (nthLargest_mem hK)
        · exact le_rfl
        · obtain ⟨p, hp, rfl⟩ := List.mem_map.mp hpeer
          exact hmatch p (List.mem_filter.mp hp).1
      have hle : ∀ L, n.Committable L → L ≤ K := by
        intro L hL
        obtain ⟨K', hK', hLK⟩ := hreached L hL
        rw [hK] at hK'
        obtain rfl := Option.some.inj hK'
        exact hLK
      dsimp only
      split
      · rename_i hgood
        have hcommit : n.Committable K := by
          refine ⟨hgood.1, hinLog, hgood.2, ?_⟩
          rw [countReplicas_eq hinLog]
          exact le_countP_nthLargest hpos hK
        have hge := hcommit.le_commitLoop
        refine le_antisymm (hle _ (committable_of_ne ?_)) hge
        exact (hgood.1.trans_le hge).ne'
      · rename_i hbad
        by_contra hne
        have hL := committable_of_ne hne
        have hLK := hle _ hL
        -- the terms from there to the order statistic are the current one
        refine hbad ⟨hL.beyond.trans_le hLK, le_antisymm ?_ ?_⟩
        · exact hcurrent K (hL.beyond.trans_le hLK) hinLog
        · rw [← hL.term]
          exact hmono _ _ hL.beyond hLK hinLog

/-- The leader of a cluster of three with two entries, which both peers have taken over. -/
def leaderOfTwo : RaftNode :=
  { RaftNode.new ⟨1, [1, 2, 3]⟩ .genesis with
    storage := (RocksDBStore.genesis.appendLog ⟨1, 1, .empty⟩).appendLog ⟨1, 2, .empty⟩
    currentTerm := 1
    lastLogIndex := 2
    lastLogTerm := 1
    state := .leader
    matchIndex := fun _ => 2 }

lemma term_leaderOfTwo (h₁ : 0 < N) (h₂ : N ≤ 2) :
    (leaderOfTwo.storage.getLogEntry N).term = 1 := by
  obtain rfl | rfl : N = 1 ∨ N = 2 := by omega
  · simp [leaderOfTwo, RocksDBStore.getLogEntry_eq, RocksDBStore.entry?_appendLog]
  · simp [leaderOfTwo, RocksDBStore.getLogEntry_eq, RocksDBStore.entry?_appendLog]

/-- The leader commits both entries: all three nodes have reached index `2`. -/
theorem leaderOfTwo_commits : leaderOfTwo.commitLoop = 2 := by
  have hloop := commitLoop_eq_nthLargest (n := leaderOfTwo)
    (fun N M hN hNM hM => by rw [term_leaderOfTwo hN (hNM.trans hM),
      term_leaderOfTwo (hN.trans_le hNM) hM])
    (fun N hN hM => (term_leaderOfTwo hN hM).le) (fun p _ => le_rfl)
  have hlargest : nthLargest leaderOfTwo.commitThreshold leaderOfTwo.reachedIndices = some 2 := by
    decide +kernel
  have hgood : leaderOfTwo.commitIndex < 2 ∧
      (leaderOfTwo.storage.getLogEntry 2).term = leaderOfTwo.currentTerm :=
    ⟨by decide, term_leaderOfTwo (by decide) le_rfl⟩
  rw [hloop, hlargest]
  exact if_pos hgood

/-! ## Counting votes -/

/-- The replies to the vote requests of the current term, in the order in which they arrive. -/
def voteReplies (n : RaftNode) (replies : List RequestVoteReply) : RaftNode :=
  replies.foldl (fun n' r => n'.voteReply n.currentTerm r) n

/-- A candidate that has no vote but its own. -/
def Campaigning (n : RaftNode) : Prop := n.state = .candidate ∧ n.votesReceived n.currentTerm = 1

/-- The way of the election thread to its first vote request. -/
def startCampaign (n : RaftNode) : Option RaftNode :=
  ((n.electionTimeout.bind startElection).bind evalHardState).bind saveHardState

lemma startCampaign_spec (h : n.election = .idle) (hstate : n.state ≠ .leader) :
    ∃ n' ∈ n.startCampaign, n'.Campaigning ∧ n'.config = n.config := by
  simp [startCampaign, electionTimeout, startElection, evalHardState, saveHardState, h, hstate,
    Campaigning]

/-- Another vote or refusal leaves a leader as it is. -/
lemma voteReplies_of_leader {T : ℤ} {replies : List RequestVoteReply} (h : n.state = .leader) :
    replies.foldl (fun n' r => n'.voteReply T r) n = n := by
  induction replies with
  | nil => rfl
  | cons r replies ih =>
      have hsame : n.voteReply T r = n := by simp [voteReply, h]
      rw [List.foldl_cons, hsame, ih]

/-- **The candidate wins with the vote that completes `votesNeeded`**, and not without it. -/
lemma leader_voteReplies_iff {T : ℤ} {replies : List RequestVoteReply} :
    ∀ {n : RaftNode}, n.state = .candidate → n.currentTerm = T →
      n.votesReceived T < n.config.votesNeeded → (∀ r ∈ replies, r.term ≤ T) →
      ((replies.foldl (fun n' r => n'.voteReply T r) n).state = .leader ↔
        n.config.votesNeeded ≤
          n.votesReceived T + replies.countP RequestVoteReply.voteGranted) := by
  induction replies with
  | nil =>
      intro n hstate _ hvotes _
      simp [hstate, hvotes]
  | cons r replies ih =>
      intro n hstate hterm hvotes hseen
      have hold : ¬ T < r.term := not_lt.mpr (hseen r List.mem_cons_self)
      have hrest : ∀ r ∈ replies, r.term ≤ T := fun r hr => hseen r (List.mem_cons_of_mem _ hr)
      rw [List.foldl_cons]
      by_cases hgranted : r.voteGranted = true
      · rw [List.countP_cons_of_pos hgranted]
        by_cases hwon : n.votesReceived T + 1 = n.config.votesNeeded
        · have hreply : (n.voteReply T r).state = .leader := by
            simp [voteReply, hstate, hterm, hold, hgranted, countVote, hwon, becomeLeader]
          rw [voteReplies_of_leader hreply]
          exact iff_of_true hreply (by omega)
        · have hreply : n.voteReply T r = n.countVote T := by
            simp [voteReply, hstate, hterm, hold, hgranted, countVote, hwon]
          have hcount : (n.countVote T).votesReceived T = n.votesReceived T + 1 := by
            simp [countVote]
          have hconfig : (n.countVote T).config = n.config := rfl
          have hmore := ih (n := n.countVote T) hstate hterm (by rw [hcount, hconfig]; omega) hrest
          rw [hreply, hmore, hcount, hconfig]
          omega
      · have hreply : n.voteReply T r = n := by simp [voteReply, hstate, hterm, hold, hgranted]
        rw [hreply, List.countP_cons_of_neg hgranted]
        exact ih hstate hterm hvotes hrest

/-! ## Majorities -/

end RaftNode

namespace ClusterConfig

/-- More than half of the nodes. -/
def majority (c : ClusterConfig) : ℕ := c.peers.length / 2 + 1

/-- All nodes are listed once, this one among them, as `main` builds the list. -/
structure ListsAll (c : ClusterConfig) : Prop where
  nodup : c.peers.Nodup
  self : c.myId ∈ c.peers

/-- Other nodes that are up, with at most `(n - 1) / 2` of all nodes down. -/
structure EnoughUp (c : ClusterConfig) (up : List ℤ) : Prop where
  nodup : up.Nodup
  listed : ∀ p ∈ up, p ∈ c.peers ∧ p ≠ c.myId
  down : c.peers.length ≤ 1 + up.length + (c.peers.length - 1) / 2

/-- The index is one that a leader may commit by counting. -/
structure Countable (n : RaftNode) (N : ℤ) : Prop where
  state : n.state = .leader
  beyond : n.commitIndex < N
  inLog : N ≤ n.lastLogIndex
  term : (n.storage.getLogEntry N).term = n.currentTerm

/-- **Quorums are exact majorities**, for elections and for commits, so that the nodes that are up
suffice for both. -/
structure ExactQuorums (c : ClusterConfig) : Prop where
  election : ∀ (n : RaftNode) (replies : List RequestVoteReply), n.config = c → n.Campaigning →
    replies.length < c.peers.length → (∀ r ∈ replies, r.term ≤ n.currentTerm) →
    ((n.voteReplies replies).state = .leader ↔
      c.majority ≤ 1 + replies.countP RequestVoteReply.voteGranted)
  commit : ∀ (n : RaftNode) (N : ℤ), n.config = c → Countable n N →
    (N ≤ n.commitLoop ↔ c.majority ≤ c.peers.countP fun p => p = c.myId ∨ N ≤ n.matchIndex p)
  electing : ∀ (n : RaftNode) (up : List ℤ) (reply : ℤ → RequestVoteReply), n.config = c →
    n.Campaigning → c.EnoughUp up →
    (∀ p ∈ up, (reply p).voteGranted = true ∧ (reply p).term ≤ n.currentTerm) →
    (n.voteReplies (up.map reply)).state = .leader
  committing : ∀ (n : RaftNode) (N : ℤ) (up : List ℤ), n.config = c → Countable n N →
    c.EnoughUp up → (∀ p ∈ up, N ≤ n.matchIndex p) → N ≤ n.commitLoop

variable {c : ClusterConfig} {n : RaftNode} {N : ℤ} {up : List ℤ}

/-- With this node among the peers, the counter starts at the node itself. -/
lemma ListsAll.countReplicas (hc : c.ListsAll) (hconfig : n.config = c) :
    n.countReplicas N = c.peers.countP fun p => p = c.myId ∨ N ≤ n.matchIndex p := by
  have hself : c.peers.countP (fun p => decide (p = c.myId)) = 1 := by
    have hcount := List.count_eq_one_of_mem hc.nodup hc.self
    rwa [List.count] at hcount
  have hsplit := List.countP_eq_countP_filter_add c.peers
    (fun p => decide (p = c.myId ∨ N ≤ n.matchIndex p)) fun p => decide (p = c.myId)
  rw [hsplit, List.countP_filter, List.countP_filter, RaftNode.countReplicas, hconfig, ← hself]
  refine congrArg₂ (· + ·) (List.countP_congr fun p _ => ?_) (List.countP_congr fun p _ => ?_)
  · simp only [decide_eq_true_eq, Bool.and_eq_true]
    tauto
  · simp only [decide_eq_true_eq, Bool.and_eq_true, Bool.not_eq_true', decide_eq_false_iff_not]
    tauto

lemma ListsAll.length_pos (hc : c.ListsAll) : 0 < c.peers.length :=
  List.length_pos_of_mem hc.self

/-- The nodes that are up, with this one, are listed. -/
lemma EnoughUp.count_le (hup : c.EnoughUp up) (hc : c.ListsAll) {P : ℤ → Bool}
    (hself : P c.myId = true) (hP : ∀ p ∈ up, P p = true) :
    1 + up.length ≤ c.peers.countP P := by
  have hnodup : (c.myId :: up).Nodup :=
    List.nodup_cons.mpr ⟨fun hmem => (hup.listed _ hmem).2 rfl, hup.nodup⟩
  have hsub : c.myId :: up ⊆ c.peers.filter P := by
    intro p hp
    obtain rfl | hp := List.mem_cons.mp hp
    · exact List.mem_filter.mpr ⟨hc.self, hself⟩
    · exact List.mem_filter.mpr ⟨(hup.listed p hp).1, hP p hp⟩
  have hlength := (hnodup.subperm hsub).length_le
  rw [List.countP_eq_length_filter]
  simpa [Nat.add_comm] using hlength

/-- With an even number of nodes both thresholds are majorities. -/
lemma exactQuorums_of_even (hc : c.ListsAll) (heven : Even c.peers.length) :
    c.ExactQuorums := by
  have hpos := hc.length_pos
  obtain ⟨m, hm⟩ := heven
  have hneeded : c.votesNeeded = c.majority := by
    unfold votesNeeded majority
    omega
  have helection : ∀ (n : RaftNode) (replies : List RequestVoteReply), n.config = c →
      n.Campaigning → (∀ r ∈ replies, r.term ≤ n.currentTerm) →
      ((n.voteReplies replies).state = .leader ↔
        c.majority ≤ 1 + replies.countP RequestVoteReply.voteGranted) := by
    intro n replies hconfig hcampaign hseen
    have hvotes : n.votesReceived n.currentTerm < n.config.votesNeeded := by
      rw [hcampaign.2, hconfig, hneeded, majority]
      omega
    have hwon := RaftNode.leader_voteReplies_iff hcampaign.1 rfl hvotes hseen
    rwa [hcampaign.2, hconfig, hneeded] at hwon
  have hthreshold : ∀ n : RaftNode, n.config = c → n.commitThreshold = c.majority := by
    rintro n rfl
    exact hneeded
  have hcommit : ∀ (n : RaftNode) (N : ℤ), n.config = c → Countable n N →
      (N ≤ n.commitLoop ↔
        c.majority ≤ c.peers.countP fun p => p = c.myId ∨ N ≤ n.matchIndex p) := by
    intro n N hconfig hN
    rw [← hc.countReplicas hconfig, ← hthreshold n hconfig]
    constructor
    · intro hle
      have hloop := RaftNode.committable_of_ne (hN.beyond.trans_le hle).ne'
      exact hloop.count.trans (RaftNode.countReplicas_anti hle)
    · intro hcount
      exact RaftNode.Committable.le_commitLoop ⟨hN.beyond, hN.inLog, hN.term, hcount⟩
  refine ⟨fun n replies hconfig hcampaign _ => helection n replies hconfig hcampaign, hcommit,
    fun n up reply hconfig hcampaign hup hreply => ?_, fun n N up hconfig hN hup hmatch => ?_⟩
  · have hall : (up.map reply).countP RequestVoteReply.voteGranted = up.length := by
      rw [List.countP_map, List.countP_eq_length]
      exact fun p hp => (hreply p hp).1
    rw [helection n _ hconfig hcampaign (by simpa using fun p hp => (hreply p hp).2), hall,
      majority]
    have hdown := hup.down
    omega
  · rw [hcommit n N hconfig hN]
    refine le_trans ?_ (hup.count_le hc (by simp) fun p hp => by simp [hmatch p hp])
    rw [majority]
    have hdown := hup.down
    omega

/-- A node that is started campaigns after its first timeout. -/
lemma campaign_new (c : ClusterConfig) :
    ∃ n ∈ (RaftNode.new c .genesis).startCampaign, n.Campaigning ∧ n.config = c :=
  RaftNode.startCampaign_spec rfl (by simp [RaftNode.new])

/-- **When quorums are exact majorities**: exactly when the number of nodes is even. -/
theorem exactQuorums_iff (hc : c.ListsAll) : c.ExactQuorums ↔ Even c.peers.length := by
  refine ⟨fun h => ?_, exactQuorums_of_even hc⟩
  have hpos := hc.length_pos
  obtain ⟨n, -, hcampaign, hconfig⟩ := campaign_new c
  -- half of the nodes, rounded down, grant their votes
  have hwon := (h.election n (List.replicate (c.peers.length / 2) ⟨n.currentTerm, true⟩) hconfig
    hcampaign (by rw [List.length_replicate]; omega) (by simp)).mpr
    (by simp [majority, List.countP_replicate, Nat.add_comm])
  have hvotes : n.votesReceived n.currentTerm < n.config.votesNeeded := by
    rw [hcampaign.2, hconfig, votesNeeded]
    omega
  rw [RaftNode.voteReplies, RaftNode.leader_voteReplies_iff hcampaign.1 rfl hvotes (by simp),
    hcampaign.2, hconfig, votesNeeded, List.countP_replicate] at hwon
  rw [Nat.even_iff]
  simp at hwon
  omega

/-- **Two of three votes do not elect.**  One peer has granted its vote, and the candidate goes on
waiting for the other. -/
theorem two_of_three :
    ∃ n ∈ (RaftNode.new ⟨1, [1, 2, 3]⟩ .genesis).startCampaign,
      (n.voteReplies [⟨n.currentTerm, true⟩]).state = .candidate ∧
      ¬ ClusterConfig.ExactQuorums ⟨1, [1, 2, 3]⟩ := by
  obtain ⟨n, hn, hcampaign, hconfig⟩ := campaign_new ⟨1, [1, 2, 3]⟩
  have hvotes : n.votesReceived n.currentTerm + 1 ≠ n.config.votesNeeded := by
    rw [hcampaign.2, hconfig]
    decide
  have hstate : (n.voteReplies [⟨n.currentTerm, true⟩]).state = .candidate := by
    simp [RaftNode.voteReplies, RaftNode.voteReply, RaftNode.countVote, hcampaign.1, hvotes]
  refine ⟨n, hn, hstate, fun h => ?_⟩
  have hwon := (h.election n [⟨n.currentTerm, true⟩] hconfig hcampaign (by simp)
    (by simp)).mpr (by simp [majority])
  rw [hstate] at hwon
  cases hwon

/-- In a cluster of four both thresholds are three. -/
theorem exactQuorums_four : ExactQuorums ⟨1, [1, 2, 3, 4]⟩ :=
  (exactQuorums_iff ⟨by decide, by decide⟩).mpr (by decide)

end ClusterConfig

end RaftConsensus
