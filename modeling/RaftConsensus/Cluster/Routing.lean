import Mathlib.Data.Finset.Card
import RaftConsensus.Cluster.ElectionView

/-!
# Members, and who talks to whom

`Routed` is the invariant that every node keeps the configuration `main` gave it, that its threads
work for other members only, and that every remote call is between two different members and,
when it asks for a vote, asks in the name of its sender.  It holds in every run, with or without
crashes.
-/

namespace RaftConsensus

/-! ## Members -/

/-- The ids of the nodes of a cluster.  None of them is `-1`, which stands for "no vote". -/
structure Membership where
  ids : List ℤ
  nodup : ids.Nodup
  noSentinel : -1 ∉ ids

namespace Membership

variable {m : Membership}

/-- More than half of the members. -/
def Quorum (m : Membership) (A : Finset ℤ) : Prop :=
  A ⊆ m.ids.toFinset ∧ m.ids.length < 2 * A.card

/-- Two quorums share a member. -/
lemma quorum_inter (A B : Finset ℤ) (hA : m.Quorum A) (hB : m.Quorum B) : ∃ v ∈ A, v ∈ B := by
  have hcard : m.ids.toFinset.card < A.card + B.card := by
    have := m.ids.toFinset_card_le
    have := hA.2
    have := hB.2
    omega
  obtain ⟨v, hv⟩ := Finset.inter_nonempty_of_card_lt_card_add_card hA.1 hB.1 hcard
  exact ⟨v, (Finset.mem_inter.mp hv).1, (Finset.mem_inter.mp hv).2⟩

lemma ne_sentinel (m : Membership) {i : ℤ} (hi : i ∈ m.ids) : i ≠ -1 := by
  rintro rfl
  exact m.noSentinel hi

/-- The configuration `main` gives to member `i`. -/
def config (m : Membership) (i : ℤ) : ClusterConfig := ⟨i, m.ids⟩

lemma mem_peerStubs {i p : ℤ} : p ∈ (m.config i).peerStubs ↔ p ∈ m.ids ∧ p ≠ i := by
  rw [ClusterConfig.peerStubs, List.mem_dedup, List.mem_filter]
  exact and_congr_right fun _ => decide_eq_true_iff

/-- The votes a candidate needs are more than half of the members. -/
lemma quorum_of_votesNeeded {i : ℤ} {A : Finset ℤ} (hA : A ⊆ m.ids.toFinset)
    (hcard : (m.config i).votesNeeded ≤ A.card) : m.Quorum A := by
  refine ⟨hA, ?_⟩
  simp only [ClusterConfig.votesNeeded, config] at hcard
  omega

end Membership

/-! ## The invariant -/

/-- The peers an election thread has still to ask. -/
def ElectionThread.targets : ElectionThread → List ℤ
  | .sending _ targets => targets
  | _ => []

@[simp] lemma ElectionThread.targets_next (saved : SavedElection) (ts : List ℤ) :
    (ElectionThread.next saved ts).targets = ts := by
  cases ts <;> rfl

/-- Node `i` has its configuration, and its threads work for other members. -/
structure RaftNode.Routed (m : Membership) (i : ℤ) (n : RaftNode) : Prop where
  config : n.config = m.config i
  targets : ∀ p ∈ n.election.targets, p ∈ m.ids ∧ p ≠ i
  workers : ∀ p, n.workers p ≠ .idle → p ∈ m.ids ∧ p ≠ i

/-- A call is between two different members, and asks for votes in the name of its sender. -/
structure Call.Routed (m : Membership) (c : Call) : Prop where
  src_mem : c.src ∈ m.ids
  dst_mem : c.dst ∈ m.ids
  dst_ne : c.dst ≠ c.src
  candidate : ∀ args, c.request = .requestVote args → args.candidateId = c.src

/-- **Nodes and calls stay where they belong.** -/
structure Routed (m : Membership) (s : Cluster) : Prop where
  nodes : ∀ i, (s.nodes i).Routed m i
  calls : ∀ k c, s.calls k = some c → c.Routed m

variable {m : Membership} {s t : Cluster} {i : ℤ} {n n' : RaftNode}

namespace RaftNode.Routed

/-- There are stubs exactly for the other members. -/
lemma mem_stubs (hn : n.Routed m i) {p : ℤ} : p ∈ n.config.peerStubs ↔ p ∈ m.ids ∧ p ≠ i := by
  rw [hn.config]
  exact Membership.mem_peerStubs

lemma myId (hn : n.Routed m i) : n.config.myId = i := by
  rw [hn.config]
  rfl

lemma setWorker (hn : n.Routed m i) {p : ℤ} {w : Worker} (hp : w ≠ .idle → p ∈ m.ids ∧ p ≠ i) :
    (n.setWorker p w).Routed m i := by
  refine { hn with workers := fun q hq => ?_ }
  by_cases hqp : q = p
  · subst hqp
    exact hp (by simpa [RaftNode.setWorker] using hq)
  · exact hn.workers q (by simpa [RaftNode.setWorker, hqp] using hq)

/-- Threads that do not move, or end, stay where they belong. -/
lemma of_threads (hn : n.Routed m i) (hconfig : n'.config = n.config)
    (helection : n'.election = n.election)
    (hworkers : ∀ p, n'.workers p = n.workers p ∨ n'.workers p = .idle) : n'.Routed m i := by
  refine ⟨hconfig.trans hn.config, by rw [helection]; exact hn.targets, fun p hp => ?_⟩
  rcases hworkers p with h | h
  · exact hn.workers p (by rwa [← h])
  · exact absurd h hp

/-- Thread steps keep a node routed. -/
lemma move {call : ℕ} {a : ThreadStep} {out : Output} (hn : n.Routed m i)
    (hmove : n.Move call a n' out) : n'.Routed m i := by
  have hbusy : ∀ {p w}, n.workers p = w → w ≠ .idle → p ∈ m.ids ∧ p ≠ i := by
    intro p w hw hne
    exact hn.workers p (by rw [hw]; exact hne)
  cases hmove with
  | electionTimeout => exact { hn with targets := by simp [ElectionThread.targets] }
  | startElection => exact { hn with targets := by simp [ElectionThread.targets] }
  | evalHardState => exact { hn with targets := by simp [ElectionThread.targets] }
  | saveHardState =>
      refine { hn with targets := fun p hp => ?_ }
      rw [ElectionThread.targets_next] at hp
      exact hn.mem_stubs.mp hp
  | sendRequestVote hsending =>
      refine { hn with targets := fun p hp => hn.targets p ?_ }
      rw [ElectionThread.targets_next] at hp
      rw [hsending]
      exact List.mem_cons_of_mem _ hp
  | replicateBegin hmay => exact hn.setWorker fun _ => hn.mem_stubs.mp hmay.1
  | replicateCheckMissing hw => exact hn.setWorker fun _ => hbusy hw (by simp)
  | replicateCheck hw => exact hn.setWorker fun _ => hbusy hw (by simp)
  | replicateLockDeposed hw => exact hn.setWorker fun h => absurd rfl h
  | replicateLock hw => exact hn.setWorker fun _ => hbusy hw (by simp)
  | replicatePrevTerm hw => exact hn.setWorker fun _ => hbusy hw (by simp)
  | replicateRead hw => exact hn.setWorker fun _ => hbusy hw (by simp)
  | replicateSend hw => exact hn.setWorker fun _ => hbusy hw (by simp)
  | replicateAtomicMissing hmay => exact hn.setWorker fun _ => hn.mem_stubs.mp hmay.1
  | replicateAtomic hmay => exact hn.setWorker fun _ => hn.mem_stubs.mp hmay.1
  | dumpSnapshot hw => exact hn.setWorker fun _ => hbusy hw (by simp)
  | stampSnapshot hw => exact hn.setWorker fun _ => hbusy hw (by simp)
  | sendSnapshot hw => exact hn.setWorker fun _ => hbusy hw (by simp)
  | _ => exact { hn with }

/-- A call a thread step sends is routed. -/
lemma call {call : ℕ} {a : ThreadStep} {out : Output} (hn : n.Routed m i) (hi : i ∈ m.ids)
    (hmove : n.Move call a n' out) {dst : ℤ} {request : Request}
    (hout : out = .call dst request) : Call.Routed m ⟨i, dst, request, none, true⟩ := by
  cases hmove with
  | sendRequestVote hsending =>
      cases hout
      obtain ⟨hp, hne⟩ := hn.targets dst (by rw [hsending]; exact List.mem_cons_self)
      refine ⟨hi, hp, hne, fun args hargs => ?_⟩
      cases hargs
      exact hn.myId
  | replicateSend hw =>
      cases hout
      obtain ⟨hp, hne⟩ := hn.workers dst (by rw [hw]; simp)
      exact ⟨hi, hp, hne, by simp⟩
  | replicateAtomic hmay =>
      cases hout
      obtain ⟨hp, hne⟩ := hn.mem_stubs.mp hmay.1
      exact ⟨hi, hp, hne, by simp⟩
  | sendSnapshot hw =>
      cases hout
      obtain ⟨hp, hne⟩ := hn.workers dst (by rw [hw]; simp)
      exact ⟨hi, hp, hne, by simp⟩
  | notifyClient =>
      cases h : n.pendingCallbacks _ with
      | none =>
          rw [h] at hout
          cases hout
      | some cb =>
          rw [h] at hout
          cases hout
  | _ => cases hout

/-- Handlers keep a node routed. -/
lemma handle (hn : n.Routed m i) (req : Request) : (n.handle req).1.Routed m i := by
  obtain ⟨hconfig, -, -, -, -, helection, hworkers, -, -⟩ :=
    RaftNode.threads_inj (RaftNode.handle_threads n req)
  exact hn.of_threads hconfig helection fun p => .inl (by rw [hworkers])

end RaftNode.Routed

/-- A thread that ends leaves the others alone. -/
lemma workers_update_idle {w : ℤ → Worker} {q : ℤ} (p : ℤ) :
    Function.update w q .idle p = w p ∨ Function.update w q .idle p = .idle := by
  by_cases h : p = q
  · subst h
    exact .inr (Function.update_self _ _ _)
  · exact .inl (Function.update_of_ne h _ _)

/-- What receiving an answer does to the threads: it may end the one that waited for it. -/
lemma RaftNode.receive_threads (n : RaftNode) (dst : ℤ) (req : Request) (rep : Reply) :
    (n.receive dst req rep).config = n.config ∧ (n.receive dst req rep).election = n.election ∧
      ∀ p, (n.receive dst req rep).workers p = n.workers p ∨
        (n.receive dst req rep).workers p = .idle := by
  have hself : n.config = n.config ∧ n.election = n.election ∧
      ∀ p, n.workers p = n.workers p ∨ n.workers p = .idle := ⟨rfl, rfl, fun _ => .inl rfl⟩
  cases req with
  | requestVote args =>
      cases rep with
      | requestVote r =>
          rcases voteReply_cases n args.term r with h | ⟨-, h⟩ | ⟨hstate, -, -, ⟨-, h⟩ | ⟨-, h⟩⟩
          · rwa [receive, h]
          · rwa [receive, h]
          · rwa [receive, h]
          · obtain ⟨-, -, -, hconfig, helection, hworkers, -, -⟩ :=
              becomeLeader_spec (n := n.countVote args.term) hstate
            rw [receive, h]
            exact ⟨hconfig, helection, fun p => .inl (by rw [hworkers]; rfl)⟩
      | appendEntries r => exact hself
      | installSnapshot r => exact hself
  | appendEntries args =>
      cases rep with
      | requestVote r => exact hself
      | appendEntries r =>
          have hw := appendEntriesReply_workers n dst args r
          rcases appendEntriesReply_view n dst args r with hv | ⟨-, hv⟩
          · exact ⟨congrArg ElectionView.config hv, congrArg ElectionView.election hv,
              fun p => by rw [receive, hw]; exact workers_update_idle p⟩
          · exact ⟨congrArg ElectionView.config hv, congrArg ElectionView.election hv,
              fun p => by rw [receive, hw]; exact workers_update_idle p⟩
      | installSnapshot r => exact hself
  | installSnapshot args =>
      cases rep with
      | requestVote r => exact hself
      | appendEntries r => exact hself
      | installSnapshot r =>
          have hw := installSnapshotReply_workers n dst args r
          rcases installSnapshotReply_view n dst args r with hv | ⟨-, hv⟩
          · exact ⟨congrArg ElectionView.config hv, congrArg ElectionView.election hv,
              fun p => by rw [receive, hw]; exact workers_update_idle p⟩
          · exact ⟨congrArg ElectionView.config hv, congrArg ElectionView.election hv,
              fun p => by rw [receive, hw]; exact workers_update_idle p⟩

lemma RaftNode.abandon_workers (n : RaftNode) (dst : ℤ) (req : Request) (p : ℤ) :
    (n.abandon dst req).workers p = n.workers p ∨ (n.abandon dst req).workers p = .idle := by
  cases req with
  | requestVote args => exact .inl rfl
  | appendEntries args => exact workers_update_idle p
  | installSnapshot args => exact workers_update_idle p

namespace Routed

lemma of_node (hr : Routed m s) (hnodes : t.nodes = Function.update s.nodes i n)
    (hnode : n.Routed m i) (hcalls : ∀ k c, t.calls k = some c → c.Routed m) : Routed m t :=
  ⟨Cluster.forall_nodes (P := fun j n => n.Routed m j) hnodes hnode fun j _ => hr.nodes j, hcalls⟩

lemma calls_update (hr : Routed m s) {k : ℕ} {c' : Option Call}
    (hc' : ∀ c, c' = some c → c.Routed m) :
    ∀ k' c, Function.update s.calls k c' k' = some c → c.Routed m := by
  intro k' c hc
  by_cases hk : k' = k
  · subst hk
    exact hc' c (by simpa using hc)
  · exact hr.calls k' c (by simpa [hk] using hc)

/-- **Every step keeps nodes and calls routed.** -/
theorem step (hr : Routed m s) {l : Label} (hmove : s.Move m.ids l t) : Routed m t := by
  cases hmove with
  | @thread i a n out hi hmove =>
      refine hr.of_node (i := i) (n := n) (by simp) ((hr.nodes i).move hmove) fun k c hc => ?_
      rcases Cluster.emit_calls _ hc with ⟨hold, -⟩ | ⟨dst, request, hout, -, rfl⟩
      · exact hr.calls k c hold
      · exact (hr.nodes i).call hi hmove hout
  | @handle k src dst request alive hcall =>
      refine hr.of_node (i := dst) rfl ((hr.nodes dst).handle request) (hr.calls_update ?_)
      rintro c ⟨⟩
      exact { hr.calls k _ hcall with }
  | @reply k src dst request reply hcall =>
      obtain ⟨hconfig, helection, hworkers⟩ :=
        RaftNode.receive_threads (s.nodes src) dst request reply
      exact hr.of_node (i := src) rfl
        ((hr.nodes src).of_threads hconfig helection hworkers) (hr.calls_update (by simp))
  | @fail k src dst request reply hcall =>
      obtain ⟨hconfig, -, -, -, helection, -⟩ :=
        RaftNode.electionView_inj (RaftNode.abandon_view (s.nodes src) dst request)
      refine hr.of_node (i := src) rfl ((hr.nodes src).of_threads hconfig helection
        (RaftNode.abandon_workers _ _ _)) (hr.calls_update ?_)
      rintro c ⟨⟩
      exact { hr.calls k _ hcall with }
  | @crash i hi =>
      refine hr.of_node (i := i) rfl ⟨(hr.nodes i).config, ?_, fun p hp => absurd rfl hp⟩
        fun k c hc => ?_
      · simp [RaftNode.restart, RaftNode.new, ElectionThread.targets]
      · obtain ⟨c₀, hc₀, rfl⟩ := Option.map_eq_some_iff.mp hc
        have hold := hr.calls k c₀ hc₀
        split
        · exact { hold with }
        · exact hold

end Routed

theorem routed_init (stores : ℤ → RocksDBStore) : Routed m (Cluster.init m.ids stores) where
  nodes i := ⟨rfl, by simp [Cluster.init, RaftNode.new, ElectionThread.targets],
    fun p hp => absurd rfl hp⟩
  calls := by simp [Cluster.init]

end RaftConsensus
