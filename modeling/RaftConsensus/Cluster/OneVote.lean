import RaftConsensus.Cluster.VoteDurability

/-!
# One vote per term

A node votes in two places, for itself in `startElection` and for a candidate in
`handleRequestVote`, and `votedFor_` is what keeps it from voting twice in a term.
`becomeFollower` clears it.  That is right where the term is new, which it is in all calls but
one: `handleAppendEntries` also calls it when a candidate or leader hears a leader of its own
term, and the node is then free to vote a second time.

In every run without crashes in which that call is not made (`HearsAsFollower`), a node casts its
votes of one term for one candidate (`one_vote_per_term`).
-/

namespace RaftConsensus

variable {m : Membership} {s t : Cluster} {i : ℤ} {n n' : RaftNode} {h h' : List Event}

/-! ## What each step does to the vote -/

namespace RaftNode

/-- The vote of the present term stays, or the term goes up. -/
def KeepsVote (n n' : RaftNode) : Prop :=
  n'.currentTerm = n.currentTerm ∧ n'.votedFor = n.votedFor ∨ n.currentTerm < n'.currentTerm

lemma keepsVote_of_view (hview : n'.electionView = n.electionView) : KeepsVote n n' := by
  obtain ⟨-, -, hterm, hvote, -, -⟩ := electionView_inj hview
  exact .inl ⟨hterm, hvote⟩

lemma keepsVote_of_follow {T : ℤ} (hT : n.currentTerm < T)
    (hview : n'.electionView = ElectionView.follow n.electionView T) : KeepsVote n n' := by
  have hterm : n'.currentTerm = T := congrArg ElectionView.currentTerm hview
  exact .inr (by rwa [hterm])

lemma keepsVote_receive (n : RaftNode) (dst : ℤ) (req : Request) (rep : Reply) :
    KeepsVote n (n.receive dst req rep) := by
  have hself : KeepsVote n n := .inl ⟨rfl, rfl⟩
  cases req with
  | requestVote args =>
      cases rep with
      | requestVote r =>
          rw [receive]
          rcases voteReply_cases n args.term r with h | ⟨hlt, h⟩ | ⟨hstate, -, -, ⟨-, h⟩ | ⟨-, h⟩⟩
          · rwa [h]
          · exact .inr (by rw [h]; exact hlt)
          · exact .inl (by rw [h]; exact ⟨rfl, rfl⟩)
          · obtain ⟨-, hterm, hvote, -⟩ := becomeLeader_spec (n := n.countVote args.term) hstate
            exact .inl (by rw [h]; exact ⟨hterm, hvote⟩)
      | _ => exact hself
  | appendEntries args =>
      cases rep with
      | appendEntries r =>
          rcases appendEntriesReply_view n dst args r with h | ⟨hlt, h⟩
          · exact keepsVote_of_view h
          · exact keepsVote_of_follow hlt h
      | _ => exact hself
  | installSnapshot args =>
      cases rep with
      | installSnapshot r =>
          rcases installSnapshotReply_view n dst args r with h | ⟨hlt, h⟩
          · exact keepsVote_of_view h
          · exact keepsVote_of_follow hlt h
      | _ => exact hself

/-- A node that hears a leader of its own term as a follower keeps its vote. -/
lemma keepsVote_handleAppendEntries {args : AppendEntriesArgs}
    (hears : args.term = n.currentTerm → n.state = .follower) :
    KeepsVote n (n.handleAppendEntries args).1 := by
  rcases handleAppendEntries_view n args with h | ⟨hle, h⟩
  · exact keepsVote_of_view (by rw [h])
  · rcases acceptLeader_view n args.term args.leaderId hle with ⟨hview, -⟩ | ⟨hview, hT⟩
    · exact keepsVote_of_view (h.trans hview)
    · rcases hT with hlt | ⟨heq, hstate⟩
      · exact keepsVote_of_follow hlt (h.trans hview)
      · exact absurd (hears heq) hstate

lemma keepsVote_handleInstallSnapshot (n : RaftNode) (args : InstallSnapshotArgs) :
    KeepsVote n (n.handleInstallSnapshot args).1 := by
  rcases handleInstallSnapshot_view n args with h | ⟨hlt, h⟩
  · exact keepsVote_of_view h
  · exact keepsVote_of_follow hlt h

end RaftNode

/-! ## The invariant -/

/-- **The votes of node `i`**: none is of a later term than the node is in, and one of the present
term is the one it remembers. -/
structure OneVote (h : List Event) (i : ℤ) (n : RaftNode) : Prop where
  real : ∀ T c, Voted h i T c → c ≠ -1
  held : ∀ T c, Voted h i T c → T < n.currentTerm ∨ T = n.currentTerm ∧ n.votedFor = c
  unique : ∀ T c c', Voted h i T c → Voted h i T c' → c = c'

namespace OneVote

lemma keeps (hv : OneVote h i n) (hkeeps : n.KeepsVote n') : OneVote h i n' where
  real := hv.real
  held T c hvoted := by
    rcases hv.held T c hvoted with hlt | ⟨heq, hvote⟩
    · rcases hkeeps with ⟨hterm, -⟩ | hT
      · exact .inl (by rwa [hterm])
      · exact .inl (hlt.trans hT)
    · rcases hkeeps with ⟨hterm, hsame⟩ | hT
      · exact .inr ⟨by rw [hterm, heq], by rw [hsame, hvote]⟩
      · exact .inl (by rwa [heq])
  unique := hv.unique

/-- Votes of other nodes do not matter. -/
lemma of_events (hv : OneVote h i n) (hev : ∀ T c, Voted h' i T c → Voted h i T c) :
    OneVote h' i n :=
  ⟨fun T c hc => hv.real T c (hev T c hc), fun T c hc => hv.held T c (hev T c hc),
    fun T c c' hc hc' => hv.unique T c c' (hev T c hc) (hev T c' hc')⟩

/-- A vote for `c` in term `T` that is newer than the present one or still free. -/
lemma vote (hv : OneVote h i n) {T c : ℤ} (hc : c ≠ -1)
    (hfree : n.currentTerm < T ∨ n.currentTerm = T ∧ (n.votedFor = -1 ∨ n.votedFor = c))
    (hterm : n'.currentTerm = T) (hvote : n'.votedFor = c)
    (hev : ∀ T' c', Voted h' i T' c' → T' = T ∧ c' = c ∨ Voted h i T' c') : OneVote h' i n' := by
  -- an earlier vote is of an earlier term, or the same vote
  have hsame : ∀ T' c', Voted h i T' c' → T' < T ∨ T' = T ∧ c' = c := by
    intro T' c' hvoted
    rcases hv.held T' c' hvoted with hlt | ⟨heq, hheld⟩
    · rcases hfree with hT | ⟨hT, -⟩
      · exact .inl (hlt.trans hT)
      · exact .inl (hT ▸ hlt)
    · rcases hfree with hT | ⟨hT, hnone | hsame⟩
      · exact .inl (heq ▸ hT)
      · exact absurd (hheld.symm.trans hnone) (hv.real T' c' hvoted)
      · exact .inr ⟨heq.trans hT, hheld.symm.trans hsame⟩
  have hcases : ∀ T' c', Voted h' i T' c' → T' < T ∧ Voted h i T' c' ∨ T' = T ∧ c' = c := by
    intro T' c' hvoted
    rcases hev T' c' hvoted with heq | hold
    · exact .inr heq
    · exact (hsame T' c' hold).imp_left fun hlt => ⟨hlt, hold⟩
  refine ⟨fun T' c' hvoted => ?_, fun T' c' hvoted => ?_, fun T' c₁ c₂ h₁ h₂ => ?_⟩
  · rcases hcases T' c' hvoted with ⟨-, hold⟩ | ⟨-, rfl⟩
    · exact hv.real T' c' hold
    · exact hc
  · rw [hterm, hvote]
    rcases hcases T' c' hvoted with ⟨hlt, -⟩ | ⟨rfl, rfl⟩
    · exact .inl hlt
    · exact .inr ⟨rfl, rfl⟩
  · rcases hcases T' c₁ h₁ with ⟨hlt, g₁⟩ | ⟨heq, rfl⟩ <;>
      rcases hcases T' c₂ h₂ with ⟨hlt', g₂⟩ | ⟨heq', rfl⟩
    · exact hv.unique T' c₁ c₂ g₁ g₂
    · omega
    · omega
    · rfl

end OneVote

/-! ## Runs -/

/-- The `AppendEntries` message a call carries. -/
def Call.appendEntries? (c : Call) : Option AppendEntriesArgs :=
  match c.request with
  | .appendEntries args => some args
  | _ => none

/-- **The steps that cannot free a vote.**  No process crashes, and a node that hears a leader of
its own term is a follower. -/
def HearsAsFollower (s : Cluster) : Label → Prop
  | .handle k =>
      ∀ c ∈ s.calls k, ∀ args ∈ c.appendEntries?,
        args.term = (s.nodes c.dst).currentTerm → (s.nodes c.dst).state = .follower
  | .crash _ => False
  | _ => True

instance (s : Cluster) : DecidablePred (HearsAsFollower s)
  | .handle k => inferInstanceAs (Decidable (∀ c ∈ s.calls k, ∀ args ∈ c.appendEntries?, _))
  | .crash _ => isFalse id
  | .thread _ _ | .reply _ | .fail _ => isTrue trivial

/-- Every node votes once in a term. -/
def OneVoteInv (s : Cluster) : Prop := ∀ i, OneVote s.history i (s.nodes i)

lemma OneVoteInv.of_node (hv : OneVoteInv s) (hnodes : t.nodes = Function.update s.nodes i n)
    (hnode : OneVote t.history i n)
    (hev : ∀ j, j ≠ i → ∀ T c, Voted t.history j T c → Voted s.history j T c) :
    OneVoteInv t :=
  Cluster.forall_nodes hnodes hnode fun j hj => (hv j).of_events (hev j hj)

/-- Events that are no votes of node `j` do not count for it. -/
lemma voted_of_append {es : List Event} {j T c : ℤ} (hes : ¬ Voted es j T c)
    (hvoted : Voted (es ++ h) j T c) : Voted h j T c := by
  rcases hvoted with ⟨rfl, hmem⟩ | hmem
  · rcases List.mem_append.mp hmem with hnew | hold
    · exact absurd (.inl ⟨rfl, hnew⟩) hes
    · exact .inl ⟨rfl, hold⟩
  · rcases List.mem_append.mp hmem with hnew | hold
    · exact absurd (.inr hnew) hes
    · exact .inr hold

/-- Receiving an answer is no vote. -/
lemma not_voted_replyEvents {j T c : ℤ} : ¬ Voted (Cluster.replyEvents i n n') j T c := by
  rintro (⟨-, hmem⟩ | hmem)
  · rw [Cluster.replyEvents, List.mem_append] at hmem
    rcases hmem with hmem | hmem
    · split at hmem <;> simp at hmem
    · split at hmem <;> simp at hmem
  · exact granted_notMem_replyEvents hmem

lemma OneVoteInv.thread (hr : Routed m s) (hv : OneVoteInv s) (hi : i ∈ m.ids) {a : ThreadStep}
    {out : Output} (hmove : (s.nodes i).Move s.nextCall a n out) :
    OneVoteInv (((s.setNode i n).emit i out).record
      (Cluster.threadEvents i a (s.nodes i) n out)) := by
  by_cases ha : a = .startElection
  · subst ha
    cases hmove with
    | startElection hdue =>
        have hcases : ∀ j T c, Voted (Event.selfVote i ((s.nodes i).currentTerm + 1) :: s.history)
            j T c → j = i ∧ T = (s.nodes i).currentTerm + 1 ∧ c = i ∨ Voted s.history j T c := by
          rintro j T c (⟨rfl, hmem⟩ | hmem)
          · rcases List.mem_cons.mp hmem with heq | hmem
            · cases heq
              exact .inl ⟨rfl, rfl, rfl⟩
            · exact .inr (.inl ⟨rfl, hmem⟩)
          · rcases List.mem_cons.mp hmem with heq | hmem
            · cases heq
            · exact .inr (.inr hmem)
        refine hv.of_node (i := i) rfl ?_ fun j hj T c hvoted => ?_
        · refine (hv i).vote (m.ne_sentinel hi) (.inl (lt_add_one _)) rfl (hr.nodes i).myId ?_
          intro T c hvoted
          exact (hcases i T c hvoted).imp_left And.right
        · rcases hcases j T c hvoted with ⟨h, -⟩ | hold
          · exact absurd h hj
          · exact hold
  · have hev : ∀ j T c, Voted (Cluster.threadEvents i a (s.nodes i) n out ++ s.history) j T c →
        Voted s.history j T c :=
      fun j T c => voted_of_append (Cluster.not_voted_of_quiet (quiet_threadEvents ha))
    refine hv.of_node (i := i) (n := n) (by simp) ?_ (by simpa using fun j _ => hev j)
    refine OneVote.of_events ?_ (by simpa using hev i)
    refine (hv i).keeps ?_
    cases hmove with
    | startElection => exact absurd rfl ha
    | _ => exact .inl ⟨rfl, rfl⟩

lemma OneVoteInv.handle (hr : Routed m s) (hv : OneVoteInv s) {k : ℕ} {src dst : ℤ}
    {request : Request} {alive : Bool}
    (hcall : s.calls k = some ⟨src, dst, request, none, alive⟩)
    (hears : HearsAsFollower s (.handle k)) :
    OneVoteInv (((s.setNode dst ((s.nodes dst).handle request).1).setCall k
      (some ⟨src, dst, request, some ((s.nodes dst).handle request).2, alive⟩)).record
        (Cluster.handleEvents dst request ((s.nodes dst).handle request).2)) := by
  have hroute := hr.calls k _ hcall
  cases request with
  | appendEntries args =>
      refine hv.of_node (i := dst) rfl ((hv dst).keeps ?_) fun j _ T c hvoted => hvoted
      exact RaftNode.keepsVote_handleAppendEntries (hears _ hcall args rfl)
  | installSnapshot args =>
      refine hv.of_node (i := dst) rfl ((hv dst).keeps ?_) fun j _ T c hvoted => hvoted
      exact RaftNode.keepsVote_handleInstallSnapshot (s.nodes dst) args
  | requestVote args =>
      have hcand : args.candidateId = src := hroute.candidate args rfl
      have hseen : (s.nodes dst).KeepsVote ((s.nodes dst).seeTerm args.term) := by
        rcases RaftNode.seeTerm_view (s.nodes dst) args.term with h | ⟨hlt, h⟩
        · exact RaftNode.keepsVote_of_view h
        · exact RaftNode.keepsVote_of_follow hlt h
      rcases RaftNode.handleRequestVote_cases (s.nodes dst) args with
        hold | ⟨-, hterm, ⟨⟨hfree, -⟩, hnode, hreply⟩ | hrefused⟩
      · refine hv.of_node (i := dst) rfl ?_ fun j _ T c hvoted => ?_
        · simp only [RaftNode.handle, hold]
          exact hv dst
        · simpa [RaftNode.handle, hold, Cluster.handleEvents] using hvoted
      · have hcases : ∀ j T c, Voted (Event.granted dst args.term args.candidateId :: s.history)
            j T c → j = dst ∧ T = args.term ∧ c = args.candidateId ∨ Voted s.history j T c := by
          rintro j T c (⟨rfl, hmem⟩ | hmem)
          · rcases List.mem_cons.mp hmem with heq | hmem
            · cases heq
            · exact .inr (.inl ⟨rfl, hmem⟩)
          · rcases List.mem_cons.mp hmem with heq | hmem
            · cases heq
              exact .inl ⟨rfl, rfl, rfl⟩
            · exact .inr (.inr hmem)
        refine hv.of_node (i := dst) rfl ?_ fun j hj T c hvoted => ?_
        · simp only [RaftNode.handle, hnode, hreply, Cluster.handleEvents, if_true,
            Cluster.record_history, List.singleton_append]
          refine ((hv dst).keeps hseen).vote ?_ (.inr ⟨hterm, hfree⟩) hterm rfl ?_
          · rw [hcand]
            exact m.ne_sentinel hroute.src_mem
          · exact fun T c hvoted => (hcases dst T c hvoted).imp_left And.right
        · simp only [RaftNode.handle, hreply, Cluster.handleEvents, if_true,
            Cluster.record_history, List.singleton_append] at hvoted
          rcases hcases j T c hvoted with ⟨h, -⟩ | hold
          · exact absurd h hj
          · exact hold
      · refine hv.of_node (i := dst) rfl ?_ fun j _ T c hvoted => ?_
        · simp only [RaftNode.handle, hrefused]
          exact (hv dst).keeps hseen
        · simpa [RaftNode.handle, hrefused, Cluster.handleEvents] using hvoted

/-- **Every step that does not free a vote keeps a node to its votes.** -/
theorem OneVoteInv.step (hr : Routed m s) (hv : OneVoteInv s) {l : Label}
    (hears : HearsAsFollower s l) (hmove : s.Move m.ids l t) : OneVoteInv t := by
  cases hmove with
  | thread hi hmove => exact hv.thread hr hi hmove
  | handle hcall => exact hv.handle hr hcall hears
  | @reply k src dst request reply hcall =>
      have hev : ∀ j T c, Voted (Cluster.replyEvents src (s.nodes src)
          ((s.nodes src).receive dst request reply) ++ s.history) j T c → Voted s.history j T c :=
        fun j T c => voted_of_append not_voted_replyEvents
      refine hv.of_node (i := src) rfl (OneVote.of_events ?_ (hev src)) fun j _ => hev j
      exact (hv src).keeps (RaftNode.keepsVote_receive (s.nodes src) dst request reply)
  | @fail k src dst request reply hcall =>
      refine hv.of_node (i := src) rfl ((hv src).keeps ?_) fun j _ T c hvoted => hvoted
      exact RaftNode.keepsVote_of_view (RaftNode.abandon_view _ _ _)
  | crash => exact hears.elim

lemma oneVoteInv_init (members : List ℤ) (stores : ℤ → RocksDBStore) :
    OneVoteInv (.init members stores) := fun i =>
  have hnone : ∀ T c, ¬ Voted (Cluster.init members stores).history i T c := by
    simp [Voted, Cluster.init]
  ⟨fun T c hc => absurd hc (hnone T c), fun T c hc => absurd hc (hnone T c),
    fun T c _ hc => absurd hc (hnone T c)⟩

/-- The runs in which no vote is freed. -/
def FaithfulRun (members : List ℤ) : Cluster → List Label → Cluster → Prop :=
  Transition.Run (Cluster.step members) HearsAsFollower

lemma OneVoteInv.run (hr : Routed m s) (hv : OneVoteInv s) {ls : List Label}
    (hrun : FaithfulRun m.ids s ls t) : Routed m t ∧ OneVoteInv t := by
  induction hrun with
  | nil => exact ⟨hr, hv⟩
  | snoc _ hears hstep ih =>
      have hmove := Cluster.move_of_step hstep
      exact ⟨ih.1.step hmove, ih.2.step ih.1 hears hmove⟩

/-- **One vote per term.**  In every run without crashes in which no candidate or leader handles an
`AppendEntries` of its own term, two votes of a node in one term, for itself or granted to another
node, are for the same candidate. -/
theorem one_vote_per_term (m : Membership) (stores : ℤ → RocksDBStore) {ls : List Label}
    (hrun : FaithfulRun m.ids (.init m.ids stores) ls t) (v T c c' : ℤ)
    (hvoted : Voted t.history v T c) (hvoted' : Voted t.history v T c') : c = c' :=
  (((oneVoteInv_init m.ids stores).run (routed_init stores) hrun).2 v).unique T c c' hvoted hvoted'

/-- Node `2` of a pair votes for itself in the first term and for node `1` in the second. -/
theorem one_vote_per_term_pair :
    ∃ s, FaithfulRun pair.ids (.init pair.ids fun _ => RocksDBStore.genesis)
        (campaign 1 1 ++ campaign 2 1 ++ [.handle 0] ++ campaign 1 1 ++ [.handle 2]) s ∧
      Voted s.history 2 1 2 ∧ ∀ c, Voted s.history 2 1 c → c = 2 := by
  have hvotes : ∃ s, FaithfulRun pair.ids (.init pair.ids fun _ => RocksDBStore.genesis)
      (campaign 1 1 ++ campaign 2 1 ++ [.handle 0] ++ campaign 1 1 ++ [.handle 2]) s ∧
        .selfVote 2 1 ∈ s.history :=
    run_of_after (by decide +kernel)
  obtain ⟨s, hrun, hself⟩ := hvotes
  have hvoted : Voted s.history 2 1 2 := .inl ⟨rfl, hself⟩
  exact ⟨s, hrun, hvoted, fun c hc => one_vote_per_term pair _ hrun 2 1 c 2 hc hvoted⟩

/-- Nodes `1` and `2` of four stand in the first term.  Node `2` wins with the votes of nodes `3`
and `4` and makes node `1` step down; its request for the vote of node `1` arrives after that. -/
def lateRequest : List Label :=
  campaign 1 3 ++ campaign 2 3 ++ [.handle 4, .handle 5, .reply 4, .reply 5,
    .thread 2 (.replicateAtomic 1), .handle 6, .handle 3]

/-- **A candidate that is made to step down in its own term votes a second time.** -/
theorem candidate_votes_twice :
    ∃ s, CrashFreeRun [1, 2, 3, 4] (.init [1, 2, 3, 4] fun _ => RocksDBStore.genesis)
        lateRequest s ∧ .selfVote 1 1 ∈ s.history ∧ .granted 1 1 2 ∈ s.history :=
  run_of_after (by decide +kernel)

end RaftConsensus
