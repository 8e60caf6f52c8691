import RaftConsensus.Cluster.Elections
import RaftConsensus.Storage.Genesis

/-!
# Election safety

`ElectionInv` holds in the initial cluster and is kept by every step but a crash.  So in a run
without crashes, whatever the order of steps and whatever happens to messages, two nodes that are
leaders with the same term, at the same or at different times, are the same node.
-/

namespace RaftConsensus

variable {m : Membership} {s t : Cluster} {i : ℤ} {n : RaftNode} {es : List Event}

/-! ## Replacing one node -/

/-- The invariant after a change of one node, from what has to be checked of that node and of the
calls. -/
lemma ElectionInv.of_node (hinv : ElectionInv m s)
    (hnodes : t.nodes = Function.update s.nodes i n) (hsub : s.history ⊆ t.history)
    (hvoting : Voting.Inv m.Quorum t.voting) (hnode : NodeOk t.history i n)
    (hcalls : ∀ k c, t.calls k = some c → CallOk t.history c)
    (hfresh : ∀ k, t.nextCall ≤ k → t.calls k = none)
    (htally : ∀ T, Tally m t.history t.calls i n T) (honce : AskedOnce t.calls i n)
    (hle : ∀ j, j ≠ i → AskLe t.calls s.calls j) : ElectionInv m t := by
  have hall := Cluster.forall_nodes hnodes
    (P := fun j n => NodeOk t.history j n ∧ (∀ T, Tally m t.history t.calls j n T) ∧
      AskedOnce t.calls j n)
    ⟨hnode, htally, honce⟩ fun j hj =>
      ⟨(hinv.nodes j).mono hsub, fun T => (hinv.tally j T).of_still hsub (hle j hj) rfl rfl,
        (hinv.once j).of_le (hle j hj) rfl⟩
  exact ⟨hvoting, fun j => (hall j).1, hcalls, hfresh, fun j => (hall j).2.1,
    fun j => (hall j).2.2⟩

/-- The same when the election thread and the counters of the node have not moved either. -/
lemma ElectionInv.of_still (hinv : ElectionInv m s)
    (hnodes : t.nodes = Function.update s.nodes i n) (hsub : s.history ⊆ t.history)
    (hvoting : Voting.Inv m.Quorum t.voting) (hnode : NodeOk t.history i n)
    (hcalls : ∀ k c, t.calls k = some c → CallOk t.history c)
    (hfresh : ∀ k, t.nextCall ≤ k → t.calls k = none)
    (hvotes : n.votesReceived = (s.nodes i).votesReceived)
    (helection : n.election = (s.nodes i).election)
    (hle : ∀ j, AskLe t.calls s.calls j) : ElectionInv m t :=
  hinv.of_node hnodes hsub hvoting hnode hcalls hfresh
    (fun T => (hinv.tally i T).of_still hsub (hle i) hvotes helection)
    ((hinv.once i).of_le (hle i) helection) fun j _ => hle j

lemma NodeOk.setWorker {h : List Event} (hn : NodeOk h i n) {p : ℤ} {w : Worker}
    (hb : ∀ b, w.batch? = some b → .elected i b.term ∈ h) : NodeOk h i (n.setWorker p w) := by
  refine { hn with batch := fun q b hqb => ?_ }
  by_cases hqp : q = p
  · subst hqp
    exact hb b (by simpa [RaftNode.setWorker] using hqb)
  · exact hn.batch q b (by simpa [RaftNode.setWorker, hqp] using hqb)

/-- A leader has been elected in its term. -/
lemma ElectionInv.elected_of_leader (hinv : ElectionInv m s)
    (hlead : (s.nodes i).state = .leader) : .elected i (s.nodes i).currentTerm ∈ s.history :=
  hinv.voting.leader_won i (by simp [Cluster.voting, hlead, Role.phase])

/-! ## Thread steps outside the election thread -/

section Moves

variable {call : ℕ} {a : ThreadStep} {out : Output}

/-- The node stays as it should be. -/
lemma ElectionInv.node_move (hinv : ElectionInv m s) (ha : ¬ a.ofElection)
    (hmove : (s.nodes i).Move call a n out) : NodeOk s.history i n := by
  have hn := hinv.nodes i
  have hbatch : ∀ {p w b}, (s.nodes i).workers p = w → w.batch? = some b →
      .elected i b.term ∈ s.history := fun hw hb => hn.batch _ _ (by rw [hw]; exact hb)
  cases hmove with
  | electionTimeout => exact absurd trivial ha
  | startElection => exact absurd trivial ha
  | evalHardState => exact absurd trivial ha
  | saveHardState => exact absurd trivial ha
  | sendRequestVote => exact absurd trivial ha
  | replicateBegin => exact hn.setWorker fun b hb => by cases hb
  | replicateCheckMissing => exact hn.setWorker fun b hb => by cases hb
  | replicateCheck => exact hn.setWorker fun b hb => by cases hb
  | replicateLockDeposed => exact hn.setWorker fun b hb => by cases hb
  | replicateLock hw hstate =>
      -- the batch carries the term of the leader that collects it
      refine hn.setWorker fun b hb => ?_
      cases hb
      exact hinv.elected_of_leader hstate
  | replicatePrevTerm hw =>
      refine hn.setWorker fun b hb => ?_
      cases hb
      have hold := hbatch hw rfl
      exact hold
  | replicateRead hw =>
      refine hn.setWorker fun b hb => ?_
      cases hb
      have hold := hbatch hw rfl
      exact hold
  | replicateSend => exact hn.setWorker fun b hb => by cases hb
  | replicateAtomicMissing => exact hn.setWorker fun b hb => by cases hb
  | replicateAtomic => exact hn.setWorker fun b hb => by cases hb
  | dumpSnapshot => exact hn.setWorker fun b hb => by cases hb
  | stampSnapshot => exact hn.setWorker fun b hb => by cases hb
  | sendSnapshot => exact hn.setWorker fun b hb => by cases hb
  | _ => exact { hn with }

/-- A call that is sent is as it should be, and does not ask for votes. -/
lemma ElectionInv.call_move (hinv : ElectionInv m s) (ha : ¬ a.ofElection)
    (hmove : (s.nodes i).Move call a n out) {dst : ℤ} {request : Request}
    (hout : out = .call dst request) :
    CallOk s.history ⟨i, dst, request, none, true⟩ ∧ ∀ args, request ≠ .requestVote args := by
  cases hmove with
  | sendRequestVote => exact absurd trivial ha
  | replicateSend hw =>
      cases hout
      exact ⟨(hinv.nodes i).batch _ _ (by rw [hw]; rfl), by simp⟩
  | replicateAtomic hmay =>
      cases hout
      exact ⟨hinv.elected_of_leader hmay.2.2, by simp⟩
  | sendSnapshot hw =>
      cases hout
      exact ⟨trivial, by simp⟩
  | notifyClient =>
      cases h : (s.nodes i).pendingCallbacks _ with
      | none =>
          rw [h] at hout
          cases hout
      | some cb =>
          rw [h] at hout
          cases hout
  | _ => cases hout

/-- Only `startElection` records a vote. -/
lemma quiet_threadEvents {n' : RaftNode} (ha : a ≠ .startElection) :
    ∀ e ∈ Cluster.threadEvents i a n n' out, ¬ e.ofElection := by
  intro e he
  unfold Cluster.threadEvents at he
  split at he
  · exact absurd rfl ha
  · split at he
    · obtain rfl := List.mem_singleton.mp he
      exact id
    · cases he
  · obtain rfl := List.mem_singleton.mp he
    exact id
  · cases he

/-- The calls after a node has sent something. -/
lemma ElectionInv.calls_emit (hinv : ElectionInv m s) {h : List Event} (hsub : s.history ⊆ h)
    (hnew : ∀ dst request, out = .call dst request →
      CallOk h ⟨i, dst, request, none, true⟩) :
    ∀ k c, (s.emit i out).calls k = some c → CallOk h c := by
  intro k c hc
  rcases s.emit_calls hc with ⟨hold, -⟩ | ⟨dst, request, hout, -, rfl⟩
  · exact (hinv.calls k c hold).mono hsub
  · exact hnew dst request hout

lemma fresh_emit (hfresh : ∀ k, s.nextCall ≤ k → s.calls k = none) :
    ∀ k, (s.emit i out).nextCall ≤ k → (s.emit i out).calls k = none := by
  intro k hk
  cases out with
  | none => exact hfresh k hk
  | response => exact hfresh k hk
  | call dst request =>
      have hk' : s.nextCall + 1 ≤ k := hk
      have hne : k ≠ s.nextCall := by omega
      simp only [Cluster.emit, Cluster.addCall, Cluster.setCall_calls,
        Function.update_of_ne hne]
      exact hfresh k (by omega)

lemma emit_setNode_calls : ((s.setNode i n).emit i out).calls = (s.emit i out).calls := by
  cases out <;> rfl

lemma emit_setNode_nextCall : ((s.setNode i n).emit i out).nextCall = (s.emit i out).nextCall := by
  cases out <;> rfl

/-- A step of a thread other than the election thread keeps the invariant. -/
lemma ElectionInv.thread_still (hinv : ElectionInv m s) (ha : ¬ a.ofElection)
    (hmove : (s.nodes i).Move s.nextCall a n out) :
    ElectionInv m (((s.setNode i n).emit i out).record
      (Cluster.threadEvents i a (s.nodes i) n out)) := by
  obtain ⟨-, hstate, hterm, hvote, helection, hvotes⟩ :=
    RaftNode.electionView_inj (hmove.view ha)
  have hquiet : a ≠ .startElection := by
    rintro rfl
    exact ha trivial
  have hsub : s.history ⊆ Cluster.threadEvents i a (s.nodes i) n out ++ s.history :=
    List.subset_append_right _ _
  have hsame := Cluster.voting_same (s := s) (i := i) (n := n)
    (t := ((s.setNode i n).emit i out).record (Cluster.threadEvents i a (s.nodes i) n out))
    (by simp) (by simp; rfl) (quiet_threadEvents hquiet) hstate hterm hvote
  refine hinv.of_still (i := i) (n := n) (by simp) (by simp) ?_ ?_ ?_ ?_ hvotes
    helection ?_
  · rw [hsame]
    exact hinv.voting
  · simpa using (hinv.node_move ha hmove).mono hsub
  · simp only [Cluster.record_calls, emit_setNode_calls]
    exact hinv.calls_emit (by simp) fun dst request hout => by
      simpa using (hinv.call_move ha hmove hout).1.mono hsub
  · simp only [Cluster.record_calls, Cluster.record_nextCall, emit_setNode_calls,
      emit_setNode_nextCall]
    exact fresh_emit hinv.fresh
  · intro j
    simp only [Cluster.record_calls, emit_setNode_calls]
    exact askLe_emit fun _ dst args hout => (hinv.call_move ha hmove hout).2 args rfl

end Moves

/-! ## Steps of the election thread -/

section Thread

/-- No call asks for votes in a term the node has not reached. -/
lemma ElectionInv.not_asks (hinv : ElectionInv m s) {T : ℤ} (hT : (s.nodes i).currentTerm < T) :
    ∀ k c, s.calls k = some c → ¬ c.asks i T := by
  rintro k c hc ⟨rfl, args, hreq, rfl⟩
  have hok := hinv.calls k c hc
  rw [CallOk, hreq] at hok
  have hle := hinv.voting.votes_le c.src args.term c.src (.inl ⟨rfl, hok.1⟩)
  exact absurd hle (not_le.mpr hT)

/-- A step of the election thread that neither votes nor sends. -/
lemma ElectionInv.of_election (hinv : ElectionInv m s) (hstate : n.state = (s.nodes i).state)
    (hterm : n.currentTerm = (s.nodes i).currentTerm)
    (hvote : n.votedFor = (s.nodes i).votedFor) (hnode : NodeOk s.history i n)
    (htally : ∀ T, Tally m s.history s.calls i n T) (honce : AskedOnce s.calls i n) :
    ElectionInv m (s.setNode i n) := by
  have hsame := Cluster.voting_same (s := s) (t := s.setNode i n) (i := i) (n := n)
    rfl (List.nil_append _).symm (by simp) hstate hterm hvote
  refine hinv.of_node (i := i) (n := n) rfl (List.Subset.refl _) ?_ hnode hinv.calls hinv.fresh
    htally honce fun j _ => askLe_refl
  rw [hsame]
  exact hinv.voting

lemma ElectionInv.electionTimeout (hinv : ElectionInv m s) :
    ElectionInv m (s.setNode i { s.nodes i with election := .due }) := by
  have hn := hinv.nodes i
  refine hinv.of_election rfl rfl rfl
    { hn with saved := by simp [ElectionThread.saved?]
              nodup_targets := List.nodup_nil } (fun T => ?_) ?_
  · exact (hinv.tally i T).of_le (List.Subset.refl _) askLe_refl rfl
      (by simp [ElectionThread.saved?])
  · exact ⟨fun h => h.elim, by simp [ElectionThread.saved?], (hinv.once i).distinct⟩

lemma ElectionInv.evalHardState (hinv : ElectionInv m s) {saved : SavedElection}
    (hstarted : (s.nodes i).election = .started saved) {term votedFor : ℤ} :
    ElectionInv m
      (s.setNode i { s.nodes i with election := .evaluated saved term votedFor }) := by
  have hn := hinv.nodes i
  have ho := hinv.once i
  have hsaved : ∀ saved', (ElectionThread.evaluated saved term votedFor).saved? = some saved' →
      (s.nodes i).election.saved? = some saved' := by
    intro saved' h
    rw [hstarted]
    exact h
  refine hinv.of_election rfl rfl rfl
    { hn with saved := fun saved' h => hn.saved saved' (hsaved saved' h)
              nodup_targets := List.nodup_nil } (fun T => ?_) ?_
  · exact (hinv.tally i T).of_le (List.Subset.refl _) askLe_refl rfl
      (by simp [ElectionThread.targets])
  · refine ⟨fun _ saved' h => ho.unasked (by rw [hstarted]; trivial) saved' (hsaved saved' h),
      by simp [ElectionThread.targets], ho.distinct⟩

/-- The counter starts with the node itself, and nobody has been asked so far. -/
lemma ElectionInv.saveHardState (hr : Routed m s) (hinv : ElectionInv m s) (hi : i ∈ m.ids)
    {saved : SavedElection} {term votedFor : ℤ}
    (heval : (s.nodes i).election = .evaluated saved term votedFor) {storage : RocksDBStore} :
    ElectionInv m (s.setNode i
      { s.nodes i with
        storage := storage
        votesReceived := Function.update (s.nodes i).votesReceived saved.term 1
        election := .next saved (s.nodes i).config.peerStubs }) := by
  have hn := hinv.nodes i
  have ho := hinv.once i
  have hself : .selfVote i saved.term ∈ s.history := hn.saved saved (by rw [heval]; rfl)
  have hnone : ∀ k c, s.calls k = some c → ¬ c.asks i saved.term :=
    ho.unasked (by rw [heval]; trivial) saved (by rw [heval]; rfl)
  refine hinv.of_election rfl rfl rfl
    { hn with saved := fun saved' h => ?_
              nodup_targets := ?_ } (fun T => ?_) ?_
  · rw [ElectionThread.eq_of_saved?_next h]
    exact hself
  · simp only [ElectionThread.targets_next]
    exact List.nodup_dedup _
  · by_cases hT : T = saved.term
    · subst hT
      refine ⟨{i}, by simpa using hi, by simp, ?_, ?_, ?_⟩
      · intro v hv
        rw [Finset.mem_singleton.mp hv]
        exact .inl ⟨rfl, hself⟩
      · exact fun k c hc hask => absurd hask (hnone k c hc)
      · intro saved' _ _ p hp
        rw [ElectionThread.targets_next] at hp
        simpa using ((hr.nodes i).mem_stubs.mp hp).2
    · refine (hinv.tally i T).of_le (List.Subset.refl _) askLe_refl
        (Function.update_of_ne hT _ _) fun saved' h hT' => ?_
      rw [ElectionThread.eq_of_saved?_next h] at hT'
      exact absurd hT'.symm hT
  · refine ⟨fun h => absurd h (ElectionThread.not_unasked_next _ _), fun saved' h k c hc hask => ?_,
      ho.distinct⟩
    rw [ElectionThread.eq_of_saved?_next h] at hask
    exact absurd hask (hnone k c hc)

/-- The locked block of `startElection`: the node stands in a new term. -/
lemma ElectionInv.startElection (hr : Routed m s) (hinv : ElectionInv m s) (hi : i ∈ m.ids)
    {saved : SavedElection} (hsaved : saved.term = (s.nodes i).currentTerm + 1) :
    ElectionInv m ((s.setNode i
      { s.nodes i with
        state := .candidate
        currentTerm := (s.nodes i).currentTerm + 1
        votedFor := (s.nodes i).config.myId
        election := .started saved }).record
          [.selfVote i ((s.nodes i).currentTerm + 1)]) := by
  have hn := hinv.nodes i
  have hlt := Int.lt_succ (s.nodes i).currentTerm
  have hmyId : (s.nodes i).config.myId = i := (hr.nodes i).myId
  have hstand := Cluster.voting_stand (s := s) (i := i) (T := (s.nodes i).currentTerm + 1)
    (n := { s.nodes i with
        state := .candidate
        currentTerm := (s.nodes i).currentTerm + 1
        votedFor := (s.nodes i).config.myId
        election := .started saved })
    (t := (s.setNode i _).record _) rfl rfl rfl rfl hmyId (m.ne_sentinel hi)
  have hsub : s.history ⊆ [.selfVote i ((s.nodes i).currentTerm + 1)] ++ s.history :=
    List.subset_append_right _ _
  refine hinv.of_node (i := i) rfl hsub ?_ ?_
    (fun k c hc => (hinv.calls k c hc).mono hsub) hinv.fresh (fun T => ?_) ?_
    fun j _ => askLe_refl
  · rw [hstand]
    exact Voting.inv_step Membership.quorum_inter hinv.voting (.stand hlt)
  · refine { hn.mono hsub with
      saved := fun saved' h => ?_
      nodup_targets := List.nodup_nil }
    obtain rfl : saved = saved' := Option.some.inj h
    rw [hsaved]
    exact List.mem_cons_self
  · exact (hinv.tally i T).of_le hsub askLe_refl rfl (by simp [ElectionThread.targets])
  · refine ⟨fun _ saved' h => ?_, by simp [ElectionThread.targets], (hinv.once i).distinct⟩
    obtain rfl : saved = saved' := Option.some.inj h
    exact hinv.not_asks (by rw [hsaved]; exact hlt)

/-- Asking the next peer. -/
lemma ElectionInv.sendRequestVote (hinv : ElectionInv m s)
    {saved : SavedElection} {peer : ℤ} {targets : List ℤ} {args : RequestVoteArgs}
    (hsending : (s.nodes i).election = .sending saved (peer :: targets))
    (hterm : args.term = saved.term) :
    ElectionInv m ((s.setNode i { s.nodes i with election := .next saved targets }).emit i
      (.call peer (.requestVote args))) := by
  have hn := hinv.nodes i
  have ho := hinv.once i
  have hsaved : (s.nodes i).election.saved? = some saved := by rw [hsending]; rfl
  have htargets : (s.nodes i).election.targets = peer :: targets := by rw [hsending]; rfl
  have hself : .selfVote i saved.term ∈ s.history := hn.saved saved hsaved
  have hnodup := hn.nodup_targets
  rw [htargets] at hnodup
  -- a call is an old one, or the new one
  have hcases : ∀ {k c T}, ((s.setNode i { s.nodes i with election := .next saved targets }).emit i
      (.call peer (.requestVote args))).calls k = some c → c.asks i T →
      s.calls k = some c ∨ k = s.nextCall ∧ c.dst = peer ∧ T = saved.term := by
    intro k c T hc hask
    rw [emit_setNode_calls] at hc
    rcases s.emit_calls hc with ⟨hold, -⟩ | ⟨dst, request, hout, hk, rfl⟩
    · exact .inl hold
    · cases hout
      obtain ⟨-, args', hreq, hT⟩ := hask
      cases hreq
      exact .inr ⟨hk, rfl, by rw [← hT, hterm]⟩
  have hsame := Cluster.voting_same (s := s) (i := i)
    (n := { s.nodes i with election := .next saved targets })
    (t := (s.setNode i { s.nodes i with election := .next saved targets }).emit i
      (.call peer (.requestVote args)))
    (by simp) (List.nil_append _).symm (by simp) rfl rfl rfl
  refine hinv.of_node (i := i) (n := { s.nodes i with election := .next saved targets }) (by simp)
    (by simp) ?_ ?_ ?_ ?_ (fun T => ?_) ?_ ?_
  · rw [hsame]
    exact hinv.voting
  · refine { hn with
      saved := fun saved' h => ?_
      nodup_targets := by simpa using (List.nodup_cons.mp hnodup).2 }
    rw [ElectionThread.eq_of_saved?_next h]
    exact hself
  · rw [emit_setNode_calls]
    refine hinv.calls_emit (List.Subset.refl _) fun dst request hout => ?_
    cases hout
    refine ⟨?_, by simp⟩
    rw [hterm]
    exact hself
  · rw [emit_setNode_calls, emit_setNode_nextCall]
    exact fresh_emit hinv.fresh
  · obtain ⟨A, hA, hcount, hvoted, hcalls, hdisjoint⟩ := hinv.tally i T
    refine ⟨A, hA, hcount, hvoted, fun k c hc hask => ?_, fun saved' h hT p hp => ?_⟩
    · rcases hcases hc hask with hold | ⟨-, hdst, hT⟩
      · exact hcalls k c hold hask
      · rw [hdst]
        exact hdisjoint saved hsaved hT.symm peer (by rw [htargets]; exact List.mem_cons_self)
    · rw [ElectionThread.eq_of_saved?_next h] at hT
      rw [ElectionThread.targets_next] at hp
      exact hdisjoint saved hsaved hT p (by rw [htargets]; exact List.mem_cons_of_mem _ hp)
  · refine ⟨fun h => absurd h (ElectionThread.not_unasked_next _ _), fun saved' h k c hc hask => ?_,
      fun T k k' c c' hc hc' hask hask' hdst => ?_⟩
    · rw [ElectionThread.targets_next]
      rw [ElectionThread.eq_of_saved?_next h] at hask
      rcases hcases hc hask with hold | ⟨-, hd, -⟩
      · intro hmem'
        exact ho.targets saved hsaved k c hold hask
          (by rw [htargets]; exact List.mem_cons_of_mem _ hmem')
      · rw [hd]
        exact (List.nodup_cons.mp hnodup).1
    · -- nobody of `targets` has been asked before
      have hnew : ∀ {k c}, s.calls k = some c → c.asks i saved.term → c.dst ≠ peer := by
        intro k c hold hask h
        exact ho.targets saved hsaved k c hold hask (by rw [htargets, h]; exact List.mem_cons_self)
      rcases hcases hc hask with hold | ⟨hk, hd, rfl⟩ <;>
        rcases hcases hc' hask' with hold' | ⟨hk', hd', hT'⟩
      · exact ho.distinct T k k' c c' hold hold' hask hask' hdst
      · subst hT'
        exact absurd (hdst.trans hd') (hnew hold hask)
      · exact absurd (hdst.symm.trans hd) (hnew hold' hask')
      · rw [hk, hk']
  · intro j hj
    rw [emit_setNode_calls]
    exact askLe_emit fun hij => absurd hij.symm hj

end Thread

/-! ## Requests and answers -/

section Calls

variable {k : ℕ} {src dst : ℤ} {request : Request} {alive : Bool}

/-- The voting state after a change that is at most a step up to a newer term. -/
lemma ElectionInv.voting_raise (hinv : ElectionInv m s) {T : ℤ}
    (hnodes : t.nodes = Function.update s.nodes i n)
    (hhist : t.history = es ++ s.history) (hes : ∀ e ∈ es, ¬ e.ofElection)
    (hview : n.electionView = (s.nodes i).electionView ∨ (s.nodes i).currentTerm < T ∧
      n.electionView = RaftNode.ElectionView.follow (s.nodes i).electionView T) :
    Voting.Inv m.Quorum t.voting := by
  rcases hview with hsame | ⟨hlt, hfollow⟩
  · obtain ⟨-, hstate, hterm, hvote, -, -⟩ := RaftNode.electionView_inj hsame
    rw [Cluster.voting_same hnodes hhist hes hstate hterm hvote]
    exact hinv.voting
  · rw [Cluster.voting_follow hnodes hhist hes (congrArg ElectionView.state hfollow)
      (congrArg ElectionView.currentTerm hfollow) (congrArg ElectionView.votedFor hfollow)]
    exact Voting.inv_step Membership.quorum_inter hinv.voting (.raise hlt)

/-- The voting state when a vote has been requested. -/
lemma ElectionInv.voting_requestVote (hinv : ElectionInv m s) {args : RequestVoteArgs}
    (hne : args.candidateId ≠ dst) (hcand : args.candidateId ≠ -1)
    (hnodes : t.nodes =
      Function.update s.nodes dst ((s.nodes dst).handleRequestVote args).1)
    (hhist : t.history = Cluster.handleEvents dst (.requestVote args)
      (.requestVote ((s.nodes dst).handleRequestVote args).2) ++ s.history) :
    Voting.Inv m.Quorum t.voting := by
  rcases RaftNode.handleRequestVote_cases (s.nodes dst) args with hold | ⟨-, hterm, hcases⟩
  · rw [hold] at hnodes hhist
    rw [Cluster.voting_same hnodes hhist (by simp [Cluster.handleEvents]) rfl rfl rfl]
    exact hinv.voting
  · -- first the newer term is seen
    have hsee : Voting.Inv m.Quorum
        (s.setNode dst ((s.nodes dst).seeTerm args.term)).voting := by
      refine hinv.voting_raise (i := dst) (n := (s.nodes dst).seeTerm args.term) (T := args.term)
        rfl (List.nil_append _).symm (by simp) ?_
      rcases RaftNode.seeTerm_cases (s.nodes dst) args.term with ⟨h, -⟩ | ⟨hlt, h⟩
      · exact .inl (by rw [h])
      · exact .inr ⟨hlt, by rw [h, RaftNode.becomeFollower_view]⟩
    have hself : (s.setNode dst ((s.nodes dst).seeTerm args.term)).nodes dst =
        (s.nodes dst).seeTerm args.term := by simp
    rcases hcases with ⟨⟨hfree, -⟩, hnode, hreply⟩ | hrefused
    · -- then the vote is granted
      rw [hnode] at hnodes
      rw [hreply] at hhist
      rw [Cluster.voting_grant (s := s.setNode dst ((s.nodes dst).seeTerm args.term)) (i := dst)
        (T := args.term) (c := args.candidateId) (by simpa using hnodes) hhist (by simp) (by simp)
        (by simpa using hterm) rfl hcand]
      refine Voting.inv_step Membership.quorum_inter hsee (.grant ?_ hne)
      simp only [Cluster.voting, hself]
      rcases hfree with h | h
      · exact .inl (by rw [h]; rfl)
      · exact .inr (by rw [h]; exact voteOf_of_ne hcand)
    · rw [hrefused] at hnodes hhist
      rw [Cluster.voting_same (s := s.setNode dst ((s.nodes dst).seeTerm args.term)) (i := dst)
        (by simpa using hnodes) hhist (by simp [Cluster.handleEvents]) (by simp) (by simp)
        (by simp)]
      exact hsee

/-- The voting state when a leader has been heard. -/
lemma ElectionInv.voting_appendEntries (hinv : ElectionInv m s) {args : AppendEntriesArgs}
    (hne : src ≠ dst) (hwon : .elected src args.term ∈ s.history)
    (hnodes : t.nodes =
      Function.update s.nodes dst ((s.nodes dst).handleAppendEntries args).1)
    (hhist : t.history = s.history) : Voting.Inv m.Quorum t.voting := by
  have hhist' : t.history = [] ++ s.history := hhist
  have hquiet : ∀ e ∈ ([] : List Event), ¬ e.ofElection := by simp
  rcases RaftNode.handleAppendEntries_view (s.nodes dst) args with hold | ⟨hle, hview⟩
  · rw [hold] at hnodes
    rw [Cluster.voting_same hnodes hhist' hquiet rfl rfl rfl]
    exact hinv.voting
  · rcases RaftNode.acceptLeader_view (s.nodes dst) args.term args.leaderId hle with
      ⟨hsame, -, -⟩ | ⟨hfollow, hwhy⟩
    · obtain ⟨-, hstate, hterm, hvote, -, -⟩ := RaftNode.electionView_inj (hview.trans hsame)
      rw [Cluster.voting_same hnodes hhist' hquiet hstate hterm hvote]
      exact hinv.voting
    · have hv := hview.trans hfollow
      have hstate := congrArg ElectionView.state hv
      have hterm := congrArg ElectionView.currentTerm hv
      have hvote := congrArg ElectionView.votedFor hv
      rw [Cluster.voting_follow hnodes hhist' hquiet hstate hterm hvote]
      rcases hwhy with hlt | ⟨heq, hphase⟩
      · exact Voting.inv_step Membership.quorum_inter hinv.voting (.raise hlt)
      · -- a candidate of the leader's own term gives its vote back
        have hterm' : args.term = s.voting.term dst := heq
        simp only [RaftNode.electionView, RaftNode.ElectionView.follow]
        rw [hterm']
        refine Voting.inv_step Membership.quorum_inter hinv.voting (.release ?_ hne ?_)
        · cases hs : (s.nodes dst).state with
          | follower => exact absurd hs hphase
          | candidate => simp [Cluster.voting, hs, Role.phase]
          | leader => simp [Cluster.voting, hs, Role.phase]
        · rw [← hterm']
          exact hwon

/-- The node stays as it should be when its threads do not move, or one of them ends. -/
lemma NodeOk.of_view {h : List Event} {n' : RaftNode} (hn : NodeOk h i n)
    (helection : n'.election = n.election)
    (hworkers : ∀ p, n'.workers p = n.workers p ∨ n'.workers p = .idle) : NodeOk h i n' := by
  refine ⟨by rw [helection]; exact hn.saved, by rw [helection]; exact hn.nodup_targets,
    fun p b hb => ?_⟩
  rcases hworkers p with h | h
  · exact hn.batch p b (by rwa [← h])
  · rw [h] at hb
    cases hb

lemma fresh_update {calls : ℕ → Option Call} {next k : ℕ} {c : Call} (c' : Option Call)
    (hfresh : ∀ k, next ≤ k → calls k = none) (hk : calls k = some c) :
    ∀ k', next ≤ k' → Function.update calls k c' k' = none := by
  intro k' hk'
  have hne : k' ≠ k := by
    rintro rfl
    rw [hfresh k' hk'] at hk
    cases hk
  rw [Function.update_of_ne hne]
  exact hfresh k' hk'

/-- Handling a request keeps the invariant. -/
lemma ElectionInv.handle (hr : Routed m s) (hinv : ElectionInv m s)
    (hcall : s.calls k = some ⟨src, dst, request, none, alive⟩) :
    ElectionInv m (((s.setNode dst ((s.nodes dst).handle request).1).setCall k
      (some ⟨src, dst, request, some ((s.nodes dst).handle request).2, alive⟩)).record
        (Cluster.handleEvents dst request ((s.nodes dst).handle request).2)) := by
  have hc := hinv.calls k _ hcall
  have hroute := hr.calls k _ hcall
  obtain ⟨-, -, -, -, hvotes, helection, hworkers, -, -⟩ :=
    RaftNode.threads_inj (RaftNode.handle_threads (s.nodes dst) request)
  have hsub : s.history ⊆
      Cluster.handleEvents dst request ((s.nodes dst).handle request).2 ++ s.history :=
    List.subset_append_right _ _
  refine hinv.of_still (i := dst) rfl hsub ?_ ?_ ?_ (fresh_update _ hinv.fresh hcall) hvotes
    helection fun j => askLe_update hcall rfl rfl rfl
  · cases request with
    | requestVote args =>
        have hcand := hroute.candidate args rfl
        refine hinv.voting_requestVote ?_ ?_ rfl rfl
        · rw [hcand]
          exact hroute.dst_ne.symm
        · rw [hcand]
          exact m.ne_sentinel hroute.src_mem
    | appendEntries args => exact hinv.voting_appendEntries hroute.dst_ne.symm hc rfl rfl
    | installSnapshot args =>
        exact hinv.voting_raise (i := dst) rfl (List.nil_append _).symm (by simp)
          (RaftNode.handleInstallSnapshot_view (s.nodes dst) args)
  · exact ((hinv.nodes dst).mono hsub).of_view helection fun p => .inl (by rw [hworkers])
  · intro k' c hc'
    by_cases hk : k' = k
    · subst hk
      obtain rfl : _ = c := by simpa using hc'
      have hcall' := hc.mono hsub
      cases request with
      | requestVote args =>
          refine ⟨hcall'.1, fun r hr hgranted => ?_⟩
          cases hr
          have hcand : args.candidateId = src := hroute.candidate args rfl
          right
          simp only [Cluster.record_history, Cluster.handleEvents, RaftNode.handle, hgranted,
            if_true, hcand]
          exact List.mem_cons_self
      | appendEntries args => exact hcall'
      | installSnapshot args => trivial
    · exact (hinv.calls k' c (by simpa [hk] using hc')).mono hsub

/-- Giving up on a call keeps the invariant. -/
lemma ElectionInv.fail (hinv : ElectionInv m s) {reply : Option Reply}
    (hcall : s.calls k = some ⟨src, dst, request, reply, true⟩) :
    ElectionInv m ((s.setNode src ((s.nodes src).abandon dst request)).setCall k
      (some ⟨src, dst, request, reply, false⟩)) := by
  obtain ⟨-, -, -, -, helection, hvotes⟩ :=
    RaftNode.electionView_inj (RaftNode.abandon_view (s.nodes src) dst request)
  refine hinv.of_still (i := src) rfl (List.Subset.refl _) ?_ ?_ ?_
    (fresh_update _ hinv.fresh hcall) hvotes helection fun j => askLe_update hcall rfl rfl rfl
  · exact hinv.voting_raise (i := src) (T := 0) rfl (List.nil_append _).symm (by simp)
      (.inl (RaftNode.abandon_view _ _ _))
  · exact (hinv.nodes src).of_view helection (RaftNode.abandon_workers _ _ _)
  · intro k' c hc'
    by_cases hk : k' = k
    · subst hk
      obtain rfl : _ = c := by simpa using hc'
      have hold := hinv.calls k' _ hcall
      exact hold
    · exact hinv.calls k' c (by simpa [hk] using hc')

/-- A step that makes nobody a leader records no victory. -/
lemma quiet_replyEvents {n' : RaftNode} (h : n'.state = .leader → n.state = .leader) :
    ∀ e ∈ Cluster.replyEvents i n n', ¬ e.ofElection := by
  have hnot : ¬ (n.state ≠ .leader ∧ n'.state = .leader) := fun ⟨h₁, h₂⟩ => h₁ (h h₂)
  intro e he
  simp only [Cluster.replyEvents, if_neg hnot, List.nil_append] at he
  split at he
  · obtain rfl := List.mem_singleton.mp he
    exact id
  · cases he

/-- An answer that changes nothing but the term, or ends a replication thread. -/
lemma ElectionInv.reply_raise (hinv : ElectionInv m s) {c : Call} (hcall : s.calls k = some c)
    {T : ℤ}
    (hview : n.electionView = (s.nodes i).electionView ∨ (s.nodes i).currentTerm < T ∧
      n.electionView = RaftNode.ElectionView.follow (s.nodes i).electionView T)
    (hworkers : ∀ p, n.workers p = (s.nodes i).workers p ∨ n.workers p = .idle) :
    ElectionInv m (((s.setNode i n).setCall k none).record
      (Cluster.replyEvents i (s.nodes i) n)) := by
  have hlead : n.state = .leader → (s.nodes i).state = .leader := by
    intro h
    rcases hview with hv | ⟨-, hv⟩
    · exact (congrArg ElectionView.state hv).symm.trans h
    · have := (congrArg ElectionView.state hv).symm.trans h
      cases this
  have helection : n.election = (s.nodes i).election := by
    rcases hview with hv | ⟨-, hv⟩ <;> exact congrArg ElectionView.election hv
  have hvotes : n.votesReceived = (s.nodes i).votesReceived := by
    rcases hview with hv | ⟨-, hv⟩ <;> exact congrArg ElectionView.votesReceived hv
  have hsub : s.history ⊆ Cluster.replyEvents i (s.nodes i) n ++ s.history :=
    List.subset_append_right _ _
  refine hinv.of_still (i := i) rfl hsub ?_ (((hinv.nodes i).mono hsub).of_view helection
    hworkers) ?_ (fresh_update _ hinv.fresh hcall) hvotes helection fun j => askLe_remove
  · exact hinv.voting_raise (i := i) rfl rfl (quiet_replyEvents hlead) hview
  · intro k' c' hc'
    by_cases hk : k' = k
    · subst hk
      simp at hc'
    · exact (hinv.calls k' c' (by simpa [hk] using hc')).mono hsub

/-- One more vote is counted: the voter has not been counted before. -/
lemma ElectionInv.tally_count (hr : Routed m s) (hinv : ElectionInv m s)
    {args : RequestVoteArgs} {reply : Reply} {r : RequestVoteReply}
    (hreply : reply = .requestVote r) (hgranted : r.voteGranted = true)
    (hcall : s.calls k = some ⟨src, dst, .requestVote args, some reply, alive⟩) :
    ∃ A : Finset ℤ, A ⊆ m.ids.toFinset ∧
      (s.nodes src).votesReceived args.term + 1 = A.card ∧
      (∀ v ∈ A, Voted s.history v args.term src) ∧
      (∀ k' c, k' ≠ k → s.calls k' = some c → c.asks src args.term → c.dst ∉ A) ∧
      (∀ saved, (s.nodes src).election.saved? = some saved → saved.term = args.term →
        ∀ p ∈ (s.nodes src).election.targets, p ∉ A) := by
  have hc := hinv.calls k _ hcall
  have ho := hinv.once src
  have hask : Call.asks ⟨src, dst, .requestVote args, some reply, alive⟩ src args.term :=
    ⟨rfl, args, rfl, rfl⟩
  obtain ⟨-, hvoted⟩ := hc
  obtain ⟨A, hA, hcount, hvotes, hcalls, htargets⟩ := hinv.tally src args.term
  have hdst : dst ∉ A := hcalls k _ hcall hask
  refine ⟨insert dst A, ?_, ?_, ?_, ?_, ?_⟩
  · exact Finset.insert_subset (List.mem_toFinset.mpr (hr.calls k _ hcall).dst_mem) hA
  · rw [Finset.card_insert_of_notMem hdst, hcount]
  · intro v hv
    rcases Finset.mem_insert.mp hv with rfl | hv
    · exact hvoted r (by rw [hreply]) hgranted
    · exact hvotes v hv
  · intro k' c hk hc' hask' hmem
    rcases Finset.mem_insert.mp hmem with h | h
    · exact hk (ho.distinct _ k' k c _ hc' hcall hask' hask h)
    · exact hcalls k' c hc' hask' h
  · intro saved hs hT p hp hmem
    rcases Finset.mem_insert.mp hmem with rfl | h
    · exact ho.targets saved hs k _ hcall (by rw [hT]; exact hask) hp
    · exact htargets saved hs hT p hp h

/-- An answer that is counted keeps the invariant, provided that the voting state is in order:
the node differs from `countVote` only in its role. -/
lemma ElectionInv.reply_count (hr : Routed m s) (hinv : ElectionInv m s) {args : RequestVoteArgs}
    {r : RequestVoteReply} (hgranted : r.voteGranted = true)
    (hcall : s.calls k = some ⟨src, dst, .requestVote args, some (.requestVote r), alive⟩)
    (helection : n.election = (s.nodes src).election)
    (hworkers : n.workers = (s.nodes src).workers)
    (hcount : n.votesReceived = Function.update (s.nodes src).votesReceived args.term
      ((s.nodes src).votesReceived args.term + 1))
    (hvoting : Voting.Inv m.Quorum (((s.setNode src n).setCall k none).record es).voting) :
    ElectionInv m (((s.setNode src n).setCall k none).record es) := by
  have hsub : s.history ⊆ es ++ s.history := List.subset_append_right _ _
  refine hinv.of_node (i := src) rfl hsub hvoting
    (((hinv.nodes src).mono hsub).of_view helection fun p => .inl (by rw [hworkers])) ?_
    (fresh_update _ hinv.fresh hcall) (fun T => ?_)
    ((hinv.once src).of_le askLe_remove helection) fun j _ => askLe_remove
  · intro k' c' hc'
    by_cases hk : k' = k
    · subst hk
      simp at hc'
    · exact (hinv.calls k' c' (by simpa [hk] using hc')).mono hsub
  · by_cases hT : T = args.term
    · subst hT
      obtain ⟨A, hA, hcard, hvotes, hcalls, htargets⟩ := hinv.tally_count hr rfl hgranted hcall
      refine ⟨A, hA, by simpa [hcount] using hcard, fun v hv => (hvotes v hv).mono hsub,
        fun k' c hc hask => ?_, ?_⟩
      · by_cases hk : k' = k
        · subst hk
          simp at hc
        · exact hcalls k' c hk (by simpa [hk] using hc) hask
      · rw [helection]
        exact htargets
    · refine (hinv.tally src T).of_le hsub askLe_remove (by simp [hcount, hT]) ?_
      rw [helection]
      exact fun saved hs _ p hp => ⟨hs, hp⟩

/-- A vote reply keeps the invariant. -/
lemma ElectionInv.reply_vote (hr : Routed m s) (hinv : ElectionInv m s) {args : RequestVoteArgs}
    {r : RequestVoteReply}
    (hcall : s.calls k = some ⟨src, dst, .requestVote args, some (.requestVote r), true⟩) :
    ElectionInv m (((s.setNode src ((s.nodes src).voteReply args.term r)).setCall k none).record
      (Cluster.replyEvents src (s.nodes src) ((s.nodes src).voteReply args.term r))) := by
  rcases RaftNode.voteReply_cases (s.nodes src) args.term r with
    hsame | ⟨hlt, hfollow⟩ | ⟨hstate, hterm, hgranted, ⟨-, hcounted⟩ | ⟨hneeded, hwon⟩⟩
  · rw [hsame]
    exact hinv.reply_raise (T := 0) hcall (.inl rfl) fun p => .inl rfl
  · rw [hfollow]
    exact hinv.reply_raise hcall (.inr ⟨hlt, rfl⟩) fun p => .inl rfl
  · rw [hcounted]
    refine hinv.reply_count hr hgranted hcall rfl rfl rfl ?_
    rw [Cluster.voting_same (s := s) (i := src) (n := (s.nodes src).countVote args.term) rfl rfl
      (quiet_replyEvents id) rfl rfl rfl]
    exact hinv.voting
  · -- the last vote that was needed: the voters counted are a quorum
    obtain ⟨A, hA, hcard, hvotes, -, -⟩ := hinv.tally_count hr rfl hgranted hcall
    have hquorum : m.Quorum A := by
      refine Membership.quorum_of_votesNeeded (i := src) hA ?_
      rw [← (hr.nodes src).config, ← hneeded, hcard]
    have hcount : ((s.nodes src).countVote args.term).state = .candidate := hstate
    obtain ⟨hlead, hterm', hvote, -, helection, hworkers, hvotes', hcommit⟩ :=
      RaftNode.becomeLeader_spec hcount
    rw [hwon]
    refine hinv.reply_count hr hgranted hcall helection hworkers hvotes' ?_
    have hevents : Cluster.replyEvents src (s.nodes src)
        ((s.nodes src).countVote args.term).becomeLeader =
          [.elected src (s.nodes src).currentTerm] ++ [] := by
      simp only [Cluster.replyEvents, hlead, hstate, hterm', hcommit]
      simp [RaftNode.countVote]
    rw [hevents, Cluster.voting_win (s := s) (i := src) rfl rfl (by simp) hlead hterm' rfl hvote]
    refine Voting.inv_step Membership.quorum_inter hinv.voting (.win ?_ hquorum ?_)
    · simp [Cluster.voting, hstate, Role.phase]
    · intro v hv
      have hv' := hvotes v hv
      rw [← hterm] at hv'
      exact hv'

/-- Receiving an answer keeps the invariant. -/
lemma ElectionInv.reply (hr : Routed m s) (hinv : ElectionInv m s) {reply : Reply}
    (hcall : s.calls k = some ⟨src, dst, request, some reply, true⟩) :
    ElectionInv m (((s.setNode src ((s.nodes src).receive dst request reply)).setCall k
      none).record (Cluster.replyEvents src (s.nodes src)
        ((s.nodes src).receive dst request reply))) := by
  -- an answer of another kind than the request is ignored
  have hother : (s.nodes src).receive dst request reply = s.nodes src →
      ElectionInv m (((s.setNode src ((s.nodes src).receive dst request reply)).setCall k
        none).record (Cluster.replyEvents src (s.nodes src)
          ((s.nodes src).receive dst request reply))) := by
    intro h
    rw [h]
    exact hinv.reply_raise (T := 0) hcall (.inl rfl) fun p => .inl rfl
  cases request with
  | requestVote args =>
      cases reply with
      | requestVote r => exact hinv.reply_vote hr hcall
      | appendEntries r => exact hother rfl
      | installSnapshot r => exact hother rfl
  | appendEntries args =>
      cases reply with
      | requestVote r => exact hother rfl
      | appendEntries r =>
          refine hinv.reply_raise hcall (RaftNode.appendEntriesReply_view _ dst args r) fun p => ?_
          rw [RaftNode.receive, RaftNode.appendEntriesReply_workers]
          exact workers_update_idle p
      | installSnapshot r => exact hother rfl
  | installSnapshot args =>
      cases reply with
      | requestVote r => exact hother rfl
      | appendEntries r => exact hother rfl
      | installSnapshot r =>
          refine hinv.reply_raise hcall (RaftNode.installSnapshotReply_view _ dst args r)
            fun p => ?_
          rw [RaftNode.receive, RaftNode.installSnapshotReply_workers]
          exact workers_update_idle p

end Calls

/-! ## Runs -/

/-- The label is not a crash. -/
def Label.crashFree : Label → Prop
  | .crash _ => False
  | _ => True

instance : DecidablePred Label.crashFree
  | .crash _ => isFalse id
  | .thread _ _ | .handle _ | .reply _ | .fail _ => isTrue trivial

/-- **Every step but a crash keeps the invariant of elections.** -/
theorem ElectionInv.step (hr : Routed m s) (hinv : ElectionInv m s) {l : Label} (hl : l.crashFree)
    (hstep : s.Move m.ids l t) : ElectionInv m t := by
  cases hstep with
  | @thread i a n out hi hmove =>
      by_cases ha : a.ofElection
      · cases hmove with
        | electionTimeout => exact hinv.electionTimeout
        | startElection => exact hinv.startElection hr hi rfl
        | evalHardState hstarted => exact hinv.evalHardState hstarted
        | saveHardState heval => exact hinv.saveHardState hr hi heval
        | sendRequestVote hsending => exact hinv.sendRequestVote hsending rfl
        | _ => exact ha.elim
      · exact hinv.thread_still ha hmove
  | handle hcall => exact hinv.handle hr hcall
  | reply hcall => exact hinv.reply hr hcall
  | fail hcall => exact hinv.fail hcall
  | crash hi => exact hl.elim

/-- The invariant holds when all nodes have been constructed. -/
theorem electionInv_init (stores : ℤ → RocksDBStore) :
    ElectionInv m (Cluster.init m.ids stores) where
  voting := by
    have hvotes : (Cluster.init m.ids stores).voting.votes = ∅ := by
      ext x
      simp [Cluster.voting, Cluster.init, Voted]
    have hwon : (Cluster.init m.ids stores).voting.won = ∅ := by
      ext x
      simp [Cluster.voting, Cluster.init]
    have heq : (Cluster.init m.ids stores).voting =
        ⟨_, _, fun _ => .follower, (Cluster.init m.ids stores).voting.votes,
          (Cluster.init m.ids stores).voting.won⟩ := rfl
    rw [heq, hvotes, hwon]
    exact Voting.inv_init
  nodes i := ⟨by simp [Cluster.init, RaftNode.new, ElectionThread.saved?],
    List.nodup_nil, fun p b hb => by cases hb⟩
  calls := by simp [Cluster.init]
  fresh := by simp [Cluster.init]
  tally i T := ⟨∅, by simp, rfl, by simp, by simp [Cluster.init], by simp⟩
  once i := ⟨fun h => h.elim, by simp [Cluster.init], by simp [Cluster.init]⟩

/-- The runs without crashes of the cluster with the given members, from `s` on. -/
def CrashFreeRun (members : List ℤ) : Cluster → List Label → Cluster → Prop :=
  Transition.Run (Cluster.step members) fun _ l => l.crashFree

lemma ElectionInv.run (hr : Routed m s) (hinv : ElectionInv m s) {ls : List Label}
    (hrun : CrashFreeRun m.ids s ls t) : Routed m t ∧ ElectionInv m t := by
  induction hrun with
  | nil => exact ⟨hr, hinv⟩
  | snoc _ hl hstep ih =>
      have hmove := Cluster.move_of_step hstep
      exact ⟨ih.1.step hmove, ih.2.step ih.1 hl hmove⟩

/-- The history only grows. -/
lemma Cluster.Move.history_subset {members : List ℤ} {l : Label} (hmove : s.Move members l t) :
    s.history ⊆ t.history := by
  cases hmove with
  | thread => simp
  | handle => exact List.subset_append_right _ _
  | reply => exact List.subset_append_right _ _
  | fail => exact List.Subset.refl _
  | crash => exact List.Subset.refl _

lemma history_subset_of_run {members : List ℤ} {ok : Cluster → Label → Prop} {ls : List Label}
    (hrun : Transition.Run (Cluster.step members) ok s ls t) : s.history ⊆ t.history := by
  induction hrun with
  | nil => exact List.Subset.refl _
  | snoc _ _ hstep ih => exact List.Subset.trans ih (Cluster.move_of_step hstep).history_subset

/-- The steps by which node `i` stands for election and asks `peers` other nodes. -/
def campaign (i : ℤ) (peers : ℕ) : List Label :=
  [.thread i .electionTimeout, .thread i .startElection, .thread i .evalHardState,
    .thread i .saveHardState] ++ List.replicate peers (.thread i .sendRequestVote)

/-- The two nodes `1` and `2`. -/
def pair : Membership := ⟨[1, 2], by decide, by decide⟩

/-- The three nodes `1`, `2` and `3`. -/
def trio : Membership := ⟨[1, 2, 3], by decide, by decide⟩

/-- The state a list of admitted steps of a cluster of genesis stores leads to. -/
def Cluster.after (members : List ℤ) (ok : Cluster → Label → Prop) [∀ s, DecidablePred (ok s)]
    (ls : List Label) : Option Cluster :=
  Transition.runFrom (Cluster.step members) ok
    (.init members fun _ => RocksDBStore.genesisLight) ls

/-- A list of steps that executes is a run from the genesis stores. -/
lemma run_of_after {members : List ℤ} {ls : List Label} {ok : Cluster → Label → Prop}
    [∀ s, DecidablePred (ok s)] {P : Cluster → Prop}
    (h : ∃ s ∈ Cluster.after members ok ls, P s) :
    ∃ s, Transition.Run (Cluster.step members) ok
      (.init members fun _ => RocksDBStore.genesis) ls s ∧ P s :=
  run_of_genesis (fun store => Cluster.init members fun _ => store) h

/-- **Election safety.**  In a run without crashes from any stores, a node that leads at one time
and a node that leads with the same term at the same or a later time are the same node. -/
theorem election_safety (m : Membership) (stores : ℤ → RocksDBStore) {ls ks : List Label}
    {s t : Cluster} (hs : CrashFreeRun m.ids (.init m.ids stores) ls s)
    (ht : CrashFreeRun m.ids s ks t) {i j : ℤ} (hi : (s.nodes i).state = .leader)
    (hj : (t.nodes j).state = .leader)
    (hterm : (s.nodes i).currentTerm = (t.nodes j).currentTerm) : i = j := by
  obtain ⟨hr, hinv⟩ := (electionInv_init stores).run (routed_init stores) hs
  have hinv' := (hinv.run hr ht).2
  have helected := history_subset_of_run ht (hinv.elected_of_leader hi)
  have helected' := hinv'.elected_of_leader hj
  rw [hterm] at helected
  exact hinv'.voting.won_unique i j _ helected helected'

/-- In a cluster of two, node `1` wins the first term, and nobody else leads it. -/
theorem election_safety_pair :
    ∃ s, CrashFreeRun pair.ids (.init pair.ids fun _ => RocksDBStore.genesis)
      (campaign 1 1 ++ [.handle 0, .reply 0]) s ∧ (s.nodes 1).state = .leader ∧
        ∀ j, (s.nodes j).state = .leader →
          (s.nodes 1).currentTerm = (s.nodes j).currentTerm → 1 = j := by
  have hwins : ∃ s, CrashFreeRun pair.ids (.init pair.ids fun _ => RocksDBStore.genesis)
      (campaign 1 1 ++ [.handle 0, .reply 0]) s ∧ (s.nodes 1).state = .leader :=
    run_of_after (by decide +kernel)
  obtain ⟨s, hrun, hlead⟩ := hwins
  exact ⟨s, hrun, hlead, fun j hj hterm => election_safety pair _ hrun .nil hlead hj hterm⟩

/-- Nodes `-1` and `5` both stand in the first term.  A voter for `-1` looks like one that has not
voted, so nodes `6` and `7` vote for both. -/
def splitVote : List Label :=
  campaign (-1) 3 ++ campaign 5 3 ++
    [.handle 1, .handle 2, .reply 1, .reply 2, .handle 4, .handle 5, .reply 4, .reply 5]

/-- **With a node whose id is `-1` there can be two leaders of one term.** -/
theorem two_leaders_with_sentinel :
    ([-1, 5, 6, 7] : List ℤ).Nodup ∧
      ∃ s, CrashFreeRun [-1, 5, 6, 7] (.init [-1, 5, 6, 7] fun _ => RocksDBStore.genesis)
        splitVote s ∧ (s.nodes (-1)).state = .leader ∧ (s.nodes 5).state = .leader ∧
          (s.nodes (-1)).currentTerm = (s.nodes 5).currentTerm :=
  ⟨by decide, run_of_after (by decide +kernel)⟩

end RaftConsensus
