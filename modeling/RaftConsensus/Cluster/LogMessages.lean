import RaftConsensus.Cluster.LogSteps

/-!
# Requests and answers refine replication

Stepping down is `raise`, taking over entries is `accept`, and winning an election is `elect`.
What a request or an answer tells about another node is what `MessageOf` has kept about it.
-/

namespace RaftConsensus

open Replication

variable {m : Membership} {a b : Logs} {s t : Cluster} {i j : ℤ} {n n' : RaftNode}
  {es : List Event}

/-! ## Stepping down -/

/-- Hearing of a term that is no earlier. -/
lemma NodeRel.becomeFollower {calls : ℕ → Option Call} {h : List Event}
    (hn : NodeRel m a calls h i n) {T : ℤ} (hT : n.currentTerm ≤ T) :
    NodeRel m (a.raise i T) calls h i (n.becomeFollower T) := by
  have hl : Later a (a.raise i T) := later_raise (hn.term ▸ hT)
  refine
    { log := ⟨hn.log.storage.saveHardState, hn.log.lastLogIndex, hn.log.lastLogTerm⟩
      term := by simp [State.raise, RaftNode.becomeFollower]
      term_nonneg := hn.term_nonneg.trans hT
      commit := ?_
      executor := (hn.executor.mono hl).still (RaftNode.appliedStill_becomeFollower n T)
        RocksDBStore.sameRecords_saveHardState
      candidate := fun hs => by cases hs
      saved := fun hs => by cases hs
      asked := fun hs => by cases hs
      votes := fun hs => by cases hs
      leader := fun hs => by cases hs
      progress := fun hs => by cases hs
      workers := hn.workers
      waiting := fun k c args hc hsrc halive hreq =>
        ⟨(hn.waiting k c args hc hsrc halive hreq).1, fun hs => by cases hs⟩ }
  obtain ⟨c, hc, hle, hdec⟩ := hn.commit
  exact ⟨c, hc, hle, hdec.mono hl.ext hT⟩

lemma LogRel.becomeFollower (hrel : LogRel m s a) {T : ℤ} (hT : (s.nodes i).currentTerm ≤ T) :
    ∃ b, Later a b ∧ LogRel m (s.setNode i ((s.nodes i).becomeFollower T)) b := by
  have hraise : a.term i ≤ T := (hrel.nodes i).term ▸ hT
  have hl := later_raise hraise
  refine ⟨_, hl, logRel_of_node (i := i) (hrel.abs.raise hraise) rfl
    ((hrel.nodes i).becomeFollower hT) (fun j hj => ?_)
    (fun k c hc => (hrel.calls k c hc).mono hl) (hrel.events.mono hl fun _ => .rfl)⟩
  exact hrel.other hl rfl (by simp [State.raise, hj]) (fun _ => ⟨rfl, rfl⟩) (.refl _ _)
    fun _ => id

lemma Cluster.setNode_self (s : Cluster) (i : ℤ) : s.setNode i (s.nodes i) = s := by
  rw [Cluster.setNode, Function.update_eq_self]

lemma Cluster.setNode_setNode (s : Cluster) (i : ℤ) (n n' : RaftNode) :
    (s.setNode i n).setNode i n' = s.setNode i n' := by
  rw [Cluster.setNode, Cluster.setNode_nodes, Function.update_idem]
  rfl

lemma Cluster.setNode_setCall (s : Cluster) (i : ℤ) (n n' : RaftNode) (k : ℕ) (c : Option Call) :
    ((s.setNode i n).setCall k c).setNode i n' = (s.setNode i n').setCall k c := by
  rw [Cluster.setNode, Cluster.setCall_nodes, Cluster.setNode_nodes, Function.update_idem]
  rfl

lemma LogRel.seeTerm (hrel : LogRel m s a) (T : ℤ) :
    ∃ b, Later a b ∧ LogRel m (s.setNode i ((s.nodes i).seeTerm T)) b := by
  rcases RaftNode.seeTerm_cases (s.nodes i) T with ⟨h, -⟩ | ⟨hlt, h⟩
  · rw [h, Cluster.setNode_self]
    exact ⟨a, .refl a, hrel⟩
  · rw [h]
    exact hrel.becomeFollower hlt.le

/-! ## Requests for votes -/

section Calls

variable {k : ℕ} {src dst : ℤ} {alive : Bool}

/-- A call is answered, given up or removed. -/
lemma LogRel.setCall (hrel : LogRel m s a) {c : Call} {c' : Option Call}
    (hk : s.calls k = some c)
    (hle : ∀ d, c' = some d → d.src = c.src ∧ d.dst = c.dst ∧ d.request = c.request ∧
      (d.alive = true → c.alive = true))
    (hnew : ∀ d, c' = some d → CallRel m a d) : LogRel m (s.setCall k c') a where
  abs := hrel.abs
  nodes i := (hrel.nodes i).of_calls (callsLe_update hk hle) fun _ => id
  calls k' d hd := by
    by_cases hkk : k' = k
    · subst hkk
      exact hnew d (by simpa using hd)
    · exact hrel.calls k' d (by simpa [hkk] using hd)
  events := hrel.events

/-- A candidate whose last term is later, or the same with a log no shorter, is up to date. -/
lemma upToDate_of_lastTerm {l r : List LogEntry} (hl : Numbered l)
    (h : lastTerm l < lastTerm r ∨ lastTerm r = lastTerm l ∧ l.length ≤ r.length) :
    UpToDate LogEntry.term r l := by
  rintro q x rfl
  have hx : 1 ≤ x.term := hl.one_le_term (by simp)
  rw [lastTerm_concat] at h
  have hr : r ≠ [] := by
    rintro rfl
    rw [lastTerm_nil] at h
    omega
  obtain ⟨p, y, rfl⟩ := (List.eq_nil_or_concat r).resolve_left hr
  rw [List.concat_eq_append, lastTerm_concat] at h
  exact ⟨p, y, by simp, h.imp_right fun ⟨hterm, hlen⟩ => ⟨hterm.symm, by simpa using hlen⟩⟩

/-- A vote is granted. -/
lemma LogRel.grant (hrel : LogRel m s a) {args : RequestVoteArgs} (reply : RequestVoteReply)
    (hk : s.calls k = some ⟨src, dst, .requestVote args, none, alive⟩) (hne : dst ≠ src)
    (hself : .selfVote src args.term ∈ s.history)
    (hterm : (s.nodes dst).currentTerm = args.term)
    (hup : (s.nodes dst).isLogUpToDate args) :
    LogRel m (((s.setNode dst { s.nodes dst with
        votedFor := args.candidateId
        storage := (s.nodes dst).storage.saveHardState args.term args.candidateId }).setCall k
          (some ⟨src, dst, .requestVote args, some (.requestVote reply), alive⟩)).record
            [.granted dst args.term src]) a := by
  have hle : ∀ j, CallsLe (Function.update s.calls k
      (some ⟨src, dst, .requestVote args, some (.requestVote reply), alive⟩)) s.calls j :=
    fun j => callsLe_update hk (by rintro d ⟨⟩; exact ⟨rfl, rfl, rfl, id⟩)
  -- nobody but `src` has a new vote
  have hvotes : ∀ {j T v}, j ≠ src → Voted (.granted dst args.term src :: s.history) v T j →
      Voted s.history v T j := by
    rintro j T v hj (⟨rfl, hv⟩ | hv)
    · exact .inl ⟨rfl, (List.mem_cons.mp hv).resolve_left (by simp)⟩
    · exact .inr ((List.mem_cons.mp hv).resolve_left (by simp [hj]))
  refine logRel_of_node (i := dst) hrel.abs rfl ?_ (fun j hj => ?_) (fun k' d hd => ?_)
    (hrel.events.append (by simp) ?_ (by simp) (by simp))
  · have hn := hrel.nodes dst
    have hsaved : NodeRel m a s.calls s.history dst { s.nodes dst with
        votedFor := args.candidateId
        storage := (s.nodes dst).storage.saveHardState args.term args.candidateId } :=
      { hn with
        log := ⟨hn.log.storage.saveHardState, hn.log.lastLogIndex, hn.log.lastLogTerm⟩
        executor := hn.executor.still ⟨rfl, rfl, RocksDBStore.getLastAppliedIndex_saveHardState⟩
          RocksDBStore.sameRecords_saveHardState }
    exact hsaved.of_calls (hle dst) fun v => hvotes hne
  · have hn : NodeRel m a _ s.history j (s.nodes j) :=
      (hrel.nodes j).of_calls (hle j) fun _ => id
    by_cases hsrc : j = src
    · subst hsrc
      refine { hn with votes := fun hs hfree v hv => ?_ }
      by_cases hold : Voted s.history v (s.nodes j).currentTerm j
      · exact hn.votes hs hfree v hold
      · -- the new vote
        obtain ⟨rfl, hT⟩ : v = dst ∧ (s.nodes j).currentTerm = args.term := by
          rcases hv with ⟨hjv, hv⟩ | hv
          · exact absurd (.inl ⟨hjv, (List.mem_cons.mp hv).resolve_left (by simp)⟩) hold
          · rcases List.mem_cons.mp hv with h | h
            · exact ⟨(Event.granted.inj h).1, (Event.granted.inj h).2.1⟩
            · exact absurd (.inr h) hold
        obtain ⟨hindex, hlast⟩ := (hrel.nodes j).asked hs k _ args hk rfl rfl hT.symm
        have hlog := (hrel.nodes v).log
        refine vote_of_grant hrel.abs.inv ?_ hfree
          (upToDate_of_lastTerm (hrel.abs.numbered_log v) ?_)
        · rw [(hrel.nodes v).term, hterm, hT]
        · rw [RaftNode.isLogUpToDate, hlog.lastLogIndex, hlog.lastLogTerm, hindex, hlast] at hup
          exact hup.imp_right fun ⟨h₁, h₂⟩ => ⟨h₁, by exact_mod_cast h₂⟩
    · exact { hn with votes := fun hs hfree v hv => hn.votes hs hfree v (hvotes hsrc hv) }
  · by_cases hkk : k' = k
    · subst hkk
      obtain rfl : _ = d := by simpa using hd
      trivial
    · exact hrel.calls k' d (by simpa [hkk] using hd)
  · rintro v T c hg
    cases List.mem_singleton.mp hg
    exact hself

/-- Handling a request for a vote. -/
lemma LogRel.handle_requestVote (hr : Routed m s) (hinv : ElectionInv m s) (hrel : LogRel m s a)
    {args : RequestVoteArgs}
    (hk : s.calls k = some ⟨src, dst, .requestVote args, none, alive⟩) :
    ∃ b, Later a b ∧ LogRel m (((s.setNode dst ((s.nodes dst).handle (.requestVote args)).1).setCall
      k (some ⟨src, dst, .requestVote args,
        some ((s.nodes dst).handle (.requestVote args)).2, alive⟩)).record
          (Cluster.handleEvents dst (.requestVote args)
            ((s.nodes dst).handle (.requestVote args)).2)) b := by
  have hroute := hr.calls k _ hk
  have hself : .selfVote src args.term ∈ s.history := (hinv.calls k _ hk).1
  have hcand : args.candidateId = src := hroute.candidate args rfl
  simp only [RaftNode.handle]
  rcases RaftNode.handleRequestVote_cases (s.nodes dst) args with hold | ⟨-, hterm, hcases⟩
  · rw [hold, Cluster.setNode_self]
    exact ⟨a, .refl a, hrel.setCall hk (by rintro d ⟨⟩; exact ⟨rfl, rfl, rfl, id⟩)
      (by rintro d ⟨⟩; trivial)⟩
  · obtain ⟨b, hl, hsee⟩ := hrel.seeTerm (i := dst) args.term
    refine ⟨b, hl, ?_⟩
    rcases hcases with ⟨⟨-, hup⟩, hnode, hreply⟩ | hrefused
    · rw [hnode, hreply]
      have hgrant := hsee.grant ⟨args.term, true⟩ hk hroute.dst_ne hself
        (by simpa using hterm) (by simpa using hup)
      rw [Cluster.setNode_setNode, Cluster.setNode_nodes, Function.update_self] at hgrant
      simpa [Cluster.handleEvents, hcand] using hgrant
    · rw [hrefused]
      exact hsee.setCall hk (by rintro d ⟨⟩; exact ⟨rfl, rfl, rfl, id⟩) (by rintro d ⟨⟩; trivial)

/-! ## Entries -/

/-- A part of `l` of the length of `pre` that ends in the same term is `pre`. -/
lemma isPrefix_iff_lastTerm {l pre : List LogEntry}
    (hl : Matched LogEntry.term a l) (hp : Matched LogEntry.term a pre) :
    pre <+: l ↔
      pre = [] ∨ pre.length ≤ l.length ∧ lastTerm (l.take pre.length) = lastTerm pre := by
  constructor
  · intro h
    refine .inr ⟨h.length_le, ?_⟩
    rw [← List.prefix_iff_eq_take.mp h]
  · rintro (rfl | ⟨hlen, hterm⟩)
    · exact List.nil_prefix
    rcases List.eq_nil_or_concat pre with rfl | ⟨q, y, rfl⟩
    · exact List.nil_prefix
    rw [List.concat_eq_append] at hp hlen hterm ⊢
    obtain ⟨r, x, hrx⟩ : ∃ r x, l.take (q ++ [y]).length = r ++ [x] := by
      have hne : l.take (q ++ [y]).length ≠ [] := by
        rw [← List.length_pos_iff, List.length_take, min_eq_left hlen]
        simp
      obtain ⟨r, x, h⟩ := (List.eq_nil_or_concat _).resolve_left hne
      exact ⟨r, x, by rwa [List.concat_eq_append] at h⟩
    rw [hrx, lastTerm_concat, lastTerm_concat] at hterm
    have hr : r ++ [x] <+: l := hrx ▸ List.take_prefix _ _
    have hlength : r.length = q.length := by
      have := congrArg List.length hrx
      rw [List.length_take, min_eq_left hlen] at this
      simpa using this.symm
    exact matched_isPrefix hl hp hr List.prefix_rfl hlength hterm ▸ hr

/-- Hearing the leader of a term that is no earlier. -/
lemma LogRel.acceptLeader (hrel : LogRel m s a) {T l : ℤ} (hT : (s.nodes i).currentTerm ≤ T) :
    ((s.nodes i).acceptLeader T l).state = .follower ∧
      ((s.nodes i).acceptLeader T l).currentTerm = T ∧
      ∃ b, Later a b ∧ LogRel m (s.setNode i ((s.nodes i).acceptLeader T l)) b := by
  have hn := hrel.nodes i
  have hheard : LogRel m (s.setNode i { s.nodes i with leaderId := l }) a :=
    hrel.quiet (i := i) rfl (fun j _ => .refl _ j) hrel.calls (List.nil_append _).symm (by simp)
      { hn with log := hn.log.same rfl rfl rfl } (by simp) (by simp)
  have hfollow := hheard.becomeFollower (i := i) (T := T) (by simpa using hT)
  rw [Cluster.setNode_setNode, Cluster.setNode_nodes, Function.update_self] at hfollow
  unfold RaftNode.acceptLeader
  dsimp only
  split
  · exact ⟨rfl, rfl, hfollow⟩
  · rename_i hlt
    split
    · exact ⟨rfl, rfl, hfollow⟩
    · rename_i hstate
      exact ⟨not_not.mp hstate, le_antisymm hT (not_lt.mp hlt), a, .refl a, hheard⟩

/-- The commit index stays, or moves to the leader's or the end of the log. -/
lemma RaftNode.followCommit_cases (n : RaftNode) (c : ℤ) :
    n.followCommit c = n ∨ n.followCommit c = { n with commitIndex := min c n.lastLogIndex } := by
  unfold RaftNode.followCommit
  split
  · exact .inr rfl
  · exact .inl rfl

/-- What the append loop leaves alone besides the threads and the terms. -/
lemma RaftNode.appendLoop_still (es : List LogEntry) :
    ∀ (n : RaftNode) (i : ℤ), (n.appendLoop i es).commitIndex = n.commitIndex ∧
      (n.appendLoop i es).storage.SameRecords n.storage := by
  induction es with
  | nil => exact fun n i => ⟨rfl, .refl _⟩
  | cons e es ih =>
      intro n i
      have hentry : (n.appendEntry (i + 1) e).commitIndex = n.commitIndex ∧
          (n.appendEntry (i + 1) e).storage.SameRecords n.storage := by
        unfold RaftNode.appendEntry
        split
        · split
          · exact ⟨rfl, RocksDBStore.sameRecords_appendLog.trans
              RocksDBStore.sameRecords_truncateLog⟩
          · exact ⟨rfl, .refl _⟩
        · exact ⟨rfl, RocksDBStore.sameRecords_appendLog⟩
      exact ⟨(ih _ _).1.trans hentry.1, (ih _ _).2.trans hentry.2⟩

/-- The log after the append loop. -/
lemma NodeRel.log_accept {calls : ℕ → Option Call} {h : List Event} (habs : LogInv m a)
    (hn : NodeRel m a calls h i n) {args : AppendEntriesArgs} {reply : Option Reply}
    {pre com : List LogEntry} (hm : MessageOf m a i args reply pre com) (hpre : pre <+: a.log i) :
    (n.appendLoop args.prevLogIndex args.entries).HasLog
      ((a.accept i args.term (pre ++ args.entries)).log i) := by
  have hmatched := (habs.inv.full_matched _ hm.led).of_shorter hm.slice
  have hsame := sameTerms_of_matched (habs.inv.log_matched i) hmatched
  rw [hm.prevLogIndex]
  rcases RaftNode.HasLog.appendLoop (habs.numbered_of_matched hmatched) hn.log hpre hsame with
    ⟨hheld, hkept⟩ | ⟨hnot, hlog⟩
  · rw [hkept]
    simpa [State.accept, hheld] using hn.log
  · simpa [State.accept, hnot] using hlog

/-- The node takes over entries after a part of its log, and the leader's commit index. -/
lemma NodeRel.accept {calls : ℕ → Option Call} {h : List Event} (habs : LogInv m a)
    (hn : NodeRel m a calls h i n) {args : AppendEntriesArgs} {reply : Option Reply}
    {pre com : List LogEntry} (hm : MessageOf m a i args reply pre com)
    (hstate : n.state = .follower) (hterm : n.currentTerm = args.term) (hpre : pre <+: a.log i) :
    NodeRel m (a.accept i args.term (pre ++ args.entries)) calls h i
      ((n.appendLoop args.prevLogIndex args.entries).followCommit args.leaderCommit) := by
  have hT : a.term i = args.term := hn.term.trans hterm
  have hl : Later a (a.accept i args.term (pre ++ args.entries)) :=
    later_accept hT hm.led hm.slice
  set b := a.accept i args.term (pre ++ args.entries)
  set n₁ := n.appendLoop args.prevLogIndex args.entries with hn₁
  have hlog : n₁.HasLog (b.log i) := hn.log_accept habs hm hpre
  obtain ⟨hcommit, hrecords⟩ := RaftNode.appendLoop_still args.entries n args.prevLogIndex
  obtain ⟨-, hstate', hterm', -⟩ :=
    RaftNode.electionView_inj (RaftNode.appendLoop_view args.entries n args.prevLogIndex)
  obtain ⟨-, -, -, -, -, -, hworkers, -, -⟩ :=
    RaftNode.threads_inj (RaftNode.appendLoop_threads args.entries n args.prevLogIndex)
  rw [← hn₁] at hcommit hrecords hstate' hterm' hworkers
  rw [hstate] at hstate'
  -- whatever becomes of the commit index, the rest is as after the append loop
  have hrest : ∀ c : ℕ, c ≤ (b.log i).length → m.Decided b n.currentTerm ((b.log i).take c) →
      NodeRel m b calls h i { n₁ with commitIndex := c } := by
    intro c hle hdec
    refine
      { log := hlog.same rfl rfl rfl
        term := hn.term.trans hterm'.symm
        term_nonneg := hterm' ▸ hn.term_nonneg
        commit := ⟨c, rfl, hle, hterm' ▸ hdec⟩
        executor := (hn.executor.mono hl).still (RaftNode.appliedStill_appendLoop _ _ _) hrecords
        candidate := fun hs => by cases hstate'.symm.trans hs
        saved := fun hs => by cases hstate'.symm.trans hs
        asked := fun hs => by cases hstate'.symm.trans hs
        votes := fun hs => by cases hstate'.symm.trans hs
        leader := fun hs => by cases hstate'.symm.trans hs
        progress := fun hs => by cases hstate'.symm.trans hs
        workers := hworkers ▸ hn.workers
        waiting := fun k c args hc hsrc halive hreq =>
          ⟨hworkers ▸ (hn.waiting k c args hc hsrc halive hreq).1,
            fun hs => by cases hstate'.symm.trans hs⟩ }
  rcases n₁.followCommit_cases args.leaderCommit with hsame | hmoved
  · obtain ⟨c, hc, hle, hdec⟩ := hn.commit
    have hheld : (a.log i).take c <+: b.log i :=
      Decided.accept hm.led hm.slice Membership.quorum_inter habs.inv (hterm ▸ hdec)
        (List.take_prefix _ _)
    have hlen : ((a.log i).take c).length = c := by rw [List.length_take, min_eq_left hle]
    have htake : (b.log i).take c = (a.log i).take c := by
      rw [List.prefix_iff_eq_take.mp hheld, hlen]
    have hkept := hrest c (hlen ▸ hheld.length_le) (htake ▸ hdec.mono hl.ext le_rfl)
    rwa [← hc, ← hcommit, ← hsame] at hkept
  · have hc : min args.leaderCommit n₁.lastLogIndex =
        ((min com.length (b.log i).length : ℕ) : ℤ) := by
      rw [hm.leaderCommit, hlog.lastLogIndex, Nat.cast_min]
    have hpart : (b.log i).take (min com.length (b.log i).length) <+: com :=
      commit_of_accept habs.inv hT hm.led hm.slice hpre hm.behind hm.committed hm.heartbeat
        (min_le_left _ _)
    rw [hmoved, hc]
    exact hrest _ (min_le_right _ _)
      (hterm ▸ (hm.decided.mono hl.ext le_rfl).of_shorter hpart)

/-- Taking over entries is `accept`. -/
lemma LogRel.accept (hrel : LogRel m s a) {args : AppendEntriesArgs} {reply : Option Reply}
    {pre com : List LogEntry} (hm : MessageOf m a i args reply pre com)
    (hstate : (s.nodes i).state = .follower) (hterm : (s.nodes i).currentTerm = args.term)
    (hpre : pre <+: a.log i) :
    LogRel m (s.setNode i (((s.nodes i).appendLoop args.prevLogIndex args.entries).followCommit
      args.leaderCommit)) (a.accept i args.term (pre ++ args.entries)) := by
  have hn := hrel.nodes i
  have hT : a.term i = args.term := hn.term.trans hterm
  have hl : Later a (a.accept i args.term (pre ++ args.entries)) :=
    later_accept hT hm.led hm.slice
  refine logRel_of_node (i := i) (hrel.abs.accept hT hm.led hm.slice) rfl
    (hn.accept hrel.abs hm hstate hterm hpre) (fun j hj => ?_)
    (fun k c hc => (hrel.calls k c hc).mono hl) (hrel.events.mono hl fun _ => .rfl)
  exact hrel.other hl (by simp [State.accept, hj]) rfl
    (fun _ => ⟨rfl, by simp [State.accept, hj]⟩) (.refl _ _) fun _ => id

/-- Handling entries. -/
lemma LogRel.handle_appendEntries (hrel : LogRel m s a) {args : AppendEntriesArgs}
    (hk : s.calls k = some ⟨src, dst, .appendEntries args, none, alive⟩) :
    ∃ b, Later a b ∧
      LogRel m ((s.setNode dst ((s.nodes dst).handleAppendEntries args).1).setCall k
        (some ⟨src, dst, .appendEntries args,
          some (.appendEntries ((s.nodes dst).handleAppendEntries args).2), alive⟩)) b := by
  obtain ⟨pre, com, hm⟩ : ∃ pre com, MessageOf m a dst args none pre com := hrel.calls k _ hk
  by_cases hold : args.term < (s.nodes dst).currentTerm
  · -- an old message is refused with the newer term
    rw [RaftNode.handleAppendEntries, if_pos hold, Cluster.setNode_self]
    refine ⟨a, .refl a, hrel.setCall hk (by rintro d ⟨⟩; exact ⟨rfl, rfl, rfl, id⟩) ?_⟩
    rintro d ⟨⟩
    exact ⟨pre, com, { hm with
      accepted := by
        rintro r ⟨⟩ ⟨⟩
      refused := by
        rintro r ⟨⟩ - hle
        exact absurd hle (not_le.mpr hold) }⟩
  · obtain ⟨hstate, hterm, b, hl, hheard⟩ :=
      hrel.acceptLeader (i := dst) (T := args.term) (l := args.leaderId) (not_lt.mp hold)
    have hmb := hm.mono hl
    rw [RaftNode.handleAppendEntries, if_neg hold]
    dsimp only
    set n₁ := (s.nodes dst).acceptLeader args.term args.leaderId
    have hself : (s.setNode dst n₁).nodes dst = n₁ := by simp
    have hn := hheard.nodes dst
    rw [hself] at hn
    have hbterm : b.term dst = args.term := hn.term.trans hterm
    have hcheck : n₁.consistentAt args ↔ pre <+: b.log dst := by
      rw [hn.log.consistentAt_iff hmb.prevLogIndex, hmb.prevLogTerm]
      exact (isPrefix_iff_lastTerm (hheard.abs.inv.log_matched dst)
        ((hheard.abs.inv.full_matched _ hmb.led).of_shorter
          ((List.prefix_append _ _).trans hmb.slice))).symm
    split
    · rename_i hcons
      have hpre := hcheck.mp hcons
      have hl' := later_accept hbterm hmb.led hmb.slice
      have haccepted := hheard.accept (i := dst) hmb (by rwa [hself]) (by rwa [hself]) hpre
      rw [Cluster.setNode_setNode, hself] at haccepted
      refine ⟨_, hl.trans hl', haccepted.setCall hk (by rintro d ⟨⟩; exact ⟨rfl, rfl, rfl, id⟩) ?_⟩
      rintro d ⟨⟩
      refine ⟨pre, com, { hmb.mono hl' with
        accepted := ?_
        refused := by
          rintro r ⟨⟩ ⟨⟩ }⟩
      rintro r ⟨⟩ -
      exact ⟨by simp [State.accept],
        clean_of_accept hheard.abs.inv hbterm hmb.led hmb.slice hmb.behind⟩
    · rename_i hcons
      refine ⟨b, hl, hheard.setCall hk (by rintro d ⟨⟩; exact ⟨rfl, rfl, rfl, id⟩) ?_⟩
      rintro d ⟨⟩
      have hnot := mt hcheck.mpr hcons
      refine ⟨pre, com, { hmb with
        accepted := by
          rintro r ⟨⟩ ⟨⟩
        refused := by
          rintro r ⟨⟩ - -
          refine ⟨?_, hbterm.ge, fun _ => .inr hnot⟩
          rintro rfl
          exact hnot List.nil_prefix }⟩

/-- **Handling a request refines replication.** -/
lemma LogRel.handle (hr : Routed m s) (hinv : ElectionInv m s) (hrel : LogRel m s a)
    {request : Request} (hk : s.calls k = some ⟨src, dst, request, none, alive⟩) :
    ∃ b, Later a b ∧ LogRel m (((s.setNode dst ((s.nodes dst).handle request).1).setCall k
      (some ⟨src, dst, request, some ((s.nodes dst).handle request).2, alive⟩)).record
        (Cluster.handleEvents dst request ((s.nodes dst).handle request).2)) b := by
  cases request with
  | requestVote args => exact hrel.handle_requestVote hr hinv hk
  | appendEntries args => exact hrel.handle_appendEntries hk
  | installSnapshot args => exact (hrel.calls k _ hk).elim

end Calls

end RaftConsensus
