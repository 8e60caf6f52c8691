import RaftConsensus.Cluster.LogMessages

/-!
# Answers refine replication

The answer that decides an election is `elect`, an answer with a newer term is `raise`, and every
other answer only adds to what its receiver knows.  With that **`LogRel.step`** holds for all
steps, and **`LogRel.run`** for runs without crashes and compaction whose messages are built in
one step.
-/

namespace RaftConsensus

open Replication

variable {m : Membership} {a b : Logs} {s t : Cluster} {i j : ℤ} {n n' : RaftNode}
  {k : ℕ} {src dst : ℤ}

/-! ## Votes -/

/-- Nothing is recorded when nobody wins and nothing is committed. -/
lemma replyEvents_eq_nil (hstate : n'.state = .leader → n.state = .leader)
    (hcommit : n'.commitIndex = n.commitIndex) : Cluster.replyEvents i n n' = [] := by
  have hnot : ¬ (n.state ≠ .leader ∧ n'.state = .leader) := fun ⟨h₁, h₂⟩ => h₁ (hstate h₂)
  rw [Cluster.replyEvents, if_neg hnot, if_neg (not_not.mpr hcommit), List.append_nil]

/-- Winning an election is `elect`. -/
lemma LogRel.becomeLeader (hrel : LogRel m s a) (hconfig : (s.nodes i).config = m.config i)
    (hstate : (s.nodes i).state = .candidate) (hfree : ¬ a.led (s.nodes i).currentTerm)
    (hwon : ∃ A, m.Quorum A ∧ ∀ v ∈ A, Voted s.history v (s.nodes i).currentTerm i) :
    ∃ b, Later a b ∧ LogRel m ((s.setNode i (s.nodes i).becomeLeader).record
      [.elected i (s.nodes i).currentTerm]) b := by
  have hn := hrel.nodes i
  set T := (s.nodes i).currentTerm
  have hl : Later a (a.elect i T) := later_elect hrel.abs.inv hn.term hfree
  obtain ⟨hpos, hlt⟩ := hn.candidate hstate
  have habs : LogInv m (a.elect i T) := by
    refine hrel.abs.elect hn.term hfree hpos hlt ?_
    obtain ⟨A, hA, hvoted⟩ := hwon
    exact ⟨A, hA, fun v hv => hn.votes hstate hfree v (hvoted v hv)⟩
  have hstart : (a.elect i T).start T = a.log i := by simp [State.elect]
  have hfull : (a.elect i T).full T = a.log i := by simp [State.elect]
  refine ⟨_, hl, logRel_of_node (i := i) habs rfl ?_ (fun j hj => ?_)
    (fun k c hc => (hrel.calls k c hc).mono hl) ?_⟩
  · rw [RaftNode.becomeLeader_eq hstate]
    refine
      { log := hn.log.same rfl rfl rfl
        term := hn.term
        term_nonneg := hn.term_nonneg
        commit := ?_
        executor := (hn.executor.mono hl).still ⟨rfl, rfl, rfl⟩ (.refl _)
        candidate := fun hs => by cases hs
        saved := fun hs => by cases hs
        asked := fun hs => by cases hs
        votes := fun hs => by cases hs
        leader := fun _ => ⟨.inl rfl, hfull.symm, by simp [State.elect, T]⟩
        progress := fun _ p hp _ => ?_
        workers := hn.workers
        waiting := fun k c args hc hsrc halive hreq =>
          ⟨(hn.waiting k c args hc hsrc halive hreq).1, fun _ hT' => ?_⟩ }
    · obtain ⟨c, hc, hle, hdec⟩ := hn.commit
      exact ⟨c, hc, hle, hdec.mono hl.ext le_rfl⟩
    · have hpeer : p ∈ (s.nodes i).config.peers := by
        rw [hconfig]
        exact hp
      simp only [if_pos hpeer]
      refine ⟨⟨(a.log i).length, by rw [hn.log.lastLogIndex], ?_, fun hshort => ?_⟩, le_rfl, ?_⟩
      · exact hfull ▸ le_rfl
      · rw [hstart] at hshort
        exact absurd hshort (lt_irrefl _)
      · exact_mod_cast Nat.zero_le _
    · -- no message of this term has been sent
      have hc := hrel.calls k c hc
      rw [CallRel, hreq] at hc
      obtain ⟨pre, com, hm⟩ := hc
      have hsame : args.term = T := hT'
      exact absurd (hsame ▸ hm.led) hfree
  · refine hrel.other hl rfl rfl (fun hs => ?_) (.refl _ _) fun v hv => ?_
    · have hne : (s.nodes j).currentTerm ≠ T := fun h =>
        hfree (h ▸ ((hrel.nodes j).leader hs).1)
      simp [State.elect, hne, hj]
    · rcases hv with ⟨rfl, hv⟩ | hv
      · exact .inl ⟨rfl, (List.mem_cons.mp hv).resolve_left (by simp)⟩
      · exact .inr ((List.mem_cons.mp hv).resolve_left (by simp))
  · refine ⟨fun T' => ?_, fun v T' c hg => ?_, fun v T' l hl' => ?_, fun v e changed he => ?_⟩
    · show (T' = T ∨ a.led T') ↔ _
      rw [hrel.events.led]
      constructor
      · rintro (rfl | ⟨c, hc⟩)
        · exact ⟨i, List.mem_cons_self⟩
        · exact ⟨c, List.mem_cons_of_mem _ hc⟩
      · rintro ⟨c, hc⟩
        rcases List.mem_cons.mp hc with h | h
        · exact .inl (Event.elected.inj h).2
        · exact .inr ⟨c, h⟩
    · exact List.mem_cons_of_mem _ (hrel.events.granted v T' c (by simpa using hg))
    · exact (hrel.events.committed v T' l (by simpa using hl')).mono hl.ext le_rfl
    · obtain ⟨T', l, hdec⟩ := hrel.events.executed v e changed (by simpa using he)
      exact ⟨T', l, hdec.mono hl.ext le_rfl⟩

/-- A node that is a candidate leads a term that nobody has won. -/
lemma LogRel.not_led (hrel : LogRel m s a) (hinv : ElectionInv m s)
    (hstate : (s.nodes i).state = .candidate) (hinv' : ElectionInv m t)
    (hsub : s.history ⊆ t.history) (hwon : .elected i (s.nodes i).currentTerm ∈ t.history) :
    ¬ a.led (s.nodes i).currentTerm := by
  intro hled
  obtain ⟨c, hc⟩ := (hrel.events.led _).mp hled
  obtain rfl : c = i := hinv'.voting.won_unique c i _ (hsub hc) hwon
  rcases (hinv.voting.won_leads c _ hc).2 rfl with h | ⟨h, -⟩ <;>
    simp [Cluster.voting, hstate, Role.phase] at h

/-- Receiving a vote. -/
lemma LogRel.reply_requestVote (hr : Routed m s) (hinv : ElectionInv m s) (hrel : LogRel m s a)
    {args : RequestVoteArgs} {r : RequestVoteReply}
    (hk : s.calls k = some ⟨src, dst, .requestVote args, some (.requestVote r), true⟩) :
    ∃ b, Later a b ∧
      LogRel m (((s.setNode src ((s.nodes src).voteReply args.term r)).setCall k none).record
        (Cluster.replyEvents src (s.nodes src) ((s.nodes src).voteReply args.term r))) b := by
  rcases RaftNode.voteReply_cases (s.nodes src) args.term r with
    hsame | ⟨hlt, hfollow⟩ | ⟨hstate, hterm, hgranted, hcounted⟩
  · have hquiet : Cluster.replyEvents src (s.nodes src) (s.nodes src) = [] :=
      replyEvents_eq_nil id rfl
    rw [hsame, hquiet, Cluster.setNode_self]
    exact ⟨a, .refl a, hrel.setCall hk (by simp) (by simp)⟩
  · have hquiet : Cluster.replyEvents src (s.nodes src)
        ((s.nodes src).becomeFollower r.term) = [] := replyEvents_eq_nil (fun h => by cases h) rfl
    rw [hfollow, hquiet]
    obtain ⟨b, hl, hrel'⟩ := hrel.becomeFollower (i := src) hlt.le
    exact ⟨b, hl, hrel'.setCall hk (by simp) (by simp)⟩
  · have hn := hrel.nodes src
    have hcount : LogRel m (s.setNode src ((s.nodes src).countVote args.term)) a :=
      hrel.quiet (i := src) rfl (fun j _ => .refl _ j) hrel.calls (List.nil_append _).symm
        (by simp) { hn with log := hn.log.same rfl rfl rfl } (by simp) (by simp)
    rcases hcounted with ⟨-, hnode⟩ | ⟨hneeded, hnode⟩
    · have hquiet : Cluster.replyEvents src (s.nodes src)
          ((s.nodes src).countVote args.term) = [] := replyEvents_eq_nil id rfl
      rw [hnode, hquiet]
      exact ⟨a, .refl a, hcount.setCall hk (by simp) (by simp)⟩
    · -- the voters that have been counted are a quorum
      obtain ⟨A, hA, hcard, hvotes, -, -⟩ := hinv.tally_count hr rfl hgranted hk
      have hquorum : m.Quorum A := by
        refine Membership.quorum_of_votesNeeded (i := src) hA ?_
        rw [← (hr.nodes src).config, ← hneeded, hcard]
      have hcand : ((s.nodes src).countVote args.term).state = .candidate := hstate
      obtain ⟨hlead, hterm', -, -, -, -, -, hcommit⟩ := RaftNode.becomeLeader_spec hcand
      have hevents : Cluster.replyEvents src (s.nodes src)
          ((s.nodes src).countVote args.term).becomeLeader =
            [.elected src (s.nodes src).currentTerm] := by
        simp only [Cluster.replyEvents, hlead, hstate, hterm', hcommit]
        simp [RaftNode.countVote]
      have hself : (s.setNode src ((s.nodes src).countVote args.term)).nodes src =
          (s.nodes src).countVote args.term := by simp
      have hinv' := hinv.reply_vote hr hk
      rw [hnode, hevents] at hinv' ⊢
      have hfree : ¬ a.led (s.nodes src).currentTerm :=
        hrel.not_led hinv hstate hinv' (List.subset_cons_self _ _) List.mem_cons_self
      have hwon : ∃ A, m.Quorum A ∧ ∀ v ∈ A, Voted s.history v (s.nodes src).currentTerm src :=
        ⟨A, hquorum, hterm ▸ hvotes⟩
      obtain ⟨b, hl, hrel'⟩ := hcount.becomeLeader (i := src)
        (by rw [hself]; exact (hr.nodes src).config) (by rw [hself]; exact hcand)
        (by rw [hself]; exact hfree) (by rw [hself]; exact hwon)
      rw [Cluster.setNode_setNode, hself] at hrel'
      exact ⟨b, hl, hrel'.setCall hk (by simp) (by simp)⟩

/-! ## Acknowledgements -/

section Answer

variable {calls : ℕ → Option Call} {h : List Event}

/-- What a leader knows about one of its peers changes; no message to the peer is waited for. -/
lemma NodeRel.setProgress (hn : NodeRel m a calls h i n) (hstate : n.state = .leader) {p : ℤ}
    {next matched : ℤ} (hp : Progress a p n.currentTerm next matched)
    (hfree : ∀ k c args, calls k = some c → c.src = i → c.alive = true →
      c.request = .appendEntries args → c.dst ≠ p) :
    NodeRel m a calls h i { n with
      nextIndex := Function.update n.nextIndex p next
      matchIndex := Function.update n.matchIndex p matched } :=
  { hn with
    log := hn.log.same rfl rfl rfl
    progress := fun _ q hq hne => by
      by_cases hqp : q = p
      · subst hqp
        simpa using hp
      · simpa [hqp] using hn.progress hstate q hq hne
    waiting := fun k c args hc hsrc halive hreq => by
      have hne := hfree k c args hc hsrc halive hreq
      simpa [hne] using hn.waiting k c args hc hsrc halive hreq }

/-- The commit loop leaves the commit index, or finds an index that enough nodes have reached. -/
lemma RaftNode.commitLoop_cases (n : RaftNode) :
    n.commitLoop = n.commitIndex ∨
      (n.commitIndex < n.commitLoop ∧ n.commitLoop ≤ n.lastLogIndex) ∧
        (n.storage.getLogEntry n.commitLoop).term = n.currentTerm ∧
          (n.config.peers.length + 1) / 2 < n.countReplicas n.commitLoop := by
  unfold RaftNode.commitLoop
  cases hfind : List.find? _ _ with
  | none => exact .inl rfl
  | some N =>
      right
      have hmem := mem_loopRange.mp (List.mem_reverse.mp (List.mem_of_find?_eq_some hfind))
      have hfound := List.find?_some hfind
      refine ⟨⟨?_, hmem.2⟩, of_decide_eq_true hfound⟩
      rw [Option.getD_some]
      omega

/-- Enough nodes to count are a quorum. -/
lemma Membership.quorum_of_countReplicas (hconfig : n.config = m.config i) (hi : i ∈ m.ids)
    {N : ℤ} (hcount : (n.config.peers.length + 1) / 2 < n.countReplicas N) :
    ∃ A, m.Quorum A ∧ ∀ v ∈ A, v = i ∨ v ∈ m.ids ∧ v ≠ i ∧ N ≤ n.matchIndex v := by
  have hpeers : n.config.peers = m.ids := by rw [hconfig]; rfl
  have hmyId : n.config.myId = i := by rw [hconfig]; rfl
  rw [RaftNode.countReplicas, hpeers, hmyId, List.countP_eq_length_filter] at hcount
  set others := m.ids.filter fun p => decide (p ≠ i ∧ N ≤ n.matchIndex p) with hothers
  have hmem : ∀ v ∈ others, v ∈ m.ids ∧ v ≠ i ∧ N ≤ n.matchIndex v := by
    intro v hv
    simpa [hothers] using hv
  have hcard : (insert i others.toFinset).card = others.length + 1 := by
    rw [Finset.card_insert_of_notMem, List.toFinset_card_of_nodup (m.nodup.filter _)]
    intro hmi
    exact (hmem i (List.mem_toFinset.mp hmi)).2.1 rfl
  refine ⟨insert i others.toFinset, ⟨?_, by omega⟩, fun v hv => ?_⟩
  · refine Finset.insert_subset (List.mem_toFinset.mpr hi) fun v hv => ?_
    exact List.mem_toFinset.mpr (hmem v (List.mem_toFinset.mp hv)).1
  · exact (Finset.mem_insert.mp hv).imp_right fun hv => hmem v (List.mem_toFinset.mp hv)

/-- **What the commit loop commits is decided.** -/
lemma NodeRel.commitLoop (hn : NodeRel m a calls h i n) (hconfig : n.config = m.config i)
    (hi : i ∈ m.ids) (hstate : n.state = .leader) :
    ∃ c : ℕ, n.commitLoop = c ∧ c ≤ (a.log i).length ∧
      m.Decided a n.currentTerm ((a.log i).take c) := by
  rcases n.commitLoop_cases with hsame | ⟨⟨hlt, hle⟩, hterm, hcount⟩
  · rw [hsame]
    exact hn.commit
  obtain ⟨hled, hfull, hacked⟩ := hn.leader hstate
  obtain ⟨c₀, hc₀, -⟩ := hn.commit
  obtain ⟨c, hc⟩ : ∃ c : ℕ, n.commitLoop = c := ⟨n.commitLoop.toNat, by omega⟩
  rw [hc] at hlt hle hterm hcount
  rw [hn.log.lastLogIndex] at hle
  have hcle : c ≤ (a.log i).length := by omega
  rw [hn.log.storage.term_getLogEntry hcle] at hterm
  have hlen : ((a.log i).take c).length = c := by rw [List.length_take, min_eq_left hcle]
  have hne : (a.log i).take c ≠ [] := by
    rw [← List.length_pos_iff, hlen]
    omega
  obtain ⟨q, e, hqe⟩ := (List.eq_nil_or_concat _).resolve_left hne
  rw [List.concat_eq_append] at hqe
  rw [hqe, lastTerm_concat] at hterm
  obtain ⟨A, hA, hmatched⟩ := Membership.quorum_of_countReplicas hconfig hi hcount
  refine ⟨c, hc, hcle, .inr ⟨n.currentTerm, (a.log i).take c, le_rfl, ⟨hled, ?_, ⟨q, e, hqe, hterm⟩,
    A, hA, fun v hv => ?_⟩, List.prefix_rfl⟩⟩
  · rw [← hfull]
    exact List.take_prefix _ _
  · rw [hlen]
    rcases hmatched v hv with rfl | ⟨hv, hvi, hreached⟩
    · rwa [hacked]
    · have := (hn.progress hstate v hv hvi).matched_le
      omega

/-- The calls after one to `dst` has ended: no message to `dst` is waited for. -/
lemma LogRel.nothing_waited (hrel : LogRel m s a) {args : AppendEntriesArgs}
    {reply : Option Reply} (hk : s.calls k = some ⟨src, dst, .appendEntries args, reply, true⟩)
    {c' : Option Call} (hdead : ∀ d, c' = some d → d.alive ≠ true) :
    ∀ k' c args', Function.update s.calls k c' k' = some c → c.src = src → c.alive = true →
      c.request = .appendEntries args' → c.dst ≠ dst := by
  rintro k' c args' hc hsrc halive hreq rfl
  by_cases hkk : k' = k
  · subst hkk
    exact hdead c (by simpa using hc) halive
  · rw [Function.update_of_ne hkk] at hc
    have hw := ((hrel.nodes src).waiting k' c args' hc hsrc halive hreq).1
    have hw' := ((hrel.nodes src).waiting k _ args hk rfl rfl rfl).1
    exact hkk (Worker.calling.inj (hw.symm.trans hw'))

/-- A call for entries ends, and its thread with it. -/
lemma LogRel.idle (hrel : LogRel m s a) {args : AppendEntriesArgs} {reply : Option Reply}
    (hk : s.calls k = some ⟨src, dst, .appendEntries args, reply, true⟩) {c' : Option Call}
    (hc' : ∀ d, c' = some d → d = ⟨src, dst, .appendEntries args, reply, false⟩) :
    LogRel m ((s.setNode src ((s.nodes src).setWorker dst .idle)).setCall k c') a := by
  have hold := hrel.calls k _ hk
  have hended : LogRel m (s.setCall k c') a := by
    refine hrel.setCall hk (fun d hd => ?_) fun d hd => ?_
    · rw [hc' d hd]
      exact ⟨rfl, rfl, rfl, fun _ => rfl⟩
    · rw [hc' d hd]
      exact hold
  exact hended.quiet (i := src) rfl (fun j _ => .refl _ j) hended.calls (List.nil_append _).symm
    (by simp) ((hended.nodes src).setWorker (.inl rfl)
      (hrel.nothing_waited hk fun d hd => by simp [hc' d hd])) (by simp) (by simp)

/-- What an acknowledgement tells a leader. -/
lemma Progress.acknowledged {p T next matched : ℤ} (habs : LogInv m a)
    (hp : Progress a p T next matched) {args : AppendEntriesArgs} (hT : args.term = T)
    {r : AppendEntriesReply} {pre com : List LogEntry}
    (hm : MessageOf m a p args (some (.appendEntries r)) pre com) (hok : r.success = true)
    {last : LogEntry} (hlast : args.entries.getLast? = some last) :
    Progress a p T (max matched last.index + 1) (max matched last.index) := by
  subst hT
  obtain ⟨es, hes⟩ := List.getLast?_eq_some_iff.mp hlast
  obtain ⟨hacked, hclean⟩ := hm.accepted r rfl hok
  have hindex : last.index = pre.length + args.entries.length := by
    have hnum := (habs.numbered _ hm.led).of_shorter hm.slice
    rw [hes, ← List.append_assoc] at hnum
    rw [(hnum (pre ++ es).length last (by simp)).1, hes]
    simp [add_assoc]
  have hle : max matched last.index ≤ a.acked p args.term :=
    max_le hp.matched_le (by rw [hindex]; exact_mod_cast hacked)
  have hnonneg : 0 ≤ max matched last.index := hp.matched_nonneg.trans (le_max_left _ _)
  have hfull := habs.inv.acked_le p args.term
  refine ⟨⟨(max matched last.index).toNat, by omega, by omega, fun _ => ?_⟩, hnonneg, hle⟩
  exact (hclean (by simp [hes])).behind _

/-- What a refusal tells a leader that has not moved its index for the peer since. -/
lemma Progress.refused {p T next matched : ℤ} (habs : LogInv m a)
    (hp : Progress a p T next matched) {args : AppendEntriesArgs} (hT : args.term = T)
    (hnext : next = args.prevLogIndex + 1) {r : AppendEntriesReply} {pre com : List LogEntry}
    (hm : MessageOf m a p args (some (.appendEntries r)) pre com) (hno : r.success = false)
    (hterm : r.term ≤ T) : Progress a p T (next - 1) matched := by
  subst hT
  obtain ⟨hpre, hbehind⟩ := hm.refused r rfl hno hterm
  have hpos := List.length_pos_iff.mpr hpre
  have hfull : pre <+: a.full args.term := (List.prefix_append _ _).trans hm.slice
  have hlen := hfull.length_le
  rw [hm.prevLogIndex] at hnext
  refine ⟨⟨pre.length - 1, by omega, by omega, fun hlt => ?_⟩, hp.matched_nonneg, hp.matched_le⟩
  -- the entry that has been refused is one the leader started from
  have hstart : pre <+: a.start args.term :=
    List.prefix_of_prefix_length_le hfull (habs.inv.start_isPrefix hm.led) (by omega)
  rw [Nat.sub_add_cancel hpos, ← List.prefix_iff_eq_take.mp hstart]
  exact hbehind

/-- An answer that leaves the abstract state alone; what is committed then has to be decided. -/
lemma LogRel.receive (hrel : LogRel m s a) {c : Call} (hk : s.calls k = some c)
    (hstate : n.state = .leader → (s.nodes i).state = .leader)
    (hn : NodeRel m a (Function.update s.calls k none) s.history i n)
    (hcommitted : n.commitIndex ≠ (s.nodes i).commitIndex →
      m.Decided a n.currentTerm ((loopRange 1 n.commitIndex).map n.storage.getLogEntry)) :
    LogRel m (((s.setNode i n).setCall k none).record (Cluster.replyEvents i (s.nodes i) n)) a := by
  have hremoved : LogRel m (s.setCall k none) a := hrel.setCall hk (by simp) (by simp)
  have hnot : ¬ ((s.nodes i).state ≠ .leader ∧ n.state = .leader) := fun ⟨h₁, h₂⟩ => h₁ (hstate h₂)
  have hquiet := quiet_replyEvents (i := i) hstate
  refine hremoved.quiet (i := i) rfl (fun j _ => .refl _ j) hremoved.calls rfl hquiet hn
    (fun v T l hl => ?_) fun v e changed he => ?_
  · rw [Cluster.replyEvents, if_neg hnot, List.nil_append] at hl
    split at hl
    · rename_i hne
      cases List.mem_singleton.mp hl
      exact hcommitted hne
    · cases hl
  · rw [Cluster.replyEvents, if_neg hnot, List.nil_append] at he
    split at he
    · cases List.mem_singleton.mp he
    · cases he

/-- An answer to a message with entries. -/
lemma LogRel.reply_appendEntries (hr : Routed m s) (hrel : LogRel m s a) {args : AppendEntriesArgs}
    {r : AppendEntriesReply}
    (hk : s.calls k = some ⟨src, dst, .appendEntries args, some (.appendEntries r), true⟩) :
    ∃ b, Later a b ∧
      LogRel m (((s.setNode src ((s.nodes src).appendEntriesReply dst args r)).setCall k
        none).record (Cluster.replyEvents src (s.nodes src)
          ((s.nodes src).appendEntriesReply dst args r))) b := by
  obtain ⟨pre, com, hm⟩ : ∃ pre com, MessageOf m a dst args (some (.appendEntries r)) pre com :=
    hrel.calls k _ hk
  have hroute := hr.calls k _ hk
  have hidle : LogRel m ((s.setNode src ((s.nodes src).setWorker dst .idle)).setCall k none) a :=
    hrel.idle hk (by simp)
  have hfree : ∀ k' c args', Function.update s.calls k none k' = some c → c.src = src →
      c.alive = true → c.request = .appendEntries args' → c.dst ≠ dst :=
    hrel.nothing_waited hk (by simp)
  have hwait := ((hrel.nodes src).waiting k _ args hk rfl rfl rfl).2
  have hconfig := (hr.nodes src).config
  unfold RaftNode.appendEntriesReply
  dsimp only
  set n := (s.nodes src).setWorker dst .idle with hn
  have hself : ((s.setNode src n).setCall k none).nodes src = n := by simp
  have hnode : NodeRel m a (Function.update s.calls k none) s.history src n := by
    have hnodes := hidle.nodes src
    rwa [hself] at hnodes
  have hstill : ∃ b, Later a b ∧ LogRel m (((s.setNode src n).setCall k none).record
      (Cluster.replyEvents src (s.nodes src) n)) b :=
    ⟨a, .refl a, hrel.receive hk id hnode fun h => absurd rfl h⟩
  split
  · exact hstill
  rename_i hcurrent
  obtain ⟨hstate, hterm⟩ : n.state = .leader ∧ n.currentTerm = args.term := by
    rwa [not_or, not_not, not_not] at hcurrent
  have hprogress : Progress a dst n.currentTerm (n.nextIndex dst) (n.matchIndex dst) :=
    hnode.progress hstate dst hroute.dst_mem hroute.dst_ne
  split
  · rename_i hlt
    obtain ⟨b, hl, hb⟩ := hidle.becomeFollower (i := src) (T := r.term) (by
      rw [hself]
      exact hlt.le)
    have hquiet : Cluster.replyEvents src (s.nodes src) (n.becomeFollower r.term) = [] :=
      replyEvents_eq_nil (fun h => by cases h) rfl
    rw [hquiet]
    refine ⟨b, hl, ?_⟩
    rwa [Cluster.setNode_setCall, hself] at hb
  rename_i hle
  split
  · rename_i hok
    split
    · exact hstill
    · rename_i last hlast
      have hmatched := hnode.setProgress hstate
        (hprogress.acknowledged hrel.abs hterm.symm hm hok hlast) hfree
      obtain ⟨c, hc, hcle, hdec⟩ := hmatched.commitLoop hconfig hroute.src_mem hstate
      refine ⟨a, .refl a, hrel.receive hk id
        { hmatched with
          log := hmatched.log.same rfl rfl rfl
          commit := ⟨c, hc, hcle, hdec⟩ } fun _ => ?_⟩
      -- what is recorded is what the node holds up to the new commit index
      have hrange := hmatched.log.storage.map_loopRange (k := 0) hcle
      rw [Nat.cast_zero, zero_add, List.drop_zero, ← hc] at hrange
      exact hrange ▸ hdec
  · rename_i hno
    split
    · have hrefused := hnode.setProgress hstate
        (hprogress.refused hrel.abs hterm.symm (hwait hstate hterm.symm) hm (by simpa using hno)
          (not_lt.mp hle)) hfree
      rw [Function.update_eq_self] at hrefused
      exact ⟨a, .refl a, hrel.receive hk id hrefused fun h => absurd rfl h⟩
    · exact hstill

/-- An answer of another kind than the request is ignored. -/
lemma LogRel.reply_ignored (hrel : LogRel m s a) {c : Call} (hk : s.calls k = some c) :
    ∃ b, Later a b ∧ LogRel m (((s.setNode i (s.nodes i)).setCall k none).record
      (Cluster.replyEvents i (s.nodes i) (s.nodes i))) b :=
  ⟨a, .refl a, hrel.receive hk id ((hrel.nodes i).of_calls
    (callsLe_update hk (by simp)) fun _ => id) fun h => absurd rfl h⟩

/-- **Receiving an answer refines replication.** -/
lemma LogRel.reply (hr : Routed m s) (hinv : ElectionInv m s) (hrel : LogRel m s a)
    {request : Request} {reply : Reply}
    (hk : s.calls k = some ⟨src, dst, request, some reply, true⟩) :
    ∃ b, Later a b ∧
      LogRel m (((s.setNode src ((s.nodes src).receive dst request reply)).setCall k none).record
        (Cluster.replyEvents src (s.nodes src) ((s.nodes src).receive dst request reply))) b := by
  cases request with
  | requestVote args =>
      cases reply with
      | requestVote r => exact hrel.reply_requestVote hr hinv hk
      | appendEntries r => exact hrel.reply_ignored hk
      | installSnapshot r => exact hrel.reply_ignored hk
  | appendEntries args =>
      cases reply with
      | requestVote r => exact hrel.reply_ignored hk
      | appendEntries r => exact hrel.reply_appendEntries hr hk
      | installSnapshot r => exact hrel.reply_ignored hk
  | installSnapshot args => exact (hrel.calls k _ hk).elim

/-- Giving up on a call. -/
lemma LogRel.fail (hrel : LogRel m s a) {request : Request} {reply : Option Reply}
    (hk : s.calls k = some ⟨src, dst, request, reply, true⟩) :
    LogRel m ((s.setNode src ((s.nodes src).abandon dst request)).setCall k
      (some ⟨src, dst, request, reply, false⟩)) a := by
  cases request with
  | requestVote args =>
      rw [RaftNode.abandon, Cluster.setNode_self]
      exact hrel.setCall hk (by rintro d ⟨⟩; exact ⟨rfl, rfl, rfl, fun _ => rfl⟩)
        (by rintro d ⟨⟩; trivial)
  | appendEntries args => exact hrel.idle hk (by rintro d ⟨⟩; rfl)
  | installSnapshot args => exact (hrel.calls k _ hk).elim

end Answer

/-! ## Runs -/

/-- The steps of runs without crashes and without compaction, whose messages with entries are each
built from one state of their leader. -/
def Label.plain (s : Cluster) : Label → Prop
  | .thread i x => x.ofAtomicSender ∧ (x = .compactIfDue → ¬ (s.nodes i).compactionDue)
  | .crash _ => False
  | _ => True

instance (s : Cluster) : DecidablePred (Label.plain s)
  | .thread i x => inferInstanceAs
      (Decidable (x.ofAtomicSender ∧ (x = .compactIfDue → ¬ (s.nodes i).compactionDue)))
  | .crash _ => isFalse id
  | .handle _ | .reply _ | .fail _ => isTrue trivial

/-- **Every step refines replication.** -/
theorem LogRel.step (hr : Routed m s) (hinv : ElectionInv m s) (hrel : LogRel m s a) {l : Label}
    (hl : l.plain s) (hmove : s.Move m.ids l t) : ∃ b, Later a b ∧ LogRel m t b := by
  cases hmove with
  | thread _ hmove => exact hrel.thread hr hinv hl.1 hl.2 hmove
  | handle hk => exact hrel.handle hr hinv hk
  | reply hk => exact hrel.reply hr hinv hk
  | fail hk => exact ⟨a, .refl a, hrel.fail hk⟩
  | crash => exact hl.elim

end RaftConsensus
