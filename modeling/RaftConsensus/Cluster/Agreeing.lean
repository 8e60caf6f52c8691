import RaftConsensus.Cluster.Serving

/-!
# All nodes can be made equal

Wherever a plain run (without crashes and compaction, every message built in one step) has got to,
one more request is enough to bring all nodes together (`nodes_can_agree`): they hold the same log,
all of it committed and applied, and the same accounts and results.

Without a request that cannot be had.  A leader counts entries of its own term only, and a message
without entries tells it nothing about the peer, so what earlier leaders have left in the logs is
committed together with the next entry.

* `Informing` — after the last entry has been committed, messages without entries tell the peers.
* `Settling` — the executors, one after the other, apply what is left.
-/

namespace RaftConsensus

open Transition RaftNode CatchUp

variable {m : Membership} {s t u : Cluster} {x p : ℤ} {n n' : RaftNode} {l : List LogEntry}
  {ts : List ℤ} {cb : ℕ} {req : ClientRequest} {id : Bytes}

/-! ## Telling the peers -/

/-- A message without entries brings the commit index to a peer that has the whole log. -/
lemma Stage.heartbeat {leader follower : RaftNode} {j : ℕ}
    (h : Stage l l p l.length j (leader, follower)) (hcommit : leader.commitIndex = l.length)
    (hle : follower.commitIndex ≤ l.length) :
    (exchange p (leader, follower)).1 = leader.setWorker p .idle ∧
      (exchange p (leader, follower)).2.commitIndex = l.length := by
  have hshare : SharesPrefixes l l := fun _ _ _ _ _ _ => rfl
  obtain ⟨hatomic, hargs⟩ := h.toLeads.replicateAtomic h.next h.le
  have hsent : Sent l leader l.length (leader.appendEntriesArgs p) := by
    rw [hargs]
    exact ⟨rfl, rfl, rfl, rfl⟩
  have hacc := h.accepts hsent hshare ⟨le_rfl, rfl⟩
  have hnil : (leader.appendEntriesArgs p).entries = [] := by simp [hsent.entries]
  have hlead : (leader.setWorker p (.calling 0)).state = .leader := h.may.2.2
  have heq : exchange p (leader, follower) =
      ((leader.setWorker p (.calling 0)).appendEntriesReply p (leader.appendEntriesArgs p)
        (follower.handleAppendEntries (leader.appendEntriesArgs p)).2,
        (follower.handleAppendEntries (leader.appendEntriesArgs p)).1) := by
    rw [exchange]
    simp only [hatomic]
  rw [heq, handleAppendEntries_of_accepts hacc]
  constructor
  · rw [appendEntriesReply_empty hlead hsent.term.symm rfl hnil, setWorker_setWorker]
  · obtain ⟨hc, -, hlast, -⟩ := follower.logStill_acceptLeader
      (leader.appendEntriesArgs p).term (leader.appendEntriesArgs p).leaderId
    have hleader : (leader.appendEntriesArgs p).leaderCommit = l.length := hcommit
    rw [hnil, appendLoop, followCommit, hleader, hc, hlast, h.held.lastLogIndex]
    split
    · exact min_self _
    · exact hc.trans (by omega)

/-- All hold the log `l` and node `x`, the leader, has committed it; the peers in `ts` have still to
be told. -/
structure Informing (m : Membership) (x : ℤ) (l : List LogEntry) (ts : List ℤ) (t : Cluster) :
    Prop where
  sound : Sound m t
  logs : ∀ p ∈ m.ids, (t.nodes p).HasLog l
  lead : (t.nodes x).state = .leader
  terms : ∀ p ∈ m.ids, (t.nodes p).currentTerm ≤ (t.nodes x).currentTerm
  known : ∀ p ∈ m.ids, p ≠ x →
    (t.nodes x).nextIndex p = l.length + 1 ∧ (t.nodes x).matchIndex p = l.length
  commit : (t.nodes x).commitIndex = l.length
  nodup : ts.Nodup
  targets : ∀ p ∈ ts, p ∈ m.ids ∧ p ≠ x
  informed : ∀ p ∈ m.ids, p ∉ ts → (t.nodes p).commitIndex = l.length

/-- A node has committed no more than it holds. -/
lemma Sound.commitIndex_le (h : Sound m t) (hlog : (t.nodes x).HasLog l) :
    (t.nodes x).commitIndex ≤ l.length := by
  obtain ⟨a, hrel⟩ := h.logs
  obtain rfl := hlog.unique (hrel.nodes x).log
  obtain ⟨c, hc, hle, -⟩ := (hrel.nodes x).commit
  omega

namespace Informing

/-- The peers are told one after the other. -/
lemma tell (hx : x ∈ m.ids) (h : Informing m x l (p :: ts) t) :
    CanReach (Cluster.step m.ids) (fun _ => Label.replicating) t (Informing m x l ts) := by
  have hplain : ∀ (t : Cluster) (l : Label) (u : Cluster), Sound m t → l.replicating →
      Cluster.step m.ids t l = some u → Sound m u := fun t l u ht hl hs =>
    ht.step (Label.plain_of_replicating hl) hs
  obtain ⟨hp, hpx⟩ := h.targets p List.mem_cons_self
  have hnot : p ∉ ts := (List.nodup_cons.mp h.nodup).1
  refine ((h.sound.canReach_idle x p).keeping h.sound hplain).trans ?_
  rintro u ⟨hsu, hu⟩
  have hself := Cluster.nodes_update_self hu
  have hother : ∀ q, q ≠ x → u.nodes q = t.nodes q := fun q hq => by
    rw [hu, Function.update_of_ne hq]
  obtain ⟨hnext, hmatch⟩ := h.known p hp hpx
  obtain ⟨hnum, -⟩ := h.sound.sharesPrefixes (h.logs x hx) (h.logs p hp)
  have hlog : ((t.nodes x).setWorker p .idle).HasLog l := (h.logs x hx).same rfl rfl rfl
  have hstage : Stage l l p l.length l.length (u.nodes x, u.nodes p) := by
    rw [hself, hother p hpx]
    exact
      { log := hlog.logFrom
        numbered := hnum
        may := ⟨(h.sound.routed.nodes x).mem_stubs.mpr ⟨hp, hpx⟩, Function.update_self p _ _,
          h.lead⟩
        term := h.terms p hp
        held := (h.logs p hp).logFrom
        next := hnext
        known := hmatch
        le := le_rfl }
  have hcommit : (u.nodes x).commitIndex = l.length := by
    rw [hself]
    exact h.commit
  obtain ⟨hleader, htold⟩ := hstage.heartbeat hcommit
    (by rw [hother p hpx]; exact h.sound.commitIndex_le (h.logs p hp))
  have hafter := hstage.exchange_idle (fun _ _ _ _ _ _ => rfl) ⟨le_rfl, rfl⟩
  refine ((Stage.canReach hx hpx hstage).keeping hsu hplain).imp ?_
  rintro v ⟨hsv, hv⟩
  have hvx : v.nodes x = (u.nodes x).setWorker p .idle := by
    rw [hv, Function.update_of_ne hpx.symm, Function.update_self, hleader]
  have hvp : v.nodes p = (exchange p (u.nodes x, u.nodes p)).2 := by
    rw [hv, Function.update_self]
  have hvq : ∀ q, q ≠ x → q ≠ p → v.nodes q = t.nodes q := fun q hqx hqp => by
    rw [hv, Function.update_of_ne hqp, Function.update_of_ne hqx, hother q hqx]
  rw [hself, setWorker_setWorker] at hvx
  refine
    { sound := hsv
      logs := fun q hq => ?_
      lead := by rw [hvx]; exact h.lead
      terms := fun q hq => ?_
      known := fun q hq hqx => by rw [hvx]; exact h.known q hq hqx
      commit := by rw [hvx]; exact h.commit
      nodup := (List.nodup_cons.mp h.nodup).2
      targets := fun q hq => h.targets q (List.mem_cons_of_mem p hq)
      informed := fun q hq hqts => ?_ }
  · by_cases hqx : q = x
    · subst hqx
      rwa [hvx]
    by_cases hqp : q = p
    · subst hqp
      exact hsv.hasLog (hvp ▸ hafter.held)
    · rw [hvq q hqx hqp]
      exact h.logs q hq
  · have hterm : (v.nodes x).currentTerm = (t.nodes x).currentTerm := by
      rw [hvx]
      rfl
    by_cases hqx : q = x
    · rw [hqx]
    by_cases hqp : q = p
    · subst hqp
      have hle := hafter.term
      have hsame : (u.nodes x).currentTerm = (t.nodes x).currentTerm := by
        rw [hself]
        rfl
      rw [hleader] at hle
      rw [hvp, hterm, ← hsame]
      exact hle
    · rw [hvq q hqx hqp, hterm]
      exact h.terms q hq
  · by_cases hqx : q = x
    · subst hqx
      rw [hvx]
      exact h.commit
    by_cases hqp : q = p
    · subst hqp
      rw [hvp]
      exact htold
    · rw [hvq q hqx hqp]
      exact h.informed q hq fun hmem => (List.mem_cons.mp hmem).elim hqp hqts

end Informing

/-! ## Executing what is left -/

/-- The entries that an executor is still to apply. -/
def RaftNode.Finished (n : RaftNode) (l : List LogEntry) : Prop :=
  n.executor = .waiting ∧ n.lastApplied = l.length

/-- All hold the log `l` and know it to be committed; the executors of the nodes in `ts` have still
to finish. -/
structure Settling (m : Membership) (x : ℤ) (l : List LogEntry) (ts : List ℤ) (t : Cluster) :
    Prop where
  sound : Sound m t
  mem : x ∈ m.ids
  lead : (t.nodes x).state = .leader
  terms : ∀ p ∈ m.ids, (t.nodes p).currentTerm ≤ (t.nodes x).currentTerm
  logs : ∀ p ∈ m.ids, (t.nodes p).HasLog l
  commit : ∀ p ∈ m.ids, (t.nodes p).commitIndex = l.length
  targets : ∀ p ∈ ts, p ∈ m.ids
  finished : ∀ p ∈ m.ids, p ∉ ts → (t.nodes p).Finished l

namespace Settling

/-- No executor is beyond the log. -/
lemma applied_le (h : Settling m x l ts t) (p : ℤ) : (t.nodes p).lastApplied ≤ l.length ∧
    ∀ entry rest msg, (t.nodes p).executor = .written entry rest msg →
      entry.index = (t.nodes p).lastApplied + 1 ∧ entry.index ≤ l.length := by
  obtain ⟨a, hrel⟩ := h.sound.logs
  obtain ⟨l', T, hdec, -, -, hwhere⟩ := (hrel.nodes p).executor
  have hle := (hrel.decided_isPrefix (hdec.of_shorter (List.prefix_append _ _)) h.lead
    h.terms).length_le
  rw [(hrel.nodes x).log.unique (h.logs x h.mem)] at hle
  cases hex : (t.nodes p).executor with
  | written entry rest msg =>
      rw [hex] at hwhere
      obtain ⟨happlied, hindex⟩ := hwhere
      refine ⟨by omega, ?_⟩
      rintro entry' rest' msg' ⟨⟩
      exact ⟨by omega, by omega⟩
  | computed entry rest senderNewBal receiverNewBal msg =>
      rw [hex] at hwhere
      exact ⟨by omega, by simp⟩
  | waiting | applying | notified =>
      rw [hex] at hwhere
      dsimp only at hwhere
      exact ⟨by omega, by simp⟩

/-- A step of an executor that has still to finish. -/
lemma next {a : ThreadStep} {out : Output} (h : Settling m x l (p :: ts) t)
    (hstep : (t.nodes p).step t.nextCall a = some (n, out))
    (hok : Label.serving cb req t (.thread p a)) (hlog : n.HasLog l)
    (hsame : n.commitIndex = (t.nodes p).commitIndex ∧
      n.currentTerm = (t.nodes p).currentTerm ∧ n.state = (t.nodes p).state)
    (hrank : n.executorRank l < (t.nodes p).executorRank l) :
    CanReach (Cluster.step m.ids) (Label.serving cb req) t fun u =>
      Settling m x l (p :: ts) u ∧ (u.nodes p).executorRank l < (t.nodes p).executorRank l := by
  have hp := h.targets p List.mem_cons_self
  refine Cluster.canReach_thread hp hstep hok fun u hs hu => .here ?_
  have hself := Cluster.nodes_update_self hu
  have hother : ∀ q, q ≠ p → u.nodes q = t.nodes q := fun q hq => by
    rw [hu, Function.update_of_ne hq]
  have hkept : ∀ q, (u.nodes q).commitIndex = (t.nodes q).commitIndex ∧
      (u.nodes q).currentTerm = (t.nodes q).currentTerm ∧
        (u.nodes q).state = (t.nodes q).state := by
    intro q
    by_cases hqp : q = p
    · subst hqp
      rwa [hself]
    · rw [hother q hqp]
      exact ⟨rfl, rfl, rfl⟩
  refine ⟨?_, by rwa [hself]⟩
  exact
    { sound := h.sound.step hok.1 hs
      mem := h.mem
      lead := (hkept x).2.2.trans h.lead
      terms := fun q hq => by
        rw [(hkept q).2.1, (hkept x).2.1]
        exact h.terms q hq
      logs := fun q hq => by
        by_cases hqp : q = p
        · subst hqp
          rwa [hself]
        · rw [hother q hqp]
          exact h.logs q hq
      commit := fun q hq => (hkept q).1.trans (h.commit q hq)
      targets := h.targets
      finished := fun q hq hqts => by
        rw [hother q (List.ne_of_not_mem_cons hqts)]
        exact h.finished q hq hqts }

/-- **An executor comes closer to the end of the log**, or has finished. -/
lemma advance (h : Settling m x l (p :: ts) t) : (t.nodes p).Finished l ∨
    CanReach (Cluster.step m.ids) (Label.serving cb req) t fun u =>
      Settling m x l (p :: ts) u ∧ (u.nodes p).executorRank l < (t.nodes p).executorRank l := by
  have hp := h.targets p List.mem_cons_self
  have hlog := h.logs p hp
  obtain ⟨hle, hwritten⟩ := h.applied_le p
  cases hex : (t.nodes p).executor with
  | waiting =>
      obtain heq | hlt := hle.eq_or_lt
      · exact .inl ⟨hex, heq⟩
      have hless : (t.nodes p).lastApplied < (t.nodes p).commitIndex := by
        rwa [h.commit p hp]
      refine .inr (h.next (step_fetchBatch hex hless) (serving_thread trivial (by simp) trivial)
        (hlog.same rfl rfl rfl) ⟨rfl, rfl, rfl⟩ ?_)
      exact executorRank_fetchBatch hex hless
  | applying entry rest =>
      refine .inr (h.next (step_readBalances hex) (serving_thread trivial (by simp) trivial)
        (hlog.same rfl rfl rfl) ⟨rfl, rfl, rfl⟩ ?_)
      simp [executorRank, hex]
  | computed entry rest senderNewBal receiverNewBal msg =>
      refine .inr (h.next (step_applyEntry hex) (serving_thread trivial (by simp) trivial)
        ⟨hlog.storage.applyTransaction, hlog.lastLogIndex, hlog.lastLogTerm⟩ ⟨rfl, rfl, rfl⟩ ?_)
      simp [executorRank, hex]
  | written entry rest msg =>
      obtain ⟨hindex, hin⟩ := hwritten entry rest msg hex
      refine .inr (h.next (step_notifyClient _ hex) (serving_thread trivial (by simp) trivial)
        (hlog.same rfl rfl rfl) ⟨rfl, rfl, rfl⟩ ?_)
      simp only [executorRank, hex]
      omega
  | notified rest =>
      refine .inr (h.next (step_skipCompaction hex) (serving_thread trivial (by simp) trivial)
        (hlog.same rfl rfl rfl) ⟨rfl, rfl, rfl⟩ ?_)
      exact executorRank_skipCompaction hex

/-- The executors finish one after the other. -/
lemma settle (h : Settling m x l (p :: ts) t) :
    CanReach (Cluster.step m.ids) (Label.serving cb req) t (Settling m x l ts) := by
  refine CanReach.of_measure (I := Settling m x l (p :: ts))
    (fun u => (u.nodes p).executorRank l) (fun u hu => ?_) h
  refine hu.advance.imp_left fun hdone => ?_
  exact { hu with
    targets := fun q hq => hu.targets q (List.mem_cons_of_mem p hq)
    finished := fun q hq hqts => by
      by_cases hqp : q = p
      · exact hqp ▸ hdone
      · exact hu.finished q hq fun hmem => (List.mem_cons.mp hmem).elim hqp hqts }

end Settling

/-! ## Bringing the nodes together -/

/-- All nodes hold the log `l`, have committed and applied all of it, and have what executing it
leaves behind. -/
structure Agreed (m : Membership) (l : List LogEntry) (t : Cluster) : Prop where
  logs : ∀ i ∈ m.ids, (t.nodes i).HasLog l
  commit : ∀ i ∈ m.ids, (t.nodes i).commitIndex = l.length
  finished : ∀ i ∈ m.ids, (t.nodes i).Finished l
  records : ∀ i ∈ m.ids,
    (t.nodes i).storage.SameRecords (RocksDBStore.genesis.executeAll l)

/-- An executor that has finished has executed the log. -/
lemma Settling.agreed (h : Settling m x l [] t) : Agreed m l t where
  logs := h.logs
  commit := h.commit
  finished i hi := h.finished i hi (by simp)
  records i hi := by
    obtain ⟨a, hrel⟩ := h.sound.logs
    obtain ⟨hwaiting, happlied⟩ := h.finished i hi (by simp)
    obtain ⟨l', T, hdec, -, hsame, hwhere⟩ := (hrel.nodes i).executor
    have hpre := hrel.decided_isPrefix (hdec.of_shorter (List.prefix_append _ _)) h.lead h.terms
    rw [(hrel.nodes x).log.unique (h.logs x h.mem)] at hpre
    rw [hwaiting] at hwhere
    dsimp only at hwhere
    have heq : l' = l := hpre.eq_of_length (by omega)
    rwa [heq] at hsame

/-- After the request has been brought to everybody, only the peers' commit indices are behind. -/
lemma Brought.informing (h : Brought m x cb req l t u) :
    Informing m x l (m.config x).peerStubs u where
  sound := h.undisturbed.toSound
  logs p hp := by
    by_cases hpx : p = x
    · rw [hpx]
      exact h.spreading.log
    · exact (h.spreading.reached p hp hpx (by simp)).2.2
  lead := h.spreading.lead
  terms := h.spreading.terms
  known p hp hpx :=
    have hreached := h.spreading.reached p hp hpx (by simp)
    ⟨hreached.1, hreached.2.1⟩
  commit := le_antisymm (h.undisturbed.commitIndex_le h.spreading.log) h.commit
  nodup := List.nodup_dedup _
  targets p hp := Membership.mem_peerStubs.mp hp
  informed p hp hnot := by
    have hpx : p = x := by
      by_contra hne
      exact hnot (Membership.mem_peerStubs.mpr ⟨hp, hne⟩)
    rw [hpx]
    exact le_antisymm (h.undisturbed.commitIndex_le h.spreading.log) h.commit

/-- When all have been told, the executors are left. -/
lemma Informing.settling (hx : x ∈ m.ids) (h : Informing m x l [] t) : Settling m x l m.ids t where
  sound := h.sound
  mem := hx
  lead := h.lead
  terms := h.terms
  logs := h.logs
  commit p hp := h.informed p hp (by simp)
  targets _ hp := hp
  finished _ hp hnot := absurd hp hnot

/-- An election leaves the stored results alone. -/
lemma getRequestResult_of_offElection (h : n'.offElection = n.offElection) :
    n'.storage.getRequestResult id = n.storage.getRequestResult id := by
  have hstored := congrFun (congrArg OffElection.stored h) (reqKey id)
  have hkey : ¬ (reqKey id = termKey ∨ reqKey id = voteKey) := by
    rintro (h | h) <;> exact ne_of_head (by simp) h
  simp only [offElection, RocksDBStore.offHardState, if_neg hkey] at hstored
  rw [RocksDBStore.getRequestResult, RocksDBStore.getRequestResult, hstored]

/-- **All nodes can be made equal.**  From every state of a plain run, with one more request that
has not been executed yet, all nodes get to hold one log that ends with the request, have all of it
committed and applied, and have the same accounts and results. -/
theorem nodes_can_agree (m : Membership) (hm : 2 ≤ m.ids.length) {ls : List Label}
    (hrun : PlainRun m.ids (.init m.ids fun _ => .genesis) ls s)
    (hfree : ∀ i ∈ m.ids, (s.nodes i).requests cb = none)
    (hpending : ∀ i ∈ m.ids, (s.nodes i).pendingCallbacks req.requestId = none)
    (hnew : ∀ i ∈ m.ids, (s.nodes i).storage.getRequestResult req.requestId = []) :
    ∃ ks t, Run (Cluster.step m.ids) (Label.serving cb req) s ks t ∧
      ∃ l e, e.command = req ∧ Agreed m (l ++ [e]) t := by
  suffices hreach : CanReach (Cluster.step m.ids) (Label.serving cb req) s fun t =>
      ∃ l e, e.command = req ∧ Agreed m (l ++ [e]) t from hreach
  refine ((Undisturbed.of_run hrun).canReach_leader hm).trans ?_
  rintro t ⟨hund, x, hlead, hknows⟩
  have hrequests := congrFun (congrArg OffElection.requests (hlead.off x)) cb
  have hcallbacks := congrFun (congrArg OffElection.pendingCallbacks (hlead.off x)) req.requestId
  have hnone := (getRequestResult_of_offElection (hlead.off x)).trans (hnew x hlead.mem)
  obtain ⟨a, hrel⟩ := hund.logs
  refine (hlead.canReach_brought hm hknows hund (hrel.nodes x).log
    (hrequests.trans (hfree x hlead.mem)) (hcallbacks.trans (hpending x hlead.mem)) hnone).trans ?_
  intro v hv
  have htold : CanReach (Cluster.step m.ids) (fun _ => Label.replicating) v _ :=
    CanReach.forall_tasks (I := Informing m x _) (fun _ _ _ h => h.tell hlead.mem) _
      hv.informing
  refine (htold.mono fun _ _ => Label.serving_of_replicating).trans fun w hw => ?_
  have hsettled : CanReach (Cluster.step m.ids) (Label.serving cb req) w _ :=
    CanReach.forall_tasks (I := Settling m x _) (fun _ _ _ h => h.settle) _
      (hw.settling hlead.mem)
  exact hsettled.imp fun _ hz => ⟨_, _, rfl, hz.agreed⟩

/-- A follower that has not heard of the entry of the first client can still catch up. -/
theorem nodes_can_agree_pair :
    ∃ s, PlainRun pair.ids (.init pair.ids fun _ => RocksDBStore.genesis)
        (campaign 1 1 ++ [.handle 0, .reply 0] ++
          takeRequest 1 0 (transfer (Bytes.ascii "r") 50)) s ∧
      ∃ ks t, Run (Cluster.step pair.ids) (Label.serving 1 (transfer (Bytes.ascii "q") 70)) s ks t ∧
        ∃ l e, e.command = transfer (Bytes.ascii "q") 70 ∧ Agreed pair (l ++ [e]) t := by
  have hruns : ∃ s, PlainRun pair.ids (.init pair.ids fun _ => RocksDBStore.genesis)
      (campaign 1 1 ++ [.handle 0, .reply 0] ++
        takeRequest 1 0 (transfer (Bytes.ascii "r") 50)) s ∧
      (∀ i ∈ pair.ids, (s.nodes i).requests 1 = none) ∧
        (∀ i ∈ pair.ids, (s.nodes i).pendingCallbacks (Bytes.ascii "q") = none) ∧
          ∀ i ∈ pair.ids, (s.nodes i).storage.getRequestResult (Bytes.ascii "q") = [] :=
    run_of_after (by decide +kernel)
  obtain ⟨s, hrun, hfree, hpending, hnew⟩ := hruns
  exact ⟨s, hrun, nodes_can_agree pair (by decide) hrun hfree hpending hnew⟩

end RaftConsensus
