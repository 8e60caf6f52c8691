import RaftConsensus.Cluster.Electable
import RaftConsensus.Cluster.LeaderAppendOnly
import RaftConsensus.Node.Convergence
import RaftConsensus.Node.Thresholds

/-!
# A leader can bring its log to everybody

A leader whose last entry nobody else has yet can get all nodes to hold its log, and then has
committed it (`Cluster.canReach_spread`): it goes through its peers, gives up what its thread for
the peer waits for, and exchanges messages with the peer until the two agree.

* `Exchanged` — an exchange moves what the leader knows about the one peer, and its commit index.
* `RaftNode.Settled` — the commit loop has nothing to do; it is run whenever there may be something.
* `Spreading` — some peers have the log, and the others are as they were.
-/

namespace RaftConsensus

open Transition RaftNode CatchUp

variable {m : Membership} {s t u : Cluster} {x p q : ℤ} {n n' : RaftNode} {l r : List LogEntry}
  {k : ℕ}

/-! ## What an exchange does to the leader -/

namespace RaftNode

/-- Nothing can be committed by counting. -/
def Settled (n : RaftNode) : Prop := ∀ N, ¬ n.Committable N

/-- After the commit loop nothing is left to commit. -/
lemma settled_commitLoop (n : RaftNode) : Settled { n with commitIndex := n.commitLoop } := by
  rintro N ⟨hbeyond, hin, hterm, hcount⟩
  have hbefore : n.Committable N :=
    ⟨n.commitIndex_le_commitLoop.trans_lt hbeyond, hin, hterm, hcount⟩
  exact absurd hbeyond (not_lt.mpr hbefore.le_commitLoop)

/-- The node off its peers. -/
def offPeers (n : RaftNode) : RaftNode :=
  { n with
    workers := fun _ => .idle
    nextIndex := fun _ => 0
    matchIndex := fun _ => 0
    commitIndex := 0 }

lemma offPeers_inj (h : n'.offPeers = n.offPeers) :
    n'.config = n.config ∧ n'.storage = n.storage ∧ n'.currentTerm = n.currentTerm ∧
      n'.lastLogIndex = n.lastLogIndex ∧ n'.lastLogTerm = n.lastLogTerm ∧ n'.state = n.state ∧
      n'.lastApplied = n.lastApplied ∧ n'.pendingCallbacks = n.pendingCallbacks ∧
      n'.executor = n.executor := by
  simp only [offPeers, RaftNode.mk.injEq] at h
  tauto

/-- From `n` to `n'` the node has dealt with peer `p` only. -/
structure Exchanged (p : ℤ) (n n' : RaftNode) : Prop where
  off : n'.offPeers = n.offPeers
  next : ∀ q, q ≠ p → n'.nextIndex q = n.nextIndex q
  matched : ∀ q, q ≠ p → n'.matchIndex q = n.matchIndex q
  settled : n.Settled → n'.Settled

namespace Exchanged

lemma refl (p : ℤ) (n : RaftNode) : Exchanged p n n :=
  ⟨rfl, fun _ _ => rfl, fun _ _ => rfl, id⟩

lemma trans {n'' : RaftNode} (h : Exchanged p n n') (h' : Exchanged p n' n'') :
    Exchanged p n n'' :=
  ⟨h'.off.trans h.off, fun q hq => (h'.next q hq).trans (h.next q hq),
    fun q hq => (h'.matched q hq).trans (h.matched q hq), h'.settled ∘ h.settled⟩

lemma setWorker (n : RaftNode) (p : ℤ) (w : Worker) : Exchanged p n (n.setWorker p w) :=
  ⟨rfl, fun _ _ => rfl, fun _ _ => rfl, fun h N hN => h N ⟨hN.1, hN.2, hN.3, hN.4⟩⟩

/-- The answer of a peer that has not gone on to a newer term. -/
lemma appendEntriesReply {args : AppendEntriesArgs} {reply : AppendEntriesReply}
    (h : reply.term ≤ args.term) : Exchanged p n (n.appendEntriesReply p args reply) := by
  refine (setWorker n p .idle).trans ?_
  rw [RaftNode.appendEntriesReply]
  dsimp only
  split
  · exact refl p _
  rename_i hlead
  rw [not_or, not_not, not_not] at hlead
  rw [if_neg (not_lt.mpr (hlead.2 ▸ h))]
  split
  · cases args.entries.getLast? with
    | none => exact refl p _
    | some last =>
        refine ⟨rfl, fun q hq => ?_, fun q hq => ?_, fun _ => settled_commitLoop _⟩
        · exact Function.update_of_ne hq _ _
        · exact Function.update_of_ne hq _ _
  · split
    · refine ⟨rfl, fun q hq => Function.update_of_ne hq _ _, fun _ _ => rfl, fun h N hN => ?_⟩
      exact h N ⟨hN.1, hN.2, hN.3, hN.4⟩
    · exact refl p _

end Exchanged

@[simp] lemma setWorker_setWorker (n : RaftNode) (p : ℤ) (w w' : Worker) :
    (n.setWorker p w).setWorker p w' = n.setWorker p w' := by
  simp [setWorker]

/-- The thread that has waited is gone when its answer is dealt with. -/
lemma appendEntriesReply_setWorker (w : Worker) (args : AppendEntriesArgs)
    (reply : AppendEntriesReply) :
    (n.setWorker p w).appendEntriesReply p args reply = n.appendEntriesReply p args reply := by
  rw [appendEntriesReply, appendEntriesReply, setWorker_setWorker]

lemma replicateAtomic_of_zero {args : AppendEntriesArgs}
    (h : n.replicateAtomic p 0 = some (n', some args)) (k : ℕ) :
    n.replicateAtomic p k = some (n.setWorker p (.calling k), some args) := by
  unfold replicateAtomic at h ⊢
  split at h
  · rename_i hmay
    rw [if_pos hmay]
    split at h
    · cases h
    · rename_i hneeds
      rw [if_neg hneeds]
      cases h
      rfl
  · cases h

end RaftNode

/-! ## Exchanges in the cluster -/

/-- The steps of replication: threads that send messages, calls that are handled, answered and given
up. -/
def Label.replicating : Label → Prop
  | .thread _ (.replicateAtomic _) | .handle _ | .reply _ | .fail _ => True
  | _ => False

namespace Stage

variable {nodes : RaftNode × RaftNode}

lemma exchanged {j : ℕ} (h : Stage l r p k j nodes) : Exchanged p nodes.1 (exchange p nodes).1 := by
  obtain ⟨leader, follower⟩ := nodes
  obtain ⟨args, hsent, -, heq⟩ := h.exchange_eq
  have hle : follower.currentTerm ≤ args.term := hsent.term ▸ h.term
  rw [heq, appendEntriesReply_setWorker]
  refine .appendEntriesReply ?_
  rw [(reply_handleAppendEntries hle).2]

/-- The exchange as a round trip. -/
lemma canReach {j : ℕ} (hx : x ∈ m.ids) (hne : p ≠ x)
    (h : Stage l r p k j (t.nodes x, t.nodes p)) :
    CanReach (Cluster.step m.ids) (fun _ => Label.replicating) t fun u => u.nodes =
      Function.update (Function.update t.nodes x (exchange p (t.nodes x, t.nodes p)).1) p
        (exchange p (t.nodes x, t.nodes p)).2 := by
  obtain ⟨args, -, hatomic, heq⟩ := h.exchange_eq
  have hstep : (t.nodes x).step t.nextCall (.replicateAtomic p) =
      some ((t.nodes x).setWorker p (.calling t.nextCall), .call p (.appendEntries args)) := by
    simp [RaftNode.step, replicateAtomic_of_zero hatomic]
  refine (Cluster.canReach_roundTrip hx hne hstep trivial fun _ _ _ _ => ⟨trivial, trivial⟩).imp ?_
  intro u hu
  rw [hu, heq]
  simp only [RaftNode.receive, RaftNode.handle, appendEntriesReply_setWorker]

end Stage

/-- Exchanges that begin one entry before the end of the leader's log, where the peer has not got
the last entry, end with the peer holding the log and the leader knowing it. -/
lemma AtPhase.caught_up {nodes : RaftNode × RaftNode} (hshare : SharesPrefixes l r)
    (hlt : meet l r < l.length) (h : AtPhase l r p nodes (.backing (l.length - 1))) :
    ∃ k, AtPhase l r p ((exchange p)^[k] nodes) (.sending l.length) := by
  have hbatch : 0 < batchLimit := by decide
  refine ⟨Phase.rounds (meet l r) l.length batchLimit, ?_⟩
  have hone : (Phase.next (meet l r) l.length batchLimit)^[1] (.backing l.length) =
      .backing (l.length - 1) := Phase.iterate_backing (by omega)
  have hrun := iterate_atPhase hshare h (Phase.rounds (meet l r) l.length batchLimit)
  rw [← hone, ← Function.iterate_add_apply, Phase.iterate_next hbatch (Nat.le_succ _),
    if_pos hlt] at hrun
  exact hrun

lemma AtPhase.stage {nodes : RaftNode × RaftNode} {ph : Phase} (h : AtPhase l r p nodes ph) :
    ∃ r' q j, Stage l r' p q j nodes := by
  cases ph with
  | backing q => exact ⟨r, q, 0, h.2⟩
  | sending q => exact ⟨l.take q, q, q, h⟩

/-- Any number of exchanges. -/
lemma AtPhase.canReach {ph : Phase} (hx : x ∈ m.ids) (hne : p ≠ x) (hshare : SharesPrefixes l r)
    (h : AtPhase l r p (t.nodes x, t.nodes p) ph) (k : ℕ) :
    Exchanged p (t.nodes x) ((exchange p)^[k] (t.nodes x, t.nodes p)).1 ∧
    CanReach (Cluster.step m.ids) (fun _ => Label.replicating) t fun u => u.nodes =
      Function.update
        (Function.update t.nodes x ((exchange p)^[k] (t.nodes x, t.nodes p)).1) p
        ((exchange p)^[k] (t.nodes x, t.nodes p)).2 := by
  induction k with
  | zero => exact ⟨.refl p _, .here (by simp)⟩
  | succ k ih =>
      obtain ⟨hexchanged, hreach⟩ := ih
      obtain ⟨r', q, j, hstage⟩ := (iterate_atPhase hshare h k).stage
      rw [Function.iterate_succ_apply']
      refine ⟨hexchanged.trans hstage.exchanged, hreach.trans fun u hu => ?_⟩
      have hux : u.nodes x = ((exchange p)^[k] (t.nodes x, t.nodes p)).1 := by
        rw [hu, Function.update_of_ne hne.symm, Function.update_self]
      have hup : u.nodes p = ((exchange p)^[k] (t.nodes x, t.nodes p)).2 := by
        rw [hu, Function.update_self]
      have hpair : (u.nodes x, u.nodes p) = (exchange p)^[k] (t.nodes x, t.nodes p) := by
        rw [hux, hup]
      refine (Stage.canReach hx hne (hpair ▸ hstage)).imp fun v hv => ?_
      rw [hv, hpair, hu, Function.update_comm hne, Function.update_idem, Function.update_idem,
        Function.update_comm hne.symm]

/-! ## One peer after the other -/

/-- What every plain run keeps. -/
structure Sound (m : Membership) (s : Cluster) : Prop where
  routed : Routed m s
  elections : ElectionInv m s
  unblocked : Unblocked s
  logs : ∃ a, LogRel m s a

namespace Sound

lemma step (h : Sound m s) {l : Label} (hl : l.plain s)
    (hstep : Cluster.step m.ids s l = some t) : Sound m t := by
  have hmove := Cluster.move_of_step hstep
  obtain ⟨a, hrel⟩ := h.logs
  obtain ⟨b, -, hrel'⟩ := hrel.step h.routed h.elections hl hmove
  exact ⟨h.routed.step hmove, h.elections.step h.routed (Label.crashFree_of_plain hl) hmove,
    h.unblocked.step hmove, b, hrel'⟩

/-- Two logs that are held share their prefixes. -/
lemma sharesPrefixes (h : Sound m s) (hl : (s.nodes x).HasLog l) (hr : (s.nodes p).HasLog r) :
    Numbered l ∧ SharesPrefixes l r := by
  obtain ⟨a, hrel⟩ := h.logs
  obtain rfl := hl.unique (hrel.nodes x).log
  obtain rfl := hr.unique (hrel.nodes p).log
  refine ⟨hrel.abs.numbered_log x, fun k e y he hy hterm => ?_⟩
  have hpl := take_concat_isPrefix he
  have hpr := take_concat_isPrefix hy
  have hlen : ((a.log x).take k).length = ((a.log p).take k).length := by
    rw [List.length_take, List.length_take, min_eq_left (List.getElem?_eq_some_iff.mp he).1.le,
      min_eq_left (List.getElem?_eq_some_iff.mp hy).1.le]
  have heq := Replication.matched_isPrefix (hrel.abs.inv.log_matched x)
    (hrel.abs.inv.log_matched p) hpl hpr hlen hterm
  rw [List.take_add_one, List.take_add_one, he, hy]
  exact heq

/-- Nothing has been compacted away. -/
lemma hasLog (h : Sound m s) (hl : (s.nodes x).LogFrom 0 l) : (s.nodes x).HasLog l := by
  obtain ⟨a, hrel⟩ := h.logs
  have hlog := (hrel.nodes x).log
  have hsame : a.log x = l := by
    refine List.ext_getElem? fun k => ?_
    have hpos : ¬ (k : ℤ) + 1 ≤ 0 := by omega
    rw [← entryAt_succ, ← hlog.storage.entry?, hl.storage.entry _ (by omega), if_neg hpos,
      entryAt_succ]
  exact hsame ▸ hlog

end Sound

lemma Label.plain_of_replicating {l : Label} (hl : l.replicating) : l.plain s := by
  cases l with
  | thread i a =>
      cases a with
      | replicateAtomic => exact ⟨trivial, by simp⟩
      | _ => exact hl.elim
  | crash => exact hl.elim
  | _ => trivial

/-- Node `x` leads and holds the log `l`; the peers in `ts` have still to be brought up to it, and
are as they were when the last entry was appended.  `n` is the leader at that time. -/
structure Spreading (m : Membership) (x : ℤ) (l : List LogEntry) (n : RaftNode) (ts : List ℤ)
    (t : Cluster) : Prop where
  sound : Sound m t
  off : (t.nodes x).offPeers = n.offPeers
  log : (t.nodes x).HasLog l
  lead : (t.nodes x).state = .leader
  ne_nil : l ≠ []
  terms : ∀ p ∈ m.ids, (t.nodes p).currentTerm ≤ (t.nodes x).currentTerm
  settled : (t.nodes x).Settled
  nodup : ts.Nodup
  targets : ∀ p ∈ ts, p ∈ m.ids ∧ p ≠ x
  waiting : ∀ p ∈ ts, (t.nodes x).nextIndex p = l.length ∧ (t.nodes x).matchIndex p = 0 ∧
    ∀ r, (t.nodes p).HasLog r → ¬ l <+: r
  reached : ∀ p ∈ m.ids, p ≠ x → p ∉ ts → (t.nodes x).nextIndex p = l.length + 1 ∧
    (t.nodes x).matchIndex p = l.length ∧ (t.nodes p).HasLog l

/-- The thread for a peer that waits for an answer gives up. -/
lemma Sound.canReach_idle (h : Sound m t) (x p : ℤ) :
    CanReach (Cluster.step m.ids) (fun _ => Label.replicating) t fun u =>
      u.nodes = Function.update t.nodes x ((t.nodes x).setWorker p .idle) := by
  obtain ⟨a, hrel⟩ := h.logs
  rcases (hrel.nodes x).workers p with hidle | ⟨k, hcalling⟩
  · refine .here ?_
    rw [RaftNode.setWorker, ← hidle, Function.update_eq_self, Function.update_eq_self]
  · obtain ⟨request, reply, hcall, hreq, -⟩ := h.unblocked.workers x p k hcalling
    have hstep : Cluster.step m.ids t (.fail k) =
        some ((t.setNode x ((t.nodes x).abandon p request)).setCall k
          (some ⟨x, p, request, reply, false⟩)) := by
      simp only [Cluster.step, hcall]
    have hok : Label.replicating (.fail k) := trivial
    refine CanReach.last hok hstep ?_
    show Function.update t.nodes x _ = _
    cases request with
    | requestVote => cases hreq
    | _ => rfl

namespace Spreading

variable {ts : List ℤ}

/-- After a change of the leader alone that is none but for a thread. -/
lemma idle (h : Spreading m x l n (p :: ts) t) (hsound : Sound m u)
    (hnodes : u.nodes = Function.update t.nodes x ((t.nodes x).setWorker p .idle)) :
    Spreading m x l n (p :: ts) u := by
  have hself := Cluster.nodes_update_self hnodes
  have hother : ∀ q, q ≠ x → u.nodes q = t.nodes q := fun q hq => by
    rw [hnodes, Function.update_of_ne hq]
  have hsettled := (Exchanged.setWorker (t.nodes x) p .idle).settled h.settled
  refine
    { sound := hsound
      off := by rw [hself]; exact h.off
      log := by rw [hself]; exact h.log.same rfl rfl rfl
      lead := by rw [hself]; exact h.lead
      ne_nil := h.ne_nil
      terms := fun q hq => ?_
      settled := by rwa [hself]
      nodup := h.nodup
      targets := h.targets
      waiting := fun q hq => by
        rw [hself, hother q (h.targets q hq).2]
        exact h.waiting q hq
      reached := fun q hq hqx hqts => by
        rw [hself, hother q hqx]
        exact h.reached q hq hqx hqts }
  rw [hself]
  by_cases hqx : q = x
  · rw [hqx, hself]
  · rw [hother q hqx]
    exact h.terms q hq

/-- **One more peer is brought up to the leader's log.** -/
lemma spread (hx : x ∈ m.ids) (h : Spreading m x l n (p :: ts) t)
    (hidle : (t.nodes x).workers p = .idle) :
    CanReach (Cluster.step m.ids) (fun _ => Label.replicating) t (Spreading m x l n ts) := by
  obtain ⟨hp, hpx⟩ := h.targets p List.mem_cons_self
  obtain ⟨hnext, hmatch, hbehind⟩ := h.waiting p List.mem_cons_self
  have hnot : p ∉ ts := (List.nodup_cons.mp h.nodup).1
  obtain ⟨a, hrel⟩ := h.sound.logs
  have hr := (hrel.nodes p).log
  obtain ⟨hnum, hshare⟩ := h.sound.sharesPrefixes h.log hr
  have hpos : 0 < l.length := List.length_pos_iff.mpr h.ne_nil
  have hmeet : meet l (a.log p) < l.length := by
    refine (meet_le l _).lt_of_ne fun heq => hbehind _ hr ?_
    obtain ⟨hle, htake⟩ := shares_meet l (a.log p)
    rw [heq, List.take_length] at htake
    exact List.prefix_iff_eq_take.mpr htake.symm
  have hstage : Stage l (a.log p) p (l.length - 1) 0 (t.nodes x, t.nodes p) :=
    { log := h.log.logFrom
      numbered := hnum
      may := ⟨(h.sound.routed.nodes x).mem_stubs.mpr ⟨hp, hpx⟩, hidle, h.lead⟩
      term := h.terms p hp
      held := hr.logFrom
      next := by
        show (t.nodes x).nextIndex p = _
        rw [hnext]
        omega
      known := hmatch
      le := Nat.sub_le _ _ }
  have hphase : AtPhase l (a.log p) p (t.nodes x, t.nodes p) (.backing (l.length - 1)) :=
    ⟨by omega, hstage⟩
  obtain ⟨k, hdone⟩ := AtPhase.caught_up hshare hmeet hphase
  obtain ⟨hexchanged, hreach⟩ := hphase.canReach hx hpx hshare k
  refine (hreach.keeping h.sound fun t l u ht hl hs =>
    ht.step (Label.plain_of_replicating hl) hs).imp ?_
  rintro u ⟨hsound, hu⟩
  have hux : u.nodes x = ((exchange p)^[k] (t.nodes x, t.nodes p)).1 := by
    rw [hu, Function.update_of_ne hpx.symm, Function.update_self]
  have hup : u.nodes p = ((exchange p)^[k] (t.nodes x, t.nodes p)).2 := by
    rw [hu, Function.update_self]
  have huq : ∀ q, q ≠ x → q ≠ p → u.nodes q = t.nodes q := fun q hqx hqp => by
    rw [hu, Function.update_of_ne hqp, Function.update_of_ne hqx]
  have hfinal : Stage l (l.take l.length) p l.length l.length (u.nodes x, u.nodes p) := by
    rw [hux, hup]
    exact hdone
  rw [← hux] at hexchanged
  obtain ⟨-, hstorage, hterm, hindex, hlastTerm, hstate, -⟩ := offPeers_inj hexchanged.off
  refine
    { sound := hsound
      off := hexchanged.off.trans h.off
      log := h.log.same hstorage hindex hlastTerm
      lead := hstate.trans h.lead
      ne_nil := h.ne_nil
      terms := fun q hq => ?_
      settled := hexchanged.settled h.settled
      nodup := (List.nodup_cons.mp h.nodup).2
      targets := fun q hq => h.targets q (List.mem_cons_of_mem p hq)
      waiting := fun q hq => ?_
      reached := fun q hq hqx hqts => ?_ }
  · by_cases hqx : q = x
    · rw [hqx]
    by_cases hqp : q = p
    · subst hqp
      exact hfinal.term
    · rw [huq q hqx hqp, hterm]
      exact h.terms q hq
  · have hqp : q ≠ p := fun heq => hnot (heq ▸ hq)
    rw [huq q (h.targets q (List.mem_cons_of_mem p hq)).2 hqp, hexchanged.next q hqp,
      hexchanged.matched q hqp]
    exact h.waiting q (List.mem_cons_of_mem p hq)
  · by_cases hqp : q = p
    · subst hqp
      have hheld := hfinal.held
      rw [List.take_length] at hheld
      exact ⟨hfinal.next, hfinal.known, hsound.hasLog hheld⟩
    · rw [hexchanged.next q hqp, hexchanged.matched q hqp, huq q hqx hqp]
      exact h.reached q hq hqx fun hmem => (List.mem_cons.mp hmem).elim hqp hqts

/-- **A leader can bring its log to everybody.** -/
theorem canReach_spread (hx : x ∈ m.ids) (h : Spreading m x l n ts t) :
    CanReach (Cluster.step m.ids) (fun _ => Label.replicating) t (Spreading m x l n []) := by
  refine CanReach.forall_tasks (I := Spreading m x l n) (fun p ts t h => ?_) ts h
  have hreach := (h.sound.canReach_idle x p).keeping h.sound fun t l u ht hl hs =>
    ht.step (Label.plain_of_replicating hl) hs
  refine hreach.trans ?_
  rintro u ⟨hsound, hu⟩
  refine (h.idle hsound hu).spread hx ?_
  rw [Cluster.nodes_update_self hu]
  exact Function.update_self p _ _

/-- When everybody has the log of a leader, it is committed: the answer of the last peer has been
followed by the commit loop.  Of two nodes or more, all are enough. -/
theorem committed (hm : 2 ≤ m.ids.length) (hx : x ∈ m.ids) (h : Spreading m x l n [] t)
    (hlast : lastTerm l = n.currentTerm) : (l.length : ℤ) ≤ (t.nodes x).commitIndex := by
  by_contra hlt
  obtain ⟨-, -, hterm, -⟩ := offPeers_inj h.off
  have hconfig : (t.nodes x).config = m.config x := (h.sound.routed.nodes x).config
  have hlists : (m.config x).ListsAll := ⟨m.nodup, hx⟩
  refine h.settled l.length ⟨not_le.mp hlt, h.log.lastLogIndex.ge, ?_, ?_⟩
  · rw [h.log.storage.term_getLogEntry le_rfl, List.take_length, hlast, hterm]
  · have hall : (t.nodes x).countReplicas l.length = m.ids.length := by
      rw [hlists.countReplicas hconfig]
      refine List.countP_eq_length.mpr fun p hp => decide_eq_true ?_
      by_cases hpx : p = x
      · exact .inl hpx
      · exact .inr (h.reached p hp hpx (by simp)).2.1.ge
    rw [hall, commitThreshold, hconfig]
    show (m.ids.length + 1) / 2 + 1 ≤ m.ids.length
    omega

end Spreading

end RaftConsensus
