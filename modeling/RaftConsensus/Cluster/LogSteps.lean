import Mathlib.Data.Int.Interval
import RaftConsensus.Cluster.Logs

/-!
# Thread steps refine replication

Every step of a node's own threads is nothing in the abstract state, except that `startElection`
raises the node's term and `appendRequest` is `append`.
-/

namespace RaftConsensus

open Replication

variable {m : Membership} {a b : Logs} {s t : Cluster} {i j : ℤ} {n n' : RaftNode}
  {es : List Event}

/-! ## Replacing one node -/

/-- The relation after a change of one node, from what has to be checked of the nodes, the calls
and the history. -/
lemma logRel_of_node (habs : LogInv m b) (hnodes : t.nodes = Function.update s.nodes i n)
    (hnode : NodeRel m b t.calls t.history i n)
    (hothers : ∀ j, j ≠ i → NodeRel m b t.calls t.history j (s.nodes j))
    (hcalls : ∀ k c, t.calls k = some c → CallRel m b c)
    (hevents : EventsRel m b t.history) : LogRel m t b :=
  ⟨habs, Cluster.forall_nodes hnodes hnode hothers, hcalls, hevents⟩

/-- A node that does not move when another one does. -/
lemma LogRel.other (hrel : LogRel m s a) (hl : Later a b) {calls : ℕ → Option Call}
    {h : List Event} (hlog : b.log j = a.log j) (hterm : b.term j = a.term j)
    (hlead : (s.nodes j).state = .leader →
      b.full (s.nodes j).currentTerm = a.full (s.nodes j).currentTerm ∧
        b.acked j (s.nodes j).currentTerm = a.acked j (s.nodes j).currentTerm)
    (hcalls : CallsLe calls s.calls j)
    (hvotes : ∀ v, Voted h v (s.nodes j).currentTerm j →
      Voted s.history v (s.nodes j).currentTerm j) : NodeRel m b calls h j (s.nodes j) :=
  ((hrel.nodes j).mono hrel.abs hl hlog hterm hlead).of_calls hcalls hvotes

lemma CallsLe.refl (calls : ℕ → Option Call) (i : ℤ) : CallsLe calls calls i :=
  fun _ c hc hsrc => ⟨c, hc, hsrc, rfl, rfl, id⟩

/-- Quiet events are no votes. -/
lemma voted_of_quiet {h : List Event} (hes : ∀ e ∈ es, ¬ e.ofElection) {v T c : ℤ}
    (hv : Voted (es ++ h) v T c) : Voted h v T c := by
  rcases hv with ⟨rfl, hv⟩ | hv
  · exact .inl ⟨rfl, (List.mem_append.mp hv).resolve_left fun h' => hes _ h' trivial⟩
  · exact .inr ((List.mem_append.mp hv).resolve_left fun h' => hes _ h' trivial)

/-- Votes are recorded for those who stand, and what is recorded about commits and executions has
to be decided. -/
lemma EventsRel.append {h : List Event} (he : EventsRel m a h)
    (helected : ∀ c T, .elected c T ∉ es)
    (hgranted : ∀ v T c, .granted v T c ∈ es → .selfVote c T ∈ h)
    (hcommitted : ∀ v T l, .committed v T l ∈ es → m.Decided a T l)
    (hexecuted : ∀ v e changed, .executed v e changed ∈ es → ∃ T l, m.Decided a T (l ++ [e])) :
    EventsRel m a (es ++ h) where
  led T := by
    rw [he.led]
    refine exists_congr fun c => ?_
    rw [List.mem_append]
    exact ⟨.inr, fun hc => hc.resolve_left (helected c T)⟩
  granted v T c hg :=
    List.mem_append_right _ ((List.mem_append.mp hg).elim (hgranted v T c) (he.granted v T c))
  committed v T l hl := (List.mem_append.mp hl).elim (hcommitted v T l) (he.committed v T l)
  executed v e changed hx :=
    (List.mem_append.mp hx).elim (hexecuted v e changed) (he.executed v e changed)

/-- A step of one node that records no vote and leaves the abstract state alone. -/
lemma LogRel.quiet (hrel : LogRel m s a) (hnodes : t.nodes = Function.update s.nodes i n)
    (hcalls : ∀ j, j ≠ i → CallsLe t.calls s.calls j)
    (hmessages : ∀ k c, t.calls k = some c → CallRel m a c)
    (hhist : t.history = es ++ s.history) (hes : ∀ e ∈ es, ¬ e.ofElection)
    (hnode : NodeRel m a t.calls s.history i n)
    (hcommitted : ∀ v T l, .committed v T l ∈ es → m.Decided a T l)
    (hexecuted : ∀ v e changed, .executed v e changed ∈ es → ∃ T l, m.Decided a T (l ++ [e])) :
    LogRel m t a := by
  refine logRel_of_node hrel.abs hnodes ?_ (fun j hj => ?_) hmessages ?_
  · rw [hhist]
    exact hnode.of_calls (.refl _ _) fun v => voted_of_quiet hes
  · rw [hhist]
    exact (hrel.nodes j).of_calls (hcalls j hj) fun v => voted_of_quiet hes
  · rw [hhist]
    exact hrel.events.append (fun c T h => hes _ h trivial) (fun v T c h => (hes _ h trivial).elim)
      hcommitted hexecuted

/-! ## Changing the calls -/

/-- A call that is answered, given up or removed. -/
lemma callsLe_update {calls : ℕ → Option Call} {k : ℕ} {c : Call} {c' : Option Call}
    (hk : calls k = some c)
    (hc' : ∀ d, c' = some d → d.src = c.src ∧ d.dst = c.dst ∧ d.request = c.request ∧
      (d.alive = true → c.alive = true)) : CallsLe (Function.update calls k c') calls j := by
  intro k' d hd hsrc
  by_cases hkk : k' = k
  · subst hkk
    rw [Function.update_self] at hd
    obtain ⟨hsrc', hdst, hreq, halive⟩ := hc' d hd
    exact ⟨c, hk, hsrc'.symm.trans hsrc, hdst.symm, hreq.symm, halive⟩
  · rw [Function.update_of_ne hkk] at hd
    exact ⟨d, hd, hsrc, rfl, rfl, id⟩

/-- A call of another node. -/
lemma callsLe_emit {out : Output} (hj : j ≠ i) : CallsLe (s.emit i out).calls s.calls j := by
  intro k c hc hsrc
  rcases s.emit_calls hc with ⟨hold, -⟩ | ⟨dst, request, -, -, rfl⟩
  · exact ⟨c, hold, hsrc, rfl, rfl, id⟩
  · exact absurd hsrc.symm hj

/-- Whoever makes a call asks with the log it holds, or waits for the answer. -/
lemma NodeRel.emit {h : List Event} {out : Output} (hn : NodeRel m a s.calls h i n)
    (hvote : ∀ dst args, out = .call dst (.requestVote args) → n.state = .candidate →
      args.term = n.currentTerm →
        args.lastLogIndex = (a.log i).length ∧ args.lastLogTerm = lastTerm (a.log i))
    (happend : ∀ dst args, out = .call dst (.appendEntries args) →
      n.workers dst = .calling s.nextCall ∧
        (n.state = .leader → args.term = n.currentTerm →
          n.nextIndex dst = args.prevLogIndex + 1)) :
    NodeRel m a (s.emit i out).calls h i n :=
  { hn with
    asked := fun hs k c args hc hsrc hreq hT => by
      rcases s.emit_calls hc with ⟨hold, -⟩ | ⟨dst, request, hout, -, rfl⟩
      · exact hn.asked hs k c args hold hsrc hreq hT
      · exact hvote dst args (hout.trans (congrArg _ hreq)) hs hT
    waiting := fun k c args hc hsrc halive hreq => by
      rcases s.emit_calls hc with ⟨hold, -⟩ | ⟨dst, request, hout, rfl, rfl⟩
      · exact hn.waiting k c args hold hsrc halive hreq
      · exact happend dst args (hout.trans (congrArg _ hreq)) }

/-! ## The executor -/

section Executor

variable {calls : ℕ → Option Call} {h : List Event}

/-- Where the executor is when nothing is computed or written. -/
lemma executorRel_next {l es : List LogEntry} {T : ℤ} (hdec : m.Decided a T (l ++ es))
    (hstored : n.storage.getLastAppliedIndex = l.length)
    (hsame : n.storage.SameRecords (RocksDBStore.genesis.executeAll l))
    (happlied : n.lastApplied = l.length) (hexec : n.executor = .next es) :
    ExecutorRel m a n := by
  have hunapplied : n.executor.unapplied = es := by
    rw [hexec]
    cases es <;> rfl
  refine ⟨l, T, by rwa [hunapplied], hstored, hsame, ?_⟩
  rw [hexec]
  cases es <;> exact happlied

/-- A decided prefix that is no longer than another one is part of it. -/
lemma isPrefix_of_decided (habs : LogInv m a) {l r : List LogEntry} {T T' : ℤ}
    (hl : m.Decided a T l) (hr : m.Decided a T' r) (hlen : l.length ≤ r.length) : l <+: r := by
  rcases Decided.comparable Membership.quorum_inter habs.inv hl hr with h | h
  · exact h
  · exact (h.eq_of_length (le_antisymm h.length_le hlen)) ▸ List.prefix_rfl

/-- The entries that are fetched continue those that are applied. -/
lemma NodeRel.fetchBatch (habs : LogInv m a) (hn : NodeRel m a calls h i n)
    (hwaiting : n.executor = .waiting) (hcommit : n.lastApplied < n.commitIndex) :
    ExecutorRel m a
      { n with executor := .next (n.batchIndices.map n.storage.getLogEntry) } := by
  obtain ⟨l, T, hdec, hstored, hsame, happlied⟩ := hn.executor
  rw [hwaiting] at hdec happlied
  simp only [Executor.unapplied, List.append_nil] at hdec happlied
  obtain ⟨c, hc, hle, hdecided⟩ := hn.commit
  have hlen : ((a.log i).take c).length = c := by rw [List.length_take, min_eq_left hle]
  have hpre : l <+: (a.log i).take c := by
    refine isPrefix_of_decided habs hdec hdecided ?_
    rw [hlen]
    omega
  have hbatch : n.batchIndices.map n.storage.getLogEntry =
      (((a.log i).take c).drop l.length).take 100 := by
    rw [RaftNode.batchIndices, List.map_take, happlied, hc, hn.log.storage.map_loopRange hle]
  refine executorRel_next (l := l) (T := n.currentTerm) ?_ hstored hsame happlied rfl
  rw [hbatch]
  refine hdecided.of_shorter ?_
  obtain ⟨rest, hrest⟩ := hpre
  rw [← hrest, List.drop_left]
  exact List.prefix_append_right_inj l |>.mpr (List.take_prefix _ _)

lemma NodeRel.readBalances (hn : NodeRel m a calls h i n) {entry : LogEntry}
    {rest : List LogEntry} (hex : n.executor = .applying entry rest) :
    ExecutorRel m a { n with
      executor := .computed entry rest (n.storage.outcome entry.command).senderNewBal
        (n.storage.outcome entry.command).receiverNewBal
        (n.storage.outcome entry.command).resultMsg } := by
  obtain ⟨l, T, hdec, hstored, hsame, happlied⟩ := hn.executor
  rw [hex] at hdec happlied
  exact ⟨l, T, hdec, hstored, hsame, happlied, rfl⟩

/-- What has been applied when the next entry is written: it is decided together with it, and it
is what stands before its index. -/
lemma NodeRel.applyEntry (habs : LogInv m a) (hn : NodeRel m a calls h i n) {entry : LogEntry}
    {rest : List LogEntry} {senderNewBal receiverNewBal : ℤ} {msg : Bytes}
    (hex : n.executor = .computed entry rest senderNewBal receiverNewBal msg) :
    (∃ T l, m.Decided a T (l ++ [entry])) ∧ ExecutorRel m a { n with
      storage := n.storage.applyTransaction entry senderNewBal receiverNewBal msg
      executor := .written entry rest msg } := by
  obtain ⟨l, T, hdec, hstored, hsame, hwhere⟩ := hn.executor
  rw [hex] at hdec hwhere
  obtain ⟨happlied, houtcome⟩ := hwhere
  have hsplit : l ++ (Executor.computed entry rest senderNewBal receiverNewBal msg).unapplied =
      (l ++ [entry]) ++ rest := by simp [Executor.unapplied]
  rw [hsplit] at hdec
  have hindex : entry.index = l.length + 1 := by
    refine (habs.numbered_decided hdec l.length entry ?_).1
    simp
  refine ⟨⟨T, l, hdec.of_shorter (List.prefix_append _ _)⟩, l ++ [entry], T, hdec, ?_, ?_, ?_⟩
  · rw [RocksDBStore.getLastAppliedIndex_applyTransaction, hindex]
    simp
  · rw [RocksDBStore.executeAll_concat]
    have hexecute : n.storage.applyTransaction entry senderNewBal receiverNewBal msg =
        n.storage.execute entry := by
      rw [RocksDBStore.execute, houtcome]
    rw [hexecute]
    exact hsame.execute
  · simp [happlied, hindex]

lemma NodeRel.notifyClient (hn : NodeRel m a calls h i n) {entry : LogEntry}
    {rest : List LogEntry} {msg : Bytes} (hex : n.executor = .written entry rest msg)
    {callbacks : Bytes → Option ℕ} :
    ExecutorRel m a { n with
      lastApplied := entry.index
      pendingCallbacks := callbacks
      executor := .notified rest } := by
  obtain ⟨l, T, hdec, hstored, hsame, hwhere⟩ := hn.executor
  rw [hex] at hdec hwhere
  exact ⟨l, T, hdec, hstored, hsame, hwhere.2⟩

lemma NodeRel.goOn (hn : NodeRel m a calls h i n) {rest : List LogEntry}
    (hex : n.executor = .notified rest) : ExecutorRel m a { n with executor := .next rest } := by
  obtain ⟨l, T, hdec, hstored, hsame, happlied⟩ := hn.executor
  rw [hex] at hdec happlied
  exact executorRel_next (n := { n with executor := .next rest }) hdec hstored hsame happlied rfl

end Executor

/-! ## Steps that leave the abstract state alone -/

/-- The steps of the runs in which a message is built from one state of its leader. -/
def ThreadStep.ofAtomicSender : ThreadStep → Prop
  | .replicateBegin _ | .replicateCheck _ | .replicateLock _ | .replicatePrevTerm _
  | .replicateRead _ | .replicateSend _ => False
  | _ => True

instance : DecidablePred ThreadStep.ofAtomicSender
  | .replicateBegin _ | .replicateCheck _ | .replicateLock _ | .replicatePrevTerm _
  | .replicateRead _ | .replicateSend _ => isFalse id
  | .electionTimeout | .startElection | .evalHardState | .saveHardState | .sendRequestVote
  | .replicateAtomic _ | .dumpSnapshot _ | .stampSnapshot _ | .sendSnapshot _
  | .clientRequest _ _ | .lookupRequest _ | .appendRequest _ | .fetchBatch | .readBalances
  | .applyEntry | .notifyClient | .compactIfDue | .skipCompaction => isTrue trivial

section Still

variable {calls : ℕ → Option Call} {h : List Event} {call : ℕ} {x : ThreadStep} {out : Output}

/-- A leader has every entry before the first one to send. -/
lemma NodeRel.not_needsSnapshot (habs : LogInv m a) (hn : NodeRel m a calls h i n) {k : ℕ}
    (hk : k ≤ (a.log i).length) : ¬ n.needsSnapshot k := by
  rintro ⟨hpos, hmissing⟩
  obtain ⟨e, he, hmem⟩ := entryAt_of_pos (l := a.log i) (i := k) (by omega) (by omega)
  rw [hn.log.storage.getLogEntry, he] at hmissing
  have := (habs.numbered_log i).one_le_term hmem
  simp only [Option.getD_some] at hmissing
  omega

/-- What a leader knows about a peer it may send to. -/
lemma NodeRel.progress_of_may (hr : n.Routed m i) (hn : NodeRel m a calls h i n) {p : ℤ}
    (hmay : n.mayReplicate p) :
    Progress a p n.currentTerm (n.nextIndex p) (n.matchIndex p) := by
  obtain ⟨hp, hne⟩ := hr.mem_stubs.mp hmay.1
  exact hn.progress hmay.2.2 p hp hne

/-- A replication thread that starts waiting was not waiting before. -/
lemma NodeRel.setWorker (hn : NodeRel m a calls h i n) {p : ℤ} {w : Worker}
    (hw : w = .idle ∨ ∃ k, w = .calling k)
    (hfree : ∀ k c args, calls k = some c → c.src = i → c.alive = true →
      c.request = .appendEntries args → c.dst ≠ p) : NodeRel m a calls h i (n.setWorker p w) :=
  { hn with
    log := hn.log.same rfl rfl rfl
    workers := fun q => by
      by_cases hq : q = p
      · subst hq
        simpa [RaftNode.setWorker] using hw
      · simpa [RaftNode.setWorker, hq] using hn.workers q
    waiting := fun k c args hc hsrc halive hreq => by
      have hne := hfree k c args hc hsrc halive hreq
      simpa [RaftNode.setWorker, hne] using hn.waiting k c args hc hsrc halive hreq }

/-- Thread steps that leave the abstract state alone keep the relation for their node. -/
lemma NodeRel.move (habs : LogInv m a) (hr : n.Routed m i) (hn : NodeRel m a calls h i n)
    (hx : x.ofAtomicSender) (hdue : x = .compactIfDue → ¬ n.compactionDue)
    (hstart : x ≠ .startElection)
    (happend : ∀ cb, x = .appendRequest cb → n'.lastLogIndex = n.lastLogIndex)
    (hmove : n.Move call x n' out) : NodeRel m a calls h i n' := by
  have hnotWaiting : ∀ {p : ℤ}, n.workers p = .idle → ∀ k c args, calls k = some c →
      c.src = i → c.alive = true → c.request = .appendEntries args → c.dst ≠ p := by
    rintro p hidle k c args hc hsrc halive hreq rfl
    have hw := (hn.waiting k c args hc hsrc halive hreq).1
    rw [hidle] at hw
    cases hw
  have hbusy : ∀ {p : ℤ} {w : Worker}, n.workers p = w → w ≠ .idle → (∀ k, w ≠ .calling k) →
      NodeRel m a calls h i n' := by
    intro p w hw hidle hcalling
    rcases hn.workers p with h' | ⟨k, h'⟩
    · exact absurd (hw.symm.trans h') hidle
    · exact absurd (hw.symm.trans h') (hcalling k)
  cases hmove with
  | electionTimeout =>
      exact { hn with
        log := hn.log.same rfl rfl rfl
        saved := fun _ saved hs => by cases hs }
  | startElection => exact absurd rfl hstart
  | evalHardState hstarted =>
      refine { hn with
        log := hn.log.same rfl rfl rfl
        saved := fun hs saved hsaved => hn.saved hs saved ?_ }
      rw [hstarted]
      exact hsaved
  | @saveHardState saved term votedFor heval =>
      refine { hn with
        log := ⟨hn.log.storage.saveHardState, hn.log.lastLogIndex, hn.log.lastLogTerm⟩
        executor := hn.executor.still ⟨rfl, rfl, RocksDBStore.getLastAppliedIndex_saveHardState⟩
          RocksDBStore.sameRecords_saveHardState
        saved := fun hs saved' hsaved => ?_ }
      obtain rfl := ElectionThread.eq_of_saved?_next hsaved
      exact hn.saved hs saved' (by rw [heval]; rfl)
  | @sendRequestVote saved peer targets hsending =>
      refine { hn with
        log := hn.log.same rfl rfl rfl
        saved := fun hs saved' hsaved => ?_ }
      obtain rfl := ElectionThread.eq_of_saved?_next hsaved
      exact hn.saved hs saved' (by rw [hsending]; rfl)
  | replicateBegin => exact hx.elim
  | replicateCheckMissing => exact hx.elim
  | replicateCheck => exact hx.elim
  | replicateLockDeposed => exact hx.elim
  | replicateLock => exact hx.elim
  | replicatePrevTerm => exact hx.elim
  | replicateRead => exact hx.elim
  | replicateSend => exact hx.elim
  | replicateAtomicMissing hmay hneeds =>
      -- the entry is there, so this branch is never taken
      obtain ⟨k, hk, hle, -⟩ := (hn.progress_of_may hr hmay).next
      rw [← (hn.leader hmay.2.2).2.1] at hle
      rw [hk, add_sub_cancel_right] at hneeds
      exact absurd hneeds (hn.not_needsSnapshot habs hle)
  | replicateAtomic hmay => exact hn.setWorker (.inr ⟨_, rfl⟩) (hnotWaiting hmay.2.1)
  | dumpSnapshot hw => exact hbusy hw (by simp) (by simp)
  | stampSnapshot hw => exact hbusy hw (by simp) (by simp)
  | sendSnapshot hw => exact hbusy hw (by simp) (by simp)
  | clientRefused => exact hn
  | clientRequest => exact { hn with log := hn.log.same rfl rfl rfl }
  | lookupFound => exact { hn with log := hn.log.same rfl rfl rfl }
  | lookupRequest => exact { hn with log := hn.log.same rfl rfl rfl }
  | appendRefused => exact { hn with log := hn.log.same rfl rfl rfl }
  | appendInFlight => exact { hn with log := hn.log.same rfl rfl rfl }
  | appendRequest =>
      have hsame : n.lastLogIndex + 1 = n.lastLogIndex := happend _ rfl
      omega
  | fetchBatch hwaiting hcommit =>
      exact { hn with
        log := hn.log.same rfl rfl rfl
        executor := hn.fetchBatch habs hwaiting hcommit }
  | readBalances hex =>
      exact { hn with
        log := hn.log.same rfl rfl rfl
        executor := hn.readBalances hex }
  | applyEntry hex =>
      exact { hn with
        log := ⟨hn.log.storage.applyTransaction, hn.log.lastLogIndex, hn.log.lastLogTerm⟩
        executor := (hn.applyEntry habs hex).2 }
  | notifyClient hex =>
      exact { hn with
        log := hn.log.same rfl rfl rfl
        executor := hn.notifyClient hex }
  | compactIfDue hex =>
      rw [if_neg (hdue rfl)]
      exact { hn with
        log := hn.log.same rfl rfl rfl
        executor := hn.goOn hex }
  | skipCompaction hex =>
      exact { hn with
        log := hn.log.same rfl rfl rfl
        executor := hn.goOn hex }

/-- A candidate asks for votes with the log it holds. -/
lemma NodeRel.asks (hn : NodeRel m a calls h i n) {dst : ℤ} {args : RequestVoteArgs}
    (hmove : n.Move call x n' (.call dst (.requestVote args))) (hs : n'.state = .candidate)
    (hT : args.term = n'.currentTerm) :
    args.lastLogIndex = (a.log i).length ∧ args.lastLogTerm = lastTerm (a.log i) := by
  generalize hout : Output.call dst (.requestVote args) = out at hmove
  cases hmove with
  | sendRequestVote hsending =>
      cases hout
      exact hn.saved hs _ (by rw [hsending]; rfl) hT
  | notifyClient =>
      cases hcb : n.pendingCallbacks _ with
      | none =>
          rw [hcb] at hout
          cases hout
      | some cb =>
          rw [hcb] at hout
          cases hout
  | _ => cases hout

/-- In these runs every message with entries is built in one step, and no snapshot is sent. -/
lemma NodeRel.sends (hn : NodeRel m a calls h i n) (hx : x.ofAtomicSender) {dst : ℤ}
    {request : Request} (hmove : n.Move call x n' (.call dst request)) :
    (∃ args, request = .requestVote args) ∨
      request = .appendEntries (n.appendEntriesArgs dst) ∧ n.mayReplicate dst ∧
        n' = n.setWorker dst (.calling call) := by
  generalize hout : Output.call dst request = out at hmove
  cases hmove with
  | sendRequestVote =>
      cases hout
      exact .inl ⟨_, rfl⟩
  | replicateSend => exact hx.elim
  | replicateAtomic hmay =>
      cases hout
      exact .inr ⟨rfl, hmay, rfl⟩
  | @sendSnapshot peer _ hw =>
      rcases hn.workers peer with h' | ⟨k, h'⟩
      · cases hw.symm.trans h'
      · cases hw.symm.trans h'
  | notifyClient =>
      cases hcb : n.pendingCallbacks _ with
      | none =>
          rw [hcb] at hout
          cases hout
      | some cb =>
          rw [hcb] at hout
          cases hout
  | _ => cases hout

/-- The message of a leader. -/
lemma NodeRel.messageOf (habs : LogInv m a) (hr : n.Routed m i) (hn : NodeRel m a calls h i n)
    {p : ℤ} (hmay : n.mayReplicate p) :
    ∃ pre com, MessageOf m a p (n.appendEntriesArgs p) none pre com := by
  obtain ⟨hled, hlog, -⟩ := hn.leader hmay.2.2
  obtain ⟨k, hk, hle, hbehind⟩ := (hn.progress_of_may hr hmay).next
  obtain ⟨c, hc, hcle, hdec⟩ := hn.commit
  have hkle : k ≤ (a.log i).length := hlog ▸ hle
  have hpre : ((a.log i).take k).length = k := by rw [List.length_take, min_eq_left hkle]
  have hcom : ((a.log i).take c).length = c := by rw [List.length_take, min_eq_left hcle]
  have hentries : (n.appendEntriesArgs p).entries = ((a.log i).drop k).take 100 := by
    rw [RaftNode.appendEntriesArgs, List.map_take, hk, hn.log.lastLogIndex,
      hn.log.storage.map_loopRange le_rfl, List.take_length]
    rfl
  have hlen : (n.appendEntriesArgs p).entries = [] → (a.log i).length ≤ k := by
    rw [hentries, List.take_eq_nil_iff, List.drop_eq_nil_iff]
    omega
  refine ⟨(a.log i).take k, (a.log i).take c, hled, ?_, ?_, ?_, ?_, hdec, ?_, ?_, ?_, ?_, ?_⟩
  · show n.nextIndex p - 1 = _
    rw [hk, hpre, add_sub_cancel_right]
  · show n.prevTermAt (n.nextIndex p - 1) = _
    rw [hk, add_sub_cancel_right]
    exact hn.log.prevTermAt hkle
  · rw [hentries, ← List.take_add]
    show _ <+: a.full n.currentTerm
    rw [← hlog]
    exact List.take_prefix _ _
  · rw [hcom]
    exact hc
  · show _ <+: a.full n.currentTerm
    rw [← hlog]
    exact List.take_prefix _ _
  · intro hnil
    have := hlen hnil
    omega
  · intro hlt
    rw [hpre] at hlt ⊢
    refine ⟨fun hnil => ?_, hbehind hlt⟩
    have hstart := (habs.inv.start_isPrefix hled).length_le
    rw [← hlog] at hstart
    have hshort : k < (a.start n.currentTerm).length := hlt
    have := hlen hnil
    omega
  · rintro r ⟨⟩
  · rintro r ⟨⟩

end Still

/-- Nothing is recorded as committed by a thread step, and what is recorded as executed has been
computed before. -/
lemma mem_threadEvents {x : ThreadStep} {out : Output} {e : Event}
    (he : e ∈ Cluster.threadEvents i x n n' out) :
    (∃ T, e = .selfVote i T) ∨ (∃ cb r, e = .responded i cb r) ∨
      ∃ entry rest sb rb msg changed, x = .applyEntry ∧
        n.executor = .computed entry rest sb rb msg ∧ e = .executed i entry changed := by
  unfold Cluster.threadEvents at he
  split at he
  · exact .inl ⟨_, List.mem_singleton.mp he⟩
  · split at he
    · rename_i hex
      exact .inr (.inr ⟨_, _, _, _, _, _, rfl, hex, List.mem_singleton.mp he⟩)
    · cases he
  · exact .inr (.inl ⟨_, _, List.mem_singleton.mp he⟩)
  · cases he

/-- Thread steps that leave the abstract state alone. -/
lemma LogRel.thread_still (hr : Routed m s) (hrel : LogRel m s a) {x : ThreadStep} {out : Output}
    (hx : x.ofAtomicSender) (hdue : x = .compactIfDue → ¬ (s.nodes i).compactionDue)
    (hstart : x ≠ .startElection)
    (happend : ∀ cb, x = .appendRequest cb → n.lastLogIndex = (s.nodes i).lastLogIndex)
    (hmove : (s.nodes i).Move s.nextCall x n out) :
    LogRel m (((s.setNode i n).emit i out).record
      (Cluster.threadEvents i x (s.nodes i) n out)) a := by
  have hni := hrel.nodes i
  have hn := hni.move hrel.abs (hr.nodes i) hx hdue hstart happend hmove
  refine hrel.quiet (i := i) (n := n) (by simp) (fun j hj => ?_) (fun k c hc => ?_)
    (by simp; rfl) (quiet_threadEvents hstart) ?_ (fun v T l hl => ?_) fun v e changed he => ?_
  · rw [Cluster.record_calls, emit_setNode_calls]
    exact callsLe_emit hj
  · rw [Cluster.record_calls, emit_setNode_calls] at hc
    rcases s.emit_calls hc with ⟨hold, -⟩ | ⟨dst, request, rfl, -, rfl⟩
    · exact hrel.calls k c hold
    · rcases hni.sends hx hmove with ⟨args, rfl⟩ | ⟨rfl, hmay, -⟩
      · trivial
      · exact hni.messageOf hrel.abs (hr.nodes i) hmay
  · rw [Cluster.record_calls, emit_setNode_calls]
    refine hn.emit (fun dst args hout hs hT => ?_) fun dst args hout => ?_
    · subst hout
      exact hni.asks hmove hs hT
    · subst hout
      rcases hni.sends hx hmove with ⟨_, hargs⟩ | ⟨hargs, -, rfl⟩
      · cases hargs
      · cases hargs
        refine ⟨by simp [RaftNode.setWorker], fun _ _ => ?_⟩
        show (s.nodes i).nextIndex dst = (s.nodes i).nextIndex dst - 1 + 1
        omega
  · rcases mem_threadEvents hl with ⟨_, h⟩ | ⟨_, _, h⟩ | ⟨_, _, _, _, _, _, -, -, h⟩ <;> cases h
  · rcases mem_threadEvents he with ⟨_, h⟩ | ⟨_, _, h⟩ | ⟨_, _, _, _, _, _, -, hex, h⟩
    · cases h
    · cases h
    · cases h
      exact (hni.applyEntry hrel.abs hex).1

/-! ## Standing for election -/

/-- A candidate of a new term has its own vote, and nobody else's. -/
lemma LogRel.startElection (hrel : LogRel m s a) (hinv : ElectionInv m s) :
    LogRel m ((s.setNode i { s.nodes i with
        state := .candidate
        currentTerm := (s.nodes i).currentTerm + 1
        votedFor := (s.nodes i).config.myId
        election := .started ⟨(s.nodes i).currentTerm + 1, (s.nodes i).lastLogIndex,
          (s.nodes i).lastLogTerm⟩ }).record [.selfVote i ((s.nodes i).currentTerm + 1)])
      (a.raise i ((s.nodes i).currentTerm + 1)) := by
  have hn := hrel.nodes i
  have hlt := Int.lt_succ (s.nodes i).currentTerm
  have hraise : a.term i ≤ (s.nodes i).currentTerm + 1 := by
    rw [hn.term]
    exact hlt.le
  have hl := later_raise hraise
  have habs := hrel.abs.raise hraise
  have hterm : (a.raise i ((s.nodes i).currentTerm + 1)).term i = (s.nodes i).currentTerm + 1 := by
    simp [State.raise]
  refine logRel_of_node (i := i) habs rfl ?_ (fun j hj => ?_)
    (fun k c hc => (hrel.calls k c hc).mono hl) ?_
  · refine
      { log := hn.log.same rfl rfl rfl
        term := hterm
        term_nonneg := hn.term_nonneg.trans hlt.le
        commit := ?_
        executor := (hn.executor.mono hl).still ⟨rfl, rfl, rfl⟩ (.refl _)
        candidate := fun _ => ⟨?_, fun e he => ?_⟩
        saved := fun _ saved hsaved _ => ?_
        asked := fun _ k c args hc hsrc hreq hT => ?_
        votes := fun _ hfree v hv => ?_
        leader := fun hs => by cases hs
        progress := fun hs => by cases hs
        workers := hn.workers
        waiting := fun k c args hc hsrc halive hreq =>
          ⟨(hn.waiting k c args hc hsrc halive hreq).1, fun hs => by cases hs⟩ }
    · obtain ⟨c, hc, hle, hdec⟩ := hn.commit
      exact ⟨c, hc, hle, hdec.mono hl.ext hlt.le⟩
    · have := hn.term_nonneg
      show 1 ≤ (s.nodes i).currentTerm + 1
      omega
    · exact (hrel.abs.inv.log_le i e he).trans_lt (hn.term ▸ hlt)
    · cases hsaved
      exact ⟨hn.log.lastLogIndex, hn.log.lastLogTerm⟩
    · exact absurd ⟨hsrc, args, hreq, hT⟩ (hinv.not_asks hlt k c hc)
    · -- an older vote would be for a term the node had not reached
      have hnew : v = i := by
        have hself : Voted s.history i ((s.nodes i).currentTerm + 1) i → False := fun hold =>
          absurd (hinv.voting.votes_le i _ i hold) (not_le.mpr hlt)
        rcases hv with ⟨h, -⟩ | hgranted
        · exact h.symm
        · have hold := (List.mem_cons.mp hgranted).resolve_left (by simp)
          exact (hself (.inl ⟨rfl, hrel.events.granted _ _ _ hold⟩)).elim
      subst hnew
      exact vote_of_grant habs.inv hterm hfree (.refl _)
  · refine hrel.other hl rfl (by simp [State.raise, hj]) (fun _ => ⟨rfl, rfl⟩) (.refl _ _) ?_
    rintro v (⟨rfl, hv⟩ | hv)
    · exact .inl ⟨rfl, (List.mem_cons.mp hv).resolve_left (by simp [hj])⟩
    · exact .inr ((List.mem_cons.mp hv).resolve_left (by simp))
  · exact (hrel.events.mono hl fun _ => .rfl).append (by simp) (by simp) (by simp) (by simp)

/-! ## Taking a request -/

/-- Two leaders of one term are the same node. -/
lemma ElectionInv.leader_unique (hinv : ElectionInv m s) (hi : (s.nodes i).state = .leader)
    (hj : (s.nodes j).state = .leader)
    (hterm : (s.nodes i).currentTerm = (s.nodes j).currentTerm) : i = j := by
  have helected := hinv.elected_of_leader hi
  rw [hterm] at helected
  exact hinv.voting.won_unique i j _ helected (hinv.elected_of_leader hj)

/-- A leader appends an entry of its term to its log. -/
lemma LogRel.appendRequest (hrel : LogRel m s a) (hinv : ElectionInv m s)
    (hstate : (s.nodes i).state = .leader) {cb : ℕ} {req : ClientRequest}
    {requests : ℕ → Option RequestThread} :
    ∃ b, Later a b ∧
      LogRel m (s.setNode i ({ s.nodes i with requests := requests }.acceptRequest cb req)) b := by
  have hn := hrel.nodes i
  obtain ⟨hled, hlog, -⟩ := hn.leader hstate
  set T := (s.nodes i).currentTerm
  set e := (s.nodes i).newEntry req
  have hindex : e.index = (a.log i).length + 1 := by
    show (s.nodes i).lastLogIndex + 1 = _
    rw [hn.log.lastLogIndex]
  have hl : Later a (a.append i T e) := later_append hrel.abs.inv hn.term hled hlog
  have habs : LogInv m (a.append i T e) :=
    hrel.abs.append hn.term hled hlog rfl (by rw [← hlog, hindex])
  have hlog' : (a.append i T e).log i = a.log i ++ [e] := by simp [State.append]
  refine ⟨_, hl, logRel_of_node (i := i) habs rfl ?_ (fun j hj => ?_)
    (fun k c hc => (hrel.calls k c hc).mono hl) (hrel.events.mono hl fun _ => .rfl)⟩
  · refine
      { log := ?_
        term := hn.term
        term_nonneg := hn.term_nonneg
        commit := ?_
        executor := (hn.executor.mono hl).still
          ⟨rfl, rfl, RocksDBStore.getLastAppliedIndex_appendLog⟩
          RocksDBStore.sameRecords_appendLog
        candidate := fun hs => by cases hstate.symm.trans hs
        saved := fun hs => by cases hstate.symm.trans hs
        asked := fun hs => by cases hstate.symm.trans hs
        votes := fun hs => by cases hstate.symm.trans hs
        leader := fun _ => ⟨hled, ?_, ?_⟩
        progress := fun _ p hp hne => (hn.progress hstate p hp hne).mono hl hled
        workers := hn.workers
        waiting := hn.waiting }
    · rw [hlog']
      exact (hn.log.append hindex).same rfl (by rw [← hindex]; rfl) rfl
    · obtain ⟨c, hc, hle, hdec⟩ := hn.commit
      refine ⟨c, hc, ?_, ?_⟩
      · rw [hlog', List.length_append]
        omega
      · rw [hlog', List.take_append_of_le_length hle]
        exact hdec.mono hl.ext le_rfl
    · rw [hlog', hlog]
      simp [State.append, T, RaftNode.acceptRequest]
    · rw [hlog', hlog]
      simp [State.append, T, RaftNode.acceptRequest]
  · refine hrel.other hl (by simp [State.append, hj]) rfl (fun hs => ?_) (.refl _ _)
      fun _ => id
    have hne : (s.nodes j).currentTerm ≠ T := fun h => hj (hinv.leader_unique hs hstate h)
    simp [State.append, hj, hne]

/-- **Thread steps refine replication.** -/
lemma LogRel.thread (hr : Routed m s) (hinv : ElectionInv m s) (hrel : LogRel m s a)
    {x : ThreadStep} {out : Output} (hx : x.ofAtomicSender)
    (hdue : x = .compactIfDue → ¬ (s.nodes i).compactionDue)
    (hmove : (s.nodes i).Move s.nextCall x n out) :
    ∃ b, Later a b ∧ LogRel m (((s.setNode i n).emit i out).record
      (Cluster.threadEvents i x (s.nodes i) n out)) b := by
  by_cases hstart : x = .startElection
  · subst hstart
    cases hmove
    refine ⟨_, ?_, hrel.startElection hinv⟩
    refine later_raise ?_
    rw [(hrel.nodes i).term]
    exact (Int.lt_succ _).le
  · by_cases happend : ∀ cb, x = .appendRequest cb → n.lastLogIndex = (s.nodes i).lastLogIndex
    · exact ⟨a, .refl a, hrel.thread_still hr hx hdue hstart happend hmove⟩
    · push Not at happend
      obtain ⟨cb, rfl, hgrown⟩ := happend
      cases hmove with
      | appendRefused => exact absurd rfl hgrown
      | appendInFlight => exact absurd rfl hgrown
      | appendRequest _ hstate => exact hrel.appendRequest hinv hstate

end RaftConsensus
