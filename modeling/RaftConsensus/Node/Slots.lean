import RaftConsensus.Node.Replicators

/-!
# One slot per peer

`RaftNode` has one slot per peer for the replication thread, and every other module reasons about
nodes with slots.  `Replicators` has any number of threads, which are loaded into the slots one step
at a time.  As a peer has one thread at most, the slots can hold all threads at once: every run of a
node and its threads is a run of the node with its slots (`threads_refine_slots`).

A step of the thread for a peer looks at its own slot only (`Move.withWorkers_peer`), and no other
step looks at the slots (`Move.withWorkers`, `handle_withWorkers`).
-/

namespace RaftConsensus

namespace RaftNode

variable {n n' : RaftNode} {ws : ℤ → Worker} {p : ℤ} {call : ℕ} {a : ThreadStep} {out : Output}

/-- The node with other threads in its slots. -/
def withWorkers (n : RaftNode) (ws : ℤ → Worker) : RaftNode := { n with workers := ws }

@[simp] lemma config_withWorkers : (n.withWorkers ws).config = n.config := rfl

@[simp] lemma storage_withWorkers : (n.withWorkers ws).storage = n.storage := rfl

@[simp] lemma state_withWorkers : (n.withWorkers ws).state = n.state := rfl

@[simp] lemma currentTerm_withWorkers : (n.withWorkers ws).currentTerm = n.currentTerm := rfl

@[simp] lemma commitIndex_withWorkers : (n.withWorkers ws).commitIndex = n.commitIndex := rfl

@[simp] lemma lastLogIndex_withWorkers : (n.withWorkers ws).lastLogIndex = n.lastLogIndex := rfl

@[simp] lemma nextIndex_withWorkers : (n.withWorkers ws).nextIndex = n.nextIndex := rfl

@[simp] lemma workers_withWorkers : (n.withWorkers ws).workers = ws := rfl

lemma setWorker_withWorkers (w : Worker) :
    (n.withWorkers ws).setWorker p w = (n.setWorker p w).withWorkers (Function.update ws p w) :=
  rfl

@[simp] lemma workers_setWorker (w : Worker) : (n.setWorker p w).workers p = w :=
  Function.update_self _ _ _

/-! ## Steps of the replication threads -/

/-- A step of the thread for `p` looks at the slot of `p` only. -/
lemma Move.withWorkers_peer (hmove : n.Move call a n' out) (ha : a.peer? = some p)
    (hws : ws p = n.workers p) :
    (n.withWorkers ws).step call a =
      some (n'.withWorkers (Function.update ws p (n'.workers p)), out) := by
  cases hmove with
  | replicateBegin hmay =>
      cases ha
      have hmay' : (n.withWorkers ws).mayReplicate p := ⟨hmay.1, hws.trans hmay.2.1, hmay.2.2⟩
      simp [step, quiet, RaftNode.replicateBegin, setWorker_withWorkers, hmay']
  | replicateAtomicMissing hmay hneeds =>
      cases ha
      have hmay' : (n.withWorkers ws).mayReplicate p := ⟨hmay.1, hws.trans hmay.2.1, hmay.2.2⟩
      have hneeds' : (n.withWorkers ws).needsSnapshot (n.nextIndex p - 1) := hneeds
      simp [step, RaftNode.replicateAtomic, setWorker_withWorkers, hmay', hneeds']
  | replicateAtomic hmay hneeds =>
      cases ha
      have hmay' : (n.withWorkers ws).mayReplicate p := ⟨hmay.1, hws.trans hmay.2.1, hmay.2.2⟩
      have hneeds' : ¬ (n.withWorkers ws).needsSnapshot (n.nextIndex p - 1) := hneeds
      simp [step, RaftNode.replicateAtomic, appendEntriesArgs, prevTermAt, setWorker_withWorkers,
        hmay', hneeds']
  | @replicateCheckMissing _ nextIdx hw hneeds =>
      cases ha
      have hneeds' : (n.withWorkers ws).needsSnapshot (nextIdx - 1) := hneeds
      simp [step, quiet, RaftNode.replicateCheck, setWorker_withWorkers, hws, hw, hneeds']
  | @replicateCheck _ nextIdx hw hneeds =>
      cases ha
      have hneeds' : ¬ (n.withWorkers ws).needsSnapshot (nextIdx - 1) := hneeds
      simp [step, quiet, RaftNode.replicateCheck, setWorker_withWorkers, hws, hw, hneeds']
  | replicateLockDeposed hw hstate | replicateLock hw hstate =>
      cases ha
      simp [step, quiet, RaftNode.replicateLock, setWorker_withWorkers, hws, hw, hstate]
  | replicatePrevTerm hw =>
      cases ha
      simp [step, quiet, RaftNode.replicatePrevTerm, prevTermAt, setWorker_withWorkers, hws, hw]
  | replicateRead hw hmore =>
      cases ha
      simp [step, quiet, RaftNode.replicateRead, setWorker_withWorkers, hws, hw, hmore]
  | replicateSend hw hmore =>
      cases ha
      simp [step, RaftNode.replicateSend, setWorker_withWorkers, hws, hw, hmore]
  | dumpSnapshot hw =>
      cases ha
      simp [step, quiet, RaftNode.dumpSnapshot, setWorker_withWorkers, hws, hw]
  | stampSnapshot hw =>
      cases ha
      simp [step, quiet, RaftNode.stampSnapshot, setWorker_withWorkers, hws, hw]
  | sendSnapshot hw =>
      cases ha
      simp [step, RaftNode.sendSnapshot, setWorker_withWorkers, hws, hw]
  | _ => cases ha

/-! ## Everything else -/

/-- No other thread looks at the slots. -/
lemma Move.withWorkers (hmove : n.Move call a n' out) (ha : a.peer? = none) :
    (n.withWorkers ws).step call a = some (n'.withWorkers ws, out) := by
  cases hmove with
  | electionTimeout hidle hstate =>
      simp [step, quiet, RaftNode.electionTimeout, RaftNode.withWorkers, hidle, hstate]
  | startElection hdue => simp [step, quiet, RaftNode.startElection, RaftNode.withWorkers, hdue]
  | evalHardState hstarted =>
      simp [step, quiet, RaftNode.evalHardState, RaftNode.withWorkers, hstarted]
  | saveHardState heval =>
      simp [step, quiet, RaftNode.saveHardState, RaftNode.withWorkers, heval]
  | sendRequestVote hsending =>
      simp [step, RaftNode.sendRequestVote, RaftNode.withWorkers, hsending]
  | clientRefused hfree hstate =>
      simp [step, answering, RaftNode.clientRequest, RaftNode.withWorkers, notLeader, hfree, hstate]
  | clientRequest hfree hstate =>
      simp [step, answering, RaftNode.clientRequest, RaftNode.withWorkers, hfree, hstate]
  | lookupFound hreq hfound | lookupRequest hreq hfound =>
      simp [step, answering, RaftNode.lookupRequest, RaftNode.withWorkers, hreq, hfound]
  | appendRefused hreq hstate =>
      simp [step, answering, RaftNode.appendRequest, RaftNode.withWorkers, notLeader, hreq, hstate]
  | appendInFlight hreq hstate hpending =>
      simp [step, answering, RaftNode.appendRequest, RaftNode.withWorkers, hreq, hstate, hpending]
  | appendRequest hreq hstate hpending =>
      simp [step, answering, RaftNode.appendRequest, RaftNode.withWorkers, acceptRequest, newEntry,
        hreq, hstate, hpending]
  | fetchBatch hwaiting hcommit =>
      simp [step, quiet, RaftNode.fetchBatch, RaftNode.withWorkers, batchIndices, hwaiting, hcommit]
  | readBalances hexec => simp [step, quiet, RaftNode.readBalances, RaftNode.withWorkers, hexec]
  | applyEntry hexec => simp [step, quiet, RaftNode.applyEntry, RaftNode.withWorkers, hexec]
  | notifyClient hexec =>
      simp [step, RaftNode.notifyClient, RaftNode.withWorkers, hexec]
      rfl
  | compactIfDue hexec =>
      simp [step, quiet, RaftNode.compactIfDue, RaftNode.withWorkers, compactionDue, hexec]
  | skipCompaction hexec => simp [step, quiet, RaftNode.skipCompaction, RaftNode.withWorkers, hexec]
  | _ => cases ha

lemma ite_withWorkers (c : Prop) [Decidable c] (m : RaftNode) :
    (if c then n else m).withWorkers ws = if c then n.withWorkers ws else m.withWorkers ws :=
  apply_ite (fun n : RaftNode => n.withWorkers ws) c n m

lemma appendEntry_withWorkers (i : ℤ) (e : LogEntry) :
    (n.withWorkers ws).appendEntry i e = (n.appendEntry i e).withWorkers ws := by
  simp only [appendEntry, ite_withWorkers]
  rfl

lemma appendLoop_withWorkers (es : List LogEntry) : ∀ (n : RaftNode) (i : ℤ),
    (n.withWorkers ws).appendLoop i es = (n.appendLoop i es).withWorkers ws := by
  induction es with
  | nil => exact fun _ _ => rfl
  | cons e es ih =>
      intro n i
      rw [appendLoop, appendEntry_withWorkers, ih]
      rfl

lemma followCommit_withWorkers (c : ℤ) :
    (n.withWorkers ws).followCommit c = (n.followCommit c).withWorkers ws := by
  simp only [followCommit, ite_withWorkers]
  rfl

lemma acceptLeader_withWorkers (t l : ℤ) :
    (n.withWorkers ws).acceptLeader t l = (n.acceptLeader t l).withWorkers ws := by
  simp only [acceptLeader, ite_withWorkers]
  rfl

lemma seeTerm_withWorkers (t : ℤ) :
    (n.withWorkers ws).seeTerm t = (n.seeTerm t).withWorkers ws := by
  simp only [seeTerm, ite_withWorkers]
  rfl

/-- The handlers do not look at the slots. -/
lemma handle_withWorkers (req : Request) :
    ((n.withWorkers ws).handle req).1 = (n.handle req).1.withWorkers ws := by
  cases req with
  | requestVote args =>
      simp only [handle, handleRequestVote, seeTerm_withWorkers, apply_ite Prod.fst,
        ite_withWorkers]
      rfl
  | appendEntries args =>
      simp only [handle, handleAppendEntries, acceptLeader_withWorkers, appendLoop_withWorkers,
        followCommit_withWorkers, apply_ite Prod.fst, ite_withWorkers]
      rfl
  | installSnapshot args =>
      simp only [handle, handleInstallSnapshot, seeTerm_withWorkers, apply_ite Prod.fst,
        ite_withWorkers]
      rfl

lemma voteReply_withWorkers (t : ℤ) (r : RequestVoteReply) :
    (n.withWorkers ws).voteReply t r = (n.voteReply t r).withWorkers ws := by
  simp only [voteReply, becomeLeader, ite_withWorkers]
  rfl

lemma appendEntriesReply_withWorkers (args : AppendEntriesArgs) (r : AppendEntriesReply) :
    (n.withWorkers ws).appendEntriesReply p args r =
      (n.appendEntriesReply p args r).withWorkers (Function.update ws p .idle) := by
  simp only [appendEntriesReply, ite_withWorkers]
  cases args.entries.getLast? with
  | none => rfl
  | some last => rfl

lemma installSnapshotReply_withWorkers (args : InstallSnapshotArgs) (r : InstallSnapshotReply) :
    (n.withWorkers ws).installSnapshotReply p args r =
      (n.installSnapshotReply p args r).withWorkers (Function.update ws p .idle) := by
  simp only [installSnapshotReply, ite_withWorkers]
  rfl

end RaftNode

/-! ## The node with its slots -/

/-- The thread waits for the answer to its remote call. -/
def Worker.waits : Worker → Bool
  | .calling _ => true
  | _ => false

/-- What happens to a node with one slot per peer. -/
inductive SlotLabel
  | thread (call : ℕ) (step : ThreadStep)
  | handle (request : Request)
  /-- A call returns to the thread that made it. -/
  | receive (dst : ℤ) (request : Request) (reply : Reply)
  | abandon (dst : ℤ) (request : Request)
  | crash

namespace RaftNode

/-- A call can return to a thread that waits. -/
def Waits (n : RaftNode) (dst : ℤ) (request : Request) : Prop :=
  request.replicates = true → (n.workers dst).waits = true

instance (n : RaftNode) (dst : ℤ) (request : Request) : Decidable (n.Waits dst request) :=
  inferInstanceAs (Decidable (_ → _))

/-- One step. -/
def slotStep (n : RaftNode) : SlotLabel → Option RaftNode
  | .thread call a => (n.step call a).map Prod.fst
  | .handle request => some (n.handle request).1
  | .receive dst request reply =>
      if n.Waits dst request then some (n.receive dst request reply) else none
  | .abandon dst request => if n.Waits dst request then some (n.abandon dst request) else none
  | .crash => some n.restart

end RaftNode

/-! ## The slots of the threads -/

namespace Replicators

variable {s s' : Replicators} {ws : ℤ → Worker} {t : ℕ} {peer : ℤ} {stage : ThreadStage}

/-- The slots hold the threads; a thread before its first and after its last step leaves its slot
empty. -/
structure Slots (s : Replicators) (ws : ℤ → Worker) : Prop where
  thread : ∀ t peer stage, s.threads t = some ⟨peer, stage⟩ → ws peer = stage.slot.getD .idle
  free : ∀ peer, (∀ t, ¬ s.HasThread t peer) → ws peer = .idle

lemma slot_ofSlot (w : Worker) : (ThreadStage.ofSlot w).slot.getD .idle = w := by
  by_cases hw : w = .idle
  · rw [ThreadStage.ofSlot, if_pos hw, hw]
    rfl
  · rw [ThreadStage.ofSlot, if_neg hw]
    rfl

namespace Slots

lemma init (n : RaftNode) : (init n).Slots fun _ => .idle where
  thread _ _ _ ht := by cases ht
  free _ _ := rfl

/-- The slots depend on the threads only. -/
lemma congr (h : s.Slots ws) (hthreads : s'.threads = s.threads) : s'.Slots ws where
  thread t q st ht := h.thread t q st (by rwa [← hthreads])
  free q hq := h.free q fun t ht => hq t (by rwa [HasThread, hthreads])

/-- A thread moves. -/
lemma setThread (h : s.Slots ws) (hone : s.OneWorker) (ht : s.threads t = some ⟨peer, stage⟩)
    (stage' : ThreadStage) :
    (s.setThread t (some ⟨peer, stage'⟩)).Slots
      (Function.update ws peer (stage'.slot.getD .idle)) where
  thread u q st hu := by
    rw [threads_setThread] at hu
    split at hu
    · cases hu
      exact Function.update_self _ _ _
    · rename_i hut
      have hq : q ≠ peer := by
        rintro rfl
        exact hut (hone.thread q u t (hasThread hu) (hasThread ht))
      rw [Function.update_of_ne hq]
      exact h.thread u q st hu
  free q hq := by
    have hne : q ≠ peer := by
      rintro rfl
      refine hq t ?_
      rw [HasThread, threads_setThread, if_pos rfl]
      rfl
    rw [Function.update_of_ne hne]
    refine h.free q fun u hu => hq u ?_
    rw [HasThread, threads_setThread]
    split
    · rename_i hut
      rw [hut, HasThread, ht] at hu
      exact hu
    · exact hu

/-- A thread is started for a peer without one. -/
lemma spawn (h : s.Slots ws) (ht : s.threads t = none) (hnone : ∀ u, ¬ s.HasThread u peer) :
    (s.setThread t (some ⟨peer, .spawned⟩)).Slots ws where
  thread u q st hu := by
    rw [threads_setThread] at hu
    split at hu
    · cases hu
      exact h.free _ hnone
    · exact h.thread u q st hu
  free q hq := by
    refine h.free q fun u hu => hq u ?_
    have hut : u ≠ t := by
      rintro rfl
      rw [HasThread, ht] at hu
      cases hu
    rw [HasThread, threads_setThread, if_neg hut]
    exact hu

/-- A thread ends. -/
lemma finish (h : s.Slots ws) (ht : s.threads t = some ⟨peer, .returned⟩) :
    (s.setThread t none).Slots ws where
  thread u q st hu := by
    rw [threads_setThread] at hu
    split at hu
    · cases hu
    · exact h.thread u q st hu
  free q hq := by
    by_cases hqp : q = peer
    · rw [hqp]
      exact h.thread t peer .returned ht
    · refine h.free q fun u hu => hq u ?_
      have hut : u ≠ t := by
        rintro rfl
        rw [HasThread, ht] at hu
        exact hqp (Option.some.inj hu).symm
      rw [HasThread, threads_setThread, if_neg hut]
      exact hu

end Slots

/-- `n` is the node with its threads in its slots. -/
def Represents (s : Replicators) (n : RaftNode) : Prop :=
  ∃ ws, s.Slots ws ∧ n = s.node.withWorkers ws

/-! ## Every step -/

/-- A step to `s'` that the node with its slots does not see, or takes too. -/
def Matched (s' : Replicators) (n : RaftNode) : Prop :=
  s'.Represents n ∨ ∃ l n', n.slotStep l = some n' ∧ s'.Represents n'

lemma threads_emit (out : Output) : (s.emit out).threads = s.threads := by
  cases out <;> rfl

lemma node_emit (out : Output) : (s.emit out).node = s.node := by
  cases out <;> rfl

/-- Waiting for an answer is seen in the slot. -/
lemma Slots.waits (h : s.Slots ws) {k : ℕ} (request : Request)
    (ht : s.threads t = some ⟨peer, .inside (.calling k)⟩) :
    (s.node.withWorkers ws).Waits peer request := by
  intro _
  rw [RaftNode.workers_withWorkers, h.thread t peer _ ht]
  rfl

namespace Slots

/-- A step of `replicateToPeer`. -/
lemma work (h : s.Slots ws) (hone : s.OneWorker) {a : ThreadStep} (hs : s.work t a = some s') :
    s'.Matched (s.node.withWorkers ws) := by
  simp only [Replicators.work] at hs
  split at hs
  · rename_i peer stage ht
    split at hs
    · rename_i ha
      split at hs
      · rename_i w hw
        obtain ⟨⟨n, out⟩, hn, rfl⟩ := Option.map_eq_some_iff.mp hs
        have hslot : ws peer = (s.load peer w).workers peer := by
          rw [h.thread t peer stage ht, hw, load, RaftNode.workers_setWorker]
          rfl
        have hstep := (RaftNode.move_of_step hn).withWorkers_peer ha hslot
        have hslots := h.setThread hone ht (.ofSlot (n.workers peer))
        rw [slot_ofSlot] at hslots
        refine .inr ⟨.thread s.nextCall a, _, congrArg (Option.map Prod.fst) hstep, _,
          hslots.congr (threads_emit _), ?_⟩
        rw [node_emit]
        rfl
      · cases hs
    · cases hs
  · cases hs

/-- The call of a thread returns: `node` is one of the two ways. -/
lemma callReturns (h : s.Slots ws) (hone : s.OneWorker) {node : ℤ → Request → RaftNode}
    (hnode : ∀ peer request, request.replicates = true →
      (s.node.withWorkers ws).Waits peer request →
      ∃ l, (s.node.withWorkers ws).slotStep l =
        some ((node peer request).withWorkers (Function.update ws peer .idle)))
    (hs : s.callReturns t node = some s') : s'.Matched (s.node.withWorkers ws) := by
  simp only [Replicators.callReturns] at hs
  split at hs
  · rename_i peer k ht
    split at hs
    · rename_i request hk
      split at hs
      · rename_i hrep
        cases hs
        obtain ⟨l, hl⟩ := hnode peer request hrep (h.waits request ht)
        exact .inr ⟨l, _, hl, _, (h.setThread hone ht .returned).congr rfl, rfl⟩
      · cases hs
    · cases hs
  · cases hs

/-- A call for a vote returns. -/
lemma voteReturns (h : s.Slots ws) {k : ℕ} {node : ℤ → Request → RaftNode}
    (hnode : ∀ dst args, ∃ l, (s.node.withWorkers ws).slotStep l =
      some ((node dst (.requestVote args)).withWorkers ws))
    (hs : s.voteReturns k node = some s') : s'.Matched (s.node.withWorkers ws) := by
  simp only [Replicators.voteReturns] at hs
  split at hs
  · rename_i dst args hk
    cases hs
    obtain ⟨l, hl⟩ := hnode dst args
    exact .inr ⟨l, _, hl, ws, h.congr rfl, rfl⟩
  · cases hs

end Slots

end Replicators

/-! ## Answers -/

namespace RaftNode

variable {n : RaftNode} {ws : ℤ → Worker} {peer : ℤ} {request : Request}

/-- A failed call ends the thread. -/
lemma slotStep_abandon (hrep : request.replicates = true)
    (hwaits : (n.withWorkers ws).Waits peer request) :
    ∃ l, (n.withWorkers ws).slotStep l =
      some ((n.abandon peer request).withWorkers (Function.update ws peer .idle)) := by
  refine ⟨.abandon peer request, ?_⟩
  rw [slotStep, if_pos hwaits]
  cases request with
  | requestVote args => cases hrep
  | appendEntries args => rfl
  | installSnapshot args => rfl

/-- An answer is processed, and the thread ends. -/
lemma slotStep_receive (hrep : request.replicates = true)
    (hwaits : (n.withWorkers ws).Waits peer request) (reply : Reply) :
    ∃ l, (n.withWorkers ws).slotStep l =
      some ((n.receive peer request reply).withWorkers (Function.update ws peer .idle)) := by
  cases request with
  | requestVote args => cases hrep
  | appendEntries args =>
      cases reply with
      | appendEntries r =>
          refine ⟨.receive peer (.appendEntries args) (.appendEntries r), ?_⟩
          rw [slotStep, if_pos hwaits]
          exact congrArg some (appendEntriesReply_withWorkers args r)
      -- a reply of another kind is none
      | requestVote r | installSnapshot r => exact slotStep_abandon hrep hwaits
  | installSnapshot args =>
      cases reply with
      | installSnapshot r =>
          refine ⟨.receive peer (.installSnapshot args) (.installSnapshot r), ?_⟩
          rw [slotStep, if_pos hwaits]
          exact congrArg some (installSnapshotReply_withWorkers args r)
      | requestVote r | appendEntries r => exact slotStep_abandon hrep hwaits

/-- An answer to a call for a vote does not look at the slots. -/
lemma slotStep_receiveVote (dst : ℤ) (args : RequestVoteArgs) (reply : Reply) :
    ∃ l, (n.withWorkers ws).slotStep l =
      some ((n.receive dst (.requestVote args) reply).withWorkers ws) := by
  refine ⟨.receive dst (.requestVote args) reply, ?_⟩
  have hwaits : (n.withWorkers ws).Waits dst (.requestVote args) := fun h => by cases h
  rw [slotStep, if_pos hwaits]
  cases reply with
  | requestVote r => exact congrArg some (voteReply_withWorkers args.term r)
  | appendEntries r => rfl
  | installSnapshot r => rfl

end RaftNode

/-! ## The refinement -/

namespace Replicators

variable {s s' : Replicators} {n : RaftNode} {l : ReplicatorsLabel}

/-- Every step is seen by the node with its slots as one of its own, or not at all. -/
lemma Inv.matched (h : s.Inv) (hn : s.Represents n) (hs : s.step l = some s') : s'.Matched n := by
  obtain ⟨ws, hslots, rfl⟩ := hn
  have hone : s.OneWorker := h.oneWorker
  have hunseen : ∀ {s'}, s'.threads = s.threads → s'.node = s.node →
      Matched s' (s.node.withWorkers ws) :=
    fun hthreads hnode => .inl ⟨ws, hslots.congr hthreads, by rw [hnode]⟩
  cases l with
  | start =>
      simp only [Replicators.step] at hs
      split at hs
      · cases hs
        exact hunseen rfl rfl
      · split at hs
        · cases hs
          exact hunseen rfl rfl
        · cases hs
  | stop =>
      cases hs
      exact hunseen rfl rfl
  | join | checkRunning | listPeers | testActive | markActive =>
      simp only [Replicators.step] at hs
      split at hs <;> cases hs <;> exact hunseen rfl rfl
  | spawn t =>
      simp only [Replicators.step] at hs
      split at hs
      · rename_i peer targets hm ht
        cases hs
        have hnone : ∀ u, ¬ s.HasThread u peer := fun u hu =>
          h.exclusive.apart peer ⟨u, hu⟩ (aboutToSpawn hm)
        exact .inl ⟨ws, (hslots.spawn ht hnone).congr rfl, rfl⟩
      · cases hs
  | work t a => exact hslots.work hone hs
  | giveUp t =>
      simp only [Replicators.step] at hs
      split at hs
      · rename_i peer ht
        split at hs
        · cases hs
          refine .inl ⟨_, hslots.setThread hone ht .returned, ?_⟩
          have hidle : ws peer = .idle := hslots.thread t peer .spawned ht
          rw [Function.update_eq_self_iff.mpr hidle.symm]
          rfl
        · cases hs
      · cases hs
  | reply t reply =>
      exact hslots.callReturns hone
        (fun _ _ hrep hwaits => RaftNode.slotStep_receive hrep hwaits reply) hs
  | fail t =>
      exact hslots.callReturns hone (fun _ _ => RaftNode.slotStep_abandon) hs
  | finish t =>
      simp only [Replicators.step] at hs
      split at hs
      · rename_i peer ht
        cases hs
        exact .inl ⟨ws, (hslots.finish ht).congr rfl, rfl⟩
      · cases hs
  | other a =>
      simp only [Replicators.step] at hs
      split at hs
      · rename_i ha
        obtain ⟨⟨n, out⟩, hn, rfl⟩ := Option.map_eq_some_iff.mp hs
        have hstep : (s.node.withWorkers ws).step s.nextCall a = some (n.withWorkers ws, out) :=
          (RaftNode.move_of_step hn).withWorkers ha
        refine .inr ⟨.thread s.nextCall a, _, congrArg (Option.map Prod.fst) hstep, ws,
          hslots.congr (threads_emit _), ?_⟩
        rw [node_emit]
      · cases hs
  | handle request =>
      cases hs
      refine .inr ⟨.handle request, _, congrArg some (RaftNode.handle_withWorkers request), ws,
        hslots.congr rfl, rfl⟩
  | voteReply k reply =>
      simp only [Replicators.step] at hs
      exact hslots.voteReturns (fun dst args => RaftNode.slotStep_receiveVote dst args reply) hs
  | voteFail k =>
      simp only [Replicators.step] at hs
      exact hslots.voteReturns (fun dst args => ⟨.abandon dst (.requestVote args), rfl⟩) hs
  | crash =>
      cases hs
      exact .inr ⟨.crash, _, rfl, fun _ => .idle, .init _, rfl⟩

/-- `n` is the node with its threads in its slots, and these are in order. -/
structure Tracks (s : Replicators) (n : RaftNode) : Prop where
  inv : s.Inv
  represents : s.Represents n

lemma tracks_init (config : ClusterConfig) (storage : RocksDBStore) :
    Tracks (init (.new config storage)) (.new config storage) where
  inv := inv_init _
  represents := ⟨fun _ => .idle, .init _, rfl⟩

/-- **The slots lose nothing**: every run of a node, its replication threads and its manager is a
run of the node that has one slot per peer. -/
theorem threads_refine_slots {config : ClusterConfig} {storage : RocksDBStore}
    {ls : List ReplicatorsLabel}
    (hrun : Transition.Run step (fun _ _ => True) (init (.new config storage)) ls s) :
    ∃ ls' n, Transition.Run RaftNode.slotStep (fun _ _ => True) (.new config storage) ls' n ∧
      s.Represents n := by
  obtain ⟨ls', n, hrun', htracks⟩ := hrun.simulation (tracks_init config storage)
    fun t l u n h _ hs => by
      rcases h.inv.matched h.represents hs with hn | ⟨l', n', hl', hn'⟩
      · exact .inl ⟨h.inv.step hs, hn⟩
      · exact .inr ⟨l', n', hl', h.inv.step hs, hn'⟩
  exact ⟨ls', n, hrun', htracks.represents⟩

/-- A leader that has been stopped and started again still waits in the slot of its peer for the
call from before. -/
theorem threads_refine_slots_restart :
    ∃ ls n, Transition.Run RaftNode.slotStep (fun _ _ => True)
        (.new ⟨1, [1, 2]⟩ RocksDBStore.genesis) ls n ∧
      n.state = .leader ∧ (n.workers 2).waits = true := by
  have hreached : ∃ s, Transition.Run step (fun _ _ => True)
      (init (.new ⟨1, [1, 2]⟩ RocksDBStore.genesis)) (startLeading ++ stopAndStart) s ∧
        s.node.state = .leader ∧ s.threads 0 = some ⟨2, .inside (.calling 1)⟩ :=
    run_of_genesis (fun store => init (.new ⟨1, [1, 2]⟩ store)) (by decide +kernel)
  obtain ⟨s, hrun, hlead, hthread⟩ := hreached
  obtain ⟨ls, n, hslots, ws, hws, rfl⟩ := threads_refine_slots hrun
  refine ⟨ls, _, hslots, hlead, ?_⟩
  rw [RaftNode.workers_withWorkers, hws.thread 0 2 _ hthread]
  rfl

end Replicators

end RaftConsensus
