import RaftConsensus.Cluster.Step

/-!
# What a step can do

Inversion of the step functions, once: `RaftNode.Move` lists, for every thread step, the branches
it can take with their guards and results, and `Cluster.Move` does the same for the labels of the
cluster.  Every invariant is proved by cases over these, and no later file unfolds a step.
-/

namespace RaftConsensus

namespace RaftNode

/-- The moves of a node's threads: `n.Move call a n' out` when step `a` can lead from `n` to `n'`
with output `out`. -/
inductive Move (n : RaftNode) (call : ℕ) : ThreadStep → RaftNode → Output → Prop
  | electionTimeout (hidle : n.election = .idle) (hstate : n.state ≠ .leader) :
      Move n call .electionTimeout { n with election := .due } .none
  | startElection (hdue : n.election = .due) :
      Move n call .startElection
        { n with
          state := .candidate
          currentTerm := n.currentTerm + 1
          votedFor := n.config.myId
          election := .started ⟨n.currentTerm + 1, n.lastLogIndex, n.lastLogTerm⟩ } .none
  | evalHardState {saved : SavedElection} (hstarted : n.election = .started saved) :
      Move n call .evalHardState
        { n with election := .evaluated saved n.currentTerm n.votedFor } .none
  | saveHardState {saved : SavedElection} {term votedFor : ℤ}
      (heval : n.election = .evaluated saved term votedFor) :
      Move n call .saveHardState
        { n with
          storage := n.storage.saveHardState term votedFor
          votesReceived := Function.update n.votesReceived saved.term 1
          election := .next saved n.config.peerStubs } .none
  | sendRequestVote {saved : SavedElection} {peer : ℤ} {targets : List ℤ}
      (hsending : n.election = .sending saved (peer :: targets)) :
      Move n call .sendRequestVote { n with election := .next saved targets }
        (.call peer (.requestVote
          ⟨saved.term, n.config.myId, saved.lastLogIndex, saved.lastLogTerm⟩))
  | replicateBegin {peer : ℤ} (hmay : n.mayReplicate peer) :
      Move n call (.replicateBegin peer) (n.setWorker peer (.begun (n.nextIndex peer))) .none
  | replicateCheckMissing {peer nextIdx : ℤ} (hw : n.workers peer = .begun nextIdx)
      (hneeds : n.needsSnapshot (nextIdx - 1)) :
      Move n call (.replicateCheck peer) (n.setWorker peer .snapshot) .none
  | replicateCheck {peer nextIdx : ℤ} (hw : n.workers peer = .begun nextIdx)
      (hneeds : ¬ n.needsSnapshot (nextIdx - 1)) :
      Move n call (.replicateCheck peer) (n.setWorker peer (.checked (nextIdx - 1))) .none
  | replicateLockDeposed {peer prev : ℤ} (hw : n.workers peer = .checked prev)
      (hstate : n.state ≠ .leader) :
      Move n call (.replicateLock peer) (n.setWorker peer .idle) .none
  | replicateLock {peer prev : ℤ} (hw : n.workers peer = .checked prev)
      (hstate : n.state = .leader) :
      Move n call (.replicateLock peer)
        (n.setWorker peer (.locked
          ⟨prev, 0, n.currentTerm, n.commitIndex, n.lastLogIndex, n.nextIndex peer, []⟩)) .none
  | replicatePrevTerm {peer : ℤ} {b : Batch} (hw : n.workers peer = .locked b) :
      Move n call (.replicatePrevTerm peer)
        (n.setWorker peer (.reading { b with prevLogTerm := n.prevTermAt b.prevLogIndex })) .none
  | replicateRead {peer : ℤ} {b : Batch} (hw : n.workers peer = .reading b)
      (hmore : Batch.more b) :
      Move n call (.replicateRead peer)
        (n.setWorker peer (.reading { b with
          next := b.next + 1
          entries := b.entries ++ [n.storage.getLogEntry b.next] })) .none
  | replicateSend {peer : ℤ} {b : Batch} (hw : n.workers peer = .reading b)
      (hmore : ¬ Batch.more b) :
      Move n call (.replicateSend peer) (n.setWorker peer (.calling call))
        (.call peer (.appendEntries (Batch.args n.config.myId b)))
  | replicateAtomicMissing {peer : ℤ} (hmay : n.mayReplicate peer)
      (hneeds : n.needsSnapshot (n.nextIndex peer - 1)) :
      Move n call (.replicateAtomic peer) (n.setWorker peer .snapshot) .none
  | replicateAtomic {peer : ℤ} (hmay : n.mayReplicate peer)
      (hneeds : ¬ n.needsSnapshot (n.nextIndex peer - 1)) :
      Move n call (.replicateAtomic peer) (n.setWorker peer (.calling call))
        (.call peer (.appendEntries (n.appendEntriesArgs peer)))
  | dumpSnapshot {peer : ℤ} (hw : n.workers peer = .snapshot) :
      Move n call (.dumpSnapshot peer)
        (n.setWorker peer (.dumped n.storage.createSnapshot.lastIndex
          n.storage.createSnapshot.lastTerm n.storage.createSnapshot.data)) .none
  | stampSnapshot {peer lastIndex lastTerm : ℤ} {data : Bytes}
      (hw : n.workers peer = .dumped lastIndex lastTerm data) :
      Move n call (.stampSnapshot peer)
        (n.setWorker peer (.stamped
          ⟨n.currentTerm, n.config.myId, lastIndex, lastTerm, data, 0, true⟩)) .none
  | sendSnapshot {peer : ℤ} {args : InstallSnapshotArgs} (hw : n.workers peer = .stamped args) :
      Move n call (.sendSnapshot peer) (n.setWorker peer (.calling call))
        (.call peer (.installSnapshot args))
  | clientRefused {cb : ℕ} {req : ClientRequest} (hfree : n.requests cb = none)
      (hstate : n.state ≠ .leader) :
      Move n call (.clientRequest cb req) n (.response cb n.notLeader)
  | clientRequest {cb : ℕ} {req : ClientRequest} (hfree : n.requests cb = none)
      (hstate : n.state = .leader) :
      Move n call (.clientRequest cb req)
        { n with requests := Function.update n.requests cb (some (.checked req)) } .none
  | lookupFound {cb : ℕ} {req : ClientRequest} (hreq : n.requests cb = some (.checked req))
      (hfound : n.storage.getRequestResult req.requestId ≠ []) :
      Move n call (.lookupRequest cb) { n with requests := Function.update n.requests cb none }
        (.response cb ⟨true, n.storage.getRequestResult req.requestId, n.leaderId⟩)
  | lookupRequest {cb : ℕ} {req : ClientRequest} (hreq : n.requests cb = some (.checked req))
      (hfound : n.storage.getRequestResult req.requestId = []) :
      Move n call (.lookupRequest cb)
        { n with requests := Function.update n.requests cb (some (.lookedUp req)) } .none
  | appendRefused {cb : ℕ} {req : ClientRequest} (hreq : n.requests cb = some (.lookedUp req))
      (hstate : n.state ≠ .leader) :
      Move n call (.appendRequest cb) { n with requests := Function.update n.requests cb none }
        (.response cb n.notLeader)
  | appendInFlight {cb : ℕ} {req : ClientRequest} (hreq : n.requests cb = some (.lookedUp req))
      (hstate : n.state = .leader) (hpending : (n.pendingCallbacks req.requestId).isSome) :
      Move n call (.appendRequest cb)
        { n with requests := Function.update n.requests cb none } .none
  | appendRequest {cb : ℕ} {req : ClientRequest} (hreq : n.requests cb = some (.lookedUp req))
      (hstate : n.state = .leader) (hpending : n.pendingCallbacks req.requestId = none) :
      Move n call (.appendRequest cb)
        (acceptRequest { n with requests := Function.update n.requests cb none } cb req) .none
  | fetchBatch (hwaiting : n.executor = .waiting) (hcommit : n.lastApplied < n.commitIndex) :
      Move n call .fetchBatch
        { n with executor := .next (n.batchIndices.map n.storage.getLogEntry) } .none
  | readBalances {entry : LogEntry} {rest : List LogEntry}
      (hex : n.executor = .applying entry rest) :
      Move n call .readBalances
        { n with
          executor := .computed entry rest (n.storage.outcome entry.command).senderNewBal
            (n.storage.outcome entry.command).receiverNewBal
            (n.storage.outcome entry.command).resultMsg } .none
  | applyEntry {entry : LogEntry} {rest : List LogEntry} {senderNewBal receiverNewBal : ℤ}
      {resultMsg : Bytes}
      (hex : n.executor = .computed entry rest senderNewBal receiverNewBal resultMsg) :
      Move n call .applyEntry
        { n with
          storage := n.storage.applyTransaction entry senderNewBal receiverNewBal resultMsg
          executor := .written entry rest resultMsg } .none
  | notifyClient {entry : LogEntry} {rest : List LogEntry} {resultMsg : Bytes}
      (hex : n.executor = .written entry rest resultMsg) :
      Move n call .notifyClient
        { n with
          lastApplied := entry.index
          pendingCallbacks := Function.update n.pendingCallbacks entry.command.requestId none
          executor := .notified rest }
        ((n.pendingCallbacks entry.command.requestId).elim .none fun cb =>
          .response cb ⟨isSuccess resultMsg, resultMsg, n.leaderId⟩)
  | compactIfDue {rest : List LogEntry} (hex : n.executor = .notified rest) :
      Move n call .compactIfDue
        { n with
          storage :=
            if n.compactionDue then n.storage.compactLog (n.lastApplied - 100) else n.storage
          executor := .next rest } .none
  | skipCompaction {rest : List LogEntry} (hex : n.executor = .notified rest) :
      Move n call .skipCompaction { n with executor := .next rest } .none

lemma quiet_eq_some {o : Option RaftNode} {n' : RaftNode} {out : Output}
    (h : quiet o = some (n', out)) : o = some n' ∧ out = .none := by
  simpa [quiet, eq_comm] using h

lemma answering_eq_some {n' : RaftNode} {cb : ℕ}
    {o : Option (RaftNode × Option ClientResponse)} {out : Output}
    (h : answering cb o = some (n', out)) :
    ∃ r, o = some (n', r) ∧ out = r.elim .none (.response cb) := by
  simp only [answering, Option.map_eq_some_iff, Prod.mk.injEq, Prod.exists] at h
  obtain ⟨m, r, ho, rfl, rfl⟩ := h
  exact ⟨r, ho, rfl⟩

variable {n n' : RaftNode} {call : ℕ}

/-! ### The election thread -/

lemma move_of_electionTimeout (h : n.electionTimeout = some n') :
    n.Move call .electionTimeout n' .none := by
  rw [electionTimeout] at h
  split at h
  · rename_i hg
    cases h
    exact .electionTimeout hg.1 hg.2
  · cases h

lemma move_of_startElection (h : n.startElection = some n') :
    n.Move call .startElection n' .none := by
  rw [startElection] at h
  split at h
  · rename_i hg
    cases h
    exact .startElection hg
  · cases h

lemma move_of_evalHardState (h : n.evalHardState = some n') :
    n.Move call .evalHardState n' .none := by
  rw [evalHardState] at h
  split at h
  · rename_i hg
    cases h
    exact .evalHardState hg
  · cases h

lemma move_of_saveHardState (h : n.saveHardState = some n') :
    n.Move call .saveHardState n' .none := by
  rw [saveHardState] at h
  split at h
  · rename_i hg
    cases h
    exact .saveHardState hg
  · cases h

lemma move_of_sendRequestVote {peer : ℤ} {args : RequestVoteArgs}
    (h : n.sendRequestVote = some (n', peer, args)) :
    n.Move call .sendRequestVote n' (.call peer (.requestVote args)) := by
  rw [sendRequestVote] at h
  split at h
  · rename_i hg
    cases h
    exact .sendRequestVote hg
  · cases h

/-! ### The threads for the peers -/

lemma move_of_replicateBegin {p : ℤ} (h : n.replicateBegin p = some n') :
    n.Move call (.replicateBegin p) n' .none := by
  rw [replicateBegin] at h
  split at h
  · rename_i hg
    cases h
    exact .replicateBegin hg
  · cases h

lemma move_of_replicateCheck {p : ℤ} (h : n.replicateCheck p = some n') :
    n.Move call (.replicateCheck p) n' .none := by
  rw [replicateCheck] at h
  split at h
  · rename_i hg
    split at h
    · rename_i hn
      cases h
      exact .replicateCheckMissing hg hn
    · rename_i hn
      cases h
      exact .replicateCheck hg hn
  · cases h

lemma move_of_replicateLock {p : ℤ} (h : n.replicateLock p = some n') :
    n.Move call (.replicateLock p) n' .none := by
  rw [replicateLock] at h
  split at h
  · rename_i hg
    split at h
    · rename_i hn
      cases h
      exact .replicateLockDeposed hg hn
    · rename_i hn
      cases h
      exact .replicateLock hg (not_not.mp hn)
  · cases h

lemma move_of_replicatePrevTerm {p : ℤ} (h : n.replicatePrevTerm p = some n') :
    n.Move call (.replicatePrevTerm p) n' .none := by
  rw [replicatePrevTerm] at h
  split at h
  · rename_i hg
    cases h
    exact .replicatePrevTerm hg
  · cases h

lemma move_of_replicateRead {p : ℤ} (h : n.replicateRead p = some n') :
    n.Move call (.replicateRead p) n' .none := by
  rw [replicateRead] at h
  split at h
  · rename_i hg
    split at h
    · rename_i hn
      cases h
      exact .replicateRead hg hn
    · cases h
  · cases h

lemma move_of_replicateSend {p : ℤ} {args : AppendEntriesArgs}
    (h : n.replicateSend p call = some (n', args)) :
    n.Move call (.replicateSend p) n' (.call p (.appendEntries args)) := by
  rw [replicateSend] at h
  split at h
  · rename_i hg
    split at h
    · cases h
    · rename_i hn
      cases h
      exact .replicateSend hg hn
  · cases h

lemma move_of_replicateAtomic {p : ℤ} {args : Option AppendEntriesArgs}
    (h : n.replicateAtomic p call = some (n', args)) :
    n.Move call (.replicateAtomic p) n'
      (args.elim .none fun args => .call p (.appendEntries args)) := by
  rw [replicateAtomic] at h
  split at h
  · rename_i hg
    split at h
    · rename_i hn
      cases h
      exact .replicateAtomicMissing hg hn
    · rename_i hn
      cases h
      exact .replicateAtomic hg hn
  · cases h

lemma move_of_dumpSnapshot {p : ℤ} (h : n.dumpSnapshot p = some n') :
    n.Move call (.dumpSnapshot p) n' .none := by
  rw [dumpSnapshot] at h
  split at h
  · rename_i hg
    cases h
    exact .dumpSnapshot hg
  · cases h

lemma move_of_stampSnapshot {p : ℤ} (h : n.stampSnapshot p = some n') :
    n.Move call (.stampSnapshot p) n' .none := by
  rw [stampSnapshot] at h
  split at h
  · rename_i hg
    cases h
    exact .stampSnapshot hg
  · cases h

lemma move_of_sendSnapshot {p : ℤ} {args : InstallSnapshotArgs}
    (h : n.sendSnapshot p call = some (n', args)) :
    n.Move call (.sendSnapshot p) n' (.call p (.installSnapshot args)) := by
  rw [sendSnapshot] at h
  split at h
  · rename_i hg
    cases h
    exact .sendSnapshot hg
  · cases h

/-! ### Requests of clients -/

lemma move_of_clientRequest {cb : ℕ} {req : ClientRequest} {r : Option ClientResponse}
    (h : n.clientRequest cb req = some (n', r)) :
    n.Move call (.clientRequest cb req) n' (r.elim .none (.response cb)) := by
  rw [clientRequest] at h
  split at h
  · cases h
  · rename_i hf
    split at h
    · rename_i hs
      cases h
      exact .clientRefused (not_not.mp hf) hs
    · rename_i hs
      cases h
      exact .clientRequest (not_not.mp hf) (not_not.mp hs)

lemma move_of_lookupRequest {cb : ℕ} {r : Option ClientResponse}
    (h : n.lookupRequest cb = some (n', r)) :
    n.Move call (.lookupRequest cb) n' (r.elim .none (.response cb)) := by
  rw [lookupRequest] at h
  split at h
  · rename_i hreq
    dsimp only at h
    split at h
    · rename_i hf
      cases h
      exact .lookupFound hreq hf
    · rename_i hf
      cases h
      exact .lookupRequest hreq (not_not.mp hf)
  · cases h

lemma move_of_appendRequest {cb : ℕ} {r : Option ClientResponse}
    (h : n.appendRequest cb = some (n', r)) :
    n.Move call (.appendRequest cb) n' (r.elim .none (.response cb)) := by
  rw [appendRequest] at h
  split at h
  · rename_i hreq
    dsimp only at h
    split at h
    · rename_i hs
      cases h
      exact .appendRefused hreq hs
    · rename_i hs
      split at h
      · rename_i hp
        cases h
        exact .appendInFlight hreq (not_not.mp hs) hp
      · rename_i hp
        cases h
        exact .appendRequest hreq (not_not.mp hs) (by simpa using hp)
  · cases h

/-! ### The executor -/

lemma move_of_fetchBatch (h : n.fetchBatch = some n') :
    n.Move call .fetchBatch n' .none := by
  rw [fetchBatch] at h
  split at h
  · rename_i hg
    cases h
    exact .fetchBatch hg.1 hg.2
  · cases h

lemma move_of_readBalances (h : n.readBalances = some n') :
    n.Move call .readBalances n' .none := by
  rw [readBalances] at h
  split at h
  · rename_i hg
    cases h
    exact .readBalances hg
  · cases h

lemma move_of_applyEntry (h : n.applyEntry = some n') :
    n.Move call .applyEntry n' .none := by
  rw [applyEntry] at h
  split at h
  · rename_i hg
    cases h
    exact .applyEntry hg
  · cases h

lemma move_of_notifyClient {r : Option (ℕ × ClientResponse)}
    (h : n.notifyClient = some (n', r)) :
    n.Move call .notifyClient n' (r.elim .none fun p => .response p.1 p.2) := by
  rw [notifyClient] at h
  split at h
  · rename_i hg
    cases h
    rw [Option.elim_map]
    exact .notifyClient hg
  · cases h

lemma move_of_compactIfDue (h : n.compactIfDue = some n') :
    n.Move call .compactIfDue n' .none := by
  rw [compactIfDue] at h
  split at h
  · rename_i hg
    cases h
    exact .compactIfDue hg
  · cases h

lemma move_of_skipCompaction (h : n.skipCompaction = some n') :
    n.Move call .skipCompaction n' .none := by
  rw [skipCompaction] at h
  split at h
  · rename_i hg
    cases h
    exact .skipCompaction hg
  · cases h

/-- **Every thread step is one of the moves.** -/
theorem move_of_step {a : ThreadStep} {out : Output}
    (hstep : n.step call a = some (n', out)) : n.Move call a n' out := by
  cases a with
  | electionTimeout =>
      obtain ⟨h, rfl⟩ := quiet_eq_some hstep
      exact move_of_electionTimeout h
  | startElection =>
      obtain ⟨h, rfl⟩ := quiet_eq_some hstep
      exact move_of_startElection h
  | evalHardState =>
      obtain ⟨h, rfl⟩ := quiet_eq_some hstep
      exact move_of_evalHardState h
  | saveHardState =>
      obtain ⟨h, rfl⟩ := quiet_eq_some hstep
      exact move_of_saveHardState h
  | sendRequestVote =>
      obtain ⟨r, hr, heq⟩ := Option.map_eq_some_iff.mp hstep
      cases heq
      exact move_of_sendRequestVote hr
  | replicateBegin p =>
      obtain ⟨h, rfl⟩ := quiet_eq_some hstep
      exact move_of_replicateBegin h
  | replicateCheck p =>
      obtain ⟨h, rfl⟩ := quiet_eq_some hstep
      exact move_of_replicateCheck h
  | replicateLock p =>
      obtain ⟨h, rfl⟩ := quiet_eq_some hstep
      exact move_of_replicateLock h
  | replicatePrevTerm p =>
      obtain ⟨h, rfl⟩ := quiet_eq_some hstep
      exact move_of_replicatePrevTerm h
  | replicateRead p =>
      obtain ⟨h, rfl⟩ := quiet_eq_some hstep
      exact move_of_replicateRead h
  | replicateSend p =>
      obtain ⟨r, hr, heq⟩ := Option.map_eq_some_iff.mp hstep
      cases heq
      exact move_of_replicateSend hr
  | replicateAtomic p =>
      obtain ⟨r, hr, heq⟩ := Option.map_eq_some_iff.mp hstep
      cases heq
      exact move_of_replicateAtomic hr
  | dumpSnapshot p =>
      obtain ⟨h, rfl⟩ := quiet_eq_some hstep
      exact move_of_dumpSnapshot h
  | stampSnapshot p =>
      obtain ⟨h, rfl⟩ := quiet_eq_some hstep
      exact move_of_stampSnapshot h
  | sendSnapshot p =>
      obtain ⟨r, hr, heq⟩ := Option.map_eq_some_iff.mp hstep
      cases heq
      exact move_of_sendSnapshot hr
  | clientRequest cb req =>
      obtain ⟨r, h, rfl⟩ := answering_eq_some hstep
      exact move_of_clientRequest h
  | lookupRequest cb =>
      obtain ⟨r, h, rfl⟩ := answering_eq_some hstep
      exact move_of_lookupRequest h
  | appendRequest cb =>
      obtain ⟨r, h, rfl⟩ := answering_eq_some hstep
      exact move_of_appendRequest h
  | fetchBatch =>
      obtain ⟨h, rfl⟩ := quiet_eq_some hstep
      exact move_of_fetchBatch h
  | readBalances =>
      obtain ⟨h, rfl⟩ := quiet_eq_some hstep
      exact move_of_readBalances h
  | applyEntry =>
      obtain ⟨h, rfl⟩ := quiet_eq_some hstep
      exact move_of_applyEntry h
  | notifyClient =>
      obtain ⟨r, hr, heq⟩ := Option.map_eq_some_iff.mp hstep
      cases heq
      exact move_of_notifyClient hr
  | compactIfDue =>
      obtain ⟨h, rfl⟩ := quiet_eq_some hstep
      exact move_of_compactIfDue h
  | skipCompaction =>
      obtain ⟨h, rfl⟩ := quiet_eq_some hstep
      exact move_of_skipCompaction h

end RaftNode

namespace Cluster

/-- The moves of the cluster. -/
inductive Move (members : List ℤ) (s : Cluster) : Label → Cluster → Prop
  | thread {i : ℤ} {a : ThreadStep} {n : RaftNode} {out : Output} (hi : i ∈ members)
      (hmove : (s.nodes i).Move s.nextCall a n out) :
      Move members s (.thread i a)
        (((s.setNode i n).emit i out).record (threadEvents i a (s.nodes i) n out))
  | handle {k : ℕ} {src dst : ℤ} {request : Request} {alive : Bool}
      (hcall : s.calls k = some ⟨src, dst, request, none, alive⟩) :
      Move members s (.handle k)
        (((s.setNode dst ((s.nodes dst).handle request).1).setCall k
          (some ⟨src, dst, request, some ((s.nodes dst).handle request).2, alive⟩)).record
            (handleEvents dst request ((s.nodes dst).handle request).2))
  | reply {k : ℕ} {src dst : ℤ} {request : Request} {reply : Reply}
      (hcall : s.calls k = some ⟨src, dst, request, some reply, true⟩) :
      Move members s (.reply k)
        (((s.setNode src ((s.nodes src).receive dst request reply)).setCall k none).record
          (replyEvents src (s.nodes src) ((s.nodes src).receive dst request reply)))
  | fail {k : ℕ} {src dst : ℤ} {request : Request} {reply : Option Reply}
      (hcall : s.calls k = some ⟨src, dst, request, reply, true⟩) :
      Move members s (.fail k)
        ((s.setNode src ((s.nodes src).abandon dst request)).setCall k
          (some ⟨src, dst, request, reply, false⟩))
  | crash {i : ℤ} (hi : i ∈ members) :
      Move members s (.crash i) ((s.setNode i (s.nodes i).restart).orphan i)

/-- A thread step of the cluster is a step of its node. -/
lemma step_thread {members : List ℤ} {s t : Cluster} {i : ℤ} {a : ThreadStep}
    (hstep : step members s (.thread i a) = some t) :
    ∃ n out, i ∈ members ∧ (s.nodes i).step s.nextCall a = some (n, out) ∧
      t = ((s.setNode i n).emit i out).record (threadEvents i a (s.nodes i) n out) := by
  simp only [step] at hstep
  split at hstep
  · rename_i hi
    split at hstep
    · cases hstep
    · rename_i n out hn
      cases hstep
      exact ⟨n, out, hi, hn, rfl⟩
  · cases hstep

/-- **Every step of the cluster is one of the moves.** -/
theorem move_of_step {members : List ℤ} {s t : Cluster} {l : Label}
    (hstep : step members s l = some t) : s.Move members l t := by
  cases l with
  | thread i a =>
      obtain ⟨n, out, hi, hn, rfl⟩ := step_thread hstep
      exact .thread hi (RaftNode.move_of_step hn)
  | handle k =>
      simp only [step] at hstep
      split at hstep
      · rename_i hcall
        cases hstep
        exact .handle hcall
      · cases hstep
  | reply k =>
      simp only [step] at hstep
      split at hstep
      · rename_i hcall
        cases hstep
        exact .reply hcall
      · cases hstep
  | fail k =>
      simp only [step] at hstep
      split at hstep
      · rename_i hcall
        cases hstep
        exact .fail hcall
      · cases hstep
  | crash i =>
      simp only [step] at hstep
      split at hstep
      · rename_i hi
        cases hstep
        exact .crash hi
      · cases hstep

/-! ## What the state updates leave alone -/

section Updates

variable (s : Cluster)

@[simp] lemma record_nodes (es : List Event) : (s.record es).nodes = s.nodes := rfl
@[simp] lemma record_calls (es : List Event) : (s.record es).calls = s.calls := rfl
@[simp] lemma record_nextCall (es : List Event) : (s.record es).nextCall = s.nextCall := rfl
@[simp] lemma record_history (es : List Event) : (s.record es).history = es ++ s.history := rfl

@[simp] lemma setNode_nodes (i : ℤ) (n : RaftNode) :
    (s.setNode i n).nodes = Function.update s.nodes i n := rfl
@[simp] lemma setNode_calls (i : ℤ) (n : RaftNode) : (s.setNode i n).calls = s.calls := rfl
@[simp] lemma setNode_nextCall (i : ℤ) (n : RaftNode) :
    (s.setNode i n).nextCall = s.nextCall := rfl
@[simp] lemma setNode_history (i : ℤ) (n : RaftNode) :
    (s.setNode i n).history = s.history := rfl

@[simp] lemma setCall_nodes (k : ℕ) (c : Option Call) : (s.setCall k c).nodes = s.nodes := rfl
@[simp] lemma setCall_calls (k : ℕ) (c : Option Call) :
    (s.setCall k c).calls = Function.update s.calls k c := rfl
@[simp] lemma setCall_nextCall (k : ℕ) (c : Option Call) :
    (s.setCall k c).nextCall = s.nextCall := rfl
@[simp] lemma setCall_history (k : ℕ) (c : Option Call) :
    (s.setCall k c).history = s.history := rfl

@[simp] lemma emit_nodes (i : ℤ) (out : Output) : (s.emit i out).nodes = s.nodes := by
  cases out <;> rfl
@[simp] lemma emit_history (i : ℤ) (out : Output) : (s.emit i out).history = s.history := by
  cases out <;> rfl

/-- A call after `emit` is an old one or the one just made. -/
lemma emit_calls {i : ℤ} {out : Output} {k : ℕ} {c : Call} (h : (s.emit i out).calls k = some c) :
    s.calls k = some c ∧ (k = s.nextCall → ∀ dst req, out ≠ .call dst req) ∨
      ∃ dst request, out = .call dst request ∧ k = s.nextCall ∧
        c = ⟨i, dst, request, none, true⟩ := by
  cases out with
  | none => exact .inl ⟨h, by simp⟩
  | response => exact .inl ⟨h, by simp⟩
  | call dst request =>
      by_cases hk : k = s.nextCall
      · subst hk
        simp only [emit, addCall, setCall_calls, Function.update_self, Option.some.injEq] at h
        exact .inr ⟨dst, request, rfl, rfl, h.symm⟩
      · simp only [emit, addCall, setCall_calls, Function.update_of_ne hk] at h
        exact .inl ⟨h, fun hk' => absurd hk' hk⟩

end Updates

/-! ## What holds of all nodes and of all calls -/

section Updates

variable {s t : Cluster} {i : ℤ} {n : RaftNode} {P : ℤ → RaftNode → Prop}
  {Q : ℤ → Request → Prop}

/-- What holds of all nodes after one has been replaced. -/
lemma forall_nodes (hnodes : t.nodes = Function.update s.nodes i n) (hnode : P i n)
    (hothers : ∀ j, j ≠ i → P j (s.nodes j)) (j : ℤ) : P j (t.nodes j) := by
  rw [hnodes]
  exact (Function.forall_update_iff s.nodes P).mpr ⟨hnode, hothers⟩ j

/-- What holds of all requests, by their senders, after a call has been answered, given up or
removed. -/
lemma forall_calls_update (h : ∀ k c, s.calls k = some c → Q c.src c.request) {k : ℕ}
    {new : Option Call}
    (hnew : ∀ c ∈ new, ∃ c' ∈ s.calls k, c'.src = c.src ∧ c'.request = c.request) (k' : ℕ)
    (c : Call) (hc : Function.update s.calls k new k' = some c) : Q c.src c.request := by
  by_cases hk : k' = k
  · subst hk
    rw [Function.update_self] at hc
    obtain ⟨c', hc', hsrc, hreq⟩ := hnew c hc
    rw [← hsrc, ← hreq]
    exact h k' c' hc'
  · rw [Function.update_of_ne hk] at hc
    exact h k' c hc

/-- A node that dies leaves its requests behind. -/
lemma forall_calls_orphan (h : ∀ k c, s.calls k = some c → Q c.src c.request) (k : ℕ) (c : Call)
    (hc : (s.orphan i).calls k = some c) : Q c.src c.request := by
  obtain ⟨c', hc', rfl⟩ := Option.map_eq_some_iff.mp hc
  have hold := h k c' hc'
  split
  · exact hold
  · exact hold

end Updates

end Cluster

end RaftConsensus
