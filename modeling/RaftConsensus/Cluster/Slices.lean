import RaftConsensus.Cluster.ElectionSafety
import RaftConsensus.Cluster.Ranges

/-!
# AppendEntries messages are slices of the leader's log

`replicateToPeer` takes the lock twice and reads the entries after it has released it again.  In
between the node can be deposed and elected again, so that the two reads of `nextIndex_` disagree;
entries can be compacted away, cut off or overwritten; and the test for a missing entry looks at
one entry only, and not at all when the message starts at the first.

In every run in which none of this hits a message that is being built (`Steady`), every message
is a slice of the log its sender had at some moment when it led in the message's term
(`messages_are_slices`).
-/

namespace RaftConsensus

/-- The message is a slice of the log in `σ`: its entries follow `prevLogIndex` one by one, they
are all there, and `prevLogTerm` is the term of the entry before them. -/
structure AppendEntriesArgs.SliceOf (args : AppendEntriesArgs) (σ : RocksDBStore) : Prop where
  entries : ∀ (k : ℕ) (e : LogEntry), args.entries[k]? = some e →
    e.index = args.prevLogIndex + 1 + k ∧ 1 ≤ e.term ∧
      σ.getLogEntry (args.prevLogIndex + 1 + k) = e
  prevTerm : args.prevLogTerm =
    if 0 < args.prevLogIndex then (σ.getLogEntry args.prevLogIndex).term else 0
  prevTerm_zero : args.prevLogTerm = 0 ↔ args.prevLogIndex = 0

/-! ## Runs that leave the entries to be read alone -/

/-- The indices still to be read for a batch. -/
def Batch.pending (b : Batch) : List ℤ :=
  (loopRange b.next b.lastLogIndex).take (RaftNode.batchLimit - b.entries.length)

/-- The indices a replication thread past its second locked block has still to read. -/
def Worker.toRead : Worker → List ℤ
  | .locked b => (if 0 < b.prevLogIndex then [b.prevLogIndex] else []) ++ b.pending
  | .reading b => b.pending
  | _ => []

namespace RaftNode

/-- No entry that is still to be read differs in `n'`. -/
def KeepsToRead (n n' : RaftNode) : Prop :=
  ∀ p ∈ n.config.peers, ∀ j ∈ (n.workers p).toRead,
    n'.storage.getLogEntry j = n.storage.getLogEntry j

instance (n n' : RaftNode) : Decidable (n.KeepsToRead n') :=
  inferInstanceAs (Decidable (∀ p ∈ n.config.peers, _))

/-- No entry from `nextIndex_` to the end of the message is missing. -/
def EntriesPresent (n : RaftNode) (peer : ℤ) : Prop :=
  ∀ j ∈ (loopRange (n.nextIndex peer) n.lastLogIndex).take batchLimit,
    (n.storage.getLogEntry j).term ≠ 0

instance (n : RaftNode) (peer : ℤ) : Decidable (n.EntriesPresent peer) :=
  inferInstanceAs (Decidable (∀ j ∈ List.take _ _, _))

/-- The second read of `nextIndex_` continues from the index before it that was computed from
the first one, or there is nothing to send; and no entry of the message is missing. -/
def LocksAligned (n : RaftNode) (peer : ℤ) : Prop :=
  ∀ prev, n.workers peer = .checked prev → n.state = .leader →
    (n.nextIndex peer = prev + 1 ∨ n.lastLogIndex < n.nextIndex peer) ∧
      (0 < prev → (n.storage.getLogEntry prev).term ≠ 0) ∧ n.EntriesPresent peer

instance (n : RaftNode) (peer : ℤ) : Decidable (n.LocksAligned peer) :=
  match h : n.workers peer with
  | .checked prev =>
      decidable_of_iff (n.state = .leader →
        (n.nextIndex peer = prev + 1 ∨ n.lastLogIndex < n.nextIndex peer) ∧
          (0 < prev → (n.storage.getLogEntry prev).term ≠ 0) ∧ n.EntriesPresent peer) (by
        rw [LocksAligned, h]
        exact ⟨fun hp prev' hprev' => by cases hprev'; exact hp, fun hp => hp prev rfl⟩)
  | .idle | .begun _ | .locked _ | .reading _ | .snapshot | .dumped _ _ _ | .stamped _
  | .calling _ => isTrue (by rw [LocksAligned, h]; exact fun prev hprev => by cases hprev)

/-- What a thread step has to respect. -/
def SteadyStep (n : RaftNode) (call : ℕ) (a : ThreadStep) : Prop :=
  (∀ r ∈ n.step call a, n.KeepsToRead r.1) ∧
    match a with
    | .replicateLock peer => n.LocksAligned peer
    | .replicateAtomic peer => n.EntriesPresent peer
    | _ => True

instance (n : RaftNode) (call : ℕ) (a : ThreadStep) : Decidable (n.SteadyStep call a) :=
  match a with
  | .replicateLock peer => inferInstanceAs (Decidable (_ ∧ n.LocksAligned peer))
  | .replicateAtomic peer => inferInstanceAs (Decidable (_ ∧ n.EntriesPresent peer))
  | .electionTimeout | .startElection | .evalHardState | .saveHardState | .sendRequestVote
  | .replicateBegin _ | .replicateCheck _ | .replicatePrevTerm _ | .replicateRead _
  | .replicateSend _ | .dumpSnapshot _ | .stampSnapshot _ | .sendSnapshot _
  | .clientRequest _ _ | .lookupRequest _ | .appendRequest _ | .fetchBatch | .readBalances
  | .applyEntry | .notifyClient | .compactIfDue | .skipCompaction =>
      inferInstanceAs (Decidable (_ ∧ True))

end RaftNode

/-- **The steps that do not break a message that is being built.**  A second locked block finds
the entries of its message in place, and after it no step of the node changes one of them before
it is read.  Installed snapshots contain no line that reads as the key of a log entry or of the
stored term. -/
def Steady (s : Cluster) (l : Label) : Prop :=
  s.SnapshotsSpare l ∧
    match l with
    | .thread i a => (s.nodes i).SteadyStep s.nextCall a
    | .handle k =>
        ∀ c ∈ s.calls k, (s.nodes c.dst).KeepsToRead ((s.nodes c.dst).handle c.request).1
    | _ => True

instance (s : Cluster) : DecidablePred (Steady s)
  | .thread i a => inferInstanceAs (Decidable (_ ∧ (s.nodes i).SteadyStep s.nextCall a))
  | .handle k => inferInstanceAs (Decidable (_ ∧ ∀ c ∈ s.calls k, _))
  | .reply _ | .fail _ | .crash _ => inferInstanceAs (Decidable (_ ∧ True))

/-! ## The invariant -/

lemma Batch.mem_pending {b : Batch} {j : ℤ} :
    j ∈ b.pending ↔ b.next ≤ j ∧ j ≤ b.lastLogIndex ∧
      j < b.next + (RaftNode.batchLimit - b.entries.length : ℕ) := mem_take_loopRange

/-- The batch is being read from the log of `σ`, and the store `s` still has what is missing. -/
structure BatchOk (s σ : RocksDBStore) (b : Batch) : Prop where
  log : σ.LogInRange
  /-- The batch is in line with the entry before it, or it is empty and stays so. -/
  aligned : b.next = b.prevLogIndex + 1 + b.entries.length ∨
    b.entries = [] ∧ b.lastLogIndex < b.next
  entries : ∀ (k : ℕ) (e : LogEntry), b.entries[k]? = some e →
    σ.getLogEntry (b.prevLogIndex + 1 + k) = e ∧ e.term ≠ 0
  pending : ∀ j ∈ b.pending, (σ.getLogEntry j).term ≠ 0 ∧ s.getLogEntry j = σ.getLogEntry j
  present : 0 < b.prevLogIndex → (σ.getLogEntry b.prevLogIndex).term ≠ 0

/-- What holds of a worker of a node with store `s`, where `Led T σ` says that the node has led
term `T` with store `σ`. -/
def WorkerOk (Led : ℤ → RocksDBStore → Prop) (s : RocksDBStore) : Worker → Prop
  | .locked b => ∃ σ, Led b.term σ ∧ BatchOk s σ b ∧
      (0 < b.prevLogIndex → s.getLogEntry b.prevLogIndex = σ.getLogEntry b.prevLogIndex)
  | .reading b => ∃ σ, Led b.term σ ∧ BatchOk s σ b ∧
      b.prevLogTerm = if 0 < b.prevLogIndex then (σ.getLogEntry b.prevLogIndex).term else 0
  | _ => True

/-- Every batch that is being read, and every message that has been sent, comes from a log its
node has led with; `Led i T σ` says that node `i` has led term `T` with store `σ`. -/
structure Slices (Led : ℤ → ℤ → RocksDBStore → Prop) (s : Cluster) : Prop where
  workers : ∀ i p, WorkerOk (Led i) (s.nodes i).storage ((s.nodes i).workers p)
  calls : ∀ k c args, s.calls k = some c → c.request = .appendEntries args →
    ∃ σ, Led c.src args.term σ ∧ args.SliceOf σ

section Workers

variable {Led Led' : ℤ → RocksDBStore → Prop} {s s' σ : RocksDBStore} {w : Worker} {b : Batch}
  {n n' : RaftNode}

lemma BatchOk.keep (h : BatchOk s σ b)
    (hkeep : ∀ j ∈ b.pending, s'.getLogEntry j = s.getLogEntry j) : BatchOk s' σ b :=
  { h with pending := fun j hj => ⟨(h.pending j hj).1, (hkeep j hj).trans (h.pending j hj).2⟩ }

/-- A worker does not care about a change of the store that keeps what it has to read. -/
lemma WorkerOk.keep (h : WorkerOk Led s w)
    (hkeep : ∀ j ∈ w.toRead, s'.getLogEntry j = s.getLogEntry j) : WorkerOk Led s' w := by
  cases w with
  | locked b =>
      obtain ⟨σ, hled, hbatch, hprev⟩ := h
      have hpending := hbatch.keep fun j hj => hkeep j (by simp [Worker.toRead, hj])
      refine ⟨σ, hled, hpending, fun hpos => ?_⟩
      exact (hkeep _ (by simp [Worker.toRead, hpos])).trans (hprev hpos)
  | reading b =>
      obtain ⟨σ, hled, hbatch, hprev⟩ := h
      exact ⟨σ, hled, hbatch.keep hkeep, hprev⟩
  | _ => trivial

lemma WorkerOk.mono (hmono : ∀ T σ, Led T σ → Led' T σ) (h : WorkerOk Led s w) :
    WorkerOk Led' s w := by
  cases w with
  | locked b => exact h.imp fun σ hσ => ⟨hmono _ _ hσ.1, hσ.2⟩
  | reading b => exact h.imp fun σ hσ => ⟨hmono _ _ hσ.1, hσ.2⟩
  | _ => trivial

/-- The next entry is read. -/
lemma BatchOk.read (h : BatchOk s σ b) (hmore : RaftNode.Batch.more b) :
    BatchOk s σ { b with
      next := b.next + 1
      entries := b.entries ++ [s.getLogEntry b.next] } := by
  obtain ⟨hlast, hlimit⟩ := hmore
  have hnext : b.next = b.prevLogIndex + 1 + b.entries.length := by
    rcases h.aligned with hnext | ⟨-, hlt⟩
    · exact hnext
    · omega
  have hread := h.pending b.next (Batch.mem_pending.mpr ⟨le_rfl, hlast, by omega⟩)
  refine { h with aligned := .inl ?_, entries := fun k e he => ?_, pending := fun j hj => ?_ }
  · simp only [List.length_append, List.length_cons, List.length_nil]
    omega
  · rcases lt_trichotomy k b.entries.length with hk | rfl | hk
    · exact h.entries k e (by rwa [List.getElem?_append_left hk] at he)
    · obtain rfl : s.getLogEntry b.next = e := by simpa using he
      rw [← hnext]
      exact ⟨hread.2.symm, hread.2 ▸ hread.1⟩
    · rw [List.getElem?_append_right hk.le, List.getElem?_singleton, if_neg (by omega)] at he
      cases he
  · refine h.pending j (Batch.mem_pending.mpr ?_)
    have hj' := Batch.mem_pending.mp hj
    simp only [List.length_append, List.length_cons, List.length_nil] at hj'
    omega

/-- A complete batch makes a slice. -/
lemma BatchOk.sliceOf (h : BatchOk s σ b) (hprev : 0 ≤ b.prevLogIndex)
    (hterm : b.prevLogTerm =
      if 0 < b.prevLogIndex then (σ.getLogEntry b.prevLogIndex).term else 0) (myId : ℤ) :
    (RaftNode.Batch.args myId b).SliceOf σ where
  entries k e he := by
    obtain ⟨rfl, hpresent⟩ := h.entries k e he
    obtain ⟨⟨hpos, -⟩, hindex⟩ := h.log (b.prevLogIndex + 1 + k)
    exact ⟨hindex hpresent, by omega, rfl⟩
  prevTerm := hterm
  prevTerm_zero := by
    show b.prevLogTerm = 0 ↔ b.prevLogIndex = 0
    rw [hterm]
    split
    · rename_i hpos
      have := h.present hpos
      omega
    · omega

/-- A message that is built in one step is a slice. -/
lemma sliceOf_atomic {peer : ℤ} (hn : n.InRange) (hnext : 1 ≤ n.nextIndex peer)
    (hneeds : ¬ n.needsSnapshot (n.nextIndex peer - 1)) (hpresent : n.EntriesPresent peer) :
    (n.appendEntriesArgs peer).SliceOf n.storage where
  entries k e he := by
    simp only [RaftNode.appendEntriesArgs, List.getElem?_map, Option.map_eq_some_iff] at he ⊢
    obtain ⟨j, hj, rfl⟩ := he
    have hmem := hpresent j (List.mem_of_getElem? hj)
    obtain rfl : j = n.nextIndex peer + k := by
      rw [List.getElem?_take] at hj
      split at hj
      · exact getElem?_loopRange hj
      · cases hj
    obtain ⟨⟨hpos, -⟩, hindex⟩ := hn.storage.log (n.nextIndex peer + k)
    exact ⟨(hindex hmem).trans (by omega), by omega, by rw [sub_add_cancel]⟩
  prevTerm := rfl
  prevTerm_zero := by
    simp only [RaftNode.appendEntriesArgs, RaftNode.prevTermAt]
    simp only [RaftNode.needsSnapshot, not_and] at hneeds
    split
    · rename_i hpos
      have := hneeds hpos
      omega
    · omega

/-- Moving one worker. -/
lemma workerOk_setWorker {p q : ℤ} (h : ∀ q, WorkerOk Led n.storage (n.workers q))
    (hw : WorkerOk Led n.storage w) :
    WorkerOk Led (n.setWorker p w).storage ((n.setWorker p w).workers q) := by
  by_cases hq : q = p
  · subst hq
    simpa [RaftNode.setWorker] using hw
  · simpa [RaftNode.setWorker, hq] using h q

/-- The workers of a node whose threads stay where they are. -/
lemma workerOk_keep (hn : n.InRange) (h : ∀ q, WorkerOk Led n.storage (n.workers q))
    (hkeep : n.KeepsToRead n') (q : ℤ) : WorkerOk Led n'.storage (n.workers q) := by
  refine (h q).keep fun j hj => hkeep q (hn.threads q ?_) j hj
  intro hidle
  rw [hidle] at hj
  cases hj

/-- **Steady thread steps keep the batches in order.** -/
lemma workerOk_move {call : ℕ} {a : ThreadStep} {out : Output} (hn : n.InRange)
    (h : ∀ q, WorkerOk Led n.storage (n.workers q))
    (hled : n.state = .leader → Led n.currentTerm n.storage) (hkeep : n.KeepsToRead n')
    (hsteady : ∀ peer, a = .replicateLock peer → n.LocksAligned peer)
    (hmove : n.Move call a n' out) (q : ℤ) : WorkerOk Led n'.storage (n'.workers q) := by
  have hworker : ∀ {p : ℤ} {w : Worker}, n.workers p = w → WorkerOk Led n.storage w :=
    fun hw => hw ▸ h _
  cases hmove with
  | replicateBegin => exact workerOk_setWorker h trivial
  | replicateCheckMissing => exact workerOk_setWorker h trivial
  | replicateCheck => exact workerOk_setWorker h trivial
  | replicateLockDeposed => exact workerOk_setWorker h trivial
  | replicateLock hw hstate =>
      obtain ⟨haligned, hprev, hpresent⟩ := hsteady _ rfl _ hw hstate
      refine workerOk_setWorker h ⟨_, hled hstate, ⟨hn.storage.log, ?_, ?_, ?_, hprev⟩,
        fun _ => rfl⟩
      · simpa using haligned
      · rintro k e he
        cases he
      · exact fun j hj => ⟨hpresent j hj, rfl⟩
  | replicatePrevTerm hw =>
      obtain ⟨σ, hσ, hbatch, hprev⟩ := hworker hw
      refine workerOk_setWorker h ⟨σ, hσ, { hbatch with }, ?_⟩
      simp only [RaftNode.prevTermAt]
      split
      · rename_i hpos
        rw [hprev hpos]
      · rfl
  | replicateRead hw hmore =>
      obtain ⟨σ, hσ, hbatch, hprev⟩ := hworker hw
      exact workerOk_setWorker h ⟨σ, hσ, hbatch.read hmore, hprev⟩
  | replicateSend => exact workerOk_setWorker h trivial
  | replicateAtomicMissing => exact workerOk_setWorker h trivial
  | replicateAtomic => exact workerOk_setWorker h trivial
  | dumpSnapshot => exact workerOk_setWorker h trivial
  | stampSnapshot => exact workerOk_setWorker h trivial
  | sendSnapshot => exact workerOk_setWorker h trivial
  | _ => exact workerOk_keep hn h hkeep q

/-- The messages a steady thread step sends are slices. -/
lemma sliceOf_output {call : ℕ} {a : ThreadStep} {dst : ℤ} {args : AppendEntriesArgs}
    (hn : n.InRange) (h : ∀ q, WorkerOk Led n.storage (n.workers q))
    (hled : n.state = .leader → Led n.currentTerm n.storage)
    (hsteady : ∀ peer, a = .replicateAtomic peer → n.EntriesPresent peer)
    (hmove : n.Move call a n' (.call dst (.appendEntries args))) :
    ∃ σ, Led args.term σ ∧ args.SliceOf σ := by
  have hworker : ∀ {p : ℤ} {w : Worker}, n.workers p = w →
      WorkerOk Led n.storage w ∧ w.InRange := fun hw => hw ▸ ⟨h _, hn.workers _⟩
  generalize hout : Output.call dst (.appendEntries args) = out at hmove
  cases hmove with
  | replicateSend hw =>
      obtain ⟨⟨σ, hσ, hbatch, hprev⟩, hrange⟩ := hworker hw
      cases hout
      exact ⟨σ, hσ, hbatch.sliceOf hrange.1 hprev _⟩
  | replicateAtomic hmay hneeds =>
      cases hout
      have hnext := hn.next hmay.2.2 _ (RaftNode.mem_peers_of_stub hmay.1)
      exact ⟨_, hled hmay.2.2, sliceOf_atomic hn hnext hneeds (hsteady _ rfl)⟩
  | @notifyClient entry rest msg hex =>
      cases hp : n.pendingCallbacks entry.command.requestId <;> simp [hp] at hout
  | _ => cases hout

end Workers

/-! ## Runs -/

/-- Receiving an answer leaves the log alone. -/
lemma RaftNode.receive_getLogEntry (n : RaftNode) (dst : ℤ) (req : Request) (rep : Reply) (j : ℤ) :
    (n.receive dst req rep).storage.getLogEntry j = n.storage.getLogEntry j := by
  obtain ⟨-, -, h | ⟨t, v, h⟩⟩ := n.receive_frame dst req rep
  · rw [h]
  · rw [h, RocksDBStore.getLogEntry_saveHardState]

namespace Slices

variable {Led Led' : ℤ → ℤ → RocksDBStore → Prop} {s t : Cluster} {i : ℤ} {n : RaftNode}

lemma mono (hmono : ∀ i T σ, Led i T σ → Led' i T σ) (h : Slices Led s) : Slices Led' s where
  workers i p := (h.workers i p).mono (hmono i)
  calls k c args hc hreq := (h.calls k c args hc hreq).imp fun _ hσ => ⟨hmono _ _ _ hσ.1, hσ.2⟩

lemma of_node (h : Slices Led s) (hnodes : t.nodes = Function.update s.nodes i n)
    (hnode : ∀ p, WorkerOk (Led i) n.storage (n.workers p))
    (hcalls : ∀ k c args, t.calls k = some c → c.request = .appendEntries args →
      ∃ σ, Led c.src args.term σ ∧ args.SliceOf σ) : Slices Led t :=
  ⟨Cluster.forall_nodes (P := fun j n => ∀ p, WorkerOk (Led j) n.storage (n.workers p)) hnodes
    hnode fun j _ => h.workers j, hcalls⟩

/-- What the messages are, by sender and request. -/
lemma calls_request (h : Slices Led s) (k : ℕ) (c : Call) (hc : s.calls k = some c)
    (args : AppendEntriesArgs) (hreq : c.request = .appendEntries args) :
    ∃ σ, Led c.src args.term σ ∧ args.SliceOf σ :=
  h.calls k c args hc hreq

/-- Replacing a call by one with the same source and request, or by none. -/
lemma update_call (h : Slices Led s) {k : ℕ} {new : Option Call}
    (hnew : ∀ c ∈ new, ∃ c' ∈ s.calls k, c'.src = c.src ∧ c'.request = c.request) (k' : ℕ)
    (c : Call) (args : AppendEntriesArgs) (hc : Function.update s.calls k new k' = some c)
    (hreq : c.request = .appendEntries args) : ∃ σ, Led c.src args.term σ ∧ args.SliceOf σ :=
  Cluster.forall_calls_update
    (Q := fun src req => ∀ args, req = .appendEntries args →
      ∃ σ, Led src args.term σ ∧ args.SliceOf σ) h.calls_request hnew k' c hc args hreq

/-- A worker that has been ended does not matter. -/
lemma workerOk_of_idle {Led : ℤ → RocksDBStore → Prop} {σ σ' : RocksDBStore} {w w' : Worker}
    (h : WorkerOk Led σ w) (hw : w' = w ∨ w' = .idle)
    (hlog : ∀ j, σ'.getLogEntry j = σ.getLogEntry j) : WorkerOk Led σ' w' := by
  rcases hw with rfl | rfl
  · exact h.keep fun j _ => hlog j
  · trivial

/-- **Every steady step keeps batches and messages slices.** -/
theorem step {members : List ℤ} {l : Label} (hin : s.InRange) (h : Slices Led s)
    (hled : ∀ i, (s.nodes i).state = .leader →
      Led i (s.nodes i).currentTerm (s.nodes i).storage)
    (hsteady : Steady s l) (hstep : Cluster.step members s l = some t) : Slices Led t := by
  have hmove := Cluster.move_of_step hstep
  cases l with
  | thread i a =>
      obtain ⟨n, out, -, hn, rfl⟩ := Cluster.step_thread hstep
      obtain ⟨hkeep, hlocks⟩ := hsteady.2
      have hmove := RaftNode.move_of_step hn
      refine h.of_node (i := i) (n := n) (by simp) ?_ fun k c args hc hreq => ?_
      · refine workerOk_move (hin.nodes i) (h.workers i) (hled i) (hkeep _ hn) ?_ hmove
        rintro peer rfl
        exact hlocks
      · rcases Cluster.emit_calls (s := s.setNode i n) hc with ⟨hc, -⟩ | ⟨dst, req, rfl, -, rfl⟩
        · exact h.calls k c args hc hreq
        · obtain rfl : req = .appendEntries args := hreq
          refine sliceOf_output (hin.nodes i) (h.workers i) (hled i) ?_ hmove
          rintro peer rfl
          exact hlocks
  | handle k =>
      cases hmove with
      | @handle k src dst req alive hcall =>
          have hkeep := hsteady.2 _ hcall
          obtain ⟨-, -, -, -, -, -, hworkers, -, -⟩ :=
            RaftNode.threads_inj (RaftNode.handle_threads (s.nodes dst) req)
          refine h.of_node (i := dst) rfl (fun p => ?_) (h.update_call ?_)
          · rw [hworkers]
            exact workerOk_keep (hin.nodes dst) (h.workers dst) hkeep p
          · rintro c ⟨⟩
            exact ⟨_, hcall, rfl, rfl⟩
  | reply k =>
      cases hmove with
      | @reply k src dst req rep hcall =>
          have hworkers := (RaftNode.receive_threads (s.nodes src) dst req rep).2.2
          refine h.of_node (i := src) rfl (fun p => ?_) (h.update_call (by simp))
          exact workerOk_of_idle (h.workers src p) (hworkers p)
            ((s.nodes src).receive_getLogEntry dst req rep)
  | fail k =>
      cases hmove with
      | @fail k src dst req rep hcall =>
          refine h.of_node (i := src) rfl (fun p => ?_) (h.update_call ?_)
          · refine workerOk_of_idle (h.workers src p) (RaftNode.abandon_workers _ dst req p) ?_
            intro j
            cases req <;> rfl
          · rintro c ⟨⟩
            exact ⟨_, hcall, rfl, rfl⟩
  | crash i =>
      cases hmove with
      | crash hi =>
          refine h.of_node (i := i) rfl (fun p => trivial) fun k c args hc hreq => ?_
          exact Cluster.forall_calls_orphan
            (Q := fun src req => ∀ args, req = .appendEntries args →
              ∃ σ, Led src args.term σ ∧ args.SliceOf σ) h.calls_request k c hc args hreq

end Slices

/-- The runs, with crashes, whose steps are all steady. -/
def SteadyRun (members : List ℤ) : Cluster → List Label → Cluster → Prop :=
  Transition.Run (Cluster.step members) Steady

/-- Node `i` leads term `T` with store `σ`. -/
def LeadsWith (i T : ℤ) (σ : RocksDBStore) (s : Cluster) : Prop :=
  (s.nodes i).state = .leader ∧ (s.nodes i).currentTerm = T ∧ (s.nodes i).storage = σ

/-- Along a steady run everything is a slice of a log its node has led with on the way. -/
lemma slices_of_run {members : List ℤ} {s₀ s : Cluster} (hin : s₀.InRange)
    (hinit : Slices (fun _ _ _ => False) s₀) {ls : List Label}
    (hrun : SteadyRun members s₀ ls s) :
    s.InRange ∧ Slices (fun i T σ => Transition.Passed (Cluster.step members) Steady s₀ ls s
      (LeadsWith i T σ)) s := by
  induction hrun with
  | nil => exact ⟨hin, hinit.mono fun _ _ _ hfalse => hfalse.elim⟩
  | @snoc ls t u l hrun hok hstep ih =>
      obtain ⟨hin', hslices⟩ := ih
      refine ⟨hin'.step hok.1 (Cluster.move_of_step hstep), ?_⟩
      refine (hslices.step hin' (fun i hlead => ?_) hok hstep).mono
        fun i T σ hpassed => hpassed.snoc hok hstep
      exact Transition.Run.passed hrun ⟨hlead, rfl, rfl⟩

/-- **AppendEntries messages are slices of the leader's log.**  In a steady run, with crashes, for
every message that has been sent there is a state on the way in which its sender led the term of
the message and the message was a slice of its log. -/
theorem messages_are_slices (members : List ℤ) {ls : List Label} {s : Cluster}
    (hrun : SteadyRun members (.init members fun _ => RocksDBStore.genesis) ls s) {k : ℕ}
    {c : Call} {args : AppendEntriesArgs} (hcall : s.calls k = some c)
    (hreq : c.request = .appendEntries args) :
    ∃ ls₁ u ls₂, ls = ls₁ ++ ls₂ ∧
      SteadyRun members (.init members fun _ => RocksDBStore.genesis) ls₁ u ∧
      SteadyRun members u ls₂ s ∧ (u.nodes c.src).state = .leader ∧
      (u.nodes c.src).currentTerm = args.term ∧ args.SliceOf (u.nodes c.src).storage := by
  have hinit : Slices (fun _ _ _ => False) (.init members fun _ => RocksDBStore.genesis) :=
    ⟨fun i p => trivial, by simp [Cluster.init]⟩
  have hrange : (Cluster.init members fun _ => RocksDBStore.genesis).InRange :=
    Cluster.inRange_init fun _ => RocksDBStore.inRange_genesis
  obtain ⟨-, hslices⟩ := slices_of_run hrange hinit hrun
  obtain ⟨σ, ⟨ls₁, u, ls₂, hls, hrun₁, hrun₂, hlead, hterm, rfl⟩, hslice⟩ :=
    hslices.calls k c args hcall hreq
  exact ⟨ls₁, u, ls₂, hls, hrun₁, hrun₂, hlead, hterm, hslice⟩

/-- The message of an `AppendEntries` request. -/
def Request.appendEntries? : Request → Option AppendEntriesArgs
  | .appendEntries args => some args
  | _ => none

lemma Request.appendEntries?_eq_some {req : Request} {args : AppendEntriesArgs} :
    req.appendEntries? = some args ↔ req = .appendEntries args := by
  cases req <;> simp [appendEntries?]

/-- The steps by which node `1` leads the first term of a cluster of two and takes a request. -/
def firstRequest : List Label :=
  campaign 1 1 ++ [.handle 0, .reply 0,
    .thread 1 (.clientRequest 0
      ⟨Bytes.ascii "r1", .transfer, Bytes.ascii "1", Bytes.ascii "2", 50⟩),
    .thread 1 (.lookupRequest 0), .thread 1 (.appendRequest 0)]

/-- The steps of the thread for `peer` that sends one entry. -/
def replicateOne (i peer : ℤ) : List Label :=
  [.replicateBegin peer, .replicateCheck peer, .replicateLock peer, .replicatePrevTerm peer,
    .replicateRead peer, .replicateSend peer].map (.thread i)

/-- Node `1` sends its first entry to node `2`. -/
theorem messages_are_slices_first :
    ∃ s c args u, SteadyRun pair.ids (.init pair.ids fun _ => RocksDBStore.genesis)
        (firstRequest ++ replicateOne 1 2) s ∧ s.calls 1 = some c ∧
      c.request = .appendEntries args ∧ args.entries.length = 1 ∧ args.SliceOf u := by
  have hsent : ∃ s, SteadyRun pair.ids (.init pair.ids fun _ => RocksDBStore.genesis)
      (firstRequest ++ replicateOne 1 2) s ∧ ∃ c ∈ s.calls 1,
        ∃ args ∈ c.request.appendEntries?, args.entries.length = 1 :=
    run_of_after (by decide +kernel)
  obtain ⟨s, hrun, c, hcall, args, hargs, hlength⟩ := hsent
  have hreq := Request.appendEntries?_eq_some.mp hargs
  obtain ⟨-, u, -, -, -, -, -, -, hslice⟩ := messages_are_slices _ hrun hcall hreq
  exact ⟨s, c, args, _, hrun, hcall, hreq, hlength, hslice⟩

/-- Node `1` leads the first term and starts a message to node `2` from an empty log; a request is
appended; node `2` stands in the second term, which deposes node `1`; node `1` wins the third term
and takes another request, and only now does the thread of the message take the lock again. -/
def reelected : List Label :=
  campaign 1 1 ++ [.handle 0, .reply 0] ++
    [.replicateBegin 2, .replicateCheck 2,
      .clientRequest 0 ⟨Bytes.ascii "r1", .transfer, Bytes.ascii "1", Bytes.ascii "2", 50⟩,
      .lookupRequest 0, .appendRequest 0].map (.thread 1) ++
    campaign 2 1 ++ [.handle 1] ++ campaign 1 1 ++ [.handle 2, .reply 2] ++
    [.clientRequest 1 ⟨Bytes.ascii "r2", .transfer, Bytes.ascii "1", Bytes.ascii "2", 70⟩,
      .lookupRequest 1, .appendRequest 1, .replicateLock 2, .replicatePrevTerm 2,
      .replicateRead 2, .replicateSend 2].map (.thread 1)

/-- **The two reads of `nextIndex_` can disagree**: the message says that its entries follow index
`0`, but the first of them has index `2`. -/
theorem message_skips_entry :
    ∃ s, Transition.Run (Cluster.step [1, 2]) (fun _ _ => True)
        (.init [1, 2] fun _ => RocksDBStore.genesis) reelected s ∧
      ∃ c ∈ s.calls 3, ∃ args ∈ c.request.appendEntries?, args.prevLogIndex = 0 ∧
        ∃ e ∈ args.entries[0]?, e.index = 2 :=
  run_of_after (by decide +kernel)

end RaftConsensus
