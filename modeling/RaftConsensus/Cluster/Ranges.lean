import RaftConsensus.Cluster.ElectionView
import RaftConsensus.Storage.Genesis
import RaftConsensus.Storage.SnapshotTransfer

/-!
# Terms and indices stay in range

Terms and indices are `int`s in the source, so nothing but the code keeps them from being
negative; and the store keeps an entry under a key that is computed from an index.  `InRange`
says that no term and no index is negative anywhere, and that an entry with a term other than `0`
is stored under its own index.  Every step keeps it (`Cluster.InRange.step`), as long as no
installed snapshot has a line that reads as the key of a log entry or of the stored term.
-/

namespace RaftConsensus

open Bytes

/-- The term and the index of an entry are not negative.  The empty entry is in range too. -/
def LogEntry.InRange (e : LogEntry) : Prop := 0 ≤ e.term ∧ 0 ≤ e.index

lemma LogEntry.inRange_empty : LogEntry.empty.InRange := ⟨le_rfl, le_rfl⟩

/-- The lines of a snapshot name neither the stored term nor a log entry. -/
def SparesLog (data : Bytes) : Prop :=
  ∀ p ∈ pairLines data, p.1 ≠ termKey ∧ (ascii "log:").isPrefixOf p.1 = false

instance (data : Bytes) : Decidable (SparesLog data) :=
  inferInstanceAs (Decidable (∀ p ∈ pairLines data, _))

/-! ## The store -/

namespace RocksDBStore

variable {s : RocksDBStore} {e : LogEntry} {i t v : ℤ}

/-- An entry is in range, and if it is not missing it has the index it is stored under. -/
def LogInRange (s : RocksDBStore) : Prop :=
  ∀ j, (s.getLogEntry j).InRange ∧ ((s.getLogEntry j).term ≠ 0 → (s.getLogEntry j).index = j)

structure InRange (s : RocksDBStore) : Prop where
  log : s.LogInRange
  term : 0 ≤ s.loadHardState.1
  last : 0 ≤ s.lastLogIndexCache
  /-- The last index a restart would load. -/
  reopened : 0 ≤ (openDB s.db).lastLogIndexCache
  applied : 0 ≤ s.getLastAppliedIndex

lemma reopened_congr {s' : RocksDBStore}
    (h : s'.db.get lastLogIndexKey = s.db.get lastLogIndexKey) :
    (openDB s'.db).lastLogIndexCache = (openDB s.db).lastLogIndexCache := by
  simp only [openDB, h]

lemma LogInRange.saveHardState (h : s.LogInRange) : (s.saveHardState t v).LogInRange := by
  intro j
  rw [getLogEntry_saveHardState]
  exact h j

lemma LogInRange.appendLog (h : s.LogInRange) (he : e.InRange) : (s.appendLog e).LogInRange := by
  intro j
  rw [getLogEntry_appendLog]
  split
  · rename_i hj
    exact ⟨he, fun _ => hj.symm⟩
  · exact h j

lemma LogInRange.truncateLog (h : s.LogInRange) : (s.truncateLog i).LogInRange := by
  intro j
  rw [getLogEntry_truncateLog]
  split
  · exact ⟨LogEntry.inRange_empty, fun h => absurd rfl h⟩
  · exact h j

lemma LogInRange.compactLog (h : s.LogInRange) : (s.compactLog i).LogInRange := by
  intro j
  rw [getLogEntry_compactLog]
  split
  · exact ⟨LogEntry.inRange_empty, fun h => absurd rfl h⟩
  · exact h j

lemma InRange.saveHardState (h : s.InRange) (ht : 0 ≤ t) : (s.saveHardState t v).InRange where
  log := h.log.saveHardState
  term := ht
  last := h.last
  reopened := (reopened_congr (get_saveHardState_of_head (by simp))).symm ▸ h.reopened
  applied := by simpa using h.applied

lemma InRange.appendLog (h : s.InRange) (he : e.InRange) : (s.appendLog e).InRange where
  log := h.log.appendLog he
  term := by simpa using h.term
  last := he.2
  reopened := he.2
  applied := by simpa using h.applied

lemma reopened_truncateLog : (openDB (s.truncateLog i).db).lastLogIndexCache = i - 1 := by
  simp [openDB, get_truncateLog, Value.stoi]

lemma InRange.truncateLog (h : s.InRange) (hi : 1 ≤ i) : (s.truncateLog i).InRange where
  log := h.log.truncateLog
  term := by simpa using h.term
  last := by
    rw [lastLogIndexCache_truncateLog]
    omega
  reopened := by
    rw [reopened_truncateLog]
    omega
  applied := by simpa using h.applied

lemma InRange.compactLog (h : s.InRange) : (s.compactLog i).InRange where
  log := h.log.compactLog
  term := by simpa using h.term
  last := h.last
  reopened := (reopened_congr (get_compactLog_of_head (by simp))).symm ▸ h.reopened
  applied := by simpa using h.applied

lemma InRange.applyTransaction {a b : ℤ} {msg : Bytes} (h : s.InRange) (he : 0 ≤ e.index) :
    (s.applyTransaction e a b msg).InRange where
  log j := by simpa using h.log j
  term := by simpa using h.term
  last := h.last
  reopened := (reopened_congr (get_applyTransaction_of_head (by simp) (by simp)
    (by decide))).symm ▸ h.reopened
  applied := by simpa using he

/-- A snapshot whose lines spare them leaves the log entries alone. -/
lemma getLogEntry_applySnapshot {data : Bytes} (hdata : SparesLog data) (j : ℤ) :
    (s.applySnapshot data i t).getLogEntry j = s.getLogEntry j := by
  refine getLogEntry_congr (get_applySnapshot_of_notMem rfl ?_ fun p hp h => ?_)
  · rintro (h | h | h) <;> exact absurd h (ne_of_head (by simp))
  · have hspared := (hdata p hp).2
    have hprefix : (ascii "log:").isPrefixOf (formatLogKey j) = true :=
      List.isPrefixOf_iff_prefix.mpr (List.prefix_append _ _)
    rw [h, hprefix] at hspared
    cases hspared

/-- Installing a snapshot: the records are replaced, and the log is cut and ends in the anchor. -/
lemma InRange.installSnapshot {data : Bytes} (h : s.InRange) (hdata : SparesLog data)
    (he : e.InRange) : (((s.applySnapshot data e.index t).truncateLog i).appendLog e).InRange where
  log := by
    have hlog : (s.applySnapshot data e.index t).LogInRange := by
      intro j
      rw [getLogEntry_applySnapshot hdata]
      exact h.log j
    exact hlog.truncateLog.appendLog he
  term := by
    have hkey : (s.applySnapshot data e.index t).db.get termKey = s.db.get termKey := by
      refine get_applySnapshot_of_notMem (by decide) ?_ fun p hp => (hdata p hp).1
      rintro (h | h | h) <;> exact absurd h (ne_of_head (by simp))
    rw [loadHardState_appendLog, loadHardState_truncateLog, loadHardState, hkey]
    exact h.term
  last := he.2
  reopened := he.2
  applied := by
    have hne : lastAppliedKey ≠ snapshotTermKey ∧ lastAppliedKey ≠ snapshotIndexKey := by decide
    rw [getLastAppliedIndex_appendLog, getLastAppliedIndex_truncateLog, getLastAppliedIndex,
      get_applySnapshot, if_neg hne.1, if_neg hne.2, if_pos rfl]
    exact he.2

lemma InRange.openDB (h : s.InRange) : (openDB s.db).InRange where
  log := h.log
  term := h.term
  last := h.reopened
  reopened := h.reopened
  applied := h.applied

/-- The store every node starts with. -/
lemma inRange_genesis : genesis.InRange := by
  have hlog : ∀ j, genesis.getLogEntry j = .empty := by
    intro j
    rw [getLogEntry, get_genesis_of_head (by simp)]
  constructor
  · intro j
    rw [hlog]
    exact ⟨LogEntry.inRange_empty, fun h => absurd rfl h⟩
  · rw [loadHardState, get_genesis_of_head (by simp)]
    exact le_rfl
  · rw [genesis_eq]
    exact le_rfl
  · simp [RocksDBStore.openDB, get_genesis_of_head (k := lastLogIndexKey) (by simp)]
  · rw [getLastAppliedIndex, get_genesis_of_head (by simp)]

end RocksDBStore

/-! ## A node -/

def Worker.InRange : Worker → Prop
  | .begun nextIdx => 1 ≤ nextIdx
  | .checked prevLogIndex => 0 ≤ prevLogIndex
  | .locked b | .reading b => 0 ≤ b.prevLogIndex ∧ ∀ e ∈ b.entries, e.InRange
  | .dumped lastIndex lastTerm _ => 0 ≤ lastIndex ∧ 0 ≤ lastTerm
  | .stamped args => 0 ≤ args.lastIncludedIndex ∧ 0 ≤ args.lastIncludedTerm
  | .idle | .snapshot | .calling _ => True

def Executor.InRange : Executor → Prop
  | .applying entry rest | .computed entry rest _ _ _ | .written entry rest _ =>
      0 ≤ entry.index ∧ ∀ e ∈ rest, 0 ≤ e.index
  | .notified rest => ∀ e ∈ rest, 0 ≤ e.index
  | .waiting => True

lemma Executor.inRange_next {es : List LogEntry} (h : ∀ e ∈ es, 0 ≤ e.index) :
    (Executor.next es).InRange := by
  cases es with
  | nil => trivial
  | cons e es => exact List.forall_mem_cons.mp h

def Request.InRange : Request → Prop
  | .requestVote _ => True
  | .appendEntries args => 0 ≤ args.prevLogIndex ∧ ∀ e ∈ args.entries, e.InRange
  | .installSnapshot args => 0 ≤ args.lastIncludedIndex ∧ 0 ≤ args.lastIncludedTerm

/-- A snapshot that the node installs spares the log. -/
def Request.Spares (n : RaftNode) : Request → Prop
  | .installSnapshot args => n.installs args → SparesLog args.data
  | _ => True

instance (n : RaftNode) : DecidablePred (Request.Spares n)
  | .installSnapshot args => inferInstanceAs (Decidable (n.installs args → _))
  | .requestVote _ | .appendEntries _ => isTrue trivial

namespace RaftNode

variable {n n' : RaftNode}

structure InRange (n : RaftNode) : Prop where
  storage : n.storage.InRange
  term : 0 ≤ n.currentTerm
  last : 0 ≤ n.lastLogIndex
  applied : 0 ≤ n.lastApplied
  matched : ∀ p, 0 ≤ n.matchIndex p
  next : n.state = .leader → ∀ p ∈ n.config.peers, 1 ≤ n.nextIndex p
  election : ∀ saved term v, n.election = .evaluated saved term v → 0 ≤ term
  workers : ∀ p, (n.workers p).InRange
  /-- Only peers have replication threads. -/
  threads : ∀ p, n.workers p ≠ .idle → p ∈ n.config.peers
  executor : n.executor.InRange

/-- Moving the replication thread of a peer. -/
lemma InRange.setWorker {p : ℤ} {w : Worker} (h : n.InRange) (hw : w.InRange)
    (hp : w ≠ .idle → p ∈ n.config.peers) : (n.setWorker p w).InRange :=
  { h with
    workers := by
      intro q
      by_cases hq : q = p
      · subst hq
        simpa [RaftNode.setWorker] using hw
      · simpa [RaftNode.setWorker, hq] using h.workers q
    threads := by
      intro q hq
      by_cases hqp : q = p
      · subst hqp
        exact hp (by simpa [RaftNode.setWorker] using hq)
      · exact h.threads q (by simpa [RaftNode.setWorker, hqp] using hq) }

lemma InRange.becomeFollower {T : ℤ} (h : n.InRange) (hT : 0 ≤ T) :
    (n.becomeFollower T).InRange :=
  { h with
    storage := h.storage.saveHardState hT
    term := hT
    next := fun hs => by cases hs }

lemma InRange.seeTerm {T : ℤ} (h : n.InRange) : (n.seeTerm T).InRange := by
  rcases seeTerm_cases n T with ⟨hsame, -⟩ | ⟨hlt, hsame⟩
  · rw [hsame]
    exact h
  · rw [hsame]
    exact h.becomeFollower (h.term.trans hlt.le)

lemma mem_peers_of_stub {c : ClusterConfig} {p : ℤ} (h : p ∈ c.peerStubs) : p ∈ c.peers := by
  simp only [ClusterConfig.peerStubs, List.mem_dedup, List.mem_filter] at h
  exact h.1

/-- **Thread steps stay in range.** -/
theorem InRange.move {call : ℕ} {a : ThreadStep} {out : Output} (h : n.InRange)
    (hmove : n.Move call a n' out) : n'.InRange := by
  have hpeer : ∀ {p : ℤ} {w : Worker}, n.workers p = w → w ≠ .idle → p ∈ n.config.peers :=
    fun hw hne => h.threads _ (hw ▸ hne)
  have hworker : ∀ {p : ℤ} {w : Worker}, n.workers p = w → w.InRange :=
    fun hw => hw ▸ h.workers _
  have hexec : ∀ {x : Executor}, n.executor = x → x.InRange := fun hx => hx ▸ h.executor
  have hnext : ∀ {p : ℤ}, n.mayReplicate p → 1 ≤ n.nextIndex p ∧ p ∈ n.config.peers :=
    fun hmay => ⟨h.next hmay.2.2 _ (mem_peers_of_stub hmay.1), mem_peers_of_stub hmay.1⟩
  cases hmove with
  | electionTimeout => exact { h with election := fun _ _ _ hx => by cases hx }
  | startElection =>
      exact { h with
        term := h.term.trans (lt_add_one _).le
        next := fun hs => by cases hs
        election := fun _ _ _ hx => by cases hx }
  | evalHardState =>
      refine { h with election := fun saved term v hx => ?_ }
      cases hx
      exact h.term
  | @saveHardState saved term v heval =>
      refine { h with
        storage := h.storage.saveHardState (h.election _ _ _ heval)
        election := fun _ _ _ hx => ?_ }
      simp only [ElectionThread.next] at hx
      split at hx <;> cases hx
  | @sendRequestVote saved peer targets =>
      refine { h with election := fun _ _ _ hx => ?_ }
      simp only [ElectionThread.next] at hx
      split at hx <;> cases hx
  | replicateBegin hmay => exact h.setWorker (hnext hmay).1 fun _ => (hnext hmay).2
  | replicateCheckMissing hw => exact h.setWorker trivial fun _ => hpeer hw (by simp)
  | replicateCheck hw =>
      refine h.setWorker ?_ fun _ => hpeer hw (by simp)
      have hbegun := hworker hw
      simp only [Worker.InRange] at hbegun ⊢
      omega
  | replicateLockDeposed => exact h.setWorker trivial fun hne => absurd rfl hne
  | replicateLock hw =>
      exact h.setWorker ⟨hworker hw, by simp⟩ fun _ => hpeer hw (by simp)
  | replicatePrevTerm hw =>
      have hlocked := hworker hw
      exact h.setWorker hlocked fun _ => hpeer hw (by simp)
  | @replicateRead peer b hw =>
      obtain ⟨hprev, hentries⟩ := hworker hw
      refine h.setWorker ⟨hprev, fun e he => ?_⟩ fun _ => hpeer hw (by simp)
      rcases List.mem_append.mp he with he | he
      · exact hentries e he
      · obtain rfl := List.mem_singleton.mp he
        exact (h.storage.log _).1
  | replicateSend hw => exact h.setWorker trivial fun _ => hpeer hw (by simp)
  | replicateAtomicMissing hmay => exact h.setWorker trivial fun _ => (hnext hmay).2
  | replicateAtomic hmay => exact h.setWorker trivial fun _ => (hnext hmay).2
  | dumpSnapshot hw =>
      exact h.setWorker ⟨h.storage.applied, (h.storage.log _).1.1⟩ fun _ => hpeer hw (by simp)
  | stampSnapshot hw =>
      have hdumped := hworker hw
      exact h.setWorker hdumped fun _ => hpeer hw (by simp)
  | sendSnapshot hw => exact h.setWorker trivial fun _ => hpeer hw (by simp)
  | clientRefused => exact h
  | clientRequest => exact { h with }
  | lookupFound => exact { h with }
  | lookupRequest => exact { h with }
  | appendRefused => exact { h with }
  | appendInFlight => exact { h with }
  | appendRequest =>
      have hlast : 0 ≤ n.lastLogIndex + 1 := h.last.trans (lt_add_one _).le
      exact { h with
        storage := h.storage.appendLog ⟨h.term, hlast⟩
        last := hlast }
  | fetchBatch =>
      refine { h with executor := Executor.inRange_next ?_ }
      rintro e he
      obtain ⟨i, -, rfl⟩ := List.mem_map.mp he
      exact (h.storage.log i).1.2
  | readBalances hex =>
      have happlying := hexec hex
      exact { h with executor := happlying }
  | applyEntry hex =>
      have hcomputed := hexec hex
      exact { h with
        storage := h.storage.applyTransaction hcomputed.1
        executor := hcomputed }
  | notifyClient hex =>
      exact { h with
        applied := (hexec hex).1
        executor := (hexec hex).2 }
  | compactIfDue hex =>
      refine { h with
        storage := ?_
        executor := Executor.inRange_next (hexec hex) }
      dsimp only
      split
      · exact h.storage.compactLog
      · exact h.storage
  | skipCompaction hex => exact { h with executor := Executor.inRange_next (hexec hex) }

/-! ### Handlers -/

lemma InRange.handleRequestVote {args : RequestVoteArgs} (h : n.InRange) :
    (n.handleRequestVote args).1.InRange := by
  rcases handleRequestVote_cases n args with hsame | ⟨hold, -, ⟨-, hsame, -⟩ | hsame⟩
  · rw [hsame]
    exact h
  · rw [hsame]
    have hsee := h.seeTerm (T := args.term)
    exact { hsee with storage := hsee.storage.saveHardState (h.term.trans hold) }
  · rw [hsame]
    exact h.seeTerm

lemma InRange.acceptLeader {T l : ℤ} (h : n.InRange) (hT : n.currentTerm ≤ T) :
    (n.acceptLeader T l).InRange := by
  have hleader : ({ n with leaderId := l } : RaftNode).InRange := { h with }
  have hpos : 0 ≤ T := h.term.trans hT
  unfold RaftNode.acceptLeader
  dsimp only
  split
  · exact hleader.becomeFollower hpos
  · split
    · exact hleader.becomeFollower hpos
    · exact hleader

lemma InRange.appendEntry {i : ℤ} {e : LogEntry} (h : n.InRange) (hi : 1 ≤ i) (he : e.InRange) :
    (n.appendEntry i e).InRange := by
  have hlast : 0 ≤ i := by omega
  unfold RaftNode.appendEntry
  split
  · split
    · exact { h with storage := (h.storage.truncateLog hi).appendLog he, last := hlast }
    · exact h
  · exact { h with storage := h.storage.appendLog he, last := hlast }

lemma InRange.appendLoop {es : List LogEntry} (hes : ∀ e ∈ es, e.InRange) :
    ∀ {n : RaftNode} {prev : ℤ}, n.InRange → 0 ≤ prev → (n.appendLoop prev es).InRange := by
  induction es with
  | nil => exact fun h _ => h
  | cons e es ih =>
      intro n prev h hprev
      obtain ⟨he, hes⟩ := List.forall_mem_cons.mp hes
      exact ih hes (h.appendEntry (by omega) he) (by omega)

lemma InRange.handleAppendEntries {args : AppendEntriesArgs} (h : n.InRange)
    (hreq : Request.InRange (.appendEntries args)) : (n.handleAppendEntries args).1.InRange := by
  unfold RaftNode.handleAppendEntries
  split
  · exact h
  · rename_i hold
    have haccept : (n.acceptLeader args.term args.leaderId).InRange :=
      h.acceptLeader (not_lt.mp hold)
    dsimp only
    split
    · have hloop := InRange.appendLoop hreq.2 haccept hreq.1
      unfold followCommit
      split
      · exact { hloop with }
      · exact hloop
    · exact haccept

lemma InRange.handleInstallSnapshot {args : InstallSnapshotArgs} (h : n.InRange)
    (hreq : Request.InRange (.installSnapshot args))
    (hspare : n.installs args → SparesLog args.data) :
    (n.handleInstallSnapshot args).1.InRange := by
  have hsee : ({ n.seeTerm args.term with leaderId := args.leaderId } : RaftNode).InRange :=
    { h.seeTerm (T := args.term) with }
  rcases handleInstallSnapshot_cases n args with ⟨-, hsame⟩ | ⟨-, hsame⟩ | ⟨hinst, hsame⟩
  · rw [hsame]
    exact h
  · rw [hsame]
    exact hsee
  · rw [hsame]
    have hstore := hsee.storage.installSnapshot (t := args.lastIncludedTerm)
      (i := args.lastIncludedIndex + 1)
      (e := anchorEntry args.lastIncludedIndex args.lastIncludedTerm) (hspare hinst)
      ⟨hreq.2, hreq.1⟩
    exact { hsee with storage := hstore, last := hreq.1, applied := hreq.1 }

theorem InRange.handle {req : Request} (h : n.InRange) (hreq : req.InRange)
    (hspare : req.Spares n) : (n.handle req).1.InRange := by
  cases req with
  | requestVote args => exact h.handleRequestVote
  | appendEntries args => exact h.handleAppendEntries hreq
  | installSnapshot args => exact h.handleInstallSnapshot hreq hspare

/-! ### Replies -/

lemma InRange.voteReply {T : ℤ} {r : RequestVoteReply} (h : n.InRange) :
    (n.voteReply T r).InRange := by
  rcases voteReply_cases n T r with hsame | ⟨hlt, hsame⟩ | ⟨hstate, -, -, ⟨-, hsame⟩ | ⟨-, hsame⟩⟩
  · rw [hsame]
    exact h
  · rw [hsame]
    exact h.becomeFollower (h.term.trans hlt.le)
  · rw [hsame]
    exact { h with }
  · rw [hsame, becomeLeader_eq (n := n.countVote T) hstate]
    refine { h with matched := fun p => ?_, next := fun _ p hp => ?_ }
    · dsimp only
      split
      · exact le_rfl
      · exact h.matched p
    · have hlast : 0 ≤ (n.countVote T).lastLogIndex := h.last
      dsimp only at hp ⊢
      rw [if_pos hp]
      omega

lemma InRange.peerMatched {p last : ℤ} (h : n.InRange) : (n.peerMatched p last).InRange := by
  have hpos : 0 ≤ max (n.matchIndex p) last := (h.matched p).trans (le_max_left _ _)
  refine { h with matched := fun q => ?_, next := fun hs q hq => ?_ }
  · by_cases hqp : q = p
    · subst hqp
      simpa [RaftNode.peerMatched] using .inl (h.matched q)
    · simpa [RaftNode.peerMatched, hqp] using h.matched q
  · by_cases hqp : q = p
    · subst hqp
      simp only [RaftNode.peerMatched, Function.update_self]
      omega
    · simpa [RaftNode.peerMatched, hqp] using h.next hs q hq

lemma InRange.appendEntriesReply {p : ℤ} {args : AppendEntriesArgs} {r : AppendEntriesReply}
    (h : n.InRange) : (n.appendEntriesReply p args r).InRange := by
  have hidle : (n.setWorker p .idle).InRange := h.setWorker trivial fun hne => absurd rfl hne
  unfold RaftNode.appendEntriesReply
  dsimp only
  split
  · exact hidle
  · split
    · rename_i hlt
      exact hidle.becomeFollower (h.term.trans hlt.le)
    · split
      · split
        · exact hidle
        · rename_i last _
          have hmatched : ((n.setWorker p .idle).peerMatched p last.index).InRange :=
            hidle.peerMatched
          exact { hmatched with }
      · split
        · rename_i hmore
          refine { hidle with next := fun hs q hq => ?_ }
          by_cases hqp : q = p
          · subst hqp
            simp only [Function.update_self]
            omega
          · simpa [hqp] using hidle.next hs q hq
        · exact hidle

lemma InRange.installSnapshotReply {p : ℤ} {args : InstallSnapshotArgs}
    {r : InstallSnapshotReply} (h : n.InRange) : (n.installSnapshotReply p args r).InRange := by
  have hidle : (n.setWorker p .idle).InRange := h.setWorker trivial fun hne => absurd rfl hne
  unfold RaftNode.installSnapshotReply
  dsimp only
  split
  · rename_i hlt
    exact hidle.becomeFollower (h.term.trans hlt.le)
  · split
    · exact hidle.peerMatched
    · exact hidle

theorem InRange.receive {dst : ℤ} {req : Request} {rep : Reply} (h : n.InRange) :
    (n.receive dst req rep).InRange := by
  cases req with
  | requestVote args =>
      cases rep with
      | requestVote r => exact h.voteReply
      | appendEntries r => exact h
      | installSnapshot r => exact h
  | appendEntries args =>
      cases rep with
      | requestVote r => exact h
      | appendEntries r => exact h.appendEntriesReply
      | installSnapshot r => exact h
  | installSnapshot args =>
      cases rep with
      | requestVote r => exact h
      | appendEntries r => exact h
      | installSnapshot r => exact h.installSnapshotReply

lemma InRange.abandon {dst : ℤ} {req : Request} (h : n.InRange) : (n.abandon dst req).InRange := by
  cases req with
  | requestVote args => exact h
  | appendEntries args => exact h.setWorker trivial fun hne => absurd rfl hne
  | installSnapshot args => exact h.setWorker trivial fun hne => absurd rfl hne

/-- A node that has just been constructed. -/
lemma inRange_new {config : ClusterConfig} {store : RocksDBStore} (h : store.InRange) :
    (new config store).InRange where
  storage := h
  term := h.term
  last := h.last
  applied := h.applied
  matched _ := le_rfl
  next hs := by cases hs
  election _ _ _ hx := by cases hx
  workers _ := trivial
  threads _ hne := absurd rfl hne
  executor := trivial

/-- A message a thread sends is in range. -/
lemma InRange.output {call : ℕ} {a : ThreadStep} {dst : ℤ} {req : Request} (h : n.InRange)
    (hmove : n.Move call a n' (.call dst req)) : req.InRange := by
  have hworker : ∀ {p : ℤ} {w : Worker}, n.workers p = w → w.InRange :=
    fun hw => hw ▸ h.workers _
  generalize hout : Output.call dst req = out at hmove
  cases hmove with
  | sendRequestVote =>
      cases hout
      trivial
  | replicateSend hw =>
      have hrange := hworker hw
      cases hout
      exact hrange
  | replicateAtomic hmay =>
      cases hout
      have hnext := h.next hmay.2.2 _ (mem_peers_of_stub hmay.1)
      refine ⟨?_, fun e he => ?_⟩
      · simp only [RaftNode.appendEntriesArgs]
        omega
      · obtain ⟨i, -, rfl⟩ := List.mem_map.mp he
        exact (h.storage.log i).1
  | sendSnapshot hw =>
      have hrange := hworker hw
      cases hout
      exact hrange
  | @notifyClient entry rest msg hex =>
      cases hp : n.pendingCallbacks entry.command.requestId <;> simp [hp] at hout
  | _ => cases hout

end RaftNode

/-! ## The cluster -/

namespace Cluster

variable {s t : Cluster} {members : List ℤ}

structure InRange (s : Cluster) : Prop where
  nodes : ∀ i, (s.nodes i).InRange
  calls : ∀ k c, s.calls k = some c → c.request.InRange

/-- The snapshots that are installed spare the log. -/
def SnapshotsSpare (s : Cluster) : Label → Prop
  | .handle k => ∀ c ∈ s.calls k, c.request.Spares (s.nodes c.dst)
  | _ => True

instance (s : Cluster) : DecidablePred s.SnapshotsSpare
  | .handle k => inferInstanceAs (Decidable (∀ c ∈ s.calls k, _))
  | .thread _ _ | .reply _ | .fail _ | .crash _ => isTrue trivial

lemma InRange.update (h : s.InRange) {i : ℤ} {n : RaftNode} (hn : n.InRange) (j : ℤ) :
    (Function.update s.nodes i n j).InRange :=
  (Function.forall_update_iff s.nodes fun _ n => n.InRange).mpr ⟨hn, fun j _ => h.nodes j⟩ j

/-- Replacing a call by one with the same request, or by none. -/
lemma InRange.update_call (h : s.InRange) {k : ℕ} {old : Option Call}
    (hold : ∀ c ∈ old, ∃ c' ∈ s.calls k, c'.src = c.src ∧ c'.request = c.request) (k' : ℕ)
    (c : Call) (hc : Function.update s.calls k old k' = some c) : c.request.InRange :=
  forall_calls_update (Q := fun _ req => req.InRange) h.calls hold k' c hc

/-- **Every step stays in range.** -/
theorem InRange.step (h : s.InRange) {l : Label} (hspare : s.SnapshotsSpare l)
    (hmove : s.Move members l t) : t.InRange := by
  cases hmove with
  | @thread i a n out hi hmove =>
      refine ⟨fun j => ?_, fun k c hc => ?_⟩
      · simpa using h.update ((h.nodes i).move hmove) j
      · rcases emit_calls (s := s.setNode i n) hc with ⟨hc, -⟩ | ⟨dst, req, rfl, -, rfl⟩
        · exact h.calls k c hc
        · exact (h.nodes i).output hmove
  | @handle k src dst req alive hcall =>
      refine ⟨fun j => ?_, h.update_call ?_⟩
      · exact h.update ((h.nodes dst).handle (h.calls k _ hcall) (hspare _ hcall)) j
      · rintro c hc
        cases hc
        exact ⟨_, hcall, rfl, rfl⟩
  | reply hcall => exact ⟨h.update (h.nodes _).receive, h.update_call (by simp)⟩
  | @fail k src dst req rep hcall =>
      refine ⟨h.update (h.nodes _).abandon, h.update_call ?_⟩
      rintro c hc
      cases hc
      exact ⟨_, hcall, rfl, rfl⟩
  | @crash i hi =>
      exact ⟨h.update (RaftNode.inRange_new (h.nodes i).storage.openDB),
        forall_calls_orphan (Q := fun _ req => req.InRange) h.calls⟩

lemma inRange_init {stores : ℤ → RocksDBStore} (h : ∀ i, (stores i).InRange) :
    (init members stores).InRange :=
  ⟨fun i => RaftNode.inRange_new (h i), by simp [init]⟩

end Cluster

end RaftConsensus
