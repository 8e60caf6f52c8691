import RaftConsensus.Cluster.PendingRequests
import RaftConsensus.Cluster.VoteDurability

/-!
# A restart recovers the node

What a node must not forget is kept in RAM and in the store.  `Operation` lists what writes it, each
operation from its beginning to its end with no other one in between.

* `RocksDBStore.Ends` is the log's part: the last index in RAM, in the cache and on disk, and its
  term, also when the log has been compacted or ends in the anchor of a snapshot.
* `Mirrored` is all of it.  It holds in a new node, and `Mirrored.perform` is one operation.
* `restart_recovers` reads off what a new node on the same database loads.
-/

namespace RaftConsensus

open Bytes

/-! ## The end of the log -/

namespace RocksDBStore

variable {s s' : RocksDBStore} {e : LogEntry} {last lastTerm j c t v : ℤ}

/-- The log ends at index `last` with an entry of term `lastTerm`, and every entry is stored under
its own index. -/
structure Ends (s : RocksDBStore) (last lastTerm : ℤ) : Prop where
  nonneg : 0 ≤ last
  cache : s.lastLogIndexCache = last
  stored : s.storedLastLogIndex = last
  entry : ∀ i e, s.entry? i = some e → e.index = i ∧ 1 ≤ i ∧ i ≤ last
  term : lastTerm = if 0 < last then (s.getLogEntry last).term else 0

namespace Ends

/-- A write that is not about the log. -/
lemma congr (h : s.Ends last lastTerm) (hentry : ∀ i, s'.entry? i = s.entry? i)
    (hcache : s'.lastLogIndexCache = s.lastLogIndexCache)
    (hstored : s'.storedLastLogIndex = s.storedLastLogIndex) : s'.Ends last lastTerm where
  nonneg := h.nonneg
  cache := hcache.trans h.cache
  stored := hstored.trans h.stored
  entry i e he := h.entry i e (hentry i ▸ he)
  term := by
    rw [getLogEntry_eq, hentry, ← getLogEntry_eq]
    exact h.term

/-- Once its last entry is written the log ends with it. -/
lemma of_last (hpos : 1 ≤ e.index) (hcache : s.lastLogIndexCache = e.index)
    (hstored : s.storedLastLogIndex = e.index) (hlast : s.entry? e.index = some e)
    (hentry : ∀ i x, s.entry? i = some x → x.index = i ∧ 1 ≤ i ∧ i ≤ e.index) :
    s.Ends e.index e.term where
  nonneg := by omega
  cache := hcache
  stored := hstored
  entry := hentry
  term := by rw [if_pos (by omega), getLogEntry_of_entry? hlast]

lemma appendLog (h : s.Ends last lastTerm) (he : e.index = last + 1) :
    (s.appendLog e).Ends e.index e.term := by
  have hpos := h.nonneg
  refine of_last (by omega) rfl storedLastLogIndex_appendLog ?_ fun i x hx => ?_
  · rw [entry?_appendLog, if_pos rfl]
  · rw [entry?_appendLog] at hx
    split at hx
    · rename_i hi
      obtain rfl := Option.some.inj hx
      exact ⟨hi.symm, by omega, hi.le⟩
    · obtain ⟨hindex, hlo, hhi⟩ := h.entry i x hx
      exact ⟨hindex, hlo, by omega⟩

/-- The log is cut at an index or right after it, and the entry of that index is written. -/
lemma truncate_append (h : s.Ends last lastTerm) (hpos : 1 ≤ e.index) (hj : j ≤ e.index + 1) :
    ((s.truncateLog j).appendLog e).Ends e.index e.term := by
  refine of_last hpos rfl storedLastLogIndex_appendLog ?_ fun i x hx => ?_
  · rw [entry?_appendLog, if_pos rfl]
  · rw [entry?_appendLog] at hx
    split at hx
    · rename_i hi
      obtain rfl := Option.some.inj hx
      exact ⟨hi.symm, by omega, hi.le⟩
    · rw [entry?_truncateLog, h.cache] at hx
      split at hx
      · cases hx
      · obtain ⟨hindex, hlo, hhi⟩ := h.entry i x hx
        exact ⟨hindex, hlo, by omega⟩

/-- A compaction that leaves the last entry. -/
lemma compactLog (h : s.Ends last lastTerm) (hc : c < last) :
    (s.compactLog c).Ends last lastTerm where
  nonneg := h.nonneg
  cache := h.cache
  stored := storedLastLogIndex_compactLog.trans h.stored
  entry i e he := by
    rw [entry?_compactLog] at he
    split at he
    · cases he
    · exact h.entry i e he
  term := by
    have hlast : ¬ (0 ≤ last ∧ last ≤ c) := by omega
    have hread : (s.compactLog c).getLogEntry last = s.getLogEntry last := by
      rw [getLogEntry_eq, entry?_compactLog, if_neg hlast, ← getLogEntry_eq]
    rw [hread]
    exact h.term

lemma saveHardState (h : s.Ends last lastTerm) : (s.saveHardState t v).Ends last lastTerm :=
  h.congr (fun _ => entry?_saveHardState) rfl storedLastLogIndex_saveHardState

lemma applyTransaction (h : s.Ends last lastTerm) {a b : ℤ} {msg : Bytes} :
    (s.applyTransaction e a b msg).Ends last lastTerm :=
  h.congr (fun _ => entry?_applyTransaction) rfl storedLastLogIndex_applyTransaction

end Ends

/-- Every line of a snapshot that is read as a key names an account or a result. -/
def NamesRecords (data : Bytes) : Prop := ∀ p ∈ pairLines data, isRecordKey p.1 = true

instance (data : Bytes) : Decidable (NamesRecords data) :=
  inferInstanceAs (Decidable (∀ p ∈ pairLines data, _))

/-- A key of another family is not among them. -/
lemma NamesRecords.ne {data k : Bytes} (h : NamesRecords data) (hk : isRecordKey k = false) :
    ∀ p ∈ pairLines data, p.1 ≠ k := by
  intro p hp heq
  have hrecord := h p hp
  rw [heq, hk] at hrecord
  cases hrecord

lemma Ends.applySnapshot (h : s.Ends last lastTerm) {data : Bytes} (hdata : NamesRecords data) :
    (s.applySnapshot data j t).Ends last lastTerm := by
  have hspares : SparesEntries data := by
    intro p hp
    by_contra hlog
    obtain ⟨k, hk⟩ := List.isPrefixOf_iff_prefix.mp (Bool.eq_true_of_not_eq_false hlog)
    have hrecord := hdata p hp
    rw [← hk] at hrecord
    cases hrecord
  exact h.congr (fun _ => entry?_applySnapshot hspares) rfl
    (storedLastLogIndex_applySnapshot (hdata.ne (by decide)))

lemma ends_genesis : genesis.Ends 0 0 := by
  have hentry : ∀ i, genesis.entry? i = none := by
    intro i
    rw [RocksDBStore.entry?, get_genesis_of_head (by simp)]
    rfl
  rw [genesis_eq] at hentry ⊢
  refine ⟨le_rfl, rfl, rfl, fun i e he => ?_, rfl⟩
  rw [hentry] at he
  cases he

end RocksDBStore

/-! ## The operations -/

namespace RaftNode

/-- Spawns the thread of each peer. -/
def sendRequestVotes : List ℤ → RaftNode → Option RaftNode
  | [], n => some n
  | _ :: peers, n => n.sendRequestVote.bind fun r => sendRequestVotes peers r.1

/-- `startElection`, from the timeout to the last thread it spawns. -/
def standForElection (n : RaftNode) : Option RaftNode :=
  (((n.electionTimeout.bind startElection).bind evalHardState).bind saveHardState).bind
    (sendRequestVotes n.config.peerStubs)

/-- Goes on with a client's request, unless it has been answered. -/
def unlessAnswered (r : RaftNode × Option ClientResponse)
    (next : RaftNode → Option (RaftNode × Option ClientResponse)) :
    Option (RaftNode × Option ClientResponse) :=
  match r.2 with
  | some _ => some r
  | none => next r.1

/-- `processClientRequest`. -/
def processClientRequest (n : RaftNode) (cb : ℕ) (req : ClientRequest) : Option RaftNode :=
  ((n.clientRequest cb req).bind fun r => unlessAnswered r fun n =>
    (n.lookupRequest cb).bind fun r => unlessAnswered r fun n => n.appendRequest cb).map Prod.fst

/-- The executor's turn for one entry. -/
def executeEntry (n : RaftNode) : Option RaftNode :=
  (((n.readBalances.bind applyEntry).bind notifyClient).map Prod.fst).bind compactIfDue

/-- The executor's turns for a list of entries. -/
def executeEntries : List LogEntry → RaftNode → Option RaftNode
  | [], n => some n
  | _ :: rest, n => n.executeEntry.bind (executeEntries rest)

/-- A whole batch, from fetching it on. -/
def executeBatch (n : RaftNode) : Option RaftNode :=
  n.fetchBatch.bind (executeEntries (n.batchIndices.map n.storage.getLogEntry))

end RaftNode

/-- What a node does from beginning to end.  The executor takes a batch in one operation, or
fetches it in one and executes each entry in one. -/
inductive Operation
  | startElection
  | handle (request : Request)
  | processClientRequest (cb : ℕ) (req : ClientRequest)
  | receive (dst : ℤ) (request : Request) (reply : Reply)
  | executeBatch
  | fetchBatch
  | executeEntry
  | compactLog (c : ℤ)

namespace RaftNode

variable {n n' : RaftNode} {e : LogEntry} {i prev t v : ℤ}

def perform (n : RaftNode) : Operation → Option RaftNode
  | .startElection => n.standForElection
  | .handle request => some (n.handle request).1
  | .processClientRequest cb req => n.processClientRequest cb req
  | .receive dst request reply => some (n.receive dst request reply)
  | .executeBatch => n.executeBatch
  | .fetchBatch => n.fetchBatch
  | .executeEntry => n.executeEntry
  | .compactLog c => some { n with storage := n.storage.compactLog c }

/-- The log is not compacted after the next entry, or its last entry is left. -/
def SparesLast (n : RaftNode) : Prop :=
  ∀ e ∈ n.executor.unapplied.head?,
    e.index % 1000 = 0 → 0 < e.index - 100 → e.index - 100 < n.lastLogIndex

instance (n : RaftNode) : Decidable n.SparesLast :=
  inferInstanceAs (Decidable (∀ e ∈ n.executor.unapplied.head?, _))

/-- Entries come consecutively, dumps consist of records, and a compaction leaves the last entry. -/
def Admits (n : RaftNode) : Operation → Prop
  | .handle (.appendEntries args) =>
      0 ≤ args.prevLogIndex ∧ Consecutive (args.prevLogIndex + 1) args.entries
  | .handle (.installSnapshot args) => RocksDBStore.NamesRecords args.data
  | .executeEntry => n.SparesLast
  | .compactLog c => c < n.lastLogIndex
  | _ => True

instance (k : ℤ) (es : List LogEntry) : Decidable (Consecutive k es) :=
  decidable_of_iff (∀ p ∈ es.zipIdx, p.1.index = k + p.2)
    ⟨fun h j e he => h (e, j) (List.mem_zipIdx_iff_getElem?.mpr he),
      fun h p hp => h p.2 p.1 (List.mem_zipIdx_iff_getElem?.mp hp)⟩

instance (n : RaftNode) : DecidablePred n.Admits
  | .handle (.appendEntries _) => inferInstanceAs (Decidable (_ ∧ _))
  | .handle (.installSnapshot args) =>
      inferInstanceAs (Decidable (RocksDBStore.NamesRecords args.data))
  | .executeEntry => inferInstanceAs (Decidable n.SparesLast)
  | .compactLog c => inferInstanceAs (Decidable (c < n.lastLogIndex))
  | .handle (.requestVote _) | .startElection | .processClientRequest _ _ | .receive _ _ _
  | .executeBatch | .fetchBatch => inferInstanceAs (Decidable True)

/-- A new node on the same database has what this one has in RAM. -/
structure Recovers (n : RaftNode) : Prop where
  currentTerm : n.restart.currentTerm = n.currentTerm
  votedFor : n.restart.votedFor = n.votedFor
  lastLogIndex : n.restart.lastLogIndex = n.lastLogIndex
  lastLogTerm : n.restart.lastLogTerm = n.lastLogTerm
  lastApplied : n.restart.lastApplied = n.lastApplied

/-! ## The invariant -/

/-- **RAM and store agree.**  No fetched entry has a negative index, so that what is applied never
falls below `0`. -/
structure Mirrored (n : RaftNode) : Prop where
  log : n.storage.Ends n.lastLogIndex n.lastLogTerm
  hardState : n.storage.loadHardState = (n.currentTerm, n.votedFor)
  applied : n.storage.getLastAppliedIndex = n.lastApplied
  nonneg : 0 ≤ n.lastApplied
  fetched : ∀ e ∈ n.executor.unapplied, 0 ≤ e.index

namespace Mirrored

/-- What a new node loads. -/
lemma recovers (h : n.Mirrored) : n.Recovers where
  currentTerm := congrArg Prod.fst h.hardState
  votedFor := congrArg Prod.snd h.hardState
  lastLogIndex := h.log.stored
  lastLogTerm := by
    have hread : n.restart.lastLogTerm =
        if 0 < n.storage.storedLastLogIndex then
          (n.storage.getLogEntry n.storage.storedLastLogIndex).term else 0 := rfl
    rw [hread, h.log.stored]
    exact h.log.term.symm
  lastApplied := h.applied

lemma new_genesis (config : ClusterConfig) : (RaftNode.new config .genesis).Mirrored := by
  have hends := RocksDBStore.ends_genesis
  rw [RocksDBStore.genesis_eq] at hends ⊢
  exact ⟨hends, rfl, rfl, le_rfl, fun _ he => by cases he⟩

/-- The hard state is saved as it is in RAM by then. -/
lemma saved (h : n.Mirrored) (hstorage : n'.storage = n.storage.saveHardState t v)
    (hterm : n'.currentTerm = t) (hvote : n'.votedFor = v)
    (hlast : n'.lastLogIndex = n.lastLogIndex) (hlastTerm : n'.lastLogTerm = n.lastLogTerm)
    (happlied : n'.lastApplied = n.lastApplied) (hexec : n'.executor = n.executor) :
    n'.Mirrored where
  log := by
    rw [hstorage, hlast, hlastTerm]
    exact h.log.saveHardState
  hardState := by rw [hstorage, hterm, hvote, RocksDBStore.loadHardState_saveHardState]
  applied := by rw [hstorage, happlied, RocksDBStore.getLastAppliedIndex_saveHardState, h.applied]
  nonneg := happlied ▸ h.nonneg
  fetched := hexec ▸ h.fetched

lemma becomeFollower (h : n.Mirrored) (t : ℤ) : (n.becomeFollower t).Mirrored :=
  h.saved rfl rfl rfl rfl rfl rfl rfl

lemma seeTerm (h : n.Mirrored) (t : ℤ) : (n.seeTerm t).Mirrored := by
  rw [RaftNode.seeTerm]
  split
  · exact h.becomeFollower t
  · exact h

/-! ### Elections -/

lemma handleRequestVote (h : n.Mirrored) (args : RequestVoteArgs) :
    (n.handleRequestVote args).1.Mirrored := by
  rcases handleRequestVote_cases n args with heq | ⟨-, hterm, ⟨-, heq, -⟩ | heq⟩
  · rwa [heq]
  · rw [heq]
    exact (h.seeTerm args.term).saved rfl hterm rfl rfl rfl rfl rfl
  · rw [heq]
    exact h.seeTerm args.term

lemma sendRequestVotes (peers : List ℤ) : ∀ {n : RaftNode}, n.Mirrored →
    ∀ n' ∈ RaftNode.sendRequestVotes peers n, n'.Mirrored := by
  induction peers with
  | nil =>
      intro n h n' hn'
      obtain rfl := Option.some.inj hn'
      exact h
  | cons p peers ih =>
      intro n h n' hn'
      obtain ⟨r, hr, hn'⟩ := Option.bind_eq_some_iff.mp hn'
      refine ih ?_ n' hn'
      rw [sendRequestVote] at hr
      split at hr
      · obtain rfl := Option.some.inj hr
        exact ⟨h.log, h.hardState, h.applied, h.nonneg, h.fetched⟩
      · cases hr

/-- The term and the vote are written as the locked block has left them. -/
lemma standForElection (h : n.Mirrored) : ∀ n' ∈ n.standForElection, n'.Mirrored := by
  intro n' hn'
  obtain ⟨n₄, hsave, hsend⟩ := Option.bind_eq_some_iff.mp hn'
  obtain ⟨n₃, heval, hsave⟩ := Option.bind_eq_some_iff.mp hsave
  obtain ⟨n₂, hstart, heval⟩ := Option.bind_eq_some_iff.mp heval
  obtain ⟨n₁, hdue, hstart⟩ := Option.bind_eq_some_iff.mp hstart
  refine sendRequestVotes _ ?_ n' hsend
  rw [electionTimeout] at hdue
  split at hdue
  · obtain rfl := Option.some.inj hdue
    obtain rfl := Option.some.inj hstart
    obtain rfl := Option.some.inj heval
    obtain rfl := Option.some.inj hsave
    exact h.saved rfl rfl rfl rfl rfl rfl rfl
  · cases hdue

lemma voteReply (h : n.Mirrored) (savedTerm : ℤ) (reply : RequestVoteReply) :
    (n.voteReply savedTerm reply).Mirrored := by
  rcases voteReply_cases n savedTerm reply with heq | ⟨-, heq⟩ |
    ⟨hstate, -, -, ⟨-, heq⟩ | ⟨-, heq⟩⟩
  · rwa [heq]
  · rw [heq]
    exact h.becomeFollower reply.term
  · rw [heq]
    exact ⟨h.log, h.hardState, h.applied, h.nonneg, h.fetched⟩
  · rw [heq, becomeLeader_eq (n := n.countVote savedTerm) hstate]
    exact ⟨h.log, h.hardState, h.applied, h.nonneg, h.fetched⟩

/-! ### Replication -/

/-- Moving the thread of a peer. -/
lemma setWorker (h : n.Mirrored) (peer : ℤ) (w : Worker) : (n.setWorker peer w).Mirrored :=
  ⟨h.log, h.hardState, h.applied, h.nonneg, h.fetched⟩

lemma appendEntriesReply (h : n.Mirrored) (peer : ℤ) (args : AppendEntriesArgs)
    (reply : AppendEntriesReply) : (n.appendEntriesReply peer args reply).Mirrored := by
  have hidle := h.setWorker peer .idle
  rw [RaftNode.appendEntriesReply]
  dsimp only
  split
  · exact hidle
  · split
    · exact hidle.becomeFollower reply.term
    · split
      · split
        · exact hidle
        · exact ⟨h.log, h.hardState, h.applied, h.nonneg, h.fetched⟩
      · split
        · exact ⟨h.log, h.hardState, h.applied, h.nonneg, h.fetched⟩
        · exact hidle

lemma installSnapshotReply (h : n.Mirrored) (peer : ℤ) (args : InstallSnapshotArgs)
    (reply : InstallSnapshotReply) : (n.installSnapshotReply peer args reply).Mirrored := by
  have hidle := h.setWorker peer .idle
  rw [RaftNode.installSnapshotReply]
  dsimp only
  split
  · exact hidle.becomeFollower reply.term
  · split
    · exact ⟨h.log, h.hardState, h.applied, h.nonneg, h.fetched⟩
    · exact hidle

lemma receive (h : n.Mirrored) (dst : ℤ) (request : Request) (reply : Reply) :
    (n.receive dst request reply).Mirrored := by
  cases request with
  | requestVote args =>
      cases reply with
      | requestVote r => exact h.voteReply args.term r
      | _ => exact h
  | appendEntries args =>
      cases reply with
      | appendEntries r => exact h.appendEntriesReply dst args r
      | _ => exact h
  | installSnapshot args =>
      cases reply with
      | installSnapshot r => exact h.installSnapshotReply dst args r
      | _ => exact h

lemma acceptLeader (h : n.Mirrored) (term leaderId : ℤ) :
    (n.acceptLeader term leaderId).Mirrored := by
  have hheard : RaftNode.Mirrored { n with leaderId := leaderId } :=
    ⟨h.log, h.hardState, h.applied, h.nonneg, h.fetched⟩
  rw [RaftNode.acceptLeader]
  dsimp only
  split
  · exact hheard.becomeFollower term
  · split
    · exact hheard.becomeFollower term
    · exact hheard

/-- One turn of the append loop: the log still reaches at least to the entry. -/
lemma appendEntry (h : n.Mirrored) (hindex : e.index = i) (hpos : 1 ≤ i)
    (hnext : i ≤ n.lastLogIndex + 1) :
    (n.appendEntry i e).Mirrored ∧ i ≤ (n.appendEntry i e).lastLogIndex := by
  subst hindex
  rw [RaftNode.appendEntry]
  split
  · rename_i hle
    split
    · refine ⟨⟨h.log.truncate_append hpos (by omega), ?_, ?_, h.nonneg, h.fetched⟩, le_rfl⟩
      · simpa using h.hardState
      · simpa using h.applied
    · exact ⟨h, hle⟩
  · refine ⟨⟨h.log.appendLog (by omega), ?_, ?_, h.nonneg, h.fetched⟩, le_rfl⟩
    · simpa using h.hardState
    · simpa using h.applied

lemma appendLoop (es : List LogEntry) : ∀ {n : RaftNode} {prev : ℤ}, n.Mirrored → 0 ≤ prev →
    prev ≤ n.lastLogIndex → Consecutive (prev + 1) es → (n.appendLoop prev es).Mirrored := by
  induction es with
  | nil => exact fun h _ _ _ => h
  | cons e es ih =>
      intro n prev h hprev hle hes
      obtain ⟨he, hes⟩ := consecutive_cons.mp hes
      obtain ⟨hmirrored, hreach⟩ := h.appendEntry he (by omega) (by omega)
      exact ih hmirrored (by omega) hreach hes

lemma followCommit (h : n.Mirrored) (leaderCommit : ℤ) :
    (n.followCommit leaderCommit).Mirrored := by
  rw [RaftNode.followCommit]
  split
  · exact ⟨h.log, h.hardState, h.applied, h.nonneg, h.fetched⟩
  · exact h

lemma handleAppendEntries (h : n.Mirrored) {args : AppendEntriesArgs}
    (hprev : 0 ≤ args.prevLogIndex) (hes : Consecutive (args.prevLogIndex + 1) args.entries) :
    (n.handleAppendEntries args).1.Mirrored := by
  have haccepted := h.acceptLeader args.term args.leaderId
  rw [RaftNode.handleAppendEntries]
  split
  · exact h
  · dsimp only
    split
    · rename_i hcons
      have hle : args.prevLogIndex ≤ (n.acceptLeader args.term args.leaderId).lastLogIndex := by
        obtain hzero | ⟨hle, -⟩ := hcons
        · exact hzero.trans haccepted.log.nonneg
        · exact hle
      exact (haccepted.appendLoop args.entries hprev hle hes).followCommit args.leaderCommit
    · exact haccepted

/-! ### Snapshots -/

/-- The anchor is a stored entry like any other. -/
lemma installSnapshot (h : n.Mirrored) {args : InstallSnapshotArgs}
    (hdata : RocksDBStore.NamesRecords args.data) (hnew : n.lastApplied < args.lastIncludedIndex) :
    (n.installSnapshot args).Mirrored where
  log := by
    have hpos : 1 ≤ (anchorEntry args.lastIncludedIndex args.lastIncludedTerm).index := by
      have hnonneg := h.nonneg
      show 1 ≤ args.lastIncludedIndex
      omega
    exact (h.log.applySnapshot hdata).truncate_append hpos le_rfl
  hardState :=
    (stored_installSnapshot n fun p hp =>
      ⟨hdata.ne (by decide) p hp, hdata.ne (by decide) p hp⟩).trans h.hardState
  applied := by
    rw [RaftNode.installSnapshot]
    simp
  nonneg := h.nonneg.trans hnew.le
  fetched := h.fetched

lemma handleInstallSnapshot (h : n.Mirrored) {args : InstallSnapshotArgs}
    (hdata : RocksDBStore.NamesRecords args.data) : (n.handleInstallSnapshot args).1.Mirrored := by
  have hseen := h.seeTerm args.term
  have hheard : RaftNode.Mirrored { n.seeTerm args.term with leaderId := args.leaderId } :=
    ⟨hseen.log, hseen.hardState, hseen.applied, hseen.nonneg, hseen.fetched⟩
  rw [RaftNode.handleInstallSnapshot]
  split
  · exact h
  · dsimp only
    split
    · exact hheard
    · rename_i hnew
      exact hheard.installSnapshot hdata (not_le.mp hnew)

/-! ### Client requests -/

variable {cb : ℕ} {req : ClientRequest}

lemma clientRequest (h : n.Mirrored) : ∀ r ∈ n.clientRequest cb req, r.1.Mirrored := by
  intro r hr
  rw [Option.mem_def, RaftNode.clientRequest] at hr
  split at hr
  · cases hr
  · split at hr
    · obtain rfl := Option.some.inj hr
      exact h
    · obtain rfl := Option.some.inj hr
      exact ⟨h.log, h.hardState, h.applied, h.nonneg, h.fetched⟩

lemma lookupRequest (h : n.Mirrored) : ∀ r ∈ n.lookupRequest cb, r.1.Mirrored := by
  intro r hr
  rw [Option.mem_def, RaftNode.lookupRequest] at hr
  split at hr
  · dsimp only at hr
    split at hr
    · obtain rfl := Option.some.inj hr
      exact ⟨h.log, h.hardState, h.applied, h.nonneg, h.fetched⟩
    · obtain rfl := Option.some.inj hr
      exact ⟨h.log, h.hardState, h.applied, h.nonneg, h.fetched⟩
  · cases hr

lemma acceptRequest (h : n.Mirrored) : (n.acceptRequest cb req).Mirrored where
  log := h.log.appendLog rfl
  hardState := RocksDBStore.loadHardState_appendLog.trans h.hardState
  applied := RocksDBStore.getLastAppliedIndex_appendLog.trans h.applied
  nonneg := h.nonneg
  fetched := h.fetched

lemma appendRequest (h : n.Mirrored) : ∀ r ∈ n.appendRequest cb, r.1.Mirrored := by
  intro r hr
  rw [Option.mem_def, RaftNode.appendRequest] at hr
  split at hr
  · have hdone : RaftNode.Mirrored { n with requests := Function.update n.requests cb none } :=
      ⟨h.log, h.hardState, h.applied, h.nonneg, h.fetched⟩
    dsimp only at hr
    split at hr
    · obtain rfl := Option.some.inj hr
      exact hdone
    · split at hr
      · obtain rfl := Option.some.inj hr
        exact hdone
      · obtain rfl := Option.some.inj hr
        exact hdone.acceptRequest
  · cases hr

lemma unlessAnswered {r : RaftNode × Option ClientResponse}
    {next : RaftNode → Option (RaftNode × Option ClientResponse)} (h : r.1.Mirrored)
    (hnext : ∀ q ∈ next r.1, q.1.Mirrored) : ∀ q ∈ unlessAnswered r next, q.1.Mirrored := by
  intro q hq
  rw [Option.mem_def, RaftNode.unlessAnswered] at hq
  split at hq
  · obtain rfl := Option.some.inj hq
    exact h
  · exact hnext q hq

lemma processClientRequest (h : n.Mirrored) :
    ∀ n' ∈ n.processClientRequest cb req, n'.Mirrored := by
  intro n' hn'
  obtain ⟨r, hr, rfl⟩ := Option.map_eq_some_iff.mp hn'
  obtain ⟨r₁, hr₁, hr⟩ := Option.bind_eq_some_iff.mp hr
  have hchecked := h.clientRequest r₁ hr₁
  refine unlessAnswered hchecked (fun q hq => ?_) r hr
  obtain ⟨r₂, hr₂, hq⟩ := Option.bind_eq_some_iff.mp hq
  have hlookedUp := hchecked.lookupRequest r₂ hr₂
  exact unlessAnswered hlookedUp hlookedUp.appendRequest q hq

/-! ### The executor -/

variable {rest es : List LogEntry}

/-- The store after an entry, compacted if that is due. -/
def storageAfter (n : RaftNode) (e : LogEntry) : RocksDBStore :=
  if e.index % 1000 = 0 ∧ 0 < e.index - 100 then
    (n.storage.execute e).compactLog (e.index - 100)
  else n.storage.execute e

lemma executeEntry_eq (hexec : n.executor = .applying e rest) :
    n.executeEntry = some
      { n with
        storage := storageAfter n e
        lastApplied := e.index
        pendingCallbacks := Function.update n.pendingCallbacks e.command.requestId none
        executor := .next rest } := by
  rw [RaftNode.executeEntry, readBalances, hexec]
  rfl

/-- Executing an entry: its index becomes the last applied one in RAM and in the store. -/
lemma executeEntry (h : n.Mirrored) (hexec : n.executor = .applying e rest)
    (hspares : n.SparesLast) : ∀ n' ∈ n.executeEntry,
      n'.Mirrored ∧ n'.executor = .next rest ∧ n'.lastLogIndex = n.lastLogIndex := by
  intro n' hn'
  have hunapplied : n.executor.unapplied = e :: rest := by
    rw [hexec]
    rfl
  have hlog : (n.storage.execute e).Ends n.lastLogIndex n.lastLogTerm := h.log.applyTransaction
  have hafter : (storageAfter n e).Ends n.lastLogIndex n.lastLogTerm ∧
      (storageAfter n e).loadHardState = n.storage.loadHardState ∧
      (storageAfter n e).getLastAppliedIndex = e.index := by
    rw [storageAfter]
    split
    · rename_i hdue
      have hcompact := hspares e (by simp [hunapplied]) hdue.1 hdue.2
      exact ⟨hlog.compactLog hcompact, by simp [RocksDBStore.execute],
        by simp [RocksDBStore.execute]⟩
    · exact ⟨hlog, by simp [RocksDBStore.execute], by simp [RocksDBStore.execute]⟩
  obtain ⟨hends, hhard, happlied⟩ := hafter
  rw [Option.mem_def, executeEntry_eq hexec] at hn'
  obtain rfl := Option.some.inj hn'
  refine ⟨⟨hends, hhard.trans h.hardState, happlied, ?_, fun x hx => ?_⟩, rfl, rfl⟩
  · exact h.fetched e (by simp [hunapplied])
  · rw [Executor.unapplied_next] at hx
    exact h.fetched x (by simp [hunapplied, hx])

/-- What is fetched has an index of the log, or is the empty entry that stands for a missing
one. -/
lemma index_getLogEntry (h : n.Mirrored) (i : ℤ) :
    0 ≤ (n.storage.getLogEntry i).index ∧ (n.storage.getLogEntry i).index ≤ n.lastLogIndex := by
  have hnonneg := h.log.nonneg
  rw [RocksDBStore.getLogEntry_eq]
  cases hentry : n.storage.entry? i with
  | none => exact ⟨le_rfl, hnonneg⟩
  | some x =>
      obtain ⟨hindex, hlo, hhi⟩ := h.log.entry i x hentry
      rw [Option.getD_some, hindex]
      omega

lemma fetchBatch (h : n.Mirrored) : ∀ n' ∈ n.fetchBatch, n'.Mirrored ∧
    n'.executor = .next (n.batchIndices.map n.storage.getLogEntry) ∧
    n'.lastLogIndex = n.lastLogIndex := by
  intro n' hn'
  rw [Option.mem_def, RaftNode.fetchBatch] at hn'
  split at hn'
  · obtain rfl := Option.some.inj hn'
    refine ⟨⟨h.log, h.hardState, h.applied, h.nonneg, fun x hx => ?_⟩, rfl, rfl⟩
    rw [Executor.unapplied_next] at hx
    obtain ⟨i, -, rfl⟩ := List.mem_map.mp hx
    exact (h.index_getLogEntry i).1
  · cases hn'

/-- With nothing in between, no compaction reaches the end of the log. -/
lemma executeEntries (es : List LogEntry) : ∀ {n : RaftNode}, n.Mirrored →
    n.executor = .next es → (∀ x ∈ es, x.index ≤ n.lastLogIndex) →
      ∀ n' ∈ RaftNode.executeEntries es n, n'.Mirrored := by
  induction es with
  | nil =>
      intro n h _ _ n' hn'
      obtain rfl := Option.some.inj hn'
      exact h
  | cons x es ih =>
      intro n h hexec hle n' hn'
      obtain ⟨n₁, hn₁, hn'⟩ := Option.bind_eq_some_iff.mp hn'
      have hspares : n.SparesLast := by
        intro y hy _ _
        rw [hexec, Executor.unapplied_next] at hy
        obtain rfl : x = y := Option.some.inj hy
        have hx := hle x (by simp)
        omega
      obtain ⟨hmirrored, hexec', hlast⟩ := h.executeEntry hexec hspares n₁ hn₁
      exact ih hmirrored hexec' (fun y hy => hlast ▸ hle y (by simp [hy])) n' hn'

lemma executeBatch (h : n.Mirrored) : ∀ n' ∈ n.executeBatch, n'.Mirrored := by
  intro n' hn'
  obtain ⟨n₁, hn₁, hn'⟩ := Option.bind_eq_some_iff.mp hn'
  obtain ⟨hmirrored, hexec, hlast⟩ := h.fetchBatch n₁ hn₁
  refine executeEntries _ hmirrored hexec (fun x hx => ?_) n' hn'
  obtain ⟨i, -, rfl⟩ := List.mem_map.mp hx
  rw [hlast]
  exact (h.index_getLogEntry i).2

/-- **One operation**, begun and completed. -/
lemma perform (h : n.Mirrored) {op : Operation} (hadmits : n.Admits op)
    (hn' : n.perform op = some n') : n'.Mirrored := by
  cases op with
  | startElection => exact h.standForElection n' hn'
  | handle request =>
      obtain rfl := Option.some.inj hn'
      cases request with
      | requestVote args => exact h.handleRequestVote args
      | appendEntries args => exact h.handleAppendEntries hadmits.1 hadmits.2
      | installSnapshot args => exact h.handleInstallSnapshot hadmits
  | processClientRequest cb req => exact h.processClientRequest n' hn'
  | receive dst request reply =>
      obtain rfl := Option.some.inj hn'
      exact h.receive dst request reply
  | executeBatch => exact h.executeBatch n' hn'
  | fetchBatch => exact (h.fetchBatch n' hn').1
  | executeEntry =>
      obtain ⟨e, rest, hexec⟩ : ∃ e rest, n.executor = .applying e rest := by
        rw [RaftNode.perform, RaftNode.executeEntry, readBalances] at hn'
        split at hn'
        · rename_i e rest hexec
          exact ⟨e, rest, hexec⟩
        · cases hn'
      exact (h.executeEntry hexec hadmits n' hn').1
  | compactLog c =>
      obtain rfl := Option.some.inj hn'
      exact ⟨h.log.compactLog hadmits, RocksDBStore.loadHardState_compactLog.trans h.hardState,
        RocksDBStore.getLastAppliedIndex_compactLog.trans h.applied, h.nonneg, h.fetched⟩

end Mirrored

/-- The runs of a node whose operations do not overlap. -/
def OperationRun : RaftNode → List Operation → RaftNode → Prop :=
  Transition.Run perform Admits

/-- **A restart recovers the node.**  After any admitted operations on a new node, none of which
overlap, a node on the same database starts with the same term, vote, last entry and last applied
index. -/
theorem restart_recovers (config : ClusterConfig) {ops : List Operation}
    (hrun : OperationRun (.new config .genesis) ops n) : n.Recovers :=
  (Transition.Run.invariant hrun (Mirrored.new_genesis config)
    fun _ _ _ h hadmits hn' => h.perform hadmits hn').recovers

/-- A node is elected, replicates and executes a transfer, is overtaken by a snapshot and compacts
its log. -/
def electedThenOvertaken : List Operation :=
  let transfer : ClientRequest := ⟨ascii "r1", .transfer, ascii "1", ascii "2", 5⟩
  let vote : Request := .requestVote ⟨1, 1, 0, 0⟩
  let append : Request := .appendEntries ⟨1, 1, 0, 0, [⟨1, 1, transfer⟩], 0⟩
  [.startElection, .receive 2 vote (.requestVote ⟨1, true⟩),
    .receive 3 vote (.requestVote ⟨1, true⟩), .processClientRequest 0 transfer,
    .receive 2 append (.appendEntries ⟨1, true⟩), .receive 3 append (.appendEntries ⟨1, true⟩),
    .executeBatch,
    .handle (.installSnapshot ⟨2, 2, 5, 2, dumpLines [(acctKey (ascii "1"), decimal 7)], 0, true⟩),
    .compactLog 4]

/-- It restarts with the last entry of the snapshot. -/
theorem recovers_after_snapshot :
    ∃ n, OperationRun (.new ⟨1, [1, 2, 3]⟩ .genesis) electedThenOvertaken n ∧
      (n.currentTerm = 2 ∧ n.lastLogIndex = 5 ∧ n.lastApplied = 5) ∧ n.Recovers := by
  obtain ⟨n, hrun, hvalues⟩ :
      ∃ n, OperationRun (.new ⟨1, [1, 2, 3]⟩ .genesis) electedThenOvertaken n ∧
        n.currentTerm = 2 ∧ n.lastLogIndex = 5 ∧ n.lastApplied = 5 :=
    run_of_genesis (RaftNode.new ⟨1, [1, 2, 3]⟩) (by decide +kernel)
  exact ⟨n, hrun, hvalues, restart_recovers ⟨1, [1, 2, 3]⟩ hrun⟩

end RaftNode

end RaftConsensus
