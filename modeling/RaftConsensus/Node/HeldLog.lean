import RaftConsensus.Cluster.Records
import RaftConsensus.Cluster.Ranges
import RaftConsensus.Library.Matching
import RaftConsensus.Node.Merge

/-!
# The log a node would have without compaction

`HoldsLog l` ties a node to the list `l` of all entries of its log, also of those that it has
executed and then compacted away.  What is stored is the rest of `l`; what the node has committed,
fetched and executed is part of `l`; and every executed entry has a result.

Three kinds of steps change `l`: `appendRequest` appends to it (`HoldsLog.acceptRequest`), an
accepted `AppendEntries` may replace its end (`HoldsLog.accept`), and an installed snapshot throws
it away.  Every other step of the node, a restart included, leaves it as it is.
-/

namespace RaftConsensus.RaftNode

open Replication

variable {n n' : RaftNode} {l q : List LogEntry} {args : AppendEntriesArgs} {e : LogEntry}
  {c i : ℤ} {k : ℕ}

/-- **The node holds the log `l`.**  Only executed entries may have been compacted away, and never
the last one. -/
structure HoldsLog (n : RaftNode) (l : List LogEntry) : Prop where
  log : ∃ c, n.LogFrom c l ∧ c ≤ n.storage.getLastAppliedIndex ∧ (l = [] ∨ c < l.length)
  reopened : n.storage.storedLastLogIndex = n.storage.lastLogIndexCache
  commit : n.commitIndex ≤ l.length
  applied : n.storage.getLastAppliedIndex ≤ l.length
  executor : n.ExecutorOk
  /-- Fetched entries are committed ones. -/
  fetched : ∀ e ∈ n.executor.unapplied, e.index ≤ n.commitIndex ∧ entryAt l e.index = some e
  message : ∀ entry rest a b msg, n.executor = .computed entry rest a b msg → msg ≠ []
  results : ∀ (k : ℕ) (e : LogEntry), l[k]? = some e → k < n.storage.getLastAppliedIndex →
    n.storage.getRequestResult e.command.requestId ≠ []

/-- Every outcome has a message. -/
lemma resultMsg_ne_nil (s : RocksDBStore) (cmd : ClientRequest) :
    (s.outcome cmd).resultMsg ≠ [] := by
  unfold RocksDBStore.outcome
  split
  · dsimp only
    split
    · show Bytes.ascii "Success" ≠ []
      decide
    · show Bytes.ascii "Insufficient Funds" ≠ []
      decide
  · show Bytes.ascii "Balance: " ++ _ ≠ []
    intro h
    exact absurd (List.append_eq_nil_iff.mp h).1 (by decide)

/-- A node that has just been constructed on the store all nodes start with. -/
lemma holdsLog_new_genesis (config : ClusterConfig) : (new config .genesis).HoldsLog [] := by
  have hpending := Machine.pendingOk_start config
  have happlied : RocksDBStore.genesis.getLastAppliedIndex = 0 := by
    rw [RocksDBStore.genesis_eq]
    rfl
  exact
    { log := ⟨0, logFrom_genesis config, happlied.ge, .inl rfl⟩
      reopened := hpending.stored.trans hpending.cache.symm
      commit := le_rfl
      applied := happlied.le
      executor := (Machine.inv_start config .genesis).executor
      fetched := fun e he => by cases he
      message := fun _ _ _ _ _ hex => by cases hex
      results := fun k e hk => by cases hk }

/-! ## Steps that leave the log alone -/

/-- What is left alone by a step that is neither about the log nor about executing it; the commit
index may move up. -/
structure HoldsStill (n n' : RaftNode) : Prop where
  view : n'.logView = n.logView
  lastLogTerm : n'.lastLogTerm = n.lastLogTerm
  executor : n'.executor = n.executor
  records : n'.storage.SameRecords n.storage
  commit : n.commitIndex ≤ n'.commitIndex ∧ n'.commitIndex ≤ max n.commitIndex n.lastLogIndex

lemma LogFrom.of_view (h : n.LogFrom c l) (hview : n'.logView = n.logView)
    (hterm : n'.lastLogTerm = n.lastLogTerm) : n'.LogFrom c l := by
  obtain ⟨hlast, -, -, hentry, hcache, -, -⟩ := logView_inj hview
  exact ⟨⟨hcache.trans h.storage.cache, hentry ▸ h.storage.entry⟩, hlast.trans h.lastLogIndex,
    hterm.trans h.lastLogTerm⟩

lemma HoldsLog.lastLogIndex (h : n.HoldsLog l) : n.lastLogIndex = l.length := by
  obtain ⟨c, hlog, -⟩ := h.log
  exact hlog.lastLogIndex

lemma HoldsStill.storedApplied (h : n.HoldsStill n') :
    n'.storage.getLastAppliedIndex = n.storage.getLastAppliedIndex := by
  obtain ⟨-, -, -, -, -, -, happlied⟩ := logView_inj h.view
  exact happlied

/-- Such a step leaves the node with its log. -/
lemma HoldsLog.still (h : n.HoldsLog l) (hstill : n.HoldsStill n') : n'.HoldsLog l := by
  obtain ⟨hlast, happlied, -, -, hcache, hstored, hstoredApplied⟩ := logView_inj hstill.view
  obtain ⟨c, hlog, hc, hend⟩ := h.log
  have hcommit := h.commit
  have hlen := h.lastLogIndex
  refine ⟨⟨c, hlog.of_view hstill.view hstill.lastLogTerm, hstoredApplied ▸ hc, hend⟩, ?_, ?_, ?_,
    h.executor.still ⟨hstill.executor, happlied, hstoredApplied⟩, ?_, ?_, ?_⟩
  · rw [hstored, hcache]
    exact h.reopened
  · have := hstill.commit.2
    omega
  · rw [hstoredApplied]
    exact h.applied
  · rw [hstill.executor]
    exact fun e he => ⟨(h.fetched e he).1.trans hstill.commit.1, (h.fetched e he).2⟩
  · rw [hstill.executor]
    exact h.message
  · intro k e hk hlt
    rw [hstill.records.getRequestResult]
    exact h.results k e hk (hstoredApplied ▸ hlt)

/-- A write of the hard state, or none. -/
lemma HoldsStill.of_saveHardState {t v : ℤ} (hlast : n'.lastLogIndex = n.lastLogIndex)
    (hterm : n'.lastLogTerm = n.lastLogTerm) (hcommit : n'.commitIndex = n.commitIndex)
    (happlied : n'.lastApplied = n.lastApplied)
    (hpending : n'.pendingCallbacks = n.pendingCallbacks) (hexec : n'.executor = n.executor)
    (hstorage : n'.storage = n.storage.saveHardState t v) : n.HoldsStill n' where
  view := logView_saveHardState hlast happlied hpending hstorage
  lastLogTerm := hterm
  executor := hexec
  records := hstorage ▸ RocksDBStore.sameRecords_saveHardState
  commit := ⟨hcommit.ge, hcommit.le.trans (le_max_left _ _)⟩

lemma HoldsStill.refl (n : RaftNode) : n.HoldsStill n :=
  ⟨rfl, rfl, rfl, .refl _, le_rfl, le_max_left _ _⟩

/-- The store and all that a node remembers of its log are the same. -/
lemma HoldsStill.of_eq (hview : n'.logView = n.logView) (hterm : n'.lastLogTerm = n.lastLogTerm)
    (hexec : n'.executor = n.executor) (hstorage : n'.storage = n.storage)
    (hcommit : n'.commitIndex = n.commitIndex) : n.HoldsStill n' :=
  ⟨hview, hterm, hexec, hstorage ▸ .refl _, hcommit.ge, hcommit.le.trans (le_max_left _ _)⟩

lemma HoldsStill.trans {n'' : RaftNode} (h : n.HoldsStill n') (h' : n'.HoldsStill n'') :
    n.HoldsStill n'' where
  view := h'.view.trans h.view
  lastLogTerm := h'.lastLogTerm.trans h.lastLogTerm
  executor := h'.executor.trans h.executor
  records := h'.records.trans h.records
  commit := by
    obtain ⟨hlast, -⟩ := logView_inj h.view
    have h₁ := h.commit
    have h₂ := h'.commit
    omega

lemma holdsStill_becomeFollower (n : RaftNode) (t : ℤ) : n.HoldsStill (n.becomeFollower t) :=
  .of_saveHardState rfl rfl rfl rfl rfl rfl rfl

lemma holdsStill_seeTerm (n : RaftNode) (t : ℤ) : n.HoldsStill (n.seeTerm t) := by
  rcases seeTerm_cases n t with ⟨h, -⟩ | ⟨-, h⟩
  · rw [h]
    exact .refl n
  · rw [h]
    exact holdsStill_becomeFollower n t

lemma holdsStill_acceptLeader (n : RaftNode) (t l : ℤ) : n.HoldsStill (n.acceptLeader t l) := by
  unfold acceptLeader
  dsimp only
  split
  · exact .of_saveHardState rfl rfl rfl rfl rfl rfl rfl
  · split
    · exact .of_saveHardState rfl rfl rfl rfl rfl rfl rfl
    · exact .of_eq rfl rfl rfl rfl rfl

/-- Requests that are neither entries taken over nor a snapshot installed. -/
lemma holdsStill_handle {req : Request}
    (hreq : ∀ args, req = .appendEntries args → ¬ n.Accepts args)
    (hinst : ∀ args, req = .installSnapshot args → ¬ n.installs args) :
    n.HoldsStill (n.handle req).1 := by
  cases req with
  | requestVote args =>
      rw [handle]
      rcases handleRequestVote_cases n args with h | ⟨-, -, ⟨-, h, -⟩ | h⟩
      · rw [h]
        exact .refl n
      · rw [h]
        exact (holdsStill_seeTerm n args.term).trans
          (.of_saveHardState rfl rfl rfl rfl rfl rfl rfl)
      · rw [h]
        exact holdsStill_seeTerm n args.term
  | appendEntries args =>
      rw [handle]
      obtain ⟨-, h | h⟩ := handleAppendEntries_of_not_accepts (hreq args rfl)
      · rw [h]
        exact .refl n
      · rw [h]
        exact holdsStill_acceptLeader n _ _
  | installSnapshot args =>
      rw [handle]
      rcases handleInstallSnapshot_cases n args with ⟨-, h⟩ | ⟨-, h⟩ | ⟨hinstalls, -⟩
      · rw [h]
        exact .refl n
      · rw [h]
        exact (holdsStill_seeTerm n args.term).trans (.of_eq rfl rfl rfl rfl rfl)
      · exact absurd hinstalls (hinst args rfl)

lemma holdsStill_commitLoop (n : RaftNode) :
    n.HoldsStill { n with commitIndex := n.commitLoop } := by
  refine ⟨rfl, rfl, rfl, .refl _, ?_⟩
  rcases n.commitLoop_cases with h | ⟨⟨hlt, hle⟩, -⟩
  · exact ⟨h.ge, h.le.trans (le_max_left _ _)⟩
  · exact ⟨hlt.le, hle.trans (le_max_right _ _)⟩

/-- An answer changes the term, the role, the leader's books or the commit index. -/
lemma holdsStill_receive (n : RaftNode) (dst : ℤ) (req : Request) (rep : Reply) :
    n.HoldsStill (n.receive dst req rep) := by
  have hidle : n.HoldsStill (n.setWorker dst .idle) := .of_eq rfl rfl rfl rfl rfl
  cases req with
  | requestVote args =>
      cases rep with
      | requestVote r =>
          rw [receive]
          rcases voteReply_cases n args.term r with h | ⟨-, h⟩ | ⟨hstate, -, -, ⟨-, h⟩ | ⟨-, h⟩⟩
          · rw [h]
            exact .refl n
          · rw [h]
            exact holdsStill_becomeFollower n r.term
          · rw [h]
            exact .of_eq rfl rfl rfl rfl rfl
          · rw [h, becomeLeader_eq (n := n.countVote args.term) hstate]
            exact .of_eq rfl rfl rfl rfl rfl
      | _ => exact .refl n
  | appendEntries args =>
      cases rep with
      | appendEntries r =>
          rw [receive, appendEntriesReply]
          dsimp only
          split
          · exact hidle
          · split
            · exact hidle.trans (holdsStill_becomeFollower _ r.term)
            · split
              · split
                · exact hidle
                · rename_i last _
                  have hmatched : n.HoldsStill
                      ((n.setWorker dst .idle).peerMatched dst last.index) :=
                    .of_eq rfl rfl rfl rfl rfl
                  exact hmatched.trans (holdsStill_commitLoop _)
              · split
                · exact .of_eq rfl rfl rfl rfl rfl
                · exact hidle
      | _ => exact .refl n
  | installSnapshot args =>
      cases rep with
      | installSnapshot r =>
          rw [receive, installSnapshotReply]
          dsimp only
          split
          · exact hidle.trans (holdsStill_becomeFollower _ r.term)
          · split
            · exact .of_eq rfl rfl rfl rfl rfl
            · exact hidle
      | _ => exact .refl n

lemma holdsStill_abandon (n : RaftNode) (dst : ℤ) (req : Request) :
    n.HoldsStill (n.abandon dst req) := by
  cases req with
  | requestVote args => exact .refl n
  | _ => exact .of_eq rfl rfl rfl rfl rfl

/-- Thread steps that neither append nor execute. -/
lemma Move.holdsStill {call : ℕ} {a : ThreadStep} {out : Output} (ha : ¬ ofExecutor a)
    (happend : ∀ cb, a = .appendRequest cb → n'.lastLogIndex = n.lastLogIndex)
    (hmove : n.Move call a n' out) : n.HoldsStill n' := by
  cases hmove with
  | fetchBatch => exact absurd trivial ha
  | readBalances => exact absurd trivial ha
  | applyEntry => exact absurd trivial ha
  | notifyClient => exact absurd trivial ha
  | compactIfDue => exact absurd trivial ha
  | skipCompaction => exact absurd trivial ha
  | saveHardState => exact .of_saveHardState rfl rfl rfl rfl rfl rfl rfl
  | appendRequest =>
      have hlast : n.lastLogIndex + 1 = n.lastLogIndex := happend _ rfl
      omega
  | _ => exact .of_eq rfl rfl rfl rfl rfl

/-! ## Steps of the executor -/

/-- What is read at an index that is not compacted away. -/
lemma LogFrom.getLogEntry (h : n.LogFrom c l) (hi : 1 ≤ i) (hc : c < i) :
    n.storage.getLogEntry i = (entryAt l i).getD .empty := by
  rw [RocksDBStore.getLogEntry_eq, h.storage.entry i hi, if_neg (not_le.mpr hc)]

/-- What a batch contains. -/
lemma HoldsLog.batch (h : n.HoldsLog l) (hin : n.InRange) (hwaiting : n.executor = .waiting)
    (hi : i ∈ n.batchIndices) :
    i ≤ n.commitIndex ∧ entryAt l i = some (n.storage.getLogEntry i) := by
  obtain ⟨c, hlog, hc, -⟩ := h.log
  have hstored : n.storage.getLastAppliedIndex = n.lastApplied := by
    have hex := h.executor
    unfold ExecutorOk at hex
    rwa [hwaiting] at hex
  have hrange := mem_loopRange.mp (List.mem_of_mem_take hi)
  have happlied := hin.applied
  have hcommit := h.commit
  obtain ⟨e, he, -⟩ := entryAt_of_pos (l := l) (i := i) (by omega) (by omega)
  rw [hlog.getLogEntry (by omega) (by omega), he]
  exact ⟨hrange.2, rfl⟩

/-- A step that changes neither the store nor the commit index. -/
lemma HoldsLog.of_executor (h : n.HoldsLog l) (hstorage : n'.storage = n.storage)
    (hlast : n'.lastLogIndex = n.lastLogIndex) (hterm : n'.lastLogTerm = n.lastLogTerm)
    (hcommit : n'.commitIndex = n.commitIndex) (hexecutor : n'.ExecutorOk)
    (hfetched : ∀ e ∈ n'.executor.unapplied, e.index ≤ n.commitIndex ∧ entryAt l e.index = some e)
    (hmessage : ∀ entry rest a b msg, n'.executor = .computed entry rest a b msg → msg ≠ []) :
    n'.HoldsLog l where
  log := by
    obtain ⟨c, hlog, hc, hend⟩ := h.log
    exact ⟨c, ⟨hstorage ▸ hlog.storage, hlast.trans hlog.lastLogIndex,
      hterm.trans hlog.lastLogTerm⟩, hstorage ▸ hc, hend⟩
  reopened := hstorage ▸ h.reopened
  commit := hcommit ▸ h.commit
  applied := hstorage ▸ h.applied
  executor := hexecutor
  fetched := hcommit ▸ hfetched
  message := hmessage
  results := hstorage ▸ h.results

/-- The entry that is about to be written is the next one of the log. -/
lemma HoldsLog.next (h : n.HoldsLog l) {entry : LogEntry} {rest : List LogEntry} {x y : ℤ}
    {msg : Bytes} (hex : n.executor = .computed entry rest x y msg) :
    entry.index = n.storage.getLastAppliedIndex + 1 ∧ entryAt l entry.index = some entry := by
  have hok := h.executor
  have hfetched := h.fetched
  unfold ExecutorOk at hok
  rw [hex] at hok hfetched
  have hindex := (consecutive_cons.mp hok.2).1
  exact ⟨by omega, (hfetched entry List.mem_cons_self).2⟩

/-- The executor writes an entry that it has fetched. -/
lemma HoldsLog.applyEntry (h : n.HoldsLog l) {entry : LogEntry} {rest : List LogEntry} {x y : ℤ}
    {msg : Bytes} (hex : n.executor = .computed entry rest x y msg)
    (hstorage : n'.storage = n.storage.applyTransaction entry x y msg)
    (hlast : n'.lastLogIndex = n.lastLogIndex) (hterm : n'.lastLogTerm = n.lastLogTerm)
    (hcommit : n'.commitIndex = n.commitIndex) (hexecutor : n'.ExecutorOk)
    (hwritten : n'.executor = .written entry rest msg) : n'.HoldsLog l := by
  obtain ⟨c, hlog, hc, hend⟩ := h.log
  have hnext := (h.next hex).1
  have hmem : ∀ e ∈ entry :: rest, e.index ≤ n.commitIndex ∧ entryAt l e.index = some e := by
    have hfetched := h.fetched
    rwa [hex] at hfetched
  obtain ⟨hle, hget⟩ := hmem entry List.mem_cons_self
  have hbound := h.commit
  have happlied : n'.storage.getLastAppliedIndex = entry.index := by
    rw [hstorage, RocksDBStore.getLastAppliedIndex_applyTransaction]
  refine
    { log := ⟨c, ⟨⟨?_, fun i hi => ?_⟩, hlast.trans hlog.lastLogIndex,
        hterm.trans hlog.lastLogTerm⟩, by omega, hend⟩
      reopened := ?_
      commit := hcommit ▸ hbound
      applied := by omega
      executor := hexecutor
      fetched := ?_
      message := ?_
      results := fun k e hk hlt => ?_ }
  · rw [hstorage]
    exact hlog.storage.cache
  · rw [hstorage, RocksDBStore.entry?_applyTransaction, hlog.storage.entry i hi]
  · rw [hstorage, RocksDBStore.storedLastLogIndex_applyTransaction]
    exact h.reopened
  · rw [hwritten, hcommit]
    exact fun e he => hmem e (List.mem_cons_of_mem _ he)
  · rw [hwritten]
    exact fun _ _ _ _ _ h => by cases h
  · rw [hstorage, RocksDBStore.getRequestResult_applyTransaction]
    split
    · exact h.message _ _ _ _ _ hex
    · rename_i hne
      refine h.results k e hk ?_
      by_contra hlast
      -- otherwise it is the entry that is written
      have hindex : entry.index = k + 1 := by omega
      rw [hindex, entryAt_succ, hk] at hget
      exact hne (by rw [Option.some.inj hget])

/-- The executor compacts a log behind which it is by more than what is cut off. -/
lemma HoldsLog.compact (h : n.HoldsLog l) {rest : List LogEntry} (hex : n.executor = .notified rest)
    {j : ℤ} (hj : j < n.lastApplied) (hstorage : n'.storage = n.storage.compactLog j)
    (hlast : n'.lastLogIndex = n.lastLogIndex) (hterm : n'.lastLogTerm = n.lastLogTerm)
    (hcommit : n'.commitIndex = n.commitIndex) (hexecutor : n'.ExecutorOk)
    (hnext : n'.executor = .next rest) : n'.HoldsLog l := by
  obtain ⟨c, hlog, hc, hend⟩ := h.log
  have hstored : n.storage.getLastAppliedIndex = n.lastApplied := by
    have hok := h.executor
    unfold ExecutorOk at hok
    rw [hex] at hok
    exact hok.1
  have happlied : n'.storage.getLastAppliedIndex = n.storage.getLastAppliedIndex := by
    rw [hstorage, RocksDBStore.getLastAppliedIndex_compactLog]
  have hbound := h.applied
  refine
    { log := ⟨max c j, ⟨hstorage ▸ hlog.storage.compactLog j, hlast.trans hlog.lastLogIndex,
        hterm.trans hlog.lastLogTerm⟩, by omega, hend.imp_right fun hlt => by omega⟩
      reopened := ?_
      commit := hcommit ▸ h.commit
      applied := by omega
      executor := hexecutor
      fetched := ?_
      message := ?_
      results := fun k e hk hlt => ?_ }
  · rw [hstorage, RocksDBStore.storedLastLogIndex_compactLog]
    exact h.reopened
  · rw [hnext, Executor.unapplied_next, hcommit]
    have hfetched := h.fetched
    rwa [hex] at hfetched
  · rw [hnext]
    exact fun _ _ _ _ _ h => absurd h (Executor.next_ne_computed _)
  · rw [hstorage, RocksDBStore.sameRecords_compactLog.getRequestResult]
    exact h.results k e hk (happlied ▸ hlt)

/-- **The executor's own steps leave the log as it is**, and execute more of it. -/
lemma HoldsLog.execute (h : n.HoldsLog l) (hin : n.InRange) (hnum : Numbered l) {call : ℕ}
    {a : ThreadStep} {out : Output} (ha : ofExecutor a) (hmove : n.Move call a n' out) :
    n'.HoldsLog l ∧ n.storage.getLastAppliedIndex ≤ n'.storage.getLastAppliedIndex := by
  have hinv : Machine.Inv ⟨n, .snapshot n.storage.getLastAppliedIndex⟩ :=
    ⟨h.executor, fun i hi => hi.elim id fun hi => by cases hi⟩
  have hadvances := hinv.execute ha hmove (by
    rintro rfl i hi
    cases hmove with
    | fetchBatch hwaiting =>
        obtain ⟨k, rfl, hk⟩ := entryAt_eq_some.mp (h.batch hin hwaiting hi).2
        exact (hnum k _ hk).1)
  have hexecutor : n'.ExecutorOk := hadvances.inv.executor
  refine ⟨?_, hadvances.stored⟩
  have hfetched := h.fetched
  cases hmove with
  | fetchBatch hwaiting =>
      refine h.of_executor rfl rfl rfl rfl hexecutor (fun e he => ?_)
        fun _ _ _ _ _ hex => absurd hex (Executor.next_ne_computed _)
      rw [Executor.unapplied_next] at he
      obtain ⟨i, hi, rfl⟩ := List.mem_map.mp he
      obtain ⟨hle, hget⟩ := h.batch hin hwaiting hi
      obtain ⟨k, rfl, hk⟩ := entryAt_eq_some.mp hget
      rw [(hnum k _ hk).1]
      exact ⟨hle, hget⟩
  | readBalances hex =>
      rw [hex] at hfetched
      refine h.of_executor rfl rfl rfl rfl hexecutor hfetched fun _ _ _ _ _ hex' => ?_
      cases hex'
      exact resultMsg_ne_nil _ _
  | applyEntry hex => exact h.applyEntry hex rfl rfl rfl rfl hexecutor rfl
  | notifyClient hex =>
      rw [hex] at hfetched
      exact h.of_executor rfl rfl rfl rfl hexecutor hfetched fun _ _ _ _ _ hex' => by cases hex'
  | @compactIfDue rest hex =>
      by_cases hdue : n.compactionDue
      · exact h.compact hex (j := n.lastApplied - 100) (by omega) (if_pos hdue) rfl rfl rfl
          hexecutor rfl
      · rw [hex] at hfetched
        refine h.of_executor (if_neg hdue) rfl rfl rfl hexecutor ?_
          fun _ _ _ _ _ hex' => absurd hex' (Executor.next_ne_computed _)
        rw [Executor.unapplied_next]
        exact hfetched
  | skipCompaction hex =>
      rw [hex] at hfetched
      refine h.of_executor rfl rfl rfl rfl hexecutor ?_
        fun _ _ _ _ _ hex' => absurd hex' (Executor.next_ne_computed _)
      rw [Executor.unapplied_next]
      exact hfetched
  | _ => exact ha.elim

/-! ## Steps that change the log -/

/-- The log changes behind what is committed and executed only. -/
lemma HoldsLog.agree (h : n.HoldsLog l) (hlog : n'.LogFrom c q)
    (hc : c ≤ n.storage.getLastAppliedIndex) (hend : q = [] ∨ c < q.length)
    (hreopened : n'.storage.storedLastLogIndex = n'.storage.lastLogIndexCache)
    (hcommit : n.commitIndex ≤ n'.commitIndex ∧ n'.commitIndex ≤ q.length)
    (happlied : n.storage.getLastAppliedIndex ≤ q.length) (hstill : n.AppliedStill n')
    (hrecords : n'.storage.SameRecords n.storage)
    (hsame : ∀ i, i ≤ n.commitIndex ∨ i ≤ n.storage.getLastAppliedIndex →
      entryAt q i = entryAt l i) : n'.HoldsLog q := by
  obtain ⟨hexecutor, -, hstored⟩ := id hstill
  refine
    { log := ⟨c, hlog, hstored ▸ hc, hend⟩
      reopened := hreopened
      commit := hcommit.2
      applied := hstored ▸ happlied
      executor := h.executor.still hstill
      fetched := ?_
      message := hexecutor ▸ h.message
      results := fun k e hk hlt => ?_ }
  · rw [hexecutor]
    intro e he
    obtain ⟨hle, hget⟩ := h.fetched e he
    exact ⟨hle.trans hcommit.1, (hsame _ (.inl hle)).trans hget⟩
  · rw [hstored] at hlt
    rw [hrecords.getRequestResult]
    refine h.results k e ?_ hlt
    rw [← hk, ← entryAt_succ, ← entryAt_succ, hsame _ (.inr (by omega))]

/-- A leader appends the entry of a request. -/
lemma HoldsLog.acceptRequest (h : n.HoldsLog l) (cb : ℕ) (req : ClientRequest) :
    (n.acceptRequest cb req).HoldsLog (l ++ [n.newEntry req]) := by
  obtain ⟨c, hlog, hc, hend⟩ := h.log
  have hcommit := h.commit
  have happlied := h.applied
  have hlast := h.lastLogIndex
  have hlen : (((l ++ [n.newEntry req]).length : ℕ) : ℤ) = l.length + 1 := by simp
  have hindex : (n.newEntry req).index = l.length + 1 := by
    rw [newEntry, hlast]
  refine h.agree (c := c) ⟨hlog.storage.appendLog (by omega) hindex, ?_, ?_⟩ hc
    (.inr (by omega)) ?_ ⟨le_rfl, ?_⟩ (by omega)
    ⟨rfl, rfl, RocksDBStore.getLastAppliedIndex_appendLog⟩ RocksDBStore.sameRecords_appendLog
    fun i hi => ?_
  · show n.lastLogIndex + 1 = _
    omega
  · rw [lastTerm_concat]
    rfl
  · exact RocksDBStore.storedLastLogIndex_appendLog.trans
      RocksDBStore.lastLogIndexCache_appendLog.symm
  · show n.commitIndex ≤ _
    omega
  · by_cases hpos : 1 ≤ i
    · obtain ⟨k, rfl⟩ : ∃ k : ℕ, i = k + 1 := ⟨(i - 1).toNat, by omega⟩
      rw [entryAt_succ, entryAt_succ, List.getElem?_append_left (by omega)]
    · rw [entryAt, entryAt, if_neg hpos, if_neg hpos]

/-- **A restarted node has its log again.** -/
lemma HoldsLog.restart (h : n.HoldsLog l) : n.restart.HoldsLog l := by
  obtain ⟨c, hlog, hc, hend⟩ := h.log
  have hlast : n.storage.storedLastLogIndex = l.length := h.reopened.trans hlog.storage.cache
  have hstart := (Machine.inv_start n.config (.openDB n.storage.db)).executor
  refine
    { log := ⟨c, ⟨⟨hlast, hlog.storage.entry⟩, hlast, ?_⟩, hc, hend⟩
      reopened := rfl
      commit := Nat.cast_nonneg _
      applied := h.applied
      executor := hstart
      fetched := fun e he => by cases he
      message := fun _ _ _ _ _ hex => by cases hex
      results := h.results }
  show (if 0 < n.storage.storedLastLogIndex then
    (n.storage.getLogEntry n.storage.storedLastLogIndex).term else 0) = lastTerm l
  rw [hlast]
  split
  · rename_i hpos
    obtain ⟨e, he, -⟩ := entryAt_of_pos (l := l) (i := l.length) (by omega) le_rfl
    have hne : l ≠ [] := by
      rintro rfl
      exact absurd hpos (by simp)
    rw [hlog.getLogEntry (by omega) (hend.resolve_left hne), he, lastTerm_of_entryAt he]
    rfl
  · have hnil : l = [] := List.eq_nil_of_length_eq_zero (by omega)
    rw [hnil, lastTerm_nil]

/-! ### Accepted messages -/

/-- The message finds its entries in place wherever the node has committed or executed entries. -/
def LeavesCommitted (n : RaftNode) (args : AppendEntriesArgs) : Prop :=
  ∀ (k : ℕ) (e : LogEntry), args.entries[k]? = some e →
    args.prevLogIndex + 1 + k ≤ max n.commitIndex n.storage.getLastAppliedIndex →
      (n.storage.getLogEntry (args.prevLogIndex + 1 + k)).term = e.term

instance (n : RaftNode) (args : AppendEntriesArgs) : Decidable (n.LeavesCommitted args) :=
  decidable_of_iff (∀ p ∈ args.entries.zipIdx,
      args.prevLogIndex + 1 + p.2 ≤ max n.commitIndex n.storage.getLastAppliedIndex →
        (n.storage.getLogEntry (args.prevLogIndex + 1 + p.2)).term = p.1.term)
    ⟨fun h k e he => h (e, k) (List.mem_zipIdx_iff_getElem?.mpr he),
      fun h p hp => h p.2 p.1 (List.mem_zipIdx_iff_getElem?.mp hp)⟩

lemma reopened_appendEntry (h : n.storage.storedLastLogIndex = n.storage.lastLogIndexCache) :
    (n.appendEntry i e).storage.storedLastLogIndex =
      (n.appendEntry i e).storage.lastLogIndexCache := by
  have happend : ∀ s : RocksDBStore,
      (s.appendLog e).storedLastLogIndex = (s.appendLog e).lastLogIndexCache := fun s => by simp
  unfold appendEntry
  split
  · split
    · exact happend _
    · exact h
  · exact happend _

lemma reopened_appendLoop (es : List LogEntry) : ∀ {n : RaftNode} {prev : ℤ},
    n.storage.storedLastLogIndex = n.storage.lastLogIndexCache →
      (n.appendLoop prev es).storage.storedLastLogIndex =
        (n.appendLoop prev es).storage.lastLogIndexCache := by
  induction es with
  | nil => exact fun h => h
  | cons e es ih => exact fun h => ih (reopened_appendEntry h)

lemma HoldsLog.reopened_handleAppendEntries (h : n.HoldsLog l) (args : AppendEntriesArgs) :
    (n.handleAppendEntries args).1.storage.storedLastLogIndex =
      (n.handleAppendEntries args).1.storage.lastLogIndexCache := by
  have haccept : (n.acceptLeader args.term args.leaderId).storage.storedLastLogIndex =
      (n.acceptLeader args.term args.leaderId).storage.lastLogIndexCache := by
    obtain ⟨-, -, -, -, hcache, hstored, -⟩ :=
      logView_inj (logView_acceptLeader n args.term args.leaderId)
    rw [hcache, hstored, h.reopened]
  have hfollow : ∀ (n₀ : RaftNode) (c : ℤ), (n₀.followCommit c).storage = n₀.storage := by
    intro n₀ c
    unfold followCommit
    split <;> rfl
  unfold handleAppendEntries
  split
  · exact h.reopened
  · dsimp only
    split
    · rw [hfollow]
      exact reopened_appendLoop _ haccept
    · exact haccept

variable {a : State ℤ ℤ LogEntry} {pre : List LogEntry}

/-- The previous entry of an accepted message is where the leader has it. -/
lemma HoldsLog.prev_isPrefix (h : n.HoldsLog l) (hacc : n.Accepts args)
    (hprev : args.prevLogIndex = pre.length) (hterm : args.prevLogTerm = lastTerm pre)
    (hnum : Numbered pre) (hl : Matched LogEntry.term a l) (hp : Matched LogEntry.term a pre) :
    pre <+: l := by
  obtain ⟨c, hlog, -, hend⟩ := h.log
  rw [isPrefix_iff_lastTerm hl hp]
  rcases List.eq_nil_or_concat pre with hnil | ⟨p, y, hpy⟩
  · exact .inl hnil
  · rw [List.concat_eq_append] at hpy
    have hlen : pre.length = p.length + 1 := by simp [hpy]
    obtain ⟨hle, hsame⟩ := hacc.2.resolve_left (by omega)
    rw [hprev, hlog.lastLogIndex, Nat.cast_le] at hle
    rw [hterm, hprev, hlog.lastLogIndex, hlog.lastLogTerm] at hsame
    refine .inr ⟨hle, ?_⟩
    split at hsame
    · rename_i heq
      rw [Nat.cast_inj.mp heq, List.take_length, hsame]
    · have hget : l[p.length]? = some l[p.length] := List.getElem?_eq_getElem (by omega)
      have hindex : (pre.length : ℤ) = p.length + 1 := by omega
      -- an entry that has been compacted away reads as one of term `0`
      have hbeyond : c < (p.length : ℤ) + 1 := by
        by_contra hgone
        rw [hindex, RocksDBStore.getLogEntry_eq, hlog.storage.entry _ (by omega),
          if_pos (not_lt.mp hgone), hpy, lastTerm_concat] at hsame
        have hpos : 1 ≤ y.term := hnum.one_le_term (by simp [hpy])
        have hzero : (0 : ℤ) = y.term := hsame
        omega
      rw [hindex, hlog.getLogEntry (by omega) hbeyond, entryAt_succ, hget] at hsame
      rw [hlen, lastTerm_take hget]
      exact hsame

lemma entryAt_of_take {r : List LogEntry} (h : l.take k = r.take k) (hi : i ≤ k) :
    entryAt l i = entryAt r i := by
  unfold entryAt
  split
  · rw [← List.getElem?_take_of_lt (l := l) (show (i - 1).toNat < k by omega), h,
      List.getElem?_take_of_lt (by omega)]
  · rfl

/-- Up to the first entry of a message that is not in place, a log is what the leader has. -/
lemma take_of_inPlace (hlog : n.LogFrom c l) (hprev : args.prevLogIndex = pre.length)
    (hpre : pre <+: l) (hnum : Numbered (pre ++ args.entries)) (hl : Matched LogEntry.term a l)
    (hq : Matched LogEntry.term a (pre ++ args.entries)) {d : ℕ} (hd : d ≤ args.entries.length)
    (hc : c ≤ l.length)
    (hplace : ∀ (k : ℕ) (x : LogEntry), k < d → args.entries[k]? = some x →
      n.InPlace (args.prevLogIndex + 1 + k) x) :
    l.take (pre.length + d) = pre ++ args.entries.take d := by
  have hcut : (pre ++ args.entries).take (pre.length + d) = pre ++ args.entries.take d := by
    rw [List.take_append, List.take_of_length_le (by omega), Nat.add_sub_cancel_left]
  rw [← hcut]
  cases d with
  | zero =>
      rw [add_zero, List.take_left, ← List.prefix_iff_eq_take.mp hpre]
  | succ d =>
      have hx : args.entries[d]? = some args.entries[d] := List.getElem?_eq_getElem hd
      have hx' : (pre ++ args.entries)[pre.length + d]? = some args.entries[d] := by
        rw [List.getElem?_append_right (by omega), Nat.add_sub_cancel_left, hx]
      have hin := hplace d _ d.lt_succ_self hx
      have hindex : args.prevLogIndex + 1 + d = ((pre.length + d : ℕ) : ℤ) + 1 := by omega
      have hbeyond : c < args.prevLogIndex + 1 + d := by
        by_contra hgone
        rw [inPlace_compacted hlog hc (by omega) (not_lt.mp hgone)] at hin
        have := (hnum _ _ hx').2
        omega
      obtain ⟨y, hy, hterm⟩ := (inPlace_iff hlog (by omega) hbeyond).mp hin
      rw [hindex, entryAt_succ] at hy
      exact hl.take_eq hq hy hx' hterm

/-- **An accepted message that leaves what is committed in place**: the node keeps its log, or has
the one of the message, with the same executed entries. -/
lemma HoldsLog.accept (h : n.HoldsLog l) (hacc : n.Accepts args) (hleaves : n.LeavesCommitted args)
    (hprev : args.prevLogIndex = pre.length) (hterm : args.prevLogTerm = lastTerm pre)
    (hnum : Numbered (pre ++ args.entries)) (hl : Matched LogEntry.term a l)
    (hq : Matched LogEntry.term a (pre ++ args.entries)) :
    (n.handleAppendEntries args).1.HoldsLog l ∨
      (n.handleAppendEntries args).1.HoldsLog (pre ++ args.entries) ∧
        (pre ++ args.entries).take n.storage.getLastAppliedIndex.toNat =
          l.take n.storage.getLastAppliedIndex.toNat := by
  obtain ⟨c, hlog, hc, hend⟩ := h.log
  have hbound := h.commit
  have happlied := h.applied
  have hpre : pre <+: l := h.prev_isPrefix hacc hprev hterm
    (hnum.of_shorter (List.prefix_append _ _)) hl (hq.of_shorter (List.prefix_append _ _))
  have hindexed : Indexed args := by
    intro k e he
    have hk : (pre ++ args.entries)[pre.length + k]? = some e := by
      rw [List.getElem?_append_right (by omega), Nat.add_sub_cancel_left, he]
    rw [(hnum _ e hk).1]
    push_cast
    omega
  have hcommit : ∀ {r : List LogEntry} {c' : ℤ}, (n.handleAppendEntries args).1.LogFrom c' r →
      n.commitIndex ≤ r.length → n.commitIndex ≤ (n.handleAppendEntries args).1.commitIndex ∧
        (n.handleAppendEntries args).1.commitIndex ≤ r.length := by
    intro r c' hr hle
    rw [commitIndex_handleAppendEntries hacc, hr.lastLogIndex]
    split <;> omega
  have hreopened := h.reopened_handleAppendEntries args
  have hstill := appliedStill_handleAppendEntries n args
  have hrecords : (n.handleAppendEntries args).1.storage.SameRecords n.storage :=
    sameRecords_handle (n := n) fun _ (h : Request.appendEntries args = _) => by cases h
  obtain ⟨-, hlog'⟩ | ⟨d, e, he, hnew, hbefore, -, hlog'⟩ :=
    logFrom_handleAppendEntries hlog (by omega) hacc (by omega) hindexed
  · exact .inl (h.agree hlog' hc hend hreopened (hcommit hlog' hbound) happlied hstill hrecords
      fun _ _ => rfl)
  · have hd : d < args.entries.length := (List.getElem?_eq_some_iff.mp he).1
    have hbeyond : max n.commitIndex n.storage.getLastAppliedIndex < args.prevLogIndex + 1 + d := by
      by_contra hle
      refine hnew ⟨?_, hleaves d e he (not_lt.mp hle)⟩
      rw [hlog.lastLogIndex]
      omega
    have htake := take_of_inPlace hlog hprev hpre hnum hl hq hd.le (by omega) hbefore
    have hcut : (args.prevLogIndex + d).toNat = pre.length + d := by omega
    rw [hcut, htake, List.append_assoc, List.take_append_drop, min_eq_left (by omega)] at hlog'
    have hlen : ((pre ++ args.entries).length : ℤ) = pre.length + args.entries.length := by simp
    have hsame : (pre ++ args.entries).take (pre.length + d) = l.take (pre.length + d) := by
      rw [htake, List.take_append, List.take_of_length_le (by omega), Nat.add_sub_cancel_left]
    right
    refine ⟨h.agree hlog' hc (.inr (by omega)) hreopened (hcommit hlog' (by omega)) (by omega)
      hstill hrecords fun i hi => entryAt_of_take hsame (by push_cast; omega), ?_⟩
    have hle : n.storage.getLastAppliedIndex.toNat ≤ pre.length + d := by omega
    rw [← min_eq_left hle, ← List.take_take, hsame, List.take_take]

end RaftConsensus.RaftNode
