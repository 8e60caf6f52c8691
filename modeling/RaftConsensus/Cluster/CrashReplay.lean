import RaftConsensus.Cluster.ApplyOrder
import RaftConsensus.Storage.Entries
import RaftConsensus.Storage.Replay

/-!
# The executor and crashes

The log is fixed here, and the only thread is the executor.  `commitIndex_` advances over the log
at any time, and the process may die between any two writes to the database and be constructed
again.  `compactLog` deletes entry by entry, so its loop is not one step but one step per entry
(`ExecutorProcess`).

Whatever the schedule, the account and request records are those that the entries up to the stored
`sys:lastApplied` make of the genesis store (`executor_refines_replay`).  What carries this is
that one batch writes the records of an entry together with its index, and that compaction stays
below that index.
-/

namespace RaftConsensus

open Bytes

/-! ## Compaction, entry by entry -/

namespace RocksDBStore

/-- One turn of the loop of `compactLog`. -/
def deleteLogEntry (s : RocksDBStore) (i : ℤ) : RocksDBStore :=
  { s with db := s.db.delete (formatLogKey i) }

lemma compactLog_eq_foldl (s : RocksDBStore) (c : ℤ) :
    s.compactLog c = (loopRange 0 c).foldl deleteLogEntry s := by
  rw [compactLog]
  generalize loopRange 0 c = is
  induction is generalizing s with
  | nil => rfl
  | cons i is ih => exact ih (s.deleteLogEntry i)

variable {s : RocksDBStore} {i j : ℤ}

lemma get_deleteLogEntry_of_ne {k : Bytes} (hk : k ≠ formatLogKey i) :
    (s.deleteLogEntry i).db.get k = s.db.get k := if_neg hk

lemma entry?_deleteLogEntry (hj : j ≠ i) : entry? (s.deleteLogEntry i) j = s.entry? j :=
  entry?_congr (get_deleteLogEntry_of_ne (mt formatLogKey_inj.mp hj))

lemma sameRecords_deleteLogEntry : SameRecords (s.deleteLogEntry i) s :=
  fun _ hk => get_deleteLogEntry_of_ne (ne_of_record hk (by simp) (by simp))

lemma getLastAppliedIndex_deleteLogEntry :
    (s.deleteLogEntry i).getLastAppliedIndex = s.getLastAppliedIndex :=
  getLastAppliedIndex_congr (get_deleteLogEntry_of_ne (ne_of_head (by simp)))

lemma storedLastLogIndex_deleteLogEntry :
    (s.deleteLogEntry i).storedLastLogIndex = s.storedLastLogIndex :=
  storedLastLogIndex_congr (get_deleteLogEntry_of_ne (ne_of_head (by simp)))

/-- The genesis store with the entries of a log appended. -/
def withLog (es : List LogEntry) : RocksDBStore := es.foldl appendLog genesis

end RocksDBStore

/-! ## The executor as a process of its own -/

/-- A node, and the log indices `compactLog` has still to delete when the executor is inside it. -/
structure ExecutorProcess where
  node : RaftNode
  deleting : List ℤ

/-- What can happen to the executor. -/
inductive ExecutorLabel
  /-- `commitIndex_` advances. -/
  | commit (c : ℤ)
  | fetchBatch
  | readBalances
  | applyEntry
  | notifyClient
  /-- The executor finds out whether compaction is due, and enters it or goes on. -/
  | compact
  /-- One entry is deleted. -/
  | deleteEntry
  /-- The process dies and is constructed again on the same database. -/
  | crash
  deriving DecidableEq

namespace ExecutorProcess

/-- A node that has been constructed on a store with a log of which nothing is executed. -/
def start (config : ClusterConfig) (es : List LogEntry) : ExecutorProcess :=
  ⟨.new config (.withLog es), []⟩

/-- A step of the executor thread outside `compactLog`. -/
def outside (p : ExecutorProcess) (n : Option RaftNode) : Option ExecutorProcess :=
  if p.deleting = [] then n.map fun n => ⟨n, []⟩ else none

/-- The check whether compaction is due. -/
def compact (p : ExecutorProcess) : Option ExecutorProcess :=
  match p.node.executor with
  | .notified rest =>
      if p.deleting = [] then
        some ⟨{ p.node with executor := .next rest },
          if p.node.compactionDue then loopRange 0 (p.node.lastApplied - 100) else []⟩
      else none
  | _ => none

/-- One turn of the loop of `compactLog`. -/
def deleteEntry (p : ExecutorProcess) : Option ExecutorProcess :=
  match p.deleting with
  | i :: is => some ⟨{ p.node with storage := p.node.storage.deleteLogEntry i }, is⟩
  | [] => none

def step (p : ExecutorProcess) : ExecutorLabel → Option ExecutorProcess
  | .commit c =>
      if p.node.commitIndex ≤ c ∧ c ≤ p.node.lastLogIndex then
        some ⟨{ p.node with commitIndex := c }, p.deleting⟩
      else none
  | .fetchBatch => p.outside p.node.fetchBatch
  | .readBalances => p.outside p.node.readBalances
  | .applyEntry => p.outside p.node.applyEntry
  | .notifyClient => p.outside (p.node.notifyClient.map Prod.fst)
  | .compact => p.compact
  | .deleteEntry => p.deleteEntry
  | .crash => some ⟨p.node.restart, []⟩

/-- All runs of the executor. -/
abbrev Run : ExecutorProcess → List ExecutorLabel → ExecutorProcess → Prop :=
  Transition.Run step fun _ _ => True

/-- The deletions one after the other. -/
lemma run_deletions (is : List ℤ) :
    ∀ n : RaftNode, Run ⟨n, is⟩ (List.replicate is.length .deleteEntry)
      ⟨{ n with storage := is.foldl .deleteLogEntry n.storage }, []⟩ := by
  induction is with
  | nil => exact fun _ => .nil
  | cons i is ih =>
      intro n
      have hhead : Run ⟨n, i :: is⟩ [.deleteEntry]
          ⟨{ n with storage := n.storage.deleteLogEntry i }, is⟩ :=
        .single trivial rfl
      exact hhead.append (ih { n with storage := n.storage.deleteLogEntry i })

/-- **Undisturbed, the small steps of compaction make up `compactIfDue`.** -/
theorem run_compactIfDue {n n' : RaftNode} (h : n.compactIfDue = some n') :
    ∃ ls, Run ⟨n, []⟩ ls ⟨n', []⟩ := by
  unfold RaftNode.compactIfDue at h
  split at h
  · rename_i rest hex
    cases h
    have hcompact : Run ⟨n, []⟩ [.compact] ⟨{ n with executor := .next rest },
        if n.compactionDue then loopRange 0 (n.lastApplied - 100) else []⟩ := by
      refine .single trivial ?_
      show compact ⟨n, []⟩ = _
      simp only [compact, hex, if_true]
    by_cases hdue : n.compactionDue
    · rw [if_pos hdue] at hcompact ⊢
      rw [RocksDBStore.compactLog_eq_foldl]
      exact ⟨_, hcompact.append (run_deletions _ _)⟩
    · rw [if_neg hdue] at hcompact ⊢
      exact ⟨_, hcompact⟩
  · cases h

end ExecutorProcess

/-! ## The invariant -/

variable {es : List LogEntry} {n : RaftNode} {p q : ExecutorProcess} {k : ℕ}

/-- The entries from position `k` on are stored. -/
def RocksDBStore.Stores (s : RocksDBStore) (es : List LogEntry) (k : ℕ) : Prop :=
  ∀ j, k ≤ j → j < es.length → s.entry? (j + 1) = es[j]?

/-- Where the executor stands when the first `k` entries have been executed: what it has fetched
comes next in the log. -/
def RaftNode.ExecutorAt (n : RaftNode) (es : List LogEntry) (k : ℕ) : Prop :=
  match n.executor with
  | .waiting => n.lastApplied = k
  | .applying entry rest => n.lastApplied = k ∧ entry :: rest <+: es.drop k
  | .computed entry rest senderNewBal receiverNewBal resultMsg =>
      n.lastApplied = k ∧ entry :: rest <+: es.drop k ∧
        n.storage.outcome entry.command = ⟨senderNewBal, receiverNewBal, resultMsg⟩
  | .written entry rest _ => entry.index = k ∧ rest <+: es.drop k
  | .notified rest => n.lastApplied = k ∧ rest <+: es.drop k

/-- **The first `k` entries have been executed.** -/
structure RaftNode.Executed (n : RaftNode) (es : List LogEntry) (k : ℕ) : Prop where
  le : k ≤ es.length
  lastLogIndex : n.lastLogIndex = es.length
  stored : n.storage.storedLastLogIndex = es.length
  commit : n.commitIndex ≤ es.length
  applied : n.storage.getLastAppliedIndex = k
  records : n.storage.SameRecords (RocksDBStore.genesis.executeAll (es.take k))
  entries : n.storage.Stores es k
  executor : n.ExecutorAt es k

/-- The executor has executed some part of the log, and deletes entries of that part only. -/
def ExecutorProcess.Inv (es : List LogEntry) (p : ExecutorProcess) : Prop :=
  ∃ k, p.node.Executed es k ∧ ∀ i ∈ p.deleting, i ≤ k

lemma executorAt_next {rest : List LogEntry} (hex : n.executor = .next rest)
    (happlied : n.lastApplied = k) (hrest : rest <+: es.drop k) : n.ExecutorAt es k := by
  unfold RaftNode.ExecutorAt
  rw [hex]
  cases rest with
  | nil => exact happlied
  | cons e rest => exact ⟨happlied, hrest⟩

/-- The position depends on the store through the balances only. -/
lemma RaftNode.ExecutorAt.same {n' : RaftNode} (hat : n.ExecutorAt es k)
    (hexecutor : n'.executor = n.executor) (happlied : n'.lastApplied = n.lastApplied)
    (houtcome : ∀ cmd, n'.storage.outcome cmd = n.storage.outcome cmd) : n'.ExecutorAt es k := by
  unfold RaftNode.ExecutorAt at hat ⊢
  rw [hexecutor, happlied]
  simpa only [houtcome] using hat

/-- Fetched entries that are stored come next in the log. -/
lemma RocksDBStore.Stores.map_loopRange {s : RocksDBStore} (hs : s.Stores es k) {c : ℤ}
    (hc : c ≤ es.length) : (loopRange (k + 1) c).map s.getLogEntry <+: es.drop k := by
  rw [List.prefix_iff_getElem?]
  intro j hj
  have hlen := hj
  simp only [loopRange, List.length_map, List.length_range] at hlen
  have hlt : k + j < es.length := by omega
  rw [List.getElem_map]
  have hj' : j < (loopRange (k + 1) c).length := by simpa using hj
  have hindex : (loopRange (k + 1) c)[j] = ((k + j : ℕ) : ℤ) + 1 := by
    simp only [loopRange, List.getElem_map, List.getElem_range]
    push_cast
    ring
  have hentry := hs (k + j) (by omega) hlt
  rw [hindex, List.getElem?_drop, List.getElem?_eq_getElem hlt]
  rw [List.getElem?_eq_getElem hlt] at hentry
  rw [RocksDBStore.getLogEntry_of_entry? hentry]

namespace RaftNode.Executed

/-- A step that leaves the log, what is executed and the store alone. -/
lemma still {n' : RaftNode} (h : n.Executed es k) (hstorage : n'.storage = n.storage)
    (hlast : n'.lastLogIndex = n.lastLogIndex) (hcommit : n'.commitIndex ≤ es.length)
    (hex : n'.ExecutorAt es k) : n'.Executed es k where
  le := h.le
  lastLogIndex := hlast.trans h.lastLogIndex
  stored := hstorage ▸ h.stored
  commit := hcommit
  applied := hstorage ▸ h.applied
  records := hstorage ▸ h.records
  entries := hstorage ▸ h.entries
  executor := hex

lemma fetchBatch {n' : RaftNode} (h : n.Executed es k) (hfetch : n.fetchBatch = some n') :
    n'.Executed es k := by
  unfold RaftNode.fetchBatch at hfetch
  split at hfetch
  · rename_i hguard
    cases hfetch
    have happlied : n.lastApplied = k := by
      have hex := h.executor
      unfold ExecutorAt at hex
      rwa [hguard.1] at hex
    refine h.still rfl rfl h.commit (executorAt_next rfl happlied ?_)
    rw [batchIndices, happlied, List.map_take]
    exact (List.take_prefix _ _).trans (h.entries.map_loopRange h.commit)
  · cases hfetch

lemma readBalances {n' : RaftNode} (h : n.Executed es k) (hread : n.readBalances = some n') :
    n'.Executed es k := by
  unfold RaftNode.readBalances at hread
  split at hread
  · rename_i entry rest hex
    cases hread
    have hat := h.executor
    unfold ExecutorAt at hat
    rw [hex] at hat
    exact h.still rfl rfl h.commit ⟨hat.1, hat.2, rfl⟩
  · cases hread

/-- **Executing the next entry**: the records and the index change together. -/
lemma applyEntry {n' : RaftNode} (h : n.Executed es k) (hes : Consecutive 1 es)
    (happly : n.applyEntry = some n') : n'.Executed es (k + 1) := by
  unfold RaftNode.applyEntry at happly
  split at happly
  · rename_i entry rest a b msg hex
    cases happly
    have hat := h.executor
    unfold ExecutorAt at hat
    rw [hex] at hat
    obtain ⟨happlied, hnext, houtcome⟩ := hat
    -- the fetched entry is the one after the first `k`
    have hget : es[k]? = some entry := by
      obtain ⟨t, ht⟩ := hnext
      rw [← List.head?_drop, ← ht]
      rfl
    have hlt : k < es.length := (List.getElem?_eq_some_iff.mp hget).1
    have hindex : entry.index = ((k + 1 : ℕ) : ℤ) := by
      rw [hes k entry hget]
      push_cast
      ring
    have hexecute : n.storage.applyTransaction entry a b msg = n.storage.execute entry := by
      rw [RocksDBStore.execute, houtcome]
    refine ⟨hlt, h.lastLogIndex, ?_, h.commit, ?_, ?_, fun j hj hlen => ?_, hindex, ?_⟩
    · simpa using h.stored
    · rw [RocksDBStore.getLastAppliedIndex_applyTransaction, hindex]
    · show (n.storage.applyTransaction entry a b msg).SameRecords _
      rw [hexecute, List.take_add_one, hget, Option.toList_some, RocksDBStore.executeAll_concat]
      exact h.records.execute
    · rw [RocksDBStore.entry?_applyTransaction]
      exact h.entries j (by omega) hlen
    · obtain ⟨t, ht⟩ := hnext
      refine ⟨t, ?_⟩
      rw [← List.tail_drop, ← ht]
      rfl
  · cases happly

lemma notifyClient {n' : RaftNode} (h : n.Executed es k)
    (hnotify : n.notifyClient.map Prod.fst = some n') : n'.Executed es k := by
  obtain ⟨⟨n₁, out⟩, hn, rfl⟩ := Option.map_eq_some_iff.mp hnotify
  unfold RaftNode.notifyClient at hn
  split at hn
  · rename_i entry rest msg hex
    cases hn
    have hat := h.executor
    unfold ExecutorAt at hat
    rw [hex] at hat
    exact h.still rfl rfl h.commit hat
  · cases hn

/-- Deleting an entry that has been executed. -/
lemma deleteLogEntry (h : n.Executed es k) {i : ℤ} (hi : i ≤ k) :
    RaftNode.Executed { n with storage := n.storage.deleteLogEntry i } es k := by
  have hrecords := RocksDBStore.sameRecords_deleteLogEntry (s := n.storage) (i := i)
  refine ⟨h.le, h.lastLogIndex, ?_, h.commit, ?_, hrecords.trans h.records, fun j hj hlen => ?_, ?_⟩
  · exact RocksDBStore.storedLastLogIndex_deleteLogEntry.trans h.stored
  · exact RocksDBStore.getLastAppliedIndex_deleteLogEntry.trans h.applied
  · rw [RocksDBStore.entry?_deleteLogEntry (by omega)]
    exact h.entries j hj hlen
  · exact h.executor.same rfl rfl hrecords.outcome

/-- A restart goes on after what has been executed. -/
lemma restart (h : n.Executed es k) : n.restart.Executed es k :=
  ⟨h.le, h.stored, h.stored, Int.natCast_nonneg _, h.applied, h.records, h.entries, h.applied⟩

end RaftNode.Executed

namespace ExecutorProcess

lemma outside_eq_some {o : Option RaftNode} (h : p.outside o = some q) :
    ∃ n, o = some n ∧ q = ⟨n, []⟩ := by
  unfold outside at h
  split at h
  · obtain ⟨n, hn, rfl⟩ := Option.map_eq_some_iff.mp h
    exact ⟨n, hn, rfl⟩
  · cases h

/-- **Every step keeps the records those of the executed part of the log.** -/
theorem Inv.step (hes : Consecutive 1 es) (hinv : p.Inv es) {l : ExecutorLabel}
    (hstep : p.step l = some q) : q.Inv es := by
  obtain ⟨k, h, hdel⟩ := hinv
  have hnone : ∀ k : ℕ, ∀ i ∈ ([] : List ℤ), i ≤ k := by simp
  cases l with
  | commit c =>
      simp only [ExecutorProcess.step] at hstep
      split at hstep
      · rename_i hc
        cases hstep
        exact ⟨k, h.still rfl rfl (hc.2.trans h.lastLogIndex.le) h.executor, hdel⟩
      · cases hstep
  | fetchBatch =>
      obtain ⟨n, hn, rfl⟩ := outside_eq_some hstep
      exact ⟨k, h.fetchBatch hn, hnone k⟩
  | readBalances =>
      obtain ⟨n, hn, rfl⟩ := outside_eq_some hstep
      exact ⟨k, h.readBalances hn, hnone k⟩
  | applyEntry =>
      obtain ⟨n, hn, rfl⟩ := outside_eq_some hstep
      exact ⟨k + 1, h.applyEntry hes hn, hnone _⟩
  | notifyClient =>
      obtain ⟨n, hn, rfl⟩ := outside_eq_some hstep
      exact ⟨k, h.notifyClient hn, hnone k⟩
  | compact =>
      change p.compact = some q at hstep
      unfold compact at hstep
      split at hstep
      · rename_i rest hex
        split at hstep
        · cases hstep
          have hat := h.executor
          unfold RaftNode.ExecutorAt at hat
          rw [hex] at hat
          refine ⟨k, h.still rfl rfl h.commit (executorAt_next rfl hat.1 hat.2), fun i hi => ?_⟩
          dsimp only at hi
          split at hi
          · have hle := (mem_loopRange.mp hi).2
            have happlied := hat.1
            omega
          · cases hi
        · cases hstep
      · cases hstep
  | deleteEntry =>
      change p.deleteEntry = some q at hstep
      unfold deleteEntry at hstep
      split at hstep
      · rename_i i is his
        cases hstep
        rw [his] at hdel
        exact ⟨k, h.deleteLogEntry (hdel i (by simp)), fun j hj => hdel j (by simp [hj])⟩
      · cases hstep
  | crash =>
      cases hstep
      exact ⟨k, h.restart, hnone k⟩

end ExecutorProcess

/-- The store with a log appended: it holds the log, and nothing else has changed. -/
lemma RocksDBStore.withLog_spec (hes : Consecutive 1 es) :
    (RocksDBStore.withLog es).storedLastLogIndex = es.length ∧
      (RocksDBStore.withLog es).lastLogIndexCache = es.length ∧
      (RocksDBStore.withLog es).getLastAppliedIndex = 0 ∧
      (RocksDBStore.withLog es).SameRecords RocksDBStore.genesis ∧
      (RocksDBStore.withLog es).Stores es 0 := by
  induction es using List.reverseRecOn with
  | nil =>
      refine ⟨?_, ?_, ?_, .refl _, fun j _ hj => by simp at hj⟩
      · rw [withLog, List.foldl_nil, genesis_eq]
        rfl
      · rw [withLog, List.foldl_nil, genesis_eq]
        rfl
      · rw [withLog, List.foldl_nil, genesis_eq]
        rfl
  | append_singleton es e ih =>
      have hindex : e.index = (es.length : ℤ) + 1 := by
        rw [hes es.length e (by simp)]
        ring
      obtain ⟨-, -, happlied, hsame, hstores⟩ := ih fun j x hx => hes j x (by
        rw [List.getElem?_append_left (List.getElem?_eq_some_iff.mp hx).1, hx])
      have hlog : withLog (es ++ [e]) = (withLog es).appendLog e := by simp [withLog]
      rw [hlog]
      refine ⟨by simp [hindex], by simp [hindex], by simpa using happlied,
        sameRecords_appendLog.trans hsame, fun j _ hj => ?_⟩
      rw [entry?_appendLog, hindex]
      by_cases hlast : j = es.length
      · subst hlast
        simp
      · have hlt : j < es.length := by
          rw [List.length_append, List.length_singleton] at hj
          omega
        rw [if_neg (by omega), List.getElem?_append_left hlt]
        exact hstores j (Nat.zero_le _) hlt

lemma ExecutorProcess.inv_start (config : ClusterConfig) (hes : Consecutive 1 es) :
    (start config es).Inv es := by
  obtain ⟨hstored, hcache, happlied, hsame, hstores⟩ := RocksDBStore.withLog_spec hes
  exact ⟨0, ⟨Nat.zero_le _, hcache, hstored, Int.natCast_nonneg _, happlied, hsame, hstores,
    happlied⟩, by simp [start]⟩

/-- **The executor refines the replay of its log.**  For every log of entries numbered from `1` on,
every schedule of commits, executor steps and crashes: the stored index counts entries of the log,
and the account and request records are those that executing that many entries, one after the
other, makes of the genesis store. -/
theorem executor_refines_replay (config : ClusterConfig) (hes : Consecutive 1 es)
    {ls : List ExecutorLabel} (hrun : ExecutorProcess.Run (.start config es) ls p) :
    ∃ k : ℕ, k ≤ es.length ∧ p.node.storage.getLastAppliedIndex = k ∧
      p.node.storage.SameRecords (RocksDBStore.genesis.executeAll (es.take k)) := by
  have hinv : p.Inv es := Transition.Run.invariant hrun (ExecutorProcess.inv_start config hes)
    fun _ _ _ hinv _ hstep => hinv.step hes hstep
  obtain ⟨k, h, -⟩ := hinv
  exact ⟨k, h.le, h.applied, h.records⟩

/-- Both entries are committed, the process dies after the first has been written, and the second
is executed by the new process. -/
def executeAcrossCrash : List ExecutorLabel :=
  [.commit 2, .fetchBatch, .readBalances, .applyEntry, .crash, .commit 2, .fetchBatch,
    .readBalances, .applyEntry]

theorem executor_refines_replay_crash :
    ∃ p, ExecutorProcess.Run (.start ⟨1, [1, 2]⟩ twoEntries.entries) executeAcrossCrash p ∧
      p.node.storage.getLastAppliedIndex = 2 ∧
      p.node.storage.SameRecords (RocksDBStore.genesis.executeAll twoEntries.entries) := by
  have hes : Consecutive 1 twoEntries.entries := by
    refine consecutive_cons.mpr ⟨rfl, consecutive_cons.mpr ⟨rfl, consecutive_nil _⟩⟩
  have hruns : ∃ p, ExecutorProcess.Run (.start ⟨1, [1, 2]⟩ twoEntries.entries)
      executeAcrossCrash p ∧ p.node.storage.getLastAppliedIndex = 2 := by
    have hlight : ∃ p ∈ Transition.runFrom ExecutorProcess.step (fun _ _ => True)
        ⟨.new ⟨1, [1, 2]⟩ (twoEntries.entries.foldl .appendLog .genesisLight), []⟩
          executeAcrossCrash, p.node.storage.getLastAppliedIndex = 2 := by
      decide +kernel
    obtain ⟨p, hp, happlied⟩ := hlight
    refine ⟨p, ?_, happlied⟩
    rw [ExecutorProcess.start, RocksDBStore.withLog, RocksDBStore.genesis_eq]
    exact Transition.run_of_runFrom hp
  obtain ⟨p, hrun, happlied⟩ := hruns
  obtain ⟨k, -, hk, hsame⟩ := executor_refines_replay _ hes hrun
  obtain rfl : k = 2 := by
    rw [happlied] at hk
    exact_mod_cast hk.symm
  exact ⟨p, hrun, happlied, hsame⟩

end RaftConsensus
