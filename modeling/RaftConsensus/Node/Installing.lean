import RaftConsensus.Node.AppendLoop

/-!
# Installing a snapshot

`handleInstallSnapshot` decides by `lastApplied_` alone whether a snapshot brings something new.
When it does, the log is cut behind `lastIncludedIndex`, and the anchor is put at its end; what
lies before stays.  Two rules for the log are compared with that.

* `NeverBackwards` — the commit index does not fall, and a log that contains the last entry of the
  snapshot is kept.  `neverBackwards_iff` says when: nothing beyond the snapshot is committed or,
  in a log with that last entry, held.
* `HistoryGone` — no entry from before the snapshot can be read any more, and a leader has to send
  a snapshot where it would need one.  `historyGone_iff` says when: the log has had no such entry,
  and the peer is not to be sent the log from its first entry on, where `replicateToPeer` looks
  for no previous entry.
-/

namespace RaftConsensus

open Bytes

/-! ## What the dump writes into the log -/

namespace RocksDBStore

/-- The log entry that the lines of a dump write at an index.  A dump of records names none. -/
def dumpedEntry (data : Bytes) (i : ℤ) : Option LogEntry :=
  ((pairLines data).reverse.find? fun p => p.1 = formatLogKey i).map fun p => .parse p.2

/-- An entry after `applySnapshot` is the one its lines have written, or the one from before. -/
lemma entry?_applySnapshot_eq {s : RocksDBStore} {data : Bytes} {i j t : ℤ} :
    entry? (s.applySnapshot data j t) i = (dumpedEntry data i).or (s.entry? i) := by
  have hsys : ¬ isSnapshotKey (formatLogKey i) := by
    rintro (h | h | h) <;> exact ne_of_head (by simp) h
  have hrecord : isRecordKey (formatLogKey i) = false := rfl
  rw [RocksDBStore.entry?, get_applySnapshot_of_ne hsys, replaceRecords, KVMap.get_write_map_puts,
    get_deleteRecords, if_neg (by simp [hrecord]), dumpedEntry, entry?]
  cases (pairLines data).reverse.find? (fun p => p.1 = formatLogKey i) <;> rfl

/-- What an installation leaves below the anchor it puts at the end. -/
lemma entry?_install {s : RocksDBStore} {data : Bytes} {i j t : ℤ} (hi : i < j) :
    entry? (((s.applySnapshot data j t).truncateLog (j + 1)).appendLog
      (RaftNode.anchorEntry j t)) i = (dumpedEntry data i).or (s.entry? i) := by
  have hne : i ≠ (RaftNode.anchorEntry j t).index := hi.ne
  rw [entry?_appendLog, if_neg hne, entry?_truncateLog, if_neg (by omega), entry?_applySnapshot_eq]

end RocksDBStore

namespace RaftNode

/-! ## Never backwards -/

/-- Entry `e` is at index `i` of the log, which ends at `lastLogIndex`. -/
def LogHas (n : RaftNode) (i : ℤ) (e : LogEntry) : Prop :=
  i ≤ n.lastLogIndex ∧ n.storage.entry? i = some e

/-- The log contains the last entry that a snapshot includes. -/
def HasLastIncluded (n : RaftNode) (args : InstallSnapshotArgs) : Prop :=
  ∃ e, n.LogHas args.lastIncludedIndex e ∧ e.term = args.lastIncludedTerm

/-- Neither what is committed nor what is applied falls back, and a log that contains the last
entry of the snapshot keeps all that follows it. -/
structure NeverBackwards (n n' : RaftNode) (args : InstallSnapshotArgs) : Prop where
  commit : n.commitIndex ≤ n'.commitIndex
  applied : n.lastApplied ≤ n'.lastApplied
  retained : n.HasLastIncluded args →
    (∀ i e, args.lastIncludedIndex < i → n.LogHas i e → n'.LogHas i e) ∧
      n'.lastLogIndex = n.lastLogIndex ∧ n'.lastLogTerm = n.lastLogTerm

/-- The snapshot takes nothing back: nothing beyond it is committed, and a log that contains its
last entry ends there. -/
def TakesNothingBack (n : RaftNode) (args : InstallSnapshotArgs) : Prop :=
  n.commitIndex ≤ args.lastIncludedIndex ∧
    (n.HasLastIncluded args →
      n.lastLogIndex = args.lastIncludedIndex ∧ n.lastLogTerm = args.lastIncludedTerm)

variable {n : RaftNode} {args : InstallSnapshotArgs}

/-- A step that does not concern the log moves nothing backwards. -/
lemma LogStill.neverBackwards {n' : RaftNode} (h : n.LogStill n') : n.NeverBackwards n' args := by
  refine ⟨h.commitIndex.ge, h.lastApplied.ge, fun _ => ⟨?_, h.lastLogIndex, h.lastLogTerm⟩⟩
  intro i e _ hi
  rw [LogHas, h.lastLogIndex, h.entry]
  exact hi

lemma neverBackwards_of_not_installs (h : ¬ n.installs args) :
    n.NeverBackwards (n.handleInstallSnapshot args).1 args := by
  have hseen := n.logStill_seeTerm args.term
  rcases handleInstallSnapshot_cases n args with ⟨-, h'⟩ | ⟨-, h'⟩ | ⟨hinst, -⟩
  · rw [h']
    exact (LogStill.refl n).neverBackwards
  · rw [h']
    exact LogStill.neverBackwards ⟨hseen.commitIndex, hseen.lastApplied, hseen.lastLogIndex,
      hseen.lastLogTerm, hseen.cache, hseen.entry⟩
  · exact absurd hinst h

/-- What an installed snapshot makes of the indices. -/
lemma handleInstallSnapshot_of_installs (h : n.installs args) :
    (n.handleInstallSnapshot args).1 =
      installSnapshot { n.seeTerm args.term with leaderId := args.leaderId } args := by
  rcases handleInstallSnapshot_cases n args with ⟨hnot, -⟩ | ⟨hnot, -⟩ | ⟨-, h'⟩
  · exact absurd h hnot
  · exact absurd h hnot
  · exact h'

/-- **When a snapshot moves nothing backwards**: exactly when it is not installed, or nothing
beyond it is committed and a log that contains its last entry ends with it. -/
theorem neverBackwards_iff (n : RaftNode) (args : InstallSnapshotArgs) :
    n.NeverBackwards (n.handleInstallSnapshot args).1 args ↔
      (n.installs args → n.TakesNothingBack args) := by
  by_cases hinst : n.installs args
  · rw [handleInstallSnapshot_of_installs hinst]
    constructor
    · intro h _
      refine ⟨h.commit, fun hlast => ?_⟩
      obtain ⟨-, hindex, hterm⟩ := h.retained hlast
      exact ⟨hindex.symm, hterm.symm⟩
    · intro h
      obtain ⟨hcommit, hends⟩ := h hinst
      refine ⟨hcommit, hinst.2.le, fun hlast => ?_⟩
      obtain ⟨hindex, hterm⟩ := hends hlast
      refine ⟨fun i e hlt hi => ?_, hindex.symm, hterm.symm⟩
      -- the log ends with the last entry of the snapshot
      have hle := hi.1
      omega
  · exact iff_of_true (neverBackwards_of_not_installs hinst) fun h => absurd h hinst

/-- Node `2` of three, on a new store, after its first message of a leader. -/
def afterMessage (store : RocksDBStore) (args : AppendEntriesArgs) : RaftNode :=
  ((RaftNode.new ⟨2, [1, 2, 3]⟩ store).handleAppendEntries args).1

/-- It has taken over two entries of term `1`, both committed and none applied. -/
def committedTwo : RaftNode :=
  afterMessage .genesis ⟨1, 1, 0, 0, [⟨1, 1, .empty⟩, ⟨1, 2, .empty⟩], 2⟩

/-- **A snapshot up to the first of two committed entries** takes the second one back, and the
commit index with it. -/
theorem snapshot_moves_backwards :
    committedTwo.commitIndex = 2 ∧ committedTwo.lastLogIndex = 2 ∧
      (committedTwo.handleInstallSnapshot ⟨1, 1, 1, 1, [], 0, true⟩).1.commitIndex = 1 ∧
      (committedTwo.handleInstallSnapshot ⟨1, 1, 1, 1, [], 0, true⟩).1.lastLogIndex = 1 ∧
      ¬ committedTwo.NeverBackwards
        (committedTwo.handleInstallSnapshot ⟨1, 1, 1, 1, [], 0, true⟩).1
        ⟨1, 1, 1, 1, [], 0, true⟩ := by
  have hvalues : committedTwo.commitIndex = 2 ∧ committedTwo.lastLogIndex = 2 ∧
      (committedTwo.handleInstallSnapshot ⟨1, 1, 1, 1, [], 0, true⟩).1.commitIndex = 1 ∧
      (committedTwo.handleInstallSnapshot ⟨1, 1, 1, 1, [], 0, true⟩).1.lastLogIndex = 1 := by
    rw [committedTwo, RocksDBStore.genesis_eq]
    decide +kernel
  obtain ⟨hcommit, hlast, hcommit', hlast'⟩ := hvalues
  refine ⟨hcommit, hlast, hcommit', hlast', fun h => ?_⟩
  have hle := h.commit
  omega

/-! ## History -/

/-- **History before an installed snapshot is gone.**  No entry before the snapshot can be read;
and whenever the node later starts to replicate to a peer from an index `nextIdx` before it, with
nothing written there since, it turns to sending a snapshot. -/
def HistoryGone (n : RaftNode) (args : InstallSnapshotArgs) (nextIdx : ℤ) : Prop :=
  n.installs args →
    (∀ i, i < args.lastIncludedIndex →
      ((n.handleInstallSnapshot args).1.storage.getLogEntry i).term = 0) ∧
    (1 ≤ nextIdx → nextIdx < args.lastIncludedIndex → ∀ (later : RaftNode) (peer : ℤ),
      (∀ i, i < args.lastIncludedIndex → later.storage.getLogEntry i =
        (n.handleInstallSnapshot args).1.storage.getLogEntry i) →
      later.workers peer = .begun nextIdx →
        later.replicateCheck peer = some (later.setWorker peer .snapshot))

/-- There is no history: no entry before the snapshot in the log or named by the dump. -/
def NoHistory (n : RaftNode) (args : InstallSnapshotArgs) : Prop :=
  ∀ i, i < args.lastIncludedIndex →
    (((RocksDBStore.dumpedEntry args.data i).or (n.storage.entry? i)).getD .empty).term = 0

/-- Below its last index an installed snapshot writes only what its dump names. -/
lemma getLogEntry_installed (hinst : n.installs args) {i : ℤ} (hi : i < args.lastIncludedIndex) :
    (n.handleInstallSnapshot args).1.storage.getLogEntry i =
      ((RocksDBStore.dumpedEntry args.data i).or (n.storage.entry? i)).getD .empty := by
  rw [handleInstallSnapshot_of_installs hinst, RocksDBStore.getLogEntry_eq,
    ← (n.logStill_seeTerm args.term).entry]
  exact congrArg (fun o => o.getD .empty) (RocksDBStore.entry?_install hi)

/-- The check before a message: with a first entry to send after index `0`, a missing entry before
it turns to a snapshot. -/
lemma replicateCheck_snapshot {peer nextIdx : ℤ} (hw : n.workers peer = .begun nextIdx)
    (hneeds : n.needsSnapshot (nextIdx - 1)) :
    n.replicateCheck peer = some (n.setWorker peer .snapshot) := by
  simp [replicateCheck, hw, hneeds]

/-- From the first index on there is no previous entry to look for. -/
lemma replicateCheck_first {peer : ℤ} (hw : n.workers peer = .begun 1) :
    n.replicateCheck peer ≠ some (n.setWorker peer .snapshot) := by
  intro h
  have hneeds : ¬ n.needsSnapshot (1 - 1) := by simp [needsSnapshot]
  simp only [replicateCheck, hw, if_neg hneeds, Option.some.injEq] at h
  have hworker := congrFun (congrArg RaftNode.workers h) peer
  simp [setWorker] at hworker

/-- **When the history before an installed snapshot is gone**: exactly when there is none, and the
peer is not to be sent the log from its first entry on. -/
theorem historyGone_iff (n : RaftNode) (args : InstallSnapshotArgs) (nextIdx : ℤ) :
    n.HistoryGone args nextIdx ↔
      (n.installs args → n.NoHistory args ∧ (1 < args.lastIncludedIndex → nextIdx ≠ 1)) := by
  refine forall_congr' fun hinst => ?_
  constructor
  · rintro ⟨hgone, hfallback⟩
    refine ⟨fun i hi => ?_, ?_⟩
    · rw [← getLogEntry_installed hinst hi]
      exact hgone i hi
    · rintro hlast rfl
      exact replicateCheck_first (n := (n.handleInstallSnapshot args).1.setWorker 0 (.begun 1))
        (by simp [setWorker])
        (hfallback le_rfl hlast ((n.handleInstallSnapshot args).1.setWorker 0 (.begun 1)) 0
          (fun i _ => rfl) (by simp [setWorker]))
  · rintro ⟨hnone, hfirst⟩
    have hgone : ∀ i, i < args.lastIncludedIndex →
        ((n.handleInstallSnapshot args).1.storage.getLogEntry i).term = 0 := by
      intro i hi
      rw [getLogEntry_installed hinst hi]
      exact hnone i hi
    refine ⟨hgone, fun hone hlt later peer hsame hw => replicateCheck_snapshot hw ⟨?_, ?_⟩⟩
    · have hne := hfirst (by omega)
      omega
    · rw [hsame _ (by omega)]
      exact hgone _ (by omega)

/-- **The entries of a deposed leader survive a snapshot that ends after them**, and are read again
below it. -/
theorem history_survives_snapshot :
    committedTwo.installs ⟨2, 1, 3, 2, [], 0, true⟩ ∧
      ((committedTwo.handleInstallSnapshot ⟨2, 1, 3, 2, [], 0, true⟩).1.storage.getLogEntry
        1).term = 1 ∧
      ¬ committedTwo.HistoryGone ⟨2, 1, 3, 2, [], 0, true⟩ 2 := by
  have hinst : committedTwo.installs ⟨2, 1, 3, 2, [], 0, true⟩ := by
    rw [committedTwo, RocksDBStore.genesis_eq]
    decide +kernel
  have hterm : ((committedTwo.handleInstallSnapshot ⟨2, 1, 3, 2, [], 0, true⟩).1.storage.getLogEntry
      1).term = 1 := by
    rw [getLogEntry_installed hinst (by decide), committedTwo, RocksDBStore.genesis_eq]
    decide +kernel
  refine ⟨hinst, hterm, fun h => ?_⟩
  have hgone := (h hinst).1 1 (by decide)
  rw [hterm] at hgone
  cases hgone

end RaftNode

end RaftConsensus
