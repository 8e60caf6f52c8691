import RaftConsensus.Storage.SnapshotTransfer
import RaftConsensus.Storage.StoredLog

/-!
# Single entries and the stored last index

`entry?` tells which entry is stored at an index, and `storedLastLogIndex` what a store loads as
its last index when it is opened again.  This file says what every write does to the two, for logs
with gaps too.
-/

namespace RaftConsensus.RocksDBStore

open Bytes

variable {s s' : RocksDBStore} {e : LogEntry} {i j t v : ℤ}

/-! ## Entries -/

lemma entry?_congr (h : s'.db.get (formatLogKey i) = s.db.get (formatLogKey i)) :
    s'.entry? i = s.entry? i := by
  rw [RocksDBStore.entry?, entry?, h]

lemma entry?_of_db (h : s'.db = s.db) : s'.entry? i = s.entry? i := entry?_congr (by rw [h])

/-- Reading an entry, a missing one as the empty one. -/
lemma getLogEntry_eq : s.getLogEntry i = (s.entry? i).getD .empty := by
  rw [getLogEntry, entry?]
  cases s.db.get (formatLogKey i) <;> rfl

lemma getLogEntry_of_entry? (h : s.entry? i = some e) : s.getLogEntry i = e := by
  rw [getLogEntry_eq, h]
  rfl

@[simp] lemma entry?_saveHardState : entry? (s.saveHardState t v) i = s.entry? i :=
  entry?_congr (get_saveHardState_of_head (by simp))

@[simp] lemma entry?_applyTransaction {a b : ℤ} {msg : Bytes} :
    entry? (s.applyTransaction e a b msg) i = s.entry? i :=
  entry?_congr (get_applyTransaction_of_head (by simp) (by simp) (ne_of_head (by simp)))

lemma entry?_appendLog : entry? (s.appendLog e) i = if i = e.index then some e else s.entry? i := by
  have hsys : formatLogKey i ≠ lastLogIndexKey := ne_of_head (by simp)
  by_cases h : i = e.index
  · rw [if_pos h, entry?, get_appendLog, if_neg hsys, if_pos (congrArg formatLogKey h)]
    rfl
  · rw [if_neg h, entry?, get_appendLog, if_neg hsys, if_neg (mt formatLogKey_inj.mp h), entry?]

lemma entry?_truncateLog :
    entry? (s.truncateLog j) i =
      if j ≤ i ∧ i ≤ s.lastLogIndexCache then none else s.entry? i := by
  have hsys : formatLogKey i ≠ lastLogIndexKey := ne_of_head (by simp)
  have hmem : formatLogKey i ∈ (loopRange j s.lastLogIndexCache).map formatLogKey ↔
      j ≤ i ∧ i ≤ s.lastLogIndexCache := by
    rw [List.mem_map_of_injective formatLogKey_injective, mem_loopRange]
  by_cases h : j ≤ i ∧ i ≤ s.lastLogIndexCache
  · rw [if_pos h, entry?, get_truncateLog, if_neg hsys, if_pos (hmem.mpr h)]
    rfl
  · rw [if_neg h]
    refine entry?_congr ?_
    rw [get_truncateLog, if_neg hsys, if_neg (mt hmem.mp h)]

lemma entry?_compactLog :
    entry? (s.compactLog j) i = if 0 ≤ i ∧ i ≤ j then none else s.entry? i := by
  have hmem : formatLogKey i ∈ (loopRange 0 j).map formatLogKey ↔ 0 ≤ i ∧ i ≤ j := by
    rw [List.mem_map_of_injective formatLogKey_injective, mem_loopRange]
  by_cases h : 0 ≤ i ∧ i ≤ j
  · rw [if_pos h, entry?, get_compactLog, if_pos (hmem.mpr h)]
    rfl
  · rw [if_neg h]
    refine entry?_congr ?_
    rw [get_compactLog, if_neg (mt hmem.mp h)]

/-- No line of a snapshot that is read as a key is a key of the log. -/
def SparesEntries (data : Bytes) : Prop :=
  ∀ p ∈ pairLines data, (ascii "log:").isPrefixOf p.1 = false

instance (data : Bytes) : Decidable (SparesEntries data) :=
  inferInstanceAs (Decidable (∀ p ∈ pairLines data, _))

/-- A snapshot whose lines name no log key leaves the entries alone. -/
lemma entry?_applySnapshot {data : Bytes} (hdata : SparesEntries data) :
    entry? (s.applySnapshot data j t) i = s.entry? i := by
  have hkey : (ascii "log:").isPrefixOf (formatLogKey i) = true :=
    List.isPrefixOf_iff_prefix.mpr (List.prefix_append _ _)
  have hne : ∀ p ∈ pairLines data, p.1 ≠ formatLogKey i := by
    intro p hp heq
    have hfalse := hdata p hp
    rw [heq, hkey] at hfalse
    cases hfalse
  have hsys : ¬ isSnapshotKey (formatLogKey i) := by
    rintro (h | h | h)
    · exact ne_of_head (by simp) h
    · exact ne_of_head (by simp) h
    · exact ne_of_head (by simp) h
  exact entry?_congr (get_applySnapshot_of_notMem rfl hsys hne)

/-! ## The stored last index -/

/-- The last index that is loaded when the database is opened again. -/
def storedLastLogIndex (s : RocksDBStore) : ℤ := (openDB s.db).lastLogIndexCache

lemma storedLastLogIndex_congr (h : s'.db.get lastLogIndexKey = s.db.get lastLogIndexKey) :
    s'.storedLastLogIndex = s.storedLastLogIndex := by
  simp only [storedLastLogIndex, openDB, h]

lemma storedLastLogIndex_of_db (h : s'.db = s.db) : s'.storedLastLogIndex = s.storedLastLogIndex :=
  storedLastLogIndex_congr (by rw [h])

@[simp] lemma storedLastLogIndex_saveHardState :
    (s.saveHardState t v).storedLastLogIndex = s.storedLastLogIndex :=
  storedLastLogIndex_congr (get_saveHardState_of_head (by simp))

@[simp] lemma storedLastLogIndex_appendLog : (s.appendLog e).storedLastLogIndex = e.index := by
  rw [storedLastLogIndex, openDB, get_appendLog, if_pos rfl]
  rfl

@[simp] lemma storedLastLogIndex_truncateLog : (s.truncateLog j).storedLastLogIndex = j - 1 := by
  rw [storedLastLogIndex, openDB, get_truncateLog, if_pos rfl]
  rfl

@[simp] lemma storedLastLogIndex_compactLog :
    (s.compactLog j).storedLastLogIndex = s.storedLastLogIndex :=
  storedLastLogIndex_congr (get_compactLog_of_head (by simp))

@[simp] lemma storedLastLogIndex_applyTransaction {a b : ℤ} {msg : Bytes} :
    (s.applyTransaction e a b msg).storedLastLogIndex = s.storedLastLogIndex :=
  storedLastLogIndex_congr (get_applyTransaction_of_head (by simp) (by simp) (by decide))

lemma storedLastLogIndex_applySnapshot {data : Bytes}
    (hdata : ∀ p ∈ pairLines data, p.1 ≠ lastLogIndexKey) :
    (s.applySnapshot data j t).storedLastLogIndex = s.storedLastLogIndex := by
  have hsys : ¬ isSnapshotKey lastLogIndexKey := by
    rintro (h | h | h)
    · exact absurd h (by decide)
    · exact absurd h (by decide)
    · exact absurd h (by decide)
  exact storedLastLogIndex_congr (get_applySnapshot_of_notMem (by decide) hsys hdata)

/-- A snapshot sets the last applied index. -/
@[simp] lemma getLastAppliedIndex_applySnapshot {data : Bytes} :
    (s.applySnapshot data j t).getLastAppliedIndex = j := by
  have hne : lastAppliedKey ≠ snapshotTermKey ∧ lastAppliedKey ≠ snapshotIndexKey := by decide
  rw [getLastAppliedIndex, get_applySnapshot, if_neg hne.1, if_neg hne.2, if_pos rfl]
  rfl

/-! ## Several entries at once -/

/-- The greatest of the indices and `i`. -/
def maxIndex (es : List LogEntry) (i : ℤ) : ℤ :=
  es.foldl (fun m e => if m < e.index then e.index else m) i

lemma maxIndex_le {es : List LogEntry} :
    maxIndex es i ≤ j ↔ i ≤ j ∧ ∀ e ∈ es, e.index ≤ j := by
  induction es generalizing i with
  | nil => simp [maxIndex]
  | cons e es ih =>
      have hcons : maxIndex (e :: es) i = maxIndex es (if i < e.index then e.index else i) := rfl
      rw [hcons, ih, List.forall_mem_cons, ← and_assoc]
      refine and_congr_left' ?_
      split <;> omega

lemma maxIndex_concat {es : List LogEntry} :
    maxIndex (es ++ [e]) i = e.index ↔ i ≤ e.index ∧ ∀ e' ∈ es, e'.index ≤ e.index := by
  have hlast : maxIndex (es ++ [e]) i =
      if maxIndex es i < e.index then e.index else maxIndex es i := List.foldl_concat _ _ _ _
  rw [← maxIndex_le, hlast]
  split <;> omega

/-- One by one, entries are put where a batch puts them. -/
lemma get_foldl_appendLog {k : Bytes} (hk : k ≠ lastLogIndexKey) (es : List LogEntry) :
    ∀ s : RocksDBStore, (es.foldl appendLog s).db.get k =
      (s.db.write (es.map fun e => .put (formatLogKey e.index) (.entry e))).get k := by
  induction es with
  | nil => exact fun _ => rfl
  | cons e es ih =>
      intro s
      rw [List.foldl_cons, ih, List.map_cons, KVMap.write_cons]
      refine KVMap.get_write_congr _ ?_
      rw [get_appendLog, if_neg hk, KVMap.apply_put, KVMap.get_put]

/-- **A batch of entries is stored like one entry after the other** if and only if no index is
greater than the last one, neither of the batch nor of the store. -/
theorem appendLogs_eq_foldl_iff (s : RocksDBStore) (es : List LogEntry) (e : LogEntry) :
    s.appendLogs (es ++ [e]) = (es ++ [e]).foldl appendLog s ↔
      s.lastLogIndexCache ≤ e.index ∧ ∀ e' ∈ es, e'.index ≤ e.index := by
  have hcache : ((es ++ [e]).foldl appendLog s).lastLogIndexCache = e.index := by
    rw [List.foldl_append]
    rfl
  have hbatch : s.appendLogs (es ++ [e]) =
      ⟨s.db.write (((es ++ [e]).map fun e => .put (formatLogKey e.index) (.entry e)) ++
        [.put lastLogIndexKey (.num (maxIndex (es ++ [e]) s.lastLogIndexCache))]),
        maxIndex (es ++ [e]) s.lastLogIndexCache⟩ := if_neg (by simp)
  rw [← maxIndex_concat]
  constructor
  · intro h
    have hsame := congrArg lastLogIndexCache h
    rwa [hbatch, hcache] at hsame
  · intro h
    have hdb : s.db.write (((es ++ [e]).map fun e => .put (formatLogKey e.index) (.entry e)) ++
        [.put lastLogIndexKey (.num e.index)]) = ((es ++ [e]).foldl appendLog s).db := by
      refine KVMap.ext_get fun k => ?_
      rw [KVMap.write_append, KVMap.write_cons, KVMap.write_nil, KVMap.apply_put, KVMap.get_put]
      by_cases hk : k = lastLogIndexKey
      · rw [if_pos hk, List.foldl_concat, get_appendLog, if_pos hk]
      · rw [if_neg hk, get_foldl_appendLog hk]
    rw [hbatch, h, hdb, ← hcache]

end RaftConsensus.RocksDBStore
