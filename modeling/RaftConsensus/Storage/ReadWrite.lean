import RaftConsensus.Raft.Execution

/-!
# Reading back what was written

What each read of the store returns after each write.  The keys of the different sections of the
store start with different letters, and log keys are injective in the index, so a write is seen
by the reads of its own section only.
-/

namespace RaftConsensus

open Bytes

/-! ## Keys -/

section Keys

lemma ne_of_head {a b : Bytes} (h : a.head? ≠ b.head?) : a ≠ b := fun hab => h (by rw [hab])

@[simp] lemma head_formatLogKey (i : ℤ) : (formatLogKey i).head? = some 108 := rfl
@[simp] lemma head_acctKey (a : Bytes) : (acctKey a).head? = some 97 := rfl
@[simp] lemma head_reqKey (r : Bytes) : (reqKey r).head? = some 114 := rfl
@[simp] lemma head_termKey : termKey.head? = some 109 := rfl
@[simp] lemma head_voteKey : voteKey.head? = some 109 := rfl
@[simp] lemma head_lastLogIndexKey : lastLogIndexKey.head? = some 115 := rfl
@[simp] lemma head_lastAppliedKey : lastAppliedKey.head? = some 115 := rfl
@[simp] lemma head_snapshotIndexKey : snapshotIndexKey.head? = some 115 := rfl
@[simp] lemma head_snapshotTermKey : snapshotTermKey.head? = some 115 := rfl

lemma formatLogKey_injective : Function.Injective formatLogKey := fun _ _ h =>
  padded_injective 10 (List.append_cancel_left h)

@[simp] lemma formatLogKey_inj {i j : ℤ} : formatLogKey i = formatLogKey j ↔ i = j :=
  formatLogKey_injective.eq_iff

@[simp] lemma acctKey_inj {a b : Bytes} : acctKey a = acctKey b ↔ a = b :=
  List.append_cancel_left_eq _ _ _ |>.to_iff

@[simp] lemma reqKey_inj {a b : Bytes} : reqKey a = reqKey b ↔ a = b :=
  List.append_cancel_left_eq _ _ _ |>.to_iff

end Keys

lemma mem_loopRange {lo hi i : ℤ} : i ∈ loopRange lo hi ↔ lo ≤ i ∧ i ≤ hi := by
  simp only [loopRange, List.mem_map, List.mem_range]
  constructor
  · rintro ⟨k, hk, rfl⟩
    omega
  · rintro ⟨hlo, hhi⟩
    exact ⟨(i - lo).toNat, by omega, by omega⟩

lemma mem_take_loopRange {lo hi i : ℤ} {m : ℕ} :
    i ∈ (loopRange lo hi).take m ↔ lo ≤ i ∧ i ≤ hi ∧ i < lo + m := by
  simp only [loopRange, ← List.map_take, List.take_range, List.mem_map, List.mem_range]
  constructor
  · rintro ⟨k, hk, rfl⟩
    omega
  · rintro ⟨hlo, hhi, hm⟩
    exact ⟨(i - lo).toNat, by omega, by omega⟩

lemma getElem?_loopRange {lo hi x : ℤ} {j : ℕ} (h : (loopRange lo hi)[j]? = some x) :
    x = lo + j := by
  simp only [loopRange, List.getElem?_map, Option.map_eq_some_iff] at h
  obtain ⟨k, hk, rfl⟩ := h
  obtain ⟨-, rfl⟩ := List.getElem?_eq_some_iff.mp hk
  simp

namespace KVMapLog

/-- A loop of deletions of log keys. -/
lemma get_foldl_delete (is : List ℤ) (k : Bytes) :
    ∀ db : KVMap Bytes Value, (is.foldl (fun db i => db.delete (formatLogKey i)) db).get k =
      if k ∈ is.map formatLogKey then none else db.get k := by
  induction is with
  | nil => simp
  | cons i is ih =>
      intro db
      rw [List.foldl_cons, ih, KVMap.get_delete]
      by_cases h : k = formatLogKey i <;> by_cases h' : k ∈ is.map formatLogKey <;> simp [h, h']

end KVMapLog

namespace RocksDBStore

variable (s : RocksDBStore)

/-! ## Single keys -/

lemma get_saveHardState (t v : ℤ) (k : Bytes) :
    (s.saveHardState t v).db.get k =
      if k = voteKey then some (.num v) else if k = termKey then some (.num t) else s.db.get k :=
  rfl

lemma get_appendLog (e : LogEntry) (k : Bytes) :
    (s.appendLog e).db.get k =
      if k = lastLogIndexKey then some (.num e.index)
      else if k = formatLogKey e.index then some (.entry e) else s.db.get k :=
  rfl

lemma get_truncateLog (i : ℤ) (k : Bytes) :
    (s.truncateLog i).db.get k =
      if k = lastLogIndexKey then some (.num (i - 1))
      else if k ∈ (loopRange i s.lastLogIndexCache).map formatLogKey then none
      else s.db.get k := by
  rw [truncateLog, KVMap.get_put, KVMapLog.get_foldl_delete]

lemma get_compactLog (i : ℤ) (k : Bytes) :
    (s.compactLog i).db.get k =
      if k ∈ (loopRange 0 i).map formatLogKey then none else s.db.get k := by
  rw [compactLog, KVMapLog.get_foldl_delete]

/-- A transaction writes account and request records and the last applied index. -/
lemma get_applyTransaction (e : LogEntry) (a b : ℤ) (msg : Bytes) (k : Bytes) :
    (s.applyTransaction e a b msg).db.get k =
      if k = lastAppliedKey then some (.num e.index)
      else if k = reqKey e.command.requestId then some (.result ⟨msg, e.index⟩)
      else if 0 ≤ b ∧ k = acctKey e.command.receiverId then some (.num b)
      else if 0 ≤ a ∧ k = acctKey e.command.senderId then some (.num a)
      else s.db.get k := by
  unfold applyTransaction
  by_cases ha : 0 ≤ a <;> by_cases hb : 0 ≤ b <;>
    simp [ha, hb, KVMap.get_put]

/-! ## Sections a write does not touch, by their first letter -/

section Frames

variable {s} {k : Bytes}

lemma get_saveHardState_of_head {t v : ℤ} (h : k.head? ≠ some 109) :
    (s.saveHardState t v).db.get k = s.db.get k := by
  have hvote : k ≠ voteKey := ne_of_head (by simpa using h)
  have hterm : k ≠ termKey := ne_of_head (by simpa using h)
  simp [get_saveHardState, hvote, hterm]

lemma get_appendLog_of_head {e : LogEntry} (hlog : k.head? ≠ some 108)
    (hsys : k ≠ lastLogIndexKey) : (s.appendLog e).db.get k = s.db.get k := by
  have hkey : k ≠ formatLogKey e.index := ne_of_head (by simpa using hlog)
  simp [get_appendLog, hsys, hkey]

lemma get_truncateLog_of_head {i : ℤ} (hlog : k.head? ≠ some 108) (hsys : k ≠ lastLogIndexKey) :
    (s.truncateLog i).db.get k = s.db.get k := by
  have hkey : k ∉ (loopRange i s.lastLogIndexCache).map formatLogKey := by
    intro h
    obtain ⟨j, -, rfl⟩ := List.mem_map.mp h
    exact hlog (head_formatLogKey j)
  rw [get_truncateLog, if_neg hsys, if_neg hkey]

lemma get_compactLog_of_head {i : ℤ} (hlog : k.head? ≠ some 108) :
    (s.compactLog i).db.get k = s.db.get k := by
  have hkey : k ∉ (loopRange 0 i).map formatLogKey := by
    intro h
    obtain ⟨j, -, rfl⟩ := List.mem_map.mp h
    exact hlog (head_formatLogKey j)
  rw [get_compactLog, if_neg hkey]

lemma get_applyTransaction_of_head {e : LogEntry} {a b : ℤ} {msg : Bytes}
    (hacct : k.head? ≠ some 97) (hreq : k.head? ≠ some 114) (hsys : k ≠ lastAppliedKey) :
    (s.applyTransaction e a b msg).db.get k = s.db.get k := by
  have hrecv : k ≠ acctKey e.command.receiverId := ne_of_head (by simpa using hacct)
  have hsend : k ≠ acctKey e.command.senderId := ne_of_head (by simpa using hacct)
  have hkey : k ≠ reqKey e.command.requestId := ne_of_head (by simpa using hreq)
  simp [get_applyTransaction, hsys, hkey, hrecv, hsend]

end Frames

/-! ## The log -/

section Log

variable {s} {t v i j : ℤ} {e : LogEntry}

lemma getLogEntry_congr {s' : RocksDBStore}
    (h : s'.db.get (formatLogKey i) = s.db.get (formatLogKey i)) :
    s'.getLogEntry i = s.getLogEntry i := by
  rw [getLogEntry, getLogEntry, h]

@[simp] lemma getLogEntry_saveHardState :
    (s.saveHardState t v).getLogEntry i = s.getLogEntry i :=
  getLogEntry_congr (get_saveHardState_of_head (by simp))

/-- An entry is found under its own index, and the others stay. -/
lemma getLogEntry_appendLog :
    (s.appendLog e).getLogEntry i = if i = e.index then e else s.getLogEntry i := by
  have hsys : formatLogKey i ≠ lastLogIndexKey := ne_of_head (by simp)
  by_cases h : i = e.index
  · subst h
    simp [getLogEntry, get_appendLog, hsys, Value.parseEntry]
  · simp [getLogEntry, get_appendLog, hsys, h]

lemma getLogEntry_truncateLog :
    (s.truncateLog j).getLogEntry i =
      if j ≤ i ∧ i ≤ s.lastLogIndexCache then .empty else s.getLogEntry i := by
  have hsys : formatLogKey i ≠ lastLogIndexKey := ne_of_head (by simp)
  have hmem : formatLogKey i ∈ (loopRange j s.lastLogIndexCache).map formatLogKey ↔
      j ≤ i ∧ i ≤ s.lastLogIndexCache := by
    rw [List.mem_map_of_injective formatLogKey_injective, mem_loopRange]
  by_cases h : j ≤ i ∧ i ≤ s.lastLogIndexCache
  · rw [if_pos h, getLogEntry, get_truncateLog, if_neg hsys, if_pos (hmem.mpr h)]
  · rw [if_neg h]
    refine getLogEntry_congr ?_
    rw [get_truncateLog, if_neg hsys, if_neg (mt hmem.mp h)]

lemma getLogEntry_compactLog :
    (s.compactLog j).getLogEntry i = if 0 ≤ i ∧ i ≤ j then .empty else s.getLogEntry i := by
  have hmem : formatLogKey i ∈ (loopRange 0 j).map formatLogKey ↔ 0 ≤ i ∧ i ≤ j := by
    rw [List.mem_map_of_injective formatLogKey_injective, mem_loopRange]
  by_cases h : 0 ≤ i ∧ i ≤ j
  · rw [if_pos h, getLogEntry, get_compactLog, if_pos (hmem.mpr h)]
  · rw [if_neg h]
    refine getLogEntry_congr ?_
    rw [get_compactLog, if_neg (mt hmem.mp h)]

@[simp] lemma getLogEntry_applyTransaction {a b : ℤ} {msg : Bytes} :
    (s.applyTransaction e a b msg).getLogEntry i = s.getLogEntry i :=
  getLogEntry_congr (get_applyTransaction_of_head (by simp) (by simp) (ne_of_head (by simp)))

@[simp] lemma lastLogIndexCache_saveHardState :
    (s.saveHardState t v).lastLogIndexCache = s.lastLogIndexCache := rfl
@[simp] lemma lastLogIndexCache_appendLog : (s.appendLog e).lastLogIndexCache = e.index := rfl
@[simp] lemma lastLogIndexCache_truncateLog :
    (s.truncateLog i).lastLogIndexCache = i - 1 := rfl
@[simp] lemma lastLogIndexCache_compactLog :
    (s.compactLog i).lastLogIndexCache = s.lastLogIndexCache := rfl
@[simp] lemma lastLogIndexCache_applyTransaction {a b : ℤ} {msg : Bytes} :
    (s.applyTransaction e a b msg).lastLogIndexCache = s.lastLogIndexCache := rfl

end Log

/-! ## Hard state and last applied index -/

section Meta

variable {s} {t v i : ℤ} {e : LogEntry}

lemma loadHardState_congr {s' : RocksDBStore} (ht : s'.db.get termKey = s.db.get termKey)
    (hv : s'.db.get voteKey = s.db.get voteKey) : s'.loadHardState = s.loadHardState := by
  rw [loadHardState, loadHardState, ht, hv]

@[simp] lemma loadHardState_saveHardState : (s.saveHardState t v).loadHardState = (t, v) := rfl

@[simp] lemma loadHardState_appendLog : (s.appendLog e).loadHardState = s.loadHardState :=
  loadHardState_congr (get_appendLog_of_head (by simp) (ne_of_head (by simp)))
    (get_appendLog_of_head (by simp) (ne_of_head (by simp)))

@[simp] lemma loadHardState_truncateLog : (s.truncateLog i).loadHardState = s.loadHardState :=
  loadHardState_congr (get_truncateLog_of_head (by simp) (ne_of_head (by simp)))
    (get_truncateLog_of_head (by simp) (ne_of_head (by simp)))

@[simp] lemma loadHardState_compactLog : (s.compactLog i).loadHardState = s.loadHardState :=
  loadHardState_congr (get_compactLog_of_head (by simp)) (get_compactLog_of_head (by simp))

@[simp] lemma loadHardState_applyTransaction {a b : ℤ} {msg : Bytes} :
    (s.applyTransaction e a b msg).loadHardState = s.loadHardState :=
  loadHardState_congr
    (get_applyTransaction_of_head (by simp) (by simp) (ne_of_head (by simp)))
    (get_applyTransaction_of_head (by simp) (by simp) (ne_of_head (by simp)))

lemma getLastAppliedIndex_congr {s' : RocksDBStore}
    (h : s'.db.get lastAppliedKey = s.db.get lastAppliedKey) :
    s'.getLastAppliedIndex = s.getLastAppliedIndex := by
  rw [getLastAppliedIndex, getLastAppliedIndex, h]

@[simp] lemma getLastAppliedIndex_saveHardState :
    (s.saveHardState t v).getLastAppliedIndex = s.getLastAppliedIndex :=
  getLastAppliedIndex_congr (get_saveHardState_of_head (by simp))

@[simp] lemma getLastAppliedIndex_appendLog :
    (s.appendLog e).getLastAppliedIndex = s.getLastAppliedIndex :=
  getLastAppliedIndex_congr (get_appendLog_of_head (by simp) (by decide))

@[simp] lemma getLastAppliedIndex_truncateLog :
    (s.truncateLog i).getLastAppliedIndex = s.getLastAppliedIndex :=
  getLastAppliedIndex_congr (get_truncateLog_of_head (by simp) (by decide))

@[simp] lemma getLastAppliedIndex_compactLog :
    (s.compactLog i).getLastAppliedIndex = s.getLastAppliedIndex :=
  getLastAppliedIndex_congr (get_compactLog_of_head (by simp))

@[simp] lemma getLastAppliedIndex_applyTransaction {a b : ℤ} {msg : Bytes} :
    (s.applyTransaction e a b msg).getLastAppliedIndex = e.index := by
  rw [getLastAppliedIndex, get_applyTransaction, if_pos rfl]
  rfl

end Meta

end RocksDBStore

end RaftConsensus
