import RaftConsensus.Storage.Entries

/-!
# Operations as sequences of atomic writes

`appendLog`, `saveHardState` and `applySnapshot` are one batch each.  `truncateLog` and `compactLog`
delete entry by entry, and `truncateLog` writes the new last index after that.  When the process
dies, a part of the sequence has been written, from the start on (`perform` of a `take`).

`Usable` says that a node can go on from a store: every entry after the last applied one is there,
and so is the last one.  `usable_truncating_iff` tells at which points `truncateLog` may be cut
short.
-/

namespace RaftConsensus.RocksDBStore

open Bytes

/-- The writes of an operation in the order they are made.  Each is a batch, and atomic. -/
abbrev Writes := List (List (KVMap.Op Bytes Value))

variable {s s' : RocksDBStore} {e : LogEntry} {i c : ℤ} {k : ℕ} {ws ws' : Writes}

/-- Makes writes to the database, one after the other. -/
def perform (s : RocksDBStore) (ws : Writes) : RocksDBStore :=
  { s with db := ws.foldl KVMap.write s.db }

@[simp] lemma perform_nil : s.perform [] = s := rfl

lemma perform_append : s.perform (ws ++ ws') = (s.perform ws).perform ws' := by
  simp [perform]

lemma perform_db_congr (h : s.db = s'.db) : (s.perform ws).db = (s'.perform ws).db := by
  simp [perform, h]

/-! ## The operations -/

def saveHardStateWrites (term votedFor : ℤ) : Writes :=
  [[.put termKey (.num term), .put voteKey (.num votedFor)]]

def appendLogWrites (entry : LogEntry) : Writes :=
  [[.put (formatLogKey entry.index) (.entry entry), .put lastLogIndexKey (.num entry.index)]]

/-- The deletion of the entries with the given indices, one by one. -/
def deleteWrites (is : List ℤ) : Writes := is.map fun i => [.delete (formatLogKey i)]

def truncateLogWrites (s : RocksDBStore) (startIndex : ℤ) : Writes :=
  deleteWrites (loopRange startIndex s.lastLogIndexCache) ++
    [[.put lastLogIndexKey (.num (startIndex - 1))]]

def compactLogWrites (compactIndex : ℤ) : Writes := deleteWrites (loopRange 0 compactIndex)

def applySnapshotWrites (s : RocksDBStore) (snapshotData : Bytes) (lastIndex lastTerm : ℤ) :
    Writes :=
  [((s.db.entries.filter fun p => isRecordKey p.1).map fun p => .delete p.1) ++
    ((pairLines snapshotData).map fun p => .put p.1 (.raw p.2)) ++
    [.put lastAppliedKey (.num lastIndex), .put snapshotIndexKey (.num lastIndex),
      .put snapshotTermKey (.num lastTerm)]]

lemma perform_saveHardStateWrites {t v : ℤ} :
    s.perform (saveHardStateWrites t v) = s.saveHardState t v := rfl

lemma perform_appendLogWrites : (s.perform (appendLogWrites e)).db = (s.appendLog e).db := rfl

lemma perform_deleteWrites (is : List ℤ) :
    (s.perform (deleteWrites is)).db =
      is.foldl (fun db i => db.delete (formatLogKey i)) s.db := by
  rw [perform, deleteWrites, List.foldl_map]
  rfl

lemma perform_truncateLogWrites :
    (s.perform (s.truncateLogWrites c)).db = (s.truncateLog c).db := by
  rw [truncateLogWrites, perform_append, perform]
  dsimp only
  rw [perform_deleteWrites]
  rfl

lemma perform_compactLogWrites : (s.perform (compactLogWrites c)).db = (s.compactLog c).db :=
  perform_deleteWrites _

lemma perform_applySnapshotWrites {data : Bytes} {lastIndex lastTerm : ℤ} :
    s.perform (s.applySnapshotWrites data lastIndex lastTerm) =
      s.applySnapshot data lastIndex lastTerm := rfl

lemma length_deleteWrites (is : List ℤ) : (deleteWrites is).length = is.length :=
  List.length_map _

lemma length_loopRange (lo hi : ℤ) : (loopRange lo hi).length = (hi - lo + 1).toNat := by
  simp [loopRange]

/-! ## Deletions under way -/

lemma get_perform_deleteWrites (is : List ℤ) (key : Bytes) :
    (s.perform (deleteWrites is)).db.get key =
      if key ∈ is.map formatLogKey then none else s.db.get key := by
  rw [perform_deleteWrites, KVMapLog.get_foldl_delete]

lemma entry?_perform_deleteWrites (is : List ℤ) :
    entry? (s.perform (deleteWrites is)) i = if i ∈ is then none else s.entry? i := by
  have hmem : formatLogKey i ∈ is.map formatLogKey ↔ i ∈ is :=
    List.mem_map_of_injective formatLogKey_injective
  by_cases h : i ∈ is
  · rw [if_pos h, entry?, get_perform_deleteWrites, if_pos (hmem.mpr h)]
    rfl
  · rw [if_neg h]
    refine entry?_congr ?_
    rw [get_perform_deleteWrites, if_neg (mt hmem.mp h)]

lemma get_perform_deleteWrites_of_head {is : List ℤ} {key : Bytes} (hkey : key.head? ≠ some 108) :
    (s.perform (deleteWrites is)).db.get key = s.db.get key := by
  rw [get_perform_deleteWrites, if_neg]
  intro h
  obtain ⟨j, -, rfl⟩ := List.mem_map.mp h
  exact hkey (head_formatLogKey j)

lemma storedLastLogIndex_perform_deleteWrites {is : List ℤ} :
    (s.perform (deleteWrites is)).storedLastLogIndex = s.storedLastLogIndex :=
  storedLastLogIndex_congr (get_perform_deleteWrites_of_head (by simp))

lemma getLastAppliedIndex_perform_deleteWrites {is : List ℤ} :
    (s.perform (deleteWrites is)).getLastAppliedIndex = s.getLastAppliedIndex :=
  getLastAppliedIndex_congr (get_perform_deleteWrites_of_head (by simp))

/-! ## Usable logs -/

/-- There is an entry at the index, and it is of that index. -/
def Holds (s : RocksDBStore) (i : ℤ) : Prop := ∃ e, s.entry? i = some e ∧ e.index = i

/-- There is an entry at the index, and it has a term. -/
def HasTerm (s : RocksDBStore) (i : ℤ) : Prop := ∃ e, s.entry? i = some e ∧ e.term ≠ 0

/-- Every entry that is not applied yet is there. -/
def Complete (s : RocksDBStore) : Prop :=
  ∀ i, s.getLastAppliedIndex < i → i ≤ s.storedLastLogIndex → s.Holds i

/-- **A node can go on from the store**: the entries that are not applied yet are there, and the
last entry has a term. -/
def Usable (s : RocksDBStore) : Prop :=
  s.Complete ∧ (0 < s.storedLastLogIndex → s.HasTerm s.storedLastLogIndex)

/-- Only the entries and the two indices matter. -/
lemma usable_of_same (hentry : ∀ i, s'.entry? i = s.entry? i)
    (hlast : s'.storedLastLogIndex = s.storedLastLogIndex)
    (happlied : s'.getLastAppliedIndex = s.getLastAppliedIndex) : s'.Usable ↔ s.Usable := by
  simp only [Usable, Complete, Holds, HasTerm, hentry, hlast, happlied]

lemma usable_congr (h : s'.db = s.db) : s'.Usable ↔ s.Usable :=
  usable_of_same (fun _ => entry?_of_db h) (storedLastLogIndex_of_db h)
    (getLastAppliedIndex_congr (by rw [h]))

/-- Appending the next entry makes a log usable, even one whose last entry had no term. -/
lemma Complete.appendLog (h : s.Complete) (hindex : e.index = s.storedLastLogIndex + 1)
    (hterm : e.term ≠ 0) : (s.appendLog e).Usable := by
  constructor
  · intro i hlo hhi
    rw [getLastAppliedIndex_appendLog] at hlo
    rw [storedLastLogIndex_appendLog] at hhi
    by_cases hi : i = e.index
    · exact ⟨e, by rw [entry?_appendLog, if_pos hi], hi.symm⟩
    · obtain ⟨x, hx, hxi⟩ := h i hlo (by omega)
      exact ⟨x, by rw [entry?_appendLog, if_neg hi, hx], hxi⟩
  · intro _
    rw [storedLastLogIndex_appendLog]
    exact ⟨e, by rw [entry?_appendLog, if_pos rfl], hterm⟩

/-! ## Cutting the log -/

/-- After `k` deletions, the first at index `c`, an entry is missing that the log still claims to
have: one that is not applied yet, or the last one. -/
def Torn (s : RocksDBStore) (c : ℤ) (k : ℕ) : Prop :=
  1 ≤ k ∧ c + k - 1 ≤ s.storedLastLogIndex ∧
    (s.getLastAppliedIndex < c + k - 1 ∨
      0 < s.storedLastLogIndex ∧ c + k - 1 = s.storedLastLogIndex)

/-- `truncateLog`, cut short after `k` writes, has torn the log, or it has come to its end and the
log then ends where there is no entry. -/
def BadCut (s : RocksDBStore) (c : ℤ) (k : ℕ) : Prop :=
  s.Torn c k ∨ k = (s.truncateLogWrites c).length ∧ 1 < c ∧ ¬ s.HasTerm (c - 1)

lemma length_truncateLogWrites (hcache : s.lastLogIndexCache = s.storedLastLogIndex) :
    (s.truncateLogWrites c).length = (s.storedLastLogIndex - c + 1).toNat + 1 := by
  rw [truncateLogWrites, List.length_append, length_deleteWrites, length_loopRange, hcache,
    List.length_singleton]

lemma BadCut.le_length (h : s.BadCut c k) (hcache : s.lastLogIndexCache = s.storedLastLogIndex) :
    k ≤ (s.truncateLogWrites c).length := by
  rcases h with ⟨-, hle, -⟩ | ⟨hk, -, -⟩
  · rw [length_truncateLogWrites hcache]
    omega
  · exact hk.le

/-- Deleting entries of a usable log from index `c` on, up to the last one. -/
lemma usable_deleting_iff (h : s.Usable) (hk : k ≤ (loopRange c s.storedLastLogIndex).length) :
    (s.perform (deleteWrites ((loopRange c s.storedLastLogIndex).take k))).Usable ↔
      ¬ s.Torn c k := by
  rw [length_loopRange] at hk
  have hentry : ∀ i, entry? (s.perform (deleteWrites
      ((loopRange c s.storedLastLogIndex).take k))) i =
        if c ≤ i ∧ i ≤ s.storedLastLogIndex ∧ i < c + k then none else s.entry? i := by
    intro i
    rw [entry?_perform_deleteWrites]
    simp only [mem_take_loopRange]
  have hlost : ∀ i, c ≤ i → i ≤ s.storedLastLogIndex → i < c + k →
      entry? (s.perform (deleteWrites ((loopRange c s.storedLastLogIndex).take k))) i = none :=
    fun i hlo hhi hlt => by rw [hentry, if_pos ⟨hlo, hhi, hlt⟩]
  unfold Usable Complete
  rw [storedLastLogIndex_perform_deleteWrites, getLastAppliedIndex_perform_deleteWrites]
  constructor
  · rintro ⟨hholds, hterm⟩ ⟨hpos, hle, happlied | ⟨hlastpos, hlast⟩⟩
    · obtain ⟨x, hx, -⟩ := hholds (c + k - 1) happlied hle
      rw [hlost _ (by omega) hle (by omega)] at hx
      cases hx
    · obtain ⟨x, hx, -⟩ := hterm hlastpos
      rw [hlost _ (by omega) le_rfl (by omega)] at hx
      cases hx
  · intro htorn
    have hkept : ∀ i, i ≤ s.storedLastLogIndex →
        s.getLastAppliedIndex < i ∨ 0 < i ∧ i = s.storedLastLogIndex →
          entry? (s.perform (deleteWrites ((loopRange c s.storedLastLogIndex).take k))) i =
            s.entry? i := by
      intro i hle hi
      rw [hentry, if_neg]
      rintro ⟨hlo, hhi, hlt⟩
      refine htorn ⟨by omega, by omega, ?_⟩
      rcases hi with happlied | ⟨hpos, hlast⟩
      · exact .inl (by omega)
      · exact .inr ⟨by omega, by omega⟩
    refine ⟨fun i hlo hhi => ?_, fun hpos => ?_⟩
    · obtain ⟨x, hx, hxi⟩ := h.1 i hlo hhi
      exact ⟨x, (hkept i hhi (.inl hlo)).trans hx, hxi⟩
    · obtain ⟨x, hx, hxt⟩ := h.2 hpos
      exact ⟨x, (hkept _ le_rfl (.inr ⟨hpos, rfl⟩)).trans hx, hxt⟩

lemma entry?_truncateLog_below (hi : i < c) : entry? (s.truncateLog c) i = s.entry? i := by
  rw [entry?_truncateLog, if_neg (by omega)]

lemma Complete.truncateLog (h : s.Complete)
    (hcut : c ≤ s.storedLastLogIndex + 1 ∨ c ≤ s.getLastAppliedIndex + 1) :
    (s.truncateLog c).Complete := by
  intro i hlo hhi
  rw [getLastAppliedIndex_truncateLog] at hlo
  rw [storedLastLogIndex_truncateLog] at hhi
  obtain ⟨x, hx, hxi⟩ := h i hlo (by omega)
  exact ⟨x, (entry?_truncateLog_below (by omega)).trans hx, hxi⟩

/-- The log after it has been cut at `c`: it is usable when it then ends in an entry. -/
lemma usable_truncateLog_iff (h : s.Complete)
    (hcut : c ≤ s.storedLastLogIndex + 1 ∨ c ≤ s.getLastAppliedIndex + 1 ∨
      1 < c ∧ ¬ s.HasTerm (c - 1)) :
    (s.truncateLog c).Usable ↔ (1 < c → s.HasTerm (c - 1)) := by
  have hlast : (s.truncateLog c).HasTerm (c - 1) ↔ s.HasTerm (c - 1) := by
    rw [HasTerm, HasTerm, entry?_truncateLog_below (by omega)]
  unfold Usable
  rw [storedLastLogIndex_truncateLog, hlast]
  constructor
  · rintro ⟨-, hterm⟩ hpos
    exact hterm (by omega)
  · intro hprev
    refine ⟨h.truncateLog ?_, fun hpos => hprev (by omega)⟩
    rcases hcut with hcut | hcut | ⟨hpos, hnot⟩
    · exact .inl hcut
    · exact .inr hcut
    · exact absurd (hprev hpos) hnot

/-- **`truncateLog` cut short after `k` writes** leaves a usable log exactly when it was no bad
cut. -/
theorem usable_truncating_iff (h : s.Usable) (hcache : s.lastLogIndexCache = s.storedLastLogIndex)
    (hcut : c ≤ s.storedLastLogIndex + 1 ∨ c ≤ s.getLastAppliedIndex + 1 ∨
      1 < c ∧ ¬ s.HasTerm (c - 1))
    (hk : k ≤ (s.truncateLogWrites c).length) :
    (s.perform ((s.truncateLogWrites c).take k)).Usable ↔ ¬ s.BadCut c k := by
  have hlen : (s.truncateLogWrites c).length =
      (loopRange c s.storedLastLogIndex).length + 1 := by
    rw [length_truncateLogWrites hcache, length_loopRange]
  unfold BadCut
  rcases hk.lt_or_eq with hlt | rfl
  · have htake : (s.truncateLogWrites c).take k =
        deleteWrites ((loopRange c s.storedLastLogIndex).take k) := by
      rw [truncateLogWrites, hcache, List.take_append_of_le_length, deleteWrites, deleteWrites,
        List.map_take]
      rw [length_deleteWrites]
      omega
    rw [htake, usable_deleting_iff h (by omega)]
    simp [hlt.ne]
  · have htorn : ¬ s.Torn c (s.truncateLogWrites c).length := by
      rintro ⟨-, hle, -⟩
      rw [hlen, length_loopRange] at hle
      push_cast at hle
      omega
    rw [List.take_length, usable_congr perform_truncateLogWrites,
      usable_truncateLog_iff h.1 hcut]
    simp [htorn]

end RaftConsensus.RocksDBStore
