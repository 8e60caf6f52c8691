import RaftConsensus.Storage.Genesis

/-!
# Moving the state machine to another store

A snapshot is a text of alternating key and value lines, and `applySnapshot` pairs the lines it
reads.  So it carries a state machine over exactly when no key and no value of it contains a
newline byte (`snapshot_transfer_iff`): what is read back never contains one, and without them
every line is read back as it was written.

A stored `CommandResult` with a message starts with the byte `0x0A`, the tag of its first field,
which is a newline.  Hence no store that has executed a request can be moved
(`not_newlineFree_applyTransaction`).
-/

namespace RaftConsensus

open Bytes

namespace RocksDBStore

variable {s d : RocksDBStore} {data : Bytes} {lastIndex lastTerm : ℤ} {k : Bytes}

/-! ## Reading after `applySnapshot` -/

/-- The keys `applySnapshot` writes besides those of the dump. -/
def isSnapshotKey (k : Bytes) : Prop :=
  k = lastAppliedKey ∨ k = snapshotIndexKey ∨ k = snapshotTermKey

/-- The old records are removed and the dumped ones written. -/
def replaceRecords (s : RocksDBStore) (data : Bytes) : KVMap Bytes Value :=
  (s.db.write ((s.db.entries.filter fun p => isRecordKey p.1).map fun p => .delete p.1)).write
    ((pairLines data).map fun p => .put p.1 (.raw p.2))

lemma get_applySnapshot :
    (s.applySnapshot data lastIndex lastTerm).db.get k =
      if k = snapshotTermKey then some (.num lastTerm)
      else if k = snapshotIndexKey then some (.num lastIndex)
      else if k = lastAppliedKey then some (.num lastIndex)
      else (s.replaceRecords data).get k := by
  simp only [applySnapshot, KVMap.write_append, replaceRecords]
  rfl

lemma get_applySnapshot_of_ne (hk : ¬ isSnapshotKey k) :
    (s.applySnapshot data lastIndex lastTerm).db.get k = (s.replaceRecords data).get k := by
  rw [isSnapshotKey, not_or, not_or] at hk
  rw [get_applySnapshot, if_neg hk.2.2, if_neg hk.2.1, if_neg hk.1]

lemma not_isSnapshotKey_of_record (hk : isRecordKey k = true) : ¬ isSnapshotKey k := by
  rintro (rfl | rfl | rfl)
  · exact absurd hk (by decide)
  · exact absurd hk (by decide)
  · exact absurd hk (by decide)

/-- Removing the old records. -/
lemma get_deleteRecords :
    (s.db.write ((s.db.entries.filter fun p => isRecordKey p.1).map fun p => .delete p.1)).get k =
      if isRecordKey k = true then none else s.db.get k := by
  have hmap : ((s.db.entries.filter fun p => isRecordKey p.1).map fun p =>
      (KVMap.Op.delete p.1 : KVMap.Op Bytes Value)) =
        ((s.db.entries.filter fun p => isRecordKey p.1).map Prod.fst).map .delete := by
    rw [List.map_map]
    rfl
  rw [hmap, KVMap.get_write_map_delete]
  by_cases hk : isRecordKey k = true
  · rw [if_pos hk]
    split
    · rfl
    · rename_i hmem
      cases hget : s.db.get k with
      | none => rfl
      | some v =>
          refine absurd (List.mem_map.mpr ⟨(k, v), ?_, rfl⟩) hmem
          exact List.mem_filter.mpr ⟨(KVMap.mem_entries _).mpr hget, hk⟩
  · rw [if_neg hk, if_neg]
    rintro hmem
    obtain ⟨p, hp, rfl⟩ := List.mem_map.mp hmem
    exact hk (List.mem_filter.mp hp).2

/-- A record after `applySnapshot` is a pair of lines of the dump. -/
lemma mem_pairLines_of_get {v : Value} (hk : isRecordKey k = true)
    (h : (s.applySnapshot data lastIndex lastTerm).db.get k = some v) :
    (k, v.bytes) ∈ pairLines data := by
  rw [get_applySnapshot_of_ne (not_isSnapshotKey_of_record hk), replaceRecords] at h
  rcases KVMap.get_write_puts h with ⟨p, hp, rfl, rfl⟩ | h
  · exact hp
  · rw [get_deleteRecords, if_pos hk] at h
    cases h

/-- A key that is neither a record nor written by the snapshot stays. -/
lemma get_applySnapshot_of_notMem (hk : isRecordKey k = false) (hsys : ¬ isSnapshotKey k)
    (hdata : ∀ p ∈ pairLines data, p.1 ≠ k) :
    (s.applySnapshot data lastIndex lastTerm).db.get k = s.db.get k := by
  rw [get_applySnapshot_of_ne hsys, replaceRecords, KVMap.get_write_of_ne, get_deleteRecords,
    if_neg (by simp [hk])]
  rintro op hop
  obtain ⟨p, hp, rfl⟩ := List.mem_map.mp hop
  exact hdata p hp

/-! ## The transfer -/

/-- The records of a store, as `createSnapshot` dumps them. -/
def records (s : RocksDBStore) : List (Bytes × Bytes) :=
  (s.db.entries.filter fun p => isRecordKey p.1).map fun p => (p.1, p.2.bytes)

lemma mem_records {p : Bytes × Bytes} :
    p ∈ s.records ↔ isRecordKey p.1 = true ∧ (s.db.get p.1).map Value.bytes = some p.2 := by
  obtain ⟨k, b⟩ := p
  simp only [records, List.mem_map, List.mem_filter, KVMap.mem_entries, Prod.mk.injEq,
    Option.map_eq_some_iff, Prod.exists]
  constructor
  · rintro ⟨k', v, ⟨hget, hk⟩, rfl, rfl⟩
    exact ⟨hk, v, hget, rfl⟩
  · rintro ⟨hk, v, hget, rfl⟩
    exact ⟨k, v, ⟨hget, hk⟩, rfl, rfl⟩

lemma nodup_keys_records : (s.records.map Prod.fst).Nodup := by
  have hsub : (s.records.map Prod.fst).Sublist (s.db.entries.map Prod.fst) := by
    rw [records, List.map_map]
    exact List.filter_sublist.map _
  exact hsub.nodup s.db.nodup_keys_entries

/-- **A successful transfer**: afterwards the records of `d` are those of `s`, byte for byte, and
no other key of `d` has changed but the three that describe the snapshot. -/
structure Transferred (s d : RocksDBStore) (lastIndex lastTerm : ℤ) : Prop where
  records : ∀ k, isRecordKey k = true →
    ((d.applySnapshot s.createSnapshot.data lastIndex lastTerm).db.get k).map Value.bytes =
      (s.db.get k).map Value.bytes
  others : ∀ k, isRecordKey k = false → ¬ isSnapshotKey k →
    ((d.applySnapshot s.createSnapshot.data lastIndex lastTerm).db.get k).map Value.bytes =
      (d.db.get k).map Value.bytes

/-- No record of the store has a newline byte in its key or its value. -/
def NewlineFree (s : RocksDBStore) : Prop :=
  ∀ k v, isRecordKey k = true → s.db.get k = some v → newline ∉ k ∧ newline ∉ v.bytes

/-- What arrives has no newlines, so what was sent had none. -/
lemma Transferred.newlineFree (h : Transferred s d lastIndex lastTerm) : s.NewlineFree := by
  intro k v hk hget
  have hrec := h.records k hk
  rw [hget, Option.map_some, Option.map_eq_some_iff] at hrec
  obtain ⟨w, hw, hbytes⟩ := hrec
  have hmem := newline_notMem_pairLines (mem_pairLines_of_get hk hw)
  rwa [hbytes] at hmem

/-- Without newlines every record arrives. -/
lemma transferred_of_newlineFree (h : s.NewlineFree) : Transferred s d lastIndex lastTerm := by
  have hlines : pairLines s.createSnapshot.data = s.records := by
    refine pairLines_dumpLines fun p hp => ?_
    obtain ⟨hk, hget⟩ := mem_records.mp hp
    obtain ⟨v, hv, hbytes⟩ := Option.map_eq_some_iff.mp hget
    rw [← hbytes]
    exact h p.1 v hk hv
  constructor
  · intro k hk
    rw [get_applySnapshot_of_ne (not_isSnapshotKey_of_record hk), replaceRecords, hlines]
    have hputs : (s.records.map fun p => (KVMap.Op.put p.1 (.raw p.2) : KVMap.Op Bytes Value)) =
        (s.records.map fun p => (p.1, Value.raw p.2)).map fun p => .put p.1 p.2 := by
      rw [List.map_map]
      rfl
    have hnodup : ((s.records.map fun p => (p.1, Value.raw p.2)).map Prod.fst).Nodup := by
      rw [List.map_map]
      exact nodup_keys_records
    ext b
    rw [hputs, Option.map_eq_some_iff]
    simp only [KVMap.get_write_map_put hnodup, get_deleteRecords, if_pos hk, reduceCtorEq,
      and_false, or_false, List.mem_map, Prod.mk.injEq, Prod.exists]
    constructor
    · rintro ⟨v, ⟨k', b', hmem, rfl, rfl⟩, rfl⟩
      exact (mem_records.mp hmem).2
    · intro hb
      exact ⟨.raw b, ⟨k, b, mem_records.mpr ⟨hk, hb⟩, rfl, rfl⟩, rfl⟩
  · intro k hk hsys
    rw [get_applySnapshot_of_notMem hk hsys]
    rintro p hp rfl
    rw [hlines] at hp
    rw [(mem_records.mp hp).1] at hk
    cases hk

/-- **A snapshot carries a state machine over exactly when no record contains a newline.** -/
theorem snapshot_transfer_iff (s d : RocksDBStore) (lastIndex lastTerm : ℤ) :
    Transferred s d lastIndex lastTerm ↔ s.NewlineFree :=
  ⟨Transferred.newlineFree, transferred_of_newlineFree⟩

/-! ## Executed requests -/

/-- A result with a message starts with a newline byte on the wire. -/
lemma newline_mem_serialize {r : CommandResult} (h : r.resultMessage ≠ []) :
    newline ∈ r.serialize := by
  have htag : Wire.varint (8 * 1 + 2) = [newline] := by decide
  rw [CommandResult.serialize, Wire.stringField, if_neg h, Wire.lenField, htag]
  simp

/-- **After a request has been executed with a message, the store cannot be moved.** -/
theorem not_newlineFree_applyTransaction {e : LogEntry} {a b : ℤ} {msg : Bytes} (h : msg ≠ []) :
    ¬ (s.applyTransaction e a b msg).NewlineFree := by
  intro hfree
  have hsys : reqKey e.command.requestId ≠ lastAppliedKey := ne_of_head (by simp)
  have hget : (s.applyTransaction e a b msg).db.get (reqKey e.command.requestId) =
      some (.result ⟨msg, e.index⟩) := by
    rw [get_applyTransaction, if_neg hsys, if_pos rfl]
  have hrecord : isRecordKey (reqKey e.command.requestId) = true := by
    have hprefix : (ascii "req:").isPrefixOf (reqKey e.command.requestId) = true :=
      List.isPrefixOf_iff_prefix.mpr (List.prefix_append _ _)
    simp [isRecordKey, hprefix]
  exact (hfree _ _ hrecord hget).2 (newline_mem_serialize h)

/-- A transfer of `50` from account `1` to account `2`. -/
def firstTransfer : LogEntry where
  term := 1
  index := 1
  command := ⟨ascii "r1", .transfer, ascii "1", ascii "2", 50⟩

/-- The first transfer on the genesis accounts is executed with new balances and a message; the
resulting store cannot be moved to a new node. -/
theorem first_transfer_not_transferred :
    ¬ Transferred (genesis.applyTransaction firstTransfer 99950 100050 (ascii "Success"))
      genesis 1 1 := by
  intro h
  exact not_newlineFree_applyTransaction (by decide) h.newlineFree

end RocksDBStore

end RaftConsensus
