import RaftConsensus.Storage.Genesis

/-!
# The state machine is a function of the log

What executing an entry does to the account and request records depends on these records only
(`SameRecords.execute`), and the other writes of the store leave them alone.  So the records of a
node are those of `executeAll`, applied to the entries it has executed.
-/

namespace RaftConsensus.RocksDBStore

open Bytes

variable {s s' s'' : RocksDBStore} {e : LogEntry} {k : Bytes}

/-- The stores have the same account and request records. -/
def SameRecords (s s' : RocksDBStore) : Prop :=
  ∀ k, isRecordKey k = true → s.db.get k = s'.db.get k

/-- Executes a sequence of committed commands. -/
def executeAll (s : RocksDBStore) (es : List LogEntry) : RocksDBStore := es.foldl execute s

lemma executeAll_concat (es : List LogEntry) :
    s.executeAll (es ++ [e]) = (s.executeAll es).execute e := by
  rw [executeAll, List.foldl_append]
  rfl

namespace SameRecords

lemma refl (s : RocksDBStore) : SameRecords s s := fun _ _ => rfl

lemma symm (h : SameRecords s s') : SameRecords s' s := fun k hk => (h k hk).symm

lemma trans (h : SameRecords s s') (h' : SameRecords s' s'') : SameRecords s s'' :=
  fun k hk => (h k hk).trans (h' k hk)

lemma getBalance (h : SameRecords s s') (id : Bytes) : s.getBalance id = s'.getBalance id := by
  have hkey : isRecordKey (acctKey id) = true := by
    rw [isRecordKey, Bool.or_eq_true]
    exact .inl (List.isPrefixOf_iff_prefix.mpr (List.prefix_append _ _))
  rw [RocksDBStore.getBalance, RocksDBStore.getBalance, h _ hkey]

lemma outcome (h : SameRecords s s') (cmd : ClientRequest) : s.outcome cmd = s'.outcome cmd := by
  simp only [RocksDBStore.outcome, h.getBalance]

lemma applyTransaction (h : SameRecords s s') {a b : ℤ} {msg : Bytes} :
    SameRecords (s.applyTransaction e a b msg) (s'.applyTransaction e a b msg) := by
  intro k hk
  rw [get_applyTransaction, get_applyTransaction, h k hk]

/-- **Executing an entry is a function of the records.** -/
lemma execute (h : SameRecords s s') : SameRecords (s.execute e) (s'.execute e) := by
  unfold RocksDBStore.execute
  rw [h.outcome]
  exact h.applyTransaction

end SameRecords

/-! ## Writes that leave the records alone -/

/-- The first letter of a record key. -/
lemma head_of_record (hk : isRecordKey k = true) : k.head? = some 97 ∨ k.head? = some 114 := by
  rw [isRecordKey, Bool.or_eq_true, List.isPrefixOf_iff_prefix, List.isPrefixOf_iff_prefix] at hk
  rcases hk with ⟨t, rfl⟩ | ⟨t, rfl⟩
  · exact .inl rfl
  · exact .inr rfl

lemma ne_of_record {k' : Bytes} (hk : isRecordKey k = true) (h : k'.head? ≠ some 97)
    (h' : k'.head? ≠ some 114) : k ≠ k' := by
  rintro rfl
  rcases head_of_record hk with hh | hh
  · exact h hh
  · exact h' hh

lemma sameRecords_saveHardState {t v : ℤ} : SameRecords (s.saveHardState t v) s := by
  intro k hk
  rw [get_saveHardState, if_neg (ne_of_record hk (by simp) (by simp)),
    if_neg (ne_of_record hk (by simp) (by simp))]

lemma sameRecords_appendLog : SameRecords (s.appendLog e) s := by
  intro k hk
  rw [get_appendLog, if_neg (ne_of_record hk (by simp) (by simp)),
    if_neg (ne_of_record hk (by simp) (by simp))]

lemma sameRecords_truncateLog {i : ℤ} : SameRecords (s.truncateLog i) s := by
  intro k hk
  refine get_truncateLog_of_head ?_ (ne_of_record hk (by simp) (by simp))
  rcases head_of_record hk with h | h <;> simp [h]

lemma sameRecords_compactLog {i : ℤ} : SameRecords (s.compactLog i) s := by
  intro k hk
  refine get_compactLog_of_head ?_
  rcases head_of_record hk with h | h <;> simp [h]

lemma sameRecords_openDB : SameRecords (openDB s.db) s := fun _ _ => rfl

end RaftConsensus.RocksDBStore
