import RaftConsensus.Cluster.ElectionView
import RaftConsensus.Storage.Entries

/-!
# What the append loop does, on any log

The loop of `handleAppendEntries` skips the sent entries that are in place, cuts the log at the
first one that is not, and appends from there on.  `appendLoop_eq` says so for every node, whatever
its store holds: `firstNew` is the number of entries that are skipped, and `replaceFrom` is the cut
with the appends.

`LogFrom c` says that a node holds a given list as its log, of which the entries up to index `c`
have been compacted away; with `c = 0` nothing is missing.  Under it a replacement is one on lists
(`LogFrom.replaceFrom`).
-/

namespace RaftConsensus

variable {n : RaftNode} {s : RocksDBStore} {l es : List LogEntry} {e : LogEntry} {prev i c : ℤ}
  {k : ℕ}

namespace RaftNode

/-! ## The loop -/

/-- The log reaches to the index, and its entry there has the same term. -/
def InPlace (n : RaftNode) (i : ℤ) (e : LogEntry) : Prop :=
  i ≤ n.lastLogIndex ∧ (n.storage.getLogEntry i).term = e.term

/-- How many of the sent entries, from index `prev + 1` on, are skipped: up to the first one that
is beyond the log or has another term than the entry there. -/
def firstNew (n : RaftNode) (prev : ℤ) : List LogEntry → ℕ
  | [] => 0
  | e :: es =>
      if prev + 1 ≤ n.lastLogIndex ∧ (n.storage.getLogEntry (prev + 1)).term = e.term then
        n.firstNew (prev + 1) es + 1
      else 0

/-- The log is cut at index `i` and continued by `es`. -/
def replaceFrom (n : RaftNode) (i : ℤ) (es : List LogEntry) : RaftNode :=
  { n with
    storage := es.foldl RocksDBStore.appendLog
      (if i ≤ n.lastLogIndex then n.storage.truncateLog i else n.storage)
    lastLogIndex := i - 1 + es.length
    lastLogTerm := es.getLast?.elim n.lastLogTerm LogEntry.term }

/-- At the end of the log every entry is appended. -/
lemma appendLoop_end :
    ∀ {n : RaftNode} {prev : ℤ}, n.lastLogIndex = prev →
      n.appendLoop prev es =
        { n with
          storage := es.foldl RocksDBStore.appendLog n.storage
          lastLogIndex := prev + es.length
          lastLogTerm := es.getLast?.elim n.lastLogTerm LogEntry.term } := by
  induction es with
  | nil =>
      rintro n prev rfl
      simp [appendLoop]
  | cons e es ih =>
      rintro n prev rfl
      have happend : n.appendEntry (n.lastLogIndex + 1) e =
          { n with
            storage := n.storage.appendLog e
            lastLogIndex := n.lastLogIndex + 1
            lastLogTerm := e.term } := by
        simp [appendEntry]
      rw [appendLoop, happend, ih rfl]
      congr 1
      · push_cast [List.length_cons]
        ring
      · cases es <;> simp [List.getLast?_cons]

/-- **The append loop.**  Nothing changes when all entries are in place; otherwise the log is
replaced from the first one that is not. -/
theorem appendLoop_eq (es : List LogEntry) : ∀ (n : RaftNode) (prev : ℤ),
    n.appendLoop prev es =
      if n.firstNew prev es = es.length then n
      else n.replaceFrom (prev + 1 + n.firstNew prev es) (es.drop (n.firstNew prev es)) := by
  induction es with
  | nil =>
      intro n prev
      simp [appendLoop, firstNew]
  | cons e es ih =>
      intro n prev
      rw [appendLoop]
      by_cases hplace : prev + 1 ≤ n.lastLogIndex ∧
          (n.storage.getLogEntry (prev + 1)).term = e.term
      · have hskip : n.appendEntry (prev + 1) e = n := by
          simp [appendEntry, hplace.1, hplace.2]
        have hfirst : n.firstNew prev (e :: es) = n.firstNew (prev + 1) es + 1 := by
          rw [firstNew, if_pos hplace]
        have hindex : prev + 1 + ((n.firstNew (prev + 1) es + 1 : ℕ) : ℤ) =
            prev + 1 + 1 + n.firstNew (prev + 1) es := by
          push_cast
          ring
        rw [hskip, ih, hfirst, hindex]
        simp
      · have hfirst : n.firstNew prev (e :: es) = 0 := by rw [firstNew, if_neg hplace]
        have hwrite : n.appendEntry (prev + 1) e =
            { n with
              storage := (if prev + 1 ≤ n.lastLogIndex then n.storage.truncateLog (prev + 1)
                else n.storage).appendLog e
              lastLogIndex := prev + 1
              lastLogTerm := e.term } := by
          unfold appendEntry
          by_cases hle : prev + 1 ≤ n.lastLogIndex
          · have hterm : (n.storage.getLogEntry (prev + 1)).term ≠ e.term := fun h =>
              hplace ⟨hle, h⟩
            simp [hle, hterm]
          · simp [hle]
        have hsome : ¬ 0 = (e :: es).length := by simp
        rw [hwrite, appendLoop_end rfl, hfirst, if_neg hsome]
        simp only [replaceFrom, Nat.cast_zero, add_zero, List.drop_zero, List.foldl_cons]
        congr 1
        · push_cast [List.length_cons]
          ring
        · cases es <;> simp [List.getLast?_cons]

/-! ## The entries that are skipped -/

lemma firstNew_le (es : List LogEntry) : ∀ (n : RaftNode) (prev : ℤ),
    n.firstNew prev es ≤ es.length := by
  induction es with
  | nil => simp [firstNew]
  | cons e es ih =>
      intro n prev
      rw [firstNew]
      split
      · simpa using ih n (prev + 1)
      · simp

/-- The skipped entries are in place. -/
lemma inPlace_of_lt_firstNew (es : List LogEntry) :
    ∀ {prev : ℤ} {k : ℕ} {e : LogEntry}, k < n.firstNew prev es → es[k]? = some e →
      n.InPlace (prev + 1 + k) e := by
  induction es with
  | nil => simp
  | cons x es ih =>
      intro prev k e hk he
      rw [firstNew] at hk
      split at hk
      · rename_i hplace
        cases k with
        | zero =>
            obtain rfl : x = e := by simpa using he
            simpa [InPlace] using hplace
        | succ k =>
            have hk' : k < n.firstNew (prev + 1) es := by omega
            have h := ih hk' (by simpa using he)
            have hindex : prev + 1 + 1 + (k : ℤ) = prev + 1 + ((k + 1 : ℕ) : ℤ) := by
              push_cast
              ring
            rwa [hindex] at h
      · omega

/-- The first entry that is not skipped is beyond the log or differs. -/
lemma not_inPlace_firstNew (es : List LogEntry) :
    ∀ {prev : ℤ} {e : LogEntry}, es[n.firstNew prev es]? = some e →
      ¬ n.InPlace (prev + 1 + n.firstNew prev es) e := by
  induction es with
  | nil => simp
  | cons x es ih =>
      intro prev e he
      by_cases hplace : prev + 1 ≤ n.lastLogIndex ∧
          (n.storage.getLogEntry (prev + 1)).term = x.term
      · have hfirst : n.firstNew prev (x :: es) = n.firstNew (prev + 1) es + 1 := by
          rw [firstNew, if_pos hplace]
        rw [hfirst] at he ⊢
        have h := ih (by simpa using he)
        have hindex : prev + 1 + 1 + (n.firstNew (prev + 1) es : ℤ) =
            prev + 1 + ((n.firstNew (prev + 1) es + 1 : ℕ) : ℤ) := by
          push_cast
          ring
        rwa [hindex] at h
      · have hfirst : n.firstNew prev (x :: es) = 0 := by rw [firstNew, if_neg hplace]
        rw [hfirst] at he ⊢
        obtain rfl : x = e := by simpa using he
        simpa [InPlace] using hplace

/-- What the loop has found: all entries are in place and nothing happens, or there is a first one
that is not, and the log is replaced from it on. -/
lemma appendLoop_cases (n : RaftNode) (prev : ℤ) (es : List LogEntry) :
    (∀ (k : ℕ) (e : LogEntry), es[k]? = some e → n.InPlace (prev + 1 + k) e) ∧
        n.appendLoop prev es = n ∨
      ∃ (d : ℕ) (e : LogEntry), es[d]? = some e ∧ ¬ n.InPlace (prev + 1 + d) e ∧
        (∀ (k : ℕ) (x : LogEntry), k < d → es[k]? = some x → n.InPlace (prev + 1 + k) x) ∧
        n.appendLoop prev es = n.replaceFrom (prev + 1 + d) (es.drop d) := by
  rw [appendLoop_eq]
  by_cases hall : n.firstNew prev es = es.length
  · refine .inl ⟨fun k e he => inPlace_of_lt_firstNew es ?_ he, if_pos hall⟩
    rw [hall]
    exact (List.getElem?_eq_some_iff.mp he).1
  · have hlt : n.firstNew prev es < es.length := lt_of_le_of_ne (firstNew_le es n prev) hall
    have he : es[n.firstNew prev es]? = some es[n.firstNew prev es] :=
      List.getElem?_eq_getElem hlt
    exact .inr ⟨_, _, he, not_inPlace_firstNew es he,
      fun k x hk hx => inPlace_of_lt_firstNew es hk hx, if_neg hall⟩

/-- Where the log ends after the loop. -/
lemma lastLogIndex_replaceFrom (n : RaftNode) (prev : ℤ) {d : ℕ} (hd : d ≤ es.length) :
    (n.replaceFrom (prev + 1 + d) (es.drop d)).lastLogIndex = prev + es.length := by
  simp only [replaceFrom, List.length_drop]
  push_cast [hd]
  ring

end RaftNode

/-! ## Steps that do not concern the log -/

/-- The log, and how much of it is committed and applied, is left alone. -/
structure RaftNode.LogStill (n n' : RaftNode) : Prop where
  commitIndex : n'.commitIndex = n.commitIndex
  lastApplied : n'.lastApplied = n.lastApplied
  lastLogIndex : n'.lastLogIndex = n.lastLogIndex
  lastLogTerm : n'.lastLogTerm = n.lastLogTerm
  cache : n'.storage.lastLogIndexCache = n.storage.lastLogIndexCache
  entry : ∀ i, n'.storage.entry? i = n.storage.entry? i

namespace RaftNode

lemma LogStill.refl (n : RaftNode) : n.LogStill n := ⟨rfl, rfl, rfl, rfl, rfl, fun _ => rfl⟩

lemma logStill_becomeFollower (n : RaftNode) (t : ℤ) : n.LogStill (n.becomeFollower t) :=
  ⟨rfl, rfl, rfl, rfl, rfl, fun _ => RocksDBStore.entry?_saveHardState⟩

lemma logStill_seeTerm (n : RaftNode) (t : ℤ) : n.LogStill (n.seeTerm t) := by
  unfold seeTerm
  split
  · exact logStill_becomeFollower n t
  · exact .refl n

lemma logStill_acceptLeader (n : RaftNode) (t l : ℤ) : n.LogStill (n.acceptLeader t l) := by
  unfold acceptLeader
  dsimp only
  split
  · exact ⟨rfl, rfl, rfl, rfl, rfl, fun _ => RocksDBStore.entry?_saveHardState⟩
  · split
    · exact ⟨rfl, rfl, rfl, rfl, rfl, fun _ => RocksDBStore.entry?_saveHardState⟩
    · exact ⟨rfl, rfl, rfl, rfl, rfl, fun _ => rfl⟩

end RaftNode

/-! ## Logs with their beginning compacted away -/

/-- The log of the store is `l`, of which the entries up to index `c` are missing. -/
structure RocksDBStore.LogFrom (c : ℤ) (s : RocksDBStore) (l : List LogEntry) : Prop where
  cache : s.lastLogIndexCache = l.length
  entry : ∀ i, 1 ≤ i → s.entry? i = if i ≤ c then none else entryAt l i

namespace RocksDBStore.LogFrom

lemma appendLog (h : s.LogFrom c l) (hc : c ≤ l.length) (he : e.index = l.length + 1) :
    (s.appendLog e).LogFrom c (l ++ [e]) where
  cache := by
    rw [lastLogIndexCache_appendLog, he]
    simp
  entry i hi := by
    rw [entry?_appendLog, he, h.entry i hi]
    by_cases hend : i = l.length + 1
    · have hbeyond : ¬ i ≤ c := by omega
      rw [if_pos hend, if_neg hbeyond, hend, entryAt_succ]
      simp
    · rw [if_neg hend]
      split
      · rfl
      · -- the new entry is at no other index
        obtain ⟨k, rfl⟩ : ∃ k : ℕ, i = k + 1 := ⟨(i - 1).toNat, by omega⟩
        rw [entryAt_succ, entryAt_succ, List.getElem?_append]
        split
        · rfl
        · rw [List.getElem?_eq_none (by omega), List.getElem?_eq_none]
          simp only [List.length_cons, List.length_nil]
          omega

lemma appendAll (es : List LogEntry) :
    ∀ {s : RocksDBStore} {l : List LogEntry}, s.LogFrom c l → c ≤ l.length →
      (∀ (k : ℕ) (e : LogEntry), es[k]? = some e → e.index = l.length + 1 + k) →
      (es.foldl RocksDBStore.appendLog s).LogFrom c (l ++ es) := by
  induction es with
  | nil =>
      intro s l h _ _
      simpa using h
  | cons e es ih =>
      intro s l h hc hindex
      have he : e.index = l.length + 1 := by simpa using hindex 0 e (by simp)
      have hsplit : l ++ e :: es = (l ++ [e]) ++ es := by simp
      rw [List.foldl_cons, hsplit]
      refine ih (h.appendLog hc he) (by simp; omega) fun k x hx => ?_
      rw [hindex (k + 1) x (by simpa using hx)]
      push_cast [List.length_append, List.length_singleton]
      ring

/-- A cut keeps what is before it; if that has all been compacted, nothing is left. -/
lemma truncateLog (h : s.LogFrom c l) (hk : k ≤ l.length) :
    (s.truncateLog (k + 1)).LogFrom (min c k) (l.take k) where
  cache := by
    rw [lastLogIndexCache_truncateLog, List.length_take, min_eq_left hk]
    omega
  entry i hi := by
    obtain ⟨j, rfl⟩ : ∃ j : ℕ, i = j + 1 := ⟨(i - 1).toNat, by omega⟩
    rw [entry?_truncateLog, h.cache, h.entry _ hi, entryAt_succ, entryAt_succ]
    by_cases hjk : j < k
    · have hkept : ¬ ((k : ℤ) + 1 ≤ j + 1 ∧ (j : ℤ) + 1 ≤ l.length) := by omega
      have hmin : (j : ℤ) + 1 ≤ min c k ↔ (j : ℤ) + 1 ≤ c := by omega
      rw [if_neg hkept, List.getElem?_take_of_lt hjk]
      simp only [hmin]
    · have hgone : (l.take k)[j]? = none := by
        rw [List.getElem?_eq_none]
        simp
        omega
      rw [hgone, ite_self]
      split
      · rfl
      · have hbeyond : l[j]? = none := List.getElem?_eq_none (by omega)
        rw [hbeyond, ite_self]

/-- Compaction moves the beginning of what is stored. -/
lemma compactLog (h : s.LogFrom c l) (j : ℤ) : (s.compactLog j).LogFrom (max c j) l where
  cache := h.cache
  entry i hi := by
    have hgone : i ≤ max c j ↔ i ≤ c ∨ i ≤ j := le_max_iff
    rw [entry?_compactLog, h.entry i hi]
    simp only [hgone]
    by_cases hj : i ≤ j
    · rw [if_pos ⟨by omega, hj⟩, if_pos (.inr hj)]
    · simp [hj]

end RocksDBStore.LogFrom

/-- The node holds the log `l`, of which the entries up to index `c` have been compacted away. -/
structure RaftNode.LogFrom (c : ℤ) (n : RaftNode) (l : List LogEntry) : Prop where
  storage : n.storage.LogFrom c l
  lastLogIndex : n.lastLogIndex = l.length
  lastLogTerm : n.lastLogTerm = lastTerm l

/-- A log as it is before any compaction. -/
lemma RaftNode.HasLog.logFrom (h : n.HasLog l) : n.LogFrom 0 l where
  storage := ⟨h.storage.cache, fun i hi => by rw [h.storage.entry?, if_neg (by omega)]⟩
  lastLogIndex := h.lastLogIndex
  lastLogTerm := h.lastLogTerm

namespace RaftNode.LogFrom

lemma still {n' : RaftNode} (h : n.LogFrom c l) (hstill : n.LogStill n') : n'.LogFrom c l where
  storage :=
    ⟨hstill.cache.trans h.storage.cache, fun i hi => (hstill.entry i).trans (h.storage.entry i hi)⟩
  lastLogIndex := hstill.lastLogIndex.trans h.lastLogIndex
  lastLogTerm := hstill.lastLogTerm.trans h.lastLogTerm

/-- A replacement keeps the log before it and continues it by the sent entries. -/
lemma replaceFrom (h : n.LogFrom c l) (hc : c ≤ l.length) (hk : k ≤ l.length) (hes : es ≠ [])
    (hindex : ∀ (j : ℕ) (e : LogEntry), es[j]? = some e → e.index = k + 1 + j) :
    (n.replaceFrom (k + 1) es).LogFrom (min c k) (l.take k ++ es) where
  storage := by
    have hlen : (l.take k).length = k := by rw [List.length_take, min_eq_left hk]
    have hcut : (if (k : ℤ) + 1 ≤ n.lastLogIndex then n.storage.truncateLog (k + 1)
        else n.storage).LogFrom (min c k) (l.take k) := by
      split
      · exact h.storage.truncateLog hk
      · rename_i hend
        -- the whole log is kept
        rw [h.lastLogIndex] at hend
        obtain rfl : k = l.length := by omega
        rw [List.take_length, min_eq_left hc]
        exact h.storage
    refine hcut.appendAll es (by rw [hlen]; exact min_le_right _ _) ?_
    rw [hlen]
    exact hindex
  lastLogIndex := by
    simp [RaftNode.replaceFrom, hk]
  lastLogTerm := by
    obtain ⟨r, e, rfl⟩ := (List.eq_nil_or_concat es).resolve_left hes
    rw [List.concat_eq_append, ← List.append_assoc, lastTerm_concat]
    simp [RaftNode.replaceFrom]

end RaftNode.LogFrom

end RaftConsensus
