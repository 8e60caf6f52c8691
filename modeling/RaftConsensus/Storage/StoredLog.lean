import RaftConsensus.Raft.Replication
import RaftConsensus.Storage.ReadWrite

/-!
# The log as a list

`HasLog` says that the store, and the RAM copies of its last index and term, hold exactly the
entries of a list, under the indices from `1` on.  Under it reading entries, the append loop and
the consistency check are operations on lists.
-/

namespace RaftConsensus

open Bytes

/-! ## Positions in a list -/

/-- The entry at a log index. -/
def entryAt (l : List LogEntry) (i : ℤ) : Option LogEntry :=
  if 1 ≤ i then l[(i - 1).toNat]? else none

/-- The term of the last entry, `0` for an empty log. -/
def lastTerm (l : List LogEntry) : ℤ := l.getLast?.elim 0 LogEntry.term

/-- The entries have the indices from `1` on, and terms from `1` on. -/
def Numbered (l : List LogEntry) : Prop :=
  ∀ (k : ℕ) (e : LogEntry), l[k]? = some e → e.index = k + 1 ∧ 1 ≤ e.term

section Positions

variable {l r : List LogEntry} {e : LogEntry} {i : ℤ} {k : ℕ}

@[simp] lemma entryAt_succ : entryAt l ((k : ℤ) + 1) = l[k]? := by
  rw [entryAt, if_pos (by omega)]
  congr 1
  omega

lemma entryAt_eq_some : entryAt l i = some e ↔ ∃ k : ℕ, i = k + 1 ∧ l[k]? = some e := by
  constructor
  · intro h
    unfold entryAt at h
    split at h
    · exact ⟨(i - 1).toNat, by omega, h⟩
    · cases h
  · rintro ⟨k, rfl, h⟩
    rwa [entryAt_succ]

lemma entryAt_eq_none (h : ∀ k : ℕ, k < l.length → i ≠ k + 1) : entryAt l i = none := by
  cases hi : entryAt l i with
  | none => rfl
  | some e =>
      obtain ⟨k, rfl, hk⟩ := entryAt_eq_some.mp hi
      exact absurd rfl (h k (List.getElem?_eq_some_iff.mp hk).1)

lemma entryAt_of_pos (h₁ : 1 ≤ i) (h₂ : i ≤ l.length) :
    ∃ e, entryAt l i = some e ∧ e ∈ l := by
  have hlt : (i - 1).toNat < l.length := by omega
  refine ⟨l[(i - 1).toNat], ?_, List.getElem_mem hlt⟩
  rw [entryAt, if_pos h₁, List.getElem?_eq_getElem hlt]

lemma entryAt_of_isPrefix (h : r <+: l) (he : entryAt r i = some e) : entryAt l i = some e := by
  obtain ⟨k, rfl, hk⟩ := entryAt_eq_some.mp he
  obtain ⟨t, rfl⟩ := h
  rw [entryAt_succ, List.getElem?_append_left (List.getElem?_eq_some_iff.mp hk).1, hk]

@[simp] lemma lastTerm_nil : lastTerm [] = 0 := rfl

@[simp] lemma lastTerm_concat : lastTerm (l ++ [e]) = e.term := by simp [lastTerm]

lemma lastTerm_take (hk : l[k]? = some e) : lastTerm (l.take (k + 1)) = e.term := by
  rw [List.take_add_one, hk]
  exact lastTerm_concat

lemma numbered_nil : Numbered [] := by simp [Numbered]

lemma Numbered.of_shorter (h : Numbered l) (hr : r <+: l) : Numbered r := by
  obtain ⟨t, rfl⟩ := hr
  intro k e hk
  refine h k e ?_
  rwa [List.getElem?_append_left (List.getElem?_eq_some_iff.mp hk).1]

lemma Numbered.concat (h : Numbered l) (hindex : e.index = l.length + 1) (hterm : 1 ≤ e.term) :
    Numbered (l ++ [e]) := by
  intro k x hk
  rcases lt_or_ge k l.length with hlt | hge
  · rw [List.getElem?_append_left hlt] at hk
    exact h k x hk
  · rw [List.getElem?_append_right hge, List.getElem?_singleton] at hk
    split at hk
    · obtain rfl := Option.some.inj hk
      exact ⟨by omega, hterm⟩
    · cases hk

lemma Numbered.one_le_term (h : Numbered l) (he : e ∈ l) : 1 ≤ e.term := by
  obtain ⟨k, hk⟩ := List.getElem?_of_mem he
  exact (h k e hk).2

/-- Entries at different places have different indices. -/
lemma Numbered.nodup (h : Numbered l) : l.Nodup := by
  rw [List.nodup_iff_getElem?_ne_getElem?]
  intro j k hjk hk heq
  have hget : l[k]? = some l[k] := List.getElem?_eq_getElem hk
  have hj := (h j l[k] (heq.trans hget)).1
  have hk' := (h k l[k] hget).1
  omega

end Positions

/-! ## The store -/

/-- The entry that is stored at an index, if there is one. -/
def RocksDBStore.entry? (s : RocksDBStore) (i : ℤ) : Option LogEntry :=
  (s.db.get (formatLogKey i)).map Value.parseEntry

/-- The log section of the store holds exactly the entries of `l`. -/
structure RocksDBStore.HasLog (s : RocksDBStore) (l : List LogEntry) : Prop where
  get : ∀ i, s.db.get (formatLogKey i) = (entryAt l i).map .entry
  cache : s.lastLogIndexCache = l.length

namespace RocksDBStore.HasLog

variable {s s' : RocksDBStore} {l : List LogEntry} {e : LogEntry} {i : ℤ} {k : ℕ}

lemma getLogEntry (h : s.HasLog l) (i : ℤ) : s.getLogEntry i = (entryAt l i).getD .empty := by
  rw [RocksDBStore.getLogEntry, h.get]
  cases entryAt l i <;> rfl

lemma entry? (h : s.HasLog l) (i : ℤ) : s.entry? i = entryAt l i := by
  rw [RocksDBStore.entry?, h.get]
  cases entryAt l i <;> rfl

lemma getLogEntry_of_getElem? (h : s.HasLog l) (hk : l[k]? = some e) :
    s.getLogEntry (k + 1) = e := by
  rw [h.getLogEntry, entryAt_succ, hk]
  rfl

/-- A range of the log is a slice of the list. -/
lemma map_loopRange (h : s.HasLog l) {hi : ℕ} (hhi : hi ≤ l.length) :
    (loopRange (k + 1) hi).map s.getLogEntry = (l.take hi).drop k := by
  have hlen : ((hi : ℤ) - (k + 1) + 1).toNat = hi - k := by omega
  refine List.ext_getElem? fun j => ?_
  rw [loopRange, hlen, List.map_map, List.getElem?_map, List.getElem?_drop]
  by_cases hj : j < hi - k
  · rw [List.getElem?_range hj, List.getElem?_take_of_lt (by omega)]
    have hget : l[k + j]? = some l[k + j] := List.getElem?_eq_getElem (by omega)
    have hindex : ((k : ℤ) + 1) + (j : ℤ) = ((k + j : ℕ) : ℤ) + 1 := by
      push_cast
      ring
    rw [hget, Option.map_some, Function.comp_apply, hindex, h.getLogEntry_of_getElem? hget]
  · rw [List.getElem?_eq_none (by simpa using hj), List.getElem?_eq_none]
    · rfl
    · rw [List.length_take]
      omega

/-- The term at a position is the last one of the log up to there; there is nothing at `0`. -/
lemma term_getLogEntry (h : s.HasLog l) (hk : k ≤ l.length) :
    (s.getLogEntry k).term = lastTerm (l.take k) := by
  cases k with
  | zero =>
      rw [h.getLogEntry, entryAt_eq_none (by omega)]
      rfl
  | succ k =>
      have hget : l[k]? = some l[k] := List.getElem?_eq_getElem hk
      rw [Nat.cast_succ, h.getLogEntry_of_getElem? hget, lastTerm_take hget]

lemma congr (h : s.HasLog l)
    (hget : ∀ i, s'.db.get (formatLogKey i) = s.db.get (formatLogKey i))
    (hcache : s'.lastLogIndexCache = s.lastLogIndexCache) : s'.HasLog l :=
  ⟨fun i => (hget i).trans (h.get i), hcache.trans h.cache⟩

lemma saveHardState (h : s.HasLog l) {t v : ℤ} : (s.saveHardState t v).HasLog l :=
  h.congr (fun _ => get_saveHardState_of_head (by simp)) rfl

lemma applyTransaction (h : s.HasLog l) {a b : ℤ} {msg : Bytes} :
    (s.applyTransaction e a b msg).HasLog l :=
  h.congr (fun _ => get_applyTransaction_of_head (by simp) (by simp) (ne_of_head (by simp))) rfl

lemma appendLog (h : s.HasLog l) (he : e.index = l.length + 1) :
    (s.appendLog e).HasLog (l ++ [e]) where
  get i := by
    have hsys : formatLogKey i ≠ lastLogIndexKey := ne_of_head (by simp)
    rw [get_appendLog, if_neg hsys, h.get]
    by_cases hi : i = e.index
    · rw [if_pos (congrArg formatLogKey hi), hi, he, entryAt_succ]
      simp
    · rw [if_neg (mt formatLogKey_inj.mp hi)]
      congr 1
      rw [entryAt, entryAt]
      split
      · rw [List.getElem?_append]
        split
        · rfl
        · rw [List.getElem?_eq_none (by omega), List.getElem?_eq_none]
          simp only [List.length_cons, List.length_nil]
          omega
      · rfl
  cache := by
    rw [lastLogIndexCache_appendLog, he]
    simp

lemma truncateLog (h : s.HasLog l) (hk : k ≤ l.length) :
    (s.truncateLog (k + 1)).HasLog (l.take k) where
  get i := by
    have hsys : formatLogKey i ≠ lastLogIndexKey := ne_of_head (by simp)
    have hmem : formatLogKey i ∈ (loopRange (k + 1) l.length).map formatLogKey ↔
        (k : ℤ) + 1 ≤ i ∧ i ≤ l.length := by
      rw [List.mem_map_of_injective formatLogKey_injective, mem_loopRange]
    rw [get_truncateLog, if_neg hsys, h.get, h.cache, entryAt, entryAt]
    by_cases hi : (k : ℤ) + 1 ≤ i ∧ i ≤ l.length
    · rw [if_pos (hmem.mpr hi), if_pos (by omega), List.getElem?_eq_none]
      · rfl
      · rw [List.length_take]
        omega
    · rw [if_neg (mt hmem.mp hi)]
      split
      · congr 1
        by_cases hlt : i ≤ k
        · rw [List.getElem?_take_of_lt (by omega)]
        · rw [List.getElem?_eq_none (by omega), List.getElem?_eq_none]
          rw [List.length_take]
          omega
      · rfl
  cache := by
    rw [lastLogIndexCache_truncateLog, List.length_take, min_eq_left hk]
    omega

end RocksDBStore.HasLog

/-! ## A node -/

/-- The node holds the log `l`, in its store and in the RAM copies of its end. -/
structure RaftNode.HasLog (n : RaftNode) (l : List LogEntry) : Prop where
  storage : n.storage.HasLog l
  lastLogIndex : n.lastLogIndex = l.length
  lastLogTerm : n.lastLogTerm = lastTerm l

namespace RaftNode.HasLog

variable {n : RaftNode} {l pre es : List LogEntry} {e : LogEntry} {k : ℕ}

lemma same {n' : RaftNode} (h : n.HasLog l) (hstorage : n'.storage = n.storage)
    (hindex : n'.lastLogIndex = n.lastLogIndex) (hterm : n'.lastLogTerm = n.lastLogTerm) :
    n'.HasLog l :=
  ⟨hstorage ▸ h.storage, hindex.trans h.lastLogIndex, hterm.trans h.lastLogTerm⟩

/-- A node holds one log. -/
lemma unique {r : List LogEntry} (h : n.HasLog l) (h' : n.HasLog r) : l = r := by
  refine List.ext_getElem? fun k => ?_
  rw [← entryAt_succ, ← entryAt_succ, ← h.storage.entry?, h'.storage.entry?]

/-- Appending at the end, or after cutting off the rest. -/
lemma replace (h : n.HasLog l) (hk : k ≤ l.length) (he : e.index = k + 1) :
    RaftNode.HasLog { n with
      storage := (n.storage.truncateLog (k + 1)).appendLog e
      lastLogIndex := k + 1
      lastLogTerm := e.term } (l.take k ++ [e]) where
  storage := (h.storage.truncateLog hk).appendLog (by
    rw [he, List.length_take, min_eq_left hk])
  lastLogIndex := by
    rw [List.length_append, List.length_take, min_eq_left hk]
    simp
  lastLogTerm := by simp

lemma append (h : n.HasLog l) (he : e.index = l.length + 1) :
    RaftNode.HasLog { n with
      storage := n.storage.appendLog e
      lastLogIndex := l.length + 1
      lastLogTerm := e.term } (l ++ [e]) where
  storage := h.storage.appendLog he
  lastLogIndex := by simp
  lastLogTerm := by simp

/-- The consistency check looks at the last term of the part of the log before the entries. -/
lemma consistentAt_iff (h : n.HasLog l) {args : AppendEntriesArgs}
    (hindex : args.prevLogIndex = pre.length) :
    n.consistentAt args ↔
      pre = [] ∨ pre.length ≤ l.length ∧ lastTerm (l.take pre.length) = args.prevLogTerm := by
  have hnil : pre = [] ↔ pre.length ≤ 0 := by rw [← List.length_eq_zero_iff, Nat.le_zero]
  unfold RaftNode.consistentAt
  rw [hindex, h.lastLogIndex, h.lastLogTerm, hnil]
  refine or_congr (by omega) ?_
  rw [Nat.cast_le]
  refine and_congr_right fun hle => ?_
  split
  · rename_i heq
    rw [Nat.cast_inj.mp heq, List.take_length]
  · rw [h.storage.term_getLogEntry hle]

lemma prevTermAt (h : n.HasLog l) (hk : k ≤ l.length) : n.prevTermAt k = lastTerm (l.take k) := by
  unfold RaftNode.prevTermAt
  split
  · exact h.storage.term_getLogEntry hk
  · obtain rfl : k = 0 := by omega
    rw [List.take_zero, lastTerm_nil]

/-- The logs have the same entry wherever they have entries of the same term. -/
def SameTerms (l r : List LogEntry) : Prop :=
  ∀ (k : ℕ) (x y : LogEntry), l[k]? = some x → r[k]? = some y → x.term = y.term → x = y

lemma sameTerms_of_isPrefix {l r : List LogEntry} (h : l <+: r) : SameTerms l r := by
  obtain ⟨t, rfl⟩ := h
  intro k x y hx hy _
  rw [List.getElem?_append_left (List.getElem?_eq_some_iff.mp hx).1, hx] at hy
  exact Option.some.inj hy

/-- One turn of the append loop, after `pre` has been found in place. -/
lemma appendEntry (h : n.HasLog l) (hpre : pre <+: l) (hsame : SameTerms l (pre ++ [e]))
    (he : e.index = pre.length + 1) :
    pre ++ [e] <+: l ∧ n.appendEntry (pre.length + 1) e = n ∨
      ¬ pre ++ [e] <+: l ∧ (n.appendEntry (pre.length + 1) e).HasLog (pre ++ [e]) := by
  obtain ⟨rest, rfl⟩ := hpre
  unfold RaftNode.appendEntry
  cases rest with
  | nil =>
      right
      rw [List.append_nil] at h ⊢
      have hlen : ¬ ((pre.length : ℤ) + 1 ≤ n.lastLogIndex) := by
        rw [h.lastLogIndex]
        omega
      rw [if_neg hlen]
      exact ⟨fun hp => by simpa using hp.length_le, h.append he⟩
  | cons x rest =>
      have hget : (pre ++ x :: rest)[pre.length]? = some x := by simp
      have hlen : (pre.length : ℤ) + 1 ≤ n.lastLogIndex := by
        rw [h.lastLogIndex, List.length_append, List.length_cons]
        push_cast
        omega
      rw [if_pos hlen, h.storage.getLogEntry_of_getElem? hget]
      by_cases hterm : x.term = e.term
      · left
        obtain rfl : x = e := hsame _ _ _ hget (by simp) hterm
        rw [if_neg (not_not.mpr hterm)]
        exact ⟨by simp, rfl⟩
      · right
        rw [if_pos hterm]
        refine ⟨?_, ?_⟩
        · intro hp
          obtain ⟨rfl, -⟩ : e = x ∧ [] <+: rest := by simpa using hp
          exact hterm rfl
        · have hreplace := h.replace (k := pre.length) (by simp) he
          rwa [List.take_left] at hreplace

/-- **The append loop.**  A log that has all of `pre ++ es` is kept, any other is replaced. -/
lemma appendLoop (hes : Numbered (pre ++ es)) :
    ∀ {n : RaftNode} {l : List LogEntry}, n.HasLog l → pre <+: l → SameTerms l (pre ++ es) →
      pre ++ es <+: l ∧ n.appendLoop pre.length es = n ∨
        ¬ pre ++ es <+: l ∧ (n.appendLoop pre.length es).HasLog (pre ++ es) := by
  induction es generalizing pre with
  | nil =>
      intro n l h hpre _
      exact .inl ⟨by simpa using hpre, rfl⟩
  | cons e es ih =>
      intro n l h hpre hsame
      have hsplit : pre ++ e :: es = (pre ++ [e]) ++ es := by simp
      have hlen : ((pre ++ [e]).length : ℤ) = pre.length + 1 := by simp
      have hindex : e.index = pre.length + 1 := (hes pre.length e (by simp)).1
      rw [hsplit] at hes hsame ⊢
      have hsame' : SameTerms l (pre ++ [e]) := by
        intro k x y hx hy hxy
        refine hsame k x y hx ?_ hxy
        rwa [List.getElem?_append_left (List.getElem?_eq_some_iff.mp hy).1]
      rw [RaftNode.appendLoop, ← hlen]
      rcases h.appendEntry hpre hsame' hindex with ⟨hheld, hkept⟩ | ⟨hnot, hlog⟩
      · rw [hlen, hkept, ← hlen]
        exact ih hes h hheld hsame
      · right
        refine ⟨fun hp => hnot ((List.prefix_append _ _).trans hp), ?_⟩
        rw [← hlen] at hlog
        rcases ih hes hlog List.prefix_rfl (sameTerms_of_isPrefix (List.prefix_append _ _)) with
          ⟨hheld, hkept⟩ | ⟨-, hlog'⟩
        · rw [hkept]
          obtain rfl : es = [] := by
            have := hheld.length_le
            rw [List.length_append] at this
            exact List.eq_nil_of_length_eq_zero (by omega)
          simpa using hlog
        · exact hlog'

end RaftNode.HasLog

end RaftConsensus
