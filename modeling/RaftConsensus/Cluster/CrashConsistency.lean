import RaftConsensus.Cluster.PendingRequests
import RaftConsensus.Storage.WriteSequences

/-!
# Crashes between two writes

An operation on the log is a sequence of atomic writes.  This file lets the process die after any
number `k` of them and builds the node again from what is on disk.

* `LogOperation.writes` — the writes of `appendLog`, `truncateLog`, `compactLog` and of the two
  handlers that write to the log; `perform_writes` says that together they are the operation.
* `LogRecovered` — the rebuilt node has every entry that it has not applied, and its
  `lastLogTerm_` is the term of its last entry.
* `TornBy` — the crashes that lose entries: those in the middle of `truncateLog`, and in
  `handleInstallSnapshot` also the one between `truncateLog` and the write of the placeholder.
* `crash_consistent_iff` — the rebuilt node has its log exactly when the operation was not torn.
-/

namespace RaftConsensus

open RocksDBStore

namespace RaftNode

variable {n : RaftNode} {es : List LogEntry} {prev : ℤ} {k : ℕ}

/-! ## The writes of the handlers -/

def acceptWrites (n : RaftNode) (term : ℤ) : Writes :=
  if n.currentTerm < term ∨ n.state ≠ .follower then saveHardStateWrites term (-1) else []

def appendEntryWrites (n : RaftNode) (currentIndex : ℤ) (entry : LogEntry) : Writes :=
  if currentIndex ≤ n.lastLogIndex then
    if (n.storage.getLogEntry currentIndex).term ≠ entry.term then
      n.storage.truncateLogWrites currentIndex ++ appendLogWrites entry
    else []
  else appendLogWrites entry

def appendLoopWrites (n : RaftNode) (prevLogIndex : ℤ) : List LogEntry → Writes
  | [] => []
  | entry :: entries =>
      n.appendEntryWrites (prevLogIndex + 1) entry ++
        (n.appendEntry (prevLogIndex + 1) entry).appendLoopWrites (prevLogIndex + 1) entries

def appendEntriesWrites (n : RaftNode) (args : AppendEntriesArgs) : Writes :=
  if args.term < n.currentTerm then []
  else
    n.acceptWrites args.term ++
      if (n.acceptLeader args.term args.leaderId).consistentAt args then
        (n.acceptLeader args.term args.leaderId).appendLoopWrites args.prevLogIndex args.entries
      else []

def seeTermWrites (n : RaftNode) (term : ℤ) : Writes :=
  if n.currentTerm < term then saveHardStateWrites term (-1) else []

/-- The writes of one snapshot: the batch of `applySnapshot`, those of `truncateLog`, and the
placeholder. -/
def snapshotWrites (s : RocksDBStore) (args : InstallSnapshotArgs) : Writes :=
  s.applySnapshotWrites args.data args.lastIncludedIndex args.lastIncludedTerm ++
    (s.truncateLogWrites (args.lastIncludedIndex + 1) ++
      appendLogWrites (anchorEntry args.lastIncludedIndex args.lastIncludedTerm))

def installSnapshotWrites (n : RaftNode) (args : InstallSnapshotArgs) : Writes :=
  if args.term < n.currentTerm then []
  else
    n.seeTermWrites args.term ++
      if args.lastIncludedIndex ≤ n.lastApplied then []
      else snapshotWrites (n.seeTerm args.term).storage args

/-! ## They are what the handlers write -/

lemma perform_acceptWrites {t l : ℤ} :
    (n.storage.perform (n.acceptWrites t)).db = (n.acceptLeader t l).storage.db := by
  unfold acceptWrites acceptLeader
  by_cases ht : n.currentTerm < t
  · rw [if_pos (.inl ht), if_pos ht]
    rfl
  · by_cases hs : n.state ≠ .follower
    · rw [if_pos (.inr hs), if_neg ht, if_pos hs]
      rfl
    · rw [if_neg (not_or.mpr ⟨ht, hs⟩), if_neg ht, if_neg hs]
      rfl

lemma perform_appendEntryWrites {i : ℤ} {e : LogEntry} :
    (n.storage.perform (n.appendEntryWrites i e)).db = (n.appendEntry i e).storage.db := by
  unfold appendEntryWrites appendEntry
  split
  · split
    · rw [perform_append, perform_db_congr perform_truncateLogWrites]
      rfl
    · rfl
  · rfl

lemma perform_appendLoopWrites {es : List LogEntry} :
    ∀ {n : RaftNode} {prev : ℤ}, (n.storage.perform (n.appendLoopWrites prev es)).db =
      (n.appendLoop prev es).storage.db := by
  induction es with
  | nil => exact rfl
  | cons e es ih =>
      intro n prev
      rw [appendLoopWrites, perform_append, perform_db_congr perform_appendEntryWrites, ih]
      rfl

lemma storage_followCommit {c : ℤ} : (n.followCommit c).storage = n.storage := by
  unfold followCommit
  split <;> rfl

lemma perform_appendEntriesWrites {args : AppendEntriesArgs} :
    (n.storage.perform (n.appendEntriesWrites args)).db =
      (n.handleAppendEntries args).1.storage.db := by
  unfold appendEntriesWrites handleAppendEntries
  split
  · rfl
  · rw [perform_append, perform_db_congr perform_acceptWrites]
    dsimp only
    split
    · rw [perform_appendLoopWrites, storage_followCommit]
    · rfl

lemma perform_seeTermWrites {t : ℤ} :
    n.storage.perform (n.seeTermWrites t) = (n.seeTerm t).storage := by
  unfold seeTermWrites seeTerm
  split
  · rfl
  · rfl

lemma perform_snapshotWrites {s : RocksDBStore} {args : InstallSnapshotArgs} :
    (s.perform (snapshotWrites s args)).db =
      (((s.applySnapshot args.data args.lastIncludedIndex args.lastIncludedTerm).truncateLog
        (args.lastIncludedIndex + 1)).appendLog
          (anchorEntry args.lastIncludedIndex args.lastIncludedTerm)).db := by
  rw [snapshotWrites, perform_append, perform_append, perform_applySnapshotWrites]
  exact perform_db_congr perform_truncateLogWrites

lemma lastApplied_seeTerm {t : ℤ} : (n.seeTerm t).lastApplied = n.lastApplied := by
  unfold seeTerm
  split <;> rfl

lemma perform_installSnapshotWrites {args : InstallSnapshotArgs} :
    (n.storage.perform (n.installSnapshotWrites args)).db =
      (n.handleInstallSnapshot args).1.storage.db := by
  unfold installSnapshotWrites handleInstallSnapshot
  split
  · rfl
  · rw [perform_append, perform_seeTermWrites]
    dsimp only
    rw [lastApplied_seeTerm]
    split
    · rfl
    · exact perform_snapshotWrites

/-! ## The append loop, cut short -/

lemma appendEntry_beyond {i : ℤ} {e : LogEntry} (hi : n.lastLogIndex < i) :
    n.appendEntry i e =
      { n with storage := n.storage.appendLog e, lastLogIndex := i, lastLogTerm := e.term } := by
  rw [appendEntry, if_neg (by omega)]

/-- From the end of the log on the loop only appends, and may be cut short anywhere. -/
lemma usable_appending {es : List LogEntry} :
    ∀ {n : RaftNode} {prev : ℤ} {k : ℕ}, n.storage.Usable → n.lastLogIndex = prev →
      n.storage.storedLastLogIndex = prev → Consecutive (prev + 1) es → (∀ e ∈ es, e.term ≠ 0) →
        (n.storage.perform ((n.appendLoopWrites prev es).take k)).Usable := by
  induction es with
  | nil =>
      intro n prev k h _ _ _ _
      rw [appendLoopWrites, List.take_nil]
      exact h
  | cons e es ih =>
      intro n prev k h hlast hstored hes hterms
      obtain ⟨he, hes⟩ := consecutive_cons.mp hes
      cases k with
      | zero => exact h
      | succ k =>
          have hbeyond : ¬ prev + 1 ≤ n.lastLogIndex := by omega
          rw [appendLoopWrites, appendEntryWrites, if_neg hbeyond, appendLogWrites,
            List.singleton_append, List.take_succ_cons, ← List.singleton_append, perform_append,
            appendEntry_beyond (by omega)]
          refine (usable_congr (perform_db_congr perform_appendLogWrites)).mpr ?_
          have hnext : (n.storage.appendLog e).Usable :=
            h.1.appendLog (by omega) (hterms e (by simp))
          refine ih (n := { n with
            storage := n.storage.appendLog e
            lastLogIndex := prev + 1
            lastLogTerm := e.term }) hnext rfl ?_ hes fun x hx => hterms x (by simp [hx])
          simp [he]

/-- **The append loop cut short**: only the cut before the first entry in conflict is dangerous. -/
lemma usable_appendLoop_iff {es : List LogEntry} :
    ∀ {n : RaftNode} {prev : ℤ} {k : ℕ}, n.storage.Usable →
      n.storage.lastLogIndexCache = n.lastLogIndex →
      n.storage.storedLastLogIndex = n.lastLogIndex → prev ≤ n.lastLogIndex →
      Consecutive (prev + 1) es → (∀ e ∈ es, e.term ≠ 0) →
        ((n.storage.perform ((n.appendLoopWrites prev es).take k)).Usable ↔
          ∀ e, es.find? (fun x => n.conflictsWith x) = some e → ¬ n.storage.BadCut e.index k) := by
  induction es with
  | nil =>
      intro n prev k h _ _ _ _ _
      rw [appendLoopWrites, List.take_nil]
      simp [h]
  | cons e es ih =>
      intro n prev k h hcache hstored hprev hes hterms
      obtain ⟨he, htail⟩ := consecutive_cons.mp hes
      have htailTerms : ∀ x ∈ es, x.term ≠ 0 := fun x hx => hterms x (by simp [hx])
      by_cases hle : prev + 1 ≤ n.lastLogIndex
      · by_cases hterm : (n.storage.getLogEntry (prev + 1)).term = e.term
        · -- the entry is kept, and nothing is written
          have hsame : n.appendEntry (prev + 1) e = n := by
            rw [appendEntry, if_pos hle, if_neg (not_not.mpr hterm)]
          have hnot : ¬ n.conflictsWith e := fun hc => hc.2 (by rwa [he])
          rw [appendLoopWrites, appendEntryWrites, if_pos hle, if_neg (not_not.mpr hterm),
            List.nil_append, hsame, ih h hcache hstored hle htail htailTerms,
            List.find?_cons_of_neg (by simpa using hnot)]
        · -- the first entry in conflict
          have hconf : n.conflictsWith e := ⟨by omega, by rwa [he]⟩
          rw [List.find?_cons_of_pos (by simpa using hconf)]
          simp only [Option.some.injEq, forall_eq']
          rw [appendLoopWrites, appendEntryWrites, if_pos hle, if_pos hterm, List.append_assoc,
            List.take_append, he]
          by_cases hk : k ≤ (n.storage.truncateLogWrites (prev + 1)).length
          · rw [Nat.sub_eq_zero_of_le hk, List.take_zero, List.append_nil]
            exact usable_truncating_iff h (hcache.trans hstored.symm) (.inl (by omega)) hk
          · refine iff_of_true ?_ fun hbad =>
              hk (hbad.le_length (hcache.trans hstored.symm))
            obtain ⟨m, hm⟩ : ∃ m, k - (n.storage.truncateLogWrites (prev + 1)).length = m + 1 :=
              ⟨k - (n.storage.truncateLogWrites (prev + 1)).length - 1, by omega⟩
            rw [hm, List.take_of_length_le (by omega), perform_append, appendLogWrites,
              List.singleton_append, List.take_succ_cons, ← List.singleton_append, perform_append]
            have hcut : ((n.storage.truncateLog (prev + 1)).appendLog e).Usable :=
              (h.1.truncateLog (.inl (by omega))).appendLog
                (by rw [storedLastLogIndex_truncateLog, he]; ring) (hterms e (by simp))
            have happended : n.appendEntry (prev + 1) e =
                { n with
                  storage := (n.storage.truncateLog (prev + 1)).appendLog e
                  lastLogIndex := prev + 1
                  lastLogTerm := e.term } := by
              rw [appendEntry, if_pos hle, if_pos hterm]
            rw [happended]
            have hdb : ((n.storage.perform (n.storage.truncateLogWrites (prev + 1))).perform
                (appendLogWrites e)).db = ((n.storage.truncateLog (prev + 1)).appendLog e).db :=
              perform_db_congr perform_truncateLogWrites
            refine (usable_congr (perform_db_congr hdb)).mpr ?_
            exact usable_appending (n := { n with
              storage := (n.storage.truncateLog (prev + 1)).appendLog e
              lastLogIndex := prev + 1
              lastLogTerm := e.term }) hcut rfl (by simp [he]) htail htailTerms
      · -- the log ends here: nothing is in conflict
        have hnone : (e :: es).find? (fun x => n.conflictsWith x) = none := by
          rw [List.find?_eq_none]
          intro x hx hconf
          obtain ⟨j, hj⟩ := List.getElem?_of_mem hx
          have hindex := hes j x hj
          have hbound := (of_decide_eq_true hconf).1
          omega
        rw [hnone]
        refine iff_of_true ?_ (by simp)
        exact usable_appending h (by omega) (by omega) hes hterms

/-! ## Recovery -/

/-- The process dies after `k` of the writes, and the node is built from what is on disk. -/
def crashed (n : RaftNode) (ws : Writes) (k : ℕ) : RaftNode :=
  .new n.config (.openDB (n.storage.perform (ws.take k)).db)

/-- The node has every entry after the last one it has applied, and the term of its last entry. -/
structure LogRecovered (n : RaftNode) : Prop where
  entries : ∀ i, n.lastApplied < i → i ≤ n.lastLogIndex →
    ∃ e, n.storage.entry? i = some e ∧ e.index = i
  lastTerm : 0 < n.lastLogIndex →
    ∃ e, n.storage.entry? n.lastLogIndex = some e ∧ n.lastLogTerm = e.term ∧ n.lastLogTerm ≠ 0

lemma logRecovered_iff {config : ClusterConfig} {s : RocksDBStore} :
    (RaftNode.new config (.openDB s.db)).LogRecovered ↔ s.Usable := by
  have hentry : ∀ i, RocksDBStore.entry? (openDB s.db) i = s.entry? i := fun _ => entry?_of_db rfl
  have happlied : (openDB s.db).getLastAppliedIndex = s.getLastAppliedIndex :=
    getLastAppliedIndex_congr rfl
  constructor
  · rintro ⟨hentries, hterm⟩
    refine ⟨fun i hlo hhi => ?_, fun hpos => ?_⟩
    · obtain ⟨e, he, hindex⟩ := hentries i (by simpa [RaftNode.new, happlied] using hlo) hhi
      exact ⟨e, (hentry i).symm.trans he, hindex⟩
    · obtain ⟨e, he, hlast, hne⟩ := hterm hpos
      exact ⟨e, (hentry _).symm.trans he, hlast ▸ hne⟩
  · rintro ⟨hentries, hterm⟩
    refine ⟨fun i hlo hhi => ?_, fun hpos => ?_⟩
    · obtain ⟨e, he, hindex⟩ := hentries i (by simpa [RaftNode.new, happlied] using hlo) hhi
      exact ⟨e, (hentry i).trans he, hindex⟩
    · obtain ⟨e, he, hne⟩ := hterm hpos
      have hlast : (RaftNode.new config (.openDB s.db)).lastLogTerm = e.term := by
        have hlast : 0 < (openDB s.db).getLastLogIndex := hpos
        show (if 0 < (openDB s.db).getLastLogIndex then _ else _) = e.term
        rw [if_pos hlast]
        exact congrArg LogEntry.term ( getLogEntry_of_entry? ((hentry _).trans he))
      exact ⟨e, (hentry _).trans he, hlast, hlast ▸ hne⟩

/-- The log in RAM and on disk agree, and no entry after the last applied one is missing.  The
executor may have written an entry that `lastApplied_` does not count yet. -/
structure WellFormed (n : RaftNode) : Prop where
  cache : n.storage.lastLogIndexCache = n.lastLogIndex
  stored : n.storage.storedLastLogIndex = n.lastLogIndex
  nonneg : 0 ≤ n.lastApplied ∧ 0 ≤ n.lastLogIndex
  applied : n.storage.getLastAppliedIndex = n.lastApplied ∨
    n.storage.getLastAppliedIndex = n.lastApplied + 1
  entries : ∀ i, 0 < i → i ≤ n.lastLogIndex → n.lastApplied < i ∨ i = n.lastLogIndex →
    ∃ e, n.storage.entry? i = some e ∧ e.index = i ∧ 1 ≤ e.term
  ends : ∀ i, n.lastLogIndex < i → n.storage.entry? i = none

lemma WellFormed.usable (h : n.WellFormed) : n.storage.Usable := by
  have hnonneg := h.nonneg
  have happlied := h.applied
  constructor
  · intro i hlo hhi
    obtain ⟨e, he, hindex, -⟩ := h.entries i (by omega) (h.stored ▸ hhi) (.inl (by omega))
    exact ⟨e, he, hindex⟩
  · intro hpos
    rw [h.stored] at hpos ⊢
    obtain ⟨e, he, -, hterm⟩ := h.entries _ hpos le_rfl (.inr rfl)
    exact ⟨e, he, by omega⟩

lemma WellFormed.not_hasTerm (h : n.WellFormed) {i : ℤ} (hi : n.lastLogIndex < i) :
    ¬ n.storage.HasTerm i := by
  rintro ⟨e, he, -⟩
  rw [h.ends i hi] at he
  cases he

lemma WellFormed.cache_stored (h : n.WellFormed) :
    n.storage.lastLogIndexCache = n.storage.storedLastLogIndex := h.cache.trans h.stored.symm

/-! ## Every operation -/

/-- Taking over a newer term writes nothing about the log. -/
lemma usable_perform_hardState {s : RocksDBStore} {t v : ℤ} {ws : Writes}
    (hws : ws = [] ∨ ws = saveHardStateWrites t v) : (s.perform (ws.take k)).Usable ↔ s.Usable := by
  have hsame : s.perform (ws.take k) = s ∨ s.perform (ws.take k) = s.saveHardState t v := by
    rcases hws with rfl | rfl
    · rw [List.take_nil]
      exact .inl rfl
    · cases k with
      | zero => exact .inl rfl
      | succ k =>
          rw [List.take_of_length_le (by simp [saveHardStateWrites])]
          exact .inr rfl
  rcases hsame with h | h
  · rw [h]
  · rw [h]
    exact usable_of_same (fun _ => entry?_saveHardState) storedLastLogIndex_saveHardState (by simp)

lemma acceptWrites_cases {t : ℤ} :
    n.acceptWrites t = [] ∨ n.acceptWrites t = saveHardStateWrites t (-1) := by
  unfold acceptWrites
  split
  · exact .inr rfl
  · exact .inl rfl

lemma seeTermWrites_cases {t : ℤ} :
    n.seeTermWrites t = [] ∨ n.seeTermWrites t = saveHardStateWrites t (-1) := by
  unfold seeTermWrites
  split
  · exact .inr rfl
  · exact .inl rfl

/-- A message cuts the log badly: it is accepted, and the cut before its first entry in conflict
is torn. -/
def TearsLog (n : RaftNode) (args : AppendEntriesArgs) (k : ℕ) : Prop :=
  n.currentTerm ≤ args.term ∧ n.consistentAt args ∧
    ∃ e, args.entries.find? (fun x => n.conflictsWith x) = some e ∧
      n.storage.BadCut e.index (k - (n.acceptWrites args.term).length)

lemma badCut_congr {s s' : RocksDBStore} {c : ℤ} (hentry : s'.entry? = s.entry?)
    (hcache : s'.lastLogIndexCache = s.lastLogIndexCache)
    (hlast : s'.storedLastLogIndex = s.storedLastLogIndex)
    (happlied : s'.getLastAppliedIndex = s.getLastAppliedIndex) :
    s'.BadCut c k ↔ s.BadCut c k := by
  simp only [BadCut, Torn, HasTerm, truncateLogWrites, hentry, hcache, hlast, happlied]

lemma usable_appendEntries_iff (hn : n.WellFormed) {args : AppendEntriesArgs}
    (hes : Consecutive (args.prevLogIndex + 1) args.entries)
    (hterms : ∀ e ∈ args.entries, e.term ≠ 0) :
    (n.storage.perform ((n.appendEntriesWrites args).take k)).Usable ↔ ¬ n.TearsLog args k := by
  have hview := logView_acceptLeader n args.term args.leaderId
  obtain ⟨hlast, -, -, hentry, hcache, hstored, happlied⟩ := logView_inj hview
  have hcons := consistentAt_congr hview (lastLogTerm_acceptLeader n args.term args.leaderId) args
  have hconf : (fun x => decide ((n.acceptLeader args.term args.leaderId).conflictsWith x)) =
      fun x => decide (n.conflictsWith x) := by
    funext x
    exact decide_eq_decide.mpr (by simp only [conflictsWith, hlast, getLogEntry_of_logView hview])
  unfold appendEntriesWrites
  split
  · rename_i hold
    rw [List.take_nil]
    exact iff_of_true hn.usable fun htears => absurd htears.1 (by omega)
  · rename_i hterm
    rw [List.take_append, perform_append]
    by_cases hk : k ≤ (n.acceptWrites args.term).length
    · -- at most the hard state has been written
      rw [Nat.sub_eq_zero_of_le hk, List.take_zero, perform_nil,
        usable_perform_hardState acceptWrites_cases]
      refine iff_of_true hn.usable ?_
      rintro ⟨-, -, e, -, hbad⟩
      rw [Nat.sub_eq_zero_of_le hk] at hbad
      rcases hbad with ⟨hpos, -, -⟩ | ⟨hlen, -, -⟩
      · omega
      · rw [length_truncateLogWrites hn.cache_stored] at hlen
        omega
    · have haccepted : (n.acceptLeader args.term args.leaderId).storage.Usable :=
        (usable_of_same (fun i => congrFun hentry i) hstored happlied).mpr hn.usable
      rw [List.take_of_length_le (by omega),
        usable_congr (perform_db_congr (perform_acceptWrites (l := args.leaderId)))]
      split
      · rename_i hok
        have hprev : args.prevLogIndex ≤ n.lastLogIndex := by
          have hnonneg := hn.nonneg
          rcases hcons.mp hok with hle | ⟨hle, -⟩
          · omega
          · exact hle
        rw [usable_appendLoop_iff haccepted (by rw [hcache, hlast, hn.cache])
          (by rw [hstored, hlast, hn.stored]) (by rw [hlast]; exact hprev) hes hterms, hconf]
        simp only [badCut_congr hentry hcache hstored happlied]
        constructor
        · rintro hall ⟨-, -, e, he, hbad⟩
          exact hall e he hbad
        · intro hnot e he hbad
          exact hnot ⟨not_lt.mp hterm, hcons.mp hok, e, he, hbad⟩
      · rename_i hbad
        rw [List.take_nil]
        exact iff_of_true haccepted fun htears => hbad (hcons.mpr htears.2.1)

/-- The part of a snapshot after its batch, cut short after `j` writes: entries are being deleted,
the last index is that of a placeholder still to be written, or the placeholder has no term. -/
def TornAfterBatch (n : RaftNode) (args : InstallSnapshotArgs) (j : ℕ) : Prop :=
  1 ≤ j ∧ args.lastIncludedIndex + j ≤ n.lastLogIndex ∨
    j = 1 ∧ n.lastLogIndex < args.lastIncludedIndex ∨
    j = (n.lastLogIndex - args.lastIncludedIndex).toNat + 2 ∧ args.lastIncludedTerm = 0

/-- A snapshot cuts the log badly: it is installed, and interrupted after its batch. -/
def TearsSnapshot (n : RaftNode) (args : InstallSnapshotArgs) (k : ℕ) : Prop :=
  n.currentTerm ≤ args.term ∧ n.lastApplied < args.lastIncludedIndex ∧
    (n.seeTermWrites args.term).length < k ∧
      n.TornAfterBatch args (k - (n.seeTermWrites args.term).length - 1)

/-- No line of the snapshot data that is read as a key is one of the log. -/
def SparesLogKeys (data : Bytes) : Prop :=
  SparesEntries data ∧ ∀ p ∈ Bytes.pairLines data, p.1 ≠ lastLogIndexKey

/-- A last entry up to which everything is applied. -/
lemma usable_appendLog_iff {s : RocksDBStore} {e : LogEntry} (h : s.getLastAppliedIndex = e.index) :
    (s.appendLog e).Usable ↔ (0 < e.index → e.term ≠ 0) := by
  have hterm : (s.appendLog e).HasTerm e.index ↔ e.term ≠ 0 := by
    rw [HasTerm, entry?_appendLog, if_pos rfl]
    simp
  unfold Usable
  rw [storedLastLogIndex_appendLog, hterm]
  refine ⟨And.right, fun h' => ⟨fun x hlo hhi => ?_, h'⟩⟩
  rw [getLastAppliedIndex_appendLog] at hlo
  rw [storedLastLogIndex_appendLog] at hhi
  omega

/-- **A snapshot cut short** after its batch. -/
lemma usable_snapshot_iff {s : RocksDBStore} {args : InstallSnapshotArgs} {j : ℕ}
    (hn : n.WellFormed) (hs : s.entry? = n.storage.entry?)
    (hcache : s.lastLogIndexCache = n.lastLogIndex)
    (hstored : s.storedLastLogIndex = n.lastLogIndex)
    (hdata : SparesLogKeys args.data) (hnew : n.lastApplied < args.lastIncludedIndex)
    (hj : j + 1 ≤ (snapshotWrites s args).length) :
    (s.perform ((snapshotWrites s args).take (j + 1))).Usable ↔ ¬ n.TornAfterBatch args j := by
  have hnonneg := hn.nonneg
  set i := args.lastIncludedIndex
  set s' := s.applySnapshot args.data i args.lastIncludedTerm with hs'
  have hentry' : ∀ x, s'.entry? x = n.storage.entry? x := fun x =>
    (entry?_applySnapshot hdata.1).trans (congrFun hs x)
  have hcache' : s'.lastLogIndexCache = n.lastLogIndex := hcache
  have hstored' : s'.storedLastLogIndex = n.lastLogIndex :=
    (storedLastLogIndex_applySnapshot hdata.2).trans hstored
  have happlied' : s'.getLastAppliedIndex = i := getLastAppliedIndex_applySnapshot
  have husable : s'.Usable := by
    constructor
    · intro x hlo hhi
      obtain ⟨e, he, hindex, -⟩ := hn.entries x (by omega) (by omega) (.inl (by omega))
      exact ⟨e, (hentry' x).trans he, hindex⟩
    · intro hpos
      rw [hstored'] at hpos ⊢
      obtain ⟨e, he, -, hterm⟩ := hn.entries _ hpos le_rfl (.inr rfl)
      exact ⟨e, (hentry' _).trans he, by omega⟩
  have hlen : (s'.truncateLogWrites (i + 1)).length = (n.lastLogIndex - i).toNat + 1 := by
    rw [length_truncateLogWrites (hcache'.trans hstored'.symm), hstored']
    congr 2
    ring
  -- the writes after the batch
  have htake : (s.perform ((snapshotWrites s args).take (j + 1))) =
      s'.perform ((s'.truncateLogWrites (i + 1) ++
        appendLogWrites (anchorEntry i args.lastIncludedTerm)).take j) := by
    rw [snapshotWrites, applySnapshotWrites, List.singleton_append, List.take_succ_cons,
      ← List.singleton_append, perform_append]
    rfl
  have hterm : s'.HasTerm i ↔ i ≤ n.lastLogIndex := by
    rw [HasTerm, hentry']
    constructor
    · rintro ⟨e, he, -⟩
      by_contra hgt
      rw [hn.ends i (by omega)] at he
      cases he
    · intro hle
      obtain ⟨e, he, -, hpos⟩ := hn.entries i (by omega) hle (.inl hnew)
      exact ⟨e, he, by omega⟩
  rw [htake, List.take_append]
  by_cases hcut : j ≤ (s'.truncateLogWrites (i + 1)).length
  · rw [Nat.sub_eq_zero_of_le hcut, List.take_zero, List.append_nil,
      usable_truncating_iff husable (hcache'.trans hstored'.symm) (.inr (.inl (by omega))) hcut]
    refine not_congr ?_
    unfold BadCut Torn TornAfterBatch
    rw [hlen] at hcut ⊢
    rw [hstored', happlied', show i + 1 - 1 = i by ring, hterm]
    omega
  · have hle : (snapshotWrites s args).length = (s'.truncateLogWrites (i + 1)).length + 2 := by
      rw [snapshotWrites, List.length_append, List.length_append, applySnapshotWrites,
        appendLogWrites, List.length_singleton, List.length_singleton]
      show 1 + ((s'.truncateLogWrites (i + 1)).length + 1) = _
      omega
    have hdone : (s'.perform ((s'.truncateLogWrites (i + 1)).take j ++
        (appendLogWrites (anchorEntry i args.lastIncludedTerm)).take
          (j - (s'.truncateLogWrites (i + 1)).length))).db =
          ((s'.truncateLog (i + 1)).appendLog (anchorEntry i args.lastIncludedTerm)).db := by
      rw [List.take_of_length_le (by omega), List.take_of_length_le (by
        rw [appendLogWrites, List.length_singleton]
        omega), perform_append]
      exact perform_db_congr perform_truncateLogWrites
    rw [usable_congr hdone, usable_appendLog_iff (by
      rw [getLastAppliedIndex_truncateLog, happlied']
      rfl)]
    unfold TornAfterBatch
    show (0 < i → args.lastIncludedTerm ≠ 0) ↔ _
    omega

lemma usable_installSnapshot_iff (hn : n.WellFormed) {args : InstallSnapshotArgs}
    (hdata : SparesLogKeys args.data) (hk : k ≤ (n.installSnapshotWrites args).length) :
    (n.storage.perform ((n.installSnapshotWrites args).take k)).Usable ↔
      ¬ n.TearsSnapshot args k := by
  have hview := logView_seeTerm n args.term
  obtain ⟨hlast, -, -, hentry, hcache, hstored, happlied⟩ := logView_inj hview
  have hseen : (n.seeTerm args.term).storage.Usable :=
    (usable_of_same (fun i => congrFun hentry i) hstored happlied).mpr hn.usable
  unfold installSnapshotWrites at hk ⊢
  split at hk
  · rename_i hold
    rw [if_pos hold, List.take_nil]
    exact iff_of_true hn.usable fun htears => absurd htears.1 (by omega)
  · rename_i hterm
    rw [if_neg hterm, List.take_append, perform_append]
    by_cases hshort : k ≤ (n.seeTermWrites args.term).length
    · rw [Nat.sub_eq_zero_of_le hshort, List.take_zero, perform_nil,
        usable_perform_hardState seeTermWrites_cases]
      exact iff_of_true hn.usable fun htears => absurd htears.2.2.1 (by omega)
    · rw [List.take_of_length_le (by omega), perform_seeTermWrites]
      rw [List.length_append] at hk
      split at hk
      · rename_i hknown
        rw [if_pos hknown, List.take_nil]
        exact iff_of_true hseen fun htears => absurd htears.2.1 (by omega)
      · rename_i hnew
        obtain ⟨j, hj⟩ : ∃ j, k - (n.seeTermWrites args.term).length = j + 1 :=
          ⟨k - (n.seeTermWrites args.term).length - 1, by omega⟩
        rw [if_neg hnew, hj, usable_snapshot_iff hn hentry (hcache.trans hn.cache)
          (hstored.trans hn.stored) hdata (by omega) (by omega)]
        unfold TearsSnapshot
        rw [hj, Nat.add_sub_cancel]
        exact not_congr ⟨fun htorn => ⟨by omega, by omega, by omega, htorn⟩,
          fun htears => htears.2.2.2⟩

/-- Compaction up to an index beyond the applied entries, or up to the last entry: one of those
that are still needed is among the first `k` deleted. -/
def TornByCompaction (n : RaftNode) (k : ℕ) : Prop :=
  0 < n.lastLogIndex ∧ n.lastLogIndex < k ∨
    n.storage.getLastAppliedIndex < n.lastLogIndex ∧ n.storage.getLastAppliedIndex + 1 < k

lemma usable_compactLog_iff (hn : n.WellFormed) {c : ℤ} (hk : k ≤ (compactLogWrites c).length) :
    (n.storage.perform ((compactLogWrites c).take k)).Usable ↔ ¬ n.TornByCompaction k := by
  have hnonneg := hn.nonneg
  have happlied := hn.applied
  rw [compactLogWrites, length_deleteWrites, length_loopRange] at hk
  have hentry : ∀ i, RocksDBStore.entry? (n.storage.perform ((compactLogWrites c).take k)) i =
      if 0 ≤ i ∧ i < k then none else n.storage.entry? i := by
    intro i
    rw [compactLogWrites, deleteWrites, ← List.map_take]
    show RocksDBStore.entry? (n.storage.perform (deleteWrites ((loopRange 0 c).take k))) i = _
    rw [entry?_perform_deleteWrites]
    have hmem : i ∈ (loopRange 0 c).take k ↔ 0 ≤ i ∧ i < k := by
      rw [mem_take_loopRange]
      omega
    simp only [hmem]
  have hlast : (n.storage.perform ((compactLogWrites c).take k)).storedLastLogIndex =
      n.lastLogIndex := by
    rw [compactLogWrites, deleteWrites, ← List.map_take, ← hn.stored]
    exact storedLastLogIndex_perform_deleteWrites
  have hdone : (n.storage.perform ((compactLogWrites c).take k)).getLastAppliedIndex =
      n.storage.getLastAppliedIndex := by
    rw [compactLogWrites, deleteWrites, ← List.map_take]
    exact getLastAppliedIndex_perform_deleteWrites
  unfold Usable Complete TornByCompaction
  rw [hlast, hdone]
  constructor
  · rintro ⟨hholds, hterm⟩ (⟨hpos, hlt⟩ | ⟨hpending, hlt⟩)
    · obtain ⟨x, hx, -⟩ := hterm hpos
      rw [hentry, if_pos ⟨by omega, hlt⟩] at hx
      cases hx
    · obtain ⟨x, hx, -⟩ := hholds (n.storage.getLastAppliedIndex + 1) (by omega) (by omega)
      rw [hentry, if_pos ⟨by omega, hlt⟩] at hx
      cases hx
  · intro htorn
    refine ⟨fun i hlo hhi => ?_, fun hpos => ?_⟩
    · obtain ⟨x, hx, hindex, -⟩ := hn.entries i (by omega) hhi (.inl (by omega))
      refine ⟨x, ?_, hindex⟩
      rw [hentry, if_neg (fun h => htorn (.inr ⟨by omega, by omega⟩)), hx]
    · obtain ⟨x, hx, -, hterm⟩ := hn.entries _ hpos le_rfl (.inr rfl)
      refine ⟨x, ?_, by omega⟩
      rw [hentry, if_neg (fun h => htorn (.inl ⟨hpos, h.2⟩)), hx]

end RaftNode

/-- The operations that write to the log. -/
inductive LogOperation
  | appendLog (entry : LogEntry)
  | truncateLog (startIndex : ℤ)
  | compactLog (compactIndex : ℤ)
  | handleAppendEntries (args : AppendEntriesArgs)
  | handleInstallSnapshot (args : InstallSnapshotArgs)

namespace LogOperation

/-- The store after the operation. -/
def run (n : RaftNode) : LogOperation → RocksDBStore
  | appendLog entry => n.storage.appendLog entry
  | truncateLog startIndex => n.storage.truncateLog startIndex
  | compactLog compactIndex => n.storage.compactLog compactIndex
  | handleAppendEntries args => (n.handleAppendEntries args).1.storage
  | handleInstallSnapshot args => (n.handleInstallSnapshot args).1.storage

/-- Its writes. -/
def writes (n : RaftNode) : LogOperation → Writes
  | appendLog entry => appendLogWrites entry
  | truncateLog startIndex => n.storage.truncateLogWrites startIndex
  | compactLog compactIndex => compactLogWrites compactIndex
  | handleAppendEntries args => n.appendEntriesWrites args
  | handleInstallSnapshot args => n.installSnapshotWrites args

/-- **The writes are the operation.** -/
theorem perform_writes (n : RaftNode) (op : LogOperation) :
    (n.storage.perform (op.writes n)).db = (op.run n).db := by
  cases op with
  | appendLog entry => exact perform_appendLogWrites
  | truncateLog startIndex => exact perform_truncateLogWrites
  | compactLog compactIndex => exact perform_compactLogWrites
  | handleAppendEntries args => exact RaftNode.perform_appendEntriesWrites
  | handleInstallSnapshot args => exact RaftNode.perform_installSnapshotWrites

/-- What the callers of an operation see to: an entry to append is the next one and has a term, the
entries of a message are consecutive and have terms, and a snapshot is one of records only. -/
def Legal (n : RaftNode) : LogOperation → Prop
  | appendLog entry => entry.index = n.lastLogIndex + 1 ∧ entry.term ≠ 0
  | truncateLog _ => True
  | compactLog _ => True
  | handleAppendEntries args =>
      Consecutive (args.prevLogIndex + 1) args.entries ∧ ∀ e ∈ args.entries, e.term ≠ 0
  | handleInstallSnapshot args => RaftNode.SparesLogKeys args.data

/-- The operation, interrupted after `k` writes, leaves a log with a missing entry. -/
def TornBy (n : RaftNode) (k : ℕ) : LogOperation → Prop
  | appendLog _ => False
  | truncateLog startIndex => n.storage.BadCut startIndex k
  | compactLog _ => n.TornByCompaction k
  | handleAppendEntries args => n.TearsLog args k
  | handleInstallSnapshot args => n.TearsSnapshot args k

end LogOperation

open LogOperation in
/-- **Recovery after a crash between two writes.**  From every well-formed log, for every operation
and every number of writes it has made when the process dies: the rebuilt node has all entries it
has not applied, and the term of its last one, exactly when the operation was not torn there. -/
theorem crash_consistent_iff {n : RaftNode} {op : LogOperation} {k : ℕ} (hn : n.WellFormed)
    (hop : op.Legal n) (hk : k ≤ (op.writes n).length) :
    (n.crashed (op.writes n) k).LogRecovered ↔ ¬ op.TornBy n k := by
  unfold RaftNode.crashed
  rw [RaftNode.logRecovered_iff]
  cases op with
  | appendLog entry =>
      obtain ⟨hindex, hterm⟩ := hop
      refine iff_of_true ?_ not_false
      cases k with
      | zero => exact hn.usable
      | succ k =>
          rw [writes, List.take_of_length_le (by simp [appendLogWrites]),
            usable_congr perform_appendLogWrites]
          exact hn.usable.1.appendLog (by rw [hn.stored, hindex]) hterm
  | truncateLog startIndex =>
      have hcut : startIndex ≤ n.storage.storedLastLogIndex + 1 ∨
          startIndex ≤ n.storage.getLastAppliedIndex + 1 ∨
            1 < startIndex ∧ ¬ n.storage.HasTerm (startIndex - 1) := by
        rw [hn.stored]
        by_cases hle : startIndex ≤ n.lastLogIndex + 1
        · exact .inl hle
        · have hnonneg := hn.nonneg
          exact .inr (.inr ⟨by omega, hn.not_hasTerm (by omega)⟩)
      exact usable_truncating_iff hn.usable hn.cache_stored hcut hk
  | compactLog compactIndex => exact RaftNode.usable_compactLog_iff hn hk
  | handleAppendEntries args => exact RaftNode.usable_appendEntries_iff hn hop.1 hop.2
  | handleInstallSnapshot args => exact RaftNode.usable_installSnapshot_iff hn hop hk

/-! ## A follower with one entry -/

/-- A transfer that a leader of the first term has put at index `1`. -/
def firstEntry : LogEntry :=
  ⟨1, 1, ⟨Bytes.ascii "r", .transfer, Bytes.ascii "1", Bytes.ascii "2", 50⟩⟩

/-- A follower of the first term that has it in its log. -/
def followerOfOne : RaftNode :=
  .new ⟨1, [1, 2]⟩ ((genesis.saveHardState 1 (-1)).appendLog firstEntry)

lemma wellFormed_followerOfOne : followerOfOne.WellFormed := by
  have happlied : followerOfOne.lastApplied = 0 ∧
      followerOfOne.storage.getLastAppliedIndex = 0 := by
    rw [followerOfOne, genesis_eq]
    decide +kernel
  have hlast : followerOfOne.lastLogIndex = 1 := rfl
  have hentry : ∀ i, followerOfOne.storage.entry? i = if i = 1 then some firstEntry else none := by
    intro i
    show RocksDBStore.entry? ((genesis.saveHardState 1 (-1)).appendLog firstEntry) i = _
    rw [entry?_appendLog, entry?_saveHardState, entry?, get_genesis_of_head (by simp)]
    rfl
  refine ⟨rfl, ?_, ⟨?_, ?_⟩, .inl (happlied.2.trans happlied.1.symm), ?_, ?_⟩
  · exact storedLastLogIndex_appendLog
  · exact happlied.1.ge
  · decide
  · intro i hpos hle _
    rw [hlast] at hle
    obtain rfl : i = 1 := by omega
    exact ⟨firstEntry, by rw [hentry, if_pos rfl], rfl, by decide⟩
  · intro i hi
    rw [hlast] at hi
    rw [hentry, if_neg (by omega)]

/-- The follower after it died while the leader of the second term overwrote the entry: the hard
state and the deletion are on disk, the new last index is not. -/
def interruptedFollower : RaftNode :=
  followerOfOne.crashed (followerOfOne.appendEntriesWrites overwritingEntry) 2

/-- **A crash loses the entry and the last term.** -/
theorem crash_loses_entry :
    followerOfOne.WellFormed ∧
      (LogOperation.handleAppendEntries overwritingEntry).Legal followerOfOne ∧
      2 < (followerOfOne.appendEntriesWrites overwritingEntry).length ∧
      interruptedFollower.lastApplied = 0 ∧ interruptedFollower.lastLogIndex = 1 ∧
      interruptedFollower.lastLogTerm = 0 ∧ interruptedFollower.storage.entry? 1 = none ∧
      ¬ interruptedFollower.LogRecovered := by
  have hloaded : 2 < (followerOfOne.appendEntriesWrites overwritingEntry).length ∧
      interruptedFollower.lastApplied = 0 ∧ interruptedFollower.lastLogIndex = 1 ∧
      interruptedFollower.lastLogTerm = 0 ∧ interruptedFollower.storage.entry? 1 = none := by
    rw [interruptedFollower, followerOfOne, genesis_eq]
    decide +kernel
  obtain ⟨hlen, happlied, hlast, hterm, hnone⟩ := hloaded
  refine ⟨wellFormed_followerOfOne, ⟨consecutive_cons.mpr ⟨rfl, consecutive_nil _⟩, by decide⟩,
    hlen, happlied, hlast, hterm, hnone, fun hrec => ?_⟩
  obtain ⟨e, he, -⟩ := hrec.entries 1 (by omega) (by omega)
  rw [hnone] at he
  cases he

/-- One write earlier nothing is lost. -/
theorem crash_consistent_before_delete :
    RaftNode.LogRecovered
      (followerOfOne.crashed (followerOfOne.appendEntriesWrites overwritingEntry) 1) := by
  have hlen : 1 ≤ ((LogOperation.handleAppendEntries overwritingEntry).writes
      followerOfOne).length ∧ (followerOfOne.acceptWrites overwritingEntry.term).length = 1 := by
    rw [followerOfOne, genesis_eq]
    decide +kernel
  have hlegal : (LogOperation.handleAppendEntries overwritingEntry).Legal followerOfOne :=
    ⟨consecutive_cons.mpr ⟨rfl, consecutive_nil _⟩, by decide⟩
  refine (crash_consistent_iff wellFormed_followerOfOne hlegal hlen.1).mpr ?_
  rintro ⟨-, -, e, -, hbad⟩
  rw [hlen.2] at hbad
  rcases hbad with ⟨hpos, -, -⟩ | ⟨hend, -, -⟩
  · omega
  · rw [length_truncateLogWrites wellFormed_followerOfOne.cache_stored] at hend
    omega

end RaftConsensus
