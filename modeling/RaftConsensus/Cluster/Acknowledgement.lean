import RaftConsensus.Cluster.PendingRequests

/-!
# Acknowledgements when writes fail

RocksDB reports the outcome of every write, and the store does not look at it.  Here every write of
`handleAppendEntries` has an outcome: it takes effect, or it changes nothing.  Within one call each
write happens at most once, so a pattern of outcomes is a function of the write.

* `tryHandleAppendEntries` — the handler under a pattern of outcomes;
  `tryHandleAppendEntries_ok` says that without failures it is `handleAppendEntries`.
* `Acknowledged` — what an acknowledgement stands for: the entries are stored, and the last index is
  the same in RAM, in the cache and on disk.
* `acknowledged_iff` — a positive reply stands for that exactly when the writes that matter have
  taken effect.
-/

namespace RaftConsensus

/-- The writes of `handleAppendEntries`. -/
inductive StoreWrite
  /-- The batch of `saveHardState`. -/
  | saveHardState
  /-- The `Delete` of an entry in `truncateLog`. -/
  | deleteEntry (index : ℤ)
  /-- The `Put` of the last index in `truncateLog`. -/
  | putLastIndex
  /-- The batch of `appendLog`. -/
  | appendLog (index : ℤ)
  deriving DecidableEq

/-- Which writes take effect. -/
abbrev Outcomes := StoreWrite → Bool

namespace RocksDBStore

variable {o : Outcomes} {s : RocksDBStore} {e : LogEntry} {i c : ℤ}

/-! ## Writes that may fail -/

/-- The cache moves on even if the batch fails. -/
def tryAppendLog (o : Outcomes) (s : RocksDBStore) (entry : LogEntry) : RocksDBStore where
  db := if o (.appendLog entry.index) then (s.appendLog entry).db else s.db
  lastLogIndexCache := entry.index

def tryTruncateLog (o : Outcomes) (s : RocksDBStore) (startIndex : ℤ) : RocksDBStore where
  db :=
    let db := (loopRange startIndex s.lastLogIndexCache).foldl
      (fun db i => if o (.deleteEntry i) then db.delete (formatLogKey i) else db) s.db
    if o .putLastIndex then db.put lastLogIndexKey (.num (startIndex - 1)) else db
  lastLogIndexCache := startIndex - 1

lemma tryAppendLog_ok : s.tryAppendLog (fun _ => true) e = s.appendLog e := rfl

lemma tryTruncateLog_ok : s.tryTruncateLog (fun _ => true) c = s.truncateLog c := rfl

lemma entry?_tryAppendLog :
    RocksDBStore.entry? (s.tryAppendLog o e) i =
      if i = e.index ∧ o (.appendLog e.index) then some e else s.entry? i := by
  by_cases hok : o (.appendLog e.index) = true
  · have hdb : (s.tryAppendLog o e).db = (s.appendLog e).db := by
      rw [tryAppendLog, if_pos hok]
    rw [entry?_of_db hdb, entry?_appendLog]
    simp [hok]
  · have hdb : (s.tryAppendLog o e).db = s.db := by
      rw [tryAppendLog, if_neg hok]
    rw [entry?_of_db hdb, if_neg fun h => hok h.2]

lemma storedLastLogIndex_tryAppendLog :
    (s.tryAppendLog o e).storedLastLogIndex =
      if o (.appendLog e.index) then e.index else s.storedLastLogIndex := by
  by_cases hok : o (.appendLog e.index) = true
  · have hdb : (s.tryAppendLog o e).db = (s.appendLog e).db := by
      rw [tryAppendLog, if_pos hok]
    rw [storedLastLogIndex_of_db hdb, storedLastLogIndex_appendLog, if_pos hok]
  · have hdb : (s.tryAppendLog o e).db = s.db := by
      rw [tryAppendLog, if_neg hok]
    rw [storedLastLogIndex_of_db hdb, if_neg hok]

/-- The deletions that take effect. -/
lemma entry?_tryTruncateLog :
    RocksDBStore.entry? (s.tryTruncateLog o c) i =
      if c ≤ i ∧ i ≤ s.lastLogIndexCache ∧ o (.deleteEntry i) then none else s.entry? i := by
  have hsys : formatLogKey i ≠ lastLogIndexKey := ne_of_head (by simp)
  have hget : (s.tryTruncateLog o c).db.get (formatLogKey i) =
      (((loopRange c s.lastLogIndexCache).filter fun j => o (.deleteEntry j)).foldl
        (fun db j => db.delete (formatLogKey j)) s.db).get (formatLogKey i) := by
    rw [List.foldl_filter]
    show KVMap.get (if o .putLastIndex then _ else _) _ = _
    split
    · rw [KVMap.get_put, if_neg hsys]
    · rfl
  have hmem : formatLogKey i ∈
      ((loopRange c s.lastLogIndexCache).filter fun j => o (.deleteEntry j)).map formatLogKey ↔
        c ≤ i ∧ i ≤ s.lastLogIndexCache ∧ o (.deleteEntry i) := by
    rw [List.mem_map_of_injective formatLogKey_injective, List.mem_filter, mem_loopRange, and_assoc]
  rw [RocksDBStore.entry?, hget, KVMapLog.get_foldl_delete]
  by_cases h : c ≤ i ∧ i ≤ s.lastLogIndexCache ∧ o (.deleteEntry i)
  · rw [if_pos (hmem.mpr h), if_pos h]
    rfl
  · rw [if_neg (mt hmem.mp h), if_neg h, entry?]

end RocksDBStore

namespace RaftNode

variable {o : Outcomes} {n : RaftNode} {e : LogEntry} {prev : ℤ}

/-! ## The handler -/

/-- RAM moves on even if the write of the hard state fails. -/
def tryAcceptLeader (o : Outcomes) (n : RaftNode) (term leaderId : ℤ) : RaftNode :=
  { n.acceptLeader term leaderId with
    storage := if o .saveHardState then (n.acceptLeader term leaderId).storage else n.storage }

def tryAppendEntry (o : Outcomes) (n : RaftNode) (currentIndex : ℤ) (entry : LogEntry) :
    RaftNode :=
  if currentIndex ≤ n.lastLogIndex then
    if (n.storage.getLogEntry currentIndex).term ≠ entry.term then
      { n with
        storage := (n.storage.tryTruncateLog o currentIndex).tryAppendLog o entry
        lastLogIndex := currentIndex
        lastLogTerm := entry.term }
    else n
  else
    { n with
      storage := n.storage.tryAppendLog o entry
      lastLogIndex := currentIndex
      lastLogTerm := entry.term }

def tryAppendLoop (o : Outcomes) (n : RaftNode) (prevLogIndex : ℤ) : List LogEntry → RaftNode
  | [] => n
  | entry :: entries =>
      (n.tryAppendEntry o (prevLogIndex + 1) entry).tryAppendLoop o (prevLogIndex + 1) entries

def tryHandleAppendEntries (o : Outcomes) (n : RaftNode) (args : AppendEntriesArgs) :
    RaftNode × AppendEntriesReply :=
  if args.term < n.currentTerm then (n, ⟨n.currentTerm, false⟩)
  else
    let n := n.tryAcceptLeader o args.term args.leaderId
    if n.consistentAt args then
      let n := (n.tryAppendLoop o args.prevLogIndex args.entries).followCommit args.leaderCommit
      (n, ⟨n.currentTerm, true⟩)
    else (n, ⟨n.currentTerm, false⟩)

lemma tryAppendLoop_ok {es : List LogEntry} :
    ∀ {n : RaftNode} {prev : ℤ},
      n.tryAppendLoop (fun _ => true) prev es = n.appendLoop prev es := by
  induction es with
  | nil => exact rfl
  | cons e es ih =>
      intro n prev
      rw [tryAppendLoop, appendLoop, ih]
      rfl

/-- **Without failures it is the handler.** -/
theorem tryHandleAppendEntries_ok (n : RaftNode) (args : AppendEntriesArgs) :
    n.tryHandleAppendEntries (fun _ => true) args = n.handleAppendEntries args := by
  rw [tryHandleAppendEntries, handleAppendEntries]
  have haccept : n.tryAcceptLeader (fun _ => true) args.term args.leaderId =
      n.acceptLeader args.term args.leaderId := rfl
  simp only [haccept, tryAppendLoop_ok]

/-! ## What an acknowledgement stands for -/

/-- The last index is the same in RAM, in the cache and on disk. -/
def Synced (n : RaftNode) : Prop :=
  n.storage.lastLogIndexCache = n.lastLogIndex ∧ n.storage.storedLastLogIndex = n.lastLogIndex

/-- The entries are stored, each at its index, and there is one last index. -/
def Acknowledged (n : RaftNode) (es : List LogEntry) : Prop :=
  (∀ e ∈ es, n.storage.entry? e.index = some e) ∧ n.Synced

/-- The append loop leaves the entry of a message alone: there is one of the same term at its
index. -/
def keeps (n : RaftNode) (e : LogEntry) : Prop :=
  e.index ≤ n.lastLogIndex ∧ (n.storage.getLogEntry e.index).term = e.term

instance (n : RaftNode) (e : LogEntry) : Decidable (n.keeps e) :=
  inferInstanceAs (Decidable (_ ∧ _))

/-- The writes that matter: the last append takes effect, and so does every other one, unless the
entry has been there before and its deletion fails. -/
def AppendsTakeEffect (o : Outcomes) (n : RaftNode) (es : List LogEntry) : Prop :=
  (∀ e ∈ es.getLast?, o (.appendLog e.index)) ∧
    ∀ e ∈ es, o (.appendLog e.index) ∨
      n.storage.entry? e.index = some e ∧
        (e.index ≤ n.lastLogIndex → o (.deleteEntry e.index) = false)

/-- The entries that are kept are those of the message, and the others are appended. -/
def EntriesReachDisk (o : Outcomes) (n : RaftNode) (es : List LogEntry) : Prop :=
  (∀ e ∈ es.takeWhile fun x => n.keeps x, n.storage.entry? e.index = some e) ∧
    n.AppendsTakeEffect o (es.dropWhile fun x => n.keeps x)

/-! ## The append loop -/

lemma tryAppendEntry_beyond {i : ℤ} (hi : n.lastLogIndex < i) :
    n.tryAppendEntry o i e =
      { n with
        storage := n.storage.tryAppendLog o e
        lastLogIndex := i
        lastLogTerm := e.term } := by
  rw [tryAppendEntry, if_neg (by omega)]

/-- The loop writes at its own indices only. -/
lemma entry?_tryAppendLoop {es : List LogEntry} :
    ∀ {n : RaftNode} {prev j : ℤ}, Consecutive (prev + 1) es → j ≤ prev →
      (n.tryAppendLoop o prev es).storage.entry? j = n.storage.entry? j := by
  induction es with
  | nil => exact fun _ _ => rfl
  | cons e es ih =>
      intro n prev j hes hj
      obtain ⟨he, htail⟩ := consecutive_cons.mp hes
      rw [tryAppendLoop, ih htail (by omega), tryAppendEntry]
      split
      · split
        · show RocksDBStore.entry? ((n.storage.tryTruncateLog o (prev + 1)).tryAppendLog o e) j = _
          rw [RocksDBStore.entry?_tryAppendLog, if_neg (by omega),
            RocksDBStore.entry?_tryTruncateLog, if_neg (by omega)]
        · rfl
      · show RocksDBStore.entry? (n.storage.tryAppendLog o e) j = _
        rw [RocksDBStore.entry?_tryAppendLog, if_neg (by omega)]

/-- From the end of the log on. -/
lemma acknowledged_appending_iff {es : List LogEntry} :
    ∀ {n : RaftNode} {prev : ℤ}, n.lastLogIndex ≤ prev → n.storage.storedLastLogIndex ≤ prev →
      Consecutive (prev + 1) es →
        ((n.tryAppendLoop o prev es).Acknowledged es ↔
          (es = [] → n.Synced) ∧ (∀ e ∈ es.getLast?, o (.appendLog e.index)) ∧
            ∀ e ∈ es, o (.appendLog e.index) ∨ n.storage.entry? e.index = some e) := by
  induction es with
  | nil =>
      intro n prev _ _ _
      simp [Acknowledged, tryAppendLoop]
  | cons e es ih =>
      intro n prev hlast hstored hes
      obtain ⟨he, htail⟩ := consecutive_cons.mp hes
      have hbeyond : n.lastLogIndex < prev + 1 := by omega
      have hnext := tryAppendEntry_beyond (o := o) (e := e) hbeyond
      set m := n.tryAppendEntry o (prev + 1) e with hm
      have hstorage : m.storage = n.storage.tryAppendLog o e := by rw [hnext]
      have hmlast : m.lastLogIndex = prev + 1 := by rw [hnext]
      have hmstored : m.storage.storedLastLogIndex =
          if o (.appendLog e.index) then e.index else n.storage.storedLastLogIndex := by
        rw [hstorage, RocksDBStore.storedLastLogIndex_tryAppendLog]
      have hmle : m.storage.storedLastLogIndex ≤ prev + 1 := by
        rw [hmstored]
        split
        · exact he.le
        · omega
      have hsynced : m.Synced ↔ o (.appendLog e.index) = true := by
        rw [Synced, hmlast, hmstored, hstorage]
        show e.index = prev + 1 ∧ _ ↔ _
        split
        · rename_i hok
          exact ⟨fun _ => hok, fun _ => ⟨he, he⟩⟩
        · rename_i hok
          exact ⟨fun h => absurd h.2 (by omega), fun h => absurd h hok⟩
      have hfirst : (m.tryAppendLoop o (prev + 1) es).storage.entry? e.index = some e ↔
          o (.appendLog e.index) = true ∨ n.storage.entry? e.index = some e := by
        rw [entry?_tryAppendLoop htail he.le, hstorage, RocksDBStore.entry?_tryAppendLog]
        by_cases hok : o (.appendLog e.index) = true
        · simp [hok]
        · simp [hok]
      have hothers : ∀ x ∈ es, m.storage.entry? x.index = n.storage.entry? x.index := by
        intro x hx
        obtain ⟨j, hj⟩ := List.getElem?_of_mem hx
        have hindex := htail j x hj
        rw [hstorage, RocksDBStore.entry?_tryAppendLog, if_neg (by omega)]
      have hrest := ih (n := m) hmlast.le hmle htail
      have hmine : (m.tryAppendLoop o (prev + 1) es).Acknowledged (e :: es) ↔
          (m.tryAppendLoop o (prev + 1) es).storage.entry? e.index = some e ∧
            (m.tryAppendLoop o (prev + 1) es).Acknowledged es := by
        simp [Acknowledged, and_assoc]
      rw [tryAppendLoop, ← hm, hmine, hfirst, hrest, hsynced]
      have htailEntries : (∀ x ∈ es, o (.appendLog x.index) = true ∨
          m.storage.entry? x.index = some x) ↔
            ∀ x ∈ es, o (.appendLog x.index) = true ∨ n.storage.entry? x.index = some x :=
        forall₂_congr fun x hx => by rw [hothers x hx]
      rw [htailEntries]
      cases es with
      | nil => simp [and_comm]
      | cons x xs =>
          rw [List.getLast?_cons_cons]
          constructor
          · rintro ⟨hhead, -, hlast, hall⟩
            exact ⟨fun h => (by cases h), hlast, List.forall_mem_cons.mpr ⟨hhead, hall⟩⟩
          · rintro ⟨-, hlast, hall⟩
            obtain ⟨hhead, hall⟩ := List.forall_mem_cons.mp hall
            exact ⟨hhead, fun h => (by cases h), hlast, hall⟩

/-- At the first entry in conflict: the append of that entry must take effect. -/
lemma acknowledged_conflict_iff {es : List LogEntry} (hsync : n.Synced)
    (hle : prev + 1 ≤ n.lastLogIndex)
    (hterm : (n.storage.getLogEntry (prev + 1)).term ≠ e.term)
    (hes : Consecutive (prev + 1) (e :: es)) :
    (n.tryAppendLoop o prev (e :: es)).Acknowledged (e :: es) ↔
      n.AppendsTakeEffect o (e :: es) := by
  obtain ⟨he, htail⟩ := consecutive_cons.mp hes
  have hnot : n.storage.entry? e.index ≠ some e := by
    intro hsome
    rw [he] at hsome
    rw [RocksDBStore.getLogEntry_of_entry? hsome] at hterm
    exact hterm rfl
  set m := n.tryAppendEntry o (prev + 1) e with hm
  have hcut : m =
      { n with
        storage := (n.storage.tryTruncateLog o (prev + 1)).tryAppendLog o e
        lastLogIndex := prev + 1
        lastLogTerm := e.term } := by
    rw [hm, tryAppendEntry, if_pos hle, if_pos hterm]
  have hentry : ∀ i, m.storage.entry? i =
      if i = e.index ∧ o (.appendLog e.index) then some e
      else if prev + 1 ≤ i ∧ i ≤ n.lastLogIndex ∧ o (.deleteEntry i) then none
      else n.storage.entry? i := by
    intro i
    rw [hcut]
    show RocksDBStore.entry? ((n.storage.tryTruncateLog o (prev + 1)).tryAppendLog o e) i = _
    rw [RocksDBStore.entry?_tryAppendLog, RocksDBStore.entry?_tryTruncateLog, hsync.1]
  have hmine : (m.tryAppendLoop o (prev + 1) es).Acknowledged (e :: es) ↔
      (m.tryAppendLoop o (prev + 1) es).storage.entry? e.index = some e ∧
        (m.tryAppendLoop o (prev + 1) es).Acknowledged es := by
    simp [Acknowledged, and_assoc]
  rw [tryAppendLoop, ← hm, hmine, entry?_tryAppendLoop htail he.le, hentry]
  by_cases hok : o (.appendLog e.index) = true
  · have hmlast : m.lastLogIndex = prev + 1 := by rw [hcut]
    have hmstored : m.storage.storedLastLogIndex = prev + 1 := by
      rw [hcut]
      show ((n.storage.tryTruncateLog o (prev + 1)).tryAppendLog o e).storedLastLogIndex = _
      rw [RocksDBStore.storedLastLogIndex_tryAppendLog, if_pos hok, he]
    have hmsync : m.Synced := by
      refine ⟨?_, hmstored.trans hmlast.symm⟩
      rw [hcut]
      exact he
    have hothers : ∀ x ∈ es, (m.storage.entry? x.index = some x ↔
        n.storage.entry? x.index = some x ∧
          (x.index ≤ n.lastLogIndex → o (.deleteEntry x.index) = false)) := by
      intro x hx
      obtain ⟨j, hj⟩ := List.getElem?_of_mem hx
      have hindex := htail j x hj
      rw [hentry, if_neg (by omega)]
      by_cases hgone : prev + 1 ≤ x.index ∧ x.index ≤ n.lastLogIndex ∧ o (.deleteEntry x.index)
      · rw [if_pos hgone]
        exact iff_of_false (by simp) fun h => by simp [h.2 hgone.2.1] at hgone
      · rw [if_neg hgone]
        refine ⟨fun h => ⟨h, fun hxle => ?_⟩, And.left⟩
        by_contra hdel
        exact hgone ⟨by omega, hxle, by simpa using hdel⟩
    rw [if_pos ⟨rfl, hok⟩, acknowledged_appending_iff hmlast.le hmstored.le htail]
    unfold AppendsTakeEffect
    rw [forall₂_congr fun x hx => or_congr_right (hothers x hx)]
    constructor
    · rintro ⟨-, -, hlast, hall⟩
      refine ⟨?_, List.forall_mem_cons.mpr ⟨.inl hok, hall⟩⟩
      cases es with
      | nil => simpa using hok
      | cons x xs => rwa [List.getLast?_cons_cons]
    · rintro ⟨hlast, hall⟩
      refine ⟨rfl, fun _ => hmsync, ?_, (List.forall_mem_cons.mp hall).2⟩
      cases es with
      | nil => simp
      | cons x xs => rwa [List.getLast?_cons_cons] at hlast
  · refine iff_of_false ?_ ?_
    · rintro ⟨hsome, -⟩
      rw [if_neg fun h => hok h.2] at hsome
      split at hsome
      · cases hsome
      · exact hnot hsome
    · rintro ⟨-, hall⟩
      rcases (List.forall_mem_cons.mp hall).1 with h | h
      · exact hok h
      · exact hnot h.1

/-- **The append loop**: the entries are stored and there is one last index exactly when they reach
the disk. -/
lemma acknowledged_appendLoop_iff {es : List LogEntry} (hsync : n.Synced) :
    ∀ {prev : ℤ}, Consecutive (prev + 1) es →
      ((n.tryAppendLoop o prev es).Acknowledged es ↔ n.EntriesReachDisk o es) := by
  induction es with
  | nil =>
      intro prev _
      simp [Acknowledged, tryAppendLoop, EntriesReachDisk, AppendsTakeEffect, hsync]
  | cons e es ih =>
      intro prev hes
      obtain ⟨he, htail⟩ := consecutive_cons.mp hes
      unfold EntriesReachDisk
      by_cases hkept : n.keeps e
      · have hsame : n.tryAppendEntry o (prev + 1) e = n := by
          rw [tryAppendEntry, if_pos (he ▸ hkept.1), if_neg (not_not.mpr (he ▸ hkept.2))]
        have hmine : (n.tryAppendLoop o (prev + 1) es).Acknowledged (e :: es) ↔
            (n.tryAppendLoop o (prev + 1) es).storage.entry? e.index = some e ∧
              (n.tryAppendLoop o (prev + 1) es).Acknowledged es := by
          simp [Acknowledged, and_assoc]
        rw [tryAppendLoop, hsame, hmine, entry?_tryAppendLoop htail he.le, ih htail,
          List.takeWhile_cons_of_pos (by simpa using hkept),
          List.dropWhile_cons_of_pos (by simpa using hkept), List.forall_mem_cons, and_assoc]
        rfl
      · rw [List.takeWhile_cons_of_neg (by simpa using hkept),
          List.dropWhile_cons_of_neg (by simpa using hkept)]
        simp only [List.not_mem_nil, false_imp_iff, implies_true, true_and]
        by_cases hle : prev + 1 ≤ n.lastLogIndex
        · exact acknowledged_conflict_iff hsync hle
            (fun hterm => hkept ⟨he ▸ hle, he ▸ hterm⟩) hes
        · rw [acknowledged_appending_iff (by omega) (by rw [hsync.2]; omega) hes]
          unfold AppendsTakeEffect
          have hbeyond : ∀ x ∈ e :: es, ¬ x.index ≤ n.lastLogIndex := by
            intro x hx
            obtain ⟨j, hj⟩ := List.getElem?_of_mem hx
            have hindex := hes j x hj
            omega
          have hsimple : ∀ x ∈ e :: es, (n.storage.entry? x.index = some x ∧
              (x.index ≤ n.lastLogIndex → o (.deleteEntry x.index) = false) ↔
                n.storage.entry? x.index = some x) :=
            fun x hx => ⟨And.left, fun h => ⟨h, fun hle => absurd hle (hbeyond x hx)⟩⟩
          rw [forall₂_congr fun x hx => or_congr_right (hsimple x hx)]
          exact ⟨And.right, fun h => ⟨fun h' => (by cases h'), h⟩⟩

/-! ## The reply -/

lemma logView_tryAcceptLeader (o : Outcomes) (n : RaftNode) (t l : ℤ) :
    (n.tryAcceptLeader o t l).logView = n.logView := by
  rw [← logView_acceptLeader n t l]
  have hlast : (n.acceptLeader t l).logView = n.logView := logView_acceptLeader n t l
  obtain ⟨-, -, -, hentry, hcache, hstored, happlied⟩ := logView_inj hlast
  unfold tryAcceptLeader logView
  cases o .saveHardState with
  | true => rfl
  | false => simp [hentry, hcache, hstored, happlied]

variable {n' : RaftNode} {es : List LogEntry}

lemma acknowledged_congr (h : n'.logView = n.logView) :
    n'.Acknowledged es ↔ n.Acknowledged es := by
  obtain ⟨hlast, -, -, hentry, hcache, hstored, -⟩ := logView_inj h
  unfold Acknowledged Synced
  rw [hlast, hentry, hcache, hstored]

lemma entriesReachDisk_congr (h : n'.logView = n.logView) :
    n'.EntriesReachDisk o es ↔ n.EntriesReachDisk o es := by
  obtain ⟨hlast, -, -, hentry, -⟩ := logView_inj h
  have hkeeps : (fun x => decide (n'.keeps x)) = fun x => decide (n.keeps x) := by
    funext x
    exact decide_eq_decide.mpr (by simp only [keeps, hlast, getLogEntry_of_logView h])
  unfold EntriesReachDisk AppendsTakeEffect
  rw [hkeeps, hlast, hentry]

end RaftNode

/-- **A positive reply and what it stands for.**  In every state with one last index, for every
message with consecutive entries and every pattern of outcomes: if the reply is positive, the
entries are stored and there still is one last index — exactly when, on a message that passes the
checks, the entries that the log keeps are those of the message, and the appends take effect. -/
theorem acknowledged_iff {o : Outcomes} {n : RaftNode} {args : AppendEntriesArgs}
    (hsync : n.Synced) (hes : Consecutive (args.prevLogIndex + 1) args.entries) :
    ((n.tryHandleAppendEntries o args).2.success = true →
        (n.tryHandleAppendEntries o args).1.Acknowledged args.entries) ↔
      (n.currentTerm ≤ args.term → n.consistentAt args → n.EntriesReachDisk o args.entries) := by
  have hview := RaftNode.logView_tryAcceptLeader o n args.term args.leaderId
  obtain ⟨hlast, -, -, -, hcache, hstored, -⟩ := RaftNode.logView_inj hview
  have hcons := RaftNode.consistentAt_congr hview
    (RaftNode.lastLogTerm_acceptLeader n args.term args.leaderId) args
  have hsync' : (n.tryAcceptLeader o args.term args.leaderId).Synced :=
    ⟨hcache.trans (hsync.1.trans hlast.symm), hstored.trans (hsync.2.trans hlast.symm)⟩
  unfold RaftNode.tryHandleAppendEntries
  by_cases hold : args.term < n.currentTerm
  · rw [if_pos hold]
    exact iff_of_true (fun h => by cases h) fun h => absurd h (by omega)
  · rw [if_neg hold]
    dsimp only
    by_cases hok : n.consistentAt args
    · rw [if_pos (hcons.mpr hok), RaftNode.acknowledged_congr (RaftNode.logView_followCommit _ _),
        RaftNode.acknowledged_appendLoop_iff hsync' hes, RaftNode.entriesReachDisk_congr hview]
      exact ⟨fun h _ _ => h rfl, fun h _ => h (not_lt.mp hold) hok⟩
    · rw [if_neg (mt hcons.mp hok)]
      exact iff_of_true (fun h => by cases h) fun _ h => absurd h hok

/-- A node that has just been set up. -/
def freshNode : RaftNode := .new ⟨1, [1, 2]⟩ .genesis

lemma synced_freshNode : freshNode.Synced ∧ freshNode.lastLogIndex = 0 := by
  rw [freshNode, RocksDBStore.genesis_eq]
  unfold RaftNode.Synced
  decide +kernel

/-- A fresh node takes the first entry of a leader, and all writes take effect. -/
theorem acknowledged_first_entry :
    (freshNode.tryHandleAppendEntries (fun _ => true) overwritingEntry).2.success = true ∧
      (freshNode.tryHandleAppendEntries (fun _ => true) overwritingEntry).1.Acknowledged
        overwritingEntry.entries := by
  obtain ⟨hsync, hlast⟩ := synced_freshNode
  have hsuccess :
      (freshNode.tryHandleAppendEntries (fun _ => true) overwritingEntry).2.success = true := by
    rw [freshNode, RocksDBStore.genesis_eq]
    decide +kernel
  refine ⟨hsuccess, (acknowledged_iff hsync ?_).mpr (fun _ _ => ⟨?_, ?_⟩) hsuccess⟩
  · exact consecutive_cons.mpr ⟨rfl, consecutive_nil _⟩
  · have hkeeps : ∀ e ∈ overwritingEntry.entries, ¬ freshNode.keeps e := by
      intro e he hkept
      obtain rfl := List.mem_singleton.mp he
      exact absurd (hlast ▸ hkept.1) (by decide)
    intro e he
    have hmem := List.mem_takeWhile_imp he
    have hin := (List.takeWhile_sublist _).subset he
    exact absurd (of_decide_eq_true hmem) (hkeeps e hin)
  · exact ⟨fun _ _ => rfl, fun _ _ => .inl rfl⟩

/-- The write of an entry at index `1` fails, and every other one takes effect. -/
def firstAppendFails : Outcomes := fun w => w ≠ .appendLog 1

/-- **An entry that is nowhere is acknowledged.**  The reply is positive, RAM counts the entry, and
it is not on disk. -/
theorem acknowledged_without_storage :
    freshNode.Synced ∧ Consecutive (overwritingEntry.prevLogIndex + 1) overwritingEntry.entries ∧
      (freshNode.tryHandleAppendEntries firstAppendFails overwritingEntry).2.success = true ∧
      ∃ n, (freshNode.tryHandleAppendEntries firstAppendFails overwritingEntry).1 = n ∧
        n.storage.entry? 1 = none ∧ n.lastLogIndex = 1 ∧ n.storage.lastLogIndexCache = 1 ∧
        n.storage.storedLastLogIndex = 0 ∧ ¬ n.Acknowledged overwritingEntry.entries := by
  have hfailed : (freshNode.tryHandleAppendEntries firstAppendFails overwritingEntry).2.success =
        true ∧
      ∃ n, (freshNode.tryHandleAppendEntries firstAppendFails overwritingEntry).1 = n ∧
        n.storage.entry? 1 = none ∧ n.lastLogIndex = 1 ∧ n.storage.lastLogIndexCache = 1 ∧
        n.storage.storedLastLogIndex = 0 := by
    rw [freshNode, RocksDBStore.genesis_eq]
    refine ⟨by decide +kernel, _, rfl, ?_⟩
    decide +kernel
  obtain ⟨hsuccess, n, hn, hnone, hlast, hcache, hstored⟩ := hfailed
  refine ⟨synced_freshNode.1, consecutive_cons.mpr ⟨rfl, consecutive_nil _⟩, hsuccess, n, hn, hnone,
    hlast, hcache, hstored, fun hack => ?_⟩
  have hsync := hack.2.2
  omega

end RaftConsensus
