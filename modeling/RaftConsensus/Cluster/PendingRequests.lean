import RaftConsensus.Cluster.ApplyOrder
import RaftConsensus.Storage.Entries

/-!
# Pending requests

`pending_callbacks_` refuses a request that is already being processed.  It is written by
`processClientRequest` and the executor only, while entries leave the log, or are passed over, in
other places too: a conflicting `AppendEntries` cuts the log, a snapshot replaces it, and a
fetched entry may be missing.  The id of such an entry stays in the map for good.

In every run of a node in which no entry of a pending request is lost in this way (`Tidy`), every
pending request has an entry in the log that is still to be applied (`pending_in_log`).
-/

namespace RaftConsensus

variable {n n' : RaftNode} {m m' : Machine} {e : LogEntry}

namespace RaftNode

/-- The log has an entry for the request that is still to be applied. -/
def CanExecute (n : RaftNode) (id : Bytes) : Prop :=
  ∃ i x, n.lastApplied < i ∧ i ≤ n.lastLogIndex ∧ n.storage.entry? i = some x ∧
    x.command.requestId = id

/-- **Pending requests can be executed**, and the last index is the same in RAM, in the cache and
in the store, and not below what has been applied. -/
structure PendingOk (n : RaftNode) : Prop where
  cache : n.storage.lastLogIndexCache = n.lastLogIndex
  stored : n.storage.storedLastLogIndex = n.lastLogIndex
  applied : 0 ≤ n.lastApplied ∧ n.lastApplied ≤ n.lastLogIndex
  storedApplied : 0 ≤ n.storage.getLastAppliedIndex ∧
    n.storage.getLastAppliedIndex ≤ n.lastLogIndex
  pending : ∀ id, n.pendingCallbacks id ≠ none → n.CanExecute id

/-- The part of a node that pending requests depend on. -/
structure LogView where
  lastLogIndex : ℤ
  lastApplied : ℤ
  pendingCallbacks : Bytes → Option ℕ
  entry? : ℤ → Option LogEntry
  cache : ℤ
  stored : ℤ
  storedApplied : ℤ

def logView (n : RaftNode) : LogView :=
  ⟨n.lastLogIndex, n.lastApplied, n.pendingCallbacks, n.storage.entry?,
    n.storage.lastLogIndexCache, n.storage.storedLastLogIndex, n.storage.getLastAppliedIndex⟩

lemma logView_inj (h : n'.logView = n.logView) :
    n'.lastLogIndex = n.lastLogIndex ∧ n'.lastApplied = n.lastApplied ∧
      n'.pendingCallbacks = n.pendingCallbacks ∧ n'.storage.entry? = n.storage.entry? ∧
      n'.storage.lastLogIndexCache = n.storage.lastLogIndexCache ∧
      n'.storage.storedLastLogIndex = n.storage.storedLastLogIndex ∧
      n'.storage.getLastAppliedIndex = n.storage.getLastAppliedIndex := by
  simpa [logView] using h

lemma getLogEntry_of_logView (h : n'.logView = n.logView) (i : ℤ) :
    n'.storage.getLogEntry i = n.storage.getLogEntry i := by
  obtain ⟨-, -, -, hentry, -⟩ := logView_inj h
  rw [RocksDBStore.getLogEntry_eq, RocksDBStore.getLogEntry_eq, hentry]

/-- A write of the hard state is not about the log. -/
lemma logView_saveHardState {t v : ℤ} (hlast : n'.lastLogIndex = n.lastLogIndex)
    (happlied : n'.lastApplied = n.lastApplied)
    (hpending : n'.pendingCallbacks = n.pendingCallbacks)
    (hstorage : n'.storage = n.storage.saveHardState t v) : n'.logView = n.logView := by
  have hentry : RocksDBStore.entry? (n.storage.saveHardState t v) = n.storage.entry? := by
    funext i
    exact RocksDBStore.entry?_saveHardState
  simp [logView, hlast, happlied, hpending, hstorage, hentry]

namespace PendingOk

lemma still (h : n.PendingOk) (hview : n'.logView = n.logView) : n'.PendingOk := by
  obtain ⟨hlast, happlied, hpending, hentry, hcache, hstored, hstoredApplied⟩ := logView_inj hview
  refine ⟨?_, ?_, ?_, ?_, fun id hid => ?_⟩
  · rw [hcache, hlast, h.cache]
  · rw [hstored, hlast, h.stored]
  · rw [happlied, hlast]
    exact h.applied
  · rw [hstoredApplied, hlast]
    exact h.storedApplied
  · rw [hpending] at hid
    unfold CanExecute
    rw [happlied, hlast, hentry]
    exact h.pending id hid

/-- The log is cut back to `c - 1`, if it is longer, and ends in `e` at `c` then; no entry of a
pending request is cut off, unless `e` is for the same request. -/
lemma replace (h : n.PendingOk) {c : ℤ} (happlied : n.lastApplied < c)
    (hstored : n.storage.getLastAppliedIndex < c)
    (hlast : n'.lastLogIndex = c) (hsame : n'.lastApplied = n.lastApplied)
    (hentry : n'.storage.entry? c = some e)
    (hkept : ∀ i < c, n'.storage.entry? i = n.storage.entry? i)
    (hcache : n'.storage.lastLogIndexCache = c) (hstored' : n'.storage.storedLastLogIndex = c)
    (happlied' : n'.storage.getLastAppliedIndex = n.storage.getLastAppliedIndex)
    (hpending : ∀ id, n'.pendingCallbacks id ≠ none →
      id = e.command.requestId ∨ n.pendingCallbacks id ≠ none)
    (hspared : ∀ i x, c ≤ i → i ≤ n.lastLogIndex → n.storage.entry? i = some x →
      n.pendingCallbacks x.command.requestId = none) : n'.PendingOk where
  cache := by rw [hcache, hlast]
  stored := by rw [hstored', hlast]
  applied := by
    rw [hsame, hlast]
    exact ⟨h.applied.1, happlied.le⟩
  storedApplied := by
    rw [happlied', hlast]
    exact ⟨h.storedApplied.1, hstored.le⟩
  pending id hid := by
    rcases hpending id hid with rfl | hold
    · exact ⟨c, e, by rwa [hsame], hlast.ge, hentry, rfl⟩
    · obtain ⟨i, x, hlo, hhi, hx, rfl⟩ := h.pending id hold
      have hlt : i < c := by
        by_contra hge
        exact hold (hspared i x (not_lt.mp hge) hhi hx)
      exact ⟨i, x, by rwa [hsame], by rw [hlast]; exact hlt.le, (hkept i hlt).trans hx, rfl⟩

/-- An entry is appended at the end. -/
lemma append (h : n.PendingOk) (he : e.index = n.lastLogIndex + 1)
    (hlast : n'.lastLogIndex = n.lastLogIndex + 1) (hsame : n'.lastApplied = n.lastApplied)
    (hstorage : n'.storage = n.storage.appendLog e)
    (hpending : ∀ id, n'.pendingCallbacks id ≠ none →
      id = e.command.requestId ∨ n.pendingCallbacks id ≠ none) : n'.PendingOk := by
  refine h.replace (Int.lt_add_one_of_le h.applied.2)
    (Int.lt_add_one_of_le h.storedApplied.2) hlast hsame ?_ ?_ ?_ ?_ ?_ hpending ?_
  · rw [hstorage, RocksDBStore.entry?_appendLog, if_pos he.symm]
  · intro i hi
    rw [hstorage, RocksDBStore.entry?_appendLog, if_neg (by omega)]
  · rw [hstorage, RocksDBStore.lastLogIndexCache_appendLog, he]
  · rw [hstorage, RocksDBStore.storedLastLogIndex_appendLog, he]
  · rw [hstorage, RocksDBStore.getLastAppliedIndex_appendLog]
  · intro i x hlo hhi
    omega

/-- A conflicting entry cuts the log at its index. -/
lemma cut (h : n.PendingOk) (happlied : n.lastApplied < e.index)
    (hstored : n.storage.getLastAppliedIndex < e.index)
    (hspared : ∀ i x, e.index ≤ i → i ≤ n.lastLogIndex → n.storage.entry? i = some x →
      n.pendingCallbacks x.command.requestId = none) :
    PendingOk { n with
      storage := (n.storage.truncateLog e.index).appendLog e
      lastLogIndex := e.index
      lastLogTerm := e.term } := by
  refine h.replace (e := e) happlied hstored rfl rfl ?_ ?_ rfl (by simp) (by simp)
    (fun id hid => .inr hid) hspared
  · rw [RocksDBStore.entry?_appendLog, if_pos rfl]
  · intro i hi
    rw [RocksDBStore.entry?_appendLog, if_neg (by omega), RocksDBStore.entry?_truncateLog,
      if_neg (by omega)]

end PendingOk

/-! ## The handlers -/

lemma logView_becomeFollower (n : RaftNode) (t : ℤ) : (n.becomeFollower t).logView = n.logView :=
  logView_saveHardState rfl rfl rfl rfl

lemma logView_seeTerm (n : RaftNode) (t : ℤ) : (n.seeTerm t).logView = n.logView := by
  rcases seeTerm_cases n t with ⟨h, -⟩ | ⟨-, h⟩
  · rw [h]
  · rw [h]
    exact logView_becomeFollower n t

lemma logView_acceptLeader (n : RaftNode) (t l : ℤ) : (n.acceptLeader t l).logView = n.logView := by
  unfold acceptLeader
  dsimp only
  split
  · exact logView_becomeFollower { n with leaderId := l } t
  · split
    · exact logView_becomeFollower { n with leaderId := l } t
    · rfl

lemma lastLogTerm_acceptLeader (n : RaftNode) (t l : ℤ) :
    (n.acceptLeader t l).lastLogTerm = n.lastLogTerm := by
  unfold acceptLeader
  dsimp only
  split
  · rfl
  · split <;> rfl

/-- The consistency check looks at the log only. -/
lemma consistentAt_congr (h : n'.logView = n.logView) (hterm : n'.lastLogTerm = n.lastLogTerm)
    (args : AppendEntriesArgs) : n'.consistentAt args ↔ n.consistentAt args := by
  obtain ⟨hlast, -⟩ := logView_inj h
  unfold consistentAt
  rw [hlast, hterm, getLogEntry_of_logView h]

lemma logView_followCommit (n : RaftNode) (c : ℤ) : (n.followCommit c).logView = n.logView := by
  unfold followCommit
  split <;> rfl

lemma logView_handleRequestVote (n : RaftNode) (args : RequestVoteArgs) :
    (n.handleRequestVote args).1.logView = n.logView := by
  rcases handleRequestVote_cases n args with h | ⟨-, -, ⟨-, h, -⟩ | h⟩
  · rw [h]
  · rw [h]
    refine Eq.trans ?_ (logView_seeTerm n args.term)
    exact logView_saveHardState rfl rfl rfl rfl
  · rw [h]
    exact logView_seeTerm n args.term

/-- The entry of a message is not the one the log has at its index. -/
def conflictsWith (n : RaftNode) (e : LogEntry) : Prop :=
  e.index ≤ n.lastLogIndex ∧ (n.storage.getLogEntry e.index).term ≠ e.term

instance (n : RaftNode) (e : LogEntry) : Decidable (n.conflictsWith e) :=
  inferInstanceAs (Decidable (_ ∧ _))

/-- Cutting the log at index `c` takes away no entry that is applied, and none of a pending
request. -/
def MayCut (n : RaftNode) (c : ℤ) : Prop :=
  n.lastApplied < c ∧ n.storage.getLastAppliedIndex < c ∧
    ∀ i x, c ≤ i → i ≤ n.lastLogIndex → n.storage.entry? i = some x →
      n.pendingCallbacks x.command.requestId = none

/-- **The append loop keeps pending requests**, when every entry in conflict with the log may cut
it. -/
lemma PendingOk.appendLoop {es : List LogEntry} :
    ∀ {n : RaftNode} {prev : ℤ}, n.PendingOk → prev ≤ n.lastLogIndex → Consecutive (prev + 1) es →
      (∀ e ∈ es, n.conflictsWith e → n.MayCut e.index) → (n.appendLoop prev es).PendingOk := by
  induction es with
  | nil => exact fun h _ _ _ => h
  | cons e es ih =>
      intro n prev h hprev hes hcuts
      obtain ⟨he, hes⟩ := consecutive_cons.mp hes
      -- once the log ends in `e`, what follows is in conflict with nothing
      have hrest : ∀ n' : RaftNode, n'.lastLogIndex = prev + 1 →
          ∀ x ∈ es, n'.conflictsWith x → n'.MayCut x.index := by
        intro n' hlast x hx hconf
        obtain ⟨j, hj⟩ := List.getElem?_of_mem hx
        have hindex := hes j x hj
        have hle := hconf.1
        omega
      rw [RaftNode.appendLoop, appendEntry]
      split
      · rename_i hle
        split
        · rename_i hterm
          have hconf : n.conflictsWith e := ⟨by omega, by rwa [he]⟩
          obtain ⟨happlied, hstored, hspared⟩ := hcuts e (by simp) hconf
          have hcut := h.cut happlied hstored hspared
          rw [he] at hcut
          exact ih hcut le_rfl hes (hrest _ rfl)
        · exact ih h hle hes fun x hx => hcuts x (List.mem_cons_of_mem _ hx)
      · rename_i hgt
        obtain rfl : prev = n.lastLogIndex := by omega
        exact ih (h.append he rfl rfl rfl fun id hid => .inr hid) le_rfl hes (hrest _ rfl)

/-- A message that is accepted has consecutive entries, and those in conflict may cut the log. -/
def AppendsTidily (n : RaftNode) (args : AppendEntriesArgs) : Prop :=
  n.currentTerm ≤ args.term → 0 ≤ args.prevLogIndex ∧
    Consecutive (args.prevLogIndex + 1) args.entries ∧
      ∀ e ∈ args.entries, n.conflictsWith e → n.MayCut e.index

lemma PendingOk.handleAppendEntries (h : n.PendingOk) {args : AppendEntriesArgs}
    (htidy : n.AppendsTidily args) : (n.handleAppendEntries args).1.PendingOk := by
  unfold RaftNode.handleAppendEntries
  split
  · exact h
  · rename_i hterm
    dsimp only
    have hview := logView_acceptLeader n args.term args.leaderId
    obtain ⟨hlast, happlied, hpending, hentry, -, -, hstored⟩ := logView_inj hview
    split
    · rename_i hcons
      obtain ⟨hprev, hes, hcuts⟩ := htidy (not_lt.mp hterm)
      refine PendingOk.still ?_ (logView_followCommit _ _)
      refine (h.still hview).appendLoop ?_ hes fun e he hconf => ?_
      · have happlied := h.applied
        rcases hcons with hle | ⟨hle, -⟩
        · rw [hlast]
          omega
        · exact hle
      · have hget : (n.acceptLeader args.term args.leaderId).storage.getLogEntry e.index =
            n.storage.getLogEntry e.index := by
          rw [RocksDBStore.getLogEntry_eq, RocksDBStore.getLogEntry_eq, hentry]
        have hcut := hcuts e he ⟨hlast ▸ hconf.1, hget ▸ hconf.2⟩
        unfold MayCut
        rw [happlied, hstored, hlast, hentry, hpending]
        exact hcut
    · exact h.still hview

lemma PendingOk.handleInstallSnapshot (h : n.PendingOk) {args : InstallSnapshotArgs}
    (hnone : n.installs args → ∀ id, n.pendingCallbacks id = none) :
    (n.handleInstallSnapshot args).1.PendingOk := by
  rcases handleInstallSnapshot_cases n args with ⟨-, heq⟩ | ⟨-, heq⟩ | ⟨hinst, heq⟩
  · rwa [heq]
  · rw [heq]
    exact h.still (logView_seeTerm n args.term)
  · rw [heq]
    have hpos : 0 ≤ args.lastIncludedIndex := h.applied.1.trans hinst.2.le
    refine ⟨rfl, RocksDBStore.storedLastLogIndex_appendLog, ⟨hpos, le_rfl⟩, ?_, fun id hid => ?_⟩
    · rw [installSnapshot, RocksDBStore.getLastAppliedIndex_appendLog,
        RocksDBStore.getLastAppliedIndex_truncateLog,
        RocksDBStore.getLastAppliedIndex_applySnapshot]
      exact ⟨hpos, le_rfl⟩
    · refine absurd ?_ hid
      show (n.seeTerm args.term).pendingCallbacks id = none
      obtain ⟨-, -, hpending, -⟩ := logView_inj (logView_seeTerm n args.term)
      rw [hpending]
      exact hnone hinst id

/-- Receiving an answer is not about the log. -/
lemma logView_receive (n : RaftNode) (dst : ℤ) (req : Request) (rep : Reply) :
    (n.receive dst req rep).logView = n.logView := by
  cases req with
  | requestVote args =>
      cases rep with
      | requestVote r =>
          rw [receive]
          rcases voteReply_cases n args.term r with h | ⟨-, h⟩ | ⟨hstate, -, -, ⟨-, h⟩ | ⟨-, h⟩⟩
          · rw [h]
          · rw [h]
            exact logView_becomeFollower n r.term
          · rw [h]
            rfl
          · rw [h, becomeLeader_eq (n := n.countVote args.term) hstate]
            rfl
      | _ => rfl
  | appendEntries args =>
      cases rep with
      | appendEntries r =>
          rw [receive, appendEntriesReply]
          dsimp only
          split
          · rfl
          · split
            · exact logView_becomeFollower (n.setWorker dst .idle) r.term
            · split
              · split <;> rfl
              · split <;> rfl
      | _ => rfl
  | installSnapshot args =>
      cases rep with
      | installSnapshot r =>
          rw [receive, installSnapshotReply]
          dsimp only
          split
          · exact logView_becomeFollower (n.setWorker dst .idle) r.term
          · split <;> rfl
      | _ => rfl

lemma logView_abandon (n : RaftNode) (dst : ℤ) (req : Request) :
    (n.abandon dst req).logView = n.logView := by
  cases req <;> rfl

/-- A restart forgets the pending requests and loads the stored indices. -/
lemma PendingOk.restart (h : n.PendingOk) : n.restart.PendingOk where
  cache := rfl
  stored := rfl
  applied := ⟨h.storedApplied.1, h.storedApplied.2.trans h.stored.ge⟩
  storedApplied := ⟨h.storedApplied.1, h.storedApplied.2.trans h.stored.ge⟩
  pending _ hid := absurd rfl hid

end RaftNode

/-! ## Runs -/

namespace Machine

open RaftNode

/-- **The steps that lose no entry of a pending request.**  An entry that is applied or reported
has an index of the log, and reporting it passes over no entry of another pending request; a
message does not cut such an entry off; and a snapshot is installed only when nothing is
pending. -/
def Tidy (m : Machine) : NodeLabel → Prop
  | .thread _ .applyEntry =>
      ∀ e ∈ m.node.executor.computed?, 0 ≤ e.index ∧ e.index ≤ m.node.lastLogIndex
  | .thread _ .notifyClient =>
      ∀ e ∈ m.node.executor.unreported, 0 ≤ e.index ∧ e.index ≤ m.node.lastLogIndex ∧
        ∀ i x, m.node.lastApplied < i → i ≤ e.index → m.node.storage.entry? i = some x →
          m.node.pendingCallbacks x.command.requestId ≠ none →
            x.command.requestId = e.command.requestId
  | .handle (.appendEntries args) => m.node.AppendsTidily args
  | .handle (.installSnapshot args) =>
      m.node.installs args → ∀ id, m.node.pendingCallbacks id = none
  | _ => True

/-- Thread steps that lose no entry of a pending request. -/
lemma pendingOk_thread (h : m.node.PendingOk) {call : ℕ} {a : ThreadStep} {out : Output}
    (hmove : m.node.Move call a n' out) (htidy : m.Tidy (.thread call a)) : n'.PendingOk := by
  cases hmove with
  | saveHardState => exact h.still (logView_saveHardState rfl rfl rfl rfl)
  | @appendRequest cb req hreq hstate hpending =>
      refine h.append rfl rfl rfl rfl fun id hid => ?_
      by_cases heq : id = req.requestId
      · exact .inl heq
      · refine .inr ?_
        simpa [acceptRequest, heq] using hid
  | applyEntry hex =>
      obtain ⟨hlo, hhi⟩ := htidy _ (by rw [hex]; rfl)
      refine ⟨h.cache, ?_, h.applied, ?_, fun id hid => ?_⟩
      · simpa using h.stored
      · simpa using And.intro hlo hhi
      · obtain ⟨i, x, hlo, hhi, hx, hid⟩ := h.pending id hid
        exact ⟨i, x, hlo, hhi, by simpa using hx, hid⟩
  | notifyClient hex =>
      obtain ⟨hlo, hhi, hpassed⟩ := htidy _ (by rw [hex]; rfl)
      refine ⟨h.cache, h.stored, ⟨hlo, hhi⟩, h.storedApplied, fun id hid => ?_⟩
      dsimp only at hid
      rw [Function.update_apply] at hid
      split at hid
      · exact absurd rfl hid
      · rename_i hne
        obtain ⟨i, x, hi, hle, hx, rfl⟩ := h.pending id hid
        refine ⟨i, x, ?_, hle, hx, rfl⟩
        by_contra hpast
        exact hne (hpassed i x hi (not_lt.mp hpast) hx hid)
  | compactIfDue hex =>
      by_cases hdue : m.node.compactionDue
      · simp only [if_pos hdue]
        refine ⟨h.cache, ?_, h.applied, ?_, fun id hid => ?_⟩
        · simpa using h.stored
        · simpa using h.storedApplied
        · obtain ⟨i, x, hi, hle, hx, hreq⟩ := h.pending id hid
          refine ⟨i, x, hi, hle, ?_, hreq⟩
          rw [RocksDBStore.entry?_compactLog, if_neg (by omega), hx]
      · simp only [if_neg hdue]
        exact h.still rfl
  | _ => exact h.still rfl

/-- **Every tidy step keeps the pending requests in the log.** -/
theorem pendingOk_step (h : m.node.PendingOk) {l : NodeLabel} (htidy : m.Tidy l)
    (hstep : m.step l = some m') : m'.node.PendingOk := by
  cases l with
  | thread call a =>
      simp only [Machine.step, Option.map_eq_some_iff] at hstep
      obtain ⟨⟨n, out⟩, hn, rfl⟩ := hstep
      exact pendingOk_thread h (RaftNode.move_of_step hn) htidy
  | handle request =>
      cases hstep
      cases request with
      | requestVote args => exact h.still (logView_handleRequestVote _ args)
      | appendEntries args => exact h.handleAppendEntries htidy
      | installSnapshot args => exact h.handleInstallSnapshot htidy
  | receive dst request reply =>
      cases hstep
      exact h.still (logView_receive _ dst request reply)
  | abandon dst request =>
      cases hstep
      exact h.still (logView_abandon _ dst request)
  | restart =>
      cases hstep
      exact h.restart

lemma pendingOk_start (config : ClusterConfig) :
    (start config RocksDBStore.genesis).node.PendingOk := by
  rw [RocksDBStore.genesis_eq]
  exact ⟨rfl, rfl, ⟨le_rfl, le_rfl⟩, ⟨le_rfl, le_rfl⟩, fun id hid => absurd rfl hid⟩

/-- The runs of a node whose steps are all tidy. -/
def TidyRun : Machine → List NodeLabel → Machine → Prop :=
  Transition.Run Machine.step Machine.Tidy

end Machine

/-- **Pending requests are really pending.**  In every tidy run of a node, with any requests and
answers and with restarts, every request id in `pending_callbacks_` is that of an entry of the
node's log above `lastApplied_`. -/
theorem pending_in_log (config : ClusterConfig) {ls : List NodeLabel}
    (hrun : Machine.TidyRun (.start config RocksDBStore.genesis) ls m) (id : Bytes)
    (hpending : m.node.pendingCallbacks id ≠ none) :
    ∃ i x, m.node.lastApplied < i ∧ i ≤ m.node.lastLogIndex ∧
      m.node.storage.entry? i = some x ∧ x.command.requestId = id := by
  have hok : m.node.PendingOk := hrun.invariant (Machine.pendingOk_start config)
    fun _ _ _ h htidy hstep => Machine.pendingOk_step h htidy hstep
  exact hok.pending id hpending

/-- Node `1` of a pair wins the first term. -/
def winFirstTerm : List NodeLabel :=
  [.thread 0 .electionTimeout, .thread 0 .startElection, .thread 0 .evalHardState,
    .thread 0 .saveHardState, .thread 0 .sendRequestVote,
    .receive 2 (.requestVote ⟨1, 1, 0, 0⟩) (.requestVote ⟨1, true⟩)]

/-- A client's request for a transfer, with callback `0`. -/
def askTransfer : List NodeLabel :=
  [.thread 0 (.clientRequest 0 ⟨Bytes.ascii "r", .transfer, Bytes.ascii "1", Bytes.ascii "2", 50⟩),
    .thread 0 (.lookupRequest 0), .thread 0 (.appendRequest 0)]

/-- Steps of the node's own threads but the executor, and answers. -/
def NodeLabel.simple : NodeLabel → Bool
  | .thread _ .applyEntry | .thread _ .notifyClient => false
  | .thread _ _ | .receive _ _ _ => true
  | _ => false

lemma NodeLabel.tidy_of_simple {l : NodeLabel} (hl : l.simple = true) : m.Tidy l := by
  cases l with
  | thread call a =>
      cases a with
      | applyEntry => cases hl
      | notifyClient => cases hl
      | _ => trivial
  | handle => cases hl
  | _ => trivial

/-- The request of a client is the first entry of the leader's log. -/
theorem pending_in_log_first :
    ∃ m : Machine, Machine.TidyRun (.start ⟨1, [1, 2]⟩ RocksDBStore.genesis)
        (winFirstTerm ++ askTransfer) m ∧
      m.node.pendingCallbacks (Bytes.ascii "r") = some 0 ∧
      ∃ i x, m.node.lastApplied < i ∧ i ≤ m.node.lastLogIndex ∧
        m.node.storage.entry? i = some x ∧ x.command.requestId = Bytes.ascii "r" := by
  have hasked : ∃ m : Machine, Transition.Run Machine.step (fun _ l => l.simple = true)
      (.start ⟨1, [1, 2]⟩ RocksDBStore.genesis) (winFirstTerm ++ askTransfer) m ∧
        m.node.pendingCallbacks (Bytes.ascii "r") = some 0 :=
    run_of_genesis (Machine.start ⟨1, [1, 2]⟩) (by decide +kernel)
  obtain ⟨m, hrun, hpending⟩ := hasked
  have htidy : Machine.TidyRun (.start ⟨1, [1, 2]⟩ RocksDBStore.genesis)
      (winFirstTerm ++ askTransfer) m :=
    hrun.mono fun _ _ => NodeLabel.tidy_of_simple
  refine ⟨m, htidy, hpending, pending_in_log _ htidy _ ?_⟩
  rw [hpending]
  simp

/-- The first message of the leader of the second term, with an entry of its own at index `1`. -/
def overwritingEntry : AppendEntriesArgs where
  term := 2
  leaderId := 2
  prevLogIndex := 0
  prevLogTerm := 0
  entries := [⟨2, 1, ⟨Bytes.ascii "q", .transfer, Bytes.ascii "2", Bytes.ascii "3", 70⟩⟩]
  leaderCommit := 0

/-- **The request of an entry that is cut off stays pending for good.** -/
theorem lost_request_stays_pending :
    ∃ m : Machine, Transition.Run Machine.step (fun _ _ => True)
        (.start ⟨1, [1, 2]⟩ RocksDBStore.genesis)
        (winFirstTerm ++ askTransfer ++ [.handle (.appendEntries overwritingEntry)]) m ∧
      m.node.pendingCallbacks (Bytes.ascii "r") ≠ none ∧ m.node.lastLogIndex = 1 ∧
      ∀ x ∈ m.node.storage.entry? 1, x.command.requestId ≠ Bytes.ascii "r" :=
  run_of_genesis (Machine.start ⟨1, [1, 2]⟩) (by decide +kernel)

end RaftConsensus
