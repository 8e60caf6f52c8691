import RaftConsensus.Cluster.ElectionView
import RaftConsensus.Storage.Replay
import RaftConsensus.Storage.SnapshotTransfer

/-!
# What a step does to the records

The account and request records of a node change at two places only: in `applyEntry`, and when a
snapshot is installed.  `recordsStep_of_step` says so for every step of the cluster, a crash
included, and `computed_of_step` says where the values come from that `applyEntry` writes.
-/

namespace RaftConsensus

open RocksDBStore

namespace RocksDBStore

/-- The records a snapshot leaves are those of its data, whatever was there before. -/
lemma sameRecords_applySnapshot {s s' : RocksDBStore} {data : Bytes} {i t : ℤ} :
    (s.applySnapshot data i t).SameRecords (s'.applySnapshot data i t) := by
  intro k hk
  have hkey := not_isSnapshotKey_of_record hk
  rw [get_applySnapshot_of_ne hkey, get_applySnapshot_of_ne hkey, replaceRecords, replaceRecords]
  exact KVMap.get_write_congr _ (by rw [get_deleteRecords, get_deleteRecords, if_pos hk, if_pos hk])

lemma SameRecords.getRequestResult {s s' : RocksDBStore} (h : s.SameRecords s') (id : Bytes) :
    s.getRequestResult id = s'.getRequestResult id := by
  have hkey : isRecordKey (reqKey id) = true := by
    rw [isRecordKey, Bool.or_eq_true]
    exact .inr (List.isPrefixOf_iff_prefix.mpr (List.prefix_append _ _))
  rw [RocksDBStore.getRequestResult, RocksDBStore.getRequestResult, h _ hkey]

/-- The result of the executed request is stored; those of the others stay. -/
lemma getRequestResult_applyTransaction {s : RocksDBStore} {e : LogEntry} {a b : ℤ} {msg : Bytes}
    (id : Bytes) : (s.applyTransaction e a b msg).getRequestResult id =
      if id = e.command.requestId then msg else s.getRequestResult id := by
  have happlied : reqKey id ≠ lastAppliedKey := ne_of_head (by simp)
  have hacct : ∀ x, reqKey id ≠ acctKey x := fun x => ne_of_head (by simp)
  rw [getRequestResult, get_applyTransaction, if_neg happlied]
  by_cases hid : id = e.command.requestId
  · rw [if_pos hid, if_pos (congrArg reqKey hid)]
    rfl
  · rw [if_neg hid, if_neg (mt reqKey_inj.mp hid), if_neg fun h => hacct _ h.2,
      if_neg fun h => hacct _ h.2]
    rfl

end RocksDBStore

lemma Executor.next_ne_computed (es : List LogEntry) {entry : LogEntry} {rest : List LogEntry}
    {senderNewBal receiverNewBal : ℤ} {msg : Bytes} :
    Executor.next es ≠ .computed entry rest senderNewBal receiverNewBal msg := by
  cases es <;> simp [Executor.next]

lemma Executor.next_ne_written (es : List LogEntry) {entry : LogEntry} {rest : List LogEntry}
    {msg : Bytes} : Executor.next es ≠ .written entry rest msg := by
  cases es <;> simp [Executor.next]

namespace RaftNode

variable {n n' : RaftNode}

/-! ## A node -/

lemma Move.sameRecords {call : ℕ} {a : ThreadStep} {out : Output} (hmove : n.Move call a n' out)
    (ha : a ≠ .applyEntry) : n'.storage.SameRecords n.storage := by
  cases hmove with
  | saveHardState => exact sameRecords_saveHardState
  | appendRequest => exact sameRecords_appendLog
  | applyEntry => exact absurd rfl ha
  | @compactIfDue rest hex =>
      show (if n.compactionDue then _ else _ : RocksDBStore).SameRecords _
      split
      · exact sameRecords_compactLog
      · exact .refl _
  | _ => exact .refl _

lemma sameRecords_seeTerm {t : ℤ} : (n.seeTerm t).storage.SameRecords n.storage := by
  rcases seeTerm_cases n t with ⟨h, -⟩ | ⟨-, h⟩
  · rw [h]
    exact .refl _
  · rw [h]
    exact sameRecords_saveHardState

lemma sameRecords_acceptLeader {t l : ℤ} :
    (n.acceptLeader t l).storage.SameRecords n.storage := by
  unfold acceptLeader
  dsimp only
  split
  · exact sameRecords_saveHardState
  · split
    · exact sameRecords_saveHardState
    · exact .refl _

lemma sameRecords_appendEntry {i : ℤ} {e : LogEntry} :
    (n.appendEntry i e).storage.SameRecords n.storage := by
  unfold appendEntry
  split
  · split
    · exact sameRecords_appendLog.trans sameRecords_truncateLog
    · exact .refl _
  · exact sameRecords_appendLog

lemma sameRecords_appendLoop {es : List LogEntry} :
    ∀ {n : RaftNode} {prev : ℤ}, (n.appendLoop prev es).storage.SameRecords n.storage := by
  induction es with
  | nil => exact .refl _
  | cons e es ih =>
      intro n prev
      exact ih.trans sameRecords_appendEntry

lemma sameRecords_followCommit {c : ℤ} : (n.followCommit c).storage.SameRecords n.storage := by
  unfold followCommit
  split <;> exact .refl _

/-- A handler that does not install a snapshot. -/
lemma sameRecords_handle {req : Request}
    (hreq : ∀ args, req = .installSnapshot args → ¬ n.installs args) :
    (n.handle req).1.storage.SameRecords n.storage := by
  cases req with
  | requestVote args =>
      rcases handleRequestVote_cases n args with h | ⟨-, -, ⟨-, h, -⟩ | h⟩
      · rw [handle, h]
        exact .refl _
      · rw [handle, h]
        exact sameRecords_saveHardState.trans sameRecords_seeTerm
      · rw [handle, h]
        exact sameRecords_seeTerm
  | appendEntries args =>
      simp only [handle, handleAppendEntries]
      split
      · exact .refl _
      · split
        · exact (sameRecords_followCommit.trans sameRecords_appendLoop).trans
            sameRecords_acceptLeader
        · exact sameRecords_acceptLeader
  | installSnapshot args =>
      rw [handle]
      rcases handleInstallSnapshot_cases n args with ⟨-, h⟩ | ⟨-, h⟩ | ⟨hinst, -⟩
      · rw [h]
        exact .refl _
      · rw [h]
        exact sameRecords_seeTerm
      · exact absurd hinst (hreq args rfl)

/-- A handler that does. -/
lemma sameRecords_installSnapshot {args : InstallSnapshotArgs} (hinst : n.installs args) :
    (n.handle (.installSnapshot args)).1.storage.SameRecords
      (n.storage.applySnapshot args.data args.lastIncludedIndex args.lastIncludedTerm) := by
  rw [handle]
  rcases handleInstallSnapshot_cases n args with ⟨hnot, -⟩ | ⟨hnot, -⟩ | ⟨-, h⟩
  · exact absurd hinst hnot
  · exact absurd hinst hnot
  · rw [h]
    exact (sameRecords_appendLog.trans sameRecords_truncateLog).trans sameRecords_applySnapshot

lemma sameRecords_receive {dst : ℤ} {req : Request} {rep : Reply} :
    (n.receive dst req rep).storage.SameRecords n.storage := by
  obtain ⟨-, -, h | ⟨t, v, h⟩⟩ := receive_frame n dst req rep
  · rw [h]
    exact .refl _
  · rw [h]
    exact sameRecords_saveHardState

lemma sameRecords_abandon {dst : ℤ} {req : Request} :
    (n.abandon dst req).storage.SameRecords n.storage := by
  cases req <;> exact .refl _

/-- What `applyEntry` is about to write was computed by `readBalances`. -/
lemma Move.computed {call : ℕ} {a : ThreadStep} {out : Output} (hmove : n.Move call a n' out)
    {entry : LogEntry} {rest : List LogEntry} {senderNewBal receiverNewBal : ℤ} {msg : Bytes}
    (hex : n'.executor = .computed entry rest senderNewBal receiverNewBal msg) :
    n.executor = n'.executor ∨ a = .readBalances ∧ n.executor = .applying entry rest ∧
      n.storage.outcome entry.command = ⟨senderNewBal, receiverNewBal, msg⟩ := by
  cases hmove with
  | fetchBatch => exact absurd hex (Executor.next_ne_computed _)
  | @readBalances x xs happlying =>
      cases hex
      exact .inr ⟨rfl, happlying, rfl⟩
  | compactIfDue => exact absurd hex (Executor.next_ne_computed _)
  | skipCompaction => exact absurd hex (Executor.next_ne_computed _)
  | applyEntry => cases hex
  | notifyClient => cases hex
  | _ => exact .inl rfl

/-- What the executor is about to report has been written by `applyEntry`. -/
lemma Move.written {call : ℕ} {a : ThreadStep} {out : Output} (hmove : n.Move call a n' out)
    {entry : LogEntry} {rest : List LogEntry} {msg : Bytes}
    (hex : n'.executor = .written entry rest msg) :
    n.executor = n'.executor ∨ a = .applyEntry ∧ ∃ senderNewBal receiverNewBal,
      n.executor = .computed entry rest senderNewBal receiverNewBal msg := by
  cases hmove with
  | fetchBatch => exact absurd hex (Executor.next_ne_written _)
  | readBalances => cases hex
  | applyEntry hcomputed =>
      cases hex
      exact .inr ⟨rfl, _, _, hcomputed⟩
  | notifyClient => cases hex
  | compactIfDue => exact absurd hex (Executor.next_ne_written _)
  | skipCompaction => exact absurd hex (Executor.next_ne_written _)
  | _ => exact .inl rfl

lemma executor_abandon {dst : ℤ} {req : Request} :
    (n.abandon dst req).executor = n.executor := by
  cases req <;> rfl

end RaftNode

/-! ## The cluster -/

namespace Cluster

variable {members : List ℤ} {s t : Cluster} {l : Label}

/-- How a step changes the records of node `v`. -/
inductive RecordsStep (s t : Cluster) (l : Label) (v : ℤ) : Prop
  /-- It does not. -/
  | same (hsame : (t.nodes v).storage.SameRecords (s.nodes v).storage)
  /-- The executor of the node applies an entry. -/
  | applied {entry : LogEntry} {rest : List LogEntry} {senderNewBal receiverNewBal : ℤ}
      {msg : Bytes} (hl : l = .thread v .applyEntry)
      (hex : (s.nodes v).executor = .computed entry rest senderNewBal receiverNewBal msg)
      (hstorage : (t.nodes v).storage =
        (s.nodes v).storage.applyTransaction entry senderNewBal receiverNewBal msg)
  /-- The node installs a snapshot. -/
  | installed {k : ℕ} {c : Call} {args : InstallSnapshotArgs} (hl : l = .handle k)
      (hcall : s.calls k = some c) (hdst : c.dst = v) (hreq : c.request = .installSnapshot args)
      (hinst : (s.nodes v).installs args)
      (hsame : (t.nodes v).storage.SameRecords ((s.nodes v).storage.applySnapshot args.data
        args.lastIncludedIndex args.lastIncludedTerm))

/-- A step that changes one node only. -/
lemma recordsStep_update {i v : ℤ} {n : RaftNode} (hnodes : t.nodes = Function.update s.nodes i n)
    (hi : t.nodes i = n → RecordsStep s t l i) : RecordsStep s t l v := by
  by_cases hv : v = i
  · subst hv
    exact hi (by rw [hnodes, Function.update_self])
  · refine .same ?_
    rw [hnodes, Function.update_of_ne hv]
    exact .refl _

/-- **A step keeps the records of a node, applies an entry or installs a snapshot.** -/
theorem recordsStep_of_step (hstep : step members s l = some t) (v : ℤ) :
    RecordsStep s t l v := by
  cases move_of_step hstep with
  | @thread i a n out hi hmove =>
      refine recordsStep_update (i := i) (n := n)
        (by rw [record_nodes, emit_nodes, setNode_nodes]) fun hn => ?_
      by_cases ha : a = .applyEntry
      · subst ha
        cases hmove with
        | applyEntry hex => exact .applied rfl hex (by rw [hn])
      · exact .same (by rw [hn]; exact hmove.sameRecords ha)
  | @handle k src dst request alive hcall =>
      refine recordsStep_update (i := dst) (n := ((s.nodes dst).handle request).1) rfl fun hn => ?_
      by_cases hinst : ∃ args, request = .installSnapshot args ∧ (s.nodes dst).installs args
      · obtain ⟨args, rfl, hinst⟩ := hinst
        refine .installed rfl hcall rfl rfl hinst ?_
        rw [hn]
        exact RaftNode.sameRecords_installSnapshot hinst
      · refine .same ?_
        rw [hn]
        exact RaftNode.sameRecords_handle fun args hargs h => hinst ⟨args, hargs, h⟩
  | @reply k src dst request reply hcall =>
      refine recordsStep_update (i := src) (n := (s.nodes src).receive dst request reply) rfl
        fun hn => .same ?_
      rw [hn]
      exact RaftNode.sameRecords_receive
  | @fail k src dst request reply hcall =>
      refine recordsStep_update (i := src) (n := (s.nodes src).abandon dst request) rfl
        fun hn => .same ?_
      rw [hn]
      exact RaftNode.sameRecords_abandon
  | @crash i hi =>
      refine recordsStep_update (i := i) (n := (s.nodes i).restart) rfl fun hn => .same ?_
      rw [hn]
      exact sameRecords_openDB

/-- **What a step does to an executor**: it moves in a step of its own thread only, and a crash
ends it. -/
theorem executor_of_step (hstep : step members s l = some t) (v : ℤ) :
    (t.nodes v).executor = (s.nodes v).executor ∨ (t.nodes v).executor = .waiting ∨
      ∃ a out, l = .thread v a ∧ (s.nodes v).Move s.nextCall a (t.nodes v) out := by
  have hupdate : ∀ {i : ℤ} {n : RaftNode}, t.nodes = Function.update s.nodes i n →
      (v = i → n.executor = (s.nodes i).executor ∨ n.executor = .waiting ∨
        ∃ a out, l = .thread i a ∧ (s.nodes i).Move s.nextCall a n out) →
      (t.nodes v).executor = (s.nodes v).executor ∨ (t.nodes v).executor = .waiting ∨
        ∃ a out, l = .thread v a ∧ (s.nodes v).Move s.nextCall a (t.nodes v) out := by
    intro i n hnodes hi
    rw [hnodes]
    by_cases hv : v = i
    · subst hv
      rw [Function.update_self]
      exact hi rfl
    · rw [Function.update_of_ne hv]
      exact .inl rfl
  cases move_of_step hstep with
  | @thread i a n out hi hmove =>
      exact hupdate (i := i) (n := n) (by rw [record_nodes, emit_nodes, setNode_nodes])
        fun _ => .inr (.inr ⟨a, out, rfl, hmove⟩)
  | @handle k src dst request alive hcall =>
      refine hupdate (i := dst) (n := ((s.nodes dst).handle request).1) rfl fun _ => .inl ?_
      exact (RaftNode.threads_inj (RaftNode.handle_threads _ request)).2.2.2.2.2.2.2.1
  | @reply k src dst request reply hcall =>
      exact hupdate (i := src) (n := (s.nodes src).receive dst request reply) rfl
        fun _ => .inl (RaftNode.receive_frame _ dst request reply).1
  | @fail k src dst request reply hcall =>
      exact hupdate (i := src) (n := (s.nodes src).abandon dst request) rfl
        fun _ => .inl RaftNode.executor_abandon
  | @crash i hi =>
      exact hupdate (i := i) (n := (s.nodes i).restart) rfl fun _ => .inr (.inl rfl)

/-- **Where the values come from that an executor is about to write.** -/
theorem computed_of_step (hstep : step members s l = some t) {v : ℤ} {entry : LogEntry}
    {rest : List LogEntry} {senderNewBal receiverNewBal : ℤ} {msg : Bytes}
    (hex : (t.nodes v).executor = .computed entry rest senderNewBal receiverNewBal msg) :
    (s.nodes v).executor = (t.nodes v).executor ∨ (s.nodes v).executor = .applying entry rest ∧
      (s.nodes v).storage.outcome entry.command = ⟨senderNewBal, receiverNewBal, msg⟩ := by
  rcases executor_of_step hstep v with hsame | hwaiting | ⟨a, out, -, hmove⟩
  · exact .inl hsame.symm
  · rw [hwaiting] at hex
    cases hex
  · rcases hmove.computed hex with hsame | ⟨-, hread⟩
    · exact .inl hsame
    · exact .inr hread

/-- An executor applies an entry. -/
def IsExecuted : Event → Prop
  | .executed _ _ _ => True
  | _ => False

/-- **What a step records of executions**: one, when an entry is applied, and none otherwise. -/
theorem executed_of_step (hstep : step members s l = some t) :
    (∃ v entry rest senderNewBal receiverNewBal msg, l = .thread v .applyEntry ∧
      (s.nodes v).executor = .computed entry rest senderNewBal receiverNewBal msg ∧
      (t.nodes v).storage =
        (s.nodes v).storage.applyTransaction entry senderNewBal receiverNewBal msg ∧
      t.history = .executed v entry (balanceChanged (s.nodes v) (t.nodes v) entry) :: s.history) ∨
    ∃ es, t.history = es ++ s.history ∧ ∀ ev ∈ es, ¬ IsExecuted ev := by
  cases move_of_step hstep with
  | @thread i a n out hi hmove =>
      by_cases ha : a = .applyEntry
      · subst ha
        cases hmove with
        | @applyEntry entry rest x y msg hex =>
            refine .inl ⟨i, entry, rest, x, y, msg, rfl, hex, ?_, ?_⟩
            · rw [record_nodes, emit_nodes, setNode_nodes, Function.update_self]
            · rw [record_history, emit_history, setNode_history, record_nodes, emit_nodes,
                setNode_nodes, Function.update_self]
              simp only [threadEvents, hex]
              rfl
      · refine .inr ⟨_, by rw [record_history, emit_history, setNode_history], ?_⟩
        intro ev hev
        unfold threadEvents at hev
        split at hev
        · obtain rfl := List.mem_singleton.mp hev
          exact id
        · exact absurd rfl ha
        · obtain rfl := List.mem_singleton.mp hev
          exact id
        · cases hev
  | @handle k src dst request alive hcall =>
      refine .inr ⟨_, rfl, fun ev hev => ?_⟩
      unfold handleEvents at hev
      split at hev
      · split at hev
        · obtain rfl := List.mem_singleton.mp hev
          exact id
        · cases hev
      · cases hev
  | @reply k src dst request reply hcall =>
      refine .inr ⟨_, rfl, fun ev hev => ?_⟩
      unfold replyEvents at hev
      rcases List.mem_append.mp hev with h | h
      · split at h
        · obtain rfl := List.mem_singleton.mp h
          exact id
        · cases h
      · split at h
        · obtain rfl := List.mem_singleton.mp h
          exact id
        · cases h
  | fail => exact .inr ⟨[], rfl, by simp⟩
  | crash => exact .inr ⟨[], rfl, by simp⟩

/-- An entry that is applied is recorded. -/
lemma executed_mem_of_applied {v : ℤ} {entry : LogEntry} {rest : List LogEntry}
    {senderNewBal receiverNewBal : ℤ} {msg : Bytes}
    (hstep : step members s (.thread v .applyEntry) = some t)
    (hex : (s.nodes v).executor = .computed entry rest senderNewBal receiverNewBal msg) :
    ∃ changed, .executed v entry changed ∈ t.history := by
  cases move_of_step hstep with
  | thread hi hmove =>
      cases hmove with
      | applyEntry hex' =>
          rw [hex] at hex'
          cases hex'
          simp only [record_history, threadEvents, hex]
          exact ⟨_, List.mem_cons_self⟩

end Cluster

end RaftConsensus
