import RaftConsensus.Cluster.LogAnswers

/-!
# Log matching, leader completeness and state machine safety

The initial cluster is in the initial state of replication, so **`LogRel.run`** puts every state
that a plain run reaches into an abstract state: one without crashes and compaction in which every
message is built in one step (`PlainRun`).  What the abstract invariant says then holds of the
stores: **`log_matching`**, **`leader_completeness`** and **`state_machine_safety`**.

All three need that no node has the id `-1`, as election safety does.
-/

namespace RaftConsensus

open Replication

variable {m : Membership} {a b : Logs} {s t : Cluster} {i : ℤ} {n : RaftNode}

/-! ## Runs -/

/-- The runs without crashes and without compaction whose messages with entries are each built
from one state of their leader. -/
def PlainRun (members : List ℤ) : Cluster → List Label → Cluster → Prop :=
  Transition.Run (Cluster.step members) Label.plain

lemma Label.crashFree_of_plain {l : Label} (hl : l.plain s) : l.crashFree := by
  cases l with
  | crash => exact hl.elim
  | _ => trivial

/-- Nobody has done anything. -/
def Logs.init : Logs := ⟨fun _ => 0, fun _ => [], fun _ => False, fun _ => [], fun _ => [],
  fun _ _ => 0⟩

lemma hasLog_genesis : RocksDBStore.genesis.HasLog [] where
  get i := by
    rw [RocksDBStore.get_genesis_of_head (by simp)]
    simp [entryAt]
  cache := by
    rw [RocksDBStore.genesis_eq]
    rfl

/-- The node `main` constructs on a store without a log, a term and an applied entry. -/
lemma nodeRel_new {config : ClusterConfig} {storage : RocksDBStore} (hlog : storage.HasLog [])
    (hterm : storage.loadHardState.1 = 0) (happlied : storage.getLastAppliedIndex = 0)
    (hrecords : storage.SameRecords .genesis) :
    NodeRel m .init (fun _ => none) [] i (.new config storage) where
  log := ⟨hlog, hlog.cache, by simp [RaftNode.new, RocksDBStore.getLastLogIndex, hlog.cache,
    Logs.init]⟩
  term := hterm.symm
  term_nonneg := hterm.ge
  commit := ⟨0, rfl, le_rfl, .inl rfl⟩
  executor := ⟨[], 0, .inl rfl, happlied, hrecords, happlied⟩
  candidate hs := by cases hs
  saved hs := by cases hs
  asked hs := by cases hs
  votes hs := by cases hs
  leader hs := by cases hs
  progress hs := by cases hs
  workers _ := .inl rfl
  waiting := by simp

lemma nodeRel_init {config : ClusterConfig} :
    NodeRel m .init (fun _ => none) [] i (.new config .genesis) := by
  refine nodeRel_new hasLog_genesis ?_ ?_ (.refl _)
  · rw [RocksDBStore.loadHardState, RocksDBStore.get_genesis_of_head (by simp)]
    rfl
  · rw [RocksDBStore.getLastAppliedIndex, RocksDBStore.get_genesis_of_head (by simp)]

/-- The initial cluster is in the initial abstract state. -/
theorem logRel_init : LogRel m (.init m.ids fun _ => .genesis) .init where
  abs := ⟨inv_init, fun _ h => h.elim, fun _ h => h.elim⟩
  nodes _ := nodeRel_init
  calls := by simp [Cluster.init]
  events := ⟨by simp [Logs.init, Cluster.init], by simp [Cluster.init], by simp [Cluster.init],
    by simp [Cluster.init]⟩

/-- **Every run refines replication.** -/
theorem LogRel.run (hr : Routed m s) (hinv : ElectionInv m s) (hrel : LogRel m s a)
    {ls : List Label} (hrun : PlainRun m.ids s ls t) :
    Routed m t ∧ ElectionInv m t ∧ ∃ b, Later a b ∧ LogRel m t b := by
  induction hrun with
  | nil => exact ⟨hr, hinv, a, .refl a, hrel⟩
  | snoc _ hl hstep ih =>
      obtain ⟨hr', hinv', b, hlater, hrel'⟩ := ih
      have hmove := Cluster.move_of_step hstep
      obtain ⟨c, hlater', hrel''⟩ := hrel'.step hr' hinv' hl hmove
      exact ⟨hr'.step hmove, hinv'.step hr' (Label.crashFree_of_plain hl) hmove, c,
        hlater.trans hlater', hrel''⟩

/-- Every state that is reached has an abstract state. -/
lemma logRel_of_run {ls : List Label}
    (hrun : PlainRun m.ids (.init m.ids fun _ => .genesis) ls s) :
    Routed m s ∧ ElectionInv m s ∧ ∃ a, LogRel m s a := by
  obtain ⟨hr, hinv, a, -, hrel⟩ := logRel_init.run (routed_init _) (electionInv_init _) hrun
  exact ⟨hr, hinv, a, hrel⟩

/-! ## Log matching -/

/-- **Log matching.**  If the stored logs of two nodes have entries of the same term at index `i`,
they have the same entries from index `1` up to `i`. -/
theorem log_matching (m : Membership) {ls : List Label}
    (hrun : PlainRun m.ids (.init m.ids fun _ => .genesis) ls s) {v w i : ℤ} {x y : LogEntry}
    (hx : (s.nodes v).storage.entry? i = some x) (hy : (s.nodes w).storage.entry? i = some y)
    (hterm : x.term = y.term) {j : ℤ} (hj : 1 ≤ j) (hji : j ≤ i) :
    ∃ e, (s.nodes v).storage.entry? j = some e ∧ (s.nodes w).storage.entry? j = some e := by
  obtain ⟨-, -, a, hrel⟩ := logRel_of_run hrun
  rw [(hrel.nodes v).log.storage.entry?] at hx ⊢
  rw [(hrel.nodes w).log.storage.entry?] at hy ⊢
  obtain ⟨k, rfl, hk⟩ := entryAt_eq_some.mp hx
  obtain ⟨k', hkk, hk'⟩ := entryAt_eq_some.mp hy
  obtain rfl : k = k' := by omega
  have hlen : ((a.log v).take k).length = ((a.log w).take k).length := by
    rw [List.length_take, List.length_take,
      min_eq_left (List.getElem?_eq_some_iff.mp hk).1.le,
      min_eq_left (List.getElem?_eq_some_iff.mp hk').1.le]
  -- both logs start with what the leader of the term had up to there
  have hpv := take_concat_isPrefix hk
  have hpw := take_concat_isPrefix hk'
  have heq := matched_isPrefix (hrel.abs.inv.log_matched v) (hrel.abs.inv.log_matched w) hpv hpw
    hlen hterm
  rw [← heq] at hpw
  have hkv := (List.getElem?_eq_some_iff.mp hk).1
  obtain ⟨e, he, -⟩ := entryAt_of_pos (l := (a.log v).take k ++ [x]) hj (by simp; omega)
  exact ⟨e, entryAt_of_isPrefix hpv he, entryAt_of_isPrefix hpw he⟩

/-- Node `i` takes a request. -/
def takeRequest (i : ℤ) (cb : ℕ) (req : ClientRequest) : List Label :=
  [.thread i (.clientRequest cb req), .thread i (.lookupRequest cb),
    .thread i (.appendRequest cb)]

/-- Leader `i` sends its entries to `peer` by call number `call`, and receives the answer. -/
def replicate (i peer : ℤ) (call : ℕ) : List Label :=
  [.thread i (.replicateAtomic peer), .handle call, .reply call]

/-- The executor of node `i` fetches a batch and applies its first entry. -/
def applyFirst (i : ℤ) : List Label :=
  [.thread i .fetchBatch, .thread i .readBalances, .thread i .applyEntry]

/-- A transfer between the accounts `1` and `2`. -/
def transfer (requestId : Bytes) (amount : ℤ) : ClientRequest :=
  ⟨requestId, .transfer, Bytes.ascii "1", Bytes.ascii "2", amount⟩

/-- Node `1` leads the first term of a cluster of two, takes a request and sends it to node `2`;
both nodes execute it. -/
def agreement : List Label :=
  campaign 1 1 ++ [.handle 0, .reply 0] ++ takeRequest 1 0 (transfer (Bytes.ascii "r") 50) ++
    replicate 1 2 1 ++ applyFirst 1 ++ replicate 1 2 2 ++ applyFirst 2

/-- Both nodes of a cluster of two have the same first entry. -/
theorem log_matching_pair :
    ∃ s x, PlainRun pair.ids (.init pair.ids fun _ => RocksDBStore.genesis) agreement s ∧
      (s.nodes 1).storage.entry? 1 = some x ∧ (s.nodes 2).storage.entry? 1 = some x := by
  have hruns : ∃ s, PlainRun pair.ids (.init pair.ids fun _ => RocksDBStore.genesis) agreement s ∧
      ∃ x ∈ (s.nodes 1).storage.entry? 1, ∃ y ∈ (s.nodes 2).storage.entry? 1,
        x.term = y.term :=
    run_of_after (by decide +kernel)
  obtain ⟨s, hrun, x, hx, y, hy, hterm⟩ := hruns
  obtain ⟨e, he⟩ := log_matching pair hrun hx hy hterm le_rfl le_rfl
  exact ⟨s, e, hrun, he⟩

/-- Nodes `-1` and `5` both lead the first term, and each takes a request. -/
def rivals : List Label :=
  splitVote ++ takeRequest (-1) 0 (transfer (Bytes.ascii "r") 50) ++
    takeRequest 5 0 (transfer (Bytes.ascii "q") 70)

/-- **With a node whose id is `-1`, logs with entries of the same term can differ.** -/
theorem logs_differ_with_sentinel :
    ([-1, 5, 6, 7] : List ℤ).Nodup ∧
      ∃ s, PlainRun [-1, 5, 6, 7] (.init [-1, 5, 6, 7] fun _ => RocksDBStore.genesis) rivals s ∧
        ∃ x ∈ (s.nodes (-1)).storage.entry? 1, ∃ y ∈ (s.nodes 5).storage.entry? 1,
          x.term = y.term ∧ x.command ≠ y.command :=
  ⟨by decide, run_of_after (by decide +kernel)⟩

/-! ## Leader completeness -/

/-- **Leader completeness.**  When the commit loop of a leader of term `T` has committed `es`, at
whatever time, then a node holds `es` whenever it leads a term after `T`. -/
theorem leader_completeness (m : Membership) {ls ks : List Label}
    (hs : PlainRun m.ids (.init m.ids fun _ => .genesis) ls s) (ht : PlainRun m.ids s ks t)
    {v w T : ℤ} {es : List LogEntry} (hcommitted : .committed v T es ∈ t.history)
    (hlead : (s.nodes w).state = .leader) (hterm : T < (s.nodes w).currentTerm) {j : ℕ}
    {e : LogEntry} (he : es[j]? = some e) : (s.nodes w).storage.entry? (j + 1) = some e := by
  obtain ⟨hr, hinv, a, hrel⟩ := logRel_of_run hs
  obtain ⟨-, -, b, hl, hrel'⟩ := hrel.run hr hinv ht
  obtain ⟨hled, hlog, -⟩ := (hrel.nodes w).leader hlead
  have hheld : es <+: a.log w := by
    rcases hrel'.events.committed v T es hcommitted with rfl | ⟨T₀, p, hT₀, hchosen, hes⟩
    · exact List.nil_prefix
    · -- what the leader of the later term started from has not changed since
      have hstart := chosen_prefix_start hrel'.abs.inv Membership.quorum_inter hchosen
        (s.nodes w).currentTerm (hl.ext.led _ hled) (hT₀.trans_lt hterm)
      rw [hl.ext.start _ hled] at hstart
      rw [hlog]
      exact hes.trans (hstart.trans (hrel.abs.inv.start_isPrefix hled))
  rw [(hrel.nodes w).log.storage.entry?]
  exact entryAt_of_isPrefix hheld (by rwa [entryAt_succ])

/-- What node `1` has committed in the first term, node `2` holds when it leads the second. -/
theorem leader_completeness_pair :
    ∃ s es, PlainRun pair.ids (.init pair.ids fun _ => RocksDBStore.genesis)
        (agreement ++ campaign 2 1 ++ [.handle 3, .reply 3]) s ∧
      .committed 1 1 es ∈ s.history ∧ (s.nodes 2).state = .leader ∧ es.length = 1 ∧
      (s.nodes 2).storage.entry? 1 = es[0]? := by
  have hruns : ∃ s, PlainRun pair.ids (.init pair.ids fun _ => RocksDBStore.genesis)
      (agreement ++ campaign 2 1 ++ [.handle 3, .reply 3]) s ∧
        .committed 1 1 [⟨1, 1, transfer (Bytes.ascii "r") 50⟩] ∈ s.history ∧
          (s.nodes 2).state = .leader ∧ 1 < (s.nodes 2).currentTerm :=
    run_of_after (by decide +kernel)
  obtain ⟨s, hrun, hcommitted, hlead, hterm⟩ := hruns
  exact ⟨s, _, hrun, hcommitted, hlead, rfl,
    leader_completeness pair hrun .nil hcommitted hlead hterm rfl⟩

/-- The entry of node `-1` is committed with the help of nodes `6` and `7`.  Node `6` makes node
`5` step down, and then node `5` wins the third term. -/
def rivalLeads : List Label :=
  rivals ++ replicate (-1) 6 6 ++ replicate (-1) 7 7 ++ campaign 6 3 ++ [.handle 9] ++
    campaign 5 3 ++ [.handle 12, .handle 13, .reply 12, .reply 13]

/-- **With a node whose id is `-1`, a later leader can be without what has been committed.** -/
theorem leader_misses_commit_with_sentinel :
    ([-1, 5, 6, 7] : List ℤ).Nodup ∧
      ∃ s, PlainRun [-1, 5, 6, 7] (.init [-1, 5, 6, 7] fun _ => RocksDBStore.genesis)
          rivalLeads s ∧
        .committed (-1) 1 [⟨1, 1, transfer (Bytes.ascii "r") 50⟩] ∈ s.history ∧
        (s.nodes 5).state = .leader ∧ 1 < (s.nodes 5).currentTerm ∧
        (s.nodes 5).storage.entry? 1 ≠ some ⟨1, 1, transfer (Bytes.ascii "r") 50⟩ :=
  ⟨by decide, run_of_after (by decide +kernel)⟩

/-! ## State machine safety -/

lemma eq_of_decided (habs : LogInv m a) {l r : List LogEntry} {T T' : ℤ} (hl : m.Decided a T l)
    (hr : m.Decided a T' r) (hlen : l.length = r.length) : l = r :=
  (isPrefix_of_decided habs hl hr hlen.le).eq_of_length hlen

/-- Two entries that have been executed at the same index are the same. -/
lemma LogRel.executed_unique (hrel : LogRel m s a) {v w : ℤ} {x y : LogEntry} {cx cy : Bool}
    (hx : .executed v x cx ∈ s.history) (hy : .executed w y cy ∈ s.history)
    (hindex : x.index = y.index) : x = y := by
  obtain ⟨T, l, hl⟩ := hrel.events.executed v x cx hx
  obtain ⟨T', r, hr⟩ := hrel.events.executed w y cy hy
  have hxi := (hrel.abs.numbered_decided hl l.length x (by simp)).1
  have hyi := (hrel.abs.numbered_decided hr r.length y (by simp)).1
  have heq := eq_of_decided hrel.abs hl hr (by simp; omega)
  exact (List.concat_inj.mp (by simpa using heq)).2

/-- Two nodes that have applied as many entries have the same records. -/
lemma LogRel.sameRecords (hrel : LogRel m s a) {v w : ℤ}
    (happlied : (s.nodes v).storage.getLastAppliedIndex =
      (s.nodes w).storage.getLastAppliedIndex) :
    (s.nodes v).storage.SameRecords (s.nodes w).storage := by
  obtain ⟨l, T, hl, hlv, hsame, -⟩ := (hrel.nodes v).executor
  obtain ⟨r, T', hr, hrw, hsame', -⟩ := (hrel.nodes w).executor
  have hlen : l.length = r.length := by
    rw [hlv, hrw] at happlied
    exact_mod_cast happlied
  obtain rfl := eq_of_decided hrel.abs (hl.of_shorter (List.prefix_append _ _))
    (hr.of_shorter (List.prefix_append _ _)) hlen
  exact hsame.trans hsame'.symm

/-- **State machine safety.**  Entries that two nodes have executed at the same index are the same
entry, and two nodes with the same `sys:lastApplied` have the same account and request records. -/
theorem state_machine_safety (m : Membership) {ls : List Label}
    (hrun : PlainRun m.ids (.init m.ids fun _ => .genesis) ls s) (v w : ℤ) :
    (∀ x cx y cy, .executed v x cx ∈ s.history → .executed w y cy ∈ s.history →
      x.index = y.index → x = y) ∧
    ((s.nodes v).storage.getLastAppliedIndex = (s.nodes w).storage.getLastAppliedIndex →
      (s.nodes v).storage.SameRecords (s.nodes w).storage) := by
  obtain ⟨-, -, a, hrel⟩ := logRel_of_run hrun
  exact ⟨fun x cx y cy hx hy hindex => hrel.executed_unique hx hy hindex, hrel.sameRecords⟩

/-- Both nodes of a cluster of two execute the first entry. -/
theorem state_machine_safety_pair :
    ∃ s x, PlainRun pair.ids (.init pair.ids fun _ => RocksDBStore.genesis) agreement s ∧
      .executed 1 x true ∈ s.history ∧ .executed 2 x true ∈ s.history ∧
        (s.nodes 1).storage.SameRecords (s.nodes 2).storage := by
  have hruns : ∃ s, PlainRun pair.ids (.init pair.ids fun _ => RocksDBStore.genesis) agreement s ∧
      .executed 1 ⟨1, 1, transfer (Bytes.ascii "r") 50⟩ true ∈ s.history ∧
        .executed 2 ⟨1, 1, transfer (Bytes.ascii "r") 50⟩ true ∈ s.history ∧
          (s.nodes 1).storage.getLastAppliedIndex = (s.nodes 2).storage.getLastAppliedIndex :=
    run_of_after (by decide +kernel)
  obtain ⟨s, hrun, hx, hy, happlied⟩ := hruns
  exact ⟨s, _, hrun, hx, hy, (state_machine_safety pair hrun 1 2).2 happlied⟩

/-- Nodes `6` and `7` acknowledge the entries of both leaders, and both are executed. -/
def rivalsExecute : List Label :=
  rivals ++ replicate (-1) 6 6 ++ replicate (-1) 7 7 ++ applyFirst (-1) ++ replicate 5 6 8 ++
    replicate 5 7 9 ++ applyFirst 5

/-- **With a node whose id is `-1`, two nodes can execute different entries at one index.** -/
theorem executions_differ_with_sentinel :
    ([-1, 5, 6, 7] : List ℤ).Nodup ∧
      ∃ s, PlainRun [-1, 5, 6, 7] (.init [-1, 5, 6, 7] fun _ => RocksDBStore.genesis)
          rivalsExecute s ∧
        .executed (-1) ⟨1, 1, transfer (Bytes.ascii "r") 50⟩ true ∈ s.history ∧
        .executed 5 ⟨1, 1, transfer (Bytes.ascii "q") 70⟩ true ∈ s.history ∧
        (s.nodes (-1)).storage.getLastAppliedIndex = (s.nodes 5).storage.getLastAppliedIndex ∧
        (s.nodes (-1)).storage.getBalance (Bytes.ascii "1") ≠
          (s.nodes 5).storage.getBalance (Bytes.ascii "1") :=
  ⟨by decide, run_of_after (by decide +kernel)⟩

end RaftConsensus
