import RaftConsensus.Cluster.VoteDurability

/-!
# Entries are applied once and in order

The executor of a node fetches a batch of entries under the lock and applies them without it.
`Machine` is one node in any environment: requests and answers of any content arrive at any time,
and the process may be restarted.  Next to the node it keeps, as a ghost, which log indices its
account state includes.

Two things can go wrong.  A snapshot may be installed while fetched entries are still to be
applied, which then are applied on top of a state that has them; and a fetched entry may be
missing from the log, and comes back with index `0`.  In every run in which neither happens
(`Machine.Orderly`), `lastApplied_` and the stored `sys:lastApplied` never decrease, and every
entry that is applied is the next one and not included yet (`applied_once_in_order`).
-/

namespace RaftConsensus

/-! ## One node in any environment -/

/-- The log indices whose commands an account state includes: all up to `upTo`, and some more. -/
structure Included where
  upTo : ℤ
  later : List ℤ

namespace Included

def Contains (c : Included) (i : ℤ) : Prop := i ≤ c.upTo ∨ i ∈ c.later

instance (c : Included) (i : ℤ) : Decidable (c.Contains i) := inferInstanceAs (Decidable (_ ∨ _))

/-- One more command has been applied. -/
def add (c : Included) (i : ℤ) : Included := { c with later := i :: c.later }

/-- The state of a snapshot up to index `i`. -/
def snapshot (i : ℤ) : Included := ⟨i, []⟩

end Included

/-- A node, and what its account state includes. -/
structure Machine where
  node : RaftNode
  included : Included

/-- What can happen to a single node. -/
inductive NodeLabel
  | thread (call : ℕ) (step : ThreadStep)
  | handle (request : Request)
  | receive (dst : ℤ) (request : Request) (reply : Reply)
  | abandon (dst : ℤ) (request : Request)
  | restart

/-- The entry that is written by the next `applyEntry`. -/
def Executor.computed? : Executor → Option LogEntry
  | .computed entry _ _ _ _ => some entry
  | _ => none

/-- The fetched entries that are not applied yet. -/
def Executor.unapplied : Executor → List LogEntry
  | .applying entry rest => entry :: rest
  | .computed entry rest _ _ _ => entry :: rest
  | .written _ rest _ => rest
  | .notified rest => rest
  | .waiting => []

lemma Executor.unapplied_next (es : List LogEntry) : (Executor.next es).unapplied = es := by
  cases es <;> rfl

/-- The entry that has been applied and not yet reported. -/
def Executor.unreported : Executor → Option LogEntry
  | .written entry _ _ => some entry
  | _ => none

/-- Where the executor is when it has nothing left to apply. -/
lemma Executor.cases_of_unapplied {x : Executor} (h : x.unapplied = []) :
    x = .waiting ∨ x = .notified [] ∨ ∃ entry msg, x = .written entry [] msg := by
  cases x with
  | waiting => exact .inl rfl
  | applying entry rest => cases h
  | computed entry rest a b msg => cases h
  | written entry rest msg =>
      obtain rfl : rest = [] := h
      exact .inr (.inr ⟨entry, msg, rfl⟩)
  | notified rest =>
      obtain rfl : rest = [] := h
      exact .inr (.inl rfl)

namespace Machine

/-- A node that has just been constructed on a store. -/
def start (config : ClusterConfig) (store : RocksDBStore) : Machine :=
  ⟨.new config store, .snapshot store.getLastAppliedIndex⟩

/-- What the account state includes after a thread step. -/
def includedAfter (m : Machine) : ThreadStep → Included
  | .applyEntry => m.node.executor.computed?.elim m.included fun e => m.included.add e.index
  | _ => m.included

/-- What the account state includes after a request. -/
def includedAfterRequest (m : Machine) : Request → Included
  | .installSnapshot args =>
      if m.node.installs args then .snapshot args.lastIncludedIndex else m.included
  | _ => m.included

def step (m : Machine) : NodeLabel → Option Machine
  | .thread call a => (m.node.step call a).map fun r => ⟨r.1, m.includedAfter a⟩
  | .handle request => some ⟨(m.node.handle request).1, m.includedAfterRequest request⟩
  | .receive dst request reply => some ⟨m.node.receive dst request reply, m.included⟩
  | .abandon dst request => some ⟨m.node.abandon dst request, m.included⟩
  | .restart => some ⟨m.node.restart, m.included⟩

/-- **The steps that keep the order.**  A batch is fetched only when all of its entries are in the
log, under their own indices; and a snapshot is installed only when no fetched entry is still to
be applied, and one that is applied and not reported is the last one of the snapshot. -/
def Orderly (m : Machine) : NodeLabel → Prop
  | .thread _ a =>
      a = .fetchBatch → ∀ i ∈ m.node.batchIndices, (m.node.storage.getLogEntry i).index = i
  | .handle (.installSnapshot args) =>
      m.node.installs args → m.node.executor.unapplied = [] ∧
        ∀ e ∈ m.node.executor.unreported, e.index = args.lastIncludedIndex
  | _ => True

end Machine

/-! ## The invariant -/

/-- The indices of `es` go up by one from `k` on. -/
def Consecutive (k : ℤ) (es : List LogEntry) : Prop :=
  ∀ (j : ℕ) (e : LogEntry), es[j]? = some e → e.index = k + j

lemma consecutive_nil (k : ℤ) : Consecutive k [] := by simp [Consecutive]

lemma consecutive_cons {k : ℤ} {e : LogEntry} {es : List LogEntry} :
    Consecutive k (e :: es) ↔ e.index = k ∧ Consecutive (k + 1) es := by
  constructor
  · intro h
    refine ⟨by simpa using h 0 e rfl, fun j e' he' => ?_⟩
    have := h (j + 1) e' (by simpa using he')
    push_cast at this
    omega
  · rintro ⟨he, hes⟩ j e' he'
    cases j with
    | zero =>
        obtain rfl : e = e' := by simpa using he'
        simpa using he
    | succ j =>
        have := hes j e' (by simpa using he')
        push_cast
        omega

namespace RaftNode

variable {n n' : RaftNode}

/-- A fetched batch whose entries are all there is consecutive. -/
lemma consecutive_batch (h : ∀ i ∈ n.batchIndices, (n.storage.getLogEntry i).index = i) :
    Consecutive (n.lastApplied + 1) (n.batchIndices.map n.storage.getLogEntry) := by
  intro j e he
  rw [List.getElem?_map, Option.map_eq_some_iff] at he
  obtain ⟨i, hi, rfl⟩ := he
  rw [h i (List.mem_of_getElem? hi)]
  rw [batchIndices, List.getElem?_take] at hi
  split at hi
  · exact getElem?_loopRange hi
  · cases hi

/-- Where the executor stands relative to `lastApplied_` and the stored index: what is still to be
applied continues after the stored index, and only an entry that has been applied and not been
reported may lie between the two. -/
def ExecutorOk (n : RaftNode) : Prop :=
  match n.executor with
  | .applying entry rest | .computed entry rest _ _ _ =>
      n.storage.getLastAppliedIndex = n.lastApplied ∧
        Consecutive (n.lastApplied + 1) (entry :: rest)
  | .written entry rest _ =>
      n.storage.getLastAppliedIndex = entry.index ∧ Consecutive (entry.index + 1) rest ∧
        (n.lastApplied + 1 = entry.index ∨ n.lastApplied = entry.index ∧ rest = [])
  | .notified rest =>
      n.storage.getLastAppliedIndex = n.lastApplied ∧ Consecutive (n.lastApplied + 1) rest
  | .waiting => n.storage.getLastAppliedIndex = n.lastApplied

/-- What is applied, in RAM and in the store, is left alone. -/
def AppliedStill (n n' : RaftNode) : Prop :=
  n'.executor = n.executor ∧ n'.lastApplied = n.lastApplied ∧
    n'.storage.getLastAppliedIndex = n.storage.getLastAppliedIndex

lemma ExecutorOk.still (h : n.ExecutorOk) (hstill : AppliedStill n n') : n'.ExecutorOk := by
  obtain ⟨hex, happlied, hstored⟩ := hstill
  unfold ExecutorOk at h ⊢
  rw [hex, happlied, hstored]
  exact h

lemma executorOk_next (hstored : n.storage.getLastAppliedIndex = n.lastApplied)
    {es : List LogEntry} (hes : Consecutive (n.lastApplied + 1) es) (hex : n.executor = .next es) :
    n.ExecutorOk := by
  unfold ExecutorOk
  rw [hex]
  cases es with
  | nil => exact hstored
  | cons e es => exact ⟨hstored, hes⟩

/-! ## Steps that do not apply anything -/

/-- The steps of the executor. -/
def ofExecutor : ThreadStep → Prop
  | .fetchBatch | .readBalances | .applyEntry | .notifyClient | .compactIfDue
  | .skipCompaction => True
  | _ => False

lemma Move.appliedStill {call : ℕ} {a : ThreadStep} {out : Output} (ha : ¬ ofExecutor a)
    (hmove : n.Move call a n' out) : AppliedStill n n' := by
  cases hmove with
  | fetchBatch => exact absurd trivial ha
  | readBalances => exact absurd trivial ha
  | applyEntry => exact absurd trivial ha
  | notifyClient => exact absurd trivial ha
  | compactIfDue => exact absurd trivial ha
  | skipCompaction => exact absurd trivial ha
  | saveHardState => exact ⟨rfl, rfl, RocksDBStore.getLastAppliedIndex_saveHardState⟩
  | appendRequest => exact ⟨rfl, rfl, RocksDBStore.getLastAppliedIndex_appendLog⟩
  | _ => exact ⟨rfl, rfl, rfl⟩

lemma appliedStill_becomeFollower (n : RaftNode) (T : ℤ) : AppliedStill n (n.becomeFollower T) :=
  ⟨rfl, rfl, RocksDBStore.getLastAppliedIndex_saveHardState⟩

lemma AppliedStill.trans {n'' : RaftNode} (h : AppliedStill n n') (h' : AppliedStill n' n'') :
    AppliedStill n n'' :=
  ⟨h'.1.trans h.1, h'.2.1.trans h.2.1, h'.2.2.trans h.2.2⟩

lemma AppliedStill.refl (n : RaftNode) : AppliedStill n n := ⟨rfl, rfl, rfl⟩

lemma appliedStill_seeTerm (n : RaftNode) (T : ℤ) : AppliedStill n (n.seeTerm T) := by
  rcases seeTerm_cases n T with ⟨h, -⟩ | ⟨-, h⟩
  · rw [h]
    exact .refl n
  · rw [h]
    exact appliedStill_becomeFollower n T

lemma appliedStill_handleRequestVote (n : RaftNode) (args : RequestVoteArgs) :
    AppliedStill n (n.handleRequestVote args).1 := by
  rcases handleRequestVote_cases n args with h | ⟨-, -, ⟨-, h, -⟩ | h⟩
  · rw [h]
    exact .refl n
  · rw [h]
    refine (appliedStill_seeTerm n args.term).trans ⟨rfl, rfl, ?_⟩
    exact RocksDBStore.getLastAppliedIndex_saveHardState
  · rw [h]
    exact appliedStill_seeTerm n args.term

lemma appliedStill_appendEntry (n : RaftNode) (i : ℤ) (e : LogEntry) :
    AppliedStill n (n.appendEntry i e) := by
  unfold appendEntry
  split
  · split
    · exact ⟨rfl, rfl, by simp⟩
    · exact .refl n
  · exact ⟨rfl, rfl, by simp⟩

lemma appliedStill_appendLoop (es : List LogEntry) :
    ∀ (n : RaftNode) (i : ℤ), AppliedStill n (n.appendLoop i es) := by
  induction es with
  | nil => exact fun n _ => .refl n
  | cons e es ih => exact fun n i => (appliedStill_appendEntry n _ e).trans (ih _ _)

lemma appliedStill_followCommit (n : RaftNode) (c : ℤ) : AppliedStill n (n.followCommit c) := by
  unfold followCommit
  split <;> exact .refl n

lemma appliedStill_acceptLeader (n : RaftNode) (t l : ℤ) :
    AppliedStill n (n.acceptLeader t l) := by
  unfold acceptLeader
  dsimp only
  split
  · exact appliedStill_becomeFollower { n with leaderId := l } t
  · split
    · exact appliedStill_becomeFollower { n with leaderId := l } t
    · exact .refl n

lemma appliedStill_handleAppendEntries (n : RaftNode) (args : AppendEntriesArgs) :
    AppliedStill n (n.handleAppendEntries args).1 := by
  unfold handleAppendEntries
  split
  · exact .refl n
  · dsimp only
    split
    · exact ((appliedStill_acceptLeader n _ _).trans (appliedStill_appendLoop _ _ _)).trans
        (appliedStill_followCommit _ _)
    · exact appliedStill_acceptLeader n _ _

/-- A snapshot that is not installed leaves what is applied alone. -/
lemma appliedStill_handleInstallSnapshot (n : RaftNode) {args : InstallSnapshotArgs}
    (hnot : ¬ n.installs args) : AppliedStill n (n.handleInstallSnapshot args).1 := by
  rcases handleInstallSnapshot_cases n args with ⟨-, h⟩ | ⟨-, h⟩ | ⟨hinst, -⟩
  · rw [h]
    exact .refl n
  · rw [h]
    exact appliedStill_seeTerm n args.term
  · exact absurd hinst hnot

/-- A snapshot that is installed sets both indices. -/
lemma handleInstallSnapshot_applied (n : RaftNode) {args : InstallSnapshotArgs}
    (hinst : n.installs args) :
    (n.handleInstallSnapshot args).1.executor = n.executor ∧
      (n.handleInstallSnapshot args).1.lastApplied = args.lastIncludedIndex ∧
      (n.handleInstallSnapshot args).1.storage.getLastAppliedIndex = args.lastIncludedIndex := by
  rcases handleInstallSnapshot_cases n args with ⟨hnot, -⟩ | ⟨hnot, -⟩ | ⟨-, h⟩
  · exact absurd hinst hnot
  · exact absurd hinst hnot
  · have hne : lastAppliedKey ≠ snapshotTermKey ∧ lastAppliedKey ≠ snapshotIndexKey := by decide
    rw [h]
    refine ⟨(appliedStill_seeTerm n args.term).1, rfl, ?_⟩
    rw [installSnapshot, RocksDBStore.getLastAppliedIndex_appendLog,
      RocksDBStore.getLastAppliedIndex_truncateLog, RocksDBStore.getLastAppliedIndex,
      RocksDBStore.get_applySnapshot, if_neg hne.1, if_neg hne.2, if_pos rfl]
    rfl

lemma appliedStill_appendEntriesReply (n : RaftNode) (p : ℤ) (args : AppendEntriesArgs)
    (r : AppendEntriesReply) : AppliedStill n (n.appendEntriesReply p args r) := by
  unfold appendEntriesReply
  dsimp only
  split
  · exact .refl n
  · split
    · exact appliedStill_becomeFollower (n.setWorker p .idle) _
    · split
      · split <;> exact .refl n
      · split <;> exact .refl n

lemma appliedStill_installSnapshotReply (n : RaftNode) (p : ℤ) (args : InstallSnapshotArgs)
    (r : InstallSnapshotReply) : AppliedStill n (n.installSnapshotReply p args r) := by
  unfold installSnapshotReply
  dsimp only
  split
  · exact appliedStill_becomeFollower (n.setWorker p .idle) _
  · split <;> exact .refl n

lemma appliedStill_receive (n : RaftNode) (dst : ℤ) (req : Request) (rep : Reply) :
    AppliedStill n (n.receive dst req rep) := by
  cases req with
  | requestVote args =>
      cases rep with
      | requestVote r =>
          rcases voteReply_cases n args.term r with h | ⟨-, h⟩ | ⟨hstate, -, -, ⟨-, h⟩ | ⟨-, h⟩⟩
          · rw [receive, h]
            exact .refl n
          · rw [receive, h]
            exact appliedStill_becomeFollower n _
          · rw [receive, h]
            exact .refl n
          · rw [receive, h, becomeLeader_eq (n := n.countVote args.term) hstate]
            exact .refl n
      | appendEntries r => exact .refl n
      | installSnapshot r => exact .refl n
  | appendEntries args =>
      cases rep with
      | requestVote r => exact .refl n
      | appendEntries r => exact appliedStill_appendEntriesReply n dst args r
      | installSnapshot r => exact .refl n
  | installSnapshot args =>
      cases rep with
      | requestVote r => exact .refl n
      | appendEntries r => exact .refl n
      | installSnapshot r => exact appliedStill_installSnapshotReply n dst args r

lemma appliedStill_abandon (n : RaftNode) (dst : ℤ) (req : Request) :
    AppliedStill n (n.abandon dst req) := by
  cases req <;> exact .refl n

end RaftNode

/-! ## Runs -/

namespace Machine

variable {m m' : Machine}

/-- The executor stands where it should, and nothing after the stored index is included. -/
structure Inv (m : Machine) : Prop where
  executor : m.node.ExecutorOk
  included : ∀ i, m.included.Contains i → i ≤ m.node.storage.getLastAppliedIndex

/-- What a step does to the two indices and to the account state, when all goes well. -/
structure Advances (m m' : Machine) : Prop where
  inv : m'.Inv
  applied : m.node.lastApplied ≤ m'.node.lastApplied
  stored : m.node.storage.getLastAppliedIndex ≤ m'.node.storage.getLastAppliedIndex

lemma Inv.still (hinv : m.Inv) {n : RaftNode} (h : RaftNode.AppliedStill m.node n) :
    Advances m ⟨n, m.included⟩ where
  inv := ⟨hinv.executor.still h, fun i hi => (hinv.included i hi).trans h.2.2.ge⟩
  applied := h.2.1.ge
  stored := h.2.2.ge

/-- Where the executor stands when it is about to write an entry. -/
lemma Inv.computed (hinv : m.Inv) {entry : LogEntry} {rest : List LogEntry} {a b : ℤ}
    {msg : Bytes} (hex : m.node.executor = .computed entry rest a b msg) :
    m.node.storage.getLastAppliedIndex = m.node.lastApplied ∧
      entry.index = m.node.lastApplied + 1 ∧ Consecutive (m.node.lastApplied + 1 + 1) rest := by
  have h := hinv.executor
  unfold RaftNode.ExecutorOk at h
  rw [hex] at h
  exact ⟨h.1, consecutive_cons.mp h.2⟩

/-- The entry that is about to be written is the next one, and its command is not included. -/
lemma Inv.next (hinv : m.Inv) {entry : LogEntry}
    (hex : m.node.executor.computed? = some entry) :
    entry.index = m.node.lastApplied + 1 ∧ ¬ m.included.Contains entry.index := by
  obtain ⟨rest, a, b, msg, hex⟩ : ∃ rest a b msg,
      m.node.executor = .computed entry rest a b msg := by
    unfold Executor.computed? at hex
    split at hex
    · rename_i hcomputed
      cases hex
      exact ⟨_, _, _, _, hcomputed⟩
    · cases hex
  obtain ⟨hstored, hindex, -⟩ := hinv.computed hex
  refine ⟨hindex, fun hin => ?_⟩
  have := hinv.included _ hin
  omega

/-- The executor's own steps advance. -/
lemma Inv.execute (hinv : m.Inv) {call : ℕ} {a : ThreadStep} {n : RaftNode} {out : Output}
    (ha : RaftNode.ofExecutor a) (hmove : m.node.Move call a n out)
    (hok : m.Orderly (.thread call a)) :
    Advances m ⟨n, m.includedAfter a⟩ := by
  have hex' := hinv.executor
  have hin := hinv.included
  unfold RaftNode.ExecutorOk at hex'
  cases hmove with
  | fetchBatch hwaiting =>
      rw [hwaiting] at hex'
      refine ⟨⟨?_, hin⟩, le_rfl, le_rfl⟩
      exact RaftNode.executorOk_next hex' (RaftNode.consecutive_batch (hok rfl)) rfl
  | readBalances hex =>
      rw [hex] at hex'
      exact ⟨⟨hex', hin⟩, le_rfl, le_rfl⟩
  | @applyEntry entry rest a b msg hex =>
      obtain ⟨hstored, hindex, hrest⟩ := hinv.computed hex
      have hadd : m.includedAfter .applyEntry = m.included.add entry.index := by
        simp [includedAfter, hex, Executor.computed?]
      rw [hadd]
      refine ⟨⟨⟨by simp, hindex ▸ hrest, .inl hindex.symm⟩, fun i hi => ?_⟩, le_rfl, ?_⟩
      · have hle : i ≤ entry.index := by
          rcases hi with h | h
          · have := hin i (.inl h)
            omega
          · rcases List.mem_cons.mp h with rfl | h
            · exact le_rfl
            · have := hin i (.inr h)
              omega
        simpa using hle
      · show m.node.storage.getLastAppliedIndex ≤
          (m.node.storage.applyTransaction entry a b msg).getLastAppliedIndex
        rw [RocksDBStore.getLastAppliedIndex_applyTransaction]
        omega
  | notifyClient hex =>
      rw [hex] at hex'
      obtain ⟨hstored, hrest, happlied⟩ := hex'
      refine ⟨⟨⟨hstored, hrest⟩, hin⟩, ?_, le_rfl⟩
      rcases happlied with h | h
      · exact (lt_add_one m.node.lastApplied).le.trans h.le
      · exact h.1.le
  | compactIfDue hex =>
      rw [hex] at hex'
      have hsame : (if m.node.compactionDue then m.node.storage.compactLog
          (m.node.lastApplied - 100) else m.node.storage).getLastAppliedIndex =
            m.node.storage.getLastAppliedIndex := by
        split
        · exact RocksDBStore.getLastAppliedIndex_compactLog
        · rfl
      refine ⟨⟨?_, fun i hi => (hin i hi).trans hsame.ge⟩, le_rfl, hsame.ge⟩
      exact RaftNode.executorOk_next (hsame.trans hex'.1) hex'.2 rfl
  | skipCompaction hex =>
      rw [hex] at hex'
      refine ⟨⟨?_, hin⟩, le_rfl, le_rfl⟩
      exact RaftNode.executorOk_next hex'.1 hex'.2 rfl
  | _ => exact ha.elim

/-- Thread steps advance. -/
lemma Inv.thread (hinv : m.Inv) {call : ℕ} {a : ThreadStep} {n : RaftNode} {out : Output}
    (hmove : m.node.Move call a n out) (hok : m.Orderly (.thread call a)) :
    Advances m ⟨n, m.includedAfter a⟩ := by
  by_cases ha : RaftNode.ofExecutor a
  · exact hinv.execute ha hmove hok
  · have hsame : m.includedAfter a = m.included := by
      cases a with
      | applyEntry => exact absurd trivial ha
      | _ => rfl
    rw [hsame]
    exact hinv.still (hmove.appliedStill ha)

/-- A snapshot that comes when nothing fetched is still to be applied advances. -/
lemma Inv.install (hinv : m.Inv) {args : InstallSnapshotArgs} (hinst : m.node.installs args)
    (hok : m.Orderly (.handle (.installSnapshot args))) :
    Advances m ⟨(m.node.handleInstallSnapshot args).1, .snapshot args.lastIncludedIndex⟩ := by
  obtain ⟨hexecutor, happlied, hstored⟩ := RaftNode.handleInstallSnapshot_applied m.node hinst
  obtain ⟨hnone, hlast⟩ := hok hinst
  have hlater : m.node.lastApplied < args.lastIncludedIndex := hinst.2
  have hex := hinv.executor
  unfold RaftNode.ExecutorOk at hex
  have hincluded : ∀ i, (Included.snapshot args.lastIncludedIndex).Contains i →
      i ≤ (m.node.handleInstallSnapshot args).1.storage.getLastAppliedIndex := by
    rintro i (h | h)
    · exact h.trans hstored.ge
    · cases h
  suffices hok' : (m.node.handleInstallSnapshot args).1.ExecutorOk ∧
      m.node.storage.getLastAppliedIndex ≤ args.lastIncludedIndex from
    ⟨⟨hok'.1, hincluded⟩, hlater.le.trans happlied.ge, hok'.2.trans hstored.ge⟩
  unfold RaftNode.ExecutorOk
  rw [hexecutor, happlied, hstored]
  rcases Executor.cases_of_unapplied hnone with hwhere | hwhere | ⟨entry, msg, hwhere⟩
  · rw [hwhere] at hex ⊢
    exact ⟨rfl, hex.trans_le hlater.le⟩
  · rw [hwhere] at hex ⊢
    exact ⟨⟨rfl, consecutive_nil _⟩, hex.1.trans_le hlater.le⟩
  · have hindex := hlast entry (by simp [hwhere, Executor.unreported])
    rw [hwhere] at hex ⊢
    exact ⟨⟨hindex.symm, consecutive_nil _, .inr ⟨hindex.symm, rfl⟩⟩, (hex.1.trans hindex).le⟩

/-- A restart loads what is stored. -/
lemma Inv.restart (hinv : m.Inv) : Advances m ⟨m.node.restart, m.included⟩ := by
  refine ⟨⟨rfl, hinv.included⟩, ?_, le_rfl⟩
  show m.node.lastApplied ≤ m.node.storage.getLastAppliedIndex
  have hex := hinv.executor
  unfold RaftNode.ExecutorOk at hex
  split at hex
  · exact hex.1.ge
  · exact hex.1.ge
  · omega
  · exact hex.1.ge
  · exact hex.ge

/-- **Every orderly step advances.** -/
theorem Inv.step (hinv : m.Inv) {l : NodeLabel} (hok : m.Orderly l) (hstep : m.step l = some m') :
    Advances m m' := by
  cases l with
  | thread call a =>
      simp only [Machine.step, Option.map_eq_some_iff] at hstep
      obtain ⟨⟨n, out⟩, hn, rfl⟩ := hstep
      exact hinv.thread (RaftNode.move_of_step hn) hok
  | handle request =>
      cases hstep
      cases request with
      | requestVote args => exact hinv.still (RaftNode.appliedStill_handleRequestVote _ args)
      | appendEntries args => exact hinv.still (RaftNode.appliedStill_handleAppendEntries _ args)
      | installSnapshot args =>
          by_cases hinst : m.node.installs args
          · simp only [includedAfterRequest, if_pos hinst]
            exact hinv.install hinst hok
          · simp only [includedAfterRequest, if_neg hinst]
            exact hinv.still (RaftNode.appliedStill_handleInstallSnapshot _ hinst)
  | receive dst request reply =>
      cases hstep
      exact hinv.still (RaftNode.appliedStill_receive _ dst request reply)
  | abandon dst request =>
      cases hstep
      exact hinv.still (RaftNode.appliedStill_abandon _ dst request)
  | restart =>
      cases hstep
      exact hinv.restart

lemma inv_start (config : ClusterConfig) (store : RocksDBStore) : (start config store).Inv where
  executor := rfl
  included i hi := by
    rcases hi with h | h
    · exact h
    · cases h

/-- The runs of a node whose steps are all orderly. -/
def OrderlyRun : Machine → List NodeLabel → Machine → Prop :=
  Transition.Run Machine.step Machine.Orderly

instance (m : Machine) : DecidablePred m.Orderly
  | .thread _ a => inferInstanceAs (Decidable (a = .fetchBatch → _))
  | .handle (.installSnapshot args) => inferInstanceAs (Decidable (m.node.installs args → _ ∧ _))
  | .handle (.requestVote _) | .handle (.appendEntries _) | .receive _ _ _ | .abandon _ _
  | .restart => isTrue trivial

/-- What follows when a snapshot is installed while an entry it includes is still to be applied:
the entry is applied all the same, and both indices fall back to it. -/
lemma overtaken {entry : LogEntry} {rest : List LogEntry} {args : InstallSnapshotArgs}
    (hex : m.node.executor = .applying entry rest) (hinst : m.node.installs args)
    (hle : entry.index ≤ args.lastIncludedIndex) :
    ∃ m₁ m₂ m₃ : Machine,
      Transition.Run Machine.step (fun _ _ => True) m
        [.handle (.installSnapshot args), .thread 0 .readBalances] m₁ ∧
      m₁.step (.thread 0 .applyEntry) = some m₂ ∧ m₂.step (.thread 0 .notifyClient) = some m₃ ∧
      m₁.node.executor.computed? = some entry ∧ m₁.node.lastApplied = args.lastIncludedIndex ∧
      m₁.node.storage.getLastAppliedIndex = args.lastIncludedIndex ∧
      m₁.included.Contains entry.index ∧ m₂.node.storage.getLastAppliedIndex = entry.index ∧
      m₃.node.lastApplied = entry.index ∧ m₂.node.lastApplied = args.lastIncludedIndex := by
  obtain ⟨hexecutor, happlied, hstored⟩ := RaftNode.handleInstallSnapshot_applied m.node hinst
  rw [hex] at hexecutor
  generalize hn : (m.node.handleInstallSnapshot args).1 = n at hexecutor happlied hstored
  have hinstall : m.step (.handle (.installSnapshot args)) =
      some ⟨n, .snapshot args.lastIncludedIndex⟩ := by
    simp [Machine.step, RaftNode.handle, includedAfterRequest, hinst, hn]
  have hread : Machine.step ⟨n, .snapshot args.lastIncludedIndex⟩ (.thread 0 .readBalances) =
      some ⟨{ n with
        executor := .computed entry rest (n.storage.outcome entry.command).senderNewBal
          (n.storage.outcome entry.command).receiverNewBal
          (n.storage.outcome entry.command).resultMsg }, .snapshot args.lastIncludedIndex⟩ := by
    simp [Machine.step, RaftNode.step, RaftNode.quiet, RaftNode.readBalances, hexecutor,
      includedAfter]
  refine ⟨_, _, _, (Transition.Run.single trivial hinstall).append
    (.single trivial hread), rfl, rfl, rfl, happlied, hstored, .inl hle, ?_, rfl, happlied⟩
  exact RocksDBStore.getLastAppliedIndex_applyTransaction

end Machine

/-- **Entries are applied once and in order.**  After any orderly run and in any further orderly
step, `lastApplied_` and the stored index do not decrease, and an entry that is applied is the one
after `lastApplied_`, with a command that the account state does not include. -/
theorem applied_once_in_order (config : ClusterConfig) (store : RocksDBStore)
    {ls : List NodeLabel} {m m' : Machine} {l : NodeLabel}
    (hrun : Machine.OrderlyRun (.start config store) ls m) (hok : m.Orderly l)
    (hstep : m.step l = some m') :
    m.node.lastApplied ≤ m'.node.lastApplied ∧
      m.node.storage.getLastAppliedIndex ≤ m'.node.storage.getLastAppliedIndex ∧
      ∀ call entry, l = .thread call .applyEntry → m.node.executor.computed? = some entry →
        entry.index = m.node.lastApplied + 1 ∧ ¬ m.included.Contains entry.index := by
  have hinv : m.Inv := Transition.Run.invariant hrun (Machine.inv_start config store)
    fun t l u hinv hok hs => (hinv.step hok hs).inv
  have hadv := hinv.step hok hstep
  exact ⟨hadv.applied, hadv.stored, fun call entry _ hex => hinv.next hex⟩

/-- Two transfers of a leader of the first term, both committed. -/
def twoEntries : AppendEntriesArgs where
  term := 1
  leaderId := 2
  prevLogIndex := 0
  prevLogTerm := 0
  entries := [⟨1, 1, ⟨Bytes.ascii "r1", .transfer, Bytes.ascii "1", Bytes.ascii "2", 50⟩⟩,
    ⟨1, 2, ⟨Bytes.ascii "r2", .transfer, Bytes.ascii "2", Bytes.ascii "3", 70⟩⟩]
  leaderCommit := 2

/-- The first of them is about to be written. -/
theorem applied_once_in_order_first :
    ∃ m m', Machine.OrderlyRun (.start ⟨1, [1, 2]⟩ RocksDBStore.genesis)
        [.handle (.appendEntries twoEntries), .thread 0 .fetchBatch, .thread 0 .readBalances] m ∧
      m.step (.thread 0 .applyEntry) = some m' ∧
      ∃ entry, m.node.executor.computed? = some entry ∧ entry.index = 1 ∧
        ¬ m.included.Contains entry.index := by
  have hfetched : ∃ m, Machine.OrderlyRun (.start ⟨1, [1, 2]⟩ RocksDBStore.genesis)
      [.handle (.appendEntries twoEntries), .thread 0 .fetchBatch, .thread 0 .readBalances] m ∧
      m.node.lastApplied = 0 ∧ (m.node.executor.computed?).isSome ∧
      (m.step (.thread 0 .applyEntry)).isSome :=
    run_of_genesis (Machine.start ⟨1, [1, 2]⟩) (by decide +kernel)
  obtain ⟨m, hrun, happlied, hex, hsome⟩ := hfetched
  obtain ⟨entry, hentry⟩ := Option.isSome_iff_exists.mp hex
  obtain ⟨m', hstep⟩ := Option.isSome_iff_exists.mp hsome
  obtain ⟨-, -, hnext⟩ := applied_once_in_order _ _ hrun (by simp [Machine.Orderly]) hstep
  obtain ⟨hindex, hnot⟩ := hnext 0 entry rfl hentry
  exact ⟨m, m', hrun, hstep, entry, hentry, by rw [hindex, happlied]; rfl, hnot⟩

/-- The snapshot of a leader that has executed both. -/
def overtakingSnapshot : InstallSnapshotArgs where
  term := 1
  leaderId := 2
  lastIncludedIndex := 2
  lastIncludedTerm := 1
  data := (twoEntries.entries.foldl .execute RocksDBStore.genesis).createSnapshot.data
  offset := 0
  done := true

/-- **A snapshot can overtake a fetched batch.**  The first entry is applied when `lastApplied_`
is `2` already, to an account state that includes it; the stored index and then `lastApplied_`
fall back to `1`. -/
theorem snapshot_overtakes_batch :
    ∃ m m₁ m₂ : Machine, Transition.Run Machine.step (fun _ _ => True)
        (.start ⟨1, [1, 2]⟩ RocksDBStore.genesis)
        [.handle (.appendEntries twoEntries), .thread 0 .fetchBatch,
          .handle (.installSnapshot overtakingSnapshot), .thread 0 .readBalances] m ∧
      m.step (.thread 0 .applyEntry) = some m₁ ∧ m₁.step (.thread 0 .notifyClient) = some m₂ ∧
      (∃ entry, m.node.executor.computed? = some entry ∧ entry.index ≠ m.node.lastApplied + 1 ∧
        m.included.Contains entry.index) ∧
      m₁.node.storage.getLastAppliedIndex < m.node.storage.getLastAppliedIndex ∧
      m₂.node.lastApplied < m₁.node.lastApplied := by
  have hfetched : ∃ m, Transition.Run Machine.step (fun _ _ => True)
      (.start ⟨1, [1, 2]⟩ RocksDBStore.genesis)
      [.handle (.appendEntries twoEntries), .thread 0 .fetchBatch] m ∧
      m.node.installs overtakingSnapshot ∧
      ∃ entry ∈ m.node.executor.unapplied.head?, entry.index = 1 ∧
        m.node.executor = .applying entry m.node.executor.unapplied.tail :=
    run_of_genesis (Machine.start ⟨1, [1, 2]⟩) (by decide +kernel)
  obtain ⟨m, hrun, hinst, entry, -, hindex, hex⟩ := hfetched
  obtain ⟨m₁, m₂, m₃, hrun', hstep₁, hstep₂, hentry, happlied, hstored, hin, hstored', happlied'⟩ :=
    Machine.overtaken hex hinst (by rw [hindex]; decide)
  refine ⟨m₁, m₂, m₃, hrun.append hrun', hstep₁, hstep₂, ⟨entry, hentry, ?_, hin⟩, ?_, ?_⟩
  · rw [happlied, hindex]
    decide
  · rw [hstored', hstored, hindex]
    decide
  · rw [happlied'.1, happlied'.2, hindex]
    decide

end RaftConsensus
