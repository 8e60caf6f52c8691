import RaftConsensus.Cluster.LeaderAppendOnly
import RaftConsensus.Cluster.Records
import RaftConsensus.Cluster.Slices

/-!
# Where replicated commands come from

An entry is created in `processClientRequest`, by a leader (`Appends`), and in
`handleInstallSnapshot`: the placeholder for the last entry a snapshot includes.  The placeholder
has the right index and term but not the command, and `replicateToPeer` reads it like any other
entry when `nextIndex_` has come down to it (`placeholder_shipped`).  It also reads an entry that is
not there, which gives an empty one.

In every run in which messages are not built from such entries (`ShipsOriginals`), every entry of
every message is one that some leader of its term has appended at its index
(`replicated_commands_original`).
-/

namespace RaftConsensus

open RocksDBStore

/-- The entry is a placeholder for the last one of a snapshot. -/
def LogEntry.IsPlaceholder (e : LogEntry) : Prop := e = RaftNode.anchorEntry e.index e.term

instance (e : LogEntry) : Decidable e.IsPlaceholder := inferInstanceAs (Decidable (_ = _))

lemma isPlaceholder_anchorEntry (i t : ℤ) : (RaftNode.anchorEntry i t).IsPlaceholder := rfl

/-! ## The entries of a store -/

namespace RocksDBStore

variable {s s' : RocksDBStore} {P : LogEntry → Prop} {e : LogEntry} {i : ℤ}

/-- All stored entries satisfy `P`. -/
def AllEntries (s : RocksDBStore) (P : LogEntry → Prop) : Prop :=
  ∀ i e, s.entry? i = some e → P e

namespace AllEntries

lemma mono {Q : LogEntry → Prop} (h : s.AllEntries P) (hPQ : ∀ e, P e → Q e) : s.AllEntries Q :=
  fun i e he => hPQ e (h i e he)

lemma of_same (h : s.AllEntries P) (hsame : ∀ i, s'.entry? i = s.entry? i) : s'.AllEntries P :=
  fun i e he => h i e ((hsame i).symm.trans he)

lemma saveHardState (h : s.AllEntries P) {t v : ℤ} : (s.saveHardState t v).AllEntries P :=
  h.of_same fun _ => entry?_saveHardState

lemma appendLog (h : s.AllEntries P) (he : P e) : (s.appendLog e).AllEntries P := by
  intro i x hx
  rw [entry?_appendLog] at hx
  split at hx
  · cases hx
    exact he
  · exact h i x hx

lemma truncateLog (h : s.AllEntries P) {c : ℤ} : (s.truncateLog c).AllEntries P := by
  intro i x hx
  rw [entry?_truncateLog] at hx
  split at hx
  · cases hx
  · exact h i x hx

lemma compactLog (h : s.AllEntries P) {c : ℤ} : (s.compactLog c).AllEntries P := by
  intro i x hx
  rw [entry?_compactLog] at hx
  split at hx
  · cases hx
  · exact h i x hx

lemma applySnapshot (h : s.AllEntries P) {data : Bytes} {j t : ℤ} (hdata : SparesEntries data) :
    (s.applySnapshot data j t).AllEntries P :=
  h.of_same fun _ => entry?_applySnapshot hdata

end AllEntries

end RocksDBStore

/-! ## A node -/

/-- The entries a replication thread has read. -/
def Worker.entries : Worker → List LogEntry
  | .locked b | .reading b => b.entries
  | _ => []

/-- The index of the entry it reads next. -/
def Worker.nextRead? : Worker → Option ℤ
  | .reading b => some b.next
  | _ => none

namespace RaftNode

variable {n n' : RaftNode} {orig : LogEntry → Prop}

/-- There is an entry at the index, and it is no placeholder. -/
def HasOriginal (n : RaftNode) (i : ℤ) : Prop := ∃ e ∈ n.storage.entry? i, ¬ e.IsPlaceholder

instance (n : RaftNode) (i : ℤ) : Decidable (n.HasOriginal i) :=
  inferInstanceAs (Decidable (∃ e ∈ n.storage.entry? i, _))

/-- What a thread step reads for a message is there and no placeholder. -/
def ReadsOriginals (n : RaftNode) (a : ThreadStep) : Prop :=
  (∀ peer, a = .replicateRead peer → ∀ i ∈ (n.workers peer).nextRead?, n.HasOriginal i) ∧
    ∀ peer, a = .replicateAtomic peer →
      ∀ i ∈ (loopRange (n.nextIndex peer) n.lastLogIndex).take batchLimit, n.HasOriginal i

/-- A snapshot that is installed names no log entry. -/
def SnapshotSparesEntries (n : RaftNode) : Request → Prop
  | .installSnapshot args => n.installs args → SparesEntries args.data
  | _ => True

/-- The entries of the log, and those of the messages that are being built. -/
structure AllOriginal (n : RaftNode) (orig : LogEntry → Prop) : Prop where
  log : n.storage.AllEntries fun e => orig e ∨ e.IsPlaceholder
  read : ∀ p, ∀ e ∈ (n.workers p).entries, orig e

namespace AllOriginal

lemma mono {orig' : LogEntry → Prop} (h : n.AllOriginal orig) (hmono : ∀ e, orig e → orig' e) :
    n.AllOriginal orig' where
  log := h.log.mono fun e he => he.imp (hmono e) id
  read p e he := hmono e (h.read p e he)

/-- Reading an entry that is no placeholder. -/
lemma getLogEntry (h : n.AllOriginal orig) {i : ℤ} (hi : n.HasOriginal i) :
    orig (n.storage.getLogEntry i) := by
  obtain ⟨e, he, hnot⟩ := hi
  rw [RocksDBStore.getLogEntry_of_entry? he]
  exact (h.log i e he).resolve_right hnot

/-- Moving one replication thread. -/
lemma setWorker (h : n.AllOriginal orig) {p : ℤ} {w : Worker} (hw : ∀ e ∈ w.entries, orig e) :
    (n.setWorker p w).AllOriginal orig := by
  refine ⟨h.log, fun q => ?_⟩
  show ∀ e ∈ (Function.update n.workers p w q).entries, orig e
  by_cases hq : q = p
  · subst hq
    rwa [Function.update_self]
  · rw [Function.update_of_ne hq]
    exact h.read q

/-- Replacing the store, by one with the same entries or with more original ones. -/
lemma replace (h : n.AllOriginal orig) (hworkers : n'.workers = n.workers)
    (hlog : n'.storage.AllEntries fun e => orig e ∨ e.IsPlaceholder) : n'.AllOriginal orig :=
  ⟨hlog, fun p => by rw [hworkers]; exact h.read p⟩

end AllOriginal

/-- **A thread step keeps the log and the messages original**, if what it reads is. -/
lemma Move.allOriginal {call : ℕ} {a : ThreadStep} {out : Output} (hmove : n.Move call a n' out)
    (h : n.AllOriginal orig) (hreads : n.ReadsOriginals a)
    (hnew : ∀ cb req, a = .appendRequest cb → n.state = .leader →
      n.requests cb = some (.lookedUp req) → n.pendingCallbacks req.requestId = none →
        orig (n.newEntry req)) : n'.AllOriginal orig := by
  have hworker : ∀ {p : ℤ} {w : Worker}, n.workers p = w → ∀ e ∈ w.entries, orig e :=
    fun hw => hw ▸ h.read _
  cases hmove with
  | saveHardState => exact h.replace rfl h.log.saveHardState
  | replicateBegin => exact h.setWorker (by simp [Worker.entries])
  | replicateCheckMissing => exact h.setWorker (by simp [Worker.entries])
  | replicateCheck => exact h.setWorker (by simp [Worker.entries])
  | replicateLockDeposed => exact h.setWorker (by simp [Worker.entries])
  | replicateLock => exact h.setWorker (by simp [Worker.entries])
  | replicatePrevTerm hw =>
      have hread := hworker hw
      exact h.setWorker hread
  | @replicateRead p b hw hmore =>
      refine h.setWorker fun e he => ?_
      rcases List.mem_append.mp he with he | he
      · exact hworker hw e he
      · obtain rfl := List.mem_singleton.mp he
        exact h.getLogEntry (hreads.1 p rfl b.next (by rw [hw]; rfl))
  | replicateSend => exact h.setWorker (by simp [Worker.entries])
  | replicateAtomicMissing => exact h.setWorker (by simp [Worker.entries])
  | replicateAtomic => exact h.setWorker (by simp [Worker.entries])
  | dumpSnapshot => exact h.setWorker (by simp [Worker.entries])
  | stampSnapshot => exact h.setWorker (by simp [Worker.entries])
  | sendSnapshot => exact h.setWorker (by simp [Worker.entries])
  | appendRequest hreq hstate hpending =>
      exact h.replace rfl (h.log.appendLog (.inl (hnew _ _ rfl hstate hreq hpending)))
  | applyEntry => exact h.replace rfl (h.log.of_same fun _ => entry?_applyTransaction)
  | compactIfDue =>
      refine h.replace rfl ?_
      dsimp only
      split
      · exact h.log.compactLog
      · exact h.log
  | _ => exact ⟨h.log, h.read⟩

/-- The entries of a message that is sent are those that have been read. -/
lemma Move.sentOriginal {call : ℕ} {a : ThreadStep} {dst : ℤ} {args : AppendEntriesArgs}
    (hmove : n.Move call a n' (.call dst (.appendEntries args))) (h : n.AllOriginal orig)
    (hreads : n.ReadsOriginals a) : ∀ e ∈ args.entries, orig e := by
  generalize hout : Output.call dst (.appendEntries args) = out at hmove
  cases hmove with
  | replicateSend hw =>
      cases hout
      have hread := h.read dst
      rw [hw] at hread
      exact hread
  | replicateAtomic =>
      cases hout
      intro e he
      obtain ⟨i, hi, rfl⟩ := List.mem_map.mp he
      exact h.getLogEntry (hreads.2 dst rfl i hi)
  | @notifyClient entry rest msg hex =>
      cases hp : n.pendingCallbacks entry.command.requestId <;> simp [hp] at hout
  | _ => cases hout

lemma allEntries_appendLoop {P : LogEntry → Prop} {es : List LogEntry} (hes : ∀ e ∈ es, P e) :
    ∀ {n : RaftNode} {prev : ℤ}, n.storage.AllEntries P →
      (n.appendLoop prev es).storage.AllEntries P := by
  induction es with
  | nil => exact fun h => h
  | cons e es ih =>
      intro n prev h
      refine ih (fun x hx => hes x (List.mem_cons_of_mem _ hx)) ?_
      have he := hes e (by simp)
      unfold appendEntry
      split
      · split
        · exact h.truncateLog.appendLog he
        · exact h
      · exact h.appendLog he

lemma allEntries_seeTerm {P : LogEntry → Prop} (h : n.storage.AllEntries P) {t : ℤ} :
    (n.seeTerm t).storage.AllEntries P := by
  rcases seeTerm_cases n t with ⟨hs, -⟩ | ⟨-, hs⟩
  · rwa [hs]
  · rw [hs]
    exact h.saveHardState

/-- A handler puts the entries of a message into the log, or a placeholder. -/
lemma allOriginal_handle (h : n.AllOriginal orig) {req : Request}
    (hspares : n.SnapshotSparesEntries req)
    (hentries : ∀ args, req = .appendEntries args → ∀ e ∈ args.entries, orig e) :
    (n.handle req).1.AllOriginal orig := by
  obtain ⟨-, -, -, -, -, -, hworkers, -, -⟩ := threads_inj (handle_threads n req)
  refine h.replace hworkers ?_
  cases req with
  | requestVote args =>
      rcases handleRequestVote_cases n args with hcase | ⟨-, -, ⟨-, hcase, -⟩ | hcase⟩
      · rw [handle, hcase]
        exact h.log
      · rw [handle, hcase]
        exact (allEntries_seeTerm h.log).saveHardState
      · rw [handle, hcase]
        exact allEntries_seeTerm h.log
  | appendEntries args =>
      have haccept : (n.acceptLeader args.term args.leaderId).storage.AllEntries
          fun e => orig e ∨ e.IsPlaceholder := by
        unfold acceptLeader
        dsimp only
        split
        · exact h.log.saveHardState
        · split
          · exact h.log.saveHardState
          · exact h.log
      simp only [handle, handleAppendEntries]
      split
      · exact h.log
      · split
        · unfold followCommit
          split
          · exact allEntries_appendLoop (fun e he => .inl (hentries args rfl e he)) haccept
          · exact allEntries_appendLoop (fun e he => .inl (hentries args rfl e he)) haccept
        · exact haccept
  | installSnapshot args =>
      rw [handle]
      rcases handleInstallSnapshot_cases n args with ⟨-, hcase⟩ | ⟨-, hcase⟩ | ⟨hinst, hcase⟩
      · rw [hcase]
        exact h.log
      · rw [hcase]
        exact allEntries_seeTerm h.log
      · rw [hcase]
        exact ((allEntries_seeTerm h.log).applySnapshot (hspares hinst)).truncateLog.appendLog
          (.inr (isPlaceholder_anchorEntry _ _))

/-- Replication threads that end. -/
lemma AllOriginal.end_worker (h : n.AllOriginal orig)
    (hworkers : ∀ p, n'.workers p = n.workers p ∨ n'.workers p = .idle)
    (hstorage : n'.storage = n.storage ∨ ∃ t v, n'.storage = n.storage.saveHardState t v) :
    n'.AllOriginal orig := by
  constructor
  · rcases hstorage with hs | ⟨t, v, hs⟩
    · rw [hs]
      exact h.log
    · rw [hs]
      exact h.log.saveHardState
  · intro p
    rcases hworkers p with hw | hw
    · rw [hw]
      exact h.read p
    · rw [hw]
      exact fun e he => by cases he

end RaftNode

/-! ## Runs -/

/-- **The steps that build messages from original entries only.**  No entry that is read for a
message is missing or a placeholder, and no installed snapshot names a log entry. -/
def ShipsOriginals (s : Cluster) : Label → Prop
  | .thread i a => (s.nodes i).ReadsOriginals a
  | .handle k => ∀ c, s.calls k = some c → (s.nodes c.dst).SnapshotSparesEntries c.request
  | _ => True

/-- A leader appends entry `e` for a request. -/
def Appends (e : LogEntry) (s : Cluster) (l : Label) : Prop :=
  ∃ i cb req, l = .thread i (.appendRequest cb) ∧ (s.nodes i).state = .leader ∧
    (s.nodes i).requests cb = some (.lookedUp req) ∧
    (s.nodes i).pendingCallbacks req.requestId = none ∧ e = (s.nodes i).newEntry req

/-- Every log, every message that is being built and every message that has been sent. -/
structure Originals (s : Cluster) (orig : LogEntry → Prop) : Prop where
  nodes : ∀ i, (s.nodes i).AllOriginal orig
  calls : ∀ k c args, s.calls k = some c → c.request = .appendEntries args →
    ∀ e ∈ args.entries, orig e

namespace Originals

variable {members : List ℤ} {s t : Cluster} {l : Label} {orig orig' : LogEntry → Prop} {i : ℤ}
  {n : RaftNode}

lemma mono (h : Originals s orig) (hmono : ∀ e, orig e → orig' e) : Originals s orig' where
  nodes i := (h.nodes i).mono hmono
  calls k c args hc hreq e he := hmono e (h.calls k c args hc hreq e he)

lemma of_node (h : Originals s orig) (hnodes : t.nodes = Function.update s.nodes i n)
    (hn : n.AllOriginal orig)
    (hcalls : ∀ k c args, t.calls k = some c → c.request = .appendEntries args →
      ∀ e ∈ args.entries, orig e) : Originals t orig :=
  ⟨Cluster.forall_nodes (P := fun _ n => n.AllOriginal orig) hnodes hn fun j _ => h.nodes j,
    hcalls⟩

/-- Replacing a call by one with the same request, or by none. -/
lemma update_call (h : Originals s orig) {k : ℕ} {new : Option Call}
    (hnew : ∀ c ∈ new, ∃ c' ∈ s.calls k, c'.src = c.src ∧ c'.request = c.request) (k' : ℕ)
    (c : Call) (args : AppendEntriesArgs) (hc : Function.update s.calls k new k' = some c)
    (hreq : c.request = .appendEntries args) : ∀ e ∈ args.entries, orig e :=
  Cluster.forall_calls_update
    (Q := fun _ req => ∀ args, req = .appendEntries args → ∀ e ∈ args.entries, orig e)
    (fun k c hc args hreq => h.calls k c args hc hreq) hnew k' c hc args hreq

/-- **One step**: what it appends is original. -/
theorem step (h : Originals s orig) (hok : ShipsOriginals s l)
    (hstep : Cluster.step members s l = some t) (hnew : ∀ e, Appends e s l → orig e) :
    Originals t orig := by
  cases Cluster.move_of_step hstep with
  | @thread i a n out hi hmove =>
      refine h.of_node (i := i) (n := n) (by simp) ?_ fun k c args hc hreq => ?_
      · refine hmove.allOriginal (h.nodes i) hok ?_
        rintro cb req rfl hstate hreq hpending
        exact hnew _ ⟨i, cb, req, rfl, hstate, hreq, hpending, rfl⟩
      · rcases Cluster.emit_calls (s := s.setNode i n) hc with ⟨hc, -⟩ | ⟨dst, req, rfl, -, rfl⟩
        · exact h.calls k c args hc hreq
        · obtain rfl : req = .appendEntries args := hreq
          exact hmove.sentOriginal (h.nodes i) hok
  | @handle k src dst req alive hcall =>
      refine h.of_node (i := dst) rfl ?_ (h.update_call ?_)
      · refine RaftNode.allOriginal_handle (h.nodes dst) (hok _ hcall) ?_
        rintro args rfl
        exact h.calls k _ args hcall rfl
      · rintro c ⟨⟩
        exact ⟨_, hcall, rfl, rfl⟩
  | @reply k src dst req rep hcall =>
      obtain ⟨-, -, hstorage⟩ := RaftNode.receive_frame (s.nodes src) dst req rep
      have hworkers := (RaftNode.receive_threads (s.nodes src) dst req rep).2.2
      exact h.of_node (i := src) rfl ((h.nodes src).end_worker hworkers hstorage)
        (h.update_call (by simp))
  | @fail k src dst req rep hcall =>
      refine h.of_node (i := src) rfl ((h.nodes src).end_worker
        (RaftNode.abandon_workers _ dst req) (.inl ?_)) (h.update_call ?_)
      · cases req <;> rfl
      · rintro c ⟨⟩
        exact ⟨_, hcall, rfl, rfl⟩
  | @crash i hi =>
      refine h.of_node (i := i) rfl ⟨?_, fun p e he => by cases he⟩ fun k c args hc hreq => ?_
      · exact (h.nodes i).log.of_same fun _ => entry?_of_db rfl
      · exact Cluster.forall_calls_orphan
          (Q := fun _ req => ∀ args, req = .appendEntries args → ∀ e ∈ args.entries, orig e)
          (fun k c hc args hreq => h.calls k c args hc hreq) k c hc args hreq

end Originals

/-- The runs, with crashes, whose steps all build messages from original entries. -/
def OriginalRun (members : List ℤ) : Cluster → List Label → Cluster → Prop :=
  Transition.Run (Cluster.step members) ShipsOriginals

variable {members : List ℤ} {s₀ s : Cluster} {ls : List Label}

/-- Along a run, originals are what leaders have appended on the way. -/
lemma originals_of_run (hinit : Originals s₀ fun _ => False) (hrun : OriginalRun members s₀ ls s) :
    Originals s fun e => Transition.Took (Cluster.step members) ShipsOriginals s₀ ls s
      (Appends e) := by
  induction hrun with
  | nil => exact hinit.mono fun _ hfalse => hfalse.elim
  | @snoc ls t u l hrun hok hstep ih =>
      refine Originals.step (ih.mono fun e htook => ?_) hok hstep fun e happends => ?_
      · exact htook.snoc hok hstep
      · exact Transition.Run.took hrun hok hstep happends

lemma originals_init (members : List ℤ) :
    Originals (.init members fun _ => genesis) fun _ => False := by
  refine ⟨fun i => ⟨fun j e he => ?_, fun p e he => by cases he⟩, by simp [Cluster.init]⟩
  have hnone : genesis.entry? j = none := by
    rw [RocksDBStore.entry?, get_genesis_of_head (by simp)]
    rfl
  have he' : genesis.entry? j = some e := (entry?_of_db rfl).trans he
  rw [hnone] at he'
  cases he'

/-- **Replicated commands are the original ones.**  In a run whose steps build messages from
original entries only, with compaction, snapshots and crashes: for every entry of every
AppendEntries message there is a step on the way in which a leader of the entry's term appended it
at its index, with its command, for a client. -/
theorem replicated_commands_original (members : List ℤ)
    (hrun : OriginalRun members (.init members fun _ => genesis) ls s) {k : ℕ} {c : Call}
    {args : AppendEntriesArgs} (hcall : s.calls k = some c)
    (hreq : c.request = .appendEntries args) {e : LogEntry} (he : e ∈ args.entries) :
    Transition.Took (Cluster.step members) ShipsOriginals (.init members fun _ => genesis) ls s
      (Appends e) :=
  (originals_of_run (originals_init members) hrun).calls k c args hcall hreq e he

/-- What a thread step reads, decided for one node. -/
instance (n : RaftNode) : DecidablePred n.ReadsOriginals
  | .replicateRead peer =>
      decidable_of_iff (∀ i ∈ (n.workers peer).nextRead?, n.HasOriginal i)
        ⟨fun h => ⟨fun _ ha => (by cases ha; exact h), fun _ ha => (by cases ha)⟩,
          fun h => h.1 peer rfl⟩
  | .replicateAtomic peer =>
      decidable_of_iff
        (∀ i ∈ (loopRange (n.nextIndex peer) n.lastLogIndex).take RaftNode.batchLimit,
          n.HasOriginal i)
        ⟨fun h => ⟨fun _ ha => (by cases ha), fun _ ha => (by cases ha; exact h)⟩,
          fun h => h.2 peer rfl⟩
  | .electionTimeout | .startElection | .evalHardState | .saveHardState | .sendRequestVote
  | .replicateBegin _ | .replicateCheck _ | .replicateLock _ | .replicatePrevTerm _
  | .replicateSend _ | .dumpSnapshot _ | .stampSnapshot _ | .sendSnapshot _
  | .clientRequest _ _ | .lookupRequest _ | .appendRequest _ | .fetchBatch | .readBalances
  | .applyEntry | .notifyClient | .compactIfDue | .skipCompaction =>
      isTrue ⟨fun _ ha => (by cases ha), fun _ ha => (by cases ha)⟩

instance (n : RaftNode) : DecidablePred n.SnapshotSparesEntries
  | .installSnapshot args => inferInstanceAs (Decidable (n.installs args → _))
  | .requestVote _ | .appendEntries _ => isTrue trivial

instance (s : Cluster) : DecidablePred (ShipsOriginals s)
  | .thread i a => inferInstanceAs (Decidable ((s.nodes i).ReadsOriginals a))
  | .handle k =>
      inferInstanceAs (Decidable (∀ c ∈ s.calls k, (s.nodes c.dst).SnapshotSparesEntries c.request))
  | .reply _ | .fail _ | .crash _ => isTrue trivial

/-- Node `1` sends its first entry to node `2`. -/
theorem replicated_commands_original_first :
    ∃ s c args e, OriginalRun pair.ids (.init pair.ids fun _ => genesis)
        (firstRequest ++ replicateOne 1 2) s ∧ s.calls 1 = some c ∧
      c.request = .appendEntries args ∧ e ∈ args.entries ∧
      Transition.Took (Cluster.step pair.ids) ShipsOriginals (.init pair.ids fun _ => genesis)
        (firstRequest ++ replicateOne 1 2) s (Appends e) := by
  have hsent : ∃ s, OriginalRun pair.ids (.init pair.ids fun _ => genesis)
      (firstRequest ++ replicateOne 1 2) s ∧ ∃ c ∈ s.calls 1,
        ∃ args ∈ c.request.appendEntries?, ∃ e ∈ args.entries.head?, e.index = 1 :=
    run_of_after (by decide +kernel)
  obtain ⟨s, hrun, c, hcall, args, hargs, e, he, -⟩ := hsent
  have hreq := Request.appendEntries?_eq_some.mp hargs
  have hmem : e ∈ args.entries := List.mem_of_mem_head? he
  exact ⟨s, c, args, e, hrun, hcall, hreq, hmem,
    replicated_commands_original _ hrun hcall hreq hmem⟩

/-! ## A placeholder that is sent -/

/-- A client's thread keeps the request it came with. -/
lemma RaftNode.Move.requests {n n' : RaftNode} {call : ℕ} {a : ThreadStep} {out : Output}
    (hmove : n.Move call a n' out) {cb : ℕ} {th : RequestThread}
    (hth : n'.requests cb = some th) :
    (∃ th', n.requests cb = some th' ∧ th'.request = th.request) ∨
      a = .clientRequest cb th.request := by
  have hupdate : ∀ {cb' : ℕ} {new : Option RequestThread},
      Function.update n.requests cb' new cb = some th → cb = cb' ∧ new = some th ∨
        n.requests cb = some th := by
    intro cb' new h
    by_cases hcb : cb = cb'
    · subst hcb
      rw [Function.update_self] at h
      exact .inl ⟨rfl, h⟩
    · rw [Function.update_of_ne hcb] at h
      exact .inr h
  have hended : ∀ {cb' : ℕ}, Function.update n.requests cb' none cb = some th →
      ∃ th', n.requests cb = some th' ∧ th'.request = th.request := by
    intro cb' h
    rcases hupdate h with ⟨-, hnone⟩ | hold
    · cases hnone
    · exact ⟨th, hold, rfl⟩
  cases hmove with
  | clientRequest =>
      rcases hupdate hth with ⟨rfl, hnew⟩ | hold
      · cases hnew
        exact .inr rfl
      · exact .inl ⟨th, hold, rfl⟩
  | lookupFound => exact .inl (hended hth)
  | lookupRequest hreq =>
      rcases hupdate hth with ⟨rfl, hnew⟩ | hold
      · cases hnew
        exact .inl ⟨_, hreq, rfl⟩
      · exact .inl ⟨th, hold, rfl⟩
  | appendRefused => exact .inl (hended hth)
  | appendInFlight => exact .inl (hended hth)
  | appendRequest => exact .inl (hended hth)
  | _ => exact .inl ⟨th, hth, rfl⟩

/-- All requests inside `processClientRequest` satisfy `P`. -/
def Cluster.AllRequests (s : Cluster) (P : ClientRequest → Prop) : Prop :=
  ∀ i cb th, (s.nodes i).requests cb = some th → P th.request

namespace Cluster.AllRequests

variable {s t : Cluster} {l : Label} {P : ClientRequest → Prop} {i : ℤ} {n : RaftNode}

lemma of_node (h : s.AllRequests P) (hnodes : t.nodes = Function.update s.nodes i n)
    (hn : ∀ cb th, n.requests cb = some th → P th.request) : t.AllRequests P :=
  forall_nodes (P := fun _ n => ∀ cb th, n.requests cb = some th → P th.request) hnodes hn
    fun j _ => h j

/-- One step: only a client brings a new request. -/
lemma step (h : s.AllRequests P) (hstep : Cluster.step members s l = some t)
    (hnew : ∀ i cb req, l = .thread i (.clientRequest cb req) → P req) : t.AllRequests P := by
  cases Cluster.move_of_step hstep with
  | @thread i a n out hi hmove =>
      refine h.of_node (i := i) (n := n) (by simp) fun cb th hth => ?_
      rcases hmove.requests hth with ⟨th', hth', hsame⟩ | rfl
      · exact hsame ▸ h i cb th' hth'
      · exact hnew i cb _ rfl
  | @handle k src dst req alive hcall =>
      obtain ⟨-, -, -, -, -, -, -, -, hrequests⟩ :=
        RaftNode.threads_inj (RaftNode.handle_threads (s.nodes dst) req)
      refine h.of_node (i := dst) rfl fun cb th hth => ?_
      exact h dst cb th (hrequests ▸ hth)
  | @reply k src dst req rep hcall =>
      obtain ⟨-, hrequests, -⟩ := RaftNode.receive_frame (s.nodes src) dst req rep
      refine h.of_node (i := src) rfl fun cb th hth => ?_
      exact h src cb th (hrequests ▸ hth)
  | @fail k src dst req rep hcall =>
      refine h.of_node (i := src) rfl fun cb th hth => h src cb th ?_
      cases req <;> exact hth
  | @crash i hi => exact h.of_node (i := i) rfl fun cb th hth => by cases hth

end Cluster.AllRequests

/-- A request inside `processClientRequest` has come from a client. -/
lemma allRequests_of_run {ok : Cluster → Label → Prop} {stores : ℤ → RocksDBStore}
    (hrun : Transition.Run (Cluster.step members) ok (.init members stores) ls s) :
    s.AllRequests fun req => ∃ i cb, .thread i (.clientRequest cb req) ∈ ls := by
  induction hrun with
  | nil => exact fun i cb th hth => by cases hth
  | @snoc ls t u l hrun hok hstep ih =>
      refine Cluster.AllRequests.step (s := t) ?_ hstep ?_
      · intro i cb th hth
        obtain ⟨j, cb', hmem⟩ := ih i cb th hth
        exact ⟨j, cb', List.mem_append_left _ hmem⟩
      · rintro i cb req rfl
        exact ⟨i, cb, by simp⟩

/-- The request a client comes with. -/
def Label.clientRequest? : Label → Option ClientRequest
  | .thread _ (.clientRequest _ req) => some req
  | _ => none

/-- An entry whose request no client has come with is appended by no leader. -/
lemma not_appended_of_run {ok : Cluster → Label → Prop} {stores : ℤ → RocksDBStore}
    {e : LogEntry} (hnone : ∀ l ∈ ls, l.clientRequest? ≠ some e.command) :
    ¬ Transition.Took (Cluster.step members) ok (.init members stores) ls s (Appends e) := by
  rintro ⟨ls₁, u, l, v, ls₂, rfl, hrun, -, -, -, i, cb, req, -, -, hreq, -, rfl⟩
  obtain ⟨j, cb', hmem⟩ := allRequests_of_run hrun i cb _ hreq
  exact hnone _ (List.mem_append_left _ hmem) rfl

/-- Node `2` leads the fourth term and has installed the snapshot of a deposed leader, which
includes the first entry.  Node `4` has no entries and refuses, so `nextIndex_` comes down to `1`,
where `replicateToPeer` does not check whether the previous entry is there. -/
def shippedPlaceholder : List Label :=
  snapshotOfDeposed ++ [.handle 15, .thread 2 (.replicateAtomic 4), .handle 16, .reply 16,
    .thread 2 (.replicateAtomic 4)]

/-- **The placeholder of a snapshot is sent in place of the command.**  No leader has appended
it. -/
theorem placeholder_shipped :
    ∃ s, Transition.Run (Cluster.step [1, 2, 3, 4]) (fun _ _ => True)
        (.init [1, 2, 3, 4] fun _ => genesis) shippedPlaceholder s ∧
      (∃ c ∈ s.calls 17, ∃ args ∈ c.request.appendEntries?, c.src = 2 ∧ s.Leads 2 args.term ∧
        RaftNode.anchorEntry 1 1 ∈ args.entries) ∧
      ¬ Transition.Took (Cluster.step [1, 2, 3, 4]) (fun _ _ => True)
        (.init [1, 2, 3, 4] fun _ => genesis) shippedPlaceholder s
        (Appends (RaftNode.anchorEntry 1 1)) := by
  have hsent : ∃ s, Transition.Run (Cluster.step [1, 2, 3, 4]) (fun _ _ => True)
      (.init [1, 2, 3, 4] fun _ => genesis) shippedPlaceholder s ∧
        ∃ c ∈ s.calls 17, ∃ args ∈ c.request.appendEntries?, c.src = 2 ∧ s.Leads 2 args.term ∧
          RaftNode.anchorEntry 1 1 ∈ args.entries :=
    run_of_after (by decide +kernel)
  obtain ⟨s, hrun, hcall⟩ := hsent
  exact ⟨s, hrun, hcall, not_appended_of_run (by decide +kernel)⟩

end RaftConsensus
