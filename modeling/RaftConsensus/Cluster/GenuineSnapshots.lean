import RaftConsensus.Cluster.SplitInstall
import RaftConsensus.Cluster.Records
import RaftConsensus.Cluster.LeaderAppendOnly

/-!
# InstallSnapshot messages

A message is made in three steps, and something can go wrong before each of them: the dump reads
the last applied index and the term of the log entry there, which an install that is under way, a
truncation or a compaction may have taken away; the locked block takes the term of the node, which
may have been deposed since `replicateToPeer` has looked; and it may be deposed before the message
is sent.

`genuine_snapshots` is about the runs in which none of this happens: every message is sent by the
leader of its term, and it names the term of an executed entry.
-/

namespace RaftConsensus

open RocksDBStore

/-- The message for a peer has been stamped. -/
def Worker.isStamped : Worker → Bool
  | .stamped _ => true
  | _ => false

namespace RaftNode

variable {n n' : RaftNode}

/-- The term of the log entry at the stored last applied index, `0` if there is none. -/
def appliedTerm (n : RaftNode) : ℤ :=
  (n.storage.getLogEntry n.storage.getLastAppliedIndex).term

/-- The log has at the stored last applied index what it had before. -/
def LeavesApplied (n n' : RaftNode) : Prop :=
  (n'.storage.getLogEntry n.storage.getLastAppliedIndex).term = n.appliedTerm

instance (n n' : RaftNode) : Decidable (n.LeavesApplied n') :=
  inferInstanceAs (Decidable (_ = _))

/-- As long as a stamped message has not been sent, role and term stay. -/
def KeepsStamped (n n' : RaftNode) : Prop :=
  ∀ p ∈ n.config.peers, (n.workers p).isStamped = true → (n'.workers p).isStamped = true →
    n'.state = n.state ∧ n'.currentTerm = n.currentTerm

instance (n n' : RaftNode) : Decidable (n.KeepsStamped n') :=
  inferInstanceAs (Decidable (∀ p ∈ n.config.peers, _))

/-- The entry that is being applied is in the log, at its index and with its term; only an entry
of index `0` has term `0`. -/
def AppliesLogged (n : RaftNode) : Prop :=
  ∀ entry ∈ n.executor.computed?, (n.storage.getLogEntry entry.index).term = entry.term ∧
    (entry.term = 0 → entry.index = 0)

instance (n : RaftNode) : Decidable n.AppliesLogged :=
  inferInstanceAs (Decidable (∀ entry ∈ n.executor.computed?, _))

/-- Only `applyEntry` moves the stored last applied index. -/
lemma Move.getLastAppliedIndex {call : ℕ} {a : ThreadStep} {out : Output}
    (hmove : n.Move call a n' out) (ha : a ≠ .applyEntry) :
    n'.storage.getLastAppliedIndex = n.storage.getLastAppliedIndex := by
  cases hmove with
  | saveHardState => exact getLastAppliedIndex_saveHardState
  | appendRequest => exact getLastAppliedIndex_appendLog
  | applyEntry => exact absurd rfl ha
  | compactIfDue =>
      dsimp only
      split
      · exact getLastAppliedIndex_compactLog
      · rfl
  | _ => rfl

lemma Move.config {call : ℕ} {a : ThreadStep} {out : Output} (hmove : n.Move call a n' out) :
    n'.config = n.config := by
  cases hmove <;> rfl

/-- What is known of the thread of node `i` for peer `p`. -/
def WorkerGenuine (members : List ℤ) (gen : ℤ → ℤ → Prop) (i : ℤ) (n : RaftNode) (p : ℤ) :
    Worker → Prop
  | .idle => True
  | .dumped lastIndex lastTerm _ => p ∈ members ∧ gen lastIndex lastTerm
  | .stamped args => p ∈ members ∧ gen args.lastIncludedIndex args.lastIncludedTerm ∧
      args.leaderId = i ∧ n.state = .leader ∧ args.term = n.currentTerm
  | _ => p ∈ members

/-- What is known of node `i`, when `gen` holds of the executed indices and terms. -/
structure Genuine (members : List ℤ) (gen : ℤ → ℤ → Prop) (i : ℤ) (n : RaftNode) : Prop where
  config : n.config = ⟨i, members⟩
  workers : ∀ p, WorkerGenuine members gen i n p (n.workers p)

namespace Genuine

variable {members : List ℤ} {gen gen' : ℤ → ℤ → Prop} {i : ℤ}

lemma mono (h : n.Genuine members gen i) (hmono : ∀ j t, gen j t → gen' j t) :
    n.Genuine members gen' i := by
  refine ⟨h.config, fun p => ?_⟩
  have hp := h.workers p
  unfold WorkerGenuine at hp ⊢
  split at hp
  · trivial
  · exact ⟨hp.1, hmono _ _ hp.2⟩
  · exact ⟨hp.1, hmono _ _ hp.2.1, hp.2.2⟩
  · exact hp

/-- The thread works for a member. -/
lemma mem (h : n.Genuine members gen i) {p : ℤ} (hp : n.workers p ≠ .idle) : p ∈ members := by
  have hok := h.workers p
  unfold WorkerGenuine at hok
  split at hok
  · rename_i hidle
    exact absurd hidle hp
  · exact hok.1
  · exact hok.1
  · exact hok

/-- A step that moves no thread forward. -/
lemma frame (h : n.Genuine members gen i) (hconfig : n'.config = n.config)
    (hworkers : ∀ p, n'.workers p = n.workers p ∨ n'.workers p = .idle)
    (hkeeps : n.KeepsStamped n') : n'.Genuine members gen i := by
  refine ⟨hconfig.trans h.config, fun p => ?_⟩
  rcases hworkers p with hp | hp
  · have hok := h.workers p
    have hmem := h.mem (p := p)
    cases hw : n.workers p with
    | stamped args =>
        rw [hw] at hok
        obtain ⟨hpm, hgen, hid, hstate, hterm⟩ := hok
        have hpeers : p ∈ n.config.peers := by rwa [h.config]
        obtain ⟨hs, ht⟩ := hkeeps p hpeers (by rw [hw]; rfl) (by rw [hp, hw]; rfl)
        rw [hp, hw]
        exact ⟨hpm, hgen, hid, hs.trans hstate, hterm.trans ht.symm⟩
    | _ =>
        rw [hp, hw]
        rwa [hw] at hok
  · rw [hp]
    trivial

/-- A step that moves the thread for one peer only. -/
lemma setWorker (h : n.Genuine members gen i) {p : ℤ} {w : Worker}
    (hw : WorkerGenuine members gen i n p w) : (n.setWorker p w).Genuine members gen i := by
  refine ⟨h.config, fun q => ?_⟩
  show WorkerGenuine members gen i n q (Function.update n.workers p w q)
  by_cases hq : q = p
  · subst hq
    rwa [Function.update_self]
  · rw [Function.update_of_ne hq]
    exact h.workers q

end Genuine

/-- **A thread step keeps what is known of the threads**: the dump is made when the log has what
was applied, and the message is stamped by a leader. -/
lemma Move.genuine {members : List ℤ} {gen : ℤ → ℤ → Prop} {i : ℤ} {call : ℕ} {a : ThreadStep}
    {out : Output} (hmove : n.Move call a n' out) (h : n.Genuine members gen i)
    (hkeeps : n.KeepsStamped n')
    (hdump : ∀ p, a = .dumpSnapshot p → gen n.storage.getLastAppliedIndex n.appliedTerm)
    (hstamp : ∀ p, a = .stampSnapshot p → n.state = .leader) : n'.Genuine members gen i := by
  have hmem : ∀ {p : ℤ} {w : Worker}, n.workers p = w → w ≠ .idle → p ∈ members :=
    fun hw hne => h.mem (hw ▸ hne)
  have hstubs : ∀ {p : ℤ}, n.mayReplicate p → p ∈ members := by
    intro p hmay
    have hp := hmay.1
    rw [h.config, ClusterConfig.peerStubs, List.mem_dedup, List.mem_filter] at hp
    exact hp.1
  cases hmove with
  | replicateBegin hmay => exact h.setWorker (hstubs hmay)
  | replicateCheckMissing hw => exact h.setWorker (hmem hw (by simp))
  | replicateCheck hw => exact h.setWorker (hmem hw (by simp))
  | replicateLockDeposed => exact h.setWorker trivial
  | replicateLock hw => exact h.setWorker (hmem hw (by simp))
  | replicatePrevTerm hw => exact h.setWorker (hmem hw (by simp))
  | replicateRead hw => exact h.setWorker (hmem hw (by simp))
  | replicateSend hw => exact h.setWorker (hmem hw (by simp))
  | replicateAtomicMissing hmay => exact h.setWorker (hstubs hmay)
  | replicateAtomic hmay => exact h.setWorker (hstubs hmay)
  | @dumpSnapshot p hw => exact h.setWorker ⟨hmem hw (by simp), hdump p rfl⟩
  | @stampSnapshot p s u data hw =>
      have hok := h.workers p
      rw [hw] at hok
      exact h.setWorker ⟨hok.1, hok.2, by rw [h.config], hstamp p rfl, rfl⟩
  | sendSnapshot hw => exact h.setWorker (hmem hw (by simp))
  | compactIfDue => exact h.frame rfl (fun _ => .inl rfl) hkeeps
  | _ => exact h.frame rfl (fun _ => .inl rfl) hkeeps

/-- A message that is sent has been stamped. -/
lemma Move.stamped {call : ℕ} {a : ThreadStep} {dst : ℤ} {args : InstallSnapshotArgs}
    (hmove : n.Move call a n' (.call dst (.installSnapshot args))) :
    a = .sendSnapshot dst ∧ n.workers dst = .stamped args := by
  generalize hout : Output.call dst (.installSnapshot args) = out at hmove
  cases hmove with
  | sendSnapshot hw =>
      cases hout
      exact ⟨rfl, hw⟩
  | @notifyClient entry rest msg hex =>
      cases hp : n.pendingCallbacks entry.command.requestId <;> simp [hp] at hout
  | _ => cases hout

/-- A handler moves no thread. -/
lemma genuine_handle {members : List ℤ} {gen : ℤ → ℤ → Prop} {i : ℤ}
    (h : n.Genuine members gen i) {req : Request} (hkeeps : n.KeepsStamped (n.handle req).1) :
    (n.handle req).1.Genuine members gen i := by
  obtain ⟨hconfig, -, -, -, -, -, hworkers, -, -⟩ := threads_inj (handle_threads n req)
  exact h.frame hconfig (fun p => .inl (by rw [hworkers])) hkeeps

/-- A handler that installs no snapshot leaves the stored last applied index alone. -/
lemma getLastAppliedIndex_handle {req : Request}
    (hreq : ∀ args, req = .installSnapshot args → ¬ n.installs args) :
    (n.handle req).1.storage.getLastAppliedIndex = n.storage.getLastAppliedIndex := by
  cases req with
  | requestVote args => exact (appliedStill_handleRequestVote n args).2.2
  | appendEntries args => exact (appliedStill_handleAppendEntries n args).2.2
  | installSnapshot args => exact (appliedStill_handleInstallSnapshot n (hreq args rfl)).2.2

end RaftNode

/-! ## The condition -/

namespace SplitCluster

/-- What a thread step has to find, beyond leaving other things alone. -/
def CarefulThread (s : SplitCluster) (i : ℤ) : ThreadStep → Prop
  | .dumpSnapshot _ => s.installing i = none
  | .stampSnapshot _ => (s.cluster.nodes i).state = .leader
  | .applyEntry => s.installing i = none ∧ (s.cluster.nodes i).AppliesLogged
  | _ => True

/-- **The steps that disturb no snapshot.**  The dump and the executor's writes do not fall between
the writes of an install, nor does a crash; an entry is in the log when it is applied, and nothing
removes or replaces it as long as it is the last one applied; a message is stamped by a leader,
which is not deposed until the message has been sent. -/
def Careful (s : SplitCluster) : SplitLabel → Prop
  | .whole (.thread i a) => s.CarefulThread i a ∧
      ∀ r ∈ (s.cluster.nodes i).step s.cluster.nextCall a,
        (s.cluster.nodes i).KeepsStamped r.1 ∧ (s.cluster.nodes i).LeavesApplied r.1
  | .whole (.handle k) => ∀ c ∈ s.cluster.calls k,
      (s.cluster.nodes c.dst).KeepsStamped ((s.cluster.nodes c.dst).handle c.request).1 ∧
        (s.cluster.nodes c.dst).LeavesApplied ((s.cluster.nodes c.dst).handle c.request).1
  | .whole (.reply k) => ∀ c ∈ s.cluster.calls k, ∀ rep ∈ c.reply,
      (s.cluster.nodes c.src).KeepsStamped ((s.cluster.nodes c.src).receive c.dst c.request rep)
  | .whole (.crash i) => s.installing i = none
  | .applySnapshot k => ∀ c ∈ s.cluster.calls k, ∀ args ∈ c.request.installSnapshot?,
      (s.cluster.nodes c.dst).KeepsStamped ((s.cluster.nodes c.dst).beginInstall args)
  | .whole (.fail _) | .truncateLog _ | .appendAnchor _ => True

end SplitCluster

/-! ## The invariant -/

/-- The message of an install. -/
def Install.args : Install → InstallSnapshotArgs
  | .applied _ args | .cut _ args => args

lemma RaftNode.appliedTerm_eq {n n' : RaftNode}
    (hstored : n'.storage.getLastAppliedIndex = n.storage.getLastAppliedIndex)
    (hleaves : n.LeavesApplied n') : n'.appliedTerm = n.appliedTerm := by
  unfold RaftNode.appliedTerm
  rw [hstored]
  exact hleaves

/-- The dump of a node that is not installing is right, and so are dumps, messages and installs;
`gen` holds of the executed indices and terms, `sent` of the messages that leaders have sent. -/
structure GenuineInv (members : List ℤ) (gen : ℤ → ℤ → Prop) (sent : InstallSnapshotArgs → Prop)
    (s : SplitCluster) : Prop where
  nodes : ∀ i, (s.cluster.nodes i).Genuine members gen i
  applied : ∀ i, s.installing i = none →
    gen (s.cluster.nodes i).storage.getLastAppliedIndex (s.cluster.nodes i).appliedTerm
  installing : ∀ i x, s.installing i = some x →
    (s.cluster.nodes i).storage.getLastAppliedIndex = x.args.lastIncludedIndex ∧
      gen x.args.lastIncludedIndex x.args.lastIncludedTerm
  calls : ∀ k c args, s.cluster.calls k = some c → c.request = .installSnapshot args →
    gen args.lastIncludedIndex args.lastIncludedTerm ∧ sent args

namespace GenuineInv

variable {members : List ℤ} {gen gen' : ℤ → ℤ → Prop} {sent sent' : InstallSnapshotArgs → Prop}
  {s t : SplitCluster} {i : ℤ} {n : RaftNode}

lemma mono (h : GenuineInv members gen sent s) (hgen : ∀ j u, gen j u → gen' j u)
    (hsent : ∀ args, sent args → sent' args) : GenuineInv members gen' sent' s where
  nodes i := (h.nodes i).mono hgen
  applied i hi := hgen _ _ (h.applied i hi)
  installing i x hx := ⟨(h.installing i x hx).1, hgen _ _ (h.installing i x hx).2⟩
  calls k c args hc hreq :=
    ⟨hgen _ _ (h.calls k c args hc hreq).1, hsent args (h.calls k c args hc hreq).2⟩

lemma of_node (h : GenuineInv members gen sent s)
    (hnodes : t.cluster.nodes = Function.update s.cluster.nodes i n)
    (hothers : ∀ j, j ≠ i → t.installing j = s.installing j) (hn : n.Genuine members gen i)
    (happlied : t.installing i = none → gen n.storage.getLastAppliedIndex n.appliedTerm)
    (hinstalling : ∀ x, t.installing i = some x →
      n.storage.getLastAppliedIndex = x.args.lastIncludedIndex ∧
        gen x.args.lastIncludedIndex x.args.lastIncludedTerm)
    (hcalls : ∀ k c args, t.cluster.calls k = some c → c.request = .installSnapshot args →
      gen args.lastIncludedIndex args.lastIncludedTerm ∧ sent args) :
    GenuineInv members gen sent t := by
  have hall := Cluster.forall_nodes hnodes
    (P := fun j n => n.Genuine members gen j ∧
      (t.installing j = none → gen n.storage.getLastAppliedIndex n.appliedTerm) ∧
        ∀ x, t.installing j = some x →
          n.storage.getLastAppliedIndex = x.args.lastIncludedIndex ∧
            gen x.args.lastIncludedIndex x.args.lastIncludedTerm)
    ⟨hn, happlied, hinstalling⟩ fun j hj => by
      rw [hothers j hj]
      exact ⟨h.nodes j, h.applied j, h.installing j⟩
  exact ⟨fun j => (hall j).1, fun j => (hall j).2.1, fun j => (hall j).2.2, hcalls⟩

/-- A step that leaves the stored index, and the log there, alone. -/
lemma of_still (h : GenuineInv members gen sent s)
    (hnodes : t.cluster.nodes = Function.update s.cluster.nodes i n)
    (hinstalling : t.installing = s.installing) (hn : n.Genuine members gen i)
    (hstored : n.storage.getLastAppliedIndex = (s.cluster.nodes i).storage.getLastAppliedIndex)
    (hleaves : (s.cluster.nodes i).LeavesApplied n)
    (hcalls : ∀ k c args, t.cluster.calls k = some c → c.request = .installSnapshot args →
      gen args.lastIncludedIndex args.lastIncludedTerm ∧ sent args) :
    GenuineInv members gen sent t := by
  refine h.of_node hnodes (fun j _ => by rw [hinstalling]) hn (fun hi => ?_) (fun x hx => ?_) hcalls
  · rw [RaftNode.appliedTerm_eq hstored hleaves, hstored]
    exact h.applied i (hinstalling ▸ hi)
  · rw [hstored]
    exact h.installing i x (hinstalling ▸ hx)

/-- Replacing a call by one with the same request, or by none. -/
lemma update_call (h : GenuineInv members gen sent s) {k : ℕ} {new : Option Call}
    (hnew : ∀ c ∈ new, ∃ c' ∈ s.cluster.calls k, c'.src = c.src ∧ c'.request = c.request)
    (k' : ℕ) (c : Call) (args : InstallSnapshotArgs)
    (hc : Function.update s.cluster.calls k new k' = some c)
    (hreq : c.request = .installSnapshot args) :
    gen args.lastIncludedIndex args.lastIncludedTerm ∧ sent args :=
  Cluster.forall_calls_update
    (Q := fun _ req => ∀ args, req = .installSnapshot args →
      gen args.lastIncludedIndex args.lastIncludedTerm ∧ sent args)
    (fun k c hc args hreq => h.calls k c args hc hreq) hnew k' c hc args hreq

/-- A thread step of a node. -/
lemma thread (h : GenuineInv members gen sent s) {a : ThreadStep} {out : Output}
    (hmove : (s.cluster.nodes i).Move s.cluster.nextCall a n out)
    (hthread : s.CarefulThread i a) (hkeeps : (s.cluster.nodes i).KeepsStamped n)
    (hleaves : (s.cluster.nodes i).LeavesApplied n)
    (hnodes : t.cluster.nodes = Function.update s.cluster.nodes i n)
    (hinstalling : t.installing = s.installing)
    (hexec : ∀ entry, a = .applyEntry → (s.cluster.nodes i).executor.computed? = some entry →
      gen entry.index entry.term)
    (hcalls : ∀ k c args, t.cluster.calls k = some c → c.request = .installSnapshot args →
      gen args.lastIncludedIndex args.lastIncludedTerm ∧ sent args) :
    GenuineInv members gen sent t := by
  have hn : n.Genuine members gen i := by
    refine hmove.genuine (h.nodes i) hkeeps ?_ ?_
    · rintro p rfl
      exact h.applied i hthread
    · rintro p rfl
      exact hthread
  by_cases ha : a = .applyEntry
  · subst ha
    obtain ⟨hfree, hlogged⟩ := hthread
    cases hmove with
    | @applyEntry entry rest x y msg hex =>
        have hcomputed : (s.cluster.nodes i).executor.computed? = some entry := by rw [hex]; rfl
        refine h.of_node hnodes (fun j _ => by rw [hinstalling]) hn (fun _ => ?_) (fun x hx => ?_)
          hcalls
        · have hterm := (hlogged entry hcomputed).1
          have happlied := hexec entry rfl hcomputed
          rw [← hterm] at happlied
          simpa [RaftNode.appliedTerm] using happlied
        · rw [hinstalling, hfree] at hx
          cases hx
  · exact h.of_still hnodes hinstalling hn (hmove.getLastAppliedIndex ha) hleaves hcalls

/-- **A step of the cluster that is no install.** -/
lemma whole (h : GenuineInv members gen sent s) {l : Label} {u : Cluster}
    (hok : s.Careful (.whole l)) (hfree : ¬ s.Blocked l)
    (hstep : s.cluster.step members l = some u)
    (hexec : ∀ i entry, l = .thread i .applyEntry →
      (s.cluster.nodes i).executor.computed? = some entry → gen entry.index entry.term)
    (hsent : ∀ i p args, l = .thread i (.sendSnapshot p) →
      (s.cluster.nodes i).workers p = .stamped args → sent args) :
    GenuineInv members gen sent ⟨u, s.installingAfter l⟩ := by
  by_cases hl : ∃ i a, l = .thread i a
  · obtain ⟨i, a, rfl⟩ := hl
    obtain ⟨n, out, hi, hn, rfl⟩ := Cluster.step_thread hstep
    obtain ⟨hthread, hundisturbed⟩ := hok
    obtain ⟨hkeeps, hleaves⟩ := hundisturbed _ hn
    have hmove := RaftNode.move_of_step hn
    refine h.thread hmove hthread hkeeps hleaves (by simp) rfl (fun entry ha hc => ?_)
      fun k c args hc hreq => ?_
    · exact hexec i entry (by rw [ha]) hc
    · rcases Cluster.emit_calls (s := s.cluster.setNode i n) hc with
        ⟨hc, -⟩ | ⟨dst, req, rfl, -, rfl⟩
      · exact h.calls k c args hc hreq
      · obtain rfl : req = .installSnapshot args := hreq
        obtain ⟨rfl, hw⟩ := hmove.stamped
        have hok := (h.nodes i).workers dst
        rw [hw] at hok
        exact ⟨hok.2.1, hsent i dst args rfl hw⟩
  cases Cluster.move_of_step hstep with
  | thread => exact absurd ⟨_, _, rfl⟩ hl
  | @handle k src dst req alive hcall =>
      obtain ⟨hkeeps, hleaves⟩ := hok _ hcall
      refine h.of_still (i := dst) rfl rfl (RaftNode.genuine_handle (h.nodes dst) hkeeps) ?_ hleaves
        (h.update_call ?_)
      · refine RaftNode.getLastAppliedIndex_handle fun args hargs hinst => hfree ?_
        exact ⟨_, hcall, .inr ⟨args, Request.installSnapshot?_eq_some.mpr hargs, hinst⟩⟩
      · rintro c ⟨⟩
        exact ⟨_, hcall, rfl, rfl⟩
  | @reply k src dst req rep hcall =>
      have hkeeps := hok _ hcall rep rfl
      obtain ⟨-, -, hstorage⟩ := RaftNode.receive_frame (s.cluster.nodes src) dst req rep
      obtain ⟨hconfig, -, hworkers⟩ := RaftNode.receive_threads (s.cluster.nodes src) dst req rep
      refine h.of_still (i := src) rfl rfl ((h.nodes src).frame hconfig hworkers hkeeps) ?_ ?_
        (h.update_call (by simp))
      · rcases hstorage with hs | ⟨T, v, hs⟩ <;> simp [hs]
      · unfold RaftNode.LeavesApplied RaftNode.appliedTerm
        rcases hstorage with hs | ⟨T, v, hs⟩ <;> simp [hs]
  | @fail k src dst req rep hcall =>
      refine h.of_still (i := src) rfl rfl ((h.nodes src).frame ?_
        (RaftNode.abandon_workers _ dst req) ?_) ?_ ?_ (h.update_call ?_)
      · cases req <;> rfl
      · cases req <;> exact fun _ _ _ _ => ⟨rfl, rfl⟩
      · cases req <;> rfl
      · cases req <;> rfl
      · rintro c ⟨⟩
        exact ⟨_, hcall, rfl, rfl⟩
  | @crash i hi =>
      refine h.of_node (i := i) rfl (fun j hj => Function.update_of_ne hj _ _)
        ⟨(h.nodes i).config, fun p => trivial⟩ (fun _ => ?_) (fun x hx => ?_)
        fun k c args hc hreq => ?_
      · exact h.applied i hok
      · cases (Function.update_self i _ s.installing).symm.trans hx
      · exact Cluster.forall_calls_orphan
          (Q := fun _ req => ∀ args, req = .installSnapshot args →
            gen args.lastIncludedIndex args.lastIncludedTerm ∧ sent args)
          (fun k c hc args hreq => h.calls k c args hc hreq) k c hc args hreq

/-- **One step keeps the invariant**, when `gen` holds of what it executes and `sent` of what it
sends. -/
theorem step {l : SplitLabel} (h : GenuineInv members gen sent s) (hok : s.Careful l)
    (hstep : SplitCluster.step members s l = some t)
    (hexec : ∀ i entry, l = .whole (.thread i .applyEntry) →
      (s.cluster.nodes i).executor.computed? = some entry → gen entry.index entry.term)
    (hsent : ∀ i p args, l = .whole (.thread i (.sendSnapshot p)) →
      (s.cluster.nodes i).workers p = .stamped args → sent args) :
    GenuineInv members gen sent t := by
  cases SplitCluster.move_of_step hstep with
  | @whole l u hfree hinner =>
      exact h.whole hok hfree hinner (fun i entry hl => hexec i entry (by rw [hl]))
        fun i p args hl => hsent i p args (by rw [hl])
  | @applySnapshot k src dst args alive hcall hfree hinst =>
      have hgen := (h.calls k _ args hcall rfl).1
      have hkeeps := hok _ hcall args rfl
      have hthreads : ((s.cluster.nodes dst).beginInstall args).threads =
          (s.cluster.nodes dst).threads := RaftNode.seeTerm_threads _ _
      obtain ⟨hconfig, -, -, -, -, -, hworkers, -, -⟩ := RaftNode.threads_inj hthreads
      refine h.of_node (i := dst) rfl (fun j hj => Function.update_of_ne hj _ _)
        ((h.nodes dst).frame hconfig (fun p => .inl (by rw [hworkers])) hkeeps)
        (fun hnone => ?_) (fun x hx => ?_) h.calls
      · cases (Function.update_self dst _ s.installing).symm.trans hnone
      · cases (Function.update_self dst _ s.installing).symm.trans hx
        exact ⟨getLastAppliedIndex_applySnapshot, hgen⟩
  | @truncateLog i k args hstage =>
      obtain ⟨hstored, hgen⟩ := h.installing i _ hstage
      refine h.of_node (i := i) rfl (fun j hj => Function.update_of_ne hj _ _)
        ((h.nodes i).frame rfl (fun p => .inl rfl) fun _ _ _ _ => ⟨rfl, rfl⟩)
        (fun hnone => ?_) (fun x hx => ?_) h.calls
      · cases (Function.update_self i _ s.installing).symm.trans hnone
      · cases (Function.update_self i _ s.installing).symm.trans hx
        exact ⟨getLastAppliedIndex_truncateLog.trans hstored, hgen⟩
  | @appendAnchor i k args hstage =>
      obtain ⟨hstored, hgen⟩ := h.installing i _ hstage
      refine h.of_node (i := i) rfl (fun j hj => Function.update_of_ne hj _ _)
        ((h.nodes i).frame rfl (fun p => .inl rfl) fun _ _ _ _ => ⟨rfl, rfl⟩)
        (fun _ => ?_) (fun x hx => ?_) (h.update_call ?_)
      · have hindex : ((s.cluster.nodes i).appendAnchor args).storage.getLastAppliedIndex =
            args.lastIncludedIndex := getLastAppliedIndex_appendLog.trans hstored
        have hterm : ((s.cluster.nodes i).appendAnchor args).appliedTerm =
            args.lastIncludedTerm := by
          rw [RaftNode.appliedTerm, hindex, RaftNode.appendAnchor, getLogEntry_appendLog]
          exact congrArg LogEntry.term (if_pos rfl)
        rw [hindex, hterm]
        exact hgen
      · cases (Function.update_self i _ s.installing).symm.trans hx
      · intro c hc
        obtain ⟨c', hc', rfl⟩ := Option.map_eq_some_iff.mp hc
        exact ⟨c', hc', rfl, rfl⟩

end GenuineInv

/-! ## Runs -/

/-- An entry with index `j` and term `t` has been executed; or nothing, before the first entry. -/
def Cluster.ExecutedAt (s : Cluster) (j t : ℤ) : Prop :=
  j = 0 ∧ t = 0 ∨
    t ≠ 0 ∧ ∃ v entry changed, .executed v entry changed ∈ s.history ∧
      entry.index = j ∧ entry.term = t

lemma Cluster.ExecutedAt.mono {s t : Cluster} {j u : ℤ} (h : s.ExecutedAt j u)
    (hsub : s.history ⊆ t.history) : t.ExecutedAt j u := by
  rcases h with h | ⟨hu, v, entry, changed, hev, hj, ht⟩
  · exact .inl h
  · exact .inr ⟨hu, v, entry, changed, hsub hev, hj, ht⟩

/-- The message is sent, by the leader of its term. -/
def SendsAsLeader (args : InstallSnapshotArgs) (s : SplitCluster) (l : SplitLabel) : Prop :=
  ∃ p, l = .whole (.thread args.leaderId (.sendSnapshot p)) ∧
    (s.cluster.nodes args.leaderId).workers p = .stamped args ∧
    (s.cluster.nodes args.leaderId).state = .leader ∧
    (s.cluster.nodes args.leaderId).currentTerm = args.term

/-- The runs whose steps disturb no snapshot. -/
def UndisturbedRun (members : List ℤ) : SplitCluster → List SplitLabel → SplitCluster → Prop :=
  Transition.Run (SplitCluster.step members) SplitCluster.Careful

variable {members : List ℤ} {s₀ s t : SplitCluster} {l : SplitLabel} {ls : List SplitLabel}

lemma SplitCluster.history_subset (hstep : SplitCluster.step members s l = some t) :
    s.cluster.history ⊆ t.cluster.history := by
  cases SplitCluster.move_of_step hstep with
  | whole _ hinner => exact (Cluster.move_of_step hinner).history_subset
  | _ => exact fun _ h => h

/-- What is executed is executed in the next state. -/
lemma SplitCluster.executedAt_of_step (hok : s.Careful l)
    (hstep : SplitCluster.step members s l = some t) {i : ℤ} {entry : LogEntry}
    (hl : l = .whole (.thread i .applyEntry))
    (hex : (s.cluster.nodes i).executor.computed? = some entry) :
    t.cluster.ExecutedAt entry.index entry.term := by
  subst hl
  have hlogged := (hok.1.2 entry hex).2
  by_cases hterm : entry.term = 0
  · exact .inl ⟨hlogged hterm, hterm⟩
  · cases SplitCluster.move_of_step hstep with
    | whole _ hinner =>
        cases hcomputed : (s.cluster.nodes i).executor with
        | computed e rest x y msg =>
            rw [hcomputed] at hex
            cases hex
            obtain ⟨changed, hev⟩ := Cluster.executed_mem_of_applied hinner hcomputed
            exact .inr ⟨hterm, i, _, changed, hev, rfl, rfl⟩
        | _ =>
            rw [hcomputed] at hex
            cases hex

lemma genuineInv_of_run (hinit : GenuineInv members s₀.cluster.ExecutedAt (fun _ => False) s₀)
    (hrun : UndisturbedRun members s₀ ls s) :
    GenuineInv members s.cluster.ExecutedAt
      (fun args => Transition.Took (SplitCluster.step members) SplitCluster.Careful s₀ ls s
        (SendsAsLeader args)) s := by
  induction hrun with
  | nil => exact hinit.mono (fun _ _ h => h) fun _ h => h.elim
  | @snoc ls t u l hrun hok hstep ih =>
      refine (ih.mono (fun j T h => h.mono (SplitCluster.history_subset hstep))
        fun args htook => htook.snoc hok hstep).step hok hstep
          (fun i entry hl hex => SplitCluster.executedAt_of_step hok hstep hl hex) ?_
      rintro i p args rfl hw
      have hgenuine := (ih.nodes i).workers p
      rw [hw] at hgenuine
      obtain ⟨-, -, rfl, hstate, hterm⟩ := hgenuine
      exact hrun.took hok hstep ⟨p, rfl, hw, hstate, hterm.symm⟩

lemma executedAt_genesis {s : Cluster} {n : RaftNode} (hstorage : n.storage = genesis) :
    s.ExecutedAt n.storage.getLastAppliedIndex n.appliedTerm := by
  have hindex : genesis.getLastAppliedIndex = 0 := by
    rw [getLastAppliedIndex, get_genesis_of_head (by simp)]
  have hentry : genesis.getLogEntry 0 = .empty := by
    rw [getLogEntry, get_genesis_of_head (by simp)]
  rw [RaftNode.appliedTerm, hstorage, hindex, hentry]
  exact .inl ⟨rfl, rfl⟩

lemma genuineInv_init (members : List ℤ) :
    GenuineInv members (Cluster.init members fun _ => genesis).ExecutedAt (fun _ => False)
      (.ofCluster (.init members fun _ => genesis)) where
  nodes i := ⟨rfl, fun p => trivial⟩
  applied i _ := by
    have hnode : (SplitCluster.ofCluster (.init members fun _ => genesis)).cluster.nodes i =
        .new ⟨i, members⟩ genesis := rfl
    rw [hnode]
    exact executedAt_genesis rfl
  installing i x hx := by cases hx
  calls := by simp [SplitCluster.ofCluster, Cluster.init]

/-- **InstallSnapshot messages are genuine.**  In every run, with crashes, compaction and the writes
of installs interleaved with everything else, whose steps disturb no snapshot: every message has
been sent by its leader while that led the term of the message, and the last entry it includes has
been executed, with the term the message says; the term is `0` for index `0` only. -/
theorem genuine_snapshots (members : List ℤ)
    (hrun : UndisturbedRun members (.ofCluster (.init members fun _ => genesis)) ls s) {k : ℕ}
    {c : Call} {args : InstallSnapshotArgs} (hcall : s.cluster.calls k = some c)
    (hreq : c.request = .installSnapshot args) :
    Transition.Took (SplitCluster.step members) SplitCluster.Careful
        (.ofCluster (.init members fun _ => genesis)) ls s (SendsAsLeader args) ∧
      s.cluster.ExecutedAt args.lastIncludedIndex args.lastIncludedTerm := by
  obtain ⟨hexecuted, hsent⟩ :=
    (genuineInv_of_run (genuineInv_init members) hrun).calls k c args hcall hreq
  exact ⟨hsent, hexecuted⟩

/-! ## A leader that sends a snapshot -/

namespace SplitCluster

instance (s : SplitCluster) (i : ℤ) : DecidablePred (s.CarefulThread i)
  | .dumpSnapshot _ => inferInstanceAs (Decidable (s.installing i = none))
  | .stampSnapshot _ => inferInstanceAs (Decidable ((s.cluster.nodes i).state = .leader))
  | .applyEntry =>
      inferInstanceAs (Decidable (s.installing i = none ∧ (s.cluster.nodes i).AppliesLogged))
  | .electionTimeout | .startElection | .evalHardState | .saveHardState | .sendRequestVote
  | .replicateBegin _ | .replicateCheck _ | .replicateLock _ | .replicatePrevTerm _
  | .replicateRead _ | .replicateSend _ | .replicateAtomic _ | .sendSnapshot _
  | .clientRequest _ _ | .lookupRequest _ | .appendRequest _ | .fetchBatch | .readBalances
  | .notifyClient | .compactIfDue | .skipCompaction => isTrue trivial

instance (s : SplitCluster) : DecidablePred s.Careful
  | .whole (.thread i a) => inferInstanceAs (Decidable (s.CarefulThread i a ∧
      ∀ r ∈ (s.cluster.nodes i).step s.cluster.nextCall a,
        (s.cluster.nodes i).KeepsStamped r.1 ∧ (s.cluster.nodes i).LeavesApplied r.1))
  | .whole (.handle k) => inferInstanceAs (Decidable (∀ c ∈ s.cluster.calls k,
      (s.cluster.nodes c.dst).KeepsStamped ((s.cluster.nodes c.dst).handle c.request).1 ∧
        (s.cluster.nodes c.dst).LeavesApplied ((s.cluster.nodes c.dst).handle c.request).1))
  | .whole (.reply k) => inferInstanceAs (Decidable (∀ c ∈ s.cluster.calls k, ∀ rep ∈ c.reply,
      (s.cluster.nodes c.src).KeepsStamped
        ((s.cluster.nodes c.src).receive c.dst c.request rep)))
  | .whole (.crash i) => inferInstanceAs (Decidable (s.installing i = none))
  | .applySnapshot k => inferInstanceAs
      (Decidable (∀ c ∈ s.cluster.calls k, ∀ args ∈ c.request.installSnapshot?,
        (s.cluster.nodes c.dst).KeepsStamped ((s.cluster.nodes c.dst).beginInstall args)))
  | .whole (.fail _) | .truncateLog _ | .appendAnchor _ => isTrue trivial

end SplitCluster

/-- Node `2` has executed an entry of the first term and has got one of the third with a gap before
it; it wins the fourth term, and the entry before the next one for node `3` is missing. -/
def snapshotOfLeader : List Label :=
  List.flatten [campaign 1 3, [.handle 0, .handle 1, .reply 0, .reply 1],
    takeRequest 1 0 (transfer (Bytes.ascii "r1") 50), replicate 1 2 3, replicate 1 3 4,
    replicate 1 2 5, applyFirst 2,
    [.thread 1 (.replicateBegin 2), .thread 1 (.replicateCheck 2)],
    takeRequest 1 1 (transfer (Bytes.ascii "r2") 50), campaign 2 3, [.handle 6], campaign 1 3,
    [.handle 9, .handle 10, .reply 9, .reply 10],
    takeRequest 1 2 (transfer (Bytes.ascii "r3") 50),
    [.thread 1 (.replicateLock 2), .thread 1 (.replicatePrevTerm 2),
      .thread 1 (.replicateRead 2), .thread 1 (.replicateSend 2), .handle 12],
    campaign 2 3, [.handle 14, .handle 15, .reply 14, .reply 15],
    [.thread 2 (.replicateAtomic 3), .thread 2 (.dumpSnapshot 3), .thread 2 (.stampSnapshot 3),
      .thread 2 (.sendSnapshot 3)]]

/-- A list of steps that executes is a run from the genesis stores. -/
lemma run_of_splitAfter {members : List ℤ} {ls : List SplitLabel}
    {ok : SplitCluster → SplitLabel → Prop} [∀ s, DecidablePred (ok s)] {P : SplitCluster → Prop}
    (h : ∃ s ∈ Transition.runFrom (SplitCluster.step members) ok
      (.ofCluster (.init members fun _ => genesisLight)) ls, P s) :
    ∃ s, Transition.Run (SplitCluster.step members) ok
      (.ofCluster (.init members fun _ => genesis)) ls s ∧ P s :=
  run_of_genesis (fun store => SplitCluster.ofCluster (.init members fun _ => store)) h

/-- The snapshot of a leader names the last entry it has executed. -/
theorem genuine_snapshots_leader :
    ∃ s args, UndisturbedRun [1, 2, 3, 4] (.ofCluster (.init [1, 2, 3, 4] fun _ => genesis))
        (snapshotOfLeader.map .whole) s ∧
      Transition.Took (SplitCluster.step [1, 2, 3, 4]) SplitCluster.Careful
        (.ofCluster (.init [1, 2, 3, 4] fun _ => genesis)) (snapshotOfLeader.map .whole) s
        (SendsAsLeader args) ∧ args.lastIncludedIndex = 1 ∧ s.cluster.ExecutedAt 1 1 := by
  have hsent : ∃ s, UndisturbedRun [1, 2, 3, 4] (.ofCluster (.init [1, 2, 3, 4] fun _ => genesis))
      (snapshotOfLeader.map .whole) s ∧ ∃ c ∈ s.cluster.calls 16,
        ∃ args ∈ c.request.installSnapshot?, args.lastIncludedIndex = 1 ∧
          args.lastIncludedTerm = 1 :=
    run_of_splitAfter (by decide +kernel)
  obtain ⟨s, hrun, c, hcall, args, hargs, hindex, hterm⟩ := hsent
  have hreq := Request.installSnapshot?_eq_some.mp hargs
  obtain ⟨htook, hexecuted⟩ := genuine_snapshots _ hrun hcall hreq
  rw [hindex, hterm] at hexecuted
  exact ⟨s, args, hrun, htook, hindex, hexecuted⟩

/-- **A deposed leader sends a snapshot**, with the term of the node that has deposed it. -/
theorem snapshot_sent_by_deposed :
    ∃ s t, Transition.Run (SplitCluster.step [1, 2, 3, 4]) (fun _ _ => True)
        (.ofCluster (.init [1, 2, 3, 4] fun _ => genesis))
        (snapshotOfDeposed.dropLast.map .whole) s ∧
      (s.cluster.nodes 1).state = .follower ∧ s.cluster.calls 15 = none ∧
      SplitCluster.step [1, 2, 3, 4] s (.whole (.thread 1 (.sendSnapshot 2))) = some t ∧
      ∃ c ∈ t.cluster.calls 15, ∃ args ∈ c.request.installSnapshot?, args.leaderId = 1 ∧
        args.term = 4 := by
  have hsent : ∃ s, Transition.Run (SplitCluster.step [1, 2, 3, 4]) (fun _ _ => True)
      (.ofCluster (.init [1, 2, 3, 4] fun _ => genesis))
      (snapshotOfDeposed.dropLast.map .whole) s ∧
      (s.cluster.nodes 1).state = .follower ∧ (s.cluster.calls 15).isNone = true ∧
      ∃ t ∈ SplitCluster.step [1, 2, 3, 4] s (.whole (.thread 1 (.sendSnapshot 2))),
        ∃ c ∈ t.cluster.calls 15, ∃ args ∈ c.request.installSnapshot?, args.leaderId = 1 ∧
          args.term = 4 :=
    run_of_splitAfter (by decide +kernel)
  obtain ⟨s, hrun, hstate, hnone, t, hstep, hcall⟩ := hsent
  exact ⟨s, t, hrun, hstate, Option.isNone_iff_eq_none.mp hnone, hstep, hcall⟩

end RaftConsensus
