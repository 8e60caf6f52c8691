import RaftConsensus.Cluster.Slices

/-!
# Installing a snapshot, write by write

`handleInstallSnapshot` holds the lock of its node, but `createSnapshot` and the executor do not
take it, so they can run between its storage writes.  `SplitCluster` is the cluster with three
steps for an install, each up to and including the next write: `applySnapshot` (with the term and
the leader's id), `truncateLog` (with the indices in RAM) and `appendAnchor`, after which the call
is answered.  In between, the steps of the node that take the lock have to wait.

Three steps in a row are what `Cluster.step` does in one (`run_of_install`), so every run of the
cluster is a run of the split one (`run_of_run`).
-/

namespace RaftConsensus

namespace RaftNode

/-! ## The parts of the handler -/

/-- The message is accepted and the state machine replaced. -/
def beginInstall (n : RaftNode) (args : InstallSnapshotArgs) : RaftNode :=
  let n := { n.seeTerm args.term with leaderId := args.leaderId }
  { n with
    storage := n.storage.applySnapshot args.data args.lastIncludedIndex args.lastIncludedTerm }

/-- The indices move to the snapshot and the log after it is cut. -/
def cutLog (n : RaftNode) (args : InstallSnapshotArgs) : RaftNode :=
  { n with
    storage := n.storage.truncateLog (args.lastIncludedIndex + 1)
    lastLogIndex := args.lastIncludedIndex
    lastLogTerm := args.lastIncludedTerm
    lastApplied := args.lastIncludedIndex
    commitIndex := args.lastIncludedIndex }

/-- The placeholder is written. -/
def appendAnchor (n : RaftNode) (args : InstallSnapshotArgs) : RaftNode :=
  { n with
    storage := n.storage.appendLog (anchorEntry args.lastIncludedIndex args.lastIncludedTerm) }

variable {n : RaftNode} {args : InstallSnapshotArgs}

lemma seeTerm_lastApplied (n : RaftNode) (t : ℤ) : (n.seeTerm t).lastApplied = n.lastApplied := by
  rcases seeTerm_cases n t with ⟨h, -⟩ | ⟨-, h⟩ <;> rw [h]
  rfl

/-- The parts make up the handler. -/
lemma handleInstallSnapshot_eq_parts (h : n.installs args) :
    n.handleInstallSnapshot args =
      (((n.beginInstall args).cutLog args).appendAnchor args,
        ⟨(((n.beginInstall args).cutLog args).appendAnchor args).currentTerm⟩) := by
  have hterm : ¬ args.term < n.currentTerm := not_lt.mpr h.1
  have hnew : ¬ args.lastIncludedIndex ≤ (n.seeTerm args.term).lastApplied := by
    rw [seeTerm_lastApplied]
    exact not_le.mpr h.2
  unfold handleInstallSnapshot
  rw [if_neg hterm]
  dsimp only
  rw [if_neg hnew]
  rfl

end RaftNode

/-! ## The cluster -/

/-- How far an install has come, with the number of its call: the state machine is replaced, or
the log is cut as well. -/
inductive Install
  | applied (call : ℕ) (args : InstallSnapshotArgs)
  | cut (call : ℕ) (args : InstallSnapshotArgs)

/-- The cluster, and for every node the install that is going on. -/
structure SplitCluster where
  cluster : Cluster
  installing : ℤ → Option Install

/-- A step of the cluster without an install, or a part of an install. -/
inductive SplitLabel
  | whole (l : Label)
  | applySnapshot (call : ℕ)
  | truncateLog (node : ℤ)
  | appendAnchor (node : ℤ)
  deriving DecidableEq

/-- The thread steps that take the lock. -/
def ThreadStep.locks : ThreadStep → Bool
  | .electionTimeout | .startElection | .replicateBegin _ | .replicateLock _ | .replicateAtomic _
  | .stampSnapshot _ | .appendRequest _ | .fetchBatch | .notifyClient => true
  | .evalHardState | .saveHardState | .sendRequestVote | .replicateCheck _ | .replicatePrevTerm _
  | .replicateRead _ | .replicateSend _ | .dumpSnapshot _ | .sendSnapshot _ | .clientRequest _ _
  | .lookupRequest _ | .readBalances | .applyEntry | .compactIfDue | .skipCompaction => false

/-- The snapshot a request carries. -/
def Request.installSnapshot? : Request → Option InstallSnapshotArgs
  | .installSnapshot args => some args
  | _ => none

lemma Request.installSnapshot?_eq_some {req : Request} {args : InstallSnapshotArgs} :
    req.installSnapshot? = some args ↔ req = .installSnapshot args := by
  cases req <;> simp [installSnapshot?]

namespace SplitCluster

/-- No install is going on. -/
def ofCluster (s : Cluster) : SplitCluster := ⟨s, fun _ => none⟩

/-- The step needs the lock of a node that is installing, or it is an install. -/
def Blocked (s : SplitCluster) : Label → Prop
  | .thread i a => a.locks = true ∧ (s.installing i).isSome
  | .handle k => ∃ c ∈ s.cluster.calls k, (s.installing c.dst).isSome ∨
      ∃ args ∈ c.request.installSnapshot?, (s.cluster.nodes c.dst).installs args
  | .reply k => ∃ c ∈ s.cluster.calls k, (s.installing c.src).isSome
  | .fail _ | .crash _ => False

instance (s : SplitCluster) : DecidablePred s.Blocked
  | .thread i a => inferInstanceAs (Decidable (a.locks = true ∧ (s.installing i).isSome))
  | .handle k => inferInstanceAs (Decidable (∃ c ∈ s.cluster.calls k, _ ∨ ∃ args ∈ _, _))
  | .reply k => inferInstanceAs (Decidable (∃ c ∈ s.cluster.calls k, _))
  | .fail _ | .crash _ => isFalse id

/-- A step of the cluster; a crash ends an install. -/
def installingAfter (s : SplitCluster) : Label → ℤ → Option Install
  | .crash i => Function.update s.installing i none
  | _ => s.installing

/-- One step. -/
def step (members : List ℤ) (s : SplitCluster) : SplitLabel → Option SplitCluster
  | .whole l =>
      if s.Blocked l then none
      else (s.cluster.step members l).map fun t => ⟨t, s.installingAfter l⟩
  | .applySnapshot k =>
      match s.cluster.calls k with
      | some ⟨_, dst, .installSnapshot args, none, _⟩ =>
          if s.installing dst = none ∧ (s.cluster.nodes dst).installs args then
            some ⟨s.cluster.setNode dst ((s.cluster.nodes dst).beginInstall args),
              Function.update s.installing dst (some (.applied k args))⟩
          else none
      | _ => none
  | .truncateLog i =>
      match s.installing i with
      | some (.applied k args) =>
          some ⟨s.cluster.setNode i ((s.cluster.nodes i).cutLog args),
            Function.update s.installing i (some (.cut k args))⟩
      | _ => none
  | .appendAnchor i =>
      match s.installing i with
      | some (.cut k args) =>
          let n := (s.cluster.nodes i).appendAnchor args
          some ⟨(s.cluster.setNode i n).setCall k ((s.cluster.calls k).map fun c =>
              { c with reply := some (.installSnapshot ⟨n.currentTerm⟩) }),
            Function.update s.installing i none⟩
      | _ => none

/-- **What a step can be.** -/
inductive Move (members : List ℤ) (s : SplitCluster) : SplitLabel → SplitCluster → Prop
  | whole {l : Label} {t : Cluster} (hfree : ¬ s.Blocked l)
      (hstep : s.cluster.step members l = some t) :
      Move members s (.whole l) ⟨t, s.installingAfter l⟩
  | applySnapshot {k : ℕ} {src dst : ℤ} {args : InstallSnapshotArgs} {alive : Bool}
      (hcall : s.cluster.calls k = some ⟨src, dst, .installSnapshot args, none, alive⟩)
      (hfree : s.installing dst = none) (hinst : (s.cluster.nodes dst).installs args) :
      Move members s (.applySnapshot k)
        ⟨s.cluster.setNode dst ((s.cluster.nodes dst).beginInstall args),
          Function.update s.installing dst (some (.applied k args))⟩
  | truncateLog {i : ℤ} {k : ℕ} {args : InstallSnapshotArgs}
      (hstage : s.installing i = some (.applied k args)) :
      Move members s (.truncateLog i)
        ⟨s.cluster.setNode i ((s.cluster.nodes i).cutLog args),
          Function.update s.installing i (some (.cut k args))⟩
  | appendAnchor {i : ℤ} {k : ℕ} {args : InstallSnapshotArgs}
      (hstage : s.installing i = some (.cut k args)) :
      Move members s (.appendAnchor i)
        ⟨(s.cluster.setNode i ((s.cluster.nodes i).appendAnchor args)).setCall k
            ((s.cluster.calls k).map fun c => { c with
              reply := some (.installSnapshot
                ⟨((s.cluster.nodes i).appendAnchor args).currentTerm⟩) }),
          Function.update s.installing i none⟩

theorem move_of_step {members : List ℤ} {s t : SplitCluster} {l : SplitLabel}
    (hstep : step members s l = some t) : s.Move members l t := by
  cases l with
  | whole l =>
      simp only [step] at hstep
      split at hstep
      · cases hstep
      · rename_i hfree
        obtain ⟨u, hu, rfl⟩ := Option.map_eq_some_iff.mp hstep
        exact .whole hfree hu
  | applySnapshot k =>
      simp only [step] at hstep
      split at hstep
      · rename_i hcall
        split at hstep
        · rename_i hg
          cases hstep
          exact .applySnapshot hcall hg.1 hg.2
        · cases hstep
      · cases hstep
  | truncateLog i =>
      simp only [step] at hstep
      split at hstep
      · rename_i hstage
        cases hstep
        exact .truncateLog hstage
      · cases hstep
  | appendAnchor i =>
      simp only [step] at hstep
      split at hstep
      · rename_i hstage
        cases hstep
        exact .appendAnchor hstage
      · cases hstep

/-! ## The cluster is a special case -/

variable {members : List ℤ} {s t : Cluster}

/-- A step that is no install is a step of the split cluster. -/
lemma run_of_free {l : Label} (hfree : ¬ (ofCluster s).Blocked l)
    (hstep : s.step members l = some t) :
    Transition.Run (step members) (fun _ _ => True) (ofCluster s) [.whole l] (ofCluster t) := by
  refine Transition.Run.single trivial ?_
  have hsame : (ofCluster s).installingAfter l = fun _ => none := by
    cases l with
    | crash i => exact Function.update_eq_self i _
    | _ => rfl
  simp only [step]
  rw [if_neg hfree]
  show (s.step members l).map _ = _
  rw [hstep, Option.map_some, hsame]
  rfl

/-- An install is one after the other of its parts. -/
lemma run_of_install {k : ℕ} {src dst : ℤ} {args : InstallSnapshotArgs} {alive : Bool}
    (hcall : s.calls k = some ⟨src, dst, .installSnapshot args, none, alive⟩)
    (hinst : (s.nodes dst).installs args) (hstep : s.step members (.handle k) = some t) :
    Transition.Run (step members) (fun _ _ => True) (ofCluster s)
      [.applySnapshot k, .truncateLog dst, .appendAnchor dst] (ofCluster t) := by
  set n := (s.nodes dst).beginInstall args
  have happly : step members (ofCluster s) (.applySnapshot k) =
      some ⟨s.setNode dst n, Function.update (fun _ => none) dst (some (.applied k args))⟩ := by
    simp only [step, ofCluster, hcall]
    exact if_pos ⟨trivial, hinst⟩
  have hcut : step members
      ⟨s.setNode dst n, Function.update (fun _ => none) dst (some (.applied k args))⟩
      (.truncateLog dst) = some ⟨s.setNode dst (n.cutLog args),
        Function.update (fun _ => none) dst (some (.cut k args))⟩ := by
    simp [step, Cluster.setNode]
  have hanchor : step members ⟨s.setNode dst (n.cutLog args),
      Function.update (fun _ => none) dst (some (.cut k args))⟩ (.appendAnchor dst) =
        some (ofCluster t) := by
    have ht : t = (s.setNode dst ((n.cutLog args).appendAnchor args)).setCall k
        (some ⟨src, dst, .installSnapshot args,
          some (.installSnapshot ⟨((n.cutLog args).appendAnchor args).currentTerm⟩), alive⟩) := by
      simp only [Cluster.step, hcall, RaftNode.handle,
        RaftNode.handleInstallSnapshot_eq_parts hinst] at hstep
      cases hstep
      rfl
    subst ht
    simp [step, ofCluster, Cluster.setNode, Cluster.setCall, hcall]
  exact .snoc (.snoc (.single trivial happly) trivial hcut) trivial hanchor

/-- **Every run of the cluster is one of the split cluster.** -/
theorem run_of_run {ls : List Label}
    (hrun : Transition.Run (Cluster.step members) (fun _ _ => True) s ls t) :
    ∃ ks, Transition.Run (step members) (fun _ _ => True) (ofCluster s) ks (ofCluster t) := by
  induction hrun with
  | nil => exact ⟨[], .nil⟩
  | @snoc ls t u l _ _ hstep ih =>
      obtain ⟨ks, hks⟩ := ih
      by_cases hfree : (ofCluster t).Blocked l
      · cases l with
        | handle k =>
            obtain ⟨c, hc, hbusy | ⟨args, hargs, hinst⟩⟩ := hfree
            · cases hbusy
            · cases Cluster.move_of_step hstep with
              | handle hcall =>
                  obtain rfl := Option.some.inj (hc.symm.trans hcall)
                  obtain rfl := Request.installSnapshot?_eq_some.mp hargs
                  exact ⟨_, hks.append (run_of_install hcall hinst hstep)⟩
        | thread i a => cases hfree.2
        | reply k =>
            obtain ⟨c, -, hbusy⟩ := hfree
            cases hbusy
        | fail k => exact hfree.elim
        | crash i => exact hfree.elim
      · exact ⟨_, hks.append (run_of_free hfree hstep)⟩

end SplitCluster

end RaftConsensus
