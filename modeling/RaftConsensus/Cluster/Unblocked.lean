import RaftConsensus.Cluster.Routing
import RaftConsensus.Node.Replicators

/-!
# No thread waits for nothing

A replication thread that waits for an answer waits for a call that can still end: nobody has given
it up, and an answer that has come is of the right kind.  The election thread is not in its loop
without a peer to ask.  So every thread inside an operation can go on.

`Unblocked` holds in every run, with crashes, compaction and snapshots.
-/

namespace RaftConsensus

variable {m : Membership} {s t : Cluster} {i p q : ℤ} {k : ℕ} {n n' : RaftNode} {req : Request}
  {rep : Reply}

/-! ## Calls that can still end -/

/-- The answer is of the kind that belongs to the request. -/
def Reply.answers : Reply → Request → Prop
  | .requestVote _, .requestVote _ | .appendEntries _, .appendEntries _
  | .installSnapshot _, .installSnapshot _ => True
  | _, _ => False

lemma RaftNode.handle_answers (n : RaftNode) (req : Request) : (n.handle req).2.answers req := by
  cases req <;> exact trivial

/-- Call number `k` of a replication thread of node `i` for peer `p` can still end. -/
def Cluster.Awaited (s : Cluster) (i p : ℤ) (k : ℕ) : Prop :=
  ∃ request reply, s.calls k = some ⟨i, p, request, reply, true⟩ ∧ request.replicates = true ∧
    ∀ r ∈ reply, r.answers request

/-- **No thread waits for nothing.** -/
structure Unblocked (s : Cluster) : Prop where
  election : ∀ i saved, (s.nodes i).election ≠ .sending saved []
  workers : ∀ i p k, (s.nodes i).workers p = .calling k → s.Awaited i p k
  fresh : ∀ k, s.nextCall ≤ k → s.calls k = none

lemma Unblocked.lt_nextCall (h : Unblocked s) {c : Call} (hc : s.calls k = some c) :
    k < s.nextCall := by
  by_contra hge
  rw [h.fresh k (not_lt.mp hge)] at hc
  cases hc

/-! ## One node -/

namespace RaftNode

/-- The loop over the peers ends when there are none left. -/
lemma next_ne_sending (saved saved' : SavedElection) (ts : List ℤ) :
    ElectionThread.next saved ts ≠ .sending saved' [] := by
  cases ts <;> simp [ElectionThread.next]

lemma Move.election_ne {call : ℕ} {a : ThreadStep} {out : Output} (h : n.Move call a n' out)
    (hn : ∀ saved, n.election ≠ .sending saved []) (saved : SavedElection) :
    n'.election ≠ .sending saved [] := by
  cases h with
  | electionTimeout => exact fun h => by cases h
  | startElection => exact fun h => by cases h
  | evalHardState => exact fun h => by cases h
  | saveHardState => exact next_ne_sending _ _ _
  | sendRequestVote => exact next_ne_sending _ _ _
  | _ => exact hn saved

lemma calling_setWorker {w : Worker} (h : (n.setWorker p w).workers q = .calling k) :
    n.workers q = .calling k ∨ q = p ∧ w = .calling k := by
  by_cases hq : q = p
  · subst hq
    exact .inr ⟨rfl, by simpa [setWorker] using h⟩
  · exact .inl (by simpa [setWorker, hq] using h)

/-- A thread that waits has waited before, or has just made the call. -/
lemma Move.calling {call : ℕ} {a : ThreadStep} {out : Output} (h : n.Move call a n' out)
    (hw : n'.workers q = .calling k) :
    n.workers q = .calling k ∨
      k = call ∧ ∃ request, request.replicates = true ∧ out = .call q request := by
  cases h with
  | replicateSend =>
      rcases calling_setWorker hw with hold | ⟨rfl, hk⟩
      · exact .inl hold
      · cases hk
        exact .inr ⟨rfl, _, rfl, rfl⟩
  | replicateAtomic =>
      rcases calling_setWorker hw with hold | ⟨rfl, hk⟩
      · exact .inl hold
      · cases hk
        exact .inr ⟨rfl, _, rfl, rfl⟩
  | sendSnapshot =>
      rcases calling_setWorker hw with hold | ⟨rfl, hk⟩
      · exact .inl hold
      · cases hk
        exact .inr ⟨rfl, _, rfl, rfl⟩
  | replicateBegin | replicateCheckMissing | replicateCheck | replicateLockDeposed
  | replicateLock | replicatePrevTerm | replicateRead | replicateAtomicMissing | dumpSnapshot
  | stampSnapshot =>
      exact .inl ((calling_setWorker hw).resolve_right fun h => by cases h.2)
  | _ => exact .inl hw

/-- The answer to the call of a replication thread ends the thread. -/
lemma receive_workers (hreq : req.replicates = true) (hrep : rep.answers req) :
    (n.receive p req rep).workers = Function.update n.workers p .idle := by
  cases req with
  | requestVote args => cases hreq
  | appendEntries args =>
      cases rep with
      | appendEntries r => exact appendEntriesReply_workers n p args r
      | _ => exact hrep.elim
  | installSnapshot args =>
      cases rep with
      | installSnapshot r => exact installSnapshotReply_workers n p args r
      | _ => exact hrep.elim

lemma abandon_workers_eq (hreq : req.replicates = true) :
    (n.abandon p req).workers = Function.update n.workers p .idle := by
  cases req with
  | requestVote args => cases hreq
  | appendEntries args => rfl
  | installSnapshot args => rfl

end RaftNode

/-! ## Steps of the cluster -/

namespace Cluster

lemma emit_calls_of_lt {out : Output} (hk : k < s.nextCall) :
    (s.emit i out).calls k = s.calls k := by
  cases out with
  | call dst request => exact Function.update_of_ne hk.ne _ _
  | _ => rfl

lemma emit_calls_self {request : Request} :
    (s.emit i (.call p request)).calls s.nextCall = some ⟨i, p, request, none, true⟩ :=
  Function.update_self _ _ _

lemma emit_fresh (hfresh : ∀ k, s.nextCall ≤ k → s.calls k = none) (out : Output)
    (hk : (s.emit i out).nextCall ≤ k) : (s.emit i out).calls k = none := by
  cases out with
  | call dst request =>
      have hlt : s.nextCall < k := hk
      exact (Function.update_of_ne hlt.ne' _ _).trans (hfresh k hlt.le)
  | _ => exact hfresh k hk

/-- Other calls do not matter. -/
lemma Awaited.of_calls (h : s.Awaited i p k) (hcalls : t.calls k = s.calls k) :
    t.Awaited i p k := by
  obtain ⟨request, reply, hc, hrest⟩ := h
  exact ⟨request, reply, hcalls.trans hc, hrest⟩

end Cluster

namespace Unblocked

/-- After a step of a single node. -/
lemma of_node (h : Unblocked s) (hnodes : t.nodes = Function.update s.nodes i n)
    (helection : ∀ saved, n.election ≠ .sending saved [])
    (hworkers : ∀ p k, n.workers p = .calling k → t.Awaited i p k)
    (hothers : ∀ j p k, j ≠ i → s.Awaited j p k → t.Awaited j p k)
    (hfresh : ∀ k, t.nextCall ≤ k → t.calls k = none) : Unblocked t where
  election j saved := Cluster.forall_nodes
    (P := fun _ n => ∀ saved, n.election ≠ .sending saved []) hnodes helection
    (fun j _ => h.election j) j saved
  workers j p k := Cluster.forall_nodes
    (P := fun j n => ∀ p k, n.workers p = .calling k → t.Awaited j p k) hnodes hworkers
    (fun j hj p k hw => hothers j p k hj (h.workers j p k hw)) j p k
  fresh := hfresh

lemma thread (h : Unblocked s) {a : ThreadStep} {out : Output}
    (hmove : (s.nodes i).Move s.nextCall a n out)
    (hnodes : t.nodes = Function.update s.nodes i n)
    (hcalls : t.calls = ((s.setNode i n).emit i out).calls)
    (hnext : t.nextCall = ((s.setNode i n).emit i out).nextCall) : Unblocked t := by
  have hkeep : ∀ j p k, s.Awaited j p k → t.Awaited j p k := by
    intro j p k hwait
    obtain ⟨_, _, hc, -⟩ := id hwait
    refine hwait.of_calls ?_
    rw [hcalls]
    exact Cluster.emit_calls_of_lt (s := s.setNode i n) (h.lt_nextCall hc)
  refine h.of_node hnodes (hmove.election_ne (h.election i)) (fun p k hw => ?_)
    (fun j p k _ => hkeep j p k) fun k hk => ?_
  · rcases hmove.calling hw with hold | ⟨rfl, request, hreq, rfl⟩
    · exact hkeep i p k (h.workers i p k hold)
    · refine ⟨request, none, ?_, hreq, by simp⟩
      rw [hcalls]
      exact Cluster.emit_calls_self (s := s.setNode i n)
  · rw [hcalls]
    rw [hnext] at hk
    exact Cluster.emit_fresh (s := s.setNode i n) h.fresh out hk

/-- No call has number `nextCall` or more after call `k`, an old one, has changed. -/
lemma fresh_update (h : Unblocked s) {c : Call} (hc : s.calls k = some c) (c' : Option Call)
    {j : ℕ} (hj : s.nextCall ≤ j) : Function.update s.calls k c' j = none := by
  have hlt := h.lt_nextCall hc
  rw [Function.update_of_ne (by omega)]
  exact h.fresh j hj

/-- **Every step leaves all threads something to wait for.** -/
theorem step (h : Unblocked s) {l : Label} (hmove : s.Move m.ids l t) : Unblocked t := by
  cases hmove with
  | thread hi hmove => exact h.thread hmove (by simp) rfl rfl
  | @handle k src dst request alive hcall =>
      obtain ⟨-, -, -, -, -, helection, hworkers, -, -⟩ :=
        RaftNode.threads_inj (RaftNode.handle_threads (s.nodes dst) request)
      have hkeep : ∀ j p k', s.Awaited j p k' → Cluster.Awaited
          (((s.setNode dst ((s.nodes dst).handle request).1).setCall k
            (some ⟨src, dst, request, some ((s.nodes dst).handle request).2, alive⟩)).record
              (Cluster.handleEvents dst request ((s.nodes dst).handle request).2)) j p k' := by
        intro j p k' hwait
        by_cases hk : k' = k
        · subst hk
          obtain ⟨request', reply', hc, hreq, -⟩ := hwait
          rw [hcall] at hc
          cases hc
          refine ⟨request, _, Function.update_self _ _ _, hreq, ?_⟩
          rintro r ⟨⟩
          exact RaftNode.handle_answers _ _
        · exact hwait.of_calls (Function.update_of_ne hk _ _)
      refine h.of_node (i := dst) rfl (by rw [helection]; exact h.election dst)
        (fun p k' hw => ?_) (fun j p k' _ => hkeep j p k') fun j hj => h.fresh_update hcall _ hj
      rw [hworkers] at hw
      exact hkeep dst p k' (h.workers dst p k' hw)
  | @reply k src dst request reply hcall =>
      obtain ⟨-, helection, hworkers⟩ :=
        RaftNode.receive_threads (s.nodes src) dst request reply
      refine h.of_node (i := src) rfl (by rw [helection]; exact h.election src)
        (fun p k' hw => ?_) (fun j p k' hj hwait => ?_) fun j hj => h.fresh_update hcall _ hj
      · have hold : (s.nodes src).workers p = .calling k' := by
          rcases hworkers p with h' | h'
          · exact h'.symm.trans hw
          · rw [h'] at hw
            cases hw
        have hwait := h.workers src p k' hold
        by_cases hk : k' = k
        · -- the thread that has waited for this answer is gone
          subst hk
          obtain ⟨request', reply', hc, hreq, hrep⟩ := hwait
          rw [hcall] at hc
          cases hc
          rw [RaftNode.receive_workers hreq (hrep reply rfl), Function.update_self] at hw
          cases hw
        · exact hwait.of_calls (Function.update_of_ne hk _ _)
      · have hk : k' ≠ k := by
          rintro rfl
          obtain ⟨_, _, hc, -⟩ := hwait
          rw [hcall] at hc
          cases hc
          exact hj rfl
        exact hwait.of_calls (Function.update_of_ne hk _ _)
  | @fail k src dst request reply hcall =>
      obtain ⟨-, -, -, -, helection, -⟩ :=
        RaftNode.electionView_inj (RaftNode.abandon_view (s.nodes src) dst request)
      refine h.of_node (i := src) rfl (by rw [helection]; exact h.election src)
        (fun p k' hw => ?_) (fun j p k' hj hwait => ?_) fun j hj => h.fresh_update hcall _ hj
      · have hold : (s.nodes src).workers p = .calling k' := by
          rcases RaftNode.abandon_workers (s.nodes src) dst request p with h' | h'
          · exact h'.symm.trans hw
          · rw [h'] at hw
            cases hw
        have hwait := h.workers src p k' hold
        by_cases hk : k' = k
        · subst hk
          obtain ⟨request', reply', hc, hreq, -⟩ := hwait
          rw [hcall] at hc
          cases hc
          rw [RaftNode.abandon_workers_eq hreq, Function.update_self] at hw
          cases hw
        · exact hwait.of_calls (Function.update_of_ne hk _ _)
      · have hk : k' ≠ k := by
          rintro rfl
          obtain ⟨_, _, hc, -⟩ := hwait
          rw [hcall] at hc
          cases hc
          exact hj rfl
        exact hwait.of_calls (Function.update_of_ne hk _ _)
  | @crash i hi =>
      refine h.of_node (i := i) rfl (fun saved hsend => by cases hsend)
        (fun p k' hw => by cases hw) (fun j p k' hj hwait => ?_) fun j hj => ?_
      · obtain ⟨request, reply, hc, hrest⟩ := hwait
        refine ⟨request, reply, ?_, hrest⟩
        show (s.calls k').map _ = _
        rw [hc, Option.map_some, if_neg hj]
      · show (s.calls j).map _ = none
        rw [h.fresh j hj]
        rfl

end Unblocked

/-- When all nodes have been constructed, no thread is in an operation. -/
lemma unblocked_init (stores : ℤ → RocksDBStore) : Unblocked (.init m.ids stores) where
  election i saved h := by cases h
  workers i p k h := by cases h
  fresh _ _ := rfl

end RaftConsensus
