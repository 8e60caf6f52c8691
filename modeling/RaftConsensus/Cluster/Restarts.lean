import RaftConsensus.Cluster.ElectionSafety

/-!
# Elections across restarts

A node that is started again reads its term and its vote from the store.  If they are there when its
process dies (`HardStateSaved`), it comes back as a follower of the same term with the same vote,
which is `restart` of abstract voting, and its unfinished election is forgotten.  So the invariant
of elections, and with it that a term has one winner, holds in runs with such crashes as well.
-/

namespace RaftConsensus

variable {m : Membership} {s t : Cluster} {i : ℤ} {n : RaftNode}

/-- The term and the vote of the node are in its store.  They are not while `startElection` has
still to write them, or when it has written them late. -/
def RaftNode.HardStateSaved (n : RaftNode) : Prop :=
  n.storage.loadHardState = (n.currentTerm, n.votedFor)

instance (n : RaftNode) : Decidable n.HardStateSaved := inferInstanceAs (Decidable (_ = _))

/-- What a restart leaves of the term and the vote. -/
lemma RaftNode.HardStateSaved.restart (h : n.HardStateSaved) :
    n.restart.currentTerm = n.currentTerm ∧ n.restart.votedFor = n.votedFor :=
  ⟨congrArg Prod.fst h, congrArg Prod.snd h⟩

/-- The calls a dead node leaves behind ask for the same votes. -/
lemma askLe_orphan {j : ℤ} : AskLe (s.orphan i).calls s.calls j := by
  intro T k c hc hask
  obtain ⟨c₀, hc₀, rfl⟩ := Option.map_eq_some_iff.mp hc
  refine ⟨c₀, hc₀, ?_, ?_⟩
  · split at hask <;> exact hask
  · split <;> rfl

/-- The voting state after a restart. -/
lemma Cluster.voting_restart (h : (s.nodes i).HardStateSaved) :
    ((s.setNode i (s.nodes i).restart).orphan i).voting = s.voting.restart i := by
  obtain ⟨hterm, hvote⟩ := h.restart
  rw [Cluster.voting_update (s := s) (t := (s.setNode i (s.nodes i).restart).orphan i) (i := i) rfl
    (List.nil_append _).symm, hterm, hvote]
  simp [Voting.State.restart, Cluster.voting, RaftNode.restart, RaftNode.new, Role.phase, Voted]

/-- **A crash that loses neither term nor vote keeps the invariant of elections.** -/
lemma ElectionInv.crash (hinv : ElectionInv m s) (hsaved : (s.nodes i).HardStateSaved) :
    ElectionInv m ((s.setNode i (s.nodes i).restart).orphan i) := by
  refine hinv.of_node (i := i) (n := (s.nodes i).restart) rfl (List.Subset.refl _) ?_ ?_ ?_ ?_
    (fun T => ?_) ?_ fun j _ => askLe_orphan
  · rw [Cluster.voting_restart hsaved]
    exact Voting.inv_step Membership.quorum_inter hinv.voting .restart
  · exact ⟨by simp [RaftNode.restart, RaftNode.new, ElectionThread.saved?], List.nodup_nil,
      fun p b hb => by cases hb⟩
  · intro k c hc
    obtain ⟨c₀, hc₀, rfl⟩ := Option.map_eq_some_iff.mp hc
    have hold := hinv.calls k c₀ hc₀
    split <;> exact hold
  · intro k hk
    show Option.map _ (s.calls k) = none
    rw [hinv.fresh k hk]
    rfl
  · -- the counters are lost, so nobody has been counted
    exact ⟨∅, by simp, rfl, by simp, by simp, by simp⟩
  · refine ⟨fun h => h.elim, by simp [RaftNode.restart, RaftNode.new, ElectionThread.saved?], ?_⟩
    intro T k k' c c' hc hc' hask hask' hdst
    obtain ⟨c₀, hc₀, hask₀, hdst₀⟩ := askLe_orphan T k c hc hask
    obtain ⟨c₁, hc₁, hask₁, hdst₁⟩ := askLe_orphan T k' c' hc' hask'
    exact (hinv.once i).distinct T k k' c₀ c₁ hc₀ hc₁ hask₀ hask₁ (by rw [hdst₀, hdst₁, hdst])

/-- Nobody dies without having saved its term and its vote. -/
def Cluster.CrashSaved (s : Cluster) : Label → Prop
  | .crash i => (s.nodes i).HardStateSaved
  | _ => True

instance (s : Cluster) : DecidablePred s.CrashSaved
  | .crash i => inferInstanceAs (Decidable (s.nodes i).HardStateSaved)
  | .thread _ _ | .handle _ | .reply _ | .fail _ => isTrue trivial

/-- **Every step that saves term and vote keeps the invariant of elections.** -/
theorem ElectionInv.step_saved (hr : Routed m s) (hinv : ElectionInv m s) {l : Label}
    (hl : s.CrashSaved l) (hmove : s.Move m.ids l t) : ElectionInv m t := by
  cases l with
  | crash i =>
      cases hmove with
      | crash => exact hinv.crash hl
  | thread i a => exact hinv.step (l := .thread i a) hr trivial hmove
  | handle k => exact hinv.step (l := .handle k) hr trivial hmove
  | reply k => exact hinv.step (l := .reply k) hr trivial hmove
  | fail k => exact hinv.step (l := .fail k) hr trivial hmove

/-- Runs whose crashes save term and vote. -/
lemma ElectionInv.run_saved {stores : ℤ → RocksDBStore} {ls : List Label}
    (hrun : Transition.Run (Cluster.step m.ids) Cluster.CrashSaved (.init m.ids stores) ls s) :
    Routed m s ∧ ElectionInv m s := by
  induction hrun with
  | nil => exact ⟨routed_init stores, electionInv_init stores⟩
  | snoc _ hl hstep ih =>
      have hmove := Cluster.move_of_step hstep
      exact ⟨ih.1.step hmove, ih.2.step_saved ih.1 hl hmove⟩

/-- A candidate that wins its term is the first one to lead it. -/
lemma ElectionInv.not_elected_of_candidate (hinv : ElectionInv m s) (hinv' : ElectionInv m t)
    (hstate : (s.nodes i).state = .candidate) (hsub : s.history ⊆ t.history)
    (hwon : .elected i (s.nodes i).currentTerm ∈ t.history) {c : ℤ} :
    .elected c (s.nodes i).currentTerm ∉ s.history := by
  intro hc
  obtain rfl : c = i := hinv'.voting.won_unique c i _ (hsub hc) hwon
  rcases (hinv.voting.won_leads c _ hc).2 rfl with h | ⟨h, -⟩ <;>
    simp [Cluster.voting, hstate, Role.phase] at h

end RaftConsensus
