import RaftConsensus.Cluster.Routing
import RaftConsensus.Library.Voting

/-!
# Elections of the cluster refine abstract voting

`Cluster.voting` reads the abstract voting state off a cluster: the nodes' terms, votes and roles,
and the votes and victories that its history records.  As long as nothing crashes, every step of
the cluster is a sequence of steps of `Voting.Step` (`ElectionInv.voting_steps`), and so a term
has at most one winner.

That a node which becomes leader really has the votes of enough nodes is the content of `Tally`:
the counter of an election never counts the same voter twice, because every peer is asked by one
call only and a reply is given to its call once.
-/

namespace RaftConsensus

/-! ## The abstract voting state -/

/-- The abstract phase of a role. -/
def Role.phase : Role → Voting.Phase
  | .follower => .follower
  | .candidate => .candidate
  | .leader => .leader

/-- The vote a value of `votedFor` stands for. -/
def voteOf (votedFor : ℤ) : Option ℤ := if votedFor = -1 then none else some votedFor

@[simp] lemma voteOf_sentinel : voteOf (-1) = none := rfl

lemma voteOf_of_ne {c : ℤ} (h : c ≠ -1) : voteOf c = some c := if_neg h

/-- The history records that `v` has voted for `c` in term `T`. -/
def Voted (h : List Event) (v T c : ℤ) : Prop :=
  c = v ∧ .selfVote v T ∈ h ∨ .granted v T c ∈ h

/-- The events that record votes and victories. -/
def Event.ofElection : Event → Prop
  | .selfVote .. | .granted .. | .elected .. => True
  | _ => False

namespace Cluster

/-- The abstract voting state of a cluster. -/
def voting (s : Cluster) : Voting.State ℤ ℤ where
  term i := (s.nodes i).currentTerm
  vote i := voteOf (s.nodes i).votedFor
  phase i := (s.nodes i).state.phase
  votes := {x | Voted s.history x.1 x.2.1 x.2.2}
  won := {x | .elected x.1 x.2 ∈ s.history}

variable {s t : Cluster} {i : ℤ} {n : RaftNode} {es : List Event}

/-- The voting state after one node has changed and events have been recorded. -/
lemma voting_update (hnodes : t.nodes = Function.update s.nodes i n)
    (hhist : t.history = es ++ s.history) :
    t.voting =
      { term := Function.update s.voting.term i n.currentTerm
        vote := Function.update s.voting.vote i (voteOf n.votedFor)
        phase := Function.update s.voting.phase i n.state.phase
        votes := {x | Voted es x.1 x.2.1 x.2.2} ∪ s.voting.votes
        won := {x | .elected x.1 x.2 ∈ es} ∪ s.voting.won } := by
  have hproj : ∀ {α : Type} (f : RaftNode → α),
      (fun j => f (t.nodes j)) = Function.update (fun j => f (s.nodes j)) i (f n) := by
    intro α f
    rw [hnodes]
    exact Function.comp_update f s.nodes i n
  unfold voting
  rw [hproj (·.currentTerm), hproj fun n => voteOf n.votedFor, hproj fun n => n.state.phase]
  congr 1
  · ext x
    simp only [Voted, hhist, List.mem_append, Set.mem_ofPred_eq, Set.mem_union]
    tauto
  · ext x
    simp [hhist]

lemma not_voted_of_quiet (hes : ∀ e ∈ es, ¬ e.ofElection) {v T c : ℤ} : ¬ Voted es v T c := by
  rintro (⟨-, h⟩ | h)
  · exact hes _ h trivial
  · exact hes _ h trivial

lemma not_elected_of_quiet (hes : ∀ e ∈ es, ¬ e.ofElection) {c T : ℤ} : .elected c T ∉ es :=
  fun h => hes _ h trivial

/-- A change of one node that elections do not see leaves the voting state alone. -/
lemma voting_same (hnodes : t.nodes = Function.update s.nodes i n)
    (hhist : t.history = es ++ s.history) (hes : ∀ e ∈ es, ¬ e.ofElection)
    (hstate : n.state = (s.nodes i).state) (hterm : n.currentTerm = (s.nodes i).currentTerm)
    (hvote : n.votedFor = (s.nodes i).votedFor) : t.voting = s.voting := by
  rw [voting_update hnodes hhist]
  simp only [not_voted_of_quiet hes, not_elected_of_quiet hes, hstate, hterm, hvote]
  simp [voting]

/-- `becomeFollower` is `follow`. -/
lemma voting_follow (hnodes : t.nodes = Function.update s.nodes i n)
    (hhist : t.history = es ++ s.history) (hes : ∀ e ∈ es, ¬ e.ofElection) {T : ℤ}
    (hstate : n.state = .follower) (hterm : n.currentTerm = T) (hvote : n.votedFor = -1) :
    t.voting = s.voting.follow i T := by
  rw [voting_update hnodes hhist]
  simp only [not_voted_of_quiet hes, not_elected_of_quiet hes, hstate, hterm, hvote]
  simp [Voting.State.follow, Role.phase]

/-- The locked block of `startElection` is `stand`. -/
lemma voting_stand {T : ℤ} (hnodes : t.nodes = Function.update s.nodes i n)
    (hhist : t.history = [.selfVote i T] ++ s.history) (hstate : n.state = .candidate)
    (hterm : n.currentTerm = T) (hvote : n.votedFor = i) (hi : i ≠ -1) :
    t.voting = s.voting.stand i T := by
  rw [voting_update hnodes hhist, hstate, hterm, hvote, voteOf_of_ne hi]
  simp only [Voting.State.stand, Role.phase, Voting.State.mk.injEq, true_and]
  constructor
  · ext ⟨v, T', c⟩
    simp only [Voted, List.mem_singleton, Event.selfVote.injEq, reduceCtorEq, or_false,
      Set.mem_union, Set.mem_ofPred_eq, Set.mem_insert_iff, Prod.mk.injEq]
    grind
  · simp

/-- Granting a vote is `grant`. -/
lemma voting_grant {T c : ℤ} (hnodes : t.nodes = Function.update s.nodes i n)
    (hhist : t.history = [.granted i T c] ++ s.history) (hstate : n.state = (s.nodes i).state)
    (hterm : n.currentTerm = (s.nodes i).currentTerm) (hT : (s.nodes i).currentTerm = T)
    (hvote : n.votedFor = c) (hc : c ≠ -1) : t.voting = s.voting.grant i c := by
  rw [voting_update hnodes hhist, hstate, hterm, hvote, voteOf_of_ne hc]
  subst hT
  simp only [Voting.State.grant, Voting.State.mk.injEq, true_and]
  refine ⟨by simp [voting], by simp [voting], ?_, by simp⟩
  ext ⟨v, T', d⟩
  simp [Voted, voting]

/-- `becomeLeader` is `win`. -/
lemma voting_win {T : ℤ} (hnodes : t.nodes = Function.update s.nodes i n)
    (hhist : t.history = [.elected i T] ++ es ++ s.history) (hes : ∀ e ∈ es, ¬ e.ofElection)
    (hstate : n.state = .leader) (hterm : n.currentTerm = (s.nodes i).currentTerm)
    (hT : (s.nodes i).currentTerm = T) (hvote : n.votedFor = (s.nodes i).votedFor) :
    t.voting = s.voting.win i := by
  rw [voting_update hnodes hhist, hstate, hterm, hvote]
  subst hT
  simp only [Voting.State.win, Role.phase, Voting.State.mk.injEq, true_and]
  refine ⟨by simp [voting], by simp [voting], ?_, ?_⟩
  · ext ⟨v, T', d⟩
    have := not_voted_of_quiet hes (v := v) (T := T') (c := d)
    simp [Voted] at this ⊢
    tauto
  · ext ⟨c, T'⟩
    have := not_elected_of_quiet hes (c := c) (T := T')
    simp [voting, this]

end Cluster

/-! ## The invariant -/

/-- What an election thread is working on: the election it has started. -/
def ElectionThread.saved? : ElectionThread → Option SavedElection
  | .idle | .due => none
  | .started saved | .evaluated saved _ _ | .sending saved _ => some saved

/-- The election thread has not asked anybody yet. -/
def ElectionThread.unasked : ElectionThread → Prop
  | .started _ | .evaluated _ _ _ => True
  | _ => False

lemma ElectionThread.eq_of_saved?_next {saved saved' : SavedElection} {ts : List ℤ}
    (h : (ElectionThread.next saved ts).saved? = some saved') : saved' = saved := by
  cases ts with
  | nil => cases h
  | cons p ts => exact (Option.some.inj h).symm

@[simp] lemma ElectionThread.not_unasked_next (saved : SavedElection) (ts : List ℤ) :
    ¬ (ElectionThread.next saved ts).unasked := by
  cases ts <;> exact id

/-- The batch a replication thread is collecting. -/
def Worker.batch? : Worker → Option Batch
  | .locked b | .reading b => some b
  | _ => none

/-- What the threads of node `i` work on has happened: the election it has started, and the
victory of the term it replicates in. -/
structure NodeOk (h : List Event) (i : ℤ) (n : RaftNode) : Prop where
  saved : ∀ saved, n.election.saved? = some saved → .selfVote i saved.term ∈ h
  nodup_targets : n.election.targets.Nodup
  batch : ∀ p b, (n.workers p).batch? = some b → .elected i b.term ∈ h

/-- What a call says about its sender and, once answered, about its receiver. -/
def CallOk (h : List Event) (c : Call) : Prop :=
  match c.request with
  | .requestVote args =>
      .selfVote c.src args.term ∈ h ∧
        ∀ r, c.reply = some (.requestVote r) → r.voteGranted = true → Voted h c.dst args.term c.src
  | .appendEntries args => .elected c.src args.term ∈ h
  | .installSnapshot _ => True

/-- The call is one by which node `i` asks for votes in term `T`. -/
def Call.asks (c : Call) (i T : ℤ) : Prop :=
  c.src = i ∧ ∃ args, c.request = .requestVote args ∧ args.term = T

/-- **The counter of an election counts voters.**  The voters counted so far in the election of
node `i` in term `T` are a set of members that voted for it, and none of them is asked again: not
by a call that may still be answered, and not by the election thread. -/
def Tally (m : Membership) (h : List Event) (calls : ℕ → Option Call) (i : ℤ) (n : RaftNode)
    (T : ℤ) : Prop :=
  ∃ A : Finset ℤ, A ⊆ m.ids.toFinset ∧ n.votesReceived T = A.card ∧
    (∀ v ∈ A, Voted h v T i) ∧
    (∀ k c, calls k = some c → c.asks i T → c.dst ∉ A) ∧
    (∀ saved, n.election.saved? = some saved → saved.term = T → ∀ p ∈ n.election.targets, p ∉ A)

/-- Every peer is asked once in an election. -/
structure AskedOnce (calls : ℕ → Option Call) (i : ℤ) (n : RaftNode) : Prop where
  unasked : n.election.unasked → ∀ saved, n.election.saved? = some saved →
    ∀ k c, calls k = some c → ¬ c.asks i saved.term
  targets : ∀ saved, n.election.saved? = some saved →
    ∀ k c, calls k = some c → c.asks i saved.term → c.dst ∉ n.election.targets
  distinct : ∀ T k k' c c', calls k = some c → calls k' = some c' → c.asks i T → c'.asks i T →
    c.dst = c'.dst → k = k'

/-- A call of `calls'` that asks for votes is one of `calls`, perhaps with more of its answer. -/
def AskLe (calls' calls : ℕ → Option Call) (i : ℤ) : Prop :=
  ∀ T k c, calls' k = some c → c.asks i T →
    ∃ c₀, calls k = some c₀ ∧ c₀.asks i T ∧ c₀.dst = c.dst

/-- **The invariant of elections.** -/
structure ElectionInv (m : Membership) (s : Cluster) : Prop where
  voting : Voting.Inv m.Quorum s.voting
  nodes : ∀ i, NodeOk s.history i (s.nodes i)
  calls : ∀ k c, s.calls k = some c → CallOk s.history c
  fresh : ∀ k, s.nextCall ≤ k → s.calls k = none
  tally : ∀ i T, Tally m s.history s.calls i (s.nodes i) T
  once : ∀ i, AskedOnce s.calls i (s.nodes i)

/-! ## More history, fewer calls -/

section Mono

variable {m : Membership} {h h' : List Event} {i : ℤ} {n n' : RaftNode} {T : ℤ}
  {calls calls' : ℕ → Option Call}

lemma Voted.mono (hh : h ⊆ h') {v T c : ℤ} (hv : Voted h v T c) : Voted h' v T c :=
  hv.imp (fun ⟨hc, he⟩ => ⟨hc, hh he⟩) fun he => hh he

lemma NodeOk.mono (hh : h ⊆ h') (hn : NodeOk h i n) : NodeOk h' i n :=
  { hn with
    saved := fun saved hs => hh (hn.saved saved hs)
    batch := fun p b hb => hh (hn.batch p b hb) }

lemma CallOk.mono (hh : h ⊆ h') {c : Call} (hc : CallOk h c) : CallOk h' c := by
  unfold CallOk at hc ⊢
  cases hr : c.request with
  | requestVote args =>
      rw [hr] at hc
      exact ⟨hh hc.1, fun r h₁ h₂ => (hc.2 r h₁ h₂).mono hh⟩
  | appendEntries args =>
      rw [hr] at hc
      exact hh hc
  | installSnapshot args => trivial

/-- The tally of an election stays right while its counter does not move and nobody else is to
be asked. -/
lemma Tally.of_le (ht : Tally m h calls i n T) (hh : h ⊆ h') (hle : AskLe calls' calls i)
    (hvotes : n'.votesReceived T = n.votesReceived T)
    (hfewer : ∀ saved, n'.election.saved? = some saved → saved.term = T →
      ∀ p ∈ n'.election.targets, n.election.saved? = some saved ∧ p ∈ n.election.targets) :
    Tally m h' calls' i n' T := by
  obtain ⟨A, hA, hcount, hvoted, hcalls, htargets⟩ := ht
  refine ⟨A, hA, by rw [hvotes, hcount], fun v hv => (hvoted v hv).mono hh, ?_, ?_⟩
  · intro k c hc hask
    obtain ⟨c₀, hc₀, hask₀, hdst⟩ := hle T k c hc hask
    rw [← hdst]
    exact hcalls k c₀ hc₀ hask₀
  · intro saved hs hT p hp
    obtain ⟨hs₀, hp₀⟩ := hfewer saved hs hT p hp
    exact htargets saved hs₀ hT p hp₀

/-- In particular while the thread does not move either. -/
lemma Tally.of_still (ht : Tally m h calls i n T) (hh : h ⊆ h') (hle : AskLe calls' calls i)
    (hvotes : n'.votesReceived = n.votesReceived) (helection : n'.election = n.election) :
    Tally m h' calls' i n' T :=
  ht.of_le hh hle (by rw [hvotes]) fun saved hs _ p hp => by
    rw [helection] at hs hp
    exact ⟨hs, hp⟩

lemma AskedOnce.of_le (ho : AskedOnce calls i n) (hle : AskLe calls' calls i)
    (helection : n'.election = n.election) : AskedOnce calls' i n' := by
  refine ⟨?_, ?_, ?_⟩
  · rw [helection]
    intro hun saved hs k c hc hask
    obtain ⟨c₀, hc₀, hask₀, -⟩ := hle _ k c hc hask
    exact ho.unasked hun saved hs k c₀ hc₀ hask₀
  · rw [helection]
    intro saved hs k c hc hask
    obtain ⟨c₀, hc₀, hask₀, hdst⟩ := hle _ k c hc hask
    rw [← hdst]
    exact ho.targets saved hs k c₀ hc₀ hask₀
  · intro T k k' c c' hc hc' hask hask' hdst
    obtain ⟨c₀, hc₀, hask₀, hdst₀⟩ := hle T k c hc hask
    obtain ⟨c₁, hc₁, hask₁, hdst₁⟩ := hle T k' c' hc' hask'
    exact ho.distinct T k k' c₀ c₁ hc₀ hc₁ hask₀ hask₁ (by rw [hdst₀, hdst₁, hdst])

/-- Replacing a call by one with the same sender, receiver and request. -/
lemma askLe_update {k : ℕ} {c c' : Call} (hc : calls k = some c) (hsrc : c'.src = c.src)
    (hdst : c'.dst = c.dst) (hreq : c'.request = c.request) :
    AskLe (Function.update calls k (some c')) calls i := by
  intro T k' d hd hask
  by_cases hk : k' = k
  · subst hk
    rw [Function.update_self] at hd
    cases hd
    exact ⟨c, hc, by simpa [Call.asks, hsrc, hreq] using hask, hdst.symm⟩
  · rw [Function.update_of_ne hk] at hd
    exact ⟨d, hd, hask, rfl⟩

/-- Removing a call. -/
lemma askLe_remove {k : ℕ} : AskLe (Function.update calls k none) calls i := by
  intro T k' d hd hask
  by_cases hk : k' = k
  · subst hk
    simp at hd
  · rw [Function.update_of_ne hk] at hd
    exact ⟨d, hd, hask, rfl⟩

/-- Sending something that does not ask for the vote of node `i`. -/
lemma askLe_emit {s : Cluster} {j : ℤ} {out : Output}
    (hout : j = i → ∀ dst args, out ≠ .call dst (.requestVote args)) :
    AskLe (s.emit j out).calls s.calls i := by
  intro T k c hc hask
  rcases s.emit_calls hc with ⟨hold, -⟩ | ⟨dst, request, rfl, -, rfl⟩
  · exact ⟨c, hold, hask, rfl⟩
  · obtain ⟨hsrc, args, hreq, -⟩ := hask
    exact absurd (congrArg (Output.call dst) hreq) (hout hsrc dst args)

lemma askLe_refl : AskLe calls calls i := fun _ _ c hc hask => ⟨c, hc, hask, rfl⟩

end Mono

end RaftConsensus
