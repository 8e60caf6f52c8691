import Mathlib.Data.Prod.Lex
import RaftConsensus.Library.Progress
import RaftConsensus.Cluster.ElectionSafety
import RaftConsensus.Cluster.Unblocked

/-!
# A leader can always be elected

Whatever has happened in a run without crashes, and wherever threads and messages are, a cluster of
two nodes or more can elect a leader of a new term by steps of elections alone: nodes stand, ask for
votes and get answers (`leader_electable`).  Logs, state machines, clients' requests and all other
threads stay as they are.  A cluster of one node never gets a leader.

* `Polling` — one node asks all others, one after the other, in a term that is new to them.  Each of
  them follows, and votes if the log of the node is up to date.
* `Cluster.canReach_poll` — so every node that is not a leader can make all others followers.
* The node with the most up-to-date log then gets all votes.
-/

namespace RaftConsensus

open Transition

variable {m : Membership} {s t : Cluster} {i j p : ℤ} {k : ℕ} {n n' : RaftNode} {T : ℤ}

/-! ## What elections leave alone -/

/-- The database off the hard state. -/
def RocksDBStore.offHardState (s : RocksDBStore) : Bytes → Option Value :=
  fun k => if k = termKey ∨ k = voteKey then none else s.db.get k

/-- What an election neither reads nor writes, apart from the last index and term. -/
structure OffElection where
  config : ClusterConfig
  stored : Bytes → Option Value
  lastLogIndexCache : ℤ
  lastLogIndex : ℤ
  lastLogTerm : ℤ
  commitIndex : ℤ
  lastApplied : ℤ
  pendingCallbacks : Bytes → Option ℕ
  workers : ℤ → Worker
  executor : Executor
  requests : ℕ → Option RequestThread

namespace RaftNode

def offElection (n : RaftNode) : OffElection :=
  ⟨n.config, n.storage.offHardState, n.storage.lastLogIndexCache, n.lastLogIndex, n.lastLogTerm,
    n.commitIndex, n.lastApplied, n.pendingCallbacks, n.workers, n.executor, n.requests⟩

lemma offElection_saveHardState (n : RaftNode) (term votedFor : ℤ) :
    { n with storage := n.storage.saveHardState term votedFor }.offElection = n.offElection := by
  have hstored : (n.storage.saveHardState term votedFor).offHardState = n.storage.offHardState := by
    funext k
    unfold RocksDBStore.offHardState
    split
    · rfl
    · rename_i hk
      rw [not_or] at hk
      rw [RocksDBStore.get_saveHardState, if_neg hk.2, if_neg hk.1]
  simp only [offElection, hstored]
  rfl

@[simp] lemma offElection_becomeFollower (n : RaftNode) (t : ℤ) :
    (n.becomeFollower t).offElection = n.offElection :=
  (offElection_saveHardState { n with state := .follower, currentTerm := t, votedFor := -1 } t _)

@[simp] lemma offElection_seeTerm (n : RaftNode) (t : ℤ) :
    (n.seeTerm t).offElection = n.offElection := by
  unfold seeTerm
  split
  · exact offElection_becomeFollower n t
  · rfl

@[simp] lemma offElection_becomeLeader (n : RaftNode) :
    n.becomeLeader.offElection = n.offElection := by
  unfold becomeLeader
  split <;> rfl

lemma offElection_handleRequestVote (n : RaftNode) (args : RequestVoteArgs) :
    (n.handleRequestVote args).1.offElection = n.offElection := by
  rcases handleRequestVote_cases n args with h | ⟨-, -, ⟨-, h, -⟩ | h⟩
  · rw [h]
  · rw [h]
    exact (offElection_saveHardState
      { n.seeTerm args.term with votedFor := args.candidateId } _ _).trans (offElection_seeTerm n _)
  · rw [h]
    exact offElection_seeTerm n _

lemma offElection_voteReply (n : RaftNode) (t : ℤ) (r : RequestVoteReply) :
    (n.voteReply t r).offElection = n.offElection := by
  rcases voteReply_cases n t r with h | ⟨-, h⟩ | ⟨-, -, -, ⟨-, h⟩ | ⟨-, h⟩⟩
  · rw [h]
  · rw [h, offElection_becomeFollower]
  · rw [h]
    rfl
  · rw [h, offElection_becomeLeader]
    rfl

/-- The steps of the election thread. -/
lemma Move.offElection {call : ℕ} {a : ThreadStep} {out : Output} (ha : a.ofElection)
    (h : n.Move call a n' out) : n'.offElection = n.offElection := by
  cases h with
  | electionTimeout => rfl
  | startElection => rfl
  | evalHardState => rfl
  | saveHardState => exact offElection_saveHardState n _ _
  | sendRequestVote => rfl
  | _ => exact ha.elim

end RaftNode

/-! ## Steps of elections -/

/-- The steps of an election: those of election threads, and requests for votes and their answers
that arrive. -/
def Label.electoral (s : Cluster) : Label → Prop
  | .thread _ a => a.ofElection
  | .handle k | .reply k => ∀ c ∈ s.calls k, ∃ args, c.request = .requestVote args
  | _ => False

/-- The continuations of a run that only elect. -/
abbrev ElectoralRun (members : List ℤ) : Cluster → List Label → Cluster → Prop :=
  Run (Cluster.step members) Label.electoral

lemma Label.crashFree_of_electoral {l : Label} (hl : l.electoral s) : l.crashFree := by
  cases l with
  | crash => exact hl.elim
  | _ => trivial

/-- What an election keeps: the invariants of all runs, and the nodes off the election. -/
structure OnlyElected (m : Membership) (s t : Cluster) : Prop where
  routed : Routed m t
  elections : ElectionInv m t
  unblocked : Unblocked t
  off : ∀ j, (t.nodes j).offElection = (s.nodes j).offElection

lemma OnlyElected.step {u : Cluster} (h : OnlyElected m s t) {l : Label} (hl : l.electoral t)
    (hstep : Cluster.step m.ids t l = some u) : OnlyElected m s u := by
  have hmove := Cluster.move_of_step hstep
  refine ⟨h.routed.step hmove, h.elections.step h.routed (Label.crashFree_of_electoral hl) hmove,
    h.unblocked.step hmove, fun j => ?_⟩
  have hupdate : ∀ {i : ℤ} {n : RaftNode}, u.nodes = Function.update t.nodes i n →
      n.offElection = (t.nodes i).offElection →
      (u.nodes j).offElection = (s.nodes j).offElection := fun hnodes hn =>
    Cluster.forall_nodes (P := fun j n => n.offElection = (s.nodes j).offElection) hnodes
      (hn.trans (h.off _)) (fun j _ => h.off j) j
  cases hmove with
  | @thread i a n out hi hmove => exact hupdate (i := i) (n := n) (by simp) (hmove.offElection hl)
  | @handle k src dst request alive hcall =>
      obtain ⟨args, rfl⟩ := hl _ hcall
      exact hupdate (i := dst) rfl (RaftNode.offElection_handleRequestVote _ args)
  | @reply k src dst request reply hcall =>
      obtain ⟨args, rfl⟩ := hl _ hcall
      refine hupdate (i := src) rfl ?_
      cases reply with
      | requestVote r => exact RaftNode.offElection_voteReply _ _ r
      | _ => rfl
  | fail => exact hl.elim
  | crash => exact hl.elim

/-! ## Continuations of a cluster -/

namespace Cluster

variable {members : List ℤ} {ok : Cluster → Label → Prop} {a : ThreadStep} {out : Output}
  {req : Request} {P : Cluster → Prop}

lemma step_of_thread (hi : i ∈ members) (h : (s.nodes i).step s.nextCall a = some (n, out)) :
    step members s (.thread i a) =
      some (((s.setNode i n).emit i out).record (threadEvents i a (s.nodes i) n out)) := by
  simp [step, hi, h]

/-- A thread takes a step. -/
lemma canReach_thread (hi : i ∈ members) (h : (s.nodes i).step s.nextCall a = some (n, out))
    (hok : ok s (.thread i a))
    (hnext : ∀ t, step members s (.thread i a) = some t →
      t.nodes = Function.update s.nodes i n → CanReach (step members) ok t P) :
    CanReach (step members) ok s P :=
  .next hok (step_of_thread hi h) (hnext _ (step_of_thread hi h) (by simp))

/-- **A round trip**: a thread of node `i` calls node `p`, the call is handled and the answer
arrives, all at once. -/
lemma canReach_roundTrip (hi : i ∈ members) (hne : p ≠ i)
    (h : (s.nodes i).step s.nextCall a = some (n, .call p req)) (hok : ok s (.thread i a))
    (hcall : ∀ u c, u.calls s.nextCall = some c → c.request = req →
      ok u (.handle s.nextCall) ∧ ok u (.reply s.nextCall)) :
    CanReach (step members) ok s fun t => t.nodes =
      Function.update (Function.update s.nodes i (n.receive p req ((s.nodes p).handle req).2)) p
        ((s.nodes p).handle req).1 := by
  refine .next hok (step_of_thread hi h) ?_
  set u := ((s.setNode i n).emit i (.call p req)).record
    (threadEvents i a (s.nodes i) n (.call p req)) with hu
  have hnodes : u.nodes = Function.update s.nodes i n := by simp [hu]
  have hp : u.nodes p = s.nodes p := by rw [hnodes, Function.update_of_ne hne]
  have hc : u.calls s.nextCall = some ⟨i, p, req, none, true⟩ :=
    emit_calls_self (s := s.setNode i n)
  have hhandle : step members u (.handle s.nextCall) =
      some (((u.setNode p ((s.nodes p).handle req).1).setCall s.nextCall
        (some ⟨i, p, req, some ((s.nodes p).handle req).2, true⟩)).record
          (handleEvents p req ((s.nodes p).handle req).2)) := by
    simp only [step, hc, hp]
  refine .next (hcall u _ hc rfl).1 hhandle ?_
  set v := ((u.setNode p ((s.nodes p).handle req).1).setCall s.nextCall
    (some ⟨i, p, req, some ((s.nodes p).handle req).2, true⟩)).record
      (handleEvents p req ((s.nodes p).handle req).2) with hv
  have hi' : v.nodes i = n := by
    show Function.update u.nodes p _ i = n
    rw [Function.update_of_ne hne.symm, hnodes, Function.update_self]
  have hc' : v.calls s.nextCall = some ⟨i, p, req, some ((s.nodes p).handle req).2, true⟩ :=
    Function.update_self _ _ _
  have hreply : step members v (.reply s.nextCall) =
      some (((v.setNode i (n.receive p req ((s.nodes p).handle req).2)).setCall s.nextCall
        none).record (replyEvents i n (n.receive p req ((s.nodes p).handle req).2))) := by
    simp only [step, hc', hi']
  refine .last (hcall v _ hc' rfl).2 hreply ?_
  show Function.update (Function.update u.nodes p _) i _ = _
  rw [hnodes, Function.update_comm hne, Function.update_idem]

end Cluster

/-! ## The election thread of one node -/

namespace RaftNode

variable {call : ℕ} {saved : SavedElection}

lemma step_electionTimeout (hidle : n.election = .idle) (hstate : n.state ≠ .leader) :
    n.step call .electionTimeout = some ({ n with election := .due }, .none) := by
  simp [step, electionTimeout, quiet, hidle, hstate]

lemma step_startElection (h : n.election = .due) :
    n.step call .startElection = some ({ n with
      state := .candidate
      currentTerm := n.currentTerm + 1
      votedFor := n.config.myId
      election := .started ⟨n.currentTerm + 1, n.lastLogIndex, n.lastLogTerm⟩ }, .none) := by
  simp [step, startElection, quiet, h]

lemma step_evalHardState (h : n.election = .started saved) :
    n.step call .evalHardState =
      some ({ n with election := .evaluated saved n.currentTerm n.votedFor }, .none) := by
  simp [step, evalHardState, quiet, h]

lemma step_saveHardState {term votedFor : ℤ} (h : n.election = .evaluated saved term votedFor) :
    n.step call .saveHardState = some ({ n with
      storage := n.storage.saveHardState term votedFor
      votesReceived := Function.update n.votesReceived saved.term 1
      election := .next saved n.config.peerStubs }, .none) := by
  simp [step, saveHardState, quiet, h]

lemma step_sendRequestVote (call : ℕ) {ts : List ℤ} (h : n.election = .next saved (p :: ts)) :
    n.step call .sendRequestVote = some ({ n with election := .next saved ts },
      .call p (.requestVote
        ⟨saved.term, n.config.myId, saved.lastLogIndex, saved.lastLogTerm⟩)) := by
  rw [ElectionThread.next] at h
  · simp [step, sendRequestVote, h]
  · simp

end RaftNode

/-- How far the election thread is from the end of its election. -/
def RaftNode.electionRank (n : RaftNode) : ℕ :=
  match n.election with
  | .idle => 0
  | .sending _ targets => targets.length + 1
  | .evaluated _ _ _ => n.config.peerStubs.length + 2
  | .started _ => n.config.peerStubs.length + 3
  | .due => n.config.peerStubs.length + 4

lemma RaftNode.electionRank_next {saved : SavedElection} {ts : List ℤ}
    (h : n.election = .next saved ts) : n.electionRank ≤ ts.length + 1 := by
  rw [electionRank, h]
  cases ts with
  | nil => exact Nat.zero_le _
  | cons p ts => exact le_rfl

/-- Node `i` has gone on with elections of its own that nobody has heard of, and has not become a
leader. -/
structure StoodAlone (i : ℤ) (s t : Cluster) : Prop where
  others : ∀ j, j ≠ i → t.nodes j = s.nodes j
  state : (t.nodes i).state ≠ .leader
  term : (s.nodes i).currentTerm ≤ (t.nodes i).currentTerm

namespace StoodAlone

variable {u : Cluster}

lemma refl (h : (s.nodes i).state ≠ .leader) : StoodAlone i s s := ⟨fun _ _ => rfl, h, le_rfl⟩

lemma trans (h : StoodAlone i s t) (h' : StoodAlone i t u) : StoodAlone i s u :=
  ⟨fun j hj => (h'.others j hj).trans (h.others j hj), h'.state, h.term.trans h'.term⟩

/-- After one more step of the node. -/
lemma step (h : StoodAlone i s t) (hnodes : u.nodes = Function.update t.nodes i n)
    (hstate : n.state ≠ .leader) (hterm : (t.nodes i).currentTerm ≤ n.currentTerm) :
    StoodAlone i s u where
  others j hj := by rw [hnodes, Function.update_of_ne hj, h.others j hj]
  state := by rwa [hnodes, Function.update_self]
  term := by
    rw [hnodes, Function.update_self]
    exact h.term.trans hterm

end StoodAlone

namespace Cluster

lemma nodes_update_self (hnodes : t.nodes = Function.update s.nodes i n) : t.nodes i = n := by
  rw [hnodes, Function.update_self]

/-- The election thread can end what it has begun. -/
lemma canReach_idle (hi : i ∈ m.ids) (hu : Unblocked s) (hstate : (s.nodes i).state ≠ .leader) :
    CanReach (step m.ids) Label.electoral s fun t =>
      StoodAlone i s t ∧ (t.nodes i).election = .idle := by
  refine CanReach.of_measure (I := fun t => StoodAlone i s t ∧
    ∀ saved, (t.nodes i).election ≠ .sending saved []) (fun t => (t.nodes i).electionRank) ?_
    ⟨.refl hstate, hu.election i⟩
  rintro t ⟨halone, hne⟩
  -- every step of the thread brings it closer to the end
  have hon : ∀ {a n out}, (t.nodes i).step t.nextCall a = some (n, out) → a.ofElection →
      n.state ≠ .leader → (t.nodes i).currentTerm ≤ n.currentTerm →
      n.electionRank < (t.nodes i).electionRank →
      CanReach (Cluster.step m.ids) Label.electoral t fun u => (StoodAlone i s u ∧
        ∀ saved, (u.nodes i).election ≠ .sending saved []) ∧
          (u.nodes i).electionRank < (t.nodes i).electionRank := by
    intro a n out hstep ha hstate' hterm hlt
    refine canReach_thread hi hstep ha fun u _ hnodes => .here ⟨⟨halone.step hnodes hstate' hterm,
      ?_⟩, by rwa [nodes_update_self hnodes]⟩
    rw [nodes_update_self hnodes]
    exact (RaftNode.move_of_step hstep).election_ne hne
  cases hel : (t.nodes i).election with
  | idle => exact .inl ⟨halone, rfl⟩
  | due =>
      refine .inr (hon (RaftNode.step_startElection hel) trivial (by simp) (by simp) ?_)
      simp [RaftNode.electionRank, hel]
  | started saved =>
      refine .inr (hon (RaftNode.step_evalHardState hel) trivial halone.state le_rfl ?_)
      simp [RaftNode.electionRank, hel]
  | evaluated saved term votedFor =>
      refine .inr (hon (RaftNode.step_saveHardState hel) trivial halone.state le_rfl ?_)
      refine (RaftNode.electionRank_next rfl).trans_lt ?_
      simp [RaftNode.electionRank, hel]
  | sending saved targets =>
      cases targets with
      | nil => exact absurd hel (hne saved)
      | cons p targets =>
          refine .inr (hon (RaftNode.step_sendRequestVote _ hel) trivial halone.state le_rfl ?_)
          refine (RaftNode.electionRank_next rfl).trans_lt ?_
          simp [RaftNode.electionRank, hel]

/-- The timer of a node that is not a leader can fire, which raises its term. -/
lemma canReach_raise (hi : i ∈ m.ids) (hu : Unblocked s) (hstate : (s.nodes i).state ≠ .leader)
    (hidle : (s.nodes i).election = .idle) :
    CanReach (step m.ids) Label.electoral s fun t =>
      (StoodAlone i s t ∧ (t.nodes i).election = .idle) ∧
        (s.nodes i).currentTerm < (t.nodes i).currentTerm := by
  refine canReach_thread hi (RaftNode.step_electionTimeout hidle hstate) trivial fun t hs ht => ?_
  have hnode := nodes_update_self ht
  have halone : StoodAlone i s t := (StoodAlone.refl hstate).step ht hstate le_rfl
  refine canReach_thread hi (RaftNode.step_startElection (by rw [hnode])) trivial
    fun u hs' hu' => ?_
  have hnode' := nodes_update_self hu'
  have halone' : StoodAlone i s u := halone.step hu' (by simp) (by simp)
  have hunblocked := (hu.step (move_of_step hs)).step (move_of_step hs')
  refine (canReach_idle hi hunblocked halone'.state).imp fun v hv =>
    ⟨⟨halone'.trans hv.1, hv.2⟩, ?_⟩
  have hterm := hv.1.term
  rw [hnode', hnode] at hterm
  exact lt_of_lt_of_le (lt_add_one _) hterm

/-- So it can get to any term. -/
lemma canReach_term (hi : i ∈ m.ids) (hu : Unblocked s) (hstate : (s.nodes i).state ≠ .leader)
    (T : ℤ) :
    CanReach (step m.ids) Label.electoral s fun t =>
      (StoodAlone i s t ∧ (t.nodes i).election = .idle) ∧ T ≤ (t.nodes i).currentTerm := by
  have hstep : ∀ (t : Cluster) l u, Unblocked t → Label.electoral t l →
      step m.ids t l = some u → Unblocked u := fun t l u ht _ hs => ht.step (move_of_step hs)
  refine ((canReach_idle hi hu hstate).keeping hu hstep).trans fun t ht => ?_
  refine CanReach.of_measure (I := fun u => Unblocked u ∧ StoodAlone i s u ∧
    (u.nodes i).election = .idle) (fun u => (T - (u.nodes i).currentTerm).toNat) ?_ ht
  rintro u ⟨hunblocked, halone, hidle⟩
  by_cases hT : T ≤ (u.nodes i).currentTerm
  · exact .inl ⟨⟨halone, hidle⟩, hT⟩
  · refine .inr ?_
    refine ((canReach_raise hi hunblocked halone.state hidle).keeping hunblocked hstep).imp ?_
    rintro v ⟨hv, ⟨halone', hidle'⟩, hlt⟩
    exact ⟨⟨hv, halone.trans halone', hidle'⟩, by omega⟩

end Cluster

/-! ## Asking everybody -/

/-- The log that `saved` tells of is as up to date as those of all other members. -/
def Ahead (m : Membership) (s : Cluster) (i : ℤ) (saved : SavedElection) : Prop :=
  ∀ p ∈ m.ids, p ≠ i → (s.nodes p).isLogUpToDate
    ⟨saved.term, i, saved.lastLogIndex, saved.lastLogTerm⟩

/-- What `becomeLeader` leaves: nothing is known about any peer. -/
def RaftNode.KnowsNothing (n : RaftNode) : Prop :=
  ∀ p ∈ n.config.peers, n.nextIndex p = n.lastLogIndex + 1 ∧ n.matchIndex p = 0

/-- Node `i` stands in the term of `saved` and has still to ask `ts`.  The others have followed. -/
structure Polling (m : Membership) (s : Cluster) (i : ℤ) (saved : SavedElection) (ts : List ℤ)
    (t : Cluster) : Prop where
  election : (t.nodes i).election = .next saved ts
  config : (t.nodes i).config = m.config i
  term : (t.nodes i).currentTerm = saved.term
  nodup : ts.Nodup
  targets : ∀ p ∈ ts, p ∈ m.ids ∧ p ≠ i
  waiting : ∀ p ∈ ts, t.nodes p = s.nodes p
  asked : ∀ p ∈ m.ids, p ≠ i → p ∉ ts →
    (t.nodes p).state = .follower ∧ (t.nodes p).currentTerm = saved.term
  role : (t.nodes i).state = .leader ∧ (t.nodes i).KnowsNothing ∨
    (t.nodes i).state = .candidate ∧ (Ahead m s i saved →
      (t.nodes i).votesReceived saved.term + ts.length = m.ids.length ∧
        (t.nodes i).votesReceived saved.term < (m.config i).votesNeeded)

namespace RaftNode

/-- A node follows a candidate of a newer term, and votes for it if its log is up to date. -/
lemma handleRequestVote_newer (args : RequestVoteArgs) (h : n.currentTerm < args.term) :
    (n.handleRequestVote args).1.state = .follower ∧
      (n.handleRequestVote args).1.currentTerm = args.term ∧
      ∃ granted, (n.handleRequestVote args).2 = ⟨args.term, granted⟩ ∧
        (n.isLogUpToDate args → granted = true) := by
  have hsee : n.seeTerm args.term = n.becomeFollower args.term := if_pos h
  unfold handleRequestVote
  rw [if_neg (not_lt.mpr h.le), hsee]
  dsimp only
  split
  · exact ⟨rfl, rfl, true, rfl, fun _ => rfl⟩
  · rename_i hno
    exact ⟨rfl, rfl, false, rfl, fun hup => absurd ⟨.inl rfl, hup⟩ hno⟩

/-- The answer of a peer in the candidate's term is counted if it grants the vote. -/
lemma voteReply_granted (hstate : n.state = .candidate) (hterm : n.currentTerm = T) :
    n.voteReply T ⟨T, true⟩ =
      if n.votesReceived T + 1 = n.config.votesNeeded then (n.countVote T).becomeLeader
      else n.countVote T := by
  subst hterm
  simp [voteReply, hstate, countVote]

lemma voteReply_refused (hterm : n.currentTerm = T) : n.voteReply T ⟨T, false⟩ = n := by
  subst hterm
  simp [voteReply]

lemma voteReply_leader {r : RequestVoteReply} (hstate : n.state = .leader) :
    n.voteReply T r = n := by
  simp [voteReply, hstate]

lemma knowsNothing_becomeLeader (hstate : n.state = .candidate) :
    n.becomeLeader.KnowsNothing := by
  rw [becomeLeader_eq hstate]
  intro p hp
  exact ⟨if_pos hp, if_pos hp⟩

end RaftNode

namespace Polling

variable {saved : SavedElection} {ts : List ℤ}

/-- The node with the answer of a peer: what changes is its role and the count. -/
lemma receive (h : Polling m s i saved (p :: ts) t) {granted : Bool}
    (hgrant : Ahead m s i saved → granted = true)
    (hn : n = RaftNode.voteReply { t.nodes i with election := .next saved ts } saved.term
      ⟨saved.term, granted⟩) :
    n.election = .next saved ts ∧ n.config = m.config i ∧ n.currentTerm = saved.term ∧
      (n.state = .leader ∧ n.KnowsNothing ∨ n.state = .candidate ∧ (Ahead m s i saved →
        n.votesReceived saved.term + ts.length = m.ids.length ∧
          n.votesReceived saved.term < (m.config i).votesNeeded)) := by
  have hterm := h.term
  rcases h.role with ⟨hlead, hknows⟩ | ⟨hcand, hvotes⟩
  · rw [RaftNode.voteReply_leader (by exact hlead)] at hn
    subst hn
    exact ⟨rfl, h.config, hterm, .inl ⟨hlead, hknows⟩⟩
  cases granted with
  | false =>
      rw [RaftNode.voteReply_refused (by exact hterm)] at hn
      subst hn
      exact ⟨rfl, h.config, hterm, .inr ⟨hcand, fun hahead => by cases hgrant hahead⟩⟩
  | true =>
      rw [RaftNode.voteReply_granted (by exact hcand) (by exact hterm)] at hn
      split at hn
      · obtain ⟨hstate, hterm', -, hconfig, helection, -⟩ := RaftNode.becomeLeader_spec
          (n := RaftNode.countVote { t.nodes i with election := .next saved ts } saved.term) hcand
        subst hn
        exact ⟨helection, hconfig.trans h.config, hterm'.trans hterm,
          .inl ⟨hstate, RaftNode.knowsNothing_becomeLeader hcand⟩⟩
      · rename_i hneed
        subst hn
        refine ⟨rfl, h.config, hterm, .inr ⟨hcand, fun hahead => ?_⟩⟩
        obtain ⟨hsum, hlt⟩ := hvotes hahead
        rw [List.length_cons] at hsum
        have hcount : (RaftNode.countVote { t.nodes i with election := .next saved ts }
            saved.term).votesReceived saved.term = (t.nodes i).votesReceived saved.term + 1 :=
          Function.update_self _ _ _
        rw [hcount]
        have hne : (t.nodes i).votesReceived saved.term + 1 ≠ (m.config i).votesNeeded := by
          rw [← h.config]
          exact hneed
        omega

/-- **One more peer is asked.** -/
lemma ask (hi : i ∈ m.ids)
    (hlow : ∀ q ∈ m.ids, q ≠ i → (s.nodes q).currentTerm < saved.term)
    (h : Polling m s i saved (p :: ts) t) :
    CanReach (Cluster.step m.ids) Label.electoral t (Polling m s i saved ts) := by
  obtain ⟨hp, hpi⟩ := h.targets p List.mem_cons_self
  have hwait : t.nodes p = s.nodes p := h.waiting p List.mem_cons_self
  have hnot : p ∉ ts := (List.nodup_cons.mp h.nodup).1
  have hmyId : (t.nodes i).config.myId = i := by
    rw [h.config]
    rfl
  have hsend := RaftNode.step_sendRequestVote t.nextCall h.election
  rw [hmyId] at hsend
  refine (Cluster.canReach_roundTrip hi hpi hsend trivial fun u c hc hreq => ?_).imp fun u hu => ?_
  · have hasks : ∀ c' ∈ u.calls t.nextCall, ∃ args, c'.request = .requestVote args := by
      intro c' hc'
      obtain rfl : c = c' := Option.some.inj (hc.symm.trans hc')
      exact ⟨_, hreq⟩
    exact ⟨hasks, hasks⟩
  have hnewer : (t.nodes p).currentTerm < saved.term := by
    rw [hwait]
    exact hlow p hp hpi
  obtain ⟨hfollower, hterm, granted, hreply, hgrant⟩ := RaftNode.handleRequestVote_newer
    ⟨saved.term, i, saved.lastLogIndex, saved.lastLogTerm⟩ hnewer
  have hup : u.nodes p = ((t.nodes p).handleRequestVote
      ⟨saved.term, i, saved.lastLogIndex, saved.lastLogTerm⟩).1 := by
    rw [hu, Function.update_self]
    rfl
  have hui : u.nodes i = RaftNode.voteReply { t.nodes i with election := .next saved ts } saved.term
      ⟨saved.term, granted⟩ := by
    rw [hu, Function.update_of_ne hpi.symm, Function.update_self, ← hreply]
    rfl
  have huq : ∀ q, q ≠ i → q ≠ p → u.nodes q = t.nodes q := fun q hqi hqp => by
    rw [hu, Function.update_of_ne hqp, Function.update_of_ne hqi]
  obtain ⟨helection, hconfig, hterm', hrole⟩ := h.receive
    (fun hahead => hgrant (by rw [hwait]; exact hahead p hp hpi)) hui
  refine ⟨helection, hconfig, hterm', (List.nodup_cons.mp h.nodup).2,
    fun q hq => h.targets q (List.mem_cons_of_mem p hq), fun q hq => ?_, fun q hq hqi hqts => ?_,
    hrole⟩
  · have hqp : q ≠ p := fun heq => hnot (heq ▸ hq)
    rw [huq q (h.targets q (List.mem_cons_of_mem p hq)).2 hqp]
    exact h.waiting q (List.mem_cons_of_mem p hq)
  · by_cases hqp : q = p
    · subst hqp
      rw [hup]
      exact ⟨hfollower, hterm⟩
    · rw [huq q hqi hqp]
      exact h.asked q hq hqi fun hmem => (List.mem_cons.mp hmem).elim hqp hqts

/-- When everybody has been asked, a node whose log is up to date is the leader. -/
lemma leads (h : Polling m s i saved [] t) (hm : 2 ≤ m.ids.length) (hahead : Ahead m s i saved) :
    (t.nodes i).state = .leader ∧ (t.nodes i).KnowsNothing := by
  refine h.role.resolve_right fun ⟨_, hvotes⟩ => ?_
  obtain ⟨hsum, hlt⟩ := hvotes hahead
  rw [List.length_nil, add_zero] at hsum
  rw [hsum, ClusterConfig.votesNeeded, Membership.config] at hlt
  dsimp only at hlt
  omega

end Polling

/-- There is a stub for each other member. -/
lemma Membership.length_peerStubs (hi : i ∈ m.ids) :
    (m.config i).peerStubs.length + 1 = m.ids.length := by
  have hstubs : (m.config i).peerStubs = m.ids.erase i := by
    rw [ClusterConfig.peerStubs, m.nodup.erase_eq_filter]
    exact (m.nodup.filter _).dedup.trans (List.filter_congr fun p _ => by
      rw [Bool.eq_iff_iff, bne_iff_ne]
      exact decide_eq_true_iff)
  rw [hstubs, List.length_erase_of_mem hi]
  have := List.length_pos_of_mem hi
  omega

namespace Cluster

/-- The election a node stands for next. -/
def nextElection (s : Cluster) (i : ℤ) : SavedElection :=
  ⟨(s.nodes i).currentTerm + 1, (s.nodes i).lastLogIndex, (s.nodes i).lastLogTerm⟩

/-- **A node that is not a leader and has the latest term can make all others follow.** -/
theorem canReach_poll (hi : i ∈ m.ids) (hr : Routed m s) (hstate : (s.nodes i).state ≠ .leader)
    (hidle : (s.nodes i).election = .idle)
    (hle : ∀ q ∈ m.ids, q ≠ i → (s.nodes q).currentTerm ≤ (s.nodes i).currentTerm) :
    CanReach (step m.ids) Label.electoral s (Polling m s i (s.nextElection i) []) := by
  refine canReach_thread hi (RaftNode.step_electionTimeout hidle hstate) trivial
    fun t₁ _ h₁ => ?_
  have hn₁ := nodes_update_self h₁
  refine canReach_thread hi (RaftNode.step_startElection (by rw [hn₁])) trivial
    fun t₂ _ h₂ => ?_
  have hn₂ := nodes_update_self h₂
  rw [hn₁] at hn₂
  refine canReach_thread hi (RaftNode.step_evalHardState (by rw [hn₂])) trivial
    fun t₃ _ h₃ => ?_
  have hn₃ := nodes_update_self h₃
  rw [hn₂] at hn₃
  refine canReach_thread hi (RaftNode.step_saveHardState (by rw [hn₃])) trivial
    fun t₄ _ h₄ => ?_
  have hn₄ := nodes_update_self h₄
  rw [hn₃] at hn₄
  have hothers : ∀ q, q ≠ i → t₄.nodes q = s.nodes q := fun q hq => by
    rw [h₄, Function.update_of_ne hq, h₃, Function.update_of_ne hq, h₂, Function.update_of_ne hq,
      h₁, Function.update_of_ne hq]
  have hconfig : (s.nodes i).config = m.config i := (hr.nodes i).config
  have hstart : Polling m s i (s.nextElection i) (m.config i).peerStubs t₄ :=
    { election := by rw [hn₄, ← hconfig]; rfl
      config := by rw [hn₄]; exact hconfig
      term := by rw [hn₄]; rfl
      nodup := List.nodup_dedup _
      targets := fun p hp => Membership.mem_peerStubs.mp hp
      waiting := fun p hp => hothers p (Membership.mem_peerStubs.mp hp).2
      asked := fun p hp hpi hnot => absurd (Membership.mem_peerStubs.mpr ⟨hp, hpi⟩) hnot
      role := by
        rw [hn₄]
        refine .inr ⟨rfl, fun _ => ?_⟩
        have hlen := m.length_peerStubs hi
        have hone : Function.update (s.nodes i).votesReceived ((s.nodes i).currentTerm + 1) 1
            ((s.nodes i).currentTerm + 1) = 1 := Function.update_self _ _ _
        show Function.update (s.nodes i).votesReceived _ 1 _ + _ = _ ∧
          Function.update (s.nodes i).votesReceived _ 1 _ < _
        rw [nextElection, hone, ClusterConfig.votesNeeded, Membership.config]
        rw [Membership.config] at hlen
        dsimp only at hlen ⊢
        omega }
  refine CanReach.forall_tasks (I := Polling m s i (s.nextElection i))
    (fun p ts t h => h.ask hi fun q hq hqi => ?_) _ hstart
  exact Int.lt_add_one_of_le (hle q hq hqi)

end Cluster

/-! ## A leader of a new term -/

/-- A leader has the vote of another node, which cannot lead an earlier term.  So not all members
are leaders. -/
lemma ElectionInv.exists_not_leader (hinv : ElectionInv m s) (hm : 2 ≤ m.ids.length) :
    ∃ i ∈ m.ids, (s.nodes i).state ≠ .leader := by
  by_contra hall
  push Not at hall
  have hne : m.ids.toFinset.Nonempty := by
    rw [List.toFinset_nonempty_iff]
    rintro h
    rw [h] at hm
    cases hm
  obtain ⟨x, hx, hmax⟩ := m.ids.toFinset.exists_max_image (fun i => (s.nodes i).currentTerm) hne
  rw [List.mem_toFinset] at hx
  have hwon := hinv.voting.leader_won x (by simp [Cluster.voting, hall x hx, Role.phase])
  obtain ⟨A, ⟨hA, hcard⟩, hvotes⟩ := hinv.voting.won_quorum x _ hwon
  obtain ⟨w, hw, hwx⟩ : ∃ w ∈ A, w ≠ x := by
    by_contra hno
    push Not at hno
    have := Finset.card_le_one_iff.mpr fun {a b} ha hb => (hno a ha).trans (hno b hb).symm
    omega
  have hwm := hA hw
  have hle := hinv.voting.votes_le w _ x (hvotes w hw).1
  have heq : (s.nodes w).currentTerm = (s.nodes x).currentTerm := le_antisymm (hmax w hwm) hle
  have hwon' := hinv.voting.leader_won w
    (by simp [Cluster.voting, hall w (List.mem_toFinset.mp hwm), Role.phase])
  have hsame : s.voting.term w = s.voting.term x := heq
  rw [hsame] at hwon'
  exact hwx (hinv.voting.won_unique w x _ hwon' hwon)

/-- Node `i` leads a term that is later than all terms of `s`; the others follow it, and nothing but
elections has moved. -/
structure NewLeader (m : Membership) (s : Cluster) (i : ℤ) (t : Cluster) : Prop where
  mem : i ∈ m.ids
  state : (t.nodes i).state = .leader
  newer : ∀ j ∈ m.ids, (s.nodes j).currentTerm < (t.nodes i).currentTerm
  others : ∀ j ∈ m.ids, j ≠ i →
    (t.nodes j).state = .follower ∧ (t.nodes j).currentTerm = (t.nodes i).currentTerm
  off : ∀ j, (t.nodes j).offElection = (s.nodes j).offElection

lemma OnlyElected.refl (hr : Routed m s) (hinv : ElectionInv m s) (hu : Unblocked s) :
    OnlyElected m s s :=
  ⟨hr, hinv, hu, fun _ => rfl⟩

namespace Cluster

/-- A node that is not a leader can get all others to follow it, in a term later than `T`. -/
lemma canReach_followed (hi : i ∈ m.ids) (hk : OnlyElected m s t)
    (hstate : (t.nodes i).state ≠ .leader)
    (hT : ∀ q ∈ m.ids, (t.nodes q).currentTerm ≤ T) :
    CanReach (step m.ids) Label.electoral t fun u => OnlyElected m s u ∧ ∃ v, OnlyElected m s v ∧
      StoodAlone i t v ∧ T < (u.nodes i).currentTerm ∧ Polling m v i (v.nextElection i) [] u := by
  have hstep : ∀ (t : Cluster) l u, OnlyElected m s t → Label.electoral t l →
      step m.ids t l = some u → OnlyElected m s u := fun t l u hk hl hs => hk.step hl hs
  refine ((canReach_term hi hk.unblocked hstate T).keeping hk hstep).trans ?_
  rintro v ⟨hkv, ⟨halone, hidle⟩, hTv⟩
  have hle : ∀ q ∈ m.ids, q ≠ i → (v.nodes q).currentTerm ≤ (v.nodes i).currentTerm := by
    intro q hq hqi
    rw [halone.others q hqi]
    exact (hT q hq).trans hTv
  refine ((canReach_poll hi hkv.routed halone.state hidle hle).keeping hkv hstep).imp ?_
  rintro u ⟨hku, hpoll⟩
  refine ⟨hku, v, hkv, halone, ?_, hpoll⟩
  rw [hpoll.term, nextElection]
  exact Int.lt_add_one_of_le hTv

/-- **A leader can be elected** where the invariants hold. -/
theorem canReach_elected (hm : 2 ≤ m.ids.length) (hr : Routed m s) (hinv : ElectionInv m s)
    (hu : Unblocked s) :
    CanReach (step m.ids) Label.electoral s fun t =>
      OnlyElected m s t ∧ ∃ i, NewLeader m s i t ∧ (t.nodes i).KnowsNothing := by
  have hk : OnlyElected m s s := .refl hr hinv hu
  have hne : m.ids.toFinset.Nonempty := by
    rw [List.toFinset_nonempty_iff]
    rintro h
    rw [h] at hm
    cases hm
  obtain ⟨x, -, hmax⟩ := m.ids.toFinset.exists_max_image (fun i => (s.nodes i).currentTerm) hne
  obtain ⟨z, hz, hlast⟩ := m.ids.toFinset.exists_max_image
    (fun i => toLex ((s.nodes i).lastLogTerm, (s.nodes i).lastLogIndex)) hne
  rw [List.mem_toFinset] at hz
  -- one node that is not a leader makes all others followers
  obtain ⟨y, hy, hstate⟩ := hinv.exists_not_leader hm
  refine (canReach_followed hy hk hstate
    fun q hq => hmax q (List.mem_toFinset.mpr hq)).trans ?_
  rintro t ⟨hkt, v, hkv, halone, hlt, hpoll⟩
  have hnewer : ∀ j ∈ m.ids, (s.nodes j).currentTerm < (t.nodes y).currentTerm := fun j hj =>
    (hmax j (List.mem_toFinset.mpr hj)).trans_lt hlt
  have hfollow : ∀ j ∈ m.ids, j ≠ y →
      (t.nodes j).state = .follower ∧ (t.nodes j).currentTerm = (t.nodes y).currentTerm := by
    intro j hj hjy
    rw [hpoll.term]
    exact hpoll.asked j hj hjy (by simp)
  rcases hpoll.role with ⟨hlead, hknows⟩ | ⟨hcand, -⟩
  · exact .here ⟨hkt, y, ⟨hy, hlead, hnewer, hfollow, hkt.off⟩, hknows⟩
  · -- now nobody leads, and the node with the most up-to-date log gets all votes
    have hzstate : (t.nodes z).state ≠ .leader := by
      by_cases hzy : z = y
      · subst hzy
        simp [hcand]
      · simp [(hfollow z hz hzy).1]
    have hterms : ∀ q ∈ m.ids, (t.nodes q).currentTerm ≤ (t.nodes y).currentTerm := by
      intro q hq
      by_cases hqy : q = y
      · rw [hqy]
      · exact (hfollow q hq hqy).2.le
    refine (canReach_followed hz hkt hzstate hterms).imp ?_
    rintro u ⟨hku, w, hkw, -, hlt', hpoll'⟩
    have hoff : ∀ q, (w.nodes q).lastLogTerm = (s.nodes q).lastLogTerm ∧
        (w.nodes q).lastLogIndex = (s.nodes q).lastLogIndex := fun q =>
      ⟨congrArg OffElection.lastLogTerm (hkw.off q), congrArg OffElection.lastLogIndex (hkw.off q)⟩
    have hahead : Ahead m w z (w.nextElection z) := by
      intro q hq _
      have hle := Prod.Lex.le_iff.mp (hlast q (List.mem_toFinset.mpr hq))
      simp only [RaftNode.isLogUpToDate, nextElection, hoff]
      exact hle.imp id fun h => ⟨h.1.symm, h.2⟩
    obtain ⟨hlead, hknows⟩ := hpoll'.leads hm hahead
    refine ⟨hku, z, ⟨hz, hlead, fun j hj => (hnewer j hj).trans hlt', fun j hj hjz => ?_, hku.off⟩,
      hknows⟩
    rw [hpoll'.term]
    exact hpoll'.asked j hj hjz (by simp)

end Cluster

/-! ## Clusters of one node -/

lemma RaftNode.handle_not_leader (hn : n.state ≠ .leader) (req : Request) :
    (n.handle req).1.state ≠ .leader := by
  have hfollow : ∀ {v : ElectionView}, (n.handle req).1.electionView = v → v.state ≠ .leader →
      (n.handle req).1.state ≠ .leader := fun hv h => by
    rwa [← hv] at h
  cases req with
  | requestVote args =>
      have hsee : (n.seeTerm args.term).state ≠ .leader := by
        rcases seeTerm_cases n args.term with ⟨h, -⟩ | ⟨-, h⟩
        · rwa [h]
        · rw [h]
          simp [becomeFollower]
      rcases handleRequestVote_cases n args with h | ⟨-, -, ⟨-, h, -⟩ | h⟩
      · rwa [handle, h]
      · rwa [handle, h]
      · rwa [handle, h]
  | appendEntries args =>
      rcases handleAppendEntries_view n args with h | ⟨hle, h⟩
      · rwa [handle, h]
      · rcases acceptLeader_view n args.term args.leaderId hle with ⟨hv, -⟩ | ⟨hv, -⟩
        · exact hfollow (h.trans hv) hn
        · exact hfollow (h.trans hv) (by simp [ElectionView.follow])
  | installSnapshot args =>
      rcases handleInstallSnapshot_view n args with h | ⟨-, h⟩
      · exact hfollow h hn
      · exact hfollow h (by simp [ElectionView.follow])

lemma RaftNode.Move.not_leader {call : ℕ} {a : ThreadStep} {out : Output}
    (h : n.Move call a n' out) (hn : n.state ≠ .leader) : n'.state ≠ .leader := by
  cases h with
  | startElection => simp
  | _ => exact hn

/-- **A cluster of one node gets no leader**: there is nobody to ask for a second vote. -/
lemma Routed.no_leader_step (hr : Routed m s) (hm : m.ids.length < 2)
    (hno : ∀ j, (s.nodes j).state ≠ .leader) {l : Label} (hmove : s.Move m.ids l t) :
    ∀ j, (t.nodes j).state ≠ .leader := by
  have hupdate : ∀ {i : ℤ} {n : RaftNode}, t.nodes = Function.update s.nodes i n →
      n.state ≠ .leader → ∀ j, (t.nodes j).state ≠ .leader := fun hnodes hn =>
    Cluster.forall_nodes (P := fun _ n => n.state ≠ .leader) hnodes hn fun j _ => hno j
  cases hmove with
  | @thread i a n out hi hmove =>
      exact hupdate (i := i) (n := n) (by simp) (hmove.not_leader (hno i))
  | @handle k src dst request alive hcall =>
      exact hupdate (i := dst) rfl (RaftNode.handle_not_leader (hno dst) request)
  | @reply k src dst request reply hcall =>
      obtain ⟨hsrc, hdst, hne, -⟩ := hr.calls k _ hcall
      rcases hids : m.ids with _ | ⟨a, _ | ⟨b, l⟩⟩
      · rw [hids] at hsrc
        cases hsrc
      · rw [hids, List.mem_singleton] at hsrc hdst
        exact absurd (hdst.trans hsrc.symm) hne
      · rw [hids] at hm
        simp at hm
  | @fail k src dst request reply hcall =>
      refine hupdate (i := src) rfl ?_
      rw [(RaftNode.electionView_inj (RaftNode.abandon_view (s.nodes src) dst request)).2.1]
      exact hno src
  | @crash i hi =>
      refine hupdate (i := i) rfl ?_
      simp [RaftNode.restart, RaftNode.new]

/-- **From every state that a run without crashes reaches, elections alone can lead to a leader of a
new term, exactly if there are two nodes at least.** -/
theorem leader_electable (m : Membership) (stores : ℤ → RocksDBStore) {ls : List Label}
    (hrun : CrashFreeRun m.ids (.init m.ids stores) ls s) :
    (∃ ks t i, ElectoralRun m.ids s ks t ∧ NewLeader m s i t) ↔ 2 ≤ m.ids.length := by
  constructor
  · rintro ⟨ks, t, i, hks, hlead⟩
    by_contra hm
    -- no step of the whole run makes a leader
    have hinv : ∀ (t : Cluster) (l : Label) (u : Cluster),
        Routed m t ∧ (∀ j, (t.nodes j).state ≠ .leader) → True → Cluster.step m.ids t l = some u →
          Routed m u ∧ ∀ j, (u.nodes j).state ≠ .leader := fun t l u h _ hs =>
      ⟨h.1.step (Cluster.move_of_step hs),
        h.1.no_leader_step (not_le.mp hm) h.2 (Cluster.move_of_step hs)⟩
    have hall := (Run.append (hrun.mono fun _ _ _ => trivial) (hks.mono fun _ _ _ => trivial)
      ).invariant ⟨routed_init stores, fun j => by simp [Cluster.init, RaftNode.new]⟩ hinv
    exact hall.2 i hlead.state
  · intro hm
    obtain ⟨hr, hinv⟩ := (electionInv_init stores).run (routed_init stores) hrun
    have hu : Unblocked s := hrun.invariant (unblocked_init stores) fun t l u ht _ hs =>
      ht.step (m := m) (Cluster.move_of_step hs)
    obtain ⟨ks, t, hks, -, i, hlead, -⟩ := Cluster.canReach_elected hm hr hinv hu
    exact ⟨ks, t, i, hks, hlead⟩

/-- When node `1` of a cluster of two leads and node `2` has just timed out, another leader can be
elected. -/
theorem leader_electable_pair :
    ∃ s, CrashFreeRun pair.ids (.init pair.ids fun _ => RocksDBStore.genesis)
        (campaign 1 1 ++ [.handle 0, .reply 0, .thread 2 .electionTimeout]) s ∧
      (s.nodes 1).state = .leader ∧
      ∃ ks t i, ElectoralRun pair.ids s ks t ∧ NewLeader pair s i t := by
  have hruns : ∃ s, CrashFreeRun pair.ids (.init pair.ids fun _ => RocksDBStore.genesis)
      (campaign 1 1 ++ [.handle 0, .reply 0, .thread 2 .electionTimeout]) s ∧
        (s.nodes 1).state = .leader :=
    run_of_after (by decide +kernel)
  obtain ⟨s, hrun, hlead⟩ := hruns
  exact ⟨s, hrun, hlead, (leader_electable pair _ hrun).mpr (by decide)⟩

end RaftConsensus
