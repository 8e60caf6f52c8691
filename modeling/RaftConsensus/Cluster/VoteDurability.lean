import RaftConsensus.Cluster.ElectionSafety
import RaftConsensus.Storage.SnapshotTransfer

/-!
# Votes are durable

A node that has granted its vote in a term must remember that across a crash.  All writes of the
hard state are made under the lock together with the change they record, except one: the
election thread evaluates `(currentTerm_, votedFor_)` and writes the pair later, when the node may
have moved on and stored something newer.  The other way to lose a vote is a snapshot whose text
contains a line that reads as one of the keys of the hard state.

In every run, with crashes, in which no late write replaces a newer hard state and no installed
snapshot contains such a line (`Careful`), a granted vote stays stored until the stored term
passes it, and no second vote is granted in its term (`votes_durable`).
-/

namespace RaftConsensus

open Bytes

variable {m : Membership} {s t : Cluster} {i : ℤ} {n n' : RaftNode} {h h' : List Event}

/-! ## The hard state under each step -/

namespace RaftNode

/-- What a node would load after a crash. -/
def stored (n : RaftNode) : ℤ × ℤ := n.storage.loadHardState

/-- A thread step other than the late write leaves the stored hard state alone. -/
lemma Move.stored {call : ℕ} {a : ThreadStep} {out : Output} (ha : a ≠ .saveHardState)
    (hmove : n.Move call a n' out) : n'.stored = n.stored := by
  cases hmove with
  | saveHardState => exact absurd rfl ha
  | appendRequest => exact RocksDBStore.loadHardState_appendLog
  | applyEntry => exact RocksDBStore.loadHardState_applyTransaction
  | compactIfDue =>
      unfold RaftNode.stored
      dsimp only
      split
      · exact RocksDBStore.loadHardState_compactLog
      · rfl
  | _ => rfl

lemma stored_appendEntry (n : RaftNode) (j : ℤ) (e : LogEntry) :
    (n.appendEntry j e).stored = n.stored := by
  unfold appendEntry stored
  split
  · split
    · simp
    · rfl
  · simp

lemma stored_appendLoop (es : List LogEntry) :
    ∀ (n : RaftNode) (j : ℤ), (n.appendLoop j es).stored = n.stored := by
  induction es with
  | nil => exact fun _ _ => rfl
  | cons e es ih =>
      intro n j
      rw [appendLoop, ih, stored_appendEntry]

lemma stored_followCommit (n : RaftNode) (c : ℤ) : (n.followCommit c).stored = n.stored := by
  unfold followCommit
  split <;> rfl

/-- The lines of a snapshot do not name the hard state. -/
def SparesHardState (data : Bytes) : Prop :=
  ∀ p ∈ pairLines data, p.1 ≠ termKey ∧ p.1 ≠ voteKey

instance (data : Bytes) : Decidable (SparesHardState data) :=
  inferInstanceAs (Decidable (∀ p ∈ pairLines data, _))

lemma stored_installSnapshot (n : RaftNode) {args : InstallSnapshotArgs}
    (hdata : SparesHardState args.data) : (n.installSnapshot args).stored = n.stored := by
  have hterm : termKey ≠ lastAppliedKey ∧ termKey ≠ snapshotIndexKey ∧
      termKey ≠ snapshotTermKey := by decide
  have hvote : voteKey ≠ lastAppliedKey ∧ voteKey ≠ snapshotIndexKey ∧
      voteKey ≠ snapshotTermKey := by decide
  unfold stored installSnapshot
  rw [RocksDBStore.loadHardState_appendLog, RocksDBStore.loadHardState_truncateLog]
  refine RocksDBStore.loadHardState_congr ?_ ?_
  · refine RocksDBStore.get_applySnapshot_of_notMem (by decide) ?_ fun p hp => (hdata p hp).1
    rintro (h | h | h)
    · exact hterm.1 h
    · exact hterm.2.1 h
    · exact hterm.2.2 h
  · refine RocksDBStore.get_applySnapshot_of_notMem (by decide) ?_ fun p hp => (hdata p hp).2
    rintro (h | h | h)
    · exact hvote.1 h
    · exact hvote.2.1 h
    · exact hvote.2.2 h

/-- What a step can do to the vote of a node, in RAM and in the store, other than voting: nothing;
a step down to a newer term, or out of candidacy or leadership in the same term. -/
def Still (n n' : RaftNode) : Prop :=
  n'.state = n.state ∧ n'.currentTerm = n.currentTerm ∧ n'.votedFor = n.votedFor ∧
    n'.stored = n.stored

def Follows (n n' : RaftNode) : Prop :=
  ∃ T, (n.currentTerm < T ∨ n.currentTerm = T ∧ n.state ≠ .follower) ∧ n'.state = .follower ∧
    n'.currentTerm = T ∧ n'.votedFor = -1 ∧ n'.stored = (T, -1)

lemma still_of_view (hview : n'.electionView = n.electionView) (hstored : n'.stored = n.stored) :
    Still n n' := by
  obtain ⟨-, hstate, hterm, hvote, -, -⟩ := electionView_inj hview
  exact ⟨hstate, hterm, hvote, hstored⟩

lemma follows_becomeFollower {T : ℤ}
    (hT : n.currentTerm < T ∨ n.currentTerm = T ∧ n.state ≠ .follower) :
    Follows n (n.becomeFollower T) :=
  ⟨T, hT, rfl, rfl, rfl, rfl⟩

lemma seeTerm_moves (n : RaftNode) (T : ℤ) : Still n (n.seeTerm T) ∨ Follows n (n.seeTerm T) := by
  rcases seeTerm_cases n T with ⟨h, -⟩ | ⟨hlt, h⟩
  · exact .inl (by rw [h]; exact ⟨rfl, rfl, rfl, rfl⟩)
  · exact .inr (by rw [h]; exact follows_becomeFollower (.inl hlt))

lemma handleAppendEntries_moves (n : RaftNode) (args : AppendEntriesArgs) :
    Still n (n.handleAppendEntries args).1 ∨ Follows n (n.handleAppendEntries args).1 := by
  -- the log is not part of what is stored about votes
  have hlog : ∀ n₀ : RaftNode,
      ((n₀.appendLoop args.prevLogIndex args.entries).followCommit args.leaderCommit).stored =
        n₀.stored := fun n₀ => by rw [stored_followCommit, stored_appendLoop]
  have hview : ∀ n₀ : RaftNode,
      ((n₀.appendLoop args.prevLogIndex args.entries).followCommit
        args.leaderCommit).electionView = n₀.electionView := fun n₀ => by simp
  have haccept : n.currentTerm ≤ args.term →
      Still n (n.acceptLeader args.term args.leaderId) ∨
        Follows n (n.acceptLeader args.term args.leaderId) := by
    intro hle
    unfold acceptLeader
    dsimp only
    split
    · rename_i hlt
      exact .inr (follows_becomeFollower (n := { n with leaderId := args.leaderId }) (.inl hlt))
    · rename_i hlt
      split
      · rename_i hstate
        exact .inr (follows_becomeFollower (n := { n with leaderId := args.leaderId })
          (.inr ⟨le_antisymm hle (not_lt.mp hlt), hstate⟩))
      · exact .inl ⟨rfl, rfl, rfl, rfl⟩
  unfold handleAppendEntries
  split
  · exact .inl ⟨rfl, rfl, rfl, rfl⟩
  · rename_i hlt
    dsimp only
    split
    · obtain ⟨-, hstate, hterm, hvote, -, -⟩ :=
        electionView_inj (hview (n.acceptLeader args.term args.leaderId))
      have hstored := hlog (n.acceptLeader args.term args.leaderId)
      rcases haccept (not_lt.mp hlt) with ⟨h₁, h₂, h₃, h₄⟩ | ⟨T, hT, h₁, h₂, h₃, h₄⟩
      · exact .inl ⟨hstate.trans h₁, hterm.trans h₂, hvote.trans h₃, hstored.trans h₄⟩
      · exact .inr ⟨T, hT, hstate.trans h₁, hterm.trans h₂, hvote.trans h₃, hstored.trans h₄⟩
    · exact haccept (not_lt.mp hlt)

lemma handleInstallSnapshot_moves (n : RaftNode) {args : InstallSnapshotArgs}
    (hdata : n.installs args → SparesHardState args.data) :
    Still n (n.handleInstallSnapshot args).1 ∨ Follows n (n.handleInstallSnapshot args).1 := by
  rcases handleInstallSnapshot_cases n args with ⟨-, h⟩ | ⟨-, h⟩ | ⟨hinst, h⟩
  · exact .inl (by rw [h]; exact ⟨rfl, rfl, rfl, rfl⟩)
  · rw [h]
    exact seeTerm_moves n args.term
  · have hstored := stored_installSnapshot
      { n.seeTerm args.term with leaderId := args.leaderId } (hdata hinst)
    rw [h]
    rcases seeTerm_moves n args.term with ⟨h₁, h₂, h₃, h₄⟩ | ⟨T, hT, h₁, h₂, h₃, h₄⟩
    · exact .inl ⟨h₁, h₂, h₃, hstored.trans h₄⟩
    · exact .inr ⟨T, hT, h₁, h₂, h₃, hstored.trans h₄⟩

/-- Winning an election. -/
def Leads (n n' : RaftNode) : Prop :=
  n.state = .candidate ∧ n'.state = .leader ∧ n'.currentTerm = n.currentTerm ∧
    n'.votedFor = n.votedFor ∧ n'.stored = n.stored

lemma appendEntriesReply_moves (n : RaftNode) (p : ℤ) (args : AppendEntriesArgs)
    (r : AppendEntriesReply) :
    Still n (n.appendEntriesReply p args r) ∨ Follows n (n.appendEntriesReply p args r) := by
  unfold appendEntriesReply
  dsimp only
  split
  · exact .inl ⟨rfl, rfl, rfl, rfl⟩
  · split
    · rename_i hlt
      exact .inr (follows_becomeFollower (n := n.setWorker p .idle) (.inl hlt))
    · split
      · split <;> exact .inl ⟨rfl, rfl, rfl, rfl⟩
      · split <;> exact .inl ⟨rfl, rfl, rfl, rfl⟩

lemma installSnapshotReply_moves (n : RaftNode) (p : ℤ) (args : InstallSnapshotArgs)
    (r : InstallSnapshotReply) :
    Still n (n.installSnapshotReply p args r) ∨ Follows n (n.installSnapshotReply p args r) := by
  unfold installSnapshotReply
  dsimp only
  split
  · rename_i hlt
    exact .inr (follows_becomeFollower (n := n.setWorker p .idle) (.inl hlt))
  · split <;> exact .inl ⟨rfl, rfl, rfl, rfl⟩

/-- What receiving an answer can do to the vote. -/
lemma receive_moves (n : RaftNode) (dst : ℤ) (req : Request) (rep : Reply) :
    Still n (n.receive dst req rep) ∨ Follows n (n.receive dst req rep) ∨
      Leads n (n.receive dst req rep) := by
  have hself : Still n n := ⟨rfl, rfl, rfl, rfl⟩
  cases req with
  | requestVote args =>
      cases rep with
      | requestVote r =>
          rcases voteReply_cases n args.term r with h | ⟨hlt, h⟩ | ⟨hstate, -, -, ⟨-, h⟩ | ⟨-, h⟩⟩
          · exact .inl (by rw [receive, h]; exact hself)
          · exact .inr (.inl (by rw [receive, h]; exact follows_becomeFollower (.inl hlt)))
          · exact .inl (by rw [receive, h]; exact hself)
          · obtain ⟨hlead, hterm, hvote, -, -, -, -, -⟩ :=
              becomeLeader_spec (n := n.countVote args.term) hstate
            refine .inr (.inr ?_)
            rw [receive, h]
            refine ⟨hstate, hlead, hterm, hvote, ?_⟩
            rw [becomeLeader_eq (n := n.countVote args.term) hstate]
            rfl
      | appendEntries r => exact .inl hself
      | installSnapshot r => exact .inl hself
  | appendEntries args =>
      cases rep with
      | requestVote r => exact .inl hself
      | appendEntries r =>
          rcases appendEntriesReply_moves n dst args r with h | h
          · exact .inl h
          · exact .inr (.inl h)
      | installSnapshot r => exact .inl hself
  | installSnapshot args =>
      cases rep with
      | requestVote r => exact .inl hself
      | appendEntries r => exact .inl hself
      | installSnapshot r =>
          rcases installSnapshotReply_moves n dst args r with h | h
          · exact .inl h
          · exact .inr (.inl h)

end RaftNode

/-! ## The invariant -/

/-- **The votes of node `i` are kept.**  Only candidates and leaders hold a vote for themselves,
so a granted vote of the present term is held by a follower; and it is stored until the stored
term passes it. -/
structure VotesKept (h : List Event) (i : ℤ) (n : RaftNode) : Prop where
  standing : n.state ≠ .follower → n.votedFor = i ∧ i ≠ -1
  real : ∀ T c, .granted i T c ∈ h → c ≠ -1
  stored : ∀ T c, .granted i T c ∈ h → T < n.stored.1 ∨ n.stored = (T, c)
  held : ∀ T c, .granted i T c ∈ h →
    T < n.currentTerm ∨ T = n.currentTerm ∧ n.votedFor = c ∧ n.state = .follower
  unique : ∀ T c c', .granted i T c ∈ h → .granted i T c' ∈ h → c = c'

namespace VotesKept

open RaftNode

lemma still (hk : VotesKept h i n) (hstill : Still n n') : VotesKept h i n' := by
  obtain ⟨hstate, hterm, hvote, hstored⟩ := hstill
  refine ⟨?_, hk.real, ?_, ?_, hk.unique⟩
  · rw [hstate, hvote]
    exact hk.standing
  · rw [hstored]
    exact hk.stored
  · rw [hstate, hterm, hvote]
    exact hk.held

/-- Stepping down forgets the vote of the present term, but then it was for oneself. -/
lemma follows (hk : VotesKept h i n) (hfollows : Follows n n') : VotesKept h i n' := by
  obtain ⟨T, hT, hstate, hterm, hvote, hstored⟩ := hfollows
  have hlt : ∀ T' c, .granted i T' c ∈ h → T' < T := by
    intro T' c hg
    rcases hk.held T' c hg with hlt | ⟨heq, -, hfollower⟩
    · rcases hT with h | ⟨h, -⟩ <;> omega
    · rcases hT with h | ⟨-, hnot⟩
      · omega
      · exact absurd hfollower hnot
  refine ⟨fun hs => absurd hstate hs, hk.real, fun T' c hg => ?_, fun T' c hg => ?_, hk.unique⟩
  · rw [hstored]
    exact .inl (hlt T' c hg)
  · rw [hterm]
    exact .inl (hlt T' c hg)

lemma leads (hk : VotesKept h i n) (hleads : Leads n n') : VotesKept h i n' := by
  obtain ⟨hstate, hlead, hterm, hvote, hstored⟩ := hleads
  have hstanding := hk.standing (by simp [hstate])
  refine ⟨fun _ => by rw [hvote]; exact hstanding, hk.real, ?_, fun T c hg => ?_, hk.unique⟩
  · rw [hstored]
    exact hk.stored
  · rw [hterm]
    rcases hk.held T c hg with hlt | ⟨-, -, hfollower⟩
    · exact .inl hlt
    · rw [hstate] at hfollower
      cases hfollower

/-- Standing in a new term; nothing is stored yet. -/
lemma stand (hk : VotesKept h i n) (hi : i ≠ -1) (hvote : n'.votedFor = i)
    (hterm : n'.currentTerm = n.currentTerm + 1) (hstored : n'.stored = n.stored) :
    VotesKept h i n' := by
  refine ⟨fun _ => ⟨hvote, hi⟩, hk.real, by rw [hstored]; exact hk.stored, fun T c hg => ?_,
    hk.unique⟩
  rw [hterm]
  rcases hk.held T c hg with hlt | ⟨heq, -⟩
  · exact .inl (by omega)
  · exact .inl (by omega)

/-- Granting the vote to `c`. -/
lemma grant (hk : VotesKept h i n) {T c : ℤ} (hc : c ≠ -1) (hci : c ≠ i)
    (hfree : n.votedFor = -1 ∨ n.votedFor = c) (hT : n.currentTerm = T)
    (hstate : n'.state = n.state) (hterm : n'.currentTerm = n.currentTerm)
    (hvote : n'.votedFor = c) (hstored : n'.stored = (T, c)) :
    VotesKept (.granted i T c :: h) i n' := by
  -- only followers can vote for another node
  have hfollower : n.state = .follower := by
    by_contra hnot
    obtain ⟨hself, hi⟩ := hk.standing hnot
    rcases hfree with h | h
    · exact hi (hself ▸ h)
    · exact hci (h ▸ hself)
  have hcases : ∀ T' c', .granted i T' c' ∈ Event.granted i T c :: h →
      T' = T ∧ c' = c ∨ .granted i T' c' ∈ h := by
    intro T' c' hmem
    rcases List.mem_cons.mp hmem with heq | hmem
    · cases heq
      exact .inl ⟨rfl, rfl⟩
    · exact .inr hmem
  -- an earlier vote of this term is held, so it is this one
  have hsame : ∀ T' c', .granted i T' c' ∈ h → T' < T ∨ T' = T ∧ c' = c := by
    intro T' c' hg
    rcases hk.held T' c' hg with hlt | ⟨heq, hheld, -⟩
    · exact .inl (hT ▸ hlt)
    · refine .inr ⟨heq.trans hT, ?_⟩
      rcases hfree with h | h
      · exact absurd (hheld.symm.trans h) (hk.real T' c' hg)
      · exact hheld.symm.trans h
  refine ⟨fun hs => absurd (hstate.trans hfollower) hs, ?_, ?_, ?_, ?_⟩
  · intro T' c' hmem
    rcases hcases T' c' hmem with ⟨-, rfl⟩ | hg
    · exact hc
    · exact hk.real T' c' hg
  · intro T' c' hmem
    rw [hstored]
    rcases hcases T' c' hmem with ⟨rfl, rfl⟩ | hg
    · exact .inr rfl
    · rcases hsame T' c' hg with hlt | ⟨rfl, rfl⟩
      · exact .inl hlt
      · exact .inr rfl
  · intro T' c' hmem
    rw [hterm, hT, hvote, hstate]
    rcases hcases T' c' hmem with ⟨rfl, rfl⟩ | hg
    · exact .inr ⟨rfl, rfl, hfollower⟩
    · rcases hsame T' c' hg with hlt | ⟨rfl, rfl⟩
      · exact .inl hlt
      · exact .inr ⟨rfl, rfl, hfollower⟩
  · intro T' c₁ c₂ h₁ h₂
    rcases hcases T' c₁ h₁ with ⟨rfl, rfl⟩ | g₁ <;> rcases hcases T' c₂ h₂ with ⟨h, rfl⟩ | g₂
    · rfl
    · rcases hsame T' c₂ g₂ with hlt | ⟨-, rfl⟩
      · exact absurd hlt (lt_irrefl _)
      · rfl
    · rcases hsame T' c₁ g₁ with hlt | ⟨-, rfl⟩
      · exact absurd (h ▸ hlt) (lt_irrefl _)
      · rfl
    · exact hk.unique T' c₁ c₂ g₁ g₂

/-- The hard state `new` is at least as new as `old`: of a later term, or of the same term with
the vote that was given, if one was. -/
def AtLeast (old new : ℤ × ℤ) : Prop :=
  old.1 < new.1 ∨ old.1 = new.1 ∧ (old.2 = -1 ∨ old.2 = new.2)

instance (old new : ℤ × ℤ) : Decidable (AtLeast old new) := inferInstanceAs (Decidable (_ ∨ _))

/-- A write that does not replace a newer hard state. -/
lemma save (hk : VotesKept h i n) {T v : ℤ} (hnew : AtLeast n.stored (T, v))
    (hstate : n'.state = n.state) (hterm : n'.currentTerm = n.currentTerm)
    (hvote : n'.votedFor = n.votedFor) (hstored : n'.stored = (T, v)) : VotesKept h i n' := by
  refine ⟨by rw [hstate, hvote]; exact hk.standing, hk.real, fun T' c hg => ?_,
    by rw [hstate, hterm, hvote]; exact hk.held, hk.unique⟩
  rw [hstored]
  rcases hk.stored T' c hg with hlt | heq
  · rcases hnew with h | ⟨h, -⟩
    · exact .inl (hlt.trans h)
    · exact .inl (h ▸ hlt)
  · rw [heq] at hnew
    rcases hnew with h | ⟨h, hvote'⟩
    · exact .inl h
    · rcases hvote' with h' | h'
      · exact absurd h' (hk.real T' c hg)
      · exact .inr (Prod.ext h.symm h'.symm)

/-- A restarted node has what was stored. -/
lemma restart (hk : VotesKept h i n) : VotesKept h i n.restart := by
  refine ⟨fun hs => absurd rfl hs, hk.real, hk.stored, fun T c hg => ?_, hk.unique⟩
  rcases hk.stored T c hg with hlt | heq
  · exact .inl hlt
  · have hterm : n.restart.currentTerm = n.stored.1 := rfl
    have hvote : n.restart.votedFor = n.stored.2 := rfl
    rw [hterm, hvote, heq]
    exact .inr ⟨rfl, rfl, rfl⟩

/-- Votes of other nodes do not matter. -/
lemma of_events (hk : VotesKept h i n) (hev : ∀ T c, .granted i T c ∈ h' → .granted i T c ∈ h) :
    VotesKept h' i n :=
  ⟨hk.standing, fun T c hg => hk.real T c (hev T c hg), fun T c hg => hk.stored T c (hev T c hg),
    fun T c hg => hk.held T c (hev T c hg),
    fun T c c' hg hg' => hk.unique T c c' (hev T c hg) (hev T c' hg')⟩

end VotesKept

/-! ## Runs -/

/-- The pair the election thread is about to write. -/
def ElectionThread.evaluated? : ElectionThread → Option (ℤ × ℤ)
  | .evaluated _ term votedFor => some (term, votedFor)
  | _ => none

/-- The snapshot a call carries. -/
def Call.snapshot? (c : Call) : Option InstallSnapshotArgs :=
  match c.request with
  | .installSnapshot args => some args
  | _ => none

/-- **The steps that cannot lose a vote.**  The late write of the election thread does not replace
a newer hard state, and a snapshot that is installed has no line that names the hard state. -/
def Careful (s : Cluster) : Label → Prop
  | .thread i a =>
      a = .saveHardState → ∀ x ∈ (s.nodes i).election.evaluated?,
        VotesKept.AtLeast (s.nodes i).stored x
  | .handle k =>
      ∀ c ∈ s.calls k, ∀ args ∈ c.snapshot?,
        (s.nodes c.dst).installs args → RaftNode.SparesHardState args.data
  | _ => True

instance (s : Cluster) : DecidablePred (Careful s)
  | .thread i _ => inferInstanceAs (Decidable (_ → ∀ x ∈ (s.nodes i).election.evaluated?, _))
  | .handle k => inferInstanceAs (Decidable (∀ c ∈ s.calls k, ∀ args ∈ c.snapshot?, _))
  | .reply _ | .fail _ | .crash _ => isTrue trivial

/-- The votes of all nodes are kept. -/
def VotesInv (s : Cluster) : Prop := ∀ i, VotesKept s.history i (s.nodes i)

lemma VotesInv.of_node (hv : VotesInv s) (hnodes : t.nodes = Function.update s.nodes i n)
    (hnode : VotesKept t.history i n)
    (hev : ∀ j, j ≠ i → ∀ T c, .granted j T c ∈ t.history → .granted j T c ∈ s.history) :
    VotesInv t :=
  Cluster.forall_nodes hnodes hnode fun j hj => (hv j).of_events (hev j hj)

/-- Only `handleRequestVote` records a granted vote. -/
lemma granted_notMem_threadEvents {a : ThreadStep} {out : Output} {v T c : ℤ} :
    .granted v T c ∉ Cluster.threadEvents i a n n' out := by
  intro hmem
  unfold Cluster.threadEvents at hmem
  split at hmem
  · simp at hmem
  · split at hmem <;> simp at hmem
  · simp at hmem
  · simp at hmem

lemma granted_notMem_replyEvents {v T c : ℤ} : .granted v T c ∉ Cluster.replyEvents i n n' := by
  intro hmem
  rw [Cluster.replyEvents, List.mem_append] at hmem
  rcases hmem with hmem | hmem
  · split at hmem <;> simp at hmem
  · split at hmem <;> simp at hmem

/-- Handling a request keeps the votes. -/
lemma VotesInv.handle (hr : Routed m s) (hv : VotesInv s) {k : ℕ} {src dst : ℤ}
    {request : Request} {alive : Bool}
    (hcall : s.calls k = some ⟨src, dst, request, none, alive⟩) (hcareful : Careful s (.handle k)) :
    VotesInv (((s.setNode dst ((s.nodes dst).handle request).1).setCall k
      (some ⟨src, dst, request, some ((s.nodes dst).handle request).2, alive⟩)).record
        (Cluster.handleEvents dst request ((s.nodes dst).handle request).2)) := by
  have hroute := hr.calls k _ hcall
  cases request with
  | appendEntries args =>
      refine hv.of_node (i := dst) rfl ?_ fun j _ T c hg => hg
      rcases RaftNode.handleAppendEntries_moves (s.nodes dst) args with h | h
      · exact (hv dst).still h
      · exact (hv dst).follows h
  | installSnapshot args =>
      refine hv.of_node (i := dst) rfl ?_ fun j _ T c hg => hg
      rcases RaftNode.handleInstallSnapshot_moves (s.nodes dst)
        (fun hinst => hcareful _ hcall args rfl hinst) with h | h
      · exact (hv dst).still h
      · exact (hv dst).follows h
  | requestVote args =>
      have hcand : args.candidateId = src := hroute.candidate args rfl
      have hseen : VotesKept s.history dst ((s.nodes dst).seeTerm args.term) := by
        rcases RaftNode.seeTerm_moves (s.nodes dst) args.term with h | h
        · exact (hv dst).still h
        · exact (hv dst).follows h
      rcases RaftNode.handleRequestVote_cases (s.nodes dst) args with
        hold | ⟨-, hterm, ⟨⟨hfree, -⟩, hnode, hreply⟩ | hrefused⟩
      · refine hv.of_node (i := dst) rfl ?_ fun j _ T c hg => ?_
        · simp only [RaftNode.handle, hold]
          exact hv dst
        · simpa [RaftNode.handle, hold, Cluster.handleEvents] using hg
      · refine hv.of_node (i := dst) rfl ?_ fun j hj T c hg => ?_
        · simp only [RaftNode.handle, hnode, hreply, Cluster.handleEvents, if_true,
            Cluster.record_history, List.singleton_append]
          refine hseen.grant ?_ ?_ hfree hterm rfl rfl rfl rfl
          · rw [hcand]
            exact m.ne_sentinel hroute.src_mem
          · rw [hcand]
            exact hroute.dst_ne.symm
        · simpa [RaftNode.handle, hreply, Cluster.handleEvents, hj] using hg
      · refine hv.of_node (i := dst) rfl ?_ fun j _ T c hg => ?_
        · simp only [RaftNode.handle, hrefused]
          exact hseen
        · simpa [RaftNode.handle, hrefused, Cluster.handleEvents] using hg

/-- Thread steps keep the votes. -/
lemma VotesInv.thread (hr : Routed m s) (hv : VotesInv s) (hi : i ∈ m.ids) {a : ThreadStep}
    {out : Output} (hmove : (s.nodes i).Move s.nextCall a n out)
    (hcareful : Careful s (.thread i a)) :
    VotesInv (((s.setNode i n).emit i out).record
      (Cluster.threadEvents i a (s.nodes i) n out)) := by
  have hev : ∀ j T c, .granted j T c ∈ Cluster.threadEvents i a (s.nodes i) n out ++ s.history →
      .granted j T c ∈ s.history := by
    intro j T c hg
    rcases List.mem_append.mp hg with h | h
    · exact absurd h granted_notMem_threadEvents
    · exact h
  refine hv.of_node (i := i) (n := n) (by simp) ?_ (by simpa using fun j _ => hev j)
  refine VotesKept.of_events ?_ (by simpa using hev i)
  by_cases ha : a.ofElection
  · cases hmove with
    | electionTimeout => exact (hv i).still ⟨rfl, rfl, rfl, rfl⟩
    | startElection =>
        exact (hv i).stand (m.ne_sentinel hi) (hr.nodes i).myId rfl rfl
    | evalHardState => exact (hv i).still ⟨rfl, rfl, rfl, rfl⟩
    | saveHardState heval =>
        refine (hv i).save (hcareful rfl _ ?_) rfl rfl rfl rfl
        rw [heval]
        rfl
    | sendRequestVote => exact (hv i).still ⟨rfl, rfl, rfl, rfl⟩
    | _ => exact ha.elim
  · refine (hv i).still (RaftNode.still_of_view (hmove.view ha) (hmove.stored ?_))
    rintro rfl
    exact ha trivial

/-- **Every careful step keeps the votes.** -/
theorem VotesInv.step (hr : Routed m s) (hv : VotesInv s) {l : Label} (hcareful : Careful s l)
    (hmove : s.Move m.ids l t) : VotesInv t := by
  cases hmove with
  | thread hi hmove => exact hv.thread hr hi hmove hcareful
  | handle hcall => exact hv.handle hr hcall hcareful
  | @reply k src dst request reply hcall =>
      have hev : ∀ j T c, .granted j T c ∈ Cluster.replyEvents src (s.nodes src)
          ((s.nodes src).receive dst request reply) ++ s.history → .granted j T c ∈ s.history := by
        intro j T c hg
        rcases List.mem_append.mp hg with h | h
        · exact absurd h granted_notMem_replyEvents
        · exact h
      refine hv.of_node (i := src) rfl (VotesKept.of_events ?_ (hev src)) fun j _ => hev j
      rcases RaftNode.receive_moves (s.nodes src) dst request reply with h | h | h
      · exact (hv src).still h
      · exact (hv src).follows h
      · exact (hv src).leads h
  | @fail k src dst request reply hcall =>
      refine hv.of_node (i := src) rfl ((hv src).still ?_) fun j _ T c hg => hg
      exact RaftNode.still_of_view (RaftNode.abandon_view _ _ _) (by cases request <;> rfl)
  | @crash i hi => exact hv.of_node (i := i) rfl (hv i).restart fun j _ T c hg => hg

lemma votesInv_init (members : List ℤ) (stores : ℤ → RocksDBStore) :
    VotesInv (.init members stores) :=
  fun i => ⟨fun hs => absurd rfl hs, by simp [Cluster.init], by simp [Cluster.init],
    by simp [Cluster.init], by simp [Cluster.init]⟩

/-- The runs, with crashes, whose steps are all careful. -/
def CarefulRun (members : List ℤ) : Cluster → List Label → Cluster → Prop :=
  Transition.Run (Cluster.step members) Careful

lemma VotesInv.run (hr : Routed m s) (hv : VotesInv s) {ls : List Label}
    (hrun : CarefulRun m.ids s ls t) : Routed m t ∧ VotesInv t := by
  induction hrun with
  | nil => exact ⟨hr, hv⟩
  | snoc _ hcareful hstep ih =>
      have hmove := Cluster.move_of_step hstep
      exact ⟨ih.1.step hmove, ih.2.step ih.1 hcareful hmove⟩

/-- **Votes are durable.**  In every run whose steps are careful, crashes included: when node `i`
has granted its vote to `c` in term `T`, then from then on what it would load after a crash is of
a later term or is that vote, and any vote it ever grants in `T` is for `c`. -/
theorem votes_durable (m : Membership) (stores : ℤ → RocksDBStore) {ls ks : List Label}
    {s t : Cluster} (hs : CarefulRun m.ids (.init m.ids stores) ls s)
    (ht : CarefulRun m.ids s ks t) {i T c : ℤ} (hgranted : .granted i T c ∈ s.history) :
    (T < (t.nodes i).storage.loadHardState.1 ∨ (t.nodes i).storage.loadHardState = (T, c)) ∧
      ∀ c', .granted i T c' ∈ t.history → c' = c := by
  obtain ⟨hr, hv⟩ := (votesInv_init m.ids stores).run (routed_init stores) hs
  obtain ⟨-, hv'⟩ := hv.run hr ht
  have hgranted' := history_subset_of_run ht hgranted
  exact ⟨(hv' i).stored T c hgranted', fun c' hc' => (hv' i).unique T c' c hc' hgranted'⟩

/-- Node `1` of three votes for node `2` in the first term and then crashes. -/
theorem votes_durable_crash :
    ∃ s t, CarefulRun trio.ids (.init trio.ids fun _ => RocksDBStore.genesis)
        (campaign 2 2 ++ [.handle 0]) s ∧
      CarefulRun trio.ids s [.crash 1] t ∧ .granted 1 1 2 ∈ s.history ∧
      (1 < (t.nodes 1).storage.loadHardState.1 ∨
        (t.nodes 1).storage.loadHardState = (1, 2)) := by
  have hvotes : ∃ s, CarefulRun trio.ids (.init trio.ids fun _ => RocksDBStore.genesis)
      (campaign 2 2 ++ [.handle 0]) s ∧ .granted 1 1 2 ∈ s.history :=
    run_of_after (by decide +kernel)
  obtain ⟨s, hrun, hgranted⟩ := hvotes
  have hcrash : CarefulRun trio.ids s [.crash 1] ((s.setNode 1 (s.nodes 1).restart).orphan 1) :=
    Transition.Run.single trivial rfl
  exact ⟨s, _, hrun, hcrash, hgranted, (votes_durable trio _ hrun hcrash hgranted).1⟩

/-- Node `1` starts an election in the first term and evaluates what to store; before it writes,
node `2` gets its vote in the second term. -/
def lateWrite : List Label :=
  [.thread 1 .electionTimeout, .thread 1 .startElection, .thread 1 .evalHardState] ++
    campaign 2 2 ++ campaign 2 2 ++ [.handle 2, .thread 1 .saveHardState]

/-- **The late write of the election thread loses a vote**: what is stored afterwards is of an
older term, and after a crash the node votes again in the same term, for another candidate. -/
theorem late_write_loses_vote :
    (∃ s, Transition.Run (Cluster.step [1, 2, 3]) (fun _ _ => True)
        (.init [1, 2, 3] fun _ => RocksDBStore.genesis) lateWrite s ∧
      .granted 1 2 2 ∈ s.history ∧ (s.nodes 1).storage.loadHardState = (1, 1)) ∧
    ∃ s, Transition.Run (Cluster.step [1, 2, 3]) (fun _ _ => True)
        (.init [1, 2, 3] fun _ => RocksDBStore.genesis)
        (lateWrite ++ [.crash 1] ++ campaign 3 2 ++ campaign 3 2 ++ [.handle 6]) s ∧
      .granted 1 2 2 ∈ s.history ∧ .granted 1 2 3 ∈ s.history :=
  ⟨run_of_after (by decide +kernel), run_of_after (by decide +kernel)⟩

end RaftConsensus
