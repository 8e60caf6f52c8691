import RaftConsensus.Cluster.LogSafety
import RaftConsensus.Storage.Entries

/-!
# A leader only appends

While it leads a term, a node does not touch the entries of its log above `commitIndex_`, except
that it appends.  `handleAppendEntries` of its own term makes a leader step down first.
`handleInstallSnapshot` does not: it looks at the term of the message only, and installs the
snapshot in any role.  The term of the message is the one its sender is in when the dump has been
made, and by then the sender may be a follower of the very leader the message goes to.

In every run in which no leader installs such a snapshot, at least none that reaches into its log
(`SparesLeaders`), a leader only appends (`leader_append_only`).
-/

namespace RaftConsensus

open Bytes

variable {members : List ℤ} {s t u : Cluster} {i T : ℤ} {n n' : RaftNode}

/-! ## One step -/

namespace RaftNode

/-- The log has not become shorter, and its entries above the commit index are still there. -/
def KeepsLog (n n' : RaftNode) : Prop :=
  n.lastLogIndex ≤ n'.lastLogIndex ∧ n.commitIndex ≤ n'.commitIndex ∧
    ∀ k, n.commitIndex < k → k ≤ n.lastLogIndex → n'.storage.entry? k = n.storage.entry? k

lemma KeepsLog.refl (n : RaftNode) : KeepsLog n n := ⟨le_rfl, le_rfl, fun _ _ _ => rfl⟩

/-- The log is left alone, and the commit index does not fall. -/
lemma keepsLog_of_same (hlast : n'.lastLogIndex = n.lastLogIndex)
    (hcommit : n.commitIndex ≤ n'.commitIndex)
    (hentry : ∀ k, n'.storage.entry? k = n.storage.entry? k) : KeepsLog n n' :=
  ⟨hlast.ge, hcommit, fun k _ _ => hentry k⟩

/-- A compaction stays within what is committed. -/
def CompactsCommitted (n : RaftNode) : Prop :=
  n.compactionDue → n.lastApplied - 100 ≤ n.commitIndex

instance (n : RaftNode) : Decidable n.CompactsCommitted := inferInstanceAs (Decidable (_ → _))

/-- Thread steps of a node that goes on leading. -/
lemma Move.keepsLog {call : ℕ} {a : ThreadStep} {out : Output} (hmove : n.Move call a n' out)
    (hlead : n'.state = .leader) (hcompact : a = .compactIfDue → n.CompactsCommitted) :
    KeepsLog n n' := by
  cases hmove with
  | startElection => cases hlead
  | saveHardState => exact keepsLog_of_same rfl le_rfl fun _ => RocksDBStore.entry?_saveHardState
  | appendRequest =>
      refine ⟨(lt_add_one n.lastLogIndex).le, le_rfl, fun k _ hk => ?_⟩
      have hne : k ≠ n.lastLogIndex + 1 := by omega
      exact RocksDBStore.entry?_appendLog.trans (if_neg hne)
  | applyEntry => exact keepsLog_of_same rfl le_rfl fun _ => RocksDBStore.entry?_applyTransaction
  | compactIfDue =>
      refine ⟨le_rfl, le_rfl, fun k hk _ => ?_⟩
      dsimp only
      split
      · rename_i hdue
        have hle := hcompact rfl hdue
        rw [RocksDBStore.entry?_compactLog, if_neg (by omega)]
      · rfl
  | _ => exact .refl n

lemma seeTerm_of_leader {t : ℤ} (hstate : (n.seeTerm t).state = .leader) : n.seeTerm t = n := by
  rcases seeTerm_cases n t with ⟨h, -⟩ | ⟨-, h⟩
  · exact h
  · rw [h] at hstate
    cases hstate

/-- The snapshot does not reach into the log: it ends after it, or, if all of it is committed,
with it. -/
def SnapshotBeyondLog (n : RaftNode) (args : InstallSnapshotArgs) : Prop :=
  n.commitIndex ≤ args.lastIncludedIndex ∧
    (n.lastLogIndex < args.lastIncludedIndex ∨
      n.lastLogIndex = args.lastIncludedIndex ∧ n.commitIndex = args.lastIncludedIndex) ∧
    RocksDBStore.SparesEntries args.data

instance (n : RaftNode) (args : InstallSnapshotArgs) : Decidable (n.SnapshotBeyondLog args) :=
  inferInstanceAs (Decidable (_ ∧ _))

/-- Installing a snapshot that does not reach into the log. -/
lemma keepsLog_installSnapshot {args : InstallSnapshotArgs} (h : n.SnapshotBeyondLog args) :
    KeepsLog n (n.installSnapshot args) := by
  obtain ⟨hcommit, hlast, hdata⟩ := h
  have hle : n.lastLogIndex ≤ args.lastIncludedIndex := by
    rcases hlast with hlt | ⟨heq, -⟩
    · exact hlt.le
    · exact heq.le
  refine ⟨hle, hcommit, fun k hk hkl => ?_⟩
  have hne : k ≠ args.lastIncludedIndex := by
    rcases hlast with hlt | ⟨-, heq⟩
    · omega
    · omega
  have hanchor : k ≠ (anchorEntry args.lastIncludedIndex args.lastIncludedTerm).index := hne
  rw [installSnapshot, RocksDBStore.entry?_appendLog, if_neg hanchor,
    RocksDBStore.entry?_truncateLog, if_neg (by omega), RocksDBStore.entry?_applySnapshot hdata]

/-- A leader that is sent a snapshot of its own term does not install it, unless it does not reach
into the log. -/
def SparesLeader (n : RaftNode) : Request → Prop
  | .installSnapshot args =>
      n.state = .leader → args.term = n.currentTerm → n.installs args → n.SnapshotBeyondLog args
  | _ => True

instance (n : RaftNode) : DecidablePred n.SparesLeader
  | .installSnapshot _ => inferInstanceAs (Decidable (_ → _ → _ → _))
  | .requestVote _ | .appendEntries _ => isTrue trivial

/-- Handlers of a node that goes on leading. -/
lemma keepsLog_handle {req : Request} (hlead : n.state = .leader)
    (hlead' : (n.handle req).1.state = .leader) (hspares : n.SparesLeader req) :
    KeepsLog n (n.handle req).1 := by
  cases req with
  | requestVote args =>
      simp only [handle] at hlead' ⊢
      rcases handleRequestVote_cases n args with h | ⟨-, -, ⟨-, h, -⟩ | h⟩
      · rw [h]
        exact .refl n
      · rw [h] at hlead' ⊢
        rw [seeTerm_of_leader hlead']
        exact keepsLog_of_same rfl le_rfl fun _ => RocksDBStore.entry?_saveHardState
      · rw [h] at hlead' ⊢
        rw [seeTerm_of_leader hlead']
        exact .refl n
  | appendEntries args =>
      -- a leader that accepts the message steps down
      simp only [handle] at hlead' ⊢
      rcases handleAppendEntries_view n args with h | ⟨hle, h⟩
      · rw [h]
        exact .refl n
      · have hstate : (n.handleAppendEntries args).1.state = .follower := by
          rcases acceptLeader_view n args.term args.leaderId hle with ⟨-, -, hs⟩ | ⟨hview, -⟩
          · rw [hlead] at hs
            cases hs
          · exact congrArg ElectionView.state (h.trans hview)
        rw [hstate] at hlead'
        cases hlead'
  | installSnapshot args =>
      simp only [handle] at hlead' ⊢
      rcases handleInstallSnapshot_cases n args with ⟨-, h⟩ | ⟨-, h⟩ | ⟨hinst, h⟩
      · rw [h]
        exact .refl n
      · rw [h] at hlead' ⊢
        rw [seeTerm_of_leader hlead']
        exact .refl n
      · rw [h] at hlead' ⊢
        have hsee : n.seeTerm args.term = n := seeTerm_of_leader hlead'
        have hterm : args.term = n.currentTerm := by
          rcases seeTerm_cases n args.term with ⟨-, hle⟩ | ⟨-, hfollow⟩
          · exact le_antisymm hle hinst.1
          · rw [hfollow] at hlead'
            cases hlead'
        have hbeyond := hspares hlead hterm hinst
        rw [hsee]
        exact keepsLog_installSnapshot (n := { n with leaderId := args.leaderId }) hbeyond

lemma commitIndex_le_commitLoop (n : RaftNode) : n.commitIndex ≤ n.commitLoop := by
  rcases n.commitLoop_cases with h | ⟨⟨h, -⟩, -⟩
  · exact h.ge
  · exact h.le

/-- Answers received by a node that goes on leading. -/
lemma keepsLog_receive {dst : ℤ} {req : Request} {rep : Reply} (hlead : n.state = .leader)
    (hlead' : (n.receive dst req rep).state = .leader) : KeepsLog n (n.receive dst req rep) := by
  cases req with
  | requestVote args =>
      cases rep with
      | requestVote r =>
          have hself : n.voteReply args.term r = n := by
            unfold voteReply
            rw [if_pos (.inl (by rw [hlead]; decide))]
          rw [receive, hself]
          exact .refl n
      | _ => exact .refl n
  | appendEntries args =>
      cases rep with
      | appendEntries r =>
          rw [receive] at hlead' ⊢
          unfold appendEntriesReply at hlead' ⊢
          dsimp only at hlead' ⊢
          split
          · exact .refl n
          · rename_i hcurrent
            rw [if_neg hcurrent] at hlead'
            split
            · rename_i hnewer
              rw [if_pos hnewer] at hlead'
              cases hlead'
            · split
              · split
                · exact .refl n
                · rename_i last _
                  exact ⟨le_rfl, commitIndex_le_commitLoop
                    ((n.setWorker dst .idle).peerMatched dst last.index), fun _ _ _ => rfl⟩
              · split <;> exact .refl n
      | _ => exact .refl n
  | installSnapshot args =>
      cases rep with
      | installSnapshot r =>
          rw [receive] at hlead' ⊢
          unfold installSnapshotReply at hlead' ⊢
          dsimp only at hlead' ⊢
          split
          · rename_i hnewer
            rw [if_pos hnewer] at hlead'
            cases hlead'
          · split <;> exact .refl n
      | _ => exact .refl n

end RaftNode

/-! ## Runs -/

/-- Node `i` leads term `T`. -/
def Cluster.Leads (s : Cluster) (i T : ℤ) : Prop :=
  (s.nodes i).state = .leader ∧ (s.nodes i).currentTerm = T

instance (s : Cluster) (i T : ℤ) : Decidable (s.Leads i T) := inferInstanceAs (Decidable (_ ∧ _))

/-- **The steps that leave the logs of leaders alone.**  No leader installs a snapshot that reaches
into its log, and compaction removes committed entries only. -/
def SparesLeaders (s : Cluster) : Label → Prop
  | .thread i a => a = .compactIfDue → (s.nodes i).CompactsCommitted
  | .handle k => ∀ c ∈ s.calls k, (s.nodes c.dst).SparesLeader c.request
  | _ => True

instance (s : Cluster) : DecidablePred (SparesLeaders s)
  | .thread i _ => inferInstanceAs (Decidable (_ → (s.nodes i).CompactsCommitted))
  | .handle k => inferInstanceAs (Decidable (∀ c ∈ s.calls k, (s.nodes c.dst).SparesLeader _))
  | .reply _ | .fail _ | .crash _ => isTrue trivial

/-- **A step of a node that goes on leading keeps its log.** -/
theorem Cluster.keepsLog_step {l : Label} (hok : SparesLeaders s l)
    (hstep : step members s l = some t) (hlead : s.Leads i T) (hlead' : t.Leads i T) :
    (s.nodes i).KeepsLog (t.nodes i) := by
  have hother : ∀ {j : ℤ} {n : RaftNode}, (j = i → (s.nodes i).KeepsLog n) →
      (s.nodes i).KeepsLog (Function.update s.nodes j n i) := by
    intro j n hn
    by_cases hj : i = j
    · subst hj
      rw [Function.update_self]
      exact hn rfl
    · rw [Function.update_of_ne hj]
      exact .refl _
  cases move_of_step hstep with
  | @thread j a n out hj hmove =>
      rw [record_nodes, emit_nodes, setNode_nodes]
      refine hother fun hji => ?_
      subst hji
      have hstate := hlead'.1
      rw [record_nodes, emit_nodes, setNode_nodes, Function.update_self] at hstate
      exact hmove.keepsLog hstate hok
  | @handle k src dst request alive hcall =>
      refine hother fun hdi => ?_
      subst hdi
      have hstate := hlead'.1
      simp only [record_nodes, setCall_nodes, setNode_nodes, Function.update_self] at hstate
      exact RaftNode.keepsLog_handle hlead.1 hstate (hok _ hcall)
  | @reply k src dst request reply hcall =>
      refine hother fun hsi => ?_
      subst hsi
      have hstate := hlead'.1
      simp only [record_nodes, setCall_nodes, setNode_nodes, Function.update_self] at hstate
      exact RaftNode.keepsLog_receive hlead.1 hstate
  | @fail k src dst request reply hcall =>
      refine hother fun hsi => ?_
      subst hsi
      cases request <;> exact .refl (s.nodes src)
  | @crash j hj =>
      refine hother fun hji => ?_
      subst hji
      have hstate := hlead'.1
      simp only [orphan, setNode_nodes, Function.update_self] at hstate
      cases hstate

/-- The runs during which node `i` leads term `T`, from steps that leave the logs of leaders
alone. -/
def LeaderRun (members : List ℤ) (i T : ℤ) : Cluster → List Label → Cluster → Prop :=
  Transition.Run (Cluster.step members) fun s l => SparesLeaders s l ∧ s.Leads i T

/-- A period of leadership: the log does not become shorter, and what is above the commit index at
its end has been there from the start. -/
lemma LeaderRun.keepsLog {ls : List Label} (hrun : LeaderRun members i T s ls t)
    (hlead : t.Leads i T) :
    (s.nodes i).lastLogIndex ≤ (t.nodes i).lastLogIndex ∧
      (s.nodes i).commitIndex ≤ (t.nodes i).commitIndex ∧
      ∀ k, (t.nodes i).commitIndex < k → k ≤ (s.nodes i).lastLogIndex →
        (t.nodes i).storage.entry? k = (s.nodes i).storage.entry? k := by
  induction hrun with
  | nil => exact ⟨le_rfl, le_rfl, fun _ _ _ => rfl⟩
  | snoc _ hok hstep ih =>
      obtain ⟨hlast, hcommit, hentries⟩ := ih hok.2
      obtain ⟨hlast', hcommit', hkept⟩ := Cluster.keepsLog_step hok.1 hstep hok.2 hlead
      refine ⟨hlast.trans hlast', hcommit.trans hcommit', fun k hk hkl => ?_⟩
      have hlt := hcommit'.trans_lt hk
      rw [hkept k hlt (hkl.trans hlast), hentries k hlt hkl]

/-- **Leader append-only.**  Let node `i` lead term `T` from state `s` to state `t` and in the next
state `u`, all steps being such that no leader installs a snapshot that reaches into its log.  Then
its last index is nowhere lower than before, and every entry of `s` that lies above the commit
index up to the last step is the same in `u`. -/
theorem leader_append_only {ls : List Label} {l : Label} (hrun : LeaderRun members i T s ls t)
    (hlead : t.Leads i T) (hok : SparesLeaders t l) (hstep : Cluster.step members t l = some u)
    (hlead' : u.Leads i T) :
    (s.nodes i).lastLogIndex ≤ (t.nodes i).lastLogIndex ∧
      (t.nodes i).lastLogIndex ≤ (u.nodes i).lastLogIndex ∧
      ∀ k, (t.nodes i).commitIndex < k → k ≤ (s.nodes i).lastLogIndex →
        (u.nodes i).storage.entry? k = (s.nodes i).storage.entry? k := by
  obtain ⟨hlast, -, hentries⟩ := hrun.keepsLog hlead
  obtain ⟨hlast', -, hkept⟩ := Cluster.keepsLog_step hok hstep hlead hlead'
  refine ⟨hlast, hlast', fun k hk hkl => ?_⟩
  rw [hkept k hk (hkl.trans hlast), hentries k hk hkl]

/-- The leader of a pair takes a second request while the first is not committed. -/
theorem leader_append_only_pair :
    ∃ s t u ls, Transition.Run (Cluster.step pair.ids) (fun _ _ => True)
        (.init pair.ids fun _ => RocksDBStore.genesis)
        (campaign 1 1 ++ [.handle 0, .reply 0] ++
          takeRequest 1 0 (transfer (ascii "r") 50)) s ∧
      LeaderRun pair.ids 1 1 s ls t ∧
      Cluster.step pair.ids t (.thread 1 (.appendRequest 1)) = some u ∧
      (s.nodes 1).lastLogIndex = 1 ∧ (u.nodes 1).lastLogIndex = 2 ∧
      (u.nodes 1).storage.entry? 1 = (s.nodes 1).storage.entry? 1 := by
  have hruns : ∃ s, Transition.Run (Cluster.step pair.ids) (fun _ _ => True)
      (.init pair.ids fun _ => RocksDBStore.genesis)
      (campaign 1 1 ++ [.handle 0, .reply 0] ++ takeRequest 1 0 (transfer (ascii "r") 50)) s ∧
        ∃ t ∈ Transition.runFrom (Cluster.step pair.ids)
          (fun s l => SparesLeaders s l ∧ s.Leads 1 1) s
          [.thread 1 (.clientRequest 1 (transfer (ascii "q") 70)), .thread 1 (.lookupRequest 1)],
          ∃ u ∈ Cluster.step pair.ids t (.thread 1 (.appendRequest 1)),
            t.Leads 1 1 ∧ u.Leads 1 1 ∧ (s.nodes 1).lastLogIndex = 1 ∧
              (u.nodes 1).lastLogIndex = 2 ∧ (t.nodes 1).commitIndex = 0 :=
    run_of_after (by decide +kernel)
  obtain ⟨s, hrun, t, ht, u, hu, hlead, hlead', hone, htwo, hcommit⟩ := hruns
  have hleads : LeaderRun pair.ids 1 1 s _ t := Transition.run_of_runFrom ht
  obtain ⟨-, -, hentries⟩ := leader_append_only hleads hlead (by simp [SparesLeaders]) hu hlead'
  exact ⟨s, t, u, _, hrun, hleads, hu, hone, htwo, hentries 1 (by omega) hone.ge⟩

/-- Node `1` of four leads the first term, has its first entry executed and takes two more.  It
loses the leadership and wins it again in the third term, so that its thread for node `2` starts
after the third entry.  Node `2` wins the fourth term without the last two entries and replaces
them, also at node `1`.  There the thread now finds the entry missing, dumps the store, and stamps
the message with the fourth term. -/
def snapshotOfDeposed : List Label :=
  campaign 1 3 ++ [.handle 0, .handle 1, .reply 0, .reply 1] ++
    takeRequest 1 0 (transfer (ascii "r1") 50) ++ replicate 1 2 3 ++ replicate 1 3 4 ++
    applyFirst 1 ++ [.thread 1 .notifyClient] ++
    takeRequest 1 1 (transfer (ascii "r2") 50) ++ takeRequest 1 2 (transfer (ascii "r3") 50) ++
    campaign 3 3 ++ [.handle 5] ++ campaign 1 3 ++ [.handle 8, .handle 9, .reply 8, .reply 9,
    .thread 1 (.replicateBegin 2)] ++
    campaign 2 3 ++ [.handle 12, .handle 13, .reply 12, .reply 13] ++
    takeRequest 2 0 (transfer (ascii "q") 70) ++ [.thread 2 (.replicateAtomic 1), .handle 14,
    .thread 1 (.replicateCheck 2), .thread 1 (.dumpSnapshot 2), .thread 1 (.stampSnapshot 2),
    .thread 1 (.sendSnapshot 2)]

/-- **A leader installs the snapshot of a deposed one**, which takes back what it has appended. -/
theorem leader_cuts_own_log :
    ∃ s, Transition.Run (Cluster.step [1, 2, 3, 4]) (fun _ _ => True)
        (.init [1, 2, 3, 4] fun _ => RocksDBStore.genesis) snapshotOfDeposed s ∧
      ∃ t, Cluster.step [1, 2, 3, 4] s (.handle 15) = some t ∧ s.Leads 2 4 ∧ t.Leads 2 4 ∧
        (s.nodes 2).commitIndex < (s.nodes 2).lastLogIndex ∧
        (t.nodes 2).lastLogIndex < (s.nodes 2).lastLogIndex := by
  have hruns : ∃ s, Transition.Run (Cluster.step [1, 2, 3, 4]) (fun _ _ => True)
      (.init [1, 2, 3, 4] fun _ => RocksDBStore.genesis) snapshotOfDeposed s ∧
        ∃ t ∈ Cluster.step [1, 2, 3, 4] s (.handle 15), s.Leads 2 4 ∧ t.Leads 2 4 ∧
          (s.nodes 2).commitIndex < (s.nodes 2).lastLogIndex ∧
          (t.nodes 2).lastLogIndex < (s.nodes 2).lastLogIndex :=
    run_of_after (by decide +kernel)
  exact hruns

end RaftConsensus
