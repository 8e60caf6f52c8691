import RaftConsensus.Cluster.Restarts
import RaftConsensus.Cluster.Slices
import RaftConsensus.Node.HeldLog

/-!
# Matched logs over crashes and compaction

`FullLogs` relates a cluster to the logs its nodes would have if they never compacted them, and to
those of the leaders.  Nothing in it is about quorums, acknowledgements or what is decided, so
crashes and compaction do it no harm, and messages may be built in as many steps as the program
takes for them.  What has to be excluded is that a term gets a second leader (`ElectsFirst`), that a
message is no slice of its leader's log (`Steady`), and that entries which a node has executed are
replaced, by a message or by a snapshot (`KeepsHeld`).  No term gets a second leader as long as
nobody dies without having saved its term and its vote (`electsFirst_of_saved`).

`FullLogs.step` says what then becomes of the logs (`LogsStep`): a leader starts with the log of the
node that wins, and every later entry is one that its `appendRequest` has written.
-/

namespace RaftConsensus

open Replication

variable {members : List ℤ} {a b : Logs} {s t : Cluster} {i : ℤ} {n n' : RaftNode} {l : Label}

/-! ## Roles and terms -/

namespace RaftNode

/-- The node follows, or has the role and the term it had. -/
def SameRole (n n' : RaftNode) : Prop :=
  n'.state = .follower ∨ n'.state = n.state ∧ n'.currentTerm = n.currentTerm

lemma Move.role {call : ℕ} {x : ThreadStep} {out : Output} (hmove : n.Move call x n' out) :
    n.SameRole n' ∨ n'.state = .candidate ∧ n'.currentTerm = n.currentTerm + 1 := by
  cases hmove with
  | startElection => exact .inr ⟨rfl, rfl⟩
  | _ => exact .inl (.inr ⟨rfl, rfl⟩)

lemma sameRole_seeTerm (n : RaftNode) (t : ℤ) : n.SameRole (n.seeTerm t) := by
  rcases seeTerm_cases n t with ⟨h, -⟩ | ⟨-, h⟩
  · rw [h]
    exact .inr ⟨rfl, rfl⟩
  · rw [h]
    exact .inl rfl

lemma sameRole_handle (n : RaftNode) (req : Request) : n.SameRole (n.handle req).1 := by
  cases req with
  | requestVote args =>
      rw [handle]
      rcases handleRequestVote_cases n args with h | ⟨-, -, ⟨-, h, -⟩ | h⟩
      · rw [h]
        exact .inr ⟨rfl, rfl⟩
      · rw [h]
        exact sameRole_seeTerm n args.term
      · rw [h]
        exact sameRole_seeTerm n args.term
  | appendEntries args =>
      by_cases hterm : n.currentTerm ≤ args.term
      · exact .inl ((receivedAlike_appendEntries n args).followed hterm).1
      · right
        rw [handle, handleAppendEntries, if_pos (not_le.mp hterm)]
        exact ⟨rfl, rfl⟩
  | installSnapshot args =>
      rw [handle]
      rcases handleInstallSnapshot_cases n args with ⟨-, h⟩ | ⟨-, h⟩ | ⟨-, h⟩
      · rw [h]
        exact .inr ⟨rfl, rfl⟩
      · rw [h]
        exact sameRole_seeTerm n args.term
      · rw [h]
        exact sameRole_seeTerm n args.term

/-- An answer can make a candidate a leader. -/
lemma receive_role (n : RaftNode) (dst : ℤ) (req : Request) (rep : Reply) :
    n.SameRole (n.receive dst req rep) ∨ n.state = .candidate ∧
      (n.receive dst req rep).state = .leader ∧
        (n.receive dst req rep).currentTerm = n.currentTerm := by
  have hself : n.SameRole n := .inr ⟨rfl, rfl⟩
  cases req with
  | requestVote args =>
      cases rep with
      | requestVote r =>
          rw [receive]
          rcases voteReply_cases n args.term r with h | ⟨-, h⟩ | ⟨hstate, -, -, ⟨-, h⟩ | ⟨-, h⟩⟩
          · rw [h]
            exact .inl hself
          · rw [h]
            exact .inl (.inl rfl)
          · rw [h]
            exact .inl (.inr ⟨rfl, rfl⟩)
          · rw [h, becomeLeader_eq (n := n.countVote args.term) hstate]
            exact .inr ⟨hstate, rfl, rfl⟩
      | _ => exact .inl hself
  | appendEntries args =>
      cases rep with
      | appendEntries r =>
          left
          rw [receive, appendEntriesReply]
          dsimp only
          split
          · exact .inr ⟨rfl, rfl⟩
          · split
            · exact .inl rfl
            · split
              · split <;> exact .inr ⟨rfl, rfl⟩
              · split <;> exact .inr ⟨rfl, rfl⟩
      | _ => exact .inl hself
  | installSnapshot args =>
      cases rep with
      | installSnapshot r =>
          left
          rw [receive, installSnapshotReply]
          dsimp only
          split
          · exact .inl rfl
          · split <;> exact .inr ⟨rfl, rfl⟩
      | _ => exact .inl hself

lemma abandon_role (n : RaftNode) (dst : ℤ) (req : Request) : n.SameRole (n.abandon dst req) := by
  cases req <;> exact .inr ⟨rfl, rfl⟩

/-- The request takes back no entry that the node has committed or executed. -/
def KeepsHeld (n : RaftNode) : Request → Prop
  | .appendEntries args => n.Accepts args → n.LeavesCommitted args
  | .installSnapshot args => ¬ n.installs args
  | .requestVote _ => True

instance (n : RaftNode) : DecidablePred n.KeepsHeld
  | .appendEntries args => inferInstanceAs (Decidable (n.Accepts args → n.LeavesCommitted args))
  | .installSnapshot args => inferInstanceAs (Decidable (¬ n.installs args))
  | .requestVote _ => isTrue trivial

end RaftNode

/-- Nobody wins an election between `s` and `t`. -/
structure NobodyWins (s t : Cluster) : Prop where
  history : s.history ⊆ t.history
  elected : ∀ c T, .elected c T ∈ t.history → .elected c T ∈ s.history

lemma nobodyWins_of_append {es : List Event} (hhistory : t.history = es ++ s.history)
    (hes : ∀ c T, .elected c T ∉ es) : NobodyWins s t where
  history := hhistory ▸ List.subset_append_right _ _
  elected c T hc := by
    rw [hhistory] at hc
    exact (List.mem_append.mp hc).resolve_left (hes c T)

/-! ## The relation -/

/-- **The logs behind a cluster.**  `a.log i` is the log of node `i` as if it had never been
compacted, and `a.full T` that of the leader of term `T`. -/
structure FullLogs (s : Cluster) (a : Logs) : Prop where
  matching : Matching LogEntry.term a
  numbered : ∀ T, a.led T → Numbered (a.full T)
  led : ∀ T, a.led T ↔ ∃ c, .elected c T ∈ s.history
  one : ∀ c c' T, .elected c T ∈ s.history → .elected c' T ∈ s.history → c = c'
  holds : ∀ i, (s.nodes i).HoldsLog (a.log i)
  term : ∀ i, (s.nodes i).state ≠ .follower → 1 ≤ (s.nodes i).currentTerm
  leader : ∀ i, (s.nodes i).state = .leader →
    .elected i (s.nodes i).currentTerm ∈ s.history ∧ a.log i = a.full (s.nodes i).currentTerm

/-- Where the log `r` of the leader of term `T` comes from in a step. -/
inductive LeaderLog (s : Cluster) (l : Label) (a : Logs) (T : ℤ) (r : List LogEntry) : Prop
  | kept (hled : a.led T) (hr : r = a.full T)
  | won (i : ℤ) (hr : r = a.log i)
  | appended (i : ℤ) (cb : ℕ) (req : ClientRequest) (hl : l = .thread i (.appendRequest cb))
      (hreq : (s.nodes i).requests cb = some (.lookedUp req))
      (hstate : (s.nodes i).state = .leader)
      (hpending : (s.nodes i).pendingCallbacks req.requestId = none)
      (hr : r = a.log i ++ [(s.nodes i).newEntry req])

/-- How far a node has executed its log, by the store. -/
abbrev RaftNode.storedApplied (n : RaftNode) : ℤ := n.storage.getLastAppliedIndex

/-- **What a step does to the logs.**  Those of the leaders grow; what a node has executed grows as
well, and it is the beginning of its log before and after the step. -/
structure LogsStep (s : Cluster) (l : Label) (t : Cluster) (a b : Logs) : Prop where
  grows : ∀ T, a.led T → b.led T ∧ a.full T <+: b.full T
  origin : ∀ T, b.led T → LeaderLog s l a T (b.full T)
  applied : ∀ i, (s.nodes i).storedApplied ≤ (t.nodes i).storedApplied
  executed : ∀ i, (b.log i).take (t.nodes i).storedApplied.toNat =
    (a.log i).take (t.nodes i).storedApplied.toNat

/-- A node that has not executed less than before. -/
lemma Cluster.applied_le (hnodes : t.nodes = Function.update s.nodes i n)
    (hn : (s.nodes i).storedApplied ≤ n.storedApplied) (j : ℤ) :
    (s.nodes j).storedApplied ≤ (t.nodes j).storedApplied :=
  Cluster.forall_nodes (P := fun j n => (s.nodes j).storedApplied ≤ n.storedApplied) hnodes hn
    (fun _ _ => le_rfl) j

/-- A step of a node that leaves all logs alone. -/
lemma LogsStep.same (hnodes : t.nodes = Function.update s.nodes i n)
    (hn : (s.nodes i).storedApplied ≤ n.storedApplied) : LogsStep s l t a a :=
  ⟨fun _ h => ⟨h, List.prefix_rfl⟩, fun _ h => .kept h rfl, Cluster.applied_le hnodes hn,
    fun _ => rfl⟩

namespace FullLogs

lemma numbered_of_matched (h : FullLogs s a) {r : List LogEntry}
    (hr : Matched LogEntry.term a r) : Numbered r :=
  hr.of_full numbered_nil (fun _ _ hnum => hnum.of_shorter) h.numbered

lemma numbered_log (h : FullLogs s a) (i : ℤ) : Numbered (a.log i) :=
  h.numbered_of_matched (h.matching.log i)

lemma led_of_leader (h : FullLogs s a) (hstate : (s.nodes i).state = .leader) :
    a.led (s.nodes i).currentTerm :=
  (h.led _).mpr ⟨i, (h.leader i hstate).1⟩

/-- What a leader has stored is in the log of its term. -/
lemma stored_of_leader (h : FullLogs s a) (hstate : (s.nodes i).state = .leader) {j : ℤ}
    {e : LogEntry} (hj : 1 ≤ j) (he : (s.nodes i).storage.entry? j = some e) :
    entryAt (a.full (s.nodes i).currentTerm) j = some e := by
  obtain ⟨c, hlog, -⟩ := (h.holds i).log
  rw [hlog.storage.entry j hj] at he
  split at he
  · cases he
  · rw [← (h.leader i hstate).2, he]

/-- One node changes, with its log or without. -/
lemma of_node (h : FullLogs s a) (hnodes : t.nodes = Function.update s.nodes i n)
    (hsub : s.history ⊆ t.history) (hmatching : Matching LogEntry.term b)
    (hnum : ∀ T, b.led T → Numbered (b.full T))
    (hled : ∀ T, b.led T ↔ ∃ c, .elected c T ∈ t.history)
    (hone : ∀ c c' T, .elected c T ∈ t.history → .elected c' T ∈ t.history → c = c')
    (hlog : ∀ j, j ≠ i → b.log j = a.log j)
    (hfull : ∀ j, j ≠ i → (s.nodes j).state = .leader →
      b.full (s.nodes j).currentTerm = a.full (s.nodes j).currentTerm)
    (hholds : n.HoldsLog (b.log i)) (hterm : n.state ≠ .follower → 1 ≤ n.currentTerm)
    (hleader : n.state = .leader →
      .elected i n.currentTerm ∈ t.history ∧ b.log i = b.full n.currentTerm) : FullLogs t b where
  matching := hmatching
  numbered := hnum
  led := hled
  one := hone
  holds := Cluster.forall_nodes (P := fun j n => n.HoldsLog (b.log j)) hnodes hholds
    fun j hj => hlog j hj ▸ h.holds j
  term := Cluster.forall_nodes (P := fun _ n => n.state ≠ .follower → 1 ≤ n.currentTerm) hnodes
    hterm fun j _ => h.term j
  leader := Cluster.forall_nodes (P := fun j n => n.state = .leader →
      .elected j n.currentTerm ∈ t.history ∧ b.log j = b.full n.currentTerm) hnodes hleader
    fun j hj hstate => by
      obtain ⟨helected, hsame⟩ := h.leader j hstate
      exact ⟨hsub helected, by rw [hlog j hj, hfull j hj hstate, hsame]⟩

/-- One node changes, and nobody is elected. -/
lemma of_still (h : FullLogs s a) (hnodes : t.nodes = Function.update s.nodes i n)
    (hquiet : NobodyWins s t) (hmatching : Matching LogEntry.term b) (hled : b.led = a.led)
    (hnum : ∀ T, a.led T → Numbered (b.full T)) (hlog : ∀ j, j ≠ i → b.log j = a.log j)
    (hfull : ∀ j, j ≠ i → (s.nodes j).state = .leader →
      b.full (s.nodes j).currentTerm = a.full (s.nodes j).currentTerm)
    (hholds : n.HoldsLog (b.log i))
    (hrole : (s.nodes i).SameRole n ∨ n.state = .candidate ∧ 1 ≤ n.currentTerm)
    (hleader : (s.nodes i).state = .leader → n.state = .leader →
      b.log i = b.full (s.nodes i).currentTerm) : FullLogs t b := by
  refine h.of_node hnodes hquiet.history hmatching (hled ▸ hnum) (fun T => ?_)
    (fun c c' T hc hc' => h.one c c' T (hquiet.elected c T hc) (hquiet.elected c' T hc')) hlog
    hfull hholds (fun hstate => ?_) fun hstate => ?_
  · rw [hled, h.led]
    exact exists_congr fun c => ⟨fun hc => hquiet.history hc, hquiet.elected c T⟩
  · rcases hrole with (hfollow | ⟨hsame, hterm⟩) | ⟨-, hpos⟩
    · exact absurd hfollow hstate
    · rw [hterm]
      exact h.term i (hsame ▸ hstate)
    · exact hpos
  · rcases hrole with (hfollow | ⟨hsame, hterm⟩) | ⟨hcand, -⟩
    · cases hfollow.symm.trans hstate
    · have hlead : (s.nodes i).state = .leader := hsame ▸ hstate
      rw [hterm]
      exact ⟨hquiet.history (h.leader i hlead).1, hleader hlead hstate⟩
    · cases hcand.symm.trans hstate

/-- One node changes, but not its log. -/
lemma quiet (h : FullLogs s a) (hnodes : t.nodes = Function.update s.nodes i n)
    (hquiet : NobodyWins s t) (hholds : n.HoldsLog (a.log i))
    (hrole : (s.nodes i).SameRole n ∨ n.state = .candidate ∧ 1 ≤ n.currentTerm) :
    FullLogs t a :=
  h.of_still hnodes hquiet h.matching rfl h.numbered (fun _ _ => rfl) (fun _ _ _ => rfl) hholds
    hrole fun hstate _ => (h.leader i hstate).2

/-! ## Elections -/

/-- A candidate becomes the leader of its term, which starts with its log. -/
lemma elect (h : FullLogs s a) (hnodes : t.nodes = Function.update s.nodes i n)
    (hfree : ∀ c, .elected c (s.nodes i).currentTerm ∉ s.history)
    (hevents : ∀ c T, .elected c T ∈ t.history ↔
      c = i ∧ T = (s.nodes i).currentTerm ∨ .elected c T ∈ s.history)
    (hsub : s.history ⊆ t.history) (hstate : (s.nodes i).state = .candidate)
    (hholds : n.HoldsLog (a.log i)) (hterm : n.currentTerm = (s.nodes i).currentTerm)
    (happlied : (s.nodes i).storedApplied ≤ n.storedApplied) :
    ∃ b, FullLogs t b ∧ LogsStep s l t a b := by
  set T := (s.nodes i).currentTerm
  have hfree' : ¬ a.led T := fun hled => by
    obtain ⟨c, hc⟩ := (h.led T).mp hled
    exact hfree c hc
  let b : Logs := { a with
    led := fun t => t = T ∨ a.led t
    full := Function.update a.full T (a.log i) }
  have hself : b.full T = a.log i := Function.update_self ..
  have hold : ∀ t, a.led t → b.full t = a.full t := fun t ht =>
    Function.update_of_ne (fun heq : t = T => hfree' (heq ▸ ht)) ..
  have hcases : ∀ {P : ℤ → List LogEntry → Prop}, P T (a.log i) → (∀ t, a.led t → P t (a.full t)) →
      ∀ t, b.led t → P t (b.full t) := by
    rintro P hT hothers t (rfl | ht)
    · rw [hself]
      exact hT
    · rw [hold t ht]
      exact hothers t ht
  refine ⟨b, h.of_node hnodes hsub (h.matching.elect (c := i) hfree' (fun _ => Iff.rfl) rfl rfl)
    (hcases (P := fun _ r => Numbered r) (h.numbered_log i) h.numbered) (fun t => ?_)
    (fun c c' t hc hc' => ?_) (fun _ _ => rfl) (fun j _ hj => hold _ (h.led_of_leader hj)) hholds
    (fun _ => ?_) fun _ => ⟨?_, ?_⟩,
    ⟨fun t ht => ⟨.inr ht, (hold t ht).symm ▸ List.prefix_rfl⟩, ?_,
      Cluster.applied_le hnodes happlied, fun _ => rfl⟩⟩
  · simp only [hevents, exists_or, exists_and_right, exists_eq, true_and, ← h.led]
    rfl
  · rcases (hevents c t).mp hc with ⟨rfl, rfl⟩ | hc <;>
      rcases (hevents c' _).mp hc' with ⟨rfl, hT⟩ | hc'
    · rfl
    · exact absurd hc' (hfree c')
    · exact absurd (hT ▸ hc) (hfree c)
    · exact h.one c c' t hc hc'
  · rw [hterm]
    exact h.term i (by simp [hstate])
  · rw [hterm]
    exact (hevents i T).mpr (.inl ⟨rfl, rfl⟩)
  · rw [hterm, hself]
  · exact hcases (P := LeaderLog s l a) (.won i rfl) fun t ht => .kept ht rfl

/-! ## Entries -/

/-- A leader appends the entry of a request. -/
lemma append (h : FullLogs s a) (hnodes : t.nodes = Function.update s.nodes i n)
    (hquiet : NobodyWins s t)
    {cb : ℕ} {req : ClientRequest} (hreq : (s.nodes i).requests cb = some (.lookedUp req))
    (hstate : (s.nodes i).state = .leader)
    (hpending : (s.nodes i).pendingCallbacks req.requestId = none)
    (hholds : n.HoldsLog (a.log i ++ [(s.nodes i).newEntry req]))
    (hrole : (s.nodes i).SameRole n)
    (happlied : n.storedApplied = (s.nodes i).storedApplied) :
    ∃ b, FullLogs t b ∧ LogsStep s (.thread i (.appendRequest cb)) t a b := by
  set T := (s.nodes i).currentTerm
  set e := (s.nodes i).newEntry req
  have hT : a.led T := h.led_of_leader hstate
  obtain ⟨helected, hlog⟩ := h.leader i hstate
  have hlast := (h.holds i).lastLogIndex
  let b : Logs := { a with
    full := Function.update a.full T (a.full T ++ [e])
    log := Function.update a.log i (a.log i ++ [e]) }
  have hself : b.full T = a.full T ++ [e] := Function.update_self ..
  have hold : ∀ t, t ≠ T → b.full t = a.full t := fun t ht => Function.update_of_ne ht ..
  have hmine : b.log i = a.log i ++ [e] := Function.update_self ..
  have hothers : ∀ j, j ≠ i → b.log j = a.log j := fun j hj => Function.update_of_ne hj ..
  have hnum : Numbered (a.full T ++ [e]) := by
    refine (h.numbered T hT).concat ?_ (h.term i (by simp [hstate]))
    show (s.nodes i).lastLogIndex + 1 = _
    rw [hlast, hlog]
  refine ⟨b, h.of_still hnodes hquiet (h.matching.append hT hlog rfl rfl rfl rfl) rfl
    (fun t ht => ?_) hothers (fun j hj hlead => hold _ fun hsame => hj ?_) (hmine ▸ hholds)
    (.inl hrole) (fun _ _ => ?_), ⟨fun t ht => ⟨ht, ?_⟩, fun t ht => ?_,
      Cluster.applied_le hnodes happlied.ge, fun j => ?_⟩⟩
  · by_cases htT : t = T
    · rw [htT, hself]
      exact hnum
    · rw [hold t htT]
      exact h.numbered t ht
  · -- nobody else leads the same term
    have hother := (h.leader j hlead).1
    rw [hsame] at hother
    exact h.one j i T hother helected
  · rw [hself, hmine, hlog]
  · by_cases htT : t = T
    · rw [htT, hself]
      exact List.prefix_append _ _
    · rw [hold t htT]
  · by_cases htT : t = T
    · rw [htT, hself, ← hlog]
      exact .appended i cb req rfl hreq hstate hpending rfl
    · exact .kept ht (hold t htT)
  · by_cases hj : j = i
    · have hbound : (s.nodes i).storedApplied ≤ (a.log i).length := (h.holds i).applied
      rw [hj, hmine, hnodes, Function.update_self, happlied]
      exact List.take_append_of_le_length (by omega)
    · rw [hothers j hj]

/-- A node takes over entries of a leader after a part of that leader's log. -/
lemma accept (h : FullLogs s a) (hnodes : t.nodes = Function.update s.nodes i n)
    (hquiet : NobodyWins s t)
    {args : AppendEntriesArgs} (hn : n = ((s.nodes i).handleAppendEntries args).1)
    (hacc : (s.nodes i).Accepts args) (hleaves : (s.nodes i).LeavesCommitted args)
    {T : ℤ} (hT : a.led T) {pre : List LogEntry} (hprev : args.prevLogIndex = pre.length)
    (hterm : args.prevLogTerm = lastTerm pre) (hpart : pre ++ args.entries <+: a.full T) :
    ∃ b, FullLogs t b ∧ LogsStep s l t a b := by
  have happlied : n.storedApplied = (s.nodes i).storedApplied := by
    rw [hn]
    exact (RaftNode.appliedStill_handleAppendEntries _ args).2.2
  have hmatched : Matched LogEntry.term a (pre ++ args.entries) :=
    (h.matching.full T hT).of_shorter hpart
  have hfollow : n.state = .follower := by
    rw [hn]
    exact ((RaftNode.receivedAlike_appendEntries _ args).followed hacc.1).1
  rcases (h.holds i).accept hacc hleaves hprev hterm (h.numbered_of_matched hmatched)
    (h.matching.log i) hmatched with hheld | ⟨hheld, hexecuted⟩
  · exact ⟨a, h.quiet hnodes hquiet (hn ▸ hheld) (.inl (.inl hfollow)),
      .same hnodes happlied.ge⟩
  · let b : Logs := { a with log := Function.update a.log i (pre ++ args.entries) }
    have hmine : b.log i = pre ++ args.entries := Function.update_self ..
    have hothers : ∀ j, j ≠ i → b.log j = a.log j := fun j hj => Function.update_of_ne hj ..
    refine ⟨b, h.of_still hnodes hquiet (h.matching.take (v := i) hT hpart rfl rfl rfl) rfl
      h.numbered hothers (fun _ _ _ => rfl) (hn ▸ hmine ▸ hheld) (.inl (.inl hfollow))
      (fun _ hstate => by cases hfollow.symm.trans hstate),
      ⟨fun t ht => ⟨ht, List.prefix_rfl⟩, fun t ht => .kept ht rfl,
        Cluster.applied_le hnodes happlied.ge, fun j => ?_⟩⟩
    by_cases hj : j = i
    · rw [hj, hmine, hnodes, Function.update_self, happlied]
      exact hexecuted
    · rw [hothers j hj]

end FullLogs

/-! ## Messages -/

/-- A slice of a store whose entries are those of `r` continues a part of `r`. -/
lemma AppendEntriesArgs.SliceOf.isPrefix {args : AppendEntriesArgs} {σ : RocksDBStore}
    (h : args.SliceOf σ) (hprev : 0 ≤ args.prevLogIndex) {r : List LogEntry}
    (hσ : ∀ j e, 1 ≤ j → σ.entry? j = some e → entryAt r j = some e) :
    ∃ pre, args.prevLogIndex = pre.length ∧ args.prevLogTerm = lastTerm pre ∧
      pre ++ args.entries <+: r := by
  have hread : ∀ {j}, 1 ≤ j → (σ.getLogEntry j).term ≠ 0 →
      entryAt r j = some (σ.getLogEntry j) := by
    intro j hj hne
    rw [RocksDBStore.getLogEntry_eq] at hne ⊢
    cases he : σ.entry? j with
    | none =>
        rw [he] at hne
        exact absurd rfl hne
    | some e => exact hσ j e hj he
  obtain ⟨p, hp⟩ := Int.eq_ofNat_of_zero_le hprev
  have hpre : p ≤ r.length ∧ args.prevLogTerm = lastTerm (r.take p) := by
    rw [h.prevTerm]
    cases p with
    | zero =>
        rw [if_neg (by omega)]
        exact ⟨Nat.zero_le _, rfl⟩
    | succ p =>
        have hne : (σ.getLogEntry args.prevLogIndex).term ≠ 0 := by
          intro hzero
          have hterm := h.prevTerm
          rw [if_pos (by omega), hzero, h.prevTerm_zero] at hterm
          omega
        have hget := hread (by omega) hne
        rw [if_pos (by omega)]
        rw [hp, Nat.cast_succ] at hget ⊢
        rw [entryAt_succ] at hget
        exact ⟨(List.getElem?_eq_some_iff.mp hget).1, (lastTerm_take hget).symm⟩
  refine ⟨r.take p, by rw [List.length_take, min_eq_left hpre.1, hp], hpre.2, ?_⟩
  have hlen : (r.take p).length = p := by rw [List.length_take, min_eq_left hpre.1]
  rw [List.prefix_iff_getElem?]
  intro k hk
  rw [List.getElem_append]
  split
  · rename_i hlt
    rw [List.getElem_take, List.getElem?_eq_getElem (by omega)]
  · rename_i hge
    rw [List.length_append] at hk
    have hlt : k - (r.take p).length < args.entries.length := by omega
    obtain ⟨-, hpos, hsent⟩ := h.entries _ _ (List.getElem?_eq_getElem hlt)
    have hget := hread (j := args.prevLogIndex + 1 + ((k - (r.take p).length : ℕ) : ℤ)) (by omega)
      (by rw [hsent]; omega)
    have hindex : args.prevLogIndex + 1 + ((k - (r.take p).length : ℕ) : ℤ) = (k : ℤ) + 1 := by
      omega
    rw [hsent, hindex, entryAt_succ] at hget
    exact hget

/-- What a leader of term `T` may have stored. -/
def Logs.StoredBy (a : Logs) (T : ℤ) (σ : RocksDBStore) : Prop :=
  a.led T ∧ ∀ j e, 1 ≤ j → σ.entry? j = some e → entryAt (a.full T) j = some e

lemma LogsStep.storedBy (h : LogsStep s l t a b) {T : ℤ} {σ : RocksDBStore} (hσ : a.StoredBy T σ) :
    b.StoredBy T σ := by
  obtain ⟨hled, hpart⟩ := h.grows T hσ.1
  exact ⟨hled, fun j e hj he => entryAt_of_isPrefix hpart (hσ.2 j e hj he)⟩

/-! ## Steps -/

/-- Somebody wins term `T`. -/
def Event.isElection (T : ℤ) : Event → Bool
  | .elected _ T' => T' = T
  | _ => false

/-- A node wins only a term that nobody has won. -/
def Cluster.ElectsFirst (s : Cluster) : Label → Prop
  | .reply k => ∀ c ∈ s.calls k, ∀ rep ∈ c.reply, (s.nodes c.src).state ≠ .leader →
      ((s.nodes c.src).receive c.dst c.request rep).state = .leader →
        ∀ e ∈ s.history, e.isElection (s.nodes c.src).currentTerm = false
  | _ => True

instance (s : Cluster) : DecidablePred s.ElectsFirst
  | .reply k => inferInstanceAs (Decidable (∀ c ∈ s.calls k, ∀ rep ∈ c.reply, _))
  | .thread _ _ | .handle _ | .fail _ | .crash _ => isTrue trivial

/-- The steps that keep what a node has committed or executed. -/
def Cluster.KeepsHeld (s : Cluster) : Label → Prop
  | .handle k => ∀ c ∈ s.calls k, (s.nodes c.dst).KeepsHeld c.request
  | _ => True

instance (s : Cluster) : DecidablePred s.KeepsHeld
  | .handle k => inferInstanceAs (Decidable (∀ c ∈ s.calls k, _))
  | .thread _ _ | .reply _ | .fail _ | .crash _ => isTrue trivial

/-- What a thread step records makes nobody a leader. -/
lemma elected_threadEvents {x : ThreadStep} {out : Output} {c T : ℤ} :
    .elected c T ∉ Cluster.threadEvents i x n n' out := by
  by_cases hx : x = .startElection
  · subst hx
    simp [Cluster.threadEvents]
  · exact Cluster.not_elected_of_quiet (quiet_threadEvents hx)

lemma elected_handleEvents {req : Request} {rep : Reply} {c T : ℤ} :
    .elected c T ∉ Cluster.handleEvents i req rep := by
  unfold Cluster.handleEvents
  split
  · split <;> simp
  · simp

namespace FullLogs

/-- **A step of a node's own threads.** -/
lemma thread (hin : s.InRange) (h : FullLogs s a) {x : ThreadStep} {out : Output}
    (hmove : (s.nodes i).Move s.nextCall x n out) {t : Cluster}
    (ht : t = ((s.setNode i n).emit i out).record
      (Cluster.threadEvents i x (s.nodes i) n out)) :
    ∃ b, FullLogs t b ∧ LogsStep s (.thread i x) t a b := by
  have hnodes : t.nodes = Function.update s.nodes i n := by simp [ht]
  have hquiet : NobodyWins s t :=
    nobodyWins_of_append (by simp [ht]; rfl) fun _ _ => elected_threadEvents
  have hrole := hmove.role
  have hrole' : (s.nodes i).SameRole n ∨ n.state = .candidate ∧ 1 ≤ n.currentTerm := by
    refine hrole.imp_right fun ⟨hstate, hterm⟩ => ⟨hstate, ?_⟩
    have hpos := (hin.nodes i).term
    omega
  by_cases hx : RaftNode.ofExecutor x
  · have hholds := (h.holds i).execute (hin.nodes i) (h.numbered_log i) hx hmove
    exact ⟨a, h.quiet hnodes hquiet hholds.1 hrole', .same hnodes hholds.2⟩
  · have happlied : n.storedApplied = (s.nodes i).storedApplied := (hmove.appliedStill hx).2.2
    by_cases happend : n.lastLogIndex = (s.nodes i).lastLogIndex
    · exact ⟨a, h.quiet hnodes hquiet
        ((h.holds i).still (hmove.holdsStill hx fun _ _ => happend)) hrole',
        .same hnodes happlied.ge⟩
    · cases hmove with
      | @appendRequest cb req hreq hstate hpending =>
          let cleared : RaftNode := { s.nodes i with
            requests := Function.update (s.nodes i).requests cb none }
          have hcleared : cleared.HoldsLog (a.log i) :=
            (h.holds i).still (.of_eq rfl rfl rfl rfl rfl)
          exact h.append hnodes hquiet hreq hstate hpending (hcleared.acceptRequest cb req)
            (.inr ⟨rfl, rfl⟩) happlied
      | _ => exact absurd rfl happend

/-- **A request is handled.** -/
lemma handle (hin : s.InRange) (h : FullLogs s a) (hslices : Slices (fun _ => a.StoredBy) s)
    {k : ℕ} {src dst : ℤ} {req : Request} {alive : Bool}
    (hk : s.calls k = some ⟨src, dst, req, none, alive⟩)
    (hkeeps : (s.nodes dst).KeepsHeld req) {t : Cluster}
    (ht : t = ((s.setNode dst ((s.nodes dst).handle req).1).setCall k
      (some ⟨src, dst, req, some ((s.nodes dst).handle req).2, alive⟩)).record
        (Cluster.handleEvents dst req ((s.nodes dst).handle req).2)) :
    ∃ b, FullLogs t b ∧ LogsStep s (.handle k) t a b := by
  have hnodes : t.nodes = Function.update s.nodes dst ((s.nodes dst).handle req).1 := by
    rw [ht]
    rfl
  have hquiet : NobodyWins s t :=
    nobodyWins_of_append (by rw [ht]; rfl) fun _ _ => elected_handleEvents
  by_cases hacc : ∃ args, req = .appendEntries args ∧ (s.nodes dst).Accepts args
  · obtain ⟨args, rfl, hacc⟩ := hacc
    obtain ⟨σ, hσ, hslice⟩ := hslices.calls k _ args hk rfl
    obtain ⟨pre, hprev, hterm, hpart⟩ := hslice.isPrefix (hin.calls k _ hk).1 hσ.2
    exact h.accept hnodes hquiet rfl hacc (hkeeps hacc) hσ.1 hprev hterm hpart
  · have hstill : (s.nodes dst).HoldsStill ((s.nodes dst).handle req).1 := by
      refine RaftNode.holdsStill_handle (fun args hreq hargs => hacc ⟨args, hreq, hargs⟩) ?_
      rintro args rfl
      exact hkeeps
    exact ⟨a, h.quiet hnodes hquiet ((h.holds dst).still hstill)
      (.inl (RaftNode.sameRole_handle _ req)), .same hnodes hstill.storedApplied.ge⟩

/-- **An answer is received.** -/
lemma reply (h : FullLogs s a) {k : ℕ} {src dst : ℤ} {req : Request} {rep : Reply}
    (hfirst : (s.nodes src).state ≠ .leader →
      ((s.nodes src).receive dst req rep).state = .leader →
        ∀ e ∈ s.history, e.isElection (s.nodes src).currentTerm = false) {t : Cluster}
    (ht : t = ((s.setNode src ((s.nodes src).receive dst req rep)).setCall k none).record
      (Cluster.replyEvents src (s.nodes src) ((s.nodes src).receive dst req rep))) :
    ∃ b, FullLogs t b ∧ LogsStep s (.reply k) t a b := by
  have hstill := RaftNode.holdsStill_receive (s.nodes src) dst req rep
  have hholds := (h.holds src).still hstill
  have hnodes : t.nodes = Function.update s.nodes src ((s.nodes src).receive dst req rep) := by
    rw [ht]
    rfl
  have hhistory : t.history = Cluster.replyEvents src (s.nodes src)
      ((s.nodes src).receive dst req rep) ++ s.history := by
    rw [ht]
    rfl
  rcases (s.nodes src).receive_role dst req rep with hrole | ⟨hcand, hlead, hterm⟩
  · refine ⟨a, h.quiet hnodes (nobodyWins_of_append hhistory fun c T => ?_) hholds (.inl hrole),
      .same hnodes hstill.storedApplied.ge⟩
    refine Cluster.not_elected_of_quiet (quiet_replyEvents fun hlead => ?_)
    rcases hrole with hfollow | ⟨hsame, -⟩
    · cases hfollow.symm.trans hlead
    · exact hsame.symm.trans hlead
  · have hnot : (s.nodes src).state ≠ .leader := by simp [hcand]
    refine h.elect hnodes (fun c hc => ?_) (fun c T => ?_) (by simp [hhistory]) hcand hholds hterm
      hstill.storedApplied.ge
    · have := hfirst hnot hlead _ hc
      simp [Event.isElection] at this
    · rw [hhistory, Cluster.replyEvents, if_pos ⟨hnot, hlead⟩, hterm]
      split <;> simp

/-- **Every step that elects first leaders and keeps what is held.** -/
theorem step (hin : s.InRange) (h : FullLogs s a) (hslices : Slices (fun _ => a.StoredBy) s)
    (hfirst : s.ElectsFirst l) (hkeeps : s.KeepsHeld l) (hmove : s.Move members l t) :
    ∃ b, FullLogs t b ∧ LogsStep s l t a b := by
  cases hmove with
  | thread _ hmove => exact h.thread hin hmove rfl
  | handle hk => exact h.handle hin hslices hk (hkeeps _ hk) rfl
  | reply hk => exact h.reply (hfirst _ hk _ rfl) rfl
  | @fail k src dst req rep hk =>
      have hstill := RaftNode.holdsStill_abandon (s.nodes src) dst req
      exact ⟨a, h.quiet (i := src) rfl ⟨List.Subset.refl _, fun _ _ => id⟩
        ((h.holds src).still hstill) (.inl (RaftNode.abandon_role _ dst req)),
        .same (i := src) rfl hstill.storedApplied.ge⟩
  | @crash i =>
      exact ⟨a, h.quiet (i := i) rfl ⟨List.Subset.refl _, fun _ _ => id⟩ (h.holds i).restart
        (.inl (.inl rfl)), .same (i := i) rfl le_rfl⟩

lemma init : FullLogs (.init members fun _ => RocksDBStore.genesis) Logs.init where
  matching := ⟨fun _ => matched_nil, fun _ h => h.elim⟩
  numbered _ h := h.elim
  led T := by simp [Logs.init, Cluster.init]
  one _ _ _ h := by cases h
  holds i := RaftNode.holdsLog_new_genesis _
  term _ h := absurd rfl h
  leader _ h := by cases h

end FullLogs

/-! ## Runs -/

/-- **The steps that keep the logs matched.**  No term gets a second leader, no step breaks a
message that is being built, and no request takes back what its receiver has committed or
executed. -/
structure KeepsLogs (s : Cluster) (l : Label) : Prop where
  first : s.ElectsFirst l
  steady : Steady s l
  held : s.KeepsHeld l

instance (s : Cluster) : DecidablePred (KeepsLogs s) := fun l =>
  decidable_of_iff (s.ElectsFirst l ∧ Steady s l ∧ s.KeepsHeld l)
    ⟨fun ⟨h₁, h₂, h₃⟩ => ⟨h₁, h₂, h₃⟩, fun h => ⟨h.first, h.steady, h.held⟩⟩

/-- A cluster with the logs behind it, and what these depend on. -/
structure Backed (s : Cluster) (a : Logs) : Prop where
  inRange : s.InRange
  logs : FullLogs s a
  slices : Slices (fun _ => a.StoredBy) s

/-- **Every such step keeps the logs behind the cluster.** -/
theorem Backed.step (h : Backed s a) (hl : KeepsLogs s l)
    (hstep : Cluster.step members s l = some t) : ∃ b, Backed t b ∧ LogsStep s l t a b := by
  have hmove := Cluster.move_of_step hstep
  obtain ⟨b, hlogs, hnext⟩ := h.logs.step h.inRange h.slices hl.first hl.held hmove
  have hslices := h.slices.step h.inRange (fun i hstate =>
    ⟨h.logs.led_of_leader hstate, fun _ _ => h.logs.stored_of_leader hstate⟩) hl.steady hstep
  exact ⟨b, ⟨h.inRange.step hl.steady.1 hmove, hlogs, hslices.mono fun _ _ _ => hnext.storedBy⟩,
    hnext⟩

/-- **Crashes that lose no vote give no term a second leader.** -/
theorem electsFirst_of_saved {m : Membership} {stores : ℤ → RocksDBStore} {ls : List Label}
    (hrun : Transition.Run (Cluster.step m.ids) Cluster.CrashSaved (.init m.ids stores) ls s)
    (hstep : Cluster.step m.ids s l = some t) : s.ElectsFirst l := by
  obtain ⟨hr, hinv⟩ := ElectionInv.run_saved hrun
  have hmove := Cluster.move_of_step hstep
  have hnext : l.crashFree → ElectionInv m t := fun hl => hinv.step hr hl hmove
  cases hmove with
  | @reply k src dst req rep hk =>
      have hinv' := hnext trivial
      intro c hc rep' hrep hnot hlead e he
      obtain rfl := Option.some.inj (hk.symm.trans hc)
      obtain rfl := Option.some.inj hrep
      rcases (s.nodes src).receive_role dst req rep with (hfollow | ⟨hsame, -⟩) | ⟨hcand, -, hterm⟩
      · cases hfollow.symm.trans hlead
      · exact absurd (hsame.symm.trans hlead) hnot
      · cases e with
        | elected c T =>
            refine decide_eq_false fun hT => ?_
            refine hinv.not_elected_of_candidate (i := src) hinv' hcand (by simp) ?_ (hT ▸ he)
            simp [Cluster.replyEvents, hnot, hlead, hterm]
        | _ => rfl
  | _ => trivial

lemma backed_init : Backed (.init members fun _ => RocksDBStore.genesis) .init where
  inRange := Cluster.inRange_init fun _ => RocksDBStore.inRange_genesis
  logs := .init
  slices := ⟨fun _ _ => trivial, by simp [Cluster.init]⟩

end RaftConsensus
