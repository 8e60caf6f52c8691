import RaftConsensus.Cluster.LogSafety

/-!
# What a leader knows about its peers

`matchIndex_` is what the commit loop counts, and `nextIndex_` is what is sent next.  In plain runs
(without crashes and compaction, every message built in one step) both stay within the leader's log,
and what `matchIndex_` says is true as long as it matters: the peer holds the leader's entries up to
there, except for uncommitted ones that a later leader may have taken away (`leader_bookkeeping`).
-/

namespace RaftConsensus

open Replication

variable {m : Membership} {s : Cluster} {a : Logs} {i p : ℤ} {ls : List Label}

/-- Node `p` has the entry that node `i` has at index `k`. -/
def SharesEntry (s : Cluster) (i p k : ℤ) : Prop :=
  ∃ e, (s.nodes i).storage.entry? k = some e ∧ (s.nodes p).storage.entry? k = some e

/-- Somebody has been elected since, in a term that node `p` has reached. -/
def Superseded (s : Cluster) (i p : ℤ) : Prop :=
  ∃ c T, .elected c T ∈ s.history ∧ (s.nodes i).currentTerm < T ∧ T ≤ (s.nodes p).currentTerm

/-- A prefix of both logs. -/
lemma LogRel.sharesEntry {l : List LogEntry} (hrel : LogRel m s a) (hi : l <+: a.log i)
    (hp : l <+: a.log p) {k : ℤ} (hk : 1 ≤ k) (hkl : k ≤ l.length) : SharesEntry s i p k := by
  obtain ⟨e, he, -⟩ := entryAt_of_pos hk hkl
  refine ⟨e, ?_, ?_⟩
  · rw [(hrel.nodes i).log.storage.entry?]
    exact entryAt_of_isPrefix hi he
  · rw [(hrel.nodes p).log.storage.entry?]
    exact entryAt_of_isPrefix hp he

/-- What has been acknowledged to a leader is shared, unless there has been another since. -/
lemma LogRel.acked (hrel : LogRel m s a) (hlead : (s.nodes i).state = .leader) {k : ℕ}
    (hk : 1 ≤ k) (hacked : k ≤ a.acked p (s.nodes i).currentTerm) :
    SharesEntry s i p k ∨ (s.nodes i).commitIndex < k ∧ Superseded s i p := by
  obtain ⟨hled, hlog, -⟩ := (hrel.nodes i).leader hlead
  have hpre : (a.log i).take k <+: a.log i := List.take_prefix _ _
  have hle := hrel.abs.inv.acked_le p (s.nodes i).currentTerm
  rw [← hlog] at hle
  have hlen : ((a.log i).take k).length = k := by
    rw [List.length_take]
    omega
  have hfull : (a.log i).take k <+: a.full (s.nodes i).currentTerm := hlog ▸ hpre
  have hshared (hheld : (a.log i).take k <+: a.log p) : SharesEntry s i p k :=
    hrel.sharesEntry hpre hheld (by omega) (by rw [hlen])
  obtain ⟨c, hc, -, hdec⟩ := (hrel.nodes i).commit
  by_cases hkc : k ≤ c
  · have hshorter : (a.log i).take k <+: (a.log i).take c :=
      List.take_isPrefix_take.mpr (.inl hkc)
    have hheld := (hdec.of_shorter hshorter).held Membership.quorum_inter hrel.abs.inv hled
      (by rw [hlen]; exact hacked)
    exact .inl (hshared hheld)
  · rcases hrel.abs.inv.kept p _ _ hled hfull (by rw [hlen]; exact hacked) with
      hheld | ⟨T, hT, hlt, hreached, -⟩
    · exact .inl (hshared hheld)
    · obtain ⟨c', helected⟩ := (hrel.events.led T).mp hT
      refine .inr ⟨by omega, c', T, helected, hlt, ?_⟩
      rwa [(hrel.nodes p).term] at hreached

/-- **A leader's bookkeeping is sound.**  In every plain run, the indices a leader keeps for a peer
lie within its log, and the peer holds the leader's entries up to `matchIndex_`: those that the
leader knows to be committed always, and the others unless somebody has been elected in a later term
that the peer has reached. -/
theorem leader_bookkeeping (m : Membership)
    (hrun : PlainRun m.ids (.init m.ids fun _ => .genesis) ls s)
    (hlead : (s.nodes i).state = .leader) (hp : p ∈ m.ids) (hpi : p ≠ i) :
    (1 ≤ (s.nodes i).nextIndex p ∧ (s.nodes i).nextIndex p ≤ (s.nodes i).lastLogIndex + 1) ∧
    (0 ≤ (s.nodes i).matchIndex p ∧ (s.nodes i).matchIndex p ≤ (s.nodes i).lastLogIndex) ∧
    ∀ k, 1 ≤ k → k ≤ (s.nodes i).matchIndex p →
      SharesEntry s i p k ∨ (s.nodes i).commitIndex < k ∧ Superseded s i p := by
  obtain ⟨-, -, a, hrel⟩ := logRel_of_run hrun
  obtain ⟨-, hlog, -⟩ := (hrel.nodes i).leader hlead
  have hlast := (hrel.nodes i).log.lastLogIndex
  obtain ⟨⟨j, hj, hjle, -⟩, hnonneg, hmatched⟩ := (hrel.nodes i).progress hlead p hp hpi
  have hle := hrel.abs.inv.acked_le p (s.nodes i).currentTerm
  rw [← hlog] at hle hjle
  refine ⟨⟨by omega, by omega⟩, ⟨hnonneg, by omega⟩, fun k hk hkm => ?_⟩
  lift k to ℕ using by omega
  exact hrel.acked hlead (by omega) (by omega)

/-- The leader of a cluster of two knows that its peer has the first entry. -/
theorem leader_bookkeeping_pair :
    ∃ s, PlainRun pair.ids (.init pair.ids fun _ => RocksDBStore.genesis)
        (campaign 1 1 ++ [.handle 0, .reply 0] ++
          takeRequest 1 0 (transfer (Bytes.ascii "r") 50) ++ replicate 1 2 1) s ∧
      (s.nodes 1).matchIndex 2 = 1 ∧
        (SharesEntry s 1 2 1 ∨ (s.nodes 1).commitIndex < 1 ∧ Superseded s 1 2) := by
  have hruns : ∃ s, PlainRun pair.ids (.init pair.ids fun _ => RocksDBStore.genesis)
      (campaign 1 1 ++ [.handle 0, .reply 0] ++
        takeRequest 1 0 (transfer (Bytes.ascii "r") 50) ++ replicate 1 2 1) s ∧
      (s.nodes 1).state = .leader ∧ (s.nodes 1).matchIndex 2 = 1 :=
    run_of_after (by decide +kernel)
  obtain ⟨s, hrun, hlead, hmatch⟩ := hruns
  obtain ⟨-, -, hheld⟩ := leader_bookkeeping pair hrun hlead (p := 2) (by decide) (by decide)
  exact ⟨s, hrun, hmatch, hheld 1 le_rfl hmatch.ge⟩

end RaftConsensus
