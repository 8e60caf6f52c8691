import RaftConsensus.Cluster.OneBank

/-!
# What has been answered is not lost

In plain runs (without crashes and compaction, every message built in one step) the entry behind
every answer stays where it is: a majority of the nodes store it at its index, and so does every
leader that nobody is ahead of (`acknowledged_durable`).
-/

namespace RaftConsensus

open RocksDBStore Replication

variable {m : Membership} {s : Cluster} {tr : List (Seen ClientRequest Bytes Bytes)} {id r : Bytes}

/-- What is decided is in the log of every leader that nobody is ahead of. -/
lemma LogRel.decided_isPrefix {a : Logs} {T w : ℤ} {L : List LogEntry} (hrel : LogRel m s a)
    (hdec : m.Decided a T L) (hlead : (s.nodes w).state = .leader)
    (hahead : ∀ v ∈ m.ids, (s.nodes v).currentTerm ≤ (s.nodes w).currentTerm) :
    L <+: a.log w := by
  by_cases hne : L = []
  · rw [hne]
    exact List.nil_prefix
  obtain ⟨A, T₀, hA, hheld, hlater⟩ := hdec.kept Membership.quorum_inter hrel.abs.inv hne
  obtain ⟨hled, hlog, -⟩ := (hrel.nodes w).leader hlead
  -- somebody in the quorum has reached the term in which the entry was chosen
  obtain ⟨v, hv, -⟩ := Membership.quorum_inter A A hA hA
  have hreached : T₀ ≤ (s.nodes w).currentTerm := by
    refine (hheld v hv).1.trans ?_
    rw [(hrel.nodes v).term]
    exact hahead v (List.mem_toFinset.mp (hA.1 hv))
  exact hlog ▸ hlater _ hled hreached

/-- A decided entry is stored by a quorum and by the leaders that nobody is ahead of. -/
lemma LogRel.decided_stored {a : Logs} {T : ℤ} {L : List LogEntry} {k : ℕ} {e : LogEntry}
    (hrel : LogRel m s a) (hdec : m.Decided a T L) (hk : L[k]? = some e) :
    (∃ A, m.Quorum A ∧ ∀ v ∈ A, (s.nodes v).storage.entry? e.index = some e) ∧
      ∀ w, (s.nodes w).state = .leader →
        (∀ v ∈ m.ids, (s.nodes v).currentTerm ≤ (s.nodes w).currentTerm) →
          (s.nodes w).storage.entry? e.index = some e := by
  have hindex : e.index = (k : ℤ) + 1 := (hrel.abs.numbered_decided hdec k e hk).1
  have hentry : ∀ v, L <+: a.log v → (s.nodes v).storage.entry? e.index = some e := by
    intro v hpre
    rw [(hrel.nodes v).log.storage.entry?, hindex]
    exact entryAt_of_isPrefix hpre (by rwa [entryAt_succ])
  have hne : L ≠ [] := List.ne_nil_of_mem (List.mem_of_getElem? hk)
  obtain ⟨A, T₀, hA, hheld, -⟩ := hdec.kept Membership.quorum_inter hrel.abs.inv hne
  exact ⟨⟨A, hA, fun v hv => hentry v (hheld v hv).2⟩, fun w hlead hahead =>
    hentry w (hrel.decided_isPrefix hdec hlead hahead)⟩

/-- **What has been answered is not lost.**  When a request has been answered, at whatever time,
there is an entry with its id that a majority of the nodes store, and every leader that nobody is
ahead of stores it too. -/
theorem acknowledged_durable (m : Membership) (h : TracedRun m tr s)
    (hanswered : .answered id r ∈ tr) :
    ∃ e : LogEntry, e.command.requestId = id ∧
      (∃ A, m.Quorum A ∧ ∀ v ∈ A, (s.nodes v).storage.entry? e.index = some e) ∧
      ∀ w, (s.nodes w).state = .leader →
        (∀ v ∈ m.ids, (s.nodes v).currentTerm ≤ (s.nodes w).currentTerm) →
          (s.nodes w).storage.entry? e.index = some e := by
  obtain ⟨b, hrun, hb⟩ := oneBank_of_run h
  obtain ⟨k, op, hid, hop, -⟩ := (OneCopy.Traced.explains hrun).1.answered id r hanswered
  obtain ⟨a, T, L, hrel, hdec, horder, -⟩ := hb.order
  rw [horder, List.getElem?_map] at hop
  obtain ⟨e, he, rfl⟩ := Option.map_eq_some_iff.mp hop
  exact ⟨e, hid, hrel.decided_stored hdec he⟩

/-- The transfer that has been answered is stored by both nodes of a cluster of two. -/
theorem acknowledged_durable_payment :
    ∃ s e, TracedRun pair paymentSeen s ∧ e.command.requestId = Bytes.ascii "r" ∧
      ∃ A, pair.Quorum A ∧ ∀ v ∈ A, (s.nodes v).storage.entry? e.index = some e := by
  obtain ⟨s, hrun, -⟩ := tracedRun_payment
  have hanswered : .answered (Bytes.ascii "r") (Bytes.ascii "Success") ∈ paymentSeen := by
    simp [paymentSeen]
  obtain ⟨e, hid, hquorum, -⟩ := acknowledged_durable pair hrun hanswered
  exact ⟨s, e, hrun, hid, hquorum⟩

end RaftConsensus
