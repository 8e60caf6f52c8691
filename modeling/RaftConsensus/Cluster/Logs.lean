import RaftConsensus.Library.Lagging
import RaftConsensus.Storage.Replay
import RaftConsensus.Storage.StoredLog
import RaftConsensus.Cluster.ApplyOrder

/-!
# Logs of the cluster refine abstract replication

`LogRel m s a` relates a cluster to a state of `Replication`.  The logs and terms of the abstract
state are those of the nodes; the logs of past leaders and what has been acknowledged to them are
not in the cluster any more, so the abstract state is not computed from it.

For every node the relation says what its RAM and its store hold, what a candidate knows about its
votes, what a leader knows about its peers (`Progress`) and what the executor has applied
(`ExecutorRel`).  A message (`MessageRel`) is a slice of the log of the leader of its term,
together with what its sender knew about the receiver, and an answer says what the receiver has
done.  Every clause survives in later abstract states, as long as the node it is about does not
move.
-/

namespace RaftConsensus

open Replication

/-- Abstract states with the logs of the cluster. -/
abbrev Logs := Replication.State ℤ ℤ LogEntry

/-- `l` is decided by term `T`. -/
abbrev Membership.Decided (m : Membership) (a : Logs) (T : ℤ) (l : List LogEntry) : Prop :=
  Replication.Decided LogEntry.term m.Quorum a T l

variable {m : Membership} {a b : Logs} {s t : Cluster} {i : ℤ} {n n' : RaftNode}

/-! ## The abstract state -/

/-- The invariant of replication, with entries that are numbered. -/
structure LogInv (m : Membership) (a : Logs) : Prop where
  inv : Replication.Inv LogEntry.term m.Quorum a
  pos : ∀ T, a.led T → 1 ≤ T
  numbered : ∀ T, a.led T → Numbered (a.full T)

lemma take_concat_isPrefix {l : List LogEntry} {k : ℕ} {e : LogEntry} (h : l[k]? = some e) :
    l.take k ++ [e] <+: l := by
  obtain ⟨hk, rfl⟩ := List.getElem?_eq_some_iff.mp h
  rw [List.take_concat_get']
  exact List.take_prefix _ _

/-- Two matched logs have the same entry wherever they have entries of the same term. -/
lemma sameTerms_of_matched {l r : List LogEntry} (hl : Matched LogEntry.term a l)
    (hr : Matched LogEntry.term a r) : RaftNode.HasLog.SameTerms l r := by
  intro k x y hx hy hterm
  have htake := hl.take_eq hr hx hy hterm
  have hget := congrArg (fun t : List LogEntry => t[k]?) htake
  simpa [List.getElem?_take, hx, hy] using hget

namespace LogInv

lemma numbered_of_matched (h : LogInv m a) {l : List LogEntry} (hl : Matched LogEntry.term a l) :
    Numbered l :=
  hl.of_full numbered_nil (fun _ _ hnum => hnum.of_shorter) h.numbered

lemma numbered_log (h : LogInv m a) (v : ℤ) : Numbered (a.log v) :=
  h.numbered_of_matched (h.inv.log_matched v)

lemma numbered_decided (h : LogInv m a) {T : ℤ} {l : List LogEntry} (hl : m.Decided a T l) :
    Numbered l := by
  rcases hl with rfl | ⟨T', p, -, ⟨hled, hp, -⟩, hlp⟩
  · exact numbered_nil
  · exact (h.numbered T' hled).of_shorter (hlp.trans hp)

lemma raise (h : LogInv m a) {v T : ℤ} (hT : a.term v ≤ T) : LogInv m (a.raise v T) :=
  ⟨inv_raise h.inv hT, h.pos, h.numbered⟩

lemma elect (h : LogInv m a) {v T : ℤ} (hterm : a.term v = T) (hfree : ¬ a.led T) (hpos : 1 ≤ T)
    (hlt : ∀ e ∈ a.log v, e.term < T)
    (hwon : ∃ A, m.Quorum A ∧ ∀ w ∈ A, Vote LogEntry.term a w T (a.log v)) :
    LogInv m (a.elect v T) where
  inv := inv_elect hterm hfree h.inv hlt hwon
  pos T' hT' := by
    rcases hT' with rfl | hT'
    · exact hpos
    · exact h.pos T' hT'
  numbered T' hT' := by
    by_cases hTT : T' = T
    · subst hTT
      simpa [State.elect] using h.numbered_log v
    · simpa [State.elect, hTT] using h.numbered T' (hT'.resolve_left hTT)

lemma append (h : LogInv m a) {v T : ℤ} {e : LogEntry} (hterm : a.term v = T) (hled : a.led T)
    (hlog : a.log v = a.full T) (he : e.term = T) (hindex : e.index = (a.full T).length + 1) :
    LogInv m (a.append v T e) where
  inv := inv_append hterm hled hlog h.inv he
  pos := h.pos
  numbered T' hT' := by
    by_cases hTT : T' = T
    · subst hTT
      simp only [State.append, Function.update_self]
      exact (h.numbered T' hled).concat hindex (he ▸ h.pos _ hled)
    · simpa [State.append, hTT] using h.numbered T' hT'

lemma accept (h : LogInv m a) {v T : ℤ} {p : List LogEntry} (hterm : a.term v = T)
    (hled : a.led T) (hp : p <+: a.full T) : LogInv m (a.accept v T p) :=
  ⟨inv_accept hterm hled hp h.inv, h.pos, h.numbered⟩

end LogInv

/-! ## The relation -/

/-- What a leader of term `T` knows about peer `p`: all entries before `next` may be sent after,
and if `next` lies within the log the leader started from, it was moved there by answers of the
peer; and the peer has acknowledged the entries up to `matched`. -/
structure Progress (a : Logs) (p T next matched : ℤ) : Prop where
  next : ∃ k : ℕ, next = k + 1 ∧ k ≤ (a.full T).length ∧
    (k < (a.start T).length → Behind a p T ((a.start T).take (k + 1)))
  matched_nonneg : 0 ≤ matched
  matched_le : matched ≤ a.acked p T

/-- The entries applied so far are decided, and so are those still to be applied after them; the
account and request records are what executing them makes of the first store. -/
def ExecutorRel (m : Membership) (a : Logs) (n : RaftNode) : Prop :=
  ∃ l T, m.Decided a T (l ++ n.executor.unapplied) ∧
    n.storage.getLastAppliedIndex = l.length ∧
    n.storage.SameRecords (RocksDBStore.genesis.executeAll l) ∧
    match n.executor with
    | .computed entry _ senderNewBal receiverNewBal resultMsg =>
        n.lastApplied = l.length ∧
          n.storage.outcome entry.command = ⟨senderNewBal, receiverNewBal, resultMsg⟩
    | .written entry _ _ => n.lastApplied + 1 = l.length ∧ entry.index = l.length
    | _ => n.lastApplied = l.length

/-- What the relation says about node `i`. -/
structure NodeRel (m : Membership) (a : Logs) (calls : ℕ → Option Call) (h : List Event) (i : ℤ)
    (n : RaftNode) : Prop where
  log : n.HasLog (a.log i)
  term : a.term i = n.currentTerm
  term_nonneg : 0 ≤ n.currentTerm
  commit : ∃ c : ℕ, n.commitIndex = c ∧ c ≤ (a.log i).length ∧
    m.Decided a n.currentTerm ((a.log i).take c)
  executor : ExecutorRel m a n
  /-- A candidate holds entries of earlier terms only. -/
  candidate : n.state = .candidate →
    1 ≤ n.currentTerm ∧ ∀ e ∈ a.log i, e.term < n.currentTerm
  /-- A candidate asks for votes with the log it holds. -/
  saved : n.state = .candidate → ∀ saved, n.election.saved? = some saved →
    saved.term = n.currentTerm →
      saved.lastLogIndex = (a.log i).length ∧ saved.lastLogTerm = lastTerm (a.log i)
  asked : n.state = .candidate → ∀ k c args, calls k = some c → c.src = i →
    c.request = .requestVote args → args.term = n.currentTerm →
      args.lastLogIndex = (a.log i).length ∧ args.lastLogTerm = lastTerm (a.log i)
  /-- As long as nobody has won its term, a candidate has valid votes. -/
  votes : n.state = .candidate → ¬ a.led n.currentTerm → ∀ v, Voted h v n.currentTerm i →
    Vote LogEntry.term a v n.currentTerm (a.log i)
  leader : n.state = .leader → a.led n.currentTerm ∧ a.log i = a.full n.currentTerm ∧
    a.acked i n.currentTerm = (a.log i).length
  progress : n.state = .leader → ∀ p ∈ m.ids, p ≠ i →
    Progress a p n.currentTerm (n.nextIndex p) (n.matchIndex p)
  /-- The replication threads are idle or wait for an answer. -/
  workers : ∀ p, n.workers p = .idle ∨ ∃ k, n.workers p = .calling k
  /-- A message whose answer is waited for is the one its thread has sent, and the leader's index
  for the peer has not moved since. -/
  waiting : ∀ k c args, calls k = some c → c.src = i → c.alive = true →
    c.request = .appendEntries args → n.workers c.dst = .calling k ∧
      (n.state = .leader → args.term = n.currentTerm → n.nextIndex c.dst = args.prevLogIndex + 1)

/-- A message to `dst` sends the entries after `pre`, and the leader had committed `com`. -/
structure MessageOf (m : Membership) (a : Logs) (dst : ℤ) (args : AppendEntriesArgs)
    (reply : Option Reply) (pre com : List LogEntry) : Prop where
  led : a.led args.term
  prevLogIndex : args.prevLogIndex = pre.length
  prevLogTerm : args.prevLogTerm = lastTerm pre
  slice : pre ++ args.entries <+: a.full args.term
  leaderCommit : args.leaderCommit = com.length
  decided : m.Decided a args.term com
  committed : com <+: a.full args.term
  heartbeat : args.entries = [] → com.length ≤ pre.length
  behind : pre.length < (a.start args.term).length →
    args.entries ≠ [] ∧ Behind a dst args.term ((a.start args.term).take (pre.length + 1))
  accepted : ∀ r, reply = some (.appendEntries r) → r.success = true →
    pre.length + args.entries.length ≤ a.acked dst args.term ∧
      (args.entries ≠ [] → Clean a dst args.term)
  refused : ∀ r, reply = some (.appendEntries r) → r.success = false → r.term ≤ args.term →
    pre ≠ [] ∧ Behind a dst args.term pre

/-- What the relation says about a call. -/
def CallRel (m : Membership) (a : Logs) (c : Call) : Prop :=
  match c.request with
  | .requestVote _ => True
  | .appendEntries args => ∃ pre com, MessageOf m a c.dst args c.reply pre com
  | .installSnapshot _ => False

/-- What the history says about the logs. -/
structure EventsRel (m : Membership) (a : Logs) (h : List Event) : Prop where
  led : ∀ T, a.led T ↔ ∃ c, .elected c T ∈ h
  granted : ∀ v T c, .granted v T c ∈ h → .selfVote c T ∈ h
  committed : ∀ v T es, .committed v T es ∈ h → m.Decided a T es
  executed : ∀ v e changed, .executed v e changed ∈ h → ∃ T l, m.Decided a T (l ++ [e])

/-- **The cluster `s` is in the abstract state `a`.** -/
structure LogRel (m : Membership) (s : Cluster) (a : Logs) : Prop where
  abs : LogInv m a
  nodes : ∀ i, NodeRel m a s.calls s.history i (s.nodes i)
  calls : ∀ k c, s.calls k = some c → CallRel m a c
  events : EventsRel m a s.history

/-! ## What survives -/

section Later

variable {calls calls' : ℕ → Option Call} {h h' : List Event} {p T : ℤ}

lemma Progress.mono (hl : Later a b) (hled : a.led T) {next matched : ℤ}
    (hp : Progress a p T next matched) : Progress b p T next matched where
  next := by
    obtain ⟨k, hk, hle, hbehind⟩ := hp.next
    refine ⟨k, hk, hle.trans (hl.ext.full T hled).length_le, fun hlt => ?_⟩
    rw [hl.ext.start T hled] at hlt ⊢
    exact (hbehind hlt).mono hl hled
  matched_nonneg := hp.matched_nonneg
  matched_le := hp.matched_le.trans (by exact_mod_cast hl.ext.acked p T)

lemma ExecutorRel.mono (hl : Later a b) (hx : ExecutorRel m a n) : ExecutorRel m b n := by
  obtain ⟨l, T, hdec, hrest⟩ := hx
  exact ⟨l, T, hdec.mono hl.ext le_rfl, hrest⟩

/-- The executor is not concerned by a step that leaves the records and what is applied alone. -/
lemma ExecutorRel.still (hx : ExecutorRel m a n) (hstill : RaftNode.AppliedStill n n')
    (hrec : n'.storage.SameRecords n.storage) : ExecutorRel m a n' := by
  obtain ⟨hexec, happlied, hstored⟩ := hstill
  obtain ⟨l, T, hdec, hindex, hsame, hwhere⟩ := hx
  refine ⟨l, T, by rwa [hexec], hstored.trans hindex, hrec.trans hsame, ?_⟩
  rw [hexec, happlied]
  split at hwhere
  · exact ⟨hwhere.1, (hrec.outcome _).trans hwhere.2⟩
  · exact hwhere
  · exact hwhere

lemma MessageOf.mono (hl : Later a b) {dst : ℤ} {args : AppendEntriesArgs} {reply : Option Reply}
    {pre com : List LogEntry} (hm : MessageOf m a dst args reply pre com) :
    MessageOf m b dst args reply pre com :=
  { hm with
    led := hl.ext.led _ hm.led
    slice := hm.slice.trans (hl.ext.full _ hm.led)
    decided := hm.decided.mono hl.ext le_rfl
    committed := hm.committed.trans (hl.ext.full _ hm.led)
    behind := by
      rw [hl.ext.start _ hm.led]
      exact fun hlt => (hm.behind hlt).imp_right fun hb => hb.mono hl hm.led
    accepted := fun r hr hok => by
      obtain ⟨hacked, hclean⟩ := hm.accepted r hr hok
      exact ⟨hacked.trans (hl.ext.acked _ _), fun hne => (hclean hne).mono hl hm.led⟩
    refused := fun r hr hno hle => (hm.refused r hr hno hle).imp_right fun hb =>
      hb.mono hl hm.led }

lemma CallRel.mono (hl : Later a b) {c : Call} (hc : CallRel m a c) : CallRel m b c := by
  unfold CallRel at hc ⊢
  split at hc
  · trivial
  · obtain ⟨pre, com, hm⟩ := hc
    exact ⟨pre, com, hm.mono hl⟩
  · exact hc

/-- A later state in which no further term has been won. -/
lemma EventsRel.mono (hl : Later a b) (hled : ∀ T, b.led T ↔ a.led T) (he : EventsRel m a h) :
    EventsRel m b h where
  led T := (hled T).trans (he.led T)
  granted := he.granted
  committed v T es hes := (he.committed v T es hes).mono hl.ext le_rfl
  executed v e changed hev := by
    obtain ⟨T, l, hdec⟩ := he.executed v e changed hev
    exact ⟨T, l, hdec.mono hl.ext le_rfl⟩

/-- A node that does not move. -/
lemma NodeRel.mono (hinv : LogInv m a) (hl : Later a b) (hlog : b.log i = a.log i)
    (hterm : b.term i = a.term i)
    (hlead : n.state = .leader → b.full n.currentTerm = a.full n.currentTerm ∧
      b.acked i n.currentTerm = a.acked i n.currentTerm)
    (hn : NodeRel m a calls h i n) : NodeRel m b calls h i n where
  log := hlog ▸ hn.log
  term := hterm.trans hn.term
  term_nonneg := hn.term_nonneg
  commit := by
    rw [hlog]
    obtain ⟨c, hc, hle, hdec⟩ := hn.commit
    exact ⟨c, hc, hle, hdec.mono hl.ext le_rfl⟩
  executor := hn.executor.mono hl
  candidate := hlog ▸ hn.candidate
  saved := hlog ▸ hn.saved
  asked := hlog ▸ hn.asked
  votes hs hfree v hv := by
    rw [hlog]
    exact (hn.votes hs (fun hled => hfree (hl.ext.led _ hled)) v hv).mono hinv.inv hl.ext
  leader hs := by
    obtain ⟨hled, hfull, hacked⟩ := hn.leader hs
    obtain ⟨hfull', hacked'⟩ := hlead hs
    exact ⟨hl.ext.led _ hled, by rw [hlog, hfull, hfull'], by rw [hlog, hacked', hacked]⟩
  progress hs p hp hne := (hn.progress hs p hp hne).mono hl (hn.leader hs).1
  workers := hn.workers
  waiting := hn.waiting

/-- The calls of node `i` among `calls'` are among `calls`, though perhaps given up. -/
def CallsLe (calls' calls : ℕ → Option Call) (i : ℤ) : Prop :=
  ∀ k c, calls' k = some c → c.src = i → ∃ c₀, calls k = some c₀ ∧ c₀.src = i ∧
    c₀.dst = c.dst ∧ c₀.request = c.request ∧ (c.alive = true → c₀.alive = true)

/-- Nothing new is asked by a node, and it gets no new vote. -/
lemma NodeRel.of_calls (hn : NodeRel m a calls h i n) (hcalls : CallsLe calls' calls i)
    (hvotes : ∀ v, Voted h' v n.currentTerm i → Voted h v n.currentTerm i) :
    NodeRel m a calls' h' i n :=
  { hn with
    asked := fun hs k c args hc hsrc hreq hT => by
      obtain ⟨c₀, hc₀, hsrc₀, -, hreq₀, -⟩ := hcalls k c hc hsrc
      exact hn.asked hs k c₀ args hc₀ hsrc₀ (hreq₀.trans hreq) hT
    votes := fun hs hfree v hv => hn.votes hs hfree v (hvotes v hv)
    waiting := fun k c args hc hsrc halive hreq => by
      obtain ⟨c₀, hc₀, hsrc₀, hdst₀, hreq₀, halive₀⟩ := hcalls k c hc hsrc
      rw [← hdst₀]
      exact hn.waiting k c₀ args hc₀ hsrc₀ (halive₀ halive) (hreq₀.trans hreq) }

end Later

end RaftConsensus
