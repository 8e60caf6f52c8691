import RaftConsensus.Library.CatchUp
import RaftConsensus.Node.Merge

/-!
# Replication to one peer converges

`exchange` is one call of `replicateToPeer` with the handler of the peer and the reply, when nothing
else happens.  A leader that has just been elected does not know what the peer has: each refusal
moves `nextIndex_` back by one, and each acceptance forward by a batch.

The two are a catch-up of `CatchUp`, where `meet` is the length of the longest prefix the two logs
share (`Stage`, `exchange_stage`), and so the peer has the leader's log after a bounded number of
exchanges (`replication_converges`).
-/

namespace RaftConsensus

open RaftNode CatchUp

variable {s : RocksDBStore} {n leader follower : RaftNode} {l r : List LogEntry} {e : LogEntry}
  {args : AppendEntriesArgs} {peer : ℤ} {k q : ℕ}

/-! ## Reading a log without gaps -/

namespace RocksDBStore.LogFrom

lemma getLogEntry (h : s.LogFrom 0 l) (hk : l[k]? = some e) : s.getLogEntry (k + 1) = e := by
  have hgap : ¬ (k : ℤ) + 1 ≤ 0 := by omega
  rw [getLogEntry_eq, h.entry _ (by omega), if_neg hgap, entryAt_succ, hk]
  rfl

/-- The entries from index `q + 1` on. -/
lemma map_loopRange (h : s.LogFrom 0 l) :
    (loopRange (q + 1) l.length).map s.getLogEntry = l.drop q := by
  have hlen : ((l.length : ℤ) - (q + 1) + 1).toNat = l.length - q := by omega
  refine List.ext_getElem? fun j => ?_
  rw [loopRange, hlen, List.map_map, List.getElem?_map, List.getElem?_drop]
  by_cases hj : j < l.length - q
  · have hget : l[q + j]? = some l[q + j] := List.getElem?_eq_getElem (by omega)
    have hindex : (q : ℤ) + 1 + (j : ℤ) = ((q + j : ℕ) : ℤ) + 1 := by
      push_cast
      ring
    rw [List.getElem?_range hj, hget, Option.map_some, Function.comp_apply, hindex,
      h.getLogEntry hget]
  · rw [List.getElem?_eq_none (by simpa using hj), List.getElem?_eq_none (by omega)]
    rfl

end RocksDBStore.LogFrom

namespace RaftNode

/-- The term of the previous entry, and that it is there. -/
lemma LogFrom.prevTermAt (h : n.LogFrom 0 l) (hq : q ≤ l.length) :
    n.prevTermAt q = lastTerm (l.take q) := by
  unfold RaftNode.prevTermAt
  cases q with
  | zero => rfl
  | succ q =>
      have hget : l[q]? = some l[q] := List.getElem?_eq_getElem hq
      rw [if_pos (by omega), Nat.cast_succ, h.storage.getLogEntry hget, lastTerm_take hget]

lemma LogFrom.not_needsSnapshot (h : n.LogFrom 0 l) (hnum : Numbered l) (hq : q ≤ l.length) :
    ¬ n.needsSnapshot q := by
  rintro ⟨hpos, hzero⟩
  cases q with
  | zero => exact lt_irrefl _ hpos
  | succ q =>
      have hget : l[q]? = some l[q] := List.getElem?_eq_getElem hq
      rw [Nat.cast_succ, h.storage.getLogEntry hget] at hzero
      have hterm := (hnum q _ hget).2
      omega

end RaftNode

/-! ## One exchange -/

/-- One call of `replicateToPeer`, with the handler of the peer and the reply. -/
def exchange (peer : ℤ) (nodes : RaftNode × RaftNode) : RaftNode × RaftNode :=
  match nodes.1.replicateAtomic peer 0 with
  | none => nodes
  | some (leader, some args) =>
      let r := nodes.2.handleAppendEntries args
      (leader.appendEntriesReply peer args r.2, r.1)
  | some (leader, none) =>
      match ((leader.dumpSnapshot peer).bind fun n => n.stampSnapshot peer).bind
          fun n => n.sendSnapshot peer 0 with
      | none => (leader, nodes.2)
      | some (leader, args) =>
          let r := nodes.2.handleInstallSnapshot args
          (leader.installSnapshotReply peer args r.2, r.1)

/-- The exchange sends entries. -/
def SendsEntries (peer : ℤ) (nodes : RaftNode × RaftNode) : Prop :=
  ∃ leader args, nodes.1.replicateAtomic peer 0 = some (leader, some args) ∧ args.entries ≠ []

/-- A leader with the log `l`, whose thread for the peer may start, and a peer that is not in a
later term. -/
structure Leads (l : List LogEntry) (peer : ℤ) (nodes : RaftNode × RaftNode) : Prop where
  log : nodes.1.LogFrom 0 l
  numbered : Numbered l
  may : nodes.1.mayReplicate peer
  term : nodes.2.currentTerm ≤ nodes.1.currentTerm

/-- The message of a leader that is at position `q`. -/
lemma Leads.replicateAtomic (h : Leads l peer (leader, follower))
    (hnext : leader.nextIndex peer = q + 1) (hq : q ≤ l.length) :
    leader.replicateAtomic peer 0 =
        some (leader.setWorker peer (.calling 0), some (leader.appendEntriesArgs peer)) ∧
      leader.appendEntriesArgs peer = ⟨leader.currentTerm, leader.config.myId, q,
        lastTerm (l.take q), (l.drop q).take batchLimit, leader.commitIndex⟩ := by
  have hprev : (q : ℤ) + 1 - 1 = q := by ring
  constructor
  · have hnot : ¬ leader.needsSnapshot (leader.nextIndex peer - 1) := by
      rw [hnext, hprev]
      exact h.log.not_needsSnapshot h.numbered hq
    rw [RaftNode.replicateAtomic, if_pos h.may, if_neg hnot]
  · rw [appendEntriesArgs, hnext, hprev, h.log.prevTermAt hq, h.log.lastLogIndex, List.map_take,
      h.log.storage.map_loopRange]

/-! ### The reply -/

section Reply

variable {reply : AppendEntriesReply} {last : LogEntry}

/-- A refusal moves `nextIndex_` back. -/
lemma RaftNode.appendEntriesReply_refused (hleader : n.state = .leader)
    (hterm : n.currentTerm = args.term) (hreply : reply = ⟨args.term, false⟩)
    (hnext : 1 < n.nextIndex peer) :
    n.appendEntriesReply peer args reply =
      { n.setWorker peer .idle with
        nextIndex := Function.update n.nextIndex peer (n.nextIndex peer - 1) } := by
  subst hreply
  simp [appendEntriesReply, setWorker, hleader, hterm, hnext]

/-- The reply to a message without entries has no effect. -/
lemma RaftNode.appendEntriesReply_empty (hleader : n.state = .leader)
    (hterm : n.currentTerm = args.term) (hreply : reply = ⟨args.term, true⟩)
    (hentries : args.entries = []) :
    n.appendEntriesReply peer args reply = n.setWorker peer .idle := by
  subst hreply
  simp [appendEntriesReply, setWorker, hleader, hterm, hentries]

lemma RaftNode.appendEntriesReply_matched (hleader : n.state = .leader)
    (hterm : n.currentTerm = args.term) (hreply : reply = ⟨args.term, true⟩)
    (hlast : args.entries.getLast? = some last) :
    n.appendEntriesReply peer args reply =
      { (n.setWorker peer .idle).peerMatched peer last.index with
        commitIndex := ((n.setWorker peer .idle).peerMatched peer last.index).commitLoop } := by
  subst hreply
  simp [appendEntriesReply, setWorker, hleader, hterm, hlast]

end Reply

/-! ## Where the logs meet -/

/-- Where the terms at an index agree, the logs are the same up to there. -/
def SharesPrefixes (l r : List LogEntry) : Prop :=
  ∀ (k : ℕ) (e x : LogEntry), l[k]? = some e → r[k]? = some x → e.term = x.term →
    l.take (k + 1) = r.take (k + 1)

/-- The second log begins with the first `k` entries of the other. -/
def Shares (l r : List LogEntry) (k : ℕ) : Prop := k ≤ r.length ∧ r.take k = l.take k

instance (l r : List LogEntry) (k : ℕ) : Decidable (Shares l r k) :=
  inferInstanceAs (Decidable (_ ∧ _))

lemma shares_zero (l r : List LogEntry) : Shares l r 0 := ⟨Nat.zero_le _, rfl⟩

lemma shares_take (hq : q ≤ l.length) : Shares l (l.take q) q :=
  ⟨by rw [List.length_take, min_eq_left hq], by rw [List.take_take, min_self]⟩

/-- The length of the longest prefix the two share. -/
def meet (l r : List LogEntry) : ℕ := Nat.findGreatest (Shares l r) l.length

lemma meet_le (l r : List LogEntry) : meet l r ≤ l.length := Nat.findGreatest_le _

lemma shares_meet (l r : List LogEntry) : Shares l r (meet l r) :=
  Nat.findGreatest_spec (Nat.zero_le _) (shares_zero l r)

lemma not_shares (hk : meet l r < k) (hkl : k ≤ l.length) : ¬ Shares l r k :=
  Nat.findGreatest_is_greatest hk hkl

/-- The entry after the longest shared prefix is not in the other log. -/
lemma not_agrees_meet (hshare : SharesPrefixes l r) (he : l[meet l r]? = some e) :
    ¬ Agrees r (meet l r + 1) e := by
  rintro ⟨x, hx, hterm⟩
  rw [entryAt_succ] at hx
  have hlt := (List.getElem?_eq_some_iff.mp he).1
  have hltr := (List.getElem?_eq_some_iff.mp hx).1
  exact not_shares (Nat.lt_succ_self _) hlt
    ⟨hltr, (hshare _ e x he hx hterm.symm).symm⟩

/-- The peer finds the previous entry exactly when it shares the log up to there. -/
lemma hasPrev_iff (hshare : SharesPrefixes l r) (hq : q ≤ l.length)
    (hprev : args.prevLogIndex = q) (hterm : args.prevLogTerm = lastTerm (l.take q)) :
    HasPrev r args ↔ Shares l r q := by
  unfold HasPrev
  rw [hprev, hterm]
  cases q with
  | zero => simp [shares_zero]
  | succ q =>
      have he : l[q]? = some l[q] := List.getElem?_eq_getElem hq
      rw [lastTerm_take he, or_iff_right (by omega), Nat.cast_succ, entryAt_succ]
      constructor
      · rintro ⟨x, hx, hsame⟩
        exact ⟨(List.getElem?_eq_some_iff.mp hx).1, (hshare q _ x he hx hsame.symm).symm⟩
      · rintro ⟨hle, htake⟩
        refine ⟨l[q], ?_, rfl⟩
        have hget := congrArg (fun t : List LogEntry => t[q]?) htake
        simpa [List.getElem?_take, he] using hget

/-- A message whose first entry is not in the log replaces all that follows the previous one. -/
lemma merged_of_not_agrees {r' : List LogEntry} (h : Merged r args r')
    (he : args.entries[0]? = some e) (hnot : ¬ Agrees r (args.prevLogIndex + 1) e) :
    r' = r.take args.prevLogIndex.toNat ++ args.entries := by
  have hzero : args.prevLogIndex + 1 + ((0 : ℕ) : ℤ) = args.prevLogIndex + 1 := by simp
  obtain ⟨hall, -⟩ | ⟨d, x, -, -, hbefore, rfl⟩ := h
  · have hfirst := hall 0 e he
    rw [hzero] at hfirst
    exact absurd hfirst hnot
  · cases d with
    | zero => simp
    | succ d =>
        have hfirst := hbefore 0 e d.succ_pos he
        rw [hzero] at hfirst
        exact absurd hfirst hnot

/-- A message without entries changes nothing. -/
lemma merged_of_empty {r' : List LogEntry} (h : Merged r args r') (hnil : args.entries = []) :
    r' = r := by
  refine h.eq_of_agrees fun k e he => ?_
  rw [hnil] at he
  cases he

/-! ## The stages -/

/-- The leader is at position `q` and knows of the first `m` entries that the peer, which has the
log `r`, holds them. -/
structure Stage (l r : List LogEntry) (peer : ℤ) (q m : ℕ) (nodes : RaftNode × RaftNode) : Prop
    extends Leads l peer nodes where
  held : nodes.2.LogFrom 0 r
  next : nodes.1.nextIndex peer = q + 1
  known : nodes.1.matchIndex peer = m
  le : q ≤ l.length

/-- The message at position `q`. -/
structure Sent (l : List LogEntry) (leader : RaftNode) (q : ℕ) (args : AppendEntriesArgs) :
    Prop where
  term : args.term = leader.currentTerm
  prev : args.prevLogIndex = q
  prevTerm : args.prevLogTerm = lastTerm (l.take q)
  entries : args.entries = (l.drop q).take batchLimit

namespace Sent

lemma getElem? (h : Sent l leader q args) :
    args.entries[k]? = if k < batchLimit then l[q + k]? else none := by
  rw [h.entries, List.getElem?_take, List.getElem?_drop]

lemma indexed (h : Sent l leader q args) (hnum : Numbered l) : Indexed args := by
  intro k e he
  rw [h.getElem?] at he
  split at he
  · rw [(hnum _ e he).1, h.prev]
    push_cast
    ring
  · cases he

/-- The last entry of the message. -/
lemma getLast? (h : Sent l leader q args) (hnum : Numbered l) (hq : q < l.length) :
    ∃ last, args.entries.getLast? = some last ∧
      last.index = (min (q + batchLimit) l.length : ℕ) := by
  have hlen : args.entries.length = min batchLimit (l.length - q) := by
    rw [h.entries, List.length_take, List.length_drop]
  have hpos : 0 < batchLimit := by decide
  obtain ⟨last, hlast⟩ : ∃ last, l[q + (args.entries.length - 1)]? = some last :=
    ⟨_, List.getElem?_eq_getElem (by omega)⟩
  refine ⟨last, ?_, ?_⟩
  · rw [List.getLast?_eq_getElem?, h.getElem?, if_pos (by omega), hlast]
  · rw [(hnum _ _ hlast).1]
    omega

end Sent

namespace Stage

variable {m : ℕ} {nodes : RaftNode × RaftNode}

/-- The exchange at a stage is that of an AppendEntries message. -/
lemma exchange_eq (h : Stage l r peer q m (leader, follower)) :
    ∃ args, Sent l leader q args ∧
      leader.replicateAtomic peer 0 = some (leader.setWorker peer (.calling 0), some args) ∧
      exchange peer (leader, follower) =
        ((leader.setWorker peer (.calling 0)).appendEntriesReply peer args
          (follower.handleAppendEntries args).2, (follower.handleAppendEntries args).1) := by
  obtain ⟨hatomic, hargs⟩ := h.toLeads.replicateAtomic h.next h.le
  refine ⟨leader.appendEntriesArgs peer, ?_, hatomic, ?_⟩
  · rw [hargs]
    exact ⟨rfl, rfl, rfl, rfl⟩
  · rw [exchange]
    simp only [hatomic]

/-- A leader that waits for no reply may send again. -/
lemma mayReplicate (h : Stage l r peer q m (leader, follower)) :
    ((leader.setWorker peer (.calling 0)).setWorker peer .idle).mayReplicate peer :=
  ⟨h.may.1, Function.update_self peer _ _, h.may.2.2⟩

lemma exchange_refused (h : Stage l r peer q m nodes) (hshare : SharesPrefixes l r)
    (hnot : ¬ Shares l r q) : Stage l r peer (q - 1) m (exchange peer nodes) := by
  obtain ⟨leader, follower⟩ := nodes
  obtain ⟨args, hsent, -, heq⟩ := h.exchange_eq
  have hle : follower.currentTerm ≤ args.term := hsent.term ▸ h.term
  have hacc : ¬ follower.Accepts args := by
    rintro ⟨-, hcons⟩
    rw [consistentAt_iff h.held (by rw [hsent.prev]; omega),
      hasPrev_iff hshare h.le hsent.prev hsent.prevTerm] at hcons
    exact hnot hcons
  obtain ⟨hterm, hreply⟩ := reply_handleAppendEntries hle
  rw [decide_eq_false hacc] at hreply
  -- position `0` is shared by any two logs
  have hpos : 0 < q := by
    by_contra hzero
    obtain rfl : q = 0 := by omega
    exact hnot (shares_zero l r)
  have hleader : (leader.setWorker peer (.calling 0)).state = .leader := h.may.2.2
  have hnext : (leader.setWorker peer (.calling 0)).nextIndex peer = q + 1 := h.next
  rw [heq, appendEntriesReply_refused hleader hsent.term.symm hreply (by rw [hnext]; omega)]
  exact
    { log := ⟨h.log.storage, h.log.lastLogIndex, h.log.lastLogTerm⟩
      numbered := h.numbered
      may := h.mayReplicate
      term := (hterm.trans hsent.term).le
      held := h.held.still (logStill_handleAppendEntries hacc)
      next := by
        show Function.update _ peer _ peer = _
        rw [Function.update_self, hnext]
        omega
      known := h.known
      le := (Nat.sub_le q 1).trans h.le }

/-- The peer accepts where it shares the log. -/
lemma accepts (h : Stage l r peer q m (leader, follower)) (hsent : Sent l leader q args)
    (hshare : SharesPrefixes l r) (hshares : Shares l r q) : follower.Accepts args := by
  refine ⟨hsent.term ▸ h.term, ?_⟩
  rw [consistentAt_iff h.held (by rw [hsent.prev]; omega),
    hasPrev_iff hshare h.le hsent.prev hsent.prevTerm]
  exact hshares

/-- With nothing to send the message is a heartbeat. -/
lemma exchange_idle (h : Stage l r peer l.length m nodes) (hshare : SharesPrefixes l r)
    (hshares : Shares l r l.length) : Stage l r peer l.length m (exchange peer nodes) := by
  obtain ⟨leader, follower⟩ := nodes
  obtain ⟨args, hsent, -, heq⟩ := h.exchange_eq
  have hacc := h.accepts hsent hshare hshares
  have hprev : 0 ≤ args.prevLogIndex := by
    rw [hsent.prev]
    omega
  obtain ⟨hterm, hreply⟩ := reply_handleAppendEntries hacc.1
  obtain ⟨r', hlog, hmerged⟩ := merged_of_accepts h.held hacc hprev (hsent.indexed h.numbered)
  have hnil : args.entries = [] := by simp [hsent.entries]
  obtain rfl : r' = r := merged_of_empty hmerged hnil
  have hleader : (leader.setWorker peer (.calling 0)).state = .leader := h.may.2.2
  rw [decide_eq_true hacc] at hreply
  rw [heq, appendEntriesReply_empty hleader hsent.term.symm hreply hnil]
  exact
    { log := ⟨h.log.storage, h.log.lastLogIndex, h.log.lastLogTerm⟩
      numbered := h.numbered
      may := h.mayReplicate
      term := (hterm.trans hsent.term).le
      held := hlog
      next := h.next
      known := h.known
      le := le_rfl }

/-- Where the logs part, the peer takes over the next entries. -/
lemma exchange_sent (h : Stage l r peer q m nodes) (hshare : SharesPrefixes l r)
    (hshares : Shares l r q) (he : l[q]? = some e) (hnew : ¬ Agrees r (q + 1) e) (hm : m ≤ q) :
    Stage l (l.take (min (q + batchLimit) l.length)) peer (min (q + batchLimit) l.length)
      (min (q + batchLimit) l.length) (exchange peer nodes) := by
  obtain ⟨leader, follower⟩ := nodes
  obtain ⟨args, hsent, -, heq⟩ := h.exchange_eq
  have hacc := h.accepts hsent hshare hshares
  have hprev : 0 ≤ args.prevLogIndex := by
    rw [hsent.prev]
    omega
  obtain ⟨hterm, hreply⟩ := reply_handleAppendEntries hacc.1
  obtain ⟨r', hlog, hmerged⟩ := merged_of_accepts h.held hacc hprev (hsent.indexed h.numbered)
  have hpos : 0 < batchLimit := by decide
  have hq : q < l.length := (List.getElem?_eq_some_iff.mp he).1
  obtain rfl : r' = l.take (min (q + batchLimit) l.length) := by
    have hfirst : args.entries[0]? = some e := by rw [hsent.getElem?, if_pos hpos, add_zero, he]
    rw [merged_of_not_agrees hmerged hfirst (by rwa [hsent.prev]), hsent.prev, Int.toNat_natCast,
      hshares.2, hsent.entries, ← List.take_add, List.take_eq_take_iff]
    omega
  obtain ⟨last, hlast, hindex⟩ := hsent.getLast? h.numbered hq
  have hmatched : max (leader.matchIndex peer) last.index =
      (min (q + batchLimit) l.length : ℕ) := by
    rw [h.known, hindex]
    omega
  have hleader : (leader.setWorker peer (.calling 0)).state = .leader := h.may.2.2
  rw [decide_eq_true hacc] at hreply
  rw [heq, appendEntriesReply_matched hleader hsent.term.symm hreply hlast]
  exact
    { log := ⟨h.log.storage, h.log.lastLogIndex, h.log.lastLogTerm⟩
      numbered := h.numbered
      may := h.mayReplicate
      term := (hterm.trans hsent.term).le
      held := hlog
      next := by
        show Function.update leader.nextIndex peer
          (max (leader.matchIndex peer) last.index + 1) peer = _
        rw [Function.update_self, hmatched]
      known := by
        show Function.update leader.matchIndex peer
          (max (leader.matchIndex peer) last.index) peer = _
        rw [Function.update_self, hmatched]
      le := min_le_right _ _ }

/-- Entries are sent before the end of the log only. -/
lemma sendsEntries_iff (h : Stage l r peer q m nodes) : SendsEntries peer nodes ↔ q < l.length := by
  obtain ⟨leader, follower⟩ := nodes
  obtain ⟨args, hsent, hatomic, -⟩ := h.exchange_eq
  have hpos : batchLimit ≠ 0 := by decide
  have hentries : args.entries ≠ [] ↔ q < l.length := by
    simp [hsent.entries, List.take_eq_nil_iff, hpos]
  rw [← hentries]
  constructor
  · rintro ⟨leader', args', heq, hne⟩
    rw [hatomic, Option.some.injEq, Prod.mk.injEq, Option.some.injEq] at heq
    rwa [heq.2]
  · intro hne
    exact ⟨_, args, hatomic, hne⟩

end Stage

/-! ## Convergence -/

/-- The stage of a phase: on the way back nothing has changed, on the way forward the peer holds
what has been sent. -/
def AtPhase (l r : List LogEntry) (peer : ℤ) (nodes : RaftNode × RaftNode) : Phase → Prop
  | .backing q => meet l r ≤ q ∧ Stage l r peer q 0 nodes
  | .sending q => Stage l (l.take q) peer q q nodes

/-- **One exchange moves to the next phase.** -/
lemma exchange_atPhase {nodes : RaftNode × RaftNode} {p : Phase} (hshare : SharesPrefixes l r)
    (h : AtPhase l r peer nodes p) :
    AtPhase l r peer (exchange peer nodes) (p.next (meet l r) l.length batchLimit) := by
  cases p with
  | backing q =>
      obtain ⟨hle, hstage⟩ := h
      rw [Phase.next]
      split
      · rename_i hlt
        exact ⟨by omega, hstage.exchange_refused hshare (not_shares hlt hstage.le)⟩
      · obtain rfl : q = meet l r := by omega
        split
        · rename_i hlt
          have he : l[meet l r]? = some l[meet l r] := List.getElem?_eq_getElem hlt
          exact hstage.exchange_sent hshare (shares_meet l r) he (not_agrees_meet hshare he)
            (Nat.zero_le _)
        · rename_i hge
          have hall : meet l r = l.length := le_antisymm (meet_le l r) (not_lt.mp hge)
          rw [hall] at hstage ⊢
          exact ⟨hall.le, hstage.exchange_idle hshare (hall ▸ shares_meet l r)⟩
  | sending q =>
      have hq : q ≤ l.length := h.le
      have hsame : SharesPrefixes l (l.take q) := by
        intro k e x he hx _
        rw [List.take_take, min_eq_left]
        have hlt := (List.getElem?_eq_some_iff.mp hx).1
        rw [List.length_take] at hlt
        omega
      rw [Phase.next]
      obtain hlt | rfl := hq.lt_or_eq
      · have he : l[q]? = some l[q] := List.getElem?_eq_getElem hlt
        refine h.exchange_sent hsame (shares_take hq) he ?_ le_rfl
        rintro ⟨x, hx, -⟩
        rw [entryAt_succ, List.getElem?_take, if_neg (lt_irrefl q)] at hx
        cases hx
      · have hend : min (l.length + batchLimit) l.length = l.length := by omega
        rw [hend]
        exact h.exchange_idle hsame (shares_take le_rfl)

lemma iterate_atPhase {nodes : RaftNode × RaftNode} {p : Phase} (hshare : SharesPrefixes l r)
    (h : AtPhase l r peer nodes p) (k : ℕ) :
    AtPhase l r peer ((exchange peer)^[k] nodes)
      ((Phase.next (meet l r) l.length batchLimit)^[k] p) := by
  induction k with
  | zero => exact h
  | succ k ih =>
      rw [Function.iterate_succ_apply', Function.iterate_succ_apply']
      exact exchange_atPhase hshare ih

/-- Two nodes hold the same entries at all indices of the first one's log. -/
def HoldsLogOf (leader follower : RaftNode) : Prop :=
  leader.lastLogIndex ≤ follower.lastLogIndex ∧
    ∀ i, 1 ≤ i → i ≤ leader.lastLogIndex →
      ∃ e, leader.storage.entry? i = some e ∧ follower.storage.entry? i = some e

lemma holdsLogOf (hl : leader.LogFrom 0 l) (hr : follower.LogFrom 0 r)
    (hshares : Shares l r l.length) : HoldsLogOf leader follower := by
  constructor
  · rw [hl.lastLogIndex, hr.lastLogIndex]
    exact_mod_cast hshares.1
  · intro i hi hle
    rw [hl.lastLogIndex] at hle
    obtain ⟨e, he, -⟩ := entryAt_of_pos hi hle
    have hprefix : l <+: r := by
      rw [List.prefix_iff_eq_take, hshares.2, List.take_length]
    have hgap : ¬ i ≤ 0 := by omega
    exact ⟨e, by rw [hl.storage.entry i hi, if_neg hgap, he],
      by rw [hr.storage.entry i hi, if_neg hgap, entryAt_of_isPrefix hprefix he]⟩

/-- The most exchanges it takes: one for each entry of the leader, one for each batch and one. -/
def exchangeBound (l : List LogEntry) : ℕ :=
  l.length + (l.length + (batchLimit - 1)) / batchLimit + 1

/-- **Replication converges**: after a bounded number of exchanges the peer holds the leader's log,
and the leader knows it if it had to send anything; `nextIndex_` stays within the log all along. -/
theorem replication_converges (hl : leader.LogFrom 0 l) (hnum : Numbered l)
    (hr : follower.LogFrom 0 r) (hterm : follower.currentTerm ≤ leader.currentTerm)
    (hshare : SharesPrefixes l r) (hmay : leader.mayReplicate peer)
    (hnext : leader.nextIndex peer = leader.lastLogIndex + 1)
    (hmatch : leader.matchIndex peer = 0) :
    (∀ k, ((exchange peer)^[k] (leader, follower)).1.lastLogIndex = leader.lastLogIndex ∧
      1 ≤ ((exchange peer)^[k] (leader, follower)).1.nextIndex peer ∧
      ((exchange peer)^[k] (leader, follower)).1.nextIndex peer ≤ leader.lastLogIndex + 1) ∧
    ∃ k ≤ exchangeBound l, ∀ j ≥ k,
      HoldsLogOf leader ((exchange peer)^[j] (leader, follower)).2 ∧
      ((∃ i, SendsEntries peer ((exchange peer)^[i] (leader, follower))) →
        ((exchange peer)^[j] (leader, follower)).1.matchIndex peer = leader.lastLogIndex) := by
  have hlast := hl.lastLogIndex
  have hstart : AtPhase l r peer (leader, follower) (.backing l.length) :=
    ⟨meet_le l r,
      { log := hl
        numbered := hnum
        may := hmay
        term := hterm
        held := hr
        next := by rw [hnext, hlast]
        known := hmatch
        le := le_rfl }⟩
  have hrun := fun k => iterate_atPhase hshare hstart k
  have hbatch : 0 < batchLimit := by decide
  constructor
  · intro k
    have hk := hrun k
    generalize (Phase.next (meet l r) l.length batchLimit)^[k] (.backing l.length) = p at hk
    obtain ⟨r', q, m, hstage⟩ : ∃ r' q m,
        Stage l r' peer q m ((exchange peer)^[k] (leader, follower)) := by
      cases p with
      | backing q => exact ⟨r, q, 0, hk.2⟩
      | sending q => exact ⟨l.take q, q, q, hk⟩
    have hle := hstage.le
    rw [hstage.next, hstage.log.lastLogIndex, hlast]
    omega
  · refine ⟨Phase.rounds (meet l r) l.length batchLimit, ?_, fun j hj => ?_⟩
    · have hdiv : (l.length - meet l r + (batchLimit - 1)) / batchLimit ≤
          (l.length + (batchLimit - 1)) / batchLimit := Nat.div_le_div_right (by omega)
      rw [Phase.rounds, exchangeBound]
      omega
    · have hj' := hrun j
      rw [Phase.iterate_next hbatch hj] at hj'
      split at hj'
      · have hstage : Stage l (l.take l.length) peer l.length l.length _ := hj'
        exact ⟨holdsLogOf hl hstage.held (shares_take le_rfl), fun _ => by rw [hstage.known, hlast]⟩
      · rename_i hge
        have hall : meet l r = l.length := le_antisymm (meet_le l r) (not_lt.mp hge)
        refine ⟨holdsLogOf hl hj'.2.held (hall ▸ shares_meet l r), ?_⟩
        rintro ⟨i, hsends⟩
        -- the two agree from the start, and nothing is sent
        have hi := hrun i
        have hfixed : Phase.next (meet l r) l.length batchLimit (.backing l.length) =
            .backing l.length := by rw [Phase.next, if_neg hge, if_neg (lt_irrefl _)]
        rw [Function.iterate_fixed hfixed] at hi
        exact absurd (hi.2.sendsEntries_iff.mp hsends) (lt_irrefl _)

/-- A candidate of the given term that has just won the election. -/
def RaftNode.elected (n : RaftNode) (term : ℤ) : RaftNode :=
  becomeLeader
    { n with
      state := .candidate
      currentTerm := term
      votedFor := n.config.myId }

lemma RaftNode.LogFrom.elected (h : n.LogFrom 0 l) (term : ℤ) : (n.elected term).LogFrom 0 l := by
  rw [RaftNode.elected, becomeLeader_eq rfl]
  exact ⟨h.storage, h.lastLogIndex, h.lastLogTerm⟩

/-- A leader of term `3` that has got its two entries from earlier leaders. -/
def electedLeader (start : RocksDBStore) : RaftNode :=
  ((RaftNode.new ⟨3, [1, 2, 3]⟩ start).handleAppendEntries
    ⟨2, 1, 0, 0, [⟨1, 1, .empty⟩, ⟨2, 2, .empty⟩], 0⟩).1.elected 3

lemma logFrom_electedLeader :
    (electedLeader .genesis).LogFrom 0 [⟨1, 1, .empty⟩, ⟨2, 2, .empty⟩] := by
  have hacc : (RaftNode.new ⟨3, [1, 2, 3]⟩ .genesis).Accepts
      ⟨2, 1, 0, 0, [⟨1, 1, .empty⟩, ⟨2, 2, .empty⟩], 0⟩ := by
    refine ⟨?_, .inl le_rfl⟩
    rw [currentTerm_new_genesis]
    decide
  obtain ⟨l', hlog, hmerged⟩ := merged_of_accepts (logFrom_genesis _) hacc le_rfl (by decide)
  rw [hmerged.of_nil] at hlog
  exact hlog.elected 3

/-- A follower with a conflicting entry gets the leader's log. -/
theorem conflicting_follower_converges :
    ∃ k ≤ 4, HoldsLogOf (electedLeader .genesis)
      ((exchange 2)^[k] (electedLeader .genesis, uncommittedTwo)).2 := by
  have hvalues : (electedLeader .genesis).currentTerm = 3 ∧
      (electedLeader .genesis).mayReplicate 2 ∧
      (electedLeader .genesis).nextIndex 2 =
        (electedLeader .genesis).lastLogIndex + 1 ∧
      (electedLeader .genesis).matchIndex 2 = 0 := by
    rw [RocksDBStore.genesis_eq]
    decide +kernel
  obtain ⟨hterm, hmay, hnext, hmatch⟩ := hvalues
  obtain ⟨hr, hterm'⟩ : uncommittedTwo.LogFrom 0 [⟨1, 1, .empty⟩, ⟨1, 2, .empty⟩] ∧
      uncommittedTwo.currentTerm = 1 := afterMessage_spec (by decide) rfl (by decide)
  have hnum : Numbered [⟨1, 1, .empty⟩, ⟨2, 2, .empty⟩] := by
    intro k e he
    match k with
    | 0 | 1 =>
        obtain rfl := Option.some.inj he
        decide
    | k + 2 => cases he
  have hshare : SharesPrefixes [⟨1, 1, .empty⟩, ⟨2, 2, .empty⟩]
      [⟨1, 1, .empty⟩, ⟨1, 2, .empty⟩] := by
    intro k e x he hx hsame
    match k with
    | 0 => rfl
    | 1 =>
        obtain rfl := Option.some.inj he
        obtain rfl := Option.some.inj hx
        cases hsame
    | k + 2 => cases he
  obtain ⟨-, k, hk, hconverged⟩ := replication_converges logFrom_electedLeader hnum hr
    (by rw [hterm, hterm']; decide) hshare hmay hnext hmatch
  exact ⟨k, hk, (hconverged k le_rfl).1⟩

end RaftConsensus
