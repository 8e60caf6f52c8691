import RaftConsensus.Cluster.FullLogs

/-!
# Resent requests

`processClientRequest` looks for a stored result, and later for a callback under the same request
id.  Nothing looks again under the lock, and nothing when an entry is executed.  So two threads with
the same request can both find no result, and when the first one's entry has been executed and its
callback is gone, the second one appends another (`transfer_executed_twice`).

`transferred_at_most_once` says what is missing under the lock: as long as a transfer is appended
only when the leader has neither a result nor an entry for it, every transfer moves money at most
once on every node.  The log of every leader then has each transfer once (`TransfersOnce`), also in
the part that has been compacted away, for which there are results; and a node executes its log once
from the beginning.
-/

namespace RaftConsensus

open RocksDBStore

/-- A transfer with request id `id` has changed a balance on node `v`. -/
def Event.isTransfer (v : ℤ) (id : Bytes) : Event → Bool
  | .executed w entry changed =>
      changed && (w = v ∧ entry.command.type = .transfer ∧ entry.command.requestId = id)
  | _ => false

/-- How often a transfer has changed balances on a node. -/
def Cluster.timesTransferred (s : Cluster) (v : ℤ) (id : Bytes) : ℕ :=
  s.history.countP (Event.isTransfer v id)

/-! ## Appending under the lock -/

namespace RaftNode

/-- The request that a thread step appends to the log: that of a thread past its lookup which finds
itself on a leader, without a callback for the request. -/
def appended? (n : RaftNode) : ThreadStep → Option ClientRequest
  | .appendRequest cb =>
      match n.requests cb with
      | some (.lookedUp req) =>
          if n.state = .leader ∧ n.pendingCallbacks req.requestId = none then some req else none
      | _ => none
  | _ => none

/-- There is no stored result for the request, and no entry of a transfer with its id. -/
def IsNew (n : RaftNode) (req : ClientRequest) : Prop :=
  n.storage.getRequestResult req.requestId = [] ∧
    ∀ j ∈ loopRange 1 n.lastLogIndex, ∀ e ∈ n.storage.entry? j,
      ¬ (e.command.type = .transfer ∧ e.command.requestId = req.requestId)

instance (n : RaftNode) (req : ClientRequest) : Decidable (n.IsNew req) :=
  inferInstanceAs (Decidable (_ ∧ ∀ j ∈ loopRange _ _, _))

end RaftNode

/-- **The steps that append new transfers only.** -/
def AppendsNew (s : Cluster) : Label → Prop
  | .thread i a => ∀ req ∈ (s.nodes i).appended? a, req.type = .transfer → (s.nodes i).IsNew req
  | _ => True

instance (s : Cluster) : DecidablePred (AppendsNew s)
  | .thread i a => inferInstanceAs (Decidable (∀ req ∈ (s.nodes i).appended? a, _))
  | .handle _ | .reply _ | .fail _ | .crash _ => isTrue trivial

/-- The runs that append new transfers only, and keep the logs matched. -/
def DeduplicatedRun (members : List ℤ) : Cluster → List Label → Cluster → Prop :=
  Transition.Run (Cluster.step members) fun s l => AppendsNew s l ∧ KeepsLogs s l

/-! ## Transfers in a log -/

/-- How often a log has a transfer. -/
def timesLogged (l : List LogEntry) (id : Bytes) : ℕ :=
  l.countP fun e => e.command.type = .transfer ∧ e.command.requestId = id

/-- The log has no transfer twice. -/
def TransfersOnce (l : List LogEntry) : Prop := ∀ id, timesLogged l id ≤ 1

section Transfers

variable {l r : List LogEntry} {e : LogEntry} {id : Bytes}

lemma timesLogged_le (h : r <+: l) : timesLogged r id ≤ timesLogged l id :=
  h.sublist.countP_le

lemma timesLogged_concat : timesLogged (l ++ [e]) id = timesLogged l id +
    if e.command.type = .transfer ∧ e.command.requestId = id then 1 else 0 := by
  simp [timesLogged, List.countP_append, List.countP_singleton]

lemma TransfersOnce.of_shorter (h : TransfersOnce l) (hr : r <+: l) : TransfersOnce r :=
  fun id => (timesLogged_le hr).trans (h id)

/-- An entry continues a log without its transfer. -/
lemma TransfersOnce.concat (h : TransfersOnce l)
    (hnew : e.command.type = .transfer → timesLogged l e.command.requestId = 0) :
    TransfersOnce (l ++ [e]) := by
  intro id
  rw [timesLogged_concat]
  split
  · rename_i htransfer
    obtain ⟨htype, rfl⟩ := htransfer
    rw [hnew htype]
  · exact h id

end Transfers

/-! ## The invariant -/

variable {members : List ℤ} {a b : Logs} {s t : Cluster} {l : Label}

/-- A new transfer is not in the log, not even in the part that has been compacted away. -/
lemma RaftNode.IsNew.timesLogged_eq_zero {n : RaftNode} {req : ClientRequest} {r : List LogEntry}
    (h : n.IsNew req) (hholds : n.HoldsLog r) : timesLogged r req.requestId = 0 := by
  rw [timesLogged, List.countP_eq_zero]
  intro e he htransfer
  rw [decide_eq_true_iff] at htransfer
  obtain ⟨c, hlog, hc, -⟩ := hholds.log
  obtain ⟨k, hk⟩ := List.getElem?_of_mem he
  have hlt := (List.getElem?_eq_some_iff.mp hk).1
  by_cases hgone : (k : ℤ) + 1 ≤ c
  · -- it has been executed
    have hresult := hholds.results k e hk (by omega)
    rw [htransfer.2] at hresult
    exact hresult h.1
  · have hstored : n.storage.entry? (k + 1) = some e := by
      rw [hlog.storage.entry _ (by omega), if_neg hgone, entryAt_succ, hk]
    refine h.2 (k + 1) (mem_loopRange.mpr ⟨by omega, ?_⟩) e hstored htransfer
    rw [hlog.lastLogIndex]
    omega

/-- Every leader's log has each transfer once, and what has moved money on a node is in the part of
its log that it has executed. -/
structure TransferInv (s : Cluster) (a : Logs) : Prop where
  backed : Backed s a
  once : ∀ T, a.led T → TransfersOnce (a.full T)
  executed : ∀ v id, s.timesTransferred v id ≤
    timesLogged ((a.log v).take (s.nodes v).storedApplied.toNat) id

namespace TransferInv

lemma once_log (h : TransferInv s a) (v : ℤ) : TransfersOnce (a.log v) :=
  (h.backed.logs.matching.log v).of_full (fun _ => Nat.zero_le _)
    (fun _ _ honce => honce.of_shorter) h.once

/-- The logs of the leaders after a step. -/
lemma once_step (h : TransferInv s a) (hnew : AppendsNew s l) (hnext : LogsStep s l t a b) :
    ∀ T, b.led T → TransfersOnce (b.full T) := by
  intro T hT
  cases hnext.origin T hT with
  | kept hled hr => exact hr ▸ h.once T hled
  | won i hr => exact hr ▸ h.once_log i
  | appended i cb req hl hreq hstate hpending hr =>
      rw [hr]
      refine (h.once_log i).concat fun htype => ?_
      have happended : (s.nodes i).appended? (.appendRequest cb) = some req := by
        simp [RaftNode.appended?, hreq, hstate, hpending]
      subst hl
      exact (hnew req happended htype).timesLogged_eq_zero (h.backed.logs.holds i)

/-- What has been executed before stays executed. -/
lemma executed_mono (h : TransferInv s a) (hnext : LogsStep s l t a b) (v : ℤ) (id : Bytes) :
    s.timesTransferred v id ≤
      timesLogged ((b.log v).take (t.nodes v).storedApplied.toNat) id := by
  rw [hnext.executed v]
  have hle := hnext.applied v
  exact (h.executed v id).trans (timesLogged_le (List.take_prefix_take_left (by omega)))

/-- What has moved money after a step. -/
lemma executed_step (h : TransferInv s a) (hnext : LogsStep s l t a b)
    (hstep : Cluster.step members s l = some t) (v : ℤ) (id : Bytes) :
    t.timesTransferred v id ≤
      timesLogged ((b.log v).take (t.nodes v).storedApplied.toNat) id := by
  rcases Cluster.executed_of_step hstep with
    ⟨w, entry, rest, x, y, msg, -, hex, hstorage, hhistory⟩ | ⟨es, hhistory, hes⟩
  · have hcount : t.timesTransferred v id = s.timesTransferred v id +
        if Event.isTransfer v id (.executed w entry
          (Cluster.balanceChanged (s.nodes w) (t.nodes w) entry)) then 1 else 0 := by
      rw [Cluster.timesTransferred, hhistory, List.countP_cons]
      rfl
    rw [hcount]
    split
    · -- the entry is the next one of the log
      rename_i hevent
      rw [Event.isTransfer, Bool.and_eq_true, decide_eq_true_iff] at hevent
      obtain ⟨-, rfl, htransfer⟩ := hevent
      have hholds := h.backed.logs.holds w
      obtain ⟨hindex, hget⟩ := hholds.next hex
      have happlied : (t.nodes w).storedApplied = entry.index := by
        rw [RaftNode.storedApplied, hstorage, getLastAppliedIndex_applyTransaction]
      obtain ⟨k, hk, hentry⟩ := entryAt_eq_some.mp hget
      have hbefore : (s.nodes w).storedApplied.toNat = k := by
        rw [RaftNode.storedApplied]
        omega
      have hafter : (t.nodes w).storedApplied.toNat = k + 1 := by omega
      have hsofar := h.executed w id
      rw [hbefore] at hsofar
      rw [hnext.executed w, hafter, List.take_add_one, hentry, Option.toList_some,
        timesLogged_concat, if_pos htransfer]
      omega
    · exact h.executed_mono hnext v id
  · have hcount : t.timesTransferred v id = s.timesTransferred v id := by
      have hnone : es.countP (Event.isTransfer v id) = 0 := by
        rw [List.countP_eq_zero]
        intro ev hev htransfer
        cases ev with
        | executed => exact hes _ hev trivial
        | _ => cases htransfer
      rw [Cluster.timesTransferred, hhistory, List.countP_append, hnone, Nat.zero_add]
      rfl
    rw [hcount]
    exact h.executed_mono hnext v id

/-- **One step keeps the invariant.** -/
theorem step (h : TransferInv s a) (hnew : AppendsNew s l) (hkeeps : KeepsLogs s l)
    (hstep : Cluster.step members s l = some t) : ∃ b, TransferInv t b := by
  obtain ⟨b, hbacked, hnext⟩ := h.backed.step hkeeps hstep
  exact ⟨b, hbacked, h.once_step hnew hnext, h.executed_step hnext hstep⟩

lemma init : TransferInv (.init members fun _ => genesis) .init where
  backed := backed_init
  once _ h := h.elim
  executed _ _ := Nat.zero_le _

/-- Every run keeps it. -/
lemma run {ls : List Label}
    (hrun : DeduplicatedRun members (.init members fun _ => genesis) ls s) :
    ∃ a, TransferInv s a := by
  induction hrun with
  | nil => exact ⟨_, .init⟩
  | snoc _ hok hstep ih =>
      obtain ⟨a, h⟩ := ih
      exact h.step hok.1 hok.2 hstep

/-- The executed part of a log has each transfer once. -/
lemma at_most_once (h : TransferInv s a) (v : ℤ) (id : Bytes) : s.timesTransferred v id ≤ 1 :=
  (h.executed v id).trans ((h.once_log v).of_shorter (List.take_prefix _ _) id)

end TransferInv

/-- **Exactly-once transfers.**  In every run, over crashes, compaction and changes of leader and
with clients resending to any nodes at any time: if every transfer that is appended is new to its
leader, and the logs stay matched, no transfer changes balances more than once on any node. -/
theorem transferred_at_most_once (members : List ℤ) {ls : List Label}
    (hrun : DeduplicatedRun members (.init members fun _ => genesis) ls s) (v : ℤ) (id : Bytes) :
    s.timesTransferred v id ≤ 1 := by
  obtain ⟨a, h⟩ := TransferInv.run hrun
  exact h.at_most_once v id

/-! ## Crashes that lose no vote -/

/-- The runs that append new transfers only, in which nobody dies without having saved its term and
its vote. -/
def SavedRun (members : List ℤ) : Cluster → List Label → Cluster → Prop :=
  Transition.Run (Cluster.step members)
    fun s l => AppendsNew s l ∧ s.CrashSaved l ∧ Steady s l ∧ s.KeepsHeld l

/-- In these runs no term gets a second leader. -/
lemma SavedRun.deduplicated {m : Membership} {ls : List Label}
    (hrun : SavedRun m.ids (.init m.ids fun _ => genesis) ls s) :
    DeduplicatedRun m.ids (.init m.ids fun _ => genesis) ls s := by
  induction hrun with
  | nil => exact .nil
  | snoc hrun hok hstep ih =>
      obtain ⟨hnew, -, hsteady, hheld⟩ := hok
      have hfirst := electsFirst_of_saved (hrun.mono fun _ _ h => h.2.1) hstep
      exact .snoc ih ⟨hnew, hfirst, hsteady, hheld⟩ hstep

/-- After both nodes have executed the request, node `2` is started again and the client sends the
request once more. -/
def resentLater : List Label :=
  agreement ++ [.thread 1 .notifyClient, .thread 1 .skipCompaction, .crash 2,
    .thread 1 (.clientRequest 1 (transfer (Bytes.ascii "r") 50)), .thread 1 (.lookupRequest 1)]

/-- Node `1` executes the request once. -/
theorem transferred_at_most_once_pair :
    ∃ s, DeduplicatedRun pair.ids (.init pair.ids fun _ => genesis) resentLater s ∧
      s.timesTransferred 1 (Bytes.ascii "r") ≤ 1 ∧ s.timesTransferred 1 (Bytes.ascii "r") ≠ 0 := by
  have hruns : ∃ s, SavedRun pair.ids (.init pair.ids fun _ => genesis) resentLater s ∧
      s.timesTransferred 1 (Bytes.ascii "r") ≠ 0 :=
    run_of_after (by decide +kernel)
  obtain ⟨s, hrun, hne⟩ := hruns
  exact ⟨s, hrun.deduplicated, transferred_at_most_once pair.ids hrun.deduplicated 1 _, hne⟩

/-! ## Two threads -/

/-- Two threads of the leader look for the result of the same request and find none.  One appends
its entry, which is executed; then the other one appends its own. -/
def resentRequest : List Label :=
  campaign 1 1 ++ [.handle 0, .reply 0,
    .thread 1 (.clientRequest 0 (transfer (Bytes.ascii "r") 50)), .thread 1 (.lookupRequest 0),
    .thread 1 (.clientRequest 1 (transfer (Bytes.ascii "r") 50)), .thread 1 (.lookupRequest 1),
    .thread 1 (.appendRequest 0)] ++
    replicate 1 2 1 ++ applyFirst 1 ++ [.thread 1 .notifyClient, .thread 1 .skipCompaction,
    .thread 1 (.appendRequest 1)] ++ replicate 1 2 2 ++ applyFirst 1

/-- **A resent transfer is executed twice**, without any failure. -/
theorem transfer_executed_twice :
    ∃ s, CrashFreeRun pair.ids (.init pair.ids fun _ => genesis) resentRequest s ∧
      s.timesTransferred 1 (Bytes.ascii "r") = 2 :=
  run_of_after (by decide +kernel)

end RaftConsensus
