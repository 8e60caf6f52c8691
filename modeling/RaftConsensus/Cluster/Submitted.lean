import RaftConsensus.Cluster.LogSafety
import RaftConsensus.Cluster.Provenance

/-!
# Everything in the cluster has been submitted

In a plain run (without crashes and compaction, every message built in one step), whatever holds of
the entries that `processClientRequest` has appended holds of all entries that are anywhere: in the
logs, in the messages and in the batches of the executors (`Submitted.step`).  Nothing is ever read
at an index where there is no entry.

So every entry can be charged to a submission of its own (`Charged`): a client's thread comes with
one, and hands it over to the entry that it appends.
-/

namespace RaftConsensus

open RocksDBStore

variable {m : Membership} {a : Logs} {s t : Cluster} {l : Label} {i : ℤ} {n n' : RaftNode}
  {P P' : LogEntry → Prop} {Q Q' : ℕ → ClientRequest → Prop} {calls : ℕ → Option Call}
  {hist : List Event}

namespace RaftNode

/-- All entries of a node satisfy `P`, and the requests its threads have come with satisfy `Q`. -/
structure Submitted (n : RaftNode) (P : LogEntry → Prop) (Q : ℕ → ClientRequest → Prop) :
    Prop where
  log : n.storage.AllEntries P
  batch : ∀ e ∈ n.executor.unapplied, P e
  threads : ∀ cb th, n.requests cb = some th → Q cb th.request

namespace Submitted

lemma mono (h : n.Submitted P Q) (hP : ∀ e, P e → P' e) (hQ : ∀ cb req, Q cb req → Q' cb req) :
    n.Submitted P' Q' where
  log := h.log.mono hP
  batch e he := hP e (h.batch e he)
  threads cb th hth := hQ cb th.request (h.threads cb th hth)

/-- Only the store changes. -/
lemma replace (h : n.Submitted P Q) (hexecutor : n'.executor = n.executor)
    (hrequests : n'.requests = n.requests) (hlog : n'.storage.AllEntries P) :
    n'.Submitted P Q where
  log := hlog
  batch := hexecutor ▸ h.batch
  threads := hrequests ▸ h.threads

/-- A thread of `processClientRequest` moves. -/
lemma setRequest (h : n.Submitted P Q) {cb : ℕ} {r : Option RequestThread}
    (hr : ∀ th ∈ r, Q cb th.request) :
    RaftNode.Submitted { n with requests := Function.update n.requests cb r } P Q where
  log := h.log
  batch := h.batch
  threads cb' th hth := by
    by_cases hcb : cb' = cb
    · subst hcb
      exact hr th (by simpa using hth)
    · exact h.threads cb' th (by simpa [Function.update_of_ne hcb] using hth)

/-- What is stored is what the abstract log holds. -/
lemma of_mem (h : n.Submitted P Q) (hn : NodeRel m a calls hist i n) {e : LogEntry}
    (he : e ∈ a.log i) : P e := by
  obtain ⟨k, hk, rfl⟩ := List.mem_iff_getElem.mp he
  refine h.log (k + 1) _ ?_
  rw [hn.log.storage.entry?, entryAt_succ, List.getElem?_eq_getElem hk]

end Submitted

/-- What the executor fetches is in the log. -/
lemma mem_log_of_fetched (hn : NodeRel m a calls hist i n) (hwaiting : n.executor = .waiting)
    {e : LogEntry}
    (he : e ∈ n.batchIndices.map n.storage.getLogEntry) : e ∈ a.log i := by
  obtain ⟨l, T, -, -, -, happlied⟩ := hn.executor
  rw [hwaiting] at happlied
  obtain ⟨c, hc, hle, -⟩ := hn.commit
  rw [batchIndices, List.map_take, happlied, hc, hn.log.storage.map_loopRange hle] at he
  exact List.mem_of_mem_take (List.mem_of_mem_drop (List.mem_of_mem_take he))

/-- **A thread step keeps all entries of its node submitted**, if the one it may append is. -/
lemma Move.submitted {call : ℕ} {x : ThreadStep} {out : Output} (hmove : n.Move call x n' out)
    (h : n.Submitted P Q) (hn : NodeRel m a calls hist i n)
    (hclient : ∀ cb req, x = .clientRequest cb req → Q cb req)
    (happend : ∀ cb req, x = .appendRequest cb → n.requests cb = some (.lookedUp req) →
      P (n.newEntry req)) : n'.Submitted P Q := by
  have hnext : ∀ {rest : List LogEntry}, n.executor = .notified rest →
      ∀ e ∈ (Executor.next rest).unapplied, P e := by
    intro rest hex e he
    rw [Executor.unapplied_next] at he
    exact h.batch e (by rwa [hex])
  cases hmove with
  | saveHardState => exact h.replace rfl rfl h.log.saveHardState
  | clientRequest => exact h.setRequest (by rintro th ⟨⟩; exact hclient _ _ rfl)
  | lookupFound => exact h.setRequest (by simp)
  | lookupRequest hreq =>
      have hsent := h.threads _ _ hreq
      exact h.setRequest (by rintro th ⟨⟩; exact hsent)
  | appendRefused => exact h.setRequest (by simp)
  | appendInFlight => exact h.setRequest (by simp)
  | @appendRequest cb req hreq =>
      have hthreads : RaftNode.Submitted
          { n with requests := Function.update n.requests cb none } P Q := h.setRequest (by simp)
      exact hthreads.replace rfl rfl (h.log.appendLog (happend _ _ rfl hreq))
  | fetchBatch hwaiting =>
      refine ⟨h.log, fun e he => ?_, h.threads⟩
      rw [Executor.unapplied_next] at he
      exact h.of_mem hn (mem_log_of_fetched hn hwaiting he)
  | readBalances hex => exact ⟨h.log, by simpa [hex, Executor.unapplied] using h.batch, h.threads⟩
  | @applyEntry entry rest x y msg hex =>
      refine ⟨h.log.of_same fun _ => entry?_applyTransaction, fun e he => h.batch e ?_, h.threads⟩
      rw [hex]
      exact List.mem_cons_of_mem _ he
  | notifyClient hex => exact ⟨h.log, by simpa [hex, Executor.unapplied] using h.batch, h.threads⟩
  | @compactIfDue rest hex =>
      refine ⟨?_, hnext hex, h.threads⟩
      dsimp only
      split
      · exact h.log.compactLog
      · exact h.log
  | skipCompaction hex => exact ⟨h.log, hnext hex, h.threads⟩
  | _ => exact ⟨h.log, h.batch, h.threads⟩

/-- A request that is handled leaves all entries submitted if those it carries are. -/
lemma submitted_handle (h : n.Submitted P Q) {req : Request}
    (hsnapshot : ∀ args, req ≠ .installSnapshot args)
    (hentries : ∀ args, req = .appendEntries args → ∀ e ∈ args.entries, P e) :
    (n.handle req).1.Submitted P Q := by
  obtain ⟨-, -, -, -, -, -, -, hexecutor, hrequests⟩ := threads_inj (handle_threads n req)
  refine h.replace hexecutor hrequests ?_
  cases req with
  | requestVote args =>
      rcases handleRequestVote_cases n args with hcase | ⟨-, -, ⟨-, hcase, -⟩ | hcase⟩
      · rw [handle, hcase]
        exact h.log
      · rw [handle, hcase]
        exact (allEntries_seeTerm h.log).saveHardState
      · rw [handle, hcase]
        exact allEntries_seeTerm h.log
  | appendEntries args =>
      have haccept : (n.acceptLeader args.term args.leaderId).storage.AllEntries P := by
        unfold acceptLeader
        dsimp only
        split
        · exact h.log.saveHardState
        · split
          · exact h.log.saveHardState
          · exact h.log
      simp only [handle, handleAppendEntries]
      split
      · exact h.log
      · split
        · unfold followCommit
          split
          · exact allEntries_appendLoop (hentries args rfl) haccept
          · exact allEntries_appendLoop (hentries args rfl) haccept
        · exact haccept
  | installSnapshot args => exact absurd rfl (hsnapshot args)

lemma submitted_receive (h : n.Submitted P Q) {dst : ℤ} {req : Request} {rep : Reply} :
    (n.receive dst req rep).Submitted P Q := by
  obtain ⟨hexecutor, hrequests, hs | ⟨T, v, hs⟩⟩ := receive_frame n dst req rep
  · exact h.replace hexecutor hrequests (hs ▸ h.log)
  · exact h.replace hexecutor hrequests (hs ▸ h.log.saveHardState)

lemma submitted_abandon (h : n.Submitted P Q) {dst : ℤ} {req : Request} :
    (n.abandon dst req).Submitted P Q := by
  cases req with
  | requestVote => exact h
  | appendEntries => exact h.replace rfl rfl h.log
  | installSnapshot => exact h.replace rfl rfl h.log

end RaftNode

/-- All entries in the cluster satisfy `P`, and the requests of all threads satisfy `R`, by node and
callback. -/
structure Submitted (s : Cluster) (P : LogEntry → Prop) (R : ℤ → ℕ → ClientRequest → Prop) :
    Prop where
  nodes : ∀ i, (s.nodes i).Submitted P (R i)
  calls : ∀ k c args, s.calls k = some c → c.request = .appendEntries args →
    ∀ e ∈ args.entries, P e

namespace Submitted

variable {R R' : ℤ → ℕ → ClientRequest → Prop}

lemma mono (h : Submitted s P R) (hP : ∀ e, P e → P' e)
    (hR : ∀ i cb req, R i cb req → R' i cb req) : Submitted s P' R' where
  nodes i := (h.nodes i).mono hP (hR i)
  calls k c args hc hreq e he := hP e (h.calls k c args hc hreq e he)

lemma of_node (h : Submitted s P R) (hnodes : t.nodes = Function.update s.nodes i n)
    (hn : n.Submitted P (R i))
    (hcalls : ∀ k c args, t.calls k = some c → c.request = .appendEntries args →
      ∀ e ∈ args.entries, P e) : Submitted t P R :=
  ⟨Cluster.forall_nodes (P := fun j n => n.Submitted P (R j)) hnodes hn fun j _ => h.nodes j,
    hcalls⟩

/-- Replacing a call by one with the same request, or by none. -/
lemma update_call (h : Submitted s P R) {k : ℕ} {new : Option Call}
    (hnew : ∀ c ∈ new, ∃ c' ∈ s.calls k, c'.src = c.src ∧ c'.request = c.request) (k' : ℕ)
    (c : Call) (args : AppendEntriesArgs) (hc : Function.update s.calls k new k' = some c)
    (hreq : c.request = .appendEntries args) : ∀ e ∈ args.entries, P e :=
  Cluster.forall_calls_update
    (Q := fun _ req => ∀ args, req = .appendEntries args → ∀ e ∈ args.entries, P e)
    (fun k c hc args hreq => h.calls k c args hc hreq) hnew k' c hc args hreq

/-- Of the threads only those matter that there are. -/
lemma of_threads (h : Submitted s P R)
    (hR : ∀ i cb th, (s.nodes i).requests cb = some th → R i cb th.request →
      R' i cb th.request) : Submitted s P R' :=
  ⟨fun i => ⟨(h.nodes i).log, (h.nodes i).batch, fun cb th hth =>
    hR i cb th hth ((h.nodes i).threads cb th hth)⟩, h.calls⟩

/-- **One step**: only a client brings in a request, and only its thread appends an entry. -/
theorem step (h : Submitted s P R) (hr : Routed m s) (hrel : LogRel m s a) (hl : l.plain s)
    (hmove : s.Move m.ids l t)
    (hclient : ∀ i cb req, l = .thread i (.clientRequest cb req) → R i cb req)
    (happend : ∀ i cb req, l = .thread i (.appendRequest cb) →
      (s.nodes i).requests cb = some (.lookedUp req) → P ((s.nodes i).newEntry req)) :
    Submitted t P R := by
  cases hmove with
  | @thread i x n out hi hmove =>
      have hn := hrel.nodes i
      refine h.of_node (i := i) (n := n) (by simp) ?_ fun k c args hc hreq e he => ?_
      · refine hmove.submitted (h.nodes i) hn (fun cb req hx => hclient i cb req (by rw [hx]))
          fun cb req hx hreq => happend i cb req (by rw [hx]) hreq
      · rcases Cluster.emit_calls (s := s.setNode i n) hc with ⟨hc, -⟩ | ⟨dst, req, rfl, -, rfl⟩
        · exact h.calls k c args hc hreq e he
        · -- the entries that are sent are those of the leader's own log
          obtain rfl : req = .appendEntries args := hreq
          rcases hn.sends hl.1 hmove with ⟨args', hvote⟩ | ⟨happend, hmay, -⟩
          · cases hvote
          · cases happend
            obtain ⟨pre, com, hmsg⟩ := hn.messageOf hrel.abs (hr.nodes i) hmay
            refine (h.nodes i).of_mem hn ?_
            rw [(hn.leader hmay.2.2).2.1]
            exact hmsg.slice.subset (List.mem_append_right _ he)
  | @handle k src dst req alive hcall =>
      refine h.of_node (i := dst) rfl (RaftNode.submitted_handle (h.nodes dst) ?_ ?_)
        (h.update_call ?_)
      · rintro args rfl
        exact (hrel.calls k _ hcall).elim
      · rintro args rfl
        exact h.calls k _ args hcall rfl
      · rintro c ⟨⟩
        exact ⟨_, hcall, rfl, rfl⟩
  | @reply k src dst req rep hcall =>
      exact h.of_node (i := src) rfl (RaftNode.submitted_receive (h.nodes src))
        (h.update_call (by simp))
  | @fail k src dst req rep hcall =>
      refine h.of_node (i := src) rfl (RaftNode.submitted_abandon (h.nodes src))
        (h.update_call ?_)
      rintro c ⟨⟩
      exact ⟨_, hcall, rfl, rfl⟩
  | crash => exact hl.elim

end Submitted

/-- At the start there are no entries and no threads. -/
lemma submitted_init (members : List ℤ) {R : ℤ → ℕ → ClientRequest → Prop} :
    Submitted (.init members fun _ => genesis) P R := by
  refine ⟨fun i => ⟨fun j e he => ?_, fun e he => ?_, fun cb th hth => ?_⟩, by simp [Cluster.init]⟩
  · have hnone : genesis.entry? j = none := by
      rw [RocksDBStore.entry?, get_genesis_of_head (by simp)]
      rfl
    have he' : genesis.entry? j = some e := (entry?_of_db rfl).trans he
    rw [hnone] at he'
    cases he'
  · cases he
  · cases hth

/-! ## Every entry has a submission of its own -/

/-- The requests that a step takes from clients. -/
def Label.submits : Label → List ClientRequest
  | .thread _ (.clientRequest _ req) => [req]
  | _ => []

/-- **Every entry that has been appended is charged to a submission of its own**, one of `ops`, and
so is every thread of `processClientRequest`.  The entries `L` are among those appended. -/
def Charged (s : Cluster) (L : List LogEntry) (ops : List ClientRequest) : Prop :=
  ∃ (es : List LogEntry) (threads : List ((ℤ × ℕ) × ClientRequest)),
    Submitted s (· ∈ es) (fun i cb req => ((i, cb), req) ∈ threads) ∧ L ⊆ es ∧
      (es.map LogEntry.command ++ threads.map Prod.snd).Subperm ops

/-- A thread of `processClientRequest` ends with its locked block. -/
lemma requests_none_of_appendRequest {cb : ℕ}
    (hmove : s.Move m.ids (.thread i (.appendRequest cb)) t) : (t.nodes i).requests cb = none := by
  cases hmove with
  | thread hi hmove =>
      rw [Cluster.record_nodes, Cluster.emit_nodes, Cluster.setNode_nodes, Function.update_self]
      cases hmove with
      | appendRefused => exact Function.update_self _ _ _
      | appendInFlight => exact Function.update_self _ _ _
      | appendRequest => exact Function.update_self _ _ _

namespace Charged

variable {L : List LogEntry} {ops waiting : List ClientRequest} {v : ℤ} {e : LogEntry}

lemma of_perm {ops' : List ClientRequest} (h : Charged s L ops) (hperm : ops.Perm ops') :
    Charged s L ops' := by
  obtain ⟨es, threads, hsub, hL, hcharge⟩ := h
  exact ⟨es, threads, hsub, hL, hcharge.trans hperm.subperm⟩

/-- **One step**: the submission of a thread becomes that of the entry it appends. -/
theorem step (h : Charged s L ops) (hr : Routed m s) (hrel : LogRel m s a) (hl : l.plain s)
    (hmove : s.Move m.ids l t) : Charged t L (l.submits ++ ops) := by
  obtain ⟨es, threads, hsub, hL, hcharge⟩ := h
  by_cases hclient : ∃ i cb req, l = .thread i (.clientRequest cb req)
  · -- a new thread is charged to the new submission
    obtain ⟨i, cb, req, rfl⟩ := hclient
    refine ⟨es, ((i, cb), req) :: threads, ?_, hL, ?_⟩
    · refine (hsub.mono (fun e he => he) fun i' cb' req' h' => List.mem_cons_of_mem _ h').step hr
        hrel hl hmove ?_ (by simp)
      rintro _ _ _ ⟨⟩
      exact List.mem_cons_self
    · exact List.perm_middle.subperm.trans ((List.subperm_cons req).mpr hcharge)
  · have hnone : l.submits = [] := by
      unfold Label.submits
      split
      · exact absurd ⟨_, _, _, rfl⟩ hclient
      · rfl
    rw [hnone, List.nil_append]
    have hno : ∀ {R : ℤ → ℕ → ClientRequest → Prop} i cb req,
        l = .thread i (.clientRequest cb req) → R i cb req :=
      fun i cb req hreq => absurd ⟨i, cb, req, hreq⟩ hclient
    by_cases happend : ∃ i cb req, l = .thread i (.appendRequest cb) ∧
        (s.nodes i).requests cb = some (.lookedUp req)
    · obtain ⟨i, cb, req, rfl, hreq⟩ := happend
      have hmem : ((i, cb), req) ∈ threads := (hsub.nodes i).threads cb _ hreq
      refine ⟨(s.nodes i).newEntry req :: es, threads.erase ((i, cb), req), ?_,
        fun e he => List.mem_cons_of_mem _ (hL he), ?_⟩
      · have hstep : Submitted t (· ∈ (s.nodes i).newEntry req :: es)
            (fun i cb req => ((i, cb), req) ∈ threads) := by
          refine (hsub.mono (fun e he => List.mem_cons_of_mem _ he) fun _ _ _ h' => h').step hr hrel
            hl hmove hno ?_
          rintro i' cb' req' ⟨⟩ hreq'
          cases hreq.symm.trans hreq'
          exact List.mem_cons_self
        -- the thread is gone
        refine hstep.of_threads fun i' cb' th hth hR => (List.mem_erase_of_ne ?_).mpr hR
        intro heq
        obtain ⟨⟨rfl, rfl⟩, -⟩ := Prod.ext_iff.mp heq |>.imp_left Prod.ext_iff.mp
        rw [requests_none_of_appendRequest hmove] at hth
        cases hth
      · have hthreads := (List.perm_cons_erase hmem).map Prod.snd
        exact (List.perm_middle.symm.trans
          (hthreads.symm.append_left (es.map LogEntry.command))).subperm.trans hcharge
    · refine ⟨es, threads, hsub.step hr hrel hl hmove hno ?_, hL, hcharge⟩
      exact fun i cb req hlabel hreq => absurd ⟨i, cb, req, hlabel, hreq⟩ happend

/-- **The next entry of an executor**, when it continues `L`, has a submission of its own besides
those of `L`. -/
theorem next (h : Charged s L (L.map LogEntry.command ++ waiting))
    (he : e ∈ (s.nodes v).executor.unapplied) (hnodup : (L ++ [e]).Nodup) :
    e.command ∈ waiting ∧ Charged s (L ++ [e])
      ((L ++ [e]).map LogEntry.command ++ waiting.erase e.command) := by
  obtain ⟨es, threads, hsub, hL, hcharge⟩ := h
  have hL' : L ++ [e] ⊆ es := by
    refine List.append_subset.mpr ⟨hL, fun x hx => ?_⟩
    rw [List.mem_singleton.mp hx]
    exact (hsub.nodes v).batch e he
  have hentries : ((L ++ [e]).map LogEntry.command).Subperm
      (L.map LogEntry.command ++ waiting) := by
    obtain ⟨l, hperm, hl⟩ := hnodup.subperm hL'
    exact (hperm.map _).symm.subperm.trans
      ((hl.map _).trans (List.sublist_append_left _ _) |>.subperm.trans hcharge)
  have hwaiting : e.command ∈ waiting := by
    rw [List.map_append, List.subperm_append_left] at hentries
    exact hentries.subset (List.mem_singleton_self _)
  refine ⟨hwaiting, es, threads, hsub, hL', ?_⟩
  rw [List.map_append, List.append_assoc]
  exact hcharge.trans
    ((List.perm_cons_erase hwaiting).append_left (L.map LogEntry.command)).subperm

end Charged

lemma charged_init (members : List ℤ) : Charged (.init members fun _ => genesis) [] [] :=
  ⟨[], [], submitted_init members, List.nil_subset _, List.nil_subperm⟩

end RaftConsensus
