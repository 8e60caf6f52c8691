import RaftConsensus.Storage.Bank
import RaftConsensus.Cluster.ClientResults
import RaftConsensus.Cluster.Submitted

/-!
# The cluster is one bank

To its clients the cluster is a single bank that executes one command after the other
(`cluster_linearizable`): what they see of a plain run (without crashes and compaction, every
message built in one step) is linearizable.  The order is what has been decided, and every node
holds the balances that a part of it leads to (`cluster_refines_bank`).

What clients see are the requests they send and the answers they get.  "Not Leader" is no answer
but a refusal, after which the command may be executed or not.  Every submission is executed once at
most.  A request that is sent again under the same id is another submission and can be executed too;
each answer is explained by one of the executions.
-/

namespace RaftConsensus

open RocksDBStore Replication

/-! ## What clients see -/

/-- An answer as the client sees it. -/
def seenBy (p : Bytes × ClientResponse) : Seen ClientRequest Bytes Bytes :=
  if p.2.result = Bytes.ascii "Not Leader" then .refused p.1 else .answered p.1 p.2.result

/-- What clients see of a step. -/
def Cluster.observe (s : Cluster) (l : Label) : List (Seen ClientRequest Bytes Bytes) :=
  l.submits.map .submitted ++ (s.response? l).toList.map seenBy

/-- The plain runs, with what clients see of them. -/
abbrev TracedRun (m : Membership) : List (Seen ClientRequest Bytes Bytes) → Cluster → Prop :=
  Transition.Traced (Cluster.step m.ids) Label.plain Cluster.observe
    (.init m.ids fun _ => genesis)

/-- The bank as one copy, starting with the genesis accounts. -/
abbrev BankRun : OneCopy ℤ ClientRequest → List (Seen ClientRequest Bytes Bytes) →
    OneCopy ℤ ClientRequest → Prop :=
  OneCopy.Traced bank genesis.getBalance ClientRequest.requestId

/-- The answer of the bank to the command at position `k`. -/
abbrev BankAnswers : List ClientRequest → ℕ → ClientRequest → Bytes → Prop :=
  bank.AnswersAt genesis.getBalance

variable {m : Membership} {a : Logs} {s t : Cluster} {l : Label} {n : RaftNode}
  {b : OneCopy ℤ ClientRequest} {L : List LogEntry} {T T' : ℤ} {k : ℕ} {v : ℤ}

/-! ## The stores -/

/-- The bank's answer to the command that comes next. -/
lemma bankAnswers_concat (es : List LogEntry) (e : LogEntry) :
    BankAnswers ((es ++ [e]).map LogEntry.command) es.length e.command
      ((genesis.executeAll es).outcome e.command).resultMsg := by
  refine ⟨by simp, ?_⟩
  rw [outcome_resultMsg_bank, getBalance_executeAll, List.map_append, List.take_left' (by simp)]

/-- **A stored result is the bank's answer** to a command with that id. -/
lemma bankAnswers_stored {es : List LogEntry} {id : Bytes}
    (h : (genesis.executeAll es).getRequestResult id ≠ []) :
    ∃ k cmd, cmd.requestId = id ∧ BankAnswers (es.map LogEntry.command) k cmd
      ((genesis.executeAll es).getRequestResult id) := by
  induction es using List.reverseRecOn with
  | nil => exact absurd (getRequestResult_genesis id) h
  | append_singleton es e ih =>
      rw [executeAll_concat, execute, getRequestResult_applyTransaction] at h ⊢
      by_cases hid : id = e.command.requestId
      · rw [if_pos hid]
        exact ⟨es.length, e.command, hid.symm, bankAnswers_concat es e⟩
      · rw [if_neg hid] at h ⊢
        obtain ⟨k, cmd, hcmd, hat⟩ := ih h
        refine ⟨k, cmd, hcmd, hat.of_prefix ?_⟩
        rw [List.map_append]
        exact List.prefix_append _ _

/-- What a node has executed is the beginning of any longer decided list. -/
lemma ExecutorRel.eq_take (hx : ExecutorRel m a n) (habs : LogInv m a) (hL : m.Decided a T L)
    (happlied : n.storage.getLastAppliedIndex = k) (hk : k ≤ L.length) :
    (∃ T', m.Decided a T' (L.take k ++ n.executor.unapplied)) ∧
      n.storage.SameRecords (genesis.executeAll (L.take k)) ∧
      ∀ entry rest x y msg, n.executor = .computed entry rest x y msg →
        n.storage.outcome entry.command = ⟨x, y, msg⟩ := by
  obtain ⟨l, T', hdec, hstored, hsame, hwhere⟩ := hx
  have hlen : l.length = k := by
    rw [happlied] at hstored
    exact_mod_cast hstored.symm
  have hpre : l <+: L :=
    isPrefix_of_decided habs (hdec.of_shorter (List.prefix_append _ _)) hL (hlen ▸ hk)
  have htake : l = L.take k := hlen ▸ List.prefix_iff_eq_take.mp hpre
  refine ⟨⟨T', htake ▸ hdec⟩, htake ▸ hsame, fun entry rest x y msg hex => ?_⟩
  rw [hex] at hwhere
  exact hwhere.2

/-- The stored index of the last applied entry moves in `applyEntry` only. -/
lemma LogRel.lastApplied_still (hrel : LogRel m s a) (hl : l.plain s)
    (hmove : s.Move m.ids l t) (hnot : l ≠ .thread v .applyEntry) :
    (t.nodes v).storage.getLastAppliedIndex = (s.nodes v).storage.getLastAppliedIndex := by
  have hupdate : ∀ {i : ℤ} {n : RaftNode}, t.nodes = Function.update s.nodes i n →
      (v = i → n.storage.getLastAppliedIndex = (s.nodes i).storage.getLastAppliedIndex) →
      (t.nodes v).storage.getLastAppliedIndex = (s.nodes v).storage.getLastAppliedIndex := by
    intro i n hnodes hi
    rw [hnodes]
    by_cases hv : v = i
    · subst hv
      rw [Function.update_self]
      exact hi rfl
    · rw [Function.update_of_ne hv]
  cases hmove with
  | @thread i x n out hi hmove =>
      refine hupdate (i := i) (n := n) (by rw [Cluster.record_nodes, Cluster.emit_nodes,
        Cluster.setNode_nodes]) fun hv => ?_
      subst hv
      by_cases hx : RaftNode.ofExecutor x
      · cases hmove with
        | applyEntry => exact absurd rfl hnot
        | compactIfDue =>
            rw [if_neg (hl.2 rfl)]
        | fetchBatch => rfl
        | readBalances => rfl
        | notifyClient => rfl
        | skipCompaction => rfl
        | _ => exact hx.elim
      · exact (hmove.appliedStill hx).2.2
  | @handle k src dst req alive hcall =>
      refine hupdate (i := dst) rfl fun _ => ?_
      cases req with
      | requestVote args => exact (RaftNode.appliedStill_handleRequestVote _ args).2.2
      | appendEntries args => exact (RaftNode.appliedStill_handleAppendEntries _ args).2.2
      | installSnapshot => exact (hrel.calls k _ hcall).elim
  | @reply k src dst req rep hcall =>
      exact hupdate (i := src) rfl fun _ => (RaftNode.appliedStill_receive _ dst req rep).2.2
  | @fail k src dst req rep hcall =>
      exact hupdate (i := src) rfl fun _ => (RaftNode.appliedStill_abandon _ dst req).2.2
  | crash => exact hl.elim

/-! ## The relation -/

/-- **The cluster `s` is the bank in state `b`.**  The order of the bank is decided, every entry
that is not in it has a waiting submission of its own, every node has executed as much of the order
as its copy, and what executors are about to report is explained. -/
structure OneBank (m : Membership) (s : Cluster) (b : OneCopy ℤ ClientRequest) : Prop where
  routed : Routed m s
  elections : ElectionInv m s
  order : ∃ a T L, LogRel m s a ∧ m.Decided a T L ∧ b.order = L.map LogEntry.command ∧
    Charged s L (b.order ++ b.waiting)
  copies : ∀ v, (s.nodes v).storage.getLastAppliedIndex = b.copies v ∧
    b.copies v ≤ b.order.length
  written : ∀ v entry rest msg, (s.nodes v).executor = .written entry rest msg →
    ∃ k, BankAnswers b.order k entry.command msg

namespace OneBank

/-- The balances of a node. -/
lemma balances (hb : OneBank m s b) (v : ℤ) : (s.nodes v).storage.getBalance =
    bank.run genesis.getBalance (b.order.take (b.copies v)) := by
  obtain ⟨a, T, L, hrel, hdec, horder, -⟩ := hb.order
  obtain ⟨happlied, hle⟩ := hb.copies v
  obtain ⟨-, hsame, -⟩ := (hrel.nodes v).executor.eq_take hrel.abs hdec happlied
    (by rwa [horder, List.length_map] at hle)
  funext id
  rw [hsame.getBalance, getBalance_executeAll, horder, List.map_take]

/-- The results of a node. -/
lemma result (hb : OneBank m s b) (v : ℤ) {id : Bytes}
    (h : (s.nodes v).storage.getRequestResult id ≠ []) :
    ∃ k cmd, cmd.requestId = id ∧
      BankAnswers b.order k cmd ((s.nodes v).storage.getRequestResult id) := by
  obtain ⟨a, T, L, hrel, hdec, horder, -⟩ := hb.order
  obtain ⟨happlied, hle⟩ := hb.copies v
  obtain ⟨-, hsame, -⟩ := (hrel.nodes v).executor.eq_take hrel.abs hdec happlied
    (by rwa [horder, List.length_map] at hle)
  rw [hsame.getRequestResult] at h ⊢
  obtain ⟨k, cmd, hcmd, hat⟩ := bankAnswers_stored h
  refine ⟨k, cmd, hcmd, hat.of_prefix ?_⟩
  rw [horder, List.map_take]
  exact List.take_prefix _ _

/-- **Every answer is a refusal or the bank's.** -/
lemma seen (hb : OneBank m s b) {p : Bytes × ClientResponse} (h : s.response? l = some p) :
    seenBy p = .refused p.1 ∨
      ∃ k cmd r, seenBy p = .answered cmd.requestId r ∧ BankAnswers b.order k cmd r := by
  have hanswer : ∀ {k : ℕ} {cmd : ClientRequest}, cmd.requestId = p.1 →
      BankAnswers b.order k cmd p.2.result →
        ∃ k cmd r, seenBy p = .answered cmd.requestId r ∧ BankAnswers b.order k cmd r := by
    intro k cmd hid hat
    refine ⟨k, cmd, p.2.result, ?_, hat⟩
    rw [seenBy, if_neg (hat.2 ▸ bank_answer_ne_notLeader _ _), hid]
  have hshown : s.response? l = some (p.1, p.2) := h
  obtain ⟨i, x, n, cb, rfl, hmove, hid⟩ := Cluster.move_of_response hshown
  generalize hout : Output.response cb p.2 = out at hmove
  cases hmove with
  | clientRefused =>
      obtain ⟨-, hresp⟩ := Output.response.inj hout
      exact .inl (if_pos (by rw [hresp]; rfl))
  | @lookupFound _ req hreq hfound =>
      obtain ⟨-, hresp⟩ := Output.response.inj hout
      rw [RaftNode.servedId?, hreq] at hid
      obtain ⟨k, cmd, hcmd, hat⟩ := hb.result i hfound
      exact .inr (hanswer (hcmd.trans (Option.some.inj hid)) (by rw [hresp]; exact hat))
  | appendRefused =>
      obtain ⟨-, hresp⟩ := Output.response.inj hout
      exact .inl (if_pos (by rw [hresp]; rfl))
  | @notifyClient entry rest msg hex =>
      rw [RaftNode.servedId?, hex] at hid
      obtain ⟨k, hat⟩ := hb.written i entry rest msg hex
      cases hcb : (s.nodes i).pendingCallbacks entry.command.requestId with
      | none =>
          rw [hcb] at hout
          cases hout
      | some cb' =>
          rw [hcb] at hout
          obtain ⟨-, hresp⟩ := Output.response.inj hout
          exact .inr (hanswer (Option.some.inj hid) (by rw [hresp]; exact hat))
  | _ => cases hout

/-- A step that applies nothing leaves the order and the copies alone. -/
lemma still (hb : OneBank m s b) (hl : l.plain s) (hstep : Cluster.step m.ids s l = some t)
    (hnot : ∀ v, l ≠ .thread v .applyEntry) :
    OneBank m t { b with waiting := l.submits ++ b.waiting } := by
  obtain ⟨a, T, L, hrel, hdec, horder, hcharged⟩ := hb.order
  have hmove := Cluster.move_of_step hstep
  obtain ⟨a', hlater, hrel'⟩ := hrel.step hb.routed hb.elections hl hmove
  have hcharged' : Charged t L (b.order ++ (l.submits ++ b.waiting)) := by
    refine (hcharged.step hb.routed hrel hl hmove).of_perm ?_
    rw [← List.append_assoc, ← List.append_assoc]
    exact List.perm_append_comm.append_right _
  refine
    { routed := hb.routed.step hmove
      elections := hb.elections.step hb.routed (Label.crashFree_of_plain hl) hmove
      order := ⟨a', T, L, hrel', hdec.mono hlater.ext le_rfl, horder, hcharged'⟩
      copies := fun v => ?_
      written := fun v entry rest msg hex => ?_ }
  · rw [hrel.lastApplied_still hl hmove (hnot v)]
    exact hb.copies v
  · rcases Cluster.executor_of_step hstep v with hsame | hwaiting | ⟨x, out, rfl, hown⟩
    · exact hb.written v entry rest msg (hsame.symm.trans hex)
    · rw [hwaiting] at hex
      cases hex
    · rcases hown.written hex with hsame | ⟨rfl, -⟩
      · exact hb.written v entry rest msg (hsame.trans hex)
      · exact absurd rfl (hnot v)

/-- The entry that a node applies next is in the order already, or its submission is waiting and can
be put at the end of the order. -/
lemma arrange (habs : LogInv m a) (hdec : m.Decided a T L)
    (horder : b.order = L.map LogEntry.command) (hcharged : Charged s L (b.order ++ b.waiting))
    {entry : LogEntry} (hentry : entry ∈ (s.nodes v).executor.unapplied) (hk : k ≤ L.length)
    (hnext : m.Decided a T' (L.take k ++ [entry])) :
    ∃ T L' c, m.Decided a T L' ∧ L <+: L' ∧ L.take k ++ [entry] <+: L' ∧
      c.order = L'.map LogEntry.command ∧ c.copies = b.copies ∧
      Charged s L' (c.order ++ c.waiting) ∧ BankRun b [] c := by
  rcases hk.lt_or_eq with hlt | rfl
  · refine ⟨T, L, b, hdec, List.prefix_rfl, isPrefix_of_decided habs hnext hdec ?_, horder, rfl,
      hcharged, .nil⟩
    rw [List.length_append, List.length_take, min_eq_left hk]
    exact hlt
  · rw [List.take_length] at hnext ⊢
    rw [horder] at hcharged
    obtain ⟨hwaiting, hcharged'⟩ := hcharged.next hentry (habs.numbered_decided hnext).nodup
    have hconcat : b.order ++ [entry.command] = (L ++ [entry]).map LogEntry.command := by
      rw [horder, List.map_append]
      rfl
    refine ⟨T', L ++ [entry], { b with
      waiting := b.waiting.erase entry.command
      order := b.order ++ [entry.command] }, hnext, List.prefix_append _ _, List.prefix_rfl,
      hconcat, rfl, ?_, OneCopy.traced_arrange hwaiting⟩
    rwa [hconcat]

/-- **Applying an entry advances a copy**, and puts the entry into the order if nobody has applied
it before. -/
lemma applyEntry (hb : OneBank m s b)
    (hstep : Cluster.step m.ids s (.thread v .applyEntry) = some t) :
    ∃ c, BankRun b [] c ∧ b.order <+: c.order ∧ OneBank m t c := by
  obtain ⟨a, T, L, hrel, hdec, horder, hcharged⟩ := hb.order
  have hmove := Cluster.move_of_step hstep
  have hl : Label.plain s (.thread v .applyEntry) := ⟨trivial, by simp⟩
  obtain ⟨a', hlater, hrel'⟩ := hrel.step hb.routed hb.elections hl hmove
  obtain ⟨happlied, hle⟩ := hb.copies v
  rw [horder, List.length_map] at hle
  have hcharges : ∀ {L : List LogEntry} {ops : List ClientRequest}, Charged s L ops →
      Charged t L ops := fun h => h.step hb.routed hrel hl hmove
  have hrouted := hb.routed.step hmove
  have helections := hb.elections.step hb.routed (Label.crashFree_of_plain hl) hmove
  cases hmove with
  | thread _ hown =>
  cases hown with
  | @applyEntry entry rest x y msg hex =>
  obtain ⟨⟨T', hall⟩, hsame, hout⟩ := (hrel.nodes v).executor.eq_take hrel.abs hdec happlied hle
  have hnext : m.Decided a T' (L.take (b.copies v) ++ [entry]) := by
    refine hall.of_shorter ⟨rest, ?_⟩
    rw [hex, List.append_assoc]
    rfl
  have hentry : entry ∈ (s.nodes v).executor.unapplied := by
    rw [hex]
    exact List.mem_cons_self
  obtain ⟨T'', L', c, hdec'', hgrow, hpre, horder', hcopies, hcharged', hrun⟩ :=
    arrange hrel.abs hdec horder hcharged hentry hle hnext
  have hlen : (L.take (b.copies v)).length = b.copies v := by rw [List.length_take, min_eq_left hle]
  have hlt : b.copies v < L'.length := by
    have hle' := hpre.length_le
    rw [List.length_append, hlen] at hle'
    exact hle'
  -- what is written is the bank's answer at the end of what the node has executed
  have hanswer : BankAnswers (L'.map LogEntry.command) (b.copies v) entry.command msg := by
    have hat := bankAnswers_concat (L.take (b.copies v)) entry
    rw [hlen, ← hsame.outcome, hout entry rest x y msg hex] at hat
    exact hat.of_prefix (hpre.map _)
  have hmap : b.order <+: c.order := by
    rw [horder, horder']
    exact hgrow.map _
  have hlength : c.order.length = L'.length := by rw [horder', List.length_map]
  refine ⟨_, hrun.append (OneCopy.traced_advance (v := v) (by rw [hcopies, hlength]; exact hlt)),
    hmap, ?_⟩
  refine
    { routed := hrouted
      elections := helections
      order := ⟨a', T'', L', hrel', hdec''.mono hlater.ext le_rfl, horder', hcharges hcharged'⟩
      copies := fun w => ?_
      written := fun w entry' rest' msg' hex' => ?_ }
  · by_cases hw : w = v
    · subst hw
      have hindex : entry.index = b.copies w + 1 := by
        refine (hrel.abs.numbered_decided hnext (b.copies w) entry ?_).1
        rw [List.getElem?_append_right hlen.le, hlen, Nat.sub_self]
        rfl
      rw [Cluster.record_nodes, Cluster.emit_nodes, Cluster.setNode_nodes, Function.update_self,
        getLastAppliedIndex_applyTransaction, hindex]
      simp only [Function.update_self, hcopies, hlength]
      exact ⟨by push_cast; rfl, hlt⟩
    · rw [Cluster.record_nodes, Cluster.emit_nodes, Cluster.setNode_nodes,
        Function.update_of_ne hw]
      simp only [Function.update_of_ne hw, hcopies]
      exact ⟨(hb.copies w).1, (hb.copies w).2.trans hmap.length_le⟩
  · by_cases hw : w = v
    · subst hw
      rw [Cluster.record_nodes, Cluster.emit_nodes, Cluster.setNode_nodes,
        Function.update_self] at hex'
      cases hex'
      exact ⟨_, horder' ▸ hanswer⟩
    · rw [Cluster.record_nodes, Cluster.emit_nodes, Cluster.setNode_nodes,
        Function.update_of_ne hw] at hex'
      obtain ⟨k, hat⟩ := hb.written w entry' rest' msg' hex'
      exact ⟨k, hat.of_prefix hmap⟩

/-- **Every step is matched by the bank**, up to its answers. -/
lemma advance (hb : OneBank m s b) (hl : l.plain s) (hstep : Cluster.step m.ids s l = some t) :
    ∃ c, BankRun b (l.submits.map .submitted) c ∧ b.order <+: c.order ∧ OneBank m t c := by
  by_cases happly : ∃ v, l = .thread v .applyEntry
  · obtain ⟨v, rfl⟩ := happly
    exact hb.applyEntry hstep
  have hstill := hb.still hl hstep fun v hv => happly ⟨v, hv⟩
  refine ⟨{ b with waiting := l.submits ++ b.waiting }, ?_, List.prefix_rfl, hstill⟩
  unfold Label.submits
  split
  · exact OneCopy.traced_submit
  · exact .nil

/-- **Every step is matched by the bank.** -/
theorem step (hb : OneBank m s b) (hl : l.plain s) (hstep : Cluster.step m.ids s l = some t) :
    ∃ c, BankRun b (s.observe l) c ∧ OneBank m t c := by
  obtain ⟨c, hrun, horder, hc⟩ := hb.advance hl hstep
  refine ⟨c, hrun.append ?_, hc⟩
  cases hresp : s.response? l with
  | none => exact .nil
  | some p =>
      rw [Option.toList_some, List.map_singleton]
      rcases hb.seen hresp with hrefused | ⟨k, cmd, r, hseen, hat⟩
      · rw [hrefused]
        exact OneCopy.traced_refuse
      · rw [hseen]
        exact OneCopy.traced_answer (hat.of_prefix horder)

end OneBank

/-- At the start nothing has been submitted. -/
lemma oneBank_init (m : Membership) : OneBank m (.init m.ids fun _ => genesis) .init where
  routed := routed_init _
  elections := electionInv_init _
  order := ⟨.init, 0, [], logRel_init, .inl rfl, rfl, charged_init _⟩
  copies v := by
    refine ⟨?_, le_rfl⟩
    show genesis.getLastAppliedIndex = _
    rw [getLastAppliedIndex, get_genesis_of_head (by simp)]
    rfl
  written _ _ _ _ h := by cases h

variable {tr : List (Seen ClientRequest Bytes Bytes)}

/-- Every run is one of the bank. -/
lemma oneBank_of_run (h : TracedRun m tr s) : ∃ b, BankRun .init tr b ∧ OneBank m s b :=
  Transition.Traced.refines h (oneBank_init m) fun _ _ _ _ hb hl hstep => hb.step hl hstep

/-- **The cluster refines the bank.**  For every plain run there is a run of the bank in which
clients see the same, and each node holds the balances that its copy of the bank has arrived at. -/
theorem cluster_refines_bank (m : Membership) (h : TracedRun m tr s) :
    ∃ b, BankRun .init tr b ∧ ∀ v, (s.nodes v).storage.getLastAppliedIndex = b.copies v ∧
      (s.nodes v).storage.getBalance = bank.run genesis.getBalance (b.order.take (b.copies v)) := by
  obtain ⟨b, hrun, hb⟩ := oneBank_of_run h
  exact ⟨b, hrun, fun v => ⟨(hb.copies v).1, hb.balances v⟩⟩

/-- A list of steps that executes is a run that shows what it has shown. -/
lemma tracedRun_of_after (ls : List Label)
    {P : Cluster × List (Seen ClientRequest Bytes Bytes) → Prop}
    (h : ∃ p ∈ Transition.runFrom (Transition.tracing (Cluster.step m.ids) Cluster.observe)
      (fun p => Label.plain p.1) (.init m.ids fun _ => genesisLight, []) ls, P p) :
    ∃ p, TracedRun m p.2 p.1 ∧ P p := by
  obtain ⟨p, hrun, hP⟩ := run_of_genesis (fun store => (Cluster.init m.ids fun _ => store, [])) h
  exact ⟨p, Transition.traced_of_run hrun, hP⟩

/-- Both nodes of a cluster of two execute a transfer, and its client is told. -/
def payment : List Label := agreement ++ [.thread 1 .notifyClient]

/-- What the client sees of it. -/
def paymentSeen : List (Seen ClientRequest Bytes Bytes) :=
  [.submitted (transfer (Bytes.ascii "r") 50), .answered (Bytes.ascii "r") (Bytes.ascii "Success")]

lemma tracedRun_payment : ∃ s, TracedRun pair paymentSeen s ∧
    (s.nodes 2).storage.getBalance (Bytes.ascii "1") = 99950 := by
  obtain ⟨p, hrun, htr, hbal⟩ := tracedRun_of_after payment (m := pair)
    (P := fun p => p.2 = paymentSeen ∧ (p.1.nodes 2).storage.getBalance (Bytes.ascii "1") = 99950)
    (by decide +kernel)
  exact ⟨p.1, htr ▸ hrun, hbal⟩

/-- The bank has executed the transfer, and so has node `2`. -/
theorem cluster_refines_bank_payment :
    ∃ s b, TracedRun pair paymentSeen s ∧ BankRun .init paymentSeen b ∧
      bank.run genesis.getBalance (b.order.take (b.copies 2)) (Bytes.ascii "1") = 99950 := by
  obtain ⟨s, hrun, hbal⟩ := tracedRun_payment
  obtain ⟨b, hbank, hcopies⟩ := cluster_refines_bank pair hrun
  exact ⟨s, b, hrun, hbank, by rw [← (hcopies 2).2, hbal]⟩

/-- **What clients see is linearizable.** -/
theorem cluster_linearizable (m : Membership) (h : TracedRun m tr s) :
    Linearizable bank genesis.getBalance ClientRequest.requestId tr := by
  obtain ⟨b, hrun, -⟩ := oneBank_of_run h
  exact OneCopy.linearizable hrun

/-- The transfer and its answer are linearizable. -/
theorem cluster_linearizable_payment :
    Linearizable bank genesis.getBalance ClientRequest.requestId paymentSeen := by
  obtain ⟨s, hrun, -⟩ := tracedRun_payment
  exact cluster_linearizable pair hrun

end RaftConsensus
