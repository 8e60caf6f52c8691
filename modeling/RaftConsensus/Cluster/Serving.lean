import RaftConsensus.Cluster.Durability
import RaftConsensus.Cluster.Spreading

/-!
# A request can always be served

Wherever a plain run (without crashes and compaction, every message built in one step) has got to,
a client that asks the right node now can still get its answer, with nobody else asking for anything
(`request_servable`): a leader of a new term is elected, takes the request, brings its log to
everybody, and executes it.

* `Reported` — what an executor is about to report is stored.
* `Brought` — the new leader has taken the request and brought its log to everybody.
* `Executing` — the request is committed, and the executor of the leader comes to it.
-/

namespace RaftConsensus

open Transition RaftNode

variable {m : Membership} {s t u : Cluster} {x : ℤ} {n n' : RaftNode} {l : List LogEntry}
  {cb : ℕ} {req : ClientRequest} {id : Bytes}

/-! ## Steps that serve one client -/

/-- Of the steps that clients cause, only those of request `req` with callback `cb`. -/
def ThreadStep.asksOnly (cb : ℕ) (req : ClientRequest) : ThreadStep → Prop
  | .clientRequest cb' req' => cb' = cb ∧ req' = req
  | .lookupRequest cb' | .appendRequest cb' => cb' = cb
  | _ => True

/-- The steps of a plain run in which one client only asks. -/
def Label.serving (cb : ℕ) (req : ClientRequest) (s : Cluster) (l : Label) : Prop :=
  l.plain s ∧ ∀ i a, l = .thread i a → a.asksOnly cb req

lemma Label.serving_of_electoral {l : Label} (hl : l.electoral s) : l.serving cb req s := by
  cases l with
  | thread i a =>
      refine ⟨?_, fun i' a' h => ?_⟩
      · cases a <;> first | exact hl.elim | exact ⟨trivial, by simp⟩
      · cases h
        cases a <;> first | exact hl.elim | trivial
  | handle | reply => exact ⟨trivial, by simp⟩
  | fail | crash => exact hl.elim

lemma Label.serving_of_replicating {l : Label} (hl : l.replicating) : l.serving cb req s := by
  refine ⟨Label.plain_of_replicating hl, fun i a h => ?_⟩
  subst h
  cases a <;> first | exact hl.elim | trivial

/-- The step answers callback `cb` with the result that the node stores for the request. -/
def Serves (cb : ℕ) (req : ClientRequest) (s : Cluster) (l : Label) : Prop :=
  ∃ x a n resp, l = .thread x a ∧ (s.nodes x).step s.nextCall a = some (n, .response cb resp) ∧
    resp.result ≠ [] ∧ n.storage.getRequestResult req.requestId = resp.result

/-- Such a step can be the next one. -/
def Answerable (m : Membership) (cb : ℕ) (req : ClientRequest) (s : Cluster) : Prop :=
  ∃ l t, Label.serving cb req s l ∧ Cluster.step m.ids s l = some t ∧ Serves cb req s l

lemma answerable {a : ThreadStep} {resp : ClientResponse} (hx : x ∈ m.ids)
    (hstep : (t.nodes x).step t.nextCall a = some (n, .response cb resp))
    (hok : Label.serving cb req t (.thread x a)) (hne : resp.result ≠ [])
    (hstored : n.storage.getRequestResult req.requestId = resp.result) : Answerable m cb req t :=
  ⟨_, _, hok, Cluster.step_of_thread hx hstep, x, a, n, resp, rfl, hstep, hne, hstored⟩

/-! ## What is reported is stored -/

/-- Messages are not empty, and what an executor is about to report is stored. -/
structure Reported (s : Cluster) : Prop where
  computed : ∀ v entry rest senderNewBal receiverNewBal msg,
    (s.nodes v).executor = .computed entry rest senderNewBal receiverNewBal msg → msg ≠ []
  written : ∀ v entry rest msg, (s.nodes v).executor = .written entry rest msg →
    msg ≠ [] ∧ (s.nodes v).storage.getRequestResult entry.command.requestId = msg

lemma outcome_ne_nil (store : RocksDBStore) (cmd : ClientRequest) :
    (store.outcome cmd).resultMsg ≠ [] := by
  rw [outcome_resultMsg, Execution.resultMsg]
  split
  · split <;> decide
  · exact fun h => by simp [Bytes.ascii] at h

namespace Reported

lemma step (h : Reported s) (hlogs : ∃ a, LogRel m s a) {l : Label}
    (hstep : Cluster.step m.ids s l = some t) : Reported t where
  computed v entry rest a b msg hex := by
    rcases Cluster.executor_of_step hstep v with hsame | hwaiting | ⟨act, out, rfl, hmove⟩
    · exact h.computed v entry rest a b msg (hsame.symm.trans hex)
    · rw [hwaiting] at hex
      cases hex
    · rcases hmove.computed hex with hsame | ⟨rfl, -, hout⟩
      · exact h.computed v entry rest a b msg (hsame.trans hex)
      · have hmsg := outcome_ne_nil (s.nodes v).storage entry.command
        rwa [hout] at hmsg
  written v entry rest msg hex := by
    -- where the executor stays, so does what it has stored
    have hstill : (s.nodes v).executor = .written entry rest msg →
        msg ≠ [] ∧ (t.nodes v).storage.getRequestResult entry.command.requestId = msg := by
      intro hold
      obtain ⟨hne, hstored⟩ := h.written v entry rest msg hold
      cases Cluster.recordsStep_of_step hstep v with
      | same hsame => exact ⟨hne, (hsame.getRequestResult _).trans hstored⟩
      | applied hl hcomputed =>
          rw [hold] at hcomputed
          cases hcomputed
      | @installed k c args hl hcall hdst hreq =>
          obtain ⟨a, hrel⟩ := hlogs
          have hnone := hrel.calls k c hcall
          rw [CallRel, hreq] at hnone
          exact hnone.elim
    rcases Cluster.executor_of_step hstep v with hsame | hwaiting | ⟨act, out, rfl, hmove⟩
    · exact hstill (hsame.symm.trans hex)
    · rw [hwaiting] at hex
      cases hex
    · rcases hmove.written hex with hsame | ⟨rfl, -⟩
      · exact hstill (hsame.trans hex)
      · generalize t.nodes v = n' at hmove hex
        cases hmove with
        | applyEntry hcomputed =>
            cases hex
            refine ⟨h.computed v _ _ _ _ _ hcomputed, ?_⟩
            rw [RocksDBStore.getRequestResult_applyTransaction, if_pos rfl]

end Reported

/-- When all nodes have been constructed, no executor has anything to report. -/
lemma reported_init (stores : ℤ → RocksDBStore) : Reported (.init m.ids stores) where
  computed _ _ _ _ _ _ h := by cases h
  written _ _ _ _ h := by cases h

/-- What holds all the way to the answer. -/
structure Undisturbed (m : Membership) (s : Cluster) : Prop extends Sound m s where
  reported : Reported s

namespace Undisturbed

lemma step (h : Undisturbed m s) {l : Label} (hl : l.serving cb req s)
    (hstep : Cluster.step m.ids s l = some t) : Undisturbed m t :=
  ⟨h.toSound.step hl.1 hstep, h.reported.step h.logs hstep⟩

lemma of_run {ls : List Label} (hrun : PlainRun m.ids (.init m.ids fun _ => .genesis) ls s) :
    Undisturbed m s := by
  refine hrun.invariant ⟨⟨routed_init _, electionInv_init _, unblocked_init _, _, logRel_init⟩,
    reported_init _⟩ fun t l u ht hl hs => ?_
  exact ⟨ht.toSound.step hl hs, ht.reported.step ht.logs hs⟩

/-- It holds of what can be reached, too. -/
lemma keeping {P : Cluster → Prop} (h : Undisturbed m s)
    (hreach : CanReach (Cluster.step m.ids) (Label.serving cb req) s P) :
    CanReach (Cluster.step m.ids) (Label.serving cb req) s fun t => Undisturbed m t ∧ P t :=
  hreach.keeping h fun _ _ _ ht hl hs => ht.step hl hs

/-- A leader of a new term can be elected. -/
lemma canReach_leader (hm : 2 ≤ m.ids.length) (h : Undisturbed m s) :
    CanReach (Cluster.step m.ids) (Label.serving cb req) s fun t => Undisturbed m t ∧
      ∃ x, NewLeader m s x t ∧ (t.nodes x).KnowsNothing := by
  have helected : CanReach (Cluster.step m.ids) (Label.serving cb req) s _ :=
    (Cluster.canReach_elected hm h.routed h.elections h.unblocked).mono
      fun _ _ => Label.serving_of_electoral
  exact (h.keeping helected).imp fun t ht => ⟨ht.1, ht.2.2⟩

end Undisturbed

/-! ## The leader takes the request -/

namespace RaftNode

variable {call : ℕ}

lemma step_clientRequest (hfree : n.requests cb = none) (hlead : n.state = .leader) :
    n.step call (.clientRequest cb req) = some
      ({ n with requests := Function.update n.requests cb (some (.checked req)) }, .none) := by
  simp [step, answering, clientRequest, hfree, hlead]

lemma step_lookupFound (hreq : n.requests cb = some (.checked req))
    (hfound : n.storage.getRequestResult req.requestId ≠ []) :
    n.step call (.lookupRequest cb) = some
      ({ n with requests := Function.update n.requests cb none },
        .response cb ⟨true, n.storage.getRequestResult req.requestId, n.leaderId⟩) := by
  simp [step, answering, lookupRequest, hreq, hfound]

lemma step_lookupRequest (hreq : n.requests cb = some (.checked req))
    (hfound : n.storage.getRequestResult req.requestId = []) :
    n.step call (.lookupRequest cb) = some
      ({ n with requests := Function.update n.requests cb (some (.lookedUp req)) }, .none) := by
  simp [step, answering, lookupRequest, hreq, hfound]

lemma step_appendRequest (hreq : n.requests cb = some (.lookedUp req)) (hlead : n.state = .leader)
    (hpending : n.pendingCallbacks req.requestId = none) :
    n.step call (.appendRequest cb) = some
      (acceptRequest { n with requests := Function.update n.requests cb none } cb req, .none) := by
  simp [step, answering, appendRequest, hreq, hlead, hpending]

end RaftNode

/-- A step of a thread that serves the client. -/
lemma serving_thread {a : ThreadStep} (ha : a.ofAtomicSender) (hc : a ≠ .compactIfDue)
    (hasks : a.asksOnly cb req) : Label.serving cb req s (.thread x a) :=
  ⟨⟨ha, fun h => absurd h hc⟩, by rintro i a' ⟨⟩; exact hasks⟩

/-- A leader that has a result for the request can answer at once. -/
lemma canReach_found (hx : x ∈ m.ids) (hlead : (t.nodes x).state = .leader)
    (hfree : (t.nodes x).requests cb = none)
    (hfound : (t.nodes x).storage.getRequestResult req.requestId ≠ []) :
    CanReach (Cluster.step m.ids) (Label.serving cb req) t (Answerable m cb req) := by
  refine Cluster.canReach_thread hx (step_clientRequest hfree hlead)
    (serving_thread trivial (by simp) ⟨rfl, rfl⟩) fun u _ hu => .here ?_
  have hself := Cluster.nodes_update_self hu
  have hreq : (u.nodes x).requests cb = some (.checked req) := by
    rw [hself]
    exact Function.update_self _ _ _
  have hfound' : (u.nodes x).storage.getRequestResult req.requestId ≠ [] := by
    rw [hself]
    exact hfound
  exact answerable hx (step_lookupFound hreq hfound') (serving_thread trivial (by simp) rfl) hfound'
    rfl

/-- A leader that has no result for the request, and where nobody waits for one, appends an
entry. -/
lemma canReach_appended (hx : x ∈ m.ids) (hlead : (t.nodes x).state = .leader)
    (hfree : (t.nodes x).requests cb = none)
    (hpending : (t.nodes x).pendingCallbacks req.requestId = none)
    (hnone : (t.nodes x).storage.getRequestResult req.requestId = []) :
    CanReach (Cluster.step m.ids) (Label.serving cb req) t fun u => ∃ requests,
      u.nodes = Function.update t.nodes x
        (acceptRequest { t.nodes x with requests := requests } cb req) := by
  refine Cluster.canReach_thread hx (step_clientRequest hfree hlead)
    (serving_thread trivial (by simp) ⟨rfl, rfl⟩) fun t₁ _ h₁ => ?_
  have hn₁ := Cluster.nodes_update_self h₁
  have hreq₁ : (t₁.nodes x).requests cb = some (.checked req) := by
    rw [hn₁]
    exact Function.update_self _ _ _
  refine Cluster.canReach_thread hx (step_lookupRequest hreq₁ (by rw [hn₁]; exact hnone))
    (serving_thread trivial (by simp) rfl) fun t₂ _ h₂ => ?_
  have hn₂ := Cluster.nodes_update_self h₂
  have hreq₂ : (t₂.nodes x).requests cb = some (.lookedUp req) := by
    rw [hn₂]
    exact Function.update_self _ _ _
  rw [hn₁] at hn₂
  refine Cluster.canReach_thread hx
    (step_appendRequest hreq₂ (by rw [hn₂]; exact hlead) (by rw [hn₂]; exact hpending))
    (serving_thread trivial (by simp) rfl) fun t₃ _ h₃ =>
      .here ⟨Function.update (t₂.nodes x).requests cb none, ?_⟩
  rw [hn₂] at h₃ ⊢
  rw [h₃, h₂, h₁, Function.update_idem, Function.update_idem]

/-- A leader that knows of nobody who holds anything cannot commit. -/
lemma RaftNode.settled_of_unmatched (hmatch : ∀ p ∈ n.config.peers, n.matchIndex p = 0)
    (hcommit : 0 ≤ n.commitIndex) (hpeers : n.config.peers ≠ []) : n.Settled := by
  rintro N ⟨hbeyond, -, -, hcount⟩
  have hnone : n.countReplicas N = 1 := by
    refine Nat.add_eq_left.mpr (List.countP_eq_zero.mpr fun p hp => ?_)
    simp only [decide_eq_true_eq, not_and, not_le, hmatch p hp]
    exact fun _ => hcommit.trans_lt hbeyond
  have hpos := List.length_pos_iff.mpr hpeers
  rw [hnone, commitThreshold] at hcount
  omega

/-- The entry that a leader appends is in nobody else's log. -/
lemma Sound.not_appended {p : ℤ} {r : List LogEntry} (h : Sound m t)
    (hlead : (t.nodes x).state = .leader) (hlog : (t.nodes x).HasLog l)
    (hr : (t.nodes p).HasLog r) : ¬ l ++ [(t.nodes x).newEntry req] <+: r := by
  obtain ⟨a, hrel⟩ := h.logs
  obtain rfl := hlog.unique (hrel.nodes x).log
  obtain rfl := hr.unique (hrel.nodes p).log
  intro hpre
  -- entries of the term are in the log of its leader
  obtain ⟨-, hfull⟩ := hrel.abs.inv.log_matched p _ _ hpre
  obtain ⟨-, heq, -⟩ := (hrel.nodes x).leader hlead
  have hle := hfull.length_le
  rw [newEntry, ← heq, List.length_append, List.length_singleton] at hle
  omega

/-- The new leader with the entry for the request has its log to bring to everybody. -/
lemma NewLeader.spreading {requests : ℕ → Option RequestThread} (h : NewLeader m s x t)
    (hknows : (t.nodes x).KnowsNothing) (hsound : Sound m t) (hsound' : Sound m u)
    (hlog : (t.nodes x).HasLog l) (hu : u.nodes = Function.update t.nodes x
      (acceptRequest { t.nodes x with requests := requests } cb req)) :
    Spreading m x (l ++ [(t.nodes x).newEntry req]) (u.nodes x) (m.config x).peerStubs u := by
  have hself := Cluster.nodes_update_self hu
  have hother : ∀ q, q ≠ x → u.nodes q = t.nodes q := fun q hq => by
    rw [hu, Function.update_of_ne hq]
  have hconfig : (t.nodes x).config = m.config x := (hsound.routed.nodes x).config
  have hindex : ((t.nodes x).newEntry req).index = l.length + 1 := by
    rw [newEntry, hlog.lastLogIndex]
  have hlen : ((l ++ [(t.nodes x).newEntry req]).length : ℤ) = (t.nodes x).lastLogIndex + 1 := by
    rw [List.length_append, List.length_singleton, hlog.lastLogIndex, Nat.cast_succ]
  refine
    { sound := hsound'
      off := rfl
      log := ?_
      lead := by rw [hself]; exact h.state
      ne_nil := by simp
      terms := fun p hp => ?_
      settled := ?_
      nodup := List.nodup_dedup _
      targets := fun p hp => Membership.mem_peerStubs.mp hp
      waiting := fun p hp => ?_
      reached := fun p hp hpx hnot => absurd (Membership.mem_peerStubs.mpr ⟨hp, hpx⟩) hnot }
  · rw [hself]
    refine (hlog.append hindex).same rfl ?_ rfl
    rw [acceptRequest, hlog.lastLogIndex]
  · have hterm : (u.nodes x).currentTerm = (t.nodes x).currentTerm := by
      rw [hself]
      rfl
    rw [hterm]
    by_cases hpx : p = x
    · rw [hpx, hterm]
    · rw [hother p hpx]
      exact (h.others p hp hpx).2.le
  · obtain ⟨a, hrel⟩ := hsound.logs
    obtain ⟨c, hc, -⟩ := (hrel.nodes x).commit
    rw [hself]
    refine RaftNode.settled_of_unmatched (fun p hp => (hknows p hp).2) ?_ ?_
    · show 0 ≤ (t.nodes x).commitIndex
      omega
    · show (t.nodes x).config.peers ≠ []
      rw [hconfig]
      exact List.ne_nil_of_mem h.mem
  · obtain ⟨hpm, hpx⟩ := Membership.mem_peerStubs.mp hp
    have hpeer : p ∈ (t.nodes x).config.peers := by
      rw [hconfig]
      exact hpm
    obtain ⟨hnext, hmatch⟩ := hknows p hpeer
    rw [hself, hother p hpx, hlen]
    exact ⟨hnext, hmatch, fun r hr => hsound.not_appended h.state hlog hr⟩

/-- Everybody holds the log `l` of the leader, which has committed it; the request is its last
entry, and the client waits.  Nothing has been executed since `t`. -/
structure Brought (m : Membership) (x : ℤ) (cb : ℕ) (req : ClientRequest) (l : List LogEntry)
    (t v : Cluster) : Prop where
  undisturbed : Undisturbed m v
  spreading : Spreading m x l (v.nodes x) [] v
  last : ∀ e, l.getLast? = some e → e.command = req
  commit : (l.length : ℤ) ≤ (v.nodes x).commitIndex
  pending : (v.nodes x).pendingCallbacks req.requestId = some cb
  executor : (v.nodes x).executor = (t.nodes x).executor
  applied : (v.nodes x).lastApplied = (t.nodes x).lastApplied

/-- **A new leader takes the request and brings its log to everybody.** -/
lemma NewLeader.canReach_brought (hm : 2 ≤ m.ids.length) (h : NewLeader m s x t)
    (hknows : (t.nodes x).KnowsNothing) (hund : Undisturbed m t) (hlog : (t.nodes x).HasLog l)
    (hfree : (t.nodes x).requests cb = none)
    (hpending : (t.nodes x).pendingCallbacks req.requestId = none)
    (hnone : (t.nodes x).storage.getRequestResult req.requestId = []) :
    CanReach (Cluster.step m.ids) (Label.serving cb req) t
      (Brought m x cb req (l ++ [(t.nodes x).newEntry req]) t) := by
  refine (hund.keeping (canReach_appended h.mem h.state hfree hpending hnone)).trans ?_
  rintro u ⟨hsu, requests, hu⟩
  have hspreading := h.spreading hknows hund.toSound hsu.toSound hlog hu
  have hspread : CanReach (Cluster.step m.ids) (Label.serving cb req) u _ :=
    (hspreading.canReach_spread h.mem).mono fun _ _ => Label.serving_of_replicating
  refine (hsu.keeping hspread).imp ?_
  rintro v ⟨hsv, hv⟩
  have hself := Cluster.nodes_update_self hu
  have hcommit := hv.committed hm h.mem (by rw [lastTerm_concat, hself]; rfl)
  obtain ⟨-, -, -, -, -, -, happlied, hregistered, hexec⟩ := offPeers_inj hv.off
  rw [hself] at happlied hregistered hexec
  refine ⟨hsv, { hv with off := rfl }, fun e he => ?_, hcommit, ?_, hexec, happlied⟩
  · rw [List.getLast?_concat] at he
    obtain rfl := Option.some.inj he
    rfl
  · rw [hregistered]
    exact Function.update_self _ _ _

/-! ## The leader executes the request -/

namespace RaftNode

variable {call : ℕ} {entry : LogEntry} {rest : List LogEntry} {msg : Bytes}

lemma step_fetchBatch (hwaiting : n.executor = .waiting) (hlt : n.lastApplied < n.commitIndex) :
    n.step call .fetchBatch =
      some ({ n with executor := .next (n.batchIndices.map n.storage.getLogEntry) }, .none) := by
  simp [step, quiet, fetchBatch, hwaiting, hlt]

lemma step_readBalances (hex : n.executor = .applying entry rest) :
    n.step call .readBalances = some ({ n with
      executor := .computed entry rest (n.storage.outcome entry.command).senderNewBal
        (n.storage.outcome entry.command).receiverNewBal
        (n.storage.outcome entry.command).resultMsg }, .none) := by
  simp [step, quiet, readBalances, hex]

lemma step_applyEntry {senderNewBal receiverNewBal : ℤ}
    (hex : n.executor = .computed entry rest senderNewBal receiverNewBal msg) :
    n.step call .applyEntry = some ({ n with
      storage := n.storage.applyTransaction entry senderNewBal receiverNewBal msg
      executor := .written entry rest msg }, .none) := by
  simp [step, quiet, applyEntry, hex]

lemma step_notifyClient (call : ℕ) (hex : n.executor = .written entry rest msg) :
    n.step call .notifyClient = some ({ n with
      lastApplied := entry.index
      pendingCallbacks := Function.update n.pendingCallbacks entry.command.requestId none
      executor := .notified rest },
      (n.pendingCallbacks entry.command.requestId).elim .none fun cb =>
        .response cb ⟨isSuccess msg, msg, n.leaderId⟩) := by
  cases hcb : n.pendingCallbacks entry.command.requestId <;>
    simp [step, notifyClient, hex, hcb]

lemma step_skipCompaction (hex : n.executor = .notified rest) :
    n.step call .skipCompaction = some ({ n with executor := .next rest }, .none) := by
  simp [step, quiet, skipCompaction, hex]

/-- The executor has not passed the entry of request `id` at the end of the log `l`. -/
def ComesTo (n : RaftNode) (l : List LogEntry) (id : Bytes) : Prop :=
  match n.executor with
  | .written entry _ _ => entry.index < l.length ∨ entry.command.requestId = id
  | _ => n.lastApplied < l.length

/-- How far the executor is from the end of the log. -/
def executorRank (l : List LogEntry) (n : RaftNode) : ℕ :=
  5 * (l.length - n.lastApplied).toNat +
    match n.executor with
    | .notified _ => 4
    | .waiting => 3
    | .applying _ _ => 2
    | .computed _ _ _ _ _ => 1
    | .written _ _ _ => 0

lemma ComesTo.same (h : n.ComesTo l id) (hexec : n'.executor = n.executor)
    (happlied : n'.lastApplied = n.lastApplied) : n'.ComesTo l id := by
  rwa [ComesTo, hexec, happlied]

lemma comesTo_next {es : List LogEntry} (hex : n.executor = .next es)
    (hlt : n.lastApplied < l.length) : n.ComesTo l id := by
  rw [ComesTo, hex]
  cases es <;> exact hlt

/-- A batch that is fetched is not empty. -/
lemma executorRank_fetchBatch (hex : n.executor = .waiting)
    (hless : n.lastApplied < n.commitIndex) :
    executorRank l { n with executor := .next (n.batchIndices.map n.storage.getLogEntry) } <
      n.executorRank l := by
  have hpos : 0 < (n.batchIndices.map n.storage.getLogEntry).length := by
    rw [List.length_map, batchIndices, List.length_take, loopRange, List.length_map,
      List.length_range]
    omega
  cases hbatch : n.batchIndices.map n.storage.getLogEntry with
  | nil =>
      rw [hbatch] at hpos
      exact absurd hpos (lt_irrefl 0)
  | cons entry rest => simp [executorRank, hex, Executor.next]

lemma executorRank_skipCompaction {rest : List LogEntry} (hex : n.executor = .notified rest) :
    executorRank l { n with executor := .next rest } < n.executorRank l := by
  cases rest <;> simp [executorRank, hex, Executor.next]

end RaftNode

/-- The log of node `x` ends with an entry of the request, is committed, and the executor comes
to that entry. -/
structure Executing (m : Membership) (x : ℤ) (l : List LogEntry) (cb : ℕ) (req : ClientRequest)
    (t : Cluster) : Prop where
  undisturbed : Undisturbed m t
  log : (t.nodes x).HasLog l
  last : ∀ e, l.getLast? = some e → e.command.requestId = req.requestId
  pending : (t.nodes x).pendingCallbacks req.requestId = some cb
  commit : (l.length : ℤ) ≤ (t.nodes x).commitIndex
  comes : (t.nodes x).ComesTo l req.requestId

namespace Executing

variable {entry : LogEntry} {rest : List LogEntry} {msg : Bytes}

/-- The entry that is being applied is before the one of the request, or has its id. -/
lemma due {senderNewBal receiverNewBal : ℤ} (h : Executing m x l cb req t)
    (hex : (t.nodes x).executor = .computed entry rest senderNewBal receiverNewBal msg) :
    entry.index < l.length ∨ entry.command.requestId = req.requestId := by
  obtain ⟨a, hrel⟩ := h.undisturbed.logs
  have hl : l = a.log x := h.log.unique (hrel.nodes x).log
  obtain ⟨l', T, hdec, -, -, hwhere⟩ := (hrel.nodes x).executor
  obtain ⟨c, hc, hle, hall⟩ := (hrel.nodes x).commit
  have hcl : c = (a.log x).length := by
    have hcommit := h.commit
    rw [hl] at hcommit
    omega
  rw [hcl, List.take_length, ← hl] at hall
  have hlt := h.comes
  rw [hex] at hdec hwhere
  rw [ComesTo, hex] at hlt
  obtain ⟨happlied, -⟩ := hwhere
  dsimp only at hlt
  rw [happlied] at hlt
  -- both the log and what is about to be applied are decided
  have hnext : m.Decided a T (l' ++ [entry]) := hdec.of_shorter ⟨rest, by
    rw [List.append_assoc]
    rfl⟩
  have hlen : (l' ++ [entry]).length = l'.length + 1 := by simp
  have hpre : l' ++ [entry] <+: l := isPrefix_of_decided hrel.abs hnext hall (by omega)
  have hindex := (hrel.abs.numbered_decided hnext l'.length entry (by simp)).1
  by_cases hend : l'.length + 1 < l.length
  · left
    omega
  · right
    refine h.last entry ?_
    rw [← hpre.eq_of_length (by omega)]
    simp

/-- The index of the entry that has been written. -/
lemma written_index (h : Executing m x l cb req t)
    (hex : (t.nodes x).executor = .written entry rest msg) :
    entry.index = (t.nodes x).lastApplied + 1 := by
  obtain ⟨a, hrel⟩ := h.undisturbed.logs
  obtain ⟨l', T, -, -, -, hwhere⟩ := (hrel.nodes x).executor
  rw [hex] at hwhere
  exact hwhere.2.trans hwhere.1.symm

/-- **The executor comes closer to the request**, or has written its result. -/
lemma advance (hx : x ∈ m.ids) (h : Executing m x l cb req t) :
    (∃ entry rest msg, (t.nodes x).executor = .written entry rest msg ∧
        entry.command.requestId = req.requestId) ∨
      CanReach (Cluster.step m.ids) (Label.serving cb req) t fun u =>
        Executing m x l cb req u ∧ (u.nodes x).executorRank l < (t.nodes x).executorRank l := by
  have hon : ∀ {a n out}, (t.nodes x).step t.nextCall a = some (n, out) →
      Label.serving cb req t (.thread x a) → n.HasLog l →
      n.pendingCallbacks req.requestId = some cb → n.commitIndex = (t.nodes x).commitIndex →
      n.ComesTo l req.requestId → n.executorRank l < (t.nodes x).executorRank l →
      CanReach (Cluster.step m.ids) (Label.serving cb req) t fun u =>
        Executing m x l cb req u ∧ (u.nodes x).executorRank l < (t.nodes x).executorRank l := by
    intro a n out hstep hok hlog hpending hcommit hcomes hlt
    refine Cluster.canReach_thread hx hstep hok fun u hs hu => .here ?_
    have hself := Cluster.nodes_update_self hu
    rw [← hself] at hlog hpending hcommit hcomes hlt
    exact ⟨⟨h.undisturbed.step hok hs, hlog, h.last, hpending, h.commit.trans hcommit.ge, hcomes⟩,
      hlt⟩
  have hcomes := h.comes
  cases hex : (t.nodes x).executor with
  | waiting =>
      rw [ComesTo, hex] at hcomes
      have hlt : (t.nodes x).lastApplied < (t.nodes x).commitIndex :=
        lt_of_lt_of_le hcomes h.commit
      refine .inr (hon (step_fetchBatch hex hlt) (serving_thread trivial (by simp) trivial)
        (h.log.same rfl rfl rfl) h.pending rfl (comesTo_next rfl hcomes) ?_)
      exact executorRank_fetchBatch hex hlt
  | applying entry rest =>
      rw [ComesTo, hex] at hcomes
      refine .inr (hon (step_readBalances hex) (serving_thread trivial (by simp) trivial)
        (h.log.same rfl rfl rfl) h.pending rfl hcomes ?_)
      simp [executorRank, hex]
  | computed entry rest senderNewBal receiverNewBal msg =>
      refine .inr (hon (step_applyEntry hex) (serving_thread trivial (by simp) trivial)
        ⟨h.log.storage.applyTransaction, h.log.lastLogIndex, h.log.lastLogTerm⟩ h.pending rfl
        (h.due hex) ?_)
      simp [executorRank, hex]
  | written entry rest msg =>
      rw [ComesTo, hex] at hcomes
      by_cases hid : entry.command.requestId = req.requestId
      · exact .inl ⟨entry, rest, msg, rfl, hid⟩
      · have hindex := h.written_index hex
        have hlt : entry.index < l.length := hcomes.resolve_right hid
        refine .inr (hon (step_notifyClient _ hex) (serving_thread trivial (by simp) trivial)
          (h.log.same rfl rfl rfl) ?_ rfl hlt ?_)
        · exact (Function.update_of_ne (Ne.symm hid) _ _).trans h.pending
        · simp only [executorRank, hex]
          omega
  | notified rest =>
      rw [ComesTo, hex] at hcomes
      refine .inr (hon (step_skipCompaction hex) (serving_thread trivial (by simp) trivial)
        (h.log.same rfl rfl rfl) h.pending rfl (comesTo_next rfl hcomes) ?_)
      exact executorRank_skipCompaction hex

/-- **The client can be answered.** -/
theorem canReach_answerable (hx : x ∈ m.ids) (h : Executing m x l cb req t) :
    CanReach (Cluster.step m.ids) (Label.serving cb req) t (Answerable m cb req) := by
  refine CanReach.of_measure (I := Executing m x l cb req) (fun u => (u.nodes x).executorRank l)
    (fun u hu => ?_) h
  refine (hu.advance hx).imp_left ?_
  rintro ⟨entry, rest, msg, hex, hid⟩
  obtain ⟨hne, hstored⟩ := hu.undisturbed.reported.written x entry rest msg hex
  have hstep := step_notifyClient u.nextCall hex
  rw [hid] at hstored
  rw [hid, hu.pending] at hstep
  exact answerable hx hstep (serving_thread trivial (by simp) trivial) hne hstored

end Executing

/-! ## Serving a request -/

/-- The executor of a leader that nobody is ahead of has executed entries of its log only, so it
comes to any that is appended. -/
lemma Sound.comesTo {e : LogEntry} (h : Sound m t) (hlog : (t.nodes x).HasLog l)
    (hlead : (t.nodes x).state = .leader)
    (hahead : ∀ v ∈ m.ids, (t.nodes v).currentTerm ≤ (t.nodes x).currentTerm) :
    (t.nodes x).ComesTo (l ++ [e]) id := by
  obtain ⟨a, hrel⟩ := h.logs
  obtain rfl := hlog.unique (hrel.nodes x).log
  obtain ⟨l', T, hdec, -, -, hwhere⟩ := (hrel.nodes x).executor
  have hle := (hrel.decided_isPrefix (hdec.of_shorter (List.prefix_append _ _)) hlead
    hahead).length_le
  have hlen : ((a.log x ++ [e]).length : ℤ) = (a.log x).length + 1 := by simp
  rw [ComesTo, hlen]
  cases hex : (t.nodes x).executor with
  | written entry rest msg =>
      rw [hex] at hwhere
      dsimp only at hwhere ⊢
      exact .inl (by omega)
  | computed entry rest senderNewBal receiverNewBal msg =>
      rw [hex] at hwhere
      dsimp only at hwhere ⊢
      omega
  | waiting | applying | notified =>
      rw [hex] at hwhere
      dsimp only at hwhere ⊢
      omega

/-- Nobody is ahead of a new leader. -/
lemma NewLeader.terms (h : NewLeader m s x t) {v : ℤ} (hv : v ∈ m.ids) :
    (t.nodes v).currentTerm ≤ (t.nodes x).currentTerm := by
  by_cases hvx : v = x
  · rw [hvx]
  · exact (h.others v hv hvx).2.le

/-- **A request can always be served.**  From every state of a plain run, if nobody waits for an
answer to the request and the callback is free, there are steps that no other client takes part in,
after which the client is answered with the stored result of its request. -/
theorem request_servable (m : Membership) (hm : 2 ≤ m.ids.length) {ls : List Label}
    (hrun : PlainRun m.ids (.init m.ids fun _ => .genesis) ls s)
    (hfree : ∀ i ∈ m.ids, (s.nodes i).requests cb = none)
    (hpending : ∀ i ∈ m.ids, (s.nodes i).pendingCallbacks req.requestId = none) :
    ∃ ks t, Took (Cluster.step m.ids) (Label.serving cb req) s ks t (Serves cb req) := by
  suffices hreach : CanReach (Cluster.step m.ids) (Label.serving cb req) s (Answerable m cb req) by
    obtain ⟨ks, u, hks, l, t, hl, hs, hserves⟩ := hreach
    exact ⟨_, t, hks.took hl hs hserves⟩
  refine ((Undisturbed.of_run hrun).canReach_leader hm).trans ?_
  rintro t ⟨hund, x, hlead, hknows⟩
  have hrequests := congrFun (congrArg OffElection.requests (hlead.off x)) cb
  have hcallbacks := congrFun (congrArg OffElection.pendingCallbacks (hlead.off x)) req.requestId
  have hfree' := hrequests.trans (hfree x hlead.mem)
  by_cases hnone : (t.nodes x).storage.getRequestResult req.requestId = []
  · obtain ⟨a, hrel⟩ := hund.logs
    have hlog := (hrel.nodes x).log
    refine (hlead.canReach_brought hm hknows hund hlog hfree'
      (hcallbacks.trans (hpending x hlead.mem)) hnone).trans fun v hv => ?_
    have hexecuting : Executing m x _ cb req v :=
      { undisturbed := hv.undisturbed
        log := hv.spreading.log
        last := fun e he => congrArg ClientRequest.requestId (hv.last e he)
        pending := hv.pending
        commit := hv.commit
        comes := (hund.comesTo hlog hlead.state fun _ => hlead.terms).same hv.executor
          hv.applied }
    exact hexecuting.canReach_answerable hlead.mem
  · exact canReach_found hlead.mem hlead.state hfree' hnone

/-- While the request of one client has only been appended, another client's can be served. -/
theorem request_servable_pair :
    ∃ s, PlainRun pair.ids (.init pair.ids fun _ => RocksDBStore.genesis)
        (campaign 1 1 ++ [.handle 0, .reply 0] ++
          takeRequest 1 0 (transfer (Bytes.ascii "r") 50)) s ∧
      ∃ ks t, Took (Cluster.step pair.ids) (Label.serving 1 (transfer (Bytes.ascii "q") 70)) s ks t
        (Serves 1 (transfer (Bytes.ascii "q") 70)) := by
  have hruns : ∃ s, PlainRun pair.ids (.init pair.ids fun _ => RocksDBStore.genesis)
      (campaign 1 1 ++ [.handle 0, .reply 0] ++
        takeRequest 1 0 (transfer (Bytes.ascii "r") 50)) s ∧
      (∀ i ∈ pair.ids, (s.nodes i).requests 1 = none) ∧
        ∀ i ∈ pair.ids, (s.nodes i).pendingCallbacks (Bytes.ascii "q") = none :=
    run_of_after (by decide +kernel)
  obtain ⟨s, hrun, hfree, hpending⟩ := hruns
  exact ⟨s, hrun, request_servable pair (by decide) hrun hfree hpending⟩

end RaftConsensus
