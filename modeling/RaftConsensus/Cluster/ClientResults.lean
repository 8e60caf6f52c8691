import RaftConsensus.Raft.Client
import RaftConsensus.Cluster.LogSafety
import RaftConsensus.Cluster.Records

/-!
# What clients are told

The executor answers a client with the message of the execution, and `processClientRequest` answers
a resent request with the stored message.  The executor says `success` only for some messages, the
other path for all of them: a transfer that fails for lack of funds is reported as failed, the
client takes the answer for a redirect and asks again, and is told that the transfer has succeeded
(`failed_transfer_reported`).

`truthful_responses` says when all answers agree: if all executions of a request find the same
(`Execution.Agrees`), snapshots bring their results only, a stored message that is given out is a
successful one, and no resent request reaches a node that does not lead any more.
`runCommand_truthful` is about the client's loop.
-/

namespace RaftConsensus

open RocksDBStore

/-! ## Executions -/

/-- What the message of an execution depends on: the command and the balance of its sender. -/
structure Execution where
  command : ClientRequest
  senderBal : ℤ

namespace Execution

/-- The message. -/
def resultMsg (x : Execution) : Bytes :=
  if x.command.type = .transfer then
    if x.command.amount ≤ x.senderBal then Bytes.ascii "Success"
    else Bytes.ascii "Insufficient Funds"
  else Bytes.ascii "Balance: " ++ Bytes.decimal x.senderBal

/-- A further execution of the same command that finds the same: the same balance or, for a
transfer, funds in both cases or in none. -/
def Agrees (x y : Execution) : Prop :=
  x.command = y.command ∧
    if x.command.type = .transfer then
      x.command.amount ≤ x.senderBal ↔ y.command.amount ≤ y.senderBal
    else x.senderBal = y.senderBal

instance (x y : Execution) : Decidable (x.Agrees y) :=
  inferInstanceAs (Decidable (x.command = y.command ∧
    if x.command.type = .transfer then
      x.command.amount ≤ x.senderBal ↔ y.command.amount ≤ y.senderBal
    else x.senderBal = y.senderBal))

lemma Agrees.resultMsg {x y : Execution} (h : x.Agrees y) : x.resultMsg = y.resultMsg := by
  obtain ⟨hcmd, hbal⟩ := h
  unfold Execution.resultMsg
  rw [← hcmd] at hbal ⊢
  split at hbal
  · rename_i htype
    rw [if_pos htype, if_pos htype]
    exact if_congr hbal rfl rfl
  · rename_i htype
    rw [if_neg htype, if_neg htype, hbal]

/-- A transfer whose message counts as a success is executed with "Success". -/
lemma resultMsg_of_isSuccess {x : Execution} (htype : x.command.type = .transfer)
    (h : RaftNode.isSuccess x.resultMsg = true) : x.resultMsg = Bytes.ascii "Success" := by
  unfold Execution.resultMsg at h ⊢
  rw [if_pos htype] at h ⊢
  split
  · rfl
  · rename_i hfunds
    rw [if_neg hfunds] at h
    exact absurd h (by decide)

end Execution

namespace RaftNode

/-- The execution that is due. -/
def dueExecution? (n : RaftNode) : Option Execution :=
  match n.executor with
  | .applying entry _ => some ⟨entry.command, n.storage.getBalance entry.command.senderId⟩
  | _ => none

/-- The execution's message is that of the outcome. -/
lemma outcome_resultMsg (s : RocksDBStore) (cmd : ClientRequest) :
    (s.outcome cmd).resultMsg = (Execution.mk cmd (s.getBalance cmd.senderId)).resultMsg := by
  unfold outcome Execution.resultMsg
  dsimp only
  split
  · split <;> rfl
  · rfl

/-- The request id a thread step answers. -/
def servedId? (n : RaftNode) : ThreadStep → Option Bytes
  | .clientRequest _ req => some req.requestId
  | .lookupRequest cb | .appendRequest cb =>
      (n.requests cb).map fun th => th.request.requestId
  | .notifyClient =>
      match n.executor with
      | .written entry _ _ => some entry.command.requestId
      | _ => none
  | _ => none

/-- The answer a thread step sends, with the request id it is for. -/
def response? (n : RaftNode) (call : ℕ) (a : ThreadStep) : Option (Bytes × ClientResponse) :=
  match n.step call a with
  | some (_, .response _ resp) => (n.servedId? a).map fun id => (id, resp)
  | _ => none

end RaftNode

namespace Cluster

/-- The answer a step sends, with the request id it is for. -/
def response? (s : Cluster) : Label → Option (Bytes × ClientResponse)
  | .thread i a => (s.nodes i).response? s.nextCall a
  | _ => none

end Cluster

/-- The request of an entry with request id `id` is executed. -/
def Event.executes (id : Bytes) : Event → Bool
  | .executed _ entry _ => entry.command.requestId = id
  | _ => false

/-- Some node has executed the request. -/
def Cluster.HasExecuted (s : Cluster) (id : Bytes) : Prop := ∃ ev ∈ s.history, ev.executes id

instance (s : Cluster) (id : Bytes) : Decidable (s.HasExecuted id) :=
  inferInstanceAs (Decidable (∃ ev ∈ s.history, _))

/-! ## The condition -/

namespace RaftNode

/-- The execution that is due finds what other executions of the request find. -/
def ExecutesAlike (n : RaftNode) (found : Bytes → Execution) : Prop :=
  ∀ x ∈ n.dueExecution?, x.Agrees (found x.command.requestId)

instance (n : RaftNode) (found : Bytes → Execution) : Decidable (n.ExecutesAlike found) :=
  inferInstanceAs (Decidable (∀ x ∈ n.dueExecution?, _))

/-- A stored message that the lookup finds counts as a success. -/
def FindsSuccess (n : RaftNode) (cb : ℕ) : Prop :=
  ∀ th ∈ n.requests cb, n.storage.getRequestResult th.request.requestId ≠ [] →
    isSuccess (n.storage.getRequestResult th.request.requestId) = true

instance (n : RaftNode) (cb : ℕ) : Decidable (n.FindsSuccess cb) :=
  inferInstanceAs (Decidable (∀ th ∈ n.requests cb, _))

end RaftNode

namespace Cluster

/-- A snapshot that is installed brings results of executed requests only, as they were. -/
def BringsResults (s : Cluster) (found : Bytes → Execution) (c : Call) : Prop :=
  ∀ args, c.request = .installSnapshot args → (s.nodes c.dst).installs args → ∀ id,
    ((s.nodes c.dst).storage.applySnapshot args.data args.lastIncludedIndex
      args.lastIncludedTerm).getRequestResult id ≠ [] →
    ((s.nodes c.dst).storage.applySnapshot args.data args.lastIncludedIndex
      args.lastIncludedTerm).getRequestResult id = (found id).resultMsg ∧ s.HasExecuted id

end Cluster

/-- **The steps after which answers agree.**  All executions of a request find the same, snapshots
bring results of executions, a stored message that is given out counts as a success, and a request
that has been executed is not turned away by a node that does not lead. -/
def AnswersAlike (found : Bytes → Execution) (s : Cluster) : Label → Prop
  | .thread i .readBalances => (s.nodes i).ExecutesAlike found
  | .thread i (.clientRequest _ req) =>
      (s.nodes i).state ≠ .leader → ¬ s.HasExecuted req.requestId
  | .thread i (.lookupRequest cb) => (s.nodes i).FindsSuccess cb
  | .thread i (.appendRequest cb) =>
      (s.nodes i).state ≠ .leader → ∀ th ∈ (s.nodes i).requests cb,
        ¬ s.HasExecuted th.request.requestId
  | .handle k => ∀ c, s.calls k = some c → s.BringsResults found c
  | _ => True

/-- The runs whose steps are all such. -/
def AlikeRun (found : Bytes → Execution) (members : List ℤ) :
    Cluster → List Label → Cluster → Prop :=
  Transition.Run (Cluster.step members) (AnswersAlike found)

/-! ## The invariant -/

/-- What is stored or about to be stored or reported is the message of the executions of the
request; `done` holds of the executed requests. -/
structure ResultInv (found : Bytes → Execution) (done : Bytes → Prop) (s : Cluster) : Prop where
  executed : ∀ id, s.HasExecuted id → done id
  stored : ∀ v id, (s.nodes v).storage.getRequestResult id ≠ [] →
    (s.nodes v).storage.getRequestResult id = (found id).resultMsg ∧ s.HasExecuted id
  computed : ∀ v entry rest senderNewBal receiverNewBal msg,
    (s.nodes v).executor = .computed entry rest senderNewBal receiverNewBal msg →
      entry.command = (found entry.command.requestId).command ∧
        msg = (found entry.command.requestId).resultMsg
  written : ∀ v entry rest msg, (s.nodes v).executor = .written entry rest msg →
    msg = (found entry.command.requestId).resultMsg ∧ s.HasExecuted entry.command.requestId

variable {members : List ℤ} {s t : Cluster} {l : Label} {found : Bytes → Execution}
  {done done' : Bytes → Prop}

/-- The executor of a node applies the entry of request `req`, with message `msg`. -/
def Executes (req : ClientRequest) (msg : Bytes) (s : Cluster) (l : Label) : Prop :=
  ∃ v entry rest senderNewBal receiverNewBal, l = .thread v .applyEntry ∧
    (s.nodes v).executor = .computed entry rest senderNewBal receiverNewBal msg ∧
    entry.command = req

lemma Cluster.HasExecuted.of_history {id : Bytes} {es : List Event} (h : s.HasExecuted id)
    (hhistory : t.history = es ++ s.history) : t.HasExecuted id := by
  obtain ⟨ev, hev, hid⟩ := h
  exact ⟨ev, hhistory ▸ List.mem_append_right _ hev, hid⟩

/-- What has been executed stays executed. -/
lemma Cluster.HasExecuted.step {id : Bytes} (h : s.HasExecuted id)
    (hstep : Cluster.step members s l = some t) : t.HasExecuted id := by
  rcases Cluster.executed_of_step hstep with
    ⟨w, entry, rest, a, b, msg, -, -, -, hhistory⟩ | ⟨es, hhistory, -⟩
  · have hsnoc : t.history = [.executed w entry _] ++ s.history := hhistory
    exact h.of_history hsnoc
  · exact h.of_history hhistory

/-- What a step executes. -/
lemma Cluster.HasExecuted.of_step {id : Bytes} (h : t.HasExecuted id)
    (hstep : Cluster.step members s l = some t) : s.HasExecuted id ∨
      ∃ v entry rest a b msg, l = .thread v .applyEntry ∧
        (s.nodes v).executor = .computed entry rest a b msg ∧ entry.command.requestId = id := by
  obtain ⟨ev, hev, hid⟩ := h
  rcases Cluster.executed_of_step hstep with
    ⟨w, entry, rest, a, b, msg, hl, hex, -, hhistory⟩ | ⟨es, hhistory, hes⟩
  · rw [hhistory] at hev
    rcases List.mem_cons.mp hev with rfl | hev
    · exact .inr ⟨w, entry, rest, a, b, msg, hl, hex, of_decide_eq_true hid⟩
    · exact .inl ⟨ev, hev, hid⟩
  · rw [hhistory] at hev
    rcases List.mem_append.mp hev with hev | hev
    · cases ev with
      | executed => exact absurd trivial (hes _ hev)
      | _ => cases hid
    · exact .inl ⟨ev, hev, hid⟩

/-- A node that has just applied an entry has executed its request. -/
lemma Cluster.hasExecuted_of_applied {v : ℤ} {entry : LogEntry} {rest : List LogEntry}
    {a b : ℤ} {msg : Bytes} (hstep : Cluster.step members s (.thread v .applyEntry) = some t)
    (hex : (s.nodes v).executor = .computed entry rest a b msg) :
    t.HasExecuted entry.command.requestId := by
  obtain ⟨changed, hev⟩ := Cluster.executed_mem_of_applied hstep hex
  exact ⟨_, hev, decide_eq_true (rfl : entry.command.requestId = _)⟩

namespace ResultInv

/-- What is stored stays, unless the executor replaces it or a snapshot does. -/
lemma stored_step (hinv : ResultInv found done s) (hok : AnswersAlike found s l)
    (hstep : Cluster.step members s l = some t) (v : ℤ) (id : Bytes)
    (hres : (t.nodes v).storage.getRequestResult id ≠ []) :
    (t.nodes v).storage.getRequestResult id = (found id).resultMsg ∧ t.HasExecuted id := by
  cases Cluster.recordsStep_of_step hstep v with
  | same hsame =>
      rw [hsame.getRequestResult] at hres ⊢
      obtain ⟨hmsg, hexec⟩ := hinv.stored v id hres
      exact ⟨hmsg, hexec.step hstep⟩
  | @applied entry rest a b msg hl hex hstorage =>
      subst hl
      rw [hstorage, getRequestResult_applyTransaction] at hres ⊢
      by_cases hid : id = entry.command.requestId
      · subst hid
        rw [if_pos rfl]
        exact ⟨(hinv.computed v entry rest a b msg hex).2,
          Cluster.hasExecuted_of_applied hstep hex⟩
      · rw [if_neg hid] at hres ⊢
        obtain ⟨hmsg, hexec⟩ := hinv.stored v id hres
        exact ⟨hmsg, hexec.step hstep⟩
  | @installed k c args hl hcall hdst hreq hinst hsame =>
      subst hl hdst
      rw [hsame.getRequestResult] at hres ⊢
      obtain ⟨hmsg, hexec⟩ := hok c hcall args hreq hinst id hres
      exact ⟨hmsg, hexec.step hstep⟩

/-- **One step keeps the invariant.** -/
theorem step (hinv : ResultInv found done s) (hok : AnswersAlike found s l)
    (hstep : Cluster.step members s l = some t) (hmono : ∀ id, done id → done' id)
    (hnew : ∀ id, Executes (found id).command (found id).resultMsg s l → done' id) :
    ResultInv found done' t where
  executed id hexec := by
    rcases hexec.of_step hstep with hold | ⟨v, entry, rest, a, b, msg, hl, hex, rfl⟩
    · exact hmono id (hinv.executed id hold)
    · obtain ⟨hcmd, hmsg⟩ := hinv.computed v entry rest a b msg hex
      exact hnew _ ⟨v, entry, rest, a, b, hl, hmsg ▸ hex, hcmd⟩
  stored := hinv.stored_step hok hstep
  computed v entry rest a b msg hex := by
    rcases Cluster.executor_of_step hstep v with hsame | hwaiting | ⟨act, out, rfl, hmove⟩
    · exact hinv.computed v entry rest a b msg (hsame.symm.trans hex)
    · rw [hwaiting] at hex
      cases hex
    · rcases hmove.computed hex with hsame | ⟨rfl, happlying, hout⟩
      · exact hinv.computed v entry rest a b msg (hsame.trans hex)
      · have hagrees := hok ⟨entry.command, _⟩ (by rw [RaftNode.dueExecution?, happlying]; rfl)
        have hmsg := RaftNode.outcome_resultMsg (s.nodes v).storage entry.command
        rw [hout, hagrees.resultMsg] at hmsg
        exact ⟨hagrees.1, hmsg⟩
  written v entry rest msg hex := by
    rcases Cluster.executor_of_step hstep v with hsame | hwaiting | ⟨act, out, rfl, hmove⟩
    · obtain ⟨hmsg, hexec⟩ := hinv.written v entry rest msg (hsame.symm.trans hex)
      exact ⟨hmsg, hexec.step hstep⟩
    · rw [hwaiting] at hex
      cases hex
    · rcases hmove.written hex with hsame | ⟨rfl, a, b, hcomputed⟩
      · obtain ⟨hmsg, hexec⟩ := hinv.written v entry rest msg (hsame.trans hex)
        exact ⟨hmsg, hexec.step hstep⟩
      · exact ⟨(hinv.computed v entry rest a b msg hcomputed).2,
          Cluster.hasExecuted_of_applied hstep hcomputed⟩

end ResultInv

/-! ## Answers -/

/-- A step that answers is a thread step with an answer. -/
lemma Cluster.move_of_response {id : Bytes} {resp : ClientResponse}
    (h : s.response? l = some (id, resp)) : ∃ i a n cb, l = .thread i a ∧
      (s.nodes i).Move s.nextCall a n (.response cb resp) ∧ (s.nodes i).servedId? a = some id := by
  cases l with
  | thread i a =>
      rw [Cluster.response?, RaftNode.response?] at h
      split at h
      · rename_i n cb resp' hstep
        obtain ⟨id', hid, heq⟩ := Option.map_eq_some_iff.mp h
        cases heq
        exact ⟨i, a, n, cb, rfl, RaftNode.move_of_step hstep, hid⟩
      · cases h
  | _ => cases h

/-- **What an answer says**: the message of the executions of the request, or, for a request that
has not been executed, no success. -/
theorem ResultInv.response (hinv : ResultInv found done s) (hok : AnswersAlike found s l)
    {id : Bytes} {resp : ClientResponse} (hresp : s.response? l = some (id, resp)) :
    s.HasExecuted id ∧ resp.success = RaftNode.isSuccess (found id).resultMsg ∧
        resp.result = (found id).resultMsg ∨
      ¬ s.HasExecuted id ∧ resp.success = false := by
  obtain ⟨i, a, n, cb, rfl, hmove, hid⟩ := Cluster.move_of_response hresp
  generalize hout : Output.response cb resp = out at hmove
  cases hmove with
  | clientRefused hfree hstate =>
      cases hout
      cases hid
      exact .inr ⟨hok hstate, rfl⟩
  | @lookupFound _ req hreq hfound =>
      cases hout
      obtain rfl : req.requestId = id := by
        rw [RaftNode.servedId?, hreq] at hid
        exact Option.some.inj hid
      obtain ⟨hmsg, hexec⟩ := hinv.stored i _ hfound
      have hsuccess := hok (.checked req) hreq hfound
      rw [RequestThread.request, hmsg] at hsuccess
      exact .inl ⟨hexec, hsuccess.symm, hmsg⟩
  | @appendRefused _ req hreq hstate =>
      cases hout
      obtain rfl : req.requestId = id := by
        rw [RaftNode.servedId?, hreq] at hid
        exact Option.some.inj hid
      exact .inr ⟨hok hstate (.lookedUp req) hreq, rfl⟩
  | @notifyClient entry rest msg hex =>
      obtain rfl : entry.command.requestId = id := by
        rw [RaftNode.servedId?, hex] at hid
        exact Option.some.inj hid
      obtain ⟨rfl, hexec⟩ := hinv.written i entry rest msg hex
      cases hcb : (s.nodes i).pendingCallbacks entry.command.requestId with
      | none =>
          rw [hcb] at hout
          cases hout
      | some cb' =>
          rw [hcb] at hout
          cases hout
          exact .inl ⟨hexec, rfl, rfl⟩
  | _ => cases hout

/-! ## Runs -/

/-- A store without results. -/
lemma getRequestResult_genesis (id : Bytes) : genesis.getRequestResult id = [] := by
  rw [getRequestResult, get_genesis_of_head (by simp)]

lemma resultInv_init (members : List ℤ) :
    ResultInv found (fun _ => False) (.init members fun _ => genesis) where
  executed _ h := by
    obtain ⟨ev, hev, -⟩ := h
    cases hev
  stored _ id h := absurd (getRequestResult_genesis id) h
  computed _ _ _ _ _ _ h := by cases h
  written _ _ _ _ h := by cases h

/-- The run takes a step that answers a request. -/
def Answered (found : Bytes → Execution) (members : List ℤ) (ls : List Label) (s : Cluster)
    (id : Bytes) (resp : ClientResponse) : Prop :=
  Transition.Took (Cluster.step members) (AnswersAlike found) (.init members fun _ => genesis) ls s
    fun u l => u.response? l = some (id, resp)

/-- The same, after the request has been executed. -/
def AnsweredExecuted (found : Bytes → Execution) (members : List ℤ) (ls : List Label) (s : Cluster)
    (id : Bytes) (resp : ClientResponse) : Prop :=
  Transition.Took (Cluster.step members) (AnswersAlike found) (.init members fun _ => genesis) ls s
    fun u l => u.HasExecuted id ∧ u.response? l = some (id, resp)

/-- The run takes a step that executes a request with a message. -/
def ExecutedWith (found : Bytes → Execution) (members : List ℤ) (ls : List Label) (s : Cluster)
    (req : ClientRequest) (msg : Bytes) : Prop :=
  Transition.Took (Cluster.step members) (AnswersAlike found) (.init members fun _ => genesis) ls s
    (Executes req msg)

variable {ls : List Label}

lemma resultInv_of_run (hrun : AlikeRun found members (.init members fun _ => genesis) ls s) :
    ResultInv found (fun id => ExecutedWith found members ls s (found id).command
      (found id).resultMsg) s := by
  induction hrun with
  | nil =>
      have hinit : ResultInv found (fun _ => False) _ := resultInv_init members
      exact ⟨fun id h => (hinit.executed id h).elim, hinit.stored, hinit.computed, hinit.written⟩
  | snoc hrun hok hstep ih =>
      exact ih.step hok hstep (fun id htook => htook.snoc hok hstep)
        fun id hexec => hrun.took hok hstep hexec

/-- What is answered in a run. -/
lemma answered_of_run {P : Cluster → Label → Prop} {id : Bytes} {resp : ClientResponse}
    (htook : Transition.Took (Cluster.step members) (AnswersAlike found)
      (.init members fun _ => genesis) ls s P)
    (hP : ∀ u l, P u l → u.response? l = some (id, resp)) :
    ∃ u l, P u l ∧ (u.HasExecuted id ∧ resp.success = RaftNode.isSuccess (found id).resultMsg ∧
        resp.result = (found id).resultMsg ∧
        ExecutedWith found members ls s (found id).command (found id).resultMsg ∨
      ¬ u.HasExecuted id ∧ resp.success = false) := by
  obtain ⟨ls₁, u, l, v, ls₂, rfl, hrun, hok, hstep, hrest, hPu⟩ := htook
  have hinv := resultInv_of_run hrun
  refine ⟨u, l, hPu, ?_⟩
  rcases hinv.response hok (hP u l hPu) with ⟨hexec, hsuccess, hresult⟩ | hnot
  · have hafter : AlikeRun found members u ([l] ++ ls₂) s :=
      (Transition.Run.single hok hstep).append hrest
    exact .inl ⟨hexec, hsuccess, hresult, (hinv.executed id hexec).append hafter⟩
  · exact .inr hnot

/-- **Truthful client results.**  In every run, with crashes, compaction and snapshots, whose steps
leave answers alike: all answers to an executed request carry the same flag and result; and a
client that reports success for a transfer, under whose id no other request is executed, reports
one that has been executed with "Success". -/
theorem truthful_results (members : List ℤ) (found : Bytes → Execution) (ls : List Label)
    (s : Cluster) :
    (∀ id r₁ r₂, AnsweredExecuted found members ls s id r₁ →
      AnsweredExecuted found members ls s id r₂ →
        r₁.success = r₂.success ∧ r₁.result = r₂.result) ∧
    ∀ (c : RaftClient) exchange req, req.type = .transfer → (found req.requestId).command = req →
      (∀ k port resp, exchange k port req = some resp →
        Answered found members ls s req.requestId resp) →
      (c.runCommand exchange req).1 = true →
        ExecutedWith found members ls s req (Bytes.ascii "Success") := by
  constructor
  · intro id r₁ r₂ h₁ h₂
    have hanswer : ∀ {r}, AnsweredExecuted found members ls s id r →
        r.success = RaftNode.isSuccess (found id).resultMsg ∧ r.result = (found id).resultMsg := by
      intro r h
      obtain ⟨u, l, ⟨hexec, -⟩, ⟨-, hsuccess, hresult, -⟩ | ⟨hnot, -⟩⟩ :=
        answered_of_run h fun _ _ h => h.2
      · exact ⟨hsuccess, hresult⟩
      · exact absurd hexec hnot
    obtain ⟨hs₁, hr₁⟩ := hanswer h₁
    obtain ⟨hs₂, hr₂⟩ := hanswer h₂
    exact ⟨hs₁.trans hs₂.symm, hr₁.trans hr₂.symm⟩
  · intro c exchange req htype hreq hexchange hcommand
    obtain ⟨k, port, resp, hresp, htrue⟩ := RaftClient.runCommand_success hcommand
    obtain ⟨u, l, -, ⟨-, hsuccess, -, hexecuted⟩ | ⟨-, hfalse⟩⟩ :=
      answered_of_run (hexchange k port resp hresp) fun _ _ h => h
    · rw [htrue] at hsuccess
      rwa [Execution.resultMsg_of_isSuccess (by rwa [hreq]) hsuccess.symm, hreq] at hexecuted
    · rw [htrue] at hfalse
      cases hfalse

/-! ## A cluster of two -/

/-- The request of a snapshot. -/
def Request.isSnapshot : Request → Bool
  | .installSnapshot _ => true
  | _ => false

/-- A simple case of steps that leave answers alike: no snapshot is handled. -/
def AlikeWithoutSnapshot (found : Bytes → Execution) (s : Cluster) : Label → Prop
  | .handle k => ∀ c ∈ s.calls k, c.request.isSnapshot = false
  | l => AnswersAlike found s l

instance (found : Bytes → Execution) (s : Cluster) : DecidablePred (AlikeWithoutSnapshot found s)
  | .thread i .readBalances => inferInstanceAs (Decidable ((s.nodes i).ExecutesAlike found))
  | .thread i (.clientRequest _ req) =>
      inferInstanceAs (Decidable ((s.nodes i).state ≠ .leader → ¬ s.HasExecuted req.requestId))
  | .thread i (.lookupRequest cb) => inferInstanceAs (Decidable ((s.nodes i).FindsSuccess cb))
  | .thread i (.appendRequest cb) =>
      inferInstanceAs (Decidable ((s.nodes i).state ≠ .leader → ∀ th ∈ (s.nodes i).requests cb, _))
  | .handle k => inferInstanceAs (Decidable (∀ c ∈ s.calls k, _))
  | .thread _ .electionTimeout | .thread _ .startElection | .thread _ .evalHardState
  | .thread _ .saveHardState | .thread _ .sendRequestVote | .thread _ (.replicateBegin _)
  | .thread _ (.replicateCheck _) | .thread _ (.replicateLock _) | .thread _ (.replicatePrevTerm _)
  | .thread _ (.replicateRead _) | .thread _ (.replicateSend _) | .thread _ (.replicateAtomic _)
  | .thread _ (.dumpSnapshot _) | .thread _ (.stampSnapshot _) | .thread _ (.sendSnapshot _)
  | .thread _ .fetchBatch | .thread _ .applyEntry | .thread _ .notifyClient
  | .thread _ .compactIfDue | .thread _ .skipCompaction | .reply _ | .fail _ | .crash _ =>
      isTrue trivial

lemma AlikeWithoutSnapshot.answersAlike (h : AlikeWithoutSnapshot found s l) :
    AnswersAlike found s l := by
  cases l with
  | handle k =>
      intro c hc args hargs
      have hreq := h c hc
      rw [hargs] at hreq
      cases hreq
  | _ => exact h

/-- Node `1` leads a cluster of two, takes a request and executes it. -/
def executeRequest (req : ClientRequest) : List Label :=
  campaign 1 1 ++ [.handle 0, .reply 0] ++ takeRequest 1 0 req ++ replicate 1 2 1 ++ applyFirst 1

/-- The client of node `1` sends the request again. -/
def askAgain (req : ClientRequest) : List Label :=
  [.thread 1 .skipCompaction, .thread 1 (.clientRequest 1 req)]

/-- A client of nodes `1` and `2`. -/
def clientOfPair : RaftClient := ⟨[(1, 8001), (2, 8002)], 0⟩

/-- A transfer is executed and asked for again: both answers say so, and so does the client. -/
theorem truthful_results_pair :
    let req := transfer (Bytes.ascii "r") 50
    let found : Bytes → Execution := fun _ => ⟨req, 100000⟩
    let resp : ClientResponse := ⟨true, Bytes.ascii "Success", 1⟩
    ∃ ls s, AnsweredExecuted found pair.ids ls s req.requestId resp ∧
      (∀ resp', AnsweredExecuted found pair.ids ls s req.requestId resp' →
        resp'.success = true ∧ resp'.result = Bytes.ascii "Success") ∧
      ExecutedWith found pair.ids ls s req (Bytes.ascii "Success") := by
  intro req found resp
  have hruns : ∃ s, Transition.Run (Cluster.step pair.ids) (AlikeWithoutSnapshot found)
      (.init pair.ids fun _ => genesis)
      (executeRequest req ++ .thread 1 .notifyClient :: askAgain req) s ∧
        AlikeWithoutSnapshot found s (.thread 1 (.lookupRequest 1)) ∧ s.HasExecuted req.requestId ∧
        s.response? (.thread 1 (.lookupRequest 1)) = some (req.requestId, resp) ∧
        ∃ t ∈ Cluster.step pair.ids s (.thread 1 (.lookupRequest 1)), True :=
    run_of_after (by decide +kernel)
  obtain ⟨s, hrun, hok, hexec, hresp, t, hstep, -⟩ := hruns
  have halike : AlikeRun found pair.ids (.init pair.ids fun _ => genesis)
      (executeRequest req ++ .thread 1 .notifyClient :: askAgain req) s :=
    hrun.mono fun _ _ => AlikeWithoutSnapshot.answersAlike
  have hanswered : AnsweredExecuted found pair.ids
      (executeRequest req ++ .thread 1 .notifyClient :: askAgain req ++
        [.thread 1 (.lookupRequest 1)]) t req.requestId resp :=
    halike.took hok.answersAlike hstep ⟨hexec, hresp⟩
  refine ⟨_, t, hanswered, fun resp' hanswered' => ?_, ?_⟩
  · exact (truthful_results _ found _ t).1 _ _ _ hanswered' hanswered
  · refine (truthful_results _ found _ t).2 clientOfPair (fun _ _ _ => some resp) req rfl rfl ?_
      (by decide)
    rintro k port _ ⟨⟩
    exact halike.took hok.answersAlike hstep hresp

/-- **A transfer that fails for lack of funds is reported as executed.**  The executor answers
"Insufficient Funds" without success, and the same transfer sent again is answered with the same
message and success. -/
theorem failed_transfer_reported :
    let req := transfer (Bytes.ascii "r") 200000
    let failed : ClientResponse := ⟨false, Bytes.ascii "Insufficient Funds", 1⟩
    let reported : ClientResponse := ⟨true, Bytes.ascii "Insufficient Funds", 1⟩
    (∃ s t u, CrashFreeRun pair.ids (.init pair.ids fun _ => genesis) (executeRequest req) s ∧
      s.HasExecuted req.requestId ∧
      s.response? (.thread 1 .notifyClient) = some (req.requestId, failed) ∧
      Cluster.step pair.ids s (.thread 1 .notifyClient) = some t ∧
      CrashFreeRun pair.ids t (askAgain req) u ∧
      u.response? (.thread 1 (.lookupRequest 1)) = some (req.requestId, reported)) ∧
    (clientOfPair.runCommand (fun k _ _ => some (if k = 0 then failed else reported)) req).1 =
      true := by
  intro req failed reported
  have hruns : ∃ s, CrashFreeRun pair.ids (.init pair.ids fun _ => genesis)
      (executeRequest req) s ∧ s.HasExecuted req.requestId ∧
        s.response? (.thread 1 .notifyClient) = some (req.requestId, failed) ∧
        ∃ t ∈ Cluster.step pair.ids s (.thread 1 .notifyClient),
          ∃ u ∈ Transition.runFrom (Cluster.step pair.ids) (fun _ l => l.crashFree) t
            (askAgain req),
            u.response? (.thread 1 (.lookupRequest 1)) = some (req.requestId, reported) :=
    run_of_after (by decide +kernel)
  obtain ⟨s, hrun, hexec, hfailed, t, hstep, u, hu, hreported⟩ := hruns
  exact ⟨⟨s, t, u, hrun, hexec, hfailed, hstep, Transition.run_of_runFrom hu, hreported⟩,
    by decide⟩

end RaftConsensus
