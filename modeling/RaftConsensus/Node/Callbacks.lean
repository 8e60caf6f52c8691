import RaftConsensus.Cluster.PendingRequests

/-!
# Callbacks

A session hands its callback to `processClientRequest` and reads no further request until the
callback has been invoked.  `Sessions` is a node in any environment together with the callbacks
that have been handed to it and those that it has invoked.

One exit of `processClientRequest` forgets its callback: a request that is found in flight returns
without an answer, and the map has one slot for each request id.  In every run in which no request
is found in flight (`Sessions.NotInFlight`), every callback is in exactly one place: with the
thread that has brought it, among the invoked ones, or stored under its request id
(`callbacks_kept`).
-/

namespace RaftConsensus

/-- The callback that an output invokes. -/
def Output.invokes : Output → List ℕ
  | .response cb _ => [cb]
  | _ => []

/-- The callback that a step hands to the node. -/
def ThreadStep.hands : ThreadStep → Option (ℕ × ClientRequest)
  | .clientRequest cb req => some (cb, req)
  | _ => none

/-- The callback whose thread is at its locked block. -/
def NodeLabel.appends : NodeLabel → Option ℕ
  | .thread _ (.appendRequest cb) => some cb
  | _ => none

/-- A node with the callbacks that its process has been handed, and those it has invoked. -/
structure Sessions where
  node : RaftNode
  handed : List (ℕ × ClientRequest)
  invoked : List ℕ

namespace Sessions

def start (config : ClusterConfig) (store : RocksDBStore) : Sessions := ⟨.new config store, [], []⟩

/-- Every call of `processClientRequest` comes with a callback of its own. -/
def Fresh (s : Sessions) (a : ThreadStep) : Prop := ∀ p ∈ a.hands, p.1 ∉ s.handed.map Prod.fst

instance (s : Sessions) (a : ThreadStep) : Decidable (s.Fresh a) :=
  inferInstanceAs (Decidable (∀ p ∈ a.hands, _))

/-- The process may be restarted at any time; its sessions end with it. -/
def step (s : Sessions) : NodeLabel → Option Sessions
  | .thread call a =>
      if s.Fresh a then
        (s.node.step call a).map fun r =>
          ⟨r.1, a.hands.toList ++ s.handed, r.2.invokes ++ s.invoked⟩
      else none
  | .handle request => some { s with node := (s.node.handle request).1 }
  | .receive dst request reply => some { s with node := s.node.receive dst request reply }
  | .abandon dst request => some { s with node := s.node.abandon dst request }
  | .restart => some ⟨s.node.restart, [], []⟩

/-- In how many places a callback is: with the thread that has brought it, among the invoked ones
(as often as it has been invoked), and stored under its request id. -/
def places (s : Sessions) (cb : ℕ) (req : ClientRequest) : ℕ :=
  (if (s.node.requests cb).isSome then 1 else 0) + s.invoked.count cb +
    if s.node.pendingCallbacks req.requestId = some cb then 1 else 0

/-- **No callback is lost or called twice**: each is in exactly one place, and when the executor
reports a request, every callback for it that is not with its thread any more has been invoked. -/
structure NoneLost (s : Sessions) : Prop where
  once : ∀ cb req, (cb, req) ∈ s.handed → s.places cb req = 1
  answered : ∀ call s' entry rest msg, s.node.executor = .written entry rest msg →
    s.step (.thread call .notifyClient) = some s' →
    ∀ cb req, (cb, req) ∈ s.handed → req.requestId = entry.command.requestId →
      s.node.requests cb = none → s'.invoked.count cb = 1

/-- **No request is found in flight**: the locked block of a leader finds no callback stored under
the id of the request that it is about to append. -/
def NotInFlight (s : Sessions) (l : NodeLabel) : Prop :=
  ∀ cb ∈ l.appends, ∀ t ∈ s.node.requests cb, s.node.state = .leader →
    s.node.pendingCallbacks t.request.requestId = none

instance (s : Sessions) : DecidablePred s.NotInFlight := fun l =>
  inferInstanceAs (Decidable (∀ cb ∈ l.appends, ∀ t ∈ s.node.requests cb, _ → _))

/-! ## The invariant -/

/-- Every callback is in one place, and what is anywhere has been handed to the node. -/
structure Inv (s : Sessions) : Prop where
  place : ∀ cb req, (cb, req) ∈ s.handed → s.places cb req = 1
  inside : ∀ cb t, s.node.requests cb = some t → (cb, t.request) ∈ s.handed
  stored : ∀ id cb, s.node.pendingCallbacks id = some cb →
    ∃ req, (cb, req) ∈ s.handed ∧ req.requestId = id
  invoked : ∀ cb ∈ s.invoked, ∃ req, (cb, req) ∈ s.handed
  unique : ∀ cb req req', (cb, req) ∈ s.handed → (cb, req') ∈ s.handed → req = req'

variable {s s' : Sessions} {n : RaftNode} {cb : ℕ} {req : ClientRequest}

lemma inv_start (config : ClusterConfig) (store : RocksDBStore) : (start config store).Inv where
  place _ _ h := by cases h
  inside _ _ h := by cases h
  stored _ _ h := by cases h
  invoked _ h := by cases h
  unique _ _ _ h := by cases h

/-- A step that does not concern callbacks. -/
lemma Inv.still (h : s.Inv) (hrequests : n.requests = s.node.requests)
    (hpending : n.pendingCallbacks = s.node.pendingCallbacks) : Inv { s with node := n } where
  place := by
    unfold places
    rw [hrequests, hpending]
    exact h.place
  inside := by
    rw [hrequests]
    exact h.inside
  stored := by
    rw [hpending]
    exact h.stored
  invoked := h.invoked
  unique := h.unique

/-- A callback that is with its thread is nowhere else. -/
lemma Inv.with_thread (h : s.Inv) {t : RequestThread} (ht : s.node.requests cb = some t) :
    (cb, t.request) ∈ s.handed ∧ s.invoked.count cb = 0 ∧
      s.node.pendingCallbacks t.request.requestId ≠ some cb := by
  have hmem := h.inside cb t ht
  have hplace := h.place cb _ hmem
  rw [places, ht, Option.isSome_some, if_pos rfl] at hplace
  refine ⟨hmem, by omega, fun hstored => ?_⟩
  rw [if_pos hstored] at hplace
  omega

/-- A callback that has just been handed over is nowhere yet. -/
lemma Inv.nowhere (h : s.Inv) (hfresh : cb ∉ s.handed.map Prod.fst) :
    s.invoked.count cb = 0 ∧ ∀ id, s.node.pendingCallbacks id ≠ some cb := by
  have hnot : ∀ req, (cb, req) ∉ s.handed := fun req hmem => hfresh (List.mem_map_of_mem hmem)
  refine ⟨List.count_eq_zero.mpr fun hmem => ?_, fun id hid => ?_⟩
  · obtain ⟨req, hreq⟩ := h.invoked cb hmem
    exact hnot req hreq
  · obtain ⟨req, hreq, -⟩ := h.stored id cb hid
    exact hnot req hreq

/-- The thread with the callback answers and returns. -/
lemma Inv.answer (h : s.Inv) {t : RequestThread} (ht : s.node.requests cb = some t) :
    Inv ⟨{ s.node with requests := Function.update s.node.requests cb none }, s.handed,
      cb :: s.invoked⟩ where
  place c r hmem := by
    have hplace := h.place c r hmem
    unfold places at hplace ⊢
    by_cases hc : c = cb
    · subst hc
      obtain ⟨hmem', hcount, -⟩ := h.with_thread ht
      simp only [ht, Option.isSome_some, if_true, hcount] at hplace
      simp only [Function.update_self, List.count_cons_self, hcount]
      simpa using hplace
    · simpa [hc, List.count_cons_of_ne (Ne.symm hc)] using hplace
  inside c t' ht' := by
    by_cases hc : c = cb
    · subst hc
      simp at ht'
    · exact h.inside c t' (by simpa [hc] using ht')
  stored := h.stored
  invoked c hc := by
    obtain rfl | hc := List.mem_cons.mp hc
    · exact ⟨_, h.inside c t ht⟩
    · exact h.invoked c hc
  unique := h.unique

/-- The thread with the callback goes on. -/
lemma Inv.goOn (h : s.Inv) {t t' : RequestThread} (ht : s.node.requests cb = some t)
    (hsame : t'.request = t.request) :
    Inv { s with node := { s.node with
      requests := Function.update s.node.requests cb (some t') } } where
  place c r hmem := by
    have hplace := h.place c r hmem
    unfold places at hplace ⊢
    by_cases hc : c = cb
    · subst hc
      simpa [ht] using hplace
    · simpa [hc] using hplace
  inside c u hu := by
    by_cases hc : c = cb
    · subst hc
      obtain rfl : t' = u := by simpa using hu
      rw [hsame]
      exact h.inside c t ht
    · exact h.inside c u (by simpa [hc] using hu)
  stored := h.stored
  invoked := h.invoked
  unique := h.unique

/-- The callback is stored under the id of its request, where there was none. -/
lemma Inv.store (h : s.Inv) (hreq : s.node.requests cb = some (.lookedUp req))
    (hfree : s.node.pendingCallbacks req.requestId = none)
    (hrequests : n.requests = Function.update s.node.requests cb none)
    (hpending : n.pendingCallbacks =
      Function.update s.node.pendingCallbacks req.requestId (some cb)) :
    Inv { s with node := n } where
  place c r hmem := by
    have hplace := h.place c r hmem
    obtain ⟨hmem', hcount, -⟩ := h.with_thread hreq
    unfold places at hplace ⊢
    rw [hrequests, hpending]
    by_cases hc : c = cb
    · subst hc
      obtain rfl : r = req := h.unique c _ _ hmem hmem'
      simp [hcount]
    · have hc' : cb ≠ c := Ne.symm hc
      by_cases hid : r.requestId = req.requestId
      · simpa [hc, hc', hid, hfree] using hplace
      · simpa [hc, hid] using hplace
  inside c u hu := by
    rw [hrequests] at hu
    by_cases hc : c = cb
    · subst hc
      simp at hu
    · exact h.inside c u (by simpa [hc] using hu)
  stored id c hid := by
    rw [hpending] at hid
    by_cases heq : id = req.requestId
    · subst heq
      obtain rfl : cb = c := by simpa using hid
      exact ⟨req, h.inside cb _ hreq, rfl⟩
    · exact h.stored id c (by simpa [heq] using hid)
  invoked := h.invoked
  unique := h.unique

/-- The executor reports a request: the callback stored for it is invoked and erased. -/
lemma Inv.report (h : s.Inv) {id : Bytes} (hrequests : n.requests = s.node.requests)
    (hpending : n.pendingCallbacks = Function.update s.node.pendingCallbacks id none) :
    Inv ⟨n, s.handed, (s.node.pendingCallbacks id).toList ++ s.invoked⟩ where
  place c r hmem := by
    have hplace := h.place c r hmem
    unfold places at hplace ⊢
    rw [hrequests, hpending, List.count_append]
    by_cases hid : r.requestId = id
    · subst hid
      rw [Function.update_self]
      cases hstored : s.node.pendingCallbacks r.requestId with
      | none => simpa [hstored] using hplace
      | some cb =>
          by_cases hc : cb = c
          · subst hc
            rw [hstored, if_pos rfl] at hplace
            simp only [Option.toList_some, List.count_cons_self, List.count_nil, reduceCtorEq,
              if_false]
            omega
          · simpa [hstored, hc] using hplace
    · rw [Function.update_of_ne hid]
      have hother : (s.node.pendingCallbacks id).toList.count c = 0 := by
        rw [List.count_eq_zero, Option.mem_toList]
        intro hstored
        -- the callback is stored under the id of its own request only
        obtain ⟨r', hmem', rfl⟩ := h.stored id c hstored
        exact hid (by rw [h.unique c r r' hmem hmem'])
      rw [hother, zero_add]
      exact hplace
  inside := by
    rw [hrequests]
    exact h.inside
  stored id' c hid := by
    rw [hpending] at hid
    by_cases heq : id' = id
    · simp [heq] at hid
    · exact h.stored id' c (by simpa [heq] using hid)
  invoked c hc := by
    obtain hc | hc := List.mem_append.mp hc
    · obtain ⟨r, hr, -⟩ := h.stored id c (Option.mem_toList.mp hc)
      exact ⟨r, hr⟩
    · exact h.invoked c hc
  unique := h.unique

/-- A callback is handed over: it is answered at once or stays with its thread. -/
lemma Inv.arrive (h : s.Inv) (hfresh : cb ∉ s.handed.map Prod.fst)
    (hfree : s.node.requests cb = none) :
    Inv ⟨s.node, (cb, req) :: s.handed, cb :: s.invoked⟩ ∧
      Inv ⟨{ s.node with requests := Function.update s.node.requests cb (some (.checked req)) },
        (cb, req) :: s.handed, s.invoked⟩ := by
  obtain ⟨hcount, hstored⟩ := h.nowhere hfresh
  have hother : ∀ c r, (c, r) ∈ s.handed → c ≠ cb := by
    rintro c r hmem rfl
    exact hfresh (List.mem_map_of_mem hmem)
  have hmember : ∀ c r, (c, r) ∈ (cb, req) :: s.handed → c = cb ∧ r = req ∨ (c, r) ∈ s.handed := by
    intro c r hmem
    simpa using hmem
  have hunique : ∀ c r r', (c, r) ∈ (cb, req) :: s.handed → (c, r') ∈ (cb, req) :: s.handed →
      r = r' := by
    intro c r r' hr hr'
    obtain ⟨rfl, rfl⟩ | hold := hmember c r hr
    · obtain ⟨-, rfl⟩ | hold' := hmember c r' hr'
      · rfl
      · exact absurd rfl (hother c r' hold')
    · obtain ⟨rfl, rfl⟩ | hold' := hmember c r' hr'
      · exact absurd rfl (hother c r hold)
      · exact h.unique c r r' hold hold'
  refine ⟨⟨fun c r hmem => ?_, ?_, ?_, ?_, hunique⟩, ⟨fun c r hmem => ?_, ?_, ?_, ?_, hunique⟩⟩
  · unfold places
    obtain ⟨rfl, rfl⟩ | hmem := hmember c r hmem
    · simp [hfree, hcount, hstored]
    · have hne := hother c r hmem
      rw [List.count_cons_of_ne (Ne.symm hne)]
      exact h.place c r hmem
  · exact fun c t ht => List.mem_cons_of_mem _ (h.inside c t ht)
  · intro id c hid
    obtain ⟨r, hr, heq⟩ := h.stored id c hid
    exact ⟨r, List.mem_cons_of_mem _ hr, heq⟩
  · intro c hc
    obtain rfl | hc := List.mem_cons.mp hc
    · exact ⟨req, List.mem_cons_self⟩
    · obtain ⟨r, hr⟩ := h.invoked c hc
      exact ⟨r, List.mem_cons_of_mem _ hr⟩
  · unfold places
    obtain ⟨rfl, rfl⟩ | hmem := hmember c r hmem
    · simp [hcount, hstored]
    · have hne := hother c r hmem
      simpa [places, hne] using h.place c r hmem
  · intro c t ht
    by_cases hc : c = cb
    · subst hc
      obtain rfl : RequestThread.checked req = t := by simpa using ht
      exact List.mem_cons_self
    · exact List.mem_cons_of_mem _ (h.inside c t (by simpa [hc] using ht))
  · intro id c hid
    obtain ⟨r, hr, heq⟩ := h.stored id c hid
    exact ⟨r, List.mem_cons_of_mem _ hr, heq⟩
  · intro c hc
    obtain ⟨r, hr⟩ := h.invoked c hc
    exact ⟨r, List.mem_cons_of_mem _ hr⟩

/-- Thread steps that find no request in flight. -/
lemma Inv.thread (h : s.Inv) {call : ℕ} {a : ThreadStep} {out : Output}
    (hmove : s.node.Move call a n out) (hfresh : s.Fresh a)
    (hflight : s.NotInFlight (.thread call a)) :
    Inv ⟨n, a.hands.toList ++ s.handed, out.invokes ++ s.invoked⟩ := by
  cases hmove with
  | clientRefused hfree hstate => exact (h.arrive (hfresh _ rfl) hfree).1
  | clientRequest hfree hstate => exact (h.arrive (hfresh _ rfl) hfree).2
  | lookupFound hreq hfound => exact h.answer hreq
  | lookupRequest hreq hfound => exact h.goOn hreq rfl
  | appendRefused hreq hstate => exact h.answer hreq
  | appendInFlight hreq hstate hpending =>
      have hnone := hflight _ rfl _ hreq hstate
      rw [RequestThread.request] at hnone
      rw [hnone] at hpending
      cases hpending
  | appendRequest hreq hstate hpending => exact h.store hreq hpending rfl rfl
  | @notifyClient entry rest msg hex =>
      have hinvokes : ((s.node.pendingCallbacks entry.command.requestId).elim Output.none fun cb =>
          .response cb ⟨RaftNode.isSuccess msg, msg, s.node.leaderId⟩).invokes =
            (s.node.pendingCallbacks entry.command.requestId).toList := by
        cases s.node.pendingCallbacks entry.command.requestId <;> rfl
      rw [hinvokes]
      exact h.report rfl rfl
  | _ => exact h.still rfl rfl

/-- **Every step that finds no request in flight keeps the callbacks.** -/
theorem Inv.step (h : s.Inv) {l : NodeLabel} (hflight : s.NotInFlight l)
    (hstep : s.step l = some s') : s'.Inv := by
  cases l with
  | thread call a =>
      simp only [Sessions.step] at hstep
      split at hstep
      · rename_i hfresh
        obtain ⟨⟨n, out⟩, hn, rfl⟩ := Option.map_eq_some_iff.mp hstep
        exact h.thread (RaftNode.move_of_step hn) hfresh hflight
      · cases hstep
  | handle request =>
      cases hstep
      obtain ⟨-, -, -, hpending, -, -, -, -, hrequests⟩ :=
        RaftNode.threads_inj (RaftNode.handle_threads s.node request)
      exact h.still hrequests hpending
  | receive dst request reply =>
      cases hstep
      obtain ⟨-, -, hpending, -⟩ :=
        RaftNode.logView_inj (RaftNode.logView_receive s.node dst request reply)
      exact h.still (RaftNode.receive_frame s.node dst request reply).2.1 hpending
  | abandon dst request =>
      cases hstep
      refine h.still ?_ ?_ <;> cases request <;> rfl
  | restart =>
      cases hstep
      exact inv_start s.node.config _

/-- The runs of a node that find no request in flight. -/
def UncontendedRun : Sessions → List NodeLabel → Sessions → Prop :=
  Transition.Run Sessions.step Sessions.NotInFlight

/-- In a state with the invariant no callback is lost. -/
lemma Inv.noneLost (h : s.Inv) : s.NoneLost where
  once := h.place
  answered call s' entry rest msg hex hstep cb req hmem hid hout := by
    have hflight : s.NotInFlight (.thread call .notifyClient) := fun _ h => by cases h
    have hinv := h.step hflight hstep
    simp only [Sessions.step] at hstep
    split at hstep
    · obtain ⟨⟨n, out⟩, hn, rfl⟩ := Option.map_eq_some_iff.mp hstep
      cases RaftNode.move_of_step hn with
      | notifyClient hex' =>
          rw [hex] at hex'
          cases hex'
          -- the callback is with no thread and stored no more
          have hplace := hinv.place cb req hmem
          simpa [places, hout, hid] using hplace
    · cases hstep

end Sessions

/-- **No callback is lost or called twice** in any run, with restarts, requests and answers of any
content and any interleaving of the node's threads, in which no request is found in flight. -/
theorem callbacks_kept {config : ClusterConfig} {store : RocksDBStore} {ls : List NodeLabel}
    {s : Sessions} (hrun : Sessions.UncontendedRun (.start config store) ls s) : s.NoneLost := by
  have hinv : s.Inv := hrun.invariant (Sessions.inv_start config store)
    fun _ _ _ h hflight hstep => h.step hflight hstep
  exact hinv.noneLost

/-! ## Two runs -/

/-- The request of `askTransfer`. -/
def transferRequest : ClientRequest :=
  ⟨Bytes.ascii "r", .transfer, Bytes.ascii "1", Bytes.ascii "2", 50⟩

/-- The peer has taken over the first entry, and the executor executes and reports it. -/
def executeFirst : List NodeLabel :=
  [.receive 2 (.appendEntries ⟨1, 1, 0, 0, [⟨1, 1, transferRequest⟩], 0⟩)
      (.appendEntries ⟨1, true⟩),
    .thread 0 .fetchBatch, .thread 0 .readBalances, .thread 0 .applyEntry, .thread 0 .notifyClient]

/-- The same request comes again, from another session. -/
def retryTransfer : List NodeLabel :=
  [.thread 0 (.clientRequest 1 transferRequest), .thread 0 (.lookupRequest 1),
    .thread 0 (.appendRequest 1)]

/-- A request that is executed is answered. -/
theorem request_answered :
    ∃ s, Sessions.UncontendedRun (.start ⟨1, [1, 2]⟩ RocksDBStore.genesis)
        (winFirstTerm ++ askTransfer ++ executeFirst) s ∧ s.invoked = [0] ∧ s.NoneLost := by
  have hanswered : ∃ s, Sessions.UncontendedRun (.start ⟨1, [1, 2]⟩ RocksDBStore.genesis)
      (winFirstTerm ++ askTransfer ++ executeFirst) s ∧ s.invoked = [0] :=
    run_of_genesis (Sessions.start ⟨1, [1, 2]⟩) (by decide +kernel)
  obtain ⟨s, hrun, hinvoked⟩ := hanswered
  exact ⟨s, hrun, hinvoked, callbacks_kept hrun⟩

/-- **A retry from a second session, while the request is in flight, is never answered**: its
callback is in no place any more, also when the request has been executed and reported. -/
theorem second_session_forgotten :
    ∃ s, Transition.Run Sessions.step (fun _ _ => True)
        (.start ⟨1, [1, 2]⟩ RocksDBStore.genesis)
        (winFirstTerm ++ askTransfer ++ retryTransfer ++ executeFirst) s ∧
      (1, transferRequest) ∈ s.handed ∧ s.invoked = [0] ∧ s.places 1 transferRequest = 0 ∧
      ¬ s.NoneLost := by
  have hforgotten : ∃ s, Transition.Run Sessions.step (fun _ _ => True)
      (.start ⟨1, [1, 2]⟩ RocksDBStore.genesis)
      (winFirstTerm ++ askTransfer ++ retryTransfer ++ executeFirst) s ∧
        (1, transferRequest) ∈ s.handed ∧ s.invoked = [0] ∧ s.places 1 transferRequest = 0 :=
    run_of_genesis (Sessions.start ⟨1, [1, 2]⟩) (by decide +kernel)
  obtain ⟨s, hrun, hhanded, hinvoked, hplaces⟩ := hforgotten
  refine ⟨s, hrun, hhanded, hinvoked, hplaces, fun h => ?_⟩
  have hone := h.once 1 transferRequest hhanded
  rw [hplaces] at hone
  cases hone

end RaftConsensus
