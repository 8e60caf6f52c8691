import RaftConsensus.Gateway.Session

/-!
# Who is answered

A node keeps the callback of a session in one place: with the thread that has brought it, or under
the id of its request (`RaftNode.Holds`).  `Gateway.Inv` says that the callbacks it holds are those
that sessions wait for, each under the id of the last request of its session.  So a response goes to
the session that has asked for it, and a session that waits is not forgotten.

`gateway_serves` is what this comes to for one session, and `client_reads_own_answer` what a client
at the other end of the connection makes of it.
-/

namespace RaftConsensus

/-! ## What a step does to the callbacks -/

namespace RaftNode

variable {n n' : RaftNode} {call cb : ℕ} {a : ThreadStep} {out : Output} {id : Bytes}

/-- What a thread of the node can do to the callbacks. -/
inductive CallbackMove (n : RaftNode) (a : ThreadStep) (n' : RaftNode) (out : Output) : Prop
  | still (hrequests : n'.requests = n.requests)
      (hpending : n'.pendingCallbacks = n.pendingCallbacks)
      (hout : ∀ cb resp, out ≠ .response cb resp) (hdrops : n.drops a = none)
  | goOn {cb : ℕ} {t t' : RequestThread} (ht : n.requests cb = some t)
      (hsame : t'.request = t.request)
      (hrequests : n'.requests = Function.update n.requests cb (some t'))
      (hpending : n'.pendingCallbacks = n.pendingCallbacks) (hout : out = .none)
      (hdrops : n.drops a = none)
  | answer {cb : ℕ} {t : RequestThread} {resp : ClientResponse} (ht : n.requests cb = some t)
      (hrequests : n'.requests = Function.update n.requests cb none)
      (hpending : n'.pendingCallbacks = n.pendingCallbacks) (hout : out = .response cb resp)
      (hserved : n.servedId? a = some t.request.requestId) (hdrops : n.drops a = none)
  | store {cb : ℕ} {t : RequestThread} (ht : n.requests cb = some t)
      (hfree : n.pendingCallbacks t.request.requestId = none)
      (hrequests : n'.requests = Function.update n.requests cb none)
      (hpending : n'.pendingCallbacks =
        Function.update n.pendingCallbacks t.request.requestId (some cb))
      (hout : out = .none) (hdrops : n.drops a = none)
  | drop {cb : ℕ} {t : RequestThread} (ht : n.requests cb = some t)
      (hrequests : n'.requests = Function.update n.requests cb none)
      (hpending : n'.pendingCallbacks = n.pendingCallbacks) (hout : out = .none)
      (hdrops : n.drops a = some cb)
  | report {id : Bytes} {resp : ClientResponse} (hrequests : n'.requests = n.requests)
      (hpending : n'.pendingCallbacks = Function.update n.pendingCallbacks id none)
      (hout : out = (n.pendingCallbacks id).elim .none fun cb => .response cb resp)
      (hserved : n.servedId? a = some id) (hdrops : n.drops a = none)

lemma Move.callbackMove (hmove : n.Move call a n' out) (ha : a.hands = none) :
    n.CallbackMove a n' out := by
  cases hmove with
  | clientRefused | clientRequest => cases ha
  | lookupFound hreq hfound =>
      exact .answer hreq rfl rfl rfl (by rw [servedId?, hreq]; rfl) rfl
  | lookupRequest hreq hfound =>
      refine .goOn hreq ?_ rfl rfl rfl rfl
      rfl
  | appendRefused hreq hstate =>
      refine .answer hreq rfl rfl rfl (by rw [servedId?, hreq]; rfl) ?_
      rw [drops, hreq]
      exact if_neg fun h => hstate h.1
  | appendInFlight hreq hstate hpending =>
      refine .drop hreq rfl rfl rfl ?_
      rw [drops, hreq]
      exact if_pos ⟨hstate, hpending⟩
  | appendRequest hreq hstate hpending =>
      refine .store hreq hpending rfl rfl rfl ?_
      rw [drops, hreq]
      exact if_neg fun h => by simp [hpending] at h
  | notifyClient hex => exact .report rfl rfl rfl (by rw [servedId?, hex]) rfl
  | _ => exact .still rfl rfl (fun _ _ h => by cases h) rfl

/-- The node holds the callback `cb`, for a request with this id. -/
def Holds (n : RaftNode) (cb : ℕ) (id : Bytes) : Prop :=
  (∃ t, n.requests cb = some t ∧ t.request.requestId = id) ∨ n.pendingCallbacks id = some cb

end RaftNode

/-! ## The callbacks of a node and those that wait for them -/

/-- The callbacks that the node holds are those that are waited for: `W i cb id` says that session
`i` waits for `cb`, for a request with the id `id`. -/
structure Kept (W : ℕ → ℕ → Bytes → Prop) (n : RaftNode) (next : ℕ) : Prop where
  held : ∀ cb id, n.Holds cb id → ∃ i, W i cb id
  awaited : ∀ i cb id, W i cb id → cb < next ∧ n.Holds cb id
  alone : ∀ i j cb id id', W i cb id → W j cb id' → i = j ∧ id = id'
  once : ∀ cb id, n.pendingCallbacks id = some cb → n.requests cb = none

namespace Kept

variable {W W' : ℕ → ℕ → Bytes → Prop} {n n' : RaftNode} {next cb : ℕ} {a : ThreadStep}
  {out : Output} {id : Bytes} {t : RequestThread}

lemma new (config : ClusterConfig) (store : RocksDBStore) (hW : ∀ i cb id, ¬ W i cb id) :
    Kept W (.new config store) next where
  held _ _ h := by
    rcases h with ⟨t, ht, -⟩ | h
    · cases ht
    · cases h
  awaited i cb id h := absurd h (hW i cb id)
  alone i _ cb id _ h := absurd h (hW i cb id)
  once _ _ h := by cases h

/-- A callback is held for one id only. -/
lemma same (h : Kept W n next) {id' : Bytes} (hid : n.Holds cb id) (hid' : n.Holds cb id') :
    id = id' := by
  obtain ⟨i, hi⟩ := h.held cb id hid
  obtain ⟨j, hj⟩ := h.held cb id' hid'
  exact (h.alone i j cb id id' hi hj).2

/-- The node holds what it has held, for the same requests. -/
lemma still (h : Kept W n next) (hholds : ∀ cb id, n'.Holds cb id ↔ n.Holds cb id)
    (honce : ∀ cb id, n'.pendingCallbacks id = some cb → n'.requests cb = none) :
    Kept W n' next where
  held cb id hid := h.held cb id ((hholds cb id).mp hid)
  awaited i cb id hw := ⟨(h.awaited i cb id hw).1, (hholds cb id).mpr (h.awaited i cb id hw).2⟩
  alone := h.alone
  once := honce

/-- Nothing happens to the callbacks. -/
lemma congr (h : Kept W n next) (hrequests : n'.requests = n.requests)
    (hpending : n'.pendingCallbacks = n.pendingCallbacks) : Kept W n' next := by
  refine h.still (fun cb id => ?_) ?_
  · rw [RaftNode.Holds, RaftNode.Holds, hrequests, hpending]
  · rw [hrequests, hpending]
    exact h.once

/-- The node lets go of `cb`, and nobody waits for it any more. -/
lemma release (h : Kept W n next) (cb : ℕ)
    (hholds : ∀ c id, n'.Holds c id ↔ n.Holds c id ∧ c ≠ cb)
    (honce : ∀ c id, n'.pendingCallbacks id = some c → n'.requests c = none)
    (hW : ∀ i c id, W' i c id ↔ W i c id ∧ c ≠ cb) : Kept W' n' next where
  held c id hid := by
    obtain ⟨hold, hne⟩ := (hholds c id).mp hid
    obtain ⟨i, hi⟩ := h.held c id hold
    exact ⟨i, (hW i c id).mpr ⟨hi, hne⟩⟩
  awaited i c id hw := by
    obtain ⟨hold, hne⟩ := (hW i c id).mp hw
    obtain ⟨hlt, hid⟩ := h.awaited i c id hold
    exact ⟨hlt, (hholds c id).mpr ⟨hid, hne⟩⟩
  alone i j c id id' hi hj := h.alone i j c id id' ((hW i c id).mp hi).1 ((hW j c id').mp hj).1
  once := honce

/-- The thread with `cb` is gone, and `cb` with it. -/
lemma thread_gone (h : Kept W n next) (ht : n.requests cb = some t)
    (hrequests : n'.requests = Function.update n.requests cb none)
    (hpending : n'.pendingCallbacks = n.pendingCallbacks)
    (hW : ∀ i c id, W' i c id ↔ W i c id ∧ c ≠ cb) : Kept W' n' next := by
  have hnot : ∀ id, n.pendingCallbacks id ≠ some cb := by
    intro id hid
    rw [h.once cb id hid] at ht
    cases ht
  refine h.release cb (fun c id => ?_) (fun c id hid => ?_) hW
  · rw [RaftNode.Holds, RaftNode.Holds, hrequests, hpending]
    by_cases hc : c = cb
    · subst hc
      simp [hnot]
    · simp [hc]
  · rw [hpending] at hid
    rw [hrequests]
    by_cases hc : c = cb
    · simp [hc]
    · simp [hc, h.once c id hid]

/-- A session hands over a request, with a callback that nobody has seen. -/
lemma hand (h : Kept W n next) {i : ℕ} (hi : ∀ cb id, ¬ W i cb id)
    (ht : t.request.requestId = id)
    (hrequests : n'.requests = Function.update n.requests next (some t))
    (hpending : n'.pendingCallbacks = n.pendingCallbacks)
    (hW : ∀ j c id', W' j c id' ↔ W j c id' ∨ j = i ∧ c = next ∧ id' = id) :
    Kept W' n' (next + 1) := by
  have hlt : ∀ c id, n.Holds c id → c < next := by
    intro c id hid
    obtain ⟨j, hj⟩ := h.held c id hid
    exact (h.awaited j c id hj).1
  have hnew : ∀ id, n.pendingCallbacks id ≠ some next :=
    fun id hid => absurd (hlt next id (.inr hid)) (lt_irrefl _)
  have hholds : ∀ c id', n'.Holds c id' ↔ n.Holds c id' ∨ c = next ∧ id' = id := by
    intro c id'
    rw [RaftNode.Holds, RaftNode.Holds, hrequests, hpending]
    by_cases hc : c = next
    · subst hc
      have hfree : n.requests c = none := by
        by_contra hbusy
        obtain ⟨u, hu⟩ := Option.ne_none_iff_exists'.mp hbusy
        exact absurd (hlt c _ (.inl ⟨u, hu, rfl⟩)) (lt_irrefl _)
      simp [hnew, ht, hfree, eq_comm]
    · simp [hc]
  refine ⟨fun c id' hid => ?_, fun j c id' hw => ?_, fun j k c id₁ id₂ hj hk => ?_,
    fun c id' hid => ?_⟩
  · rcases (hholds c id').mp hid with hold | hnew
    · obtain ⟨j, hj⟩ := h.held c id' hold
      exact ⟨j, (hW j c id').mpr (.inl hj)⟩
    · exact ⟨i, (hW i c id').mpr (.inr ⟨rfl, hnew⟩)⟩
  · rcases (hW j c id').mp hw with hold | ⟨-, rfl, rfl⟩
    · obtain ⟨hc, hid⟩ := h.awaited j c id' hold
      exact ⟨hc.trans (Nat.lt_succ_self next), (hholds c id').mpr (.inl hid)⟩
    · exact ⟨Nat.lt_succ_self _, (hholds _ _).mpr (.inr ⟨rfl, rfl⟩)⟩
  · rcases (hW j c id₁).mp hj with hj | ⟨rfl, rfl, rfl⟩
    · rcases (hW k c id₂).mp hk with hk | ⟨-, rfl, -⟩
      · exact h.alone j k c id₁ id₂ hj hk
      · exact absurd (h.awaited j _ id₁ hj).1 (lt_irrefl _)
    · rcases (hW k _ id₂).mp hk with hk | ⟨rfl, -, rfl⟩
      · exact absurd (h.awaited k _ id₂ hk).1 (lt_irrefl _)
      · exact ⟨rfl, rfl⟩
  · rw [hpending] at hid
    have hc : c ≠ next := by
      rintro rfl
      exact hnew id' hid
    rw [hrequests, Function.update_of_ne hc]
    exact h.once c id' hid

/-- The thread with a callback goes on. -/
lemma goOn (h : Kept W n next) {t' : RequestThread} (ht : n.requests cb = some t)
    (hsame : t'.request = t.request)
    (hrequests : n'.requests = Function.update n.requests cb (some t'))
    (hpending : n'.pendingCallbacks = n.pendingCallbacks) : Kept W n' next := by
  refine h.still (fun c id => ?_) (fun c id hid => ?_)
  · rw [RaftNode.Holds, RaftNode.Holds, hrequests, hpending]
    by_cases hc : c = cb
    · subst hc
      simp [ht, hsame]
    · simp [hc]
  · rw [hpending] at hid
    have hc : c ≠ cb := by
      rintro rfl
      rw [h.once c id hid] at ht
      cases ht
    rw [hrequests, Function.update_of_ne hc]
    exact h.once c id hid

/-- The callback goes from the thread to the map. -/
lemma store (h : Kept W n next) (ht : n.requests cb = some t)
    (hfree : n.pendingCallbacks t.request.requestId = none)
    (hrequests : n'.requests = Function.update n.requests cb none)
    (hpending : n'.pendingCallbacks =
      Function.update n.pendingCallbacks t.request.requestId (some cb)) : Kept W n' next := by
  have hnot : ∀ id, n.pendingCallbacks id ≠ some cb := by
    intro id hid
    rw [h.once cb id hid] at ht
    cases ht
  refine h.still (fun c id => ?_) (fun c id hid => ?_)
  · rw [RaftNode.Holds, RaftNode.Holds, hrequests, hpending]
    by_cases hc : c = cb
    · subst hc
      by_cases hid : id = t.request.requestId
      · simp [hid, ht]
      · simp [hid, ht, hnot, Ne.symm hid]
    · by_cases hid : id = t.request.requestId
      · simp [hid, hc, hfree, Ne.symm hc]
      · simp [hid, hc]
  · rw [hpending] at hid
    rw [hrequests]
    by_cases hc : c = cb
    · simp [hc]
    · rw [Function.update_of_ne hc]
      by_cases heq : id = t.request.requestId
      · subst heq
        exact absurd (by simpa using hid) (Ne.symm hc)
      · exact h.once c id (by simpa [heq] using hid)

/-- The executor takes the callback out of the map, if there is one. -/
lemma report (h : Kept W n next) (hrequests : n'.requests = n.requests)
    (hpending : n'.pendingCallbacks = Function.update n.pendingCallbacks id none)
    (hW : ∀ i c id', W' i c id' ↔ W i c id' ∧ n.pendingCallbacks id ≠ some c) :
    Kept W' n' next := by
  have honce : ∀ c id', n'.pendingCallbacks id' = some c → n'.requests c = none := by
    intro c id' hid
    rw [hpending] at hid
    rw [hrequests]
    by_cases heq : id' = id
    · simp [heq] at hid
    · exact h.once c id' (by simpa [heq] using hid)
  cases hstored : n.pendingCallbacks id with
  | none =>
      have hsame : n'.pendingCallbacks = n.pendingCallbacks := by
        rw [hpending, ← hstored, Function.update_eq_self]
      have hW' : W' = W := by
        funext i c id'
        simp [hW, hstored]
      rw [hW']
      exact h.congr hrequests hsame
  | some cb =>
      refine h.release cb (fun c id' => ?_) honce fun i c id' => ?_
      · rw [RaftNode.Holds, RaftNode.Holds, hrequests, hpending]
        by_cases hc : c = cb
        · subst hc
          have hnot : id' ≠ id → n.pendingCallbacks id' ≠ some c :=
            fun hne hid => hne (h.same (.inr hid) (.inr hstored))
          by_cases heq : id' = id
          · simp [heq, h.once c id hstored]
          · simp [heq, h.once c id hstored, hnot heq]
        · by_cases heq : id' = id
          · simp [heq, hc, hstored, Ne.symm hc]
          · simp [heq, hc]
      · rw [hW, hstored, ne_eq, Option.some_inj, eq_comm (a := cb)]

end Kept

/-! ## One session -/

namespace Session

variable {parse : Bytes → Option ClientRequest} {s : Session} {cb : ℕ} {id piece : Bytes}
  {resp : ClientResponse} {req : ClientRequest} {rest : List Bytes}

/-- The session waits for `cb`, and the id of its last request is `id`. -/
def Awaits (s : Session) (cb : ℕ) (id : Bytes) : Prop :=
  s.stage = .waiting cb ∧ s.asked.getLast?.map ClientRequest.requestId = some id

/-- **A session serves its client in order.**  The requests handed to the node are those framed at
the beginning of what has arrived; the responses written are for the first of them, one for each,
and at most one is outstanding. -/
structure InOrder (parse : Bytes → Option ClientRequest) (s : Session) : Prop where
  read : ∃ (bodies : List Bytes) (lost : Bytes),
    (∀ b ∈ bodies, b.length ≤ TcpConnection.maxBodyLen) ∧ bodies.map parse = s.asked.map some ∧
      bodies.flatMap frame ++ s.unread.flatten ++ lost = s.arrived ∧ (s.ended = false → lost = [])
  answers : s.answers.map Prod.fst <+: s.asked.map ClientRequest.requestId
  sent : s.sent = s.answers.flatMap fun p => TcpConnection.sendFrame p.2.serialize
  reading : s.stage = .reading → s.answers.length = s.asked.length
  waiting : ∀ cb, s.stage = .waiting cb → s.asked.length = s.answers.length + 1
  outstanding : s.asked.length ≤ s.answers.length + 1

/-- What a completed read has found. -/
lemma read?_eq_request (hread : s.read? parse = some (.request req rest)) :
    ∃ body, TcpConnection.readMessage s.unread = .ok (body, rest) ∧ parse body = some req := by
  unfold Session.read? at hread
  split at hread
  · rename_i hmessage
    split at hread
    · rename_i hparse
      cases hread
      exact ⟨_, hmessage, hparse⟩
    · cases hread
  · cases hread
  · split at hread <;> cases hread

namespace InOrder

lemma start : Session.start.InOrder parse where
  read := ⟨[], [], by simp, rfl, rfl, fun _ => rfl⟩
  answers := List.nil_prefix
  sent := rfl
  reading _ := rfl
  waiting _ h := by cases h
  outstanding := Nat.zero_le _

/-- What is read and answered stays as it is. -/
lemma stream (h : s.InOrder parse) {s' : Session} (hstage : s'.stage = s.stage)
    (hsent : s'.sent = s.sent) (hasked : s'.asked = s.asked) (hanswers : s'.answers = s.answers)
    (hread : ∀ bodies lost, bodies ++ s.unread.flatten ++ lost = s.arrived →
      (s.ended = false → lost = []) →
        ∃ lost', bodies ++ s'.unread.flatten ++ lost' = s'.arrived ∧
          (s'.ended = false → lost' = [])) : s'.InOrder parse where
  read := by
    obtain ⟨bodies, lost, hlen, hparse, harrived, hlost⟩ := h.read
    obtain ⟨lost', harrived', hlost'⟩ := hread _ lost harrived hlost
    exact ⟨bodies, lost', hlen, hasked ▸ hparse, harrived', hlost'⟩
  answers := by
    rw [hanswers, hasked]
    exact h.answers
  sent := by
    rw [hsent, hanswers]
    exact h.sent
  reading := by
    rw [hstage, hanswers, hasked]
    exact h.reading
  waiting := by
    rw [hstage, hanswers, hasked]
    exact h.waiting
  outstanding := by
    rw [hanswers, hasked]
    exact h.outstanding

lemma arrive (h : s.InOrder parse) (hended : s.ended = false) :
    InOrder parse { s with unread := s.unread ++ [piece], arrived := s.arrived ++ piece } :=
  h.stream rfl rfl rfl rfl fun bodies lost harrived hlost => by
    refine ⟨[], ?_, fun _ => rfl⟩
    rw [← harrived, hlost hended]
    simp

lemma hangUp (h : s.InOrder parse) : InOrder parse { s with ended := true } :=
  h.stream rfl rfl rfl rfl fun _ lost harrived _ => ⟨lost, harrived, fun h => by cases h⟩

lemma reset (h : s.InOrder parse) : InOrder parse { s with ended := true, unread := [] } :=
  h.stream rfl rfl rfl rfl fun bodies lost harrived _ => by
    refine ⟨s.unread.flatten ++ lost, ?_, fun h => by cases h⟩
    rw [← harrived]
    simp

lemma close (h : s.InOrder parse) : s.close.InOrder parse where
  read := h.read
  answers := h.answers
  sent := h.sent
  reading h := by cases h
  waiting _ h := by cases h
  outstanding := h.outstanding

lemma drop (h : s.InOrder parse) : (s.drop cb).InOrder parse := by
  unfold Session.drop
  split
  · exact h.close
  · exact h

/-- The session reads a request and waits. -/
lemma hand (h : s.InOrder parse) (hstage : s.stage = .reading)
    (hread : s.read? parse = some (.request req rest)) :
    (s.wait cb req rest).InOrder parse where
  read := by
    obtain ⟨bodies, lost, hlen, hparse, harrived, hlost⟩ := h.read
    obtain ⟨body, hmessage, hreq⟩ := read?_eq_request hread
    obtain ⟨hbody, hunread⟩ := TcpConnection.readMessage_eq_ok hmessage
    refine ⟨bodies ++ [body], lost, ?_, ?_, ?_, hlost⟩
    · simpa [or_imp, forall_and] using ⟨hlen, hbody⟩
    · simp [Session.wait, hparse, hreq]
    · show _ ++ rest.flatten ++ lost = s.arrived
      rw [← harrived, hunread]
      simp
  answers := by
    show _ <+: (s.asked ++ [req]).map _
    rw [List.map_append]
    exact h.answers.trans (List.prefix_append _ _)
  sent := h.sent
  reading h := by cases h
  waiting _ _ := by
    show (s.asked ++ [req]).length = s.answers.length + 1
    rw [List.length_append, h.reading hstage]
    rfl
  outstanding := by
    show (s.asked ++ [req]).length ≤ s.answers.length + 1
    rw [List.length_append, h.reading hstage]
    rfl

/-- The session writes the response to its last request and reads on. -/
lemma answer (h : s.InOrder parse) (hawaits : s.stage = .waiting cb → s.Awaits cb id) :
    (s.answer cb id resp).InOrder parse := by
  unfold Session.answer
  split
  · rename_i hstage
    obtain ⟨-, hlast⟩ := hawaits hstage
    have hlength := h.waiting cb hstage
    obtain ⟨req, hreq, rfl⟩ := Option.map_eq_some_iff.mp hlast
    obtain ⟨init, hinit⟩ := List.getLast?_eq_some_iff.mp hreq
    -- all requests but the last one have been answered before
    have hbefore : s.answers.map Prod.fst = init.map ClientRequest.requestId := by
      have hprefix := h.answers
      rw [hinit, List.map_append] at hprefix
      have hsame : (s.answers.map Prod.fst).length = (init.map ClientRequest.requestId).length := by
        rw [hinit, List.length_append] at hlength
        simpa using hlength.symm
      exact (List.prefix_of_prefix_length_le hprefix (List.prefix_append _ _)
        hsame.le).eq_of_length hsame
    have hcount : (s.answers ++ [(req.requestId, resp)]).length = s.asked.length := by
      rw [hlength, List.length_append]
      rfl
    refine ⟨h.read, ?_, ?_, fun _ => hcount, fun c hc => (by cases hc), ?_⟩
    · rw [List.map_append, hbefore, hinit, List.map_append]
      exact List.prefix_rfl
    · rw [h.sent, List.flatMap_append]
      simp
    · rw [hcount]
      exact Nat.le_succ _
  · exact h

end InOrder

end Session

/-! ## All sessions -/

namespace Gateway

variable {parse : Bytes → Option ClientRequest} {g g' : Gateway} {s s' : Session} {i cb : ℕ}
  {id : Bytes} {resp : ClientResponse}

/-- Session `i` waits for `cb`, and the id of its last request is `id`. -/
def Awaits (g : Gateway) (i cb : ℕ) (id : Bytes) : Prop :=
  ∃ s, g.sessions i = some s ∧ s.Awaits cb id

/-- The callbacks the node holds are those that sessions wait for, and every session serves its
client in order. -/
structure Inv (parse : Bytes → Option ClientRequest) (g : Gateway) : Prop where
  kept : Kept g.Awaits g.node g.nextCallback
  inOrder : ∀ i s, g.sessions i = some s → s.InOrder parse

lemma inv_start (config : ClusterConfig) (store : RocksDBStore) :
    (start config store).Inv parse where
  kept := .new config store fun _ _ _ h => by
    obtain ⟨s, hs, -⟩ := h
    cases hs
  inOrder _ _ h := by cases h

lemma awaits_setSession {j : ℕ} :
    (g.setSession i s').Awaits j cb id ↔
      j = i ∧ s'.Awaits cb id ∨ j ≠ i ∧ g.Awaits j cb id := by
  unfold Awaits setSession
  by_cases hj : j = i
  · subst hj
    simp
  · simp [hj]

/-- A session waits for the callback that a thread of the node holds for it. -/
lemma Inv.awaits (h : g.Inv parse) (hs : g.sessions i = some s) (hstage : s.stage = .waiting cb)
    (hid : g.node.Holds cb id) : s.Awaits cb id := by
  -- it has asked for something
  have hlength := (h.inOrder i s hs).waiting cb hstage
  have hne : s.asked ≠ [] := by
    intro hnil
    rw [hnil] at hlength
    cases hlength
  have hlast : s.Awaits cb (s.asked.getLast hne).requestId := by
    refine ⟨hstage, ?_⟩
    rw [List.getLast?_eq_getLast_of_ne_nil hne, Option.map_some]
  have hheld := (h.kept.awaited i cb _ ⟨s, hs, hlast⟩).2
  rwa [h.kept.same hid hheld]

/-- A session is replaced by one that waits for the same. -/
lemma Inv.setSession (h : g.Inv parse) (hs' : s'.InOrder parse)
    (hsame : ∀ cb id, s'.Awaits cb id ↔ g.Awaits i cb id) : (g.setSession i s').Inv parse where
  kept := by
    have hawaits : (g.setSession i s').Awaits = g.Awaits := by
      funext j cb id
      rw [awaits_setSession, hsame]
      by_cases hj : j = i <;> simp [hj]
    rw [hawaits]
    exact h.kept
  inOrder j t ht := by
    by_cases hj : j = i
    · subst hj
      obtain rfl : s' = t := by simpa [Gateway.setSession] using ht
      exact hs'
    · exact h.inOrder j t (by simpa [Gateway.setSession, hj] using ht)

/-- A session that is there is replaced. -/
lemma Inv.replace (h : g.Inv parse) (hs : g.sessions i = some s) (hs' : s'.InOrder parse)
    (hsame : ∀ cb id, s'.Awaits cb id ↔ s.Awaits cb id) : (g.setSession i s').Inv parse := by
  refine h.setSession hs' fun cb id => ?_
  rw [hsame, Awaits, hs]
  simp

/-- The sessions that wait for `cb` wait no more. -/
lemma awaits_mapSessions {f : Session → Session} {c : ℕ}
    (hf : ∀ s : Session, ∀ cb id, (f s).Awaits cb id ↔ s.Awaits cb id ∧ cb ≠ c) :
    (g.mapSessions f).Awaits i cb id ↔ g.Awaits i cb id ∧ cb ≠ c := by
  unfold Awaits mapSessions
  cases hs : g.sessions i with
  | none => simp [hs]
  | some s => simp [hs, hf]

/-- A session that has waited for `c` waits no more. -/
lemma awaits_of_stage {c : ℕ} (hs : s.stage = .waiting c) (hs' : ∀ cb, s'.stage ≠ .waiting cb) :
    s'.Awaits cb id ↔ s.Awaits cb id ∧ cb ≠ c := by
  constructor
  · exact fun h => absurd h.1 (hs' cb)
  · rintro ⟨⟨hcb, -⟩, hne⟩
    rw [hs] at hcb
    cases hcb
    exact absurd rfl hne

/-- A session that does not wait for `c` waits for what it does. -/
lemma awaits_of_other {c : ℕ} (hs : s.stage ≠ .waiting c) :
    s.Awaits cb id ↔ s.Awaits cb id ∧ cb ≠ c := by
  refine ⟨fun h => ⟨h, ?_⟩, And.left⟩
  rintro rfl
  exact hs h.1

lemma awaits_answer (s : Session) (c : ℕ) (id' : Bytes) :
    (s.answer c id' resp).Awaits cb id ↔ s.Awaits cb id ∧ cb ≠ c := by
  unfold Session.answer
  split
  · rename_i hstage
    exact awaits_of_stage hstage fun _ h => by cases h
  · rename_i hstage
    exact awaits_of_other hstage

lemma awaits_drop (s : Session) (c : ℕ) :
    (s.drop c).Awaits cb id ↔ s.Awaits cb id ∧ cb ≠ c := by
  unfold Session.drop
  split
  · rename_i hstage
    exact awaits_of_stage hstage fun _ h => by cases h
  · rename_i hstage
    exact awaits_of_other hstage

/-- **A response goes to the session that has asked for it**: the node has let go of the callback,
and invokes it for the request it has held it for. -/
lemma Inv.invoke (h : g.Inv parse) {n : RaftNode} (hid : g.node.Holds cb id)
    (hkept : ∀ W : ℕ → ℕ → Bytes → Prop,
      (∀ i c id, W i c id ↔ g.Awaits i c id ∧ c ≠ cb) → Kept W n g.nextCallback) :
    Inv parse (mapSessions { g with node := n } (.answer cb id resp)) where
  kept := hkept _ fun _ _ _ => awaits_mapSessions fun _ _ _ => awaits_answer _ _ _
  inOrder i s hs := by
    obtain ⟨t, ht, rfl⟩ := Option.map_eq_some_iff.mp hs
    exact (h.inOrder i t ht).answer fun hstage => h.awaits ht hstage hid

/-- The other steps of the node. -/
lemma Inv.withNode (h : g.Inv parse) {n : RaftNode} (hkept : Kept g.Awaits n g.nextCallback) :
    Inv parse { g with node := n } where
  kept := hkept
  inOrder := h.inOrder

lemma deliver_of_quiet {n : RaftNode} {a : ThreadStep} {out : Output}
    (hout : ∀ cb resp, out ≠ .response cb resp) : g.deliver n a out = g := by
  cases out with
  | response cb resp => exact absurd rfl (hout cb resp)
  | _ => rfl

/-- Thread steps of the node. -/
lemma Inv.thread (h : g.Inv parse) {a : ThreadStep} {n : RaftNode} {out : Output}
    (hmove : g.node.CallbackMove a n out) :
    Inv parse ((deliver { g with node := n } g.node a out).release (g.node.drops a)) := by
  cases hmove with
  | still hrequests hpending hout hdrops =>
      rw [deliver_of_quiet hout, hdrops]
      exact h.withNode (h.kept.congr hrequests hpending)
  | goOn ht hsame hrequests hpending hout hdrops =>
      subst hout
      rw [hdrops]
      exact h.withNode (h.kept.goOn ht hsame hrequests hpending)
  | answer ht hrequests hpending hout hserved hdrops =>
      subst hout
      rw [hdrops, deliver, hserved]
      exact h.invoke (.inl ⟨_, ht, rfl⟩) fun W hW => h.kept.thread_gone ht hrequests hpending hW
  | store ht hfree hrequests hpending hout hdrops =>
      subst hout
      rw [hdrops]
      exact h.withNode (h.kept.store ht hfree hrequests hpending)
  | @drop cb t ht hrequests hpending hout hdrops =>
      subst hout
      rw [hdrops]
      refine ⟨h.kept.thread_gone ht hrequests hpending fun _ _ _ =>
        awaits_mapSessions fun _ _ _ => awaits_drop _ _, fun i s hs => ?_⟩
      obtain ⟨t, ht, rfl⟩ := Option.map_eq_some_iff.mp hs
      exact (h.inOrder i t ht).drop
  | @report id resp hrequests hpending hout hserved hdrops =>
      subst hout
      rw [hdrops]
      cases hstored : g.node.pendingCallbacks id with
      | none =>
          have hsame : n.pendingCallbacks = g.node.pendingCallbacks := by
            rw [hpending, ← hstored, Function.update_eq_self]
          exact h.withNode (h.kept.congr hrequests hsame)
      | some cb =>
          rw [Option.elim_some, deliver, hserved]
          refine h.invoke (.inr hstored) fun W hW => h.kept.report hrequests hpending ?_
          intro i c id'
          rw [hW, hstored, ne_eq, ne_eq, Option.some_inj, eq_comm (a := c)]

/-- A session hands a request over. -/
lemma Inv.handed (h : g.Inv parse) (hs : g.sessions i = some s) (hstage : s.stage = .reading)
    {req : ClientRequest} {rest : List Bytes} (hread : s.read? parse = some (.request req rest)) :
    Inv parse
      { g.setSession i (s.wait g.nextCallback req rest) with
        node := { g.node with
          requests := Function.update g.node.requests g.nextCallback (some (.checked req)) }
        nextCallback := g.nextCallback + 1 } where
  kept := by
    have hidle : ∀ cb id, ¬ g.Awaits i cb id := by
      rintro cb id ⟨t, ht, hwait, -⟩
      rw [hs] at ht
      cases ht
      rw [hstage] at hwait
      cases hwait
    refine h.kept.hand hidle rfl rfl rfl fun j c id => awaits_setSession.trans ?_
    have hnew : (s.wait g.nextCallback req rest).Awaits c id ↔
        c = g.nextCallback ∧ id = req.requestId := by
      simp [Session.Awaits, Session.wait, eq_comm]
    rw [hnew]
    by_cases hj : j = i
    · subst hj
      simp [hidle, RequestThread.request]
    · simp [hj]
  inOrder j t ht := by
    by_cases hj : j = i
    · subst hj
      obtain rfl : s.wait g.nextCallback req rest = t := by
        simpa only [Gateway.setSession, Function.update_self, Option.some.injEq] using ht
      exact (h.inOrder j s hs).hand hstage hread
    · exact h.inOrder j t (by simpa [Gateway.setSession, hj] using ht)

/-- A session hands a request over, and may be answered at once. -/
lemma Inv.hand (h : g.Inv parse) (hs : g.sessions i = some s) (hstage : s.stage = .reading)
    {req : ClientRequest} {rest : List Bytes} (hread : s.read? parse = some (.request req rest))
    (hg : g.hand i s req rest = some g') : g'.Inv parse := by
  obtain ⟨⟨n, out⟩, hn, rfl⟩ := Option.map_eq_some_iff.mp hg
  have hhanded := h.handed hs hstage hread
  cases RaftNode.move_of_step hn with
  | clientRefused hfree hrole =>
      -- as if the thread had come in, and been refused then
      refine hhanded.invoke (n := g.node) (.inl ⟨.checked req, Function.update_self .., rfl⟩)
        fun W hW => hhanded.kept.thread_gone (Function.update_self ..) ?_ rfl hW
      rw [Function.update_idem, ← hfree, Function.update_eq_self]
  | clientRequest => exact hhanded

/-- **Every step keeps the invariant.** -/
theorem Inv.step (h : g.Inv parse) {l : GatewayLabel} (hstep : g.step parse l = some g') :
    g'.Inv parse := by
  cases l with
  | accept i =>
      simp only [Gateway.step] at hstep
      split at hstep
      · rename_i hnew
        cases hstep
        refine h.setSession .start fun cb id => ?_
        simp [Gateway.Awaits, Session.Awaits, Session.start, hnew]
      · cases hstep
  | arrive i piece =>
      simp only [Gateway.step] at hstep
      split at hstep
      · rename_i s hs
        split at hstep
        · cases hstep
        · rename_i hended
          cases hstep
          exact h.replace hs ((h.inOrder i s hs).arrive (by simpa using hended)) fun _ _ => .rfl
      · cases hstep
  | hangUp i =>
      obtain ⟨s, hs, rfl⟩ := Option.map_eq_some_iff.mp hstep
      exact h.replace hs (h.inOrder i s hs).hangUp fun _ _ => .rfl
  | reset i =>
      obtain ⟨s, hs, rfl⟩ := Option.map_eq_some_iff.mp hstep
      exact h.replace hs (h.inOrder i s hs).reset fun _ _ => .rfl
  | read i =>
      simp only [Gateway.step] at hstep
      split at hstep
      · rename_i s hs
        split at hstep
        · rename_i hstage
          split at hstep
          · rename_i hread
            exact h.hand hs hstage hread hstep
          · cases hstep
            refine h.replace hs (h.inOrder i s hs).close fun cb id => ?_
            simp [Session.Awaits, Session.close, hstage]
          · cases hstep
        · cases hstep
      · cases hstep
  | node l =>
      cases l with
      | thread call a =>
          simp only [Gateway.step] at hstep
          split at hstep
          · rename_i hhands
            obtain ⟨⟨n, out⟩, hn, rfl⟩ := Option.map_eq_some_iff.mp hstep
            exact h.thread ((RaftNode.move_of_step hn).callbackMove hhands)
          · cases hstep
      | handle request =>
          cases hstep
          obtain ⟨-, -, -, hpending, -, -, -, -, hrequests⟩ :=
            RaftNode.threads_inj (RaftNode.handle_threads g.node request)
          exact h.withNode (h.kept.congr hrequests hpending)
      | receive dst request reply =>
          cases hstep
          obtain ⟨-, -, hpending, -⟩ :=
            RaftNode.logView_inj (RaftNode.logView_receive g.node dst request reply)
          exact h.withNode
            (h.kept.congr (RaftNode.receive_frame g.node dst request reply).2.1 hpending)
      | abandon dst request =>
          cases hstep
          refine h.withNode (h.kept.congr ?_ ?_) <;> cases request <;> rfl
      | restart =>
          cases hstep
          refine ⟨.new _ _ fun i cb id hawaits => ?_, fun i s hs => ?_⟩
          · obtain ⟨s, hs, hwait, -⟩ := hawaits
            obtain ⟨t, -, rfl⟩ := Option.map_eq_some_iff.mp hs
            cases hwait
          · obtain ⟨t, ht, rfl⟩ := Option.map_eq_some_iff.mp hs
            exact (h.inOrder i t ht).close

/-! ## Where the responses come from -/

/-- The step of a thread of the node that a step takes. -/
def threadStep? (parse : Bytes → Option ClientRequest) (g : Gateway) :
    GatewayLabel → Option (ℕ × ThreadStep)
  | .read i =>
      match (g.sessions i).bind (Session.read? parse) with
      | some (.request req _) => some (0, .clientRequest g.nextCallback req)
      | _ => none
  | .node (.thread call a) => some (call, a)
  | _ => none

/-- The node sends the response `p.2`, to a request with the id `p.1`. -/
def Responds (parse : Bytes → Option ClientRequest) (g : Gateway) (l : GatewayLabel)
    (p : Bytes × ClientResponse) : Prop :=
  ∃ call a, g.threadStep? parse l = some (call, a) ∧ g.node.response? call a = some p

variable {p : Bytes × ClientResponse} {n : RaftNode} {a : ThreadStep} {out : Output}

/-- Every response is to some request. -/
lemma served_of_response {call : ℕ} (hn : g.node.step call a = some (n, .response cb resp)) :
    g.node.response? call a = some ((g.node.servedId? a).getD [], resp) := by
  have hserved : ∃ id, g.node.servedId? a = some id := by
    generalize hout : Output.response cb resp = out at hn
    cases RaftNode.move_of_step hn with
    | clientRefused => exact ⟨_, rfl⟩
    | lookupFound hreq | appendRefused hreq => exact ⟨_, by rw [RaftNode.servedId?, hreq]; rfl⟩
    | notifyClient hex => exact ⟨_, by rw [RaftNode.servedId?, hex]⟩
    | _ => cases hout
  obtain ⟨id, hid⟩ := hserved
  simp only [RaftNode.response?, hn, hid, Option.map_some, Option.getD_some]

/-- A response that has been delivered was written before, or is the node's. -/
lemma answers_deliver (hs : (g.deliver n a out).sessions i = some s') (hp : p ∈ s'.answers) :
    (∃ s, g.sessions i = some s ∧ p ∈ s.answers) ∨
      ∃ cb resp, out = .response cb resp ∧ p = ((n.servedId? a).getD [], resp) := by
  cases out with
  | response cb resp =>
      obtain ⟨s, hi, rfl⟩ := Option.map_eq_some_iff.mp hs
      unfold Session.answer at hp
      split at hp
      · rcases List.mem_append.mp hp with hp | hp
        · exact .inl ⟨s, hi, hp⟩
        · exact .inr ⟨cb, resp, rfl, List.mem_singleton.mp hp⟩
      · exact .inl ⟨s, hi, hp⟩
  | none => exact .inl ⟨s', hs, hp⟩
  | call dst request => exact .inl ⟨s', hs, hp⟩

lemma answers_release {cb? : Option ℕ} (hs : (g.release cb?).sessions i = some s')
    (hp : p ∈ s'.answers) : ∃ s, g.sessions i = some s ∧ p ∈ s.answers := by
  cases cb? with
  | none => exact ⟨s', hs, hp⟩
  | some cb =>
      obtain ⟨s, hi, rfl⟩ := Option.map_eq_some_iff.mp hs
      unfold Session.drop at hp
      split at hp <;> exact ⟨s, hi, hp⟩

/-- A session whose answers are those of another one is put in its place. -/
lemma answers_setSession {j : ℕ} (hs : (g.setSession i s).sessions j = some s')
    (hp : p ∈ s'.answers)
    (hanswers : ∀ p ∈ s.answers, ∃ t, g.sessions i = some t ∧ p ∈ t.answers) :
    ∃ t, g.sessions j = some t ∧ p ∈ t.answers := by
  by_cases hj : j = i
  · subst hj
    obtain rfl : s = s' := by simpa [setSession] using hs
    exact hanswers p hp
  · exact ⟨s', by simpa [setSession, hj] using hs, hp⟩

/-- **One step writes no response but that of the node.** -/
lemma answers_of_step {l : GatewayLabel} (hstep : g.step parse l = some g')
    (hs : g'.sessions i = some s') (hp : p ∈ s'.answers) :
    (∃ s, g.sessions i = some s ∧ p ∈ s.answers) ∨ g.Responds parse l p := by
  cases l with
  | accept j =>
      simp only [Gateway.step] at hstep
      split at hstep
      · cases hstep
        exact .inl (answers_setSession hs hp fun _ h => by cases h)
      · cases hstep
  | arrive j piece =>
      simp only [Gateway.step] at hstep
      split at hstep
      · rename_i s hj
        split at hstep
        · cases hstep
        · cases hstep
          exact .inl (answers_setSession hs hp fun _ h => ⟨s, hj, h⟩)
      · cases hstep
  | hangUp j =>
      obtain ⟨s, hj, rfl⟩ := Option.map_eq_some_iff.mp hstep
      exact .inl (answers_setSession hs hp fun _ h => ⟨s, hj, h⟩)
  | reset j =>
      obtain ⟨s, hj, rfl⟩ := Option.map_eq_some_iff.mp hstep
      exact .inl (answers_setSession hs hp fun _ h => ⟨s, hj, h⟩)
  | read j =>
      simp only [Gateway.step] at hstep
      split at hstep
      · rename_i s hj
        split at hstep
        · split at hstep
          · rename_i req rest hread
            obtain ⟨⟨n, out⟩, hn, rfl⟩ := Option.map_eq_some_iff.mp hstep
            rcases answers_deliver hs hp with ⟨t, ht, hpt⟩ | ⟨cb, resp, rfl, rfl⟩
            · exact .inl (answers_setSession ht hpt fun _ h => ⟨s, hj, h⟩)
            · refine .inr ⟨0, .clientRequest g.nextCallback req, ?_, served_of_response hn⟩
              simp [threadStep?, hj, hread]
          · cases hstep
            exact .inl (answers_setSession hs hp fun _ h => ⟨s, hj, h⟩)
          · cases hstep
        · cases hstep
      · cases hstep
  | node l =>
      cases l with
      | thread call a =>
          simp only [Gateway.step] at hstep
          split at hstep
          · obtain ⟨⟨n, out⟩, hn, rfl⟩ := Option.map_eq_some_iff.mp hstep
            obtain ⟨t, ht, hpt⟩ := answers_release hs hp
            rcases answers_deliver ht hpt with hold | ⟨cb, resp, rfl, rfl⟩
            · exact .inl hold
            · exact .inr ⟨call, a, rfl, served_of_response hn⟩
          · cases hstep
      | handle request | receive dst request reply | abandon dst request =>
          cases hstep
          exact .inl ⟨s', hs, hp⟩
      | restart =>
          cases hstep
          obtain ⟨s, hi, rfl⟩ := Option.map_eq_some_iff.mp hs
          exact .inl ⟨s, hi, hp⟩

/-! ## Runs -/

variable {config : ClusterConfig} {store : RocksDBStore} {ls : List GatewayLabel}

/-- The runs of a node and its sessions, with any clients. -/
def GatewayRun (parse : Bytes → Option ClientRequest) :
    Gateway → List GatewayLabel → Gateway → Prop :=
  Transition.Run (step parse) fun _ _ => True

/-- The run has taken a step in which the node sends `p.2` to a request with the id `p.1`. -/
def Responded (parse : Bytes → Option ClientRequest) (g : Gateway) (ls : List GatewayLabel)
    (g' : Gateway) (p : Bytes × ClientResponse) : Prop :=
  Transition.Took (step parse) (fun _ _ => True) g ls g' fun u l => u.Responds parse l p

lemma inv_of_run (hrun : GatewayRun parse (start config store) ls g) : g.Inv parse :=
  Transition.Run.invariant hrun (inv_start config store) fun _ _ _ h _ hstep => h.step hstep

/-- Every response that is written comes from the node. -/
lemma responded_of_run (hrun : GatewayRun parse (start config store) ls g) :
    ∀ i s, g.sessions i = some s → ∀ p ∈ s.answers,
      Responded parse (start config store) ls g p := by
  induction hrun with
  | nil => exact fun _ _ h => by cases h
  | snoc hrun hok hstep ih =>
      intro i s hs p hp
      rcases answers_of_step hstep hs hp with ⟨t, ht, hpt⟩ | hresponds
      · exact (ih i t ht p hpt).snoc hok hstep
      · exact hrun.took hok hstep hresponds

end Gateway

open Gateway

section Runs

variable {parse : Bytes → Option ClientRequest} {config : ClusterConfig} {store : RocksDBStore}
  {ls : List GatewayLabel} {g : Gateway} {i : ℕ} {s : Session} {req : ClientRequest}
  {stream rest : List Bytes} {reply : Bytes}

/-- **Sessions serve their clients in order**, in every run of a node, with any number of sessions
and whatever arrives there: the requests of a session are handed over in the order in which they
arrive, one at a time, and answered in that order; each response comes from the node, as the one to
the request at its place; and a session that waits is the only one that waits for its callback,
which the node holds for its last request. -/
theorem gateway_serves (hrun : GatewayRun parse (start config store) ls g)
    (hs : g.sessions i = some s) :
    s.InOrder parse ∧
      (∀ p ∈ s.answers, Responded parse (start config store) ls g p) ∧
      ∀ cb, s.stage = .waiting cb →
        (∃ req, s.asked.getLast? = some req ∧ g.node.Holds cb req.requestId) ∧
          ∀ j t, g.sessions j = some t → t.stage = .waiting cb → j = i := by
  have hinv := inv_of_run hrun
  refine ⟨hinv.inOrder i s hs, responded_of_run hrun i s hs, fun cb hstage => ?_⟩
  have hawaits : ∀ j t, g.sessions j = some t → t.stage = .waiting cb →
      ∃ req, t.asked.getLast? = some req ∧ g.Awaits j cb req.requestId := by
    intro j t ht hwait
    have hlength := (hinv.inOrder j t ht).waiting cb hwait
    have hne : t.asked ≠ [] := List.ne_nil_of_length_pos (by omega)
    refine ⟨_, List.getLast?_eq_getLast_of_ne_nil hne, t, ht, hwait, ?_⟩
    rw [List.getLast?_eq_getLast_of_ne_nil hne, Option.map_some]
  obtain ⟨req, hreq, hi⟩ := hawaits i s hs hstage
  refine ⟨⟨req, hreq, (hinv.kept.awaited i cb _ hi).2⟩, fun j t ht hwait => ?_⟩
  obtain ⟨req', -, hj⟩ := hawaits j t ht hwait
  exact (hinv.kept.alone j i cb _ _ hj hi).1

/-- Requests that have been framed in what arrives are the first of those that are sent. -/
lemma Session.InOrder.asked_of_client {reqs : List ClientRequest} (h : s.InOrder parse)
    (hparse : ∀ r ∈ reqs, parse r.serialize = some r)
    (hlen : ∀ r ∈ reqs, r.serialize.length ≤ TcpConnection.maxBodyLen)
    (harrived : s.arrived <+: reqs.flatMap fun r => RaftClient.commandFrame r.serialize) :
    s.asked <+: reqs := by
  obtain ⟨bodies, lost, hbodies, hasked, hread, -⟩ := h.read
  have hlt : ∀ r ∈ reqs, r.serialize.length < 2 ^ 32 :=
    fun r hr => (hlen r hr).trans_lt maxBodyLen_lt
  have hframes : (reqs.flatMap fun r => RaftClient.commandFrame r.serialize) =
      (reqs.map ClientRequest.serialize).flatMap frame := by
    rw [List.flatMap_map]
    exact List.flatMap_congr fun r hr => Writer.raftClient.frame_eq (hlt r hr)
  rw [hframes, ← hread, List.append_assoc] at harrived
  have hprefix : bodies <+: reqs.map ClientRequest.serialize := by
    refine isPrefix_of_frames (fun b hb => (hbodies b hb).trans_lt maxBodyLen_lt) ?_
      ((List.prefix_append _ _).trans harrived)
    simpa using hlt
  have hmap : s.asked.map some <+: reqs.map some := by
    have hall : (reqs.map ClientRequest.serialize).map parse = reqs.map some := by
      rw [List.map_map]
      exact List.map_congr_left hparse
    rw [← hasked, ← hall]
    exact hprefix.map _
  exact (List.prefix_map_iff_of_injective (Option.some_injective _)).mp hmap

/-- **A client reads the response to its own request, or none.**  The client has sent one request
over its connection, of which any part may have arrived, and has received any part of what has been
written there.  If it reads a message, then this is the only response of its session, to a request
with this id, and it is what the node has sent. -/
theorem client_reads_own_answer (hrun : GatewayRun parse (start config store) ls g)
    (hs : g.sessions i = some s) (hparse : parse req.serialize = some req)
    (hlen : req.serialize.length ≤ TcpConnection.maxBodyLen)
    (harrived : s.arrived <+: RaftClient.commandFrame req.serialize)
    (hvalid : ∀ p ∈ s.answers, p.2.Valid) (hstream : stream.flatten <+: s.sent)
    (hread : RaftClient.readReply stream = some (reply, rest)) :
    s.asked = [req] ∧ s.answers = [(req.requestId, ClientResponse.parse reply)] ∧
      Responded parse (start config store) ls g (req.requestId, ClientResponse.parse reply) := by
  obtain ⟨hord, hresponded, -⟩ := gateway_serves hrun hs
  have hasked : s.asked <+: [req] := hord.asked_of_client (by simpa using hparse)
    (by simpa using hlen) (by simpa using harrived)
  obtain ⟨hreply, hbytes⟩ := RaftClient.readReply_eq_some hread
  have hsent := hord.sent
  have hids := hord.answers
  have hlength : s.answers.length ≤ s.asked.length := by
    simpa using hids.length_le
  -- something has been written, so there is an answer
  cases hanswers : s.answers with
  | nil =>
      rw [hsent, hanswers, hbytes] at hstream
      have hnil := hstream.length_le
      simp at hnil
  | cons p ps =>
      rw [hanswers] at hsent hids hlength hvalid hresponded
      obtain hasked | ⟨t, hasked, ht⟩ := List.prefix_cons_iff.mp hasked
      · rw [hasked] at hlength
        simp at hlength
      · obtain rfl := List.prefix_nil.mp ht
        rw [hasked] at hids hlength
        obtain rfl : ps = [] := by simpa using hlength
        obtain ⟨id, resp⟩ := p
        obtain rfl : id = req.requestId := by simpa using hids
        have hresp := hvalid (req.requestId, resp) (by simp)
        have hframe : TcpConnection.sendFrame resp.serialize = frame resp.serialize :=
          Writer.tcpConnection.frame_eq (hresp.size.trans (by norm_num))
        have hsame : reply = resp.serialize := by
          obtain ⟨t, ht⟩ := hstream
          rw [hbytes, hsent, List.append_assoc] at ht
          rw [List.flatMap_singleton, hframe, ← List.append_nil (frame resp.serialize)] at ht
          exact (frame_append_inj hreply (hresp.size.trans (by norm_num)) ht).1
        obtain rfl : ClientResponse.parse reply = resp := by
          rw [hsame, ClientResponse.parse_serialize hresp]
        exact ⟨hasked, rfl, hresponded _ (by simp)⟩

/-- Node `1` leads; a client connects to it and sends the request for a transfer in two pieces,
which is executed. -/
def serveTransfer : List GatewayLabel :=
  winFirstTerm.map .node ++
    [.accept 0, .arrive 0 ((RaftClient.commandFrame transferRequest.serialize).take 3),
      .arrive 0 ((RaftClient.commandFrame transferRequest.serialize).drop 3), .read 0,
      .node (.thread 0 (.lookupRequest 0)), .node (.thread 0 (.appendRequest 0))] ++
    executeFirst.map .node

lemma transferRequest_valid : transferRequest.Valid :=
  ⟨by decide, by decide, by decide +kernel⟩

/-- The session has served the transfer. -/
lemma run_serveTransfer :
    ∃ g s, GatewayRun ClientRequest.parse? (start ⟨1, [1, 2]⟩ RocksDBStore.genesis)
        serveTransfer g ∧ g.sessions 0 = some s ∧
      s.arrived = RaftClient.commandFrame transferRequest.serialize ∧
      s.answers = [(Bytes.ascii "r", ⟨true, Bytes.ascii "Success", 1⟩)] := by
  have hserved : ∃ g, GatewayRun ClientRequest.parse? (start ⟨1, [1, 2]⟩ RocksDBStore.genesis)
      serveTransfer g ∧ (g.sessions 0).map (fun s => (s.arrived, s.answers)) =
        some (RaftClient.commandFrame transferRequest.serialize,
          [(Bytes.ascii "r", ⟨true, Bytes.ascii "Success", 1⟩)]) :=
    run_of_genesis (start ⟨1, [1, 2]⟩) (by decide +kernel)
  obtain ⟨g, hrun, hsession⟩ := hserved
  obtain ⟨s, hs, heq⟩ := Option.map_eq_some_iff.mp hsession
  obtain ⟨harrived, hanswers⟩ := Prod.mk.inj heq
  exact ⟨g, s, hrun, hs, harrived, hanswers⟩

/-- The client has been answered once, and the session reads on. -/
theorem gateway_serves_transfer :
    ∃ g s, GatewayRun ClientRequest.parse? (start ⟨1, [1, 2]⟩ RocksDBStore.genesis)
        serveTransfer g ∧ g.sessions 0 = some s ∧ s.asked.length ≤ 2 ∧
      s.sent = TcpConnection.sendFrame
        (ClientResponse.serialize ⟨true, Bytes.ascii "Success", 1⟩) := by
  obtain ⟨g, s, hrun, hs, -, hanswers⟩ := run_serveTransfer
  obtain ⟨hord, -, -⟩ := gateway_serves hrun hs
  refine ⟨g, s, hrun, hs, ?_, ?_⟩
  · simpa [hanswers] using hord.outstanding
  · simpa [hanswers] using hord.sent

/-- The client reads the response to its transfer. -/
theorem client_reads_own_answer_transfer :
    ∃ g s rest, GatewayRun ClientRequest.parse? (start ⟨1, [1, 2]⟩ RocksDBStore.genesis)
        serveTransfer g ∧ g.sessions 0 = some s ∧
      RaftClient.readReply [s.sent] =
        some (ClientResponse.serialize ⟨true, Bytes.ascii "Success", 1⟩, rest) ∧
      s.asked = [transferRequest] := by
  obtain ⟨g, s, hrun, hs, harrived, hanswers⟩ := run_serveTransfer
  have hresp : ClientResponse.Valid ⟨true, Bytes.ascii "Success", 1⟩ :=
    ⟨by decide, by decide +kernel⟩
  have hsent : s.sent = TcpConnection.sendFrame
      (ClientResponse.serialize ⟨true, Bytes.ascii "Success", 1⟩) := by
    simpa [hanswers] using ((inv_of_run hrun).inOrder 0 s hs).sent
  have hstream : [s.sent].flatten = TcpConnection.sendFrame
      (ClientResponse.serialize ⟨true, Bytes.ascii "Success", 1⟩) ++ [] := by
    simp [hsent]
  obtain ⟨rest, hread, -⟩ :=
    RaftClient.readReply_sendFrame (hresp.size.trans (by norm_num)) hstream
  have hparse := ClientRequest.parse?_serialize transferRequest_valid
  obtain ⟨hasked, -, -⟩ := client_reads_own_answer hrun hs hparse (by decide +kernel)
    (harrived ▸ List.prefix_rfl) (by simpa [hanswers] using hresp) (by simp) hread
  exact ⟨g, s, rest, hrun, hs, hread, hasked⟩

end Runs

end RaftConsensus
