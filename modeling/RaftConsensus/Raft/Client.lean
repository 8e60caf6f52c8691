import RaftConsensus.Messages
import Mathlib.Data.List.Basic

/-!
# The client

`raft_client.cpp`.  `runCommand` sends a request to the peer it takes for the leader, at most
`maxRetries` times, until an answer says `success`.  Every other answer is taken for a redirect:
the request is sent again, to the peer of the hint or to the next one.

What an attempt leads to is up to the cluster and the network: an answer, or an exception (no
connection, a timeout).
-/

namespace RaftConsensus

/-- The peers of a client, with their ids and ports, and the one it takes for the leader. -/
structure RaftClient where
  peers : List (ℤ × ℤ)
  currentLeaderIndex : Fin peers.length

namespace RaftClient

def maxRetries : ℕ := 5

/-- The port a request is sent to. -/
def targetPort (c : RaftClient) : ℤ := (c.peers.get c.currentLeaderIndex).2

/-- The first peer with the id of the hint, if there is one. -/
def followHint (c : RaftClient) (leaderHint : ℤ) : RaftClient :=
  match c.peers.findFinIdx? fun p => p.1 = leaderHint with
  | some i => { c with currentLeaderIndex := i }
  | none => c

/-- The next peer. -/
def tryNext (c : RaftClient) : RaftClient :=
  { c with
    currentLeaderIndex :=
      ⟨(c.currentLeaderIndex + 1) % c.peers.length, Nat.mod_lt _ c.currentLeaderIndex.pos⟩ }

/-- Where an answer without success leads. -/
def redirect (c : RaftClient) (resp : ClientResponse) : RaftClient :=
  if resp.leaderHint ≠ -1 then c.followHint resp.leaderHint else c.tryNext

/-- The loop, with `left` attempts to go after `attempts` ones. -/
def runLoop (exchange : ℕ → ℤ → ClientRequest → Option ClientResponse) (req : ClientRequest) :
    ℕ → ℕ → RaftClient → Bool × RaftClient
  | 0, _, c => (false, c)
  | left + 1, attempts, c =>
      match exchange attempts c.targetPort req with
      | some resp =>
          if resp.success then (true, c)
          else runLoop exchange req left (attempts + 1) (c.redirect resp)
      | none => runLoop exchange req left (attempts + 1) c.tryNext

/-- Sends a request and reports whether it has succeeded.  `exchange attempt port req` is the
answer to `req` from that port in that attempt, if there is one. -/
def runCommand (exchange : ℕ → ℤ → ClientRequest → Option ClientResponse) (c : RaftClient)
    (req : ClientRequest) : Bool × RaftClient :=
  runLoop exchange req maxRetries 0 c

variable {exchange : ℕ → ℤ → ClientRequest → Option ClientResponse} {req : ClientRequest}

lemma runLoop_success {left : ℕ} : ∀ {attempts : ℕ} {c : RaftClient},
    (runLoop exchange req left attempts c).1 = true →
      ∃ k port resp, exchange k port req = some resp ∧ resp.success = true := by
  induction left with
  | zero => exact fun h => by cases h
  | succ left ih =>
      intro attempts c h
      rw [runLoop] at h
      split at h
      · rename_i resp hresp
        split at h
        · rename_i hsuccess
          exact ⟨_, _, resp, hresp, hsuccess⟩
        · exact ih h
      · exact ih h

/-- **A client reports success only if some answer did.** -/
theorem runCommand_success {c : RaftClient} (h : (c.runCommand exchange req).1 = true) :
    ∃ k port resp, exchange k port req = some resp ∧ resp.success = true :=
  runLoop_success h

end RaftClient

end RaftConsensus
