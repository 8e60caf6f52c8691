import RaftConsensus.Raft.Node

/-!
# The executor

`execution.cpp`.  The executor thread fetches a batch under the lock (`fetchBatch`) and then, for
each entry and without it, reads the balances (`readBalances`), writes the transaction
(`applyEntry`), reports to the client under the lock (`notifyClient`) and compacts the log when
it is due (`compactIfDue`).

`execute` is the effect of the two storage steps together on a store nobody else writes to.
-/

namespace RaftConsensus

open Bytes

/-- What C++ `int` arithmetic leaves of a result: overflow is undefined there, and wraps on the
machines the program is built for. -/
def int32 (n : ℤ) : ℤ := Int.bmod n (2 ^ 32)

/-- The outcome of executing a command: the new balances, `-1` for "no change", and the
message. -/
structure Outcome where
  senderNewBal : ℤ
  receiverNewBal : ℤ
  resultMsg : Bytes
  deriving DecidableEq

/-- The read and logic phases of the executor. -/
def RocksDBStore.outcome (s : RocksDBStore) (cmd : ClientRequest) : Outcome :=
  if cmd.type = .transfer then
    let senderBal := s.getBalance cmd.senderId
    let receiverBal := s.getBalance cmd.receiverId
    if cmd.amount ≤ senderBal then
      ⟨int32 (senderBal - cmd.amount), int32 (receiverBal + cmd.amount), ascii "Success"⟩
    else ⟨-1, -1, ascii "Insufficient Funds"⟩
  else ⟨-1, -1, ascii "Balance: " ++ decimal (s.getBalance cmd.senderId)⟩

/-- Executing an entry: reads, logic and `applyTransaction`. -/
def RocksDBStore.execute (s : RocksDBStore) (entry : LogEntry) : RocksDBStore :=
  let o := s.outcome entry.command
  s.applyTransaction entry o.senderNewBal o.receiverNewBal o.resultMsg

namespace RaftNode

/-- The indices the executor is about to fetch. -/
def batchIndices (n : RaftNode) : List ℤ :=
  (loopRange (n.lastApplied + 1) n.commitIndex).take 100

/-- Fetches the next batch, under the lock. -/
def fetchBatch (n : RaftNode) : Option RaftNode :=
  if n.executor = .waiting ∧ n.lastApplied < n.commitIndex then
    some { n with executor := .next (n.batchIndices.map n.storage.getLogEntry) }
  else none

/-- Reads the balances and computes the new ones. -/
def readBalances (n : RaftNode) : Option RaftNode :=
  match n.executor with
  | .applying entry rest =>
      let o := n.storage.outcome entry.command
      some { n with
        executor := .computed entry rest o.senderNewBal o.receiverNewBal o.resultMsg }
  | _ => none

/-- Writes the transaction. -/
def applyEntry (n : RaftNode) : Option RaftNode :=
  match n.executor with
  | .computed entry rest senderNewBal receiverNewBal resultMsg =>
      some { n with
        storage := n.storage.applyTransaction entry senderNewBal receiverNewBal resultMsg
        executor := .written entry rest resultMsg }
  | _ => none

/-- A result counts as a success when it says so or reports a balance. -/
def isSuccess (resultMsg : Bytes) : Bool :=
  resultMsg = ascii "Success" ∨ ascii "Balance" <:+: resultMsg

/-- Updates `lastApplied` and answers the waiting client, under the lock. -/
def notifyClient (n : RaftNode) : Option (RaftNode × Option (ℕ × ClientResponse)) :=
  match n.executor with
  | .written entry rest resultMsg =>
      let id := entry.command.requestId
      some ({ n with
          lastApplied := entry.index
          pendingCallbacks := Function.update n.pendingCallbacks id none
          executor := .notified rest },
        (n.pendingCallbacks id).map fun cb => (cb, ⟨isSuccess resultMsg, resultMsg, n.leaderId⟩))
  | _ => none

/-- The log is compacted after every thousandth entry. -/
def compactionDue (n : RaftNode) : Prop := n.lastApplied % 1000 = 0 ∧ 0 < n.lastApplied - 100

instance (n : RaftNode) : Decidable n.compactionDue := inferInstanceAs (Decidable (_ ∧ _))

/-- Compacts the log when it is due, and goes on with the batch. -/
def compactIfDue (n : RaftNode) : Option RaftNode :=
  match n.executor with
  | .notified rest =>
      some { n with
        storage :=
          if n.compactionDue then n.storage.compactLog (n.lastApplied - 100) else n.storage
        executor := .next rest }
  | _ => none

/-- The same with compaction switched off. -/
def skipCompaction (n : RaftNode) : Option RaftNode :=
  match n.executor with
  | .notified rest => some { n with executor := .next rest }
  | _ => none

end RaftNode

end RaftConsensus
