import RaftConsensus.Library.OneCopy
import RaftConsensus.Storage.Money
import RaftConsensus.Storage.Replay

/-!
# The bank

What the store is for, without the store: a balance for every account id, and commands that look
at balances, change them and say what they found.  The arithmetic is that of the executor, with
its `int`s and with no write of a negative balance.

Executing an entry on a store is executing its command on the balances (`getBalance_execute_bank`,
`outcome_resultMsg_bank`), so a store that has executed a list of entries holds the balances of
the bank that has executed their commands (`getBalance_executeAll`).
-/

namespace RaftConsensus

open Bytes

/-- The balances of all accounts. -/
abbrev Balances := Bytes → ℤ

namespace Balances

/-- Sets a balance; a negative one is not written. -/
def write (b : Balances) (id : Bytes) (new : ℤ) : Balances :=
  if 0 ≤ new then Function.update b id new else b

/-- Moves money; the receiver's balance is read before the sender's is written. -/
def move (b : Balances) (sender receiver : Bytes) (amount : ℤ) : Balances :=
  (b.write sender (int32 (b sender - amount))).write receiver (int32 (b receiver + amount))

lemma write_apply (b : Balances) (id : Bytes) (new : ℤ) (x : Bytes) :
    b.write id new x = if 0 ≤ new ∧ x = id then new else b x := by
  by_cases hnew : 0 ≤ new
  · rw [write, if_pos hnew, Function.update_apply]
    simp only [hnew, true_and]
  · rw [write, if_neg hnew, if_neg fun h => hnew h.1]

end Balances

/-- The bank. -/
def bank : Object Balances ClientRequest Bytes where
  apply b cmd :=
    if cmd.type = .transfer ∧ cmd.amount ≤ b cmd.senderId then
      b.move cmd.senderId cmd.receiverId cmd.amount
    else b
  answer b cmd :=
    if cmd.type = .transfer then
      if cmd.amount ≤ b cmd.senderId then ascii "Success" else ascii "Insufficient Funds"
    else ascii "Balance: " ++ decimal (b cmd.senderId)

/-- No answer of the bank looks like a refusal. -/
lemma bank_answer_ne_notLeader (b : Balances) (cmd : ClientRequest) :
    bank.answer b cmd ≠ ascii "Not Leader" := by
  simp only [bank]
  split
  · split <;> decide
  · intro h
    have hhead := congrArg List.head? h
    rw [List.head?_append_of_ne_nil _ (by decide)] at hhead
    exact absurd hhead (by decide)

namespace RocksDBStore

variable {s : RocksDBStore} {e : LogEntry}

/-- The executor's message is the bank's answer. -/
lemma outcome_resultMsg_bank (s : RocksDBStore) (cmd : ClientRequest) :
    (s.outcome cmd).resultMsg = bank.answer s.getBalance cmd := by
  unfold outcome
  simp only [bank]
  split
  · split <;> rfl
  · rfl

/-- Executing an entry is executing its command on the balances. -/
lemma getBalance_execute_bank (s : RocksDBStore) (e : LogEntry) :
    (s.execute e).getBalance = bank.apply s.getBalance e.command := by
  funext x
  rw [execute, getBalance_applyTransaction]
  by_cases hgo : s.GoesThrough e.command
  · have houtcome : s.outcome e.command = ⟨int32 (s.getBalance e.command.senderId -
        e.command.amount), int32 (s.getBalance e.command.receiverId + e.command.amount),
          ascii "Success"⟩ := by
      simp [outcome, hgo.1, hgo.2]
    have happly : bank.apply s.getBalance e.command = Balances.move s.getBalance
        e.command.senderId e.command.receiverId e.command.amount := if_pos hgo
    rw [happly, houtcome, Balances.move, Balances.write_apply, Balances.write_apply]
  · have hsame := getBalance_execute_of_not hgo x
    rw [execute, getBalance_applyTransaction] at hsame
    have happly : bank.apply s.getBalance e.command = s.getBalance := if_neg hgo
    rw [hsame, happly]

/-- **The balances of a store are those of the bank.** -/
theorem getBalance_executeAll (s : RocksDBStore) (es : List LogEntry) :
    (s.executeAll es).getBalance = bank.run s.getBalance (es.map LogEntry.command) := by
  induction es using List.reverseRecOn with
  | nil => rfl
  | append_singleton es e ih =>
      rw [executeAll_concat, getBalance_execute_bank, ih, List.map_append, List.map_singleton,
        Object.run_concat]

end RocksDBStore

end RaftConsensus
