import RaftConsensus.Cluster.Records
import RaftConsensus.Storage.Money

/-!
# A transfer is all or nothing

The executor hands two new balances to `applyTransaction`, where a negative number stands for "no
change".  A computed balance can be negative too: the amount of a transfer may be, and a sum that
leaves the range of `int` is.  The one side is then written without the other, and the recorded
result is `"Success"` all the same.

`transfer_allOrNothing_iff` says which transfers are all or nothing.
-/

namespace RaftConsensus

open Bytes

/-! ## Balances that are written -/

namespace RocksDBStore

variable {s s' : RocksDBStore} {e : LogEntry} {cmd : ClientRequest} {x old : ℤ}

lemma isInt32_int32 (x : ℤ) : IsInt32 (int32 x) :=
  ⟨Int.le_bmod (by norm_num), Int.bmod_lt (by norm_num)⟩

/-- The balance after a computed one has been handed over is that one if it is not negative and
within `int`, or if nothing was to change. -/
lemma written_eq_iff (hold : IsInt32 old) :
    (if 0 ≤ int32 x then int32 x else old) = x ↔ 0 ≤ x ∧ x < 2 ^ 31 ∨ x = old := by
  constructor
  · intro h
    split at h
    · rename_i hpos
      rw [h] at hpos
      exact .inl ⟨hpos, h ▸ (isInt32_int32 x).2⟩
    · exact .inr h.symm
  · rintro (⟨hpos, hlt⟩ | rfl)
    · rw [int32_of_isInt32 ⟨by omega, hlt⟩, if_pos hpos]
    · rw [int32_of_isInt32 hold, ite_self]

/-! ## All or nothing -/

/-- The amount has moved, and the recorded result says so. -/
structure Moved (s s' : RocksDBStore) (cmd : ClientRequest) : Prop where
  sender : s'.getBalance cmd.senderId = s.getBalance cmd.senderId - cmd.amount
  receiver : s'.getBalance cmd.receiverId = s.getBalance cmd.receiverId + cmd.amount
  result : s'.getRequestResult cmd.requestId = ascii "Success"

/-- Nothing has moved, and the recorded result is another one. -/
structure Refused (s s' : RocksDBStore) (cmd : ClientRequest) : Prop where
  sender : s'.getBalance cmd.senderId = s.getBalance cmd.senderId
  receiver : s'.getBalance cmd.receiverId = s.getBalance cmd.receiverId
  result : s'.getRequestResult cmd.requestId ≠ ascii "Success"

/-- One of the two, and no other account is concerned. -/
structure AllOrNothing (s s' : RocksDBStore) (cmd : ClientRequest) : Prop where
  outcome : Moved s s' cmd ∨ Refused s s' cmd
  others : ∀ x, x ≠ cmd.senderId → x ≠ cmd.receiverId → s'.getBalance x = s.getBalance x

/-- Both new balances are ones `applyTransaction` writes; a transfer of nothing needs no write. -/
def Payable (s : RocksDBStore) (cmd : ClientRequest) : Prop :=
  cmd.amount = 0 ∨
    s.getBalance cmd.senderId - cmd.amount < 2 ^ 31 ∧
      0 ≤ s.getBalance cmd.receiverId + cmd.amount ∧
      s.getBalance cmd.receiverId + cmd.amount < 2 ^ 31

/-- Only the two accounts of a command are written. -/
lemma getBalance_execute_other (e : LogEntry) {a : Bytes} (hs : a ≠ e.command.senderId)
    (hr : a ≠ e.command.receiverId) : (s.execute e).getBalance a = s.getBalance a := by
  rw [execute, getBalance_applyTransaction, if_neg fun h => hr h.2, if_neg fun h => hs h.2]

lemma outcome_transfer (htype : cmd.type = .transfer)
    (henough : cmd.amount ≤ s.getBalance cmd.senderId) :
    s.outcome cmd = ⟨int32 (s.getBalance cmd.senderId - cmd.amount),
      int32 (s.getBalance cmd.receiverId + cmd.amount), ascii "Success"⟩ := by
  simp [outcome, htype, henough]

lemma outcome_insufficient (htype : cmd.type = .transfer)
    (hless : ¬ cmd.amount ≤ s.getBalance cmd.senderId) :
    s.outcome cmd = ⟨-1, -1, ascii "Insufficient Funds"⟩ := by
  simp [outcome, htype, hless]

/-- The balances after a transfer between two accounts. -/
lemma getBalance_execute_transfer (htype : e.command.type = .transfer)
    (hne : e.command.senderId ≠ e.command.receiverId)
    (henough : e.command.amount ≤ s.getBalance e.command.senderId) :
    (s.execute e).getBalance e.command.senderId =
        (if 0 ≤ int32 (s.getBalance e.command.senderId - e.command.amount) then
          int32 (s.getBalance e.command.senderId - e.command.amount)
        else s.getBalance e.command.senderId) ∧
      (s.execute e).getBalance e.command.receiverId =
        (if 0 ≤ int32 (s.getBalance e.command.receiverId + e.command.amount) then
          int32 (s.getBalance e.command.receiverId + e.command.amount)
        else s.getBalance e.command.receiverId) := by
  rw [execute, outcome_transfer htype henough]
  constructor
  · simp [getBalance_applyTransaction, hne]
  · simp [getBalance_applyTransaction, hne.symm]

/-- **When executing a transfer moves all or nothing**: exactly when, with enough money, both new
balances are written. -/
lemma allOrNothing_execute_iff (htype : e.command.type = .transfer)
    (hne : e.command.senderId ≠ e.command.receiverId)
    (hsend : IsInt32 (s.getBalance e.command.senderId))
    (hrecv : IsInt32 (s.getBalance e.command.receiverId)) :
    AllOrNothing s (s.execute e) e.command ↔
      (e.command.amount ≤ s.getBalance e.command.senderId → s.Payable e.command) := by
  have hresult : (s.execute e).getRequestResult e.command.requestId =
      (s.outcome e.command).resultMsg := by
    rw [execute, getRequestResult_applyTransaction, if_pos rfl]
  by_cases henough : e.command.amount ≤ s.getBalance e.command.senderId
  · obtain ⟨hsender, hreceiver⟩ := getBalance_execute_transfer htype hne henough
    rw [outcome_transfer htype henough] at hresult
    have hpos : 0 ≤ s.getBalance e.command.senderId - e.command.amount := by omega
    -- the result says "Success", whatever is written
    have hmoved : AllOrNothing s (s.execute e) e.command ↔
        Moved s (s.execute e) e.command := by
      constructor
      · intro h
        exact h.outcome.resolve_right fun hrefused => hrefused.result hresult
      · intro h
        exact ⟨.inl h, fun _ => getBalance_execute_other e⟩
    have hwritten : Moved s (s.execute e) e.command ↔
        (if 0 ≤ int32 (s.getBalance e.command.senderId - e.command.amount) then
            int32 (s.getBalance e.command.senderId - e.command.amount)
          else s.getBalance e.command.senderId) =
            s.getBalance e.command.senderId - e.command.amount ∧
        (if 0 ≤ int32 (s.getBalance e.command.receiverId + e.command.amount) then
            int32 (s.getBalance e.command.receiverId + e.command.amount)
          else s.getBalance e.command.receiverId) =
            s.getBalance e.command.receiverId + e.command.amount := by
      rw [← hsender, ← hreceiver]
      exact ⟨fun h => ⟨h.sender, h.receiver⟩, fun h => ⟨h.1, h.2, hresult⟩⟩
    rw [hmoved, hwritten, written_eq_iff hsend, written_eq_iff hrecv,
      forall_prop_of_true henough, Payable]
    omega
  · rw [outcome_insufficient htype henough] at hresult
    have hsame : ∀ a, (s.execute e).getBalance a = s.getBalance a :=
      getBalance_execute_of_not fun h => henough h.2
    refine iff_of_true ⟨.inr ⟨hsame _, hsame _, ?_⟩, fun a _ _ => hsame a⟩
      fun h => absurd h henough
    rw [hresult]
    decide

end RocksDBStore

/-! ## The executor -/

open RocksDBStore

namespace RaftNode

variable {n n' : RaftNode} {e : LogEntry} {rest : List LogEntry}

/-- The executor's step and the write together. -/
lemma storage_readBalances_applyEntry (hexec : n.executor = .applying e rest)
    (hrun : n.readBalances.bind applyEntry = some n') : n'.storage = n.storage.execute e := by
  rw [readBalances, hexec, Option.bind_some, applyEntry] at hrun
  obtain rfl := Option.some.inj hrun
  rfl

/-- **When a transfer is all or nothing**: exactly when the sender does not have enough, or nothing
is moved, or both new balances are non-negative and within `int`. -/
theorem transfer_allOrNothing_iff (hexec : n.executor = .applying e rest)
    (hrun : n.readBalances.bind applyEntry = some n') (htype : e.command.type = .transfer)
    (hne : e.command.senderId ≠ e.command.receiverId)
    (hsend : IsInt32 (n.storage.getBalance e.command.senderId))
    (hrecv : IsInt32 (n.storage.getBalance e.command.receiverId)) :
    AllOrNothing n.storage n'.storage e.command ↔
      (e.command.amount ≤ n.storage.getBalance e.command.senderId →
        n.storage.Payable e.command) := by
  rw [storage_readBalances_applyEntry hexec hrun]
  exact allOrNothing_execute_iff htype hne hsend hrecv

/-- A transfer from account `1` to an account that does not exist yet. -/
def transferEntry (amount : ℤ) : LogEntry :=
  ⟨1, 1, ⟨ascii "r1", .transfer, ascii "1", ascii "new", amount⟩⟩

/-- A node about to execute it. -/
def transferring (amount : ℤ) (start : RocksDBStore) : RaftNode :=
  { RaftNode.new ⟨1, [1, 2, 3]⟩ start with executor := .applying (transferEntry amount) [] }

/-- **A negative amount is paid out and never taken**: the sender gains, the receiver's computed
balance is negative and not written, and the result is a success. -/
theorem negative_transfer_one_sided :
    ∃ n' ∈ (transferring (-5) .genesis).readBalances.bind applyEntry,
      n'.storage.getBalance (ascii "1") =
        (transferring (-5) .genesis).storage.getBalance (ascii "1") + 5 ∧
      n'.storage.getBalance (ascii "new") =
        (transferring (-5) .genesis).storage.getBalance (ascii "new") ∧
      n'.storage.getRequestResult (ascii "r1") = ascii "Success" ∧
      ¬ AllOrNothing (transferring (-5) .genesis).storage n'.storage
        (transferEntry (-5)).command := by
  have hvalues : ∃ n' ∈ (transferring (-5) .genesis).readBalances.bind applyEntry,
      n'.storage.getBalance (ascii "1") =
        (transferring (-5) .genesis).storage.getBalance (ascii "1") + 5 ∧
      n'.storage.getBalance (ascii "new") =
        (transferring (-5) .genesis).storage.getBalance (ascii "new") ∧
      n'.storage.getRequestResult (ascii "r1") = ascii "Success" := by
    rw [genesis_eq]
    decide +kernel
  obtain ⟨n', hrun, hsender, hreceiver, hresult⟩ := hvalues
  refine ⟨n', hrun, hsender, hreceiver, hresult, fun h => ?_⟩
  obtain hmoved | hrefused := h.outcome
  · have hgain : n'.storage.getBalance (ascii "new") =
        (transferring (-5) .genesis).storage.getBalance (ascii "new") + -5 := hmoved.receiver
    omega
  · exact hrefused.result hresult

/-- Five are moved from account `1`. -/
theorem positive_transfer_moves :
    ∃ n' ∈ (transferring 5 .genesis).readBalances.bind applyEntry,
      AllOrNothing (transferring 5 .genesis).storage n'.storage (transferEntry 5).command := by
  have hvalues : (transferring 5 .genesis).storage.getBalance (ascii "1") = 100000 ∧
      (transferring 5 .genesis).storage.getBalance (ascii "new") = 0 ∧
      ((transferring 5 .genesis).readBalances.bind applyEntry).isSome = true := by
    rw [genesis_eq]
    decide +kernel
  obtain ⟨hsend, hrecv, hsome⟩ := hvalues
  obtain ⟨n', hrun⟩ := Option.isSome_iff_exists.mp hsome
  have hne : (transferEntry 5).command.senderId ≠ (transferEntry 5).command.receiverId := by
    decide
  refine ⟨n', hrun, (transfer_allOrNothing_iff rfl hrun rfl hne ?_ ?_).mpr fun _ => ?_⟩
  · show IsInt32 ((transferring 5 .genesis).storage.getBalance (ascii "1"))
    rw [hsend, IsInt32]
    decide
  · show IsInt32 ((transferring 5 .genesis).storage.getBalance (ascii "new"))
    rw [hrecv, IsInt32]
    decide
  · show (5 : ℤ) = 0 ∨
      (transferring 5 .genesis).storage.getBalance (ascii "1") - 5 < 2 ^ 31 ∧
        0 ≤ (transferring 5 .genesis).storage.getBalance (ascii "new") + 5 ∧
        (transferring 5 .genesis).storage.getBalance (ascii "new") + 5 < 2 ^ 31
    rw [hsend, hrecv]
    decide

end RaftNode

end RaftConsensus
