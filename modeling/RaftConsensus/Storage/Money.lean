import RaftConsensus.Library.Ledger
import RaftConsensus.Storage.Replay

/-!
# Conservation of money

`totalBalance` adds up the `acct:` records of a store.  The balances of a store are a ledger
(`ledger`), and executing a command is a move of money in it, as long as the command is one the
executor computes correctly (`Balanced`): a transfer that goes through must be of amount zero, or
between two different accounts with the receiver's new balance not negative.

* A transfer of an account to itself writes the sender's balance first and then overwrites it by
  the receiver's, so the account gains the amount.
* The amount may be negative.  If the receiver then cannot pay, its new balance is negative,
  which `applyTransaction` takes for "no change", while the sender is credited.

`conserved_iff` says that along every sequence of commands money is conserved exactly when every
command is balanced at the time it is executed.
-/

namespace RaftConsensus

open Bytes

namespace RocksDBStore

variable {s : RocksDBStore} {e : LogEntry}

/-! ## Balances as a ledger -/

/-- The account records of a store. -/
def accounts (s : RocksDBStore) : List (Bytes × Value) :=
  s.db.entries.filter fun p => (ascii "acct:").isPrefixOf p.1

/-- The sum of all `acct:` balances. -/
def totalBalance (s : RocksDBStore) : ℤ := (s.accounts.map fun p => p.2.stoi).sum

/-- The ids of the accounts of a store. -/
def accountIds (s : RocksDBStore) : List Bytes := s.accounts.map fun p => p.1.drop 5

lemma mem_accounts {p : Bytes × Value} :
    p ∈ s.accounts ↔ ∃ a, p.1 = acctKey a ∧ s.db.get (acctKey a) = some p.2 := by
  rw [accounts, List.mem_filter, KVMap.mem_entries, List.isPrefixOf_iff_prefix]
  constructor
  · rintro ⟨hget, a, ha⟩
    exact ⟨a, ha.symm, by rw [← hget, ← ha]; rfl⟩
  · rintro ⟨a, ha, hget⟩
    exact ⟨by rw [ha, hget], a, ha.symm⟩

lemma nodup_accountIds : s.accountIds.Nodup := by
  have hkeys : (s.accounts.map Prod.fst).Nodup :=
    (List.filter_sublist.map _).nodup s.db.nodup_keys_entries
  have hids : s.accounts.map Prod.fst = s.accountIds.map acctKey := by
    rw [accountIds, List.map_map]
    refine List.map_congr_left fun p hp => ?_
    obtain ⟨a, ha, -⟩ := mem_accounts.mp hp
    rw [Function.comp_apply, ha]
    rfl
  rw [hids] at hkeys
  exact hkeys.of_map _

lemma getBalance_of_mem {p : Bytes × Value} (hp : p ∈ s.accounts) :
    s.getBalance (p.1.drop 5) = p.2.stoi := by
  obtain ⟨a, ha, hget⟩ := mem_accounts.mp hp
  have hdrop : (acctKey a).drop 5 = a := rfl
  rw [ha, hdrop, getBalance, hget]

lemma mem_accountIds_of_ne_zero {a : Bytes} (h : s.getBalance a ≠ 0) : a ∈ s.accountIds := by
  unfold getBalance at h
  cases hget : s.db.get (acctKey a) with
  | none =>
      rw [hget] at h
      exact absurd rfl h
  | some v => exact List.mem_map.mpr ⟨(acctKey a, v), mem_accounts.mpr ⟨a, rfl, hget⟩, rfl⟩

/-- The balances of a store. -/
noncomputable def ledger (s : RocksDBStore) : Bytes →₀ ℤ :=
  Finsupp.onFinset s.accountIds.toFinset s.getBalance fun _ h =>
    List.mem_toFinset.mpr (mem_accountIds_of_ne_zero h)

@[simp] lemma ledger_apply (a : Bytes) : s.ledger a = s.getBalance a := rfl

/-- The sum of the account records is the money in the ledger. -/
theorem totalBalance_eq : s.totalBalance = Ledger.total s.ledger := by
  have hsum : Ledger.total s.ledger = ∑ a ∈ s.accountIds.toFinset, s.getBalance a :=
    Finsupp.onFinset_sum _ fun _ => rfl
  rw [hsum, List.sum_toFinset _ nodup_accountIds, totalBalance, accountIds, List.map_map]
  congr 1
  exact List.map_congr_left fun p hp => (getBalance_of_mem hp).symm

/-! ## One command -/

/-- The balances after a transaction: the receiver's write comes last. -/
lemma getBalance_applyTransaction {a b : ℤ} {msg : Bytes} (x : Bytes) :
    (s.applyTransaction e a b msg).getBalance x =
      if 0 ≤ b ∧ x = e.command.receiverId then b
      else if 0 ≤ a ∧ x = e.command.senderId then a else s.getBalance x := by
  have hsys : acctKey x ≠ lastAppliedKey := ne_of_head (by simp)
  have hreq : acctKey x ≠ reqKey e.command.requestId := ne_of_head (by simp)
  rw [getBalance, get_applyTransaction, if_neg hsys, if_neg hreq]
  simp only [acctKey_inj]
  by_cases hrecv : 0 ≤ b ∧ x = e.command.receiverId
  · rw [if_pos hrecv, if_pos hrecv]
    rfl
  · rw [if_neg hrecv, if_neg hrecv]
    by_cases hsend : 0 ≤ a ∧ x = e.command.senderId
    · rw [if_pos hsend, if_pos hsend]
      rfl
    · rw [if_neg hsend, if_neg hsend, getBalance]

/-- The money in the genesis accounts. -/
def supply : ℤ := 9000 * 100000

/-- The money is all there, and no balance is out of bounds. -/
structure Conserved (s : RocksDBStore) : Prop where
  total : s.totalBalance = supply
  bounds : ∀ a, 0 ≤ s.getBalance a ∧ s.getBalance a ≤ supply

/-- The value fits into an `int`. -/
def IsInt32 (n : ℤ) : Prop := -2 ^ 31 ≤ n ∧ n < 2 ^ 31

lemma int32_of_isInt32 {n : ℤ} (h : IsInt32 n) : int32 n = n := by
  obtain ⟨hlo, hhi⟩ := h
  refine Int.bmod_eq_of_le_mul_two ?_ ?_
  · norm_num
    omega
  · norm_num
    omega

/-- The command is a transfer whose sender has enough money. -/
def GoesThrough (s : RocksDBStore) (cmd : ClientRequest) : Prop :=
  cmd.type = .transfer ∧ cmd.amount ≤ s.getBalance cmd.senderId

/-- The new balances the executor computes for a command, if any, fit into an `int`. -/
def ComputesInRange (s : RocksDBStore) (cmd : ClientRequest) : Prop :=
  s.GoesThrough cmd → IsInt32 (s.getBalance cmd.senderId - cmd.amount) ∧
    IsInt32 (s.getBalance cmd.receiverId + cmd.amount)

/-- **The commands that are executed as transfers of money**: one that goes through is of amount
zero, or between two different accounts with the receiver able to pay a negative amount. -/
def Balanced (s : RocksDBStore) (cmd : ClientRequest) : Prop :=
  s.GoesThrough cmd → cmd.amount = 0 ∨
    cmd.senderId ≠ cmd.receiverId ∧ 0 ≤ s.getBalance cmd.receiverId + cmd.amount

/-- A command that does not go through changes no balance. -/
lemma getBalance_execute_of_not (h : ¬ s.GoesThrough e.command) (x : Bytes) :
    (s.execute e).getBalance x = s.getBalance x := by
  have hneg : (s.outcome e.command).senderNewBal = -1 ∧
      (s.outcome e.command).receiverNewBal = -1 := by
    unfold outcome
    split
    · rename_i ht
      dsimp only
      split
      · rename_i hle
        exact absurd ⟨ht, hle⟩ h
      · exact ⟨rfl, rfl⟩
    · exact ⟨rfl, rfl⟩
  rw [execute, getBalance_applyTransaction, hneg.1, hneg.2]
  simp

/-- A command that goes through, within the range of `int`: the balances after it. -/
lemma getBalance_execute (hgo : s.GoesThrough e.command) (hrange : s.ComputesInRange e.command)
    (x : Bytes) :
    (s.execute e).getBalance x =
      if 0 ≤ s.getBalance e.command.receiverId + e.command.amount ∧ x = e.command.receiverId then
        s.getBalance e.command.receiverId + e.command.amount
      else if x = e.command.senderId then s.getBalance e.command.senderId - e.command.amount
      else s.getBalance x := by
  obtain ⟨hsend, hrecv⟩ := hrange hgo
  have hpos : 0 ≤ s.getBalance e.command.senderId - e.command.amount := by
    have := hgo.2
    omega
  rw [execute, getBalance_applyTransaction, outcome, if_pos hgo.1]
  simp only [if_pos hgo.2, int32_of_isInt32 hsend, int32_of_isInt32 hrecv, hpos, true_and]

lemma ledger_ext {s' : RocksDBStore} (h : ∀ x, s'.getBalance x = s.getBalance x) :
    s'.ledger = s.ledger :=
  Finsupp.ext h

lemma Conserved.of_balances {s' : RocksDBStore} (hs : s.Conserved)
    (h : ∀ x, s'.getBalance x = s.getBalance x) : s'.Conserved where
  total := by rw [totalBalance_eq, ledger_ext h, ← totalBalance_eq, hs.total]
  bounds a := by
    rw [h]
    exact hs.bounds a

/-- In a conserved store the computations of a balanced command stay within `int`. -/
lemma Conserved.computesInRange (hs : s.Conserved) (hbal : s.Balanced e.command) :
    s.ComputesInRange e.command := by
  intro hgo
  obtain ⟨hs0, hs1⟩ := hs.bounds e.command.senderId
  obtain ⟨hr0, hr1⟩ := hs.bounds e.command.receiverId
  have hle := hgo.2
  unfold IsInt32
  unfold supply at hs1 hr1
  rcases hbal hgo with hzero | ⟨hne, hpay⟩
  · rw [hzero]
    norm_num
    omega
  · have hsum := Ledger.add_le_total (l := s.ledger) (fun a => (hs.bounds a).1) hne
    rw [← totalBalance_eq, hs.total, ledger_apply, ledger_apply, supply] at hsum
    norm_num
    omega

/-- **A balanced command conserves money.**  If its amount is not zero, it moves it. -/
lemma Conserved.execute (hs : s.Conserved) (hbal : s.Balanced e.command) :
    (s.execute e).Conserved := by
  by_cases hgo : s.GoesThrough e.command
  · have hrange := hs.computesInRange hbal
    have hget := getBalance_execute hgo hrange
    rcases hbal hgo with hzero | ⟨hne, hpay⟩
    · -- nothing moves: both writes rewrite the old balance
      refine hs.of_balances fun x => ?_
      rw [hget, hzero]
      split
      · rename_i hx
        rw [hx.2, add_zero]
      · split
        · rename_i hx
          rw [hx, sub_zero]
        · rfl
    · have hmove : (s.execute e).ledger =
          Ledger.move s.ledger e.command.senderId e.command.receiverId e.command.amount := by
        ext x
        rw [ledger_apply, hget, Ledger.move, Finsupp.coe_update, Finsupp.coe_update]
        simp only [ledger_apply, Function.update_apply, hpay, true_and]
      have htotal : (s.execute e).totalBalance = supply := by
        rw [totalBalance_eq, hmove, Ledger.total_move _ hne, ← totalBalance_eq, hs.total]
      have hpos : ∀ a, 0 ≤ (s.execute e).ledger a := by
        intro a
        rw [ledger_apply, hget]
        split
        · exact hpay
        · split
          · have := hgo.2
            omega
          · exact (hs.bounds a).1
      refine ⟨htotal, fun a => ⟨hpos a, ?_⟩⟩
      rw [← htotal, totalBalance_eq]
      exact Ledger.le_total hpos a
  · exact hs.of_balances (getBalance_execute_of_not hgo)

/-- **A command that conserves money, within `int`, is balanced.**  Otherwise only one of the two
balances is changed in the end, by an amount that is not zero. -/
lemma balanced_of_conserved (hs : s.Conserved) (hs' : (s.execute e).Conserved)
    (hrange : s.ComputesInRange e.command) : s.Balanced e.command := by
  intro hgo
  have hget := getBalance_execute hgo hrange
  have hsame : Ledger.total (s.execute e).ledger = Ledger.total s.ledger := by
    rw [← totalBalance_eq, ← totalBalance_eq, hs.total, hs'.total]
  by_contra hnot
  rw [not_or] at hnot
  obtain ⟨hzero, hnot⟩ := hnot
  by_cases hpay : 0 ≤ s.getBalance e.command.receiverId + e.command.amount
  · -- a transfer to oneself
    have hself : e.command.senderId = e.command.receiverId := by
      by_contra hne
      exact hnot ⟨hne, hpay⟩
    have hupdate : (s.execute e).ledger = s.ledger.update e.command.receiverId
        (s.getBalance e.command.receiverId + e.command.amount) := by
      ext x
      rw [ledger_apply, hget, Finsupp.coe_update, hself]
      by_cases hx : x = e.command.receiverId
      · simp [hx, hpay]
      · simp [hx]
    rw [hupdate, Ledger.total_update, ledger_apply] at hsame
    omega
  · -- the receiver cannot pay
    have hupdate : (s.execute e).ledger = s.ledger.update e.command.senderId
        (s.getBalance e.command.senderId - e.command.amount) := by
      ext x
      rw [ledger_apply, hget, Finsupp.coe_update]
      simp only [hpay, false_and, if_false, Function.update_apply, ledger_apply]
    rw [hupdate, Ledger.total_update, ledger_apply] at hsame
    omega

/-! ## Sequences of commands -/

/-- The accounts of the genesis store. -/
lemma getBalance_genesis {a : Bytes} :
    genesis.getBalance a =
      if a ∈ ((loopRange 1 9000).map decimal).toFinset then 100000 else 0 := by
  rw [getBalance, get_genesis]
  by_cases ha : a ∈ ((loopRange 1 9000).map decimal).toFinset
  · have hvalue : genesisValue (acctKey a) = some (.num 100000) := by
      rw [List.mem_toFinset, List.mem_map] at ha
      obtain ⟨i, hi, rfl⟩ := ha
      rw [mem_loopRange] at hi
      exact genesisValue_eq_some.mpr ⟨i, hi.1, hi.2, rfl, rfl⟩
    rw [if_pos ha, hvalue]
    rfl
  · rw [if_neg ha]
    cases h : genesisValue (acctKey a) with
    | none => rfl
    | some v =>
        obtain ⟨i, hlo, hhi, hkey, -⟩ := genesisValue_eq_some.mp h
        rw [acctKey_inj.mp hkey, List.mem_toFinset, List.mem_map] at ha
        exact absurd ⟨i, mem_loopRange.mpr ⟨hlo, hhi⟩, rfl⟩ ha

theorem conserved_genesis : genesis.Conserved where
  total := by
    have hnodup : ((loopRange 1 9000).map decimal).Nodup :=
      (List.nodup_range.map fun i j h => by simpa using h).map decimal_injective
    have hlength : ((loopRange 1 9000).map decimal).length = 9000 := by
      simp [loopRange]
    have hsupport : genesis.ledger.support ⊆ ((loopRange 1 9000).map decimal).toFinset := by
      intro a ha
      rw [Finsupp.mem_support_iff, ledger_apply, getBalance_genesis] at ha
      by_contra hnot
      exact ha (if_neg hnot)
    rw [totalBalance_eq, Ledger.total, Finsupp.sum_of_support_subset _ hsupport _ fun _ _ => rfl]
    have hconst : ∀ a ∈ ((loopRange 1 9000).map decimal).toFinset,
        genesis.ledger a = 100000 := by
      intro a ha
      rw [ledger_apply, getBalance_genesis, if_pos ha]
    rw [Finset.sum_congr rfl hconst, Finset.sum_const, List.toFinset_card_of_nodup hnodup, hlength]
    rfl
  bounds a := by
    rw [getBalance_genesis, supply]
    split <;> omega

/-- **Money is conserved along a sequence of commands**: from the genesis accounts on, in every
state, and no computation of a balance overflows. -/
structure ConservedAlong (es : List LogEntry) : Prop where
  states : ∀ p, p <+: es → (genesis.executeAll p).Conserved
  computations : ∀ p e, p ++ [e] <+: es → (genesis.executeAll p).ComputesInRange e.command

/-- **Money is conserved along a sequence of commands exactly when each of them is balanced in the
state it is executed in.** -/
theorem conserved_iff (es : List LogEntry) :
    ConservedAlong es ↔
      ∀ p e, p ++ [e] <+: es → (genesis.executeAll p).Balanced e.command := by
  constructor
  · intro h p e hp
    refine balanced_of_conserved (h.states p ((List.prefix_append _ _).trans hp)) ?_
      (h.computations p e hp)
    rw [← executeAll_concat]
    exact h.states _ hp
  · intro h
    -- along the prefixes, from the shortest on
    have hstates : ∀ p, p <+: es → (genesis.executeAll p).Conserved := by
      intro p
      induction p using List.reverseRecOn with
      | nil => exact fun _ => conserved_genesis
      | append_singleton p e ih =>
          intro hp
          rw [executeAll_concat]
          exact (ih ((List.prefix_append _ _).trans hp)).execute (h p e hp)
    exact ⟨hstates, fun p e hp =>
      (hstates p ((List.prefix_append _ _).trans hp)).computesInRange (h p e hp)⟩

/-- Account `1` transfers `50` to itself. -/
def selfTransfer : LogEntry where
  term := 1
  index := 1
  command := ⟨ascii "r1", .transfer, ascii "1", ascii "1", 50⟩

/-- **A transfer of an account to itself creates money.** -/
theorem self_transfer_creates_money : ¬ ConservedAlong [selfTransfer] := by
  intro h
  have hbal := balanced_of_conserved (h.states [] (by simp))
    (h.states [selfTransfer] (List.prefix_refl _)) (h.computations [] selfTransfer (by simp))
  have hrich : genesis.GoesThrough selfTransfer.command := by
    refine ⟨rfl, ?_⟩
    rw [getBalance, get_genesis]
    decide
  rcases hbal hrich with hzero | ⟨hne, -⟩
  · exact absurd hzero (by decide)
  · exact hne rfl

end RocksDBStore

end RaftConsensus
