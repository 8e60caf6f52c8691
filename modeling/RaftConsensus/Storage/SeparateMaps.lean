import RaftConsensus.Storage.Entries
import RaftConsensus.Storage.Genesis

/-!
# The flat key space as separate maps

Everything is stored in one database, and the sections are told apart by the beginning of a key.
`Maps` is what that stands for: the hard state, the log, the balances, the results and a few
indices, each for itself.  A call of the store has an effect on each of them that does not look at
the others (`Maps.call`).

`maps_call` says that the store does the same, and `flat_store_refines_maps` that after any calls
all reads return what the maps hold.
-/

namespace RaftConsensus

open Bytes

/-! ## Calls and maps -/

/-- A writing call of the store. -/
inductive StoreCall
  | saveHardState (term votedFor : ℤ)
  | appendLog (entry : LogEntry)
  | truncateLog (startIndex : ℤ)
  | compactLog (compactIndex : ℤ)
  | initializeGenesisData
  | applyTransaction (entry : LogEntry) (senderNewBal receiverNewBal : ℤ) (resultMsg : Bytes)

/-- What a store holds.  The last index is kept twice, in the open store and in the database. -/
@[ext] structure Maps where
  hardState : ℤ × ℤ
  entries : ℤ → Option LogEntry
  balances : Bytes → Option ℤ
  results : Bytes → Option CommandResult
  lastLogIndex : ℤ
  storedLastLogIndex : ℤ
  lastApplied : ℤ

namespace Maps

/-- Nothing is held yet. -/
def new : Maps := ⟨(0, -1), fun _ => none, fun _ => none, fun _ => none, 0, 0, 0⟩

/-- A negative balance is not written. -/
def writeBalance (balances : Bytes → Option ℤ) (accountId : Bytes) (newBal : ℤ) :
    Bytes → Option ℤ :=
  if 0 ≤ newBal then Function.update balances accountId (some newBal) else balances

/-- The accounts `1` to `9000`. -/
def genesisBalances (balances : Bytes → Option ℤ) : Bytes → Option ℤ := fun a =>
  if ∃ i ∈ loopRange 1 9000, decimal i = a then some 100000 else balances a

/-- The effect of a call on each map. -/
def call (m : Maps) : StoreCall → Maps
  | .saveHardState term votedFor => { m with hardState := (term, votedFor) }
  | .appendLog entry =>
      { m with
        entries := Function.update m.entries entry.index (some entry)
        lastLogIndex := entry.index
        storedLastLogIndex := entry.index }
  | .truncateLog startIndex =>
      { m with
        entries := fun i => if startIndex ≤ i ∧ i ≤ m.lastLogIndex then none else m.entries i
        lastLogIndex := startIndex - 1
        storedLastLogIndex := startIndex - 1 }
  | .compactLog compactIndex =>
      { m with entries := fun i => if 0 ≤ i ∧ i ≤ compactIndex then none else m.entries i }
  | .initializeGenesisData =>
      if (m.balances (decimal 1)).isSome then m
      else { m with balances := genesisBalances m.balances }
  | .applyTransaction entry senderNewBal receiverNewBal resultMsg =>
      { m with
        balances :=
          writeBalance (writeBalance m.balances entry.command.senderId senderNewBal)
            entry.command.receiverId receiverNewBal
        results :=
          Function.update m.results entry.command.requestId (some ⟨resultMsg, entry.index⟩)
        lastApplied := entry.index }

end Maps

namespace RocksDBStore

/-- The same call to the store. -/
def call (s : RocksDBStore) : StoreCall → RocksDBStore
  | .saveHardState term votedFor => s.saveHardState term votedFor
  | .appendLog entry => s.appendLog entry
  | .truncateLog startIndex => s.truncateLog startIndex
  | .compactLog compactIndex => s.compactLog compactIndex
  | .initializeGenesisData => s.initializeGenesisData
  | .applyTransaction entry senderNewBal receiverNewBal resultMsg =>
      s.applyTransaction entry senderNewBal receiverNewBal resultMsg

variable {s s' : RocksDBStore} {e : LogEntry} {i t v a b : ℤ} {k id msg : Bytes}

/-! ## The sections of a store -/

/-- The stored balance of an account, if there is one. -/
def balance? (s : RocksDBStore) (accountId : Bytes) : Option ℤ :=
  (s.db.get (acctKey accountId)).map Value.stoi

/-- The stored result of a request, if there is one. -/
def result? (s : RocksDBStore) (requestId : Bytes) : Option CommandResult :=
  (s.db.get (reqKey requestId)).map Value.parseResult

lemma balance?_congr (h : s'.db.get (acctKey id) = s.db.get (acctKey id)) :
    s'.balance? id = s.balance? id := by rw [balance?, balance?, h]

lemma result?_congr (h : s'.db.get (reqKey id) = s.db.get (reqKey id)) :
    s'.result? id = s.result? id := by rw [result?, result?, h]

/-- What a store holds. -/
def maps (s : RocksDBStore) : Maps where
  hardState := s.loadHardState
  entries := s.entry?
  balances := s.balance?
  results := s.result?
  lastLogIndex := s.lastLogIndexCache
  storedLastLogIndex := s.storedLastLogIndex
  lastApplied := s.getLastAppliedIndex

/-- A new database holds nothing. -/
lemma maps_new : (openDB .empty).maps = Maps.new := rfl

/-! ## Transactions -/

lemma balance?_applyTransaction :
    (s.applyTransaction e a b msg).balance? =
      Maps.writeBalance (Maps.writeBalance s.balance? e.command.senderId a)
        e.command.receiverId b := by
  funext x
  have hsys : acctKey x ≠ lastAppliedKey := ne_of_head (by simp)
  have hreq : acctKey x ≠ reqKey e.command.requestId := ne_of_head (by simp)
  rw [balance?, get_applyTransaction, if_neg hsys, if_neg hreq]
  simp only [acctKey_inj, Maps.writeBalance]
  by_cases ha : 0 ≤ a <;> by_cases hb : 0 ≤ b <;>
    simp only [ha, hb, true_and, false_and, if_true, if_false, Function.update_apply]
  · split_ifs <;> rfl
  · split_ifs <;> rfl
  · split_ifs <;> rfl
  · rfl

lemma result?_applyTransaction :
    (s.applyTransaction e a b msg).result? =
      Function.update s.result? e.command.requestId (some ⟨msg, e.index⟩) := by
  funext x
  have hsys : reqKey x ≠ lastAppliedKey := ne_of_head (by simp)
  have hacct : ∀ y, reqKey x ≠ acctKey y := fun y => ne_of_head (by simp)
  rw [result?, get_applyTransaction, if_neg hsys]
  by_cases hx : x = e.command.requestId
  · simp [hx, Value.parseResult]
  · simp [hx, hacct, result?]

/-! ## The genesis accounts -/

/-- Only accounts are created. -/
lemma get_initializeGenesisData_of_head (hk : k.head? ≠ some 97) :
    s.initializeGenesisData.db.get k = s.db.get k := by
  rw [initializeGenesisData]
  generalize loopRange 1 9000 = is
  split
  · rfl
  · refine KVMap.get_write_of_ne (fun op hop => ?_) s.db
    obtain ⟨i, -, rfl⟩ := List.mem_map.mp hop
    rintro rfl
    exact hk (head_acctKey _)

lemma cache_initializeGenesisData :
    s.initializeGenesisData.lastLogIndexCache = s.lastLogIndexCache := by
  rw [initializeGenesisData]
  generalize loopRange 1 9000 = is
  split <;> rfl

/-- A batch that gives accounts a first balance. -/
lemma get_write_balances (is : List ℤ) (x : Bytes) : ∀ db : KVMap Bytes Value,
    ((db.write (is.map fun i => .put (acctKey (decimal i)) (.num 100000))).get
        (acctKey x)).map Value.stoi =
      if ∃ i ∈ is, decimal i = x then some 100000 else (db.get (acctKey x)).map Value.stoi := by
  induction is with
  | nil => simp
  | cons i is ih =>
      intro db
      rw [List.map_cons, KVMap.write_cons, ih, KVMap.apply_put, KVMap.get_put]
      by_cases hi : decimal i = x
      · simp [hi, Value.stoi]
      · have hkey : acctKey x ≠ acctKey (decimal i) := fun h => hi (acctKey_inj.mp h).symm
        simp [hi, hkey]

lemma balance?_initializeGenesisData (h : ¬ (s.balance? (decimal 1)).isSome = true) :
    s.initializeGenesisData.balance? = Maps.genesisBalances s.balance? := by
  funext x
  have hnew : ¬ (s.db.get (acctKey (decimal 1))).isSome = true := by
    rwa [balance?, Option.isSome_map] at h
  rw [balance?, initializeGenesisData, if_neg hnew, Maps.genesisBalances]
  generalize loopRange 1 9000 = is
  exact get_write_balances is x s.db

/-- A write that concerns accounts only. -/
lemma maps_of_accounts {balances : Bytes → Option ℤ}
    (hget : ∀ k : Bytes, k.head? ≠ some 97 → s'.db.get k = s.db.get k)
    (hcache : s'.lastLogIndexCache = s.lastLogIndexCache) (hbalance : s'.balance? = balances) :
    s'.maps = { s.maps with balances := balances } :=
  Maps.ext (loadHardState_congr (hget _ (by simp)) (hget _ (by simp)))
    (funext fun _ => entry?_congr (hget _ (by simp))) hbalance
    (funext fun _ => result?_congr (hget _ (by simp))) hcache
    (storedLastLogIndex_congr (hget _ (by simp))) (getLastAppliedIndex_congr (hget _ (by simp)))

/-! ## Refinement -/

/-- **A call has the same effect on the store and on the maps.** -/
lemma maps_call (s : RocksDBStore) (c : StoreCall) : (s.call c).maps = s.maps.call c := by
  cases c with
  | saveHardState term votedFor =>
      exact Maps.ext loadHardState_saveHardState (funext fun _ => entry?_saveHardState)
        (funext fun _ => balance?_congr (get_saveHardState_of_head (by simp)))
        (funext fun _ => result?_congr (get_saveHardState_of_head (by simp))) rfl
        storedLastLogIndex_saveHardState getLastAppliedIndex_saveHardState
  | appendLog entry =>
      refine Maps.ext loadHardState_appendLog (funext fun i => ?_)
        (funext fun _ => balance?_congr (get_appendLog_of_head (by simp) (ne_of_head (by simp))))
        (funext fun _ => result?_congr (get_appendLog_of_head (by simp) (ne_of_head (by simp)))) rfl
        (storedLastLogIndex_appendLog (s := s)) getLastAppliedIndex_appendLog
      exact entry?_appendLog.trans (Function.update_apply _ _ _ _).symm
  | truncateLog startIndex =>
      exact Maps.ext loadHardState_truncateLog (funext fun _ => entry?_truncateLog)
        (funext fun _ => balance?_congr (get_truncateLog_of_head (by simp) (ne_of_head (by simp))))
        (funext fun _ => result?_congr (get_truncateLog_of_head (by simp) (ne_of_head (by simp))))
        rfl (storedLastLogIndex_truncateLog (s := s)) getLastAppliedIndex_truncateLog
  | compactLog compactIndex =>
      exact Maps.ext loadHardState_compactLog (funext fun _ => entry?_compactLog)
        (funext fun _ => balance?_congr (get_compactLog_of_head (by simp)))
        (funext fun _ => result?_congr (get_compactLog_of_head (by simp))) rfl
        storedLastLogIndex_compactLog getLastAppliedIndex_compactLog
  | initializeGenesisData =>
      show s.initializeGenesisData.maps =
        if (s.balance? (decimal 1)).isSome then s.maps
        else { s.maps with balances := Maps.genesisBalances s.balance? }
      split
      · rename_i h
        rw [balance?, Option.isSome_map] at h
        rw [initializeGenesisData, if_pos h]
      · rename_i h
        exact maps_of_accounts (fun k hk => get_initializeGenesisData_of_head hk)
          cache_initializeGenesisData (balance?_initializeGenesisData h)
  | applyTransaction entry senderNewBal receiverNewBal resultMsg =>
      exact Maps.ext loadHardState_applyTransaction (funext fun _ => entry?_applyTransaction)
        balance?_applyTransaction result?_applyTransaction rfl
        storedLastLogIndex_applyTransaction getLastAppliedIndex_applyTransaction

lemma maps_foldl (calls : List StoreCall) : ∀ s : RocksDBStore,
    (calls.foldl call s).maps = calls.foldl Maps.call s.maps := by
  induction calls with
  | nil => exact fun _ => rfl
  | cons c calls ih =>
      intro s
      rw [List.foldl_cons, List.foldl_cons, ih, maps_call]

/-! ## Reads -/

/-- A number is read back from the text that is stored for it. -/
lemma stoi_eq_parseDecimal (v : Value) : v.stoi = parseDecimal v.bytes := by
  cases v with
  | num n => exact (parseDecimal_decimal n).symm
  | _ => rfl

/-- Every read returns what the maps hold, and so does the last index when the database is opened
again. -/
structure Agrees (s : RocksDBStore) (m : Maps) : Prop where
  loadHardState : s.loadHardState = m.hardState
  getLogEntry : ∀ i, s.getLogEntry i = (m.entries i).getD .empty
  getLastLogIndex : s.getLastLogIndex = m.lastLogIndex
  getBalance : ∀ a, s.getBalance a = (m.balances a).getD 0
  getRequestIndex : ∀ r,
    s.getRequestIndex r = ((m.results r).map CommandResult.executedAtIndex).getD 0
  getRequestResult : ∀ r,
    s.getRequestResult r = ((m.results r).map CommandResult.resultMessage).getD []
  getLastAppliedIndex : s.getLastAppliedIndex = m.lastApplied
  reopened : (openDB s.db).getLastLogIndex = m.storedLastLogIndex
  text : ∀ key v, s.db.get key = some v → v.stoi = parseDecimal v.bytes

lemma agrees_maps (s : RocksDBStore) : s.Agrees s.maps where
  loadHardState := rfl
  getLogEntry _ := getLogEntry_eq
  getLastLogIndex := rfl
  getBalance a := by
    show s.getBalance a = (s.balance? a).getD 0
    rw [getBalance, balance?]
    cases s.db.get (acctKey a) <;> rfl
  getRequestIndex r := by
    show s.getRequestIndex r = ((s.result? r).map CommandResult.executedAtIndex).getD 0
    rw [getRequestIndex, result?]
    cases s.db.get (reqKey r) <;> rfl
  getRequestResult r := by
    show s.getRequestResult r = ((s.result? r).map CommandResult.resultMessage).getD []
    rw [getRequestResult, result?]
    cases s.db.get (reqKey r) <;> rfl
  getLastAppliedIndex := rfl
  reopened := rfl
  text _ v _ := stoi_eq_parseDecimal v

/-- **The flat key space refines separate maps.**  After any calls on a new database every read
returns what the maps hold after the same calls. -/
theorem flat_store_refines_maps (calls : List StoreCall) :
    (calls.foldl call (openDB .empty)).Agrees (calls.foldl Maps.call Maps.new) := by
  rw [← maps_new, ← maps_foldl]
  exact agrees_maps _

end RocksDBStore

end RaftConsensus
