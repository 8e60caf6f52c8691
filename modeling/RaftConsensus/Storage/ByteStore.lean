import RaftConsensus.Network.Encoding
import RaftConsensus.Storage.SeparateMaps

/-!
# The store in bytes

RocksDB keeps byte strings.  `ByteStore` is the store as it is, which serialises what it writes and
parses what it reads, while `RocksDBStore` keeps the objects.  `std::stoi` throws at a text without
digits and at a number that is no `int`: such a read returns nothing here, and `RocksDBStore` reads
some number.

Every write does the same to both (`bytes_write`), and what has been written is read back as it was
(`Value.parseEntry_eq`, `Value.parseResult_eq`, `readInt_bytes`), so that nothing can be told from
the other before something throws (`byte_store_agrees`): not by a read, a dump or by opening the
database again.  Only the text of a snapshot can make it throw.
-/

namespace RaftConsensus

open Bytes Wire

/-- An open store: the database and the cached last index. -/
structure ByteStore where
  db : KVMap Bytes Bytes
  lastLogIndexCache : ℤ

namespace ByteStore

/-- A stored number, with `std::stoi`.  There is none where it throws. -/
def readInt (db : KVMap Bytes Bytes) (key : Bytes) (default : ℤ) : Option ℤ :=
  match db.get key with
  | some v => parseInt32 v
  | none => some default

def openDB (db : KVMap Bytes Bytes) : Option ByteStore := do
  let lastLogIndex ← readInt db lastLogIndexKey 0
  return ⟨db, lastLogIndex⟩

def initializeGenesisData (s : ByteStore) : ByteStore :=
  if (s.db.get (acctKey (decimal 1))).isSome then s
  else
    { s with
      db := s.db.write
        ((loopRange 1 9000).map fun i => .put (acctKey (decimal i)) (decimal 100000)) }

/-! ### Hard state -/

def loadHardState (s : ByteStore) : Option (ℤ × ℤ) := do
  let term ← readInt s.db termKey 0
  let votedFor ← readInt s.db voteKey (-1)
  return (term, votedFor)

def saveHardState (s : ByteStore) (term votedFor : ℤ) : ByteStore :=
  { s with db := s.db.write [.put termKey (decimal term), .put voteKey (decimal votedFor)] }

/-! ### The log -/

def getLastLogIndex (s : ByteStore) : ℤ := s.lastLogIndexCache

def getLogEntry (s : ByteStore) (index : ℤ) : LogEntry :=
  match s.db.get (formatLogKey index) with
  | some v => .parse v
  | none => .empty

def appendLog (s : ByteStore) (entry : LogEntry) : ByteStore where
  db := s.db.write [.put (formatLogKey entry.index) entry.serialize,
    .put lastLogIndexKey (decimal entry.index)]
  lastLogIndexCache := entry.index

def appendLogs (s : ByteStore) (entries : List LogEntry) : ByteStore :=
  if entries = [] then s
  else
    let maxIndex := entries.foldl (fun m e => if m < e.index then e.index else m)
      s.lastLogIndexCache
    { db := s.db.write ((entries.map fun e => .put (formatLogKey e.index) e.serialize) ++
        [.put lastLogIndexKey (decimal maxIndex)])
      lastLogIndexCache := maxIndex }

def truncateLog (s : ByteStore) (startIndex : ℤ) : ByteStore where
  db := ((loopRange startIndex s.lastLogIndexCache).foldl
    (fun db i => db.delete (formatLogKey i)) s.db).put lastLogIndexKey (decimal (startIndex - 1))
  lastLogIndexCache := startIndex - 1

def compactLog (s : ByteStore) (compactIndex : ℤ) : ByteStore :=
  { s with
    db := (loopRange 0 compactIndex).foldl (fun db i => db.delete (formatLogKey i)) s.db }

/-! ### State machine -/

def getBalance (s : ByteStore) (accountId : Bytes) : Option ℤ := readInt s.db (acctKey accountId) 0

def getRequestResult (s : ByteStore) (requestId : Bytes) : Bytes :=
  match s.db.get (reqKey requestId) with
  | some v => (CommandResult.parse v).resultMessage
  | none => []

def getRequestIndex (s : ByteStore) (requestId : Bytes) : ℤ :=
  match s.db.get (reqKey requestId) with
  | some v => (CommandResult.parse v).executedAtIndex
  | none => 0

def getLastAppliedIndex (s : ByteStore) : Option ℤ := readInt s.db lastAppliedKey 0

def applyTransaction (s : ByteStore) (entry : LogEntry) (senderNewBal receiverNewBal : ℤ)
    (resultMsg : Bytes) : ByteStore :=
  { s with
    db := s.db.write (
      (if 0 ≤ senderNewBal then [.put (acctKey entry.command.senderId) (decimal senderNewBal)]
        else []) ++
      (if 0 ≤ receiverNewBal then
          [.put (acctKey entry.command.receiverId) (decimal receiverNewBal)]
        else []) ++
      [.put (reqKey entry.command.requestId) (CommandResult.serialize ⟨resultMsg, entry.index⟩),
        .put lastAppliedKey (decimal entry.index)]) }

/-! ### Snapshots -/

def createSnapshot (s : ByteStore) : Option RocksDBStore.SnapshotData := do
  let lastIndex ← s.getLastAppliedIndex
  return ⟨lastIndex, (s.getLogEntry lastIndex).term,
    dumpLines (s.db.entries.filter fun p => isRecordKey p.1)⟩

def applySnapshot (s : ByteStore) (snapshotData : Bytes) (lastIndex lastTerm : ℤ) : ByteStore :=
  { s with
    db := s.db.write (
      ((s.db.entries.filter fun p => isRecordKey p.1).map fun p => .delete p.1) ++
      ((pairLines snapshotData).map fun p => .put p.1 p.2) ++
      [.put lastAppliedKey (decimal lastIndex), .put snapshotIndexKey (decimal lastIndex),
        .put snapshotTermKey (decimal lastTerm)]) }

end ByteStore

/-! ## Writes -/

/-- What changes a store. -/
inductive StoreUpdate
  | initializeGenesisData
  | saveHardState (term votedFor : ℤ)
  | appendLog (entry : LogEntry)
  | appendLogs (entries : List LogEntry)
  | truncateLog (startIndex : ℤ)
  | compactLog (compactIndex : ℤ)
  | applyTransaction (entry : LogEntry) (senderNewBal receiverNewBal : ℤ) (resultMsg : Bytes)
  | applySnapshot (snapshotData : Bytes) (lastIndex lastTerm : ℤ)
  /-- The process ends, and the database is opened again. -/
  | reopen

/-- The entries and results that are written can be serialised, and the numbers are of the type
`int`.  The text of a snapshot is arbitrary. -/
def StoreUpdate.Valid : StoreUpdate → Prop
  | .saveHardState term votedFor => FitsInt32 term ∧ FitsInt32 votedFor
  | .appendLog entry => entry.Valid
  | .appendLogs entries => ∀ e ∈ entries, e.Valid
  | .truncateLog startIndex => FitsInt32 (startIndex - 1)
  | .applyTransaction entry senderNewBal receiverNewBal resultMsg =>
      CommandResult.Valid ⟨resultMsg, entry.index⟩ ∧ FitsInt32 senderNewBal ∧
        FitsInt32 receiverNewBal
  | .applySnapshot _ lastIndex lastTerm => FitsInt32 lastIndex ∧ FitsInt32 lastTerm
  | _ => True

/-- Opening the database again is the only write that reads a number. -/
def ByteStore.write (s : ByteStore) : StoreUpdate → Option ByteStore
  | .initializeGenesisData => some s.initializeGenesisData
  | .saveHardState term votedFor => some (s.saveHardState term votedFor)
  | .appendLog entry => some (s.appendLog entry)
  | .appendLogs entries => some (s.appendLogs entries)
  | .truncateLog startIndex => some (s.truncateLog startIndex)
  | .compactLog compactIndex => some (s.compactLog compactIndex)
  | .applyTransaction entry senderNewBal receiverNewBal resultMsg =>
      some (s.applyTransaction entry senderNewBal receiverNewBal resultMsg)
  | .applySnapshot snapshotData lastIndex lastTerm =>
      some (s.applySnapshot snapshotData lastIndex lastTerm)
  | .reopen => openDB s.db

namespace RocksDBStore

def write (s : RocksDBStore) : StoreUpdate → RocksDBStore
  | .initializeGenesisData => s.initializeGenesisData
  | .saveHardState term votedFor => s.saveHardState term votedFor
  | .appendLog entry => s.appendLog entry
  | .appendLogs entries => s.appendLogs entries
  | .truncateLog startIndex => s.truncateLog startIndex
  | .compactLog compactIndex => s.compactLog compactIndex
  | .applyTransaction entry senderNewBal receiverNewBal resultMsg =>
      s.applyTransaction entry senderNewBal receiverNewBal resultMsg
  | .applySnapshot snapshotData lastIndex lastTerm =>
      s.applySnapshot snapshotData lastIndex lastTerm
  | .reopen => openDB s.db

/-- The store in bytes. -/
def bytes (s : RocksDBStore) : ByteStore := ⟨s.db.map Value.bytes, s.lastLogIndexCache⟩

variable {s : RocksDBStore} {k : Bytes} {v : Value}

/-- Deleting keys one by one, in bytes. -/
lemma map_foldl_delete (is : List ℤ) : ∀ db : KVMap Bytes Value,
    (is.foldl (fun db i => db.delete (formatLogKey i)) db).map Value.bytes =
      is.foldl (fun db i => db.delete (formatLogKey i)) (db.map Value.bytes) := by
  induction is with
  | nil => exact fun _ => rfl
  | cons i is ih =>
      intro db
      have hdelete : (db.delete (formatLogKey i)).map Value.bytes =
          (db.map Value.bytes).delete (formatLogKey i) := KVMap.map_apply _ _ (.delete _)
      rw [List.foldl_cons, List.foldl_cons, ih, hdelete]

/-- A number that is stored under the key, or nothing. -/
def numeric (s : RocksDBStore) (key : Bytes) : Bool :=
  (s.db.get key).all fun v => (parseInt32 v.bytes).isSome

/-- A stored number, in bytes, unless reading it throws. -/
lemma readInt_bytes (key : Bytes) (default : ℤ) :
    ByteStore.readInt s.bytes.db key default =
      if s.numeric key then some ((s.db.get key).elim default Value.stoi) else none := by
  rw [ByteStore.readInt, numeric, bytes, KVMap.get_map]
  cases s.db.get key with
  | none => rfl
  | some v =>
      show parseInt32 v.bytes = if (parseInt32 v.bytes).isSome then some v.stoi else none
      cases hv : parseInt32 v.bytes with
      | none => rfl
      | some n => rw [eq_of_parseInt32 hv, stoi_eq_parseDecimal, Option.isSome_some, if_pos rfl]

lemma openDB_bytes : ByteStore.openDB s.bytes.db =
    if s.numeric lastLogIndexKey then some (openDB s.db).bytes else none := by
  have hcache : (s.db.get lastLogIndexKey).elim 0 Value.stoi = (openDB s.db).lastLogIndexCache := by
    rw [openDB]
    cases s.db.get lastLogIndexKey <;> rfl
  rw [ByteStore.openDB, readInt_bytes, hcache]
  split <;> rfl

/-- The records of a store, in bytes. -/
lemma entries_bytes : s.bytes.db.entries = s.db.entries.map fun p => (p.1, p.2.bytes) :=
  KVMap.entries_map Value.bytes s.db

lemma filter_entries_bytes :
    (s.bytes.db.entries.filter fun p => isRecordKey p.1) =
      (s.db.entries.filter fun p => isRecordKey p.1).map fun p => (p.1, p.2.bytes) := by
  rw [entries_bytes, List.filter_map]
  rfl

lemma some_mk_congr {db db' : KVMap Bytes Bytes} {i : ℤ} (h : db = db') :
    some (ByteStore.mk db i) = some (ByteStore.mk db' i) :=
  congrArg (fun db => some (ByteStore.mk db i)) h

/-- **Every write does the same to the store in bytes**, if the database can be opened. -/
theorem bytes_write (s : RocksDBStore) {w : StoreUpdate}
    (h : w = .reopen → s.numeric lastLogIndexKey = true) :
    s.bytes.write w = some (s.write w).bytes := by
  symm
  cases w with
  | initializeGenesisData =>
      have hsome : (s.bytes.db.get (acctKey (decimal 1))).isSome =
          (s.db.get (acctKey (decimal 1))).isSome := Option.isSome_map
      simp only [write, ByteStore.write, initializeGenesisData, ByteStore.initializeGenesisData,
        hsome]
      generalize loopRange 1 9000 = is
      split
      · rfl
      · refine some_mk_congr ?_
        rw [KVMap.map_write, List.map_map]
        rfl
  | saveHardState term votedFor => exact some_mk_congr (KVMap.map_write _ _ _)
  | appendLog entry => exact some_mk_congr (KVMap.map_write _ _ _)
  | appendLogs entries =>
      simp only [write, ByteStore.write, appendLogs, ByteStore.appendLogs]
      split
      · rfl
      · refine some_mk_congr ?_
        rw [KVMap.map_write, List.map_append, List.map_map]
        rfl
  | truncateLog startIndex =>
      refine some_mk_congr ((KVMap.map_apply _ _ (.put _ _)).trans ?_)
      rw [map_foldl_delete]
      rfl
  | compactLog compactIndex => exact some_mk_congr (map_foldl_delete _ _)
  | applyTransaction entry senderNewBal receiverNewBal resultMsg =>
      refine some_mk_congr ((KVMap.map_write _ _ _).trans ?_)
      rw [List.map_append, List.map_append, apply_ite (List.map _), apply_ite (List.map _)]
      rfl
  | applySnapshot snapshotData lastIndex lastTerm =>
      simp only [write, ByteStore.write, applySnapshot, ByteStore.applySnapshot,
        filter_entries_bytes]
      refine some_mk_congr ?_
      rw [KVMap.map_write, List.map_append, List.map_append, List.map_map, List.map_map,
        List.map_map]
      rfl
  | reopen => exact (openDB_bytes.trans (if_pos (h rfl))).symm

/-- A database that cannot be opened. -/
lemma bytes_write_reopen (h : s.numeric lastLogIndexKey = false) : s.bytes.write .reopen = none :=
  openDB_bytes.trans (if_neg (by simp [h]))

/-- **After any writes** the store in bytes has done the same, unless the database could not be
opened in between. -/
lemma bytes_foldlM (ws : List StoreUpdate) : ∀ s : RocksDBStore,
    ws.foldlM ByteStore.write s.bytes = some (ws.foldl write s).bytes ∨
      ws.foldlM ByteStore.write s.bytes = none ∧ ∃ ws₁ ws₂, ws = ws₁ ++ .reopen :: ws₂ ∧
        (ws₁.foldl write s).numeric lastLogIndexKey = false := by
  induction ws with
  | nil => exact fun _ => .inl rfl
  | cons w ws ih =>
      intro s
      by_cases h : w = .reopen → s.numeric lastLogIndexKey = true
      · rw [List.foldlM_cons, bytes_write s h]
        refine (ih (s.write w)).imp_right ?_
        rintro ⟨hnone, ws₁, ws₂, rfl, hws⟩
        exact ⟨hnone, w :: ws₁, ws₂, rfl, hws⟩
      · obtain ⟨rfl, hnum⟩ := Classical.not_imp.mp h
        rw [List.foldlM_cons, bytes_write_reopen (by simpa using hnum)]
        exact .inr ⟨rfl, [], ws, rfl, by simpa using hnum⟩

end RocksDBStore

/-! ## Values that are read back -/

/-- A value that can be serialised. -/
def Value.Valid : Value → Prop
  | .entry e => e.Valid
  | .result r => r.Valid
  | _ => True

lemma Value.parseEntry_eq {v : Value} (h : v.Valid) : v.parseEntry = .parse v.bytes := by
  cases v with
  | entry e => exact (LogEntry.parse_serialize h).symm
  | _ => rfl

lemma Value.parseResult_eq {v : Value} (h : v.Valid) : v.parseResult = .parse v.bytes := by
  cases v with
  | result r => exact (CommandResult.parse_serialize h).symm
  | _ => rfl

/-- A key under which numbers are stored. -/
def isNumberKey (key : Bytes) : Bool :=
  key = termKey || key = voteKey || key = lastLogIndexKey || key = lastAppliedKey ||
    (ascii "acct:").isPrefixOf key

lemma isNumberKey_formatLogKey (i : ℤ) : isNumberKey (formatLogKey i) = false := rfl

lemma isNumberKey_reqKey (r : Bytes) : isNumberKey (reqKey r) = false := rfl

/-- The numbers in the text of a snapshot are numbers. -/
def StoreUpdate.Numeric : StoreUpdate → Prop
  | .applySnapshot snapshotData _ _ =>
      ∀ p ∈ pairLines snapshotData, isNumberKey p.1 → (parseInt32 p.2).isSome
  | _ => True

namespace RocksDBStore

variable {s : RocksDBStore} {w : StoreUpdate} {k : Bytes} {v : Value}

/-- What a write can store under a key. -/
def CanStore (s : RocksDBStore) (w : StoreUpdate) (key : Bytes) : Value → Prop
  | .num n => FitsInt32 s.lastLogIndexCache → FitsInt32 n
  | .entry e => key = formatLogKey e.index ∧ e.Valid
  | .result r => (∃ id, key = reqKey id) ∧ r.Valid
  | .raw b => w.Numeric → isNumberKey key → (parseInt32 b).isSome

/-- A batch that is part of a write. -/
lemma canStore_batch {batch : List (KVMap.Op Bytes Value)}
    (hbatch : ∀ k v, KVMap.Op.put k v ∈ batch → s.CanStore w k v)
    (h : (s.db.write batch).get k = some v) : s.db.get k = some v ∨ s.CanStore w k v :=
  have hput : ∀ k v, KVMap.Op.put k v ∈ batch → s.db.get k = some v ∨ s.CanStore w k v :=
    fun k v hmem => .inr (hbatch k v hmem)
  KVMap.forall_get_write hput (fun _ _ h => .inl h) k v h

lemma get_of_get_deletes (is : List ℤ)
    (h : (is.foldl (fun db i => db.delete (formatLogKey i)) s.db).get k = some v) :
    s.db.get k = some v := by
  rw [KVMapLog.get_foldl_delete] at h
  split at h
  · cases h
  · exact h

/-- The greatest index of a batch of entries. -/
lemma fitsInt32_foldl_max {entries : List LogEntry} (h : ∀ e ∈ entries, e.Valid) :
    ∀ {m : ℤ}, FitsInt32 m →
      FitsInt32 (entries.foldl (fun m e => if m < e.index then e.index else m) m) := by
  induction entries with
  | nil => exact fun hm => hm
  | cons e entries ih =>
      intro m hm
      refine ih (fun e' he' => h e' (by simp [he'])) ?_
      show FitsInt32 (if m < e.index then e.index else m)
      split
      · exact (h e (by simp)).index
      · exact hm

/-- **What is stored after a write was stored before it, or the write has stored it.** -/
lemma get_write (hw : w.Valid) (h : (s.write w).db.get k = some v) :
    s.db.get k = some v ∨ s.CanStore w k v := by
  cases w with
  | initializeGenesisData =>
      simp only [write, initializeGenesisData] at h
      generalize loopRange 1 9000 = is at h
      split at h
      · exact .inl h
      · refine canStore_batch (fun k v hmem => ?_) h
        obtain ⟨i, -, hi⟩ := List.mem_map.mp hmem
        cases hi
        exact fun _ => by decide
  | saveHardState term votedFor =>
      refine canStore_batch (fun k v hmem => ?_) h
      simp only [List.mem_cons, List.not_mem_nil, or_false] at hmem
      rcases hmem with hmem | hmem <;> cases hmem
      · exact fun _ => hw.1
      · exact fun _ => hw.2
  | appendLog entry =>
      refine canStore_batch (fun k v hmem => ?_) h
      simp only [List.mem_cons, List.not_mem_nil, or_false] at hmem
      rcases hmem with hmem | hmem <;> cases hmem
      · exact ⟨rfl, hw⟩
      · exact fun _ => LogEntry.Valid.index hw
  | appendLogs entries =>
      simp only [write, appendLogs] at h
      split at h
      · exact .inl h
      · refine canStore_batch (fun k v hmem => ?_) h
        simp only [List.mem_append, List.mem_map, List.mem_singleton] at hmem
        rcases hmem with ⟨e, he, heq⟩ | hmem
        · cases heq
          exact ⟨rfl, hw e he⟩
        · cases hmem
          exact fitsInt32_foldl_max hw
  | truncateLog startIndex =>
      simp only [write, truncateLog, KVMap.get_put] at h
      split at h
      · cases h
        exact .inr fun _ => hw
      · exact .inl (get_of_get_deletes _ h)
  | compactLog compactIndex => exact .inl (get_of_get_deletes _ h)
  | applyTransaction entry senderNewBal receiverNewBal resultMsg =>
      obtain ⟨hresult, hsender, hreceiver⟩ := hw
      refine canStore_batch (fun k v hmem => ?_) h
      simp only [List.mem_append, List.mem_cons, List.not_mem_nil, or_false] at hmem
      rcases hmem with (hmem | hmem) | hmem | hmem
      · split at hmem
        · cases List.mem_singleton.mp hmem
          exact fun _ => hsender
        · cases hmem
      · split at hmem
        · cases List.mem_singleton.mp hmem
          exact fun _ => hreceiver
        · cases hmem
      · cases hmem
        exact ⟨⟨_, rfl⟩, hresult⟩
      · cases hmem
        exact fun _ => hresult.executedAtIndex
  | applySnapshot snapshotData lastIndex lastTerm =>
      refine canStore_batch (fun k v hmem => ?_) h
      simp only [List.mem_append, List.mem_map, List.mem_cons, List.not_mem_nil, or_false,
        reduceCtorEq, and_false, exists_false, false_or] at hmem
      rcases hmem with ⟨p, hp, heq⟩ | hmem | hmem | hmem
      · cases heq
        exact fun hnum => hnum p hp
      · cases hmem
        exact fun _ => hw.1
      · cases hmem
        exact fun _ => hw.1
      · cases hmem
        exact fun _ => hw.2
  | reopen => exact .inl h

/-- Everything stored can be serialised. -/
def ValuesValid (s : RocksDBStore) : Prop := ∀ k v, s.db.get k = some v → v.Valid

/-- **Every write keeps the store serialisable.** -/
lemma ValuesValid.write (h : s.ValuesValid) (hw : w.Valid) : (s.write w).ValuesValid := by
  intro k v hget
  rcases get_write hw hget with hold | hnew
  · exact h k v hold
  · cases v with
    | entry e => exact hnew.2
    | result r => exact hnew.2
    | _ => trivial

/-- All stored numbers are numbers. -/
structure Numbers (s : RocksDBStore) : Prop where
  stored : ∀ k v, s.db.get k = some v → isNumberKey k → (parseInt32 v.bytes).isSome
  last : FitsInt32 s.lastLogIndexCache

lemma Numbers.numeric (h : s.Numbers) (hk : isNumberKey k) : s.numeric k = true := by
  rw [RocksDBStore.numeric]
  cases hv : s.db.get k with
  | none => rfl
  | some v => exact h.stored k v hv hk

/-- A stored number is an `int`. -/
lemma fitsInt32_stoi {v : Value} (h : (parseInt32 v.bytes).isSome) : FitsInt32 v.stoi := by
  obtain ⟨n, hn⟩ := Option.isSome_iff_exists.mp h
  rw [stoi_eq_parseDecimal]
  rw [parseInt32] at hn
  split_ifs at hn with hdigits hfits
  exact hfits

/-- **Every write keeps numbers**, if the text of a snapshot has them. -/
lemma Numbers.write (h : s.Numbers) (hw : w.Valid) (hnum : w.Numeric) : (s.write w).Numbers where
  stored k v hget hk := by
    rcases get_write hw hget with hold | hnew
    · exact h.stored k v hold hk
    · cases v with
      | num n => exact Option.isSome_of_eq_some (parseInt32_decimal (hnew h.last))
      | entry e =>
          rw [hnew.1, isNumberKey_formatLogKey] at hk
          cases hk
      | result r =>
          obtain ⟨⟨id, rfl⟩, -⟩ := hnew
          rw [isNumberKey_reqKey] at hk
          cases hk
      | raw b => exact hnew hnum hk
  last := by
    cases w with
    | initializeGenesisData =>
        simp only [RocksDBStore.write, initializeGenesisData]
        split
        · exact h.last
        · exact h.last
    | appendLog entry => exact LogEntry.Valid.index hw
    | appendLogs entries =>
        simp only [RocksDBStore.write, appendLogs]
        split
        · exact h.last
        · exact fitsInt32_foldl_max hw h.last
    | truncateLog startIndex => exact hw
    | reopen =>
        simp only [RocksDBStore.write, openDB]
        split
        · rename_i v hv
          exact fitsInt32_stoi (h.stored _ v hv rfl)
        · decide
    | saveHardState | compactLog | applyTransaction | applySnapshot => exact h.last

lemma numbers_new : (openDB .empty).Numbers where
  stored _ _ h := by cases h
  last := by decide

lemma numbers_foldl (ws : List StoreUpdate) : ∀ {s : RocksDBStore}, s.Numbers →
    (∀ w ∈ ws, w.Valid ∧ w.Numeric) → (ws.foldl RocksDBStore.write s).Numbers := by
  induction ws with
  | nil => exact fun h _ => h
  | cons w ws ih =>
      intro s h hws
      obtain ⟨hw, hnum⟩ := hws w (by simp)
      exact ih (h.write hw hnum) fun w' hw' => hws w' (by simp [hw'])

lemma valuesValid_new : (openDB .empty).ValuesValid := fun _ _ h => by cases h

lemma valuesValid_foldl (ws : List StoreUpdate) : ∀ {s : RocksDBStore}, s.ValuesValid →
    (∀ w ∈ ws, w.Valid) → (ws.foldl RocksDBStore.write s).ValuesValid := by
  induction ws with
  | nil => exact fun h _ => h
  | cons w ws ih =>
      intro s h hws
      exact ih (h.write (hws w (by simp))) fun w' hw' => hws w' (by simp [hw'])

end RocksDBStore

/-! ## Agreement -/

/-- What is read from one store is what is read from the other.  The store in bytes throws exactly
where something else than a number is stored for a number. -/
structure ByteStore.Agrees (b : ByteStore) (s : RocksDBStore) : Prop where
  loadHardState : b.loadHardState =
    if s.numeric termKey ∧ s.numeric voteKey then some s.loadHardState else none
  getLastLogIndex : b.getLastLogIndex = s.getLastLogIndex
  getLogEntry : ∀ i, b.getLogEntry i = s.getLogEntry i
  getBalance : ∀ a, b.getBalance a = if s.numeric (acctKey a) then some (s.getBalance a) else none
  getRequestIndex : ∀ r, b.getRequestIndex r = s.getRequestIndex r
  getRequestResult : ∀ r, b.getRequestResult r = s.getRequestResult r
  getLastAppliedIndex : b.getLastAppliedIndex =
    if s.numeric lastAppliedKey then some s.getLastAppliedIndex else none
  createSnapshot : b.createSnapshot =
    if s.numeric lastAppliedKey then some s.createSnapshot else none

namespace RocksDBStore

variable {s : RocksDBStore}

lemma loadHardState_bytes : s.bytes.loadHardState =
    if s.numeric termKey ∧ s.numeric voteKey then some s.loadHardState else none := by
  rw [ByteStore.loadHardState, readInt_bytes, readInt_bytes]
  by_cases hterm : s.numeric termKey <;> by_cases hvote : s.numeric voteKey <;>
    simp [hterm, hvote, loadHardState]

lemma getLastAppliedIndex_bytes : s.bytes.getLastAppliedIndex =
    if s.numeric lastAppliedKey then some s.getLastAppliedIndex else none := by
  rw [ByteStore.getLastAppliedIndex, readInt_bytes, getLastAppliedIndex]
  cases s.db.get lastAppliedKey <;> rfl

lemma getBalance_bytes (a : Bytes) : s.bytes.getBalance a =
    if s.numeric (acctKey a) then some (s.getBalance a) else none := by
  rw [ByteStore.getBalance, readInt_bytes, getBalance]
  cases s.db.get (acctKey a) <;> rfl

lemma getLogEntry_bytes (h : s.ValuesValid) (i : ℤ) : s.bytes.getLogEntry i = s.getLogEntry i := by
  rw [ByteStore.getLogEntry, getLogEntry, bytes, KVMap.get_map]
  cases hs : s.db.get (formatLogKey i) with
  | none => rfl
  | some v => exact (Value.parseEntry_eq (h _ v hs)).symm

/-- A store that can be serialised agrees with its bytes. -/
lemma ValuesValid.agrees (h : s.ValuesValid) : s.bytes.Agrees s where
  loadHardState := loadHardState_bytes
  getLastLogIndex := rfl
  getLogEntry := getLogEntry_bytes h
  getBalance := getBalance_bytes
  getRequestIndex r := by
    rw [ByteStore.getRequestIndex, getRequestIndex, bytes, KVMap.get_map]
    cases hs : s.db.get (reqKey r) with
    | none => rfl
    | some v => exact congrArg CommandResult.executedAtIndex (Value.parseResult_eq (h _ v hs)).symm
  getRequestResult r := by
    rw [ByteStore.getRequestResult, getRequestResult, bytes, KVMap.get_map]
    cases hs : s.db.get (reqKey r) with
    | none => rfl
    | some v => exact congrArg CommandResult.resultMessage (Value.parseResult_eq (h _ v hs)).symm
  getLastAppliedIndex := getLastAppliedIndex_bytes
  createSnapshot := by
    rw [ByteStore.createSnapshot, getLastAppliedIndex_bytes]
    by_cases hnum : s.numeric lastAppliedKey
    · rw [if_pos hnum, if_pos hnum, createSnapshot, Option.bind_eq_bind, Option.bind_some,
        getLogEntry_bytes h, filter_entries_bytes]
      rfl
    · rw [if_neg hnum, if_neg hnum]
      rfl

/-- **Keeping bytes makes no difference.**  After any writes to a new database, of entries and
results that can be serialised, every read of the store in bytes returns what the store of objects
returns, or throws where what is stored is no number; the run ends where the database is opened and
its last index is none.  Nothing throws if the snapshots have numbers where numbers belong. -/
theorem byte_store_agrees {ws : List StoreUpdate} (hws : ∀ w ∈ ws, w.Valid) :
    (match ws.foldlM ByteStore.write ⟨.empty, 0⟩ with
      | some b => b.Agrees (ws.foldl RocksDBStore.write (openDB .empty))
      | none => ∃ ws₁ ws₂, ws = ws₁ ++ .reopen :: ws₂ ∧
          (ws₁.foldl RocksDBStore.write (openDB .empty)).numeric lastLogIndexKey = false) ∧
    ((∀ w ∈ ws, w.Numeric) →
      (ws.foldlM ByteStore.write ⟨.empty, 0⟩).isSome ∧
      ∀ key, isNumberKey key → (ws.foldl RocksDBStore.write (openDB .empty)).numeric key) := by
  have hnew : (⟨.empty, 0⟩ : ByteStore) = (openDB .empty).bytes := rfl
  have hagrees := (valuesValid_foldl ws valuesValid_new hws).agrees
  rw [hnew]
  rcases bytes_foldlM ws (openDB .empty) with hsome | ⟨hnone, ws₁, ws₂, heq, hfails⟩
  · rw [hsome]
    refine ⟨hagrees, fun hnum => ⟨rfl, fun key hkey => ?_⟩⟩
    exact (numbers_foldl ws numbers_new fun w hw => ⟨hws w hw, hnum w hw⟩).numeric hkey
  · rw [hnone]
    refine ⟨⟨ws₁, ws₂, heq, hfails⟩, fun hnum => ?_⟩
    have hmem : ∀ w ∈ ws₁, w ∈ ws := fun w hw => by simp [heq, hw]
    have hnumbers := numbers_foldl ws₁ numbers_new fun w hw =>
      ⟨hws w (hmem w hw), hnum w (hmem w hw)⟩
    rw [hnumbers.numeric rfl] at hfails
    cases hfails

/-- An entry of a negative amount and an unnamed type is stored and executed, and the database is
opened again. -/
def storeAndReopen : List StoreUpdate :=
  [.appendLog ⟨3, 1, ⟨ascii "r", .unrecognized 7, ascii "1", [], -50⟩⟩,
    .applyTransaction ⟨3, 1, ⟨ascii "r", .unrecognized 7, ascii "1", [], -50⟩⟩ 20 (-1) (ascii "ok"),
    .reopen]

/-- The entry and its result are read back. -/
theorem byte_store_agrees_reopened :
    ∃ b, storeAndReopen.foldlM ByteStore.write ⟨.empty, 0⟩ = some b ∧
      b.Agrees (storeAndReopen.foldl RocksDBStore.write (openDB .empty)) := by
  have hvalid : ∀ w ∈ storeAndReopen, w.Valid := by
    intro w hw
    simp only [storeAndReopen, List.mem_cons, List.not_mem_nil, or_false] at hw
    rcases hw with rfl | rfl | rfl
    · exact ⟨by decide, by decide, by decide +kernel⟩
    · exact ⟨⟨by decide, by decide +kernel⟩, by decide, by decide⟩
    · trivial
  have hnumeric : ∀ w ∈ storeAndReopen, w.Numeric := by
    intro w hw
    simp only [storeAndReopen, List.mem_cons, List.not_mem_nil, or_false] at hw
    rcases hw with rfl | rfl | rfl <;> trivial
  obtain ⟨hagrees, hnothrow⟩ := byte_store_agrees hvalid
  obtain ⟨b, hb⟩ := Option.isSome_iff_exists.mp (hnothrow hnumeric).1
  rw [hb] at hagrees
  exact ⟨b, hb, hagrees⟩

end RocksDBStore

end RaftConsensus
