import RaftConsensus.Library.KeyValue
import RaftConsensus.Messages

/-!
# The store of a node

`RocksDBStore` keeps everything a node has to remember in one flat key space: the hard state
under `meta:`, the log under `log:`, the accounts under `acct:`, the results of executed requests
under `req:` and a few numbers under `sys:`.  RocksDB itself is a finite map over byte strings
with atomic batches (`KVMap`).

A stored value is kept as the object whose serialisation it is (`Value`), so that reading back
what was written needs no parsing; `Value.bytes` is the byte string that is really stored.  Bytes
of unknown origin, which only `applySnapshot` writes, are `raw` and are parsed when read.
-/

namespace RaftConsensus

open Bytes

/-! ## Values -/

/-- A stored value. -/
inductive Value
  | num (n : ℤ)
  | entry (e : LogEntry)
  | result (r : CommandResult)
  | raw (b : Bytes)
  deriving DecidableEq

/-- The byte string stored for a value. -/
def Value.bytes : Value → Bytes
  | .num n => decimal n
  | .entry e => e.serialize
  | .result r => r.serialize
  | .raw b => b

/-- `std::stoi`, as far as it returns.  It throws where `parseInt32` finds no number; here such a
text reads as what `parseDecimal` makes of it. -/
def Value.stoi : Value → ℤ
  | .num n => n
  | v => parseDecimal v.bytes

/-- `LogEntry::ParseFromString`. -/
def Value.parseEntry : Value → LogEntry
  | .entry e => e
  | v => .parse v.bytes

/-- `CommandResult::ParseFromString`. -/
def Value.parseResult : Value → CommandResult
  | .result r => r
  | v => .parse v.bytes

/-! ## Keys -/

/-- The key of a log entry, e.g. `log:0000000001`. -/
def formatLogKey (index : ℤ) : Bytes := ascii "log:" ++ padded 10 index

def acctKey (accountId : Bytes) : Bytes := ascii "acct:" ++ accountId
def reqKey (requestId : Bytes) : Bytes := ascii "req:" ++ requestId
def termKey : Bytes := ascii "meta:term"
def voteKey : Bytes := ascii "meta:vote"
def lastLogIndexKey : Bytes := ascii "sys:lastLogIndex"
def lastAppliedKey : Bytes := ascii "sys:lastApplied"
def snapshotIndexKey : Bytes := ascii "sys:snapshotIndex"
def snapshotTermKey : Bytes := ascii "sys:snapshotTerm"

/-- The keys that belong to the state machine: accounts and request results. -/
def isRecordKey (key : Bytes) : Bool :=
  (ascii "acct:").isPrefixOf key || (ascii "req:").isPrefixOf key

/-- The indices of a loop `for (int i = lo; i <= hi; ++i)`. -/
def loopRange (lo hi : ℤ) : List ℤ :=
  (List.range (hi - lo + 1).toNat).map fun k : ℕ => lo + (k : ℤ)

/-! ## The store -/

/-- An open store: the database and the cached last index. -/
structure RocksDBStore where
  db : KVMap Bytes Value
  lastLogIndexCache : ℤ

namespace RocksDBStore

/-- Opening a database loads the cached last index. -/
def openDB (db : KVMap Bytes Value) : RocksDBStore where
  db := db
  lastLogIndexCache :=
    match db.get lastLogIndexKey with
    | some v => v.stoi
    | none => 0

/-- Creates the accounts `1` to `9000`, unless account `1` exists. -/
def initializeGenesisData (s : RocksDBStore) : RocksDBStore :=
  if (s.db.get (acctKey (decimal 1))).isSome then s
  else
    { s with
      db := s.db.write ((loopRange 1 9000).map fun i => .put (acctKey (decimal i)) (.num 100000)) }

/-! ### Hard state -/

/-- The stored term and vote, `(0, -1)` if there is none. -/
def loadHardState (s : RocksDBStore) : ℤ × ℤ :=
  ((s.db.get termKey).elim 0 Value.stoi, (s.db.get voteKey).elim (-1) Value.stoi)

def saveHardState (s : RocksDBStore) (term votedFor : ℤ) : RocksDBStore :=
  { s with db := s.db.write [.put termKey (.num term), .put voteKey (.num votedFor)] }

/-! ### The log -/

def getLastLogIndex (s : RocksDBStore) : ℤ := s.lastLogIndexCache

/-- The entry at an index.  A missing entry is returned as an empty one, of term `0`. -/
def getLogEntry (s : RocksDBStore) (index : ℤ) : LogEntry :=
  match s.db.get (formatLogKey index) with
  | some v => v.parseEntry
  | none => .empty

/-- Stores an entry under its own index, which becomes the last one. -/
def appendLog (s : RocksDBStore) (entry : LogEntry) : RocksDBStore where
  db := s.db.write [.put (formatLogKey entry.index) (.entry entry),
    .put lastLogIndexKey (.num entry.index)]
  lastLogIndexCache := entry.index

/-- Stores several entries in one batch.  The last index is the greatest of theirs and the old
one. -/
def appendLogs (s : RocksDBStore) (entries : List LogEntry) : RocksDBStore :=
  if entries = [] then s
  else
    let maxIndex := entries.foldl (fun m e => if m < e.index then e.index else m)
      s.lastLogIndexCache
    { db := s.db.write ((entries.map fun e => .put (formatLogKey e.index) (.entry e)) ++
        [.put lastLogIndexKey (.num maxIndex)])
      lastLogIndexCache := maxIndex }

/-- Deletes everything from `startIndex` onwards. -/
def truncateLog (s : RocksDBStore) (startIndex : ℤ) : RocksDBStore where
  db := ((loopRange startIndex s.lastLogIndexCache).foldl
    (fun db i => db.delete (formatLogKey i)) s.db).put lastLogIndexKey (.num (startIndex - 1))
  lastLogIndexCache := startIndex - 1

/-- Deletes the entries `0` to `compactIndex`.  The last index stays. -/
def compactLog (s : RocksDBStore) (compactIndex : ℤ) : RocksDBStore :=
  { s with
    db := (loopRange 0 compactIndex).foldl (fun db i => db.delete (formatLogKey i)) s.db }

/-! ### State machine -/

/-- The balance of an account, `0` if it does not exist. -/
def getBalance (s : RocksDBStore) (accountId : Bytes) : ℤ :=
  match s.db.get (acctKey accountId) with
  | some v => v.stoi
  | none => 0

/-- The stored result of a request, empty if there is none. -/
def getRequestResult (s : RocksDBStore) (requestId : Bytes) : Bytes :=
  match s.db.get (reqKey requestId) with
  | some v => v.parseResult.resultMessage
  | none => []

/-- The index a request was executed at, `0` if there is none. -/
def getRequestIndex (s : RocksDBStore) (requestId : Bytes) : ℤ :=
  match s.db.get (reqKey requestId) with
  | some v => v.parseResult.executedAtIndex
  | none => 0

def getLastAppliedIndex (s : RocksDBStore) : ℤ :=
  match s.db.get lastAppliedKey with
  | some v => v.stoi
  | none => 0

/-- Writes new balances, the result of the request and the last applied index, in one batch.  A
negative balance stands for "no change". -/
def applyTransaction (s : RocksDBStore) (entry : LogEntry) (senderNewBal receiverNewBal : ℤ)
    (resultMsg : Bytes) : RocksDBStore :=
  { s with
    db := s.db.write (
      (if 0 ≤ senderNewBal then [.put (acctKey entry.command.senderId) (.num senderNewBal)]
        else []) ++
      (if 0 ≤ receiverNewBal then [.put (acctKey entry.command.receiverId) (.num receiverNewBal)]
        else []) ++
      [.put (reqKey entry.command.requestId) (.result ⟨resultMsg, entry.index⟩),
        .put lastAppliedKey (.num entry.index)]) }

/-! ### Snapshots -/

/-- A dump of the state machine, with the last index and term it includes. -/
structure SnapshotData where
  lastIndex : ℤ
  lastTerm : ℤ
  data : Bytes

/-- Dumps all account and request records, in key order, as alternating key and value lines. -/
def createSnapshot (s : RocksDBStore) : SnapshotData where
  lastIndex := s.getLastAppliedIndex
  lastTerm := (s.getLogEntry s.getLastAppliedIndex).term
  data := dumpLines ((s.db.entries.filter fun p => isRecordKey p.1).map fun p =>
    (p.1, p.2.bytes))

/-- Replaces all account and request records by the ones of a dump, in one batch. -/
def applySnapshot (s : RocksDBStore) (snapshotData : Bytes) (lastIndex lastTerm : ℤ) :
    RocksDBStore :=
  { s with
    db := s.db.write (
      ((s.db.entries.filter fun p => isRecordKey p.1).map fun p => .delete p.1) ++
      ((pairLines snapshotData).map fun p => .put p.1 (.raw p.2)) ++
      [.put lastAppliedKey (.num lastIndex), .put snapshotIndexKey (.num lastIndex),
        .put snapshotTermKey (.num lastTerm)]) }

end RocksDBStore

end RaftConsensus
