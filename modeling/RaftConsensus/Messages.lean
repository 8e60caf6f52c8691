import RaftConsensus.Library.Wire

/-!
# Messages

The protocol-buffer messages of `client.proto` and `raft.proto`.  Strings are byte strings, and
the `int32` fields are integers: no modelled run counts up to `2 ^ 31`.  `conflictIndex` and
`conflictTerm` of `AppendEntriesReply` are never set or read, and are left out.
-/

namespace RaftConsensus

open Bytes Wire

/-- `ClientRequest.Type`.  The enumeration is open: a number without a name is kept. -/
inductive RequestType
  | getBalance
  | transfer
  | unrecognized (n : ℕ)
  deriving DecidableEq, Repr

/-- A request of a client. -/
structure ClientRequest where
  requestId : Bytes
  type : RequestType
  senderId : Bytes
  receiverId : Bytes
  amount : ℤ
  deriving DecidableEq, Repr

/-- The answer to a client. -/
structure ClientResponse where
  success : Bool
  result : Bytes
  leaderHint : ℤ
  deriving DecidableEq, Repr

/-- One entry of the replicated log. -/
structure LogEntry where
  term : ℤ
  index : ℤ
  command : ClientRequest
  deriving DecidableEq, Repr

/-- What is stored under `req:` for an executed request. -/
structure CommandResult where
  resultMessage : Bytes
  executedAtIndex : ℤ
  deriving DecidableEq, Repr

structure RequestVoteArgs where
  term : ℤ
  candidateId : ℤ
  lastLogIndex : ℤ
  lastLogTerm : ℤ
  deriving DecidableEq, Repr

structure RequestVoteReply where
  term : ℤ
  voteGranted : Bool
  deriving DecidableEq, Repr

structure AppendEntriesArgs where
  term : ℤ
  leaderId : ℤ
  prevLogIndex : ℤ
  prevLogTerm : ℤ
  entries : List LogEntry
  leaderCommit : ℤ
  deriving DecidableEq, Repr

structure AppendEntriesReply where
  term : ℤ
  success : Bool
  deriving DecidableEq, Repr

structure InstallSnapshotArgs where
  term : ℤ
  leaderId : ℤ
  lastIncludedIndex : ℤ
  lastIncludedTerm : ℤ
  data : Bytes
  offset : ℤ
  done : Bool
  deriving DecidableEq, Repr

structure InstallSnapshotReply where
  term : ℤ
  deriving DecidableEq, Repr

/-- A request message without any field set. -/
def ClientRequest.empty : ClientRequest := ⟨[], .getBalance, [], [], 0⟩

/-- A log entry without any field set: what reading a missing entry returns. -/
def LogEntry.empty : LogEntry := ⟨0, 0, .empty⟩

/-! ## Serialisation -/

/-- The number of an enumeration value on the wire. -/
def RequestType.number : RequestType → ℕ
  | .getBalance => 0
  | .transfer => 1
  | .unrecognized n => n

/-- The enumeration value of a number on the wire. -/
def RequestType.ofNumber : ℕ → RequestType
  | 0 => .getBalance
  | 1 => .transfer
  | n => .unrecognized n

def ClientRequest.serialize (r : ClientRequest) : Bytes :=
  stringField 1 r.requestId ++ int32Field 2 r.type.number ++ stringField 3 r.senderId ++
    stringField 4 r.receiverId ++ int32Field 5 r.amount

def LogEntry.serialize (e : LogEntry) : Bytes :=
  int32Field 1 e.term ++ int32Field 2 e.index ++ lenField 3 e.command.serialize

def CommandResult.serialize (r : CommandResult) : Bytes :=
  stringField 1 r.resultMessage ++ int32Field 2 r.executedAtIndex

def ClientRequest.parse (b : Bytes) : ClientRequest :=
  let fs := fields b
  ⟨getBytes fs 1, .ofNumber (getInt32 fs 2).toNat, getBytes fs 3, getBytes fs 4, getInt32 fs 5⟩

def LogEntry.parse (b : Bytes) : LogEntry :=
  let fs := fields b
  ⟨getInt32 fs 1, getInt32 fs 2, .parse (getBytes fs 3)⟩

def CommandResult.parse (b : Bytes) : CommandResult :=
  let fs := fields b
  ⟨getBytes fs 1, getInt32 fs 2⟩

end RaftConsensus
