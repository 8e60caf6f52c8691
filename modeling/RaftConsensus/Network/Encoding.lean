import RaftConsensus.Library.WireFields
import RaftConsensus.Messages

/-!
# Messages are read back

Serialising a message and parsing the text returns the message, for the messages that a process
can hold (`Valid`): numbers of 32 bits, and less than 2 GB of text, which is as much as is ever
serialised.
-/

namespace RaftConsensus

open Wire

variable {b : Bytes} {num : ℕ}

lemma length_le_stringField : b.length ≤ (stringField num b).length := by
  unfold stringField
  split
  · rename_i hb
    simp [hb]
  · rw [lenField, List.length_append, List.length_append]
    omega

/-- A number of the enumeration that fits, and stands for itself. -/
def RequestType.Valid (t : RequestType) : Prop := ofNumber t.number = t ∧ t.number < 2 ^ 31

instance (t : RequestType) : Decidable t.Valid := inferInstanceAs (Decidable (_ ∧ _))

lemma RequestType.Valid.fitsInt32 {t : RequestType} (h : t.Valid) : FitsInt32 t.number := by
  have hlt := h.2
  constructor <;> omega

/-! ## Requests -/

namespace ClientRequest

structure Valid (r : ClientRequest) : Prop where
  type : r.type.Valid
  amount : FitsInt32 r.amount
  size : r.serialize.length < 2 ^ 31

instance (r : ClientRequest) : Decidable r.Valid :=
  decidable_of_iff (r.type.Valid ∧ FitsInt32 r.amount ∧ r.serialize.length < 2 ^ 31)
    ⟨fun ⟨ht, ha, hs⟩ => ⟨ht, ha, hs⟩, fun ⟨ht, ha, hs⟩ => ⟨ht, ha, hs⟩⟩

/-- The fields that are written. -/
def toFields (r : ClientRequest) : List (ℕ × Payload) :=
  stringFields 1 r.requestId ++ int32Fields 2 r.type.number ++ stringFields 3 r.senderId ++
    stringFields 4 r.receiverId ++ int32Fields 5 r.amount

def ofFields (fs : List (ℕ × Payload)) : ClientRequest :=
  ⟨getBytes fs 1, .ofNumber (getInt32 fs 2).toNat, getBytes fs 3, getBytes fs 4, getInt32 fs 5⟩

/-- `ParseFromArray`, which fails on a text that is no message. -/
def parse? (b : Bytes) : Option ClientRequest := (fields? b).map ofFields

variable {r : ClientRequest}

lemma serialize_eq : r.serialize = encode r.toFields := by
  simp only [serialize, toFields, encode_append, encode_stringFields, encode_int32Fields]

lemma ofFields_toFields (h : r.Valid) : ofFields r.toFields = r := by
  have ht := h.type.fitsInt32
  have ha := h.amount
  obtain ⟨htype, -⟩ := h.type
  simp [ofFields, toFields, getInt32_eq, getBytes_eq, List.foldl_append, ht, ha, htype]

lemma writable_toFields (h : r.Valid) : ∀ f ∈ r.toFields, Writable f := by
  have hsize := h.size
  simp only [serialize, List.length_append] at hsize
  have hid : r.requestId.length ≤ (stringField 1 r.requestId).length := length_le_stringField
  have hsender : r.senderId.length ≤ (stringField 3 r.senderId).length := length_le_stringField
  have hreceiver : r.receiverId.length ≤ (stringField 4 r.receiverId).length :=
    length_le_stringField
  simp only [toFields, List.forall_mem_append]
  exact ⟨⟨⟨⟨writable_stringFields (by decide) (by omega),
    writable_int32Fields (by decide) h.type.fitsInt32⟩,
    writable_stringFields (by decide) (by omega)⟩,
    writable_stringFields (by decide) (by omega)⟩,
    writable_int32Fields (by decide) h.amount⟩

/-- **A request is read back.** -/
theorem parse?_serialize (h : r.Valid) : parse? r.serialize = some r := by
  rw [parse?, serialize_eq, fields?_encode (writable_toFields h), Option.map_some,
    ofFields_toFields h]

theorem parse_serialize (h : r.Valid) : parse r.serialize = r := by
  have hfields : fields r.serialize = r.toFields := by
    rw [serialize_eq]
    exact fields_of_fields? (fields?_encode (writable_toFields h))
  show ofFields (fields r.serialize) = r
  rw [hfields, ofFields_toFields h]

end ClientRequest

/-! ## Responses -/

namespace ClientResponse

def serialize (r : ClientResponse) : Bytes :=
  int32Field 1 (if r.success then 1 else 0) ++ stringField 2 r.result ++ int32Field 3 r.leaderHint

def parse (b : Bytes) : ClientResponse :=
  let fs := fields b
  ⟨getInt32 fs 1 ≠ 0, getBytes fs 2, getInt32 fs 3⟩

structure Valid (r : ClientResponse) : Prop where
  leaderHint : FitsInt32 r.leaderHint
  size : r.serialize.length < 2 ^ 31

def toFields (r : ClientResponse) : List (ℕ × Payload) :=
  int32Fields 1 (if r.success then 1 else 0) ++ stringFields 2 r.result ++
    int32Fields 3 r.leaderHint

variable {r : ClientResponse}

lemma serialize_eq : r.serialize = encode r.toFields := by
  simp only [serialize, toFields, encode_append, encode_stringFields, encode_int32Fields]

lemma fitsInt32_success : FitsInt32 (if r.success then 1 else 0) := by
  split <;> decide

lemma fields_serialize (h : r.Valid) : fields r.serialize = r.toFields := by
  have hsize := h.size
  simp only [serialize, List.length_append] at hsize
  have hresult : r.result.length ≤ (stringField 2 r.result).length := length_le_stringField
  rw [serialize_eq]
  refine fields_of_fields? (fields?_encode ?_)
  simp only [toFields, List.forall_mem_append]
  exact ⟨⟨writable_int32Fields (by decide) fitsInt32_success,
    writable_stringFields (by decide) (by omega)⟩,
    writable_int32Fields (by decide) h.leaderHint⟩

/-- **A response is read back.** -/
theorem parse_serialize (h : r.Valid) : parse r.serialize = r := by
  have hsuccess : FitsInt32 (if r.success then 1 else 0) := fitsInt32_success
  have hhint := h.leaderHint
  rw [parse, fields_serialize h]
  obtain ⟨success, result, leaderHint⟩ := r
  cases success <;>
    simp_all [toFields, getInt32_eq, getBytes_eq, List.foldl_append]

end ClientResponse

/-! ## Stored values -/

namespace CommandResult

structure Valid (r : CommandResult) : Prop where
  executedAtIndex : FitsInt32 r.executedAtIndex
  size : r.serialize.length < 2 ^ 31

variable {r : CommandResult}

/-- **A stored result is read back.** -/
theorem parse_serialize (h : r.Valid) : parse r.serialize = r := by
  have hsize := h.size
  simp only [serialize, List.length_append] at hsize
  have hmsg : r.resultMessage.length ≤ (stringField 1 r.resultMessage).length :=
    length_le_stringField
  have hindex := h.executedAtIndex
  have hfields : fields r.serialize =
      stringFields 1 r.resultMessage ++ int32Fields 2 r.executedAtIndex := by
    rw [serialize, ← encode_stringFields, ← encode_int32Fields, ← encode_append]
    refine fields_of_fields? (fields?_encode ?_)
    simp only [List.forall_mem_append]
    exact ⟨writable_stringFields (by decide) (by omega), writable_int32Fields (by decide) hindex⟩
  rw [parse, hfields]
  simp [getInt32_eq, getBytes_eq, List.foldl_append, hindex]

end CommandResult

namespace LogEntry

structure Valid (e : LogEntry) : Prop where
  term : FitsInt32 e.term
  index : FitsInt32 e.index
  command : e.command.Valid

variable {e : LogEntry}

/-- **A stored entry is read back**, with the request in it. -/
theorem parse_serialize (h : e.Valid) : parse e.serialize = e := by
  have hsize := h.command.size
  have hterm := h.term
  have hindex := h.index
  have hfields : fields e.serialize =
      int32Fields 1 e.term ++ int32Fields 2 e.index ++ [(3, .bytes e.command.serialize)] := by
    rw [serialize, ← encode_int32Fields, ← encode_int32Fields, ← encode_lenField, ← encode_append,
      ← encode_append]
    refine fields_of_fields? (fields?_encode ?_)
    simp only [List.forall_mem_append, List.forall_mem_singleton]
    exact ⟨⟨writable_int32Fields (by decide) hterm, writable_int32Fields (by decide) hindex⟩,
      by decide, by omega⟩
  rw [parse, hfields]
  simp [getInt32_eq, getBytes_eq, List.foldl_append, hterm, hindex, setInt32, setBytes,
    ClientRequest.parse_serialize h.command]

end LogEntry

end RaftConsensus
