import RaftConsensus.Library.Bytes

/-!
# The protocol-buffer wire format

Messages with integer, string and nested fields, as the standard wire format writes and reads
them.  A field is a tag (field number and wire type) followed by a base-128 varint or by a
length and that many bytes; fields with their default value are not written.

`readFields` is total: as the C++ parser does with a message it cannot read to the end, it keeps
what it has read before the point of failure.
-/

namespace Wire

open Bytes

/-- A base-128 varint, least significant group first; all bytes but the last carry the
continuation bit. -/
def varint (n : ℕ) : Bytes :=
  match Nat.digits 128 n with
  | [] => [0]
  | d :: ds =>
      ((d :: ds).dropLast.map fun g => Fin.ofNat 256 (128 + g)) ++
        [Fin.ofNat 256 ((d :: ds).getLast (by simp))]

/-- The varint payload of an `int32`: negative numbers as 64-bit two's complement. -/
def int32Payload (n : ℤ) : ℕ := if 0 ≤ n then n.toNat else (2 ^ 64 + n).toNat

/-- An `int32` field; zero is the default and is not written. -/
def int32Field (num : ℕ) (n : ℤ) : Bytes :=
  if n = 0 then [] else varint (8 * num) ++ varint (int32Payload n)

/-- A string or embedded-message field. -/
def lenField (num : ℕ) (b : Bytes) : Bytes :=
  varint (8 * num + 2) ++ (varint b.length ++ b)

/-- A string field; the empty string is the default and is not written. -/
def stringField (num : ℕ) (b : Bytes) : Bytes :=
  if b = [] then [] else lenField num b

/-! ## Reading -/

/-- The value of a field as read. -/
inductive Payload
  | number (n : ℕ)
  | bytes (b : Bytes)
  | other

/-- Reads a varint of at most `fuel` bytes. -/
def readVarint : (fuel : ℕ) → Bytes → Option (ℕ × Bytes)
  | 0, _ => none
  | _ + 1, [] => none
  | fuel + 1, c :: b =>
      if c.val < 128 then some (c.val, b)
      else
        match readVarint fuel b with
        | none => none
        | some (n, rest) => some (c.val - 128 + 128 * n, rest)

/-- Reads the payload of a field of the given wire type. -/
def readPayload (wireType : ℕ) (b : Bytes) : Option (Payload × Bytes) :=
  match wireType with
  | 0 => (readVarint 10 b).map fun r => (.number (r.1 % 2 ^ 64), r.2)
  | 1 => if b.length < 8 then none else some (.other, b.drop 8)
  | 2 =>
      match readVarint 10 b with
      | none => none
      | some (len, rest) =>
          if rest.length < len then none else some (.bytes (rest.take len), rest.drop len)
  | 5 => if b.length < 4 then none else some (.other, b.drop 4)
  | _ => none

/-- Reads fields until the text ends or cannot be read. -/
def readFields : (fuel : ℕ) → Bytes → List (ℕ × Payload)
  | 0, _ => []
  | fuel + 1, b =>
      match readVarint 10 b with
      | none => []
      | some (tag, rest) =>
          match readPayload (tag % 8) rest with
          | none => []
          | some (p, rest') => (tag / 8, p) :: readFields fuel rest'

/-- The fields of a serialised message. -/
def fields (b : Bytes) : List (ℕ × Payload) := readFields b.length b

/-- The `int32` a field number was last set to. -/
def getInt32 (fs : List (ℕ × Payload)) (num : ℕ) : ℤ :=
  fs.foldl (fun acc f =>
    match f with
    | (k, .number n) => if k = num then Int.bmod n (2 ^ 32) else acc
    | _ => acc) 0

/-- The bytes a field number was last set to. -/
def getBytes (fs : List (ℕ × Payload)) (num : ℕ) : Bytes :=
  fs.foldl (fun acc f =>
    match f with
    | (k, .bytes b) => if k = num then b else acc
    | _ => acc) []

end Wire
