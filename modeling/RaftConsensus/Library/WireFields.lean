import RaftConsensus.Library.Wire

/-!
# Reading back a message

A message is a list of fields that are written one after the other (`encode`), and reading its
text returns the list (`fields_encode`).  What a field number was last set to is then read off the
list, one field of the message at a time.

`fields?` is the reader that says when a text is not a message; `fields` agrees with it on those
that are.
-/

namespace Wire

open Bytes

/-! ## Varints -/

lemma varint_of_lt {n : ℕ} (h : n < 128) : varint n = [Fin.ofNat 256 n] := by
  by_cases hn : n = 0
  · subst hn
    rfl
  · simp [varint, Nat.digits_of_lt 128 n hn h]

lemma varint_of_le {n : ℕ} (h : 128 ≤ n) :
    varint n = Fin.ofNat 256 (128 + n % 128) :: varint (n / 128) := by
  have hdigits : Nat.digits 128 n = n % 128 :: Nat.digits 128 (n / 128) :=
    Nat.digits_def' (by decide) (by omega)
  have hmore : Nat.digits 128 (n / 128) ≠ [] := Nat.digits_ne_nil_iff_ne_zero.mpr (by omega)
  obtain ⟨d, ds, hds⟩ := List.exists_cons_of_ne_nil hmore
  rw [varint, varint, hdigits, hds]
  simp

lemma varint_ne_nil (n : ℕ) : varint n ≠ [] := by
  by_cases h : n < 128
  · simp [varint_of_lt h]
  · simp [varint_of_le (not_lt.mp h)]

/-- **A number is read back**, whatever follows it. -/
theorem readVarint_varint {fuel : ℕ} (rest : Bytes) : ∀ {n : ℕ}, n < 128 ^ (fuel + 1) →
    readVarint (fuel + 1) (varint n ++ rest) = some (n, rest) := by
  induction fuel with
  | zero =>
      intro n h
      have hlt : n < 128 := by simpa using h
      have hval : (Fin.ofNat 256 n).val = n := Nat.mod_eq_of_lt (by omega)
      rw [varint_of_lt hlt, List.singleton_append, readVarint, hval, if_pos hlt]
  | succ fuel ih =>
      intro n h
      by_cases hlt : n < 128
      · have hval : (Fin.ofNat 256 n).val = n := Nat.mod_eq_of_lt (by omega)
        rw [varint_of_lt hlt, List.singleton_append, readVarint, hval, if_pos hlt]
      · have hval : (Fin.ofNat 256 (128 + n % 128)).val = 128 + n % 128 :=
          Nat.mod_eq_of_lt (by omega)
        have hrest : n / 128 < 128 ^ (fuel + 1) := by
          rw [Nat.div_lt_iff_lt_mul (by decide), ← pow_succ]
          exact h
        rw [varint_of_le (not_lt.mp hlt), List.cons_append, readVarint, hval, if_neg (by omega),
          ih hrest]
        simp only [Option.some.injEq, Prod.mk.injEq, and_true]
        omega

lemma readVarint_ten {n : ℕ} (h : n < 2 ^ 64) (rest : Bytes) :
    readVarint 10 (varint n ++ rest) = some (n, rest) :=
  readVarint_varint rest (h.trans (by norm_num))

/-! ## Lists of fields -/

/-- A field as it is written. -/
def encodeField : ℕ × Payload → Bytes
  | (num, .number n) => varint (8 * num) ++ varint n
  | (num, .bytes b) => lenField num b
  | (_, .other) => []

def encode (fs : List (ℕ × Payload)) : Bytes := fs.flatMap encodeField

/-- What can be read back: field numbers of 29 bits, numbers and lengths of 64 bits. -/
def Writable : ℕ × Payload → Prop
  | (num, .number n) => num < 2 ^ 29 ∧ n < 2 ^ 64
  | (num, .bytes b) => num < 2 ^ 29 ∧ b.length < 2 ^ 64
  | (_, .other) => False

/-- Reads fields until the text ends; a text that cannot be read to its end is no message. -/
def readFields? : (fuel : ℕ) → Bytes → Option (List (ℕ × Payload))
  | _, [] => some []
  | 0, _ :: _ => none
  | fuel + 1, c :: b =>
      match readVarint 10 (c :: b) with
      | none => none
      | some (tag, rest) =>
          match readPayload (tag % 8) rest with
          | none => none
          | some (p, rest') => (readFields? fuel rest').map ((tag / 8, p) :: ·)

/-- The fields of a text that is a message. -/
def fields? (b : Bytes) : Option (List (ℕ × Payload)) := readFields? b.length b

variable {f : ℕ × Payload} {fs gs : List (ℕ × Payload)} {num k : ℕ} {b : Bytes} {n acc : ℤ}

/-- The tag and the payload of a field are read back. -/
lemma read_encodeField (h : Writable f) (rest : Bytes) :
    ∃ tag rest', readVarint 10 (encodeField f ++ rest) = some (tag, rest') ∧
      readPayload (tag % 8) rest' = some (f.2, rest) ∧ tag / 8 = f.1 := by
  obtain ⟨num, p⟩ := f
  cases p with
  | number n =>
      obtain ⟨hnum, hn⟩ := h
      refine ⟨8 * num, varint n ++ rest, ?_, ?_, by simp⟩
      · rw [encodeField, List.append_assoc]
        exact readVarint_ten (by omega) _
      · have htype : 8 * num % 8 = 0 := by omega
        rw [htype, readPayload, readVarint_ten hn, Option.map_some, Nat.mod_eq_of_lt hn]
  | bytes b =>
      obtain ⟨hnum, hb⟩ := h
      refine ⟨8 * num + 2, varint b.length ++ b ++ rest, ?_, ?_, ?_⟩
      · rw [encodeField, lenField, List.append_assoc]
        exact readVarint_ten (by omega) _
      · have htype : (8 * num + 2) % 8 = 2 := by omega
        rw [htype, List.append_assoc]
        simp [readPayload, readVarint_ten hb]
      · show (8 * num + 2) / 8 = num
        omega
  | other => exact h.elim

lemma length_encodeField_pos (h : Writable f) : 0 < (encodeField f).length := by
  obtain ⟨num, p⟩ := f
  cases p with
  | number n =>
      rw [encodeField, List.length_append]
      exact Nat.add_pos_left (List.length_pos_of_ne_nil (varint_ne_nil _)) _
  | bytes b =>
      rw [encodeField, lenField, List.length_append]
      exact Nat.add_pos_left (List.length_pos_of_ne_nil (varint_ne_nil _)) _
  | other => exact h.elim

/-- A reader with enough fuel reads a list of fields back. -/
lemma readFields?_encode (h : ∀ f ∈ fs, Writable f) :
    ∀ {fuel : ℕ}, (encode fs).length ≤ fuel → readFields? fuel (encode fs) = some fs := by
  induction fs with
  | nil =>
      intro fuel _
      cases fuel <;> rfl
  | cons f fs ih =>
      intro fuel hfuel
      have hf := h f (by simp)
      have hpos := length_encodeField_pos hf
      have hsplit : encode (f :: fs) = encodeField f ++ encode fs := rfl
      rw [hsplit, List.length_append] at hfuel
      obtain ⟨fuel, rfl⟩ := Nat.exists_eq_succ_of_ne_zero (n := fuel) (by omega)
      obtain ⟨tag, rest, htag, hpayload, hnum⟩ := read_encodeField hf (encode fs)
      obtain ⟨c, b, hb⟩ := List.exists_cons_of_ne_nil (l := encodeField f ++ encode fs)
        (by simp [List.ne_nil_of_length_pos hpos])
      rw [hsplit, hb, readFields?, ← hb, htag]
      simp only [hpayload, hnum]
      rw [ih (fun g hg => h g (by simp [hg])) (by omega), Option.map_some]

/-- **A list of fields is read back.** -/
theorem fields?_encode (h : ∀ f ∈ fs, Writable f) : fields? (encode fs) = some fs :=
  readFields?_encode h le_rfl

lemma readFields_of_readFields? : ∀ {fuel : ℕ} {b : Bytes} {fs : List (ℕ × Payload)},
    readFields? fuel b = some fs → readFields fuel b = fs := by
  intro fuel
  induction fuel with
  | zero =>
      intro b fs h
      cases b with
      | nil => exact Option.some.inj h
      | cons => cases h
  | succ fuel ih =>
      intro b fs h
      cases b with
      | nil => exact Option.some.inj h
      | cons c b =>
          rw [readFields?] at h
          rw [readFields]
          generalize readVarint 10 (c :: b) = r at h ⊢
          rcases r with - | ⟨tag, rest⟩
          · cases h
          · dsimp only at h ⊢
            generalize readPayload (tag % 8) rest = q at h ⊢
            rcases q with - | ⟨p, rest'⟩
            · cases h
            · obtain ⟨gs, hgs, rfl⟩ := Option.map_eq_some_iff.mp h
              exact congrArg _ (ih hgs)

/-- The reader that does not fail agrees on messages. -/
lemma fields_of_fields? (h : fields? b = some fs) : fields b = fs := readFields_of_readFields? h

/-! ## Fields of a message -/

def FitsInt32 (n : ℤ) : Prop := -2 ^ 31 ≤ n ∧ n < 2 ^ 31

instance (n : ℤ) : Decidable (FitsInt32 n) := inferInstanceAs (Decidable (_ ∧ _))

/-- An integer field of a message, which is left out if it is zero. -/
def int32Fields (num : ℕ) (n : ℤ) : List (ℕ × Payload) :=
  if n = 0 then [] else [(num, .number (int32Payload n))]

/-- A string field of a message, which is left out if it is empty. -/
def stringFields (num : ℕ) (b : Bytes) : List (ℕ × Payload) :=
  if b = [] then [] else [(num, .bytes b)]

lemma encode_append : encode (fs ++ gs) = encode fs ++ encode gs := List.flatMap_append

lemma encode_int32Fields : encode (int32Fields num n) = int32Field num n := by
  unfold int32Fields int32Field
  split
  · rfl
  · simp [encode, encodeField]

lemma encode_stringFields : encode (stringFields num b) = stringField num b := by
  unfold stringFields stringField
  split
  · rfl
  · simp [encode, encodeField]

lemma encode_lenField : encode [(num, .bytes b)] = lenField num b := by
  simp [encode, encodeField]

lemma int32Payload_lt (h : FitsInt32 n) : int32Payload n < 2 ^ 64 := by
  obtain ⟨hlow, hhigh⟩ := h
  unfold int32Payload
  split <;> omega

lemma bmod_int32Payload (h : FitsInt32 n) : Int.bmod (int32Payload n) (2 ^ 32) = n := by
  obtain ⟨hlow, hhigh⟩ := h
  unfold int32Payload
  rw [Int.bmod_def]
  split <;> omega

lemma writable_int32Fields (hnum : num < 2 ^ 29) (h : FitsInt32 n) :
    ∀ f ∈ int32Fields num n, Writable f := by
  intro f hf
  unfold int32Fields at hf
  split at hf
  · cases hf
  · rw [List.mem_singleton.mp hf]
    exact ⟨hnum, int32Payload_lt h⟩

lemma writable_stringFields (hnum : num < 2 ^ 29) (h : b.length < 2 ^ 64) :
    ∀ f ∈ stringFields num b, Writable f := by
  intro f hf
  unfold stringFields at hf
  split at hf
  · cases hf
  · rw [List.mem_singleton.mp hf]
    exact ⟨hnum, h⟩

/-! ## What a field number is set to -/

/-- One field, as `getInt32` takes it in. -/
def setInt32 (num : ℕ) (acc : ℤ) (f : ℕ × Payload) : ℤ :=
  match f with
  | (k, .number n) => if k = num then Int.bmod n (2 ^ 32) else acc
  | _ => acc

/-- One field, as `getBytes` takes it in. -/
def setBytes (num : ℕ) (acc : Bytes) (f : ℕ × Payload) : Bytes :=
  match f with
  | (k, .bytes b) => if k = num then b else acc
  | _ => acc

lemma getInt32_eq : getInt32 fs num = fs.foldl (setInt32 num) 0 := rfl

lemma getBytes_eq : getBytes fs num = fs.foldl (setBytes num) [] := rfl

@[simp] lemma setInt32_int32Fields (h : FitsInt32 n) :
    (int32Fields num n).foldl (setInt32 num) 0 = n := by
  unfold int32Fields
  split
  · rename_i hn
    exact hn.symm
  · rw [List.foldl_cons, List.foldl_nil, setInt32, if_pos rfl, bmod_int32Payload h]

@[simp] lemma setInt32_int32Fields_of_ne (h : k ≠ num) :
    (int32Fields k n).foldl (setInt32 num) acc = acc := by
  unfold int32Fields
  split
  · rfl
  · simp [setInt32, h]

@[simp] lemma setInt32_stringFields :
    (stringFields k b).foldl (setInt32 num) acc = acc := by
  unfold stringFields
  split <;> rfl

@[simp] lemma setBytes_stringFields : (stringFields num b).foldl (setBytes num) [] = b := by
  unfold stringFields
  split
  · rename_i hb
    exact hb.symm
  · simp [setBytes]

@[simp] lemma setBytes_stringFields_of_ne {acc : Bytes} (h : k ≠ num) :
    (stringFields k b).foldl (setBytes num) acc = acc := by
  unfold stringFields
  split
  · rfl
  · simp [setBytes, h]

@[simp] lemma setBytes_int32Fields {acc : Bytes} :
    (int32Fields k n).foldl (setBytes num) acc = acc := by
  unfold int32Fields
  split <;> rfl

end Wire
