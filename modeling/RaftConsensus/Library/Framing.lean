import RaftConsensus.Library.Bytes

/-!
# Reading messages from a stream

A stream arrives in pieces, which are cut anywhere.

* `bigEndian` writes a number in four bytes, most significant first, and `ofBigEndian` reads it
  back.
* `readExactly n` takes `n` items from the pieces, as many of them as that needs, and fails when the
  stream ends before.  What it returns does not depend on where the pieces are cut
  (`readExactly_of_le`, `readExactly_of_lt`).
* `receive read k` reads at most `k` messages with a reader `read`, and stops at its first error.
  `Reads` says that a list of messages can be read one after the other, and `receive_of_reads` and
  `receive_of_error` what is received then.
-/

namespace Framing

open Bytes

/-! ## Numbers in four bytes -/

/-- The last byte of a number. -/
def lowByte (n : ℕ) : Fin 256 := ⟨n % 256, Nat.mod_lt n (Nat.succ_pos 255)⟩

/-- Four bytes, most significant first. -/
def bigEndian (n : ℕ) : Bytes :=
  [lowByte (n / 2 ^ 24), lowByte (n / 2 ^ 16), lowByte (n / 2 ^ 8), lowByte n]

/-- The number that bytes stand for, most significant first. -/
def ofBigEndian (b : Bytes) : ℕ := b.foldl (fun n c => 256 * n + c.val) 0

@[simp] lemma length_bigEndian (n : ℕ) : (bigEndian n).length = 4 := rfl

/-- Numbers of 32 bits come back. -/
theorem ofBigEndian_bigEndian {n : ℕ} (h : n < 2 ^ 32) : ofBigEndian (bigEndian n) = n := by
  simp only [ofBigEndian, bigEndian, List.foldl_cons, List.foldl_nil, lowByte]
  omega

/-- Four bytes come back, and stand for a number of 32 bits. -/
theorem bigEndian_ofBigEndian {b : Bytes} (h : b.length = 4) :
    bigEndian (ofBigEndian b) = b ∧ ofBigEndian b < 2 ^ 32 := by
  obtain ⟨c₀, c₁, c₂, c₃, rfl⟩ : ∃ c₀ c₁ c₂ c₃, b = [c₀, c₁, c₂, c₃] := List.length_eq_four.mp h
  have h₀ := c₀.isLt
  have h₁ := c₁.isLt
  have h₂ := c₂.isLt
  have h₃ := c₃.isLt
  simp only [ofBigEndian, bigEndian, List.foldl_cons, List.foldl_nil, lowByte, List.cons.injEq,
    Fin.ext_iff, and_true]
  omega

/-! ## Reading a number of items -/

section Pieces

variable {α : Type*} {n : ℕ} {ps : List (List α)}

/-- Takes `n` items from the pieces.  The rest of the last piece it looks at is put back. -/
def readExactly (n : ℕ) : List (List α) → Option (List α × List (List α))
  | [] => if n = 0 then some ([], []) else none
  | p :: ps =>
      if n ≤ p.length then some (p.take n, p.drop n :: ps)
      else (readExactly (n - p.length) ps).map fun r => (p ++ r.1, r.2)

/-- The first `n` items of the stream are read, and the rest of it is left. -/
theorem readExactly_of_le (h : n ≤ ps.flatten.length) :
    ∃ rest, readExactly n ps = some (ps.flatten.take n, rest) ∧
      rest.flatten = ps.flatten.drop n := by
  induction ps generalizing n with
  | nil =>
      obtain rfl : n = 0 := by simpa using h
      exact ⟨[], rfl, rfl⟩
  | cons p ps ih =>
      rw [readExactly]
      split
      · rename_i hp
        refine ⟨p.drop n :: ps, ?_, ?_⟩
        · rw [List.flatten_cons, List.take_append_of_le_length hp]
        · rw [List.flatten_cons, List.flatten_cons, List.drop_append_of_le_length hp]
      · rename_i hp
        rw [List.flatten_cons, List.length_append] at h
        obtain ⟨rest, hread, hrest⟩ := ih (n := n - p.length) (by omega)
        -- the whole piece is read
        have htake : p.take n = p := List.take_of_length_le (by omega)
        have hdrop : p.drop n = [] := List.drop_of_length_le (by omega)
        refine ⟨rest, ?_, ?_⟩
        · rw [hread, List.flatten_cons, List.take_append, htake]
          rfl
        · rw [hrest, List.flatten_cons, List.drop_append, hdrop, List.nil_append]

/-- A stream that ends before is not enough. -/
theorem readExactly_of_lt (h : ps.flatten.length < n) : readExactly n ps = none := by
  induction ps generalizing n with
  | nil => exact if_neg (Nat.pos_iff_ne_zero.mp (by simpa using h))
  | cons p ps ih =>
      rw [List.flatten_cons, List.length_append] at h
      rw [readExactly, if_neg (by omega), ih (by omega)]
      rfl

/-- What is read is the beginning of the stream, and the rest of it is left. -/
lemma readExactly_eq_some {a : List α} {rest : List (List α)}
    (h : readExactly n ps = some (a, rest)) :
    a.length = n ∧ ps.flatten = a ++ rest.flatten := by
  by_cases hle : n ≤ ps.flatten.length
  · obtain ⟨rest', hread, hrest⟩ := readExactly_of_le hle
    rw [hread] at h
    cases h
    rw [hrest, List.take_append_drop]
    exact ⟨List.length_take_of_le hle, rfl⟩
  · rw [readExactly_of_lt (not_le.mp hle)] at h
    cases h

/-- Reading the beginning of a stream that is known. -/
lemma readExactly_append {a b : List α} (h : ps.flatten = a ++ b) :
    ∃ rest, readExactly a.length ps = some (a, rest) ∧ rest.flatten = b := by
  have hlen : a.length ≤ ps.flatten.length := by simp [h]
  obtain ⟨rest, hread, hrest⟩ := readExactly_of_le hlen
  rw [h, List.take_left] at hread
  rw [h, List.drop_left] at hrest
  exact ⟨rest, hread, hrest⟩

end Pieces

/-! ## Reading messages -/

section Receive

variable {σ α ε : Type*} {read : σ → Except ε (α × σ)} {s t : σ} {as : List α} {e : ε} {k : ℕ}

/-- The messages that have been delivered, and what is left of the stream or why it was given
up. -/
structure Reception (σ α ε : Type*) where
  delivered : List α
  rest : Except ε σ

/-- Reads at most `k` messages. -/
def receive (read : σ → Except ε (α × σ)) : ℕ → σ → Reception σ α ε
  | 0, s => ⟨[], .ok s⟩
  | k + 1, s =>
      match read s with
      | .error e => ⟨[], .error e⟩
      | .ok (a, t) => ⟨a :: (receive read k t).delivered, (receive read k t).rest⟩

lemma receive_succ {a : α} (h : read s = .ok (a, t)) :
    receive read (k + 1) s = ⟨a :: (receive read k t).delivered, (receive read k t).rest⟩ := by
  rw [receive, h]

/-- The messages `as` can be read one after the other. -/
inductive Reads (read : σ → Except ε (α × σ)) : σ → List α → σ → Prop
  | nil {s : σ} : Reads read s [] s
  | cons {s t u : σ} {a : α} {as : List α} :
      read s = .ok (a, t) → Reads read t as u → Reads read s (a :: as) u

/-- Exactly these messages are received by as many reads. -/
theorem receive_of_reads (h : Reads read s as t) : receive read as.length s = ⟨as, .ok t⟩ := by
  induction h with
  | nil => rfl
  | cons hread _ ih => rw [List.length_cons, receive_succ hread, ih]

/-- Exactly these messages are received when no more can be read. -/
theorem receive_of_error (h : Reads read s as t) (herror : read t = .error e)
    (hk : as.length < k) : receive read k s = ⟨as, .error e⟩ := by
  induction h generalizing k with
  | nil =>
      obtain ⟨k, rfl⟩ := Nat.exists_eq_succ_of_ne_zero (Nat.ne_of_gt hk)
      rw [receive, herror]
  | cons hread _ ih =>
      rw [List.length_cons] at hk
      obtain ⟨k, rfl⟩ := Nat.exists_eq_succ_of_ne_zero (Nat.ne_of_gt (Nat.zero_lt_of_lt hk))
      rw [receive_succ hread, ih herror (by omega)]

end Receive

end Framing
