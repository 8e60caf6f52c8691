import Mathlib.Logic.Function.Iterate
import Mathlib.Tactic.Common
import Mathlib.Algebra.Order.Group.Nat

/-!
# Catching up in batches

A sender holds `last` items and a receiver agrees with it on the first `meet` of them.  The sender
does not know `meet`: it goes back from the end by one position each time the receiver does not
agree, and from where it does agree sends what is missing, `batch` items at a time.

`Phase.next` is one exchange of the two.  `iterate_next` says where they are after any number of
exchanges that is not below `rounds`.
-/

namespace CatchUp

/-- Where the sender is: on the way back at position `q`, or done with the items up to `q`. -/
inductive Phase
  | backing (q : ℕ)
  | sending (q : ℕ)
  deriving DecidableEq, Repr

namespace Phase

variable {meet last batch k q : ℕ}

/-- One exchange. -/
def next (meet last batch : ℕ) : Phase → Phase
  | .backing q =>
      if meet < q then .backing (q - 1)
      else if q < last then .sending (min (q + batch) last)
      else .backing q
  | .sending q => .sending (min (q + batch) last)

/-- How many exchanges are enough. -/
def rounds (meet last batch : ℕ) : ℕ := last - meet + (last - meet + (batch - 1)) / batch

/-- The way back. -/
lemma iterate_backing (hk : k ≤ last - meet) :
    (next meet last batch)^[k] (.backing last) = .backing (last - k) := by
  induction k with
  | zero => rfl
  | succ k ih =>
      rw [Function.iterate_succ_apply', ih (by omega), next, if_pos (by omega)]
      congr 1

/-- The way forward. -/
lemma iterate_sending (hq : q ≤ last) :
    (next meet last batch)^[k] (.sending q) = .sending (min (q + k * batch) last) := by
  induction k with
  | zero => simp [hq]
  | succ k ih =>
      rw [Function.iterate_succ_apply', ih, next]
      congr 1
      rw [Nat.succ_mul]
      omega

/-- **After `rounds` exchanges the receiver has everything**: the sender has sent its last item, or
the receiver has agreed at once and nothing has been sent. -/
theorem iterate_next (hbatch : 0 < batch)
    (hk : rounds meet last batch ≤ k) :
    (next meet last batch)^[k] (.backing last) =
      if meet < last then .sending last else .backing last := by
  split
  · rename_i hlt
    -- the last batch reaches the end
    have hceil : last - meet ≤ (last - meet + (batch - 1)) / batch * batch := by
      have hdiv := Nat.div_add_mod (last - meet + (batch - 1)) batch
      have hmod := Nat.mod_lt (last - meet + (batch - 1)) hbatch
      rw [Nat.mul_comm]
      omega
    have hone : 1 ≤ (last - meet + (batch - 1)) / batch := by
      by_contra hzero
      rw [Nat.lt_one_iff.mp (not_le.mp hzero)] at hceil
      omega
    obtain ⟨j, rfl⟩ : ∃ j, k = j + 1 + (last - meet) := by
      refine ⟨k - 1 - (last - meet), ?_⟩
      unfold rounds at hk
      omega
    have hj : (last - meet + (batch - 1)) / batch ≤ j + 1 := by
      unfold rounds at hk
      omega
    have hreach : last - meet ≤ (j + 1) * batch := hceil.trans (Nat.mul_le_mul_right batch hj)
    rw [Nat.succ_mul] at hreach
    have hmeets : last - (last - meet) = meet := by omega
    rw [Function.iterate_add_apply, iterate_backing le_rfl, hmeets, Function.iterate_succ_apply,
      next, if_neg (lt_irrefl _), if_pos hlt, iterate_sending (min_le_right _ _)]
    congr 1
    omega
  · rename_i hge
    have hfixed : next meet last batch (.backing last) = .backing last := by
      rw [next, if_neg hge, if_neg (lt_irrefl _)]
    exact Function.iterate_fixed hfixed k

end Phase

end CatchUp
