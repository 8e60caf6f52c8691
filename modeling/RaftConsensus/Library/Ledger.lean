import Mathlib.Algebra.BigOperators.Finsupp.Basic
import Mathlib.Algebra.Order.BigOperators.Group.Finset
import Mathlib.Data.Finsupp.Basic

/-!
# Ledgers

A ledger gives every account a balance, zero for all but finitely many.  `total` is the money in
it.  Moving an amount between two different accounts keeps the total (`total_move`), and where no
balance is negative no balance, and no two balances together, exceed it.
-/

namespace Ledger

variable {α : Type*}

/-- The money in a ledger. -/
noncomputable def total (l : α →₀ ℤ) : ℤ := l.sum fun _ b => b

/-- Setting a balance changes the total by the difference. -/
lemma total_update (l : α →₀ ℤ) (a : α) (b : ℤ) : total (l.update a b) = total l - l a + b := by
  have h := l.sum_update_add a b (fun _ b => b) (fun _ => rfl) (fun _ _ _ => rfl)
  rw [total, total]
  omega

/-- `amount` goes from account `a` to account `b`. -/
noncomputable def move (l : α →₀ ℤ) (a b : α) (amount : ℤ) : α →₀ ℤ :=
  (l.update a (l a - amount)).update b (l b + amount)

/-- **Moving money between two accounts keeps the total.** -/
theorem total_move (l : α →₀ ℤ) {a b : α} (hab : a ≠ b) (amount : ℤ) :
    total (move l a b amount) = total l := by
  classical
  have hb : (l.update a (l a - amount)) b = l b := by
    rw [Finsupp.coe_update, Function.update_of_ne hab.symm]
  rw [move, total_update, total_update, hb]
  omega

section Bounds

variable {l : α →₀ ℤ} (hpos : ∀ a, 0 ≤ l a)
include hpos

/-- No balance exceeds the total. -/
lemma le_total (a : α) : l a ≤ total l := by
  by_cases ha : a ∈ l.support
  · exact Finset.single_le_sum (fun b _ => hpos b) ha
  · rw [Finsupp.notMem_support_iff.mp ha]
    exact Finset.sum_nonneg fun b _ => hpos b

/-- No two balances together exceed the total. -/
lemma add_le_total {a b : α} (hab : a ≠ b) : l a + l b ≤ total l := by
  classical
  have hzero : ∀ c, 0 ≤ (l.update a 0) c := by
    intro c
    rw [Finsupp.coe_update]
    by_cases hc : c = a
    · simp [hc]
    · simpa [hc] using hpos c
  have hb : (l.update a 0) b = l b := by
    rw [Finsupp.coe_update, Function.update_of_ne hab.symm]
  have hle := le_total hzero b
  rw [hb, total_update] at hle
  omega

end Bounds

end Ledger
