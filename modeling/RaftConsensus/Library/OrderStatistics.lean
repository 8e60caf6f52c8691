import Mathlib.Data.List.Sort
import Mathlib.Order.Basic

/-!
# Order statistics

The `q`-th largest value of a list is the greatest value that at least `q` members of the list
reach.  `reached_iff` relates the two for every bound, so that a search for a bound that enough
members reach can be compared with sorting.

`find?_greatest` is about such a search: in a list that descends, the first hit is the greatest.
-/

namespace OrderStatistics

variable {α : Type*} [LinearOrder α] {l : List α} {a b K : α} {q : ℕ} {p : α → Bool}

/-- The `q`-th largest value, counted from `1` on; `none` when there are fewer values. -/
def nthLargest (q : ℕ) (l : List α) : Option α := (l.insertionSort (· ≥ ·))[q - 1]?

/-- In a descending list the members that reach a bound come first. -/
lemma reached_sorted (h : l.Pairwise (· ≥ ·)) (hq : 0 < q) :
    (∃ K, l[q - 1]? = some K ∧ a ≤ K) ↔ q ≤ l.countP (a ≤ ·) := by
  induction l generalizing q with
  | nil => simp [hq.ne']
  | cons b l ih =>
      obtain ⟨hb, hl⟩ := List.pairwise_cons.mp h
      by_cases hab : a ≤ b
      · rw [List.countP_cons_of_pos (by simpa using hab)]
        obtain ⟨q, rfl⟩ : ∃ r, q = r + 1 := ⟨q - 1, by omega⟩
        cases q with
        | zero => simp [hab]
        | succ q => simpa using ih hl q.succ_pos
      · -- nobody reaches the bound
        have hnone : ∀ c ∈ b :: l, ¬ a ≤ c := by
          intro c hc hac
          obtain rfl | hc := List.mem_cons.mp hc
          · exact hab hac
          · exact hab (hac.trans (hb c hc))
        have hcount : (b :: l).countP (a ≤ ·) = 0 := by
          rw [List.countP_eq_zero]
          simpa using hnone
        rw [hcount]
        refine iff_of_false ?_ (by omega)
        rintro ⟨K, hK, haK⟩
        exact hnone K (List.mem_of_getElem? hK) haK

/-- **At least `q` values reach a bound** exactly when the `q`-th largest does. -/
theorem reached_iff (hq : 0 < q) :
    (∃ K, nthLargest q l = some K ∧ a ≤ K) ↔ q ≤ l.countP (a ≤ ·) := by
  rw [nthLargest, reached_sorted (List.pairwise_insertionSort _ l) hq,
    (List.perm_insertionSort _ l).countP_eq]

lemma nthLargest_mem (h : nthLargest q l = some K) : K ∈ l :=
  (List.mem_insertionSort _).mp (List.mem_of_getElem? h)

/-- The `q`-th largest value is reached by `q` values. -/
lemma le_countP_nthLargest (hq : 0 < q) (h : nthLargest q l = some K) :
    q ≤ l.countP (K ≤ ·) :=
  (reached_iff hq).mp ⟨K, h, le_rfl⟩

/-- The first hit in a descending list is the greatest one. -/
lemma find?_greatest (hl : l.Pairwise (· ≥ ·)) (h : l.find? p = some a) (hb : b ∈ l)
    (hp : p b = true) : b ≤ a := by
  induction l with
  | nil => cases hb
  | cons c l ih =>
      obtain ⟨hc, hl⟩ := List.pairwise_cons.mp hl
      rw [List.find?_cons] at h
      split at h
      · obtain rfl := Option.some.inj h
        obtain rfl | hb := List.mem_cons.mp hb
        · exact le_rfl
        · exact hc b hb
      · rename_i hmiss
        obtain rfl | hb := List.mem_cons.mp hb
        · rw [hp] at hmiss
          cases hmiss
        · exact ih hl h hb

end OrderStatistics
