import Mathlib.Logic.Function.Basic
import Mathlib.Tactic.Common

/-!
# One thread per key

A manager starts threads, each for a key, and keeps a busy flag per key.  It tests and sets the flag
in one step (`mark`), and only then starts the thread (`spawn`); the thread clears the flag in the
step that ends it (`clear`).  What the threads do in between does not matter here.

`Exclusive` says that there is never more than one thread for a key, and that the flag tells whether
there is one or the manager is about to start it.  Each of the three steps keeps it.
-/

namespace Busy

variable {κ : Type*}

/-- The flags, the key that is marked and has no thread yet, and the keys of the threads. -/
structure State (κ : Type*) where
  busy : κ → Bool
  marked : Option κ
  threads : ℕ → Option κ

/-- There is a thread for the key. -/
def State.Has (s : State κ) (k : κ) : Prop := ∃ t, s.threads t = some k

/-- **One thread per key.** -/
structure Exclusive (s : State κ) : Prop where
  single : ∀ t u k, s.threads t = some k → s.threads u = some k → t = u
  busy : ∀ k, s.busy k = true ↔ s.Has k ∨ s.marked = some k
  apart : ∀ k, s.Has k → s.marked ≠ some k

lemma Exclusive.init : Exclusive (⟨fun _ => false, none, fun _ => none⟩ : State κ) where
  single _ _ _ h := by cases h
  busy k := by simp [State.Has]
  apart k h := by
    obtain ⟨t, h⟩ := h
    cases h

variable [DecidableEq κ] {s : State κ} {t : ℕ} {j k : κ}

namespace State

/-- The manager marks a key. -/
def mark (s : State κ) (k : κ) : State κ :=
  { s with
    busy := Function.update s.busy k true
    marked := some k }

/-- The manager starts a thread for the marked key. -/
def spawn (s : State κ) (t : ℕ) (k : κ) : State κ :=
  { s with
    marked := none
    threads := Function.update s.threads t (some k) }

/-- A thread clears its flag and ends. -/
def clear (s : State κ) (t : ℕ) (k : κ) : State κ :=
  { s with
    busy := Function.update s.busy k false
    threads := Function.update s.threads t none }

omit [DecidableEq κ] in
lemma threads_spawn (u : ℕ) :
    (s.spawn t k).threads u = if u = t then some k else s.threads u :=
  Function.update_apply s.threads t (some k) u

lemma threads_clear (u : ℕ) :
    (s.clear t k).threads u = if u = t then none else s.threads u :=
  Function.update_apply s.threads t none u

omit [DecidableEq κ] in
lemma has_spawn (hfresh : s.threads t = none) : (s.spawn t k).Has j ↔ s.Has j ∨ j = k := by
  constructor
  · rintro ⟨u, hu⟩
    by_cases hut : u = t
    · subst hut
      rw [threads_spawn, if_pos rfl] at hu
      exact .inr (Option.some.inj hu).symm
    · rw [threads_spawn, if_neg hut] at hu
      exact .inl ⟨u, hu⟩
  · rintro (⟨u, hu⟩ | rfl)
    · have hut : u ≠ t := by
        rintro rfl
        rw [hfresh] at hu
        cases hu
      exact ⟨u, by rw [threads_spawn, if_neg hut, hu]⟩
    · exact ⟨t, by rw [threads_spawn, if_pos rfl]⟩

lemma has_clear (h : Exclusive s) (ht : s.threads t = some k) :
    (s.clear t k).Has j ↔ s.Has j ∧ j ≠ k := by
  constructor
  · rintro ⟨u, hu⟩
    by_cases hut : u = t
    · subst hut
      rw [threads_clear, if_pos rfl] at hu
      cases hu
    · rw [threads_clear, if_neg hut] at hu
      refine ⟨⟨u, hu⟩, ?_⟩
      rintro rfl
      exact hut (h.single u t j hu ht)
  · rintro ⟨⟨u, hu⟩, hj⟩
    have hut : u ≠ t := by
      rintro rfl
      exact hj (Option.some.inj (hu.symm.trans ht))
    exact ⟨u, by rw [threads_clear, if_neg hut, hu]⟩

end State

open State

namespace Exclusive

/-- Only a key that is not busy is marked. -/
lemma mark (h : Exclusive s) (hfree : s.busy k = false) (hnone : s.marked = none) :
    Exclusive (s.mark k) := by
  have hno : ¬ s.Has k := by
    intro hhas
    rw [(h.busy k).mpr (.inl hhas)] at hfree
    cases hfree
  refine ⟨h.single, fun j => ?_, fun j hj hmarked => ?_⟩
  · show Function.update s.busy k true j = true ↔ s.Has j ∨ some k = some j
    by_cases hj : j = k
    · subst hj
      simp
    · have hbusy := h.busy j
      rw [hnone] at hbusy
      simp [hj, Ne.symm hj, hbusy]
  · obtain rfl : k = j := Option.some.inj hmarked
    exact hno hj

omit [DecidableEq κ] in
lemma spawn (h : Exclusive s) (hmarked : s.marked = some k) (hfresh : s.threads t = none) :
    Exclusive (s.spawn t k) := by
  have hno : ¬ s.Has k := fun hhas => h.apart k hhas hmarked
  refine ⟨fun u v j hu hv => ?_, fun j => ?_, fun j _ hnone => by cases hnone⟩
  · by_cases hut : u = t <;> by_cases hvt : v = t
    · rw [hut, hvt]
    · rw [threads_spawn, if_pos hut] at hu
      rw [threads_spawn, if_neg hvt] at hv
      exact absurd ⟨v, (Option.some.inj hu) ▸ hv⟩ hno
    · rw [threads_spawn, if_neg hut] at hu
      rw [threads_spawn, if_pos hvt] at hv
      exact absurd ⟨u, (Option.some.inj hv) ▸ hu⟩ hno
    · rw [threads_spawn, if_neg hut] at hu
      rw [threads_spawn, if_neg hvt] at hv
      exact h.single u v j hu hv
  · rw [has_spawn hfresh]
    show s.busy j = true ↔ _ ∨ none = some j
    rw [h.busy j, hmarked, Option.some.injEq, eq_comm (a := k)]
    simp

lemma clear (h : Exclusive s) (ht : s.threads t = some k) : Exclusive (s.clear t k) := by
  refine ⟨fun u v j hu hv => ?_, fun j => ?_, fun j hj => ?_⟩
  · have hkeep : ∀ u, (s.clear t k).threads u = some j → s.threads u = some j := by
      intro u hu
      by_cases hut : u = t
      · rw [threads_clear, if_pos hut] at hu
        cases hu
      · rwa [threads_clear, if_neg hut] at hu
    exact h.single u v j (hkeep u hu) (hkeep v hv)
  · rw [has_clear h ht]
    show Function.update s.busy k false j = true ↔ _ ∨ s.marked = some j
    by_cases hj : j = k
    · subst hj
      have hapart := h.apart j ⟨t, ht⟩
      simp [hapart]
    · rw [Function.update_of_ne hj, h.busy j]
      simp [hj]
  · exact h.apart j ((has_clear h ht).mp hj).1

end Exclusive

end Busy
