import Mathlib.Logic.Function.Basic
import RaftConsensus.Library.Transition

/-!
# A mutex with an owner

Threads run blocks of code under one lock.  The lock knows its owner, but an unlock frees it
whoever calls: a thread that unlocks once too often frees the lock of another thread.

`Code` says what a block does to the shared state, and how often it unlocks by hand before the
unlock that ends it.  As long as no block unlocks by hand (`Clean`), the lock excludes
(`exclusive_of_run`): a thread is inside its block exactly while it owns the lock, only the owner
unlocks, and it does so once for each time it has acquired the lock.
-/

namespace Mutex

open Transition

/-- Where a thread is. -/
inductive Phase (B : Type*)
  | outside
  | waiting (block : B)
  /-- It has acquired the lock and not unlocked it yet. -/
  | inside (manual : ℕ)
  /-- It has unlocked the lock and will do so `left + 1` times more. -/
  | leaving (left : ℕ)
  deriving DecidableEq

namespace Phase

variable {B : Type*}

def Inside : Phase B → Prop
  | .inside _ => True
  | _ => False

instance : DecidablePred (Inside (B := B))
  | .inside _ => isTrue trivial
  | .outside | .waiting _ | .leaving _ => isFalse id

/-- The block a thread is waiting for. -/
def block? : Phase B → Option B
  | .waiting b => some b
  | _ => none

/-- After an unlock, with so many still to come. -/
def after : ℕ → Phase B
  | 0 => .outside
  | left + 1 => .leaving left

end Phase

/-- Code that is run under a lock: what a block does to the shared state, and how often it unlocks
by hand in the state that it finds; and the steps that are taken without the lock. -/
structure Code (S B U : Type*) where
  run : B → S → S
  manual : B → S → ℕ
  free : U → S → Option S

/-- The shared state, the lock and the threads, with how often each has acquired and released. -/
structure State (τ S B : Type*) where
  shared : S
  owner : Option τ
  phase : τ → Phase B
  acquired : τ → ℕ
  released : τ → ℕ

inductive Label (τ B U : Type*)
  | enter (thread : τ) (block : B)
  | acquire (thread : τ)
  | unlock (thread : τ)
  | free (step : U)

/-- The thread that acquires the lock. -/
def Label.acquires {τ B U : Type*} : Label τ B U → Option τ
  | .acquire t => some t
  | _ => none

variable {τ S B U : Type*} [DecidableEq τ]

namespace State

def init (shared : S) : State τ S B := ⟨shared, none, fun _ => .outside, fun _ => 0, fun _ => 0⟩

def Inside (s : State τ S B) (t : τ) : Prop := (s.phase t).Inside

instance (s : State τ S B) (t : τ) : Decidable (s.Inside t) :=
  inferInstanceAs (Decidable (Phase.Inside _))

/-- Thread `t` unlocks, whoever owns the lock, and has `left` unlocks to come. -/
def unlock (s : State τ S B) (t : τ) (left : ℕ) : State τ S B :=
  { s with
    owner := none
    phase := Function.update s.phase t (.after left)
    released := Function.update s.released t (s.released t + 1) }

end State

/-- The steps of the threads. -/
def step (c : Code S B U) (s : State τ S B) : Label τ B U → Option (State τ S B)
  | .enter t b =>
      match s.phase t with
      | .outside => some { s with phase := Function.update s.phase t (.waiting b) }
      | _ => none
  | .acquire t =>
      match s.phase t, s.owner with
      | .waiting b, none =>
          some { s with
            shared := c.run b s.shared
            owner := some t
            phase := Function.update s.phase t (.inside (c.manual b s.shared))
            acquired := Function.update s.acquired t (s.acquired t + 1) }
      | _, _ => none
  | .unlock t =>
      match s.phase t with
      | .inside manual => some (s.unlock t manual)
      | .leaving left => some (s.unlock t left)
      | _ => none
  | .free u => (c.free u s.shared).map fun shared => { s with shared := shared }

/-- The block that begins does not unlock by hand. -/
def Clean (c : Code S B U) (s : State τ S B) (l : Label τ B U) : Prop :=
  ∀ t ∈ l.acquires, ∀ b ∈ (s.phase t).block?, c.manual b s.shared = 0

/-- **The lock excludes.** -/
structure Exclusive (c : Code S B U) (s : State τ S B) : Prop where
  owner : ∀ t, s.Inside t ↔ s.owner = some t
  single : ∀ t u, s.Inside t → s.Inside u → t = u
  unlocks : ∀ t s', step c s (.unlock t) = some s' → s.owner = some t
  once : ∀ t, s.acquired t = s.released t + if s.Inside t then 1 else 0

/-! ## The invariant -/

/-- Nobody is about to unlock by hand, and a thread is inside exactly while it owns the lock. -/
structure Inv (s : State τ S B) : Prop where
  clean : ∀ t, match s.phase t with
    | .inside manual => manual = 0
    | .leaving _ => False
    | _ => True
  owner : ∀ t, s.Inside t ↔ s.owner = some t
  once : ∀ t, s.acquired t = s.released t + if s.Inside t then 1 else 0

variable {c : Code S B U} {s s' : State τ S B}

omit [DecidableEq τ] in
lemma inv_init (shared : S) : Inv (State.init shared : State τ S B) where
  clean _ := trivial
  owner _ := iff_of_false id (by simp [State.init])
  once _ := rfl

/-- A thread that unlocks is inside, for the only time. -/
lemma Inv.unlocking (h : Inv s) {t : τ} (hstep : step c s (.unlock t) = some s') :
    s.Inside t ∧ s' = s.unlock t 0 := by
  have hclean := h.clean t
  simp only [step] at hstep
  cases hphase : s.phase t with
  | outside => simp [hphase] at hstep
  | waiting b => simp [hphase] at hstep
  | leaving left => simp [hphase] at hclean
  | inside manual =>
      simp only [hphase] at hclean hstep
      rw [hclean] at hstep
      cases hstep
      exact ⟨by simp [State.Inside, hphase, Phase.Inside], rfl⟩

lemma Inv.exclusive (h : Inv s) : Exclusive c s where
  owner := h.owner
  single t u ht hu := by
    rw [h.owner] at ht hu
    exact Option.some.inj (ht.symm.trans hu)
  unlocks t s' hstep := (h.owner t).mp (h.unlocking hstep).1
  once := h.once

/-- A thread moves outside its block. -/
lemma Inv.enter (h : Inv s) {t : τ} {b : B} (ht : s.phase t = .outside) :
    Inv { s with phase := Function.update s.phase t (.waiting b) } := by
  have hinside : ∀ u, State.Inside { s with phase := Function.update s.phase t (.waiting b) } u ↔
      s.Inside u := by
    intro u
    unfold State.Inside
    by_cases hu : u = t
    · subst hu
      simp [ht, Phase.Inside]
    · simp [hu]
  refine ⟨fun u => ?_, fun u => (hinside u).trans (h.owner u), fun u => ?_⟩
  · by_cases hu : u = t
    · subst hu
      simp
    · simpa [hu] using h.clean u
  · simp only [hinside]
    exact h.once u

/-- A thread acquires the free lock for a block that does not unlock by hand. -/
lemma Inv.acquire (h : Inv s) {t : τ} {shared : S} (hfree : s.owner = none) :
    Inv { s with
      shared := shared
      owner := some t
      phase := Function.update s.phase t (.inside 0)
      acquired := Function.update s.acquired t (s.acquired t + 1) } := by
  have hout : ∀ u, ¬ s.Inside u := by
    intro u hu
    rw [h.owner, hfree] at hu
    cases hu
  refine ⟨fun u => ?_, fun u => ?_, fun u => ?_⟩
  · by_cases hu : u = t
    · subst hu
      simp
    · simpa [hu] using h.clean u
  · by_cases hu : u = t
    · subst hu
      simp [State.Inside, Phase.Inside]
    · have hnot : ¬ (s.phase u).Inside := hout u
      simpa [State.Inside, hu, Ne.symm hu] using hnot
  · have honce := h.once u
    rw [if_neg (hout u)] at honce
    by_cases hu : u = t
    · subst hu
      simp [State.Inside, Phase.Inside, honce]
    · have hnot : ¬ (s.phase u).Inside := hout u
      simpa [State.Inside, hu, hnot] using honce

/-- The owner unlocks. -/
lemma Inv.unlock (h : Inv s) {t : τ} (ht : s.Inside t) : Inv (s.unlock t 0) := by
  have hother : ∀ u, u ≠ t → ¬ s.Inside u := by
    intro u hu hin
    rw [h.owner] at ht hin
    exact hu (Option.some.inj (hin.symm.trans ht))
  refine ⟨fun u => ?_, fun u => ?_, fun u => ?_⟩
  · by_cases hu : u = t
    · subst hu
      simp [State.unlock, Phase.after]
    · simpa [State.unlock, hu] using h.clean u
  · refine iff_of_false ?_ (by simp [State.unlock])
    by_cases hu : u = t
    · subst hu
      simp [State.Inside, State.unlock, Phase.after, Phase.Inside]
    · have hnot : ¬ (s.phase u).Inside := hother u hu
      simpa [State.Inside, State.unlock, hu] using hnot
  · have honce := h.once u
    by_cases hu : u = t
    · subst hu
      rw [if_pos ht] at honce
      simpa [State.Inside, State.unlock, Phase.after, Phase.Inside] using honce
    · have hnot : ¬ (s.phase u).Inside := hother u hu
      rw [if_neg (hother u hu)] at honce
      simpa [State.Inside, State.unlock, hu, hnot] using honce

/-- **Every step with clean blocks keeps the lock in order.** -/
theorem Inv.step (h : Inv s) {l : Label τ B U} (hclean : Clean c s l)
    (hstep : step c s l = some s') : Inv s' := by
  cases l with
  | enter t b =>
      simp only [Mutex.step] at hstep
      split at hstep
      · rename_i hphase
        cases hstep
        exact h.enter hphase
      · cases hstep
  | acquire t =>
      simp only [Mutex.step] at hstep
      split at hstep
      · rename_i b hphase hfree
        cases hstep
        rw [hclean t rfl b (by rw [hphase]; rfl)]
        exact h.acquire hfree
      · cases hstep
  | unlock t =>
      obtain ⟨ht, rfl⟩ := h.unlocking hstep
      exact h.unlock ht
  | free u =>
      obtain ⟨shared, -, rfl⟩ := Option.map_eq_some_iff.mp hstep
      exact ⟨h.clean, h.owner, h.once⟩

/-- **The lock excludes** in every run whose blocks do not unlock by hand. -/
theorem exclusive_of_run {shared : S} {ls : List (Label τ B U)}
    (hrun : Run (step c) (Clean c) (.init shared) ls s) : Exclusive c s :=
  (hrun.invariant (inv_init shared) fun _ _ _ h hclean hstep => h.step hclean hstep).exclusive

end Mutex
