import RaftConsensus.Library.Transition

/-!
# What a system can still do

`CanReach step ok s P`: from `s` some run of admitted steps leads to a state with `P`.  It is the
existential side of a system: nothing says that such a run is taken, but the system is not stuck.

Continuations compose (`CanReach.trans`), go through a list of tasks one after the other
(`CanReach.forall_tasks`) and down a measure (`CanReach.of_measure`).  What every step keeps need
not be shown again for the state that is reached (`CanReach.keeping`).
-/

namespace Transition

variable {S L : Type*} {step : S → L → Option S} {ok ok' : S → L → Prop} {s t : S} {l : L}
  {P Q : S → Prop}

/-- Some admitted steps from `s` lead to a state with `P`. -/
def CanReach (step : S → L → Option S) (ok : S → L → Prop) (s : S) (P : S → Prop) : Prop :=
  ∃ ls t, Run step ok s ls t ∧ P t

namespace CanReach

lemma here (h : P s) : CanReach step ok s P := ⟨[], s, .nil, h⟩

/-- One step on. -/
lemma next (hok : ok s l) (hs : step s l = some t) (h : CanReach step ok t P) :
    CanReach step ok s P := by
  obtain ⟨ls, u, hrun, hu⟩ := h
  have hfirst : Run step ok s [l] t := Run.single hok hs
  exact ⟨[l] ++ ls, u, hfirst.append hrun, hu⟩

/-- The step is the last one. -/
lemma last (hok : ok s l) (hs : step s l = some t) (h : P t) : CanReach step ok s P :=
  next hok hs (here h)

lemma trans (h : CanReach step ok s P) (hP : ∀ t, P t → CanReach step ok t Q) :
    CanReach step ok s Q := by
  obtain ⟨ls, t, hrun, ht⟩ := h
  obtain ⟨ks, u, hrun', hu⟩ := hP t ht
  exact ⟨ls ++ ks, u, hrun.append hrun', hu⟩

lemma imp (h : CanReach step ok s P) (hP : ∀ t, P t → Q t) : CanReach step ok s Q :=
  h.trans fun t ht => here (hP t ht)

/-- With more steps admitted, no less can be reached. -/
lemma mono (h : CanReach step ok s P) (hok : ∀ s l, ok s l → ok' s l) :
    CanReach step ok' s P := by
  obtain ⟨ls, t, hrun, ht⟩ := h
  exact ⟨ls, t, hrun.mono hok, ht⟩

/-- What every admitted step keeps holds where one gets to. -/
lemma keeping {Inv : S → Prop} (h : CanReach step ok s P) (hinit : Inv s)
    (hstep : ∀ t l u, Inv t → ok t l → step t l = some u → Inv u) :
    CanReach step ok s fun t => Inv t ∧ P t := by
  obtain ⟨ls, t, hrun, ht⟩ := h
  exact ⟨ls, t, hrun, hrun.invariant hinit hstep, ht⟩

/-- **Tasks one after the other.**  If every task can be done while the others are still waiting,
all can be done. -/
theorem forall_tasks {α : Type*} {I : List α → S → Prop}
    (h : ∀ x xs t, I (x :: xs) t → CanReach step ok t (I xs)) (xs : List α) {s : S}
    (hs : I xs s) : CanReach step ok s (I []) := by
  induction xs generalizing s with
  | nil => exact here hs
  | cons x xs ih => exact (h x xs s hs).trans fun _ => ih

/-- **Down a measure.**  If from every state with `I` one can get to one with `P`, or to one with
`I` and a smaller measure, then one can get to `P`. -/
theorem of_measure {I : S → Prop} (μ : S → ℕ)
    (h : ∀ t, I t → P t ∨ CanReach step ok t fun u => I u ∧ μ u < μ t) {s : S} (hs : I s) :
    CanReach step ok s P := by
  induction hn : μ s using Nat.strongRecOn generalizing s with
  | ind n ih =>
      rcases h s hs with hP | hnext
      · exact here hP
      · exact hnext.trans fun u hu => ih (μ u) (hn ▸ hu.2) hu.1 rfl

end CanReach

end Transition
