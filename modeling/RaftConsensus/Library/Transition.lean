import Mathlib.Data.List.Basic
import Mathlib.Data.Option.Basic

/-!
# Runs of a labelled transition system

A system is a partial step function `step : S → L → Option S`.  A run is a list of labels with
the state it leads to; every step of it has to satisfy a side condition `ok`, which may look at
the state the step is taken in.  With `ok` constantly true these are all the runs of the system;
a property that only holds when some branch is avoided is stated over the runs whose steps all
avoid it.

`Run.invariant` is the induction every safety theorem is an instance of, and `Run.simulation` the
one for refinements.
-/

namespace Transition

variable {S L : Type*} {step : S → L → Option S} {ok ok' : S → L → Prop}

/-- `Run step ok s ls t`: the labels `ls`, each admitted by `ok` in the state it is taken in,
lead from `s` to `t`. -/
inductive Run (step : S → L → Option S) (ok : S → L → Prop) (s : S) : List L → S → Prop
  | nil : Run step ok s [] s
  | snoc {ls : List L} {t u : S} {l : L} :
      Run step ok s ls t → ok t l → step t l = some u → Run step ok s (ls ++ [l]) u

/-- Executes a list of labels, as long as they are admitted. -/
def runFrom (step : S → L → Option S) (ok : S → L → Prop) [∀ s, DecidablePred (ok s)] :
    S → List L → Option S
  | s, [] => some s
  | s, l :: ls =>
      if ok s l then
        match step s l with
        | some t => runFrom step ok t ls
        | none => none
      else none

/-- **The invariant rule.**  What holds at the start and is kept by every admitted step holds
wherever a run leads. -/
theorem Run.invariant {Inv : S → Prop} {s t : S} {ls : List L}
    (hrun : Run step ok s ls t) (hinit : Inv s)
    (hstep : ∀ t l u, Inv t → ok t l → step t l = some u → Inv u) : Inv t := by
  induction hrun with
  | nil => exact hinit
  | snoc _ hok hs ih => exact hstep _ _ _ ih hok hs

/-- A weaker side condition admits more runs. -/
lemma Run.mono (h : ∀ s l, ok s l → ok' s l) {s t : S} {ls : List L}
    (hrun : Run step ok s ls t) : Run step ok' s ls t := by
  induction hrun with
  | nil => exact .nil
  | snoc _ hok hs ih => exact .snoc ih (h _ _ hok) hs

/-- Runs compose. -/
lemma Run.append {s t u : S} {ls ks : List L} (h₁ : Run step ok s ls t)
    (h₂ : Run step ok t ks u) : Run step ok s (ls ++ ks) u := by
  induction h₂ with
  | nil => simpa using h₁
  | snoc _ hok hs ih =>
      rw [← List.append_assoc]
      exact .snoc ih hok hs

/-- A single admitted step is a run. -/
lemma Run.single {s t : S} {l : L} (hok : ok s l) (hs : step s l = some t) :
    Run step ok s [l] t := by
  simpa using Run.snoc (.nil (s := s)) hok hs

/-- A list of labels that executes is a run. -/
lemma run_of_runFrom [∀ s, DecidablePred (ok s)] {ls : List L} :
    ∀ {s t : S}, runFrom step ok s ls = some t → Run step ok s ls t := by
  induction ls with
  | nil =>
      intro s t h
      cases h
      exact .nil
  | cons l ls ih =>
      intro s t h
      rw [runFrom] at h
      split at h
      · rename_i hok
        split at h
        · rename_i u hu
          have hhead : Run step ok s [l] u := Run.single hok hu
          exact hhead.append (ih h)
        · cases h
      · cases h

/-- **The simulation rule.**  If every admitted step is matched by a step of another system, or
leaves its state alone, then so is every run. -/
theorem Run.simulation {S' L' : Type*} {step' : S' → L' → Option S'} {Rel : S → S' → Prop}
    {s t : S} {s' : S'} {ls : List L} (hrun : Run step ok s ls t) (hinit : Rel s s')
    (hstep : ∀ t l u t', Rel t t' → ok t l → step t l = some u →
      Rel u t' ∨ ∃ l' u', step' t' l' = some u' ∧ Rel u u') :
    ∃ ls' t', Run step' (fun _ _ => True) s' ls' t' ∧ Rel t t' := by
  induction hrun with
  | nil => exact ⟨[], s', .nil, hinit⟩
  | snoc _ hok hs ih =>
      obtain ⟨ls', t', hrun', hrel⟩ := ih
      rcases hstep _ _ _ t' hrel hok hs with hrel' | ⟨l', u', hs', hrel'⟩
      · exact ⟨ls', t', hrun', hrel'⟩
      · exact ⟨ls' ++ [l'], u', .snoc hrun' trivial hs', hrel'⟩

/-! ## States passed on the way -/

/-- The run over `ls` from `s` to `t` passes a state with `P`. -/
def Passed (step : S → L → Option S) (ok : S → L → Prop) (s : S) (ls : List L) (t : S)
    (P : S → Prop) : Prop :=
  ∃ ls₁ u ls₂, ls = ls₁ ++ ls₂ ∧ Run step ok s ls₁ u ∧ Run step ok u ls₂ t ∧ P u

/-- A run passes its last state. -/
lemma Run.passed {s t : S} {ls : List L} {P : S → Prop} (hrun : Run step ok s ls t) (hP : P t) :
    Passed step ok s ls t P :=
  ⟨ls, t, [], by simp, hrun, .nil, hP⟩

/-- What has been passed stays passed. -/
lemma Passed.snoc {s t u : S} {ls : List L} {l : L} {P : S → Prop}
    (h : Passed step ok s ls t P) (hok : ok t l) (hs : step t l = some u) :
    Passed step ok s (ls ++ [l]) u P := by
  obtain ⟨ls₁, v, ls₂, rfl, hrun₁, hrun₂, hP⟩ := h
  exact ⟨ls₁, v, ls₂ ++ [l], by simp, hrun₁, .snoc hrun₂ hok hs, hP⟩

/-! ## Steps taken on the way -/

/-- The run over `ls` from `s` to `t` takes a step that satisfies `P`, a property of the state the
step is taken in and its label. -/
def Took (step : S → L → Option S) (ok : S → L → Prop) (s : S) (ls : List L) (t : S)
    (P : S → L → Prop) : Prop :=
  ∃ ls₁ u l v ls₂, ls = ls₁ ++ l :: ls₂ ∧ Run step ok s ls₁ u ∧ ok u l ∧ step u l = some v ∧
    Run step ok v ls₂ t ∧ P u l

/-- A run takes its last step. -/
lemma Run.took {s t u : S} {ls : List L} {l : L} {P : S → L → Prop} (hrun : Run step ok s ls t)
    (hok : ok t l) (hs : step t l = some u) (hP : P t l) : Took step ok s (ls ++ [l]) u P :=
  ⟨ls, t, l, u, [], rfl, hrun, hok, hs, .nil, hP⟩

/-- What has been taken stays taken. -/
lemma Took.snoc {s t u : S} {ls : List L} {l : L} {P : S → L → Prop}
    (h : Took step ok s ls t P) (hok : ok t l) (hs : step t l = some u) :
    Took step ok s (ls ++ [l]) u P := by
  obtain ⟨ls₁, v, k, w, ls₂, rfl, hrun₁, hok', hs', hrun₂, hP⟩ := h
  exact ⟨ls₁, v, k, w, ls₂ ++ [l], by simp, hrun₁, hok', hs', .snoc hrun₂ hok hs, hP⟩

/-- What has been taken stays taken in a longer run. -/
lemma Took.append {s t u : S} {ls ks : List L} {P : S → L → Prop} (h : Took step ok s ls t P)
    (hrun : Run step ok t ks u) : Took step ok s (ls ++ ks) u P := by
  obtain ⟨ls₁, v, k, w, ls₂, rfl, hrun₁, hok, hs, hrun₂, hP⟩ := h
  exact ⟨ls₁, v, k, w, ls₂ ++ ks, by simp, hrun₁, hok, hs, hrun₂.append hrun, hP⟩

end Transition
