import RaftConsensus.Library.Transition

/-!
# What is seen of a run

An observer of a transition system does not see its states but what some of the steps show
(`obs`).  `Traced` is a run together with everything it has shown, in order.

`Traced.refines` is the rule for refinements that keep what is seen: if every step is matched by a
run of another system that shows the same, then so is every run.  The other system may take no
step at all, or several.
-/

namespace Transition

variable {S L O : Type*} {step : S → L → Option S} {ok : S → L → Prop} {obs : S → L → List O}
  {s t u : S} {tr tr' : List O}

/-- A run from `s` that shows `tr`. -/
inductive Traced (step : S → L → Option S) (ok : S → L → Prop) (obs : S → L → List O) (s : S) :
    List O → S → Prop
  | nil : Traced step ok obs s [] s
  | snoc {tr : List O} {t u : S} {l : L} :
      Traced step ok obs s tr t → ok t l → step t l = some u →
        Traced step ok obs s (tr ++ obs t l) u

namespace Traced

lemma append (h : Traced step ok obs s tr t) (h' : Traced step ok obs t tr' u) :
    Traced step ok obs s (tr ++ tr') u := by
  induction h' with
  | nil => simpa using h
  | snoc _ hok hs ih =>
      rw [← List.append_assoc]
      exact .snoc ih hok hs

/-- One step. -/
lemma single {l : L} (hok : ok s l) (hs : step s l = some t) :
    Traced step ok obs s (obs s l) t := by
  simpa using Traced.snoc (.nil (s := s)) hok hs

/-- Forgetting what is seen. -/
lemma run (h : Traced step ok obs s tr t) : ∃ ls, Run step ok s ls t := by
  induction h with
  | nil => exact ⟨[], .nil⟩
  | snoc _ hok hs ih =>
      obtain ⟨ls, hrun⟩ := ih
      exact ⟨_, .snoc hrun hok hs⟩

/-- **The refinement rule.**  If every admitted step is matched by a run of another system that
shows the same, then so is every run. -/
theorem refines {S' L' : Type*} {step' : S' → L' → Option S'} {obs' : S' → L' → List O}
    {Rel : S → S' → Prop} {s' : S'} (h : Traced step ok obs s tr t) (hinit : Rel s s')
    (hstep : ∀ t l u t', Rel t t' → ok t l → step t l = some u →
      ∃ u', Traced step' (fun _ _ => True) obs' t' (obs t l) u' ∧ Rel u u') :
    ∃ t', Traced step' (fun _ _ => True) obs' s' tr t' ∧ Rel t t' := by
  induction h with
  | nil => exact ⟨s', .nil, hinit⟩
  | snoc _ hok hs ih =>
      obtain ⟨t', htraced, hrel⟩ := ih
      obtain ⟨u', hstep', hrel'⟩ := hstep _ _ _ t' hrel hok hs
      exact ⟨u', htraced.append hstep', hrel'⟩

end Traced

/-- The system that keeps what it has shown. -/
def tracing (step : S → L → Option S) (obs : S → L → List O) (p : S × List O) (l : L) :
    Option (S × List O) :=
  (step p.1 l).map fun t => (t, p.2 ++ obs p.1 l)

/-- What has been kept has been shown. -/
lemma traced_of_run {ls : List L} {p : S × List O}
    (h : Run (tracing step obs) (fun p => ok p.1) (s, []) ls p) :
    Traced step ok obs s p.2 p.1 := by
  induction h with
  | nil => exact .nil
  | snoc _ hok hs ih =>
      obtain ⟨t, ht, rfl⟩ := Option.map_eq_some_iff.mp hs
      exact .snoc ih hok ht

end Transition
