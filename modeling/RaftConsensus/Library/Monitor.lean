import RaftConsensus.Library.Transition

/-!
# Waiting on a condition variable

One thread waits, under a lock, until a condition on the shared state holds (`goOn`).  It tests
the condition with the lock in its hand and blocks if it does not hold; blocking gives the lock
back.  A notification wakes it up if it is blocked, and is lost otherwise.  It may also wake up for
no reason.

Steps of other threads that take the lock cannot come between the test and the block, the others
can.  `owes` says of a state that somebody is still going to notify.  If every step that lets the
waiting thread go on notifies, or leaves somebody who owes it, then no wakeup is lost
(`asleep_of_run`) in any run in which nobody notifies between the test and the block.
-/

namespace Monitor

open Transition

/-- Where the waiting thread is. -/
inductive Waiter
  /-- Not waiting. -/
  | away
  /-- It has the lock and has found that it cannot go on. -/
  | deciding
  | asleep
  /-- Woken up, it wants the lock back. -/
  | roused
  deriving DecidableEq

/-- The program around the condition variable. -/
structure Code (S L : Type*) where
  step : S → L → Option S
  /-- The step is one of the waiting thread's own. -/
  own : L → Prop
  locked : L → Prop
  notifies : S → L → Prop
  /-- The thread is where it waits. -/
  atWait : S → Prop
  goOn : S → Prop

structure State (S : Type*) where
  shared : S
  waiter : Waiter
  deriving DecidableEq

inductive Label (L : Type*)
  /-- A step of the program. -/
  | act (l : L)
  /-- The thread takes the lock and finds that it has to wait. -/
  | test
  | block
  /-- It wakes up without being notified. -/
  | spurious
  deriving DecidableEq

/-- Who may act: nobody who needs the lock while the thread decides, and the thread itself only
when it neither decides nor sleeps. -/
def Code.MayAct {S L : Type*} (c : Code S L) (w : Waiter) (l : L) : Prop :=
  (c.locked l → w ≠ .deciding) ∧ (c.own l → w = .away ∨ w = .roused)

/-- The thread after a step of the program. -/
def Code.waiterAfter {S L : Type*} (c : Code S L) [DecidablePred c.own]
    [∀ s, DecidablePred (c.notifies s)] (s : State S) (l : L) : Waiter :=
  if c.own l then .away
  else if c.notifies s.shared l ∧ s.waiter = .asleep then .roused
  else s.waiter

section Step

variable {S L : Type*} (c : Code S L) [DecidablePred c.own] [DecidablePred c.locked]
  [∀ s, DecidablePred (c.notifies s)] [DecidablePred c.atWait] [DecidablePred c.goOn]

instance (w : Waiter) (l : L) : Decidable (c.MayAct w l) :=
  inferInstanceAs (Decidable ((c.locked l → w ≠ .deciding) ∧ (c.own l → w = .away ∨ w = .roused)))

def step (s : State S) : Label L → Option (State S)
  | .act l =>
      if c.MayAct s.waiter l then
        (c.step s.shared l).map fun shared => ⟨shared, c.waiterAfter s l⟩
      else none
  | .test =>
      if (s.waiter = .away ∨ s.waiter = .roused) ∧ c.atWait s.shared ∧ ¬ c.goOn s.shared then
        some { s with waiter := .deciding }
      else none
  | .block => if s.waiter = .deciding then some { s with waiter := .asleep } else none
  | .spurious => if s.waiter = .asleep then some { s with waiter := .roused } else none

/-- The step does not notify between the test and the block. -/
def InTime (s : State S) : Label L → Prop
  | .act l => c.notifies s.shared l → s.waiter ≠ .deciding
  | _ => True

instance (s : State S) : DecidablePred (InTime c s)
  | .act l => inferInstanceAs (Decidable (c.notifies s.shared l → s.waiter ≠ .deciding))
  | .test | .block | .spurious => isTrue trivial

/-! ## The invariant -/

/-- **Nothing is missed**: if the thread sleeps, or is about to, it cannot go on, or somebody still
owes a notification. -/
def Heeded (owes : S → Prop) (s : State S) : Prop :=
  s.waiter = .asleep ∨ s.waiter = .deciding → ¬ c.goOn s.shared ∨ owes s.shared

variable {c} {owes : S → Prop} {s t : State S}

omit [DecidablePred c.locked] [DecidablePred c.atWait] [DecidablePred c.goOn] in
/-- A thread that sleeps after a step of the program slept before. -/
lemma Code.waiterAfter_cases {l : L}
    (h : c.waiterAfter s l = .asleep ∨ c.waiterAfter s l = .deciding) :
    ¬ c.own l ∧ s.waiter = c.waiterAfter s l ∧ (c.notifies s.shared l → s.waiter = .deciding) := by
  unfold Code.waiterAfter at h ⊢
  by_cases hown : c.own l
  · simp [hown] at h
  · by_cases hnotify : c.notifies s.shared l ∧ s.waiter = .asleep
    · simp [hown, hnotify] at h
    · rw [if_neg hown, if_neg hnotify] at h ⊢
      refine ⟨hown, rfl, fun hn => h.resolve_left fun hw => hnotify ⟨hn, hw⟩⟩

/-- **One step misses nothing.** -/
theorem Heeded.step
    (hnotify : ∀ s l s', c.step s l = some s' → ¬ c.own l → c.goOn s' → ¬ owes s' →
      c.goOn s ∧ ¬ owes s ∨ c.notifies s l)
    (h : Heeded c owes s) {l : Label L} (hok : InTime c s l) (hstep : step c s l = some t) :
    Heeded c owes t := by
  cases l with
  | act l =>
      simp only [Monitor.step] at hstep
      split at hstep
      · obtain ⟨shared, hshared, rfl⟩ := Option.map_eq_some_iff.mp hstep
        intro hw
        obtain ⟨hown, hsame, hdeciding⟩ := c.waiterAfter_cases hw
        by_contra hmissed
        obtain ⟨hgo, howes⟩ : c.goOn shared ∧ ¬ owes shared := by
          simpa [not_or] using hmissed
        rcases hnotify _ _ _ hshared hown hgo howes with ⟨hgo', howes'⟩ | hn
        · -- it could go on before, and did not sleep then
          rcases h (hsame ▸ hw) with hnot | hpending
          · exact hnot hgo'
          · exact howes' hpending
        · exact hok hn (hdeciding hn)
      · cases hstep
  | test =>
      simp only [Monitor.step] at hstep
      split at hstep
      · rename_i hguard
        cases hstep
        exact fun _ => .inl hguard.2.2
      · cases hstep
  | block =>
      simp only [Monitor.step] at hstep
      split at hstep
      · rename_i hw
        cases hstep
        exact fun _ => h (.inr hw)
      · cases hstep
  | spurious =>
      simp only [Monitor.step] at hstep
      split at hstep
      · cases hstep
        exact fun hw => by simp at hw
      · cases hstep

/-- **No wakeup is lost**: a thread that sleeps cannot go on, or is going to be notified. -/
theorem asleep_of_run
    (hnotify : ∀ s l s', c.step s l = some s' → ¬ c.own l → c.goOn s' → ¬ owes s' →
      c.goOn s ∧ ¬ owes s ∨ c.notifies s l)
    {ls : List (Label L)} (hrun : Run (step c) (InTime c) s ls t) (hstart : s.waiter = .away)
    (hasleep : t.waiter = .asleep) : ¬ c.goOn t.shared ∨ owes t.shared := by
  have hinit : Heeded c owes s := by
    intro hw
    rw [hstart] at hw
    simp at hw
  exact hrun.invariant hinit (fun _ _ _ h hok hstep => h.step hnotify hok hstep) (.inl hasleep)

/-- The shared state changes in steps of the program only. -/
lemma shared_of_step {l : Label L} (hstep : step c s l = some t) :
    t.shared = s.shared ∨ ∃ l', c.step s.shared l' = some t.shared := by
  cases l with
  | act l =>
      simp only [Monitor.step] at hstep
      split at hstep
      · obtain ⟨shared, hshared, rfl⟩ := Option.map_eq_some_iff.mp hstep
        exact .inr ⟨l, hshared⟩
      · cases hstep
  | test =>
      simp only [Monitor.step] at hstep
      split at hstep <;> cases hstep
      exact .inl rfl
  | block =>
      simp only [Monitor.step] at hstep
      split at hstep <;> cases hstep
      exact .inl rfl
  | spurious =>
      simp only [Monitor.step] at hstep
      split at hstep <;> cases hstep
      exact .inl rfl

/-! ## Lost wakeups -/

/-- A step without the lock does not keep a thread from blocking that has tested the condition,
whether it notifies or not. -/
lemma step_of_deciding {l : L} {s' : S} (hw : s.waiter = .deciding) (hlocked : ¬ c.locked l)
    (hown : ¬ c.own l) (hstep : c.step s.shared l = some s') :
    step c s (.act l) = some ⟨s', .deciding⟩ := by
  have hafter : c.waiterAfter s l = .deciding := by
    simp [Code.waiterAfter, hown, hw]
  rw [Monitor.step, if_pos ⟨fun h => absurd h hlocked, fun h => absurd h hown⟩, hstep,
    Option.map_some, hafter]

/-- The step wakes nobody up. -/
def Silent (c : Code S L) (s : State S) : Label L → Prop
  | .act l => ¬ c.notifies s.shared l
  | .spurious => False
  | _ => True

lemma asleep_of_step {l : Label L} (hw : s.waiter = .asleep) (hok : Silent c s l)
    (hstep : step c s l = some t) : t.waiter = .asleep := by
  cases l with
  | act l =>
      simp only [Monitor.step] at hstep
      split at hstep
      · rename_i hmay
        obtain ⟨shared, -, rfl⟩ := Option.map_eq_some_iff.mp hstep
        have hown : ¬ c.own l := fun h => by simpa [hw] using hmay.2 h
        have hquiet : ¬ (c.notifies s.shared l ∧ s.waiter = .asleep) := fun h => hok h.1
        show c.waiterAfter s l = .asleep
        rw [Code.waiterAfter, if_neg hown, if_neg hquiet, hw]
      · cases hstep
  | test => simp [Monitor.step, hw] at hstep
  | block => simp [Monitor.step, hw] at hstep
  | spurious => exact hok.elim

/-- **A thread that nobody wakes up sleeps for ever**, whatever the others do. -/
theorem asleep_of_silent {ls : List (Label L)} (hrun : Run (step c) (Silent c) s ls t)
    (hasleep : s.waiter = .asleep) : t.waiter = .asleep := by
  induction hrun with
  | nil => exact hasleep
  | snoc _ hok hstep hw => exact asleep_of_step hw hok hstep

end Step

end Monitor
