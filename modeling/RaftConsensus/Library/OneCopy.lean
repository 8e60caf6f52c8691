import RaftConsensus.Library.Traces
import Mathlib.Data.List.Infix
import Mathlib.Data.List.Perm.Subperm
import Mathlib.Logic.Function.Basic

/-!
# One copy of an object

A sequential object (`Object`) executes one operation after the other.  A service that keeps many
copies of it is correct when its clients cannot tell it from a single one: this is what
`Linearizable` says, of what the clients have seen only.  There is one order of operations such
that at every moment some part of it from the start contains all that has been answered, contains
every operation at most as often as it has been submitted, and every answer is the one the object
gives at its place.

`OneCopy` is the machine to refine: operations are submitted, each submission is put into the order
once at most, the copies execute the order one operation after the other, and an operation can be
answered when it is in the order.  Whatever the machine shows is linearizable
(`OneCopy.linearizable`).
-/

variable {σ Op Res Id N : Type*}

/-- What an operation does to a state, and what it answers. -/
structure Object (σ Op Res : Type*) where
  apply : σ → Op → σ
  answer : σ → Op → Res

namespace Object

variable (o : Object σ Op Res) (s : σ) {order order' : List Op} {k : ℕ} {op : Op} {r : Res}

/-- Executes operations in order. -/
def run (ops : List Op) : σ := ops.foldl o.apply s

@[simp] lemma run_nil : o.run s [] = s := rfl

lemma run_concat (ops : List Op) (op : Op) :
    o.run s (ops ++ [op]) = o.apply (o.run s ops) op := by
  rw [run, List.foldl_append]
  rfl

/-- `op` is at position `k` of the order, and `r` is its answer there. -/
def AnswersAt (order : List Op) (k : ℕ) (op : Op) (r : Res) : Prop :=
  order[k]? = some op ∧ r = o.answer (o.run s (order.take k)) op

variable {o s}

lemma AnswersAt.lt (h : o.AnswersAt s order k op r) : k < order.length :=
  (List.getElem?_eq_some_iff.mp h.1).1

/-- An answer does not depend on what comes later. -/
lemma AnswersAt.of_prefix (h : o.AnswersAt s order k op r) (hpre : order <+: order') :
    o.AnswersAt s order' k op r := by
  obtain ⟨rest, rfl⟩ := hpre
  obtain ⟨hop, hr⟩ := h
  have hlt := (List.getElem?_eq_some_iff.mp hop).1
  refine ⟨by rw [List.getElem?_append_left hlt, hop], ?_⟩
  rw [List.take_append_of_le_length hlt.le, hr]

end Object

/-- What clients see. -/
inductive Seen (Op Id Res : Type*)
  | submitted (op : Op)
  | answered (id : Id) (r : Res)
  | refused (id : Id)
  deriving DecidableEq

/-- The operation that is submitted. -/
def Seen.submitted? : Seen Op Id Res → Option Op
  | .submitted op => some op
  | _ => none

/-- **One copy explains what has been seen.** -/
def Linearizable (o : Object σ Op Res) (s : σ) (idOf : Op → Id) (tr : List (Seen Op Id Res)) :
    Prop :=
  ∃ order : List Op, ∀ seen, seen <+: tr → ∃ n ≤ order.length,
    (order.take n).Subperm (seen.filterMap Seen.submitted?) ∧
      ∀ id r, .answered id r ∈ seen → ∃ k < n, ∃ op, idOf op = id ∧ o.AnswersAt s order k op r

/-- The machine: the submissions that have not been put into the order yet, the order, and how far
the copies have executed it. -/
structure OneCopy (N Op : Type*) where
  waiting : List Op
  order : List Op
  copies : N → ℕ

namespace OneCopy

/-- What the machine can do. -/
inductive Action (N Op Id : Type*)
  | submit (op : Op)
  /-- A waiting submission is put into the order. -/
  | arrange (op : Op)
  /-- A copy executes the next operation. -/
  | advance (v : N)
  /-- The operation at position `k` is answered. -/
  | answer (k : ℕ)
  /-- Somebody is turned away. -/
  | refuse (id : Id)

def init : OneCopy N Op := ⟨[], [], fun _ => 0⟩

section Step

variable [DecidableEq N] [DecidableEq Op]

def step (b : OneCopy N Op) : Action N Op Id → Option (OneCopy N Op)
  | .submit op => some { b with waiting := op :: b.waiting }
  | .arrange op =>
      if op ∈ b.waiting then
        some { b with waiting := b.waiting.erase op, order := b.order ++ [op] }
      else none
  | .advance v =>
      if b.copies v < b.order.length then
        some { b with copies := Function.update b.copies v (b.copies v + 1) }
      else none
  | .answer k => if k < b.order.length then some b else none
  | .refuse _ => some b

variable (o : Object σ Op Res) (s : σ) (idOf : Op → Id)

/-- What an action shows. -/
def shown (b : OneCopy N Op) : Action N Op Id → List (Seen Op Id Res)
  | .submit op => [.submitted op]
  | .answer k =>
      (b.order[k]?).toList.map fun op =>
        .answered (idOf op) (o.answer (o.run s (b.order.take k)) op)
  | .refuse id => [.refused id]
  | _ => []

/-- Runs of the machine, with what they show. -/
abbrev Traced : OneCopy N Op → List (Seen Op Id Res) → OneCopy N Op → Prop :=
  Transition.Traced step (fun _ _ => True) (shown o s idOf)

variable {o s idOf} {b c : OneCopy N Op} {tr : List (Seen Op Id Res)} {op : Op} {v : N} {k : ℕ}
  {r : Res} {id : Id}

/-! ## Single steps -/

lemma traced_submit : Traced o s idOf b [.submitted op] { b with waiting := op :: b.waiting } :=
  Transition.Traced.single (l := Action.submit op) trivial rfl

lemma traced_arrange (h : op ∈ b.waiting) :
    Traced o s idOf b [] { b with waiting := b.waiting.erase op, order := b.order ++ [op] } :=
  Transition.Traced.single (l := Action.arrange op) trivial (if_pos h)

lemma traced_advance (h : b.copies v < b.order.length) :
    Traced o s idOf b [] { b with copies := Function.update b.copies v (b.copies v + 1) } :=
  Transition.Traced.single (l := Action.advance v) trivial (if_pos h)

lemma traced_answer (h : o.AnswersAt s b.order k op r) :
    Traced o s idOf b [.answered (idOf op) r] b := by
  have hsingle : Traced o s idOf b (shown o s idOf b (.answer k)) b :=
    Transition.Traced.single (l := Action.answer k) trivial (if_pos h.lt)
  simpa only [OneCopy.shown, h.1, h.2, Option.toList_some, List.map_cons, List.map_nil]
    using hsingle

lemma traced_refuse : Traced o s idOf b [.refused id] b :=
  Transition.Traced.single (l := Action.refuse id) trivial rfl

/-! ## What the machine shows is linearizable -/

/-- The submissions that have been seen are in the order or waiting, and the order explains what has
been answered. -/
structure Explains (o : Object σ Op Res) (s : σ) (idOf : Op → Id) (tr : List (Seen Op Id Res))
    (b : OneCopy N Op) : Prop where
  submitted : (b.order ++ b.waiting).Perm (tr.filterMap Seen.submitted?)
  answered : ∀ id r, .answered id r ∈ tr → ∃ k op, idOf op = id ∧ o.AnswersAt s b.order k op r

/-- The order only grows. -/
lemma step_order {x : Action N Op Id} (h : b.step x = some c) : b.order <+: c.order := by
  cases x with
  | submit => cases h; exact List.prefix_rfl
  | arrange =>
      simp only [step] at h
      split at h
      · cases h
        exact List.prefix_append _ _
      · cases h
  | advance =>
      simp only [step] at h
      split at h
      · cases h
        exact List.prefix_rfl
      · cases h
  | answer =>
      simp only [step] at h
      split at h
      · cases h
        exact List.prefix_rfl
      · cases h
  | refuse => cases h; exact List.prefix_rfl

omit [DecidableEq N] [DecidableEq Op] in
/-- An action that submits nothing. -/
lemma Explains.still {seen : List (Seen Op Id Res)} (h : Explains o s idOf tr b)
    (hperm : (c.order ++ c.waiting).Perm (b.order ++ b.waiting))
    (hnone : seen.filterMap Seen.submitted? = [])
    (hanswered : ∀ id r, .answered id r ∈ tr ++ seen →
      ∃ k op, idOf op = id ∧ o.AnswersAt s c.order k op r) :
    Explains o s idOf (tr ++ seen) c := by
  refine ⟨?_, hanswered⟩
  rw [List.filterMap_append, hnone, List.append_nil]
  exact hperm.trans h.submitted

lemma Explains.step {x : Action N Op Id} (h : Explains o s idOf tr b) (hstep : b.step x = some c) :
    Explains o s idOf (tr ++ shown o s idOf b x) c := by
  have hgrow := step_order hstep
  have hold : ∀ id r, .answered id r ∈ tr →
      ∃ k op, idOf op = id ∧ o.AnswersAt s c.order k op r := by
    intro id r hseen
    obtain ⟨k, op, hid, hat⟩ := h.answered id r hseen
    exact ⟨k, op, hid, hat.of_prefix hgrow⟩
  cases x with
  | submit op =>
      cases hstep
      refine ⟨?_, fun id r hseen => hold id r (by simpa [OneCopy.shown] using hseen)⟩
      rw [List.filterMap_append]
      exact List.perm_middle.trans
        ((h.submitted.cons op).trans (List.perm_append_singleton op _).symm)
  | arrange op =>
      simp only [OneCopy.step] at hstep
      split at hstep
      · rename_i hop
        cases hstep
        refine h.still ?_ rfl fun id r hseen => hold id r (by simpa [OneCopy.shown] using hseen)
        -- the submission goes from one list to the other
        rw [List.append_assoc]
        exact (List.perm_cons_erase hop).symm.append_left b.order
      · cases hstep
  | advance v =>
      simp only [OneCopy.step] at hstep
      split at hstep
      · cases hstep
        exact h.still (.refl _) rfl fun id r hseen =>
          hold id r (by simpa [OneCopy.shown] using hseen)
      · cases hstep
  | answer k =>
      simp only [OneCopy.step] at hstep
      split at hstep
      · rename_i hk
        cases hstep
        rw [OneCopy.shown, List.getElem?_eq_getElem hk]
        refine h.still (.refl _) rfl fun id r hseen => ?_
        rcases List.mem_append.mp hseen with hseen | hseen
        · exact hold id r hseen
        · cases List.mem_singleton.mp hseen
          exact ⟨k, b.order[k], rfl, List.getElem?_eq_getElem hk, rfl⟩
      · cases hstep
  | refuse id' =>
      cases hstep
      exact h.still (.refl _) rfl fun id r hseen =>
        hold id r (by simpa [OneCopy.shown] using hseen)

omit [DecidableEq N] [DecidableEq Op] in
/-- An action shows one thing at most. -/
lemma prefix_shown {x : Action N Op Id} {seen : List (Seen Op Id Res)}
    (h : seen <+: tr ++ shown o s idOf b x) : seen <+: tr ∨ seen = tr ++ shown o s idOf b x := by
  have hlen : (shown o s idOf b x).length ≤ 1 := by
    cases x with
    | answer k =>
        rw [OneCopy.shown, List.length_map]
        cases b.order[k]? <;> simp
    | _ => simp [OneCopy.shown]
  rcases Nat.lt_or_ge tr.length seen.length with hlt | hge
  · refine .inr (h.eq_of_length ?_)
    have hle := h.length_le
    rw [List.length_append] at hle ⊢
    omega
  · exact .inl (List.prefix_of_prefix_length_le h (List.prefix_append _ _) hge)

/-- The order after a run explains every moment of it. -/
lemma Traced.explains (h : Traced o s idOf init tr b) :
    Explains o s idOf tr b ∧ ∀ seen, seen <+: tr → ∃ n ≤ b.order.length,
      (b.order.take n).Subperm (seen.filterMap Seen.submitted?) ∧
        ∀ id r, .answered id r ∈ seen →
          ∃ k < n, ∃ op, idOf op = id ∧ o.AnswersAt s b.order k op r := by
  -- at the last moment the whole order will do
  have hlast : ∀ {tr : List (Seen Op Id Res)} {b : OneCopy N Op}, Explains o s idOf tr b →
      ∃ n ≤ b.order.length, (b.order.take n).Subperm (tr.filterMap Seen.submitted?) ∧
        ∀ id r, .answered id r ∈ tr →
          ∃ k < n, ∃ op, idOf op = id ∧ o.AnswersAt s b.order k op r := by
    intro tr b hexp
    refine ⟨_, le_rfl, ?_, fun id r hseen => ?_⟩
    · rw [List.take_length]
      exact (List.sublist_append_left _ _).subperm.trans hexp.submitted.subperm
    · obtain ⟨k, op, hid, hat⟩ := hexp.answered id r hseen
      exact ⟨k, hat.lt, op, hid, hat⟩
  induction h with
  | nil =>
      have hinit : Explains o s idOf [] (init : OneCopy N Op) :=
        ⟨.refl _, by simp⟩
      refine ⟨hinit, fun seen hseen => ?_⟩
      rw [List.prefix_nil.mp hseen]
      exact hlast hinit
  | @snoc tr b c x _ _ hstep ih =>
      obtain ⟨hexp, hmoments⟩ := ih
      have hexp' := hexp.step hstep
      refine ⟨hexp', fun seen hseen => ?_⟩
      rcases prefix_shown hseen with hseen | rfl
      · obtain ⟨n, hn, hsub, hans⟩ := hmoments seen hseen
        obtain ⟨rest, hrest⟩ := step_order hstep
        refine ⟨n, hn.trans (List.IsPrefix.length_le ⟨rest, hrest⟩), ?_, fun id r hr => ?_⟩
        · rwa [← hrest, List.take_append_of_le_length hn]
        · obtain ⟨k, hk, op, hid, hat⟩ := hans id r hr
          exact ⟨k, hk, op, hid, hat.of_prefix ⟨rest, hrest⟩⟩
      · exact hlast hexp'

/-- **What the machine shows is linearizable.** -/
theorem linearizable (h : Traced o s idOf init tr b) : Linearizable o s idOf tr :=
  ⟨b.order, (Traced.explains h).2⟩

end Step

end OneCopy
