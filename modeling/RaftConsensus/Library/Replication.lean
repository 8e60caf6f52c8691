import Mathlib.Data.Finset.Basic
import Mathlib.Order.Interval.Finset.Basic
import Mathlib.Data.List.Infix
import Mathlib.Logic.Function.Basic

/-!
# Leader-based log replication, abstractly

Replicas hold logs; terms are led by at most one log, which only its leader extends; a replica
accepts a prefix of the log of the term it is in.  No messages, no indices and no stored state:
what is kept is `start T`, the log with which term `T` was won, `full T`, that log as its leader
has extended it so far, and `acked v T`, how much of `full T` replica `v` has acknowledged while
it was in term `T`.

The invariant `Inv` is preserved by the four actions of the protocol (`raise`, `elect`, `append`,
`accept`).  Three results are used by an implementation of it:

* `matched_isPrefix` — log matching: logs agree below any entry of the same term they share;
* **`chosen_prefix_start`** — leader completeness: a prefix that a quorum acknowledged in term
  `T`, ending in an entry of `T`, is a prefix of `start T'` for every later led term `T'`;
* `Decided.comparable` — any two decided prefixes are comparable.

Everything is over arbitrary types of replicas, terms and entries, and an arbitrary family of
pairwise intersecting quorums.
-/

namespace Replication

variable {N τ E : Type*} [LinearOrder τ] (te : E → τ) (Quorum : Finset N → Prop)

/-- The abstract state. -/
structure State (N τ E : Type*) where
  /-- The term each replica is in. -/
  term : N → τ
  /-- The log each replica holds. -/
  log : N → List E
  /-- The terms that have been won. -/
  led : τ → Prop
  /-- The log a won term started with. -/
  start : τ → List E
  /-- The log of a won term as extended by its leader. -/
  full : τ → List E
  /-- How much of `full T` a replica has acknowledged in term `T`. -/
  acked : N → τ → ℕ

variable {a b : State N τ E}

/-- Every entry of `l` sits in `l` on top of exactly what the leader of its term had below it. -/
def Matched (a : State N τ E) (l : List E) : Prop :=
  ∀ p e, p ++ [e] <+: l → a.led (te e) ∧ p ++ [e] <+: a.full (te e)

/-- `l` ends at least as late as `r`: a higher last term, or the same and no shorter. -/
def UpToDate (l r : List E) : Prop :=
  ∀ q x, r = q ++ [x] →
    ∃ p y, l = p ++ [y] ∧ (te x < te y ∨ te x = te y ∧ r.length ≤ l.length)

/-- Some term after `T`, below the bound, was won without the prefix `p`. -/
def Missed (a : State N τ E) (T : τ) (below : τ → Prop) (p : List E) : Prop :=
  ∃ T', a.led T' ∧ T < T' ∧ below T' ∧ ¬ p <+: a.start T'

/-- A vote of `v` in term `T` for a candidate whose log is `l`: when `v` voted it held a log `r`
that `l` is up to date with, and `r` held everything `v` had acknowledged in earlier terms,
unless a leader in between was already without it. -/
def Vote (a : State N τ E) (v : N) (T : τ) (l : List E) : Prop :=
  T ≤ a.term v ∧ ∃ r, Matched te a r ∧ UpToDate te l r ∧
    ∀ T₀ p, T₀ < T → a.led T₀ → p <+: a.full T₀ → p.length ≤ a.acked v T₀ →
      p <+: r ∨ Missed a T₀ (· < T) p

/-- The protocol invariant. -/
structure Inv (a : State N τ E) : Prop where
  /-- Replicas hold matched logs. -/
  log_matched : ∀ v, Matched te a (a.log v)
  /-- Leaders hold matched logs. -/
  full_matched : ∀ T, a.led T → Matched te a (a.full T)
  /-- Leaders only append, and only entries of their own term. -/
  full_eq : ∀ T, a.led T → ∃ r, a.full T = a.start T ++ r ∧ ∀ e ∈ r, te e = T
  /-- Leaders start from entries of earlier terms. -/
  start_lt : ∀ T, a.led T → ∀ e ∈ a.start T, te e < T
  /-- No replica holds an entry of a term it has not reached. -/
  log_le : ∀ v, ∀ e ∈ a.log v, te e ≤ a.term v
  /-- Only won terms are acknowledged, by replicas that reached them. -/
  acked_led : ∀ v T, a.acked v T ≠ 0 → a.led T ∧ T ≤ a.term v
  /-- Nothing beyond the leader's log is acknowledged. -/
  acked_le : ∀ v T, a.acked v T ≤ (a.full T).length
  /-- What was acknowledged is still held, unless a later leader was without it. -/
  kept : ∀ v T p, a.led T → p <+: a.full T → p.length ≤ a.acked v T →
    p <+: a.log v ∨ Missed a T (· ≤ a.term v) p
  /-- Every won term was won with the votes of a quorum. -/
  won : ∀ T, a.led T → ∃ A, Quorum A ∧ ∀ v ∈ A, Vote te a v T (a.start T)

/-- `b` is later than `a`: nothing that was established has been taken back. -/
structure Extends (a b : State N τ E) : Prop where
  led : ∀ T, a.led T → b.led T
  start : ∀ T, a.led T → b.start T = a.start T
  full : ∀ T, a.led T → a.full T <+: b.full T
  term : ∀ v, a.term v ≤ b.term v
  acked : ∀ v T, a.acked v T ≤ b.acked v T
  acked_eq : ∀ v T, T < a.term v → b.acked v T = a.acked v T

lemma Extends.refl (a : State N τ E) : Extends a a :=
  ⟨fun _ h => h, fun _ _ => rfl, fun _ _ => List.prefix_rfl, fun _ => le_rfl, fun _ _ => le_rfl,
    fun _ _ _ => rfl⟩

lemma Extends.trans {a b c : State N τ E} (h₁ : Extends a b) (h₂ : Extends b c) :
    Extends a c where
  led T h := h₂.led T (h₁.led T h)
  start T h := (h₂.start T (h₁.led T h)).trans (h₁.start T h)
  full T h := (h₁.full T h).trans (h₂.full T (h₁.led T h))
  term v := (h₁.term v).trans (h₂.term v)
  acked v T := (h₁.acked v T).trans (h₂.acked v T)
  acked_eq v T h := (h₂.acked_eq v T (h.trans_le (h₁.term v))).trans (h₁.acked_eq v T h)

/-! ## Matched logs -/

variable {te Quorum}

omit [LinearOrder τ] in
lemma matched_nil : Matched te a [] := by
  intro p e h
  simp at h

omit [LinearOrder τ] in
lemma Matched.of_shorter {l r : List E} (h : Matched te a l) (hr : r <+: l) : Matched te a r :=
  fun p e hp => h p e (hp.trans hr)

omit [LinearOrder τ] in
/-- Matched logs stay matched while the logs of the leaders grow. -/
lemma Matched.grow (hled : ∀ T, a.led T → b.led T) (hfull : ∀ T, a.led T → a.full T <+: b.full T)
    {l : List E} (h : Matched te a l) : Matched te b l := by
  intro p e hp
  obtain ⟨hT, hpre⟩ := h p e hp
  exact ⟨hled _ hT, hpre.trans (hfull _ hT)⟩

lemma Matched.mono (hext : Extends a b) {l : List E} (h : Matched te a l) : Matched te b l :=
  h.grow hext.led hext.full

omit [LinearOrder τ] in
/-- **Log matching.**  Two matched logs that hold entries of the same term at the same position
agree up to there. -/
theorem matched_isPrefix {l r p q : List E} {x y : E} (hl : Matched te a l) (hr : Matched te a r)
    (hp : p ++ [x] <+: l) (hq : q ++ [y] <+: r) (hlen : p.length = q.length)
    (hterm : te x = te y) : p ++ [x] = q ++ [y] := by
  obtain ⟨-, hx⟩ := hl p x hp
  obtain ⟨-, hy⟩ := hr q y hq
  rw [← hterm] at hy
  exact (List.prefix_of_prefix_length_le hx hy (by simp [hlen])).eq_of_length (by simp [hlen])

omit [LinearOrder τ] in
/-- A matched log lies inside the log of the leader of its last entry. -/
lemma Matched.prefix_full {l p : List E} {e : E} (h : Matched te a l) (hl : l = p ++ [e]) :
    a.led (te e) ∧ l <+: a.full (te e) := by
  subst hl
  exact h p e List.prefix_rfl

/-- Entries of a leader's log are of no later term. -/
lemma Inv.full_le (h : Inv te Quorum a) {T : τ} (hT : a.led T) : ∀ e ∈ a.full T, te e ≤ T := by
  obtain ⟨r, hfull, hr⟩ := h.full_eq T hT
  intro e he
  rw [hfull, List.mem_append] at he
  rcases he with he | he
  · exact (h.start_lt T hT e he).le
  · exact (hr e he).le

/-- In a matched log, terms do not decrease towards the end. -/
lemma Matched.le_last (hinv : Inv te Quorum a) {l p : List E} {e : E} (h : Matched te a l)
    (hl : l = p ++ [e]) : ∀ x ∈ l, te x ≤ te e := by
  obtain ⟨hled, hpre⟩ := h.prefix_full hl
  exact fun x hx => hinv.full_le hled x (hpre.subset hx)

lemma Inv.start_isPrefix (h : Inv te Quorum a) {T : τ} (hT : a.led T) : a.start T <+: a.full T := by
  obtain ⟨r, hfull, -⟩ := h.full_eq T hT
  exact ⟨r, hfull.symm⟩

/-- A matched log ending in an entry of term `T` contains all the leader of `T` started from. -/
lemma Matched.start_isPrefix (hinv : Inv te Quorum a) {l p : List E} {e : E} (h : Matched te a l)
    (hl : l = p ++ [e]) : a.start (te e) <+: l := by
  obtain ⟨hled, hpre⟩ := h.prefix_full hl
  refine List.prefix_of_prefix_length_le (hinv.start_isPrefix hled) hpre ?_
  by_contra hlt
  -- otherwise the last entry lies among those the leader started from, which are older
  have hsub : l <+: a.start (te e) :=
    List.prefix_of_prefix_length_le hpre (hinv.start_isPrefix hled) (by omega)
  have hmem : e ∈ a.start (te e) := hsub.subset (by simp [hl])
  exact lt_irrefl _ (hinv.start_lt _ hled e hmem)

/-! ## Facts that survive -/

lemma Missed.mono (hext : Extends a b) {T : τ} {P Q : τ → Prop} (hPQ : ∀ t, P t → Q t)
    {p : List E} (h : Missed a T P p) : Missed b T Q p := by
  obtain ⟨T', hled, hlt, hP, hmiss⟩ := h
  exact ⟨T', hext.led _ hled, hlt, hPQ _ hP, by rwa [hext.start _ hled]⟩

/-- A prefix acknowledged now was already there when it was acknowledged. -/
lemma Extends.prefix_of_acked (hinv : Inv te Quorum a) (hext : Extends a b) {v : N} {T : τ}
    {p : List E} (hled : a.led T) (hp : p <+: b.full T) (hlen : p.length ≤ a.acked v T) :
    p <+: a.full T :=
  List.prefix_of_prefix_length_le hp (hext.full T hled) (hlen.trans (hinv.acked_le v T))

/-- Votes stay valid: what a voter acknowledged in earlier terms cannot change any more. -/
lemma Vote.mono (hinv : Inv te Quorum a) (hext : Extends a b) {v : N} {T : τ} {l : List E}
    (h : Vote te a v T l) : Vote te b v T l := by
  obtain ⟨hterm, r, hmatch, hup, hkeep⟩ := h
  refine ⟨hterm.trans (hext.term v), r, hmatch.mono hext, hup, ?_⟩
  intro T₀ p hlt _ hp hlen
  rw [hext.acked_eq v T₀ (hlt.trans_le hterm)] at hlen
  by_cases hled : a.led T₀
  · exact (hkeep T₀ p hlt hled (hext.prefix_of_acked hinv hled hp hlen) hlen).imp_right
      (Missed.mono hext fun _ h => h)
  · -- a term won since then was not acknowledged by `v` at all
    have hzero : a.acked v T₀ = 0 := by
      by_contra hne
      exact hled (hinv.acked_led v T₀ hne).1
    have hnil : p = [] := List.eq_nil_of_length_eq_zero (by omega)
    exact .inl (by simp [hnil])

/-! ## Leader completeness -/

variable (te Quorum) in
/-- `p` was chosen in term `T`: it is a prefix of the leader's log that ends in an entry of `T`
and that a quorum has acknowledged in `T`. -/
def Chosen (a : State N τ E) (T : τ) (p : List E) : Prop :=
  a.led T ∧ p <+: a.full T ∧ (∃ q e, p = q ++ [e] ∧ te e = T) ∧
    ∃ A, Quorum A ∧ ∀ v ∈ A, p.length ≤ a.acked v T

lemma Chosen.mono (hext : Extends a b) {T : τ} {p : List E} (h : Chosen te Quorum a T p) :
    Chosen te Quorum b T p := by
  obtain ⟨hled, hpre, hlast, A, hA, hack⟩ := h
  exact ⟨hext.led _ hled, hpre.trans (hext.full _ hled), hlast, A, hA,
    fun v hv => (hack v hv).trans (hext.acked v T)⟩

/-- A log that is up to date with one holding a chosen prefix holds it too, provided the leaders
in between do. -/
lemma prefix_of_upToDate (hinv : Inv te Quorum a) {T : τ} {p q l r : List E} {x : E}
    (hp : p = q ++ [x]) (hx : te x = T) (hl : Matched te a l) (hr : Matched te a r)
    (hup : UpToDate te l r) (hpr : p <+: r)
    (hbetween : ∀ T', a.led T' → T < T' → (∃ y ∈ l, te y = T') → p <+: a.start T') :
    p <+: l := by
  have hrne : r ≠ [] := by
    rintro rfl
    simp [hp] at hpr
  obtain ⟨r', z, hrz⟩ := (List.eq_nil_or_concat r).resolve_left hrne
  rw [List.concat_eq_append] at hrz
  obtain ⟨l', y, hly, hlt | ⟨heq, hlen⟩⟩ := hup r' z hrz
  · -- a strictly later last term: its own leader already held `p`
    have hxz : te x ≤ te z := hr.le_last hinv hrz x (hpr.subset (by simp [hp]))
    have hled : a.led (te y) := (hl.prefix_full hly).1
    have hstart : p <+: a.start (te y) :=
      hbetween _ hled (by rw [← hx]; exact hxz.trans_lt hlt) ⟨y, by simp [hly], rfl⟩
    exact hstart.trans (hl.start_isPrefix hinv hly)
  · -- the same last term: both logs are prefixes of that leader's log
    have hrpre : r <+: a.full (te y) := by
      rw [← heq]
      exact (hr.prefix_full hrz).2
    exact hpr.trans (List.prefix_of_prefix_length_le hrpre (hl.prefix_full hly).2 hlen)

/-- **Leader completeness.**  What was chosen in a term is contained in the log every later term
starts from.  The induction is on the later term: the quorum that chose `p` and the quorum that
won the later term share a replica, whose log held `p` when it voted because, by induction, no
leader in between was without it. -/
theorem chosen_prefix_start [LocallyFiniteOrder τ] (hinv : Inv te Quorum a)
    (hquorum : ∀ A B, Quorum A → Quorum B → ∃ v ∈ A, v ∈ B) {T : τ} {p : List E}
    (h : Chosen te Quorum a T p) : ∀ T', a.led T' → T < T' → p <+: a.start T' := by
  obtain ⟨hled, hpre, ⟨q, x, hpx, hx⟩, A, hA, hack⟩ := h
  intro T'
  induction hn : (Finset.Ioo T T').card using Nat.strong_induction_on generalizing T' with
  | _ n ih =>
      intro hled' hlt
      have hbetween : ∀ T'', a.led T'' → T < T'' → T'' < T' → p <+: a.start T'' := by
        intro T'' hled'' hl hr
        refine ih _ ?_ T'' rfl hled'' hl
        rw [← hn]
        refine Finset.card_lt_card (Finset.ssubset_iff_of_subset ?_ |>.mpr ?_)
        · exact Finset.Ioo_subset_Ioo_right hr.le
        · exact ⟨T'', by simp [hl, hr], by simp⟩
      obtain ⟨B, hB, hvote⟩ := hinv.won T' hled'
      obtain ⟨v, hvA, hvB⟩ := hquorum A B hA hB
      obtain ⟨-, r, hr, hup, hkeep⟩ := hvote v hvB
      have hpr : p <+: r := by
        rcases hkeep T p hlt hled hpre (hack v hvA) with hpr | ⟨T'', hled'', hl, hr', hmiss⟩
        · exact hpr
        · exact absurd (hbetween T'' hled'' hl hr') hmiss
      have hstart : Matched te a (a.start T') :=
        (hinv.full_matched T' hled').of_shorter (hinv.start_isPrefix hled')
      refine prefix_of_upToDate hinv hpx hx hstart hr hup hpr ?_
      rintro T'' hled'' hl ⟨y, hy, rfl⟩
      exact hbetween _ hled'' hl (hinv.start_lt T' hled' y hy)

/-! ## Decided prefixes -/

variable (te Quorum) in
/-- `l` is decided by term `t`: it is empty, or lies below something chosen in a term up to
`t`. -/
def Decided (a : State N τ E) (t : τ) (l : List E) : Prop :=
  l = [] ∨ ∃ T p, T ≤ t ∧ Chosen te Quorum a T p ∧ l <+: p

lemma Decided.mono (hext : Extends a b) {t t' : τ} (ht : t ≤ t') {l : List E}
    (h : Decided te Quorum a t l) : Decided te Quorum b t' l := by
  rcases h with h | ⟨T, p, hT, hc, hl⟩
  · exact .inl h
  · exact .inr ⟨T, p, hT.trans ht, hc.mono hext, hl⟩

lemma Decided.of_shorter {t : τ} {l r : List E} (h : Decided te Quorum a t l) (hr : r <+: l) :
    Decided te Quorum a t r := by
  rcases h with rfl | ⟨T, p, hT, hc, hl⟩
  · exact .inl (List.prefix_nil.mp hr)
  · exact .inr ⟨T, p, hT, hc, hr.trans hl⟩

variable [LocallyFiniteOrder τ] (hquorum : ∀ A B, Quorum A → Quorum B → ∃ v ∈ A, v ∈ B)

include hquorum in
/-- The leader of a term has everything decided up to its term. -/
lemma Decided.prefix_full (hinv : Inv te Quorum a) {T : τ} {l : List E}
    (h : Decided te Quorum a T l) (hled : a.led T) : l <+: a.full T := by
  rcases h with rfl | ⟨T₀, p, hT, hc, hl⟩
  · simp
  · rcases hT.lt_or_eq with hlt | rfl
    · exact hl.trans ((chosen_prefix_start hinv hquorum hc T hled hlt).trans
        (hinv.start_isPrefix hled))
    · exact hl.trans hc.2.1

include hquorum in
/-- **Agreement.**  Any two decided prefixes are comparable. -/
theorem Decided.comparable (hinv : Inv te Quorum a) {t t' : τ} {l r : List E}
    (hl : Decided te Quorum a t l) (hr : Decided te Quorum a t' r) : l <+: r ∨ r <+: l := by
  rcases hl with rfl | ⟨T, p, hT, hp, hlp⟩
  · exact .inl (by simp)
  rcases hr with rfl | ⟨T', q, hT', hq, hrq⟩
  · exact .inr (by simp)
  -- both lie in the log of the later of the two terms
  rcases le_total T T' with h | h
  · have : l <+: a.full T' :=
      Decided.prefix_full hquorum hinv (.inr ⟨T, p, h, hp, hlp⟩) hq.1
    exact List.prefix_or_prefix_of_prefix this (hrq.trans hq.2.1)
  · have : r <+: a.full T :=
      Decided.prefix_full hquorum hinv (.inr ⟨T', q, h, hq, hrq⟩) hp.1
    exact List.prefix_or_prefix_of_prefix (hlp.trans hp.2.1) this

include hquorum in
/-- **What is decided is kept**, by a quorum and by the leaders of all later terms. -/
theorem Decided.kept (hinv : Inv te Quorum a) {t : τ} {l : List E}
    (h : Decided te Quorum a t l) (hne : l ≠ []) :
    ∃ A T, Quorum A ∧ (∀ v ∈ A, T ≤ a.term v ∧ l <+: a.log v) ∧
      ∀ T', a.led T' → T ≤ T' → l <+: a.full T' := by
  obtain ⟨T, p, -, hc, hlp⟩ := h.resolve_left hne
  have hdec : Decided te Quorum a T l := .inr ⟨T, p, le_rfl, hc, hlp⟩
  have hlater := chosen_prefix_start hinv hquorum hc
  obtain ⟨hled, hpre, ⟨q, x, hpx, -⟩, A, hA, hack⟩ := hc
  refine ⟨A, T, hA, fun v hv => ?_, fun T' hled' hle => ?_⟩
  · have hacked : a.acked v T ≠ 0 := by
      have hle := hack v hv
      rw [hpx, List.length_append] at hle
      exact Nat.ne_of_gt (Nat.lt_of_lt_of_le (Nat.succ_pos _) hle)
    refine ⟨(hinv.acked_led v T hacked).2, hlp.trans ?_⟩
    rcases hinv.kept v T p hled hpre (hack v hv) with hheld | ⟨T', hled', hlt, -, hmiss⟩
    · exact hheld
    · exact absurd (hlater T' hled' hlt) hmiss
  · exact (hdec.mono (.refl a) hle).prefix_full hquorum hinv hled'

include hquorum in
/-- What is decided is not lost by a replica that has acknowledged it to any leader whose term is
late enough to have it decided. -/
theorem Decided.held (hinv : Inv te Quorum a) {T : τ} {v : N} {l : List E}
    (h : Decided te Quorum a T l) (hled : a.led T) (hack : l.length ≤ a.acked v T) :
    l <+: a.log v := by
  obtain hheld | ⟨T', hled', hlt, -, hmiss⟩ :=
    hinv.kept v T l hled (h.prefix_full hquorum hinv hled) hack
  · exact hheld
  · rcases h with rfl | ⟨T₀, p, hT, hc, hlp⟩
    · exact List.nil_prefix
    · exact absurd (hlp.trans (chosen_prefix_start hinv hquorum hc T' hled' (hT.trans_lt hlt)))
        hmiss

end Replication
