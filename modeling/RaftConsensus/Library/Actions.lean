import RaftConsensus.Library.Matching

/-!
# The actions of log replication preserve its invariant

Four actions, each an update of the abstract state:

* `raise v t` — replica `v` moves to term `t`;
* `elect c T` — replica `c` wins term `T` with the log it holds;
* `append c T e` — the leader `c` of term `T` appends an entry of that term;
* `accept v T p` — replica `v`, in term `T`, takes over the prefix `p` of the leader's log.

For each of them, under its guard: the result extends the state before (`_extends`) and the
invariant is preserved (`inv_`).  `Decided.accept` adds that accepting a prefix never loses what
is decided.
-/

namespace Replication

variable {N τ E : Type*} [LinearOrder τ] {te : E → τ} {Quorum : Finset N → Prop}
variable [DecidableEq N] {a : State N τ E}

/-- Replica `v` moves to term `t`. -/
def State.raise (a : State N τ E) (v : N) (t : τ) : State N τ E :=
  { a with term := Function.update a.term v t }

/-- Replica `c` wins term `T` with the log it holds, all of which it acknowledges itself. -/
def State.elect (a : State N τ E) (c : N) (T : τ) : State N τ E :=
  { a with
    led := fun t => t = T ∨ a.led t
    start := Function.update a.start T (a.log c)
    full := Function.update a.full T (a.log c)
    acked := Function.update a.acked c (Function.update (a.acked c) T (a.log c).length) }

/-- The leader `c` of term `T` appends `e`. -/
def State.append (a : State N τ E) (c : N) (T : τ) (e : E) : State N τ E :=
  { a with
    log := Function.update a.log c (a.log c ++ [e])
    full := Function.update a.full T (a.full T ++ [e])
    acked := Function.update a.acked c (Function.update (a.acked c) T (a.full T ++ [e]).length) }

open Classical in
/-- Replica `v` takes over the prefix `p` of the log of term `T`: what it holds is kept when it
already begins with `p`, and replaced by `p` otherwise. -/
noncomputable def State.accept (a : State N τ E) (v : N) (T : τ) (p : List E) : State N τ E :=
  { a with
    log := Function.update a.log v (if p <+: a.log v then a.log v else p)
    acked := Function.update a.acked v
      (Function.update (a.acked v) T (max (a.acked v T) p.length)) }

omit [DecidableEq N] in
/-- Nobody has won or stored anything: the invariant holds. -/
lemma inv_init {term : N → τ} :
    Inv te Quorum ⟨term, fun _ => [], fun _ => False, fun _ => [], fun _ => [], fun _ _ => 0⟩ where
  log_matched _ := matched_nil
  full_matched _ h := h.elim
  full_eq _ h := h.elim
  start_lt _ h := h.elim
  log_le := by simp
  acked_led := by simp
  acked_le := by simp
  kept _ _ _ h := h.elim
  won _ h := h.elim

/-! ## Raising a term -/

lemma raise_extends {v : N} {t : τ} (ht : a.term v ≤ t) : Extends a (a.raise v t) where
  led _ h := h
  start _ _ := rfl
  full _ _ := List.prefix_rfl
  term w := by
    by_cases hw : w = v
    · subst hw
      simpa [State.raise] using ht
    · simp [State.raise, hw]
  acked _ _ := le_rfl
  acked_eq _ _ _ := rfl

/-- `raise` changes nothing but a term, so every clause follows from the one before. -/
theorem inv_raise (hinv : Inv te Quorum a) {v : N} {t : τ} (ht : a.term v ≤ t) :
    Inv te Quorum (a.raise v t) := by
  have hext := raise_extends ht
  refine ⟨fun w => (hinv.log_matched w).mono hext, fun T hT => (hinv.full_matched T hT).mono hext,
    hinv.full_eq, hinv.start_lt, ?_, ?_, hinv.acked_le, ?_, ?_⟩
  · exact fun w e he => (hinv.log_le w e he).trans (hext.term w)
  · intro w T hne
    obtain ⟨hled, hle⟩ := hinv.acked_led w T hne
    exact ⟨hled, hle.trans (hext.term w)⟩
  · intro w T p hled hp hlen
    exact (hinv.kept w T p hled hp hlen).imp_right
      (Missed.mono hext fun _ h => h.trans (hext.term w))
  · intro T hled
    obtain ⟨A, hA, hvote⟩ := hinv.won T hled
    exact ⟨A, hA, fun w hw => (hvote w hw).mono hinv hext⟩

/-! ## Winning a term -/

section Elect

variable {c : N} {T : τ} (hterm : a.term c = T) (hfree : ¬ a.led T)

include hterm hfree in
lemma elect_extends (hinv : Inv te Quorum a) : Extends a (a.elect c T) where
  led _ h := .inr h
  start t h := by
    have ht : t ≠ T := fun h' => hfree (h' ▸ h)
    simp [State.elect, ht]
  full t h := by
    have ht : t ≠ T := fun h' => hfree (h' ▸ h)
    simp [State.elect, ht]
  term _ := le_rfl
  acked v t := by
    -- `T` was not led, so nobody had acknowledged any of it
    have hzero : a.acked c T = 0 := by
      by_contra hne
      exact hfree (hinv.acked_led c T hne).1
    by_cases hv : v = c
    · subst hv
      by_cases ht : t = T
      · subst ht
        simp [hzero]
      · simp [State.elect, ht]
    · simp [State.elect, hv]
  acked_eq v t hlt := by
    by_cases hv : v = c
    · subst hv
      have ht : t ≠ T := by
        rw [← hterm]
        exact hlt.ne
      simp [State.elect, ht]
    · simp [State.elect, hv]

include hterm hfree in
/-- Winning a term with the votes of a quorum preserves the invariant. -/
theorem inv_elect (hinv : Inv te Quorum a) (hlt : ∀ e ∈ a.log c, te e < T)
    (hwon : ∃ A, Quorum A ∧ ∀ v ∈ A, Vote te a v T (a.log c)) :
    Inv te Quorum (a.elect c T) := by
  have hext := elect_extends hterm hfree hinv
  have hstart : (a.elect c T).start T = a.log c := by simp [State.elect]
  have hfull : (a.elect c T).full T = a.log c := by simp [State.elect]
  have hstart' : ∀ t, t ≠ T → (a.elect c T).start t = a.start t := by
    intro t ht
    simp [State.elect, ht]
  have hfull' : ∀ t, t ≠ T → (a.elect c T).full t = a.full t := by
    intro t ht
    simp [State.elect, ht]
  have hold : ∀ t, (a.elect c T).led t → t ≠ T → a.led t := fun t h ht => h.resolve_left ht
  have hacked : ∀ v t, ¬ (v = c ∧ t = T) → (a.elect c T).acked v t = a.acked v t := by
    intro v t h
    by_cases hv : v = c
    · subst hv
      have ht : t ≠ T := fun ht => h ⟨rfl, ht⟩
      simp [State.elect, ht]
    · simp [State.elect, hv]
  have hackedc : (a.elect c T).acked c T = (a.log c).length := by simp [State.elect]
  have hmatching : Matching te (a.elect c T) :=
    hinv.matching.elect hfree (fun _ => Iff.rfl) rfl rfl
  refine ⟨hmatching.log, hmatching.full, ?_, ?_, hinv.log_le, ?_, ?_, ?_, ?_⟩
  · intro t ht
    by_cases h : t = T
    · subst h
      exact ⟨[], by simp [hfull, hstart], by simp⟩
    · rw [hfull' t h, hstart' t h]
      exact hinv.full_eq t (hold t ht h)
  · intro t ht
    by_cases h : t = T
    · subst h
      rwa [hstart]
    · rw [hstart' t h]
      exact hinv.start_lt t (hold t ht h)
  · intro v t hne
    by_cases h : v = c ∧ t = T
    · obtain ⟨rfl, rfl⟩ := h
      exact ⟨.inl rfl, hterm.ge⟩
    · rw [hacked v t h] at hne
      obtain ⟨hled, hle⟩ := hinv.acked_led v t hne
      exact ⟨.inr hled, hle⟩
  · intro v t
    by_cases h : v = c ∧ t = T
    · obtain ⟨rfl, rfl⟩ := h
      rw [hackedc, hfull]
    · rw [hacked v t h]
      by_cases ht : t = T
      · subst ht
        have hzero : a.acked v t = 0 := by
          by_contra hne
          exact hfree (hinv.acked_led v t hne).1
        simp [hzero]
      · rw [hfull' t ht]
        exact hinv.acked_le v t
  · intro v t p ht hp hlen
    by_cases h : t = T
    · subst h
      by_cases hv : v = c
      · subst hv
        rw [hfull] at hp
        exact .inl hp
      · rw [hacked v t (fun h => hv h.1)] at hlen
        have hzero : a.acked v t = 0 := by
          by_contra hne
          exact hfree (hinv.acked_led v t hne).1
        have hnil : p = [] := List.eq_nil_of_length_eq_zero (by omega)
        exact .inl (by simp [hnil])
    · rw [hfull' t h] at hp
      rw [hacked v t (fun h' => h h'.2)] at hlen
      exact (hinv.kept v t p (hold t ht h) hp hlen).imp_right (Missed.mono hext fun _ h => h)
  · intro t ht
    by_cases h : t = T
    · subst h
      obtain ⟨A, hA, hvote⟩ := hwon
      rw [hstart]
      exact ⟨A, hA, fun v hv => (hvote v hv).mono hinv hext⟩
    · obtain ⟨A, hA, hvote⟩ := hinv.won t (hold t ht h)
      rw [hstart' t h]
      exact ⟨A, hA, fun v hv => (hvote v hv).mono hinv hext⟩

end Elect

/-! ## Appending as a leader -/

section Append

variable {c : N} {T : τ} {e : E} (hterm : a.term c = T) (hled : a.led T)
  (hlog : a.log c = a.full T)

include hterm in
lemma append_extends (hinv : Inv te Quorum a) : Extends a (a.append c T e) where
  led _ h := h
  start _ _ := rfl
  full t _ := by
    by_cases ht : t = T
    · subst ht
      simp [State.append]
    · simp [State.append, ht]
  term _ := le_rfl
  acked v t := by
    by_cases hv : v = c
    · subst hv
      by_cases ht : t = T
      · subst ht
        have hle := hinv.acked_le v t
        simp only [State.append, Function.update_self, List.length_append, List.length_cons,
          List.length_nil]
        omega
      · simp [State.append, ht]
    · simp [State.append, hv]
  acked_eq v t hlt := by
    by_cases hv : v = c
    · subst hv
      have ht : t ≠ T := by
        rw [← hterm]
        exact hlt.ne
      simp [State.append, ht]
    · simp [State.append, hv]

include hterm hled hlog in
/-- A leader that appends an entry of its own term preserves the invariant. -/
theorem inv_append (hinv : Inv te Quorum a) (he : te e = T) :
    Inv te Quorum (a.append c T e) := by
  have hext := append_extends (e := e) hterm hinv
  have hfull : (a.append c T e).full T = a.full T ++ [e] := by simp [State.append]
  have hfull' : ∀ t, t ≠ T → (a.append c T e).full t = a.full t := by
    intro t ht
    simp [State.append, ht]
  have hlogc : (a.append c T e).log c = a.full T ++ [e] := by simp [State.append, hlog]
  have hlog' : ∀ v, v ≠ c → (a.append c T e).log v = a.log v := by
    intro v hv
    simp [State.append, hv]
  have hacked : ∀ v t, ¬ (v = c ∧ t = T) → (a.append c T e).acked v t = a.acked v t := by
    intro v t h
    by_cases hv : v = c
    · subst hv
      have ht : t ≠ T := fun ht => h ⟨rfl, ht⟩
      simp [State.append, ht]
    · simp [State.append, hv]
  have hackedc : (a.append c T e).acked c T = (a.full T ++ [e]).length := by simp [State.append]
  have hmatching : Matching te (a.append c T e) :=
    hinv.matching.append hled hlog he rfl rfl rfl
  refine ⟨hmatching.log, hmatching.full, ?_, hinv.start_lt, ?_, ?_, ?_, ?_, ?_⟩
  · intro t ht
    by_cases h : t = T
    · obtain ⟨r, hr, hrt⟩ := hinv.full_eq T hled
      rw [h]
      refine ⟨r ++ [e], ?_, ?_⟩
      · rw [hfull, hr, List.append_assoc]
        rfl
      · intro x hx
        rcases List.mem_append.mp hx with hx | hx
        · exact hrt x hx
        · rw [List.mem_singleton.mp hx, he]
    · rw [hfull' t h]
      exact hinv.full_eq t ht
  · intro v x hx
    by_cases hv : v = c
    · subst hv
      rw [hlogc, List.mem_append] at hx
      rcases hx with hx | hx
      · exact hinv.log_le v x (by rwa [hlog])
      · rw [List.mem_singleton.mp hx, he]
        exact hterm.ge
    · rw [hlog' v hv] at hx
      exact hinv.log_le v x hx
  · intro v t hne
    by_cases h : v = c ∧ t = T
    · obtain ⟨rfl, rfl⟩ := h
      exact ⟨hled, hterm.ge⟩
    · rw [hacked v t h] at hne
      exact hinv.acked_led v t hne
  · intro v t
    by_cases h : v = c ∧ t = T
    · obtain ⟨rfl, rfl⟩ := h
      rw [hackedc, hfull]
    · rw [hacked v t h]
      refine (hinv.acked_le v t).trans ?_
      by_cases ht : t = T
      · rw [ht, hfull]
        simp
      · rw [hfull' t ht]
  · intro v t p ht hp hlen
    by_cases h : v = c ∧ t = T
    · obtain ⟨rfl, rfl⟩ := h
      rw [hlogc, ← hfull]
      exact .inl hp
    · rw [hacked v t h] at hlen
      refine (hinv.kept v t p ht (hext.prefix_of_acked hinv ht hp hlen) hlen).imp ?_
        (Missed.mono hext fun _ h => h)
      intro hpl
      by_cases hv : v = c
      · rw [hv, hlogc, ← hlog, ← hv]
        exact hpl.trans (List.prefix_append _ _)
      · rwa [hlog' v hv]
  · intro t ht
    obtain ⟨A, hA, hvote⟩ := hinv.won t ht
    exact ⟨A, hA, fun v hv => (hvote v hv).mono hinv hext⟩

end Append

/-! ## Accepting a prefix of the leader's log -/

section Accept

variable {v : N} {T : τ} {p : List E} (hterm : a.term v = T) (hled : a.led T)
  (hp : p <+: a.full T)

include hterm in
lemma accept_extends : Extends a (a.accept v T p) where
  led _ h := h
  start _ _ := rfl
  full _ _ := List.prefix_rfl
  term _ := le_rfl
  acked w t := by
    by_cases hw : w = v
    · subst hw
      by_cases ht : t = T
      · subst ht
        simp [State.accept]
      · simp [State.accept, ht]
    · simp [State.accept, hw]
  acked_eq w t hlt := by
    by_cases hw : w = v
    · subst hw
      have ht : t ≠ T := by
        rw [← hterm]
        exact hlt.ne
      simp [State.accept, ht]
    · simp [State.accept, hw]

/-- Whatever both the replica and the leader hold is held after accepting: if the replica's log
is replaced at all, it is replaced by something longer than what the two have in common. -/
lemma prefix_accept {q : List E} (hq : q <+: a.log v) (hqT : q <+: a.full T)
    (hp : p <+: a.full T) : q <+: (a.accept v T p).log v := by
  by_cases h : p <+: a.log v
  · simpa [State.accept, h] using hq
  · have hlen : q.length ≤ p.length := by
      by_contra hlt
      exact h ((List.prefix_of_prefix_length_le hp hqT (by omega)).trans hq)
    simpa [State.accept, h] using List.prefix_of_prefix_length_le hqT hp hlen

lemma accept_prefix_log : p <+: (a.accept v T p).log v := by
  by_cases h : p <+: a.log v <;> simp [State.accept, h]

include hterm hled hp in
/-- Accepting a prefix of the log of the term one is in preserves the invariant. -/
theorem inv_accept (hinv : Inv te Quorum a) : Inv te Quorum (a.accept v T p) := by
  have hext : Extends a (a.accept v T p) := accept_extends hterm
  have hlog' : ∀ w, w ≠ v → (a.accept v T p).log w = a.log w := by
    intro w hw
    simp [State.accept, hw]
  have hcases : (a.accept v T p).log v = a.log v ∨ (a.accept v T p).log v = p := by
    by_cases h : p <+: a.log v
    · exact .inl (by simp [State.accept, h])
    · exact .inr (by simp [State.accept, h])
  have hacked : ∀ w t, ¬ (w = v ∧ t = T) → (a.accept v T p).acked w t = a.acked w t := by
    intro w t h
    by_cases hw : w = v
    · subst hw
      have ht : t ≠ T := fun ht => h ⟨rfl, ht⟩
      simp [State.accept, ht]
    · simp [State.accept, hw]
  have hackedv : (a.accept v T p).acked v T = max (a.acked v T) p.length := by
    simp [State.accept]
  refine ⟨?_, fun t ht => (hinv.full_matched t ht).mono hext, hinv.full_eq, hinv.start_lt, ?_, ?_,
    ?_, ?_, ?_⟩
  · intro w
    by_cases hw : w = v
    · subst hw
      rcases hcases with h | h
      · rw [h]
        exact (hinv.log_matched w).mono hext
      · rw [h]
        exact ((hinv.full_matched T hled).mono hext).of_shorter hp
    · rw [hlog' w hw]
      exact (hinv.log_matched w).mono hext
  · intro w x hx
    by_cases hw : w = v
    · subst hw
      rcases hcases with h | h
      · rw [h] at hx
        exact hinv.log_le w x hx
      · rw [h] at hx
        exact (hinv.full_le hled x (hp.subset hx)).trans hterm.ge
    · rw [hlog' w hw] at hx
      exact hinv.log_le w x hx
  · intro w t hne
    by_cases h : w = v ∧ t = T
    · obtain ⟨rfl, rfl⟩ := h
      exact ⟨hled, hterm.ge⟩
    · rw [hacked w t h] at hne
      exact hinv.acked_led w t hne
  · intro w t
    by_cases h : w = v ∧ t = T
    · obtain ⟨rfl, rfl⟩ := h
      rw [hackedv]
      exact max_le (hinv.acked_le w t) hp.length_le
    · rw [hacked w t h]
      exact hinv.acked_le w t
  · intro w t q ht hq hlen
    by_cases hw : w = v
    · subst hw
      by_cases hT : t = T
      · -- the term being accepted: old and new acknowledgements are both held
        subst hT
        rw [hackedv] at hlen
        rcases le_max_iff.mp hlen with hold | hnew
        · rcases hinv.kept w t q ht hq hold with hql | ⟨T', _, hlt, hle, _⟩
          · exact .inl (prefix_accept hql hq hp)
          · exact absurd (hlt.trans_le (hle.trans hterm.le)) (lt_irrefl _)
        · exact .inl ((List.prefix_of_prefix_length_le hq hp hnew).trans accept_prefix_log)
      · -- an earlier term: either the present leader is without it, or both logs have it
        rw [hacked w t (fun h => hT h.2)] at hlen
        rcases hinv.kept w t q ht hq hlen with hql | hmiss
        · by_cases hqT : q <+: a.start T
          · exact .inl (prefix_accept hql (hqT.trans (hinv.start_isPrefix hled)) hp)
          · by_cases hqz : q = []
            · exact .inl (by simp [hqz])
            · have hne : a.acked w t ≠ 0 := by
                intro h
                exact hqz (List.eq_nil_of_length_eq_zero (by omega))
              have hle : t ≤ T := (hinv.acked_led w t hne).2.trans hterm.le
              exact .inr ⟨T, hled, hle.lt_of_ne hT, hterm.ge, hqT⟩
        · exact .inr (hmiss.mono hext fun _ h => h)
    · rw [hacked w t (fun h => hw h.1)] at hlen
      rw [hlog' w hw]
      exact (hinv.kept w t q ht hq hlen).imp_right (Missed.mono hext fun _ h => h)
  · intro t ht
    obtain ⟨A, hA, hvote⟩ := hinv.won t ht
    exact ⟨A, hA, fun w hw => (hvote w hw).mono hinv hext⟩

include hled hp in
/-- Accepting a prefix never loses anything decided. -/
lemma Decided.accept [LocallyFiniteOrder τ]
    (hquorum : ∀ A B, Quorum A → Quorum B → ∃ v ∈ A, v ∈ B) (hinv : Inv te Quorum a)
    {q : List E} (hq : Decided te Quorum a T q) (hql : q <+: a.log v) :
    q <+: (a.accept v T p).log v :=
  prefix_accept hql (hq.prefix_full hquorum hinv hled) hp

end Accept

end Replication
