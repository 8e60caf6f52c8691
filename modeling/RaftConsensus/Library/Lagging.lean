import RaftConsensus.Library.Actions

/-!
# Replicas that lag behind their leader

A leader looks for the point up to which a replica agrees with it by going back one entry at a
time.  What it may conclude from an answer has to survive everything that happens until it acts on
it.  `Later` is `Extends` together with the one thing a replica can do to its log without leaving
its term: take over a part of the leader's.

* `Clean v T` — replica `v` has reached `T`, and as long as it is in it, it holds nothing but a
  part of the leader's log;
* `Behind v T p` — replica `v` has reached `T`, and as long as it is in it, it is clean or does not
  hold `p`.

Both survive (`Clean.mono`, `Behind.mono`).  **`commit_of_accept`** is why a replica may take over
the leader's commit index up to the end of its own log, and not just up to the last entry it was
sent.
-/

namespace Replication

variable {N τ E : Type*} [LinearOrder τ] {te : E → τ} {Quorum : Finset N → Prop}
variable {a b c : State N τ E} {v : N} {T : τ} {p q : List E}

/-! ## Later states -/

/-- `b` is later than `a`, and a replica that is still in its term holds the log it held, or a
part of its leader's. -/
structure Later (a b : State N τ E) : Prop where
  ext : Extends a b
  log : ∀ v, b.term v = a.term v →
    b.log v = a.log v ∨ b.led (b.term v) ∧ b.log v <+: b.full (b.term v)

lemma Later.refl (a : State N τ E) : Later a a := ⟨.refl a, fun _ _ => .inl rfl⟩

lemma Later.trans (h₁ : Later a b) (h₂ : Later b c) : Later a c where
  ext := h₁.ext.trans h₂.ext
  log v hv := by
    have hab : b.term v = a.term v := le_antisymm (hv ▸ h₂.ext.term v) (h₁.ext.term v)
    have hbc : c.term v = b.term v := hv.trans hab.symm
    rcases h₂.log v hbc with hlog | hclean
    · rw [hlog]
      rcases h₁.log v hab with hlog' | ⟨hled, hpre⟩
      · exact .inl hlog'
      · rw [hbc]
        exact .inr ⟨h₂.ext.led _ hled, hpre.trans (h₂.ext.full _ hled)⟩
    · exact .inr hclean

section Actions

variable [DecidableEq N]

lemma later_raise {t : τ} (ht : a.term v ≤ t) : Later a (a.raise v t) :=
  ⟨raise_extends ht, fun _ _ => .inl rfl⟩

lemma later_elect (hinv : Inv te Quorum a) (hterm : a.term v = T) (hfree : ¬ a.led T) :
    Later a (a.elect v T) :=
  ⟨elect_extends hterm hfree hinv, fun _ _ => .inl rfl⟩

lemma later_append {e : E} (hinv : Inv te Quorum a) (hterm : a.term v = T) (hled : a.led T)
    (hlog : a.log v = a.full T) : Later a (a.append v T e) where
  ext := append_extends hterm hinv
  log w _ := by
    by_cases hw : w = v
    · subst hw
      right
      simp [State.append, hterm, hled, hlog]
    · exact .inl (by simp [State.append, hw])

lemma later_accept (hterm : a.term v = T) (hled : a.led T) (hp : p <+: a.full T) :
    Later a (a.accept v T p) where
  ext := accept_extends hterm
  log w _ := by
    by_cases hw : w = v
    · subst hw
      by_cases h : p <+: a.log w
      · exact .inl (by simp [State.accept, h])
      · right
        simpa [State.accept, h, hterm] using ⟨hled, hp⟩
    · exact .inl (by simp [State.accept, hw])

end Actions

/-! ## What is known about a replica -/

/-- `v` has reached `T` and holds, while in it, only a part of the leader's log. -/
def Clean (a : State N τ E) (v : N) (T : τ) : Prop :=
  T ≤ a.term v ∧ (a.term v = T → a.log v <+: a.full T)

/-- `v` has reached `T` and, while in it, is clean or does not hold `p`. -/
def Behind (a : State N τ E) (v : N) (T : τ) (p : List E) : Prop :=
  T ≤ a.term v ∧ (a.term v = T → a.log v <+: a.full T ∨ ¬ p <+: a.log v)

lemma Clean.behind (h : Clean a v T) (p : List E) : Behind a v T p :=
  ⟨h.1, fun hT => .inl (h.2 hT)⟩

/-- What a replica in term `T` holds later is what it held, or a part of the leader's log. -/
lemma Later.log_cases (hl : Later a b) (hT : T ≤ a.term v) (hv : b.term v = T) :
    a.term v = T ∧ (b.log v = a.log v ∨ b.log v <+: b.full T) := by
  have hterm : a.term v = T := le_antisymm (hv ▸ hl.ext.term v) hT
  rcases hl.log v (hv.trans hterm.symm) with h | ⟨-, h⟩
  · exact ⟨hterm, .inl h⟩
  · exact ⟨hterm, .inr (hv ▸ h)⟩

lemma Clean.mono (hl : Later a b) (hled : a.led T) (h : Clean a v T) : Clean b v T := by
  refine ⟨h.1.trans (hl.ext.term v), fun hv => ?_⟩
  obtain ⟨hterm, hlog | hlog⟩ := hl.log_cases h.1 hv
  · rw [hlog]
    exact (h.2 hterm).trans (hl.ext.full T hled)
  · exact hlog

lemma Behind.mono (hl : Later a b) (hled : a.led T) (h : Behind a v T p) : Behind b v T p := by
  refine ⟨h.1.trans (hl.ext.term v), fun hv => ?_⟩
  obtain ⟨hterm, hlog | hlog⟩ := hl.log_cases h.1 hv
  · rw [hlog]
    exact (h.2 hterm).imp_left fun hpre => hpre.trans (hl.ext.full T hled)
  · exact .inl hlog

/-! ## Voting -/

lemma UpToDate.refl (l : List E) : UpToDate te l l :=
  fun q x h => ⟨q, x, h, .inr ⟨rfl, le_rfl⟩⟩

/-- A replica that votes in a term nobody has won vouches for all it has acknowledged. -/
lemma vote_of_grant {l : List E} (hinv : Inv te Quorum a) (hterm : a.term v = T)
    (hfree : ¬ a.led T) (hup : UpToDate te l (a.log v)) : Vote te a v T l := by
  refine ⟨hterm.ge, a.log v, hinv.log_matched v, hup, fun T₀ p _ hled hp hlen => ?_⟩
  rcases hinv.kept v T₀ p hled hp hlen with h | ⟨T', hled', hlt, hle, hmiss⟩
  · exact .inl h
  · have hne : T' ≠ T := by
      rintro rfl
      exact hfree hled'
    exact .inr ⟨T', hled', hlt, (hle.trans hterm.le).lt_of_ne hne, hmiss⟩

/-! ## Accepting -/

section Accept

variable {pre es com : List E} (hinv : Inv te Quorum a) (hterm : a.term v = T) (hled : a.led T)
  (hfull : pre ++ es <+: a.full T) (hpre : pre <+: a.log v)
  (hbehind : pre.length < (a.start T).length →
    es ≠ [] ∧ Behind a v T ((a.start T).take (pre.length + 1)))

include hinv hterm in
/-- A replica that holds an entry of its own term is clean. -/
lemma clean_of_mem {x : E} (hx : x ∈ a.log v) (hxT : te x = T) : a.log v <+: a.full T := by
  obtain ⟨l, y, hl⟩ := (List.eq_nil_or_concat (a.log v)).resolve_left (List.ne_nil_of_mem hx)
  rw [List.concat_eq_append] at hl
  have hle : te x ≤ te y := (hinv.log_matched v).le_last hinv hl x hx
  have hge : te y ≤ a.term v := hinv.log_le v y (by simp [hl])
  obtain rfl : te y = T := le_antisymm (hge.trans hterm.le) (hxT ▸ hle)
  exact ((hinv.log_matched v).prefix_full hl).2

include hinv hterm hled hfull hbehind in
/-- A replica that holds all it is sent, and is sent something, is clean: either what it is sent
contains an entry of the present term, or it would have to hold what it is known not to hold. -/
lemma clean_of_holds (hes : es ≠ []) (hheld : pre ++ es <+: a.log v) :
    a.log v <+: a.full T := by
  have hlen : 0 < es.length := List.length_pos_iff.mpr hes
  by_cases hlt : pre.length < (a.start T).length
  · obtain ⟨-, -, hclean⟩ := hbehind hlt
    refine (hclean hterm).resolve_right (not_not.mpr ?_)
    have htake : (a.start T).take (pre.length + 1) <+: pre ++ es := by
      refine List.prefix_of_prefix_length_le
        ((List.take_prefix _ _).trans (hinv.start_isPrefix hled)) hfull ?_
      rw [List.length_take, List.length_append]
      omega
    exact htake.trans hheld
  · -- the entry after `pre` lies beyond what the leader started from
    obtain ⟨x, es', rfl⟩ := List.exists_cons_of_ne_nil hes
    obtain ⟨r, hr, hrT⟩ := hinv.full_eq T hled
    have hget : (a.full T)[pre.length]? = some x := by
      obtain ⟨tail, htail⟩ := hfull
      rw [← htail]
      simp
    rw [hr, List.getElem?_append_right (not_lt.mp hlt)] at hget
    exact clean_of_mem hinv hterm (hheld.subset (by simp)) (hrT x (List.mem_of_getElem? hget))

variable [DecidableEq N]

include hinv hterm hled hfull hbehind in
/-- Once it has been sent something, a replica is clean. -/
lemma clean_of_accept (hes : es ≠ []) : Clean (a.accept v T (pre ++ es)) v T := by
  refine ⟨hterm.ge, fun _ => ?_⟩
  show (a.accept v T (pre ++ es)).log v <+: a.full T
  by_cases hheld : pre ++ es <+: a.log v
  · simpa [State.accept, hheld] using clean_of_holds hinv hterm hled hfull hbehind hes hheld
  · simpa [State.accept, hheld] using hfull

include hinv hterm hled hfull hpre hbehind in
/-- **What a replica may commit.**  Let `com` be a part of the leader's log that reaches past
`pre` only if something is sent.  Then, after accepting, everything the replica holds up to the
length of `com` is part of `com`. -/
theorem commit_of_accept (hcom : com <+: a.full T) (hempty : es = [] → com.length ≤ pre.length)
    {k : ℕ} (hk : k ≤ com.length) :
    ((a.accept v T (pre ++ es)).log v).take k <+: com := by
  have hpart : ((a.accept v T (pre ++ es)).log v).take k <+: a.full T := by
    by_cases hes : es = []
    · -- nothing is sent: the part in question lies inside `pre`
      subst hes
      have hlog : (a.accept v T (pre ++ [])).log v = a.log v := by simp [State.accept, hpre]
      rw [hlog]
      have hshort : (a.log v).take k <+: pre := by
        refine List.prefix_of_prefix_length_le (List.take_prefix _ _) hpre ?_
        rw [List.length_take]
        exact (min_le_left _ _).trans (hk.trans (hempty rfl))
      exact hshort.trans ((List.prefix_append _ _).trans hfull)
    · exact (List.take_prefix _ _).trans
        ((clean_of_accept hinv hterm hled hfull hbehind hes).2 hterm)
  refine List.prefix_of_prefix_length_le hpart hcom ?_
  rw [List.length_take]
  exact (min_le_left _ _).trans hk

end Accept

end Replication
