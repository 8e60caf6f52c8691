import RaftConsensus.Library.Replication

/-!
# Matched logs, without quorums

Log matching needs less than the invariant of replication: no votes, no acknowledgements, and not
that a replica is in the term whose entries it takes.  `Matching` says that the logs of all replicas
and leaders are matched, and it survives winning a term that has no leader yet
(`Matching.elect`), appending by a leader whose log is that of its term (`Matching.append`), and
taking over a part of a leader's log (`Matching.take`).

What holds of the logs of the leaders, and of every part of a log of which it holds, holds of all
matched logs (`Matched.of_full`).
-/

namespace Replication

variable {N τ E : Type*} {te : E → τ} {a b : State N τ E} {l r : List E}

/-- What holds of the logs of the leaders, and of every part of what it holds of, holds of every
matched log. -/
lemma Matched.of_full {P : List E → Prop} (hnil : P []) (hpart : ∀ l r, P l → r <+: l → P r)
    (hfull : ∀ T, a.led T → P (a.full T)) (h : Matched te a l) : P l := by
  rcases List.eq_nil_or_concat l with rfl | ⟨p, e, hl⟩
  · exact hnil
  · rw [List.concat_eq_append] at hl
    obtain ⟨hled, hpre⟩ := h.prefix_full hl
    exact hpart _ _ (hfull _ hled) hpre

/-- Two matched logs agree up to every position at which they have entries of the same term. -/
lemma Matched.take_eq (hl : Matched te a l) (hr : Matched te a r) {k : ℕ} {x y : E}
    (hx : l[k]? = some x) (hy : r[k]? = some y) (hterm : te x = te y) :
    l.take (k + 1) = r.take (k + 1) := by
  obtain ⟨hkl, rfl⟩ := List.getElem?_eq_some_iff.mp hx
  obtain ⟨hkr, rfl⟩ := List.getElem?_eq_some_iff.mp hy
  rw [← List.take_concat_get' l k hkl, ← List.take_concat_get' r k hkr]
  refine matched_isPrefix hl hr ?_ ?_ ?_ hterm
  · rw [List.take_concat_get' l k hkl]
    exact List.take_prefix _ _
  · rw [List.take_concat_get' r k hkr]
    exact List.take_prefix _ _
  · rw [List.length_take_of_le hkl.le, List.length_take_of_le hkr.le]

variable (te) in
/-- **All logs are matched**, those the replicas hold and those of the leaders. -/
structure Matching (a : State N τ E) : Prop where
  log : ∀ v, Matched te a (a.log v)
  full : ∀ T, a.led T → Matched te a (a.full T)

/-- The matched logs of the protocol. -/
lemma Inv.matching [LinearOrder τ] {Quorum : Finset N → Prop} (h : Inv te Quorum a) :
    Matching te a :=
  ⟨h.log_matched, h.full_matched⟩

namespace Matching

variable {v c : N} {T : τ} {e : E}

/-- Replica `c` wins term `T`, which nobody has led. -/
lemma elect [DecidableEq τ] (h : Matching te a) (hfree : ¬ a.led T)
    (hled : ∀ t, b.led t ↔ t = T ∨ a.led t) (hfull : b.full = Function.update a.full T (a.log c))
    (hlog : b.log = a.log) : Matching te b := by
  have hold : ∀ t, a.led t → b.full t = a.full t := by
    rintro t ht
    have hne : t ≠ T := fun h => hfree (h ▸ ht)
    rw [hfull, Function.update_of_ne hne]
  have hmono : ∀ {l}, Matched te a l → Matched te b l :=
    Matched.grow (fun t ht => (hled t).mpr (.inr ht)) fun t ht => by rw [hold t ht]
  refine ⟨fun w => hlog ▸ hmono (h.log w), fun t ht => ?_⟩
  by_cases hT : t = T
  · rw [hfull, hT, Function.update_self]
    exact hmono (h.log c)
  · have ht' := ((hled t).mp ht).resolve_left hT
    rw [hold t ht']
    exact hmono (h.full t ht')

/-- The leader `c` of term `T` appends `e`. -/
lemma append [DecidableEq N] [DecidableEq τ] (h : Matching te a) (hT : a.led T)
    (hc : a.log c = a.full T) (he : te e = T) (hled : b.led = a.led)
    (hfull : b.full = Function.update a.full T (a.full T ++ [e]))
    (hlog : b.log = Function.update a.log c (a.log c ++ [e])) : Matching te b := by
  have hmono : ∀ {l}, Matched te a l → Matched te b l := by
    refine Matched.grow (fun t ht => hled ▸ ht) fun t _ => ?_
    by_cases ht : t = T
    · rw [hfull, ht, Function.update_self]
      exact List.prefix_append _ _
    · rw [hfull, Function.update_of_ne ht]
  have hnew : Matched te b (a.full T ++ [e]) := by
    intro p x hp
    rcases List.prefix_concat_iff.mp hp with hp | hp
    · obtain ⟨rfl, hx⟩ := List.append_inj' hp rfl
      obtain rfl := List.singleton_inj.mp hx
      rw [he, hled, hfull, Function.update_self]
      exact ⟨hT, List.prefix_rfl⟩
    · exact hmono (h.full T hT) p x hp
  refine ⟨fun w => ?_, fun t ht => ?_⟩
  · by_cases hw : w = c
    · rw [hlog, hw, Function.update_self, hc]
      exact hnew
    · rw [hlog, Function.update_of_ne hw]
      exact hmono (h.log w)
  · by_cases htT : t = T
    · rw [hfull, htT, Function.update_self]
      exact hnew
    · rw [hfull, Function.update_of_ne htT]
      exact hmono (h.full t (hled ▸ ht))

/-- Replica `v` takes over a part of the log of term `T`. -/
lemma take [DecidableEq N] (h : Matching te a) (hT : a.led T) (hp : l <+: a.full T)
    (hled : b.led = a.led) (hfull : b.full = a.full) (hlog : b.log = Function.update a.log v l) :
    Matching te b := by
  have hmono : ∀ {l}, Matched te a l → Matched te b l :=
    Matched.grow (fun t ht => hled ▸ ht) fun t _ => by rw [hfull]
  refine ⟨fun w => ?_, fun t ht => hfull ▸ hmono (h.full t (hled ▸ ht))⟩
  by_cases hw : w = v
  · rw [hlog, hw, Function.update_self]
    exact (hmono (h.full T hT)).of_shorter hp
  · rw [hlog, Function.update_of_ne hw]
    exact hmono (h.log w)

end Matching

end Replication
