import Mathlib.Data.Finset.Sort
import Mathlib.Data.List.Sort

/-!
# An ordered key-value store

A finite map with the operations of an ordered store: point reads and writes, atomic batches of
writes, and iteration in key order.  A store is a lookup function together with the finite set
of its keys; the field `mem_keys` says that the two agree, so a store with a dangling key cannot
be built, and two stores with the same lookup function are equal (`ext_get`).
-/

/-- A finite map from `κ` to `ν`. -/
structure KVMap (κ ν : Type*) where
  get : κ → Option ν
  keys : Finset κ
  mem_keys : ∀ k, k ∈ keys ↔ (get k).isSome

namespace KVMap

variable {κ ν : Type*}

lemma ext_get {m n : KVMap κ ν} (h : ∀ k, m.get k = n.get k) : m = n := by
  obtain ⟨f, s, hs⟩ := m
  obtain ⟨g, t, ht⟩ := n
  obtain rfl : f = g := funext h
  congr
  ext k
  rw [hs, ht]

/-- The store without keys. -/
def empty : KVMap κ ν := ⟨fun _ => none, ∅, by simp⟩

@[simp] lemma get_empty (k : κ) : (empty : KVMap κ ν).get k = none := rfl

/-! ## Reads and writes -/

section Writes

variable [DecidableEq κ]

/-- Writes one key. -/
def put (m : KVMap κ ν) (k : κ) (v : ν) : KVMap κ ν where
  get k' := if k' = k then some v else m.get k'
  keys := insert k m.keys
  mem_keys k' := by
    by_cases h : k' = k <;> simp [h, m.mem_keys]

/-- Removes one key, if it is there. -/
def delete (m : KVMap κ ν) (k : κ) : KVMap κ ν where
  get k' := if k' = k then none else m.get k'
  keys := m.keys.erase k
  mem_keys k' := by
    by_cases h : k' = k <;> simp [h, m.mem_keys]

/-- One write of a batch. -/
inductive Op (κ ν : Type*)
  | put (k : κ) (v : ν)
  | delete (k : κ)

/-- The key a write is to. -/
def Op.key : Op κ ν → κ
  | .put k _ => k
  | .delete k => k

/-- Performs one write. -/
def apply (m : KVMap κ ν) : Op κ ν → KVMap κ ν
  | .put k v => m.put k v
  | .delete k => m.delete k

/-- Performs a batch, in order: a later write to a key overrides an earlier one. -/
def write (m : KVMap κ ν) (batch : List (Op κ ν)) : KVMap κ ν :=
  batch.foldl apply m

lemma get_put (m : KVMap κ ν) (k k' : κ) (v : ν) :
    (m.put k v).get k' = if k' = k then some v else m.get k' := rfl

lemma get_delete (m : KVMap κ ν) (k k' : κ) :
    (m.delete k).get k' = if k' = k then none else m.get k' := rfl

@[simp] lemma keys_put (m : KVMap κ ν) (k : κ) (v : ν) :
    (m.put k v).keys = insert k m.keys := rfl

@[simp] lemma write_nil (m : KVMap κ ν) : m.write [] = m := rfl

@[simp] lemma write_cons (m : KVMap κ ν) (op : Op κ ν) (batch : List (Op κ ν)) :
    m.write (op :: batch) = (m.apply op).write batch := rfl

lemma write_append (m : KVMap κ ν) (b c : List (Op κ ν)) :
    m.write (b ++ c) = (m.write b).write c :=
  List.foldl_append

@[simp] lemma apply_put (m : KVMap κ ν) (k : κ) (v : ν) : m.apply (.put k v) = m.put k v := rfl

@[simp] lemma apply_delete (m : KVMap κ ν) (k : κ) : m.apply (.delete k) = m.delete k := rfl

/-- A write leaves the other keys alone. -/
lemma get_apply_of_ne (m : KVMap κ ν) {op : Op κ ν} {k : κ} (h : op.key ≠ k) :
    (m.apply op).get k = m.get k := by
  cases op with
  | put k' v => exact if_neg (Ne.symm h)
  | delete k' => exact if_neg (Ne.symm h)

/-- What a batch leaves at a key depends on that key only. -/
lemma get_write_congr {m' : KVMap κ ν} {k : κ} (batch : List (Op κ ν)) :
    ∀ {m : KVMap κ ν}, m.get k = m'.get k → (m.write batch).get k = (m'.write batch).get k := by
  induction batch generalizing m' with
  | nil => exact id
  | cons op batch ih =>
      intro m h
      rw [write_cons, write_cons]
      refine ih ?_
      cases op with
      | put k' v => rw [apply_put, apply_put, get_put, get_put, h]
      | delete k' => rw [apply_delete, apply_delete, get_delete, get_delete, h]

/-- A batch leaves the keys it does not write alone. -/
lemma get_write_of_ne {batch : List (Op κ ν)} {k : κ} (h : ∀ op ∈ batch, op.key ≠ k) :
    ∀ m : KVMap κ ν, (m.write batch).get k = m.get k := by
  induction batch with
  | nil => exact fun _ => rfl
  | cons op batch ih =>
      intro m
      rw [write_cons, ih (fun o ho => h o (by simp [ho])),
        get_apply_of_ne m (h op (by simp))]

/-- A batch of deletions removes exactly its keys. -/
lemma get_write_map_delete (ks : List κ) (k : κ) :
    ∀ m : KVMap κ ν, (m.write (ks.map .delete)).get k = if k ∈ ks then none else m.get k := by
  induction ks with
  | nil => simp
  | cons k' ks ih =>
      intro m
      rw [List.map_cons, write_cons, ih, apply_delete, get_delete]
      by_cases h : k = k' <;> by_cases h' : k ∈ ks <;> simp [h, h']

/-- A batch of writes to distinct keys establishes exactly its pairs. -/
lemma get_write_map_put {ps : List (κ × ν)} (hnd : (ps.map Prod.fst).Nodup) (k : κ) (v : ν) :
    ∀ m : KVMap κ ν, (m.write (ps.map fun p => .put p.1 p.2)).get k = some v ↔
      (k, v) ∈ ps ∨ (∀ p ∈ ps, p.1 ≠ k) ∧ m.get k = some v := by
  induction ps with
  | nil => simp
  | cons p ps ih =>
      obtain ⟨hp, hnd⟩ := List.nodup_cons.mp hnd
      intro m
      rw [List.map_cons, write_cons, ih hnd, apply_put, get_put]
      by_cases h : k = p.1
      · have hnot : ∀ q ∈ ps, q.1 ≠ k := by
          intro q hq hqk
          exact hp (List.mem_map.mpr ⟨q, hq, hqk.trans h⟩)
        have hnot' : (k, v) ∉ ps := fun hmem => hnot _ hmem rfl
        have hpv : p = (k, v) ↔ p.2 = v := by
          constructor
          · intro hpk
            rw [hpk]
          · intro hpk
            rw [← hpk, h]
        simp only [h, if_true, Option.some.injEq, List.mem_cons, forall_eq_or_imp]
        rw [← h]
        simp only [hnot', false_or, ne_eq, not_true_eq_false, false_and, or_false]
        rw [eq_comm (a := (k, v)), hpv]
        exact ⟨fun hh => hh.2, fun hh => ⟨hnot, hh⟩⟩
      · have hkp : (k, v) ≠ p := fun hh => h (by rw [← hh])
        simp [h, hkp, Ne.symm h]

/-- What is found after a batch of writes was written by it or was there before. -/
lemma get_write_puts {α : Type*} {ps : List α} {f : α → κ} {g : α → ν} {k : κ} {v : ν} :
    ∀ {m : KVMap κ ν}, (m.write (ps.map fun p => .put (f p) (g p))).get k = some v →
      (∃ p ∈ ps, f p = k ∧ g p = v) ∨ m.get k = some v := by
  induction ps with
  | nil => exact fun h => .inr h
  | cons p ps ih =>
      intro m h
      rw [List.map_cons, write_cons, apply_put] at h
      rcases ih h with ⟨q, hq, hk, hv⟩ | h
      · exact .inl ⟨q, List.mem_cons_of_mem _ hq, hk, hv⟩
      · rw [get_put] at h
        split at h
        · rename_i hk
          exact .inl ⟨p, List.mem_cons_self, hk.symm, Option.some.inj h⟩
        · exact .inr h

/-- A batch of writes leaves at a key the last value it writes there, or else what was there. -/
lemma get_write_map_puts {α : Type*} (ps : List α) (f : α → κ) (g : α → ν) (k : κ) :
    ∀ m : KVMap κ ν, (m.write (ps.map fun p => .put (f p) (g p))).get k =
      ((ps.reverse.find? fun p => f p = k).map g).or (m.get k) := by
  induction ps with
  | nil => simp
  | cons p ps ih =>
      intro m
      rw [List.map_cons, write_cons, ih, apply_put, get_put, List.reverse_cons, List.find?_append]
      by_cases hk : f p = k
      · cases ps.reverse.find? (fun p => f p = k) <;> simp [hk]
      · cases ps.reverse.find? (fun p => f p = k) <;> simp [hk, Ne.symm hk]

/-- What every record of a store and of a batch satisfies is satisfied by every record after it. -/
lemma forall_get_write {P : κ → ν → Prop} {batch : List (Op κ ν)}
    (hbatch : ∀ k v, Op.put k v ∈ batch → P k v) :
    ∀ {m : KVMap κ ν}, (∀ k v, m.get k = some v → P k v) →
      ∀ k v, (m.write batch).get k = some v → P k v := by
  induction batch with
  | nil => exact fun h => h
  | cons op batch ih =>
      intro m hm
      rw [write_cons]
      refine ih (fun k v hmem => hbatch k v (by simp [hmem])) fun k v hget => ?_
      cases op with
      | put k' v' =>
          rw [apply_put, get_put] at hget
          split at hget
          · rename_i hk
            cases hget
            subst hk
            exact hbatch _ _ (by simp)
          · exact hm k v hget
      | delete k' =>
          rw [apply_delete, get_delete] at hget
          split at hget
          · cases hget
          · exact hm k v hget

end Writes

/-! ## Other values -/

section Values

variable {μ : Type*} (f : ν → μ)

/-- The store with every value replaced. -/
def map (m : KVMap κ ν) : KVMap κ μ where
  get k := (m.get k).map f
  keys := m.keys
  mem_keys k := by simp [m.mem_keys]

/-- The write with its value replaced. -/
def Op.map : Op κ ν → Op κ μ
  | .put k v => .put k (f v)
  | .delete k => .delete k

@[simp] lemma get_map (m : KVMap κ ν) (k : κ) : (m.map f).get k = (m.get k).map f := rfl

@[simp] lemma map_empty : (empty : KVMap κ ν).map f = empty := rfl

variable [DecidableEq κ]

lemma map_apply (m : KVMap κ ν) (op : Op κ ν) :
    (m.apply op).map f = (m.map f).apply (op.map f) := by
  refine ext_get fun k => ?_
  cases op with
  | put k' v =>
      simp only [Op.map, apply_put, get_map, get_put]
      split <;> rfl
  | delete k' =>
      simp only [Op.map, apply_delete, get_map, get_delete]
      split <;> rfl

/-- Writing a batch and replacing the values commute. -/
lemma map_write (batch : List (Op κ ν)) : ∀ m : KVMap κ ν,
    (m.write batch).map f = (m.map f).write (batch.map (Op.map f)) := by
  induction batch with
  | nil => exact fun _ => rfl
  | cons op batch ih =>
      intro m
      rw [write_cons, ih, map_apply, List.map_cons, write_cons]

end Values

/-! ## Iteration -/

section Iteration

variable [LinearOrder κ]

/-- The pairs of the store in key order: what an iterator from the first key on visits. -/
def entries (m : KVMap κ ν) : List (κ × ν) :=
  (m.keys.sort (· ≤ ·)).filterMap fun k => (m.get k).map fun v => (k, v)

@[simp] lemma mem_entries (m : KVMap κ ν) {p : κ × ν} :
    p ∈ m.entries ↔ m.get p.1 = some p.2 := by
  obtain ⟨k, v⟩ := p
  simp only [entries, List.mem_filterMap, Finset.mem_sort, Option.map_eq_some_iff,
    Prod.mk.injEq]
  constructor
  · rintro ⟨k', -, v', hget, rfl, rfl⟩
    exact hget
  · intro h
    exact ⟨k, (m.mem_keys k).mpr (by simp [h]), v, h, rfl, rfl⟩

/-- Iteration visits the replaced values in the same order. -/
lemma entries_map {μ : Type*} (f : ν → μ) (m : KVMap κ ν) :
    (m.map f).entries = m.entries.map fun p => (p.1, f p.2) := by
  rw [entries, entries, List.map_filterMap]
  refine List.filterMap_congr fun k _ => ?_
  rw [get_map]
  cases m.get k <;> rfl

/-- Iteration visits every key once. -/
lemma nodup_keys_entries (m : KVMap κ ν) : (m.entries.map Prod.fst).Nodup := by
  have hsub : (m.entries.map Prod.fst).Sublist (m.keys.sort (· ≤ ·)) := by
    rw [entries]
    generalize m.keys.sort (· ≤ ·) = ks
    induction ks with
    | nil => simp
    | cons k ks ih =>
        cases h : m.get k with
        | none => simpa [h] using ih.trans (List.sublist_cons_self k ks)
        | some v => simpa [h] using ih
  exact hsub.nodup (Finset.sort_nodup _ _)

end Iteration

end KVMap
