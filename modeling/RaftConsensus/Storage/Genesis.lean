import RaftConsensus.Library.Transition
import RaftConsensus.Storage.ReadWrite

/-!
# The store every node starts with

`genesis` is a new database after `initializeGenesisData`.  Its lookup function in closed form,
`genesisValue`, is what proofs and evaluations use: account `i` has `100000` for `i` from `1` to
`9000`, and there is nothing else.
-/

namespace RaftConsensus

open Bytes

namespace RocksDBStore

/-- A new database, opened and filled by `initializeGenesisData`. -/
def genesis : RocksDBStore := (openDB .empty).initializeGenesisData

/-- The value of a key after `initializeGenesisData`. -/
def genesisValue (k : Bytes) : Option Value :=
  if (ascii "acct:").isPrefixOf k then
    let i := parseDecimal (k.drop 5)
    if 1 ≤ i ∧ i ≤ 9000 ∧ decimal i = k.drop 5 then some (.num 100000) else none
  else none

lemma genesisValue_eq_some {k : Bytes} {v : Value} :
    genesisValue k = some v ↔
      ∃ i : ℤ, 1 ≤ i ∧ i ≤ 9000 ∧ k = acctKey (decimal i) ∧ v = .num 100000 := by
  constructor
  · intro h
    unfold genesisValue at h
    split at h
    · rename_i hk
      dsimp only at h
      split at h
      · rename_i hi
        obtain ⟨rest, rfl⟩ := List.isPrefixOf_iff_prefix.mp hk
        refine ⟨_, hi.1, hi.2.1, ?_, (Option.some.inj h).symm⟩
        rw [hi.2.2]
        rfl
      · cases h
    · cases h
  · rintro ⟨i, hlo, hhi, rfl, rfl⟩
    have hprefix : (ascii "acct:").isPrefixOf (acctKey (decimal i)) = true :=
      List.isPrefixOf_iff_prefix.mpr (List.prefix_append _ _)
    have hdrop : (acctKey (decimal i)).drop 5 = decimal i := rfl
    rw [genesisValue, if_pos hprefix]
    simp only [hdrop, parseDecimal_decimal]
    rw [if_pos ⟨hlo, hhi, trivial⟩]

/-- The lookup function of the genesis database. -/
theorem get_genesis (k : Bytes) : genesis.db.get k = genesisValue k := by
  have hdb : genesis.db = KVMap.empty.write
      (((loopRange 1 9000).map fun i => (acctKey (decimal i), Value.num 100000)).map
        fun p => .put p.1 p.2) := by
    unfold genesis initializeGenesisData
    rw [if_neg (by simp [openDB])]
    generalize loopRange 1 9000 = is
    rw [List.map_map]
    rfl
  have hnodup : (((loopRange 1 9000).map fun i =>
      (acctKey (decimal i), Value.num 100000)).map Prod.fst).Nodup := by
    rw [List.map_map]
    refine List.Nodup.map ?_ ?_
    · intro i j h
      exact decimal_injective (acctKey_inj.mp h)
    · exact List.nodup_range.map fun i j h => by simpa using h
  ext v
  rw [hdb, KVMap.get_write_map_put hnodup, genesisValue_eq_some]
  simp only [KVMap.get_empty, reduceCtorEq, and_false, or_false, List.mem_map, mem_loopRange,
    Prod.mk.injEq]
  constructor
  · rintro ⟨i, ⟨hlo, hhi⟩, rfl, rfl⟩
    exact ⟨i, hlo, hhi, rfl, rfl⟩
  · rintro ⟨i, hlo, hhi, rfl, rfl⟩
    exact ⟨i, ⟨hlo, hhi⟩, rfl, rfl⟩

/-- There is nothing but accounts in the genesis database. -/
lemma get_genesis_of_head {k : Bytes} (hk : k.head? ≠ some 97) : genesis.db.get k = none := by
  rw [get_genesis, genesisValue, if_neg]
  intro hprefix
  obtain ⟨rest, rfl⟩ := List.isPrefixOf_iff_prefix.mp hprefix
  exact hk rfl

/-- The genesis store in closed form, for evaluation. -/
def genesisLight : RocksDBStore where
  db := ⟨genesisValue, genesis.db.keys, fun k => by rw [genesis.db.mem_keys, get_genesis]⟩
  lastLogIndexCache := 0

theorem genesis_eq : genesis = genesisLight := by
  have hdb : genesis.db = genesisLight.db := KVMap.ext_get get_genesis
  have hcache : genesis.lastLogIndexCache = genesisLight.lastLogIndexCache := by
    rw [genesis, initializeGenesisData, if_neg (by simp [openDB])]
    rfl
  cases h : genesis with
  | mk db cache =>
      rw [h] at hdb hcache
      cases hl : genesisLight with
      | mk db' cache' =>
          rw [hl] at hdb hcache
          cases hdb
          cases hcache
          rfl

end RocksDBStore

/-- A list of labels that executes is a run from what `start` makes of the genesis store. -/
lemma run_of_genesis {S L : Type*} {step : S → L → Option S} {ok : S → L → Prop}
    [∀ s, DecidablePred (ok s)] (start : RocksDBStore → S) {ls : List L} {P : S → Prop}
    (h : ∃ s ∈ Transition.runFrom step ok (start RocksDBStore.genesisLight) ls, P s) :
    ∃ s, Transition.Run step ok (start RocksDBStore.genesis) ls s ∧ P s := by
  obtain ⟨s, hs, hP⟩ := h
  rw [RocksDBStore.genesis_eq]
  exact ⟨s, Transition.run_of_runFrom hs, hP⟩

end RaftConsensus
