import Octar.Lib.Table
import Octar.Queue.Config

namespace Octar

open Go

inductive ConfigEdit
  | set (c : GroupConfig)
  | del (key : Bytes)

def ConfigIdx.edit (ci : ConfigIdx) : ConfigEdit → ConfigIdx
  | .set c => ci.set c
  | .del key => (ci.del key).1

abbrev ConfigTable := Sql.Table GroupConfig.key

namespace ConfigTable

def empty : ConfigTable := ⟨[], .nil⟩

def edit (t : ConfigTable) : ConfigEdit → ConfigTable
  | .set c => t.upsert c
  | .del key => t.delete fun c => c.key = key

def wildcards (t : ConfigTable) : List GroupConfig := t.rows.filter fun c => isGlobPattern c.key

def globFree (t : ConfigTable) : List GroupConfig := t.rows.filter fun c => !isGlobPattern c.key

def resolve [PathMatch] (t : ConfigTable) (key : Bytes) : Option GroupConfig :=
  match t.globFree.find? fun c => c.key = key with
  | some c => some c
  | none => (t.wildcards.find? fun c => c.matchesKey key).map fun c => { c with key := key }

end ConfigTable

namespace ConfigIdx

variable {ci : ConfigIdx} {t : ConfigTable}

structure Refines (ci : ConfigIdx) (t : ConfigTable) : Prop where
  exact : ∀ key, ci.exact.lookup key = if isGlobPattern key then none else t.select key
  wildcards : ci.wildcards = t.wildcards

theorem setWildcard_eq (c : GroupConfig) (ws : List GroupConfig) :
    setWildcard c ws = Sql.Table.upsertRows GroupConfig.key c ws := by
  induction ws with
  | nil => rfl
  | cons w ws ih => rw [setWildcard, Sql.Table.upsertRows, ih]

theorem Refines.new : newConfigIdx.Refines .empty := by
  refine ⟨?_, rfl⟩
  intro key
  split
  · rfl
  · rfl

theorem Refines.set (h : ci.Refines t) (c : GroupConfig) : (ci.set c).Refines (t.upsert c) := by
  have hwildcards : ConfigTable.wildcards (t.upsert c) = _ :=
    Sql.Table.filter_upsertRows isGlobPattern c t.rows
  unfold ConfigIdx.set
  by_cases hglob : isGlobPattern c.key = true
  · rw [if_pos hglob]
    refine ⟨?_, ?_⟩
    · intro key
      rw [h.exact, Sql.Table.select_upsert]
      by_cases hkey : key = c.key
      · rw [hkey, if_pos hglob, if_pos hglob]
      · rw [if_neg hkey]
    · rw [hwildcards, if_pos hglob, setWildcard_eq, h.wildcards]
      rfl
  · rw [if_neg hglob]
    refine ⟨?_, ?_⟩
    · intro key
      rw [Sql.Table.select_upsert]
      by_cases hkey : key = c.key
      · subst hkey
        rw [AList.lookup_insert, if_neg hglob, if_pos rfl]
      · rw [AList.lookup_insert_ne hkey, h.exact, if_neg hkey]
    · rw [hwildcards, if_neg hglob]
      exact h.wildcards

theorem wildcards_delete (t : ConfigTable) (key : Bytes) :
    ConfigTable.wildcards (t.delete fun c => c.key = key) = t.wildcards.filter fun c =>
      !decide (c.key = key) := by
  rw [ConfigTable.wildcards, ConfigTable.wildcards, Sql.Table.delete, List.filter_filter,
    List.filter_filter]
  apply List.filter_congr
  intro c _
  rw [Bool.and_comm]

theorem Refines.del (h : ci.Refines t) (key : Bytes) :
    (ci.del key).1.Refines (t.delete fun c => c.key = key) := by
  have hunique : (t.wildcards.map GroupConfig.key).Nodup :=
    t.unique.sublist (List.filter_sublist.map _)
  have hexact : ∀ k, (if isGlobPattern k then none else (t.delete fun c => c.key = key).select k) =
      if k = key then none else ci.exact.lookup k := by
    intro k
    rw [Sql.Table.select_delete, h.exact]
    by_cases hk : k = key
    · rw [if_pos hk, if_pos hk, ite_self]
    · rw [if_neg hk, if_neg hk]
  have hkept : (∀ c ∈ t.wildcards, c.key ≠ key) →
      ConfigTable.wildcards (t.delete fun c => c.key = key) = t.wildcards := by
    intro hne
    rw [wildcards_delete]
    apply List.filter_eq_self.mpr
    intro c hc
    simp [hne c hc]
  unfold ConfigIdx.del
  split
  · rename_i hsome
    refine ⟨?_, ?_⟩
    · intro k
      rw [hexact]
      by_cases hk : k = key
      · subst hk
        rw [if_pos rfl]
        exact AList.lookup_erase _ _
      · rw [if_neg hk]
        exact AList.lookup_erase_ne hk
    · -- a key without a pattern is no pattern's
      have hfree : ¬ isGlobPattern key = true := by
        intro hglob
        rw [h.exact, if_pos hglob] at hsome
        cases hsome
      rw [hkept]
      · exact h.wildcards
      · rintro c hc rfl
        exact hfree (List.mem_filter.mp hc).2
  · rename_i hnone
    have hsame : ∀ k, ci.exact.lookup k = if isGlobPattern k then none
        else (t.delete fun c => c.key = key).select k := by
      intro k
      rw [hexact]
      split
      · rename_i hk
        subst hk
        exact Option.not_isSome_iff_eq_none.mp hnone
      · rfl
    split
    · refine ⟨hsame, ?_⟩
      have hbeq : (fun c : GroupConfig => c.key == key) = fun c => decide (c.key = key) :=
        funext fun c => beq_eq_decide _ _
      rw [wildcards_delete, ← Sql.Table.eraseP_eq_filter hunique, ← h.wildcards, ← hbeq]
    · rename_i hany
      refine ⟨hsame, ?_⟩
      rw [hkept, h.wildcards]
      rintro c hc rfl
      apply hany
      rw [h.wildcards]
      exact List.any_eq_true.mpr ⟨c, hc, by simp⟩

theorem Refines.edits (edits : List ConfigEdit) (h : ci.Refines t) :
    (edits.foldl ConfigIdx.edit ci).Refines (edits.foldl ConfigTable.edit t) := by
  induction edits generalizing ci t with
  | nil => exact h
  | cons e edits ih =>
    cases e with
    | set c => exact ih (h.set c)
    | del key => exact ih (h.del key)

theorem find?_globFree (t : ConfigTable) (key : Bytes) : (t.globFree.find? fun c => c.key = key) =
    if isGlobPattern key then none else t.select key := by
  rw [ConfigTable.globFree, List.find?_filter]
  split
  · rename_i hglob
    apply List.find?_eq_none.mpr
    intro c _ hc
    simp only [decide_eq_true_eq] at hc
    rw [hc.2, hglob] at hc
    cases hc.1
  · rename_i hglob
    rw [Sql.Table.select]
    congr 1
    funext c
    by_cases hkey : c.key = key
    · rw [hkey]
      simp [hglob]
    · simp [hkey]

theorem Refines.resolve [PathMatch] (h : ci.Refines t) (key : Bytes) :
    ci.resolve key = t.resolve key := by
  rw [ConfigTable.resolve, find?_globFree, ← h.exact, ← h.wildcards]
  rfl

theorem Refines.get (h : ci.Refines t) (key : Bytes) : ci.get key = t.select key := by
  have hwildcards : (ci.wildcards.find? fun c => c.key == key) =
      if isGlobPattern key then t.select key else none := by
    rw [h.wildcards, ConfigTable.wildcards, List.find?_filter, Sql.Table.select]
    split
    · rename_i hglob
      congr 1
      funext c
      by_cases hkey : c.key = key
      · rw [hkey]
        simp [hglob]
      · simp [hkey]
    · rename_i hglob
      apply List.find?_eq_none.mpr
      intro c _ hc
      simp only [beq_iff_eq, decide_eq_true_eq] at hc
      exact hglob (hc.2 ▸ hc.1)
  rw [ConfigIdx.get, h.exact, hwildcards]
  by_cases hglob : isGlobPattern key = true
  · simp [hglob]
  · simp only [if_neg hglob]
    cases t.select key with
    | none => rfl
    | some c => rfl

theorem Refines.found (h : ci.Refines t) (key : Bytes) :
    (ci.del key).2 = (t.select key).isSome := by
  rw [← h.get, ConfigIdx.del, ConfigIdx.get]
  cases hexact : ci.exact.lookup key with
  | some c => rfl
  | none =>
    simp only [Option.isSome_none, Bool.false_eq_true, if_false, List.isSome_find?]
    split
    · rename_i hany
      exact hany.symm
    · rename_i hany
      rw [Bool.not_eq_true] at hany
      exact hany.symm

def exactList (ci : ConfigIdx) : List GroupConfig :=
  (ci.exact.keys.insertionSort (· ≤ ·)).filterMap fun key => ci.exact.lookup key

theorem Refines.key_eq (h : ci.Refines t) {key : Bytes} {c : GroupConfig}
    (hc : ci.exact.lookup key = some c) :
    c ∈ t.globFree ∧ c.key = key := by
  rw [h.exact] at hc
  split at hc
  · cases hc
  · rename_i hglob
    obtain ⟨hmem, rfl⟩ := Sql.Table.select_eq_some.mp hc
    exact ⟨List.mem_filter.mpr ⟨hmem, by simp [hglob]⟩, rfl⟩

theorem Refines.map_exactList (h : ci.Refines t) :
    ci.exactList.map GroupConfig.key = ci.exact.keys.insertionSort (· ≤ ·) := by
  rw [exactList, List.map_filterMap, List.filterMap_congr (g := some), List.filterMap_some]
  intro key hkey
  rw [List.mem_insertionSort, ← AList.mem_keys, ← AList.lookup_isSome] at hkey
  obtain ⟨c, hc⟩ := Option.isSome_iff_exists.mp hkey
  rw [hc, Option.map_some, (h.key_eq hc).2]

theorem Refines.sorted_exactList (h : ci.Refines t) :
    ci.exactList.Pairwise fun a b => a.key < b.key := by
  rw [← List.pairwise_map, h.map_exactList]
  exact pairwise_insertionSort ci.exact.keys_nodup

theorem Refines.perm_exactList (h : ci.Refines t) : ci.exactList.Perm t.globFree := by
  have hnodup : ci.exactList.Nodup :=
    (nodup_of_lt (List.pairwise_map.mpr h.sorted_exactList)).of_map
  have hrows : t.globFree.Nodup := (t.unique.sublist (List.filter_sublist.map _)).of_map
  refine (List.perm_ext_iff_of_nodup hnodup hrows).mpr ?_
  intro c
  rw [exactList, List.mem_filterMap]
  constructor
  · rintro ⟨key, -, hc⟩
    exact (h.key_eq hc).1
  · intro hc
    obtain ⟨hmem, hglob⟩ := List.mem_filter.mp hc
    have hlookup : ci.exact.lookup c.key = some c := by
      rw [h.exact, if_neg (by simpa using hglob)]
      exact Sql.Table.select_eq_some.mpr ⟨hmem, rfl⟩
    refine ⟨c.key, ?_, hlookup⟩
    rw [List.mem_insertionSort]
    exact AList.lookup_isSome.mp (hlookup ▸ rfl)

theorem Refines.length_exactList (h : ci.Refines t) :
    ci.exactList.length = ci.exact.entries.length := by
  rw [← List.length_map GroupConfig.key, h.map_exactList, List.length_insertionSort]
  exact List.length_map ..

theorem Refines.count (h : ci.Refines t) : ci.count = t.rows.length := by
  rw [ConfigIdx.count, ← h.length_exactList, h.perm_exactList.length_eq, h.wildcards,
    ConfigTable.globFree, ConfigTable.wildcards, Nat.add_comm, ← List.length_eq_length_filter_add]

structure Implements [PathMatch] (ci : ConfigIdx) (t : ConfigTable) : Prop where
  resolve : ∀ key, ci.resolve key = t.resolve key
  get : ∀ key, ci.get key = t.select key
  found : ∀ key, (ci.del key).2 = (t.select key).isSome
  list : ∃ exact, ci.list = exact ++ t.wildcards ∧ exact.Perm t.globFree ∧
    exact.Pairwise fun a b => a.key < b.key
  count : ci.count = t.rows.length

/-- Whatever is set and deleted, the index answers as the table does. -/
theorem config_index_implements_table [PathMatch] (edits : List ConfigEdit) :
    (edits.foldl ConfigIdx.edit newConfigIdx).Implements (edits.foldl ConfigTable.edit .empty) := by
  have h := Refines.new.edits edits
  refine ⟨h.resolve, h.get, h.found, ?_, h.count⟩
  exact ⟨_, by rw [← h.wildcards]; rfl, h.perm_exactList, h.sorted_exactList⟩

end ConfigIdx

end Octar
