import Mathlib.Data.List.Nodup

namespace Sql

@[ext]
structure Table {ρ κ : Type} (key : ρ → κ) where
  rows : List ρ
  unique : (rows.map key).Nodup

namespace Table

variable {ρ κ : Type} {key : ρ → κ}

def delete (t : Table key) (p : ρ → Bool) : Table key where
  rows := t.rows.filter fun r => !p r
  unique := t.unique.sublist (List.filter_sublist.map key)

theorem mem_delete {t : Table key} {p : ρ → Bool} {r : ρ} :
    r ∈ (t.delete p).rows ↔ r ∈ t.rows ∧ p r = false := by
  simp [delete]

variable [DecidableEq κ]

def select (t : Table key) (k : κ) : Option ρ := t.rows.find? fun r => key r = k

def insert (t : Table key) (r : ρ) : Option (Table key) :=
  if h : key r ∈ t.rows.map key then none
  else some ⟨t.rows ++ [r], by simpa [List.nodup_append] using ⟨t.unique, by simpa using h⟩⟩

def update (t : Table key) (f : ρ → ρ) (hf : ∀ r, key (f r) = key r) (k : κ) : Table key where
  rows := t.rows.map fun r => if key r = k then f r else r
  unique := by
    have hkeys : (t.rows.map fun r => if key r = k then f r else r).map key = t.rows.map key := by
      rw [List.map_map]
      apply List.map_congr_left
      intro r _
      simp only [Function.comp_apply]
      split
      · exact hf r
      · rfl
    rw [hkeys]
    exact t.unique

def upsertRows (key : ρ → κ) (r : ρ) : List ρ → List ρ
  | [] => [r]
  | r' :: rs => if key r' = key r then r :: rs else r' :: upsertRows key r rs

theorem map_upsertRows_of_mem {r : ρ} {rs : List ρ} (h : key r ∈ rs.map key) :
    (upsertRows key r rs).map key = rs.map key := by
  induction rs with
  | nil => cases h
  | cons r' rs ih =>
    rw [upsertRows]
    by_cases hr : key r' = key r
    · simp [hr]
    · rw [if_neg hr, List.map_cons, ih ((List.mem_cons.mp h).resolve_left (Ne.symm hr)),
        List.map_cons]

theorem map_upsertRows_of_not_mem {r : ρ} {rs : List ρ} (h : key r ∉ rs.map key) :
    (upsertRows key r rs).map key = rs.map key ++ [key r] := by
  induction rs with
  | nil => rfl
  | cons r' rs ih =>
    obtain ⟨hr, hrs⟩ := not_or.mp (List.mem_cons.not.mp h)
    rw [upsertRows, if_neg (Ne.symm hr), List.map_cons, ih hrs, List.map_cons, List.cons_append]

def upsert (t : Table key) (r : ρ) : Table key where
  rows := upsertRows key r t.rows
  unique := by
    by_cases h : key r ∈ t.rows.map key
    · rw [map_upsertRows_of_mem h]
      exact t.unique
    · rw [map_upsertRows_of_not_mem h]
      exact t.unique.append (List.nodup_singleton _) (List.disjoint_singleton.mpr h)

def replace (t : Table key) (r : ρ) : Table key where
  rows := t.rows.filter (fun r' => key r' ≠ key r) ++ [r]
  unique := by
    rw [List.map_append, List.map_singleton]
    refine List.Nodup.append (t.unique.sublist (List.filter_sublist.map key))
      (List.nodup_singleton _) ?_
    simp [List.disjoint_singleton]

variable {t t' : Table key} {r : ρ} {k : κ}

theorem select_eq_some : t.select k = some r ↔ r ∈ t.rows ∧ key r = k := by
  constructor
  · intro h
    have hkey := List.find?_some h
    exact ⟨List.mem_of_find?_eq_some h, of_decide_eq_true hkey⟩
  · rintro ⟨hr, rfl⟩
    cases h : t.select (key r) with
    | none => exact absurd (decide_eq_true rfl) (List.find?_eq_none.mp h r hr)
    | some r' =>
      have hkey := List.find?_some h
      rw [List.inj_on_of_nodup_map t.unique (List.mem_of_find?_eq_some h) hr
        (of_decide_eq_true hkey)]

theorem select_upsert (t : Table key) (r : ρ) (k : κ) :
    (t.upsert r).select k = if k = key r then some r else t.select k := by
  change (upsertRows key r t.rows).find? (fun r => key r = k) = if _ then _
    else t.rows.find? fun r => key r = k
  induction t.rows with
  | nil => simp [upsertRows, eq_comm]
  | cons r' rs ih =>
    rw [upsertRows, List.find?_cons]
    by_cases hr : key r' = key r
    · rw [if_pos hr, List.find?_cons, hr]
      by_cases hk : key r = k
      · simp [hk]
      · simp [hk, Ne.symm hk]
    · rw [if_neg hr, List.find?_cons, ih]
      by_cases hk : key r' = k
      · subst hk
        simp [hr]
      · simp [hk]

theorem filter_upsertRows (p : κ → Bool) (r : ρ) (rs : List ρ) :
    (upsertRows key r rs).filter (fun r => p (key r)) =
    if p (key r) then upsertRows key r (rs.filter fun r => p (key r))
    else rs.filter fun r => p (key r) := by
  induction rs with
  | nil =>
    cases hp : p (key r) with
    | true => simp [upsertRows, hp]
    | false => simp [upsertRows, hp]
  | cons r' rs ih =>
    rw [upsertRows]
    by_cases hr : key r' = key r
    · rw [if_pos hr]
      cases hp : p (key r) with
      | true => simp [upsertRows, hp, hr]
      | false => simp [hp, hr]
    · rw [if_neg hr]
      cases hp' : p (key r') with
      | true =>
        rw [List.filter_cons_of_pos (by simp [hp']), List.filter_cons_of_pos (by simp [hp']), ih]
        split
        · rw [upsertRows, if_neg hr]
        · rfl
      | false =>
        rw [List.filter_cons_of_neg (by simp [hp']), List.filter_cons_of_neg (by simp [hp']), ih]

theorem select_delete (t : Table key) (k k' : κ) :
    (t.delete fun r => key r = k).select k' = if k' = k then none else t.select k' := by
  refine Option.ext fun r => ?_
  rw [select_eq_some, mem_delete, decide_eq_false_iff_not]
  split
  · rename_i hk
    subst hk
    simp
  · rename_i hk
    rw [select_eq_some]
    constructor
    · rintro ⟨⟨hr, -⟩, rfl⟩
      exact ⟨hr, rfl⟩
    · rintro ⟨hr, rfl⟩
      exact ⟨⟨hr, hk⟩, rfl⟩

theorem eraseP_eq_filter {rs : List ρ} (h : (rs.map key).Nodup) (k : κ) :
    rs.eraseP (fun r => key r = k) = rs.filter fun r => !decide (key r = k) := by
  induction rs with
  | nil => rfl
  | cons r rs ih =>
    obtain ⟨hr, hrs⟩ := List.nodup_cons.mp h
    by_cases hk : key r = k
    · subst hk
      have hrest : ∀ r' ∈ rs, (!decide (key r' = key r)) = true := by
        intro r' hr'
        have hne : key r' ≠ key r := fun heq => hr (heq ▸ List.mem_map_of_mem hr')
        simp [hne]
      rw [List.eraseP_cons_of_pos (by simp), List.filter_cons_of_neg (by simp),
        List.filter_eq_self.mpr hrest]
    · rw [List.eraseP_cons_of_neg (by simp [hk]), List.filter_cons_of_pos (by simp [hk]), ih hrs]

theorem insert_rows (h : t.insert r = some t') : t'.rows = t.rows ++ [r] := by
  unfold insert at h
  split at h
  · cases h
  · cases h
    rfl

theorem mem_update {f : ρ → ρ} (hf : ∀ r, key (f r) = key r) :
    r ∈ (t.update f hf k).rows ↔ ∃ r' ∈ t.rows, r = if key r' = k then f r' else r' := by
  simp only [update, List.mem_map, eq_comm]

theorem update_id (t : Table key) (h : ∀ r, key (id r) = key r) (k : κ) : t.update id h k = t := by
  ext1
  simp [update]

theorem update_update (t : Table key) {f g : ρ → ρ} (hf : ∀ r, key (f r) = key r)
    (hg : ∀ r, key (g r) = key r) (k : κ) :
    (t.update f hf k).update g hg k = t.update (g ∘ f) (fun r => (hg (f r)).trans (hf r)) k := by
  ext1
  simp only [update, List.map_map]
  apply List.map_congr_left
  intro r _
  simp only [Function.comp_apply]
  split
  · rename_i hr
    rw [if_pos ((hf r).trans hr)]
  · rfl

theorem select_update (t : Table key) {f : ρ → ρ} (hf : ∀ r, key (f r) = key r) (k k' : κ) :
    (t.update f hf k).select k' = (t.select k').map fun r => if key r = k then f r else r := by
  unfold select update
  rw [List.find?_map]
  congr 2
  funext r
  simp only [Function.comp_apply]
  split
  · rw [hf r]
  · rfl

end Table

end Sql
