import Octar.Lib.Page
import Octar.Queue.ConfigTable
import Octar.Queue.LeaseSweep

namespace Octar

open Go

namespace ConfigTable

variable {t : ConfigTable} {c k : Bytes}

def Declared (t : ConfigTable) (key : Bytes) : Prop := (t.select key).isSome = true

def patterns (t : ConfigTable) : List Bytes := t.wildcards.map GroupConfig.key

theorem declared_iff : t.Declared k ↔ k ∈ t.rows.map GroupConfig.key := by
  rw [Declared, Option.isSome_iff_exists, List.mem_map]
  simp only [Sql.Table.select_eq_some]

theorem mem_patterns : k ∈ t.patterns ↔ isGlobPattern k = true ∧ t.Declared k := by
  rw [declared_iff, patterns, wildcards, List.mem_map, List.mem_map]
  constructor
  · rintro ⟨w, hw, rfl⟩
    obtain ⟨hmem, hglob⟩ := List.mem_filter.mp hw
    exact ⟨hglob, w, hmem, rfl⟩
  · rintro ⟨hglob, w, hmem, rfl⟩
    exact ⟨w, List.mem_filter.mpr ⟨hmem, hglob⟩, rfl⟩

theorem declared_edit {e : ConfigEdit} (h : t.Declared k) (he : e ≠ .del k) :
    (t.edit e).Declared k := by
  cases e with
  | set cfg =>
    rw [Declared, edit, Sql.Table.select_upsert]
    split
    · rfl
    · exact h
  | del key =>
    have hne : k ≠ key := fun heq => he (congrArg ConfigEdit.del heq.symm)
    rw [Declared, edit, Sql.Table.select_delete, if_neg hne]
    exact h

theorem patterns_set (t : ConfigTable) (cfg : GroupConfig) : patterns (t.upsert cfg) =
    if isGlobPattern cfg.key = true ∧ cfg.key ∉ t.patterns then t.patterns ++ [cfg.key]
    else t.patterns := by
  have hwildcards : wildcards (t.upsert cfg) = _ :=
    Sql.Table.filter_upsertRows isGlobPattern cfg t.rows
  rw [patterns, hwildcards]
  by_cases hglob : isGlobPattern cfg.key = true
  · rw [if_pos hglob]
    by_cases hmem : cfg.key ∈ t.patterns
    · rw [if_neg fun h => h.2 hmem]
      exact Sql.Table.map_upsertRows_of_mem hmem
    · rw [if_pos ⟨hglob, hmem⟩]
      exact Sql.Table.map_upsertRows_of_not_mem hmem
  · rw [if_neg hglob, if_neg fun h => hglob h.1]
    rfl

theorem patterns_del (t : ConfigTable) (key : Bytes) :
    patterns (t.delete fun c => c.key = key) = t.patterns.filter fun k => !decide (k = key) := by
  rw [patterns, ConfigIdx.wildcards_delete, patterns, List.filter_map]
  rfl

theorem mem_after_edit {e : ConfigEdit} (hc : c ∈ t.patterns) (hk : k ∈ t.patterns)
    (hec : e ≠ .del c) (hek : e ≠ .del k) :
    k ∈ after c (t.edit e).patterns ↔ k ∈ after c t.patterns := by
  cases e with
  | set cfg =>
    rw [edit, patterns_set]
    split
    · rename_i hnew
      have hne : k ≠ cfg.key := fun heq => hnew.2 (heq ▸ hk)
      rw [after_append_of_mem hc, List.mem_append, List.mem_singleton, or_iff_left hne]
    · rfl
  | del key =>
    have hne : c ≠ key := fun heq => hec (congrArg ConfigEdit.del heq.symm)
    have hne' : k ≠ key := fun heq => hek (congrArg ConfigEdit.del heq.symm)
    rw [edit, patterns_del, after_filter (by simpa using hne), List.mem_filter]
    simp [hne']

theorem declared_edits {es : List ConfigEdit} (h : t.Declared k) (hes : .del k ∉ es) :
    (es.foldl edit t).Declared k := by
  induction es generalizing t with
  | nil => exact h
  | cons e es ih =>
    obtain ⟨hne, hes⟩ := not_or.mp (List.mem_cons.not.mp hes)
    exact ih (declared_edit h (Ne.symm hne)) hes

theorem mem_after_edits {es : List ConfigEdit} (hc : c ∈ t.patterns) (hk : k ∈ t.patterns)
    (hec : .del c ∉ es) (hek : .del k ∉ es) :
    k ∈ after c (es.foldl edit t).patterns ↔ k ∈ after c t.patterns := by
  induction es generalizing t with
  | nil => rfl
  | cons e es ih =>
    obtain ⟨hne, hec⟩ := not_or.mp (List.mem_cons.not.mp hec)
    obtain ⟨hne', hek⟩ := not_or.mp (List.mem_cons.not.mp hek)
    obtain ⟨hcglob, hcdecl⟩ := mem_patterns.mp hc
    obtain ⟨hkglob, hkdecl⟩ := mem_patterns.mp hk
    rw [List.foldl_cons,
      ih (mem_patterns.mpr ⟨hcglob, declared_edit hcdecl (Ne.symm hne)⟩)
        (mem_patterns.mpr ⟨hkglob, declared_edit hkdecl (Ne.symm hne')⟩) hec hek,
      mem_after_edit hc hk (Ne.symm hne) (Ne.symm hne')]

end ConfigTable

namespace ConfigIdx

variable {ci ci' : ConfigIdx} {t : ConfigTable} {c k : Bytes}

def keys (ci : ConfigIdx) : List Bytes := ci.list.map GroupConfig.key

theorem Refines.keys_eq (h : ci.Refines t) :
    ∃ plain, ci.keys = plain ++ t.patterns ∧ plain.Pairwise (· < ·) ∧
    ∀ k, k ∈ plain ↔ ¬ isGlobPattern k = true ∧ t.Declared k := by
  refine ⟨ci.exactList.map GroupConfig.key, ?_, ?_, ?_⟩
  · rw [keys, ConfigTable.patterns, ← h.wildcards, ← List.map_append]
    rfl
  · exact List.pairwise_map.mpr h.sorted_exactList
  · intro k
    rw [ConfigTable.declared_iff, (h.perm_exactList.map _).mem_iff, List.mem_map, List.mem_map]
    constructor
    · rintro ⟨w, hw, rfl⟩
      obtain ⟨hmem, hglob⟩ := List.mem_filter.mp hw
      exact ⟨by simpa using hglob, w, hmem, rfl⟩
    · rintro ⟨hglob, w, hmem, rfl⟩
      exact ⟨w, List.mem_filter.mpr ⟨hmem, by simpa using hglob⟩, rfl⟩

theorem Refines.mem_keys (h : ci.Refines t) : k ∈ ci.keys ↔ t.Declared k := by
  obtain ⟨plain, hkeys, -, hplain⟩ := h.keys_eq
  rw [hkeys, List.mem_append, hplain, ConfigTable.mem_patterns, ← or_and_right]
  exact and_iff_right (Classical.em _).symm

theorem Refines.nodup_keys (h : ci.Refines t) : ci.keys.Nodup := by
  obtain ⟨plain, hkeys, hsorted, hplain⟩ := h.keys_eq
  rw [hkeys]
  refine (nodup_of_lt hsorted).append (t.unique.sublist (List.filter_sublist.map _)) ?_
  intro k hk hpattern
  exact ((hplain k).mp hk).1 (ConfigTable.mem_patterns.mp hpattern).1

theorem Refines.length_keys (h : ci.Refines t) : ci.keys.length = ci.count := by
  change (ci.list.map GroupConfig.key).length = ci.exact.entries.length + ci.wildcards.length
  rw [List.length_map, ← h.length_exactList, ← List.length_append]
  rfl

theorem Refines.mem_after (h : ci.Refines t) (hc : t.Declared c) : k ∈ after c ci.keys ↔
    if isGlobPattern c then k ∈ after c t.patterns
    else t.Declared k ∧ (isGlobPattern k = true ∨ c < k) := by
  obtain ⟨plain, hkeys, hsorted, hplain⟩ := h.keys_eq
  rw [hkeys]
  split
  · rename_i hglob
    rw [after_append_of_not_mem fun hmem => ((hplain c).mp hmem).1 hglob]
  · rename_i hglob
    have hmem : c ∈ plain := (hplain c).mpr ⟨hglob, hc⟩
    rw [after_append_of_mem hmem, List.mem_append,
      mem_after_of_sorted (fun a b hab hba => List.lt_irrefl a (List.lt_trans hab hba)) hsorted
        hmem,
      hplain, ConfigTable.mem_patterns]
    constructor
    · rintro (⟨⟨-, hdecl⟩, hlt⟩ | ⟨hglob', hdecl⟩)
      · exact ⟨hdecl, .inr hlt⟩
      · exact ⟨hdecl, .inl hglob'⟩
    · rintro ⟨hdecl, hor⟩
      by_cases hglob' : isGlobPattern k = true
      · exact .inr ⟨hglob', hdecl⟩
      · exact .inl ⟨⟨hglob', hdecl⟩, hor.resolve_left hglob'⟩

theorem Refines.mem_after_edits {es : List ConfigEdit} (h : ci.Refines t)
    (h' : ci'.Refines (es.foldl ConfigTable.edit t)) (hc : t.Declared c)
    (hc' : (es.foldl ConfigTable.edit t).Declared c) (hglob : isGlobPattern c = true → .del c ∉ es)
    (hk : t.Declared k) (hes : .del k ∉ es) : k ∈ after c ci'.keys ↔ k ∈ after c ci.keys := by
  rw [h.mem_after hc, h'.mem_after hc']
  split
  · rename_i hpattern
    have hcmem := ConfigTable.mem_patterns.mpr ⟨hpattern, hc⟩
    by_cases hkpattern : isGlobPattern k = true
    · exact ConfigTable.mem_after_edits hcmem (ConfigTable.mem_patterns.mpr ⟨hkpattern, hk⟩)
        (hglob hpattern) hes
    · constructor
      · exact fun hmem => absurd (ConfigTable.mem_patterns.mp (mem_of_mem_after hmem)).1 hkpattern
      · exact fun hmem => absurd (ConfigTable.mem_patterns.mp (mem_of_mem_after hmem)).1 hkpattern
  · rw [and_iff_right (ConfigTable.declared_edits hk hes), and_iff_right hk]

theorem Refines.configure (h : ci.Refines t) (op : LiveOp) : ∃ t, (op.configure ci).Refines t := by
  cases op with
  | setGroupConfig cfg => exact ⟨_, h.set _⟩
  | deleteGroupConfig key => exact ⟨_, h.del key⟩
  | _ => exact ⟨t, h⟩

end ConfigIdx

def ConfigEdit.normal : ConfigEdit → ConfigEdit
  | .set cfg => .set (if cfg.quantum ≤ 0 then { cfg with quantum := 1 } else cfg)
  | .del key => .del key

theorem ConfigEdit.del_mem_normal {es : List ConfigEdit} {k : Bytes} :
    .del k ∈ es.map normal ↔ .del k ∈ es := by
  rw [List.mem_map]
  constructor
  · rintro ⟨e, he, heq⟩
    cases e with
    | set cfg => cases heq
    | del key =>
      cases heq
      exact he
  · exact fun he => ⟨_, he, rfl⟩

namespace Queue

variable [PathMatch] {q q' : Queue} {t : ConfigTable}

def editConfig (q : Queue) : ConfigEdit → Queue
  | .set cfg => q.setGroupConfig cfg
  | .del key => (q.deleteGroupConfig key).1

def editConfigs (q : Queue) (es : List ConfigEdit) : Queue := es.foldl editConfig q

theorem cfgIdx_editConfigs (q : Queue) (es : List ConfigEdit) :
    (q.editConfigs es).cfgIdx = (es.map ConfigEdit.normal).foldl ConfigIdx.edit q.cfgIdx := by
  induction es generalizing q with
  | nil => rfl
  | cons e es ih =>
    rw [editConfigs, List.foldl_cons, List.map_cons, List.foldl_cons]
    refine (ih (q.editConfig e)).trans
      (congrArg (fun ci => (es.map ConfigEdit.normal).foldl ConfigIdx.edit ci) ?_)
    cases e with
    | set cfg => exact installConfig_cfgIdx q _
    | del key => rfl

def configsAfter (q : Queue) (after : Bytes) : List Bytes :=
  if after = [] ∨ after ∉ q.cfgIdx.keys then q.cfgIdx.keys else Go.after after q.cfgIdx.keys

omit [PathMatch] in
theorem configsAfter_of_declared {after : Bytes} (h : q.cfgIdx.Refines t) (hnil : after ≠ [])
    (hafter : t.Declared after) : q.configsAfter after = Go.after after q.cfgIdx.keys :=
  if_neg (not_or.mpr ⟨hnil, not_not.mpr (h.mem_keys.mpr hafter)⟩)

omit [PathMatch] in
theorem configsAfter_eq_drop (q : Queue) (after : Bytes) :
    ∃ m, q.configsAfter after = q.cfgIdx.keys.drop m := by
  unfold configsAfter
  split
  · exact ⟨0, rfl⟩
  · exact ⟨_, after_eq_drop _ _⟩

omit [PathMatch] in
theorem map_drop_search (q : Queue) (after : Bytes) :
    (q.cfgIdx.list.drop (if after = [] then 0
      else if q.cfgIdx.list.any fun c => c.key ==
        after then (q.cfgIdx.list.findIdx fun c => c.key == after) + 1
      else 0)).map GroupConfig.key = q.configsAfter after := by
  have hany : (q.cfgIdx.list.any fun c => c.key == after) = true ↔ after ∈ q.cfgIdx.keys := by
    rw [List.any_eq_true, ConfigIdx.keys, List.mem_map]
    simp only [beq_iff_eq]
  rw [List.map_drop, configsAfter, ← ConfigIdx.keys]
  by_cases hnil : after = []
  · rw [if_pos hnil, if_pos (.inl hnil), List.drop_zero]
  · rw [if_neg hnil]
    by_cases hmem : after ∈ q.cfgIdx.keys
    · have hbeq : (fun c : GroupConfig => c.key == after) = (fun key => decide (key = after)) ∘
          GroupConfig.key := funext fun c => beq_eq_decide _ _
      rw [if_pos (hany.mpr hmem), if_neg (not_or.mpr ⟨hnil, not_not.mpr hmem⟩), after_eq_drop,
        ConfigIdx.keys, List.findIdx_map, hbeq]
    · rw [if_neg (hany.not.mpr hmem), if_pos (.inr hmem), List.drop_zero]

omit [PathMatch] in
theorem pageGroupConfigs_eq (q : Queue) (after : Bytes) (limit : Int) :
    (q.pageGroupConfigs after limit).1.map GroupConfig.key =
      (q.configsAfter after).take (pageLimit limit) ∧
      (q.pageGroupConfigs after limit).2 = if pageLimit limit < (q.configsAfter after).length
        then ((q.configsAfter after)[pageLimit limit - 1]?).getD [] else [] := by
  unfold pageGroupConfigs
  rw [← map_drop_search]
  dsimp only
  generalize (if after = [] then 0 else _) = start
  rw [take_slice, List.map_take, List.length_map, List.getElem?_map]
  refine ⟨rfl, ?_⟩
  by_cases hmore : pageLimit limit < (q.cfgIdx.list.drop start).length
  · rw [if_pos hmore, if_pos ((slice_lt _ start _).mpr hmore),
      getElem?_slice _ start hmore (pageLimit_pos limit)]
  · rw [if_neg hmore, if_neg ((slice_lt _ start _).not.mpr hmore)]

/-- The calls of `PageGroupConfigs` from a cursor on, each with the cursor that the last one
returned, until one returns the empty cursor: each page, and the edits that follow it. The guard
speaks about the queue, the cursor and the edits before the next call. -/
inductive Pages (guard : Queue → Bytes → List ConfigEdit → Prop) (limit : Int) :
    Queue → Bytes → List (List GroupConfig × List ConfigEdit) → Prop
  | last {q : Queue} {after : Bytes} (hlast : (q.pageGroupConfigs after limit).2 = []) :
    Pages guard limit q after [((q.pageGroupConfigs after limit).1, [])]
  | next {q : Queue} {after : Bytes} {es : List ConfigEdit}
    {rest : List (List GroupConfig × List ConfigEdit)}
    (hnext : (q.pageGroupConfigs after limit).2 ≠ [])
    (hguard : guard q (q.pageGroupConfigs after limit).2 es)
    (h : Pages guard limit (q.editConfigs es) (q.pageGroupConfigs after limit).2 rest) :
    Pages guard limit q after (((q.pageGroupConfigs after limit).1, es) :: rest)

structure Stable (q : Queue) (pages : List (List GroupConfig × List ConfigEdit)) : Prop where
  within : ∀ p ∈ pages, (p.1.map GroupConfig.key).Nodup
  once : ∀ before p between p' rest k, pages = before ++ p :: (between ++ p' :: rest) →
    k ∈ p.1.map GroupConfig.key → k ∈ p'.1.map GroupConfig.key → ∃ x ∈ p :: between, .del k ∈ x.2
  all : ∀ k, (q.cfgIdx.get k).isSome = true → (∀ x ∈ pages, .del k ∉ x.2) →
    ∃ p ∈ pages, k ∈ p.1.map GroupConfig.key

def KeepsCursor (q : Queue) (cursor : Bytes) (es : List ConfigEdit) : Prop :=
  ((q.editConfigs es).cfgIdx.get cursor).isSome = true ∧
    (isGlobPattern cursor = true → .del cursor ∉ es)

structure StableFrom (t : ConfigTable) (todo : List Bytes)
    (pages : List (List GroupConfig × List ConfigEdit)) :
    Prop where
  within : ∀ p ∈ pages, (p.1.map GroupConfig.key).Nodup
  once : ∀ before p between p' rest k, pages = before ++ p :: (between ++ p' :: rest) →
    k ∈ p.1.map GroupConfig.key → k ∈ p'.1.map GroupConfig.key → ∃ x ∈ p :: between, .del k ∈ x.2
  only : ∀ before p rest k, pages = before ++ p :: rest →
    k ∈ p.1.map GroupConfig.key → t.Declared k → (∀ x ∈ before, .del k ∉ x.2) → k ∈ todo
  all : ∀ k ∈ todo, (∀ x ∈ pages, .del k ∉ x.2) → ∃ p ∈ pages, k ∈ p.1.map GroupConfig.key

omit [PathMatch] in
theorem StableFrom.nil : StableFrom t [] [] where
  within := List.forall_mem_nil _
  once := fun before _ _ _ _ _ heq => absurd heq (by simp)
  only := fun before _ _ _ heq => absurd heq (by simp)
  all := List.forall_mem_nil _

omit [PathMatch] in
theorem StableFrom.cons {t' : ConfigTable} {todo todo' : List Bytes} {page : List GroupConfig}
    {es : List ConfigEdit} {pages : List (List GroupConfig × List ConfigEdit)} {n : Nat}
    (h : StableFrom t' todo' pages) (hpage : page.map GroupConfig.key = todo.take n)
    (hnodup : todo.Nodup) (hdecl : ∀ k ∈ todo, t.Declared k)
    (hkept : ∀ k, t.Declared k → .del k ∉ es → t'.Declared k ∧ (k ∈ todo' ↔ k ∈ todo.drop n)) :
    StableFrom t todo ((page, es) :: pages) where
  within := by
    refine List.forall_mem_cons.mpr ⟨?_, h.within⟩
    rw [hpage]
    exact hnodup.sublist (List.take_sublist n todo)
  once := by
    intro before p between p' rest k heq hk hk'
    cases before with
    | nil =>
      obtain ⟨rfl, hpages⟩ := List.cons.inj heq
      by_contra hnone
      simp only [not_exists, not_and] at hnone
      obtain ⟨hes, hbetween⟩ := List.forall_mem_cons.mp hnone
      rw [hpage] at hk
      obtain ⟨hdecl', hmem⟩ := hkept k (hdecl k (List.mem_of_mem_take hk)) hes
      have hdrop : k ∈ todo.drop n := hmem.mp (h.only between p' rest k hpages hk' hdecl' hbetween)
      rw [← List.take_append_drop n todo] at hnodup
      exact (List.disjoint_of_nodup_append hnodup) hk hdrop
    | cons b before => exact h.once before p between p' rest k (List.cons.inj heq).2 hk hk'
  only := by
    intro before p rest k heq hk hdecl hbefore
    cases before with
    | nil =>
      obtain ⟨rfl, -⟩ := List.cons.inj heq
      rw [hpage] at hk
      exact List.mem_of_mem_take hk
    | cons b before =>
      obtain ⟨rfl, hpages⟩ := List.cons.inj heq
      obtain ⟨hes, hbefore⟩ := List.forall_mem_cons.mp hbefore
      obtain ⟨hdecl', hmem⟩ := hkept k hdecl hes
      exact List.mem_of_mem_drop (hmem.mp (h.only before p rest k hpages hk hdecl' hbefore))
  all := by
    intro k hk hnone
    obtain ⟨hes, hnone⟩ := List.forall_mem_cons.mp hnone
    have hdecl := hdecl k hk
    rw [← List.take_append_drop n todo] at hk
    rcases List.mem_append.mp hk with hk | hk
    · exact ⟨_, List.mem_cons_self, hpage ▸ hk⟩
    · obtain ⟨p, hp, hmem⟩ := h.all k ((hkept k hdecl hes).2.mpr hk) hnone
      exact ⟨p, List.mem_cons_of_mem _ hp, hmem⟩

omit [PathMatch] in
theorem keys_of_declared_nil (h : q.cfgIdx.Refines t) (hnil : t.Declared []) :
    ∃ rest, q.cfgIdx.keys = [] :: rest := by
  obtain ⟨plain, hkeys, hsorted, hplain⟩ := h.keys_eq
  have hmem : [] ∈ plain := (hplain []).mpr ⟨by decide, hnil⟩
  cases plain with
  | nil => cases hmem
  | cons k plain =>
    rcases List.mem_cons.mp hmem with rfl | hmem
    · exact ⟨_, hkeys⟩
    · exact absurd ((List.pairwise_cons.mp hsorted).1 [] hmem) (List.not_lt_nil k)

omit [PathMatch] in
theorem nil_not_mem_configsAfter (h : q.cfgIdx.Refines t) {after : Bytes} (hnil : after ≠ [])
    (hafter : t.Declared after) : [] ∉ q.configsAfter after := by
  rw [configsAfter_of_declared h hnil hafter, h.mem_after hafter]
  split
  · exact fun hmem => absurd (ConfigTable.mem_patterns.mp (mem_of_mem_after hmem)).1 (by decide)
  · rintro ⟨-, hglob | hlt⟩
    · exact absurd hglob (by decide)
    · exact List.not_lt_nil after hlt

omit [PathMatch] in
theorem last_page (h : q.cfgIdx.Refines t) {after : Bytes} {limit : Int}
    (hafter : after ≠ [] → t.Declared after)
    (hempty : after = [] → pageLimit limit = 1 → t.Declared [] → q.cfgIdx.keys.length ≤ 1)
    (hlast : (q.pageGroupConfigs after limit).2 = []) :
    (q.configsAfter after).length ≤ pageLimit limit := by
  by_contra hmore
  rw [not_le] at hmore
  have hpos := pageLimit_pos limit
  have hlt : pageLimit limit - 1 < (q.configsAfter after).length := by omega
  have hcursor : (q.configsAfter after)[pageLimit limit - 1] = [] := by
    rw [(q.pageGroupConfigs_eq after limit).2, if_pos hmore, List.getElem?_eq_getElem hlt] at hlast
    exact hlast
  have hmem : [] ∈ q.configsAfter after := hcursor ▸ List.getElem_mem hlt
  by_cases hnil : after = []
  · have hall : q.configsAfter after = q.cfgIdx.keys := if_pos (.inl hnil)
    simp only [hall] at hmem hmore hlt hcursor
    have hdecl := h.mem_keys.mp hmem
    obtain ⟨rest, hkeys⟩ := keys_of_declared_nil h hdecl
    have hzero : pageLimit limit - 1 = 0 := by
      have hfirst : q.cfgIdx.keys[pageLimit limit - 1] = q.cfgIdx.keys[0] := by
        rw [hcursor]
        simp only [hkeys, List.getElem_cons_zero]
      exact h.nodup_keys.getElem_inj_iff.mp hfirst
    have := hempty hnil (by omega) hdecl
    omega
  · exact nil_not_mem_configsAfter h hnil (hafter hnil) hmem

omit [PathMatch] in
theorem nodup_configsAfter (h : q.cfgIdx.Refines t) (after : Bytes) :
    (q.configsAfter after).Nodup ∧ ∀ k ∈ q.configsAfter after, t.Declared k := by
  obtain ⟨m, hm⟩ := q.configsAfter_eq_drop after
  rw [hm]
  exact ⟨h.nodup_keys.sublist (List.drop_sublist m _),
    fun k hk => h.mem_keys.mp (List.mem_of_mem_drop hk)⟩

omit [PathMatch] in
theorem after_cursor (h : q.cfgIdx.Refines t) {after : Bytes} {limit : Int}
    (hnext : (q.pageGroupConfigs after limit).2 ≠ []) :
    t.Declared (q.pageGroupConfigs after limit).2 ∧
      Go.after (q.pageGroupConfigs after limit).2 q.cfgIdx.keys =
        (q.configsAfter after).drop (pageLimit limit) := by
  obtain ⟨-, hcursor⟩ := q.pageGroupConfigs_eq after limit
  have hpos := pageLimit_pos limit
  by_cases hmore : pageLimit limit < (q.configsAfter after).length
  · have hlt : pageLimit limit - 1 < (q.configsAfter after).length := by omega
    rw [if_pos hmore, List.getElem?_eq_getElem hlt, Option.getD_some] at hcursor
    have hget := List.getElem?_eq_getElem hlt
    rw [← hcursor] at hget
    obtain ⟨m, hm⟩ := q.configsAfter_eq_drop after
    refine ⟨(nodup_configsAfter h after).2 _ (hcursor ▸ List.getElem_mem hlt), ?_⟩
    rw [hm] at hget ⊢
    exact after_page h.nodup_keys hpos hget
  · rw [if_neg hmore] at hcursor
    exact absurd hcursor hnext

theorem Pages.stableFrom {limit : Int} {after : Bytes}
    {pages : List (List GroupConfig × List ConfigEdit)} (h : Pages KeepsCursor limit q after pages)
    (hq : q.cfgIdx.Refines t) (hafter : after ≠ [] → t.Declared after)
    (hempty : after = [] → pageLimit limit = 1 → t.Declared [] → q.cfgIdx.keys.length ≤ 1) :
    StableFrom t (q.configsAfter after) pages := by
  induction h generalizing t with
  | @last q after hlast =>
    obtain ⟨hnodup, hdecl⟩ := nodup_configsAfter hq after
    have hrest : StableFrom t [] [] := .nil
    refine hrest.cons (q.pageGroupConfigs_eq after limit).1 hnodup hdecl ?_
    intro k hk _
    rw [List.drop_eq_nil_of_le (last_page hq hafter hempty hlast)]
    exact ⟨hk, Iff.rfl⟩
  | @next q after es rest hnext hguard h ih =>
    obtain ⟨hnodup, hdecl⟩ := nodup_configsAfter hq after
    obtain ⟨hcursor, hleft⟩ := after_cursor hq hnext
    obtain ⟨hkeeps, hglob⟩ := hguard
    have hq' : (q.editConfigs es).cfgIdx.Refines
        ((es.map ConfigEdit.normal).foldl ConfigTable.edit t) := by
      rw [cfgIdx_editConfigs]
      exact hq.edits _
    rw [hq'.get] at hkeeps
    refine (ih hq' (fun _ => hkeeps) (absurd · hnext)).cons
      (q.pageGroupConfigs_eq after limit).1 hnodup hdecl ?_
    intro k hk hes
    rw [← ConfigEdit.del_mem_normal] at hes
    refine ⟨ConfigTable.declared_edits hk hes, ?_⟩
    rw [← hleft, configsAfter_of_declared hq' hnext hkeeps]
    exact hq.mem_after_edits hq' hcursor hkeeps
      (fun hp => ConfigEdit.del_mem_normal.not.mpr (hglob hp)) hk hes

theorem refines_take {step : QueueStep} (h : q.cfgIdx.Refines t) (htake : q.take step = .ok q') :
    ∃ t, q'.cfgIdx.Refines t := by
  cases step with
  | live op =>
    obtain ⟨⟨q₁, r⟩, hexec, hret⟩ := bind_ok.mp htake
    cases hret
    rw [exec_cfgIdx hexec]
    exact h.configure op
  | importState ord state =>
    apply importState_induct (motive := fun q => ∃ t, q.cfgIdx.Refines t) htake
    · exact fun _ _ _ hq _ => hq
    · exact fun _ _ hq => hq
    · exact ⟨t, h⟩

theorem refines_run {name ns : Bytes} {steps : List QueueStep}
    (h : Go.run Queue.take (newQueue name ns) steps = .ok q) : ∃ t, q.cfgIdx.Refines t := by
  refine Run.induct (motive := fun q _ => ∃ t, q.cfgIdx.Refines t) ?_ ⟨_, .new⟩ h
  rintro q step _ q' ⟨t, hq⟩ htake
  exact refines_take hq htake

/-- In whatever state of the queue a traversal starts, it is stable if the edits keep its cursors,
and if the empty key is no first page of its own. -/
theorem config_paging_stable {name ns : Bytes} {steps : List QueueStep}
    (h : Go.run Queue.take (newQueue name ns) steps = .ok q) {limit : Int}
    {pages : List (List GroupConfig × List ConfigEdit)}
    (hpages : Pages KeepsCursor limit q [] pages)
    (hempty : limit = 1 → (q.cfgIdx.get []).isSome = true → q.cfgIdx.count ≤ 1) :
    Stable q pages := by
  obtain ⟨t, hq⟩ := refines_run h
  have hlimit : pageLimit limit = 1 → limit = 1 := by
    unfold pageLimit
    split
    · omega
    · omega
  have hstable : StableFrom t (q.configsAfter []) pages := by
    refine hpages.stableFrom hq (absurd rfl) ?_
    intro _ hone hdecl
    rw [hq.length_keys]
    apply hempty (hlimit hone)
    rw [hq.get]
    exact hdecl
  refine ⟨hstable.within, hstable.once, ?_⟩
  intro k hk
  rw [hq.get] at hk
  apply hstable.all k
  rw [configsAfter, if_pos (.inl rfl)]
  exact hq.mem_keys.mpr hk

theorem Pages.ofPage {guard : Queue → Bytes → List ConfigEdit → Prop} {limit : Int}
    {after cursor : Bytes} {page : List GroupConfig} {es : List ConfigEdit}
    {rest : List (List GroupConfig × List ConfigEdit)}
    (hpage : q.pageGroupConfigs after limit = (page, cursor)) (hcursor : cursor ≠ [])
    (hguard : guard q cursor es) (h : Pages guard limit (q.editConfigs es) cursor rest) :
    Pages guard limit q after ((page, es) :: rest) := by
  obtain ⟨rfl, rfl⟩ := Prod.ext_iff.mp hpage
  exact .next hcursor hguard h

theorem Pages.ofLast {guard : Queue → Bytes → List ConfigEdit → Prop} {limit : Int} {after : Bytes}
    {page : List GroupConfig} (hpage : q.pageGroupConfigs after limit = (page, [])) :
    Pages guard limit q after [(page, [])] := by
  obtain ⟨rfl, hcursor⟩ := Prod.ext_iff.mp hpage
  exact .last hcursor

end Queue

def declareConfigs (keys : List Bytes) : List QueueStep :=
  keys.map fun key => .live (.setGroupConfig (defaultGroupConfig key))

theorem config_paging_stable_edited : ∃ q pages,
    Go.run (@Queue.take literalMatch) (newQueue [] [])
      (declareConfigs [str "*", str "c", str "a"]) = .ok q ∧
      @Queue.Pages literalMatch (@Queue.KeepsCursor literalMatch) 1 q [] pages ∧
      pages.map (fun p => p.1.map GroupConfig.key) = [[str "a"], [str "b"], [str "*"]] ∧
        q.Stable pages := by
  let edits : List ConfigEdit := [.del (str "c"), .set (defaultGroupConfig (str "b"))]
  obtain ⟨q, hq, hfirst, hkept, hsecond, hkept', hthird, hempty⟩ : ∃ q,
      Go.run (@Queue.take literalMatch) (newQueue [] [])
        (declareConfigs [str "*", str "c", str "a"]) = .ok q ∧
        q.pageGroupConfigs [] 1 = ([defaultGroupConfig (str "a")], str "a") ∧
        (((@Queue.editConfigs literalMatch q edits).cfgIdx.get (str "a")).isSome = true) ∧
        (@Queue.editConfigs literalMatch q edits).pageGroupConfigs (str "a") 1 =
          ([defaultGroupConfig (str "b")], str "b") ∧
        (((@Queue.editConfigs literalMatch q edits).cfgIdx.get (str "b")).isSome = true) ∧
        (@Queue.editConfigs literalMatch q edits).pageGroupConfigs (str "b") 1 =
          ([defaultGroupConfig (str "*")], []) ∧ (q.cfgIdx.get []).isSome = false :=
    exists_ok (by decide +kernel)
  have hpages : @Queue.Pages literalMatch (@Queue.KeepsCursor literalMatch) 1 q [] _ :=
    @Queue.Pages.ofPage literalMatch _ _ _ _ _ _ edits _ hfirst (by decide) ⟨hkept,
      (absurd · (by decide))⟩
      (@Queue.Pages.ofPage literalMatch _ _ _ _ _ _ [] _ hsecond (by decide) ⟨hkept',
        (absurd · (by decide))⟩
        (@Queue.Pages.ofLast literalMatch _ _ _ _ _ hthird))
  refine ⟨q, _, hq, hpages, rfl, ?_⟩
  exact @Queue.config_paging_stable literalMatch q _ _ _ hq 1 _ hpages fun _ h =>
    absurd h (by simp [hempty])

/-- The deletion of the config that the cursor names starts the traversal over. -/
theorem config_paging_restarts : ∃ q pages,
    Go.run (@Queue.take literalMatch) (newQueue [] [])
      (declareConfigs [str "a", str "b", str "c"]) = .ok q ∧
      @Queue.Pages literalMatch (fun _ _ _ => True) 1 q [] pages ∧
      pages.map (fun p => p.1.map GroupConfig.key) = [[str "a"], [str "b"], [str "a"], [str "c"]] ∧
      (∀ p ∈ pages, ∀ e ∈ p.2, e = .del (str "b")) ∧ ¬ q.Stable pages := by
  let edits : List ConfigEdit := [.del (str "b")]
  obtain ⟨q, hq, hfirst, hsecond, hthird, hfourth⟩ : ∃ q,
      Go.run (@Queue.take literalMatch) (newQueue [] [])
        (declareConfigs [str "a", str "b", str "c"]) = .ok q ∧
        q.pageGroupConfigs [] 1 = ([defaultGroupConfig (str "a")], str "a") ∧
        q.pageGroupConfigs (str "a") 1 = ([defaultGroupConfig (str "b")], str "b") ∧
        (@Queue.editConfigs literalMatch q edits).pageGroupConfigs (str "b") 1 =
          ([defaultGroupConfig (str "a")], str "a") ∧
        (@Queue.editConfigs literalMatch q edits).pageGroupConfigs (str "a") 1 =
          ([defaultGroupConfig (str "c")], []) :=
    exists_ok (by decide +kernel)
  have hpages : @Queue.Pages literalMatch (fun _ _ _ => True) 1 q [] _ :=
    @Queue.Pages.ofPage literalMatch _ _ _ _ _ _ [] _ hfirst (by decide) trivial
      (@Queue.Pages.ofPage literalMatch _ _ _ _ _ _ edits _ hsecond (by decide) trivial
        (@Queue.Pages.ofPage literalMatch _ _ _ _ _ _ [] _ hthird (by decide) trivial
          (@Queue.Pages.ofLast literalMatch _ _ _ _ _ hfourth)))
  refine ⟨q, _, hq, hpages, rfl, ?_, ?_⟩
  · simp [edits]
  · intro hstable
    obtain ⟨x, hx, hdel⟩ := hstable.once [] _ [_] _ _ (str "a") rfl (by decide) (by decide)
    simp only [edits, List.mem_cons, List.not_mem_nil, or_false] at hx
    rcases hx with rfl | rfl
    · cases hdel
    · exact absurd (ConfigEdit.del.inj (List.mem_singleton.mp hdel)) (by decide)

end Octar
