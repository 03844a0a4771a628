import Octar.Lib.Page
import Octar.Broker.Runtime
import Octar.Queue.LiveLaws

namespace Octar

open Go

section keyIdx

variable {keys : List Bytes} {key after : Bytes}

theorem pairwise_le_of_sorted (h : keys.Pairwise (· < ·)) (key : Bytes) :
    keys.Pairwise fun a b => decide (key ≤ a) = true → decide (key ≤ b) = true := by
  refine h.imp ?_
  intro a b hab hle
  rw [decide_eq_true_iff] at *
  exact List.le_of_lt (List.lt_of_le_of_lt hle hab)

theorem lt_of_search (h : keys.Pairwise (· < ·))
    (habsent : ¬ keys[keys.findIdx fun k => decide (key ≤ k)]? = some key) :
    ∀ k ∈ keys.drop (keys.findIdx fun k => decide (key ≤ k)), key < k := by
  have hdrop := drop_findIdx (pairwise_le_of_sorted h key)
  have hsorted : (keys.drop (keys.findIdx fun k => decide (key ≤ k))).Pairwise (· < ·) := h.drop
  rw [← List.head?_drop] at habsent
  cases hrest : keys.drop (keys.findIdx fun k => decide (key ≤ k)) with
  | nil => exact List.forall_mem_nil _
  | cons k₀ rest =>
    rw [hrest] at hsorted habsent hdrop
    have hle : key ≤ k₀ := by
      have hmem : k₀ ∈ keys.filter fun k => decide (key ≤ k) := hdrop ▸ List.mem_cons_self
      exact of_decide_eq_true (List.mem_filter.mp hmem).2
    have hlt : key < k₀ := bytes_lt_of_le hle fun heq => habsent (congrArg some heq.symm)
    intro k hk
    rcases List.mem_cons.mp hk with rfl | hk
    · exact hlt
    · exact List.lt_trans hlt ((List.pairwise_cons.mp hsorted).1 k hk)

theorem mem_keyIdxAdd {k : Bytes} : k ∈ keyIdxAdd keys key ↔ k = key ∨ k ∈ keys := by
  unfold keyIdxAdd
  dsimp only
  split
  · rename_i hthere
    constructor
    · exact .inr
    · rintro (rfl | hk)
      · exact List.mem_of_getElem? hthere
      · exact hk
  · rw [List.mem_append, List.mem_cons, or_left_comm, ← List.mem_append, List.take_append_drop]

theorem sorted_keyIdxAdd (h : keys.Pairwise (· < ·)) (key : Bytes) :
    (keyIdxAdd keys key).Pairwise (· < ·) := by
  unfold keyIdxAdd
  dsimp only
  split
  · exact h
  · rename_i habsent
    have habove := lt_of_search h habsent
    have hbelow : ∀ k ∈ keys.take (keys.findIdx fun k => decide (key ≤ k)), k < key := by
      intro k hk
      rw [take_findIdx (pairwise_le_of_sorted h key)] at hk
      simpa using (List.mem_filter.mp hk).2
    refine List.pairwise_append.mpr ⟨h.take, List.pairwise_cons.mpr ⟨habove, h.drop⟩, ?_⟩
    intro a ha b hb
    rcases List.mem_cons.mp hb with rfl | hb
    · exact hbelow a ha
    · exact List.lt_trans (hbelow a ha) (habove b hb)

def keysAfter (keys : List Bytes) (after : Bytes) : List Bytes :=
  if after = [] then keys else keys.filter fun k => decide (after < k)

theorem sorted_keysAfter (h : keys.Pairwise (· < ·)) (after : Bytes) :
    (keysAfter keys after).Pairwise (· < ·) := by
  unfold keysAfter
  split
  · exact h
  · exact h.filter _

theorem mem_keysAfter {k : Bytes} :
    k ∈ keysAfter keys after ↔ k ∈ keys ∧ (after = [] ∨ after < k) := by
  unfold keysAfter
  split
  · rename_i hnil
    simp [hnil]
  · rename_i hnil
    simp [hnil]

theorem filter_lt_eq (h : keys.Pairwise (· < ·)) (after : Bytes) :
    keys.filter (fun k => decide (after < k)) =
      if keys[keys.findIdx fun k => decide (after ≤ k)]? = some after
      then keys.drop ((keys.findIdx fun k => decide (after ≤ k)) + 1)
      else keys.drop (keys.findIdx fun k => decide (after ≤ k)) := by
  have hsorted : (keys.drop (keys.findIdx fun k => decide (after ≤ k))).Pairwise (· < ·) := h.drop
  have hfilter : keys.filter (fun k => decide (after < k)) =
      (keys.drop (keys.findIdx fun k => decide (after ≤ k))).filter fun k =>
        decide (after < k) := by
    rw [drop_findIdx (pairwise_le_of_sorted h after), List.filter_filter]
    apply List.filter_congr
    intro k _
    rw [Bool.eq_iff_iff, Bool.and_eq_true, decide_eq_true_iff, decide_eq_true_iff]
    exact ⟨fun hlt => ⟨hlt, List.le_of_lt hlt⟩, And.left⟩
  rw [hfilter]
  split
  · rename_i hthere
    obtain ⟨hlt, heq⟩ := List.getElem?_eq_some_iff.mp hthere
    rw [List.drop_eq_getElem_cons hlt, heq] at hsorted ⊢
    rw [List.filter_cons_of_neg (by simp [List.lt_irrefl])]
    apply List.filter_eq_self.mpr
    intro k hk
    exact decide_eq_true ((List.pairwise_cons.mp hsorted).1 k hk)
  · rename_i habsent
    apply List.filter_eq_self.mpr
    intro k hk
    exact decide_eq_true (lt_of_search h habsent k hk)

theorem keyIdxPage_eq (h : keys.Pairwise (· < ·)) (after : Bytes) {limit : Nat}
    (hlimit : 0 < limit) :
    keyIdxPage keys after limit = ((keysAfter keys after).take limit,
      if limit < (keysAfter keys after).length then ((keysAfter keys after)[limit - 1]?).getD []
        else []) := by
  have hslice : ∀ start, keys.drop start = keysAfter keys after →
      (if min (start + limit) keys.length ≤ start then ([], []) else
        ((keys.drop start).take (min (start + limit) keys.length - start),
          if min (start + limit) keys.length < keys.length
          then keys.getD (min (start + limit) keys.length - 1) [] else [])) =
      ((keysAfter keys after).take limit,
        if limit < (keysAfter keys after).length then ((keysAfter keys after)[limit - 1]?).getD []
          else []) := by
    intro start hstart
    rw [← hstart]
    split
    · rename_i hle
      have hnil : keys.drop start = [] := List.drop_eq_nil_of_le (by omega)
      simp [hnil]
    · rw [take_slice]
      by_cases hmore : limit < (keys.drop start).length
      · rw [if_pos hmore, if_pos ((slice_lt keys start limit).mpr hmore),
          List.getD_eq_getElem?_getD, getElem?_slice keys start hmore hlimit]
      · rw [if_neg hmore, if_neg ((slice_lt keys start limit).not.mpr hmore)]
  unfold keyIdxPage
  apply hslice
  unfold keysAfter
  by_cases hnil : after = []
  · rw [if_pos hnil, if_pos hnil, List.drop_zero]
  · rw [if_neg hnil, if_neg hnil, filter_lt_eq h]
    dsimp only
    split
    · rfl
    · rfl

end keyIdx

theorem pendingCount_newGroup {cfg : GroupConfig} {g : Group} (h : newGroup cfg = .ok g) :
    g.pendingCount = 0 := by
  simp only [newGroup] at h
  obtain ⟨limiter, -, hret⟩ := bind_ok.mp h
  cases hret
  rfl

structure GroupStats where
  key : Bytes
  pending : Int
  processing : Nat
  deriving DecidableEq, Repr

namespace Queue

def groupStatsPage (q : Queue) (after : Bytes) (limit : Int) : List GroupStats × Bytes :=
  let (keys, next) := keyIdxPage q.keyIdx after (pageLimit limit)
  if keys = [] then ([], [])
  else (keys.filterMap fun key =>
    (q.groups.lookup key).map fun g => ⟨key, g.pendingCount, g.processing.len⟩, next)

structure Indexed (q : Queue) : Prop where
  sorted : q.keyIdx.Pairwise (· < ·)
  active : ∀ key, key ∈ q.keyIdx ↔ (q.groups.lookup key).isSome

variable [PathMatch] {q q' : Queue}

inductive Filled (name ns : Bytes) : Queue → Prop
  | new : Filled name ns (newQueue name ns)
  | imported {ord : RangeOrder} {state : QueueState} {q : Queue}
    (hkeys : ∀ key gs, state.groups.lookup key = some gs → gs.key = key)
    (h : (newQueue name ns).importState ord state = .ok q) : Filled name ns q
  | published {groupKey msgID payload : Bytes} {now : Int} {q q' : Queue}
    {r : Except QueueError Message} (hq : Filled name ns q)
    (h : q.publishWithID groupKey msgID payload now = .ok (q', r)) : Filled name ns q'

inductive Grows : Queue → Queue → Prop
  | refl {q : Queue} : Grows q q
  | publish {q q₁ q' : Queue} {groupKey msgID payload : Bytes} {now : Int}
    {r : Except QueueError Message} (hq : Grows q q₁) (hkey : groupKey ≠ [])
    (h : q₁.publishWithID groupKey msgID payload now = .ok (q', r)) : Grows q q'

/-- The calls of `PageGroupStats` from a cursor on, each with the cursor that the last one returned,
until one returns the empty cursor. -/
inductive Traverses (limit : Int) : Queue → Bytes → List GroupStats → Prop
  | last {q : Queue} {after : Bytes} (hlast : (q.groupStatsPage after limit).2 = []) :
    Traverses limit q after (q.groupStatsPage after limit).1
  | next {q q' : Queue} {after : Bytes} {stats : List GroupStats}
    (hnext : (q.groupStatsPage after limit).2 ≠ []) (hgrows : Grows q q')
    (h : Traverses limit q' (q.groupStatsPage after limit).2 stats) :
    Traverses limit q after ((q.groupStatsPage after limit).1 ++ stats)

omit [PathMatch] in
theorem isSome_lookup_insert {groups : Map Bytes Group} {key key' : Bytes} {g : Group} :
    ((groups.insert key' g).lookup key).isSome = true ↔
      key = key' ∨ (groups.lookup key).isSome = true := by
  rw [AList.lookup_isSome, AList.lookup_isSome, AList.mem_insert]

omit [PathMatch] in
theorem Indexed.new (name ns : Bytes) : (newQueue name ns).Indexed :=
  ⟨.nil, fun _ => ⟨fun h => absurd h List.not_mem_nil, nofun⟩⟩

theorem publishWithID_keyIdx {groupKey msgID payload : Bytes} {now : Int}
    {r : Except QueueError Message} (h : q.publishWithID groupKey msgID payload now = .ok (q', r)) :
    q'.keyIdx = if (q.groups.lookup groupKey).isSome then q.keyIdx
      else keyIdxAdd q.keyIdx groupKey := by
  obtain ⟨g, hg, h⟩ := bind_ok.mp h
  split at h
  · rename_i hfull
    cases h
    -- only a group that was there before can be full
    have hsome : (q.groups.lookup groupKey).isSome = true := by
      unfold groupFor at hg
      cases hl : q.groups.lookup groupKey with
      | some g => rfl
      | none =>
        rw [hl] at hg
        have hempty := pendingCount_newGroup hg
        omega
    rw [if_pos hsome]
    rfl
  · simp only at h
    split at h
    · rename_i hsome
      cases h
      rw [if_pos hsome]
      rfl
    · rename_i hnone
      cases h
      rw [if_neg hnone]

theorem Indexed.publish {groupKey msgID payload : Bytes} {now : Int} {r : Except QueueError Message}
    (hq : q.Indexed) (h : q.publishWithID groupKey msgID payload now = .ok (q', r)) :
    q'.Indexed ∧ ∀ key ∈ q.keyIdx, key ∈ q'.keyIdx := by
  have hactive : ∀ key, (q'.groups.lookup key).isSome = true ↔
      key = groupKey ∨ (q.groups.lookup key).isSome = true := by
    obtain ⟨g, -, ⟨-, -, -, rfl⟩ | ⟨-, keyIdx, rfl⟩⟩ := publishWithID_ok h
    · exact fun key => isSome_lookup_insert
    · exact fun key => isSome_lookup_insert
  have hkeyIdx := publishWithID_keyIdx h
  by_cases hsome : (q.groups.lookup groupKey).isSome = true
  · rw [if_pos hsome] at hkeyIdx
    refine ⟨⟨hkeyIdx ▸ hq.sorted, ?_⟩, fun key hkey => hkeyIdx ▸ hkey⟩
    intro key
    rw [hkeyIdx, hq.active, hactive]
    constructor
    · exact .inr
    · rintro (rfl | hkey)
      · exact hsome
      · exact hkey
  · rw [if_neg hsome] at hkeyIdx
    refine ⟨⟨hkeyIdx ▸ sorted_keyIdxAdd hq.sorted groupKey, ?_⟩, ?_⟩
    swap
    · exact fun key hkey => hkeyIdx ▸ mem_keyIdxAdd.mpr (.inr hkey)
    intro key
    rw [hkeyIdx, mem_keyIdxAdd, hq.active, hactive]

theorem Indexed.imported {name ns : Bytes} {ord : RangeOrder} {state : QueueState}
    (hkeys : ∀ key gs, state.groups.lookup key = some gs → gs.key = key)
    (h : (newQueue name ns).importState ord state = .ok q) : q.Indexed := by
  obtain ⟨q₁, hq₁, hret⟩ := bind_ok.mp h
  cases hret
  have hfst : ((ord.pick state.groups.entries).map Sigma.snd).map GroupState.key =
      (ord.pick state.groups.entries).map Sigma.fst := by
    rw [List.map_map]
    apply List.map_congr_left
    intro e he
    exact hkeys e.1 e.2 (AList.mem_lookup_iff.mpr (ord.mem_pick.mp he))
  have hnodup : ((ord.pick state.groups.entries).map Sigma.fst).Nodup :=
    (List.perm_nodupKeys (ord.perm _)).mpr state.groups.nodupKeys
  have hactive : ∀ key, (q₁.groups.lookup key).isSome = true ↔
      key ∈ ((ord.pick state.groups.entries).map Sigma.snd).map GroupState.key := by
    intro key
    have hall :=
      Run.induct (motive := fun q l => (q.groups.lookup key).isSome = true ∨
        key ∈ l.map GroupState.key ↔
      key ∈ ((ord.pick state.groups.entries).map Sigma.snd).map GroupState.key) ?_ ?_ hq₁
    · simpa using hall
    · intro q gs l q' hq himport
      obtain ⟨g, -, hret⟩ := bind_ok.mp himport
      cases hret
      rw [← hq, List.map_cons, List.mem_cons, setGroup, isSome_lookup_insert, or_assoc,
        or_left_comm]
    · simp [newQueue]
  refine ⟨pairwise_insertionSort (hfst ▸ hnodup), ?_⟩
  intro key
  rw [List.mem_insertionSort]
  exact (hactive key).symm

theorem Indexed.filled {name ns : Bytes} (h : Filled name ns q) : q.Indexed := by
  induction h with
  | new => exact .new name ns
  | imported hkeys h => exact .imported hkeys h
  | published _ h ih => exact (ih.publish h).1

theorem Indexed.grows (hq : q.Indexed) (h : Grows q q') :
    q'.Indexed ∧ ∀ key ∈ q.keyIdx, key ∈ q'.keyIdx := by
  induction h with
  | refl => exact ⟨hq, fun key hkey => hkey⟩
  | publish _ _ h ih =>
    obtain ⟨hidx, hmem⟩ := ih
    obtain ⟨hidx', hmem'⟩ := hidx.publish h
    exact ⟨hidx', fun key hkey => hmem' key (hmem key hkey)⟩

omit [PathMatch] in
theorem Indexed.groupStatsPage_eq (hq : q.Indexed) (after : Bytes) (limit : Int) :
    (q.groupStatsPage after limit).1.map GroupStats.key = (keysAfter q.keyIdx after).take
      (pageLimit limit) ∧
      (q.groupStatsPage after limit).2 = if pageLimit limit < (keysAfter q.keyIdx after).length
        then ((keysAfter q.keyIdx after)[pageLimit limit - 1]?).getD [] else [] := by
  have hpos := pageLimit_pos limit
  rw [groupStatsPage, keyIdxPage_eq hq.sorted after hpos]
  dsimp only
  split
  · rename_i hnil
    have hrest : keysAfter q.keyIdx after = [] := by
      rcases List.take_eq_nil_iff.mp hnil with hzero | hrest
      · omega
      · exact hrest
    simp [hrest]
  · refine ⟨?_, rfl⟩
    have hthere : ∀ key ∈ (keysAfter q.keyIdx after).take (pageLimit limit),
        (q.groups.lookup key).isSome = true :=
      fun key hkey => (hq.active key).mp (mem_keysAfter.mp (List.mem_of_mem_take hkey)).1
    rw [List.map_filterMap, List.filterMap_congr (g := some), List.filterMap_some]
    intro key hkey
    obtain ⟨g, hg⟩ := Option.isSome_iff_exists.mp (hthere key hkey)
    rw [hg]
    rfl

theorem Traverses.covers {limit : Int} {after : Bytes} {stats : List GroupStats}
    (h : Traverses limit q after stats) (hq : q.Indexed)
    (hcursor : after ≠ [] ∨ pageLimit limit ≠ 1 ∨ [] ∉ q.keyIdx) :
    (stats.map GroupStats.key).Pairwise (· < ·) ∧
      (∀ key ∈ stats.map GroupStats.key, after = [] ∨ after < key) ∧
      ∀ key ∈ keysAfter q.keyIdx after, key ∈ stats.map GroupStats.key := by
  induction h with
  | @last q after hlast =>
    obtain ⟨hkeys, hnext⟩ := hq.groupStatsPage_eq after limit
    have hsorted := sorted_keysAfter hq.sorted after
    have hpos := pageLimit_pos limit
    have hall : (keysAfter q.keyIdx after).take (pageLimit limit) = keysAfter q.keyIdx after := by
      apply List.take_of_length_le
      by_contra hmore
      rw [Nat.not_le] at hmore
      -- more keys follow an empty cursor only if the empty key is a page of its own
      obtain ⟨c, hc⟩ : ∃ c, (keysAfter q.keyIdx after)[pageLimit limit - 1]? = some c :=
        ⟨_, List.getElem?_eq_getElem (by omega)⟩
      rw [hlast, if_pos hmore, hc, Option.getD_some] at hnext
      subst hnext
      obtain ⟨hmem, hafter⟩ := mem_keysAfter.mp (List.mem_of_getElem? hc)
      have hnil : after = [] := hafter.resolve_right (List.not_lt_nil after)
      have hone : pageLimit limit = 1 := by
        by_contra hne
        have hlt :=
          List.pairwise_iff_getElem.mp hsorted 0 (pageLimit limit - 1) (by omega)
            (by omega) (by omega)
        rw [(List.getElem?_eq_some_iff.mp hc).2] at hlt
        exact List.not_lt_nil _ hlt
      rcases hcursor with hne | hne | hne
      · exact hne hnil
      · exact hne hone
      · exact hne hmem
    rw [hkeys, hall]
    exact ⟨hsorted, fun key hkey => (mem_keysAfter.mp hkey).2, fun key hkey => hkey⟩
  | @next q q' after stats hnext' hgrows _ ih =>
    obtain ⟨hkeys, hnext⟩ := hq.groupStatsPage_eq after limit
    obtain ⟨hq', hkept⟩ := hq.grows hgrows
    have hsorted := sorted_keysAfter hq.sorted after
    obtain ⟨hpage, habove, hcovers⟩ := ih hq' (.inl hnext')
    rw [hnext] at hnext' habove hcovers
    rw [ite_ne_right_iff] at hnext'
    obtain ⟨hmore, hnext'⟩ := hnext'
    obtain ⟨c, hc⟩ : ∃ c, (keysAfter q.keyIdx after)[pageLimit limit - 1]? = some c :=
      ⟨_, List.getElem?_eq_getElem (by omega)⟩
    rw [if_pos hmore, hc, Option.getD_some] at habove hcovers
    rw [hc, Option.getD_some] at hnext'
    obtain ⟨hbefore, hafter⟩ := page_split hsorted (pageLimit_pos limit) hc
    have habove : ∀ key ∈ stats.map GroupStats.key, c < key :=
      fun key hkey => (habove key hkey).resolve_left hnext'
    have hcmem := (mem_keysAfter.mp (List.mem_of_getElem? hc)).2
    rw [List.map_append, hkeys]
    refine ⟨List.pairwise_append.mpr ⟨hsorted.take, hpage, ?_⟩, ?_, ?_⟩
    · intro a ha b hb
      rcases hbefore a ha with rfl | hlt
      · exact habove b hb
      · exact List.lt_trans hlt (habove b hb)
    · intro key hkey
      rcases List.mem_append.mp hkey with hkey | hkey
      · exact (mem_keysAfter.mp (List.mem_of_mem_take hkey)).2
      · exact hcmem.imp_right fun hlt => List.lt_trans hlt (habove key hkey)
    · intro key hkey
      rw [← List.take_append_drop (pageLimit limit) (keysAfter q.keyIdx after)] at hkey
      rcases List.mem_append.mp hkey with hkey | hkey
      · exact List.mem_append_left _ hkey
      · apply List.mem_append_right
        apply hcovers
        have hold := (mem_keysAfter.mp (List.mem_of_mem_drop hkey)).1
        exact mem_keysAfter.mpr ⟨hkept key hold, .inr (hafter key hkey)⟩

/-- Paging over the groups repeats nothing and misses nothing, unless the empty key is a page of its
own: its cursor would be the one that ends the traversal. -/
theorem paging_covers_groups {name ns : Bytes} (h : Filled name ns q) : q.Indexed ∧
    ∀ (limit : Int) (stats : List GroupStats), Traverses limit q [] stats →
      (pageLimit limit ≠ 1 ∨ q.groups.lookup [] = none) →
      (stats.map GroupStats.key).Pairwise (· < ·) ∧
        ∀ key, (q.groups.lookup key).isSome → (stats.map GroupStats.key).count key = 1 := by
  have hq := Indexed.filled h
  refine ⟨hq, ?_⟩
  intro limit stats htraverses hempty
  have hcursor : pageLimit limit ≠ 1 ∨ [] ∉ q.keyIdx := by
    refine hempty.imp_right ?_
    intro hnone hmem
    rw [hq.active, hnone] at hmem
    cases hmem
  obtain ⟨hsorted, -, hcovers⟩ := htraverses.covers hq (.inr hcursor)
  refine ⟨hsorted, ?_⟩
  intro key hkey
  exact List.count_eq_one_of_mem (nodup_of_lt hsorted)
    (hcovers key (mem_keysAfter.mpr ⟨(hq.active key).mpr hkey, .inl rfl⟩))

theorem Traverses.ofPage {limit : Int} {after cursor : Bytes} {page stats : List GroupStats}
    (hpage : q.groupStatsPage after limit = (page, cursor)) (hcursor : cursor ≠ [])
    (hgrows : Grows q q') (h : Traverses limit q' cursor stats) :
    Traverses limit q after (page ++ stats) := by
  obtain ⟨rfl, rfl⟩ := Prod.ext_iff.mp hpage
  exact .next hcursor hgrows h

theorem Traverses.ofLast {limit : Int} {after : Bytes} {page : List GroupStats}
    (hpage : q.groupStatsPage after limit = (page, [])) : Traverses limit q after page := by
  obtain ⟨rfl, hcursor⟩ := Prod.ext_iff.mp hpage
  exact .last hcursor

def threeGroups (first second third : Bytes) : Except Panic (Queue × Queue) := do
  let (q, _) ← (newQueue [] []).publishWithID first (str "m") [] 0
  let (q, _) ← q.publishWithID second (str "m") [] 0
  let (q', _) ← q.publishWithID third (str "m") [] 0
  return (q, q')

theorem threeGroups_ok {first second third : Bytes}
    (h : threeGroups first second third = .ok (q, q')) (hthird : third ≠ []) :
    Filled [] [] q ∧ Grows q q' := by
  obtain ⟨⟨q₁, r₁⟩, hfirst, h⟩ := bind_ok.mp h
  obtain ⟨⟨q₂, r₂⟩, hsecond, h⟩ := bind_ok.mp h
  obtain ⟨⟨q₃, r₃⟩, hlast, h⟩ := bind_ok.mp h
  cases h
  exact ⟨.published (.published .new hfirst) hsecond, .publish .refl hthird hlast⟩

end Queue

theorem paging_covers_groups_sample : ∃ q stats, @Queue.Filled literalMatch [] [] q ∧
    @Queue.Traverses literalMatch 1 q [] stats ∧ (pageLimit 1 ≠ 1 ∨ q.groups.lookup [] = none) ∧
    stats.map GroupStats.key = [str "a", str "b", str "c"] ∧
    (stats.map GroupStats.key).Pairwise (· < ·) := by
  obtain ⟨⟨q, q'⟩, hgroups, hfirst, hsecond, hthird, hempty⟩ : ∃ s,
      @Queue.threeGroups literalMatch (str "a") (str "b") (str "c") = .ok s ∧
        s.1.groupStatsPage [] 1 = ([⟨str "a", 1, 0⟩], str "a") ∧
        s.2.groupStatsPage (str "a") 1 = ([⟨str "b", 1, 0⟩], str "b") ∧
        s.2.groupStatsPage (str "b") 1 = ([⟨str "c", 1, 0⟩], []) ∧
          (s.1.groups.lookup []).isNone = true :=
    exists_ok (by decide +kernel)
  obtain ⟨hfilled, hgrows⟩ := @Queue.threeGroups_ok literalMatch q q' _ _ _ hgroups (by decide)
  have htraverses := @Queue.Traverses.ofPage literalMatch _ _ _ _ _ _ _ hfirst (by decide) hgrows
    (@Queue.Traverses.ofPage literalMatch _ _ _ _ _ _ _ hsecond (by decide)
      (@Queue.Grows.refl literalMatch q') (@Queue.Traverses.ofLast literalMatch _ _ _ _ hthird))
  have hkey : pageLimit 1 ≠ 1 ∨ q.groups.lookup [] = none :=
    .inr (Option.isNone_iff_eq_none.mp hempty)
  refine ⟨q, _, hfilled, htraverses, hkey, rfl, ?_⟩
  exact ((@Queue.paging_covers_groups literalMatch q [] [] hfilled).2 1 _ htraverses hkey).1

/-- The traversal by pages of one ends with the group of the empty key. -/
theorem paging_stops_at_empty_key : ∃ q stats, @Queue.Filled literalMatch [] [] q ∧
    @Queue.Traverses literalMatch 1 q [] stats ∧ (q.groups.lookup (str "b")).isSome = true ∧
    str "b" ∉ stats.map GroupStats.key := by
  obtain ⟨⟨q, q'⟩, hgroups, hfirst, hb⟩ : ∃ s,
      @Queue.threeGroups literalMatch [] (str "b") (str "c") = .ok s ∧
        s.1.groupStatsPage [] 1 = ([⟨[], 1, 0⟩], []) ∧
          (s.1.groups.lookup (str "b")).isSome = true :=
    exists_ok (by decide +kernel)
  obtain ⟨hfilled, -⟩ := @Queue.threeGroups_ok literalMatch q q' _ _ _ hgroups (by decide)
  exact ⟨q, _, hfilled, @Queue.Traverses.ofLast literalMatch _ _ _ _ hfirst, hb, by decide⟩

end Octar
