import Octar.Queue.Redelivery

namespace Octar

open Go

def idsOfKind (kind : Occurrence → Bool) (os : List (Bytes × Occurrence)) : List Bytes :=
  (os.filter fun o => kind o.2).map Prod.fst

theorem idsOfKind_append (kind : Occurrence → Bool) (os os' : List (Bytes × Occurrence)) :
    idsOfKind kind (os ++ os') = idsOfKind kind os ++ idsOfKind kind os' := by
  rw [idsOfKind, List.filter_append, List.map_append]
  rfl

theorem idsOfKind_eq_nil {kind : Occurrence → Bool} {os : List (Bytes × Occurrence)}
    (h : ∀ o ∈ os, kind o.2 = false) : idsOfKind kind os = [] := by
  rw [idsOfKind, List.filter_eq_nil_iff.mpr, List.map_nil]
  intro o ho
  rw [h o ho]
  exact Bool.false_ne_true

theorem idsOfKind_append_none {kind : Occurrence → Bool} {os' : List (Bytes × Occurrence)}
    (h : idsOfKind kind os' = []) (os : List (Bytes × Occurrence)) :
    idsOfKind kind (os ++ os') = idsOfKind kind os := by
  rw [idsOfKind_append, h, List.append_nil]

theorem idsOfKind_map (kind : Occurrence → Bool) (o : Occurrence) (ids : List Bytes) :
    idsOfKind kind (ids.map (·, o)) = if kind o = true then ids else [] := by
  rw [idsOfKind, List.filter_map, List.map_map]
  split
  · rename_i h
    simp [Function.comp_def, h]
  · rename_i h
    simp [Function.comp_def, h]

theorem mem_idsOfKind {kind : Occurrence → Bool} {os : List (Bytes × Occurrence)} {id : Bytes} :
    id ∈ idsOfKind kind os ↔ ∃ o, (id, o) ∈ os ∧ kind o = true := by
  simp [idsOfKind]

theorem idsOfKind_returned {kind : Occurrence → Bool} (hkind : kind .returned = false)
    {os : List (Bytes × Occurrence)} (hos : ∀ o ∈ os, o.2 = .returned) :
    idsOfKind kind os = [] := by
  apply idsOfKind_eq_nil
  intro o ho
  rw [hos o ho]
  exact hkind

namespace Occurrence

def isPublished : Occurrence → Bool
  | .published => true
  | _ => false

def isHanded : Occurrence → Bool
  | .handed _ _ => true
  | _ => false

def isSettled : Occurrence → Bool
  | .settled => true
  | _ => false

end Occurrence

inductive GroupAct
  | complete (msgID : Bytes)
  | fail (msgID errMsg : Bytes) (now : Int)
  | returnToPending (msgID : Bytes)
  | promoteDelayed (ord : RangeOrder) (now : Int)
  | sweepGroup (ord : RangeOrder) (now : Int)
  | nextDispatchable (now : Int)
  | setCounters (deficit quantum : Int)
  | applyConfig (cfg : GroupConfig) (key : Bytes)

def GroupConfig.AppliesTo [PathMatch] (cfg : GroupConfig) (key : Bytes) : Prop :=
  if isGlobPattern cfg.key then cfg.matchesKey key = true else cfg.key = key

instance [PathMatch] (cfg : GroupConfig) (key : Bytes) : Decidable (cfg.AppliesTo key) :=
  inferInstanceAs (Decidable (if isGlobPattern cfg.key = true then cfg.matchesKey key = true
    else cfg.key = key))

namespace LiveOp

def failKey : LiveOp → Option Bytes
  | .fail groupKey .. | .failAndNext groupKey .. => some groupKey
  | _ => none

def Does [PathMatch] (op : LiveOp) (key : Bytes) : GroupAct → Prop
  | .fail _ _ now => op.failKey = some key ∧ op.clock = some now
  | .promoteDelayed _ now | .sweepGroup _ now | .nextDispatchable now => op.clock = some now
  | .applyConfig cfg _ =>
    ∃ c : GroupConfig, op = .setGroupConfig c ∧ c.AppliesTo key ∧ cfg.parallelism = c.parallelism
  | .complete _ | .returnToPending _ | .setCounters _ _ => True

end LiveOp

namespace Group

def act (g : Group) : GroupAct → Except Panic (Group × List (Bytes × Occurrence))
  | .complete msgID => .ok ((g.complete msgID).1, g.completes msgID)
  | .fail msgID errMsg now => do
    let (g', _) ← g.fail msgID errMsg now
    return (g', g.fails msgID now)
  | .returnToPending msgID => .ok (g.returnToPending msgID, [(msgID, .returned)])
  | .promoteDelayed ord now => .ok ((g.promoteDelayed ord now).1, [])
  | .sweepGroup ord now => .ok (Queue.sweepGroup ord now g, [])
  | .nextDispatchable now => do
    let (g', d) ← g.nextDispatchable now
    return (g', g.hands now d.msg.toList)
  | .setCounters deficit quantum => .ok ({ g with deficit := deficit, quantum := quantum }, [])
  | .applyConfig cfg key => .ok (Queue.applyConfig cfg key g, [])

inductive Acts (P : GroupAct → Prop) (g : Group) : List (Bytes × Occurrence) → Group → Prop
  | nil : Acts P g [] g
  | snoc {g₁ g' : Group} {os os' : List (Bytes × Occurrence)} (h : Acts P g os g₁) (a : GroupAct)
    (ha : P a) (hact : g₁.act a = .ok (g', os')) : Acts P g (os ++ os') g'

theorem idsOfKind_completes {kind : Occurrence → Bool} (hkind : kind .settled = false) (g : Group)
    (id : Bytes) :
    idsOfKind kind (g.completes id) = [] := by
  unfold completes
  split
  · simp [idsOfKind, hkind]
  · rfl

theorem idsOfKind_fails {kind : Occurrence → Bool} (hkind : kind .settled = false)
    (hfailed : ∀ now attempt delay, kind (.failed now attempt delay) = false) (g : Group)
    (id : Bytes) (now : Int) : idsOfKind kind (g.fails id now) = [] := by
  unfold fails
  split
  · split
    · split
      · simp [idsOfKind, hfailed]
      · rfl
    · simp [idsOfKind, hkind]
  · rfl

theorem idsOfKind_hands {kind : Occurrence → Bool}
    (hkind : ∀ now lease, kind (.handed now lease) = false) (g : Group) (now : Int)
    (batch : List Message) : idsOfKind kind (g.hands now batch) = [] := by
  apply idsOfKind_eq_nil
  intro o ho
  obtain ⟨m, -, rfl⟩ := List.mem_map.mp ho
  exact hkind _ _

theorem handed_hands (g : Group) (now : Int) (batch : List Message) :
    idsOfKind Occurrence.isHanded (g.hands now batch) = batch.map Message.id := by
  rw [idsOfKind, hands, List.filter_eq_self.mpr, List.map_map]
  · rfl
  · intro o ho
    obtain ⟨m, -, rfl⟩ := List.mem_map.mp ho
    rfl

variable {P : GroupAct → Prop} {g g₁ g' : Group} {os : List (Bytes × Occurrence)}

theorem act_published {a : GroupAct} (h : g.act a = .ok (g', os)) :
    idsOfKind Occurrence.isPublished os = [] := by
  cases a with
  | complete id =>
    cases h
    exact idsOfKind_completes rfl g id
  | fail id errMsg now =>
    obtain ⟨⟨g₁, dlq⟩, -, hret⟩ := bind_ok.mp h
    cases hret
    exact idsOfKind_fails rfl (fun _ _ _ => rfl) g id now
  | nextDispatchable now =>
    obtain ⟨⟨g₁, d⟩, -, hret⟩ := bind_ok.mp h
    cases hret
    exact idsOfKind_hands (fun _ _ => rfl) g now _
  | returnToPending | promoteDelayed | sweepGroup | setCounters | applyConfig =>
    cases h
    rfl

theorem Acts.published (h : Acts P g os g') : idsOfKind Occurrence.isPublished os = [] := by
  induction h with
  | nil => rfl
  | snoc _ a _ hact ih => rw [idsOfKind_append, ih, act_published hact, List.nil_append]

theorem Acts.one (a : GroupAct) (ha : P a) (hact : g.act a = .ok (g', os)) : Acts P g os g' :=
  .snoc .nil a ha hact

theorem Acts.trans {os' : List (Bytes × Occurrence)} (h : Acts P g os g₁) (h' : Acts P g₁ os' g') :
    Acts P g (os ++ os') g' := by
  induction h' with
  | nil => rwa [List.append_nil]
  | snoc _ a ha hact ih =>
    rw [← List.append_assoc]
    exact .snoc ih a ha hact

theorem Acts.induct {motive : Group → List (Bytes × Occurrence) → Prop}
    {seen : List (Bytes × Occurrence)}
    (hstep : ∀ g os a g' os', motive g os → P a → g.act a = .ok (g', os') → motive g' (os ++ os'))
    (hinit : motive g seen) (h : Acts P g os g') : motive g' (seen ++ os) := by
  induction h with
  | nil => rwa [List.append_nil]
  | snoc _ a ha hact ih =>
    rw [← List.append_assoc]
    exact hstep _ _ a _ _ ih ha hact

theorem Acts.keeps {I : Group → Prop}
    (hstep : ∀ g a g' os, I g → P a → g.act a = .ok (g', os) → I g') (hinit : I g)
    (h : Acts P g os g') : I g' := by
  induction h with
  | nil => exact hinit
  | snoc _ a ha hact ih => exact hstep _ a _ _ ih ha hact

structure Lasting (I : Group → Prop) : Prop where
  complete : ∀ {g : Group} (id : Bytes), I g → I (g.complete id).1
  fail : ∀ {g g' : Group} {id errMsg : Bytes} {now : Int} {dlq : Option Message}, I g →
    g.fail id errMsg now = .ok (g', dlq) → I g'
  returnToPending : ∀ {g : Group} (id : Bytes), I g → I (g.returnToPending id)
  promoteDelayed : ∀ {g : Group} (ord : RangeOrder) (now : Int), I g →
    I (g.promoteDelayed ord now).1
  nextDispatchable : ∀ {g g' : Group} {now : Int} {d : Dispatch}, I g →
    g.nextDispatchable now = .ok (g', d) → I g'
  settings : ∀ {g : Group} (cfg : GroupConfig) (deficit quantum : Int), I g →
    I { g with cfg := cfg, deficit := deficit, quantum := quantum }

theorem Lasting.sweepGroup {I : Group → Prop} (hI : Lasting I) (hg : I g) (ord : RangeOrder)
    (now : Int) :
    I (Queue.sweepGroup ord now g) := by
  unfold Queue.sweepGroup
  induction Queue.expiredIDs g ord now generalizing g with
  | nil => exact hg
  | cons id ids ih => exact ih (hI.returnToPending id hg)

theorem Lasting.act {I : Group → Prop} (hI : Lasting I) (hg : I g) {a : GroupAct}
    (hact : g.act a = .ok (g', os)) :
    I g' := by
  cases a with
  | complete id =>
    cases hact
    exact hI.complete id hg
  | fail id errMsg now =>
    obtain ⟨⟨g₁, dlq⟩, hfail, hret⟩ := bind_ok.mp hact
    cases hret
    exact hI.fail hg hfail
  | returnToPending id =>
    cases hact
    exact hI.returnToPending id hg
  | promoteDelayed ord now =>
    cases hact
    exact hI.promoteDelayed ord now hg
  | sweepGroup ord now =>
    cases hact
    exact hI.sweepGroup hg ord now
  | nextDispatchable now =>
    obtain ⟨⟨g₁, d⟩, hnext, hret⟩ := bind_ok.mp hact
    cases hret
    exact hI.nextDispatchable hg hnext
  | setCounters deficit quantum =>
    cases hact
    exact hI.settings g.cfg deficit quantum hg
  | applyConfig cfg key =>
    cases hact
    exact hI.settings { cfg with key := key } g.deficit cfg.quantum hg

structure Frees (g g' : Group) : Prop where
  cfg : g'.cfg = g.cfg
  limiter : g'.limiter = g.limiter
  len_le : g'.processing.len ≤ g.processing.len

theorem complete_frees (g : Group) (id : Bytes) : Frees g (g.complete id).1 := by
  unfold complete
  split
  · exact ⟨rfl, rfl, Nat.le_refl _⟩
  · exact ⟨rfl, rfl, NilMap.len_delete_le _ _⟩

theorem returnToPending_frees (g : Group) (id : Bytes) : Frees g (g.returnToPending id) := by
  unfold returnToPending
  split
  · exact ⟨rfl, rfl, Nat.le_refl _⟩
  · exact ⟨rfl, rfl, NilMap.len_delete_le _ _⟩

theorem sweepGroup_frees (g : Group) (ord : RangeOrder) (now : Int) :
    Frees g (Queue.sweepGroup ord now g) := by
  unfold Queue.sweepGroup
  induction Queue.expiredIDs g ord now generalizing g with
  | nil => exact ⟨rfl, rfl, Nat.le_refl _⟩
  | cons id l ih =>
    have hone := returnToPending_frees g id
    have hrest := ih (g.returnToPending id)
    exact ⟨hrest.cfg.trans hone.cfg, hrest.limiter.trans hone.limiter,
      hrest.len_le.trans hone.len_le⟩

theorem promoteDelayed_frees (g : Group) (ord : RangeOrder) (now : Int) :
    Frees g (g.promoteDelayed ord now).1 := by
  obtain ⟨expired, due, h⟩ := promoteDelayed_spec g ord now
  have hle : (g.promoteDelayed ord now).1.inFlight ≤ g.inFlight := by
    rw [h.inFlight]
    exact Multiset.le_add_left _ _
  refine ⟨h.cfg, h.limiter, ?_⟩
  rw [NilMap.len_eq_card, NilMap.len_eq_card]
  exact Multiset.card_le_card hle

theorem fail_frees {id errMsg : Bytes} {now : Int} {dlq : Option Message}
    (h : g.fail id errMsg now = .ok (g', dlq)) : Frees g g' := by
  cases fail_cases h with
  | absent none same letter =>
    subst same
    exact ⟨rfl, rfl, Nat.le_refl _⟩
  | retries m delay found more delayed put letter =>
    subst put
    exact ⟨rfl, rfl, NilMap.len_delete_le _ _⟩
  | drops m found exhausted dropped letter =>
    subst dropped
    exact ⟨rfl, rfl, NilMap.len_delete_le _ _⟩

theorem popReady_frame (n : Nat) (g : Group) :
    ∃ ready readyHead, (popReady n g).1 = { g with ready := ready, readyHead := readyHead } := by
  induction n generalizing g with
  | zero => exact ⟨g.ready, g.readyHead, rfl⟩
  | succ n ih =>
    simp only [popReady]
    split
    · exact ⟨g.ready, g.readyHead, rfl⟩
    · split
      · exact ⟨_, _, rfl⟩
      · obtain ⟨ready, readyHead, h⟩ := ih
          { g with ready := g.ready.set g.readyHead none, readyHead := g.readyHead + 1 }
        exact ⟨ready, readyHead, h⟩

theorem takeWaiting_frame {now : Int} {d : Dispatch} (h : g.takeWaiting now = .ok (g', d)) :
    g'.cfg = g.cfg ∧ g'.limiter = g.limiter ∧ g'.delayed = g.delayed ∧
      (d.msg = none ∧ g'.processing = g.processing ∨
        ∃ m, g'.processing = some (g.processing.table.insert m.id (g.leased m now))) := by
  unfold takeWaiting at h
  split at h
  · split at h
    · rename_i msg hslot
      obtain ⟨⟨g₁, m₁⟩, hlease, hret⟩ := bind_ok.mp h
      cases hret
      obtain ⟨-, -, rfl⟩ := lease_ok hlease
      exact ⟨rfl, rfl, rfl, .inr ⟨msg, rfl⟩⟩
    · cases h
  · simp only at h
    obtain ⟨ready, readyHead, hpop⟩ := popReady_frame (g.ready.length - g.readyHead)
      { g with urgent := [], urgentHead := 0 }
    split at h
    · rename_i g₁ m₁ heq
      obtain ⟨⟨g₂, m₂⟩, hlease, hret⟩ := bind_ok.mp h
      cases hret
      obtain ⟨-, -, rfl⟩ := lease_ok hlease
      rw [heq] at hpop
      cases hpop
      exact ⟨rfl, rfl, rfl, .inr ⟨m₁, rfl⟩⟩
    · rename_i g₁ heq
      cases h
      rw [heq] at hpop
      cases hpop
      exact ⟨rfl, rfl, rfl, .inl ⟨rfl, rfl⟩⟩

theorem nextDispatchable_capacity {now : Int} {d : Dispatch}
    (h : g.nextDispatchable now = .ok (g', d)) :
    d.msg = none ∨ (g.processing.len : Int) < g.cfg.parallelism := by
  unfold nextDispatchable at h
  split at h
  · cases h
    exact .inl rfl
  · rename_i hlt
    exact .inr (Int.not_le.mp hlt)

theorem nextDispatchable_frame {now : Int} {d : Dispatch}
    (h : g.nextDispatchable now = .ok (g', d)) :
    g'.cfg = g.cfg ∧ g'.delayed = g.delayed := by
  unfold nextDispatchable at h
  split at h
  · cases h
    exact ⟨rfl, rfl⟩
  · split at h
    · obtain ⟨hcfg, -, hdelayed, -⟩ := takeWaiting_frame h
      exact ⟨hcfg, hdelayed⟩
    · obtain ⟨⟨l, allowed, wakeAt⟩, -, h⟩ := bind_ok.mp h
      simp only at h
      split at h
      · obtain ⟨hcfg, -, hdelayed, -⟩ := takeWaiting_frame h
        exact ⟨hcfg, hdelayed⟩
      · cases h
        exact ⟨rfl, rfl⟩

theorem nextDispatchable_cfg {now : Int} {d : Dispatch} (h : g.nextDispatchable now = .ok (g', d)) :
    g'.cfg = g.cfg := (nextDispatchable_frame h).1

theorem next_acts {now : Int} {msg : Option Message} (ha : P (.nextDispatchable now))
    (h : g.next now = .ok (g', msg)) : Acts P g (g.hands now msg.toList) g' := by
  obtain ⟨⟨g₁, d⟩, hd, hret⟩ := bind_ok.mp h
  cases hret
  exact .one (.nextDispatchable now) ha (bind_ok.mpr ⟨_, hd, rfl⟩)

theorem promoteNext_acts {ord : RangeOrder} {now : Int} {msg : Option Message}
    (hpromote : P (.promoteDelayed ord now)) (hnext : P (.nextDispatchable now))
    (h : (g.promoteDelayed ord now).1.next now = .ok (g', msg)) :
    Acts P g (g.hands now msg.toList) g' := by
  have hp : Acts P g [] (g.promoteDelayed ord now).1 := .one (.promoteDelayed ord now) hpromote rfl
  have hn := next_acts hnext h
  rw [hands_congr (promoteDelayed_frees g ord now).cfg] at hn
  exact hp.trans hn

theorem drainRound_acts {ord : RangeOrder} {now : Int} {r : DrainResult}
    (hpromote : P (.promoteDelayed ord now)) (hnext : P (.nextDispatchable now))
    (hcounters : ∀ deficit quantum, P (.setCounters deficit quantum))
    (h : g.drainRound ord now = .ok (g', r)) : Acts P g (g.hands now (r.ready.getD [])) g' := by
  refine (drainRound_induct
    (motive := fun g' batch => g'.cfg = g.cfg ∧ Acts P g (g.hands now batch) g') ?_ ?_ ?_ h).2
  · intro g₁ g₂ d batch ⟨hcfg, hacts⟩ hd
    refine ⟨(nextDispatchable_cfg hd).trans hcfg, ?_⟩
    have hact : g₁.act (.nextDispatchable now) = .ok (g₂, g₁.hands now d.msg.toList) :=
      bind_ok.mpr ⟨_, hd, rfl⟩
    rw [hands_congr hcfg] at hact
    rw [hands, List.map_append]
    exact hacts.snoc (.nextDispatchable now) hnext hact
  · intro g₁ batch deficit quantum ⟨hcfg, hacts⟩
    refine ⟨hcfg, ?_⟩
    have h := hacts.snoc (.setCounters deficit quantum) (hcounters deficit quantum) rfl
    rwa [List.append_nil] at h
  · exact ⟨(promoteDelayed_frees g ord now).cfg, .one (.promoteDelayed ord now) hpromote rfl⟩

end Group

namespace Queue

variable [PathMatch]

inductive ActsOn (op : LiveOp) (key : Bytes) (q q' : Queue) (os : List (Bytes × Occurrence)) : Prop
  | absent (before : q.groups.lookup key = none) (after : q'.groups.lookup key = none)
    (seen : ∀ o ∈ os, o.2 = .returned)
  | created {g : Group} (before : q.groups.lookup key = none)
    (new : newGroup (q.resolveConfig key) = .ok g) (after : q'.groups.lookup key = some g)
    (seen : os = [])
  | accepted {g : Group} (m : Message) (publishes : op.publishKey = some key)
    (id : op.publishID = some m.id)
    (before : q.groups.lookup key = some g ∨ q.groups.lookup key = none ∧
      newGroup (q.resolveConfig key) = .ok g) (after : q'.groups.lookup key = some (g.enqueue m))
    (seen : os = [(m.id, .published)])
  | changed {g g' : Group} (before : q.groups.lookup key = some g)
    (after : q'.groups.lookup key = some g') (acts : g.Acts (op.Does key) os g')

variable {op : LiveOp} {q q' : Queue} {key : Bytes}

theorem ActsOn.ofSame (key : Bytes) (h : q'.groups.lookup key = q.groups.lookup key) :
    ActsOn op key q q' [] := by
  cases hl : q.groups.lookup key with
  | none => exact .absent hl (h.trans hl) (by simp)
  | some g => exact .changed hl (h.trans hl) .nil

theorem ActsOn.ofGroup {key₀ : Bytes} {g g' : Group} {os : List (Bytes × Occurrence)}
    (hl : q.groups.lookup key₀ = some g) (hgroups : q'.groups = q.groups.insert key₀ g')
    (hacts : g.Acts (op.Does key₀) os g') (key : Bytes) :
    ActsOn op key q q' (happeningsOf key (happened key₀ os)) := by
  rw [happeningsOf_happened]
  split
  · rename_i hk
    subst hk
    exact .changed hl (by rw [hgroups, AList.lookup_insert]) hacts
  · rename_i hk
    exact .ofSame key (by rw [hgroups, AList.lookup_insert_ne hk])

theorem ActsOn.ofMap {f : Bytes → Group → Group} (hgroups : q'.groups = Map.mapTo q.groups f)
    (h : ∀ g, (f key g = g) ∨ ∃ a, op.Does key a ∧ g.act a = .ok (f key g, [])) :
    ActsOn op key q q' [] := by
  cases hl : q.groups.lookup key with
  | none => exact .absent hl (by rw [hgroups, Map.lookup_mapTo, hl]; rfl) (by simp)
  | some g =>
    have hafter : q'.groups.lookup key = some (f key g) := by
      rw [hgroups, Map.lookup_mapTo, hl]
      rfl
    rcases h g with heq | ⟨a, ha, hact⟩
    · exact .changed hl (heq ▸ hafter) .nil
    · exact .changed hl hafter (.one a ha hact)

theorem publishWithID_actsOn {key₀ id payload : Bytes} {now : Int} {r : Except QueueError Message}
    (hkey : op.publishKey = some key₀) (hid : op.publishID = some id)
    (h : q.publishWithID key₀ id payload now = .ok (q', r)) (key : Bytes) :
    ActsOn op key q q'
      (happeningsOf key (happened key₀ ((Reply.published r).accepted.map fun m =>
        (m.id, .published)))) := by
  obtain ⟨g, hg, hcases⟩ := publishWithID_ok h
  have hgroup := groupFor_cases hg
  rw [happeningsOf_happened]
  split
  · rename_i hk
    subst hk
    rcases hcases with ⟨-, -, rfl, rfl⟩ | ⟨rfl, keyIdx, rfl⟩
    · rcases hgroup with hl | ⟨hl, hnew⟩
      · exact .changed hl (lookup_setGroup q key g) .nil
      · exact .created hl hnew (lookup_setGroup q key g) rfl
    · exact .accepted _ hkey hid hgroup (AList.lookup_insert _) rfl
  · rename_i hk
    rcases hcases with ⟨-, -, rfl, rfl⟩ | ⟨rfl, keyIdx, rfl⟩
    · exact .ofSame key (lookup_setGroup_ne q g hk)
    · exact .ofSame key (AList.lookup_insert_ne hk)

theorem tryDispatchOne_actsOn {key₀ : Bytes} {ord : RangeOrder} {now : Int} {msg : Option Message}
    (hclock : op.clock = some now) (h : q.tryDispatchOne key₀ ord now = .ok (q', msg))
    (key : Bytes) :
    ActsOn op key q q' (happeningsOf key (q.inGroupOf key₀ fun g => g.hands now msg.toList)) := by
  obtain ⟨hl, rfl, -⟩ | ⟨g, g', hl, hn, rfl⟩ := tryDispatchOne_ok h
  · rw [inGroupOf_none hl]
    exact .ofSame key rfl
  · rw [inGroupOf_some hl]
    exact .ofGroup hl rfl (Group.promoteNext_acts hclock hclock hn) key

theorem drainGroup_actsOn {key₀ : Bytes} {ord : RangeOrder} {now : Int} {r : DrainResult}
    (hclock : op.clock = some now) (h : q.drainGroup key₀ ord now = .ok (q', r)) (key : Bytes) :
    ActsOn op key q q' (happeningsOf key
      (q.inGroupOf key₀ fun g => g.hands now (r.ready.getD []))) := by
  obtain ⟨hl, rfl, -⟩ | ⟨g, g', hl, hd, rfl⟩ := drainGroup_ok h
  · rw [inGroupOf_none hl]
    exact .ofSame key rfl
  · rw [inGroupOf_some hl]
    exact .ofGroup hl rfl (Group.drainRound_acts hclock hclock (fun _ _ => trivial) hd) key

theorem complete_actsOn (op : LiveOp) (key₀ id key : Bytes) :
    ActsOn op key q (q.complete key₀ id).1
      (happeningsOf key (q.inGroupOf key₀ fun g => g.completes id)) := by
  obtain ⟨hl, heq⟩ | ⟨g, hl, heq⟩ := complete_eq q key₀ id
  · rw [heq, inGroupOf_none hl]
    exact .ofSame key rfl
  · rw [heq, inGroupOf_some hl]
    exact .ofGroup hl rfl (.one (.complete id) trivial rfl) key

theorem completeAndNext_actsOn {key₀ id : Bytes} {ord : RangeOrder} {now : Int}
    {msg : Option Message} (hclock : op.clock = some now)
    (h : q.completeAndNext key₀ id ord now = .ok (q', msg)) (key : Bytes) :
    ActsOn op key q q'
      (happeningsOf key (q.inGroupOf key₀ fun g => g.completes id ++ g.hands now msg.toList)) := by
  obtain ⟨hl, rfl, -⟩ | ⟨g, g', hl, hn, rfl⟩ := completeAndNext_ok h
  · rw [inGroupOf_none hl]
    exact .ofSame key rfl
  · have hc : g.Acts (op.Does key₀) (g.completes id) (g.complete id).1 :=
      .one (.complete id) trivial rfl
    have hnext : (g.complete id).1.Acts (op.Does key₀) _ g' :=
      Group.promoteNext_acts hclock hclock hn
    rw [Group.hands_congr (Group.complete_frees g id).cfg] at hnext
    rw [inGroupOf_some hl]
    exact .ofGroup hl rfl (hc.trans hnext) key

theorem fail_actsOn {key₀ id errMsg : Bytes} {now : Int}
    {r : Except QueueError (Option (Bytes × Message))} (hkey : op.failKey = some key₀)
    (hclock : op.clock = some now) (h : q.fail key₀ id errMsg now = .ok (q', r)) (key : Bytes) :
    ActsOn op key q q' (happeningsOf key (q.inGroupOf key₀ fun g => g.fails id now)) := by
  obtain ⟨hl, rfl, -⟩ | ⟨g, g', dlq, hl, hf, -, rfl⟩ := fail_ok h
  · rw [inGroupOf_none hl]
    exact .ofSame key rfl
  · rw [inGroupOf_some hl]
    exact .ofGroup hl rfl (.one (.fail id errMsg now) ⟨hkey, hclock⟩ (bind_ok.mpr ⟨_, hf, rfl⟩)) key

theorem failAndNext_actsOn {key₀ id errMsg : Bytes} {ord : RangeOrder} {now : Int}
    {r : Option (Bytes × Message) × Option Message} (hkey : op.failKey = some key₀)
    (hclock : op.clock = some now) (h : q.failAndNext key₀ id errMsg ord now = .ok (q', r))
    (key : Bytes) :
    ActsOn op key q q'
      (happeningsOf key (q.inGroupOf key₀ fun g => g.fails id now ++ g.hands now r.2.toList)) := by
  obtain ⟨hl, rfl, -⟩ | ⟨g, g₁, g', dlq, hl, hf, -, hn, rfl⟩ := failAndNext_ok h
  · rw [inGroupOf_none hl]
    exact .ofSame key rfl
  · have hc : g.Acts (op.Does key₀) (g.fails id now) g₁ :=
      .one (.fail id errMsg now) ⟨hkey, hclock⟩ (bind_ok.mpr ⟨_, hf, rfl⟩)
    have hnext : g₁.Acts (op.Does key₀) _ g' := Group.promoteNext_acts hclock hclock hn
    rw [Group.hands_congr (Group.fail_frees hf).cfg] at hnext
    rw [inGroupOf_some hl]
    exact .ofGroup hl rfl (hc.trans hnext) key

theorem returnToPending_actsOn (op : LiveOp) (key₀ id key : Bytes) :
    ActsOn op key q (q.returnToPending key₀ id) (happeningsOf key [⟨key₀, id, .returned⟩]) := by
  obtain ⟨hl, heq⟩ | ⟨g, hl, heq⟩ := returnToPending_eq q key₀ id
  all_goals rw [heq]
  · -- a call on a group that does not exist is seen all the same
    have hseen := happeningsOf_happened key₀ key [(id, .returned)]
    rw [happened, List.map_singleton] at hseen
    rw [hseen]
    split
    · rename_i hk
      subst hk
      exact .absent hl hl (by simp)
    · exact .ofSame key rfl
  · exact .ofGroup hl rfl (.one (.returnToPending id) trivial rfl) key

theorem installConfig_actsOn (c cfg : GroupConfig) (hkey : cfg.key = c.key)
    (hparallel : cfg.parallelism = c.parallelism) (key : Bytes) :
    ActsOn (.setGroupConfig c) key q (q.installConfig cfg) [] := by
  have hmatches : cfg.matchesKey key = c.matchesKey key := by
    rw [GroupConfig.matchesKey, hkey, GroupConfig.matchesKey]
  unfold installConfig
  simp only
  split
  · rename_i hglob
    refine .ofMap (f := fun key g => if cfg.matchesKey key then applyConfig cfg key g else g) rfl ?_
    intro g
    split
    · rename_i hm
      refine .inr ⟨.applyConfig cfg key, ⟨c, rfl, ?_, hparallel⟩, rfl⟩
      rw [GroupConfig.AppliesTo, if_pos (hkey ▸ hglob), ← hmatches]
      exact hm
    · exact .inl rfl
  · rename_i hglob
    split
    · rename_i g hl
      have hdoes : (LiveOp.setGroupConfig c).Does cfg.key (.applyConfig cfg cfg.key) := by
        refine ⟨c, rfl, ?_, hparallel⟩
        rw [GroupConfig.AppliesTo, if_neg (hkey ▸ hglob), hkey]
      have hgroups : ({ q with cfgIdx := q.cfgIdx.set cfg }.setGroup cfg.key
          (applyConfig cfg cfg.key g)).groups =
          q.groups.insert cfg.key (applyConfig cfg cfg.key g) := rfl
      exact ActsOn.ofGroup hl hgroups (.one (.applyConfig cfg cfg.key) hdoes rfl) key
    · exact .ofSame key rfl

def EachGroup (I : Group → Prop) (q : Queue) : Prop := ∀ key g, q.groups.lookup key = some g → I g

theorem exec_actsOn {r : Reply} (h : q.exec op = .ok (q', r)) (key : Bytes) :
    ActsOn op key q q' (happeningsOf key (q.happenings r op)) := by
  cases op with
  | publish key₀ payload id now =>
    obtain ⟨⟨q₁, r₁⟩, hq, hret⟩ := bind_ok.mp h
    cases hret
    exact publishWithID_actsOn rfl rfl hq key
  | publishWithID key₀ id payload now =>
    obtain ⟨⟨q₁, r₁⟩, hq, hret⟩ := bind_ok.mp h
    cases hret
    exact publishWithID_actsOn rfl rfl hq key
  | tryDispatchOne key₀ ord now =>
    obtain ⟨⟨q₁, r₁⟩, hq, hret⟩ := bind_ok.mp h
    cases hret
    exact tryDispatchOne_actsOn rfl hq key
  | drainGroup key₀ ord now =>
    obtain ⟨⟨q₁, r₁⟩, hq, hret⟩ := bind_ok.mp h
    cases hret
    exact drainGroup_actsOn rfl hq key
  | complete key₀ id =>
    cases h
    exact complete_actsOn _ key₀ id key
  | completeAndNext key₀ id ord now =>
    obtain ⟨⟨q₁, r₁⟩, hq, hret⟩ := bind_ok.mp h
    cases hret
    exact completeAndNext_actsOn rfl hq key
  | fail key₀ id err now =>
    obtain ⟨⟨q₁, r₁⟩, hq, hret⟩ := bind_ok.mp h
    cases hret
    exact fail_actsOn rfl rfl hq key
  | failAndNext key₀ id err ord now =>
    obtain ⟨⟨q₁, r₁⟩, hq, hret⟩ := bind_ok.mp h
    cases hret
    exact failAndNext_actsOn rfl rfl hq key
  | returnToPending key₀ id =>
    cases h
    exact returnToPending_actsOn _ key₀ id key
  | sweepExpiredLeases ord now =>
    cases h
    exact .ofMap (f := fun _ => sweepGroup ord now) rfl fun g =>
      .inr ⟨.sweepGroup ord now, rfl, rfl⟩
  | setGroupConfig c =>
    cases h
    refine installConfig_actsOn c _ ?_ ?_ key
    all_goals split <;> rfl
  | deleteGroupConfig key₀ =>
    cases h
    exact .ofSame key rfl

theorem EachGroup.exec {I : Group → Prop} {r : Reply} (hq : q.EachGroup I)
    (h : q.exec op = .ok (q', r)) (hnew : ∀ key g, newGroup (q.resolveConfig key) = .ok g → I g)
    (henqueue : ∀ g m, op.publishID = some m.id → I g → I (g.enqueue m))
    (hact : ∀ key a, op.Does key a → ∀ g g' os, I g → g.act a = .ok (g', os) → I g') :
    q'.EachGroup I := by
  intro key g' hg'
  cases exec_actsOn h key with
  | absent before after seen => cases after.symm.trans hg'
  | created before new after seen =>
    cases after.symm.trans hg'
    exact hnew key _ new
  | accepted m publishes id before after seen =>
    cases after.symm.trans hg'
    apply henqueue _ m id
    rcases before with before | ⟨-, new⟩
    · exact hq key _ before
    · exact hnew key _ new
  | changed before after acts =>
    cases after.symm.trans hg'
    exact acts.keeps (fun g a g₁ os hg hdoes hstep => hact key a hdoes g g₁ os hg hstep)
      (hq key _ before)

end Queue

def LiveOp.configure : LiveOp → ConfigIdx → ConfigIdx
  | .setGroupConfig cfg, ci => ci.set (if cfg.quantum ≤ 0 then { cfg with quantum := 1 } else cfg)
  | .deleteGroupConfig key, ci => (ci.del key).1
  | _, ci => ci

namespace Queue

variable [PathMatch] {q q' : Queue} {op : LiveOp} {r : Reply}

theorem publishWithID_cfgIdx {key id payload : Bytes} {now : Int} {r : Except QueueError Message}
    (h : q.publishWithID key id payload now = .ok (q', r)) : q'.cfgIdx = q.cfgIdx := by
  obtain ⟨g, -, ⟨-, -, -, rfl⟩ | ⟨-, keyIdx, rfl⟩⟩ := publishWithID_ok h
  · rfl
  · rfl

theorem installConfig_cfgIdx (q : Queue) (cfg : GroupConfig) :
    (q.installConfig cfg).cfgIdx = q.cfgIdx.set cfg := by
  unfold installConfig
  simp only
  split
  · rfl
  · split <;> rfl

theorem exec_cfgIdx (h : q.exec op = .ok (q', r)) : q'.cfgIdx = op.configure q.cfgIdx := by
  cases op with
  | publish key payload id now =>
    obtain ⟨⟨q₁, r₁⟩, hq, hret⟩ := bind_ok.mp h
    cases hret
    exact publishWithID_cfgIdx hq
  | publishWithID key id payload now =>
    obtain ⟨⟨q₁, r₁⟩, hq, hret⟩ := bind_ok.mp h
    cases hret
    exact publishWithID_cfgIdx hq
  | tryDispatchOne key ord now =>
    obtain ⟨⟨q₁, r₁⟩, hq, hret⟩ := bind_ok.mp h
    cases hret
    obtain ⟨-, rfl, -⟩ | ⟨g, g', -, -, rfl⟩ := tryDispatchOne_ok hq <;> rfl
  | drainGroup key ord now =>
    obtain ⟨⟨q₁, r₁⟩, hq, hret⟩ := bind_ok.mp h
    cases hret
    obtain ⟨-, rfl, -⟩ | ⟨g, g', -, -, rfl⟩ := drainGroup_ok hq <;> rfl
  | complete key id =>
    cases h
    obtain ⟨-, heq⟩ | ⟨g, -, heq⟩ := complete_eq q key id
    all_goals rw [heq]; rfl
  | completeAndNext key id ord now =>
    obtain ⟨⟨q₁, r₁⟩, hq, hret⟩ := bind_ok.mp h
    cases hret
    obtain ⟨-, rfl, -⟩ | ⟨g, g', -, -, rfl⟩ := completeAndNext_ok hq <;> rfl
  | fail key id err now =>
    obtain ⟨⟨q₁, r₁⟩, hq, hret⟩ := bind_ok.mp h
    cases hret
    obtain ⟨-, rfl, -⟩ | ⟨g, g', dlq, -, -, -, rfl⟩ := fail_ok hq <;> rfl
  | failAndNext key id err ord now =>
    obtain ⟨⟨q₁, r₁⟩, hq, hret⟩ := bind_ok.mp h
    cases hret
    obtain ⟨-, rfl, -⟩ | ⟨g, g₁, g', dlq, -, -, -, -, rfl⟩ := failAndNext_ok hq <;> rfl
  | returnToPending key id =>
    cases h
    obtain ⟨-, heq⟩ | ⟨g, -, heq⟩ := returnToPending_eq q key id
    all_goals rw [heq]; rfl
  | sweepExpiredLeases ord now =>
    cases h
    rfl
  | setGroupConfig cfg =>
    cases h
    exact installConfig_cfgIdx q _
  | deleteGroupConfig key =>
    cases h
    rfl

end Queue

/-- What holds along a run of one group, with what was seen of it: true of a new group, kept when a
message that was not published before is enqueued and by every act that an operation of the run
does.  `C` is what the run keeps of the group configs. -/
structure GroupInvariant [PathMatch] (ops : List LiveOp) (key : Bytes) (C : ConfigIdx → Prop)
    (I : Group → List (Bytes × Occurrence) → Prop) : Prop where
  configured : ∀ op ∈ ops, ∀ ci, C ci → C (op.configure ci)
  new : ∀ q : Queue, C q.cfgIdx → ∀ g os, newGroup (q.resolveConfig key) = .ok g →
    (∀ o ∈ os, o.2 = .returned) → I g os
  enqueue : ∀ g os m, I g os → m.id ∉ idsOfKind Occurrence.isPublished os →
    I (g.enqueue m) (os ++ [(m.id, .published)])
  act : ∀ op ∈ ops, ∀ a, op.Does key a → ∀ g os g' os', I g os →
    g.act a = .ok (g', os') → I g' (os ++ os')

namespace WatchedRun

def Unseen (key : Bytes) (s : WatchedRun) : Prop :=
  s.queue.groups.lookup key = none → ∀ o ∈ happeningsOf key s.history, o.2 = .returned

theorem Unseen.step [PathMatch] {key : Bytes} {op : LiveOp} {s s' : WatchedRun} (h : s.Unseen key)
    (hstep : s.step op = .ok s') : s'.Unseen key := by
  obtain ⟨⟨q, r⟩, hexec, hret⟩ := bind_ok.mp hstep
  cases hret
  intro hnone o ho
  have hhistory := happeningsOf_append key s.history (s.queue.happenings r op)
  rw [hhistory] at ho
  cases Queue.exec_actsOn hexec key with
  | absent before after seen =>
    rcases List.mem_append.mp ho with ho | ho
    · exact h before o ho
    · exact seen o ho
  | created before new after seen => cases after.symm.trans hnone
  | accepted m publishes id before after seen => cases after.symm.trans hnone
  | changed before after acts => cases after.symm.trans hnone

structure Follows (key : Bytes) (C : ConfigIdx → Prop)
    (I : Group → List (Bytes × Occurrence) → Prop) (s : WatchedRun) (l : List LiveOp) : Prop where
  configured : C s.queue.cfgIdx
  fresh : (idsOfKind Occurrence.isPublished (happeningsOf key s.history) ++
    l.filterMap LiveOp.publishID).Nodup
  absent : s.Unseen key
  present : ∀ g, s.queue.groups.lookup key = some g → I g (happeningsOf key s.history)

variable [PathMatch] {key : Bytes} {C : ConfigIdx → Prop}
  {I : Group → List (Bytes × Occurrence) → Prop}

theorem Follows.step {ops l : List LiveOp} {op : LiveOp} {s s' : WatchedRun}
    (hI : GroupInvariant ops key C I) (hop : op ∈ ops) (h : s.Follows key C I (op :: l))
    (hstep : s.step op = .ok s') : s'.Follows key C I l := by
  have habsent := h.absent.step hstep
  obtain ⟨⟨q, r⟩, hexec, hret⟩ := bind_ok.mp hstep
  cases hret
  have hacts := Queue.exec_actsOn hexec key
  have hconfigured : C q.cfgIdx := Queue.exec_cfgIdx hexec ▸ hI.configured op hop _ h.configured
  have hfresh : ∀ os, (idsOfKind Occurrence.isPublished os).Sublist op.publishID.toList →
      (idsOfKind Occurrence.isPublished (happeningsOf key s.history ++ os) ++
        l.filterMap LiveOp.publishID).Nodup := by
    intro os hsub
    have hsplit : (op :: l).filterMap LiveOp.publishID =
        op.publishID.toList ++ l.filterMap LiveOp.publishID := by
      cases hp : op.publishID <;> simp [hp]
    have hnodup := h.fresh
    rw [hsplit, ← List.append_assoc] at hnodup
    rw [idsOfKind_append]
    exact hnodup.sublist ((hsub.append_left _).append_right _)
  have hhistory := happeningsOf_append key s.history (s.queue.happenings r op)
  cases hacts with
  | absent before after seen =>
    have hnone : idsOfKind Occurrence.isPublished (happeningsOf key (s.queue.happenings r op)) =
        [] := idsOfKind_returned rfl seen
    refine ⟨hconfigured, ?_, habsent, ?_⟩
    · rw [hhistory]
      exact hfresh _ (hnone ▸ List.nil_sublist _)
    · intro g hg
      rw [after] at hg
      cases hg
  | created before new after seen =>
    rw [seen, List.append_nil] at hhistory
    refine ⟨hconfigured, ?_, habsent, ?_⟩
    · have h' := hfresh [] (List.nil_sublist _)
      rwa [List.append_nil, ← hhistory] at h'
    · intro g hg
      cases after.symm.trans hg
      rw [hhistory]
      exact hI.new s.queue h.configured _ _ new (h.absent before)
  | @accepted g m publishes id before after seen =>
    rw [seen] at hhistory
    have hg : I g (happeningsOf key s.history) := by
      rcases before with hl | ⟨hl, hnew⟩
      · exact h.present g hl
      · exact hI.new s.queue h.configured g _ hnew (h.absent hl)
    have hnew : m.id ∉ idsOfKind Occurrence.isPublished (happeningsOf key s.history) := by
      intro hmem
      refine List.disjoint_of_nodup_append h.fresh hmem ?_
      rw [List.filterMap_cons_some id]
      exact List.mem_cons_self
    refine ⟨hconfigured, ?_, habsent, ?_⟩
    · rw [hhistory]
      exact hfresh _ (by rw [id]; exact List.Sublist.refl _)
    · intro g' hg'
      cases after.symm.trans hg'
      rw [hhistory]
      exact hI.enqueue g _ m hg hnew
  | changed before after acts =>
    refine ⟨hconfigured, ?_, habsent, ?_⟩
    · rw [hhistory]
      exact hfresh _ (acts.published ▸ List.nil_sublist _)
    · intro g' hg'
      cases after.symm.trans hg'
      rw [hhistory]
      exact acts.induct (fun g os a g' os' hi ha hact => hI.act op hop a ha g os g' os' hi hact)
        (h.present _ before)

theorem published_subset {ops : List LiveOp} {s s' : WatchedRun}
    (h : Go.run WatchedRun.step s ops = .ok s') (key : Bytes) :
    ∀ id ∈ idsOfKind Occurrence.isPublished (happeningsOf key s'.history),
      id ∈ idsOfKind Occurrence.isPublished (happeningsOf key s.history) ∨
        id ∈ ops.filterMap LiveOp.publishID := by
  induction ops generalizing s with
  | nil =>
    cases h
    exact fun id hid => .inl hid
  | cons op ops ih =>
    obtain ⟨s₁, hstep, hrun⟩ := Run.run_cons_ok.mp h
    obtain ⟨⟨q, r⟩, hexec, hret⟩ := bind_ok.mp hstep
    cases hret
    have hsome : ∀ id, op.publishID = some id ∨ id ∈ ops.filterMap LiveOp.publishID →
        id ∈ (op :: ops).filterMap LiveOp.publishID := by
      intro id hid
      rw [List.mem_filterMap]
      rcases hid with hid | hid
      · exact ⟨op, List.mem_cons_self, hid⟩
      · obtain ⟨op', hop', hid⟩ := List.mem_filterMap.mp hid
        exact ⟨op', List.mem_cons_of_mem _ hop', hid⟩
    intro id hid
    rcases ih hrun id hid with hid | hid
    · have hhistory := happeningsOf_append key s.history (s.queue.happenings r op)
      rw [hhistory, idsOfKind_append, List.mem_append] at hid
      refine hid.imp (fun h => h) ?_
      intro hid
      cases Queue.exec_actsOn hexec key with
      | absent before after seen =>
        rw [idsOfKind_returned rfl seen] at hid
        cases hid
      | created before new after seen =>
        rw [seen] at hid
        cases hid
      | accepted m publishes newID before after seen =>
        rw [seen] at hid
        cases List.mem_singleton.mp hid
        exact hsome _ (.inl newID)
      | changed before after acts =>
        rw [acts.published] at hid
        cases hid
    · exact .inr (hsome id (.inr hid))

theorem run_append_history {ops : List LiveOp} {q : Queue} {l : List Happening} {s : WatchedRun}
    (h : Go.run WatchedRun.step ⟨q, l⟩ ops = .ok s) (before : List Happening) :
    Go.run WatchedRun.step ⟨q, before ++ l⟩ ops = .ok ⟨s.queue, before ++ s.history⟩ := by
  induction ops generalizing q l with
  | nil =>
    cases h
    rfl
  | cons op ops ih =>
    obtain ⟨s₁, hstep, hrun⟩ := Run.run_cons_ok.mp h
    obtain ⟨⟨q', r⟩, hexec, hret⟩ := bind_ok.mp hstep
    cases hret
    refine Run.run_cons_ok.mpr ⟨⟨q', before ++ l ++ q.happenings r op⟩,
      bind_ok.mpr ⟨_, hexec, rfl⟩, ?_⟩
    rw [List.append_assoc]
    exact ih hrun

theorem Follows.run {l : List LiveOp} {s s' : WatchedRun} (h : s.Follows key C I l)
    (hI : GroupInvariant l key C I) (hrun : Go.run WatchedRun.step s l = .ok s') :
    s'.Follows key C I [] := by
  have hall :=
    Run.induct (motive := fun s rest => (∀ op ∈ rest, op ∈ l) ∧ s.Follows key C I rest) ?_
    ⟨fun op hop => hop, h⟩ hrun
  · exact hall.2
  · rintro s op rest s' ⟨hmem, hf⟩ hstep
    rw [List.forall_mem_cons] at hmem
    exact ⟨hmem.2, hf.step hI hmem.1 hstep⟩

end WatchedRun

theorem runWatched_follows [PathMatch] {name ns key : Bytes} {ops : List LiveOp} {s : WatchedRun}
    {C : ConfigIdx → Prop} {I : Group → List (Bytes × Occurrence) → Prop}
    (hI : GroupInvariant ops key C I) (hC : C newConfigIdx)
    (hids : (ops.filterMap LiveOp.publishID).Nodup) (h : runWatched name ns ops = .ok s) :
    s.Follows key C I [] := by
  have hstart : (WatchedRun.start name ns).Follows key C I ops := by
    refine ⟨hC, hids, fun _ o ho => (nomatch ho), ?_⟩
    intro g hg
    cases hg
  exact hstart.run hI h

end Octar
