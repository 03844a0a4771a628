import Octar.Queue.Limits
import Mathlib.Data.Finset.Card
import Mathlib.Data.List.DropRight

namespace Octar

open Go

section Room

variable {κ : Type} [DecidableEq κ]

/-- How many of the keys, one after another, a set of at most `cap` elements has room for; a key
that is in it already takes no new place. -/
def room (cap : Int) : Finset κ → List κ → Nat
  | _, [] => 0
  | busy, k :: ks => if (busy.card : Int) < cap then room cap (insert k busy) ks + 1 else 0

theorem room_of_nodup (cap : Int) {busy : Finset κ} {ks : List κ} (hks : ks.Nodup)
    (hbusy : ∀ k ∈ ks, k ∉ busy) :
    room cap busy ks = min ks.length (cap - busy.card).toNat := by
  induction ks generalizing busy with
  | nil => simp [room]
  | cons k ks ih =>
    obtain ⟨hk, hks⟩ := List.nodup_cons.mp hks
    have hcard : (insert k busy).card = busy.card + 1 :=
      Finset.card_insert_of_notMem (hbusy k List.mem_cons_self)
    have hrest : ∀ k' ∈ ks, k' ∉ insert k busy := by
      intro k' hk'
      rw [Finset.mem_insert, not_or]
      exact ⟨fun heq => hk (heq ▸ hk'), hbusy k' (List.mem_cons_of_mem _ hk')⟩
    rw [room, ih hks hrest, hcard, List.length_cons]
    split <;> omega

end Room

def permit (now : Int) :
    Option SlidingWindowLimiter → Except Panic (Option SlidingWindowLimiter × Bool × Int)
  | none => .ok (none, true, zeroTime)
  | some l => do
    let (l, allowed, wakeAt) ← l.allow now
    return (some l, allowed, wakeAt)

def permits (now : Int) : Nat → Option SlidingWindowLimiter → Bool
  | 0, _ => true
  | n + 1, l =>
    match permit now l with
    | .ok (l', true, _) => permits now n l'
    | _ => false

def granted (now : Int) (n : Nat) : Option SlidingWindowLimiter → Nat
  | none => n
  | some l => min n (l.max - Window.countFrom (now - l.window) l.events).toNat

namespace SlidingWindowLimiter

variable {l : SlidingWindowLimiter} {now : Int}

theorem allow_of_lt (h : ((Window.current l.window now l.events).length : Int) < l.max) :
    l.allow now = .ok ({ l with events := Window.current l.window now l.events ++ [now] },
      true, zeroTime) :=
  if_neg (Int.not_le.mpr h)

theorem allow_total (hmax : 1 ≤ l.max) (now : Int) : ∃ r, l.allow now = .ok r := by
  unfold allow
  simp only
  split
  · rename_i hfull
    split
    · rename_i hnil
      rw [hnil] at hfull
      exact absurd (hmax.trans hfull) (by simp)
    · exact ⟨_, rfl⟩
  · exact ⟨_, rfl⟩

theorem permits_some (hwindow : 0 ≤ l.window) (n : Nat) :
    permits now n (some l) = true ↔
      n = 0 ∨ ((Window.current l.window now l.events).length : Int) + n ≤ l.max := by
  induction n generalizing l with
  | zero => simp [permits]
  | succ n ih =>
    by_cases hlt : ((Window.current l.window now l.events).length : Int) < l.max
    · -- what was just counted is in the window
      have hcurrent := Window.current_append_now now hwindow l.events
      have hpermits : permits now (n + 1) (some l) =
          permits now n
            (some { l with events := Window.current l.window now l.events ++ [now] }) := by
        rw [permits, permit, allow_of_lt hlt]
        rfl
      have hrest :=
        ih (l := { l with events := Window.current l.window now l.events ++ [now] }) hwindow
      rw [hpermits, hrest, hcurrent, List.length_append]
      simp only [List.length_singleton]
      omega
    · have hrefused : permits now (n + 1) (some l) = false := by
        rw [permits, permit]
        cases hallow : l.allow now with
        | error e => rfl
        | ok r =>
          rcases allow_spec hallow with ⟨hfalse, -⟩ | ⟨-, hroom, -⟩
          · obtain ⟨l', allowed, wakeAt⟩ := r
            cases hfalse
            rfl
          · exact absurd hroom hlt
      rw [hrefused]
      simp only [Bool.false_eq_true, false_iff]
      omega

end SlidingWindowLimiter

theorem permits_succ {now : Int} {n : Nat} {l : Option SlidingWindowLimiter} :
    permits now (n + 1) l = true ↔ ∃ l' wakeAt, permit now l = .ok (l', true, wakeAt) ∧
      permits now n l' = true := by
  rw [permits]
  constructor
  · intro h
    split at h
    · rename_i l' wakeAt hpermit
      exact ⟨l', wakeAt, hpermit, h⟩
    · cases h
  · rintro ⟨l', wakeAt, hpermit, h⟩
    rw [hpermit]
    exact h

theorem permits_of_succ {now : Int} {n : Nat} {l : Option SlidingWindowLimiter}
    (h : permits now (n + 1) l = true) : permits now n l = true := by
  induction n generalizing l with
  | zero => rfl
  | succ n ih =>
    obtain ⟨l', wakeAt, hpermit, hrest⟩ := permits_succ.mp h
    exact permits_succ.mpr ⟨l', wakeAt, hpermit, ih hrest⟩

theorem permit_refused {now : Int} {l l' l'' : Option SlidingWindowLimiter} {w w' : Int}
    (h : permit now l = .ok (l', false, w)) (h' : permit now l' = .ok (l'', true, w')) : False := by
  cases l with
  | none => cases h
  | some l =>
    obtain ⟨⟨l₁, allowed, w₁⟩, hallow, hret⟩ := bind_ok.mp h
    cases hret
    obtain ⟨⟨l₂, allowed, w₂⟩, hallow', hret⟩ := bind_ok.mp h'
    cases hret
    rcases SlidingWindowLimiter.allow_spec hallow with ⟨-, hfull, rfl⟩ | ⟨hfalse, -⟩
    · rcases SlidingWindowLimiter.allow_spec hallow' with ⟨hfalse, -⟩ | ⟨-, hroom, -⟩
      · cases hfalse
      · have hcurrent : Window.current l.window now (Window.current l.window now l.events) =
            Window.current l.window now l.events := List.dropWhile_idempotent _ _
        rw [hcurrent] at hroom
        exact absurd hroom (Int.not_lt.mpr hfull)
    · cases hfalse

theorem permits_none (now : Int) (n : Nat) : permits now n none = true := by
  induction n with
  | zero => rfl
  | succ n ih => exact ih

def SlidingWindowLimiter.Ascending (l : SlidingWindowLimiter) : Prop :=
  1 ≤ l.max ∧ 0 ≤ l.window ∧ l.events.Pairwise (· ≤ ·)

theorem permits_iff_granted {limiter : Option SlidingWindowLimiter} (h : ∀ l ∈ limiter, l.Ascending)
    (now : Int) (n m : Nat) (hle : n ≤ m) :
    permits now n limiter = true ↔ n ≤ granted now m limiter := by
  cases limiter with
  | none =>
    rw [permits_none, granted]
    exact ⟨fun _ => hle, fun _ => rfl⟩
  | some l =>
    obtain ⟨-, hwindow, hascending⟩ := h l rfl
    rw [SlidingWindowLimiter.permits_some hwindow, Window.length_current hascending, granted]
    omega

theorem permit_total {limiter : Option SlidingWindowLimiter} (h : ∀ l ∈ limiter, 1 ≤ l.max)
    (now : Int) :
    ∃ r, permit now limiter = .ok r := by
  cases limiter with
  | none => exact ⟨_, rfl⟩
  | some l =>
    obtain ⟨r, hr⟩ := l.allow_total (h l rfl) now
    exact ⟨_, bind_ok.mpr ⟨r, hr, rfl⟩⟩

theorem permit_max {now : Int} {l l' : Option SlidingWindowLimiter} {allowed : Bool} {w : Int}
    (h : permit now l = .ok (l', allowed, w)) (hmax : ∀ x ∈ l, 1 ≤ x.max) :
    ∀ x ∈ l', 1 ≤ x.max := by
  cases l with
  | none =>
    cases h
    exact hmax
  | some l =>
    obtain ⟨⟨l₁, allowed, w₁⟩, hallow, hret⟩ := bind_ok.mp h
    cases hret
    intro x hx
    cases hx
    rcases SlidingWindowLimiter.allow_spec hallow with ⟨-, -, rfl⟩ | ⟨-, -, rfl⟩
    · exact hmax l rfl
    · exact hmax l rfl

namespace Group

def line (g : Group) : List Message := g.liveUrgent.reduceOption ++ g.liveReady.reduceOption

def busy (g : Group) : Finset Bytes := g.processing.table.keys.toFinset

theorem card_busy (g : Group) : g.busy.card = g.processing.len := by
  rw [busy, List.toFinset_card_of_nodup g.processing.table.keys_nodup]
  exact List.length_map _

theorem busy_insert {g g' : Group} {m : Message} {id : Bytes}
    (h : g'.processing = some (g.processing.table.insert id m)) : g'.busy = insert id g.busy := by
  ext id'
  rw [busy, h, NilMap.table_some, List.mem_toFinset, Finset.mem_insert, busy, List.mem_toFinset,
    ← AList.mem_keys, AList.mem_insert, AList.mem_keys]

structure Lined (g : Group) : Prop where
  urgentHead_le : g.urgentHead ≤ g.urgent.length
  readyHead_le : g.readyHead ≤ g.ready.length
  urgent_full : none ∉ g.liveUrgent
  allocated : g.processing.isSome

variable {g g' : Group} {now : Int} {d : Dispatch}

theorem Wf.lined (h : g.Wf) : g.Lined :=
  ⟨h.urgentHead_le, h.readyHead_le, h.urgent_full, h.allocated⟩

theorem lease_total (h : g.processing.isSome) (m : Message) (now : Int) :
    ∃ r, g.lease m now = .ok r := by
  obtain ⟨t, ht⟩ := Option.isSome_iff_exists.mp h
  refine ⟨({ g with processing := some (t.insert m.id (g.leased m now)) }, g.leased m now), ?_⟩
  unfold lease
  rw [ht]
  rfl

theorem Lined.takeWaiting_total (h : g.Lined) (now : Int) : ∃ r, g.takeWaiting now = .ok r := by
  unfold takeWaiting
  split
  · rename_i hlt
    have hslot := List.getElem?_eq_getElem hlt
    cases hm : g.urgent[g.urgentHead] with
    | none =>
      have hmem : g.urgent[g.urgentHead] ∈ g.liveUrgent := by
        rw [liveUrgent, List.drop_eq_getElem_cons hlt]
        exact List.mem_cons_self
      exact absurd (hm ▸ hmem) h.urgent_full
    | some m =>
      rw [hslot, hm]
      obtain ⟨r, hr⟩ := lease_total (g := { g with
        urgent := g.urgent.set g.urgentHead none, urgentHead := g.urgentHead + 1 })
          h.allocated m now
      exact ⟨_, bind_ok.mpr ⟨r, hr, rfl⟩⟩
  · simp only
    split
    · rename_i g₁ m hpop
      obtain ⟨ready, readyHead, hg⟩ := popReady_frame (g.ready.length - g.readyHead)
        { g with urgent := [], urgentHead := 0 }
      rw [hpop] at hg
      simp only at hg
      obtain ⟨r, hr⟩ := lease_total (g := g₁) (by rw [hg]; exact h.allocated) m now
      exact ⟨_, bind_ok.mpr ⟨r, hr, rfl⟩⟩
    · exact ⟨_, rfl⟩

inductive Takes (now : Int) (g g' : Group) (d : Dispatch) : Prop
  | handed (m : Message) (line : g.line = m :: g'.line) (msg : d.msg = some (g.leased m now))
    (processing : g'.processing = some (g.processing.table.insert m.id (g.leased m now)))
  | empty (line : g.line = []) (line' : g'.line = []) (msg : d.msg = none)
    (processing : g'.processing = g.processing)

theorem takeWaiting_stop (h : g.takeWaiting now = .ok (g', d)) : d.stop = .empty := by
  unfold takeWaiting at h
  split at h
  · split at h
    · obtain ⟨⟨g₁, m₁⟩, -, hret⟩ := bind_ok.mp h
      cases hret
      rfl
    · cases h
  · simp only at h
    split at h
    · obtain ⟨⟨g₁, m₁⟩, -, hret⟩ := bind_ok.mp h
      cases hret
      rfl
    · cases h
      rfl

theorem takeWaiting_none (hr : g.readyHead ≤ g.ready.length) (h : g.takeWaiting now = .ok (g', d))
    (hmsg : d.msg = none) : g.line = [] ∧ g'.line = [] := by
  unfold takeWaiting at h
  split at h
  · split at h
    · obtain ⟨⟨g₁, m₁⟩, -, hret⟩ := bind_ok.mp h
      cases hret
      cases hmsg
    · cases h
  · rename_i hlt
    have hurgent : g.liveUrgent = [] := List.drop_of_length_le (Nat.le_of_not_lt hlt)
    obtain ⟨ready, readyHead, hg, -, hpopped⟩ := popReady_spec (g.ready.length - g.readyHead)
      { g with urgent := [], urgentHead := 0 } (Nat.le_refl _) hr
    simp only at h
    split at h
    · obtain ⟨⟨g₁, m₁⟩, -, hret⟩ := bind_ok.mp h
      cases hret
      cases hmsg
    · rename_i g₁ hpop
      rw [hpop] at hg hpopped
      simp only at hg hpopped
      cases h
      have hready : g.liveReady.reduceOption = [] := reduceOption_eq_nil hpopped
      refine ⟨?_, by rw [hg]; rfl⟩
      rw [line, hurgent, hready]
      rfl

theorem Lined.takeWaiting (h : g.Lined) (hd : g.takeWaiting now = .ok (g', d)) :
    Takes now g g' d ∧ SameFrame g g' ∧ g'.Lined := by
  cases takeWaiting_ok hd h.readyHead_le with
  | urgent m msg urgent ready processing allocated frame =>
    have hline : g.line = m :: g'.line := by
      rw [line, line, urgent, ready, List.reduceOption_cons_of_some, List.cons_append]
    refine ⟨.handed m hline msg processing, frame, frame.urgentHead_le h.urgentHead_le,
      frame.readyHead_le h.readyHead_le, ?_, by rw [processing]; rfl⟩
    intro hnone
    exact h.urgent_full (urgent ▸ List.mem_cons_of_mem _ hnone)
  | ready m k msg urgent urgent' ready processing allocated frame =>
    have hline : g.line = m :: g'.line := by
      rw [line, line, urgent, urgent', ready, reduceOption_replicate_none,
        List.reduceOption_cons_of_some]
      rfl
    refine ⟨.handed m hline msg processing, frame, frame.urgentHead_le h.urgentHead_le,
      frame.readyHead_le h.readyHead_le, ?_, by rw [processing]; rfl⟩
    rw [urgent']
    exact List.not_mem_nil
  | refused msg urgent ready processing frame =>
    obtain ⟨hline, hline'⟩ := takeWaiting_none h.readyHead_le hd msg
    exact ⟨.empty hline hline' msg processing, frame, frame.urgentHead_le h.urgentHead_le,
      frame.readyHead_le h.readyHead_le, urgent ▸ h.urgent_full, processing ▸ h.allocated⟩

inductive Poll (now : Int) (g g' : Group) (d : Dispatch) : Prop
  | capacity (full : g.cfg.parallelism ≤ g.processing.len) (same : g' = g)
    (answer : d = ⟨none, .capacity, zeroTime⟩)
  | rateLimited (l : Option SlidingWindowLimiter) (wakeAt : Int)
    (free : (g.processing.len : Int) < g.cfg.parallelism)
    (refused : permit now g.limiter = .ok (l, false, wakeAt)) (same : g' = { g with limiter := l })
    (answer : d = ⟨none, .rateLimited, wakeAt⟩)
  | taken (l : Option SlidingWindowLimiter) (wakeAt : Int)
    (free : (g.processing.len : Int) < g.cfg.parallelism)
    (granted : permit now g.limiter = .ok (l, true, wakeAt)) (limiter : g'.limiter = l)
    (takes : Takes now g g' d) (stop : d.stop = .empty)

theorem nextDispatchable_permit (g : Group) (now : Int)
    (free : (g.processing.len : Int) < g.cfg.parallelism) : g.nextDispatchable now = do
      let (l, allowed, wakeAt) ← permit now g.limiter
      if allowed then ({ g with limiter := l }).takeWaiting now
      else return ({ g with limiter := l }, ⟨none, .rateLimited, wakeAt⟩) := by
  rw [nextDispatchable, if_neg (Int.not_le.mpr free)]
  cases hl : g.limiter with
  | none =>
    simp only [permit]
    rw [← hl]
    rfl
  | some l =>
    simp only [permit]
    cases l.allow now <;> rfl

theorem Lined.setLimiter (h : g.Lined) (l : Option SlidingWindowLimiter) :
    { g with limiter := l }.Lined :=
  ⟨h.urgentHead_le, h.readyHead_le, h.urgent_full, h.allocated⟩

theorem Lined.poll (h : g.Lined) (hd : g.nextDispatchable now = .ok (g', d)) :
    Poll now g g' d ∧ SameFrame g g' ∧ g'.Lined := by
  by_cases free : (g.processing.len : Int) < g.cfg.parallelism
  · rw [nextDispatchable_permit g now free] at hd
    obtain ⟨⟨l, allowed, wakeAt⟩, hpermit, hd⟩ := bind_ok.mp hd
    cases allowed with
    | false =>
      cases hd
      exact ⟨.rateLimited l wakeAt free hpermit rfl rfl,
        ⟨rfl, rfl, rfl, rfl, id, id⟩, h.setLimiter l⟩
    | true =>
      obtain ⟨htakes, frame, hlined⟩ := (h.setLimiter l).takeWaiting hd
      have hlimiter := (takeWaiting_frame hd).2.1
      refine ⟨.taken l wakeAt free hpermit hlimiter ?_ (takeWaiting_stop hd), ?_, hlined⟩
      · cases htakes with
        | handed m line msg processing => exact .handed m line msg processing
        | empty line line' msg processing => exact .empty line line' msg processing
      · exact ⟨frame.1, frame.2, frame.3, frame.4, frame.5, frame.6⟩
  · rw [nextDispatchable, if_pos (Int.not_lt.mp free)] at hd
    cases hd
    exact ⟨.capacity (Int.not_lt.mp free) rfl rfl, ⟨rfl, rfl, rfl, rfl, id, id⟩, h⟩

theorem Lined.poll_total (h : g.Lined) (hpermit : ∃ r, permit now g.limiter = .ok r) :
    ∃ r, g.nextDispatchable now = .ok r := by
  by_cases free : (g.processing.len : Int) < g.cfg.parallelism
  · rw [nextDispatchable_permit g now free]
    obtain ⟨⟨l, allowed, wakeAt⟩, hpermit⟩ := hpermit
    cases allowed with
    | false => exact ⟨_, bind_ok.mpr ⟨_, hpermit, rfl⟩⟩
    | true =>
      obtain ⟨r, hr⟩ := (h.setLimiter l).takeWaiting_total now
      exact ⟨r, bind_ok.mpr ⟨_, hpermit, hr⟩⟩
  · rw [nextDispatchable, if_pos (Int.not_lt.mp free)]
    exact ⟨_, rfl⟩

structure Affords (now : Int) (n : Nat) (g : Group) : Prop where
  room : n ≤ Octar.room g.cfg.parallelism g.busy (g.line.map Message.id)
  permits : Octar.permits now n g.limiter = true

theorem affords_zero (now : Int) (g : Group) : g.Affords now 0 := ⟨Nat.zero_le _, rfl⟩

theorem Affords.of_succ {n : Nat} (h : g.Affords now (n + 1)) : g.Affords now n :=
  ⟨Nat.le_of_succ_le h.room, permits_of_succ h.permits⟩

theorem Lined.affords_succ {n : Nat} (h : g.Lined) : g.Affords now (n + 1) ↔
    ∃ g' d, g.nextDispatchable now = .ok (g', d) ∧ d.msg.isSome ∧ g'.Affords now n := by
  constructor
  · intro haffords
    obtain ⟨l', w', hpermit, hpermits⟩ := permits_succ.mp haffords.permits
    obtain ⟨⟨g', d⟩, hd⟩ := h.poll_total ⟨_, hpermit⟩
    obtain ⟨hpoll, frame, hlined⟩ := h.poll hd
    have hroom := haffords.room
    cases hline : g.line with
    | nil =>
      rw [hline] at hroom
      cases hroom
    | cons m rest =>
      rw [hline, List.map_cons, room, card_busy] at hroom
      split at hroom
      · rename_i free
        cases hpoll with
        | capacity full same answer => exact absurd free (Int.not_lt.mpr full)
        | rateLimited l wakeAt free refused same answer => cases refused.symm.trans hpermit
        | taken l wakeAt free granted limiter takes stop =>
          cases granted.symm.trans hpermit
          cases takes with
          | empty line line' msg processing => cases line.symm.trans hline
          | handed m' line msg processing =>
            cases line.symm.trans hline
            refine ⟨g', d, hd, by rw [msg]; rfl, ?_, ?_⟩
            · rw [frame.cfg, busy_insert processing]
              exact Nat.le_of_succ_le_succ hroom
            · rw [limiter]
              exact hpermits
      · cases hroom
  · rintro ⟨g', d, hd, hmsg, haffords⟩
    obtain ⟨hpoll, frame, hlined⟩ := h.poll hd
    cases hpoll with
    | capacity full same answer => rw [answer] at hmsg; cases hmsg
    | rateLimited l wakeAt free refused same answer => rw [answer] at hmsg; cases hmsg
    | taken l wakeAt free granted limiter takes stop =>
      cases takes with
      | empty line line' msg processing => rw [msg] at hmsg; cases hmsg
      | handed m line msg processing =>
        have hroom := haffords.room
        rw [frame.cfg, busy_insert processing] at hroom
        refine ⟨?_, ?_⟩
        · rw [line, List.map_cons, room, card_busy, if_pos free]
          exact Nat.succ_le_succ hroom
        · exact permits_succ.mpr ⟨l, wakeAt, granted, limiter ▸ haffords.permits⟩

theorem Lined.affords_handed {n : Nat} (h : g.Lined) (hd : g.nextDispatchable now = .ok (g', d))
    (hmsg : d.msg.isSome) : g.Affords now (n + 1) ↔ g'.Affords now n := by
  rw [h.affords_succ]
  constructor
  · rintro ⟨g₁, d₁, hd₁, -, haffords⟩
    cases hd.symm.trans hd₁
    exact haffords
  · intro haffords
    exact ⟨g', d, hd, hmsg, haffords⟩

theorem Lined.not_affords (h : g.Lined) (hd : g.nextDispatchable now = .ok (g', d))
    (hmsg : d.msg = none) (n : Nat) : ¬ g.Affords now (n + 1) ∧ ¬ g'.Affords now (n + 1) := by
  constructor
  · intro haffords
    obtain ⟨g₁, d₁, hd₁, hmsg₁, -⟩ := h.affords_succ.mp haffords
    cases hd.symm.trans hd₁
    rw [hmsg] at hmsg₁
    cases hmsg₁
  · intro haffords
    obtain ⟨hpoll, frame, hlined⟩ := h.poll hd
    obtain ⟨g₁, d₁, hd₁, hmsg₁, -⟩ := hlined.affords_succ.mp haffords
    cases hpoll with
    | capacity full same answer =>
      subst same
      cases hd.symm.trans hd₁
      rw [hmsg] at hmsg₁
      cases hmsg₁
    | rateLimited l wakeAt free refused same answer =>
      subst same
      obtain ⟨l', w', hpermit, -⟩ := permits_succ.mp haffords.permits
      exact permit_refused refused hpermit
    | taken l wakeAt free granted limiter takes stop =>
      cases takes with
      | handed m line msg processing => cases hmsg.symm.trans msg
      | empty line line' msg processing =>
        have hroom := haffords.room
        rw [line'] at hroom
        cases hroom

def leaseAll (g : Group) (now : Int) (ms : List Message) : NilMap Bytes Message :=
  ms.foldl (fun p m => some (p.table.insert m.id (g.leased m now))) g.processing

structure Drained (now : Int) (g : Group) (k : Nat) (g' : Group) (batch : List Message) : Prop where
  batch : batch = (g.line.take k).map fun m => g.leased m now
  line : g'.line = g.line.drop k
  processing : g'.processing = g.leaseAll now (g.line.take k)
  cfg : g'.cfg = g.cfg
  delayed : g'.delayed = g.delayed
  deficit : g'.deficit = g.deficit - k
  lined : g'.Lined
  affords : ∀ n, g.Affords now (k + n) ↔ g'.Affords now n

theorem Drained.refl (h : g.Lined) : Drained now g 0 g [] :=
  ⟨rfl, rfl, rfl, rfl, rfl, by simp, h, fun n => by rw [Nat.zero_add]⟩

theorem Drained.refused (h : g.Lined) (hd : g.nextDispatchable now = .ok (g', d))
    (hmsg : d.msg = none) :
    Drained now g 0 g' [] := by
  obtain ⟨hpoll, frame, hlined⟩ := h.poll hd
  have hsame : g'.line = g.line ∧ g'.processing = g.processing := by
    cases hpoll with
    | capacity full same answer => exact ⟨same ▸ rfl, same ▸ rfl⟩
    | rateLimited l wakeAt free refused same answer => exact ⟨same ▸ rfl, same ▸ rfl⟩
    | taken l wakeAt free granted limiter takes stop =>
      cases takes with
      | handed m line msg processing => cases hmsg.symm.trans msg
      | empty line line' msg processing => exact ⟨line'.trans line.symm, processing⟩
  refine ⟨rfl, hsame.1, hsame.2, frame.cfg, frame.delayed, by rw [frame.deficit]; simp, hlined, ?_⟩
  intro n
  rw [Nat.zero_add]
  cases n with
  | zero => exact iff_of_true (affords_zero now g) (affords_zero now g')
  | succ n =>
    obtain ⟨hnot, hnot'⟩ := h.not_affords hd hmsg n
    exact iff_of_false hnot hnot'

theorem Drained.handed {k : Nat} {g'' : Group} {msg : Message} {batch : List Message} (h : g.Lined)
    (hd : g.nextDispatchable now = .ok (g', d)) (hmsg : d.msg = some msg)
    (hrest : Drained now { g' with deficit := g'.deficit - 1 } k g'' batch) :
    Drained now g (k + 1) g'' (msg :: batch) := by
  obtain ⟨hpoll, frame, hlined⟩ := h.poll hd
  cases hpoll with
  | capacity full same answer => rw [answer] at hmsg; cases hmsg
  | rateLimited l wakeAt free refused same answer => rw [answer] at hmsg; cases hmsg
  | taken l wakeAt free granted limiter takes stop =>
    cases takes with
    | empty line line' msg' processing => cases hmsg.symm.trans msg'
    | handed m line msg' processing =>
      cases hmsg.symm.trans msg'
      have hleased : ∀ m', { g' with deficit := g'.deficit - 1 }.leased m' now =
          g.leased m' now := by
        intro m'
        rw [leased, leased, frame.cfg]
      have htake : g.line.take (k + 1) = m :: g'.line.take k := by rw [line, List.take_succ_cons]
      refine ⟨?_, ?_, ?_, hrest.cfg.trans frame.cfg, hrest.delayed.trans frame.delayed,
        ?_, hrest.lined, ?_⟩
      · rw [htake, hrest.batch, List.map_cons]
        exact congrArg _ (List.map_congr_left fun m' _ => hleased m')
      · rw [hrest.line, line, List.drop_succ_cons]
        rfl
      · rw [hrest.processing, htake, leaseAll, leaseAll, List.foldl_cons, ← processing]
        simp only [hleased]
        rfl
      · have hdeficit := frame.deficit
        rw [hrest.deficit]
        push_cast
        omega
      · intro n
        have hstep : g.Affords now (k + n + 1) ↔ g'.Affords now (k + n) :=
          h.affords_handed hd (by rw [hmsg]; rfl)
        rw [Nat.add_right_comm, hstep, ← hrest.affords n]
        exact ⟨fun hg => ⟨hg.room, hg.permits⟩, fun hg => ⟨hg.room, hg.permits⟩⟩

theorem Lined.setCounters (h : g.Lined) (deficit quantum : Int) :
    { g with deficit := deficit, quantum := quantum }.Lined :=
  ⟨h.urgentHead_le, h.readyHead_le, h.urgent_full, h.allocated⟩

theorem Lined.drainLoop {n : Nat} {batch : List Message} {s : DrainState} (h : g.Lined)
    (hs : Group.drainLoop now n g batch = .ok s) :
    ∃ k handed, s.batch = batch ++ handed ∧ Drained now g k s.group handed ∧ k ≤ n ∧
      (s.stop = none → k = n) ∧ (s.stop.isSome → ¬ s.group.Affords now 1) := by
  induction n generalizing g batch with
  | zero =>
    cases hs
    exact ⟨0, [], by simp, .refl h, Nat.le_refl _, fun _ => rfl, fun hstop => nomatch hstop⟩
  | succ n ih =>
    obtain ⟨⟨g₁, d⟩, hd, hr⟩ := bind_ok.mp hs
    cases hmsg : d.msg with
    | none =>
      simp only [hmsg] at hr
      cases hr
      exact ⟨0, [], by simp, .refused h hd hmsg, Nat.zero_le _, (fun hstop => nomatch hstop),
        fun _ => (h.not_affords hd hmsg 0).2⟩
    | some msg =>
      simp only [hmsg] at hr
      obtain ⟨-, -, hlined⟩ := h.poll hd
      obtain ⟨k, handed, hbatch, hdrained, hle, hnone, hsome⟩ := ih (hlined.setCounters _ _) hr
      refine ⟨k + 1, msg :: handed, ?_, .handed h hd hmsg hdrained, Nat.succ_le_succ hle,
        fun hstop => congrArg (· + 1) (hnone hstop), hsome⟩
      rw [hbatch, List.append_assoc]
      rfl

theorem Lined.pendingCount_eq (h : g.Lined) :
    g.pendingCount = (g.liveUrgent.length + g.liveReady.length + g.delayed.length : Nat) := by
  have hurgent := h.urgentHead_le
  have hready := h.readyHead_le
  rw [pendingCount, liveUrgent, liveReady, List.length_drop, List.length_drop]
  omega

theorem line_length_le (g : Group) : g.line.length ≤ g.liveUrgent.length + g.liveReady.length := by
  rw [line, List.length_append]
  exact Nat.add_le_add (List.reduceOption_length_le _) (List.reduceOption_length_le _)

theorem Lined.line_of_idle (h : g.Lined) (hidle : g.pendingCount = 0) :
    g.line = [] ∧ g.delayed = [] := by
  have hcount := h.pendingCount_eq
  have hle := g.line_length_le
  rw [hidle] at hcount
  constructor
  · apply List.eq_nil_of_length_eq_zero
    omega
  · apply List.eq_nil_of_length_eq_zero
    omega

theorem Lined.promoteDelayed (h : g.Lined) (ord : RangeOrder) (now : Int) :
    (g.promoteDelayed ord now).1.Lined := by
  obtain ⟨expired, due, hp⟩ := promoteDelayed_spec g ord now
  refine ⟨?_, ?_, ?_, hp.allocated ▸ h.allocated⟩
  · rw [hp.urgentHead, hp.urgent, List.length_append]
    exact Nat.le_add_right_of_le h.urgentHead_le
  · rw [hp.readyHead, hp.ready, List.length_append]
    exact Nat.le_add_right_of_le h.readyHead_le
  · rw [liveUrgent, hp.urgent, hp.urgentHead, List.drop_append_of_le_length h.urgentHead_le,
      List.mem_append, not_or]
    refine ⟨h.urgent_full, ?_⟩
    simp

theorem Affords.pending {n : Nat} (haffords : g.Affords now (n + 1)) (h : g.Lined) :
    0 < g.pendingCount := by
  have hroom := haffords.room
  have hle := g.line_length_le
  rw [h.pendingCount_eq]
  cases hline : g.line with
  | nil =>
    rw [hline] at hroom
    cases hroom
  | cons m rest =>
    rw [hline, List.length_cons] at hle
    omega

def allowance (g : Group) : Int := int64 (g.deficit + max g.quantum 1)

def opened (g : Group) (ord : RangeOrder) (now : Int) : Group :=
  { (g.promoteDelayed ord now).1 with quantum := max g.quantum 1, deficit := g.allowance }

def DrainState.report (s : DrainState) (wakeAt : Int) : DrainResult :=
  match s.stop with
  | none => s.group.drainRest s.batch wakeAt
  | some ⟨_, .empty, stopWake⟩ =>
    let wakeAt := if isZero stopWake then wakeAt else earlierWake wakeAt stopWake
    ⟨some s.batch, wakeAt, !isZero wakeAt, false⟩
  | some ⟨_, .capacity, _⟩ => ⟨some s.batch, wakeAt, !isZero wakeAt, false⟩
  | some ⟨_, .rateLimited, stopWake⟩ => s.group.drainRest s.batch (earlierWake wakeAt stopWake)

theorem drainRound_eq (g : Group) (ord : RangeOrder) (now : Int) : g.drainRound ord now =
    if (g.promoteDelayed ord now).1.pendingCount = 0 then
      .ok ((g.promoteDelayed ord now).1,
        ⟨none, (g.promoteDelayed ord now).2, !isZero (g.promoteDelayed ord now).2, false⟩)
    else do
      let s ← drainLoop now g.allowance.toNat (g.opened ord now) []
      return (s.group, s.report (g.promoteDelayed ord now).2) := by
  obtain ⟨expired, due, hp⟩ := promoteDelayed_spec g ord now
  have hquantum : (if (g.promoteDelayed ord now).1.quantum ≤ 0 then 1
      else (g.promoteDelayed ord now).1.quantum) = max g.quantum 1 := by
    rw [hp.quantum]
    split <;> omega
  unfold drainRound
  simp only [hquantum, hp.deficit]
  split
  · rfl
  · apply congrArg (Bind.bind (drainLoop now g.allowance.toNat (g.opened ord now) []))
    funext s
    obtain ⟨g', batch, stop⟩ := s
    cases stop with
    | none => rfl
    | some d =>
      obtain ⟨msg, reason, stopWake⟩ := d
      cases reason <;> rfl

theorem Lined.poll_max (h : g.Lined) (hd : g.nextDispatchable now = .ok (g', d))
    (hmax : ∀ l ∈ g.limiter, 1 ≤ l.max) : ∀ l ∈ g'.limiter, 1 ≤ l.max := by
  obtain ⟨hpoll, -, -⟩ := h.poll hd
  cases hpoll with
  | capacity full same answer => exact same ▸ hmax
  | rateLimited l wakeAt free refused same answer =>
    subst same
    exact permit_max refused hmax
  | taken l wakeAt free granted limiter takes stop =>
    rw [limiter]
    exact permit_max granted hmax

theorem Lined.drainLoop_total (h : g.Lined) (hmax : ∀ l ∈ g.limiter, 1 ≤ l.max) (n : Nat)
    (batch : List Message) :
    ∃ s, Group.drainLoop now n g batch = .ok s := by
  induction n generalizing g batch with
  | zero => exact ⟨_, rfl⟩
  | succ n ih =>
    obtain ⟨⟨g₁, d⟩, hd⟩ := h.poll_total (permit_total hmax now)
    obtain ⟨-, -, hlined⟩ := h.poll hd
    cases hmsg : d.msg with
    | none => exact ⟨⟨g₁, batch, some d⟩, bind_ok.mpr ⟨_, hd, by simp only [hmsg]; rfl⟩⟩
    | some msg =>
      have hmax₁ := h.poll_max hd hmax
      obtain ⟨s, hs⟩ := ih (hlined.setCounters (g₁.deficit - 1) g₁.quantum) hmax₁ (batch ++ [msg])
      exact ⟨s, bind_ok.mpr ⟨_, hd, by simp only [hmsg]; exact hs⟩⟩

theorem Lined.opened (h : g.Lined) (ord : RangeOrder) (now : Int) : (g.opened ord now).Lined :=
  (h.promoteDelayed ord now).setCounters _ _

theorem Lined.line_eq_nil (h : g.Lined) (hready : none ∉ g.liveReady) :
    g.pendingCount = 0 ↔ g.line = [] ∧ g.delayed = [] := by
  constructor
  · exact h.line_of_idle
  · rintro ⟨hline, hdelayed⟩
    have hfull : ∀ {l : List (Option Message)}, none ∉ l → l.reduceOption = [] → l = [] := by
      intro l hl hnil
      apply List.eq_nil_iff_forall_not_mem.mpr
      intro slot hslot
      cases slot with
      | none => exact hl hslot
      | some m =>
        have hm := List.reduceOption_mem_iff.mpr hslot
        rw [hnil] at hm
        cases hm
    obtain ⟨hurgent, hrest⟩ := List.append_eq_nil_iff.mp hline
    rw [h.pendingCount_eq, hfull h.urgent_full hurgent, hfull hready hrest, hdelayed]
    rfl

theorem Drained.count {n k : Nat} {batch : List Message} (h : Drained now g k g' batch)
    (hle : k ≤ n) (hlimiter : ∀ l ∈ g.limiter, l.Ascending) (hmore : k < n → ¬ g'.Affords now 1) :
    k = granted now (min n (room g.cfg.parallelism g.busy (g.line.map Message.id))) g.limiter := by
  have haffords : g.Affords now k := (h.affords 0).mpr (affords_zero now g')
  have hroom : k ≤ min n (room g.cfg.parallelism g.busy (g.line.map Message.id)) :=
    le_min hle haffords.room
  have hgranted := (permits_iff_granted hlimiter now k _ hroom).mp haffords.permits
  apply Nat.le_antisymm hgranted
  by_contra hlt
  have hbound : granted now
      (min n (room g.cfg.parallelism g.busy (g.line.map Message.id))) g.limiter ≤
      min n (room g.cfg.parallelism g.busy (g.line.map Message.id)) := by
    unfold granted
    split
    · exact Nat.le_refl _
    · exact Nat.min_le_left _ _
  obtain ⟨hn, hr⟩ := lt_min_iff.mp ((Nat.lt_of_not_le hlt).trans_le hbound)
  have hone : g.Affords now (k + 1) :=
    ⟨hr, (permits_iff_granted hlimiter now (k + 1) _ (le_min hn hr)).mpr (Nat.lt_of_not_le hlt)⟩
  exact hmore hn ((h.affords 1).mp hone)

theorem Lined.drainRound_total (h : g.Lined) (hmax : ∀ l ∈ g.limiter, 1 ≤ l.max) (ord : RangeOrder)
    (now : Int) :
    ∃ r, g.drainRound ord now = .ok r := by
  rw [drainRound_eq]
  split
  · exact ⟨_, rfl⟩
  · obtain ⟨expired, due, hp⟩ := promoteDelayed_spec g ord now
    have hmax' : ∀ l ∈ (g.opened ord now).limiter, 1 ≤ l.max := by
      intro l hl
      exact hmax l (hp.limiter ▸ hl)
    obtain ⟨s, hs⟩ := (h.opened ord now).drainLoop_total hmax' g.allowance.toNat []
    exact ⟨_, bind_ok.mpr ⟨s, hs, rfl⟩⟩

theorem DrainState.report_ready (s : DrainState) (wakeAt : Int) :
    (s.report wakeAt).ready = some s.batch := by
  unfold report
  split
  · exact drainRest_ready _ _ _
  · rfl
  · rfl
  · exact drainRest_ready _ _ _

/-- A round hands out a beginning of the line, as long as the deficit, the parallelism and the rate
limit allow, and leaves the rest as it was, if the new deficit fits an int.  The parallelism counts
identifiers, so that it is used up by one message each only if the waiting identifiers are distinct
and none is in `processing`. -/
theorem drainRound_hands_out (h : g.Lined) (hready : none ∉ g.liveReady)
    (hlimiter : ∀ l ∈ g.limiter, l.Ascending) (hdeficit : FitsInt64 (g.deficit + max g.quantum 1))
    (ord : RangeOrder) (now : Int) :
    ∃ p g' r, p = (g.promoteDelayed ord now).1 ∧ g.drainRound ord now = .ok (g', r) ∧
      (p.line = [] ∧ p.delayed = [] → r.ready.getD [] = [] ∧ g'.deficit = g.deficit) ∧
      (¬ (p.line = [] ∧ p.delayed = []) → ∃ places k,
        places = room p.cfg.parallelism p.busy (p.line.map Message.id) ∧
        ((p.line.map Message.id).Nodup → (∀ m ∈ p.line, p.processing.table.lookup m.id = none) →
          places = min p.line.length (p.cfg.parallelism - p.processing.len).toNat) ∧
        k = granted now (min (g.deficit + max g.quantum 1).toNat places) p.limiter ∧
        r.ready = some ((p.line.take k).map fun m => p.leased m now) ∧
        g'.deficit = g.deficit + max g.quantum 1 - k ∧
        g'.processing = p.leaseAll now (p.line.take k) ∧
        g'.line = p.line.drop k ∧ g'.delayed = p.delayed) := by
  obtain ⟨expired, due, hp⟩ := promoteDelayed_spec g ord now
  have hlined := h.promoteDelayed ord now
  have hfull : none ∉ (g.promoteDelayed ord now).1.liveReady := by
    rw [liveReady, hp.ready, hp.readyHead, List.drop_append_of_le_length h.readyHead_le,
      List.mem_append, not_or]
    exact ⟨hready, by simp⟩
  have hidle := hlined.line_eq_nil hfull
  obtain ⟨⟨g', r⟩, hr⟩ := h.drainRound_total (fun l hl => (hlimiter l hl).1) ord now
  refine ⟨_, g', r, rfl, hr, ?_, ?_⟩
  · intro hnil
    rw [drainRound_eq, if_pos (hidle.mpr hnil)] at hr
    cases hr
    exact ⟨rfl, hp.deficit⟩
  · intro hnil
    rw [drainRound_eq, if_neg (mt hidle.mp hnil)] at hr
    obtain ⟨s, hs, hret⟩ := bind_ok.mp hr
    cases hret
    have hallowance : g.allowance = g.deficit + max g.quantum 1 := int64_eq_self.mpr hdeficit
    obtain ⟨k, handed, hbatch, hdrained, hle, hnone, hsome⟩ := (h.opened ord now).drainLoop hs
    have hcount := hdrained.count hle (fun l hl => hlimiter l (hp.limiter ▸ hl)) (by
      intro hlt
      apply hsome
      cases hstop : s.stop with
      | none => exact absurd (hnone hstop) (Nat.ne_of_lt hlt)
      | some d => rfl)
    refine ⟨_, k, rfl, ?_, hallowance ▸ hcount, ?_, ?_, hdrained.processing, hdrained.line,
      hdrained.delayed⟩
    · intro hnodup hfresh
      rw [room_of_nodup _ hnodup, List.length_map, card_busy]
      intro id hid
      obtain ⟨m, hm, rfl⟩ := List.mem_map.mp hid
      rw [busy, List.mem_toFinset, ← AList.mem_keys, ← AList.lookup_isSome, hfresh m hm]
      exact Bool.false_ne_true
    · rw [DrainState.report_ready, hbatch, hdrained.batch]
      rfl
    · rw [hdrained.deficit, ← hallowance]
      rfl

theorem Lined.drainLoop_of_affords {n : Nat} (h : g.Lined) (haffords : g.Affords now n)
    (batch : List Message) :
    ∃ s, Group.drainLoop now n g batch = .ok s ∧ s.stop = none := by
  induction n generalizing g batch with
  | zero => exact ⟨_, rfl, rfl⟩
  | succ n ih =>
    obtain ⟨g₁, d, hd, hmsg, hrest⟩ := h.affords_succ.mp haffords
    obtain ⟨msg, hmsg⟩ := Option.isSome_iff_exists.mp hmsg
    obtain ⟨-, -, hlined⟩ := h.poll hd
    obtain ⟨s, hs, hstop⟩ := ih (hlined.setCounters (g₁.deficit - 1) g₁.quantum)
      (show Affords now n _ from ⟨hrest.room, hrest.permits⟩) (batch ++ [msg])
    exact ⟨s, bind_ok.mpr ⟨_, hd, by simp only [hmsg]; exact hs⟩, hstop⟩

theorem DrainState.report_stillPending {s : DrainState} (hstop : s.stop = none) (wakeAt : Int)
    (hpending : 0 < s.group.pendingCount) : (s.report wakeAt).stillPending = isZero wakeAt := by
  rw [report, hstop]
  simp only [drainRest]
  cases isZero wakeAt with
  | false => rfl
  | true => simp [hpending]

def Affordable (now : Int) (g : Group) : Prop :=
  ∃ g' d, g.nextDispatchable now = .ok (g', d) ∧ d.msg.isSome

theorem Lined.affordable_iff (h : g.Lined) : g.Affordable now ↔ g.Affords now 1 := by
  rw [h.affords_succ]
  constructor
  · rintro ⟨g', d, hd, hmsg⟩
    exact ⟨g', d, hd, hmsg, affords_zero now g'⟩
  · rintro ⟨g', d, hd, hmsg, -⟩
    exact ⟨g', d, hd, hmsg⟩

theorem Lined.drainRound_reports (h : g.Lined) (ord : RangeOrder) (now : Int) :
    (∀ g' r, g.drainRound ord now = .ok (g', r) → g'.Affordable now → r.stillPending = true) ↔
      isZero (g.promoteDelayed ord now).2 = true ∨
        ¬ (g.promoteDelayed ord now).1.Affords now (g.allowance.toNat + 1) := by
  have hlined := h.promoteDelayed ord now
  have hopened : (g.opened ord now).Affords now (g.allowance.toNat + 1) ↔
      (g.promoteDelayed ord now).1.Affords now (g.allowance.toNat + 1) :=
    ⟨fun hg => ⟨hg.room, hg.permits⟩, fun hg => ⟨hg.room, hg.permits⟩⟩
  rw [drainRound_eq, ← hopened]
  constructor
  · intro hreports
    by_contra hnot
    rw [not_or, not_not] at hnot
    obtain ⟨hwake, haffords⟩ := hnot
    -- the loop uses up its fuel, and one more message could follow
    have hpending := (hopened.mp haffords).pending hlined
    obtain ⟨s, hs, hstop⟩ := (h.opened ord now).drainLoop_of_affords haffords.of_succ []
    obtain ⟨k, handed, -, hdrained, -, hk, -⟩ := (h.opened ord now).drainLoop hs
    have hone : s.group.Affords now 1 := by
      rw [← hdrained.affords, hk hstop]
      exact haffords
    have hr := hreports s.group (s.report (g.promoteDelayed ord now).2)
      (by rw [if_neg hpending.ne']; exact bind_ok.mpr ⟨s, hs, rfl⟩)
        (hdrained.lined.affordable_iff.mpr hone)
    rw [DrainState.report_stillPending hstop _ (hone.pending hdrained.lined)] at hr
    exact hwake hr
  · intro hcond g' r hr hmore
    split at hr
    · rename_i hidle
      cases hr
      have hpending := (hlined.affordable_iff.mp hmore).pending hlined
      rw [hidle] at hpending
      cases hpending
    · obtain ⟨s, hs, hret⟩ := bind_ok.mp hr
      cases hret
      obtain ⟨k, handed, -, hdrained, -, hk, hstopped⟩ := (h.opened ord now).drainLoop hs
      have hone := hdrained.lined.affordable_iff.mp hmore
      cases hstop : s.stop with
      | some d => exact absurd hone (hstopped (by rw [hstop]; rfl))
      | none =>
        rw [DrainState.report_stillPending hstop _ (hone.pending hdrained.lined)]
        rcases hcond with hwake | hnot
        · exact hwake
        · rw [← hdrained.affords, hk hstop] at hone
          exact absurd hone hnot

theorem Lined.appendUrgent (h : g.Lined) (m : Message) (processing : NilMap Bytes Message)
    (halloc : processing.isSome) :
    { g with processing := processing, urgent := g.urgent ++ [some m] }.Lined := by
  refine ⟨?_, h.readyHead_le, ?_, halloc⟩
  · rw [List.length_append]
    exact Nat.le_add_right_of_le h.urgentHead_le
  · rw [liveUrgent, drop_append_singleton h.urgentHead_le, List.mem_append, not_or]
    exact ⟨h.urgent_full, by simp⟩

theorem Lined.returnToPending (h : g.Lined) (id : Bytes) : (g.returnToPending id).Lined := by
  unfold Group.returnToPending
  split
  · exact h
  · exact h.appendUrgent _ _ (NilMap.isSome_delete g.processing id ▸ h.allocated)

theorem Lined.enqueue (h : g.Lined) (m : Message) : (g.enqueue m).Lined := by
  refine ⟨h.urgentHead_le, ?_, h.urgent_full, h.allocated⟩
  rw [Group.enqueue, List.length_append]
  exact Nat.le_add_right_of_le h.readyHead_le

theorem Lined.delete (h : g.Lined) (id : Bytes) :
    { g with processing := g.processing.delete id }.Lined :=
  ⟨h.urgentHead_le, h.readyHead_le, h.urgent_full,
    NilMap.isSome_delete g.processing id ▸ h.allocated⟩

theorem Lined.fail {id errMsg : Bytes} {dlq : Option Message} (h : g.Lined)
    (hf : g.fail id errMsg now = .ok (g', dlq)) : g'.Lined := by
  have hdelete := h.delete id
  cases fail_cases hf with
  | absent none same letter =>
    subst same
    exact h
  | retries m delay found more delayed put letter =>
    subst put
    exact ⟨hdelete.urgentHead_le, hdelete.readyHead_le, hdelete.urgent_full, hdelete.allocated⟩
  | drops m found exhausted dropped letter =>
    subst dropped
    exact hdelete

theorem lasting_lined : Lasting Lined where
  complete {g} id h := by
    unfold Group.complete
    split
    · exact h
    · exact h.delete id
  fail h hfail := h.fail hfail
  returnToPending id h := h.returnToPending id
  promoteDelayed ord now h := h.promoteDelayed ord now
  nextDispatchable h hd := (h.poll hd).2.2
  settings _ _ _ h := ⟨h.urgentHead_le, h.readyHead_le, h.urgent_full, h.allocated⟩

theorem Lined.ofNewGroup {cfg : GroupConfig} (h : newGroup cfg = .ok g) : g.Lined := by
  obtain ⟨-, -, -, hw⟩ := newGroup_ok h
  exact hw.lined

end Group

theorem Queue.EachGroup.lined [PathMatch] {q q' : Queue} {op : LiveOp} {r : Reply}
    (hq : q.EachGroup Group.Lined) (h : q.exec op = .ok (q', r)) : q'.EachGroup Group.Lined :=
  hq.exec h (fun _ _ hnew => .ofNewGroup hnew) (fun _ m _ hg => hg.enqueue m)
    fun _ _ _ _ _ _ hg hact =>
    Group.lasting_lined.act hg hact

theorem runLive_lined [PathMatch] {name ns : Bytes} {ops : List LiveOp} {s : LiveRun}
    (h : runLive name ns ops = .ok s) : s.queue.EachGroup Group.Lined := by
  apply Run.induct (motive := fun s _ => s.queue.EachGroup Group.Lined) _ _ h
  · intro s op l s' hs hstep
    obtain ⟨⟨q, r⟩, hexec, hret⟩ := bind_ok.mp hstep
    cases hret
    exact hs.lined hexec
  · intro key g hg
    cases hg

/-- In every reachable state, a round reports the messages it leaves behind unless a lease runs or a
retry lies ahead and the group could have handed out more than the deficit, an int of 64 bits. -/
theorem drain_reports_rest_iff [PathMatch] {name ns key : Bytes} {ops : List LiveOp} {s : LiveRun}
    {g : Group} (h : runLive name ns ops = .ok s) (hg : s.queue.groups.lookup key = some g)
    (ord : RangeOrder) (now : Int) :
    (∀ g' r, g.drainRound ord now = .ok (g', r) → g'.Affordable now → r.stillPending = true) ↔
      isZero (g.promoteDelayed ord now).2 = true ∨
        ¬ (g.promoteDelayed ord now).1.Affords now
          ((int64 (g.deficit + max g.quantum 1)).toNat + 1) :=
  (runLive_lined h key g hg).drainRound_reports ord now

def wideConfig : GroupConfig := { defaultGroupConfig (str "g") with parallelism := 3, quantum := 1 }

def threeWaiting : List LiveOp :=
  [.setGroupConfig wideConfig, .publishWithID (str "g") (str "a") [] 0,
    .publishWithID (str "g") (str "b") [] 0, .publishWithID (str "g") (str "c") [] 0]

theorem drain_reports_rest_sample : ∃ s g g' r, @runLive literalMatch [] [] threeWaiting = .ok s ∧
    s.queue.groups.lookup (str "g") = some g ∧ g.drainRound .inOrder 1 = .ok (g', r) ∧
      g'.Affordable 1 ∧ r.stillPending = true := by
  obtain ⟨s, g, g', r, hs, hg, hr, hmore, hwake⟩ : ∃ s g g' r,
      @runLive literalMatch [] [] threeWaiting = .ok s ∧
      s.queue.groups.lookup (str "g") = some g ∧ g.drainRound .inOrder 1 = .ok (g', r) ∧
        g'.Affordable 1 ∧ isZero (g.promoteDelayed .inOrder 1).2 = true :=
    ⟨_, _, _, _, rfl, rfl, rfl, ⟨_, _, rfl, by decide +kernel⟩, by decide +kernel⟩
  have hreports :=
    (@drain_reports_rest_iff literalMatch [] [] (str "g") threeWaiting s g hs hg .inOrder 1).mpr
    (.inl hwake)
  exact ⟨s, g, g', r, hs, hg, hr, hmore, hreports g' r hr hmore⟩

/-- With a message in flight a round of quantum one leaves a message behind that could follow at
once, and reports nothing but the deadline of the lease. -/
theorem drain_hides_rest : ∃ s g g' r,
    @runLive literalMatch [] [] (threeWaiting ++ [.tryDispatchOne (str "g") .inOrder 1]) = .ok s ∧
      s.queue.groups.lookup (str "g") = some g ∧ g.drainRound .inOrder 2 = .ok (g', r) ∧
        g'.Affordable 2 ∧ r.stillPending = false :=
  ⟨_, _, _, _, rfl, rfl, rfl, ⟨_, _, rfl, by decide +kernel⟩, by decide +kernel⟩

def drainedGroup : Group where
  cfg :=
    { defaultGroupConfig (str "g") with
      parallelism := 3, rateLimit := some ⟨2, 10⟩, leaseTimeout := 30 }
  ready :=
    [some (newMessageAt [] [] (str "g") [] 0 (str "a")),
      some (newMessageAt [] [] (str "g") [] 0 (str "b"))]
  readyHead := 0
  urgent := []
  urgentHead := 0
  delayed := []
  processing := some ((∅ : Map Bytes Message).insert (str "c")
    { newMessageAt [] [] (str "g") [] 0 (str "c") with state := .processing, scheduledAt := 35 })
  limiter := some ⟨2, 10, [1, 5]⟩
  deficit := 1
  quantum := 1

theorem drainRound_hands_out_sample :
    drainedGroup.Lined ∧ ∃ g' r, drainedGroup.drainRound .inOrder 12 = .ok (g', r) ∧
      (r.ready.getD []).map Message.id = [str "a"] ∧ g'.deficit = 1 ∧
        g'.line.map Message.id = [str "b"] := by
  have hlined : drainedGroup.Lined := ⟨by decide, by decide, by decide, rfl⟩
  obtain ⟨p, g', r, hp, hr, -, hround⟩ := Group.drainRound_hands_out hlined (by decide)
    (by intro l hl; cases hl; exact ⟨by decide, by decide, by decide⟩) (by decide) .inOrder 12
  subst hp
  obtain ⟨places, k, -, hplaces, hk, hready, hdeficit, -, hline, -⟩ := hround (by decide +kernel)
  have hone : k = 1 := by
    rw [hk, hplaces (by decide +kernel) (by decide +kernel)]
    decide +kernel
  subst hone
  refine ⟨hlined, g', r, hr, ?_, ?_, ?_⟩
  · rw [hready]
    decide +kernel
  · rw [hdeficit]
    decide
  · rw [hline]
    decide +kernel

def repeatingGroup : Group where
  cfg := { defaultGroupConfig (str "g") with parallelism := 2 }
  ready :=
    [some (newMessageAt [] [] (str "g") [] 0 (str "a")),
      some (newMessageAt [] [] (str "g") [] 0 (str "a")),
      some (newMessageAt [] [] (str "g") [] 0 (str "b"))]
  readyHead := 0
  urgent := []
  urgentHead := 0
  delayed := []
  processing := some ∅
  limiter := none
  deficit := 0
  quantum := 3

def overflowingGroup : Group where
  cfg := { defaultGroupConfig (str "g") with parallelism := 2 }
  ready := [some (newMessageAt [] [] (str "g") [] 0 (str "a"))]
  readyHead := 0
  urgent := []
  urgentHead := 0
  delayed := []
  processing := some ∅
  limiter := none
  deficit := 2 ^ 63 - 2
  quantum := 2 ^ 63 - 1

/-- The second message of an identifier takes no place of its own, so that three are handed out at a
parallelism of two; and a deficit that has been raised by the largest quantum once overflows at the
next round, which hands out nothing. -/
theorem repeated_id_or_overflow_breaks_minimum :
    (repeatingGroup.Lined ∧ none ∉ repeatingGroup.liveReady ∧ 0 ≤ repeatingGroup.deficit ∧
      ∃ p g' r, p = (repeatingGroup.promoteDelayed .inOrder 0).1 ∧
        repeatingGroup.drainRound .inOrder 0 = .ok (g', r) ∧
        min (min (repeatingGroup.deficit + max repeatingGroup.quantum 1).toNat p.line.length)
          (p.cfg.parallelism - p.processing.len).toNat = 2 ∧
        r.ready = some (p.line.map fun m => p.leased m 0) ∧ p.line.length = 3) ∧
    overflowingGroup.Lined ∧ none ∉ overflowingGroup.liveReady ∧ 0 ≤ overflowingGroup.deficit ∧
      ∃ p g' r, p = (overflowingGroup.promoteDelayed .inOrder 0).1 ∧
        overflowingGroup.drainRound .inOrder 0 = .ok (g', r) ∧
        min (min (overflowingGroup.deficit + max overflowingGroup.quantum 1).toNat p.line.length)
          (p.cfg.parallelism - p.processing.len).toNat = 1 ∧
        r.ready = some [] ∧ g'.deficit = -3 := by
  constructor
  · refine ⟨⟨by decide, by decide, by decide, rfl⟩, by decide, by decide, _, _, _, rfl, rfl, ?_⟩
    decide +kernel
  · refine ⟨⟨by decide, by decide, by decide, rfl⟩, by decide, by decide, _, _, _, rfl, rfl, ?_⟩
    decide +kernel

end Octar
