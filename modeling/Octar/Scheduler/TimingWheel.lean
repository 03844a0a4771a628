import Octar.Lib.GoMap
import Octar.Lib.Carousel
import Octar.Lib.Run
import Mathlib.Data.Multiset.Range

namespace Octar

open Go

structure TimerTask (γ : Type) where
  executeAt : Int
  callback : γ
  deriving DecidableEq, Repr

structure TimingWheel (γ : Type) where
  buckets : List (List (TimerTask γ))
  bucketTime : Int
  current : Nat
  bucketTime_pos : 0 < bucketTime
  current_lt : current < buckets.length

namespace TimingWheel

variable {γ : Type}

def newTimingWheel (tick : Int) (slots : Nat) (htick : 0 < tick) (hslots : 0 < slots) :
    TimingWheel γ where
  buckets := List.replicate slots []
  bucketTime := tick
  current := 0
  bucketTime_pos := htick
  current_lt := by simpa using hslots

def insertAt (tw : TimingWheel γ) (idx : Nat) (t : TimerTask γ) : TimingWheel γ :=
  { tw with
    buckets := tw.buckets.modify idx (t :: ·)
    current_lt := by simpa using tw.current_lt }

def ticks (tw : TimingWheel γ) (d : Int) : Int :=
  let ticks := d.tdiv tw.bucketTime
  if ticks = 0 then 1 else ticks

def slot (tw : TimingWheel γ) (sum : Int) : Except Panic Nat :=
  let idx := (int64 sum).tmod tw.buckets.length
  if idx < 0 then .error .indexOutOfRange else .ok idx.toNat

def add (tw : TimingWheel γ) (now delay : Int) (cb : γ) : Except Panic (TimingWheel γ) := do
  let delay := if delay < 0 then 0 else delay
  let executeAt := int64 (now + delay)
  let idx ← tw.slot (tw.current + tw.ticks delay)
  return tw.insertAt idx ⟨executeAt, cb⟩

def visit (now : Int) (s : TimingWheel γ × List γ) (t : TimerTask γ) :
    Except Panic (TimingWheel γ × List γ) :=
  if t.executeAt ≤ now then .ok (s.1, s.2 ++ [t.callback])
  else do
    let tw := s.1
    let remaining := int64 (t.executeAt - now)
    let idx ← tw.slot (tw.current + tw.ticks remaining - 1 + tw.buckets.length)
    return (tw.insertAt idx t, s.2)

def advance (tw : TimingWheel γ) : TimingWheel γ :=
  { tw with
    buckets := tw.buckets.set tw.current []
    current := (tw.current + 1) % tw.buckets.length
    current_lt := by
      rw [List.length_set]
      exact Nat.mod_lt _ (Nat.zero_lt_of_lt tw.current_lt) }

def tick (tw : TimingWheel γ) (now : Int) : Except Panic (TimingWheel γ × List γ) :=
  let head := tw.buckets.get ⟨tw.current, tw.current_lt⟩
  head.foldlM (visit now) (tw.advance, [])

def carousel (tw : TimingWheel γ) : Carousel (TimerTask γ) :=
  ⟨tw.buckets, tw.current, tw.current_lt⟩

variable {tw tw' : TimingWheel γ} {now d : Int}

theorem one_le_ticks (tw : TimingWheel γ) (hd : 0 ≤ d) : 1 ≤ tw.ticks d := by
  have hdiv : 0 ≤ d.tdiv tw.bucketTime := Int.tdiv_nonneg hd (Int.le_of_lt tw.bucketTime_pos)
  unfold ticks
  dsimp only
  split <;> omega

theorem ticks_le (tw : TimingWheel γ) (hd : 0 ≤ d) : tw.ticks d ≤ d / tw.bucketTime + 1 := by
  have hnonneg : 0 ≤ d / tw.bucketTime := Int.ediv_nonneg hd (Int.le_of_lt tw.bucketTime_pos)
  unfold ticks
  rw [Int.tdiv_eq_ediv_of_nonneg hd]
  dsimp only
  split <;> omega

theorem ticks_mul_le (tw : TimingWheel γ) (hd : 0 ≤ d) :
    tw.ticks d * tw.bucketTime ≤ d + tw.bucketTime := by
  have hpos := tw.bucketTime_pos
  have hmul : d / tw.bucketTime * tw.bucketTime ≤ d := Int.ediv_mul_le d (Int.ne_of_gt hpos)
  unfold ticks
  rw [Int.tdiv_eq_ediv_of_nonneg hd]
  dsimp only
  split
  · rw [Int.one_mul]
    omega
  · omega

theorem slot_eq (tw : TimingWheel γ) (n : Nat) (sum : Int) (hsum : sum = n) (hn : n < 2 ^ 63) :
    tw.slot sum = .ok (n % tw.buckets.length) := by
  have hint : int64 sum = n := by
    rw [hsum]
    exact int64_eq_self.mpr ⟨by omega, by omega⟩
  have hmod : (int64 sum).tmod tw.buckets.length = (n % tw.buckets.length : Nat) := by
    rw [hint, Int.tmod_eq_emod_of_nonneg (Int.natCast_nonneg n), Int.natCast_mod]
  rw [slot, hmod, if_neg (Int.not_lt.mpr (Int.natCast_nonneg _)), Int.toNat_natCast]

theorem carousel_insertAt (tw : TimingWheel γ) (idx : Nat) (t : TimerTask γ) :
    (tw.insertAt idx t).carousel = tw.carousel.put idx t := rfl

theorem carousel_advance (tw : TimingWheel γ) : tw.advance.carousel = tw.carousel.turn := rfl

theorem index_lt (tw : TimingWheel γ) (n : Nat) : n % tw.buckets.length < tw.carousel.size :=
  Nat.mod_lt _ tw.carousel.size_pos

theorem mem_ahead_insertAt {k j : Nat} {t t' : TimerTask γ}
    (h : t' ∈ (tw.insertAt ((tw.current + k) % tw.buckets.length) t).carousel.ahead j)
    (hj : j < tw.carousel.size) :
    t' ∈ tw.carousel.ahead j ∨ t' = t ∧ j ≤ k := by
  have hahead := tw.carousel.ahead_put k j t
  rw [carousel_insertAt] at h
  change t' ∈ (tw.carousel.put ((tw.carousel.cursor + k) % tw.carousel.size) t).ahead j at h
  rw [hahead] at h
  split at h
  · rename_i hmod
    rcases List.mem_cons.mp h with rfl | h
    · rw [Nat.mod_eq_of_lt hj] at hmod
      exact .inr ⟨rfl, hmod ▸ Nat.mod_le k _⟩
    · exact .inl h
  · exact .inl h

/-- A task can be put back at `now`: neither the time that is left nor the sum that becomes its
index overflows. -/
def Fits (tw : TimingWheel γ) (now : Int) (t : TimerTask γ) : Prop :=
  t.executeAt - now < 2 ^ 63 ∧
    (t.executeAt - now) / tw.bucketTime + 2 * tw.buckets.length < 2 ^ 63

/-- What the loop of `tick` makes of the tasks `l`: those that are due are called, the others are
put back where they are reached in time. -/
structure Visited (now : Int) (s s' : TimingWheel γ × List γ) (l : List (TimerTask γ)) : Prop where
  bucketTime : s'.1.bucketTime = s.1.bucketTime
  size : s'.1.carousel.size = s.1.carousel.size
  called : s'.2 = s.2 ++ (l.filter fun t => t.executeAt ≤ now).map TimerTask.callback
  contents : s'.1.carousel.contents =
    (l.filter fun t => ¬ t.executeAt ≤ now) + s.1.carousel.contents
  ahead : ∀ j < s.1.carousel.size, ∀ t ∈ s'.1.carousel.ahead j, t ∈ s.1.carousel.ahead j ∨
    now < t.executeAt ∧ now + (j + 1) * s.1.bucketTime ≤ t.executeAt + s.1.bucketTime

theorem visit_late {s : TimingWheel γ × List γ} {t : TimerTask γ} (h : ¬ t.executeAt ≤ now)
    (hfits : s.1.Fits now t) : ∃ k : Nat, (k + 1 : Nat) = s.1.ticks (t.executeAt - now) ∧
      visit now s t = .ok (s.1.insertAt ((s.1.current + k) % s.1.buckets.length) t, s.2) := by
  have hpos : 0 ≤ t.executeAt - now := by omega
  have hticks : 1 ≤ s.1.ticks (t.executeAt - now) := s.1.one_le_ticks hpos
  have hle := s.1.ticks_le hpos
  have hcurrent := s.1.current_lt
  obtain ⟨hleft, hindex⟩ := hfits
  obtain ⟨k, hk⟩ : ∃ k : Nat, (k + 1 : Nat) = s.1.ticks (t.executeAt - now) :=
    ⟨(s.1.ticks (t.executeAt - now) - 1).toNat, by omega⟩
  refine ⟨k, hk, ?_⟩
  have hslot := s.1.slot_eq (s.1.current + k + s.1.buckets.length)
    (s.1.current + s.1.ticks (t.executeAt - now) - 1 + s.1.buckets.length) (by omega) (by omega)
  rw [Nat.add_mod_right] at hslot
  rw [visit, if_neg h, int64_eq_self.mpr ⟨by omega, hleft⟩]
  exact bind_ok.mpr ⟨_, hslot, rfl⟩

theorem visited_foldlM (now : Int) (l : List (TimerTask γ)) (s : TimingWheel γ × List γ)
    (hfits : ∀ t ∈ l, s.1.Fits now t) :
    ∃ s', l.foldlM (visit now) s = .ok s' ∧ Visited now s s' l := by
  induction l generalizing s with
  | nil => exact ⟨s, rfl, rfl, rfl, by simp, by simp, fun j _ t ht => .inl ht⟩
  | cons t l ih =>
    rw [List.forall_mem_cons] at hfits
    by_cases hdue : t.executeAt ≤ now
    · have hvisit : visit now s t = .ok (s.1, s.2 ++ [t.callback]) := if_pos hdue
      obtain ⟨s', hs', h⟩ := ih (s.1, s.2 ++ [t.callback]) hfits.2
      refine ⟨s', bind_ok.mpr ⟨_, hvisit, hs'⟩, h.bucketTime, h.size, ?_, ?_, h.ahead⟩
      · rw [h.called]
        simp [hdue]
      · rw [h.contents]
        simp [hdue]
    · obtain ⟨k, hk, hvisit⟩ := visit_late hdue hfits.1
      have hlen : (s.1.insertAt ((s.1.current + k) % s.1.buckets.length) t).buckets.length =
          s.1.buckets.length := List.length_modify ..
      obtain ⟨s', hs', h⟩ :=
        ih (s.1.insertAt ((s.1.current + k) % s.1.buckets.length) t, s.2) fun t' ht' => by
          have hfit := hfits.2 t' ht'
          rw [Fits] at hfit ⊢
          rwa [hlen]
      have hsize := h.size
      rw [carousel_insertAt, Carousel.size_put] at hsize
      refine ⟨s', bind_ok.mpr ⟨_, hvisit, hs'⟩, h.bucketTime, hsize, ?_, ?_, ?_⟩
      · rw [h.called]
        simp [hdue]
      · rw [h.contents, carousel_insertAt, Carousel.contents_put _ (index_lt _ _),
          List.filter_cons_of_pos (by simpa using hdue), ← Multiset.cons_coe, Multiset.cons_add,
          Multiset.add_cons]
      · intro j hj t' ht'
        rcases h.ahead j (by rwa [carousel_insertAt, Carousel.size_put]) t' ht' with ht' | ht'
        · rcases mem_ahead_insertAt ht' hj with ht' | ⟨rfl, hle⟩
          · exact .inl ht'
          · refine .inr ⟨Int.not_le.mp hdue, ?_⟩
            have hticks := s.1.ticks_mul_le (d := t'.executeAt - now) (by omega)
            have hmul : ((j : Int) + 1) * s.1.bucketTime ≤
                s.1.ticks (t'.executeAt - now) * s.1.bucketTime :=
              Int.mul_le_mul_of_nonneg_right (by omega) (Int.le_of_lt s.1.bucketTime_pos)
            omega
        · exact .inr ht'

theorem visited_tick (tw : TimingWheel γ) (now : Int)
    (hfits : ∀ t ∈ tw.carousel.ahead 0, tw.Fits now t) :
    ∃ s', tw.tick now = .ok s' ∧ Visited now (tw.advance, []) s' (tw.carousel.ahead 0) := by
  have hlen : tw.advance.buckets.length = tw.buckets.length := List.length_set
  rw [Carousel.ahead_zero] at hfits ⊢
  refine visited_foldlM now _ _ fun t ht => ?_
  have hfit := hfits t ht
  rw [Fits] at hfit ⊢
  rwa [hlen]

section Tick

variable {s' : TimingWheel γ × List γ} (h : Visited now (tw.advance, []) s' (tw.carousel.ahead 0))
include h

theorem Visited.callbacks :
    s'.1.carousel.contents.map TimerTask.callback + (s'.2 : Multiset γ) =
      tw.carousel.contents.map TimerTask.callback := by
  have hsplit := Multiset.filter_add_not (fun t : TimerTask γ => t.executeAt ≤ now)
    (tw.carousel.ahead 0)
  rw [Multiset.filter_coe, Multiset.filter_coe] at hsplit
  rw [h.called, List.nil_append, h.contents, carousel_advance, tw.carousel.contents_turn,
    ← Multiset.map_coe, ← Multiset.map_add, Multiset.add_comm, ← Multiset.add_assoc, hsplit]

theorem Visited.mem_contents {t : TimerTask γ} (ht : t ∈ s'.1.carousel.contents) :
    t ∈ tw.carousel.contents := by
  rw [h.contents, carousel_advance] at ht
  rw [tw.carousel.contents_turn]
  rcases Multiset.mem_add.mp ht with ht | ht
  · exact Multiset.mem_add.mpr (.inl (List.mem_of_mem_filter ht))
  · exact Multiset.mem_add.mpr (.inr ht)

end Tick

end TimingWheel

/-- A wheel with its clock: the last reading of a tick (or of the start), when each task is to run,
in the order of the calls, and which task ran at which reading. -/
structure WheelRun where
  wheel : TimingWheel Nat
  reading : Int
  added : List Int
  ran : List (Nat × Int)

inductive WheelStep
  | add (now delay : Int)
  | tick

namespace WheelRun

def start (tick : Int) (slots : Nat) (htick : 0 < tick) (hslots : 0 < slots) (reading : Int) :
    WheelRun :=
  ⟨.newTimingWheel tick slots htick hslots, reading, [], []⟩

def step (s : WheelRun) : WheelStep → Except Panic WheelRun
  | .add now delay => do
    let wheel ← s.wheel.add now delay s.added.length
    return { s with wheel := wheel, added := s.added ++ [now + delay] }
  | .tick => do
    let now := s.reading + s.wheel.bucketTime
    let (wheel, called) ← s.wheel.tick now
    return { s with wheel := wheel, reading := now, ran := s.ran ++ called.map (·, now) }

/-- What the clock allows, and of the delays those that overflow nothing: the time at which the task
is to run is an int64, and so are the sums of which its indices are made. -/
def Allows (s : WheelRun) : WheelStep → Prop
  | .add now delay => 0 ≤ delay ∧ s.reading ≤ now ∧ now ≤ s.reading + s.wheel.bucketTime ∧
    FitsInt64 delay ∧ FitsInt64 (now + delay) ∧
    delay / s.wheel.bucketTime + 2 * s.wheel.buckets.length < 2 ^ 63
  | .tick => True

instance (s : WheelRun) (a : WheelStep) : Decidable (s.Allows a) := by
  cases a <;> unfold Allows <;> infer_instance

structure OnTime (s : WheelRun) : Prop where
  once : (s.ran.map Prod.fst).Nodup
  inTime : ∀ i r, (i, r) ∈ s.ran → ∃ T, s.added[i]? = some T ∧ T ≤ r ∧
    r ≤ T + 2 * s.wheel.bucketTime
  runs : ∀ i T, s.added[i]? = some T → T + 2 * s.wheel.bucketTime ≤ s.reading → ∃ r, (i, r) ∈ s.ran

structure Paced (s : WheelRun) : Prop where
  tasks : s.wheel.carousel.contents.map TimerTask.callback + (s.ran.map Prod.fst : List Nat) =
    Multiset.range s.added.length
  known : ∀ t ∈ s.wheel.carousel.contents, s.added[t.callback]? = some t.executeAt
  fits : ∀ t ∈ s.wheel.carousel.contents, s.wheel.Fits (s.reading + s.wheel.bucketTime) t
  near : ∀ j < s.wheel.carousel.size, ∀ t ∈ s.wheel.carousel.ahead j,
    s.reading + (j + 1) * s.wheel.bucketTime ≤ t.executeAt + 2 * s.wheel.bucketTime
  inTime : ∀ i r, (i, r) ∈ s.ran → ∃ T, s.added[i]? = some T ∧ T ≤ r ∧
    r ≤ T + 2 * s.wheel.bucketTime

variable {s s' : WheelRun}

theorem Paced.onTime (h : s.Paced) : s.OnTime := by
  have hnodup : (s.wheel.carousel.contents.map TimerTask.callback +
      (s.ran.map Prod.fst : List Nat)).Nodup := by
    rw [h.tasks]
    exact Multiset.nodup_range _
  refine ⟨(Multiset.nodup_add.mp hnodup).2.1, h.inTime, ?_⟩
  intro i T hi hT
  have hmem : i ∈ s.wheel.carousel.contents.map TimerTask.callback +
      (s.ran.map Prod.fst : List Nat) := by
    rw [h.tasks, Multiset.mem_range]
    exact (List.getElem?_eq_some_iff.mp hi).1
  rcases Multiset.mem_add.mp hmem with hmem | hmem
  · -- a task in the wheel would be reached after the last moment it may run
    obtain ⟨t, ht, rfl⟩ := Multiset.mem_map.mp hmem
    cases (h.known t ht).symm.trans hi
    obtain ⟨j, hj, hahead⟩ := s.wheel.carousel.mem_contents.mp ht
    have hnear := h.near j hj t hahead
    have hpos := s.wheel.bucketTime_pos
    have hmul : 0 ≤ (j : Int) * s.wheel.bucketTime := Int.mul_nonneg (by omega) (Int.le_of_lt hpos)
    rw [Int.add_mul] at hnear
    omega
  · obtain ⟨⟨i', r⟩, hr, rfl⟩ := List.mem_map.mp hmem
    exact ⟨r, hr⟩

theorem Paced.ofStart {tick : Int} {slots : Nat} (htick : 0 < tick) (hslots : 0 < slots)
    (reading : Int) : (start tick slots htick hslots reading).Paced := by
  have hempty :
      (TimingWheel.newTimingWheel (γ := Nat) tick slots htick hslots).carousel.contents = 0 := by
    simp [TimingWheel.newTimingWheel, TimingWheel.carousel, Carousel.contents]
  have hnone : ∀ t, t ∉ (start tick slots htick hslots reading).wheel.carousel.contents := by
    intro t ht
    rw [start, hempty] at ht
    cases ht
  refine ⟨?_, fun t ht => absurd ht (hnone t), fun t ht => absurd ht (hnone t), ?_, ?_⟩
  · change (TimingWheel.newTimingWheel (γ := Nat) tick slots htick hslots).carousel.contents.map _
      + _ = _
    rw [hempty]
    rfl
  · intro j hj t ht
    exact absurd ((Carousel.mem_contents _).mpr ⟨j, hj, ht⟩) (hnone t)
  · intro i r hr
    cases hr

theorem Paced.add {now delay : Int} (h : s.Paced) (hallows : s.Allows (.add now delay)) :
    ∃ s', s.step (.add now delay) = .ok s' ∧ s'.Paced := by
  obtain ⟨hdelay, hlow, hhigh, hint, hsum, hindex⟩ := hallows
  have hpos := s.wheel.bucketTime_pos
  have hone := s.wheel.one_le_ticks hdelay
  have hticks_le := s.wheel.ticks_le hdelay
  have hcurrent := s.wheel.current_lt
  obtain ⟨k, hk⟩ : ∃ k : Nat, (k : Int) = s.wheel.ticks delay :=
    ⟨(s.wheel.ticks delay).toNat, by omega⟩
  have hslot := s.wheel.slot_eq (s.wheel.current + k)
    (s.wheel.current + s.wheel.ticks delay) (by omega) (by omega)
  have hadd : s.wheel.add now delay s.added.length = .ok (s.wheel.insertAt
      ((s.wheel.current + k) % s.wheel.buckets.length) ⟨now + delay, s.added.length⟩) := by
    rw [TimingWheel.add, if_neg (Int.not_lt.mpr hdelay), int64_eq_self.mpr hsum]
    exact bind_ok.mpr ⟨_, hslot, rfl⟩
  refine ⟨_, bind_ok.mpr ⟨_, hadd, rfl⟩, ?_⟩
  have hcontents : (s.wheel.insertAt ((s.wheel.current + k) % s.wheel.buckets.length)
      ⟨now + delay, s.added.length⟩).carousel.contents =
      ⟨now + delay, s.added.length⟩ ::ₘ s.wheel.carousel.contents := by
    rw [TimingWheel.carousel_insertAt, Carousel.contents_put _ (TimingWheel.index_lt _ _)]
  have hlen : (s.wheel.insertAt ((s.wheel.current + k) % s.wheel.buckets.length)
      ⟨now + delay, s.added.length⟩).buckets.length = s.wheel.buckets.length :=
    List.length_modify ..
  have hgrow : ∀ {i : Nat} {T : Int}, s.added[i]? = some T →
      (s.added ++ [now + delay])[i]? = some T := by
    intro i T hi
    rw [List.getElem?_append_left (List.getElem?_eq_some_iff.mp hi).1, hi]
  refine ⟨?_, ?_, ?_, ?_, ?_⟩
  · dsimp only
    rw [hcontents, Multiset.map_cons, Multiset.cons_add, h.tasks, List.length_append,
      List.length_singleton, Multiset.range_succ]
  · intro t ht
    rw [hcontents] at ht
    rcases Multiset.mem_cons.mp ht with rfl | ht
    · simp
    · exact hgrow (h.known t ht)
  · intro t ht
    rw [hcontents] at ht
    rw [TimingWheel.Fits, hlen]
    rcases Multiset.mem_cons.mp ht with rfl | ht
    · have hdiv : (now + delay - (s.reading + s.wheel.bucketTime)) / s.wheel.bucketTime ≤
          delay / s.wheel.bucketTime := Int.ediv_le_ediv hpos (by omega)
      have hlt := hint.2
      exact ⟨by dsimp only; change _ - (s.reading + s.wheel.bucketTime) < _; omega,
        Int.lt_of_le_of_lt (Int.add_le_add_right hdiv _) hindex⟩
    · exact h.fits t ht
  · intro j hj t ht
    dsimp only at hj ht ⊢
    rw [TimingWheel.carousel_insertAt, Carousel.size_put] at hj
    change _ + _ * s.wheel.bucketTime ≤ _ + 2 * s.wheel.bucketTime
    rcases TimingWheel.mem_ahead_insertAt ht hj with ht | ⟨rfl, hle⟩
    · exact h.near j hj t ht
    · have hticks := s.wheel.ticks_mul_le hdelay
      have hmul : (j : Int) * s.wheel.bucketTime ≤ s.wheel.ticks delay * s.wheel.bucketTime :=
        Int.mul_le_mul_of_nonneg_right (by omega) (Int.le_of_lt hpos)
      rw [Int.add_mul]
      dsimp only
      omega
  · intro i r hr
    obtain ⟨T, hT, hle⟩ := h.inTime i r hr
    exact ⟨T, hgrow hT, hle⟩

theorem Paced.tick (h : s.Paced) : ∃ s', s.step .tick = .ok s' ∧ s'.Paced := by
  have hpos := s.wheel.bucketTime_pos
  obtain ⟨⟨wheel, called⟩, htick, hvisited⟩ :=
    s.wheel.visited_tick (s.reading + s.wheel.bucketTime) fun t ht =>
      h.fits t ((Carousel.mem_contents _).mpr ⟨0, s.wheel.carousel.size_pos, ht⟩)
  refine ⟨_, bind_ok.mpr ⟨_, htick, rfl⟩, ?_⟩
  have hcalled : called = ((s.wheel.carousel.ahead 0).filter fun t =>
      t.executeAt ≤ s.reading + s.wheel.bucketTime).map TimerTask.callback := hvisited.called
  have hbucket : wheel.bucketTime = s.wheel.bucketTime := hvisited.bucketTime
  have hsize : wheel.carousel.size = s.wheel.carousel.size :=
    hvisited.size.trans s.wheel.carousel.size_turn
  refine ⟨?_, fun t ht => h.known t (hvisited.mem_contents ht), ?_, ?_, ?_⟩
  · have hran : (s.ran ++ called.map (·, s.reading + s.wheel.bucketTime)).map Prod.fst =
        s.ran.map Prod.fst ++ called := by
      simp [Function.comp_def]
    dsimp only
    rw [hran, ← h.tasks, ← hvisited.callbacks, ← Multiset.coe_add, Multiset.add_assoc]
    exact congrArg _ (Multiset.add_comm _ _)
  · intro t ht
    obtain ⟨hleft, hindex⟩ := h.fits t (hvisited.mem_contents ht)
    have hlen : wheel.buckets.length = s.wheel.buckets.length := hsize
    dsimp only
    rw [TimingWheel.Fits, hlen, hbucket]
    refine ⟨by omega, Int.lt_of_le_of_lt (Int.add_le_add_right ?_ _) hindex⟩
    exact Int.ediv_le_ediv hpos (by omega)
  · intro j hj t ht
    dsimp only at hj ht ⊢
    rw [hsize] at hj
    rw [hbucket]
    rcases hvisited.ahead j (hj.trans_eq s.wheel.carousel.size_turn.symm) t ht with ht | ⟨-, ht⟩
    · rw [TimingWheel.carousel_advance, Carousel.ahead_turn _ hj] at ht
      split at ht
      · cases ht
      · have hnear := h.near (j + 1) (by omega) t ht
        rw [Int.natCast_add, Int.natCast_one, Int.add_mul _ 1] at hnear
        omega
    · change _ + _ * s.wheel.bucketTime ≤ _ + s.wheel.bucketTime at ht
      omega
  · intro i r hr
    dsimp only at hr ⊢
    rw [hbucket]
    rcases List.mem_append.mp hr with hr | hr
    · exact h.inTime i r hr
    · obtain ⟨i', hi', heq⟩ := List.mem_map.mp hr
      cases heq
      rw [hcalled] at hi'
      obtain ⟨t, ht, rfl⟩ := List.mem_map.mp hi'
      obtain ⟨ht, hdue⟩ := List.mem_filter.mp ht
      have hnear := h.near 0 s.wheel.carousel.size_pos t ht
      have hknown := h.known t ((Carousel.mem_contents _).mpr ⟨0, s.wheel.carousel.size_pos, ht⟩)
      rw [Int.natCast_zero, Int.zero_add, Int.one_mul] at hnear
      exact ⟨t.executeAt, hknown, of_decide_eq_true hdue, hnear⟩

theorem Paced.step (h : s.Paced) {a : WheelStep} (hallows : s.Allows a) :
    ∃ s', s.step a = .ok s' ∧ s'.Paced := by
  cases a with
  | add now delay => exact h.add hallows
  | tick => exact h.tick

theorem Paced.reachable {tick : Int} {slots : Nat} {htick : 0 < tick} {hslots : 0 < slots}
    {reading : Int} (h : Reachable WheelRun.step Allows (start tick slots htick hslots reading) s) :
    s.Paced := by
  apply h.invariant (.ofStart htick hslots reading)
  intro s a s' hs hallows hstep
  obtain ⟨s₁, hs₁, hpaced⟩ := hs.step hallows
  cases hs₁.symm.trans hstep
  exact hpaced

/-- Whatever is added to a wheel of any size, and whenever, as long as no sum overflows: the wheel
goes on, and each task runs once, at a tick that reads no less than its time and at most two buckets
more. -/
theorem wheel_on_time {tick : Int} {slots : Nat} {htick : 0 < tick} {hslots : 0 < slots}
    {reading : Int} (h : Reachable step Allows (start tick slots htick hslots reading) s) :
    s.OnTime ∧ ∀ a, s.Allows a → ∃ s', s.step a = .ok s' := by
  have hpaced := Paced.reachable h
  refine ⟨hpaced.onTime, fun a ha => ?_⟩
  obtain ⟨s', hs', -⟩ := hpaced.step ha
  exact ⟨s', hs'⟩

def twoSlots : List WheelStep :=
  [.add 5 0, .tick, .add 12 47, .tick, .tick, .tick, .tick, .tick, .tick, .tick]

theorem wheel_on_time_two_slots :
    ∃ s, Reachable step Allows (start 10 2 (by decide) (by decide) 0) s ∧
      s.ran = [(0, 20), (1, 60)] ∧ s.OnTime := by
  have htrace : (Go.run (checked step (fun s a => decide (s.Allows a)) Panic.nilDeref)
      (start 10 2 (by decide) (by decide) 0) twoSlots).toOption.any
      (fun s => decide (s.ran = [(0, 20), (1, 60)])) = true := by
    decide
  obtain ⟨s, hs, hran⟩ := Reachable.ofTrace (fun _ _ h => of_decide_eq_true h) twoSlots _ htrace
  exact ⟨s, hs, of_decide_eq_true hran, (wheel_on_time hs).1⟩

def year2001 : Int := 1000000000000000000

def hours2500000 : Int := 9000000000000000000

/-- A task that is to run in 2500000 hours, after the last moment of an int64 clock, runs at the
next tick; and the index of a task that is put back can overflow and be negative. -/
theorem overflowing_task_runs_early :
    (∃ s, Go.run step (start 10 2 (by decide) (by decide) year2001)
        [.add year2001 hours2500000, .tick] = .ok s ∧
      s.added = [year2001 + hours2500000] ∧ s.ran = [(0, year2001 + 10)] ∧ ¬ s.OnTime) ∧
    Go.run step (start 1 3 (by decide) (by decide) 0) [.add 0 (2 ^ 63 - 1), .tick, .tick] =
      .error .indexOutOfRange := by
  refine ⟨?_, rfl⟩
  have htrace : (Go.run step (start 10 2 (by decide) (by decide) year2001)
      [.add year2001 hours2500000, .tick]).toOption.any (fun s => decide
        (s.added = [year2001 + hours2500000] ∧ s.ran = [(0, year2001 + 10)])) = true := by
    decide +kernel
  obtain ⟨s, hs, hadded, hran⟩ := exists_ok htrace
  refine ⟨s, hs, hadded, hran, fun hon => ?_⟩
  obtain ⟨T, hT, hle, -⟩ := hon.inTime 0 (year2001 + 10) (hran ▸ List.mem_singleton_self _)
  rw [hadded] at hT
  obtain rfl := Option.some.inj hT
  revert hle
  decide

end WheelRun

end Octar
