import Octar.Broker.Credit
import Mathlib.Algebra.BigOperators.Group.List.Basic

namespace Octar

open Go Threads

/-- A goroutine that is about to take a credit has a place of the quota, and one that is about to
give places back has all of them. -/
def quotaLoad : Program Unit → Int
  | .call (.acquireCredit _) _ => 1
  | .call .release k => 1 + quotaLoad (k ())
  | _ => 0

def quotaGain : (c : Cmd) → c.Answer → Int
  | .tryAcquire, taken => if taken then 1 else 0
  | .acquireCredit _, taken => if taken then -1 else 0
  | .releaseCredit _, _ => 1
  | .inflight _, n => n.toNat
  | .release, _ => -1
  | _, _ => 0

theorem ordinary_quota {c : Cmd} (h : c.credits = false) :
    Prog.Ordinary Cmd.Possible (fun p => quotaLoad p = 0)
      (fun c k => ∀ r, c.Possible r → quotaLoad (k r) = quotaLoad (.call c k) +
        quotaGain c r) c := by
  apply Prog.ordinary_of_zero
  · intro k
    cases c <;> first | rfl | cases h
  · intro r
    cases c <;> first | rfl | cases h

theorem quota_calm {p : Program Unit} (h : Built true false p) :
    p.Calm Cmd.Possible (fun p => quotaLoad p = 0)
      fun c k => ∀ r, c.Possible r → quotaLoad (k r) = quotaLoad (.call c k) + quotaGain c r :=
  (parts_of_ordinary (E := fun p => quotaLoad p = 0) rfl fun _ hc => ordinary_quota hc).calm h

theorem release_quota {p : Program Unit} (h : quotaLoad p = 0)
    (hp : p.Balanced Cmd.Possible quotaLoad quotaGain) :
    quotaLoad (do command .release; p) = 1 ∧
      (do command .release; p : Program Unit).Balanced Cmd.Possible quotaLoad quotaGain := by
  have hload : quotaLoad (do command .release; p) = 1 + quotaLoad p := rfl
  refine ⟨by rw [hload, h]; rfl, fun _ _ => ?_, fun _ _ => hp⟩
  change quotaLoad p = 1 + quotaLoad p + -1
  omega

theorem answer_quota (conn : Nat) {p : Program Unit} (h : quotaLoad p = 0)
    (hp : p.Balanced Cmd.Possible quotaLoad quotaGain) :
    (do command (.releaseCredit conn); command .release; p : Program Unit).Balanced
      Cmd.Possible quotaLoad
      quotaGain := by
  obtain ⟨hload, hrelease⟩ := release_quota h hp
  exact ⟨fun _ _ => hload, fun _ _ => hrelease⟩

theorem dispatch_quota (msg : Message) :
    (dispatch msg).Balanced Cmd.Possible quotaLoad quotaGain := by
  obtain ⟨hback, hbackAll⟩ :=
    quota_calm (p := do handBack msg; pure ()) (.bind (.handBack msg) fun _ => .ret ())
  have hdropped : ∀ conn frame,
      quotaLoad (do command (.writeOrDrop conn frame); handBack msg; pure ()) = 0 ∧
      (do command (.writeOrDrop conn frame); handBack msg; pure () : Program Unit).Balanced
        Cmd.Possible quotaLoad
        quotaGain := fun conn frame => ⟨rfl, fun _ _ => hback, fun _ _ => hbackAll⟩
  refine ⟨?_, ?_⟩
  · intro conn _
    cases conn with
    | none => exact (quota_calm (.handBack msg)).1
    | some conn => rfl
  intro conn _
  cases conn with
  | none => exact (quota_calm (.handBack msg)).2
  | some conn =>
    refine ⟨fun counted _ => ?_, fun counted _ => ?_⟩
    · cases counted <;> rfl
    cases counted with
    | false => exact (hdropped conn _).2
    | true =>
      obtain ⟨hreleased, hreleasedAll⟩ := release_quota (hdropped conn _).1 (hdropped conn _).2
      refine ⟨fun credit _ => ?_, fun credit _ => ?_⟩
      · cases credit with
        | false => exact hreleased
        | true => rfl
      cases credit with
      | false => exact hreleasedAll
      | true =>
        refine ⟨fun sent _ => ?_, fun sent _ => ?_⟩
        · cases sent <;> rfl
        cases sent with
        | false => exact answer_quota conn hback hbackAll
        | true => exact ⟨fun _ _ => rfl, fun _ _ => trivial⟩

theorem closing_quota (conn n : Nat) :
    quotaLoad (closing conn n) = n ∧
      (closing conn n).Balanced Cmd.Possible quotaLoad quotaGain := by
  induction n with
  | zero => exact ⟨rfl, fun _ _ => rfl, fun _ _ => ⟨fun _ _ => rfl, fun _ _ => trivial⟩⟩
  | succ n ih =>
    have hload : quotaLoad (closing conn (n + 1)) = 1 + quotaLoad (closing conn n) := rfl
    refine ⟨?_, fun _ _ => ?_, fun _ _ => ih.2⟩
    · rw [hload, ih.1]
      omega
    · change quotaLoad (closing conn n) = 1 + quotaLoad (closing conn n) + -1
      omega

theorem teardown_quota (conn : Nat) :
    (teardown conn).Balanced Cmd.Possible quotaLoad quotaGain := by
  rw [teardown_eq]
  refine ⟨fun leaked _ => ?_, fun leaked _ => (closing_quota conn _).2⟩
  rw [(closing_quota conn _).1]
  exact (Int.zero_add _).symm

theorem quota_balanced_task (t : Task) (ht : t.Proper) :
    t.program.Balanced Cmd.Possible quotaLoad quotaGain :=
  all_task_of_credits (E := fun p => quotaLoad p = 0) rfl (fun _ hc => ordinary_quota hc)
    (fun conn _ hp => answer_quota conn hp.1 hp.2) dispatch_quota teardown_quota t ht

theorem quotaLoad_task (t : Task) : quotaLoad t.program = 0 := by
  cases t with
  | frame conn ns f pages => cases f <;> rfl
  | activate g =>
    simp only [Task.program, activate]
    split <;> rfl
  | _ => rfl

def readLoad (i : Nat) : Program Unit → Int
  | .call (.inflight conn) _ => if conn = i then 1 else 0
  | _ => 0

def readGain (i : Nat) (c : Cmd) (_ : c.Answer) : Int := if c.reads i then -1 else 0

theorem readLoad_nonneg (i : Nat) (p : Program Unit) : 0 ≤ readLoad i p := by
  unfold readLoad
  split <;> omega

theorem ordinary_read (i : Nat) {c : Cmd} (h : ∀ conn, c ≠ .inflight conn) :
    Prog.Ordinary Cmd.Possible (fun p => readLoad i p = 0)
      (fun c k => ∀ r, c.Possible r → readLoad i (k r) = readLoad i (.call c k) +
        readGain i c r) c := by
  apply Prog.ordinary_of_zero
  · intro k
    cases c <;> first | rfl | exact absurd rfl (h _)
  · intro r
    cases c <;> first | rfl | exact absurd rfl (h _)

theorem parts_read (i : Nat) :
    Parts true true (fun p => readLoad i p = 0)
      fun c k => ∀ r, c.Possible r → readLoad i (k r) = readLoad i (.call c k) +
        readGain i c r where
  ret := rfl
  plain c hc := by
    refine ordinary_read i ?_
    rintro conn rfl
    exact hc
  activate g := by
    refine activate_keeps g fun c hc => ordinary_read i ?_
    rintro conn rfl
    rcases hc with hc | hc <;> cases hc
  scheduleWake g wakeNs := by
    refine scheduleWake_keeps g wakeNs fun c hc => ordinary_read i ?_
    rintro conn rfl
    rcases hc with hc | hc <;> cases hc
  publishAs g msgID payload _ :=
    publishAs_keeps g msgID payload (ordinary_read i fun _ h => (nomatch h))
      (ordinary_read i fun _ h => (nomatch h))

theorem read_balanced_task (i : Nat) (t : Task) (ht : t.Proper) :
    t.program.Balanced Cmd.Possible (readLoad i) (readGain i) := by
  refine all_task (parts_read i) (fun _ h _ _ => h) (fun _ _ h _ _ => h) ?_ t ht
  intro conn h leaked _
  rw [h leaked.toNat]
  change (0 : Int) = (if conn = i then 1 else 0) + if (conn == i) = true then -1 else 0
  by_cases hi : conn = i <;> simp [hi]

theorem readLoad_task (i : Nat) (t : Task) (ht : t.Proper) :
    readLoad i t.program = if t = .teardown i then 1 else 0 := by
  obtain hbuilt | ⟨g, rfl⟩ | ⟨g, wakeNs, rfl⟩ | ⟨conn, rfl⟩ := t.built ht
  · have hne : t ≠ .teardown i := by
      rintro rfl
      have hcalm := ((parts_read i).calm hbuilt).1
      simp [Task.program, teardown_eq, readLoad] at hcalm
    rw [if_neg hne]
    exact ((parts_read i).calm hbuilt).1
  · rfl
  · rfl
  · simp [Task.program, teardown_eq, readLoad]

namespace Conn

def toCount (C : Conn) : Int := (if C.reading then 0 else 1) - if C.counted then 1 else 0

def openInflight (C : Conn) : Int := if C.counted then 0 else C.inflight

end Conn

def Runtime.openInflight (s : Runtime) : Int := (s.conns.map Conn.openInflight).sum

def Cmd.quotaChange : (c : Cmd) → c.Answer → Int
  | .tryAcquire, taken => if taken then 1 else 0
  | .release, _ => -1
  | _, _ => 0

section Handle

variable [PathMatch] {ch : Choice} {c : Cmd} {s s' : Runtime} {r : c.Answer}

theorem Cmd.handle_quota (hmax : 0 < s.cfg.globalMax) (h : c.handle ch s = .ok (s', r)) :
    s'.quota = s.quota + c.quotaChange r := by
  by_cases hc : c.part = .quota
  case neg =>
    have hchange : c.quotaChange r = 0 := by
      cases c <;> first | rfl | exact absurd rfl hc
    rw [(handle_frame h).quota hc, hchange, Int.add_zero]
  cases c with
  | tryAcquire =>
    simp only [Cmd.handle, if_neg (Int.not_le.mpr hmax)] at h
    split at h
    · cases h
      exact (Int.add_zero _).symm
    · cases h
      rfl
  | release =>
    simp only [Cmd.handle, if_pos hmax] at h
    cases h
    rfl
  | _ => cases hc

theorem Cmd.handle_openInflight (h : c.handle ch s = .ok (s', r))
    (hoff : ∀ i, c.creditChange i r = 0 ∧ c.reads i = false) :
    s'.openInflight = s.openInflight := by
  refine congrArg List.sum (List.ext_getElem? fun i => ?_)
  rw [List.getElem?_map, List.getElem?_map]
  rcases handle_conn h i with ⟨hnone, hnone', -⟩ | ⟨C, C', hC, hC', hon⟩
  · rw [hnone, hnone']
  · have hinflight := hon.inflight
    have hcounted := hon.counted
    rw [(hoff i).1, Int.add_zero] at hinflight
    rw [(hoff i).2, Bool.or_false] at hcounted
    rw [hC, hC', Option.map_some, Option.map_some, Conn.openInflight, Conn.openInflight, hinflight,
      hcounted]

end Handle

namespace System

def answersOnce (sys : System) : Label → Bool
  | .receive conn f _ => sys.answersSent conn f
  | _ => true

/-- Once the counter of a connection was read at its end, it does not change: no credit is taken,
and none given back. -/
def counterKept (sys : System) : Label → Bool
  | .run thread _ =>
    (sys.threads[thread]?).all fun t =>
      match t.next? with
      | some (.acquireCredit conn) =>
        (sys.state.conns[conn]?).all fun C => !C.counted || sys.state.cfg.maxInflight ≤ C.inflight
      | some (.releaseCredit conn) => (sys.state.conns[conn]?).all fun C => !C.counted
      | _ => true
  | _ => true

theorem answersSentOn_of_once {sys : System} {l : Label} (h : sys.answersOnce l = true) (i : Nat) :
    sys.answersSentOn i l = true := by
  cases l with
  | receive conn f pages => exact Bool.or_eq_true_iff.mpr (.inr h)
  | _ => rfl

structure Counted (i : Nat) (sys : System) : Prop where
  balanced : ∀ t ∈ sys.threads, t.prog.Balanced Cmd.Possible (readLoad i) (readGain i)
  toCount : sys.state.connValue Conn.toCount i = total (readLoad i) sys.threads

variable {sys sys' : System} {l : Label} {i : Nat}

theorem Counted.not_counted (hsys : sys.Counted i) {t : Goroutine} (ht : t ∈ sys.threads)
    (hload : readLoad i t.prog = 1) {C : Conn} (hC : sys.state.conns[i]? = some C) :
    C.counted = false := by
  have hle := load_le_total (readLoad_nonneg i) ht
  rw [hload, ← hsys.toCount, Runtime.connValue, hC, Option.elim_some, Conn.toCount] at hle
  cases hcounted : C.counted with
  | false => rfl
  | true =>
    rw [hcounted] at hle
    split at hle <;> simp at hle

variable [PathMatch]

theorem Counted.toCount_step (hsys : sys.Counted i) (hregular : sys.Regular) (h : sys.Step l sys') :
    sys'.state.connValue Conn.toCount i = total (readLoad i) sys'.threads := by
  have hold := hsys.toCount
  have hspawn : ∀ {s : Runtime} {t : Task}, t.Proper →
      s.connValue Conn.toCount i = sys.state.connValue Conn.toCount i +
        (if t = .teardown i then 1 else 0) →
      s.connValue Conn.toCount i = total (readLoad i) (sys.threads ++ [t.start]) := by
    intro s t ht hs
    rw [hs, total_append, hold, ← readLoad_task i t ht]
    rfl
  cases h with
  | declare => exact hold
  | connect => exact (Runtime.connValue_connect _ rfl i).trans hold
  | @receive conn pages f C reader valid =>
    refine hspawn (t := .frame conn C.ns f pages) valid ?_
    exact (Runtime.connValue_set _ (atReader_conn reader) _ i).trans (by simp [Conn.toCount])
  | @disconnect conn C reader =>
    have hreading : C.reading = true := by
      have hfilter := Option.filter_eq_some_iff.mp reader
      exact (Bool.and_eq_true_iff.mp hfilter.2).1
    refine hspawn (t := .teardown conn) trivial ?_
    refine (Runtime.connValue_set _ (atReader_conn reader) _ i).trans ?_
    simp only [Conn.toCount, hreading, if_true, Task.teardown.injEq]
    split <;> simp
  | @deliver _ _ msg => exact hspawn (t := .dispatch msg) trivial (Int.add_zero _).symm
  | @process g => exact hspawn (t := .process g) trivial (Int.add_zero _).symm
  | @fire _ g wakeNs => exact hspawn (t := .timer g wakeNs) trivial (Int.add_zero _).symm
  | @activate g => exact hspawn (t := .activate g) trivial (Int.add_zero _).symm
  | sweep => exact hspawn (t := .sweep) trivial (Int.add_zero _).symm
  | @flush conn n C opened =>
    refine (Runtime.connValue_set _ opened _ i).trans ?_
    simpa [Conn.toCount] using hold
  | @run thread ch task c k s r next handled =>
    have hmem := List.mem_of_getElem? next
    rw [total_advance next (hsys.balanced _ hmem) (Cmd.handle_possible hregular.placed handled),
      ← hold]
    simp only [Runtime.connValue, readGain]
    rcases Cmd.handle_conn handled i with ⟨hnone, hnone', hoff⟩ | ⟨C, C', hC, hC', hon⟩
    · rw [hnone, hnone', hoff.reads]
      rfl
    · rw [hC, hC', Option.elim_some, Option.elim_some, Conn.toCount, Conn.toCount, hon.reading,
        hon.counted]
      cases hreads : c.reads i with
      | false => simp
      | true =>
        have hload : readLoad i (.call c k) = 1 := by
          cases c <;> first | cases hreads | exact if_pos (eq_of_beq hreads)
        simp [hsys.not_counted hmem hload hC, Int.sub_eq_add_neg]

theorem Counted.step (hsys : sys.Counted i) (hregular : sys.Regular) (h : sys.Step l sys') :
    sys'.Counted i := by
  refine ⟨?_, hsys.toCount_step hregular h⟩
  refine h.threads hsys.balanced (read_balanced_task i) ?_
  intro ch task c k s r handled hall
  exact hall.2 r (Cmd.handle_possible hregular.placed handled)

structure Quotaed (sys : System) : Prop where
  regular : sys.Regular
  globalMax : 0 < sys.state.cfg.globalMax
  credited : ∀ i, sys.Credited i
  counted : ∀ i, sys.Counted i
  balanced : ∀ t ∈ sys.threads, t.prog.Balanced Cmd.Possible quotaLoad quotaGain
  quota : sys.state.quota = sys.state.openInflight + total quotaLoad sys.threads

omit [PathMatch] in
theorem quotaed_start {cfg : RuntimeConfig} (hmax : 0 < cfg.globalMax) (chs : List DispatchCh) :
    (start cfg chs).Quotaed := by
  refine ⟨regular_start cfg chs, hmax, credited_start cfg chs, fun i => ⟨?_, rfl⟩, ?_, rfl⟩
  all_goals
    intro t ht
    cases ht

omit [PathMatch] in
theorem openInflight_set {s : Runtime} {conn : Nat} {C : Conn} (hC : s.conns[conn]? = some C)
    (C' : Conn) :
    Runtime.openInflight { s with conns := s.conns.set conn C' } =
      s.openInflight - C.openInflight + C'.openInflight := sum_map_set Conn.openInflight hC C'

theorem Quotaed.quota_run (hsys : sys.Quotaed) {thread : Nat} {ch : Choice} {task : Task} {c : Cmd}
    {k : c.Answer → Program Unit} {s : Runtime} {r : c.Answer}
    (hkept : sys.counterKept (.run thread ch) = true)
    (next : sys.threads[thread]? = some ⟨task, .call c k⟩)
    (handled : c.handle ch sys.state = .ok (s, r)) :
    s.quota = s.openInflight + (total quotaLoad sys.threads + quotaGain c r) := by
  have hquota := hsys.quota
  have hchange := Cmd.handle_quota hsys.globalMax handled
  have hsame : quotaGain c r = c.quotaChange r → (∀ i, c.creditChange i r = 0 ∧ c.reads i = false) →
      s.quota = s.openInflight + (total quotaLoad sys.threads + quotaGain c r) := by
    intro hgain hoff
    rw [Cmd.handle_openInflight handled hoff]
    omega
  simp only [counterKept, next, Option.all_some, Thread.next?] at hkept
  cases c with
  | acquireCredit conn =>
    obtain ⟨C, C', hC, hf, hs⟩ := Runtime.atConn_ok handled
    split at hf
    · cases hf
      exact hsame rfl fun i => ⟨rfl, rfl⟩
    · rename_i hfree
      cases hf
      simp only [hC, Option.all_some, Bool.or_eq_true, Bool.not_eq_true',
        decide_eq_true_eq] at hkept
      have hcounted := hkept.resolve_right hfree
      have hset := openInflight_set hC { C with inflight := C.inflight + 1 }
      rw [← hs, Conn.openInflight, Conn.openInflight, hcounted] at hset
      change s.quota = sys.state.quota + 0 at hchange
      change s.quota = s.openInflight + (total quotaLoad sys.threads + -1)
      rw [hset, if_neg Bool.false_ne_true, if_neg Bool.false_ne_true]
      dsimp only
      omega
  | releaseCredit conn =>
    obtain ⟨C, C', hC, hf, hs⟩ := Runtime.atConn_ok handled
    cases hf
    simp only [hC, Option.all_some, Bool.not_eq_true'] at hkept
    have hset := openInflight_set hC { C with inflight := C.inflight - 1 }
    rw [← hs, Conn.openInflight, Conn.openInflight, hkept] at hset
    change s.quota = sys.state.quota + 0 at hchange
    change s.quota = s.openInflight + (total quotaLoad sys.threads + 1)
    rw [hset, if_neg Bool.false_ne_true, if_neg Bool.false_ne_true]
    dsimp only
    omega
  | inflight conn =>
    obtain ⟨C, C', hC, hf, hs⟩ := Runtime.atConn_ok handled
    cases hf
    have hcounted := (hsys.counted conn).not_counted (List.mem_of_getElem? next) (if_pos rfl) hC
    have hle := (hsys.credited conn).unanswered_le hC
    have hset := openInflight_set hC { C with counted := true }
    rw [← hs, Conn.openInflight, Conn.openInflight, hcounted] at hset
    change s.quota = sys.state.quota + 0 at hchange
    change s.quota = s.openInflight + (total quotaLoad sys.threads + C.inflight.toNat)
    rw [hset, if_neg Bool.false_ne_true, if_pos rfl]
    omega
  | _ => exact hsame rfl fun i => ⟨rfl, rfl⟩

theorem Quotaed.quota_step (hsys : sys.Quotaed) (hkept : sys.counterKept l = true)
    (h : sys.Step l sys') :
    sys'.state.quota = sys'.state.openInflight + total quotaLoad sys'.threads := by
  have hold := hsys.quota
  have hspawn : ∀ {s : Runtime} {t : Task}, s.quota = sys.state.quota →
      s.openInflight = sys.state.openInflight →
      s.quota = s.openInflight + total quotaLoad (sys.threads ++ [t.start]) := by
    intro s t hquota hopen
    have hload : quotaLoad t.start.prog = 0 := quotaLoad_task t
    rw [total_append, hload, Int.add_zero, hquota, hopen]
    exact hold
  have hset : ∀ {conn : Nat} {C : Conn} (C' : Conn), sys.state.conns[conn]? = some C →
      C'.openInflight = C.openInflight →
      Runtime.openInflight { sys.state with conns := sys.state.conns.set conn C' } =
        sys.state.openInflight := by
    intro conn C C' hC hopen
    rw [openInflight_set hC, hopen]
    omega
  cases h with
  | declare => exact hold
  | connect =>
    refine hold.trans (congrArg (· + _) ?_)
    simp [Runtime.openInflight, Conn.openInflight]
  | receive reader => exact hspawn rfl (hset _ (atReader_conn reader) rfl)
  | disconnect reader => exact hspawn rfl (hset _ (atReader_conn reader) rfl)
  | deliver | process | fire | activate | sweep => exact hspawn rfl rfl
  | @flush conn n C opened =>
    exact hold.trans (congrArg (· + _) (hset { C with out := C.out.drop n } opened rfl).symm)
  | run next handled =>
    have hbalanced := hsys.balanced _ (List.mem_of_getElem? next)
    rw [total_advance next hbalanced (Cmd.handle_possible hsys.regular.placed handled)]
    exact hsys.quota_run hkept next handled

theorem Quotaed.step (hsys : sys.Quotaed) (honce : sys.answersOnce l = true)
    (hkept : sys.counterKept l = true) (h : sys.Step l sys') : sys'.Quotaed where
  regular := hsys.regular.step h
  globalMax := h.cfg ▸ hsys.globalMax
  credited i := (hsys.credited i).step (answersSentOn_of_once honce i) h
  counted i := (hsys.counted i).step hsys.regular h
  balanced := by
    refine h.threads hsys.balanced quota_balanced_task ?_
    intro ch task c k s r handled hall
    exact hall.2 r (Cmd.handle_possible hsys.regular.placed handled)
  quota := hsys.quota_step hkept h

end System

def Task.background : Task → Bool
  | .process _ | .timer .. | .activate _ | .sweep => true
  | _ => false

theorem background_task (t : Task) (ht : t.Proper) (hbackground : t.background = true) :
    t.program.All Cmd.Possible fun c _ => c.credits = false := by
  have hcalm : ∀ {p : Program Unit}, Built true false p → p.All Cmd.Possible fun c _ =>
      c.credits = false :=
    fun hp => ((parts_of_ordinary (E := fun _ => True) trivial fun _ hc _ _ =>
      ⟨trivial, hc⟩).calm hp).2
  cases t with
  | frame | teardown | dispatch => cases hbackground
  | process g => exact ⟨rfl, fun _ _ => hcalm (.drainActivated g)⟩
  | timer g wakeNs => exact ⟨rfl, fun _ _ => hcalm (.activate g)⟩
  | activate g => exact hcalm (.activate g)
  | sweep => exact hcalm (p := sweepLeases) (.seq trivial fun queues _ => .sweepAll queues)

namespace System

def Backgrounds (sys : System) : Prop :=
  ∀ t ∈ sys.threads, t.task.background = true → t.prog.All Cmd.Possible fun c _ => c.credits = false

def allClosed (sys : System) : Bool :=
  sys.state.conns.all (fun C => !C.reading) && sys.threads.all fun t =>
    t.task.background || t.finished

variable {sys : System}

theorem Backgrounds.load_eq_zero (hsys : sys.Backgrounds) (hclosed : sys.allClosed = true)
    {load : Program Unit → Int} (hret : load (.ret ()) = 0)
    (hcredits : ∀ c k, c.credits = false → load (.call c k) = 0) :
    total load sys.threads = 0 := by
  refine total_eq_zero fun t ht => ?_
  have hdone := List.all_eq_true.mp (Bool.and_eq_true_iff.mp hclosed).2 t ht
  have hall := hsys t ht
  obtain ⟨task, p⟩ := t
  cases p with
  | ret a => exact hret
  | call c k =>
    rcases Bool.or_eq_true_iff.mp hdone with hbackground | hfinished
    · exact hcredits c k (hall hbackground).1
    · cases hfinished

theorem Quotaed.quota_eq_zero (hsys : sys.Quotaed) (hbackgrounds : sys.Backgrounds)
    (hclosed : sys.allClosed = true) :
    sys.state.quota = 0 := by
  have hloads : total quotaLoad sys.threads = 0 := by
    refine hbackgrounds.load_eq_zero hclosed rfl fun c k hc => ?_
    cases c <;> first | rfl | cases hc
  have hcounted : ∀ (i : Nat) (C : Conn), sys.state.conns[i]? = some C → C.openInflight = 0 := by
    intro i C hC
    have hreading : C.reading = false := by
      simpa using List.all_eq_true.mp (Bool.and_eq_true_iff.mp hclosed).1 C
        (List.mem_of_getElem? hC)
    have hread : total (readLoad i) sys.threads = 0 := by
      refine hbackgrounds.load_eq_zero hclosed rfl fun c k hc => ?_
      cases c <;> first | rfl | cases hc
    have hcount := (hsys.counted i).toCount
    rw [hread, Runtime.connValue, hC, Option.elim_some, Conn.toCount, hreading] at hcount
    rw [Conn.openInflight]
    cases hcase : C.counted with
    | true => rfl
    | false =>
      rw [hcase] at hcount
      cases hcount
  have hopen : sys.state.openInflight = 0 := by
    refine List.sum_eq_zero fun n hn => ?_
    obtain ⟨C, hC, rfl⟩ := List.mem_map.mp hn
    obtain ⟨i, hi⟩ := List.getElem?_of_mem hC
    exact hcounted i C hi
  rw [hsys.quota, hopen, hloads]
  rfl

variable [PathMatch]

/-- If the clients answer what they receive at most once, and no credit of a connection is taken or
given back after its counter was read at the end, then nothing is left of the quota when everything
is closed. -/
theorem quota_returns_to_zero {cfg : RuntimeConfig} {chs : List DispatchCh}
    (hmax : 0 < cfg.globalMax)
    (h : Reachable System.step (fun sys l => sys.answersOnce l = true ∧ sys.counterKept l = true)
      (start cfg chs) sys) (hclosed : sys.allClosed = true) : sys.state.quota = 0 := by
  have hstart : (start cfg chs).Quotaed ∧ (start cfg chs).Backgrounds :=
    ⟨quotaed_start hmax chs, fun t ht => (nomatch ht)⟩
  obtain ⟨hquotaed, hbackgrounds⟩ : sys.Quotaed ∧ sys.Backgrounds := by
    refine h.invariant (motive := fun sys => sys.Quotaed ∧ sys.Backgrounds) hstart ?_
    rintro sys l sys' ⟨hquotaed, hbackgrounds⟩ ⟨honce, hkept⟩ hstep
    have hstep := step_ok hstep
    refine ⟨hquotaed.step honce hkept hstep, ?_⟩
    refine hstep.threads hbackgrounds background_task ?_
    intro ch task c k s r handled hall hbackground
    exact (hall hbackground).2 r (Cmd.handle_possible hquotaed.regular.placed handled)
  exact hquotaed.quota_eq_zero hbackgrounds hclosed

end System

def disconnectedLabels : List Label := receivedLabels ++ [.disconnect 0] ++ runTimes 3 4 []

theorem quota_returns_to_zero_sample :
    ∃ sys, Reachable (@System.step literalMatch)
        (fun sys l => sys.answersOnce l = true ∧ sys.counterKept l = true)
          (.start ⟨1, 1, 0⟩ [⟨1, []⟩]) sys ∧
      sys.allClosed = true ∧ sys.state.quota = 0 := by
  have htrace :
      (run (checked (@System.step literalMatch) (fun sys l => sys.answersOnce l &&
        sys.counterKept l) .blocked)
      (.start ⟨1, 1, 0⟩ [⟨1, []⟩]) disconnectedLabels).toOption.any System.allClosed = true := by
    decide +kernel
  obtain ⟨sys, hreach, hclosed⟩ :=
    Reachable.ofTrace (fun _ _ h => Bool.and_eq_true_iff.mp h) disconnectedLabels _ htrace
  have hmax : (0 : Int) < (⟨1, 1, 0⟩ : RuntimeConfig).globalMax := by decide
  exact ⟨sys, hreach, hclosed,
    @System.quota_returns_to_zero sys literalMatch _ _ hmax hreach hclosed⟩

def overtakenLabels : List Label :=
  [.declare (str "n") (str "q") [], .connect (str "n"),
    .receive 0 (.subscribe (str "q") (str "*")) 1] ++
  runTimes 0 3 [] ++ [.receive 0 (.publish (str "q") (str "g") (str "p")) 0] ++
  runTimes 1 13 (str "m1") ++ [.deliver 0] ++ runTimes 2 1 [] ++ [.disconnect 0] ++
    runTimes 3 1 [] ++ runTimes 2 4 [] ++ runTimes 3 2 []

/-- The place that the worker took is never given back. -/
theorem disconnect_leaks_quota :
    ∃ sys, Reachable (@System.step literalMatch) (fun sys l => sys.answersOnce l = true)
        (.start ⟨1, 1, 0⟩ [⟨1, []⟩]) sys ∧
      sys.allClosed = true ∧ sys.state.quota = 1 := by
  have htrace : (run (checked (@System.step literalMatch) System.answersOnce .blocked)
      (.start ⟨1, 1, 0⟩ [⟨1, []⟩]) overtakenLabels).toOption.any
        (fun sys => sys.allClosed && decide (sys.state.quota = 1)) = true := by decide +kernel
  obtain ⟨sys, hreach, hleaked⟩ := Reachable.ofTrace (fun _ _ h => h) overtakenLabels _ htrace
  obtain ⟨hclosed, hquota⟩ := Bool.and_eq_true_iff.mp hleaked
  exact ⟨sys, hreach, hclosed, of_decide_eq_true hquota⟩

end Octar
