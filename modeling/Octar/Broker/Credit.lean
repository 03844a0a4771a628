import Octar.Broker.Activation

namespace Octar

open Go Threads

def Cmd.creditChange (i : Nat) : (c : Cmd) → c.Answer → Int
  | .acquireCredit conn, taken => if taken = true ∧ conn = i then 1 else 0
  | .releaseCredit conn, _ => if conn = i then -1 else 0
  | _, _ => 0

def Cmd.writtenTo (i : Nat) : (c : Cmd) → c.Answer → Int
  | .writeMessage conn _, sent => if sent = true ∧ conn = i then 1 else 0
  | _, _ => 0

def Cmd.reads (i : Nat) : Cmd → Bool
  | .inflight conn => conn == i
  | _ => false

structure Cmd.Off (i : Nat) (c : Cmd) (r : c.Answer) : Prop where
  credit : c.creditChange i r = 0
  written : c.writtenTo i r = 0
  reads : c.reads i = false

structure Cmd.OnConn (maxInflight : Int) (i : Nat) (c : Cmd) (r : c.Answer) (C C' : Conn) :
    Prop where
  inflight : C'.inflight = C.inflight + c.creditChange i r
  unanswered : (C'.unanswered.length : Int) = C.unanswered.length + c.writtenTo i r
  reading : C'.reading = C.reading
  counted : C'.counted = (C.counted || c.reads i)
  bound : C.inflight ≤ maxInflight → C'.inflight ≤ maxInflight

theorem Cmd.Off.onConn {maxInflight : Int} {i : Nat} {c : Cmd} {r : c.Answer} (h : c.Off i r)
    (C : Conn) (out : List OutFrame) (stopped : Bool) :
    c.OnConn maxInflight i r C { C with out := out, stopped := stopped } := by
  refine ⟨?_, ?_, rfl, ?_, fun h => h⟩
  · rw [h.credit, Int.add_zero]
  · rw [h.written, Int.add_zero]
  · rw [h.reads, Bool.or_false]

theorem Cmd.handle_conn [PathMatch] {ch : Choice} {c : Cmd} {s s' : Runtime} {r : c.Answer}
    (h : c.handle ch s = .ok (s', r)) (i : Nat) :
    s.conns[i]? = none ∧ s'.conns[i]? = none ∧ c.Off i r ∨
      ∃ C C', s.conns[i]? = some C ∧ s'.conns[i]? = some C' ∧
        c.OnConn s.cfg.maxInflight i r C C' := by
  have hsame : s'.conns[i]? = s.conns[i]? → c.Off i r →
      s.conns[i]? = none ∧ s'.conns[i]? = none ∧ c.Off i r ∨
        ∃ C C', s.conns[i]? = some C ∧ s'.conns[i]? = some C' ∧
          c.OnConn s.cfg.maxInflight i r C C' := by
    intro hconns hoff
    cases hC : s.conns[i]? with
    | none => exact .inl ⟨rfl, hconns.trans hC, hoff⟩
    | some C => exact .inr ⟨C, C, rfl, hconns.trans hC, hoff.onConn C C.out C.stopped⟩
  -- a command on the connection `conn`
  have hset : ∀ {conn : Nat} {C C' : Conn}, s.conns[conn]? = some C →
      s'.conns = s.conns.set conn C' →
      (conn ≠ i → c.Off i r) → (conn = i → c.OnConn s.cfg.maxInflight i r C C') →
      s.conns[i]? = none ∧ s'.conns[i]? = none ∧ c.Off i r ∨
        ∃ C C', s.conns[i]? = some C ∧ s'.conns[i]? = some C' ∧
          c.OnConn s.cfg.maxInflight i r C C' := by
    intro conn C C' hC hconns hother hself
    by_cases heq : conn = i
    · subst heq
      refine .inr ⟨C, C', hC, ?_, hself rfl⟩
      rw [hconns]
      exact List.getElem?_set_self (List.getElem?_eq_some_iff.mp hC).1
    · refine hsame ?_ (hother heq)
      rw [hconns]
      exact List.getElem?_set_ne heq
  by_cases hc : c.part = .conns
  case neg =>
    refine hsame ?_ ?_
    · rw [(handle_frame h).conns hc]
    · cases c <;> first | exact ⟨rfl, rfl, rfl⟩ | exact absurd rfl hc
  cases c with
  | acquireCredit conn =>
    obtain ⟨C, C', hC, hf, hs'⟩ := Runtime.atConn_ok h
    split at hf
    · cases hf
      have hoff : (acquireCredit conn).Off i false := ⟨rfl, rfl, rfl⟩
      exact hset hC (congrArg Runtime.conns hs') (fun _ => hoff) fun _ =>
        hoff.onConn C C.out C.stopped
    · rename_i hfree
      cases hf
      refine hset hC (congrArg Runtime.conns hs') (fun hne => ⟨if_neg fun h => hne h.2, rfl, rfl⟩)
        fun heq => ⟨?_, ?_, rfl, ?_, ?_⟩
      · exact congrArg (C.inflight + ·) (if_pos ⟨rfl, heq⟩).symm
      · exact (Int.add_zero _).symm
      · exact (Bool.or_false _).symm
      · intro _
        exact Int.not_le.mp hfree
  | releaseCredit conn =>
    obtain ⟨C, C', hC, hf, hs'⟩ := Runtime.atConn_ok h
    cases hf
    refine hset hC (congrArg Runtime.conns hs') (fun hne => ⟨if_neg hne, rfl, rfl⟩) fun heq =>
      ⟨?_, ?_, rfl, ?_, ?_⟩
    · exact congrArg (C.inflight + ·) (if_pos heq).symm
    · exact (Int.add_zero _).symm
    · exact (Bool.or_false _).symm
    · intro hle
      change C.inflight - 1 ≤ _
      omega
  | inflight conn =>
    obtain ⟨C, C', hC, hf, hs'⟩ := Runtime.atConn_ok h
    cases hf
    refine hset hC (congrArg Runtime.conns hs') (fun hne => ⟨rfl, rfl, beq_false_of_ne hne⟩)
      fun heq => ⟨(Int.add_zero _).symm, (Int.add_zero _).symm, rfl, ?_, fun h => h⟩
    simp [reads, heq]
  | writeMessage conn msg =>
    obtain ⟨⟨s₁, sent⟩, h₁, hret⟩ := bind_ok.mp h
    obtain ⟨C, C', hC, hf, rfl⟩ := Runtime.atConn_ok h₁
    split at hf
    · cases hf
      cases hret
      refine hset hC rfl (fun hne => ⟨rfl, if_neg fun h => hne h.2, rfl⟩) fun heq =>
        ⟨?_, ?_, rfl, ?_, fun h => h⟩
      · exact (Int.add_zero _).symm
      · simp [writtenTo, heq]
      · exact (Bool.or_false _).symm
    · cases hf
      cases hret
      have hoff : (writeMessage conn msg).Off i false := ⟨rfl, rfl, rfl⟩
      exact hset hC rfl (fun _ => hoff) fun _ => hoff.onConn C C.out C.stopped
  | writeOrDrop conn frame =>
    obtain ⟨C, C', hC, hf, hs'⟩ := Runtime.atConn_ok h
    cases hf
    have hoff : (writeOrDrop conn frame).Off i () := ⟨rfl, rfl, rfl⟩
    refine hset hC (congrArg Runtime.conns hs') (fun _ => hoff) fun _ => ?_
    split <;> exact hoff.onConn C _ C.stopped
  | writeOrWait conn frame =>
    obtain ⟨C, C', hC, hf, hs'⟩ := Runtime.atConn_ok h
    have hoff : (writeOrWait conn frame).Off i () := ⟨rfl, rfl, rfl⟩
    refine hset hC (congrArg Runtime.conns hs') (fun _ => hoff) fun _ => ?_
    split at hf
    · cases hf
      exact hoff.onConn C _ C.stopped
    · split at hf
      · cases hf
        exact hoff.onConn C C.out C.stopped
      · cases hf
  | close conn =>
    obtain ⟨C, C', hC, hf, hs'⟩ := Runtime.atConn_ok h
    cases hf
    have hoff : (close conn).Off i () := ⟨rfl, rfl, rfl⟩
    exact hset hC (congrArg Runtime.conns hs') (fun _ => hoff) fun _ => hoff.onConn C C.out true
  | _ => cases hc

def creditLoad (i : Nat) : Program Unit → Int
  | .call (.writeMessage conn _) _ | .call (.releaseCredit conn) _ => if conn = i then 1 else 0
  | _ => 0

def creditGain (i : Nat) (c : Cmd) (r : c.Answer) : Int := c.creditChange i r - c.writtenTo i r

theorem creditLoad_nonneg (i : Nat) (p : Program Unit) : 0 ≤ creditLoad i p := by
  unfold creditLoad
  split <;> omega

section Balanced

variable (i : Nat)

theorem ordinary_credit {c : Cmd} (h : c.credits = false) :
    Prog.Ordinary Cmd.Possible (fun p => creditLoad i p = 0)
      (fun c k => ∀ r, c.Possible r → creditLoad i (k r) = creditLoad i (.call c k) +
        creditGain i c r) c := by
  apply Prog.ordinary_of_zero
  · intro k
    cases c <;> first | rfl | cases h
  · intro r
    cases c <;> first | rfl | cases h

theorem calm_of_built {p : Program Unit} (h : Built true false p) :
    p.Calm Cmd.Possible (fun p => creditLoad i p = 0)
      fun c k => ∀ r, c.Possible r → creditLoad i (k r) = creditLoad i (.call c k) +
        creditGain i c r :=
  (parts_of_ordinary (E := fun p => creditLoad i p = 0) rfl fun _ hc => ordinary_credit i hc).calm h

theorem answer_balanced (conn : Nat) {p : Program Unit} (h : creditLoad i p = 0)
    (hp : p.Balanced Cmd.Possible (creditLoad i) (creditGain i)) :
    (do command (.releaseCredit conn); command .release; p : Program Unit).Balanced
      Cmd.Possible (creditLoad i) (creditGain i) := by
  refine ⟨fun _ _ => ?_, fun _ _ => ⟨fun _ _ => h, fun _ _ => hp⟩⟩
  change (0 : Int) = (if conn = i then 1 else 0) + ((if conn = i then -1 else 0) - 0)
  split <;> rfl

theorem dispatch_balanced (msg : Message) :
    (dispatch msg).Balanced Cmd.Possible (creditLoad i) (creditGain i) := by
  obtain ⟨hback, hbackAll⟩ :=
    calm_of_built i (p := do handBack msg; pure ()) (.bind (.handBack msg) fun _ => .ret ())
  refine ⟨?_, ?_⟩
  · intro conn _
    cases conn with
    | none => exact (calm_of_built i (.handBack msg)).1
    | some conn => rfl
  intro conn _
  cases conn with
  | none => exact (calm_of_built i (.handBack msg)).2
  | some conn =>
    refine ⟨fun counted _ => ?_, fun counted _ => ?_⟩
    · cases counted <;> rfl
    cases counted with
    | false => exact ⟨fun _ _ => hback, fun _ _ => hbackAll⟩
    | true =>
      refine ⟨fun credit _ => ?_, fun credit _ => ?_⟩
      · cases credit with
        | false => rfl
        | true =>
          change (if conn = i then 1 else 0 : Int) =
            0 + ((if true = true ∧ conn = i then 1 else 0) - 0)
          by_cases hi : conn = i <;> simp [hi]
      cases credit with
      | false => exact ⟨fun _ _ => rfl, fun _ _ => ⟨fun _ _ => hback, fun _ _ => hbackAll⟩⟩
      | true =>
        refine ⟨fun sent _ => ?_, fun sent _ => ?_⟩
        · cases sent with
          | false => exact (Int.add_zero _).symm
          | true =>
            change (0 : Int) = (if conn = i then 1 else 0) + (0 - if true = true ∧
              conn = i then 1 else 0)
            by_cases hi : conn = i <;> simp [hi]
        cases sent with
        | false => exact answer_balanced i conn hback hbackAll
        | true => exact ⟨fun _ _ => rfl, fun _ _ => trivial⟩

theorem teardown_balanced (conn : Nat) :
    (teardown conn).Balanced Cmd.Possible (creditLoad i) (creditGain i) := by
  have hreleases : ∀ n : Nat,
      (do releaseTimes n; command (.registryRemove conn); command (.close conn) :
        Program Unit).Balanced Cmd.Possible (creditLoad i) (creditGain i) ∧
      creditLoad i (do releaseTimes n; command (.registryRemove conn); command (.close conn)) =
        0 := by
    intro n
    induction n with
    | zero => exact ⟨⟨fun _ _ => rfl, fun _ _ => ⟨fun _ _ => rfl, fun _ _ => trivial⟩⟩, rfl⟩
    | succ n ih => exact ⟨⟨fun _ _ => ih.2, fun _ _ => ih.1⟩, rfl⟩
  exact ⟨fun leaked _ => (hreleases leaked.toNat).2, fun leaked _ => (hreleases leaked.toNat).1⟩

theorem credit_balanced_task (t : Task) (ht : t.Proper) :
    t.program.Balanced Cmd.Possible (creditLoad i) (creditGain i) :=
  all_task_of_credits (E := fun p => creditLoad i p = 0) rfl (fun _ hc => ordinary_credit i hc)
    (fun conn _ hp => answer_balanced i conn hp.1 hp.2) (dispatch_balanced i)
      (teardown_balanced i) t ht

theorem creditLoad_task (t : Task) :
    creditLoad i t.program =
      match t with
      | .frame conn _ f _ => if f.answers.isSome ∧ conn = i then 1 else 0
      | _ => 0 := by
  cases t with
  | frame conn ns f pages =>
    cases f <;> simp [Task.program, onPublish, onSubscribe, onACK, onNACK, creditLoad,
      ClientFrame.answers, command, Prog.command]
  | activate g =>
    simp only [Task.program, activate]
    split <;> rfl
  | _ => rfl

end Balanced

namespace Runtime

variable {s : Runtime} (f : Conn → Int)

def connValue (s : Runtime) (i : Nat) : Int := (s.conns[i]?).elim 0 f

theorem connValue_set {conn : Nat} {C : Conn} (hC : s.conns[conn]? = some C) (C' : Conn) (i : Nat) :
    connValue f { s with conns := s.conns.set conn C' } i =
      s.connValue f i + if conn = i then f C' - f C else 0 := by
  simp only [connValue]
  by_cases hi : conn = i
  · subst hi
    rw [List.getElem?_set_self (List.getElem?_eq_some_iff.mp hC).1, hC, Option.elim_some,
      Option.elim_some, if_pos rfl]
    omega
  · rw [List.getElem?_set_ne hi, if_neg hi, Int.add_zero]

theorem connValue_connect {C : Conn} (hC : f C = 0) (i : Nat) :
    connValue f { s with conns := s.conns ++ [C] } i = s.connValue f i := by
  simp only [connValue]
  rcases Nat.lt_trichotomy i s.conns.length with hlt | rfl | hlt
  · rw [List.getElem?_append_left hlt]
  · rw [List.getElem?_concat_length, List.getElem?_eq_none (Nat.le_refl _)]
    exact hC
  · rw [List.getElem?_eq_none (Nat.le_of_lt hlt), List.getElem?_eq_none]
    rw [List.length_append, List.length_singleton]
    omega

def creditHeld (s : Runtime) (i : Nat) : Int :=
  s.connValue (fun C => C.inflight - C.unanswered.length) i

end Runtime

theorem Cmd.handle_creditHeld [PathMatch] {ch : Choice} {c : Cmd} {s s' : Runtime} {r : c.Answer}
    (h : c.handle ch s = .ok (s', r)) (i : Nat) :
    s'.creditHeld i = s.creditHeld i + creditGain i c r := by
  rcases handle_conn h i with ⟨hnone, hnone', hoff⟩ | ⟨C, C', hC, hC', hon⟩
  · simp only [Runtime.creditHeld, Runtime.connValue, hnone, hnone', creditGain, hoff.credit,
      hoff.written]
    rfl
  · have hinflight := hon.inflight
    have hunanswered := hon.unanswered
    simp only [Runtime.creditHeld, Runtime.connValue, hC, hC', creditGain, Option.elim_some]
    omega

namespace System

def answersSent (sys : System) (conn : Nat) (f : ClientFrame) : Bool :=
  f.answers.all fun msgID => (sys.state.conns[conn]?).any fun C => C.unanswered.contains msgID

def answersSentOn (i : Nat) (sys : System) : Label → Bool
  | .receive conn f _ => conn != i || sys.answersSent conn f
  | _ => true

structure Credited (i : Nat) (sys : System) : Prop where
  regular : sys.Regular
  balanced : ∀ t ∈ sys.threads, t.prog.Balanced Cmd.Possible (creditLoad i) (creditGain i)
  held : sys.state.creditHeld i = total (creditLoad i) sys.threads

theorem credited_start (cfg : RuntimeConfig) (chs : List DispatchCh) (i : Nat) :
    (start cfg chs).Credited i := by
  refine ⟨regular_start cfg chs, ?_, rfl⟩
  intro t ht
  cases ht

structure Bounded (i : Nat) (sys : System) : Prop where
  nonneg : 0 ≤ sys.state.cfg.maxInflight
  bound : ∀ C, sys.state.conns[i]? = some C → C.inflight ≤ sys.state.cfg.maxInflight

variable {sys sys' : System} {l : Label} {i : Nat}

theorem held_of_receive {conn pages : Nat} {f : ClientFrame} {C : Conn}
    (hC : sys.state.conns[conn]? = some C)
    (hsent : answersSentOn i sys (.receive conn f pages) = true) :
    Runtime.creditHeld { sys.state with
        conns := sys.state.conns.set conn
          { C with unanswered := f.answers.elim C.unanswered C.unanswered.erase } } i =
      sys.state.creditHeld i + if f.answers.isSome ∧ conn = i then 1 else 0 := by
  rw [Runtime.creditHeld, Runtime.connValue_set _ hC, Runtime.creditHeld]
  congr 1
  by_cases hi : conn = i
  case neg => rw [if_neg hi, if_neg fun h => hi h.2]
  subst hi
  simp only [answersSentOn, answersSent, bne_self_eq_false, Bool.false_or, hC,
    Option.any_some] at hsent
  cases hf : f.answers with
  | none => simp
  | some msgID =>
    rw [hf, Option.all_some, List.contains_iff_mem] at hsent
    have hlength := List.length_erase_of_mem hsent
    have hpos := List.length_pos_of_mem hsent
    simp only [Option.elim_some, Option.isSome_some, and_self, if_true, hlength]
    omega

theorem Credited.held_of_spawn (hsys : sys.Credited i) {s : Runtime} {t : Task}
    (hs : s.creditHeld i = sys.state.creditHeld i + creditLoad i t.program) :
    s.creditHeld i = total (creditLoad i) (sys.threads ++ [t.start]) := by
  rw [hs, total_append, hsys.held]
  rfl

theorem creditHeld_set {s : Runtime} {conn : Nat} {C : Conn} (hC : s.conns[conn]? = some C)
    (C' : Conn) (hinflight : C'.inflight = C.inflight) (hunanswered : C'.unanswered = C.unanswered)
    (i : Nat) :
    Runtime.creditHeld { s with conns := s.conns.set conn C' } i = s.creditHeld i := by
  rw [Runtime.creditHeld, Runtime.connValue_set _ hC, Runtime.creditHeld, hinflight, hunanswered,
    Int.sub_self, ite_self, Int.add_zero]

variable [PathMatch]

theorem Credited.held_step (hsys : sys.Credited i) (hsent : sys.answersSentOn i l = true)
    (h : sys.Step l sys') :
    sys'.state.creditHeld i = total (creditLoad i) sys'.threads := by
  have hold := hsys.held
  cases h with
  | declare => exact hold
  | connect => exact (Runtime.connValue_connect _ rfl i).trans hold
  | @receive conn pages f C reader valid =>
    refine hsys.held_of_spawn (t := .frame conn C.ns f pages) ?_
    rw [creditLoad_task]
    exact held_of_receive (atReader_conn reader) hsent
  | @disconnect conn C reader =>
    refine hsys.held_of_spawn (t := .teardown conn) ?_
    exact (creditHeld_set (atReader_conn reader) { C with reading := false } rfl rfl i).trans
      (Int.add_zero _).symm
  | @deliver _ _ msg => exact hsys.held_of_spawn (t := .dispatch msg) (Int.add_zero _).symm
  | @process g => exact hsys.held_of_spawn (t := .process g) (Int.add_zero _).symm
  | @fire _ g wakeNs => exact hsys.held_of_spawn (t := .timer g wakeNs) (Int.add_zero _).symm
  | @activate g =>
    refine hsys.held_of_spawn (t := .activate g) ?_
    rw [creditLoad_task]
    exact (Int.add_zero _).symm
  | sweep => exact hsys.held_of_spawn (t := .sweep) (Int.add_zero _).symm
  | @flush conn n C opened =>
    exact (creditHeld_set opened { C with out := C.out.drop n } rfl rfl i).trans hold
  | run next handled =>
    have hbalanced := hsys.balanced _ (List.mem_of_getElem? next)
    rw [total_advance next hbalanced (Cmd.handle_possible hsys.regular.placed handled), ← hold]
    exact Cmd.handle_creditHeld handled i

theorem Bounded.step (hsys : sys.Bounded i) (h : sys.Step l sys') : sys'.Bounded i := by
  refine ⟨h.cfg ▸ hsys.nonneg, ?_⟩
  have hold := hsys.bound
  have hset : ∀ {conn : Nat} {C₁ C₂ : Conn}, sys.state.conns[conn]? = some C₁ →
      C₂.inflight = C₁.inflight →
      ∀ C, (sys.state.conns.set conn C₂)[i]? = some C → C.inflight ≤ sys.state.cfg.maxInflight := by
    intro conn C₁ C₂ hC₁ hinflight C hC
    by_cases hi : conn = i
    · subst hi
      rw [List.getElem?_set_self (List.getElem?_eq_some_iff.mp hC₁).1] at hC
      cases hC
      rw [hinflight]
      exact hold C₁ hC₁
    · rw [List.getElem?_set_ne hi] at hC
      exact hold C hC
  cases h with
  | declare | deliver | process | fire | activate | sweep => exact hold
  | connect =>
    intro C hC
    by_cases hi : i < sys.state.conns.length
    · refine hold C ?_
      rwa [← List.getElem?_append_left hi]
    · -- the new connection
      obtain ⟨hlt, -⟩ := List.getElem?_eq_some_iff.mp hC
      obtain rfl : i = sys.state.conns.length := by
        rw [List.length_append, List.length_singleton] at hlt
        omega
      cases List.getElem?_concat_length.symm.trans hC
      exact hsys.nonneg
  | receive reader => exact hset (atReader_conn reader) rfl
  | disconnect reader => exact hset (atReader_conn reader) rfl
  | flush opened => exact hset opened rfl
  | run next handled =>
    intro C' hC'
    rw [(Cmd.handle_frame handled).cfg]
    rcases Cmd.handle_conn handled i with ⟨-, hnone, -⟩ | ⟨C, C₁, hC, hC₁, hon⟩
    · cases hnone.symm.trans hC'
    · cases hC₁.symm.trans hC'
      exact hon.bound (hold C hC)

theorem Credited.step (hsys : sys.Credited i) (hsent : sys.answersSentOn i l = true)
    (h : sys.Step l sys') :
    sys'.Credited i := by
  refine ⟨hsys.regular.step h, ?_, hsys.held_step hsent h⟩
  refine h.threads hsys.balanced (credit_balanced_task i) ?_
  intro ch task c k s r handled hall
  exact hall.2 r (Cmd.handle_possible hsys.regular.placed handled)

omit [PathMatch] in
theorem Credited.unanswered_le (hsys : sys.Credited i) {C : Conn}
    (hC : sys.state.conns[i]? = some C) :
    (C.unanswered.length : Int) ≤ C.inflight := by
  have hheld := hsys.held
  have hnonneg := total_nonneg (creditLoad_nonneg i) sys.threads
  simp only [Runtime.creditHeld, Runtime.connValue, hC, Option.elim_some] at hheld
  omega

/-- If the client of a connection answers only messages that it has received and not yet answered,
the counter is not negative and no more than `MaxInflight` messages are unanswered. -/
theorem credit_bounds_unanswered {cfg : RuntimeConfig} {chs : List DispatchCh}
    (hmax : 0 ≤ cfg.maxInflight)
    (h : Reachable System.step (fun sys l => sys.answersSentOn i l = true) (start cfg chs) sys)
    {C : Conn} (hC : sys.state.conns[i]? = some C) :
    0 ≤ C.inflight ∧ (C.unanswered.length : Int) ≤ cfg.maxInflight := by
  have hstart : (start cfg chs).Credited i ∧ (start cfg chs).Bounded i ∧
      (start cfg chs).state.cfg = cfg :=
    ⟨credited_start cfg chs i, ⟨hmax, fun _ hC => (nomatch hC)⟩, rfl⟩
  obtain ⟨hcredited, hbounded, hcfg⟩ := h.invariant
    (motive := fun sys => sys.Credited i ∧ sys.Bounded i ∧ sys.state.cfg = cfg) hstart (by
      rintro sys l sys' ⟨hcredited, hbounded, hcfg⟩ hsent hstep
      have hstep := step_ok hstep
      exact ⟨hcredited.step hsent hstep, hbounded.step hstep, hstep.cfg.trans hcfg⟩)
  have hle := hcredited.unanswered_le hC
  have hbound := hbounded.bound C hC
  rw [hcfg] at hbound
  omega

end System

def ackedLabels : List Label :=
  receivedLabels ++ [.receive 0 (.ack (str "m1") (str "q") (str "g")) 0] ++ runTimes 3 8 []

theorem credit_bounds_unanswered_sample :
    ∃ sys C, Reachable (@System.step literalMatch) (fun sys l => sys.answersSentOn 0 l = true)
        (.start ⟨1, 0, 0⟩ [⟨1, []⟩]) sys ∧
      sys.state.conns[0]? = some C ∧ 0 ≤ C.inflight ∧ (C.unanswered.length : Int) ≤ 1 := by
  have htrace : (run (checked (@System.step literalMatch) (System.answersSentOn 0) .blocked)
      (.start ⟨1, 0, 0⟩ [⟨1, []⟩]) ackedLabels).toOption.any
        (fun sys => (sys.state.conns[0]?).isSome) = true := by
    decide +kernel
  obtain ⟨sys, hreach, hconn⟩ := Reachable.ofTrace (fun _ _ h => h) ackedLabels _ htrace
  obtain ⟨C, hC⟩ := Option.isSome_iff_exists.mp hconn
  have hmax : (0 : Int) ≤ (⟨1, 0, 0⟩ : RuntimeConfig).maxInflight := by decide
  exact ⟨sys, C, hreach, hC,
    @System.credit_bounds_unanswered sys 0 literalMatch _ _ hmax hreach _ hC⟩

def strayLabels : List Label := [.receive 0 (.ack (str "x") (str "q") (str "g")) 0]

/-- With `MaxInflight` 1, such an acknowledgement takes the counter of a connection without messages
below 0, and one that has received a message gets another. -/
theorem stray_ack_inflates_credit :
    (∃ sys C, Reachable (@System.step literalMatch) (fun _ _ => True)
      (.start ⟨1, 0, 0⟩ [⟨1, []⟩]) sys ∧ sys.state.conns[0]? = some C ∧ C.inflight < 0) ∧
    ∃ sys C, Reachable (@System.step literalMatch) (fun _ _ => True)
      (.start ⟨1, 0, 0⟩ [⟨1, []⟩]) sys ∧
      sys.state.conns[0]? = some C ∧ 1 < C.unanswered.length := by
  have hnegative : (run (checked (@System.step literalMatch) (fun _ _ => true) .blocked)
      (.start ⟨1, 0, 0⟩ [⟨1, []⟩])
        (.connect (str "n") :: strayLabels ++ runTimes 0 1 [])).toOption.any
        (fun sys => (sys.state.conns[0]?).any fun C => decide (C.inflight < 0)) = true := by
    decide +kernel
  have hmore : (run (checked (@System.step literalMatch) (fun _ _ => true) .blocked)
      (.start ⟨1, 0, 0⟩ [⟨1, []⟩]) (receivedLabels ++ strayLabels ++ runTimes 3 8 [] ++
        [.receive 0 (.publish (str "q") (str "h") (str "p")) 0] ++
          runTimes 4 13 (str "m2") ++ [.deliver 0] ++ runTimes 5 5 [])).toOption.any
        (fun sys => (sys.state.conns[0]?).any fun C => decide (1 < C.unanswered.length)) =
          true := by decide +kernel
  refine ⟨?_, ?_⟩
  · obtain ⟨sys, hreach, hany⟩ := Reachable.ofTrace (fun _ _ _ => trivial) _ _ hnegative
    obtain ⟨C, hC, hlt⟩ := (Option.any_eq_true _ _).mp hany
    exact ⟨sys, C, hreach, hC, of_decide_eq_true hlt⟩
  · obtain ⟨sys, hreach, hany⟩ := Reachable.ofTrace (fun _ _ _ => trivial) _ _ hmore
    obtain ⟨C, hC, hlt⟩ := (Option.any_eq_true _ _).mp hany
    exact ⟨sys, C, hreach, hC, of_decide_eq_true hlt⟩

end Octar
