import Octar.Broker.MessageCount
import Octar.Broker.ReplayMoves

namespace Octar

open Go Threads

def Cmd.generated : (c : Cmd) → c.Answer → Option Bytes
  | .generateID, id => some id
  | _, _ => none

def Cmd.letter : (c : Cmd) → c.Answer → Option Message
  | .publishLocked _ none _, (.ok m, _) => some m
  | _, _ => none

def Cmd.takesID : Cmd → Bool
  | .generateID | .publishLocked _ none _ => true
  | _ => false

def Cmd.Gets (K : Bytes → Prop) (c : Cmd) (r : c.Answer) : Prop := ∀ id ∈ c.generated r, K id

def Cmd.Logs (K : Bytes → Prop) : Cmd → Prop
  | .append event => event.type = .publish → K event.msgID
  | _ => True

section Logs

variable {K : Bytes → Prop} {α : Type}

theorem quiet_logs {p : Program α} (h : p.Uses (Cmd.Gets K) Cmd.Quiet) :
    p.Uses (Cmd.Gets K) (Cmd.Logs K) := by
  refine h.imp ?_
  intro c _ hc
  cases c with
  | append event => exact fun htype => absurd htype hc
  | _ => trivial

theorem publishAs_logs (g : GroupRef) (msgID : Option Bytes) (payload : Bytes) :
    (publishAs g msgID payload).Uses (Cmd.Gets K) (Cmd.Logs K) := by
  refine .seq trivial fun r _ => ?_
  obtain ⟨published, new⟩ := r
  cases published with
  | error e => exact .ret _
  | ok msg => exact .ite (.seq trivial fun _ _ => .ret _) (.ret _)

theorem onPublish_logs (conn : Nat) (g : GroupRef) (payload : Bytes) :
    (onPublish conn g payload).Uses (Cmd.Gets K) (Cmd.Logs K) := by
  refine .seq trivial fun _ _ => .ite (.seq trivial fun _ _ => .ret ()) ?_
  refine .seq trivial fun _ _ => .ite (.seq trivial fun _ _ => .ret ()) ?_
  refine .seq trivial fun msgID hid => .seq (fun _ => hid msgID rfl) fun _ _ => .ite ?_ ?_
  · exact .seq trivial fun _ _ => .seq trivial fun _ _ => .ret ()
  · refine .bind (publishAs_logs g _ payload) fun published => ?_
    cases published with
    | error e => exact .seq trivial fun _ _ => .command trivial
    | ok msg =>
      refine .seq trivial fun _ _ => .bind (quiet_logs (dispatchOne_quiet g)) fun _ =>
        .seq trivial fun _ _ => ?_
      exact .ite (quiet_logs (activate_quiet g)) (.ret ())

theorem onACK_logs (conn : Nat) (g : GroupRef) (msgID : Bytes) :
    (onACK conn g msgID).Uses (Cmd.Gets K) (Cmd.Logs K) := by
  refine .seq trivial fun _ _ => .seq trivial fun _ _ => .seq trivial fun _ _ => .ite (.ret ()) ?_
  refine .seq (fun h => nomatch h) fun _ _ =>
    .ite (.ret ()) (.seq trivial fun _ _ => .seq trivial fun next _ => ?_)
  exact .bind (quiet_logs (dispatchNext_quiet next)) fun _ => quiet_logs (activate_quiet g)

theorem deadLetter_logs (ns : Bytes) (dlq : Option (Bytes × Message)) :
    (deadLetter ns dlq).Uses (Cmd.Gets K) (Cmd.Logs K) := by
  cases dlq with
  | none => exact .ret ()
  | some x =>
    refine .ite (.ret ()) (.seq trivial fun _ _ =>
      .ite (.ret ()) (.bind (publishAs_logs _ none _) fun published => ?_))
    cases published with
    | error e => exact .ret ()
    | ok msg => exact .seq trivial fun _ _ => .ite (quiet_logs (activate_quiet _)) (.ret ())

theorem onNACK_logs (conn : Nat) (g : GroupRef) (msgID reason : Bytes) :
    (onNACK conn g msgID reason).Uses (Cmd.Gets K) (Cmd.Logs K) := by
  refine .seq trivial fun _ _ => .seq trivial fun _ _ => .seq trivial fun _ _ => .ite (.ret ()) ?_
  refine .seq (fun h => nomatch h) fun _ _ => .ite (.ret ()) (.seq trivial fun failed _ => ?_)
  have hrest : (do dispatchNext failed.2; activate g; deadLetter g.ns failed.1 : Program Unit).Uses
      (Cmd.Gets K) (Cmd.Logs K) :=
    .bind (quiet_logs (dispatchNext_quiet _)) fun _ => .bind (quiet_logs (activate_quiet g))
      fun _ => deadLetter_logs _ _
  exact .ite (.seq trivial fun _ _ => hrest) hrest

theorem task_logs (t : Task) : t.program.Uses (Cmd.Gets K) (Cmd.Logs K) := by
  by_cases ht : t.counts = true
  · cases t with
    | frame conn ns f pages =>
      cases f with
      | publish queue group payload => exact onPublish_logs conn ⟨ns, queue, group⟩ payload
      | ack msgID queue group => exact onACK_logs conn ⟨ns, queue, group⟩ msgID
      | nack msgID queue group reason => exact onNACK_logs conn ⟨ns, queue, group⟩ msgID reason
      | _ => cases ht
    | _ => cases ht
  · exact quiet_logs (task_quiet (Bool.not_eq_true _ |>.mp ht))

end Logs

section NewID

variable [PathMatch] {ch : Choice} {c : Cmd} {s s' : Runtime} {r : c.Answer}
  (h : c.handle ch s = .ok (s', r))
include h

theorem Cmd.generated_newID {id : Bytes} (hid : id ∈ c.generated r) :
    id = ch.newID ∧ c.takesID = true ∧ c.letter r = none := by
  cases c with
  | generateID =>
    cases h
    cases hid
    exact ⟨rfl, rfl, rfl⟩
  | _ => cases hid

theorem Cmd.letter_newID (hs : s.Named) {m : Message} (hm : m ∈ c.letter r) :
    m.id = ch.newID ∧ c.takesID = true := by
  cases c with
  | publishLocked g msgID payload =>
    cases msgID with
    | some id => cases hm
    | none =>
      rcases handle_target hs h rfl with ⟨-, hno, -⟩ | ⟨G, G', -, hchanges, -⟩
      · exact absurd rfl (hno none payload)
      · cases hchanges with
        | refused => cases hm
        | accepted msgID payload m new G href hid =>
          cases hm
          exact ⟨hid, rfl⟩
  | _ => cases hm

theorem Cmd.handle_wal {e : Event} (he : e ∈ s'.wal) : e ∈ s.wal ∨ c = .append e := by
  by_cases hc : c.part = .counters
  · cases c with
    | append event =>
      simp only [handle] at h
      split at h
      · cases h
        exact (List.mem_append.mp he).imp_right fun he => by rw [List.mem_singleton.mp he]
      · cases h
        exact .inl he
    | incGlobalMsgs =>
      simp only [handle] at h
      split at h
      all_goals
        cases h
        exact .inl he
    | decGlobalMsgs =>
      cases h
      exact .inl he
    | _ => cases hc
  · rw [(handle_frame h).wal hc] at he
    exact .inl he

end NewID

/-- The broker, with a record of the identifiers that its PUBLISH handlers got and of the messages
that dead-lettering put into a queue. -/
structure Lettered where
  sys : System
  generated : List Bytes
  letters : List Message

namespace Lettered

def start (cfg : RuntimeConfig) (depths : List Nat) : Lettered :=
  ⟨.start cfg (depths.map fun n => ⟨n, []⟩), [], []⟩

def record [PathMatch] (t : Lettered) : Label → Lettered
  | .run thread ch =>
    match t.sys.threads[thread]? with
    | some ⟨_, .call c _⟩ =>
      match c.handle ch t.sys.state with
      | .ok (_, r) =>
        { t with
          generated := t.generated ++ (c.generated r).toList,
          letters := t.letters ++ (c.letter r).toList }
      | .error _ => t
    | _ => t
  | _ => t

def step [PathMatch] (t : Lettered) (l : Label) : Except Stuck Lettered := do
  let sys ← t.sys.step l
  return { t.record l with sys := sys }

def fresh (t : Lettered) : Label → Bool
  | .run thread ch =>
    (t.sys.threads[thread]?.bind Thread.next?).all fun c =>
      !c.takesID || (!t.generated.contains ch.newID && t.letters.all fun m => m.id ≠ ch.newID)
  | _ => true

def Logged (t : Lettered) (e : Event) : Prop :=
  ∃ e' ∈ t.sys.state.wal, e = { e' with seq := e.seq, timestamp := e.timestamp }

structure Unlogged (t : Lettered) : Prop where
  regular : t.sys.Regular
  threads : ∀ K : Bytes → Prop, (∀ id ∈ t.generated, K id) → ∀ x ∈ t.sys.threads,
    x.prog.Uses (Cmd.Gets K) (Cmd.Logs K)
  log : ∀ e ∈ t.sys.state.wal, e.type = .publish → e.msgID ∈ t.generated
  apart : ∀ m ∈ t.letters, m.id ∉ t.generated

theorem unlogged_start (cfg : RuntimeConfig) (depths : List Nat) : (start cfg depths).Unlogged := by
  refine ⟨System.regular_start cfg _, ?_, ?_, ?_⟩
  · intro K _ x hx
    cases hx
  · intro e he
    cases he
  · intro m hm
    cases hm

variable [PathMatch] {t t' : Lettered} {l : Label}

theorem record_run {thread : Nat} {ch : Choice} {task : Task} {c : Cmd}
    {k : c.Answer → Program Unit} {s : Runtime} {r : c.Answer}
    (next : t.sys.threads[thread]? = some ⟨task, .call c k⟩)
    (handled : c.handle ch t.sys.state = .ok (s, r)) :
    t.record (.run thread ch) =
      { t with
        generated := t.generated ++ (c.generated r).toList,
        letters := t.letters ++ (c.letter r).toList } := by
  simp only [record, next, handled]

omit [PathMatch] in
theorem fresh_run {thread : Nat} {ch : Choice} {task : Task} {c : Cmd} {k : c.Answer → Program Unit}
    (next : t.sys.threads[thread]? = some ⟨task, .call c k⟩) (h : t.fresh (.run thread ch) = true)
    (hc : c.takesID = true) : ch.newID ∉ t.generated ∧ ∀ m ∈ t.letters, m.id ≠ ch.newID := by
  simpa [fresh, next, Thread.next?, hc] using h

theorem Unlogged.run {thread : Nat} {ch : Choice} {task : Task} {c : Cmd}
    {k : c.Answer → Program Unit} {s : Runtime} {r : c.Answer} (ht : t.Unlogged)
    (hfresh : t.fresh (.run thread ch) = true)
    (next : t.sys.threads[thread]? = some ⟨task, .call c k⟩)
    (handled : c.handle ch t.sys.state = .ok (s, r)) :
    Unlogged ⟨⟨s, t.sys.threads.set thread ⟨task, k r⟩⟩, t.generated ++ (c.generated r).toList,
      t.letters ++ (c.letter r).toList⟩ := by
  have hmem := List.mem_of_getElem? next
  refine ⟨ht.regular.step (.run next handled), ?_, ?_, ?_⟩
  · intro K hK x hx
    have hprogs := ht.threads K fun id hid => hK id (List.mem_append_left _ hid)
    rcases List.mem_or_eq_of_mem_set hx with hx | rfl
    · exact hprogs x hx
    · exact (hprogs _ hmem).2 r fun id hid =>
        hK id (List.mem_append_right _ (Option.mem_toList.mpr hid))
  · intro e he htype
    rcases Cmd.handle_wal handled he with he | rfl
    · exact List.mem_append_left _ (ht.log e he htype)
    · have huses := ht.threads (· ∈ t.generated) (fun _ hid => hid) _ hmem
      exact List.mem_append_left _ (huses.1 htype)
  · intro m hm hid
    rcases List.mem_append.mp hm with hm | hm <;> rcases List.mem_append.mp hid with hid | hid
    · exact ht.apart m hm hid
    · obtain ⟨heq, htakes, -⟩ := Cmd.generated_newID handled (Option.mem_toList.mp hid)
      exact (fresh_run next hfresh htakes).2 m hm heq
    · obtain ⟨heq, htakes⟩ :=
        Cmd.letter_newID handled ht.regular.placed.named (Option.mem_toList.mp hm)
      rw [heq] at hid
      exact (fresh_run next hfresh htakes).1 hid
    · obtain ⟨-, -, hnone⟩ := Cmd.generated_newID handled (Option.mem_toList.mp hid)
      rw [hnone] at hm
      cases hm

theorem Unlogged.step (ht : t.Unlogged) (hfresh : t.fresh l = true) (h : t.step l = .ok t') :
    t'.Unlogged := by
  obtain ⟨sys', hsys, hret⟩ := bind_ok.mp h
  cases hret
  have hstep := System.step_ok hsys
  have hother : t.record l = t → sys'.state.wal = t.sys.state.wal →
      (∀ thread ch, l ≠ .run thread ch) → Unlogged { t.record l with sys := sys' } := by
    intro hrecord hwal hl
    rw [hrecord]
    refine ⟨ht.regular.step hstep, ?_, ?_, ht.apart⟩
    · intro K hK x hx
      rcases hstep.mem_threads hl hx with hold | ⟨task, -, rfl⟩
      · exact ht.threads K hK x hold
      · exact task_logs task
    · intro e he
      rw [hwal] at he
      exact ht.log e he
  cases hstep with
  | run next handled =>
    rw [record_run next handled]
    exact ht.run hfresh next handled
  | _ => exact hother rfl rfl fun _ _ h => nomatch h

def Recovers (t : Lettered) (q : Queue) : Prop :=
  ∃ q₀ events, q₀.groups = ∅ ∧ (∀ e ∈ events, t.Logged e.1) ∧ replayEvents q₀ events = .ok q

def Recorded (t : Lettered) (m : Message) : Prop :=
  ∃ e ∈ t.sys.state.wal, e.type = .publish ∧ e.group = m.groupKey ∧ e.msgID = m.id ∧
    e.payload = m.payload

omit [PathMatch] in
theorem lasting_recorded (t : Lettered) : Message.Lasting t.Recorded := by
  rintro m m' ⟨e, he, htype, hgroup, hid, hpayload⟩ href hid' hpayload'
  have hkey : m'.groupKey = m.groupKey := congrArg GroupRef.group href
  exact ⟨e, he, htype, hgroup.trans hkey.symm, hid.trans hid'.symm, hpayload.trans hpayload'.symm⟩

theorem Recovers.each {q : Queue} (hq : t.Recovers q) : q.Each fun x => t.Recorded x.2 := by
  obtain ⟨q₀, events, hempty, hlog, hreplay⟩ := hq
  have hstart : q₀.Each fun x => t.Recorded x.2 := by
    intro key G hG
    rw [hempty] at hG
    cases hG
  refine hstart.replayEvents t.lasting_recorded.closed ?_ hreplay
  intro e he htype queue ns
  obtain ⟨e', he', heq⟩ := hlog e he
  rw [heq] at htype ⊢
  exact ⟨e', he', htype, rfl, rfl, rfl⟩

/-- Whenever the broker crashes, a message that dead-lettering has put into a queue is not in the
queue that is recovered: what is there was published by a client. -/
theorem dead_letters_lost {cfg : RuntimeConfig} {depths : List Nat}
    (hreach : Reachable Lettered.step (fun t l => t.fresh l = true) (start cfg depths) t)
    {m : Message} (hm : m ∈ t.letters) {q : Queue} (hq : t.Recovers q) {key : Bytes} {G : Group}
    (hG : q.groups.lookup key = some G) : m.id ∉ G.ids ∧ ∀ x ∈ G.slots, t.Recorded x.2 := by
  have ht : t.Unlogged :=
    hreach.invariant (unlogged_start cfg depths) fun _ _ _ ht hl h => ht.step hl h
  have heach := (hq.each key G hG).slots
  refine ⟨?_, heach⟩
  intro hid
  obtain ⟨x, hx, hxid⟩ := Multiset.mem_map.mp hid
  obtain ⟨e, he, htype, -, heid, -⟩ := heach x hx
  apply ht.apart m hm
  rw [← hxid, ← heid]
  exact ht.log e he htype

end Lettered

def oneAttempt : GroupConfig :=
  { defaultGroupConfig (str "g") with
    retry := ⟨1, .fixed, 0, 0⟩, dlq := some ⟨true, str "d"⟩ }

def exhaustedLabels : List Label :=
  [.declare (str "n") (str "q") [oneAttempt], .declare (str "n") (str "d") [], .connect (str "n"),
    .receive 0 (.subscribe (str "q") (str "*")) 1] ++ runTimes 0 3 [] ++
  [.receive 0 (.publish (str "q") (str "g") (str "p")) 0] ++
    runTimes 1 13 (str "m1") ++ [.deliver 0] ++
  runTimes 2 5 [] ++ [.receive 0 (.nack (str "m1") (str "q") (str "g") []) 0] ++
    runTimes 3 12 (str "m2")

def recoverQueue (sys : System) (name : Bytes) (configs : List GroupConfig) : Option Queue :=
  (@replayEvents literalMatch (@System.declared literalMatch (str "n") name configs)
    ((sys.state.wal.filter fun e => e.queue = name).map fun e => (e, 2))).toOption

theorem recovers_of_log {t : Lettered} {name : Bytes} {p : Queue → Bool}
    (h : (recoverQueue t.sys name []).any p = true) :
    ∃ q, @Lettered.Recovers literalMatch t q ∧ p q = true := by
  obtain ⟨q, hq, hp⟩ := any_toOption.mp h
  refine ⟨q, ⟨newQueue name (str "n"), _, rfl, ?_, hq⟩, hp⟩
  intro e he
  obtain ⟨e', he', rfl⟩ := List.mem_map.mp he
  exact ⟨e', List.mem_of_mem_filter he', rfl⟩

theorem dead_letters_lost_sample :
    ∃ t, Reachable (@Lettered.step literalMatch) (fun t l => t.fresh l = true)
      (.start ⟨1, 0, 0⟩ [1]) t ∧ ∃ m ∈ t.letters, ∃ q, @Lettered.Recovers literalMatch t q ∧ ∃ G,
        q.groups.lookup (str "g") = some G ∧ G.size = 1 ∧ m.id ∉ G.ids := by
  have htrace : (run (checked (@Lettered.step literalMatch) Lettered.fresh .blocked)
      (.start ⟨1, 0, 0⟩ [1])
      (exhaustedLabels ++ [.receive 0 (.publish (str "d") (str "g") (str "c")) 0] ++
        runTimes 4 5 (str "m3"))).toOption.any (fun t =>
          t.letters.any (fun _ => true) && (recoverQueue t.sys (str "d") []).any fun q =>
            (q.groups.lookup (str "g")).any fun G => G.size = 1) = true := by
    decide +kernel
  obtain ⟨t, hreach, hend⟩ := Reachable.ofTrace (fun _ _ h => h) _ _ htrace
  obtain ⟨hletters, hqueue⟩ := Bool.and_eq_true_iff.mp hend
  obtain ⟨m, hm, -⟩ := List.any_eq_true.mp hletters
  obtain ⟨q, hq, hgroup⟩ := recovers_of_log hqueue
  rw [Option.any_eq_true] at hgroup
  obtain ⟨G, hG, hsize⟩ := hgroup
  refine ⟨t, hreach, m, hm, q, hq, G, hG, of_decide_eq_true hsize, ?_⟩
  exact (@Lettered.dead_letters_lost literalMatch t _ _ hreach m hm q hq _ G hG).1

/-- The handler of the NACK has returned, and the dead letter is in its queue; after a crash neither
queue has it. -/
theorem dead_letter_not_recovered :
    ∃ t, Reachable (@Lettered.step literalMatch) (fun t l => t.fresh l = true)
      (.start ⟨1, 0, 0⟩ [1]) t ∧ (∀ x ∈ t.sys.threads, x.finished = true) ∧
      (∃ d, t.sys.state.queues.lookup (str "n", str "d") = some d ∧ d.size = 1) ∧
      (∃ q, recoverQueue t.sys (str "q") [oneAttempt] = some q ∧ q.size = 0) ∧
      ∃ d, recoverQueue t.sys (str "d") [] = some d ∧ d.size = 0 := by
  have htrace : (run (checked (@Lettered.step literalMatch) Lettered.fresh .blocked)
      (.start ⟨1, 0, 0⟩ [1]) exhaustedLabels).toOption.any (fun t =>
        t.sys.threads.all (fun x => x.finished) &&
        (t.sys.state.queues.lookup (str "n", str "d")).any (fun d => d.size = 1) &&
        (recoverQueue t.sys (str "q") [oneAttempt]).any (fun q => q.size = 0) &&
        (recoverQueue t.sys (str "d") []).any fun d => d.size = 0) = true := by
    decide +kernel
  obtain ⟨t, hreach, hend⟩ := Reachable.ofTrace (fun _ _ h => h) _ _ htrace
  simp only [Bool.and_eq_true, List.all_eq_true, Option.any_eq_true, decide_eq_true_eq] at hend
  exact ⟨t, hreach, hend.1.1.1, hend.1.1.2, hend.1.2, hend.2⟩

end Octar
