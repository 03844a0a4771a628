import Octar.Auth.Login
import Octar.Broker.MessageCount
import Octar.Broker.Tenants

namespace Octar

open Go Threads Auth

def Auth.Identity.permits (id : Identity) : ClientFrame → Bool
  | .publish .. => id.canPublish
  | .subscribe .. => id.canConsume
  | .ack .. => id.hasPermission .ack
  | .nack .. => id.hasPermission .nack
  | .heartbeat => true

/-- An identity without the permission to consume does not subscribe; and when the handler of a
frame without its permission looks for the queue, there is none. -/
def permittedFrames (ids : Nat → Identity) (sys : System) : Label → Bool
  | .receive conn (.subscribe ..) _ => (ids conn).canConsume
  | .run thread _ =>
    match sys.threads[thread]? with
    | some ⟨.frame conn _ f _, .call (.getQueue ns name) _⟩ =>
      (ids conn).permits f || (sys.state.queues.lookup (ns, name)).isNone
    | _ => true
  | _ => true

def Cmd.Missing : (c : Cmd) → c.Answer → Prop
  | .getQueue .., found => found = false
  | _, _ => True

theorem onPublish_missing (conn : Nat) (g : GroupRef) (payload : Bytes) :
    (onPublish conn g payload).Uses Cmd.Missing fun c => c.part ≠ .queues := by
  refine .seq (fun h => nomatch h) fun found hfound => ?_
  cases hfound
  exact .seq (fun h => nomatch h) fun _ _ => .ret ()

theorem onACK_missing (conn : Nat) (g : GroupRef) (msgID : Bytes) :
    (onACK conn g msgID).Uses Cmd.Missing fun c => c.part ≠ .queues := by
  refine .seq (fun h => nomatch h) fun _ _ => .seq (fun h => nomatch h) fun _ _ =>
    .seq (fun h => nomatch h) ?_
  intro found hfound
  cases hfound
  exact .ret ()

theorem onNACK_missing (conn : Nat) (g : GroupRef) (msgID reason : Bytes) :
    (onNACK conn g msgID reason).Uses Cmd.Missing fun c => c.part ≠ .queues := by
  refine .seq (fun h => nomatch h) fun _ _ => .seq (fun h => nomatch h) fun _ _ =>
    .seq (fun h => nomatch h) ?_
  intro found hfound
  cases hfound
  exact .ret ()

def Task.Refused (ids : Nat → Identity) : Task → Prop
  | .frame conn _ f _ => (ids conn).permits f = false
  | _ => False

def Task.Admitted (ids : Nat → Identity) : Task → Prop
  | .frame conn _ (.subscribe ..) _ => (ids conn).canConsume = true
  | _ => True

theorem task_missing {ids : Nat → Identity} {t : Task} (hadmitted : t.Admitted ids)
    (ht : t.Refused ids) :
    t.program.Uses Cmd.Missing fun c => c.part ≠ .queues := by
  cases t with
  | frame conn ns f pages =>
    cases f with
    | publish queue group payload => exact onPublish_missing conn ⟨ns, queue, group⟩ payload
    | subscribe queue group =>
      have hfalse : (ids conn).canConsume = false := ht
      exact absurd (hfalse.symm.trans hadmitted) Bool.false_ne_true
    | ack msgID queue group => exact onACK_missing conn ⟨ns, queue, group⟩ msgID
    | nack msgID queue group reason => exact onNACK_missing conn ⟨ns, queue, group⟩ msgID reason
    | heartbeat => cases ht
  | _ => exact ht.elim

namespace System

variable (ids : Nat → Identity)

def consumers : Knowledge := ⟨fun _ => True, fun conn _ => (ids conn).canConsume = true⟩

structure Enforced (sys : System) : Prop where
  placed : sys.state.Placed
  admitted : ∀ t ∈ sys.threads, t.task.Admitted ids
  refused : ∀ t ∈ sys.threads, t.task.Refused ids →
    t.prog.Uses Cmd.Missing fun c => c.part ≠ .queues
  threads : ∀ t ∈ sys.threads,
    t.prog.Uses (Cmd.Learns (consumers ids)) (Cmd.Sound t.task (consumers ids))
  registry : ∃ subs, sys.state.registry.Refines subs ∧ ∀ sub ∈ subs,
    (ids sub.conn).canConsume = true
  frames : ∀ conn f, f ∈ sys.state.outgoing conn → f.Reply ∨ (ids conn).canConsume = true

theorem enforced_start (cfg : RuntimeConfig) (chs : List DispatchCh) :
    (start cfg chs).Enforced ids := by
  refine ⟨(regular_start cfg chs).placed, ?_, ?_, ?_, ⟨[], Registry.refines_empty, ?_⟩, ?_⟩
  · intro t ht
    cases ht
  · intro t ht
    cases ht
  · intro t ht
    cases ht
  · intro sub hsub
    cases hsub
  · intro conn f hf
    cases hf

variable {ids} [PathMatch] {sys sys' : System} {l : Label}

omit [PathMatch] in
theorem knows_consumers (t : Task) : t.Knows (consumers ids) := by
  cases t <;> trivial

section Run

variable {thread : Nat} {ch : Choice} {task : Task} {c : Cmd} {k : c.Answer → Program Unit}
  {s : Runtime} {r : c.Answer}

omit [PathMatch] in
theorem permittedFrames_run (next : sys.threads[thread]? = some ⟨task, .call c k⟩)
    (hl : permittedFrames ids sys (.run thread ch) = true) (htask : task.Refused ids)
    {ns name : Bytes} (hc : c = .getQueue ns name) : sys.state.queues.lookup (ns, name) = none := by
  subst hc
  cases task with
  | frame conn ns' f pages =>
    have hf : (ids conn).permits f = false := htask
    simpa [permittedFrames, next, hf] using hl
  | _ => exact htask.elim

theorem Enforced.run (hsys : sys.Enforced ids)
    (hl : permittedFrames ids sys (.run thread ch) = true)
    (next : sys.threads[thread]? = some ⟨task, .call c k⟩)
    (handled : c.handle ch sys.state = .ok (s, r)) :
    Enforced ids ⟨s, sys.threads.set thread ⟨task, k r⟩⟩ := by
  have hmem := List.mem_of_getElem? next
  have huses := hsys.threads _ hmem
  obtain ⟨subs, hrefines, hall⟩ := hsys.registry
  refine ⟨hsys.placed.handle handled, ?_, ?_, ?_, ?_, ?_⟩
  · intro t ht
    rcases List.mem_or_eq_of_mem_set ht with ht | rfl
    · exact hsys.admitted t ht
    · exact hsys.admitted ⟨task, .call c k⟩ hmem
  · intro t ht hrefused
    rcases List.mem_or_eq_of_mem_set ht with ht | rfl
    · exact hsys.refused t ht hrefused
    · refine (hsys.refused _ hmem hrefused).2 r ?_
      cases c with
      | getQueue ns name =>
        have hnone := permittedFrames_run next hl hrefused rfl
        cases handled
        exact congrArg Option.isSome hnone
      | _ => trivial
  · intro t ht
    rcases List.mem_or_eq_of_mem_set ht with ht | rfl
    · exact hsys.threads t ht
    · refine huses.2 r ⟨Cmd.handle_possible hsys.placed handled, fun _ _ => trivial, ?_⟩
      intro x hx
      obtain ⟨sub, hsub, hconn, -⟩ := Cmd.handle_chosen handled hrefines hx
      exact hconn ▸ hall sub hsub
  · obtain ⟨subs', hrefines', hadded⟩ := Cmd.handle_registry handled hrefines
    refine ⟨subs', hrefines', ?_⟩
    intro sub hsub
    rcases hadded sub hsub with hsub | rfl
    · exact hall sub hsub
    · -- the SUBSCRIBE frame that is handled was permitted
      cases task with
      | frame conn ns f pages =>
        cases f with
        | subscribe queue group =>
          obtain ⟨hconn, -⟩ := huses.1
          rw [hconn]
          exact hsys.admitted _ hmem
        | _ => exact huses.1.elim
      | _ => exact huses.1.elim
  · intro conn f hf
    rcases (Cmd.handle_sends handled).outgoing conn f hf with hf | hf
    · exact hsys.frames conn f hf
    · cases c with
      | writeMessage conn msg =>
        obtain ⟨rfl, -⟩ := hf
        exact .inr huses.1.2
      | writeOrDrop conn frame | writeOrWait conn frame =>
        obtain ⟨-, rfl⟩ := hf
        exact .inl huses.1
      | _ => exact hf.elim

end Run

theorem Enforced.step (hsys : sys.Enforced ids) (hl : permittedFrames ids sys l = true)
    (h : sys.Step l sys') :
    sys'.Enforced ids := by
  have hother : (∀ thread ch, l ≠ .run thread ch) → sys'.state.Placed →
      sys'.state.registry = sys.state.registry →
      (∀ t ∈ sys'.threads, t ∈ sys.threads ∨ ∃ task : Task, t = task.start ∧ task.Admitted ids) →
      sys'.Enforced ids := by
    intro hrun hplaced hregistry hthreads
    refine ⟨hplaced, ?_, ?_, ?_, hregistry ▸ hsys.registry, ?_⟩
    · intro t ht
      obtain hold | ⟨task, rfl, hadmitted⟩ := hthreads t ht
      · exact hsys.admitted t hold
      · exact hadmitted
    · intro t ht hrefused
      obtain hold | ⟨task, rfl, hadmitted⟩ := hthreads t ht
      · exact hsys.refused t hold hrefused
      · exact task_missing hadmitted hrefused
    · intro t ht
      obtain hold | ⟨task, rfl, -⟩ := hthreads t ht
      · exact hsys.threads t hold
      · exact task_sound task (knows_consumers task)
    · intro conn f hf
      exact hsys.frames conn f (((h.sends hrun).outgoing conn f hf).resolve_right id)
  have hspawn : ∀ {task : Task}, task.Admitted ids → ∀ t ∈ sys.threads ++ [task.start],
      t ∈ sys.threads ∨ ∃ task : Task, t = task.start ∧ task.Admitted ids :=
    fun {task} htask t ht => (List.mem_append.mp ht).imp_right fun ht =>
      ⟨task, List.mem_singleton.mp ht, htask⟩
  cases h with
  | declare new =>
    exact hother (fun _ _ h => nomatch h) (hsys.placed.declare new rfl) rfl fun _ ht => .inl ht
  | connect | flush =>
    exact hother (fun _ _ h => nomatch h) (hsys.placed.ofSame rfl) rfl fun _ ht => .inl ht
  | @receive conn pages f =>
    refine hother (fun _ _ h => nomatch h) (hsys.placed.ofSame rfl) rfl (hspawn ?_)
    cases f with
    | subscribe => exact hl
    | _ => trivial
  | disconnect | deliver | process | fire | activate | sweep =>
    exact hother (fun _ _ h => nomatch h) (hsys.placed.ofSame rfl) rfl (hspawn trivial)
  | run next handled => exact hsys.run hl next handled

/-- If every identity that subscribes may consume, and the handlers of frames without their
permission find no queue, then an identity without the permission to consume is sent no message, and
no handler of a frame without its permission changes a queue. -/
theorem data_plane_enforced {cfg : RuntimeConfig} {depths : List Nat}
    (hreach : Reachable System.step (fun sys l => permittedFrames ids sys l = true)
      (.start cfg (depths.map fun n => ⟨n, []⟩)) sys) :
    (∀ conn, (ids conn).canConsume = false → ∀ f ∈ sys.state.outgoing conn, f.Reply) ∧
      ∀ thread conn ns f pages prog, sys.threads[thread]? = some ⟨.frame conn ns f pages, prog⟩ →
        (ids conn).permits f = false → ∀ ch sys', sys.step (.run thread ch) = .ok sys' →
          sys'.state.queues = sys.state.queues := by
  have hsys : sys.Enforced ids :=
    hreach.invariant (enforced_start ids cfg _) fun _ _ _ hsys hl h => hsys.step hl (step_ok h)
  refine ⟨?_, ?_⟩
  · intro conn hconn f hf
    apply (hsys.frames conn f hf).resolve_right
    rw [hconn]
    exact Bool.false_ne_true
  · intro thread conn ns f pages prog ht hf ch sys' h
    cases step_ok h with
    | run next handled =>
      cases ht.symm.trans next
      exact (Cmd.handle_frame handled).queues (hsys.refused _ (List.mem_of_getElem? ht) hf).1

end System

@[reducible] def plainKeys : KeyLibrary := ⟨id, fun key _ => key⟩

def metricsEntry : APIKeyEntry := ⟨str "m", str "n", [str "metrics:read"]⟩

def clientEntry : APIKeyEntry :=
  ⟨str "c", str "n", [str "publish", str "consume", str "ack", str "nack"]⟩

def keyService : Service :=
  ⟨[⟨str "api_key", 20, fun req => .ok (@apiKeyAuthenticate plainKeys [] []
    ((∅ : Map Bytes APIKeyEntry).insert (str "k") metricsEntry) req)⟩]⟩

def OutFrame.isMessage : OutFrame → Bool
  | .message .. => true
  | _ => false

theorem OutFrame.not_reply {f : OutFrame} (h : f.isMessage = true) : ¬f.Reply := by
  cases f with
  | message => exact not_false
  | _ => cases h

theorem data_plane_enforced_sample :
    ∃ sys, Reachable (@System.step literalMatch)
        (fun sys l => permittedFrames (fun conn => if conn = 0 then clientEntry.identity
          else metricsEntry.identity)
          sys l = true) (.start ⟨1, 0, 0⟩ ([1].map fun n => ⟨n, []⟩)) sys ∧
      (∃ f ∈ sys.state.outgoing 0, ¬f.Reply) ∧ sys.state.outgoing 1 ≠ [] ∧
        ∀ f ∈ sys.state.outgoing 1, f.Reply := by
  have htrace : (run (checked (@System.step literalMatch)
      (permittedFrames fun conn => if conn = 0 then clientEntry.identity
        else metricsEntry.identity) .blocked)
      (.start ⟨1, 0, 0⟩ ([1].map fun n => ⟨n, []⟩))
        (receivedLabels ++ [.connect (str "n"),
          .receive 1 (.publish (str "x") (str "g") (str "p")) 0] ++
          runTimes 3 2 [])).toOption.any (fun sys =>
            (sys.state.outgoing 0).any OutFrame.isMessage && !(sys.state.outgoing 1).isEmpty) =
              true := by
    decide +kernel
  obtain ⟨sys, hreach, hend⟩ := Reachable.ofTrace (fun _ _ h => h) _ _ htrace
  obtain ⟨hsent, hanswered⟩ := Bool.and_eq_true_iff.mp hend
  obtain ⟨f, hf, hmessage⟩ := List.any_eq_true.mp hsent
  refine ⟨sys, hreach, ⟨f, hf, OutFrame.not_reply hmessage⟩, by simpa using hanswered, ?_⟩
  exact (@System.data_plane_enforced _ literalMatch sys _ _ hreach).1 1 (by decide)

/-- A client that may only read metrics logs in, publishes a message, receives it and acknowledges
it. -/
theorem permissions_not_checked :
    (∃ login, (connectionAuthenticate keyService .inOrder []
        (some (.connect ⟨str "c", [], str "k", [], str "n"⟩))).2 =
        some login ∧ login.identity = metricsEntry.identity ∧ login.ns = str "n") ∧
      (∀ p ∈ [Permission.publish, .consume, .ack, .nack],
        metricsEntry.identity.hasPermission p = false) ∧
      ∃ sys₁ sys₂, Reachable (@System.step literalMatch) (fun _ _ => True)
          (.start ⟨1, 0, 0⟩ ([1].map fun n => ⟨n, []⟩)) sys₁ ∧
        sys₁.state.session 0 = some (str "n") ∧ (∃ f ∈ sys₁.state.outgoing 0, ¬f.Reply) ∧
          sys₁.state.size = 1 ∧
        Reachable (@System.step literalMatch) (fun _ _ => True) sys₁ sys₂ ∧
          sys₂.state.size = 0 := by
  have htrace : (run (checked (@System.step literalMatch) (fun _ _ => true) .blocked)
      (.start ⟨1, 0, 0⟩ ([1].map fun n => ⟨n, []⟩)) receivedLabels).toOption.any (fun sys =>
        sys.state.session 0 = some (str "n") && (sys.state.outgoing 0).any OutFrame.isMessage &&
          sys.state.size = 1 &&
          (run (checked (@System.step literalMatch) (fun _ _ => true) .blocked) sys
            ([.receive 0 (.ack (str "m1") (str "q") (str "g")) 0] ++ runTimes 3 7 [])).toOption.any
              fun sys₂ =>
              sys₂.state.size = 0) = true := by
    decide +kernel
  obtain ⟨sys₁, hreach₁, hend⟩ := Reachable.ofTrace (fun _ _ _ => trivial) _ _ htrace
  simp only [Bool.and_eq_true, decide_eq_true_eq, List.any_eq_true] at hend
  obtain ⟨⟨⟨hsession, f, hf, hmessage⟩, hsize⟩, hack⟩ := hend
  obtain ⟨sys₂, hreach₂, hempty⟩ := Reachable.ofTrace (fun _ _ _ => trivial) _ _ hack
  refine ⟨⟨_, rfl, rfl, rfl⟩, by decide, sys₁, sys₂, hreach₁, hsession,
    ⟨f, hf, OutFrame.not_reply hmessage⟩, hsize, hreach₂, of_decide_eq_true hempty⟩

end Octar
