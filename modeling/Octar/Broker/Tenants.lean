import Octar.Broker.Activation
import Octar.Broker.Subscriptions
import Octar.Broker.Deployment

/-! The namespaces of the sessions keep the messages of the clients apart. -/

namespace Octar

open Go Threads

namespace Runtime

def resolve (s : Runtime) (ns name : Bytes) : Bytes × Bytes :=
  ((s.queues.entries.find? fun e => queueKey e.1.1 e.1.2 = queueKey ns name).map Sigma.fst).getD
    (ns, name)

def resolveRef (s : Runtime) (g : GroupRef) : GroupRef :=
  ⟨(s.resolve g.ns g.queue).1, (s.resolve g.ns g.queue).2, g.group⟩

def Slashless (s : Runtime) : Prop := ∀ k, (s.queues.lookup k).isSome → 47 ∉ k.1 ∧ 47 ∉ k.2

theorem Slashless.resolve {s : Runtime} (h : s.Slashless) (ns name : Bytes) :
    s.resolve ns name = (ns, name) := by
  unfold Runtime.resolve
  cases hfind : s.queues.entries.find? fun e => queueKey e.1.1 e.1.2 = queueKey ns name with
  | none => rfl
  | some e =>
    have hkey : queueKey e.1.1 e.1.2 = queueKey ns name := by simpa using List.find?_some hfind
    have hlookup := AList.mem_lookup_iff.mpr (List.mem_of_find?_eq_some hfind)
    obtain ⟨hns, hname⟩ := h e.1 (by rw [hlookup]; rfl)
    obtain ⟨rfl, rfl⟩ := queueKey_inj hns hname hkey.symm
    rfl

theorem Slashless.resolveRef {s : Runtime} (h : s.Slashless) (g : GroupRef) :
    s.resolveRef g = g := by
  rw [Runtime.resolveRef, h.resolve]

def session (s : Runtime) (conn : Nat) : Option Bytes := s.conns[conn]?.map Conn.ns

def outgoing (s : Runtime) (conn : Nat) : List OutFrame := s.conns[conn]?.elim [] Conn.out

theorem mem_outgoing {s : Runtime} {conn : Nat} {f : OutFrame} :
    f ∈ s.outgoing conn ↔ ∃ C, s.conns[conn]? = some C ∧ f ∈ C.out := by
  unfold outgoing
  cases s.conns[conn]? <;> simp

structure Sends (s s' : Runtime) (W : Nat → OutFrame → Prop) : Prop where
  session : ∀ conn ns, s.session conn = some ns → s'.session conn = some ns
  outgoing : ∀ conn f, f ∈ s'.outgoing conn → f ∈ s.outgoing conn ∨ W conn f

variable {s s' : Runtime} {W : Nat → OutFrame → Prop}

theorem Sends.ofSame (h : s'.conns = s.conns) : s.Sends s' W := by
  refine ⟨?_, ?_⟩
  · intro conn ns hns
    rwa [Runtime.session, h]
  · intro conn f hf
    rw [Runtime.outgoing, h] at hf
    exact .inl hf

theorem Sends.set {i : Nat} {C C' : Conn} (hC : s.conns[i]? = some C)
    (hconns : s'.conns = s.conns.set i C') (hns : C'.ns = C.ns)
    (hout : ∀ f ∈ C'.out, f ∈ C.out ∨ W i f) : s.Sends s' W := by
  have hself : (s.conns.set i C')[i]? = some C' :=
    List.getElem?_set_self (List.getElem?_eq_some_iff.mp hC).1
  refine ⟨?_, ?_⟩
  · intro conn ns hsession
    rw [Runtime.session, hconns]
    by_cases heq : i = conn
    · subst heq
      rw [Runtime.session, hC] at hsession
      rwa [hself, Option.map_some, hns]
    · rwa [List.getElem?_set_ne heq]
  · intro conn f hf
    rw [Runtime.outgoing, hconns] at hf
    by_cases heq : i = conn
    · subst heq
      rw [hself] at hf
      rw [Runtime.outgoing, hC]
      exact hout f hf
    · rw [List.getElem?_set_ne heq] at hf
      exact .inl hf

end Runtime

def Cmd.handleByKey [PathMatch] (ch : Choice) :
    (c : Cmd) → Runtime → Except Stuck (Runtime × c.Answer)
  | .getQueue ns name, s => Cmd.handle ch (.getQueue (s.resolve ns name).1 (s.resolve ns name).2) s
  | .publishLocked g msgID payload, s =>
    Cmd.handle ch (.publishLocked (s.resolveRef g) msgID payload) s
  | .indexKey g, s => Cmd.handle ch (.indexKey (s.resolveRef g)) s
  | .tryDispatchOne g, s => Cmd.handle ch (.tryDispatchOne (s.resolveRef g)) s
  | .completeAndNext g msgID, s => Cmd.handle ch (.completeAndNext (s.resolveRef g) msgID) s
  | .failAndNext g msgID reason, s => Cmd.handle ch (.failAndNext (s.resolveRef g) msgID reason) s
  | .drainGroup g, s => Cmd.handle ch (.drainGroup (s.resolveRef g)) s
  | .returnToPending g msgID, s => Cmd.handle ch (.returnToPending (s.resolveRef g) msgID) s
  | .sweepShard ns name shard, s =>
    Cmd.handle ch (.sweepShard (s.resolve ns name).1 (s.resolve ns name).2 shard) s
  | .pageGroupStats ns name after limit, s =>
    Cmd.handle ch (.pageGroupStats (s.resolve ns name).1 (s.resolve ns name).2 after limit) s
  | .getGroupToken g, s => Cmd.handle ch (.getGroupToken (s.resolveRef g)) s
  | .trySchedule g, s => Cmd.handle ch (.trySchedule (s.resolveRef g)) s
  | .unschedule g, s => Cmd.handle ch (.unschedule (s.resolveRef g)) s
  | .sendActive g, s => Cmd.handle ch (.sendActive (s.resolveRef g)) s
  | .setWake g wakeNs, s => Cmd.handle ch (.setWake (s.resolveRef g) wakeNs) s
  | .clearWake g wakeNs, s => Cmd.handle ch (.clearWake (s.resolveRef g) wakeNs) s
  | .addTimer g wakeNs, s => Cmd.handle ch (.addTimer (s.resolveRef g) wakeNs) s
  | c, s => Cmd.handle ch c s

theorem Cmd.handleByKey_eq [PathMatch] {s : Runtime} (hs : s.Slashless) (ch : Choice) (c : Cmd) :
    c.handleByKey ch s = c.handle ch s := by
  cases c <;> simp only [handleByKey] <;> first | rw [hs.resolve] | rw [hs.resolveRef]

namespace System

def stepByKey [PathMatch] (sys : System) : Label → Except Stuck System
  | .declare ns name configs =>
    if (sys.state.queues.lookup (sys.state.resolve ns name)).isSome then .error .blocked
    else sys.step (.declare ns name configs)
  | .receive conn f pages =>
    match sys.atReader conn with
    | none => .error .blocked
    | some c =>
      let c' := { c with unanswered := f.answers.elim c.unanswered c.unanswered.erase }
      .ok ({ sys with state.conns := sys.state.conns.set conn c' }.spawn (.frame conn c.ns f pages))
  | .activate g =>
    if (sys.state.queues.lookup (sys.state.resolve g.ns g.queue)).isSome then .ok
      (sys.spawn (.activate g))
    else .error .blocked
  | .run thread ch => do
    let (s, threads) ← advance (Cmd.handleByKey ch) .blocked thread sys.state sys.threads
    return ⟨s, threads⟩
  | l => sys.step l

theorem stepByKey_ok [PathMatch] {sys sys' : System} {l : Label} (hs : sys.state.Slashless)
    (h : sys.stepByKey l = .ok sys') :
    sys.Step l sys' ∨ ∃ conn f pages c, l = .receive conn f pages ∧ sys.atReader conn = some c ∧
      sys' = { sys with
        state.conns := sys.state.conns.set conn
          { c with unanswered := f.answers.elim c.unanswered c.unanswered.erase } }.spawn
            (.frame conn c.ns f pages) := by
  cases l with
  | declare ns name configs =>
    simp only [stepByKey] at h
    split at h
    · cases h
    · exact .inl (step_ok h)
  | receive conn f pages =>
    simp only [stepByKey] at h
    split at h
    · cases h
    · rename_i c hreader
      cases h
      exact .inr ⟨conn, f, pages, c, rfl, hreader, rfl⟩
  | activate g =>
    simp only [stepByKey] at h
    rw [hs.resolve] at h
    split at h
    · rename_i hqueue
      cases h
      exact .inl (.activate hqueue)
    · cases h
  | run thread ch =>
    obtain ⟨⟨s, threads⟩, hadvance, hret⟩ := bind_ok.mp h
    cases hret
    obtain ⟨task, c, k, r, hnext, hhandled, rfl⟩ := advance_ok hadvance
    rw [Cmd.handleByKey_eq hs] at hhandled
    exact .inl (.run hnext hhandled)
  | _ => exact .inl (step_ok h)

end System

def Task.WorksIn : Task → Bytes → Prop
  | .frame _ ns _ _, ns' => ns' = ns
  | _, _ => True

def Task.Publishes : Task → GroupRef → Bytes → Prop
  | .frame _ ns (.publish queue group payload) _, g, payload' =>
    g = ⟨ns, queue, group⟩ ∧ payload' = payload
  | _, _, _ => False

def Task.Subscribes : Task → Nat → GroupRef → Prop
  | .frame conn ns (.subscribe queue group) _, conn', g => conn' = conn ∧ g = ⟨ns, queue, group⟩
  | _, _, _ => False

structure Knowledge where
  message : Message → Prop
  subscriber : Nat → GroupRef → Prop

def Cmd.chosen : (c : Cmd) → c.Answer → Option (Nat × GroupRef)
  | .registryNext g, conn => conn.map fun conn => (conn, g)
  | _, _ => none

structure Cmd.Learns (K : Knowledge) (c : Cmd) (r : c.Answer) : Prop where
  possible : c.Possible r
  messages : ∀ x ∈ c.messages r, K.message x.2
  chosen : ∀ x ∈ c.chosen r, K.subscriber x.1 x.2

def OutFrame.Reply : OutFrame → Prop
  | .message .. => False
  | _ => True

def Cmd.Sound (t : Task) (K : Knowledge) : Cmd → Prop
  | .publishLocked g (some _) payload => t.Publishes g payload
  | .publishLocked g none payload =>
    t.WorksIn g.ns ∧ (∀ g' payload', ¬ t.Publishes g' payload') ∧
      ∃ m, K.message m ∧ m.ns = g.ns ∧ m.payload = payload
  | .indexKey g | .tryDispatchOne g | .completeAndNext g _ | .failAndNext g _ _ | .drainGroup g
  | .returnToPending g _ => t.WorksIn g.ns
  | .sweepShard ns _ _ => t.WorksIn ns
  | .enqueueDispatch msg => K.message msg
  | .writeMessage conn msg => K.message msg ∧ K.subscriber conn msg.ref
  | .writeOrDrop _ frame | .writeOrWait _ frame => frame.Reply
  | .registryAdd key conn => t.Subscribes conn key
  | _ => True

section Sound

variable {t : Task} {K : Knowledge}

theorem bare_sound (c : Cmd) (hc : c.Bare) : c.Sound t K := by
  cases c <;> first | exact trivial | exact hc.elim

theorem activate_sound (g : GroupRef) : (activate g).Uses (Cmd.Learns K) (Cmd.Sound t K) :=
  activate_uses bare_sound g

theorem publishAs_sound {g : GroupRef} {msgID : Option Bytes} {payload : Bytes}
    (hns : t.WorksIn g.ns) (h : (Cmd.publishLocked g msgID payload).Sound t K) :
    (publishAs g msgID payload).Uses (Cmd.Learns K) (Cmd.Sound t K) := by
  refine .seq h fun r _ => ?_
  obtain ⟨published, new⟩ := r
  cases published with
  | error e => exact .ret _
  | ok msg => exact .ite (.seq hns fun _ _ => .ret _) (.ret _)

theorem returnAll_sound {g : GroupRef} (hns : t.WorksIn g.ns) (msgs : List Message) :
    (returnAll g msgs).Uses (Cmd.Learns K) (Cmd.Sound t K) := by
  induction msgs with
  | nil => exact .ret ()
  | cons msg msgs ih => exact .seq hns fun _ _ => ih

theorem offerAll_sound {g : GroupRef} (hns : t.WorksIn g.ns) {msgs : List Message}
    (hmsgs : ∀ m ∈ msgs, K.message m) : (offerAll g msgs).Uses (Cmd.Learns K) (Cmd.Sound t K) := by
  induction msgs with
  | nil => exact .ret true
  | cons msg msgs ih =>
    rw [List.forall_mem_cons] at hmsgs
    exact .seq hmsgs.1 fun _ _ =>
      .ite (ih hmsgs.2) (.bind (returnAll_sound hns _) fun _ => .ret false)

theorem dispatchNext_sound {next : Option Message} (hnext : ∀ m ∈ next, K.message m) :
    (dispatchNext next).Uses (Cmd.Learns K) (Cmd.Sound t K) := by
  cases next with
  | none => exact .ret ()
  | some next => exact .seq (hnext next rfl) fun _ _ => .ret ()

theorem onPublish_sound (conn : Nat) (ns queue group payload : Bytes) (pages : Nat) :
    (onPublish conn ⟨ns, queue, group⟩ payload).Uses (Cmd.Learns K)
      (Cmd.Sound (.frame conn ns (.publish queue group payload) pages) K) := by
  refine .seq trivial fun _ _ => .ite (.seq trivial fun _ _ => .ret ()) ?_
  refine .seq trivial fun _ _ => .ite (.seq trivial fun _ _ => .ret ()) ?_
  refine .seq trivial fun _ _ => .seq trivial fun _ _ => .ite ?_ ?_
  · exact .seq trivial fun _ _ => .seq trivial fun _ _ => .ret ()
  · refine .bind (publishAs_sound rfl ⟨rfl, rfl⟩) fun published => ?_
    cases published with
    | error e => exact .seq trivial fun _ _ => .command trivial
    | ok msg =>
      refine .seq trivial fun _ _ => .bind ?_ fun _ => .seq trivial fun _ _ =>
        .ite (activate_sound _) (.ret ())
      refine .seq rfl fun next hnext => ?_
      cases next with
      | none => exact .ret ()
      | some next =>
        refine .seq ?_ fun _ _ => .ite (.command rfl) (.ret ())
        exact hnext.messages (_, next) (List.mem_map_of_mem List.mem_cons_self)

theorem onSubscribe_sound (conn : Nat) (ns queue group : Bytes) (pages : Nat) :
    (onSubscribe conn ⟨ns, queue, group⟩ pages).Uses (Cmd.Learns K)
      (Cmd.Sound (.frame conn ns (.subscribe queue group) pages) K) := by
  refine .seq ⟨rfl, rfl⟩ fun _ _ => .seq trivial fun _ _ => .ite (.ret ()) ?_
  exact .ite (activatePages_uses bare_sound ns queue pages []) (activate_sound _)

theorem onACK_sound (conn : Nat) (ns queue group msgID : Bytes) (pages : Nat) :
    (onACK conn ⟨ns, queue, group⟩ msgID).Uses (Cmd.Learns K)
      (Cmd.Sound (.frame conn ns (.ack msgID queue group) pages) K) := by
  refine .seq trivial fun _ _ => .seq trivial fun _ _ => ?_
  refine .seq trivial fun _ _ => .ite (.ret ()) (.seq trivial fun _ _ => .ite (.ret ()) ?_)
  refine .seq trivial fun _ _ => .seq rfl fun next hnext => .bind (dispatchNext_sound ?_)
    fun _ => activate_sound _
  intro m hm
  exact hnext.messages (_, m) (List.mem_map_of_mem (Option.mem_toList.mpr hm))

theorem deadLetter_sound {ns : Bytes} {dlq : Option (Bytes × Message)} (hns : t.WorksIn ns)
    (hframe : ∀ g payload, ¬ t.Publishes g payload)
    (hdlq : ∀ x ∈ dlq, K.message x.2 ∧ x.2.ns = ns) :
    (deadLetter ns dlq).Uses (Cmd.Learns K) (Cmd.Sound t K) := by
  cases dlq with
  | none => exact .ret ()
  | some x =>
    obtain ⟨hmessage, hxns⟩ := hdlq x rfl
    refine .ite (.ret ()) (.seq trivial fun _ _ => .ite (.ret ()) ?_)
    refine .bind (publishAs_sound hns ⟨hns, hframe, x.2, hmessage, hxns, rfl⟩) fun published => ?_
    cases published with
    | error e => exact .ret ()
    | ok msg => exact .seq trivial fun _ _ => .ite (activate_sound _) (.ret ())

theorem onNACK_sound (conn : Nat) (ns queue group msgID reason : Bytes) (pages : Nat) :
    (onNACK conn ⟨ns, queue, group⟩ msgID reason).Uses (Cmd.Learns K)
      (Cmd.Sound (.frame conn ns (.nack msgID queue group reason) pages) K) := by
  refine .seq trivial fun _ _ => .seq trivial fun _ _ => ?_
  refine .seq trivial fun _ _ => .ite (.ret ()) (.seq trivial fun _ _ => .ite (.ret ()) ?_)
  refine .seq rfl fun failed hfailed => ?_
  have hnext : ∀ m ∈ failed.2, K.message m := by
    intro m hm
    exact hfailed.messages (_, m)
      (List.mem_append_left _ (List.mem_map_of_mem (Option.mem_toList.mpr hm)))
  have hdlq : ∀ x ∈ failed.1, K.message x.2 ∧ x.2.ns = ns := by
    intro x hx
    have hmem : (⟨ns, queue, group⟩, x.2) ∈
        (Cmd.failAndNext ⟨ns, queue, group⟩ msgID reason).messages failed :=
      List.mem_append_right _ (List.mem_map.mpr ⟨x, Option.mem_toList.mpr hx, rfl⟩)
    exact ⟨hfailed.messages _ hmem, congrArg GroupRef.ns (hfailed.possible _ hmem)⟩
  have hrest : (do dispatchNext failed.2; activate ⟨ns, queue, group⟩; deadLetter ns failed.1 :
      Program Unit).Uses
      (Cmd.Learns K) (Cmd.Sound (.frame conn ns (.nack msgID queue group reason) pages) K) := by
    refine .bind (dispatchNext_sound hnext) fun _ => .bind (activate_sound _) fun _ => ?_
    exact deadLetter_sound rfl (fun _ _ h => h) hdlq
  exact .ite (.seq trivial fun _ _ => hrest) hrest

theorem dispatch_sound {msg : Message} (hmsg : K.message msg) :
    (dispatch msg).Uses (Cmd.Learns K) (Cmd.Sound (.dispatch msg) K) := by
  have hback : (handBack msg).Uses (Cmd.Learns K) (Cmd.Sound (.dispatch msg) K) :=
    .seq trivial fun _ _ => .ite (.command trivial) (.ret ())
  have hback' : (do handBack msg; pure () : Program Unit).Uses (Cmd.Learns K)
      (Cmd.Sound (.dispatch msg) K) := .bind hback fun _ => .ret ()
  refine .seq trivial fun conn hconn => ?_
  cases conn with
  | none => exact hback
  | some conn =>
    refine .seq trivial fun _ _ => .ite (.seq trivial fun _ _ => hback') ?_
    refine .seq trivial fun _ _ => .ite (.seq trivial fun _ _ => .seq trivial fun _ _ => hback') ?_
    refine .seq ⟨hmsg, hconn.chosen (conn, msg.ref) rfl⟩ fun _ _ =>
      .ite ?_ (.seq trivial fun _ _ => .ret ())
    exact .seq trivial fun _ _ => .seq trivial fun _ _ => hback'

theorem process_sound (g : GroupRef) :
    (processActivation g).Uses (Cmd.Learns K) (Cmd.Sound (.process g) K) := by
  refine .seq trivial fun _ _ => .seq trivial fun r hr => ?_
  refine .bind (offerAll_sound (t := .process g) trivial ?_) fun _ => .ite ?_ (.ret ())
  · intro m hm
    exact hr.messages (g, m) (List.mem_map_of_mem hm)
  · exact .ite (scheduleWake_uses bare_sound g _) (.ite (activate_sound g) (.ret ()))

theorem sweepLeases_sound : sweepLeases.Uses (Cmd.Learns K) (Cmd.Sound .sweep K) := by
  have hshards : ∀ ns name shards,
      (sweepShards ns name shards).Uses (Cmd.Learns K) (Cmd.Sound .sweep K) := by
    intro ns name shards
    induction shards with
    | nil => exact .ret []
    | cons shard shards ih => exact .seq trivial fun _ _ => .bind ih fun _ => .ret _
  have hall : ∀ queues, (sweepAll queues).Uses (Cmd.Learns K) (Cmd.Sound .sweep K) := by
    intro queues
    induction queues with
    | nil => exact .ret ()
    | cons queue queues ih =>
      exact .bind (hshards _ _ _) fun expired =>
        .bind (expireAll_uses bare_sound expired) fun _ => ih
  exact .seq trivial fun queues _ => hall queues

end Sound

def Task.Knows (K : Knowledge) : Task → Prop
  | .dispatch msg => K.message msg
  | _ => True

theorem task_sound {K : Knowledge} (t : Task) (h : t.Knows K) :
    t.program.Uses (Cmd.Learns K) (Cmd.Sound t K) := by
  cases t with
  | frame conn ns f pages =>
    cases f with
    | publish queue group payload => exact onPublish_sound conn ns queue group payload pages
    | subscribe queue group => exact onSubscribe_sound conn ns queue group pages
    | ack msgID queue group => exact onACK_sound conn ns queue group msgID pages
    | nack msgID queue group reason => exact onNACK_sound conn ns queue group msgID reason pages
    | heartbeat => exact .command trivial
  | teardown conn => exact teardown_uses bare_sound conn
  | dispatch msg => exact dispatch_sound h
  | process g => exact process_sound g
  | timer g wakeNs => exact .seq trivial fun _ _ => activate_sound g
  | activate g => exact activate_sound g
  | sweep => exact sweepLeases_sound

/-- The SUBSCRIBE frames that were received and the PUBLISH frames that were accepted, each with its
connection, and the messages that dead-lettering has made. -/
structure Tenancy where
  sys : System
  subscribes : List (Nat × Bytes × Bytes)
  accepted : List (Nat × Bytes × Bytes × Bytes)
  deadLettered : List (GroupRef × Bytes)

namespace Tenancy

def start (cfg : RuntimeConfig) (depths : List Nat) : Tenancy :=
  ⟨.start cfg (depths.map fun n => ⟨n, []⟩), [], [], []⟩

def recordMessage (t : Tenancy) (task : Task) (m : Message) : Tenancy :=
  match task with
  | .frame conn _ (.publish queue group payload) _ =>
    { t with accepted := t.accepted ++ [(conn, queue, group, payload)] }
  | _ => { t with deadLettered := t.deadLettered ++ [(m.ref, m.id)] }

def record [PathMatch] (t : Tenancy) : Label → Tenancy
  | .receive conn (.subscribe queue group) _ =>
    { t with subscribes := t.subscribes ++ [(conn, queue, group)] }
  | .run thread ch =>
    match t.sys.threads[thread]? with
    | some ⟨task, .call c _⟩ =>
      match c.handleByKey ch t.sys.state with
      | .ok (_, r) =>
        match c.published r with
        | some m => t.recordMessage task m
        | none => t
      | .error _ => t
    | _ => t
  | _ => t

def step [PathMatch] (t : Tenancy) (l : Label) : Except Stuck Tenancy := do
  let sys ← t.sys.stepByKey l
  return { t.record l with sys := sys }

def wellNamed : Label → Bool
  | .declare ns name _ => namePattern ns && queueNamePattern name
  | _ => true

/-- The message carries the payload of an accepted PUBLISH frame of its own namespace, for its own
queue and group unless it was dead-lettered. -/
def Sourced (t : Tenancy) (m : Message) : Prop :=
  ∃ conn queue group, (conn, queue, group, m.payload) ∈ t.accepted ∧
    t.sys.state.session conn = some m.ns ∧
    ((queue, group) = (m.queueName, m.groupKey) ∨ (m.ref, m.id) ∈ t.deadLettered)

def Entitled (t : Tenancy) (conn : Nat) (g : GroupRef) : Prop :=
  t.sys.state.session conn = some g.ns ∧ ∃ group, (conn, g.queue, group) ∈ t.subscribes ∧
    (group = g.group ∨ isGlobPattern group = true ∧ matchGlob group g.group = true)

def knowledge (t : Tenancy) : Knowledge := ⟨t.Sourced, t.Entitled⟩

/-- The frames that may be written to a connection with this session: a message carries the payload
of an accepted PUBLISH frame of the same namespace, which named the same queue and group unless the
message was dead-lettered, and the connection has sent a SUBSCRIBE frame for the queue whose group
matches. -/
def Permitted (t : Tenancy) (conn : Nat) : OutFrame → Prop
  | .message msgID queue group payload _ => ∃ ns, t.sys.state.session conn = some ns ∧
    (∃ conn' queue' group', (conn', queue', group', payload) ∈ t.accepted ∧
      t.sys.state.session conn' = some ns ∧
      ((queue', group') = (queue, group) ∨ (⟨ns, queue, group⟩, msgID) ∈ t.deadLettered)) ∧
    ∃ pattern, (conn, queue, pattern) ∈ t.subscribes ∧
      (pattern = group ∨ isGlobPattern pattern = true ∧ matchGlob pattern group = true)
  | _ => True

theorem permitted_message {t : Tenancy} {conn : Nat} {m : Message} {attempts : Int}
    (hm : t.Sourced m) (hconn : t.Entitled conn m.ref) :
    t.Permitted conn (.message m.id m.queueName m.groupKey m.payload attempts) :=
  ⟨m.ns, hconn.1, hm, hconn.2⟩

structure Grows (t t' : Tenancy) : Prop where
  session : ∀ conn ns, t.sys.state.session conn = some ns → t'.sys.state.session conn = some ns
  subscribes : t.subscribes ⊆ t'.subscribes
  accepted : t.accepted ⊆ t'.accepted
  deadLettered : t.deadLettered ⊆ t'.deadLettered

theorem Grows.sourced {t t' : Tenancy} (h : t.Grows t') {m : Message} (hm : t.Sourced m) :
    t'.Sourced m := by
  obtain ⟨conn, queue, group, hmem, hns, hplace⟩ := hm
  exact ⟨conn, queue, group, h.accepted hmem, h.session conn _ hns,
    hplace.imp_right fun h' => h.deadLettered h'⟩

theorem Grows.entitled {t t' : Tenancy} (h : t.Grows t') {conn : Nat} {g : GroupRef}
    (hg : t.Entitled conn g) :
    t'.Entitled conn g := by
  obtain ⟨hns, group, hmem, hmatch⟩ := hg
  exact ⟨h.session conn _ hns, group, h.subscribes hmem, hmatch⟩

theorem Grows.permitted {t t' : Tenancy} (h : t.Grows t') {conn : Nat} {f : OutFrame}
    (hf : t.Permitted conn f) :
    t'.Permitted conn f := by
  cases f with
  | message msgID queue group payload attempts =>
    obtain ⟨ns, hns, ⟨conn', queue', group', hmem, hns', hplace⟩, pattern, hpattern, hmatch⟩ := hf
    exact ⟨ns, h.session conn ns hns,
      ⟨conn', queue', group', h.accepted hmem, h.session conn' ns hns',
        hplace.imp_right fun h' => h.deadLettered h'⟩, pattern, h.subscribes hpattern, hmatch⟩
  | _ => trivial

theorem lasting_sourced (t : Tenancy) : Message.Lasting t.Sourced := by
  rintro m m' ⟨conn, queue, group, hmem, hns, hplace⟩ href hid hpayload
  obtain ⟨hns', hqueue, hgroup⟩ : m'.ns = m.ns ∧ m'.queueName = m.queueName ∧
      m'.groupKey = m.groupKey := by
    simpa [Message.ref] using href
  exact ⟨conn, queue, group, hpayload ▸ hmem, hns' ▸ hns, by rwa [hqueue, hgroup, href, hid]⟩

def Received (t : Tenancy) : Task → Prop
  | .frame conn ns f _ =>
    t.sys.state.session conn = some ns ∧ ∀ queue group, f = .subscribe queue group →
      (conn, queue, group) ∈ t.subscribes
  | _ => True

def Asked (t : Tenancy) (s : Subscription) : Prop :=
  t.sys.state.session s.conn = some s.key.ns ∧ (s.conn, s.key.queue, s.key.group) ∈ t.subscribes

structure Isolated (t : Tenancy) : Prop where
  slashless : t.sys.state.Slashless
  placed : t.sys.state.Placed
  messages : ∀ g G, t.sys.state.group g = some G → G.Each fun x => t.Sourced x.2
  channels : ∀ c ∈ t.sys.state.dispatchChs, ∀ m ∈ c.buf, t.Sourced m
  frames : ∀ conn f, f ∈ t.sys.state.outgoing conn → t.Permitted conn f
  registry : ∃ subs, t.sys.state.registry.Refines subs ∧ ∀ s ∈ subs, t.Asked s
  received : ∀ x ∈ t.sys.threads, t.Received x.task
  threads : ∀ x ∈ t.sys.threads, ∀ K : Knowledge, (∀ m, t.Sourced m → K.message m) →
    (∀ conn g, t.Entitled conn g → K.subscriber conn g) →
      x.prog.Uses (Cmd.Learns K) (Cmd.Sound x.task K)

theorem isolated_start (cfg : RuntimeConfig) (depths : List Nat) : (start cfg depths).Isolated := by
  refine ⟨?_, (System.regular_start cfg _).placed, ?_, ?_, ?_,
    ⟨[], Registry.refines_empty, ?_⟩, ?_, ?_⟩
  · intro k hk
    cases hk
  · intro g G hG
    cases hG
  · intro c hc m hm
    obtain ⟨n, -, rfl⟩ := List.mem_map.mp hc
    cases hm
  · intro conn f hf
    cases hf
  · intro s hs
    cases hs
  · intro x hx
    cases hx
  · intro x hx
    cases hx

end Tenancy

section Handle

variable [PathMatch] {ch : Choice} {c : Cmd} {s s' : Runtime} {r : c.Answer}

def Cmd.Writes : Cmd → Nat → OutFrame → Prop
  | .writeMessage conn msg, i, f =>
    conn = i ∧ ∃ attempts, f = .message msg.id msg.queueName msg.groupKey msg.payload attempts
  | .writeOrDrop conn frame, i, f | .writeOrWait conn frame, i, f => conn = i ∧ f = frame
  | _, _, _ => False

theorem Cmd.handle_sends (h : c.handle ch s = .ok (s', r)) : s.Sends s' c.Writes := by
  by_cases hc : c.part = .conns
  case neg => exact .ofSame ((handle_frame h).conns hc)
  have happend : ∀ {C : Conn} {f₀ : OutFrame} {i : Nat}, c.Writes i f₀ →
      ∀ f ∈ C.out ++ [f₀], f ∈ C.out ∨ c.Writes i f := by
    intro C f₀ i hf₀ f hf
    rcases List.mem_append.mp hf with hf | hf
    · exact .inl hf
    · cases List.mem_singleton.mp hf
      exact .inr hf₀
  cases c with
  | acquireCredit i =>
    obtain ⟨C, C', hC, hf, hs'⟩ := Runtime.atConn_ok h
    split at hf
    all_goals
      cases hf
      exact .set hC (congrArg Runtime.conns hs') rfl fun _ hf => .inl hf
  | releaseCredit i | inflight i | close i =>
    obtain ⟨C, C', hC, hf, hs'⟩ := Runtime.atConn_ok h
    cases hf
    exact .set hC (congrArg Runtime.conns hs') rfl fun _ hf => .inl hf
  | writeMessage i msg =>
    obtain ⟨⟨s₁, sent⟩, h₁, hret⟩ := bind_ok.mp h
    obtain ⟨C, C', hC, hf, rfl⟩ := Runtime.atConn_ok h₁
    split at hf
    · cases hf
      cases hret
      exact .set hC (by rfl) (by rfl) (happend ⟨rfl, _, rfl⟩)
    · cases hf
      cases hret
      exact .set hC (by rfl) (by rfl) fun _ hf => .inl hf
  | writeOrDrop i frame =>
    obtain ⟨C, C', hC, hf, hs'⟩ := Runtime.atConn_ok h
    cases hf
    split at hs'
    · exact .set hC (congrArg Runtime.conns hs') rfl (happend ⟨rfl, rfl⟩)
    · exact .set hC (congrArg Runtime.conns hs') rfl fun _ hf => .inl hf
  | writeOrWait i frame =>
    obtain ⟨C, C', hC, hf, hs'⟩ := Runtime.atConn_ok h
    split at hf
    · cases hf
      exact .set hC (congrArg Runtime.conns hs') rfl (happend ⟨rfl, rfl⟩)
    · split at hf
      · cases hf
        exact .set hC (congrArg Runtime.conns hs') rfl fun _ hf => .inl hf
      · cases hf
  | _ => cases hc

theorem System.Step.sends {sys sys' : System} {l : Label} (h : sys.Step l sys')
    (hl : ∀ thread ch, l ≠ .run thread ch) : sys.state.Sends sys'.state fun _ _ => False := by
  cases h with
  | declare | deliver | process | fire | activate | sweep => exact .ofSame rfl
  | connect =>
    refine ⟨?_, ?_⟩
    · intro conn ns' hsession
      obtain ⟨C, hC, hns⟩ := Option.map_eq_some_iff.mp hsession
      rw [Runtime.session, List.getElem?_append_left (List.getElem?_eq_some_iff.mp hC).1, hC,
        Option.map_some, hns]
    · intro conn f hf
      obtain ⟨C, hC, hmem⟩ := Runtime.mem_outgoing.mp hf
      rw [List.getElem?_append] at hC
      split at hC
      · exact .inl (Runtime.mem_outgoing.mpr ⟨C, hC, hmem⟩)
      · cases List.mem_singleton.mp (List.mem_of_getElem? hC)
        cases hmem
  | receive reader => exact .set (System.atReader_conn reader) rfl rfl fun _ hf => .inl hf
  | disconnect reader => exact .set (System.atReader_conn reader) rfl rfl fun _ hf => .inl hf
  | flush open_ => exact .set open_ rfl rfl fun _ hf => .inl (List.mem_of_mem_drop hf)
  | run => exact absurd rfl (hl _ _)

theorem Cmd.handle_registry {subs : List Subscription} (h : c.handle ch s = .ok (s', r))
    (hrefines : s.registry.Refines subs) :
    ∃ subs', s'.registry.Refines subs' ∧ ∀ x ∈ subs', x ∈ subs ∨ c = .registryAdd x.key x.conn := by
  by_cases hc : c.part = .registry
  case neg =>
    rw [(handle_frame h).registry hc]
    exact ⟨subs, hrefines, fun x hx => .inl hx⟩
  cases c with
  | registryAdd key conn =>
    cases h
    refine ⟨_, hrefines.exec (.add key conn), ?_⟩
    intro x hx
    rcases List.mem_append.mp hx with hx | hx
    · exact .inl hx
    · cases List.mem_singleton.mp hx
      exact .inr rfl
  | registryNext g =>
    cases h
    exact ⟨_, hrefines.exec (.next ch.ord g), fun x hx => .inl hx⟩
  | registryRemove conn =>
    cases h
    exact ⟨_, hrefines.exec (.remove conn), fun x hx => .inl (List.mem_filter.mp hx).1⟩
  | _ => cases hc

theorem Cmd.handle_chosen {subs : List Subscription} (h : c.handle ch s = .ok (s', r))
    (hrefines : s.registry.Refines subs) {x : Nat × GroupRef} (hx : x ∈ c.chosen r) :
    ∃ sub ∈ subs, sub.conn = x.1 ∧ sub.key.ns = x.2.ns ∧ sub.key.queue = x.2.queue ∧
      (sub.key.group = x.2.group ∨ isGlobPattern sub.key.group = true ∧
        matchGlob sub.key.group x.2.group = true) := by
  cases c with
  | registryNext g =>
    cases h
    obtain ⟨conn, hconn, rfl⟩ := Option.map_eq_some_iff.mp hx
    exact ((hrefines.holds.next_spec ch.ord g).2 conn hconn).1
  | _ => cases hx

theorem Cmd.publishLocked_ok {g : GroupRef} {msgID : Option Bytes} {payload : Bytes} {m : Message}
    {new : Bool} (hs : s.Named)
    (h : (Cmd.publishLocked g msgID payload).handle ch s = .ok (s', .ok m, new)) :
    m.ref = g ∧ m.payload = payload := by
  simp only [Cmd.handle] at h
  obtain ⟨q, q', hq, hlocked, -⟩ := Runtime.atQueue_ok h
  obtain ⟨⟨q₁, r₁⟩, hpub, hret⟩ := bind_ok.mp hlocked
  cases hret
  obtain ⟨hns, hname⟩ := Prod.mk.inj (hs _ q hq)
  obtain ⟨G, -, ⟨-, -, hr, -⟩ | ⟨hr, -⟩⟩ := Queue.publishWithID_ok hpub
  · cases hr
  · cases hr
    refine ⟨?_, rfl⟩
    rw [Message.ref, newMessageAt, hns, hname]

theorem Cmd.Sound.group_other {conn : Nat} {ns : Bytes} {f : ClientFrame} {pages : Nat}
    {K : Knowledge} (hc : c.Sound (.frame conn ns f pages) K) (hs : s.Named)
    (h : c.handle ch s = .ok (s', r)) {g : GroupRef} (hg : g.ns ≠ ns) : s'.group g = s.group g := by
  rcases handle_group hs h g with ⟨hsame, -⟩ | ⟨G, G', -, -, hchanges⟩
  · exact hsame
  have hpublish : ∀ msgID payload,
      (Cmd.publishLocked g msgID payload).Sound (.frame conn ns f pages) K → g.ns = ns := by
    intro msgID payload hsound
    cases msgID with
    | none => exact hsound.1
    | some id =>
      cases f with
      | publish queue group payload₀ => exact congrArg GroupRef.ns hsound.1
      | _ => exact hsound.elim
  refine absurd ?_ hg
  cases hchanges with
  | refused msgID payload => exact hpublish msgID payload hc
  | accepted msgID payload => exact hpublish msgID payload hc
  | dispatched | completed | failed | drained | returned | swept => exact hc

end Handle

namespace Tenancy

variable {t : Tenancy}

theorem recordMessage_grows (t : Tenancy) (task : Task) (m : Message) :
    t.Grows (t.recordMessage task m) := by
  unfold recordMessage
  split
  · exact ⟨fun _ _ h => h, fun _ h => h, List.subset_append_left _ _, fun _ h => h⟩
  · exact ⟨fun _ _ h => h, fun _ h => h, fun _ h => h, List.subset_append_left _ _⟩

def afterRun (t : Tenancy) (thread : Nat) (task : Task) (c : Cmd) (k : c.Answer → Program Unit)
    (s : Runtime) (r : c.Answer) : Tenancy :=
  { (c.published r).elim t (t.recordMessage task) with
    sys := ⟨s, t.sys.threads.set thread ⟨task, k r⟩⟩ }

theorem recordMessage_other {task : Task} (h : ∀ g payload, ¬ task.Publishes g payload)
    (m : Message) :
    t.recordMessage task m = { t with deadLettered := t.deadLettered ++ [(m.ref, m.id)] } := by
  cases task with
  | frame conn ns f pages =>
    cases f with
    | publish queue group payload => exact absurd ⟨rfl, rfl⟩ (h ⟨ns, queue, group⟩ payload)
    | _ => rfl
  | _ => rfl

section Run

variable [PathMatch] {thread : Nat} {ch : Choice} {task : Task} {c : Cmd}
  {k : c.Answer → Program Unit} {s : Runtime} {r : c.Answer} (ht : t.Isolated)
  (next : t.sys.threads[thread]? = some ⟨task, .call c k⟩)
  (handled : c.handle ch t.sys.state = .ok (s, r))

variable (t thread task k) in
include handled in
theorem grows_run : t.Grows (t.afterRun thread task c k s r) := by
  have hgrows : t.Grows ((c.published r).elim t (t.recordMessage task)) := by
    cases c.published r with
    | none => exact ⟨fun _ _ h => h, fun _ h => h, fun _ h => h, fun _ h => h⟩
    | some m => exact t.recordMessage_grows task m
  exact ⟨(Cmd.handle_sends handled).session, hgrows.subscribes, hgrows.accepted,
    hgrows.deadLettered⟩

omit [PathMatch] in
include ht next in
theorem sound_run : c.Sound task t.knowledge :=
  (ht.threads _ (List.mem_of_getElem? next) t.knowledge (fun _ h => h) fun _ _ h => h).1

include ht next handled in
theorem published_sourced : ∀ m ∈ c.published r, (t.afterRun thread task c k s r).Sourced m := by
  have hsound := sound_run ht next
  have hreceived := ht.received _ (List.mem_of_getElem? next)
  have hsession := (Cmd.handle_sends handled).session
  intro m hm
  cases c with
  | publishLocked g msgID payload =>
    obtain ⟨published, new⟩ := r
    cases published with
    | error e => cases hm
    | ok m₀ =>
      cases hm
      obtain ⟨rfl, rfl⟩ := Cmd.publishLocked_ok ht.placed.named handled
      cases msgID with
      | some id =>
        cases task with
        | frame conn ns f pages =>
          cases f with
          | publish queue group payload =>
            obtain ⟨href, hpayload⟩ := hsound
            have hplace : (queue, group) = (m.queueName, m.groupKey) := by
              rw [show m.queueName = queue from congrArg GroupRef.queue href,
                show m.groupKey = group from congrArg GroupRef.group href]
            refine ⟨conn, queue, group, List.mem_append_right _ ?_, ?_, .inl hplace⟩
            · rw [hpayload]
              exact List.mem_cons_self
            · rw [show m.ns = ns from congrArg GroupRef.ns href]
              exact hsession conn ns hreceived.1
          | _ => exact hsound.elim
        | _ => exact hsound.elim
      | none =>
        obtain ⟨-, hother, m', ⟨conn, queue, group, hmem, hns, -⟩, hns', hpayload⟩ := hsound
        have hrecord := t.recordMessage_other hother m
        refine ⟨conn, queue, group, ?_, ?_, .inr ?_⟩
        · change _ ∈ (t.recordMessage task m).accepted
          rw [hrecord, ← hpayload]
          exact hmem
        · rw [show m.ns = m'.ns from hns'.symm]
          exact hsession conn _ hns
        · change _ ∈ (t.recordMessage task m).deadLettered
          rw [hrecord]
          exact List.mem_append_right _ List.mem_cons_self
  | _ => cases hm

include ht next handled in
theorem messages_run :
    (∀ g G, s.group g = some G → G.Each fun x => (t.afterRun thread task c k s r).Sourced x.2) ∧
      ∀ x ∈ c.messages r, (t.afterRun thread task c k s r).Sourced x.2 := by
  have hgrows := grows_run t thread task k handled
  have hfound : ∀ {g G}, t.sys.state.Finds g c G →
      G.Each fun x => (t.afterRun thread task c k s r).Sourced x.2 := by
    intro g G hG
    cases hG with
    | old hG => exact (ht.messages g G hG).imp fun _ h => hgrows.sourced h
    | new _ _ made _ => exact .ofNewGroup made
  have hlasting := lasting_sourced (t.afterRun thread task c k s r)
  have hnew := published_sourced ht next handled
  refine ⟨?_, ?_⟩
  · intro g G hG
    rcases Cmd.handle_group ht.placed.named handled g with ⟨hsame, -⟩ | ⟨G₀, G', hG₀, hG', hchanges⟩
    · exact (ht.messages g G (hsame ▸ hG)).imp fun _ h => hgrows.sourced h
    · cases hG'.symm.trans hG
      exact (hchanges.lasting hlasting (hfound hG₀) hnew).1
  · intro x hx
    rcases Cmd.handle_group ht.placed.named handled x.1 with ⟨-, hnone⟩ | ⟨G₀, G', hG₀, -, hchanges⟩
    · exact absurd rfl (hnone x hx)
    · exact (hchanges.lasting hlasting (hfound hG₀) hnew).2 x hx

include ht next handled in
theorem channels_run :
    ∀ q ∈ s.dispatchChs, ∀ m ∈ q.buf, (t.afterRun thread task c k s r).Sourced m := by
  have hgrows := grows_run t thread task k handled
  have hsound := sound_run ht next
  by_cases hc : c.part = .channels
  case neg =>
    intro q hq m hm
    rw [(Cmd.handle_frame handled).dispatchChs hc] at hq
    exact hgrows.sourced (ht.channels q hq m hm)
  cases c with
  | enqueueDispatch msg =>
    obtain ⟨_, q₀, -, hq₀, ⟨-, rfl, -⟩ | ⟨-, rfl⟩⟩ := Cmd.handle_enqueueDispatch handled
    · intro q hq m hm
      exact hgrows.sourced (ht.channels q hq m hm)
    · intro q hq m hm
      rcases List.mem_or_eq_of_mem_set hq with hq | rfl
      · exact hgrows.sourced (ht.channels q hq m hm)
      · rcases List.mem_append.mp hm with hm | hm
        · exact hgrows.sourced (ht.channels q₀ (List.mem_of_getElem? hq₀) m hm)
        · cases List.mem_singleton.mp hm
          exact hgrows.sourced hsound
  | _ => cases hc

include ht next handled in
theorem frames_run :
    ∀ conn f, f ∈ s.outgoing conn → (t.afterRun thread task c k s r).Permitted conn f := by
  have hsound := sound_run ht next
  intro conn f hf
  refine (grows_run t thread task k handled).permitted ?_
  rcases (Cmd.handle_sends handled).outgoing conn f hf with hf | hf
  · exact ht.frames conn f hf
  · cases c with
    | writeMessage conn msg =>
      obtain ⟨rfl, attempts, rfl⟩ := hf
      exact permitted_message hsound.1 hsound.2
    | writeOrDrop conn frame | writeOrWait conn frame =>
      obtain ⟨rfl, rfl⟩ := hf
      cases f with
      | message => exact hsound.elim
      | _ => trivial
    | _ => exact hf.elim

include ht next handled in
theorem registry_run :
    ∃ subs, s.registry.Refines subs ∧ ∀ x ∈ subs, (t.afterRun thread task c k s r).Asked x := by
  have hgrows := grows_run t thread task k handled
  have hasked : ∀ {x}, t.Asked x → (t.afterRun thread task c k s r).Asked x :=
    fun h => ⟨hgrows.session _ _ h.1, hgrows.subscribes h.2⟩
  have hsound := sound_run ht next
  have hreceived := ht.received _ (List.mem_of_getElem? next)
  obtain ⟨subs, hrefines, hall⟩ := ht.registry
  obtain ⟨subs', hrefines', hadded⟩ := Cmd.handle_registry handled hrefines
  refine ⟨subs', hrefines', ?_⟩
  intro x hx
  rcases hadded x hx with hx | rfl
  · exact hasked (hall x hx)
  · cases task with
    | frame conn' ns f pages =>
      cases f with
      | subscribe queue group =>
        obtain ⟨hconn, hkey⟩ := hsound
        apply hasked
        rw [Asked, hconn, hkey]
        exact ⟨hreceived.1, hreceived.2 queue group rfl⟩
      | _ => exact hsound.elim
    | _ => exact hsound.elim

include ht handled in
theorem chosen_run : ∀ x ∈ c.chosen r, t.Entitled x.1 x.2 := by
  obtain ⟨subs, hrefines, hall⟩ := ht.registry
  intro x hx
  obtain ⟨sub, hsub, hconn, hns, hqueue, hgroup⟩ := Cmd.handle_chosen handled hrefines hx
  obtain ⟨hsession, hmem⟩ := hall sub hsub
  rw [hconn] at hsession hmem
  exact ⟨hns ▸ hsession, sub.key.group, hqueue ▸ hmem, hgroup⟩

omit [PathMatch] in
theorem Received.grows {t' : Tenancy} (hgrows : t.Grows t') {task : Task} (h : t.Received task) :
    t'.Received task := by
  cases task with
  | frame conn ns f pages =>
    exact ⟨hgrows.session _ _ h.1, fun queue group hf => hgrows.subscribes (h.2 queue group hf)⟩
  | _ => trivial

include ht next handled in
theorem isolated_run : (t.afterRun thread task c k s r).Isolated := by
  have hgrows := grows_run t thread task k handled
  obtain ⟨hmessages, hanswer⟩ := messages_run ht next handled
  refine ⟨?_, ht.placed.handle handled, hmessages, channels_run ht next handled,
    frames_run ht next handled, registry_run ht next handled, ?_, ?_⟩
  · intro key hkey
    have hid := Cmd.handle_identity handled key
    apply ht.slashless key
    have hsome := congrArg Option.isSome hid
    rw [Option.isSome_map, Option.isSome_map] at hsome
    exact hsome.symm.trans hkey
  · intro x hx
    rcases List.mem_or_eq_of_mem_set hx with hx | rfl
    · exact (ht.received x hx).grows hgrows
    · exact (ht.received _ (List.mem_of_getElem? next)).grows hgrows
  · intro x hx K hmessage hsubscriber
    have hold : ∀ x ∈ t.sys.threads, x.prog.Uses (Cmd.Learns K) (Cmd.Sound x.task K) := fun x hx =>
      ht.threads x hx K (fun m hm => hmessage m (hgrows.sourced hm)) fun conn g hg =>
        hsubscriber conn g (hgrows.entitled hg)
    rcases List.mem_or_eq_of_mem_set hx with hx | rfl
    · exact hold x hx
    · refine (hold _ (List.mem_of_getElem? next)).2 r
        ⟨Cmd.handle_possible ht.placed handled, ?_, ?_⟩
      · exact fun x hx => hmessage x.2 (hanswer x hx)
      · exact fun x hx => hsubscriber x.1 x.2 (hgrows.entitled (chosen_run ht handled x hx))

end Run

theorem Isolated.ofSame {t' : Tenancy} (ht : t.Isolated) (hgrows : t.Grows t')
    (hslashless : t'.sys.state.Slashless) (hplaced : t'.sys.state.Placed)
    (hgroup : ∀ g, t'.sys.state.group g = t.sys.state.group g)
    (hchannels : ∀ c ∈ t'.sys.state.dispatchChs, ∀ m ∈ c.buf, t.Sourced m)
    (hsends : t.sys.state.Sends t'.sys.state fun _ _ => False)
    (hregistry : t'.sys.state.registry = t.sys.state.registry)
    (hthreads : ∀ x ∈ t'.sys.threads, x ∈ t.sys.threads ∨ ∃ task : Task, x = task.start ∧
      t'.Received task ∧ ∀ K : Knowledge, (∀ m, t.Sourced m → K.message m) → task.Knows K) :
    t'.Isolated := by
  refine ⟨hslashless, hplaced, ?_, fun c hc m hm => hgrows.sourced (hchannels c hc m hm), ?_, ?_,
    ?_, ?_⟩
  · intro g G hG
    exact (ht.messages g G ((hgroup g).symm.trans hG)).imp fun _ h => hgrows.sourced h
  · intro conn f hf
    exact hgrows.permitted (ht.frames conn f ((hsends.outgoing conn f hf).resolve_right id))
  · obtain ⟨subs, hrefines, hall⟩ := ht.registry
    refine ⟨subs, hregistry ▸ hrefines, ?_⟩
    intro x hx
    exact ⟨hgrows.session _ _ (hall x hx).1, hgrows.subscribes (hall x hx).2⟩
  · intro x hx
    obtain hx | ⟨task, rfl, hreceived, -⟩ := hthreads x hx
    · exact (ht.received x hx).grows hgrows
    · exact hreceived
  · intro x hx K hmessage hsubscriber
    have hmessage' : ∀ m, t.Sourced m → K.message m := fun m hm => hmessage m (hgrows.sourced hm)
    obtain hx | ⟨task, rfl, -, hknows⟩ := hthreads x hx
    · exact ht.threads x hx K hmessage' fun conn g hg => hsubscriber conn g (hgrows.entitled hg)
    · exact task_sound task (hknows K hmessage')

section Step

variable [PathMatch] {t' : Tenancy} {l : Label}

theorem record_run {thread : Nat} {ch : Choice} {task : Task} {c : Cmd}
    {k : c.Answer → Program Unit} {s : Runtime} {r : c.Answer} (hs : t.sys.state.Slashless)
    (next : t.sys.threads[thread]? = some ⟨task, .call c k⟩)
    (handled : c.handle ch t.sys.state = .ok (s, r)) :
    t.record (.run thread ch) = (c.published r).elim t (t.recordMessage task) := by
  simp only [record, next, Cmd.handleByKey_eq hs, handled]
  cases c.published r <;> rfl

theorem step_ok (hs : t.sys.state.Slashless) (h : t.step l = .ok t') :
    ∃ sys', t' = { t.record l with sys := sys' } ∧
      (t.sys.Step l sys' ∨ ∃ conn f pages c, l = .receive conn f pages ∧
        t.sys.atReader conn = some c ∧ sys' = { t.sys with
          state.conns := t.sys.state.conns.set conn
            { c with unanswered := f.answers.elim c.unanswered c.unanswered.erase } }.spawn
              (.frame conn c.ns f pages)) := by
  obtain ⟨sys', hsys, hret⟩ := bind_ok.mp h
  cases hret
  exact ⟨sys', rfl, System.stepByKey_ok hs hsys⟩

omit [PathMatch] in
theorem Isolated.ofSends {sys' : System} (ht : t.Isolated)
    (hqueues : sys'.state.queues = t.sys.state.queues)
    (hchannels : ∀ c ∈ sys'.state.dispatchChs, ∀ m ∈ c.buf, t.Sourced m)
    (hsends : t.sys.state.Sends sys'.state fun _ _ => False)
    (hregistry : sys'.state.registry = t.sys.state.registry)
    (hthreads : ∀ x ∈ sys'.threads, x ∈ t.sys.threads ∨ ∃ task : Task, x = task.start ∧
      Received { t with sys := sys' } task ∧ ∀ K : Knowledge,
      (∀ m, t.Sourced m → K.message m) → task.Knows K) :
    Isolated { t with sys := sys' } := by
  refine ht.ofSame ⟨hsends.session, fun _ h => h, fun _ h => h, fun _ h => h⟩ ?_
    (ht.placed.ofSame hqueues) (Runtime.group_of_same hqueues) hchannels hsends hregistry hthreads
  intro k hk
  exact ht.slashless k (hqueues ▸ hk)

omit [PathMatch] in
theorem started {task : Task} (hreceived : t'.Received task)
    (hknows : ∀ K : Knowledge, (∀ m, t.Sourced m → K.message m) → task.Knows K) :
    ∀ x ∈ t.sys.threads ++ [task.start], x ∈ t.sys.threads ∨ ∃ task : Task, x = task.start ∧
      t'.Received task ∧ ∀ K : Knowledge, (∀ m, t.Sourced m → K.message m) → task.Knows K := by
  intro x hx
  rcases List.mem_append.mp hx with hx | hx
  · exact .inl hx
  · exact .inr ⟨task, List.mem_singleton.mp hx, hreceived, hknows⟩

theorem Isolated.receive {conn pages : Nat} {f : ClientFrame} {C : Conn} (ht : t.Isolated)
    (hreader : t.sys.atReader conn = some C) :
    Isolated { t.record (.receive conn f pages) with
      sys := { t.sys with
        state.conns := t.sys.state.conns.set conn
          { C with unanswered := f.answers.elim C.unanswered C.unanswered.erase } }.spawn
            (.frame conn C.ns f pages) } := by
  have hC := System.atReader_conn hreader
  have hsends : t.sys.state.Sends { t.sys.state with
      conns := t.sys.state.conns.set conn
        { C with unanswered := f.answers.elim C.unanswered C.unanswered.erase } }
          fun _ _ => False :=
    .set hC rfl rfl fun _ hf => .inl hf
  have hsame : (t.record (.receive conn f pages)).accepted = t.accepted ∧
      (t.record (.receive conn f pages)).deadLettered = t.deadLettered ∧
      t.subscribes ⊆ (t.record (.receive conn f pages)).subscribes ∧
      ∀ queue group, f = .subscribe queue group →
        (conn, queue, group) ∈ (t.record (.receive conn f pages)).subscribes := by
    cases f with
    | subscribe queue group =>
      refine ⟨rfl, rfl, List.subset_append_left _ _, ?_⟩
      rintro _ _ ⟨⟩
      exact List.mem_append_right _ List.mem_cons_self
    | _ =>
      refine ⟨rfl, rfl, fun _ h => h, ?_⟩
      rintro _ _ ⟨⟩
  obtain ⟨haccepted, hdead, hsubscribes, hrecorded⟩ := hsame
  refine ht.ofSame ⟨hsends.session, hsubscribes, haccepted ▸ fun _ h => h,
    hdead ▸ fun _ h => h⟩ ht.slashless
    (ht.placed.ofSame rfl) (Runtime.group_of_same rfl) ht.channels hsends rfl
    (started ⟨hsends.session conn C.ns ?_, hrecorded⟩ fun _ _ => trivial)
  rw [Runtime.session, hC]
  rfl

theorem Isolated.step (ht : t.Isolated) (hl : wellNamed l = true) (h : t.step l = .ok t') :
    t'.Isolated := by
  obtain ⟨sys', rfl, hstep | ⟨conn, f, pages, C, rfl, hreader, rfl⟩⟩ := step_ok ht.slashless h
  case inr => exact ht.receive hreader
  have hsends := hstep.sends
  cases hstep with
  | @declare ns name configs new =>
    obtain ⟨hns, hname⟩ := Bool.and_eq_true_iff.mp hl
    refine ht.ofSame ⟨fun _ _ h => h, fun _ h => h, fun _ h => h, fun _ h => h⟩ ?_
      (ht.placed.declare new rfl)
      (Runtime.group_of_declare new rfl) ht.channels (.ofSame rfl) rfl fun _ hx => .inl hx
    intro k hk
    by_cases heq : k = (ns, name)
    · subst heq
      exact ⟨not_slash_of_keyPattern (by decide) hns, not_slash_of_keyPattern (by decide) hname⟩
    · refine ht.slashless k ?_
      rwa [show t.sys.state.queues.lookup k = _ from (AList.lookup_insert_ne heq).symm]
  | receive reader => exact ht.receive reader
  | @deliver channel depth msg buf first =>
    have hmem := List.mem_of_getElem? first
    refine ht.ofSends rfl ?_ (.ofSame rfl) rfl
      (started trivial fun K hK => hK msg (ht.channels _ hmem msg List.mem_cons_self))
    intro c hc m hm
    rcases List.mem_or_eq_of_mem_set hc with hc | rfl
    · exact ht.channels c hc m hm
    · exact ht.channels _ hmem m (List.mem_cons_of_mem _ hm)
  | connect | flush =>
    exact ht.ofSends rfl ht.channels (hsends fun _ _ h => nomatch h) rfl fun _ hx => .inl hx
  | disconnect | process | fire | activate | sweep =>
    exact ht.ofSends rfl ht.channels (hsends fun _ _ h => nomatch h) rfl
      (started trivial fun _ _ => trivial)
  | run next handled =>
    rw [record_run ht.slashless next handled]
    exact isolated_run ht next handled

def frameOf (t : Tenancy) : Label → Option Nat
  | .receive conn _ _ => some conn
  | .run thread _ =>
    match t.sys.threads[thread]? with
    | some ⟨.frame conn _ _ _, _⟩ => some conn
    | _ => none
  | _ => none

theorem Isolated.group_other {conn : Nat} {ns : Bytes} {g : GroupRef} (ht : t.Isolated)
    (h : t.step l = .ok t') (hframe : t.frameOf l = some conn)
    (hns : t.sys.state.session conn = some ns) (hg : g.ns ≠ ns) :
    t'.sys.state.group g = t.sys.state.group g := by
  obtain ⟨sys', rfl, hstep | ⟨conn, f, pages, C, rfl, hreader, rfl⟩⟩ := step_ok ht.slashless h
  case inr => rfl
  cases hstep with
  | receive => rfl
  | @run thread ch task c k s r next handled =>
    simp only [frameOf, next] at hframe
    cases task with
    | frame conn' ns' f pages =>
      cases hframe
      cases (ht.received _ (List.mem_of_getElem? next)).1.symm.trans hns
      exact (sound_run ht next).group_other ht.placed.named handled hg
    | _ => cases hframe
  | _ => cases hframe

/-- In every run of a broker whose queues have registered names, only permitted frames are written,
and the frames of a connection change no group of another namespace. -/
theorem tenants_apart {cfg : RuntimeConfig} {depths : List Nat}
    (hreach : Reachable Tenancy.step (fun _ l => wellNamed l = true) (start cfg depths) t) :
    (∀ conn f, f ∈ t.sys.state.outgoing conn → t.Permitted conn f) ∧
      ∀ l t', t.step l = .ok t' → ∀ conn ns g, t.frameOf l = some conn →
        t.sys.state.session conn = some ns →
        g.ns ≠ ns → t'.sys.state.group g = t.sys.state.group g := by
  have ht : t.Isolated :=
    hreach.invariant (isolated_start cfg depths) fun _ _ _ ht hl h => ht.step hl h
  exact ⟨ht.frames, fun _ _ h _ _ _ hframe hns hg => ht.group_other h hframe hns hg⟩

end Step

end Tenancy

/-- A client of one namespace receives a message; one of another namespace sends a PUBLISH frame,
with a slash in the name of the queue. -/
def tenantLabels : List Label :=
  receivedLabels ++ [.connect (str "m"), .receive 1 (.publish (str "q/") (str "g") (str "x")) 0]

theorem tenants_apart_sample :
    ∃ t t', Reachable (@Tenancy.step literalMatch) (fun _ l => Tenancy.wellNamed l = true)
      (.start ⟨1, 0, 0⟩ [1]) t ∧
      .message (str "m1") (str "q") (str "g") (str "p") 1 ∈ t.sys.state.outgoing 0 ∧
      t.Permitted 0 (.message (str "m1") (str "q") (str "g") (str "p") 1) ∧
      @Tenancy.step literalMatch t (.run 3 sampleChoice) = .ok t' ∧
      t'.sys.state.group sampleGroup = t.sys.state.group sampleGroup := by
  have htrace :
      (run (checked (@Tenancy.step literalMatch) (fun _ l => Tenancy.wellNamed l) .blocked)
        (.start ⟨1, 0, 0⟩ [1]) tenantLabels).toOption.any (fun t =>
        t.sys.state.outgoing 0 =
          [.publishOK (str "m1"), .message (str "m1") (str "q") (str "g") (str "p") 1] &&
          t.frameOf (.run 3 sampleChoice) = some 1 && t.sys.state.session 1 = some (str "m") &&
            (@Tenancy.step literalMatch t (.run 3 sampleChoice)).toOption.any fun _ => true) =
              true := by
    decide +kernel
  obtain ⟨t, hreach, hend⟩ := Reachable.ofTrace (fun _ _ h => h) tenantLabels _ htrace
  simp only [Bool.and_eq_true, decide_eq_true_eq] at hend
  obtain ⟨⟨⟨hout, hframe⟩, hsession⟩, hstep⟩ := hend
  obtain ⟨t', hstep, -⟩ := any_toOption.mp hstep
  obtain ⟨hframes, hother⟩ := @Tenancy.tenants_apart t literalMatch _ _ hreach
  have hmem : .message (str "m1") (str "q") (str "g") (str "p") 1 ∈ t.sys.state.outgoing 0 := by
    rw [hout]
    exact List.mem_cons_of_mem _ List.mem_cons_self
  exact ⟨t, t', hreach, hmem, hframes 0 _ hmem, hstep,
    hother _ t' hstep 1 _ sampleGroup hframe hsession (by decide)⟩

end Octar
