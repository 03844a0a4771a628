import Octar.Broker.Placement

namespace Octar

open Go Threads

@[simp] theorem command_bind {α : Type} (c : Cmd) (f : c.Answer → Program α) :
    (command c >>= f) = .call c f := rfl

/-- The commands that need no others around them.  Those that lease or free messages or subscribe
are among them if `leases`, those that count what a connection or the broker has in flight if
`credits`. -/
def Cmd.Plain (leases credits : Bool) : Cmd → Prop
  | .publishLocked .. | .indexKey _ | .trySchedule _ | .unschedule _ | .sendActive _
    | .setWake .. | .clearWake ..
  | .addTimer .. | .inflight _ => False
  | .tryDispatchOne _ | .completeAndNext .. | .failAndNext .. | .drainGroup _ | .sweepShard ..
    | .registryAdd .. =>
    leases = true
  | .tryAcquire | .release | .acquireCredit _ | .releaseCredit _ | .writeMessage .. =>
    credits = true
  | _ => True

theorem Cmd.Plain.part_ne {leases credits : Bool} {c : Cmd} (h : c.Plain leases credits) :
    c.part ≠ .schedule ∧ c.part ≠ .wakes := by
  cases c <;> first | exact h.elim | exact ⟨fun h => (nomatch h), fun h => (nomatch h)⟩

def closing (conn n : Nat) : Program Unit := do
  releaseTimes n
  command (.registryRemove conn)
  command (.close conn)

theorem teardown_eq (conn : Nat) :
    teardown conn = .call (.inflight conn) fun leaked => closing conn leaked.toNat := rfl

/-- Programs of plain commands and of the three that belong together: `Activate`, `scheduleWake` and
`PublishWithID`. -/
inductive Built (leases credits : Bool) : {α : Type} → Program α → Prop
  | ret {α : Type} (a : α) : Built leases credits (.ret a)
  | call {α : Type} {c : Cmd} {k : c.Answer → Program α} (plain : c.Plain leases credits)
    (rest : ∀ r, c.Possible r → Built leases credits (k r)) : Built leases credits (.call c k)
  | bind {α β : Type} {p : Program α} {f : α → Program β} (first : Built leases credits p)
    (rest : ∀ a, Built leases credits (f a)) : Built leases credits (p >>= f)
  | activate (g : GroupRef) : Built leases credits (activate g)
  | scheduleWake (g : GroupRef) (wakeNs : Int) : Built leases credits (scheduleWake g wakeNs)
  | publishAs (g : GroupRef) (msgID : Option Bytes) (payload : Bytes) (named : g.group ≠ []) :
    Built leases credits (publishAs g msgID payload)

namespace Built

variable {leases credits : Bool}

theorem command {c : Cmd} (plain : c.Plain leases credits) :
    Built leases credits (Octar.command c) :=
  .call plain fun r _ => .ret r

theorem seq {α : Type} {c : Cmd} {f : c.Answer → Program α} (plain : c.Plain leases credits)
    (rest : ∀ r, c.Possible r → Built leases credits (f r)) :
    Built leases credits (Octar.command c >>= f) :=
  .call plain rest

theorem ite {α : Type} {b : Prop} [Decidable b] {p q : Program α} (hp : Built leases credits p)
    (hq : Built leases credits q) : Built leases credits (if b then p else q) := by
  split
  · exact hp
  · exact hq

theorem returnAll (g : GroupRef) (msgs : List Message) :
    Built leases credits (returnAll g msgs) := by
  induction msgs with
  | nil => exact .ret ()
  | cons msg msgs ih => exact .seq trivial fun _ _ => ih

theorem offerAll (g : GroupRef) (msgs : List Message) : Built leases credits (offerAll g msgs) := by
  induction msgs with
  | nil => exact .ret true
  | cons msg msgs ih =>
    refine .seq trivial fun _ _ => ?_
    exact .ite ih (.bind (.returnAll g _) fun _ => .ret false)

theorem dispatchOne (g : GroupRef) : Built true credits (dispatchOne g) := by
  refine .seq rfl fun next _ => ?_
  cases next with
  | none => exact .ret ()
  | some next => exact .seq trivial fun _ _ => .ite (.command trivial) (.ret ())

theorem dispatchPublished (conn : Nat) (g : GroupRef) (msg : Message) :
    Built true credits (dispatchPublished conn g msg) := by
  refine .seq trivial fun _ _ => .bind (.dispatchOne g) fun _ => ?_
  exact .seq trivial fun _ _ => .ite (.activate g) (.ret ())

theorem onPublish (conn : Nat) {g : GroupRef} (payload : Bytes) (hg : g.group ≠ []) :
    Built true credits (onPublish conn g payload) := by
  refine .seq trivial fun _ _ => .ite (.seq trivial fun _ _ => .ret ()) ?_
  refine .seq trivial fun _ _ => .ite (.seq trivial fun _ _ => .ret ()) ?_
  refine .seq trivial fun _ _ => .seq trivial fun _ _ => .ite ?_ ?_
  · exact .seq trivial fun _ _ => .seq trivial fun _ _ => .ret ()
  · refine .bind (.publishAs g _ payload hg) fun published => ?_
    cases published with
    | error e => exact .seq trivial fun _ _ => .command trivial
    | ok msg => exact .dispatchPublished conn g msg

theorem activateAll (ns name : Bytes) (keys : List Bytes) :
    Built leases credits (activateAll ns name keys) := by
  induction keys with
  | nil => exact .ret ()
  | cons key keys ih => exact .bind (.activate _) fun _ => ih

theorem activatePages (ns name : Bytes) (pages : Nat) (cursor : Bytes) :
    Built leases credits (activatePages ns name pages cursor) := by
  induction pages generalizing cursor with
  | zero => exact .seq trivial fun never _ => never.elim
  | succ pages ih =>
    refine .seq trivial fun _ _ => .bind (.activateAll ns name _) fun _ => ?_
    exact .ite (.ret ()) (ih _)

theorem onSubscribe (conn : Nat) (g : GroupRef) (pages : Nat) :
    Built true credits (onSubscribe conn g pages) := by
  refine .seq rfl fun _ _ => .seq trivial fun _ _ => .ite (.ret ()) ?_
  exact .ite (.activatePages _ _ _ _) (.activate g)

theorem dispatchNext (next : Option Message) : Built leases credits (dispatchNext next) := by
  cases next with
  | none => exact .ret ()
  | some next => exact .seq trivial fun _ _ => .ret ()

theorem acked (g : GroupRef) (msgID : Bytes) :
    Built true credits (do
      let found : Bool ← Octar.command (.getQueue g.ns g.queue)
      if !found then return
      let logged : Bool ← Octar.command (.append (walEvent .ack g msgID []))
      if !logged then return
      Octar.command .decGlobalMsgs
      let next : Option Message ← Octar.command (.completeAndNext g msgID)
      Octar.dispatchNext next
      Octar.activate g) := by
  refine .seq trivial fun _ _ => .ite (.ret ()) (.seq trivial fun _ _ => .ite (.ret ()) ?_)
  refine .seq trivial fun _ _ => .seq rfl fun next _ => ?_
  exact .bind (.dispatchNext next) fun _ => .activate g

theorem onACK (conn : Nat) (g : GroupRef) (msgID : Bytes) : Built true true (onACK conn g msgID) :=
  .seq rfl fun _ _ => .seq rfl fun _ _ => .acked g msgID

theorem deadLetter (ns : Bytes) {dlq : Option (Bytes × Message)}
    (hdlq : ∀ t ∈ dlq, t.2.groupKey ≠ []) :
    Built leases credits (deadLetter ns dlq) := by
  cases dlq with
  | none => exact .ret ()
  | some t =>
    refine .ite (.ret ()) (.seq trivial fun _ _ => .ite (.ret ()) ?_)
    refine .bind (.publishAs _ none _ (hdlq t rfl)) fun published => ?_
    cases published with
    | error e => exact .ret ()
    | ok msg => exact .seq trivial fun _ _ => .ite (.activate _) (.ret ())

theorem failed {g : GroupRef} (msgID reason : Bytes) (hg : g.group ≠ [])
    {failed : Option (Bytes × Message) × Option Message}
    (h : (Cmd.failAndNext g msgID reason).Possible failed) :
    Built leases credits (do
      if failed.1.isSome then Octar.command .decGlobalMsgs
      Octar.dispatchNext failed.2
      Octar.activate g
      Octar.deadLetter g.ns failed.1) := by
  have hdlq : ∀ t ∈ failed.1, t.2.groupKey ≠ [] := by
    intro t ht
    have hmem : (g, t.2) ∈ (Cmd.failAndNext g msgID reason).messages failed :=
      List.mem_append_right _ (List.mem_map.mpr ⟨t, Option.mem_toList.mpr ht, rfl⟩)
    have hkey : t.2.groupKey = g.group := congrArg GroupRef.group (h _ hmem)
    rw [hkey]
    exact hg
  have hrest : Built leases credits
      (do Octar.dispatchNext failed.2; Octar.activate g; Octar.deadLetter g.ns failed.1) :=
    .bind (.dispatchNext _) fun _ => .bind (.activate g) fun _ => .deadLetter g.ns hdlq
  exact .ite (.seq trivial fun _ _ => hrest) hrest

theorem nacked {g : GroupRef} (msgID reason : Bytes) (hg : g.group ≠ []) :
    Built true credits (do
      let found : Bool ← Octar.command (.getQueue g.ns g.queue)
      if !found then return
      let logged : Bool ← Octar.command (.append (walEvent .nack g msgID []))
      if !logged then return
      let failed : Option (Bytes × Message) × Option Message ← Octar.command
          (.failAndNext g msgID reason)
      if failed.1.isSome then Octar.command .decGlobalMsgs
      Octar.dispatchNext failed.2
      Octar.activate g
      Octar.deadLetter g.ns failed.1) := by
  refine .seq trivial fun _ _ => .ite (.ret ()) (.seq trivial fun _ _ => .ite (.ret ()) ?_)
  exact .seq rfl fun _ hfailed => .failed msgID reason hg hfailed

theorem onNACK (conn : Nat) {g : GroupRef} (msgID reason : Bytes) (hg : g.group ≠ []) :
    Built true true (onNACK conn g msgID reason) :=
  .seq rfl fun _ _ => .seq rfl fun _ _ => .nacked msgID reason hg

theorem handBack (msg : Message) : Built leases credits (handBack msg) :=
  .seq trivial fun _ _ => .ite (.command trivial) (.ret ())

theorem dispatch (msg : Message) : Built leases true (dispatch msg) := by
  refine .seq trivial fun conn _ => ?_
  cases conn with
  | none => exact .handBack msg
  | some conn =>
    have hback : Built leases true (do Octar.handBack msg; pure ()) :=
      .bind (.handBack msg) fun _ => .ret ()
    refine .seq rfl fun _ _ => .ite (.seq trivial fun _ _ => hback) ?_
    refine .seq rfl fun _ _ => .ite (.seq rfl fun _ _ => .seq trivial fun _ _ => hback) ?_
    refine .seq rfl fun _ _ => .ite (.seq rfl fun _ _ => .seq rfl fun _ _ => hback) ?_
    exact .seq trivial fun _ _ => .ret ()

theorem expireAll (expired : List ExpiredLease) : Built leases credits (expireAll expired) := by
  induction expired with
  | nil => exact .ret ()
  | cons lease expired ih =>
    refine .seq trivial fun _ _ => .seq trivial fun _ _ => ?_
    exact .ite (.bind (.activate _) fun _ => ih) ih

theorem sweepShards (ns name : Bytes) (shards : List Nat) :
    Built true credits (sweepShards ns name shards) := by
  induction shards with
  | nil => exact .ret []
  | cons shard shards ih => exact .seq rfl fun _ _ => .bind ih fun _ => .ret _

theorem sweepAll (queues : List (Bytes × Bytes)) : Built true credits (sweepAll queues) := by
  induction queues with
  | nil => exact .ret ()
  | cons queue queues ih =>
    exact .bind (.sweepShards _ _ _) fun expired => .bind (.expireAll expired) fun _ => ih

theorem releaseTimes (n : Nat) : Built leases true (releaseTimes n) := by
  induction n with
  | zero => exact .ret ()
  | succ n ih => exact .seq rfl fun _ _ => ih

theorem closing (conn n : Nat) : Built leases true (closing conn n) :=
  .bind (.releaseTimes n) fun _ => .seq trivial fun _ _ => .command trivial

theorem drainActivated (g : GroupRef) : Built true credits (drainActivated g) := by
  refine .seq rfl fun r _ => .bind (.offerAll g _) fun _ => .ite ?_ (.ret ())
  exact .ite (.scheduleWake g _) (.ite (.activate g) (.ret ()))

end Built

structure Parts (leases credits : Bool) (E : Program Unit → Prop)
    (Q : (c : Cmd) → (c.Answer → Program Unit) → Prop) : Prop where
  ret : E (.ret ())
  plain : ∀ c, c.Plain leases credits → Prog.Ordinary Cmd.Possible E Q c
  activate : ∀ g, (activate g).Keeps Cmd.Possible E Q
  scheduleWake : ∀ g wakeNs, (scheduleWake g wakeNs).Keeps Cmd.Possible E Q
  publishAs : ∀ g msgID payload, g.group ≠ [] → (publishAs g msgID payload).Keeps Cmd.Possible E Q

section Keeps

variable {E : Program Unit → Prop} {Q : (c : Cmd) → (c.Answer → Program Unit) → Prop}

theorem activate_keeps (g : GroupRef)
    (h : ∀ c, c.part = .nothing ∨ c.part = .schedule → Prog.Ordinary Cmd.Possible E Q c) :
    (activate g).Keeps Cmd.Possible E Q := by
  refine .ite (.ret ()) (.call (h _ (.inl rfl)) fun _ _ => .ite (.ret ()) ?_)
  refine .call (h _ (.inr rfl)) fun _ _ =>
    .ite (.call (h _ (.inr rfl)) fun _ _ => .ite ?_ (.ret ())) (.ret ())
  exact .call (h _ (.inr rfl)) fun _ _ => .ret ()

theorem scheduleWake_keeps (g : GroupRef) (wakeNs : Int)
    (h : ∀ c, c.part = .nothing ∨ c.part = .wakes → Prog.Ordinary Cmd.Possible E Q c) :
    (scheduleWake g wakeNs).Keeps Cmd.Possible E Q := by
  refine .call (h _ (.inl rfl)) fun _ _ =>
    .ite (.ret ()) (.call (h _ (.inr rfl)) fun _ _ => .ite ?_ (.ret ()))
  exact .call (h _ (.inr rfl)) fun _ _ => .ret ()

theorem publishAs_keeps (g : GroupRef) (msgID : Option Bytes) (payload : Bytes)
    (hpublish : Prog.Ordinary Cmd.Possible E Q (.publishLocked g msgID payload))
    (hindex : Prog.Ordinary Cmd.Possible E Q (.indexKey g)) :
    (publishAs g msgID payload).Keeps Cmd.Possible E Q := by
  refine .call hpublish fun r _ => ?_
  obtain ⟨published, new⟩ := r
  cases published with
  | error e => exact .ret _
  | ok msg => exact .ite (.call hindex fun _ _ => .ret _) (.ret _)

end Keeps

namespace Parts

variable {leases credits : Bool} {E : Program Unit → Prop}
  {Q : (c : Cmd) → (c.Answer → Program Unit) → Prop}

theorem keeps (h : Parts leases credits E Q) {α : Type} {p : Program α}
    (hp : Built leases credits p) :
    p.Keeps Cmd.Possible E Q := by
  induction hp with
  | ret a => exact .ret a
  | call plain rest ih => exact .call (h.plain _ plain) ih
  | bind first rest ih₁ ih₂ => exact .bind ih₁ ih₂
  | activate g => exact h.activate g
  | scheduleWake g wakeNs => exact h.scheduleWake g wakeNs
  | publishAs g msgID payload named => exact h.publishAs g msgID payload named

theorem calm (h : Parts leases credits E Q) {p : Program Unit} (hp : Built leases credits p) :
    p.Calm Cmd.Possible E Q := (h.keeps hp).calm h.ret

end Parts

def Task.Proper : Task → Prop
  | .frame _ _ f _ => f.valid = true
  | _ => True

theorem isValidIdent_ne_nil {s : Bytes} (h : isValidIdent s = true) : s ≠ [] := by
  rintro rfl
  cases h

theorem Task.built (t : Task) (h : t.Proper) :
    Built true true t.program ∨ (∃ g, t = .process g) ∨ (∃ g wakeNs, t = .timer g wakeNs) ∨
      ∃ conn, t = .teardown conn := by
  cases t with
  | frame conn ns f pages =>
    refine .inl ?_
    cases f with
    | publish queue group payload =>
      exact .onPublish conn payload (isValidIdent_ne_nil (Bool.and_eq_true_iff.mp h).2)
    | subscribe queue group => exact .onSubscribe conn _ pages
    | ack msgID queue group => exact .onACK conn _ msgID
    | nack msgID queue group reason =>
      exact .onNACK conn msgID reason (isValidIdent_ne_nil (Bool.and_eq_true_iff.mp h).2)
    | heartbeat => exact .command trivial
  | teardown conn => exact .inr (.inr (.inr ⟨conn, rfl⟩))
  | dispatch msg => exact .inl (.dispatch msg)
  | process g => exact .inr (.inl ⟨g, rfl⟩)
  | timer g wakeNs => exact .inr (.inr (.inl ⟨g, wakeNs, rfl⟩))
  | activate g => exact .inl (.activate g)
  | sweep => exact .inl (.seq trivial fun queues _ => .sweepAll queues)

theorem all_task {E : Program Unit → Prop} {Q : (c : Cmd) → (c.Answer → Program Unit) → Prop}
    (h : Parts true true E Q)
    (hprocess : ∀ g, E (drainActivated g) → Q (.unschedule g) fun _ => drainActivated g)
    (htimer : ∀ g wakeNs, E (activate g) → Q (.clearWake g wakeNs) fun _ => activate g)
    (hteardown : ∀ conn, (∀ n, E (closing conn n)) → Q (.inflight conn) fun leaked =>
      closing conn leaked.toNat) (t : Task) (ht : t.Proper) : t.program.All Cmd.Possible Q := by
  obtain hbuilt | ⟨g, rfl⟩ | ⟨g, wakeNs, rfl⟩ | ⟨conn, rfl⟩ := t.built ht
  · exact (h.calm hbuilt).2
  · obtain ⟨hE, hall⟩ := h.calm (.drainActivated g)
    exact ⟨hprocess g hE, fun _ _ => hall⟩
  · obtain ⟨hE, hall⟩ := h.calm (.activate g)
    exact ⟨htimer g wakeNs hE, fun _ _ => hall⟩
  · have hcalm : ∀ n, (closing conn n).Calm Cmd.Possible E Q := fun n => h.calm (.closing conn n)
    exact ⟨hteardown conn fun n => (hcalm n).1, fun leaked _ => (hcalm leaked.toNat).2⟩

def Cmd.credits : Cmd → Bool
  | .tryAcquire | .release | .acquireCredit _ | .releaseCredit _ | .inflight _ | .writeMessage .. =>
    true
  | _ => false

section Credits

variable {E : Program Unit → Prop} {Q : (c : Cmd) → (c.Answer → Program Unit) → Prop}
  (hret : E (.ret ())) (hordinary : ∀ c, c.credits = false → Prog.Ordinary Cmd.Possible E Q c)

include hret hordinary

theorem parts_of_ordinary : Parts true false E Q where
  ret := hret
  plain c hc := by
    refine hordinary c ?_
    cases c <;> first | rfl | cases hc
  activate g := by
    refine activate_keeps g fun c hc => hordinary c ?_
    rcases hc with hc | hc <;> cases c <;> first | rfl | cases hc
  scheduleWake g wakeNs := by
    refine scheduleWake_keeps g wakeNs fun c hc => hordinary c ?_
    rcases hc with hc | hc <;> cases c <;> first | rfl | cases hc
  publishAs g msgID payload _ := publishAs_keeps g msgID payload (hordinary _ rfl) (hordinary _ rfl)

theorem all_task_of_credits
    (hanswer : ∀ conn (p : Program Unit), p.Calm Cmd.Possible E Q →
      (do command (.releaseCredit conn); command .release; p : Program Unit).All Cmd.Possible Q)
    (hdispatch : ∀ msg, (dispatch msg).All Cmd.Possible Q)
    (hteardown : ∀ conn, (teardown conn).All Cmd.Possible Q) (t : Task) (ht : t.Proper) :
    t.program.All Cmd.Possible Q := by
  have hparts := parts_of_ordinary hret hordinary
  have hcalm : ∀ {p : Program Unit}, Built true false p → p.Calm Cmd.Possible E Q := hparts.calm
  have hfirst : ∀ {c : Cmd} {p : Program Unit}, c.credits = false → Built true false p →
      (Prog.call c fun _ => p).All Cmd.Possible Q := by
    intro c p hc hp
    exact ⟨(hordinary c hc _ fun _ _ => (hcalm hp).1).2, fun _ _ => (hcalm hp).2⟩
  cases t with
  | frame conn ns f pages =>
    cases f with
    | publish queue group payload =>
      exact (hcalm (.onPublish conn payload (isValidIdent_ne_nil (Bool.and_eq_true_iff.mp ht).2))).2
    | subscribe queue group => exact (hcalm (.onSubscribe conn _ pages)).2
    | ack msgID queue group => exact hanswer conn _ (hcalm (.acked _ msgID))
    | nack msgID queue group reason =>
      exact hanswer conn _
        (hcalm (.nacked msgID reason (isValidIdent_ne_nil (Bool.and_eq_true_iff.mp ht).2)))
    | heartbeat => exact (hcalm (.command (c := .writeOrWait conn .heartbeat) trivial)).2
  | teardown conn => exact hteardown conn
  | dispatch msg => exact hdispatch msg
  | process g => exact hfirst rfl (.drainActivated g)
  | timer g wakeNs => exact hfirst rfl (.activate g)
  | activate g => exact (hcalm (.activate g)).2
  | sweep => exact (hcalm (p := sweepLeases) (.seq trivial fun queues _ => .sweepAll queues)).2

end Credits

def Task.handsOn : Task → Bool
  | .frame _ _ (.ack ..) _ | .frame _ _ (.nack ..) _ => true
  | _ => false

def Cmd.Idle : Cmd → Prop
  | .tryDispatchOne _ | .completeAndNext .. | .failAndNext .. | .drainGroup _ | .enqueueDispatch _
    | .returnToPending ..
  | .writeMessage .. => False
  | _ => True

def handOn (g : GroupRef) (msgID : Bytes) : Program Unit := do
  let next : Option Message ← command (.completeAndNext g msgID)
  dispatchNext next

def handOnFailed (g : GroupRef) (msgID reason : Bytes) : Program (Option (Bytes × Message)) := do
  let failed : Option (Bytes × Message) × Option Message ← command (.failAndNext g msgID reason)
  if failed.1.isSome then command .decGlobalMsgs
  dispatchNext failed.2
  return failed.1

def offerDrained (g : GroupRef) : Program (DrainResult × Bool) := do
  let r : DrainResult ← command (.drainGroup g)
  let delivered ← offerAll g (r.ready.getD [])
  return (r, delivered)

theorem onACK_eq (conn : Nat) (g : GroupRef) (msgID : Bytes) :
    onACK conn g msgID = (do
      command (.releaseCredit conn)
      command .release
      let found : Bool ← command (.getQueue g.ns g.queue)
      if !found then return
      let logged : Bool ← command (.append (walEvent .ack g msgID []))
      if !logged then return
      command .decGlobalMsgs
      handOn g msgID
      activate g) := by
  simp only [onACK, handOn, Prog.bind_assoc]

theorem onNACK_eq (conn : Nat) (g : GroupRef) (msgID reason : Bytes) :
    onNACK conn g msgID reason = (do
      command (.releaseCredit conn)
      command .release
      let found : Bool ← command (.getQueue g.ns g.queue)
      if !found then return
      let logged : Bool ← command (.append (walEvent .nack g msgID []))
      if !logged then return
      let dlq ← handOnFailed g msgID reason
      activate g
      deadLetter g.ns dlq) := by
  simp only [onNACK, handOnFailed, Prog.bind_assoc, Prog.ite_bind, Prog.pure_eq_ret, Prog.ret_bind]

theorem drainActivated_eq (g : GroupRef) :
    drainActivated g = (do
      let (r, delivered) ← offerDrained g
      if delivered then
        if r.hasWake then scheduleWake g r.wakeAt
        else if r.stillPending then activate g) := by
  simp only [drainActivated, offerDrained, Prog.bind_assoc, Prog.pure_eq_ret, Prog.ret_bind]

section Leases

variable {E : Program Unit → Prop} {Q : (c : Cmd) → (c.Answer → Program Unit) → Prop}
  (hidle : ∀ c, c.Idle → Prog.Ordinary Cmd.Possible E Q c)

include hidle

theorem seq_idle {α : Type} {c : Cmd} {f : c.Answer → Program α} (hc : c.Idle)
    (hf : ∀ r, c.Possible r → (f r).Keeps Cmd.Possible E Q) :
    (command c >>= f).Keeps Cmd.Possible E Q :=
  .call (hidle c hc) hf

theorem command_idle {c : Cmd} (hc : c.Idle) : (command c).Keeps Cmd.Possible E Q :=
  .call (hidle c hc) fun r _ => .ret r

theorem activate_idle (g : GroupRef) : (activate g).Keeps Cmd.Possible E Q := by
  refine activate_keeps g fun c hc => hidle c ?_
  rcases hc with hc | hc <;> cases c <;> first | exact trivial | cases hc

theorem scheduleWake_idle (g : GroupRef) (wakeNs : Int) :
    (scheduleWake g wakeNs).Keeps Cmd.Possible E Q := by
  refine scheduleWake_keeps g wakeNs fun c hc => hidle c ?_
  rcases hc with hc | hc <;> cases c <;> first | exact trivial | cases hc

theorem publishAs_idle (g : GroupRef) (msgID : Option Bytes) (payload : Bytes) :
    (publishAs g msgID payload).Keeps Cmd.Possible E Q :=
  publishAs_keeps g msgID payload (hidle _ trivial) (hidle _ trivial)

theorem activatePages_idle (ns name : Bytes) (pages : Nat) (cursor : Bytes) :
    (activatePages ns name pages cursor).Keeps Cmd.Possible E Q := by
  have hall : ∀ keys, (activateAll ns name keys).Keeps Cmd.Possible E Q := by
    intro keys
    induction keys with
    | nil => exact .ret ()
    | cons key keys ih => exact .bind (activate_idle hidle _) fun _ => ih
  induction pages generalizing cursor with
  | zero => exact seq_idle hidle (c := .readOn) trivial fun never _ => never.elim
  | succ pages ih =>
    exact seq_idle hidle trivial fun page _ => .bind (hall page.1) fun _ =>
      .ite (.ret ()) (ih page.2)

theorem onPublish_idle (hone : ∀ g, (dispatchOne g).Keeps Cmd.Possible E Q) (conn : Nat)
    (g : GroupRef) (payload : Bytes) : (onPublish conn g payload).Keeps Cmd.Possible E Q := by
  refine seq_idle hidle trivial fun _ _ => .ite (command_idle hidle trivial) ?_
  refine seq_idle hidle trivial fun _ _ => .ite (command_idle hidle trivial) ?_
  refine seq_idle hidle trivial fun _ _ => seq_idle hidle trivial fun _ _ => .ite ?_ ?_
  · exact seq_idle hidle trivial fun _ _ => command_idle hidle trivial
  · refine .bind (publishAs_idle hidle g _ payload) fun published => ?_
    cases published with
    | error e => exact seq_idle hidle trivial fun _ _ => command_idle hidle trivial
    | ok msg =>
      refine seq_idle hidle trivial fun _ _ => .bind (hone g) fun _ => ?_
      exact seq_idle hidle trivial fun _ _ => .ite (activate_idle hidle g) (.ret ())

theorem onSubscribe_idle (conn : Nat) (g : GroupRef) (pages : Nat) :
    (onSubscribe conn g pages).Keeps Cmd.Possible E Q := by
  refine seq_idle hidle trivial fun _ _ => seq_idle hidle trivial fun _ _ => .ite (.ret ()) ?_
  exact .ite (activatePages_idle hidle _ _ _ _) (activate_idle hidle g)

theorem onACK_idle (conn : Nat) (g : GroupRef) (msgID : Bytes)
    (hack : (handOn g msgID).Keeps Cmd.Possible E Q) :
    (onACK conn g msgID).Keeps Cmd.Possible E Q := by
  rw [onACK_eq]
  refine seq_idle hidle trivial fun _ _ => seq_idle hidle trivial fun _ _ => ?_
  refine seq_idle hidle trivial fun _ _ =>
    .ite (.ret ()) (seq_idle hidle trivial fun _ _ => .ite (.ret ()) ?_)
  exact seq_idle hidle trivial fun _ _ => .bind hack fun _ => activate_idle hidle g

theorem deadLetter_idle (ns : Bytes) (dlq : Option (Bytes × Message)) :
    (deadLetter ns dlq).Keeps Cmd.Possible E Q := by
  cases dlq with
  | none => exact .ret ()
  | some t =>
    refine .ite (.ret ()) (seq_idle hidle trivial fun _ _ => .ite (.ret ()) ?_)
    refine .bind (publishAs_idle hidle _ none _) fun published => ?_
    cases published with
    | error e => exact .ret ()
    | ok msg => exact seq_idle hidle trivial fun _ _ => .ite (activate_idle hidle _) (.ret ())

theorem onNACK_idle (conn : Nat) (g : GroupRef) (msgID reason : Bytes)
    (hnack : (handOnFailed g msgID reason).Keeps Cmd.Possible E Q) :
    (onNACK conn g msgID reason).Keeps Cmd.Possible E Q := by
  rw [onNACK_eq]
  refine seq_idle hidle trivial fun _ _ => seq_idle hidle trivial fun _ _ => ?_
  refine seq_idle hidle trivial fun _ _ =>
    .ite (.ret ()) (seq_idle hidle trivial fun _ _ => .ite (.ret ()) ?_)
  exact .bind hnack fun dlq => .bind (activate_idle hidle g) fun _ => deadLetter_idle hidle g.ns dlq

theorem drainActivated_idle (g : GroupRef) (hdrain : (offerDrained g).Keeps Cmd.Possible E Q) :
    (drainActivated g).Keeps Cmd.Possible E Q := by
  rw [drainActivated_eq]
  refine .bind hdrain fun r => .ite ?_ (.ret ())
  exact .ite (scheduleWake_idle hidle g _) (.ite (activate_idle hidle g) (.ret ()))

theorem sweepAll_idle (queues : List (Bytes × Bytes)) :
    (sweepAll queues).Keeps Cmd.Possible E Q := by
  have hshards : ∀ ns name shards, (sweepShards ns name shards).Keeps Cmd.Possible E Q := by
    intro ns name shards
    induction shards with
    | nil => exact .ret []
    | cons shard shards ih => exact seq_idle hidle trivial fun _ _ => .bind ih fun _ => .ret _
  have hexpire : ∀ expired, (expireAll expired).Keeps Cmd.Possible E Q := by
    intro expired
    induction expired with
    | nil => exact .ret ()
    | cons lease expired ih =>
      refine seq_idle hidle trivial fun _ _ => seq_idle hidle trivial fun _ _ => ?_
      exact .ite (.bind (activate_idle hidle _) fun _ => ih) ih
  induction queues with
  | nil => exact .ret ()
  | cons queue queues ih =>
    exact .bind (hshards _ _ _) fun expired => .bind (hexpire expired) fun _ => ih

theorem closing_idle (conn n : Nat) : (closing conn n).Keeps Cmd.Possible E Q := by
  have hrelease : (releaseTimes n).Keeps Cmd.Possible E Q := by
    induction n with
    | zero => exact .ret ()
    | succ n ih => exact seq_idle hidle trivial fun _ _ => ih
  exact .bind hrelease fun _ => seq_idle hidle trivial fun _ _ => command_idle hidle trivial

theorem calm_task_of_leases (hret : E (.ret ())) (t : Task) (ht : ∀ msg, t ≠ .dispatch msg)
    (hone : ∀ g, (dispatchOne g).Keeps Cmd.Possible E Q)
    (hack : t.handsOn = true → ∀ g msgID, (handOn g msgID).Keeps Cmd.Possible E Q)
    (hnack : t.handsOn = true → ∀ g msgID reason,
      (handOnFailed g msgID reason).Keeps Cmd.Possible E Q)
    (hdrain : ∀ g, (offerDrained g).Keeps Cmd.Possible E Q) : t.program.Calm Cmd.Possible E Q := by
  refine Prog.Keeps.calm ?_ hret
  cases t with
  | frame conn ns f pages =>
    cases f with
    | publish queue group payload => exact onPublish_idle hidle hone conn _ payload
    | subscribe queue group => exact onSubscribe_idle hidle conn _ pages
    | ack msgID queue group => exact onACK_idle hidle conn _ msgID (hack rfl _ msgID)
    | nack msgID queue group reason =>
      exact onNACK_idle hidle conn _ msgID reason (hnack rfl _ msgID reason)
    | heartbeat => exact command_idle hidle trivial
  | teardown conn => exact seq_idle hidle trivial fun _ _ => closing_idle hidle conn _
  | dispatch msg => exact absurd rfl (ht msg)
  | process g => exact seq_idle hidle trivial fun _ _ => drainActivated_idle hidle g (hdrain g)
  | timer g wakeNs => exact seq_idle hidle trivial fun _ _ => activate_idle hidle g
  | activate g => exact activate_idle hidle g
  | sweep => exact seq_idle hidle trivial fun queues _ => sweepAll_idle hidle queues

end Leases

def Cmd.Bare : Cmd → Prop
  | .getQueue .. | .listQueues | .pageGroupStats .. | .getGroupToken _ | .trySchedule _
    | .unschedule _ | .sendActive _
  | .setWake .. | .clearWake .. | .addTimer .. | .registryHas _ | .registryNext _
    | .registryRemove _ | .tryAcquire
  | .release | .acquireCredit _ | .releaseCredit _ | .inflight _ | .close _ | .readOn => True
  | .append event => event.type ≠ .publish
  | _ => False

section Bare

variable {possible : (c : Cmd) → c.Answer → Prop} {S : Cmd → Prop} (hS : ∀ c : Cmd, c.Bare → S c)
include hS

theorem activate_uses (g : GroupRef) : (activate g).Uses possible S := by
  refine .ite (.ret ()) (.seq (hS _ trivial) fun _ _ => .ite (.ret ()) ?_)
  refine .seq (hS _ trivial) fun _ _ => .ite (.seq (hS _ trivial) fun _ _ => ?_) (.ret ())
  exact .ite (.command (hS _ trivial)) (.ret ())

theorem scheduleWake_uses (g : GroupRef) (wakeNs : Int) :
    (scheduleWake g wakeNs).Uses possible S := by
  refine .seq (hS _ trivial) fun _ _ => .ite (.ret ()) (.seq (hS _ trivial) fun _ _ => ?_)
  exact .ite (.command (hS _ trivial)) (.ret ())

theorem activatePages_uses (ns name : Bytes) (pages : Nat) (cursor : Bytes) :
    (activatePages ns name pages cursor).Uses possible S := by
  have hall : ∀ keys, (activateAll ns name keys).Uses possible S := by
    intro keys
    induction keys with
    | nil => exact .ret ()
    | cons key keys ih => exact .bind (activate_uses hS _) fun _ => ih
  induction pages generalizing cursor with
  | zero => exact .seq (hS _ trivial) fun never _ => never.elim
  | succ pages ih =>
    exact .seq (hS _ trivial) fun page _ => .bind (hall _) fun _ => .ite (.ret ()) (ih _)

theorem expireAll_uses (expired : List ExpiredLease) : (expireAll expired).Uses possible S := by
  induction expired with
  | nil => exact .ret ()
  | cons lease expired ih =>
    refine .seq (hS _ fun h => nomatch h) fun _ _ => .seq (hS _ trivial) fun _ _ => ?_
    exact .ite (.bind (activate_uses hS _) fun _ => ih) ih

theorem teardown_uses (conn : Nat) : (teardown conn).Uses possible S := by
  have hrelease : ∀ n, (releaseTimes n).Uses possible S := by
    intro n
    induction n with
    | zero => exact .ret ()
    | succ n ih => exact .seq (hS _ trivial) fun _ _ => ih
  refine .seq (hS _ trivial) fun _ _ => .bind (hrelease _) fun _ => ?_
  exact .seq (hS _ trivial) fun _ _ => .command (hS _ trivial)

end Bare

def Cmd.Quiet : Cmd → Prop
  | .publishLocked .. | .indexKey _ | .completeAndNext .. | .failAndNext ..
    | .generateID | .incGlobalMsgs
  | .decGlobalMsgs => False
  | .append event => event.type ≠ .publish
  | _ => True

section Quiet

variable {possible : (c : Cmd) → c.Answer → Prop}

theorem bare_quiet (c : Cmd) (hc : c.Bare) : c.Quiet := by
  cases c <;> first | exact trivial | exact hc

theorem activate_quiet (g : GroupRef) : (activate g).Uses possible Cmd.Quiet :=
  activate_uses bare_quiet g

theorem dispatchNext_quiet (next : Option Message) :
    (dispatchNext next).Uses possible Cmd.Quiet := by
  cases next with
  | none => exact .ret ()
  | some next => exact .seq trivial fun _ _ => .ret ()

theorem dispatchOne_quiet (g : GroupRef) : (dispatchOne g).Uses possible Cmd.Quiet := by
  refine .seq trivial fun next _ => ?_
  cases next with
  | none => exact .ret ()
  | some next => exact .seq trivial fun _ _ => .ite (.command trivial) (.ret ())

theorem offerAll_quiet (g : GroupRef) (msgs : List Message) :
    (offerAll g msgs).Uses possible Cmd.Quiet := by
  have hreturn : ∀ msgs, (returnAll g msgs).Uses possible Cmd.Quiet := by
    intro msgs
    induction msgs with
    | nil => exact .ret ()
    | cons msg msgs ih => exact .seq trivial fun _ _ => ih
  induction msgs with
  | nil => exact .ret true
  | cons msg msgs ih =>
    exact .seq trivial fun _ _ => .ite ih (.bind (hreturn _) fun _ => .ret false)

theorem dispatch_quiet (msg : Message) : (dispatch msg).Uses possible Cmd.Quiet := by
  have hback : (handBack msg).Uses possible Cmd.Quiet :=
    .seq trivial fun _ _ => .ite (.command trivial) (.ret ())
  have hback' : (do handBack msg; pure () : Program Unit).Uses possible Cmd.Quiet :=
    .bind hback fun _ => .ret ()
  refine .seq trivial fun conn _ => ?_
  cases conn with
  | none => exact hback
  | some conn =>
    refine .seq trivial fun _ _ => .ite (.seq trivial fun _ _ => hback') ?_
    refine .seq trivial fun _ _ => .ite (.seq trivial fun _ _ => .seq trivial fun _ _ => hback') ?_
    refine .seq trivial fun _ _ => .ite ?_ (.seq (fun h => nomatch h) fun _ _ => .ret ())
    exact .seq trivial fun _ _ => .seq trivial fun _ _ => hback'

theorem sweepLeases_quiet : sweepLeases.Uses possible Cmd.Quiet := by
  have hshards : ∀ ns name shards, (sweepShards ns name shards).Uses possible Cmd.Quiet := by
    intro ns name shards
    induction shards with
    | nil => exact .ret []
    | cons shard shards ih => exact .seq trivial fun _ _ => .bind ih fun _ => .ret _
  have hall : ∀ queues, (sweepAll queues).Uses possible Cmd.Quiet := by
    intro queues
    induction queues with
    | nil => exact .ret ()
    | cons queue queues ih =>
      exact .bind (hshards _ _ _) fun expired =>
        .bind (expireAll_uses bare_quiet expired) fun _ => ih
  exact .seq trivial fun queues _ => hall queues

def Task.counts : Task → Bool
  | .frame _ _ (.publish ..) _ | .frame _ _ (.ack ..) _ | .frame _ _ (.nack ..) _ => true
  | _ => false

theorem task_quiet {t : Task} (ht : t.counts = false) : t.program.Uses possible Cmd.Quiet := by
  cases t with
  | frame conn ns f pages =>
    cases f with
    | subscribe queue group =>
      refine .seq trivial fun _ _ => .seq trivial fun _ _ => .ite (.ret ()) ?_
      exact .ite (activatePages_uses bare_quiet ns queue pages []) (activate_quiet _)
    | heartbeat => exact .command trivial
    | _ => cases ht
  | teardown conn => exact teardown_uses bare_quiet conn
  | dispatch msg => exact dispatch_quiet msg
  | process g =>
    refine .seq trivial fun _ _ => .seq trivial fun r _ => .bind (offerAll_quiet g _) fun _ =>
      .ite ?_ (.ret ())
    exact .ite (scheduleWake_uses bare_quiet g _) (.ite (activate_quiet g) (.ret ()))
  | timer g wakeNs => exact .seq trivial fun _ _ => activate_quiet g
  | activate g => exact activate_quiet g
  | sweep => exact sweepLeases_quiet

end Quiet

theorem System.Step.mem_threads [PathMatch] {sys sys' : System} {l : Label} (h : sys.Step l sys')
    (hl : ∀ thread ch, l ≠ .run thread ch) {t : Goroutine} (ht : t ∈ sys'.threads) :
    t ∈ sys.threads ∨ ∃ task : Task, task.Proper ∧ t = task.start := by
  have hspawn : ∀ {task : Task}, t ∈ sys.threads ++ [task.start] → task.Proper →
      t ∈ sys.threads ∨ ∃ task : Task, task.Proper ∧ t = task.start :=
    fun {task} ht htask => (List.mem_append.mp ht).imp_right fun ht =>
      ⟨task, htask, List.mem_singleton.mp ht⟩
  cases h with
  | declare | connect | flush => exact .inl ht
  | receive reader valid => exact hspawn ht valid
  | disconnect | deliver | process | fire | activate | sweep => exact hspawn ht trivial
  | run => exact absurd rfl (hl _ _)

theorem System.Step.threads [PathMatch] {sys sys' : System} {l : Label} {Φ : Goroutine → Prop}
    (h : sys.Step l sys') (hthreads : ∀ t ∈ sys.threads, Φ t)
    (hstart : ∀ t : Task, t.Proper → Φ t.start)
    (hrun : ∀ {ch task c k s r}, c.handle ch sys.state = .ok (s, r) →
      Φ ⟨task, .call c k⟩ → Φ ⟨task, k r⟩) :
    ∀ t ∈ sys'.threads, Φ t := by
  intro t ht
  have hother : (∀ thread ch, l ≠ .run thread ch) → Φ t := by
    intro hl
    rcases h.mem_threads hl ht with hold | ⟨task, htask, rfl⟩
    · exact hthreads t hold
    · exact hstart task htask
  cases h with
  | run next handled =>
    rcases List.mem_or_eq_of_mem_set ht with ht | rfl
    · exact hthreads t ht
    · exact hrun handled (hthreads _ (List.mem_of_getElem? next))
  | _ => exact hother fun _ _ h => nomatch h

theorem System.Step.thread [PathMatch] {sys sys' : System} {l : Label} (h : sys.Step l sys')
    {i : Nat} {t : Goroutine} (ht : sys.threads[i]? = some t) :
    sys'.threads[i]? = some t ∨ ∃ ch task c k r, t = ⟨task, .call c k⟩ ∧
      c.handle ch sys.state = .ok (sys'.state, r) ∧ sys'.threads[i]? = some ⟨task, k r⟩ := by
  have hspawn : ∀ t' : Goroutine, (sys.threads ++ [t'])[i]? = some t := by
    intro t'
    rw [List.getElem?_append_left (List.getElem?_eq_some_iff.mp ht).1]
    exact ht
  cases h with
  | declare | connect | flush => exact .inl ht
  | receive | disconnect | deliver | process | fire | activate | sweep => exact .inl (hspawn _)
  | @run thread ch task c k s r next handled =>
    by_cases heq : thread = i
    · subst heq
      cases ht.symm.trans next
      refine .inr ⟨ch, task, c, k, r, rfl, handled, ?_⟩
      exact List.getElem?_set_self (List.getElem?_eq_some_iff.mp next).1
    · refine .inl ?_
      change (sys.threads.set thread _)[i]? = some t
      rw [List.getElem?_set_ne heq]
      exact ht

theorem System.Step.cfg [PathMatch] {sys sys' : System} {l : Label} (h : sys.Step l sys') :
    sys'.state.cfg = sys.state.cfg := by
  cases h with
  | declare | connect | receive | disconnect | deliver | process | fire | activate
    | sweep | flush => rfl
  | run next handled => exact (Cmd.handle_frame handled).cfg

def Cmd.Targets : Cmd → Prop
  | .publishLocked g _ _ => g.group ≠ []
  | _ => True

theorem Cmd.targets_of_part {c : Cmd} (h : c.part ≠ .queues) : c.Targets := by
  cases c <;> first | exact trivial | exact absurd rfl h

theorem parts_targets : Parts true true (fun _ => True) fun c _ => c.Targets where
  ret := trivial
  plain c hc k _ := by
    cases c <;> first | exact ⟨trivial, trivial⟩ | exact hc.elim
  activate g := by
    refine activate_keeps g fun c hc k _ => ⟨trivial, Cmd.targets_of_part ?_⟩
    rcases hc with hc | hc <;> rw [hc] <;> decide
  scheduleWake g wakeNs := by
    refine scheduleWake_keeps g wakeNs fun c hc k _ => ⟨trivial, Cmd.targets_of_part ?_⟩
    rcases hc with hc | hc <;> rw [hc] <;> decide
  publishAs g msgID payload hg :=
    publishAs_keeps g msgID payload (fun _ _ => ⟨trivial, hg⟩) fun _ _ => ⟨trivial, trivial⟩

namespace System

structure Regular (sys : System) : Prop where
  placed : sys.state.Placed
  keys : ∀ g, (sys.state.group g).isSome → g.group ≠ []
  threads : ∀ t ∈ sys.threads, t.prog.All Cmd.Possible fun c _ => c.Targets

theorem regular_start (cfg : RuntimeConfig) (chs : List DispatchCh) : (start cfg chs).Regular := by
  refine ⟨⟨?_, ?_, ?_, ?_⟩, ?_, ?_⟩
  · intro k q hq
    cases hq
  · intro k q hq
    cases hq
  · intro g G hG
    cases hG
  · intro g G hG
    cases hG
  · intro g hg
    cases hg
  · intro t ht
    cases ht

variable [PathMatch] {sys sys' : System} {l : Label}

theorem Step.keys (h : sys.Step l sys') (hsys : sys.Regular) (g : GroupRef)
    (hg : (sys'.state.group g).isSome) :
    g.group ≠ [] := by
  cases h with
  | declare new =>
    rw [Runtime.group_of_declare new rfl] at hg
    exact hsys.keys g hg
  | connect | receive | disconnect | deliver | process | fire | activate | sweep | flush =>
    exact hsys.keys g hg
  | run next handled =>
    rcases Cmd.handle_group hsys.placed.named handled g with ⟨hsame, -⟩ | ⟨G, G', hG, -, hchanges⟩
    · rw [hsame] at hg
      exact hsys.keys g hg
    · cases hG with
      | old hG => exact hsys.keys g (by rw [hG]; rfl)
      | new _ _ _ publishes =>
        obtain ⟨msgID, payload, rfl⟩ := publishes
        exact (hsys.threads _ (List.mem_of_getElem? next)).1

theorem Regular.step (hsys : sys.Regular) (h : sys.Step l sys') : sys'.Regular := by
  refine ⟨?_, h.keys hsys, ?_⟩
  · cases h with
    | declare new => exact hsys.placed.declare new rfl
    | connect | receive | disconnect | deliver | process | fire | activate | sweep | flush =>
      exact hsys.placed.ofSame rfl
    | run next handled => exact hsys.placed.handle handled
  · refine h.threads hsys.threads (fun t ht => ?_) ?_
    · exact all_task parts_targets (fun _ _ => trivial) (fun _ _ _ => trivial)
        (fun _ _ => trivial) t ht
    · intro ch task c k s r handled hall
      exact hall.2 r (Cmd.handle_possible hsys.placed handled)

end System

end Octar

