import Octar.Broker.ExportImport
import Octar.Broker.Publish

namespace Octar

open Go

def OtherThan (id : Bytes) (x : Loc × Message) : Prop := x.2.id ≠ id

theorem closed_otherThan (id : Bytes) : Closed (OtherThan id) :=
  ⟨fun h => h, fun h => h, fun _ h => h, fun _ _ h => h⟩

def Event.Spares (id : Bytes) (e : Event) : Prop := e.type = .publish → e.msgID ≠ id

def GroupSnapshot.Spares (id : Bytes) (gs : GroupSnapshot) : Prop := ∀ ms ∈ gs.messages, ms.id ≠ id

abbrev Dir.Spares (id : Bytes) (d : Dir (Option Snapshot)) : Prop :=
  d.Only (Event.Spares id) fun content => ∀ snap ∈ content, ∀ gs ∈ snap.groups, gs.Spares id

theorem Dir.Only.damage {P : Event → Prop} {Q : Option Snapshot → Prop} {d : Dir (Option Snapshot)}
    (h : d.Only P Q) (hQ : Q none) (damage : Damage) : (damage.apply d).Only P Q := by
  constructor
  · intro name records hl e he
    rw [Damage.apply, Map.lookup_mapTo] at hl
    obtain ⟨f, hf, heq⟩ := Option.map_eq_some_iff.mp hl
    cases f with
    | log old =>
      cases heq
      exact h.log name old hf e (List.mem_of_mem_take he)
    | idx => cases heq
    | snap content => cases heq
  · intro name content hl
    rw [Damage.apply, Map.lookup_mapTo] at hl
    obtain ⟨f, hf, heq⟩ := Option.map_eq_some_iff.mp hl
    cases f with
    | log old => cases heq
    | idx => cases heq
    | snap old =>
      cases heq
      split
      · exact hQ
      · exact h.snap name old hf

theorem Queue.Each.foldl_setGroupConfig {P : Loc × Message → Prop} [PathMatch] {q : Queue}
    (h : q.Each P) (cfgs : List GroupConfig) : (cfgs.foldl Queue.setGroupConfig q).Each P := by
  induction cfgs generalizing q with
  | nil => exact h
  | cons cfg cfgs ih => exact ih (h.installConfig _)

theorem spares_convert {id : Bytes} {q : Queue} (h : q.Each (OtherThan id)) (ord : RangeOrder) :
    ∀ gs ∈ convertQueueStateToSnapshot ord q.exportState, gs.Spares id := by
  intro gs hgs ms hms
  obtain ⟨⟨key, state⟩, hentry, rfl⟩ := List.mem_map.mp hgs
  have hl := AList.mem_lookup_iff.mpr ((ord.mem_pick).mp hentry)
  rw [Queue.exportState, Map.lookup_mapTo] at hl
  obtain ⟨g, hg, rfl⟩ := Option.map_eq_some_iff.mp hl
  obtain ⟨m, hm, rfl⟩ := List.mem_map.mp hms
  have hslot : m ∈ g.slots.map Prod.snd := by
    rw [← Group.messages_exportState g ord]
    exact hm
  obtain ⟨x, hx, rfl⟩ := Multiset.mem_map.mp hslot
  exact (h key g hg).slots x hx

theorem stamp_spares {id : Bytes} {l : List Event} (h : ∀ e ∈ l, e.Spares id) (seq : Nat) :
    ∀ e ∈ stamp seq l, e.Spares id := by
  intro e he
  have hmem := List.mem_map_of_mem (f := Event.Spares id) he
  rw [map_stamp (fun _ _ => rfl)] at hmem
  obtain ⟨e', he', heq⟩ := List.mem_map.mp hmem
  exact heq ▸ h e' he'

def publishesOf (id : Bytes) (l : List Event) : List Event :=
  l.filter fun e => e.type = .publish ∧ e.msgID = id

section

variable {id : Bytes} {e : Event} {l l' : List Event}

theorem mem_publishesOf : e ∈ publishesOf id l ↔ e ∈ l ∧ e.type = .publish ∧ e.msgID = id := by
  simp [publishesOf]

theorem publishesOf_append : publishesOf id (l ++ l') = publishesOf id l ++ publishesOf id l' :=
  List.filter_append _ _

theorem publishesOf_eq_nil : publishesOf id l = [] ↔ ∀ e ∈ l, e.Spares id := by
  simp [publishesOf, Event.Spares]

theorem publishesOf_parts {n : Nat} :
    publishesOf id l = [] ↔ publishesOf id (l.take n) = [] ∧ publishesOf id (l.drop n) = [] := by
  rw [← List.append_eq_nil_iff, ← publishesOf_append, List.take_append_drop]

theorem mem_of_publishesOf (h : publishesOf id l = [e]) : e ∈ l :=
  (mem_publishesOf.mp (h ▸ List.mem_singleton_self e)).1

theorem notMem_of_publishesOf (h : publishesOf id l = [e]) (h' : publishesOf id l' = []) :
    e ∉ l' := by
  intro hmem
  obtain ⟨-, htype, hid⟩ := mem_publishesOf.mp (h ▸ List.mem_singleton_self e)
  exact publishesOf_eq_nil.mp h' e hmem htype hid

theorem publishesOf_split (h : publishesOf id l = [e]) (n : Nat) :
    publishesOf id (l.take n) = [] ∧ publishesOf id (l.drop n) = [e] ∨
      publishesOf id (l.take n) = [e] ∧ publishesOf id (l.drop n) = [] := by
  rw [← List.take_append_drop n l, publishesOf_append] at h
  exact List.append_eq_singleton_iff.mp h

end

namespace Broker

variable {id : Bytes} {b b' : Broker}

structure Away (id : Bytes) (b : Broker) : Prop where
  queue : ∀ q ∈ b.queue, q.Each (OtherThan id)
  confirmed : ∀ e ∈ b.confirmed, e.msgID ≠ id
  dir : b.wal.dir.Spares id
  exported : ∀ ord, ∀ gs ∈ providedGroups ord b.exported, gs.Spares id
  handedOut : ∀ m ∈ b.handedOut, m.id ≠ id

theorem Away.start (id name ns : Bytes) (globalMaxMsgs : Int) :
    Away id (start name ns globalMaxMsgs) where
  queue := fun _ h => nomatch h
  confirmed := fun _ h => nomatch h
  dir := Dir.Only.openSegment Dir.Only.ofEmpty (Dir.findLastSegmentID (∅ : Dir (Option Snapshot)))
  exported := fun _ _ h => nomatch h
  handedOut := fun _ h => nomatch h

/-- What is left of a publish of `id`: nothing, or its event is with the writer and its publisher
waits, or no publisher waits and the answer, if there is one, does not say that nothing was written.
Only in the first case can `id` be `fresh`, the identifier of a publish still to come. -/
inductive Stage (id : Bytes) (b : Broker) (fresh : Prop) : Prop
  | absent (away : Away id b) (ch : publishesOf id b.ch = [])
    (waiting : ∀ e ∈ b.waiting, e.msgID ≠ id) (ended : fresh → ∀ o, (id, o) ∉ b.ended)
  | queued (e : Event) (away : Away id b) (ch : publishesOf id b.ch = [e])
    (waiting : ∀ e' ∈ b.waiting, e'.msgID = id → e' = e) (ended : ∀ o, (id, o) ∉ b.ended)
    (old : ¬fresh)
  | loose (waiting : ∀ e ∈ b.waiting, e.msgID ≠ id)
    (ended : ∀ o, (id, o) ∈ b.ended → ¬o.NeverWritten) (old : ¬fresh)

structure Quiet (id : Bytes) (b b' : Broker) : Prop where
  away : Away id b → Away id b'
  ch : publishesOf id b'.ch = publishesOf id b.ch
  waiting : ∀ e ∈ b'.waiting, e.msgID = id → e ∈ b.waiting
  ended : ∀ o, (id, o) ∈ b'.ended → (id, o) ∈ b.ended ∨ ¬Away id b ∧ ¬o.NeverWritten

theorem Stage.quiet {fresh fresh' : Prop} (h : Stage id b fresh) (hq : Quiet id b b')
    (hf : fresh' → fresh) :
    Stage id b' fresh' := by
  cases h with
  | absent away ch waiting ended =>
    refine .absent (hq.away away) (hq.ch.trans ch) ?_ ?_
    · intro e he hid
      exact waiting e (hq.waiting e he hid) hid
    · intro hfresh o ho
      rcases hq.ended o ho with ho | ⟨hno, -⟩
      · exact ended (hf hfresh) o ho
      · exact hno away
  | queued e away ch waiting ended old =>
    refine .queued e (hq.away away) (hq.ch.trans ch) ?_ ?_ fun hfresh => old (hf hfresh)
    · intro e' he' hid
      exact waiting e' (hq.waiting e' he' hid) hid
    · intro o ho
      rcases hq.ended o ho with ho | ⟨hno, -⟩
      · exact ended o ho
      · exact hno away
  | loose waiting ended old =>
    refine .loose ?_ ?_ fun hfresh => old (hf hfresh)
    · intro e he hid
      exact waiting e (hq.waiting e he hid) hid
    · intro o ho
      rcases hq.ended o ho with ho | ⟨-, ho⟩
      · exact ended o ho
      · exact ho

theorem Quiet.ofAway (haway : Away id b → Away id b') (hch : b'.ch = b.ch)
    (hwaiting : b'.waiting = b.waiting) (hended : b'.ended = b.ended) : Quiet id b b' := by
  refine ⟨haway, by rw [hch], ?_, ?_⟩
  · intro e he _
    exact hwaiting ▸ he
  · intro o ho
    exact .inl (hended ▸ ho)

theorem mem_finish {msgID : Bytes} {o o' : PublishOutcome}
    (h : (id, o') ∈ (b.finish msgID o).ended) :
    (id, o') ∈ b.ended ∨ id = msgID ∧ o' = o := by
  simpa [finish] using h

theorem publish_cases (b : Broker) (f : PublishFrame) (msgID : Bytes) (sent : Bool) :
    ∃ n, (∃ o, o.NeverWritten ∧
        b.publish f msgID sent = { b with globalMsgs := n }.finish msgID o) ∨
      b.publish f msgID sent = { b with
        globalMsgs := n
        ch := b.ch ++ [b.publishEvent f msgID]
        waiting := b.waiting ++ [b.publishEvent f msgID] } := by
  unfold Broker.publish
  split
  · exact ⟨b.globalMsgs, .inl ⟨.queueNotFound, trivial, rfl⟩⟩
  · unfold incGlobalMsgs
    split
    · exact ⟨b.globalMsgs, .inl ⟨.globalLimit, trivial, rfl⟩⟩
    · rename_i b₁ hinc
      split at hinc
      · cases hinc
      · cases hinc
        split
        · exact ⟨_, .inl ⟨.walFailed, trivial, rfl⟩⟩
        · split
          · exact ⟨_, .inr rfl⟩
          · exact ⟨_, .inl ⟨.channelFull, trivial, rfl⟩⟩

theorem publishesOf_event (f : PublishFrame) (msgID : Bytes) :
    publishesOf id [b.publishEvent f msgID] = if msgID =
      id then [b.publishEvent f msgID] else [] := by
  simp [publishesOf, publishEvent, List.filter_cons]

theorem Quiet.publish (f : PublishFrame) {msgID : Bytes} (hid : msgID ≠ id) (sent : Bool) :
    Quiet id b (b.publish f msgID sent) := by
  obtain ⟨n, ⟨o, -, heq⟩ | heq⟩ := b.publish_cases f msgID sent
  all_goals rw [heq]
  · refine ⟨fun h => ⟨h.queue, h.confirmed, h.dir, h.exported, h.handedOut⟩, rfl,
      fun e he _ => he, ?_⟩
    intro o' ho
    exact .inl ((mem_finish ho).resolve_right fun h => hid h.1.symm)
  · refine ⟨fun h => ⟨h.queue, h.confirmed, h.dir, h.exported, h.handedOut⟩, ?_, ?_,
      fun o ho => .inl ho⟩
    · rw [publishesOf_append, publishesOf_event, if_neg hid, List.append_nil]
    · intro e he heid
      rcases List.mem_append.mp he with he | he
      · exact he
      · rw [List.mem_singleton.mp he] at heid
        exact absurd heid hid

theorem Stage.publish {fresh : Prop} (h : Stage id b fresh) (hfresh : fresh) (f : PublishFrame)
    (sent : Bool) :
    Stage id (b.publish f id sent) False := by
  cases h with
  | absent away ch waiting ended =>
    obtain ⟨n, ⟨o, -, heq⟩ | heq⟩ := b.publish_cases f id sent
    all_goals rw [heq]
    · exact .absent ⟨away.queue, away.confirmed, away.dir, away.exported,
        away.handedOut⟩ ch waiting nofun
    · refine .queued (b.publishEvent f id)
        ⟨away.queue, away.confirmed, away.dir, away.exported, away.handedOut⟩ ?_ ?_
          (ended hfresh) not_false
      · rw [publishesOf_append, publishesOf_event, if_pos rfl, ch, List.nil_append]
      · intro e he heid
        rcases List.mem_append.mp he with he | he
        · exact absurd heid (waiting e he)
        · exact List.mem_singleton.mp he
  | queued _ _ _ _ _ old => exact absurd hfresh old
  | loose _ _ old => exact absurd hfresh old

theorem Quiet.timeout {msgID : Bytes} (hid : msgID ≠ id) : Quiet id b (b.timeout msgID) := by
  unfold Broker.timeout
  split
  · refine ⟨fun h => ⟨h.queue, h.confirmed, h.dir, h.exported, h.handedOut⟩, rfl, ?_, ?_⟩
    · intro e he _
      exact List.mem_of_mem_filter he
    · intro o ho
      exact .inl ((mem_finish ho).resolve_right fun h => hid h.1.symm)
  · exact .ofAway (fun h => h) rfl rfl rfl

theorem Stage.timeout {fresh fresh' : Prop} (h : Stage id b fresh) (hf : fresh' → fresh) :
    Stage id (b.timeout id) fresh' := by
  unfold Broker.timeout
  split
  · rename_i hwait
    obtain ⟨e, he, heid⟩ := hwait
    cases h with
    | absent away ch waiting ended => exact absurd heid (waiting e he)
    | queued e' away ch waiting ended old =>
      refine .loose ?_ ?_ fun hfresh => old (hf hfresh)
      · intro e'' he''
        exact of_decide_eq_true (List.mem_filter.mp he'').2
      · intro o ho
        rcases mem_finish ho with ho | ⟨-, rfl⟩
        · exact absurd ho (ended o)
        · exact fun h => h
    | loose waiting ended old => exact absurd heid (waiting e he)
  · exact h.quiet (.ofAway (fun h => h) rfl rfl rfl) hf

section

variable [PathMatch]

theorem Quiet.enqueue {msgID : Bytes} {now : Int} (h : b.enqueue msgID now = .ok b') :
    Quiet id b b' := by
  unfold Broker.enqueue at h
  split at h
  · rename_i q e hq hfind
    have hmem := List.mem_of_find?_eq_some hfind
    have hmsg : e.msgID = msgID := by simpa using List.find?_some hfind
    obtain ⟨⟨q', r⟩, hpub, hret⟩ := bind_ok.mp h
    have haway : Away id b → Away id { b with
        queue := some q'
        confirmed := b.confirmed.filter fun e => e.msgID ≠ msgID } := by
      intro ha
      refine ⟨?_, ?_, ha.dir, ha.exported, ha.handedOut⟩
      · intro q₁ hq₁
        cases hq₁
        exact (ha.queue q hq).publishWithID (ha.confirmed e hmem) hpub
      · intro e' he'
        exact ha.confirmed e' (List.mem_of_mem_filter he')
    -- whoever is answered here was confirmed, and is not away
    have hended : ∀ {o o' : PublishOutcome}, ¬o.NeverWritten →
        (id, o') ∈ b.ended ∨ id = msgID ∧ o' = o → (id, o') ∈ b.ended ∨ ¬Away id b ∧
          ¬o'.NeverWritten := by
      rintro o o' hno (ho | ⟨hid, rfl⟩)
      · exact .inl ho
      · exact .inr ⟨fun ha => ha.confirmed e hmem (hmsg.trans hid.symm), hno⟩
    cases r with
    | ok m =>
      cases hret
      refine ⟨fun ha => ?_, rfl, fun e he _ => he,
        fun o ho => hended (o := .accepted) not_false (mem_finish ho)⟩
      have ha' := haway ha
      exact ⟨ha'.queue, ha'.confirmed, ha'.dir, ha'.exported, ha'.handedOut⟩
    | error err =>
      cases hret
      refine ⟨fun ha => ?_, rfl, fun e he _ => he,
        fun o ho => hended (o := .refused err) not_false (mem_finish ho)⟩
      have ha' := haway ha
      exact ⟨ha'.queue, ha'.confirmed, ha'.dir, ha'.exported, ha'.handedOut⟩
  · cases h
    exact .ofAway (fun h => h) rfl rfl rfl

theorem live_cases {op : LiveOp} {records : List Event} (h : b.live op records = .ok b') :
    b' = b ∨ ∃ q q' r, b.queue = some q ∧ q.exec op = .ok (q', r) ∧ b' = { b with
      queue := some q'
      ch := b.ch ++ records
      handedOut := b.handedOut ++ r.handedOut } := by
  unfold Broker.live at h
  split at h
  · cases h
    exact .inl rfl
  · rename_i q hq
    obtain ⟨⟨q', r⟩, hexec, hret⟩ := bind_ok.mp h
    cases hret
    exact .inr ⟨q, q', r, hq, hexec, rfl⟩

theorem Quiet.live {op : LiveOp} {records : List Event} (hid : op.publishID ≠ some id)
    (hrecords : publishesOf id records = []) (h : b.live op records = .ok b') : Quiet id b b' := by
  obtain rfl | ⟨q, q', r, hq, hexec, rfl⟩ := live_cases h
  · exact .ofAway (fun h => h) rfl rfl rfl
  · refine ⟨?_, ?_, fun e he _ => he, fun o ho => .inl ho⟩
    · intro ha
      have heach := (ha.queue q hq).exec (closed_otherThan id)
        (fun key payload id' now hpub heq => hid (hpub.trans (congrArg some heq))) hexec
      refine ⟨?_, ha.confirmed, ha.dir, ha.exported, ?_⟩
      · intro q₁ hq₁
        cases hq₁
        exact heach.1
      · intro m hm
        rcases List.mem_append.mp hm with hm | hm
        · exact ha.handedOut m hm
        · exact heach.2 m hm
    · rw [publishesOf_append, hrecords, List.append_nil]

theorem Stage.live {fresh : Prop} {op : LiveOp} {records : List Event} (h : Stage id b fresh)
    (hfresh : fresh) (hb : b.live op records = .ok b') : Stage id b' False := by
  cases h with
  | absent away ch waiting ended =>
    obtain rfl | ⟨q, q', r, -, -, rfl⟩ := live_cases hb
    all_goals exact .loose waiting (fun o ho => absurd ho (ended hfresh o)) not_false
  | queued _ _ _ _ _ old => exact absurd hfresh old
  | loose _ _ old => exact absurd hfresh old

end

section

variable {count written : Nat} {failed : Bool}

theorem mem_waiting_flush {e : Event} (h : e ∈ b.waiting.filter fun e => e ∉ b.ch.take count) :
    e ∈ b.waiting ∧ e ∉ b.ch.take count := by
  simpa using h

theorem mem_confirmed_flush {e : Event} (h : e ∈ (b.flushOK count).confirmed) :
    e ∈ b.confirmed ∨ e ∈ b.waiting ∧ e ∈ b.ch.take count := by
  simpa [flushOK] using h

theorem mem_ended_flush {o : PublishOutcome}
    (h : (id, o) ∈ (b.flushError count written failed).ended) :
    (id, o) ∈ b.ended ∨ ∃ e ∈ b.waiting, e ∈ b.ch.take count ∧ e.msgID = id ∧
      o = .flushFailed (e ∈ (b.ch.take count).take written) := by
  rcases List.mem_append.mp h with h | h
  · exact .inl h
  · obtain ⟨e, he, heq⟩ := List.mem_map.mp h
    obtain ⟨hwait, hmem⟩ := List.mem_filter.mp he
    cases heq
    exact .inr ⟨e, hwait, of_decide_eq_true hmem, rfl, rfl⟩

theorem Away.flushOK (h : Away id b) (hbatch : publishesOf id (b.ch.take count) = [])
    (hreplied : ∀ e ∈ b.waiting, e ∈ b.ch.take count → e.msgID ≠ id) :
    Away id (b.flushOK count) := by
  refine ⟨h.queue, ?_, ?_, h.exported, h.handedOut⟩
  · intro e he
    rcases mem_confirmed_flush he with he | ⟨hwait, hmem⟩
    · exact h.confirmed e he
    · exact hreplied e hwait hmem
  · exact OpenWriter.only_flushBatch h.dir (stamp_spares (publishesOf_eq_nil.mp hbatch) _)

theorem Away.flushError (h : Away id b)
    (hwritten : publishesOf id ((b.ch.take count).take written) = []) :
    Away id (b.flushError count written failed) :=
  ⟨h.queue, h.confirmed,
    OpenWriter.only_flushBatch h.dir (stamp_spares (publishesOf_eq_nil.mp hwritten) _),
    h.exported, h.handedOut⟩

theorem Stage.flushOK {fresh fresh' : Prop} (h : Stage id b fresh) (hf : fresh' → fresh) :
    Stage id (b.flushOK count) fresh' := by
  cases h with
  | absent away ch waiting ended =>
    obtain ⟨hbatch, hdrop⟩ := publishesOf_parts.mp ch
    exact .absent (away.flushOK hbatch fun e he _ => waiting e he) hdrop
      (fun e he => waiting e (mem_waiting_flush he).1) fun hfresh => ended (hf hfresh)
  | queued e away ch waiting ended old =>
    rcases publishesOf_split ch count with ⟨hbatch, hdrop⟩ | ⟨hbatch, -⟩
    · refine .queued e (away.flushOK hbatch ?_) hdrop
        (fun e' he' => waiting e' (mem_waiting_flush he').1) ended
        fun hfresh => old (hf hfresh)
      intro e' hwait hmem heid
      exact notMem_of_publishesOf ch hbatch (waiting e' hwait heid ▸ hmem)
    · -- its publisher is answered and goes on
      refine .loose ?_ (fun o ho => absurd ho (ended o)) fun hfresh => old (hf hfresh)
      intro e' he' heid
      obtain ⟨hwait, hnot⟩ := mem_waiting_flush he'
      exact hnot (waiting e' hwait heid ▸ mem_of_publishesOf hbatch)
  | loose waiting ended old =>
    exact .loose (fun e he => waiting e (mem_waiting_flush he).1) ended
      fun hfresh => old (hf hfresh)

theorem Stage.flushError {fresh fresh' : Prop} (h : Stage id b fresh) (hf : fresh' → fresh) :
    Stage id (b.flushError count written failed) fresh' := by
  cases h with
  | absent away ch waiting ended =>
    obtain ⟨hbatch, hdrop⟩ := publishesOf_parts.mp ch
    refine .absent (away.flushError (publishesOf_parts.mp hbatch).1) hdrop
      (fun e he => waiting e (mem_waiting_flush he).1) ?_
    intro hfresh o ho
    rcases mem_ended_flush ho with ho | ⟨e, he, -, heid, -⟩
    · exact ended (hf hfresh) o ho
    · exact waiting e he heid
  | queued e away ch waiting ended old =>
    have hold : ¬fresh' := fun hfresh => old (hf hfresh)
    rcases publishesOf_split ch count with ⟨hbatch, hdrop⟩ | ⟨hbatch, hdrop⟩
    · refine .queued e (away.flushError (publishesOf_parts.mp hbatch).1) hdrop
        (fun e' he' => waiting e' (mem_waiting_flush he').1) ?_ hold
      intro o ho
      rcases mem_ended_flush ho with ho | ⟨e', hwait, hmem, heid, -⟩
      · exact ended o ho
      · exact notMem_of_publishesOf ch hbatch (waiting e' hwait heid ▸ hmem)
    · -- its publisher is answered: what counts is whether the record is in the log
      have hwaiting : ∀ e' ∈ (b.flushError count written failed).waiting, e'.msgID ≠ id := by
        intro e' he' heid
        obtain ⟨hwait, hnot⟩ := mem_waiting_flush he'
        exact hnot (waiting e' hwait heid ▸ mem_of_publishesOf hbatch)
      rcases publishesOf_split hbatch written with ⟨hnone, -⟩ | ⟨hwritten, -⟩
      · exact .absent (away.flushError hnone) hdrop hwaiting fun hfresh => absurd hfresh hold
      · refine .loose hwaiting ?_ hold
        intro o ho
        rcases mem_ended_flush ho with ho | ⟨e', hwait, -, heid, rfl⟩
        · exact absurd ho (ended o)
        · rw [waiting e' hwait heid]
          simp [PublishOutcome.NeverWritten, mem_of_publishesOf hwritten]
  | loose waiting ended old =>
    refine .loose (fun e he => waiting e (mem_waiting_flush he).1) ?_ fun hfresh => old (hf hfresh)
    intro o ho
    rcases mem_ended_flush ho with ho | ⟨e, he, -, heid, -⟩
    · exact ended o ho
    · exact absurd heid (waiting e he)

end

theorem Stage.flush {fresh fresh' : Prop} (h : Stage id b fresh) (hf : fresh' → fresh) (count : Nat)
    (failure : Option (Nat × Bool)) : Stage id (b.flush count failure) fresh' := by
  unfold Broker.flush
  split
  · exact h.flushError hf
  · split
    · exact h.flushOK hf
    · exact h.flushError hf

theorem Away.writeSnapshot (h : Away id b) (ord : RangeOrder) (now : Int) :
    (b.wal.writeSnapshot some (providedGroups ord b.exported) now).dir.Spares id := by
  refine OpenWriter.only_writeSnapshot h.dir ?_ now
  rintro segID seq now _ ⟨⟩
  exact h.exported ord

theorem Away.exportState (h : Away id b) (ord : RangeOrder) :
    ∀ gs ∈ providedGroups ord (b.queue.map Queue.exportState), gs.Spares id := by
  cases hq : b.queue with
  | none => exact nofun
  | some q => exact spares_convert (h.queue q hq) ord

theorem Away.declareQueue (h : Away id b) :
    ∀ q ∈ b.queue.or (some (newQueue b.name b.ns)), q.Each (OtherThan id) := by
  cases hq : b.queue with
  | none =>
    rintro _ ⟨⟩
    exact .ofEmpty rfl
  | some q =>
    rintro _ ⟨⟩
    exact h.queue q hq

section

variable [PathMatch] {lost hidden : Damage} {cfgs : List GroupConfig} {ord : RangeOrder} {now : Int}
  {clock : Event → Int}

theorem restart_cases (h : b.restart lost hidden cfgs ord now clock = .ok b') :
    ∃ q, b' = { b with
        globalMsgs := 0
        walFailed := false
        ch := []
        waiting := []
        confirmed := []
        exported := none
        wal := .newQueueWAL (lost.apply b.wal.dir)
        queue := q } ∧
      ∀ q' ∈ q, Octar.restart (cfgs.foldl Queue.setGroupConfig (newQueue b.name b.ns)) ord now clock
        ((hidden.apply (lost.apply b.wal.dir)).recovered fun content => content) = .ok q' := by
  unfold Broker.restart at h
  dsimp only at h
  split at h
  · rename_i hq
    cases h
    refine ⟨none, ?_, nofun⟩
    rw [hq]
  · obtain ⟨q', hq', hret⟩ := bind_ok.mp h
    cases hret
    refine ⟨some q', rfl, ?_⟩
    rintro _ ⟨⟩
    exact hq'

theorem Away.restart (h : Away id b) (hb : b.restart lost hidden cfgs ord now clock = .ok b') :
    Away id b' := by
  obtain ⟨q, rfl, hq⟩ := restart_cases hb
  have hlost : (lost.apply b.wal.dir).Spares id := Dir.Only.damage h.dir nofun lost
  have hhidden : (hidden.apply (lost.apply b.wal.dir)).Spares id :=
    Dir.Only.damage hlost nofun hidden
  obtain ⟨hsnap, hlog⟩ := Dir.Only.recovered hhidden fun content => content
  refine ⟨?_, nofun, Dir.Only.openSegment hlost _, nofun, h.handedOut⟩
  intro q' hq'
  refine restart_each (closed_otherThan id) ?_ ?_ ?_ (hq q' hq')
  · exact Queue.Each.foldl_setGroupConfig (.ofEmpty rfl) cfgs
  · intro snap hs gs hgs ms hms loc queue ns
    obtain ⟨content, hcontent, rfl⟩ := hsnap snap hs
    exact hcontent snap rfl gs hgs ms hms
  · intro e he htype queue ns now
    exact hlog e he htype

theorem Stage.restart {fresh fresh' : Prop} (h : Stage id b fresh) (hf : fresh' → fresh)
    (hb : b.restart lost hidden cfgs ord now clock = .ok b') : Stage id b' fresh' := by
  have haway : Away id b → Away id b' := fun h => h.restart hb
  obtain ⟨q, rfl, -⟩ := restart_cases hb
  cases h with
  | absent away ch waiting ended =>
    exact .absent (haway away) rfl nofun fun hfresh => ended (hf hfresh)
  | queued e away ch waiting ended old => exact .absent (haway away) rfl nofun fun _ => ended
  | loose waiting ended old => exact .loose nofun ended fun hfresh => old (hf hfresh)

theorem Stage.step {fresh fresh' : Prop} {s : BrokerStep} (h : Stage id b fresh)
    (hs : b.step s = .ok b') (hf : fresh' → fresh)
    (hused : s.publishID = some id → fresh ∧ ¬fresh') : Stage id b' fresh' := by
  have hnone : ∀ {b' : Broker}, Stage id b' False → ¬fresh' → Stage id b' fresh' :=
    fun hstage hno => hstage.quiet (.ofAway (fun h => h) rfl rfl rfl) hno
  cases s with
  | declareQueue =>
    cases hs
    exact h.quiet
      (.ofAway (fun ha => ⟨ha.declareQueue, ha.confirmed, ha.dir, ha.exported, ha.handedOut⟩)
        rfl rfl rfl) hf
  | publish f msgID sent =>
    cases hs
    by_cases hid : msgID = id
    · subst hid
      obtain ⟨hfresh, hno⟩ := hused rfl
      exact hnone (h.publish hfresh f sent) hno
    · exact h.quiet (.publish f hid sent) hf
  | flush count failure =>
    cases hs
    exact h.flush hf count failure
  | timeout msgID =>
    cases hs
    by_cases hid : msgID = id
    · subst hid
      exact h.timeout hf
    · exact h.quiet (.timeout hid) hf
  | enqueue msgID now => exact h.quiet (.enqueue hs) hf
  | live op records =>
    by_cases hid : op.publishID = some id
    · obtain ⟨hfresh, hno⟩ := hused hid
      exact hnone (h.live hfresh hs) hno
    · refine h.quiet (.live hid ?_ hs) hf
      rw [publishesOf_eq_nil]
      intro e he htype
      obtain ⟨r, -, rfl⟩ := List.mem_map.mp he
      exact absurd htype r.2
  | addGlobalMsgs delta =>
    cases hs
    exact h.quiet (.ofAway (fun ha => ⟨ha.queue, ha.confirmed, ha.dir, ha.exported, ha.handedOut⟩)
      rfl rfl rfl) hf
  | rotate result =>
    cases hs
    exact h.quiet (.ofAway (fun ha =>
      ⟨ha.queue, ha.confirmed, OpenWriter.only_rotateSegment ha.dir result,
        ha.exported, ha.handedOut⟩)
      rfl rfl rfl) hf
  | beginSnapshot =>
    cases hs
    exact h.quiet (.ofAway (fun ha => ⟨ha.queue, ha.confirmed, ha.dir, ha.exported, ha.handedOut⟩)
      rfl rfl rfl) hf
  | exportState =>
    cases hs
    exact h.quiet
      (.ofAway (fun ha => ⟨ha.queue, ha.confirmed, ha.dir, ha.exportState, ha.handedOut⟩)
        rfl rfl rfl) hf
  | writeSnapshot ord now =>
    cases hs
    exact h.quiet (.ofAway (fun ha => ⟨ha.queue, ha.confirmed, ha.writeSnapshot ord now,
      nofun, ha.handedOut⟩)
      rfl rfl rfl) hf
  | removeOldSegments =>
    cases hs
    exact h.quiet (.ofAway (fun ha =>
      ⟨ha.queue, ha.confirmed, OpenWriter.only_removeOldSegments ha.dir, ha.exported,
        ha.handedOut⟩) rfl rfl rfl) hf
  | restart lost hidden cfgs ord now clock => exact h.restart hf hs

end

end Broker

/-- A publish that is answered with an error or backpressure, and of which nothing was written,
leaves no trace: in no run of the broker, with crashes and recoveries, is the message handed out. -/
theorem rejected_publish_leaves_no_trace [PathMatch] {name ns : Bytes} {globalMaxMsgs : Int}
    {steps : List BrokerStep} {b : Broker} (hids : (steps.filterMap BrokerStep.publishID).Nodup)
    (hrun : run Broker.step (Broker.start name ns globalMaxMsgs) steps = .ok b) {id : Bytes}
    {o : PublishOutcome} (hended : (id, o) ∈ b.ended) (hnever : o.NeverWritten) :
    ∀ m ∈ b.handedOut, m.id ≠ id := by
  have hstage := Run.induct
    (motive := fun b l => (l.filterMap BrokerStep.publishID).Nodup ∧
      b.Stage id (id ∈ l.filterMap BrokerStep.publishID))
    ?_ ⟨hids, .absent (.start id name ns globalMaxMsgs) rfl nofun nofun⟩ hrun
  · cases hstage.2 with
    | absent away _ _ _ => exact away.handedOut
    | queued _ _ _ _ ended _ => exact absurd hended (ended o)
    | loose _ ended _ => exact absurd hnever (ended o hended)
  · intro b s l b' ⟨hn, hstage⟩ hs
    rw [List.filterMap_cons] at hn hstage
    cases hp : s.publishID with
    | none =>
      rw [hp] at hn hstage
      exact ⟨hn, hstage.step hs (fun h => h) fun hid => absurd (hp.symm.trans hid) nofun⟩
    | some used =>
      rw [hp] at hn hstage
      obtain ⟨hnot, hn⟩ := List.nodup_cons.mp hn
      refine ⟨hn, hstage.step hs (List.mem_cons_of_mem _) ?_⟩
      intro hid
      cases hp.symm.trans hid
      exact ⟨List.mem_cons_self, hnot⟩

def frameX : PublishFrame := ⟨str "g", str "x"⟩

def crash (cfgs : List GroupConfig) : BrokerStep :=
  .restart .nothing .nothing cfgs .inOrder 9 fun _ => 9

/-- A publish that comes too early, one with a full channel, one whose flush writes nothing, and one
that is accepted and handed out before and after a crash. -/
def rejectedSteps : List BrokerStep :=
  [.publish frameX (str "a") true, .declareQueue, .publish frameX (str "b") false,
    .publish frameX (str "c") true, .flush 1 (some (0, false)),
      .publish frameX (str "d") true, .flush 1 none,
    .enqueue (str "d") 1, .live (.tryDispatchOne (str "g") .inOrder 2) [], crash [],
    .live (.tryDispatchOne (str "g") .inOrder 10) []]

theorem rejected_publish_leaves_no_trace_sample :
    ∃ b, run (@Broker.step literalMatch) (.start (str "q") (str "n") 0) rejectedSteps = .ok b ∧
      b.ended = [(str "a", .queueNotFound), (str "b", .channelFull), (str "c", .flushFailed false),
        (str "d", .accepted)] ∧
      b.handedOut.map Message.id = [str "d", str "d"] ∧ ∀ m ∈ b.handedOut, m.id ≠ str "c" := by
  obtain ⟨b, hb, hended, hout⟩ : ∃ b,
      run (@Broker.step literalMatch) (.start (str "q") (str "n") 0) rejectedSteps = .ok b ∧
      b.ended = [(str "a", .queueNotFound), (str "b", .channelFull), (str "c", .flushFailed false),
        (str "d", .accepted)] ∧ b.handedOut.map Message.id = [str "d", str "d"] :=
    ⟨_, rfl, by decide +kernel, by decide +kernel⟩
  refine ⟨b, hb, hended, hout, ?_⟩
  exact @rejected_publish_leaves_no_trace literalMatch _ _ _ rejectedSteps b (by decide) hb _
    (.flushFailed false) (by rw [hended]; decide) rfl

def limited (maxPending : Int) : GroupConfig :=
  { defaultGroupConfig (str "g") with maxPending := maxPending, parallelism := 2 }

def timeoutSteps : List BrokerStep :=
  [.declareQueue, .publish frameX (str "a") true, .timeout (str "a"), .flush 1 none, crash [],
    .live (.tryDispatchOne (str "g") .inOrder 10) []]

def syncFailedSteps : List BrokerStep :=
  [.declareQueue, .publish frameX (str "a") true, .flush 1 (some (1, false)), crash [],
    .live (.tryDispatchOne (str "g") .inOrder 10) []]

def refusedSteps : List BrokerStep :=
  [.declareQueue, .live (.setGroupConfig (limited 1)) [],
    .publish frameX (str "b") true, .flush 1 none,
    .enqueue (str "b") 1, .publish frameX (str "a") true, .flush 1 none, .enqueue (str "a") 2,
    .live (.setGroupConfig (limited 10)) [], crash [limited 10],
    .live (.tryDispatchOne (str "g") .inOrder 10) [],
    .live (.tryDispatchOne (str "g") .inOrder 11) []]

/-- Three publishes that are answered with error 500 and whose message a consumer gets after a
crash. -/
theorem rejected_publish_is_handed_out :
    (∃ b, run (@Broker.step literalMatch) (.start (str "q") (str "n") 0) timeoutSteps = .ok b ∧
      (str "a", .unconfirmed) ∈ b.ended ∧ str "a" ∈ b.handedOut.map Message.id) ∧
    (∃ b, run (@Broker.step literalMatch) (.start (str "q") (str "n") 0) syncFailedSteps = .ok b ∧
      (str "a", .flushFailed true) ∈ b.ended ∧ str "a" ∈ b.handedOut.map Message.id) ∧
    (∃ b, run (@Broker.step literalMatch) (.start (str "q") (str "n") 0) refusedSteps = .ok b ∧
      (str "a", .refused (.depthLimitExceeded (str "g") 1)) ∈ b.ended ∧
      str "a" ∈ b.handedOut.map Message.id) ∧
    PublishOutcome.unconfirmed.answer (str "q") (str "a") =
      .error 500 (.text (str "internal durability error")) ∧
    (PublishOutcome.flushFailed true).answer (str "q") (str "a") =
      .error 500 (.text (str "internal durability error")) ∧
    (PublishOutcome.refused (.depthLimitExceeded (str "g") 1)).answer (str "q") (str "a") =
      .error 500 (.queue (.depthLimitExceeded (str "g") 1)) :=
  ⟨⟨_, rfl, by decide +kernel, by decide +kernel⟩, ⟨_, rfl, by decide +kernel, by decide +kernel⟩,
    ⟨_, rfl, by decide +kernel, by decide +kernel⟩, rfl, rfl, rfl⟩

end Octar
