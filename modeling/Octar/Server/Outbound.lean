import Octar.Lib.BufferedWriter
import Octar.Lib.Run
import Octar.Protocol.Streams

/-! What a connection sends: the channel, the writer loop and the encoder's buffer in
`server/connection.go` and `protocol/codec.go`. -/

namespace Octar.Server

open Go Protocol

/-- A socket: the bytes it has sent, and the results of the next calls, each a success or a failure
after some bytes. Further calls succeed until the socket is closed. -/
structure Socket where
  sent : Bytes
  closed : Bool
  results : List (Option Nat)

def Socket.write (s : Socket) (p : Bytes) : Socket × Nat × Bool :=
  if s.closed then (s, 0, true)
  else
    match s.results with
    | some n :: results => ({ s with sent := s.sent ++ p.take n, results }, min n p.length, true)
    | none :: results => ({ s with sent := s.sent ++ p, results }, p.length, false)
    | [] => ({ s with sent := s.sent ++ p }, p.length, false)

def socket : Sink Socket where
  write := Socket.write
  taken := Socket.sent
  short := by
    intro s p h
    unfold Socket.write at h ⊢
    split
    · rfl
    · rename_i hclosed
      rw [if_neg hclosed] at h
      split at h
      · rfl
      · exact absurd h (Nat.lt_irrefl _)
      · exact absurd h (Nat.lt_irrefl _)
  taken_write := by
    intro s p
    unfold Socket.write
    split
    · rw [List.take_zero, List.append_nil]
    · split
      · rw [List.take_eq_take_min]
      · rw [List.take_length]
      · rw [List.take_length]

def encode (b : BufferedWriter Socket) (f : Frame) : BufferedWriter Socket :=
  let b := b.write socket (header f.type.toByte f.payload.length)
  if !b.err && 0 < f.payload.length then b.write socket f.payload else b

inductive Writer
  | waiting
  | draining (drained : Nat)
  | flushing
  | stopped
  deriving DecidableEq, Repr

structure Connection where
  outCh : List Frame
  stopCh : Bool
  enc : BufferedWriter Socket
  writer : Writer
  accepted : List Frame

def newConnection : Connection where
  outCh := []
  stopCh := false
  enc := ⟨64 * 1024, ⟨[], false, []⟩, [], false⟩
  writer := .waiting
  accepted := []

namespace Connection

def writeMsg (b : BufferedWriter Socket) : Frame → BufferedWriter Socket
  | .message f => encode b (.message f)
  | .publishOK f => encode b (.publishOK f)
  | .error f => encode b (.error f)
  | .connectErr reason => encode b (.connectErr reason)
  | .connectOK sessionID => encode b (.connectOK sessionID)
  | .backpressure f => encode b (.backpressure f)
  | .heartbeat => encode b .heartbeat
  | .connect _ | .publish _ | .subscribe _ | .ack _ | .nack _ => b

inductive Outbound
  | message (f : MessageFrame)
  | publishOK (f : PublishOKFrame)
  | error (f : ErrorFrame)
  | backpressure (f : BackpressureFrame)
  | heartbeat

def Outbound.frame : Outbound → Frame
  | .message f => .message f
  | .publishOK f => .publishOK f
  | .error f => .error f
  | .backpressure f => .backpressure f
  | .heartbeat => .heartbeat

/-- The steps of the callers, of the writer loop and of `Close`, which closes `stopCh` and then the
socket.  A select takes any of its cases that are ready: `stop` says that it takes the one of
`stopCh`. -/
inductive Event
  | connectOK (sessionID : Bytes)
  | connectErr (reason : Bytes)
  | write (f : Outbound) (stop : Bool)
  | writer (stop : Bool) (results : List (Option Nat))
  | closeStopCh
  | closeConn

inductive Blocked
  | blocked
  deriving DecidableEq, Repr

def put (c : Connection) (f : Frame) : Connection :=
  { c with outCh := c.outCh ++ [f], accepted := c.accepted ++ [f] }

def send (c : Connection) (f : Frame) : Except Blocked Connection :=
  if c.outCh.length < 1024 then .ok (c.put f) else .error .blocked

def write (c : Connection) (f : Outbound) (stop : Bool) : Except Blocked Connection :=
  if c.stopCh && (stop || 1024 ≤ c.outCh.length) then .ok c
  else if c.outCh.length < 1024 then .ok (c.put f.frame)
  else
    match f with
    | .message _ | .backpressure _ => .ok c
    | .publishOK _ | .error _ | .heartbeat => .error .blocked

def take (c : Connection) (f : Frame) (rest : List Frame) (next : Writer) : Connection :=
  { c with outCh := rest, enc := writeMsg c.enc f, writer := next }

def writerStep (c : Connection) (stop : Bool) (results : List (Option Nat)) :
    Except Blocked Connection :=
  let c := { c with enc := { c.enc with sink := { c.enc.sink with results } } }
  match c.writer with
  | .waiting =>
    if c.stopCh && (stop || c.outCh.isEmpty) then .ok { c with writer := .stopped }
    else
      match c.outCh with
      | [] => .error .blocked
      | f :: rest => .ok (c.take f rest (.draining 0))
  | .draining drained =>
    match c.outCh with
    | [] => .ok { c with writer := .flushing }
    | f :: rest =>
      .ok (c.take f rest (if 100 ≤ drained + 1 then .flushing else .draining (drained + 1)))
  | .flushing => .ok { c with enc := c.enc.flush socket, writer := .waiting }
  | .stopped => .error .blocked

def step (c : Connection) : Event → Except Blocked Connection
  | .connectOK sessionID => c.send (.connectOK sessionID)
  | .connectErr reason => c.send (.connectErr reason)
  | .write f stop => c.write f stop
  | .writer stop results => c.writerStep stop results
  | .closeStopCh => .ok { c with stopCh := true }
  | .closeConn => .ok { c with enc := { c.enc with sink := { c.enc.sink with closed := true } } }

theorem encode_carries {b : BufferedWriter Socket} {all : Bytes} (h : b.Carries socket all)
    (f : Frame) :
    (encode b f).Carries socket (all ++ f.write) := by
  have hframe : f.write = header f.type.toByte f.payload.length ++ f.payload := rfl
  have hheader := h.write (header f.type.toByte f.payload.length)
  unfold encode
  dsimp only
  rw [hframe, ← List.append_assoc]
  split
  · exact hheader.write f.payload
  · rename_i hcond
    by_cases herr : (b.write socket (header f.type.toByte f.payload.length)).err = true
    · exact hheader.append_of_err herr f.payload
    · have hempty : f.payload = [] := by
        simp only [herr, Bool.not_false, Bool.true_and, decide_eq_true_eq, Nat.not_lt,
          Nat.le_zero_eq, List.length_eq_zero_iff] at hcond
        exact hcond
      rw [hempty, List.append_nil]
      rw [hempty] at hheader
      exact hheader

def FromBroker (f : Frame) : Prop := f.idents = []

theorem Outbound.fromBroker (f : Outbound) : FromBroker f.frame := by
  cases f <;> rfl

theorem FromBroker.writeMsg {f : Frame} (h : FromBroker f) (b : BufferedWriter Socket) :
    writeMsg b f = encode b f := by
  cases f with
  | connect f | publish f | subscribe f | ack f | nack f => cases h
  | _ => rfl

/-- What has left the channel has been written, in the order of the channel; while the loop waits
nothing is left in the buffer. -/
structure Delivers (c : Connection) : Prop where
  fromBroker : ∀ f ∈ c.accepted, FromBroker f
  written : ∃ written, c.accepted = written ++ c.outCh ∧
    c.enc.Carries socket (written.flatMap Frame.write)
  flushed : c.writer = .waiting → c.enc.err = false → c.enc.buf = []

variable {c c' : Connection}

theorem Delivers.put (h : c.Delivers) {f : Frame} (hf : FromBroker f) : (c.put f).Delivers := by
  obtain ⟨written, haccepted, hcarries⟩ := h.written
  refine ⟨?_, ⟨written, ?_, hcarries⟩, h.flushed⟩
  · intro g hg
    rcases List.mem_append.mp hg with hg | hg
    · exact h.fromBroker g hg
    · rw [List.mem_singleton.mp hg]
      exact hf
  · rw [Connection.put, haccepted, List.append_assoc]

theorem Delivers.send (h : c.Delivers) {f : Frame} (hf : FromBroker f) (hc : c.send f = .ok c') :
    c'.Delivers := by
  unfold Connection.send at hc
  split at hc
  · cases hc
    exact h.put hf
  · cases hc

theorem Delivers.write (h : c.Delivers) {f : Outbound} {stop : Bool}
    (hc : c.write f stop = .ok c') : c'.Delivers := by
  unfold Connection.write at hc
  split at hc
  · cases hc
    exact h
  · split at hc
    · cases hc
      exact h.put f.fromBroker
    · cases f <;> cases hc <;> exact h

theorem Delivers.take (h : c.Delivers) {f : Frame} {rest : List Frame} (hout : c.outCh = f :: rest)
    {next : Writer} (hnext : next ≠ .waiting) : (c.take f rest next).Delivers := by
  obtain ⟨written, haccepted, hcarries⟩ := h.written
  rw [hout] at haccepted
  have hf : FromBroker f := h.fromBroker f (haccepted ▸ List.mem_append_right _ List.mem_cons_self)
  refine ⟨h.fromBroker, ⟨written ++ [f], ?_, ?_⟩, fun hwait => absurd hwait hnext⟩
  · rw [Connection.take, haccepted, List.append_assoc]
    rfl
  · rw [Connection.take, hf.writeMsg, List.flatMap_append, List.flatMap_singleton]
    exact encode_carries hcarries f

theorem Delivers.writerStep (h : c.Delivers) {stop : Bool} {results : List (Option Nat)}
    (hc : c.writerStep stop results = .ok c') : c'.Delivers := by
  have hready : Delivers { c with enc := { c.enc with sink := { c.enc.sink with results } } } := by
    obtain ⟨written, haccepted, hcarries⟩ := h.written
    exact ⟨h.fromBroker, ⟨written, haccepted, hcarries.taken, hcarries.content⟩, h.flushed⟩
  unfold Connection.writerStep at hc
  generalize { c with enc := { c.enc with sink := { c.enc.sink with results } } } = d at hready hc
  dsimp only at hc
  split at hc
  · split at hc
    · cases hc
      exact ⟨hready.fromBroker, hready.written, fun hwait => nomatch hwait⟩
    · split at hc
      · cases hc
      · rename_i f rest hout
        cases hc
        exact hready.take hout (by simp)
  · split at hc
    · cases hc
      exact ⟨hready.fromBroker, hready.written, fun hwait => nomatch hwait⟩
    · rename_i drained _ f rest hout
      cases hc
      exact hready.take hout (by split <;> simp)
  · cases hc
    obtain ⟨written, haccepted, hcarries⟩ := hready.written
    exact ⟨hready.fromBroker, ⟨written, haccepted, hcarries.flush⟩,
      fun _ => BufferedWriter.buf_flush⟩
  · cases hc

theorem Delivers.step (h : c.Delivers) {e : Event} (hc : c.step e = .ok c') : c'.Delivers := by
  cases e with
  | connectOK sessionID => exact h.send (f := .connectOK sessionID) rfl hc
  | connectErr reason => exact h.send (f := .connectErr reason) rfl hc
  | write f stop => exact h.write hc
  | writer stop results => exact h.writerStep hc
  | closeStopCh =>
    cases hc
    exact ⟨h.fromBroker, h.written, h.flushed⟩
  | closeConn =>
    cases hc
    obtain ⟨written, haccepted, hcarries⟩ := h.written
    exact ⟨h.fromBroker, ⟨written, haccepted, hcarries.taken, hcarries.content⟩, h.flushed⟩

theorem delivers_new : newConnection.Delivers :=
  ⟨fun _ hf => (nomatch hf), ⟨[], rfl, List.prefix_refl _, fun _ => rfl⟩, fun _ _ => rfl⟩

end Connection

theorem readFrame_append {buf bs buf' rest : Bytes} {ft : FrameType} {f : Frame}
    (h : readFrame buf bs = .ok (((ft, f), buf'), rest)) (more : Bytes) :
    ∃ buf', readFrame buf (bs ++ more) = .ok (((ft, f), buf'), rest ++ more) := by
  obtain ⟨t, payload, rfl, hlen, hdecode⟩ := readFrame_ok h
  have hassoc : header t payload.length ++ (payload ++ rest) ++ more =
      header t payload.length ++ (payload ++ (rest ++ more)) := by
    simp only [List.append_assoc]
  rw [hassoc, readFrame_header hlen, hdecode]
  exact ⟨_, rfl⟩

theorem readFrame_part {buf bs more : Bytes} {err : ReadError}
    (h : readFrame buf (bs ++ more) = .error err) : ∃ err, readFrame buf bs = .error err := by
  cases hread : readFrame buf bs with
  | error err => exact ⟨err, rfl⟩
  | ok x =>
    obtain ⟨⟨⟨ft, g⟩, buf'⟩, rest⟩ := x
    obtain ⟨buf'', happend⟩ := readFrame_append hread more
    rw [h] at happend
    cases happend

theorem readFrame_strict_part {f : Frame} (hf : f.Encodable) {bs more : Bytes}
    (h : bs ++ more = f.write) (hmore : more ≠ []) (buf : Bytes) :
    ∃ err, readFrame buf bs = .error err := by
  cases hread : readFrame buf bs with
  | error err => exact ⟨err, rfl⟩
  | ok x =>
    obtain ⟨⟨⟨ft, g⟩, buf₁⟩, rest⟩ := x
    obtain ⟨buf₂, happend⟩ := readFrame_append hread more
    obtain ⟨buf₃, hwhole⟩ := hf.readFrame buf []
    rw [List.append_nil, ← h, happend] at hwhole
    have hrest : rest ++ more = [] := congrArg Prod.snd (Except.ok.inj hwhole)
    exact absurd (List.append_eq_nil_iff.mp hrest).2 hmore

structure FitsPrefixes (f : Frame) : Prop where
  strings : ∀ s, .bytes 2 s ∈ f.fields → s.length ≤ 65535
  payload : f.payload.length < 2 ^ 32

theorem readFrames_of_part {fs : List Frame} (hfs : ∀ f ∈ fs, FitsPrefixes f ∧ f.idents = [])
    {bs : Bytes} (h : bs <+: fs.flatMap Frame.write) (buf : Bytes) :
    ∃ k rest, k ≤ fs.length ∧
      readFrames k buf bs = .ok ((fs.take k).map fun f => (f.type, f), rest) ∧
      ∀ buf', ∃ err, readFrame buf' rest = .error err := by
  have hnil : ∀ buf', ∃ err, readFrame buf' [] = .error err := fun _ => ⟨_, rfl⟩
  induction fs generalizing bs buf with
  | nil => exact ⟨0, bs, Nat.le_refl _, rfl, List.prefix_nil.mp h ▸ hnil⟩
  | cons f fs ih =>
    rw [List.forall_mem_cons] at hfs
    obtain ⟨⟨hfits, hidents⟩, hfs⟩ := hfs
    rw [List.flatMap_cons] at h
    by_cases hsize : maxPayloadSize < f.payload.length
    -- the client refuses the frame by its header and reads no further
    · refine ⟨0, bs, Nat.zero_le _, rfl, fun buf' => ?_⟩
      obtain ⟨more, hmore⟩ := h
      obtain ⟨err, herr⟩ :=
        readFrame_tooLarge f.type hsize hfits.payload buf' (fs.flatMap Frame.write)
      rw [← Frame.write, ← hmore] at herr
      exact readFrame_part herr
    have hf : f.Encodable :=
      ⟨hfits.strings, Nat.not_lt.mp hsize, by rw [hidents]; intro s hs; cases hs⟩
    by_cases hwhole : f.write <+: bs
    · obtain ⟨bs', rfl⟩ := hwhole
      obtain ⟨buf', hread⟩ := hf.readFrame buf bs'
      obtain ⟨k, rest, hk, hframes, hrest⟩ := ih hfs ((List.prefix_append_right_inj _).mp h) buf'
      refine ⟨k + 1, rest, Nat.succ_le_succ hk, ?_, hrest⟩
      exact bind_ok.mpr ⟨_, hread, bind_ok.mpr ⟨_, hframes, rfl⟩⟩
    · have hpart :=
        (List.prefix_or_prefix_of_prefix h (List.prefix_append _ _)).resolve_right hwhole
      obtain ⟨more, hmore⟩ := hpart
      have hne : more ≠ [] := by
        rintro rfl
        rw [List.append_nil] at hmore
        exact hwhole (hmore ▸ List.prefix_refl _)
      exact ⟨0, bs, Nat.zero_le _, rfl, readFrame_strict_part hf hmore hne⟩

/-- Whatever the callers, the writer loop, the network and `Close` do, and in whatever order: a
client reads the frames that were accepted, in that order, up to some point, and nothing else.  Once
the loop waits again with an empty channel, and no call of the socket has failed, all of them have
been sent. -/
theorem accepted_frames_arrive {c : Connection}
    (h : Reachable Connection.step (fun _ _ => True) newConnection c)
    (hframes : ∀ f ∈ c.accepted, FitsPrefixes f) :
    (∀ buf, ∃ k rest, k ≤ c.accepted.length ∧
      readFrames k buf c.enc.sink.sent = .ok ((c.accepted.take k).map fun f => (f.type, f), rest) ∧
      ∀ buf', ∃ err, readFrame buf' rest = .error err) ∧
      (c.writer = .waiting → c.outCh = [] → c.enc.err = false →
        c.enc.sink.sent = c.accepted.flatMap Frame.write) := by
  have hdelivers : c.Delivers :=
    h.invariant Connection.delivers_new fun _ _ _ hd _ hc => hd.step hc
  obtain ⟨written, haccepted, hcarries⟩ := hdelivers.written
  constructor
  · intro buf
    refine readFrames_of_part (fun f hf => ⟨hframes f hf, hdelivers.fromBroker f hf⟩) ?_ buf
    rw [haccepted, List.flatMap_append]
    exact hcarries.taken.trans (List.prefix_append _ _)
  · intro hwait hempty herr
    have hcontent := hcarries.content herr
    rw [BufferedWriter.content, hdelivers.flushed hwait herr, List.append_nil] at hcontent
    rw [haccepted, hempty, List.append_nil]
    exact hcontent

def loginAndMessage : List Connection.Event :=
  [.connectOK (str "s1"), .write (.message ⟨str "m1", str "q", str "g", [1, 2], 1⟩) false,
    .writer false [], .writer false [], .writer false [], .writer false []]

theorem accepted_frames_arrive_sample :
    let fs : List Frame :=
      [.connectOK (str "s1"), .message ⟨str "m1", str "q", str "g", [1, 2], 1⟩]
    ∃ c, Reachable Connection.step (fun _ _ => True) newConnection c ∧ c.accepted = fs ∧
      c.enc.sink.sent = fs.flatMap Frame.write ∧
      ∃ k rest, k ≤ 2 ∧
        readFrames k [] c.enc.sink.sent = .ok ((fs.take k).map fun f => (f.type, f), rest) ∧
        ∀ buf', ∃ err, readFrame buf' rest = .error err := by
  intro fs
  have htrace : (run Connection.step newConnection loginAndMessage).toOption.any (fun c =>
      c.accepted = fs ∧ c.writer = .waiting ∧ c.outCh = [] ∧ c.enc.err = false) = true := by
    decide
  obtain ⟨c, hrun, haccepted, hwait, hempty, herr⟩ := exists_ok htrace
  have hreach := Reachable.start.run (fun _ _ _ => trivial) hrun
  have hframes : ∀ f ∈ c.accepted, FitsPrefixes f := by
    rw [haccepted]
    intro f hf
    simp only [fs, List.mem_cons, List.not_mem_nil, or_false] at hf
    rcases hf with rfl | rfl
    · exact ⟨by simp [Frame.fields, strField, str], by decide⟩
    · exact ⟨by simp [Frame.fields, strField, blobField, i32Field, u32Field, str], by decide⟩
  obtain ⟨hread, hsent⟩ := accepted_frames_arrive hreach hframes
  obtain ⟨k, rest, hk, hframes, hrest⟩ := hread []
  rw [haccepted] at hk hframes hsent
  exact ⟨c, hreach, haccepted, hsent hwait hempty herr, k, rest, hk, hframes, hrest⟩

end Octar.Server
