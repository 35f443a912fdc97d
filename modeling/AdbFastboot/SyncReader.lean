import AdbFastboot.AdbLink
import AdbFastboot.SyncFormat

namespace AdbFastboot

open DeviceFrame StateCall Link List Outbox

section

variable {σ : Type}

/-- A state gives out a stream: each read takes its bytes off the front. -/
def Delivers (read : Nat → StateCall σ LinkStop Bytes) (holds : σ → Bytes → Prop) : Prop :=
  ∀ {s : σ} {stream : Bytes} {n : Nat}, holds s stream → n ≤ stream.length →
    ∃ s', (read n).runOn s = (.ok (stream.take n), s') ∧ holds s' (stream.drop n)

variable {read : Nat → StateCall σ LinkStop Bytes} {holds : σ → Bytes → Prop}

/-- A reader that delivers reads exactly what it is asked for. -/
theorem Delivers.read_append (h : Delivers read holds) {s : σ} {front back : Bytes} {n : Nat}
    (hs : holds s (front ++ back)) (hn : front.length = n) :
    ∃ s', (read n).runOn s = (.ok front, s') ∧ holds s' back := by
  obtain ⟨s', hr, hs'⟩ := h hs (show n ≤ (front ++ back).length by simp [← hn])
  rw [take_left' hn] at hr
  rw [drop_left' hn] at hs'
  exact ⟨s', hr, hs'⟩

theorem Delivers.before (h : Delivers read holds) (more : Bytes) :
    Delivers read fun s stream => holds s (stream ++ more) := by
  intro s stream n hs hn
  obtain ⟨s', hr, hs'⟩ := h hs (show n ≤ (stream ++ more).length by
    rw [length_append]; omega)
  rw [take_append_of_le_length hn] at hr
  rw [drop_append_of_le_length hn] at hs'
  exact ⟨s', hr, hs'⟩

/-- A request that is answered: it is taken, the reply can be read, and a state whose reply was read
to its end is as `after` says. -/
def Answers (read : Nat → StateCall σ LinkStop Bytes)
    (request : Bytes → StateCall σ LinkStop Unit) (before after : σ → Prop)
    (req reply : Bytes) : Prop :=
  ∃ holds : σ → Bytes → Prop, Delivers read holds ∧
    (∀ s, before s → ∃ s', (request req).runOn s = (.ok (), s') ∧ holds s' reply) ∧
    ∀ s, holds s [] → after s

end

/-- A socket to a server that passes the bytes of the device on. -/
structure Socket where
  incoming : Bytes
  outgoing : Bytes
  /-- How a read ends that asks for more than is left. -/
  atEnd : LinkStop

namespace Socket

abbrev Call (α : Type) := StateCall Socket LinkStop α

def readExact (n : Nat) : Call Bytes := ofRun fun s =>
  if n ≤ s.incoming.length then
    (.ok (s.incoming.take n), { s with incoming := s.incoming.drop n })
  else (.error s.atEnd, { s with incoming := [] })

def writeRawSync (data : Bytes) : Call Unit := ofRun fun s =>
  (.ok (), { s with outgoing := s.outgoing ++ data })

@[simp] theorem runOn_writeRawSync (data : Bytes) (s : Socket) :
    (writeRawSync data).runOn s = (.ok (), { s with outgoing := s.outgoing ++ data }) := rfl

/-- The bytes to come, on a socket that so much was written to. -/
def Holds (outgoing : Bytes) (s : Socket) (stream : Bytes) : Prop :=
  s.incoming = stream ∧ s.outgoing = outgoing

theorem delivers (outgoing : Bytes) : Delivers readExact (Holds outgoing) := by
  rintro s stream n ⟨hi, ho⟩ hn
  refine ⟨{ s with incoming := s.incoming.drop n }, ?_, by rw [← hi], ho⟩
  rw [readExact, runOn_ofRun, if_pos (by rw [hi]; exact hn), hi]

theorem answers (outgoing req reply more : Bytes) :
    Answers readExact writeRawSync (fun s => Holds outgoing s (reply ++ more))
      (fun s => Holds (outgoing ++ req) s more) req reply := by
  refine ⟨_, Delivers.before (delivers (outgoing ++ req)) more, ?_, ?_⟩
  · rintro s ⟨hi, ho⟩
    exact ⟨_, runOn_writeRawSync req s, hi, congrArg (· ++ req) ho⟩
  · intro s hs
    exact hs

end Socket

/-- The bytes that a reader has received, and how many of them it has given out. -/
structure SyncBuffer where
  pending : Bytes
  position : Nat
  position_le : position ≤ pending.length

namespace SyncBuffer

def empty : SyncBuffer := ⟨[], 0, Nat.le_refl 0⟩

def left (b : SyncBuffer) : Bytes := b.pending.drop b.position

def advance (b : SyncBuffer) (n : Nat) (h : n ≤ b.left.length) : SyncBuffer where
  pending := b.pending
  position := b.position + n
  position_le := by
    have hle := b.position_le
    rw [left, length_drop] at h
    omega

def drained (b : SyncBuffer) : SyncBuffer := ⟨b.pending, b.pending.length, Nat.le_refl _⟩

def extend (b : SyncBuffer) (payload : Bytes) : SyncBuffer where
  pending := b.pending ++ payload
  position := b.position
  position_le := by
    rw [length_append]
    exact Nat.le_trans b.position_le (Nat.le_add_right _ _)

variable (b : SyncBuffer)

theorem advance_left {n : Nat} (h : n ≤ b.left.length) : (b.advance n h).left = b.left.drop n := by
  rw [left, left, drop_drop]
  rfl

@[simp] theorem drained_left : b.drained.left = [] := by
  simp [left, drained]

theorem extend_left (payload : Bytes) : (b.extend payload).left = b.left ++ payload := by
  exact drop_append_of_le_length b.position_le

theorem left_eq_nil {b : SyncBuffer} : b.left = [] ↔ b.position = b.pending.length := by
  have hle := b.position_le
  rw [left, drop_eq_nil_iff]
  omega

/-- What `receive` does with a message: the buffer after it, and the command it was. -/
def receive (ids : StreamIds) (b : SyncBuffer) (p : AdbPacket) : SendCall (SyncBuffer × UInt32) :=
  if (p.header.arg0, p.header.arg1) ≠ (ids.remoteId, ids.localId) then
    throw (.failed "Wrong ADB stream ids on direct SYNC channel".toList)
  else if p.header.command = aWrte then do
    Outbox.send (AdbPacket.new aOkay ids.localId p.header.arg0 [])
    let b := if b.position = b.pending.length then empty else b
    if maxPayloadV2.toNat < b.pending.length + p.payload.length then
      throw (.failed "Too much buffered direct SYNC response data".toList)
    else pure (b.extend p.payload, aWrte)
  else if p.header.command = aOkay then pure (b, aOkay)
  else if p.header.command = aClse then do
    Outbox.send (AdbPacket.new aClse ids.localId p.header.arg0 [])
    throw (.failed "Sync connection closed prematurely".toList)
  else throw (.failed "Unexpected ADB command on direct SYNC channel".toList)

variable {ids : StreamIds} {b : SyncBuffer} {out : Outbox}

theorem receive_okay : (b.receive ids (okay.packet ids)).runOn out = (.ok (b, aOkay), out) := by
  have hi : ¬((okay.packet ids).header.arg0, (okay.packet ids).header.arg1)
      ≠ (ids.remoteId, ids.localId) := not_not.mpr rfl
  have hc : (okay.packet ids).header.command = aOkay := rfl
  rw [receive, if_neg hi]
  rfl

/-- A payload that fits is buffered and acknowledged. -/
theorem receive_wrte (ids : StreamIds) (b : SyncBuffer) (ho : out.Works) (payload : Bytes)
    (hr : (if b.left = [] then 0 else b.pending.length) + payload.length ≤ maxPayloadV2.toNat) :
    ∃ b' : SyncBuffer, (b.receive ids ((wrte payload).packet ids)).runOn out
        = (.ok (b', aWrte), ⟨[], out.sent ++ [ids.ack]⟩) ∧
      b'.left = b.left ++ payload ∧
      (b.position = 0 ∨ b.left = [] → b'.position = 0 ∧ b'.pending = b.left ++ payload) := by
  set start : SyncBuffer := if b.position = b.pending.length then empty else b with hs
  have hl : start.left = b.left := by
    rw [hs]
    split
    next h => exact (left_eq_nil.mpr h).symm
    next => rfl
  have hp : start.pending.length = if b.left = [] then 0 else b.pending.length := by
    rw [hs]
    simp only [left_eq_nil]
    split <;> rfl
  refine ⟨start.extend payload, ?_, by rw [extend_left, hl], ?_⟩
  · have hi : ¬(((wrte payload).packet ids).header.arg0,
        ((wrte payload).packet ids).header.arg1) ≠ (ids.remoteId, ids.localId) :=
      not_not.mpr rfl
    rw [receive, if_neg hi,
      if_pos (show ((wrte payload).packet ids).header.command = aWrte from rfl),
      runOn_bind_ok (send_works ho _)]
    rw [if_neg (by rw [hp]; exact Nat.not_lt.mpr hr)]
    rfl
  · intro h
    have hz : start.position = 0 := by
      rw [hs]
      split
      next => rfl
      next hne => exact h.resolve_right fun hn => hne (left_eq_nil.mp hn)
    have ha : start.pending = b.left := by
      rw [← hl, left, hz, drop_zero]
    exact ⟨hz, congrArg (· ++ payload) ha⟩

end SyncBuffer

structure DirectSyncReader where
  buffer : SyncBuffer
  link : Link

namespace DirectSyncReader

abbrev Call (α : Type) := StateCall DirectSyncReader LinkStop α

def new (link : Link) : DirectSyncReader := ⟨.empty, link⟩

def onLink {α : Type} (x : LinkCall (α × SyncBuffer)) : Call α := ofRun fun r =>
  match x.runOn r.link with
  | (.ok (a, buffer), link) => (.ok a, ⟨buffer, link⟩)
  | (.error e, link) => (.error e, { r with link := link })

def requestTurn (ids : StreamIds) (b : SyncBuffer) (p : AdbPacket) :
    SendCall (LoopTurn SyncBuffer (Unit × SyncBuffer)) := do
  let (b, command) ← b.receive ids p
  pure (if command = aOkay then .done ((), b) else .next b)

def sendRequest (ids : StreamIds) (request : Bytes) : Call Unit := ofRun fun r =>
  (onLink (do
    sending (Outbox.send (AdbPacket.new aWrte ids.localId ids.remoteId request))
    loop (fun e => e) (requestTurn ids) r.buffer)).runOn r

def copyOut (b : SyncBuffer) (output : Bytes) (need : Nat) :
    LoopTurn (SyncBuffer × Bytes × Nat) (Bytes × SyncBuffer) :=
  if h : need ≤ b.left.length then .done (output ++ b.left.take need, b.advance need h)
  else .next (b.drained, output ++ b.left, need - b.left.length)

/-- One message of `read_exact`; before it, nothing is left in the buffer. -/
def readTurn (ids : StreamIds) (st : SyncBuffer × Bytes × Nat) (p : AdbPacket) :
    SendCall (LoopTurn (SyncBuffer × Bytes × Nat) (Bytes × SyncBuffer)) := do
  let received ← st.1.receive ids p
  pure (copyOut received.1 st.2.1 st.2.2)

def readExact (ids : StreamIds) (n : Nat) : Call Bytes := ofRun fun r =>
  if h : n ≤ r.buffer.left.length then
    (.ok (r.buffer.left.take n), { r with buffer := r.buffer.advance n h })
  else
    (onLink (loop (fun e => e) (readTurn ids)
      (r.buffer.drained, r.buffer.left, n - r.buffer.left.length))).runOn r

section

variable (ids : StreamIds) (rest : List (Except Text AdbPacket)) {early : List DeviceFrame}
  {b : SyncBuffer} {out : Outbox}

theorem requestLoop_early (he : acks early = 0)
    (back : List (Except Text AdbPacket)) (ho : out.Works) (hb : b.position = 0 ∨ b.left = [])
    (hrm : b.left.length + (bytes early).length ≤ maxPayloadV2.toNat) :
    ∃ b' : SyncBuffer, loopFrom (fun e => e) (requestTurn ids) b (inbox ids early ++ back) out
        = loopFrom (fun e => e) (requestTurn ids) b' back
            ⟨[], out.sent ++ replicate (DeviceFrame.wrtes early) ids.ack⟩ ∧
      b'.left = b.left ++ bytes early := by
  induction early generalizing b out with
  | nil =>
    obtain ⟨faults, sent⟩ := out
    cases ho
    refine ⟨b, ?_, by simp⟩
    simp
  | cons frame early ih =>
    cases frame with
    | okay => simp at he
    | wrte payload =>
      have hlen : (bytes (.wrte payload :: early)).length = payload.length + (bytes early).length := by
        simp [DeviceFrame.payload]
      have hp : (if b.left = [] then 0 else b.pending.length) = b.left.length := by
        split
        next hn => rw [hn]; rfl
        next hne =>
          rw [SyncBuffer.left, hb.resolve_right hne, drop_zero]
      obtain ⟨b1, hr, hl, hk⟩ := SyncBuffer.receive_wrte ids b ho payload (by rw [hp]; omega)
      have ho1 : Outbox.Works ⟨[], out.sent ++ [ids.ack]⟩ := rfl
      obtain ⟨b', hlp, hb'⟩ := ih he ho1 (.inl (hk hb).1) (by rw [hl, length_append]; omega)
      refine ⟨b', ?_, ?_⟩
      · have ht : (requestTurn ids b ((DeviceFrame.wrte payload).packet ids)).runOn out
            = (.ok (.next b1), ⟨[], out.sent ++ [ids.ack]⟩) := by
          rw [requestTurn, runOn_bind_ok hr]
          rfl
        simp only [inbox_cons, cons_append, loopFrom, ht]
        rw [hlp, wrtes_wrte, append_assoc]
        rfl
      · rw [hb', hl, append_assoc]
        rfl

/-- A request keeps what comes before its acknowledgement. -/
theorem requestLoop_run (he : acks early = 0) (late : List DeviceFrame)
    (ho : out.Works) (hb : b.position = 0 ∨ b.left = [])
    (hr : b.left.length + (bytes early).length ≤ maxPayloadV2.toNat) :
    ∃ b' : SyncBuffer, loopFrom (fun e => e) (requestTurn ids) b
          (inbox ids (early ++ .okay :: late) ++ rest) out
        = (.ok ((), b'), ⟨inbox ids late ++ rest, ⟨[], out.sent ++ replicate (DeviceFrame.wrtes early) ids.ack⟩⟩) ∧
      b'.left = b.left ++ bytes early := by
  obtain ⟨b', hl, hb'⟩ := requestLoop_early ids he (inbox ids (.okay :: late) ++ rest) ho hb hr
  refine ⟨b', ?_, hb'⟩
  have ht (out : Outbox) : (requestTurn ids b' (okay.packet ids)).runOn out
      = (.ok (.done ((), b')), out) := by
    rw [requestTurn, runOn_bind_ok SyncBuffer.receive_okay]
    rfl
  rw [inbox_append, append_assoc, hl]
  simp [inbox_cons, loopFrom, ht]

variable {r : DirectSyncReader}

theorem sendRequest_eq (ho : r.link.out.Works) (request : Bytes) :
    (sendRequest ids request).runOn r = match loopFrom (fun e => e) (requestTurn ids) r.buffer r.link.inbox
          ⟨[], r.link.out.sent ++ [AdbPacket.new aWrte ids.localId ids.remoteId request]⟩ with
        | (.ok (_, b), link) => (.ok (), ⟨b, link⟩)
        | (.error e, link) => (.error e, ⟨r.buffer, link⟩) := by
  have hs : (sending (send (AdbPacket.new aWrte ids.localId ids.remoteId request))).runOn r.link
      = (.ok (), ⟨r.link.inbox,
        ⟨[], r.link.out.sent ++ [AdbPacket.new aWrte ids.localId ids.remoteId request]⟩⟩) := by
    rw [sending, runOn_ofRun, send_works ho]
  rw [sendRequest, runOn_ofRun, onLink, runOn_ofRun, runOn_bind_ok hs, loop, runOn_ofRun]
  rcases loopFrom (fun e => e) (requestTurn ids) r.buffer r.link.inbox
    ⟨[], r.link.out.sent ++ [AdbPacket.new aWrte ids.localId ids.remoteId request]⟩ with ⟨res, link⟩
  cases res <;> rfl

theorem sendRequest_run {late : List DeviceFrame} (he : acks early = 0)
    (ho : r.link.out.Works) (hl : r.buffer.left = [])
    (hr : (bytes early).length ≤ maxPayloadV2.toNat)
    (hi : r.link.inbox = inbox ids (early ++ .okay :: late) ++ rest) (request : Bytes) :
    ∃ b' : SyncBuffer, b'.left = bytes early ∧
      (sendRequest ids request).runOn r = (.ok (), ⟨b', inbox ids late ++ rest,
            ⟨[], r.link.out.sent ++ AdbPacket.new aWrte ids.localId ids.remoteId request
              :: replicate (DeviceFrame.wrtes early) ids.ack⟩⟩) := by
  have ho1 : Outbox.Works
      ⟨[], r.link.out.sent ++ [AdbPacket.new aWrte ids.localId ids.remoteId request]⟩ := rfl
  obtain ⟨b', hlp, hb'⟩ := requestLoop_run ids rest he late ho1 (.inr hl)
    (by rw [hl]; simpa using hr)
  refine ⟨b', by rw [hb', hl, nil_append], ?_⟩
  rw [sendRequest_eq ids ho, hi, hlp]
  simp

variable {frames : List DeviceFrame}

/-- Reading takes payloads until it has enough, and keeps the rest. -/
theorem readLoop_run
    (hs : ∀ frame ∈ frames, frame.payload.length ≤ maxPayloadV2.toNat) (ho : out.Works)
    (hl : b.left = []) {need : Nat} (hp : 0 < need)
    (hn : need ≤ (bytes frames).length) (output : Bytes) :
    ∃ (b' : SyncBuffer) (past later : List DeviceFrame), frames = past ++ later ∧
      loopFrom (fun e => e) (readTurn ids) (b, output, need) (inbox ids frames ++ rest) out
        = (.ok (output ++ (bytes frames).take need, b'),
            ⟨inbox ids later ++ rest, ⟨[], out.sent ++ replicate (DeviceFrame.wrtes past) ids.ack⟩⟩) ∧
      b'.left ++ bytes later = (bytes frames).drop need := by
  induction frames generalizing b out need output with
  | nil => simp at hn; omega
  | cons frame frames ih =>
    rw [forall_mem_cons] at hs
    cases frame with
    | okay =>
      have ht : (readTurn ids (b, output, need) (DeviceFrame.okay.packet ids)).runOn out
          = (.ok (.next (b.drained, output, need)), out) := by
        rw [readTurn, runOn_bind_ok SyncBuffer.receive_okay, runOn_pure, copyOut,
          dif_neg (by rw [hl]; exact Nat.not_le.mpr hp), hl, append_nil,
          length_nil, Nat.sub_zero]
      obtain ⟨b', past, later, hf, hlp, hb'⟩ :=
        ih hs.2 (b := b.drained) ho b.drained_left hp hn output
      refine ⟨b', .okay :: past, later, by rw [hf]; rfl, ?_, hb'⟩
      simp only [inbox_cons, cons_append, loopFrom, ht]
      rw [hlp]
      rfl
    | wrte payload =>
      obtain ⟨b1, hr, hl1, -⟩ := SyncBuffer.receive_wrte ids b ho payload
        (by rw [if_pos hl, Nat.zero_add]; exact hs.1)
      rw [hl, nil_append] at hl1
      by_cases hls : need ≤ payload.length
      · have hls1 : need ≤ b1.left.length := by rw [hl1]; exact hls
        have ht : (readTurn ids (b, output, need) ((DeviceFrame.wrte payload).packet ids)).runOn
            out = (.ok (.done (output ++ payload.take need, b1.advance need hls1)),
              ⟨[], out.sent ++ [ids.ack]⟩) := by
          rw [readTurn, runOn_bind_ok hr, runOn_pure, copyOut, dif_pos, hl1]
        refine ⟨b1.advance need hls1, [.wrte payload], frames, rfl, ?_, ?_⟩
        · simp only [inbox_cons, cons_append, loopFrom, ht]
          rw [bytes_cons, DeviceFrame.payload, take_append_of_le_length hls]
          rfl
        · rw [SyncBuffer.advance_left, hl1, bytes_cons, DeviceFrame.payload,
            drop_append_of_le_length hls]
      · have hm1 : ¬need ≤ b1.left.length := by rw [hl1]; exact hls
        have ht : (readTurn ids (b, output, need) ((DeviceFrame.wrte payload).packet ids)).runOn
            out = (.ok (.next (b1.drained, output ++ payload, need - payload.length)),
              ⟨[], out.sent ++ [ids.ack]⟩) := by
          rw [readTurn, runOn_bind_ok hr, runOn_pure, copyOut, dif_neg hm1, hl1]
        have hlen : (bytes (.wrte payload :: frames)).length = payload.length + (bytes frames).length := by
          simp [DeviceFrame.payload]
        have ho1 : Outbox.Works ⟨[], out.sent ++ [ids.ack]⟩ := rfl
        have hp1 : 0 < need - payload.length := by omega
        obtain ⟨b', past, later, hf, hlp, hb'⟩ :=
          ih hs.2 ho1 b1.drained_left hp1 (by omega) (output ++ payload)
        have hov : payload.length ≤ need := by omega
        refine ⟨b', .wrte payload :: past, later, by rw [hf]; rfl, ?_, ?_⟩
        · simp only [inbox_cons, cons_append, loopFrom, ht]
          rw [hlp, wrtes_wrte, replicate_succ, bytes_cons,
            DeviceFrame.payload, take_append, take_of_length_le hov]
          simp [append_assoc]
        · rw [hb', bytes_cons, DeviceFrame.payload, drop_append, drop_eq_nil_of_le hov, nil_append]

/-- The bytes that a reader still gives out, of the frames of a reply: what its buffer has left and
what the frames to come carry. Each payload that came was acknowledged. -/
structure Holds (ids : StreamIds) (rest : List (Except Text AdbPacket)) (sent : List AdbPacket)
    (frames : List DeviceFrame) (r : DirectSyncReader) (stream : Bytes) : Prop where
  split : ∃ past later, frames = past ++ later ∧
    r.link = ⟨inbox ids later ++ rest,
      ⟨[], sent ++ replicate (DeviceFrame.wrtes past) ids.ack⟩⟩ ∧
    r.buffer.left ++ bytes later = stream

theorem delivers {sent : List AdbPacket}
    (hsz : ∀ frame ∈ frames, frame.payload.length ≤ maxPayloadV2.toNat) :
    Delivers (readExact ids) (Holds ids rest sent frames) := by
  rintro ⟨b, link⟩ stream n ⟨past, later, hfm, hln, hs⟩ hn
  cases hln
  simp only at hs
  by_cases hl : n ≤ b.left.length
  · refine ⟨⟨b.advance n hl, _⟩, ?_, ⟨past, later, hfm, rfl, ?_⟩⟩
    · rw [readExact, runOn_ofRun, dif_pos, ← hs, take_append_of_le_length hl]
    · rw [SyncBuffer.advance_left, ← hs, drop_append_of_le_length hl]
  have hlen := congrArg length hs
  rw [length_append] at hlen
  have ho : b.left.length ≤ n := by omega
  have hsz' : ∀ frame ∈ later, frame.payload.length ≤ maxPayloadV2.toNat := fun frame hf =>
    hsz frame (hfm ▸ mem_append_right past hf)
  have hout : Outbox.Works ⟨[], sent ++ replicate (DeviceFrame.wrtes past) ids.ack⟩ := rfl
  have hp : 0 < n - b.left.length := by omega
  obtain ⟨b', between, later', hla, hlp, hb'⟩ :=
    readLoop_run ids rest hsz' hout b.drained_left hp (by omega) b.left
  refine ⟨⟨b', _⟩, ?_, ⟨past ++ between, later', ?_, rfl, ?_⟩⟩
  · rw [readExact, runOn_ofRun, dif_neg hl, onLink, runOn_ofRun, loop,
      runOn_ofRun, hlp, ← hs, take_append, take_of_length_le ho,
      wrtes_append, replicate_add, append_assoc]
  · rw [hfm, hla, append_assoc]
  · rw [hb', ← hs, drop_append, drop_eq_nil_of_le ho, nil_append]

end

section

variable (ids : StreamIds) (b : SyncBuffer)

theorem receive_keeps (p : AdbPacket) : (b.receive ids p).Keeps Outbox.Works := by
  have ht {α : Type} (e : LinkStop) : (throw e : SendCall α).Keeps Outbox.Works :=
    keeps_throw _ e
  have hp {α : Type} (a : α) : (pure a : SendCall α).Keeps Outbox.Works :=
    keeps_pure _ a
  refine keeps_ite (ht _) (keeps_ite ?_ (keeps_ite (hp _) (keeps_ite ?_ (ht _))))
  · exact (send_keeps _).bind fun _ => keeps_ite (ht _) (hp _)
  · exact (send_keeps _).bind fun _ => ht _

theorem requestTurn_keeps (p : AdbPacket) : (requestTurn ids b p).Keeps Outbox.Works :=
  (receive_keeps ids b p).bind fun _ => keeps_pure _ _

theorem readTurn_keeps (st : SyncBuffer × Bytes × Nat) (p : AdbPacket) :
    (readTurn ids st p).Keeps Outbox.Works :=
  (receive_keeps ids st.1 p).bind fun _ => keeps_pure _ _

def AtMost (n : Nat) (r : DirectSyncReader) : Prop := r.link.AtMost ids n

theorem onLink_link {α : Type} (x : LinkCall (α × SyncBuffer)) (r : DirectSyncReader) :
    ((onLink x).runOn r).2.link = (x.runOn r.link).2 := by
  rw [onLink, runOn_ofRun]
  rcases x.runOn r.link with ⟨res, link⟩
  cases res <;> rfl

theorem readExact_keeps (n k : Nat) : (readExact ids k).Keeps (AtMost ids n) := by
  intro r hr
  rw [readExact, runOn_ofRun]
  split
  next => exact hr
  obtain ⟨frames, ⟨hi, ho⟩, hl⟩ := hr
  rw [AtMost, onLink_link, loop, runOn_ofRun, hi]
  exact (loopFrom_atMost ids _ (readTurn_keeps ids) _ frames ho).mono hl

theorem requestTurn_wrte (payload : Bytes) {out : Outbox} (ho : out.Works)
    (res : Unit × SyncBuffer) :
    ((requestTurn ids b ((wrte payload).packet ids)).runOn out).1 ≠ .ok (.done res) := by
  have hi : ¬(((wrte payload).packet ids).header.arg0,
      ((wrte payload).packet ids).header.arg1) ≠ (ids.remoteId, ids.localId) :=
    not_not.mpr rfl
  rw [requestTurn, SyncBuffer.receive, if_neg hi,
    if_pos (show ((wrte payload).packet ids).header.command = aWrte from rfl),
    bind_assoc, runOn_bind_ok (send_works ho _)]
  intro h
  generalize (if b.position = b.pending.length then SyncBuffer.empty else b) = start at h
  by_cases hr : maxPayloadV2.toNat
      < start.pending.length + ((wrte payload).packet ids).payload.length
  · rw [if_pos hr] at h
    cases h
  · rw [if_neg hr] at h
    cases h

/-- A request that was sent has taken its acknowledgement. -/
theorem sendRequest_takes (request : Bytes) {n : Nat} {r : DirectSyncReader} (h : AtMost ids n r) :
    AtMost ids n ((sendRequest ids request).runOn r).2 ∧
      (((sendRequest ids request).runOn r).1 = .ok () →
        ∃ m < n, AtMost ids m ((sendRequest ids request).runOn r).2) := by
  obtain ⟨frames, ⟨hi, ho⟩, hle⟩ := h
  rw [sendRequest_eq ids ho, hi]
  generalize hout : (⟨[], r.link.out.sent ++
    [AdbPacket.new aWrte ids.localId ids.remoteId request]⟩ : Outbox) = out
  have ho' : out.Works := by rw [← hout]; rfl
  have hm := loopFrom_atMost ids (fun e => e) (requestTurn_keeps ids) r.buffer frames ho'
  have ht (res : Unit × SyncBuffer) := loopFrom_takes (a := res) ids (fun e => e)
    (requestTurn_keeps ids) (fun b payload _ => requestTurn_wrte ids b payload) r.buffer frames ho'
  generalize loopFrom (fun e => e) (requestTurn ids) r.buffer (inbox ids frames) out = run
    at hm ht ⊢
  obtain ⟨e | res, link⟩ := run
  · refine ⟨hm.mono hle, ?_⟩
    intro hok
    cases hok
  · refine ⟨hm.mono hle, fun _ => ?_⟩
    obtain ⟨m, hlt, hl⟩ := ht res rfl
    exact ⟨m, Nat.lt_of_lt_of_le hlt hle, hl⟩

end

def Idle (inbox : List (Except Text AdbPacket)) (sent : List AdbPacket) (r : DirectSyncReader) :
    Prop :=
  r.buffer.left = [] ∧ r.link = ⟨inbox, ⟨[], sent⟩⟩

end DirectSyncReader

/-- A reply cut into payloads: those before the device acknowledges the request, and those after.
The last frame is the one that carries the last byte, unless that came before. -/
structure DeviceReply (reply : Bytes) where
  early : List DeviceFrame
  late : List DeviceFrame
  early_acks : acks early = 0
  early_room : (bytes early).length ≤ maxPayloadV2.toNat
  late_size : ∀ frame ∈ late, frame.payload.length ≤ maxPayloadV2.toNat
  bytes_eq : bytes early ++ bytes late = reply
  late_end : late = [] ∨ ∃ front payload, late = front ++ [.wrte payload] ∧ payload ≠ []

namespace DeviceReply

variable {reply : Bytes} (d : DeviceReply reply)

def frames : List DeviceFrame := d.early ++ .okay :: d.late

def log (ids : StreamIds) (req : Bytes) : List AdbPacket :=
  AdbPacket.new aWrte ids.localId ids.remoteId req
    :: replicate (DeviceFrame.wrtes d.frames) ids.ack

theorem later_eq_nil {past later : List DeviceFrame} (hl : d.late = past ++ later)
    (hb : bytes later = []) : later = [] := by
  rcases d.late_end with hn | ⟨front, payload, hls, hne⟩
  · rw [hn] at hl
    exact (append_eq_nil_iff.mp hl.symm).2
  rcases eq_nil_or_concat later with hn | ⟨init, frame, rfl⟩
  · exact hn
  rw [concat_eq_append] at hb hl
  rw [hls, ← append_assoc] at hl
  obtain ⟨-, hf⟩ := append_inj' hl rfl
  cases hf
  rw [bytes_append] at hb
  exact absurd (append_eq_nil_iff.mp hb).2 (by simpa [DeviceFrame.payload] using hne)

theorem answers (ids : StreamIds) (rest : List (Except Text AdbPacket)) (sent : List AdbPacket)
    (req : Bytes) :
    Answers (DirectSyncReader.readExact ids) (DirectSyncReader.sendRequest ids)
      (DirectSyncReader.Idle (inbox ids d.frames ++ rest) sent)
      (DirectSyncReader.Idle rest (sent ++ d.log ids req)) req reply := by
  refine ⟨DirectSyncReader.Holds ids rest (sent
    ++ AdbPacket.new aWrte ids.localId ids.remoteId req :: replicate (DeviceFrame.wrtes d.early) ids.ack) d.late,
    DirectSyncReader.delivers ids rest d.late_size, ?_, ?_⟩
  · rintro ⟨b, link⟩ ⟨hlf, hln⟩
    cases hln
    have ho : Outbox.Works ⟨[], sent⟩ := rfl
    obtain ⟨b', hb', hr⟩ := DirectSyncReader.sendRequest_run ids rest d.early_acks
      (r := ⟨b, inbox ids d.frames ++ rest, ⟨[], sent⟩⟩) ho hlf d.early_room rfl req
    refine ⟨_, hr, ⟨[], d.late, rfl, ?_, by rw [hb', d.bytes_eq]⟩⟩
    simp
  · rintro ⟨b, link⟩ ⟨past, later, hl, hln, hs⟩
    obtain ⟨hlf, hbs⟩ := append_eq_nil_iff.mp hs
    cases d.later_eq_nil hl hbs
    rw [append_nil] at hl
    refine ⟨hlf, ?_⟩
    rw [hln, ← hl, log, frames, wrtes_append]
    simp

/-- A reply in two payloads, one on each side of the acknowledgement. -/
def cutAt (reply : Bytes) (k : Nat) (hk : k < reply.length)
    (hsize : reply.length ≤ maxPayloadV2.toNat) : DeviceReply reply where
  early := [.wrte (reply.take k)]
  late := [.wrte (reply.drop k)]
  early_acks := rfl
  early_room := by
    simp only [bytes_cons, bytes_nil, payload, append_nil,
      length_take]
    omega
  late_size := by
    intro frame hframe
    cases mem_singleton.mp hframe
    rw [payload, length_drop]
    omega
  bytes_eq := by simp [payload]
  late_end := .inr ⟨[], reply.drop k, rfl, by
    rw [Ne, drop_eq_nil_iff]
    omega⟩

end DeviceReply

end AdbFastboot
