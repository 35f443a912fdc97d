import AdbFastboot.AdbLink
import AdbFastboot.StepRun

namespace AdbFastboot

open List AdbMessageHeader

def maxFrameData : Nat := maxPayloadV2.toNat - 24

inductive PumpEvent where
  | frame (p : AdbPacket)
  | disconnected

def recvFrame (pipe : Bytes) (hungUp : Bool) : Option (Except Text PumpEvent × Bytes) :=
  let starved := if hungUp then some (.ok .disconnected, []) else none
  if pipe.length < AdbMessageHeader.size then starved
  else
    let rest := pipe.drop AdbMessageHeader.size
    match AdbMessageHeader.decode (pipe.take AdbMessageHeader.size) with
    | .error e => some (.error ("inc-pump: bad frame header: ".toList ++ e.text.toList), rest)
    | .ok header =>
      let length := header.dataLength.toNat
      if maxPayloadV2 < header.dataLength then
        some (.error ("inc-pump: payload too large: ".toList ++ decimal length
          ++ " bytes".toList), rest)
      else if header.dataLength = 0 then some (.ok (.frame ⟨header, []⟩), rest)
      else if rest.length < length then starved
      else match header.verifyPayload (rest.take length) with
        | .error e =>
          some (.error ("inc-pump: bad frame payload: ".toList ++ e.text.toList), rest.drop length)
        | .ok () => some (.ok (.frame ⟨header, rest.take length⟩), rest.drop length)

inductive PumpEnd where
  | channelEof
  | disconnected
  | closed
  | failed (text : Text)
deriving DecidableEq, Repr

inductive PumpPhase where
  | poll
  /-- Behind `poll`, which has found these descriptors readable. -/
  | channel (transport channel : Bool)
  | transport (transport : Bool)
  /-- In the loop that moves the queued bytes onto the wire. -/
  | window
  | stopped (result : PumpEnd)
deriving DecidableEq, Repr

structure Pump where
  ids : StreamIds
  phase : PumpPhase
  outbox : List Bytes
  inFlight : Bool
  pipe : Bytes
  hungUp : Bool
  /-- The A_WRTE frames that the device has got and not answered. -/
  owed : Nat
  chunks : List Bytes
  sent : List AdbPacket
  received : List AdbPacket
  written : Bytes
  broken : Bool

/-- The device sends a frame or goes away, in the middle of one perhaps; the calls of the pump
return. A write fails where an error is given, on the channel after some of the bytes. -/
inductive PumpStep where
  | device (p : AdbPacket)
  | hangUp (p : AdbPacket) (cut : Nat)
  | poll (transport channel : Bool)
  | interrupted
  | pollFails (error : Text)
  | read (bytes : Bytes) (fault : Option Text)
  | readFails (error : Text)
  | recv (ackFault : Option Text) (channelFault : Option (Nat × Text))
  | recvFails (error : Text)
  | go (fault : Option Text)

def StreamIds.names (ids : StreamIds) (command : UInt32) (p : AdbPacket) : Bool :=
  p.header.command == command && p.header.arg0 == ids.remoteId && p.header.arg1 == ids.localId

namespace Pump

def start (ids : StreamIds) : Pump where
  ids := ids
  phase := .poll
  outbox := []
  inFlight := false
  pipe := []
  hungUp := false
  owed := 0
  chunks := []
  sent := []
  received := []
  written := []
  broken := false

variable (t : Pump)

def stop (result : PumpEnd) : Pump := { t with phase := .stopped result }

def breakOff (text : Text) : Pump := { t.stop (.failed text) with broken := true }

def sendFrame (payload : Bytes) (fault : Option Text) (next : PumpPhase) : Pump :=
  match fault with
  | some e => t.breakOff e
  | none =>
    { t with
      sent := t.sent ++ [AdbPacket.new aWrte t.ids.localId t.ids.remoteId payload]
      owed := t.owed + 1
      inFlight := true
      phase := next }

def readChannel (transport : Bool) (bytes : Bytes) (fault : Option Text) : Pump :=
  if bytes = [] then t.stop .channelEof
  else
    let t := { t with chunks := t.chunks ++ [bytes] }
    if t.inFlight then { t with outbox := t.outbox ++ [bytes], phase := .transport transport }
    else t.sendFrame bytes fault (.transport transport)

def forward (payload : Bytes) (channelFault : Option (Nat × Text)) : Pump :=
  match channelFault with
  | some (n, e) =>
    if payload = [] then { t with phase := .window }
    else { t.breakOff e with written := t.written ++ payload.take n }
  | none => { t with written := t.written ++ payload, phase := .window }

def handleFrame (p : AdbPacket) (ackFault : Option Text) (channelFault : Option (Nat × Text)) :
    Pump :=
  let t := { t with received := t.received ++ [p] }
  if t.ids.names aWrte p then
    match ackFault with
    | some e => t.breakOff e
    | none => forward { t with sent := t.sent ++ [t.ids.ack] } p.payload channelFault
  else if t.ids.names aOkay p then { t with inFlight := false, phase := .window }
  else if p.header.command = aClse then t.stop .closed
  else t.stop (.failed
    ("inc-pump: unexpected frame command ".toList ++ (hexText p.header.command).toList))

def recvTransport (ackFault : Option Text) (channelFault : Option (Nat × Text)) : Option Pump :=
  (recvFrame t.pipe t.hungUp).map fun (result, rest) =>
    let t := { t with pipe := rest }
    match result with
    | .error e => t.stop (.failed e)
    | .ok .disconnected => t.stop .disconnected
    | .ok (.frame p) => t.handleFrame p ackFault channelFault

def openWindow (fault : Option Text) : Pump :=
  if t.inFlight then { t with phase := .poll }
  else match t.outbox with
    | [] => { t with phase := .poll }
    | data :: outbox => sendFrame { t with outbox := outbox } data fault .window

/-- What a device sends that answers each A_WRTE frame at most once. -/
def DeviceSends (p : AdbPacket) : Prop :=
  p.WellFormed ∧ (p.payload = [] ∨ p.header.verifyPayload p.payload = .ok ())
    ∧ (t.ids.names aOkay p = true → 0 < t.owed)

instance (p : AdbPacket) : Decidable (t.DeviceSends p) :=
  inferInstanceAs (Decidable (_ ∧ (_ ∨ _) ∧ _))

def deviceMove (p : AdbPacket) : Pump :=
  { t with
    pipe := t.pipe ++ p.encode
    owed := if t.ids.names aOkay p then t.owed - 1 else t.owed }

def step (t : Pump) : PumpStep → Option Pump
  | .device p => if t.hungUp = false ∧ t.DeviceSends p then some (t.deviceMove p) else none
  | .hangUp p cut =>
    if t.hungUp = false ∧ t.DeviceSends p ∧ cut < p.encode.length then
      some { t with pipe := t.pipe ++ p.encode.take cut, hungUp := true }
    else none
  | .poll transport channel =>
    if t.phase = .poll then some { t with phase := .channel transport channel } else none
  | .interrupted => if t.phase = .poll then some t else none
  | .pollFails e =>
    if t.phase = .poll then some (t.stop (.failed ("inc-pump: poll: ".toList ++ e))) else none
  | .read bytes fault =>
    match t.phase with
    | .channel transport true =>
      if bytes.length ≤ maxFrameData then some (t.readChannel transport bytes fault) else none
    | _ => none
  | .readFails e =>
    match t.phase with
    | .channel _ true => some (t.stop (.failed ("inc-pump: read: ".toList ++ e)))
    | _ => none
  | .recv ackFault channelFault =>
    if t.phase = .transport true then t.recvTransport ackFault channelFault else none
  | .recvFails e =>
    if t.phase = .transport true then some (t.stop (.failed ("inc-pump: read: ".toList ++ e)))
    else none
  | .go fault =>
    match t.phase with
    | .channel transport false => some { t with phase := .transport transport }
    | .transport false => some { t with phase := .window }
    | .window => some (t.openWindow fault)
    | _ => none

def Sendable (p : AdbPacket) : Prop :=
  p.WellFormed ∧ (p.payload = [] ∨ p.header.verifyPayload p.payload = .ok ())

variable {p : AdbPacket}

/-- A whole frame at the front of the pipe is received. -/
theorem recvFrame_frame (hp : Sendable p) (rest : Bytes) (hungUp : Bool) :
    recvFrame (p.encode ++ rest) hungUp = some (.ok (.frame p), rest) := by
  obtain ⟨hw, hc⟩ := hp
  have hlen : ¬ (p.encode ++ rest).length < size := by
    rw [length_append, p.encode_length, size]
    omega
  have ht : (p.encode ++ rest).take size = p.header.encode := by
    exact take_left' p.header.encode_length
  have hd : (p.encode ++ rest).drop size = p.payload ++ rest := by
    rw [AdbPacket.encode, append_assoc]
    exact drop_left' p.header.encode_length
  have hl := hw.framed.length_eq
  unfold recvFrame
  rw [if_neg hlen, ht, hd, decode_encode hw.magic]
  dsimp only
  rw [if_neg (UInt32.not_lt.mpr hw.framed.length_le)]
  split
  next hz =>
    have hn : p.payload = [] := by
      rw [← length_eq_zero_iff, ← hl, hz]
      rfl
    have hs : (⟨p.header, []⟩ : AdbPacket) = p := by rw [← hn]
    rw [hs, hn]
    rfl
  next hz =>
    have hne : p.payload ≠ [] := by
      intro hn
      apply hz
      apply UInt32.toNat.inj
      rw [hl, hn]
      rfl
    have he : ¬ (p.payload ++ rest).length < p.header.dataLength.toNat := by
      rw [length_append, hl]
      omega
    rw [if_neg he, take_left' hl.symm, drop_left' hl.symm, hc.resolve_left hne]

/-- A frame that is cut is waited for, or is the end of the connection. -/
theorem recvFrame_cut (hp : Sendable p) {cut : Nat} (hcut : cut < p.encode.length) (hungUp : Bool) :
    recvFrame (p.encode.take cut) hungUp = if hungUp then some (.ok .disconnected, []) else none := by
  have hl := hp.1.framed.length_eq
  have he := p.encode_length
  have hc := length_take_of_le hcut.le
  unfold recvFrame
  dsimp only
  split
  next => rfl
  next hlen =>
    rw [size] at hlen
    have hsz : size ≤ cut := by
      rw [size]
      omega
    have ht : (p.encode.take cut).take size = p.header.encode := by
      rw [take_take, Nat.min_eq_left hsz]
      exact take_left' p.header.encode_length
    have hz : p.header.dataLength ≠ 0 := by
      intro hz
      rw [hz] at hl
      have hn : p.payload.length = 0 := hl.symm
      omega
    have hs : ((p.encode.take cut).drop size).length < p.header.dataLength.toNat := by
      rw [length_drop, hc, hl, size]
      omega
    rw [ht, decode_encode hp.1.magic]
    dsimp only
    rw [if_neg (UInt32.not_lt.mpr hp.1.framed.length_le), if_neg hz, if_pos hs]

/-- The frames that the device has sent and the pump has not read, the last perhaps in part. -/
structure Queued (t : Pump) (queue : List AdbPacket) : Prop where
  sendable : ∀ p ∈ queue, Sendable p
  pipe : t.pipe = queue.flatMap AdbPacket.encode
    ∨ t.hungUp = true ∧ ∃ p cut, Sendable p ∧ cut < p.encode.length
      ∧ t.pipe = queue.flatMap AdbPacket.encode ++ p.encode.take cut

inductive Received (t : Pump) (queue : List AdbPacket) :
    Option (Except Text PumpEvent × Bytes) → Prop where
  | frame {p : AdbPacket} {later : List AdbPacket} {rest : Bytes} (hqueue : queue = p :: later)
      (hlater : Queued { t with pipe := rest } later) : Received t queue (some (.ok (.frame p), rest))
  | disconnected : Received t queue (some (.ok .disconnected, []))
  | waits : Received t queue none

variable {t t' : Pump} {queue : List AdbPacket}

theorem Queued.received (h : Queued t queue) : Received t queue (recvFrame t.pipe t.hungUp) := by
  have hs : Received t queue (if t.hungUp then some (.ok .disconnected, []) else none) := by
    split
    next => exact .disconnected
    next => exact .waits
  cases queue with
  | nil =>
    obtain hpi | ⟨-, p, cut, hp, hc, hpi⟩ := h.pipe
    · rw [flatMap_nil] at hpi
      have hr : recvFrame [] t.hungUp = if t.hungUp then some (.ok .disconnected, []) else none :=
        rfl
      rw [hpi, hr]
      exact hs
    · rw [flatMap_nil, nil_append] at hpi
      rw [hpi, recvFrame_cut hp hc]
      exact hs
  | cons p later =>
    have hp := h.sendable p mem_cons_self
    have hla : ∀ q ∈ later, Sendable q := fun q hq => h.sendable q (mem_cons_of_mem p hq)
    obtain hpi | ⟨hg, q, cut, hq, hc, hpi⟩ := h.pipe
    · rw [hpi, flatMap_cons, recvFrame_frame hp]
      exact .frame rfl ⟨hla, .inl rfl⟩
    · rw [hpi, flatMap_cons, append_assoc, recvFrame_frame hp]
      exact .frame rfl ⟨hla, .inr ⟨hg, q, cut, hq, hc, rfl⟩⟩

def wrtePayloads (t : Pump) : List Bytes :=
  AdbPacket.wrtePayloads t.sent

def okays (t : Pump) : Nat := t.received.countP (t.ids.names aOkay)

def deviceWrtes (t : Pump) : List Bytes :=
  (t.received.filter (t.ids.names aWrte)).map AdbPacket.payload

def acksSent (t : Pump) : Nat := t.sent.countP fun p => p.header.command == aOkay

/-- The bytes of the channel go out in order in frames of a size that the device takes, one at a
time; what the device writes goes to the channel, each frame acknowledged once. -/
structure Bridged (t : Pump) : Prop where
  upload : t.wrtePayloads.flatten <+: t.chunks.flatten
  fits : ∀ payload ∈ t.wrtePayloads, payload.length ≤ maxFrameData
  window : t.okays ≤ t.wrtePayloads.length ∧ t.wrtePayloads.length ≤ t.okays + 1
  download : t.broken = false → t.written = t.deviceWrtes.flatten
  acked : t.broken = false → t.acksSent = t.deviceWrtes.length

/-- What does not depend on the chunks that wait and on the place in the loop. -/
structure Balanced (t : Pump) : Prop where
  flight : t.wrtePayloads.length = t.okays + t.inFlight.toNat
  queue : ∃ queue, Queued t queue
    ∧ t.owed + queue.countP (t.ids.names aOkay) ≤ t.inFlight.toNat
  download : t.broken = false → t.written = t.deviceWrtes.flatten
  acked : t.broken = false → t.acksSent = t.deviceWrtes.length

structure Sound (t : Pump) : Prop where
  balanced : t.Balanced
  chunks : ∃ lost, t.chunks = t.wrtePayloads ++ lost ++ t.outbox ∧ (t.broken = false → lost = [])
  fits : ∀ chunk ∈ t.chunks, chunk ≠ [] ∧ chunk.length ≤ maxFrameData
  window : t.phase ≠ .window → t.broken = false → t.inFlight = false → t.outbox = []
  broken : t.broken = true → ∃ e, t.phase = .stopped (.failed e)

theorem Sound.bridged (h : t.Sound) : t.Bridged := by
  obtain ⟨lost, hc, -⟩ := h.chunks
  have hf := h.balanced.flight
  have ho := Bool.toNat_le t.inFlight
  refine ⟨?_, ?_, ⟨by omega, by omega⟩, h.balanced.download, h.balanced.acked⟩
  · rw [hc, append_assoc, flatten_append]
    exact prefix_append _ _
  · intro payload hpl
    have hm : payload ∈ t.chunks := by
      rw [hc, append_assoc]
      exact mem_append_left _ hpl
    exact (h.fits payload hm).2

theorem start_sound (ids : StreamIds) : (start ids).Sound where
  balanced :=
    { flight := rfl
      queue := ⟨[], ⟨forall_mem_nil _, .inl rfl⟩, Nat.le_refl _⟩
      download := fun _ => rfl
      acked := fun _ => rfl }
  chunks := ⟨[], rfl, fun _ => rfl⟩
  fits := forall_mem_nil _
  window _ _ _ := rfl
  broken h := by cases h

theorem Queued.congr (h : Queued t queue) (hpi : t'.pipe = t.pipe) (hg : t'.hungUp = t.hungUp) :
    Queued t' queue := ⟨h.sendable, by rw [hpi, hg]; exact h.pipe⟩

section

variable (h : t.Sound)
include h

theorem Sound.unbroken (hph : ∀ result, t.phase ≠ .stopped result) : t.broken = false := by
  by_contra hb
  obtain ⟨e, he⟩ := h.broken (Bool.eq_true_of_not_eq_false hb)
  exact hph _ he

/-- What was read from the channel has been sent or waits in the outbox. -/
theorem Sound.chunks_eq (hb : t.broken = false) : t.chunks = t.wrtePayloads ++ t.outbox := by
  obtain ⟨lost, hc, hl⟩ := h.chunks
  rw [hc, hl hb, append_nil]

theorem Sound.turn (hbr : t.broken = false) {phase : PumpPhase}
    (hw : phase ≠ .window → t.inFlight = false → t.outbox = []) :
    Sound { t with phase := phase } :=
  { h with
    balanced := { h.balanced with
      queue := by
        obtain ⟨queue, hq, how⟩ := h.balanced.queue
        exact ⟨queue, hq.congr rfl rfl, how⟩ }
    window hph _ := hw hph
    broken hb := absurd hb (by simp [hbr]) }

variable (hungUp : t.hungUp = false) (hp : t.DeviceSends p)
include hungUp hp

theorem Sound.device : (t.deviceMove p).Sound :=
  { h with
    balanced := { h.balanced with
      queue := by
        obtain ⟨queue, hqu, how⟩ := h.balanced.queue
        obtain hpi | ⟨hg, -⟩ := hqu.pipe
        · refine ⟨queue ++ [p], ⟨?_, .inl ?_⟩, ?_⟩
          · intro q hq
            obtain hq | hq := mem_append.mp hq
            · exact hqu.sendable q hq
            · rw [mem_singleton.mp hq]
              exact ⟨hp.1, hp.2.1⟩
          · change t.pipe ++ p.encode = _
            rw [hpi, flatMap_append, flatMap_singleton]
          · change (if t.ids.names aOkay p then t.owed - 1 else t.owed)
              + (queue ++ [p]).countP (t.ids.names aOkay) ≤ t.inFlight.toNat
            rw [countP_append, countP_singleton]
            split
            next ho =>
              have hpos := hp.2.2 ho
              omega
            next => omega
        · rw [hungUp] at hg
          cases hg } }

theorem Sound.hangUp {cut : Nat} (hc : cut < p.encode.length) :
    Sound { t with pipe := t.pipe ++ p.encode.take cut, hungUp := true } :=
  { h with
    balanced := { h.balanced with
      queue := by
        obtain ⟨queue, hq, how⟩ := h.balanced.queue
        obtain hpi | ⟨hg, -⟩ := hq.pipe
        · exact ⟨queue, ⟨hq.sendable, .inr ⟨rfl, p, cut, ⟨hp.1, hp.2.1⟩, hc, by rw [hpi]⟩⟩, how⟩
        · rw [hungUp] at hg
          cases hg } }

end

variable {fault : Option Text} {later : List AdbPacket} {rest : Bytes}
  {channelFault : Option (Nat × Text)}

/-- Sending the next chunk opens a window that only an OKAY closes. -/
theorem sendFrame_sound {payload : Bytes} {next : PumpPhase} (h : t.Balanced)
    (hb : t.broken = false) (hi : t.inFlight = false)
    (hck : t.chunks = t.wrtePayloads ++ payload :: t.outbox)
    (hft : ∀ chunk ∈ t.chunks, chunk ≠ [] ∧ chunk.length ≤ maxFrameData) :
    (t.sendFrame payload fault next).Sound := by
  obtain ⟨queue, hq, how⟩ := h.queue
  unfold sendFrame
  split
  next e =>
    refine ⟨⟨h.flight, ⟨queue, hq.congr rfl rfl, how⟩, ?_, ?_⟩, ⟨[payload], ?_, ?_⟩, hft, ?_,
      fun _ => ⟨e, rfl⟩⟩
    · intro hc
      cases hc
    · intro hc
      cases hc
    · rw [append_assoc]
      exact hck
    · intro hc
      cases hc
    · intro _ hc
      cases hc
  next =>
    have hs := wrtePayloads_wrte t.sent t.ids.localId t.ids.remoteId payload
    have hf := h.flight
    rw [hi] at how hf
    refine ⟨⟨?_, ⟨queue, hq.congr rfl rfl, ?_⟩, h.download, ?_⟩, ⟨[], ?_, fun _ => rfl⟩, hft, ?_, ?_⟩
    · unfold wrtePayloads
      rw [hs, length_append]
      exact congrArg (· + 1) hf
    · change t.owed + 1 + queue.countP (t.ids.names aOkay) ≤ 1
      have hz : t.owed + queue.countP (t.ids.names aOkay) ≤ 0 := how
      omega
    · intro _
      have ha := h.acked hb
      unfold acksSent
      dsimp only
      rw [countP_append]
      exact ha
    · unfold wrtePayloads
      rw [hs, append_nil, append_assoc]
      exact hck
    · intro _ _ hc
      cases hc
    · simp [hb]

theorem Sound.readChannel {transport channel : Bool} {bytes : Bytes} (h : t.Sound)
    (hph : t.phase = .channel transport channel) (hl : bytes.length ≤ maxFrameData) :
    (t.readChannel transport bytes fault).Sound := by
  have hb := h.unbroken (by simp [hph])
  have hw := h.window (by simp [hph]) hb
  have hch := h.chunks_eq hb
  obtain ⟨queue, hq, how⟩ := h.balanced.queue
  unfold Pump.readChannel
  split
  next => exact h.turn hb fun _ => hw
  next hne =>
    have hf : ∀ chunk ∈ t.chunks ++ [bytes], chunk ≠ [] ∧ chunk.length ≤ maxFrameData := by
      intro chunk hc
      obtain hc | hc := mem_append.mp hc
      · exact h.fits chunk hc
      · rw [mem_singleton.mp hc]
        exact ⟨hne, hl⟩
    dsimp only
    split
    next hfl =>
      refine ⟨⟨h.balanced.flight, ⟨queue, hq.congr rfl rfl, how⟩, h.balanced.download,
        h.balanced.acked⟩, ⟨[], ?_, fun _ => rfl⟩, hf, ?_, ?_⟩
      · rw [append_nil]
        change t.chunks ++ [bytes] = t.wrtePayloads ++ (t.outbox ++ [bytes])
        rw [hch, append_assoc]
      · intro _ _ hcn
        exact absurd hfl (by rw [show t.inFlight = false from hcn]; exact Bool.false_ne_true)
      · simp [hb]
    next hi =>
      have hi := Bool.eq_false_of_not_eq_true hi
      refine sendFrame_sound ⟨h.balanced.flight, ⟨queue, hq.congr rfl rfl, how⟩,
        h.balanced.download, h.balanced.acked⟩ hb hi ?_ hf
      change t.chunks ++ [bytes] = t.wrtePayloads ++ bytes :: t.outbox
      rw [hch, hw hi, append_nil]

theorem Sound.openWindow (h : t.Sound) (hph : t.phase = .window) : (t.openWindow fault).Sound := by
  have hb := h.unbroken (by simp [hph])
  have hc := h.chunks_eq hb
  unfold Pump.openWindow
  split
  next hf =>
    refine h.turn hb fun _ hcn => ?_
    rw [hf] at hcn
    cases hcn
  next hi =>
    have hi := Bool.eq_false_of_not_eq_true hi
    split
    next hn => exact h.turn hb fun _ _ => hn
    next data outbox ho =>
      obtain ⟨queue, hq, how⟩ := h.balanced.queue
      refine sendFrame_sound ⟨h.balanced.flight, ⟨queue, hq.congr rfl rfl, how⟩,
        h.balanced.download, h.balanced.acked⟩ hb hi ?_ h.fits
      rw [ho] at hc
      exact hc

theorem names_okay_of_wrte {ids : StreamIds} (h : ids.names aWrte p = true) :
    ids.names aOkay p = false := by
  unfold StreamIds.names at h ⊢
  rw [Bool.and_eq_true, Bool.and_eq_true, beq_iff_eq] at h
  rw [h.1.1]
  rfl

section

variable (h : t.Sound) (hph : t.phase = .transport true)
  (hla : Queued { t with pipe := rest } later)
include h hph hla

variable (how : t.owed + (p :: later).countP (t.ids.names aOkay) ≤ t.inFlight.toNat)
include how

theorem Sound.taken {written : Bytes} {sent : List AdbPacket} {phase : PumpPhase}
    {broken : Bool} (ho : t.ids.names aOkay p = false)
    (hs : AdbPacket.wrtePayloads sent = t.wrtePayloads)
    (hd : broken = false → written
      = t.deviceWrtes.flatten ++ if t.ids.names aWrte p then p.payload else [])
    (ha : broken = false → (sent.countP fun p => p.header.command == aOkay)
      = t.deviceWrtes.length + (t.ids.names aWrte p).toNat)
    (hbr : broken = true → ∃ e, phase = .stopped (.failed e)) :
    Sound { t with
      pipe := rest
      received := t.received ++ [p]
      sent := sent
      written := written
      phase := phase
      broken := broken } := by
  have hw := h.unbroken (by simp [hph])
  have hwn := h.window (by simp [hph]) hw
  have hwr : (t.received ++ [p]).filter (t.ids.names aWrte)
      = t.received.filter (t.ids.names aWrte) ++ if t.ids.names aWrte p then [p] else [] := by
    rw [filter_append, filter_singleton, cond_eq_ite]
  refine ⟨⟨?_, ⟨later, hla.congr rfl rfl, ?_⟩, ?_, ?_⟩, ⟨[], ?_, fun _ => rfl⟩, h.fits,
    fun _ _ => hwn, hbr⟩
  · unfold wrtePayloads okays
    rw [hs, countP_append, countP_singleton, ho]
    exact h.balanced.flight
  · rw [countP_cons, ho] at how
    exact how
  · intro hb
    unfold deviceWrtes
    dsimp only
    rw [hd hb, hwr, map_append, flatten_append]
    split
    next => exact congrArg _ (append_nil _).symm
    next => rfl
  · intro hb
    unfold acksSent deviceWrtes
    rw [ha hb, hwr, map_append, length_append]
    cases t.ids.names aWrte p <;> rfl
  · unfold wrtePayloads
    dsimp only
    rw [hs, append_nil]
    exact h.chunks_eq hw

/-- A WRTE of the device is written to the channel and acknowledged. -/
theorem Sound.wrte {ackFault : Option Text} (hwr : t.ids.names aWrte p = true) :
    (handleFrame { t with pipe := rest } p ackFault channelFault).Sound := by
  have ho := names_okay_of_wrte hwr
  have hw := h.unbroken (by simp [hph])
  have hd := h.balanced.download hw
  have ha : (t.sent ++ [t.ids.ack]).countP (fun p => p.header.command == aOkay)
      = t.deviceWrtes.length + (t.ids.names aWrte p).toNat := by
    rw [hwr, countP_append]
    exact congrArg (· + 1) (h.balanced.acked hw)
  have hs := wrtePayloads_okay t.sent t.ids.localId t.ids.remoteId
  unfold Pump.handleFrame
  rw [if_pos hwr]
  cases ackFault with
  | some e =>
    exact h.taken hph hla how ho rfl (by simp) (by simp) fun _ => ⟨e, rfl⟩
  | none =>
    unfold forward
    dsimp only
    split
    next n e =>
      split
      next hn =>
        refine h.taken hph hla how ho hs ?_ (fun _ => ha) ?_
        · intro _
          rw [hd, hn, ite_self, append_nil]
        · simp [hw]
      next =>
        exact h.taken hph hla how ho hs (by simp [breakOff])
          (by simp [breakOff]) fun _ => ⟨e, rfl⟩
    next =>
      refine h.taken hph hla how ho hs ?_ (fun _ => ha) ?_
      · intro _
        rw [hd, if_pos hwr]
      · simp [hw]

/-- An OKAY of the device frees the window. -/
theorem Sound.okay (hwt : t.ids.names aWrte p = false) (ho : t.ids.names aOkay p = true) :
    Sound { t with
      pipe := rest
      received := t.received ++ [p]
      inFlight := false
      phase := .window } := by
  have hwh := h.unbroken (by simp [hph])
  have hone := Bool.toNat_le t.inFlight
  have hf := h.balanced.flight
  have hw : (t.received ++ [p]).filter (t.ids.names aWrte) = t.received.filter (t.ids.names aWrte) := by
    rw [filter_append, filter_singleton, hwt]
    exact append_nil _
  rw [countP_cons, if_pos ho] at how
  refine ⟨⟨?_, ⟨later, hla.congr rfl rfl, ?_⟩, ?_, ?_⟩, h.chunks, h.fits, ?_, ?_⟩
  · change t.wrtePayloads.length = (t.received ++ [p]).countP (t.ids.names aOkay) + 0
    rw [countP_append, countP_singleton, if_pos ho]
    change t.wrtePayloads.length = t.okays + 1 + 0
    omega
  · change t.owed + later.countP (t.ids.names aOkay) ≤ 0
    omega
  · unfold deviceWrtes
    rw [hw]
    exact h.balanced.download
  · unfold deviceWrtes
    dsimp only
    rw [hw]
    exact h.balanced.acked
  · intro hc
    exact absurd rfl hc
  · simp [hwh]

end

variable {ackFault : Option Text}

theorem Sound.handleFrame {p : AdbPacket} {later : List AdbPacket} {rest : Bytes}
    {channelFault : Option (Nat × Text)} (h : t.Sound)
    (hph : t.phase = .transport true) (hla : Queued { t with pipe := rest } later)
    (how : t.owed + (p :: later).countP (t.ids.names aOkay) ≤ t.inFlight.toNat) :
    (handleFrame { t with pipe := rest } p ackFault channelFault).Sound := by
  by_cases hw : t.ids.names aWrte p = true
  · exact h.wrte hph hla how hw
  have hwh := h.unbroken (by simp [hph])
  have hw := Bool.eq_false_of_not_eq_true hw
  have hs : ∀ result, t.ids.names aOkay p = false →
      Sound { t with pipe := rest, received := t.received ++ [p], phase := .stopped result } := by
    intro result ho
    refine h.taken hph hla how ho rfl ?_ ?_ ?_
    · intro _
      rw [hw, h.balanced.download hwh]
      exact (append_nil _).symm
    · intro _
      rw [hw]
      exact h.balanced.acked hwh
    · simp [hwh]
  unfold Pump.handleFrame
  rw [if_neg (by simp [hw])]
  by_cases ho : t.ids.names aOkay p = true
  · rw [if_pos ho]
    exact h.okay hph hla how hw ho
  rw [if_neg ho]
  have ho := Bool.eq_false_of_not_eq_true ho
  split
  next => exact hs _ ho
  next => exact hs _ ho

/-- Receiving from the device keeps the pump sound. -/
theorem Sound.recvTransport (h : t.Sound)
    (hph : t.phase = .transport true) (hs : t.recvTransport ackFault channelFault = some t') :
    t'.Sound := by
  have hw := h.unbroken (by simp [hph])
  have hwn := h.window (by simp [hph]) hw
  obtain ⟨queue, hq, how⟩ := h.balanced.queue
  obtain ⟨⟨result, rest⟩, hrc, ht'⟩ := Option.map_eq_some_iff.mp hs
  have hr := hq.received
  rw [hrc] at hr
  cases hr with
  | @frame p later _ hc hla =>
    rw [hc] at how
    rw [← ht']
    exact h.handleFrame hph hla how
  | disconnected =>
    rw [← ht']
    refine ⟨⟨h.balanced.flight, ⟨[], ⟨forall_mem_nil _, .inl rfl⟩, ?_⟩, h.balanced.download,
      h.balanced.acked⟩, h.chunks, h.fits, fun _ _ => hwn, ?_⟩
    · change t.owed + 0 ≤ t.inFlight.toNat
      omega
    · simp [stop, hw]

/-- Every step keeps the pump sound. -/
theorem Sound.step {a : PumpStep} (h : t.Sound) (hstep : t.step a = some t') : t'.Sound := by
  have hmoves : ∀ {phase : PumpPhase}, t.phase = phase → (∀ result, phase ≠ .stopped result) →
      phase ≠ .window → ∀ next, Sound { t with phase := next } := by
    intro phase hph hgoes hnot next
    have hwhole := h.unbroken (by rw [hph]; exact hgoes)
    exact h.turn hwhole fun _ => h.window (by rw [hph]; exact hnot) hwhole
  unfold Pump.step at hstep
  cases a with
  | device p =>
    obtain ⟨⟨hungUp, hp⟩, ⟨⟩⟩ := Option.ite_none_right_eq_some.mp hstep
    exact h.device hungUp hp
  | hangUp p cut =>
    obtain ⟨⟨hungUp, hp, hcut⟩, ⟨⟩⟩ := Option.ite_none_right_eq_some.mp hstep
    exact h.hangUp hungUp hp hcut
  | poll transport channel =>
    obtain ⟨hph, ⟨⟩⟩ := Option.ite_none_right_eq_some.mp hstep
    exact hmoves hph (by simp) (by simp) _
  | interrupted =>
    obtain ⟨-, ⟨⟩⟩ := Option.ite_none_right_eq_some.mp hstep
    exact h
  | pollFails e =>
    obtain ⟨hph, ⟨⟩⟩ := Option.ite_none_right_eq_some.mp hstep
    exact hmoves hph (by simp) (by simp) _
  | read bytes fault =>
    dsimp only at hstep
    split at hstep
    next transport hph =>
      obtain ⟨hlen, ⟨⟩⟩ := Option.ite_none_right_eq_some.mp hstep
      exact h.readChannel hph hlen
    next => cases hstep
  | readFails e =>
    dsimp only at hstep
    split at hstep
    next transport hph =>
      cases hstep
      exact hmoves hph (by simp) (by simp) _
    next => cases hstep
  | recv ackFault channelFault =>
    dsimp only at hstep
    split at hstep
    next hph => exact h.recvTransport hph hstep
    next => cases hstep
  | recvFails e =>
    obtain ⟨hph, ⟨⟩⟩ := Option.ite_none_right_eq_some.mp hstep
    exact hmoves hph (by simp) (by simp) _
  | go fault =>
    dsimp only at hstep
    split at hstep
    next transport hph =>
      cases hstep
      exact hmoves hph (by simp) (by simp) _
    next hph =>
      cases hstep
      exact hmoves hph (by simp) (by simp) _
    next hph =>
      cases hstep
      exact h.openWindow hph
    next => cases hstep

theorem run_sound {ids : StreamIds} {as : List PumpStep}
    (hr : runSteps step (start ids) as = some t) : t.Sound :=
  runSteps_keeps (fun h hs => h.step hs) (start_sound ids) hr

/-- At every point the bytes of each direction are passed on in order and acknowledged one by one. -/
theorem pump_bridges (ids : StreamIds) (as : List PumpStep) (t : Pump)
    (hrun : runSteps step (start ids) as = some t) : t.Bridged := (run_sound hrun).bridged

def bothWays : List PumpStep :=
  [.poll false true, .read [1, 2] none, .go none, .go none,
    .device ((DeviceFrame.wrte [9]).packet ⟨1, 81⟩), .poll true true, .read [3] none,
    .recv none none, .go none, .device (DeviceFrame.okay.packet ⟨1, 81⟩), .poll true false,
    .go none, .recv none none, .go none, .go none]

theorem pump_bridges_bothWays : ∃ t, runSteps step (start ⟨1, 81⟩) bothWays = some t
    ∧ t.wrtePayloads = [[1, 2], [3]] ∧ t.written = [9] ∧ t.Bridged := by
  have hs : (runSteps step (start ⟨1, 81⟩) bothWays).map
      (fun t => (t.wrtePayloads, t.written)) = some ([[1, 2], [3]], [9]) := by decide +kernel
  obtain ⟨t, hr, ht⟩ := Option.map_eq_some_iff.mp hs
  obtain ⟨hwt, hw⟩ := Prod.mk.inj ht
  exact ⟨t, hr, hwt, hw, pump_bridges _ _ _ hr⟩

/-- Chunks that are not empty are missed where they are dropped. -/
theorem flatten_append_eq_self_iff {xs ys : List Bytes} (h : ∀ y ∈ ys, y ≠ []) :
    xs.flatten = (xs ++ ys).flatten ↔ ys = [] := by
  rw [flatten_append, self_eq_append_right]
  constructor
  · intro hf
    cases ys with
    | nil => rfl
    | cons y ys =>
      rw [flatten_cons, append_eq_nil_iff] at hf
      exact absurd hf.1 (h y mem_cons_self)
  · rintro rfl
    rfl

/-- When the channel ends, everything read of it has been sent if and only if at most one of the
chunks is unacknowledged. -/
theorem eof_sends_all_iff (ids : StreamIds) (as : List PumpStep) (t : Pump)
    (hrun : runSteps step (start ids) as = some t) (heof : t.phase = .stopped .channelEof) :
    t.wrtePayloads.flatten = t.chunks.flatten ↔ t.chunks.length ≤ t.okays + 1 := by
  have h := run_sound hrun
  have hw : t.broken = false := by
    by_contra hb
    obtain ⟨e, he⟩ := h.broken (Bool.eq_true_of_not_eq_false hb)
    rw [heof] at he
    cases he
  have hwn := h.window (by simp [heof]) hw
  have hc := h.chunks_eq hw
  have hf := h.balanced.flight
  have hne : ∀ chunk ∈ t.outbox, chunk ≠ [] := by
    intro chunk hch
    have hm : chunk ∈ t.chunks := by
      rw [hc]
      exact mem_append_right _ hch
    exact (h.fits chunk hm).1
  rw [hc, flatten_append_eq_self_iff hne, length_append, hf]
  constructor
  · intro hn
    have ho := Bool.toNat_le t.inFlight
    rw [hn, length_nil]
    omega
  · intro hle
    cases hi : t.inFlight with
    | false => exact hwn hi
    | true =>
      rw [hi] at hle
      have hz : t.outbox.length = 0 := by
        have hle : t.okays + 1 + t.outbox.length ≤ t.okays + 1 := hle
        omega
      exact eq_nil_of_length_eq_zero hz

theorem eof_sends_all_bothWays : ∃ t,
    runSteps step (start ⟨1, 81⟩) (bothWays ++ [.poll false true, .read [] none]) = some t
      ∧ t.phase = .stopped .channelEof ∧ t.wrtePayloads.flatten = t.chunks.flatten := by
  have hs : (runSteps step (start ⟨1, 81⟩) (bothWays ++ [.poll false true, .read [] none])).map
        (fun t => (t.phase, t.chunks.length, t.okays))
          = some (.stopped .channelEof, 2, 1) := by decide +kernel
  obtain ⟨t, hr, ht⟩ := Option.map_eq_some_iff.mp hs
  obtain ⟨hphase, hc, ho⟩ : t.phase = .stopped .channelEof ∧ t.chunks.length = 2 ∧ t.okays = 1 := by
    simpa only [Prod.mk.injEq] using ht
  refine ⟨t, hr, hphase, (eof_sends_all_iff _ _ _ hr hphase).mpr ?_⟩
  rw [hc, ho]

/-- The server writes twice and exits before the device acknowledges the first frame. -/
theorem eof_drops_chunk : ¬ ∀ ids as t, runSteps step (start ids) as = some t →
    t.phase = .stopped .channelEof → t.wrtePayloads.flatten = t.chunks.flatten := by
  intro h
  have hst : (runSteps step (start ⟨1, 81⟩)
      [.poll false true, .read [1] none, .go none, .go none, .poll false true, .read [2] none,
        .go none, .go none, .poll false true, .read [] none]).map
        (fun t => (t.phase, t.wrtePayloads, t.chunks))
          = some (.stopped .channelEof, [[1]], [[1], [2]]) := by decide +kernel
  obtain ⟨t, hr, ht⟩ := Option.map_eq_some_iff.mp hst
  obtain ⟨hphase, hw, hc⟩ :
      t.phase = .stopped .channelEof ∧ t.wrtePayloads = [[1]] ∧ t.chunks = [[1], [2]] := by
    simpa only [Prod.mk.injEq] using ht
  have hs := h _ _ t hr hphase
  rw [hw, hc] at hs
  exact absurd hs (by decide)

end Pump

end AdbFastboot
