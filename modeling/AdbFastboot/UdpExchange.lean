import AdbFastboot.Outcome
import AdbFastboot.Utf8

namespace AdbFastboot

section

def udpHeaderLen : Nat := 4

def udpIdError : UInt8 := 0x00
def udpIdFastboot : UInt8 := 0x03

def udpFlagNone : UInt8 := 0x00
def udpFlagContinuation : UInt8 := 0x01

def hostMaxUdpPacketSize : Nat := 8192

structure UdpHeader where
  id : UInt8
  flags : UInt8
  seq : UInt16
deriving DecidableEq, Repr

def UdpHeader.encode4byte (header : UdpHeader) : Bytes :=
  [header.id, header.flags, UInt8.ofNat (header.seq.toNat / 256),
    UInt8.ofNat (header.seq.toNat % 256)]

/-- The header at the start of `buf`, in the framing of four or of two bytes, and its length. -/
def UdpHeader.decode (buf : Bytes) : Except FastbootTransportError (UdpHeader × Nat) :=
  match buf with
  | id :: flags :: hi :: lo :: _ =>
    .ok (⟨id, flags, UInt16.ofNat (256 * hi.toNat + lo.toNat)⟩, 4)
  | flags :: seq :: _ => .ok (⟨udpIdFastboot, flags, seq.toUInt16⟩, 2)
  | _ => .error (.protocol "UDP header too short")

variable (header : UdpHeader)

@[simp] theorem UdpHeader.encode4byte_length : header.encode4byte.length = udpHeaderLen := rfl

def udpDatagram (header : UdpHeader) (payload : Bytes) : Bytes :=
  header.encode4byte ++ payload

variable (payload : Bytes)

/-- A datagram is decoded to its header. -/
theorem udpDatagram_decode :
    UdpHeader.decode (udpDatagram header payload) = .ok (header, udpHeaderLen) := by
  have hs : UInt16.ofNat (256 * (UInt8.ofNat (header.seq.toNat / 256)).toNat
      + (UInt8.ofNat (header.seq.toNat % 256)).toNat) = header.seq := by
    have hlt := header.seq.toNat_lt
    apply UInt16.toNat_inj.mp
    simp only [UInt8.toNat_ofNat', UInt16.toNat_ofNat']
    omega
  simp only [udpDatagram, UdpHeader.encode4byte, UdpHeader.decode, List.cons_append, hs, udpHeaderLen]

@[simp] theorem udpDatagram_drop : (udpDatagram header payload).drop udpHeaderLen = payload := rfl

theorem udpDatagram_take (n : Nat) :
    (udpDatagram header payload).take (udpHeaderLen + n) = udpDatagram header (payload.take n) := by
  rw [udpDatagram, ← UdpHeader.encode4byte_length header, List.take_length_add_append, udpDatagram]

end

/-- What `recv` on the socket gives: a datagram, a timeout or another error. -/
inductive UdpRecv where
  | datagram (bytes : Bytes)
  | timedOut (text : String)
  | failed (text : String)

/-- A socket, over what lies behind it. Each call of `send` and the `recv` that follows it see one
turn `τ` of the rest of the world. -/
structure UdpSocket (σ τ : Type) where
  send : τ → Bytes → σ → Except String σ
  recv : τ → σ → UdpRecv × σ

structure UdpRequest where
  id : UInt8
  flags : UInt8
  payload : Bytes
deriving DecidableEq, Repr

def UdpRequest.header (tx : UdpRequest) (seq : UInt16) : UdpHeader := ⟨tx.id, tx.flags, seq⟩

inductive Attempt where
  | matched (resp : UdpHeader) (data : Bytes)
  | again (lastErr : Option String)
  | failed (e : FastbootTransportError)

/-- What is made of a `recv` into a buffer of `HOST_MAX_UDP_PACKET_SIZE` bytes: a longer datagram
loses its end. -/
def UdpRequest.attempt (tx : UdpRequest) (expectedSeq : UInt16) (lastErr : Option String) :
    UdpRecv → Attempt
  | .datagram bytes =>
    match UdpHeader.decode (bytes.take hostMaxUdpPacketSize) with
    | .error e => .failed e
    | .ok (resp, hlen) =>
      if resp.seq ≠ expectedSeq ∨ (resp.id ≠ tx.id ∧ resp.id ≠ udpIdError) then .again lastErr
      else .matched resp ((bytes.take hostMaxUdpPacketSize).drop hlen)
  | .timedOut text => .again (some text)
  | .failed text => .failed (.io text)

theorem UdpRequest.attempt_matched {tx : UdpRequest} {expectedSeq : UInt16}
    {lastErr : Option String} {header resp : UdpHeader} {payload data : Bytes}
    (h : tx.attempt expectedSeq lastErr (.datagram (udpDatagram header payload)) = .matched resp data) :
    header.seq = expectedSeq ∧ resp = header ∧
      data = payload.take (hostMaxUdpPacketSize - udpHeaderLen) := by
  have hm : hostMaxUdpPacketSize = udpHeaderLen + (hostMaxUdpPacketSize - udpHeaderLen) := rfl
  rw [attempt, hm, udpDatagram_take, udpDatagram_decode] at h
  simp only at h
  split at h
  next => simp at h
  next hmt =>
    obtain ⟨rfl, rfl⟩ := Attempt.matched.inj h
    refine ⟨?_, rfl, udpDatagram_drop _ _⟩
    by_contra hne
    exact hmt (.inl hne)

/-- The state of the two loops of `send_packet_with_ack`. The answers accepted so far are kept
beside it. -/
structure UdpLoop (σ : Type) where
  world : σ
  seq : UInt16
  tx : UdpRequest
  result : Bytes
  errorData : Bytes
  left : Nat
  lastErr : Option String
  accepted : List (UdpHeader × Bytes)

/-- How a call ends, with the sequence number and the answers accepted; or it has not ended when
the turns are over. -/
inductive UdpReturn (σ : Type) where
  | returned (value : Except FastbootTransportError Bytes) (world : σ) (seq : UInt16)
      (accepted : List (UdpHeader × Bytes))
  | waiting

variable {σ τ : Type}

def UdpLoop.accept (x : UdpLoop σ) (maxRetries : Nat) (resp : UdpHeader) (data : Bytes) :
    UdpLoop σ :=
  { world := x.world
    seq := x.seq + 1
    tx := ⟨resp.id, udpFlagNone, []⟩
    result := if resp.id = udpIdError then x.result else x.result ++ data
    errorData := if resp.id = udpIdError then x.errorData ++ data else x.errorData
    left := maxRetries
    lastErr := none
    accepted := x.accepted ++ [(resp, data)] }

def UdpLoop.finish (x : UdpLoop σ) (value : Except FastbootTransportError Bytes) : UdpReturn σ :=
  .returned value x.world x.seq x.accepted

def UdpLoop.value (x : UdpLoop σ) : Except FastbootTransportError Bytes :=
  if x.errorData ≠ [] then
    .error (.protocol ("UDP Error response from target: " ++ fromUtf8Lossy x.errorData))
  else .ok x.result

def UdpLoop.run (socket : UdpSocket σ τ) (maxRetries : Nat) : List τ → UdpLoop σ → UdpReturn σ
  | [], _ => .waiting
  | turn :: turns, x =>
    match socket.send turn (udpDatagram (x.tx.header x.seq) x.tx.payload) x.world with
    | .error text => x.finish (.error (.io text))
    | .ok world =>
      let x := { x with world := (socket.recv turn world).2 }
      match x.tx.attempt x.seq x.lastErr (socket.recv turn world).1 with
      | .failed e => x.finish (.error e)
      | .again lastErr =>
        match x.left with
        | 0 => x.finish (.error (.io (lastErr.getD "UDP retransmission limit reached")))
        | left + 1 => UdpLoop.run socket maxRetries turns { x with lastErr, left }
      | .matched resp data =>
        let x := x.accept maxRetries resp data
        if resp.flags &&& udpFlagContinuation = 0 then x.finish x.value
        else UdpLoop.run socket maxRetries turns x

def sendPacketWithAck (socket : UdpSocket σ τ) (maxRetries : Nat) (seq : UInt16)
    (tx : UdpRequest) (turns : List τ) (world : σ) : UdpReturn σ :=
  UdpLoop.run socket maxRetries turns
    { world, seq, tx, result := [], errorData := [], left := maxRetries, lastErr := none,
      accepted := [] }

/-- As long as no error text was received, the result is what the accepted answers carried. -/
def UdpLoop.Collects (x : UdpLoop σ) : Prop :=
  x.errorData = [] → x.result = x.accepted.flatMap Prod.snd

variable {x : UdpLoop σ}

theorem UdpLoop.Collects.accept (h : x.Collects) (maxRetries : Nat)
    (resp : UdpHeader) (data : Bytes) : (x.accept maxRetries resp data).Collects := by
  intro he
  simp only [UdpLoop.accept] at he ⊢
  rw [List.flatMap_append, List.flatMap_singleton]
  split at he
  next hi =>
    obtain ⟨he, hd⟩ := List.append_eq_nil_iff.mp he
    rw [if_pos hi, h he, hd, List.append_nil]
  next hi => rw [if_neg hi, h he]

theorem UdpLoop.Collects.value (h : x.Collects) {data : Bytes}
    (hv : x.value = .ok data) : data = x.accepted.flatMap Prod.snd := by
  unfold UdpLoop.value at hv
  split at hv
  next => simp at hv
  next he =>
    cases hv
    exact h (not_not.mp he)

/-- A run that returns data has returned it at its first turn, or goes on. -/
theorem UdpLoop.run_ok_cases {socket : UdpSocket σ τ} {maxRetries : Nat} {turn : τ}
    {turns : List τ} {data : Bytes} {world : σ} {seq : UInt16}
    {accepted : List (UdpHeader × Bytes)} (h : UdpLoop.run socket maxRetries (turn :: turns) x
      = .returned (.ok data) world seq accepted) :
    ∃ world', socket.send turn (udpDatagram (x.tx.header x.seq) x.tx.payload) x.world = .ok world' ∧
      ((∃ lastErr left, UdpLoop.run socket maxRetries turns
          { x with world := (socket.recv turn world').2, lastErr, left }
          = .returned (.ok data) world seq accepted) ∨
        ∃ resp payload x', x.tx.attempt x.seq x.lastErr (socket.recv turn world').1
            = .matched resp payload ∧
          x' = { x with world := (socket.recv turn world').2 }.accept maxRetries resp payload ∧
          (resp.flags &&& udpFlagContinuation = 0 ∧
              x'.finish x'.value = .returned (.ok data) world seq accepted ∨
            resp.flags &&& udpFlagContinuation ≠ 0 ∧
              UdpLoop.run socket maxRetries turns x' = .returned (.ok data) world seq accepted)) := by
  unfold UdpLoop.run at h
  split at h
  next => simp [UdpLoop.finish] at h
  next world' hs =>
    refine ⟨world', hs, ?_⟩
    simp only at h
    split at h
    next => simp [UdpLoop.finish] at h
    next lastErr _ =>
      left
      split at h
      next => simp [UdpLoop.finish] at h
      next left _ => exact ⟨lastErr, left, h⟩
    next resp payload hmt =>
      right
      refine ⟨resp, payload, _, hmt, rfl, ?_⟩
      split at h
      next hl => exact .inl ⟨hl, h⟩
      next hm => exact .inr ⟨hm, h⟩

end AdbFastboot
