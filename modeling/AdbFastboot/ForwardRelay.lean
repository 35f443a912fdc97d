import AdbFastboot.AdbMessage
import AdbFastboot.StepRun

namespace AdbFastboot

structure FrameWrite where
  frame : AdbPacket
  done : Nat
deriving DecidableEq, Repr

namespace FrameWrite

variable (w : FrameWrite)

def written : Bytes := w.frame.encode.take w.done

def taken (n : Nat) : Bytes := (w.frame.encode.drop w.done).take n

/-- Where the `write_all` ends that the thread is in: the header is one, the payload another. -/
def callEnd : Nat :=
  if w.done < AdbMessageHeader.size then AdbMessageHeader.size else w.frame.encode.length

end FrameWrite

inductive Uploader where
  | reading
  | writing (w : FrameWrite)
  | ended
deriving DecidableEq, Repr

inductive Downloader where
  | header
  | payload (header : AdbMessageHeader)
  | delivering (payload : Bytes)
  | acking (w : FrameWrite)
  | ended
deriving DecidableEq, Repr

inductive RelayThread where
  | uploader
  | downloader
deriving DecidableEq, Repr

def RelayThread.other : RelayThread → RelayThread
  | .uploader => .downloader
  | .downloader => .uploader

theorem RelayThread.eq_or_other (thread thread' : RelayThread) :
    thread' = thread ∨ thread' = thread.other := by
  cases thread <;> cases thread' <;> simp [RelayThread.other]

@[simp] theorem RelayThread.other_other (thread : RelayThread) : thread.other.other = thread := by
  cases thread <;> rfl

/-- A forwarded connection from where its stream is open on the device. -/
structure ForwardRelay where
  remoteId : UInt32
  uploader : Uploader
  downloader : Downloader
  toDevice : Bytes
  fromDevice : Bytes
  toClient : Bytes
  deviceGone : Bool
  clientGone : Bool
  /-- History: the bytes read from the client, the frames written whole in the order of their ends,
  and the frames of the device. -/
  clientBytes : Bytes
  sent : List AdbPacket
  deviceSent : List AdbPacket
deriving DecidableEq, Repr

inductive ForwardRelayStep where
  | clientData (data : Bytes)
  | clientEof
  | clientReadFails
  /-- One call of `write` on the device's stream, which takes so many bytes. -/
  | write (thread : RelayThread) (n : Nat)
  | writeFails (thread : RelayThread)
  | readHeader
  | readPayload
  | readFails
  | deliver
  | deviceSends (frame : AdbPacket)
  | deviceLeaves
  | clientLeaves
deriving DecidableEq, Repr

def forwardBufSize : Nat := 16384

namespace ForwardRelay

def localId : UInt32 := 1

def start (remoteId : UInt32) : ForwardRelay where
  remoteId := remoteId
  uploader := .reading
  downloader := .header
  toDevice := []
  fromDevice := []
  toClient := []
  deviceGone := false
  clientGone := false
  clientBytes := []
  sent := []
  deviceSent := []

variable (r : ForwardRelay)

def frame (command : UInt32) (payload : Bytes) : AdbPacket :=
  .new command localId r.remoteId payload

def writing : RelayThread → Option FrameWrite
  | .uploader =>
    match r.uploader with
    | .writing w => some w
    | _ => none
  | .downloader =>
    match r.downloader with
    | .acking w => some w
    | _ => none

def keepWriting (w : FrameWrite) : RelayThread → ForwardRelay
  | .uploader => { r with uploader := .writing w }
  | .downloader => { r with downloader := .acking w }

def endFrame (frame : AdbPacket) : RelayThread → ForwardRelay
  | .uploader => { r with uploader := if frame.header.command = aClse then .ended else .reading }
  | .downloader => { r with downloader := if frame.header.command = aClse then .ended else .header }

def wrote (thread : RelayThread) (w : FrameWrite) (n : Nat) : ForwardRelay :=
  let r := { r with toDevice := r.toDevice ++ w.taken n }
  if w.done + n = w.frame.encode.length then
    { r with sent := r.sent ++ [w.frame] }.endFrame w.frame thread
  else r.keepWriting { w with done := w.done + n } thread

/-- What a thread does when its `write_all` fails: the uploader leaves its loop, the downloader
drops the error. -/
def failWrite (w : FrameWrite) : RelayThread → ForwardRelay
  | .uploader => { r with uploader := .ended }
  | .downloader => r.endFrame w.frame .downloader

def afterHeader (buf : Bytes) : Downloader :=
  match AdbMessageHeader.decode buf with
  | .error _ => .ended
  | .ok header =>
    if header.command = aWrte then
      if 0 < header.dataLength then .payload header else .acking ⟨r.frame aOkay [], 0⟩
    else if header.command = aClse then .acking ⟨r.frame aClse [], 0⟩
    else .header

def wanted : Option Nat :=
  match r.downloader with
  | .header => some AdbMessageHeader.size
  | .payload header => some header.dataLength.toNat
  | _ => none

def step : ForwardRelayStep → Option ForwardRelay
  | .clientData data =>
    if r.uploader = .reading ∧ data ≠ [] ∧ data.length ≤ forwardBufSize then
      some { r with
        uploader := .writing ⟨r.frame aWrte data, 0⟩
        clientBytes := r.clientBytes ++ data }
    else none
  | .clientEof =>
    if r.uploader = .reading then some { r with uploader := .writing ⟨r.frame aClse [], 0⟩ }
    else none
  | .clientReadFails =>
    if r.uploader = .reading then some { r with uploader := .ended } else none
  | .write thread n =>
    match r.writing thread with
    | none => none
    | some w =>
      if r.deviceGone = false ∧ 0 < n ∧ w.done + n ≤ w.callEnd then some (r.wrote thread w n)
      else none
  | .writeFails thread =>
    match r.writing thread with
    | none => none
    | some w => if r.deviceGone then some (r.failWrite w thread) else none
  | .readHeader =>
    if r.downloader = .header ∧ AdbMessageHeader.size ≤ r.fromDevice.length then
      some { r with
        downloader := r.afterHeader (r.fromDevice.take AdbMessageHeader.size)
        fromDevice := r.fromDevice.drop AdbMessageHeader.size }
    else none
  | .readPayload =>
    match r.downloader with
    | .payload header =>
      if header.dataLength.toNat ≤ r.fromDevice.length then
        some { r with
          downloader := .delivering (r.fromDevice.take header.dataLength.toNat)
          fromDevice := r.fromDevice.drop header.dataLength.toNat }
      else none
    | _ => none
  | .readFails =>
    match r.wanted with
    | none => none
    | some n =>
      if r.deviceGone ∧ r.fromDevice.length < n then
        some { r with downloader := .ended, fromDevice := [] }
      else none
  | .deliver =>
    match r.downloader with
    | .delivering payload =>
      some (if r.clientGone then { r with downloader := .ended }
        else { r with
          downloader := .acking ⟨r.frame aOkay [], 0⟩
          toClient := r.toClient ++ payload })
    | _ => none
  | .deviceSends frame =>
    if r.deviceGone then none
    else some { r with
      fromDevice := r.fromDevice ++ frame.encode
      deviceSent := r.deviceSent ++ [frame] }
  | .deviceLeaves => some { r with deviceGone := true }
  | .clientLeaves => some { r with clientGone := true }

inductive Stepped : ForwardRelayStep → ForwardRelay → Prop where
  | clientData {data : Bytes} (hup : r.uploader = .reading) (hne : data ≠ [])
      (hlen : data.length ≤ forwardBufSize) :
    Stepped (.clientData data)
      { r with
        uploader := .writing ⟨r.frame aWrte data, 0⟩
        clientBytes := r.clientBytes ++ data }
  | clientEof (hup : r.uploader = .reading) :
    Stepped .clientEof { r with uploader := .writing ⟨r.frame aClse [], 0⟩ }
  | clientReadFails (hup : r.uploader = .reading) :
    Stepped .clientReadFails { r with uploader := .ended }
  | write {thread : RelayThread} {n : Nat} {w : FrameWrite} (hw : r.writing thread = some w)
      (hdevice : r.deviceGone = false) (hn : 0 < n) (hend : w.done + n ≤ w.callEnd) :
    Stepped (.write thread n) (r.wrote thread w n)
  | writeFails {thread : RelayThread} {w : FrameWrite} (hw : r.writing thread = some w)
      (hgone : r.deviceGone = true) : Stepped (.writeFails thread) (r.failWrite w thread)
  | readHeader (hdown : r.downloader = .header)
      (hlen : AdbMessageHeader.size ≤ r.fromDevice.length) :
    Stepped .readHeader
      { r with
        downloader := r.afterHeader (r.fromDevice.take AdbMessageHeader.size)
        fromDevice := r.fromDevice.drop AdbMessageHeader.size }
  | readPayload {header : AdbMessageHeader} (hdown : r.downloader = .payload header)
      (hlen : header.dataLength.toNat ≤ r.fromDevice.length) :
    Stepped .readPayload
      { r with
        downloader := .delivering (r.fromDevice.take header.dataLength.toNat)
        fromDevice := r.fromDevice.drop header.dataLength.toNat }
  | readFails {n : Nat} (hwanted : r.wanted = some n) (hgone : r.deviceGone = true) :
    Stepped .readFails { r with downloader := .ended, fromDevice := [] }
  | deliver {payload : Bytes} (hdown : r.downloader = .delivering payload)
      (hclient : r.clientGone = false) :
    Stepped .deliver
      { r with downloader := .acking ⟨r.frame aOkay [], 0⟩, toClient := r.toClient ++ payload }
  | deliverFails {payload : Bytes} (hdown : r.downloader = .delivering payload)
      (hclient : r.clientGone = true) : Stepped .deliver { r with downloader := .ended }
  | deviceSends {frame : AdbPacket} (hdevice : r.deviceGone = false) :
    Stepped (.deviceSends frame)
      { r with
        fromDevice := r.fromDevice ++ frame.encode
        deviceSent := r.deviceSent ++ [frame] }
  | deviceLeaves : Stepped .deviceLeaves { r with deviceGone := true }
  | clientLeaves : Stepped .clientLeaves { r with clientGone := true }

variable {r}

/-- The steps of the relay, one case for each kind. -/
theorem step_stepped {r' : ForwardRelay} {a : ForwardRelayStep} (h : r.step a = some r') :
    r.Stepped a r' := by
  cases a with
  | clientData data =>
    simp only [step] at h
    split at h
    next hc =>
      cases h
      exact .clientData hc.1 hc.2.1 hc.2.2
    next => cases h
  | clientEof =>
    simp only [step] at h
    split at h
    next hu =>
      cases h
      exact .clientEof hu
    next => cases h
  | clientReadFails =>
    simp only [step] at h
    split at h
    next hu =>
      cases h
      exact .clientReadFails hu
    next => cases h
  | write thread n =>
    simp only [step] at h
    split at h
    next => cases h
    next w hw =>
      split at h
      next hc =>
        cases h
        exact .write hw hc.1 hc.2.1 hc.2.2
      next => cases h
  | writeFails thread =>
    simp only [step] at h
    split at h
    next => cases h
    next w hw =>
      split at h
      next hg =>
        cases h
        exact .writeFails hw hg
      next => cases h
  | readHeader =>
    simp only [step] at h
    split at h
    next hc =>
      cases h
      exact .readHeader hc.1 hc.2
    next => cases h
  | readPayload =>
    simp only [step] at h
    split at h
    next header hd =>
      split at h
      next hl =>
        cases h
        exact .readPayload hd hl
      next => cases h
    next => cases h
  | readFails =>
    simp only [step] at h
    split at h
    next => cases h
    next n hwn =>
      split at h
      next hc =>
        cases h
        exact .readFails hwn hc.1
      next => cases h
  | deliver =>
    simp only [step] at h
    split at h
    next payload hd =>
      cases h
      split
      next hcl => exact .deliverFails hd hcl
      next hcl => exact .deliver hd (by simpa using hcl)
    next => cases h
  | deviceSends frame =>
    simp only [step] at h
    split at h
    next => cases h
    next hdv =>
      cases h
      exact .deviceSends (by simpa using hdv)
  | deviceLeaves =>
    cases h
    exact .deviceLeaves
  | clientLeaves =>
    cases h
    exact .clientLeaves

variable (w : FrameWrite) (thread : RelayThread) (n : Nat)

theorem endFrame_writing (r : ForwardRelay) (frame : AdbPacket) :
    (r.endFrame frame thread).writing thread = none := by
  cases thread with
  | uploader =>
    simp only [endFrame, writing]
    split
    next hu => split at hu <;> cases hu
    next => rfl
  | downloader =>
    simp only [endFrame, writing]
    split
    next hd => split at hd <;> cases hd
    next => rfl

/-- With its last byte written a frame counts as sent. -/
theorem wrote_last (h : w.done + n = w.frame.encode.length) :
    (r.wrote thread w n).sent = r.sent ++ [w.frame] ∧ (r.wrote thread w n).writing thread = none := by
  rw [wrote, if_pos h]
  exact ⟨by cases thread <;> rfl, endFrame_writing thread _ w.frame⟩

theorem wrote_more (h : w.done + n ≠ w.frame.encode.length) : (r.wrote thread w n).sent = r.sent
      ∧ (r.wrote thread w n).writing thread = some { w with done := w.done + n } := by
  rw [wrote, if_neg h]
  cases thread <;> exact ⟨rfl, rfl⟩

@[simp] theorem wrote_toDevice : (r.wrote thread w n).toDevice = r.toDevice ++ w.taken n := by
  unfold wrote
  split <;> cases thread <;> rfl

@[simp] theorem wrote_deviceGone : (r.wrote thread w n).deviceGone = r.deviceGone := by
  unfold wrote
  split <;> cases thread <;> rfl

@[simp] theorem wrote_writing_other :
    (r.wrote thread w n).writing thread.other = r.writing thread.other := by
  unfold wrote
  split <;> cases thread <;> rfl

@[simp] theorem wrote_clientBytes : (r.wrote thread w n).clientBytes = r.clientBytes := by
  unfold wrote
  split <;> cases thread <;> rfl

@[simp] theorem wrote_deviceSent : (r.wrote thread w n).deviceSent = r.deviceSent := by
  unfold wrote
  split <;> cases thread <;> rfl

@[simp] theorem wrote_toClient : (r.wrote thread w n).toClient = r.toClient := by
  unfold wrote
  split <;> cases thread <;> rfl

theorem failWrite_writing : (r.failWrite w thread).writing thread = none := by
  cases thread with
  | uploader => rfl
  | downloader => exact endFrame_writing .downloader r w.frame

@[simp] theorem failWrite_writing_other :
    (r.failWrite w thread).writing thread.other = r.writing thread.other := by
  cases thread <;> rfl

@[simp] theorem failWrite_sent : (r.failWrite w thread).sent = r.sent := by cases thread <;> rfl

@[simp] theorem failWrite_toDevice : (r.failWrite w thread).toDevice = r.toDevice := by
  cases thread <;> rfl

@[simp] theorem failWrite_deviceGone : (r.failWrite w thread).deviceGone = r.deviceGone := by
  cases thread <;> rfl

end ForwardRelay

end AdbFastboot
