import AdbFastboot.AdbMessage
import AdbFastboot.StepRun
import Mathlib.Logic.Function.Basic

namespace AdbFastboot

/-- The two functions that bridge a client and a device stream. They differ at the end of the
client's data. -/
inductive BridgeKind where
  | smartRemote
  | smartSocket
deriving DecidableEq, Repr

/-- Where the thread that serves a client stands: it opens the stream, then relays from the client
to the device. -/
inductive Writer where
  | fresh
  | allocated
  | opening
  | relaying
  | sending (chunk : Bytes)
  | awaiting
  /-- The client has closed, and A_CLSE is to be sent. -/
  | closing
  | ended
deriving DecidableEq, Repr

/-- Where the thread stands that relays from the device to the client. -/
inductive Reader where
  | absent
  | receiving
  | acking (frame : AdbPacket)
  | writing (frame : AdbPacket)
  | closing (frame : AdbPacket)
  | ended
deriving DecidableEq, Repr

def Reader.inHand : Reader → List AdbPacket
  | .acking frame | .writing frame => [frame]
  | _ => []

inductive Side where
  | writer
  | reader
deriving DecidableEq, Repr

structure Session where
  kind : BridgeKind
  localId : UInt32
  remoteId : UInt32
  writer : Writer
  reader : Reader
  clientGone : Bool
  openedBy : Option AdbPacket
  delivered : List AdbPacket
  chunksRead : List Bytes
  chunksSent : List Bytes
deriving DecidableEq, Repr

def relayBufSize : Nat := 65536

inductive LocalAction where
  | sendOpen (service : Bytes)
  | readChunk (data : Bytes)
  | readEof
  | readError
  | sendChunk
  | sendClose
  | sendAck
  | writeClient
  | sendCloseAck
  | leave
deriving DecidableEq, Repr

namespace Session

def new (kind : BridgeKind) : Session where
  kind := kind
  localId := 0
  remoteId := 0
  writer := .fresh
  reader := .absent
  clientGone := false
  openedBy := none
  delivered := []
  chunksRead := []
  chunksSent := []

/-- The session after an action that its threads can take, and the frames sent by it. -/
def act (s : Session) : LocalAction → Option (Session × List AdbPacket)
  | .sendOpen service =>
    match s.writer with
    | .allocated => some ({ s with writer := .opening }, [.new aOpen s.localId 0 service])
    | _ => none
  | .readChunk data =>
    match s.writer with
    | .relaying =>
      if data ≠ [] ∧ data.length ≤ relayBufSize then
        some ({ s with writer := .sending data, chunksRead := s.chunksRead ++ [data] }, [])
      else none
    | _ => none
  | .readEof =>
    match s.writer, s.kind with
    | .relaying, .smartRemote => some ({ s with writer := .closing }, [])
    | .relaying, .smartSocket => some ({ s with writer := .ended }, [])
    | _, _ => none
  | .readError =>
    match s.writer with
    | .relaying => some ({ s with writer := .ended }, [])
    | _ => none
  | .sendChunk =>
    match s.writer with
    | .sending chunk =>
      some ({ s with writer := .awaiting, chunksSent := s.chunksSent ++ [chunk] },
        [.new aWrte s.localId s.remoteId chunk])
    | _ => none
  | .sendClose =>
    match s.writer with
    | .closing => some ({ s with writer := .ended }, [.new aClse s.localId s.remoteId []])
    | _ => none
  | .sendAck =>
    match s.reader with
    | .acking frame =>
      some ({ s with reader := .writing frame },
        [.new aOkay frame.header.arg1 frame.header.arg0 []])
    | _ => none
  | .writeClient =>
    match s.reader with
    | .writing frame =>
      if s.clientGone then some ({ s with reader := .ended }, [])
      else some ({ s with reader := .receiving, delivered := s.delivered ++ [frame] }, [])
    | _ => none
  | .sendCloseAck =>
    match s.reader with
    | .closing frame =>
      some ({ s with reader := .ended }, [.new aClse frame.header.arg1 frame.header.arg0 []])
    | _ => none
  | .leave => some ({ s with clientGone := true }, [])

inductive Acted (s : Session) : LocalAction → Session → List AdbPacket → Prop where
  | sendOpen (service : Bytes) (hw : s.writer = .allocated) :
    Acted s (.sendOpen service) { s with writer := .opening } [.new aOpen s.localId 0 service]
  | readChunk (data : Bytes) (hw : s.writer = .relaying) :
    Acted s (.readChunk data)
      { s with writer := .sending data, chunksRead := s.chunksRead ++ [data] } []
  | readEof (w : Writer) (hw : s.writer = .relaying) (hend : w = .closing ∨ w = .ended) :
    Acted s .readEof { s with writer := w } []
  | readError (hw : s.writer = .relaying) : Acted s .readError { s with writer := .ended } []
  | sendChunk (chunk : Bytes) (hw : s.writer = .sending chunk) :
    Acted s .sendChunk { s with writer := .awaiting, chunksSent := s.chunksSent ++ [chunk] }
      [.new aWrte s.localId s.remoteId chunk]
  | sendClose (hw : s.writer = .closing) :
    Acted s .sendClose { s with writer := .ended } [.new aClse s.localId s.remoteId []]
  | sendAck (frame : AdbPacket) (hrd : s.reader = .acking frame) :
    Acted s .sendAck { s with reader := .writing frame }
      [.new aOkay frame.header.arg1 frame.header.arg0 []]
  | writeGone (frame : AdbPacket) (hrd : s.reader = .writing frame) (hgone : s.clientGone = true) :
    Acted s .writeClient { s with reader := .ended } []
  | writeClient (frame : AdbPacket) (hrd : s.reader = .writing frame) :
    Acted s .writeClient
      { s with reader := .receiving, delivered := s.delivered ++ [frame] } []
  | sendCloseAck (frame : AdbPacket) (hrd : s.reader = .closing frame) :
    Acted s .sendCloseAck { s with reader := .ended }
      [.new aClse frame.header.arg1 frame.header.arg0 []]
  | leave : Acted s .leave { s with clientGone := true } []

/-- The actions of a session, one case for each. -/
theorem act_acted {s s' : Session} {action : LocalAction} {sent : List AdbPacket}
    (h : s.act action = some (s', sent)) : Acted s action s' sent := by
  cases action with
  | sendOpen service =>
    simp only [act] at h
    split at h
    next hw =>
      cases h
      exact .sendOpen service hw
    next => cases h
  | readChunk data =>
    simp only [act] at h
    split at h
    next hw =>
      split at h
      next =>
        cases h
        exact .readChunk data hw
      next => cases h
    next => cases h
  | readEof =>
    simp only [act] at h
    split at h
    next hw _ =>
      cases h
      exact .readEof .closing hw (.inl rfl)
    next hw _ =>
      cases h
      exact .readEof .ended hw (.inr rfl)
    next => cases h
  | readError =>
    simp only [act] at h
    split at h
    next hw =>
      cases h
      exact .readError hw
    next => cases h
  | sendChunk =>
    simp only [act] at h
    split at h
    next chunk hw =>
      cases h
      exact .sendChunk chunk hw
    next => cases h
  | sendClose =>
    simp only [act] at h
    split at h
    next hw =>
      cases h
      exact .sendClose hw
    next => cases h
  | sendAck =>
    simp only [act] at h
    split at h
    next frame hr =>
      cases h
      exact .sendAck frame hr
    next => cases h
  | writeClient =>
    simp only [act] at h
    split at h
    next frame hr =>
      split at h
      next hg =>
        cases h
        exact .writeGone frame hr hg
      cases h
      exact .writeClient frame hr
    next => cases h
  | sendCloseAck =>
    simp only [act] at h
    split at h
    next frame hr =>
      cases h
      exact .sendCloseAck frame hr
    next => cases h
  | leave =>
    cases h
    exact .leave

theorem not_open_of_command {command arg0 arg1 : UInt32} {payload : Bytes} (h : command ≠ aOpen) :
    ∀ f ∈ [AdbPacket.new command arg0 arg1 payload], f.header.command ≠ aOpen := by
  intro f hf
  cases List.mem_singleton.mp hf
  exact h

def receives (s : Session) : Side → Bool
  | .writer => decide (s.writer = .opening ∨ s.writer = .awaiting)
  | .reader => decide (s.reader = .receiving)

/-- Without a second handle on the transport the bridge gives up after the open. -/
def take (s : Session) (clones : Bool) (side : Side) (frame : AdbPacket) : Session :=
  match side with
  | .writer =>
    if frame.header.command ≠ aOkay then { s with writer := .ended }
    else if s.writer = .opening then
      let opened := { s with remoteId := frame.header.arg0, openedBy := some frame }
      if clones then { opened with writer := .relaying, reader := .receiving }
      else { opened with writer := .ended }
    else { s with writer := .relaying }
  | .reader =>
    if frame.header.command = aWrte then { s with reader := .acking frame }
    else if frame.header.command = aClse then { s with reader := .closing frame }
    else s

end Session

structure Relay (C : Type) where
  /-- `try_clone_box` gives a handle on the same transport. -/
  clones : Bool
  /-- The frames that the device has sent and no thread has received. -/
  queue : List AdbPacket
  /-- The thread that holds the transport's lock while it receives. -/
  holder : Option (C × Side)
  nextLocalId : UInt32
  sessions : C → Session
  outbox : List AdbPacket
  emitted : List AdbPacket

inductive RelayAction (C : Type) where
  | device (frame : AdbPacket)
  | allocate (c : C)
  | act (c : C) (action : LocalAction)
  /-- The thread calls `recv_message` and takes the lock. -/
  | enter (c : C) (side : Side)
  /-- The thread receives the first frame and gives the lock back. -/
  | take (c : C) (side : Side)
deriving DecidableEq, Repr

namespace Relay

variable {C : Type} [DecidableEq C]

def start (clones : Bool) (kind : C → BridgeKind) : Relay C where
  clones := clones
  queue := []
  holder := none
  nextLocalId := 1
  sessions := fun c => .new (kind c)
  outbox := []
  emitted := []

def setSession (r : Relay C) (c : C) (s : Session) : Relay C :=
  { r with sessions := Function.update r.sessions c s }

@[simp] theorem setSession_self (r : Relay C) (c : C) (s : Session) :
    (r.setSession c s).sessions c = s := Function.update_self ..

theorem setSession_of_ne (r : Relay C) {c c' : C} (h : c' ≠ c) (s : Session) :
    (r.setSession c s).sessions c' = r.sessions c' := Function.update_of_ne h ..

/-- A send, too, needs the lock. -/
def step (r : Relay C) : RelayAction C → Option (Relay C)
  | .device frame =>
    some { r with queue := r.queue ++ [frame], emitted := r.emitted ++ [frame] }
  | .allocate c =>
    if (r.sessions c).writer = .fresh then
      some { r.setSession c { r.sessions c with writer := .allocated, localId := r.nextLocalId } with
        nextLocalId := r.nextLocalId + 1 }
    else none
  | .act c action =>
    match (r.sessions c).act action with
    | none => none
    | some (s, sent) =>
      if sent = [] ∨ r.holder = none then
        some { r.setSession c s with outbox := r.outbox ++ sent }
      else none
  | .enter c side =>
    if r.holder = none ∧ (r.sessions c).receives side = true then
      some { r with holder := some (c, side) }
    else none
  | .take c side =>
    match r.queue with
    | [] => none
    | frame :: queue =>
      if r.holder = some (c, side) then
        some { r.setSession c ((r.sessions c).take r.clones side frame) with
          queue := queue
          holder := none }
      else none

inductive Stepped (r : Relay C) : RelayAction C → Relay C → Prop where
  | device (frame : AdbPacket) :
    Stepped r (.device frame)
      { r with queue := r.queue ++ [frame], emitted := r.emitted ++ [frame] }
  | allocate (c : C) (hfresh : (r.sessions c).writer = .fresh) :
    Stepped r (.allocate c)
      { r.setSession c { r.sessions c with writer := .allocated, localId := r.nextLocalId } with
        nextLocalId := r.nextLocalId + 1 }
  | act (c : C) (action : LocalAction) (s : Session) (sent : List AdbPacket)
      (hact : (r.sessions c).act action = some (s, sent)) :
    Stepped r (.act c action) { r.setSession c s with outbox := r.outbox ++ sent }
  | enter (c : C) (side : Side) (hreceives : (r.sessions c).receives side = true) :
    Stepped r (.enter c side) { r with holder := some (c, side) }
  | take (c : C) (side : Side) (frame : AdbPacket) (queue : List AdbPacket)
      (hqueue : r.queue = frame :: queue) (hholder : r.holder = some (c, side)) :
    Stepped r (.take c side)
      { r.setSession c ((r.sessions c).take r.clones side frame) with
        queue := queue
        holder := none }

/-- The steps of the relay, one case for each kind. -/
theorem step_stepped {r r' : Relay C} {action : RelayAction C} (hr : r.step action = some r') :
    Stepped r action r' := by
  cases action with
  | device frame =>
    cases hr
    exact .device frame
  | allocate c =>
    simp only [step] at hr
    split at hr
    next hf =>
      cases hr
      exact .allocate c hf
    next => cases hr
  | act c action =>
    simp only [step] at hr
    split at hr
    next => cases hr
    next s sent ha =>
      split at hr
      next =>
        cases hr
        exact .act c action s sent ha
      next => cases hr
  | enter c side =>
    simp only [step] at hr
    split at hr
    next hfre =>
      cases hr
      exact .enter c side hfre.2
    next => cases hr
  | take c side =>
    simp only [step] at hr
    split at hr
    next => cases hr
    next frame queue hq =>
      split at hr
      next hh =>
        cases hr
        exact .take c side frame queue hq hh
      next => cases hr

def streamOpened (r : Relay C) (id : UInt32) : Bool :=
  r.outbox.any fun f => decide (f.header.command = aOpen ∧ f.header.arg0 = id)

def streamAccepted (r : Relay C) (id : UInt32) : Bool :=
  r.emitted.any fun f => decide (f.header.command = aOkay ∧ f.header.arg1 = id)

def streamClosed (r : Relay C) (id : UInt32) : Bool :=
  r.emitted.any fun f => decide (f.header.command = aClse ∧ f.header.arg1 = id)

def asked (r : Relay C) (id : UInt32) : Nat :=
  r.outbox.countP fun f =>
    decide ((f.header.command = aOpen ∨ f.header.command = aWrte) ∧ f.header.arg0 = id)

def answered (r : Relay C) (id : UInt32) : Nat :=
  r.emitted.countP fun f => decide (f.header.command = aOkay ∧ f.header.arg1 = id)

/-- What a device may send: on a stream that was opened and that it has not closed, one OKAY for each
A_OPEN and A_WRTE, A_WRTE once it has accepted the stream, and A_CLSE, always under its own id. -/
def conforms (r : Relay C) (frame : AdbPacket) : Bool :=
  let id := frame.header.arg1
  r.streamOpened id && !r.streamClosed id
    && r.emitted.all (fun f => decide (f.header.arg1 = id → f.header.arg0 = frame.header.arg0))
    && (decide (frame.header.command = aOkay ∧ r.answered id < r.asked id)
      || decide (frame.header.command = aWrte ∧ r.streamAccepted id = true)
      || decide (frame.header.command = aClse))

def DeviceConforms (r : Relay C) : RelayAction C → Prop
  | .device frame => r.conforms frame = true
  | _ => True

instance (r : Relay C) (action : RelayAction C) : Decidable (r.DeviceConforms action) :=
  match action with
  | .device frame => inferInstanceAs (Decidable (r.conforms frame = true))
  | .allocate _ | .act _ _ | .enter _ _ | .take _ _ => isTrue trivial

end Relay

end AdbFastboot
