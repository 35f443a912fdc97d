import AdbFastboot.AdbMessage
import AdbFastboot.ByteStream
import AdbFastboot.HostRegistry
import AdbFastboot.StateCall

namespace AdbFastboot

open StateCall

structure Outbox where
  /-- What becomes of the sends to come, in their order: an error, or `none` for a message that goes
  out. Where the list is at its end, they all go out. -/
  faults : List (Option Text)
  sent : List AdbPacket

/-- A connection to a device, as `Transport` shows it: what each receive gives, and the sends. -/
structure Link where
  inbox : List (Except Text AdbPacket)
  out : Outbox

inductive LinkStop where
  | failed (text : Text)
  /-- It waits for a message that does not come. -/
  | waiting
  /-- Its loop goes on after the steps it was given. -/
  | running
deriving DecidableEq, Repr

abbrev SendCall (α : Type) := StateCall Outbox LinkStop α

abbrev LinkCall (α : Type) := StateCall Link LinkStop α

def Outbox.send (p : AdbPacket) : SendCall Unit := ofRun fun out =>
  let out' : Outbox := ⟨out.faults.tail, out.sent ++ [p]⟩
  match out.faults.headD none with
  | some e => (.error (.failed e), out')
  | none => (.ok (), out')

/-- The result of a call that comes back, as a value. A call that waits does not come back. -/
def returned {σ α : Type} (x : StateCall σ LinkStop α) : StateCall σ LinkStop (Except Text α) :=
  ofRun fun s =>
    match x.runOn s with
    | (.ok a, s') => (.ok (.ok a), s')
    | (.error (.failed e), s') => (.ok (.error e), s')
    | (.error stop, s') => (.error stop, s')

theorem keeps_returned {σ α : Type} {inv : σ → Prop} {x : StateCall σ LinkStop α}
    (hx : x.Keeps inv) : (returned x).Keeps inv := by
  intro s hs
  have hr := hx s hs
  rw [returned, runOn_ofRun]
  split <;> simp_all

inductive LoopTurn (β α : Type) where
  | next (b : β)
  | done (a : α)

namespace Link

variable {α β : Type}

def sending (x : SendCall α) : LinkCall α := ofRun fun link =>
  ((x.runOn link.out).1, { link with out := (x.runOn link.out).2 })

def loopFrom (describe : Text → Text) (turn : β → AdbPacket → SendCall (LoopTurn β α)) :
    β → List (Except Text AdbPacket) → Outbox → Except LinkStop α × Link
  | _, [], out => (.error .waiting, ⟨[], out⟩)
  | _, .error e :: rest, out => (.error (.failed (describe e)), ⟨rest, out⟩)
  | b, .ok p :: rest, out =>
    match (turn b p).runOn out with
    | (.error e, out') => (.error e, ⟨rest, out'⟩)
    | (.ok (.next b'), out') => loopFrom describe turn b' rest out'
    | (.ok (.done a), out') => (.ok a, ⟨rest, out'⟩)

def loop (describe : Text → Text) (turn : β → AdbPacket → SendCall (LoopTurn β α)) (b : β) :
    LinkCall α :=
  ofRun fun link => loopFrom describe turn b link.inbox link.out

end Link

/-- A frame of the device on the stream that the client has opened. -/
inductive DeviceFrame where
  | okay
  | wrte (payload : Bytes)
deriving DecidableEq, Repr

structure StreamIds where
  localId : UInt32
  remoteId : UInt32
deriving DecidableEq, Repr

namespace DeviceFrame

def packet (ids : StreamIds) : DeviceFrame → AdbPacket
  | okay => AdbPacket.new aOkay ids.remoteId ids.localId []
  | wrte payload => AdbPacket.new aWrte ids.remoteId ids.localId payload

def payload : DeviceFrame → Bytes
  | okay => []
  | wrte payload => payload

def isWrte : DeviceFrame → Bool
  | okay => false
  | wrte _ => true

def bytes (frames : List DeviceFrame) : Bytes := frames.flatMap payload

def wrtes (frames : List DeviceFrame) : Nat := frames.countP isWrte

def acks (frames : List DeviceFrame) : Nat := frames.count okay

def inbox (ids : StreamIds) (frames : List DeviceFrame) : List (Except Text AdbPacket) :=
  frames.map fun frame => .ok (frame.packet ids)

@[simp] theorem bytes_nil : bytes [] = [] := rfl

@[simp] theorem bytes_cons (frame : DeviceFrame) (frames : List DeviceFrame) :
    bytes (frame :: frames) = frame.payload ++ bytes frames := List.flatMap_cons

variable (front back : List DeviceFrame)

@[simp] theorem bytes_append : bytes (front ++ back) = bytes front ++ bytes back := List.flatMap_append

@[simp] theorem wrtes_nil : wrtes [] = 0 := rfl

@[simp] theorem wrtes_append : wrtes (front ++ back) = wrtes front + wrtes back := List.countP_append

variable (frames : List DeviceFrame)

@[simp] theorem wrtes_okay : wrtes (okay :: frames) = wrtes frames := by
  rfl

@[simp] theorem wrtes_wrte (payload : Bytes) (frames : List DeviceFrame) :
    wrtes (wrte payload :: frames) = wrtes frames + 1 := by
  rw [wrtes, List.countP_cons_of_pos (by rfl)]
  rfl

@[simp] theorem acks_okay : acks (okay :: frames) = acks frames + 1 :=
  List.count_cons_self

@[simp] theorem acks_wrte (payload : Bytes) (frames : List DeviceFrame) :
    acks (wrte payload :: frames) = acks frames := List.count_cons_of_ne (by simp)

@[simp] theorem acks_append : acks (front ++ back) = acks front + acks back := List.count_append

variable (ids : StreamIds)

@[simp] theorem inbox_nil : inbox ids [] = [] := rfl

@[simp] theorem inbox_cons (frame : DeviceFrame) (frames : List DeviceFrame) :
    inbox ids (frame :: frames) = .ok (frame.packet ids) :: inbox ids frames := rfl

@[simp] theorem inbox_append (front back : List DeviceFrame) :
    inbox ids (front ++ back) = inbox ids front ++ inbox ids back := List.map_append

end DeviceFrame

def StreamIds.ack (ids : StreamIds) : AdbPacket := AdbPacket.new aOkay ids.localId ids.remoteId []

def Outbox.Works (out : Outbox) : Prop := out.faults = []

/-- A working outbox takes a packet behind those sent before. -/
theorem Outbox.send_works {out : Outbox} (h : out.Works) (p : AdbPacket) :
    (Outbox.send p).runOn out = (.ok (), ⟨[], out.sent ++ [p]⟩) := by
  obtain ⟨faults, sent⟩ := out
  cases h
  rfl

theorem Outbox.send_keeps (p : AdbPacket) : (Outbox.send p).Keeps Outbox.Works := by
  intro out ho
  rw [Outbox.send_works ho]
  rfl

theorem Outbox.send_returns {out : Outbox} (h : out.Works) (p : AdbPacket) :
    (Outbox.send p).Returns out () Outbox.Works := ⟨_, Outbox.send_works h p, rfl⟩

namespace Link

def Offers (inbox : List (Except Text AdbPacket)) (link : Link) : Prop :=
  link.inbox = inbox ∧ link.out.Works

/-- A link that works and on which these frames are all that comes. -/
def Carries (ids : StreamIds) (frames : List DeviceFrame) (link : Link) : Prop :=
  link.inbox = DeviceFrame.inbox ids frames ∧ link.out.Works

/-- A link that works and on which at most `n` acknowledgements are to come. -/
def AtMost (ids : StreamIds) (n : Nat) (link : Link) : Prop :=
  ∃ frames, link.Carries ids frames ∧ DeviceFrame.acks frames ≤ n

variable {ids : StreamIds} {α β : Type} {describe : Text → Text}
  {turn : β → AdbPacket → SendCall (LoopTurn β α)}

/-- A link that carries frames is their inbox and an outbox without errors. -/
theorem Carries.eq {frames : List DeviceFrame} {link : Link} (h : link.Carries ids frames) :
    ∃ sent, link = ⟨DeviceFrame.inbox ids frames, ⟨[], sent⟩⟩ := by
  obtain ⟨inbox, faults, sent⟩ := link
  obtain ⟨rfl, rfl⟩ := h
  exact ⟨sent, rfl⟩

theorem AtMost.mono {m n : Nat} (hm : m ≤ n) {link : Link} (h : link.AtMost ids m) :
    link.AtMost ids n := by
  obtain ⟨frames, hf, hl⟩ := h
  exact ⟨frames, hf, Nat.le_trans hl hm⟩

theorem loopFrom_atMost (ids : StreamIds) (describe : Text → Text)
    (ht : ∀ b p, (turn b p).Keeps Outbox.Works) (b : β) (frames : List DeviceFrame) {out : Outbox}
    (ho : out.Works) :
    (loopFrom describe turn b (DeviceFrame.inbox ids frames) out).2.AtMost ids
      (DeviceFrame.acks frames) := by
  induction frames generalizing b out with
  | nil => exact ⟨[], ⟨rfl, ho⟩, Nat.le_refl _⟩
  | cons frame frames ih =>
    have hk := ht b (frame.packet ids) out ho
    have hle : DeviceFrame.acks frames ≤ DeviceFrame.acks (frame :: frames) :=
      List.count_le_count_cons
    rw [DeviceFrame.inbox_cons, loopFrom]
    rcases hr : (turn b (frame.packet ids)).runOn out with ⟨r, out'⟩
    rw [hr] at hk
    rcases r with e | ⟨b' | a⟩
    · exact ⟨frames, ⟨rfl, hk⟩, hle⟩
    · exact (ih b' hk).mono hle
    · exact ⟨frames, ⟨rfl, hk⟩, hle⟩

/-- A loop that no payload ends returns on an acknowledgement. -/
theorem loopFrom_takes (ids : StreamIds) (describe : Text → Text)
    (ht : ∀ b p, (turn b p).Keeps Outbox.Works)
    (hw : ∀ b payload (out : Outbox), out.Works → ∀ a,
      ((turn b ((DeviceFrame.wrte payload).packet ids)).runOn out).1 ≠ .ok (.done a))
    (b : β) (frames : List DeviceFrame) {out : Outbox} (ho : out.Works) {a : α}
    (ha : (loopFrom describe turn b (DeviceFrame.inbox ids frames) out).1 = .ok a) :
    ∃ n < DeviceFrame.acks frames,
      (loopFrom describe turn b (DeviceFrame.inbox ids frames) out).2.AtMost ids n := by
  induction frames generalizing b out with
  | nil => cases ha
  | cons frame frames ih =>
    have hk := ht b (frame.packet ids) out ho
    rw [DeviceFrame.inbox_cons, loopFrom] at ha ⊢
    rcases hr : (turn b (frame.packet ids)).runOn out with ⟨r, out'⟩
    rw [hr] at hk ha
    rcases r with e | ⟨b' | a'⟩
    · cases ha
    · obtain ⟨n, hn, hl⟩ := ih b' hk ha
      exact ⟨n, Nat.lt_of_lt_of_le hn List.count_le_count_cons, hl⟩
    · cases frame with
      | okay => exact ⟨DeviceFrame.acks frames, by simp, frames, ⟨rfl, hk⟩, Nat.le_refl _⟩
      | wrte payload => exact absurd (by rw [hr]) (hw b payload out ho a')

/-- A receiving loop never adds to what is to be received. -/
theorem loop_keeps (ht : ∀ b p, (turn b p).Keeps Outbox.Works) (n : Nat) (b : β) :
    (loop describe turn b).Keeps (AtMost ids n) := by
  rintro link ⟨frames, ⟨hi, ho⟩, hl⟩
  rw [loop, runOn_ofRun, hi]
  exact (loopFrom_atMost ids _ ht b frames ho).mono hl

/-- What each turn keeps of the outbox, the loop keeps. -/
theorem loop_keepsOut {inv : Outbox → Prop} (ht : ∀ b p, (turn b p).Keeps inv) (b : β) :
    (loop describe turn b).Keeps fun link => inv link.out := by
  rintro ⟨inbox, out⟩ ho
  change inv (loopFrom describe turn b inbox out).2.out
  induction inbox generalizing b out with
  | nil => exact ho
  | cons received rest ih =>
    cases received with
    | error e => exact ho
    | ok p =>
      have hk := ht b p out ho
      rw [loopFrom]
      rcases hr : (turn b p).runOn out with ⟨r, out'⟩
      rw [hr] at hk
      rcases r with e | ⟨b' | a⟩
      · exact hk
      · exact ih b' out' hk
      · exact hk

variable {x : SendCall α}

theorem sending_keepsOut {inv : Outbox → Prop} (hx : x.Keeps inv) :
    (sending x).Keeps fun link => inv link.out := fun link hl => hx link.out hl

theorem sending_returns {link : Link} {inbox : List (Except Text AdbPacket)} {a : α}
    (hi : link.inbox = inbox) (hx : x.Returns link.out a Outbox.Works) :
    (sending x).Returns link a (Offers inbox) := by
  obtain ⟨out, hr, ho⟩ := hx
  exact ⟨⟨link.inbox, out⟩, by rw [sending, runOn_ofRun, hr], hi, ho⟩

theorem sending_keeps (hx : x.Keeps Outbox.Works) (n : Nat) : (sending x).Keeps (AtMost ids n) := by
  rintro link ⟨frames, ⟨hi, ho⟩, hl⟩
  exact ⟨frames, ⟨hi, hx _ ho⟩, hl⟩

end Link

def calculateChecksum (payload : Bytes) : UInt32 :=
  payload.foldl (fun sum b => sum + b.toUInt32) 0

def AdbMessageHeader.verifyPayload (h : AdbMessageHeader) (payload : Bytes) :
    Except HeaderError Unit :=
  if payload.length ≠ h.dataLength.toNat then .error (.bufferTooShort payload.length)
  else if h.dataCheck = 0 then .ok ()
  else if calculateChecksum payload ≠ h.dataCheck then
    .error (.checksumMismatch h.dataCheck (calculateChecksum payload))
  else .ok ()

/-- What the A_WRTE frames among `sent` carry. -/
def AdbPacket.wrtePayloads (sent : List AdbPacket) : List Bytes :=
  (sent.filter fun p => p.header.command == aWrte).map AdbPacket.payload

theorem wrtePayloads_wrte (sent : List AdbPacket) (arg0 arg1 : UInt32) (payload : Bytes) :
    AdbPacket.wrtePayloads (sent ++ [AdbPacket.new aWrte arg0 arg1 payload])
      = AdbPacket.wrtePayloads sent ++ [payload] := by
  rw [AdbPacket.wrtePayloads, List.filter_append, List.map_append]
  rfl

theorem wrtePayloads_okay (sent : List AdbPacket) (arg0 arg1 : UInt32) :
    AdbPacket.wrtePayloads (sent ++ [AdbPacket.new aOkay arg0 arg1 []])
      = AdbPacket.wrtePayloads sent := by
  rw [AdbPacket.wrtePayloads, List.filter_append, List.map_append]
  exact List.append_nil _

end AdbFastboot
