import AdbFastboot.BridgeRelay
import Mathlib.Data.Fintype.Basic

namespace AdbFastboot

open List

namespace Session

/-- The client has got, or will get, payloads of its own stream only, and the stream was opened by
an OKAY for it. -/
structure OwnFrames (s : Session) : Prop where
  frames : ∀ f ∈ s.delivered ++ s.reader.inHand,
    f.header.command = aWrte ∧ f.header.arg1 = s.localId
  opened : ∀ f ∈ s.openedBy, f.header.command = aOkay ∧ f.header.arg1 = s.localId
  fresh : s.writer = .fresh → s.reader = .absent ∧ s.delivered = [] ∧ s.openedBy = none

theorem new_ownFrames (kind : BridgeKind) : (new kind).OwnFrames where
  frames := nofun
  opened := nofun
  fresh := fun _ => ⟨rfl, rfl, rfl⟩

variable {s s' : Session} {sent : List AdbPacket}

structure Continues (s s' : Session) : Prop where
  localId_eq : s'.localId = s.localId
  openedBy_eq : s'.openedBy = s.openedBy
  frames : ∀ f ∈ s'.delivered ++ s'.reader.inHand, f ∈ s.delivered ++ s.reader.inHand
  fresh : s'.writer = .fresh → s.writer = .fresh
  absent : s.reader = .absent → s'.reader = .absent

/-- Whatever a session does by itself, it has only frames of its own stream. -/
theorem OwnFrames.continues (h : s.OwnFrames) (hs : s.Continues s') : s'.OwnFrames where
  frames := by
    intro f hf
    rw [hs.localId_eq]
    exact h.frames f (hs.frames f hf)
  opened := by
    rw [hs.localId_eq, hs.openedBy_eq]
    exact h.opened
  fresh := by
    intro hw
    obtain ⟨hr, hd, ho⟩ := h.fresh (hs.fresh hw)
    refine ⟨hs.absent hr, ?_, hs.openedBy_eq.trans ho⟩
    refine eq_nil_iff_forall_not_mem.mpr fun f hf => ?_
    have hm := hs.frames f (mem_append_left _ hf)
    rw [hd, hr] at hm
    cases hm

theorem continues_writer {w : Writer} {chunksRead chunksSent : List Bytes} (hw : w ≠ .fresh) :
    s.Continues { s with writer := w, chunksRead := chunksRead, chunksSent := chunksSent } where
  localId_eq := rfl
  openedBy_eq := rfl
  frames := fun _ => id
  fresh := fun hf => absurd hf hw
  absent := id

theorem continues_reader {rd : Reader} {delivered : List AdbPacket} (ha : s.reader ≠ .absent)
    (hf : ∀ f ∈ delivered ++ rd.inHand, f ∈ s.delivered ++ s.reader.inHand) :
    s.Continues { s with reader := rd, delivered := delivered } where
  localId_eq := rfl
  openedBy_eq := rfl
  frames := hf
  fresh := id
  absent := fun h => absurd h ha

/-- No action of a session changes its id or gets it a frame. -/
theorem act_continues {action : LocalAction} (h : s.act action = some (s', sent)) : s.Continues s' := by
  cases act_acted h with
  | sendOpen _ hw | readChunk _ hw => exact continues_writer (by simp)
  | readEof w hw he => exact continues_writer (by rcases he with rfl | rfl <;> simp)
  | readError hw | sendChunk _ hw | sendClose hw => exact continues_writer (by simp)
  | sendAck frame hr =>
    refine continues_reader (by simp [hr]) fun f hf => ?_
    rw [hr]
    exact hf
  | writeGone frame hr hg =>
    refine continues_reader (by simp [hr]) fun f hf => ?_
    simp only [Reader.inHand, append_nil] at hf
    exact mem_append_left _ hf
  | writeClient frame hr =>
    refine continues_reader (by simp [hr]) fun f hf => ?_
    rw [hr]
    simpa [Reader.inHand] using hf
  | sendCloseAck frame hr =>
    refine continues_reader (by simp [hr]) fun f hf => ?_
    rw [hr]
    exact hf
  | leave => exact ⟨rfl, rfl, fun _ => id, id, id⟩

/-- No thread of the session is at work: it has not begun, or it has ended. -/
def Idle (s : Session) : Prop :=
  (s.writer = .fresh ∨ s.writer = .allocated ∨ s.writer = .ended) ∧
    (s.reader = .absent ∨ s.reader = .ended)

instance (s : Session) : Decidable s.Idle := by
  unfold Idle
  infer_instance

theorem not_idle_of_receives {side : Side} (hr : s.receives side = true) : ¬s.Idle := by
  rintro ⟨hw, hrd⟩
  cases side with
  | writer => rcases hw with hw | hw | hw <;> simp [receives, hw] at hr
  | reader => rcases hrd with hrd | hrd <;> simp [receives, hrd] at hr

/-- A thread that receives goes on receiving whatever the session does otherwise. -/
theorem act_receives {action : LocalAction} (h : s.act action = some (s', sent)) {side : Side}
    (hr : s.receives side = true) : s'.receives side = true := by
  cases act_acted h <;> cases side <;> simp_all [receives]

/-- Only A_OPEN sets an idle session to work. -/
theorem act_opens {action : LocalAction} (h : s.act action = some (s', sent)) :
    (∃ service, action = .sendOpen service ∧ sent = [.new aOpen s.localId 0 service]) ∨
      (s.Idle → s'.Idle) ∧ ∀ f ∈ sent, f.header.command ≠ aOpen := by
  cases act_acted h with
  | sendOpen service => exact .inl ⟨service, rfl, rfl⟩
  | readChunk _ hw | readEof _ hw | readError hw => exact .inr ⟨by simp [Idle, hw], nofun⟩
  | sendChunk _ hw | sendClose hw =>
    exact .inr ⟨by simp [Idle, hw], not_open_of_command (by decide)⟩
  | sendAck _ hr | sendCloseAck _ hr =>
    exact .inr ⟨by simp [Idle, hr], not_open_of_command (by decide)⟩
  | writeGone _ hr | writeClient _ hr => exact .inr ⟨by simp [Idle, hr], nofun⟩
  | leave => exact .inr ⟨id, nofun⟩

theorem take_localId (clones : Bool) (side : Side) (frame : AdbPacket) :
    (s.take clones side frame).localId = s.localId := by
  cases side with
  | writer =>
    simp only [take]
    split
    next => rfl
    split
    next => split <;> rfl
    next => rfl
  | reader =>
    simp only [take]
    split
    next => rfl
    split <;> rfl

variable (h : s.OwnFrames)
include h

theorem OwnFrames.not_fresh_of_receives {side : Side} (hr : s.receives side = true) :
    s.writer ≠ .fresh := by
  intro hw
  cases side with
  | writer => simp [receives, hw] at hr
  | reader => simp [receives, (h.fresh hw).1] at hr

theorem OwnFrames.take_writer (clones : Bool) {frame : AdbPacket}
    (hown : frame.header.arg1 = s.localId) : (s.take clones .writer frame).OwnFrames := by
  simp only [take]
  split
  next => exact h.continues (continues_writer nofun)
  next hc =>
    have ho : ∀ f ∈ some frame, f.header.command = aOkay ∧ f.header.arg1 = s.localId := by
      intro f hf
      cases hf
      exact ⟨not_not.mp hc, hown⟩
    split
    next =>
      split
      next =>
        refine ⟨fun f hf => h.frames f ?_, ho, nofun⟩
        simp only [Reader.inHand, append_nil] at hf
        exact mem_append_left _ hf
      next => exact ⟨h.frames, ho, nofun⟩
    next => exact h.continues (continues_writer nofun)

/-- A reader that takes a frame for its stream has only its own frames. -/
theorem OwnFrames.take_reader (hfr : s.writer ≠ .fresh) (clones : Bool) {frame : AdbPacket}
    (ho : frame.header.arg1 = s.localId) : (s.take clones .reader frame).OwnFrames := by
  have hd : ∀ f ∈ s.delivered, f.header.command = aWrte ∧ f.header.arg1 = s.localId :=
    fun f hf => h.frames f (mem_append_left _ hf)
  simp only [take]
  split
  next hc =>
    refine ⟨fun f hf => ?_, h.opened, fun hw => absurd hw hfr⟩
    rcases mem_append.mp hf with hf | hf
    · exact hd f hf
    · cases mem_singleton.mp hf
      exact ⟨hc, ho⟩
  next =>
    split
    next =>
      refine ⟨fun f hf => ?_, h.opened, fun hw => absurd hw hfr⟩
      simp only [Reader.inHand, append_nil] at hf
      exact hd f hf
    next => exact h

end Session

namespace Relay

section

variable {C : Type}

/-- Every client has got payloads of its own stream only, and every stream was opened by an OKAY for
it. -/
structure Isolated (r : Relay C) : Prop where
  delivered : ∀ c, ∀ f ∈ (r.sessions c).delivered,
    f.header.command = aWrte ∧ f.header.arg1 = (r.sessions c).localId
  opened : ∀ c, ∀ f ∈ (r.sessions c).openedBy,
    f.header.command = aOkay ∧ f.header.arg1 = (r.sessions c).localId

/-- The device follows the protocol, and a stream is opened when all earlier ones are over: their
threads have ended, the device has closed them, and all that it sent has been received. -/
def OneAtATime (r : Relay C) : RelayAction C → Prop
  | .device frame => r.conforms frame = true
  | .act _ (.sendOpen _) => r.queue = [] ∧ (∀ c, (r.sessions c).Idle) ∧
      ∀ f ∈ r.outbox, f.header.command = aOpen → r.streamClosed f.header.arg0 = true
  | _ => True

instance [Fintype C] (r : Relay C) (action : RelayAction C) : Decidable (r.OneAtATime action) := by
  unfold OneAtATime
  split <;> infer_instance

/-- Only the stream `id` is open: all others have been closed, and what is on its way is for it. -/
structure Serves (queue outbox emitted : List AdbPacket) (id : UInt32) : Prop where
  queue : ∀ f ∈ queue, f.header.arg1 = id
  opens : ∀ f ∈ outbox, f.header.command = aOpen →
    (∃ g ∈ emitted, g.header.command = aClse ∧ g.header.arg1 = f.header.arg0) ∨ f.header.arg0 = id

structure OwnInv (holder : Option (C × Side)) (queue outbox emitted : List AdbPacket) (c : C)
    (s : Session) : Prop where
  own : s.OwnFrames
  holder : ∀ side, holder = some (c, side) → s.receives side = true
  serves : s.Idle ∨ Serves queue outbox emitted s.localId

def AllOwn (r : Relay C) : Prop :=
  ∀ c, OwnInv r.holder r.queue r.outbox r.emitted c (r.sessions c)

theorem AllOwn.isolated {r : Relay C} (h : r.AllOwn) : r.Isolated where
  delivered := fun c f hf => (h c).own.frames f (mem_append_left _ hf)
  opened := fun c => (h c).own.opened

theorem streamClosed_iff {r : Relay C} {id : UInt32} : r.streamClosed id = true ↔
    ∃ g ∈ r.emitted, g.header.command = aClse ∧ g.header.arg1 = id := by
  simp [streamClosed]

/-- A frame of a device that follows the protocol is for the one stream that is open. -/
theorem Serves.device {r : Relay C} {id : UInt32} (h : Serves r.queue r.outbox r.emitted id)
    {frame : AdbPacket} (hc : r.conforms frame = true) :
    Serves (r.queue ++ [frame]) r.outbox (r.emitted ++ [frame]) id := by
  simp only [conforms, Bool.and_eq_true, Bool.not_eq_true'] at hc
  obtain ⟨⟨⟨ho, hn⟩, -⟩, -⟩ := hc
  refine ⟨forall_mem_append.mpr ⟨h.queue, forall_mem_singleton.mpr ?_⟩, fun f hf hop => ?_⟩
  · obtain ⟨f, hf, hop⟩ := any_eq_true.mp ho
    obtain ⟨hop, hid⟩ := of_decide_eq_true hop
    rcases h.opens f hf hop with hcl | hs
    · rw [hid, ← streamClosed_iff, hn] at hcl
      cases hcl
    · exact hid.symm.trans hs
  · refine (h.opens f hf hop).imp_left fun ⟨g, hg, hcl⟩ => ⟨g, mem_append_left _ hg, hcl⟩

/-- A stream that is opened when all others are closed is the only one. -/
theorem Serves.of_closed {r : Relay C} (hq : r.queue = [])
    (hcl : ∀ f ∈ r.outbox, f.header.command = aOpen → r.streamClosed f.header.arg0 = true)
    (id : UInt32) (service : Bytes) :
    Serves r.queue (r.outbox ++ [.new aOpen id 0 service]) r.emitted id := by
  refine ⟨by simp [hq], fun f hf hop => ?_⟩
  rcases mem_append.mp hf with hf | hf
  · exact .inl (streamClosed_iff.mp (hcl f hf hop))
  · cases mem_singleton.mp hf
    exact .inr rfl

section

variable {queue outbox emitted : List AdbPacket} {id : UInt32}

theorem Serves.send {sent : List AdbPacket} (h : Serves queue outbox emitted id)
    (hno : ∀ f ∈ sent, f.header.command ≠ aOpen) : Serves queue (outbox ++ sent) emitted id :=
  ⟨h.queue, forall_mem_append.mpr ⟨h.opens, fun f hf hop => absurd hop (hno f hf)⟩⟩

theorem Serves.tail {frame : AdbPacket} (h : Serves (frame :: queue) outbox emitted id) :
    Serves queue outbox emitted id :=
  ⟨fun f hf => h.queue f (mem_cons_of_mem _ hf), h.opens⟩

end

theorem start_allOwn (clones : Bool) (kind : C → BridgeKind) : (start clones kind).AllOwn :=
  fun c => ⟨Session.new_ownFrames (kind c), nofun, .inl ⟨.inl rfl, .inl rfl⟩⟩

end

variable {C : Type} [DecidableEq C]

section

variable {r r' : Relay C}

theorem forall_setSession {p : C → Session → Prop} (h : ∀ c, p c (r.sessions c)) {c : C}
    {s : Session} (hs : p c s) (c' : C) : p c' ((r.setSession c s).sessions c') := by
  by_cases hc : c' = c
  · subst hc
    rw [setSession_self]
    exact hs
  · rw [setSession_of_ne r hc]
    exact h c'

/-- A step at which streams are opened one at a time keeps them apart. -/
theorem step_allOwn {action : RelayAction C} (h : r.AllOwn) (hone : r.OneAtATime action)
    (hr : r.step action = some r') : r'.AllOwn := by
  cases step_stepped hr with
  | device frame =>
    exact fun c => { h c with serves := (h c).serves.imp_right (·.device hone) }
  | allocate c hf =>
    obtain ⟨hrd, hd, hop⟩ := (h c).own.fresh hf
    refine forall_setSession (p := OwnInv r.holder r.queue r.outbox r.emitted) h
      ⟨⟨?_, ?_, nofun⟩, fun side hh => ?_, .inl ⟨.inr (.inl rfl), .inl hrd⟩⟩
    · simp [hrd, hd, Reader.inHand]
    · simp [hop]
    · exact absurd ⟨.inl hf, .inl hrd⟩ (Session.not_idle_of_receives ((h c).holder side hh))
  | act c action s sent ha =>
    have hs := Session.act_continues ha
    have ho := (h c).own.continues hs
    have hrc := fun side hh => Session.act_receives ha ((h c).holder side hh)
    rcases Session.act_opens ha with ⟨service, rfl, rfl⟩ | ⟨hi, hno⟩
    · obtain ⟨hq, hid, hcl⟩ := hone
      refine forall_setSession (p := OwnInv r.holder r.queue (r.outbox ++ _) r.emitted)
        (fun c => { h c with serves := .inl (hid c) }) ⟨ho, hrc, .inr ?_⟩
      rw [hs.localId_eq]
      exact .of_closed hq hcl _ service
    · refine forall_setSession (p := OwnInv r.holder r.queue (r.outbox ++ sent) r.emitted)
        (fun c => { h c with serves := (h c).serves.imp_right (·.send hno) }) ⟨ho, hrc, ?_⟩
      rw [hs.localId_eq]
      exact (h c).serves.imp hi (·.send hno)
  | enter c side hrv =>
    refine fun c' => { h c' with holder := fun side' hh => ?_ }
    cases hh
    exact hrv
  | take c side frame queue hq hh =>
    have hrv := (h c).holder side hh
    have hall (c : C) := (h c).serves
    rw [hq] at hall
    have hsv := (hall c).resolve_left (Session.not_idle_of_receives hrv)
    have hf := hsv.queue frame mem_cons_self
    refine forall_setSession (p := OwnInv none queue r.outbox r.emitted)
      (fun c => ⟨(h c).own, nofun, (hall c).imp_right (·.tail)⟩) ⟨?_, nofun, .inr ?_⟩
    · cases side with
      | writer => exact (h c).own.take_writer r.clones hf
      | reader => exact (h c).own.take_reader ((h c).own.not_fresh_of_receives hrv) r.clones hf
    · rw [Session.take_localId]
      exact hsv.tail

end

/-- In every run in which streams are opened one at a time, and the device follows the protocol, the
clients are isolated. -/
theorem clients_isolated (clones : Bool) (kind : C → BridgeKind) {actions : List (RelayAction C)}
    {r : Relay C} (hmeet : StepsMeet step OneAtATime (start clones kind) actions)
    (hrun : runSteps step (start clones kind) actions = some r) : r.Isolated :=
  (runSteps_invariant step_allOwn (start_allOwn clones kind) hmeet hrun).isolated

def openStream (c : Bool) (localId remoteId : UInt32) : List (RelayAction Bool) :=
  [.allocate c, .act c (.sendOpen []), .device (.new aOkay remoteId localId []), .enter c .writer,
    .take c .writer]

/-- The first client's stream is closed before the second client opens its own. -/
def inTurn : List (RelayAction Bool) :=
  openStream false 1 7 ++
    [.act false .readEof, .act false .sendClose, .device (.new aClse 7 1 []), .enter false .reader,
      .take false .reader, .act false .sendCloseAck] ++
    openStream true 2 8 ++
    [.device (.new aWrte 8 2 [0x78]), .enter true .reader, .take true .reader, .act true .sendAck,
      .act true .writeClient]

theorem clients_isolated_inTurn :
    ∃ r, runSteps step (start true fun _ => .smartRemote) inTurn = some r ∧ r.Isolated ∧
      (r.sessions true).delivered = [.new aWrte 8 2 [0x78]] := by
  have hm : StepsMeet step OneAtATime (start true fun _ : Bool => .smartRemote) inTurn := by decide
  exact ⟨_, rfl, clients_isolated true (fun _ => .smartRemote) hm rfl, rfl⟩

/-- The first client's reader receives the payload of the second. -/
def payloadCrossing : List (RelayAction Bool) :=
  openStream false 1 7 ++ openStream true 2 8 ++
    [.device (.new aWrte 8 2 [0x78]), .enter false .reader, .take false .reader,
      .act false .sendAck, .act false .writeClient]

/-- Both clients wait for their streams, and the second takes the first one's OKAY. -/
def openCrossing : List (RelayAction Bool) :=
  [.allocate false, .act false (.sendOpen []), .allocate true, .act true (.sendOpen []),
    .device (.new aOkay 7 1 []), .enter true .writer, .take true .writer]

/-- Both runs follow the protocol and cross the two streams. -/
theorem clients_not_isolated :
    (∃ r, runSteps step (start true fun _ => .smartRemote) payloadCrossing = some r ∧
      StepsMeet step DeviceConforms (start true fun _ => .smartRemote) payloadCrossing ∧
      ¬r.Isolated) ∧
    ∃ r, runSteps step (start true fun _ => .smartRemote) openCrossing = some r ∧
      StepsMeet step DeviceConforms (start true fun _ => .smartRemote) openCrossing ∧
      ¬r.Isolated := by
  refine ⟨⟨_, rfl, by decide, fun h => ?_⟩, ⟨_, rfl, by decide, fun h => ?_⟩⟩
  · have hf := (h.delivered false (.new aWrte 8 2 [0x78]) (by decide)).2
    revert hf
    decide
  · have hf := (h.opened true (.new aOkay 7 1 []) (by decide)).2
    revert hf
    decide

end Relay

end AdbFastboot
