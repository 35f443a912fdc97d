import AdbFastboot.BridgeRelay

namespace AdbFastboot

open List Session

def wrtes (frames : List AdbPacket) : List AdbPacket :=
  frames.filter fun f => decide (f.header.command = aWrte)

@[simp] theorem wrtes_none : wrtes [] = [] := rfl

theorem wrtes_frames (xs ys : List AdbPacket) : wrtes (xs ++ ys) = wrtes xs ++ wrtes ys :=
  filter_append ..

theorem wrtes_cons_of_wrte {f : AdbPacket} (h : f.header.command = aWrte) (fs : List AdbPacket) :
    wrtes (f :: fs) = f :: wrtes fs :=
  filter_cons_of_pos (decide_eq_true h)

theorem wrtes_cons_of_ne {f : AdbPacket} (h : f.header.command ≠ aWrte) (fs : List AdbPacket) :
    wrtes (f :: fs) = wrtes fs :=
  filter_cons_of_neg (by simpa using h)

def LocalAction.own : LocalAction → Bool
  | .sendOpen _ | .sendChunk | .sendClose | .sendAck | .writeClient | .sendCloseAck => true
  | .readChunk _ | .readEof | .readError | .leave => false

def Writer.opened : Writer → Bool
  | .fresh | .allocated | .opening => false
  | _ => true

def Writer.pending : Writer → List Bytes
  | .sending chunk => [chunk]
  | _ => []

def Reader.started : Reader → Bool
  | .absent => false
  | _ => true

namespace Session

def bridged (s : Session) : Prop := s.writer.opened = true ∧ s.reader.started = true

def closed (s : Session) : Prop :=
  (∃ frame, s.reader = .closing frame) ∨ s.reader = .ended ∧ s.clientGone = false

def chunksKept (s : Session) : Prop := s.chunksRead = s.chunksSent ++ s.writer.pending

structure Follows (s s' : Session) (sent : List AdbPacket) : Prop where
  localId_eq : s'.localId = s.localId
  bridged : s'.bridged
  receives : ∀ side, s.receives side = true → s'.receives side = true
  opens : ∀ f ∈ sent, f.header.command ≠ aOpen
  gone : s'.clientGone = false → s.clientGone = false
  inHand_eq : s'.clientGone = false →
    s'.delivered ++ s'.reader.inHand = s.delivered ++ s.reader.inHand
  chunksKept : s.chunksKept → s'.chunksKept
  closed : s'.closed → s.closed

variable {s : Session} {sent : List AdbPacket} (hb : s.bridged)

include hb

theorem follows_writer {w : Writer} {chunksRead chunksSent : List Bytes}
    (hi : s.receives .writer = false) (hw : w.opened = true)
    (ho : ∀ f ∈ sent, f.header.command ≠ aOpen)
    (hc : s.chunksKept → chunksRead = chunksSent ++ w.pending) :
    Follows s { s with writer := w, chunksRead := chunksRead, chunksSent := chunksSent } sent where
  localId_eq := rfl
  bridged := ⟨hw, hb.2⟩
  receives := by
    intro side hs
    cases side with
    | writer => rw [hi] at hs; cases hs
    | reader => exact hs
  opens := ho
  gone := id
  inHand_eq := fun _ => rfl
  chunksKept := hc
  closed := id

theorem follows_reader {rd : Reader} {delivered : List AdbPacket}
    (hil : s.receives .reader = false) (hr : rd.started = true)
    (ho : ∀ f ∈ sent, f.header.command ≠ aOpen)
    (hi : s.clientGone = false → delivered ++ rd.inHand = s.delivered ++ s.reader.inHand)
    (hc : closed { s with reader := rd } → s.closed) :
    Follows s { s with reader := rd, delivered := delivered } sent where
  localId_eq := rfl
  bridged := ⟨hb.1, hr⟩
  receives := by
    intro side hs
    cases side with
    | writer => exact hs
    | reader => rw [hil] at hs; cases hs
  opens := ho
  gone := id
  inHand_eq := hi
  chunksKept := id
  closed := hc

/-- What a session does by itself loses neither a frame nor a chunk. -/
theorem act_follows {s' : Session} {action : LocalAction}
    (h : s.act action = some (s', sent)) : Follows s s' sent := by
  cases act_acted h with
  | sendOpen service hw => simp [bridged, hw, Writer.opened] at hb
  | readChunk data hw =>
    refine follows_writer hb (by simp [receives, hw]) rfl (by simp) fun hk => ?_
    rw [hk, hw]
    simp [Writer.pending]
  | readEof w hw he =>
    rcases he with rfl | rfl
    · refine follows_writer hb (by simp [receives, hw]) rfl (by simp) fun hk => ?_
      rw [hk, hw]
      rfl
    · refine follows_writer hb (by simp [receives, hw]) rfl (by simp) fun hk => ?_
      rw [hk, hw]
      rfl
  | readError hw =>
    refine follows_writer hb (by simp [receives, hw]) rfl (by simp) fun hk => ?_
    rw [hk, hw]
    rfl
  | sendChunk chunk hw =>
    refine follows_writer hb (by simp [receives, hw]) rfl (not_open_of_command (by decide))
      fun hk => ?_
    rw [hk, hw]
    simp [Writer.pending]
  | sendClose hw =>
    refine follows_writer hb (by simp [receives, hw]) rfl (not_open_of_command (by decide))
      fun hk => ?_
    rw [hk, hw]
    rfl
  | sendAck frame hr =>
    refine follows_reader hb (by simp [receives, hr]) rfl (not_open_of_command (by decide))
      (fun _ => ?_) ?_
    · rw [hr]
      rfl
    · simp [closed]
  | writeGone frame hr hg =>
    refine follows_reader hb (by simp [receives, hr]) rfl (by simp) (fun hn => ?_) ?_
    · rw [hg] at hn
      cases hn
    · simp [closed, hg]
  | writeClient frame hr =>
    refine follows_reader hb (by simp [receives, hr]) rfl (by simp) (fun _ => ?_) ?_
    · rw [hr]
      simp [Reader.inHand]
    · simp [closed]
  | sendCloseAck frame hr =>
    refine follows_reader hb (by simp [receives, hr]) rfl (not_open_of_command (by decide))
      (fun _ => ?_) ?_
    · rw [hr]
      rfl
    · exact fun _ => .inl ⟨frame, hr⟩
  | leave =>
    refine ⟨rfl, hb, fun _ => id, by simp, ?_, ?_, id, ?_⟩
    · intro hg
      cases hg
    · intro hg
      cases hg
    · rintro (hc | ⟨-, hg⟩)
      · exact .inl hc
      · cases hg

end Session

namespace Relay

def Suits (side : Side) (frame : AdbPacket) : Prop :=
  match side with
  | .writer => frame.header.command = aOkay
  | .reader => frame.header.command = aWrte ∨ frame.header.command = aClse

instance (side : Side) (frame : AdbPacket) : Decidable (Suits side frame) :=
  match side with
  | .writer => inferInstanceAs (Decidable (frame.header.command = aOkay))
  | .reader =>
    inferInstanceAs (Decidable (frame.header.command = aWrte ∨ frame.header.command = aClse))

/-- The device follows the protocol, and a thread calls `recv_message` only when a frame is there, and
one that it waits for. -/
def InStep (r : Relay Unit) : RelayAction Unit → Prop
  | .device frame => r.conforms frame = true
  | .enter _ side => ∃ frame ∈ r.queue.head?, Suits side frame
  | _ => True

instance (r : Relay Unit) (action : RelayAction Unit) : Decidable (r.InStep action) :=
  match action with
  | .device frame => inferInstanceAs (Decidable (r.conforms frame = true))
  | .enter _ side => inferInstanceAs (Decidable (∃ frame ∈ r.queue.head?, Suits side frame))
  | .allocate _ | .act _ _ | .take _ _ => isTrue trivial

def session (r : Relay Unit) : Session := r.sessions ()

structure Inv (r : Relay Unit) : Prop where
  bridged : r.session.bridged
  opens : ∀ f ∈ r.outbox, f.header.command = aOpen → f.header.arg0 = r.session.localId
  addressed : ∀ f ∈ r.emitted, f.header.arg1 = r.session.localId
  closes_last : ∀ f ∈ r.emitted.dropLast, f.header.command ≠ aClse
  queue_suffix : r.queue <:+ r.emitted
  holder_suits : ∀ c side, r.holder = some (c, side) →
    r.session.receives side = true ∧ ∃ frame ∈ r.queue.head?, Suits side frame
  closed : r.session.closed → r.queue = [] ∧ r.streamClosed r.session.localId = true
  kept : r.session.clientGone = false →
    wrtes r.emitted = r.session.delivered ++ r.session.reader.inHand ++ wrtes r.queue
  chunksKept : r.session.chunksKept

section

variable {r r' : Relay Unit}

variable {frame : AdbPacket}

/-- A frame that the device sends keeps the invariant. -/
theorem device_inv (h : r.Inv) (hcn : r.conforms frame = true) :
    Inv { r with queue := r.queue ++ [frame], emitted := r.emitted ++ [frame] } := by
  simp only [conforms, Bool.and_eq_true, Bool.not_eq_true'] at hcn
  obtain ⟨⟨⟨hop, hcl⟩, -⟩, -⟩ := hcn
  have hi : frame.header.arg1 = r.session.localId := by
    obtain ⟨f, hf, ho⟩ := any_eq_true.mp hop
    obtain ⟨hcm, ha⟩ := of_decide_eq_true ho
    rw [← ha, h.opens f hf hcm]
  have hn : ∀ f ∈ r.emitted, f.header.command ≠ aClse := by
    intro f hf hcm
    refine any_eq_false.mp hcl f hf (decide_eq_true ⟨hcm, ?_⟩)
    rw [h.addressed f hf, hi]
  have ho : ¬r.session.closed := by
    intro hc
    rw [hi, (h.closed hc).2] at hcl
    cases hcl
  refine ⟨h.bridged, h.opens, ?_, ?_, ?_, ?_, fun hc => absurd hc ho, ?_, h.chunksKept⟩
  · intro f hf
    rcases mem_append.mp hf with hf | hf
    · exact h.addressed f hf
    · cases mem_singleton.mp hf
      exact hi
  · rw [dropLast_concat]
    exact hn
  · obtain ⟨front, hfr⟩ := h.queue_suffix
    exact ⟨front, by rw [← append_assoc, hfr]⟩
  · intro c side hh
    obtain ⟨hr, first, hft, hs⟩ := h.holder_suits c side hh
    refine ⟨hr, first, ?_, hs⟩
    rw [head?_append, Option.mem_def.mp hft]
    rfl
  · intro hg
    rw [wrtes_frames, wrtes_frames, ← append_assoc]
    exact congrArg (· ++ wrtes [frame]) (h.kept hg)

variable {s : Session}

theorem act_inv (h : r.Inv) {sent : List AdbPacket} (hs : r.session.Follows s sent) :
    Inv { r.setSession () s with outbox := r.outbox ++ sent } := by
  have hss : session { r.setSession () s with outbox := r.outbox ++ sent } = s :=
    setSession_self r () s
  constructor
  · rw [hss]
    exact hs.bridged
  · intro f hf hc
    rw [hss, hs.localId_eq]
    rcases mem_append.mp hf with hf | hf
    · exact h.opens f hf hc
    · exact absurd hc (hs.opens f hf)
  · rw [hss, hs.localId_eq]
    exact h.addressed
  · exact h.closes_last
  · exact h.queue_suffix
  · intro c side hh
    obtain ⟨hr, hst⟩ := h.holder_suits c side hh
    exact ⟨hs.receives side hr, hst⟩
  · rw [hss, hs.localId_eq]
    exact fun hcl => h.closed (hs.closed hcl)
  · rw [hss]
    intro hg
    rw [hs.inHand_eq hg]
    exact h.kept (hs.gone hg)
  · rw [hss]
    exact hs.chunksKept h.chunksKept

variable {side : Side} {queue : List AdbPacket}

theorem enter_inv (h : r.Inv) {c : Unit} (hr : (r.sessions c).receives side = true)
    (hs : ∃ frame ∈ r.queue.head?, Suits side frame) :
    Inv { r with holder := some (c, side) } := by
  refine ⟨h.bridged, h.opens, h.addressed, h.closes_last, h.queue_suffix, ?_, h.closed, h.kept,
    h.chunksKept⟩
  intro c' side' hh
  cases hh
  exact ⟨hr, hs⟩

/-- A frame that suits the thread that takes it is acknowledged or delivered. -/
theorem take_of_suits (hb : s.bridged) (clones : Bool)
    (hrv : s.receives side = true) (hs : Suits side frame) :
    s.writer = .awaiting ∧ frame.header.command = aOkay ∧
        s.take clones side frame = { s with writer := .relaying } ∨
      s.reader = .receiving ∧ frame.header.command = aWrte ∧
        s.take clones side frame = { s with reader := .acking frame } ∨
      s.reader = .receiving ∧ frame.header.command = aClse ∧
        s.take clones side frame = { s with reader := .closing frame } := by
  cases side with
  | writer =>
    have hc : frame.header.command = aOkay := hs
    have hw : s.writer = .awaiting := by
      rcases of_decide_eq_true hrv with hw | hw
      · have ho := hb.1
        rw [hw] at ho
        cases ho
      · exact hw
    refine .inl ⟨hw, hc, ?_⟩
    simp only [Session.take]
    rw [if_neg (not_not_intro hc), if_neg (by rw [hw]; simp)]
  | reader =>
    have hr := of_decide_eq_true hrv
    rcases hs with hc | hc
    · exact .inr (.inl ⟨hr, hc, if_pos hc⟩)
    have hne : frame.header.command ≠ aWrte := by
      rw [hc]
      decide
    refine .inr (.inr ⟨hr, hc, ?_⟩)
    simp only [Session.take]
    rw [if_neg hne, if_pos hc]

theorem taken_inv (h : r.Inv) (hsf : queue <:+ r.emitted) (hb : s.bridged)
    (hi : s.localId = r.session.localId)
    (hcl : s.closed → queue = [] ∧ r.streamClosed r.session.localId = true)
    (hk : s.clientGone = false →
      wrtes r.emitted = s.delivered ++ s.reader.inHand ++ wrtes queue) (hc : s.chunksKept) :
    Inv { r.setSession () s with queue := queue, holder := none } := by
  have hs : session { r.setSession () s with queue := queue, holder := none } = s :=
    setSession_self r () s
  refine ⟨?_, ?_, ?_, h.closes_last, hsf, (fun _ _ hh => nomatch hh), ?_, ?_, ?_⟩
  · rw [hs]
    exact hb
  · rw [hs, hi]
    exact h.opens
  · rw [hs, hi]
    exact h.addressed
  · rw [hs, hi]
    exact hcl
  · rw [hs]
    exact hk
  · rw [hs]
    exact hc

/-- The frame that closes the stream is the last one queued. -/
theorem Inv.queue_of_close (h : r.Inv) (hqu : r.queue = frame :: queue)
    (hc : frame.header.command = aClse) :
    queue = [] ∧ r.streamClosed r.session.localId = true := by
  obtain ⟨front, hf⟩ := h.queue_suffix
  rw [hqu] at hf
  have hm : frame ∈ r.emitted := by
    rw [← hf]
    simp
  constructor
  · by_contra hne
    refine h.closes_last frame ?_ hc
    rw [← hf, dropLast_append_of_ne_nil (cons_ne_nil _ _), dropLast_cons_of_ne_nil hne]
    simp
  · exact any_eq_true.mpr ⟨frame, hm, decide_eq_true ⟨hc, h.addressed frame hm⟩⟩

theorem take_inv (h : r.Inv) (hqu : r.queue = frame :: queue) (hh : r.holder = some ((), side)) :
    Inv { r.setSession () (r.session.take r.clones side frame) with
      queue := queue, holder := none } := by
  obtain ⟨hrv, first, hf, hst⟩ := h.holder_suits () side hh
  rw [hqu] at hf
  cases hf
  have hs : queue <:+ r.emitted := by
    have hcn := h.queue_suffix
    rw [hqu] at hcn
    exact (suffix_cons _ _).trans hcn
  have ho : ¬r.session.closed := by
    intro hcl
    rw [(h.closed hcl).1] at hqu
    cases hqu
  have hk := h.kept
  have hck := h.chunksKept
  rw [hqu] at hk
  rcases take_of_suits h.bridged r.clones hrv hst with
    ⟨hw, hc, ht⟩ | ⟨hr, hc, ht⟩ | ⟨hr, hc, ht⟩
  · have hne : frame.header.command ≠ aWrte := by
      rw [hc]
      decide
    rw [wrtes_cons_of_ne hne] at hk
    rw [chunksKept, hw] at hck
    rw [ht]
    exact taken_inv h hs ⟨rfl, h.bridged.2⟩ rfl (fun hcl => absurd hcl ho) hk hck
  · rw [wrtes_cons_of_wrte hc, hr] at hk
    rw [ht]
    refine taken_inv h hs ⟨h.bridged.1, rfl⟩ rfl (by simp [closed]) (fun hg => ?_) hck
    rw [hk hg]
    simp [Reader.inHand]
  · have hne : frame.header.command ≠ aWrte := by
      rw [hc]
      decide
    rw [wrtes_cons_of_ne hne, hr] at hk
    rw [ht]
    exact taken_inv h hs ⟨h.bridged.1, rfl⟩ rfl (fun _ => h.queue_of_close hqu hc) hk hck

/-- Every step at which a receiver meets a suitable frame keeps the invariant. -/
theorem step_inv {action : RelayAction Unit} (h : r.Inv) (hs : r.InStep action)
    (hr : r.step action = some r') : r'.Inv := by
  cases step_stepped hr with
  | device frame => exact device_inv h hs
  | allocate c hf =>
    have ho := h.bridged.1
    rw [show r.session.writer = .fresh from hf] at ho
    cases ho
  | act c action s sent ha => exact act_inv h (act_follows h.bridged ha)
  | enter c side hrv => exact enter_inv h hrv hs
  | take c side frame queue hqu hh => exact take_inv h hqu hh

def Quiescent {C : Type} [DecidableEq C] (r : Relay C) : Prop :=
  ∀ c, (∀ side, r.step (.enter c side) = none ∧ r.step (.take c side) = none) ∧
    ∀ action, action.own = true → r.step (.act c action) = none

variable (hq : r.Quiescent) (h : r.Inv)
include hq h

theorem Quiescent.holder_eq : r.holder = none := by
  cases hh : r.holder with
  | none => rfl
  | some thread =>
    obtain ⟨c, side⟩ := thread
    obtain ⟨-, frame, hf, -⟩ := h.holder_suits c side hh
    obtain ⟨queue, hqu⟩ := head?_eq_some_iff.mp hf
    have hs := ((hq c).1 side).2
    simp [step, hqu, hh] at hs

/-- With the lock free, a thread that has something to send or to write is not stuck. -/
theorem Quiescent.act_eq {action : LocalAction} (ho : action.own = true) :
    r.session.act action = none := by
  have hs := (hq ()).2 action ho
  simp only [step] at hs
  split at hs
  next ha => exact ha
  rw [if_pos (.inr (hq.holder_eq h))] at hs
  cases hs

theorem Quiescent.pending_eq : r.session.writer.pending = [] := by
  have hs := hq.act_eq h (show LocalAction.sendChunk.own = true from rfl)
  simp only [act] at hs
  split at hs
  next => cases hs
  next hn =>
    unfold Writer.pending
    split
    next chunk hw => exact absurd hw (hn chunk)
    next => rfl

theorem Quiescent.inHand_eq : r.session.reader.inHand = [] := by
  have ha := hq.act_eq h (show LocalAction.sendAck.own = true from rfl)
  have hw := hq.act_eq h (show LocalAction.writeClient.own = true from rfl)
  unfold Reader.inHand
  split
  next frame hr => simp [act, hr] at ha
  next frame hr =>
    simp only [act, hr] at hw
    split at hw <;> cases hw
  next => rfl

/-- When the bridge can do no more and the client is there, nothing is queued. -/
theorem Quiescent.queue_eq (hg : r.session.clientGone = false) : r.queue = [] := by
  have hf := hq.holder_eq h
  have hi := hq.inHand_eq h
  have he := ((hq ()).1 .reader).1
  cases hr : r.session.reader with
  | absent =>
    have hs := h.bridged.2
    rw [hr] at hs
    cases hs
  | receiving =>
    have hrv : (r.sessions ()).receives .reader = true := decide_eq_true hr
    simp [step, hf, hrv] at he
  | acking frame | writing frame =>
    rw [hr] at hi
    cases hi
  | closing frame => exact (h.closed (.inl ⟨frame, hr⟩)).1
  | ended => exact (h.closed (.inr ⟨hr, hg⟩)).1

end

/-- Every A_WRTE of the device is written to the client once and in order, or on its way, and every
chunk of the client is sent to the device, or about to be. When the bridge can do no more on its own,
everything is through. A client that has left gets nothing any more. -/
structure Faithful (r : Relay Unit) : Prop where
  nothing_lost : r.session.clientGone = false →
    wrtes r.emitted = r.session.delivered ++ r.session.reader.inHand ++ wrtes r.queue
  chunks_kept : r.session.chunksRead = r.session.chunksSent ++ r.session.writer.pending
  all_through : r.Quiescent →
    (r.session.clientGone = false → r.session.delivered = wrtes r.emitted) ∧
      r.session.chunksSent = r.session.chunksRead

/-- The invariant says that nothing is lost. -/
theorem Inv.faithful {r : Relay Unit} (h : r.Inv) : r.Faithful where
  nothing_lost := h.kept
  chunks_kept := h.chunksKept
  all_through := by
    intro hq
    constructor
    · intro hg
      rw [h.kept hg, hq.inHand_eq h, hq.queue_eq h hg, wrtes_none, append_nil, append_nil]
    · rw [h.chunksKept, hq.pending_eq h, append_nil]

def opened (kind : BridgeKind) (localId remoteId : UInt32) (service : Bytes) : Relay Unit where
  clones := true
  queue := []
  holder := none
  nextLocalId := localId + 1
  sessions := fun _ =>
    { Session.new kind with
      localId := localId
      remoteId := remoteId
      writer := .relaying
      reader := .receiving
      openedBy := some (.new aOkay remoteId localId []) }
  outbox := [.new aOpen localId 0 service]
  emitted := [.new aOkay remoteId localId []]

theorem opened_inv (kind : BridgeKind) (localId remoteId : UInt32) (service : Bytes) :
    (opened kind localId remoteId service).Inv where
  bridged := ⟨rfl, rfl⟩
  opens := by
    intro f hf _
    cases mem_singleton.mp hf
    rfl
  addressed := by
    intro f hf
    cases mem_singleton.mp hf
    rfl
  closes_last := by simp [opened]
  queue_suffix := nil_suffix
  holder_suits := nofun
  closed := by simp [Session.closed, session, opened]
  kept := fun _ => rfl
  chunksKept := rfl

/-- In every run of a bridge in which the device follows the protocol and each `recv_message` finds a
frame that its caller waits for, nothing is lost, repeated or reordered. -/
theorem bridge_faithful (kind : BridgeKind) (localId remoteId : UInt32) (service : List UInt8)
    {actions : List (RelayAction Unit)} {r : Relay Unit}
    (hmeet : StepsMeet step InStep (opened kind localId remoteId service) actions)
    (hrun : runSteps step (opened kind localId remoteId service) actions = some r) : r.Faithful :=
  (runSteps_invariant step_inv (opened_inv kind localId remoteId service) hmeet hrun).faithful

def exchange : List (RelayAction Unit) :=
  [.act () (.readChunk [0x6c]), .act () .sendChunk, .device (.new aOkay 7 1 []), .enter () .writer,
    .take () .writer, .device (.new aWrte 7 1 [0x78]), .enter () .reader, .take () .reader,
    .act () .sendAck, .act () .writeClient]

theorem bridge_faithful_exchange :
    ∃ r, runSteps step (opened .smartRemote 1 7 []) exchange = some r ∧ r.Faithful ∧
      r.session.delivered = [.new aWrte 7 1 [0x78]] ∧ r.session.chunksSent = [[0x6c]] := by
  have hm : StepsMeet step InStep (opened .smartRemote 1 7 []) exchange := by decide
  exact ⟨_, rfl, bridge_faithful .smartRemote 1 7 [] hm rfl, rfl, rfl⟩

/-- The device sends a payload while the writer waits for its OKAY, and the writer receives it. -/
def crossing : List (RelayAction Unit) :=
  [.act () (.readChunk [0x6c]), .act () .sendChunk, .device (.new aWrte 7 1 [0x78]),
    .enter () .writer, .take () .writer]

/-- The reader waits for a frame with the lock in its hands, and then the client sends. -/
def blocked : List (RelayAction Unit) := [.enter () .reader, .act () (.readChunk [0x6c])]

/-- With a reader waiting under the lock, the bridge can do no more. -/
theorem blocked_quiescent {r : Relay Unit}
    (hr : runSteps step (opened .smartRemote 1 7 []) blocked = some r) : r.Quiescent := by
  cases hr
  rintro ⟨⟩
  refine ⟨fun side => ⟨rfl, ?_⟩, fun action ho => ?_⟩
  · cases side <;> rfl
  · cases action <;> first | rfl | cases ho

theorem bridge_not_faithful : (∃ r, runSteps step (opened .smartRemote 1 7 []) crossing = some r ∧
      StepsMeet step DeviceConforms (opened .smartRemote 1 7 []) crossing ∧ ¬r.Faithful) ∧
    ∃ r, runSteps step (opened .smartRemote 1 7 []) blocked = some r ∧
      StepsMeet step DeviceConforms (opened .smartRemote 1 7 []) blocked ∧ ¬r.Faithful := by
  refine ⟨⟨_, rfl, by decide, fun h => ?_⟩, ⟨_, rfl, by decide, fun h => ?_⟩⟩
  · have hl := h.nothing_lost rfl
    revert hl
    decide
  · have hs := (h.all_through (blocked_quiescent rfl)).2
    revert hs
    decide

end Relay

end AdbFastboot
