import AdbFastboot.ForwardRelay

namespace AdbFastboot

open List FrameWrite AdbMessageHeader

/-- The frames one after the other, each payload behind its own header, and at the end perhaps the
beginning of one more. -/
def WholeFrames (frames : List AdbPacket) (bytes : Bytes) : Prop :=
  (∀ f ∈ frames, f.WellFormed)
    ∧ ∃ part, bytes = frames.flatMap AdbPacket.encode ++ part
      ∧ (part = [] ∨ ∃ f : AdbPacket, f.WellFormed ∧ part <+: f.encode)

/-- Whole frames begin with a header, and go on behind its payload. -/
theorem WholeFrames.peel {frames : List AdbPacket} {bytes : Bytes}
    (h : WholeFrames frames bytes) (hl : size ≤ bytes.length) :
    ∃ header, AdbMessageHeader.decode (bytes.take size) = .ok header ∧ ∃ rest, WholeFrames rest
        (bytes.drop (size + header.dataLength.toNat)) := by
  have ht : ∀ f : AdbPacket, f.encode.take size = f.header.encode := fun f =>
    take_left' f.header.encode_length
  have hs : ∀ f : AdbPacket, f.WellFormed → size + f.header.dataLength.toNat = f.encode.length := by
    intro f hf
    rw [f.encode_length, hf.framed.length_eq, size]
  obtain ⟨hfm, part, rfl, hp⟩ := h
  cases frames with
  | nil =>
    rw [flatMap_nil, nil_append] at hl ⊢
    rcases hp with rfl | ⟨f, hf, hc⟩
    · cases hl
    refine ⟨f.header, ?_, [], forall_mem_nil _, [], ?_, .inl rfl⟩
    · rw [prefix_iff_eq_take.mp hc, take_take, Nat.min_eq_left hl, ht]
      exact decode_encode hf.magic
    · rw [hs f hf]
      exact drop_eq_nil_of_le hc.length_le
  | cons f frames =>
    have hf := hfm f mem_cons_self
    rw [flatMap_cons, append_assoc]
    refine ⟨f.header, ?_, frames, fun g hg => hfm g (mem_cons_of_mem f hg), part, ?_, hp⟩
    · have hle := (hs f hf) ▸ Nat.le_add_right _ _
      exact decode_encode hf.magic
    · rw [hs f hf, drop_left]

namespace FrameWrite

variable {w : FrameWrite} {n : Nat}

theorem callEnd_le : w.callEnd ≤ w.frame.encode.length := by
  unfold callEnd
  split
  next => exact w.frame.encode_length ▸ Nat.le_add_right _ _
  next => exact Nat.le_refl _

end FrameWrite

namespace ForwardRelay

variable {r r' : ForwardRelay}

def writtenBy (r : ForwardRelay) (thread : RelayThread) : Bytes :=
  match r.writing thread with
  | none => []
  | some w => w.written

variable {thread : RelayThread} {w : FrameWrite}

theorem writtenBy_of_writing (h : r.writing thread = some w) : r.writtenBy thread = w.written := by
  rw [writtenBy, h]

theorem writtenBy_of_idle (h : r.writing thread = none) : r.writtenBy thread = [] := by
  rw [writtenBy, h]

/-- What stands behind the whole frames: the beginning of the one frame that is being written, or of
the one that was when the device left. -/
def Part (r : ForwardRelay) (part : Bytes) : Prop :=
  if r.deviceGone then part = [] ∨ ∃ f : AdbPacket, f.WellFormed ∧ part <+: f.encode
  else ∃ thread, r.writtenBy thread.other = [] ∧ part = r.writtenBy thread

structure Framing (r : ForwardRelay) : Prop where
  sent : ∀ f ∈ r.sent, f.WellFormed
  writing : ∀ thread w, r.writing thread = some w →
    w.frame.WellFormed ∧ w.done < w.frame.encode.length
  stream : ∃ part, r.toDevice = r.sent.flatMap AdbPacket.encode ++ part ∧ r.Part part

theorem frame_wellFormed (r : ForwardRelay) (command : UInt32) {payload : Bytes}
    (h : payload.length ≤ forwardBufSize) : (r.frame command payload).WellFormed :=
  ⟨AdbPacket.new_framed _ _ _ (h.trans (by decide)), rfl⟩

theorem start_framing (remoteId : UInt32) : (start remoteId).Framing where
  sent := by
    intro _ h
    cases h
  writing thread w h := by cases thread <;> cases h
  stream := ⟨[], rfl, .uploader, rfl, rfl⟩

/-- A step that writes nothing keeps the framing. -/
theorem Framing.quiet (h : r.Framing) (hsn : r'.sent = r.sent)
    (hdv : r'.toDevice = r.toDevice) (hg : r'.deviceGone = r.deviceGone)
    (hwr : ∀ thread, r'.writing thread = r.writing thread
      ∨ r.writing thread = none ∧ ∀ w, r'.writing thread = some w →
        w.frame.WellFormed ∧ w.done = 0) : r'.Framing := by
  have hwt : ∀ thread, r'.writtenBy thread = r.writtenBy thread := by
    intro thread
    rcases hwr thread with hs | ⟨hi, hn⟩
    · rw [writtenBy, hs, writtenBy]
    rw [writtenBy_of_idle hi, writtenBy]
    split
    next => rfl
    next w hw => rw [written, (hn w hw).2, take_zero]
  refine ⟨hsn ▸ h.sent, fun thread w hw => ?_, ?_⟩
  · rcases hwr thread with hs | ⟨hi, hn⟩
    · exact h.writing thread w (hs ▸ hw)
    · obtain ⟨hf, hd⟩ := hn w hw
      rw [hd, w.frame.encode_length]
      exact ⟨hf, by omega⟩
  · obtain ⟨part, hsm, hp⟩ := h.stream
    refine ⟨part, by rw [hdv, hsn, hsm], ?_⟩
    simpa only [Part, hg, hwt] using hp

/-- No call of `write` falls into a frame of the other thread. -/
def Atomic (r : ForwardRelay) : ForwardRelayStep → Prop
  | .write thread _ => r.writtenBy thread.other = []
  | _ => True

theorem part_of_atomic (thread : RelayThread) {part : Bytes} (hd : r.deviceGone = false)
    (ho : r.writtenBy thread.other = []) (hp : r.Part part) : part = r.writtenBy thread := by
  rw [Part, hd] at hp
  obtain ⟨writer, hs, rfl⟩ := hp
  rcases thread.eq_or_other writer with rfl | rfl
  · rfl
  · rw [RelayThread.other_other] at hs
    rw [ho, hs]

/-- A write that no other thread interrupts keeps the framing. -/
theorem Framing.wrote {n : Nat} (h : r.Framing) (hw : r.writing thread = some w)
    (hd : r.deviceGone = false) (he : w.done + n ≤ w.callEnd)
    (ho : r.writtenBy thread.other = []) : (r.wrote thread w n).Framing := by
  obtain ⟨part, hsm, hp⟩ := h.stream
  obtain ⟨hfm, -⟩ := h.writing thread w hw
  have hp := part_of_atomic thread hd ho hp
  rw [writtenBy_of_writing hw] at hp
  have hb : (r.wrote thread w n).toDevice
      = r.sent.flatMap AdbPacket.encode ++ w.frame.encode.take (w.done + n) := by
    rw [wrote_toDevice, hsm, hp, append_assoc, written, taken, ← take_add]
  have hsl : (r.wrote thread w n).writtenBy thread.other = [] := by
    rw [writtenBy, wrote_writing_other]
    exact ho
  have hr : ∀ w', (r.wrote thread w n).writing thread.other = some w' →
      w'.frame.WellFormed ∧ w'.done < w'.frame.encode.length := fun w' hw' =>
    h.writing _ w' ((wrote_writing_other w thread n).symm.trans hw')
  by_cases hl : w.done + n = w.frame.encode.length
  · obtain ⟨hs, hi⟩ := wrote_last (r := r) w thread n hl
    refine ⟨fun f hf => ?_, fun thread' w' hw' => ?_, [], ?_, ?_⟩
    · rw [hs, mem_append, mem_singleton] at hf
      rcases hf with hf | rfl
      · exact h.sent f hf
      · exact hfm
    · rcases thread.eq_or_other thread' with rfl | rfl
      · cases hi.symm.trans hw'
      · exact hr w' hw'
    · rw [hb, hs, hl, take_length, flatMap_append, flatMap_singleton, append_nil]
    · rw [Part, wrote_deviceGone, hd]
      exact ⟨thread, hsl, (writtenBy_of_idle hi).symm⟩
  · obtain ⟨hs, hwr⟩ := wrote_more (r := r) w thread n hl
    refine ⟨hs ▸ h.sent, fun thread' w' hw' => ?_, w.frame.encode.take (w.done + n), ?_, ?_⟩
    · rcases thread.eq_or_other thread' with rfl | rfl
      · cases hwr.symm.trans hw'
        exact ⟨hfm, Nat.lt_of_le_of_ne (he.trans callEnd_le) hl⟩
      · exact hr w' hw'
    · rw [hb, hs]
    · rw [Part, wrote_deviceGone, hd]
      exact ⟨thread, hsl, (writtenBy_of_writing hwr).symm⟩

theorem Framing.failWrite (h : r.Framing) (hg : r.deviceGone = true) :
    (r.failWrite w thread).Framing := by
  refine ⟨fun f hf => h.sent f (by rwa [failWrite_sent] at hf), fun thread' w' hw' => ?_, ?_⟩
  · rcases thread.eq_or_other thread' with rfl | rfl
    · cases (failWrite_writing w thread').symm.trans hw'
    · exact h.writing _ w' ((failWrite_writing_other w thread).symm.trans hw')
  · obtain ⟨part, hs, hp⟩ := h.stream
    refine ⟨part, by rw [failWrite_toDevice, failWrite_sent, hs], ?_⟩
    rw [Part, failWrite_deviceGone, hg]
    rwa [Part, hg] at hp

theorem Framing.deviceLeaves (h : r.Framing) : ({ r with deviceGone := true }).Framing := by
  refine ⟨h.sent, h.writing, ?_⟩
  obtain ⟨part, hs, hp⟩ := h.stream
  refine ⟨part, hs, ?_⟩
  unfold Part at hp
  split at hp
  next => exact hp
  obtain ⟨thread, -, rfl⟩ := hp
  cases hw : r.writing thread with
  | none => exact .inl (writtenBy_of_idle hw)
  | some w =>
    rw [writtenBy_of_writing hw]
    exact .inr ⟨w.frame, (h.writing thread w hw).1, take_prefix _ _⟩

theorem Framing.turn (thread : RelayThread) (h : r.Framing) (hs : r'.sent = r.sent)
    (hd : r'.toDevice = r.toDevice) (hg : r'.deviceGone = r.deviceGone)
    (ho : r'.writing thread.other = r.writing thread.other) (hi : r.writing thread = none)
    (hn : ∀ w, r'.writing thread = some w → w.frame.WellFormed ∧ w.done = 0) : r'.Framing := by
  refine h.quiet hs hd hg fun thread' => ?_
  rcases thread.eq_or_other thread' with rfl | rfl
  · exact .inr ⟨hi, hn⟩
  · exact .inl ho

theorem afterHeader_new {buf : Bytes} (h : r.afterHeader buf = .acking w) :
    w.frame.WellFormed ∧ w.done = 0 := by
  unfold afterHeader at h
  split at h
  next => cases h
  split at h
  next =>
    split at h
    next => cases h
    cases h
    exact ⟨r.frame_wellFormed aOkay (Nat.zero_le _), rfl⟩
  next =>
    split at h
    next =>
      cases h
      exact ⟨r.frame_wellFormed aClse (Nat.zero_le _), rfl⟩
    next => cases h

theorem wanted_idle {n : Nat} (h : r.wanted = some n) : r.writing .downloader = none := by
  unfold wanted at h
  split at h
  next hd => rw [writing, hd]
  next hd => rw [writing, hd]
  next => cases h

/-- Every step at which a frame is not interrupted keeps the framing. -/
theorem step_framing {a : ForwardRelayStep} (h : r.Framing) (hat : r.Atomic a)
    (hs : r.step a = some r') : r'.Framing := by
  have ho : (r.frame aOkay []).WellFormed := r.frame_wellFormed aOkay (Nat.zero_le _)
  have hcs : (r.frame aClse []).WellFormed := r.frame_wellFormed aClse (Nat.zero_le _)
  cases step_stepped hs with
  | clientData hu hne hl =>
    refine h.turn .uploader rfl rfl rfl rfl (by rw [writing, hu]) fun w hw => ?_
    cases hw
    exact ⟨r.frame_wellFormed aWrte hl, rfl⟩
  | clientEof hu =>
    refine h.turn .uploader rfl rfl rfl rfl (by rw [writing, hu]) fun w hw => ?_
    cases hw
    exact ⟨hcs, rfl⟩
  | clientReadFails hu =>
    exact h.turn .uploader rfl rfl rfl rfl (by rw [writing, hu]) (by intros; contradiction)
  | write hw hdv hn he => exact h.wrote hw hdv he hat
  | writeFails hw hg => exact h.failWrite hg
  | readHeader hd hl =>
    refine h.turn .downloader rfl rfl rfl rfl (by rw [writing, hd]) fun w hw => ?_
    simp only [writing] at hw
    split at hw
    next w' ha =>
      cases hw
      exact afterHeader_new ha
    next => cases hw
  | readPayload hd hl =>
    exact h.turn .downloader rfl rfl rfl rfl (by rw [writing, hd]) (by intros; contradiction)
  | readFails hwn hg =>
    exact h.turn .downloader rfl rfl rfl rfl (wanted_idle hwn) (by intros; contradiction)
  | deliver hd hc =>
    refine h.turn .downloader rfl rfl rfl rfl (by rw [writing, hd]) fun w hw => ?_
    cases hw
    exact ⟨ho, rfl⟩
  | deliverFails hd hc =>
    exact h.turn .downloader rfl rfl rfl rfl (by rw [writing, hd]) (by intros; contradiction)
  | deviceSends | clientLeaves =>
    exact h.quiet rfl rfl rfl fun thread => .inl (by cases thread <;> rfl)
  | deviceLeaves => exact h.deviceLeaves

structure Whole (r : ForwardRelay) : Prop where
  frames : WholeFrames r.sent r.toDevice
  /-- Between the frames nothing else stands in the stream. -/
  idle : r.deviceGone = false → (∀ thread, r.writing thread = none) →
    r.toDevice = r.sent.flatMap AdbPacket.encode

theorem Framing.whole (h : r.Framing) : r.Whole := by
  obtain ⟨part, hs, hp⟩ := h.stream
  constructor
  · refine ⟨h.sent, part, hs, ?_⟩
    obtain ⟨part', hs', hp'⟩ := h.deviceLeaves.stream
    cases append_cancel_left (hs.symm.trans hs')
    exact hp'
  · intro hd hi
    have hn := part_of_atomic .uploader hd (writtenBy_of_idle (hi _)) hp
    rw [hs, hn, writtenBy_of_idle (hi _), append_nil]

/-- In every run in which no call of `write` falls into a frame of the other thread, the device
receives whole frames only. -/
theorem forward_frames_whole {remoteId : UInt32} {as : List ForwardRelayStep} {r : ForwardRelay}
    (hmeet : StepsMeet step Atomic (start remoteId) as)
    (hrun : runSteps step (start remoteId) as = some r) : r.Whole := by
  have hf := runSteps_invariant step_framing (start_framing remoteId) hmeet hrun
  exact hf.whole

instance (r : ForwardRelay) : ∀ a, Decidable (r.Atomic a)
  | .write thread _ => inferInstanceAs (Decidable (r.writtenBy thread.other = []))
  | .clientData _ | .clientEof | .clientReadFails | .writeFails _ | .readHeader | .readPayload
  | .readFails | .deliver | .deviceSends _ | .deviceLeaves | .clientLeaves => isTrue trivial

/-- Data of the device, up to where the downloader acknowledges it. -/
def deviceData : List ForwardRelayStep :=
  [.deviceSends (.new aWrte 7 localId [33]), .readHeader, .readPayload, .deliver]

def turnedWrites : List ForwardRelayStep :=
  [.clientData [104, 105], .write .uploader 24] ++ deviceData
    ++ [.write .uploader 2, .write .downloader 20, .write .downloader 4]

theorem forward_frames_whole_turned : ∃ r, StepsMeet step Atomic (start 7) turnedWrites
      ∧ runSteps step (start 7) turnedWrites = some r ∧ r.sent.length = 2 ∧ r.Whole := by
  have hm : StepsMeet step Atomic (start 7) turnedWrites := by decide
  exact ⟨_, hm, rfl, rfl, forward_frames_whole hm rfl⟩

/-- The acknowledgement is written between the header of A_WRTE and its payload. -/
def crossedWrites : List ForwardRelayStep :=
  [.clientData [104, 105], .write .uploader 24] ++ deviceData
    ++ [.write .downloader 24, .write .uploader 2]

/-- The two threads write into each other's frames. -/
theorem forward_frames_crossed :
    ∃ r, runSteps step (start 7) crossedWrites = some r ∧ (∀ thread, r.writing thread = none)
      ∧ (∀ frames, ¬ WholeFrames frames r.toDevice) ∧ ¬ r.Whole := by
  have hc : ∀ frames, ¬ WholeFrames frames ((AdbMessageHeader.new aWrte 1 7 [104, 105]).encode
        ++ (AdbMessageHeader.new aOkay 1 7 []).encode ++ [104, 105]) := by
    intro frames h
    obtain ⟨header, hd, rest, h⟩ := h.peel (by decide)
    cases hd
    obtain ⟨header, hd, -⟩ := h.peel (by decide)
    cases hd
  refine ⟨_, rfl, fun thread => by cases thread <;> rfl, hc, fun h => hc _ h.frames⟩

end ForwardRelay

end AdbFastboot
