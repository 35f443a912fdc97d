import AdbFastboot.ForwardFlow

namespace AdbFastboot

open List FrameWrite

def FrameWrite.left (w : FrameWrite) : Nat := w.frame.encode.length - w.done

def Downloader.work : Downloader → Nat
  | .payload _ => 50
  | .delivering _ => 30
  | .acking w => w.left
  | .header | .ended => 0

def Uploader.work : Uploader → Nat
  | .writing w => w.left
  | .reading | .ended => 0

namespace ForwardRelay

variable {r r' : ForwardRelay}

/-- A byte of the device weighs more than one to write: a frame of it can take a frame in answer. -/
def work (r : ForwardRelay) : Nat :=
  3 * r.fromDevice.length + r.downloader.work + r.uploader.work

def OwnStep : ForwardRelayStep → Prop
  | .write _ _ | .readHeader | .readPayload | .deliver => True
  | _ => False

def Settled (r : ForwardRelay) : Prop :=
  (∀ thread, r.writing thread = none)
    ∧ (r.downloader = .header ∧ r.fromDevice = [] ∨ r.downloader = .ended)

variable {w : FrameWrite}

theorem uploader_of_writing (h : r.writing .uploader = some w) : r.uploader = .writing w := by
  simp only [writing] at h
  split at h
  next hu =>
    cases h
    exact hu
  next => cases h

variable {thread : RelayThread}

/-- Each write leaves less to do. -/
theorem wrote_work {n : Nat} (hw : r.writing thread = some w) (hn : 0 < n)
    (he : w.done + n ≤ w.frame.encode.length) : (r.wrote thread w n).work < r.work := by
  have hm : left { w with done := w.done + n } < w.left := by
    show w.frame.encode.length - (w.done + n) < w.frame.encode.length - w.done
    omega
  have hs := Nat.zero_lt_of_lt hm
  cases thread with
  | uploader =>
    have ho : r.uploader.work = w.left := by rw [uploader_of_writing hw]; rfl
    suffices hnew : (r.wrote .uploader w n).uploader.work < w.left by
      have hr : (r.wrote .uploader w n).work
          = 3 * r.fromDevice.length + r.downloader.work + (r.wrote .uploader w n).uploader.work := by
        unfold wrote
        split <;> rfl
      rw [hr, work, ho]
      omega
    unfold wrote
    split
    next =>
      simp only [endFrame]
      split <;> exact hs
    next => exact hm
  | downloader =>
    have ho : r.downloader.work = w.left := by rw [acking_of_writing hw]; rfl
    suffices hnew : (r.wrote .downloader w n).downloader.work < w.left by
      have hr : (r.wrote .downloader w n).work
          = 3 * r.fromDevice.length + (r.wrote .downloader w n).downloader.work + r.uploader.work := by
        unfold wrote
        split <;> rfl
      rw [hr, work, ho]
      omega
    unfold wrote
    split
    next =>
      simp only [endFrame]
      split <;> exact hs
    next => exact hm

theorem frame_left (r : ForwardRelay) (command : UInt32) : left ⟨r.frame command [], 0⟩ = 24 := by
  rfl

theorem afterHeader_work (r : ForwardRelay) (buf : Bytes) : (r.afterHeader buf).work ≤ 50 := by
  unfold afterHeader
  split
  next => exact Nat.zero_le _
  split
  next =>
    split
    next => exact Nat.le_refl _
    next => exact (r.frame_left aOkay).trans_le (by decide)
  split
  next => exact (r.frame_left aClse).trans_le (by decide)
  next => exact Nat.zero_le _

/-- If a thread is in a frame, one of them can go on without falling into a frame of the other. -/
theorem Framing.free_writer (h : r.Framing) (hd : r.deviceGone = false) (hw : r.writing thread = some w) :
    ∃ thread w, r.writing thread = some w ∧ r.writtenBy thread.other = [] := by
  obtain ⟨part, -, hp⟩ := h.stream
  rw [Part, hd] at hp
  obtain ⟨writer, hs, -⟩ := hp
  cases hwr : r.writing writer with
  | some w' => exact ⟨writer, w', hwr, hs⟩
  | none =>
    rcases writer.eq_or_other thread with rfl | rfl
    · cases hwr.symm.trans hw
    · refine ⟨writer.other, w, hw, ?_⟩
      rw [RelayThread.other_other]
      exact writtenBy_of_idle hwr

/-- A relay that is not settled can take a step by itself, and has less to do after it. -/
theorem Flow.progress (h : r.Flow) (hdv : r.deviceGone = false) (hc : r.clientGone = false)
    (hwk : ¬ r.Settled) :
    ∃ a r', OwnStep a ∧ r.Regular a ∧ r.step a = some r' ∧ r'.work < r.work := by
  by_cases hwr : ∃ thread w, r.writing thread = some w
  · obtain ⟨thread, w, hw⟩ := hwr
    obtain ⟨thread, w, hw, hot⟩ := h.framing.free_writer hdv hw
    have hdn := (h.framing.writing thread w hw).2
    have hca : w.done < w.callEnd := by
      unfold callEnd
      split
      next hh => exact hh
      next => exact hdn
    have he : w.done + (w.callEnd - w.done) = w.callEnd := by omega
    refine ⟨.write thread (w.callEnd - w.done), r.wrote thread w (w.callEnd - w.done), trivial,
      ⟨trivial, hot⟩, ?_, wrote_work hw (by omega) (he.trans_le callEnd_le)⟩
    simp only [step, hw]
    exact if_pos ⟨hdv, by omega, he.le⟩
  · have hi : ∀ thread, r.writing thread = none := fun thread => by
      cases hw : r.writing thread with
      | none => rfl
      | some w => exact absurd ⟨thread, w, hw⟩ hwr
    obtain ⟨handled, rest, hsp, -, -, hr⟩ := h.downloads.download
    cases hd : r.downloader with
    | header =>
      simp only [Reading, hd] at hr
      have hb : AdbMessageHeader.size ≤ r.fromDevice.length := by
        cases rest with
        | nil => exact absurd ⟨hi, .inl ⟨hd, hr⟩⟩ hwk
        | cons f back =>
          rw [hr, flatMap_cons, length_append, f.encode_length, AdbMessageHeader.size]
          omega
      refine ⟨.readHeader, _, trivial, ⟨trivial, trivial⟩, if_pos ⟨hd, hb⟩, ?_⟩
      have ha := r.afterHeader_work (r.fromDevice.take AdbMessageHeader.size)
      have ho : r.downloader.work = 0 := by rw [hd]; rfl
      rw [AdbMessageHeader.size] at hb
      simp only [work, length_drop, ho, AdbMessageHeader.size] at ha ⊢
      omega
    | payload header =>
      simp only [Reading, hd] at hr
      obtain ⟨f, back, rfl, rfl, -, hb⟩ := hr
      obtain ⟨hf, -⟩ := h.downloads.frames f (hsp ▸ mem_append_right _ mem_cons_self)
      have hl : f.header.dataLength.toNat ≤ r.fromDevice.length := by
        rw [hf.framed.length_eq, hb, length_append]
        exact Nat.le_add_right _ _
      have hs : r.step .readPayload = some { r with
          downloader := .delivering (r.fromDevice.take f.header.dataLength.toNat)
          fromDevice := r.fromDevice.drop f.header.dataLength.toNat } := by
        simp [step, hd, if_pos hl]
      have ho : r.downloader.work = 50 := by rw [hd]; rfl
      refine ⟨.readPayload, _, trivial, ⟨trivial, trivial⟩, hs, ?_⟩
      rw [work, work, ho]
      simp only [length_drop, Downloader.work]
      omega
    | delivering payload =>
      have hs : r.step .deliver = some { r with
          downloader := .acking ⟨r.frame aOkay [], 0⟩
          toClient := r.toClient ++ payload } := by
        simp [step, hd, hc]
      have ho : r.downloader.work = 30 := by rw [hd]; rfl
      refine ⟨.deliver, _, trivial, ⟨trivial, trivial⟩, hs, ?_⟩
      rw [work, work, ho]
      simp only [Downloader.work, frame_left]
      omega
    | acking w =>
      have hn := hi .downloader
      rw [writing, hd] at hn
      cases hn
    | ended => exact absurd ⟨hi, .inr hd⟩ hwk

/-- The relay's own steps change nothing of what client and device sent. -/
theorem own_keeps {a : ForwardRelayStep} (ho : OwnStep a) (hs : r.step a = some r') :
    r'.clientBytes = r.clientBytes ∧ r'.deviceSent = r.deviceSent ∧ r'.deviceGone = r.deviceGone
      ∧ (r.clientGone = false → r'.clientGone = false) := by
  cases step_stepped hs with
  | @write thread n w =>
    refine ⟨wrote_clientBytes w thread n, wrote_deviceSent w thread n, wrote_deviceGone w thread n, ?_⟩
    unfold wrote
    split <;> cases thread <;> exact id
  | readHeader | readPayload | deliver | deliverFails => exact ⟨rfl, rfl, rfl, id⟩
  | clientData | clientEof | clientReadFails | writeFails | readFails | deviceSends | deviceLeaves
  | clientLeaves => exact ho.elim

/-- As long as both sides stay, the relay can finish all it has begun. -/
theorem Flow.settles (h : r.Flow) (hd : r.deviceGone = false) (hc : r.clientGone = false) :
    ∃ as r', (∀ a ∈ as, OwnStep a) ∧ StepsMeet step Regular r as ∧ runSteps step r as = some r'
      ∧ r'.Flow ∧ r'.Settled ∧ r'.clientBytes = r.clientBytes ∧ r'.deviceSent = r.deviceSent
      ∧ r'.deviceGone = false ∧ r'.clientGone = false := by
  induction hn : r.work using Nat.strong_induction_on generalizing r with
  | _ n ih =>
    by_cases hst : r.Settled
    · exact ⟨[], r, forall_mem_nil _, trivial, rfl, h, hst, rfl, rfl, hd, hc⟩
    obtain ⟨a, mid, ho, hr, hs, hl⟩ := h.progress hd hc hst
    obtain ⟨hb, hf, hg, hsy⟩ := own_keeps ho hs
    obtain ⟨as, r', how, hmt, hrun, hfl, he, hb', hf', hd', hc'⟩ :=
      ih mid.work (hn ▸ hl) (step_flow h hr hs) (hg.trans hd) (hsy hc)
        rfl
    refine ⟨a :: as, r', ?_, ⟨hr, ?_⟩, ?_, hfl, he, hb'.trans hb, hf'.trans hf, hd', hc'⟩
    · exact forall_mem_cons.mpr ⟨ho, how⟩
    · intro mid' hm
      cases hs.symm.trans hm
      exact hmt
    · rw [runSteps, hs]
      exact hrun

/-- Each direction of a forwarded connection loses, repeats and reorders nothing, with one frame of
data at a time on its way to the device. -/
structure FlowExact (r : ForwardRelay) : Prop where
  oneOutstanding : countOf aWrte (r.sent ++ r.inFrame .uploader) ≤ countOf aOkay r.deviceSent + 1
  whole : r.Whole
  upload : ∃ lost, r.clientBytes = dataOf (r.sent ++ r.inFrame .uploader) ++ lost
    ∧ (r.deviceGone = false → lost = [])
  download : ∃ handled rest, r.deviceSent = handled ++ rest ∧ r.toClient = dataOf handled
    ∧ r.Acked handled
  /-- The threads can always go on to where all that was read is sent, and all that the device has
  sent is delivered and acknowledged. -/
  settles : r.deviceGone = false → r.clientGone = false →
    ∃ as r', (∀ a ∈ as, OwnStep a) ∧ StepsMeet step Regular r as ∧ runSteps step r as = some r'
      ∧ dataOf r'.sent = r.clientBytes ∧ r'.toClient = dataOf r.deviceSent
      ∧ countOf aOkay r'.sent = countOf aWrte r.deviceSent

/-- A settled relay has passed on all data and acknowledged every A_WRTE. -/
theorem Settled.delivered (h : r.Settled) (hf : r.Flow) (hdv : r.deviceGone = false)
    (hcl : r.clientGone = false) :
    dataOf r.sent = r.clientBytes ∧ r.toClient = dataOf r.deviceSent
      ∧ countOf aOkay r.sent = countOf aWrte r.deviceSent := by
  obtain ⟨hi, hd⟩ := h
  obtain ⟨lost, hdt, hls⟩ := hf.uploads.upload
  obtain ⟨handled, rest, hs, hc, hac, hr⟩ := hf.downloads.download
  have hn : rest = [] := by
    rcases hd with ⟨hd, hb⟩ | hd
    · simp only [Reading, hd, hb] at hr
      cases rest with
      | nil => rfl
      | cons f back =>
        have hl := congrArg length hr
        rw [flatMap_cons, length_append, f.encode_length, length_nil] at hl
        omega
    · simp only [Reading, hd, hdv, hcl, Bool.false_eq_true, false_or] at hr
      exact hr.1
  rw [hn, append_nil] at hs
  rw [inFrame, hi, hls (.inl hdv), append_nil] at hdt
  have ha := hac.2 hdv
  rw [acks_of_idle (hi _)] at ha
  rw [hs]
  exact ⟨by simpa using hdt.symm, hc, ha⟩

theorem Flow.exact (h : r.Flow) : r.FlowExact := by
  refine ⟨h.uploads.outstanding, h.framing.whole, ?_, ?_, fun hd hc => ?_⟩
  · obtain ⟨lost, hdt, hl⟩ := h.uploads.upload
    exact ⟨lost, hdt, fun hd => hl (.inl hd)⟩
  · obtain ⟨handled, rest, hsp, hdt, ha, -⟩ := h.downloads.download
    exact ⟨handled, rest, hsp, hdt, ha⟩
  · obtain ⟨as, r', ho, hm, hr, hfl, he, hb, hf, hd', hc'⟩ :=
      h.settles hd hc
    obtain ⟨hs, hdl, hak⟩ := he.delivered hfl hd' hc'
    exact ⟨as, r', ho, hm, hr, hb ▸ hs, hf ▸ hdl, hf ▸ hak⟩

/-- A device that keeps to the protocol is served right in every run in which the client's data
comes when all before it is answered and no call of `write` falls into a frame of the other
thread. -/
theorem forward_flow_exact {remoteId : UInt32} {as : List ForwardRelayStep} {r : ForwardRelay}
    (hmeet : StepsMeet step Regular (start remoteId) as)
    (hrun : runSteps step (start remoteId) as = some r) : r.FlowExact :=
  (runSteps_invariant step_flow (start_flow remoteId) hmeet hrun).exact

instance (r : ForwardRelay) : ∀ a, Decidable (r.DeviceConforms a)
  | .deviceSends f => inferInstanceAs (Decidable (f.WellFormed ∧ _ ∧ (_ ∨ _ ∨ _)))
  | .clientData _ | .clientEof | .clientReadFails | .write _ _ | .writeFails _ | .readHeader
  | .readPayload | .readFails | .deliver | .deviceLeaves | .clientLeaves => isTrue trivial

instance (r : ForwardRelay) : ∀ a, Decidable (r.InStep a)
  | .clientData _ => inferInstanceAs (Decidable (_ ≤ _))
  | .write thread n => inferInstanceAs (Decidable (r.Atomic (.write thread n)))
  | .clientEof | .clientReadFails | .writeFails _ | .readHeader | .readPayload | .readFails
  | .deliver | .deviceSends _ | .deviceLeaves | .clientLeaves => isTrue trivial

instance (r : ForwardRelay) (a : ForwardRelayStep) : Decidable (r.Regular a) :=
  inferInstanceAs (Decidable (_ ∧ _))

def exchange : List ForwardRelayStep :=
  [.clientData [104, 105], .write .uploader 24, .write .uploader 2,
    .deviceSends (.new aOkay 7 localId []), .deviceSends (.new aWrte 7 localId [33]), .readHeader,
    .readHeader, .readPayload, .deliver, .write .downloader 24, .clientData [106]]

theorem forward_flow_exact_exchange :
    ∃ r, StepsMeet step Regular (start 7) exchange ∧ runSteps step (start 7) exchange = some r
      ∧ r.clientBytes = [104, 105, 106] ∧ r.toClient = [33] ∧ r.FlowExact := by
  have hm : StepsMeet step Regular (start 7) exchange := by decide
  exact ⟨_, hm, rfl, rfl, rfl, forward_flow_exact hm rfl⟩

def unanswered : List ForwardRelayStep :=
  [.clientData [104], .write .uploader 24, .write .uploader 1, .clientData [105],
    .write .uploader 24, .write .uploader 1]

/-- A second A_WRTE goes out before the first is acknowledged. -/
theorem forward_flow_unanswered : ∃ r, StepsMeet step DeviceConforms (start 7) unanswered
      ∧ StepsMeet step Atomic (start 7) unanswered
      ∧ runSteps step (start 7) unanswered = some r ∧ countOf aWrte r.sent = 2
      ∧ countOf aOkay r.deviceSent = 0 ∧ ¬ r.FlowExact := by
  refine ⟨_, by decide, by decide, rfl, rfl, rfl, fun h => ?_⟩
  exact absurd h.oneOutstanding (by decide)

end ForwardRelay

end AdbFastboot
