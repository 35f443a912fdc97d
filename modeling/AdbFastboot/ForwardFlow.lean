import AdbFastboot.ForwardFrames

namespace AdbFastboot

open List

def countOf (command : UInt32) (frames : List AdbPacket) : Nat :=
  frames.countP fun f => decide (f.header.command = command)

def dataOf (frames : List AdbPacket) : Bytes :=
  (frames.filter fun f => decide (f.header.command = aWrte)).flatMap AdbPacket.payload

theorem countOf_append (command : UInt32) (xs ys : List AdbPacket) :
    countOf command (xs ++ ys) = countOf command xs + countOf command ys := countP_append

theorem dataOf_append (xs ys : List AdbPacket) : dataOf (xs ++ ys) = dataOf xs ++ dataOf ys := by
  rw [dataOf, filter_append, flatMap_append, dataOf, dataOf]

variable {f : AdbPacket}

theorem countOf_singleton {command : UInt32} (h : f.header.command = command) :
    countOf command [f] = 1 := by
  rw [countOf, countP_singleton, if_pos (decide_eq_true h)]

theorem countOf_singleton_ne {command : UInt32} (h : f.header.command ≠ command) :
    countOf command [f] = 0 := by
  rw [countOf, countP_singleton, if_neg (by simpa using h)]

theorem dataOf_singleton (h : f.header.command = aWrte) : dataOf [f] = f.payload := by
  rw [dataOf, filter_cons_of_pos (by simpa using h), filter_nil, flatMap_singleton]

theorem dataOf_singleton_ne (h : f.header.command ≠ aWrte) : dataOf [f] = [] := by
  rw [dataOf, filter_cons_of_neg (by simpa using h), filter_nil, flatMap_nil]

namespace ForwardRelay

variable {r r' : ForwardRelay}

/-- The device keeps to the protocol: each of its frames can be read, it answers a frame of data
with one A_OKAY, sends data when its last is acknowledged, and nothing after A_CLSE. -/
def DeviceConforms (r : ForwardRelay) : ForwardRelayStep → Prop
  | .deviceSends f =>
    f.WellFormed ∧ countOf aClse r.deviceSent = 0
      ∧ (f.header.command = aWrte ∧ countOf aWrte r.deviceSent = countOf aOkay r.sent
        ∨ f.payload = [] ∧ f.header.command = aOkay
          ∧ countOf aOkay r.deviceSent < countOf aWrte r.sent
        ∨ f.payload = [] ∧ f.header.command = aClse)
  | _ => True

def inFrame (r : ForwardRelay) (thread : RelayThread) : List AdbPacket :=
  (r.writing thread).toList.map FrameWrite.frame

/-- Data comes from the client only when the device has answered all before it, and no call of
`write` falls into a frame of the other thread. -/
def InStep (r : ForwardRelay) : ForwardRelayStep → Prop
  | .clientData _ => countOf aWrte r.sent ≤ countOf aOkay r.deviceSent
  | a => r.Atomic a

/-- Where the downloader stands in the frames of the device: `rest` are those that it has not
delivered. -/
def Reading (r : ForwardRelay) (rest : List AdbPacket) : Prop :=
  match r.downloader with
  | .header => r.fromDevice = rest.flatMap AdbPacket.encode
  | .payload header => ∃ f back, rest = f :: back ∧ f.header = header ∧ header.command = aWrte
      ∧ r.fromDevice = f.payload ++ back.flatMap AdbPacket.encode
  | .delivering payload => ∃ f back, rest = f :: back ∧ f.header.command = aWrte
      ∧ f.payload = payload ∧ r.fromDevice = back.flatMap AdbPacket.encode
  | .acking w =>
    if w.frame.header.command = aClse then rest = [] ∧ countOf aClse r.deviceSent ≠ 0
    else r.fromDevice = rest.flatMap AdbPacket.encode
  | .ended => r.deviceGone = true ∨ r.clientGone = true
      ∨ rest = [] ∧ countOf aClse r.deviceSent ≠ 0

def commandsOf : RelayThread → List UInt32
  | .uploader => [aWrte, aClse]
  | .downloader => [aOkay, aClse]

def Commands (r : ForwardRelay) : Prop :=
  ∀ thread w, r.writing thread = some w → w.frame.header.command ∈ commandsOf thread

theorem Commands.turn (thread : RelayThread) (h : r.Commands)
    (ho : r'.writing thread.other = r.writing thread.other)
    (hn : ∀ w, r'.writing thread = some w → w.frame.header.command ∈ commandsOf thread) :
    r'.Commands := by
  intro thread' w hw
  rcases thread.eq_or_other thread' with rfl | rfl
  · exact hn w hw
  · exact h _ w (ho.symm.trans hw)

variable {w : FrameWrite} {a : ForwardRelayStep} {thread : RelayThread} {handled : List AdbPacket}
    {f : AdbPacket}

theorem afterHeader_command {buf : Bytes} (h : r.afterHeader buf = .acking w) :
    w.frame.header.command ∈ commandsOf .downloader := by
  unfold afterHeader at h
  split at h
  next => cases h
  split at h
  next =>
    split at h
    next => cases h
    cases h
    exact mem_cons_self
  next =>
    split at h
    next =>
      cases h
      exact mem_cons_of_mem _ mem_cons_self
    next => cases h

/-- Each thread writes only its own kinds of frames. -/
theorem step_commands (h : r.Commands) (hs : r.step a = some r') : r'.Commands := by
  cases step_stepped hs with
  | clientData =>
    refine h.turn .uploader rfl fun w hw => ?_
    cases hw
    exact mem_cons_self
  | clientEof =>
    refine h.turn .uploader rfl fun w hw => ?_
    cases hw
    exact mem_cons_of_mem _ mem_cons_self
  | clientReadFails => exact h.turn .uploader rfl (by intros; contradiction)
  | @write thread n w hw =>
    refine h.turn thread (wrote_writing_other w thread n) fun w' hw' => ?_
    by_cases hl : w.done + n = w.frame.encode.length
    · cases (wrote_last w thread n hl).2.symm.trans hw'
    · cases (wrote_more w thread n hl).2.symm.trans hw'
      exact h thread w hw
  | @writeFails thread w hw =>
    refine h.turn thread (failWrite_writing_other w thread) fun w' hw' => ?_
    cases (failWrite_writing w thread).symm.trans hw'
  | readHeader =>
    refine h.turn .downloader rfl fun w hw => ?_
    simp only [writing] at hw
    split at hw
    next ha =>
      cases hw
      exact afterHeader_command ha
    next => cases hw
  | readPayload | readFails | deliverFails => exact h.turn .downloader rfl (by intros; contradiction)
  | deliver =>
    refine h.turn .downloader rfl fun w hw => ?_
    cases hw
    exact mem_cons_self
  | deviceSends | deviceLeaves | clientLeaves =>
    exact fun thread w hw => h thread w (by cases thread <;> exact hw)

theorem wrote_sent (thread : RelayThread) (w : FrameWrite) (n : Nat) :
    ∃ added, (r.wrote thread w n).sent = r.sent ++ added ∧ (added = [] ∨ added = [w.frame]) := by
  by_cases hl : w.done + n = w.frame.encode.length
  · exact ⟨_, (wrote_last w thread n hl).1, .inr rfl⟩
  · exact ⟨[], by rw [(wrote_more w thread n hl).1, append_nil], .inl rfl⟩

/-- A write moves a frame from begun to sent, and loses none. -/
theorem wrote_begun (n : Nat) (hw : r.writing thread = some w) :
    (r.wrote thread w n).sent ++ (r.wrote thread w n).inFrame thread = r.sent ++ r.inFrame thread := by
  unfold inFrame
  rw [hw]
  by_cases hl : w.done + n = w.frame.encode.length
  · obtain ⟨hs, hi⟩ := wrote_last (r := r) w thread n hl
    rw [hs, hi]
    exact append_nil _
  · obtain ⟨hs, hwr⟩ := wrote_more (r := r) w thread n hl
    rw [hs, hwr]
    rfl

theorem wrote_inFrame_other (w : FrameWrite) (thread : RelayThread) (n : Nat) :
    (r.wrote thread w n).inFrame thread.other = r.inFrame thread.other := by
  rw [inFrame, wrote_writing_other, inFrame]

structure Uploads (r : ForwardRelay) : Prop where
  outstanding : countOf aWrte (r.sent ++ r.inFrame .uploader) ≤ countOf aOkay r.deviceSent + 1
  /-- Data is lost only when the device leaves and the uploader gives up. -/
  upload : ∃ lost, r.clientBytes = dataOf (r.sent ++ r.inFrame .uploader) ++ lost
    ∧ (r.deviceGone = false ∨ r.uploader ≠ .ended → lost = [])

variable {added : List AdbPacket}

theorem Commands.downloader_added (h : r.Commands)
    (hw : r.writing .downloader = some w) (ha : added = [] ∨ added = [w.frame]) :
    dataOf added = [] ∧ countOf aWrte added = 0 := by
  rcases ha with rfl | rfl
  · exact ⟨rfl, rfl⟩
  have hne : w.frame.header.command ≠ aWrte := by
    have hc := h _ w hw
    simp only [commandsOf, mem_cons, not_mem_nil, or_false] at hc
    rcases hc with ho | hcl
    · rw [ho]
      decide
    · rw [hcl]
      decide
  exact ⟨dataOf_singleton_ne hne, countOf_singleton_ne hne⟩

section

variable (h : r.Uploads)
include h

theorem Uploads.congr (hs : r'.sent = r.sent) (hu : r'.uploader = r.uploader)
    (hb : r'.clientBytes = r.clientBytes) (hg : r'.deviceGone = false → r.deviceGone = false)
    (ho : countOf aOkay r.deviceSent ≤ countOf aOkay r'.deviceSent) : r'.Uploads := by
  have hf : r'.inFrame .uploader = r.inFrame .uploader := by
    rw [inFrame, writing, hu, inFrame, writing]
  constructor
  · rw [hs, hf]
    exact h.outstanding.trans (Nat.succ_le_succ ho)
  · obtain ⟨lost, hd, hl⟩ := h.upload
    refine ⟨lost, by rw [hb, hs, hf, hd], fun hk => hl ?_⟩
    rw [hu] at hk
    exact hk.imp_left hg

theorem Uploads.ofReading (hu : r.uploader = .reading) {u : Uploader}
    (hi : ({ r with uploader := u }).inFrame .uploader = []
      ∨ ∃ w, u = .writing w ∧ w.frame.header.command ≠ aWrte) :
    ({ r with uploader := u }).Uploads := by
  have hn : r.inFrame .uploader = [] := by rw [inFrame, writing, hu]; rfl
  have hf : dataOf (({ r with uploader := u }).inFrame .uploader) = []
      ∧ countOf aWrte (({ r with uploader := u }).inFrame .uploader) = 0 := by
    rcases hi with hi | ⟨w, rfl, hne⟩
    · rw [hi]
      exact ⟨rfl, rfl⟩
    · exact ⟨dataOf_singleton_ne hne, countOf_singleton_ne hne⟩
  obtain ⟨lost, hd, hl⟩ := h.upload
  rw [hn, append_nil] at hd
  have hc := h.outstanding
  rw [hn, append_nil] at hc
  refine ⟨?_, lost, ?_, fun _ => hl (.inr (by simp [hu]))⟩
  · rw [countOf_append, hf.2]
    exact hc
  · rw [dataOf_append, hf.1, append_nil]
    exact hd

/-- A chunk read from the client becomes the A_WRTE that is written next. -/
theorem Uploads.clientData (hu : r.uploader = .reading) {data : Bytes}
    (ha : countOf aWrte r.sent ≤ countOf aOkay r.deviceSent) :
    ({ r with
      uploader := .writing ⟨r.frame aWrte data, 0⟩
      clientBytes := r.clientBytes ++ data }).Uploads := by
  have hn : r.inFrame .uploader = [] := by rw [inFrame, writing, hu]; rfl
  have hw : (r.frame aWrte data).header.command = aWrte := rfl
  obtain ⟨lost, hd, hl⟩ := h.upload
  rw [hn, append_nil, hl (.inr (by simp [hu])), append_nil] at hd
  refine ⟨?_, [], ?_, fun _ => rfl⟩
  · show countOf aWrte (r.sent ++ [r.frame aWrte data]) ≤ _
    rw [countOf_append, countOf_singleton hw]
    exact Nat.succ_le_succ ha
  · show r.clientBytes ++ data = dataOf (r.sent ++ [r.frame aWrte data]) ++ []
    rw [dataOf_append, dataOf_singleton hw, append_nil, hd]
    rfl

/-- Writing a part of a frame keeps what the uploader has promised. -/
theorem Uploads.wrote {n : Nat} (hcm : r.Commands) (hw : r.writing thread = some w)
    (hdv : r.deviceGone = false) : (r.wrote thread w n).Uploads := by
  obtain ⟨lost, hd, hl⟩ := h.upload
  rw [hl (.inl hdv), append_nil] at hd
  cases thread with
  | uploader =>
    refine ⟨?_, [], ?_, fun _ => rfl⟩
    · rw [wrote_begun n hw, wrote_deviceSent]
      exact h.outstanding
    · rw [wrote_begun n hw, wrote_clientBytes, append_nil]
      exact hd
  | downloader =>
    obtain ⟨added, hs, ha⟩ := wrote_sent (r := r) .downloader w n
    obtain ⟨hnd, hn⟩ := hcm.downloader_added hw ha
    have hf : (r.wrote .downloader w n).inFrame .uploader = r.inFrame .uploader :=
      wrote_inFrame_other w .downloader n
    have hc := h.outstanding
    rw [countOf_append] at hc
    rw [dataOf_append] at hd
    refine ⟨?_, [], ?_, fun _ => rfl⟩
    · rw [hf, hs, wrote_deviceSent, countOf_append, countOf_append, hn]
      exact hc
    · rw [hf, hs, wrote_clientBytes, dataOf_append, dataOf_append, hnd, append_nil, append_nil]
      exact hd

theorem Uploads.failWrite (hw : r.writing thread = some w) (hg : r.deviceGone = true) :
    (r.failWrite w thread).Uploads := by
  cases thread with
  | downloader => exact h.congr rfl rfl rfl id (Nat.le_refl _)
  | uploader =>
    have hc := h.outstanding
    obtain ⟨lost, hd, -⟩ := h.upload
    rw [countOf_append] at hc
    rw [dataOf_append] at hd
    refine ⟨?_, dataOf (r.inFrame .uploader) ++ lost, ?_, ?_⟩
    · show countOf aWrte (r.sent ++ []) ≤ countOf aOkay r.deviceSent + 1
      rw [append_nil]
      omega
    · show r.clientBytes = dataOf (r.sent ++ []) ++ _
      rw [append_nil, hd, append_assoc]
    · rintro (hdv | hu)
      · cases hdv.symm.trans hg
      · exact absurd rfl hu

/-- Every step in turn keeps the uploads exact. -/
theorem step_uploads (hc : r.Commands) (hi : r.InStep a) (hs : r.step a = some r') :
    r'.Uploads := by
  cases step_stepped hs with
  | clientData hu => exact h.clientData hu hi
  | clientEof hu => exact h.ofReading hu (.inr ⟨_, rfl, show aClse ≠ aWrte by decide⟩)
  | clientReadFails hu => exact h.ofReading hu (.inl rfl)
  | write hw hd => exact h.wrote hc hw hd
  | writeFails hw hg => exact h.failWrite hw hg
  | readHeader | readPayload | readFails | deliver | deliverFails | clientLeaves =>
    exact h.congr rfl rfl rfl id (Nat.le_refl _)
  | deviceSends =>
    refine h.congr rfl rfl rfl id ?_
    rw [countOf_append]
    exact Nat.le_add_right _ _
  | deviceLeaves => exact h.congr rfl rfl rfl (by intros; contradiction) (Nat.le_refl _)

end

def acks (r : ForwardRelay) : Nat := countOf aOkay (r.sent ++ r.inFrame .downloader)

/-- Each frame of data among those handled is acknowledged once, as long as the device is there. -/
def Acked (r : ForwardRelay) (handled : List AdbPacket) : Prop :=
  r.acks ≤ countOf aWrte handled ∧ (r.deviceGone = false → r.acks = countOf aWrte handled)

structure Downloads (r : ForwardRelay) : Prop where
  frames : ∀ f ∈ r.deviceSent, f.WellFormed ∧ (f.header.command = aWrte ∨ f.payload = [])
  closedLast : ∀ front f back, r.deviceSent = front ++ f :: back → f.header.command = aClse →
    back = []
  download : ∃ handled rest, r.deviceSent = handled ++ rest ∧ r.toClient = dataOf handled
    ∧ r.Acked handled ∧ r.Reading rest

theorem Acked.congr (h : r.Acked handled) (ha : r'.acks = r.acks)
    (hg : r'.deviceGone = false → r.deviceGone = false) : r'.Acked handled := by
  rw [Acked, ha]
  exact ⟨h.1, fun hd => h.2 (hg hd)⟩

theorem Acked.handle (h : r.Acked handled) (ha : r'.acks = r.acks + countOf aWrte [f])
    (hg : r'.deviceGone = r.deviceGone) : r'.Acked (handled ++ [f]) := by
  rw [Acked, ha, hg, countOf_append]
  exact ⟨Nat.add_le_add_right h.1 _, fun hd => by rw [h.2 hd]⟩

theorem Commands.uploader_added (h : r.Commands)
    (hw : r.writing .uploader = some w) (ha : added = [] ∨ added = [w.frame]) :
    countOf aOkay added = 0 := by
  rcases ha with rfl | rfl
  · rfl
  have hc := h _ w hw
  simp only [commandsOf, mem_cons, not_mem_nil, or_false] at hc
  rcases hc with hwr | hcl
  · exact countOf_singleton_ne (by rw [hwr]; decide)
  · exact countOf_singleton_ne (by rw [hcl]; decide)

theorem Downloads.congr (h : r.Downloads) (hd : r'.deviceSent = r.deviceSent)
    (hc : r'.toClient = r.toClient) (ha : ∀ handled, r.Acked handled → r'.Acked handled)
    (hr : ∀ rest, r.Reading rest → r'.Reading rest) : r'.Downloads := by
  refine ⟨hd ▸ h.frames, hd ▸ h.closedLast, ?_⟩
  obtain ⟨handled, rest, hs, hdt, hak, hrs⟩ := h.download
  exact ⟨handled, rest, by rw [hd, hs], by rw [hc, hdt], ha handled hak, hr rest hrs⟩

/-- A frame that has been dealt with moves to those handled. -/
theorem Downloads.handle (h : r.Downloads) {back : List AdbPacket}
    (hs : r.deviceSent = handled ++ f :: back) (hd : r'.deviceSent = r.deviceSent)
    (hdt : r'.toClient = dataOf (handled ++ [f])) (ha : r'.Acked (handled ++ [f]))
    (hr : r'.Reading back) : r'.Downloads := by
  refine ⟨hd ▸ h.frames, hd ▸ h.closedLast, handled ++ [f], back, ?_, hdt, ha, hr⟩
  rw [hd, hs, append_assoc, singleton_append]

theorem acking_of_writing (h : r.writing .downloader = some w) : r.downloader = .acking w := by
  simp only [writing] at h
  split at h
  next hd =>
    cases h
    exact hd
  next => cases h

variable {rest : List AdbPacket}

theorem Reading.endFrame (hw : r.writing .downloader = some w)
    (h : r.Reading rest) : (r.endFrame w.frame .downloader).Reading rest := by
  simp only [Reading, acking_of_writing hw] at h
  simp only [ForwardRelay.endFrame]
  split at h
  next hc =>
    rw [if_pos hc]
    exact .inr (.inr h)
  next hc =>
    rw [if_neg hc]
    exact h

/-- Writing a part of a frame keeps the downloads exact. -/
theorem Downloads.wrote {n : Nat} (h : r.Downloads) (hc : r.Commands)
    (hw : r.writing thread = some w) : (r.wrote thread w n).Downloads := by
  have hg : (r.wrote thread w n).deviceGone = false → r.deviceGone = false := by
    rw [wrote_deviceGone]
    exact id
  cases thread with
  | uploader =>
    refine h.congr (wrote_deviceSent w _ n) (wrote_toClient w _ n)
      (fun handled ha => ha.congr ?_ hg) fun rest hr => ?_
    · obtain ⟨added, hs, had⟩ := wrote_sent (r := r) .uploader w n
      have hf : (r.wrote .uploader w n).inFrame .downloader = r.inFrame .downloader :=
        wrote_inFrame_other w .uploader n
      rw [acks, acks, hf, hs, countOf_append, countOf_append, countOf_append,
        hc.uploader_added hw had, Nat.add_zero]
    · unfold ForwardRelay.wrote
      split
      next => exact hr
      next => exact hr
  | downloader =>
    refine h.congr (wrote_deviceSent w _ n) (wrote_toClient w _ n)
      (fun handled ha => ha.congr ?_ hg) fun rest hr => ?_
    · rw [acks, acks, wrote_begun n hw]
    · unfold ForwardRelay.wrote
      dsimp only
      split
      next => exact Reading.endFrame (r := { r with toDevice := _, sent := _ }) hw hr
      simp only [Reading, acking_of_writing hw] at hr
      exact hr

theorem acks_of_idle (h : r.writing .downloader = none) : r.acks = countOf aOkay r.sent := by
  rw [acks, inFrame, h]
  exact congrArg (countOf aOkay) (append_nil _)

theorem acks_of_writing (h : r.writing .downloader = some w) :
    r.acks = countOf aOkay r.sent + countOf aOkay [w.frame] := by
  rw [acks, inFrame, h]
  exact countOf_append _ _ _

theorem Downloads.failWrite (h : r.Downloads) (hw : r.writing thread = some w)
    (hg : r.deviceGone = true) : (r.failWrite w thread).Downloads := by
  cases thread with
  | uploader => exact h.congr rfl rfl (fun _ ha => ha) fun _ hr => hr
  | downloader =>
    refine h.congr rfl rfl (fun handled ha => ⟨?_, ?_⟩) fun rest hr => hr.endFrame hw
    · rw [acks_of_idle (failWrite_writing w .downloader), failWrite_sent]
      exact (Nat.le_add_right _ _).trans (acks_of_writing hw ▸ ha.1)
    · rw [failWrite_deviceGone]
      intro hd
      cases hd.symm.trans hg

/-- What the downloader does next depends on the command and the length. -/
theorem afterHeader_encode (hf : f.WellFormed) : r.afterHeader f.header.encode =
      if f.header.command = aWrte then
        if 0 < f.header.dataLength then .payload f.header else .acking ⟨r.frame aOkay [], 0⟩
      else if f.header.command = aClse then .acking ⟨r.frame aClse [], 0⟩
      else .header := by
  rw [afterHeader, AdbMessageHeader.decode_encode hf.magic]

/-- Reading a whole header keeps the downloads exact. -/
theorem Downloads.readHeader (h : r.Downloads) (hdw : r.downloader = .header)
    (hl : AdbMessageHeader.size ≤ r.fromDevice.length) :
    ({ r with
      downloader := r.afterHeader (r.fromDevice.take AdbMessageHeader.size)
      fromDevice := r.fromDevice.drop AdbMessageHeader.size }).Downloads := by
  obtain ⟨handled, rest, hs, hd, ha, hr⟩ := h.download
  simp only [Reading, hdw] at hr
  cases rest with
  | nil =>
    rw [hr] at hl
    cases hl
  | cons f back =>
    obtain ⟨hf, hp⟩ := h.frames f (hs ▸ mem_append_right _ mem_cons_self)
    have hb : r.fromDevice = f.header.encode ++ (f.payload ++ back.flatMap AdbPacket.encode) := by
      rw [hr, flatMap_cons, AdbPacket.encode, append_assoc]
    have hsz : f.header.encode.length = AdbMessageHeader.size := f.header.encode_length
    have hi := acks_of_idle (by rw [writing, hdw])
    rw [hb, take_left' hsz, drop_left' hsz, afterHeader_encode hf]
    by_cases hw : f.header.command = aWrte
    · rw [if_pos hw]
      split
      next hln =>
        exact ⟨h.frames, h.closedLast, handled, f :: back, hs, hd,
          ha.congr ((acks_of_idle rfl).trans hi.symm) id, f, back, rfl, rfl, hw, rfl⟩
      next hln =>
        have hm : f.payload = [] := by
          have hz : f.header.dataLength = 0 := by simpa using hln
          rw [← length_eq_zero_iff, ← hf.framed.length_eq, hz]
          rfl
        refine h.handle hs rfl ?_ (ha.handle ?_ rfl) ?_
        · rw [dataOf_append, dataOf_singleton hw, hm, append_nil]
          exact hd
        · rw [acks_of_writing rfl, countOf_singleton hw, hi]
          rfl
        · rw [hm]
          exact rfl
    · have hm := hp.resolve_left hw
      have hn : r.toClient = dataOf (handled ++ [f]) := by
        rw [dataOf_append, dataOf_singleton_ne hw, append_nil, hd]
      rw [if_neg hw, hm, nil_append]
      split
      next hc =>
        obtain rfl := h.closedLast handled f back hs hc
        refine h.handle hs rfl hn (ha.handle ?_ rfl) ⟨rfl, ?_⟩
        · rw [acks_of_writing rfl, countOf_singleton_ne hw, hi]
          rfl
        · show countOf aClse r.deviceSent ≠ 0
          rw [hs, countOf_append, countOf_singleton hc]
          exact Nat.succ_ne_zero _
      next hc =>
        refine h.handle hs rfl hn (ha.handle ?_ rfl) rfl
        rw [acks_of_idle rfl, countOf_singleton_ne hw, hi, Nat.add_zero]

theorem Downloads.readPayload (h : r.Downloads) {header : AdbMessageHeader}
    (hd : r.downloader = .payload header) :
    ({ r with
      downloader := .delivering (r.fromDevice.take header.dataLength.toNat)
      fromDevice := r.fromDevice.drop header.dataLength.toNat }).Downloads := by
  obtain ⟨handled, rest, hs, hdt, ha, hr⟩ := h.download
  simp only [Reading, hd] at hr
  obtain ⟨f, back, rfl, rfl, hw, hb⟩ := hr
  obtain ⟨hf, -⟩ := h.frames f (hs ▸ mem_append_right _ mem_cons_self)
  have hi := acks_of_idle (by rw [writing, hd])
  rw [hb, hf.framed.length_eq, take_left, drop_left]
  exact ⟨h.frames, h.closedLast, handled, f :: back, hs, hdt,
    ha.congr ((acks_of_idle rfl).trans hi.symm) id, f, back, rfl, hw, rfl, rfl⟩

/-- Handing a payload to the client keeps the downloads exact. -/
theorem Downloads.deliver (h : r.Downloads) {payload : Bytes}
    (hd : r.downloader = .delivering payload) :
    ({ r with
      downloader := .acking ⟨r.frame aOkay [], 0⟩
      toClient := r.toClient ++ payload }).Downloads := by
  obtain ⟨handled, rest, hs, hdt, ha, hr⟩ := h.download
  simp only [Reading, hd] at hr
  obtain ⟨f, back, rfl, hw, rfl, hb⟩ := hr
  have hi := acks_of_idle (by rw [writing, hd])
  refine h.handle hs rfl ?_ (ha.handle ?_ rfl) hb
  · rw [dataOf_append, dataOf_singleton hw, ← hdt]
  · rw [acks_of_writing rfl, countOf_singleton hw, hi]
    rfl

theorem Reading.deviceSends (h : r.Reading rest)
    (hdv : r.deviceGone = false) (ho : countOf aClse r.deviceSent = 0) :
    ({ r with
      fromDevice := r.fromDevice ++ f.encode
      deviceSent := r.deviceSent ++ [f] }).Reading (rest ++ [f]) := by
  have he : ∀ frames : List AdbPacket, (frames ++ [f]).flatMap AdbPacket.encode
      = frames.flatMap AdbPacket.encode ++ f.encode := fun frames => by
    rw [flatMap_append, flatMap_singleton]
  cases hd : r.downloader with
  | header =>
    simp only [Reading, hd] at h ⊢
    rw [h, he]
  | payload header =>
    simp only [Reading, hd] at h ⊢
    obtain ⟨g, back, rfl, hh, hw, hb⟩ := h
    exact ⟨g, back ++ [f], rfl, hh, hw, by rw [hb, he, append_assoc]⟩
  | delivering payload =>
    simp only [Reading, hd] at h ⊢
    obtain ⟨g, back, rfl, hw, hp, hb⟩ := h
    exact ⟨g, back ++ [f], rfl, hw, hp, by rw [hb, he]⟩
  | acking w =>
    simp only [Reading, hd] at h ⊢
    split at h
    next => exact absurd ho h.2
    next hcls =>
      rw [if_neg hcls, h, he]
  | ended =>
    simp only [Reading, hd] at h ⊢
    rcases h with hg | hc | ⟨-, hcs⟩
    · cases hdv.symm.trans hg
    · exact .inr (.inl hc)
    · exact absurd ho hcs

/-- A frame of a conforming device keeps the downloads exact. -/
theorem Downloads.deviceSends (h : r.Downloads) (hdv : r.deviceGone = false)
    (hf : f.WellFormed) (hp : f.header.command = aWrte ∨ f.payload = [])
    (ho : countOf aClse r.deviceSent = 0) :
    ({ r with
      fromDevice := r.fromDevice ++ f.encode
      deviceSent := r.deviceSent ++ [f] }).Downloads := by
  refine ⟨fun g hg => ?_, fun front g back hs hc => ?_, ?_⟩
  · rcases mem_append.mp hg with hg | hg
    · exact h.frames g hg
    · cases mem_singleton.mp hg
      exact ⟨hf, hp⟩
  · rcases eq_nil_or_concat back with rfl | ⟨back, last, rfl⟩
    · rfl
    have hb : r.deviceSent = front ++ g :: back := by
      rw [concat_eq_append, ← cons_append, ← append_assoc] at hs
      exact (append_inj' hs rfl).1
    have hg := hb ▸ mem_append_right _ mem_cons_self
    exact absurd (decide_eq_true hc) (countP_eq_zero.mp ho g hg)
  · obtain ⟨handled, rest, hs, hd, ha, hr⟩ := h.download
    exact ⟨handled, rest ++ [f], by rw [hs, append_assoc], hd, ha, hr.deviceSends hdv ho⟩

/-- Every step with a conforming device keeps the downloads exact. -/
theorem step_downloads (h : r.Downloads) (hcm : r.Commands) (hcn : r.DeviceConforms a)
    (hs : r.step a = some r') : r'.Downloads := by
  cases step_stepped hs with
  | clientData | clientEof | clientReadFails =>
    exact h.congr rfl rfl (fun _ ha => ha) fun _ hr => hr
  | write hw => exact h.wrote hcm hw
  | writeFails hw hg => exact h.failWrite hw hg
  | readHeader hd hl => exact h.readHeader hd hl
  | readPayload hd => exact h.readPayload hd
  | readFails hwn hg =>
    refine h.congr rfl rfl (fun handled ha => ha.congr ?_ id) fun _ _ => .inl hg
    rw [acks_of_idle rfl, acks_of_idle (wanted_idle hwn)]
  | deliver hd => exact h.deliver hd
  | deliverFails hd hc =>
    refine h.congr rfl rfl (fun handled ha => ha.congr ?_ id) fun _ _ => .inr (.inl hc)
    rw [acks_of_idle rfl, acks_of_idle (by rw [writing, hd])]
  | deviceSends hdv =>
    obtain ⟨hf, ho, hk⟩ := hcn
    refine h.deviceSends hdv hf ?_ ho
    rcases hk with ⟨hwr, -⟩ | ⟨hm, -⟩ | ⟨hm, -⟩
    · exact .inl hwr
    · exact .inr hm
    · exact .inr hm
  | deviceLeaves =>
    refine h.congr rfl rfl (fun _ ha => ⟨ha.1, by intros; contradiction⟩) fun rest hr => ?_
    cases hd : r.downloader with
    | ended =>
      simp only [Reading]
      exact .inl trivial
    | header | payload | delivering | acking =>
      simp only [Reading, hd] at hr ⊢
      exact hr
  | clientLeaves =>
    refine h.congr rfl rfl (fun _ ha => ha) fun rest hr => ?_
    cases hd : r.downloader with
    | ended =>
      simp only [Reading]
      exact .inr (.inl trivial)
    | header | payload | delivering | acking =>
      simp only [Reading, hd] at hr ⊢
      exact hr

structure Flow (r : ForwardRelay) : Prop where
  framing : r.Framing
  commands : r.Commands
  uploads : r.Uploads
  downloads : r.Downloads

theorem start_flow (remoteId : UInt32) : (start remoteId).Flow where
  framing := start_framing remoteId
  commands thread w h := by cases thread <;> cases h
  uploads := ⟨Nat.zero_le _, [], rfl, fun _ => rfl⟩
  downloads := by
    refine ⟨by intros; contradiction, fun front f back h => ?_, [], [], rfl, rfl,
      ⟨Nat.le_refl 0, fun _ => rfl⟩, rfl⟩
    cases front <;> cases h

def Regular (r : ForwardRelay) (a : ForwardRelayStep) : Prop := r.DeviceConforms a ∧ r.InStep a

theorem InStep.atomic (h : r.InStep a) : r.Atomic a := by
  cases a <;> first | exact h | trivial

/-- Every regular step keeps the flow in both directions. -/
theorem step_flow (h : r.Flow) (hr : r.Regular a) (hs : r.step a = some r') : r'.Flow where
  framing := step_framing h.framing hr.2.atomic hs
  commands := step_commands h.commands hs
  uploads := step_uploads h.uploads h.commands hr.2 hs
  downloads := step_downloads h.downloads h.commands hr.1 hs

end ForwardRelay

end AdbFastboot
