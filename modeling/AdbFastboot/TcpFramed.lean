import AdbFastboot.StepRun
import AdbFastboot.TcpTransport

namespace AdbFastboot

open TcpTransport List

theorem DeviceLog.parse_bytes (m : DeviceLog) :
    ∃ resp, FastbootResponse.parse m.bytes = .ok resp ∧ resp.log? = some m.body := by
  obtain ⟨tag, mk, ht, hl, hb⟩ := m.tagged
  refine ⟨mk m.body, ?_, ?_⟩
  · rw [hb, parse_text ht, fromUtf8Lossy_utf8Bytes]
  · rcases hl with rfl | rfl <;> rfl

section

variable {events : List TcpEvent} {rest : List TcpItem}

/-- Log messages are read off the stream and logged. -/
theorem recvFramed_logs {ms : List DeviceLog} (hm : ∀ m ∈ ms, m.bytes.length ≤ maxLengthPrefixedPayload)
    (h : tcpItems events = ((ms.map DeviceLog.bytes).flatMap tcpFrame).map .byte ++ rest)
    (logs : List String) (messages : List Bytes) :
    ∃ events', tcpItems events' = rest ∧ recvFramed events logs messages
      = recvFramed events' (logs ++ ms.map DeviceLog.body) (messages ++ ms.map DeviceLog.bytes) := by
  induction ms generalizing events logs messages with
  | nil =>
    refine ⟨events, h, ?_⟩
    rw [map_nil, map_nil, append_nil, append_nil]
  | cons m ms ih =>
    rw [forall_mem_cons] at hm
    rw [map_cons, flatMap_cons, map_append, append_assoc] at h
    obtain ⟨resp, hp, hl⟩ := m.parse_bytes
    obtain ⟨mid, hmid, hr⟩ := recvFramed_frame hm.1 h logs messages
    obtain ⟨events', hrs, hr'⟩ := ih hm.2 hmid (logs ++ [m.body]) (messages ++ [m.bytes])
    refine ⟨events', hrs, ?_⟩
    rw [hr, hp]
    dsimp only
    rw [hl]
    dsimp only
    rw [hr', append_assoc, append_assoc]
    rfl

end

/-- The receiver in length-prefixed mode returns the message that ends the logs, whatever the bodies
of the logs are and however the bytes arrive, and takes these messages off the stream. -/
theorem recvResponseWithInfo_lengthPrefixed (t : TcpTransport) (hmode : t.mode = .lengthPrefixed)
    (ms : List DeviceLog) (status : List UInt8) (resp : FastbootResponse) (infoLogs : List String)
    (rest : List TcpItem) (hms : ∀ m ∈ ms, m.bytes.length ≤ maxLengthPrefixedPayload)
    (hstatus : status.length ≤ maxLengthPrefixedPayload)
    (hparse : FastbootResponse.parse status = .ok resp) (hfinal : resp.log? = none)
    (hstream : tcpItems t.stream
      = ((ms.map DeviceLog.bytes ++ [status]).flatMap tcpFrame).map .byte ++ rest) :
    ∃ stream, tcpItems stream = rest ∧ t.recvResponseWithInfo infoLogs
      = (.ok resp, infoLogs ++ ms.map DeviceLog.body, { t with stream }) := by
  rw [flatMap_append, flatMap_singleton, map_append, append_assoc] at hstream
  obtain ⟨mid, hm, hl⟩ := recvFramed_logs hms hstream infoLogs []
  obtain ⟨stream, hr, hls⟩ := recvFramed_frame hstatus hm
    (infoLogs ++ ms.map DeviceLog.body) ([] ++ ms.map DeviceLog.bytes)
  refine ⟨stream, hr, ?_⟩
  rw [TcpTransport.recvResponseWithInfo, hmode]
  rw [hl, hls, hparse]
  dsimp only
  rw [hfinal]

/-- A log that holds a tag, in pieces and with an interrupted read. -/
def okayLogStream : List TcpEvent :=
  [.bytes [0, 0, 0], .interrupted, .bytes [0, 0, 0, 0, 8, 0x49, 0x4E, 0x46, 0x4F, 0x4F, 0x4B],
    .bytes [0x41, 0x59, 0, 0, 0, 0, 0, 0, 0, 4, 0x46, 0x41, 0x49, 0x4C, 7]]

theorem recvResponseWithInfo_lengthPrefixed_okayLog : ∃ stream, tcpItems stream = [.byte 7] ∧
      (⟨okayLogStream, .lengthPrefixed, [], 0⟩ : TcpTransport).recvResponseWithInfo []
        = (.ok (.fail ""), ["OKAY"], ⟨stream, .lengthPrefixed, [], 0⟩) :=
  recvResponseWithInfo_lengthPrefixed ⟨okayLogStream, .lengthPrefixed, [], 0⟩ rfl [.info "OKAY"]
    failTag (.fail "") [] [.byte 7] (by decide) (by decide) (by rfl) rfl (by rfl)

inductive TcpSegment where
  | frame (payload : Bytes)
  | failure (text : String)

def TcpSegment.items : TcpSegment → List TcpItem
  | .frame payload => (tcpFrame payload).map .byte
  | .failure text => [.failed text]

def TcpSegment.payload : TcpSegment → Bytes
  | .frame payload => payload
  | .failure _ => []

def payloads (segments : List TcpSegment) : Bytes := segments.flatMap TcpSegment.payload

/-- The frames are within the limit, and an empty frame has no payload behind it. -/
def WellFramed : List TcpSegment → Prop
  | [] => True
  | .frame payload :: rest =>
    payload.length ≤ maxLengthPrefixedPayload ∧ (payload = [] → payloads rest = []) ∧ WellFramed rest
  | .failure _ :: rest => WellFramed rest

instance WellFramed.decidable : ∀ segments, Decidable (WellFramed segments)
  | [] => isTrue trivial
  | .frame _ :: rest =>
    have : Decidable (WellFramed rest) := WellFramed.decidable rest
    inferInstanceAs (Decidable (_ ∧ _ ∧ _))
  | .failure _ :: rest => WellFramed.decidable rest

theorem WellFramed.tail {segment : TcpSegment} {segments : List TcpSegment}
    (h : WellFramed (segment :: segments)) : WellFramed segments := by
  cases segment with
  | frame payload => exact h.2.2
  | failure text => exact h

inductive FramedCall where
  | read (n : Nat)
  | recv

structure FramedRun where
  transport : TcpTransport
  taken : Bytes

def FramedRun.step (s : FramedRun) : FramedCall → Option FramedRun
  | .read n =>
    some ⟨(s.transport.read n).2, s.taken ++ ((s.transport.read n).1.toOption.getD [])⟩
  | .recv =>
    some ⟨s.transport.recvResponse.2,
      s.taken ++ (recvFramed s.transport.stream [] []).messages.flatten⟩

/-- `recv_response` is called only when nothing is left over of a frame that was read in part. -/
def FramedRun.RecvDrained (s : FramedRun) : FramedCall → Prop
  | .read _ => True
  | .recv => s.transport.leftover = []

instance (s : FramedRun) : DecidablePred s.RecvDrained
  | .read _ => isTrue trivial
  | .recv => inferInstanceAs (Decidable (s.transport.leftover = []))

def FramedRun.start (stream : List TcpEvent) : FramedRun := ⟨⟨stream, .lengthPrefixed, [], 0⟩, []⟩

/-- The bytes taken, those left over and the payloads that are still to come are those of all
frames, and an empty read tells the end of them. -/
def FramedRun.Exact (segments : List TcpSegment) (s : FramedRun) : Prop :=
  ∃ rest, rest <:+ segments ∧ tcpItems s.transport.stream = rest.flatMap TcpSegment.items ∧
    s.taken ++ s.transport.leftover ++ payloads rest = payloads segments ∧
    ∀ n, 0 < n → (s.transport.read n).1 = .ok [] → s.transport.leftover ++ payloads rest = []

section

variable {segments : List TcpSegment}

theorem TcpTransport.recvResponse_lengthPrefixed (t : TcpTransport) (h : t.mode = .lengthPrefixed) :
    t.recvResponse.2 = { t with stream := (recvFramed t.stream [] []).stream } := by
  rw [recvResponse, TcpTransport.recvResponseWithInfo, h]

/-- A receive takes whole segments off the stream. -/
theorem recvFramed_segments {events : List TcpEvent} (hf : WellFramed segments)
    (h : tcpItems events = segments.flatMap TcpSegment.items) (logs : List String)
    (messages : List Bytes) :
    ∃ rest, rest <:+ segments ∧
      tcpItems (recvFramed events logs messages).stream = rest.flatMap TcpSegment.items ∧
      (recvFramed events logs messages).messages.flatten ++ payloads rest
        = messages.flatten ++ payloads segments := by
  induction segments generalizing events logs messages with
  | nil =>
    rw [recvFramed_error (tcpReadExact_closed 7 h)]
    exact ⟨[], suffix_rfl, rfl, rfl⟩
  | cons segment segments ih =>
    have hs := suffix_cons segment segments
    cases segment with
    | failure text =>
      obtain ⟨events', hrd, hr⟩ := tcpReadExact_failed 7 h
      rw [recvFramed_error hrd]
      exact ⟨segments, hs, hr, rfl⟩
    | frame payload =>
      have hm : (messages ++ [payload]).flatten ++ payloads segments
          = messages.flatten ++ payloads (.frame payload :: segments) := by
        simp [payloads, TcpSegment.payload]
      obtain ⟨events', hi, hrc⟩ :=
        recvFramed_frame hf.1 h logs messages
      rw [hrc]
      split
      next => exact ⟨segments, hs, hi, hm⟩
      split
      next msg _ =>
        obtain ⟨rest, hr, hsm, ht⟩ :=
          ih hf.tail hi (logs ++ [msg]) (messages ++ [payload])
        exact ⟨rest, hr.trans hs, hsm, ht.trans hm⟩
      next => exact ⟨segments, hs, hi, hm⟩

theorem TcpTransport.framedRead_segments {t : TcpTransport} {n : Nat} (hn : 0 < n)
    (hf : WellFramed segments) (h : tcpItems t.stream = segments.flatMap TcpSegment.items) :
    (∃ rest, rest <:+ segments ∧
      tcpItems (t.framedRead n).2.stream = rest.flatMap TcpSegment.items ∧
      (t.framedRead n).1.toOption.getD [] ++ (t.framedRead n).2.leftover ++ payloads rest
        = t.leftover ++ payloads segments) ∧
      ((t.framedRead n).1 = .ok [] → t.leftover ++ payloads segments = []) ∧
      (t.framedRead n).2.mode = t.mode := by
  unfold framedRead
  split
  next hb =>
    obtain ⟨hsm, hm⟩ := t.readBuffered_stream n
    refine ⟨⟨segments, suffix_rfl, ?_, ?_⟩, ?_, hm⟩
    · rw [hsm, h]
    · rw [← t.readBuffered_append n]
      rfl
    · intro hnil
      exact absurd (Except.ok.inj hnil) (t.readBuffered_ne_nil hn hb)
  next hb =>
    have hl : t.leftover = [] := drop_eq_nil_of_le (Nat.le_of_not_lt hb)
    unfold readFrame
    cases segments with
    | nil =>
      rw [tcpReadExact_closed 7 h]
      exact ⟨⟨[], suffix_rfl, rfl, rfl⟩, by simp, rfl⟩
    | cons segment segments =>
      have hs := suffix_cons segment segments
      cases segment with
      | failure text =>
        obtain ⟨events', hr, hrs⟩ := tcpReadExact_failed 7 h
        rw [hr]
        exact ⟨⟨segments, hs, hrs, rfl⟩, by simp, rfl⟩
      | frame payload =>
        obtain ⟨hft, hmt, -⟩ := hf
        obtain ⟨events', events'', hr, hnat, hr', hrs⟩ :=
          tcpReadExact_frame (maxLengthPrefixedPayload_lt hft) h
        rw [hr]
        dsimp only
        rw [hnat, if_neg (by omega), hr']
        refine ⟨⟨segments, hs, hrs, ?_⟩, ?_, rfl⟩
        · rw [hl, nil_append]
          exact congrArg (· ++ payloads segments) (take_append_drop _ payload)
        · intro hnil
          have hp : payload = [] := by
            rcases take_eq_nil_iff.mp (Except.ok.inj hnil) with hmin | hp
            · exact length_eq_zero_iff.mp (by omega)
            · exact hp
          rw [hl, hp]
          exact hmt hp

structure FramedRun.Sound (segments : List TcpSegment) (s : FramedRun) : Prop where
  mode : s.transport.mode = .lengthPrefixed
  taken : ∃ rest, rest <:+ segments ∧ tcpItems s.transport.stream = rest.flatMap TcpSegment.items ∧
    s.taken ++ s.transport.leftover ++ payloads rest = payloads segments

theorem WellFramed.suffix (h : WellFramed segments) {rest : List TcpSegment}
    (hs : rest <:+ segments) : WellFramed rest := by
  obtain ⟨front, rfl⟩ := hs
  induction front with
  | nil => exact h
  | cons segment front ih => exact ih h.tail

theorem FramedRun.Sound.exact (hf : WellFramed segments) {s : FramedRun}
    (h : s.Sound segments) : s.Exact segments := by
  obtain ⟨rest, hs, hsm, ht⟩ := h.taken
  refine ⟨rest, hs, hsm, ht, fun n hn hr => ?_⟩
  rw [TcpTransport.read, if_neg (by omega), h.mode] at hr
  exact (framedRead_segments hn (hf.suffix hs) hsm).2.1 hr

/-- A call on drained input keeps the run sound. -/
theorem FramedRun.step_sound (hf : WellFramed segments) {s s' : FramedRun} {call : FramedCall}
    (h : s.Sound segments) (hc : s.RecvDrained call) (hst : s.step call = some s') :
    s'.Sound segments := by
  obtain ⟨rest, hs, hsm, ht⟩ := h.taken
  cases call with
  | read n =>
    cases hst
    by_cases hn : n = 0
    · rw [TcpTransport.read, if_pos hn]
      refine ⟨h.mode, rest, hs, hsm, ?_⟩
      rw [← ht]
      exact congrArg (· ++ s.transport.leftover ++ payloads rest) (append_nil s.taken)
    · obtain ⟨⟨rest', hs', hsm', hr⟩, -, hm⟩ :=
        framedRead_segments (Nat.pos_of_ne_zero hn) (hf.suffix hs) hsm
      have heq : s.transport.read n = s.transport.framedRead n := by
        rw [TcpTransport.read, if_neg hn, h.mode]
      refine ⟨?_, rest', hs'.trans hs, ?_, ?_⟩
      · rw [heq, hm, h.mode]
      · rw [heq, hsm']
      · rw [heq, ← ht, append_assoc, append_assoc, append_assoc, ← hr, append_assoc]
  | recv =>
    cases hst
    obtain ⟨rest', hs', hsm', hms⟩ :=
      recvFramed_segments (hf.suffix hs) hsm [] []
    have heq := s.transport.recvResponse_lengthPrefixed h.mode
    have hl := hc
    refine ⟨?_, rest', hs'.trans hs, ?_, ?_⟩
    · rw [heq]
      exact h.mode
    · rw [heq]
      exact hsm'
    · rw [hl, append_nil] at ht
      rw [heq, ← ht]
      change _ ++ s.transport.leftover ++ _ = _
      rw [hl, append_nil, append_assoc, hms]
      rfl

end

/-- As long as failures come between frames, an empty frame has no payload behind it and
`recv_response` finds nothing left over, the bytes taken are those of the frames, in their order. -/
theorem framedRun_exact (segments : List TcpSegment) (stream : List TcpEvent)
    (hframed : WellFramed segments) (hstream : tcpItems stream = segments.flatMap TcpSegment.items)
    (calls : List FramedCall) (s : FramedRun)
    (hmeet : StepsMeet FramedRun.step FramedRun.RecvDrained (.start stream) calls)
    (hrun : runSteps FramedRun.step (.start stream) calls = some s) : s.Exact segments := by
  have hs : (FramedRun.start stream).Sound segments :=
    ⟨rfl, segments, suffix_rfl, hstream, rfl⟩
  exact (runSteps_invariant (FramedRun.step_sound hframed) hs hmeet hrun).exact hframed

/-- A frame that is read in two parts, a read that fails, and a response. -/
def responseSegments : List TcpSegment :=
  [.frame [1, 2, 3], .failure "timed out", .frame okayTag, .frame []]

def responseStream : List TcpEvent :=
  [.bytes [0, 0, 0, 0], .interrupted, .bytes [0, 0, 0, 3, 1], .bytes [2, 3], .failed "timed out",
    .bytes (tcpFrame okayTag ++ tcpFrame [])]

theorem framedRun_exact_response :
    ∃ s, runSteps FramedRun.step (.start responseStream) [.read 2, .read 9, .read 9, .recv, .read 1]
        = some s ∧ s.Exact responseSegments :=
  ⟨_, rfl, framedRun_exact responseSegments responseStream (by decide) rfl
    [.read 2, .read 9, .read 9, .recv, .read 1] _ (by decide) rfl⟩

/-- An empty frame is read as the end of the stream, a response is taken before the rest of the
frame in front of it, and behind a frame whose reading failed the zeros of the buffer are read. -/
theorem framedRun_notExact :
    ¬ (FramedRun.start [.bytes (tcpFrame [] ++ tcpFrame [5])]).Exact [.frame [], .frame [5]] ∧
      (∃ s, runSteps FramedRun.step (.start [.bytes (tcpFrame [1, 2] ++ tcpFrame okayTag)])
          [.read 1, .recv] = some s ∧ ¬ s.Exact [.frame [1, 2], .frame okayTag]) ∧
      ∃ s, runSteps FramedRun.step
          (.start [.bytes ((tcpFrame [7, 8]).take 9), .failed "timed out", .bytes [8]])
          [.read 4, .read 4] = some s ∧ s.taken = [7, 0] := by
  have hf : tcpItems [.bytes (tcpFrame okayTag)] = (tcpFrame okayTag).map .byte ++ [] := rfl
  obtain ⟨events, -, hr⟩ := recvFramed_frame (by decide) hf [] []
  have hm : (recvFramed [.bytes (tcpFrame okayTag)] [] []).messages = [okayTag] := by
    rw [hr]
    rfl
  refine ⟨?_, ⟨_, rfl, ?_⟩, _, rfl, rfl⟩
  · rintro ⟨rest, -, -, ht, hrd⟩
    have hrs : payloads rest = [] := hrd 1 Nat.one_pos rfl
    have hp := ht
    rw [hrs] at hp
    cases hp
  · rintro ⟨rest, -, -, ht, -⟩
    have ht : [1] ++ (recvFramed [.bytes (tcpFrame okayTag)] [] []).messages.flatten ++ [2]
        ++ payloads rest = [1, 2] ++ okayTag := ht
    rw [hm] at ht
    cases ht

end AdbFastboot
