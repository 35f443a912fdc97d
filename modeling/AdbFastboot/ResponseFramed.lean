import AdbFastboot.ResponseBody
import AdbFastboot.Outcome

namespace AdbFastboot

open List

inductive FramedTransport where
  | udp
  | usb

/-- `read` into a buffer of `capacity` bytes when `message` is the next to come. -/
def FramedTransport.read (transport : FramedTransport) (capacity : Nat) (message : Bytes) :
    Except FastbootTransportError Bytes :=
  if message.length > capacity then
    .error (.io (match transport with
      | .udp => "UDP target sent more fastboot data than requested buffer"
      | .usb => "USB backend returned " ++ toString message.length ++ " bytes for a "
          ++ toString capacity ++ "-byte buffer"))
  else .ok message

/-- How a call of the receiver ends, with the logs and the messages it has not read. -/
inductive Received where
  | response (resp : FastbootResponse) (logs : List String) (unread : List Bytes)
  | failed (error : FastbootTransportError) (logs : List String)
  | waiting (logs : List String)

def Received.logs : Received → List String
  | .response _ logs _ => logs
  | .failed _ logs => logs
  | .waiting logs => logs

/-- The outer loop of `recv_response_with_info`: scan, then read the next message. -/
def recvLoop (transport : FramedTransport) (accum : Bytes) (logs : List String) :
    List Bytes → Received
  | [] =>
    match scan accum logs with
    | .done resp logs => .response resp logs []
    | .more _ logs => .waiting logs
  | message :: rest =>
    match scan accum logs with
    | .done resp logs => .response resp logs (message :: rest)
    | .more accum logs =>
      match transport.read 4096 message with
      | .error e => .failed e logs
      | .ok bytes =>
        if bytes = [] then .failed (.protocol "Connection closed by target") logs
        else recvLoop transport (accum ++ bytes) logs rest

def recvResponseWithInfo (transport : FramedTransport) (messages : List Bytes)
    (infoLogs : List String) : Received :=
  recvLoop transport [] infoLogs messages

variable {transport : FramedTransport} {logs : List String}

theorem recvLoop_scan {accum accum' : Bytes} {logs' : List String}
    (h : scan accum logs = scan accum' logs') (messages : List Bytes) :
    recvLoop transport accum logs messages = recvLoop transport accum' logs' messages := by
  cases messages with
  | nil | cons message rest => rw [recvLoop, recvLoop, h]

/-- A message that fits is read when the buffer is empty. -/
theorem recvLoop_read (transport : FramedTransport) {message : Bytes} (hne : message ≠ [])
    (hl : message.length ≤ 4096) (logs : List String) (rest : List Bytes) :
    recvLoop transport [] logs (message :: rest) = recvLoop transport message logs rest := by
  have hr : transport.read 4096 message = .ok message := if_neg (by omega)
  rw [recvLoop, scan, dif_pos rfl]
  simp only [hr]
  rw [if_neg hne, nil_append]

theorem recvLoop_done {accum : Bytes} {logs' : List String} {resp : FastbootResponse}
    (h : scan accum logs = .done resp logs') (messages : List Bytes) :
    recvLoop transport accum logs messages = .response resp logs' messages := by
  cases messages with
  | nil | cons message rest => rw [recvLoop, h]

theorem recvLoop_logs (transport : FramedTransport) (messages : List Bytes)
    (accum : Bytes) (logs : List String) :
    ∃ more, (recvLoop transport accum logs messages).logs = logs ++ more := by
  induction messages generalizing accum logs with
  | nil =>
    obtain ⟨more, hm⟩ := scan_logs accum logs
    refine ⟨more, ?_⟩
    rw [← hm, recvLoop]
    cases scan accum logs <;> rfl
  | cons message rest ih =>
    obtain ⟨more, hm⟩ := scan_logs accum logs
    rw [recvLoop]
    cases hs : scan accum logs with
    | done resp logs' =>
      rw [hs] at hm
      exact ⟨more, hm⟩
    | more accum' logs' =>
      rw [hs] at hm
      have hl : logs' = logs ++ more := hm
      simp only
      split
      next => exact ⟨more, hl⟩
      next bytes _ =>
        split
        next => exact ⟨more, hl⟩
        obtain ⟨more', hm'⟩ := ih (accum' ++ bytes) logs'
        exact ⟨more ++ more', by rw [hm', hl, append_assoc]⟩

inductive DeviceLog where
  | info (body : String)
  | text (body : String)

def DeviceLog.body : DeviceLog → String
  | .info body => body
  | .text body => body

def DeviceLog.bytes : DeviceLog → Bytes
  | .info body => infoTag ++ utf8Bytes body
  | .text body => textTag ++ utf8Bytes body

inductive DeviceStatus where
  | okay (body : Bytes)
  | fail (body : Bytes)
  | data (digits : Bytes) (hlen : digits.length = 8) (hhex : ∀ b ∈ digits, IsHexByte b)

def DeviceStatus.bytes : DeviceStatus → Bytes
  | .okay body => okayTag ++ body
  | .fail body => failTag ++ body
  | .data digits _ _ => dataTag ++ digits

/-- A status the scanner does not cut: the sizes of `DATA` are never scanned. -/
def DeviceStatus.Unmarked : DeviceStatus → Prop
  | .okay body => AdbFastboot.Unmarked body
  | .fail body => AdbFastboot.Unmarked body
  | .data _ _ _ => True

theorem DeviceLog.tagged (m : DeviceLog) :
    ∃ tag mk, TextTag tag mk ∧ (mk = .info ∨ mk = .text) ∧ m.bytes = tag ++ utf8Bytes m.body := by
  cases m with
  | info body => exact ⟨_, _, .info, .inl rfl, rfl⟩
  | text body => exact ⟨_, _, .text, .inr rfl, rfl⟩

/-- A log message is logged up to its cut, and its rest stays. -/
theorem recvLoop_log (transport : FramedTransport) {m : DeviceLog}
    (hl : m.bytes.length ≤ 4096) (logs : List String) (rest : List Bytes) :
    recvLoop transport [] logs (m.bytes :: rest)
      = recvLoop transport ((utf8Bytes m.body).drop (bodyEnd (utf8Bytes m.body)))
          (logs ++ [fromUtf8Lossy ((utf8Bytes m.body).take (bodyEnd (utf8Bytes m.body)))]) rest := by
  obtain ⟨tag, mk, ht, hlog, hb⟩ := m.tagged
  rw [hb] at hl ⊢
  rw [recvLoop_read transport (ht.append_ne_nil _) hl]
  exact recvLoop_scan (scan_log ht hlog _ logs) rest

theorem recvLoop_log_unmarked (transport : FramedTransport) {m : DeviceLog}
    (hl : m.bytes.length ≤ 4096) (hm : Unmarked (utf8Bytes m.body)) (logs : List String)
    (rest : List Bytes) :
    recvLoop transport [] logs (m.bytes :: rest) = recvLoop transport [] (logs ++ [m.body]) rest := by
  rw [recvLoop_log transport hl, bodyEnd_unmarked hm, drop_length, take_length, fromUtf8Lossy_utf8Bytes]

theorem recvLoop_logs_unmarked (transport : FramedTransport) {ms : List DeviceLog}
    (hl : ∀ m ∈ ms, m.bytes.length ≤ 4096) (hm : ∀ m ∈ ms, Unmarked (utf8Bytes m.body))
    (logs : List String) (rest : List Bytes) :
    recvLoop transport [] logs (ms.map DeviceLog.bytes ++ rest)
      = recvLoop transport [] (logs ++ ms.map DeviceLog.body) rest := by
  induction ms generalizing logs with
  | nil => rw [map_nil, map_nil, nil_append, append_nil]
  | cons m ms ih =>
    rw [forall_mem_cons] at hl hm
    rw [map_cons, map_cons, cons_append,
      recvLoop_log_unmarked transport hl.1 hm.1, ih hl.2 hm.2, append_assoc,
      singleton_append]

/-- Logs that come out right had no marked body. -/
theorem unmarked_of_logs {ms : List DeviceLog} (hl : ∀ m ∈ ms, m.bytes.length ≤ 4096) {rest : List Bytes}
    (h : (recvLoop transport [] logs (ms.map DeviceLog.bytes ++ rest)).logs
      = logs ++ ms.map DeviceLog.body) : ∀ m ∈ ms, Unmarked (utf8Bytes m.body) := by
  induction ms generalizing logs with
  | nil => exact forall_mem_nil _
  | cons m ms ih =>
    rw [forall_mem_cons] at hl ⊢
    rw [map_cons, map_cons, cons_append] at h
    have hm : Unmarked (utf8Bytes m.body) := by
      by_contra hm
      apply bodyEnd_cuts hm
      rw [recvLoop_log transport hl.1] at h
      obtain ⟨more, hmr⟩ := recvLoop_logs transport (ms.map DeviceLog.bytes ++ rest)
        ((utf8Bytes m.body).drop (bodyEnd (utf8Bytes m.body)))
        (logs ++ [fromUtf8Lossy ((utf8Bytes m.body).take (bodyEnd (utf8Bytes m.body)))])
      rw [hmr, append_assoc, singleton_append] at h
      rw [fromUtf8Lossy_utf8Bytes]
      exact (cons.inj (append_cancel_left h)).1
    have hr : (recvLoop transport [] (logs ++ [m.body]) (ms.map DeviceLog.bytes ++ rest)).logs
        = logs ++ [m.body] ++ ms.map DeviceLog.body := by
      rw [recvLoop_log_unmarked transport hl.1 hm] at h
      rw [h, append_assoc, singleton_append]
    exact ⟨hm, ih hl.2 hr⟩

/-- The status comes out right exactly if its body is unmarked. -/
theorem recvLoop_status (transport : FramedTransport) {t : DeviceStatus}
    (hl : t.bytes.length ≤ 4096) (logs : List String) (later : List Bytes) :
    (∃ resp, FastbootResponse.parse t.bytes = .ok resp ∧
      recvLoop transport [] logs (t.bytes :: later) = .response resp logs later) ↔ t.Unmarked := by
  have htx {tag : Bytes} {mk : String → FastbootResponse} (ht : TextTag tag mk)
      (hst : mk = .okay ∨ mk = .fail) (body : Bytes) (hl : (tag ++ body).length ≤ 4096) :
      (∃ resp, FastbootResponse.parse (tag ++ body) = .ok resp ∧
        recvLoop transport [] logs ((tag ++ body) :: later) = .response resp logs later)
        ↔ Unmarked body := by
    rw [recvLoop_read transport (ht.append_ne_nil _) hl,
      recvLoop_done (scan_status ht hst body logs), parse_text ht]
    constructor
    · intro h
      obtain ⟨resp, hrs, hr⟩ := h
      by_contra hm
      cases hrs
      exact bodyEnd_cuts hm (ht.injective (Received.response.inj hr).1)
    · intro hm
      rw [bodyEnd_unmarked hm, take_length]
      exact ⟨_, rfl, rfl⟩
  cases t with
  | okay body => exact htx .okay (.inl rfl) body hl
  | fail body => exact htx .fail (.inr rfl) body hl
  | data digits hd hh =>
    obtain ⟨size, hp, hs⟩ := scan_data hd hh logs
    refine iff_of_true ⟨.data size, hp, ?_⟩ trivial
    exact (recvLoop_read transport (cons_ne_nil _ _) hl logs later).trans (recvLoop_done hs later)

/-- On a transport that reads one message at a time the response and the logs are those of the
messages exactly when the scanner cuts none of them. -/
theorem recvResponseWithInfo_framed_iff (transport : FramedTransport) (ms : List DeviceLog)
    (t : DeviceStatus) (later : List (List UInt8)) (infoLogs : List String)
    (hms : ∀ m ∈ ms, m.bytes.length ≤ 4096) (ht : t.bytes.length ≤ 4096) :
    (∃ resp, FastbootResponse.parse t.bytes = .ok resp ∧
      recvResponseWithInfo transport (ms.map DeviceLog.bytes ++ t.bytes :: later) infoLogs
        = .response resp (infoLogs ++ ms.map DeviceLog.body) later) ↔
    (∀ m ∈ ms, Unmarked (utf8Bytes m.body)) ∧ t.Unmarked := by
  unfold recvResponseWithInfo
  constructor
  · intro h
    obtain ⟨resp, hp, hr⟩ := h
    have hu := unmarked_of_logs hms (by rw [hr]; rfl)
    rw [recvLoop_logs_unmarked transport hms hu] at hr
    exact ⟨hu, (recvLoop_status transport ht _ later).mp ⟨resp, hp, hr⟩⟩
  · intro h
    obtain ⟨resp, hp, hr⟩ :=
      (recvLoop_status transport ht (infoLogs ++ ms.map DeviceLog.body) later).mpr h.2
    refine ⟨resp, hp, ?_⟩
    rw [recvLoop_logs_unmarked transport hms h.1, hr]

theorem erasing_response : ∃ resp, FastbootResponse.parse (DeviceStatus.okay []).bytes = .ok resp ∧
    recvResponseWithInfo .usb
      ([DeviceLog.info "erasing", .text "done"].map DeviceLog.bytes ++ [(DeviceStatus.okay []).bytes])
      [] = .response resp ["erasing", "done"] [] :=
  (recvResponseWithInfo_framed_iff .usb [.info "erasing", .text "done"] (.okay []) [] []
    (by decide) (by decide)).mpr ⟨by decide, (by decide : Unmarked [])⟩

/-- The tag inside a log message is taken for the status. -/
theorem okayLog_response : ¬∃ resp, FastbootResponse.parse (DeviceStatus.fail []).bytes = .ok resp ∧
    recvResponseWithInfo .udp
      ([DeviceLog.info "not OKAY"].map DeviceLog.bytes ++ [(DeviceStatus.fail []).bytes]) []
      = .response resp ["not OKAY"] [] := by
  intro h
  obtain ⟨resp, -, hr⟩ := h
  have hu := unmarked_of_logs (by decide) (congrArg Received.logs hr)
  exact absurd hu (by decide)

end AdbFastboot
