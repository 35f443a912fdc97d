import AdbFastboot.ResponseFramed
import AdbFastboot.TcpStream

namespace AdbFastboot

open List

def maxLengthPrefixedPayload : Nat := 1024 * 1024 * 1024

inductive FbMode where
  | raw
  | lengthPrefixed
deriving DecidableEq, Repr

structure TcpTransport where
  stream : List TcpEvent
  mode : FbMode
  readBuf : Bytes
  readPos : Nat
deriving DecidableEq, Repr

inductive TcpResponseError where
  | io (error : TcpError)
  | response (error : FastbootResponseError)
  | protocol (text : String)
deriving DecidableEq, Repr

def sizeLimitText (len : Nat) : String :=
  "LengthPrefixed payload size " ++ toString len ++ " exceeds maximum allowed limit ("
    ++ toString maxLengthPrefixedPayload ++ ")"

namespace TcpTransport

def leftover (t : TcpTransport) : Bytes := t.readBuf.drop t.readPos

def readBuffered (t : TcpTransport) (n : Nat) : Bytes × TcpTransport :=
  let n := min n (t.readBuf.length - t.readPos)
  let served := slice t.readBuf t.readPos (t.readPos + n)
  if t.readBuf.length ≤ t.readPos + n then (served, { t with readBuf := [], readPos := 0 })
  else (served, { t with readPos := t.readPos + n })

def rawRead (t : TcpTransport) (n : Nat) : Except TcpError Bytes × TcpTransport :=
  if t.readPos < t.readBuf.length then (.ok (t.readBuffered n).1, (t.readBuffered n).2)
  else ((tcpRead n t.stream).1, { t with stream := (tcpRead n t.stream).2 })

/-- The next frame of the stream, in length-prefixed mode. A payload that does not arrive as a
whole stays in the buffer as far as it came, over what `resize` has left there. -/
def readFrame (t : TcpTransport) (n : Nat) : Except TcpError Bytes × TcpTransport :=
  match tcpReadExact 8 t.stream with
  | (.error e, _, stream) => (.error e, { t with stream })
  | (.ok (), lenBuf, stream) =>
    let msgLen := beNat lenBuf
    if msgLen > maxLengthPrefixedPayload then
      (.error (.invalidData (sizeLimitText msgLen)), { t with stream })
    else
      let resized := t.readBuf.take msgLen ++ List.replicate (msgLen - t.readBuf.length) 0
      match tcpReadExact msgLen stream with
      | (.error e, got, stream) =>
        (.error e, { t with stream, readBuf := got ++ resized.drop got.length })
      | (.ok (), payload, stream) =>
        let n := min n msgLen
        (.ok (payload.take n), { t with stream, readBuf := payload, readPos := n })

def framedRead (t : TcpTransport) (n : Nat) : Except TcpError Bytes × TcpTransport :=
  if t.readPos < t.readBuf.length then (.ok (t.readBuffered n).1, (t.readBuffered n).2)
  else t.readFrame n

def read (t : TcpTransport) (n : Nat) : Except TcpError Bytes × TcpTransport :=
  if n = 0 then (.ok [], t)
  else match t.mode with
    | .raw => t.rawRead n
    | .lengthPrefixed => t.framedRead n

end TcpTransport

/-- What a receiver of length-prefixed messages returns, the logs, the stream behind it, and the
messages it has taken off the stream. -/
structure FramedReceipt where
  result : Except TcpResponseError FastbootResponse
  logs : List String
  stream : List TcpEvent
  messages : List Bytes

def recvFramed (events : List TcpEvent) (logs : List String) (messages : List Bytes) :
    FramedReceipt :=
  match _hlen : tcpReadExact 8 events with
  | (.error e, _, events) => ⟨.error (.io e), logs, events, messages⟩
  | (.ok (), lenBuf, events') =>
    if beNat lenBuf > maxLengthPrefixedPayload then
      ⟨.error (.protocol (sizeLimitText (beNat lenBuf))), logs, events', messages⟩
    else
      match _hmsg : tcpReadExact (beNat lenBuf) events' with
      | (.error e, _, events) => ⟨.error (.io e), logs, events, messages⟩
      | (.ok (), message, events'') =>
        match FastbootResponse.parse message with
        | .error e => ⟨.error (.response e), logs, events'', messages ++ [message]⟩
        | .ok resp =>
          match resp.log? with
          | some msg => recvFramed events'' (logs ++ [msg]) (messages ++ [message])
          | none => ⟨.ok resp, logs, events'', messages ++ [message]⟩
termination_by tcpLength events
decreasing_by
  have h8 := tcpReadExact_length 8 events
  have hok := tcpReadExact_ok_length (n := 8) (congrArg Prod.fst _hlen)
  have hrest := tcpReadExact_length (beNat lenBuf) events'
  rw [_hlen] at h8 hok
  rw [_hmsg] at hrest
  dsimp only at h8 hok hrest
  omega

inductive TcpScanned where
  | done (resp : FastbootResponse) (logs : List String) (accum : Bytes)
  | more (accum : Bytes) (logs : List String)

/-- The inner loop of the receiver in raw mode. It is that of `scan`, and keeps what follows the
response. -/
def tcpScan (accum : Bytes) (logs : List String) : TcpScanned :=
  if _he : accum = [] then .more accum logs
  else if (resync accum).1 then
    match _hp : parseOneResponse (resync accum).2 with
    | .ok (resp, consumed) =>
      match resp.log? with
      | some msg => tcpScan ((resync accum).2.drop consumed) (logs ++ [msg])
      | none => .done resp logs ((resync accum).2.drop consumed)
    | .error .tooShort => .more (resync accum).2 logs
    | .error _ => tcpScan ((resync accum).2.drop 1) logs
  else .more (resync accum).2 logs
termination_by accum.length
decreasing_by
  · exact resync_drop_lt _he (by have := parseOneResponse_consumed _hp; omega)
  · exact resync_drop_lt _he (Nat.le_refl 1)

namespace TcpTransport

def unread (t : TcpTransport) : Nat := t.leftover.length + tcpLength t.stream

theorem readBuffered_append (t : TcpTransport) (n : Nat) :
    (t.readBuffered n).1 ++ (t.readBuffered n).2.leftover = t.leftover := by
  have ht : slice t.readBuf t.readPos (t.readPos + min n (t.readBuf.length - t.readPos))
      = t.leftover.take (min n (t.readBuf.length - t.readPos)) := by
    rw [slice, Nat.add_sub_cancel_left]
    rfl
  unfold readBuffered
  dsimp only
  rw [ht]
  split
  next ha =>
    have hl : t.leftover.length ≤ min n (t.readBuf.length - t.readPos) := by
      rw [leftover, length_drop]
      omega
    rw [take_of_length_le hl]
    exact append_nil _
  next =>
    simp only [leftover, ← drop_drop]
    exact take_append_drop _ _

theorem readBuffered_ne_nil {t : TcpTransport} {n : Nat} (hn : 0 < n)
    (hb : t.readPos < t.readBuf.length) : (t.readBuffered n).1 ≠ [] := by
  intro hnil
  have hl := congrArg length hnil
  unfold readBuffered at hl
  dsimp only at hl
  split at hl
  all_goals
    simp only [slice, length_take, length_drop, length_nil] at hl
    omega

theorem readBuffered_stream (t : TcpTransport) (n : Nat) :
    (t.readBuffered n).2.stream = t.stream ∧ (t.readBuffered n).2.mode = t.mode := by
  unfold readBuffered
  dsimp only
  split <;> exact ⟨rfl, rfl⟩

theorem rawRead_unread {t : TcpTransport} {n : Nat} {bytes : Bytes}
    (h : (t.rawRead n).1 = .ok bytes) : t.unread = bytes.length + (t.rawRead n).2.unread := by
  unfold rawRead at h ⊢
  split at h
  next hb =>
    rw [if_pos hb]
    cases h
    have hl := congrArg length (t.readBuffered_append n)
    rw [length_append] at hl
    simp only [unread, (t.readBuffered_stream n).1]
    omega
  next hb =>
    rw [if_neg hb]
    have hl : tcpLength t.stream = bytes.length + tcpLength (tcpRead n t.stream).2 :=
      tcpRead_length (Prod.ext h rfl)
    simp only [unread, leftover]
    omega

def rawRecvLoop (t : TcpTransport) (accum : Bytes) (logs : List String) :
    Except TcpResponseError FastbootResponse × List String × TcpTransport :=
  match tcpScan accum logs with
  | .done resp logs accum =>
    (.ok resp, logs, if accum ≠ [] then { t with readBuf := accum, readPos := 0 } else t)
  | .more accum logs =>
    match _hread : (t.rawRead 4096).1 with
    | .error e => (.error (.io e), logs, (t.rawRead 4096).2)
    | .ok bytes =>
      if _hne : bytes = [] then
        (.error (.protocol "Connection closed by target"), logs, (t.rawRead 4096).2)
      else rawRecvLoop (t.rawRead 4096).2 (accum ++ bytes) logs
termination_by t.unread
decreasing_by
  have hunread := rawRead_unread _hread
  have hpos := List.length_pos_iff.mpr _hne
  omega

def recvResponseWithInfo (t : TcpTransport) (infoLogs : List String) :
    Except TcpResponseError FastbootResponse × List String × TcpTransport :=
  match t.mode with
  | .lengthPrefixed =>
    let receipt := recvFramed t.stream infoLogs []
    (receipt.result, receipt.logs, { t with stream := receipt.stream })
  | .raw =>
    if t.readPos < t.readBuf.length then
      rawRecvLoop { t with readBuf := [], readPos := 0 } t.leftover infoLogs
    else rawRecvLoop t [] infoLogs

def recvResponse (t : TcpTransport) : Except TcpResponseError FastbootResponse × TcpTransport :=
  ((t.recvResponseWithInfo []).1, (t.recvResponseWithInfo []).2.2)

end TcpTransport

def tcpFrame (payload : Bytes) : Bytes := beBytes 8 payload.length ++ payload

variable {events : List TcpEvent} {payload : Bytes} {rest : List TcpItem}

/-- A frame is its length and its payload. -/
theorem tcpReadExact_frame (hl : payload.length < 2 ^ 64)
    (h : tcpItems events = (tcpFrame payload).map .byte ++ rest) :
    ∃ events' events'', tcpReadExact 8 events = (.ok (), beBytes 8 payload.length, events') ∧
      beNat (beBytes 8 payload.length) = payload.length ∧
      tcpReadExact payload.length events' = (.ok (), payload, events'') ∧
      tcpItems events'' = rest := by
  rw [tcpFrame, map_append, append_assoc] at h
  obtain ⟨events', hr, hi⟩ := tcpReadExact_bytes h
  obtain ⟨events'', hr', hrs⟩ := tcpReadExact_bytes hi
  refine ⟨events', events'', hr, ?_, hr', hrs⟩
  rw [beNat_beBytes]
  exact Nat.mod_eq_of_lt hl

theorem maxLengthPrefixedPayload_lt {n : Nat} (h : n ≤ maxLengthPrefixedPayload) : n < 2 ^ 64 :=
  Nat.lt_of_le_of_lt h (by decide)

/-- A frame is received as one message. -/
theorem recvFramed_frame (hl : payload.length ≤ maxLengthPrefixedPayload)
    (h : tcpItems events = (tcpFrame payload).map .byte ++ rest) (logs : List String)
    (messages : List Bytes) :
    ∃ events', tcpItems events' = rest ∧ recvFramed events logs messages =
      match FastbootResponse.parse payload with
      | .error e => ⟨.error (.response e), logs, events', messages ++ [payload]⟩
      | .ok resp =>
        match resp.log? with
        | some msg => recvFramed events' (logs ++ [msg]) (messages ++ [payload])
        | none => ⟨.ok resp, logs, events', messages ++ [payload]⟩ := by
  obtain ⟨events', events'', hr, hn, hr', hrs⟩ :=
    tcpReadExact_frame (maxLengthPrefixedPayload_lt hl) h
  refine ⟨events'', hrs, ?_⟩
  rw [recvFramed]
  split
  next heq =>
    rw [hr] at heq
    cases (Prod.mk.inj heq).1
  next heq =>
    rw [hr] at heq
    obtain ⟨rfl, rfl⟩ := Prod.mk.inj (Prod.mk.inj heq).2
    rw [if_neg (by omega)]
    split
    next heq =>
      rw [hn, hr'] at heq
      cases (Prod.mk.inj heq).1
    next heq =>
      rw [hn, hr'] at heq
      obtain ⟨rfl, rfl⟩ := Prod.mk.inj (Prod.mk.inj heq).2
      rfl

theorem recvFramed_error {e : TcpError} {got : Bytes} {events' : List TcpEvent}
    (h : tcpReadExact 8 events = (.error e, got, events')) (logs : List String)
    (messages : List Bytes) :
    recvFramed events logs messages = ⟨.error (.io e), logs, events', messages⟩ := by
  rw [recvFramed]
  split
  next heq =>
    rw [h] at heq
    obtain ⟨he, hev⟩ := Prod.mk.inj heq
    cases he
    rw [(Prod.mk.inj hev).2]
  next heq =>
    rw [h] at heq
    cases (Prod.mk.inj heq).1

end AdbFastboot
