import AdbFastboot.HostProtocol

namespace AdbFastboot

open StreamCall AdbIo SmartSocket List

theorem lengthPrefix_length {n : Nat} (h : n < 2 ^ 16) : (lengthPrefix n).length = 4 := by
  have hd : (padDigits 16 4 n).length = 4 := padDigits_length (by omega) (by omega) h
  rw [lengthPrefix, utf8Bytes_ascii fun c hc =>
    digitIn_ascii (digitIn_of_mem_padDigits (by omega) (by omega) hc), length_map, hd]

section

variable {ε : Type} {badUtf8 : ε} {badHex : String → ε}

/-- The four hex digits of a length are read back. -/
theorem parseLength_lengthPrefix {n : Nat} (h : n < 2 ^ 64) (stream : Bytes) :
    (parseLength badUtf8 badHex (lengthPrefix n)).runOn stream = (.ok n, stream) := by
  have hp := fromStrRadix_padDigits (show 1 < 16 by omega) (by omega) 4 h
  rw [parseLength, lengthPrefix, fromUtf8_utf8Bytes]
  simp only [String.toList_ofList, hp]
  rfl

theorem runOn_prefixed {β : Type} {io : IoError → ε} {f : Nat → StreamCall ε β} {data : Bytes}
    (h : data.length < 2 ^ 16) (rest : Bytes) :
    ((readExact 4).mapErr io >>= fun lenBuf => parseLength badUtf8 badHex lenBuf >>= f).runOn
        (lengthPrefix data.length ++ data ++ rest)
      = (f data.length).runOn (data ++ rest) := by
  have hr := runOn_readExact_append (lengthPrefix_length h) (data ++ rest)
  have hp : (parseLength badUtf8 badHex (lengthPrefix data.length)).runOn (data ++ rest)
      = (.ok data.length, data ++ rest) := parseLength_lengthPrefix (by omega) (data ++ rest)
  rw [append_assoc, runOn_bind_ok (runOn_mapErr_ok hr), runOn_bind_ok hp]

end

variable {data s : Bytes}

/-- Data behind its length is read whole. -/
theorem readSized_prefixed (badUtf8 : String) (badHex : String → String)
    (h : data.length < 2 ^ 16) (rest : Bytes) :
    (readSized badUtf8 badHex).runOn (lengthPrefix data.length ++ data ++ rest) = (.ok data, rest) := by
  rw [readSized, runOn_prefixed h]
  split
  next => exact runOn_mapErr_ok (runOn_readExact_append rfl rest)
  next hz =>
    have hn : data = [] := eq_nil_of_length_eq_zero (by omega)
    rw [hn]
    rfl

theorem readProtocolString_prefixed (h : s.length < 2 ^ 16) (rest : Bytes) :
    readProtocolString.runOn (lengthPrefix s.length ++ s ++ rest) = (.ok s, rest) := by
  have hr := runOn_readExact_append (lengthPrefix_length h) (s ++ rest)
  have hm : ¬maxPayload < s.length := by
    rw [maxPayload]
    omega
  rw [readProtocolString, append_assoc, runOn_bind_ok hr,
    runOn_bind_ok (parseLength_lengthPrefix (by omega) _), readBody, if_neg hm]
  split
  next => exact runOn_readExact_append rfl rest
  next hz =>
    have hn : s = [] := eq_nil_of_length_eq_zero (by omega)
    rw [hn]
    rfl

theorem readStatus_okay (rest : Bytes) : readStatus.runOn (okayTag ++ rest) = (.ok (), rest) := by
  have hr := runOn_readExact_append (show okayTag.length = 4 from rfl) rest
  rw [readStatus, runOn_bind_ok (runOn_mapErr_ok hr), if_pos rfl]
  rfl

/-- A FAIL is read with its message. -/
theorem readStatus_fail {msg : String} (h : (utf8Bytes msg).length < 2 ^ 16) (rest : Bytes) :
    readStatus.runOn (failTag ++ (lengthPrefix (utf8Bytes msg).length ++ utf8Bytes msg ++ rest))
      = (.error (.serverError msg), rest) := by
  have hr := runOn_readExact_append (show failTag.length = 4 from rfl)
    (lengthPrefix (utf8Bytes msg).length ++ utf8Bytes msg ++ rest)
  have hne : failTag ≠ okayTag := by simp [failTag, okayTag]
  rw [readStatus, runOn_bind_ok (runOn_mapErr_ok hr), if_neg hne,
    if_pos rfl, runOn_bind_ok (readSized_prefixed _ _ h rest),
    fromUtf8Lossy_utf8Bytes]
  rfl

theorem readReply_okay (h : data.length < 2 ^ 16) (rest : Bytes) :
    readReply.runOn (okayTag ++ (lengthPrefix data.length ++ data ++ rest)) = (.ok data, rest) := by
  rw [readReply, runOn_bind_ok (readStatus_okay _), readPayload, readSized_prefixed _ _ h]

theorem readCommand_eq (h : data.length < 2 ^ 16) (rest : Bytes) :
    readCommand.runOn (lengthPrefix data.length ++ data ++ rest)
      = (readCommandBody data.length).runOn (data ++ rest) := by
  have hr := runOn_readExact_append (lengthPrefix_length h) (data ++ rest)
  rw [readCommand, append_assoc, runOn_bind_ok (runOn_attempt _ _), hr]
  exact runOn_bind_ok (parseLength_lengthPrefix (by omega) _)

/-- A command of a length in the limits is read back. -/
theorem readCommand_prefixed {request : String} (hp : 0 < (utf8Bytes request).length)
    (hm : (utf8Bytes request).length ≤ maxCmdLen) (rest : Bytes) :
    readCommand.runOn (lengthPrefix (utf8Bytes request).length ++ utf8Bytes request ++ rest)
      = (.ok (some request), rest) := by
  have hs : (utf8Bytes request).length < 2 ^ 16 := by
    rw [maxCmdLen] at hm
    omega
  have hr := runOn_readExact_append (show (utf8Bytes request).length = _ from rfl) rest
  rw [readCommand_eq hs, readCommandBody, if_neg (by omega),
    runOn_bind_ok (runOn_mapErr_ok hr), fromUtf8_utf8Bytes]
  rfl

/-- An empty or too long command is refused. -/
theorem readCommand_refuses (request : String) (hs : (utf8Bytes request).length < 2 ^ 16)
    (h : (utf8Bytes request).length = 0 ∨ maxCmdLen < (utf8Bytes request).length) (rest : Bytes) :
    readCommand.runOn (lengthPrefix (utf8Bytes request).length ++ utf8Bytes request ++ rest)
      = (.error ("Invalid command length: " ++ toString (utf8Bytes request).length),
          utf8Bytes request ++ rest) := by
  rw [readCommand_eq hs, readCommandBody, if_pos h]
  rfl

theorem sendReply_runOn {ε : Type} (tag data : Bytes) :
    (sendReply tag data : StreamCall ε Unit).runOn []
      = (.ok (), tag ++ (lengthPrefix data.length ++ data)) := by
  rw [sendReply, runOn_bind_ok (runOn_writeAll tag []),
    runOn_bind_ok (runOn_writeAll _ _), runOn_writeAll, nil_append,
    append_assoc]

theorem sendProtocolString_runOn (h : s.length ≤ maxPayload - 4) (stream : Bytes) :
    (sendProtocolString s).runOn stream = (.ok (), stream ++ (lengthPrefix s.length ++ s)) := by
  rw [sendProtocolString, if_neg (by omega),
    runOn_bind_ok (runOn_writeAll _ _), runOn_writeAll, append_assoc]

theorem sendHostRequest_runOn (request : String) : (sendHostRequest request).runOn []
      = (.ok (), lengthPrefix (utf8Bytes request).length ++ utf8Bytes request) := by
  rw [sendHostRequest, runOn_bind_ok (runOn_writeAll _ _), runOn_writeAll, nil_append]

theorem sendReply_readsBack {ε δ α : Type} {tag : Bytes} {read : StreamCall δ α} {value : Except δ α}
    (h : ∀ rest, read.runOn (tag ++ (lengthPrefix data.length ++ data ++ rest)) = (value, rest)) :
    ReadsBack (sendReply tag data : StreamCall ε Unit) read value := by
  refine ⟨_, sendReply_runOn tag data, fun rest => ?_⟩
  rw [append_assoc]
  exact h rest

theorem sendProtocolString_readsBack (h : s.length < 2 ^ 16) :
    ReadsBack (sendProtocolString s) readProtocolString (.ok s) := by
  have hm : s.length ≤ maxPayload - 4 := by
    rw [maxPayload]
    omega
  refine ⟨lengthPrefix s.length ++ s, ?_, readProtocolString_prefixed h⟩
  rw [sendProtocolString_runOn hm, nil_append]

theorem adbIo_sendFail_readsBack {reason : String} (h : (utf8Bytes reason).length < 2 ^ 16) :
    ReadsBack (AdbIo.sendFail reason) readStatus (.error (.serverError reason)) := by
  have hm : (utf8Bytes reason).length ≤ maxPayload - 4 := by
    rw [maxPayload]
    omega
  refine ⟨failTag ++ (lengthPrefix (utf8Bytes reason).length ++ utf8Bytes reason), ?_,
    fun rest => ?_⟩
  · rw [AdbIo.sendFail, runOn_bind_ok (runOn_writeAll failTag []),
      sendProtocolString_runOn hm, nil_append]
  · rw [append_assoc]
    exact readStatus_fail h rest

/-- A request in the limits is read back by the server. -/
theorem sendHostRequest_readsBack {request : String} (hp : 0 < (utf8Bytes request).length)
    (hm : (utf8Bytes request).length ≤ maxCmdLen) :
    ReadsBack (sendHostRequest request) readCommand (.ok (some request)) :=
  ⟨_, sendHostRequest_runOn request, readCommand_prefixed hp hm⟩

/-- Whatever a sender of the host protocol writes, the reader on the other side takes off the
stream, and nothing more, for the payloads that four digits can count. The server takes no empty
command and none above its limit. -/
theorem hostProtocol_readsBack : (∀ s : List UInt8, s.length < 2 ^ 16 →
      ReadsBack (AdbIo.sendProtocolString s) AdbIo.readProtocolString (.ok s)) ∧
    (∀ data : List UInt8, data.length < 2 ^ 16 →
      ReadsBack (SmartSocket.sendOkayWithData data) readReply (.ok data) ∧
      ReadsBack (HostService.ok data) readReply (.ok data)) ∧
    (∀ msg : String, (utf8Bytes msg).length < 2 ^ 16 →
      ReadsBack (HostService.okStr msg) readReply (.ok (utf8Bytes msg)) ∧
      ReadsBack (AdbIo.sendFail msg) readStatus (.error (.serverError msg)) ∧
      ReadsBack (SmartSocket.sendFail msg) readStatus (.error (.serverError msg)) ∧
      ReadsBack (HostService.fail msg) readStatus (.error (.serverError msg))) ∧
    (∀ request : String, 0 < (utf8Bytes request).length → (utf8Bytes request).length ≤ maxCmdLen →
      ReadsBack (sendHostRequest request) SmartSocket.readCommand (.ok (some request))) ∧
    ∀ request : String, (utf8Bytes request).length < 2 ^ 16 →
      (utf8Bytes request).length = 0 ∨ maxCmdLen < (utf8Bytes request).length →
      ∃ bytes, (sendHostRequest request).runOn [] = (.ok (), bytes) ∧
        ∀ rest, (SmartSocket.readCommand.runOn (bytes ++ rest)).1
          = .error ("Invalid command length: " ++ toString (utf8Bytes request).length) := by
  refine ⟨fun s h => sendProtocolString_readsBack h, fun data h => ?_, fun msg h => ?_,
    fun request hp hm => sendHostRequest_readsBack hp hm, fun request hs h => ?_⟩
  · have hr : ReadsBack (sendReply okayTag data : StreamCall String Unit) readReply (.ok data) :=
      sendReply_readsBack (readReply_okay h)
    exact ⟨hr, hr⟩
  · have hf : ReadsBack (sendReply failTag (utf8Bytes msg) : StreamCall String Unit) readStatus
        (.error (.serverError msg)) := sendReply_readsBack (readStatus_fail h)
    exact ⟨sendReply_readsBack (readReply_okay h), adbIo_sendFail_readsBack h, hf, hf⟩
  · refine ⟨_, sendHostRequest_runOn request, fun rest => ?_⟩
    rw [readCommand_refuses request hs h]

/-- The fifth digit of the length is taken for the first byte of the payload. -/
theorem sendProtocolString_long (hl : s.length = 65536) :
    ¬ReadsBack (sendProtocolString s) readProtocolString (.ok s) := by
  rintro ⟨bytes, hsn, hr⟩
  have hm : s.length ≤ maxPayload - 4 := by
    rw [hl, maxPayload]
    omega
  have hb := (Prod.mk.inj ((sendProtocolString_runOn hm []).symm.trans hsn)).2
  have hd : lengthPrefix 65536 = lengthPrefix 4096 ++ [0x30] := by decide
  have ht : ((0x30 :: s).take 4096).length = 4096 := by simp [hl]
  have hs := readProtocolString_prefixed (s := (0x30 :: s).take 4096) (by omega)
    ((0x30 :: s).drop 4096)
  rw [ht, append_assoc, take_append_drop] at hs
  have hg := hr []
  rw [← hb, hl, hd, append_nil, nil_append, append_assoc, singleton_append, hs] at hg
  have hw := congrArg length (Except.ok.inj (Prod.mk.inj hg).1)
  omega

/-- The server takes no empty request, and a payload of 65536 bytes is not read back. -/
theorem hostProtocol_not_readsBack :
    ¬ReadsBack (sendHostRequest "") SmartSocket.readCommand (.ok (some "")) ∧
    (∃ bytes, (AdbIo.sendProtocolString (List.replicate 65536 0)).runOn [] = (.ok (), bytes)) ∧
    ¬ReadsBack (AdbIo.sendProtocolString (List.replicate 65536 0)) AdbIo.readProtocolString
      (.ok (List.replicate 65536 0)) := by
  have hl : (replicate 65536 (0 : UInt8)).length = 65536 := length_replicate
  have hm : (replicate 65536 (0 : UInt8)).length ≤ maxPayload - 4 := by
    rw [hl, maxPayload]
    omega
  refine ⟨?_, ⟨_, sendProtocolString_runOn hm []⟩, sendProtocolString_long hl⟩
  rintro ⟨bytes, hs, hr⟩
  have hmt : utf8Bytes "" = [] := rfl
  have hb := (Prod.mk.inj ((sendHostRequest_runOn "").symm.trans hs)).2
  have hrf := readCommand_refuses "" (by rw [hmt]; simp) (.inl rfl) []
  have hg := hr []
  rw [← hb, hrf] at hg
  cases (Prod.mk.inj hg).1

end AdbFastboot
