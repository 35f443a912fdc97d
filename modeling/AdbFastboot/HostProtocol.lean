import AdbFastboot.ByteStream
import AdbFastboot.Response

namespace AdbFastboot

open StreamCall

/-- `format!("{:04x}", length)`: at least four digits, more for a longer payload. -/
def lengthPrefix (length : Nat) : Bytes := utf8Bytes (String.ofList (padDigits 16 4 length))

section

variable {ε : Type}

def parseLength (badUtf8 : ε) (badHex : String → ε) (lenBuf : Bytes) : StreamCall ε Nat :=
  match fromUtf8 lenBuf with
  | none => throw badUtf8
  | some lenStr =>
    match fromStrRadix 16 (2 ^ 64) lenStr.toList with
    | none => throw (badHex lenStr)
    | some len => pure len

def sendReply (tag data : Bytes) : StreamCall ε Unit := do
  StreamCall.writeAll tag
  StreamCall.writeAll (lengthPrefix data.length)
  StreamCall.writeAll data

end

def AdbIo.maxPayload : Nat := 256 * 1024

def AdbIo.sendProtocolString (s : Bytes) : StreamCall IoError Unit :=
  if AdbIo.maxPayload - 4 < s.length then throw (.invalidInput "payload too large")
  else do
    StreamCall.writeAll (lengthPrefix s.length)
    StreamCall.writeAll s

def AdbIo.readBody (len : Nat) : StreamCall IoError Bytes :=
  if AdbIo.maxPayload < len then throw (.invalidData "payload too large")
  else if 0 < len then readExact len
  else pure []

def AdbIo.readProtocolString : StreamCall IoError Bytes := do
  let lenBuf ← readExact 4
  let len ← parseLength (.invalidData "non-utf8 length") (fun _ => .invalidData "bad hex length")
    lenBuf
  AdbIo.readBody len

def AdbIo.sendFail (reason : String) : StreamCall IoError Unit := do
  StreamCall.writeAll failTag
  AdbIo.sendProtocolString (utf8Bytes reason)

inductive ServerTransportError where
  | io (e : IoError)
  | protocol (text : String)
  | serverError (text : String)
deriving DecidableEq, Repr

def sendHostRequest (request : String) : StreamCall ServerTransportError Unit := do
  StreamCall.writeAll (lengthPrefix (utf8Bytes request).length)
  StreamCall.writeAll (utf8Bytes request)

def readSized (badUtf8 : String) (badHex : String → String) :
    StreamCall ServerTransportError Bytes := do
  let lenBuf ← (readExact 4).mapErr .io
  let len ← parseLength (.protocol badUtf8) (fun text => .protocol (badHex text)) lenBuf
  if 0 < len then (readExact len).mapErr .io else pure []

def readStatus : StreamCall ServerTransportError Unit := do
  let status ← (readExact 4).mapErr .io
  if status = okayTag then pure ()
  else if status = failTag then do
    let errBuf ← readSized "Invalid hex length prefix in FAIL response"
      (fun text => "Invalid hex length in FAIL response: " ++ text)
    throw (.serverError (fromUtf8Lossy errBuf))
  else throw (.protocol ("Unexpected ADB server status response: " ++ fromUtf8Lossy status))

def readPayload : StreamCall ServerTransportError Bytes :=
  readSized "Invalid hex length prefix" fun text => "Invalid hex length: " ++ text

def maxCmdLen : Nat := 4096

def SmartSocket.readCommandBody (cmdLen : Nat) : StreamCall String (Option String) :=
  if cmdLen = 0 ∨ maxCmdLen < cmdLen then throw ("Invalid command length: " ++ toString cmdLen)
  else do
    let cmdBuf ← (readExact cmdLen).mapErr fun e => "Failed to read command: " ++ e.text
    match fromUtf8 cmdBuf with
    | none => throw "Command is not valid UTF-8"
    | some cmd => pure (some cmd)

def SmartSocket.readCommand : StreamCall String (Option String) := do
  match ← (readExact 4).attempt with
  | .error _ => pure none
  | .ok lenBuf =>
    let cmdLen ← parseLength "Invalid UTF-8 in length prefix"
      (fun text => "Invalid hex length: " ++ text) lenBuf
    SmartSocket.readCommandBody cmdLen

def SmartSocket.sendOkayWithData (data : Bytes) : StreamCall String Unit :=
  sendReply okayTag data

def SmartSocket.sendFail (msg : String) : StreamCall String Unit :=
  sendReply failTag (utf8Bytes msg)

def HostService.ok (data : Bytes) : StreamCall String Unit := sendReply okayTag data

def HostService.okStr (s : String) : StreamCall String Unit := HostService.ok (utf8Bytes s)

def HostService.fail (msg : String) : StreamCall String Unit := sendReply failTag (utf8Bytes msg)

def readReply : StreamCall ServerTransportError Bytes := do
  readStatus
  readPayload

end AdbFastboot
