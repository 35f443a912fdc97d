import AdbFastboot.RadixText
import AdbFastboot.StrOps
import AdbFastboot.Utf8

namespace AdbFastboot

def shellIdStdin : UInt8 := 0
def shellIdStdout : UInt8 := 1
def shellIdStderr : UInt8 := 2
def shellIdExit : UInt8 := 3
def shellIdCloseStdin : UInt8 := 4
def shellIdWindowSizeChange : UInt8 := 5

inductive ShellV2Error where
  | headerTooShort
  | payloadTooShort (expected got : Nat)
  | unknownStreamId (id : UInt8)
deriving DecidableEq, Repr

inductive ShellV2Packet where
  | stdin (data : Bytes)
  | stdout (data : Bytes)
  | stderr (data : Bytes)
  | exitCode (code : UInt8)
  | closeStdin
  | windowSizeChange (rows cols : UInt16)
deriving DecidableEq, Repr

def parseU16OrZero (text : List Char) : UInt16 :=
  UInt16.ofNat ((fromStrRadix 10 (2 ^ 16) text).getD 0)

def windowSizeOfText (text : List Char) : UInt16 × UInt16 :=
  let s := strTrim (trimMatches (fun c => c == '\x00') text)
  let mainPart := (s.splitOn ',').headD []
  let parts := mainPart.splitOn 'x'
  (parseU16OrZero (parts.headD []), parseU16OrZero (parts.tail.headD []))

def parseWindowSize (payload : Bytes) : UInt16 × UInt16 :=
  match fromUtf8 payload with
  | some s => windowSizeOfText s.toList
  | none => (0, 0)

namespace ShellV2Packet

def ofPayload (id : UInt8) (payload : Bytes) : Option ShellV2Packet :=
  if id = shellIdStdin then some (.stdin payload)
  else if id = shellIdStdout then some (.stdout payload)
  else if id = shellIdStderr then some (.stderr payload)
  else if id = shellIdExit then some (.exitCode (payload.headD 0))
  else if id = shellIdCloseStdin then some .closeStdin
  else if id = shellIdWindowSizeChange then
    some (.windowSizeChange (parseWindowSize payload).1 (parseWindowSize payload).2)
  else none

def parse (buf : Bytes) : Except ShellV2Error (ShellV2Packet × Nat) :=
  if buf.length < 5 then .error .headerTooShort
  else
    let id := buf.headD 0
    let len := (u32At buf 1).toNat
    if buf.length < 5 + len then .error (.payloadTooShort (5 + len) buf.length)
    else
      match ofPayload id (slice buf 5 (5 + len)) with
      | none => .error (.unknownStreamId id)
      | some pkt => .ok (pkt, 5 + len)

def windowSizeText (rows cols : UInt16) : List Char :=
  Nat.toDigits 10 rows.toNat ++ 'x' :: Nat.toDigits 10 cols.toNat ++ ['\x00']

def streamId : ShellV2Packet → UInt8
  | .stdin _ => shellIdStdin
  | .stdout _ => shellIdStdout
  | .stderr _ => shellIdStderr
  | .exitCode _ => shellIdExit
  | .closeStdin => shellIdCloseStdin
  | .windowSizeChange _ _ => shellIdWindowSizeChange

def payload : ShellV2Packet → Bytes
  | .stdin data => data
  | .stdout data => data
  | .stderr data => data
  | .exitCode code => [code]
  | .closeStdin => []
  | .windowSizeChange rows cols => utf8Bytes (String.ofList (windowSizeText rows cols))

/-- Every packet is written the same way: its stream id, its length, its payload. -/
def encode (pkt : ShellV2Packet) : Bytes :=
  pkt.streamId :: (u32Le (UInt32.ofNat pkt.payload.length) ++ pkt.payload)

theorem parse_consumed {buf : Bytes} {pkt : ShellV2Packet} {n : Nat}
    (h : parse buf = .ok (pkt, n)) : 5 ≤ n ∧ n ≤ buf.length := by
  unfold parse at h
  split at h
  next => cases h
  simp only at h
  split at h
  next => cases h
  split at h
  next => cases h
  cases h
  omega

def parseAll (buf : Bytes) : List ShellV2Packet × ShellV2Error × Bytes :=
  match _h : parse buf with
  | .error e => ([], e, buf)
  | .ok (pkt, n) =>
    let later := parseAll (buf.drop n)
    (pkt :: later.1, later.2)
termination_by buf.length
decreasing_by
  have := parse_consumed _h
  rw [List.length_drop]
  omega

def encodeAll (pkts : List ShellV2Packet) : Bytes := pkts.flatMap encode

end ShellV2Packet

def ShellV2Error.Incomplete : ShellV2Error → Prop
  | .headerTooShort => True
  | .payloadTooShort _ _ => True
  | .unknownStreamId _ => False

end AdbFastboot
