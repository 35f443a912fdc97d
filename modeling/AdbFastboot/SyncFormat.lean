import AdbFastboot.HostRegistry
import AdbFastboot.Utf8

namespace AdbFastboot

def syncStat : UInt32 := 0x54415453
def syncList : UInt32 := 0x5453494C
def syncSend : UInt32 := 0x444E4553
def syncRecv : UInt32 := 0x56434552
def syncDent : UInt32 := 0x544E4544
def syncDone : UInt32 := 0x454E4F44
def syncData : UInt32 := 0x41544144
def syncFail : UInt32 := 0x4C494146
def syncOkay : UInt32 := 0x59414B4F

def textBytes (text : Text) : Bytes := text.flatMap String.utf8EncodeChar

def lossyText (bs : Bytes) : Text := utf8LossyAfter 0 bs

inductive SyncProtocolError where
  | headerTooShort (expected got : Nat)
  | syncFail (text : Text)
  | invalidPath (text : Text)
  | invalidMessage (text : Text)
deriving DecidableEq, Repr

def SyncProtocolError.text : SyncProtocolError → Text
  | .headerTooShort expected got =>
    "Sync header too short: expected ".toList ++ decimal expected ++ " bytes, got ".toList
      ++ decimal got
  | .syncFail text => "Sync command failed with message: ".toList ++ text
  | .invalidPath text => "Invalid path: ".toList ++ text
  | .invalidMessage text => "Invalid message structure or size overflow: ".toList ++ text

def validatePath (path : Text) (allowComma : Bool) : Except SyncProtocolError Unit :=
  if path = [] then .error (.invalidPath "Path cannot be empty".toList)
  else if '\x00' ∈ path then .error (.invalidPath "Path cannot contain NUL byte".toList)
  else if allowComma = false ∧ ',' ∈ path then
    .error (.invalidPath "Path cannot contain ',' in V1 SEND request".toList)
  else if 2 ^ 32 ≤ (textBytes path).length then
    .error (.invalidPath "Path length exceeds u32::MAX".toList)
  else .ok ()

structure SyncMessageHeader where
  id : UInt32
  length : UInt32
deriving DecidableEq, Repr

def SyncMessageHeader.size : Nat := 8

def SyncMessageHeader.encode (h : SyncMessageHeader) : Bytes := u32Le h.id ++ u32Le h.length

def SyncMessageHeader.decode (buf : Bytes) : Except SyncProtocolError SyncMessageHeader :=
  if buf.length < SyncMessageHeader.size then
    .error (.headerTooShort SyncMessageHeader.size buf.length)
  else .ok ⟨u32At buf 0, u32At buf 4⟩

@[simp] theorem SyncMessageHeader.encode_length (h : SyncMessageHeader) : h.encode.length = 8 := by
  simp [SyncMessageHeader.encode]

/-- A header is decoded from its bytes. -/
theorem SyncMessageHeader.decode_encode (h : SyncMessageHeader) (rest : Bytes) :
    SyncMessageHeader.decode (h.encode ++ rest) = .ok h := by
  have h0 : (h.encode ++ rest).drop 0 = u32Le h.id ++ (u32Le h.length ++ rest) := by
    simp [SyncMessageHeader.encode]
  have h1 := drop_field (b := 4) h0 (by simp)
  rw [SyncMessageHeader.decode, if_neg (by simp [SyncMessageHeader.size]), u32At_of_drop h0,
    u32At_of_drop h1]

theorem SyncMessageHeader.decode_of_length {buf : Bytes} (h : 8 ≤ buf.length) :
    SyncMessageHeader.decode buf = .ok ⟨u32At buf 0, u32At buf 4⟩ := by
  rw [SyncMessageHeader.decode, if_neg]
  simpa [SyncMessageHeader.size] using h

/-- A message of the sync protocol that states its length: a header and so many bytes. -/
def syncMessage (id : UInt32) (body : Bytes) : Bytes :=
  (SyncMessageHeader.mk id (UInt32.ofNat body.length)).encode ++ body

@[simp] theorem syncMessage_length (id : UInt32) (body : Bytes) :
    (syncMessage id body).length = 8 + body.length := by
  simp [syncMessage]

def buildSyncPathReq (id : UInt32) (remotePath : Text) : Except SyncProtocolError Bytes := do
  validatePath remotePath true
  pure (syncMessage id (textBytes remotePath))

def buildSyncRecvReq (remotePath : Text) : Except SyncProtocolError Bytes :=
  buildSyncPathReq syncRecv remotePath

def buildSyncListReq (remotePath : Text) : Except SyncProtocolError Bytes :=
  buildSyncPathReq syncList remotePath

def buildSyncStatReq (remotePath : Text) : Except SyncProtocolError Bytes :=
  buildSyncPathReq syncStat remotePath

def buildSyncSendReq (remotePath : Text) (mode : UInt32) : Except SyncProtocolError Bytes := do
  validatePath remotePath false
  let reqStr := remotePath ++ ',' :: decimal mode.toNat
  if 2 ^ 32 ≤ (textBytes reqStr).length then
    throw (.invalidPath "Request payload length exceeds u32::MAX".toList)
  pure (syncMessage syncSend (textBytes reqStr))

def buildSyncDataChunk (chunk : Bytes) : Except SyncProtocolError Bytes :=
  if 2 ^ 32 ≤ chunk.length then
    .error (.invalidMessage "Data chunk size exceeds u32::MAX".toList)
  else .ok (syncMessage syncData chunk)

/-- The second word of DONE is the time of the file. -/
def buildSyncDone (mtime : UInt32) : Bytes := (SyncMessageHeader.mk syncDone mtime).encode

structure SyncStatResponse where
  mode : UInt32
  size : UInt32
  mtime : UInt32
deriving DecidableEq, Repr

namespace SyncStatResponse

def wireSize : Nat := 16

def decode (buf : Bytes) : Except SyncProtocolError SyncStatResponse :=
  if buf.length < 12 then .error (.headerTooShort 12 buf.length)
  else .ok ⟨u32At buf 0, u32At buf 4, u32At buf 8⟩

def decodeV1Message (buf : Bytes) : Except SyncProtocolError SyncStatResponse :=
  if buf.length < wireSize then .error (.headerTooShort wireSize buf.length)
  else if buf.length ≠ wireSize ∨ buf.take 4 ≠ u32Le syncStat then
    .error (.invalidMessage
      "V1 STAT must be exactly [STAT, mode, size, mtime] (16 bytes)".toList)
  else decode (buf.drop 4)

def exists? (st : SyncStatResponse) : Bool := st.mode != 0 || st.size != 0 || st.mtime != 0

/-- The 16 bytes of a STAT reply; no word of them is a length. -/
def wire (st : SyncStatResponse) : Bytes :=
  u32Le syncStat ++ (u32Le st.mode ++ u32Le st.size ++ u32Le st.mtime)

variable (st : SyncStatResponse)

@[simp] theorem wire_length : st.wire.length = 16 := by
  simp [wire]

/-- A stat response is decoded from its bytes. -/
theorem decodeV1Message_wire : decodeV1Message st.wire = .ok st := by
  have ht : st.wire.take 4 = u32Le syncStat := List.take_left' (u32Le_length _)
  have hd : st.wire.drop 4 = u32Le st.mode ++ u32Le st.size ++ u32Le st.mtime :=
    List.drop_left' (u32Le_length _)
  have h0 : (st.wire.drop 4).drop 0 = u32Le st.mode ++ (u32Le st.size ++ (u32Le st.mtime ++ [])) := by
    rw [hd]
    simp
  have h1 := drop_field (b := 4) h0 (by simp)
  have h2 := drop_field (b := 8) h1 (by simp)
  rw [decodeV1Message, if_neg (by simp [wireSize]), if_neg (by simp [wireSize, ht]), decode,
    if_neg (by simp [hd]), u32At_of_drop h0, u32At_of_drop h1, u32At_of_drop h2]

end SyncStatResponse

structure SyncDentResponse where
  id : UInt32
  mode : UInt32
  size : UInt32
  mtime : UInt32
  namelen : UInt32
  name : Text
deriving DecidableEq, Repr

namespace SyncDentResponse

def headerSize : Nat := 20

def decode (buf : Bytes) : Except SyncProtocolError SyncDentResponse :=
  if buf.length < headerSize then .error (.headerTooShort headerSize buf.length)
  else
    let namelen := u32At buf 16
    let total := headerSize + namelen.toNat
    if buf.length < total then .error (.headerTooShort total buf.length)
    else .ok {
      id := u32At buf 0
      mode := u32At buf 4
      size := u32At buf 8
      mtime := u32At buf 12
      namelen := namelen
      name := lossyText (slice buf headerSize total) }

def encode (d : SyncDentResponse) : Except SyncProtocolError Bytes :=
  let nameBytes := textBytes d.name
  if 2 ^ 32 ≤ nameBytes.length then
    .error (.invalidMessage "Entry name length exceeds u32::MAX".toList)
  else .ok (u32Le d.id ++ u32Le d.mode ++ u32Le d.size ++ u32Le d.mtime
    ++ u32Le (UInt32.ofNat nameBytes.length) ++ nameBytes)

end SyncDentResponse

end AdbFastboot
