import AdbFastboot.Bytes
import AdbFastboot.RadixText

namespace AdbFastboot

def aCnxn : UInt32 := 0x4E584E43
def aAuth : UInt32 := 0x48545541
def aOpen : UInt32 := 0x4E45504F
def aOkay : UInt32 := 0x59414B4F
def aClse : UInt32 := 0x45534C43
def aWrte : UInt32 := 0x45545257

def maxPayloadV2 : UInt32 := 1024 * 1024

inductive HeaderError where
  | bufferTooShort (len : Nat)
  | magicMismatch (expected got : UInt32)
  | checksumMismatch (expected got : UInt32)
deriving DecidableEq, Repr

def hexText (x : UInt32) : String := "0x" ++ String.ofList (Nat.toDigits 16 x.toNat)

def HeaderError.text : HeaderError → String
  | .bufferTooShort len => "Buffer too short: expected 24 bytes, got " ++ toString len
  | .magicMismatch expected got =>
    "Magic mismatch: expected " ++ hexText expected ++ ", got " ++ hexText got
  | .checksumMismatch expected got =>
    "Checksum mismatch: expected " ++ hexText expected ++ ", got " ++ hexText got

structure AdbMessageHeader where
  command : UInt32
  arg0 : UInt32
  arg1 : UInt32
  dataLength : UInt32
  dataCheck : UInt32
  magic : UInt32
deriving DecidableEq, Repr

def AdbMessageHeader.size : Nat := 24

/-- From version 0x01000001 on the checksum is left out. -/
def AdbMessageHeader.new (command arg0 arg1 : UInt32) (payload : Bytes) : AdbMessageHeader where
  command := command
  arg0 := arg0
  arg1 := arg1
  dataLength := UInt32.ofNat payload.length
  dataCheck := 0
  magic := command ^^^ 0xFFFFFFFF

def AdbMessageHeader.encode (h : AdbMessageHeader) : Bytes :=
  u32Le h.command ++ u32Le h.arg0 ++ u32Le h.arg1 ++ u32Le h.dataLength ++ u32Le h.dataCheck
    ++ u32Le h.magic

/-- The six numbers of a header, which no check has been made of. -/
def decodeFramingHeader (buf : Bytes) : AdbMessageHeader where
  command := u32At buf 0
  arg0 := u32At buf 4
  arg1 := u32At buf 8
  dataLength := u32At buf 12
  dataCheck := u32At buf 16
  magic := u32At buf 20

def AdbMessageHeader.decode (buf : Bytes) : Except HeaderError AdbMessageHeader :=
  if buf.length < AdbMessageHeader.size then .error (.bufferTooShort buf.length)
  else
    let header := decodeFramingHeader buf
    let expectedMagic := header.command ^^^ 0xFFFFFFFF
    if header.magic ≠ expectedMagic then .error (.magicMismatch expectedMagic header.magic)
    else .ok header

structure AdbPacket where
  header : AdbMessageHeader
  payload : Bytes
deriving DecidableEq, Repr

def AdbPacket.encode (p : AdbPacket) : Bytes := p.header.encode ++ p.payload

structure AdbPacket.Framed (p : AdbPacket) : Prop where
  length_eq : p.header.dataLength.toNat = p.payload.length
  length_le : p.header.dataLength ≤ maxPayloadV2

@[simp] theorem AdbMessageHeader.encode_length (h : AdbMessageHeader) : h.encode.length = 24 := by
  simp [AdbMessageHeader.encode]

theorem AdbPacket.encode_length (p : AdbPacket) : p.encode.length = 24 + p.payload.length := by
  rw [AdbPacket.encode, List.length_append, AdbMessageHeader.encode_length]

/-- A header is read back from its 24 bytes. -/
theorem decodeFramingHeader_encode (h : AdbMessageHeader) : decodeFramingHeader h.encode = h := by
  have h0 : h.encode.drop 0 = u32Le h.command ++ (u32Le h.arg0 ++ (u32Le h.arg1
      ++ (u32Le h.dataLength ++ (u32Le h.dataCheck ++ (u32Le h.magic ++ []))))) := by
    simp [AdbMessageHeader.encode]
  have h1 := drop_field (b := 4) h0 (by simp)
  have h2 := drop_field (b := 8) h1 (by simp)
  have h3 := drop_field (b := 12) h2 (by simp)
  have h4 := drop_field (b := 16) h3 (by simp)
  have h5 := drop_field (b := 20) h4 (by simp)
  rw [decodeFramingHeader, u32At_of_drop h0, u32At_of_drop h1, u32At_of_drop h2, u32At_of_drop h3,
    u32At_of_drop h4, u32At_of_drop h5]

/-- `decode` accepts an encoded header whose magic fits its command. -/
theorem AdbMessageHeader.decode_encode {h : AdbMessageHeader}
    (hm : h.magic = h.command ^^^ 0xFFFFFFFF) : AdbMessageHeader.decode h.encode = .ok h := by
  rw [AdbMessageHeader.decode, if_neg (by simp [AdbMessageHeader.size])]
  simp only [decodeFramingHeader_encode]
  rw [if_neg (by simp [hm])]

def AdbPacket.new (command arg0 arg1 : UInt32) (payload : Bytes) : AdbPacket where
  header := AdbMessageHeader.new command arg0 arg1 payload
  payload := payload

variable (command arg0 arg1 : UInt32) {payload : Bytes}

theorem AdbPacket.new_framed (h : payload.length ≤ maxPayloadV2.toNat) :
    (AdbPacket.new command arg0 arg1 payload).Framed := by
  have hlt := Nat.lt_of_le_of_lt h maxPayloadV2.toNat_lt
  have heq : (UInt32.ofNat payload.length).toNat = payload.length := by
    rw [UInt32.toNat_ofNat', Nat.mod_eq_of_lt hlt]
  exact ⟨heq, UInt32.le_iff_toNat_le.mpr (heq.trans_le h)⟩

structure AdbPacket.WellFormed (p : AdbPacket) : Prop where
  framed : p.Framed
  magic : p.header.magic = p.header.command ^^^ 0xFFFFFFFF

instance (p : AdbPacket) : Decidable p.WellFormed :=
  decidable_of_iff ((p.header.dataLength.toNat = p.payload.length
      ∧ p.header.dataLength ≤ maxPayloadV2) ∧ p.header.magic = p.header.command ^^^ 0xFFFFFFFF)
    ⟨fun h => ⟨⟨h.1.1, h.1.2⟩, h.2⟩, fun h => ⟨⟨h.framed.1, h.framed.2⟩, h.magic⟩⟩

end AdbFastboot
