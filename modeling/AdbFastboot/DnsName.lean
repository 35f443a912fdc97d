import AdbFastboot.HostRegistry
import AdbFastboot.LoopHalt
import AdbFastboot.Outcome
import AdbFastboot.Utf8

namespace AdbFastboot

/-- How a call on a packet ends that gives no value and does not panic: with `Parse`, or not yet,
after the turns that its loops were given. -/
inductive MdnsStop where
  | parse (text : Text)
  | running
deriving DecidableEq, Repr

abbrev MdnsResult (α : Type) := Outcome MdnsStop α

def parseError {α : Type} (text : String) : MdnsResult α := fail (.parse text.toList)

def byteAt (data : Bytes) (i : Nat) : MdnsResult UInt8 :=
  match data[i]? with
  | some b => .ok b
  | none => panicked

def u16BeAt (data : Bytes) (i : Nat) : MdnsResult UInt16 := do
  let high ← byteAt data i
  let low ← byteAt data (i + 1)
  pure (UInt16.ofNat (beNat [high, low]))

def u32BeAt (data : Bytes) (i : Nat) : MdnsResult UInt32 := do
  let b0 ← byteAt data i
  let b1 ← byteAt data (i + 1)
  let b2 ← byteAt data (i + 2)
  let b3 ← byteAt data (i + 3)
  pure (UInt32.ofNat (beNat [b0, b1, b2, b3]))

def isPointer (len : UInt8) : Bool := len &&& 0xC0 == 0xC0

/-- `((len as u16 & 0x3F) << 8) | low as u16`. -/
def pointerTarget (len low : UInt8) : Nat :=
  (((len.toUInt16 &&& 0x3F) <<< 8) ||| low.toUInt16).toNat

def skipTurn (data : Bytes) (offset : Nat) : LoopStep Nat (MdnsResult Nat) :=
  match data[offset]? with
  | none => .done (parseError "offset past end of DNS name")
  | some len =>
    if isPointer len then .done (.ok (offset + 2))
    else if len = 0 then .done (.ok (offset + 1))
    else if offset + 1 + len.toNat > data.length then
      .done (parseError "label extends past end of DNS name")
    else .next (offset + 1 + len.toNat)

def skipDnsName (fuel : Nat) (data : Bytes) (offset : Nat) : MdnsResult Nat :=
  (runTurns (skipTurn data) fuel offset).getD (fail .running)

def decodeTurn (data : Bytes) (s : Nat × List Bytes) :
    LoopStep (Nat × List Bytes) (MdnsResult (List Bytes)) :=
  match data[s.1]? with
  | none => .done (parseError "offset past end of DNS name")
  | some len =>
    if isPointer len then
      match data[s.1 + 1]? with
      | none => .done panicked
      | some low => .next (pointerTarget len low, s.2)
    else if len = 0 then .done (.ok s.2)
    else if s.1 + 1 + len.toNat > data.length then
      .done (parseError "label extends past end of DNS name")
    else .next (s.1 + 1 + len.toNat, s.2 ++ [slice data (s.1 + 1) (s.1 + 1 + len.toNat)])

def decodeLabels (fuel : Nat) (data : Bytes) (offset : Nat) : MdnsResult (List Bytes) :=
  (runTurns (decodeTurn data) fuel (offset, [])).getD (fail .running)

/-- `from_utf8(l).unwrap_or("")` for each label, joined with dots. -/
def labelsText (labels : List Bytes) : Text :=
  List.intercalate ['.'] (labels.map fun l => (utf8StrictAfter 0 l).getD [])

namespace MdnsServer

def decodeDnsName (fuel : Nat) (data : Bytes) (offset : Nat) : MdnsResult Text := do
  let labels ← decodeLabels fuel data offset
  pure (labelsText labels)

def skipAndDecodeDnsName (fuel : Nat) (data : Bytes) (offset : Nat) : MdnsResult (Text × Nat) := do
  let name ← decodeDnsName fuel data offset
  let behind ← skipDnsName fuel data offset
  pure (name, behind)

end MdnsServer

namespace MdnsClient

/-- The client puts a dot behind the name. -/
def decodeDnsName (fuel : Nat) (data : Bytes) (offset : Nat) : MdnsResult Text := do
  let labels ← decodeLabels fuel data offset
  pure (labelsText labels ++ ['.'])

end MdnsClient

structure DnsRecordPeek where
  consumed : Nat
  lenDiff : Nat
deriving DecidableEq, Repr

def peekTurn (data : Bytes) (s : Nat × Nat) : LoopStep (Nat × Nat) (MdnsResult (Nat × Nat)) :=
  match data[s.1]? with
  | none => .done (parseError "offset past end in DNS name")
  | some len =>
    if isPointer len then .done (.ok (s.1 + 2, s.2 + 2))
    else if len = 0 then .done (.ok (s.1 + 1, s.2 + 1))
    else .next (s.1 + (1 + len.toNat), s.2 + (1 + len.toNat))

def peekDnsRecord (fuel : Nat) (data : Bytes) (offset : Nat) :
    MdnsResult (DnsRecordPeek × Nat) := do
  if offset ≥ data.length then parseError "offset past end"
  else
    let (pos, nameConsumed) ←
      (runTurns (peekTurn data) fuel (offset, 0)).getD (fail .running)
    if pos + 10 > data.length then parseError "not enough data for record header"
    else
      let rdlength ← u16BeAt data (pos + 8)
      let consumed := pos + 10 + rdlength.toNat - offset
      if consumed > data.length - offset then parseError "record extends past end of packet"
      else pure (⟨consumed, nameConsumed⟩, rdlength.toNat)

end AdbFastboot
