import AdbFastboot.RadixText
import AdbFastboot.Utf8

namespace AdbFastboot

inductive FastbootResponseError where
  | tooShort
  | unknownPrefix (text : String)
  | invalidDataSize (text : String)
deriving DecidableEq, Repr

inductive FastbootResponse where
  | okay (message : String)
  | fail (message : String)
  | data (size : UInt32)
  | info (message : String)
  | text (message : String)
deriving DecidableEq, Repr

def okayTag : Bytes := [0x4F, 0x4B, 0x41, 0x59]
def failTag : Bytes := [0x46, 0x41, 0x49, 0x4C]
def dataTag : Bytes := [0x44, 0x41, 0x54, 0x41]
def infoTag : Bytes := [0x49, 0x4E, 0x46, 0x4F]
def textTag : Bytes := [0x54, 0x45, 0x58, 0x54]

def debugBytes (bs : Bytes) : String :=
  "[" ++ ", ".intercalate (bs.map fun b => toString b.toNat) ++ "]"

/-- How an unknown tag is named in the error: as text if it is text, else byte by byte. -/
def tagText (tag : Bytes) : String := (fromUtf8 tag).getD (debugBytes tag)

def FastbootResponse.parseData (payload : Bytes) : Except FastbootResponseError FastbootResponse :=
  if payload.length ≠ 8 then .error (.invalidDataSize (fromUtf8Lossy payload))
  else match fromUtf8 payload with
    | none => .error (.invalidDataSize (fromUtf8Lossy payload))
    | some hexStr =>
      match fromStrRadix 16 (2 ^ 32) hexStr.toList with
      | none => .error (.invalidDataSize hexStr)
      | some size => .ok (.data (UInt32.ofNat size))

def FastbootResponse.parse (buf : Bytes) : Except FastbootResponseError FastbootResponse :=
  if buf.length < 4 then .error .tooShort else
  let tag := buf.take 4
  let payload := buf.drop 4
  if tag = okayTag then .ok (.okay (fromUtf8Lossy payload))
  else if tag = failTag then .ok (.fail (fromUtf8Lossy payload))
  else if tag = infoTag then .ok (.info (fromUtf8Lossy payload))
  else if tag = textTag then .ok (.text (fromUtf8Lossy payload))
  else if tag = dataTag then FastbootResponse.parseData payload
  else .error (.unknownPrefix (tagText tag))

inductive TextTag : Bytes → (String → FastbootResponse) → Prop
  | okay : TextTag okayTag .okay
  | fail : TextTag failTag .fail
  | info : TextTag infoTag .info
  | text : TextTag textTag .text

variable {tag : Bytes} {mk : String → FastbootResponse}

section

variable (h : TextTag tag mk)
include h

theorem TextTag.length : tag.length = 4 := by
  cases h <;> rfl

theorem TextTag.append_ne_nil (body : Bytes) : tag ++ body ≠ [] := by
  cases h <;> exact List.cons_ne_nil _ _

theorem TextTag.injective {a b : String} (he : mk a = mk b) : a = b := by
  cases h <;> (injection he)

/-- Behind a tag all is text. -/
theorem parse_text (body : Bytes) :
    FastbootResponse.parse (tag ++ body) = .ok (mk (fromUtf8Lossy body)) := by
  unfold FastbootResponse.parse
  cases h <;> rfl

end

def IsHexByte (b : UInt8) : Prop := (hexDigit (Char.ofNat b.toNat)).isSome

instance (b : UInt8) : Decidable (IsHexByte b) := inferInstanceAs (Decidable (_ = true))

/-- Behind DATA eight hex digits are a size. -/
theorem parse_data {digits : Bytes} (hl : digits.length = 8) (hh : ∀ b ∈ digits, IsHexByte b) :
    ∃ size, FastbootResponse.parse (dataTag ++ digits) = .ok (.data size) := by
  have ha : ∀ b ∈ digits, b.toNat < 0x80 := by
    intro b hb
    obtain ⟨d, hd⟩ := Option.isSome_iff_exists.mp (hh b hb)
    have hlt := (hexDigit_lt hd).2
    have hb2 := b.toNat_lt
    rwa [char_ofNat_toNat (by omega)] at hlt
  have hch : ∀ c ∈ digits.map fun b => Char.ofNat b.toNat, (digitIn 16 c).isSome := by
    intro c hc
    obtain ⟨b, hb, rfl⟩ := List.mem_map.mp hc
    exact digitIn_sixteen (hh b hb)
  have hd : (digits.map fun b => Char.ofNat b.toNat).length = 8 := by rw [List.length_map, hl]
  have hv : (fromStrRadix 16 (2 ^ 32) (digits.map fun b => Char.ofNat b.toNat)).isSome :=
    fromStrRadix_isSome hch (List.ne_nil_of_length_pos (by omega)) (by rw [hd]; decide)
  obtain ⟨size, hs⟩ := Option.isSome_iff_exists.mp hv
  refine ⟨UInt32.ofNat size, ?_⟩
  have hp : FastbootResponse.parse (dataTag ++ digits) = FastbootResponse.parseData digits := by
    simp [FastbootResponse.parse, dataTag, okayTag, failTag, infoTag, textTag]
  rw [hp, FastbootResponse.parseData, if_neg (by simp [hl]), fromUtf8_ascii ha]
  dsimp only
  rw [String.toList_ofList, hs]

end AdbFastboot
