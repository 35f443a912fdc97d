import AdbFastboot.Utf8

namespace AdbFastboot

open List

def fixedBytes (text : String) (len : Nat) : Bytes :=
  (utf8Bytes text).take len ++ List.replicate (len - (utf8Bytes text).length) 0

def untilNul (bs : Bytes) : Bytes := bs.takeWhile fun b => b != 0

def fixedString (bs : Bytes) : String := fromUtf8Lossy (untilNul bs)

structure FitsField (text : String) (len : Nat) : Prop where
  length : (utf8Bytes text).length ≤ len
  nul : 0 ∉ utf8Bytes text

theorem fitsField_empty (len : Nat) : FitsField "" len := ⟨Nat.zero_le len, not_mem_nil⟩

@[simp] theorem fixedBytes_length (text : String) (len : Nat) : (fixedBytes text len).length = len := by
  rw [fixedBytes, length_append, length_take, length_replicate]
  omega

theorem untilNul_append_zeros {bs : Bytes} (h : 0 ∉ bs) (n : Nat) :
    untilNul (bs ++ List.replicate n 0) = bs := by
  have ha : ∀ b ∈ bs, (b != 0) = true := by
    intro b hb
    rw [bne_iff_ne]
    intro hz
    exact h (hz ▸ hb)
  rw [untilNul, takeWhile_append_of_pos ha]
  cases n with
  | zero => rw [replicate_zero, takeWhile_nil, append_nil]
  | succ n => rw [replicate_succ, takeWhile_cons_of_neg (by decide), append_nil]

variable {text : String} {len : Nat} (h : FitsField text len)
include h

theorem untilNul_fixedBytes : untilNul (fixedBytes text len) = utf8Bytes text := by
  rw [fixedBytes, take_of_length_le h.length, untilNul_append_zeros h.nul]

/-- A text that fits its field is read back from it. -/
theorem fixedString_fixedBytes : fixedString (fixedBytes text len) = text := by
  rw [fixedString, untilNul_fixedBytes h, fromUtf8Lossy_utf8Bytes]

end AdbFastboot
