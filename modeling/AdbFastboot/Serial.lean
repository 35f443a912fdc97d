import AdbFastboot.Bytes

namespace AdbFastboot

/-- The sequence number of step `n` when step 0 had the number `first`. -/
def serial (first : UInt16) (n : Nat) : UInt16 := first + UInt16.ofNat n

variable (first : UInt16)

theorem serial_add (n k : Nat) : serial first (n + k) = serial first n + UInt16.ofNat k := by
  rw [serial, serial, UInt16.ofNat_add, UInt16.add_assoc]

/-- Numbers less than 2 ^ 16 steps apart are told apart by their difference. -/
theorem serial_sub_serial {m n : Nat} (hle : m ≤ n) (hlt : n < m + 2 ^ 16) :
    (serial first n - serial first m).toNat = n - m := by
  simp only [serial, UInt16.toNat_sub, UInt16.toNat_add, UInt16.toNat_ofNat']
  omega

/-- Within 2 ^ 16 steps a number is used once. -/
theorem serial_inj {first : UInt16} {m n : Nat} (hle : m ≤ n) (hlt : n < m + 2 ^ 16)
    (h : serial first m = serial first n) : m = n := by
  have hs := serial_sub_serial first hle hlt
  rw [h, UInt16.sub_self] at hs
  have hz : (0 : UInt16).toNat = 0 := rfl
  omega

theorem serial_succ_ne (n : Nat) : serial first n ≠ serial first (n + 1) := by
  intro h
  have := serial_inj (by omega) (by omega) h
  omega

end AdbFastboot
