import AdbFastboot.Bytes

namespace AdbFastboot

def roundUp (n a : Nat) : Nat := (n + a - 1) / a * a

variable {a : Nat}

/-- Rounding up adds less than a page. -/
theorem roundUp_bounds (ha : 0 < a) (n : Nat) : n ≤ roundUp n a ∧ roundUp n a < n + a := by
  have hd := Nat.div_add_mod (n + a - 1) a
  have hm := Nat.mod_lt (n + a - 1) ha
  rw [Nat.mul_comm] at hd
  unfold roundUp
  omega

theorem dvd_roundUp (n a : Nat) : a ∣ roundUp n a := Nat.dvd_mul_left a _

@[simp] theorem roundUp_zero (a : Nat) : roundUp 0 a = 0 := by
  rcases Nat.eq_zero_or_pos a with rfl | ha
  · rfl
  · rw [roundUp, Nat.zero_add, Nat.div_eq_of_lt (by omega), Nat.zero_mul]

theorem roundUp_add {m : Nat} (hm : a ∣ m) (n : Nat) : roundUp (m + n) a = m + roundUp n a := by
  obtain ⟨q, rfl⟩ := hm
  rcases Nat.eq_zero_or_pos a with rfl | ha
  · simp [roundUp]
  · have hs : a * q + n + a - 1 = n + a - 1 + a * q := by omega
    rw [roundUp, roundUp, hs, Nat.add_mul_div_left _ _ ha, Nat.add_mul, Nat.mul_comm q a, Nat.add_comm]

def isPowerOfTwo (n : Nat) : Bool := 2 ^ n.log2 == n

/-- The test of the bits finds the powers of two. -/
theorem isPowerOfTwo_iff {n : Nat} : isPowerOfTwo n = true ↔ ∃ k, n = 2 ^ k := by
  rw [isPowerOfTwo, beq_iff_eq]
  constructor
  · intro h
    exact ⟨n.log2, h.symm⟩
  · intro h
    obtain ⟨k, rfl⟩ := h
    rw [Nat.log2_two_pow]

/-- Clearing the low bits rounds down. -/
theorem and_mask {m k : Nat} (hm : m < 2 ^ 64) (hk : k ≤ 64) :
    m &&& (2 ^ 64 - 2 ^ k) = m / 2 ^ k * 2 ^ k := by
  have hms : 2 ^ 64 - 2 ^ k = (2 ^ (64 - k) - 1) <<< k := by
    rw [Nat.shiftLeft_eq, Nat.sub_mul, ← Nat.pow_add, Nat.sub_add_cancel hk, Nat.one_mul]
  rw [hms, ← Nat.shiftRight_eq_div_pow, ← Nat.shiftLeft_eq]
  apply Nat.eq_of_testBit_eq
  intro i
  rcases Nat.lt_or_ge i k with hi | hi
  · simp [Nat.not_le.mpr hi]
  have hik : k + (i - k) = i := by omega
  rcases Nat.lt_or_ge i 64 with h64 | h64
  · simp [hi, hik, show i - k < 64 - k by omega]
  · have hb :=
    Nat.testBit_lt_two_pow (Nat.lt_of_lt_of_le hm (Nat.pow_le_pow_right (by decide) h64))
    simp [hik, hb]

def resizeZero (buf : Bytes) (n : Nat) : Bytes :=
  buf.take n ++ List.replicate (n - buf.length) 0

def padTo (a : Nat) (bs : Bytes) : Bytes :=
  bs ++ List.replicate (roundUp bs.length a - bs.length) 0

@[simp] theorem padTo_nil (a : Nat) : padTo a [] = [] := by
  simp [padTo]

theorem padTo_length (ha : 0 < a) (bs : Bytes) : (padTo a bs).length = roundUp bs.length a := by
  have hle := (roundUp_bounds ha bs.length).1
  rw [padTo, List.length_append, List.length_replicate]
  omega

/-- A padded section is found again without its padding. -/
theorem slice_padTo {data bs rest : Bytes} {off : Nat}
    (h : data.drop off = padTo a bs ++ rest) : slice data off (off + bs.length) = bs := by
  rw [padTo, List.append_assoc] at h
  exact slice_of_drop h rfl

theorem resizeZero_roundUp (ha : 0 < a) (bs : Bytes) :
    resizeZero bs (roundUp bs.length a) = padTo a bs := by
  rw [resizeZero, List.take_of_length_le (roundUp_bounds ha bs.length).1, padTo]

theorem resizeZero_append (ha : 0 < a) {image : Bytes} (hi : a ∣ image.length) (bs : Bytes) :
    resizeZero (image ++ bs) (roundUp (image ++ bs).length a) = image ++ padTo a bs := by
  rw [resizeZero_roundUp ha, padTo, padTo, List.length_append, roundUp_add hi,
    Nat.add_sub_add_left, List.append_assoc]

end AdbFastboot
