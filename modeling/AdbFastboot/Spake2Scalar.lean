import Mathlib.Data.Nat.Bitwise
import AdbFastboot.AndroidPubkey

namespace AdbFastboot

open List

/-- The order of the Ed25519 group, by which `sc_reduce` divides. -/
def scReduceOrder : Bytes :=
  [0xed, 0xd3, 0xf5, 0x5c, 0x1a, 0x63, 0x12, 0x58, 0xd6, 0x9c, 0xf7, 0xa2, 0xde, 0xf9, 0xde, 0x14,
    0, 0, 0, 0, 0, 0, 0, 0, 0, 0, 0, 0, 0, 0, 0, 0x10]

/-- The `l_bytes` of `adjust_password_scalar`, which has one zero less. -/
def adjustOrder : Bytes :=
  [0xed, 0xd3, 0xf5, 0x5c, 0x1a, 0x63, 0x12, 0x58, 0xd6, 0x9c, 0xf7, 0xa2, 0xde, 0xf9, 0xde, 0x14,
    0, 0, 0, 0, 0, 0, 0, 0, 0, 0, 0, 0, 0, 0, 0x10]

/-- One of the three conditional additions, for the bit `mask` of the low byte. -/
def addWhenSet (mask : Nat) (val : Nat) : Nat :=
  if ((toBytesLe val).head?.getD 0) &&& UInt8.ofNat mask ≠ 0 then val + leNat adjustOrder * mask
  else val

def adjustedValue (scalarBytes : Bytes) : Nat :=
  addWhenSet 4 (addWhenSet 2 (addWhenSet 1 (leNat scalarBytes)))

def adjustPasswordScalar (scalarBytes : Bytes) : Bytes :=
  let resBytes := toBytesLe (adjustedValue scalarBytes)
  let copyLen := min resBytes.length 32
  resBytes.take copyLen ++ replicate (32 - copyLen) 0

/-- The adjusted scalar is the same modulo the order of the group, a multiple of the cofactor, and
whole: nothing of the sum is cut off. -/
def AdjustsScalar (scalarBytes : Bytes) : Prop :=
  leNat (adjustPasswordScalar scalarBytes) ≡ leNat scalarBytes [MOD leNat scReduceOrder]
    ∧ 8 ∣ leNat (adjustPasswordScalar scalarBytes)
    ∧ leNat (adjustPasswordScalar scalarBytes) = adjustedValue scalarBytes

theorem and_ofNat_ne_zero_iff {i val : Nat} (hi : i < 8) :
    UInt8.ofNat val &&& UInt8.ofNat (2 ^ i) ≠ 0 ↔ val / 2 ^ i % 2 = 1 := by
  have hp : 2 ^ i < 2 ^ 8 := Nat.pow_lt_pow_right (by decide) hi
  have hb := Nat.testBit_mod_two_pow val 8 i
  rw [decide_eq_true hi, Bool.true_and, Nat.testBit_eq_decide_div_mod_eq (x := val)] at hb
  rw [ne_eq, ← UInt8.toNat_inj, UInt8.toNat_and, UInt8.toNat_ofNat', UInt8.toNat_ofNat',
    Nat.mod_eq_of_lt hp, Nat.and_two_pow, hb]
  simp

/-- The order is added exactly if the bit is set. -/
theorem addWhenSet_eq (mask val : Nat) {i : Nat} (hm : mask = 2 ^ i) (hi : i < 8) :
    addWhenSet mask val = if val / 2 ^ i % 2 = 1 then val + leNat adjustOrder * 2 ^ i else val := by
  subst hm
  exact if_congr (and_ofNat_ne_zero_iff hi) rfl rfl

/-- The additions clear the low three bits. What they add is less than the order of the group, so
it is a multiple of that order only when nothing is added. -/
theorem adjustedValue_spec {scalarBytes : Bytes} (hlt : leNat scalarBytes < leNat scReduceOrder) :
    8 ∣ adjustedValue scalarBytes ∧ adjustedValue scalarBytes < 2 ^ (8 * 32)
      ∧ (adjustedValue scalarBytes ≡ leNat scalarBytes [MOD leNat scReduceOrder]
        ↔ 8 ∣ leNat scalarBytes) := by
  have hl : leNat scReduceOrder = 2 ^ 252 + 27742317777372353535851937790883648493 := by
    decide +kernel
  have ha : leNat adjustOrder = 2 ^ 244 + 27742317777372353535851937790883648493 := by
    decide +kernel
  rw [hl] at hlt
  rw [hl, Nat.ModEq, adjustedValue]
  generalize leNat scalarBytes = n at *
  have h1 := addWhenSet_eq 1 n (i := 0) rfl (by decide)
  have h2 := addWhenSet_eq 2 (addWhenSet 1 n) (i := 1) rfl (by decide)
  have h4 := addWhenSet_eq 4 (addWhenSet 2 (addWhenSet 1 n)) (i := 2) rfl (by decide)
  rw [ha] at h1 h2 h4
  split at h1 <;> split at h2 <;> split at h4 <;> omega

/-- The bytes of the adjusted scalar are those of its value. -/
theorem adjust_eq {scalarBytes : Bytes} (hlt : leNat scalarBytes < leNat scReduceOrder) :
    leNat (adjustPasswordScalar scalarBytes) = adjustedValue scalarBytes := by
  have hl := (toBytesLe_length_le (by decide)).mpr (adjustedValue_spec hlt).2.1
  obtain ⟨hp, hn⟩ := toBytesLe_padded hl
  rw [adjustPasswordScalar, Nat.min_eq_left hl, take_length, hp, hn]

/-- The adjusted scalar is as it should be exactly if it was a multiple of 8. -/
theorem adjust_scalar_iff {scalarBytes : Bytes} (hlt : leNat scalarBytes < leNat scReduceOrder) :
    AdjustsScalar scalarBytes ↔ 8 ∣ leNat scalarBytes := by
  obtain ⟨hd, -, hm⟩ := adjustedValue_spec hlt
  rw [AdjustsScalar, adjust_eq hlt, ← hm]
  exact ⟨And.left, fun h => ⟨h, hd, rfl⟩⟩

theorem adjust_scalar_eight : AdjustsScalar (8 :: replicate 31 0) :=
  (adjust_scalar_iff (by decide +kernel)).mpr (by decide +kernel)

theorem adjust_scalar_one : leNat (1 :: replicate 31 0) < leNat scReduceOrder
    ∧ ¬ leNat (adjustPasswordScalar (1 :: replicate 31 0)) ≡ leNat (1 :: replicate 31 0)
      [MOD leNat scReduceOrder] := by
  decide +kernel

end AdbFastboot
