import Mathlib.Data.UInt
import Mathlib.Tactic.Ring
import AdbFastboot.Bytes

namespace AdbFastboot

open List

inductive AuthError where
  | invalidTokenLength (expected got : Nat)
  | invalidPublicKeyFormat (text : String)
deriving DecidableEq

structure RsaPublicKey where
  n : Nat
  e : Nat

/-- `BigUint::to_bytes_le`, which has one byte for zero. -/
def toBytesLe (x : Nat) : Bytes := leBytes (x.log2 / 8 + 1) x

def androidPubkeyModulusSize : Nat := 256

/-- The number at the front of a buffer of the size of the modulus. -/
def inModulusBuf (x : Nat) : Bytes :=
  toBytesLe x ++ replicate (androidPubkeyModulusSize - (toBytesLe x).length) 0

def newtonStep (n0 inv : UInt32) : UInt32 := inv * (2 - n0 * inv)

def encodeAndroidPubkeyBinary (key : RsaPublicKey) : Except AuthError Bytes :=
  if androidPubkeyModulusSize < (toBytesLe key.n).length then
    .error (.invalidPublicKeyFormat "Modulus size exceeds 2048 bits")
  else
    let modulus := inModulusBuf key.n
    let n0 := u32At modulus 0
    if n0 % 2 = 0 then .error (.invalidPublicKeyFormat "Modulus must be odd")
    else
      let inv := (newtonStep n0)^[5] 1
      let n0inv := 0 - inv
      let r := 1 <<< (androidPubkeyModulusSize * 8)
      let rr := inModulusBuf (r * r % key.n)
      let exponent := leBytes 4 (leNat ((toBytesLe key.e).take 4))
      .ok (u32Le 64 ++ u32Le n0inv ++ modulus ++ rr ++ exponent)

theorem leBytes_append_zeros {w x : Nat} (h : x < 256 ^ w) (k : Nat) :
    leBytes w x ++ replicate k 0 = leBytes (w + k) x := by
  induction w generalizing x with
  | zero =>
    obtain rfl : x = 0 := by simpa using h
    induction k with
    | zero => rfl
    | succ k ih => exact congrArg (0 :: ·) ih
  | succ w ih =>
    rw [Nat.add_right_comm, leBytes, leBytes, cons_append, ih (by rw [Nat.pow_succ] at h; omega)]

theorem toBytesLe_length_le {x k : Nat} (hk : 0 < k) :
    (toBytesLe x).length ≤ k ↔ x < 2 ^ (8 * k) := by
  rw [toBytesLe, leBytes_length]
  rcases Nat.eq_zero_or_pos x with rfl | hp
  · exact iff_of_true hk (pow_pos (by decide) _)
  · rw [← Nat.log2_lt (by omega)]
    omega

/-- The padded little-endian bytes of a number that fits give it back. -/
theorem toBytesLe_padded {x k : Nat} (hl : (toBytesLe x).length ≤ k) :
    toBytesLe x ++ replicate (k - (toBytesLe x).length) 0 = leBytes k x
      ∧ leNat (leBytes k x) = x := by
  rw [toBytesLe, leBytes_length] at hl
  have hf : x < 256 ^ (x.log2 / 8 + 1) := by
    calc x < 2 ^ (x.log2 + 1) := Nat.lt_log2_self
      _ ≤ 2 ^ (8 * (x.log2 / 8 + 1)) := Nat.pow_le_pow_right (by decide) (by omega)
      _ = 256 ^ (x.log2 / 8 + 1) := Nat.pow_mul 2 8 _
  rw [toBytesLe, leBytes_length, leBytes_append_zeros hf, Nat.add_sub_cancel' hl]
  refine ⟨rfl, ?_⟩
  rw [leNat_leBytes, Nat.mod_eq_of_lt (hf.trans_le (Nat.pow_le_pow_right (by decide) hl))]

theorem modulus_fits_iff {n : Nat} :
    (toBytesLe n).length ≤ androidPubkeyModulusSize ↔ n < 2 ^ 2048 := by
  have hb : 8 * androidPubkeyModulusSize = 2048 := rfl
  rw [toBytesLe_length_le (by decide), hb]

theorem inModulusBuf_eq {x : Nat} (h : x < 2 ^ 2048) :
    inModulusBuf x = leBytes 256 x ∧ leNat (leBytes 256 x) = x :=
  toBytesLe_padded (modulus_fits_iff.mpr h)

theorem lowWord_eq {n : Nat} (h : n < 2 ^ 2048) : u32At (inModulusBuf n) 0 = UInt32.ofNat n := by
  have hf : slice (leBytes 256 n) 0 4 = leBytes 4 n := rfl
  apply UInt32.toNat.inj
  rw [(inModulusBuf_eq h).1, u32At, hf, u32OfLe, leNat_leBytes]
  simp

theorem ofNat_even_iff {n : Nat} : UInt32.ofNat n % 2 = 0 ↔ n % 2 = 0 := by
  rw [← UInt32.toNat_inj]
  simp only [UInt32.toNat_mod, UInt32.toNat_ofNat', UInt32.reduceToNat]
  omega

/-- A key is encoded exactly if its modulus is odd and has at most 2048 bits. -/
theorem encode_isOk_iff {key : RsaPublicKey} :
    (∃ buf, encodeAndroidPubkeyBinary key = .ok buf) ↔ key.n % 2 = 1 ∧ key.n < 2 ^ 2048 := by
  unfold encodeAndroidPubkeyBinary
  split
  next h => exact iff_of_false (by simp) fun hk => Nat.not_le.mpr h (modulus_fits_iff.mpr hk.2)
  next h =>
    have hs := modulus_fits_iff.mp (Nat.not_lt.mp h)
    simp only [lowWord_eq hs, ofNat_even_iff]
    split
    next he => exact iff_of_false (by simp) (by omega)
    next ho => exact ⟨fun _ => ⟨Nat.mod_two_ne_zero.mp ho, hs⟩, fun _ => ⟨_, rfl⟩⟩

open scoped UInt32.CommRing in
/-- Each step squares the error, and the error of the start is even. -/
theorem newtonStep_iterate {n0 ha : UInt32} (ho : n0 = 2 * ha + 1) :
    (0 - (newtonStep n0)^[5] 1) * n0 + 1 = 0 := by
  have hs (inv : UInt32) : 1 - n0 * newtonStep n0 inv = (1 - n0 * inv) ^ 2 := by
    rw [newtonStep]
    ring
  calc (0 - (newtonStep n0)^[5] 1) * n0 + 1 = 1 - n0 * (newtonStep n0)^[5] 1 := by ring
    _ = (1 - n0 * 1) ^ 32 := by
      simp only [Function.iterate_succ', Function.iterate_zero, Function.comp_apply, id, hs]
      ring
    _ = 2 ^ 32 * ha ^ 32 := by
      rw [ho]
      ring
    _ = 0 * ha ^ 32 := congrArg (· * ha ^ 32) (by decide)
    _ = 0 := zero_mul _

/-- The two fields of an encoded key are found at their offsets. -/
theorem pubkey_fields {n0inv : UInt32} {modulus rr rest : Bytes} (hm : modulus.length = 256)
    (hr : rr.length = 256) :
    u32At (u32Le 64 ++ u32Le n0inv ++ modulus ++ rr ++ rest) 4 = n0inv
      ∧ slice (u32Le 64 ++ u32Le n0inv ++ modulus ++ rr ++ rest) 264 520 = rr := by
  simp only [append_assoc]
  have h4 : (u32Le 64 ++ (u32Le n0inv ++ (modulus ++ (rr ++ rest)))).drop 4
      = u32Le n0inv ++ (modulus ++ (rr ++ rest)) := drop_left' (u32Le_length 64)
  have h8 := drop_field (b := 8) h4 (by simp)
  exact ⟨u32At_of_drop h4, slice_of_drop (drop_field h8 (by rw [hm])) (by rw [hr])⟩

/-- The fields that the device needs for Montgomery multiplication. -/
theorem montgomery_fields {key : RsaPublicKey} (hodd : key.n % 2 = 1) (hsize : key.n < 2 ^ 2048) :
    ∃ buf, encodeAndroidPubkeyBinary key = .ok buf
      ∧ ((u32At buf 4).toNat * (key.n % 2 ^ 32) + 1) % 2 ^ 32 = 0
      ∧ leNat (slice buf 264 520) = 2 ^ 4096 % key.n := by
  have hh : UInt32.ofNat key.n = 2 * UInt32.ofNat (key.n / 2) + 1 := by
    apply UInt32.toNat.inj
    simp only [UInt32.toNat_add, UInt32.toNat_mul, UInt32.toNat_ofNat', UInt32.reduceToNat]
    omega
  have hl := modulus_fits_iff.mpr hsize
  rw [encodeAndroidPubkeyBinary, if_neg (Nat.not_lt.mpr hl)]
  dsimp only
  generalize hr : 1 <<< (androidPubkeyModulusSize * 8) = r
  obtain ⟨hrr, hv⟩ := inModulusBuf_eq ((Nat.mod_lt (r * r) (by omega)).trans hsize)
  rw [lowWord_eq hsize, if_neg (by rw [ofNat_even_iff]; omega), hrr, (inModulusBuf_eq hsize).1]
  refine ⟨_, rfl, ?_⟩
  obtain ⟨hn, hs⟩ := pubkey_fields (leBytes_length _ _) (leBytes_length _ _)
  rw [hn, hs]
  constructor
  · have hi := congrArg UInt32.toNat (newtonStep_iterate hh)
    rw [UInt32.toNat_add, UInt32.toNat_mul, UInt32.toNat_ofNat', Nat.mod_add_mod] at hi
    exact hi
  · have hb : androidPubkeyModulusSize * 8 + androidPubkeyModulusSize * 8 = 4096 := rfl
    rw [hv, ← hr, Nat.shiftLeft_eq, one_mul, ← pow_add, hb]

def smallKey : RsaPublicKey := ⟨15, 3⟩

theorem montgomery_fields_small : ∃ buf, encodeAndroidPubkeyBinary smallKey = .ok buf
    ∧ ((u32At buf 4).toNat * (smallKey.n % 2 ^ 32) + 1) % 2 ^ 32 = 0
    ∧ leNat (slice buf 264 520) = 2 ^ 4096 % smallKey.n := by
  have hs : smallKey.n < 2 ^ 4 := by decide
  exact montgomery_fields rfl (hs.trans (pow_lt_pow_right₀ (by decide) (by decide)))

end AdbFastboot
