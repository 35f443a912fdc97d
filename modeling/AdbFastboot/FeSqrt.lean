import AdbFastboot.Fe25519

namespace AdbFastboot

open List

namespace Fe

def sqrtExp : List UInt64 :=
  [0xffff_ffff_ffff_fffe, 0xffff_ffff_ffff_ffff, 0xffff_ffff_ffff_ffff, 0x0fff_ffff_ffff_ffff]

/-- The constant that the code takes for a square root of minus one. -/
def sqrtM1 : Fe := fromBytes
  [0xb0, 0xa0, 0x0e, 0x4a, 0x27, 0x1b, 0xe3, 0x3c, 0x80, 0x4c, 0x59, 0x7d, 0x33, 0x7b, 0x6d, 0x19,
    0x27, 0x3c, 0x52, 0xa5, 0x59, 0x28, 0x81, 0xa7, 0xb7, 0x44, 0xa1, 0x0f, 0x96, 0x5f, 0x72, 0x2b]

def sqrtD2 (fe : Fe) : Option Fe :=
  let r := powLoop sqrtExp 252 fe
  if r.square.normalized = fe.normalized then some r
  else
    let r2 := r.mul sqrtM1
    if r2.square.normalized = fe.normalized then some r2 else none

variable {a b : Fe}

theorem val_inj (h : a.val = b.val) : a = b := by
  rw [val_eq, val_eq] at h
  have ha := a.limb_lt
  have hb := b.limb_lt
  rcases a with ⟨a0, a1, a2, a3⟩
  rcases b with ⟨b0, b1, b2, b3⟩
  simp only [mk.injEq, ← UInt64.toNat_inj] at *
  omega

/-- Normalised elements are equal exactly if they are congruent. -/
theorem normalized_eq_iff : a.normalized = b.normalized ↔ (a.val : ZMod p) = b.val := by
  rw [ZMod.natCast_eq_natCast_iff', ← normalized_val, ← normalized_val]
  exact ⟨congrArg val, val_inj⟩

theorem pow_double_exp (y : ZMod p) : y ^ (4 * ((2 ^ 252 - 2) * 2)) = y ^ 4 := by
  have hexp : 4 * ((2 ^ 252 - 2) * 2) = p + 3 := rfl
  rw [hexp, pow_add, ZMod.pow_card]
  ring

/-- The first candidate is a root exactly of the fourth powers. -/
theorem first_root_iff (x : ZMod p) : (x ^ (2 ^ 252 - 2)) ^ 2 = x ↔ ∃ y, y ^ 4 = x := by
  constructor
  · intro h
    refine ⟨x ^ (2 ^ 251 - 1), ?_⟩
    rw [← pow_mul] at h ⊢
    exact h
  · rintro ⟨y, rfl⟩
    rw [← pow_mul, ← pow_mul, pow_double_exp]

/-- The fourth power of the constant is not one, as that of a root of minus one is. -/
theorem sqrtM1_pow : (sqrtM1.val : ZMod p) ^ 4 ≠ 1 := by
  rw [sqrtM1, fromBytes_val rfl, ZMod.natCast_mod, ← Nat.cast_pow, ← Nat.cast_one, ne_eq,
    ZMod.natCast_eq_natCast_iff']
  decide +kernel

/-- The second candidate is a root of no square but zero. -/
theorem second_root_eq_zero {s : ZMod p}
    (h : ((s ^ 2) ^ (2 ^ 252 - 2) * sqrtM1.val) ^ 2 = s ^ 2) : s = 0 := by
  by_contra hne
  have hs : s ^ (4 * ((2 ^ 252 - 2) * 2)) * (sqrtM1.val : ZMod p) ^ 4 = s ^ 4 := by
    calc _ = (((s ^ 2) ^ (2 ^ 252 - 2) * sqrtM1.val) ^ 2) ^ 2 := by
          rw [mul_pow, mul_pow]
          simp only [← pow_mul]
          rfl
      _ = _ := by rw [h, ← pow_mul]
  rw [pow_double_exp] at hs
  exact sqrtM1_pow (mul_left_cancel₀ (pow_ne_zero 4 hne) (hs.trans (mul_one _).symm))

/-- A root that is returned is a root. -/
theorem sqrtD2_some {r : Fe} (h : a.sqrtD2 = some r) :
    (r.val : ZMod p) * r.val = a.val ∧ r.val < p := by
  rw [sqrtD2] at h
  dsimp only at h
  rw [← mul_cast, ← normalized_eq_iff]
  split at h
  next hr =>
    cases h
    exact ⟨hr, (powLoop_spec a sqrtExp 252).2⟩
  next =>
    split at h
    next hr =>
      cases h
      exact ⟨hr, mul_lt _ _⟩
    next => cases h

/-- A square has a root found exactly if it is a fourth power. -/
theorem sqrtD2_isSome_iff (ha : IsSquare (a.val : ZMod p)) :
    a.sqrtD2.isSome ↔ ∃ y : ZMod p, y ^ 4 = a.val := by
  obtain ⟨hp, -⟩ := powLoop_spec a sqrtExp 252
  have hexp : bitsNat ((sqrtExp.flatMap limbBits).take 252) = 2 ^ 252 - 2 := by decide +kernel
  rw [hexp] at hp
  rw [sqrtD2]
  simp only [normalized_eq_iff, square, mul_cast, hp, ← pow_two]
  split
  next h => exact iff_of_true rfl ((first_root_iff _).mp h)
  next h =>
    split
    next hr =>
      obtain ⟨s, hs⟩ := ha
      rw [hs, ← pow_two] at hr ⊢
      exact iff_of_true rfl ⟨0, by rw [second_root_eq_zero hr]; simp⟩
    next => exact iff_of_false (by simp) fun hy => h ((first_root_iff _).mpr hy)

/-- A square has its root found, and what is no square is refused. -/
def RootExact (a : Fe) : Prop :=
  (IsSquare (a.val : ZMod p) → ∃ r, a.sqrtD2 = some r ∧ (r.val : ZMod p) * r.val = a.val)
    ∧ (¬ IsSquare (a.val : ZMod p) → a.sqrtD2 = none)

theorem sqrt_exact_iff (a : Fe) :
    RootExact a ↔ (IsSquare (a.val : ZMod p) → ∃ y : ZMod p, y ^ 4 = a.val) := by
  constructor
  · intro h ha
    obtain ⟨r, hr, -⟩ := h.1 ha
    exact (sqrtD2_isSome_iff ha).mp (by rw [hr]; rfl)
  · intro h
    constructor
    · intro ha
      obtain ⟨r, hr⟩ := Option.isSome_iff_exists.mp ((sqrtD2_isSome_iff ha).mpr (h ha))
      exact ⟨r, hr, (sqrtD2_some hr).1⟩
    · intro ha
      rw [Option.eq_none_iff_forall_ne_some]
      exact fun r hr => ha ⟨r.val, (sqrtD2_some hr).1.symm⟩

theorem sqrt_of_four : IsSquare ((⟨4, 0, 0, 0⟩ : Fe).val : ZMod p)
    ∧ (⟨4, 0, 0, 0⟩ : Fe).sqrtD2 = none := by
  have hv : (⟨4, 0, 0, 0⟩ : Fe).val = 2 * 2 := rfl
  have hs : IsSquare ((⟨4, 0, 0, 0⟩ : Fe).val : ZMod p) := by
    rw [hv, Nat.cast_mul]
    exact ⟨_, rfl⟩
  refine ⟨hs, ?_⟩
  rw [← Option.not_isSome_iff_eq_none, sqrtD2_isSome_iff hs, hv]
  have hn : (2 ^ 252 - 2) * 2 < 2 ^ 256 := by decide
  rw [← first_root_iff, ← pow_mul, ← powMod_cast hn, ZMod.natCast_eq_natCast_iff']
  decide +kernel

end Fe

end AdbFastboot
