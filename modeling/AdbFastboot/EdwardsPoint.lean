import Mathlib.NumberTheory.LegendreSymbol.Basic
import AdbFastboot.FeSqrt
import AdbFastboot.Spake2Scalar

namespace AdbFastboot

open List

namespace Fe

def toBytes (fe : Fe) : Bytes := fe.normalized.limbs.flatMap u64Le

def isNegative (fe : Fe) : Bool := fe.toBytes.getD 0 0 &&& 1 ≠ 0

theorem flatMap_u64Le (ls : List UInt64) :
    leNat (ls.flatMap u64Le) = limbsNat ls ∧ (ls.flatMap u64Le).length = 8 * ls.length := by
  induction ls with
  | nil => exact ⟨rfl, rfl⟩
  | cons l ls ih =>
    have hl : l.toNat < 256 ^ 8 := l.toNat_lt
    rw [flatMap_cons, leNat_append, length_append, u64Le_length, ih.1, ih.2, u64Le, leNat_leBytes,
      Nat.mod_eq_of_lt hl, length_cons]
    exact ⟨rfl, by omega⟩

/-- An element is written as the little-endian bytes of its value modulo p. -/
theorem toBytes_eq (a : Fe) : a.toBytes = leBytes 32 (a.val % p) := by
  obtain ⟨hn, hl⟩ := flatMap_u64Le a.normalized.limbs
  have h := leBytes_leNat (a.normalized.limbs.flatMap u64Le)
  rw [hn, hl, ← val, normalized_val] at h
  exact h.symm

/-- The sign of an element is the parity of its value modulo p. -/
theorem isNegative_iff (a : Fe) : a.isNegative = true ↔ a.val % p % 2 = 1 := by
  rw [isNegative, toBytes_eq, decide_eq_true_iff]
  exact (and_ofNat_ne_zero_iff (i := 0) (by decide)).trans (by rw [pow_zero, Nat.div_one])

end Fe

open Fe

def dConst : Fe := fromBytes
  [0xa3, 0x78, 0x59, 0x13, 0xca, 0x4d, 0xeb, 0x75, 0xab, 0xd8, 0x41, 0x41, 0x4d, 0x0a, 0x70, 0x00,
    0x98, 0xe8, 0x79, 0x77, 0x79, 0x40, 0xc7, 0x8c, 0x73, 0xfe, 0x6f, 0x2b, 0xee, 0x6c, 0x03, 0x52]

structure ExtendedPoint where
  x : Fe
  y : Fe
  z : Fe
  t : Fe

namespace ExtendedPoint

def encode (pt : ExtendedPoint) : Bytes :=
  let zInv := pt.z.invert
  let x := pt.x.mul zInv
  let y := pt.y.mul zInv
  let bytes := y.toBytes
  if x.isNegative then bytes.set 31 (bytes.getD 31 0 ||| 0x80) else bytes

def decode (bytes : Bytes) : Option ExtendedPoint := do
  let xSign := (bytes.getD 31 0 >>> 7) &&& 1
  let y := fromBytes (bytes.set 31 (bytes.getD 31 0 &&& 0x7f))
  let y2 := y.square
  let u := y2.sub ONE
  let v := (dConst.mul y2).add ONE
  let x ← (u.mul v.invert).sqrtD2
  let x := if (if x.isNegative then 1 else 0) ≠ xSign then ZERO.sub x else x
  some ⟨x, y, ONE, x.mul y⟩

def affine (pt : ExtendedPoint) : ZMod p × ZMod p := (pt.x.val / pt.z.val, pt.y.val / pt.z.val)

/-- A point of the twisted Edwards curve in extended coordinates. -/
structure Valid (pt : ExtendedPoint) : Prop where
  z_ne : (pt.z.val : ZMod p) ≠ 0
  product : (pt.x.val : ZMod p) * pt.y.val = pt.z.val * pt.t.val
  curve : pt.affine.2 ^ 2 - pt.affine.1 ^ 2 = 1 + dConst.val * pt.affine.1 ^ 2 * pt.affine.2 ^ 2

theorem last_byte {v : Nat} (h : v < 2 ^ 255) :
    ∃ n < 128, (leBytes 32 v).getD 31 0 = UInt8.ofNat n :=
  ⟨_, by omega, rfl⟩

theorem sign_bits : ∀ n < 128, (UInt8.ofNat n ||| 0x80) &&& 0x7f = UInt8.ofNat n
    ∧ UInt8.ofNat n &&& 0x7f = UInt8.ofNat n ∧ ((UInt8.ofNat n ||| 0x80) >>> 7) &&& 1 = 1
    ∧ (UInt8.ofNat n >>> 7) &&& 1 = 0 := by
  decide +kernel

/-- The sign takes the free top bit of the last byte. -/
theorem sign_read_back {v : Nat} (h : v < 2 ^ 255) (neg : Bool) {bytes : Bytes}
    (hb : bytes = if neg then (leBytes 32 v).set 31 ((leBytes 32 v).getD 31 0 ||| 0x80)
      else leBytes 32 v) :
    bytes.set 31 (bytes.getD 31 0 &&& 0x7f) = leBytes 32 v
      ∧ (bytes.getD 31 0 >>> 7) &&& 1 = if neg then 1 else 0 := by
  obtain ⟨n, hn, hl⟩ := last_byte h
  obtain ⟨hset, hk, ho, hz⟩ := sign_bits n hn
  have hlen : 31 < (leBytes 32 v).length := by rw [leBytes_length]; decide
  have hs : (leBytes 32 v).set 31 (UInt8.ofNat n) = leBytes 32 v := by
    rw [← hl, getD_eq_getElem _ _ hlen, set_getElem_self]
  cases neg with
  | false =>
    rw [if_neg (by decide)] at hb
    rw [hb, hl, hk, hs, hz]
    exact ⟨rfl, rfl⟩
  | true =>
    rw [if_pos rfl] at hb
    have hg : bytes.getD 31 0 = UInt8.ofNat n ||| 0x80 := by
      rw [hb, hl]
      simp
    rw [hg, hb, set_set, hset, hs, ho]
    exact ⟨rfl, rfl⟩

theorem one_cast : (ONE.val : ZMod p) = 1 := Nat.cast_one

theorem add_cast {a b : Fe} (ha : a.val < p) (hb : b.val < p) :
    ((a.add b).val : ZMod p) = a.val + b.val := by
  rw [add_val a b ha hb, ZMod.natCast_mod, Nat.cast_add]

theorem sub_cast {a b : Fe} (ha : a.val < p) (hb : b.val < p) :
    ((a.sub b).val : ZMod p) = a.val - b.val := by
  rw [sub_val a b ha hb, ZMod.natCast_mod, Nat.cast_add, Nat.cast_sub hb.le, ZMod.natCast_self]
  ring

/-- Of the two roots the sign chooses the encoded one. -/
theorem signed_root {r x : Fe} (hr : r.val < p) (hx : x.val < p)
    (h : (r.val : ZMod p) * r.val = x.val * x.val) :
    ((if (if r.isNegative then 1 else 0 : UInt8) ≠ (if x.isNegative then 1 else 0) then ZERO.sub r
      else r).val : ZMod p) = x.val := by
  have hs : (if r.isNegative then 1 else 0 : UInt8) = (if x.isNegative then 1 else 0)
      ↔ r.val % 2 = x.val % 2 := by
    have hb : (if r.isNegative then 1 else 0 : UInt8) = (if x.isNegative then 1 else 0)
        ↔ r.isNegative = x.isNegative := by
      cases r.isNegative <;> cases x.isNegative <;> decide
    rw [hb, Bool.eq_iff_iff, isNegative_iff, isNegative_iff, Nat.mod_eq_of_lt hr,
      Nat.mod_eq_of_lt hx]
    omega
  simp only [ne_eq, hs]
  by_cases heq : (r.val : ZMod p) = x.val
  · have hv := eq_mod_of_cast hr heq
    rw [Nat.mod_eq_of_lt hx] at hv
    rw [if_neg (not_not.mpr (congrArg (· % 2) hv)), heq]
  · have hn := (mul_self_eq_mul_self_iff.mp h).resolve_left heq
    have hpos : r.val ≠ 0 := by
      intro hz
      rw [hz, Nat.cast_zero, eq_comm, neg_eq_zero] at hn
      exact heq (by rw [hz, hn, Nat.cast_zero])
    have hv := eq_mod_of_cast (x := p - r.val) (y := x.val) (by omega)
      (by rw [Nat.cast_sub hr.le, ZMod.natCast_self, hn]; ring)
    have hp := p_add
    have hz : (ZERO.val : ZMod p) = 0 := Nat.cast_zero
    rw [Nat.mod_eq_of_lt hx] at hv
    rw [if_pos (by omega), sub_cast (by decide) hr, hn, hz]
    ring

/-- The square of x is a fourth power exactly if x is a square. -/
theorem isSquare_iff_fourth (x : ZMod p) : (∃ y : ZMod p, y ^ 4 = x * x) ↔ IsSquare x := by
  constructor
  · rintro ⟨y, hy⟩
    have hs : y ^ 2 * y ^ 2 = x * x := by rw [← hy]; ring
    rcases mul_self_eq_mul_self_iff.mp hs with h | h
    · exact ⟨y, by rw [← h]; ring⟩
    · have hm : IsSquare (-1 : ZMod p) := ZMod.exists_sq_eq_neg_one_iff.mpr (by decide)
      have hx : x = -1 * (y * y) := by linear_combination h
      rw [hx]
      exact hm.mul ⟨y, rfl⟩
  · rintro ⟨y, rfl⟩
    exact ⟨y, by ring⟩

theorem dConst_ne : (dConst.val : ZMod p) + 1 ≠ 0 := by
  rw [dConst, fromBytes_val rfl, ZMod.natCast_mod, ← Nat.cast_one, ← Nat.cast_add, ne_eq,
    ZMod.natCast_eq_zero_iff]
  decide +kernel

/-- The curve equation, solved for the square of the first coordinate. -/
theorem curve_solved {x y : ZMod p} (h : y ^ 2 - x ^ 2 = 1 + dConst.val * x ^ 2 * y ^ 2) :
    (y * y - 1) * (dConst.val * (y * y) + 1)⁻¹ = x * x := by
  have hs : y * y - 1 = x * x * (dConst.val * (y * y) + 1) := by linear_combination h
  have hne : (dConst.val : ZMod p) * (y * y) + 1 ≠ 0 := by
    intro hz
    rw [hz, mul_zero, sub_eq_zero] at hs
    exact dConst_ne (by rw [← hz, hs, mul_one])
  rw [hs, mul_inv_cancel_right₀ hne]

theorem fromBytes_leBytes {y : Fe} (hy : y.val < p) : fromBytes (leBytes 32 y.val) = y := by
  have hlt : y.val < 256 ^ 32 := y.val_lt
  apply val_inj
  rw [fromBytes_val (leBytes_length _ _), leNat_leBytes, Nat.mod_eq_of_lt hlt, Nat.mod_eq_of_lt hy]

/-- Decoding an encoded point depends on the root of its x squared alone. -/
theorem decode_encode_eq {pt : ExtendedPoint} (h : pt.Valid) :
    ∃ x y x2 : Fe, x.val < p ∧ pt.affine = (↑x.val, ↑y.val) ∧ (x2.val : ZMod p) = x.val * x.val
      ∧ decode pt.encode = x2.sqrtD2.map fun r =>
        let r' := if (if r.isNegative then 1 else 0 : UInt8) ≠ (if x.isNegative then 1 else 0)
          then ZERO.sub r else r
        ⟨r', y, ONE, r'.mul y⟩ := by
  obtain ⟨hi, -⟩ := invert_spec pt.z
  have hcx := mul_cast pt.x pt.z.invert
  have hcy := mul_cast pt.y pt.z.invert
  have hx := mul_lt pt.x pt.z.invert
  have hy := mul_lt pt.y pt.z.invert
  rw [hi, ← div_eq_mul_inv] at hcx hcy
  have ha : pt.affine = (↑(pt.x.mul pt.z.invert).val, ↑(pt.y.mul pt.z.invert).val) := by
    rw [hcx, hcy, affine]
  have hc := h.curve
  rw [ha] at hc
  rw [encode]
  generalize pt.x.mul pt.z.invert = x at *
  generalize pt.y.mul pt.z.invert = y at *
  refine ⟨x, y, (y.square.sub ONE).mul ((dConst.mul y.square).add ONE).invert, hx, ha, ?_, ?_⟩
  · have hsub := sub_cast (a := y.square) (b := ONE) (mul_lt _ _) (by decide)
    rw [mul_cast, (invert_spec _).1, add_cast (mul_lt _ _) (by decide), hsub, mul_cast, square,
      mul_cast, one_cast, curve_solved hc]
  · have hp := p_add
    obtain ⟨hb, hs⟩ := sign_read_back (v := y.val) (by omega) x.isNegative rfl
    rw [toBytes_eq, Nat.mod_eq_of_lt hy, decode]
    simp only [hb, hs, fromBytes_leBytes hy]
    rw [Option.map_eq_bind]
    rfl

theorem affine_valid {x y : Fe}
    (h : (y.val : ZMod p) ^ 2 - x.val ^ 2 = 1 + dConst.val * x.val ^ 2 * y.val ^ 2) :
    Valid ⟨x, y, ONE, x.mul y⟩ ∧ affine ⟨x, y, ONE, x.mul y⟩ = (↑x.val, ↑y.val) := by
  have ha : affine ⟨x, y, ONE, x.mul y⟩ = (↑x.val, ↑y.val) := by
    rw [affine, one_cast, div_one, div_one]
  refine ⟨⟨by rw [one_cast]; exact one_ne_zero, ?_, by rw [ha]; exact h⟩, ha⟩
  rw [one_cast, one_mul, mul_cast]

/-- An encoded point is decoded exactly if its x is a square. -/
theorem decode_isSome_iff {pt : ExtendedPoint} (h : pt.Valid) :
    (decode pt.encode).isSome ↔ IsSquare pt.affine.1 := by
  obtain ⟨x, y, x2, -, ha, hx, hd⟩ := decode_encode_eq h
  rw [ha, hd, Option.isSome_map, sqrtD2_isSome_iff ⟨_, hx⟩, hx, isSquare_iff_fourth]

/-- A decoded point has the coordinates of the one encoded. -/
theorem decode_some {pt q : ExtendedPoint} (h : pt.Valid) (hq : decode pt.encode = some q) :
    q.Valid ∧ q.affine = pt.affine := by
  obtain ⟨x, y, x2, hx, ha, hx2, hd⟩ := decode_encode_eq h
  rw [hd] at hq
  obtain ⟨r, hr, rfl⟩ := Option.map_eq_some_iff.mp hq
  obtain ⟨hs, hlt⟩ := sqrtD2_some hr
  have hroot := signed_root hlt hx (hs.trans hx2)
  have hc := h.curve
  rw [ha, ← hroot] at hc ⊢
  exact affine_valid hc

/-- The root is found when the first coordinate is a square, and then the sign is right. -/
theorem decode_encode_iff {pt : ExtendedPoint} (h : pt.Valid) :
    (∃ q, decode pt.encode = some q ∧ q.Valid ∧ q.affine = pt.affine) ↔ IsSquare pt.affine.1 := by
  rw [← decode_isSome_iff h, Option.isSome_iff_exists]
  exact exists_congr fun q => and_iff_left_of_imp (decode_some h)

/-- A point of the curve with second coordinate nine. -/
def ninthPoint : ExtendedPoint :=
  let x : Fe :=
    ⟨0xfcaba1a10a1ae008, 0x06686b183a9141b4, 0x6500844c12ef76c3, 0x2e6c8264fea9d66c⟩
  ⟨x, ⟨9, 0, 0, 0⟩, ONE, x.mul ⟨9, 0, 0, 0⟩⟩

def ninthRoot : Nat :=
  25507707152638071145831792168355492197714817856580771341385291404758274993616

/-- A pair that meets the curve equation modulo p is a point. -/
theorem affine_valid_of_mod {x y : Fe} (h : y.val ^ 2 % p
      = (1 + dConst.val * x.val ^ 2 * y.val ^ 2 + x.val ^ 2) % p) :
    Valid ⟨x, y, ONE, x.mul y⟩ ∧ affine ⟨x, y, ONE, x.mul y⟩ = (↑x.val, ↑y.val) := by
  have hc := (ZMod.natCast_eq_natCast_iff' _ _ p).mpr h
  push_cast at hc
  exact affine_valid (by linear_combination hc)

theorem decode_encode_ninth : ∃ q, decode ninthPoint.encode = some q ∧ q.Valid
    ∧ q.affine = ninthPoint.affine := by
  obtain ⟨hv, ha⟩ := affine_valid_of_mod (x := ninthPoint.x) (y := ninthPoint.y) (by decide +kernel)
  have hr := (ZMod.natCast_eq_natCast_iff' ninthPoint.x.val (ninthRoot * ninthRoot) p).mpr
    (by decide +kernel)
  refine (decode_encode_iff hv).mpr ?_
  rw [ha, hr, Nat.cast_mul]
  exact ⟨_, rfl⟩

/-- A point of the curve with second coordinate three. -/
def thirdPoint : ExtendedPoint :=
  let x : Fe :=
    ⟨0xfef6e61f01ae05e2, 0x1c0d964bdd30bc07, 0xf448af58b1ef2831, 0x68febfd42613608e⟩
  ⟨x, ⟨3, 0, 0, 0⟩, ONE, x.mul ⟨3, 0, 0, 0⟩⟩

theorem decode_encode_third : thirdPoint.Valid ∧ decode thirdPoint.encode = none := by
  obtain ⟨hv, ha⟩ := affine_valid_of_mod (x := thirdPoint.x) (y := thirdPoint.y) (by decide +kernel)
  have hn : (2 ^ 252 - 2) * 2 < 2 ^ 256 := by decide
  refine ⟨hv, ?_⟩
  rw [← Option.not_isSome_iff_eq_none]
  refine (decode_isSome_iff hv).not.mpr ?_
  rw [ha, ← isSquare_iff_fourth, ← first_root_iff, ← pow_mul, ← Nat.cast_mul, ← powMod_cast hn,
    ZMod.natCast_eq_natCast_iff']
  decide +kernel

end ExtendedPoint

end AdbFastboot
