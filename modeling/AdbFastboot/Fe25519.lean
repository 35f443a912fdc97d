import Mathlib.FieldTheory.Finite.Basic
import Mathlib.Tactic.LinearCombination
import AdbFastboot.Bytes
import AdbFastboot.LimbArith
import AdbFastboot.LucasPrime

namespace AdbFastboot

open List

structure Fe where
  l0 : UInt64
  l1 : UInt64
  l2 : UInt64
  l3 : UInt64
deriving DecidableEq

namespace Fe

/-- The modulus of the field of Curve25519. -/
def p : Nat := 2 ^ 255 - 19

theorem p_prime : p.Prime := by
  have h1 : Nat.Prime 1919519569386763 :=
    lucasTest_prime 2 [2, 3, 7, 19, 47, 47, 127, 8574133] []
      (by decide +kernel) (by norm_num) (by simp)
  have h2 : Nat.Prime 2773320623 :=
    lucasTest_prime 5 [2, 2437, 569003] [] (by decide +kernel) (by norm_num) (by simp)
  have h3 : Nat.Prime 72106336199 :=
    lucasTest_prime 7 [2, 13] [2773320623] (by decide +kernel) (by norm_num) (by simp [h2])
  have h4 : Nat.Prime 31757755568855353 :=
    lucasTest_prime 10 [2, 2, 2, 3, 31, 107, 223, 4153, 430751] []
      (by decide +kernel) (by norm_num) (by simp)
  have h5 : Nat.Prime 75445702479781427272750846543864801 :=
    lucasTest_prime 7 [2, 2, 2, 2, 2, 3, 3, 5, 5, 75707] [72106336199, 1919519569386763]
      (by decide +kernel) (by norm_num) (by simp [h1, h3])
  have h6 : Nat.Prime 74058212732561358302231226437062788676166966415465897661863160754340907 :=
    lucasTest_prime 2 [2, 3, 353, 57467, 132049, 1923133]
      [31757755568855353, 75445702479781427272750846543864801]
      (by decide +kernel) (by norm_num) (by simp [h4, h5])
  exact lucasTest_prime 2 [2, 2, 3, 65147]
    [74058212732561358302231226437062788676166966415465897661863160754340907]
    (by decide +kernel) (by norm_num) (by simp [h6])

theorem p_add : p + 19 = 2 ^ 255 := rfl

instance : Fact p.Prime := ⟨p_prime⟩

def ZERO : Fe := ⟨0, 0, 0, 0⟩

def ONE : Fe := ⟨1, 0, 0, 0⟩

def P : Fe :=
  ⟨0xffff_ffff_ffff_ffed, 0xffff_ffff_ffff_ffff, 0xffff_ffff_ffff_ffff, 0x7fff_ffff_ffff_ffff⟩

def limbs (fe : Fe) : List UInt64 := [fe.l0, fe.l1, fe.l2, fe.l3]

def ofLimbs (ls : List UInt64) : Fe := ⟨ls.getD 0 0, ls.getD 1 0, ls.getD 2 0, ls.getD 3 0⟩

def val (fe : Fe) : Nat := limbsNat fe.limbs

/-- The limbs of `m * a + b + carry`, and what is carried out of them. Two `overflowing_add` in
`u64` are one sum in `u128`. -/
def mulAddLoop (m : UInt64) (a b : Fe) (carry : Nat) : Fe × Nat :=
  let r := mulAdd m a.limbs b.limbs carry
  (ofLimbs r.1, r.2)

def subLoop (a b : Fe) : Fe × UInt64 :=
  let r := subBorrow a.limbs b.limbs 0
  (ofLimbs r.1, r.2)

/-- The comparison of the limbs from the highest down. -/
def gteLimbs : List UInt64 → List UInt64 → Bool
  | x :: xs, y :: ys => if x > y then true else if x < y then false else gteLimbs xs ys
  | _, _ => true

def gteP (fe : Fe) : Bool := gteLimbs fe.limbs.reverse P.limbs.reverse

def subP (fe : Fe) : Fe := (subLoop fe P).1

def reduce (fe : Fe) : Fe :=
  let b255 := fe.l3 >>> 63
  let fe := { fe with l3 := fe.l3 &&& 0x7fff_ffff_ffff_ffff }
  let fe :=
    if b255 ≠ 0 then
      let sum := mulAddLoop 1 fe ZERO 19
      if sum.2 > 0 then (mulAddLoop 1 sum.1 ZERO (sum.2 * 19)).1 else sum.1
    else fe
  if fe.gteP then fe.subP else fe

/-- The limbs of a byte string, eight bytes each. -/
def limbsOfBytes : Nat → Bytes → List UInt64
  | 0, _ => []
  | n + 1, bytes => u64OfLe (bytes.take 8) :: limbsOfBytes n (bytes.drop 8)

def fromBytes (bytes : Bytes) : Fe := (ofLimbs (limbsOfBytes 4 bytes)).reduce

def add (a b : Fe) : Fe :=
  let sum := mulAddLoop 1 a b 0
  let fe := if sum.2 > 0 then (mulAddLoop 1 sum.1 ZERO (sum.2 * 38)).1 else sum.1
  if fe.gteP then fe.subP else fe

def sub (a b : Fe) : Fe :=
  let diff := subLoop a b
  if diff.2 > 0 then (mulAddLoop 1 diff.1 P 0).1 else diff.1

section

variable (a b : Fe)

theorem val_eq : a.val = a.l0.toNat + 2 ^ 64 * (a.l1.toNat + 2 ^ 64 * (a.l2.toNat
    + 2 ^ 64 * a.l3.toNat)) := rfl

theorem val_lt : a.val < 2 ^ 256 := limbsNat_lt a.limbs

theorem limb_lt : a.l0.toNat < 2 ^ 64 ∧ a.l1.toNat < 2 ^ 64 ∧ a.l2.toNat < 2 ^ 64
    ∧ a.l3.toNat < 2 ^ 64 :=
  ⟨a.l0.toNat_lt, a.l1.toNat_lt, a.l2.toNat_lt, a.l3.toNat_lt⟩

theorem val_P : P.val = p := by decide +kernel

theorem val_ofLimbs {ls : List UInt64} (h : ls.length = 4) : (ofLimbs ls).val = limbsNat ls := by
  match ls, h with
  | [_, _, _, _], _ => rfl

/-- The carry loop computes m * a + b + c, its high part included. -/
theorem mulAddLoop_spec (m : UInt64) {c : Nat} (hc : c < 2 ^ 64) :
    (mulAddLoop m a b c).1.val + 2 ^ 256 * (mulAddLoop m a b c).2 = m.toNat * a.val + b.val + c := by
  have hl : a.limbs.length = b.limbs.length := rfl
  obtain ⟨heq, hs, -⟩ := mulAdd_spec (a := m) hl hc
  rw [mulAddLoop, val_ofLimbs hs]
  exact heq

/-- The borrow loop subtracts, and borrows at most once from beyond the limbs. -/
theorem subLoop_spec : a.val + 2 ^ 256 * (subLoop a b).2.toNat = (subLoop a b).1.val + b.val
    ∧ (subLoop a b).2.toNat ≤ 1 := by
  have hl : a.limbs.length = b.limbs.length := rfl
  obtain ⟨heq, hs, hle⟩ := subBorrow_spec hl (c := 0) (by decide)
  rw [subLoop, val_ofLimbs hs]
  exact ⟨heq, hle⟩

/-- The comparison of the limbs is the comparison with p. -/
theorem gteP_iff : a.gteP = true ↔ p ≤ a.val := by
  have hl := a.limb_lt
  simp only [gteP, limbs, P, reverse_cons, reverse_nil, nil_append, cons_append, gteLimbs, gt_iff_lt,
    UInt64.lt_iff_toNat_lt, UInt64.reduceToNat, val_eq, p]
  split_ifs <;> simp <;> omega

theorem subP_val (h : p ≤ a.val) : a.subP.val = a.val - p := by
  obtain ⟨heq, hle⟩ := subLoop_spec a P
  have hlt := (subLoop a P).1.val_lt
  rw [val_P] at heq
  rw [subP]
  omega

theorem ite_subP_val (h : a.val < 2 * p) : (if a.gteP then a.subP else a).val = a.val % p := by
  split
  next hge =>
    rw [gteP_iff] at hge
    rw [subP_val a hge, Nat.mod_eq_sub_mod hge, Nat.mod_eq_of_lt (by omega)]
  next hlt =>
    rw [gteP_iff] at hlt
    rw [Nat.mod_eq_of_lt (by omega)]

theorem mask_val : { a with l3 := a.l3 &&& 0x7fff_ffff_ffff_ffff }.val < 2 ^ 255
    ∧ a.val = { a with l3 := a.l3 &&& 0x7fff_ffff_ffff_ffff }.val
      + if a.l3 >>> 63 ≠ 0 then 2 ^ 255 else 0 := by
  have hm : (a.l3 &&& 0x7fff_ffff_ffff_ffff).toNat = a.l3.toNat % 2 ^ 63 := by
    rw [UInt64.toNat_and]
    exact Nat.and_two_pow_sub_one_eq_mod _ 63
  have ht : (a.l3 >>> 63).toNat = a.l3.toNat / 2 ^ 63 := by
    rw [UInt64.toNat_shiftRight]
    exact Nat.shiftRight_eq_div_pow _ 63
  have hl := a.limb_lt
  simp only [val_eq, hm, ne_eq, ← UInt64.toNat_inj, ht, UInt64.reduceToNat]
  constructor
  · omega
  · split <;> omega

/-- `reduce` brings any value of 256 bits below p. -/
theorem reduce_val : a.reduce.val = a.val % p := by
  have hp := p_add
  obtain ⟨hlt, hv⟩ := mask_val a
  rw [reduce, hv]
  generalize { a with l3 := a.l3 &&& 0x7fff_ffff_ffff_ffff } = fe at *
  dsimp only
  split
  next =>
    have hs := mulAddLoop_spec fe ZERO 1 (c := 19) (by decide)
    change _ = 1 * _ + 0 + 19 at hs
    have hn : ¬ (mulAddLoop 1 fe ZERO 19).2 > 0 := by omega
    rw [if_neg hn, ite_subP_val _ (by omega)]
    have hf : fe.val + 2 ^ 255 = (mulAddLoop 1 fe ZERO 19).1.val + p := by omega
    rw [hf, Nat.add_mod_right]
  next => rw [ite_subP_val fe (by omega), Nat.add_zero]

theorem leNat_append (xs ys : Bytes) : leNat (xs ++ ys) = leNat xs + 256 ^ xs.length * leNat ys := by
  induction xs with
  | nil => simp [leNat]
  | cons x xs ih =>
    rw [cons_append, leNat, leNat, ih, length_cons, pow_succ]
    ring

/-- Eight bytes at a time make the limbs of a number. -/
theorem limbsOfBytes_spec (n : Nat) {bytes : Bytes} (h : bytes.length = 8 * n) :
    limbsNat (limbsOfBytes n bytes) = leNat bytes ∧ (limbsOfBytes n bytes).length = n := by
  induction n generalizing bytes with
  | zero =>
    obtain rfl := length_eq_zero_iff.mp h
    exact ⟨rfl, rfl⟩
  | succ n ih =>
    have hc := leNat_append (bytes.take 8) (bytes.drop 8)
    have hl := leNat_lt (bytes.take 8)
    have hw : (u64OfLe (bytes.take 8)).toNat = leNat (bytes.take 8) := by
      rw [length_take_of_le (by omega)] at hl
      exact UInt64.toNat_ofNat_of_lt' hl
    have hd : (bytes.drop 8).length = 8 * n := by rw [length_drop]; omega
    obtain ⟨heq, hlen⟩ := ih hd
    rw [take_append_drop, length_take_of_le (by omega)] at hc
    exact ⟨by rw [limbsOfBytes, limbsNat, hw, heq, hc]; rfl, congrArg (· + 1) hlen⟩

/-- 32 bytes are read as a number modulo p. -/
theorem fromBytes_val {bytes : Bytes} (h : bytes.length = 32) :
    (fromBytes bytes).val = leNat bytes % p := by
  obtain ⟨heq, hl⟩ := limbsOfBytes_spec 4 h
  rw [fromBytes, reduce_val, val_ofLimbs hl, heq]

theorem add_val (ha : a.val < p) (hb : b.val < p) : (a.add b).val = (a.val + b.val) % p := by
  have hp := p_add
  have hs := mulAddLoop_spec a b 1 (c := 0) (by decide)
  change _ = 1 * _ + _ + 0 at hs
  have heq : (mulAddLoop 1 a b 0).1.val = a.val + b.val := by omega
  have hn : ¬ (mulAddLoop 1 a b 0).2 > 0 := by omega
  rw [add, if_neg hn, ite_subP_val _ (by omega), heq]

theorem sub_val (ha : a.val < p) (hb : b.val < p) : (a.sub b).val = (a.val + (p - b.val)) % p := by
  have hp := p_add
  obtain ⟨heq, hle⟩ := subLoop_spec a b
  have hlt := (subLoop a b).1.val_lt
  rw [sub]
  split
  next hborrow =>
    have hs := mulAddLoop_spec (subLoop a b).1 P 1 (c := 0) (by decide)
    have ho := (mulAddLoop 1 (subLoop a b).1 P 0).1.val_lt
    rw [val_P] at hs
    change _ = 1 * _ + _ + 0 at hs
    rw [gt_iff_lt, UInt64.lt_iff_toNat_lt] at hborrow
    change 0 < _ at hborrow
    rw [Nat.mod_eq_of_lt (by omega)]
    omega
  next hborrow =>
    rw [gt_iff_lt, UInt64.lt_iff_toNat_lt] at hborrow
    change ¬ 0 < _ at hborrow
    have hd : a.val + (p - b.val) = (subLoop a b).1.val + p := by omega
    rw [hd, Nat.add_mod_right, Nat.mod_eq_of_lt (by omega)]

theorem normalized_lt {fe : Fe} (h : fe.gteP = true) : fe.subP.val < fe.val := by
  have hge := (gteP_iff fe).mp h
  have hp := p_add
  rw [subP_val fe hge]
  omega

/-- Another carry past the limbs is at most one. -/
theorem mulAddLoop_carry (r : Fe) {c : Nat} (hc : c < 2 ^ 64) : (mulAddLoop 1 r ZERO c).2 ≤ 1 := by
  have hs := mulAddLoop_spec r ZERO 1 hc
  have hr := r.val_lt
  change _ = 1 * _ + 0 + _ at hs
  omega

end

def normalized (fe : Fe) : Fe := if fe.gteP then fe.subP.normalized else fe
termination_by fe.val
decreasing_by exact normalized_lt ‹_›

/-- The loop of `mul` that folds the carry back into the limbs while there is one. -/
def foldCarry (r : Fe) (extraCarry : Nat) (hextra : extraCarry < 2 ^ 64) : Fe :=
  if extraCarry = 0 then r
  else
    foldCarry (mulAddLoop 1 r ZERO extraCarry).1 ((mulAddLoop 1 r ZERO extraCarry).2 * 38)
      (by have := mulAddLoop_carry r hextra; omega)
termination_by r.val + extraCarry + min extraCarry 1
decreasing_by
  have hsum := mulAddLoop_spec r ZERO 1 hextra
  change _ = 1 * _ + 0 + _ at hsum
  omega

/-- The carries of the two folds of the high half stay within a limb. -/
theorem high_carry {lo hi : Fe} :
    ((mulAddLoop 1 lo (mulAddLoop 38 hi ZERO 0).1 0).2 + (mulAddLoop 38 hi ZERO 0).2) * 38
      < 2 ^ 64 := by
  have hh := mulAddLoop_spec hi ZERO 38 (c := 0) (by decide)
  have hs := mulAddLoop_spec lo (mulAddLoop 38 hi ZERO 0).1 1 (c := 0) (by decide)
  have hl := lo.val_lt
  have hhi := hi.val_lt
  have hm := (mulAddLoop 38 hi ZERO 0).1.val_lt
  change _ = 38 * _ + 0 + 0 at hh
  change _ = 1 * _ + _ + 0 at hs
  omega

def mul (a b : Fe) : Fe :=
  let w := mulRows a.limbs b.limbs ZERO.limbs
  let h38 := mulAddLoop 38 (ofLimbs (w.drop 4)) ZERO 0
  let r := mulAddLoop 1 (ofLimbs (w.take 4)) h38.1 0
  (foldCarry r.1 ((r.2 + h38.2) * 38) high_carry).normalized

def square (fe : Fe) : Fe := fe.mul fe

section

variable (a b : Fe)

/-- Subtracting p as long as possible gives the value modulo p. -/
theorem normalized_val : a.normalized.val = a.val % p := by
  fun_induction normalized a with
  | case1 fe h ih =>
    have hge := (gteP_iff fe).mp h
    rw [ih, subP_val fe hge, ← Nat.mod_eq_sub_mod hge]
  | case2 fe h =>
    rw [gteP_iff] at h
    rw [Nat.mod_eq_of_lt (by omega)]

/-- What overflows 256 bits counts 38 times modulo p. -/
theorem two_pow_256 : ((2 ^ 256 : Nat) : ZMod p) = (38 : Nat) :=
  (ZMod.natCast_eq_natCast_iff' _ _ p).mpr (by decide +kernel)

theorem mulAddLoop_cast (m : UInt64) {c : Nat} (hc : c < 2 ^ 64) :
    ((mulAddLoop m a b c).1.val : ZMod p) + 38 * (mulAddLoop m a b c).2
      = m.toNat * a.val + b.val + c := by
  have hs := congrArg (Nat.cast (R := ZMod p)) (mulAddLoop_spec a b m hc)
  rw [Nat.cast_add, Nat.cast_mul, two_pow_256] at hs
  exact_mod_cast hs

theorem foldCarry_cast {r : Fe} {c : Nat} (hc : c < 2 ^ 64) :
    ((foldCarry r c hc).val : ZMod p) = r.val + c := by
  fun_induction foldCarry r c hc with
  | case1 r => simp
  | case2 r c hc hne ih =>
    have hs := mulAddLoop_cast r ZERO 1 hc
    have hz : ZERO.val = 0 := rfl
    push_cast [hz, UInt64.toNat_one] at hs ih
    linear_combination ih + hs

/-- The product of the limbs is the product modulo p. -/
theorem mul_cast : ((a.mul b).val : ZMod p) = a.val * b.val := by
  have hlen : ZERO.limbs.length = b.limbs.length := rfl
  obtain ⟨heq, hs⟩ := mulRows_spec a.limbs hlen
  rw [mul, normalized_val, ZMod.natCast_mod, foldCarry_cast]
  generalize mulRows a.limbs b.limbs ZERO.limbs = w at *
  have hc := limbsNat_append (w.take 4) (w.drop 4)
  have hl : (w.take 4).length = 4 := by rw [length_take, hs]; rfl
  have hhi : (w.drop 4).length = 4 := by rw [length_drop, hs]; rfl
  rw [take_append_drop, heq, hl, ← val_ofLimbs hl, ← val_ofLimbs hhi] at hc
  generalize ofLimbs (w.take 4) = lo at *
  generalize ofLimbs (w.drop 4) = hi at *
  have hp := congrArg (Nat.cast (R := ZMod p)) hc
  have hh := mulAddLoop_cast hi ZERO 38 (c := 0) (by decide)
  have hsum := mulAddLoop_cast lo (mulAddLoop 38 hi ZERO 0).1 1 (c := 0) (by decide)
  have hz : ZERO.val = 0 := rfl
  have h38 : (38 : UInt64).toNat = 38 := rfl
  change ((a.val * b.val + 0 : Nat) : ZMod p) = ((_ + 2 ^ 256 * _ : Nat) : ZMod p) at hp
  rw [Nat.cast_add (lo.val), Nat.cast_mul (2 ^ 256), two_pow_256] at hp
  push_cast [hz, h38, UInt64.toNat_one] at hh hsum hp ⊢
  linear_combination hh + hsum - hp

theorem mul_lt : (a.mul b).val < p := by
  rw [mul, normalized_val]
  exact Nat.mod_lt _ (by decide)

/-- What equals a number in the field and is below `p` is that number modulo `p`. -/
theorem eq_mod_of_cast {x y : Nat} (hx : x < p) (h : (x : ZMod p) = y) : x = y % p := by
  rw [← Nat.mod_eq_of_lt hx]
  exact (ZMod.natCast_eq_natCast_iff' x y p).mp h

end

def limbBits (limb : UInt64) : List Bool :=
  (range 64).map fun b => (limb >>> UInt64.ofNat b) &&& 1 = 1

/-- The loop over the first `count` bits of an exponent, the lowest first. -/
def powLoop (exp : List UInt64) (count : Nat) (fe : Fe) : Fe :=
  (((exp.flatMap limbBits).take count).foldl
    (fun s bit => (if bit then s.1.mul s.2 else s.1, s.2.square)) (ONE, fe)).1

def pMinus2 : List UInt64 :=
  [0xffff_ffff_ffff_ffeb, 0xffff_ffff_ffff_ffff, 0xffff_ffff_ffff_ffff, 0x7fff_ffff_ffff_ffff]

def pow2255m21 (fe : Fe) : Fe := powLoop pMinus2 255 fe

def invert (fe : Fe) : Fe := fe.pow2255m21

def bitsNat : List Bool → Nat
  | [] => 0
  | bit :: bits => bit.toNat + 2 * bitsNat bits

variable (a b : Fe)

theorem pow_fold_spec (bits : List Bool) {s : Fe × Fe} (hs : s.1.val < p) :
    let t := bits.foldl (fun s bit => (if bit then s.1.mul s.2 else s.1, s.2.square)) s
    (t.1.val : ZMod p) = s.1.val * (s.2.val : ZMod p) ^ bitsNat bits ∧ t.1.val < p := by
  induction bits generalizing s with
  | nil => simpa [bitsNat] using hs
  | cons bit bits ih =>
    rw [foldl_cons]
    have hstep : (if bit then s.1.mul s.2 else s.1).val < p := by
      split
      next => exact mul_lt _ _
      next => exact hs
    obtain ⟨heq, hlt⟩ := ih (s := (if bit then s.1.mul s.2 else s.1, s.2.square)) hstep
    refine ⟨?_, hlt⟩
    rw [heq, square, mul_cast, bitsNat, pow_add, pow_mul, ← pow_two]
    cases bit with
    | false => simp
    | true => simp [mul_cast, mul_assoc]

/-- Square and multiply over the bits of the exponent is the power. -/
theorem powLoop_spec (exp : List UInt64) (count : Nat) : ((powLoop exp count a).val : ZMod p)
        = (a.val : ZMod p) ^ bitsNat ((exp.flatMap limbBits).take count)
      ∧ (powLoop exp count a).val < p := by
  have ho : (ONE, a).1.val = 1 := rfl
  have h := pow_fold_spec ((exp.flatMap limbBits).take count) (s := (ONE, a)) (ho ▸ by decide)
  simp only [ho, Nat.cast_one, one_mul] at h
  exact h

/-- `invert` is the inverse in the field of p elements. -/
theorem invert_spec : (a.invert.val : ZMod p) = (a.val : ZMod p)⁻¹ ∧ a.invert.val < p := by
  obtain ⟨heq, hlt⟩ := powLoop_spec a pMinus2 255
  refine ⟨?_, hlt⟩
  have hexp : bitsNat ((pMinus2.flatMap limbBits).take 255) = p - 2 := by decide +kernel
  have hp : p - 2 + 1 = p - 1 := rfl
  rw [invert, pow2255m21, heq, hexp]
  by_cases hz : (a.val : ZMod p) = 0
  · rw [hz, zero_pow (by decide), inv_zero]
  · apply eq_inv_of_mul_eq_one_left
    rw [← pow_succ, hp, ZMod.pow_card_sub_one_eq_one hz]

/-- The operations of the field are exact, and their results are below the modulus. -/
theorem field_ops_exact {a b : Fe} (ha : a.val < p) (hb : b.val < p) {bytes : Bytes}
    (hlen : bytes.length = 32) :
    (fromBytes bytes).val = leNat bytes % p ∧ (a.add b).val = (a.val + b.val) % p
      ∧ (a.sub b).val = (a.val + (p - b.val)) % p ∧ (a.mul b).val = a.val * b.val % p
      ∧ a.invert.val < p ∧ (a.val ≠ 0 → a.val * a.invert.val % p = 1) := by
  obtain ⟨hi, hlt⟩ := invert_spec a
  refine ⟨fromBytes_val hlen, add_val a b ha hb, sub_val a b ha hb,
    eq_mod_of_cast (mul_lt a b) (by rw [mul_cast, Nat.cast_mul]), hlt, fun hne => ?_⟩
  have hu : (a.val : ZMod p) ≠ 0 := by
    rw [ne_eq, ZMod.natCast_eq_zero_iff]
    exact fun hd => hne (Nat.eq_zero_of_dvd_of_lt hd ha)
  refine (eq_mod_of_cast (by decide) ?_).symm
  rw [Nat.cast_mul, hi, mul_inv_cancel₀ hu, Nat.cast_one]

theorem field_ops_exact_two : (⟨2, 0, 0, 0⟩ : Fe).val * (⟨2, 0, 0, 0⟩ : Fe).invert.val % p = 1
      ∧ (fromBytes (replicate 32 255)).val = leNat (replicate 32 255) % p := by
  have h : (⟨2, 0, 0, 0⟩ : Fe).val < p := by decide
  obtain ⟨hb, -, -, -, -, hi⟩ := field_ops_exact h h (length_replicate (n := 32) (a := 255))
  exact ⟨hi (by decide), hb⟩

end Fe

end AdbFastboot
