import Mathlib.Data.UInt
import Mathlib.Tactic.Ring

namespace AdbFastboot

/-- The number whose 64-bit limbs are given, the lowest first. -/
def limbsNat : List UInt64 → Nat
  | [] => 0
  | x :: xs => x.toNat + 2 ^ 64 * limbsNat xs

/-- A loop over limbs that leaves the low 64 bits of `a * x + y` and a carry in each, and passes
the high bits on. The sums are in `u128`. -/
def mulAdd (a : UInt64) : List UInt64 → List UInt64 → Nat → List UInt64 × Nat
  | x :: xs, y :: ys, carry =>
    let sum := (a.toNat * x.toNat + y.toNat + carry) % 2 ^ 128
    let rest := mulAdd a xs ys (sum / 2 ^ 64)
    (UInt64.ofNat sum :: rest.1, rest.2)
  | _, _, carry => ([], carry)

/-- A loop over limbs that subtracts twice with `overflowing_sub` in each. -/
def subBorrow : List UInt64 → List UInt64 → UInt64 → List UInt64 × UInt64
  | x :: xs, y :: ys, borrow =>
    let rest := subBorrow xs ys ((if x < y then 1 else 0) + if x - y < borrow then 1 else 0)
    ((x - y - borrow) :: rest.1, rest.2)
  | _, _, borrow => ([], borrow)

/-- Schoolbook multiplication: each limb of the first factor adds a row to the window `w` of the
result, whose lowest limb is then final. -/
def mulRows : List UInt64 → List UInt64 → List UInt64 → List UInt64
  | [], _, w => w
  | x :: xs, ys, w =>
    let row := mulAdd x ys w 0
    match row.1 ++ [UInt64.ofNat row.2] with
    | [] => []
    | low :: window => low :: mulRows xs ys window

variable {a : UInt64} {xs ys w : List UInt64}

theorem limbsNat_lt (xs : List UInt64) : limbsNat xs < 2 ^ (64 * xs.length) := by
  induction xs with
  | nil => exact Nat.one_pos
  | cons x xs ih =>
    have hx := x.toNat_lt
    rw [List.length_cons, Nat.mul_succ, Nat.add_comm, Nat.pow_add, limbsNat]
    omega

theorem limbsNat_append (xs ys : List UInt64) :
    limbsNat (xs ++ ys) = limbsNat xs + 2 ^ (64 * xs.length) * limbsNat ys := by
  induction xs with
  | nil => simp [limbsNat]
  | cons x xs ih =>
    rw [List.cons_append, limbsNat, limbsNat, ih, List.length_cons, Nat.mul_succ, pow_add]
    ring

theorem toNat_ofNat_add (n : Nat) : (UInt64.ofNat n).toNat + 2 ^ 64 * (n / 2 ^ 64) = n := by
  rw [UInt64.toNat_ofNat']
  exact Nat.mod_add_div n _

/-- The product of two limbs leaves room for two more limbs in 128 bits. -/
theorem product_lt {x y : UInt64} {carry : Nat} (hc : carry < 2 ^ 64) :
    a.toNat * x.toNat + y.toNat + carry < 2 ^ 128 := by
  have ha := a.toNat_lt
  have hx := x.toNat_lt
  have hy := y.toNat_lt
  have hp : a.toNat * x.toNat ≤ (2 ^ 64 - 1) * (2 ^ 64 - 1) :=
    Nat.mul_le_mul (by omega) (by omega)
  omega

/-- One row of the product, with its carry. -/
theorem mulAdd_spec (h : xs.length = ys.length) {c : Nat} (hc : c < 2 ^ 64) :
    limbsNat (mulAdd a xs ys c).1 + 2 ^ (64 * xs.length) * (mulAdd a xs ys c).2
        = a.toNat * limbsNat xs + limbsNat ys + c
      ∧ (mulAdd a xs ys c).1.length = xs.length ∧ (mulAdd a xs ys c).2 < 2 ^ 64 := by
  induction xs generalizing ys c with
  | nil =>
    obtain rfl := List.length_eq_zero_iff.mp h.symm
    exact ⟨by simp [mulAdd, limbsNat], rfl, hc⟩
  | cons x xs ih =>
    obtain ⟨y, ys, rfl⟩ := List.exists_cons_of_length_eq_add_one h.symm
    have hlt := product_lt (a := a) (x := x) (y := y) hc
    have hlow := toNat_ofNat_add (a.toNat * x.toNat + y.toNat + c)
    have hd : (a.toNat * x.toNat + y.toNat + c) / 2 ^ 64 < 2 ^ 64 := by omega
    obtain ⟨heq, hl, hcarry⟩ := ih (Nat.succ.inj h) hd
    rw [mulAdd, Nat.mod_eq_of_lt hlt]
    refine ⟨?_, congrArg (· + 1) hl, hcarry⟩
    generalize (a.toNat * x.toNat + y.toNat + c) / 2 ^ 64 = hi at *
    generalize (UInt64.ofNat (a.toNat * x.toNat + y.toNat + c)) = low at *
    simp only [limbsNat, List.length_cons, Nat.mul_succ, pow_add]
    calc _ = low.toNat + 2 ^ 64 * (a.toNat * limbsNat xs + limbsNat ys + hi) := by
          rw [← heq]
          ring
      _ = low.toNat + 2 ^ 64 * hi + 2 ^ 64 * (a.toNat * limbsNat xs + limbsNat ys) := by ring
      _ = _ := by
          rw [hlow]
          ring

theorem subBorrow_limb {x y borrow : UInt64} (hb : borrow.toNat ≤ 1) :
    x.toNat + 2 ^ 64 * ((if x < y then 1 else 0) + if x - y < borrow then 1 else 0 : UInt64).toNat
        = (x - y - borrow).toNat + y.toNat + borrow.toNat
      ∧ ((if x < y then 1 else 0) + if x - y < borrow then 1 else 0 : UInt64).toNat ≤ 1 := by
  have hx := x.toNat_lt
  have hy := y.toNat_lt
  simp only [UInt64.lt_iff_toNat_lt, UInt64.toNat_sub]
  split <;> split <;> simp only [UInt64.reduceAdd, UInt64.reduceToNat] <;> omega

/-- The difference of the limbs, with its borrow. -/
theorem subBorrow_spec (h : xs.length = ys.length) {c : UInt64} (hc : c.toNat ≤ 1) :
    limbsNat xs + 2 ^ (64 * xs.length) * (subBorrow xs ys c).2.toNat
        = limbsNat (subBorrow xs ys c).1 + limbsNat ys + c.toNat
      ∧ (subBorrow xs ys c).1.length = xs.length ∧ (subBorrow xs ys c).2.toNat ≤ 1 := by
  induction xs generalizing ys c with
  | nil =>
    obtain rfl := List.length_eq_zero_iff.mp h.symm
    exact ⟨by simp [subBorrow, limbsNat], rfl, hc⟩
  | cons x xs ih =>
    obtain ⟨y, ys, rfl⟩ := List.exists_cons_of_length_eq_add_one h.symm
    obtain ⟨hlow, hle⟩ := subBorrow_limb (x := x) (y := y) hc
    obtain ⟨heq, hl, hb⟩ := ih (Nat.succ.inj h) hle
    rw [subBorrow]
    refine ⟨?_, congrArg (· + 1) hl, hb⟩
    simp only [limbsNat, List.length_cons, Nat.mul_succ, pow_add]
    generalize ((if x < y then 1 else 0) + if x - y < c then 1 else 0 : UInt64) = next at *
    calc _ = x.toNat + 2 ^ 64 * (limbsNat xs + 2 ^ (64 * xs.length) * (subBorrow xs ys next).2.toNat)
          := by ring
      _ = (x.toNat + 2 ^ 64 * next.toNat)
          + 2 ^ 64 * (limbsNat (subBorrow xs ys next).1 + limbsNat ys) := by rw [heq]; ring
      _ = _ := by rw [hlow]; ring

/-- The rows add up to the product. -/
theorem mulRows_spec (xs : List UInt64) (h : w.length = ys.length) :
    limbsNat (mulRows xs ys w) = limbsNat xs * limbsNat ys + limbsNat w
      ∧ (mulRows xs ys w).length = xs.length + w.length := by
  induction xs generalizing w with
  | nil => simp [mulRows, limbsNat]
  | cons x xs ih =>
    obtain ⟨hrow, hlen, hc⟩ := mulAdd_spec (a := x) h.symm (c := 0) (by decide)
    rw [mulRows]
    generalize mulAdd x ys w 0 = row at *
    have ht : (UInt64.ofNat row.2).toNat = row.2 := UInt64.toNat_ofNat_of_lt' hc
    have hl := limbsNat_append row.1 [UInt64.ofNat row.2]
    rw [limbsNat, limbsNat, ht, hlen, Nat.mul_zero, Nat.add_zero, hrow] at hl
    have hs : (row.1 ++ [UInt64.ofNat row.2]).length = w.length + 1 := by simp [hlen, h]
    split
    next hn =>
      rw [hn] at hs
      cases hs
    next low window hcons =>
      rw [hcons] at hs
      rw [hcons, limbsNat] at hl
      have hw := Nat.succ.inj hs
      obtain ⟨heq, hr⟩ := ih (hw.trans h)
      refine ⟨?_, by rw [List.length_cons, List.length_cons, hr, hw]; omega⟩
      calc _ = low.toNat + 2 ^ 64 * limbsNat window + 2 ^ 64 * (limbsNat xs * limbsNat ys) := by
            rw [limbsNat, heq]
            ring
        _ = _ := by
            rw [hl, limbsNat]
            ring

end AdbFastboot
