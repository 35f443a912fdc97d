import Mathlib.Data.List.Prime
import Mathlib.NumberTheory.LucasPrimality
import Mathlib.Tactic.NormNum.Prime

namespace AdbFastboot

open List

/-- The power `a ^ n` modulo `m`, for an exponent of at most `bits` bits. -/
def powMod (m : Nat) : Nat → Nat → Nat → Nat
  | 0, _, _ => 1
  | bits + 1, a, n =>
    let r := powMod m bits (a * a % m) (n / 2)
    if n % 2 = 1 then r * a % m else r

/-- Powers by squaring are powers modulo m. -/
theorem powMod_cast {m bits a n : Nat} (h : n < 2 ^ bits) :
    (powMod m bits a n : ZMod m) = (a : ZMod m) ^ n := by
  induction bits generalizing a n with
  | zero =>
    obtain rfl : n = 0 := by simpa using h
    simp [powMod]
  | succ bits ih =>
    have hr := ih (a := a * a % m) (n := n / 2) (by omega)
    rw [ZMod.natCast_mod, Nat.cast_mul, ← pow_two (a : ZMod m), ← pow_mul] at hr
    rw [powMod]
    split
    next ho =>
      rw [ZMod.natCast_mod, Nat.cast_mul, hr, ← pow_succ]
      congr 1
      omega
    next he =>
      rw [hr]
      congr 1
      omega

theorem powMod_eq_one_iff {m bits a n : Nat} (hm : 1 < m) (h : n < 2 ^ bits) :
    powMod m bits a n % m = 1 ↔ (a : ZMod m) ^ n = 1 := by
  have hc := ZMod.natCast_eq_natCast_iff' (powMod m bits a n) 1 m
  rw [powMod_cast h, Nat.cast_one, Nat.mod_eq_of_lt hm] at hc
  exact hc.symm

/-- Lucas' test: `a` has order `p - 1`, whose prime factors are `qs`. -/
def lucasTest (p a : Nat) (qs : List Nat) : Bool :=
  1 < p && p < 2 ^ 256 && qs.prod = p - 1 && powMod p 256 a (p - 1) % p = 1
    && qs.all fun q => powMod p 256 a ((p - 1) / q) % p ≠ 1

/-- A number that passes the test with all prime factors is prime. -/
theorem lucasTest_prime {p : Nat} (a : Nat) (small large : List Nat)
    (h : lucasTest p a (small ++ large)) (hs : ∀ q ∈ small, q.Prime)
    (hl : ∀ q ∈ large, q.Prime) : p.Prime := by
  simp only [lucasTest, Bool.and_eq_true, decide_eq_true_eq, all_eq_true] at h
  obtain ⟨⟨⟨⟨hp, hlt⟩, hprod⟩, ho⟩, hne⟩ := h
  refine lucas_primality p a ((powMod_eq_one_iff hp (by omega)).mp ho) fun q hq hd => ?_
  rw [← hprod] at hd
  obtain ⟨x, hx, hqx⟩ := (Prime.dvd_prod_iff hq.prime).mp hd
  have hxp : x.Prime := (mem_append.mp hx).elim (hs x) (hl x)
  obtain rfl := (Nat.prime_dvd_prime_iff_eq hq hxp).mp hqx
  have hdiv : (p - 1) / q ≤ p - 1 := Nat.div_le_self _ _
  exact fun h => hne q hx ((powMod_eq_one_iff hp (by omega)).mpr h)

end AdbFastboot
