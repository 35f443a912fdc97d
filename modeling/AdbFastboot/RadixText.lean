import Mathlib.Data.Nat.Digits.Defs

namespace AdbFastboot

open List

def hexDigit (c : Char) : Option Nat :=
  if '0' ≤ c ∧ c ≤ '9' then some (c.toNat - '0'.toNat)
  else if 'a' ≤ c ∧ c ≤ 'f' then some (c.toNat - 'a'.toNat + 10)
  else if 'A' ≤ c ∧ c ≤ 'F' then some (c.toNat - 'A'.toNat + 10)
  else none

theorem hexDigit_lt {c : Char} {d : Nat} (h : hexDigit c = some d) : d < 16 ∧ c.toNat < 0x80 := by
  unfold hexDigit at h
  simp only [Char.le_def, UInt32.le_iff_toNat_le] at h
  have hc : c.val.toNat = c.toNat := rfl
  split at h
  next hr =>
    cases h
    have h9 : '9'.val.toNat = 57 := rfl
    have h0 : '0'.toNat = 48 := rfl
    omega
  next =>
    split at h
    next hr =>
      cases h
      have hf : 'f'.val.toNat = 102 := rfl
      have ha : 'a'.toNat = 97 := rfl
      omega
    next =>
      split at h
      next hr =>
        cases h
        have hf : 'F'.val.toNat = 70 := rfl
        have ha : 'A'.toNat = 65 := rfl
        omega
      next => simp at h

theorem hexDigit_digitChar {d : Nat} (h : d < 16) : hexDigit (Nat.digitChar d) = some d := by
  have ha : ∀ d : Fin 16, hexDigit (Nat.digitChar d) = some d.val := by decide
  exact ha ⟨d, h⟩

def digitIn (radix : Nat) (c : Char) : Option Nat := (hexDigit c).filter fun d => d < radix

/-- The digits accumulated on `acc`, as long as the value stays below `bound`. -/
def radixValue (radix bound : Nat) (acc : Nat) : List Char → Option Nat
  | [] => some acc
  | c :: cs => do
    let d ← digitIn radix c
    if acc * radix + d < bound then radixValue radix bound (acc * radix + d) cs else none

/-- `from_str_radix` of an unsigned type with the values below `bound`: digits, after a plus sign
or not. -/
def fromStrRadix (radix bound : Nat) (text : List Char) : Option Nat :=
  match text with
  | [] => none
  | ['+'] => none
  | '+' :: digits => radixValue radix bound 0 digits
  | digits => radixValue radix bound 0 digits

def padDigits (radix width n : Nat) : List Char :=
  List.replicate (width - (Nat.toDigits radix n).length) '0' ++ Nat.toDigits radix n

variable {radix bound : Nat}

theorem digitIn_digitChar (hr : radix ≤ 16) {d : Nat} (hd : d < radix) :
    digitIn radix (Nat.digitChar d) = some d := by
  rw [digitIn, hexDigit_digitChar (by omega), Option.filter_some, if_pos (decide_eq_true hd)]

variable {c : Char} {cs : List Char} {n : Nat}

theorem radixValue_cons {acc d : Nat} (hc : digitIn radix c = some d) (hlt : acc * radix + d < bound) :
    radixValue radix bound acc (c :: cs) = radixValue radix bound (acc * radix + d) cs := by
  rw [radixValue, hc, Option.bind_eq_bind, Option.bind_some, if_pos hlt]

/-- Digits are read from left to right. -/
theorem radixValue_append (acc : Nat) (xs ys : List Char) : radixValue radix bound acc (xs ++ ys)
      = (radixValue radix bound acc xs).bind fun acc => radixValue radix bound acc ys := by
  induction xs generalizing acc with
  | nil => rfl
  | cons c xs ih =>
    rw [cons_append, radixValue, radixValue, Option.bind_eq_bind, Option.bind_assoc]
    congr 1
    funext d
    split
    next => exact ih _
    next => rfl

theorem radixValue_zeros (hr : 0 < radix) (hb : 0 < bound) (k : Nat) (cs : List Char) :
    radixValue radix bound 0 (List.replicate k '0' ++ cs) = radixValue radix bound 0 cs := by
  have hz : digitIn radix '0' = some 0 := by
    rw [digitIn, show hexDigit '0' = some 0 from rfl, Option.filter_some, if_pos (decide_eq_true hr)]
  induction k with
  | zero => rfl
  | succ k ih =>
    rw [replicate_succ, cons_append, radixValue_cons hz (by omega), Nat.zero_mul, Nat.add_zero, ih]

/-- The digits of a number are read back. -/
theorem radixValue_toDigits (hr : 1 < radix) (hr16 : radix ≤ 16) (hn : n < bound) :
    radixValue radix bound 0 (Nat.toDigits radix n) = some n := by
  induction n using Nat.strong_induction_on with
  | _ n ih =>
    rw [Nat.toDigits_eq_if hr]
    split
    next hlt =>
      rw [radixValue_cons (digitIn_digitChar hr16 hlt) (by omega), Nat.zero_mul, Nat.zero_add]
      rfl
    next hge =>
      have hp : 0 < n := by omega
      have hd := Nat.div_lt_self hp hr
      have hm : n % radix < radix := Nat.mod_lt n (by omega)
      have hs := Nat.div_add_mod' n radix
      rw [radixValue_append, ih (n / radix) hd (by omega), Option.bind_some,
        radixValue_cons (digitIn_digitChar hr16 hm) (by omega), hs]
      rfl

theorem digitIn_of_mem_toDigits (hr : 1 < radix) (hr16 : radix ≤ 16)
    (hc : c ∈ Nat.toDigits radix n) : (digitIn radix c).isSome := by
  induction n using Nat.strong_induction_on with
  | _ n ih =>
    rw [Nat.toDigits_eq_if hr] at hc
    split at hc
    next hlt =>
      cases mem_singleton.mp hc
      rw [digitIn_digitChar hr16 hlt]
      rfl
    next hge =>
      rcases mem_append.mp hc with hc | hc
      · exact ih (n / radix) (Nat.div_lt_self (by omega) hr) hc
      · cases mem_singleton.mp hc
        rw [digitIn_digitChar hr16 (Nat.mod_lt n (by omega))]
        rfl

theorem digitIn_ascii (h : (digitIn radix c).isSome) : c.toNat < 0x80 := by
  obtain ⟨d, hd⟩ := Option.isSome_iff_exists.mp h
  exact (hexDigit_lt (Option.filter_eq_some_iff.mp hd).1).2

theorem digitIn_of_mem_padDigits (hr : 1 < radix) (hr16 : radix ≤ 16) {width : Nat}
    (hc : c ∈ padDigits radix width n) : (digitIn radix c).isSome := by
  rcases mem_append.mp hc with hc | hc
  · have hz := eq_of_mem_replicate hc
    have hd := digitIn_digitChar hr16 (show 0 < radix by omega)
    rw [hz, show '0' = Nat.digitChar 0 from rfl, hd]
    rfl
  · exact digitIn_of_mem_toDigits hr hr16 hc

/-- A text that starts with a digit has no sign to take off. -/
theorem fromStrRadix_of_digits (hne : cs ≠ []) (hc : ∀ c ∈ cs, (digitIn radix c).isSome) :
    fromStrRadix radix bound cs = radixValue radix bound 0 cs := by
  have hp : digitIn radix '+' = none := rfl
  unfold fromStrRadix
  split
  next => exact absurd rfl hne
  next =>
    have hf := hc '+' mem_cons_self
    simp [hp] at hf
  next =>
    have hf := hc '+' mem_cons_self
    simp [hp] at hf
  next => rfl

theorem radixValue_isSome {acc k : Nat} (hc : ∀ c ∈ cs, (digitIn radix c).isSome)
    (ha : acc < radix ^ k) (hb : radix ^ (k + cs.length) ≤ bound) :
    (radixValue radix bound acc cs).isSome := by
  induction cs generalizing acc k with
  | nil => rfl
  | cons c cs ih =>
    rw [forall_mem_cons] at hc
    obtain ⟨d, hd⟩ := Option.isSome_iff_exists.mp hc.1
    have hlt : d < radix := of_decide_eq_true (Option.filter_eq_some_iff.mp hd).2
    have hn : acc * radix + d < radix ^ (k + 1) :=
      calc acc * radix + d < (acc + 1) * radix := by
            rw [Nat.succ_mul]
            omega
        _ ≤ radix ^ k * radix := Nat.mul_le_mul_right radix ha
    have hk : k + 1 + cs.length = k + (c :: cs).length := by
      rw [length_cons]
      omega
    have hf := Nat.lt_of_lt_of_le hn
      ((Nat.pow_le_pow_right (by omega) (by omega)).trans (hk.symm ▸ hb))
    rw [radixValue_cons hd hf]
    exact ih hc.2 hn (hk.symm ▸ hb)

/-- Digits in a number that `bound` leaves room for are a value. -/
theorem fromStrRadix_isSome (hc : ∀ c ∈ cs, (digitIn radix c).isSome) (hne : cs ≠ [])
    (hb : radix ^ cs.length ≤ bound) : (fromStrRadix radix bound cs).isSome := by
  rw [fromStrRadix_of_digits hne hc]
  exact radixValue_isSome hc Nat.one_pos (by rwa [Nat.zero_add])

theorem digitIn_sixteen (h : (hexDigit c).isSome) : (digitIn 16 c).isSome := by
  obtain ⟨d, hd⟩ := Option.isSome_iff_exists.mp h
  rw [digitIn, hd, Option.filter_some, if_pos (decide_eq_true (hexDigit_lt hd).1)]
  rfl

theorem fromStrRadix_toDigits (hr : 1 < radix) (hr16 : radix ≤ 16) (hn : n < bound) :
    fromStrRadix radix bound (Nat.toDigits radix n) = some n := by
  rw [fromStrRadix_of_digits Nat.toDigits_ne_nil fun c hc => digitIn_of_mem_toDigits hr hr16 hc,
    radixValue_toDigits hr hr16 hn]

theorem padDigits_ne_nil (radix width n : Nat) : padDigits radix width n ≠ [] := by
  intro h
  exact Nat.toDigits_ne_nil (append_eq_nil_iff.mp h).2

/-- Leading zeros do not change what is read. -/
theorem fromStrRadix_padDigits (hr : 1 < radix) (hr16 : radix ≤ 16) (width : Nat) (hn : n < bound) :
    fromStrRadix radix bound (padDigits radix width n) = some n := by
  rw [fromStrRadix_of_digits (padDigits_ne_nil radix width n)
    fun c hc => digitIn_of_mem_padDigits hr hr16 hc, padDigits,
    radixValue_zeros (by omega) (by omega), radixValue_toDigits hr hr16 hn]

/-- A number that fits its width is padded to it. -/
theorem padDigits_length (hr : 1 < radix) {width : Nat} (hw : 0 < width) (hn : n < radix ^ width) :
    (padDigits radix width n).length = width := by
  have hle := (Nat.length_toDigits_le_iff hr hw).mpr hn
  rw [padDigits, length_append, length_replicate]
  omega

end AdbFastboot
