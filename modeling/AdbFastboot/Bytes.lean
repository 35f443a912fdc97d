import Mathlib.Algebra.BigOperators.Group.List.Basic
import Mathlib.Algebra.Order.Ring.Nat

namespace AdbFastboot

open List

abbrev Bytes := List UInt8

def leBytes : Nat → Nat → Bytes
  | 0, _ => []
  | w + 1, n => UInt8.ofNat n :: leBytes w (n / 256)

def leNat : Bytes → Nat
  | [] => 0
  | b :: bs => b.toNat + 256 * leNat bs

variable (w n : Nat)

@[simp] theorem leBytes_length : (leBytes w n).length = w := by
  induction w generalizing n with
  | zero => rfl
  | succ w ih => simp [leBytes, ih]

/-- Little-endian bytes keep the number modulo their range. -/
theorem leNat_leBytes : leNat (leBytes w n) = n % 256 ^ w := by
  induction w generalizing n with
  | zero => simp [leBytes, leNat, Nat.mod_one]
  | succ w ih =>
    have hb : (UInt8.ofNat n).toNat = n % 256 := by simp [UInt8.toNat_ofNat']
    simp only [leBytes, leNat, ih, hb]
    rw [Nat.pow_succ', Nat.mod_mul]

variable (bs : Bytes)

theorem leBytes_leNat : leBytes bs.length (leNat bs) = bs := by
  induction bs with
  | nil => rfl
  | cons b bs ih =>
    have hb := b.toNat_lt
    have hl : UInt8.ofNat (b.toNat + 256 * leNat bs) = b := by
      apply UInt8.toNat.inj
      rw [UInt8.toNat_ofNat', Nat.add_mul_mod_self_left, Nat.mod_eq_of_lt hb]
    have hh : (b.toNat + 256 * leNat bs) / 256 = leNat bs := by omega
    rw [length_cons, leNat, leBytes, hl, hh, ih]

theorem leNat_lt : leNat bs < 256 ^ bs.length := by
  induction bs with
  | nil => exact Nat.one_pos
  | cons b bs ih =>
    have hb := b.toNat_lt
    rw [length_cons, leNat]
    omega

def u16Le (x : UInt16) : Bytes := leBytes 2 x.toNat

def u32Le (x : UInt32) : Bytes := leBytes 4 x.toNat

def u64Le (x : UInt64) : Bytes := leBytes 8 x.toNat

def u16OfLe (bs : Bytes) : UInt16 := UInt16.ofNat (leNat bs)

def u32OfLe (bs : Bytes) : UInt32 := UInt32.ofNat (leNat bs)

def u64OfLe (bs : Bytes) : UInt64 := UInt64.ofNat (leNat bs)

@[simp] theorem u16Le_length (x : UInt16) : (u16Le x).length = 2 := leBytes_length 2 _

@[simp] theorem u32Le_length (x : UInt32) : (u32Le x).length = 4 := leBytes_length 4 _

@[simp] theorem u64Le_length (x : UInt64) : (u64Le x).length = 8 := leBytes_length 8 _

@[simp] theorem u16OfLe_u16Le (x : UInt16) : u16OfLe (u16Le x) = x := by
  have hx : x.toNat < 256 ^ 2 := x.toNat_lt
  rw [u16OfLe, u16Le, leNat_leBytes, Nat.mod_eq_of_lt hx, UInt16.ofNat_toNat]

@[simp] theorem u32OfLe_u32Le (x : UInt32) : u32OfLe (u32Le x) = x := by
  have hx : x.toNat < 256 ^ 4 := x.toNat_lt
  rw [u32OfLe, u32Le, leNat_leBytes, Nat.mod_eq_of_lt hx, UInt32.ofNat_toNat]

@[simp] theorem u64OfLe_u64Le (x : UInt64) : u64OfLe (u64Le x) = x := by
  have hx : x.toNat < 256 ^ 8 := x.toNat_lt
  rw [u64OfLe, u64Le, leNat_leBytes, Nat.mod_eq_of_lt hx, UInt64.ofNat_toNat]

def beBytes (w n : Nat) : Bytes := (leBytes w n).reverse

def beNat (bs : Bytes) : Nat := leNat bs.reverse

@[simp] theorem beBytes_length : (beBytes w n).length = w := by
  rw [beBytes, length_reverse, leBytes_length]

/-- Big-endian bytes keep the number modulo their range. -/
theorem beNat_beBytes : beNat (beBytes w n) = n % 256 ^ w := by
  rw [beNat, beBytes, reverse_reverse, leNat_leBytes]

theorem beBytes_beNat : beBytes bs.length (beNat bs) = bs := by
  have h := leBytes_leNat bs.reverse
  rw [length_reverse] at h
  rw [beBytes, beNat, h, reverse_reverse]

theorem beNat_lt : beNat bs < 256 ^ bs.length := by
  have h := leNat_lt bs.reverse
  rw [length_reverse] at h
  exact h

theorem u32_toNat_pos {x : UInt32} (h : x ≠ 0) : 0 < x.toNat := by
  apply Nat.pos_of_ne_zero
  intro hx
  exact h (UInt32.toNat_inj.mp hx)

/-- Two ways to cut one list differ by what is between the cuts. -/
theorem append_cut {α : Type} {a b c d : List α} (h : a ++ b = c ++ d)
    (hle : a.length ≤ c.length) : ∃ m, c = a ++ m ∧ b = m ++ d := by
  obtain ⟨m, hm⟩ : a <+: c := prefix_of_prefix_length_le ⟨b, h⟩ ⟨d, rfl⟩ hle
  refine ⟨m, hm.symm, ?_⟩
  rw [← hm, append_assoc] at h
  exact append_cancel_left h

def slice (data : Bytes) (a b : Nat) : Bytes := (data.drop a).take (b - a)

def u16At (data : Bytes) (off : Nat) : UInt16 := u16OfLe (slice data off (off + 2))

def u32At (data : Bytes) (off : Nat) : UInt32 := u32OfLe (slice data off (off + 4))

def u64At (data : Bytes) (off : Nat) : UInt64 := u64OfLe (slice data off (off + 8))

variable {data rest : Bytes} {a b : Nat}

theorem slice_length (hb : b ≤ data.length) : (slice data a b).length = b - a := by
  simp only [slice, length_take, length_drop]
  omega

theorem slice_within (data : Bytes) (a b : Nat) : slice data a b <:+: data :=
  ( take_prefix _ _).isInfix.trans (drop_suffix _ _).isInfix

/-- A field is found at its offset. -/
theorem slice_of_drop {field : Bytes} (h : data.drop a = field ++ rest)
    (hl : b = a + field.length) : slice data a b = field := by
  simp [slice, h, hl]

theorem slice_append_left (hb : b ≤ data.length) : slice (data ++ rest) a b = slice data a b := by
  unfold slice
  rw [drop_append, take_append_of_le_length]
  simp only [length_drop]
  omega

/-- Behind a field the data goes on. -/
theorem drop_field {field : Bytes} (h : data.drop a = field ++ rest)
    (hl : b = a + field.length) : data.drop b = rest := by
  rw [hl, ← drop_drop, h, drop_left]

variable {off : Nat}

theorem u16At_of_drop {x : UInt16} (h : data.drop off = u16Le x ++ rest) : u16At data off = x := by
  rw [u16At, slice_of_drop h (by simp), u16OfLe_u16Le]

theorem u32At_of_drop {x : UInt32} (h : data.drop off = u32Le x ++ rest) : u32At data off = x := by
  rw [u32At, slice_of_drop h (by simp), u32OfLe_u32Le]

theorem u64At_of_drop {x : UInt64} (h : data.drop off = u64Le x ++ rest) : u64At data off = x := by
  rw [u64At, slice_of_drop h (by simp), u64OfLe_u64Le]

/-- `data.chunks(n)`. -/
def chunksOf (n : Nat) (data : Bytes) : List Bytes :=
  (List.range ((data.length + n - 1) / n)).map fun i => (data.drop (i * n)).take n

theorem chunksOf_length_le {n : Nat} {chunk : Bytes} (h : chunk ∈ chunksOf n data) :
    chunk.length ≤ n := by
  obtain ⟨i, -, rfl⟩ := mem_map.mp h
  rw [length_take]
  exact Nat.min_le_left _ _

/-- The chunks of a list give it back. -/
theorem chunksOf_flatten {n : Nat} (hn : 0 < n) (data : Bytes) : (chunksOf n data).flatten = data := by
  have hf : ∀ k, ((range k).map fun i => (data.drop (i * n)).take n).flatten
      = data.take (k * n) := by
    intro k
    induction k with
    | zero => rw [Nat.zero_mul]; rfl
    | succ k ih =>
      rw [range_succ, map_append, flatten_append, ih, Nat.succ_mul, take_add]
      simp
  rw [chunksOf, hf, take_of_length_le]
  have hd := Nat.div_add_mod (data.length + n - 1) n
  have hm := Nat.mod_lt (data.length + n - 1) hn
  rw [Nat.mul_comm]
  omega

end AdbFastboot
