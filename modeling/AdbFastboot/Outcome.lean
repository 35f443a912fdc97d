import AdbFastboot.Bytes

namespace AdbFastboot

/-- How a call that does not return a value ends: a reported error or a panic. -/
inductive Fault (ε : Type) where
  | err (e : ε)
  | panic
deriving DecidableEq, Repr

abbrev Outcome (ε α : Type) := Except (Fault ε) α

inductive FastbootTransportError where
  | io (text : String)
  | protocol (text : String)
deriving DecidableEq, Repr

/-- Whether integer overflow is checked (it then panics) or wraps around. -/
inductive Profile where
  | debug
  | release
deriving DecidableEq, Repr

variable {ε α β : Type}

def fail (e : ε) : Outcome ε α := .error (.err e)

def panicked : Outcome ε α := .error .panic

def NoPanic (r : Outcome ε α) : Prop := r ≠ panicked

@[simp] theorem ok_bind (a : α) (f : α → Outcome ε β) : ((Except.ok a : Outcome ε α) >>= f) = f a := rfl

@[simp] theorem pure_eq_ok (a : α) : (pure a : Outcome ε α) = .ok a := rfl

@[simp] theorem fail_bind (e : ε) (f : α → Outcome ε β) : ((fail e : Outcome ε α) >>= f) = fail e := rfl

@[simp] theorem fail_ne_ok (e : ε) (a : α) : (fail e : Outcome ε α) ≠ .ok a := by
  simp [fail]

@[simp] theorem panicked_ne_ok (a : α) : (panicked : Outcome ε α) ≠ .ok a := by
  simp [panicked]

@[simp] theorem noPanic_ok (a : α) : NoPanic (.ok a : Outcome ε α) := by
  simp [NoPanic, panicked]

@[simp] theorem noPanic_fail (e : ε) : NoPanic (fail e : Outcome ε α) := by
  simp [NoPanic, panicked, fail]

@[simp] theorem not_noPanic_panicked : ¬NoPanic (panicked : Outcome ε α) := by
  simp [NoPanic]

/-- A sequence succeeds exactly if both parts do. -/
theorem bind_eq_ok {x : Outcome ε α} {f : α → Outcome ε β} {b : β} :
    (x >>= f) = .ok b ↔ ∃ a, x = .ok a ∧ f a = .ok b := by
  cases x with
  | ok a => simp
  | error e => simp [bind, Except.bind]

/-- A sequence panics only where its first part does, or where the rest does. -/
theorem noPanic_bind {x : Outcome ε α} {f : α → Outcome ε β} (hx : NoPanic x)
    (hf : ∀ a, x = .ok a → NoPanic (f a)) : NoPanic (x >>= f) := by
  cases x with
  | ok a => exact hf a rfl
  | error e =>
    cases e with
    | err e => exact noPanic_fail e
    | panic => exact absurd rfl hx

section

variable {p : Prop} [Decidable p] {e : ε} {r : Outcome ε α}

/-- A check that returns an error does not panic; what follows may rely on the check. -/
theorem noPanic_guard (h : ¬p → NoPanic r) : NoPanic (if p then fail e else r) := by
  split
  next => exact noPanic_fail e
  next hp => exact h hp

theorem guard_eq_ok {a : α} (h : (if p then fail e else r) = .ok a) : ¬p ∧ r = .ok a := by
  split at h
  next => simp at h
  next hp => exact ⟨hp, h⟩

end

def sliceAt (data : Bytes) (a b : Nat) : Outcome ε Bytes :=
  if a ≤ b ∧ b ≤ data.length then .ok (slice data a b) else panicked

variable {data : Bytes} {b a : Nat}

theorem sliceAt_ok (ha : a ≤ b) (hb : b ≤ data.length) :
    (sliceAt data a b : Outcome ε _) = .ok (slice data a b) := by
  simp [sliceAt, ha, hb]

/-- A slice that was taken lies within the data. -/
theorem sliceAt_eq_ok {bs : Bytes} (h : (sliceAt data a b : Outcome ε _) = .ok bs) :
    a ≤ b ∧ b ≤ data.length ∧ bs = slice data a b := by
  unfold sliceAt at h
  split at h
  next hr => exact ⟨hr.1, hr.2, (Except.ok.inj h).symm⟩
  next => simp at h

def readU16 (data : Bytes) (off : Nat) : Outcome ε UInt16 := do
  let bs ← sliceAt data off (off + 2)
  pure (u16OfLe bs)

def readU32 (data : Bytes) (off : Nat) : Outcome ε UInt32 := do
  let bs ← sliceAt data off (off + 4)
  pure (u32OfLe bs)

def readU64 (data : Bytes) (off : Nat) : Outcome ε UInt64 := do
  let bs ← sliceAt data off (off + 8)
  pure (u64OfLe bs)

variable {off : Nat}

theorem readU16_ok (h : off + 2 ≤ data.length) :
    (readU16 data off : Outcome ε _) = .ok (u16At data off) := by
  simp [readU16, sliceAt_ok (show off ≤ off + 2 by omega) h, u16At]

theorem readU32_ok (h : off + 4 ≤ data.length) :
    (readU32 data off : Outcome ε _) = .ok (u32At data off) := by
  simp [readU32, sliceAt_ok (show off ≤ off + 4 by omega) h, u32At]

theorem readU64_ok (h : off + 8 ≤ data.length) :
    (readU64 data off : Outcome ε _) = .ok (u64At data off) := by
  simp [readU64, sliceAt_ok (show off ≤ off + 8 by omega) h, u64At]

/-- `a + b` on a 64-bit `usize`, out of range a panic. -/
def addUsize (a b : Nat) : Outcome ε Nat := if a + b < 2 ^ 64 then .ok (a + b) else panicked

theorem addUsize_ok (h : a + b < 2 ^ 64) : (addUsize a b : Outcome ε _) = .ok (a + b) := by
  rw [addUsize, if_pos h]

theorem addUsize_eq_ok {c : Nat} (h : (addUsize a b : Outcome ε _) = .ok c) : c = a + b := by
  unfold addUsize at h
  split at h
  next => exact (Except.ok.inj h).symm
  next => simp at h

def subUsize (a b : Nat) : Outcome ε Nat := if b ≤ a then .ok (a - b) else panicked

def mulUsize (a b : Nat) : Outcome ε Nat := if a * b < 2 ^ 64 then .ok (a * b) else panicked

theorem subUsize_ok (h : b ≤ a) : (subUsize a b : Outcome ε _) = .ok (a - b) := by
  rw [subUsize, if_pos h]

theorem mulUsize_ok (h : a * b < 2 ^ 64) : (mulUsize a b : Outcome ε _) = .ok (a * b) := by
  rw [mulUsize, if_pos h]

/-- `a + b` on `u32`: out of range it panics or wraps, as the profile says. -/
def addU32 (profile : Profile) (a b : UInt32) : Outcome ε UInt32 :=
  if a.toNat + b.toNat < 2 ^ 32 then .ok (a + b)
  else match profile with
    | .debug => panicked
    | .release => .ok (a + b)

theorem addU32_ok {profile : Profile} {a b : UInt32} (h : a.toNat + b.toNat < 2 ^ 32) :
    (addU32 profile a b : Outcome ε _) = .ok (a + b) := by
  unfold addU32
  rw [if_pos h]

theorem addU32_eq_ok {profile : Profile} {a b c : UInt32}
    (h : (addU32 profile a b : Outcome ε _) = .ok c) : c = a + b := by
  unfold addU32 at h
  split at h
  next => exact (Except.ok.inj h).symm
  cases profile with
  | debug => simp at h
  | release => exact (Except.ok.inj h).symm

theorem addU32_debug_eq_ok {a b c : UInt32} (h : (addU32 .debug a b : Outcome ε _) = .ok c) :
    a.toNat + b.toNat < 2 ^ 32 ∧ c.toNat = a.toNat + b.toNat := by
  unfold addU32 at h
  split at h
  next hr =>
    cases h
    exact ⟨hr, by rw [UInt32.toNat_add, Nat.mod_eq_of_lt hr]⟩
  next => simp at h

end AdbFastboot
