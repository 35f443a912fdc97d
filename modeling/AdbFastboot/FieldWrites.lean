import AdbFastboot.Outcome

namespace AdbFastboot

open List

variable {ε : Type}

/-- `buf[off..off + bytes.len()].copy_from_slice(bytes)`. -/
def writeAt (buf : Bytes) (off : Nat) (bytes : Bytes) : Outcome ε Bytes :=
  if off + bytes.length ≤ buf.length then
    .ok (buf.take off ++ (bytes ++ buf.drop (off + bytes.length)))
  else panicked

def writeAll (buf : Bytes) : List (Nat × Bytes) → Outcome ε Bytes
  | [] => .ok buf
  | (off, bytes) :: writes => do
    let buf ← writeAt buf off bytes
    writeAll buf writes

def Ascending (total : Nat) : Nat → List (Nat × Bytes) → Prop
  | pos, [] => pos ≤ total
  | pos, (off, bytes) :: writes => pos ≤ off ∧ Ascending total (off + bytes.length) writes

def laidOut (total : Nat) : Nat → List (Nat × Bytes) → Bytes
  | pos, [] => List.replicate (total - pos) 0
  | pos, (off, bytes) :: writes =>
    List.replicate (off - pos) 0 ++ (bytes ++ laidOut total (off + bytes.length) writes)

variable {total : Nat}

variable {pos : Nat} {writes : List (Nat × Bytes)} {bytes : Bytes}

theorem Ascending.le (h : Ascending total pos writes) : pos ≤ total := by
  induction writes generalizing pos with
  | nil => exact h
  | cons w writes ih =>
    have := ih h.2
    have := h.1
    omega

theorem laidOut_length (h : Ascending total pos writes) :
    (laidOut total pos writes).length = total - pos := by
  induction writes generalizing pos with
  | nil => exact length_replicate
  | cons w writes ih =>
    have hle := h.2.le
    have hp := h.1
    rw [laidOut, length_append, length_append, length_replicate, ih h.2]
    omega

/-- Ascending writes into zeros lay the fields out with zeros between them. -/
theorem writeAll_append_zeros {pre : Bytes} (h : Ascending total pre.length writes) :
    (writeAll (pre ++ List.replicate (total - pre.length) 0) writes : Outcome ε _)
      = .ok (pre ++ laidOut total pre.length writes) := by
  induction writes generalizing pre with
  | nil => rfl
  | cons w writes ih =>
    obtain ⟨off, bytes⟩ := w
    have hp := h.1
    have hle := h.2.le
    have hl : (pre ++ (replicate (off - pre.length) 0 ++ bytes)).length = off + bytes.length := by
      rw [length_append, length_append, length_replicate]
      omega
    have hw : (writeAt (pre ++ replicate (total - pre.length) 0) off bytes : Outcome ε _)
        = .ok (pre ++ (replicate (off - pre.length) 0 ++ bytes)
          ++ replicate (total - (off + bytes.length)) 0) := by
      have ht : (pre ++ replicate (total - pre.length) (0 : UInt8)).take off
          = pre ++ replicate (off - pre.length) 0 := by
        rw [take_append, take_of_length_le hp, take_replicate, Nat.min_eq_left (by omega)]
      have hd : (pre ++ replicate (total - pre.length) (0 : UInt8)).drop
          (off + bytes.length) = replicate (total - (off + bytes.length)) 0 := by
        rw [drop_append, drop_eq_nil_of_le (by omega), nil_append, drop_replicate]
        congr 1
        omega
      rw [writeAt, if_pos, ht, hd]
      · simp
      · rw [length_append, length_replicate]
        omega
    have hr : Ascending total (pre ++ (replicate (off - pre.length) 0 ++ bytes)).length
        writes := by
      rw [hl]
      exact h.2
    rw [writeAll, hw, ok_bind, ← hl, ih hr, laidOut, hl]
    simp

theorem writeAll_zeros (h : Ascending total 0 writes) :
    (writeAll (List.replicate total 0) writes : Outcome ε _) = .ok (laidOut total 0 writes) := by
  have ha : Ascending total ([] : Bytes).length writes := h
  exact writeAll_append_zeros ha

variable {off next : Nat} {front rest : List (Nat × Bytes)}

/-- A field of the layout stands at its offset. -/
theorem laidOut_drop (h : Ascending total pos (front ++ (off, bytes) :: rest)) :
    pos ≤ off ∧ (laidOut total pos (front ++ (off, bytes) :: rest)).drop (off - pos)
      = bytes ++ laidOut total (off + bytes.length) rest := by
  induction front generalizing pos with
  | nil =>
    refine ⟨h.1, ?_⟩
    rw [nil_append, laidOut, drop_left' length_replicate]
  | cons w front ih =>
    have hp := h.1
    obtain ⟨hle, hd⟩ := ih h.2
    refine ⟨by omega, ?_⟩
    have hs : off - pos = (w.1 - pos) + (w.2.length + (off - (w.1 + w.2.length))) := by omega
    rw [cons_append, laidOut, hs, ← drop_drop,
      drop_left' length_replicate, ← drop_drop, drop_left, hd]

theorem Ascending.mem_le (h : Ascending total pos writes) (hw : (off, bytes) ∈ writes) :
    off + bytes.length ≤ total := by
  induction writes generalizing pos with
  | nil => exact absurd hw not_mem_nil
  | cons w writes ih =>
    rcases mem_cons.mp hw with rfl | hw
    · exact h.2.le
    · exact ih h.2 hw

/-- Every field that was written is found at its offset. -/
theorem laidOut_field (h : Ascending total 0 writes) (hw : (off, bytes) ∈ writes)
    (more : Bytes) : ∃ rest, (laidOut total 0 writes ++ more).drop off = bytes ++ rest := by
  have hle : off ≤ (laidOut total 0 writes).length := by
    have he := h.mem_le hw
    rw [laidOut_length h]
    omega
  rw [drop_append_of_le_length hle]
  obtain ⟨front, rest, rfl⟩ := append_of_mem hw
  obtain ⟨-, hd⟩ := laidOut_drop h
  rw [Nat.sub_zero] at hd
  rw [hd, append_assoc]
  exact ⟨_, rfl⟩

section

variable (h : Ascending total next writes) (hle : pos ≤ next)
include h hle

theorem Ascending.mono : Ascending total pos writes := by
  cases writes with
  | nil => exact Nat.le_trans hle h
  | cons w writes => exact ⟨Nat.le_trans hle h.1, h.2⟩

theorem laidOut_gap :
    laidOut total pos writes = List.replicate (next - pos) 0 ++ laidOut total next writes := by
  cases writes with
  | nil =>
    have hn : next ≤ total := h
    rw [laidOut, laidOut, replicate_append_replicate]
    congr 1
    omega
  | cons w writes =>
    have hw := h.1
    have hg : w.1 - pos = next - pos + (w.1 - next) := by omega
    rw [laidOut, laidOut, hg, ← replicate_append_replicate, append_assoc]

end

/-- Up to the next field, a field is followed by zeros. -/
theorem laidOut_slice (h : Ascending total 0 (front ++ (off, bytes) :: rest))
    (hn : Ascending total next rest) (hle : off + bytes.length ≤ next) :
    slice (laidOut total 0 (front ++ (off, bytes) :: rest)) off next
      = bytes ++ List.replicate (next - (off + bytes.length)) 0 := by
  obtain ⟨-, hd⟩ := laidOut_drop h
  rw [Nat.sub_zero, laidOut_gap hn hle, ← append_assoc] at hd
  apply slice_of_drop hd
  rw [length_append, length_replicate]
  omega

theorem ascending_words {base k : Nat} {words : List UInt32} (h : base + (k + words.length) * 4 ≤ total) :
    Ascending total (base + k * 4)
      ((words.zipIdx k).map fun (word, i) => (base + i * 4, u32Le word)) := by
  induction words generalizing k with
  | nil =>
    exact h
  | cons word words ih =>
    rw [length_cons] at h
    have hr := ih (k := k + 1) (by omega)
    refine ⟨Nat.le_refl _, ?_⟩
    rw [u32Le_length]
    have hn : base + k * 4 + 4 = base + (k + 1) * 4 := by omega
    simp only [hn]
    exact hr

end AdbFastboot
