import AdbFastboot.Utf8

namespace AdbFastboot

open List

variable {ranges : List (Nat × Nat)}

theorem tailMatch_take_ge (hr : ∀ r ∈ ranges, 0x80 ≤ r.1) (bs : Bytes) :
    ∀ x ∈ bs.take (tailMatch ranges bs), 0x80 ≤ x.toNat := by
  induction ranges generalizing bs with
  | nil => simp [tailMatch]
  | cons r ranges ih =>
    rw [forall_mem_cons] at hr
    cases bs with
    | nil => simp [tailMatch]
    | cons b bs =>
      rw [tailMatch]
      split
      next hb =>
        intro x hx
        rcases mem_cons.mp hx with rfl | hx
        · omega
        · exact ih hr.2 bs x hx
      next => simp

theorem tailMatch_full {bs : Bytes} (h : tailMatch ranges bs = ranges.length) :
    List.Forall₂ (fun (r : Nat × Nat) (b : UInt8) => r.1 ≤ b.toNat ∧ b.toNat ≤ r.2) ranges
      (bs.take (tailMatch ranges bs)) := by
  induction ranges generalizing bs with
  | nil => simp [tailMatch]
  | cons r ranges ih =>
    cases bs with
    | nil => simp [tailMatch] at h
    | cons b bs =>
      rw [tailMatch] at h ⊢
      split at h
      next hb =>
        rw [if_pos hb, take_succ_cons]
        exact .cons hb (ih (by simpa using h))
      next => simp at h

theorem char_ofNat_ge {n : Nat} (hge : 0x80 ≤ n) (h : n < 0xD800 ∨ 0xDFFF < n ∧ n < 0x110000) :
    0x80 ≤ (Char.ofNat n).toNat := by
  have hv := h
  rw [Char.ofNat, dif_pos hv]
  exact hge

theorem char_ofNat_ge_of_tail {lead : Nat} (hl : 0x80 ≤ lead)
    (hr : utf8Tail lead = some ranges) {tail : Bytes}
    (hi : List.Forall₂ (fun (r : Nat × Nat) (b : UInt8) => r.1 ≤ b.toNat ∧ b.toNat ≤ r.2) ranges
      tail) :
    0x80 ≤ (Char.ofNat (tail.foldl (fun v b => v * 64 + b.toNat % 64)
      (leadBits lead ranges.length))).toNat := by
  unfold utf8Tail at hr
  repeat' split at hr
  all_goals first | cases hr; done | cases hr
  all_goals rcases hi with _ | ⟨h1, _ | ⟨h2, _ | ⟨h3, _ | _⟩⟩⟩
  all_goals
    apply char_ofNat_ge <;> simp only [foldl, leadBits, List.length] <;> omega

/-- A byte that is not ASCII starts no ASCII character. -/
theorem utf8Next_char_ge {b : UInt8} (hb : 0x80 ≤ b.toNat) (bs : Bytes) :
    0x80 ≤ ((utf8Next b bs).1.getD '�').toNat := by
  unfold utf8Next
  split
  next => decide
  next ranges hr =>
    dsimp only
    split
    next hf =>
      have hi := tailMatch_full hf
      rw [Option.getD_some, hf]
      rw [hf] at hi
      generalize bs.take ranges.length = tail at hi
      exact char_ofNat_ge_of_tail hb hr hi
    next => exact (by decide : 0x80 ≤ '�'.toNat)

/-- No ASCII byte is taken into a character. -/
theorem utf8Next_take_ge (b : UInt8) (bs : Bytes) :
    ∀ x ∈ bs.take (utf8Next b bs).2, 0x80 ≤ x.toNat := by
  unfold utf8Next
  split
  next => simp
  next ranges hr =>
    have hge := tailMatch_take_ge (utf8Tail_ge hr) bs
    dsimp only
    split
    next => exact hge
    next => exact hge

/-- A decoded text has as many ASCII characters as there are ASCII bytes: no malformed sequence
takes one in, and none comes out of a longer sequence. -/
theorem utf8Lossy_countP_ascii (bs : Bytes) :
    (utf8LossyAfter 0 bs).countP (·.toNat < 0x80) = bs.countP (·.toNat < 0x80) := by
  induction hn : bs.length using Nat.strongRecOn generalizing bs with
  | ind n ih =>
    cases bs with
    | nil => rfl
    | cons b bs =>
      have ht := ih (bs.drop (utf8Next b bs).2).length
        (by simp only [length_drop, length_cons] at hn ⊢; omega) _ rfl
      have hs : (bs.take (utf8Next b bs).2).countP (·.toNat < 0x80) = 0 := by
        rw [countP_eq_zero]
        intro x hx
        have hge := utf8Next_take_ge b bs x hx
        simpa using hge
      have hsp : bs.countP (·.toNat < 0x80) = (bs.drop (utf8Next b bs).2).countP (·.toNat < 0x80) := by
        conv_lhs => rw [← take_append_drop (utf8Next b bs).2 bs]
        rw [countP_append, hs, Nat.zero_add]
      rw [utf8LossyAfter_cons, countP_cons, countP_cons, ht, hsp]
      by_cases hb : b.toNat < 0x80
      · rw [utf8Next_ascii hb]
        have hc := char_ofNat_toNat (n := b.toNat) (by omega)
        simp [hb, hc]
      · have hc := utf8Next_char_ge (Nat.le_of_not_lt hb) bs
        simp [hb, Nat.not_lt.mpr hc]

end AdbFastboot
